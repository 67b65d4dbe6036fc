import Hyperagents.Flushes
import Hyperagents.FrozenGuests
import Hyperagents.SyncRestore
/-!
# What the mounts leave of a guest's memory

Every mount that finds no slot of its agent's flushes the guest, and `do_sync` patches the guest's kernel while it
runs.  Where each of these calls meets the conditions of `OurCall`, at distinct addresses, nothing of the patches is
left: after any orderly run the memory of a guest is what its own writes made of the memory it had at first.
-/
namespace Hyperagents

open Runs Planting

/-- The writes that the guest of a handle made itself, as the log has them. -/
def writesOf (v : Vmi) (t : List HaAct) : List (Addr × Byte) := ownWrites (syncsOf v t)

variable {δ : Type} {shell : Shell δ} {env : MountEnv} {v : Vmi} {s s' : HaState δ}

/-- The conditions under which a call of `do_sync` leaves nothing of its own behind. -/
structure CleanCall (c : SyncCall) (g : Globals) (guest : Guest) : Prop where
  injective : Function.Injective (resolved c g)
  found : resolved c g .dwork ≠ 0
  ours : OurCall c g guest

/-- The memory after a clean call is the one before it, with the guest's own writes. -/
theorem CleanCall.mem {ghostImage : String} {c : SyncCall} {g : Globals} {guest : Guest} {ret : Int} {t : SyncState}
    (hc : CleanCall c g guest) (h : doSync ghostImage c g guest = some (ret, t)) :
    t.mem = pokes guest.mem (ownWrites t.trace) := by
  obtain ⟨hinj, hfn, hours⟩ := hc
  funext a
  by_cases ha : ∃ b, resolved c g b = a
  · obtain ⟨b, rfl⟩ := ha
    obtain ⟨m, hm, hat⟩ := doSync_memAt hfn hours h b
    rw [hat, restore_plant (by decide) (by decide) hinj (mem_installOrder b) (mem_replaceOrder b) (hm _)]
    exact (pokes_of_not_mem _ _ _ (ownWrites_off hfn hours h b)).symm
  · exact doSync_memOff hfn hours h a fun b hb => ha ⟨b, hb⟩

/-- `do_sync` pauses the guest at once, so whether it was paused does not count. -/
theorem CleanCall.of_mem {c : SyncCall} {g : Globals} {guest guest' : Guest} (h : CleanCall c g guest)
    (hmem : guest'.mem = guest.mem) : CleanCall c g guest' := by
  obtain ⟨m, p⟩ := guest
  obtain ⟨m', p'⟩ := guest'
  cases hmem
  exact ⟨h.injective, h.found, h.ours.ticks, h.ours.late⟩

theorem Unflushed.writesOf (h : Unflushed s s') (w : Vmi) : writesOf w s'.log = writesOf w s.log :=
  congrArg ownWrites (h.syncsOf w)

theorem Flush.writesOf {t : SyncState} (h : Flush env v t s s') (w : Vmi) :
    writesOf w s'.log = writesOf w s.log ++ if v = w then ownWrites t.trace else [] := by
  unfold Hyperagents.writesOf
  rw [h.syncsOf, ownWrites_append]
  split <;> rfl

/-- **A clean flush** leaves the guest's memory with its own writes alone. -/
theorem Flush.clean {t : SyncState} (h : Flush env v t s s') (hclean : CleanCall env.sync s.globals (s.guestOf v)) :
    (s'.guestOf v).mem = pokes (s.guestOf v).mem (ownWrites t.trace) := by
  obtain ⟨paused, hsync⟩ := h.sync
  rw [h.mem]
  exact (hclean.of_mem rfl).mem hsync

/-! ## One call -/

/-- A mount that flushes its guest does so cleanly. -/
def CleanStep (_ : List HaOp) (s : HaState δ) : HaOp → Prop
  | .mountDisk n env => ∀ ha, s.agents n = some ha → s.records.lookup ha.vmi = none →
      CleanCall env.sync s.globals (s.guestOf ha.vmi)
  | .addAgent _ _ _ _ _ | .unmountDisk _ => True

/-- **The invariant**: the memory of a guest with a handle has its own writes made to it, as the log has them; the
memory of the others is as it was. -/
structure Untampered (guests : String → Guest) (s : HaState δ) : Prop where
  own : ∀ v n, s.handles v = some n → (s.guests n).mem = pokes (guests n).mem (writesOf v s.log)
  others : ∀ n, (∀ v, s.handles v ≠ some n) → (s.guests n).mem = (guests n).mem
  fresh : ∀ v, s.nextVmi ≤ v → writesOf v s.log = []

variable {guests : String → Guest} {ops : List HaOp} {n : String}

/-- A call without a flush that opens no handle. -/
theorem Untampered.unflushed (h : Untampered guests s) (hun : Unflushed s s') (hhandles : s'.handles = s.handles)
    (hnext : s'.nextVmi = s.nextVmi) : Untampered guests s' := by
  refine ⟨fun w k hw => ?_, fun k hk => ?_, fun w hw => ?_⟩
  · rw [hhandles] at hw
    rw [hun.mem, hun.writesOf]
    exact h.own w k hw
  · rw [hhandles] at hk
    rw [hun.mem]
    exact h.others k hk
  · rw [hnext] at hw
    rw [hun.writesOf]
    exact h.fresh w hw

theorem Untampered.added {r d : String} {ok : Bool} {m : Int} (h : Untampered guests s) (hacc : Accounts ops s)
    (hord : OrderlyStep ops (.addAgent n r d ok m)) (hs : haStep shell s (.addAgent n r d ok m) = some s') :
    Untampered guests s' := by
  have hadd := haStep_addAgent hs
  have hun : Unflushed s s' := (haStep_flush hs).resolve_right fun ⟨_, _, _, _, heq, _⟩ => by cases heq
  have hnone := hacc.unregistered hord
  refine ⟨fun v k hv => ?_, fun k hk => ?_, fun v hv => ?_⟩
  · rw [hadd.handles] at hv
    rw [hadd.guests, hun.writesOf]
    rcases Leases.update_some hv with ⟨rfl, rfl⟩ | ⟨-, hv⟩
    · -- The handle is new, and so is the name.
      rw [h.fresh _ (Nat.le_refl _)]
      refine h.others k fun w hw => ?_
      obtain ⟨ha, hha, -⟩ := hacc.agent k w hw
      rw [hnone] at hha
      cases hha
    · exact h.own v k hv
  · rw [hadd.guests]
    refine h.others k fun v hv => hk v ?_
    rw [hadd.handles]
    have hne : v ≠ s.nextVmi := fun e => by
      rw [e, (hacc.fresh s.nextVmi (Nat.le_refl _)).1] at hv
      cases hv
    rw [Function.update_of_ne hne]
    exact hv
  · rw [hadd.nextVmi] at hv
    rw [hun.writesOf]
    exact h.fresh v (Nat.le_of_succ_le hv)

theorem Untampered.mounted (h : Untampered guests s) (hacc : Accounts ops s)
    (hclean : CleanStep ops s (.mountDisk n env)) (hs : haStep shell s (.mountDisk n env) = some s') :
    Untampered guests s' := by
  obtain ⟨ha, i, s₁, hm⟩ := haStep_mountDisk hs
  have hhandle := hacc.handle n ha hm.agent
  have hhandles : s'.handles = s.handles := by
    rw [hm.state]
    exact hm.path.kept.handles
  have hnext : s'.nextVmi = s.nextVmi := by
    rw [hm.state]
    exact hm.path.kept.nextVmi
  rcases haStep_flush hs with hun | ⟨n', env', ha', t, heq, hagent, hl, hflush⟩
  · exact h.unflushed hun hhandles hnext
  · cases heq
    obtain rfl : ha' = ha := Option.some.inj (hagent.symm.trans hm.agent)
    have hmem := hflush.clean (hclean ha' hagent hl)
    have hothers := (hacc.mounted_guests hm).1
    unfold HaState.guestOf at hmem
    rw [hhandles, hhandle] at hmem
    refine ⟨fun v k hv => ?_, fun k hk => ?_, fun v hv => ?_⟩
    · rw [hhandles] at hv
      rw [hflush.writesOf]
      by_cases hkn : k = n
      · -- The guest mounted: what the flush left of it.
        subst hkn
        obtain ⟨ha'', hk, rfl⟩ := hacc.agent k v hv
        cases hk.symm.trans hagent
        rw [if_pos rfl, pokes_append, ← h.own _ k hv]
        exact hmem
      · rw [hothers k hkn, if_neg fun e => hkn (Option.some.inj ((e ▸ hv).symm.trans hhandle)), List.append_nil]
        exact h.own v k hv
    · rw [hhandles] at hk
      rw [hothers k fun e => hk _ (e ▸ hhandle)]
      exact h.others k hk
    · rw [hnext] at hv
      have hne : ha'.vmi ≠ v := fun e => by
        rw [e, (hacc.fresh v hv).1] at hhandle
        cases hhandle
      rw [hflush.writesOf, if_neg hne, h.fresh v hv]
      rfl

theorem Untampered.unmounted (h : Untampered guests s) (hs : haStep shell s (.unmountDisk n) = some s') :
    Untampered guests s' := by
  obtain ⟨ha, i, v, hu⟩ := haStep_unmountDisk hs
  have hun : Unflushed s s' := (haStep_flush hs).resolve_right fun ⟨_, _, _, _, heq, _⟩ => by cases heq
  exact h.unflushed hun hu.kept.handles hu.kept.nextVmi

theorem Untampered.step {op : HaOp} (h : Untampered guests s) (hacc : Accounts ops s) (hord : OrderlyStep ops op)
    (hclean : CleanStep ops s op) (hs : haStep shell s op = some s') : Untampered guests s' := by
  cases op with
  | addAgent n r d ok m => exact h.added hacc hord hs
  | mountDisk n env => exact h.mounted hacc hclean hs
  | unmountDisk n => exact h.unmounted hs

/-! ## Runs -/

/-- **No patch outlives the mounts**: after an orderly run of clean calls, the memory of an agent's guest is the one it
had at first with its own writes made to it, and no other guest's memory has changed. -/
theorem guest_memory_run (shell : Shell δ) (mountPath ghostImage : String) (clock : Slot → Timeval) (g : Globals)
    (guests : String → Guest) (host : δ) (ops : List HaOp) (s : HaState δ) (hord : Orderly ops)
    (hclean : EachStep (stepOf (haStep shell)) (HaState.init mountPath ghostImage clock g guests host) CleanStep ops)
    (hrun : Run (stepOf (haStep shell)) (HaState.init mountPath ghostImage clock g guests host) ops s) :
    (∀ n ha, s.agents n = some ha → (s.guests n).mem = pokes (guests n).mem (writesOf ha.vmi s.log)) ∧
      ∀ n, s.agents n = none → (s.guests n).mem = (guests n).mem := by
  have hboth : Accounts ops s ∧ Untampered guests s := by
    refine Run.invariant_eachStep (C := fun p s op => OrderlyStep p op ∧ CleanStep p s op)
      (I := fun ops s => Accounts ops s ∧ Untampered guests s) ?_ ?_ (fun p op s hp hr => ?_) hrun
    · exact ⟨accounts_init _ _ _ _ _ _, nofun, fun _ _ => rfl, fun _ _ => rfl⟩
    · rintro ops s op s' ⟨hacc, hun⟩ ⟨hop, hc⟩ hs
      exact ⟨hacc.step hop hs, hun.step hacc hop hc hs⟩
    · exact ⟨hord p op hp, hclean p op s hp hr⟩
  obtain ⟨hacc, hun⟩ := hboth
  refine ⟨fun n ha hn => hun.own _ n (hacc.handle n ha hn), fun n hn => hun.others n fun v hv => ?_⟩
  obtain ⟨ha, hha, -⟩ := hacc.agent n v hv
  rw [hn] at hha
  cases hha

/-- A mount whose flush ends at its first return, the guest having written a byte of its own, and the unmount. -/
def writtenMount : List HaOp :=
  [.addAgent "a" "p" "d" true 0,
    .mountDisk "a" ⟨[], ⟨1, 0⟩, nopCall [.guest 0x3800 7, .ret false], true⟩, .unmountDisk "a"]

theorem nopCall_clean (g : Globals) : CleanCall (nopCall [.guest 0x3800 7, .ret false]) g nopGuest := by
  have haddr := (installed_spec (nopCall [.guest 0x3800 7, .ret false]) g nopGuest).addr
  have hoff : ∀ b, resolved (nopCall [.guest 0x3800 7, .ret false]) g b ≠ 0x3800 := by
    intro b
    cases b <;> exact ne_of_beq_false rfl
  refine ⟨nopCall_injective _ g, ne_of_beq_false rfl, ⟨fun e he => ?_, fun p v hp => ?_, fun a x ha b => ?_⟩, nofun⟩
  · simp [nopCall] at he
  · have hmem := hp.subset (List.mem_append_right p List.mem_cons_self)
    simp [nopCall] at hmem
  · rw [haddr]
    obtain ⟨rfl, rfl⟩ : a = 0x3800 ∧ x = 7 := by simpa [nopCall] using ha
    exact hoff b

theorem guest_memory_run_written : ∃ s, Run (stepOf (haStep idleShell)) (.small ()) writtenMount s ∧
    (∀ n ha, s.agents n = some ha → (s.guests n).mem = pokes nopGuest.mem (writesOf ha.vmi s.log)) ∧
      ∀ n, s.agents n = none → (s.guests n).mem = nopGuest.mem := by
  obtain ⟨s, hrun⟩ := exists_run (show (exec (haStep idleShell) (.small ()) writtenMount).isSome = true by
    decide +kernel)
  refine ⟨s, hrun, guest_memory_run idleShell _ _ _ _ _ _ writtenMount s (by decide) (fun p op t hp hr => ?_) hrun⟩
  cases op with
  | addAgent n r d ok m => trivial
  | unmountDisk n => trivial
  | mountDisk n env =>
    -- The one mount comes right after the registration.
    obtain ⟨rfl, rfl, rfl⟩ : p = [.addAgent "a" "p" "d" true 0] ∧ n = "a" ∧
        env = ⟨[], ⟨1, 0⟩, nopCall [.guest 0x3800 7, .ret false], true⟩ := by
      rcases p with _ | ⟨x, _ | ⟨y, _ | ⟨z, p⟩⟩⟩ <;> simp_all [writtenMount]
    intro ha hha _
    obtain ⟨u, hu, hs⟩ := run_snoc_iff.1 (show Run _ _ ([] ++ [_]) t from hr)
    rw [run_nil_iff.1 hu] at hs
    have hguest : t.guestOf ha.vmi = nopGuest := by
      unfold HaState.guestOf
      rw [(haStep_addAgent hs).guests]
      rfl
    rw [hguest]
    exact nopCall_clean t.globals

end Hyperagents
