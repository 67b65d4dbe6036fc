import Hyperagents.CallTrace
/-!
# The flushes of a run

A request that finds no slot of its VM's runs one `do_sync`, whatever path it takes to a slot (`requestMount_flush`);
no other call runs one.  `syncs` is what the log has of the flushes, each entry with the handle of its guest.
-/
namespace Hyperagents

open Runs

def syncs (t : List HaAct) : List (Vmi × Act) :=
  t.filterMap fun
    | .sync v a => some (v, a)
    | _ => none

theorem syncs_append (t u : List HaAct) : syncs (t ++ u) = syncs t ++ syncs u := List.filterMap_append

theorem syncs_sync (v : Vmi) (t : List Act) : syncs (t.map (HaAct.sync v)) = t.map (v, ·) := by
  unfold syncs
  rw [List.filterMap_map]
  exact List.filterMap_eq_map' ▸ rfl

/-- The flushes of one handle's guest. -/
def syncsOf (v : Vmi) (t : List HaAct) : List Act := ((syncs t).filter (·.1 = v)).map Prod.snd

theorem syncsOf_tagged (v w : Vmi) (t : List Act) :
    ((t.map (v, ·)).filter (·.1 = w)).map Prod.snd = if v = w then t else [] := by
  induction t with
  | nil => split <;> rfl
  | cons a t ih =>
    by_cases hw : v = w
    · rw [if_pos hw] at ih ⊢
      rw [List.map_cons, List.filter_cons_of_pos (by simp [hw]), List.map_cons, ih]
    · rw [if_neg hw] at ih ⊢
      rw [List.map_cons, List.filter_cons_of_neg (by simp [hw]), ih]

variable {δ : Type} {shell : Shell δ} {env : MountEnv} {dev disk : String} {v : Vmi} {s s' : HaState δ}

/-- One flush of the guest of `v`, which ended in `t`; whether the guest was paused at first does not count. -/
structure Flush (env : MountEnv) (v : Vmi) (t : SyncState) (s s' : HaState δ) : Prop where
  sync : ∃ paused, doSync s.ghostImage env.sync s.globals ⟨(s.guestOf v).mem, paused⟩ = some (0, t)
  globals : s'.globals = t.g
  mem : (s'.guestOf v).mem = t.mem
  syncs : syncs s'.log = syncs s.log ++ t.trace.map (v, ·)

/-- No flush. -/
structure Unflushed (s s' : HaState δ) : Prop where
  globals : s'.globals = s.globals
  mem : ∀ n, (s'.guests n).mem = (s.guests n).mem
  syncs : syncs s'.log = syncs s.log

theorem Unflushed.syncsOf (h : Unflushed s s') (w : Vmi) : syncsOf w s'.log = syncsOf w s.log := by
  unfold Hyperagents.syncsOf
  rw [h.syncs]

theorem Flush.syncsOf {t : SyncState} (h : Flush env v t s s') (w : Vmi) :
    syncsOf w s'.log = syncsOf w s.log ++ if v = w then t.trace else [] := by
  unfold Hyperagents.syncsOf
  rw [h.syncs, List.filter_append, List.map_append, syncsOf_tagged]

theorem syncs_partitionTrace (v : Vmi) (base : String) (host : δ) :
    syncs (partitionTrace shell env base dev v host) = [] := rfl

theorem syncs_unmountTrace (v : Vmi) (s : HaState δ) : syncs (nbdUnmountTrace shell dev v s) = [] := rfl

theorem syncs_stealTrace (rs : Records) (cs : List Timeval) (m : Int × Slot) : syncs (stealTrace rs cs m) = [] :=
  filterMap_stealTrace rfl rfl rfl rs cs m

/-- What a mount adds to the log of flushes is the trace of its own. -/
theorem syncs_mountTrace {t : SyncState} (s : HaState δ)
    (hsync : doSync s.ghostImage env.sync s.globals (s.guestOf v) = some (0, t)) :
    syncs (nbdMountTrace shell env dev v disk s) = t.trace.map (v, ·) := by
  show syncs ((syncTrace s.ghostImage env.sync s.globals (s.guestOf v)).map (HaAct.sync v) ++ _) = _
  rw [syncs_append, syncs_sync, syncTrace, hsync]
  dsimp only
  by_cases hstatus : (shell.system (.qemuNbdConnect dev disk) (runSystem shell t.trace s.host)).1 = 256
  · rw [if_pos hstatus]
    exact List.append_nil _
  · rw [if_neg hstatus]
    exact List.append_nil _

theorem doNbdMount_flush (h : doNbdMount shell env dev v disk s = .ok s') : ∃ t, Flush env v t s s' := by
  have hlog := doNbdMount_log h
  unfold doNbdMount at h
  dsimp only at h
  split at h
  · cases h
  · rename_i ret t hsync
    obtain rfl := doSync_ret hsync
    split at h
    · cases h
    · refine ⟨t, ⟨⟨_, hsync⟩, ?_, ?_, ?_⟩⟩
      · obtain ⟨log, check, heq⟩ := @mountPartition_eq δ shell env dev v
          (((afterSync shell v t ((s.emit .lockVmi).vmi v .getName)).emit .unlockVmi).system shell
            (.qemuNbdConnect dev disk))
        rw [← Except.ok.inj h, heq]
        rfl
      · obtain ⟨log, check, heq⟩ := @mountPartition_eq δ shell env dev v
          (((afterSync shell v t ((s.emit .lockVmi).vmi v .getName)).emit .unlockVmi).system shell
            (.qemuNbdConnect dev disk))
        have hs' := (Except.ok.inj h).symm.trans heq
        simp only [afterSync, HaState.system, HaState.vmi, HaState.setGuest, HaState.emit, HaState.guestOf] at hs'
        subst hs'
        simp only [HaState.guestOf, Function.update_self]
      · rw [hlog, syncs_append, syncs_mountTrace s hsync]

/-- To pause or resume a guest leaves all memories. -/
theorem mem_update (guests : String → Guest) (k n : String) (paused : Bool) :
    (Function.update guests k { guests k with paused := paused } n).mem = (guests n).mem := by
  by_cases hn : n = k
  · rw [hn, Function.update_self]
  · rw [Function.update_of_ne hn]

/-- An unmount flushes nothing. -/
theorem doNbdUnmount_unflushed (dev : String) (v : Vmi) (s : HaState δ) :
    Unflushed s (doNbdUnmount shell dev v s) := by
  have hlog : syncs (doNbdUnmount shell dev v s).log = syncs s.log := by
    rw [doNbdUnmount_log, syncs_append, syncs_unmountTrace, List.append_nil]
  have heq : ∃ host log, doNbdUnmount shell dev v s = { s with
      guests := Function.update s.guests ((s.handles v).getD "") { s.guestOf v with paused := false }
      host := host
      log := log } := by
    simp only [doNbdUnmount, HaState.system, HaState.resumeVm, HaState.vmi, HaState.setGuest, HaState.emit,
      HaState.guestOf]
    exact ⟨_, _, rfl⟩
  obtain ⟨host, log, heq⟩ := heq
  rw [heq] at hlog ⊢
  exact ⟨rfl, fun n => mem_update s.guests ((s.handles v).getD "") n false, hlog⟩

/-- **A request flushes the guest once**, unless it finds a slot of its VM's. -/
theorem requestMount_flush {i : Slot} (h : requestMount shell env v disk s = .ok (i, s')) :
    (s.records.lookup v ≠ none ∧ Unflushed s s') ∨ (s.records.lookup v = none ∧ ∃ t, Flush env v t s s') := by
  unfold requestMount at h
  cases hl : s.records.lookup v with
  | some j =>
    rw [hl] at h
    dsimp only at h
    split at h
    · cases h
      exact .inl ⟨nofun, rfl, fun _ => rfl, rfl⟩
    · cases h
  | none =>
    rw [hl] at h
    refine .inr ⟨rfl, ?_⟩
    cases hf : s.records.firstFree with
    | some j =>
      rw [hf] at h
      obtain ⟨s₁, hmount, heq⟩ := ok_of_bind h
      cases heq
      obtain ⟨t, hsync, hglobals, hmem, hlog⟩ := doNbdMount_flush hmount
      exact ⟨t, hsync, hglobals, hmem, hlog⟩
    | none =>
      rw [hf] at h
      cases hsteal : stealLoop (s.vmi v .getName) env.clocks (0, 0) with
      | none =>
        rw [hsteal] at h
        cases h
      | some found =>
        obtain ⟨j, s₁⟩ := found
        rw [hsteal] at h
        obtain ⟨s₃, hmount, heq⟩ := ok_of_bind h
        cases heq
        have hloop := stealLoop_log env.clocks _ (0, 0) hsteal
        obtain ⟨-, log, hs₁⟩ := stealLoop_some env.clocks _ (0, 0) (by decide) hsteal
        have hun := @doNbdUnmount_unflushed δ shell (nbdDev i) v s₁
        have hkept := (@doNbdUnmount_effect δ shell (nbdDev i) v s₁).kept
        generalize doNbdUnmount shell (nbdDev i) v s₁ = u at hmount hun hkept
        obtain ⟨t, ⟨paused, hsync⟩, hglobals, hmem, hlog⟩ := doNbdMount_flush hmount
        have hguest : (u.guestOf v).mem = (s.guestOf v).mem := by
          unfold HaState.guestOf
          rw [hun.mem, hkept.handles, hs₁]
          rfl
        have hsyncs : syncs u.log = syncs s.log := by
          rw [hun.syncs, hloop, syncs_append, syncs_stealTrace]
          show syncs (s.log ++ [.vmi v .getName]) ++ [] = _
          rw [syncs_append, List.append_nil]
          exact List.append_nil _
        refine ⟨t, ⟨paused, ?_⟩, hglobals, hmem, ?_⟩
        · rw [← hguest, show s.globals = u.globals by rw [hun.globals, hs₁]; rfl,
            show s.ghostImage = u.ghostImage by rw [hkept.ghostImage, hs₁]; rfl]
          exact hsync
        · show syncs (s₃.log ++ [.unlockLk]) = _
          rw [syncs_append, hlog]
          exact (List.append_nil _).trans (congrArg (· ++ _) hsyncs)

theorem releaseMount_unflushed {d : Int} (h : releaseMount d s = .ok s') : Unflushed s s' := by
  unfold releaseMount at h
  split at h
  · dsimp only at h
    split at h
    · split at h
      · cases h
      · rename_i v _
        cases h
        refine ⟨rfl, fun n => mem_update s.guests ((s.handles v).getD "") n false, ?_⟩
        show syncs (s.log ++ [.lockVmi] ++ [.vmi v .resumeVm] ++ [.unlockVmi]) = _
        rw [List.append_assoc, List.append_assoc, syncs_append]
        exact List.append_nil _
    · cases h
  · cases h

/-! ## One call -/

/-- A mount is a request, its slot kept in `mountdev`. -/
theorem mountDisk_request {n path : String} (h : mountDisk shell n env s = .ok (path, s')) : ∃ ha i s₁,
    s.agents n = some ha ∧ requestMount shell env ha.vmi ha.diskPath s = .ok (i, s₁) ∧
      s' = { s₁ with agents := Function.update s₁.agents n (some { ha with mountdev := i.val }) } := by
  unfold mountDisk at h
  split at h
  · cases h
  · rename_i ha hha
    obtain ⟨⟨i, s₁⟩, hreq, heq⟩ := ok_of_bind h
    cases heq
    exact ⟨ha, i, s₁, hha, hreq, rfl⟩

/-- **A call flushes one guest or none.** -/
theorem haStep_flush {op : HaOp} (h : haStep shell s op = some s') :
    Unflushed s s' ∨ ∃ n env ha t, op = .mountDisk n env ∧ s.agents n = some ha ∧
      s.records.lookup ha.vmi = none ∧ Flush env ha.vmi t s s' := by
  cases op with
  | addAgent n r d ok m =>
    have h := toOption_eq_some.1 h
    unfold addAgent at h
    dsimp only at h
    split at h
    · cases h
      refine .inl ⟨rfl, fun _ => rfl, ?_⟩
      show syncs (s.log ++ [.lockVmi] ++ [_] ++ [_] ++ [.unlockVmi]) = _
      rw [List.append_assoc, List.append_assoc, List.append_assoc, syncs_append]
      exact List.append_nil _
    · cases h
  | mountDisk n env =>
    obtain ⟨⟨path, s₂⟩, hret, rfl⟩ := Option.map_eq_some_iff.1 h
    obtain ⟨ha, i, s₁, hagent, hreq, hstate⟩ := mountDisk_request (toOption_eq_some.1 hret)
    dsimp only at hstate ⊢
    rw [hstate]
    rcases requestMount_flush hreq with ⟨-, hglobals, hmem, hlog⟩ | ⟨hl, t, hsync, hglobals, hmem, hlog⟩
    · exact .inl ⟨hglobals, hmem, hlog⟩
    · exact .inr ⟨n, env, ha, t, rfl, hagent, hl, hsync, hglobals, hmem, hlog⟩
  | unmountDisk n =>
    have h := toOption_eq_some.1 h
    unfold unmountDisk at h
    split at h
    · cases h
    · exact .inl (releaseMount_unflushed h)

end Hyperagents
