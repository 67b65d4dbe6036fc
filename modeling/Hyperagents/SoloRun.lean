import Hyperagents.SlotAccounting
import Hyperagents.SlotMounted
/-!
# One thread alone

A HAMain's calls are completed calls of one thread; the threads' model takes a call apart.  A request that returns is a
run of the one thread's steps, with the same slot returned and the same records after it (`requestMount_steps`), and an
orderly run of a HAMain is a run of the threads' model that ends between two calls (`orderly_steps`).
-/
namespace Hyperagents

open Runs

variable {δ : Type} {shell : Shell δ} {env : MountEnv} {v : Vmi} {disk : String} {s s' : HaState δ} {i : Slot}
  {u : SmState Unit}

/-! ## The steps of a request -/

theorem SmState.goto_pc {T : Type} [DecidableEq T] (s : SmState T) (t : T) (p : Pc) : (s.goto t p).pc t = p :=
  Function.update_self _ _ _

theorem SmState.goto_goto {T : Type} [DecidableEq T] (s : SmState T) (t : T) (p q : Pc) :
    (s.goto t p).goto t q = s.goto t q :=
  congrArg (fun pc => { s with pc := pc }) (Function.update_idem _ _ _)

theorem smStep_at {p : Pc} (now : Timeval) (hp : u.pc () = p) : smStep u (.step () now) = smNext u () now p :=
  congrArg (smNext u () now) hp

theorem run_step {u' : SmState Unit} {l : SmLabel Unit} (h : smStep u l = some u') : Run (stepOf smStep) u [l] u' := by
  have h1 : Run (stepOf smStep) u ([] ++ [l]) u' := .snoc .nil h
  exact h1

/-- The slots that are locked are passed over, one after the other. -/
theorem claiming_steps (m : Nat) (hm : m < DEVMAX) (hl : ∀ k : Slot, k.val < m → (u.records k).l = true) :
    ∃ ls, Run (stepOf smStep) (u.goto () (.claiming v 0)) ls (u.goto () (.claiming v ⟨m, hm⟩)) := by
  induction m with
  | zero => exact ⟨[], .nil⟩
  | succ m ih =>
    obtain ⟨ls, hls⟩ := ih (Nat.lt_of_succ_lt hm) fun k hk => hl k (Nat.lt_succ_of_lt hk)
    refine ⟨ls ++ [.step () ⟨0, 0⟩], .snoc hls ?_⟩
    refine (smStep_at _ (u.goto_pc () _)).trans ((if_pos (hl ⟨m, _⟩ (Nat.lt_succ_self m))).trans ?_)
    rw [SmState.goto_goto, Pc.afterTaken, dif_pos hm]

/-- The search under `lk` is the passes of one thread that finds `lk` free each time. -/
theorem stealLoop_steps {s₁ : HaState δ} : ∀ (cs : List Timeval) (s : HaState δ) (m : Int × Slot),
    u.records = s.records → u.lk = none → stealLoop s cs m = some (i, s₁) → ∃ ls,
      Run (stepOf smStep) (u.goto () (.seeking v m)) ls ({ u with lk := some () }.goto () (.unmounting v i))
  | [], _, _, _, _, h => by cases h
  | c :: cs, s, m, hrec, hlk, h => by
    have hstep := (smStep_at c (u.goto_pc () (.seeking v m))).trans (if_pos hlk)
    have hpass : (u.goto () (.seeking v m)).records.victimPass c m = s.records.victimPass c m := by
      rw [← hrec]
      rfl
    unfold stealLoop at h
    dsimp only at h hstep
    rw [hpass] at hstep
    by_cases hm : (s.records.victimPass c m).1 < 10000
    · rw [if_pos hm, SmState.goto_goto] at hstep
      obtain ⟨ls, hls⟩ := stealLoop_steps cs (((s.emit .lockLk).emit .unlockLk).emit (.sleep 1000))
        (s.records.victimPass c m) hrec hlk ((if_pos hm).symm.trans h)
      exact ⟨_, run_append_iff.2 ⟨_, run_step hstep, hls⟩⟩
    · rw [if_neg hm] at hstep
      cases (if_neg hm).symm.trans h
      exact ⟨_, run_step (hstep.trans (congrArg some (SmState.goto_goto { u with lk := some () } () _ _)))⟩

/-- A call of `request_mount` from its first step to the one that returns `i`. -/
def Serves (v : Vmi) (i : Slot) (u u' : SmState Unit) : Prop :=
  ∃ ls l u₁, Run (stepOf smStep) u ls u₁ ∧ smStep u₁ l = some u' ∧ smReturns u₁ l = some (v, i)

/-- A step away from being served. -/
theorem serves_of_run {ls : List (SmLabel Unit)} {now : Timeval} {u₁ u' : SmState Unit}
    (hrun : Run (stepOf smStep) (u.goto () (.lookup v)) ls u₁) (hpc : u.pc () = .idle)
    (hstep : smStep u₁ (.step () now) = some u') (hret : smReturns u₁ (.step () now) = some (v, i)) :
    Serves v i u u' := by
  have hreq : smStep u (.request () v) = some (u.goto () (.lookup v)) := if_pos hpc
  exact ⟨_, _, u₁, run_append_iff.2 ⟨_, run_step hreq, hrun⟩, hstep, hret⟩

theorem lookup_miss (hl : u.records.lookup v = none) :
    Run (stepOf smStep) (u.goto () (.lookup v)) [.step () ⟨0, 0⟩] (u.goto () (.claiming v 0)) := by
  refine run_step ((smStep_at _ (u.goto_pc () _)).trans ?_)
  unfold smNext
  dsimp only
  rw [show (u.goto () (.lookup v)).records.lookup v = none from hl, SmState.goto_goto]

/-- The first pass hits. -/
theorem serves_remount (hl : u.records.lookup v = some i) (hcan : u.records.canRemount i = true)
    (hpc : u.pc () = .idle) (now : Timeval) :
    Serves v i u ({ u with records := u.records.remount i now, refs := ⟨(), v, i⟩ :: u.refs }.goto () .idle) := by
  have hl' : (u.goto () (.lookup v)).records.lookup v = some i := hl
  have hcan' : (u.goto () (.lookup v)).records.canRemount i = true := hcan
  refine serves_of_run .nil hpc ((smStep_at now (u.goto_pc () _)).trans ?_) ?_
  · simp only [smNext, hl', if_pos hcan']
    exact congrArg some (SmState.goto_goto
      { u with records := u.records.remount i now, refs := ⟨(), v, i⟩ :: u.refs } () (.lookup v) .idle)
  · simp only [smReturns, u.goto_pc, hl']
    rfl

/-- The first pass misses, and a `try_lock` succeeds. -/
theorem serves_fresh (hl : u.records.lookup v = none) (hf : u.records.firstFree = some i) (hpc : u.pc () = .idle)
    (now : Timeval) : Serves v i u ({ u with
      records := (u.records.claim i v).stamp i now
      refs := ⟨(), v, i⟩ :: u.refs
      nbd := Function.update u.nbd i (some v) }.goto () .idle) := by
  obtain ⟨ls, hls⟩ := claiming_steps (v := v) i.val i.isLt fun k hk => Records.firstFree_before hf k hk
  have hmiss := run_append_iff.2 ⟨_, lookup_miss hl, hls⟩
  have hclaim : smStep (u.goto () (.claiming v i)) (.step () now) = some ({ u with
      records := u.records.claim i v, refs := ⟨(), v, i⟩ :: u.refs }.goto () (.mounting v i)) := by
    refine (smStep_at now (u.goto_pc () _)).trans ((if_neg ?_).trans (congrArg some ?_))
    · exact Bool.not_eq_true _ ▸ Records.firstFree_some hf
    · exact SmState.goto_goto { u with records := u.records.claim i v, refs := ⟨(), v, i⟩ :: u.refs } () _ _
  refine serves_of_run (run_append_iff.2 ⟨_, hmiss, run_step hclaim⟩) hpc
    ((smStep_at now (SmState.goto_pc _ () _)).trans (congrArg some ?_)) ?_
  · exact SmState.goto_goto { u with
      records := (u.records.claim i v).stamp i now
      refs := ⟨(), v, i⟩ :: u.refs
      nbd := Function.update u.nbd i (some v) } () _ _
  · simp only [smReturns, SmState.goto_pc]

/-- Every mutex is locked, and the search ends at `i`. -/
theorem serves_steal {cs : List Timeval} {s₁ : HaState δ} (hl : u.records.lookup v = none)
    (hf : u.records.firstFree = none) (hrec : u.records = s.records) (hlk : u.lk = none) (hpc : u.pc () = .idle)
    (hsteal : stealLoop s cs (0, 0) = some (i, s₁)) (now : Timeval) : Serves v i u ({ u with
      records := (u.records.reassign i v).stamp i now
      lk := none
      refs := ⟨(), v, i⟩ :: u.refs
      nbd := Function.update (Function.update u.nbd i none) i (some v) }.goto () .idle) := by
  have hall := Records.firstFree_none.1 hf
  obtain ⟨ls, hls⟩ := claiming_steps (v := v) 15 (by decide) fun k _ => hall k
  have hlast : smStep (u.goto () (.claiming v 15)) (.step () now) = some (u.goto () (.seeking v (0, 0))) := by
    refine (smStep_at now (u.goto_pc () _)).trans ((if_pos (hall 15)).trans (congrArg some ?_))
    exact SmState.goto_goto u () _ _
  obtain ⟨ls', hsearch⟩ := stealLoop_steps (v := v) cs s (0, 0) hrec hlk hsteal
  have hunmount : smStep ({ u with lk := some () }.goto () (.unmounting v i)) (.step () now) = some ({ u with
      lk := some (), nbd := Function.update u.nbd i none }.goto () (.reassigning v i)) :=
    (smStep_at now (SmState.goto_pc _ () _)).trans (congrArg some
      (SmState.goto_goto { u with lk := some (), nbd := Function.update u.nbd i none } () _ _))
  have hreassign : smStep ({ u with lk := some (), nbd := Function.update u.nbd i none }.goto () (.reassigning v i))
      (.step () now) = some ({ u with
        records := u.records.reassign i v
        lk := some ()
        refs := ⟨(), v, i⟩ :: u.refs
        nbd := Function.update u.nbd i none }.goto () (.remounting v i)) :=
    (smStep_at now (SmState.goto_pc _ () _)).trans (congrArg some (SmState.goto_goto { u with
      records := u.records.reassign i v
      lk := some ()
      refs := ⟨(), v, i⟩ :: u.refs
      nbd := Function.update u.nbd i none } () _ _))
  have hrun := run_append_iff.2 ⟨_, run_append_iff.2 ⟨_, run_append_iff.2 ⟨_, lookup_miss hl, hls⟩, run_step hlast⟩,
    run_append_iff.2 ⟨_, hsearch, run_append_iff.2 ⟨_, run_step hunmount, run_step hreassign⟩⟩⟩
  refine serves_of_run hrun hpc ((smStep_at now (SmState.goto_pc _ () _)).trans (congrArg some ?_)) ?_
  · exact SmState.goto_goto { u with
      records := (u.records.reassign i v).stamp i now
      lk := none
      refs := ⟨(), v, i⟩ :: u.refs
      nbd := Function.update (Function.update u.nbd i none) i (some v) } () _ _
  · simp only [smReturns, SmState.goto_pc]

/-- **A request that returns is a run of the thread's steps**, which returns the same slot and leaves the same
records. -/
theorem requestMount_steps (h : requestMount shell env v disk s = .ok (i, s')) (hrec : u.records = s.records)
    (hlk : u.lk = none) (hpc : u.pc () = .idle) : ∃ nbd, Serves v i u ({ u with
      records := s'.records, lk := none, refs := ⟨(), v, i⟩ :: u.refs, nbd := nbd }.goto () .idle) := by
  unfold requestMount at h
  rw [← hlk]
  split at h
  · rename_i hl
    rw [← hrec] at hl h
    split at h
    · rename_i hcan
      cases h
      exact ⟨u.nbd, serves_remount hl hcan hpc env.now⟩
    · cases h
  · rename_i hl
    rw [← hrec] at hl
    split at h
    · rename_i hf
      rw [← hrec] at hf
      obtain ⟨s₁, hmount, heq⟩ := ok_of_bind h
      cases heq
      have hs₁ : s₁.records = u.records.claim i v := by rw [(doNbdMount_ok hmount).records, hrec]
      refine ⟨Function.update u.nbd i (some v), ?_⟩
      show Serves v i u ({ u with records := s₁.records.stamp i env.now, refs := _, nbd := _ }.goto () .idle)
      rw [hs₁]
      exact serves_fresh hl hf hpc env.now
    · rename_i hf
      rw [← hrec] at hf
      split at h
      · cases h
      · rename_i j s₁ hsteal
        obtain ⟨s₃, hmount, heq⟩ := ok_of_bind h
        cases heq
        obtain ⟨-, log, rfl⟩ := stealLoop_some env.clocks _ (0, 0) (by decide) hsteal
        have hs₃ : s₃.records = u.records.reassign i v := by
          have hunmounted : ∀ x, (doNbdUnmount shell (nbdDev i) v x).records = x.records := fun x =>
            (doNbdUnmount_effect _ _ x).records
          rw [(doNbdMount_ok hmount).records, hrec, hunmounted]
          rfl
        refine ⟨Function.update (Function.update u.nbd i none) i (some v), ?_⟩
        show Serves v i u ({ u with records := s₃.records.stamp i env.now, lk := _, refs := _, nbd := _ }.goto () .idle)
        rw [hs₃, hlk]
        exact serves_steal (s := s.vmi v .getName) hl hf hrec hlk hpc hsteal env.now

/-! ## The calls of a HAMain -/

/-- The threads' model between two calls of its one thread. -/
structure Between (s : HaState δ) (u : SmState Unit) : Prop where
  records : u.records = s.records
  lk : u.lk = none
  idle : u.pc () = .idle
  counted : Counted u.records u.refs

theorem RequestPath.counted {refs : List (Ref Unit)} (h : RequestPath shell env v disk s i s')
    (hc : Counted s.records refs) : Counted s'.records (⟨(), v, i⟩ :: refs) := by
  cases h with
  | remount hl hcan => exact hc.hit env.now (Records.lookup_some hl)
  | fresh s₁ hl hf hmounted =>
    show Counted (s₁.records.stamp i env.now) _
    rw [hmounted.records]
    exact (hc.claim v (Records.firstFree_some hf)).stamp i env.now
  | steal s₁ s₂ s₃ hl hf h0 hlog hunmounted hmounted =>
    obtain ⟨log, rfl⟩ := hlog
    show Counted (s₃.records.stamp i env.now) _
    rw [hmounted.records, hunmounted.records]
    exact (hc.reassign v h0 (Records.firstFree_none.1 hf)).stamp i env.now

theorem Between.mountDisk {n path : String} (h : Between s u) (hs : mountDisk shell n env s = .ok (path, s')) :
    ∃ ls u', Run (stepOf smStep) u ls u' ∧ Between s' u' := by
  unfold Hyperagents.mountDisk at hs
  split at hs
  · cases hs
  · rename_i ha hha
    obtain ⟨⟨i, s₁⟩, hreq, heq⟩ := ok_of_bind hs
    cases heq
    obtain ⟨nbd, ls, l, u₁, hrun, hlast, -⟩ := requestMount_steps hreq h.records h.lk h.idle
    refine ⟨ls ++ [l], _, .snoc hrun hlast, rfl, rfl, SmState.goto_pc _ () _, ?_⟩
    exact (requestMount_ok hreq).counted (h.records ▸ h.counted)

/-- A slot in use is in the hands of the one thread, which may release it. -/
theorem Between.release {j : Slot} (h : Between s u) (hcount : 0 < s.records.refcount j)
    (howner : s.records.owner j = some v) (hs : s'.records = s.records.release j) :
    ∃ ls u', Run (stepOf smStep) u ls u' ∧ Between s' u' := by
  rw [← h.records] at hcount howner hs
  have hmem : (⟨(), v, j⟩ : Ref Unit) ∈ u.refs := by
    have husers : 0 < users u.refs j := by
      have := h.counted.count j
      omega
    obtain ⟨r, hr, hslot⟩ := List.countP_pos_iff.1 husers
    obtain rfl : r.slot = j := of_decide_eq_true hslot
    obtain rfl : r.vmi = v := Option.some.inj ((h.counted.owned r hr).symm.trans howner)
    exact hr
  have hcan : u.records.canRelease j = true := decide_eq_true (by
    show -2147483648 < u.records.refcount j
    omega)
  have hstep : smStep u (.release () v j) = some { u with
      records := u.records.release j, refs := u.refs.erase ⟨(), v, j⟩ } := if_pos ⟨h.idle, hmem, hcan⟩
  exact ⟨_, _, run_step hstep, hs.symm, h.lk, h.idle, h.counted.release hmem⟩

theorem Between.haStep {ops : List HaOp} {op : HaOp} (h : Between s u) (hacc : Accounts ops s)
    (hord : OrderlyStep ops op) (hs : haStep shell s op = some s') :
    ∃ ls u', Run (stepOf smStep) u ls u' ∧ Between s' u' := by
  cases op with
  | addAgent n r d ok m => exact ⟨[], u, .nil, by rw [h.records, (haStep_addAgent hs).records], h.lk, h.idle, h.counted⟩
  | mountDisk n env =>
    obtain ⟨⟨path, s₁⟩, hmount, rfl⟩ := Option.map_eq_some_iff.1 hs
    exact h.mountDisk (toOption_eq_some.1 hmount)
  | unmountDisk n =>
    obtain ⟨ha, j, w, hu⟩ := haStep_unmountDisk hs
    -- The `mountdev` of an agent with a mount outstanding is the slot it owns.
    obtain ⟨ha', i, hha, hdev, howner, hcount, -⟩ := hacc.owned hord
    obtain rfl := Option.some.inj (hha.symm.trans hu.agent)
    obtain rfl : j = i := Fin.ext (by have := hu.slot; omega)
    exact h.release (by rw [hcount]; exact hord) howner hu.records

section

variable {mountPath ghostImage : String} {clock : Slot → Timeval} {g : Globals} {guests : String → Guest} {host : δ}
  {ops : List HaOp}

theorem orderly_between (hord : Orderly ops)
    (hrun : Run (stepOf (haStep shell)) (HaState.init mountPath ghostImage clock g guests host) ops s) :
    ∃ ls u, Run (stepOf smStep) (SmState.init clock) ls u ∧ Between s u := by
  induction hrun with
  | nil => exact ⟨[], _, .nil, rfl, rfl, rfl, (safe_init clock).counted⟩
  | @snoc ops s₁ s₂ op hr hs ih =>
    have hpre := hord.of_prefix (List.prefix_append ops [op])
    obtain ⟨ls, u, hls, h⟩ := ih hpre
    obtain ⟨ls', u', hls', h'⟩ := h.haStep (accounts_run hpre hr) (hord ops op List.prefix_rfl) hs
    exact ⟨ls ++ ls', u', run_append_iff.2 ⟨u, hls, hls'⟩, h'⟩

/-- **An orderly run of a HAMain is a run of the threads' model** with one thread, between two of its calls at the
end, with the same records.  There the device of every slot is mounted for the slot's owner. -/
theorem orderly_steps (hord : Orderly ops)
    (hrun : Run (stepOf (haStep shell)) (HaState.init mountPath ghostImage clock g guests host) ops s) :
    ∃ ls u, Run (stepOf smStep) (SmState.init clock) ls u ∧ Between s u ∧ u.nbd = s.records.owner := by
  obtain ⟨ls, u, hls, h⟩ := orderly_between hord hrun
  obtain ⟨-, -, hdevices, -⟩ := picks_free_of_matched clock hls
  refine ⟨ls, u, hls, h, funext fun i => ?_⟩
  rw [← h.records]
  refine hdevices.settled i fun t => ?_
  rw [h.idle]
  exact nofun

end

theorem orderly_steps_overlapping : ∃ s, Run (stepOf (haStep idleShell)) (HaState.small ()) overlapping s ∧
    ∃ ls u, Run (stepOf smStep) (SmState.init fun _ => ⟨0, 0⟩) ls u ∧ Between s u ∧ u.nbd = s.records.owner := by
  obtain ⟨s, hrun⟩ := exists_run (show (exec (haStep idleShell) (HaState.small ()) overlapping).isSome = true by decide)
  exact ⟨s, hrun, orderly_steps (by decide) hrun⟩

end Hyperagents
