import Hyperagents.ThreadLocks
import Hyperagents.LockOrder
/-!
# No deadlock

A thread waits for the VMI lock or for `lk`, for the VMI lock without holding it and for `lk` without holding either;
the sixteen slot mutexes are only tried.  So the two are waited for in an order (`program_ordered`), and no thread is
blocked for good (`no_deadlock`).
-/
namespace Hyperagents

open Runs LockOrder

/-! ## What a thread holds and waits for -/

def TlPc.underVmi : TlPc → Bool
  | .vmi _ .body | .vmi _ .unlock | .print (.test _) | .print (.tested _) | .print (.name _) | .print .unlock => true
  | _ => false

/-- In the steal section, which `lk` guards. -/
def TlPc.underLk : TlPc → Bool
  | .vmi (.flush j) _ | .vmi (.pause j) _ | .connect j | .mount j | .stamp j => j.steal
  | .vmi (.resume _ _) _ | .unmount _ _ | .disconnect _ _ | .reassign _ _ | .leave _ _ => true
  | .search _ _ .body | .search _ _ .unlock => true
  | _ => false

/-- The slot whose mutex a `print_status` has locked to test it. -/
def TlPc.testing : TlPc → Option Slot
  | .print (.tested i) => some i
  | _ => none

def TlPc.holds (p : TlPc) : Mutex → Bool
  | .vmi => p.underVmi
  | .lk => p.underLk
  | .slot i => decide (p.testing = some i)

def TlPc.waits : TlPc → Option Mutex
  | .vmi _ .lock | .print .lock => some .vmi
  | .search _ _ .lock => some .lk
  | _ => none

/-- A slot's mutex stays with the request that locked it. -/
def Mutex.awaited : Mutex → Bool
  | .vmi | .lk => true
  | .slot _ => false

def Mutex.rank : Mutex → Nat
  | .vmi => 0
  | .lk => 1
  | .slot _ => 2

def program : Program Mutex TlPc := ⟨TlPc.holds, TlPc.waits, Mutex.awaited⟩

theorem TlPc.waits_cases {p : TlPc} {m : Mutex} (h : p.waits = some m) :
    (m = .vmi ∧ p.underVmi = false) ∨ (m = .lk ∧ p.underVmi = false ∧ p.underLk = false) := by
  unfold TlPc.waits at h
  split at h <;> cases h
  · exact .inl ⟨rfl, rfl⟩
  · exact .inl ⟨rfl, rfl⟩
  · exact .inr ⟨rfl, rfl, rfl⟩

/-- **The order**: a thread that holds `lk` may wait for the VMI lock, one that holds the VMI lock waits for nothing. -/
theorem program_ordered : Ordered program Mutex.rank where
  awaited {p m} h := by
    rcases TlPc.waits_cases h with ⟨rfl, -⟩ | ⟨rfl, -⟩ <;> rfl
  rank {p m n} h hn := by
    change p.holds n = true at hn
    rcases TlPc.waits_cases h with ⟨rfl, hvmi⟩ | ⟨rfl, hvmi, hlk⟩
    · cases n with
      | vmi =>
        rw [TlPc.holds, hvmi] at hn
        cases hn
      | lk => exact Nat.zero_lt_succ 0
      | slot i => exact Nat.zero_lt_succ 1
    · cases n with
      | vmi =>
        rw [TlPc.holds, hvmi] at hn
        cases hn
      | lk =>
        rw [TlPc.holds, hlk] at hn
        cases hn
      | slot i => exact Nat.lt_succ_self 1

/-! ## What a step does to the mutexes -/

section

variable {p q : TlPc}

theorem holds_eq (hvmi : p.underVmi = q.underVmi) (hlk : p.underLk = q.underLk) (htest : p.testing = q.testing) :
    program.holds p = program.holds q := by
  funext m
  cases m with
  | vmi => exact hvmi
  | lk => exact hlk
  | slot i => exact congrArg (fun o => decide (o = some i)) htest

theorem holds_vmi {b : Bool} (hvmi : p.underVmi = b) (hlk : p.underLk = q.underLk) (htest : p.testing = q.testing) :
    program.holds p = Function.update (program.holds q) .vmi b := by
  funext m
  cases m with
  | vmi => exact hvmi
  | lk => exact hlk
  | slot i => exact congrArg (fun o => decide (o = some i)) htest

theorem holds_lk {b : Bool} (hvmi : p.underVmi = q.underVmi) (hlk : p.underLk = b) (htest : p.testing = q.testing) :
    program.holds p = Function.update (program.holds q) .lk b := by
  funext m
  cases m with
  | vmi => exact hvmi
  | lk => exact hlk
  | slot i => exact congrArg (fun o => decide (o = some i)) htest

/-- Between the test of a slot's mutex and the unlock after it. -/
theorem holds_slot {i : Slot} {b : Bool} (hvmi : p.underVmi = q.underVmi) (hlk : p.underLk = q.underLk)
    (hp : p.testing = if b then some i else none) (hq : q.testing = if b then none else some i) :
    program.holds p = Function.update (program.holds q) (.slot i) b := by
  funext m
  cases m with
  | vmi => exact hvmi
  | lk => exact hlk
  | slot j =>
    change decide (p.testing = some j) = _
    by_cases hji : j = i
    · rw [hji, Function.update_self, hp]
      cases b <;> simp
    · rw [Function.update_of_ne (fun e => hji (Mutex.slot.inj e)), hp]
      change _ = decide (q.testing = some j)
      rw [hq]
      cases b <;> simp [Ne.symm hji]

end

section

variable {T : Type} [DecidableEq T] {s s' : TlState T}

/-- One thread moves, as its point allows. -/
def Moves (s s' : TlState T) : Prop :=
  ∃ t p, s'.pc = Function.update s.pc t p ∧ Move program t s.holder (s.pc t) p s'.holder

theorem moves_goto {t : T} {p : TlPc} (agents : String → Option HAConfig) (v : Vmi) (rs : Records)
    (hvmi : p.underVmi = (s.pc t).underVmi) (hlk : p.underLk = (s.pc t).underLk)
    (htest : p.testing = (s.pc t).testing) :
    Moves s ({ s with agents := agents, nextVmi := v, records := rs }.goto t p) :=
  ⟨t, p, rfl, .stay (holds_eq hvmi hlk htest)⟩

theorem TlState.lock_some {t : T} {p : TlPc} {m : Mutex} (h : s.lock m t p = some s') :
    s.holder m = none ∧ s' = { s with holder := Function.update s.holder m (some t) }.goto t p := by
  unfold TlState.lock at h
  split at h
  · cases h
    exact ⟨‹_›, rfl⟩
  · cases h

theorem moves_lock {t : T} {p : TlPc} {m : Mutex} (h : s.lock m t p = some s')
    (hp : program.holds p = Function.update (program.holds (s.pc t)) m true) : Moves s s' := by
  obtain ⟨hfree, rfl⟩ := TlState.lock_some h
  exact ⟨t, p, rfl, .lock m hfree hp⟩

theorem moves_unlock {t : T} {p : TlPc} {m : Mutex} (hm : program.holds (s.pc t) m = true)
    (hp : program.holds p = Function.update (program.holds (s.pc t)) m false) : Moves s (s.unlock m t p) :=
  ⟨t, p, rfl, .unlock m hm hp⟩

theorem StatusPc.after_under (i : Slot) : (TlPc.print (.after i)).underVmi = true ∧
    (TlPc.print (.after i)).underLk = false ∧ (TlPc.print (.after i)).testing = none := by
  unfold StatusPc.after
  split <;> exact ⟨rfl, rfl, rfl⟩

theorem TlPc.afterTaken_under (r : MountReq) (i : Slot) : (TlPc.afterTaken r i).underVmi = false ∧
    (TlPc.afterTaken r i).underLk = false ∧ (TlPc.afterTaken r i).testing = none := by
  unfold TlPc.afterTaken
  split <;> exact ⟨rfl, rfl, rfl⟩

theorem VmiSection.after_under (k : VmiSection) : k.after.underVmi = false ∧
    k.after.underLk = (TlPc.vmi k .unlock).underLk ∧ k.after.testing = none := by
  cases k <;> exact ⟨rfl, rfl, rfl⟩

/-- The stages of a section differ in the VMI lock only. -/
theorem VmiSection.stage_under (k : VmiSection) (st st' : Stage) :
    (TlPc.vmi k st).underLk = (TlPc.vmi k st').underLk := by
  cases k <;> rfl

theorem tlNext_moves {t : T} {now : Timeval} {q : TlPc} (hpc : s.pc t = q) (h : tlNext s t now q = some s') :
    Moves s s' := by
  have hstay : ∀ {p : TlPc} (agents : String → Option HAConfig) (v : Vmi) (rs : Records), p.underVmi = q.underVmi →
      p.underLk = q.underLk → p.testing = q.testing →
      Moves s ({ s with agents := agents, nextVmi := v, records := rs }.goto t p) :=
    fun agents v rs h1 h2 h3 => moves_goto agents v rs (by rw [hpc]; exact h1) (by rw [hpc]; exact h2)
      (by rw [hpc]; exact h3)
  have hlock : ∀ {p : TlPc} {m : Mutex}, s.lock m t p = some s' →
      program.holds p = Function.update (program.holds q) m true → Moves s s' :=
    fun h hp => moves_lock h (by rw [hpc]; exact hp)
  have hunlock : ∀ {p : TlPc} {m : Mutex}, program.holds q m = true →
      program.holds p = Function.update (program.holds q) m false → Moves s (s.unlock m t p) :=
    fun hm hp => moves_unlock (by rw [hpc]; exact hm) (by rw [hpc]; exact hp)
  cases q with
  | idle => cases h
  | vmi k st =>
    cases st with
    | lock => exact hlock (p := .vmi k .body) (by cases k <;> exact h) (holds_vmi rfl (k.stage_under _ _) rfl)
    | body =>
      cases k with
      | release i =>
        simp only [tlNext] at h
        split at h
        · cases h
        · cases h
          exact hstay _ _ _ rfl rfl rfl
      | _ =>
        cases h
        exact hstay _ _ _ rfl rfl rfl
    | unlock =>
      obtain ⟨hvmi, hlk, htest⟩ := k.after_under
      obtain rfl : s.unlock .vmi t k.after = s' := Option.some.inj (by cases k <;> exact h)
      exact hunlock rfl (holds_vmi hvmi hlk htest)
  | register _ | connect _ | mount _ | name _ | sleep _ _ | unmount _ _ | disconnect _ _ | reassign _ _ =>
    cases h
    exact hstay _ _ _ rfl rfl rfl
  | lookup r =>
    simp only [tlNext] at h
    split at h
    · split at h
      · cases h
        exact hstay _ _ _ rfl rfl rfl
      · cases h
    · cases h
      exact hstay _ _ _ rfl rfl rfl
  | claiming r i =>
    simp only [tlNext] at h
    split at h
    · rename_i hfree
      cases h
      refine ⟨t, .vmi (.flush ⟨r, i, false⟩) .lock, rfl, .keep (Mutex.slot i) rfl hfree ?_⟩
      rw [hpc]
      exact holds_eq rfl rfl rfl
    · cases h
      obtain ⟨hvmi, hlk, htest⟩ := TlPc.afterTaken_under r i
      exact hstay _ _ _ hvmi hlk htest
  | stamp j =>
    obtain ⟨r, i, steal⟩ := j
    cases steal <;> cases h <;> exact hstay _ _ _ rfl rfl rfl
  | search r m st =>
    cases st with
    | lock => exact hlock (p := .search r m .body) h (holds_lk rfl rfl rfl)
    | body =>
      simp only [tlNext] at h
      split at h <;> cases h <;> exact hstay _ _ _ rfl rfl rfl
    | unlock =>
      cases h
      exact hunlock rfl (holds_lk rfl rfl rfl)
  | leave r i =>
    cases h
    exact hunlock rfl (holds_lk rfl rfl rfl)
  | setDev n i =>
    obtain ⟨ha, -, rfl⟩ := Option.map_eq_some_iff.1 h
    exact hstay _ _ _ rfl rfl rfl
  | drop dev =>
    simp only [tlNext] at h
    split at h
    · split at h
      · cases h
        exact hstay _ _ _ rfl rfl rfl
      · cases h
    · cases h
  | print p =>
    cases p with
    | lock => exact hlock (p := .print (.test 0)) h (holds_vmi rfl rfl rfl)
    | test i =>
      simp only [tlNext] at h
      split at h
      · exact hlock (p := .print (.tested i)) h (holds_slot (b := true) rfl rfl rfl rfl)
      · cases h
        exact hstay _ _ _ rfl rfl rfl
    | tested i =>
      cases h
      exact hunlock (m := .slot i) (decide_eq_true rfl) (holds_slot (b := false) rfl rfl rfl rfl)
    | name i =>
      cases h
      obtain ⟨hvmi, hlk, htest⟩ := StatusPc.after_under i
      exact hstay _ _ _ hvmi hlk htest
    | unlock =>
      cases h
      exact hunlock rfl (holds_vmi rfl rfl rfl)

/-- **Every step is one thread's move**, as its point allows. -/
theorem tlStep_moves {l : TlLabel T} (h : tlStep s l = some s') : Moves s s' := by
  cases l with
  | step t now => exact tlNext_moves rfl h
  | call t c =>
    simp only [tlStep] at h
    split at h
    · rename_i hpc
      have hstay : ∀ {p : TlPc} (v : Vmi), p.underVmi = false → p.underLk = false → p.testing = none →
          Moves s ({ s with nextVmi := v }.goto t p) :=
        fun v h1 h2 h3 => moves_goto s.agents v s.records (by rw [hpc]; exact h1) (by rw [hpc]; exact h2)
          (by rw [hpc]; exact h3)
      cases c with
      | addAgent _ _ _ _ | printStatus | vmiSection =>
        cases h
        exact hstay _ rfl rfl rfl
      | mountDisk n | unmountDisk n =>
        obtain ⟨ha, -, rfl⟩ := Option.map_eq_some_iff.1 h
        exact hstay _ rfl rfl rfl
    · cases h

theorem consistent_run {clock : Slot → Timeval} {ls : List (TlLabel T)}
    (hrun : Run (stepOf tlStep) (TlState.init clock) ls s) : Consistent program s.holder s.pc := by
  refine hrun.invariant (P := fun _ s => Consistent program s.holder s.pc) ⟨fun t m hm => ?_, nofun⟩ ?_
  · cases m <;> cases hm
  · intro _ _ _ _ _ hc hs
    obtain ⟨t, p, hpc, hmove⟩ := tlStep_moves hs
    rw [hpc]
    exact hc.move hmove

end

/-! ## No thread is blocked for good -/

/-- At most one thread is in the steal section, none waits for a mutex it holds, and one that waits for a mutex that is
held waits for a thread that is not blocked, or that is blocked on the VMI lock, whose holder is not. -/
structure DeadlockFree {T : Type} (s : TlState T) : Prop where
  oneThief : ∀ t u, (s.pc t).underLk = true → (s.pc u).underLk = true → t = u
  notSelf : ∀ t m, (s.pc t).waits = some m → s.holder m ≠ some t
  progress : ∀ t m, (s.pc t).waits = some m → s.holder m ≠ none → ∃ u, s.holder m = some u ∧
    (¬ Blocked program s.holder s.pc u ∨ m = .lk ∧ (s.pc u).waits = some .vmi ∧
      ∃ w, s.holder .vmi = some w ∧ ¬ Blocked program s.holder s.pc w)

theorem no_deadlock {T : Type} [DecidableEq T] (clock : Slot → Timeval) (ls : List (TlLabel T)) (s : TlState T)
    (hrun : Run (stepOf tlStep) (TlState.init clock) ls s) : DeadlockFree s := by
  have hc := consistent_run hrun
  refine ⟨fun t u ht hu => ?_, fun t m hm => hc.not_self program_ordered hm, fun t m hm hheld => ?_⟩
  · have ht : program.holds (s.pc t) .lk = true := ht
    exact hc.unique ht hu
  · obtain ⟨u, hu⟩ := Option.ne_none_iff_exists'.1 hheld
    have hawaited := program_ordered.awaited (p := s.pc t) hm
    obtain ⟨w, hw, hfree⟩ := hc.exists_unblocked program_ordered hawaited hu
    refine ⟨u, hu, ?_⟩
    cases hw with
    | refl => exact .inl hfree
    | @next _ x _ n hn hx hw =>
      -- Its rank is lower, so the holder has `lk` and waits for the VMI lock, for whose holder there is no lower one.
      have hlt : n.rank < m.rank := hc.waits_lower program_ordered hawaited hu hn
      have hm : m = .lk ∧ n = .vmi := by
        rcases TlPc.waits_cases hm with ⟨rfl, -⟩ | ⟨rfl, -⟩ <;> rcases TlPc.waits_cases hn with ⟨rfl, -⟩ | ⟨rfl, -⟩
        · exact absurd hlt (by decide)
        · exact absurd hlt (by decide)
        · exact ⟨rfl, rfl⟩
        · exact absurd hlt (by decide)
      obtain ⟨rfl, rfl⟩ := hm
      refine .inr ⟨rfl, hn, x, hx, ?_⟩
      rintro ⟨k, y, hk, -⟩
      have hlt : k.rank < Mutex.vmi.rank := hc.waits_lower program_ordered rfl hx hk
      exact absurd hlt (Nat.not_lt_zero _)

/-- Thread 0 is in its mount, thread 1 in a section of its own, and thread 2 waits for the VMI lock. -/
def threeThreads : List (TlLabel Nat) :=
  [.call 0 (.addAgent "a" "p" "d" 0), .step 0 ⟨0, 0⟩, .step 0 ⟨0, 0⟩, .step 0 ⟨0, 0⟩, .step 0 ⟨0, 0⟩,
    .call 0 (.mountDisk "a"), .step 0 ⟨0, 0⟩, .step 0 ⟨0, 0⟩, .call 1 .vmiSection, .step 1 ⟨0, 0⟩,
    .call 2 .printStatus]

theorem no_deadlock_three : ∃ s, Run (stepOf tlStep) (TlState.init fun _ => ⟨0, 0⟩) threeThreads s ∧
    Blocked program s.holder s.pc 2 ∧ DeadlockFree s := by
  obtain ⟨s, hs, hfound⟩ := Option.map_eq_some_iff.1 (show (exec tlStep (TlState.init fun _ => ⟨0, 0⟩)
    threeThreads).map (fun s => ((s.pc 2).waits, s.holder .vmi)) = some (some .vmi, some 1) by decide)
  obtain ⟨hwaits, hholder⟩ := Prod.mk.inj hfound
  exact ⟨s, run_of_exec hs, ⟨.vmi, 1, hwaits, hholder⟩, no_deadlock _ _ s (run_of_exec hs)⟩

end Hyperagents
