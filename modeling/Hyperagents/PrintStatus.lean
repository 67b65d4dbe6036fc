import Hyperagents.Threads
/-!
# print_status beside the requests

`print_status` tests whether a slot is in use by locking its mutex and unlocking it again.  Between the two a request
that tries the mutex finds it locked and passes over a slot that is free.  Where no request tries a mutex that a
`print_status` has locked (`TriesUnheld`), taking the `print_status` steps out of a run changes nothing for the others,
and only there (`only_observes_iff`).

A `print_status` holds the VMI lock, and a mount waits for it; here they do not wait, so the runs are the code's and
more.
-/
namespace Hyperagents

open Runs

/-- Where in `print_status` a thread is: before its test of a slot's mutex, or with the mutex locked. -/
inductive PrintPc
  | out
  | before (i : Slot)
  | holding (i : Slot)
  deriving DecidableEq, Repr

/-- The next slot, or the end. -/
def PrintPc.after (i : Slot) : PrintPc := if h : i.val + 1 < DEVMAX then .before ⟨i.val + 1, h⟩ else .out

/-- `held` says which thread has a slot's mutex locked to test it. -/
structure PsState (T : Type) where
  sm : SmState T
  held : Slot → Option T
  print : T → PrintPc

/-- A step of `request_mount` or `release_mount`, or one of `print_status`. -/
inductive PsLabel (T : Type)
  | call (l : ApiLabel T)
  | enter (t : T)
  | tryLock (t : T)
  | unlock (t : T)
  deriving DecidableEq, Repr

def PsState.init {T : Type} (clock : Slot → Timeval) : PsState T := ⟨.init clock, fun _ => none, fun _ => .out⟩

def SmLabel.thread {T : Type} : SmLabel T → T
  | .request t _ | .step t _ | .release t _ _ => t

def ApiLabel.thread {T : Type} : ApiLabel T → T
  | .sm l => l.thread
  | .stray t _ => t

/-- The slot whose mutex a step tries. -/
def tries {T : Type} (s : SmState T) : ApiLabel T → Option (Vmi × Slot)
  | .sm (.step t _) =>
    match s.pc t with
    | .claiming v i => some (v, i)
    | .idle | .lookup _ | .mounting _ _ | .seeking _ _ | .unmounting _ _ | .reassigning _ _ | .remounting _ _ => none
  | .sm (.request _ _) | .sm (.release _ _ _) | .stray _ _ => none

/-- How a step's `try_lock` ends, if it has one. -/
def apiTries {T : Type} (s : SmState T) (l : ApiLabel T) : Option Bool :=
  (tries s l).map fun (_, i) => !(s.records i).l

def psTries {T : Type} (s : PsState T) (l : ApiLabel T) : Option Bool :=
  (tries s.sm l).map fun (_, i) => !((s.sm.records i).l || (s.held i).isSome)

section

variable {T : Type} [DecidableEq T]

def PsState.goto (s : PsState T) (t : T) (p : PrintPc) : PsState T := { s with print := Function.update s.print t p }

def psStep (s : PsState T) : PsLabel T → Option (PsState T)
  | .call l =>
    if s.print l.thread = .out then
      match tries s.sm l with
      | some (v, i) =>
        if (s.held i).isSome then some { s with sm := s.sm.goto l.thread (.afterTaken v i) }
        else (apiStep s.sm l).map fun sm => { s with sm := sm }
      | none => (apiStep s.sm l).map fun sm => { s with sm := sm }
    else none
  | .enter t => if s.sm.pc t = .idle ∧ s.print t = .out then some (s.goto t (.before 0)) else none
  | .tryLock t =>
    match s.print t with
    | .before i =>
      if (s.sm.records i).l || (s.held i).isSome then some (s.goto t (.after i))
      else some ({ s with held := Function.update s.held i (some t) }.goto t (.holding i))
    | .out | .holding _ => none
  | .unlock t =>
    match s.print t with
    | .holding i => some ({ s with held := Function.update s.held i none }.goto t (.after i))
    | .out | .before _ => none

/-! ## One step -/

/-- No request tries the mutex of a slot while a `print_status` has it locked. -/
def TriesUnheld (_ : List (PsLabel T)) (s : PsState T) : PsLabel T → Prop
  | .call l => ∀ v i, tries s.sm l = some (v, i) → s.held i = none
  | .enter _ | .tryLock _ | .unlock _ => True

/-- The step of a request or release that a label stands for. -/
def PsLabel.call? : PsLabel T → Option (ApiLabel T)
  | .call l => some l
  | .enter _ | .tryLock _ | .unlock _ => none

variable {s s' : PsState T}

/-- A step of `print_status` does nothing to the requests. -/
theorem psStep_silent {l : PsLabel T} (hs : psStep s l = some s') (hl : l.call? = none) : s'.sm = s.sm := by
  unfold psStep at hs
  split at hs
  · cases hl
  · split at hs
    · cases hs
      rfl
    · cases hs
  · split at hs
    · split at hs <;> cases hs <;> rfl
    · cases hs
    · cases hs
  · split at hs
    · cases hs
      rfl
    · cases hs
    · cases hs

/-- A call takes the step it takes alone, or passes over a slot that a `print_status` has locked. -/
theorem psStep_call {l : ApiLabel T} (hs : psStep s (.call l) = some s') :
    (∃ v i, tries s.sm l = some (v, i) ∧ (s.held i).isSome = true ∧
        s' = { s with sm := s.sm.goto l.thread (.afterTaken v i) }) ∨
      ((∀ v i, tries s.sm l = some (v, i) → s.held i = none) ∧
        ∃ sm, apiStep s.sm l = some sm ∧ s' = { s with sm := sm }) := by
  simp only [psStep] at hs
  split at hs
  · split at hs
    · rename_i v i htry
      split at hs
      · rename_i hheld
        cases hs
        exact .inl ⟨v, i, htry, hheld, rfl⟩
      · rename_i hheld
        obtain ⟨sm, hsm, rfl⟩ := Option.map_eq_some_iff.1 hs
        refine .inr ⟨fun w j hj => ?_, sm, hsm, rfl⟩
        cases htry.symm.trans hj
        exact Option.not_isSome_iff_eq_none.1 hheld
    · rename_i htry
      obtain ⟨sm, hsm, rfl⟩ := Option.map_eq_some_iff.1 hs
      exact .inr ⟨fun w j hj => (nomatch htry.symm.trans hj), sm, hsm, rfl⟩
  · cases hs

theorem psStep_seen {ls : List (PsLabel T)} {l : PsLabel T} {m : ApiLabel T} (hfree : TriesUnheld ls s l)
    (hs : psStep s l = some s') (hl : l.call? = some m) : apiStep s.sm m = some s'.sm := by
  cases l with
  | call m' =>
    cases hl
    rcases psStep_call hs with ⟨v, i, htry, hheld, -⟩ | ⟨-, sm, hsm, rfl⟩
    · rw [hfree v i htry] at hheld
      cases hheld
    · exact hsm
  | enter t => cases hl
  | tryLock t => cases hl
  | unlock t => cases hl

/-- A mutex that a step locks is the one it tries. -/
theorem apiStep_l {s s' : SmState T} {l : ApiLabel T} (hs : apiStep s l = some s') {i : Slot}
    (hi : (s'.records i).l = true) : (s.records i).l = true ∨ ∃ v, tries s l = some (v, i) := by
  cases l with
  | stray t j =>
    obtain ⟨-, rfl⟩ := apiStep_stray hs
    rw [Records.l_release] at hi
    exact .inl hi
  | sm l =>
    cases smStep_cases hs with
    | hit t now v j hpc hl hcan => exact .inl ((Records.l_remount _ _ _ _).symm.trans hi)
    | claim t now v j hpc hl =>
      have hif := (Records.l_claim s.records j i v).symm.trans hi
      split at hif
      · rename_i hij
        refine .inr ⟨v, ?_⟩
        rw [hij]
        simp only [tries, hpc]
      · exact .inl hif
    | mount t now v j hpc => exact .inl ((Records.l_stamp _ _ _ _).symm.trans hi)
    | reassign t now v j hpc => exact .inl ((Records.l_reassign _ _ _ _).symm.trans hi)
    | remount t now v j hpc => exact .inl ((Records.l_stamp _ _ _ _).symm.trans hi)
    | release t v j hpc hmem hcan => exact .inl ((Records.l_release _ _ _).symm.trans hi)
    | request t v hpc => exact .inl hi
    | miss t now v hpc hl => exact .inl hi
    | taken t now v j hpc hl => exact .inl hi
    | unlucky t now v m hpc hlk hshort => exact .inl hi
    | pick t now v m hpc hlk hlong => exact .inl hi
    | unmount t now v j hpc => exact .inl hi

/-- A mutex locked to test it is not locked by a request. -/
def Tested (s : PsState T) : Prop := ∀ i, (s.held i).isSome = true → (s.sm.records i).l = false

theorem Tested.step (h : Tested s) {l : PsLabel T} (hs : psStep s l = some s') : Tested s' := by
  cases l with
  | call m =>
    rcases psStep_call hs with ⟨v, i, htry, hheld, rfl⟩ | ⟨hfree, sm, hsm, rfl⟩
    · exact h
    · intro i hi
      refine Bool.eq_false_iff.2 fun hl => ?_
      rcases apiStep_l hsm hl with hl | ⟨v, htry⟩
      · rw [h i hi] at hl
        cases hl
      · change (s.held i).isSome = true at hi
        rw [hfree v i htry] at hi
        cases hi
  | enter t =>
    simp only [psStep] at hs
    split at hs <;> cases hs
    exact h
  | tryLock t =>
    simp only [psStep] at hs
    split at hs
    · rename_i i hp
      split at hs
      · cases hs
        exact h
      · rename_i hnot
        cases hs
        intro j hj
        by_cases hji : j = i
        · rw [Bool.not_eq_true, Bool.or_eq_false_iff] at hnot
          rw [hji]
          exact hnot.1
        · change ((Function.update s.held i (some t)) j).isSome = true at hj
          rw [Function.update_of_ne hji] at hj
          exact h j hj
    · cases hs
    · cases hs
  | unlock t =>
    simp only [psStep] at hs
    split at hs
    · rename_i i hp
      cases hs
      intro j hj
      change ((Function.update s.held i none) j).isSome = true at hj
      by_cases hji : j = i
      · rw [hji, Function.update_self] at hj
        cases hj
      · rw [Function.update_of_ne hji] at hj
        exact h j hj
    · cases hs
    · cases hs

end

/-! ## Runs -/

section

variable {T : Type} [DecidableEq T]

/-- A run with the `print_status` steps taken out: each call step has the outcome it had, and the records end up the
same. -/
structure OnlyObserves (clock : Slot → Timeval) (ls : List (PsLabel T)) (s : PsState T) : Prop where
  calls : ∀ p l u, p ++ [.call l] <+: ls → Run (stepOf psStep) (PsState.init clock) p u →
    ∃ w w', Run (stepOf apiStep) (SmState.init clock) (p.filterMap PsLabel.call?) w ∧ apiStep w l = some w' ∧
      apiTries w l = psTries u l ∧ apiReturns w l = apiReturns u.sm l
  records : ∃ w, Run (stepOf apiStep) (SmState.init clock) (ls.filterMap PsLabel.call?) w ∧ w.records = s.sm.records

/-- While no request meets a `print_status` at a mutex, the run is one of the requests alone. -/
theorem calls_run {clock : Slot → Timeval} {ls : List (PsLabel T)} {s : PsState T}
    (hfree : EachStep (stepOf psStep) (PsState.init clock) TriesUnheld ls)
    (hrun : Run (stepOf psStep) (PsState.init clock) ls s) :
    Run (stepOf apiStep) (SmState.init clock) (ls.filterMap PsLabel.call?) s.sm :=
  hrun.project (f := PsState.sm) (e := PsLabel.call?) (fun _ _ _ _ _ hs hl => psStep_silent hs hl)
    (fun _ _ _ _ _ hf hs hl => psStep_seen hf hs hl) hfree

theorem tested_run {clock : Slot → Timeval} {ls : List (PsLabel T)} {s : PsState T}
    (hrun : Run (stepOf psStep) (PsState.init clock) ls s) : Tested s :=
  hrun.invariant (P := fun _ s => Tested s) (fun i hi => by cases hi) fun _ _ _ _ _ h hs => h.step hs

/-- **`print_status` only observes exactly where no request tries a mutex that one has locked.** -/
theorem only_observes_iff (clock : Slot → Timeval) (ls : List (PsLabel T)) (s : PsState T)
    (hrun : Run (stepOf psStep) (PsState.init clock) ls s) :
    OnlyObserves clock ls s ↔ EachStep (stepOf psStep) (PsState.init clock) TriesUnheld ls := by
  constructor
  · rintro ⟨hcalls, -⟩
    induction hrun with
    | nil => exact fun p l u hp => absurd (List.prefix_nil.1 hp) (by simp)
    | @snoc ls u s' l hr hs ih =>
      have hfree := ih fun p m v hp => hcalls p m v (hp.trans (List.prefix_append _ _))
      refine eachStep_snoc.2 ⟨hfree, fun v hv => ?_⟩
      obtain rfl := run_stepOf_unique hv hr
      cases l with
      | enter t => trivial
      | tryLock t => trivial
      | unlock t => trivial
      | call m =>
        intro w i htry
        obtain ⟨x, x', hx, -, hsame, -⟩ := hcalls ls m v List.prefix_rfl hr
        obtain rfl := run_stepOf_unique hx (calls_run hfree hr)
        refine Option.not_isSome_iff_eq_none.1 fun hheld => ?_
        -- Alone, the request finds the mutex unlocked.
        simp only [apiTries, psTries, htry, Option.map_some, hheld, (tested_run hr) i hheld] at hsame
        cases hsame
  · intro hfree
    refine ⟨fun p l u hp hu => ?_, s.sm, calls_run hfree hrun, rfl⟩
    obtain ⟨u', w, hu', hs⟩ := hrun.step_of_prefix hp
    obtain rfl := run_stepOf_unique hu' hu
    have hl := hfree p _ _ hp hu
    refine ⟨u'.sm, w.sm, calls_run (hfree.of_prefix ((List.prefix_append _ _).trans hp)) hu, psStep_seen hl hs rfl, ?_,
      rfl⟩
    unfold apiTries psTries
    cases htry : tries u'.sm l with
    | none => rfl
    | some vi => simp [hl vi.1 vi.2 htry]

end

/-- Thread 1 prints the first slot's status before thread 0 tries its mutex. -/
def printedBefore : List (PsLabel Nat) :=
  [.enter 1, .tryLock 1, .unlock 1, .call (.sm (.request 0 7)), .call (.sm (.step 0 ⟨0, 0⟩)),
    .call (.sm (.step 0 ⟨0, 0⟩))]

theorem only_observes_iff_before : ∃ s, Run (stepOf psStep) (PsState.init fun _ => ⟨0, 0⟩) printedBefore s ∧
    (OnlyObserves (fun _ => ⟨0, 0⟩) printedBefore s ↔
      EachStep (stepOf psStep) (PsState.init fun _ => ⟨0, 0⟩) TriesUnheld printedBefore) := by
  obtain ⟨s, hrun⟩ := exists_run
    (show (exec psStep (PsState.init fun _ => ⟨0, 0⟩) printedBefore).isSome = true by decide)
  exact ⟨s, hrun, only_observes_iff _ _ s hrun⟩

/-- Thread 1 has the first slot's mutex locked to test it when thread 0 tries it: the mount goes to the second slot. -/
def printedBetween : List (PsLabel Nat) :=
  [.enter 1, .tryLock 1, .call (.sm (.request 0 7)), .call (.sm (.step 0 ⟨0, 0⟩)), .call (.sm (.step 0 ⟨0, 0⟩)),
    .call (.sm (.step 0 ⟨0, 0⟩))]

theorem print_status_disturbs : ∃ s, Run (stepOf psStep) (PsState.init fun _ => ⟨0, 0⟩) printedBetween s ∧
    s.sm.records.owner 0 = none ∧ s.sm.records.owner 1 = some 7 ∧
      ¬ OnlyObserves (fun _ => ⟨0, 0⟩) printedBetween s := by
  obtain ⟨s, hs, hfound⟩ := Option.map_eq_some_iff.1 (show (exec psStep (PsState.init fun _ => ⟨0, 0⟩)
    printedBetween).map (fun s => (s.sm.records.owner 0, s.sm.records.owner 1)) = some (none, some 7) by decide)
  obtain ⟨howner, howner'⟩ := Prod.mk.inj hfound
  refine ⟨s, run_of_exec hs, howner, howner', fun h => ?_⟩
  obtain ⟨w, hw, hsame⟩ := h.records
  obtain ⟨x, hx, hfree⟩ := Option.map_eq_some_iff.1 (show (exec apiStep (SmState.init fun _ => ⟨0, 0⟩)
    (printedBetween.filterMap PsLabel.call?)).map (fun s => s.records.owner 1) = some none by decide)
  rw [run_stepOf_unique (run_of_exec hx) hw, hsame, howner'] at hfree
  cases hfree

end Hyperagents
