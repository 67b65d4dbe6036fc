import Mathlib.Data.List.Infix
/-!
# Runs of a labelled step relation

A run is a list of labels, oldest first, with the state it ends in.  It grows at its end (`Run.snoc`), so an invariant
may speak of the labels seen so far as well as of the state.

`Throughout` says a property of every state a run passes, `EachStep` a condition on every step it takes.  Where one
step keeps the property exactly when it meets the condition, a whole run keeps the one exactly when it meets the other
(`throughout_iff_eachStep`).
-/
namespace Runs

variable {S L : Type*}

/-- The runs of `step` from `s₀`: the labels taken, oldest first, and the state reached. -/
inductive Run (step : S → L → S → Prop) (s₀ : S) : List L → S → Prop
  | nil : Run step s₀ [] s₀
  | snoc {ls : List L} {s s' : S} {l : L} : Run step s₀ ls s → step s l s' → Run step s₀ (ls ++ [l]) s'

/-- The step relation of a partial step function. -/
def stepOf (f : S → L → Option S) (s : S) (l : L) (s' : S) : Prop := f s l = some s'

/-- A partial step function iterated over a list of labels. -/
def exec (f : S → L → Option S) : S → List L → Option S
  | s, [] => some s
  | s, l :: ls => (f s l).bind (fun s' => exec f s' ls)

/-- What the steps of a run show, oldest first. -/
def history {O : Type*} (f : S → L → Option S) (see : S → L → List O) : S → List L → List O
  | _, [] => []
  | s, l :: ls =>
    match f s l with
    | some s' => see s l ++ history f see s' ls
    | none => []

variable {step : S → L → S → Prop} {s₀ : S}

theorem run_nil_iff {s : S} : Run step s₀ [] s ↔ s = s₀ := by
  constructor
  · intro h
    generalize hl : ([] : List L) = ls at h
    cases h with
    | nil => rfl
    | snoc _ _ => simp at hl
  · rintro rfl
    exact .nil

theorem Run.single {s : S} {l : L} (h : step s₀ l s) : Run step s₀ [l] s := Run.snoc .nil h

theorem run_snoc_iff {ls : List L} {l : L} {s' : S} :
    Run step s₀ (ls ++ [l]) s' ↔ ∃ s, Run step s₀ ls s ∧ step s l s' := by
  constructor
  · intro h
    generalize hm : ls ++ [l] = ms at h
    cases h with
    | nil => simp at hm
    | snoc hr hs =>
      obtain ⟨rfl, hl⟩ := List.append_inj' hm rfl
      cases hl
      exact ⟨_, hr, hs⟩
  · rintro ⟨s, hr, hs⟩
    exact .snoc hr hs

theorem run_append_iff {ls ms : List L} {s' : S} :
    Run step s₀ (ls ++ ms) s' ↔ ∃ s, Run step s₀ ls s ∧ Run step s ms s' := by
  induction ms using List.reverseRecOn generalizing s' with
  | nil => simp [run_nil_iff]
  | append_singleton ms m ih =>
    rw [← List.append_assoc, run_snoc_iff]
    constructor
    · rintro ⟨s, hr, hs⟩
      obtain ⟨t, ht, hts⟩ := ih.1 hr
      exact ⟨t, ht, .snoc hts hs⟩
    · rintro ⟨t, ht, hts⟩
      obtain ⟨s, hs, hss⟩ := run_snoc_iff.1 hts
      exact ⟨s, ih.2 ⟨t, ht, hs⟩, hss⟩

/-- Every label of a run is taken from the state its labels before it lead to. -/
theorem Run.step_of_prefix {ls p : List L} {l : L} {s : S} (h : Run step s₀ ls s) (hp : p ++ [l] <+: ls) :
    ∃ t t', Run step s₀ p t ∧ step t l t' := by
  obtain ⟨q, rfl⟩ := hp
  obtain ⟨t', ht', -⟩ := run_append_iff.1 h
  obtain ⟨t, ht, hl⟩ := run_snoc_iff.1 ht'
  exact ⟨t, t', ht, hl⟩

/-- **The invariant rule**: what holds at the start and is kept by every step holds after every run. -/
theorem Run.invariant {P : List L → S → Prop} (h0 : P [] s₀)
    (hstep : ∀ ls s l s', Run step s₀ ls s → P ls s → step s l s' → P (ls ++ [l]) s') {ls : List L} {s : S}
    (h : Run step s₀ ls s) : P ls s := by
  induction h with
  | nil => exact h0
  | snoc hr hs ih => exact hstep _ _ _ _ hr ih hs

theorem run_of_exec {f : S → L → Option S} : ∀ {ls : List L} {s s' : S}, exec f s ls = some s' → Run (stepOf f) s ls s'
  | [], s, s', h => by
    cases h
    exact .nil
  | l :: ls, s, s', h => by
    obtain ⟨t, ht, hrest⟩ := Option.bind_eq_some_iff.1 h
    have h1 : Run (stepOf f) s ([] ++ [l]) t := .snoc .nil ht
    exact run_append_iff.2 ⟨t, h1, run_of_exec hrest⟩

theorem exists_run {f : S → L → Option S} {ls : List L} {s : S} (h : (exec f s ls).isSome = true) :
    ∃ s', Run (stepOf f) s ls s' := by
  obtain ⟨s', hs'⟩ := Option.isSome_iff_exists.1 h
  exact ⟨s', run_of_exec hs'⟩

theorem run_stepOf_unique {f : S → L → Option S} {ls : List L} {s t : S} (hs : Run (stepOf f) s₀ ls s)
    (ht : Run (stepOf f) s₀ ls t) : s = t := by
  induction hs generalizing t with
  | nil => exact (run_nil_iff.1 ht).symm
  | snoc _ hstep ih =>
    obtain ⟨u, hu, hut⟩ := run_snoc_iff.1 ht
    obtain rfl := ih hu
    exact Option.some.inj (hstep.symm.trans hut)

theorem history_snoc {O : Type*} {f : S → L → Option S} {see : S → L → List O} {ls : List L} {l : L} {s s' : S}
    (hrun : Run (stepOf f) s₀ ls s) (hs : f s l = some s') :
    history f see s₀ (ls ++ [l]) = history f see s₀ ls ++ see s l := by
  induction ls generalizing s₀ with
  | nil =>
    obtain rfl := run_nil_iff.1 hrun
    show history f see s [l] = _
    unfold history
    rw [hs]
    exact List.append_nil _
  | cons m ls ih =>
    obtain ⟨s₁, hone, hrest⟩ := run_append_iff.1 (show Run (stepOf f) s₀ ([m] ++ ls) s from hrun)
    obtain ⟨s₂, hnil, hm⟩ := run_snoc_iff.1 (show Run (stepOf f) s₀ ([] ++ [m]) s₁ from hone)
    obtain rfl := run_nil_iff.1 hnil
    change f s₂ m = some s₁ at hm
    rw [List.cons_append]
    unfold history
    rw [hm]
    dsimp only
    rw [ih hrest, List.append_assoc]

/-- `P` in every state a run over `ls` passes, the first and the last included. -/
def Throughout (step : S → L → S → Prop) (s₀ : S) (P : List L → S → Prop) (ls : List L) : Prop :=
  ∀ p s, p <+: ls → Run step s₀ p s → P p s

/-- `C` of every step a run over `ls` takes, read at the state before it. -/
def EachStep (step : S → L → S → Prop) (s₀ : S) (C : List L → S → L → Prop) (ls : List L) : Prop :=
  ∀ p l s, p ++ [l] <+: ls → Run step s₀ p s → C p s l

variable {P : List L → S → Prop} {C : List L → S → L → Prop}

theorem EachStep.of_prefix {p ls : List L} (h : EachStep step s₀ C ls) (hp : p <+: ls) : EachStep step s₀ C p :=
  fun q l s hq => h q l s (hq.trans hp)

/-- A condition on the labels of a run, by their positions. -/
theorem forall_prefix_iff {D : List L → L → Prop} {ls : List L} :
    (∀ p l, p ++ [l] <+: ls → D p l) ↔ ∀ k (h : k < ls.length), D (ls.take k) (ls.get ⟨k, h⟩) := by
  constructor
  · intro hD k hk
    apply hD _ _
    rw [List.get_eq_getElem, List.take_append_getElem]
    exact List.take_prefix _ _
  · rintro hD p l ⟨q, rfl⟩
    have h := hD p.length (by simp)
    simpa using h

/-- The first step of a partial step function, and the steps from where it leads. -/
theorem eachStep_cons {f : S → L → Option S} {l : L} {ls : List L} : EachStep (stepOf f) s₀ C (l :: ls) ↔
    C [] s₀ l ∧ ∀ s, f s₀ l = some s → EachStep (stepOf f) s (fun p => C (l :: p)) ls := by
  constructor
  · intro h
    refine ⟨h [] l s₀ ⟨ls, rfl⟩ .nil, fun s hs p m u hp hu => ?_⟩
    have hfirst : Run (stepOf f) s₀ [l] s := .single hs
    exact h (l :: p) m u (List.cons_prefix_cons.2 ⟨rfl, hp⟩) (run_append_iff.2 ⟨s, hfirst, hu⟩)
  · rintro ⟨hl, hls⟩ p m u hp hu
    cases p with
    | nil =>
      obtain ⟨rfl, -⟩ := List.cons_prefix_cons.1 hp
      rw [run_nil_iff.1 hu]
      exact hl
    | cons a p =>
      obtain ⟨rfl, hrest⟩ := List.cons_prefix_cons.1 hp
      obtain ⟨s, hfirst, hu⟩ := run_append_iff.1 (show Run (stepOf f) s₀ ([a] ++ p) u from hu)
      obtain ⟨s₁, hnil, hs⟩ := run_snoc_iff.1 (show Run (stepOf f) s₀ ([] ++ [a]) s from hfirst)
      rw [run_nil_iff.1 hnil] at hs
      exact hls s hs p m u hrest hu

/-- Along a partial step function the steps can be checked one by one. -/
instance EachStep.decidable (f : S → L → Option S) : (C : List L → S → L → Prop) →
    [∀ p s l, Decidable (C p s l)] → (s₀ : S) → (ls : List L) → Decidable (EachStep (stepOf f) s₀ C ls)
  | _, _, _, [] => .isTrue fun p l _ hp => absurd (List.prefix_nil.1 hp) (by simp)
  | C, _, s₀, l :: ls =>
    match h : f s₀ l with
    | none => decidable_of_iff (C [] s₀ l) (by rw [eachStep_cons, h]; simp)
    | some s =>
      have := EachStep.decidable f (fun p => C (l :: p)) s ls
      decidable_of_iff (C [] s₀ l ∧ EachStep (stepOf f) s (fun p => C (l :: p)) ls) (by rw [eachStep_cons, h]; simp)

/-- The invariant rule for runs whose every step meets a condition. -/
theorem Run.invariant_eachStep {I : List L → S → Prop} (h0 : I [] s₀)
    (hstep : ∀ ls s l s', I ls s → C ls s l → step s l s' → I (ls ++ [l]) s') {ls : List L} {s : S}
    (hC : EachStep step s₀ C ls) (h : Run step s₀ ls s) : I ls s := by
  induction h with
  | nil => exact h0
  | @snoc ls s s' l hr hs ih =>
    have hI : I ls s := ih (hC.of_prefix (List.prefix_append _ _))
    exact hstep ls s l s' hI (hC ls l s List.prefix_rfl hr) hs

/-- A run seen through `f`, with the labels that `e` drops taken out, where each step dropped leaves no trace and each
one kept is a step there. -/
theorem Run.project {S' L' : Type*} {step' : S' → L' → S' → Prop} {f : S → S'} {e : L → Option L'}
    (hsilent : ∀ ls s l s', C ls s l → step s l s' → e l = none → f s' = f s)
    (hseen : ∀ ls s l s' m, C ls s l → step s l s' → e l = some m → step' (f s) m (f s')) {ls : List L} {s : S}
    (hC : EachStep step s₀ C ls) (h : Run step s₀ ls s) : Run step' (f s₀) (ls.filterMap e) (f s) := by
  induction h with
  | nil => exact .nil
  | @snoc ls s s' l hr hs ih =>
    have hrun := ih (hC.of_prefix (List.prefix_append _ _))
    have hl : C ls s l := hC ls l s List.prefix_rfl hr
    rw [List.filterMap_append]
    cases he : e l with
    | none =>
      rw [hsilent ls s l s' hl hs he, List.filterMap_cons_none he, List.filterMap_nil, List.append_nil]
      exact hrun
    | some m =>
      rw [List.filterMap_cons_some he, List.filterMap_nil]
      exact .snoc hrun (hseen ls s l s' m hl hs he)

/-- The same for a condition on the labels alone. -/
theorem Run.invariant_under {I : List L → S → Prop} {D : List L → L → Prop} (h0 : I [] s₀)
    (hstep : ∀ ls s l s', I ls s → D ls l → step s l s' → I (ls ++ [l]) s') {ls : List L} {s : S}
    (hD : ∀ p l, p ++ [l] <+: ls → D p l) (h : Run step s₀ ls s) : I ls s :=
  Run.invariant_eachStep (C := fun p _ l => D p l) h0 hstep (fun p l _ hp _ => hD p l hp) h

theorem throughout_snoc {ls : List L} {l : L} :
    Throughout step s₀ P (ls ++ [l]) ↔
      Throughout step s₀ P ls ∧ ∀ s', Run step s₀ (ls ++ [l]) s' → P (ls ++ [l]) s' := by
  constructor
  · intro h
    exact ⟨fun p s hp => h p s (hp.trans (List.prefix_append _ _)), fun s' => h _ s' List.prefix_rfl⟩
  · rintro ⟨h1, h2⟩ p s hp hr
    rcases List.prefix_concat_iff.1 hp with rfl | hp
    · exact h2 s hr
    · exact h1 p s hp hr

theorem eachStep_snoc {ls : List L} {l : L} :
    EachStep step s₀ C (ls ++ [l]) ↔ EachStep step s₀ C ls ∧ ∀ s, Run step s₀ ls s → C ls s l := by
  constructor
  · intro h
    exact ⟨fun p m s hp => h p m s (hp.trans (List.prefix_append _ _)), fun s => h ls l s List.prefix_rfl⟩
  · rintro ⟨h1, h2⟩ p m s hp hr
    rcases List.prefix_concat_iff.1 hp with heq | hp
    · obtain ⟨rfl, hm⟩ := List.append_inj' heq rfl
      cases hm
      exact h2 s hr
    · exact h1 p m s hp hr

/-- **Throughout a run exactly when at each step**: steps that meet `C` and `D` keep `I`, and from a state with `I` and
`P` a step that meets `D` reaches `P` exactly when it meets `C`. -/
theorem throughout_iff_eachStep {f : S → L → Option S} {I : List L → S → Prop} {D : List L → L → Prop} (hI0 : I [] s₀)
    (hP0 : P [] s₀) (hI : ∀ ls s l s', I ls s → D ls l → C ls s l → f s l = some s' → I (ls ++ [l]) s')
    (hiff : ∀ ls s l s', I ls s → P ls s → D ls l → f s l = some s' → (P (ls ++ [l]) s' ↔ C ls s l))
    {ls : List L} {s : S} (hD : ∀ p l, p ++ [l] <+: ls → D p l) (hrun : Run (stepOf f) s₀ ls s) :
    Throughout (stepOf f) s₀ P ls ↔ EachStep (stepOf f) s₀ C ls := by
  have hIs : ∀ {p t}, (∀ q m, q ++ [m] <+: p → D q m) → EachStep (stepOf f) s₀ C p → Run (stepOf f) s₀ p t → I p t := by
    intro p t hDp hC hr
    refine Run.invariant_eachStep (C := fun q u m => D q m ∧ C q u m) hI0 ?_ ?_ hr
    · exact fun q u m u' hIu hDC hs => hI q u m u' hIu hDC.1 hDC.2 hs
    · exact fun q m u hq hru => ⟨hDp q m hq, hC q m u hq hru⟩
  induction hrun with
  | nil =>
    constructor
    · intro _ p l s hp
      exact absurd (List.prefix_nil.1 hp) (by simp)
    · intro _ p s hp hr
      obtain rfl := List.prefix_nil.1 hp
      rw [run_nil_iff.1 hr]
      exact hP0
  | @snoc ls s s' l hr hs ih =>
    have hDls : ∀ p m, p ++ [m] <+: ls → D p m := fun p m hp => hD p m (hp.trans (List.prefix_append _ _))
    have hDl : D ls l := hD ls l List.prefix_rfl
    rw [throughout_snoc, eachStep_snoc]
    constructor
    · rintro ⟨h1, h2⟩
      have hC : EachStep (stepOf f) s₀ C ls := (ih hDls).1 h1
      refine ⟨hC, fun t ht => ?_⟩
      rw [run_stepOf_unique ht hr]
      exact (hiff ls s l s' (hIs hDls hC hr) (h1 ls s List.prefix_rfl hr) hDl hs).1 (h2 s' (.snoc hr hs))
    · rintro ⟨h1, h2⟩
      have hP : P ls s := (ih hDls).2 h1 ls s List.prefix_rfl hr
      refine ⟨(ih hDls).2 h1, fun t ht => ?_⟩
      rw [run_stepOf_unique ht (.snoc hr hs)]
      exact (hiff ls s l s' (hIs hDls h1 hr) hP hDl hs).2 (h2 s hr)

end Runs
