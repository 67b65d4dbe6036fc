import Mathlib.Data.Fintype.Basic
import Hyperagents.SlotMounted
/-!
# One slot for a VM

The lookup of a request and the filling of a record are steps apart, under different mutexes or none, and nothing looks
again before the record is filled.  Two requests for a VM that both miss each fill a record.  Where a lookup misses
only while no other request is between its own miss and its record (`MissesApart`), the records are of different VMs
(`one_slot_of_apart`).
-/
namespace Hyperagents

open Runs

/-- The VM a thread has found no record of and not filled one for yet. -/
def Pc.seeks : Pc → Option Vmi
  | .claiming v _ | .seeking v _ | .unmounting v _ | .reassigning v _ => some v
  | .idle | .lookup _ | .mounting _ _ | .remounting _ _ => none

theorem Pc.afterTaken_seeks (v : Vmi) (i : Slot) : (Pc.afterTaken v i).seeks = some v := by
  unfold Pc.afterTaken
  split <;> rfl

/-- No two slots are of one VM. -/
def OneSlot (own : Slot → Option Vmi) : Prop := ∀ i j v, own i = some v → own j = some v → i = j

variable {T : Type}

/-- **The invariant**: a VM that a thread seeks is in no record, and no other thread seeks it. -/
structure Seeking (s : SmState T) : Prop where
  records : OneSlot s.records.owner
  apart : ∀ t u v, (s.pc t).seeks = some v → (s.pc u).seeks = some v → t = u
  missing : ∀ t v, (s.pc t).seeks = some v → ∀ i, s.records.owner i ≠ some v

/-- **A slot given to a VM keeps the slots of different VMs exactly when no other slot is of that VM.** -/
theorem OneSlot.update_iff {own : Slot → Option Vmi} (h : OneSlot own) (i : Slot) (v : Vmi) :
    OneSlot (Function.update own i (some v)) ↔ ∀ j, j ≠ i → own j ≠ some v := by
  constructor
  · intro hnew j hji hj
    refine hji (hnew j i v ?_ (Function.update_self _ _ _))
    rw [Function.update_of_ne hji]
    exact hj
  · intro hv j k w hj hk
    by_cases hji : j = i <;> by_cases hki : k = i
    · rw [hji, hki]
    · rw [hji, Function.update_self] at hj
      rw [Function.update_of_ne hki] at hk
      cases hj
      exact absurd hk (hv k hki)
    · rw [Function.update_of_ne hji] at hj
      rw [hki, Function.update_self] at hk
      cases hk
      exact absurd hj (hv j hji)
    · rw [Function.update_of_ne hji] at hj
      rw [Function.update_of_ne hki] at hk
      exact h j k w hj hk

/-- A lookup misses only while no other thread seeks the VM. -/
def MissesApart (_ : List (ApiLabel T)) (s : SmState T) : ApiLabel T → Prop
  | .sm (.step t _) => ∀ v, s.pc t = .lookup v → s.records.lookup v = none → ∀ u, (s.pc u).seeks ≠ some v
  | .sm (.request _ _) | .sm (.release _ _ _) | .stray _ _ => True

/-! ## One step -/

section

variable [DecidableEq T] {s s' : SmState T} {rs : Records} {refs : List (Ref T)} {nbd : Slot → Option Vmi}
  {lk : Option T} {t : T} {p : Pc}

/-- A thread moves and seeks nothing it did not seek before. -/
theorem Seeking.goto (h : Seeking s) (hp : ∀ v, p.seeks = some v → (s.pc t).seeks = some v) (hrs : OneSlot rs.owner)
    (hmissing : ∀ u v, (u = t → p.seeks = some v) → (s.pc u).seeks = some v → ∀ i, rs.owner i ≠ some v) :
    Seeking ({ s with records := rs, refs := refs, nbd := nbd, lk := lk }.goto t p) := by
  have hold : ∀ u v, (Function.update s.pc t p u).seeks = some v →
      (u = t → p.seeks = some v) ∧ (s.pc u).seeks = some v := by
    intro u v hu
    by_cases hut : u = t
    · rw [hut, Function.update_self] at hu
      rw [hut]
      exact ⟨fun _ => hu, hp v hu⟩
    · rw [Function.update_of_ne hut] at hu
      exact ⟨fun e => absurd e hut, hu⟩
  refine ⟨hrs, fun u w v hu hw => ?_, fun u v hu => ?_⟩
  · exact h.apart u w v (hold u v hu).2 (hold w v hw).2
  · exact hmissing u v (hold u v hu).1 (hold u v hu).2

theorem Seeking.keep (h : Seeking s) (hp : ∀ v, p.seeks = some v → (s.pc t).seeks = some v)
    (howner : rs.owner = s.records.owner) :
    Seeking ({ s with records := rs, refs := refs, nbd := nbd, lk := lk }.goto t p) := by
  apply h.goto hp
  · rw [howner]
    exact h.records
  · intro u v _ hu
    rw [howner]
    exact h.missing u v hu

/-- A record is filled only for a VM that no other record is of. -/
def FillsAlone (_ : List (ApiLabel T)) (s : SmState T) : ApiLabel T → Prop
  | .sm (.step t _) => ∀ v i, s.pc t = .claiming v i ∧ (s.records i).l = false ∨ s.pc t = .reassigning v i →
      ∀ j, j ≠ i → s.records.owner j ≠ some v
  | .sm (.request _ _) | .sm (.release _ _ _) | .stray _ _ => True

/-- **One step goes wrong exactly where it fills a second record for a VM.** -/
theorem OneSlot.step_iff (h : OneSlot s.records.owner) {l : ApiLabel T} (hs : apiStep s l = some s') :
    OneSlot s'.records.owner ↔ FillsAlone [] s l := by
  have hkeep : ∀ {own : Slot → Option Vmi}, own = s.records.owner → OneSlot own := fun e => e ▸ h
  cases l with
  | stray t i =>
    obtain ⟨-, rfl⟩ := apiStep_stray hs
    exact iff_of_true (hkeep (Records.owner_release _ i)) trivial
  | sm l =>
    -- The steps that fill no record.
    have hnot : ∀ {t now p}, s.pc t = p → (∀ v i, p = .claiming v i → (s.records i).l ≠ false) →
        (∀ v i, p ≠ .reassigning v i) → FillsAlone [] s (.sm (.step t now)) := by
      rintro t now p hpc hclaim hreassign v i (⟨hp, hl⟩ | hp)
      · exact absurd hl (hclaim v i (hpc.symm.trans hp))
      · exact absurd (hpc.symm.trans hp) (hreassign v i)
    cases smStep_cases hs with
    | request t v hpc => exact iff_of_true h trivial
    | hit t now v i hpc hl hcan => exact iff_of_true (hkeep (Records.owner_remount _ _ _)) (hnot hpc nofun nofun)
    | miss t now v hpc hl => exact iff_of_true h (hnot hpc nofun nofun)
    | taken t now v i hpc hl =>
      refine iff_of_true h (hnot hpc (fun w j hp hj => ?_) nofun)
      cases hp
      rw [hl] at hj
      cases hj
    | claim t now v i hpc hl =>
      show OneSlot (s.records.claim i v).owner ↔ _
      rw [Records.owner_claim, h.update_iff]
      constructor
      · rintro hv w j (⟨hp, -⟩ | hp)
        · cases hpc.symm.trans hp
          exact hv
        · cases hpc.symm.trans hp
      · exact fun hv => hv v i (.inl ⟨hpc, hl⟩)
    | mount t now v i hpc => exact iff_of_true (hkeep (Records.owner_stamp _ _ _)) (hnot hpc nofun nofun)
    | unlucky t now v m hpc hlk hshort => exact iff_of_true h (hnot hpc nofun nofun)
    | pick t now v m hpc hlk hlong => exact iff_of_true h (hnot hpc nofun nofun)
    | unmount t now v i hpc => exact iff_of_true h (hnot hpc nofun nofun)
    | reassign t now v i hpc =>
      show OneSlot (s.records.reassign i v).owner ↔ _
      rw [Records.owner_reassign, h.update_iff]
      constructor
      · rintro hv w j (⟨hp, -⟩ | hp)
        · cases hpc.symm.trans hp
        · cases hpc.symm.trans hp
          exact hv
      · exact fun hv => hv v i (.inr hpc)
    | remount t now v i hpc => exact iff_of_true (hkeep (Records.owner_stamp _ _ _)) (hnot hpc nofun nofun)
    | release t v i hpc hmem hcan => exact iff_of_true (hkeep (Records.owner_release _ _)) trivial

/-- The one thread that seeks a VM fills a record for it. -/
theorem Seeking.fill (h : Seeking s) {v : Vmi} {i : Slot} (ht : (s.pc t).seeks = some v) (hp : p.seeks = none)
    (howner : rs.owner = Function.update s.records.owner i (some v)) :
    Seeking ({ s with records := rs, refs := refs, nbd := nbd, lk := lk }.goto t p) := by
  refine h.goto (fun w hw => by rw [hp] at hw; cases hw) ?_ fun u w hu hw j hj => ?_
  · rw [howner, h.records.update_iff]
    exact fun j _ => h.missing t v ht j
  · have hut : u ≠ t := fun e => by
      have := hu e
      rw [hp] at this
      cases this
    rw [howner] at hj
    by_cases hji : j = i
    · rw [hji, Function.update_self] at hj
      cases hj
      exact hut (h.apart u t v hw ht)
    · rw [Function.update_of_ne hji] at hj
      exact h.missing u w hw j hj

/-- The VM looked up is in no record, and no other thread seeks it. -/
theorem Seeking.miss (h : Seeking s) {v : Vmi} (hl : s.records.lookup v = none)
    (happ : ∀ u, (s.pc u).seeks ≠ some v) (hp : p.seeks = some v) : Seeking (s.goto t p) := by
  have hcases : ∀ u w, (Function.update s.pc t p u).seeks = some w →
      u = t ∧ w = v ∨ u ≠ t ∧ (s.pc u).seeks = some w := by
    intro u w hu
    by_cases hut : u = t
    · rw [hut, Function.update_self, hp] at hu
      exact .inl ⟨hut, (Option.some.inj hu).symm⟩
    · rw [Function.update_of_ne hut] at hu
      exact .inr ⟨hut, hu⟩
  refine ⟨h.records, fun u x w hu hx => ?_, fun u w hu => ?_⟩
  · rcases hcases u w hu with ⟨hut, hwv⟩ | ⟨-, hu⟩ <;> rcases hcases x w hx with ⟨hxt, hwv'⟩ | ⟨-, hx⟩
    · exact hut.trans hxt.symm
    · exact absurd (hwv ▸ hx) (happ x)
    · exact absurd (hwv' ▸ hu) (happ u)
    · exact h.apart u x w hu hx
  · rcases hcases u w hu with ⟨rfl, rfl⟩ | ⟨-, hu⟩
    · exact Records.lookup_none.1 hl
    · exact h.missing u w hu

/-- **A step keeps one slot for each VM** where its lookup, if it misses, does so apart. -/
theorem Seeking.step (h : Seeking s) {l : ApiLabel T} (happ : MissesApart [] s l) (hs : apiStep s l = some s') :
    Seeking s' := by
  cases l with
  | stray t i =>
    obtain ⟨-, rfl⟩ := apiStep_stray hs
    have howner := Records.owner_release s.records i
    exact ⟨by rw [howner]; exact h.records, h.apart, by rw [howner]; exact h.missing⟩
  | sm l =>
    cases smStep_cases hs with
    | request t v hpc => exact h.keep nofun rfl
    | hit t now v i hpc hl hcan => exact h.keep nofun (Records.owner_remount _ _ _)
    | miss t now v hpc hl => exact h.miss hl (happ v hpc hl) rfl
    | taken t now v i hpc hl =>
      refine h.keep (fun w hw => ?_) rfl
      rw [Pc.afterTaken_seeks] at hw
      rw [hpc]
      exact hw
    | claim t now v i hpc hl => exact h.fill (by rw [hpc]; rfl) rfl (Records.owner_claim _ _ _)
    | mount t now v i hpc => exact h.keep nofun (Records.owner_stamp _ _ _)
    | unlucky t now v m hpc hlk hshort => exact h.keep (fun w hw => by rw [hpc]; exact hw) rfl
    | pick t now v m hpc hlk hlong => exact h.keep (fun w hw => by rw [hpc]; exact hw) rfl
    | unmount t now v i hpc => exact h.keep (fun w hw => by rw [hpc]; exact hw) rfl
    | reassign t now v i hpc => exact h.fill (by rw [hpc]; rfl) rfl (Records.owner_reassign _ _ _)
    | remount t now v i hpc => exact h.keep nofun (Records.owner_stamp _ _ _)
    | release t v i hpc hmem hcan =>
      have howner := Records.owner_release s.records i
      exact ⟨by rw [howner]; exact h.records, h.apart, by rw [howner]; exact h.missing⟩

end

/-! ## Runs -/

variable [DecidableEq T]

omit [DecidableEq T] in
theorem seeking_init (clock : Slot → Timeval) : Seeking (SmState.init clock : SmState T) :=
  ⟨nofun, nofun, nofun⟩

/-- The runs that give no VM two slots are those that fill no second record for one. -/
theorem one_slot_iff_fills_alone (clock : Slot → Timeval) {ls : List (ApiLabel T)} {s : SmState T}
    (hrun : Run (stepOf apiStep) (SmState.init clock) ls s) :
    Throughout (stepOf apiStep) (SmState.init clock) (fun _ s => OneSlot s.records.owner) ls ↔
      EachStep (stepOf apiStep) (SmState.init clock) FillsAlone ls :=
  throughout_iff_eachStep (I := fun _ _ => True) (D := fun _ _ => True) trivial nofun (fun _ _ _ _ _ _ _ _ => trivial)
    (fun _ _ _ _ _ h _ hs => h.step_iff hs) (fun _ _ _ => trivial) hrun

/-- **One slot for a VM**, in every state of the run; and one device, where no victim is still being mounted. -/
theorem one_slot_of_apart (clock : Slot → Timeval) (ls : List (ApiLabel T))
    (happ : EachStep (stepOf apiStep) (SmState.init clock) MissesApart ls) :
    Throughout (stepOf apiStep) (SmState.init clock) (fun _ s => OneSlot s.records.owner) ls ∧
      (EachStep (stepOf apiStep) (SmState.init clock) PicksFree ls →
        Throughout (stepOf apiStep) (SmState.init clock) (fun _ s => OneSlot s.nbd) ls) := by
  have hseek : ∀ {p s}, p <+: ls → Run (stepOf apiStep) (SmState.init clock) p s → Seeking s := by
    intro p s hp hr
    refine Run.invariant_eachStep (I := fun _ s => Seeking s) (seeking_init clock) ?_ (happ.of_prefix hp) hr
    intro _ _ _ _ h ha hs
    exact h.step ha hs
  refine ⟨fun p s hp hr => (hseek hp hr).records, fun hfree p s hp hr i j v hi hj => ?_⟩
  have hdev : Devices s := by
    refine Run.invariant_eachStep (I := fun _ s => Devices s) (devices_init clock) ?_ (hfree.of_prefix hp) hr
    intro _ _ _ _ h hf hs
    exact h.step hf hs
  exact (hseek hp hr).records i j v (hdev.owner_of_nbd hi) (hdev.owner_of_nbd hj)

instance [Fintype T] (p : List (ApiLabel T)) (s : SmState T) : (l : ApiLabel T) → Decidable (MissesApart p s l)
  | .sm (.step t now) =>
    match hpc : s.pc t with
    | .lookup v =>
      if hl : s.records.lookup v = none then
        decidable_of_iff (∀ u, (s.pc u).seeks ≠ some v) <| by
          refine ⟨fun h w hw _ => ?_, fun h => h v hpc hl⟩
          cases hpc.symm.trans hw
          exact h
      else
        .isTrue <| by
          intro w hw hmiss
          cases hpc.symm.trans hw
          exact absurd hmiss hl
    | .idle | .claiming _ _ | .mounting _ _ | .seeking _ _ | .unmounting _ _ | .reassigning _ _ | .remounting _ _ =>
      .isTrue (by simp [MissesApart, hpc])
  | .sm (.request _ _) | .sm (.release _ _ _) | .stray _ _ => .isTrue trivial

/-- Two requests for VM 1 and, between their lookups, one for VM 2; the second for VM 1 looks it up while the first
mounts it. -/
def missThenHit : List (SmLabel (Fin 3)) :=
  [.request 0 1, .request 1 1, .request 2 2, .step 0 ⟨0, 0⟩, .step 2 ⟨0, 0⟩, .step 0 ⟨0, 0⟩, .step 1 ⟨0, 0⟩,
    .step 2 ⟨0, 0⟩, .step 0 ⟨0, 0⟩, .step 2 ⟨0, 0⟩, .step 2 ⟨0, 0⟩]

theorem one_slot_of_apart_overlapping : ∃ s, Run (stepOf apiStep) (SmState.init fun _ => ⟨0, 0⟩)
    (missThenHit.map .sm) s ∧ (s.records.owner 0, s.records.refcount 0) = (some 1, 2) ∧ s.nbd 1 = some 2 ∧
      OneSlot s.records.owner ∧ OneSlot s.nbd := by
  have happ : EachStep (stepOf apiStep) (SmState.init fun _ => ⟨0, 0⟩) MissesApart (missThenHit.map .sm) := by
    decide +kernel
  obtain ⟨s₁, hs₁, hfound⟩ := Option.map_eq_some_iff.1 (show (exec smStep (SmState.init fun _ => ⟨0, 0⟩)
    missThenHit).map (fun s => ((s.records.owner 0, s.records.refcount 0), s.nbd 1)) =
      some ((some 1, 2), some 2) by decide +kernel)
  obtain ⟨hrun, hfree, -⟩ := picks_free_of_matched _ (run_of_exec hs₁)
  obtain ⟨hrecords, hdevices⟩ := one_slot_of_apart _ _ happ
  obtain ⟨hfirst, hsecond⟩ := Prod.mk.inj hfound
  exact ⟨s₁, hrun, hfirst, hsecond, hrecords _ s₁ List.prefix_rfl hrun, hdevices hfree _ s₁ List.prefix_rfl hrun⟩

/-- Two requests for VM 1: both look it up before either fills a record, and each fills one and mounts it. -/
def bothMiss : List (SmLabel Nat) :=
  [.request 0 1, .request 1 1, .step 0 ⟨0, 0⟩, .step 1 ⟨0, 0⟩, .step 0 ⟨0, 0⟩, .step 1 ⟨0, 0⟩, .step 1 ⟨0, 0⟩,
    .step 0 ⟨0, 0⟩, .step 1 ⟨0, 0⟩]

theorem two_slots_for_one : ∃ s, Run (stepOf smStep) (SmState.init fun _ => ⟨0, 0⟩) bothMiss s ∧
    s.records.owner 0 = some 1 ∧ s.records.owner 1 = some 1 ∧ s.nbd 0 = some 1 ∧ s.nbd 1 = some 1 := by
  obtain ⟨s, hs, hfound⟩ := Option.map_eq_some_iff.1 (show (exec smStep (SmState.init fun _ => ⟨0, 0⟩)
    bothMiss).map (fun s => (s.records.owner 0, s.records.owner 1, s.nbd 0, s.nbd 1)) =
      some (some 1, some 1, some 1, some 1) by decide)
  simp only [Prod.mk.injEq] at hfound
  exact ⟨s, run_of_exec hs, hfound.1, hfound.2.1, hfound.2.2.1, hfound.2.2.2⟩

end Hyperagents
