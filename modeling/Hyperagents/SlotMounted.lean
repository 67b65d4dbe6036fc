import Hyperagents.SlotInUse
/-!
# A returned slot is mounted

A record names its VM from the moment it is filled, the device has it only after `do_nbd_mount`.  In between a lookup
of another thread takes the record's vmi as proof of a mount: while the slot's first mount is under way, and again from
the unmount of a victim to its mount for the new VM.  Outside those stretches the device of every slot is mounted for
its owner (`Devices`), so a request returns a mounted slot exactly when its lookup hits none that a thread has yet to
mount (`returned_mounted_iff`).

That no victim is a slot still being mounted for the first time is a condition on the releases: it always holds where
each matches a request (`picks_free_of_matched`).
-/
namespace Hyperagents

open Runs

/-- The slot a thread is working on. -/
def Pc.slot : Pc → Option Slot
  | .mounting _ i | .unmounting _ i | .reassigning _ i | .remounting _ i => some i
  | .idle | .lookup _ | .claiming _ _ | .seeking _ _ => none

/-- The slot whose device a thread has yet to mount. -/
def Pc.unmounted : Pc → Option Slot
  | .mounting _ i | .reassigning _ i | .remounting _ i => some i
  | .idle | .lookup _ | .claiming _ _ | .seeking _ _ | .unmounting _ _ => none

theorem Pc.slot_of_unmounted {p : Pc} {i : Slot} (h : p.unmounted = some i) : p.slot = some i := by
  cases p <;> first | exact h | cases h

theorem Pc.slot_cases {p : Pc} {i : Slot} (h : p.slot = some i) : p.inSteal = true ∨ ∃ v, p = .mounting v i := by
  cases p with
  | mounting v j =>
    cases h
    exact .inr ⟨v, rfl⟩
  | unmounting v j => exact .inl rfl
  | reassigning v j => exact .inl rfl
  | remounting v j => exact .inl rfl
  | _ => cases h

theorem Pc.afterTaken_slot (v : Vmi) (i : Slot) :
    (Pc.afterTaken v i).slot = none ∧ (Pc.afterTaken v i).unmounted = none := by
  unfold Pc.afterTaken
  split <;> exact ⟨rfl, rfl⟩

variable {T : Type}

/-- What a thread knows of the slot it has yet to mount. -/
def Here (rs : Records) (nbd : Slot → Option Vmi) : Pc → Prop
  | .mounting v i => (rs i).l = true ∧ rs.owner i = some v ∧ nbd i = none
  | .reassigning _ i => nbd i = none
  | .remounting v i => nbd i = none ∧ rs.owner i = some v
  | .idle | .lookup _ | .claiming _ _ | .seeking _ _ | .unmounting _ _ => True

/-- **The invariant**: a device is mounted for its slot's owner unless a thread has yet to mount it. -/
structure Devices (s : SmState T) : Prop where
  steady : ∀ t, Steady s.records s.lk t (s.pc t)
  alone : ∀ t u i, (s.pc t).slot = some i → (s.pc u).slot = some i → t = u
  unlocked : ∀ i, (s.records i).l = false → s.records.owner i = none ∧ s.nbd i = none
  here : ∀ t, Here s.records s.nbd (s.pc t)
  settled : ∀ i, (∀ t, (s.pc t).unmounted ≠ some i) → s.nbd i = s.records.owner i

/-- What a thread knows of its slot stays true while nothing changes there. -/
theorem Here.frame {rs rs' : Records} {nbd nbd' : Slot → Option Vmi} {p : Pc} (h : Here rs nbd p)
    (hl : ∀ i, (rs i).l = true → (rs' i).l = true)
    (hsame : ∀ i, p.unmounted = some i → rs'.owner i = rs.owner i ∧ nbd' i = nbd i) : Here rs' nbd' p := by
  cases p with
  | mounting v i =>
    obtain ⟨howner, hnbd⟩ := hsame i rfl
    exact ⟨hl i h.1, howner.trans h.2.1, hnbd.trans h.2.2⟩
  | reassigning v i => exact (hsame i rfl).2.trans h
  | remounting v i => exact ⟨(hsame i rfl).2.trans h.1, (hsame i rfl).1.trans h.2⟩
  | idle => trivial
  | lookup v => trivial
  | claiming v i => trivial
  | seeking v m => trivial
  | unmounting v i => trivial

theorem Here.unmounted {rs : Records} {nbd : Slot → Option Vmi} {p : Pc} {i : Slot} (h : Here rs nbd p)
    (hi : p.unmounted = some i) : nbd i = none := by
  cases p with
  | mounting v j =>
    cases hi
    exact h.2.2
  | reassigning v j =>
    cases hi
    exact h
  | remounting v j =>
    cases hi
    exact h.1
  | _ => cases hi

/-- A device is mounted for its slot's owner or for nobody. -/
theorem Devices.owner_of_nbd {s : SmState T} (h : Devices s) {i : Slot} {v : Vmi} (hi : s.nbd i = some v) :
    s.records.owner i = some v := by
  rw [← h.settled i fun t ht => ?_]
  · exact hi
  · rw [(h.here t).unmounted ht] at hi
    cases hi

/-! ## One step -/

section

variable {s s' : SmState T}

/-- A thread at work on a slot has found it locked. -/
theorem Devices.locked (h : Devices s) {t : T} {i : Slot} (hi : (s.pc t).slot = some i) : (s.records i).l = true := by
  rcases Pc.slot_cases hi with hsteal | ⟨v, hpc⟩
  · exact (h.steady t).all_locked hsteal i
  · have hhere := h.here t
    rw [hpc] at hhere
    exact hhere.1

variable [DecidableEq T]

/-- One thread moves, to `p`, and leaves the others what they know. -/
theorem Devices.goto (h : Devices s) {rs : Records} {refs : List (Ref T)} {nbd : Slot → Option Vmi} {lk : Option T}
    {t : T} {p : Pc} (hl : ∀ i, (s.records i).l = true → (rs i).l = true) (hsteady : Steady rs lk t p)
    (hlk : ∀ u, u ≠ t → (s.pc u).inSteal = true → lk = s.lk)
    (hslot : ∀ i, p.slot = some i → (s.pc t).slot = some i ∨ ∀ u, (s.pc u).slot ≠ some i)
    (hunlocked : ∀ i, (rs i).l = false → rs.owner i = none ∧ nbd i = none) (hhere : Here rs nbd p)
    (hothers : ∀ u i, u ≠ t → (s.pc u).unmounted = some i → rs.owner i = s.records.owner i ∧ nbd i = s.nbd i)
    (hsettled : ∀ i, (∀ u, u ≠ t → (s.pc u).unmounted ≠ some i) → p.unmounted ≠ some i → nbd i = rs.owner i) :
    Devices ({ s with records := rs, refs := refs, nbd := nbd, lk := lk }.goto t p) := by
  have hself : Function.update s.pc t p t = p := Function.update_self _ _ _
  have hne : ∀ u, u ≠ t → Function.update s.pc t p u = s.pc u := fun u hu => Function.update_of_ne hu _ _
  have hapart : ∀ u i, u ≠ t → p.slot = some i → (s.pc u).slot ≠ some i := by
    intro u i hu hi hui
    rcases hslot i hi with ht | hnone
    · exact hu (h.alone u t i hui ht)
    · exact hnone u hui
  refine ⟨fun u => ?_, fun u w i hu hw => ?_, hunlocked, fun u => ?_, fun i hi => ?_⟩
  · show Steady rs lk u (Function.update s.pc t p u)
    by_cases hu : u = t
    · rw [hu, hself]
      exact hsteady
    · rw [hne u hu]
      exact (h.steady u).mono hl (hlk u hu)
  · change (Function.update s.pc t p u).slot = some i at hu
    change (Function.update s.pc t p w).slot = some i at hw
    by_cases hut : u = t <;> by_cases hwt : w = t
    · rw [hut, hwt]
    · rw [hut, hself] at hu
      rw [hne w hwt] at hw
      exact absurd hw (hapart w i hwt hu)
    · rw [hne u hut] at hu
      rw [hwt, hself] at hw
      exact absurd hu (hapart u i hut hw)
    · rw [hne u hut] at hu
      rw [hne w hwt] at hw
      exact h.alone u w i hu hw
  · show Here rs nbd (Function.update s.pc t p u)
    by_cases hu : u = t
    · rw [hu, hself]
      exact hhere
    · rw [hne u hu]
      exact (h.here u).frame hl fun i hi => hothers u i hu hi
  · apply hsettled i
    · intro u hu
      rw [← hne u hu]
      exact hi u
    · rw [← hself]
      exact hi t

/-- Elsewhere than at the slot a thread works on, the devices stay settled. -/
theorem Devices.settled_of (h : Devices s) {t : T} {i : Slot} (hi : ∀ u, u ≠ t → (s.pc u).unmounted ≠ some i)
    (ht : (s.pc t).unmounted ≠ some i) : s.nbd i = s.records.owner i := by
  apply h.settled i
  intro u
  by_cases hu : u = t
  · rw [hu]
    exact ht
  · exact hi u hu

/-- A thread moves without touching a record, a device or `lk`. -/
theorem Devices.move (h : Devices s) {t : T} {p : Pc} (hp : Steady s.records s.lk t p) (hslot : p.slot = none)
    (hold : (s.pc t).unmounted = none) : Devices (s.goto t p) := by
  refine h.goto (fun _ hj => hj) hp (fun _ _ _ => rfl) (fun i hi => ?_) h.unlocked ?_ (fun _ _ _ _ => ⟨rfl, rfl⟩)
    fun i hi _ => h.settled_of hi (by rw [hold]; exact nofun)
  · rw [hslot] at hi
    cases hi
  · cases p <;> trivial

/-- A free slot goes to a thread that has yet to mount it. -/
theorem Devices.claim (h : Devices s) {refs : List (Ref T)} {t : T} {v : Vmi} {i : Slot}
    (hpc : s.pc t = .claiming v i) (hl : (s.records i).l = false) :
    Devices ({ s with records := s.records.claim i v, refs := refs }.goto t (.mounting v i)) := by
  have hfree : ∀ u, (s.pc u).slot ≠ some i := fun u hu => by
    rw [h.locked hu] at hl
    cases hl
  refine h.goto (fun j hj => ?_) (.fresh rfl rfl) (fun _ _ _ => rfl) ?_ ?_ ⟨by simp, by simp, (h.unlocked i hl).2⟩ ?_ ?_
  · rw [Records.l_claim, hj, ite_self]
  · rintro j ⟨⟩
    exact .inr hfree
  · intro j hj
    rw [Records.l_claim] at hj
    split at hj
    · cases hj
    · rename_i hji
      rw [Records.owner_claim, Function.update_of_ne hji]
      exact h.unlocked j hj
  · intro u j _ hj
    have hji : j ≠ i := fun e => hfree u (e ▸ Pc.slot_of_unmounted hj)
    rw [Records.owner_claim, Function.update_of_ne hji]
    exact ⟨rfl, rfl⟩
  · intro j hj hne
    have hji : j ≠ i := fun e => hne (e ▸ rfl)
    rw [Records.owner_claim, Function.update_of_ne hji]
    exact h.settled_of hj (by rw [hpc]; exact nofun)

/-- A thread has mounted the device of a slot whose owner it is for. -/
theorem Devices.mounted (h : Devices s) {t : T} {v : Vmi} {i : Slot} {lk : Option T} (now : Timeval)
    (hpc : (s.pc t).slot = some i) (howner : s.records.owner i = some v)
    (hlk : ∀ u, u ≠ t → (s.pc u).inSteal = true → lk = s.lk) : Devices ({ s with
      records := s.records.stamp i now
      nbd := Function.update s.nbd i (some v)
      lk := lk }.goto t .idle) := by
  refine h.goto (fun j hj => ?_) (.fresh rfl rfl) hlk nofun ?_ trivial ?_ ?_
  · rw [Records.l_stamp]
    exact hj
  · intro j hj
    rw [Records.l_stamp] at hj
    have hji : j ≠ i := fun e => by
      rw [e, h.locked hpc] at hj
      cases hj
    rw [Records.owner_stamp, Function.update_of_ne hji]
    exact h.unlocked j hj
  · intro u j hu hj
    have hji : j ≠ i := fun e => hu (h.alone u t i (e ▸ Pc.slot_of_unmounted hj) hpc)
    rw [Records.owner_stamp, Function.update_of_ne hji]
    exact ⟨rfl, rfl⟩
  · intro j hj _
    rw [Records.owner_stamp]
    by_cases hji : j = i
    · rw [hji, Function.update_self, howner]
    · rw [Function.update_of_ne hji]
      exact h.settled_of hj fun e => hji (Option.some.inj ((Pc.slot_of_unmounted e).symm.trans hpc))

/-- The search ends at a slot no thread is mounting. -/
theorem Devices.pick (h : Devices s) {t : T} {v : Vmi} {m : Int × Slot} {i : Slot} (hpc : s.pc t = .seeking v m)
    (hlk : s.lk = none) (hfree : ∀ u w, s.pc u ≠ .mounting w i) :
    Devices ({ s with lk := some t }.goto t (.unmounting v i)) := by
  have ht := h.steady t
  rw [hpc] at ht
  have hout : ∀ u, (s.pc u).inSteal ≠ true := fun u hp => by
    have := (h.steady u).holder hp
    rw [hlk] at this
    cases this
  refine h.goto (fun _ hj => hj) ⟨ht.tried, fun _ => rfl, nofun⟩ (fun u _ hp => absurd hp (hout u)) ?_ h.unlocked
    trivial (fun _ _ _ _ => ⟨rfl, rfl⟩) fun j hj _ => h.settled_of hj (by rw [hpc]; exact nofun)
  rintro j ⟨⟩
  refine .inr fun u hu => ?_
  rcases Pc.slot_cases hu with hp | ⟨w, hp⟩
  · exact hout u hp
  · exact hfree u w hp

/-- The victim's device goes. -/
theorem Devices.unmount (h : Devices s) {t : T} {v : Vmi} {i : Slot} (hpc : s.pc t = .unmounting v i) :
    Devices ({ s with nbd := Function.update s.nbd i none }.goto t (.reassigning v i)) := by
  have ht := h.steady t
  rw [hpc] at ht
  have hslot : (s.pc t).slot = some i := by rw [hpc]; rfl
  refine h.goto (fun _ hj => hj) ⟨ht.tried, ht.holder, nofun⟩ (fun _ _ _ => rfl) (fun j hj => .inl (hslot.trans hj)) ?_
    (Function.update_self _ _ _) ?_ ?_
  · intro j hj
    have hji : j ≠ i := fun e => by
      rw [e, h.locked hslot] at hj
      cases hj
    rw [Function.update_of_ne hji]
    exact h.unlocked j hj
  · intro u j hu hj
    have hji : j ≠ i := fun e => hu (h.alone u t i (e ▸ Pc.slot_of_unmounted hj) hslot)
    rw [Function.update_of_ne hji]
    exact ⟨rfl, rfl⟩
  · intro j hj hne
    have hji : j ≠ i := fun e => hne (e ▸ rfl)
    rw [Function.update_of_ne hji]
    exact h.settled_of hj (by rw [hpc]; exact nofun)

/-- The victim's record goes to the new VM. -/
theorem Devices.reassign (h : Devices s) {refs : List (Ref T)} {t : T} {v : Vmi} {i : Slot}
    (hpc : s.pc t = .reassigning v i) :
    Devices ({ s with records := s.records.reassign i v, refs := refs }.goto t (.remounting v i)) := by
  have ht := h.steady t
  have hhere := h.here t
  rw [hpc] at ht hhere
  have hslot : (s.pc t).slot = some i := by rw [hpc]; rfl
  have hlock : ∀ j, (s.records j).l = true → (s.records.reassign i v j).l = true := fun j hj => by
    rw [Records.l_reassign]
    exact hj
  refine h.goto hlock ⟨fun j hj => hlock j (ht.tried j hj), ht.holder, nofun⟩ (fun _ _ _ => rfl)
    (fun j hj => .inl (hslot.trans hj)) ?_ ⟨hhere, by simp⟩ ?_ ?_
  · intro j hj
    rw [Records.l_reassign, ht.all_locked rfl] at hj
    cases hj
  · intro u j hu hj
    have hji : j ≠ i := fun e => hu (h.alone u t i (e ▸ Pc.slot_of_unmounted hj) hslot)
    rw [Records.owner_reassign, Function.update_of_ne hji]
    exact ⟨rfl, rfl⟩
  · intro j hj hne
    have hji : j ≠ i := fun e => hne (e ▸ rfl)
    rw [Records.owner_reassign, Function.update_of_ne hji]
    exact h.settled_of hj (by rw [hpc]; exact fun e => hji (Option.some.inj e).symm)

omit [DecidableEq T] in
/-- Counting a use more or less changes no owner, no lock and no device. -/
theorem Devices.counted (h : Devices s) {rs : Records} {refs : List (Ref T)} (howner : rs.owner = s.records.owner)
    (hl : ∀ i, (rs i).l = (s.records i).l) : Devices { s with records := rs, refs := refs } where
  steady t := (h.steady t).mono (fun i hi => (hl i).trans hi) fun _ => rfl
  alone := h.alone
  unlocked i hi := by
    rw [howner]
    exact h.unlocked i ((hl i).symm.trans hi)
  here t := (h.here t).frame (fun i hi => (hl i).trans hi) fun i _ => ⟨congrFun howner i, rfl⟩
  settled i hi := (h.settled i hi).trans (congrFun howner i).symm

/-- No thread is still mounting the slot a victim pass picks. -/
def PicksFree (_ : List (ApiLabel T)) (s : SmState T) : ApiLabel T → Prop
  | .sm (.step t now) => ∀ v m, s.pc t = .seeking v m → s.lk = none → ¬ (s.records.victimPass now m).1 < 10000 →
      ∀ u w, s.pc u ≠ .mounting w (s.records.victimPass now m).2
  | .sm (.request _ _) | .sm (.release _ _ _) | .stray _ _ => True

/-- A lookup hits no slot that a thread has yet to mount. -/
def HitsMounted (_ : List (ApiLabel T)) (s : SmState T) : ApiLabel T → Prop
  | .sm (.step t _) => ∀ v i, s.pc t = .lookup v → s.records.lookup v = some i → ∀ u, (s.pc u).unmounted ≠ some i
  | .sm (.request _ _) | .sm (.release _ _ _) | .stray _ _ => True

theorem Devices.smStep (h : Devices s) {l : SmLabel T} (hfree : PicksFree [] s (.sm l))
    (hs : smStep s l = some s') : Devices s' := by
  cases smStep_cases hs with
  | request t v hpc => exact h.move (.fresh rfl rfl) rfl (by rw [hpc]; rfl)
  | hit t now v i hpc hl hcan =>
    have hcount : Devices { s with records := s.records.remount i now, refs := ⟨t, v, i⟩ :: s.refs } :=
      h.counted (Records.owner_remount _ i now) fun j => Records.l_remount _ i j now
    exact hcount.move (.fresh rfl rfl) rfl (by show (s.pc t).unmounted = none; rw [hpc]; rfl)
  | miss t now v hpc hl => exact h.move (.fresh rfl rfl) rfl (by rw [hpc]; rfl)
  | taken t now v i hpc hl =>
    have ht := h.steady t
    rw [hpc] at ht
    exact h.move (ht.afterTaken hl) (Pc.afterTaken_slot v i).1 (by rw [hpc]; rfl)
  | claim t now v i hpc hl => exact h.claim hpc hl
  | mount t now v i hpc =>
    have hhere := h.here t
    rw [hpc] at hhere
    exact h.mounted now (by rw [hpc]; rfl) hhere.2.1 fun _ _ _ => rfl
  | unlucky t now v m hpc hlk hshort =>
    have ht := h.steady t
    rw [hpc] at ht
    refine h.move ⟨ht.tried, nofun, fun w m' hp => ?_⟩ rfl (by rw [hpc]; rfl)
    cases hp
    exact hshort
  | pick t now v m hpc hlk hlong => exact h.pick hpc hlk (hfree v m hpc hlk hlong)
  | unmount t now v i hpc => exact h.unmount hpc
  | reassign t now v i hpc => exact h.reassign hpc
  | remount t now v i hpc =>
    have hhere := h.here t
    have hsteal : (s.pc t).inSteal = true := by rw [hpc]; rfl
    have ht := (h.steady t).holder hsteal
    rw [hpc] at hhere
    refine h.mounted now (by rw [hpc]; rfl) hhere.2 fun u hu hp => absurd ?_ hu
    exact Option.some.inj (((h.steady u).holder hp).symm.trans ht)
  | release t v i hpc hmem hcan => exact h.counted (Records.owner_release _ i) fun j => Records.l_release _ i j

/-- **Every step keeps the invariant**, whoever looks up what, while no victim is still being mounted. -/
theorem Devices.step (h : Devices s) {l : ApiLabel T} (hfree : PicksFree [] s l) (hs : apiStep s l = some s') :
    Devices s' := by
  cases l with
  | sm l => exact h.smStep hfree hs
  | stray t i =>
    obtain ⟨-, rfl⟩ := apiStep_stray hs
    exact h.counted (Records.owner_release _ i) fun j => Records.l_release _ i j

omit [DecidableEq T] in
theorem devices_init (clock : Slot → Timeval) : Devices (SmState.init clock : SmState T) :=
  ⟨fun _ => .fresh rfl rfl, nofun, fun _ _ => ⟨rfl, rfl⟩, fun _ => trivial, fun _ _ => rfl⟩

/-- **A return is of a mounted slot exactly when it is no hit of a slot yet to be mounted.** -/
theorem Devices.returns_iff (h : Devices s) {l : ApiLabel T} (hs : apiStep s l = some s') :
    (∀ v i, apiReturns s l = some (v, i) → s'.nbd i = some v) ↔ HitsMounted [] s l := by
  cases l with
  | stray t i => exact iff_of_true nofun trivial
  | sm l =>
    unfold apiReturns smReturns
    cases smStep_cases hs with
    | hit t now v i hpc hl hcan =>
      have howner := Records.lookup_some hl
      simp only [hpc, hl, Option.map_some]
      constructor
      · intro hret w j hw hj u hu
        cases hpc.symm.trans hw
        cases hl.symm.trans hj
        have hnbd : s.nbd i = some v := hret v i rfl
        rw [(h.here u).unmounted hu] at hnbd
        cases hnbd
      · rintro hmiss w j ⟨⟩
        exact (h.settled i (hmiss v i hpc hl)).trans howner
    | mount t now v i hpc =>
      simp only [hpc]
      refine iff_of_true ?_ fun w j hw _ => nomatch hpc.symm.trans hw
      rintro w j ⟨⟩
      exact Function.update_self _ _ _
    | remount t now v i hpc =>
      simp only [hpc]
      refine iff_of_true ?_ fun w j hw _ => nomatch hpc.symm.trans hw
      rintro w j ⟨⟩
      exact Function.update_self _ _ _
    | miss t now v hpc hl =>
      simp only [hpc, hl, Option.map_none]
      refine iff_of_true nofun fun w j hw hj => ?_
      cases hpc.symm.trans hw
      cases hl.symm.trans hj
    | request t v hpc => exact iff_of_true nofun trivial
    | release t v i hpc hmem hcan => exact iff_of_true nofun trivial
    | taken t now v i hpc hl | claim t now v i hpc hl | unlucky t now v i hpc hlk hshort
    | pick t now v i hpc hlk hlong | unmount t now v i hpc | reassign t now v i hpc =>
      simp only [hpc]
      exact iff_of_true nofun fun w j hw _ => nomatch hpc.symm.trans hw

end

/-! ## Runs -/

section

variable [DecidableEq T]

/-- Whenever a request of the run returns a slot for a VM, the slot's device is mounted for that VM. -/
def ReturnsMounted (s₀ : SmState T) (ls : List (ApiLabel T)) : Prop :=
  ∀ p l s s', p ++ [l] <+: ls → Run (stepOf apiStep) s₀ p s → apiStep s l = some s' →
    ∀ v i, apiReturns s l = some (v, i) → s'.nbd i = some v

/-- **A request returns a slot that is mounted exactly when no lookup hits one that a thread has yet to mount.** -/
theorem returned_mounted_iff (clock : Slot → Timeval) (ls : List (ApiLabel T)) (s : SmState T)
    (hrun : Run (stepOf apiStep) (SmState.init clock) ls s)
    (hfree : EachStep (stepOf apiStep) (SmState.init clock) PicksFree ls) :
    ReturnsMounted (SmState.init clock) ls ↔ EachStep (stepOf apiStep) (SmState.init clock) HitsMounted ls := by
  have hdevices : ∀ {p t}, p <+: ls → Run (stepOf apiStep) (SmState.init clock) p t → Devices t := by
    intro p t hp ht
    refine Run.invariant_eachStep (I := fun _ t => Devices t) (devices_init clock) ?_ (hfree.of_prefix hp) ht
    intro _ _ _ _ h hf hs
    exact h.step hf hs
  constructor
  · intro h p l t hp ht
    obtain ⟨t₁, t', ht₁, hstep⟩ := hrun.step_of_prefix hp
    obtain rfl := run_stepOf_unique ht₁ ht
    exact ((hdevices ((List.prefix_append _ _).trans hp) ht).returns_iff hstep).1 (h p l t₁ t' hp ht hstep)
  · intro h p l t t' hp ht hstep
    exact ((hdevices ((List.prefix_append _ _).trans hp) ht).returns_iff hstep).2 (h p l t hp ht)

end

/-! ## Matched releases -/

/-- A slot still being mounted for the first time counts its users, the thread that mounts it among them. -/
structure MountsCounted (s : SmState T) : Prop where
  count : ∀ t v i, s.pc t = .mounting v i → s.records.refcount i = users s.refs i
  mem : ∀ t v i, s.pc t = .mounting v i → ⟨t, v, i⟩ ∈ s.refs
  unlocked : ∀ i, (s.records i).l = false → users s.refs i = 0

section

variable {s s' : SmState T}

theorem users_pos {refs : List (Ref T)} {r : Ref T} (h : r ∈ refs) : 0 < users refs r.slot :=
  List.countP_pos_iff.2 ⟨r, h, decide_eq_true rfl⟩

/-- A victim has no user, so no thread is still mounting it. -/
theorem MountsCounted.picksFree [DecidableEq T] (h : MountsCounted s) (hd : Devices s) (l : SmLabel T) :
    PicksFree [] s (.sm l) := by
  cases l with
  | request t v => trivial
  | release t v i => trivial
  | step t now =>
    intro v m hpc hlk hlong u w hu
    have ht := hd.steady t
    rw [hpc] at ht
    have h0 := Records.victimPass_long (ht.unlucky v m rfl) hlong
    have hcount := h.count u w _ hu
    have hpos : 0 < users s.refs (s.records.victimPass now m).2 := users_pos (h.mem u w _ hu)
    omega

variable [DecidableEq T]

/-- A thread moves, and does not start to mount. -/
theorem MountsCounted.goto {rs : Records} {refs : List (Ref T)} {nbd : Slot → Option Vmi} {lk : Option T} {t : T}
    {p : Pc} (hp : ∀ v i, p ≠ .mounting v i)
    (hcount : ∀ u v i, u ≠ t → s.pc u = .mounting v i → rs.refcount i = users refs i)
    (hmem : ∀ u v i, u ≠ t → s.pc u = .mounting v i → ⟨u, v, i⟩ ∈ refs)
    (hunlocked : ∀ i, (rs i).l = false → users refs i = 0) :
    MountsCounted ({ s with records := rs, refs := refs, nbd := nbd, lk := lk }.goto t p) := by
  have hold : ∀ u v i, Function.update s.pc t p u = .mounting v i → u ≠ t ∧ s.pc u = .mounting v i := by
    intro u v i hu
    by_cases hut : u = t
    · rw [hut, Function.update_self] at hu
      exact absurd hu (hp v i)
    · rw [Function.update_of_ne hut] at hu
      exact ⟨hut, hu⟩
  refine ⟨fun u v i hu => ?_, fun u v i hu => ?_, hunlocked⟩
  · obtain ⟨hut, hu⟩ := hold u v i hu
    exact hcount u v i hut hu
  · obtain ⟨hut, hu⟩ := hold u v i hu
    exact hmem u v i hut hu

theorem MountsCounted.move {nbd : Slot → Option Vmi} {lk : Option T} {t : T} {p : Pc} (h : MountsCounted s)
    (hp : ∀ v i, p ≠ .mounting v i) : MountsCounted ({ s with nbd := nbd, lk := lk }.goto t p) :=
  .goto hp (fun u v i _ => h.count u v i) (fun u v i _ => h.mem u v i) h.unlocked

/-- The slot hit is owned, so its mutex is locked. -/
theorem MountsCounted.hit {t : T} {v : Vmi} {i : Slot} (h : MountsCounted s) (hd : Devices s) (now : Timeval)
    (hl : s.records.lookup v = some i) :
    MountsCounted ({ s with records := s.records.remount i now, refs := ⟨t, v, i⟩ :: s.refs }.goto t .idle) := by
  have hli : ∀ j, (s.records j).l = false → i ≠ j := fun j hj hij => by
    have howner := (hd.unlocked j hj).1
    rw [← hij, Records.lookup_some hl] at howner
    cases howner
  refine .goto nofun (fun u w j _ hu => ?_) (fun u w j _ hu => List.mem_cons_of_mem _ (h.mem u w j hu)) fun j hj => ?_
  · rw [Records.refcount_remount]
    exact count_again (h.count u w j hu)
  · rw [Records.l_remount] at hj
    rw [users_cons, h.unlocked j hj, if_neg (hli j hj)]

/-- All mutexes are locked here, and the victim is in no other thread's hands. -/
theorem MountsCounted.reassign {t : T} {v : Vmi} {i : Slot} (h : MountsCounted s) (hd : Devices s)
    (hpc : s.pc t = .reassigning v i) :
    MountsCounted ({ s with records := s.records.reassign i v, refs := ⟨t, v, i⟩ :: s.refs }.goto t
      (.remounting v i)) := by
  have hslot : (s.pc t).slot = some i := by rw [hpc]; rfl
  have hall : ∀ j, (s.records j).l = true := (hd.steady t).all_locked (by rw [hpc]; rfl)
  refine .goto nofun (fun u w j hut hu => ?_) (fun u w j _ hu => List.mem_cons_of_mem _ (h.mem u w j hu)) fun j hj => ?_
  · have hji : j ≠ i := fun e => hut (hd.alone u t i (by rw [hu, e]; rfl) hslot)
    rw [Records.refcount_reassign, users_cons, Function.update_of_ne hji, h.count u w j hu, if_neg (Ne.symm hji)]
    rfl
  · rw [Records.l_reassign, hall] at hj
    cases hj

/-- The slot taken was unlocked: no thread was mounting it, and it had no user. -/
theorem MountsCounted.claim {t : T} {v : Vmi} {i : Slot} (h : MountsCounted s) (hl : (s.records i).l = false) :
    MountsCounted ({ s with records := s.records.claim i v, refs := ⟨t, v, i⟩ :: s.refs }.goto t (.mounting v i)) := by
  have hself : Function.update s.pc t (.mounting v i) t = .mounting v i := Function.update_self _ _ _
  refine ⟨fun u w j hu => ?_, fun u w j hu => ?_, fun j hj => ?_⟩
  · show (s.records.claim i v).refcount j = users (⟨t, v, i⟩ :: s.refs) j
    change Function.update s.pc t _ u = _ at hu
    rw [Records.refcount_claim]
    refine count_first (h.unlocked i hl) fun hji => h.count u w j ?_
    rwa [Function.update_of_ne fun hut => hji ?_] at hu
    rw [hut, hself] at hu
    cases hu
    rfl
  · change Function.update s.pc t _ u = _ at hu
    by_cases hut : u = t
    · rw [hut, hself] at hu
      cases hu
      rw [hut]
      exact List.mem_cons_self
    · rw [Function.update_of_ne hut] at hu
      exact List.mem_cons_of_mem _ (h.mem u w j hu)
  · change ((s.records.claim i v) j).l = false at hj
    rw [Records.l_claim] at hj
    split at hj
    · cases hj
    · rename_i hji
      exact (users_cons _ _).trans (by rw [h.unlocked j hj, if_neg (Ne.symm hji)])

/-- The thread that releases is in no request, so the use released is not the one of a mount under way. -/
theorem MountsCounted.release {t : T} {v : Vmi} {i : Slot} (h : MountsCounted s) (hpc : s.pc t = .idle)
    (hmem : ⟨t, v, i⟩ ∈ s.refs) :
    MountsCounted { s with records := s.records.release i, refs := s.refs.erase ⟨t, v, i⟩ } := by
  refine ⟨fun u w j hu => ?_, fun u w j hu => ?_, fun j hj => ?_⟩
  · show (s.records.release i).refcount j = users (s.refs.erase ⟨t, v, i⟩) j
    rw [Records.refcount_release]
    exact count_released hmem (h.count u w j hu)
  · refine (List.mem_erase_of_ne fun e => ?_).2 (h.mem u w j hu)
    have hut : u = t := congrArg Ref.thread e
    rw [hut, hpc] at hu
    cases hu
  · change ((s.records.release i) j).l = false at hj
    rw [Records.l_release] at hj
    have := users_erase hmem j
    rw [h.unlocked j hj] at this
    show users (s.refs.erase ⟨t, v, i⟩) j = 0
    omega

theorem MountsCounted.step {l : SmLabel T} (h : MountsCounted s) (hd : Devices s) (hs : smStep s l = some s') :
    MountsCounted s' := by
  cases smStep_cases hs with
  | request t v hpc => exact h.move nofun
  | miss t now v hpc hl => exact h.move nofun
  | unlucky t now v m hpc hlk hshort => exact h.move nofun
  | pick t now v m hpc hlk hlong => exact h.move nofun
  | unmount t now v i hpc => exact h.move nofun
  | taken t now v i hpc hl =>
    apply h.move
    intro w j
    unfold Pc.afterTaken
    split <;> exact nofun
  | mount t now v i hpc | remount t now v i hpc =>
    refine .goto nofun (fun u w j _ hu => ?_) (fun u w j _ => h.mem u w j) fun j hj => ?_
    · rw [Records.refcount_stamp]
      exact h.count u w j hu
    · rw [Records.l_stamp] at hj
      exact h.unlocked j hj
  | hit t now v i hpc hl hcan => exact h.hit hd now hl
  | reassign t now v i hpc => exact h.reassign hd hpc
  | claim t now v i hpc hl => exact h.claim hl
  | release t v i hpc hmem hcan => exact h.release hpc hmem

end

/-- **Where each release matches a request, no victim is still being mounted.** -/
theorem picks_free_of_matched [DecidableEq T] (clock : Slot → Timeval) {ls : List (SmLabel T)} {s : SmState T}
    (hrun : Run (stepOf smStep) (SmState.init clock) ls s) :
    Run (stepOf apiStep) (SmState.init clock) (ls.map .sm) s ∧
      EachStep (stepOf apiStep) (SmState.init clock) PicksFree (ls.map .sm) ∧ Devices s ∧ MountsCounted s := by
  induction hrun with
  | nil =>
    refine ⟨.nil, fun p l t hp => absurd (List.prefix_nil.1 hp) (by simp), devices_init clock, nofun, nofun, ?_⟩
    exact fun _ _ => rfl
  | snoc hr hs ih =>
    obtain ⟨hrun, hfree, hd, hm⟩ := ih
    rw [List.map_append]
    refine ⟨.snoc hrun hs, eachStep_snoc.2 ⟨hfree, fun t ht => ?_⟩, hd.smStep (hm.picksFree hd _) hs, hm.step hd hs⟩
    rw [run_stepOf_unique ht hrun]
    exact hm.picksFree hd _

/-- Thread 0 mounts VM 1, and thread 1 looks it up when the mount is done. -/
def lookupAfter : List (SmLabel Nat) :=
  [.request 0 1, .step 0 ⟨0, 0⟩, .step 0 ⟨0, 0⟩, .step 0 ⟨0, 0⟩, .request 1 1, .step 1 ⟨0, 0⟩]

theorem returned_mounted_iff_after : ReturnsMounted (SmState.init fun _ => ⟨0, 0⟩) (lookupAfter.map .sm) ↔
    EachStep (stepOf apiStep) (SmState.init fun _ => ⟨0, 0⟩) HitsMounted (lookupAfter.map .sm) := by
  obtain ⟨s, hrun⟩ := exists_run (show (exec smStep (SmState.init fun _ => ⟨0, 0⟩) lookupAfter).isSome = true by decide)
  obtain ⟨happ, hfree, -⟩ := picks_free_of_matched _ hrun
  exact returned_mounted_iff _ _ s happ hfree

/-- Thread 1 looks VM 1 up when thread 0 has filled the record for it and not mounted the device yet. -/
def lookupBetween : List (SmLabel Nat) := [.request 0 1, .step 0 ⟨0, 0⟩, .step 0 ⟨0, 0⟩, .request 1 1]

theorem returned_before_mounted : ∃ s s', Run (stepOf smStep) (SmState.init fun _ => ⟨0, 0⟩) lookupBetween s ∧
    smStep s (.step 1 ⟨0, 0⟩) = some s' ∧ smReturns s (.step 1 ⟨0, 0⟩) = some (1, 0) ∧ s'.nbd 0 = none := by
  obtain ⟨s, hs, hfound⟩ := Option.map_eq_some_iff.1 (show (exec smStep (SmState.init fun _ => ⟨0, 0⟩)
    lookupBetween).map (fun s => (smReturns s (.step 1 ⟨0, 0⟩), (smStep s (.step 1 ⟨0, 0⟩)).map fun s' => s'.nbd 0)) =
      some (some (1, 0), some none) by decide)
  obtain ⟨hret, hstep⟩ := Prod.mk.inj hfound
  obtain ⟨s', hs', hnbd⟩ := Option.map_eq_some_iff.1 hstep
  exact ⟨s, s', run_of_exec hs, hs', hret, hnbd⟩

end Hyperagents
