import Hyperagents.SlotMounted
/-!
# The turns of a device

Threads mount and unmount the devices under different mutexes, `l` of a record the first time and `lk` after that, and a
lookup uses a slot under neither.  Still no device is worked on by two threads at a time, and the calls on it take
turns whichever threads make them: `do_nbd_mount` first, and then each undoes the one before (`device_calls_alternate`).
So no mount finds the device connected by another, and no unmount finds it bare.
-/
namespace Hyperagents

open Runs

variable {T : Type}

/-- The device that a thread's next step works on, and whether it mounts it. -/
def Pc.deviceCall : Pc → Option (Slot × Bool)
  | .mounting _ i | .remounting _ i => some (i, true)
  | .unmounting _ i => some (i, false)
  | .idle | .lookup _ | .claiming _ _ | .seeking _ _ | .reassigning _ _ => none

def SmLabel.deviceCall (s : SmState T) : SmLabel T → Option (Slot × Bool)
  | .step t _ => (s.pc t).deviceCall
  | .request _ _ | .release _ _ _ => none

/-- What a step does with the device of `i`. -/
def SmLabel.callOn (i : Slot) (s : SmState T) (l : SmLabel T) : List Bool :=
  match l.deviceCall s with
  | some (j, mounts) => if j = i then [mounts] else []
  | none => []

/-- The calls on the device of `i` along a run: `do_nbd_mount` is `true`, `do_nbd_unmount` is `false`. -/
def deviceCalls [DecidableEq T] (i : Slot) : SmState T → List (SmLabel T) → List Bool :=
  history smStep fun s l => l.callOn i s

/-- Mounts and unmounts in turn, a mount first. -/
def InTurns (calls : List Bool) : Prop := ∀ k mounts, calls[k]? = some mounts → (mounts = true ↔ k % 2 = 0)

theorem InTurns.snoc {calls : List Bool} {mounts : Bool} (h : InTurns calls)
    (hlast : mounts = true ↔ calls.length % 2 = 0) : InTurns (calls ++ [mounts]) := by
  intro k b hk
  rcases Nat.lt_trichotomy k calls.length with hlt | heq | hgt
  · rw [List.getElem?_append_left hlt] at hk
    exact h k b hk
  · rw [heq, List.getElem?_concat_length] at hk
    rw [heq, ← Option.some.inj hk]
    exact hlast
  · rw [List.getElem?_eq_none (by rw [List.length_append, List.length_singleton]; exact hgt)] at hk
    cases hk

section

variable [DecidableEq T] {s s' : SmState T} {ls : List (SmLabel T)} {l : SmLabel T} {i : Slot}

/-! ## One step -/

/-- A slot that was taken has an owner. -/
def TakenOwned (rs : Records) : Prop := ∀ i, (rs i).l = true → rs.owner i ≠ none

theorem TakenOwned.keep {rs rs' : Records} (h : TakenOwned rs) (hl : ∀ i, (rs' i).l = (rs i).l)
    (howner : rs'.owner = rs.owner) : TakenOwned rs' := by
  intro i hi
  rw [howner]
  exact h i (hl i ▸ hi)

theorem TakenOwned.give {rs rs' : Records} {j : Slot} {v : Vmi} (h : TakenOwned rs)
    (hl : ∀ i, i ≠ j → (rs' i).l = (rs i).l) (howner : rs'.owner = Function.update rs.owner j (some v)) :
    TakenOwned rs' := by
  intro i hi
  rw [howner]
  by_cases hij : i = j
  · rw [hij, Function.update_self]
    exact Option.some_ne_none v
  · rw [Function.update_of_ne hij]
    exact h i (hl i hij ▸ hi)

theorem TakenOwned.step (h : TakenOwned s.records) (hs : smStep s l = some s') : TakenOwned s'.records := by
  cases smStep_cases hs with
  | request t v hpc => exact h
  | hit t now v i hpc hl hcan => exact h.keep (fun j => Records.l_remount _ _ _ _) (Records.owner_remount _ _ _)
  | miss t now v hpc hl => exact h
  | taken t now v i hpc hl => exact h
  | claim t now v i hpc hl =>
    exact h.give (fun j hj => (Records.l_claim _ _ _ _).trans (if_neg hj)) (Records.owner_claim _ _ _)
  | mount t now v i hpc => exact h.keep (fun j => Records.l_stamp _ _ _ _) (Records.owner_stamp _ _ _)
  | unlucky t now v m hpc hlk hshort => exact h
  | pick t now v m hpc hlk hlong => exact h
  | unmount t now v i hpc => exact h
  | reassign t now v i hpc => exact h.give (fun j _ => Records.l_reassign _ _ _ _) (Records.owner_reassign _ _ _)
  | remount t now v i hpc => exact h.keep (fun j => Records.l_stamp _ _ _ _) (Records.owner_stamp _ _ _)
  | release t v i hpc hmem hcan => exact h.keep (fun j => Records.l_release _ _ _) (Records.owner_release _ _)

omit [DecidableEq T] in
/-- **A call finds the device as the one before left it**: a mount finds it bare, an unmount finds it mounted. -/
theorem Devices.call_iff (h : Devices s) (howned : TakenOwned s.records) {t : T} {mounts : Bool}
    (hcall : (s.pc t).deviceCall = some (i, mounts)) : mounts = true ↔ s.nbd i = none := by
  have hhere := h.here t
  cases hpc : s.pc t with
  | mounting v j =>
    rw [hpc] at hcall hhere
    cases hcall
    exact iff_of_true rfl hhere.2.2
  | remounting v j =>
    rw [hpc] at hcall hhere
    cases hcall
    exact iff_of_true rfl hhere.1
  | unmounting v j =>
    rw [hpc] at hcall
    cases hcall
    have hslot : (s.pc t).slot = some i := by rw [hpc]; rfl
    -- Nobody else is at this slot, so the device is its owner's.
    have hsettled : s.nbd i = s.records.owner i := by
      refine h.settled i fun u hu => ?_
      have hut : t = u := h.alone t u i hslot (Pc.slot_of_unmounted hu)
      rw [← hut, hpc] at hu
      cases hu
    refine iff_of_false (by decide) ?_
    rw [hsettled]
    exact howned i (h.locked hslot)
  | idle | lookup v | claiming v j | seeking v m | reassigning v j =>
    rw [hpc] at hcall
    cases hcall

omit [DecidableEq T] in
theorem deviceCall_step {t : T} {now : Timeval} {p : Pc} (hpc : s.pc t = p) :
    (SmLabel.step t now).deviceCall s = p.deviceCall := congrArg Pc.deviceCall hpc

/-- A step leaves the device it calls mounted or bare, and the others as they were. -/
theorem nbd_step (hs : smStep s l = some s') :
    (∃ j mounts vm, l.deviceCall s = some (j, mounts) ∧ (vm = none ↔ mounts = false) ∧
      s'.nbd = Function.update s.nbd j vm) ∨ l.deviceCall s = none ∧ s'.nbd = s.nbd := by
  cases smStep_cases hs with
  | request t v hpc => exact .inr ⟨rfl, rfl⟩
  | hit t now v i hpc hl hcan => exact .inr ⟨deviceCall_step hpc, rfl⟩
  | miss t now v hpc hl => exact .inr ⟨deviceCall_step hpc, rfl⟩
  | taken t now v i hpc hl => exact .inr ⟨deviceCall_step hpc, rfl⟩
  | claim t now v i hpc hl => exact .inr ⟨deviceCall_step hpc, rfl⟩
  | mount t now v i hpc =>
    exact .inl ⟨i, true, some v, deviceCall_step hpc, iff_of_false (Option.some_ne_none v) (by decide), rfl⟩
  | unlucky t now v m hpc hlk hshort => exact .inr ⟨deviceCall_step hpc, rfl⟩
  | pick t now v m hpc hlk hlong => exact .inr ⟨deviceCall_step hpc, rfl⟩
  | unmount t now v i hpc =>
    exact .inl ⟨i, false, none, deviceCall_step hpc, iff_of_true rfl rfl, rfl⟩
  | reassign t now v i hpc => exact .inr ⟨deviceCall_step hpc, rfl⟩
  | remount t now v i hpc =>
    exact .inl ⟨i, true, some v, deviceCall_step hpc, iff_of_false (Option.some_ne_none v) (by decide), rfl⟩
  | release t v i hpc hmem hcan => exact .inr ⟨rfl, rfl⟩

/-- The calls so far, and whether the device is bare after them. -/
structure Turns (i : Slot) (calls : List Bool) (nbd : Slot → Option Vmi) : Prop where
  inTurns : InTurns calls
  bare : nbd i = none ↔ calls.length % 2 = 0

theorem Turns.step {calls : List Bool} (h : Turns i calls s.nbd) (hs : smStep s l = some s')
    (hcall : ∀ mounts, l.deviceCall s = some (i, mounts) → (mounts = true ↔ s.nbd i = none)) :
    Turns i (calls ++ l.callOn i s) s'.nbd := by
  unfold SmLabel.callOn
  rcases nbd_step hs with ⟨j, mounts, vm, hl, hvm, hnbd⟩ | ⟨hl, hsame⟩
  · rw [hl, hnbd]
    dsimp only
    by_cases hji : j = i
    · rw [hji] at hl ⊢
      have hturn : mounts = true ↔ calls.length % 2 = 0 := (hcall mounts hl).trans h.bare
      rw [if_pos rfl]
      refine ⟨h.inTurns.snoc hturn, ?_⟩
      rw [Function.update_self, hvm, List.length_append, List.length_singleton, ← Bool.not_eq_true, hturn]
      omega
    · rw [if_neg hji, List.append_nil]
      refine ⟨h.inTurns, ?_⟩
      rw [Function.update_of_ne (Ne.symm hji)]
      exact h.bare
  · rw [hl]
    dsimp only
    rw [List.append_nil, hsame]
    exact h

/-! ## Runs -/

/-- **Mounts and unmounts of a device take turns**, and one thread at a time works on it, in every run whose releases
each match a request. -/
theorem device_calls_alternate (clock : Slot → Timeval) (ls : List (SmLabel T)) (s : SmState T)
    (hrun : Run (stepOf smStep) (SmState.init clock) ls s) (i : Slot) :
    InTurns (deviceCalls i (SmState.init clock) ls) ∧
      ∀ t u, (s.pc t).slot = some i → (s.pc u).slot = some i → t = u := by
  have hturns : TakenOwned s.records ∧ Turns i (deviceCalls i (SmState.init clock) ls) s.nbd := by
    refine Run.invariant (P := fun ls s => TakenOwned s.records ∧ Turns i (deviceCalls i (SmState.init clock) ls) s.nbd)
      ⟨fun i hi => absurd hi Bool.false_ne_true, nofun, iff_of_true rfl rfl⟩ ?_ hrun
    rintro ls s l s' hrun ⟨howned, hturns⟩ hs
    obtain ⟨-, -, hdevices, -⟩ := picks_free_of_matched clock hrun
    refine ⟨howned.step hs, ?_⟩
    rw [deviceCalls, history_snoc hrun hs]
    refine hturns.step hs fun mounts hcall => ?_
    cases l with
    | step t now => exact hdevices.call_iff howned hcall
    | request t v => cases hcall
    | release t v i => cases hcall
  obtain ⟨-, -, hdevices, -⟩ := picks_free_of_matched clock hrun
  exact ⟨hturns.2.inTurns, fun t u ht hu => hdevices.alone t u i ht hu⟩

/-- One thread mounts VM 1 and releases it; another waits until all slots are taken and steals that one for VM 17. -/
def oneStolen : List (SmLabel Nat) :=
  fill 16 ++ [.release 0 1 0, .request 1 17] ++ (List.replicate 17 (.step 1 ⟨0, 0⟩)) ++
    List.replicate 4 (.step 1 ⟨10, 0⟩)

theorem device_calls_alternate_once : ∃ s, Run (stepOf smStep) (SmState.init fun _ => ⟨0, 0⟩) oneStolen s ∧
    InTurns (deviceCalls 0 (SmState.init fun _ => ⟨0, 0⟩) oneStolen) ∧
      ∀ t u, (s.pc t).slot = some 0 → (s.pc u).slot = some 0 → t = u := by
  obtain ⟨s, hrun⟩ := exists_run (show (exec smStep (SmState.init fun _ => ⟨0, 0⟩) oneStolen).isSome = true by
    decide +kernel)
  exact ⟨s, hrun, device_calls_alternate _ oneStolen s hrun 0⟩

end

end Hyperagents
