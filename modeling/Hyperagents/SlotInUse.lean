import Mathlib.Data.Fintype.Basic
import Hyperagents.Threads
import Mathlib.Data.List.Count
/-!
# Slots in use, under any interleaving

The search for a victim tests the reference count under `lk`, but a lookup counts its hit without it, up to the moment
the victim's fields are reassigned.  That is the one way a slot in use is taken away: where no lookup hits a slot that a
thread has picked and not reassigned yet (`Undisturbed`), every request keeps its slot until its release (`Safe`).
-/
namespace Hyperagents

open Runs

/-- How many slots a thread found locked on its way to where it is. -/
def Pc.tried : Pc → Nat
  | .idle | .lookup _ | .mounting _ _ => 0
  | .claiming _ i => i.val
  | .seeking _ _ | .unmounting _ _ | .reassigning _ _ | .remounting _ _ => DEVMAX

/-- Between the victim pass that ended the search and the return. -/
def Pc.inSteal : Pc → Bool
  | .unmounting _ _ | .reassigning _ _ | .remounting _ _ => true
  | .idle | .lookup _ | .claiming _ _ | .mounting _ _ | .seeking _ _ => false

/-- The slot a thread has picked and not reassigned yet. -/
def Pc.victim : Pc → Option Slot
  | .unmounting _ i | .reassigning _ i => some i
  | .idle | .lookup _ | .claiming _ _ | .mounting _ _ | .seeking _ _ | .remounting _ _ => none

theorem Pc.of_victim {p : Pc} {i : Slot} (h : p.victim = some i) : p.inSteal = true ∧ p.tried = DEVMAX := by
  cases p <;> first | exact ⟨rfl, rfl⟩ | cases h

theorem Pc.tried_of_inSteal {p : Pc} (h : p.inSteal = true) : p.tried = DEVMAX := by
  cases p <;> first | rfl | cases h

variable {T : Type} [DecidableEq T]

/-- How many requests counted themselves in a slot and were not released. -/
def users (refs : List (Ref T)) (i : Slot) : Nat := refs.countP (fun r => decide (r.slot = i))

/-- The records count the requests outstanding, and belong to the VMs these were for. -/
structure Counted (rs : Records) (refs : List (Ref T)) : Prop where
  count : ∀ i, rs.refcount i = users refs i
  owned : ∀ r ∈ refs, rs.owner r.slot = some r.vmi
  unlocked : ∀ i, (rs i).l = false → rs.owner i = none

/-- What holds of the thread `t` at `p`, disturbed or not. -/
structure Steady (rs : Records) (lk : Option T) (t : T) (p : Pc) : Prop where
  tried : ∀ i : Slot, i.val < p.tried → (rs i).l = true
  holder : p.inSteal = true → lk = some t
  unlucky : ∀ v m, p = .seeking v m → m.1 < 10000

/-- What holds of it while nobody disturbs. -/
structure InOrder (rs : Records) (lk : Option T) (t : T) (p : Pc) : Prop where
  tried : ∀ i : Slot, i.val < p.tried → (rs i).l = true
  holder : p.inSteal = true → lk = some t
  unlucky : ∀ v m, p = .seeking v m → m.1 < 10000
  victim : ∀ i, p.victim = some i → rs.refcount i = 0

structure Safe (s : SmState T) : Prop where
  counted : Counted s.records s.refs
  inOrder : ∀ t, InOrder s.records s.lk t (s.pc t)

/-! ## The records -/

section

variable {rs rs' : Records} {refs : List (Ref T)} {t : T} {v : Vmi} {i : Slot}

omit [DecidableEq T]

theorem users_cons (r : Ref T) (i : Slot) : users (r :: refs) i = users refs i + if r.slot = i then 1 else 0 := by
  simp [users, List.countP_cons]

theorem users_erase [DecidableEq T] {r : Ref T} (hr : r ∈ refs) (i : Slot) :
    users refs i = users (refs.erase r) i + if r.slot = i then 1 else 0 :=
  ((List.perm_cons_erase hr).countP_eq _).trans (users_cons r i)

/-- One more use of `i`, counted. -/
theorem count_again {f : Slot → Int} {j : Slot} (h : f j = users refs j) :
    Function.update f i (f i + 1) j = users (⟨t, v, i⟩ :: refs) j := by
  rw [users_cons]
  by_cases hji : j = i
  · subst hji
    rw [Function.update_self, h, if_pos rfl]
    rfl
  · rw [Function.update_of_ne hji, h, if_neg (Ne.symm hji)]
    rfl

/-- The first use of `i`, counted. -/
theorem count_first {f : Slot → Int} {j : Slot} (h0 : users refs i = 0) (h : j ≠ i → f j = users refs j) :
    Function.update f i 1 j = users (⟨t, v, i⟩ :: refs) j := by
  rw [users_cons]
  by_cases hji : j = i
  · subst hji
    rw [Function.update_self, h0, if_pos rfl]
    rfl
  · rw [Function.update_of_ne hji, h hji, if_neg (Ne.symm hji)]
    rfl

/-- One use of `i` less, counted. -/
theorem count_released [DecidableEq T] {f : Slot → Int} {j : Slot} (hr : ⟨t, v, i⟩ ∈ refs) (h : f j = users refs j) :
    Function.update f i (f i - 1) j = users (refs.erase ⟨t, v, i⟩) j := by
  rw [users_erase hr] at h
  by_cases hji : j = i
  · subst hji
    rw [Function.update_self, h, if_pos rfl]
    omega
  · rw [Function.update_of_ne hji, h, if_neg (Ne.symm hji)]
    rfl

/-- A slot out of use is in no request's hands. -/
theorem Counted.not_mem (h : Counted rs refs) (h0 : rs.refcount i = 0) : ∀ r ∈ refs, r.slot ≠ i := by
  intro r hr hri
  have hpos : 0 < users refs i := List.countP_pos_iff.2 ⟨r, hr, decide_eq_true hri⟩
  have := h.count i
  omega

theorem Counted.unlocked_refcount (h : Counted rs refs) (hl : (rs i).l = false) : rs.refcount i = 0 := by
  have hnone : users refs i = 0 := by
    refine List.countP_eq_zero.2 fun r hr hri => ?_
    have ho := h.owned r hr
    rw [of_decide_eq_true hri, h.unlocked i hl] at ho
    cases ho
  rw [h.count, hnone]
  rfl

theorem Counted.hit (h : Counted rs refs) (now : Timeval) (ho : rs.owner i = some v) :
    Counted (rs.remount i now) (⟨t, v, i⟩ :: refs) := by
  refine ⟨fun j => ?_, fun r hr => ?_, fun j hj => ?_⟩
  · rw [Records.refcount_remount]
    exact count_again (h.count j)
  · rw [Records.owner_remount]
    rcases List.mem_cons.1 hr with rfl | hr
    · exact ho
    · exact h.owned r hr
  · rw [Records.l_remount] at hj
    rw [Records.owner_remount]
    exact h.unlocked j hj

/-- A slot out of use goes to a request, by a `try_lock` or by a steal. -/
theorem Counted.grant (h : Counted rs refs) (h0 : rs.refcount i = 0)
    (howner : rs'.owner = Function.update rs.owner i (some v)) (hcount : rs'.refcount = Function.update rs.refcount i 1)
    (hl : ∀ j, (rs' j).l = false → j ≠ i ∧ (rs j).l = false) : Counted rs' (⟨t, v, i⟩ :: refs) := by
  refine ⟨fun j => ?_, fun r hr => ?_, fun j hj => ?_⟩
  · have := h.count i
    rw [hcount]
    exact count_first (by omega) fun _ => h.count j
  · rw [howner]
    rcases List.mem_cons.1 hr with rfl | hr
    · exact Function.update_self _ _ _
    · rw [Function.update_of_ne (h.not_mem h0 r hr)]
      exact h.owned r hr
  · obtain ⟨hji, hj⟩ := hl j hj
    rw [howner, Function.update_of_ne hji]
    exact h.unlocked j hj

theorem Counted.claim (h : Counted rs refs) (v : Vmi) (hl : (rs i).l = false) :
    Counted (rs.claim i v) (⟨t, v, i⟩ :: refs) := by
  refine h.grant (h.unlocked_refcount hl) (Records.owner_claim _ _ _) (Records.refcount_claim _ _ _) fun j hj => ?_
  rw [Records.l_claim] at hj
  split at hj
  · cases hj
  · exact ⟨‹_›, hj⟩

theorem Counted.reassign (h : Counted rs refs) (v : Vmi) (h0 : rs.refcount i = 0) (hl : ∀ j, (rs j).l = true) :
    Counted (rs.reassign i v) (⟨t, v, i⟩ :: refs) := by
  refine h.grant h0 (Records.owner_reassign _ _ _) (Records.refcount_reassign _ _ _) fun j hj => ?_
  rw [Records.l_reassign, hl] at hj
  cases hj

theorem Counted.stamp (h : Counted rs refs) (i : Slot) (now : Timeval) : Counted (rs.stamp i now) refs := by
  refine ⟨fun j => ?_, fun r hr => ?_, fun j hj => ?_⟩
  · rw [Records.refcount_stamp]
    exact h.count j
  · rw [Records.owner_stamp]
    exact h.owned r hr
  · rw [Records.l_stamp] at hj
    rw [Records.owner_stamp]
    exact h.unlocked j hj

theorem Counted.release [DecidableEq T] (h : Counted rs refs) (hr : ⟨t, v, i⟩ ∈ refs) :
    Counted (rs.release i) (refs.erase ⟨t, v, i⟩) := by
  refine ⟨fun j => ?_, fun r hmem => ?_, fun j hj => ?_⟩
  · rw [Records.refcount_release]
    exact count_released hr (h.count j)
  · rw [Records.owner_release]
    exact h.owned r (List.mem_of_mem_erase hmem)
  · rw [Records.l_release] at hj
    rw [Records.owner_release]
    exact h.unlocked j hj

/-! ## The threads -/

section

variable {lk lk' : Option T} {p : Pc}

theorem Steady.mono (h : Steady rs lk t p) (hl : ∀ i, (rs i).l = true → (rs' i).l = true)
    (hlk : p.inSteal = true → lk' = lk) : Steady rs' lk' t p where
  tried i hi := hl i (h.tried i hi)
  holder hp := (hlk hp).trans (h.holder hp)
  unlucky := h.unlucky

theorem Steady.fresh (h0 : p.tried = 0) (hp : p.inSteal = false) : Steady rs lk t p where
  tried i hi := by
    rw [h0] at hi
    exact absurd hi (Nat.not_lt_zero _)
  holder h := by
    rw [hp] at h
    cases h
  unlucky v m h := by
    rw [h] at h0
    cases h0

theorem Steady.afterTaken (h : Steady rs lk t (.claiming v i)) (hl : (rs i).l = true) :
    Steady rs lk t (.afterTaken v i) := by
  have hle : ∀ j : Slot, j.val ≤ i.val → (rs j).l = true := by
    intro j hj
    rcases Nat.lt_or_eq_of_le hj with hlt | heq
    · exact h.tried j hlt
    · rw [Fin.ext heq]
      exact hl
  unfold Pc.afterTaken
  split
  · exact ⟨fun j hj => hle j (Nat.le_of_lt_succ hj), nofun, nofun⟩
  · rename_i hlast
    refine ⟨fun j _ => hle j ?_, nofun, fun w m hp => ?_⟩
    · have := j.isLt
      omega
    · cases hp
      decide

/-- A thread in the steal section has found every slot locked. -/
theorem Steady.all_locked (h : Steady rs lk t p) (hp : p.inSteal = true) (j : Slot) : (rs j).l = true := by
  apply h.tried j
  rw [Pc.tried_of_inSteal hp]
  exact j.isLt

theorem InOrder.steady (h : InOrder rs lk t p) : Steady rs lk t p := ⟨h.tried, h.holder, h.unlucky⟩

theorem Steady.inOrder (h : Steady rs lk t p) (hv : ∀ i, p.victim = some i → rs.refcount i = 0) :
    InOrder rs lk t p :=
  ⟨h.tried, h.holder, h.unlucky, hv⟩

theorem InOrder.mono (h : InOrder rs lk t p) (hl : ∀ i, (rs i).l = true → (rs' i).l = true)
    (hlk : p.inSteal = true → lk' = lk)
    (hv : ∀ i, p.victim = some i → rs.refcount i = 0 → rs'.refcount i = 0) : InOrder rs' lk' t p :=
  (h.steady.mono hl hlk).inOrder fun i hi => hv i hi (h.victim i hi)

theorem InOrder.remount (h : InOrder rs lk t p) (now : Timeval) (hv : p.victim ≠ some i) :
    InOrder (rs.remount i now) lk t p := by
  refine h.mono (fun j hj => ?_) (fun _ => rfl) (fun j hj h0 => ?_)
  · rw [Records.l_remount]
    exact hj
  · have hji : j ≠ i := fun e => hv (e ▸ hj)
    rw [Records.refcount_remount, Function.update_of_ne hji]
    exact h0

theorem InOrder.claim (h : InOrder rs lk t p) (v : Vmi) (hl : (rs i).l = false) : InOrder (rs.claim i v) lk t p := by
  refine h.mono (fun j hj => ?_) (fun _ => rfl) (fun j hj h0 => ?_)
  · rw [Records.l_claim]
    split
    · rfl
    · exact hj
  · -- A victim's mutex is locked, so it is not the slot just taken.
    have hji : j ≠ i := fun e => by
      have := h.tried j (by rw [(Pc.of_victim hj).2]; exact j.isLt)
      rw [e, hl] at this
      cases this
    rw [Records.refcount_claim, Function.update_of_ne hji]
    exact h0

theorem InOrder.stamp (h : InOrder rs lk t p) (i : Slot) (now : Timeval) : InOrder (rs.stamp i now) lk t p := by
  refine h.mono (fun j hj => ?_) (fun _ => rfl) (fun j _ h0 => ?_)
  · rw [Records.l_stamp]
    exact hj
  · rw [Records.refcount_stamp]
    exact h0

theorem InOrder.reassign (h : InOrder rs lk t p) (i : Slot) (v : Vmi) (hv : p.victim = none) :
    InOrder (rs.reassign i v) lk t p := by
  refine h.mono (fun j hj => ?_) (fun _ => rfl) (fun j hj _ => ?_)
  · rw [Records.l_reassign]
    exact hj
  · rw [hv] at hj
    cases hj

theorem InOrder.release (h : InOrder rs lk t p) (hi : rs.refcount i ≠ 0) : InOrder (rs.release i) lk t p := by
  refine h.mono (fun j hj => ?_) (fun _ => rfl) (fun j _ h0 => ?_)
  · rw [Records.l_release]
    exact hj
  · have hji : j ≠ i := fun e => hi (e ▸ h0)
    rw [Records.refcount_release, Function.update_of_ne hji]
    exact h0

/-- A thread outside the steal section does not look at who holds `lk`. -/
theorem InOrder.outside (h : InOrder rs lk t p) (hp : p.inSteal = false) : InOrder rs lk' t p :=
  h.mono (fun _ hj => hj) (fun hs => by rw [hp] at hs; cases hs) (fun _ _ h0 => h0)

end

/-- A thread that has tried no slot yet. -/
theorem InOrder.fresh {lk : Option T} {p : Pc} (h0 : p.tried = 0) (hp : p.inSteal = false) : InOrder rs lk t p := by
  refine (Steady.fresh h0 hp).inOrder fun i hi => ?_
  rw [(Pc.of_victim hi).1] at hp
  cases hp

theorem InOrder.afterTaken {lk : Option T} (h : InOrder rs lk t (.claiming v i)) (hl : (rs i).l = true) :
    InOrder rs lk t (.afterTaken v i) := by
  refine (h.steady.afterTaken hl).inOrder fun j hj => ?_
  unfold Pc.afterTaken at hj
  split at hj <;> cases hj

end

/-! ## One step -/

section

variable {s s' : SmState T} {l : SmLabel T}

/-- A lookup that hits a slot does so while no thread has it picked. -/
def Undisturbed (_ : List (SmLabel T)) (s : SmState T) : SmLabel T → Prop
  | .step t _ => ∀ v i, s.pc t = .lookup v → s.records.lookup v = some i → ∀ t', (s.pc t').victim ≠ some i
  | .request _ _ | .release _ _ _ => True

/-- Every thread is in order after one of them moved, if that one is and the others still are. -/
theorem inOrder_goto {rs rs' : Records} {lk lk' : Option T} {pc : T → Pc} {t : T} {p : Pc}
    (h : ∀ t', InOrder rs lk t' (pc t')) (hp : InOrder rs' lk' t p)
    (hothers : ∀ t', t' ≠ t → InOrder rs lk t' (pc t') → InOrder rs' lk' t' (pc t')) :
    ∀ t', InOrder rs' lk' t' (Function.update pc t p t') := by
  intro t'
  by_cases ht : t' = t
  · rw [ht, Function.update_self]
    exact hp
  · rw [Function.update_of_ne ht]
    exact hothers t' ht (h t')

/-- **An undisturbed step keeps the slots in use.** -/
theorem Safe.step (h : Safe s) (hund : Undisturbed [] s l) (hs : smStep s l = some s') : Safe s' := by
  obtain ⟨hc, ho⟩ := h
  -- Only one thread is in the steal section, since it holds `lk`.
  have hunique : ∀ t t', (s.pc t).inSteal = true → t' ≠ t → (s.pc t').inSteal = false := by
    intro t t' ht hne
    refine Bool.eq_false_iff.2 fun ht' => hne ?_
    exact Option.some.inj (((ho t').holder ht').symm.trans ((ho t).holder ht))
  cases smStep_cases hs with
  | request t v hpc => exact ⟨hc, inOrder_goto ho (.fresh rfl rfl) (fun _ _ h => h)⟩
  | hit t now v i hpc hl hcan =>
    exact ⟨hc.hit now (Records.lookup_some hl),
      inOrder_goto ho (.fresh rfl rfl) (fun t' _ h => h.remount now (hund v i hpc hl t'))⟩
  | miss t now v hpc hl => exact ⟨hc, inOrder_goto ho (.fresh rfl rfl) (fun _ _ h => h)⟩
  | taken t now v i hpc hl =>
    refine ⟨hc, inOrder_goto ho (InOrder.afterTaken ?_ hl) (fun _ _ h => h)⟩
    rw [← hpc]
    exact ho t
  | claim t now v i hpc hl =>
    exact ⟨hc.claim v hl, inOrder_goto ho (.fresh rfl rfl) (fun t' _ h => h.claim v hl)⟩
  | mount t now v i hpc =>
    exact ⟨hc.stamp i now, inOrder_goto ho (.fresh rfl rfl) (fun _ _ h => h.stamp i now)⟩
  | unlucky t now v m hpc hlk hshort =>
    have ht := ho t
    rw [hpc] at ht
    refine ⟨hc, inOrder_goto ho ⟨ht.tried, nofun, fun w m' hp => ?_, nofun⟩ (fun _ _ h => h)⟩
    cases hp
    exact hshort
  | pick t now v m hpc hlk hlong =>
    have ht := ho t
    rw [hpc] at ht
    refine ⟨hc, inOrder_goto ho ⟨ht.tried, fun _ => rfl, nofun, fun i hv => ?_⟩ (fun t' _ h => h.outside ?_)⟩
    · cases hv
      exact Records.victimPass_long (ht.unlucky v m rfl) hlong
    · refine Bool.eq_false_iff.2 fun hp => ?_
      have := h.holder hp
      rw [hlk] at this
      cases this
  | unmount t now v i hpc =>
    have ht := ho t
    rw [hpc] at ht
    exact ⟨hc, inOrder_goto ho ⟨ht.tried, ht.holder, nofun, ht.victim⟩ (fun _ _ h => h)⟩
  | reassign t now v i hpc =>
    have ht := ho t
    rw [hpc] at ht
    have hlocked : ∀ j, (s.records j).l = true := fun j => ht.tried j j.isLt
    have hsteal : (s.pc t).inSteal = true := by rw [hpc]; rfl
    refine ⟨hc.reassign v (ht.victim i rfl) hlocked,
      inOrder_goto ho ⟨fun j _ => ?_, ht.holder, nofun, nofun⟩ (fun t' hne h => ?_)⟩
    · exact (Records.l_reassign _ _ _ _).trans (hlocked j)
    · refine h.reassign i v (Option.eq_none_iff_forall_ne_some.2 fun j hj => ?_)
      have := hunique t t' hsteal hne
      rw [(Pc.of_victim hj).1] at this
      cases this
  | remount t now v i hpc =>
    have hsteal : (s.pc t).inSteal = true := by rw [hpc]; rfl
    exact ⟨hc.stamp i now, inOrder_goto ho (.fresh rfl rfl) (fun t' hne h =>
      (h.stamp i now).outside (hunique t t' hsteal hne))⟩
  | release t v i hpc hmem hcan =>
    -- A slot a request still holds is in use.
    exact ⟨hc.release hmem, fun t' => (ho t').release fun h0 => hc.not_mem h0 _ hmem rfl⟩

/-- **No step takes away a slot in use.** -/
theorem Safe.owner_kept (h : Safe s) (hs : smStep s l = some s') {i : Slot} (hi : 0 < s.records.refcount i) :
    s'.records.owner i = s.records.owner i := by
  obtain ⟨hc, ho⟩ := h
  have hne : ∀ {j}, s.records.refcount j = 0 → i ≠ j := fun h0 e => by
    rw [e, h0] at hi
    exact absurd hi (Int.lt_irrefl 0)
  cases smStep_cases hs with
  | claim t now v j hpc hl =>
    show (s.records.claim j v).owner i = _
    rw [Records.owner_claim, Function.update_of_ne (hne (hc.unlocked_refcount hl))]
  | reassign t now v j hpc =>
    have h0 := (ho t).victim j (by rw [hpc]; rfl)
    show (s.records.reassign j v).owner i = _
    rw [Records.owner_reassign, Function.update_of_ne (hne h0)]
  | hit t now v j hpc hl hcan => exact congrFun (Records.owner_remount _ _ _) i
  | mount t now v j hpc => exact congrFun (Records.owner_stamp _ _ _) i
  | remount t now v j hpc => exact congrFun (Records.owner_stamp _ _ _) i
  | release t v j hpc hmem hcan => exact congrFun (Records.owner_release _ _) i
  | request t v hpc => rfl
  | miss t now v hpc hl => rfl
  | taken t now v j hpc hl => rfl
  | unlucky t now v m hpc hlk hshort => rfl
  | pick t now v m hpc hlk hlong => rfl
  | unmount t now v j hpc => rfl

/-- **A hit that disturbs is fatal**: the thread that has the slot picked gives it to its own VM next, in use. -/
theorem Safe.disturbed (h : Safe s) {t t' : T} {v v' : Vmi} {i : Slot} {now : Timeval} (hpc : s.pc t = .lookup v)
    (hl : s.records.lookup v = some i) (hpick : s.pc t' = .unmounting v' i ∨ s.pc t' = .reassigning v' i)
    (hs : smStep s (.step t now) = some s') : ∃ ls s₁ s₂, Run (stepOf smStep) s' ls s₁ ∧
      smStep s₁ (.step t' now) = some s₂ ∧ s₁.records.refcount i = 1 ∧ s₂.records.owner i = some v' := by
  have h0 : s.records.refcount i = 0 := by
    apply (h.inOrder t').victim i
    rcases hpick with hp | hp <;> rw [hp] <;> rfl
  have hne : t' ≠ t := fun e => by
    rw [e, hpc] at hpick
    rcases hpick with hp | hp <;> cases hp
  have hs' : s' = { s with records := s.records.remount i now, refs := ⟨t, v, i⟩ :: s.refs }.goto t .idle := by
    cases smStep_cases hs <;> simp_all
  have hpc' : s'.pc t' = s.pc t' := by
    rw [hs']
    exact Function.update_of_ne hne _ _
  have hcount : s'.records.refcount i = 1 := by
    rw [hs']
    refine (congrFun (Records.refcount_remount _ _ _) i).trans ?_
    rw [Function.update_self, h0]
    rfl
  have htake : ∀ s₁ : SmState T, s₁.pc t' = .reassigning v' i →
      ∃ s₂, smStep s₁ (.step t' now) = some s₂ ∧ s₂.records.owner i = some v' := by
    intro s₁ hp
    refine ⟨_, congrArg (smNext s₁ t' now) hp, ?_⟩
    exact (congrFun (Records.owner_reassign _ _ _) i).trans (Function.update_self _ _ _)
  rcases hpick with hp | hp
  · have hstep : smStep s' (.step t' now) = some ({ s' with nbd := Function.update s'.nbd i none }.goto t'
        (.reassigning v' i)) := congrArg (smNext s' t' now) (hpc'.trans hp)
    obtain ⟨s₂, hs₂, ho⟩ := htake ({ s' with nbd := Function.update s'.nbd i none }.goto t' (.reassigning v' i))
      (Function.update_self _ _ _)
    exact ⟨[.step t' now], _, s₂, .snoc .nil hstep, hs₂, hcount, ho⟩
  · obtain ⟨s₂, hs₂, ho⟩ := htake s' (hpc'.trans hp)
    exact ⟨[], s', s₂, .nil, hs₂, hcount, ho⟩

end

/-! ## Runs -/

omit [DecidableEq T] in
theorem safe_init (clock : Slot → Timeval) : Safe (SmState.init clock : SmState T) :=
  ⟨⟨fun _ => rfl, nofun, fun _ _ => rfl⟩, fun _ => .fresh rfl rfl⟩

/-- Every step of the run leaves the slots in use with their owners, and after it every request not released has its
slot. -/
structure KeepsInUse (s₀ : SmState T) (ls : List (SmLabel T)) (s : SmState T) : Prop where
  steps : ∀ p l s₁ s₂, p ++ [l] <+: ls → Run (stepOf smStep) s₀ p s₁ → smStep s₁ l = some s₂ →
    ∀ i, 0 < s₁.records.refcount i → s₂.records.owner i = s₁.records.owner i
  held : ∀ r ∈ s.refs, s.records.owner r.slot = some r.vmi

theorem undisturbed_keeps_in_use (clock : Slot → Timeval) (ls : List (SmLabel T)) (s : SmState T)
    (hrun : Run (stepOf smStep) (SmState.init clock) ls s)
    (hund : EachStep (stepOf smStep) (SmState.init clock) Undisturbed ls) : KeepsInUse (SmState.init clock) ls s := by
  have hsafe : ∀ {p s}, p <+: ls → Run (stepOf smStep) (SmState.init clock) p s → Safe s := by
    intro p s hp hr
    refine Run.invariant_eachStep (I := fun _ s => Safe s) (safe_init clock) ?_ (hund.of_prefix hp) hr
    intro _ _ _ _ h hu hs
    exact h.step hu hs
  refine ⟨fun p l s₁ s₂ hp hr hs i hi => ?_, (hsafe List.prefix_rfl hrun).counted.owned⟩
  exact (hsafe ((List.prefix_append _ _).trans hp) hr).owner_kept hs hi

/-- Thread `k` mounts VM `k + 1`, for each `k` below `n`. -/
def fill (n : Nat) : List (SmLabel Nat) :=
  (List.range n).flatMap fun k => .request k (k + 1) :: List.replicate (k + 3) (.step k ⟨0, 0⟩)

/-- All slots are taken and the first is released; a thread picks it, and its owner remounts it. -/
def remountOfVictim : List (SmLabel Nat) :=
  fill 16 ++ [.release 0 1 0, .request 16 17] ++ List.replicate 19 (.step 16 ⟨20, 0⟩) ++
    [.request 0 1, .step 0 ⟨20, 0⟩]

instance [Fintype T] (p : List (SmLabel T)) (s : SmState T) : (l : SmLabel T) → Decidable (Undisturbed p s l)
  | .step t now =>
    match hpc : s.pc t with
    | .lookup v =>
      match hl : s.records.lookup v with
      | some i =>
        decidable_of_iff (∀ t', (s.pc t').victim ≠ some i) <| by
          refine ⟨fun h v' i' hv hi => ?_, fun h => h v i hpc hl⟩
          cases hpc.symm.trans hv
          cases hl.symm.trans hi
          exact h
      | none =>
        .isTrue <| by
          intro v' i' hv hi
          cases hpc.symm.trans hv
          cases hl.symm.trans hi
    | .idle | .claiming _ _ | .mounting _ _ | .seeking _ _ | .unmounting _ _ | .reassigning _ _ | .remounting _ _ =>
      .isTrue (by simp [Undisturbed, hpc])
  | .request _ _ | .release _ _ _ => .isTrue trivial

/-- All slots are taken and the first is released; while a thread steals it, the owner of the second mounts its disk
again and releases one of its two mounts. -/
def remountBesideSteal : List (SmLabel (Fin 17)) :=
  ((List.finRange 16).flatMap fun k : Fin 16 =>
    .request k.castSucc (k.val + 1) :: List.replicate (k.val + 3) (.step k.castSucc ⟨0, 0⟩)) ++
    [.release 0 1 0, .request 16 17] ++ List.replicate 18 (.step 16 ⟨20, 0⟩) ++
    [.request 1 2, .step 1 ⟨20, 0⟩, .step 16 ⟨21, 0⟩, .release 1 2 1, .step 16 ⟨21, 0⟩, .step 16 ⟨22, 0⟩]

theorem undisturbed_keeps_in_use_beside : ∃ s, s.records.owner 0 = some 17 ∧ s.records.owner 1 = some 2 ∧
    KeepsInUse (SmState.init fun _ => ⟨0, 0⟩) remountBesideSteal s := by
  have hund : EachStep (stepOf smStep) (SmState.init fun _ => ⟨0, 0⟩) Undisturbed remountBesideSteal := by
    decide +kernel
  obtain ⟨s, hs, hfound⟩ := Option.map_eq_some_iff.1 (show (exec smStep (SmState.init fun _ => ⟨0, 0⟩)
    remountBesideSteal).map (fun s => (s.records.owner 0, s.records.owner 1)) = some (some 17, some 2) by
      decide +kernel)
  obtain ⟨hfirst, hsecond⟩ := Prod.mk.inj hfound
  exact ⟨s, hfirst, hsecond, undisturbed_keeps_in_use _ _ s (run_of_exec hs) hund⟩

theorem victim_taken_in_use : ∃ s s', Run (stepOf smStep) (SmState.init fun _ => ⟨0, 0⟩) remountOfVictim s ∧
    smStep s (.step 16 ⟨20, 0⟩) = some s' ∧ 0 < s.records.refcount 0 ∧ s.records.owner 0 = some 1 ∧
      s'.records.owner 0 = some 17 := by
  obtain ⟨s, hs, hfound⟩ := Option.map_eq_some_iff.1 (show (exec smStep (SmState.init fun _ => ⟨0, 0⟩)
    remountOfVictim).map (fun s => (s.records.refcount 0, s.records.owner 0,
      (smStep s (.step 16 ⟨20, 0⟩)).map fun s' => s'.records.owner 0)) = some (1, some 1, some (some 17)) by
        decide +kernel)
  obtain ⟨hcount, hrest⟩ := Prod.mk.inj hfound
  obtain ⟨howner, hstep⟩ := Prod.mk.inj hrest
  obtain ⟨s', hs', howner'⟩ := Option.map_eq_some_iff.1 hstep
  exact ⟨s, s', run_of_exec hs, hs', by rw [hcount]; decide, howner, howner'⟩

end Hyperagents
