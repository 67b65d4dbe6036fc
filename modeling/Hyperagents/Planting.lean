import Mathlib.Logic.Function.Basic
import Mathlib.Data.List.Basic
/-!
# Planting a byte at many addresses, and taking it out again

A memory is a partial map: an address it does not map cannot be read, and a write to it has no effect (`poke`), so no
write changes which addresses are mapped.  `plant` walks a list of keys: it saves what stands at each key's address,
then writes `v` there.  `restore` walks a list of keys and writes back what was saved.

The addresses of two keys may coincide.  Then the later key saves the `v` of the earlier one (`plant_saved`), and the
key restored last decides what stays (`restore_at`).  With distinct addresses, whatever happened to the planted
addresses in between, restoring brings the first memory back (`restore_plant`).
-/
namespace Planting

variable {A B K : Type*} [DecidableEq A]

abbrev Mem (A B : Type*) := A → Option B

/-- A write: it takes effect only where the memory is mapped. -/
def poke (m : Mem A B) (a : A) (b : B) : Mem A B := fun x => if x = a then (m x).map (fun _ => b) else m x

@[simp] theorem poke_self (m : Mem A B) (a : A) (b : B) : poke m a b a = (m a).map (fun _ => b) := by
  simp [poke]

theorem poke_of_ne (m : Mem A B) {a x : A} (b : B) (h : x ≠ a) : poke m a b x = m x := by
  simp [poke, h]

@[simp] theorem poke_isSome (m : Mem A B) (a x : A) (b : B) : (poke m a b x).isSome = (m x).isSome := by
  by_cases h : x = a
  · subst h; simp
  · rw [poke_of_ne m b h]

/-- Writes, oldest first. -/
def pokes (m : Mem A B) (ws : List (A × B)) : Mem A B := ws.foldl (fun m w => poke m w.1 w.2) m

@[simp] theorem pokes_nil (m : Mem A B) : pokes m [] = m := rfl

theorem pokes_append (m : Mem A B) (ws vs : List (A × B)) : pokes m (ws ++ vs) = pokes (pokes m ws) vs :=
  List.foldl_append

theorem pokes_isSome (a : A) : ∀ (ws : List (A × B)) (m : Mem A B), (pokes m ws a).isSome = (m a).isSome
  | [], _ => rfl
  | w :: ws, m => (pokes_isSome a ws _).trans (poke_isSome m w.1 a w.2)

theorem pokes_of_not_mem (a : A) : ∀ (ws : List (A × B)) (m : Mem A B), (∀ w ∈ ws, w.1 ≠ a) → pokes m ws a = m a
  | [], _, _ => rfl
  | w :: ws, m, h => by
    have hw : a ≠ w.1 := fun e => h w List.mem_cons_self e.symm
    exact (pokes_of_not_mem a ws _ (fun v hv => h v (List.mem_cons_of_mem _ hv))).trans (poke_of_ne m _ hw)

/-- Two memories that agree at an address agree there after the same writes. -/
theorem pokes_congr (a : A) : ∀ (ws : List (A × B)) (m n : Mem A B), m a = n a → pokes m ws a = pokes n ws a
  | [], _, _, h => h
  | w :: ws, m, n, h => by
    apply pokes_congr a ws _ _
    by_cases hw : a = w.1
    · simp [poke, hw, hw ▸ h]
    · simpa [poke, hw] using h

/-- After a write at an address and none there since, only whether it was mapped matters of what was there before. -/
theorem pokes_last (m : Mem A B) (pre post : List (A × B)) (w : A × B) (hpost : ∀ v ∈ post, v.1 ≠ w.1) :
    pokes m (pre ++ w :: post) w.1 = (m w.1).map (fun _ => w.2) := by
  have hsome := pokes_isSome w.1 pre m
  rw [pokes_append]
  refine (pokes_of_not_mem w.1 post _ hpost).trans ((poke_self _ _ _).trans ?_)
  cases h : pokes m pre w.1 <;> cases hm : m w.1 <;> simp_all

/-! ## Restoring -/

/-- The saved bytes written back, in the list's order. -/
def restore (addr : K → A) (saved : K → B) (ks : List K) (m : Mem A B) : Mem A B :=
  ks.foldl (fun m k => poke m (addr k) (saved k)) m

theorem restore_eq_pokes (addr : K → A) (saved : K → B) (ks : List K) (m : Mem A B) :
    restore addr saved ks m = pokes m (ks.map (fun k => (addr k, saved k))) := by
  rw [restore, pokes, List.foldl_map]

/-- What stays at an address depends on the memory restored only through what it has there. -/
theorem restore_congr (addr : K → A) (saved : K → B) (a : A) : ∀ (ks : List K) (m n : Mem A B), m a = n a →
    restore addr saved ks m a = restore addr saved ks n a
  | [], _, _, h => h
  | k :: ks, m, n, h => restore_congr addr saved a ks _ _ (pokes_congr a [(addr k, saved k)] m n h)

/-- **The key restored last at an address decides what stays there.** -/
theorem restore_at (addr : K → A) (saved : K → B) (pre post : List K) (k : K) (m : Mem A B)
    (hpost : ∀ j ∈ post, addr j ≠ addr k) :
    restore addr saved (pre ++ k :: post) m (addr k) = (m (addr k)).map (fun _ => saved k) := by
  rw [restore_eq_pokes, List.map_append]
  apply pokes_last m _ _ (addr k, saved k)
  intro v hv
  obtain ⟨j, hj, rfl⟩ := List.mem_map.1 hv
  exact hpost j hj

/-- Among the keys at one address there is a last. -/
theorem exists_last_at (addr : K → A) (a : A) : ∀ (ks : List K), (∃ k ∈ ks, addr k = a) →
    ∃ pre j post, ks = pre ++ j :: post ∧ addr j = a ∧ ∀ i ∈ post, addr i ≠ a
  | [], h => by
    obtain ⟨k, hk, -⟩ := h
    cases hk
  | k :: ks, h => by
    by_cases hks : ∃ i ∈ ks, addr i = a
    · obtain ⟨pre, j, post, rfl, hj, hpost⟩ := exists_last_at addr a ks hks
      exact ⟨k :: pre, j, post, rfl, hj, hpost⟩
    · obtain ⟨i, hi, hia⟩ := h
      rcases List.mem_cons.1 hi with rfl | hi
      · exact ⟨[], i, ks, rfl, hia, fun j hj e => hks ⟨j, hj, e⟩⟩
      · exact absurd ⟨i, hi, hia⟩ hks

/-! ## The writes of two parties -/

/-- The same of any list with a write there. -/
theorem pokes_of_mem {a : A} {ws : List (A × B)} {m n : Mem A B} (hws : ∃ w ∈ ws, w.1 = a)
    (h : (m a).isSome = (n a).isSome) : pokes m ws a = pokes n ws a := by
  obtain ⟨pre, w, post, rfl, rfl, hpost⟩ := exists_last_at Prod.fst a ws hws
  rw [pokes_last m pre post w hpost, pokes_last n pre post w hpost]
  cases hm : m w.1 <;> cases hn : n w.1 <;> simp_all

/-- A write of the memory's owner, or of another. -/
structure Write (A B : Type*) where
  own : Bool
  addr : A
  val : B

def written (ws : List (Write A B)) : List (A × B) := ws.map (fun w => (w.addr, w.val))

/-- The owner's writes among them. -/
def owned (ws : List (Write A B)) : List (A × B) := written (ws.filter (·.own))

/-- Every mapped byte whose last write is not the owner's is what the owner's writes before it had made of it. -/
def NoTrace (m : Mem A B) (ws : List (Write A B)) : Prop :=
  ∀ us w vs, ws = us ++ w :: vs → w.own = false → (∀ v ∈ vs, v.addr ≠ w.addr) →
    m w.addr = none ∨ pokes m (owned us) w.addr = some w.val

omit [DecidableEq A] in
theorem written_append (us vs : List (Write A B)) : written (us ++ vs) = written us ++ written vs := List.map_append

omit [DecidableEq A] in
theorem owned_append (us vs : List (Write A B)) : owned (us ++ vs) = owned us ++ owned vs := by
  rw [owned, List.filter_append, written_append]
  rfl

omit [DecidableEq A] in
theorem written_ne {ws : List (Write A B)} {a : A} (h : ∀ w ∈ ws, w.addr ≠ a) : ∀ x ∈ written ws, x.1 ≠ a := by
  intro x hx
  obtain ⟨w, hw, rfl⟩ := List.mem_map.1 hx
  exact h w hw

omit [DecidableEq A] in
theorem owned_ne {ws : List (Write A B)} {a : A} (h : ∀ w ∈ ws, w.addr ≠ a) : ∀ x ∈ owned ws, x.1 ≠ a :=
  written_ne (fun w hw => h w (List.mem_of_mem_filter hw))

/-- At an address only the writes there count. -/
theorem pokes_written_filter (p : Write A B → Bool) (a : A) : ∀ (ws : List (Write A B)) (m : Mem A B),
    (∀ w ∈ ws, p w = false → w.addr ≠ a) → pokes m (written ws) a = pokes m (written (ws.filter p)) a
  | [], _, _ => rfl
  | w :: ws, m, h => by
    have ih := fun m => pokes_written_filter p a ws m (fun v hv => h v (List.mem_cons_of_mem _ hv))
    cases hp : p w with
    | true =>
      rw [List.filter_cons_of_pos hp]
      exact ih _
    | false =>
      rw [List.filter_cons_of_neg (by simp [hp])]
      refine (ih _).trans (pokes_congr a _ _ _ (poke_of_ne m _ fun e => ?_))
      exact h w List.mem_cons_self hp e.symm

/-- **The other's writes are gone from a memory exactly when they left no trace.** -/
theorem pokes_written_iff (m : Mem A B) (ws : List (Write A B)) :
    pokes m (written ws) = pokes m (owned ws) ↔ NoTrace m ws := by
  have hlast : ∀ us w vs, (∀ v ∈ vs, v.addr ≠ w.addr) → (pokes m (written (us ++ w :: vs)) w.addr =
      pokes m (owned (us ++ w :: vs)) w.addr ↔
        (w.own = false → m w.addr = none ∨ pokes m (owned us) w.addr = some w.val)) := by
    intro us w vs hvs
    have hw : pokes m (written (us ++ w :: vs)) w.addr = (m w.addr).map (fun _ => w.val) := by
      rw [written_append]
      exact pokes_last m _ _ (w.addr, w.val) (written_ne hvs)
    have ho : pokes m (owned (us ++ w :: vs)) w.addr =
        if w.own then (m w.addr).map (fun _ => w.val) else pokes m (owned us) w.addr := by
      rw [owned_append]
      cases how : w.own with
      | true =>
        rw [show owned (w :: vs) = (w.addr, w.val) :: owned vs by simp [owned, written, how], if_pos rfl]
        exact pokes_last m _ _ (w.addr, w.val) (owned_ne hvs)
      | false =>
        rw [show owned (w :: vs) = owned vs by simp [owned, how], pokes_append, if_neg (by simp)]
        exact pokes_of_not_mem _ _ _ (owned_ne hvs)
    have hsome := pokes_isSome w.addr (owned us) m
    rw [hw, ho]
    cases how : w.own with
    | true => simp
    | false =>
      cases hm : m w.addr with
      | none =>
        rw [hm, Option.isSome_none, Option.isSome_eq_false_iff, Option.isNone_iff_eq_none] at hsome
        simp [hsome]
      | some x => simp [eq_comm]
  constructor
  · intro h us w vs hws how hvs
    subst hws
    exact (hlast us w vs hvs).1 (congrFun h w.addr) how
  · intro h
    funext a
    by_cases ha : ∃ w ∈ ws, w.addr = a
    · obtain ⟨us, w, vs, rfl, rfl, hvs⟩ := exists_last_at Write.addr a ws ha
      exact (hlast us w vs hvs).2 (fun how => h us w vs rfl how hvs)
    · have hne : ∀ w ∈ ws, w.addr ≠ a := fun w hw e => ha ⟨w, hw, e⟩
      rw [pokes_of_not_mem a _ m (written_ne hne), pokes_of_not_mem a _ m (owned_ne hne)]

/-! ## Planting -/

section

variable [DecidableEq K]

def plantStep (addr : K → A) (v : B) (s : Mem A B × (K → B)) (k : K) : Mem A B × (K → B) :=
  (poke s.1 (addr k) v, Function.update s.2 k ((s.1 (addr k)).getD (s.2 k)))

/-- The memory and the saved bytes after planting `v` at the keys' addresses, in the list's order. -/
def plant (addr : K → A) (v : B) (ks : List K) (s : Mem A B × (K → B)) : Mem A B × (K → B) :=
  ks.foldl (plantStep addr v) s

/-- The memory after planting does not depend on what had been saved. -/
theorem plant_fst (addr : K → A) (v : B) : ∀ (ks : List K) (s : Mem A B × (K → B)),
    (plant addr v ks s).1 = pokes s.1 (ks.map (fun k => (addr k, v)))
  | [], _ => rfl
  | k :: ks, s => plant_fst addr v ks (plantStep addr v s k)

/-- Only the addresses of the keys planted matter. -/
theorem plant_congr {addr addr' : K → A} (v : B) : ∀ (ks : List K) (s : Mem A B × (K → B)),
    (∀ k ∈ ks, addr k = addr' k) → plant addr v ks s = plant addr' v ks s
  | [], _, _ => rfl
  | k :: ks, s, h => by
    have hk : plantStep addr v s k = plantStep addr' v s k := by simp [plantStep, h k List.mem_cons_self]
    show plant addr v ks (plantStep addr v s k) = plant addr' v ks (plantStep addr' v s k)
    rw [hk]
    exact plant_congr v ks _ (fun j hj => h j (List.mem_cons_of_mem _ hj))

theorem plant_isSome (addr : K → A) (v : B) (a : A) : ∀ (ks : List K) (s : Mem A B × (K → B)),
    ((plant addr v ks s).1 a).isSome = (s.1 a).isSome
  | [], _ => rfl
  | k :: ks, s => (plant_isSome addr v a ks _).trans (poke_isSome s.1 (addr k) a v)

theorem plant_of_ne (addr : K → A) (v : B) (a : A) : ∀ (ks : List K) (s : Mem A B × (K → B)),
    (∀ k ∈ ks, addr k ≠ a) → (plant addr v ks s).1 a = s.1 a
  | [], _, _ => rfl
  | k :: ks, s, h => by
    have hk : a ≠ addr k := fun e => h k List.mem_cons_self e.symm
    exact (plant_of_ne addr v a ks _ (fun j hj => h j (List.mem_cons_of_mem _ hj))).trans (poke_of_ne s.1 v hk)

/-- **Every planted address holds `v`.** -/
theorem plant_at (addr : K → A) (v : B) (k : K) : ∀ (ks : List K) (s : Mem A B × (K → B)), k ∈ ks →
    (plant addr v ks s).1 (addr k) = (s.1 (addr k)).map (fun _ => v)
  | j :: ks, s, h => by
    by_cases hks : ∃ i ∈ ks, addr i = addr k
    · obtain ⟨i, hi, hik⟩ := hks
      have ih := plant_at addr v i ks (plantStep addr v s j) hi
      rw [hik] at ih
      refine ih.trans ?_
      by_cases hkj : addr k = addr j
      · simp [plantStep, poke, hkj, Function.comp_def]
      · simp [plantStep, poke, hkj]
    · have hne : ∀ i ∈ ks, addr i ≠ addr k := fun i hi e => hks ⟨i, hi, e⟩
      have hjk : k = j := (List.mem_cons.1 h).resolve_right (fun hk => hne k hk rfl)
      subst hjk
      exact (plant_of_ne addr v (addr k) ks _ hne).trans (poke_self s.1 (addr k) v)

theorem plant_saved_of_not_mem (addr : K → A) (v : B) (k : K) : ∀ (ks : List K) (s : Mem A B × (K → B)), k ∉ ks →
    (plant addr v ks s).2 k = s.2 k
  | [], _, _ => rfl
  | j :: ks, s, h => by
    have hkj : k ≠ j := fun e => h (e ▸ List.mem_cons_self)
    have hks : k ∉ ks := fun hk => h (List.mem_cons_of_mem _ hk)
    refine (plant_saved_of_not_mem addr v k ks _ hks).trans ?_
    simp [plantStep, Function.update_of_ne hkj]

/-- **What a key saves**: the byte that stood at its address when its turn came. -/
theorem plant_saved (addr : K → A) (v : B) (pre post : List K) (k : K) (s : Mem A B × (K → B)) (hpost : k ∉ post)
    (hpre : k ∉ pre) :
    (plant addr v (pre ++ k :: post) s).2 k = ((plant addr v pre s).1 (addr k)).getD (s.2 k) := by
  have h1 : plant addr v (pre ++ k :: post) s = plant addr v post (plantStep addr v (plant addr v pre s) k) := by
    simp [plant, List.foldl_append]
  rw [h1, plant_saved_of_not_mem addr v k post _ hpost]
  simp [plantStep, plant_saved_of_not_mem addr v k pre s hpre]

/-- The byte a key saves is `v` where one planted before it has its address. -/
theorem plant_saved_eq (addr : K → A) (v : B) {ks : List K} (hks : ks.Nodup) {k : K} (hk : k ∈ ks) (m : Mem A B)
    (old : K → B) : (plant addr v ks (m, old)).2 k =
      (if ∃ j ∈ ks.takeWhile (· ≠ k), addr j = addr k then (m (addr k)).map (fun _ => v) else m (addr k)).getD
        (old k) := by
  obtain ⟨pre, post, rfl⟩ := List.append_of_mem hk
  have hn := List.nodup_append.1 hks
  have hpre : k ∉ pre := fun h => hn.2.2 k h k List.mem_cons_self rfl
  have htake : (pre ++ k :: post).takeWhile (· ≠ k) = pre := by
    have hne : ∀ j ∈ pre, decide (j ≠ k) = true := by
      intro j hj
      exact decide_eq_true (ne_of_mem_of_not_mem hj hpre)
    rw [List.takeWhile_append_of_pos hne,
      List.takeWhile_cons_of_neg (by simp), List.append_nil]
  rw [plant_saved addr v pre post k _ (List.nodup_cons.1 hn.2.1).1 hpre, htake]
  split
  · rename_i hj
    obtain ⟨j, hj, hjk⟩ := hj
    have hat := plant_at addr v j pre (m, old) hj
    rw [hjk] at hat
    rw [hat]
  · rename_i hj
    rw [plant_of_ne addr v (addr k) pre (m, old) (fun j hjp e => hj ⟨j, hjp, e⟩)]

/-- Nor does what a key saves, where its address is mapped. -/
theorem plant_saved_congr (addr : K → A) (v : B) {ks : List K} (hks : ks.Nodup) {k : K} (hk : k ∈ ks) (m : Mem A B)
    (old old' : K → B) (hm : (m (addr k)).isSome = true) :
    (plant addr v ks (m, old)).2 k = (plant addr v ks (m, old')).2 k := by
  obtain ⟨pre, post, rfl⟩ := List.append_of_mem hk
  have hn := List.nodup_append.1 hks
  have hpost : k ∉ post := (List.nodup_cons.1 hn.2.1).1
  have hpre : k ∉ pre := fun h => hn.2.2 k h k List.mem_cons_self rfl
  rw [plant_saved addr v pre post k _ hpost hpre, plant_saved addr v pre post k _ hpost hpre, plant_fst, plant_fst]
  have hsome := plant_isSome addr v (addr k) pre (m, old)
  rw [plant_fst, hm] at hsome
  obtain ⟨x, hx⟩ := Option.isSome_iff_exists.1 hsome
  rw [hx]
  rfl

/-- A byte read and written back into a memory with the same mapped addresses is the byte read. -/
theorem map_getD_eq {x y : Option B} {d : B} (h : y.isSome = x.isSome) : y.map (fun _ => x.getD d) = x := by
  cases x <;> cases y <;> simp_all

/-- At distinct addresses a key saves the byte of the memory planted. -/
theorem plant_saved_of_injective {addr : K → A} (v : B) {ks : List K} (s : Mem A B × (K → B)) (hks : ks.Nodup)
    (hinj : Function.Injective addr) {k : K} (hk : k ∈ ks) :
    (plant addr v ks s).2 k = (s.1 (addr k)).getD (s.2 k) := by
  obtain ⟨pre, post, rfl⟩ := List.append_of_mem hk
  have hn := List.nodup_append.1 hks
  have hpre : k ∉ pre := fun h => hn.2.2 k h k List.mem_cons_self rfl
  rw [plant_saved addr v pre post k _ (List.nodup_cons.1 hn.2.1).1 hpre,
    plant_of_ne addr v (addr k) pre _ (fun j hj e => hpre (hinj e ▸ hj))]

/-- **Restoring undoes planting**, at distinct addresses, whatever was written to the planted addresses in between. -/
theorem restore_plant {addr : K → A} {v : B} {ks ks' : List K} {m₀ m : Mem A B} {old : K → B} (hks : ks.Nodup)
    (hks' : ks'.Nodup) (hinj : Function.Injective addr) {k : K} (hk : k ∈ ks) (hk' : k ∈ ks')
    (hdom : (m (addr k)).isSome = (m₀ (addr k)).isSome) :
    restore addr (plant addr v ks (m₀, old)).2 ks' m (addr k) = m₀ (addr k) := by
  obtain ⟨pre, post, rfl⟩ := List.append_of_mem hk'
  have hn := (List.nodup_append.1 hks').2.1
  rw [restore_at addr _ pre post k m (fun j hj e => (List.nodup_cons.1 hn).1 (hinj e ▸ hj)),
    plant_saved_of_injective v _ hks hinj hk]
  exact map_getD_eq hdom

/-- The key planted first and restored last gets its byte back, whatever its address is shared with. -/
theorem restore_plant_first (addr : K → A) (v : B) {k₀ : K} {ks : List K} (hks : (k₀ :: ks).Nodup) {m₀ m : Mem A B}
    {old : K → B} (hdom : (m (addr k₀)).isSome = (m₀ (addr k₀)).isSome) :
    restore addr (plant addr v (k₀ :: ks) (m₀, old)).2 (ks ++ [k₀]) m (addr k₀) = m₀ (addr k₀) := by
  have hsaved := plant_saved addr v [] ks k₀ (m₀, old) (List.nodup_cons.1 hks).1 List.not_mem_nil
  rw [restore_at addr _ ks [] k₀ m nofun]
  rw [List.nil_append] at hsaved
  rw [hsaved]
  exact map_getD_eq hdom

/-- **Restoring in the order of planting**: a key other than the first gets its byte back unless another, planted
before the byte was saved, has its address. -/
theorem restore_plant_iff (addr : K → A) (v : B) {k₀ : K} {ks : List K} (hks : (k₀ :: ks).Nodup) {m₀ m : Mem A B}
    {old : K → B} {k : K} (hk : k ∈ ks) (hne : addr k ≠ addr k₀) (hdom : (m (addr k)).isSome = (m₀ (addr k)).isSome) :
    restore addr (plant addr v (k₀ :: ks) (m₀, old)).2 (ks ++ [k₀]) m (addr k) = m₀ (addr k) ↔
      ((∃ i ∈ ks, ∃ j ∈ ks, i ≠ j ∧ addr i = addr k ∧ addr j = addr k) →
        m₀ (addr k) = none ∨ m₀ (addr k) = some v) := by
  obtain ⟨pre, j, post, rfl, hj, hpost⟩ := exists_last_at addr (addr k) ks ⟨k, hk, rfl⟩
  have hn := List.nodup_append.1 (List.nodup_cons.1 hks).2
  have hjpost : j ∉ post := (List.nodup_cons.1 hn.2.1).1
  have hjpre : j ∉ pre := fun h => hn.2.2 j h j List.mem_cons_self rfl
  have hjk₀ : j ≠ k₀ := fun e => hne (by rw [← hj, e])
  -- What is left at the address is what the last key there saved.
  have hlast :
      restore addr (plant addr v (k₀ :: (pre ++ j :: post)) (m₀, old)).2 (pre ++ j :: post ++ [k₀]) m (addr k) =
        (m (addr k)).map (fun _ => (plant addr v (k₀ :: (pre ++ j :: post)) (m₀, old)).2 j) := by
    rw [← hj, List.append_assoc, List.cons_append]
    refine restore_at addr _ pre (post ++ [k₀]) j m (fun i hi => ?_)
    rcases List.mem_append.1 hi with hi | hi
    · rw [hj]
      exact hpost i hi
    · rw [List.mem_singleton.1 hi, hj]
      exact hne.symm
  have hsaved := plant_saved addr v (k₀ :: pre) post j (m₀, old) hjpost
    (fun h => (List.mem_cons.1 h).elim hjk₀ hjpre)
  rw [hlast, ← List.cons_append, hsaved, hj]
  by_cases hpre : ∃ i ∈ pre, addr i = addr k
  · obtain ⟨i, hi, hia⟩ := hpre
    have hplant := plant_at addr v i (k₀ :: pre) (m₀, old) (List.mem_cons_of_mem _ hi)
    rw [hia] at hplant
    have htwo : ∃ i ∈ pre ++ j :: post, ∃ i' ∈ pre ++ j :: post, i ≠ i' ∧ addr i = addr k ∧ addr i' = addr k :=
      ⟨i, by simp [hi], j, by simp, fun e => hjpre (e ▸ hi), hia, hj⟩
    rw [hplant, imp_iff_right htwo]
    cases hm₀ : m₀ (addr k) with
    | none =>
      rw [hm₀] at hdom
      simpa using hdom
    | some x =>
      rw [hm₀] at hdom
      obtain ⟨y, hy⟩ := Option.isSome_iff_exists.1 hdom
      simp only [hy, hm₀, Option.map_some, Option.getD_some, Option.some.injEq, reduceCtorEq, false_or]
      exact eq_comm
  · have hplant : (plant addr v (k₀ :: pre) (m₀, old)).1 (addr k) = m₀ (addr k) := by
      refine plant_of_ne addr v (addr k) (k₀ :: pre) (m₀, old) (fun i hi => ?_)
      rcases List.mem_cons.1 hi with rfl | hi
      · exact hne.symm
      · exact fun e => hpre ⟨i, hi, e⟩
    rw [hplant, map_getD_eq hdom]
    simp only [true_iff]
    rintro ⟨i, hi, j', hj', hij, hia, hja⟩
    have honly : ∀ i ∈ pre ++ j :: post, addr i = addr k → i = j := fun i hi hia => by
      rcases List.mem_append.1 hi with hi | hi
      · exact absurd ⟨i, hi, hia⟩ hpre
      · exact (List.mem_cons.1 hi).resolve_right (fun h => hpost i h hia)
    exact absurd ((honly i hi hia).trans (honly j' hj' hja).symm) hij

end

end Planting
