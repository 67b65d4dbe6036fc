import Mathlib.Logic.Basic
/-!
# Splitting and joining

What `List.splitOn` and `List.intercalate` make of a list, from its front and from its end.
-/
namespace Splits

variable {α : Type*} {x : α} {t p : List α}

/-- A piece has none of the separators, and nothing but what the whole has. -/
theorem mem_splitOn [BEq α] [LawfulBEq α] (hp : p ∈ t.splitOn x) : x ∉ p ∧ ∀ c ∈ p, c ∈ t := by
  induction t generalizing p with
  | nil =>
    rw [List.splitOn_nil, List.mem_singleton] at hp
    rw [hp]
    exact ⟨List.not_mem_nil, fun _ h => h⟩
  | cons c t ih =>
    have hlater : p ∈ t.splitOn x → x ∉ p ∧ ∀ d ∈ p, d ∈ c :: t := fun h =>
      ⟨(ih h).1, fun d hd => List.mem_cons_of_mem c ((ih h).2 d hd)⟩
    rw [List.splitOn_cons_eq_if_modifyHead] at hp
    split at hp
    · rcases List.mem_cons.1 hp with rfl | hp
      · exact ⟨List.not_mem_nil, nofun⟩
      · exact hlater hp
    · rename_i hc
      cases hs : t.splitOn x with
      | nil => exact absurd hs (List.splitOn_ne_nil x t)
      | cons q qs =>
        rw [hs, List.modifyHead_cons] at hp
        rcases List.mem_cons.1 hp with rfl | hp
        · obtain ⟨hx, hq⟩ := @ih q (by rw [hs]; exact List.mem_cons_self)
          refine ⟨fun h => ?_, fun d hd => ?_⟩
          · rcases List.mem_cons.1 h with rfl | h
            · exact hc (beq_self_eq_true _)
            · exact hx h
          · rcases List.mem_cons.1 hd with rfl | hd
            · exact List.mem_cons_self
            · exact List.mem_cons_of_mem c (hq d hd)
        · exact hlater (by rw [hs]; exact List.mem_cons_of_mem q hp)

theorem intercalate_cons (x : α) (first : List α) (rest : List (List α)) :
    [x].intercalate (first :: rest) = first ++ rest.flatMap (x :: ·) := by
  induction rest generalizing first with
  | nil => rw [List.intercalate_singleton, List.flatMap_nil, List.append_nil]
  | cons second rest ih =>
    rw [List.intercalate_cons_cons, ih, List.flatMap_cons]
    simp

theorem intercalate_concat (x : α) (front : List (List α)) (last : List α) :
    [x].intercalate (front ++ [last]) = front.flatMap (· ++ [x]) ++ last := by
  induction front with
  | nil => exact List.intercalate_singleton
  | cons first front ih =>
    cases front with
    | nil =>
      rw [List.cons_append, List.nil_append, List.intercalate_cons_cons, List.intercalate_singleton]
      simp
    | cons second front =>
      rw [List.cons_append, List.cons_append, List.intercalate_cons_cons, ← List.cons_append, ih, List.flatMap_cons]
      simp

end Splits
