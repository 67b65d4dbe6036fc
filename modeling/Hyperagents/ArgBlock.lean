import Hyperagents.EnvBlock
import Hyperagents.Splits
import Mathlib.Data.List.DropRight
/-!
# The argument block

The arguments of a process are strings, each ended by a NUL, like its environment; `get_args_and_envs` shows them as
one string, with a blank for each NUL and without the white space at its two ends.  Split at its blanks the string gives
the arguments back exactly where none has a blank and the first and the last one survive the stripping
(`arg_block_splits_iff`): a process chooses what its arguments look like.
-/
namespace Hyperagents

open Splits

def blank : UInt8 := ' '.toUInt8

/-- What is left of the arguments in the block tells where each of them ends. -/
structure SplitsBack (argv : List PyStr) : Prop where
  blanks : ∀ a ∈ argv, blank ∉ a
  ends : argv = [[]] ∨ (∃ x a rest, argv = (x :: a) :: rest ∧ isSpace x = false) ∧
    ∃ x a front, argv = front ++ [a ++ [x]] ∧ isSpace x = false

variable {argv front rest : List PyStr} {a s : PyStr} {x : UInt8}

/-! ## Stripping -/

theorem strip_eq (s : PyStr) : strip s = (s.dropWhile isSpace).rdropWhile isSpace := rfl

theorem strip_concat (hx : isSpace x = true) (s : PyStr) : strip (s ++ [x]) = strip s := by
  rw [strip_eq, strip_eq, List.dropWhile_append]
  split
  · next hempty =>
    rw [List.isEmpty_iff.1 hempty, List.dropWhile_cons_of_pos hx]
    rfl
  · exact List.rdropWhile_concat_pos isSpace _ x hx

/-- **Stripping leaves a string as it is** where there is no white space at its ends. -/
theorem strip_eq_self_iff : strip s = s ↔
    (∀ x a, s = x :: a → isSpace x = false) ∧ ∀ x a, s = a ++ [x] → isSpace x = false := by
  rw [strip_eq]
  constructor
  · intro h
    have hlen : s.length ≤ (s.dropWhile isSpace).length := by
      conv => lhs; rw [← h]
      exact (List.rdropWhile_prefix isSpace _).length_le
    have hfront : s.dropWhile isSpace = s :=
      (List.dropWhile_suffix isSpace).eq_of_length (Nat.le_antisymm (List.dropWhile_suffix isSpace).length_le hlen)
    rw [hfront] at h
    constructor
    · rintro x a rfl
      cases hx : isSpace x with
      | false => rfl
      | true =>
        rw [List.dropWhile_cons_of_pos hx] at hfront
        have hshort := (List.dropWhile_suffix isSpace (l := a)).length_le
        rw [hfront, List.length_cons] at hshort
        exact absurd hshort (Nat.not_succ_le_self _)
    · rintro x a rfl
      have hlast := List.rdropWhile_eq_self_iff.1 h (by simp)
      rw [List.getLast_concat] at hlast
      exact Bool.eq_false_iff.2 hlast
  · rintro ⟨hfirst, hlast⟩
    have hfront : s.dropWhile isSpace = s := by
      cases s with
      | nil => rfl
      | cons x a => exact List.dropWhile_cons_of_neg (Bool.eq_false_iff.1 (hfirst x a rfl))
    rw [hfront, List.rdropWhile_eq_self_iff]
    intro hne
    rw [Bool.not_eq_true]
    exact hlast _ s.dropLast (List.dropLast_append_getLast hne).symm

/-! ## The arguments joined -/

/-- **White space at the ends of the block** is white space at those of the first and the last argument. -/
theorem ends_iff_strip (hblank : ∀ a ∈ argv, blank ∉ a) (hne : argv ≠ []) :
    (argv = [[]] ∨ (∃ x a rest, argv = (x :: a) :: rest ∧ isSpace x = false) ∧
      ∃ x a front, argv = front ++ [a ++ [x]] ∧ isSpace x = false) ↔
      strip ([blank].intercalate argv) = [blank].intercalate argv := by
  have hspace : isSpace blank = true := by decide
  rw [strip_eq_self_iff]
  constructor
  · rintro (rfl | ⟨⟨x, a, rest, hfirst, hx⟩, y, b, front, hlast, hy⟩)
    · exact ⟨fun x a h => by simp at h, fun x a h => by simp at h⟩
    · constructor
      · intro z c h
        rw [hfirst, intercalate_cons, List.cons_append] at h
        rw [← (List.cons.inj h).1]
        exact hx
      · intro z c h
        rw [hlast, intercalate_concat, ← List.append_assoc] at h
        rw [← List.singleton_inj.1 (List.append_inj' h rfl).2]
        exact hy
  · rintro ⟨hfirst, hlast⟩
    by_cases hone : argv = [[]]
    · exact .inl hone
    refine .inr ⟨?_, ?_⟩
    · obtain ⟨first, rest, rfl⟩ := List.exists_cons_of_ne_nil hne
      cases first with
      | cons x a => exact ⟨x, a, rest, rfl, hfirst x _ (intercalate_cons _ _ _)⟩
      | nil =>
        cases rest with
        | nil => exact absurd rfl hone
        | cons second rest => cases hspace.symm.trans (hfirst blank _ (intercalate_cons _ _ _))
    · obtain ⟨front, last, rfl⟩ := (List.eq_nil_or_concat' argv).resolve_left hne
      rcases List.eq_nil_or_concat' last with rfl | ⟨a, x, rfl⟩
      · rcases List.eq_nil_or_concat' front with rfl | ⟨front, a, rfl⟩
        · exact absurd rfl hone
        · refine absurd (hlast blank (front.flatMap (· ++ [blank]) ++ a) ?_) (by rw [hspace]; decide)
          rw [intercalate_concat, List.flatMap_append, List.append_nil]
          simp
      · refine ⟨x, a, front, rfl, hlast x (front.flatMap (· ++ [blank]) ++ a) ?_⟩
        rw [intercalate_concat, List.append_assoc]

/-- **The stripped block splits into the arguments** exactly if they tell where each of them ends. -/
theorem strip_splits_iff (argv : List PyStr) :
    (strip (argv.flatMap (· ++ [blank]))).splitOn blank = argv ↔ SplitsBack argv := by
  rcases List.eq_nil_or_concat' argv with rfl | ⟨front, last, hargv⟩
  · refine iff_of_false (by decide) fun h => ?_
    rcases h.ends with h | ⟨⟨x, a, rest, h, -⟩, -⟩
    · cases h
    · cases h
  have hne : argv ≠ [] := by simp [hargv]
  have hjoin : argv.flatMap (· ++ [blank]) = [blank].intercalate argv ++ [blank] := by
    rw [hargv, intercalate_concat, List.flatMap_append, List.flatMap_singleton, List.append_assoc]
  rw [hjoin, strip_concat (by decide)]
  constructor
  · intro h
    have hblank : ∀ a ∈ argv, blank ∉ a := by
      rw [← h]
      exact fun a ha => (mem_splitOn ha).1
    have hstrip : [blank].intercalate argv = strip ([blank].intercalate argv) := by
      conv => lhs; rw [← h]
      exact List.intercalate_splitOn blank
    exact ⟨hblank, (ends_iff_strip hblank hne).2 hstrip.symm⟩
  · rintro ⟨hblank, hends⟩
    rw [(ends_iff_strip hblank hne).1 hends]
    exact List.splitOn_intercalate blank hblank hne

/-! ## The function -/

theorem envItem_argBlock (full : Bool) (p : ArgsEnvs) (s : PyStr) : (envItem full p s).argBlock = p.argBlock := by
  unfold envItem
  cases splitKey s with
  | none => rfl
  | some kv => simp only [apply_ite ArgsEnvs.argBlock, ite_self]

theorem foldl_argBlock (full : Bool) : ∀ (items : List PyStr) (p : ArgsEnvs),
    (items.foldl (envItem full) p).argBlock = p.argBlock
  | [], _ => rfl
  | s :: items, p => (foldl_argBlock full items (envItem full p s)).trans (envItem_argBlock full p s)

/-- The arguments with a blank for each NUL. -/
theorem map_envEncode (hargv : ∀ a ∈ argv, 0 ∉ a) :
    (envEncode argv).map (fun b => if b = 0 then blank else b) = argv.flatMap (· ++ [blank]) := by
  unfold envEncode
  rw [List.map_flatMap]
  refine List.flatMap_congr fun a ha => ?_
  have hkept : a.map (fun b => if b = 0 then blank else b) = a := by
    refine (List.map_congr_left fun b hb => ?_).trans (List.map_id a)
    have hne : b ≠ 0 := fun h0 => hargv a ha (h0 ▸ hb)
    exact if_neg hne
  rw [List.map_append, hkept]
  rfl

/-- **The arguments shown split into the arguments** exactly if they tell where each of them ends, for every process
whose blocks are captured. -/
theorem arg_block_splits_iff (vmi : Pyvmi) (cfg : Cfg) (tsAddr : Int) (full : Bool) (m : MmFields) (argv : List PyStr)
    (env : PyStr) (hmm : readMm vmi cfg tsAddr = .ok m)
    (hc : capture vmi m = .ok (some (envEncode argv), some env)) (hargv : ∀ a ∈ argv, 0 ∉ a) :
    ∃ p, getArgsAndEnvs vmi cfg tsAddr full = .ok p ∧ (p.argBlock.splitOn blank = argv ↔ SplitsBack argv) := by
  refine ⟨_, (getArgsAndEnvs_captured full hmm hc).trans rfl, ?_⟩
  rw [foldl_argBlock]
  show (strip ((envEncode argv).map fun b => if b = 0 then blank else b)).splitOn blank = argv ↔ _
  rw [map_envEncode hargv]
  exact strip_splits_iff argv

/-- A process with one page: its arguments, and its environment behind them. -/
def lsArgv : List PyStr := [py "ls", py "-l", py "my files"]

def lsGuest : Pyvmi :=
  processGuest [(8, 4096), (4128, 15), (4136, 15), (4144, 58)]
    ⟨fun p => (envEncode (lsArgv ++ shellEnv)).getD p.toNat 0, fun v => if v = 0 then some 0 else none⟩

theorem arg_block_splits_iff_ls : ∃ p, getArgsAndEnvs lsGuest mmCfg 0 true = .ok p ∧
    (p.argBlock.splitOn blank = lsArgv ↔ SplitsBack lsArgv) :=
  arg_block_splits_iff lsGuest mmCfg 0 true ⟨0, 0, 0, 0, 0, 15, 15, 58⟩ lsArgv (envEncode shellEnv) (by decide)
    (by decide) (by decide)

end Hyperagents
