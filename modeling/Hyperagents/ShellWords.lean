import Hyperagents.Splits
/-!
# What a shell reads in a line

A line of plain characters, blanks and semicolons is the simple commands between its semicolons, each the words between
its blanks, unless one of them begins with a word that is the shell's own (`simpleCommands`).  That is what is taken of
a shell here: `ShLaws` says nothing of a line with any other character in it, which may be quoted, expanded or
redirected.

Words joined by single blanks are one command exactly when they are plain (`simpleCommands_join_iff`); a line after a
semicolon is read as well, whatever was before it (`simpleCommands_append`).
-/
namespace ShellWords

open Splits

abbrev Word := List Char

/-- The characters that stand for themselves wherever in a word they are. -/
def plain (c : Char) : Bool := c.isAlphanum || "/._-,:+@%=".toList.contains c

def PlainWord (w : Word) : Prop := w ≠ [] ∧ ∀ c ∈ w, plain c = true

instance (w : Word) : Decidable (PlainWord w) := @instDecidableAnd _ _ _ (List.decidableBAll _ w)

def words (t : List Char) : List Word := (t.splitOn ' ').filter (· ≠ [])

/-- The words that do not name a program where a command begins: the reserved ones, and the built-in ones that change
what comes after them. -/
def reserved : List String :=
  ["if", "then", "else", "elif", "fi", "do", "done", "case", "esac", "while", "until", "for", "in", "function",
    "select", "time", "coproc", ":", ".", "break", "continue", "eval", "exec", "exit", "export", "readonly", "return",
    "set", "shift", "times", "trap", "unset", "alias", "unalias", "command", "builtin", "cd", "declare", "enable", "fc",
    "getopts", "hash", "kill", "let", "local", "logout", "mapfile", "popd", "printf", "pushd", "read", "readarray",
    "shopt", "source", "suspend", "typeset", "ulimit", "umask", "wait"]

/-- A first word that is an assignment names no program either. -/
def simple : List Word → Bool
  | [] => false
  | w :: _ => !w.contains '=' && !reserved.contains (String.ofList w)

def simpleCommands (t : List Char) : Option (List (List Word)) :=
  let cs := (t.splitOn ';').map words
  if t.all (fun c => plain c || c == ' ' || c == ';') && cs.all simple then some cs else none

/-- What `sh` reads in a line: the commands that it runs one after the other, with their words. -/
structure ShLaws (sh : List Char → List (List Word)) : Prop where
  reads : ∀ t cs, simpleCommands t = some cs → sh t = cs

def join (ws : List Word) : List Char := [' '].intercalate ws

variable {t a b : List Char} {ws : List Word} {cs : List (List Word)} {w p : Word} {x : Char}

theorem simpleCommands_eq_some_iff : simpleCommands t = some cs ↔ ((∀ c ∈ t, plain c = true ∨ c = ' ' ∨ c = ';') ∧
    ∀ ws ∈ cs, simple ws = true) ∧ (t.splitOn ';').map words = cs := by
  have hbool : (t.all fun c => plain c || c == ' ' || c == ';') = true ↔
      ∀ c ∈ t, plain c = true ∨ c = ' ' ∨ c = ';' := by
    simp [or_assoc]
  unfold simpleCommands
  dsimp only
  rw [Option.ite_none_right_eq_some, Bool.and_eq_true, hbool, List.all_eq_true, Option.some_inj]
  constructor
  · rintro ⟨hc, rfl⟩
    exact ⟨hc, rfl⟩
  · rintro ⟨hc, rfl⟩
    exact ⟨hc, rfl⟩

theorem mem_words (hw : w ∈ words t) : w ≠ [] ∧ ' ' ∉ w ∧ ∀ c ∈ w, c ∈ t := by
  obtain ⟨hpiece, hne⟩ := List.mem_filter.1 hw
  exact ⟨of_decide_eq_true hne, mem_splitOn hpiece⟩

theorem mem_join {c : Char} : ∀ {ws : List Word}, c ∈ join ws → c = ' ' ∨ ∃ w ∈ ws, c ∈ w
  | [w], h => .inr ⟨w, List.mem_cons_self, by rwa [join, List.intercalate_singleton] at h⟩
  | w :: v :: ws, h => by
    rw [join, List.intercalate_cons_cons, List.mem_append, List.mem_append, List.mem_singleton] at h
    rcases h with (h | h) | h
    · exact .inr ⟨w, List.mem_cons_self, h⟩
    · exact .inl h
    · exact (@mem_join c (v :: ws) h).imp id fun ⟨u, hu, hc⟩ => ⟨u, List.mem_cons_of_mem w hu, hc⟩

/-- **A line after a semicolon is read as well**, whatever was before it. -/
theorem simpleCommands_append (a b : List Char) :
    simpleCommands (a ++ ';' :: b) = (simpleCommands a).bind fun cs => (simpleCommands b).map (cs ++ ·) := by
  apply Option.ext
  intro cs
  simp only [simpleCommands_eq_some_iff, Option.bind_eq_some_iff, Option.map_eq_some_iff, List.splitOn_append_cons_self,
    List.map_append, List.mem_append, List.mem_cons]
  constructor
  · rintro ⟨⟨hchars, hsimple⟩, rfl⟩
    exact ⟨_, ⟨⟨fun c hc => hchars c (.inl hc), fun v hv => hsimple v (List.mem_append_left _ hv)⟩, rfl⟩, _,
      ⟨⟨fun c hc => hchars c (.inr (.inr hc)), fun v hv => hsimple v (List.mem_append_right _ hv)⟩, rfl⟩, rfl⟩
  · rintro ⟨ca, ⟨⟨hca, hsa⟩, rfl⟩, cb, ⟨⟨hcb, hsb⟩, rfl⟩, rfl⟩
    refine ⟨⟨?_, fun v hv => (List.mem_append.1 hv).elim (hsa v) (hsb v)⟩, rfl⟩
    rintro c (hc | rfl | hc)
    · exact hca c hc
    · exact .inr (.inr rfl)
    · exact hcb c hc

/-- **Words joined by blanks are one command exactly when they are plain.** -/
theorem simpleCommands_join_iff (hs : simple ws = true) :
    simpleCommands (join ws) = some [ws] ↔ ∀ w ∈ ws, PlainWord w := by
  constructor
  · intro h
    obtain ⟨⟨hchars, -⟩, hws⟩ := simpleCommands_eq_some_iff.1 h
    obtain ⟨p, hp, rfl⟩ : ∃ p, (join ws).splitOn ';' = [p] ∧ words p = ws := by
      cases hsplit : (join ws).splitOn ';' with
      | nil => exact absurd hsplit (List.splitOn_ne_nil _ _)
      | cons p ps =>
        rw [hsplit, List.map_cons] at hws
        obtain ⟨hw, hnil⟩ := List.cons.inj hws
        exact ⟨p, by rw [List.map_eq_nil_iff.1 hnil], hw⟩
    intro w hw
    obtain ⟨hne, hblank, hmem⟩ := mem_words hw
    obtain ⟨hsemi, hsub⟩ := mem_splitOn (by rw [hp]; exact List.mem_cons_self)
    refine ⟨hne, fun c hc => ?_⟩
    rcases hchars c (hsub c (hmem c hc)) with h | rfl | rfl
    · exact h
    · exact absurd hc hblank
    · exact absurd (hmem _ hc) hsemi
  · intro h
    have hblank : ∀ w ∈ ws, ' ' ∉ w := fun w hw hc => absurd ((h w hw).2 ' ' hc) (by decide)
    have hne : ws ≠ [] := by
      rintro rfl
      cases hs
    have hsemi : ';' ∉ join ws := by
      intro hc
      rcases mem_join hc with hc | ⟨w, hw, hc⟩
      · cases hc
      · exact absurd ((h w hw).2 ';' hc) (by decide)
    have hwords : words (join ws) = ws := by
      unfold words join
      rw [List.splitOn_intercalate ' ' hblank hne, List.filter_eq_self]
      exact fun w hw => decide_eq_true (h w hw).1
    refine simpleCommands_eq_some_iff.2 ⟨⟨fun c hc => ?_, fun v hv => ?_⟩, ?_⟩
    · rcases mem_join hc with hc | ⟨w, hw, hc⟩
      · exact .inr (.inl hc)
      · exact .inl ((h w hw).2 c hc)
    · rw [List.mem_singleton.1 hv]
      exact hs
    · rw [List.splitOn_eq_singleton hsemi, List.map_singleton, hwords]

end ShellWords
