import Hyperagents.Loops
/-!
# Lists linked in a ring

Each node of a list names the next one, the last one names `z` (`Path`); in a ring `z` is the node the list starts from.
A loop that works on one node in each turn, goes on to the next and leaves where that is `z` takes one turn for each
node (`Path.ends`).
-/
namespace Rings

open Loops

variable {A R S : Type*}

/-- Following `next` from `a` meets these nodes, one after the other, and then `z`. -/
def Path (next : A → Option A) (z : A) : A → List A → Prop
  | a, [] => next a = some z
  | a, b :: nodes => next a = some b ∧ Path next z b nodes

/-- The nodes linked in a ring through `head`. -/
def Ring (next : A → Option A) (head : A) (nodes : List A) : Prop := Path next head head nodes

variable {next : A → Option A} {z : A} {body : S → Turn R S}

/-- **A loop along a path**: `At seen a s` says that the loop is at `a` in the state `s`, with the nodes seen before it
worked on, and `Done` the same of its result. -/
theorem Path.ends {Good : A → Prop} {At : List A → A → S → Prop} {Done : List A → R → Prop}
    (hagain : ∀ seen a b s, Good a → At seen a s → next a = some b → b ≠ z →
      ∃ s', body s = .again s' ∧ At (seen ++ [a]) b s')
    (hleave : ∀ seen a s, Good a → At seen a s → next a = some z →
      ∃ r, body s = .leave r ∧ Done (seen ++ [a]) r) :
    ∀ (nodes : List A) (seen : List A) (a : A) (s : S), Path next z a nodes → z ∉ nodes →
      (∀ b ∈ a :: nodes, Good b) → At seen a s → ∃ r, Ends body s nodes.length r ∧ Done (seen ++ a :: nodes) r
  | [], seen, a, s, hp, _, hgood, hat => by
    obtain ⟨r, hr, hdone⟩ := hleave seen a s (hgood a List.mem_cons_self) hat hp
    exact ⟨r, .leave hr, hdone⟩
  | b :: nodes, seen, a, s, hp, hz, hgood, hat => by
    have hbz : b ≠ z := fun heq => hz (heq ▸ List.mem_cons_self)
    obtain ⟨s', hs', hat'⟩ := hagain seen a b s (hgood a List.mem_cons_self) hat hp.1 hbz
    obtain ⟨r, hr, hdone⟩ := Path.ends hagain hleave nodes (seen ++ [a]) b s' hp.2
      (fun hmem => hz (List.mem_cons_of_mem b hmem)) (fun c hc => hgood c (List.mem_cons_of_mem a hc)) hat'
    refine ⟨r, .again hs' hr, ?_⟩
    rwa [List.append_assoc] at hdone

end Rings
