import Hyperagents.Runs
import Mathlib.Data.Multiset.AddSub
import Mathlib.Logic.Function.Basic
import Mathlib.Order.Lattice
/-!
# A cache of pinned places that serves each request at once

`I` are the places of the cache, `K` the keys it holds, `C` the times it reads, and `T` the clients.  A request for a
key is answered with a place: the one that has the key, else the first free one, else the one nobody has pinned that is
idle the longest, `limit` at least (`Serves`).  The place is pinned for the request until a release, and stamped when
the request returns.

A request is a call, one step in which it is served, and an answer (`Turn`); other clients may take any steps in
between.  So a system whose runs are runs of `Step`, with its calls and answers in their places, is linearizable: each
of its requests takes effect at once, somewhere between its call and its answer.
-/
namespace PinnedCache

open Runs

structure Entry (K C : Type*) where
  key : Option K
  pins : Nat
  stamp : C

abbrev Cache (I K C : Type*) := I → Entry K C

/-- Where a client is. -/
inductive Turn (I K : Type*)
  | out
  | called (k : K)
  | served (k : K) (i : I)

structure Pin (T I K : Type*) where
  client : T
  key : K
  place : I
  deriving DecidableEq

structure State (T I K C : Type*) where
  cache : Cache I K C
  turn : T → Turn I K
  held : Multiset (Pin T I K)

inductive Label (T I K C : Type*)
  | call (t : T) (k : K)
  | serve (t : T) (now : C)
  | answer (t : T) (k : K) (i : I) (now : C)
  | release (p : Pin T I K)

variable {I K C T : Type*}

/-- An empty cache with no client at it. -/
def State.init (clock : I → C) : State T I K C := ⟨fun i => ⟨none, 0, clock i⟩, fun _ => .out, 0⟩

/-! ## The cache -/

section

variable [DecidableEq I] (c : Cache I K C) (i j : I) (k : K) (now : C)

def pin : Cache I K C := Function.update c i { c i with pins := (c i).pins + 1 }

def unpin : Cache I K C := Function.update c i { c i with pins := (c i).pins - 1 }

def load : Cache I K C := Function.update c i { c i with key := some k, pins := 1 }

def stamp : Cache I K C := Function.update c i { c i with stamp := now }

variable {c i j}

theorem pin_key : (pin c i j).key = (c j).key := by
  by_cases h : j = i
  · rw [h, pin, Function.update_self]
  · rw [pin, Function.update_of_ne h]

theorem unpin_key : (unpin c i j).key = (c j).key := by
  by_cases h : j = i
  · rw [h, unpin, Function.update_self]
  · rw [unpin, Function.update_of_ne h]

theorem stamp_key : (stamp c i now j).key = (c j).key := by
  by_cases h : j = i
  · rw [h, stamp, Function.update_self]
  · rw [stamp, Function.update_of_ne h]

theorem pin_pins : (pin c i j).pins = (c j).pins + if i = j then 1 else 0 := by
  by_cases h : j = i
  · rw [h, if_pos rfl, pin, Function.update_self]
  · rw [if_neg (Ne.symm h), pin, Function.update_of_ne h]
    rfl

theorem unpin_pins : (unpin c i j).pins = (c j).pins - if i = j then 1 else 0 := by
  by_cases h : j = i
  · rw [h, if_pos rfl, unpin, Function.update_self]
  · rw [if_neg (Ne.symm h), unpin, Function.update_of_ne h]
    rfl

theorem stamp_pins : (stamp c i now j).pins = (c j).pins := by
  by_cases h : j = i
  · rw [h, stamp, Function.update_self]
  · rw [stamp, Function.update_of_ne h]

/-- A place that has the key and no pin is loaded by being pinned. -/
theorem load_eq_pin (hkey : (c i).key = some k) (hpins : (c i).pins = 0) : load c i k = pin c i := by
  unfold load pin
  rw [hpins, ← hkey]

theorem load_pin_comm (h : j ≠ i) : load (pin c j) i k = pin (load c i k) j := by
  unfold load pin
  rw [Function.update_of_ne h.symm, Function.update_of_ne h, Function.update_comm h]

theorem load_unpin_comm (h : j ≠ i) : load (unpin c j) i k = unpin (load c i k) j := by
  unfold load unpin
  rw [Function.update_of_ne h.symm, Function.update_of_ne h, Function.update_comm h]

theorem load_stamp_comm : load (stamp c j now) i k = stamp (load c i k) j now := by
  unfold load stamp
  by_cases h : j = i
  · rw [h, Function.update_self, Function.update_self, Function.update_idem, Function.update_idem]
  · rw [Function.update_of_ne (Ne.symm h), Function.update_of_ne h, Function.update_comm h]

/-- The cache as one who knows the keys by other names sees it. -/
def relabel {K' : Type*} (f : K → Option K') (c : Cache I K C) : Cache I K' C :=
  fun i => ⟨(c i).key.bind f, (c i).pins, (c i).stamp⟩

variable {K' : Type*} {f : K → Option K'} {now}

theorem relabel_update (e : Entry K C) :
    relabel f (Function.update c i e) = Function.update (relabel f c) i ⟨e.key.bind f, e.pins, e.stamp⟩ := by
  funext j
  by_cases h : j = i
  · rw [h, Function.update_self, relabel, Function.update_self]
  · rw [Function.update_of_ne h, relabel, Function.update_of_ne h]
    rfl

theorem relabel_pin : relabel f (pin c i) = pin (relabel f c) i := relabel_update _

theorem relabel_unpin : relabel f (unpin c i) = unpin (relabel f c) i := relabel_update _

theorem relabel_stamp : relabel f (stamp c i now) = stamp (relabel f c) i now := relabel_update _

theorem relabel_load {k} {k' : K'} (hk : f k = some k') : relabel f (load c i k) = load (relabel f c) i k' := by
  rw [load, relabel_update]
  unfold load
  rw [show (some k).bind f = some k' from hk]
  rfl

end

/-! ## Its clients -/

section

variable {Z : Type*} [LinearOrder I] [LinearOrder Z] (idle : C → C → Z) (limit : Z)

/-- Of the places nobody has pinned the one idle the longest, `limit` at least; the first if there are several. -/
structure Oldest (c : Cache I K C) (now : C) (i : I) : Prop where
  unpinned : (c i).pins = 0
  long : limit ≤ idle (c i).stamp now
  longest : ∀ j, (c j).pins = 0 → idle (c j).stamp now ≤ idle (c i).stamp now
  first : ∀ j, j < i → (c j).pins = 0 → idle (c j).stamp now < idle (c i).stamp now

/-- A request for `k` at the time `now` is answered with `i`, and leaves this cache. -/
inductive Serves (c : Cache I K C) (now : C) (k : K) (i : I) : Cache I K C → Prop
  | hit : (c i).key = some k → Serves c now k i (pin c i)
  | fill : (∀ j, (c j).key ≠ some k) → (c i).key = none → (∀ j, j < i → (c j).key ≠ none) →
      Serves c now k i (load c i k)
  | evict : (∀ j, (c j).key ≠ some k) → (∀ j, (c j).key ≠ none) → Oldest idle limit c now i →
      Serves c now k i (load c i k)

variable [DecidableEq T] [DecidableEq K]

inductive Step (s : State T I K C) : Label T I K C → State T I K C → Prop
  | call (t : T) (k : K) : s.turn t = .out →
      Step s (.call t k) { s with turn := Function.update s.turn t (.called k) }
  | serve (t : T) (now : C) (k : K) (i : I) (c : Cache I K C) : s.turn t = .called k →
      Serves idle limit s.cache now k i c →
      Step s (.serve t now) ⟨c, Function.update s.turn t (.served k i), ⟨t, k, i⟩ ::ₘ s.held⟩
  | answer (t : T) (k : K) (i : I) (now : C) : s.turn t = .served k i →
      Step s (.answer t k i now) ⟨stamp s.cache i now, Function.update s.turn t .out, s.held⟩
  | release (p : Pin T I K) : s.turn p.client = .out → p ∈ s.held →
      Step s (.release p) ⟨unpin s.cache p.place, s.turn, s.held.erase p⟩

variable {idle} {limit} {s s' : State T I K C} {l : Label T I K C}

/-- A request with nobody in between. -/
theorem request_run {t : T} {k : K} {i : I} {now now' : C} {c : Cache I K C} (hturn : s.turn t = .out)
    (hserves : Serves idle limit s.cache now k i c) :
    Run (Step idle limit) s [.call t k, .serve t now, .answer t k i now']
      ⟨stamp c i now', s.turn, ⟨t, k, i⟩ ::ₘ s.held⟩ := by
  have hback : Function.update (Function.update (Function.update s.turn t (.called k)) t (.served k i)) t .out =
      s.turn := by
    rw [Function.update_idem, Function.update_idem, ← hturn, Function.update_eq_self]
  rw [← hback]
  refine .snoc (.snoc (.single (.call t k hturn)) (.serve t now k i c ?_ hserves)) (.answer t k i now' ?_)
  · exact Function.update_self _ _ _
  · exact Function.update_self _ _ _

/-- **The invariant**: the places have different keys, those of the requests that hold them, and count these. -/
structure Sound (s : State T I K C) : Prop where
  keyed : ∀ p ∈ s.held, (s.cache p.place).key = some p.key
  counted : ∀ i, (s.cache i).pins = s.held.countP (fun p => p.place = i)
  apart : ∀ i j k, (s.cache i).key = some k → (s.cache j).key = some k → i = j

omit [DecidableEq T] [DecidableEq K] in
/-- A place with no key is held by no request. -/
theorem Sound.pins_of_free (h : Sound s) {i : I} (hi : (s.cache i).key = none) : (s.cache i).pins = 0 := by
  rw [h.counted, Multiset.countP_eq_zero]
  intro p hp hpi
  have hkey := h.keyed p hp
  rw [hpi, hi] at hkey
  cases hkey

omit [DecidableEq T] [DecidableEq K] in
/-- One more pin. -/
theorem Sound.pinned (h : Sound s) {t : T} {k : K} {i : I} {turn : T → Turn I K} (hkey : (s.cache i).key = some k) :
    Sound ⟨pin s.cache i, turn, ⟨t, k, i⟩ ::ₘ s.held⟩ := by
  refine ⟨fun p hp => ?_, fun j => ?_, fun j m w hj hm => ?_⟩
  · rw [pin_key]
    rcases Multiset.mem_cons.1 hp with rfl | hp
    · exact hkey
    · exact h.keyed p hp
  · rw [pin_pins, h.counted, Multiset.countP_cons]
  · rw [pin_key] at hj hm
    exact h.apart j m w hj hm

omit [DecidableEq T] [DecidableEq K] in
/-- A place with no pin gets a key that no other place has. -/
theorem Sound.loaded (h : Sound s) {t : T} {k : K} {i : I} {turn : T → Turn I K} (hmiss : ∀ j, (s.cache j).key ≠ some k)
    (h0 : (s.cache i).pins = 0) : Sound ⟨load s.cache i k, turn, ⟨t, k, i⟩ ::ₘ s.held⟩ := by
  rw [h.counted, Multiset.countP_eq_zero] at h0
  have hself : load s.cache i k i = { s.cache i with key := some k, pins := 1 } := Function.update_self _ _ _
  have hne : ∀ j, j ≠ i → load s.cache i k j = s.cache j := fun j hj => Function.update_of_ne hj _ _
  refine ⟨fun p hp => ?_, fun j => ?_, fun j m w hj hm => ?_⟩
  · rcases Multiset.mem_cons.1 hp with rfl | hp
    · show (load s.cache i k i).key = some k
      rw [hself]
    · show (load s.cache i k p.place).key = some p.key
      rw [hne _ (h0 p hp)]
      exact h.keyed p hp
  · show (load s.cache i k j).pins = _
    rw [Multiset.countP_cons]
    by_cases hji : j = i
    · rw [hji, hself, if_pos rfl, Multiset.countP_eq_zero.2 h0]
    · rw [hne j hji, if_neg (Ne.symm hji), h.counted]
      rfl
  · change (load s.cache i k j).key = some w at hj
    change (load s.cache i k m).key = some w at hm
    by_cases hji : j = i <;> by_cases hmi : m = i
    · rw [hji, hmi]
    · rw [hji, hself] at hj
      rw [hne m hmi] at hm
      cases hj
      exact absurd hm (hmiss m)
    · rw [hmi, hself] at hm
      rw [hne j hji] at hj
      cases hm
      exact absurd hj (hmiss j)
    · rw [hne j hji] at hj
      rw [hne m hmi] at hm
      exact h.apart j m w hj hm

theorem Sound.step (h : Sound s) (hs : Step idle limit s l s') : Sound s' := by
  cases hs with
  | call t k hturn => exact ⟨h.keyed, h.counted, h.apart⟩
  | serve t now k i c hturn hserves =>
    cases hserves with
    | hit hkey => exact h.pinned hkey
    | fill hmiss hfree hbefore => exact h.loaded hmiss (h.pins_of_free hfree)
    | evict hmiss hfull hold => exact h.loaded hmiss hold.unpinned
  | answer t k i now hturn =>
    refine ⟨fun p hp => (stamp_key now).trans (h.keyed p hp), fun j => (stamp_pins now).trans (h.counted j), ?_⟩
    intro j m w hj hm
    exact h.apart j m w ((stamp_key now).symm.trans hj) ((stamp_key now).symm.trans hm)
  | release p hturn hp =>
    refine ⟨fun q hq => unpin_key.trans (h.keyed q (Multiset.mem_of_mem_erase hq)), fun j => ?_, ?_⟩
    · have hcount : s.held.countP (fun q => q.place = j) =
          (s.held.erase p).countP (fun q => q.place = j) + if p.place = j then 1 else 0 := by
        rw [← Multiset.countP_cons, Multiset.cons_erase hp]
      show (unpin s.cache p.place j).pins = _
      rw [unpin_pins, h.counted, hcount, Nat.add_sub_cancel]
    · intro j m w hj hm
      exact h.apart j m w (unpin_key.symm.trans hj) (unpin_key.symm.trans hm)

theorem sound_run {clock : I → C} {ls : List (Label T I K C)} (hrun : Run (Step idle limit) (.init clock) ls s) :
    Sound s :=
  hrun.invariant (P := fun _ s => Sound s) ⟨fun _ hp => absurd hp (Multiset.notMem_zero _), fun _ => rfl, nofun⟩
    fun _ _ _ _ _ h hs => h.step hs

end

end PinnedCache
