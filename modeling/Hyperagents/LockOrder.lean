import Mathlib.Logic.Function.Basic
/-!
# Mutexes waited for in an order

Threads stand at program points.  A `Program` says which mutexes a thread at a point holds, and which one it waits for
there.  A mutex that is never waited for, only tried, is not `awaited`, and may be held by a thread whose point does not
show it.

Where every thread that waits for a mutex holds only mutexes of a higher rank (`Ordered`), whoever is blocked waits, by
way of other threads, for one that is not (`Consistent.exists_unblocked`).
-/
namespace LockOrder

structure Program (M P : Type*) where
  holds : P → M → Bool
  waits : P → Option M
  awaited : M → Bool

variable {T M P : Type*} {prog : Program M P}

/-- A thread waits for awaited mutexes only, and for none of a rank as high as one it holds. -/
structure Ordered (prog : Program M P) (rank : M → Nat) : Prop where
  awaited : ∀ {p m}, prog.waits p = some m → prog.awaited m = true
  rank : ∀ {p m n}, prog.waits p = some m → prog.holds p n = true → rank m < rank n

/-- What the thread `t` may do to the holders on its way from the point `q` to `p`. -/
inductive Move [DecidableEq M] (prog : Program M P) (t : T) (h : M → Option T) (q p : P) : (M → Option T) → Prop
  | stay : prog.holds p = prog.holds q → Move prog t h q p h
  | lock (m : M) : h m = none → prog.holds p = Function.update (prog.holds q) m true →
      Move prog t h q p (Function.update h m (some t))
  | unlock (m : M) : prog.holds q m = true → prog.holds p = Function.update (prog.holds q) m false →
      Move prog t h q p (Function.update h m none)
  | keep (m : M) : prog.awaited m = false → h m = none → prog.holds p = prog.holds q →
      Move prog t h q p (Function.update h m (some t))

/-- **The invariant**: a thread holds what its point shows, and of the awaited mutexes no other. -/
structure Consistent (prog : Program M P) (h : M → Option T) (pc : T → P) : Prop where
  held : ∀ t m, prog.holds (pc t) m = true → h m = some t
  shown : ∀ t m, prog.awaited m = true → h m = some t → prog.holds (pc t) m = true

/-- Whether a thread waits for a mutex that is held. -/
def Blocked (prog : Program M P) (h : M → Option T) (pc : T → P) (t : T) : Prop :=
  ∃ m u, prog.waits (pc t) = some m ∧ h m = some u

/-- From a thread to the holder of what it waits for, and on. -/
inductive WaitsFor (prog : Program M P) (h : M → Option T) (pc : T → P) : T → T → Prop
  | refl (t : T) : WaitsFor prog h pc t t
  | next {t u w : T} {m : M} : prog.waits (pc t) = some m → h m = some u → WaitsFor prog h pc u w →
      WaitsFor prog h pc t w

section

variable {h h' : M → Option T} {pc : T → P} {rank : M → Nat} {t u : T} {m n : M} {p : P}

/-- One thread goes to `p`, where the holders are as its point shows, and the others hold what they held. -/
theorem Consistent.goto [DecidableEq T] (hc : Consistent prog h pc) (hheld : ∀ m, prog.holds p m = true → h' m = some t)
    (hshown : ∀ m, prog.awaited m = true → h' m = some t → prog.holds p m = true)
    (hothers : ∀ u m, u ≠ t → (h' m = some u ↔ h m = some u)) : Consistent prog h' (Function.update pc t p) := by
  refine ⟨fun u m hm => ?_, fun u m hs hm => ?_⟩
  · by_cases hu : u = t
    · rw [hu, Function.update_self] at hm
      rw [hu]
      exact hheld m hm
    · rw [Function.update_of_ne hu] at hm
      exact (hothers u m hu).2 (hc.held u m hm)
  · by_cases hu : u = t
    · rw [hu, Function.update_self]
      exact hshown m hs (hu ▸ hm)
    · rw [Function.update_of_ne hu]
      exact hc.shown u m hs ((hothers u m hu).1 hm)

/-- Only the mutex `m` changes hands, between the thread that moves and nobody. -/
theorem Consistent.update [DecidableEq T] [DecidableEq M] (hc : Consistent prog h pc) {o : Option T}
    (hoff : ∀ n, n ≠ m → prog.holds p n = prog.holds (pc t) n) (hheld : prog.holds p m = true → o = some t)
    (hshown : prog.awaited m = true → o = some t → prog.holds p m = true)
    (hothers : ∀ u, u ≠ t → (o = some u ↔ h m = some u)) :
    Consistent prog (Function.update h m o) (Function.update pc t p) := by
  refine hc.goto (fun n hn => ?_) (fun n hs hn => ?_) fun u n hu => ?_ <;> by_cases hnm : n = m
  · subst hnm
    rw [Function.update_self]
    exact hheld hn
  · rw [hoff n hnm] at hn
    rw [Function.update_of_ne hnm]
    exact hc.held t n hn
  · subst hnm
    rw [Function.update_self] at hn
    exact hshown hs hn
  · rw [Function.update_of_ne hnm] at hn
    rw [hoff n hnm]
    exact hc.shown t n hs hn
  · subst hnm
    rw [Function.update_self]
    exact hothers u hu
  · rw [Function.update_of_ne hnm]

/-- **A move keeps the invariant.** -/
theorem Consistent.move [DecidableEq T] [DecidableEq M] (hc : Consistent prog h pc) (hm : Move prog t h (pc t) p h') :
    Consistent prog h' (Function.update pc t p) := by
  have hne : ∀ u, u ≠ t → ¬ some t = some u := fun u hu e => hu (Option.some.inj e).symm
  cases hm with
  | stay hp =>
    refine hc.goto (fun n hn => ?_) (fun n hs hn => ?_) fun _ _ _ => Iff.rfl
    · rw [hp] at hn
      exact hc.held t n hn
    · rw [hp]
      exact hc.shown t n hs hn
  | lock m hfree hp =>
    refine hc.update (fun n hnm => ?_) (fun _ => rfl) (fun _ _ => ?_) fun u hu => ?_
    · rw [hp, Function.update_of_ne hnm]
    · rw [hp, Function.update_self]
    · rw [hfree]
      exact iff_of_false (hne u hu) nofun
  | unlock m hmine hp =>
    refine hc.update (fun n hnm => ?_) (fun hn => ?_) nofun fun u hu => ?_
    · rw [hp, Function.update_of_ne hnm]
    · rw [hp, Function.update_self] at hn
      cases hn
    · rw [hc.held t m hmine]
      exact iff_of_false nofun (hne u hu)
  | keep m hkept hfree hp =>
    refine hc.update (fun n _ => by rw [hp]) (fun _ => rfl) (fun hs => ?_) fun u hu => ?_
    · rw [hkept] at hs
      cases hs
    · rw [hfree]
      exact iff_of_false (hne u hu) nofun

/-- At most one thread is where the point shows a mutex held. -/
theorem Consistent.unique (hc : Consistent prog h pc) (ht : prog.holds (pc t) m = true)
    (hu : prog.holds (pc u) m = true) : t = u :=
  Option.some.inj ((hc.held t m ht).symm.trans (hc.held u m hu))

/-- The holder of a mutex waits, if at all, for one of lower rank. -/
theorem Consistent.waits_lower (hc : Consistent prog h pc) (hord : Ordered prog rank) (hs : prog.awaited m = true)
    (hm : h m = some u) (hn : prog.waits (pc u) = some n) : rank n < rank m :=
  hord.rank hn (hc.shown u m hs hm)

/-- **No thread waits for a mutex it holds.** -/
theorem Consistent.not_self (hc : Consistent prog h pc) (hord : Ordered prog rank) (hm : prog.waits (pc t) = some m) :
    h m ≠ some t :=
  fun ht => Nat.lt_irrefl _ (hc.waits_lower hord (hord.awaited hm) ht hm)

/-- **Whoever is blocked waits in the end for a thread that is not.** -/
theorem Consistent.exists_unblocked (hc : Consistent prog h pc) (hord : Ordered prog rank)
    (hs : prog.awaited m = true) (hm : h m = some u) : ∃ w, WaitsFor prog h pc u w ∧ ¬ Blocked prog h pc w := by
  induction hr : rank m using Nat.strongRecOn generalizing m u with
  | ind r ih =>
    by_cases hb : Blocked prog h pc u
    · obtain ⟨n, w, hn, hw⟩ := hb
      have hlt : rank n < r := hr ▸ hc.waits_lower hord hs hm hn
      obtain ⟨x, hx, hfree⟩ := ih (rank n) hlt (hord.awaited hn) hw rfl
      exact ⟨x, .next hn hw hx, hfree⟩
    · exact ⟨u, .refl u, hb⟩

end

end LockOrder
