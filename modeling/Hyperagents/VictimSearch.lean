import Hyperagents.FirstMax
import Hyperagents.RequestMount
import Hyperagents.Threads
/-!
# The search for a victim

`max` and `maxix` are set to zero once and live through all passes of the search, while other threads change the
records between two passes.  Still each pass decides alone: `max` stays under ten seconds as long as the search goes on,
so it ends in the first pass that finds a slot out of use for ten seconds (`Ripe`), at the slot out of use the longest
in that pass (`LongestIdle`).
-/
namespace Hyperagents

open FirstMax Runs

namespace Records

variable (rs : Records) (now : Timeval)

/-- How long a slot has been idle, in milliseconds. -/
def idle (i : Slot) : Int := timevalDiff (rs i).lastUsed now

/-- Some slot is out of use, and has been for ten seconds. -/
def Ripe : Prop := ∃ i, rs.refcount i = 0 ∧ 10000 ≤ rs.idle now i

/-- Of the slots out of use the one that is idle the longest, ten seconds at least; the first if there are several. -/
structure LongestIdle (i : Slot) : Prop where
  unused : rs.refcount i = 0
  long : 10000 ≤ rs.idle now i
  longest : ∀ j, rs.refcount j = 0 → rs.idle now j ≤ rs.idle now i
  first : ∀ j, j < i → rs.refcount j = 0 → rs.idle now j < rs.idle now i

variable {rs} {now} {m m' : Int × Slot} {i j : Slot}

theorem LongestIdle.ripe (h : rs.LongestIdle now i) : rs.Ripe now := ⟨i, h.unused, h.long⟩

/-- There is one such slot at most. -/
theorem LongestIdle.unique (hi : rs.LongestIdle now i) (hj : rs.LongestIdle now j) : i = j := by
  rcases lt_trichotomy i j with hlt | heq | hgt
  · have := hj.first i hlt hi.unused
    have := hi.longest j hj.unused
    omega
  · exact heq
  · have := hi.first j hgt hj.unused
    have := hj.longest i hi.unused
    omega

/-! ## One pass -/

theorem victimPass_eq_scan :
    rs.victimPass now m = scan (fun i => rs.refcount i = 0) (rs.idle now) m (List.finRange DEVMAX) := rfl

/-- **A pass goes past ten seconds exactly when it finds a slot out of use that long.** -/
theorem victimPass_long_iff (hm : m.1 < 10000) : ¬ (rs.victimPass now m).1 < 10000 ↔ rs.Ripe now := by
  rw [not_lt, victimPass_eq_scan, le_scan_iff hm]
  unfold Ripe
  simp only [List.mem_finRange, true_and]

/-- **A pass that goes past ten seconds ends at the slot idle the longest.** -/
theorem victimPass_longest (hm : m.1 < 10000) (h : ¬ (rs.victimPass now m).1 < 10000) :
    rs.LongestIdle now (rs.victimPass now m).2 := by
  obtain ⟨i, hi, hlong⟩ := (victimPass_long_iff hm).1 h
  have hmax : IsFirstMax (fun i => rs.refcount i = 0) (rs.idle now) (List.finRange DEVMAX) (rs.victimPass now m).2 := by
    rw [victimPass_eq_scan] at h ⊢
    exact isFirstMax_of_le hm (not_lt.1 h)
  have hsorted := List.pairwise_lt_finRange DEVMAX
  refine ⟨hmax.candidate, ?_, fun j => hmax.le j (List.mem_finRange j),
    fun j => hmax.lt_of_lt hsorted j (List.mem_finRange j)⟩
  exact hlong.trans (hmax.le i (List.mem_finRange i) hi)

end Records

/-! ## The search -/

/-- The search over its passes, each with the records and the clock as it reads them: how many passes failed (`tries`)
and the slot taken. -/
def victimSearch : Nat → List (Records × Timeval) → Int × Slot → Option (Nat × Slot)
  | _, [], _ => none
  | tries, (rs, c) :: passes, m =>
    let m := rs.victimPass c m
    if m.1 < 10000 then victimSearch (tries + 1) passes m else some (tries, m.2)

/-- The search of a request that runs alone reads the same records in every pass. -/
theorem stealLoop_eq_victimSearch {δ : Type} : ∀ (cs : List Timeval) (s : HaState δ) (tries : Nat) (m : Int × Slot),
    (stealLoop s cs m).map Prod.fst = (victimSearch tries (cs.map fun c => (s.records, c)) m).map Prod.snd
  | [], _, _, _ => rfl
  | c :: cs, s, tries, m => by
    simp only [stealLoop, List.map_cons, victimSearch]
    change Option.map Prod.fst (if (s.records.victimPass c m).1 < 10000 then _ else _) = _
    split
    · exact stealLoop_eq_victimSearch cs (((s.emit .lockLk).emit .unlockLk).emit (.sleep 1000)) (tries + 1) _
    · rfl

/-- The search ends in pass `k` and takes the slot `i`. -/
structure SearchEnds (passes : List (Records × Timeval)) (k : Nat) (i : Slot) : Prop where
  chosen : ∃ rs now, passes[k]? = some (rs, now) ∧ rs.LongestIdle now i
  before : ∀ j, j < k → ∀ rs now, passes[j]? = some (rs, now) → ¬ rs.Ripe now

variable {passes : List (Records × Timeval)} {rs : Records} {now : Timeval} {m : Int × Slot} {i : Slot}

theorem searchEnds_cons_ripe (h : rs.Ripe now) {k : Nat} :
    SearchEnds ((rs, now) :: passes) k i ↔ k = 0 ∧ rs.LongestIdle now i := by
  constructor
  · rintro ⟨⟨rs', now', hk, hi⟩, hbefore⟩
    cases k with
    | zero =>
      cases hk
      exact ⟨rfl, hi⟩
    | succ k => exact absurd h (hbefore 0 (Nat.succ_pos k) rs now rfl)
  · rintro ⟨rfl, hi⟩
    exact ⟨⟨rs, now, rfl, hi⟩, fun j hj => absurd hj (Nat.not_lt_zero j)⟩

theorem searchEnds_cons_unripe (h : ¬ rs.Ripe now) {k : Nat} :
    SearchEnds ((rs, now) :: passes) k i ↔ ∃ k', k = k' + 1 ∧ SearchEnds passes k' i := by
  constructor
  · rintro ⟨⟨rs', now', hk, hi⟩, hbefore⟩
    cases k with
    | zero =>
      cases hk
      exact absurd hi.ripe h
    | succ k =>
      exact ⟨k, rfl, ⟨rs', now', hk, hi⟩, fun j hj => hbefore (j + 1) (Nat.succ_lt_succ hj)⟩
  · rintro ⟨k, rfl, hchosen, hbefore⟩
    refine ⟨hchosen, fun j hj => ?_⟩
    cases j with
    | zero =>
      intro rs' now' heq
      cases heq
      exact h
    | succ j => exact hbefore j (Nat.lt_of_succ_lt_succ hj)

/-- **Where the search ends**, whatever `max` under ten seconds it starts from. -/
theorem victimSearch_eq_some : ∀ (passes : List (Records × Timeval)) (tries : Nat) (m : Int × Slot), m.1 < 10000 →
    ∀ n i, victimSearch tries passes m = some (n, i) ↔ ∃ k, n = tries + k ∧ SearchEnds passes k i
  | [], tries, m, _, n, i => by
    apply iff_of_false (fun h => by cases h)
    rintro ⟨k, -, ⟨rs, now, hk, -⟩, -⟩
    cases hk
  | (rs, c) :: passes, tries, m, hm, n, i => by
    unfold victimSearch
    dsimp only
    by_cases hlong : (rs.victimPass c m).1 < 10000
    · have hunripe : ¬ rs.Ripe c := fun h => (Records.victimPass_long_iff hm).2 h hlong
      rw [if_pos hlong, victimSearch_eq_some passes (tries + 1) _ hlong n i]
      simp only [searchEnds_cons_unripe hunripe]
      constructor
      · rintro ⟨k, rfl, hk⟩
        exact ⟨k + 1, by omega, k, rfl, hk⟩
      · rintro ⟨k, rfl, k', rfl, hk⟩
        exact ⟨k', by omega, hk⟩
    · have hchosen := Records.victimPass_longest hm hlong
      rw [if_neg hlong]
      simp only [searchEnds_cons_ripe hchosen.ripe]
      constructor
      · intro h
        cases h
        exact ⟨0, rfl, rfl, hchosen⟩
      · rintro ⟨k, rfl, rfl, hi⟩
        rw [hi.unique hchosen]
        rfl

/-- From the start the search ends with a pass exactly when that is the first ripe one. -/
theorem victimSearch_ends (passes : List (Records × Timeval)) (k : Nat) (i : Slot) :
    victimSearch 0 passes (0, 0) = some (k, i) ↔ SearchEnds passes k i := by
  rw [victimSearch_eq_some passes 0 (0, 0) (by decide)]
  simp only [Nat.zero_add, exists_eq_left']

/-- While no pass is ripe the search goes on. -/
theorem victimSearch_eq_none : ∀ (passes : List (Records × Timeval)) (tries : Nat) (m : Int × Slot), m.1 < 10000 →
    (victimSearch tries passes m = none ↔ ∀ p ∈ passes, ¬ p.1.Ripe p.2)
  | [], _, _, _ => by simp [victimSearch]
  | (rs, c) :: passes, tries, m, hm => by
    unfold victimSearch
    dsimp only
    rw [List.forall_mem_cons]
    by_cases hlong : (rs.victimPass c m).1 < 10000
    · have hunripe : ¬ rs.Ripe c := fun h => (Records.victimPass_long_iff hm).2 h hlong
      rw [if_pos hlong, victimSearch_eq_none passes (tries + 1) _ hlong]
      exact (and_iff_right hunripe).symm
    · rw [if_neg hlong]
      exact iff_of_false (fun h => by cases h) fun h => h.1 ((Records.victimPass_long_iff hm).1 hlong)

/-- The search ends in the first pass that is ripe, takes the slot idle the longest there, and goes on while there is no
such pass; a `max` under ten seconds and a `maxix` left from earlier passes make no difference. -/
structure StealsLongest (passes : List (Records × Timeval)) : Prop where
  ends : ∀ k i, victimSearch 0 passes (0, 0) = some (k, i) ↔ SearchEnds passes k i
  waits : victimSearch 0 passes (0, 0) = none ↔ ∀ p ∈ passes, ¬ p.1.Ripe p.2
  forgets : ∀ m, m.1 < 10000 → victimSearch 0 passes m = victimSearch 0 passes (0, 0)

theorem steals_longest (passes : List (Records × Timeval)) : StealsLongest passes where
  ends := victimSearch_ends passes
  waits := victimSearch_eq_none passes 0 (0, 0) (by decide)
  forgets m hm := by
    apply Option.ext
    rintro ⟨n, i⟩
    rw [victimSearch_eq_some passes 0 m hm, victimSearch_eq_some passes 0 (0, 0) (by decide)]

/-! ## Threads -/

section

variable {T : Type} [DecidableEq T]

/-- Every thread in the search has a `max` under ten seconds. -/
def Unlucky (s : SmState T) : Prop := ∀ t v m, s.pc t = .seeking v m → m.1 < 10000

theorem Unlucky.goto {s : SmState T} (h : Unlucky s) {u : SmState T} {t : T} {p : Pc} (hu : u.pc = s.pc)
    (hp : ∀ v m, p = .seeking v m → m.1 < 10000) : Unlucky (u.goto t p) := by
  intro t' v m ht'
  change Function.update u.pc t p t' = _ at ht'
  by_cases htt : t' = t
  · rw [htt, Function.update_self] at ht'
    exact hp v m ht'
  · rw [Function.update_of_ne htt, hu] at ht'
    exact h t' v m ht'

theorem Unlucky.smStep {s s' : SmState T} {l : SmLabel T} (h : Unlucky s) (hs : smStep s l = some s') :
    Unlucky s' := by
  cases smStep_cases hs with
  | unlucky t now v m hpc hlk hshort =>
    refine h.goto rfl fun w n e => ?_
    cases e
    exact hshort
  | taken t now v i hpc hl =>
    refine h.goto rfl fun w n e => ?_
    unfold Pc.afterTaken at e
    split at e
    · cases e
    · cases e
      decide
  | release t v i hpc hmem hcan => exact h
  | _ => exact h.goto rfl fun w n e => by cases e

theorem Unlucky.apiStep {s s' : SmState T} {l : ApiLabel T} (h : Unlucky s) (hs : apiStep s l = some s') :
    Unlucky s' := by
  cases l with
  | sm l => exact h.smStep hs
  | stray t i =>
    obtain ⟨-, rfl⟩ := apiStep_stray hs
    exact h

/-- **A thread that picks a slot picks the one idle the longest**, after any steps of any threads; it picks one as soon
as there is one. -/
theorem pick_longest (clock : Slot → Timeval) {ls : List (ApiLabel T)} {s s' : SmState T} {t : T} {v : Vmi}
    {m : Int × Slot} {now : Timeval} (hrun : Run (stepOf apiStep) (SmState.init clock) ls s)
    (hpc : s.pc t = .seeking v m) (hs : apiStep s (.sm (.step t now)) = some s') :
    (s.records.Ripe now → ∃ i, s.records.LongestIdle now i ∧ s'.pc t = .unmounting v i) ∧
      (¬ s.records.Ripe now → ∃ m', s'.pc t = .seeking v m') := by
  have hm : m.1 < 10000 := by
    have hunlucky : Unlucky s := by
      refine Run.invariant (P := fun _ s => Unlucky s) (fun _ _ _ e => by cases e) ?_ hrun
      exact fun _ _ _ _ _ h hs => h.apiStep hs
    exact hunlucky t v m hpc
  have hself : ∀ (u : SmState T) p, (u.goto t p).pc t = p := fun u p => Function.update_self _ _ _
  have hlong : ¬ (s.records.victimPass now m).1 < 10000 ↔ s.records.Ripe now := Records.victimPass_long_iff hm
  change smNext s t now (s.pc t) = some s' at hs
  rw [hpc] at hs
  simp only [smNext] at hs
  split at hs
  · split at hs
    · rename_i hshort
      cases hs
      exact ⟨fun hr => absurd hshort (hlong.2 hr), fun _ => ⟨_, hself _ _⟩⟩
    · rename_i hpast
      cases hs
      exact ⟨fun _ => ⟨_, Records.victimPass_longest hm hpast, hself _ _⟩, fun hr => absurd (hlong.1 hpast) hr⟩
  · cases hs

end

end Hyperagents
