import Hyperagents.DeviceTurns
import Hyperagents.OneSlot
import Hyperagents.PinnedCache
import Hyperagents.VictimSearch
/-!
# Requests that take effect at once

A request of a thread takes many steps, and other threads come in between: a lookup pass, sixteen `try_lock`s, a search
that sleeps, an unmount, the reassignment, a mount.  Still nobody can tell a run of the syncmount from one of a cache
that serves each request in one step (`PinnedCache.Step`), where two things hold: no lookup hits a slot that a thread
has picked and not reassigned yet (`Undisturbed`), and a thread that takes a slot, free or picked, finds no other slot
of its VM (`GivenAlone`).  A request takes effect at the hit of its lookup, at the `try_lock` that succeeds, or at the
victim pass that ends its search, well before the record says so; until then the slot it picked counts as given
(`SmState.served`).

The two conditions are exact (`linearized_iff`).
-/
namespace Hyperagents

open Runs
open PinnedCache (Cache Turn Pin Sound)

/-- What the others know of a thread: it is served from the moment it has picked a slot. -/
def Pc.turn : Pc → Turn Slot Vmi
  | .idle => .out
  | .lookup v | .claiming v _ | .seeking v _ => .called v
  | .mounting v i | .unmounting v i | .reassigning v i | .remounting v i => .served v i

/-- The slot a thread has picked for its VM and not reassigned yet. -/
def Pc.picked : Pc → Option (Vmi × Slot)
  | .unmounting v i | .reassigning v i => some (v, i)
  | .idle | .lookup _ | .claiming _ _ | .mounting _ _ | .seeking _ _ | .remounting _ _ => none

theorem Pc.picked_of_victim {p : Pc} {i : Slot} (h : p.victim = some i) : ∃ v, p.picked = some (v, i) := by
  cases p with
  | unmounting v j | reassigning v j =>
    cases h
    exact ⟨v, rfl⟩
  | _ => cases h

theorem Pc.victim_of_picked {p : Pc} {v : Vmi} {i : Slot} (h : p.picked = some (v, i)) : p.victim = some i := by
  cases p with
  | unmounting w j | reassigning w j =>
    cases h
    rfl
  | _ => cases h

theorem Pc.afterTaken_turn (v : Vmi) (i : Slot) :
    (Pc.afterTaken v i).turn = .called v ∧ (Pc.afterTaken v i).picked = none := by
  unfold Pc.afterTaken
  split <;> exact ⟨rfl, rfl⟩

/-! ## The records as a cache -/

def Records.cache (rs : Records) : Cache Slot Vmi Timeval :=
  fun i => ⟨rs.owner i, (rs.refcount i).toNat, (rs i).lastUsed⟩

section

variable {rs : Records} {i : Slot} {v : Vmi} {now : Timeval}

theorem Records.cache_update (r : SyncmountRecord) :
    Records.cache (Function.update rs i r) = Function.update rs.cache i ⟨r.vmi, r.refcount.toNat, r.lastUsed⟩ := by
  funext j
  by_cases h : j = i
  · rw [h, Function.update_self]
    simp only [Records.cache, Records.owner, Records.refcount, Function.update_self]
  · rw [Function.update_of_ne h]
    simp only [Records.cache, Records.owner, Records.refcount, Function.update_of_ne h]

theorem Records.cache_remount (h : 0 ≤ rs.refcount i) :
    (rs.remount i now).cache = PinnedCache.stamp (PinnedCache.pin rs.cache i) i now := by
  have hcount : ((rs i).refcount + 1).toNat = (rs.refcount i).toNat + 1 := Int.toNat_add h (by decide)
  unfold PinnedCache.stamp PinnedCache.pin
  rw [Records.remount, Records.cache_update, Function.update_idem, Function.update_self, hcount]
  rfl

theorem Records.cache_claim : (rs.claim i v).cache = PinnedCache.load rs.cache i v := Records.cache_update _

theorem Records.cache_reassign : (rs.reassign i v).cache = PinnedCache.load rs.cache i v := Records.cache_update _

theorem Records.cache_stamp : (rs.stamp i now).cache = PinnedCache.stamp rs.cache i now := Records.cache_update _

theorem Records.cache_release : (rs.release i).cache = PinnedCache.unpin rs.cache i := by
  have hcount : ((rs i).refcount - 1).toNat = (rs i).refcount.toNat - 1 := by omega
  rw [Records.release, Records.cache_update, hcount]
  rfl

/-- **The search picks what the cache would evict.** -/
theorem Records.oldest_iff (hcount : ∀ i, 0 ≤ rs.refcount i) :
    PinnedCache.Oldest timevalDiff 10000 rs.cache now i ↔ rs.LongestIdle now i := by
  have hpins : ∀ j, (rs.cache j).pins = 0 ↔ rs.refcount j = 0 := fun j => by
    have := hcount j
    show (rs.refcount j).toNat = 0 ↔ _
    omega
  constructor
  · rintro ⟨hunpinned, hlong, hlongest, hfirst⟩
    exact ⟨(hpins i).1 hunpinned, hlong, fun j hj => hlongest j ((hpins j).2 hj),
      fun j hji hj => hfirst j hji ((hpins j).2 hj)⟩
  · rintro ⟨hunused, hlong, hlongest, hfirst⟩
    exact ⟨(hpins i).2 hunused, hlong, fun j hj => hlongest j ((hpins j).1 hj),
      fun j hji hj => hfirst j hji ((hpins j).1 hj)⟩

end

/-! ## What the others see -/

variable {T : Type}

def Ref.pin (r : Ref T) : Pin T Slot Vmi := ⟨r.thread, r.vmi, r.slot⟩

/-- The steal under way: who picked which slot, for which VM, and has not reassigned it yet. -/
def SmState.picked (s : SmState T) : Option (Ref T) :=
  s.lk.bind fun t => (s.pc t).picked.map fun p => ⟨t, p.1, p.2⟩

/-- The records with the slot that was picked given away. -/
def Records.given (rs : Records) (p : Option (Ref T)) : Cache Slot Vmi Timeval :=
  p.elim rs.cache fun r => PinnedCache.load rs.cache r.slot r.vmi

/-- The requests that have a slot, the one that picked its own included. -/
def pinned (p : Option (Ref T)) (refs : List (Ref T)) : Multiset (Pin T Slot Vmi) := ↑((p.toList ++ refs).map Ref.pin)

/-- The syncmount as a cache that serves each request at once. -/
def SmState.served (s : SmState T) : PinnedCache.State T Slot Vmi Timeval :=
  ⟨s.records.given s.picked, Pc.turn ∘ s.pc, pinned s.picked s.refs⟩

/-- What a step is for the cache: a request is served with the hit of its lookup, with the `try_lock` that succeeds, or
with the pass that ends its search. -/
def SmLabel.effects (s : SmState T) : SmLabel T → List (PinnedCache.Label T Slot Vmi Timeval)
  | .request t v => [.call t v]
  | .release t v i => [.release ⟨t, v, i⟩]
  | .step t now =>
    match s.pc t with
    | .lookup v =>
      match s.records.lookup v with
      | some i => [.serve t now, .answer t v i now]
      | none => []
    | .claiming _ i => if (s.records i).l then [] else [.serve t now]
    | .seeking _ m => if (s.records.victimPass now m).1 < 10000 then [] else [.serve t now]
    | .mounting v i | .remounting v i => [.answer t v i now]
    | .idle | .unmounting _ _ | .reassigning _ _ => []

/-- The answers are what `request_mount` returns. -/
theorem SmLabel.answer_mem_effects [DecidableEq T] {s : SmState T} {t u : T} {v : Vmi} {i : Slot} {now now' : Timeval} :
    .answer u v i now' ∈ (SmLabel.step t now).effects s ↔
      u = t ∧ now' = now ∧ smReturns s (.step t now) = some (v, i) := by
  have hanswer : ∀ {w j}, .answer u v i now' = (.answer t w j now : PinnedCache.Label T Slot Vmi Timeval) ↔
      u = t ∧ now' = now ∧ some (w, j) = some (v, i) := by
    intro w j
    constructor
    · intro h
      cases h
      exact ⟨rfl, rfl, rfl⟩
    · rintro ⟨rfl, rfl, h⟩
      cases h
      rfl
  unfold SmLabel.effects smReturns
  cases hpc : s.pc t with
  | lookup w =>
    cases hl : s.records.lookup w with
    | none => simp [hpc, hl]
    | some j => simpa [hpc, hl] using hanswer
  | claiming w j => by_cases hl : (s.records j).l = true <;> simp [hpc, hl]
  | seeking w m => by_cases hshort : (s.records.victimPass now m).1 < 10000 <;> simp [hpc, hshort]
  | mounting w j | remounting w j => simpa [hpc] using hanswer
  | _ => simp [hpc]

section

variable {rs : Records} {p : Option (Ref T)} {refs : List (Ref T)} {r : Ref T} {i : Slot} {now : Timeval}

theorem Records.given_remount (h : 0 ≤ rs.refcount i) (hp : ∀ r, p = some r → r.slot ≠ i) :
    (rs.remount i now).given p = PinnedCache.stamp (PinnedCache.pin (rs.given p) i) i now := by
  cases p with
  | none => exact cache_remount h
  | some r =>
    show PinnedCache.load (rs.remount i now).cache r.slot r.vmi = _
    rw [cache_remount h, PinnedCache.load_stamp_comm, PinnedCache.load_pin_comm _ (hp r rfl).symm]
    rfl

theorem Records.given_stamp : (rs.stamp i now).given p = PinnedCache.stamp (rs.given p) i now := by
  cases p with
  | none => exact cache_stamp
  | some r =>
    show PinnedCache.load (rs.stamp i now).cache r.slot r.vmi = _
    rw [cache_stamp, PinnedCache.load_stamp_comm]
    rfl

theorem Records.given_release (hp : ∀ r, p = some r → r.slot ≠ i) :
    (rs.release i).given p = PinnedCache.unpin (rs.given p) i := by
  cases p with
  | none => exact cache_release
  | some r =>
    show PinnedCache.load (rs.release i).cache r.slot r.vmi = _
    rw [cache_release, PinnedCache.load_unpin_comm _ (hp r rfl).symm]
    rfl

theorem Records.given_of_ne {j : Slot} (hp : ∀ r, p = some r → r.slot ≠ j) : rs.given p j = rs.cache j := by
  cases p with
  | none => rfl
  | some r => exact Function.update_of_ne (hp r rfl).symm _ _

theorem pinned_cons : pinned p (r :: refs) = r.pin ::ₘ pinned p refs := by
  have hperm : ((p.toList ++ r :: refs).map Ref.pin).Perm (r.pin :: (p.toList ++ refs).map Ref.pin) :=
    List.perm_middle.map Ref.pin
  exact Multiset.coe_eq_coe.2 hperm

theorem pinned_some : pinned (some r) refs = r.pin ::ₘ pinned none refs := rfl

theorem pinned_erase [DecidableEq T] (h : r ∈ refs) : pinned p (refs.erase r) = (pinned p refs).erase r.pin := by
  have hperm : ((p.toList ++ refs).map Ref.pin).Perm ((p.toList ++ r :: refs.erase r).map Ref.pin) :=
    ((List.perm_cons_erase h).append_left _).map Ref.pin
  have hcons : pinned p refs = r.pin ::ₘ pinned p (refs.erase r) := (Multiset.coe_eq_coe.2 hperm).trans pinned_cons
  rw [hcons, Multiset.erase_cons_head]

theorem mem_pinned (h : r ∈ refs) : r.pin ∈ pinned p refs :=
  Multiset.mem_coe.2 (List.mem_map.2 ⟨r, List.mem_append_right _ h, rfl⟩)

end

/-! ## One step -/

section

variable [DecidableEq T]

/-- The slot a step takes for a VM, free or out of use. -/
def SmLabel.takes (s : SmState T) : SmLabel T → Option (Vmi × Slot)
  | .step t now =>
    match s.pc t with
    | .claiming v i => if (s.records i).l then none else some (v, i)
    | .seeking v m =>
      if (s.records.victimPass now m).1 < 10000 then none else some (v, (s.records.victimPass now m).2)
    | .idle | .lookup _ | .mounting _ _ | .unmounting _ _ | .reassigning _ _ | .remounting _ _ => none
  | .request _ _ | .release _ _ _ => none

/-- A slot is taken for a VM only where no other slot is of that VM. -/
def GivenAlone (_ : List (SmLabel T)) (s : SmState T) (l : SmLabel T) : Prop :=
  ∀ v i, l.takes s = some (v, i) → ∀ j, j ≠ i → s.records.owner j ≠ some v

variable {s s' : SmState T} {l : SmLabel T} {t : T} {p : Pc}

omit [DecidableEq T] in
theorem SmState.picked_some {r : Ref T} (h : s.picked = some r) :
    s.lk = some r.thread ∧ (s.pc r.thread).picked = some (r.vmi, r.slot) := by
  obtain ⟨t, hlk, ht⟩ := Option.bind_eq_some_iff.1 h
  obtain ⟨⟨v, i⟩, hp, rfl⟩ := Option.map_eq_some_iff.1 ht
  exact ⟨hlk, hp⟩

omit [DecidableEq T] in
theorem SmState.picked_of_holder {v : Vmi} {i : Slot} (hlk : s.lk = some t) (hp : (s.pc t).picked = some (v, i)) :
    s.picked = some ⟨t, v, i⟩ := by
  unfold SmState.picked
  rw [hlk, Option.bind_some, hp]
  rfl

/-- A thread that moves with nothing to say of a pick leaves the pick as it was. -/
theorem SmState.picked_goto {rs : Records} {refs : List (Ref T)} {nbd : Slot → Option Vmi}
    (hp : p.picked = (s.pc t).picked) :
    ({ s with records := rs, refs := refs, nbd := nbd }.goto t p).picked = s.picked := by
  show (s.lk.bind fun u => (Function.update s.pc t p u).picked.map fun q => (⟨u, q.1, q.2⟩ : Ref T)) = _
  have hsame : ∀ u, (Function.update s.pc t p u).picked = (s.pc u).picked := by
    intro u
    by_cases hut : u = t
    · rw [hut, Function.update_self, hp]
    · rw [Function.update_of_ne hut]
  simp only [hsame]
  rfl

theorem SmState.served_goto {rs : Records} {refs : List (Ref T)} {nbd : Slot → Option Vmi} {lk : Option T}
    {q : Option (Ref T)} (hq : ({ s with records := rs, refs := refs, nbd := nbd, lk := lk }.goto t p).picked = q) :
    ({ s with records := rs, refs := refs, nbd := nbd, lk := lk }.goto t p).served =
      ⟨rs.given q, Function.update (Pc.turn ∘ s.pc) t p.turn, pinned q refs⟩ := by
  rw [← hq, ← Function.comp_update]
  rfl

/-- A move that the others do not see. -/
theorem SmState.served_silent {nbd : Slot → Option Vmi} (hp : p.picked = (s.pc t).picked)
    (hturn : p.turn = (s.pc t).turn) : ({ s with nbd := nbd }.goto t p).served = s.served := by
  have hserved : ({ s with nbd := nbd }.goto t p).served =
      ⟨s.records.given s.picked, Function.update (Pc.turn ∘ s.pc) t p.turn, pinned s.picked s.refs⟩ :=
    SmState.served_goto (SmState.picked_goto hp)
  have hturns : Function.update (Pc.turn ∘ s.pc) t p.turn = Pc.turn ∘ s.pc := by
    rw [hturn]
    exact Function.update_eq_self t (Pc.turn ∘ s.pc)
  rw [hserved, hturns]
  rfl

omit [DecidableEq T] in
theorem Safe.refcount_nonneg (h : Safe s) (i : Slot) : 0 ≤ s.records.refcount i := by
  rw [h.counted.count]
  exact Int.natCast_nonneg _

omit [DecidableEq T] in
theorem Safe.picked_unlocked (h : Safe s) {i : Slot} (hl : (s.records i).l = false) : s.picked = none := by
  refine Option.eq_none_iff_forall_ne_some.2 fun r hr => ?_
  obtain ⟨-, hp⟩ := SmState.picked_some hr
  have hsteal := (Pc.of_victim (Pc.victim_of_picked hp)).1
  rw [(h.inOrder r.thread).steady.all_locked hsteal i] at hl
  cases hl

/-! ### What each step makes of the cache -/

section

variable {now : Timeval} {v : Vmi} {i : Slot}

omit [DecidableEq T] in
theorem SmState.served_cache (h : s.picked = none) : s.served.cache = s.records.cache := by
  unfold SmState.served
  rw [h]
  rfl

omit [DecidableEq T] in
theorem SmState.not_picked (h : s.lk = none) : s.picked = none := by
  unfold SmState.picked
  rw [h]
  rfl

theorem SmState.served_hit (hpc : s.pc t = .lookup v) :
    ({ s with records := s.records.remount i now, refs := ⟨t, v, i⟩ :: s.refs }.goto t .idle).served =
      ⟨(s.records.remount i now).given s.picked, Function.update s.served.turn t .out,
        ⟨t, v, i⟩ ::ₘ s.served.held⟩ := by
  rw [SmState.served_goto (SmState.picked_goto (by rw [hpc]; rfl)), pinned_cons]
  rfl

theorem SmState.served_claim (hpc : s.pc t = .claiming v i) (hpicked : s.picked = none) :
    ({ s with records := s.records.claim i v, refs := ⟨t, v, i⟩ :: s.refs }.goto t (.mounting v i)).served =
      ⟨PinnedCache.load s.served.cache i v, Function.update s.served.turn t (.served v i),
        ⟨t, v, i⟩ ::ₘ s.served.held⟩ := by
  rw [SmState.served_goto (SmState.picked_goto (by rw [hpc]; rfl)), pinned_cons, SmState.served_cache hpicked, hpicked]
  unfold SmState.served
  rw [hpicked]
  exact congrArg (fun c => PinnedCache.State.mk c _ _) Records.cache_claim

theorem SmState.served_pick (hlk : s.lk = none) :
    ({ s with lk := some t }.goto t (.unmounting v i)).served =
      ⟨PinnedCache.load s.served.cache i v, Function.update s.served.turn t (.served v i),
        ⟨t, v, i⟩ ::ₘ s.served.held⟩ := by
  have hpicks : ({ s with lk := some t }.goto t (.unmounting v i)).picked = some ⟨t, v, i⟩ :=
    SmState.picked_of_holder rfl (congrArg Pc.picked (Function.update_self t _ s.pc))
  rw [SmState.served_goto hpicks, pinned_some]
  unfold SmState.served
  rw [SmState.not_picked hlk]
  rfl

/-- A reassignment only makes the records say what was settled with the pick. -/
theorem SmState.served_reassign (hpc : s.pc t = .reassigning v i) (hlk : s.lk = some t) :
    ({ s with records := s.records.reassign i v, refs := ⟨t, v, i⟩ :: s.refs }.goto t (.remounting v i)).served =
      s.served := by
  have hpicked : s.picked = some ⟨t, v, i⟩ := SmState.picked_of_holder hlk (by rw [hpc]; rfl)
  have hpicks : ({ s with records := s.records.reassign i v, refs := ⟨t, v, i⟩ :: s.refs }.goto t
      (.remounting v i)).picked = none := by
    show (s.lk.bind fun u => (Function.update s.pc t (.remounting v i) u).picked.map _) = none
    rw [hlk, Option.bind_some, Function.update_self]
    rfl
  have hturns : Function.update (Pc.turn ∘ s.pc) t (.served v i) = Pc.turn ∘ s.pc := by
    rw [show Turn.served v i = (s.pc t).turn by rw [hpc]; rfl]
    exact Function.update_eq_self t (Pc.turn ∘ s.pc)
  rw [SmState.served_goto hpicks]
  unfold SmState.served
  rw [hpicked, pinned_cons, pinned_some]
  show PinnedCache.State.mk (s.records.reassign i v).cache (Function.update (Pc.turn ∘ s.pc) t (.served v i)) _ = _
  rw [Records.cache_reassign, hturns]
  rfl

theorem SmState.served_mount (hpc : s.pc t = .mounting v i) :
    ({ s with records := s.records.stamp i now, nbd := Function.update s.nbd i (some v) }.goto t .idle).served =
      ⟨PinnedCache.stamp s.served.cache i now, Function.update s.served.turn t .out, s.served.held⟩ := by
  rw [SmState.served_goto (SmState.picked_goto (by rw [hpc]; rfl)), Records.given_stamp]
  rfl

theorem SmState.served_remount (hpc : s.pc t = .remounting v i) (hlk : s.lk = some t) :
    ({ s with
      records := s.records.stamp i now
      nbd := Function.update s.nbd i (some v)
      lk := none }.goto t .idle).served =
      ⟨PinnedCache.stamp s.served.cache i now, Function.update s.served.turn t .out, s.served.held⟩ := by
  have hpicked : s.picked = none := by
    unfold SmState.picked
    rw [hlk, Option.bind_some, hpc]
    rfl
  rw [SmState.served_goto (q := none) rfl, Records.given_stamp]
  unfold SmState.served
  rw [hpicked]
  rfl

theorem SmState.served_release (hmem : ⟨t, v, i⟩ ∈ s.refs) (hne : ∀ r, s.picked = some r → r.slot ≠ i) :
    SmState.served { s with records := s.records.release i, refs := s.refs.erase ⟨t, v, i⟩ } =
      ⟨PinnedCache.unpin s.served.cache i, s.served.turn, s.served.held.erase ⟨t, v, i⟩⟩ := by
  show PinnedCache.State.mk ((s.records.release i).given s.picked) _ (pinned s.picked (s.refs.erase ⟨t, v, i⟩)) = _
  rw [Records.given_release hne, pinned_erase hmem]
  rfl

omit [DecidableEq T] in
/-- A slot that was picked is nobody else's: no lookup has hit it, and no request holds it. -/
theorem Safe.picked_free (h : Safe s) {r : Ref T} (hr : s.picked = some r) :
    (s.pc r.thread).victim = some r.slot ∧ s.records.refcount r.slot = 0 := by
  have hvictim := Pc.victim_of_picked (SmState.picked_some hr).2
  exact ⟨hvictim, (h.inOrder r.thread).victim r.slot hvictim⟩

omit [DecidableEq T] in
/-- The search of a thread that ends, ends at the slot the cache would evict. -/
theorem Safe.pick_oldest (h : Safe s) {m : Int × Slot} (hpc : s.pc t = .seeking v m)
    (hlong : ¬ (s.records.victimPass now m).1 < 10000) :
    s.records.LongestIdle now (s.records.victimPass now m).2 ∧ ∀ j : Slot, (s.records j).l = true := by
  have ht := h.inOrder t
  rw [hpc] at ht
  exact ⟨Records.victimPass_longest (ht.unlucky v m rfl) hlong, fun j => ht.tried j j.isLt⟩

end

/-! ### The simulation -/

omit [DecidableEq T] in
/-- A thread that takes a free slot is served as by the cache. -/
theorem Safe.serves_claim (h : Safe s) (howned : TakenOwned s.records) {now : Timeval} {v : Vmi} {i : Slot}
    (hpc : s.pc t = .claiming v i) (hl : (s.records i).l = false) (hgone : ∀ j, j ≠ i → s.records.owner j ≠ some v) :
    PinnedCache.Serves timevalDiff 10000 s.served.cache now v i (PinnedCache.load s.served.cache i v) := by
  have hfree : s.records.owner i = none := h.counted.unlocked i hl
  rw [SmState.served_cache (h.picked_unlocked hl)]
  refine .fill (fun j hj => ?_) hfree fun j hji => ?_
  · have hji : j ≠ i := fun e => by
      rw [e] at hj
      exact absurd (hfree.symm.trans hj) (Option.some_ne_none v).symm
    exact hgone j hji hj
  · -- The slots before this one were locked when the thread tried them.
    have htried := (h.inOrder t).tried
    rw [hpc] at htried
    exact howned j (htried j hji)

omit [DecidableEq T] in
/-- A thread that picks a slot is served as by the cache. -/
theorem Safe.serves_pick (h : Safe s) (howned : TakenOwned s.records) {now : Timeval} {v : Vmi} {m : Int × Slot}
    {i : Slot} (hpc : s.pc t = .seeking v m) (hlk : s.lk = none) (hlong : ¬ (s.records.victimPass now m).1 < 10000)
    (hi : (s.records.victimPass now m).2 = i) (hgone : ∀ j, j ≠ i → s.records.owner j ≠ some v) :
    PinnedCache.Serves timevalDiff 10000 s.served.cache now v i (PinnedCache.load s.served.cache i v) := by
  obtain ⟨holdest, hlocked⟩ := h.pick_oldest hpc hlong
  rw [hi] at holdest
  rw [SmState.served_cache (SmState.not_picked hlk)]
  by_cases howner : s.records.owner i = some v
  · -- Since the lookup another thread has filled this slot for the same VM: it is as if the lookup had hit.
    rw [PinnedCache.load_eq_pin (c := s.records.cache) v howner (congrArg Int.toNat holdest.unused)]
    exact .hit howner
  · refine .evict (fun j hj => ?_) (fun j => howned j (hlocked j)) ((Records.oldest_iff h.refcount_nonneg).2 holdest)
    by_cases hji : j = i
    · rw [hji] at hj
      exact howner hj
    · exact hgone j hji hj

/-- **A step in its conditions is what it is for the cache.** -/
theorem Safe.serves (h : Safe s) (howned : TakenOwned s.records) (hund : Undisturbed [] s l)
    (hgiven : GivenAlone [] s l) (hs : smStep s l = some s') :
    Run (PinnedCache.Step timevalDiff 10000) s.served (l.effects s) s'.served := by
  have hturn : ∀ {t p}, s.pc t = p → s.served.turn t = p.turn := fun hpc => congrArg Pc.turn hpc
  have hsilent : ∀ {t now nbd p q}, s.pc t = p → q.picked = p.picked → q.turn = p.turn →
      (SmLabel.step t now).effects s = [] → Run (PinnedCache.Step timevalDiff 10000) s.served
        ((SmLabel.step t now).effects s) ({ s with nbd := nbd }.goto t q).served := by
    intro t now nbd p q hpc hpicked hq hnone
    rw [SmState.served_silent (by rw [hpc, hpicked]) (by rw [hpc, hq]), hnone]
    exact .nil
  cases smStep_cases hs with
  | request t v hpc =>
    have hserved : (s.goto t (.lookup v)).served =
        ⟨s.served.cache, Function.update s.served.turn t (.called v), s.served.held⟩ :=
      SmState.served_goto (SmState.picked_goto (by rw [hpc]; rfl))
    rw [hserved]
    exact .single (.call t v (hturn hpc))
  | hit t now v i hpc hl hcan =>
    have hne : ∀ r, s.picked = some r → r.slot ≠ i := fun r hr hri =>
      hund v i hpc hl r.thread (hri ▸ (h.picked_free hr).1)
    have hkey : (s.served.cache i).key = some v := by
      show (s.records.given s.picked i).key = some v
      rw [Records.given_of_ne hne]
      exact Records.lookup_some hl
    have hturns : Function.update s.served.turn t .out =
        Function.update (Function.update s.served.turn t (.served v i)) t .out := (Function.update_idem _ _ _).symm
    have heffects : (SmLabel.step t now).effects s = [.serve t now, .answer t v i now] := by
      simp only [SmLabel.effects, hpc, hl]
    rw [SmState.served_hit hpc, Records.given_remount (h.refcount_nonneg i) hne, hturns, heffects]
    exact .snoc (.single (.serve t now v i _ (hturn hpc) (.hit hkey)))
      (.answer t v i now (Function.update_self _ _ _))
  | miss t now v hpc hl => exact hsilent hpc rfl rfl (by simp only [SmLabel.effects, hpc, hl])
  | taken t now v i hpc hl =>
    obtain ⟨hafter, hpicked⟩ := Pc.afterTaken_turn v i
    exact hsilent hpc hpicked hafter (by simp only [SmLabel.effects, hpc, if_pos hl])
  | claim t now v i hpc hl =>
    have hl' : ¬ (s.records i).l = true := Bool.eq_false_iff.1 hl
    have hgone := hgiven v i (by simp only [SmLabel.takes, hpc, if_neg hl'])
    have heffects : (SmLabel.step t now).effects s = [.serve t now] := by
      simp only [SmLabel.effects, hpc, if_neg hl']
    rw [SmState.served_claim hpc (h.picked_unlocked hl), heffects]
    exact .single (.serve t now v i _ (hturn hpc) (h.serves_claim howned hpc hl hgone))
  | mount t now v i hpc =>
    have heffects : (SmLabel.step t now).effects s = [.answer t v i now] := by
      simp only [SmLabel.effects, hpc]
    rw [SmState.served_mount hpc, heffects]
    exact .single (.answer t v i now (hturn hpc))
  | unlucky t now v m hpc hlk hshort =>
    exact hsilent hpc rfl rfl (by simp only [SmLabel.effects, hpc, if_pos hshort])
  | pick t now v m hpc hlk hlong =>
    have hgone := hgiven v (s.records.victimPass now m).2 (by simp only [SmLabel.takes, hpc, if_neg hlong])
    have heffects : (SmLabel.step t now).effects s = [.serve t now] := by
      simp only [SmLabel.effects, hpc, if_neg hlong]
    rw [SmState.served_pick hlk, heffects]
    exact .single (.serve t now v _ _ (hturn hpc) (h.serves_pick howned hpc hlk hlong rfl hgone))
  | unmount t now v i hpc => exact hsilent hpc rfl rfl (by simp only [SmLabel.effects, hpc])
  | reassign t now v i hpc =>
    have heffects : (SmLabel.step t now).effects s = [] := by
      simp only [SmLabel.effects, hpc]
    rw [SmState.served_reassign hpc ((h.inOrder t).holder (by rw [hpc]; rfl)), heffects]
    exact .nil
  | remount t now v i hpc =>
    have heffects : (SmLabel.step t now).effects s = [.answer t v i now] := by
      simp only [SmLabel.effects, hpc]
    rw [SmState.served_remount hpc ((h.inOrder t).holder (by rw [hpc]; rfl)), heffects]
    exact .single (.answer t v i now (hturn hpc))
  | release t v i hpc hmem hcan =>
    have hne : ∀ r, s.picked = some r → r.slot ≠ i := fun r hr hri =>
      h.counted.not_mem (h.picked_free hr).2 _ hmem hri.symm
    rw [SmState.served_release hmem hne]
    exact .single (.release ⟨t, v, i⟩ (hturn hpc) (mem_pinned hmem))

/-- A lookup that hits a slot while it is picked would pin it for two requests, and the pick has pinned it for one. -/
theorem Safe.undisturbed_of_sound (h : Safe s) (hs : smStep s l = some s') (hsound : Sound s'.served) :
    Undisturbed [] s l := by
  cases l with
  | request t v => trivial
  | release t v i => trivial
  | step t now =>
    intro v i hpc hl u hvictim
    obtain ⟨w, hw⟩ := Pc.picked_of_victim hvictim
    have hpicked : s.picked = some ⟨u, w, i⟩ :=
      SmState.picked_of_holder ((h.inOrder u).holder (Pc.of_victim hvictim).1) hw
    change smNext s t now (s.pc t) = some s' at hs
    rw [hpc] at hs
    simp only [smNext, hl] at hs
    split at hs
    · cases hs
      have hcount := hsound.counted i
      rw [SmState.served_hit hpc, hpicked] at hcount
      have hpins : ((s.records.remount i now).given (some ⟨u, w, i⟩) i).pins = 1 := by
        show (PinnedCache.load (s.records.remount i now).cache i w i).pins = 1
        rw [PinnedCache.load, Function.update_self]
      have hheld : s.served.held = (⟨u, w, i⟩ : Ref T).pin ::ₘ pinned none s.refs := by
        show pinned s.picked s.refs = _
        rw [hpicked]
        exact pinned_some
      rw [hheld] at hcount
      change ((s.records.remount i now).given (some ⟨u, w, i⟩) i).pins = _ at hcount
      dsimp only at hcount
      have hplace : (Ref.pin (⟨u, w, i⟩ : Ref T)).place = i := rfl
      rw [hpins, Multiset.countP_cons, Multiset.countP_cons, if_pos rfl, if_pos hplace] at hcount
      omega
    · cases hs

/-- A second slot for a VM would be a second place for a key. -/
theorem Safe.givenAlone_of_sound (h : Safe s) (hs : smStep s l = some s') (hsound : Sound s'.served) :
    GivenAlone [] s l := by
  intro v i htakes j hji howner
  -- The cache after the step has the key at both places.
  have hload : s'.served.cache = PinnedCache.load s.records.cache i v := by
    cases smStep_cases hs with
    | claim t now w m hpc hl =>
      simp only [SmLabel.takes, hpc, hl] at htakes
      cases htakes
      rw [SmState.served_claim hpc (h.picked_unlocked hl), SmState.served_cache (h.picked_unlocked hl)]
    | pick t now w m hpc hlk hlong =>
      simp only [SmLabel.takes, hpc, if_neg hlong] at htakes
      cases htakes
      rw [SmState.served_pick hlk, SmState.served_cache (SmState.not_picked hlk)]
    | unlucky t now w m hpc hlk hshort => simp [SmLabel.takes, hpc, hshort] at htakes
    | taken t now w m hpc hl => simp [SmLabel.takes, hpc, hl] at htakes
    | request t w hpc => cases htakes
    | release t w m hpc hmem hcan => cases htakes
    | hit t now w m hpc hl hcan => simp [SmLabel.takes, hpc] at htakes
    | miss t now w hpc hl => simp [SmLabel.takes, hpc] at htakes
    | mount t now w m hpc => simp [SmLabel.takes, hpc] at htakes
    | unmount t now w m hpc => simp [SmLabel.takes, hpc] at htakes
    | reassign t now w m hpc => simp [SmLabel.takes, hpc] at htakes
    | remount t now w m hpc => simp [SmLabel.takes, hpc] at htakes
  refine hji (hsound.apart j i v ?_ ?_)
  · rw [hload, PinnedCache.load, Function.update_of_ne hji]
    exact howner
  · rw [hload, PinnedCache.load, Function.update_self]

end

/-! ## Runs -/

section

variable [DecidableEq T]

/-- What the steps of the run are for the cache, is a run of the cache to this state. -/
def Linearized (clock : Slot → Timeval) (ls : List (SmLabel T)) (s : SmState T) : Prop :=
  Run (PinnedCache.Step timevalDiff 10000) (.init clock)
    (history smStep (fun s l => l.effects s) (SmState.init clock) ls) s.served

theorem linearized_init (clock : Slot → Timeval) : Linearized clock [] (SmState.init clock : SmState T) :=
  show Run (PinnedCache.Step timevalDiff 10000) (.init clock) [] (.init clock) from .nil

/-- **One more step** goes on being a run of the cache exactly where it meets the two conditions. -/
theorem linearized_snoc_iff {clock : Slot → Timeval} {p : List (SmLabel T)} {s s' : SmState T} {l : SmLabel T}
    (hr : Run (stepOf smStep) (SmState.init clock) p s) (hsafe : Safe s) (howned : TakenOwned s.records)
    (hlin : Linearized clock p s) (hs : smStep s l = some s') :
    Linearized clock (p ++ [l]) s' ↔ Undisturbed p s l ∧ GivenAlone p s l := by
  constructor
  · intro hlin'
    have hsound := PinnedCache.sound_run hlin'
    exact ⟨hsafe.undisturbed_of_sound hs hsound, hsafe.givenAlone_of_sound hs hsound⟩
  · rintro ⟨hund, hgiven⟩
    unfold Linearized
    rw [history_snoc hr hs]
    exact run_append_iff.2 ⟨_, hlin, hsafe.serves howned hund hgiven hs⟩

/-- **Requests take effect at once**, throughout a run of any threads, exactly where each of its steps meets the two
conditions. -/
theorem linearized_iff (clock : Slot → Timeval) {ls : List (SmLabel T)} {s : SmState T}
    (hrun : Run (stepOf smStep) (SmState.init clock) ls s) :
    Throughout (stepOf smStep) (SmState.init clock) (Linearized clock) ls ↔
      EachStep (stepOf smStep) (SmState.init clock) (fun p s l => Undisturbed p s l ∧ GivenAlone p s l) ls := by
  refine throughout_iff_eachStep (D := fun _ _ => True)
    (I := fun p s => Run (stepOf smStep) (SmState.init clock) p s ∧ Safe s ∧ TakenOwned s.records)
    ⟨.nil, safe_init clock, fun i hi => absurd hi Bool.false_ne_true⟩ (linearized_init clock) ?_ ?_
    (fun _ _ _ => trivial) hrun
  · rintro p s l s' ⟨hr, hsafe, howned⟩ - ⟨hund, -⟩ hs
    exact ⟨.snoc hr hs, hsafe.step hund hs, howned.step hs⟩
  · rintro p s l s' ⟨hr, hsafe, howned⟩ hlin - hs
    exact linearized_snoc_iff hr hsafe howned hlin hs

/-- Of two requests for VM 1 that both miss, the second takes a slot for it while the first has one. -/
theorem linearized_iff_both : ∃ s, Run (stepOf smStep) (SmState.init fun _ => ⟨0, 0⟩) bothMiss s ∧
    ¬ Throughout (stepOf smStep) (SmState.init fun _ => ⟨0, 0⟩) (Linearized fun _ => ⟨0, 0⟩) bothMiss := by
  obtain ⟨s, hrun⟩ := exists_run (show (exec smStep (SmState.init fun _ => ⟨0, 0⟩) bothMiss).isSome = true by decide)
  obtain ⟨u, hu, hfound⟩ := Option.map_eq_some_iff.1 (show (exec smStep (SmState.init fun _ => ⟨0, 0⟩)
    (bothMiss.take 6)).map (fun u => ((SmLabel.step 1 ⟨0, 0⟩).takes u, u.records.owner 0)) =
      some (some (1, 1), some 1) by decide)
  obtain ⟨htakes, howner⟩ := Prod.mk.inj hfound
  refine ⟨s, hrun, fun h => ?_⟩
  have hprefix : bothMiss.take 6 ++ [.step 1 ⟨0, 0⟩] <+: bothMiss := ⟨[.step 0 ⟨0, 0⟩, .step 1 ⟨0, 0⟩], rfl⟩
  have hgiven := ((linearized_iff _ hrun).1 h _ _ u hprefix (run_of_exec hu)).2
  exact hgiven 1 1 htakes 0 (by decide) howner

omit [DecidableEq T] in
/-- A VM that a thread seeks is in no record. -/
theorem Seeking.givenAlone {s : SmState T} (h : Seeking s) (l : SmLabel T) : GivenAlone [] s l := by
  intro v i htakes j _
  cases l with
  | request t w => cases htakes
  | release t w m => cases htakes
  | step t now =>
    refine h.missing t v ?_ j
    unfold SmLabel.takes at htakes
    cases hpc : s.pc t with
    | claiming w m =>
      simp only [hpc] at htakes
      split at htakes <;> cases htakes
      rfl
    | seeking w m =>
      simp only [hpc] at htakes
      split at htakes <;> cases htakes
      rfl
    | _ =>
      simp only [hpc] at htakes
      cases htakes

/-- **Two conditions on lookups are enough**: none hits a slot that a thread has picked, and none misses while another
thread seeks the VM. -/
theorem linearized_of_lookups (clock : Slot → Timeval) {ls : List (SmLabel T)}
    (hund : EachStep (stepOf smStep) (SmState.init clock) Undisturbed ls)
    (happ : EachStep (stepOf apiStep) (SmState.init clock) MissesApart (ls.map .sm)) :
    Throughout (stepOf smStep) (SmState.init clock) (Linearized clock) ls := by
  have hapart : ∀ {p u}, p <+: ls → Run (stepOf smStep) (SmState.init clock) p u → Seeking u := by
    intro p u hp hr
    obtain ⟨hapi, -⟩ := picks_free_of_matched clock hr
    refine Run.invariant_eachStep (I := fun _ s => Seeking s) (seeking_init clock) ?_ (happ.of_prefix (hp.map _)) hapi
    exact fun _ _ _ _ h ha hs => h.step ha hs
  intro p u hp hr
  have hall : Safe u ∧ TakenOwned u.records ∧ Linearized clock p u := by
    refine Run.invariant_eachStep (C := fun q v l => Run (stepOf smStep) (SmState.init clock) q v ∧ Undisturbed q v l ∧
      GivenAlone q v l) (I := fun q v => Safe v ∧ TakenOwned v.records ∧ Linearized clock q v)
      ⟨safe_init clock, fun i hi => absurd hi Bool.false_ne_true, linearized_init clock⟩ ?_ ?_ hr
    · rintro q v l v' ⟨hsafe, howned, hlin⟩ ⟨hq, hu, hg⟩ hs
      exact ⟨hsafe.step hu hs, howned.step hs, (linearized_snoc_iff hq hsafe howned hlin hs).2 ⟨hu, hg⟩⟩
    · intro q l v hq hv
      have hqls := hq.trans hp
      exact ⟨hv, hund q l v hqls hv, (hapart ((List.prefix_append q [l]).trans hqls) hv).givenAlone l⟩
  exact hall.2.2

end

end Hyperagents
