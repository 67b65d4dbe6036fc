import Hyperagents.NoDeadlock
import Hyperagents.PrintStatus
import Hyperagents.SlotInUse
/-!
# The lock steps refine the request steps

`tlStep` takes one lock, `try_lock` or unlock at a time; `psStep` takes `do_nbd_mount`, `do_nbd_unmount` and a victim
pass in one step, and knows nothing of the VMI lock.  Seen through `TlPc.request` and `TlPc.status`, every step of the
one is a step of the other or none (`tlStep_refines`), so that what is proved of the runs of `psStep` is proved of all
that the locks let happen (`locks_refine`).

A steal is under `lk` in `psStep` from the end of the search to the return; here a thread also has `lk` during a pass,
and for a moment after the mount is done.
-/
namespace Hyperagents

open Runs LockOrder

/-- Where in a request a thread is that has its slot. -/
def MountJob.request (j : MountJob) : Pc := if j.steal then .remounting j.req.vmi j.slot else .mounting j.req.vmi j.slot

def TlPc.request : TlPc → Pc
  | .lookup r => .lookup r.vmi
  | .claiming r i => .claiming r.vmi i
  | .vmi (.flush j) _ | .vmi (.pause j) _ | .connect j | .mount j | .stamp j => j.request
  | .name r => .seeking r.vmi (0, 0)
  | .search r m _ | .sleep r m => .seeking r.vmi m
  | .vmi (.resume r i) _ | .unmount r i | .disconnect r i => .unmounting r.vmi i
  | .reassign r i => .reassigning r.vmi i
  | _ => .idle

def TlPc.status : TlPc → PrintPc
  | .print (.test i) => .before i
  | .print (.tested i) => .holding i
  | .print (.name i) => .after i
  | _ => .out

theorem MountJob.request_inSteal (j : MountJob) : j.request.inSteal = j.steal := by
  unfold MountJob.request
  cases j.steal <;> rfl

/-- A thread that `psStep` has in the steal section holds `lk`. -/
theorem TlPc.underLk_of_inSteal {q : TlPc} (h : q.request.inSteal = true) : q.underLk = true := by
  cases q with
  | vmi k st =>
    cases k with
    | flush j | pause j => exact j.request_inSteal.symm.trans h
    | resume r i => rfl
    | _ => cases h
  | connect j | mount j | stamp j => exact j.request_inSteal.symm.trans h
  | unmount r i | disconnect r i | reassign r i => rfl
  | _ => cases h

theorem TlPc.afterTaken_request (r : MountReq) (i : Slot) :
    (TlPc.afterTaken r i).request = .afterTaken r.vmi i ∧ (TlPc.afterTaken r i).status = .out := by
  unfold TlPc.afterTaken Pc.afterTaken
  split <;> exact ⟨rfl, rfl⟩

theorem StatusPc.after_status (i : Slot) :
    (TlPc.print (.after i)).request = .idle ∧ (TlPc.print (.after i)).status = .after i := by
  unfold StatusPc.after PrintPc.after
  split <;> exact ⟨rfl, rfl⟩

theorem VmiSection.after_request (k : VmiSection) :
    k.after.request = (TlPc.vmi k .unlock).request ∧ k.after.status = .out := by
  cases k <;> exact ⟨rfl, rfl⟩

theorem VmiSection.stage_request (k : VmiSection) (st st' : Stage) :
    (TlPc.vmi k st).request = (TlPc.vmi k st').request := by
  cases k <;> rfl

/-- A thread that holds a mutex to test it is the one that has it locked. -/
def Holding {T : Type} (p : PsState T) : Prop := ∀ t i, p.print t = .holding i → p.held i = some t

theorem PrintPc.after_ne_holding (i j : Slot) : PrintPc.after i ≠ .holding j := by
  unfold PrintPc.after
  split <;> exact nofun

section

variable {T : Type} [DecidableEq T] {p p' : PsState T}

/-- A thread moves, and has nothing locked after it. -/
theorem Holding.goto (h : Holding p) {t : T} {q : PrintPc} {held : Slot → Option T} (hq : ∀ i, q ≠ .holding i)
    (hheld : ∀ u i, u ≠ t → p.held i = some u → held i = some u) : Holding ({ p with held := held }.goto t q) := by
  intro u i hu
  change Function.update p.print t q u = .holding i at hu
  by_cases hut : u = t
  · rw [hut, Function.update_self] at hu
    exact absurd hu (hq i)
  · rw [Function.update_of_ne hut] at hu
    exact hheld u i hut (h u i hu)

theorem Holding.step (h : Holding p) {l : PsLabel T} (hs : psStep p l = some p') : Holding p' := by
  cases l with
  | call m => rcases psStep_call hs with ⟨v, i, -, -, rfl⟩ | ⟨-, sm, -, rfl⟩ <;> exact h
  | enter t =>
    simp only [psStep] at hs
    split at hs <;> cases hs
    exact h.goto (fun _ e => by cases e) fun _ _ _ hu => hu
  | tryLock t =>
    simp only [psStep] at hs
    split at hs
    · rename_i i hp
      split at hs
      · cases hs
        exact h.goto (PrintPc.after_ne_holding i) fun _ _ _ hu => hu
      · rename_i hfree
        cases hs
        have hnone : p.held i = none := by
          rw [Bool.not_eq_true, Bool.or_eq_false_iff] at hfree
          exact Option.isNone_iff_eq_none.1 (Option.isSome_eq_false_iff.1 hfree.2)
        intro u j hu
        change Function.update p.print t (.holding i) u = .holding j at hu
        show Function.update p.held i (some t) j = some u
        by_cases hut : u = t
        · rw [hut, Function.update_self] at hu
          cases hu
          rw [hut, Function.update_self]
        · rw [Function.update_of_ne hut] at hu
          have hheld := h u j hu
          have hji : j ≠ i := fun e => by
            rw [e, hnone] at hheld
            cases hheld
          rw [Function.update_of_ne hji]
          exact hheld
    · cases hs
    · cases hs
  | unlock t =>
    simp only [psStep] at hs
    split at hs
    · rename_i i hp
      cases hs
      refine h.goto (PrintPc.after_ne_holding i) fun u j hut hu => ?_
      have hji : j ≠ i := fun e => by
        rw [e, h t i hp] at hu
        exact hut (Option.some.inj hu).symm
      rw [Function.update_of_ne hji]
      exact hu
    · cases hs
    · cases hs

theorem holding_run {clock : Slot → Timeval} {ls : List (PsLabel T)}
    (hrun : Run (stepOf psStep) (PsState.init clock) ls p) : Holding p :=
  hrun.invariant (P := fun _ s => Holding s) (fun t i hi => by cases hi) fun _ _ _ _ _ h hs => h.step hs

end

/-! ## The relation -/

section

variable {T : Type}

structure Refines (s : TlState T) (p : PsState T) : Prop where
  records : p.sm.records = s.records
  pc : ∀ t, p.sm.pc t = (s.pc t).request
  print : ∀ t, p.print t = (s.pc t).status
  lk : ∀ t, p.sm.lk = some t ↔ (s.pc t).request.inSteal = true
  /-- A slot's mutex is locked by a request, for good, or by a `print_status`. -/
  slot : ∀ i, s.holder (.slot i) = none ↔ (s.records i).l = false ∧ p.held i = none

theorem refines_init (clock : Slot → Timeval) : Refines (TlState.init clock : TlState T) (PsState.init clock) where
  records := rfl
  pc _ := rfl
  print _ := rfl
  lk _ := iff_of_false nofun nofun
  slot _ := iff_of_true rfl ⟨rfl, rfl⟩

variable [DecidableEq T] {s s' : TlState T} {p : PsState T} {t : T} {q₀ q : TlPc}

/-- One thread goes to `q`, in both. -/
theorem Refines.goto {agents : String → Option HAConfig} {n : Vmi} {rs rs' : Records} {holder : Mutex → Option T}
    {lk : Option T} {refs : List (Ref T)} {nbd : Slot → Option Vmi} {held : Slot → Option T} (h : Refines s p)
    (hrs : rs' = rs) (hlk : ∀ u, lk = some u ↔ (Function.update s.pc t q u).request.inSteal = true)
    (hslot : ∀ i, holder (.slot i) = none ↔ (rs i).l = false ∧ held i = none) :
    Refines ({ s with agents := agents, nextVmi := n, records := rs, holder := holder }.goto t q)
      ({ p with
        sm := { p.sm with records := rs', lk := lk, refs := refs, nbd := nbd }.goto t q.request
        held := held }.goto t q.status) := by
  refine ⟨hrs, fun u => ?_, fun u => ?_, hlk, hslot⟩
  · show Function.update p.sm.pc t q.request u = (Function.update s.pc t q u).request
    by_cases hu : u = t
    · rw [hu, Function.update_self, Function.update_self]
    · rw [Function.update_of_ne hu, Function.update_of_ne hu]
      exact h.pc u
  · show Function.update p.print t q.status u = (Function.update s.pc t q u).status
    by_cases hu : u = t
    · rw [hu, Function.update_self, Function.update_self]
    · rw [Function.update_of_ne hu, Function.update_of_ne hu]
      exact h.print u

/-- A thread that is in no `print_status` before and after. -/
theorem Refines.call {agents : String → Option HAConfig} {n : Vmi} {rs rs' : Records} {holder : Mutex → Option T}
    {lk : Option T} {refs : List (Ref T)} {nbd : Slot → Option Vmi} (h : Refines s p) (hpc : s.pc t = q₀)
    (hst : q.status = q₀.status) (hrs : rs' = rs)
    (hlk : ∀ u, lk = some u ↔ (Function.update s.pc t q u).request.inSteal = true)
    (hslot : ∀ i, holder (.slot i) = none ↔ (rs i).l = false ∧ p.held i = none) :
    Refines ({ s with agents := agents, nextVmi := n, records := rs, holder := holder }.goto t q)
      { p with sm := { p.sm with records := rs', lk := lk, refs := refs, nbd := nbd }.goto t q.request } := by
  have hsame : Function.update p.print t q.status = p.print := by
    rw [hst, ← hpc, ← h.print t, Function.update_eq_self]
  show Refines _ ⟨_, p.held, p.print⟩
  rw [← hsame]
  exact h.goto hrs hlk hslot

/-- A thread that stays in or out of the steal section leaves `lk` as it is. -/
theorem Refines.lk_kept (h : Refines s p) (hpc : s.pc t = q₀) (hq : q.request.inSteal = q₀.request.inSteal) (u : T) :
    p.sm.lk = some u ↔ (Function.update s.pc t q u).request.inSteal = true := by
  rw [h.lk u]
  by_cases hu : u = t
  · rw [hu, Function.update_self, hq, hpc]
  · rw [Function.update_of_ne hu]

omit [DecidableEq T] in
/-- While a thread is in the steal section without a victim, no thread has one. -/
theorem Refines.lk_none (h : Refines s p) (hc : Consistent program s.holder s.pc) (hpc : s.pc t = q)
    (hlk : q.underLk = true) (hout : q.request.inSteal = false) : p.sm.lk = none := by
  subst hpc
  rw [Option.eq_none_iff_forall_ne_some]
  intro u hu
  have hsteal := (h.lk u).1 hu
  have hut : u = t := hc.unique (m := Mutex.lk) (TlPc.underLk_of_inSteal hsteal) hlk
  rw [hut, hout] at hsteal
  cases hsteal

/-- What `psStep` does not see: the VMI lock, `lk` outside the steal section, and the points in between. -/
theorem Refines.silent {agents : String → Option HAConfig} {n : Vmi} {holder : Mutex → Option T} (h : Refines s p)
    (hpc : s.pc t = q₀) (hreq : q.request = q₀.request) (hst : q.status = q₀.status)
    (hslot : ∀ i, holder (.slot i) = s.holder (.slot i)) :
    Refines ({ s with agents := agents, nextVmi := n, holder := holder }.goto t q) p := by
  have hsame : Function.update p.sm.pc t q.request = p.sm.pc := by
    rw [hreq, ← hpc, ← h.pc t, Function.update_eq_self]
  show Refines _ ⟨⟨p.sm.records, p.sm.lk, p.sm.pc, p.sm.refs, p.sm.nbd⟩, p.held, p.print⟩
  rw [← hsame]
  refine h.call hpc hst h.records (h.lk_kept hpc (congrArg Pc.inSteal hreq)) fun i => ?_
  rw [hslot]
  exact h.slot i

omit [DecidableEq T] in
/-- The records keep their locks. -/
theorem Refines.slot_kept (h : Refines s p) {rs : Records} (hl : ∀ i, (rs i).l = (s.records i).l) (i : Slot) :
    s.holder (.slot i) = none ↔ (rs i).l = false ∧ p.held i = none := by
  rw [hl]
  exact h.slot i

/-! ## One step -/

/-- `psStep` takes one step as well. -/
theorem refines_one {p' : PsState T} {m : PsLabel T} (hs : psStep p m = some p') (h : Refines s p') :
    ∃ ms p', Run (stepOf psStep) p ms p' ∧ Refines s p' := by
  have h1 : Run (stepOf psStep) p ([] ++ [m]) p' := .snoc .nil hs
  exact ⟨[m], p', h1, h⟩

theorem refines_none (h : Refines s p) : ∃ ms p', Run (stepOf psStep) p ms p' ∧ Refines s p' := ⟨[], p, .nil, h⟩

/-- A step of a request or a release that tries no mutex. -/
theorem psStep_untried {l : ApiLabel T} {sm : SmState T} (hprint : p.print l.thread = .out) (htry : tries p.sm l = none)
    (hsm : apiStep p.sm l = some sm) : psStep p (.call l) = some { p with sm := sm } := by
  simp only [psStep, hprint, if_true, htry, hsm, Option.map_some]

/-- The thread takes a step of its request, from where it tries no mutex. -/
theorem Refines.next {now : Timeval} {rs rs' : Records} {lk : Option T} {refs : List (Ref T)} {nbd : Slot → Option Vmi}
    (h : Refines s p) (hpc : s.pc t = q₀) (hclaim : ∀ v i, q₀.request ≠ .claiming v i) (hout : q₀.status = .out)
    (hst : q.status = .out) (hsm : smNext p.sm t now q₀.request =
      some ({ p.sm with records := rs', lk := lk, refs := refs, nbd := nbd }.goto t q.request)) (hrs : rs' = rs)
    (hlk : ∀ u, lk = some u ↔ (Function.update s.pc t q u).request.inSteal = true)
    (hslot : ∀ i, s.holder (.slot i) = none ↔ (rs i).l = false ∧ p.held i = none) :
    ∃ ms p', Run (stepOf psStep) p ms p' ∧ Refines ({ s with records := rs }.goto t q) p' := by
  have hpr : p.sm.pc t = q₀.request := by rw [h.pc, hpc]
  have hprint : p.print t = .out := by rw [h.print, hpc, hout]
  have htry : tries p.sm (.sm (.step t now)) = none := by
    simp only [tries, hpr]
    cases hr : q₀.request with
    | claiming v i => exact absurd hr (hclaim v i)
    | _ => rfl
  have hstep := (congrArg (smNext p.sm t now) hpr).trans hsm
  exact refines_one (psStep_untried (l := .sm (.step t now)) hprint htry hstep)
    (h.call hpc (hst.trans hout.symm) hrs hlk hslot)

/-- A `try_lock` succeeds in both, or fails in both. -/
theorem Refines.claiming (h : Refines s p) {r : MountReq} {i : Slot} {now : Timeval} (hpc : s.pc t = .claiming r i)
    (hs : tlNext s t now (.claiming r i) = some s') : ∃ ms p', Run (stepOf psStep) p ms p' ∧ Refines s' p' := by
  have hprint : p.print t = .out := by rw [h.print, hpc]; rfl
  have hpr : p.sm.pc t = .claiming r.vmi i := by rw [h.pc, hpc]; rfl
  have htry : tries p.sm (.sm (.step t now)) = some (r.vmi, i) := by simp only [tries, hpr]
  have hcall : psStep p (.call (.sm (.step t now))) = if (p.held i).isSome then
      some { p with sm := p.sm.goto t (.afterTaken r.vmi i) } else
        (smNext p.sm t now (.claiming r.vmi i)).map fun sm => { p with sm := sm } := by
    rw [← hpr]
    simp only [psStep, ApiLabel.thread, SmLabel.thread, hprint, if_true, htry, apiStep, smStep]
  simp only [tlNext] at hs
  split at hs
  · rename_i hfree
    cases hs
    obtain ⟨hl, hheld⟩ := (h.slot i).1 hfree
    rw [hheld, Option.isSome_none, if_neg Bool.false_ne_true, smNext, h.records, hl, if_neg Bool.false_ne_true] at hcall
    refine refines_one hcall (h.call (q := .vmi (.flush ⟨r, i, false⟩) .lock) hpc rfl rfl (h.lk_kept hpc rfl)
      fun j => ?_)
    rw [Records.l_claim]
    by_cases hji : j = i
    · rw [hji, Function.update_self, if_pos rfl]
      exact iff_of_false (fun e => by cases e) (fun e => by cases e.1)
    · rw [Function.update_of_ne (fun e => hji (Mutex.slot.inj e)), if_neg hji]
      exact h.slot j
  · rename_i hheld
    cases hs
    obtain ⟨hreq, hst⟩ := TlPc.afterTaken_request r i
    have hgoto : Refines (s.goto t (.afterTaken r i)) { p with sm := p.sm.goto t (.afterTaken r.vmi i) } := by
      rw [← hreq]
      refine h.call hpc hst h.records (h.lk_kept hpc ?_) h.slot
      rw [hreq, Pc.afterTaken]
      split <;> rfl
    cases hp : p.held i with
    | some u => exact refines_one (by rw [hcall, hp]; rfl) hgoto
    | none =>
      have hl : (s.records i).l = true := Bool.of_not_eq_false fun hl => hheld ((h.slot i).2 ⟨hl, hp⟩)
      rw [hp, Option.isSome_none, if_neg Bool.false_ne_true, smNext, h.records, if_pos hl] at hcall
      exact refines_one hcall hgoto

/-- A pass under `lk` finds a victim or none. -/
theorem Refines.pass (h : Refines s p) (hc : Consistent program s.holder s.pc) {r : MountReq} {m : Int × Slot}
    {now : Timeval} (hpc : s.pc t = .search r m .body) (hs : tlNext s t now (.search r m .body) = some s') :
    ∃ ms p', Run (stepOf psStep) p ms p' ∧ Refines s' p' := by
  have hlk : p.sm.lk = none := h.lk_none hc hpc rfl rfl
  have hnone : ∀ u, (s.pc u).request.inSteal ≠ true := fun u hu => by
    have := (h.lk u).2 hu
    rw [hlk] at this
    cases this
  simp only [tlNext] at hs
  split at hs
  · rename_i hshort
    cases hs
    have hsm : smNext p.sm t now (.seeking r.vmi m) =
        some (p.sm.goto t (.seeking r.vmi (s.records.victimPass now m))) := by
      simp only [smNext, h.records, hlk, if_true, if_pos hshort]
    exact h.next hpc (fun _ _ e => by cases e) rfl rfl hsm h.records (h.lk_kept hpc rfl) h.slot
  · rename_i hlong
    cases hs
    have hsm : smNext p.sm t now (.seeking r.vmi m) =
        some ({ p.sm with lk := some t }.goto t (.unmounting r.vmi (s.records.victimPass now m).2)) := by
      simp only [smNext, h.records, hlk, if_true, if_neg hlong]
    refine h.next hpc (fun _ _ e => by cases e) rfl rfl hsm h.records (fun u => ?_) h.slot
    by_cases hu : u = t
    · rw [hu, Function.update_self]
      exact iff_of_true rfl rfl
    · rw [Function.update_of_ne hu]
      exact iff_of_false (fun e => hu (Option.some.inj e).symm) (hnone u)

/-- The record is stamped, and a request is done but for `lk`. -/
theorem Refines.stamp (h : Refines s p) {j : MountJob} {now : Timeval} (hpc : s.pc t = .stamp j)
    (hs : tlNext s t now (.stamp j) = some s') : ∃ ms p', Run (stepOf psStep) p ms p' ∧ Refines s' p' := by
  obtain ⟨r, i, steal⟩ := j
  have hrs : p.sm.records.stamp i now = s.records.stamp i now := by rw [h.records]
  have hslot := h.slot_kept fun k => Records.l_stamp s.records i k now
  cases steal with
  | false =>
    cases hs
    exact h.next hpc (fun _ _ e => by cases e) rfl rfl rfl hrs (h.lk_kept hpc rfl) hslot
  | true =>
    cases hs
    have hlk : p.sm.lk = some t := (h.lk t).2 (by rw [hpc]; rfl)
    refine h.next hpc (fun _ _ e => by cases e) rfl rfl rfl hrs (fun u =>
      iff_of_false (fun e => by cases e) fun hu => ?_) hslot
    by_cases hut : u = t
    · rw [hut, Function.update_self] at hu
      cases hu
    · rw [Function.update_of_ne hut] at hu
      exact hut (Option.some.inj (((h.lk u).2 hu).symm.trans hlk))

/-- A lookup hits or misses in both. -/
theorem Refines.lookup (h : Refines s p) {r : MountReq} {now : Timeval} (hpc : s.pc t = .lookup r)
    (hs : tlNext s t now (.lookup r) = some s') : ∃ ms p', Run (stepOf psStep) p ms p' ∧ Refines s' p' := by
  simp only [tlNext] at hs
  cases hl : s.records.lookup r.vmi with
  | some i =>
    rw [hl] at hs
    dsimp only at hs
    split at hs
    · rename_i hcan
      cases hs
      have hsm : smNext p.sm t now (.lookup r.vmi) = some ({ p.sm with
          records := s.records.remount i now, refs := ⟨t, r.vmi, i⟩ :: p.sm.refs }.goto t .idle) := by
        simp only [smNext, h.records, hl, if_pos hcan]
      exact h.next hpc (fun _ _ e => by cases e) rfl rfl hsm rfl (h.lk_kept hpc rfl)
        (h.slot_kept fun j => Records.l_remount s.records i j now)
    · cases hs
  | none =>
    rw [hl] at hs
    cases hs
    have hsm : smNext p.sm t now (.lookup r.vmi) = some (p.sm.goto t (.claiming r.vmi 0)) := by
      simp only [smNext, h.records, hl]
    exact h.next hpc (fun _ _ e => by cases e) rfl rfl hsm h.records (h.lk_kept hpc rfl) h.slot

/-- A release is one of any slot. -/
theorem Refines.drop (h : Refines s p) {dev : Int} {now : Timeval} (hpc : s.pc t = .drop dev)
    (hs : tlNext s t now (.drop dev) = some s') : ∃ ms p', Run (stepOf psStep) p ms p' ∧ Refines s' p' := by
  have hprint : p.print t = .out := by rw [h.print, hpc]; rfl
  have hpr : p.sm.pc t = .idle := by rw [h.pc, hpc]; rfl
  simp only [tlNext] at hs
  split at hs
  · rename_i hdev
    split at hs
    · rename_i hcan
      cases hs
      have hstep : apiStep p.sm (.stray t ⟨dev.toNat, hdev⟩) = some ({ p.sm with
          records := s.records.release ⟨dev.toNat, hdev⟩ }.goto t .idle) := by
        rw [SmState.goto, ← hpr, Function.update_eq_self]
        simp only [apiStep, hpr, h.records, hcan.2, and_self, if_true]
      exact refines_one (psStep_untried (l := .stray t _) hprint rfl hstep) (h.call
        (q := .vmi (.release ⟨dev.toNat, hdev⟩) .lock) hpc rfl rfl (h.lk_kept hpc rfl)
        (h.slot_kept fun j => Records.l_release s.records _ j))
    · cases hs
  · cases hs

/-- A thread moves in `print_status`, in both. -/
theorem Refines.print_goto {holder : Mutex → Option T} {held : Slot → Option T} (h : Refines s p) (hpc : s.pc t = q₀)
    (hreq₀ : q₀.request = .idle) (hreq : q.request = .idle)
    (hslot : ∀ i, holder (.slot i) = none ↔ (s.records i).l = false ∧ held i = none) :
    Refines ({ s with holder := holder }.goto t q) ({ p with held := held }.goto t q.status) := by
  have hsame : Function.update p.sm.pc t q.request = p.sm.pc := by
    rw [hreq, ← hreq₀, ← hpc, ← h.pc t, Function.update_eq_self]
  show Refines _ ⟨⟨p.sm.records, p.sm.lk, p.sm.pc, p.sm.refs, p.sm.nbd⟩, held, _⟩
  rw [← hsame]
  exact h.goto h.records (h.lk_kept hpc (by rw [hreq, hreq₀])) hslot

/-- A test of a slot's mutex. -/
theorem Refines.print_test (h : Refines s p) {i : Slot} {now : Timeval} (hpc : s.pc t = .print (.test i))
    (hs : tlNext s t now (.print (.test i)) = some s') : ∃ ms p', Run (stepOf psStep) p ms p' ∧ Refines s' p' := by
  have hprint : p.print t = .before i := by rw [h.print, hpc]; rfl
  simp only [tlNext] at hs
  split at hs
  · rename_i hfree
    obtain ⟨-, rfl⟩ := TlState.lock_some hs
    obtain ⟨hl, hheld⟩ := (h.slot i).1 hfree
    have hstep : psStep p (.tryLock t) = some ({ p with
        held := Function.update p.held i (some t) }.goto t (.holding i)) := by
      simp only [psStep, hprint, h.records, hl, hheld, Option.isSome_none, Bool.or_false, Bool.false_eq_true, if_false]
    refine refines_one hstep (h.print_goto (q := .print (.tested i)) hpc rfl rfl fun j => ?_)
    by_cases hji : j = i
    · rw [hji, Function.update_self, Function.update_self]
      exact iff_of_false (fun e => by cases e) (fun e => by cases e.2)
    · rw [Function.update_of_ne (fun e => hji (Mutex.slot.inj e)), Function.update_of_ne hji]
      exact h.slot j
  · rename_i hbusy
    cases hs
    have hor : ((s.records i).l || (p.held i).isSome) = true := Bool.of_not_eq_false fun hno => by
      obtain ⟨hl, hheld⟩ := Bool.or_eq_false_iff.1 hno
      exact hbusy ((h.slot i).2 ⟨hl, Option.isNone_iff_eq_none.1 (Option.isSome_eq_false_iff.1 hheld)⟩)
    have hstep : psStep p (.tryLock t) = some (p.goto t (.after i)) := by
      simp only [psStep, hprint, h.records, hor, if_true]
    exact refines_one hstep (h.print_goto (q := .print (.name i)) hpc rfl rfl h.slot)

/-- The mutex a test has locked is nobody's after it. -/
theorem Refines.print_tested (h : Refines s p) (ht : Tested p) (hh : Holding p) {i : Slot} {now : Timeval}
    (hpc : s.pc t = .print (.tested i)) (hs : tlNext s t now (.print (.tested i)) = some s') :
    ∃ ms p', Run (stepOf psStep) p ms p' ∧ Refines s' p' := by
  cases hs
  have hprint : p.print t = .holding i := by rw [h.print, hpc]; rfl
  have hl : (s.records i).l = false := by
    rw [← h.records]
    exact ht i (by rw [hh t i hprint]; rfl)
  have hstep : psStep p (.unlock t) = some ({ p with held := Function.update p.held i none }.goto t (.after i)) := by
    simp only [psStep, hprint]
  refine refines_one hstep (h.print_goto (q := .print (.name i)) hpc rfl rfl fun j => ?_)
  by_cases hji : j = i
  · rw [hji, Function.update_self, Function.update_self]
    exact iff_of_true rfl ⟨hl, rfl⟩
  · rw [Function.update_of_ne (fun e => hji (Mutex.slot.inj e)), Function.update_of_ne hji]
    exact h.slot j

theorem Refines.print_step (h : Refines s p) (ht : Tested p) (hh : Holding p) {st : StatusPc} {now : Timeval}
    (hpc : s.pc t = .print st) (hs : tlNext s t now (.print st) = some s') :
    ∃ ms p', Run (stepOf psStep) p ms p' ∧ Refines s' p' := by
  cases st with
  | lock =>
    obtain ⟨-, rfl⟩ := TlState.lock_some (p := .print (.test 0)) hs
    have hpr : p.sm.pc t = .idle := by rw [h.pc, hpc]; rfl
    have hprint : p.print t = .out := by rw [h.print, hpc]; rfl
    exact refines_one (m := .enter t) (if_pos ⟨hpr, hprint⟩) (h.print_goto (q := .print (.test 0)) hpc rfl rfl h.slot)
  | test i => exact h.print_test hpc hs
  | tested i => exact h.print_tested ht hh hpc hs
  | name i =>
    cases hs
    obtain ⟨hreq, hst⟩ := StatusPc.after_status i
    exact refines_none (h.silent hpc hreq hst fun _ => rfl)
  | unlock =>
    cases hs
    exact refines_none (h.silent (q := .idle) hpc rfl rfl fun _ => rfl)

/-- **A step of a thread inside a call** is a step of `psStep`, or none. -/
theorem tlNext_refines (h : Refines s p) (ht : Tested p) (hh : Holding p) (hc : Consistent program s.holder s.pc)
    {now : Timeval} (hpc : s.pc t = q) (hs : tlNext s t now q = some s') :
    ∃ ms p', Run (stepOf psStep) p ms p' ∧ Refines s' p' := by
  cases q with
  | idle => cases hs
  | vmi k st =>
    cases st with
    | lock =>
      obtain ⟨-, rfl⟩ := TlState.lock_some (p := .vmi k .body) (m := .vmi) (by cases k <;> exact hs)
      exact refines_none (h.silent hpc (k.stage_request _ _) rfl fun _ => rfl)
    | body =>
      cases k with
      | release i =>
        simp only [tlNext] at hs
        split at hs
        · cases hs
        · cases hs
          exact refines_none (h.silent hpc rfl rfl fun _ => rfl)
      | _ =>
        cases hs
        exact refines_none (h.silent hpc rfl rfl fun _ => rfl)
    | unlock =>
      obtain ⟨hreq, hst⟩ := k.after_request
      obtain rfl : s.unlock .vmi t k.after = s' := Option.some.inj (by cases k <;> exact hs)
      exact refines_none (h.silent hpc hreq hst fun _ => rfl)
  | register _ | connect _ | mount _ | name _ | sleep _ _ | unmount _ _ | leave _ _ =>
    cases hs
    exact refines_none (h.silent hpc rfl rfl fun _ => rfl)
  | setDev n i =>
    obtain ⟨ha, -, rfl⟩ := Option.map_eq_some_iff.1 hs
    exact refines_none (h.silent hpc rfl rfl fun _ => rfl)
  | lookup r => exact h.lookup hpc hs
  | claiming r i => exact h.claiming hpc hs
  | stamp j => exact h.stamp hpc hs
  | search r m st =>
    cases st with
    | lock =>
      obtain ⟨-, rfl⟩ := TlState.lock_some (p := .search r m .body) hs
      exact refines_none (h.silent hpc rfl rfl fun _ => rfl)
    | body => exact h.pass hc hpc hs
    | unlock =>
      cases hs
      exact refines_none (h.silent hpc rfl rfl fun _ => rfl)
  | disconnect r i =>
    cases hs
    have hsm : smNext p.sm t now (.unmounting r.vmi i) = some ({ p.sm with
        nbd := Function.update p.sm.nbd i none }.goto t (.reassigning r.vmi i)) := rfl
    exact h.next hpc (fun _ _ e => by cases e) rfl rfl hsm h.records (h.lk_kept hpc rfl) h.slot
  | reassign r i =>
    cases hs
    have hrs : p.sm.records.reassign i r.vmi = s.records.reassign i r.vmi := by rw [h.records]
    have hsm : smNext p.sm t now (.reassigning r.vmi i) = some ({ p.sm with
        records := p.sm.records.reassign i r.vmi
        refs := ⟨t, r.vmi, i⟩ :: p.sm.refs }.goto t (.remounting r.vmi i)) := rfl
    exact h.next hpc (fun _ _ e => by cases e) rfl rfl hsm hrs (h.lk_kept hpc rfl)
      (h.slot_kept fun j => Records.l_reassign s.records i j r.vmi)
  | drop dev => exact h.drop hpc hs
  | print st => exact h.print_step ht hh hpc hs

/-- **Every step of the locks is a step of the requests, or none.** -/
theorem tlStep_refines (h : Refines s p) (ht : Tested p) (hh : Holding p) (hc : Consistent program s.holder s.pc)
    {l : TlLabel T} (hs : tlStep s l = some s') : ∃ ms p', Run (stepOf psStep) p ms p' ∧ Refines s' p' := by
  cases l with
  | step t now => exact tlNext_refines h ht hh hc rfl hs
  | call t c =>
    simp only [tlStep] at hs
    split at hs
    · rename_i hpc
      cases c with
      | addAgent _ _ _ _ | printStatus | vmiSection =>
        cases hs
        exact refines_none (h.silent hpc rfl rfl fun _ => rfl)
      | unmountDisk n =>
        obtain ⟨ha, -, rfl⟩ := Option.map_eq_some_iff.1 hs
        exact refines_none (h.silent hpc rfl rfl fun _ => rfl)
      | mountDisk n =>
        obtain ⟨ha, -, rfl⟩ := Option.map_eq_some_iff.1 hs
        have hpr : p.sm.pc t = .idle := by rw [h.pc, hpc]; rfl
        have hprint : p.print t = .out := by rw [h.print, hpc]; rfl
        have hstep : apiStep p.sm (.sm (.request t ha.vmi)) = some (p.sm.goto t (.lookup ha.vmi)) := if_pos hpr
        exact refines_one (psStep_untried (l := .sm (.request t ha.vmi)) hprint rfl hstep)
          (h.call (q := .lookup ⟨n, ha.vmi, ha.diskPath⟩) hpc rfl h.records (h.lk_kept hpc rfl) h.slot)
    · cases hs

/-- **Every run of the locks is a run of the requests beside `print_status`**, with the same records, in which every
thread is where it is seen to be. -/
theorem locks_refine (clock : Slot → Timeval) {ls : List (TlLabel T)}
    (hrun : Run (stepOf tlStep) (TlState.init clock) ls s) :
    ∃ ms p, Run (stepOf psStep) (PsState.init clock) ms p ∧ Refines s p := by
  induction hrun with
  | nil => exact ⟨[], _, .nil, refines_init clock⟩
  | snoc hr hs ih =>
    obtain ⟨ms, p, hms, h⟩ := ih
    obtain ⟨ms', p', hms', h'⟩ := tlStep_refines h (tested_run hms) (holding_run hms) (consistent_run hr) hs
    exact ⟨ms ++ ms', p', run_append_iff.2 ⟨p, hms, hms'⟩, h'⟩

end

theorem locks_refine_three : ∃ s, Run (stepOf tlStep) (TlState.init fun _ => ⟨0, 0⟩) threeThreads s ∧
    ∃ ms p, Run (stepOf psStep) (PsState.init fun _ => ⟨0, 0⟩) ms p ∧ Refines s p := by
  obtain ⟨s, hrun⟩ :=
    exists_run (show (exec tlStep (TlState.init fun _ => ⟨0, 0⟩) threeThreads).isSome = true by decide)
  exact ⟨s, hrun, locks_refine _ hrun⟩

end Hyperagents
