import Hyperagents.DiskTurns
/-!
# The guests of many threads

A mount leaves the guest of its VM paused.  A release counts down first, then waits for the VMI lock, and resumes the
guest of the VM it finds in the record by then; other threads take their steps in between.  So over any interleaving a
paused guest has a mount outstanding, or a resume of one released still to come, exactly where each resume that is the
last thing a paused guest has to hope for finds the slot its own (`guests_thawed_iff`).  A slot stolen meanwhile is
another's: the resume wakes the thief's guest, and leaves its own paused for good (`guest_left_frozen`).
-/
namespace Hyperagents

open Runs

/-- `paused` says of which VMs the guest is; `resuming` has the mounts released whose guest is not resumed yet. -/
structure GuestsState (T : Type) where
  sm : SmState T
  paused : Vmi → Bool
  resuming : List (Ref T)

/-- A step of a request, the count of a release, or the resume of a mount released. -/
inductive GuestsLabel (T : Type)
  | sm (l : SmLabel T)
  | resume (t : T) (v : Vmi) (i : Slot)
  deriving DecidableEq, Repr

/-- The guests after a step: `do_nbd_mount` leaves its VM's paused, and `do_nbd_unmount` resumes that of the VM the slot
is unmounted for. -/
def SmLabel.guests {T : Type} (s : SmState T) (paused : Vmi → Bool) : SmLabel T → Vmi → Bool
  | .step t _ =>
    match s.pc t with
    | .mounting v _ | .remounting v _ => Function.update paused v true
    | .unmounting v _ => Function.update paused v false
    | .idle | .lookup _ | .claiming _ _ | .seeking _ _ | .reassigning _ _ => paused
  | .request _ _ | .release _ _ _ => paused

def SmLabel.released {T : Type} : SmLabel T → List (Ref T)
  | .release t v i => [⟨t, v, i⟩]
  | .request _ _ | .step _ _ => []

section

variable {T : Type} [DecidableEq T]

def GuestsState.init (clock : Slot → Timeval) : GuestsState T := ⟨.init clock, fun _ => false, []⟩

/-- A thread that has counted a release resumes a guest next; where the record has no VM the pointer is null. -/
def guestsStep (s : GuestsState T) : GuestsLabel T → Option (GuestsState T)
  | .sm l =>
    if ∀ r ∈ s.resuming, r.thread ≠ l.thread then
      (smStep s.sm l).map fun sm => ⟨sm, l.guests s.sm s.paused, l.released ++ s.resuming⟩
    else none
  | .resume t v i =>
    if s.resuming.contains ⟨t, v, i⟩ then
      (s.sm.records.owner i).map fun w =>
        { s with paused := Function.update s.paused w false, resuming := s.resuming.erase ⟨t, v, i⟩ }
    else none

/-- Only the guests with a mount outstanding, or one released and not resumed yet, are paused. -/
def PausedInUse (_ : List (GuestsLabel T)) (s : GuestsState T) : Prop :=
  ∀ v, s.paused v = true → ∃ r ∈ s.sm.refs ++ s.resuming, r.vmi = v

/-- The resume of a paused guest finds the slot its VM's, or is not the last to come. -/
def FindsOwn (_ : List (GuestsLabel T)) (s : GuestsState T) : GuestsLabel T → Prop
  | .resume t v i => s.paused v = true →
      s.sm.records.owner i = some v ∨ ∃ r ∈ s.sm.refs ++ s.resuming.erase ⟨t, v, i⟩, r.vmi = v
  | .sm _ => True

/-- No lookup hits a slot that a thread has picked, and none is reassigned that a resume is to come for. -/
def Unhurried (_ : List (GuestsLabel T)) (s : GuestsState T) : GuestsLabel T → Prop
  | .sm l => Undisturbed [] s.sm l ∧
      ∀ t now, l = .step t now → ∀ v i, s.sm.pc t = .reassigning v i → ∀ r ∈ s.resuming, r.slot ≠ i
  | .resume _ _ _ => True

/-- A thread at a mount is counted. -/
def Referenced (s : SmState T) : Prop := ∀ t v i, (s.pc t).mounts = some (v, i) → ⟨t, v, i⟩ ∈ s.refs

variable {s s' : GuestsState T} {sm sm' : SmState T} {t : T} {v : Vmi} {i : Slot} {p q : Pc} {l : SmLabel T}
  {gl : GuestsLabel T} {clock : Slot → Timeval} {ls : List (GuestsLabel T)}

theorem Referenced.goto (h : Referenced sm) {rs : Records} {lk : Option T} {refs : List (Ref T)}
    {nbd : Slot → Option Vmi} (hp : ∀ v i, p.mounts = some (v, i) → ⟨t, v, i⟩ ∈ refs)
    (hrefs : ∀ r ∈ sm.refs, r ∈ refs) : Referenced (SmState.goto ⟨rs, lk, sm.pc, refs, nbd⟩ t p) := by
  intro u v i hu
  change (Function.update sm.pc t p u).mounts = some (v, i) at hu
  show ⟨u, v, i⟩ ∈ refs
  by_cases hut : u = t
  · rw [hut, Function.update_self] at hu
    rw [hut]
    exact hp v i hu
  · rw [Function.update_of_ne hut] at hu
    exact hrefs _ (h u v i hu)

theorem Referenced.step (h : Referenced sm) (hs : smStep sm l = some sm') : Referenced sm' := by
  cases smStep_cases hs with
  | request t v hpc => exact h.goto nofun fun r hr => hr
  | hit t now v i hpc hl hcan => exact h.goto nofun fun r hr => List.mem_cons_of_mem _ hr
  | miss t now v hpc hl => exact h.goto nofun fun r hr => hr
  | taken t now v i hpc hl =>
    refine h.goto (fun w j hm => ?_) fun r hr => hr
    have hnone := (Pc.afterTaken_slot v i).1
    rw [Pc.slot_of_mounts hm] at hnone
    cases hnone
  | claim t now v i hpc hl =>
    refine h.goto (fun w j hm => ?_) fun r hr => List.mem_cons_of_mem _ hr
    cases hm
    exact List.mem_cons_self
  | mount t now v i hpc => exact h.goto nofun fun r hr => hr
  | unlucky t now v m hpc hlk hshort => exact h.goto nofun fun r hr => hr
  | pick t now v m hpc hlk hlong => exact h.goto nofun fun r hr => hr
  | unmount t now v i hpc => exact h.goto nofun fun r hr => hr
  | reassign t now v i hpc =>
    refine h.goto (fun w j hm => ?_) fun r hr => List.mem_cons_of_mem _ hr
    cases hm
    exact List.mem_cons_self
  | remount t now v i hpc => exact h.goto nofun fun r hr => hr
  | release t v i hpc hmem hcan =>
    intro u w j hu
    refine (List.mem_erase_of_ne fun e => ?_).2 (h u w j hu)
    have hut : u = t := congrArg Ref.thread e
    change (sm.pc u).mounts = some (w, j) at hu
    rw [hut, hpc] at hu
    cases hu

/-! ## One step -/

theorem guestsStep_sm (hs : guestsStep s (.sm l) = some s') :
    (∀ r ∈ s.resuming, r.thread ≠ l.thread) ∧ smStep s.sm l = some s'.sm ∧ s'.paused = l.guests s.sm s.paused ∧
      s'.resuming = l.released ++ s.resuming := by
  simp only [guestsStep] at hs
  split at hs
  · rename_i hfree
    obtain ⟨sm, hsm, rfl⟩ := Option.map_eq_some_iff.1 hs
    exact ⟨hfree, hsm, rfl, rfl⟩
  · cases hs

theorem guestsStep_resume (hs : guestsStep s (.resume t v i) = some s') : ⟨t, v, i⟩ ∈ s.resuming ∧
    ∃ w, s.sm.records.owner i = some w ∧
      s' = { s with paused := Function.update s.paused w false, resuming := s.resuming.erase ⟨t, v, i⟩ } := by
  simp only [guestsStep] at hs
  split at hs
  · rename_i hmem
    obtain ⟨w, hw, rfl⟩ := Option.map_eq_some_iff.1 hs
    exact ⟨List.contains_iff_mem.1 hmem, w, hw, rfl⟩
  · cases hs

/-- No step but a release drops a mount, and that one is resumed later. -/
theorem smStep_refs (hs : smStep sm l = some sm') : ∀ r ∈ sm.refs, r ∈ sm'.refs ++ l.released := by
  intro r hr
  refine List.mem_append.2 ?_
  cases smStep_cases hs with
  | hit t now v i hpc hl hcan => exact .inl (List.mem_cons_of_mem _ hr)
  | claim t now v i hpc hl => exact .inl (List.mem_cons_of_mem _ hr)
  | reassign t now v i hpc => exact .inl (List.mem_cons_of_mem _ hr)
  | release t v i hpc hmem hcan =>
    by_cases he : r = ⟨t, v, i⟩
    · exact .inr (List.mem_singleton.2 he)
    · exact .inl ((List.mem_erase_of_ne he).2 hr)
  | _ => exact .inl hr

omit [DecidableEq T] in
/-- A step of a request pauses no guest but that of the mount it makes. -/
theorem SmLabel.guests_paused {paused : Vmi → Bool} (hv : l.guests sm paused v = true) :
    paused v = true ∨ ∃ t i, (sm.pc t).mounts = some (v, i) := by
  cases l with
  | request t w => exact .inl hv
  | release t w i => exact .inl hv
  | step t now =>
    unfold SmLabel.guests at hv
    dsimp only at hv
    cases hpc : sm.pc t with
    | mounting w i | remounting w i =>
      rw [hpc] at hv
      by_cases hvw : v = w
      · exact .inr ⟨t, i, by rw [hpc, hvw]; rfl⟩
      · exact .inl ((Function.update_of_ne hvw true paused).symm.trans hv)
    | unmounting w i =>
      rw [hpc] at hv
      by_cases hvw : v = w
      · rw [hvw] at hv
        cases (Function.update_self w false paused).symm.trans hv
      · exact .inl ((Function.update_of_ne hvw false paused).symm.trans hv)
    | idle | lookup w | claiming w i | seeking w m | reassigning w i =>
      rw [hpc] at hv
      exact .inl hv

theorem PausedInUse.smStep (h : PausedInUse [] s) (hreferenced : Referenced s.sm)
    (hs : guestsStep s (.sm l) = some s') : PausedInUse [] s' := by
  obtain ⟨-, hsm, hpaused, hresuming⟩ := guestsStep_sm hs
  have hkeep : ∀ r ∈ s.sm.refs ++ s.resuming, r ∈ s'.sm.refs ++ s'.resuming := by
    intro r hr
    rw [hresuming, ← List.append_assoc]
    refine List.mem_append.2 ((List.mem_append.1 hr).imp_left fun hr => smStep_refs hsm r hr)
  intro v hv
  rw [hpaused] at hv
  rcases SmLabel.guests_paused hv with hold | ⟨t, i, hm⟩
  · obtain ⟨r, hr, hrv⟩ := h v hold
    exact ⟨r, hkeep r hr, hrv⟩
  · exact ⟨_, hkeep _ (List.mem_append_left _ (hreferenced t v i hm)), rfl⟩

/-- A resume is of the guest of its slot's owner, whoever that is by then. -/
theorem resume_paused {w : Vmi} (hs : guestsStep s (.resume t v i) = some s') :
    s'.paused w = true ↔ s.paused w = true ∧ s.sm.records.owner i ≠ some w := by
  obtain ⟨-, u, hu, rfl⟩ := guestsStep_resume hs
  show Function.update s.paused u false w = true ↔ _
  rw [hu]
  by_cases hw : w = u
  · rw [hw, Function.update_self]
    exact iff_of_false nofun fun h => h.2 rfl
  · rw [Function.update_of_ne hw]
    exact ⟨fun h => ⟨h, fun e => hw (Option.some.inj e).symm⟩, fun h => h.1⟩

/-- **A resume** keeps to the guests in use exactly when it finds its own slot. -/
theorem PausedInUse.resume_iff (h : PausedInUse [] s) (hs : guestsStep s (.resume t v i) = some s') :
    PausedInUse [] s' ↔ FindsOwn [] s (.resume t v i) := by
  have hlists : s'.sm.refs ++ s'.resuming = s.sm.refs ++ s.resuming.erase ⟨t, v, i⟩ := by
    obtain ⟨-, w, -, rfl⟩ := guestsStep_resume hs
    rfl
  constructor
  · intro hkept hv
    by_cases howner : s.sm.records.owner i = some v
    · exact .inl howner
    · have hstill := hkept v ((resume_paused hs).2 ⟨hv, howner⟩)
      rw [hlists] at hstill
      exact .inr hstill
  · intro hown w hw
    obtain ⟨hold, howner⟩ := (resume_paused hs).1 hw
    rw [hlists]
    by_cases hwv : w = v
    · rw [hwv] at hold howner ⊢
      exact (hown hold).resolve_left howner
    · obtain ⟨r, hr, hrw⟩ := h w hold
      refine ⟨r, List.mem_append.2 ((List.mem_append.1 hr).imp_right fun hr => ?_), hrw⟩
      exact (List.mem_erase_of_ne fun e => hwv (hrw.symm.trans (congrArg Ref.vmi e))).2 hr

theorem PausedInUse.step_iff (h : PausedInUse [] s) (hreferenced : Referenced s.sm) (hs : guestsStep s gl = some s') :
    PausedInUse [] s' ↔ FindsOwn [] s gl := by
  cases gl with
  | sm l => exact iff_of_true (h.smStep hreferenced hs) trivial
  | resume t v i => exact h.resume_iff hs

theorem Referenced.guestsStep (h : Referenced s.sm) (hs : guestsStep s gl = some s') : Referenced s'.sm := by
  cases gl with
  | sm l =>
    obtain ⟨-, hsm, -, -⟩ := guestsStep_sm hs
    exact h.step hsm
  | resume t v i =>
    obtain ⟨-, w, -, rfl⟩ := guestsStep_resume hs
    exact h

/-! ## Where every resume finds its own -/

/-- Nothing in use is taken away, and the slot of each resume to come is its VM's. -/
structure Waited (s : GuestsState T) : Prop where
  safe : Safe s.sm
  own : ∀ r ∈ s.resuming, s.sm.records.owner r.slot = some r.vmi

/-- A slot that has an owner gets another one by a reassignment only. -/
theorem Safe.owner_of_step (h : Safe sm) (hs : smStep sm l = some sm') {w : Vmi} (hw : sm.records.owner i = some w)
    (hleft : ∀ t now, l = .step t now → ∀ v, sm.pc t ≠ .reassigning v i) : sm'.records.owner i = some w := by
  cases smStep_cases hs with
  | claim t now v j hpc hl =>
    show (sm.records.claim j v).owner i = some w
    have hij : i ≠ j := fun e => by
      rw [e, h.counted.unlocked j hl] at hw
      cases hw
    rw [Records.owner_claim, Function.update_of_ne hij]
    exact hw
  | reassign t now v j hpc =>
    show (sm.records.reassign j v).owner i = some w
    have hij : i ≠ j := fun e => hleft t now rfl v (e ▸ hpc)
    rw [Records.owner_reassign, Function.update_of_ne hij]
    exact hw
  | hit t now v j hpc hl hcan => exact (congrFun (Records.owner_remount _ _ _) i).trans hw
  | mount t now v j hpc => exact (congrFun (Records.owner_stamp _ _ _) i).trans hw
  | remount t now v j hpc => exact (congrFun (Records.owner_stamp _ _ _) i).trans hw
  | release t v j hpc hmem hcan => exact (congrFun (Records.owner_release _ _) i).trans hw
  | request t v hpc => exact hw
  | miss t now v hpc hl => exact hw
  | taken t now v j hpc hl => exact hw
  | unlucky t now v m hpc hlk hshort => exact hw
  | pick t now v m hpc hlk hlong => exact hw
  | unmount t now v j hpc => exact hw

theorem Waited.step (h : Waited s) (hquiet : Unhurried [] s gl) (hs : guestsStep s gl = some s') : Waited s' := by
  cases gl with
  | sm l =>
    obtain ⟨-, hsm, -, hresuming⟩ := guestsStep_sm hs
    obtain ⟨hund, hleft⟩ := hquiet
    refine ⟨h.safe.step hund hsm, fun r hr => ?_⟩
    have hown : s.sm.records.owner r.slot = some r.vmi ∧ ∀ t now, l = .step t now →
        ∀ v, s.sm.pc t ≠ .reassigning v r.slot := by
      rw [hresuming] at hr
      rcases List.mem_append.1 hr with hr | hr
      · -- The mount just released was counted until then.
        cases l with
        | release t v i =>
          generalize s'.sm = sm' at hsm
          cases smStep_cases hsm with
          | release _ _ _ hpc hmem hcan =>
            rw [List.mem_singleton.1 hr]
            exact ⟨h.safe.counted.owned _ hmem, nofun⟩
        | request t v => cases hr
        | step t now => cases hr
      · exact ⟨h.own r hr, fun t now hl v hpc => hleft t now hl v r.slot hpc r hr rfl⟩
    exact h.safe.owner_of_step hsm hown.1 hown.2
  | resume t v i =>
    obtain ⟨-, w, -, rfl⟩ := guestsStep_resume hs
    exact ⟨h.safe, fun r hr => h.own r (List.mem_of_mem_erase hr)⟩

/-! ## Runs -/

/-- **Guests without a mount run, over any interleaving, exactly where the last resume of each paused guest finds the
slot its own**; as it does where no lookup hits a slot that is being stolen, and no slot is stolen that a resume is to
come for. -/
theorem guests_thawed_iff (clock : Slot → Timeval) (ls : List (GuestsLabel T)) (s : GuestsState T)
    (hrun : Run (stepOf guestsStep) (GuestsState.init clock) ls s) :
    (Throughout (stepOf guestsStep) (GuestsState.init clock) PausedInUse ls ↔
      EachStep (stepOf guestsStep) (GuestsState.init clock) FindsOwn ls) ∧
      (EachStep (stepOf guestsStep) (GuestsState.init clock) Unhurried ls →
        EachStep (stepOf guestsStep) (GuestsState.init clock) FindsOwn ls) := by
  constructor
  · refine throughout_iff_eachStep (I := fun _ s => Referenced s.sm) (D := fun _ _ => True) nofun nofun ?_ ?_
      (fun _ _ _ => trivial) hrun
    · exact fun _ _ _ _ h _ _ hs => h.guestsStep hs
    · exact fun _ _ _ _ hreferenced h _ hs => PausedInUse.step_iff h hreferenced hs
  · intro hquiet p gl u hp hu
    cases gl with
    | sm l => trivial
    | resume t v i =>
      have hwaited : Waited u := by
        refine Run.invariant_eachStep (I := fun _ s => Waited s) ⟨safe_init clock, fun _ hr => by cases hr⟩ ?_
          (hquiet.of_prefix ((List.prefix_append p _).trans hp)) hu
        exact fun _ _ _ _ h hq hs => h.step hq hs
      obtain ⟨u₁, u₂, hu₁, hs⟩ := hrun.step_of_prefix hp
      obtain rfl := run_stepOf_unique hu₁ hu
      obtain ⟨hmem, -⟩ := guestsStep_resume hs
      exact fun _ => .inl (hwaited.own _ hmem)

instance (p : List (GuestsLabel T)) (s : GuestsState T) : DecidablePred (FindsOwn p s)
  | .resume t v i => inferInstanceAs (Decidable (s.paused v = true →
      s.sm.records.owner i = some v ∨ ∃ r ∈ s.sm.refs ++ s.resuming.erase ⟨t, v, i⟩, r.vmi = v))
  | .sm _ => inferInstanceAs (Decidable True)

/-- All slots are taken, and thread 0 releases its mount; thread 16 comes to the search for a victim. -/
def releasedFirst : List (GuestsLabel Nat) :=
  List.map .sm (fill 16 ++ [.release 0 1 0, .request 16 17] ++ List.replicate 17 (.step 16 ⟨0, 0⟩))

/-- Thread 16 steals the slot. -/
def stolen : List (GuestsLabel Nat) := List.replicate 4 (.sm (.step 16 ⟨20, 0⟩))

/-- Thread 0 resumes its guest before its slot is stolen, and thread 16 the one of VM 17 in the end. -/
def resumedInTime : List (GuestsLabel Nat) :=
  releasedFirst ++ [.resume 0 1 0] ++ stolen ++ [.sm (.release 16 17 0), .resume 16 17 0]

theorem guests_thawed_iff_stolen : ∃ s, Run (stepOf guestsStep) (GuestsState.init fun _ => ⟨0, 0⟩) resumedInTime s ∧
    s.paused 1 = false ∧ s.paused 17 = false ∧
      Throughout (stepOf guestsStep) (GuestsState.init fun _ => ⟨0, 0⟩) PausedInUse resumedInTime := by
  obtain ⟨s, hs, hfound⟩ := Option.map_eq_some_iff.1 (show (exec guestsStep (GuestsState.init fun _ => ⟨0, 0⟩)
    resumedInTime).map (fun s => (s.paused 1, s.paused 17)) = some (false, false) by decide +kernel)
  obtain ⟨hfirst, hlast⟩ := Prod.mk.inj hfound
  have hown : EachStep (stepOf guestsStep) (GuestsState.init fun _ => ⟨0, 0⟩) FindsOwn resumedInTime := by
    decide +kernel
  exact ⟨s, run_of_exec hs, hfirst, hlast, (guests_thawed_iff _ resumedInTime s (run_of_exec hs)).1.2 hown⟩

/-- Between the count of a release and its resume the slot is stolen: the guest of VM 1 stays paused with nothing left
to resume it, and that of VM 17 runs while its disk is mounted. -/
theorem guest_left_frozen : ∃ s, Run (stepOf guestsStep) (GuestsState.init fun _ => ⟨0, 0⟩)
      (releasedFirst ++ stolen ++ [.resume 0 1 0]) s ∧
    s.paused 1 = true ∧ 1 ∉ (s.sm.refs ++ s.resuming).map Ref.vmi ∧ s.paused 17 = false ∧
      17 ∈ s.sm.refs.map Ref.vmi := by
  obtain ⟨s, hs, hfound⟩ := Option.map_eq_some_iff.1 (show (exec guestsStep (GuestsState.init fun _ => ⟨0, 0⟩)
    (releasedFirst ++ stolen ++ [.resume 0 1 0])).map (fun s => (s.paused 1, s.paused 17, s.sm.refs.map Ref.vmi,
      s.resuming)) = some (true, false, 17 :: ((List.range 15).map (· + 2)).reverse, []) by decide +kernel)
  simp only [Prod.mk.injEq] at hfound
  obtain ⟨hfrozen, hrunning, hrefs, hresuming⟩ := hfound
  refine ⟨s, run_of_exec hs, hfrozen, ?_, hrunning, ?_⟩
  · rw [hresuming, List.append_nil, hrefs]
    decide
  · rw [hrefs]
    decide

end

end Hyperagents
