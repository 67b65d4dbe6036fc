import Hyperagents.SyncEffects
/-!
# Taking the breakpoints out of a paused guest

From the first `vmi_clear_event` to the last byte written back nobody handles an int3, so the guest has to be paused.
`do_sync` does not pause it there: it relies on whatever ended the event loop.  A failed listen and the step that ends
the clean-up pause the guest, the safety counter of the int3 callback does not (`removed_paused_iff`).

Whether a guest is paused is read off the trace (`pausedAfter`): the last pause or resume in it decides.
-/
namespace Hyperagents

open Planting

/-- Whether the guest is paused after a trace it entered paused or not. -/
def pausedAfter (p : Bool) (t : List Act) : Bool :=
  t.foldl (fun p a => match a with
    | .vmi .pauseVm => true
    | .vmi .resumeVm => false
    | _ => p) p

/-- **The guest is paused from the first `vmi_clear_event` to the last byte written back**: whatever is done after the
one or is the one, and before the other or is the other, is done with the guest paused. -/
def RemovedPaused (p : Bool) (t : List Act) : Prop :=
  ∀ x a y, t = x ++ a :: y → .vmi .clearEvent ∈ x ++ [a] → (∃ w b d, .vmi (.write8Va w b d) ∈ a :: y) →
    pausedAfter p x = true

/-- A tick that pauses the guest, by whether the clean-up has begun before it. -/
def Tick.Pauses (cleaning : Prop) : Tick → Prop
  | .step _ => cleaning
  | .ret ok => ok = false
  | .int3 _ => False
  | .guest _ _ => False

theorem pausedAfter_append (p : Bool) (t u : List Act) :
    pausedAfter p (t ++ u) = pausedAfter (pausedAfter p t) u := List.foldl_append

/-- Only what is seen outside pauses or resumes. -/
theorem pausedAfter_effects (t : List Act) (p : Bool) : pausedAfter p (effects t) = pausedAfter p t := by
  induction t generalizing p with
  | nil => rfl
  | cons a t ih =>
    cases h : a.isEffect with
    | true =>
      simp only [effects, List.filter_cons_of_pos h]
      exact ih _
    | false =>
      have hkeep : pausedAfter p [a] = p := by
        cases a with
        | vmi c => cases c <;> first | rfl | cases h
        | _ => rfl
      rw [effects, List.filter_cons_of_neg (by rw [h]; exact Bool.false_ne_true)]
      refine (ih p).trans ?_
      rw [show a :: t = [a] ++ t from rfl, pausedAfter_append, hkeep]

/-- A stretch of a trace that neither pauses nor resumes. -/
theorem pausedAfter_quiet (p : Bool) (t : List Act) (h : ∀ a ∈ t, a ≠ .vmi .pauseVm ∧ a ≠ .vmi .resumeVm) :
    pausedAfter p t = p := by
  rw [← pausedAfter_effects]
  induction t with
  | nil => rfl
  | cons a t ih =>
    have hkeep : pausedAfter p (effects [a]) = p := by
      obtain ⟨hp, hr⟩ := h a List.mem_cons_self
      rw [pausedAfter_effects]
      cases a with
      | vmi c => cases c <;> first | rfl | contradiction
      | _ => rfl
    rw [show a :: t = [a] ++ t from rfl, effects_append, pausedAfter_append, hkeep]
    exact ih fun b hb => h b (List.mem_cons_of_mem _ hb)

/-! ## The event loop -/

section

variable (ghostImage : String) (vmid : UInt64)

/-- What a tick does to the guest's being paused. -/
theorem tick_pausedAfter (p : Bool) (s : SyncState) (t : Tick) :
    pausedAfter p (tick ghostImage vmid s t).trace = true ↔
      pausedAfter p s.trace = true ∨ t.Pauses (s.g.doCleanup = 1) := by
  have hwrite : ∀ (q : Bool) (m : GuestMem) (a : Addr) (b : Byte), pausedAfter q (effects [writeAct m a b]) = q :=
    fun q m a b => pausedAfter_effects [writeAct m a b] q
  rw [← pausedAfter_effects, tick_effects, pausedAfter_append, pausedAfter_effects]
  generalize pausedAfter p s.trace = q
  cases t with
  | int3 e =>
    rw [tickEffects, pausedAfter_effects]
    exact (or_iff_left id).symm
  | step v =>
    simp only [tickEffects]
    split
    · rename_i hc
      exact iff_of_true rfl (.inr hc)
    · rename_i hc
      rw [hwrite]
      exact (or_iff_left hc).symm
  | guest a b => exact (or_iff_left id).symm
  | ret ok => cases ok <;> cases ha : s.attached <;> cases q <;> simp [tickEffects, pausedAfter, Tick.Pauses, ha]

/-- **What has the guest paused at the end of a run of ticks**: nothing in the loop resumes it. -/
theorem runTicks_pausedAfter (p : Bool) (s : SyncState) (ts : List Tick) :
    pausedAfter p (runTicks ghostImage vmid s ts).trace = true ↔
      pausedAfter p s.trace = true ∨ ∃ q t, q ++ [t] <+: ts ∧ t.Pauses (CleaningUp s.g q) := by
  induction ts using List.reverseRecOn with
  | nil => simp
  | append_singleton ts t ih =>
    rw [runTicks_snoc, tick_pausedAfter, ih, runTicks_doCleanup, or_assoc]
    apply or_congr_right
    simp only [List.prefix_concat_iff, prefix_snoc_eq]
    constructor
    · rintro (⟨q, u, hq, hp⟩ | hp)
      · exact ⟨q, u, .inr hq, hp⟩
      · exact ⟨ts, t, .inl ⟨rfl, rfl⟩, hp⟩
    · rintro ⟨q, u, ⟨rfl, rfl⟩ | hq, hp⟩
      · exact .inr hp
      · exact .inl ⟨q, u, hq, hp⟩

end

/-- The loop starts with the guest running. -/
theorem listening_pausedAfter (p : Bool) (c : SyncCall) (g : Globals) (guest : Guest) :
    pausedAfter p (listening c g guest).trace = false := by
  rw [← pausedAfter_effects, listening_effects, pausedAfter_append]
  rfl

/-! ## The flag a call leaves is what its trace says -/

/-- **The guest is left paused or running as the trace of the call has it.** -/
theorem doSync_paused {ghostImage : String} {c : SyncCall} {g : Globals} {guest : Guest} {ret : Int} {s' : SyncState}
    (h : doSync ghostImage c g guest = some (ret, s')) : s'.paused = pausedAfter guest.paused s'.trace := by
  by_cases hfn : resolved c g .dwork = 0
  · rw [doSync_exit hfn] at h
    cases h
    rw [(installed_spec c g guest).untouched.paused, ← pausedAfter_effects, installed_effects]
    refine (pausedAfter_quiet true _ fun a ha => ?_).symm
    obtain ⟨b, -, rfl⟩ := List.mem_map.1 (mem_effects.1 ha).1
    exact ⟨nofun, nofun⟩
  · obtain ⟨-, used, -, rfl, -⟩ := doSync_loop hfn h
    rw [(finish_effect c _).paused, ← pausedAfter_effects, finish_effects, pausedAfter_append]
    rfl

/-! ## No event is cleared before the loop has ended -/

/-- No event has been cleared yet. -/
def Uncleared (s : SyncState) : Prop := .vmi .clearEvent ∉ s.trace

section

variable {s : SyncState}

theorem Uncleared.printRegs (h : Uncleared s) : Uncleared (printRegs s) := by
  simpa [Uncleared, Hyperagents.printRegs] using h

theorem Uncleared.countInt (h : Uncleared s) (e : Int3) : Uncleared (countInt e s) := by
  simpa [Uncleared, Hyperagents.countInt] using h

theorem Uncleared.intPhase (h : Uncleared s) (found : Option Bp) (e : Int3) : Uncleared (intPhase found e s).1 := by
  cases found with
  | none => exact h
  | some b =>
    cases b with
    | qworko =>
      simp only [Hyperagents.intPhase, atQworko]
      split
      · split <;> simpa [Uncleared] using h
      · exact h
    | dworkBack => exact Uncleared.printRegs h
    | dwork => exact h
    | sysSyncFront => exact h
    | sysSyncBack => exact h

theorem Uncleared.tick (h : Uncleared s) (ghostImage : String) (vmid : UInt64) (t : Tick) :
    Uncleared (tick ghostImage vmid s t) := by
  cases t with
  | int3 e =>
    have hphase := (h.countInt e).intPhase (s.g.find e.regs.rip) e
    simpa [Uncleared, Hyperagents.tick, intCbFront, countInt_find] using hphase
  | step v =>
    simp only [Hyperagents.tick, stepCbFront]
    split <;> simpa [Uncleared] using h
  | guest a b => simpa [Uncleared, Hyperagents.tick] using h
  | ret ok => cases ok <;> cases ha : s.attached <;> simpa [Uncleared, Hyperagents.tick, afterListen, ha] using h

theorem Uncleared.runTicks (h : Uncleared s) (ghostImage : String) (vmid : UInt64) (ts : List Tick) :
    Uncleared (runTicks ghostImage vmid s ts) := by
  induction ts using List.reverseRecOn with
  | nil => exact h
  | append_singleton ts t ih =>
    rw [runTicks_snoc]
    exact ih.tick ghostImage vmid t

theorem listening_uncleared (c : SyncCall) (g : Globals) (guest : Guest) : Uncleared (listening c g guest) := by
  have hinstall : ∀ (ks : List Bp) (s : SyncState), Uncleared s → Uncleared (ks.foldl (installStep c) s) := by
    intro ks
    induction ks with
    | nil => exact fun _ h => h
    | cons k ks ih =>
      intro s h
      apply ih
      simpa [Uncleared, installStep, patch, lookupSym] using h
  have h := hinstall installOrder (entered g guest) (by simp [Uncleared, entered])
  rw [listening, installed_eq]
  generalize installOrder.foldl (installStep c) (entered g guest) = s at h
  simpa [Uncleared, startEvents, setKaslr] using h

end

/-! ## Taking the breakpoints out -/

/-- A place in a list that is not before the second of its three parts, nor in the third. -/
theorem place_between {α : Type} {A B C x y : List α} {a : α} (h : A ++ B ++ C = x ++ a :: y)
    (hA : ¬ x ++ [a] <+: A) (hC : ¬ a :: y <:+ C) : ∃ z, x = A ++ z ∧ z <+: B := by
  have hx : x ++ [a] <+: A ++ B ++ C := ⟨y, by rw [h, List.append_assoc, List.singleton_append]⟩
  have hpre : A <+: x := by
    rcases List.prefix_or_prefix_of_prefix hx ⟨B ++ C, (List.append_assoc _ _ _).symm⟩ with hp | hp
    · exact absurd hp hA
    · rcases List.prefix_concat_iff.1 hp with rfl | hp
      · exact absurd List.prefix_rfl hA
      · exact hp
  obtain ⟨z, rfl⟩ := hpre
  have hsuf : C <:+ y := by
    rcases List.suffix_or_suffix_of_suffix (⟨A ++ z, h.symm⟩ : a :: y <:+ A ++ B ++ C) ⟨A ++ B, rfl⟩ with hs | hs
    · exact absurd hs hC
    · rcases List.suffix_cons_iff.1 hs with rfl | hs
      · exact absurd List.suffix_rfl hC
      · exact hs
  obtain ⟨w, rfl⟩ := hsuf
  refine ⟨z, rfl, a :: w, ?_⟩
  have hB : A ++ B ++ C = A ++ (z ++ a :: w) ++ C := by
    rw [h]
    simp
  exact (List.append_cancel_left (List.append_cancel_right hB)).symm

/-- An entry that neither pauses nor resumes the guest. -/
def Act.Quiet (a : Act) : Prop := a ≠ .vmi .pauseVm ∧ a ≠ .vmi .resumeVm

theorem guestWrites_trace : ∀ (ws : List (Addr × Byte)) (s : SyncState),
    (s.guestWrites ws).trace = s.trace ++ ws.map (fun w => .guest w.1 w.2)
  | [], s => (List.append_nil _).symm
  | w :: ws, s => by
    refine (guestWrites_trace ws (s.guestWrite w.1 w.2)).trans ?_
    rw [SyncState.guestWrite_trace, List.append_assoc]
    rfl

theorem replaceByte_trace (c : SyncCall) (s : SyncState) (k : Bp) : (replaceByte c s k).trace =
    s.trace ++ ((c.late k).map (fun w => Act.guest w.1 w.2) ++ [.vmi (.read64Va (s.g.addr k &&& ~~~7)),
      .vmi (.write8Va (s.g.addr k) (s.g.byte k) (pokes s.mem (c.late k) (s.g.addr k)).isSome),
      .vmi (.read64Va (s.g.addr k &&& ~~~7))]) := by
  simp only [replaceByte, SyncState.vmi_trace, SyncState.write8_trace, SyncState.vmi_g, SyncState.write8_g,
    SyncState.vmi_mem, guestWrites_trace, guestWrites_g, guestWrites_mem, List.append_assoc, List.cons_append,
    List.nil_append]

/-- Taking breakpoints out adds a stretch that neither pauses nor resumes. -/
theorem foldl_replaceByte_trace (c : SyncCall) : ∀ (ks : List Bp) (s : SyncState), ∃ l,
    (ks.foldl (replaceByte c) s).trace = s.trace ++ l ∧ (∀ a ∈ l, a.Quiet) ∧
      ∀ k ∈ ks, ∃ w b d, Act.vmi (.write8Va w b d) ∈ l
  | [], s => ⟨[], (List.append_nil _).symm, by simp, by simp⟩
  | k :: ks, s => by
    obtain ⟨l, hl, hq, hw⟩ := foldl_replaceByte_trace c ks (replaceByte c s k)
    refine ⟨_, by rw [List.foldl_cons, hl, replaceByte_trace, List.append_assoc], fun a ha => ?_, fun j hj => ?_⟩
    · rcases List.mem_append.1 ha with ha | ha
      · rcases List.mem_append.1 ha with ha | ha
        · obtain ⟨u, -, rfl⟩ := List.mem_map.1 ha
          simp [Act.Quiet]
        · simp only [List.mem_cons, List.not_mem_nil, or_false] at ha
          rcases ha with rfl | rfl | rfl <;> simp [Act.Quiet]
      · exact hq a ha
    · exact ⟨_, _, _, List.mem_append_left _ (List.mem_append_right _ (List.mem_cons_of_mem _ List.mem_cons_self))⟩

/-- **What the end of a call adds to its trace**: the events cleared and the bytes written back, the guest neither
paused nor resumed, then a stretch that writes nothing. -/
theorem finish_trace (c : SyncCall) (s : SyncState) : ∃ l rest,
    (finish c s).trace = s.trace ++ (.vmi .clearEvent :: l) ++ rest ∧ (∀ a ∈ l, a.Quiet) ∧
      (∃ w b d, Act.vmi (.write8Va w b d) ∈ l) ∧ ∀ w b d, Act.vmi (.write8Va w b d) ∉ rest := by
  obtain ⟨l, hl, hq, hw⟩ := foldl_replaceByte_trace c replaceOrder ((s.vmi .clearEvent).vmi .clearEvent)
  obtain ⟨w, b, d, hwrite⟩ := hw .dwork (mem_replaceOrder _)
  have hrest : ∃ rest, (finish c s).trace = (replaceMemory c ((s.vmi .clearEvent).vmi .clearEvent)).trace ++ rest ∧
      ∀ w b d, Act.vmi (.write8Va w b d) ∉ rest := by
    simp only [finish, printRegs, List.foldl_cons, List.foldl_nil, SyncState.vmi_trace, SyncState.resumeVm_trace,
      SyncState.system_trace, List.append_assoc]
    exact ⟨_, rfl, fun w b d => by simp⟩
  obtain ⟨rest, hrest, hno⟩ := hrest
  refine ⟨.vmi .clearEvent :: l, rest, ?_, fun a ha => ?_, ⟨w, b, d, List.mem_cons_of_mem _ hwrite⟩, hno⟩
  · rw [hrest, replaceMemory, hl]
    simp
  · rcases List.mem_cons.1 ha with rfl | ha
    · simp [Act.Quiet]
    · exact hq a ha

/-- **The guest is paused throughout exactly if it was when the loop ended.** -/
theorem removedPaused_finish (p : Bool) (c : SyncCall) {s : SyncState} (h : Uncleared s) :
    RemovedPaused p (finish c s).trace ↔ pausedAfter p s.trace = true := by
  obtain ⟨l, rest, htrace, hquiet, ⟨w, b, d, hwrite⟩, hno⟩ := finish_trace c s
  rw [htrace]
  constructor
  · intro hr
    refine hr s.trace (.vmi .clearEvent) (l ++ rest) ?_ (by simp) ⟨w, b, d, by simp [hwrite]⟩
    simp
  · rintro hp x a y heq hclear ⟨w', b', d', hw'⟩
    obtain ⟨z, rfl, hz⟩ := place_between heq (fun hx => h (hx.subset hclear)) (fun hy => hno w' b' d' (hy.subset hw'))
    rw [pausedAfter_append, hp]
    refine pausedAfter_quiet true z fun e he => ?_
    rcases List.mem_cons.1 (hz.subset he) with rfl | he
    · simp
    · exact hquiet e he

/-- **Breakpoints are removed only from a paused guest** exactly when one of the events the call got to see paused it:
a listen that failed, or a single step with the clean-up begun. -/
theorem removed_paused_iff (ghostImage : String) (c : SyncCall) (g : Globals) (guest : Guest) (ret : Int)
    (s' : SyncState) (hfn : resolved c g .dwork ≠ 0) (h : doSync ghostImage c g guest = some (ret, s')) :
    RemovedPaused guest.paused s'.trace ↔
      ∃ p t, p ++ [t] <+: c.ticks ∧ Live (armed c g) p ∧ t.Pauses (CleaningUp (armed c g) p) := by
  obtain ⟨-, used, -, rfl, hused⟩ := doSync_loop hfn h
  have hclean : ∀ p, CleaningUp (listening c g guest).g p ↔ CleaningUp (armed c g) p := by
    intro p
    have hg := (installed_spec c g guest).untouched.g
    have hd : (listening c g guest).g.doCleanup = g.doCleanup := by rw [listening_g, hg]; rfl
    unfold CleaningUp
    rw [hd, find_listening]
    rfl
  rw [removedPaused_finish _ _ ((listening_uncleared c g guest).runTicks ghostImage c.vmid used),
    runTicks_pausedAfter, listening_pausedAfter]
  simp only [Bool.false_eq_true, false_or, hused, live_listening, and_assoc, hclean]

theorem removed_paused_iff_nop : ∃ s', doSync "ghost.img" (nopCall flushTicks) .fresh nopGuest = some (0, s') ∧
    RemovedPaused false s'.trace := by
  have hsome : (doSync "ghost.img" (nopCall flushTicks) .fresh nopGuest).isSome := by decide +kernel
  obtain ⟨⟨ret, s'⟩, h⟩ := Option.isSome_iff_exists.1 hsome
  obtain rfl := doSync_ret h
  refine ⟨s', h, (removed_paused_iff _ _ _ _ _ s' (by decide) h).2 ⟨flushTicks.take 4, .step 0, ?_, ⟨rfl, ?_⟩, ?_⟩⟩
  · exact ⟨[.ret true], rfl⟩
  · rintro q ok hq
    have := hq.subset (List.mem_append_right q (List.mem_singleton.2 rfl))
    simp [flushTicks] at this
  · exact .inr ⟨hit 0 0x20aa, by simp [flushTicks], by decide⟩

/-- One int3 past the safety counter's fifty, each stepped over, and the listen's return. -/
def safetyTicks : List Tick := (List.replicate 51 [.int3 (hit 0 0x1000), .step 0]).flatten ++ [.ret true]

theorem safety_halt_removed_running : ∃ s', doSync "ghost.img" (nopCall safetyTicks) .fresh nopGuest = some (0, s') ∧
    ¬ RemovedPaused false s'.trace := by
  have hsome : (doSync "ghost.img" (nopCall safetyTicks) .fresh nopGuest).isSome := by decide +kernel
  obtain ⟨⟨ret, s'⟩, h⟩ := Option.isSome_iff_exists.1 hsome
  obtain rfl := doSync_ret h
  refine ⟨s', h, fun hr => ?_⟩
  obtain ⟨-, used, hpre, rfl, -⟩ := doSync_loop (by decide) h
  have hticks : ∀ t ∈ safetyTicks, t = .int3 (hit 0 0x1000) ∨ t = .step 0 ∨ t = .ret true := by decide +kernel
  rw [removedPaused_finish _ _ ((listening_uncleared _ _ _).runTicks _ _ used), runTicks_pausedAfter,
    listening_pausedAfter] at hr
  rcases hr with hr | ⟨q, t, hq, hp⟩
  · cases hr
  · have hmem : ∀ u ∈ q ++ [t], u ∈ safetyTicks := fun u hu => (hq.trans hpre).subset hu
    -- No int3 is at dwork's last breakpoint, so no single step pauses the guest.
    have hclean : ¬ CleaningUp (listening (nopCall safetyTicks) .fresh nopGuest).g q := by
      rintro (hdone | ⟨e, he, hfind⟩)
      · exact absurd hdone (by decide +kernel)
      · rcases hticks _ (hmem _ (List.mem_append_left _ he)) with he | he | he <;> cases he
        exact absurd hfind (by decide +kernel)
    rcases hticks t (hmem t (List.mem_append_right q (List.mem_singleton.2 rfl))) with rfl | rfl | rfl
    · exact hp
    · exact hclean hp
    · cases hp

end Hyperagents
