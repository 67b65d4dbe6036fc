import Hyperagents.SyncInstall
/-!
# Guest code is restored

Between installing and taking out, the callbacks write only where a breakpoint is: an int3 at its own address, a step
at the address of the last int3 (`runTicks_memOff`).  So outside the five addresses the guest's memory is what its own
writes made of it, and at the five addresses the saved bytes decide, whatever the callbacks left there
(`doSync_memOff`, `doSync_memAt`).
-/
namespace Hyperagents

open Planting

/-- The response to an int3 toggles single-stepping on. -/
def toggles (g : Globals) (e : Int3) : Bool := (replyAt g e).toggleSinglestep

/-- **The ticks the planted breakpoints cause**: every int3 is at one of the five, a step comes only on a vCPU whose
int3 toggled single-stepping on earlier, and the guest does not write to the five bytes itself. -/
structure OurTicks (g : Globals) (ts : List Tick) : Prop where
  int3 : ∀ e, .int3 e ∈ ts → ∃ b, e.regs.rip = g.addr b
  step : ∀ p v, p ++ [.step v] <+: ts → ∃ e, .int3 e ∈ p ∧ e.vcpu = v ∧ toggles g e = true
  guest : ∀ a x, .guest a x ∈ ts → ∀ b, g.addr b ≠ a

theorem OurTicks.of_prefix {g : Globals} {p ts : List Tick} (h : OurTicks g ts) (hp : p <+: ts) : OurTicks g p where
  int3 e he := h.int3 e (hp.subset he)
  step q v hq := h.step q v (hq.trans hp)
  guest a x ha := h.guest a x (hp.subset ha)

/-- At one of the five addresses an int3 writes there. -/
theorem replaced_of_addr {g : Globals} {rip : Addr} (h : ∃ b, rip = g.addr b) :
    ∃ b, replaced g rip = (rip, g.byte b) := by
  cases hf : g.find rip with
  | none =>
    obtain ⟨b, hb⟩ := h
    exact absurd hb (find_eq_none.1 hf b)
  | some b => exact ⟨b, by simp [replaced, hf, addr_of_find hf]⟩

section

variable (ghostImage : String) (vmid : UInt64)

theorem runTicks_ownWrites (s : SyncState) (ts : List Tick) :
    ownWrites (runTicks ghostImage vmid s ts).trace = ownWrites s.trace ++ ts.flatMap tickOwn := by
  induction ts using List.reverseRecOn with
  | nil => simp
  | append_singleton ts t ih =>
    rw [runTicks_snoc]
    obtain ⟨quiet, h⟩ := tick_effect ghostImage vmid (runTicks ghostImage vmid s ts) t
    rw [h.ownWrites, ih, List.flatMap_append, List.append_assoc]
    simp

theorem runTicks_isSome (s : SyncState) (a : Addr) (ts : List Tick) :
    ((runTicks ghostImage vmid s ts).mem a).isSome = (s.mem a).isSome := by
  induction ts using List.reverseRecOn with
  | nil => rfl
  | append_singleton ts t ih =>
    rw [runTicks_snoc]
    obtain ⟨quiet, h⟩ := tick_effect ghostImage vmid (runTicks ghostImage vmid s ts) t
    rw [h.mem, ← ih]
    cases tickWrite (runTicks ghostImage vmid s ts).g t with
    | none => rfl
    | some w => exact poke_isSome _ _ _ _

/-- After an int3 at one of the five, a step writes at one of the five. -/
theorem runTicks_stepRewriteLoc (s : SyncState) (ts : List Tick) (hours : OurTicks s.g ts) {e : Int3}
    (he : .int3 e ∈ ts) : ∃ b, (runTicks ghostImage vmid s ts).g.stepRewriteLoc = s.g.addr b := by
  induction ts using List.reverseRecOn with
  | nil => cases he
  | append_singleton ts t ih =>
    have ho := hours.of_prefix (List.prefix_append ts [t])
    rw [runTicks_snoc]
    obtain ⟨quiet, h⟩ := tick_effect ghostImage vmid (runTicks ghostImage vmid s ts) t
    rw [h.g]
    cases t with
    | int3 e' => exact hours.int3 e' (by simp)
    | step v =>
      have hm : .int3 e ∈ ts := by simpa using he
      simp only [tickGlobals]
      split <;> exact ih ho hm
    | guest a x => exact ih ho (by simpa using he)
    | ret ok =>
      have hm : .int3 e ∈ ts := by simpa using he
      simp only [tickGlobals]
      split <;> exact ih ho hm

/-- **Outside the five addresses only the guest's own writes count.** -/
theorem runTicks_memOff (s : SyncState) (a : Addr) (ha : ∀ b, s.g.addr b ≠ a) (ts : List Tick)
    (hours : OurTicks s.g ts) : (runTicks ghostImage vmid s ts).mem a = pokes s.mem (ts.flatMap tickOwn) a := by
  induction ts using List.reverseRecOn with
  | nil => rfl
  | append_singleton ts t ih =>
    have ih := ih (hours.of_prefix (List.prefix_append ts [t]))
    have hsame := runTicks_same ghostImage vmid s ts
    rw [runTicks_snoc, List.flatMap_append, pokes_append]
    obtain ⟨quiet, h⟩ := tick_effect ghostImage vmid (runTicks ghostImage vmid s ts) t
    rw [h.mem]
    cases t with
    | int3 e =>
      obtain ⟨b, hb⟩ := hours.int3 e (by simp)
      have hat : ∃ b, e.regs.rip = (runTicks ghostImage vmid s ts).g.addr b := ⟨b, by rw [hsame.addr, hb]⟩
      obtain ⟨b', hb'⟩ := replaced_of_addr hat
      simp only [tickWrite, hb', pokeTick]
      rw [poke_of_ne _ _ (fun e => ha b (hb.symm.trans e.symm)), ih]
      rfl
    | step v =>
      obtain ⟨e, he, -, -⟩ := hours.step ts v List.prefix_rfl
      obtain ⟨b, hb⟩ := runTicks_stepRewriteLoc ghostImage vmid s ts (hours.of_prefix (List.prefix_append ts _)) he
      simp only [tickWrite]
      split
      · exact ih
      · simp only [pokeTick, hb]
        rw [poke_of_ne _ _ (fun e => ha b e.symm), ih]
        rfl
    | guest x v => exact pokes_congr a [(x, v)] _ _ ih
    | ret ok => exact ih

end

variable {ghostImage : String} {c : SyncCall} {g : Globals} {guest : Guest} {ret : Int} {s' : SyncState}

/-- What the guest may do of its own, during one call: nothing at the five bytes. -/
structure OurCall (c : SyncCall) (g : Globals) (guest : Guest) : Prop where
  ticks : OurTicks (installed c g guest).g c.ticks
  late : ∀ b, ∀ w ∈ c.late b, ∀ b', resolved c g b' ≠ w.1

theorem doSync_ownWrites {used : List Tick}
    (hs : s' = finish c (runTicks ghostImage c.vmid (listening c g guest) used)) :
    ownWrites s'.trace = used.flatMap tickOwn ++ replaceOrder.flatMap c.late := by
  rw [hs, (finish_effect c _).ownWrites, runTicks_ownWrites, listening_ownWrites, List.nil_append]

/-- **Off the five addresses** a call leaves the memory the guest's own writes made. -/
theorem doSync_memOff (hfn : resolved c g .dwork ≠ 0) (hours : OurCall c g guest)
    (h : doSync ghostImage c g guest = some (ret, s')) (a : Addr) (ha : ∀ b, resolved c g b ≠ a) :
    s'.mem a = pokes guest.mem (ownWrites s'.trace) a := by
  obtain ⟨-, used, hpre, hs, -⟩ := doSync_loop hfn h
  have haddr : ∀ b, (listening c g guest).g.addr b ≠ a := fun b => by rw [listening_addr]; exact ha b
  have hrun : (runTicks ghostImage c.vmid (listening c g guest) used).g.addr = (listening c g guest).g.addr :=
    (runTicks_same ghostImage c.vmid _ used).addr
  have hplant : (installed c g guest).mem a = guest.mem a := by
    have hp := congrArg Prod.fst (installed_spec c g guest).plant
    exact (congrFun hp a).trans (plant_of_ne _ _ a _ _ (fun b _ => ha b))
  rw [doSync_ownWrites hs, hs, (finish_effect c _).memOff (fun b => by rw [hrun]; exact haddr b), pokes_append]
  apply pokes_congr a _ _ _
  rw [runTicks_memOff _ _ _ a haddr used (hours.ticks.of_prefix hpre)]
  exact pokes_congr a _ _ _ hplant

/-- **At the five addresses** it leaves what was saved there, in the order of restoring. -/
theorem doSync_memAt (hfn : resolved c g .dwork ≠ 0) (hours : OurCall c g guest)
    (h : doSync ghostImage c g guest = some (ret, s')) (b : Bp) :
    ∃ m : GuestMem, (∀ a, (m a).isSome = (guest.mem a).isSome) ∧
      s'.mem (resolved c g b) = restore (resolved c g)
        (plant (resolved c g) breakpointByte installOrder (guest.mem, g.byte)).2 replaceOrder m (resolved c g b) := by
  obtain ⟨-, used, -, rfl, -⟩ := doSync_loop hfn h
  have hi := installed_spec c g guest
  have hsame := runTicks_same ghostImage c.vmid (listening c g guest) used
  refine ⟨(runTicks ghostImage c.vmid (listening c g guest) used).mem, fun a => ?_, ?_⟩
  · rw [runTicks_isSome]
    have hp := congrFun (congrArg Prod.fst hi.plant) a
    exact (congrArg Option.isSome hp).trans (plant_isSome _ _ a _ _)
  · rw [(finish_effect c _).memAt (fun b' w hw e => hours.late b' w hw b e.symm), hsame.addr, hsame.byte,
      listening_addr]
    have hb : (listening c g guest).g.byte = (plant (resolved c g) breakpointByte installOrder (guest.mem, g.byte)).2 :=
      congrArg Prod.snd hi.plant
    rw [hb]

/-- Nothing the guest writes is at a breakpoint. -/
theorem ownWrites_off (hfn : resolved c g .dwork ≠ 0) (hours : OurCall c g guest)
    (h : doSync ghostImage c g guest = some (ret, s')) (b : Bp) : ∀ w ∈ ownWrites s'.trace, w.1 ≠ resolved c g b := by
  obtain ⟨-, used, hpre, hs, -⟩ := doSync_loop hfn h
  rw [doSync_ownWrites hs]
  intro w hw e
  rcases List.mem_append.1 hw with hw | hw
  · obtain ⟨t, ht, hwt⟩ := List.mem_flatMap.1 hw
    cases t with
    | guest a x =>
      obtain rfl := List.mem_singleton.1 hwt
      apply hours.ticks.guest a x (hpre.subset ht) b
      rw [(installed_spec c g guest).addr]
      exact e.symm
    | _ => cases hwt
  · obtain ⟨b', -, hwb⟩ := List.mem_flatMap.1 hw
    exact hours.late b' w hwb b e.symm

/-- **Guest code is restored**: at distinct breakpoint addresses, and whatever ended the event loop, a call that did
not leave at once leaves the memory it found, with the guest's own writes made to it. -/
theorem doSync_restores_memory (ghostImage : String) (c : SyncCall) (g : Globals) (guest : Guest) (ret : Int)
    (s' : SyncState) (hinj : Function.Injective (resolved c g)) (hfn : resolved c g .dwork ≠ 0)
    (hours : OurCall c g guest) (h : doSync ghostImage c g guest = some (ret, s')) :
    s'.mem = pokes guest.mem (ownWrites s'.trace) := by
  funext a
  by_cases ha : ∃ b, resolved c g b = a
  · obtain ⟨b, rfl⟩ := ha
    obtain ⟨m, hm, hat⟩ := doSync_memAt hfn hours h b
    rw [hat, restore_plant (by decide) (by decide) hinj (mem_installOrder b) (mem_replaceOrder b) (hm _)]
    exact (pokes_of_not_mem _ _ _ (ownWrites_off hfn hours h b)).symm
  · exact doSync_memOff hfn hours h a (fun b hb => ha ⟨b, hb⟩)

/-- A vCPU at the end of dwork, its step, and the listen's return. -/
theorem doSync_restores_memory_nop : ∃ s', doSync "ghost.img"
    (nopCall [.int3 (hit 0 0x20aa), .step 0, .ret true]) .fresh nopGuest = some (0, s') ∧
      s'.mem = pokes nopGuest.mem (ownWrites s'.trace) := by
  have hsome : (doSync "ghost.img" (nopCall [.int3 (hit 0 0x20aa), .step 0, .ret true]) .fresh nopGuest).isSome := by
    decide +kernel
  obtain ⟨⟨ret, s'⟩, h⟩ := Option.isSome_iff_exists.1 hsome
  obtain rfl := doSync_ret h
  have haddr := (installed_spec (nopCall [.int3 (hit 0 0x20aa), .step 0, .ret true]) .fresh nopGuest).addr
  have hat : (hit 0 0x20aa).regs.rip = resolved (nopCall []) .fresh .dworkBack := by decide
  refine ⟨s', h, doSync_restores_memory _ _ _ _ _ s' (nopCall_injective _ _) (by decide) ⟨⟨?_, ?_, ?_⟩, ?_⟩ h⟩
  · rintro e he
    obtain rfl : e = hit 0 0x20aa := by simpa [nopCall] using he
    exact ⟨.dworkBack, by rw [haddr]; exact hat⟩
  · rintro p v hp
    obtain ⟨rfl, rfl⟩ : p = [.int3 (hit 0 0x20aa)] ∧ v = 0 := by
      rcases p with _ | ⟨x, _ | ⟨y, _ | ⟨z, p⟩⟩⟩ <;> simp_all [nopCall]
    refine ⟨hit 0 0x20aa, by simp, rfl, ?_⟩
    unfold toggles replyAt
    have hf : (installed (nopCall [.int3 (hit 0 0x20aa), .step 0, .ret true]) .fresh nopGuest).g.find
        (hit 0 0x20aa).regs.rip = some .dworkBack := by
      unfold Globals.find
      rw [haddr]
      decide
    rw [hf]
    rfl
  · rintro a x ha
    simp [nopCall] at ha
  · rintro b w hw
    cases hw

end Hyperagents
