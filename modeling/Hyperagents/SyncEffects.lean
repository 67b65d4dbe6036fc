import Hyperagents.SyncDetour
/-!
# What a call does to the world

`effects` keeps of a trace what is seen outside the process: the writes LibVMI performed, the int3s whose reply set
the registers, the pauses and resumes, the commands.  A write to an unmapped address fails and is not among them, nor
is anything only read.  For each stage of a call its effects are a list told from the globals and the memory before
it.
-/
namespace Hyperagents

open Planting

def VmiCall.isEffect : VmiCall → Bool
  | .write8Va _ _ done => done
  | .pauseVm | .resumeVm => true
  | .getVmid | .getName | .getOstype | .initComplete | .destroy | .translateKsym2v _ | .read8Va _ | .read64Va _ => false
  | .getVcpureg _ _ | .registerEvent | .clearEvent | .eventsListen => false

def Act.isEffect : Act → Bool
  | .vmi c => c.isEffect
  | .int3 _ r => r.setRegisters
  | .system _ => true
  | .step _ | .guest _ _ => false

def effects (t : List Act) : List Act := t.filter Act.isEffect

theorem effects_append (t u : List Act) : effects (t ++ u) = effects t ++ effects u := List.filter_append t u

theorem mem_effects {t : List Act} {a : Act} : a ∈ effects t ↔ a ∈ t ∧ a.isEffect = true := List.mem_filter

/-- An entry seen outside is the last of the effects; any other adds nothing. -/
theorem effects_snoc (t : List Act) (a : Act) :
    effects (t ++ [a]) = effects t ++ if a.isEffect = true then [a] else [] := by
  rw [effects_append]
  congr 1
  cases h : a.isEffect <;> simp [effects, h]

/-- A write of one byte, as the trace has it: performed where the address is mapped. -/
def writeAct (m : GuestMem) (a : Addr) (b : Byte) : Act := .vmi (.write8Va a b (m a).isSome)

theorem printRegs_effects (s : SyncState) : effects (printRegs s).trace = effects s.trace := by
  simp only [printRegs, List.foldl_cons, List.foldl_nil, SyncState.vmi_trace, effects_snoc, Act.isEffect,
    VmiCall.isEffect, Bool.false_eq_true, if_false, List.append_nil]

/-! ## The callbacks -/

theorem countInt_effects (e : Int3) (s : SyncState) : effects (countInt e s).trace = effects s.trace := by
  simp only [countInt, List.foldl_cons, List.foldl_nil, SyncState.vmi_trace, effects_snoc, Act.isEffect,
    VmiCall.isEffect, Bool.false_eq_true, if_false, List.append_nil]

theorem intPhase_effects (found : Option Bp) (e : Int3) (s : SyncState) :
    effects (intPhase found e s).1.trace = effects s.trace := by
  cases found with
  | none => rfl
  | some b =>
    cases b with
    | qworko =>
      simp only [intPhase, atQworko]
      split
      · split <;> simp only [SyncState.vmi_trace, effects_snoc, Act.isEffect, VmiCall.isEffect, Bool.false_eq_true,
          if_false, List.append_nil]
      · rfl
    | dworkBack => exact printRegs_effects _
    | _ => rfl

theorem intPhase_mem (found : Option Bp) (e : Int3) (s : SyncState) : (intPhase found e s).1.mem = s.mem := by
  cases found with
  | none => rfl
  | some b =>
    cases b with
    | qworko =>
      simp only [intPhase, atQworko]
      split
      · split <;> rfl
      · rfl
    | _ => rfl

theorem intCbFront_effects (e : Int3) (s : SyncState) : effects (intCbFront e s).1.trace =
    effects s.trace ++ effects [writeAct s.mem (replaced s.g e.regs.rip).1 (replaced s.g e.regs.rip).2] := by
  have hmem := intPhase_mem (s.g.find e.regs.rip) e (countInt e s)
  have heff := intPhase_effects (s.g.find e.regs.rip) e (countInt e s)
  unfold intCbFront
  simp only [countInt_find, SyncState.vmi_trace, SyncState.write8_trace, SyncState.vmi_mem, hmem]
  generalize intPhase (s.g.find e.regs.rip) e (countInt e s) = r at heff ⊢
  rw [effects_snoc, effects_append, effects_snoc, heff, countInt_effects]
  simp only [Act.isEffect, VmiCall.isEffect, Bool.false_eq_true, if_false, List.append_nil]
  rfl

theorem stepCbFront_effects (vcpu : Nat) (s : SyncState) : effects (stepCbFront vcpu s).trace = effects s.trace ++
    if s.g.doCleanup = 1 then [.vmi .pauseVm] else effects [writeAct s.mem s.g.stepRewriteLoc breakpointByte] := by
  unfold stepCbFront
  by_cases hc : s.g.doCleanup = 1
  · simp only [SyncState.vmi_g, hc, if_true, SyncState.pauseVm_trace, SyncState.vmi_trace, effects_snoc, Act.isEffect,
      VmiCall.isEffect, Bool.false_eq_true, if_false, List.append_nil]
  · simp only [SyncState.vmi_g, hc, if_false, SyncState.vmi_trace, SyncState.write8_trace, SyncState.vmi_mem,
      SyncState.write8_g]
    rw [effects_snoc, effects_append, effects_snoc, effects_snoc]
    simp only [Act.isEffect, VmiCall.isEffect, Bool.false_eq_true, if_false, List.append_nil]
    rfl

/-! ## One tick -/

/-- The effects of a tick. -/
def tickEffects (ghostImage : String) (vmid : UInt64) (s : SyncState) : Tick → List Act
  | .int3 e => effects [writeAct s.mem (replaced s.g e.regs.rip).1 (replaced s.g e.regs.rip).2, .int3 e (replyAt s.g e)]
  | .step _ =>
    if s.g.doCleanup = 1 then [.vmi .pauseVm] else effects [writeAct s.mem s.g.stepRewriteLoc breakpointByte]
  | .guest _ _ => []
  | .ret ok =>
    (if ok then [] else [.vmi .pauseVm]) ++
      if s.attached then [] else [.system (.xlBlockAttach vmid ghostImage), .system (.xlBlockList vmid)]

section

variable (ghostImage : String) (vmid : UInt64)

theorem tick_effects (s : SyncState) (t : Tick) :
    effects (tick ghostImage vmid s t).trace = effects s.trace ++ tickEffects ghostImage vmid s t := by
  cases t with
  | int3 e =>
    show effects ((intCbFront e s).1.trace ++ [.int3 e (intCbFront e s).2]) = _
    rw [effects_append, intCbFront_effects, (intCbFront_effect e s).1, List.append_assoc]
    exact congrArg _ (effects_append [_] [_]).symm
  | step v =>
    show effects ((stepCbFront v s).trace ++ [.step v]) = _
    rw [effects_snoc, stepCbFront_effects]
    simp only [Act.isEffect, Bool.false_eq_true, if_false, List.append_nil, tickEffects]
  | guest a b =>
    show effects (s.trace ++ [.guest a b]) = _
    rw [effects_snoc]
    rfl
  | ret ok =>
    simp only [tick, afterListen, tickEffects]
    cases ok <;> cases ha : s.attached <;>
      simp only [SyncState.vmi_attached, SyncState.pauseVm_attached, ha, if_true, if_false, Bool.false_eq_true,
        SyncState.vmi_trace, SyncState.pauseVm_trace, SyncState.system_trace, effects_snoc, Act.isEffect,
        VmiCall.isEffect, List.append_nil, List.nil_append] <;>
      simp only [List.append_assoc, List.cons_append, List.nil_append]

theorem tick_attached (s : SyncState) (t : Tick) :
    (tick ghostImage vmid s t).attached = (s.attached || t.isRet) := by
  cases t with
  | int3 e =>
    obtain ⟨-, quiet, h⟩ := intCbFront_effect e s
    show (intCbFront e s).1.attached = _
    rw [h.attached]
    exact (Bool.or_false _).symm
  | step v =>
    show (stepCbFront v s).attached = _
    rw [(stepCbFront_effect v s).attached]
    exact (Bool.or_false _).symm
  | guest a b => exact (Bool.or_false _).symm
  | ret ok =>
    simp only [tick, afterListen, Tick.isRet, Bool.or_true]
    cases ok <;> cases ha : s.attached <;> simp [ha]

end

/-! ## Installing, taking out -/

theorem installStep_effects (c : SyncCall) (s : SyncState) (b : Bp) : effects (installStep c s b).trace =
    effects s.trace ++ effects [writeAct s.mem (resolved c s.g b) breakpointByte] := by
  simp only [installStep, patch, lookupSym, SyncState.vmi_trace, SyncState.write8_trace, SyncState.vmi_mem,
    SyncState.vmi_g, ← lookup_addr_self]
  rw [effects_snoc, effects_append, effects_snoc, effects_snoc, effects_snoc]
  simp only [Act.isEffect, VmiCall.isEffect, Bool.false_eq_true, if_false, List.append_nil]
  rfl

theorem installStep_isSome (c : SyncCall) (s : SyncState) (b : Bp) (a : Addr) :
    ((installStep c s b).mem a).isSome = (s.mem a).isSome := poke_isSome s.mem _ a _

theorem foldl_installStep_effects (c : SyncCall) : ∀ (ks : List Bp) (s : SyncState), ks.Nodup →
    effects (ks.foldl (installStep c) s).trace = effects s.trace ++
      effects (ks.map (fun b => writeAct s.mem (resolved c s.g b) breakpointByte))
  | [], s, _ => by simp [effects]
  | k :: ks, s, h => by
    obtain ⟨hk, hks⟩ := List.nodup_cons.1 h
    have hmap : ks.map (fun b => writeAct (installStep c s k).mem (resolved c (installStep c s k).g b) breakpointByte) =
        ks.map (fun b => writeAct s.mem (resolved c s.g b) breakpointByte) :=
      List.map_congr_left (fun b hb => by
        rw [resolved_installStep c s (fun e : b = k => hk (e ▸ hb))]
        unfold writeAct
        rw [installStep_isSome])
    rw [List.foldl_cons, foldl_installStep_effects c ks _ hks, installStep_effects, hmap, List.append_assoc,
      ← effects_append, List.map_cons, List.singleton_append]

/-- The effects of installing: a pause and five writes. -/
def installEffects (c : SyncCall) (g : Globals) (m : GuestMem) : List Act :=
  .vmi .pauseVm :: effects (installOrder.map (fun b => writeAct m (resolved c g b) breakpointByte))

theorem installed_effects (c : SyncCall) (g : Globals) (guest : Guest) :
    effects (installed c g guest).trace = installEffects c g guest.mem := by
  rw [installed_eq]
  exact foldl_installStep_effects c installOrder (entered g guest) (by decide)

theorem listening_effects (c : SyncCall) (g : Globals) (guest : Guest) :
    effects (listening c g guest).trace = installEffects c g guest.mem ++ [.vmi .resumeVm] := by
  rw [← installed_effects]
  simp only [listening, startEvents, SyncState.resumeVm_trace, SyncState.vmi_trace, effects_snoc, Act.isEffect,
    VmiCall.isEffect, Bool.false_eq_true, if_false, if_true, List.append_nil]

theorem guestWrites_effects : ∀ (ws : List (Addr × Byte)) (s : SyncState),
    effects (s.guestWrites ws).trace = effects s.trace
  | [], _ => rfl
  | w :: ws, s => by
    refine (guestWrites_effects ws (s.guestWrite w.1 w.2)).trans ?_
    rw [SyncState.guestWrite_trace, effects_snoc]
    exact List.append_nil _

theorem replaceByte_effects (c : SyncCall) (s : SyncState) (b : Bp) : effects (replaceByte c s b).trace =
    effects s.trace ++ effects [writeAct (pokes s.mem (c.late b)) (s.g.addr b) (s.g.byte b)] := by
  simp only [replaceByte, SyncState.vmi_trace, SyncState.write8_trace, SyncState.vmi_mem, SyncState.vmi_g,
    SyncState.write8_g, guestWrites_g, guestWrites_mem]
  rw [effects_snoc, effects_append, effects_snoc, guestWrites_effects]
  simp only [Act.isEffect, VmiCall.isEffect, Bool.false_eq_true, if_false, List.append_nil]
  rfl

theorem replaceByte_attached (c : SyncCall) (s : SyncState) (b : Bp) : (replaceByte c s b).attached = s.attached := by
  have h : ∀ (ws : List (Addr × Byte)) (s : SyncState), (s.guestWrites ws).attached = s.attached := fun ws => by
    induction ws with
    | nil => exact fun _ => rfl
    | cons w ws ih => exact fun s => ih (s.guestWrite w.1 w.2)
  exact h (c.late b) s

theorem finish_effects (c : SyncCall) (s : SyncState) : effects (finish c s).trace =
    effects (replaceMemory c ((s.vmi .clearEvent).vmi .clearEvent)).trace ++
      [.vmi .resumeVm, .system (.xlBlockDetach c.vmid), .system (.xlBlockList c.vmid)] := by
  simp only [finish, printRegs_effects, SyncState.system_trace, SyncState.resumeVm_trace, effects_snoc, Act.isEffect,
    VmiCall.isEffect, if_true]
  simp only [List.append_assoc, List.cons_append, List.nil_append]

/-! ## The commands of a call -/

/-- Taking the breakpoints out runs no command. -/
theorem replaceMemory_system (c : SyncCall) (k : ShellCmd) : ∀ (ks : List Bp) (s : SyncState),
    .system k ∈ effects (ks.foldl (replaceByte c) s).trace ↔ .system k ∈ effects s.trace
  | [], _ => Iff.rfl
  | b :: ks, s => by
    rw [List.foldl_cons, replaceMemory_system c k ks, replaceByte_effects, List.mem_append]
    exact or_iff_left (fun h => by
      have := (mem_effects.1 h).1
      simp [writeAct] at this)

theorem installEffects_system (c : SyncCall) (g : Globals) (m : GuestMem) (k : ShellCmd) :
    .system k ∉ installEffects c g m := by
  intro h
  rcases List.mem_cons.1 h with h | h
  · cases h
  · obtain ⟨b, -, hb⟩ := List.mem_map.1 (mem_effects.1 h).1
    cases hb

theorem finish_system (c : SyncCall) (s : SyncState) (k : ShellCmd) : .system k ∈ effects (finish c s).trace ↔
    .system k ∈ effects s.trace ∨ k = .xlBlockDetach c.vmid ∨ k = .xlBlockList c.vmid := by
  have hclear : effects ((s.vmi .clearEvent).vmi .clearEvent).trace = effects s.trace := by
    simp only [SyncState.vmi_trace, effects_snoc, Act.isEffect, VmiCall.isEffect, Bool.false_eq_true, if_false,
      List.append_nil]
  rw [finish_effects, List.mem_append, replaceMemory, replaceMemory_system, hclear]
  simp

theorem tickEffects_system {ghostImage : String} {vmid : UInt64} {s : SyncState} {t : Tick} {k : ShellCmd}
    (h : .system k ∈ tickEffects ghostImage vmid s t) : k = .xlBlockAttach vmid ghostImage ∨ k = .xlBlockList vmid := by
  cases t with
  | int3 e => exact absurd (mem_effects.1 h).1 (by simp [writeAct])
  | step v =>
    simp only [tickEffects] at h
    split at h
    · simp at h
    · exact absurd (mem_effects.1 h).1 (by simp [writeAct])
  | guest a b => cases h
  | ret ok =>
    simp only [tickEffects] at h
    cases ok <;> cases ha : s.attached <;> simp [ha] at h <;> exact h

theorem runTicks_system {ghostImage : String} {vmid : UInt64} {s : SyncState} {k : ShellCmd} (ts : List Tick)
    (h : .system k ∈ effects (runTicks ghostImage vmid s ts).trace) :
    .system k ∈ effects s.trace ∨ k = .xlBlockAttach vmid ghostImage ∨ k = .xlBlockList vmid := by
  induction ts using List.reverseRecOn with
  | nil => exact .inl h
  | append_singleton ts t ih =>
    rw [runTicks_snoc, tick_effects, List.mem_append] at h
    rcases h with h | h
    · exact ih h
    · exact .inr (tickEffects_system h)

def ShellCmd.isXl : ShellCmd → Bool
  | .xlBlockAttach _ _ | .xlBlockList _ | .xlBlockDetach _ => true
  | .umount _ | .umountLazy _ | .qemuNbdConnect _ _ | .qemuNbdDisconnect _ | .kpartxAdd _ | .mount _ _ _ => false

theorem listening_system (c : SyncCall) (g : Globals) (guest : Guest) (k : ShellCmd) :
    .system k ∉ effects (listening c g guest).trace := by
  rw [listening_effects, List.mem_append]
  rintro (h | h)
  · exact installEffects_system _ _ _ _ h
  · simp at h

/-- **The commands of a flush** attach, list and detach the ghost image. -/
theorem doSync_commands {ghostImage : String} {c : SyncCall} {g : Globals} {guest : Guest} {ret : Int} {s' : SyncState}
    (h : doSync ghostImage c g guest = some (ret, s')) {k : ShellCmd} (hk : .system k ∈ s'.trace) :
    k = .xlBlockAttach c.vmid ghostImage ∨ k = .xlBlockList c.vmid ∨ k = .xlBlockDetach c.vmid := by
  have hk' : .system k ∈ effects s'.trace := mem_effects.2 ⟨hk, rfl⟩
  by_cases hfn : resolved c g .dwork = 0
  · rw [doSync_exit hfn] at h
    cases h
    rw [installed_effects] at hk'
    exact absurd hk' (installEffects_system _ _ _ _)
  · obtain ⟨-, used, -, rfl, -⟩ := doSync_loop hfn h
    rcases (finish_system _ _ _).1 hk' with hk' | rfl | rfl
    · rcases runTicks_system used hk' with hk' | rfl | rfl
      · exact absurd hk' (listening_system _ _ _ _)
      · exact .inl rfl
      · exact .inr (.inl rfl)
    · exact .inr (.inr rfl)
    · exact .inr (.inl rfl)

theorem doSync_system {ghostImage : String} {c : SyncCall} {g : Globals} {guest : Guest} {ret : Int} {s' : SyncState}
    (h : doSync ghostImage c g guest = some (ret, s')) {k : ShellCmd} (hk : .system k ∈ s'.trace) : k.isXl = true := by
  rcases doSync_commands h hk with rfl | rfl | rfl <;> rfl

end Hyperagents
