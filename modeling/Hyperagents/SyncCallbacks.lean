import Hyperagents.SyncState
/-!
# The two event callbacks

`intCbFront` answers an int3.  It counts it, finds which breakpoint it is at, does what the phase asks for, and then,
whichever branch it took, writes `byte_replacement` at `byte_location` and leaves `rip` in `step_rewrite_loc`.  At an
address it does not know the two locals still have their initial zeros.  `stepCbFront` answers a single step: it puts
the breakpoint byte back at `step_rewrite_loc`, or, once the clean-up has begun, pauses the guest and ends the event
loop.

`intCbFront_effect` and `stepCbFront_effect` say what a callback leaves of the state; nothing later unfolds one.
-/
namespace Hyperagents

open Planting

/-- The reply an int3 gets by default: a single step, the registers as they are, no reinjection. -/
def stepReply (e : Int3) : IntReply := ⟨true, false, e.regs, 0⟩

/-- The first lines of `int_cb_front`: the safety counter, then the registers of the vCPU. -/
def countInt (e : Int3) (s : SyncState) : SyncState :=
  let safety := s.g.safety + 1
  let s := { s with g := { s.g with
    safety := safety
    interrupted := if 50 < safety then 1 else s.g.interrupted } }
  [Reg.rip, .rdx, .rax, .rsp, .rbp].foldl (fun s r => s.vmi (.getVcpureg r e.vcpu)) s

/-- Step 0: a vCPU at `queue_work_on`. -/
def atQworko (e : Int3) (s : SyncState) : SyncState × IntReply :=
  if s.g.quietQwork = 0 then
    let workFn := (read64 s.mem (e.regs.rdx + 24)).getD 0  -- work_func_t of work_struct
    let s := s.vmi (.read64Va (e.regs.rdx + 24))
    if workFn = s.g.targetWorkFn then ({ s with g := { s.g with quietQwork := 1 } }, stepReply e)
    else (s, stepReply e)
  else (s, stepReply e)

/-- Step 1: from the beginning of dwork to the beginning of sys_sync. -/
def atDwork (e : Int3) (s : SyncState) : SyncState × IntReply :=
  ({ s with g := { s.g with
      ourStack := e.regs.rsp
      ourFrame := e.regs.rbp
      savedRdi := e.regs.rdi
      savedRsi := e.regs.rsi
      savedRdx := e.regs.rdx } },
    ⟨false, true, { e.regs with rip := s.g.addr .sysSyncFront }, 0⟩)

/-- Step 2: confirmation that a vCPU made it to sys_sync. -/
def atSysSyncFront (e : Int3) (s : SyncState) : SyncState × IntReply := (s, ⟨false, false, e.regs, 0⟩)

/-- Step 3: the tail end of sys_sync; back to dwork. -/
def atSysSyncBack (e : Int3) (s : SyncState) : SyncState × IntReply :=
  (s, ⟨false, true, { e.regs with
    rip := s.g.addr .dwork
    rdi := s.g.savedRdi
    rsi := s.g.savedRsi
    rdx := s.g.savedRdx }, 0⟩)

/-- Step 4: back in dwork, the clean-up begins. -/
def atDworkBack (e : Int3) (s : SyncState) : SyncState × IntReply :=
  (printRegs { s with g := { s.g with doCleanup := 1 } }, stepReply e)

def intPhase (found : Option Bp) (e : Int3) (s : SyncState) : SyncState × IntReply :=
  match found with
  | some .qworko => atQworko e s
  | some .dwork => atDwork e s
  | some .sysSyncFront => atSysSyncFront e s
  | some .sysSyncBack => atSysSyncBack e s
  | some .dworkBack => atDworkBack e s
  | none => (s, stepReply e)  -- where on earth are we?

def intCbFront (e : Int3) (s : SyncState) : SyncState × IntReply :=
  let rip := e.regs.rip
  let s := countInt e s
  let found := s.g.find rip
  let byteLocation := (found.map s.g.addr).getD 0
  let byteReplacement := (found.map s.g.byte).getD 0
  let (s, reply) := intPhase found e s
  let s := s.vmi (.read64Va rip)
  let s := s.write8 byteLocation byteReplacement  -- Remove 0xCC.
  let s := s.vmi (.read64Va rip)
  ({ s with g := { s.g with stepRewriteLoc := rip } }, reply)

def stepCbFront (vcpu : Nat) (s : SyncState) : SyncState :=
  let s := s.vmi (.getVcpureg .rip vcpu)
  if s.g.doCleanup = 1 then { s with g := { s.g with interrupted := 1 } }.pauseVm
  else
    let s := s.vmi (.read64Va s.g.stepRewriteLoc)
    let s := s.write8 s.g.stepRewriteLoc breakpointByte  -- Reinstall 0xCC.
    s.vmi (.read64Va s.g.stepRewriteLoc)

/-! ## What a callback leaves of the state -/

/-- What the callbacks never change: the breakpoints, the bytes saved for them, the work function. -/
structure SameBreakpoints (g g' : Globals) : Prop where
  addr : g'.addr = g.addr
  byte : g'.byte = g.byte
  targetWorkFn : g'.targetWorkFn = g.targetWorkFn

theorem SameBreakpoints.rfl {g : Globals} : SameBreakpoints g g := ⟨Eq.refl _, Eq.refl _, Eq.refl _⟩

theorem SameBreakpoints.trans {g g' g'' : Globals} (h : SameBreakpoints g g') (h' : SameBreakpoints g' g'') :
    SameBreakpoints g g'' :=
  ⟨h'.addr.trans h.addr, h'.byte.trans h.byte, h'.targetWorkFn.trans h.targetWorkFn⟩

theorem SameBreakpoints.find {g g' : Globals} (h : SameBreakpoints g g') : g'.find = g.find := by
  funext rip
  unfold Globals.find
  rw [h.addr]

/-- A breakpoint that is found stands at the address asked for. -/
theorem addr_of_find {g : Globals} {rip : Addr} {b : Bp} (h : g.find rip = some b) : g.addr b = rip := by
  unfold Globals.find at h
  split at h
  · rename_i hr; cases h; exact hr.symm
  split at h
  · rename_i hr; cases h; exact hr.symm
  split at h
  · rename_i hr; cases h; exact hr.symm
  split at h
  · rename_i hr; cases h; exact hr.symm
  split at h
  · rename_i hr; cases h; exact hr.symm
  · cases h

theorem find_eq_none {g : Globals} {rip : Addr} : g.find rip = none ↔ ∀ b, rip ≠ g.addr b := by
  constructor
  · intro h b hb
    unfold Globals.find at h
    split at h; · cases h
    split at h; · cases h
    split at h; · cases h
    split at h; · cases h
    split at h; · cases h
    cases b <;> contradiction
  · intro h
    unfold Globals.find
    simp [h]

/-- What an int3 leaves of the globals, by the breakpoint it was found at. -/
def intGlobals (g : Globals) (e : Int3) (quiet : Int) : Globals :=
  let found := g.find e.regs.rip
  { g with
    safety := g.safety + 1
    interrupted := if 50 < g.safety + 1 then 1 else g.interrupted
    doCleanup := if found = some .dworkBack then 1 else g.doCleanup
    quietQwork := quiet
    stepRewriteLoc := e.regs.rip
    ourStack := if found = some .dwork then e.regs.rsp else g.ourStack
    ourFrame := if found = some .dwork then e.regs.rbp else g.ourFrame
    savedRdi := if found = some .dwork then e.regs.rdi else g.savedRdi
    savedRsi := if found = some .dwork then e.regs.rsi else g.savedRsi
    savedRdx := if found = some .dwork then e.regs.rdx else g.savedRdx }

/-- The reply of an int3, by the breakpoint it was found at. -/
def replyAt (g : Globals) (e : Int3) : IntReply :=
  match g.find e.regs.rip with
  | some .dwork => ⟨false, true, { e.regs with rip := g.addr .sysSyncFront }, 0⟩
  | some .sysSyncFront => ⟨false, false, e.regs, 0⟩
  | some .sysSyncBack =>
    ⟨false, true, { e.regs with rip := g.addr .dwork, rdi := g.savedRdi, rsi := g.savedRsi, rdx := g.savedRdx }, 0⟩
  | _ => stepReply e

/-- Where an int3 writes, and what: the byte saved for the breakpoint it is at, or a zero at address zero. -/
def replaced (g : Globals) (rip : Addr) : Addr × Byte :=
  ((((g.find rip).map g.addr).getD 0), (((g.find rip).map g.byte).getD 0))

/-- What a callback leaves of a state: the globals, the memory, the paused flag, and LibVMI calls in the trace. -/
structure Effect (s s' : SyncState) (g : Globals) (mem : GuestMem) (paused : Bool) : Prop where
  g : s'.g = g
  mem : s'.mem = mem
  paused : s'.paused = paused
  attached : s'.attached = s.attached
  replies : replies s'.trace = replies s.trace
  ownWrites : ownWrites s'.trace = ownWrites s.trace

theorem countInt_find (e : Int3) (s : SyncState) : (countInt e s).g.find = s.g.find := rfl

theorem intPhase_reply (e : Int3) (s : SyncState) :
    (intPhase (s.g.find e.regs.rip) e (countInt e s)).2 = replyAt s.g e := by
  unfold replyAt
  cases s.g.find e.regs.rip with
  | none => rfl
  | some b =>
    cases b with
    | qworko =>
      simp only [intPhase, atQworko]
      split
      · split <;> rfl
      · rfl
    | _ => rfl

/-- **What an int3 leaves of the state.** -/
theorem intCbFront_effect (e : Int3) (s : SyncState) :
    (intCbFront e s).2 = replyAt s.g e ∧
    ∃ quiet, Effect s (intCbFront e s).1 (intGlobals s.g e quiet)
      (poke s.mem (replaced s.g e.regs.rip).1 (replaced s.g e.regs.rip).2) s.paused := by
  refine ⟨intPhase_reply e s, ?_⟩
  unfold intCbFront
  simp only [countInt_find]
  unfold intGlobals replaced
  cases hf : s.g.find e.regs.rip with
  | none => exact ⟨s.g.quietQwork, rfl, rfl, rfl, rfl, by simp [intPhase, countInt, replies],
      by simp [intPhase, countInt, ownWrites]⟩
  | some b =>
    cases b with
    | qworko =>
      simp only [intPhase, atQworko]
      split
      · split
        · exact ⟨1, rfl, rfl, rfl, rfl, by simp [countInt, replies], by simp [countInt, ownWrites]⟩
        · exact ⟨s.g.quietQwork, rfl, rfl, rfl, rfl, by simp [countInt, replies], by simp [countInt, ownWrites]⟩
      · exact ⟨s.g.quietQwork, rfl, rfl, rfl, rfl, by simp [countInt, replies], by simp [countInt, ownWrites]⟩
    | dwork => exact ⟨s.g.quietQwork, rfl, rfl, rfl, rfl, by simp [intPhase, atDwork, countInt, replies],
        by simp [intPhase, atDwork, countInt, ownWrites]⟩
    | sysSyncFront => exact ⟨s.g.quietQwork, rfl, rfl, rfl, rfl, by simp [intPhase, atSysSyncFront, countInt, replies],
        by simp [intPhase, atSysSyncFront, countInt, ownWrites]⟩
    | sysSyncBack => exact ⟨s.g.quietQwork, rfl, rfl, rfl, rfl, by simp [intPhase, atSysSyncBack, countInt, replies],
        by simp [intPhase, atSysSyncBack, countInt, ownWrites]⟩
    | dworkBack => exact ⟨s.g.quietQwork, rfl, rfl, rfl, rfl,
        by simp [intPhase, atDworkBack, countInt, printRegs, replies],
        by simp [intPhase, atDworkBack, countInt, printRegs, ownWrites]⟩

/-- **What a single step leaves of the state.** -/
theorem stepCbFront_effect (vcpu : Nat) (s : SyncState) :
    Effect s (stepCbFront vcpu s)
      (if s.g.doCleanup = 1 then { s.g with interrupted := 1 } else s.g)
      (if s.g.doCleanup = 1 then s.mem else poke s.mem s.g.stepRewriteLoc breakpointByte)
      (if s.g.doCleanup = 1 then true else s.paused) := by
  unfold stepCbFront
  by_cases hc : s.g.doCleanup = 1
  · simp only [SyncState.vmi_g, hc, if_true]
    exact ⟨rfl, rfl, rfl, rfl, by simp [replies], by simp [ownWrites]⟩
  · simp only [SyncState.vmi_g, hc, if_false]
    exact ⟨rfl, rfl, rfl, rfl, by simp [replies], by simp [ownWrites]⟩

theorem intGlobals_same (g : Globals) (e : Int3) (quiet : Int) : SameBreakpoints g (intGlobals g e quiet) :=
  ⟨rfl, rfl, rfl⟩

end Hyperagents
