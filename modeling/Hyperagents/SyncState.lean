import Hyperagents.Planting
import Hyperagents.Shell
/-!
# The state a flush works on: the module globals, the guest, the LibVMI calls

`do_sync` and its two event callbacks share file-level globals (`Globals`), kept from one call to the next.  The five
breakpoints each have an address, the byte found there and a debug copy of the word around it that is only printed;
the first two are `Globals.addr` and `Globals.byte`, indexed by `Bp`.

A guest is its memory, with the addresses LibVMI cannot translate unmapped, and whether its vCPUs are paused.  Every
LibVMI call and every command is recorded in `SyncState.trace`, oldest first, with what the guest itself does in
between: an int3 with the reply it got (`Act.int3`), a single step, a write of its own.
-/
namespace Hyperagents

open Planting

abbrev Addr := UInt64
abbrev Byte := UInt8
abbrev GuestMem := Mem Addr Byte

def breakpointByte : Byte := 0xCC

/-- The five breakpoints, under the names of the globals that hold their addresses. -/
inductive Bp
  | qworko
  | dwork
  | dworkBack
  | sysSyncFront
  | sysSyncBack
  deriving DecidableEq, Repr

/-- The kernel symbol a breakpoint's address is looked up from. -/
def Bp.symbol : Bp → String
  | .qworko => "queue_work_on"
  | .dwork => "deferred_probe_work_func"
  | .dworkBack => "deferred_probe_work_func"
  | .sysSyncFront => "sys_sync"
  | .sysSyncBack => "sys_sync"

/-- The offset added to the symbol's address (Fedora 25 specific). -/
def Bp.offset : Bp → Addr
  | .qworko => 0
  | .dwork => 0
  | .dworkBack => 170
  | .sysSyncFront => 0
  | .sysSyncBack => 156

structure Regs where
  rip : UInt64
  rax : UInt64 := 0
  rsp : UInt64 := 0
  rbp : UInt64 := 0
  rdi : UInt64 := 0
  rsi : UInt64 := 0
  rdx : UInt64 := 0
  deriving DecidableEq, Repr

inductive Reg
  | rip | rax | rsp | rbp | rdi | rdx
  deriving DecidableEq, Repr

/-- An int3 as the callback gets it.  `ctx` names the guest context running on the vCPU; no code reads it. -/
structure Int3 where
  vcpu : Nat
  ctx : Nat
  regs : Regs
  deriving DecidableEq, Repr

/-- What an event callback answers: the response bits it sets, the registers and the reinject mark it leaves in the
event. -/
structure IntReply where
  toggleSinglestep : Bool
  setRegisters : Bool
  regs : Regs
  reinject : Int
  deriving DecidableEq, Repr

/-- The file-level globals.  `kaslr_offset`, `our_stack` and `our_frame` are written and printed. -/
structure Globals where
  interrupted : Int
  doCleanup : Int
  quietQwork : Int
  safety : UInt64
  addr : Bp → Addr
  byte : Bp → Byte
  stepRewriteLoc : Addr
  targetWorkFn : Addr
  kaslrOffset : Addr
  ourStack : Addr
  ourFrame : Addr
  savedRdi : UInt64
  savedRsi : UInt64
  savedRdx : UInt64

/-- The globals of a fresh process. -/
def Globals.fresh : Globals where
  interrupted := 0
  doCleanup := 0
  quietQwork := 0
  safety := 0
  addr := fun _ => 0
  byte := fun _ => 0
  stepRewriteLoc := 0
  targetWorkFn := 0
  kaslrOffset := 0
  ourStack := 0
  ourFrame := 0
  savedRdi := 0
  savedRsi := 0
  savedRdx := 0

/-- Which breakpoint an int3 is at, in the order of the callback's tests. -/
def Globals.find (g : Globals) (rip : Addr) : Option Bp :=
  if rip = g.addr .qworko then some .qworko
  else if rip = g.addr .dwork then some .dwork
  else if rip = g.addr .sysSyncFront then some .sysSyncFront
  else if rip = g.addr .sysSyncBack then some .sysSyncBack
  else if rip = g.addr .dworkBack then some .dworkBack
  else none

inductive VmiCall
  | getVmid
  | getName
  | getOstype
  | initComplete
  | destroy
  | pauseVm
  | resumeVm
  | translateKsym2v (symbol : String)
  | read8Va (a : Addr)
  | read64Va (a : Addr)
  | write8Va (a : Addr) (b : Byte) (done : Bool)
  | getVcpureg (reg : Reg) (vcpu : Nat)
  | registerEvent
  | clearEvent
  | eventsListen
  deriving DecidableEq, Repr

/-- One entry of a flush's trace. -/
inductive Act
  | vmi (c : VmiCall)
  | int3 (e : Int3) (r : IntReply)
  | step (vcpu : Nat)
  | guest (a : Addr) (b : Byte)
  | system (c : ShellCmd)
  deriving DecidableEq, Repr

/-- `attached` is `do_sync`'s local; the rest of the record outlives the call. -/
structure SyncState where
  g : Globals
  mem : GuestMem
  paused : Bool
  attached : Bool
  trace : List Act

namespace SyncState

def emit (s : SyncState) (a : Act) : SyncState := { s with trace := s.trace ++ [a] }

/-- A LibVMI call with no effect on the guest. -/
def vmi (s : SyncState) (c : VmiCall) : SyncState := s.emit (.vmi c)

def system (s : SyncState) (c : ShellCmd) : SyncState := s.emit (.system c)

def pauseVm (s : SyncState) : SyncState := { s.vmi .pauseVm with paused := true }

def resumeVm (s : SyncState) : SyncState := { s.vmi .resumeVm with paused := false }

def write8 (s : SyncState) (a : Addr) (b : Byte) : SyncState :=
  { s.vmi (.write8Va a b (s.mem a).isSome) with mem := poke s.mem a b }

/-- A write the guest makes itself. -/
def guestWrite (s : SyncState) (a : Addr) (b : Byte) : SyncState :=
  { s.emit (.guest a b) with mem := poke s.mem a b }

def guestWrites (s : SyncState) (ws : List (Addr × Byte)) : SyncState :=
  ws.foldl (fun s w => s.guestWrite w.1 w.2) s

end SyncState

/-- Eight bytes from `a` on, little endian; nothing where one of them is unmapped. -/
def read64 (m : GuestMem) (a : Addr) : Option UInt64 :=
  (List.range 8).foldr (fun i acc => acc.bind (fun hi => (m (a + i.toUInt64)).map (fun b => hi * 256 + b.toUInt64)))
    (some 0)

def printRegs (s : SyncState) : SyncState :=
  [Reg.rip, .rsp, .rdi, .rax].foldl (fun s r => s.vmi (.getVcpureg r 0)) s

/-! ## What a trace says -/

/-- The int3s of a trace, each with its reply. -/
def replies (t : List Act) : List (Int3 × IntReply) :=
  t.filterMap fun
    | .int3 e r => some (e, r)
    | _ => none

/-- The writes of a trace the guest made itself. -/
def ownWrites (t : List Act) : List (Addr × Byte) :=
  t.filterMap fun
    | .guest a b => some (a, b)
    | _ => none

theorem replies_append (t u : List Act) : replies (t ++ u) = replies t ++ replies u := List.filterMap_append

theorem ownWrites_append (t u : List Act) : ownWrites (t ++ u) = ownWrites t ++ ownWrites u := List.filterMap_append

section

variable (t : List Act) (c : VmiCall) (k : ShellCmd) (e : Int3) (r : IntReply) (v : Nat) (a : Addr) (b : Byte)

@[simp] theorem replies_vmi : replies (t ++ [.vmi c]) = replies t := by simp [replies]
@[simp] theorem replies_system : replies (t ++ [.system k]) = replies t := by simp [replies]
@[simp] theorem replies_step : replies (t ++ [.step v]) = replies t := by simp [replies]
@[simp] theorem replies_guest : replies (t ++ [.guest a b]) = replies t := by simp [replies]
@[simp] theorem replies_int3 : replies (t ++ [.int3 e r]) = replies t ++ [(e, r)] := by simp [replies]

@[simp] theorem ownWrites_vmi : ownWrites (t ++ [.vmi c]) = ownWrites t := by simp [ownWrites]
@[simp] theorem ownWrites_system : ownWrites (t ++ [.system k]) = ownWrites t := by simp [ownWrites]
@[simp] theorem ownWrites_step : ownWrites (t ++ [.step v]) = ownWrites t := by simp [ownWrites]
@[simp] theorem ownWrites_int3 : ownWrites (t ++ [.int3 e r]) = ownWrites t := by simp [ownWrites]
@[simp] theorem ownWrites_guest : ownWrites (t ++ [.guest a b]) = ownWrites t ++ [(a, b)] := by simp [ownWrites]

end

namespace SyncState

variable (s : SyncState) (a : Act) (c : VmiCall) (k : ShellCmd) (x : Addr) (b : Byte)

@[simp] theorem emit_g : (s.emit a).g = s.g := rfl
@[simp] theorem emit_mem : (s.emit a).mem = s.mem := rfl
@[simp] theorem emit_paused : (s.emit a).paused = s.paused := rfl
@[simp] theorem emit_attached : (s.emit a).attached = s.attached := rfl
@[simp] theorem emit_trace : (s.emit a).trace = s.trace ++ [a] := rfl

@[simp] theorem vmi_g : (s.vmi c).g = s.g := rfl
@[simp] theorem vmi_mem : (s.vmi c).mem = s.mem := rfl
@[simp] theorem vmi_paused : (s.vmi c).paused = s.paused := rfl
@[simp] theorem vmi_attached : (s.vmi c).attached = s.attached := rfl
@[simp] theorem vmi_trace : (s.vmi c).trace = s.trace ++ [.vmi c] := rfl

@[simp] theorem system_g : (s.system k).g = s.g := rfl
@[simp] theorem system_mem : (s.system k).mem = s.mem := rfl
@[simp] theorem system_paused : (s.system k).paused = s.paused := rfl
@[simp] theorem system_trace : (s.system k).trace = s.trace ++ [.system k] := rfl

@[simp] theorem pauseVm_g : s.pauseVm.g = s.g := rfl
@[simp] theorem pauseVm_mem : s.pauseVm.mem = s.mem := rfl
@[simp] theorem pauseVm_paused : s.pauseVm.paused = true := rfl
@[simp] theorem pauseVm_attached : s.pauseVm.attached = s.attached := rfl
@[simp] theorem pauseVm_trace : s.pauseVm.trace = s.trace ++ [.vmi .pauseVm] := rfl

@[simp] theorem resumeVm_g : s.resumeVm.g = s.g := rfl
@[simp] theorem resumeVm_mem : s.resumeVm.mem = s.mem := rfl
@[simp] theorem resumeVm_paused : s.resumeVm.paused = false := rfl
@[simp] theorem resumeVm_trace : s.resumeVm.trace = s.trace ++ [.vmi .resumeVm] := rfl

@[simp] theorem write8_g : (s.write8 x b).g = s.g := rfl
@[simp] theorem write8_mem : (s.write8 x b).mem = poke s.mem x b := rfl
@[simp] theorem write8_paused : (s.write8 x b).paused = s.paused := rfl
@[simp] theorem write8_attached : (s.write8 x b).attached = s.attached := rfl
@[simp] theorem write8_trace :
    (s.write8 x b).trace = s.trace ++ [.vmi (.write8Va x b (s.mem x).isSome)] := rfl

@[simp] theorem guestWrite_g : (s.guestWrite x b).g = s.g := rfl
@[simp] theorem guestWrite_mem : (s.guestWrite x b).mem = poke s.mem x b := rfl
@[simp] theorem guestWrite_paused : (s.guestWrite x b).paused = s.paused := rfl
@[simp] theorem guestWrite_trace : (s.guestWrite x b).trace = s.trace ++ [.guest x b] := rfl

@[simp] theorem printRegs_g : (printRegs s).g = s.g := rfl
@[simp] theorem printRegs_mem : (printRegs s).mem = s.mem := rfl
@[simp] theorem printRegs_paused : (printRegs s).paused = s.paused := rfl
@[simp] theorem printRegs_attached : (printRegs s).attached = s.attached := rfl
@[simp] theorem printRegs_replies : replies (printRegs s).trace = replies s.trace := by
  simp [printRegs, -List.append_assoc]
@[simp] theorem printRegs_ownWrites : ownWrites (printRegs s).trace = ownWrites s.trace := by
  simp [printRegs, -List.append_assoc]

end SyncState

end Hyperagents
