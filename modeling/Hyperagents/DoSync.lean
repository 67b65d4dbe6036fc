import Hyperagents.SyncCallbacks
/-!
# `do_sync`

The call pauses the guest, looks the five addresses up and plants a breakpoint at each in turn (`install`), leaves at
once where `target_work_fn` is zero, and otherwise listens for events until `interrupted` is set (`eventLoop`), takes
the breakpoints out again (`replaceMemory`) and detaches the ghost image.

What comes from outside during one call is a `SyncCall`: the VM's id, the result of each lookup, and the ticks of the
event loop, in order: int3s, single steps, writes of the guest's own, and returns of `vmi_events_listen`.  The loop
tests `interrupted` when a listen returns, never between two callbacks; ticks left over after it ends are not looked
at, and a call whose ticks end before the loop does has not returned (`none`).
-/
namespace Hyperagents

open Planting

inductive Tick
  | int3 (e : Int3)
  | step (vcpu : Nat)
  | guest (a : Addr) (b : Byte)
  | ret (ok : Bool)
  deriving DecidableEq, Repr

structure SyncCall where
  vmid : UInt64
  /-- What `vmi_translate_ksym2v` puts in its output variable, or nothing where it fails and leaves it alone. -/
  ksym : Bp → Option Addr
  ticks : List Tick
  /-- Writes of the guest's own while the breakpoints are taken out, before each one's turn. -/
  late : Bp → List (Addr × Byte)

structure Guest where
  mem : GuestMem
  paused : Bool

/-! ## Installing the breakpoints -/

/-- The globals after a lookup.  A failed one leaves the variable as it was; the offset is added either way. -/
def Globals.lookup (g : Globals) (b : Bp) (found : Option Addr) : Globals :=
  match b with
  | .dwork =>
    let fn := found.getD g.targetWorkFn + Bp.dwork.offset
    { g with targetWorkFn := fn, addr := Function.update g.addr .dwork fn }
  | b => { g with addr := Function.update g.addr b (found.getD (g.addr b) + b.offset) }

def lookupSym (c : SyncCall) (b : Bp) (s : SyncState) : SyncState :=
  { s.vmi (.translateKsym2v b.symbol) with g := s.g.lookup b (c.ksym b) }

/-- Save the byte at a breakpoint's address and write 0xCC there. -/
def patch (b : Bp) (s : SyncState) : SyncState :=
  let a := s.g.addr b
  let s := s.vmi (.read64Va (a &&& ~~~7))
  let s := { s.vmi (.read8Va a) with g := { s.g with
    byte := Function.update s.g.byte b ((s.mem a).getD (s.g.byte b)) } }
  let s := s.write8 a breakpointByte
  s.vmi (.read64Va (a &&& ~~~7))

def installOrder : List Bp := [.qworko, .dwork, .dworkBack, .sysSyncFront, .sysSyncBack]

def install (c : SyncCall) (s : SyncState) : SyncState :=
  installOrder.foldl (fun s b => patch b (lookupSym c b s)) s

/-- The KASLR offset, from where `deferred_probe_work_func` is on a kernel without it (Fedora 25 specific). -/
def setKaslr (s : SyncState) : SyncState :=
  { s with g := { s.g with kaslrOffset := s.g.targetWorkFn - 0xffffffff8152d920 } }

/-! ## The event loop -/

/-- What the loop does when a listen has returned. -/
def afterListen (ghostImage : String) (vmid : UInt64) (ok : Bool) (s : SyncState) : SyncState :=
  let s := s.vmi .eventsListen
  let s := if ok then s else { s with g := { s.g with interrupted := -1 } }.pauseVm
  if s.attached then s
  else { (s.system (.xlBlockAttach vmid ghostImage)).system (.xlBlockList vmid) with attached := true }

def tick (ghostImage : String) (vmid : UInt64) (s : SyncState) : Tick → SyncState
  | .int3 e => (intCbFront e s).1.emit (.int3 e (intCbFront e s).2)
  | .step vcpu => (stepCbFront vcpu s).emit (.step vcpu)
  | .guest a b => s.guestWrite a b
  | .ret ok => afterListen ghostImage vmid ok s

def Tick.isRet : Tick → Bool
  | .ret _ => true
  | _ => false

/-- The loop from the start of a listen. -/
def listenLoop (ghostImage : String) (vmid : UInt64) : SyncState → List Tick → Option SyncState
  | _, [] => none
  | s, t :: ts =>
    let s := tick ghostImage vmid s t
    if t.isRet = true ∧ s.g.interrupted ≠ 0 then some s else listenLoop ghostImage vmid s ts

def eventLoop (ghostImage : String) (vmid : UInt64) (s : SyncState) (ts : List Tick) : Option SyncState :=
  if s.g.interrupted ≠ 0 then some s else listenLoop ghostImage vmid s ts

/-! ## Taking the breakpoints out, and the whole call -/

def replaceByte (c : SyncCall) (s : SyncState) (b : Bp) : SyncState :=
  let s := s.guestWrites (c.late b)
  let s := s.vmi (.read64Va (s.g.addr b &&& ~~~7))
  let s := s.write8 (s.g.addr b) (s.g.byte b)
  s.vmi (.read64Va (s.g.addr b &&& ~~~7))

def replaceOrder : List Bp := [.dwork, .dworkBack, .sysSyncFront, .sysSyncBack, .qworko]

def replaceMemory (c : SyncCall) (s : SyncState) : SyncState := replaceOrder.foldl (replaceByte c) s

def startEvents (s : SyncState) : SyncState := ((s.vmi .registerEvent).vmi .registerEvent).resumeVm

/-- From the end of the loop to the return. -/
def finish (c : SyncCall) (s : SyncState) : SyncState :=
  let s := (s.vmi .clearEvent).vmi .clearEvent
  let s := replaceMemory c s
  let s := printRegs (printRegs s).resumeVm
  let s := (s.system (.xlBlockDetach c.vmid)).system (.xlBlockList c.vmid)
  printRegs s

/-- The state in which the callbacks may first run. -/
def installed (c : SyncCall) (g : Globals) (guest : Guest) : SyncState :=
  let s : SyncState := ⟨g, guest.mem, guest.paused, false, []⟩
  setKaslr (install c (s.vmi .getVmid).pauseVm)

def doSync (ghostImage : String) (c : SyncCall) (g : Globals) (guest : Guest) : Option (Int × SyncState) :=
  let s := installed c g guest
  if s.g.targetWorkFn = 0 then some (0, s)  -- VMI layer problem, exiting...
  else (eventLoop ghostImage c.vmid (startEvents s) c.ticks).map (fun s => (0, finish c s))

end Hyperagents
