import Hyperagents.HAMain
/-!
# Every lock a step of its own

Any number of threads call the library; here every lock, `try_lock` and unlock is a step, and so is what lies between
two of them.  `TlPc` says where in a call a thread is.  A thread that waits for a mutex takes its next step once the
mutex is free; one that exits the process, or whose behaviour is undefined from there on, takes none.
-/
namespace Hyperagents

inductive Mutex
  | vmi
  | lk
  | slot (i : Slot)
  deriving DecidableEq, Repr

/-- What a `mount_disk` asks of the syncmount. -/
structure MountReq where
  name : String
  vmi : Vmi
  disk : String
  deriving DecidableEq, Repr

/-- A request that has its slot; `steal` says that it was taken under `lk`. -/
structure MountJob where
  req : MountReq
  slot : Slot
  steal : Bool
  deriving DecidableEq, Repr

/-- What is done under the VMI lock with no other mutex in between. -/
inductive VmiSection
  | addAgent (ha : HAConfig)
  | flush (j : MountJob)
  | pause (j : MountJob)
  | resume (r : MountReq) (i : Slot)
  | release (i : Slot)
  /-- From `get_vmi_lock` to `rel_vmi_lock`. -/
  | user
  deriving DecidableEq, Repr

inductive Stage
  | lock
  | body
  | unlock
  deriving DecidableEq, Repr

inductive StatusPc
  | lock
  | test (i : Slot)
  | tested (i : Slot)
  | name (i : Slot)
  | unlock
  deriving DecidableEq, Repr

inductive TlPc
  | idle
  | vmi (k : VmiSection) (st : Stage)
  | register (ha : HAConfig)
  | lookup (r : MountReq)
  | claiming (r : MountReq) (i : Slot)
  | connect (j : MountJob)
  | mount (j : MountJob)
  | stamp (j : MountJob)
  | name (r : MountReq)
  | search (r : MountReq) (m : Int × Slot) (st : Stage)
  | sleep (r : MountReq) (m : Int × Slot)
  | unmount (r : MountReq) (i : Slot)
  | disconnect (r : MountReq) (i : Slot)
  | reassign (r : MountReq) (i : Slot)
  | leave (r : MountReq) (i : Slot)
  | setDev (n : String) (i : Slot)
  | drop (dev : Int)
  | print (p : StatusPc)
  deriving DecidableEq, Repr

structure TlState (T : Type) where
  agents : String → Option HAConfig
  nextVmi : Vmi
  records : Records
  holder : Mutex → Option T
  pc : T → TlPc

/-- A call; `mountdev` is what the new object's uninitialised member happens to hold. -/
inductive TlCall
  | addAgent (vmName rekallProfile diskPath : String) (mountdev : Int)
  | mountDisk (vmName : String)
  | unmountDisk (vmName : String)
  | printStatus
  | vmiSection
  deriving DecidableEq, Repr

/-- A thread enters a call, or takes its next step there at a clock reading. -/
inductive TlLabel (T : Type)
  | call (t : T) (c : TlCall)
  | step (t : T) (now : Timeval)
  deriving DecidableEq, Repr

def TlState.init {T : Type} (clock : Slot → Timeval) : TlState T :=
  ⟨fun _ => none, 1, .init clock, fun _ => none, fun _ => .idle⟩

/-- Where a thread goes on after a section. -/
def VmiSection.after : VmiSection → TlPc
  | .addAgent ha => .register ha
  | .flush j => .connect j
  | .pause j => .mount j
  | .resume r i => .disconnect r i
  | .release _ | .user => .idle

def TlPc.afterTaken (r : MountReq) (i : Slot) : TlPc :=
  if h : i.val + 1 < DEVMAX then .claiming r ⟨i.val + 1, h⟩ else .name r

def StatusPc.after (i : Slot) : StatusPc := if h : i.val + 1 < DEVMAX then .test ⟨i.val + 1, h⟩ else .unlock

section

variable {T : Type} [DecidableEq T]

def TlState.goto (s : TlState T) (t : T) (p : TlPc) : TlState T := { s with pc := Function.update s.pc t p }

/-- Nothing while the mutex is held. -/
def TlState.lock (s : TlState T) (m : Mutex) (t : T) (p : TlPc) : Option (TlState T) :=
  if s.holder m = none then some ({ s with holder := Function.update s.holder m (some t) }.goto t p) else none

def TlState.unlock (s : TlState T) (m : Mutex) (t : T) (p : TlPc) : TlState T :=
  { s with holder := Function.update s.holder m none }.goto t p

/-- The next step of a thread inside a call. -/
def tlNext (s : TlState T) (t : T) (now : Timeval) : TlPc → Option (TlState T)
  | .idle => none
  | .vmi k .lock => s.lock .vmi t (.vmi k .body)
  | .vmi (.release i) .body =>
    match s.records.owner i with
    | none => none
    | some _ => some (s.goto t (.vmi (.release i) .unlock))
  | .vmi k .body => some (s.goto t (.vmi k .unlock))
  | .vmi k .unlock => some (s.unlock .vmi t k.after)
  | .register ha => some ({ s with agents := Function.update s.agents ha.vmName (some ha) }.goto t .idle)
  | .lookup r =>
    match s.records.lookup r.vmi with
    | some i =>
      if s.records.canRemount i then some ({ s with records := s.records.remount i now }.goto t (.setDev r.name i))
      else none
    | none => some (s.goto t (.claiming r 0))
  | .claiming r i =>
    if s.holder (.slot i) = none then
      some ({ s with
        records := s.records.claim i r.vmi
        holder := Function.update s.holder (.slot i) (some t) }.goto t (.vmi (.flush ⟨r, i, false⟩) .lock))
    else some (s.goto t (.afterTaken r i))
  | .connect j => some (s.goto t (.vmi (.pause j) .lock))
  | .mount j => some (s.goto t (.stamp j))
  | .stamp j =>
    some ({ s with records := s.records.stamp j.slot now }.goto t
      (if j.steal then .leave j.req j.slot else .setDev j.req.name j.slot))
  | .name r => some (s.goto t (.search r (0, 0) .lock))
  | .search r m .lock => s.lock .lk t (.search r m .body)
  | .search r m .body =>
    let m := s.records.victimPass now m
    if m.1 < 10000 then some (s.goto t (.search r m .unlock)) else some (s.goto t (.unmount r m.2))
  | .search r m .unlock => some (s.unlock .lk t (.sleep r m))
  | .sleep r m => some (s.goto t (.search r m .lock))
  | .unmount r i => some (s.goto t (.vmi (.resume r i) .lock))
  | .disconnect r i => some (s.goto t (.reassign r i))
  | .reassign r i =>
    some ({ s with records := s.records.reassign i r.vmi }.goto t (.vmi (.flush ⟨r, i, true⟩) .lock))
  | .leave r i => some (s.unlock .lk t (.setDev r.name i))
  | .setDev n i =>
    (s.agents n).map fun ha =>
      { s with agents := Function.update s.agents n (some { ha with mountdev := i.val }) }.goto t .idle
  | .drop dev =>
    if h : dev.toNat < DEVMAX then
      let i : Slot := ⟨dev.toNat, h⟩
      if 0 ≤ dev ∧ s.records.canRelease i then
        some ({ s with records := s.records.release i }.goto t (.vmi (.release i) .lock))
      else none
    else none
  | .print .lock => s.lock .vmi t (.print (.test 0))
  | .print (.test i) =>
    if s.holder (.slot i) = none then s.lock (.slot i) t (.print (.tested i)) else some (s.goto t (.print (.name i)))
  | .print (.tested i) => some (s.unlock (.slot i) t (.print (.name i)))
  | .print (.name i) => some (s.goto t (.print (.after i)))
  | .print .unlock => some (s.unlock .vmi t .idle)

/-- The entry of a call.  For a name that is not registered the behaviour is undefined. -/
def tlCall (s : TlState T) (t : T) : TlCall → Option (TlState T)
  | .addAgent n r d m =>
    some ({ s with nextVmi := s.nextVmi + 1 }.goto t (.vmi (.addAgent ⟨n, r, d, s.nextVmi, m⟩) .lock))
  | .mountDisk n => (s.agents n).map fun ha => s.goto t (.lookup ⟨n, ha.vmi, ha.diskPath⟩)
  | .unmountDisk n => (s.agents n).map fun ha => s.goto t (.drop ha.mountdev)
  | .printStatus => some (s.goto t (.print .lock))
  | .vmiSection => some (s.goto t (.vmi .user .lock))

def tlStep (s : TlState T) : TlLabel T → Option (TlState T)
  | .call t c => if s.pc t = .idle then tlCall s t c else none
  | .step t now => tlNext s t now (s.pc t)

end

end Hyperagents
