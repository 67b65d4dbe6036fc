import Hyperagents.Fallible
import Hyperagents.Records
import Hyperagents.SyncInstall
/-!
# `request_mount` and `release_mount`

`HaState` is a HAMain with its syncmount, the LibVMI handles it opened, the guests, the host the shell commands work
on (`host`, of any type) and a log of what was locked, called and run.  What comes from outside during one request is
a `MountEnv`.

A request returns on one of three paths: the record that holds the vmi already, the first record whose `try_lock`
succeeds, or the record out of use the longest, once that is ten seconds.  It may also not return: `Halt`.
-/
namespace Hyperagents

/-- Why a call does not return: it waits for a slot past the last clock reading given, `do_sync` does not return, the
process exits, or the code's behaviour is undefined from there on. -/
inductive Halt
  | spinning
  | inSync
  | exited
  | undefined
  deriving DecidableEq, Repr

inductive HaAct
  | lockVmi
  | unlockVmi
  | lockLk
  | unlockLk
  | sleep (ms : Nat)
  | vmi (v : Vmi) (c : VmiCall)
  | sync (v : Vmi) (a : Act)
  | system (c : ShellCmd) (status : Int)
  deriving DecidableEq, Repr

structure HAConfig where
  vmName : String
  rekallProfile : String
  diskPath : String
  vmi : Vmi
  mountdev : Int
  deriving DecidableEq, Repr

structure HaState (δ : Type) where
  agents : String → Option HAConfig
  records : Records
  baseMountpoint : String
  ghostImage : String
  /-- The domain a LibVMI handle was opened for. -/
  handles : Vmi → Option String
  nextVmi : Vmi
  globals : Globals
  guests : String → Guest
  host : δ
  log : List HaAct

/-- What one request meets: the clock readings of its search, the reading that stamps the record, what `do_sync` meets,
and whether LibVMI takes the guest for Linux. -/
structure MountEnv where
  clocks : List Timeval
  now : Timeval
  sync : SyncCall
  linux : Bool

namespace HaState

variable {δ : Type}

def emit (s : HaState δ) (a : HaAct) : HaState δ := { s with log := s.log ++ [a] }

/-- A LibVMI call with no effect on the guest. -/
def vmi (s : HaState δ) (v : Vmi) (c : VmiCall) : HaState δ := s.emit (.vmi v c)

def guestOf (s : HaState δ) (v : Vmi) : Guest := s.guests ((s.handles v).getD "")

def setGuest (s : HaState δ) (v : Vmi) (g : Guest) : HaState δ :=
  { s with guests := Function.update s.guests ((s.handles v).getD "") g }

def pauseVm (s : HaState δ) (v : Vmi) : HaState δ :=
  (s.vmi v .pauseVm).setGuest v { s.guestOf v with paused := true }

def resumeVm (s : HaState δ) (v : Vmi) : HaState δ :=
  (s.vmi v .resumeVm).setGuest v { s.guestOf v with paused := false }

def system (s : HaState δ) (shell : Shell δ) (c : ShellCmd) : HaState δ :=
  { s.emit (.system c (shell.system c s.host).1) with host := (shell.system c s.host).2 }

end HaState

variable {δ : Type} (shell : Shell δ)

/-- The commands of a trace, whose statuses `do_sync` does not read. -/
def runSystem (t : List Act) (host : δ) : δ :=
  t.foldl (fun host a => match a with
    | .system c => (shell.system c host).2
    | _ => host) host

def nbdDev (i : Slot) : String := "nbd" ++ toString i.val

def getMountpoint (base : String) (i : Int) : String := base ++ "nbd" ++ toString i ++ "/"

/-! ## Mounting and unmounting a device -/

/-- `do_sync` has returned. -/
def afterSync (v : Vmi) (t : SyncState) (s : HaState δ) : HaState δ :=
  { s.setGuest v ⟨t.mem, t.paused⟩ with
    globals := t.g
    host := runSystem shell t.trace s.host
    log := s.log ++ t.trace.map (HaAct.sync v) }

/-- From the mapper devices to the mount, once the disk is connected. -/
def mountPartition (env : MountEnv) (dev : String) (v : Vmi) (s : HaState δ) : HaState δ :=
  let s := s.system shell (.kpartxAdd dev)  -- build partition devices in mapper
  let s := ((s.emit .lockVmi).pauseVm v).vmi v .getOstype
  let check := if env.linux then "check=none," else ""
  let s := s.emit .unlockVmi
  let s := s.system shell (.umount (s.baseMountpoint ++ dev))
  s.system shell (.mount check dev (s.baseMountpoint ++ dev))

def doNbdMount (env : MountEnv) (dev : String) (v : Vmi) (disk : String) (s : HaState δ) : Except Halt (HaState δ) :=
  let s := (s.emit .lockVmi).vmi v .getName
  match doSync s.ghostImage env.sync s.globals (s.guestOf v) with
  | none => .error .inSync
  | some (_, t) =>
    let s := (afterSync shell v t s).emit .unlockVmi
    let status := (shell.system (.qemuNbdConnect dev disk) s.host).1
    let s := s.system shell (.qemuNbdConnect dev disk)  -- associate nbd
    if status = 256 then .error .exited else .ok (mountPartition shell env dev v s)

def doNbdUnmount (dev : String) (v : Vmi) (s : HaState δ) : HaState δ :=
  let s := s.system shell (.umountLazy (s.baseMountpoint ++ dev))
  let s := ((s.emit .lockVmi).resumeVm v).emit .unlockVmi
  s.system shell (.qemuNbdDisconnect dev)  -- recover nbd device

/-! ## Requests and releases -/

/-- The search under `lk`, one pass for each clock reading: a thread that finds no slot out of use for ten seconds
gives `lk` up and sleeps. -/
def stealLoop : HaState δ → List Timeval → Int × Slot → Option (Slot × HaState δ)
  | _, [], _ => none
  | s, c :: cs, m =>
    let s := s.emit .lockLk
    let m := s.records.victimPass c m
    if m.1 < 10000 then stealLoop ((s.emit .unlockLk).emit (.sleep 1000)) cs m else some (m.2, s)

def requestMount (env : MountEnv) (v : Vmi) (disk : String) (s : HaState δ) : Except Halt (Slot × HaState δ) :=
  match s.records.lookup v with
  | some i =>  -- this mount already exists from an earlier request_mount, return it
    if s.records.canRemount i then .ok (i, { s with records := s.records.remount i env.now }) else .error .undefined
  | none =>
    match s.records.firstFree with
    | some i => do
      let s ← doNbdMount shell env (nbdDev i) v disk { s with records := s.records.claim i v }
      return (i, { s with records := s.records.stamp i env.now })
    | none =>
      -- no available slots: find the least recently used mount and unmount it
      match stealLoop (s.vmi v .getName) env.clocks (0, 0) with
      | none => .error .spinning
      | some (i, s) => do
        let s := doNbdUnmount shell (nbdDev i) v s
        let s ← doNbdMount shell env (nbdDev i) v disk { s with records := s.records.reassign i v }
        return (i, { s with records := s.records.stamp i env.now }.emit .unlockLk)

/-- The index is an agent's `mountdev`, garbage before its first mount; past the vector, or at a record without a vmi,
the behaviour is undefined. -/
def releaseMount (dev : Int) (s : HaState δ) : Except Halt (HaState δ) :=
  if h : 0 ≤ dev ∧ dev.toNat < DEVMAX then
    let i : Slot := ⟨dev.toNat, h.2⟩
    if s.records.canRelease i then
      let s := { s with records := s.records.release i }
      match s.records.owner i with
      | none => .error .undefined
      | some v => .ok (((s.emit .lockVmi).resumeVm v).emit .unlockVmi)
    else .error .undefined
  else .error .undefined

/-! ## What a request leaves of the state -/

/-- What no request and no release changes. -/
structure Kept (s s' : HaState δ) : Prop where
  agents : s'.agents = s.agents
  handles : s'.handles = s.handles
  nextVmi : s'.nextVmi = s.nextVmi
  baseMountpoint : s'.baseMountpoint = s.baseMountpoint
  ghostImage : s'.ghostImage = s.ghostImage

/-- The guest of a handle ends paused or running, every other guest is as it was. -/
structure OnlyGuest (v : Vmi) (paused : Bool) (s s' : HaState δ) : Prop where
  own : (s'.guestOf v).paused = paused
  others : ∀ n, n ≠ (s.handles v).getD "" → s'.guests n = s.guests n

/-- The host after the commands of `do_nbd_mount`. -/
def mountHost (base check dev disk : String) (host : δ) : δ :=
  let host := (shell.system (.qemuNbdConnect dev disk) host).2
  let host := (shell.system (.kpartxAdd dev) host).2
  let host := (shell.system (.umount (base ++ dev)) host).2
  (shell.system (.mount check dev (base ++ dev)) host).2

def unmountHost (base dev : String) (host : δ) : δ :=
  (shell.system (.qemuNbdDisconnect dev) (shell.system (.umountLazy (base ++ dev)) host).2).2

structure NbdMounted (env : MountEnv) (dev : String) (v : Vmi) (disk : String) (s s' : HaState δ) : Prop where
  kept : Kept s s'
  records : s'.records = s.records
  guest : OnlyGuest v true s s'
  host : ∃ t check, doSync s.ghostImage env.sync s.globals (s.guestOf v) = some (0, t) ∧
    s'.host = mountHost shell s.baseMountpoint check dev disk (runSystem shell t.trace s.host)

structure NbdUnmounted (dev : String) (v : Vmi) (s s' : HaState δ) : Prop where
  kept : Kept s s'
  records : s'.records = s.records
  guest : OnlyGuest v false s s'
  host : s'.host = unmountHost shell s.baseMountpoint dev s.host

variable {shell} {env : MountEnv} {dev : String} {v : Vmi} {disk : String} {s s' : HaState δ}

theorem onlyGuest_of_eq {p : Bool} {g : Guest} (hg : g.paused = p) (hh : s'.handles = s.handles)
    (h : ∀ n, n ≠ (s.handles v).getD "" → s'.guests n = s.guests n) (hs : s'.guests ((s.handles v).getD "") = g) :
    OnlyGuest v p s s' := by
  refine ⟨?_, h⟩
  unfold HaState.guestOf
  rw [hh, hs, hg]

/-- The state after the connection, but for the log. -/
theorem mountPartition_eq (s : HaState δ) : ∃ log check, mountPartition shell env dev v s = { s with
    guests := Function.update s.guests ((s.handles v).getD "") { s.guestOf v with paused := true }
    host := (shell.system (.mount check dev (s.baseMountpoint ++ dev))
      (shell.system (.umount (s.baseMountpoint ++ dev)) (shell.system (.kpartxAdd dev) s.host).2).2).2
    log := log } := by
  simp only [mountPartition, HaState.system, HaState.pauseVm, HaState.vmi, HaState.setGuest, HaState.emit,
    HaState.guestOf]
  exact ⟨_, _, rfl⟩

theorem doNbdMount_ok (h : doNbdMount shell env dev v disk s = .ok s') : NbdMounted shell env dev v disk s s' := by
  unfold doNbdMount at h
  dsimp only at h
  split at h
  · cases h
  · rename_i ret t hsync
    obtain rfl := doSync_ret hsync
    split at h
    · cases h
    · obtain ⟨log, check, heq⟩ := @mountPartition_eq δ shell env dev v
        (((afterSync shell v t ((s.emit .lockVmi).vmi v .getName)).emit .unlockVmi).system shell
          (.qemuNbdConnect dev disk))
      have hs' := (Except.ok.inj h).symm.trans heq
      simp only [afterSync, HaState.system, HaState.vmi, HaState.setGuest, HaState.emit, HaState.guestOf] at hs' hsync
      subst hs'
      exact ⟨⟨rfl, rfl, rfl, rfl, rfl⟩, rfl, onlyGuest_of_eq rfl rfl
        (fun n hn => (Function.update_of_ne hn _ _).trans (Function.update_of_ne hn _ _)) (Function.update_self _ _ _),
        t, check, hsync, rfl⟩

/-- **The exit on a bad status** comes from `qemu-nbd -c` alone. -/
theorem doNbdMount_exited (h : doNbdMount shell env dev v disk s = .error .exited) :
    ∃ t, doSync s.ghostImage env.sync s.globals (s.guestOf v) = some (0, t) ∧
      (shell.system (.qemuNbdConnect dev disk) (runSystem shell t.trace s.host)).1 = 256 := by
  unfold doNbdMount at h
  dsimp only at h
  split at h
  · cases h
  · rename_i ret t hsync
    obtain rfl := doSync_ret hsync
    split at h
    · rename_i h256
      exact ⟨t, hsync, h256⟩
    · cases h

theorem doNbdUnmount_effect (dev : String) (v : Vmi) (s : HaState δ) :
    NbdUnmounted shell dev v s (doNbdUnmount shell dev v s) := by
  simp only [doNbdUnmount, HaState.system, HaState.resumeVm, HaState.vmi, HaState.setGuest, HaState.emit,
    HaState.guestOf]
  exact ⟨⟨rfl, rfl, rfl, rfl, rfl⟩, rfl,
    onlyGuest_of_eq rfl rfl (fun n hn => Function.update_of_ne hn _ _) (Function.update_self _ _ _), rfl⟩

/-- **The search stops at a slot out of use**, having changed nothing but the log. -/
theorem stealLoop_some {i : Slot} : ∀ (cs : List Timeval) (s : HaState δ) (m : Int × Slot), m.1 < 10000 →
    stealLoop s cs m = some (i, s') → s.records.refcount i = 0 ∧ ∃ log, s' = { s with log := log }
  | [], _, _, _, h => by cases h
  | c :: cs, s, m, hm, h => by
    unfold stealLoop at h
    dsimp only at h
    split at h
    · rename_i hmax
      obtain ⟨hi, log, rfl⟩ := stealLoop_some cs (((s.emit .lockLk).emit .unlockLk).emit (.sleep 1000))
        (s.records.victimPass c m) hmax h
      exact ⟨hi, log, rfl⟩
    · rename_i hmax
      cases h
      exact ⟨Records.victimPass_long hm hmax, _, rfl⟩

/-- The three ways a request returns. -/
inductive RequestPath (shell : Shell δ) (env : MountEnv) (v : Vmi) (disk : String) (s : HaState δ) (i : Slot) :
    HaState δ → Prop
  | remount : s.records.lookup v = some i → s.records.canRemount i = true →
      RequestPath shell env v disk s i { s with records := s.records.remount i env.now }
  | fresh (s₁ : HaState δ) : s.records.lookup v = none → s.records.firstFree = some i →
      NbdMounted shell env (nbdDev i) v disk { s with records := s.records.claim i v } s₁ →
      RequestPath shell env v disk s i { s₁ with records := s₁.records.stamp i env.now }
  | steal (s₁ s₂ s₃ : HaState δ) : s.records.lookup v = none → s.records.firstFree = none →
      s.records.refcount i = 0 → (∃ log, s₁ = { s with log := log }) →
      NbdUnmounted shell (nbdDev i) v s₁ s₂ →
      NbdMounted shell env (nbdDev i) v disk { s₂ with records := s₂.records.reassign i v } s₃ →
      RequestPath shell env v disk s i ({ s₃ with records := s₃.records.stamp i env.now }.emit .unlockLk)

theorem requestMount_ok {i : Slot} (h : requestMount shell env v disk s = .ok (i, s')) :
    RequestPath shell env v disk s i s' := by
  unfold requestMount at h
  split at h
  · rename_i hl
    split at h
    · rename_i hc
      cases h
      exact .remount hl hc
    · cases h
  · rename_i hl
    split at h
    · rename_i hf
      obtain ⟨s₁, hmount, heq⟩ := ok_of_bind h
      cases heq
      exact .fresh s₁ hl hf (doNbdMount_ok hmount)
    · rename_i hf
      split at h
      · cases h
      · rename_i j s₁ hsteal
        obtain ⟨s₃, hmount, heq⟩ := ok_of_bind h
        cases heq
        obtain ⟨hi, log, rfl⟩ := stealLoop_some env.clocks _ (0, 0) (by decide) hsteal
        exact .steal _ _ s₃ hl hf hi ⟨log, rfl⟩ (doNbdUnmount_effect _ _ _) (doNbdMount_ok hmount)

/-- What a request that returned did to the owners, the counts and the locks. -/
inductive RecordsAfter (rs : Records) (v : Vmi) (i : Slot) (rs' : Records) : Prop
  | remount : rs.owner i = some v → rs'.owner = rs.owner →
      rs'.refcount = Function.update rs.refcount i (rs.refcount i + 1) → (∀ j, (rs' j).l = (rs j).l) →
      RecordsAfter rs v i rs'
  | grant : (∀ j, rs.owner j ≠ some v) → (rs i).l = false ∨ rs.refcount i = 0 →
      rs'.owner = Function.update rs.owner i (some v) → rs'.refcount = Function.update rs.refcount i 1 →
      (∀ j, (rs' j).l = if j = i then true else (rs j).l) → RecordsAfter rs v i rs'

theorem RequestPath.records {i : Slot} (h : RequestPath shell env v disk s i s') :
    RecordsAfter s.records v i s'.records := by
  cases h with
  | remount hl hc => exact .remount (Records.lookup_some hl) (by simp) (by simp) (by simp)
  | fresh s₁ hl hf hm =>
    refine .grant (Records.lookup_none.1 hl) (.inl (Records.firstFree_some hf)) ?_ ?_ fun j => ?_ <;> simp [hm.records]
  | steal s₁ s₂ s₃ hl hf hi hlog hu hm =>
    obtain ⟨log, rfl⟩ := hlog
    refine .grant (Records.lookup_none.1 hl) (.inr hi) ?_ ?_ fun j => ?_
    · simp [HaState.emit, hm.records, hu.records]
    · simp [HaState.emit, hm.records, hu.records]
    · -- Nothing was free, so the victim's mutex is locked already.
      simp [HaState.emit, hm.records, hu.records, Records.firstFree_none.1 hf]

theorem RequestPath.kept {i : Slot} (h : RequestPath shell env v disk s i s') : Kept s s' := by
  cases h with
  | remount hl hc => exact ⟨rfl, rfl, rfl, rfl, rfl⟩
  | fresh s₁ hl hf hm =>
    obtain ⟨⟨h1, h2, h3, h4, h5⟩, -⟩ := hm
    exact ⟨h1, h2, h3, h4, h5⟩
  | steal s₁ s₂ s₃ hl hf hi hlog hu hm =>
    obtain ⟨log, rfl⟩ := hlog
    obtain ⟨⟨h1, h2, h3, h4, h5⟩, -⟩ := hm
    obtain ⟨⟨k1, k2, k3, k4, k5⟩, -⟩ := hu
    exact ⟨h1.trans k1, h2.trans k2, h3.trans k3, h4.trans k4, h5.trans k5⟩

/-- A remount leaves every guest as it was; on the other paths the guest ends paused. -/
theorem RequestPath.guest {i : Slot} (h : RequestPath shell env v disk s i s') :
    (s.records.lookup v ≠ none ∧ s'.guests = s.guests) ∨ (s.records.lookup v = none ∧ OnlyGuest v true s s') := by
  cases h with
  | remount hl hc => exact .inl ⟨by rw [hl]; exact Option.some_ne_none i, rfl⟩
  | fresh s₁ hl hf hm => exact .inr ⟨hl, hm.guest.own, hm.guest.others⟩
  | steal s₁ s₂ s₃ hl hf hi hlog hu hm =>
    obtain ⟨log, rfl⟩ := hlog
    refine .inr ⟨hl, hm.guest.own, fun n hn => ?_⟩
    have h3 : s₃.guests n = s₂.guests n := hm.guest.others n (by rw [← hu.kept.handles] at hn; exact hn)
    exact h3.trans (hu.guest.others n hn)

/-- **A request that exits** met a busy device: the free slot's, or the victim's after its unmount. -/
theorem requestMount_exited (h : requestMount shell env v disk s = .error .exited) : ∃ i host g guest t,
    ((s.records.firstFree = some i ∧ host = s.host) ∨ host = unmountHost shell s.baseMountpoint (nbdDev i) s.host) ∧
      doSync s.ghostImage env.sync g guest = some (0, t) ∧
      (shell.system (.qemuNbdConnect (nbdDev i) disk) (runSystem shell t.trace host)).1 = 256 := by
  unfold requestMount at h
  split at h
  · split at h <;> cases h
  · split at h
    · rename_i i hf
      obtain ⟨t, hsync, h256⟩ := doNbdMount_exited (error_of_bind h (fun _ e => by cases e))
      exact ⟨i, s.host, _, _, t, .inl ⟨hf, rfl⟩, hsync, h256⟩
    · split at h
      · cases h
      · rename_i i s₁ hsteal
        obtain ⟨-, log, rfl⟩ := stealLoop_some env.clocks _ (0, 0) (by decide) hsteal
        have hu := @doNbdUnmount_effect δ shell (nbdDev i) v { s.vmi v .getName with log := log }
        obtain ⟨t, hsync, h256⟩ := doNbdMount_exited (error_of_bind h (fun _ e => by cases e))
        dsimp only at hsync h256
        rw [hu.kept.ghostImage] at hsync
        rw [hu.host] at h256
        exact ⟨i, _, _, _, t, .inr rfl, hsync, h256⟩

/-- **A release** counts one use less and resumes the guest of the slot's owner. -/
theorem releaseMount_ok {d : Int} (h : releaseMount d s = .ok s') :
    ∃ (i : Slot) (v : Vmi), (i : Int) = d ∧ s.records.owner i = some v ∧ Kept s s' ∧
      s'.records = s.records.release i ∧ OnlyGuest v false s s' ∧ s'.host = s.host := by
  unfold releaseMount at h
  split at h
  · rename_i hd
    dsimp only at h
    split at h
    · split at h
      · cases h
      · rename_i v ho
        cases h
        rw [Records.owner_release] at ho
        exact ⟨⟨d.toNat, hd.2⟩, v, Int.toNat_of_nonneg hd.1, ho, ⟨rfl, rfl, rfl, rfl, rfl⟩, rfl,
          onlyGuest_of_eq rfl rfl (fun n hn => Function.update_of_ne hn _ _) (Function.update_self _ _ _), rfl⟩
    · cases h
  · cases h

end Hyperagents
