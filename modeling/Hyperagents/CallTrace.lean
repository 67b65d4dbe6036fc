import Hyperagents.HAMain
import Hyperagents.SyncRun
/-!
# The trace of a call

What a call locks, calls and runs, in order: `callTrace` gives it also for a call that does not return, up to where it
stops.  A call that returns has added its trace to the log (`callResult_log`).

The calls here are all of the library's: with those of `HaOp`, `print_status` and the destructors.
-/
namespace Hyperagents

variable {δ : Type} (shell : Shell δ)

/-! ## `print_status` and the destructors -/

def statusLine (s : HaState δ) (i : Slot) : HaState δ :=
  match s.records.owner i with
  | some v => s.vmi v .getName
  | none => s

/-- The clock, the mutexes it tries and the records it reads are only printed. -/
def printStatus (s : HaState δ) : HaState δ :=
  ((List.finRange DEVMAX).foldl statusLine (s.emit .lockVmi)).emit .unlockVmi

def HAConfig.destroy (ha : HAConfig) (s : HaState δ) : HaState δ :=
  let s := ((s.emit .lockVmi).vmi ha.vmi .destroy).emit .unlockVmi
  { s with handles := Function.update s.handles ha.vmi none }

def dropMount (s : HaState δ) (i : Slot) : HaState δ :=
  (s.system shell (.umount (s.baseMountpoint ++ nbdDev i))).system shell (.qemuNbdDisconnect (nbdDev i))

def dropAllMounts (s : HaState δ) : HaState δ := (List.finRange DEVMAX).foldl (dropMount shell) s

def destroyAgent (s : HaState δ) (n : String) : HaState δ :=
  match s.agents n with
  | some ha => ha.destroy s
  | none => s

/-- The destructor of a HAMain, given the names in its map in order, and then the one of its syncmount. -/
def HaState.destroy (names : List String) (s : HaState δ) : HaState δ :=
  dropAllMounts shell (names.foldl destroyAgent s)

/-! ## The traces -/

/-- What `do_sync` does up to its return, or as far as the ticks go where it does not return. -/
def syncTrace (ghostImage : String) (c : SyncCall) (g : Globals) (guest : Guest) : List Act :=
  match doSync ghostImage c g guest with
  | some (_, t) => t.trace
  | none => (runTicks ghostImage c.vmid (listening c g guest) c.ticks).trace

/-- The trace of `mountPartition`. -/
def partitionTrace (env : MountEnv) (base dev : String) (v : Vmi) (host : δ) : List HaAct :=
  let check := if env.linux then "check=none," else ""
  let kpartx := shell.system (.kpartxAdd dev) host
  let umount := shell.system (.umount (base ++ dev)) kpartx.2
  let mount := shell.system (.mount check dev (base ++ dev)) umount.2
  [.system (.kpartxAdd dev) kpartx.1, .lockVmi, .vmi v .pauseVm, .vmi v .getOstype, .unlockVmi,
    .system (.umount (base ++ dev)) umount.1, .system (.mount check dev (base ++ dev)) mount.1]

def nbdMountTrace (env : MountEnv) (dev : String) (v : Vmi) (disk : String) (s : HaState δ) : List HaAct :=
  .lockVmi :: .vmi v .getName ::
    ((syncTrace s.ghostImage env.sync s.globals (s.guestOf v)).map (HaAct.sync v) ++
      match doSync s.ghostImage env.sync s.globals (s.guestOf v) with
      | none => []
      | some (_, t) =>
        let connect := shell.system (.qemuNbdConnect dev disk) (runSystem shell t.trace s.host)
        .unlockVmi :: .system (.qemuNbdConnect dev disk) connect.1 ::
          if connect.1 = 256 then [] else partitionTrace shell env s.baseMountpoint dev v connect.2)

def nbdUnmountTrace (dev : String) (v : Vmi) (s : HaState δ) : List HaAct :=
  let umount := shell.system (.umountLazy (s.baseMountpoint ++ dev)) s.host
  let disconnect := shell.system (.qemuNbdDisconnect dev) umount.2
  [.system (.umountLazy (s.baseMountpoint ++ dev)) umount.1, .lockVmi, .vmi v .resumeVm, .unlockVmi,
    .system (.qemuNbdDisconnect dev) disconnect.1]

/-- The trace of `stealLoop`. -/
def stealTrace (rs : Records) : List Timeval → Int × Slot → List HaAct
  | [], _ => []
  | c :: cs, m =>
    let m := rs.victimPass c m
    .lockLk :: if m.1 < 10000 then .unlockLk :: .sleep 1000 :: stealTrace rs cs m else []

def requestTrace (env : MountEnv) (v : Vmi) (disk : String) (s : HaState δ) : List HaAct :=
  match s.records.lookup v with
  | some _ => []
  | none =>
    match s.records.firstFree with
    | some i => nbdMountTrace shell env (nbdDev i) v disk { s with records := s.records.claim i v }
    | none =>
      .vmi v .getName :: (stealTrace s.records env.clocks (0, 0) ++
        match stealLoop (s.vmi v .getName) env.clocks (0, 0) with
        | none => []
        | some (i, s) =>
          let s₁ := doNbdUnmount shell (nbdDev i) v s
          let s₂ := { s₁ with records := s₁.records.reassign i v }
          nbdUnmountTrace shell (nbdDev i) v s ++ nbdMountTrace shell env (nbdDev i) v disk s₂ ++
            match doNbdMount shell env (nbdDev i) v disk s₂ with
            | .ok _ => [.unlockLk]
            | .error _ => [])

/-- The VMI lock is taken before the record's null pointer is read. -/
def releaseTrace (dev : Int) (s : HaState δ) : List HaAct :=
  if h : dev.toNat < DEVMAX then
    let i : Slot := ⟨dev.toNat, h⟩
    if 0 ≤ dev ∧ s.records.canRelease i then
      match s.records.owner i with
      | none => [.lockVmi]
      | some v => [.lockVmi, .vmi v .resumeVm, .unlockVmi]
    else []
  else []

def statusTrace (s : HaState δ) : List HaAct :=
  (List.finRange DEVMAX).filterMap fun i => (s.records.owner i).map fun v => .vmi v .getName

def destroyTrace (ha : HAConfig) : List HaAct := [.lockVmi, .vmi ha.vmi .destroy, .unlockVmi]

def dropTrace (base : String) : List Slot → δ → List HaAct
  | [], _ => []
  | i :: is, host =>
    let umount := shell.system (.umount (base ++ nbdDev i)) host
    let disconnect := shell.system (.qemuNbdDisconnect (nbdDev i)) umount.2
    .system (.umount (base ++ nbdDev i)) umount.1 :: .system (.qemuNbdDisconnect (nbdDev i)) disconnect.1 ::
      dropTrace base is disconnect.2

/-- Of a search there is nothing to see but `lk` and the sleeping. -/
theorem filterMap_stealTrace {A : Type} {f : HaAct → Option A} (hlock : f .lockLk = none)
    (hunlock : f .unlockLk = none) (hsleep : f (.sleep 1000) = none) (rs : Records) :
    ∀ (cs : List Timeval) (m : Int × Slot), (stealTrace rs cs m).filterMap f = []
  | [], _ => rfl
  | c :: cs, m => by
    unfold stealTrace
    dsimp only
    rw [List.filterMap_cons_none hlock]
    split
    · rw [List.filterMap_cons_none hunlock, List.filterMap_cons_none hsleep]
      exact filterMap_stealTrace hlock hunlock hsleep rs cs _
    · rfl

/-! ## The calls -/

inductive HaCall
  | op (o : HaOp)
  | printStatus
  | destroyConfig (ha : HAConfig)
  | destroyMain (names : List String)

def callResult (s : HaState δ) : HaCall → Except Halt (HaState δ)
  | .op (.addAgent n r d ok m) => addAgent n r d ok m s
  | .op (.mountDisk n env) => (mountDisk shell n env s).map Prod.snd
  | .op (.unmountDisk n) => unmountDisk n s
  | .printStatus => .ok (printStatus s)
  | .destroyConfig ha => .ok (ha.destroy s)
  | .destroyMain names => .ok (s.destroy shell names)

def callTrace (s : HaState δ) : HaCall → List HaAct
  | .op (.addAgent _ _ _ ok _) =>
    .lockVmi :: .vmi s.nextVmi .initComplete :: if ok then [.vmi s.nextVmi .getOstype, .unlockVmi] else []
  | .op (.mountDisk n env) =>
    match s.agents n with
    | none => []
    | some ha => requestTrace shell env ha.vmi ha.diskPath s
  | .op (.unmountDisk n) =>
    match s.agents n with
    | none => []
    | some ha => releaseTrace ha.mountdev s
  | .printStatus => .lockVmi :: (statusTrace s ++ [.unlockVmi])
  | .destroyConfig ha => destroyTrace ha
  | .destroyMain names =>
    (names.filterMap s.agents).flatMap destroyTrace ++ dropTrace shell s.baseMountpoint (List.finRange DEVMAX) s.host

/-! ## A call that returns has added its trace to the log -/

variable {shell} {env : MountEnv} {dev : String} {v : Vmi} {disk : String} {s s' : HaState δ}

theorem mountPartition_log (s : HaState δ) : (mountPartition shell env dev v s).log =
    s.log ++ partitionTrace shell env s.baseMountpoint dev v s.host := by
  simp only [mountPartition, HaState.system, HaState.pauseVm, HaState.vmi, HaState.setGuest, HaState.emit,
    List.append_assoc]
  rfl

theorem doNbdMount_log (h : doNbdMount shell env dev v disk s = .ok s') :
    s'.log = s.log ++ nbdMountTrace shell env dev v disk s := by
  unfold doNbdMount at h
  dsimp only at h
  split at h
  · cases h
  · rename_i ret t hsync
    change doSync s.ghostImage env.sync s.globals (s.guestOf v) = some (ret, t) at hsync
    split at h
    · cases h
    · rename_i hstatus
      rw [← Except.ok.inj h, mountPartition_log]
      change ¬ (shell.system (.qemuNbdConnect dev disk) (runSystem shell t.trace s.host)).1 = 256 at hstatus
      simp only [nbdMountTrace, syncTrace, hsync, if_neg hstatus, HaState.system, HaState.emit, afterSync, HaState.vmi,
        HaState.setGuest, List.append_assoc]
      rfl

theorem doNbdUnmount_log (s : HaState δ) :
    (doNbdUnmount shell dev v s).log = s.log ++ nbdUnmountTrace shell dev v s := by
  simp only [doNbdUnmount, HaState.system, HaState.resumeVm, HaState.vmi, HaState.setGuest, HaState.emit,
    List.append_assoc]
  rfl

theorem stealLoop_log {i : Slot} : ∀ (cs : List Timeval) (s : HaState δ) (m : Int × Slot),
    stealLoop s cs m = some (i, s') → s'.log = s.log ++ stealTrace s.records cs m
  | [], _, _, h => by cases h
  | c :: cs, s, m, h => by
    unfold stealLoop at h
    unfold stealTrace
    dsimp only at h ⊢
    change (if (s.records.victimPass c m).1 < 10000 then _ else _) = _ at h
    split at h
    · rename_i hshort
      rw [if_pos hshort, stealLoop_log cs _ _ h]
      simp [HaState.emit]
    · rename_i hlong
      rw [if_neg hlong]
      cases h
      rfl

theorem requestMount_log {i : Slot} (h : requestMount shell env v disk s = .ok (i, s')) :
    s'.log = s.log ++ requestTrace shell env v disk s := by
  unfold requestMount at h
  unfold requestTrace
  cases hl : s.records.lookup v with
  | some j =>
    rw [hl] at h
    dsimp only at h
    split at h
    · cases h
      exact (List.append_nil _).symm
    · cases h
  | none =>
    rw [hl] at h
    cases hf : s.records.firstFree with
    | some j =>
      rw [hf] at h
      obtain ⟨s₁, hmount, heq⟩ := ok_of_bind h
      cases heq
      have hlog := doNbdMount_log hmount
      exact hlog
    | none =>
      rw [hf] at h
      cases hsteal : stealLoop (s.vmi v .getName) env.clocks (0, 0) with
      | none =>
        rw [hsteal] at h
        cases h
      | some found =>
        obtain ⟨j, s₁⟩ := found
        rw [hsteal] at h
        obtain ⟨s₃, hmount, heq⟩ := ok_of_bind h
        cases heq
        have hloop := stealLoop_log env.clocks _ (0, 0) hsteal
        have hunmount : (doNbdUnmount shell (nbdDev i) v s₁).log = s₁.log ++ nbdUnmountTrace shell (nbdDev i) v s₁ :=
          doNbdUnmount_log s₁
        have hlog := doNbdMount_log hmount
        simp only [hmount]
        -- The mount's trace does not depend on the log.
        generalize nbdMountTrace shell env (nbdDev i) v disk { doNbdUnmount shell (nbdDev i) v s₁ with
          records := (doNbdUnmount shell (nbdDev i) v s₁).records.reassign i v } = mounted at hlog ⊢
        dsimp only at hlog
        rw [hunmount, hloop] at hlog
        simp only [HaState.emit, hlog, HaState.vmi, List.append_assoc, List.cons_append, List.nil_append]

theorem releaseMount_log {dev : Int} (h : releaseMount dev s = .ok s') : s'.log = s.log ++ releaseTrace dev s := by
  unfold releaseMount at h
  unfold releaseTrace
  split at h
  · rename_i hd
    rw [dif_pos hd.2]
    dsimp only at h ⊢
    split at h
    · rename_i hc
      rw [if_pos ⟨hd.1, hc⟩]
      split at h
      · cases h
      · rename_i v ho
        rw [Records.owner_release] at ho
        cases h
        simp only [ho, HaState.resumeVm, HaState.vmi, HaState.setGuest, HaState.emit, List.append_assoc]
        rfl
    · cases h
  · cases h

theorem printStatus_log (s : HaState δ) :
    (printStatus s).log = s.log ++ .lockVmi :: (statusTrace s ++ [.unlockVmi]) := by
  have hfold : ∀ (is : List Slot) (u : HaState δ), (is.foldl statusLine u).log =
      u.log ++ is.filterMap fun i => (u.records.owner i).map fun v => .vmi v .getName := by
    intro is
    induction is with
    | nil => exact fun u => (List.append_nil _).symm
    | cons i is ih =>
      intro u
      rw [List.foldl_cons, ih]
      unfold statusLine
      cases ho : u.records.owner i with
      | none => simp [ho]
      | some v => simp [ho, HaState.vmi, HaState.emit]
  show (List.foldl statusLine (s.emit .lockVmi) (List.finRange DEVMAX)).log ++ [HaAct.unlockVmi] = _
  rw [hfold]
  simp [HaState.emit, statusTrace]

theorem destroyAgents_log (names : List String) (s : HaState δ) :
    (names.foldl destroyAgent s).log = s.log ++ (names.filterMap s.agents).flatMap destroyTrace ∧
      (names.foldl destroyAgent s).baseMountpoint = s.baseMountpoint ∧ (names.foldl destroyAgent s).host = s.host := by
  induction names generalizing s with
  | nil => exact ⟨(List.append_nil _).symm, rfl, rfl⟩
  | cons n names ih =>
    obtain ⟨hlog, hbase, hhost⟩ := ih (destroyAgent s n)
    rw [List.foldl_cons, hlog, hbase, hhost]
    unfold destroyAgent
    cases ha : s.agents n with
    | none => simp [ha]
    | some ha' =>
      simp [ha, HAConfig.destroy, destroyTrace, HaState.vmi, HaState.emit]

theorem dropMounts_log (is : List Slot) (s : HaState δ) :
    (is.foldl (dropMount shell) s).log = s.log ++ dropTrace shell s.baseMountpoint is s.host := by
  induction is generalizing s with
  | nil => exact (List.append_nil _).symm
  | cons i is ih =>
    rw [List.foldl_cons, ih]
    simp [dropMount, dropTrace, HaState.system, HaState.emit]

/-- A mount that returns is a request that does. -/
theorem callResult_mountDisk {n : String} (h : callResult shell s (.op (.mountDisk n env)) = .ok s') :
    ∃ ha i s₁, s.agents n = some ha ∧ requestMount shell env ha.vmi ha.diskPath s = .ok (i, s₁) ∧ s'.log = s₁.log := by
  cases hm : mountDisk shell n env s with
  | error e =>
    simp only [callResult, hm] at h
    cases h
  | ok p =>
    simp only [callResult, hm] at h
    cases h
    unfold mountDisk at hm
    split at hm
    · cases hm
    · rename_i ha hn
      obtain ⟨⟨i, u⟩, hreq, heq⟩ := ok_of_bind hm
      cases heq
      exact ⟨ha, i, u, hn, hreq, rfl⟩

/-- **A call that returns** has added its trace to the log. -/
theorem callResult_log {c : HaCall} (h : callResult shell s c = .ok s') : s'.log = s.log ++ callTrace shell s c := by
  cases c with
  | op o =>
    cases o with
    | addAgent n r d ok m =>
      simp only [callResult, addAgent] at h
      split at h
      · rename_i hok
        cases h
        simp [callTrace, hok, HaState.vmi, HaState.emit]
      · cases h
    | mountDisk n env =>
      obtain ⟨ha, i, u, hn, hreq, hlog⟩ := callResult_mountDisk h
      simp only [callTrace]
      rw [hn, hlog]
      exact requestMount_log hreq
    | unmountDisk n =>
      simp only [callResult, unmountDisk] at h
      simp only [callTrace]
      cases hn : s.agents n with
      | none =>
        rw [hn] at h
        cases h
      | some ha =>
        rw [hn] at h
        exact releaseMount_log h
  | printStatus =>
    cases h
    exact printStatus_log s
  | destroyConfig ha =>
    cases h
    simp [callTrace, destroyTrace, HAConfig.destroy, HaState.vmi, HaState.emit]
  | destroyMain names =>
    cases h
    obtain ⟨hlog, hbase, hhost⟩ := destroyAgents_log names s
    show (List.foldl (dropMount shell) (names.foldl destroyAgent s) (List.finRange DEVMAX)).log = _
    rw [dropMounts_log, hlog, hbase, hhost, List.append_assoc]
    rfl

theorem haStep_eq (s : HaState δ) (op : HaOp) : haStep shell s op = (callResult shell s (.op op)).toOption := by
  cases op with
  | addAgent n r d ok m => rfl
  | mountDisk n env =>
    show (mountDisk shell n env s).toOption.map Prod.snd = ((mountDisk shell n env s).map Prod.snd).toOption
    cases mountDisk shell n env s <;> rfl
  | unmountDisk n => rfl

theorem callResult_of_step {op : HaOp} (hs : haStep shell s op = some s') : callResult shell s (.op op) = .ok s' :=
  toOption_eq_some.1 ((haStep_eq s op).symm.trans hs)

end Hyperagents
