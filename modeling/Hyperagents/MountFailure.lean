import Hyperagents.CallTrace
/-!
# A mount that failed

A request that mounts a device has filled the record before it knows how the commands end, and of their statuses it
reads one: the process exits where `qemu-nbd -c` ends with 256.  Any other failure goes unseen; the request returns its
slot, and the next one for the VM finds the record and returns the slot again.  So a failure is seen exactly where
there is none, or the process exits (`failure_seen_iff`).
-/
namespace Hyperagents

/-- The commands a mounted disk needs. -/
def ShellCmd.isMountStep : ShellCmd → Bool
  | .qemuNbdConnect _ _ | .kpartxAdd _ | .mount _ _ _ => true
  | .umount _ | .umountLazy _ | .qemuNbdDisconnect _ | .xlBlockAttach _ _ | .xlBlockList _ | .xlBlockDetach _ => false

/-- The statuses of these commands in a trace. -/
def mountStatuses (t : List HaAct) : List Int :=
  t.filterMap fun
    | .system c status => if c.isMountStep then some status else none
    | _ => none

theorem mountStatuses_append (t u : List HaAct) : mountStatuses (t ++ u) = mountStatuses t ++ mountStatuses u :=
  List.filterMap_append

theorem mountStatuses_sync (v : Vmi) (t : List Act) : mountStatuses (t.map (HaAct.sync v)) = [] := by
  unfold mountStatuses
  rw [List.filterMap_map, List.filterMap_eq_nil_iff]
  exact fun _ _ => rfl

theorem mountStatuses_steal (rs : Records) (cs : List Timeval) (m : Int × Slot) :
    mountStatuses (stealTrace rs cs m) = [] :=
  filterMap_stealTrace rfl rfl rfl rs cs m

variable {δ : Type} (shell : Shell δ)

/-- A request gets to `do_nbd_mount` of slot `i`, in the state `u`. -/
inductive MountsFrom (env : MountEnv) (v : Vmi) (s : HaState δ) : Slot → HaState δ → Prop
  | fresh (i : Slot) : s.records.lookup v = none → s.records.firstFree = some i →
      MountsFrom env v s i { s with records := s.records.claim i v }
  | steal (i : Slot) (s₁ : HaState δ) : s.records.lookup v = none → s.records.firstFree = none →
      stealLoop (s.vmi v .getName) env.clocks (0, 0) = some (i, s₁) →
      MountsFrom env v s i { doNbdUnmount shell (nbdDev i) v s₁ with
        records := (doNbdUnmount shell (nbdDev i) v s₁).records.reassign i v }

/-- The flush returns, with the host as `qemu-nbd -c` finds it. -/
def ConnectsAt (env : MountEnv) (v : Vmi) (u : HaState δ) (host : δ) : Prop :=
  ∃ ret t, doSync u.ghostImage env.sync u.globals (u.guestOf v) = some (ret, t) ∧ host = runSystem shell t.trace u.host

/-- From the host on, the disk is connected, its partitions mapped and mounted; or the process exits. -/
def MountsOrExits (env : MountEnv) (base dev disk : String) (host : δ) : Prop :=
  let check := if env.linux then "check=none," else ""
  let connect := shell.system (.qemuNbdConnect dev disk) host
  let kpartx := shell.system (.kpartxAdd dev) connect.2
  let umount := shell.system (.umount (base ++ dev)) kpartx.2
  let mount := shell.system (.mount check dev (base ++ dev)) umount.2
  connect.1 = 256 ∨ connect.1 = 0 ∧ kpartx.1 = 0 ∧ mount.1 = 0

/-- A request that finds no record of the VM returns only if its commands all ended well, and leaves the record to the
VM only then. -/
structure FailureSeen (env : MountEnv) (v : Vmi) (disk : String) (s : HaState δ) : Prop where
  returned : ∀ i s', s.records.lookup v = none → requestMount shell env v disk s = .ok (i, s') →
    ∀ status ∈ mountStatuses (requestTrace shell env v disk s), status = 0
  unowned : ∀ i s', s.records.lookup v = none → requestMount shell env v disk s = .ok (i, s') →
    (∃ status ∈ mountStatuses (requestTrace shell env v disk s), status ≠ 0) → s'.records.owner i ≠ some v

variable {shell} {env : MountEnv} {dev disk : String} {v : Vmi} {s s' u : HaState δ} {i : Slot} {host : δ}

/-! ## One mount -/

theorem doNbdMount_of_connects (h : ConnectsAt shell env v u host)
    (h256 : (shell.system (.qemuNbdConnect dev disk) host).1 ≠ 256) :
    ∃ s', doNbdMount shell env dev v disk u = .ok s' := by
  obtain ⟨ret, t, hsync, rfl⟩ := h
  refine ⟨mountPartition shell env dev v ((((afterSync shell v t ((u.emit .lockVmi).vmi v .getName)).emit
    .unlockVmi).system shell (.qemuNbdConnect dev disk))), ?_⟩
  have hsync' : doSync ((u.emit .lockVmi).vmi v .getName).ghostImage env.sync ((u.emit .lockVmi).vmi v .getName).globals
      (((u.emit .lockVmi).vmi v .getName).guestOf v) = some (ret, t) := hsync
  unfold doNbdMount
  dsimp only
  rw [hsync']
  exact if_neg h256

theorem connects_of_doNbdMount (h : doNbdMount shell env dev v disk u = .ok s') :
    ∃ host, ConnectsAt shell env v u host ∧ (shell.system (.qemuNbdConnect dev disk) host).1 ≠ 256 := by
  unfold doNbdMount at h
  dsimp only at h
  split at h
  · cases h
  · rename_i ret t hsync
    split at h
    · cases h
    · rename_i h256
      exact ⟨_, ⟨ret, t, hsync, rfl⟩, h256⟩

/-- What a mount that returns shows of its commands. -/
theorem nbdMountTrace_statuses (h : ConnectsAt shell env v u host)
    (h256 : (shell.system (.qemuNbdConnect dev disk) host).1 ≠ 256) :
    (∀ status ∈ mountStatuses (nbdMountTrace shell env dev v disk u), status = 0) ↔
      MountsOrExits shell env u.baseMountpoint dev disk host := by
  obtain ⟨ret, t, hsync, rfl⟩ := h
  have hlock : ∀ t, mountStatuses (.lockVmi :: .vmi v .getName :: t) = mountStatuses t := fun _ => rfl
  unfold nbdMountTrace MountsOrExits
  rw [hsync, hlock, mountStatuses_append, mountStatuses_sync]
  dsimp only
  rw [if_neg h256]
  simp [mountStatuses, partitionTrace, ShellCmd.isMountStep, h256]

/-! ## One request -/

theorem MountsFrom.lookup (h : MountsFrom shell env v s i u) : s.records.lookup v = none := by
  cases h with
  | fresh hl hf => exact hl
  | steal s₁ hl hf hs => exact hl

/-- A request gets to the mount of one slot only, and returns when that does. -/
theorem MountsFrom.requestMount (h : MountsFrom shell env v s i u)
    (hm : doNbdMount shell env (nbdDev i) v disk u = .ok s') :
    ∃ s'', requestMount shell env v disk s = .ok (i, s'') ∧ mountStatuses (requestTrace shell env v disk s) =
      mountStatuses (nbdMountTrace shell env (nbdDev i) v disk u) := by
  cases h with
  | fresh hl hf =>
    unfold Hyperagents.requestMount requestTrace
    rw [hl, hf]
    dsimp only
    rw [hm]
    exact ⟨_, rfl, rfl⟩
  | steal s₁ hl hf hs =>
    unfold Hyperagents.requestMount requestTrace
    rw [hl, hf]
    dsimp only
    rw [hs]
    dsimp only
    rw [hm]
    refine ⟨_, rfl, ?_⟩
    have hname : ∀ t, mountStatuses (.vmi v .getName :: t) = mountStatuses t := fun _ => rfl
    rw [hname, mountStatuses_append, mountStatuses_append, mountStatuses_append, mountStatuses_steal]
    exact List.append_nil _

theorem mountsFrom_of_ok (hl : s.records.lookup v = none) (h : requestMount shell env v disk s = .ok (i, s')) :
    ∃ u s'', MountsFrom shell env v s i u ∧ doNbdMount shell env (nbdDev i) v disk u = .ok s'' := by
  unfold requestMount at h
  rw [hl] at h
  dsimp only at h
  split at h
  · rename_i hf
    obtain ⟨s₁, hmount, heq⟩ := ok_of_bind h
    cases heq
    exact ⟨_, s₁, .fresh i hl hf, hmount⟩
  · rename_i hf
    split at h
    · cases h
    · rename_i s₁ hsteal
      obtain ⟨s₃, hmount, heq⟩ := ok_of_bind h
      cases heq
      exact ⟨_, s₃, .steal i s₁ hl hf hsteal, hmount⟩

/-- **A request that mounts leaves the record to its VM**, whatever the commands did. -/
theorem owned_of_ok (hl : s.records.lookup v = none) (h : requestMount shell env v disk s = .ok (i, s')) :
    s'.records.owner i = some v := by
  rcases (requestMount_ok h).records with ⟨howner, -⟩ | ⟨-, -, howner, -⟩
  · exact absurd howner (Records.lookup_none.1 hl i)
  · rw [howner, Function.update_self]

/-- **The next request for the VM returns the slot as it is**, and runs no command. -/
theorem remount_after (hl : s.records.lookup v = none) (h : requestMount shell env v disk s = .ok (i, s'))
    (env' : MountEnv) (disk' : String) : requestMount shell env' v disk' s' =
      .ok (i, { s' with records := s'.records.remount i env'.now }) := by
  rcases (requestMount_ok h).records with ⟨howner, -⟩ | ⟨hnone, -, howner, hcount, -⟩
  · exact absurd howner (Records.lookup_none.1 hl i)
  · have hfound : s'.records.lookup v = some i := by
      obtain ⟨j, hj⟩ := Option.ne_none_iff_exists'.1 fun hnot =>
        Records.lookup_none.1 hnot i (owned_of_ok hl h)
      rw [hj]
      have hown := Records.lookup_some hj
      by_cases hji : j = i
      · rw [hji]
      · rw [howner, Function.update_of_ne hji] at hown
        exact absurd hown (hnone j)
    have hone : s'.records.refcount i = 1 := by
      rw [hcount, Function.update_self]
    have hcan : s'.records.canRemount i = true := by
      change decide (s'.records.refcount i < 2147483647) = true
      rw [hone]
      decide
    unfold requestMount
    rw [hfound]
    exact if_pos hcan

/-- **A failed mount is seen exactly where none fails, or the process exits.** -/
theorem failure_seen_iff (shell : Shell δ) (env : MountEnv) (v : Vmi) (disk : String) (s : HaState δ) :
    FailureSeen shell env v disk s ↔ ∀ i u host, MountsFrom shell env v s i u → ConnectsAt shell env v u host →
      MountsOrExits shell env u.baseMountpoint (nbdDev i) disk host := by
  constructor
  · rintro ⟨hreturned, -⟩ i u host hfrom hconn
    by_cases h256 : (shell.system (.qemuNbdConnect (nbdDev i) disk) host).1 = 256
    · exact .inl h256
    · obtain ⟨s₁, hmount⟩ := @doNbdMount_of_connects δ shell env (nbdDev i) disk v u host hconn h256
      obtain ⟨s', hreq, htrace⟩ := hfrom.requestMount hmount
      rw [← nbdMountTrace_statuses hconn h256, ← htrace]
      exact hreturned i s' hfrom.lookup hreq
  · intro h
    have hzero : ∀ i s', s.records.lookup v = none → requestMount shell env v disk s = .ok (i, s') →
        ∀ status ∈ mountStatuses (requestTrace shell env v disk s), status = 0 := by
      intro i s' hl hreq
      obtain ⟨u, s₁, hfrom, hmount⟩ := mountsFrom_of_ok hl hreq
      obtain ⟨host, hconn, h256⟩ := connects_of_doNbdMount hmount
      obtain ⟨-, -, htrace⟩ := hfrom.requestMount hmount
      rw [htrace, nbdMountTrace_statuses hconn h256]
      exact h i u host hfrom hconn
    refine ⟨hzero, ?_⟩
    rintro i s' hl hreq ⟨status, hmem, hne⟩
    exact absurd (hzero i s' hl hreq status hmem) hne

/-- A host where `kpartx` ends with status 256 and `mount` with 8192. -/
def noPartitions : Shell Unit where
  system c host := (match c with
    | .kpartxAdd _ => 256
    | .mount _ _ _ => 8192
    | _ => 0, host)

theorem failed_mount_returned : ∃ s', requestMount noPartitions (quietMount 1) 1 "d" (.small ()) = .ok (0, s') ∧
    mountStatuses (requestTrace noPartitions (quietMount 1) 1 "d" (.small ())) = [0, 256, 8192] ∧
      s'.records.owner 0 = some 1 ∧ ¬ FailureSeen noPartitions (quietMount 1) 1 "d" (.small ()) := by
  obtain ⟨⟨i, s'⟩, hreq, hi⟩ := Option.map_eq_some_iff.1 (show (requestMount noPartitions (quietMount 1) 1 "d"
    (.small ())).toOption.map Prod.fst = some 0 by decide)
  obtain rfl : i = 0 := hi
  have hok := toOption_eq_some.1 hreq
  have hstatuses : mountStatuses (requestTrace noPartitions (quietMount 1) 1 "d" (.small ())) = [0, 256, 8192] := by
    decide
  refine ⟨s', hok, hstatuses, owned_of_ok (by decide) hok, fun h => ?_⟩
  have := h.returned 0 s' (by decide) hok 256 (by rw [hstatuses]; decide)
  cases this

end Hyperagents
