import Hyperagents.Linearized
import Hyperagents.SlotAccounting
/-!
# A HAMain is a cache of mounts

To those who call `mount_disk` and `unmount_disk` there are no handles, slots, `mountdev`s or mutexes, but names and
paths.  For them a HAMain is a cache of sixteen mount points with the agents' names as keys (`PinnedCache`): a mount
returns the mount point that the agent has, else the first that nobody has, else the one that no agent has mounted and
that is idle the longest; an unmount takes one mount back from the agent's own.  So it is in every run that registers a
name once and unmounts only what is mounted (`mounts_cached`).
-/
namespace Hyperagents

open Runs
open PinnedCache (Cache Pin)

/-- What a caller sees. -/
inductive MountSeen
  | mounted (vmName path : String)
  | unmounted (vmName : String)
  deriving DecidableEq, Repr

def MountSeen.ofLabel (base : String) : PinnedCache.Label Unit Slot String Timeval → Option MountSeen
  | .answer _ n i _ => some (.mounted n (getMountpoint base i.val))
  | .release p => some (.unmounted p.key)
  | .call _ _ | .serve _ _ => none

variable {δ : Type} {shell : Shell δ}

def HaOp.seen (shell : Shell δ) (s : HaState δ) : HaOp → List MountSeen
  | .addAgent _ _ _ _ _ => []
  | .mountDisk n env => ((Hyperagents.mountDisk shell n env s).toOption.map fun r => .mounted n r.1).toList
  | .unmountDisk n => [.unmounted n]

/-- The reading of the clock in the pass that ends the search, if there is one. -/
def MountEnv.searched (env : MountEnv) (rs : Records) : Timeval :=
  match victimSearch 0 (env.clocks.map fun c => (rs, c)) (0, 0) with
  | some (k, _) => env.clocks.getD k env.now
  | none => env.now

/-- What a call is for the cache. -/
def HaOp.effects (shell : Shell δ) (s : HaState δ) : HaOp → List (PinnedCache.Label Unit Slot String Timeval)
  | .addAgent _ _ _ _ _ => []
  | .mountDisk n env =>
    match s.agents n with
    | none => []
    | some ha =>
      match requestMount shell env ha.vmi ha.diskPath s with
      | .error _ => []
      | .ok (i, _) => [.call () n, .serve () (env.searched s.records), .answer () n i env.now]
  | .unmountDisk n =>
    match s.agents n with
    | none => []
    | some ha =>
      if h : ha.mountdev.toNat < DEVMAX then [.release ⟨(), n, ⟨ha.mountdev.toNat, h⟩⟩] else []

/-- The records by the names of the agents. -/
def HaState.mounts (s : HaState δ) : Cache Slot String Timeval := PinnedCache.relabel s.handles s.records.cache

/-- What the calls were for the cache is a run of it, to the records as they are between two calls; and it shows the
callers what the calls did. -/
structure Cached (clock : Slot → Timeval) (base : String) (ms : List (PinnedCache.Label Unit Slot String Timeval))
    (shown : List MountSeen) (s : HaState δ) : Prop where
  run : ∃ held, Run (PinnedCache.Step timevalDiff 10000) (.init clock) ms ⟨s.mounts, fun _ => .out, held⟩
  shown : ms.filterMap (MountSeen.ofLabel base) = shown

/-- Slots are owned by handles that are open. -/
def OwnersOpen (s : HaState δ) : Prop := ∀ i v, s.records.owner i = some v → s.handles v ≠ none

variable {s s' : HaState δ} {ops : List HaOp} {n : String} {ha : HAConfig} {env : MountEnv} {i : Slot}

/-! ## Names for handles -/

/-- Only the agent's own handle goes by its name. -/
theorem Accounts.vmi_of_name (h : Accounts ops s) (hn : s.agents n = some ha) {v : Vmi}
    (hv : s.handles v = some n) : v = ha.vmi := by
  obtain ⟨ha', hn', rfl⟩ := h.agent n v hv
  rw [hn] at hn'
  cases hn'
  rfl

theorem Accounts.key_iff (h : Accounts ops s) (hn : s.agents n = some ha) {j : Slot} :
    (s.mounts j).key = some n ↔ s.records.owner j = some ha.vmi := by
  show (s.records.owner j).bind s.handles = some n ↔ _
  constructor
  · intro hkey
    obtain ⟨v, ho, hv⟩ := Option.bind_eq_some_iff.1 hkey
    rw [ho, h.vmi_of_name hn hv]
  · intro ho
    rw [ho]
    exact h.handle n ha hn

theorem OwnersOpen.key_none (h : OwnersOpen s) {j : Slot} : (s.mounts j).key = none ↔ s.records.owner j = none := by
  show (s.records.owner j).bind s.handles = none ↔ _
  constructor
  · intro hkey
    refine Option.eq_none_iff_forall_ne_some.2 fun v ho => h j v ho ?_
    rw [ho] at hkey
    exact hkey
  · intro ho
    rw [ho]
    rfl

theorem OwnersOpen.added {r d : String} {m : Int} (h : OwnersOpen s) (hs : Added n r d m s s') : OwnersOpen s' := by
  intro j v ho
  rw [hs.records] at ho
  rw [hs.handles]
  by_cases hv : v = s.nextVmi
  · rw [hv, Function.update_self]
    exact Option.some_ne_none n
  · rw [Function.update_of_ne hv]
    exact h j v ho

theorem OwnersOpen.mounted {s₁ : HaState δ} (h : OwnersOpen s) (hacc : Accounts ops s)
    (hs : Mounted shell env n ha i s s₁ s') : OwnersOpen s' := by
  obtain ⟨hn, hpath, rfl⟩ := hs
  intro j v ho
  show s₁.handles v ≠ none
  rw [hpath.kept.handles]
  cases hpath.records with
  | remount hi howner hcount hl => exact h j v (howner ▸ ho)
  | grant hgone hi howner hcount hl =>
    change s₁.records.owner j = some v at ho
    rw [howner] at ho
    by_cases hji : j = i
    · rw [hji, Function.update_self] at ho
      cases ho
      rw [hacc.handle n ha hn]
      exact Option.some_ne_none n
    · rw [Function.update_of_ne hji] at ho
      exact h j v ho

theorem OwnersOpen.unmounted {v : Vmi} (h : OwnersOpen s) (hs : Unmounted n ha i v s s') : OwnersOpen s' := by
  intro j w ho
  rw [hs.records, Records.owner_release] at ho
  rw [hs.kept.handles]
  exact h j w ho

theorem Accounts.refcount_nonneg (h : Accounts ops s) (j : Slot) : 0 ≤ s.records.refcount j := by
  cases ho : s.records.owner j with
  | none => rw [h.sound.count_of_none ho]
  | some v =>
    rw [h.sound.count_of_owner ho]
    exact h.sound.nonneg v

/-! ## A request -/

/-- A steal takes the slot that is idle the longest when the search ends. -/
theorem requestMount_oldest {v : Vmi} {disk : String} (h : requestMount shell env v disk s = .ok (i, s'))
    (hl : s.records.lookup v = none) (hf : s.records.firstFree = none) :
    s.records.LongestIdle (env.searched s.records) i := by
  unfold requestMount at h
  rw [hl] at h
  dsimp only at h
  rw [hf] at h
  dsimp only at h
  split at h
  · cases h
  · rename_i j s₁ hsteal
    obtain ⟨s₃, -, heq⟩ := ok_of_bind h
    cases heq
    have hsearch := stealLoop_eq_victimSearch env.clocks (s.vmi v .getName) 0 (0, 0)
    rw [hsteal] at hsearch
    obtain ⟨⟨k, j⟩, hends, hj⟩ := Option.map_eq_some_iff.1 hsearch.symm
    obtain rfl : j = i := hj
    obtain ⟨⟨rs, now, hpass, hlongest⟩, -⟩ := (victimSearch_ends _ k j).1 hends
    rw [List.getElem?_map] at hpass
    obtain ⟨c, hk, hc⟩ := Option.map_eq_some_iff.1 hpass
    cases hc
    have hsearched : env.searched s.records = now := by
      unfold MountEnv.searched
      rw [show victimSearch 0 (env.clocks.map fun c => (s.records, c)) (0, 0) = some (k, j) from hends]
      dsimp only
      rw [List.getD_eq_getElem?_getD, hk]
      rfl
    rw [hsearched]
    exact hlongest

/-- **A request is served as by the cache**, and leaves the records so. -/
theorem Accounts.serves (h : Accounts ops s) (hopen : OwnersOpen s) (hn : s.agents n = some ha) {disk : String}
    (hreq : requestMount shell env ha.vmi disk s = .ok (i, s')) : ∃ c,
      PinnedCache.Serves timevalDiff 10000 s.mounts (env.searched s.records) n i c ∧
        s'.mounts = PinnedCache.stamp c i env.now := by
  have hhandle := h.handle n ha hn
  have hgone : s.records.lookup ha.vmi = none → ∀ j, (s.mounts j).key ≠ some n := by
    intro hl j hj
    exact Records.lookup_none.1 hl j ((h.key_iff hn).1 hj)
  have hlocked : ∀ j, (s.records j).l = true → (s.mounts j).key ≠ none := by
    intro j hl hj
    exact (h.locked j).1 hl (hopen.key_none.1 hj)
  have hpath := requestMount_ok hreq
  have hkept := hpath.kept.handles
  cases hpath with
  | remount hl hcan =>
    refine ⟨_, .hit ((h.key_iff hn).2 (Records.lookup_some hl)), ?_⟩
    show PinnedCache.relabel s.handles (s.records.remount i env.now).cache = _
    rw [Records.cache_remount (h.refcount_nonneg i), PinnedCache.relabel_stamp, PinnedCache.relabel_pin]
    rfl
  | fresh s₁ hl hf hmounted =>
    refine ⟨_, .fill (hgone hl) (hopen.key_none.2 (h.unowned (Records.firstFree_some hf))) fun j hj =>
      hlocked j (Records.firstFree_before hf j hj), ?_⟩
    show PinnedCache.relabel s₁.handles (s₁.records.stamp i env.now).cache = _
    rw [show s₁.handles = s.handles from hkept, hmounted.records, Records.cache_stamp, Records.cache_claim,
      PinnedCache.relabel_stamp, PinnedCache.relabel_load hhandle]
    rfl
  | steal s₁ s₂ s₃ hl hf hi hlog hunmounted hmounted =>
    obtain ⟨log, rfl⟩ := hlog
    have holdest := (Records.oldest_iff h.refcount_nonneg).2 (requestMount_oldest hreq hl hf)
    refine ⟨_, .evict (hgone hl) (fun j => hlocked j (Records.firstFree_none.1 hf j))
      ⟨holdest.unpinned, holdest.long, holdest.longest, holdest.first⟩, ?_⟩
    show PinnedCache.relabel s₃.handles (s₃.records.stamp i env.now).cache = _
    rw [show s₃.handles = s.handles from hkept, hmounted.records]
    show PinnedCache.relabel s.handles ((s₂.records.reassign i ha.vmi).stamp i env.now).cache = _
    rw [hunmounted.records, Records.cache_stamp, Records.cache_reassign, PinnedCache.relabel_stamp,
      PinnedCache.relabel_load hhandle]
    rfl

/-! ## The calls -/

section

variable {clock : Slot → Timeval} {base : String} {ms : List (PinnedCache.Label Unit Slot String Timeval)}
  {shown : List MountSeen}

theorem Cached.added {r d : String} {m : Int} (h : Cached clock base ms shown s) (hacc : Accounts ops s)
    (hs : Added n r d m s s') : Cached clock base ms shown s' := by
  have hmounts : s'.mounts = s.mounts := by
    funext j
    have hkey : (s.records.owner j).bind s'.handles = (s.records.owner j).bind s.handles := by
      cases ho : s.records.owner j with
      | none => rfl
      | some v =>
        -- Nobody owns a slot by the handle that is new.
        have hv : v ≠ s.nextVmi := fun e => (hacc.fresh s.nextVmi (Nat.le_refl _)).2 j (e ▸ ho)
        show s'.handles v = s.handles v
        rw [hs.handles, Function.update_of_ne hv]
    unfold HaState.mounts PinnedCache.relabel
    rw [hs.records]
    exact congrArg (fun key => PinnedCache.Entry.mk key _ _) hkey
  obtain ⟨hrun, hshown⟩ := h
  rw [← hmounts] at hrun
  exact ⟨hrun, hshown⟩

theorem Cached.mounted {path : String} (h : Cached clock base ms shown s) (hacc : Accounts ops s)
    (hopen : OwnersOpen s) (hbase : s.baseMountpoint = base) (hs : mountDisk shell n env s = .ok (path, s')) :
    Cached clock base (ms ++ HaOp.effects shell s (.mountDisk n env)) (shown ++ [.mounted n path]) s' := by
  obtain ⟨⟨held, hrun⟩, hshown⟩ := h
  unfold mountDisk at hs
  split at hs
  · cases hs
  · rename_i ha hn
    obtain ⟨⟨i, s₁⟩, hreq, heq⟩ := ok_of_bind hs
    cases heq
    have heffects : HaOp.effects shell s (.mountDisk n env) =
        [.call () n, .serve () (env.searched s.records), .answer () n i env.now] := by
      simp only [HaOp.effects, hn, hreq]
    obtain ⟨c, hserves, hmounts⟩ := hacc.serves hopen hn hreq
    have hpath : s₁.baseMountpoint = base := ((requestMount_ok hreq).kept.baseMountpoint).trans hbase
    have hrequest : Run (PinnedCache.Step timevalDiff 10000) ⟨s.mounts, fun _ => .out, held⟩
        [.call () n, .serve () (env.searched s.records), .answer () n i env.now]
          ⟨s₁.mounts, fun _ => .out, ⟨(), n, i⟩ ::ₘ held⟩ := by
      rw [hmounts]
      exact PinnedCache.request_run rfl hserves
    rw [heffects]
    refine ⟨⟨_, run_append_iff.2 ⟨_, hrun, hrequest⟩⟩, ?_⟩
    rw [List.filterMap_append, hshown, hpath]
    rfl

theorem Cached.unmounted {v : Vmi} (h : Cached clock base ms shown s) (hacc : Accounts ops s) (hout : 0 < out ops n)
    (hs : Unmounted n ha i v s s') :
    Cached clock base (ms ++ HaOp.effects shell s (.unmountDisk n)) (shown ++ [.unmounted n]) s' := by
  obtain ⟨⟨held, hrun⟩, hshown⟩ := h
  obtain ⟨hv, -⟩ := hacc.unmounted hout hs
  have hsound := PinnedCache.sound_run hrun
  have hkey : (s.mounts i).key = some n := (hacc.key_iff hs.agent).2 (hv ▸ hs.owner)
  -- A pin of the agent's place is one for its name.
  have hheld : (⟨(), n, i⟩ : Pin Unit Slot String) ∈ held := by
    obtain ⟨ha', i', hn', -, howner', hcount', huniq⟩ := hacc.owned hout
    obtain rfl : ha' = ha := Option.some.inj (hn'.symm.trans hs.agent)
    obtain rfl : i = i' := huniq i (hv ▸ hs.owner)
    have hpins : 0 < (s.mounts i).pins := by
      show 0 < (s.records.refcount i).toNat
      omega
    have hcounted : (s.mounts i).pins = _ := hsound.counted i
    rw [hcounted, Multiset.countP_pos] at hpins
    obtain ⟨p, hp, hplace⟩ := hpins
    have hname := hsound.keyed p hp
    change (s.mounts p.place).key = some p.key at hname
    rw [hplace, hkey] at hname
    obtain ⟨⟨⟩, k, j⟩ := p
    cases hplace
    cases hname
    exact hp
  have hmounts : s'.mounts = PinnedCache.unpin s.mounts i := by
    unfold HaState.mounts
    rw [hs.records, hs.kept.handles, Records.cache_release, PinnedCache.relabel_unpin]
  have heffects : HaOp.effects shell s (.unmountDisk n) = [.release ⟨(), n, i⟩] := by
    have hslot : ha.mountdev.toNat = i.val := by
      have := hs.slot
      omega
    simp only [HaOp.effects, hs.agent, hslot, dif_pos i.isLt]
  have hrelease : PinnedCache.Step timevalDiff 10000 (⟨s.mounts, fun _ => .out, held⟩ : PinnedCache.State Unit _ _ _)
      (.release ⟨(), n, i⟩) ⟨s'.mounts, fun _ => .out, held.erase ⟨(), n, i⟩⟩ := by
    rw [hmounts]
    exact .release ⟨(), n, i⟩ rfl hheld
  rw [heffects]
  refine ⟨⟨_, .snoc hrun hrelease⟩, ?_⟩
  rw [List.filterMap_append, hshown]
  rfl

end

/-! ## Runs -/

section

variable {mountPath ghostImage : String} {clock : Slot → Timeval} {g : Globals} {guests : String → Guest} {host : δ}

/-- **A HAMain is a cache of mounts**: what the calls of an orderly run return is what the cache answers to them, one
after the other, and the records come to what it comes to. -/
theorem mounts_cached (hord : Orderly ops)
    (hrun : Run (stepOf (haStep shell)) (HaState.init mountPath ghostImage clock g guests host) ops s) :
    Cached clock mountPath
      (history (haStep shell) (HaOp.effects shell) (HaState.init mountPath ghostImage clock g guests host) ops)
      (history (haStep shell) (HaOp.seen shell) (HaState.init mountPath ghostImage clock g guests host) ops) s := by
  have hcached : OwnersOpen s ∧ s.baseMountpoint = mountPath ∧ Cached clock mountPath
      (history (haStep shell) (HaOp.effects shell) (HaState.init mountPath ghostImage clock g guests host) ops)
      (history (haStep shell) (HaOp.seen shell) (HaState.init mountPath ghostImage clock g guests host) ops) s := by
    induction hrun with
    | nil => exact ⟨nofun, rfl, ⟨0, .nil⟩, rfl⟩
    | @snoc ops s s' op hr hs ih =>
      have hpre := hord.of_prefix (List.prefix_append ops [op])
      obtain ⟨hopen, hbase, hcached⟩ := ih hpre
      have hacc := accounts_run hpre hr
      rw [history_snoc hr hs, history_snoc hr hs]
      cases op with
      | addAgent n r d ok m =>
        have hadded := haStep_addAgent hs
        refine ⟨hopen.added hadded, hadded.baseMountpoint.trans hbase, ?_⟩
        rw [show HaOp.seen shell s (.addAgent n r d ok m) = [] from rfl,
          show HaOp.effects shell s (.addAgent n r d ok m) = [] from rfl, List.append_nil, List.append_nil]
        exact hcached.added hacc hadded
      | mountDisk n env =>
        obtain ⟨⟨path, s''⟩, hmount, rfl⟩ := Option.map_eq_some_iff.1 hs
        obtain ⟨ha, i, s₁, hmounted, -⟩ := mountDisk_ok (toOption_eq_some.1 hmount)
        have hseen : HaOp.seen shell s (.mountDisk n env) = [.mounted n path] := by
          show ((Hyperagents.mountDisk shell n env s).toOption.map _).toList = _
          rw [hmount]
          rfl
        refine ⟨hopen.mounted hacc hmounted, ?_, ?_⟩
        · obtain ⟨-, hpath, rfl⟩ := hmounted
          exact hpath.kept.baseMountpoint.trans hbase
        · rw [hseen]
          exact hcached.mounted hacc hopen hbase (toOption_eq_some.1 hmount)
      | unmountDisk n =>
        obtain ⟨ha, i, v, hunmounted⟩ := haStep_unmountDisk hs
        exact ⟨hopen.unmounted hunmounted, hunmounted.kept.baseMountpoint.trans hbase,
          hcached.unmounted hacc (hord ops (.unmountDisk n) List.prefix_rfl) hunmounted⟩
  exact hcached.2.2

end

theorem mounts_cached_two : ∃ s, Run (stepOf (haStep idleShell)) (HaState.small ()) twoAgents s ∧
    ∃ ms, Cached (fun _ => ⟨0, 0⟩) "/mnt/" ms [.mounted "a" "/mnt/nbd0/", .mounted "b" "/mnt/nbd1/", .unmounted "a",
      .mounted "a" "/mnt/nbd0/"] s := by
  obtain ⟨s, hrun⟩ := exists_run (show (exec (haStep idleShell) (HaState.small ()) twoAgents).isSome = true by decide)
  have hshown : history (haStep idleShell) (HaOp.seen idleShell) (HaState.small ()) twoAgents =
      [.mounted "a" "/mnt/nbd0/", .mounted "b" "/mnt/nbd1/", .unmounted "a", .mounted "a" "/mnt/nbd0/"] := by
    decide +kernel
  exact ⟨s, hrun, _, hshown ▸ mounts_cached (by decide) hrun⟩

end Hyperagents
