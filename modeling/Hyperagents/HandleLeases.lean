import Hyperagents.Leases
import Hyperagents.HAMain
/-!
# The leases of the agents' handles

A slot is leased to a LibVMI handle, and a handle is its agent's until the name is registered again.  `Leased` says
what the records, the agents and the handles have to do with one another where only an agent's own handle has anything
out.  A mount keeps it, so does an unmount of a mount, and so does the registration of a name that has nothing out.
-/
namespace Hyperagents

variable {δ : Type} {shell : Shell δ}

/-- The agents' handles are theirs alone, and a handle to come is nobody's. -/
structure Handled (s : HaState δ) : Prop where
  handle : ∀ n ha, s.agents n = some ha → s.handles ha.vmi = some n
  fresh : ∀ v, s.nextVmi ≤ v → s.handles v = none ∧ ∀ i, s.records.owner i ≠ some v

/-- What the client behind a handle has out, if its agent still goes by it; `o` says it of the agents. -/
def HaState.leaseOut (s : HaState δ) (o : String → Int) (v : Vmi) : Int :=
  (s.handles v).elim 0 fun n => if (s.agents n).map HAConfig.vmi = some v then o n else 0

structure Leased (o : String → Int) (s : HaState δ) : Prop extends Handled s where
  sound : Leases.Sound s.records.owner s.records.refcount (s.leaseOut o)
  locked : ∀ i, (s.records i).l = true ↔ s.records.owner i ≠ none
  /-- An agent whose handle owns a slot has it in `mountdev`; one whose slot was stolen still has the old one there. -/
  mountdev : ∀ n ha i, s.agents n = some ha → s.records.owner i = some ha.vmi → ha.mountdev = i.val
  outside : ∀ n, s.agents n = none → o n = 0

variable {o : String → Int} {s s' : HaState δ} {n : String} {ha : HAConfig}

theorem Handled.leaseOut_vmi (h : Handled s) (hn : s.agents n = some ha) (o' : String → Int) :
    s.leaseOut o' ha.vmi = o' n := by
  unfold HaState.leaseOut
  rw [h.handle n ha hn]
  show (if (s.agents n).map HAConfig.vmi = some ha.vmi then o' n else 0) = o' n
  rw [hn]
  exact if_pos rfl

/-- Counting for an agent is counting for its handle. -/
theorem Handled.leaseOut_update (h : Handled s) (hn : s.agents n = some ha) (o' : String → Int) (x : Int) :
    s.leaseOut (Function.update o' n x) = Function.update (s.leaseOut o') ha.vmi x := by
  funext v
  by_cases hv : v = ha.vmi
  · rw [hv, h.leaseOut_vmi hn, Function.update_self, Function.update_self]
  · rw [Function.update_of_ne hv]
    unfold HaState.leaseOut
    cases hk : s.handles v with
    | none => rfl
    | some k =>
      show (if (s.agents k).map _ = some v then _ else _) = if (s.agents k).map _ = some v then _ else _
      by_cases hkn : k = n
      · have hother : (s.agents k).map HAConfig.vmi ≠ some v := fun e => hv (by
          rw [hkn, hn] at e
          exact (Option.some.inj e).symm)
        rw [if_neg hother, if_neg hother]
      · rw [Function.update_of_ne hkn]

theorem HaState.agent_of_leaseOut {v : Vmi} (hv : 0 < s.leaseOut o v) :
    ∃ n ha, s.agents n = some ha ∧ ha.vmi = v ∧ 0 < o n := by
  unfold HaState.leaseOut at hv
  cases hk : s.handles v with
  | none =>
    rw [hk] at hv
    exact absurd hv (Int.lt_irrefl 0)
  | some n =>
    rw [hk] at hv
    change 0 < (if (s.agents n).map HAConfig.vmi = some v then o n else 0) at hv
    split at hv
    · rename_i hvmi
      obtain ⟨ha, hn, rfl⟩ := Option.map_eq_some_iff.1 hvmi
      exact ⟨n, ha, hn, rfl, hv⟩
    · exact absurd hv (Int.lt_irrefl 0)

/-- Two agents have two handles. -/
theorem Handled.vmi_inj (h : Handled s) {k : String} {ha' : HAConfig} (hn : s.agents n = some ha)
    (hk : s.agents k = some ha') (hv : ha'.vmi = ha.vmi) : k = n := by
  have hkv := h.handle k ha' hk
  rw [hv] at hkv
  exact Option.some.inj (hkv.symm.trans (h.handle n ha hn))

theorem Leased.out_nonneg (h : Leased o s) (n : String) : 0 ≤ o n := by
  cases hn : s.agents n with
  | none => rw [h.outside n hn]
  | some ha =>
    rw [← h.leaseOut_vmi hn o]
    exact h.sound.nonneg ha.vmi

/-- **An agent with something out owns one slot**, the one in its `mountdev`. -/
theorem Leased.owned (h : Leased o s) (hn : 0 < o n) : ∃ ha i, s.agents n = some ha ∧ ha.mountdev = i.val ∧
    s.records.owner i = some ha.vmi ∧ s.records.refcount i = o n ∧ ∀ j, s.records.owner j = some ha.vmi → j = i := by
  cases ha : s.agents n with
  | none =>
    have := h.outside n ha
    omega
  | some ha' =>
    have hout := h.leaseOut_vmi ha o
    obtain ⟨i, ho, hc, huniq⟩ := h.sound.existsUnique (by rw [hout]; exact hn)
    exact ⟨ha', i, rfl, h.mountdev n ha' i ha ho, ho, hc.trans hout, huniq⟩

theorem Leased.owner_of_used (h : Leased o s) {i : Slot} (hi : 0 < s.records.refcount i) :
    ∃ n ha, s.agents n = some ha ∧ s.records.owner i = some ha.vmi ∧ ha.mountdev = i.val := by
  cases ho : s.records.owner i with
  | none =>
    rw [h.sound.count_of_none ho] at hi
    exact absurd hi (Int.lt_irrefl 0)
  | some v =>
    rw [h.sound.count_of_owner ho] at hi
    obtain ⟨n, ha, hn, rfl, -⟩ := HaState.agent_of_leaseOut hi
    exact ⟨n, ha, hn, rfl, h.mountdev n ha i hn ho⟩

/-! ## One call -/

theorem leased_init (mountPath ghostImage : String) (clock : Slot → Timeval) (g : Globals) (guests : String → Guest)
    (host : δ) : Leased (fun _ => 0) (HaState.init mountPath ghostImage clock g guests host) where
  handle n ha h := by cases h
  fresh v _ := ⟨rfl, fun i h => by cases h⟩
  sound := Leases.Sound.empty
  locked i := by simp [HaState.init, Records.init, Records.owner]
  mountdev n ha i h := by cases h
  outside n _ := rfl

theorem Handled.added {r d : String} {m : Int} (h : Handled s) (hs : Added n r d m s s') : Handled s' := by
  refine ⟨fun k ha hk => ?_, fun v hv => ?_⟩
  · rw [hs.handles]
    rcases hs.agents_cases hk with ⟨rfl, rfl⟩ | ⟨-, hk⟩
    · exact Function.update_self _ _ _
    · have hne : ha.vmi ≠ s.nextVmi := fun e => by
        have := h.handle k ha hk
        rw [e, (h.fresh s.nextVmi (Nat.le_refl _)).1] at this
        cases this
      rw [Function.update_of_ne hne]
      exact h.handle k ha hk
  · rw [hs.nextVmi] at hv
    rw [hs.handles, hs.records, Function.update_of_ne (Nat.ne_of_gt hv)]
    exact h.fresh v (Nat.le_of_succ_le hv)

/-- The new handle has nothing out, and neither had the one before. -/
theorem Leased.added_leaseOut {r d : String} {m : Int} (h : Leased o s) (hzero : o n = 0) (hs : Added n r d m s s') :
    s'.leaseOut o = s.leaseOut o := by
  funext v
  unfold HaState.leaseOut
  rw [hs.handles, hs.agents]
  by_cases hv : v = s.nextVmi
  · rw [hv, Function.update_self, (h.fresh s.nextVmi (Nat.le_refl _)).1]
    show (if _ then o n else 0) = 0
    rw [hzero, ite_self]
  · rw [Function.update_of_ne hv]
    cases s.handles v with
    | none => rfl
    | some k =>
      by_cases hkn : k = n
      · show (if _ then o k else 0) = if _ then o k else 0
        rw [hkn, hzero, ite_self, ite_self]
      · show (if (Function.update s.agents n _ k).map _ = _ then _ else _) = _
        rw [Function.update_of_ne hkn]
        rfl

theorem Leased.added {r d : String} {m : Int} (h : Leased o s) (hzero : o n = 0) (hs : Added n r d m s s') :
    Leased o s' := by
  refine ⟨h.toHandled.added hs, ?_, ?_, fun k ha i hk hi => ?_, fun k hk => ?_⟩
  · rw [h.added_leaseOut hzero hs, hs.records]
    exact h.sound
  · rw [hs.records]
    exact h.locked
  · rw [hs.records] at hi
    rcases hs.agents_cases hk with ⟨rfl, rfl⟩ | ⟨-, hk⟩
    · exact absurd hi ((h.fresh s.nextVmi (Nat.le_refl _)).2 i)
    · exact h.mountdev k ha i hk hi
  · rw [hs.agents] at hk
    by_cases hkn : k = n
    · rw [hkn, Function.update_self] at hk
      cases hk
    · rw [Function.update_of_ne hkn] at hk
      exact h.outside k hk

theorem RecordsAfter.owner_eq {rs rs' : Records} {v : Vmi} {i : Slot} (hr : RecordsAfter rs v i rs') :
    rs'.owner = Function.update rs.owner i (some v) := by
  cases hr with
  | remount ho howner hcount hlocks => rw [howner, ← ho, Function.update_eq_self]
  | grant hnew hfree howner hcount hlocks => exact howner

theorem RecordsAfter.locked {rs rs' : Records} {v : Vmi} {i : Slot} (hr : RecordsAfter rs v i rs')
    (h : ∀ j, (rs j).l = true ↔ rs.owner j ≠ none) (j : Slot) : (rs' j).l = true ↔ rs'.owner j ≠ none := by
  cases hr with
  | remount ho howner hcount hlocks =>
    rw [howner, hlocks]
    exact h j
  | grant hnew hfree howner hcount hlocks =>
    rw [howner, hlocks]
    by_cases hj : j = i
    · simp [hj]
    · rw [if_neg hj, Function.update_of_ne hj]
      exact h j

theorem RecordsAfter.sound {rs rs' : Records} {v : Vmi} {i : Slot} {o : Vmi → Int} (hr : RecordsAfter rs v i rs')
    (h : Leases.Sound rs.owner rs.refcount o) (hl : ∀ j, (rs j).l = true ↔ rs.owner j ≠ none) :
    Leases.Sound rs'.owner rs'.refcount (Function.update o v (o v + 1)) := by
  cases hr with
  | remount ho howner hcount hlocks =>
    rw [howner, hcount]
    exact h.again ho
  | grant hnew hfree howner hcount hlocks =>
    rw [howner, hcount]
    refine h.grant ?_ hnew
    rcases hfree with hunlocked | hzero
    · refine h.count_of_none (by_contra fun hc => ?_)
      rw [(hl i).2 hc] at hunlocked
      cases hunlocked
    · exact hzero

section

variable {env : MountEnv} {i : Slot} {s₁ : HaState δ}

theorem Mounted.handles (hs : Mounted shell env n ha i s s₁ s') : s'.handles = s.handles := by
  obtain ⟨-, hpath, rfl⟩ := hs
  exact hpath.kept.handles

theorem Mounted.nextVmi (hs : Mounted shell env n ha i s s₁ s') : s'.nextVmi = s.nextVmi := by
  obtain ⟨-, hpath, rfl⟩ := hs
  exact hpath.kept.nextVmi

theorem Mounted.vmi (hs : Mounted shell env n ha i s s₁ s') (k : String) :
    (s'.agents k).map HAConfig.vmi = (s.agents k).map HAConfig.vmi := by
  obtain ⟨hn, hpath, rfl⟩ := hs
  by_cases hk : k = n
  · rw [hk, hn]
    show (Function.update s₁.agents n _ n).map _ = _
    rw [Function.update_self]
    rfl
  · rw [← hpath.kept.agents]
    exact congrArg _ (Function.update_of_ne hk _ _)

theorem Mounted.owner (hs : Mounted shell env n ha i s s₁ s') :
    s'.records.owner = Function.update s.records.owner i (some ha.vmi) := by
  obtain ⟨-, hpath, rfl⟩ := hs
  exact hpath.records.owner_eq

theorem Handled.mounted (h : Handled s) (hs : Mounted shell env n ha i s s₁ s') : Handled s' := by
  refine ⟨fun k ha' hk => ?_, fun v hv => ?_⟩
  · rw [hs.handles]
    rcases hs.agents_cases hk with ⟨rfl, rfl⟩ | ⟨-, hold⟩
    · exact h.handle k ha hs.agent
    · exact h.handle k ha' hold
  · rw [hs.nextVmi] at hv
    obtain ⟨hfresh, hunowned⟩ := h.fresh v hv
    rw [hs.handles, hs.owner]
    refine ⟨hfresh, fun j hj => ?_⟩
    rcases Leases.update_some hj with ⟨-, e⟩ | ⟨-, hj⟩
    · have := h.handle n ha hs.agent
      rw [← e, hfresh] at this
      cases this
    · exact hunowned j hj

theorem Leased.mounted_sound (h : Leased o s) (hs : Mounted shell env n ha i s s₁ s') :
    Leases.Sound s'.records.owner s'.records.refcount (s.leaseOut (Function.update o n (o n + 1))) := by
  rw [h.leaseOut_update hs.agent, ← h.leaseOut_vmi hs.agent o]
  obtain ⟨-, hpath, rfl⟩ := hs
  exact hpath.records.sound h.sound h.locked

theorem Mounted.locked (hs : Mounted shell env n ha i s s₁ s')
    (h : ∀ j, (s.records j).l = true ↔ s.records.owner j ≠ none) (j : Slot) :
    (s'.records j).l = true ↔ s'.records.owner j ≠ none := by
  obtain ⟨-, hpath, rfl⟩ := hs
  exact hpath.records.locked h j

/-- The slot returned is the only one of the agent's, and the other agents' are as they were. -/
theorem Leased.mounted_mountdev (h : Leased o s) (hs : Mounted shell env n ha i s s₁ s') {k : String} {ha' : HAConfig}
    {j : Slot} (hk : s'.agents k = some ha') (hj : s'.records.owner j = some ha'.vmi) : ha'.mountdev = j.val := by
  have hsound := h.mounted_sound hs
  have hi : s'.records.owner i = some ha.vmi := by rw [hs.owner, Function.update_self]
  rcases hs.agents_cases hk with ⟨rfl, rfl⟩ | ⟨hkn, hold⟩
  · rw [hsound.inj j i ha.vmi hj hi]
  · rw [hs.owner] at hj
    rcases Leases.update_some hj with ⟨-, hv⟩ | ⟨-, hj⟩
    · exact absurd (h.vmi_inj hs.agent hold hv) hkn
    · exact h.mountdev k ha' j hold hj

theorem Leased.mounted (h : Leased o s) (hs : Mounted shell env n ha i s s₁ s') :
    Leased (Function.update o n (o n + 1)) s' := by
  have hleases : s'.leaseOut (Function.update o n (o n + 1)) = s.leaseOut (Function.update o n (o n + 1)) := by
    unfold HaState.leaseOut
    simp only [hs.handles, hs.vmi]
  refine ⟨h.toHandled.mounted hs, by rw [hleases]; exact h.mounted_sound hs, hs.locked h.locked,
    fun k ha' j hk hj => h.mounted_mountdev hs hk hj, fun k hk => ?_⟩
  rw [hs.agents_none] at hk
  have hkn : k ≠ n := fun e => by
    rw [e, hs.agent] at hk
    cases hk
  rw [Function.update_of_ne hkn]
  exact h.outside k hk

end

theorem Handled.unmounted {i : Slot} {v : Vmi} (h : Handled s) (hs : Unmounted n ha i v s s') : Handled s' := by
  obtain ⟨hagents, hhandles, hnext, -, -⟩ := hs.kept
  refine ⟨?_, ?_⟩
  · rw [hagents, hhandles]
    exact h.handle
  · rw [hnext, hhandles, hs.records, Records.owner_release]
    exact h.fresh

/-- **Every call keeps the handles.** -/
theorem Handled.step {op : HaOp} (h : Handled s) (hs : haStep shell s op = some s') : Handled s' := by
  cases op with
  | addAgent n r d ok m => exact h.added (haStep_addAgent hs)
  | mountDisk n env =>
    obtain ⟨ha, i, s₁, hm⟩ := haStep_mountDisk hs
    exact h.mounted hm
  | unmountDisk n =>
    obtain ⟨ha, i, v, hu⟩ := haStep_unmountDisk hs
    exact h.unmounted hu

/-- **An unmount with something out** gives back a use of the agent's own slot. -/
theorem Leased.unmounted {i : Slot} {v : Vmi} (h : Leased o s) (hout : 0 < o n) (hs : Unmounted n ha i v s s') :
    v = ha.vmi ∧ Leased (Function.update o n (o n - 1)) s' := by
  obtain ⟨ha', i', hn', hdev, howner, -, -⟩ := h.owned hout
  cases hn'.symm.trans hs.agent
  obtain rfl : i' = i := Fin.ext (Int.ofNat.inj (hdev.symm.trans hs.slot.symm))
  obtain rfl : v = ha.vmi := Option.some.inj (hs.owner.symm.trans howner)
  have hsame : s'.records.owner = s.records.owner := by rw [hs.records, Records.owner_release]
  have hvmi := h.leaseOut_vmi hs.agent o
  have hleases : s'.leaseOut (Function.update o n (o n - 1)) = Function.update (s.leaseOut o) ha.vmi (o n - 1) := by
    rw [← h.leaseOut_update hs.agent]
    unfold HaState.leaseOut
    rw [hs.kept.handles, hs.kept.agents]
  refine ⟨rfl, h.toHandled.unmounted hs, ?_, fun j => ?_, ?_, fun k hk => ?_⟩
  · rw [hleases, hsame, hs.records, Records.refcount_release, ← hvmi]
    exact h.sound.giveBack howner (by rw [hvmi]; exact hout)
  · rw [hsame, hs.records, Records.l_release]
    exact h.locked j
  · rw [hs.kept.agents, hsame]
    exact h.mountdev
  · rw [hs.kept.agents] at hk
    have hkn : k ≠ n := fun e => by
      rw [e, hs.agent] at hk
      cases hk
    rw [Function.update_of_ne hkn]
    exact h.outside k hk

end Hyperagents
