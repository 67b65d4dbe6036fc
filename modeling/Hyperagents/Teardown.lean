import Hyperagents.CallTrace
import Hyperagents.HandleLeases
import Hyperagents.NbdHost
/-!
# What the destructors leave

`do_nbd_mount` connects a device, maps its partitions, pauses the guest and mounts the partition.  `drop_all_mounts`
unmounts and disconnects every device, whatever is on it; nothing takes a mapping away again, and the destructors
resume no guest.  So a mapping is left for every slot that was ever mounted (`destroy_mapped`), and a victim keeps its
own through a steal.
-/
namespace Hyperagents

open Runs

/-! ## The host's resources -/

structure Resources where
  connected : String → Bool
  mapped : String → Bool
  mounted : List Char → Bool

def Resources.none : Resources := ⟨fun _ => false, fun _ => false, fun _ => false⟩

/-- What a command acquires or gives back when it succeeds.  None of the library's takes mappings away. -/
def ShellCmd.effect : ShellCmd → Resources → Resources
  | .qemuNbdConnect dev _, r => { r with connected := Function.update r.connected dev true }
  | .qemuNbdDisconnect dev, r => { r with connected := Function.update r.connected dev false }
  | .kpartxAdd dev, r => { r with mapped := Function.update r.mapped dev true }
  | .mount _ _ dir, r => { r with mounted := Function.update r.mounted (dirOf dir) true }
  | .umount dir, r | .umountLazy dir, r => { r with mounted := Function.update r.mounted (dirOf dir) false }
  | .xlBlockAttach _ _, r | .xlBlockList _, r | .xlBlockDetach _, r => r

/-- A host on which the commands succeed and do just that. -/
structure ResourceLaws {δ : Type} (shell : Shell δ) where
  view : δ → Resources
  effect : ∀ c h, view (shell.system c h).2 = c.effect (view h)

def resourceShell : Shell Resources := ⟨fun c r => (0, c.effect r)⟩

def resourceShellLaws : ResourceLaws resourceShell := ⟨id, fun _ _ => rfl⟩

/-! ## Calls of the syncmount -/

/-- `release_mount` does not read its vmi. -/
inductive MountCall
  | request (env : MountEnv) (v : Vmi) (disk : String)
  | release (dev : Int)

def MountCall.isRequest : MountCall → Bool
  | .request _ _ _ => true
  | .release _ => false

variable {δ : Type} (shell : Shell δ)

def mountStep (s : HaState δ) : MountCall → Option (HaState δ)
  | .request env v disk => (requestMount shell env v disk s).toOption.map Prod.snd
  | .release dev => (releaseMount dev s).toOption

variable {shell} (laws : ResourceLaws shell)

/-- No slot has a mount, a connection or a mapping, and no guest is paused. -/
structure Clean (s : HaState δ) : Prop where
  mounted : ∀ i, (laws.view s.host).mounted (dirOf (s.baseMountpoint ++ nbdDev i)) = false
  connected : ∀ i, (laws.view s.host).connected (nbdDev i) = false
  mapped : ∀ i, (laws.view s.host).mapped (nbdDev i) = false
  running : ∀ n, (s.guests n).paused = false

/-- Nothing of the mount that `old` had on a slot. -/
structure Cleared (i : Slot) (old : Vmi) (s : HaState δ) : Prop where
  mounted : (laws.view s.host).mounted (dirOf (s.baseMountpoint ++ nbdDev i)) = false
  connected : (laws.view s.host).connected (nbdDev i) = false
  mapped : (laws.view s.host).mapped (nbdDev i) = false
  running : (s.guestOf old).paused = false

/-- A request takes a slot from its owner, and is about to unmount it. -/
structure TakesFrom (env : MountEnv) (v : Vmi) (s : HaState δ) (i : Slot) (old : Vmi) (s₁ : HaState δ) : Prop where
  lookup : s.records.lookup v = none
  firstFree : s.records.firstFree = none
  owner : s.records.owner i = some old
  loop : stealLoop (s.vmi v .getName) env.clocks (0, 0) = some (i, s₁)

/-- A syncmount just constructed, on a host without any of its mounts. -/
structure Unused (s : HaState δ) : Prop where
  records : ∃ clock, s.records = Records.init clock
  clean : Clean laws s

/-- **The invariant**: the slots with an owner are those locked, and those whose device has mappings. -/
structure Leaves (s : HaState δ) : Prop where
  locked : ∀ i, (s.records i).l = true ↔ s.records.owner i ≠ none
  mapped : ∀ i, (laws.view s.host).mapped (nbdDev i) = true ↔ s.records.owner i ≠ none

variable {env : MountEnv} {v : Vmi} {disk dev : String} {i : Slot} {s s' s₀ : HaState δ} {calls : List MountCall}

/-! ## The commands of a mount and of an unmount -/

theorem ShellCmd.effect_xl {c : ShellCmd} (h : c.isXl = true) (r : Resources) : c.effect r = r := by
  cases c <;> first | rfl | cases h

theorem ResourceLaws.runSystem {t : List Act} {host : δ} (h : ∀ k, .system k ∈ t → k.isXl = true) :
    laws.view (runSystem shell t host) = laws.view host := by
  apply runSystem_xl _ t host h
  intro c host hc
  rw [laws.effect, ShellCmd.effect_xl hc]

theorem ResourceLaws.mountHost_mapped (base check dev disk : String) (host : δ) :
    (laws.view (mountHost shell base check dev disk host)).mapped =
      Function.update (laws.view host).mapped dev true := by
  unfold mountHost
  dsimp only
  rw [laws.effect, laws.effect, laws.effect, laws.effect]
  rfl

theorem ResourceLaws.unmountHost_mapped (base dev : String) (host : δ) :
    (laws.view (unmountHost shell base dev host)).mapped = (laws.view host).mapped := by
  unfold unmountHost
  rw [laws.effect, laws.effect]
  rfl

theorem NbdMounted.mapped (h : NbdMounted shell env dev v disk s s') :
    (laws.view s'.host).mapped = Function.update (laws.view s.host).mapped dev true := by
  obtain ⟨t, check, hsync, hhost⟩ := h.host
  rw [hhost, laws.mountHost_mapped, laws.runSystem fun k hk => doSync_system hsync hk]

/-! ## One call -/

theorem mapped_update {mapped : String → Bool} {owner : Slot → Option Vmi}
    (h : ∀ j, mapped (nbdDev j) = true ↔ owner j ≠ none) (i : Slot) (v : Vmi) (j : Slot) :
    Function.update mapped (nbdDev i) true (nbdDev j) = true ↔ Function.update owner i (some v) j ≠ none := by
  by_cases hj : j = i
  · rw [hj, Function.update_self, Function.update_self]
    exact iff_of_true rfl (Option.some_ne_none v)
  · rw [Function.update_of_ne hj, Function.update_of_ne fun e => hj (nbdDev_injective e)]
    exact h j

variable {laws}

/-- **A request** maps the device of the slot it gives to its VM. -/
theorem Leaves.request (h : Leaves laws s) (hpath : RequestPath shell env v disk s i s') : Leaves laws s' := by
  refine ⟨hpath.records.locked h.locked, fun j => ?_⟩
  rw [hpath.records.owner_eq]
  cases hpath with
  | remount hl hc =>
    rw [← Records.lookup_some hl, Function.update_eq_self]
    exact h.mapped j
  | fresh s₁ hl hf hm =>
    show (laws.view s₁.host).mapped (nbdDev j) = true ↔ _
    rw [hm.mapped laws]
    exact mapped_update h.mapped i v j
  | steal s₁ s₂ s₃ hl hf hi hlog hu hm =>
    obtain ⟨log, rfl⟩ := hlog
    show (laws.view s₃.host).mapped (nbdDev j) = true ↔ _
    rw [hm.mapped laws]
    show Function.update (laws.view s₂.host).mapped _ _ _ = true ↔ _
    rw [hu.host, laws.unmountHost_mapped]
    exact mapped_update h.mapped i v j

theorem Leaves.release {d : Int} (h : Leaves laws s) (hs : releaseMount d s = .ok s') : Leaves laws s' := by
  obtain ⟨i, v, -, -, -, hrecords, -, hhost⟩ := releaseMount_ok hs
  refine ⟨fun j => ?_, fun j => ?_⟩
  · rw [hrecords, Records.l_release, Records.owner_release]
    exact h.locked j
  · rw [hhost, hrecords, Records.owner_release]
    exact h.mapped j

theorem mountStep_request (h : mountStep shell s (.request env v disk) = some s') :
    ∃ i, RequestPath shell env v disk s i s' := by
  obtain ⟨⟨i, s''⟩, hr, rfl⟩ := Option.map_eq_some_iff.1 h
  exact ⟨i, requestMount_ok (toOption_eq_some.1 hr)⟩

theorem Leaves.step {c : MountCall} (h : Leaves laws s) (hs : mountStep shell s c = some s') : Leaves laws s' := by
  cases c with
  | request env v disk =>
    obtain ⟨i, hpath⟩ := mountStep_request hs
    exact h.request hpath
  | release dev => exact h.release (toOption_eq_some.1 hs)

theorem Unused.leaves (h : Unused laws s) : Leaves laws s := by
  obtain ⟨⟨clock, hrecords⟩, hclean⟩ := h
  refine ⟨fun i => ?_, fun i => ?_⟩
  · rw [hrecords]
    exact iff_of_false Bool.false_ne_true fun h => h rfl
  · rw [hclean.mapped, hrecords]
    exact iff_of_false Bool.false_ne_true fun h => h rfl

/-! ## The destructors -/

theorem destroyAgents_guests : ∀ (names : List String) (s : HaState δ),
    (names.foldl destroyAgent s).guests = s.guests
  | [], _ => rfl
  | n :: names, s => by
    rw [List.foldl_cons, destroyAgents_guests names]
    unfold destroyAgent
    cases s.agents n <;> rfl

/-- A slot's directory and device are free. -/
def Dropped (laws : ResourceLaws shell) (s : HaState δ) (i : Slot) : Prop :=
  (laws.view s.host).mounted (dirOf (s.baseMountpoint ++ nbdDev i)) = false ∧
    (laws.view s.host).connected (nbdDev i) = false

theorem update_false {A : Type} [DecidableEq A] {f : A → Bool} {a b : A} (h : b = a ∨ f b = false) :
    Function.update f a false b = false := by
  by_cases hab : b = a
  · rw [hab, Function.update_self]
  · rw [Function.update_of_ne hab]
    exact h.resolve_left hab

theorem dropMount_view (i : Slot) (s : HaState δ) : laws.view (dropMount shell s i).host =
    { laws.view s.host with
      mounted := Function.update (laws.view s.host).mounted (dirOf (s.baseMountpoint ++ nbdDev i)) false
      connected := Function.update (laws.view s.host).connected (nbdDev i) false } := by
  unfold dropMount HaState.system
  dsimp only [HaState.emit]
  rw [laws.effect, laws.effect]
  rfl

theorem dropMount_dropped {i j : Slot} (h : j = i ∨ Dropped laws s j) : Dropped laws (dropMount shell s i) j := by
  unfold Dropped
  rw [dropMount_view]
  constructor
  · apply update_false
    rcases h with rfl | h
    · exact .inl rfl
    · exact .inr h.1
  · apply update_false
    rcases h with rfl | h
    · exact .inl rfl
    · exact .inr h.2

/-- **Every device in the list is dropped.** -/
theorem dropMounts_dropped : ∀ (is : List Slot) (s : HaState δ) (j : Slot), j ∈ is ∨ Dropped laws s j →
    Dropped laws (is.foldl (dropMount shell) s) j
  | [], _, _, h => h.resolve_left List.not_mem_nil
  | i :: is, s, j, h => by
    rw [List.foldl_cons]
    apply dropMounts_dropped is
    rcases h with h | h
    · rcases List.mem_cons.1 h with rfl | h
      · exact .inr (dropMount_dropped (.inl rfl))
      · exact .inl h
    · exact .inr (dropMount_dropped (.inr h))

theorem dropMounts_kept (laws : ResourceLaws shell) : ∀ (is : List Slot) (s : HaState δ),
    (laws.view (is.foldl (dropMount shell) s).host).mapped = (laws.view s.host).mapped ∧
      (is.foldl (dropMount shell) s).guests = s.guests
  | [], _ => ⟨rfl, rfl⟩
  | i :: is, s => by
    obtain ⟨hmapped, hguests⟩ := dropMounts_kept laws is (dropMount shell s i)
    rw [List.foldl_cons, hmapped, hguests, dropMount_view]
    exact ⟨rfl, rfl⟩

/-- What is left after the destructors: no mount and no connection, but all mappings, and the guests as they were. -/
structure LeftOver (laws : ResourceLaws shell) (s s' : HaState δ) : Prop where
  dropped : ∀ i, Dropped laws s' i
  mapped : ∀ i, (laws.view s'.host).mapped (nbdDev i) = (laws.view s.host).mapped (nbdDev i)
  guests : s'.guests = s.guests

/-- **The destructors** drop every mount and connection, and nothing else. -/
theorem destroy_leftOver (laws : ResourceLaws shell) (names : List String) (s : HaState δ) :
    LeftOver laws s (s.destroy shell names) := by
  obtain ⟨-, -, hhost⟩ := destroyAgents_log names s
  obtain ⟨hmapped, hguests⟩ := dropMounts_kept laws (List.finRange DEVMAX) (names.foldl destroyAgent s)
  unfold HaState.destroy dropAllMounts
  refine ⟨fun i => dropMounts_dropped _ _ i (.inl (List.mem_finRange i)), fun i => ?_, ?_⟩
  · rw [hmapped, hhost]
  · rw [hguests, destroyAgents_guests]

theorem clean_destroy_iff (laws : ResourceLaws shell) (names : List String) (s : HaState δ) :
    Clean laws (s.destroy shell names) ↔
      (∀ i, (laws.view s.host).mapped (nbdDev i) = false) ∧ ∀ n, (s.guests n).paused = false := by
  obtain ⟨hdropped, hmapped, hguests⟩ := destroy_leftOver laws names s
  constructor
  · intro h
    exact ⟨fun i => (hmapped i).symm.trans (h.mapped i), hguests ▸ h.running⟩
  · rintro ⟨hfree, hrunning⟩
    exact ⟨fun i => (hdropped i).1, fun i => (hdropped i).2, fun i => (hmapped i).trans (hfree i), hguests ▸ hrunning⟩

/-! ## Runs -/

theorem leaves_run (h : Unused laws s₀) (hrun : Run (stepOf (mountStep shell)) s₀ calls s) : Leaves laws s := by
  refine Run.invariant (P := fun _ s => Leaves laws s) h.leaves ?_ hrun
  exact fun _ _ _ _ _ hl hs => hl.step hs

/-- **A slot has an owner exactly where a request was made**: an owner is never taken out of its record. -/
theorem owned_iff_requested (h : Unused laws s₀) (hrun : Run (stepOf (mountStep shell)) s₀ calls s) :
    (∃ i, s.records.owner i ≠ none) ↔ ∃ c ∈ calls, c.isRequest = true := by
  refine Run.invariant
    (P := fun calls s => (∃ i, s.records.owner i ≠ none) ↔ ∃ c ∈ calls, c.isRequest = true) ?_ ?_ hrun
  · obtain ⟨clock, hrecords⟩ := h.records
    rw [hrecords]
    exact iff_of_false (fun ⟨_, hi⟩ => hi rfl) (fun ⟨_, hc, _⟩ => absurd hc List.not_mem_nil)
  · intro calls s c s' _ ih hs
    cases c with
    | request env v disk =>
      obtain ⟨i, hpath⟩ := mountStep_request hs
      refine iff_of_true ⟨i, ?_⟩ ⟨_, List.mem_append_right _ List.mem_cons_self, rfl⟩
      rw [hpath.records.owner_eq, Function.update_self]
      exact Option.some_ne_none v
    | release dev =>
      obtain ⟨i, v, -, -, -, hrecords, -, -⟩ := releaseMount_ok (toOption_eq_some.1 hs)
      rw [hrecords, Records.owner_release, ih]
      constructor
      · rintro ⟨c, hc, hreq⟩
        exact ⟨c, List.mem_append_left _ hc, hreq⟩
      · rintro ⟨c, hc, hreq⟩
        rcases List.mem_append.1 hc with hc | hc
        · exact ⟨c, hc, hreq⟩
        · rw [List.mem_singleton.1 hc] at hreq
          cases hreq

theorem eq_of_no_request (h : Unused laws s₀) (hrun : Run (stepOf (mountStep shell)) s₀ calls s)
    (hnone : ∀ c ∈ calls, c.isRequest = false) : s = s₀ := by
  cases hrun with
  | nil => rfl
  | @snoc ls s₁ _ c hr hs =>
    cases c with
    | request env v disk => cases hnone _ (List.mem_append_right _ List.mem_cons_self)
    | release dev =>
      obtain ⟨i, v, -, howner, -⟩ := releaseMount_ok (toOption_eq_some.1 hs)
      obtain ⟨c, hc, hreq⟩ := (owned_iff_requested h hr).1 ⟨i, by rw [howner]; exact Option.some_ne_none v⟩
      rw [hnone c (List.mem_append_left _ hc)] at hreq
      cases hreq

/-- **The victim's mappings stay** through the unmount of a steal. -/
theorem Leaves.stolen_mapped (h : Leaves laws s) {old : Vmi} {s₁ : HaState δ} (hs : TakesFrom env v s i old s₁) :
    (laws.view (doNbdUnmount shell (nbdDev i) v s₁).host).mapped (nbdDev i) = true := by
  obtain ⟨-, log, rfl⟩ := stealLoop_some env.clocks _ (0, 0) (by decide) hs.loop
  rw [(doNbdUnmount_effect (nbdDev i) v _).host, laws.unmountHost_mapped]
  apply (h.mapped i).2
  rw [hs.owner]
  exact Option.some_ne_none old

/-- What of its mounts a syncmount gives back: all of them, in the destructors and in every steal, exactly where no
request was made; a steal never, and the destructors leave the mappings of every slot that has an owner. -/
structure Teardown (laws : ResourceLaws shell) (names : List String) (calls : List MountCall) (s : HaState δ) :
    Prop where
  released_iff : (Clean laws (s.destroy shell names) ∧ ∀ env v i old s₁, TakesFrom env v s i old s₁ →
    Cleared laws i old (doNbdUnmount shell (nbdDev i) v s₁)) ↔ ∀ c ∈ calls, c.isRequest = false
  steal : ∀ env v i old s₁, TakesFrom env v s i old s₁ → ¬ Cleared laws i old (doNbdUnmount shell (nbdDev i) v s₁)
  left : LeftOver laws s (s.destroy shell names)
  mapped : ∀ i, (laws.view s.host).mapped (nbdDev i) = true ↔ s.records.owner i ≠ none

theorem teardown (laws : ResourceLaws shell) (names : List String) (s₀ : HaState δ) (h : Unused laws s₀)
    (calls : List MountCall) (s : HaState δ) (hrun : Run (stepOf (mountStep shell)) s₀ calls s) :
    Teardown laws names calls s := by
  have hleaves := leaves_run h hrun
  have howned := owned_iff_requested h hrun
  have hsteal : ∀ env v i old s₁, TakesFrom env v s i old s₁ →
      ¬ Cleared laws i old (doNbdUnmount shell (nbdDev i) v s₁) := by
    intro env v i old s₁ hs hc
    have hmapped := hleaves.stolen_mapped hs
    rw [hc.mapped] at hmapped
    cases hmapped
  refine ⟨?_, hsteal, destroy_leftOver laws names s, hleaves.mapped⟩
  constructor
  · rintro ⟨hclean, -⟩ c hc
    have hunmapped := ((clean_destroy_iff laws names s).1 hclean).1
    by_contra hreq
    obtain ⟨i, hi⟩ := howned.2 ⟨c, hc, by simpa using hreq⟩
    have hmapped := (hleaves.mapped i).2 hi
    rw [hunmapped i] at hmapped
    cases hmapped
  · intro hnone
    obtain rfl := eq_of_no_request h hrun hnone
    refine ⟨(clean_destroy_iff laws names s).2 ⟨h.clean.mapped, h.clean.running⟩, fun env v i old s₁ hs => ?_⟩
    obtain ⟨c, hc, hreq⟩ := howned.1 ⟨i, by rw [hs.owner]; exact Option.some_ne_none old⟩
    rw [hnone c hc] at hreq
    cases hreq

def oneAgent : HaState Resources :=
  { HaState.small Resources.none with
    agents := Function.update (fun _ => none) "a" (some ⟨"a", "p", "d", 1, 0⟩)
    handles := Function.update (fun _ => none) 1 (some "a")
    nextVmi := 2 }

theorem oneAgent_unused : Unused resourceShellLaws oneAgent where
  records := ⟨_, rfl⟩
  clean := ⟨fun _ => rfl, fun _ => rfl, fun _ => rfl, fun _ => rfl⟩

def requestedOnce : List MountCall := [.request (quietMount 1) 1 "d"]

theorem teardown_once : ∃ s, Run (stepOf (mountStep resourceShell)) oneAgent requestedOnce s ∧
    Teardown resourceShellLaws ["a"] requestedOnce s := by
  obtain ⟨s, hrun⟩ := exists_run (show (exec (mountStep resourceShell) oneAgent requestedOnce).isSome = true by decide)
  exact ⟨s, hrun, teardown resourceShellLaws ["a"] oneAgent oneAgent_unused requestedOnce s hrun⟩

/-- **One request, and the destructors**: the device has its mappings still, and the guest is paused. -/
theorem destroyed_under_mount : Unused resourceShellLaws oneAgent ∧
    ∃ s, Run (stepOf (mountStep resourceShell)) oneAgent requestedOnce s ∧
      (s.destroy resourceShell ["a"]).host.mapped "nbd0" = true ∧
        ((s.destroy resourceShell ["a"]).guests "a").paused = true ∧
          ¬ Clean resourceShellLaws (s.destroy resourceShell ["a"]) := by
  obtain ⟨s, hs, hfound⟩ := Option.map_eq_some_iff.1 (show (exec (mountStep resourceShell) oneAgent
    requestedOnce).map (fun s => ((s.destroy resourceShell ["a"]).host.mapped "nbd0",
      ((s.destroy resourceShell ["a"]).guests "a").paused)) = some (true, true) by decide)
  simp only [Prod.mk.injEq] at hfound
  refine ⟨oneAgent_unused, s, run_of_exec hs, hfound.1, hfound.2, fun hclean => ?_⟩
  have hrunning := hclean.running "a"
  rw [hfound.2] at hrunning
  cases hrunning

end Hyperagents
