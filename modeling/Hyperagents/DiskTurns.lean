import Hyperagents.DeviceTurns
import Hyperagents.NbdHost
import Hyperagents.PrintStatus
/-!
# Disks under interleaved commands

`do_nbd_mount` and `do_nbd_unmount` run several commands each, and only the slots keep the commands of two threads
apart.  Here a thread runs its commands one at a time, with those of the others between them.  Still the syncmount goes
through the same states as if the two calls were single steps, no connect finds its device in use, and a device nobody
works on has the disk of its slot's owner connected and mounted (`disks_interleaved`).

The VMI lock, under which a flush runs its commands, keeps nobody waiting here, so the runs are the code's and more.
-/
namespace Hyperagents

open Runs

/-- The commands of `do_nbd_mount` after those of its flush. -/
def mountCommands (base check dev disk : String) : List ShellCmd :=
  [.qemuNbdConnect dev disk, .kpartxAdd dev, .umount (base ++ dev), .mount check dev (base ++ dev)]

def unmountCommands (base dev : String) : List ShellCmd := [.umountLazy (base ++ dev), .qemuNbdDisconnect dev]

/-- The commands of the device call a thread is at; `flush` are those of its `do_sync`. -/
def Pc.commands (base : String) (disk : Vmi → String) (flush : List ShellCmd) (check : String) :
    Pc → Option (List ShellCmd)
  | .mounting v i | .remounting v i => some (flush ++ mountCommands base check (nbdDev i) (disk v))
  | .unmounting _ i => some (unmountCommands base (nbdDev i))
  | .idle | .lookup _ | .claiming _ _ | .seeking _ _ | .reassigning _ _ => none

/-- A status that ends the process. -/
def ShellCmd.exits : ShellCmd → Int → Bool
  | .qemuNbdConnect _ _, status => status == 256
  | .qemuNbdDisconnect _, _ | .kpartxAdd _, _ | .umount _, _ | .umountLazy _, _ | .mount _ _ _, _ => false
  | .xlBlockAttach _ _, _ | .xlBlockList _, _ | .xlBlockDetach _, _ => false

/-- `todo` is what a thread inside a device call has yet to run. -/
structure HostState (T δ : Type) where
  sm : SmState T
  todo : T → Option (List ShellCmd)
  host : δ

/-- A step of the syncmount; a thread begins its device call, or runs its next command. -/
inductive HostLabel (T : Type)
  | sm (l : SmLabel T)
  | enter (t : T) (flush : List ShellCmd) (check : String)
  | command (t : T)

def HostLabel.call {T : Type} : HostLabel T → Option (SmLabel T)
  | .sm l => some l
  | .enter _ _ _ | .command _ => none

section

variable {T δ : Type} [DecidableEq T] (shell : Shell δ) (base : String) (disk : Vmi → String)

def HostState.init (clock : Slot → Timeval) (host : δ) : HostState T δ := ⟨.init clock, fun _ => none, host⟩

/-- A device call is over when all its commands have run. -/
def hostStep (s : HostState T δ) : HostLabel T → Option (HostState T δ)
  | .sm l =>
    if l.deviceCall s.sm = none ∨ s.todo l.thread = some [] then
      (smStep s.sm l).map fun sm => { s with sm := sm, todo := Function.update s.todo l.thread none }
    else none
  | .enter t flush check =>
    if s.todo t = none ∧ flush.all ShellCmd.isXl = true then
      ((s.sm.pc t).commands base disk flush check).map fun cs =>
        { s with todo := Function.update s.todo t (some cs) }
    else none
  | .command t =>
    match s.todo t with
    | some (c :: cs) =>
      let r := shell.system c s.host
      if c.exits r.1 then none else some { s with host := r.2, todo := Function.update s.todo t (some cs) }
    | some [] | none => none

variable {shell base disk} {s s' : HostState T δ} {t : T}

theorem hostStep_sm {l : SmLabel T} (h : hostStep shell base disk s (.sm l) = some s') :
    (l.deviceCall s.sm = none ∨ s.todo l.thread = some []) ∧
      ∃ sm, smStep s.sm l = some sm ∧ s' = { s with sm := sm, todo := Function.update s.todo l.thread none } := by
  unfold hostStep at h
  dsimp only at h
  split at h
  · rename_i hover
    obtain ⟨sm, hsm, rfl⟩ := Option.map_eq_some_iff.1 h
    exact ⟨hover, sm, hsm, rfl⟩
  · cases h

theorem hostStep_enter {flush : List ShellCmd} {check : String}
    (h : hostStep shell base disk s (.enter t flush check) = some s') : s.todo t = none ∧
      (∀ c ∈ flush, c.isXl = true) ∧ ∃ cs, (s.sm.pc t).commands base disk flush check = some cs ∧
        s' = { s with todo := Function.update s.todo t (some cs) } := by
  unfold hostStep at h
  dsimp only at h
  split at h
  · rename_i hc
    obtain ⟨cs, hcs, rfl⟩ := Option.map_eq_some_iff.1 h
    exact ⟨hc.1, List.all_eq_true.1 hc.2, cs, hcs, rfl⟩
  · cases h

theorem hostStep_command (h : hostStep shell base disk s (.command t) = some s') :
    ∃ c cs, s.todo t = some (c :: cs) ∧
      s' = { s with host := (shell.system c s.host).2, todo := Function.update s.todo t (some cs) } := by
  unfold hostStep at h
  dsimp only at h
  split at h
  · rename_i c cs htodo
    split at h
    · cases h
    · cases h
      exact ⟨c, cs, htodo, rfl⟩
  · cases h
  · cases h

end

section

variable {δ : Type} {shell : Shell δ} {env : MountEnv} {dev disk base check : String} {v : Vmi} {s s' : HaState δ}

def runCommands (shell : Shell δ) (cs : List ShellCmd) (host : δ) : δ :=
  cs.foldl (fun host c => (shell.system c host).2) host

def Act.command : Act → Option ShellCmd
  | .system c => some c
  | .vmi _ | .int3 _ _ | .step _ | .guest _ _ => none

theorem runSystem_commands (t : List Act) (host : δ) :
    runSystem shell t host = runCommands shell (t.filterMap Act.command) host := by
  induction t generalizing host with
  | nil => rfl
  | cons a t ih => cases a <;> exact ih _

/-- **A mount that returned has run the commands of one**, in order. -/
theorem NbdMounted.commands (h : NbdMounted shell env dev v disk s s') : ∃ flush check,
    (∀ c ∈ flush, c.isXl = true) ∧
      s'.host = runCommands shell (flush ++ mountCommands s.baseMountpoint check dev disk) s.host := by
  obtain ⟨t, check, hsync, hhost⟩ := h.host
  refine ⟨t.trace.filterMap Act.command, check, fun c hc => ?_, ?_⟩
  · obtain ⟨a, ha, hac⟩ := List.mem_filterMap.1 hc
    cases a with
    | system k =>
      cases hac
      exact doSync_system hsync ha
    | _ => cases hac
  · rw [hhost, runSystem_commands]
    unfold runCommands
    rw [List.foldl_append]
    rfl

theorem NbdUnmounted.commands (h : NbdUnmounted shell dev v s s') :
    s'.host = runCommands shell (unmountCommands s.baseMountpoint dev) s.host := h.host

end

/-! ## A device call half done -/

section

variable {δ : Type} {shell : Shell δ} (nbd : NbdLaws shell) (base : String) (disk : Vmi → String)

/-- The host has the same at a slot's device and directory. -/
structure SameAt (i : Slot) (h h' : δ) : Prop where
  connected : nbd.connected h' (nbdDev i) = nbd.connected h (nbdDev i)
  mapper : nbd.mapper h' (nbdDev i) = nbd.mapper h (nbdDev i)
  mounted : nbd.mounted h' (dirOf (base ++ nbdDev i)) = nbd.mounted h (dirOf (base ++ nbdDev i))

/-- The mount a thread is at. -/
def Pc.mounts : Pc → Option (Vmi × Slot)
  | .mounting v i | .remounting v i => some (v, i)
  | .idle | .lookup _ | .claiming _ _ | .seeking _ _ | .unmounting _ _ | .reassigning _ _ => none

theorem Pc.slot_of_mounts {p : Pc} {v : Vmi} {i : Slot} (h : p.mounts = some (v, i)) : p.slot = some i := by
  cases p <;> cases h <;> rfl

/-- How far a thread has got with its device, by the commands left, and what the host has there by then. -/
inductive Phase (h : δ) : Pc → Option (List ShellCmd) → Prop
  | apart {p : Pc} : p.slot = none → Phase h p none
  | bare {p : Pc} {i : Slot} : p.unmounted = some i → nbd.connected h (nbdDev i) = none → Phase h p none
  | flush {p : Pc} {v : Vmi} {i : Slot} {cs : List ShellCmd} (fs : List ShellCmd) (check : String) :
      p.mounts = some (v, i) → cs = fs ++ mountCommands base check (nbdDev i) (disk v) →
      (∀ c ∈ fs, c.isXl = true) → nbd.connected h (nbdDev i) = none → Phase h p (some cs)
  | connected {p : Pc} {v : Vmi} {i : Slot} (check : String) : p.mounts = some (v, i) →
      nbd.connected h (nbdDev i) = some (disk v) →
      Phase h p (some (mountCommands base check (nbdDev i) (disk v)).tail)
  | mapped {p : Pc} {v : Vmi} {i : Slot} (check : String) : p.mounts = some (v, i) →
      nbd.connected h (nbdDev i) = some (disk v) → nbd.mapper h (nbdDev i) = some (disk v) →
      Phase h p (some (mountCommands base check (nbdDev i) (disk v)).tail.tail)
  | cleared {p : Pc} {v : Vmi} {i : Slot} (check : String) : p.mounts = some (v, i) →
      nbd.connected h (nbdDev i) = some (disk v) → nbd.mapper h (nbdDev i) = some (disk v) →
      nbd.mounted h (dirOf (base ++ nbdDev i)) = none →
      Phase h p (some [.mount check (nbdDev i) (base ++ nbdDev i)])
  | mounted {p : Pc} {v : Vmi} {i : Slot} : p.mounts = some (v, i) → nbd.connected h (nbdDev i) = some (disk v) →
      nbd.mounted h (dirOf (base ++ nbdDev i)) = some (disk v) → Phase h p (some [])
  | before (v : Vmi) (i : Slot) : Phase h (.unmounting v i) none
  | unmount (v : Vmi) (i : Slot) : Phase h (.unmounting v i) (some (unmountCommands base (nbdDev i)))
  | disconnect (v : Vmi) (i : Slot) : Phase h (.unmounting v i) (some [.qemuNbdDisconnect (nbdDev i)])
  | gone (v : Vmi) (i : Slot) : nbd.connected h (nbdDev i) = none → Phase h (.unmounting v i) (some [])

variable {nbd base disk} {h h' : δ} {p : Pc} {todo : Option (List ShellCmd)} {i j : Slot} {v : Vmi}

/-- What the others do elsewhere leaves a thread where it is. -/
theorem Phase.frame (hp : Phase nbd base disk h p todo) (hsame : ∀ i, p.slot = some i → SameAt nbd base i h h') :
    Phase nbd base disk h' p todo := by
  cases hp with
  | apart hslot => exact .apart hslot
  | bare hi hc => exact .bare hi ((hsame _ (Pc.slot_of_unmounted hi)).connected.trans hc)
  | flush fs check hm hcs hfs hc =>
    exact .flush fs check hm hcs hfs ((hsame _ (Pc.slot_of_mounts hm)).connected.trans hc)
  | connected check hm hc => exact .connected check hm ((hsame _ (Pc.slot_of_mounts hm)).connected.trans hc)
  | mapped check hm hc hmap =>
    have hs := hsame _ (Pc.slot_of_mounts hm)
    exact .mapped check hm (hs.connected.trans hc) (hs.mapper.trans hmap)
  | cleared check hm hc hmap hdir =>
    have hs := hsame _ (Pc.slot_of_mounts hm)
    exact .cleared check hm (hs.connected.trans hc) (hs.mapper.trans hmap) (hs.mounted.trans hdir)
  | mounted hm hc hdir =>
    have hs := hsame _ (Pc.slot_of_mounts hm)
    exact .mounted hm (hs.connected.trans hc) (hs.mounted.trans hdir)
  | before v i => exact .before v i
  | unmount v i => exact .unmount v i
  | disconnect v i => exact .disconnect v i
  | gone v i hc => exact .gone v i ((hsame i rfl).connected.trans hc)

/-! ## One command -/

variable {c : ShellCmd} {cs : List ShellCmd}

/-- What changes only one device and one directory. -/
theorem SameAt.of_other {k : Slot} (hne : j ≠ k)
    (hc : ∀ d, d ≠ nbdDev k → nbd.connected h' d = nbd.connected h d)
    (hmap : nbd.mapper h' (nbdDev j) = nbd.mapper h (nbdDev j))
    (hm : ∀ d, d ≠ dirOf (base ++ nbdDev k) → nbd.mounted h' d = nbd.mounted h d) : SameAt nbd base j h h' :=
  ⟨hc _ fun e => hne (nbdDev_injective e), hmap, hm _ fun e => hne (dirOf_nbdDev_injective e)⟩

/-- **A thread's next command** takes it a step on with its own device, does not end the process, and is nothing to any
other device. -/
theorem Phase.command (hmaps : OnlyKpartxMaps nbd) (hp : Phase nbd base disk h p (some (c :: cs))) :
    Phase nbd base disk (shell.system c h).2 p (some cs) ∧ c.exits (shell.system c h).1 = false ∧
      ∀ j, p.slot ≠ some j → SameAt nbd base j h (shell.system c h).2 := by
  have helse : ∀ {i j : Slot}, p.slot = some i → p.slot ≠ some j → j ≠ i := fun hi hj e => hj (e ▸ hi)
  have hupdate : ∀ {A : Type} [DecidableEq A] {f f' : A → Option String} {a : A} {x : Option String},
      f' = Function.update f a x → ∀ d, d ≠ a → f' d = f d := fun e d hd => by rw [e, Function.update_of_ne hd]
  cases hp with
  | flush fs check hm hcs hfs hconn =>
    rename_i v i
    have hslot := Pc.slot_of_mounts hm
    cases fs with
    | nil =>
      cases hcs
      obtain ⟨hzero, hc', hm'⟩ := nbd.connect h (nbdDev i) (disk v) hconn
      refine ⟨.connected check hm (by rw [hc', Function.update_self]), ?_, fun j hj => ?_⟩
      · show ((shell.system _ h).1 == 256) = false
        rw [hzero]
        rfl
      · exact .of_other (helse hslot hj) (hupdate hc') (hmaps h _ _ nofun) fun d _ => congrFun hm' d
    | cons f fs =>
      cases hcs
      have hxl := hfs c List.mem_cons_self
      obtain ⟨hc', hm'⟩ := nbd.xl h c hxl
      refine ⟨.flush fs check hm rfl (fun d hd => hfs d (List.mem_cons_of_mem c hd)) (by rw [hc', hconn]), ?_,
        fun j hj => ?_⟩
      · cases c <;> first | rfl | cases hxl
      · have hother : c ≠ .kpartxAdd (nbdDev j) := fun e => by
          rw [e] at hxl
          cases hxl
        exact .of_other (helse hslot hj) (fun d _ => congrFun hc' d) (hmaps h _ _ hother) fun d _ => congrFun hm' d
  | connected check hm hconn =>
    rename_i v i
    obtain ⟨hp', hc', hm'⟩ := nbd.kpartx h (nbdDev i)
    refine ⟨.mapped check hm (by rw [hc', hconn]) (by rw [hp', hconn]), rfl, fun j hj => ?_⟩
    have hne := helse (Pc.slot_of_mounts hm) hj
    have hother : ShellCmd.kpartxAdd (nbdDev i) ≠ .kpartxAdd (nbdDev j) := fun e =>
      hne (nbdDev_injective (ShellCmd.kpartxAdd.inj e)).symm
    exact .of_other hne (fun d _ => congrFun hc' d) (hmaps h _ _ hother) fun d _ => congrFun hm' d
  | mapped check hm hconn hmap =>
    rename_i v i
    obtain ⟨hm', hc', hp'⟩ := nbd.umount h (base ++ nbdDev i)
    refine ⟨.cleared check hm (by rw [hc', hconn]) (by rw [hp', hmap]) (by rw [hm', Function.update_self]), rfl,
      fun j hj => ?_⟩
    exact .of_other (helse (Pc.slot_of_mounts hm) hj) (fun d _ => congrFun hc' d) (congrFun hp' _) (hupdate hm')
  | cleared check hm hconn hmap hdir =>
    rename_i v i
    obtain ⟨hm', hc'⟩ := nbd.mount h check (nbdDev i) (base ++ nbdDev i) (disk v) hmap hdir
    refine ⟨.mounted hm (by rw [hc', hconn]) (by rw [hm', Function.update_self]), rfl, fun j hj => ?_⟩
    exact .of_other (helse (Pc.slot_of_mounts hm) hj) (fun d _ => congrFun hc' d) (hmaps h _ _ nofun) (hupdate hm')
  | unmount v i =>
    obtain ⟨hm', hc'⟩ := nbd.umountLazy h (base ++ nbdDev i)
    refine ⟨.disconnect v i, rfl, fun j hj => ?_⟩
    exact .of_other (helse rfl hj) (fun d _ => congrFun hc' d) (hmaps h _ _ nofun) (hupdate hm')
  | disconnect v i =>
    obtain ⟨hc', hm'⟩ := nbd.disconnect h (nbdDev i)
    refine ⟨.gone v i (by rw [hc', Function.update_self]), rfl, fun j hj => ?_⟩
    exact .of_other (helse rfl hj) (hupdate hc') (hmaps h _ _ nofun) fun d _ => congrFun hm' d

end

/-! ## One step -/

section

variable {T δ : Type} {shell : Shell δ} (nbd : NbdLaws shell) (base : String) (disk : Vmi → String)

/-- A device nobody works on: nothing where its slot has no owner, the owner's disk where it has one. -/
def AtOwner (h : δ) (i : Slot) : Option Vmi → Prop
  | none => nbd.connected h (nbdDev i) = none
  | some v => nbd.connected h (nbdDev i) = some (disk v) ∧
      nbd.mounted h (dirOf (base ++ nbdDev i)) = some (disk v)

/-- **The invariant** of the host. -/
structure Stands (s : HostState T δ) : Prop where
  phase : ∀ t, Phase nbd base disk s.host (s.sm.pc t) (s.todo t)
  held : ∀ i, (∀ t, (s.sm.pc t).slot ≠ some i) → AtOwner nbd base disk s.host i (s.sm.records.owner i)

variable {nbd base disk} {s s' : HostState T δ} {sm : SmState T} {t : T} {p q : Pc} {i : Slot} {v : Vmi}

theorem AtOwner.same {h h' : δ} {o : Option Vmi} (hh : AtOwner nbd base disk h i o) (hs : SameAt nbd base i h h') :
    AtOwner nbd base disk h' i o := by
  cases o with
  | none => exact hs.connected.trans hh
  | some v => exact ⟨hs.connected.trans hh.1, hs.mounted.trans hh.2⟩

/-- A thread that has yet to mount a device finds it unconnected. -/
theorem Phase.bare_of_none {h : δ} (hp : Phase nbd base disk h p none) (hi : p.unmounted = some i) :
    nbd.connected h (nbdDev i) = none := by
  cases hp with
  | apart hslot =>
    rw [Pc.slot_of_unmounted hi] at hslot
    cases hslot
  | bare hj hc =>
    cases hi.symm.trans hj
    exact hc
  | before w j => cases hi

theorem Phase.bare_of_reassigning {h : δ} {todo : Option (List ShellCmd)}
    (hp : Phase nbd base disk h (.reassigning v i) todo) : nbd.connected h (nbdDev i) = none := by
  cases hp with
  | apart hslot => cases hslot
  | bare hj hc =>
    cases hj
    exact hc
  | flush fs check hm => cases hm
  | connected check hm => cases hm
  | mapped check hm => cases hm
  | cleared check hm => cases hm
  | mounted hm => cases hm

/-- A thread whose mount has run its commands has the disk there. -/
theorem Phase.held_of_mounted {h : δ} (hp : Phase nbd base disk h p (some [])) (hm : p.mounts = some (v, i)) :
    AtOwner nbd base disk h i (some v) := by
  generalize htodo : some ([] : List ShellCmd) = todo at hp
  cases hp with
  | mounted hm' hc hdir =>
    cases hm.symm.trans hm'
    exact ⟨hc, hdir⟩
  | flush fs check hm' hcs =>
    rw [← Option.some.inj htodo] at hcs
    cases fs <;> cases hcs
  | gone w j hc => cases hm
  | _ => cases htodo

theorem Phase.gone_of_unmounting {h : δ} (hp : Phase nbd base disk h (.unmounting v i) (some [])) :
    nbd.connected h (nbdDev i) = none := by
  generalize htodo : some ([] : List ShellCmd) = todo at hp
  cases hp with
  | gone _ _ hc => exact hc
  | mounted hm => cases hm
  | flush fs check hm => cases hm
  | _ => cases htodo

variable [DecidableEq T]

/-- A thread moves in the syncmount, between its device calls. -/
theorem Stands.goto (h : Stands nbd base disk s) (hpc : sm.pc = Function.update s.sm.pc t p)
    (hphase : Phase nbd base disk s.host p none)
    (hheld : ∀ i, p.slot ≠ some i → (∀ u, u ≠ t → (s.sm.pc u).slot ≠ some i) →
      AtOwner nbd base disk s.host i (sm.records.owner i)) :
    Stands nbd base disk { s with sm := sm, todo := Function.update s.todo t none } := by
  refine ⟨fun u => ?_, fun i hi => ?_⟩
  · show Phase nbd base disk s.host (sm.pc u) (Function.update s.todo t none u)
    rw [hpc]
    by_cases hu : u = t
    · rw [hu, Function.update_self, Function.update_self]
      exact hphase
    · rw [Function.update_of_ne hu, Function.update_of_ne hu]
      exact h.phase u
  · change ∀ u, (sm.pc u).slot ≠ some i at hi
    rw [hpc] at hi
    refine hheld i ?_ fun u hu => ?_
    · have hself := hi t
      rwa [Function.update_self] at hself
    · have hother := hi u
      rwa [Function.update_of_ne hu] at hother

/-- The others and the thread itself are elsewhere. -/
theorem Stands.held_of (h : Stands nbd base disk s) (ht : s.sm.pc t = q) (hq : q.slot ≠ some i)
    (hothers : ∀ u, u ≠ t → (s.sm.pc u).slot ≠ some i) : AtOwner nbd base disk s.host i (s.sm.records.owner i) := by
  refine h.held i fun u => ?_
  by_cases hu : u = t
  · rw [hu, ht]
    exact hq
  · exact hothers u hu

/-- A thread moves with no slot in hand, before and after. -/
theorem Stands.move (h : Stands nbd base disk s) (ht : s.sm.pc t = q) (hq : q.slot = none)
    (hpc : sm.pc = Function.update s.sm.pc t p) (howner : sm.records.owner = s.sm.records.owner)
    (hslot : p.slot = none) :
    Stands nbd base disk { s with sm := sm, todo := Function.update s.todo t none } := by
  refine h.goto hpc (.apart hslot) fun i _ hothers => ?_
  rw [howner]
  exact h.held_of ht (by rw [hq]; exact nofun) hothers

/-- A mount is over. -/
theorem Stands.mounted (h : Stands nbd base disk s) (ht : s.sm.pc t = q) (hm : q.mounts = some (v, i))
    (hpc : sm.pc = Function.update s.sm.pc t .idle) (howner : sm.records.owner = s.sm.records.owner)
    (hown : s.sm.records.owner i = some v) (htodo : s.todo t = some []) :
    Stands nbd base disk { s with sm := sm, todo := Function.update s.todo t none } := by
  refine h.goto hpc (.apart rfl) fun j _ hothers => ?_
  rw [howner]
  by_cases hj : j = i
  · have hphase := h.phase t
    rw [htodo, ht] at hphase
    rw [hj, hown]
    exact hphase.held_of_mounted hm
  · refine h.held_of ht (fun e => hj ?_) hothers
    exact Option.some.inj (e.symm.trans (Pc.slot_of_mounts hm))

/-- **A step of the syncmount.** -/
theorem Stands.smStep (h : Stands nbd base disk s) (hd : Devices s.sm) {l : SmLabel T}
    (hover : l.deviceCall s.sm = none ∨ s.todo l.thread = some []) (hs : smStep s.sm l = some sm) :
    Stands nbd base disk { s with sm := sm, todo := Function.update s.todo l.thread none } := by
  cases smStep_cases hs with
  | request t v hpc => exact h.move hpc rfl rfl rfl rfl
  | miss t now v hpc hl => exact h.move hpc rfl rfl rfl rfl
  | unlucky t now v m hpc hlk hshort => exact h.move hpc rfl rfl rfl rfl
  | taken t now v i hpc hl => exact h.move hpc rfl rfl rfl (Pc.afterTaken_slot v i).1
  | hit t now v i hpc hl hcan => exact h.move hpc rfl rfl (Records.owner_remount _ _ _) rfl
  | release t v i hpc hmem hcan =>
    have hsame : s.sm.pc = Function.update s.sm.pc t .idle := by rw [← hpc, Function.update_eq_self]
    exact h.move hpc rfl hsame (Records.owner_release _ _) rfl
  | claim t now v i hpc hl =>
    -- The slot was unlocked, so nobody was there and it had no owner.
    have hfree : ∀ u, (s.sm.pc u).slot ≠ some i := fun u hu => by
      rw [hd.locked hu] at hl
      cases hl
    have hbare := h.held i hfree
    rw [(hd.unlocked i hl).1] at hbare
    refine h.goto rfl (.bare rfl hbare) fun j hj hothers => ?_
    have hji : j ≠ i := fun e => hj (e ▸ rfl)
    show AtOwner nbd base disk s.host j ((s.sm.records.claim i v).owner j)
    rw [Records.owner_claim, Function.update_of_ne hji]
    exact h.held_of hpc nofun hothers
  | mount t now v i hpc =>
    have hcall : (SmLabel.step t now).deviceCall s.sm = some (i, true) := deviceCall_step hpc
    have hhere := hd.here t
    rw [hpc] at hhere
    exact h.mounted hpc rfl rfl (Records.owner_stamp _ _ _) hhere.2.1 (hover.resolve_left (by rw [hcall]; exact nofun))
  | remount t now v i hpc =>
    have hcall : (SmLabel.step t now).deviceCall s.sm = some (i, true) := deviceCall_step hpc
    have hhere := hd.here t
    rw [hpc] at hhere
    exact h.mounted hpc rfl rfl (Records.owner_stamp _ _ _) hhere.2 (hover.resolve_left (by rw [hcall]; exact nofun))
  | pick t now v m hpc hlk hlong =>
    exact h.goto rfl (.before v _) fun j _ hothers => h.held_of hpc nofun hothers
  | unmount t now v i hpc =>
    have hcall : (SmLabel.step t now).deviceCall s.sm = some (i, false) := deviceCall_step hpc
    have hphase := h.phase t
    rw [show s.todo t = some [] from hover.resolve_left (by rw [hcall]; exact nofun), hpc] at hphase
    exact h.goto rfl (.bare rfl hphase.gone_of_unmounting) fun j hj hothers => h.held_of hpc hj hothers
  | reassign t now v i hpc =>
    have hphase := h.phase t
    rw [hpc] at hphase
    refine h.goto rfl (.bare rfl hphase.bare_of_reassigning) fun j hj hothers => ?_
    have hji : j ≠ i := fun e => hj (e ▸ rfl)
    show AtOwner nbd base disk s.host j ((s.sm.records.reassign i v).owner j)
    rw [Records.owner_reassign, Function.update_of_ne hji]
    exact h.held_of hpc (fun e => hji (Option.some.inj e).symm) hothers

theorem Stands.enter (h : Stands nbd base disk s) {flush : List ShellCmd} {check : String}
    (hs : hostStep shell base disk s (.enter t flush check) = some s') : Stands nbd base disk s' := by
  obtain ⟨hnone, hflush, cs, hcs, rfl⟩ := hostStep_enter hs
  have hphase := h.phase t
  rw [hnone] at hphase
  refine ⟨fun u => ?_, h.held⟩
  show Phase nbd base disk s.host (s.sm.pc u) (Function.update s.todo t (some cs) u)
  by_cases hu : u = t
  · rw [hu, Function.update_self]
    cases hpc : s.sm.pc t with
    | mounting v i | remounting v i =>
      rw [hpc] at hphase hcs
      exact .flush flush check rfl (Option.some.inj hcs).symm hflush (hphase.bare_of_none rfl)
    | unmounting v i =>
      rw [hpc] at hcs
      cases hcs
      exact .unmount v i
    | idle | lookup v | claiming v i | seeking v m | reassigning v i =>
      rw [hpc] at hcs
      cases hcs
  · rw [Function.update_of_ne hu]
    exact h.phase u

/-- **A command.** -/
theorem Stands.command (hmaps : OnlyKpartxMaps nbd) (h : Stands nbd base disk s) (hd : Devices s.sm)
    (hs : hostStep shell base disk s (.command t) = some s') : Stands nbd base disk s' := by
  obtain ⟨c, cs, htodo, rfl⟩ := hostStep_command hs
  have hphase := h.phase t
  rw [htodo] at hphase
  obtain ⟨hnext, -, hothers⟩ := hphase.command hmaps
  refine ⟨fun u => ?_, fun i hi => (h.held i hi).same (hothers i (hi t))⟩
  show Phase nbd base disk _ (s.sm.pc u) (Function.update s.todo t (some cs) u)
  by_cases hu : u = t
  · rw [hu, Function.update_self]
    exact hnext
  · rw [Function.update_of_ne hu]
    exact (h.phase u).frame fun i hi => hothers i fun ht => hu (hd.alone u t i hi ht)

/-! ## Runs -/

variable {clock : Slot → Timeval} {host : δ} {ls : List (HostLabel T)}

/-- **The commands are no steps of the syncmount's**: it goes through a run of its own, without them. -/
theorem hostRun_sm (hrun : Run (stepOf (hostStep shell base disk)) (HostState.init clock host) ls s) :
    Run (stepOf Hyperagents.smStep) (SmState.init clock) (ls.filterMap HostLabel.call) s.sm := by
  refine Run.project (C := fun _ _ _ => True) (f := HostState.sm) (fun ls s l s' _ hs hl => ?_)
    (fun ls s l s' m _ hs hl => ?_) (fun _ _ _ _ _ => trivial) hrun
  · cases l with
    | sm l => cases hl
    | enter t flush check =>
      obtain ⟨-, -, cs, -, rfl⟩ := hostStep_enter hs
      rfl
    | command t =>
      obtain ⟨c, cs, -, rfl⟩ := hostStep_command hs
      rfl
  · cases l with
    | sm l =>
      cases hl
      obtain ⟨-, sm, hsm, rfl⟩ := hostStep_sm hs
      exact hsm
    | enter t flush check => cases hl
    | command t => cases hl

theorem stands_run (hmaps : OnlyKpartxMaps nbd) (hfree : ∀ dev, nbd.connected host dev = none)
    (hrun : Run (stepOf (hostStep shell base disk)) (HostState.init clock host) ls s) : Stands nbd base disk s := by
  refine Run.invariant (P := fun _ s => Stands nbd base disk s) ?_ ?_ hrun
  · exact ⟨fun t => .apart rfl, fun i _ => hfree (nbdDev i)⟩
  · intro ls s l s' hrun h hs
    obtain ⟨-, -, hd, -⟩ := picks_free_of_matched clock (hostRun_sm hrun)
    cases l with
    | sm l =>
      obtain ⟨hover, sm, hsm, rfl⟩ := hostStep_sm hs
      exact h.smStep hd hover hsm
    | enter t flush check => exact h.enter hs
    | command t => exact h.command hmaps hd hs

/-- What the host has in a state that threads have come to, their commands interleaved in any order. -/
structure DisksStand (nbd : NbdLaws shell) (base : String) (disk : Vmi → String) (s : HostState T δ) : Prop where
  /-- No command ends the process: a connect finds its device free. -/
  goesOn : ∀ t c cs, s.todo t = some (c :: cs) → ∃ s', hostStep shell base disk s (.command t) = some s'
  free : ∀ i, (∀ t, (s.sm.pc t).slot ≠ some i) → s.sm.records.owner i = none →
    nbd.connected s.host (nbdDev i) = none
  own : ∀ i v, (∀ t, (s.sm.pc t).slot ≠ some i) → s.sm.records.owner i = some v →
    nbd.connected s.host (nbdDev i) = some (disk v) ∧
      nbd.mounted s.host (dirOf (getMountpoint base i.val)) = some (disk v)

/-- **Disks stand under interleaved commands**: the device calls are as good as single steps of the syncmount, no
connect finds its device in use, and a device nobody works on has its owner's disk at the path a mount returns. -/
theorem disks_interleaved (nbd : NbdLaws shell) (hmaps : OnlyKpartxMaps nbd) (base : String) (disk : Vmi → String)
    (clock : Slot → Timeval) (host : δ) (hfree : ∀ dev, nbd.connected host dev = none) (ls : List (HostLabel T))
    (s : HostState T δ) (hrun : Run (stepOf (hostStep shell base disk)) (HostState.init clock host) ls s) :
    Run (stepOf smStep) (SmState.init clock) (ls.filterMap HostLabel.call) s.sm ∧ DisksStand nbd base disk s := by
  have hstands := stands_run hmaps hfree hrun
  refine ⟨hostRun_sm hrun, fun t c cs htodo => ?_, fun i hi hnone => ?_, fun i v hi hown => ?_⟩
  · have hphase := hstands.phase t
    rw [htodo] at hphase
    obtain ⟨-, hgoes, -⟩ := hphase.command hmaps
    unfold hostStep
    simp [htodo, hgoes]
  · have hheld := hstands.held i hi
    rw [hnone] at hheld
    exact hheld
  · have hheld := hstands.held i hi
    rw [hown] at hheld
    rw [dirOf_getMountpoint]
    exact hheld

end

/-- Two threads mount the disks of two VMs, their commands one by one in turn. -/
def mountsInterleaved : List (HostLabel Nat) :=
  [.sm (.request 0 1), .sm (.request 1 2), .sm (.step 0 ⟨0, 0⟩), .sm (.step 1 ⟨0, 0⟩), .sm (.step 0 ⟨0, 0⟩),
    .sm (.step 1 ⟨0, 0⟩), .sm (.step 1 ⟨0, 0⟩), .enter 0 [.xlBlockList 1] "", .enter 1 [] "check=none,"] ++
    (List.replicate 4 [.command 0, .command 1]).flatten ++
    [.command 0, .sm (.step 1 ⟨1, 0⟩), .sm (.step 0 ⟨1, 0⟩)]

theorem disks_interleaved_two : ∃ s : HostState Nat NbdTable,
    Run (stepOf (hostStep nbdTable "/mnt/" fun v => if v = 1 then "a" else "b"))
      (HostState.init (fun _ => ⟨0, 0⟩) NbdTable.empty) mountsInterleaved s ∧
      Run (stepOf smStep) (SmState.init fun _ => ⟨0, 0⟩) (mountsInterleaved.filterMap HostLabel.call) s.sm ∧
        DisksStand nbdTableLaws "/mnt/" (fun v => if v = 1 then "a" else "b") s := by
  obtain ⟨s, hrun⟩ := exists_run (show (exec (hostStep nbdTable "/mnt/" fun v => if v = 1 then "a" else "b")
    (HostState.init (fun _ => ⟨0, 0⟩) NbdTable.empty) mountsInterleaved).isSome = true by decide)
  exact ⟨s, hrun, disks_interleaved nbdTableLaws nbdTable_onlyKpartxMaps "/mnt/" _ _ NbdTable.empty (fun _ => rfl)
    mountsInterleaved s hrun⟩

end Hyperagents
