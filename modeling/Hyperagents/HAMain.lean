import Hyperagents.Runs
import Hyperagents.Leases
import Hyperagents.RequestMount
/-!
# HAMain

An agent is registered by `add_agent`, which opens a LibVMI handle of its own; `mount_disk` and `unmount_disk` pass its
handle and its `mountdev` on to the syncmount.  The runs of a HAMain are the completed calls of one thread, in order
(`haStep`); `out` is how many mounts of an agent are not unmounted yet.
-/
namespace Hyperagents

open Runs

variable {δ : Type} (shell : Shell δ)

/-- A HAMain just constructed; the constructor reads the clock once for each record. -/
def HaState.init (mountPath ghostImage : String) (clock : Slot → Timeval) (globals : Globals) (guests : String → Guest)
    (host : δ) : HaState δ where
  agents := fun _ => none
  records := .init clock
  baseMountpoint := mountPath
  ghostImage := ghostImage
  handles := fun _ => none
  nextVmi := 1
  globals := globals
  guests := guests
  host := host
  log := []

/-- `mountdev` is what the new object's uninitialised member happens to hold. -/
def addAgent (vmName rekallProfile diskPath : String) (initOk : Bool) (mountdev : Int) (s : HaState δ) :
    Except Halt (HaState δ) :=
  let v := s.nextVmi
  let s := (s.emit .lockVmi).vmi v .initComplete
  if initOk then
    let s := { s with handles := Function.update s.handles v (some vmName), nextVmi := v + 1 }
    let s := (s.vmi v .getOstype).emit .unlockVmi
    .ok { s with agents := Function.update s.agents vmName (some ⟨vmName, rekallProfile, diskPath, v, mountdev⟩) }
  else .error .exited

/-- For a name that is not registered `agents[vm_name]` is a null pointer. -/
def mountDisk (vmName : String) (env : MountEnv) (s : HaState δ) : Except Halt (String × HaState δ) :=
  match s.agents vmName with
  | none => .error .undefined
  | some ha => do
    let (m, s) ← requestMount shell env ha.vmi ha.diskPath s
    let s := { s with agents := Function.update s.agents vmName (some { ha with mountdev := m.val }) }
    return (getMountpoint s.baseMountpoint m.val, s)

def unmountDisk (vmName : String) (s : HaState δ) : Except Halt (HaState δ) :=
  match s.agents vmName with
  | none => .error .undefined
  | some ha => releaseMount ha.mountdev s

/-! ## Runs -/

inductive HaOp
  | addAgent (vmName rekallProfile diskPath : String) (initOk : Bool) (mountdev : Int)
  | mountDisk (vmName : String) (env : MountEnv)
  | unmountDisk (vmName : String)

/-- One completed call. -/
def haStep (s : HaState δ) : HaOp → Option (HaState δ)
  | .addAgent n r d ok m => (addAgent n r d ok m s).toOption
  | .mountDisk n env => (mountDisk shell n env s).toOption.map Prod.snd
  | .unmountDisk n => (unmountDisk n s).toOption

def HaOp.adds (n : String) : HaOp → Bool
  | .addAgent m _ _ _ _ => m == n
  | _ => false

def HaOp.mounts (n : String) : HaOp → Bool
  | .mountDisk m _ => m == n
  | _ => false

def HaOp.unmounts (n : String) : HaOp → Bool
  | .unmountDisk m => m == n
  | _ => false

/-- Completed mounts of an agent less its unmounts. -/
def out (ops : List HaOp) (n : String) : Int := (ops.countP (HaOp.mounts n) : Int) - ops.countP (HaOp.unmounts n)

/-- A name is registered once, and unmounted only with a mount outstanding. -/
def OrderlyStep (p : List HaOp) : HaOp → Prop
  | .addAgent n _ _ _ _ => ∀ op ∈ p, op.adds n = false
  | .mountDisk _ _ => True
  | .unmountDisk n => 0 < out p n

def Orderly (ops : List HaOp) : Prop := ∀ p op, p ++ [op] <+: ops → OrderlyStep p op

theorem Orderly.of_prefix {p ops : List HaOp} (h : Orderly ops) (hp : p <+: ops) : Orderly p :=
  fun q op hq => h q op (hq.trans hp)

theorem orderly_iff {ops : List HaOp} :
    Orderly ops ↔ ∀ k (h : k < ops.length), OrderlyStep (ops.take k) (ops.get ⟨k, h⟩) :=
  forall_prefix_iff

instance (p : List HaOp) (op : HaOp) : Decidable (OrderlyStep p op) := by
  cases op <;> unfold OrderlyStep <;> infer_instance

instance (ops : List HaOp) : Decidable (Orderly ops) := decidable_of_iff _ orderly_iff.symm

theorem out_addAgent (ops : List HaOp) (n r d : String) (ok : Bool) (m : Int) :
    out (ops ++ [.addAgent n r d ok m]) = out ops := by
  funext k
  simp [out, HaOp.mounts, HaOp.unmounts]

theorem out_mountDisk (ops : List HaOp) (n : String) (env : MountEnv) :
    out (ops ++ [.mountDisk n env]) = Function.update (out ops) n (out ops n + 1) := by
  funext k
  by_cases hk : k = n
  · subst hk
    simp [out, HaOp.mounts, HaOp.unmounts]
    omega
  · rw [Function.update_of_ne hk]
    simp [out, HaOp.mounts, HaOp.unmounts, Ne.symm hk]

theorem out_unmountDisk (ops : List HaOp) (n : String) :
    out (ops ++ [.unmountDisk n]) = Function.update (out ops) n (out ops n - 1) := by
  funext k
  by_cases hk : k = n
  · subst hk
    simp [out, HaOp.mounts, HaOp.unmounts]
    omega
  · rw [Function.update_of_ne hk]
    simp [out, HaOp.mounts, HaOp.unmounts, Ne.symm hk]

/-! ## What one call does -/

theorem toOption_eq_some {ε α : Type} {x : Except ε α} {a : α} : x.toOption = some a ↔ x = .ok a := by
  cases x <;> simp [Except.toOption]

variable {shell} {s s' : HaState δ}

/-- A registration opens a new handle for the name and enters it in the agents. -/
structure Added (n r d : String) (m : Int) (s s' : HaState δ) : Prop where
  agents : s'.agents = Function.update s.agents n (some ⟨n, r, d, s.nextVmi, m⟩)
  handles : s'.handles = Function.update s.handles s.nextVmi (some n)
  nextVmi : s'.nextVmi = s.nextVmi + 1
  records : s'.records = s.records
  baseMountpoint : s'.baseMountpoint = s.baseMountpoint
  guests : s'.guests = s.guests
  host : s'.host = s.host

theorem haStep_addAgent {n r d : String} {ok : Bool} {m : Int} (h : haStep shell s (.addAgent n r d ok m) = some s') :
    Added n r d m s s' := by
  have h := toOption_eq_some.1 h
  unfold addAgent at h
  dsimp only at h
  split at h
  · cases h
    exact ⟨rfl, rfl, rfl, rfl, rfl, rfl, rfl⟩
  · cases h

theorem Added.agents_cases {n r d : String} {m : Int} (h : Added n r d m s s') {k : String} {ha : HAConfig}
    (hk : s'.agents k = some ha) : (k = n ∧ ha = ⟨n, r, d, s.nextVmi, m⟩) ∨ (k ≠ n ∧ s.agents k = some ha) := by
  rw [h.agents] at hk
  exact Leases.update_some hk

/-- A mount is a request that returned, its slot kept in `mountdev`. -/
structure Mounted (shell : Shell δ) (env : MountEnv) (n : String) (ha : HAConfig) (i : Slot) (s s₁ s' : HaState δ) :
    Prop where
  agent : s.agents n = some ha
  path : RequestPath shell env ha.vmi ha.diskPath s i s₁
  state : s' = { s₁ with agents := Function.update s₁.agents n (some { ha with mountdev := i.val }) }

theorem Mounted.agents_cases {n : String} {env : MountEnv} {ha : HAConfig} {i : Slot} {s₁ : HaState δ}
    (h : Mounted shell env n ha i s s₁ s') {k : String} {ha' : HAConfig} (hk : s'.agents k = some ha') :
    (k = n ∧ ha' = { ha with mountdev := i.val }) ∨ (k ≠ n ∧ s.agents k = some ha') := by
  obtain ⟨-, hpath, rfl⟩ := h
  rw [← hpath.kept.agents]
  exact Leases.update_some hk

/-- A mount registers nobody and drops nobody. -/
theorem Mounted.agents_none {n : String} {env : MountEnv} {ha : HAConfig} {i : Slot} {s₁ : HaState δ}
    (h : Mounted shell env n ha i s s₁ s') (k : String) : s'.agents k = none ↔ s.agents k = none := by
  obtain ⟨hn, hpath, rfl⟩ := h
  by_cases hk : k = n
  · subst hk
    rw [hn]
    exact iff_of_false (fun e => by cases (Function.update_self k _ s₁.agents).symm.trans e) (Option.some_ne_none ha)
  · rw [← hpath.kept.agents]
    exact iff_of_eq (congrArg (· = none) (Function.update_of_ne hk _ _))

theorem mountDisk_ok {n path : String} {env : MountEnv} (h : mountDisk shell n env s = .ok (path, s')) :
    ∃ ha i s₁, Mounted shell env n ha i s s₁ s' ∧ path = getMountpoint s₁.baseMountpoint i.val := by
  unfold mountDisk at h
  split at h
  · cases h
  · rename_i ha hha
    obtain ⟨⟨i, s₁⟩, hreq, heq⟩ := ok_of_bind h
    cases heq
    exact ⟨ha, i, s₁, ⟨hha, requestMount_ok hreq, rfl⟩, rfl⟩

theorem haStep_mountDisk {n : String} {env : MountEnv} (h : haStep shell s (.mountDisk n env) = some s') :
    ∃ ha i s₁, Mounted shell env n ha i s s₁ s' := by
  obtain ⟨⟨path, s''⟩, hp, rfl⟩ := Option.map_eq_some_iff.1 h
  obtain ⟨ha, i, s₁, hm, -⟩ := mountDisk_ok (toOption_eq_some.1 hp)
  exact ⟨ha, i, s₁, hm⟩

/-- An unmount gives back a use of the slot in `mountdev`, and resumes the guest of its owner. -/
structure Unmounted (n : String) (ha : HAConfig) (i : Slot) (v : Vmi) (s s' : HaState δ) : Prop where
  agent : s.agents n = some ha
  slot : (i.val : Int) = ha.mountdev
  owner : s.records.owner i = some v
  kept : Kept s s'
  records : s'.records = s.records.release i
  guest : OnlyGuest v false s s'
  host : s'.host = s.host

theorem unmountDisk_ok {n : String} (h : unmountDisk n s = .ok s') : ∃ ha i v, Unmounted n ha i v s s' := by
  unfold unmountDisk at h
  split at h
  · cases h
  · rename_i ha hha
    obtain ⟨i, v, hi, ho, hk, hr, hg, hh⟩ := releaseMount_ok h
    exact ⟨ha, i, v, hha, hi, ho, hk, hr, hg, hh⟩

theorem haStep_unmountDisk {n : String} (h : haStep shell s (.unmountDisk n) = some s') :
    ∃ ha i v, Unmounted n ha i v s s' :=
  unmountDisk_ok (toOption_eq_some.1 h)

/-! ## A small HAMain -/

/-- A host on which every command succeeds and does nothing. -/
def idleShell : Shell Unit := ⟨fun _ host => (0, host)⟩

/-- The clock reads `sec` throughout, and `do_sync` resolves no symbol. -/
def quietMount (sec : Int) : MountEnv := ⟨[⟨sec, 0⟩], ⟨sec, 0⟩, { nopCall [] with ksym := fun _ => none }, true⟩

def HaState.small (host : δ) : HaState δ :=
  .init "/mnt/" "/ghost.img" (fun _ => ⟨0, 0⟩) .fresh (fun _ => nopGuest) host

/-- Two overlapping mounts of one agent, the first unmounted. -/
def overlapping : List HaOp :=
  [.addAgent "a" "p" "d" true 0, .mountDisk "a" (quietMount 1), .mountDisk "a" (quietMount 2), .unmountDisk "a"]

def twoAgents : List HaOp :=
  [.addAgent "a" "p" "disk-a" true 0, .addAgent "b" "p" "disk-b" true 0, .mountDisk "a" (quietMount 1),
    .mountDisk "b" (quietMount 2), .unmountDisk "a", .mountDisk "a" (quietMount 3)]

end Hyperagents
