import Mathlib.Logic.Function.Basic
import Mathlib.Data.List.FinRange
import Mathlib.Algebra.GroupWithZero.Nat
/-!
# The sixteen syncmount records

`SyncmountRecord` is what `syncmount` keeps for one nbd device; `vmi` is the address of the LibVMI handle of the agent
the device is mounted for (`none` is `NULL`), `l` says whether the record's mutex is locked.  The operations are the
passages of `request_mount` and `release_mount` that read or write records; `request_mount` itself only orders them.

The reference count is an `int`: past `INT_MAX` and below `INT_MIN` counting is undefined (`canRemount`,
`canRelease`).
-/
namespace Hyperagents

abbrev DEVMAX : Nat := 16

instance : NeZero DEVMAX := ⟨Nat.succ_ne_zero 15⟩

abbrev Slot := Fin DEVMAX

/-- The address of an agent's `vmi_instance_t`. -/
abbrev Vmi := Nat

structure Timeval where
  sec : Int
  usec : Int
  deriving DecidableEq, Repr

/-- Milliseconds from `x` to `y`; the division truncates. -/
def timevalDiff (x y : Timeval) : Int := (y.sec - x.sec) * 1000 + Int.tdiv (y.usec - x.usec) 1000

structure SyncmountRecord where
  valid : Int
  calls : UInt64
  mountindex : Int
  refcount : Int
  lastUsed : Timeval
  vmi : Option Vmi
  l : Bool
  deriving DecidableEq, Repr

abbrev Records := Slot → SyncmountRecord

namespace Records

/-- The records after the constructor, which reads the clock once for each. -/
def init (clock : Slot → Timeval) : Records := fun i => ⟨1, 0, -1, 0, clock i, none, false⟩

/-- The owner of each slot. -/
def owner (rs : Records) (i : Slot) : Option Vmi := (rs i).vmi

def refcount (rs : Records) (i : Slot) : Int := (rs i).refcount

/-- The first pass: the slot that holds this vmi already. -/
def lookup (rs : Records) (v : Vmi) : Option Slot := (List.finRange DEVMAX).find? (fun i => (rs i).vmi == some v)

/-- The second pass: the first slot whose `try_lock` succeeds. -/
def firstFree (rs : Records) : Option Slot := (List.finRange DEVMAX).find? (fun i => !(rs i).l)

def canRemount (rs : Records) (i : Slot) : Bool := decide ((rs i).refcount < 2147483647)

def canRelease (rs : Records) (i : Slot) : Bool := decide (-2147483648 < (rs i).refcount)

/-- A hit of the first pass. -/
def remount (rs : Records) (i : Slot) (now : Timeval) : Records :=
  Function.update rs i { rs i with
    refcount := (rs i).refcount + 1
    calls := (rs i).calls + 1
    lastUsed := now }

/-- A successful `try_lock` and the filling of the record. -/
def claim (rs : Records) (i : Slot) (v : Vmi) : Records :=
  Function.update rs i { rs i with
    l := true
    refcount := 1
    mountindex := i
    valid := 1
    vmi := some v
    calls := (rs i).calls + 1 }

/-- The victim's fields reassigned. -/
def reassign (rs : Records) (i : Slot) (v : Vmi) : Records :=
  Function.update rs i { rs i with
    refcount := 1
    mountindex := i
    valid := 1
    calls := 0
    vmi := some v }

def stamp (rs : Records) (i : Slot) (now : Timeval) : Records := Function.update rs i { rs i with lastUsed := now }

def release (rs : Records) (i : Slot) : Records := Function.update rs i { rs i with refcount := (rs i).refcount - 1 }

/-- `max` and `maxix` after one more record. -/
def victimStep (rs : Records) (now : Timeval) (m : Int × Slot) (i : Slot) : Int × Slot :=
  if (rs i).refcount = 0 ∧ m.1 < timevalDiff (rs i).lastUsed now then (timevalDiff (rs i).lastUsed now, i) else m

/-- One pass over the records for the slot out of use the longest, from the `max` and `maxix` of the passes before. -/
def victimPass (rs : Records) (now : Timeval) (m : Int × Slot) : Int × Slot :=
  (List.finRange DEVMAX).foldl (rs.victimStep now) m

/-! ## What the passes find -/

variable {rs : Records} {v : Vmi} {i : Slot}

theorem lookup_some (h : rs.lookup v = some i) : rs.owner i = some v := by
  have := List.find?_some h
  exact eq_of_beq this

theorem lookup_none : rs.lookup v = none ↔ ∀ i, rs.owner i ≠ some v := by
  unfold lookup
  rw [List.find?_eq_none]
  simp [owner, List.mem_finRange]

theorem firstFree_some (h : rs.firstFree = some i) : (rs i).l = false := by
  have := List.find?_some h
  simpa using this

theorem firstFree_before (h : rs.firstFree = some i) (k : Slot) (hk : k < i) : (rs k).l = true := by
  obtain ⟨-, front, back, hsplit, hfront⟩ := List.find?_eq_some_iff_append.1 h
  have hsorted := List.pairwise_lt_finRange DEVMAX
  have hmem : k ∈ front ++ i :: back := hsplit ▸ List.mem_finRange k
  rw [hsplit, List.pairwise_append] at hsorted
  rcases List.mem_append.1 hmem with hk' | hk'
  · simpa using hfront k hk'
  · rcases List.mem_cons.1 hk' with rfl | hk'
    · exact absurd hk (lt_irrefl _)
    · exact absurd (hk.trans ((List.pairwise_cons.1 hsorted.2.1).1 k hk')) (lt_irrefl _)

theorem firstFree_none : rs.firstFree = none ↔ ∀ i, (rs i).l = true := by
  unfold firstFree
  rw [List.find?_eq_none]
  simp [List.mem_finRange]

/-- **A pass that finds a better slot finds one out of use.** -/
theorem victimPass_refcount (rs : Records) (now : Timeval) (m : Int × Slot) :
    rs.victimPass now m = m ∨ rs.refcount (rs.victimPass now m).2 = 0 := by
  unfold victimPass
  generalize List.finRange DEVMAX = is
  induction is generalizing m with
  | nil => exact .inl rfl
  | cons i is ih =>
    rw [List.foldl_cons]
    rcases ih (rs.victimStep now m i) with heq | h0
    · rw [heq]
      unfold victimStep
      split
      · rename_i hc
        exact .inr hc.1
      · exact .inl rfl
    · exact .inr h0

/-- A slot out of use past a bound the passes before did not reach. -/
theorem victimPass_long {now : Timeval} {m : Int × Slot} {bound : Int} (hm : m.1 < bound)
    (h : ¬ (rs.victimPass now m).1 < bound) : rs.refcount (rs.victimPass now m).2 = 0 := by
  rcases rs.victimPass_refcount now m with heq | h0
  · rw [heq] at h
    exact absurd hm h
  · exact h0

/-! ## What the operations leave of the owners, the counts and the locks -/

theorem owner_update (r : SyncmountRecord) : owner (Function.update rs i r) = Function.update rs.owner i r.vmi := by
  funext j
  by_cases h : j = i
  · rw [h, Function.update_self]
    exact congrArg _ (Function.update_self i r rs)
  · rw [Function.update_of_ne h]
    exact congrArg _ (Function.update_of_ne h r rs)

theorem refcount_update (r : SyncmountRecord) :
    refcount (Function.update rs i r) = Function.update rs.refcount i r.refcount := by
  funext j
  by_cases h : j = i
  · rw [h, Function.update_self]
    exact congrArg _ (Function.update_self i r rs)
  · rw [Function.update_of_ne h]
    exact congrArg _ (Function.update_of_ne h r rs)

theorem l_update (r : SyncmountRecord) (j : Slot) :
    (Function.update rs i r j).l = if j = i then r.l else (rs j).l := by
  by_cases h : j = i
  · rw [if_pos h, h, Function.update_self]
  · rw [if_neg h, Function.update_of_ne h]

variable (rs : Records) (i j : Slot) (v : Vmi) (now : Timeval)

@[simp] theorem owner_remount : (rs.remount i now).owner = rs.owner :=
  (owner_update _).trans (Function.update_eq_self i rs.owner)

@[simp] theorem owner_stamp : (rs.stamp i now).owner = rs.owner :=
  (owner_update _).trans (Function.update_eq_self i rs.owner)

@[simp] theorem owner_release : (rs.release i).owner = rs.owner :=
  (owner_update _).trans (Function.update_eq_self i rs.owner)

@[simp] theorem owner_claim : (rs.claim i v).owner = Function.update rs.owner i (some v) := owner_update _

@[simp] theorem owner_reassign : (rs.reassign i v).owner = Function.update rs.owner i (some v) := owner_update _

@[simp] theorem refcount_remount : (rs.remount i now).refcount = Function.update rs.refcount i (rs.refcount i + 1) :=
  refcount_update _

@[simp] theorem refcount_stamp : (rs.stamp i now).refcount = rs.refcount :=
  (refcount_update _).trans (Function.update_eq_self i rs.refcount)

@[simp] theorem refcount_release : (rs.release i).refcount = Function.update rs.refcount i (rs.refcount i - 1) :=
  refcount_update _

@[simp] theorem refcount_claim : (rs.claim i v).refcount = Function.update rs.refcount i 1 := refcount_update _

@[simp] theorem refcount_reassign : (rs.reassign i v).refcount = Function.update rs.refcount i 1 := refcount_update _

@[simp] theorem l_remount : (rs.remount i now j).l = (rs j).l := by
  rw [remount, l_update]
  split <;> simp [*]

@[simp] theorem l_stamp : (rs.stamp i now j).l = (rs j).l := by
  rw [stamp, l_update]
  split <;> simp [*]

@[simp] theorem l_release : (rs.release i j).l = (rs j).l := by
  rw [release, l_update]
  split <;> simp [*]

@[simp] theorem l_claim : (rs.claim i v j).l = if j = i then true else (rs j).l := l_update _ _

@[simp] theorem l_reassign : (rs.reassign i v j).l = (rs j).l := by
  rw [reassign, l_update]
  split <;> simp [*]

end Records

end Hyperagents
