import Hyperagents.MacText
import Hyperagents.Rings
/-!
# The network devices of a guest

The snippet in `13.c` walks `dev_base_head`, the ring of a guest's network devices.  Each `net_device` has its list node
inside it; a `do`-loop subtracts the node's offset to get at the device, and stops on an equation between the list head
and the next node with two other offsets.  In wrap-around arithmetic the equation holds exactly at the head
(`netHead_iff`), so each device would be worked on once.  But the first hardware address read overruns the array its
bytes are printed to, and what comes after is undefined (`devices_never_visited_once`).
-/
namespace Hyperagents

open Loops Rings

/-- What LibVMI reads of the guest; `none` is `VMI_FAILURE`, or `NULL` for a string. -/
structure NetVmi where
  initNet : UInt64
  readAddrVa : UInt64 → Option UInt64
  read32Va : UInt64 → Option UInt32
  readStrVa : UInt64 → Option (List UInt8)
  readVa : UInt64 → Nat → List UInt8

/-- The offsets to be filled in, each an `int`. -/
structure NetOffsets where
  netOff : Int32
  devOff : Int32
  devAddrOff : Int32
  ipPtrOff : Int32
  devListoff : Int32
  ifaListOff : Int32
  ifaAddressOff : Int32

/-- An `int` in a sum with an address. -/
def ext (off : Int32) : UInt64 := off.toInt64.toUInt64

structure NicInfo where
  devptr : UInt64
  ifname : List UInt8
  mac : List Char
  macInt : Option UInt64
  ip : UInt32
  deriving DecidableEq, Repr

/-- What a run of the snippet prints, or that it wrote past the end of `z` before. -/
inductive NetRun
  | prints (nics : List NicInfo)
  | overrun
  deriving DecidableEq, Repr

/-- The loop's `next_devptr` and `ifname`, and the devices printed so far. -/
structure NetState where
  nextDevptr : UInt64
  ifname : List UInt8
  printed : List NicInfo
  deriving DecidableEq, Repr

section

variable (size : Nat) (vmi : NetVmi) (o : NetOffsets)

def netListHead : UInt64 := vmi.initNet + ext o.netOff

/-- What is printed of the device at `currentDevptr`, with its address read, if `z`, of so many characters, is not
overrun; a pointer that cannot be read is zero. -/
def nicInfo (currentDevptr : UInt64) (ifname devAddr : List UInt8) : Option NicInfo := do
  let mac ← macText size devAddr
  let ip4Ptr := (vmi.readAddrVa (currentDevptr + ext o.ipPtrOff)).getD 0
  let ifaPtr := (vmi.readAddrVa (ip4Ptr + ext o.ifaListOff)).getD 0
  let ifaAddress := (vmi.read32Va (ifaPtr + ext o.ifaAddressOff)).getD 0
  return ⟨currentDevptr, ifname, mac, macInt mac, ifaAddress⟩

/-- The hardware address of the device at `currentDevptr`, as far as it can be read. -/
def readDevAddr (currentDevptr : UInt64) : List UInt8 :=
  vmi.readVa ((vmi.readAddrVa (currentDevptr + ext o.devAddrOff)).getD 0) 6

def currentDevptr (s : NetState) : UInt64 := s.nextDevptr - ext o.devListoff

/-- `ifname`, which keeps the name of the device before where there is no string to read. -/
def netName (s : NetState) : List UInt8 := (vmi.readStrVa (currentDevptr o s + 0)).getD s.ifname

/-- The state with one more device printed. -/
def printNic (s : NetState) (nic : NicInfo) (nextDevptr : UInt64) : NetState where
  nextDevptr := nextDevptr
  ifname := netName vmi o s
  printed := s.printed ++ [nic]

/-- One iteration, with the test behind it. -/
def netTurn (s : NetState) : Turn NetRun NetState :=
  let devAddr := readDevAddr vmi o (currentDevptr o s)
  if devAddr.length = 0 then .leave (.prints s.printed)
  else
    match nicInfo size vmi o (currentDevptr o s) (netName vmi o s) devAddr with
    | none => .leave .overrun
    | some nic =>
      match vmi.readAddrVa s.nextDevptr with
      | none => .leave (.prints (printNic vmi o s nic s.nextDevptr).printed)
      | some nextDevptr =>
        let s := printNic vmi o s nic nextDevptr
        if netListHead vmi o ≠ nextDevptr + ext o.netOff - ext o.devOff then .again s else .leave (.prints s.printed)

/-- Before the loop; a list head that cannot be read is zero. -/
def netStart : NetState :=
  let currentNetptr := netListHead vmi o - ext o.netOff
  ⟨(vmi.readAddrVa (currentNetptr + ext o.devOff)).getD 0, "mynic0".toList.map Char.toUInt8, []⟩

/-- How the snippet ends, if its loop leaves within so many turns. -/
def netDevices (turns : Nat) : Option NetRun := run (netTurn size vmi o) turns (netStart vmi o)

/-! ## The ring -/

def devNode (dev : UInt64) : UInt64 := dev + ext o.devListoff

def devBaseHead : UInt64 := vmi.initNet + ext o.devOff

/-- The devices are linked in a ring through `dev_base_head`, which is no device's own node, and each has a hardware
address that can be read. -/
structure DevRing (devices : List UInt64) : Prop where
  ring : Ring vmi.readAddrVa (devBaseHead vmi o) (devices.map (devNode o))
  head : devBaseHead vmi o ∉ devices.map (devNode o)
  address : ∀ dev ∈ devices, readDevAddr vmi o dev ≠ []

variable {size} {vmi} {o}

/-- **The loop's equation holds exactly at the head.** -/
theorem netHead_iff (nextDevptr : UInt64) :
    netListHead vmi o = nextDevptr + ext o.netOff - ext o.devOff ↔ nextDevptr = devBaseHead vmi o := by
  unfold netListHead devBaseHead
  generalize ext o.netOff = n
  generalize ext o.devOff = d
  constructor <;> grind

theorem netStart_devBaseHead : netListHead vmi o - ext o.netOff + ext o.devOff = devBaseHead vmi o := by
  unfold netListHead devBaseHead
  rw [UInt64.add_sub_cancel]

theorem devNode_sub (dev : UInt64) : devNode o dev - ext o.devListoff = dev := UInt64.add_sub_cancel dev _

/-- Where `z` is large enough a device is printed, whatever its address is. -/
theorem nicInfo_eq (hsize : 2 < size) (currentDevptr : UInt64) (ifname devAddr : List UInt8) :
    ∃ nic, nicInfo size vmi o currentDevptr ifname devAddr = some nic ∧ nic.devptr = currentDevptr := by
  unfold nicInfo
  rw [macText_eq hsize]
  exact ⟨_, rfl, rfl⟩

/-- **One iteration** prints the device of its node and goes to the next one, or leaves where that is the head. -/
theorem netTurn_next (hsize : 2 < size) {b : UInt64} {s : NetState}
    (haddr : readDevAddr vmi o (currentDevptr o s) ≠ []) (hnext : vmi.readAddrVa s.nextDevptr = some b) :
    ∃ nic, nic.devptr = currentDevptr o s ∧ netTurn size vmi o s =
      if b = devBaseHead vmi o then .leave (.prints (printNic vmi o s nic b).printed)
      else .again (printNic vmi o s nic b) := by
  have hread : ¬ (readDevAddr vmi o (currentDevptr o s)).length = 0 :=
    fun h => haddr (List.eq_nil_of_length_eq_zero h)
  obtain ⟨nic, hnic, hdev⟩ : ∃ nic, nicInfo size vmi o (currentDevptr o s) (netName vmi o s)
      (readDevAddr vmi o (currentDevptr o s)) = some nic ∧ nic.devptr = currentDevptr o s := nicInfo_eq hsize _ _ _
  refine ⟨nic, hdev, ?_⟩
  unfold netTurn
  dsimp only
  rw [if_neg hread, hnic, hnext]
  dsimp only
  rw [ite_not, if_congr (netHead_iff b) rfl rfl]

def PrintedNodes (o : NetOffsets) (nodes : List UInt64) (printed : List NicInfo) : Prop :=
  printed.map NicInfo.devptr = nodes.map fun node => node - ext o.devListoff

/-- The run ends with the devices of these nodes printed. -/
def PrintsNodes (o : NetOffsets) (nodes : List UInt64) (r : NetRun) : Prop :=
  ∃ nics, r = .prints nics ∧ PrintedNodes o nodes nics

/-- The loop is at the node `a`, with the devices of the nodes before it printed. -/
def AtNode (o : NetOffsets) (seen : List UInt64) (a : UInt64) (s : NetState) : Prop :=
  s.nextDevptr = a ∧ PrintedNodes o seen s.printed

theorem PrintedNodes.printNic {seen : List UInt64} {s : NetState} (h : PrintedNodes o seen s.printed) {nic : NicInfo}
    (hdev : nic.devptr = currentDevptr o s) (b : UInt64) :
    PrintedNodes o (seen ++ [s.nextDevptr]) (printNic vmi o s nic b).printed := by
  unfold PrintedNodes
  rw [List.map_append, ← h]
  exact List.map_append.trans (congrArg (s.printed.map NicInfo.devptr ++ [·]) hdev)

theorem netStart_nextDevptr {dev : UInt64} {devices : List UInt64} (h : DevRing vmi o (dev :: devices)) :
    (netStart vmi o).nextDevptr = devNode o dev := by
  unfold netStart
  dsimp only
  rw [netStart_devBaseHead, h.ring.1]
  rfl

/-- **The loop along the ring**, where `z` is large enough: one iteration for each device. -/
theorem DevRing.ends (hsize : 2 < size) {dev : UInt64} {devices : List UInt64}
    (h : DevRing vmi o (dev :: devices)) : ∃ nics,
      Ends (netTurn size vmi o) (netStart vmi o) devices.length (.prints nics) ∧
        nics.map NicInfo.devptr = dev :: devices := by
  have hgood : ∀ node ∈ (dev :: devices).map (devNode o), readDevAddr vmi o (node - ext o.devListoff) ≠ [] := by
    intro node hnode
    obtain ⟨d, hd, rfl⟩ := List.mem_map.1 hnode
    rw [devNode_sub]
    exact h.address d hd
  have hagain : ∀ seen a b s, readDevAddr vmi o (a - ext o.devListoff) ≠ [] → AtNode o seen a s →
      vmi.readAddrVa a = some b → b ≠ devBaseHead vmi o →
        ∃ s', netTurn size vmi o s = .again s' ∧ AtNode o (seen ++ [a]) b s' := by
    rintro seen _ b s haddr ⟨rfl, hseen⟩ hnext hb
    obtain ⟨nic, hdev, hturn⟩ := netTurn_next hsize haddr hnext
    exact ⟨_, hturn.trans (if_neg hb), rfl, hseen.printNic hdev b⟩
  have hleave : ∀ seen a s, readDevAddr vmi o (a - ext o.devListoff) ≠ [] → AtNode o seen a s →
      vmi.readAddrVa a = some (devBaseHead vmi o) →
        ∃ r, netTurn size vmi o s = .leave r ∧ PrintsNodes o (seen ++ [a]) r := by
    rintro seen _ s haddr ⟨rfl, hseen⟩ hnext
    obtain ⟨nic, hdev, hturn⟩ := netTurn_next hsize haddr hnext
    exact ⟨_, hturn.trans (if_pos rfl), _, rfl, hseen.printNic hdev _⟩
  obtain ⟨r, hends, nics, rfl, hprinted⟩ := Path.ends hagain hleave (devices.map (devNode o)) [] (devNode o dev)
    (netStart vmi o) h.ring.2 (fun hmem => h.head (List.mem_cons_of_mem _ hmem)) hgood
    ⟨netStart_nextDevptr h, rfl⟩
  rw [List.length_map] at hends
  refine ⟨nics, hends, hprinted.trans ?_⟩
  change ((dev :: devices).map (devNode o)).map _ = _
  rw [List.map_map]
  exact (List.map_congr_left fun d _ => devNode_sub d).trans (List.map_id _)

/-- **The first device with an address that can be read overruns** an array of two characters. -/
theorem DevRing.overruns (hsize : size ≤ 2) {dev : UInt64} {devices : List UInt64}
    (h : DevRing vmi o (dev :: devices)) : Ends (netTurn size vmi o) (netStart vmi o) 0 .overrun := by
  have hcurrent : currentDevptr o (netStart vmi o) = dev := by
    rw [currentDevptr, netStart_nextDevptr h, devNode_sub]
  have haddr : readDevAddr vmi o (currentDevptr o (netStart vmi o)) ≠ [] := by
    rw [hcurrent]
    exact h.address dev List.mem_cons_self
  refine .leave ?_
  unfold netTurn nicInfo
  dsimp only
  rw [if_neg fun hlen => haddr (List.eq_nil_of_length_eq_zero hlen), macText_overrun hsize haddr]
  rfl

end

/-- The snippet works on one device in each iteration, the `i`-th on the `i`-th, and ends after the last one. -/
structure VisitsOnce (size : Nat) (vmi : NetVmi) (o : NetOffsets) (devices : List UInt64) : Prop where
  visits : ∀ turns, devices.length ≤ turns →
    ∃ printed, netDevices size vmi o turns = some (.prints printed) ∧ printed.map NicInfo.devptr = devices
  goesOn : ∀ turns, turns < devices.length → netDevices size vmi o turns = none

/-- **Each device is visited once exactly where `z` has room for the NUL of two digits.** -/
theorem visits_once_iff {size : Nat} {vmi : NetVmi} {o : NetOffsets} {devices : List UInt64} (hn : devices ≠ [])
    (h : DevRing vmi o devices) : VisitsOnce size vmi o devices ↔ 2 < size := by
  obtain ⟨dev, devices, rfl⟩ := List.exists_cons_of_ne_nil hn
  constructor
  · intro hvisits
    by_contra hle
    obtain ⟨printed, hprinted, -⟩ := hvisits.visits _ le_rfl
    have hrun := (h.overruns (Nat.not_lt.1 hle)).run (dev :: devices).length (Nat.succ_pos _)
    cases hrun.symm.trans hprinted
  · intro hsize
    obtain ⟨nics, hends, hprinted⟩ := h.ends hsize
    exact ⟨fun turns hturns => ⟨nics, hends.run turns hturns, hprinted⟩,
      fun turns hturns => hends.run_none turns (Nat.le_of_lt_succ hturns)⟩

/-- **With `z` as it is no ring of devices is walked to its end.** -/
theorem devices_never_visited_once (vmi : NetVmi) (o : NetOffsets) (devices : List UInt64) (hn : devices ≠ [])
    (h : DevRing vmi o devices) : ¬ VisitsOnce zSize vmi o devices := by
  rw [visits_once_iff hn h]
  exact Nat.lt_irrefl 2

/-- Two devices, at 8192 and 12288, in the ring through the head at 4128. -/
def twoNics : NetVmi where
  initNet := 4096
  readAddrVa a := some ((([(4128, 8200), (8200, 12296), (12296, 4128)] : List (UInt64 × UInt64)).lookup a).getD 1)
  read32Va _ := some 0
  readStrVa _ := some []
  readVa _ _ := [0xde, 0xad, 0xbe, 0xef, 0x00, 0x01]

def twoNicOffsets : NetOffsets := ⟨-16, 32, 200, 208, 8, 24, 16⟩

theorem twoNics_ring : DevRing twoNics twoNicOffsets [8192, 12288] :=
  ⟨⟨by decide, by decide, show twoNics.readAddrVa 12296 = some 4128 by decide⟩, by decide,
    fun _ _ => List.cons_ne_nil _ _⟩

theorem devices_never_visited_once_two : ¬ VisitsOnce zSize twoNics twoNicOffsets [8192, 12288] :=
  devices_never_visited_once twoNics twoNicOffsets [8192, 12288] (by decide) twoNics_ring

/-- With one turn the snippet has overrun `z`. -/
theorem first_device_overruns : DevRing twoNics twoNicOffsets [8192, 12288] ∧
    netDevices zSize twoNics twoNicOffsets 1 = some .overrun ∧
    ¬ VisitsOnce zSize twoNics twoNicOffsets [8192, 12288] := by
  have hrun : netDevices zSize twoNics twoNicOffsets 1 = some .overrun := by decide
  refine ⟨twoNics_ring, hrun, fun h => ?_⟩
  have hnone := h.goesOn 1 (by decide)
  cases hrun.symm.trans hnone

end Hyperagents
