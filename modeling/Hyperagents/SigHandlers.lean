import Hyperagents.Fallible
import Hyperagents.PyvmiRw
/-!
# Clearing signal handlers

`clear_sighandlers` in `5.py` goes through the 64 handlers of a task, reads each at the offset the configuration gives,
and writes zeros at offset 8.  What it reports rests on comparing the number read with a hex string, which are never
equal: every handler found set is reported as cleared (`sigLoop_ok`).  The reports are true exactly where the zeros
written cover what was set (`reports_true_iff`).
-/
namespace Hyperagents

open ByteMemory

/-- A value of Python's, to be compared. -/
inductive PyVal
  | int (n : Int)
  | str (s : PyStr)
  deriving DecidableEq, Repr

/-- `hex()` of a number that is not negative. -/
def pyHex (n : Int) : PyStr := py "0x" ++ (Nat.toDigits 16 n.toNat).map Char.toUInt8

structure SigEntry where
  newSigaction : PyStr
  result : Bool
  flags : Int
  restorer : Int
  mask : Int
  currentSigaction : Int
  deriving DecidableEq, Repr

def handlerVa (cfg : Cfg) (sighand : Int) (i : Nat) : Int :=
  cfg "u_sighand_sigaction" + sighand + i * cfg "u_sigaction_size"

/-- Where it is cleared, and read again. -/
def clearVa (cfg : Cfg) (sighand : Int) (i : Nat) : Int := 8 + sighand + i * cfg "u_sigaction_size"

section

variable (vmi : PyvmiRw) (cfg : Cfg)

/-- The loop over `n` signals from `i` on: what it adds to `ret`, and the memory after it. -/
def sigLoop (sighand : Int) : Nat → Nat → Memory → Except PyError (List (Nat × SigEntry) × Memory)
  | 0, _, m => .ok ([], m)
  | n + 1, i, m =>
    match vmi.readAddrVa m (handlerVa cfg sighand i) 0 with
    | .error e => if e = .valueError then .ok ([], m) else .error e
    | .ok currentSigaction =>
      if currentSigaction > 0 then do
        let currentFlags ← vmi.read64Va m (clearVa cfg sighand i + cfg "u_current_flags") 0
        let currentRestorer ← vmi.readAddrVa m (clearVa cfg sighand i + cfg "u_current_restorer") 0
        let currentMask ← vmi.read64Va m (clearVa cfg sighand i + cfg "u_current_mask") 0
        let m ← vmi.writeVa m (clearVa cfg sighand i) 0 (List.replicate 8 0)
        let newSigaction ← vmi.readAddrVa m (clearVa cfg sighand i) 0
        let newSigaction := pyHex newSigaction
        let result := if PyVal.int currentSigaction = PyVal.str newSigaction then false else true
        let (ret, m) ← sigLoop sighand n (i + 1) m
        return ((i, ⟨newSigaction, result, currentFlags, currentRestorer, currentMask, currentSigaction⟩) :: ret, m)
      else sigLoop sighand n (i + 1) m

def readSighand (taskStruct : Int) (m : Memory) : Except PyError Int :=
  match vmi.readAddrVa m (taskStruct + cfg "u_ts_sighand") 0 with
  | .error e => if e = .valueError then .ok 0 else .error e
  | .ok sighand => .ok sighand

/-- What `clear_sighandlers` returns, with the memory after it. -/
def clearSighandlers (taskStruct : Int) (m : Memory) : Except PyError (List (Nat × SigEntry) × Memory) := do
  let sighand ← readSighand vmi cfg taskStruct m
  if sighand = 0 then .error .valueError else sigLoop vmi cfg sighand 64 0 m

end

/-! ## The handlers found set -/

section

variable (readable takes : Int → Bool) (cfg : Cfg) (sighand : Int) (m : Memory)

/-- Clearing the handlers of these signals covers the address, with effect. -/
def clearedBy (found : List Nat) (x : Int) : Bool :=
  found.any fun j => takes (clearVa cfg sighand j) && decide (clearVa cfg sighand j ≤ x ∧ x < clearVa cfg sighand j + 8)

def clearedMem (found : List Nat) : Memory := fun x => if clearedBy takes cfg sighand found x then 0 else m x

/-- The signals found set among `n` from `i` on, and those found before: where the handler can be read and is not zero,
with the earlier ones cleared. -/
def foundFrom : Nat → Nat → List Nat → List Nat
  | 0, _, found => found
  | n + 1, i, found =>
    if readable (handlerVa cfg sighand i) then
      foundFrom n (i + 1)
        (if word (clearedMem takes cfg sighand m found) (handlerVa cfg sighand i) = 0 then found else found ++ [i])
    else found

def signalsFound : List Nat := foundFrom readable takes cfg sighand m 64 0 []

/-- What was set in the handlers found is covered by the zeros written. -/
def ZerosCover : Prop := ∀ i ∈ signalsFound readable takes cfg sighand m, ∀ k : Nat, k < 8 →
  m (handlerVa cfg sighand i + k) = 0 ∨
    clearedBy takes cfg sighand (signalsFound readable takes cfg sighand m) (handlerVa cfg sighand i + k) = true

/-- A handler reported as cleared is zero and was not; one that is as it was is not reported as cleared. -/
def ReportsTrue (m' : Memory) (ret : List (Nat × SigEntry)) : Prop := ∀ i e, (i, e) ∈ ret →
  (e.result = true →
    word m' (handlerVa cfg sighand i) ≠ word m (handlerVa cfg sighand i) ∧ word m' (handlerVa cfg sighand i) = 0) ∧
      (word m' (handlerVa cfg sighand i) = word m (handlerVa cfg sighand i) → e.result = false)

end

variable {vmi : PyvmiRw} {readable takes : Int → Bool} {cfg : Cfg} {sighand : Int} {m m' : Memory} {found : List Nat}
  {ret : List (Nat × SigEntry)}

theorem write_zeros (a x : Int) : write m a (List.replicate 8 0) x = if a ≤ x ∧ x < a + 8 then 0 else m x := by
  unfold write cover
  rw [List.getElem?_replicate]
  by_cases h : a ≤ x
  · by_cases h' : x < a + 8
    · have hin : (x - a).toNat < 8 := by omega
      simp [h, h', hin]
    · have hout : ¬ (x - a).toNat < 8 := by omega
      simp [h', hout]
  · simp [h]

theorem clearedMem_append (i : Nat) : clearedMem takes cfg sighand m (found ++ [i]) =
    if takes (clearVa cfg sighand i) then
      write (clearedMem takes cfg sighand m found) (clearVa cfg sighand i) (List.replicate 8 0)
    else clearedMem takes cfg sighand m found := by
  funext x
  unfold clearedMem clearedBy
  cases ht : takes (clearVa cfg sighand i) with
  | false => simp [ht]
  | true =>
    rw [if_pos rfl, write_zeros]
    by_cases hx : clearVa cfg sighand i ≤ x ∧ x < clearVa cfg sighand i + 8 <;> simp [ht, hx]

/-- **One signal found set** is cleared, where that has an effect, and reported with the result `True`. -/
theorem sigLoop_set (hvmi : vmi.ActsOn readable takes) {n i : Nat}
    (hread : readable (handlerVa cfg sighand i) = true)
    (hset : word (clearedMem takes cfg sighand m found) (handlerVa cfg sighand i) ≠ 0)
    (h : sigLoop vmi cfg sighand (n + 1) i (clearedMem takes cfg sighand m found) = .ok (ret, m')) :
    ∃ e ret', ret = (i, e) :: ret' ∧ e.result = true ∧
      sigLoop vmi cfg sighand n (i + 1) (clearedMem takes cfg sighand m (found ++ [i])) = .ok (ret', m') := by
  have hpos : (word (clearedMem takes cfg sighand m found) (handlerVa cfg sighand i) : Int) > 0 := by omega
  unfold sigLoop at h
  rw [hvmi.readAddr, if_pos hread] at h
  dsimp only at h
  rw [if_pos hpos] at h
  obtain ⟨flags, -, h⟩ := ok_of_bind h
  obtain ⟨restorer, -, h⟩ := ok_of_bind h
  obtain ⟨mask, -, h⟩ := ok_of_bind h
  obtain ⟨m₁, hwrite, h⟩ := ok_of_bind h
  obtain ⟨new, -, h⟩ := ok_of_bind h
  obtain ⟨⟨ret', m₂⟩, hrest, h⟩ := ok_of_bind h
  cases h
  have hm₁ := hvmi.write _ _ _ _ hwrite
  rw [← clearedMem_append] at hm₁
  exact ⟨_, ret', rfl, rfl, hm₁ ▸ hrest⟩

/-- **The loop**: each signal found set is reported, with the result `True`, and cleared where that has an effect. -/
theorem sigLoop_ok (hvmi : vmi.ActsOn readable takes) : ∀ (n i : Nat) (found : List Nat) (ret : List (Nat × SigEntry)),
    sigLoop vmi cfg sighand n i (clearedMem takes cfg sighand m found) = .ok (ret, m') →
      m' = clearedMem takes cfg sighand m (foundFrom readable takes cfg sighand m n i found) ∧
        found ++ ret.map Prod.fst = foundFrom readable takes cfg sighand m n i found ∧ ∀ p ∈ ret, p.2.result = true
  | 0, i, found, ret, h => by
    cases h
    exact ⟨rfl, List.append_nil _, fun p hp => by cases hp⟩
  | n + 1, i, found, ret, h => by
    unfold foundFrom
    by_cases hread : readable (handlerVa cfg sighand i) = true
    · rw [if_pos hread]
      by_cases hzero : word (clearedMem takes cfg sighand m found) (handlerVa cfg sighand i) = 0
      · rw [if_pos hzero]
        apply sigLoop_ok hvmi n (i + 1) found ret
        unfold sigLoop at h
        rw [hvmi.readAddr, if_pos hread, hzero] at h
        exact h
      · rw [if_neg hzero]
        obtain ⟨e, ret', rfl, he, hrest⟩ := sigLoop_set hvmi hread hzero h
        obtain ⟨hm, hfound, hall⟩ := sigLoop_ok hvmi n (i + 1) (found ++ [i]) ret' hrest
        refine ⟨hm, ?_, List.forall_mem_cons.2 ⟨he, hall⟩⟩
        rw [List.map_cons, List.append_cons]
        exact hfound
    · rw [if_neg hread]
      unfold sigLoop at h
      rw [hvmi.readAddr, if_neg hread] at h
      cases h
      exact ⟨rfl, List.append_nil _, fun p hp => by cases hp⟩

theorem word_ne_zero_of_clearedMem {a : Int} (h : word (clearedMem takes cfg sighand m found) a ≠ 0) :
    word m a ≠ 0 := by
  intro hzero
  refine h (word_eq_zero_iff.2 fun k hk => ?_)
  unfold clearedMem
  rw [word_eq_zero_iff.1 hzero k hk, ite_self]

theorem word_of_mem_foundFrom {i : Nat} : ∀ (n j : Nat) (found : List Nat),
    i ∈ foundFrom readable takes cfg sighand m n j found → i ∈ found ∨ word m (handlerVa cfg sighand i) ≠ 0
  | 0, _, _, h => .inl h
  | n + 1, j, found, h => by
    unfold foundFrom at h
    by_cases hread : readable (handlerVa cfg sighand j) = true
    · rw [if_pos hread] at h
      by_cases hzero : word (clearedMem takes cfg sighand m found) (handlerVa cfg sighand j) = 0
      · rw [if_pos hzero] at h
        exact word_of_mem_foundFrom n (j + 1) found h
      · rw [if_neg hzero] at h
        rcases word_of_mem_foundFrom n (j + 1) _ h with hfound | hset
        · rcases List.mem_append.1 hfound with hfound | hj
          · exact .inl hfound
          · rw [List.mem_singleton.1 hj]
            exact .inr (word_ne_zero_of_clearedMem hzero)
        · exact .inr hset
    · rw [if_neg hread] at h
      exact .inl h

theorem word_of_mem_signalsFound {i : Nat} (h : i ∈ signalsFound readable takes cfg sighand m) :
    word m (handlerVa cfg sighand i) ≠ 0 := by
  rcases word_of_mem_foundFrom _ _ _ h with hnil | hset
  · cases hnil
  · exact hset

theorem clearSighandlers_ok {taskStruct : Int} (hvmi : vmi.ActsOn readable takes)
    (hsighand : vmi.readAddrVa m (taskStruct + cfg "u_ts_sighand") 0 = .ok sighand)
    (h : clearSighandlers vmi cfg taskStruct m = .ok (ret, m')) :
    m' = clearedMem takes cfg sighand m (signalsFound readable takes cfg sighand m) ∧
      ret.map Prod.fst = signalsFound readable takes cfg sighand m ∧ ∀ p ∈ ret, p.2.result = true := by
  obtain ⟨sighand', hread, h⟩ := ok_of_bind h
  unfold readSighand at hread
  rw [hsighand] at hread
  cases hread
  by_cases h0 : sighand = 0
  · rw [if_pos h0] at h
    cases h
  · rw [if_neg h0] at h
    exact sigLoop_ok hvmi 64 0 [] ret h

/-! ## Whether the reports are true -/

theorem word_clearedMem_eq_zero_iff {a : Int} : word (clearedMem takes cfg sighand m found) a = 0 ↔
    ∀ k : Nat, k < 8 → m (a + k) = 0 ∨ clearedBy takes cfg sighand found (a + k) = true := by
  rw [word_eq_zero_iff]
  refine forall₂_congr fun k _ => ?_
  unfold clearedMem
  cases clearedBy takes cfg sighand found (a + k) <;> simp

theorem reports_true_iff_cover {taskStruct : Int} (hvmi : vmi.ActsOn readable takes)
    (hsighand : vmi.readAddrVa m (taskStruct + cfg "u_ts_sighand") 0 = .ok sighand)
    (hret : clearSighandlers vmi cfg taskStruct m = .ok (ret, m')) :
    ReportsTrue cfg sighand m m' ret ↔ ZerosCover readable takes cfg sighand m := by
  obtain ⟨rfl, hfound, hall⟩ := clearSighandlers_ok hvmi hsighand hret
  constructor
  · intro htrue i hi
    rw [← hfound] at hi
    obtain ⟨⟨_, e⟩, hmem, rfl⟩ := List.mem_map.1 hi
    exact word_clearedMem_eq_zero_iff.1 ((htrue _ e hmem).1 (hall _ hmem)).2
  · intro hcover i e hmem
    have hi : i ∈ signalsFound readable takes cfg sighand m := hfound ▸ List.mem_map_of_mem (f := Prod.fst) hmem
    have hset := word_of_mem_signalsFound hi
    have hzero := word_clearedMem_eq_zero_iff.2 (hcover i hi)
    rw [hzero]
    exact ⟨fun _ => ⟨hset.symm, rfl⟩, fun heq => absurd heq.symm hset⟩

theorem clearVa_apart (hsize : 8 ≤ cfg "u_sigaction_size") (sighand : Int) {i j : Nat} (h : i < j) :
    clearVa cfg sighand i + 8 ≤ clearVa cfg sighand j := by
  have hsize' : 0 ≤ cfg "u_sigaction_size" := by omega
  have hmul := Int.mul_le_mul_of_nonneg_right (show (i : Int) + 1 ≤ j by omega) hsize'
  rw [Int.add_mul] at hmul
  unfold clearVa
  omega

theorem clearVa_eq_of_mem (hsize : 8 ≤ cfg "u_sigaction_size") {i j : Nat} {x : Int}
    (hi : clearVa cfg sighand i ≤ x ∧ x < clearVa cfg sighand i + 8)
    (hj : clearVa cfg sighand j ≤ x ∧ x < clearVa cfg sighand j + 8) : i = j := by
  rcases Nat.lt_trichotomy i j with hlt | heq | hgt
  · have := clearVa_apart hsize sighand hlt
    omega
  · exact heq
  · have := clearVa_apart hsize sighand hgt
    omega

/-- With the handlers read where they are cleared each needs its own write. -/
theorem zerosCover_iff_takes (hoff : cfg "u_sighand_sigaction" = 8) (hsize : 8 ≤ cfg "u_sigaction_size") :
    ZerosCover readable takes cfg sighand m ↔
      ∀ i ∈ signalsFound readable takes cfg sighand m, takes (handlerVa cfg sighand i) = true := by
  have hva : ∀ i, handlerVa cfg sighand i = clearVa cfg sighand i := by
    intro i
    unfold handlerVa clearVa
    rw [hoff]
  refine forall₂_congr fun i hi => ?_
  constructor
  · intro hcover
    by_contra htakes
    refine word_of_mem_signalsFound hi (word_eq_zero_iff.2 fun k hk => ?_)
    rcases hcover k hk with hzero | hcleared
    · exact hzero
    · obtain ⟨j, -, hj⟩ := List.any_eq_true.1 hcleared
      rw [Bool.and_eq_true, decide_eq_true_eq, hva i] at hj
      have hij := clearVa_eq_of_mem (i := i) (x := clearVa cfg sighand i + k) hsize ⟨by omega, by omega⟩ hj.2
      rw [hva i, hij] at htakes
      exact absurd hj.1 htakes
  · intro htakes k hk
    refine .inr (List.any_eq_true.2 ⟨i, hi, ?_⟩)
    rw [Bool.and_eq_true, decide_eq_true_eq, ← hva i]
    exact ⟨htakes, by omega, by omega⟩

/-- **The reports are true exactly where the zeros written cover what was set**: in general byte by byte, and with the
handlers read where they are cleared where every write takes effect. -/
theorem reports_true_iff (vmi : PyvmiRw) (readable takes : Int → Bool) (cfg : Cfg) (taskStruct sighand : Int)
    (m m' : Memory) (ret : List (Nat × SigEntry)) (hvmi : vmi.ActsOn readable takes)
    (hsighand : vmi.readAddrVa m (taskStruct + cfg "u_ts_sighand") 0 = .ok sighand)
    (hret : clearSighandlers vmi cfg taskStruct m = .ok (ret, m')) :
    (ReportsTrue cfg sighand m m' ret ↔ ZerosCover readable takes cfg sighand m) ∧
      (cfg "u_sighand_sigaction" = 8 → 8 ≤ cfg "u_sigaction_size" → (ReportsTrue cfg sighand m m' ret ↔
        ∀ i ∈ signalsFound readable takes cfg sighand m, takes (handlerVa cfg sighand i) = true)) := by
  have hcover := reports_true_iff_cover hvmi hsighand hret
  exact ⟨hcover, fun hoff hsize => hcover.trans (zerosCover_iff_takes hoff hsize)⟩

/-! ## A write without effect -/

/-- A task at 0 with its handlers at 64; those of the signals 0 and 1 are 7 and 9.  No others can be read. -/
def twoHandlers : Memory := fun x => if x = 0 then 64 else if x = 72 then 7 else if x = 104 then 9 else 0

def handlerCfg : Cfg := fun k => (([("u_ts_sighand", 0), ("u_sighand_sigaction", 8), ("u_sigaction_size", 32),
  ("u_current_flags", 8), ("u_current_restorer", 16), ("u_current_mask", 24)] : List (String × Int)).lookup k).getD 0

/-- Clearing the first handler has no effect, clearing the second has. -/
def stuckGuest : PyvmiRw := byteGuest (fun x => decide (x < 136)) fun x => decide (104 ≤ x)

def twoReports : List (Nat × SigEntry) := [(0, ⟨py "0x7", true, 0, 0, 0, 7⟩), (1, ⟨py "0x0", true, 0, 0, 0, 9⟩)]

theorem stuckGuest_reports : clearSighandlers stuckGuest handlerCfg 0 twoHandlers =
    .ok (twoReports, write twoHandlers 104 (List.replicate 8 0)) := by
  rfl

/-- Both handlers are reported as cleared, and the first is as it was. -/
theorem stuck_handler_reported : clearSighandlers stuckGuest handlerCfg 0 twoHandlers =
      .ok (twoReports, write twoHandlers 104 (List.replicate 8 0)) ∧
    ¬ ReportsTrue handlerCfg 64 twoHandlers (write twoHandlers 104 (List.replicate 8 0)) twoReports := by
  refine ⟨stuckGuest_reports, fun htrue => ?_⟩
  exact absurd rfl ((htrue 0 _ List.mem_cons_self).1 rfl).1

theorem reports_true_iff_stuck :
    (ReportsTrue handlerCfg 64 twoHandlers (write twoHandlers 104 (List.replicate 8 0)) twoReports ↔
      ZerosCover (fun x => decide (x < 136)) (fun x => decide (104 ≤ x)) handlerCfg 64 twoHandlers) ∧
        (handlerCfg "u_sighand_sigaction" = 8 → 8 ≤ handlerCfg "u_sigaction_size" →
          (ReportsTrue handlerCfg 64 twoHandlers (write twoHandlers 104 (List.replicate 8 0)) twoReports ↔
            ∀ i ∈ signalsFound (fun x => decide (x < 136)) (fun x => decide (104 ≤ x)) handlerCfg 64 twoHandlers,
              decide (104 ≤ handlerVa handlerCfg 64 i) = true)) :=
  reports_true_iff stuckGuest _ _ handlerCfg 0 64 twoHandlers _ twoReports (byteGuest_actsOn _ _) rfl
    stuckGuest_reports

end Hyperagents
