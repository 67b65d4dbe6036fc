import Hyperagents.SigHandlers
/-!
# Clearing signal handlers twice

A second run of `clear_sighandlers` writes zeros where there are zeros already: it leaves the guest as the first did,
and reports the signals whose handlers the first did not clear, whatever the first said of them.  So a second run
reports nothing exactly when the reports of the first are true (`cleared_twice`).
-/
namespace Hyperagents

open ByteMemory

variable {vmi : PyvmiRw} {readable takes : Int → Bool} {cfg : Cfg} {sighand : Int} {m : Memory}
  {found all : List Nat}

theorem clearedBy_mono (hsub : found ⊆ all) {x : Int} (h : clearedBy takes cfg sighand found x = true) :
    clearedBy takes cfg sighand all x = true := by
  obtain ⟨j, hj, hx⟩ := List.any_eq_true.1 h
  exact List.any_eq_true.2 ⟨j, hsub hj, hx⟩

/-- What is clear stays so when more is cleared. -/
theorem word_clearedMem_mono (hsub : found ⊆ all) {a : Int} (h : word (clearedMem takes cfg sighand m found) a = 0) :
    word (clearedMem takes cfg sighand m all) a = 0 := by
  rw [word_clearedMem_eq_zero_iff] at h ⊢
  exact fun k hk => (h k hk).imp_right (clearedBy_mono hsub)

/-- **Clearing again what was cleared changes nothing.** -/
theorem clearedMem_again (hsub : found ⊆ all) :
    clearedMem takes cfg sighand (clearedMem takes cfg sighand m all) found = clearedMem takes cfg sighand m all := by
  funext x
  show (if clearedBy takes cfg sighand found x then 0 else clearedMem takes cfg sighand m all x) = _
  cases hx : clearedBy takes cfg sighand found x with
  | false => rfl
  | true =>
    show 0 = if clearedBy takes cfg sighand all x then 0 else m x
    rw [if_pos (clearedBy_mono hsub hx)]

theorem subset_foundFrom : ∀ (n i : Nat) (found : List Nat),
    found ⊆ foundFrom readable takes cfg sighand m n i found
  | 0, _, _ => List.Subset.refl _
  | n + 1, i, found => by
    unfold foundFrom
    split
    · split
      · exact subset_foundFrom n (i + 1) found
      · exact fun _ hj => subset_foundFrom n (i + 1) _ (List.mem_append_left [i] hj)
    · exact List.Subset.refl _

/-- Whether a handler is set still in a memory. -/
def stillSet (cfg : Cfg) (sighand : Int) (m : Memory) (i : Nat) : Bool := word m (handlerVa cfg sighand i) != 0

/-- The loop over a memory in which `all` was cleared finds those of `all` that are still set. -/
theorem foundFrom_cleared : ∀ (n i : Nat) (found : List Nat),
    foundFrom readable takes cfg sighand m n i found = all →
      foundFrom readable takes cfg sighand (clearedMem takes cfg sighand m all) n i
        (found.filter (stillSet cfg sighand (clearedMem takes cfg sighand m all))) =
          all.filter (stillSet cfg sighand (clearedMem takes cfg sighand m all))
  | 0, _, found, h => by
    cases h
    rfl
  | n + 1, i, found, h => by
    have hsub : found ⊆ all := h ▸ subset_foundFrom (n + 1) i found
    unfold foundFrom at h ⊢
    rw [clearedMem_again fun _ hj => hsub (List.mem_of_mem_filter hj)]
    split
    · rename_i hread
      rw [if_pos hread] at h
      by_cases hset : word (clearedMem takes cfg sighand m all) (handlerVa cfg sighand i) = 0
      · rw [if_pos hset]
        have hskip : stillSet cfg sighand (clearedMem takes cfg sighand m all) i = false := by simp [stillSet, hset]
        split at h
        · exact foundFrom_cleared n (i + 1) found h
        · have hrest := foundFrom_cleared n (i + 1) (found ++ [i]) h
          rw [List.filter_append, List.filter_cons_of_neg (by rw [hskip]; exact Bool.false_ne_true)] at hrest
          rwa [List.filter_nil, List.append_nil] at hrest
      · -- What is set still was set when the first run came to it.
        have hfirst : word (clearedMem takes cfg sighand m found) (handlerVa cfg sighand i) ≠ 0 := fun hzero =>
          hset (word_clearedMem_mono hsub hzero)
        have hkeep : stillSet cfg sighand (clearedMem takes cfg sighand m all) i = true := by simp [stillSet, hset]
        rw [if_neg hset]
        rw [if_neg hfirst] at h
        have hrest := foundFrom_cleared n (i + 1) (found ++ [i]) h
        rwa [List.filter_append, List.filter_cons_of_pos hkeep, List.filter_nil] at hrest
    · rename_i hread
      rw [if_neg hread] at h
      rw [h]

/-- **A second run** leaves the guest as it is, and reports what the first left set: nothing, exactly when the reports
of the first are true. -/
theorem cleared_twice (vmi : PyvmiRw) (readable takes : Int → Bool) (cfg : Cfg) (taskStruct sighand : Int)
    (m m' m'' : Memory) (ret ret' : List (Nat × SigEntry)) (hvmi : vmi.ActsOn readable takes)
    (hsighand : vmi.readAddrVa m (taskStruct + cfg "u_ts_sighand") 0 = .ok sighand)
    (hret : clearSighandlers vmi cfg taskStruct m = .ok (ret, m'))
    (hsighand' : vmi.readAddrVa m' (taskStruct + cfg "u_ts_sighand") 0 = .ok sighand)
    (hagain : clearSighandlers vmi cfg taskStruct m' = .ok (ret', m'')) :
    m'' = m' ∧ ret'.map Prod.fst = (ret.map Prod.fst).filter (stillSet cfg sighand m') ∧
      (ret' = [] ↔ ReportsTrue cfg sighand m m' ret) := by
  obtain ⟨hm', hfound, -⟩ := clearSighandlers_ok hvmi hsighand hret
  obtain ⟨hm'', hfound', -⟩ := clearSighandlers_ok hvmi hsighand' hagain
  have hsame : signalsFound readable takes cfg sighand m' =
      (signalsFound readable takes cfg sighand m).filter (stillSet cfg sighand m') := by
    rw [hm']
    exact foundFrom_cleared 64 0 [] rfl
  rw [hsame] at hfound' hm''
  refine ⟨?_, by rw [hfound, hfound'], ?_⟩
  · rw [hm'', hm']
    exact clearedMem_again List.filter_sublist.subset
  · have hnil : ret' = [] ↔ ∀ i ∈ signalsFound readable takes cfg sighand m, word m' (handlerVa cfg sighand i) = 0 := by
      rw [← List.map_eq_nil_iff (f := Prod.fst), hfound', List.filter_eq_nil_iff]
      simp [stillSet]
    rw [hnil, reports_true_iff_cover hvmi hsighand hret, hm']
    exact forall₂_congr fun i _ => word_clearedMem_eq_zero_iff

/-- The second run, where clearing the first handler still has no effect. -/
def stuckReport : List (Nat × SigEntry) := [(0, ⟨py "0x7", true, 0, 0, 0, 7⟩)]

theorem cleared_twice_stuck :
    clearSighandlers stuckGuest handlerCfg 0 (write twoHandlers 104 (List.replicate 8 0)) =
      .ok (stuckReport, write twoHandlers 104 (List.replicate 8 0)) ∧
    ¬ ReportsTrue handlerCfg 64 twoHandlers (write twoHandlers 104 (List.replicate 8 0)) twoReports := by
  have hagain : clearSighandlers stuckGuest handlerCfg 0 (write twoHandlers 104 (List.replicate 8 0)) =
      .ok (stuckReport, write twoHandlers 104 (List.replicate 8 0)) := rfl
  obtain ⟨-, -, hsilent⟩ := cleared_twice stuckGuest _ _ handlerCfg 0 64 twoHandlers _ _ twoReports stuckReport
    (byteGuest_actsOn _ _) rfl stuckGuest_reports rfl hagain
  exact ⟨hagain, fun htrue => List.cons_ne_nil _ _ (hsilent.2 htrue)⟩

end Hyperagents
