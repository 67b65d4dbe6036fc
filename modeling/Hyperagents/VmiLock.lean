import Hyperagents.CallTrace
/-!
# LibVMI under the VMI lock

A trace is scanned with the two mutexes its thread may hold (`lockStep`); the scan fails at a LibVMI call made without
the VMI lock.  Every call of the library passes but one: a mount that has to steal a slot asks for the name of the
guest before it takes any lock (`vmi_locked_iff`).
-/
namespace Hyperagents

open Runs

def HaAct.isVmi : HaAct → Bool
  | .vmi _ _ | .sync _ (.vmi _) => true
  | _ => false

/-- Which of the two mutexes a thread holds. -/
structure Held where
  vmi : Bool
  lk : Bool
  deriving DecidableEq, Repr

def lockStep (m : Held) : HaAct → Option Held
  | .lockVmi => if m.vmi then none else some { m with vmi := true }
  | .unlockVmi => if m.vmi then some { m with vmi := false } else none
  | .lockLk => if m.lk then none else some { m with lk := true }
  | .unlockLk => if m.lk then some { m with lk := false } else none
  | a => if a.isVmi && !m.vmi then none else some m

/-- A trace that starts with the mutexes `m` held, ends with `m'`, and calls LibVMI only under the VMI lock. -/
def Disciplined (m : Held) (t : List HaAct) (m' : Held) : Prop := t.foldlM lockStep m = some m'

/-! ## What a disciplined trace is -/

section

variable {m m₁ m₂ m' : Held} {t u : List HaAct} {a : HaAct}

theorem Disciplined.append (h : Disciplined m t m₁) (h' : Disciplined m₁ u m₂) : Disciplined m (t ++ u) m₂ := by
  unfold Disciplined
  rw [List.foldlM_append, h]
  exact h'

theorem Disciplined.cons (h : lockStep m a = some m₁) (h' : Disciplined m₁ t m₂) : Disciplined m (a :: t) m₂ := by
  unfold Disciplined
  rw [List.foldlM_cons, h]
  exact h'

theorem Disciplined.of_append (h : Disciplined m (t ++ u) m₂) : ∃ m₁, Disciplined m t m₁ ∧ Disciplined m₁ u m₂ := by
  unfold Disciplined at h
  rw [List.foldlM_append] at h
  exact Option.bind_eq_some_iff.1 h

/-- What a step does to the counts of a lock and of its unlock. -/
theorem lockStep_count (h : lockStep m a = some m₁) :
    [a].count .lockVmi + m.vmi.toNat = [a].count .unlockVmi + m₁.vmi.toNat ∧
      [a].count .lockLk + m.lk.toNat = [a].count .unlockLk + m₁.lk.toNat := by
  cases a <;> simp only [lockStep] at h <;> split at h <;> cases h
  case lockVmi.isFalse.refl hv => simp [Bool.eq_false_iff.2 hv]
  case unlockVmi.isTrue.refl hv => simp [hv]
  case lockLk.isFalse.refl hk => simp [Bool.eq_false_iff.2 hk]
  case unlockLk.isTrue.refl hk => simp [hk]
  all_goals exact ⟨rfl, rfl⟩

/-- A LibVMI call passes only with the VMI lock held. -/
theorem lockStep_vmi (h : lockStep m a = some m₁) (ha : a.isVmi = true) : m.vmi = true := by
  by_contra hv
  cases a with
  | vmi v c => simp [lockStep, HaAct.isVmi, hv] at h
  | sync v b =>
    cases b with
    | vmi c => simp [lockStep, HaAct.isVmi, hv] at h
    | _ => cases ha
  | _ => cases ha

theorem Disciplined.count : ∀ {t : List HaAct} {m : Held}, Disciplined m t m' →
    t.count .lockVmi + m.vmi.toNat = t.count .unlockVmi + m'.vmi.toNat ∧
      t.count .lockLk + m.lk.toNat = t.count .unlockLk + m'.lk.toNat
  | [], m, h => by
    cases h
    exact ⟨rfl, rfl⟩
  | a :: t, m, h => by
    obtain ⟨m₁, ha, ht⟩ := Option.bind_eq_some_iff.1
      (show (lockStep m a).bind (fun m₁ => t.foldlM lockStep m₁) = some m' from h)
    have hstep := lockStep_count ha
    have hrest := Disciplined.count (m := m₁) ht
    rw [← List.singleton_append]
    simp only [List.count_append]
    omega

/-- **Every LibVMI call of a disciplined trace is made under the VMI lock.** -/
theorem Disciplined.under (h : Disciplined ⟨false, false⟩ t m') {p : List HaAct} (hp : p ++ [a] <+: t)
    (ha : a.isVmi = true) : p.count .lockVmi = p.count .unlockVmi + 1 := by
  obtain ⟨q, rfl⟩ := hp
  obtain ⟨m₂, hpa, -⟩ := h.of_append
  obtain ⟨m₁, hp, hstep⟩ := hpa.of_append
  obtain ⟨m₃, hstep, -⟩ := Option.bind_eq_some_iff.1 hstep
  have hcount := hp.count.1
  rw [lockStep_vmi hstep ha] at hcount
  exact hcount

end

/-! ## The traces of the calls -/

section

variable {δ : Type} {shell : Shell δ} {env : MountEnv} {dev disk : String} {v : Vmi} {s s' : HaState δ} {k : Bool}

/-- What a flush does is under the lock its caller holds. -/
theorem disciplined_sync (v : Vmi) (t : List Act) (k : Bool) :
    Disciplined ⟨true, k⟩ (t.map (HaAct.sync v)) ⟨true, k⟩ := by
  induction t with
  | nil => rfl
  | cons a t ih =>
    refine .cons ?_ ih
    cases a <;> rfl

theorem disciplined_partition (base : String) (host : δ) :
    Disciplined ⟨false, k⟩ (partitionTrace shell env base dev v host) ⟨false, k⟩ := rfl

theorem disciplined_nbdUnmount : Disciplined ⟨false, k⟩ (nbdUnmountTrace shell dev v s) ⟨false, k⟩ := rfl

/-- A mount ends with the lock it took last given up, unless `do_sync` does not return. -/
theorem disciplined_nbdMount (k : Bool) (s : HaState δ) :
    ∃ m, Disciplined ⟨false, k⟩ (nbdMountTrace shell env dev v disk s) m ∧
      ∀ s', doNbdMount shell env dev v disk s = .ok s' → m = ⟨false, k⟩ := by
  have hsync := disciplined_sync v (syncTrace s.ghostImage env.sync s.globals (s.guestOf v)) k
  unfold nbdMountTrace
  cases hs : doSync s.ghostImage env.sync s.globals (s.guestOf v) with
  | none =>
    refine ⟨⟨true, k⟩, .cons rfl (.cons rfl (hsync.append rfl)), fun s' h => ?_⟩
    unfold doNbdMount at h
    dsimp only at h
    split at h
    · cases h
    · rename_i t hsome
      exact absurd (hs.symm.trans hsome) nofun
  | some r =>
    refine ⟨⟨false, k⟩, .cons rfl (.cons rfl (hsync.append (.cons rfl (.cons rfl ?_)))), fun _ _ => rfl⟩
    dsimp only
    split
    · rfl
    · exact disciplined_partition _ _

/-- The search ends with `lk` held exactly when it found a slot. -/
theorem disciplined_steal : ∀ (cs : List Timeval) (s : HaState δ) (m : Int × Slot),
    Disciplined ⟨false, false⟩ (stealTrace s.records cs m) ⟨false, (stealLoop s cs m).isSome⟩
  | [], s, m => rfl
  | c :: cs, s, m => by
    have hrecords : (s.emit .lockLk).records = s.records := rfl
    unfold stealTrace stealLoop
    dsimp only
    rw [hrecords]
    split
    · have hrest := disciplined_steal cs (((s.emit .lockLk).emit .unlockLk).emit (.sleep 1000))
        (s.records.victimPass c m)
      exact .cons rfl (.cons rfl (.cons rfl hrest))
    · rfl

theorem disciplined_release (dev : Int) (s : HaState δ) : ∃ m, Disciplined ⟨false, false⟩ (releaseTrace dev s) m ∧
    ∀ s', releaseMount dev s = .ok s' → m = ⟨false, false⟩ := by
  unfold releaseTrace
  split
  · rename_i hd
    dsimp only
    split
    · rename_i hc
      split
      · rename_i ho
        refine ⟨⟨true, false⟩, rfl, fun s' h => ?_⟩
        unfold releaseMount at h
        rw [dif_pos ⟨hc.1, hd⟩] at h
        dsimp only at h
        rw [if_pos hc.2, Records.owner_release, ho] at h
        cases h
      · exact ⟨⟨false, false⟩, rfl, fun _ _ => rfl⟩
    · exact ⟨⟨false, false⟩, rfl, fun _ _ => rfl⟩
  · exact ⟨⟨false, false⟩, rfl, fun _ _ => rfl⟩

theorem disciplined_status (s : HaState δ) : Disciplined ⟨true, false⟩ (statusTrace s) ⟨true, false⟩ := by
  unfold statusTrace
  generalize List.finRange DEVMAX = is
  induction is with
  | nil => rfl
  | cons i is ih =>
    cases ho : s.records.owner i with
    | none => rw [List.filterMap_cons_none (by rw [ho]; rfl)]; exact ih
    | some v => rw [List.filterMap_cons_some (by rw [ho]; rfl)]; exact .cons rfl ih

theorem disciplined_destroy (has : List HAConfig) :
    Disciplined ⟨false, false⟩ (has.flatMap destroyTrace) ⟨false, false⟩ := by
  induction has with
  | nil => rfl
  | cons ha has ih =>
    rw [List.flatMap_cons]
    exact Disciplined.append rfl ih

theorem disciplined_drop (base : String) (is : List Slot) (host : δ) :
    Disciplined ⟨false, false⟩ (dropTrace shell base is host) ⟨false, false⟩ := by
  induction is generalizing host with
  | nil => rfl
  | cons i is ih => exact .cons rfl (.cons rfl (ih _))

/-- A request that finds a slot of its VM or a free one. -/
theorem disciplined_request (h : s.records.lookup v ≠ none ∨ s.records.firstFree ≠ none) :
    ∃ m, Disciplined ⟨false, false⟩ (requestTrace shell env v disk s) m ∧
      ∀ i s', requestMount shell env v disk s = .ok (i, s') → m = ⟨false, false⟩ := by
  unfold requestTrace
  cases hl : s.records.lookup v with
  | some i => exact ⟨⟨false, false⟩, rfl, fun _ _ _ => rfl⟩
  | none =>
    cases hf : s.records.firstFree with
    | none => exact absurd h (by rw [hl, hf]; simp)
    | some i =>
      obtain ⟨m, hm, hret⟩ := @disciplined_nbdMount δ shell env (nbdDev i) disk v false
        { s with records := s.records.claim i v }
      refine ⟨m, hm, fun j s' hreq => ?_⟩
      unfold requestMount at hreq
      rw [hl, hf] at hreq
      obtain ⟨s₁, hmount, -⟩ := ok_of_bind hreq
      exact hret s₁ hmount

/-- A request that steals, after the one call before it takes a lock. -/
theorem disciplined_request_steal (hl : s.records.lookup v = none) (hf : s.records.firstFree = none) :
    ∃ t m, requestTrace shell env v disk s = .vmi v .getName :: t ∧ Disciplined ⟨false, false⟩ t m ∧
      ∀ i s', requestMount shell env v disk s = .ok (i, s') → m = ⟨false, false⟩ := by
  unfold requestTrace requestMount
  rw [hl, hf]
  have hsearch := disciplined_steal env.clocks (s.vmi v .getName) (0, 0)
  change Disciplined _ (stealTrace s.records env.clocks (0, 0)) _ at hsearch
  cases hs : stealLoop (s.vmi v .getName) env.clocks (0, 0) with
  | none =>
    rw [hs] at hsearch
    exact ⟨_, ⟨false, false⟩, rfl, hsearch.append rfl, nofun⟩
  | some r =>
    obtain ⟨i, s₁⟩ := r
    rw [hs] at hsearch
    obtain ⟨m, hm, hret⟩ := @disciplined_nbdMount δ shell env (nbdDev i) disk v true
      { doNbdUnmount shell (nbdDev i) v s₁ with records := (doNbdUnmount shell (nbdDev i) v s₁).records.reassign i v }
    dsimp only
    cases hmount : doNbdMount shell env (nbdDev i) v disk { doNbdUnmount shell (nbdDev i) v s₁ with
      records := (doNbdUnmount shell (nbdDev i) v s₁).records.reassign i v } with
    | error e => exact ⟨_, m, rfl, hsearch.append ((disciplined_nbdUnmount.append hm).append rfl), nofun⟩
    | ok s₂ =>
      rw [hret s₂ hmount] at hm
      exact ⟨_, ⟨false, false⟩, rfl, hsearch.append ((disciplined_nbdUnmount.append hm).append rfl), fun _ _ _ => rfl⟩

/-! ## Every call -/

/-- Each LibVMI call of the trace is made under the VMI lock, and a call that returns has given up each of the two
mutexes as often as it took it. -/
structure VmiLocked (shell : Shell δ) (s : HaState δ) (c : HaCall) : Prop where
  under : ∀ p a, p ++ [a] <+: callTrace shell s c → a.isVmi = true → p.count .lockVmi = p.count .unlockVmi + 1
  released : ∀ s', callResult shell s c = .ok s' →
    (callTrace shell s c).count .lockVmi = (callTrace shell s c).count .unlockVmi ∧
      (callTrace shell s c).count .lockLk = (callTrace shell s c).count .unlockLk

/-- A mount of an agent that holds no slot, with every slot's mutex locked. -/
def Steals (s : HaState δ) : HaCall → Prop
  | .op (.mountDisk n _) =>
    ∃ ha, s.agents n = some ha ∧ s.records.lookup ha.vmi = none ∧ s.records.firstFree = none
  | .op (.addAgent _ _ _ _ _) | .op (.unmountDisk _) | .printStatus | .destroyConfig _ | .destroyMain _ => False

theorem disciplined_call {c : HaCall} (h : ¬ Steals s c) : ∃ m, Disciplined ⟨false, false⟩ (callTrace shell s c) m ∧
    ∀ s', callResult shell s c = .ok s' → m = ⟨false, false⟩ := by
  cases c with
  | op o =>
    cases o with
    | addAgent n r d ok m =>
      cases ok with
      | false => exact ⟨⟨true, false⟩, rfl, nofun⟩
      | true => exact ⟨⟨false, false⟩, rfl, fun _ _ => rfl⟩
    | mountDisk n env =>
      simp only [callTrace]
      cases hn : s.agents n with
      | none => exact ⟨⟨false, false⟩, rfl, fun _ _ => rfl⟩
      | some ha =>
        have hfound : s.records.lookup ha.vmi ≠ none ∨ s.records.firstFree ≠ none := by
          by_contra hnot
          rw [not_or, not_not, not_not] at hnot
          exact h ⟨ha, hn, hnot⟩
        obtain ⟨m, hm, hret⟩ := @disciplined_request δ shell env ha.diskPath ha.vmi s hfound
        refine ⟨m, hm, fun s' hs' => ?_⟩
        obtain ⟨ha', i, u, hn', hreq, -⟩ := callResult_mountDisk hs'
        cases hn.symm.trans hn'
        exact hret i u hreq
    | unmountDisk n =>
      simp only [callTrace, callResult, unmountDisk]
      cases hn : s.agents n with
      | none => exact ⟨⟨false, false⟩, rfl, fun _ _ => rfl⟩
      | some ha => exact disciplined_release ha.mountdev s
  | printStatus => exact ⟨⟨false, false⟩, .cons rfl ((disciplined_status s).append rfl), fun _ _ => rfl⟩
  | destroyConfig ha => exact ⟨⟨false, false⟩, rfl, fun _ _ => rfl⟩
  | destroyMain names =>
    exact ⟨⟨false, false⟩, (disciplined_destroy _).append (disciplined_drop _ _ _), fun _ _ => rfl⟩

/-- **The one call out of line**: a mount that steals asks for the guest's name first, with no lock held. -/
theorem steals_trace {c : HaCall} (h : Steals s c) : ∃ v t m, callTrace shell s c = .vmi v .getName :: t ∧
    Disciplined ⟨false, false⟩ t m ∧ ∀ s', callResult shell s c = .ok s' → m = ⟨false, false⟩ := by
  cases c with
  | op o =>
    cases o with
    | mountDisk n env =>
      obtain ⟨ha, hn, hl, hf⟩ := h
      obtain ⟨t, m, ht, hm, hret⟩ := @disciplined_request_steal δ shell env ha.diskPath ha.vmi s hl hf
      refine ⟨ha.vmi, t, m, ?_, hm, fun s' hs' => ?_⟩
      · simp only [callTrace]
        rw [hn]
        exact ht
      · obtain ⟨ha', i, u, hn', hreq, -⟩ := callResult_mountDisk hs'
        cases hn.symm.trans hn'
        exact hret i u hreq
    | addAgent n r d ok m => cases h
    | unmountDisk n => cases h
  | printStatus => cases h
  | destroyConfig ha => cases h
  | destroyMain names => cases h

/-- **Every call gives its locks up** before it returns, one that steals included. -/
theorem locks_released {c : HaCall} (h : callResult shell s c = .ok s') :
    (callTrace shell s c).count .lockVmi = (callTrace shell s c).count .unlockVmi ∧
      (callTrace shell s c).count .lockLk = (callTrace shell s c).count .unlockLk := by
  by_cases hs : Steals s c
  · obtain ⟨v, t, m, ht, hm, hret⟩ := @steals_trace δ shell s c hs
    obtain rfl := hret s' h
    rw [ht, List.count_cons_of_ne (by exact nofun), List.count_cons_of_ne (by exact nofun),
      List.count_cons_of_ne (by exact nofun), List.count_cons_of_ne (by exact nofun)]
    exact hm.count
  · obtain ⟨m, hm, hret⟩ := @disciplined_call δ shell s c hs
    obtain rfl := hret s' h
    exact hm.count

end

/-- **LibVMI is used under the VMI lock in every call but a mount that steals.** -/
theorem vmi_locked_iff {δ : Type} (shell : Shell δ) (s : HaState δ) (c : HaCall) :
    VmiLocked shell s c ↔ ¬ Steals s c := by
  constructor
  · rintro ⟨hunder, -⟩ hs
    obtain ⟨v, t, m, ht, -⟩ := @steals_trace δ shell s c hs
    have hcount := hunder [] (.vmi v .getName) (by rw [ht]; exact ⟨t, rfl⟩) rfl
    cases hcount
  · intro hs
    obtain ⟨m, hm, -⟩ := @disciplined_call δ shell s c hs
    exact ⟨fun p a hp ha => hm.under hp ha, fun s' h => locks_released h⟩

/-- Seventeen agents, each of the first sixteen with its disk mounted. -/
def fullHouse : List HaOp :=
  (List.range 17).map (fun k => .addAgent ("vm" ++ toString k) "p" "d" true 0) ++
    (List.range 16).map (fun k => .mountDisk ("vm" ++ toString k) (quietMount k))

theorem steal_unlocked : ∃ s, Run (stepOf (haStep idleShell)) (.small ()) fullHouse s ∧
    callTrace idleShell s (.op (.mountDisk "vm16" (quietMount 60))) =
      [.vmi 17 .getName, .lockLk, .unlockLk, .sleep 1000] ∧
      ¬ VmiLocked idleShell s (.op (.mountDisk "vm16" (quietMount 60))) := by
  obtain ⟨s, hs, htrace⟩ := Option.map_eq_some_iff.1 (show (exec (haStep idleShell) (.small ()) fullHouse).map (fun s =>
    callTrace idleShell s (.op (.mountDisk "vm16" (quietMount 60)))) =
      some [.vmi 17 .getName, .lockLk, .unlockLk, .sleep 1000] by decide +kernel)
  refine ⟨s, run_of_exec hs, htrace, fun h => ?_⟩
  have hcount := h.under [] (.vmi 17 .getName) (by rw [htrace]; exact ⟨_, rfl⟩) rfl
  cases hcount

end Hyperagents
