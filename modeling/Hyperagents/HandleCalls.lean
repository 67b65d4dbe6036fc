import Hyperagents.HandleLeases
import Hyperagents.CallTrace
/-!
# The life of a handle

`add_agent` opens a LibVMI handle, every other call uses handles, and the destructors close the handles of the agents
they find.  A record keeps the handle it was taken for, also when the name of its agent has been registered again.  So
over the whole life of a HAMain a handle is opened once and before its first use, is never used after it was closed,
and is closed exactly where its name was not registered again (`handle_life`).
-/
namespace Hyperagents

open Runs

/-- A call on a handle that is open, and stays open. -/
def VmiCall.isUse : VmiCall → Bool
  | .initComplete | .destroy => false
  | .getVmid | .getName | .getOstype | .pauseVm | .resumeVm | .translateKsym2v _ | .read8Va _ | .read64Va _ => true
  | .write8Va _ _ _ | .getVcpureg _ _ | .registerEvent | .clearEvent | .eventsListen => true

/-! ## A flush -/

def Act.isUse : Act → Bool
  | .vmi c => c.isUse
  | .int3 _ _ | .step _ | .guest _ _ | .system _ => true

def OnlyUses (t : List Act) : Prop := ∀ a ∈ t, a.isUse = true

section

variable {t u : List Act} {a : Act} {s : SyncState}

@[simp] theorem onlyUses_nil : OnlyUses [] := List.forall_mem_nil _

@[simp] theorem onlyUses_cons : OnlyUses (a :: t) ↔ a.isUse = true ∧ OnlyUses t := List.forall_mem_cons

@[simp] theorem onlyUses_append : OnlyUses (t ++ u) ↔ OnlyUses t ∧ OnlyUses u := List.forall_mem_append

theorem printRegs_uses : OnlyUses (printRegs s).trace ↔ OnlyUses s.trace := by
  simp [printRegs, Act.isUse, VmiCall.isUse]

theorem countInt_uses (e : Int3) : OnlyUses (countInt e s).trace ↔ OnlyUses s.trace := by
  simp [countInt, Act.isUse, VmiCall.isUse]

theorem intPhase_uses (found : Option Bp) (e : Int3) : OnlyUses (intPhase found e s).1.trace ↔ OnlyUses s.trace := by
  cases found with
  | none => rfl
  | some b =>
    cases b with
    | qworko =>
      simp only [intPhase, atQworko]
      split
      · split <;> simp [Act.isUse, VmiCall.isUse]
      · rfl
    | dworkBack => exact printRegs_uses
    | _ => rfl

theorem intCbFront_uses (e : Int3) : OnlyUses (intCbFront e s).1.trace ↔ OnlyUses s.trace := by
  have hphase := intPhase_uses (s := countInt e s) (s.g.find e.regs.rip) e
  rw [countInt_uses] at hphase
  simpa [intCbFront, countInt_find, Act.isUse, VmiCall.isUse] using hphase

theorem stepCbFront_uses (vcpu : Nat) : OnlyUses (stepCbFront vcpu s).trace ↔ OnlyUses s.trace := by
  unfold stepCbFront
  dsimp only
  split <;> simp [Act.isUse, VmiCall.isUse]

theorem tick_uses (ghostImage : String) (vmid : UInt64) (t : Tick) :
    OnlyUses (tick ghostImage vmid s t).trace ↔ OnlyUses s.trace := by
  cases t with
  | int3 e => simp [tick, intCbFront_uses, Act.isUse]
  | step v => simp [tick, stepCbFront_uses, Act.isUse]
  | guest a b => simp [tick, Act.isUse]
  | ret ok => cases ok <;> cases ha : s.attached <;> simp [tick, afterListen, ha, Act.isUse, VmiCall.isUse]

theorem runTicks_uses (ghostImage : String) (vmid : UInt64) (ts : List Tick) :
    OnlyUses (runTicks ghostImage vmid s ts).trace ↔ OnlyUses s.trace := by
  induction ts using List.reverseRecOn with
  | nil => rfl
  | append_singleton ts t ih => rw [runTicks_snoc, tick_uses, ih]

theorem installed_uses (c : SyncCall) (g : Globals) (guest : Guest) : OnlyUses (installed c g guest).trace := by
  simp [installed, setKaslr, install, installOrder, patch, lookupSym, Act.isUse, VmiCall.isUse]

theorem listening_uses (c : SyncCall) (g : Globals) (guest : Guest) : OnlyUses (listening c g guest).trace := by
  have h := installed_uses c g guest
  simpa [listening, startEvents, Act.isUse, VmiCall.isUse] using h

theorem guestWrites_uses (ws : List (Addr × Byte)) : OnlyUses (s.guestWrites ws).trace ↔ OnlyUses s.trace := by
  induction ws generalizing s with
  | nil => rfl
  | cons w ws ih =>
    refine ih.trans ?_
    simp [Act.isUse]

theorem replaceMemory_uses (c : SyncCall) (bs : List Bp) :
    OnlyUses (bs.foldl (replaceByte c) s).trace ↔ OnlyUses s.trace := by
  induction bs generalizing s with
  | nil => rfl
  | cons b bs ih =>
    refine ih.trans ?_
    simp [replaceByte, guestWrites_uses, Act.isUse, VmiCall.isUse]

theorem finish_uses (c : SyncCall) : OnlyUses (finish c s).trace ↔ OnlyUses s.trace := by
  simp [finish, printRegs_uses, replaceMemory, replaceMemory_uses, Act.isUse, VmiCall.isUse]

end

/-- **A flush** neither opens a handle nor closes one. -/
theorem syncTrace_uses (ghostImage : String) (c : SyncCall) (g : Globals) (guest : Guest) :
    OnlyUses (syncTrace ghostImage c g guest) := by
  unfold syncTrace
  cases h : doSync ghostImage c g guest with
  | none => exact (runTicks_uses _ _ _).2 (listening_uses c g guest)
  | some r =>
    obtain ⟨ret, t⟩ := r
    show OnlyUses t.trace
    by_cases hfn : resolved c g .dwork = 0
    · rw [doSync_exit hfn] at h
      cases h
      exact installed_uses c g guest
    · obtain ⟨-, used, -, rfl, -⟩ := doSync_loop hfn h
      exact (finish_uses c).2 ((runTicks_uses _ _ _).2 (listening_uses c g guest))

/-! ## The calls on a handle -/

def HaAct.call : HaAct → Option (Vmi × VmiCall)
  | .vmi v c | .sync v (.vmi c) => some (v, c)
  | .sync _ (.int3 _ _) | .sync _ (.step _) | .sync _ (.guest _ _) | .sync _ (.system _) => none
  | .lockVmi | .unlockVmi | .lockLk | .unlockLk | .sleep _ | .system _ _ => none

def callsOn (v : Vmi) (t : List HaAct) : List VmiCall :=
  t.filterMap fun a => a.call.bind fun p => if p.1 = v then some p.2 else none

theorem callsOn_append (v : Vmi) (t u : List HaAct) : callsOn v (t ++ u) = callsOn v t ++ callsOn v u :=
  List.filterMap_append

/-- LibVMI is called only to use handles that were opened. -/
def UsesOnly (handles : Vmi → Option String) (t : List HaAct) : Prop :=
  ∀ a ∈ t, ∀ v c, a.call = some (v, c) → c.isUse = true ∧ handles v ≠ none

section

variable {handles : Vmi → Option String} {t u : List HaAct} {a : HaAct}

@[simp] theorem usesOnly_nil : UsesOnly handles [] := List.forall_mem_nil _

@[simp] theorem usesOnly_cons : UsesOnly handles (a :: t) ↔
    (∀ v c, a.call = some (v, c) → c.isUse = true ∧ handles v ≠ none) ∧ UsesOnly handles t := List.forall_mem_cons

@[simp] theorem usesOnly_append : UsesOnly handles (t ++ u) ↔ UsesOnly handles t ∧ UsesOnly handles u :=
  List.forall_mem_append

theorem mem_callsOn {v : Vmi} {c : VmiCall} : c ∈ callsOn v t ↔ ∃ a ∈ t, a.call = some (v, c) := by
  unfold callsOn
  rw [List.mem_filterMap]
  constructor
  · rintro ⟨a, ha, hc⟩
    obtain ⟨⟨w, c'⟩, hcall, hw⟩ := Option.bind_eq_some_iff.1 hc
    split at hw
    · rename_i hv
      cases hw
      cases hv
      exact ⟨a, ha, hcall⟩
    · cases hw
  · rintro ⟨a, ha, hc⟩
    exact ⟨a, ha, by simp [hc]⟩

theorem UsesOnly.isUse (h : UsesOnly handles t) {v : Vmi} {c : VmiCall} (hc : c ∈ callsOn v t) : c.isUse = true := by
  obtain ⟨a, ha, hcall⟩ := mem_callsOn.1 hc
  exact (h a ha v c hcall).1

theorem UsesOnly.unopened (h : UsesOnly handles t) {v : Vmi} (hv : handles v = none) : callsOn v t = [] := by
  refine List.eq_nil_iff_forall_not_mem.2 fun c hc => ?_
  obtain ⟨a, ha, hcall⟩ := mem_callsOn.1 hc
  exact (h a ha v c hcall).2 hv

end

section

variable {δ : Type} {shell : Shell δ} {handles : Vmi → Option String} {env : MountEnv} {dev disk : String} {v : Vmi}
  {s s' : HaState δ}

theorem OnlyUses.sync (hv : handles v ≠ none) {t : List Act} (ht : OnlyUses t) :
    UsesOnly handles (t.map (HaAct.sync v)) := by
  intro a ha w c hcall
  obtain ⟨b, hb, rfl⟩ := List.mem_map.1 ha
  cases b with
  | vmi c' =>
    cases hcall
    exact ⟨ht _ hb, hv⟩
  | _ => cases hcall

theorem partitionTrace_uses (hv : handles v ≠ none) (base : String) (host : δ) :
    UsesOnly handles (partitionTrace shell env base dev v host) := by
  simp [partitionTrace, HaAct.call, VmiCall.isUse, hv]

theorem nbdMountTrace_uses (hv : handles v ≠ none) (s : HaState δ) :
    UsesOnly handles (nbdMountTrace shell env dev v disk s) := by
  have hsync := OnlyUses.sync hv (syncTrace_uses s.ghostImage env.sync s.globals (s.guestOf v))
  unfold nbdMountTrace
  cases doSync s.ghostImage env.sync s.globals (s.guestOf v) with
  | none => simp [HaAct.call, VmiCall.isUse, hv, hsync]
  | some r =>
    simp only [usesOnly_cons, usesOnly_append, HaAct.call, hsync]
    split <;> simp [VmiCall.isUse, hv, partitionTrace_uses]

theorem nbdUnmountTrace_uses (hv : handles v ≠ none) (s : HaState δ) :
    UsesOnly handles (nbdUnmountTrace shell dev v s) := by
  simp [nbdUnmountTrace, HaAct.call, VmiCall.isUse, hv]

theorem stealTrace_uses (rs : Records) (cs : List Timeval) (m : Int × Slot) :
    UsesOnly handles (stealTrace rs cs m) := by
  induction cs generalizing m with
  | nil => exact usesOnly_nil
  | cons c cs ih =>
    unfold stealTrace
    dsimp only
    split <;> simp [HaAct.call, ih]

/-- A request uses the handle it is made for. -/
theorem requestTrace_uses (hv : handles v ≠ none) (s : HaState δ) :
    UsesOnly handles (requestTrace shell env v disk s) := by
  unfold requestTrace
  split
  · exact usesOnly_nil
  · split
    · exact nbdMountTrace_uses hv _
    · simp only [usesOnly_cons, usesOnly_append, HaAct.call]
      refine ⟨fun w c h => ?_, stealTrace_uses _ _ _, ?_⟩
      · cases h
        exact ⟨rfl, hv⟩
      · split
        · exact usesOnly_nil
        · rename_i i s₁ _
          simp only [usesOnly_append]
          refine ⟨⟨nbdUnmountTrace_uses hv _, nbdMountTrace_uses hv _⟩, ?_⟩
          split <;> simp [HaAct.call]

/-- A release uses the handle in the record. -/
theorem releaseTrace_uses (howner : ∀ i w, s.records.owner i = some w → handles w ≠ none) (d : Int) :
    UsesOnly handles (releaseTrace d s) := by
  unfold releaseTrace
  split
  · dsimp only
    split
    · split
      · simp [HaAct.call]
      · rename_i w ho
        simp [HaAct.call, VmiCall.isUse, howner _ w ho]
    · exact usesOnly_nil
  · exact usesOnly_nil

theorem statusTrace_uses (howner : ∀ i w, s.records.owner i = some w → handles w ≠ none) :
    UsesOnly handles (statusTrace s) := by
  intro a ha w c hcall
  obtain ⟨i, -, hi⟩ := List.mem_filterMap.1 ha
  obtain ⟨v', ho, rfl⟩ := Option.map_eq_some_iff.1 hi
  cases hcall
  exact ⟨rfl, howner i w ho⟩

end

/-! ## The names registered -/

/-- The `k`-th registration is the last of its name. -/
def Last (ns : List String) (n : String) (k : Nat) : Prop := ns[k]? = some n ∧ n ∉ ns.drop (k + 1)

section

variable {ns : List String} {n m : String} {k : Nat}

theorem Last.lt (h : Last ns n k) : k < ns.length := (List.getElem?_eq_some_iff.1 h.1).1

theorem last_concat : Last (ns ++ [n]) m k ↔ if m = n then k = ns.length else Last ns m k := by
  unfold Last
  rcases Nat.lt_trichotomy k ns.length with hk | rfl | hk
  · rw [List.getElem?_append_left hk, List.drop_append_of_le_length hk]
    split
    · rename_i hm
      refine iff_of_false (fun h => h.2 ?_) (Nat.ne_of_lt hk)
      rw [hm]
      exact List.mem_append_right _ (List.mem_singleton_self n)
    · rename_i hm
      simp [hm]
  · have hend : (ns ++ [n]).drop (ns.length + 1) = [] := List.drop_eq_nil_of_le (by simp)
    rw [hend, List.getElem?_concat_length]
    split
    · rename_i hm
      simp [hm]
    · rename_i hm
      refine iff_of_false (fun h => hm (Option.some.inj h.1).symm) fun h => ?_
      exact Nat.lt_irrefl _ (List.getElem?_eq_some_iff.1 h.1).1
  · have hout : (ns ++ [n])[k]? = none := List.getElem?_eq_none (by simpa using hk)
    rw [hout]
    split
    · exact iff_of_false (fun h => by cases h.1) (Nat.ne_of_gt hk)
    · refine iff_of_false (fun h => by cases h.1) fun h => ?_
      exact Nat.lt_asymm hk (List.getElem?_eq_some_iff.1 h.1).1

theorem exists_last : (∃ k, Last ns n k) ↔ n ∈ ns := by
  induction ns using List.reverseRecOn with
  | nil => exact iff_of_false (fun ⟨_, h⟩ => by cases h.1) List.not_mem_nil
  | append_singleton ns m ih =>
    simp only [last_concat, List.mem_append, List.mem_singleton]
    by_cases hn : n = m
    · simp [hn]
    · simp [hn, ih]

end

/-! ## Runs -/

/-- The calls before the destructors. -/
def HaCall.keeps : HaCall → Bool
  | .op _ | .printStatus => true
  | .destroyConfig _ | .destroyMain _ => false

def HaCall.registers : HaCall → Option String
  | .op (.addAgent n _ _ _ _) => some n
  | .op (.mountDisk _ _) | .op (.unmountDisk _) | .printStatus | .destroyConfig _ | .destroyMain _ => none

/-- The names registered, in order; the `k`-th has the handle `k + 1`. -/
def registered (calls : List HaCall) : List String := calls.filterMap HaCall.registers

section

variable {δ : Type} (shell : Shell δ)

def lifeStep (s : HaState δ) (c : HaCall) : Option (HaState δ) :=
  if c.keeps then (callResult shell s c).toOption else none

/-- **The invariant**: which handles there are, whose they are, and what was called on them. -/
structure Living (ns : List String) (s : HaState δ) : Prop where
  nextVmi : s.nextVmi = ns.length + 1
  handle : ∀ v, s.handles v ≠ none ↔ ∃ k, v = k + 1 ∧ k < ns.length
  agent : ∀ n v, (s.agents n).map HAConfig.vmi = some v ↔ ∃ k, v = k + 1 ∧ Last ns n k
  owner : ∀ i v, s.records.owner i = some v → s.handles v ≠ none
  unopened : ∀ v, s.handles v = none → callsOn v s.log = []
  opened : ∀ v, s.handles v ≠ none → ∃ uses, (∀ c ∈ uses, c.isUse = true) ∧ callsOn v s.log = .initComplete :: uses

variable {shell} {ns : List String} {s s' : HaState δ} {n : String} {ha : HAConfig} {v : Vmi}

theorem Living.agent_handle (h : Living ns s) (hn : s.agents n = some ha) : s.handles ha.vmi ≠ none := by
  obtain ⟨k, hk, hlast⟩ := (h.agent n ha.vmi).1 (by rw [hn]; rfl)
  exact (h.handle ha.vmi).2 ⟨k, hk, hlast.lt⟩

/-- The handle opened next is not open yet. -/
theorem Living.next (h : Living ns s) : s.handles s.nextVmi = none := by
  by_contra hne
  obtain ⟨k, hk, hlt⟩ := (h.handle s.nextVmi).1 hne
  have hlast : ns.length = k := Nat.succ_inj.1 (h.nextVmi.symm.trans hk)
  exact Nat.ne_of_gt hlt hlast

/-- **A registration** opens a handle, and its name goes by it from then on. -/
theorem Living.added {r d : String} {m : Int} (h : Living ns s) (hs : Added n r d m s s')
    (hlog : s'.log = s.log ++ callTrace shell s (.op (.addAgent n r d true m))) : Living (ns ++ [n]) s' := by
  have hlength : (ns ++ [n]).length = ns.length + 1 := List.length_append
  have hnew : callsOn s.nextVmi s'.log = [.initComplete, .getOstype] := by
    rw [hlog, callsOn_append, h.unopened _ h.next]
    simp [callTrace, callsOn, HaAct.call]
  have hold : ∀ v, v ≠ s.nextVmi → s'.handles v = s.handles v ∧ callsOn v s'.log = callsOn v s.log := by
    intro v hv
    refine ⟨by rw [hs.handles, Function.update_of_ne hv], ?_⟩
    rw [hlog, callsOn_append]
    simp [callTrace, callsOn, HaAct.call, Ne.symm hv]
  have hopen : s'.handles s.nextVmi ≠ none := by
    rw [hs.handles, Function.update_self]
    exact Option.some_ne_none n
  refine ⟨by rw [hs.nextVmi, h.nextVmi, hlength], fun v => ?_, fun k v => ?_, fun i v hi => ?_, fun v hv => ?_,
    fun v hv => ?_⟩
  · by_cases hv : v = s.nextVmi
    · exact iff_of_true (hv ▸ hopen) ⟨ns.length, hv.trans h.nextVmi, hlength ▸ Nat.lt_succ_self _⟩
    · rw [(hold v hv).1, h.handle, hlength]
      rw [h.nextVmi] at hv
      refine exists_congr fun k => and_congr_right fun hk => ?_
      have hlast : k ≠ ns.length := fun e => hv (hk.trans (congrArg (· + 1) e))
      exact ⟨Nat.lt_succ_of_lt, fun hlt => Nat.lt_of_le_of_ne (Nat.le_of_lt_succ hlt) hlast⟩
  · rw [hs.agents]
    simp only [last_concat]
    by_cases hk : k = n
    · rw [hk, Function.update_self]
      simp [h.nextVmi, eq_comm]
    · rw [Function.update_of_ne hk, h.agent]
      simp [hk]
  · rw [hs.records] at hi
    have hv := h.owner i v hi
    rwa [(hold v fun e => hv (e ▸ h.next)).1]
  · have hne : v ≠ s.nextVmi := fun e => hopen (e ▸ hv)
    rw [(hold v hne).2]
    exact h.unopened v ((hold v hne).1 ▸ hv)
  · by_cases hne : v = s.nextVmi
    · exact ⟨[.getOstype], by decide, hne ▸ hnew⟩
    · rw [(hold v hne).2]
      exact h.opened v ((hold v hne).1 ▸ hv)

/-- Any other call only uses handles. -/
theorem Living.used (h : Living ns s) (hhandles : s'.handles = s.handles) (hnext : s'.nextVmi = s.nextVmi)
    (hagents : ∀ n, (s'.agents n).map HAConfig.vmi = (s.agents n).map HAConfig.vmi)
    (howner : ∀ i v, s'.records.owner i = some v → s.handles v ≠ none) {t : List HaAct}
    (hlog : s'.log = s.log ++ t) (ht : UsesOnly s.handles t) : Living ns s' := by
  refine ⟨hnext.trans h.nextVmi, by rw [hhandles]; exact h.handle, fun n v => by rw [hagents]; exact h.agent n v,
    by rw [hhandles]; exact howner, fun v hv => ?_, fun v hv => ?_⟩
  · rw [hhandles] at hv
    rw [hlog, callsOn_append, h.unopened v hv, ht.unopened hv, List.append_nil]
  · rw [hhandles] at hv
    obtain ⟨uses, huses, hcalls⟩ := h.opened v hv
    refine ⟨uses ++ callsOn v t, fun c hc => ?_, by rw [hlog, callsOn_append, hcalls, List.cons_append]⟩
    exact (List.mem_append.1 hc).elim (huses c) ht.isUse

theorem printStatus_kept (s : HaState δ) : ∃ log, printStatus s = { s with log := log } := by
  have hfold : ∀ (is : List Slot) (u : HaState δ), (∃ log, u = { s with log := log }) →
      ∃ log, is.foldl statusLine u = { s with log := log } := by
    intro is
    induction is with
    | nil => exact fun u hu => hu
    | cons i is ih =>
      rintro u ⟨log, rfl⟩
      refine ih _ ?_
      unfold statusLine
      split
      · exact ⟨_, rfl⟩
      · exact ⟨log, rfl⟩
  obtain ⟨log, hlog⟩ := hfold (List.finRange DEVMAX) (s.emit .lockVmi) ⟨_, rfl⟩
  unfold printStatus
  rw [hlog]
  exact ⟨_, rfl⟩

theorem Living.op (h : Living ns s) {op : HaOp} (hs : callResult shell s (.op op) = .ok s') :
    Living (ns ++ (HaCall.op op).registers.toList) s' := by
  have hlog := callResult_log hs
  have hstep : haStep shell s op = some s' := by rw [haStep_eq, hs]; rfl
  cases op with
  | addAgent n r d ok m =>
    cases ok with
    | false => cases hs
    | true => exact h.added (haStep_addAgent hstep) hlog
  | mountDisk n env =>
    obtain ⟨ha, i, s₁, hm⟩ := haStep_mountDisk hstep
    have hv := h.agent_handle hm.agent
    rw [callTrace, hm.agent] at hlog
    refine (List.append_nil ns).symm ▸ h.used hm.handles hm.nextVmi hm.vmi (fun j v hj => ?_) hlog
      (requestTrace_uses hv s)
    rw [hm.owner] at hj
    rcases Leases.update_some hj with ⟨-, e⟩ | ⟨-, hj⟩
    · exact e ▸ hv
    · exact h.owner j v hj
  | unmountDisk n =>
    obtain ⟨ha, i, v, hu⟩ := haStep_unmountDisk hstep
    rw [callTrace, hu.agent] at hlog
    refine (List.append_nil ns).symm ▸ h.used hu.kept.handles hu.kept.nextVmi (fun k => by rw [hu.kept.agents])
      (fun j w hj => ?_) hlog (releaseTrace_uses h.owner _)
    rw [hu.records, Records.owner_release] at hj
    exact h.owner j w hj

/-- **One call.** -/
theorem Living.step (h : Living ns s) {c : HaCall} (hs : lifeStep shell s c = some s') :
    Living (ns ++ c.registers.toList) s' := by
  cases c with
  | op o => exact h.op (toOption_eq_some.1 hs)
  | printStatus =>
    cases hs
    obtain ⟨log, hkept⟩ := printStatus_kept s
    have hlog : (printStatus s).log = s.log ++ callTrace shell s .printStatus :=
      callResult_log (show callResult shell s .printStatus = .ok (printStatus s) from rfl)
    have huses : UsesOnly s.handles (callTrace shell s .printStatus) := by
      simp [callTrace, HaAct.call, statusTrace_uses h.owner]
    refine (List.append_nil ns).symm ▸ h.used ?_ ?_ ?_ ?_ hlog huses
    all_goals rw [hkept]
    · exact fun _ => rfl
    · exact h.owner
  | destroyConfig ha => cases hs
  | destroyMain names => cases hs

theorem living_run (mountPath ghostImage : String) (clock : Slot → Timeval) (g : Globals) (guests : String → Guest)
    (host : δ) {calls : List HaCall}
    (hrun : Run (stepOf (lifeStep shell)) (HaState.init mountPath ghostImage clock g guests host) calls s) :
    Living (registered calls) s := by
  refine Run.invariant (P := fun calls s => Living (registered calls) s) ?_ ?_ hrun
  · refine ⟨rfl, fun v => ?_, fun n v => ?_, fun i v h => ?_, fun _ _ => rfl, fun v h => absurd rfl h⟩
    · exact iff_of_false (fun h => h rfl) fun ⟨k, h⟩ => Nat.not_lt_zero k h.2
    · exact iff_of_false (Option.some_ne_none v).symm fun ⟨k, h⟩ => Nat.not_lt_zero k h.2.lt
    · cases h
  · intro calls s c s' _ h hs
    have hstep := h.step hs
    unfold registered
    rw [List.filterMap_append]
    cases hc : c.registers with
    | none =>
      rw [hc] at hstep
      rw [List.filterMap_cons_none hc]
      exact hstep
    | some n =>
      rw [hc] at hstep
      rw [List.filterMap_cons_some hc]
      exact hstep

/-! ## The destructors -/

theorem callsOn_dropTrace (v : Vmi) (base : String) (is : List Slot) (host : δ) :
    callsOn v (dropTrace shell base is host) = [] := by
  induction is generalizing host with
  | nil => rfl
  | cons i is ih => exact ih _

/-- Each of the agents' handles is closed once. -/
theorem callsOn_destroyTrace (v : Vmi) : ∀ {has : List HAConfig}, (has.map HAConfig.vmi).Nodup →
    callsOn v (has.flatMap destroyTrace) = if v ∈ has.map HAConfig.vmi then [.destroy] else []
  | [], _ => rfl
  | ha :: has, h => by
    obtain ⟨hnew, hrest⟩ := List.nodup_cons.1 h
    have ih := callsOn_destroyTrace v hrest
    rw [List.flatMap_cons, callsOn_append, ih, List.map_cons]
    by_cases hv : v = ha.vmi
    · have hno : v ∉ has.map HAConfig.vmi := hv ▸ hnew
      rw [if_neg hno, if_pos (hv ▸ List.mem_cons_self)]
      simp [destroyTrace, callsOn, HaAct.call, hv]
    · have hown : callsOn v (destroyTrace ha) = [] := by simp [destroyTrace, callsOn, HaAct.call, Ne.symm hv]
      rw [hown, List.nil_append]
      simp [hv]

/-- The destructors close the handles the agents go by. -/
theorem Living.closed (h : Living ns s) (shell : Shell δ) {names : List String} (hnodup : names.Nodup)
    (hnames : ∀ n, n ∈ names ↔ n ∈ ns) (k : Nat) :
    ((∃ n, Last ns n k) → callsOn (k + 1) (callTrace shell s (.destroyMain names)) = [.destroy]) ∧
      ((¬ ∃ n, Last ns n k) → callsOn (k + 1) (callTrace shell s (.destroyMain names)) = []) := by
  have hvmis : (names.filterMap s.agents).map HAConfig.vmi =
      names.filterMap fun n => (s.agents n).map HAConfig.vmi := List.map_filterMap ..
  have hown : ((names.filterMap s.agents).map HAConfig.vmi).Nodup := by
    rw [hvmis]
    refine hnodup.filterMap fun n m v hn hm => ?_
    obtain ⟨k, rfl, hk⟩ := (h.agent n v).1 hn
    obtain ⟨l, hl, hm⟩ := (h.agent m _).1 hm
    cases Nat.succ_inj.1 hl
    exact Option.some.inj (hk.1.symm.trans hm.1)
  have hmem : k + 1 ∈ (names.filterMap s.agents).map HAConfig.vmi ↔ ∃ n, Last ns n k := by
    rw [hvmis, List.mem_filterMap]
    constructor
    · rintro ⟨n, -, hn⟩
      obtain ⟨l, hl, hlast⟩ := (h.agent n _).1 hn
      exact ⟨n, Nat.succ_inj.1 hl ▸ hlast⟩
    · rintro ⟨n, hlast⟩
      exact ⟨n, (hnames n).2 (exists_last.1 ⟨k, hlast⟩), (h.agent n _).2 ⟨k, rfl, hlast⟩⟩
  rw [callTrace, callsOn_append, callsOn_dropTrace, List.append_nil, callsOn_destroyTrace _ hown]
  exact ⟨fun hlast => if_pos (hmem.2 hlast), fun hnone => if_neg fun h => hnone (hmem.1 h)⟩

/-- The calls `cs` on the handle of the `k`-th registration, over the whole life of a HAMain. -/
structure HandleLife (ns : List String) (k : Nat) (cs : List VmiCall) : Prop where
  unopened : ns.length ≤ k → cs = []
  leaked : ∀ n, ns[k]? = some n → n ∈ ns.drop (k + 1) →
    ∃ uses, (∀ c ∈ uses, c.isUse = true) ∧ cs = .initComplete :: uses
  closed : ∀ n, ns[k]? = some n → n ∉ ns.drop (k + 1) →
    ∃ uses, (∀ c ∈ uses, c.isUse = true) ∧ cs = .initComplete :: (uses ++ [.destroy])

/-- **A handle is opened once, then used, then closed**; one whose name is registered again is never closed. -/
theorem handle_life (mountPath ghostImage : String) (clock : Slot → Timeval) (g : Globals) (guests : String → Guest)
    (host : δ) (calls : List HaCall) (s : HaState δ)
    (hrun : Run (stepOf (lifeStep shell)) (HaState.init mountPath ghostImage clock g guests host) calls s)
    (names : List String) (hnodup : names.Nodup) (hnames : ∀ n, n ∈ names ↔ n ∈ registered calls) (k : Nat) :
    HandleLife (registered calls) k (callsOn (k + 1) (s.destroy shell names).log) := by
  have hliving := living_run mountPath ghostImage clock g guests host hrun
  have hlog : (s.destroy shell names).log = s.log ++ callTrace shell s (.destroyMain names) := callResult_log rfl
  obtain ⟨hclosed, hleft⟩ := hliving.closed shell hnodup hnames k
  rw [hlog, callsOn_append]
  have hopened : ∀ n, (registered calls)[k]? = some n →
      ∃ uses, (∀ c ∈ uses, c.isUse = true) ∧ callsOn (k + 1) s.log = .initComplete :: uses := fun n hn =>
    hliving.opened (k + 1) ((hliving.handle (k + 1)).2 ⟨k, rfl, (List.getElem?_eq_some_iff.1 hn).1⟩)
  refine ⟨fun hk => ?_, fun n hn hagain => ?_, fun n hn hlast => ?_⟩
  · have hnone : ¬ ∃ n, Last (registered calls) n k := fun ⟨_, h⟩ => Nat.not_lt.2 hk h.lt
    rw [hleft hnone, List.append_nil]
    refine hliving.unopened (k + 1) (by_contra fun hne => ?_)
    obtain ⟨l, hl, hlt⟩ := (hliving.handle (k + 1)).1 hne
    exact Nat.not_lt.2 hk (Nat.succ_inj.1 hl ▸ hlt)
  · obtain ⟨uses, huses, hcalls⟩ := hopened n hn
    have hnone : ¬ ∃ m, Last (registered calls) m k := fun ⟨m, h⟩ => h.2 (Option.some.inj (h.1.symm.trans hn) ▸ hagain)
    exact ⟨uses, huses, by rw [hleft hnone, List.append_nil, hcalls]⟩
  · obtain ⟨uses, huses, hcalls⟩ := hopened n hn
    exact ⟨uses, huses, by rw [hclosed ⟨n, hn, hlast⟩, hcalls, List.cons_append]⟩

end

/-- An agent is registered twice, with a mount before the second registration. -/
def registeredTwice : List HaCall :=
  [.op (.addAgent "a" "p" "d" true 0), .op (.mountDisk "a" (quietMount 1)), .op (.addAgent "a" "p" "d" true 0),
    .printStatus, .op (.mountDisk "a" (quietMount 2))]

theorem handle_life_twice : ∃ s, Run (stepOf (lifeStep idleShell)) (HaState.small ()) registeredTwice s ∧
    ∀ k, HandleLife (registered registeredTwice) k (callsOn (k + 1) (s.destroy idleShell ["a"]).log) := by
  obtain ⟨s, hrun⟩ := exists_run (show (exec (lifeStep idleShell) (HaState.small ()) registeredTwice).isSome = true by
    decide)
  exact ⟨s, hrun, handle_life _ _ _ _ _ _ registeredTwice s hrun ["a"] (by decide) (by simp [registered,
    registeredTwice, HaCall.registers])⟩

end Hyperagents
