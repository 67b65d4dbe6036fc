import Hyperagents.SyncCallbacks
/-!
# An int3 of the guest's own

At an address that is none of the five breakpoints the callback runs into the tail the five share, with the locals as
they were initialised: it writes a zero at address zero, asks for a single step, and marks the event not to be
reinjected.  The step then writes 0xCC where the guest has 0xCC.  So the guest's own handler never sees its int3
(`foreign_not_handed_through`), and the byte at address zero is gone where there is one (`foreign_mem_iff`).
-/
namespace Hyperagents

open Planting

/-- The guest has a breakpoint of its own at an address that is none of the five, and the clean-up has not begun. -/
structure Foreign (e : Int3) (s : SyncState) : Prop where
  unknown : ∀ b, e.regs.rip ≠ s.g.addr b
  own : s.mem e.regs.rip = some breakpointByte
  running : s.g.doCleanup ≠ 1

/-- The callback and the single step it asks for. -/
def answerInt3 (e : Int3) (s : SyncState) : SyncState :=
  let (s, reply) := intCbFront e s
  if reply.toggleSinglestep then stepCbFront e.vcpu s else s

/-- The memory is as it was, the vCPU goes on where it is, and the event goes on to the guest. -/
structure HandedThrough (e : Int3) (s : SyncState) : Prop where
  mem : (answerInt3 e s).mem = s.mem
  stays : (intCbFront e s).2.setRegisters = false ∧ (intCbFront e s).2.regs = e.regs
  reinjected : (intCbFront e s).2.reinject ≠ 0

variable {e : Int3} {s : SyncState}

theorem Foreign.find (h : Foreign e s) : s.g.find e.regs.rip = none := find_eq_none.2 h.unknown

theorem Foreign.reply (h : Foreign e s) : (intCbFront e s).2 = stepReply e := by
  rw [(intCbFront_effect e s).1]
  unfold replyAt
  rw [h.find]

/-- **What the two callbacks leave of the memory**: a zero at address zero, and the guest's own breakpoint. -/
theorem Foreign.mem (h : Foreign e s) :
    (answerInt3 e s).mem = poke (poke s.mem 0 0) e.regs.rip breakpointByte := by
  obtain ⟨-, quiet, heff⟩ := intCbFront_effect e s
  have hstep := stepCbFront_effect e.vcpu (intCbFront e s).1
  have hclean : (intCbFront e s).1.g.doCleanup ≠ 1 := by
    rw [heff.g]
    simp only [intGlobals, h.find]
    exact h.running
  have hloc : (intCbFront e s).1.g.stepRewriteLoc = e.regs.rip := by
    rw [heff.g]
    rfl
  have hzero : (intCbFront e s).1.mem = poke s.mem 0 0 := by
    rw [heff.mem, replaced, h.find]
    rfl
  unfold answerInt3
  simp only [h.reply, stepReply, if_true]
  rw [hstep.mem, if_neg hclean, hloc, hzero]

/-- The vCPU goes on where it is. -/
theorem Foreign.stays (h : Foreign e s) :
    (intCbFront e s).2.setRegisters = false ∧ (intCbFront e s).2.regs = e.regs := by
  rw [h.reply]
  exact ⟨rfl, rfl⟩

/-- **The memory is unchanged exactly where a zero at address zero makes no difference.** -/
theorem foreign_mem_iff (h : Foreign e s) :
    (answerInt3 e s).mem = s.mem ↔ e.regs.rip = 0 ∨ s.mem 0 = none ∨ s.mem 0 = some 0 := by
  rw [h.mem]
  by_cases hrip : e.regs.rip = 0
  · refine iff_of_true ?_ (.inl hrip)
    funext a
    by_cases ha : a = e.regs.rip
    · rw [ha, poke_self, hrip, poke_self, ← hrip, h.own]
      rfl
    · rw [poke_of_ne _ _ ha, poke_of_ne _ _ (fun e0 => ha (e0.trans hrip.symm))]
  · have hother : poke (poke s.mem 0 0) e.regs.rip breakpointByte = poke s.mem 0 0 := by
      funext a
      by_cases ha : a = e.regs.rip
      · rw [ha, poke_self, poke_of_ne _ _ hrip, h.own]
        rfl
      · exact poke_of_ne _ _ ha
    rw [hother]
    constructor
    · intro heq
      have h0 := congrFun heq 0
      rw [poke_self] at h0
      cases hm : s.mem 0 with
      | none => exact .inr (.inl rfl)
      | some x =>
        rw [hm] at h0
        exact .inr (.inr h0.symm)
    · intro hzero
      funext a
      by_cases ha : a = 0
      · rw [ha, poke_self]
        rcases hzero with h0 | h0 | h0
        · exact absurd h0 hrip
        · rw [h0]
          rfl
        · rw [h0]
          rfl
      · exact poke_of_ne _ _ ha

/-- **No int3 of the guest's own is handed through.** -/
theorem foreign_not_handed_through (e : Int3) (s : SyncState) (h : Foreign e s) : ¬ HandedThrough e s := by
  intro hthrough
  apply hthrough.reinjected
  rw [h.reply]
  rfl

/-- A guest with a breakpoint of its own at 4096, and something at address zero. -/
def debugged : SyncState where
  g := .fresh
  mem a := if a = 4096 then some breakpointByte else if a = 0 then some 7 else none
  paused := false
  attached := true
  trace := []

theorem debugged_foreign : Foreign ⟨0, 0, { rip := 4096 }⟩ debugged := by
  refine ⟨fun b => ?_, by decide, by decide⟩
  cases b <;> decide

theorem foreign_not_handed_through_debugged : ¬ HandedThrough ⟨0, 0, { rip := 4096 }⟩ debugged :=
  foreign_not_handed_through _ _ debugged_foreign

theorem debugged_swallowed : Foreign ⟨0, 0, { rip := 4096 }⟩ debugged ∧
    (intCbFront ⟨0, 0, { rip := 4096 }⟩ debugged).2.reinject = 0 ∧ debugged.mem 0 = some 7 ∧
      (answerInt3 ⟨0, 0, { rip := 4096 }⟩ debugged).mem 0 = some 0 ∧
        ¬ HandedThrough ⟨0, 0, { rip := 4096 }⟩ debugged :=
  ⟨debugged_foreign, by decide, by decide, by decide, fun h => h.reinjected (by decide)⟩

end Hyperagents
