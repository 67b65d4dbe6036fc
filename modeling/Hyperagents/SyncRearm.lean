import Hyperagents.SyncTrampoline
import Hyperagents.SyncRestore
import Hyperagents.SyncDetour
/-!
# Re-arming with several vCPUs

A step puts 0xCC back at `step_rewrite_loc`, one global that every int3 of every vCPU overwrites.  So it re-arms the
breakpoint of its own vCPU while that vCPU's int3 is still the last of all; where another vCPU's int3 came in between
it re-arms the other one's address instead, which may be a breakpoint of the detour already taken (`rearms_own_iff`).
-/
namespace Hyperagents

open Planting

/-- The tick is an event of the vCPU. -/
def Tick.isOn (v : Nat) : Tick → Bool
  | .int3 e => e.vcpu == v
  | .step w => w == v
  | .guest _ _ => false
  | .ret _ => false

/-- The last event of a vCPU. -/
def lastOn (v : Nat) (p : List Tick) : Option Tick := (p.filter (Tick.isOn v)).getLast?

/-- **The ticks of several vCPUs**: a step comes only right after an int3 of its own vCPU that toggled single-stepping
on, and the guest does not write to the five bytes itself. -/
structure VcpuTicks (g : Globals) (ts : List Tick) : Prop where
  step : ∀ p v, p ++ [.step v] <+: ts → ∃ e, lastOn v p = some (.int3 e) ∧ toggles g e = true
  guest : ∀ a x, .guest a x ∈ ts → ∀ b, g.addr b ≠ a

/-- A breakpoint was hit. -/
def Hit (g : Globals) (p : List Tick) (b : Bp) : Prop := ∃ e, .int3 e ∈ p ∧ g.find e.regs.rip = some b

/-- A step of `v` from `s` to `s'`, after the ticks `p`: the byte at the address of the vCPU's last int3 is 0xCC, and
no breakpoint of the detour already hit is armed by it. -/
structure RearmsOwn (g : Globals) (p : List Tick) (v : Nat) (s s' : SyncState) : Prop where
  own : ∀ e, lastOn v p = some (.int3 e) → s'.mem e.regs.rip = some breakpointByte
  spent : ∀ b, b.oneShot = true → Hit g p b → s.mem (g.addr b) ≠ some breakpointByte →
    s'.mem (g.addr b) ≠ some breakpointByte

/-- The last int3 of all is where the vCPU's own last one was; or the byte there is 0xCC again already, and the last
int3 of all is not at a breakpoint of the detour. -/
def OwnIsLast (g : Globals) (p : List Tick) (v : Nat) (s : SyncState) : Prop :=
  ∀ e, lastOn v p = some (.int3 e) → ∃ l, lastInt3 p = some l ∧
    ((l.regs.rip = e.regs.rip ∧ (s.mem e.regs.rip).isSome = true) ∨
      (s.mem e.regs.rip = some breakpointByte ∧ ∀ b, b.oneShot = true → l.regs.rip ≠ g.addr b))

theorem find_addr {g : Globals} (hinj : Function.Injective g.addr) (b : Bp) : g.find (g.addr b) = some b := by
  cases hf : g.find (g.addr b) with
  | none => exact absurd rfl (find_eq_none.1 hf b)
  | some b' => rw [hinj (addr_of_find hf)]

theorem mem_of_lastOn {v : Nat} {p : List Tick} {t : Tick} (h : lastOn v p = some t) : t ∈ p :=
  List.mem_of_mem_filter (List.mem_of_getLast? h)

/-- Where there is an int3 there is a last one. -/
theorem exists_lastInt3 {p : List Tick} {e : Int3} (he : .int3 e ∈ p) : ∃ l, lastInt3 p = some l ∧ .int3 l ∈ p := by
  have hne : int3s p ≠ [] := List.ne_nil_of_mem (mem_int3s.2 he)
  exact ⟨_, List.getLast?_eq_some_getLast hne, mem_int3s.1 (List.getLast_mem hne)⟩

/-- An int3 that toggles single-stepping is at no breakpoint of the detour. -/
theorem toggles_oneShot {g : Globals} {e : Int3} {b : Bp} (ht : toggles g e = true) (hf : g.find e.regs.rip = some b) :
    b.oneShot = false := by
  unfold toggles replyAt at ht
  rw [hf] at ht
  cases b <;> first | rfl | cases ht

/-- **The global is the address of the last int3 of any vCPU.** -/
theorem runTicks_lastInt3 (ghostImage : String) (vmid : UInt64) {s : SyncState} {p : List Tick} {l : Int3}
    (h : lastInt3 p = some l) : (runTicks ghostImage vmid s p).g.stepRewriteLoc = l.regs.rip := by
  rw [runTicks_rewriteLoc, h]
  rfl

/-! ## One step -/

section

variable {ghostImage : String} {vmid : UInt64} {s : SyncState} {p ts : List Tick} {v : Nat}

/-- What a step writes before the clean-up. -/
theorem step_mem (hclean : ¬ CleaningUp s.g p) {l : Int3} (hl : lastInt3 p = some l) :
    (runTicks ghostImage vmid s (p ++ [.step v])).mem =
      poke (runTicks ghostImage vmid s p).mem l.regs.rip breakpointByte := by
  obtain ⟨quiet, h⟩ := tick_effect ghostImage vmid (runTicks ghostImage vmid s p) (.step v)
  rw [runTicks_snoc, h.mem]
  simp only [tickWrite, if_neg (mt (runTicks_doCleanup ghostImage vmid s p).1 hclean), pokeTick,
    runTicks_lastInt3 ghostImage vmid hl]

/-- The breakpoints of the detour that were hit are out. -/
def Spent (g : Globals) (p : List Tick) (s : SyncState) : Prop :=
  ∀ b, b.oneShot = true → Hit g p b → s.mem (g.addr b) ≠ some breakpointByte

/-- **A step meets the condition if it re-arms its own**, where those hit before are out. -/
theorem ownIsLast_of_rearms (hmapped : ∀ b, ((runTicks ghostImage vmid s p).mem (s.g.addr b)).isSome = true)
    (hspent : Spent s.g p (runTicks ghostImage vmid s p)) (hinj : Function.Injective s.g.addr)
    (hclean : ¬ CleaningUp s.g p)
    (h : RearmsOwn s.g p v (runTicks ghostImage vmid s p) (runTicks ghostImage vmid s (p ++ [.step v]))) :
    OwnIsLast s.g p v (runTicks ghostImage vmid s p) := by
  intro e he
  obtain ⟨l, hl, hlp⟩ := exists_lastInt3 (mem_of_lastOn he)
  have hown := h.own e he
  have hother := h.spent
  rw [step_mem hclean hl] at hown hother
  refine ⟨l, hl, ?_⟩
  by_cases heq : e.regs.rip = l.regs.rip
  · refine .inl ⟨heq.symm, ?_⟩
    rw [← poke_isSome (runTicks ghostImage vmid s p).mem l.regs.rip _ breakpointByte, hown]
    rfl
  · rw [poke_of_ne _ _ heq] at hown
    refine .inr ⟨hown, fun b hb hlb => ?_⟩
    -- The breakpoint of the last int3 was hit, so it is out, and this step puts it back.
    have hhit : Hit s.g p b := ⟨l, hlp, by rw [hlb]; exact find_addr hinj b⟩
    apply hother b hb hhit (hspent b hb hhit)
    obtain ⟨x, hx⟩ := Option.isSome_iff_exists.1 (hmapped b)
    rw [hlb, poke_self, hx]
    rfl

/-- **A step that meets the condition re-arms its own.** -/
theorem rearms_of_ownIsLast (hinj : Function.Injective s.g.addr) (hclean : ¬ CleaningUp s.g p) {e₀ : Int3}
    (he₀ : lastOn v p = some (.int3 e₀)) (htoggles : toggles s.g e₀ = true)
    (h : OwnIsLast s.g p v (runTicks ghostImage vmid s p)) :
    RearmsOwn s.g p v (runTicks ghostImage vmid s p) (runTicks ghostImage vmid s (p ++ [.step v])) := by
  obtain ⟨l, hl, hcase⟩ := h e₀ he₀
  have hmem := @step_mem ghostImage vmid s p v hclean l hl
  refine ⟨fun e he => ?_, fun b hb _ hout => ?_⟩
  · cases he₀.symm.trans he
    rw [hmem]
    rcases hcase with ⟨heq, hmapped⟩ | ⟨harmed, -⟩
    · obtain ⟨x, hx⟩ := Option.isSome_iff_exists.1 hmapped
      rw [heq, poke_self, hx]
      rfl
    · by_cases heq : e₀.regs.rip = l.regs.rip
      · rw [heq, poke_self, ← heq, harmed]
        rfl
      · rw [poke_of_ne _ _ heq]
        exact harmed
  · rw [hmem, poke_of_ne]
    · exact hout
    · intro hbl
      rcases hcase with ⟨heq, -⟩ | ⟨-, hfree⟩
      · have hf : s.g.find e₀.regs.rip = some b := by
          rw [← heq, ← hbl]
          exact find_addr hinj b
        rw [toggles_oneShot htoggles hf] at hb
        cases hb
      · exact hfree b hb hbl.symm

/-! ## Runs -/

theorem hit_snoc {g : Globals} {t : Tick} {b : Bp} :
    Hit g (p ++ [t]) b ↔ Hit g p b ∨ ∃ e, t = .int3 e ∧ g.find e.regs.rip = some b := by
  unfold Hit
  simp only [List.mem_append, List.mem_singleton]
  constructor
  · rintro ⟨e, he | he, hf⟩
    · exact .inl ⟨e, he, hf⟩
    · exact .inr ⟨e, he.symm, hf⟩
  · rintro (⟨e, he, hf⟩ | ⟨e, rfl, hf⟩)
    · exact ⟨e, .inl he, hf⟩
    · exact ⟨e, .inr rfl, hf⟩

theorem Hit.of_snoc {g : Globals} {t : Tick} {b : Bp} (h : Hit g (p ++ [t]) b) (ht : ∀ e, t ≠ .int3 e) : Hit g p b := by
  rcases hit_snoc.1 h with hold | ⟨e, he, -⟩
  · exact hold
  · exact absurd he (ht e)

/-- An int3 takes its own breakpoint out, and arms none. -/
theorem Spent.int3 (h : Spent s.g p (runTicks ghostImage vmid s p)) (hbytes : ∀ b, s.g.byte b ≠ breakpointByte)
    (e : Int3) :
    Spent s.g (p ++ [.int3 e]) (runTicks ghostImage vmid s (p ++ [.int3 e])) := by
  have hsame := runTicks_same ghostImage vmid s p
  obtain ⟨quiet, ht⟩ := tick_effect ghostImage vmid (runTicks ghostImage vmid s p) (.int3 e)
  have hpoke : ∀ b x, x ≠ breakpointByte → ∀ a, (Hit s.g p b ∨ s.g.addr b = a) → b.oneShot = true →
      poke (runTicks ghostImage vmid s p).mem a x (s.g.addr b) ≠ some breakpointByte := by
    intro b x hx a hor hb
    by_cases hba : s.g.addr b = a
    · rw [hba, poke_self]
      cases (runTicks ghostImage vmid s p).mem a with
      | none => exact nofun
      | some y => exact fun hy => hx (Option.some.inj hy)
    · rw [poke_of_ne _ _ hba]
      exact h b hb (hor.resolve_right hba)
  intro b hb hhit
  rw [runTicks_snoc, ht.mem]
  simp only [tickWrite, pokeTick, replaced, hsame.find, hsame.addr, hsame.byte]
  rcases hit_snoc.1 hhit with hold | ⟨e', he', hf⟩
  · cases hf : s.g.find e.regs.rip with
    | none => exact hpoke b 0 (by decide) 0 (.inl hold) hb
    | some b' => exact hpoke b _ (hbytes b') _ (.inl hold) hb
  · cases he'
    rw [hf]
    exact hpoke b _ (hbytes b) _ (.inr rfl) hb

/-- **While every step so far re-armed its own, the breakpoints of the detour that were hit are out.** -/
theorem spent_run (hbytes : ∀ b, s.g.byte b ≠ breakpointByte) (hguest : ∀ a x, .guest a x ∈ p → ∀ b, s.g.addr b ≠ a)
    (hrearms : ∀ q v, q ++ [.step v] <+: p → ¬ CleaningUp s.g q →
      RearmsOwn s.g q v (runTicks ghostImage vmid s q) (runTicks ghostImage vmid s (q ++ [.step v]))) :
    Spent s.g p (runTicks ghostImage vmid s p) := by
  induction p using List.reverseRecOn with
  | nil =>
    rintro b hb ⟨e, he, -⟩
    cases he
  | append_singleton p t ih =>
    have hpre : p <+: p ++ [t] := List.prefix_append p [t]
    have ih := ih (fun a x ha => hguest a x (hpre.subset ha)) (fun q v hq => hrearms q v (hq.trans hpre))
    obtain ⟨quiet, h⟩ := tick_effect ghostImage vmid (runTicks ghostImage vmid s p) t
    cases t with
    | int3 e => exact ih.int3 hbytes e
    | step v =>
      intro b hb hhit
      have hold : Hit s.g p b := hhit.of_snoc (by simp)
      by_cases hclean : CleaningUp s.g p
      · rw [runTicks_snoc, h.mem]
        simp only [tickWrite, if_pos ((runTicks_doCleanup ghostImage vmid s p).2 hclean), pokeTick]
        exact ih b hb hold
      · exact (hrearms p v List.prefix_rfl hclean).spent b hb hold (ih b hb hold)
    | guest a x =>
      intro b hb hhit
      rw [runTicks_snoc, h.mem]
      simp only [tickWrite, pokeTick]
      rw [poke_of_ne _ _ (hguest a x (by simp) b)]
      exact ih b hb (hhit.of_snoc (by simp))
    | ret ok =>
      intro b hb hhit
      rw [runTicks_snoc, h.mem]
      exact ih b hb (hhit.of_snoc (by simp))

end

/-! ## From the start of the event loop -/

section

variable {c : SyncCall} {g : Globals} {guest : Guest}

theorem listening_byte (hinj : Function.Injective (resolved c g)) (b : Bp) :
    (listening c g guest).g.byte b = (guest.mem (resolved c g b)).getD (g.byte b) := by
  have hp := congrFun (congrArg Prod.snd (installed_spec c g guest).plant) b
  exact hp.trans (plant_saved_of_injective _ _ (by decide) hinj (mem_installOrder b))

theorem listening_isSome (a : Addr) : ((listening c g guest).mem a).isSome = (guest.mem a).isSome := by
  have hp := congrFun (congrArg Prod.fst (installed_spec c g guest).plant) a
  exact (congrArg Option.isSome hp).trans (plant_isSome _ _ a _ _)

end

/-- **Every step re-arms its own breakpoint**, and none of the detour already hit, exactly when at every step before
the clean-up the last int3 of all is where the vCPU's own was, or harmless. -/
theorem rearms_own_iff (ghostImage : String) (c : SyncCall) (g : Globals) (guest : Guest) (ts : List Tick)
    (hinj : Function.Injective (resolved c g))
    (horig : ∀ b, ∃ x, guest.mem (resolved c g b) = some x ∧ x ≠ breakpointByte)
    (hts : VcpuTicks (listening c g guest).g ts) :
    (∀ p v, p ++ [.step v] <+: ts → ¬ CleaningUp (listening c g guest).g p →
      RearmsOwn (listening c g guest).g p v (runTicks ghostImage c.vmid (listening c g guest) p)
        (runTicks ghostImage c.vmid (listening c g guest) (p ++ [.step v]))) ↔
    ∀ p v, p ++ [.step v] <+: ts → ¬ CleaningUp (listening c g guest).g p →
      OwnIsLast (listening c g guest).g p v (runTicks ghostImage c.vmid (listening c g guest) p) := by
  have hinj' : Function.Injective (listening c g guest).g.addr := by
    rw [listening_addr]
    exact hinj
  have hbytes : ∀ b, (listening c g guest).g.byte b ≠ breakpointByte := by
    intro b
    obtain ⟨x, hx, hne⟩ := horig b
    rw [listening_byte hinj, hx]
    exact hne
  have hmapped : ∀ p b, ((runTicks ghostImage c.vmid (listening c g guest) p).mem
      ((listening c g guest).g.addr b)).isSome = true := by
    intro p b
    obtain ⟨x, hx, -⟩ := horig b
    rw [runTicks_isSome, listening_isSome, listening_addr, hx]
    rfl
  constructor
  · intro h p v hp hclean
    have hpre : p <+: ts := (List.prefix_append p _).trans hp
    have hspent := spent_run hbytes (fun a x ha => hts.guest a x (hpre.subset ha))
      (fun q w hq => h q w (hq.trans hpre))
    exact ownIsLast_of_rearms (hmapped p) hspent hinj' hclean (h p v hp hclean)
  · intro h p v hp hclean
    obtain ⟨e, he, htoggles⟩ := hts.step p v hp
    exact rearms_of_ownIsLast hinj' hclean he htoggles (h p v hp hclean)

/-! ## Two vCPUs on the small guest -/

/-- vCPU `v` hits an int3 at `rip`. -/
def hitOn (v : Nat) (rip : Addr) : Int3 := ⟨v, v, { rip := rip }⟩

/-- Two vCPUs at `queue_work_on`, one after the other. -/
def apartTicks : List Tick := [.int3 (hitOn 0 0x1000), .step 0, .int3 (hitOn 1 0x1000), .step 1]

/-- One at `queue_work_on`; before its step another one comes to dwork. -/
def overlapTicks : List Tick := [.int3 (hitOn 0 0x1000), .int3 (hitOn 1 0x2000), .step 0]

theorem rearms_own_iff_apart :
    (∀ p v, p ++ [.step v] <+: apartTicks → ¬ CleaningUp (listening (nopCall []) .fresh nopGuest).g p →
      RearmsOwn (listening (nopCall []) .fresh nopGuest).g p v
        (runTicks "ghost.img" 1 (listening (nopCall []) .fresh nopGuest) p)
        (runTicks "ghost.img" 1 (listening (nopCall []) .fresh nopGuest) (p ++ [.step v]))) ↔
    ∀ p v, p ++ [.step v] <+: apartTicks → ¬ CleaningUp (listening (nopCall []) .fresh nopGuest).g p →
      OwnIsLast (listening (nopCall []) .fresh nopGuest).g p v
        (runTicks "ghost.img" 1 (listening (nopCall []) .fresh nopGuest) p) := by
  have htoggles : ∀ v, toggles (listening (nopCall []) .fresh nopGuest).g (hitOn v 0x1000) = true := by
    intro v
    have hf : (listening (nopCall []) .fresh nopGuest).g.find (hitOn v 0x1000).regs.rip = some .qworko := by
      show (listening (nopCall []) .fresh nopGuest).g.find 0x1000 = _
      decide +kernel
    rw [toggles, replyAt, hf]
    rfl
  refine rearms_own_iff "ghost.img" (nopCall []) .fresh nopGuest apartTicks (nopCall_injective _ _)
    (fun b => ⟨0x90, by cases b <;> decide, by decide⟩) ⟨?_, ?_⟩
  · rintro p v hp
    obtain ⟨rfl, rfl⟩ | ⟨rfl, rfl⟩ : (p = apartTicks.take 1 ∧ v = 0) ∨ (p = apartTicks.take 3 ∧ v = 1) := by
      rcases p with _ | ⟨x, _ | ⟨y, _ | ⟨z, _ | ⟨w, p⟩⟩⟩⟩ <;> simp_all [apartTicks]
    · exact ⟨_, rfl, htoggles 0⟩
    · exact ⟨_, rfl, htoggles 1⟩
  · rintro a x ha
    simp [apartTicks] at ha

/-- The step of the first vCPU puts the breakpoint at dwork back, which was hit, and leaves its own out. -/
theorem step_rearms_other : VcpuTicks (listening (nopCall []) .fresh nopGuest).g overlapTicks ∧
    ¬ ∀ p v, p ++ [.step v] <+: overlapTicks → ¬ CleaningUp (listening (nopCall []) .fresh nopGuest).g p →
      RearmsOwn (listening (nopCall []) .fresh nopGuest).g p v
        (runTicks "ghost.img" 1 (listening (nopCall []) .fresh nopGuest) p)
        (runTicks "ghost.img" 1 (listening (nopCall []) .fresh nopGuest) (p ++ [.step v])) := by
  refine ⟨⟨?_, ?_⟩, fun h => ?_⟩
  · rintro p v hp
    obtain ⟨rfl, rfl⟩ : p = overlapTicks.take 2 ∧ v = 0 := by
      rcases p with _ | ⟨x, _ | ⟨y, _ | ⟨z, p⟩⟩⟩ <;> simp_all [overlapTicks]
    exact ⟨hitOn 0 0x1000, rfl, by decide +kernel⟩
  · rintro a x ha
    simp [overlapTicks] at ha
  · have hmem : (runTicks "ghost.img" 1 (listening (nopCall []) .fresh nopGuest) overlapTicks).mem 0x1000 =
        some 0x90 := by decide +kernel
    have hclean : ¬ CleaningUp (listening (nopCall []) .fresh nopGuest).g (overlapTicks.take 2) := by
      rw [← runTicks_doCleanup "ghost.img" 1]
      decide +kernel
    have hown := (h (overlapTicks.take 2) 0 List.prefix_rfl hclean).own (hitOn 0 0x1000) rfl
    cases hmem.symm.trans hown

end Hyperagents
