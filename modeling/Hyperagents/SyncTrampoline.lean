import Hyperagents.SyncInstall
/-!
# The trampoline on one vCPU

On one vCPU every int3 that asks for a step gets it before the next int3, so the shared `step_rewrite_loc` is always
the address of the int3 that asked.  Then the breakpoint at `queue_work_on` is put back after every hit, and the three
of the detour, whose int3s ask for no step, never are (`Trampoline`, `trampoline_tick`).
-/
namespace Hyperagents

open Planting

/-- The breakpoints of the detour, taken out at their first hit for good. -/
def Bp.oneShot : Bp → Bool
  | .dwork | .sysSyncFront | .sysSyncBack => true
  | .qworko | .dworkBack => false

/-- How often an address was hit. -/
def hitsAt (l : List (Int3 × IntReply)) (a : Addr) : Nat := l.countP (fun x => decide (x.1.regs.rip = a))

/-- How often a vCPU was redirected to an address. -/
def redirectsTo (l : List (Int3 × IntReply)) (a : Addr) : Nat :=
  l.countP (fun x => x.2.setRegisters && decide (x.2.regs.rip = a))

/-- An int3 that toggled single-stepping on has not had its step yet. -/
def stepPending (g : Globals) (p : List Tick) : Bool :=
  p.foldl (fun pending t => match t with
    | .int3 e => (replyAt g e).toggleSinglestep
    | .step _ => false
    | _ => pending) false

/-- **The ticks one vCPU causes**, seen from the state before each: an int3 at a breakpoint needs its byte to be 0xCC
and comes with no step pending, a step comes where one is, and the guest leaves the five bytes alone. -/
def OneVcpuTick (s : SyncState) (pending : Bool) : Tick → Prop
  | .int3 e => pending = false ∧ ∀ b, e.regs.rip = s.g.addr b → s.mem e.regs.rip = some breakpointByte
  | .step _ => pending = true
  | .guest a _ => ∀ b, s.g.addr b ≠ a
  | .ret _ => True

def OneVcpu (ghostImage : String) (vmid : UInt64) (s : SyncState) (p : List Tick) : Prop :=
  ∀ q t, q ++ [t] <+: p → OneVcpuTick (runTicks ghostImage vmid s q) (stepPending s.g q) t

theorem stepPending_snoc (g : Globals) (p : List Tick) (t : Tick) : stepPending g (p ++ [t]) = match t with
    | .int3 e => (replyAt g e).toggleSinglestep
    | .step _ => false
    | _ => stepPending g p := by
  simp only [stepPending, List.foldl_append, List.foldl_cons, List.foldl_nil]

theorem hitsAt_snoc (l : List (Int3 × IntReply)) (e : Int3) (r : IntReply) (a : Addr) :
    hitsAt (l ++ [(e, r)]) a = hitsAt l a + if e.regs.rip = a then 1 else 0 := by
  simp [hitsAt, List.countP_append, List.countP_singleton]

theorem hitsAt_eq_zero_iff {l : List (Int3 × IntReply)} {a : Addr} : hitsAt l a = 0 ↔ ∀ x ∈ l, x.1.regs.rip ≠ a := by
  simp [hitsAt, List.countP_eq_zero]

section

variable (g₀ : Globals) (orig : Bp → Byte)

/-- **The invariant**: `g₀` holds the breakpoints, `orig` the bytes found there, `p` the ticks so far. -/
structure Trampoline (p : List Tick) (s : SyncState) : Prop where
  same : SameBreakpoints g₀ s.g
  quiet : s.g.doCleanup ≠ 1
  qworko : s.mem (g₀.addr .qworko) = some breakpointByte ∨
    (stepPending g₀ p = true ∧ s.g.stepRewriteLoc = g₀.addr .qworko ∧ (s.mem (g₀.addr .qworko)).isSome = true)
  oneShot : ∀ b, b.oneShot = true →
    (hitsAt (replies s.trace) (g₀.addr b) = 0 ∧ s.mem (g₀.addr b) = some breakpointByte) ∨
    (hitsAt (replies s.trace) (g₀.addr b) = 1 ∧ s.mem (g₀.addr b) = some (orig b))
  loc : stepPending g₀ p = true → ∀ b, b.oneShot = true → s.g.stepRewriteLoc ≠ g₀.addr b
  saved : ∀ x ∈ replies s.trace, x.1.regs.rip = g₀.addr .dwork →
    s.g.savedRdi = x.1.regs.rdi ∧ s.g.savedRsi = x.1.regs.rsi ∧ s.g.savedRdx = x.1.regs.rdx

variable {g₀ : Globals} {orig : Bp → Byte} {ghostImage : String} {vmid : UInt64} {p : List Tick} {s : SyncState}

theorem Trampoline.armed (h : Trampoline g₀ orig p s) (hp : stepPending g₀ p = false) :
    s.mem (g₀.addr .qworko) = some breakpointByte := by
  rcases h.qworko with harmed | ⟨hpend, -⟩
  · exact harmed
  · rw [hp] at hpend
    cases hpend

/-- A breakpoint of the detour that is armed has not been hit: after a hit its byte is the original, not 0xCC. -/
theorem Trampoline.not_hit (h : Trampoline g₀ orig p s) (horig : ∀ b, orig b ≠ breakpointByte) {b : Bp}
    (hb : b.oneShot = true) (harmed : s.mem (g₀.addr b) = some breakpointByte) :
    hitsAt (replies s.trace) (g₀.addr b) = 0 := by
  rcases h.oneShot b hb with ⟨hz, -⟩ | ⟨-, hm⟩
  · exact hz
  · rw [harmed] at hm
    exact absurd (Option.some.inj hm).symm (horig b)

/-- An int3 elsewhere leaves the registers of the dwork hit saved. -/
theorem Trampoline.saved_snoc (h : Trampoline g₀ orig p s) {e : Int3} (r : IntReply)
    (hne : e.regs.rip ≠ g₀.addr .dwork) : ∀ x ∈ replies s.trace ++ [(e, r)], x.1.regs.rip = g₀.addr .dwork →
      s.g.savedRdi = x.1.regs.rdi ∧ s.g.savedRsi = x.1.regs.rsi ∧ s.g.savedRdx = x.1.regs.rdx := by
  intro x hx hrip
  rcases List.mem_append.1 hx with hx | hx
  · exact h.saved x hx hrip
  · rw [List.mem_singleton.1 hx] at hrip
    exact absurd hrip hne

/-- A tick that is no int3 keeps the invariant where it leaves the memory at the detour's breakpoints alone. -/
theorem Trampoline.of_no_int3 (h : Trampoline g₀ orig p s) {t : Tick} {s' : SyncState} (hg : SameBreakpoints s.g s'.g)
    (hq : s'.g.doCleanup = s.g.doCleanup)
    (hsaved : s'.g.savedRdi = s.g.savedRdi ∧ s'.g.savedRsi = s.g.savedRsi ∧ s'.g.savedRdx = s.g.savedRdx)
    (hr : replies s'.trace = replies s.trace)
    (hqw : s'.mem (g₀.addr .qworko) = some breakpointByte ∨ (stepPending g₀ (p ++ [t]) = true ∧
      s'.g.stepRewriteLoc = g₀.addr .qworko ∧ (s'.mem (g₀.addr .qworko)).isSome = true))
    (hone : ∀ b, b.oneShot = true → s'.mem (g₀.addr b) = s.mem (g₀.addr b))
    (hloc : stepPending g₀ (p ++ [t]) = true → ∀ b, b.oneShot = true → s'.g.stepRewriteLoc ≠ g₀.addr b) :
    Trampoline g₀ orig (p ++ [t]) s' where
  same := h.same.trans hg
  quiet := by rw [hq]; exact h.quiet
  qworko := hqw
  oneShot b hb := by rw [hr, hone b hb]; exact h.oneShot b hb
  loc := hloc
  saved := by rw [hr, hsaved.1, hsaved.2.1, hsaved.2.2]; exact h.saved

/-- An int3 at none of the five writes at none of them, and asks for a step that will not either. -/
theorem Trampoline.foreign (h : Trampoline g₀ orig p s) (h0 : ∀ b, g₀.addr b ≠ 0) {e : Int3}
    (hf : g₀.find e.regs.rip = none) (hp : stepPending g₀ p = false) :
    Trampoline g₀ orig (p ++ [.int3 e]) (tick ghostImage vmid s (.int3 e)) := by
  obtain ⟨quiet, ht⟩ := tick_effect ghostImage vmid s (.int3 e)
  generalize tick ghostImage vmid s (.int3 e) = s' at ht
  have hfs : s.g.find e.regs.rip = none := by rw [h.same.find]; exact hf
  have hne : ∀ b, e.regs.rip ≠ g₀.addr b := find_eq_none.1 hf
  have hmem : ∀ b, s'.mem (g₀.addr b) = s.mem (g₀.addr b) := fun b => by
    rw [ht.mem]
    simp only [tickWrite, replaced, hfs, Option.map_none, Option.getD_none, pokeTick]
    exact poke_of_ne _ _ (h0 b)
  have hr : replies s'.trace = replies s.trace ++ [(e, stepReply e)] := by
    rw [ht.replies]
    simp only [tickReplies, replyAt, hfs]
  have hg := ht.g
  simp only [tickGlobals, intGlobals, hfs, reduceCtorEq, if_false] at hg
  refine ⟨h.same.trans (by rw [hg]; exact ⟨rfl, rfl, rfl⟩), ?_, ?_, ?_, ?_, ?_⟩
  · rw [hg]; exact h.quiet
  · rw [hmem]
    exact .inl (h.armed hp)
  · intro b hb
    rw [hr, hitsAt_snoc, if_neg (hne b), hmem b, Nat.add_zero]
    exact h.oneShot b hb
  · intro _ b _
    rw [hg]
    exact hne b
  · rw [hr, hg]
    exact h.saved_snoc _ (hne .dwork)

/-- An int3 at a breakpoint takes it out, and is the first there if the breakpoint belongs to the detour. -/
theorem Trampoline.found (h : Trampoline g₀ orig p s) (hinj : Function.Injective g₀.addr)
    (hbytes : ∀ b, g₀.byte b = orig b) (horig : ∀ b, orig b ≠ breakpointByte) {e : Int3} {b : Bp}
    (hf : g₀.find e.regs.rip = some b) (hb : b ≠ .dworkBack) (hp : stepPending g₀ p = false)
    (harmed : s.mem (g₀.addr b) = some breakpointByte) :
    Trampoline g₀ orig (p ++ [.int3 e]) (tick ghostImage vmid s (.int3 e)) := by
  obtain ⟨quiet, ht⟩ := tick_effect ghostImage vmid s (.int3 e)
  generalize tick ghostImage vmid s (.int3 e) = s' at ht
  have hrip : g₀.addr b = e.regs.rip := addr_of_find hf
  have hfs : s.g.find e.regs.rip = some b := by rw [h.same.find]; exact hf
  have hmem : s'.mem = poke s.mem (g₀.addr b) (orig b) := by
    rw [ht.mem]
    simp only [tickWrite, replaced, hfs, Option.map_some, Option.getD_some, pokeTick, h.same.addr, h.same.byte, hbytes]
  have hself : s'.mem (g₀.addr b) = some (orig b) := by rw [hmem, poke_self, harmed]; rfl
  have hother : ∀ b', b' ≠ b → s'.mem (g₀.addr b') = s.mem (g₀.addr b') := fun b' hne => by
    rw [hmem]
    exact poke_of_ne _ _ (fun e => hne (hinj e))
  have hr : replies s'.trace = replies s.trace ++ [(e, replyAt s.g e)] := by
    rw [ht.replies]
    rfl
  have hg := ht.g
  simp only [tickGlobals, intGlobals, hfs, Option.some.injEq] at hg
  refine ⟨h.same.trans (by rw [hg]; exact ⟨rfl, rfl, rfl⟩), ?_, ?_, ?_, ?_, ?_⟩
  · rw [hg]
    simp only [hb, if_false]
    exact h.quiet
  · by_cases hq : b = .qworko
    · subst hq
      refine .inr ⟨?_, by rw [hg]; exact hrip.symm, by rw [hself]; rfl⟩
      rw [stepPending_snoc]
      simp only [replyAt, hf, stepReply]
    · rw [hother _ (Ne.symm hq)]
      exact .inl (h.armed hp)
  · intro b' hb'
    rw [hr, hitsAt_snoc]
    by_cases hbb : b' = b
    · subst hbb
      rw [if_pos hrip.symm, h.not_hit horig hb' harmed, hself]
      exact .inr ⟨rfl, rfl⟩
    · rw [if_neg (fun e => hbb (hinj (e.symm.trans hrip.symm))), hother b' hbb, Nat.add_zero]
      exact h.oneShot b' hb'
  · intro hpend b' hb' hloc
    rw [hg] at hloc
    obtain rfl : b = b' := hinj (hrip.trans hloc)
    rw [stepPending_snoc] at hpend
    cases b <;> simp only [replyAt, hf, Bp.oneShot, reduceCtorEq] at hpend hb'
  · rw [hr, hg]
    by_cases hd : b = .dwork
    · subst hd
      intro x hx hxrip
      rcases List.mem_append.1 hx with hx | hx
      · exact absurd hxrip (hitsAt_eq_zero_iff.1 (h.not_hit horig rfl harmed) x hx)
      · rw [List.mem_singleton.1 hx]
        simp
    · simp only [hd, if_false]
      exact h.saved_snoc _ fun hxrip => hd (hinj (hrip.trans hxrip))

/-- The step asked for by the int3 before arms the breakpoint at `queue_work_on`, and none of the detour. -/
theorem Trampoline.step (h : Trampoline g₀ orig p s) (hp : stepPending g₀ p = true) (v : Nat) :
    Trampoline g₀ orig (p ++ [.step v]) (tick ghostImage vmid s (.step v)) := by
  obtain ⟨quiet, ht⟩ := tick_effect ghostImage vmid s (.step v)
  have hg := ht.g
  have hmem := ht.mem
  simp only [tickGlobals, if_neg h.quiet] at hg
  simp only [tickWrite, if_neg h.quiet, pokeTick] at hmem
  have hpend : stepPending g₀ (p ++ [.step v]) = false := stepPending_snoc _ _ _
  refine h.of_no_int3 (by rw [hg]; exact .rfl) (by rw [hg]) (by rw [hg]; exact ⟨rfl, rfl, rfl⟩) ?_ ?_ ?_ ?_
  · rw [ht.replies]
    exact List.append_nil _
  · rw [hmem]
    rcases h.qworko with hq | ⟨-, hloc, hq⟩
    · by_cases hl : g₀.addr .qworko = s.g.stepRewriteLoc
      · rw [← hl, poke_self, hq]; exact .inl rfl
      · rw [poke_of_ne _ _ hl]; exact .inl hq
    · obtain ⟨x, hx⟩ := Option.isSome_iff_exists.1 hq
      rw [hloc, poke_self, hx]; exact .inl rfl
  · intro b hb
    rw [hmem, poke_of_ne _ _ (h.loc hp b hb).symm]
  · intro hc
    rw [hpend] at hc
    cases hc

theorem Trampoline.guest (h : Trampoline g₀ orig p s) {a : Addr} (ha : ∀ b, g₀.addr b ≠ a) (x : Byte) :
    Trampoline g₀ orig (p ++ [.guest a x]) (tick ghostImage vmid s (.guest a x)) := by
  have hpend : stepPending g₀ (p ++ [.guest a x]) = stepPending g₀ p := stepPending_snoc _ _ _
  have hoff : ∀ b, poke s.mem a x (g₀.addr b) = s.mem (g₀.addr b) := fun b => poke_of_ne _ _ (ha b)
  refine h.of_no_int3 .rfl rfl ⟨rfl, rfl, rfl⟩ (replies_guest _ _ _) ?_ (fun b _ => hoff b) ?_
  · rw [hpend]
    show poke s.mem a x (g₀.addr .qworko) = _ ∨ _ ∧ _ ∧ (poke s.mem a x (g₀.addr .qworko)).isSome = _
    rw [hoff]
    exact h.qworko
  · rw [hpend]
    exact h.loc

theorem Trampoline.ret (h : Trampoline g₀ orig p s) (ok : Bool) :
    Trampoline g₀ orig (p ++ [.ret ok]) (tick ghostImage vmid s (.ret ok)) := by
  obtain ⟨quiet, ht⟩ := tick_effect ghostImage vmid s (.ret ok)
  have hpend : stepPending g₀ (p ++ [.ret ok]) = stepPending g₀ p := stepPending_snoc _ _ _
  have hg := ht.g
  have hmem : (tick ghostImage vmid s (.ret ok)).mem = s.mem := ht.mem
  simp only [tickGlobals] at hg
  refine h.of_no_int3 ?_ ?_ ?_ ?_ ?_ (fun b _ => by rw [hmem]) ?_
  · rw [hg]; split <;> exact ⟨rfl, rfl, rfl⟩
  · rw [hg]; split <;> rfl
  · rw [hg]; split <;> exact ⟨rfl, rfl, rfl⟩
  · rw [ht.replies]
    exact List.append_nil _
  · rw [hpend, hmem, hg]
    split <;> exact h.qworko
  · rw [hpend, hg]
    split <;> exact h.loc

/-- **Every tick of one vCPU keeps the invariant**, until the clean-up begins. -/
theorem Trampoline.tick (h : Trampoline g₀ orig p s) (hinj : Function.Injective g₀.addr) (h0 : ∀ b, g₀.addr b ≠ 0)
    (hbytes : ∀ b, g₀.byte b = orig b) (horig : ∀ b, orig b ≠ breakpointByte) {t : Tick}
    (hadm : OneVcpuTick s (stepPending g₀ p) t) (hclean : ¬ CleaningUp g₀ [t]) :
    Trampoline g₀ orig (p ++ [t]) (Hyperagents.tick ghostImage vmid s t) := by
  cases t with
  | int3 e =>
    cases hf : g₀.find e.regs.rip with
    | none => exact h.foreign h0 hf hadm.1
    | some b =>
      have hrip := addr_of_find hf
      refine h.found hinj hbytes horig hf (fun hb => ?_) hadm.1 ?_
      · subst hb
        exact hclean (.inr ⟨e, by simp, hf⟩)
      · rw [hrip]
        exact hadm.2 b (by rw [h.same.addr]; exact hrip.symm)
  | step v => exact h.step hadm v
  | guest a x => exact h.guest (fun b e => hadm b (by rw [h.same.addr]; exact e)) x
  | ret ok => exact h.ret ok

/-- **Every run of one vCPU keeps the invariant.** -/
theorem Trampoline.run (h : Trampoline g₀ orig [] s) (hs : s.g = g₀) (hinj : Function.Injective g₀.addr)
    (h0 : ∀ b, g₀.addr b ≠ 0) (hbytes : ∀ b, g₀.byte b = orig b) (horig : ∀ b, orig b ≠ breakpointByte)
    (hone : OneVcpu ghostImage vmid s p) (hclean : ¬ CleaningUp g₀ p) :
    Trampoline g₀ orig p (runTicks ghostImage vmid s p) := by
  induction p using List.reverseRecOn with
  | nil => exact h
  | append_singleton p t ih =>
    have hpre : p <+: p ++ [t] := List.prefix_append p [t]
    have hclean_p : ¬ CleaningUp g₀ p := fun hc => hclean (hc.mono hpre.subset)
    have hclean_t : ¬ CleaningUp g₀ [t] := fun hc => hclean (hc.mono (List.subset_append_right p [t]))
    have hadm := hone p t List.prefix_rfl
    rw [hs] at hadm
    rw [runTicks_snoc]
    exact (ih (fun q u hq => hone q u (hq.trans hpre)) hclean_p).tick hinj h0 hbytes horig hadm hclean_t

end

/-! ## From the start of the first call -/

/-- What the detour keeps to, read off the int3s so far and the memory: `g` holds the breakpoints, `m` is the memory
the call found, `pending` says whether a step is outstanding. -/
structure SingleDetour (g : Globals) (m : GuestMem) (pending : Bool) (s : SyncState) : Prop where
  /-- The breakpoint at `queue_work_on` is armed whenever no step is pending. -/
  armed : pending = false → s.mem (g.addr .qworko) = some breakpointByte
  /-- Each breakpoint of the detour is hit at most once. -/
  hitOnce : ∀ b, b.oneShot = true → hitsAt (replies s.trace) (g.addr b) ≤ 1
  /-- After its hit it is not armed again. -/
  taken : ∀ b, b.oneShot = true → 0 < hitsAt (replies s.trace) (g.addr b) →
    s.mem (g.addr b) = m (g.addr b) ∧ s.mem (g.addr b) ≠ some breakpointByte
  toSync : redirectsTo (replies s.trace) (g.addr .sysSyncFront) ≤ 1
  toDwork : redirectsTo (replies s.trace) (g.addr .dwork) ≤ 1
  /-- A redirect to dwork after the one to sys_sync brings the registers of the dwork hit back. -/
  back : ∀ x d y b z, replies s.trace = x ++ d :: y ++ b :: z →
    d.2.setRegisters = true → d.2.regs.rip = g.addr .sysSyncFront →
    b.2.setRegisters = true → b.2.regs.rip = g.addr .dwork →
      b.2.regs = { b.1.regs with
        rip := g.addr .dwork, rdi := d.1.regs.rdi, rsi := d.1.regs.rsi, rdx := d.1.regs.rdx }

/-- Redirects to one end of the detour are hits at the other. -/
theorem redirectsTo_le_hitsAt {l : List (Int3 × IntReply)} {a a' : Addr}
    (h : ∀ x ∈ l, x.2.setRegisters = true → x.2.regs.rip = a → x.1.regs.rip = a') : redirectsTo l a ≤ hitsAt l a' := by
  refine List.countP_mono_left (fun x hx hp => ?_)
  simp only [Bool.and_eq_true, decide_eq_true_eq] at hp ⊢
  exact h x hx hp.1 hp.2

section

variable {ghostImage : String} {c : SyncCall} {guest : Guest} {p : List Tick}

theorem trampoline_start (hinj : Function.Injective (resolved c .fresh))
    (horig : ∀ b, ∃ x, guest.mem (resolved c .fresh b) = some x ∧ x ≠ breakpointByte) :
    Trampoline (listening c .fresh guest).g (fun b => (guest.mem (resolved c .fresh b)).getD 0) []
        (listening c .fresh guest) ∧
      ∀ b, (listening c .fresh guest).g.byte b = (guest.mem (resolved c .fresh b)).getD 0 := by
  have hi := installed_spec c .fresh guest
  have hmem : ∀ b, (listening c .fresh guest).mem ((listening c .fresh guest).g.addr b) = some breakpointByte := by
    intro b
    obtain ⟨x, hx, -⟩ := horig b
    rw [listening_addr]
    have hp := congrFun (congrArg Prod.fst hi.plant) (resolved c .fresh b)
    refine hp.trans ((plant_at _ _ b installOrder _ (mem_installOrder b)).trans ?_)
    show (guest.mem _).map _ = _
    rw [hx]
    rfl
  refine ⟨⟨.rfl, ?_, .inl (hmem _), fun b _ => .inl ⟨?_, hmem b⟩, fun h => (by cases h), ?_⟩, fun b => ?_⟩
  · show (installed c .fresh guest).g.doCleanup ≠ 1
    rw [hi.untouched.g]
    exact Int.zero_ne_one
  · rw [listening_replies]
    rfl
  · rw [listening_replies]
    intro x hx
    cases hx
  · have hb := congrFun (congrArg Prod.snd hi.plant) b
    exact hb.trans (plant_saved_of_injective _ _ (by decide) hinj (mem_installOrder b))

theorem answers_to_front {vmid : UInt64} {s : SyncState} {ts : List Tick} {x : Int3 × IntReply}
    (hinj : Function.Injective s.g.addr) (hx : x ∈ answers ghostImage vmid s ts) (hset : x.2.setRegisters = true)
    (hrip : x.2.regs.rip = s.g.addr .sysSyncFront) : x.1.regs.rip = s.g.addr .dwork := by
  rcases answers_setRegisters ghostImage vmid hx hset with ⟨hf, -⟩ | ⟨-, hd⟩
  · exact (addr_of_find hf).symm
  · cases hinj (hd.symm.trans hrip)

theorem answers_to_dwork {vmid : UInt64} {s : SyncState} {ts : List Tick} {x : Int3 × IntReply}
    (hinj : Function.Injective s.g.addr) (hx : x ∈ answers ghostImage vmid s ts) (hset : x.2.setRegisters = true)
    (hrip : x.2.regs.rip = s.g.addr .dwork) : x.1.regs.rip = s.g.addr .sysSyncBack := by
  rcases answers_setRegisters ghostImage vmid hx hset with ⟨-, hd⟩ | ⟨hf, -⟩
  · cases hinj (hd.symm.trans hrip)
  · exact (addr_of_find hf).symm

/-- **The trampoline on one vCPU**, in every state of the first call's event loop until the clean-up begins. -/
theorem first_sync_single_detour (ghostImage : String) (c : SyncCall) (guest : Guest) (p : List Tick)
    (hinj : Function.Injective (resolved c .fresh)) (h0 : ∀ b, resolved c .fresh b ≠ 0)
    (horig : ∀ b, ∃ x, guest.mem (resolved c .fresh b) = some x ∧ x ≠ breakpointByte)
    (hone : OneVcpu ghostImage c.vmid (listening c .fresh guest) p)
    (hclean : ¬ CleaningUp (listening c .fresh guest).g p) :
    SingleDetour (listening c .fresh guest).g guest.mem (stepPending (listening c .fresh guest).g p)
      (runTicks ghostImage c.vmid (listening c .fresh guest) p) := by
  obtain ⟨hstart, hbytes⟩ := @trampoline_start c guest hinj horig
  have haddr : (listening c .fresh guest).g.addr = resolved c .fresh := listening_addr
  have hrep : ∀ q, replies (runTicks ghostImage c.vmid (listening c .fresh guest) q).trace =
      answers ghostImage c.vmid (listening c .fresh guest) q := fun q => by
    rw [replies_runTicks, listening_replies, List.nil_append]
  have horig' : ∀ b, (guest.mem (resolved c .fresh b)).getD 0 ≠ breakpointByte := fun b => by
    obtain ⟨x, hx, hne⟩ := horig b
    rw [hx]
    exact hne
  have hinj' : Function.Injective (listening c .fresh guest).g.addr := by rw [haddr]; exact hinj
  have hrun : ∀ q, q <+: p → Trampoline (listening c .fresh guest).g
      (fun b => (guest.mem (resolved c .fresh b)).getD 0) q
      (runTicks ghostImage c.vmid (listening c .fresh guest) q) := fun q hq =>
    hstart.run rfl hinj' (by rw [haddr]; exact h0) hbytes horig' (fun r t hr => hone r t (hr.trans hq))
      fun hc => hclean (hc.mono hq.subset)
  have h := hrun p List.prefix_rfl
  have hhits : ∀ b, b.oneShot = true → hitsAt (replies (runTicks ghostImage c.vmid (listening c .fresh guest) p).trace)
      ((listening c .fresh guest).g.addr b) ≤ 1 := fun b hb => by
    rcases h.oneShot b hb with ⟨hz, -⟩ | ⟨hz, -⟩ <;> omega
  refine ⟨fun hp => ?_, hhits, fun b hb hpos => ?_, ?_, ?_, ?_⟩
  · exact h.armed hp
  · obtain ⟨x, hx, hne⟩ := horig b
    rcases h.oneShot b hb with ⟨hz, -⟩ | ⟨-, hm⟩
    · omega
    · rw [hm, haddr, hx]
      exact ⟨rfl, fun e => hne (Option.some.inj e)⟩
  · refine (redirectsTo_le_hitsAt ?_).trans (hhits .dwork rfl)
    rw [hrep]
    exact fun x hx hset hrip => answers_to_front hinj' hx hset hrip
  · refine (redirectsTo_le_hitsAt ?_).trans (hhits .sysSyncBack rfl)
    rw [hrep]
    exact fun x hx hset hrip => answers_to_dwork hinj' hx hset hrip
  · intro x d y b z heq hdset hdrip hbset hbrip
    rw [hrep] at heq
    have hdmem : d ∈ answers ghostImage c.vmid (listening c .fresh guest) p := by rw [heq]; simp
    have hdhit := answers_to_front hinj' hdmem hdset hdrip
    obtain ⟨q, q', rfl, hq, hr, -⟩ := answers_split ghostImage c.vmid p _ _ z heq
    have hsame := runTicks_same ghostImage c.vmid (listening c .fresh guest) q
    have hpre : q <+: q ++ .int3 b.1 :: q' := List.prefix_append _ _
    have hsaved := (hrun q hpre).saved d (by rw [hrep, hq]; simp) hdhit
    rw [hr] at hbset hbrip ⊢
    rcases replyAt_setRegisters hbset with ⟨-, hrip⟩ | ⟨hf, -⟩
    · rw [hsame.addr] at hrip
      cases hinj' (hrip.symm.trans hbrip)
    · simp only [replyAt, hf, hsame.addr, hsaved.1, hsaved.2.1, hsaved.2.2]

/-- The whole detour: `queue_work_on` and its step, dwork, sys_sync and its tail. -/
def detourTicks : List Tick :=
  [.int3 (hit 0 0x1000), .step 0, .int3 (hit 0 0x2000), .int3 (hit 0 0x3000), .int3 (hit 0 0x309c)]

theorem first_sync_single_detour_nop :
    SingleDetour (listening (nopCall []) .fresh nopGuest).g nopGuest.mem
      (stepPending (listening (nopCall []) .fresh nopGuest).g detourTicks)
      (runTicks "ghost.img" 1 (listening (nopCall []) .fresh nopGuest) detourTicks) := by
  refine first_sync_single_detour "ghost.img" (nopCall []) nopGuest detourTicks (nopCall_injective _ _) ?_ ?_ ?_ ?_
  · rintro b
    cases b <;> decide
  · rintro b
    exact ⟨0x90, by cases b <;> decide, by decide⟩
  · have hpending : stepPending (listening (nopCall []) .fresh nopGuest).g [.int3 (hit 0 0x1000)] = true := by
      decide +kernel
    unfold OneVcpu detourTicks
    simp only [forall_prefix_cons]
    refine ⟨⟨by decide +kernel, fun _ _ => by decide +kernel⟩, hpending,
      ⟨by decide +kernel, fun _ _ => by decide +kernel⟩, ⟨by decide +kernel, fun _ _ => by decide +kernel⟩,
      ⟨by decide +kernel, fun _ _ => by decide +kernel⟩, forall_prefix_nil⟩
  · rintro (hd | ⟨e, he, hf⟩)
    · revert hd
      decide +kernel
    · simp only [detourTicks, List.mem_cons, Tick.int3.injEq, reduceCtorEq, List.not_mem_nil, or_false, false_or] at he
      rcases he with rfl | rfl | rfl | rfl <;> revert hf <;> decide +kernel

end

end Hyperagents
