import Mathlib.Data.List.Infix
import Hyperagents.DoSync
/-!
# Runs of the event loop

`runTicks` is the state after a list of ticks.  The loop is left at the first return of a listen that finds
`interrupted` set (`eventLoop_used`), and what sets it can be read off the ticks alone (`Stops`,
`interrupted_runTicks`): a listen that failed, an int3 past the safety counter's fifty, a single step once the clean-up
has begun.  So the ticks a call gets to see are those before which the loop is still `Live`.

`tick_effect` is the step lemma: what one tick does to the globals, the memory and the two readings of the trace.
-/
namespace Hyperagents

open Planting

section

variable (ghostImage : String) (vmid : UInt64)

def runTicks (s : SyncState) (ts : List Tick) : SyncState := ts.foldl (tick ghostImage vmid) s

@[simp] theorem runTicks_nil (s : SyncState) : runTicks ghostImage vmid s [] = s := rfl

theorem runTicks_snoc (s : SyncState) (ts : List Tick) (t : Tick) :
    runTicks ghostImage vmid s (ts ++ [t]) = tick ghostImage vmid (runTicks ghostImage vmid s ts) t := by
  simp [runTicks]

/-! ## One tick -/

/-- What a tick makes of the globals, up to the flag that quiets the first phase. -/
def tickGlobals (g : Globals) (quiet : Int) : Tick → Globals
  | .int3 e => intGlobals g e quiet
  | .step _ => if g.doCleanup = 1 then { g with interrupted := 1 } else g
  | .guest _ _ => g
  | .ret ok => if ok then g else { g with interrupted := -1 }

/-- The write a tick makes, if any. -/
def tickWrite (g : Globals) : Tick → Option (Addr × Byte)
  | .int3 e => some (replaced g e.regs.rip)
  | .step _ => if g.doCleanup = 1 then none else some (g.stepRewriteLoc, breakpointByte)
  | .guest a b => some (a, b)
  | .ret _ => none

def pokeTick (m : GuestMem) : Option (Addr × Byte) → GuestMem
  | none => m
  | some w => poke m w.1 w.2

/-- What a tick adds to the int3s of the trace. -/
def tickReplies (g : Globals) : Tick → List (Int3 × IntReply)
  | .int3 e => [(e, replyAt g e)]
  | _ => []

/-- What a tick adds to the guest's own writes. -/
def tickOwn : Tick → List (Addr × Byte)
  | .guest a b => [(a, b)]
  | _ => []

/-- **The step lemma of the event loop.** -/
structure TickEffect (s s' : SyncState) (t : Tick) (quiet : Int) : Prop where
  g : s'.g = tickGlobals s.g quiet t
  mem : s'.mem = pokeTick s.mem (tickWrite s.g t)
  replies : replies s'.trace = replies s.trace ++ tickReplies s.g t
  ownWrites : ownWrites s'.trace = ownWrites s.trace ++ tickOwn t

theorem afterListen_effect (ok : Bool) (s : SyncState) :
    TickEffect s (afterListen ghostImage vmid ok s) (.ret ok) 0 := by
  unfold afterListen
  cases ok <;> cases ha : s.attached <;>
    exact ⟨by simp [tickGlobals, ha], by simp [pokeTick, tickWrite, ha], by simp [replies, tickReplies, ha],
      by simp [ownWrites, tickOwn, ha]⟩

theorem tick_effect (s : SyncState) (t : Tick) : ∃ quiet, TickEffect s (tick ghostImage vmid s t) t quiet := by
  cases t with
  | int3 e =>
    obtain ⟨hr, quiet, h⟩ := intCbFront_effect e s
    refine ⟨quiet, h.g, h.mem, ?_, ?_⟩
    · show replies ((intCbFront e s).1.trace ++ [.int3 e (intCbFront e s).2]) = _
      rw [replies_append, h.replies, hr]
      rfl
    · show ownWrites ((intCbFront e s).1.trace ++ [.int3 e (intCbFront e s).2]) = _
      rw [ownWrites_append, h.ownWrites]
      rfl
  | step v =>
    have h := stepCbFront_effect v s
    refine ⟨0, h.g, ?_, ?_, ?_⟩
    · show (stepCbFront v s).mem = _
      rw [h.mem]
      simp only [tickWrite]
      split <;> rfl
    · show replies ((stepCbFront v s).trace ++ [.step v]) = _
      rw [replies_append, h.replies]
      rfl
    · show ownWrites ((stepCbFront v s).trace ++ [.step v]) = _
      rw [ownWrites_append, h.ownWrites]
      rfl
  | guest a b =>
    exact ⟨0, rfl, rfl, by simp [tick, replies, tickReplies], by simp [tick, ownWrites, tickOwn]⟩
  | ret ok => exact ⟨0, afterListen_effect ghostImage vmid ok s⟩

theorem tickGlobals_same (g : Globals) (quiet : Int) (t : Tick) : SameBreakpoints g (tickGlobals g quiet t) := by
  cases t with
  | int3 e => exact intGlobals_same g e quiet
  | step v => simp only [tickGlobals]; split <;> exact ⟨rfl, rfl, rfl⟩
  | guest a b => exact .rfl
  | ret ok => simp only [tickGlobals]; split <;> exact ⟨rfl, rfl, rfl⟩

theorem runTicks_same (s : SyncState) (ts : List Tick) :
    SameBreakpoints s.g (runTicks ghostImage vmid s ts).g := by
  induction ts using List.reverseRecOn with
  | nil => exact .rfl
  | append_singleton ts t ih =>
    rw [runTicks_snoc]
    obtain ⟨quiet, h⟩ := tick_effect ghostImage vmid (runTicks ghostImage vmid s ts) t
    rw [h.g]
    exact ih.trans (tickGlobals_same _ quiet t)

theorem runTicks_find (s : SyncState) (ts : List Tick) : (runTicks ghostImage vmid s ts).g.find = s.g.find :=
  (runTicks_same ghostImage vmid s ts).find

/-! ## What sets `interrupted` -/

def Tick.isInt3 : Tick → Bool
  | .int3 _ => true
  | _ => false

/-- The clean-up has begun: it had before, or an int3 was at dwork's last breakpoint. -/
def CleaningUp (g : Globals) (p : List Tick) : Prop :=
  g.doCleanup = 1 ∨ ∃ e, .int3 e ∈ p ∧ g.find e.regs.rip = some .dworkBack

/-- The tick is an int3 at dwork's last breakpoint. -/
def Tick.atDworkBack (g : Globals) : Tick → Bool
  | .int3 e => g.find e.regs.rip == some .dworkBack
  | .step _ | .guest _ _ | .ret _ => false

instance (g : Globals) (p : List Tick) : Decidable (CleaningUp g p) :=
  decidable_of_iff (g.doCleanup = 1 ∨ ∃ t ∈ p, t.atDworkBack g = true) <| by
    refine or_congr_right ⟨?_, ?_⟩
    · rintro ⟨t, ht, hat⟩
      cases t with
      | int3 e => exact ⟨e, ht, eq_of_beq hat⟩
      | _ => cases hat
    · rintro ⟨e, he, hf⟩
      exact ⟨_, he, beq_iff_eq.2 hf⟩

/-- One of the ticks of `p` sets `interrupted`. -/
def Stops (g : Globals) (p : List Tick) : Prop :=
  .ret false ∈ p ∨
  (∃ q e, q ++ [.int3 e] <+: p ∧ 50 < g.safety + UInt64.ofNat (q.countP Tick.isInt3 + 1)) ∨
  (∃ q v, q ++ [.step v] <+: p ∧ CleaningUp g q)

/-- The loop has not been left before the end of `p`. -/
def Live (g : Globals) (p : List Tick) : Prop :=
  g.interrupted = 0 ∧ ∀ q ok, q ++ [.ret ok] <+: p → ¬ Stops g (q ++ [.ret ok])

/-- A tick sets `interrupted`, told from the ticks before it. -/
def StopTick (g : Globals) (p : List Tick) : Tick → Prop
  | .int3 _ => 50 < g.safety + UInt64.ofNat (p.countP Tick.isInt3 + 1)
  | .step _ => CleaningUp g p
  | .guest _ _ => False
  | .ret ok => ok = false

theorem CleaningUp.mono {g : Globals} {p q : List Tick} (hsub : p ⊆ q) (h : CleaningUp g p) : CleaningUp g q := by
  rcases h with hd | ⟨e, he, hf⟩
  · exact .inl hd
  · exact .inr ⟨e, hsub he, hf⟩

theorem prefix_snoc_eq {α : Type} {p q : List α} {a b : α} : p ++ [a] = q ++ [b] ↔ p = q ∧ a = b := by
  constructor
  · intro h
    obtain ⟨h1, h2⟩ := List.append_inj' h rfl
    exact ⟨h1, by simpa using h2⟩
  · rintro ⟨rfl, rfl⟩
    rfl

/-- Over the steps of a list: the first, and those after it. -/
theorem forall_prefix_cons {α : Type} {P : List α → α → Prop} {a : α} {l : List α} :
    (∀ q t, q ++ [t] <+: a :: l → P q t) ↔ P [] a ∧ ∀ q t, q ++ [t] <+: l → P (a :: q) t := by
  constructor
  · intro h
    exact ⟨h [] a ⟨l, rfl⟩, fun q t hq => h (a :: q) t (List.cons_prefix_cons.2 ⟨rfl, hq⟩)⟩
  · rintro ⟨h1, h2⟩ q t hq
    cases q with
    | nil =>
      obtain ⟨rfl, -⟩ := List.cons_prefix_cons.1 hq
      exact h1
    | cons b q =>
      obtain ⟨rfl, htail⟩ := List.cons_prefix_cons.1 hq
      exact h2 q t htail

theorem forall_prefix_nil {α : Type} {P : List α → α → Prop} : ∀ q t, q ++ [t] <+: ([] : List α) → P q t := by
  intro q t hq
  simp at hq

theorem stops_snoc (g : Globals) (p : List Tick) (t : Tick) : Stops g (p ++ [t]) ↔ Stops g p ∨ StopTick g p t := by
  simp only [Stops, List.mem_append, List.mem_singleton, List.prefix_concat_iff, prefix_snoc_eq]
  constructor
  · rintro ((h | rfl) | ⟨q, e, ⟨rfl, rfl⟩ | h, hs⟩ | ⟨q, v, ⟨rfl, rfl⟩ | h, hc⟩)
    · exact .inl (.inl h)
    · exact .inr rfl
    · exact .inr hs
    · exact .inl (.inr (.inl ⟨q, e, h, hs⟩))
    · exact .inr hc
    · exact .inl (.inr (.inr ⟨q, v, h, hc⟩))
  · rintro ((h | ⟨q, e, h, hs⟩ | ⟨q, v, h, hc⟩) | h)
    · exact .inl (.inl h)
    · exact .inr (.inl ⟨q, e, .inr h, hs⟩)
    · exact .inr (.inr ⟨q, v, .inr h, hc⟩)
    · cases t with
      | int3 e => exact .inr (.inl ⟨p, e, .inl ⟨rfl, rfl⟩, h⟩)
      | step v => exact .inr (.inr ⟨p, v, .inl ⟨rfl, rfl⟩, h⟩)
      | guest a b => exact h.elim
      | ret ok => exact .inl (.inr (by rw [show ok = false from h]))

theorem runTicks_safety (s : SyncState) (p : List Tick) :
    (runTicks ghostImage vmid s p).g.safety = s.g.safety + UInt64.ofNat (p.countP Tick.isInt3) := by
  induction p using List.reverseRecOn with
  | nil => simp
  | append_singleton p t ih =>
    rw [runTicks_snoc]
    obtain ⟨quiet, h⟩ := tick_effect ghostImage vmid (runTicks ghostImage vmid s p) t
    rw [h.g]
    cases t with
    | int3 e => simp [tickGlobals, intGlobals, ih, Tick.isInt3, UInt64.add_assoc]
    | step v => simp only [tickGlobals]; split <;> simp [ih, Tick.isInt3]
    | guest a b => simp [tickGlobals, ih, Tick.isInt3]
    | ret ok => simp only [tickGlobals]; split <;> simp [ih, Tick.isInt3]

theorem runTicks_doCleanup (s : SyncState) (p : List Tick) :
    (runTicks ghostImage vmid s p).g.doCleanup = 1 ↔ CleaningUp s.g p := by
  induction p using List.reverseRecOn with
  | nil => simp [CleaningUp]
  | append_singleton p t ih =>
    rw [runTicks_snoc]
    obtain ⟨quiet, h⟩ := tick_effect ghostImage vmid (runTicks ghostImage vmid s p) t
    rw [h.g]
    cases t with
    | int3 e =>
      simp only [tickGlobals, intGlobals, runTicks_find]
      unfold CleaningUp at ih ⊢
      by_cases hf : s.g.find e.regs.rip = some .dworkBack
      · simp [hf]
      · rw [if_neg hf, ih]
        refine or_congr_right (exists_congr (fun e' => ?_))
        simp only [List.mem_append, List.mem_singleton, Tick.int3.injEq]
        constructor
        · rintro ⟨hm, he⟩
          exact ⟨.inl hm, he⟩
        · rintro ⟨hm | rfl, he⟩
          · exact ⟨hm, he⟩
          · exact absurd he hf
    | step v => simp only [tickGlobals]; split <;> simpa [CleaningUp] using ih
    | guest a b => simpa [tickGlobals, CleaningUp] using ih
    | ret ok => simp only [tickGlobals]; split <;> simpa [CleaningUp] using ih

/-- **`interrupted` is set exactly by what `Stops` lists**, and never cleared. -/
theorem interrupted_runTicks (s : SyncState) (p : List Tick) :
    (runTicks ghostImage vmid s p).g.interrupted ≠ 0 ↔ s.g.interrupted ≠ 0 ∨ Stops s.g p := by
  induction p using List.reverseRecOn with
  | nil => simp [Stops]
  | append_singleton p t ih =>
    have hsafe := runTicks_safety ghostImage vmid s p
    have hclean := runTicks_doCleanup ghostImage vmid s p
    rw [runTicks_snoc, stops_snoc, ← or_assoc, ← ih]
    obtain ⟨quiet, h⟩ := tick_effect ghostImage vmid (runTicks ghostImage vmid s p) t
    rw [h.g]
    cases t with
    | int3 e =>
      simp only [tickGlobals, intGlobals, StopTick, hsafe, UInt64.ofNat_add, ← UInt64.add_assoc]
      split
      · rename_i hs
        simp only [ne_eq, Int.one_ne_zero, not_false_eq_true, true_iff]
        exact .inr hs
      · rename_i hs
        exact ⟨.inl, fun h => h.resolve_right hs⟩
    | step v =>
      simp only [tickGlobals, StopTick, ← hclean]
      split
      · rename_i hc
        simp [hc]
      · rename_i hc
        exact ⟨.inl, fun h => h.resolve_right hc⟩
    | guest a b => simp [tickGlobals, StopTick]
    | ret ok => cases ok <;> simp [tickGlobals, StopTick]

/-! ## Where the loop is left -/

theorem listenLoop_eq_some : ∀ (ts : List Tick) (s s' : SyncState), listenLoop ghostImage vmid s ts = some s' →
    ∃ p ok rest, ts = p ++ .ret ok :: rest ∧ s' = runTicks ghostImage vmid s (p ++ [.ret ok]) ∧
      s'.g.interrupted ≠ 0 ∧
      ∀ q ok', q ++ [.ret ok'] <+: p → (runTicks ghostImage vmid s (q ++ [.ret ok'])).g.interrupted = 0
  | [], _, _, h => by cases h
  | t :: ts, s, s', h => by
    simp only [listenLoop] at h
    split at h
    · rename_i hret
      cases t with
      | ret ok =>
        cases h
        exact ⟨[], ok, ts, rfl, rfl, hret.2, fun q ok' hq => by simp at hq⟩
      | _ => cases hret.1
    · rename_i hret
      obtain ⟨p, ok, rest, rfl, rfl, hint, hq⟩ := listenLoop_eq_some ts _ s' h
      refine ⟨t :: p, ok, rest, rfl, rfl, hint, fun q ok' hpre => ?_⟩
      cases q with
      | nil =>
        obtain ⟨rfl, -⟩ := List.cons_prefix_cons.1 hpre
        exact Classical.byContradiction (fun hne => hret ⟨rfl, hne⟩)
      | cons u q =>
        obtain ⟨rfl, htail⟩ := List.cons_prefix_cons.1 hpre
        exact hq q ok' htail

theorem live_iff (s : SyncState) (p : List Tick) :
    Live s.g p ↔ s.g.interrupted = 0 ∧
      ∀ q ok, q ++ [.ret ok] <+: p → (runTicks ghostImage vmid s (q ++ [.ret ok])).g.interrupted = 0 := by
  unfold Live
  refine and_congr_right (fun h0 => ?_)
  have hint : ∀ r, (runTicks ghostImage vmid s r).g.interrupted = 0 ↔ ¬ Stops s.g r := fun r => by
    have := interrupted_runTicks ghostImage vmid s r
    simp only [h0, ne_eq, not_true_eq_false, false_or] at this
    rw [← this, not_not]
  simp only [hint]

/-- **The ticks a loop gets to see** are those before which it is live. -/
theorem eventLoop_used {s s' : SyncState} {ts : List Tick} (h : eventLoop ghostImage vmid s ts = some s') :
    ∃ used, used <+: ts ∧ s' = runTicks ghostImage vmid s used ∧ s'.g.interrupted ≠ 0 ∧
      ∀ p t, p ++ [t] <+: used ↔ p ++ [t] <+: ts ∧ Live s.g p := by
  unfold eventLoop at h
  by_cases h0 : s.g.interrupted = 0
  · rw [if_neg (not_not.2 h0)] at h
    obtain ⟨p₀, ok, rest, rfl, rfl, hint, hq⟩ := listenLoop_eq_some ghostImage vmid ts s s' h
    have hused : p₀ ++ [.ret ok] <+: p₀ ++ .ret ok :: rest := ⟨rest, by simp⟩
    refine ⟨p₀ ++ [.ret ok], hused, rfl, hint, fun p t => ⟨fun hp => ⟨hp.trans hused, ?_⟩, ?_⟩⟩
    · rw [live_iff ghostImage vmid]
      have hp₀ : p <+: p₀ := by
        rcases List.prefix_concat_iff.1 hp with heq | hp
        · exact (prefix_snoc_eq.1 heq).1 ▸ List.prefix_rfl
        · exact (List.prefix_append _ _).trans hp
      exact ⟨h0, fun q ok' hpre => hq q ok' (hpre.trans hp₀)⟩
    · rintro ⟨hp, hlive⟩
      rcases List.prefix_or_prefix_of_prefix hp hused with hle | hle
      · exact hle
      · rcases List.prefix_concat_iff.1 hle with heq | hle
        · rw [heq]
        · exact absurd (((live_iff ghostImage vmid s p).1 hlive).2 p₀ ok hle) hint
  · rw [if_pos h0] at h
    cases h
    refine ⟨[], List.nil_prefix, rfl, h0, fun p t => ⟨fun hp => ?_, fun hp => absurd hp.2.1 h0⟩⟩
    simp at hp

/-! ## The replies of a run -/

/-- The int3s of a run of ticks, each with the reply it got. -/
def answers (s : SyncState) : List Tick → List (Int3 × IntReply)
  | [] => []
  | t :: ts => tickReplies s.g t ++ answers (tick ghostImage vmid s t) ts

theorem replies_runTicks : ∀ (ts : List Tick) (s : SyncState),
    replies (runTicks ghostImage vmid s ts).trace = replies s.trace ++ answers ghostImage vmid s ts
  | [], s => by simp [answers]
  | t :: ts, s => by
    obtain ⟨quiet, h⟩ := tick_effect ghostImage vmid s t
    show replies (runTicks ghostImage vmid (tick ghostImage vmid s t) ts).trace = _
    rw [replies_runTicks ts, h.replies, answers, List.append_assoc]

theorem answers_append : ∀ (ts us : List Tick) (s : SyncState), answers ghostImage vmid s (ts ++ us) =
    answers ghostImage vmid s ts ++ answers ghostImage vmid (runTicks ghostImage vmid s ts) us
  | [], _, _ => rfl
  | t :: ts, us, s => by
    simp only [List.cons_append, answers, answers_append ts us, List.append_assoc]
    rfl

/-- **Where a reply comes from**: an entry of the run's replies is an int3 of its ticks. -/
theorem answers_split {e : Int3} {r : IntReply} : ∀ (ts : List Tick) (s : SyncState) (x y : List (Int3 × IntReply)),
    answers ghostImage vmid s ts = x ++ (e, r) :: y →
      ∃ p q, ts = p ++ .int3 e :: q ∧ answers ghostImage vmid s p = x ∧
        r = replyAt (runTicks ghostImage vmid s p).g e ∧
        answers ghostImage vmid (runTicks ghostImage vmid s (p ++ [.int3 e])) q = y
  | [], _, x, y, h => by cases x <;> cases h
  | t :: ts, s, x, y, h => by
    have later : ∀ x', answers ghostImage vmid (tick ghostImage vmid s t) ts = x' ++ (e, r) :: y →
        x = tickReplies s.g t ++ x' → ∃ p q, t :: ts = p ++ .int3 e :: q ∧ answers ghostImage vmid s p = x ∧
          r = replyAt (runTicks ghostImage vmid s p).g e ∧
          answers ghostImage vmid (runTicks ghostImage vmid s (p ++ [.int3 e])) q = y := by
      intro x' hx' hx
      obtain ⟨p, q, rfl, hp, hr, hy⟩ := answers_split ts _ x' y hx'
      exact ⟨t :: p, q, rfl, by rw [hx, ← hp]; rfl, hr, hy⟩
    simp only [answers] at h
    cases t with
    | int3 e' =>
      cases x with
      | nil =>
        simp only [tickReplies, List.singleton_append, List.nil_append, List.cons.injEq, Prod.mk.injEq] at h
        obtain ⟨⟨rfl, rfl⟩, rfl⟩ := h
        exact ⟨[], ts, rfl, rfl, rfl, rfl⟩
      | cons a x' =>
        simp only [tickReplies, List.cons_append, List.cons.injEq] at h
        exact later x' h.2 (by rw [← h.1]; rfl)
    | _ => exact later x h rfl

/-- An entry of a run's replies, and the ticks before it. -/
theorem mem_answers {s : SyncState} {ts : List Tick} {x : Int3 × IntReply} (h : x ∈ answers ghostImage vmid s ts) :
    ∃ p, p ++ [.int3 x.1] <+: ts ∧ x.2 = replyAt (runTicks ghostImage vmid s p).g x.1 := by
  obtain ⟨y, z, hyz⟩ := List.append_of_mem h
  obtain ⟨p, q, rfl, -, hr, -⟩ := answers_split ghostImage vmid ts s y z hyz
  exact ⟨p, ⟨q, by simp⟩, hr⟩

/-- Which int3s set the registers: those at the two ends of the detour. -/
theorem replyAt_setRegisters {g : Globals} {e : Int3} (h : (replyAt g e).setRegisters = true) :
    (g.find e.regs.rip = some .dwork ∧ (replyAt g e).regs.rip = g.addr .sysSyncFront) ∨
    (g.find e.regs.rip = some .sysSyncBack ∧ (replyAt g e).regs.rip = g.addr .dwork) := by
  unfold replyAt at h ⊢
  cases hf : g.find e.regs.rip with
  | none => rw [hf] at h; cases h
  | some b =>
    rw [hf] at h
    cases b with
    | dwork => exact .inl ⟨rfl, rfl⟩
    | sysSyncBack => exact .inr ⟨rfl, rfl⟩
    | _ => cases h

/-- A redirect of a run leads from one end of the detour to the other. -/
theorem answers_setRegisters {s : SyncState} {ts : List Tick} {x : Int3 × IntReply}
    (hx : x ∈ answers ghostImage vmid s ts) (hset : x.2.setRegisters = true) :
    (s.g.find x.1.regs.rip = some .dwork ∧ x.2.regs.rip = s.g.addr .sysSyncFront) ∨
    (s.g.find x.1.regs.rip = some .sysSyncBack ∧ x.2.regs.rip = s.g.addr .dwork) := by
  obtain ⟨p, -, hr⟩ := mem_answers ghostImage vmid hx
  have hsame := runTicks_same ghostImage vmid s p
  rw [hr] at hset ⊢
  rw [← hsame.find, ← hsame.addr]
  exact replyAt_setRegisters hset

end

end Hyperagents
