import Hyperagents.Flushes
import Hyperagents.SyncRepeat
/-!
# One flush a process

The globals of `do_sync` belong to the process, and nothing clears `interrupted`.  So of all the flushes of a run, of
whichever guests, only the first that finds the work function attaches the ghost image and answers int3s; the others
plant their breakpoints, take them out again and detach an image that is not there (`flushed_once`).
-/
namespace Hyperagents

open Runs Planting

def Act.attaches : Act → Bool
  | .system (.xlBlockAttach _ _) => true
  | _ => false

def Act.detaches : Act → Bool
  | .system (.xlBlockDetach _) => true
  | _ => false

/-- What each call of a run does in `do_sync`, with the handle of the guest; nothing where the call flushes none. -/
def flushes {δ : Type} (shell : Shell δ) : HaState δ → List HaOp → List (List (Vmi × Act)) :=
  history (haStep shell) fun s op => [syncs (callTrace shell s (.op op))]

/-- How many of a flush's entries `f` finds. -/
def tally (f : Act → Bool) (flush : List (Vmi × Act)) : Nat := (flush.map Prod.snd).countP f

theorem map_snd_tagged (v : Vmi) (t : List Act) : (t.map (v, ·)).map Prod.snd = t := by
  rw [List.map_map]
  exact List.map_id t

/-! ## The two commands of one call -/

theorem countP_effects {f : Act → Bool} (hf : ∀ a, f a = true → a.isEffect = true) (t : List Act) :
    (effects t).countP f = t.countP f := by
  unfold effects
  rw [List.countP_filter]
  apply List.countP_congr
  intro a _
  cases hfa : f a with
  | true => simp [hf a hfa]
  | false => simp

theorem isEffect_of_attaches (a : Act) (h : a.attaches = true) : a.isEffect = true := by
  unfold Act.attaches at h
  split at h
  · rfl
  · cases h

theorem isEffect_of_detaches (a : Act) (h : a.detaches = true) : a.isEffect = true := by
  unfold Act.detaches at h
  split at h
  · rfl
  · cases h

theorem countP_eq_zero {t : List Act} (h : ∀ k, .system k ∉ t) :
    t.countP Act.attaches = 0 ∧ t.countP Act.detaches = 0 := by
  constructor <;> rw [List.countP_eq_zero] <;> intro a ha hcount
  · unfold Act.attaches at hcount
    split at hcount
    · exact h _ ha
    · cases hcount
  · unfold Act.detaches at hcount
    split at hcount
    · exact h _ ha
    · cases hcount

variable {ghostImage : String} {vmid : UInt64} {c : SyncCall} {g : Globals} {guest : Guest} {ret : Int}
  {s s' t : SyncState}

theorem attaches_tick (s : SyncState) (t : Tick) : (tickEffects ghostImage vmid s t).countP Act.attaches =
    if t.isRet = true ∧ s.attached = false then 1 else 0 := by
  cases t with
  | int3 e => exact (countP_eq_zero fun k hk => absurd (mem_effects.1 hk).1 (by simp [writeAct])).1
  | step v =>
    by_cases hclean : s.g.doCleanup = 1
    · simp only [tickEffects, if_pos hclean]
      rfl
    · simp only [tickEffects, if_neg hclean]
      exact (countP_eq_zero fun k hk => absurd (mem_effects.1 hk).1 (by simp [writeAct])).1
  | guest a b => rfl
  | ret ok =>
    simp only [tickEffects]
    cases ok <;> cases s.attached <;> rfl

/-- The attachment is the first thing done after the first listen, and only then. -/
theorem attaches_runTicks (hs : (effects s.trace).countP Act.attaches = s.attached.toNat) (ts : List Tick) :
    (effects (runTicks ghostImage vmid s ts).trace).countP Act.attaches =
      (runTicks ghostImage vmid s ts).attached.toNat := by
  induction ts using List.reverseRecOn with
  | nil => exact hs
  | append_singleton ts t ih =>
    rw [runTicks_snoc, tick_effects, List.countP_append, ih, attaches_tick, tick_attached]
    cases (runTicks ghostImage vmid s ts).attached <;> cases t.isRet <;> rfl

theorem detaches_runTicks (hs : (effects s.trace).countP Act.detaches = 0) (ts : List Tick) :
    (effects (runTicks ghostImage vmid s ts).trace).countP Act.detaches = 0 := by
  induction ts using List.reverseRecOn with
  | nil => exact hs
  | append_singleton ts t ih =>
    rw [runTicks_snoc, tick_effects, List.countP_append, ih, Nat.zero_add, List.countP_eq_zero]
    intro a ha hcount
    unfold Act.detaches at hcount
    split at hcount
    · rcases tickEffects_system ha with h | h <;> cases h
    · cases hcount

theorem replaceMemory_count {f : Act → Bool} (hf : ∀ m a b, f (writeAct m a b) = false) (c : SyncCall) :
    ∀ (ks : List Bp) (s : SyncState),
      (effects (ks.foldl (replaceByte c) s).trace).countP f = (effects s.trace).countP f
  | [], _ => rfl
  | k :: ks, s => by
    have hwrite : (effects [writeAct (pokes s.mem (c.late k)) (s.g.addr k) (s.g.byte k)]).countP f = 0 := by
      rw [List.countP_eq_zero]
      intro a ha
      rw [List.mem_singleton.1 (mem_effects.1 ha).1, hf]
      exact Bool.false_ne_true
    rw [List.foldl_cons, replaceMemory_count hf c ks, replaceByte_effects, List.countP_append, hwrite, Nat.add_zero]

theorem finish_count (c : SyncCall) (s : SyncState) :
    (effects (finish c s).trace).countP Act.attaches = (effects s.trace).countP Act.attaches ∧
      (effects (finish c s).trace).countP Act.detaches = (effects s.trace).countP Act.detaches + 1 := by
  have hclear : effects ((s.vmi .clearEvent).vmi .clearEvent).trace = effects s.trace := by
    simp only [SyncState.vmi_trace, effects_snoc, Act.isEffect, VmiCall.isEffect, Bool.false_eq_true, if_false,
      List.append_nil]
  rw [finish_effects, List.countP_append, List.countP_append, replaceMemory,
    replaceMemory_count (fun _ _ _ => rfl), replaceMemory_count (fun _ _ _ => rfl), hclear]
  exact ⟨rfl, rfl⟩

/-- How often a call attaches and detaches the image. -/
structure Commands (t : SyncState) (a d : Nat) : Prop where
  attaches : t.trace.countP Act.attaches = a
  detaches : t.trace.countP Act.detaches = d

theorem commands_iff {a d : Nat} : Commands t a d ↔
    (effects t.trace).countP Act.attaches = a ∧ (effects t.trace).countP Act.detaches = d := by
  rw [countP_effects isEffect_of_attaches, countP_effects isEffect_of_detaches]
  exact ⟨fun h => ⟨h.1, h.2⟩, fun h => ⟨h.1, h.2⟩⟩

/-- **A call detaches the image if it finds the work function**, and attaches it if it finds `interrupted` clear as
well. -/
theorem doSync_commands_count (h : doSync ghostImage c g guest = some (ret, t)) :
    (resolved c g .dwork = 0 ∧ Commands t 0 0 ∧ replies t.trace = []) ∨
    (resolved c g .dwork ≠ 0 ∧ g.interrupted ≠ 0 ∧ Commands t 0 1 ∧ replies t.trace = []) ∨
    (resolved c g .dwork ≠ 0 ∧ g.interrupted = 0 ∧ Commands t 1 1) := by
  obtain ⟨hattaches, hdetaches⟩ := countP_eq_zero (listening_system c g guest)
  by_cases hfn : resolved c g .dwork = 0
  · rw [doSync_exit hfn] at h
    cases h
    refine .inl ⟨hfn, commands_iff.2 ?_, ?_⟩
    · rw [installed_effects]
      exact countP_eq_zero (installEffects_system c g guest.mem)
    · simpa [entered, replies] using (installed_spec c g guest).untouched.replies
  · by_cases hint : g.interrupted = 0
    · rw [doSync_listen hfn hint] at h
      obtain ⟨u, hloop, heq⟩ := Option.map_eq_some_iff.1 h
      cases heq
      obtain ⟨p, ok, rest, -, rfl, -⟩ := listenLoop_eq_some ghostImage c.vmid c.ticks _ u hloop
      have hattached : (runTicks ghostImage c.vmid (listening c g guest) (p ++ [.ret ok])).attached = true := by
        rw [runTicks_snoc, tick_attached]
        exact Bool.or_true _
      have hcount := finish_count c (runTicks ghostImage c.vmid (listening c g guest) (p ++ [.ret ok]))
      rw [attaches_runTicks (hattaches.trans (congrArg Bool.toNat listening_attached.symm)),
        detaches_runTicks hdetaches, hattached] at hcount
      exact .inr (.inr ⟨hfn, hint, commands_iff.2 hcount⟩)
    · rw [doSync_skip hfn hint] at h
      cases h
      have hcount := finish_count c (listening c g guest)
      rw [hattaches, hdetaches] at hcount
      exact .inr (.inl ⟨hfn, hint, commands_iff.2 hcount, (finish_effect c _).replies.trans listening_replies⟩)

/-! ## The runs -/

section

variable {δ : Type} {shell : Shell δ} {env : MountEnv} {v : Vmi} {s s' : HaState δ}

/-- What a call's trace has of a flush. -/
theorem syncs_callTrace_flush {op : HaOp} {t : SyncState} (h : Flush env v t s s') (hs : haStep shell s op = some s') :
    syncs (callTrace shell s (.op op)) = t.trace.map (v, ·) := by
  have hlog := congrArg Hyperagents.syncs (callResult_log (callResult_of_step hs))
  rw [syncs_append, h.syncs] at hlog
  exact (List.append_cancel_left hlog).symm

theorem syncs_callTrace_unflushed {op : HaOp} (h : Unflushed s s') (hs : haStep shell s op = some s') :
    syncs (callTrace shell s (.op op)) = [] := by
  have hlog := congrArg Hyperagents.syncs (callResult_log (callResult_of_step hs))
  rw [syncs_append, h.syncs] at hlog
  exact List.append_right_eq_self.1 hlog.symm

/-- **One flush a process**: the first of the flushes that detaches the ghost image attaches it, if the process was not
interrupted before; no other does, and none other answers an int3. -/
structure OneFlush (g : Globals) (fs : List (List (Vmi × Act))) : Prop where
  guest : ∀ f ∈ fs, ∃ v, ∀ x ∈ f, x.1 = v
  detaches : ∀ f ∈ fs, tally Act.detaches f ≤ 1
  attaches : ∀ p f q, fs = p ++ f :: q → tally Act.attaches f =
    if g.interrupted = 0 ∧ tally Act.detaches f = 1 ∧ ∀ e ∈ p, tally Act.detaches e = 0 then 1 else 0
  answered : ∀ f ∈ fs, replies (f.map Prod.snd) ≠ [] → tally Act.attaches f = 1

/-- One more call of `do_sync`, which ended in `t`. -/
theorem OneFlush.snoc {g : Globals} {fs : List (List (Vmi × Act))} {t : SyncState} {a d : Nat} (h : OneFlush g fs)
    (v : Vmi) (ht : Commands t a d) (hd : d ≤ 1)
    (ha : a = if g.interrupted = 0 ∧ d = 1 ∧ ∀ e ∈ fs, tally Act.detaches e = 0 then 1 else 0)
    (hanswered : replies t.trace ≠ [] → a = 1) : OneFlush g (fs ++ [t.trace.map (v, ·)]) := by
  have hattaches : tally Act.attaches (t.trace.map (v, ·)) = a := by
    rw [tally, map_snd_tagged]
    exact ht.attaches
  have hdetaches : tally Act.detaches (t.trace.map (v, ·)) = d := by
    rw [tally, map_snd_tagged]
    exact ht.detaches
  refine ⟨fun f hf => ?_, fun f hf => ?_, fun p f q hpq => ?_, fun f hf hne => ?_⟩
  · rcases List.mem_append.1 hf with hf | hf
    · exact h.guest f hf
    · refine ⟨v, fun x hx => ?_⟩
      rw [List.mem_singleton.1 hf] at hx
      obtain ⟨act, -, rfl⟩ := List.mem_map.1 hx
      rfl
  · rcases List.mem_append.1 hf with hf | hf
    · exact h.detaches f hf
    · rw [List.mem_singleton.1 hf, hdetaches]
      exact hd
  · rcases q.eq_nil_or_concat with rfl | ⟨q, y, rfl⟩
    · obtain ⟨rfl, hf⟩ := List.append_inj' hpq rfl
      obtain rfl := (List.cons.inj hf).1
      rw [hattaches, hdetaches]
      exact ha
    · have hsplit : fs ++ [t.trace.map (v, ·)] = (p ++ f :: q) ++ [y] := hpq.trans (by simp)
      exact h.attaches p f q (List.append_inj' hsplit rfl).1
  · rcases List.mem_append.1 hf with hf | hf
    · exact h.answered f hf hne
    · rw [List.mem_singleton.1 hf, map_snd_tagged] at hne
      rw [List.mem_singleton.1 hf, hattaches]
      exact hanswered hne

/-- **The invariant**: `interrupted` is clear only where it was on entry and no flush has detached the image. -/
structure Once (g : Globals) (fs : List (List (Vmi × Act))) (s : HaState δ) : Prop where
  once : OneFlush g fs
  clear : s.globals.interrupted = 0 → g.interrupted = 0 ∧ ∀ f ∈ fs, tally Act.detaches f = 0
  set : s.globals.interrupted ≠ 0 → g.interrupted = 0 → ∃ f ∈ fs, tally Act.detaches f ≠ 0

theorem Once.unflushed {g : Globals} {fs : List (List (Vmi × Act))} (h : Once g fs s) (hun : Unflushed s s') :
    Once g (fs ++ [[]]) s' := by
  refine ⟨h.once.snoc (t := ⟨g, fun _ => none, false, false, []⟩) 0 ⟨rfl, rfl⟩ (Nat.zero_le 1) (by simp)
    (fun hne => absurd rfl hne), fun hclear => ?_, fun hset hg => ?_⟩
  · rw [hun.globals] at hclear
    obtain ⟨hg, hnone⟩ := h.clear hclear
    refine ⟨hg, fun f hf => ?_⟩
    rcases List.mem_append.1 hf with hf | hf
    · exact hnone f hf
    · rw [List.mem_singleton.1 hf]
      rfl
  · rw [hun.globals] at hset
    obtain ⟨f, hf, hne⟩ := h.set hset hg
    exact ⟨f, List.mem_append_left _ hf, hne⟩

theorem Once.flush {g : Globals} {fs : List (List (Vmi × Act))} {t : SyncState} (h : Once g fs s)
    (hflush : Flush env v t s s') : Once g (fs ++ [t.trace.map (v, ·)]) s' := by
  obtain ⟨paused, hsync⟩ := hflush.sync
  have hself : ∀ {d}, t.trace.countP Act.detaches = d → tally Act.detaches (t.trace.map (v, ·)) = d := by
    intro d hd
    rw [tally, map_snd_tagged]
    exact hd
  rcases doSync_commands_count hsync with ⟨hfn, hcount, hnone⟩ | ⟨hfn, hint, hcount, hnone⟩ | ⟨hfn, hint, hcount⟩
  · -- No work function: nothing is run, and `interrupted` stays.
    have hglobals : s'.globals.interrupted = s.globals.interrupted := by
      rw [hflush.globals]
      exact congrArg Control.interrupted (doSync_exit_control hfn hsync).1
    refine ⟨h.once.snoc v hcount (Nat.zero_le 1) (by simp) (fun hne => absurd hnone hne), fun hclear => ?_,
      fun hset hg => ?_⟩
    · rw [hglobals] at hclear
      obtain ⟨hg, hzero⟩ := h.clear hclear
      refine ⟨hg, fun f hf => ?_⟩
      rcases List.mem_append.1 hf with hf | hf
      · exact hzero f hf
      · rw [List.mem_singleton.1 hf]
        exact hself hcount.detaches
    · rw [hglobals] at hset
      obtain ⟨f, hf, hne⟩ := h.set hset hg
      exact ⟨f, List.mem_append_left _ hf, hne⟩
  · -- `interrupted` is set already: the image is detached only.
    have hset' : s'.globals.interrupted ≠ 0 := by
      rw [hflush.globals]
      exact doSync_interrupted hsync (.inr hint)
    have hearlier : ¬ (g.interrupted = 0 ∧ 1 = 1 ∧ ∀ f ∈ fs, tally Act.detaches f = 0) := by
      rintro ⟨hg, -, hzero⟩
      obtain ⟨f, hf, hne⟩ := h.set hint hg
      exact hne (hzero f hf)
    refine ⟨h.once.snoc v hcount le_rfl (if_neg hearlier).symm (fun hne => absurd hnone hne),
      fun e => absurd e hset', fun _ hg => ?_⟩
    obtain ⟨f, hf, hne⟩ := h.set hint hg
    exact ⟨f, List.mem_append_left _ hf, hne⟩
  · -- The one flush that listens.
    obtain ⟨hg, hzero⟩ := h.clear hint
    have hset' : s'.globals.interrupted ≠ 0 := by
      rw [hflush.globals]
      exact doSync_interrupted hsync (.inl hfn)
    refine ⟨h.once.snoc v hcount le_rfl (if_pos ⟨hg, rfl, hzero⟩).symm (fun _ => rfl), fun e => absurd e hset',
      fun _ _ => ⟨_, List.mem_append_right _ (List.mem_singleton.2 rfl), ?_⟩⟩
    rw [hself hcount.detaches]
    exact Nat.one_ne_zero

/-- **One flush a process**, over any run of calls, whose flushes are all the log has of `do_sync`. -/
theorem flushed_once (shell : Shell δ) (mountPath ghostImage : String) (clock : Slot → Timeval) (g : Globals)
    (guests : String → Guest) (host : δ) (ops : List HaOp) (s : HaState δ)
    (hrun : Run (stepOf (haStep shell)) (HaState.init mountPath ghostImage clock g guests host) ops s) :
    OneFlush g (flushes shell (.init mountPath ghostImage clock g guests host) ops) ∧
      (flushes shell (.init mountPath ghostImage clock g guests host) ops).flatten = syncs s.log := by
  obtain ⟨honce, hflat⟩ : Once g (flushes shell (.init mountPath ghostImage clock g guests host) ops) s ∧
      (flushes shell (.init mountPath ghostImage clock g guests host) ops).flatten = syncs s.log := by
    refine hrun.invariant (P := fun ops s => Once g (flushes shell _ ops) s ∧ (flushes shell _ ops).flatten =
      syncs s.log) ⟨⟨⟨nofun, nofun, fun p f q hpq => by simp [flushes, history] at hpq, nofun⟩, fun h => ⟨h, nofun⟩,
        fun h hg => absurd hg h⟩, rfl⟩ ?_
    rintro ops s op s' hr ⟨h, hflat⟩ hs
    have hsnoc : flushes shell (.init mountPath ghostImage clock g guests host) (ops ++ [op]) =
        flushes shell (.init mountPath ghostImage clock g guests host) ops ++
          [syncs (callTrace shell s (.op op))] := history_snoc hr hs
    rw [hsnoc, List.flatten_append, hflat]
    rcases haStep_flush hs with hun | ⟨n, env, ha, t, -, -, -, hflush⟩
    · rw [syncs_callTrace_unflushed hun hs, hun.syncs]
      exact ⟨h.unflushed hun, by simp⟩
    · rw [syncs_callTrace_flush hflush hs, hflush.syncs]
      exact ⟨h.flush hflush, by simp⟩
  exact ⟨honce.once, hflat⟩

/-- Two agents mount their disks; the second flush finds `interrupted` set. -/
def twoFlushes : List HaOp :=
  [.addAgent "a" "p" "disk-a" true 0, .addAgent "b" "p" "disk-b" true 0,
    .mountDisk "a" ⟨[], ⟨1, 0⟩, nopCall flushTicks, true⟩, .mountDisk "b" ⟨[], ⟨2, 0⟩, nopCall flushTicks, true⟩]

theorem flushed_once_two : ∃ s, Run (stepOf (haStep idleShell)) (.small ()) twoFlushes s ∧
    (flushes idleShell (.small ()) twoFlushes).map (tally Act.detaches) = [0, 0, 1, 1] ∧
    (flushes idleShell (.small ()) twoFlushes).map (tally Act.attaches) = [0, 0, 1, 0] ∧
    OneFlush .fresh (flushes idleShell (.small ()) twoFlushes) := by
  obtain ⟨s, hrun⟩ := exists_run (show (exec (haStep idleShell) (.small ()) twoFlushes).isSome = true by
    decide +kernel)
  exact ⟨s, hrun, by decide +kernel, by decide +kernel, (flushed_once idleShell _ _ _ _ _ _ twoFlushes s hrun).1⟩

end

end Hyperagents
