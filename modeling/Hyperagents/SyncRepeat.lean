import Hyperagents.Runs
import Hyperagents.SyncEffects
/-!
# A further call in the same process

The globals outlive a call.  One that entered its event loop leaves `interrupted` set (`doSync_interrupted`), and no
call clears it, so a later one returns before it listens.  A call that left at once leaves only addresses and bytes
behind, which a later call whose symbols resolve overwrites, but for the bytes at unmapped addresses, whose writes
fail.  `Twin` relates the states of such a call to those of the same call in a fresh process.
-/
namespace Hyperagents

open Planting Runs

structure PastCall where
  ghostImage : String
  call : SyncCall
  guest : Guest

/-- The globals a completed call leaves. -/
def syncStep (g : Globals) (p : PastCall) : Option Globals :=
  (doSync p.ghostImage p.call g p.guest).map (fun r => r.2.g)

/-! ## What earlier calls leave behind -/

/-- What steers a call besides the breakpoints. -/
structure Control where
  interrupted : Int
  doCleanup : Int
  safety : UInt64
  stepRewriteLoc : Addr
  savedRdi : UInt64
  savedRsi : UInt64
  savedRdx : UInt64

def Globals.control (g : Globals) : Control :=
  ⟨g.interrupted, g.doCleanup, g.safety, g.stepRewriteLoc, g.savedRdi, g.savedRsi, g.savedRdx⟩

theorem installed_control (c : SyncCall) (g : Globals) (guest : Guest) :
    (installed c g guest).g.control = g.control := by
  have hu := (installed_spec c g guest).untouched.g
  unfold Globals.control
  rw [hu]
  rfl

/-- The lookup of `deferred_probe_work_func` failed, or found it at zero. -/
def NoWorkFn (c : SyncCall) : Prop := c.ksym .dwork = none ∨ c.ksym .dwork = some 0

theorem resolved_dwork (c : SyncCall) (g : Globals) :
    resolved c g .dwork = (c.ksym .dwork).getD g.targetWorkFn := UInt64.add_zero _

theorem resolved_dwork_eq_zero {c : SyncCall} {g : Globals} (h : g.targetWorkFn = 0) :
    resolved c g .dwork = 0 ↔ NoWorkFn c := by
  rw [resolved_dwork, h]
  unfold NoWorkFn
  cases c.ksym .dwork <;> simp

section

variable {ghostImage : String} {c : SyncCall} {g : Globals} {guest : Guest} {ret : Int} {s' : SyncState}

/-- **A call that entered its loop, or found `interrupted` set, leaves it set.** -/
theorem doSync_interrupted (h : doSync ghostImage c g guest = some (ret, s'))
    (hor : resolved c g .dwork ≠ 0 ∨ g.interrupted ≠ 0) : s'.g.interrupted ≠ 0 := by
  have hi := installed_spec c g guest
  by_cases hfn : resolved c g .dwork = 0
  · rw [doSync_exit hfn] at h
    cases h
    rw [hi.untouched.g]
    exact hor.resolve_left (fun hne => hne hfn)
  · simp only [doSync, hi.targetWorkFn, if_neg hfn] at h
    obtain ⟨s, hs, heq⟩ := Option.map_eq_some_iff.1 h
    cases heq
    obtain ⟨used, -, -, hint, -⟩ := eventLoop_used ghostImage c.vmid hs
    rw [(finish_effect c s).g]
    exact hint

theorem doSync_exit_control (hfn : resolved c g .dwork = 0) (h : doSync ghostImage c g guest = some (ret, s')) :
    s'.g.control = g.control ∧ s'.g.targetWorkFn = 0 := by
  rw [doSync_exit hfn] at h
  cases h
  exact ⟨installed_control c g guest, (installed_spec c g guest).targetWorkFn.trans hfn⟩

end

/-- **What the calls so far leave**: a process as good as fresh, while each found no work function; afterwards
`interrupted` is set for good. -/
theorem past_cases {past : List PastCall} {g : Globals} (h : Run (stepOf syncStep) Globals.fresh past g) :
    ((∀ p ∈ past, NoWorkFn p.call) ∧ g.control = Globals.fresh.control ∧ g.targetWorkFn = 0) ∨
    ((∃ p ∈ past, ¬ NoWorkFn p.call) ∧ g.interrupted ≠ 0) := by
  refine Run.invariant (P := fun past g =>
    ((∀ p ∈ past, NoWorkFn p.call) ∧ g.control = Globals.fresh.control ∧ g.targetWorkFn = 0) ∨
    ((∃ p ∈ past, ¬ NoWorkFn p.call) ∧ g.interrupted ≠ 0)) (.inl ⟨nofun, rfl, rfl⟩) ?_ h
  intro past g p g' _ hP hstep
  obtain ⟨⟨ret, s'⟩, hs, rfl⟩ := Option.map_eq_some_iff.1 hstep
  rcases hP with ⟨hall, hf, h0⟩ | ⟨⟨q, hq, hne⟩, hint⟩
  · by_cases hp : NoWorkFn p.call
    · obtain ⟨hcontrol, h0'⟩ := doSync_exit_control ((resolved_dwork_eq_zero h0).2 hp) hs
      refine .inl ⟨fun q hq => ?_, hcontrol.trans hf, h0'⟩
      rcases List.mem_append.1 hq with hq | hq
      · exact hall q hq
      · rw [List.mem_singleton.1 hq]
        exact hp
    · exact .inr ⟨⟨p, by simp, hp⟩, doSync_interrupted hs (.inl (fun e => hp ((resolved_dwork_eq_zero h0).1 e)))⟩
  · exact .inr ⟨⟨q, List.mem_append_left _ hq, hne⟩, doSync_interrupted hs (.inr hint)⟩

/-! ## Two runs of one call -/

/-- The globals of the two runs agree, but for what is only printed, the flag that quiets the first phase, and the
bytes saved at unmapped addresses. -/
structure TwinGlobals (m : GuestMem) (g g' : Globals) : Prop where
  control : g.control = g'.control
  addr : g.addr = g'.addr
  byte : ∀ b, (m (g.addr b)).isSome = true → g.byte b = g'.byte b

structure Twin (s s' : SyncState) : Prop where
  g : TwinGlobals s.mem s.g s'.g
  mem : s.mem = s'.mem
  attached : s.attached = s'.attached
  effects : effects s.trace = effects s'.trace

theorem TwinGlobals.find {m : GuestMem} {g g' : Globals} (h : TwinGlobals m g g') : g.find = g'.find := by
  funext rip
  unfold Globals.find
  rw [h.addr]

theorem TwinGlobals.replyAt {m : GuestMem} {g g' : Globals} (h : TwinGlobals m g g') (e : Int3) :
    replyAt g e = Hyperagents.replyAt g' e := by
  unfold Hyperagents.replyAt
  have h1 : g.savedRdi = g'.savedRdi := congrArg Control.savedRdi h.control
  have h2 : g.savedRsi = g'.savedRsi := congrArg Control.savedRsi h.control
  have h3 : g.savedRdx = g'.savedRdx := congrArg Control.savedRdx h.control
  rw [h.find, h.addr, h1, h2, h3]

/-- Two writes that agree where the address is mapped; elsewhere neither has an effect. -/
theorem writeAct_congr {m : GuestMem} {a : Addr} {x y : Byte} (hxy : (m a).isSome = true → x = y) :
    poke m a x = poke m a y ∧ Hyperagents.effects [writeAct m a x] = Hyperagents.effects [writeAct m a y] := by
  by_cases hm : (m a).isSome = true
  · rw [hxy hm]
    exact ⟨rfl, rfl⟩
  · have hn : m a = none := by simpa using hm
    constructor
    · funext z
      by_cases hz : z = a
      · rw [hz, poke_self, poke_self, hn]
        rfl
      · rw [poke_of_ne _ _ hz, poke_of_ne _ _ hz]
    · unfold writeAct
      rw [hn]
      rfl

theorem TwinGlobals.replaced {m : GuestMem} {g g' : Globals} (h : TwinGlobals m g g') (rip : Addr) :
    (replaced g rip).1 = (Hyperagents.replaced g' rip).1 ∧
    ((m (Hyperagents.replaced g rip).1).isSome = true →
      (Hyperagents.replaced g rip).2 = (Hyperagents.replaced g' rip).2) := by
  unfold Hyperagents.replaced
  rw [← h.find]
  cases hf : g.find rip with
  | none => exact ⟨rfl, fun _ => rfl⟩
  | some b => exact ⟨congrFun h.addr b, fun hm => h.byte b hm⟩

theorem TwinGlobals.tick {m : GuestMem} {g g' : Globals} (h : TwinGlobals m g g') (quiet quiet' : Int) (t : Tick) :
    TwinGlobals m (tickGlobals g quiet t) (tickGlobals g' quiet' t) := by
  have hc := h.control
  simp only [Globals.control, Control.mk.injEq] at hc
  obtain ⟨h1, h2, h3, h4, h5, h6, h7⟩ := hc
  cases t with
  | int3 e =>
    refine ⟨?_, h.addr, h.byte⟩
    simp only [tickGlobals, intGlobals, Globals.control, h.find, h1, h2, h3, h5, h6, h7]
  | step v =>
    simp only [tickGlobals, h2]
    split
    · refine ⟨?_, h.addr, h.byte⟩
      simp only [Globals.control, h3, h4, h5, h6, h7]
    · exact h
  | guest a b => exact h
  | ret ok =>
    simp only [tickGlobals]
    split
    · exact h
    · refine ⟨?_, h.addr, h.byte⟩
      simp only [Globals.control, h2, h3, h4, h5, h6, h7]

section

variable (ghostImage : String) (vmid : UInt64) {s s' : SyncState}

/-- The write of a tick and its effects are the same in both runs. -/
theorem Twin.tick_write (h : Twin s s') (t : Tick) :
    pokeTick s.mem (tickWrite s.g t) = pokeTick s'.mem (tickWrite s'.g t) ∧
      tickEffects ghostImage vmid s t = tickEffects ghostImage vmid s' t := by
  have hclean : s.g.doCleanup = s'.g.doCleanup := congrArg Control.doCleanup h.g.control
  have hloc : s.g.stepRewriteLoc = s'.g.stepRewriteLoc := congrArg Control.stepRewriteLoc h.g.control
  cases t with
  | int3 e =>
    obtain ⟨ha, hb⟩ := h.g.replaced e.regs.rip
    obtain ⟨hw, he⟩ := writeAct_congr hb
    refine ⟨?_, ?_⟩
    · simp only [tickWrite, pokeTick]
      rw [hw, ha, h.mem]
    · simp only [tickEffects, ← h.mem, ← ha, ← h.g.replyAt]
      rw [← List.singleton_append, effects_append, he, ← effects_append]
      rfl
  | step v =>
    constructor <;> simp only [tickWrite, tickEffects, hclean, hloc, h.mem]
  | guest a b => exact ⟨congrArg (fun m => poke m a b) h.mem, rfl⟩
  | ret ok => exact ⟨h.mem, by simp only [tickEffects, h.attached]⟩

theorem Twin.tick (h : Twin s s') (t : Tick) : Twin (tick ghostImage vmid s t) (tick ghostImage vmid s' t) := by
  obtain ⟨quiet, h1⟩ := tick_effect ghostImage vmid s t
  obtain ⟨quiet', h2⟩ := tick_effect ghostImage vmid s' t
  obtain ⟨hw, he⟩ := h.tick_write ghostImage vmid t
  have hg := h.g.tick quiet quiet' t
  refine ⟨?_, by rw [h1.mem, h2.mem, hw], by rw [tick_attached, tick_attached, h.attached],
    by rw [tick_effects, tick_effects, h.effects, he]⟩
  rw [h1.g, h2.g]
  refine ⟨hg.control, hg.addr, fun b hb => hg.byte b ?_⟩
  rw [h1.mem] at hb
  cases hwr : tickWrite s.g t with
  | none => rwa [hwr] at hb
  | some w =>
    rw [hwr] at hb
    exact (poke_isSome _ _ _ _).symm.trans hb

theorem Twin.listenLoop (h : Twin s s') (ts : List Tick) :
    (listenLoop ghostImage vmid s ts = none ∧ listenLoop ghostImage vmid s' ts = none ∧
      Twin (runTicks ghostImage vmid s ts) (runTicks ghostImage vmid s' ts)) ∨
    ∃ u u', listenLoop ghostImage vmid s ts = some u ∧ listenLoop ghostImage vmid s' ts = some u' ∧ Twin u u' := by
  induction ts generalizing s s' with
  | nil => exact .inl ⟨rfl, rfl, h⟩
  | cons t ts ih =>
    have ht := h.tick ghostImage vmid t
    have hint : (Hyperagents.tick ghostImage vmid s t).g.interrupted =
        (Hyperagents.tick ghostImage vmid s' t).g.interrupted := congrArg Control.interrupted ht.g.control
    simp only [Hyperagents.listenLoop, hint]
    split
    · exact .inr ⟨_, _, rfl, rfl, ht⟩
    · exact ih ht

theorem Twin.replaceByte (h : Twin s s') (c : SyncCall) (b : Bp) :
    Twin (replaceByte c s b) (Hyperagents.replaceByte c s' b) := by
  have h1 := replaceByte_effect c s b
  have h2 := replaceByte_effect c s' b
  have hdom : ∀ a, (pokes s.mem (c.late b) a).isSome = (s.mem a).isSome := fun a => pokes_isSome _ _ _
  obtain ⟨hw, he⟩ := writeAct_congr (m := pokes s.mem (c.late b)) (a := s.g.addr b) (x := s.g.byte b)
    (y := s'.g.byte b) (fun hm => h.g.byte b (by rwa [hdom] at hm))
  refine ⟨?_, ?_, ?_, ?_⟩
  · rw [h1.g, h2.g]
    refine ⟨h.g.control, h.g.addr, fun b' hb => h.g.byte b' ?_⟩
    rwa [replaceByte_mem, poke_isSome, hdom] at hb
  · rw [replaceByte_mem, replaceByte_mem, hw, h.mem, h.g.addr]
  · rw [replaceByte_attached, replaceByte_attached, h.attached]
  · rw [replaceByte_effects, replaceByte_effects, he, h.effects, h.mem, h.g.addr]

theorem Twin.finish (h : Twin s s') (c : SyncCall) :
    Hyperagents.effects (Hyperagents.finish c s).trace = Hyperagents.effects (Hyperagents.finish c s').trace := by
  have hvmi : ∀ {s s' : SyncState}, Twin s s' → Twin (s.vmi .clearEvent) (s'.vmi .clearEvent) := fun {s s'} h =>
    ⟨h.g, h.mem, h.attached, by rw [SyncState.vmi_trace, SyncState.vmi_trace, effects_snoc, effects_snoc, h.effects]⟩
  have hall : ∀ (ks : List Bp) {s s' : SyncState}, Twin s s' →
      Twin (ks.foldl (Hyperagents.replaceByte c) s) (ks.foldl (Hyperagents.replaceByte c) s') := fun ks => by
    induction ks with
    | nil => exact fun h => h
    | cons k ks ih => exact fun h => ih (h.replaceByte c k)
  rw [finish_effects, finish_effects]
  congr 1
  exact (hall replaceOrder (hvmi (hvmi h))).effects

end

section

variable {ghostImage : String} {c : SyncCall} {g : Globals} {guest : Guest}

/-- The addresses do not depend on the globals where every lookup succeeds. -/
theorem resolved_of_isSome (hsym : ∀ b, (c.ksym b).isSome = true) (g g' : Globals) : resolved c g = resolved c g' := by
  funext b
  obtain ⟨x, hx⟩ := Option.isSome_iff_exists.1 (hsym b)
  unfold resolved
  rw [hx]
  rfl

/-- **The event loops of the two runs start as twins.** -/
theorem twin_listening (hg : g.control = Globals.fresh.control) (hsym : ∀ b, (c.ksym b).isSome = true) :
    Twin (listening c g guest) (listening c .fresh guest) := by
  have hi := installed_spec c g guest
  have hi' := installed_spec c .fresh guest
  have hres := resolved_of_isSome hsym g .fresh
  have hmem : (listening c g guest).mem = (plant (resolved c g) breakpointByte installOrder (guest.mem, g.byte)).1 :=
    congrArg Prod.fst hi.plant
  refine ⟨⟨?_, ?_, fun b hb => ?_⟩, ?_, ?_, ?_⟩
  · rw [listening_g, listening_g, installed_control, installed_control, hg]
  · rw [listening_addr, listening_addr, hres]
  · rw [listening_addr, hmem, plant_isSome] at hb
    have h1 : (listening c g guest).g.byte b = _ := congrFun (congrArg Prod.snd hi.plant) b
    have h2 : (listening c .fresh guest).g.byte b = _ := congrFun (congrArg Prod.snd hi'.plant) b
    rw [h1, h2, ← hres]
    exact plant_saved_congr (resolved c g) breakpointByte (by decide) (mem_installOrder b) guest.mem g.byte _ hb
  · have hmem' : (listening c .fresh guest).mem = _ := congrArg Prod.fst hi'.plant
    rw [hmem, hmem', plant_fst, plant_fst, hres]
  · exact hi.untouched.attached.trans hi'.untouched.attached.symm
  · rw [listening_effects, listening_effects]
    unfold installEffects
    rw [hres]

/-! ## The commands a call runs -/

theorem attach_mem_finish {s : SyncState} {vmid : UInt64} :
    .system (.xlBlockAttach vmid ghostImage) ∈ effects (finish c s).trace ↔
      .system (.xlBlockAttach vmid ghostImage) ∈ effects s.trace :=
  (finish_system c s _).trans (or_iff_left (by simp))

/-- The ghost image is attached when a listen has returned, and not before. -/
theorem attach_mem_runTicks (vmid : UInt64) {s : SyncState}
    (hs : s.attached = true → .system (.xlBlockAttach vmid ghostImage) ∈ effects s.trace) (ts : List Tick) :
    (runTicks ghostImage vmid s ts).attached = true →
      .system (.xlBlockAttach vmid ghostImage) ∈ effects (runTicks ghostImage vmid s ts).trace := by
  induction ts using List.reverseRecOn with
  | nil => exact hs
  | append_singleton ts t ih =>
    rw [runTicks_snoc, tick_attached, tick_effects, List.mem_append]
    intro h
    by_cases ha : (runTicks ghostImage vmid s ts).attached = true
    · exact .inl (ih ha)
    · cases t with
      | ret ok => exact .inr (by simp [tickEffects, ha])
      | _ => exact absurd h (by simp [ha, Tick.isRet])

theorem listening_attached : (listening c g guest).attached = false := (installed_spec c g guest).untouched.attached

/-- A call that leaves its loop after listening has attached the ghost image. -/
theorem attach_mem_of_live (hfn : resolved c g .dwork ≠ 0) (hint : g.interrupted = 0) {ret : Int} {s' : SyncState}
    (h : doSync ghostImage c g guest = some (ret, s')) :
    .system (.xlBlockAttach c.vmid ghostImage) ∈ effects s'.trace := by
  rw [doSync_listen hfn hint] at h
  obtain ⟨u, hu, heq⟩ := Option.map_eq_some_iff.1 h
  cases heq
  obtain ⟨p, ok, rest, -, rfl, -, -⟩ := listenLoop_eq_some ghostImage c.vmid _ _ _ hu
  rw [attach_mem_finish]
  refine attach_mem_runTicks c.vmid (s := listening c g guest) (fun ha => ?_) (p ++ [.ret ok]) ?_
  · rw [listening_attached] at ha
    cases ha
  · rw [runTicks_snoc, tick_attached]
    exact Bool.or_true _

/-- A call that finds `interrupted` set never attaches it. -/
theorem attach_not_mem_of_interrupted (hfn : resolved c g .dwork ≠ 0) (hint : g.interrupted ≠ 0) :
    ∃ s', doSync ghostImage c g guest = some (0, s') ∧
      .system (.xlBlockAttach c.vmid ghostImage) ∉ effects s'.trace := by
  refine ⟨finish c (listening c g guest), doSync_skip hfn hint, ?_⟩
  rw [attach_mem_finish, listening_effects, List.mem_append]
  rintro (h | h)
  · exact installEffects_system _ _ _ _ h
  · simp at h

/-! ## Every sync behaves like the first -/

/-- What a call has done by the end of its ticks, returned or not. -/
def soFar (ghostImage : String) (c : SyncCall) (g : Globals) (guest : Guest) : List Act :=
  match doSync ghostImage c g guest with
  | some r => r.2.trace
  | none => (runTicks ghostImage c.vmid (listening c g guest) c.ticks).trace

/-- A call behaves like the same call in a fresh process, and attaches the ghost image before it returns. -/
structure LikeFirst (ghostImage : String) (c : SyncCall) (g : Globals) (guest : Guest) : Prop where
  effects : effects (soFar ghostImage c g guest) = effects (soFar ghostImage c .fresh guest)
  returns : (doSync ghostImage c g guest).isSome = (doSync ghostImage c .fresh guest).isSome
  attaches : ∀ ret s', doSync ghostImage c g guest = some (ret, s') →
    .system (.xlBlockAttach c.vmid ghostImage) ∈ Hyperagents.effects s'.trace

theorem likeFirst_of_control (hg : g.control = Globals.fresh.control) (hsym : ∀ b, (c.ksym b).isSome = true)
    (hfn : resolved c g .dwork ≠ 0) : LikeFirst ghostImage c g guest := by
  have hfn' : resolved c .fresh .dwork ≠ 0 := by rwa [resolved_of_isSome hsym .fresh g]
  have htwin := @twin_listening c g guest hg hsym
  have e1 := @doSync_listen ghostImage c g guest hfn (congrArg Control.interrupted hg)
  have e2 := @doSync_listen ghostImage c .fresh guest hfn' rfl
  refine ⟨?_, ?_, fun ret s' h => attach_mem_of_live hfn (congrArg Control.interrupted hg) h⟩
  · unfold soFar
    rcases htwin.listenLoop ghostImage c.vmid c.ticks with ⟨n1, n2, ht⟩ | ⟨u, u', n1, n2, ht⟩
    · rw [e1, e2, n1, n2]
      exact ht.effects
    · rw [e1, e2, n1, n2]
      exact ht.finish c
  · rcases htwin.listenLoop ghostImage c.vmid c.ticks with ⟨n1, n2, -⟩ | ⟨u, u', n1, n2, -⟩
    · rw [e1, e2, n1, n2]
    · rw [e1, e2, n1, n2]
      rfl

end

/-- **A sync behaves like the first** exactly when the work function is found elsewhere than at zero, and no earlier
call found it. -/
theorem further_sync_like_first_iff (past : List PastCall) (g : Globals) (ghostImage : String) (c : SyncCall)
    (guest : Guest) (hpast : Run (stepOf syncStep) Globals.fresh past g) (hsym : ∀ b, (c.ksym b).isSome = true) :
    LikeFirst ghostImage c g guest ↔ c.ksym .dwork ≠ some 0 ∧ ∀ p ∈ past, NoWorkFn p.call := by
  have hfn : resolved c g .dwork ≠ 0 ↔ c.ksym .dwork ≠ some 0 := by
    obtain ⟨x, hx⟩ := Option.isSome_iff_exists.1 (hsym .dwork)
    rw [resolved_dwork, hx]
    simp
  rw [← hfn]
  constructor
  · intro h
    have hne : resolved c g .dwork ≠ 0 := fun h0 => by
      have := h.attaches _ _ (doSync_exit h0)
      rw [installed_effects] at this
      exact installEffects_system _ _ _ _ this
    refine ⟨hne, ?_⟩
    rcases past_cases hpast with ⟨hall, -⟩ | ⟨-, hint⟩
    · exact hall
    · obtain ⟨s', hs, hno⟩ := @attach_not_mem_of_interrupted ghostImage c g guest hne hint
      exact absurd (h.attaches _ _ hs) hno
  · rintro ⟨hne, hall⟩
    rcases past_cases hpast with ⟨-, hg, -⟩ | ⟨⟨p, hp, hno⟩, -⟩
    · exact likeFirst_of_control hg hsym hne
    · exact absurd (hall p hp) hno

/-- A call on a guest without symbols, then one on a guest with them. -/
theorem further_sync_like_first_iff_nop : ∃ g, Run (stepOf syncStep) Globals.fresh
      [⟨"ghost.img", { nopCall [] with ksym := fun _ => none }, nopGuest⟩] g ∧
    LikeFirst "ghost.img" (nopCall flushTicks) g nopGuest := by
  have hsome : (exec syncStep Globals.fresh
      [⟨"ghost.img", { nopCall [] with ksym := fun _ => none }, nopGuest⟩]).isSome := by decide +kernel
  obtain ⟨g, hg⟩ := Option.isSome_iff_exists.1 hsome
  have hrun := run_of_exec hg
  refine ⟨g, hrun, (further_sync_like_first_iff _ g _ _ _ hrun ?_).2 ⟨by decide, ?_⟩⟩
  · rintro b
    cases b <;> rfl
  · rintro p hp
    obtain rfl := List.mem_singleton.1 hp
    exact .inl rfl

/-- After one completed detour the same call on the same guest enters no event loop and attaches nothing. -/
theorem second_sync_unlike_first : ∃ g, Run (stepOf syncStep) Globals.fresh
      [⟨"ghost.img", nopCall flushTicks, nopGuest⟩] g ∧ ¬ LikeFirst "ghost.img" (nopCall flushTicks) g nopGuest := by
  have hsome : (exec syncStep Globals.fresh [⟨"ghost.img", nopCall flushTicks, nopGuest⟩]).map
      (fun g => decide (g.interrupted ≠ 0)) = some true := by decide +kernel
  obtain ⟨g, hg, hint⟩ := Option.map_eq_some_iff.1 hsome
  have hfn : resolved (nopCall flushTicks) g .dwork ≠ 0 := by
    rw [resolved_dwork]
    exact (by decide : (0x2000 : Addr) ≠ 0)
  obtain ⟨s', hs, hno⟩ := @attach_not_mem_of_interrupted "ghost.img" (nopCall flushTicks) g nopGuest hfn
    (of_decide_eq_true hint)
  exact ⟨g, run_of_exec hg, fun h => hno (h.attaches _ _ hs)⟩

end Hyperagents
