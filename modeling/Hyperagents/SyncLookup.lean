import Hyperagents.SyncRestore
import Hyperagents.SyncDetour
/-!
# A call whose lookups fail

No lookup's status is read.  A failed one leaves an address of an earlier call, its offset added once more, or the
offset alone; the call plants its breakpoints there all the same.  `failed_lookup_left_alone_iff` says when such a call
still leaves the guest as it was, whatever events it gets: then nothing it writes is left, neither what the callbacks
write outside the five addresses nor a byte saved after 0xCC was planted there (`callWrites`).
-/
namespace Hyperagents

open Planting

variable {ghostImage : String} {c : SyncCall} {g : Globals} {guest : Guest} {ret : Int} {s' : SyncState}

/-- An address some lookup of the call yielded, its offset added. -/
def Yielded (c : SyncCall) (a : Addr) : Prop := ∃ b x, c.ksym b = some x ∧ a = x + b.offset

/-- The call returns, with the memory and the paused flag as they were but for the guest's own writes. -/
def Unchanged (ghostImage : String) (c : SyncCall) (g : Globals) (guest : Guest) : Prop :=
  ∃ ret s', doSync ghostImage c g guest = some (ret, s') ∧
    s'.mem = pokes guest.mem (ownWrites s'.trace) ∧ s'.paused = guest.paused

/-- Every vCPU the call redirects goes to an address a lookup yielded. -/
def RedirectsYielded (ghostImage : String) (c : SyncCall) (g : Globals) (guest : Guest) : Prop :=
  ∀ s, DuringSync ghostImage c g guest s → ∀ x ∈ replies s.trace, x.2.setRegisters = true → Yielded c x.2.regs.rip

/-- Writing 0xCC at the address makes no difference. -/
def Harmless (m : GuestMem) (a : Addr) : Prop := m a = none ∨ m a = some breakpointByte

/-- Two breakpoints other than the first share the address, and the first is elsewhere. -/
def Shared (addr : Bp → Addr) (a : Addr) : Prop :=
  a ≠ addr .qworko ∧ ∃ b b', b ≠ .qworko ∧ b' ≠ .qworko ∧ b ≠ b' ∧ addr b = a ∧ addr b' = a

theorem mem_detour {b : Bp} : b ∈ [Bp.dwork, .dworkBack, .sysSyncFront, .sysSyncBack] ↔ b ≠ .qworko := by
  cases b <;> decide

/-! ## Leaving at once -/

theorem plant_eq_iff (addr : Bp → Addr) (old : Bp → Byte) (m : GuestMem) :
    (plant addr breakpointByte installOrder (m, old)).1 = m ↔ ∀ b, Harmless m (addr b) := by
  constructor
  · intro h b
    have hb := plant_at addr breakpointByte b installOrder (m, old) (mem_installOrder b)
    rw [h] at hb
    unfold Harmless
    cases hm : m (addr b) with
    | none => exact .inl rfl
    | some x =>
      simp only [hm, Option.map_some] at hb
      exact .inr hb
  · intro h
    funext a
    by_cases ha : ∃ b, addr b = a
    · obtain ⟨b, rfl⟩ := ha
      rw [plant_at addr breakpointByte b installOrder (m, old) (mem_installOrder b)]
      show (m (addr b)).map _ = m (addr b)
      rcases h b with hm | hm <;> rw [hm] <;> rfl
    · exact plant_of_ne addr breakpointByte a installOrder (m, old) (fun b _ e => ha ⟨b, e⟩)

/-- **A call that leaves at once** leaves the guest paused and its breakpoints in place. -/
theorem unchanged_exit_iff (hfn : resolved c g .dwork = 0) : Unchanged ghostImage c g guest ↔
    guest.paused = true ∧ ∀ b, Harmless guest.mem (resolved c g b) := by
  have hi := installed_spec c g guest
  have hmem : (installed c g guest).mem = _ := congrArg Prod.fst hi.plant
  have hpaused : (installed c g guest).paused = true := hi.untouched.paused
  have hown : ownWrites (installed c g guest).trace = [] := by
    simpa [entered, ownWrites] using hi.untouched.ownWrites
  have huniq : Unchanged ghostImage c g guest ↔
      (installed c g guest).mem = guest.mem ∧ (installed c g guest).paused = guest.paused := by
    unfold Unchanged
    rw [doSync_exit hfn]
    constructor
    · rintro ⟨ret, s', heq, hall⟩
      cases heq
      rwa [hown, pokes_nil] at hall
    · intro h
      exact ⟨0, _, rfl, by rwa [hown, pokes_nil]⟩
  rw [huniq, hmem, plant_eq_iff, hpaused, and_comm, @eq_comm _ true]

/-! ## The writes of a call that enters its loop -/

/-- What a tick writes, after the ticks `p`, outside the five addresses: an int3 at none of them a zero at address zero;
a step 0xCC where the last int3 was, or where a step of an earlier call would have written; the guest what it likes. -/
def tickWrites (g : Globals) (p : List Tick) : Tick → List (Write Addr Byte)
  | .int3 e => if g.find e.regs.rip = none then [⟨false, 0, 0⟩] else []
  | .step _ =>
    if CleaningUp g p then []
    else [⟨false, ((lastInt3 p).map (·.regs.rip)).getD g.stepRewriteLoc, breakpointByte⟩]
  | .guest a x => [⟨true, a, x⟩]
  | .ret _ => []

/-- The same of a list of ticks that come after `p`. -/
def loopWrites (g : Globals) : List Tick → List Tick → List (Write Addr Byte)
  | _, [] => []
  | p, t :: ts => tickWrites g p t ++ loopWrites g (p ++ [t]) ts

/-- The byte saved for a breakpoint: 0xCC, where one planted before it shares its address. -/
def savedByte (c : SyncCall) (g : Globals) (guest : Guest) (b : Bp) : Byte :=
  (if ∃ b' ∈ installOrder.takeWhile (· ≠ b), resolved c g b' = resolved c g b then
    (guest.mem (resolved c g b)).map (fun _ => breakpointByte)
  else guest.mem (resolved c g b)).getD (g.byte b)

/-- The writes that decide what a call leaves: those of its loop, then the saved bytes, with the guest's own between. -/
def callWrites (c : SyncCall) (g : Globals) (guest : Guest) (used : List Tick) : List (Write Addr Byte) :=
  loopWrites (armed c g) [] used ++
    replaceOrder.flatMap (replaceWrites c { armed c g with byte := savedByte c g guest })

theorem loopWrites_snoc (g : Globals) (t : Tick) : ∀ (ts p : List Tick),
    loopWrites g p (ts ++ [t]) = loopWrites g p ts ++ tickWrites g (p ++ ts) t
  | [], p => by simp [loopWrites]
  | u :: ts, p => by
    rw [List.cons_append, loopWrites, loopWrites_snoc g t ts, loopWrites, List.append_assoc, List.append_assoc]
    rfl

/-- They depend on the globals through the addresses and what was left of an earlier call. -/
theorem loopWrites_congr {g g' : Globals} (hfind : g.find = g'.find) (hclean : g.doCleanup = g'.doCleanup)
    (hloc : g.stepRewriteLoc = g'.stepRewriteLoc) : ∀ (ts p : List Tick), loopWrites g p ts = loopWrites g' p ts
  | [], _ => rfl
  | t :: ts, p => by
    have hup : CleaningUp g p ↔ CleaningUp g' p := by rw [CleaningUp, CleaningUp, hfind, hclean]
    rw [loopWrites, loopWrites, loopWrites_congr hfind hclean hloc ts]
    cases t <;> simp only [tickWrites, hfind, hloc, hup]

theorem owned_loopWrites (g : Globals) : ∀ (ts p : List Tick), owned (loopWrites g p ts) = ts.flatMap tickOwn
  | [], _ => rfl
  | t :: ts, p => by
    rw [loopWrites, owned_append, owned_loopWrites g ts, List.flatMap_cons]
    congr 1
    cases t <;> simp only [tickWrites, tickOwn] <;> first | rfl | (split <;> rfl)

/-- **Off the five addresses** the ticks make these writes. -/
theorem runTicks_loopWrites (ghostImage : String) (vmid : UInt64) (s : SyncState) {a : Addr}
    (ha : ∀ b, s.g.addr b ≠ a) (ts : List Tick) :
    (runTicks ghostImage vmid s ts).mem a = pokes s.mem (written (loopWrites s.g [] ts)) a := by
  induction ts using List.reverseRecOn with
  | nil => rfl
  | append_singleton ts t ih =>
    obtain ⟨quiet, h⟩ := tick_effect ghostImage vmid (runTicks ghostImage vmid s ts) t
    have hsame := runTicks_same ghostImage vmid s ts
    rw [runTicks_snoc, h.mem, loopWrites_snoc, written_append, pokes_append, List.nil_append]
    cases t with
    | int3 e =>
      simp only [tickWrite, tickWrites, pokeTick, replaced, hsame.find, hsame.addr]
      cases hf : s.g.find e.regs.rip with
      | none => exact pokes_congr a [(0, 0)] _ _ ih
      | some b =>
        -- At a breakpoint, so not at `a`.
        rw [if_neg (by simp)]
        exact (poke_of_ne _ _ (ha b).symm).trans ih
    | step v =>
      simp only [tickWrite, tickWrites, runTicks_doCleanup, runTicks_rewriteLoc]
      split
      · exact ih
      · exact pokes_congr a [(_, breakpointByte)] _ _ ih
    | guest x v => exact pokes_congr a [(x, v)] _ _ ih
    | ret ok => exact ih

theorem plant_savedByte : (plant (resolved c g) breakpointByte installOrder (guest.mem, g.byte)).2 =
    savedByte c g guest := by
  funext b
  exact plant_saved_eq (resolved c g) breakpointByte (by decide) (mem_installOrder b) guest.mem g.byte

/-- **What a call leaves** is what its writes and the guest's make of the memory. -/
theorem finish_mem (used : List Tick) :
    (finish c (runTicks ghostImage c.vmid (listening c g guest) used)).mem =
      pokes guest.mem (written (callWrites c g guest used)) := by
  have hi := installed_spec c g guest
  have hsame := runTicks_same ghostImage c.vmid (listening c g guest) used
  have hreplace : replaceWrites c (runTicks ghostImage c.vmid (listening c g guest) used).g =
      replaceWrites c { armed c g with byte := savedByte c g guest } := by
    have hbyte : (listening c g guest).g.byte = savedByte c g guest :=
      (congrArg Prod.snd hi.plant).trans plant_savedByte
    funext b
    unfold replaceWrites
    rw [hsame.addr, hsame.byte, listening_addr, hbyte]
    rfl
  rw [(finish_effect c _).mem, hreplace, callWrites, written_append, pokes_append]
  funext a
  by_cases ha : ∃ b, resolved c g b = a
  · -- A saved byte is written there, whatever it was.
    obtain ⟨b, rfl⟩ := ha
    refine pokes_of_mem ⟨(resolved c g b, savedByte c g guest b), ?_, rfl⟩ ?_
    · refine List.mem_map.2 ⟨⟨false, resolved c g b, savedByte c g guest b⟩, ?_, rfl⟩
      exact List.mem_flatMap.2 ⟨b, mem_replaceOrder b, List.mem_append_right _ (List.mem_singleton.2 rfl)⟩
    · have hplant : (listening c g guest).mem = _ := congrArg Prod.fst hi.plant
      rw [runTicks_isSome, pokes_isSome, hplant, plant_isSome]
  · have hne : ∀ b, resolved c g b ≠ a := fun b hb => ha ⟨b, hb⟩
    apply pokes_congr a _ _ _
    have haddr : ∀ b, (listening c g guest).g.addr b ≠ a := by
      rw [listening_addr]
      exact hne
    have hwrites : loopWrites (listening c g guest).g [] used = loopWrites (armed c g) [] used := by
      have hg := hi.untouched.g
      apply loopWrites_congr find_listening <;> rw [listening_g, hg] <;> rfl
    rw [runTicks_loopWrites ghostImage c.vmid _ haddr, hwrites]
    apply pokes_congr a _ _ _
    have hp := congrFun (congrArg Prod.fst hi.plant) a
    exact hp.trans (plant_of_ne _ _ a _ _ (fun b _ => hne b))

theorem owned_callWrites (used : List Tick) :
    owned (callWrites c g guest used) = used.flatMap tickOwn ++ replaceOrder.flatMap c.late := by
  rw [callWrites, owned_append, owned_loopWrites, owned_replaceWrites]

/-- **A call that returned from its loop** leaves the guest running, and alone where its writes left no trace. -/
theorem unchanged_loop_iff (hfn : resolved c g .dwork ≠ 0) : Unchanged ghostImage c g guest ↔ guest.paused = false ∧
    ∃ used, used <+: c.ticks ∧ LeftAfter (armed c g) used ∧ NoTrace guest.mem (callWrites c g guest used) := by
  have hof : ∀ used, (finish c (runTicks ghostImage c.vmid (listening c g guest) used)).mem =
      pokes guest.mem (ownWrites (finish c (runTicks ghostImage c.vmid (listening c g guest) used)).trace) ↔
        NoTrace guest.mem (callWrites c g guest used) := by
    intro used
    rw [doSync_ownWrites rfl, finish_mem, ← @owned_callWrites c g guest, pokes_written_iff]
  have hpaused : ∀ s, (finish c s).paused = false := fun s => (finish_effect c s).paused
  constructor
  · rintro ⟨ret, s', h, hmem, hp⟩
    obtain ⟨used, hpre, hleft, rfl⟩ := doSync_left hfn h
    exact ⟨hp.symm.trans (hpaused _), used, hpre, hleft, (hof used).1 hmem⟩
  · rintro ⟨hp, used, hpre, hleft, htrace⟩
    have hsome : doSync ghostImage c g guest ≠ none := by
      intro hnone
      obtain ⟨-, hlive⟩ := doSync_eq_none.1 hnone
      exact hleft.1 (hlive.of_prefix hpre)
    obtain ⟨⟨ret, s'⟩, h⟩ := Option.ne_none_iff_exists'.1 hsome
    obtain ⟨used', hpre', hleft', rfl⟩ := doSync_left hfn h
    obtain rfl := hleft.unique hleft' hpre hpre'
    exact ⟨ret, _, h, (hof used).2 htrace, (hpaused _).trans hp.symm⟩

/-- **Where the events are the call's own** and the guest writes elsewhere, what is left is at an address shared by two
breakpoints: the byte of the one that was planted there last. -/
theorem unchanged_ours_iff (hfn : resolved c g .dwork ≠ 0) (hours : OurCall c g guest) :
    Unchanged ghostImage c g guest ↔
      guest.paused = false ∧ ¬ Live (armed c g) c.ticks ∧ ∀ a, Shared (resolved c g) a → Harmless guest.mem a := by
  have hnodup : (Bp.qworko :: [Bp.dwork, .dworkBack, .sysSyncFront, .sysSyncBack]).Nodup := by decide
  have hmem : ∀ {ret s'}, doSync ghostImage c g guest = some (ret, s') →
      (s'.mem = pokes guest.mem (ownWrites s'.trace) ↔ ∀ a, Shared (resolved c g) a → Harmless guest.mem a) := by
    intro ret s' h
    have hoff := fun b => pokes_of_not_mem (resolved c g b) _ guest.mem (ownWrites_off hfn hours h b)
    -- At a breakpoint the last byte restored decides; the first breakpoint planted is the last restored.
    have hat : ∀ b, s'.mem (resolved c g b) = guest.mem (resolved c g b) ↔
        (Shared (resolved c g) (resolved c g b) → Harmless guest.mem (resolved c g b)) := by
      intro b
      obtain ⟨m, hm, hmem⟩ := doSync_memAt hfn hours h b
      rw [hmem]
      by_cases hq : resolved c g b = resolved c g .qworko
      · refine iff_of_true ?_ (fun hs => absurd hq hs.1)
        rw [hq]
        exact restore_plant_first (resolved c g) breakpointByte hnodup (hm _)
      · have hb : b ≠ .qworko := fun e => hq (by rw [e])
        refine (restore_plant_iff (resolved c g) breakpointByte hnodup (mem_detour.2 hb) hq (hm _)).trans ?_
        refine imp_congr_left ⟨?_, ?_⟩
        · rintro ⟨i, hi, j, hj, hij, hia, hja⟩
          exact ⟨hq, i, j, mem_detour.1 hi, mem_detour.1 hj, hij, hia, hja⟩
        · rintro ⟨-, i, j, hi, hj, hij, hia, hja⟩
          exact ⟨i, mem_detour.2 hi, j, mem_detour.2 hj, hij, hia, hja⟩
    refine ⟨fun heq a hs => ?_, fun hall => ?_⟩
    · obtain ⟨-, b, -, -, -, -, rfl, -⟩ := id hs
      refine (hat b).1 ?_ hs
      rw [heq]
      exact hoff b
    · funext a
      by_cases ha : ∃ b, resolved c g b = a
      · obtain ⟨b, rfl⟩ := ha
        rw [hoff b]
        exact (hat b).2 (hall _)
      · exact doSync_memOff hfn hours h a (fun b hb => ha ⟨b, hb⟩)
  have hreturns : ¬ Live (armed c g) c.ticks ↔ doSync ghostImage c g guest ≠ none :=
    not_congr ((and_iff_right hfn).symm.trans doSync_eq_none.symm)
  have hpaused : ∀ {ret s'}, doSync ghostImage c g guest = some (ret, s') → s'.paused = false := by
    intro ret s' h
    obtain ⟨used, -, -, rfl⟩ := doSync_left hfn h
    exact (finish_effect c _).paused
  rw [hreturns]
  constructor
  · rintro ⟨ret, s', h, hm, hp⟩
    exact ⟨hp.symm.trans (hpaused h), by simp [h], (hmem h).1 hm⟩
  · rintro ⟨hp, hsome, hall⟩
    obtain ⟨⟨ret, s'⟩, h⟩ := Option.ne_none_iff_exists'.1 hsome
    exact ⟨ret, s', h, (hmem h).2 hall, (hpaused h).trans hp.symm⟩

/-! ## The whole call -/

/-- While the loop is live, every hit at an end of the detour is sent on to an address a lookup yielded. -/
def HitsYielded (c : SyncCall) (g : Globals) : Prop :=
  ∀ p e, p ++ [.int3 e] <+: c.ticks → Live (armed c g) p →
    ((armed c g).find e.regs.rip = some .dwork → Yielded c (resolved c g .sysSyncFront)) ∧
    ((armed c g).find e.regs.rip = some .sysSyncBack → Yielded c (resolved c g .dwork))

theorem redirectsYielded_iff : RedirectsYielded ghostImage c g guest ↔
    (resolved c g .dwork ≠ 0 → HitsYielded c g) := by
  constructor
  · intro h hfn p e hpre hlive
    have hs := h _ (.loop _ hpre (doSync_eq_none.2 ⟨hfn, hlive.int3 e⟩))
    rw [replies_runTicks, listening_replies, List.nil_append, answers_snoc] at hs
    have hx := hs _ (List.mem_append_right _ (List.mem_singleton.2 rfl))
    have hsame := runTicks_same ghostImage c.vmid (listening c g guest) p
    have hfind : (runTicks ghostImage c.vmid (listening c g guest) p).g.find = (armed c g).find := by
      rw [hsame.find, find_listening]
    have haddr : (runTicks ghostImage c.vmid (listening c g guest) p).g.addr = resolved c g := by
      rw [hsame.addr, listening_addr]
    unfold replyAt at hx
    rw [hfind, haddr] at hx
    constructor <;> intro hf <;> rw [hf] at hx <;> exact hx rfl
  · intro h s hs
    have hcore : ∀ used, (∀ p t, p ++ [t] <+: used → p ++ [t] <+: c.ticks ∧ Live (armed c g) p) →
        resolved c g .dwork ≠ 0 → ∀ x ∈ answers ghostImage c.vmid (listening c g guest) used,
          x.2.setRegisters = true → Yielded c x.2.regs.rip := by
      intro used hused hfn x hx hset
      obtain ⟨p, hp, -⟩ := mem_answers ghostImage c.vmid hx
      obtain ⟨hpre, hlive⟩ := hused p _ hp
      have hends := answers_setRegisters ghostImage c.vmid hx hset
      rw [find_listening, listening_addr] at hends
      rcases hends with ⟨hf, hrip⟩ | ⟨hf, hrip⟩
      · rw [hrip]
        exact (h hfn p x.1 hpre hlive).1 hf
      · rw [hrip]
        exact (h hfn p x.1 hpre hlive).2 hf
    rcases hs.answers with hr | ⟨hfn, used, hr, hused⟩
    · rw [hr]
      exact nofun
    · rw [hr]
      exact hcore used hused hfn

/-- **A failed lookup leaves the guest alone** in these cases.  At once the call leaves with the guest as it was only
where it was paused and held 0xCC at every mapped address planted.  Through the loop it does where it is left at all,
the guest was running, and no write of the call is the last at a byte and differs from what the guest's own writes had
made of that; and its redirects go where a lookup said while the hits are at such ends. -/
theorem failed_lookup_left_alone_iff (ghostImage : String) (c : SyncCall) (g : Globals) (guest : Guest) :
    ((∃ b, c.ksym b = none) → Unchanged ghostImage c g guest ∧ RedirectsYielded ghostImage c g guest) ↔
    ((∃ b, c.ksym b = none) →
      (resolved c g .dwork = 0 → guest.paused = true ∧ ∀ b, Harmless guest.mem (resolved c g b)) ∧
      (resolved c g .dwork ≠ 0 → HitsYielded c g ∧ guest.paused = false ∧
        ∃ used, used <+: c.ticks ∧ LeftAfter (armed c g) used ∧ NoTrace guest.mem (callWrites c g guest used))) := by
  refine imp_congr_right (fun _ => ?_)
  rw [redirectsYielded_iff]
  by_cases hfn : resolved c g .dwork = 0
  · simp only [hfn, ne_eq, not_true_eq_false, false_imp_iff, and_true, forall_const]
    exact unchanged_exit_iff hfn
  · simp only [hfn, ne_eq, not_false_eq_true, forall_const, false_imp_iff, true_and]
    rw [and_comm, unchanged_loop_iff hfn]

/-- A call for which the lookups of `deferred_probe_work_func` fail. -/
def workFnFails : SyncCall where
  vmid := 1
  ksym
    | .qworko => some 0x1000
    | .sysSyncFront | .sysSyncBack => some 0x3000
    | _ => none
  ticks := []
  late := fun _ => []

/-- A running one keeps 0xCC at `queue_work_on`, and stays paused. -/
theorem failed_lookup_patches_and_pauses : ∃ s', doSync "ghost.img" workFnFails .fresh nopGuest = some (0, s') ∧
    workFnFails.ksym .dwork = none ∧ nopGuest.mem 0x1000 = some 0x90 ∧ s'.mem 0x1000 = some 0xCC ∧
    nopGuest.paused = false ∧ s'.paused = true ∧ ¬ Unchanged "ghost.img" workFnFails .fresh nopGuest := by
  have hsome : (doSync "ghost.img" workFnFails .fresh nopGuest).map (fun r => (r.2.mem 0x1000, r.2.paused)) =
      some (some 0xCC, true) := by decide +kernel
  obtain ⟨⟨ret, s'⟩, h, hr⟩ := Option.map_eq_some_iff.1 hsome
  obtain rfl := doSync_ret h
  simp only [Prod.mk.injEq] at hr
  refine ⟨s', h, rfl, by decide, hr.1, rfl, hr.2, fun hu => ?_⟩
  obtain ⟨ret, s'', h', -, hp⟩ := hu
  rw [h] at h'
  cases h'
  rw [hr.2] at hp
  cases hp

end Hyperagents
