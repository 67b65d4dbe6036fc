import Hyperagents.SyncRun
/-!
# What a call has installed when its event loop starts

The five addresses are a function of the lookups and of what an earlier call left in the globals (`resolved`).
Installing the breakpoints is planting 0xCC at them, in order (`installed_spec`), and taking them out is restoring the
bytes saved, in another order, with the guest's own writes among them (`foldl_replaceByte`).
-/
namespace Hyperagents

open Planting

/-- What a lookup's output variable holds before it: an address left by an earlier call, its offset in it. -/
def Globals.stale (g : Globals) : Bp → Addr
  | .dwork => g.targetWorkFn
  | b => g.addr b

/-- The address of a breakpoint after its lookup, failed or not. -/
def resolved (c : SyncCall) (g : Globals) (b : Bp) : Addr := (c.ksym b).getD (g.stale b) + b.offset

section

variable (c : SyncCall)

def installStep (s : SyncState) (b : Bp) : SyncState := patch b (lookupSym c b s)

theorem lookup_addr_self (g : Globals) (b : Bp) : (g.lookup b (c.ksym b)).addr b = resolved c g b := by
  cases b <;> simp [Globals.lookup, resolved, Globals.stale]

theorem lookup_addr_of_ne (g : Globals) {b b' : Bp} (found : Option Addr) (h : b' ≠ b) :
    (g.lookup b found).addr b' = g.addr b' := by
  cases b <;> simp [Globals.lookup, Function.update_of_ne h]

theorem lookup_targetWorkFn (g : Globals) (b : Bp) : (g.lookup b (c.ksym b)).targetWorkFn =
    if b = .dwork then resolved c g .dwork else g.targetWorkFn := by
  cases b <;> simp [Globals.lookup, resolved, Globals.stale]

/-- What installing leaves alone: the globals but for the addresses and bytes, the flags, and in the trace the int3s
and the guest's own writes. -/
structure Untouched (s s' : SyncState) : Prop where
  g : s'.g = { s.g with
    addr := s'.g.addr
    byte := s'.g.byte
    targetWorkFn := s'.g.targetWorkFn
    kaslrOffset := s'.g.kaslrOffset }
  paused : s'.paused = s.paused
  attached : s'.attached = s.attached
  replies : replies s'.trace = replies s.trace
  ownWrites : ownWrites s'.trace = ownWrites s.trace

theorem Untouched.trans {s s' s'' : SyncState} (h : Untouched s s') (h' : Untouched s' s'') : Untouched s s'' where
  g := h'.g.trans (by rw [h.g])
  paused := h'.paused.trans h.paused
  attached := h'.attached.trans h.attached
  replies := h'.replies.trans h.replies
  ownWrites := h'.ownWrites.trans h.ownWrites

theorem installStep_untouched (s : SyncState) (b : Bp) : Untouched s (installStep c s b) where
  g := by cases b <;> rfl
  paused := rfl
  attached := rfl
  replies := by simp [installStep, patch, lookupSym, -List.append_assoc]
  ownWrites := by simp [installStep, patch, lookupSym, -List.append_assoc]

theorem installStep_addr (s : SyncState) (b : Bp) :
    (installStep c s b).g.addr = (s.g.lookup b (c.ksym b)).addr := rfl

theorem installStep_targetWorkFn (s : SyncState) (b : Bp) : (installStep c s b).g.targetWorkFn =
    if b = .dwork then resolved c s.g .dwork else s.g.targetWorkFn := lookup_targetWorkFn c s.g b

theorem installStep_plant (s : SyncState) (b : Bp) : ((installStep c s b).mem, (installStep c s b).g.byte) =
    plantStep (resolved c s.g) breakpointByte (s.mem, s.g.byte) b := by
  have hb : (s.g.lookup b (c.ksym b)).byte = s.g.byte := by cases b <;> rfl
  simp only [installStep, patch, lookupSym, plantStep, ← lookup_addr_self, SyncState.vmi_mem, SyncState.vmi_g,
    SyncState.write8_mem, SyncState.write8_g, hb]

/-- Looking one symbol up does not change what the other lookups will yield. -/
theorem resolved_installStep (s : SyncState) {b b' : Bp} (h : b' ≠ b) :
    resolved c (installStep c s b).g b' = resolved c s.g b' := by
  unfold resolved
  congr 2
  unfold Globals.stale
  split
  · rw [installStep_targetWorkFn, if_neg h.symm]
  · exact lookup_addr_of_ne s.g _ h

structure InstallSpec (ks : List Bp) (s s' : SyncState) : Prop where
  addr : ∀ b, s'.g.addr b = if b ∈ ks then resolved c s.g b else s.g.addr b
  targetWorkFn : s'.g.targetWorkFn = if .dwork ∈ ks then resolved c s.g .dwork else s.g.targetWorkFn
  plant : (s'.mem, s'.g.byte) = plant (resolved c s.g) breakpointByte ks (s.mem, s.g.byte)
  untouched : Untouched s s'

theorem foldl_installStep : ∀ (ks : List Bp) (s : SyncState), ks.Nodup →
    InstallSpec c ks s (ks.foldl (installStep c) s)
  | [], s, _ => ⟨fun b => by simp, by simp, rfl, ⟨rfl, rfl, rfl, rfl, rfl⟩⟩
  | k :: ks, s, h => by
    obtain ⟨hk, hks⟩ := List.nodup_cons.1 h
    have ih := foldl_installStep ks (installStep c s k) hks
    have hne : ∀ b ∈ ks, b ≠ k := fun b hb e => hk (e ▸ hb)
    rw [List.foldl_cons]
    refine ⟨fun b => ?_, ?_, ?_, ?_⟩
    · rw [ih.addr b]
      by_cases hb : b ∈ ks
      · simp only [hb, if_true, List.mem_cons, or_true]
        exact resolved_installStep c s (hne b hb)
      · by_cases hbk : b = k
        · subst hbk
          simp [hb, installStep_addr, lookup_addr_self]
        · simp [hb, hbk, installStep_addr, lookup_addr_of_ne]
    · rw [ih.targetWorkFn]
      by_cases hb : Bp.dwork ∈ ks
      · simp only [hb, if_true, List.mem_cons, or_true]
        exact resolved_installStep c s (hne _ hb)
      · rw [if_neg hb, installStep_targetWorkFn]
        simp only [List.mem_cons, hb, or_false, @eq_comm _ k]
    · rw [ih.plant, installStep_plant]
      exact plant_congr breakpointByte ks _ (fun b hb => resolved_installStep c s (hne b hb))
    · exact (installStep_untouched c s k).trans ih.untouched

variable (g : Globals) (guest : Guest)

/-- The state `do_sync` starts in. -/
def entered : SyncState := (SyncState.vmi ⟨g, guest.mem, guest.paused, false, []⟩ .getVmid).pauseVm

/-- **What has been installed**: five breakpoints planted at the resolved addresses, everything else as it was. -/
structure Installed (s : SyncState) : Prop where
  addr : s.g.addr = resolved c g
  targetWorkFn : s.g.targetWorkFn = resolved c g .dwork
  plant : (s.mem, s.g.byte) = plant (resolved c g) breakpointByte installOrder (guest.mem, g.byte)
  untouched : Untouched (entered g guest) s

theorem mem_installOrder (b : Bp) : b ∈ installOrder := by cases b <;> decide

theorem mem_replaceOrder (b : Bp) : b ∈ replaceOrder := by cases b <;> decide

theorem installed_eq :
    installed c g guest = setKaslr (installOrder.foldl (installStep c) (entered g guest)) := rfl

theorem installed_spec : Installed c g guest (installed c g guest) := by
  have h := foldl_installStep c installOrder (entered g guest) (by decide)
  rw [installed_eq]
  generalize installOrder.foldl (installStep c) (entered g guest) = s at h
  refine ⟨?_, ?_, h.plant, ?_, h.untouched.paused, h.untouched.attached, h.untouched.replies, h.untouched.ownWrites⟩
  · funext b
    exact (h.addr b).trans (if_pos (mem_installOrder b))
  · exact h.targetWorkFn.trans (if_pos (mem_installOrder _))
  · have hu := h.untouched.g
    unfold setKaslr
    rw [hu]

end

/-! ## Taking the breakpoints out -/

theorem guestWrites_g : ∀ (ws : List (Addr × Byte)) (s : SyncState), (s.guestWrites ws).g = s.g
  | [], _ => rfl
  | w :: ws, s => guestWrites_g ws (s.guestWrite w.1 w.2)

theorem guestWrites_mem : ∀ (ws : List (Addr × Byte)) (s : SyncState), (s.guestWrites ws).mem = pokes s.mem ws
  | [], _ => rfl
  | w :: ws, s => guestWrites_mem ws (s.guestWrite w.1 w.2)

theorem guestWrites_paused : ∀ (ws : List (Addr × Byte)) (s : SyncState), (s.guestWrites ws).paused = s.paused
  | [], _ => rfl
  | w :: ws, s => guestWrites_paused ws (s.guestWrite w.1 w.2)

theorem guestWrites_replies : ∀ (ws : List (Addr × Byte)) (s : SyncState),
    replies (s.guestWrites ws).trace = replies s.trace
  | [], _ => rfl
  | w :: ws, s => (guestWrites_replies ws (s.guestWrite w.1 w.2)).trans (by simp)

theorem guestWrites_ownWrites : ∀ (ws : List (Addr × Byte)) (s : SyncState),
    ownWrites (s.guestWrites ws).trace = ownWrites s.trace ++ ws
  | [], _ => by simp [SyncState.guestWrites]
  | w :: ws, s => (guestWrites_ownWrites ws (s.guestWrite w.1 w.2)).trans (by simp)

/-- One breakpoint's turn: the guest's own writes, then the byte saved for it. -/
def replaceWrites (c : SyncCall) (g : Globals) (b : Bp) : List (Write Addr Byte) :=
  (c.late b).map (fun w => ⟨true, w.1, w.2⟩) ++ [⟨false, g.addr b, g.byte b⟩]

theorem written_own (ws : List (Addr × Byte)) : written (ws.map (fun w => ⟨true, w.1, w.2⟩)) = ws := by
  simp [written, Function.comp_def]

theorem owned_replaceWrites (c : SyncCall) (g : Globals) : ∀ ks : List Bp,
    owned (ks.flatMap (replaceWrites c g)) = ks.flatMap c.late
  | [] => rfl
  | k :: ks => by
    rw [List.flatMap_cons, owned_append, owned_replaceWrites c g ks, List.flatMap_cons]
    simp [owned, written, replaceWrites, List.filter_map, Function.comp_def]

structure ReplaceAll (c : SyncCall) (ks : List Bp) (s s' : SyncState) : Prop where
  g : s'.g = s.g
  mem : s'.mem = pokes s.mem (written (ks.flatMap (replaceWrites c s.g)))
  paused : s'.paused = s.paused
  replies : replies s'.trace = replies s.trace
  ownWrites : ownWrites s'.trace = ownWrites s.trace ++ ks.flatMap c.late

theorem replaceByte_mem (c : SyncCall) (s : SyncState) (b : Bp) :
    (replaceByte c s b).mem = poke (pokes s.mem (c.late b)) (s.g.addr b) (s.g.byte b) := by
  simp only [replaceByte, SyncState.vmi_mem, SyncState.write8_mem, SyncState.vmi_g, guestWrites_g, guestWrites_mem]

theorem replaceByte_effect (c : SyncCall) (s : SyncState) (b : Bp) : ReplaceAll c [b] s (replaceByte c s b) where
  g := by simp [replaceByte, guestWrites_g]
  mem := by
    rw [List.flatMap_singleton, replaceWrites, written_append, written_own, pokes_append, replaceByte_mem]
    rfl
  paused := by simp [replaceByte, guestWrites_paused]
  replies := by simp [replaceByte, guestWrites_replies, -List.append_assoc]
  ownWrites := by simp [replaceByte, guestWrites_ownWrites, -List.append_assoc]

/-- **Taking the breakpoints out** makes these writes, a breakpoint's turn after the other. -/
theorem foldl_replaceByte (c : SyncCall) : ∀ (ks : List Bp) (s : SyncState),
    ReplaceAll c ks s (ks.foldl (replaceByte c) s)
  | [], s => ⟨rfl, rfl, rfl, rfl, by simp⟩
  | k :: ks, s => by
    have h1 := replaceByte_effect c s k
    have ih := foldl_replaceByte c ks (replaceByte c s k)
    rw [List.foldl_cons]
    refine ⟨ih.g.trans h1.g, ?_, ih.paused.trans h1.paused, ih.replies.trans h1.replies, ?_⟩
    · rw [ih.mem, h1.mem, h1.g, ← pokes_append, ← written_append, ← List.flatMap_append]
      rfl
    · rw [ih.ownWrites, h1.ownWrites, List.append_assoc, ← List.flatMap_append]
      rfl

/-! ## The whole call -/

structure FinishEffect (c : SyncCall) (s s' : SyncState) : Prop where
  g : s'.g = s.g
  mem : s'.mem = pokes s.mem (written (replaceOrder.flatMap (replaceWrites c s.g)))
  paused : s'.paused = false
  replies : replies s'.trace = replies s.trace
  ownWrites : ownWrites s'.trace = ownWrites s.trace ++ replaceOrder.flatMap c.late

theorem finish_effect (c : SyncCall) (s : SyncState) : FinishEffect c s (finish c s) := by
  have h : ReplaceAll c replaceOrder ((s.vmi .clearEvent).vmi .clearEvent)
      (replaceMemory c ((s.vmi .clearEvent).vmi .clearEvent)) := foldl_replaceByte c replaceOrder _
  constructor <;> simp only [finish, SyncState.printRegs_g, SyncState.system_g, SyncState.resumeVm_g,
    SyncState.printRegs_mem, SyncState.system_mem, SyncState.resumeVm_mem, SyncState.printRegs_paused,
    SyncState.system_paused, SyncState.resumeVm_paused, SyncState.printRegs_replies, SyncState.system_trace,
    SyncState.resumeVm_trace, replies_system, replies_vmi, SyncState.printRegs_ownWrites, ownWrites_system,
    ownWrites_vmi]
  · exact h.g
  · exact h.mem
  · simpa [-List.append_assoc] using h.replies
  · simpa [-List.append_assoc] using h.ownWrites

/-- Off the breakpoints only the guest's own writes count. -/
theorem FinishEffect.memOff {c : SyncCall} {s s' : SyncState} (h : FinishEffect c s s') {a : Addr}
    (ha : ∀ b, s.g.addr b ≠ a) : s'.mem a = pokes s.mem (replaceOrder.flatMap c.late) a := by
  rw [h.mem, pokes_written_filter (·.own) a, ← owned_replaceWrites c s.g replaceOrder]
  · rfl
  · intro w hw how
    obtain ⟨b, -, hb⟩ := List.mem_flatMap.1 hw
    rcases List.mem_append.1 hb with hb | hb
    · obtain ⟨x, -, rfl⟩ := List.mem_map.1 hb
      cases how
    · rw [List.mem_singleton.1 hb]
      exact ha b

/-- Where the guest writes nothing, **the bytes saved are restored**. -/
theorem FinishEffect.memAt {c : SyncCall} {s s' : SyncState} (h : FinishEffect c s s') {a : Addr}
    (ha : ∀ b, ∀ w ∈ c.late b, w.1 ≠ a) : s'.mem a = restore s.g.addr s.g.byte replaceOrder s.mem a := by
  have hfilter : ∀ ks : List Bp, written ((ks.flatMap (replaceWrites c s.g)).filter (fun w => !w.own)) =
      ks.map (fun b => (s.g.addr b, s.g.byte b)) := by
    intro ks
    rw [List.map_eq_flatMap]
    simp [written, replaceWrites, List.filter_flatMap, List.filter_map, Function.comp_def, List.map_flatMap]
  rw [h.mem, pokes_written_filter (fun w => !w.own) a, hfilter, restore_eq_pokes]
  intro w hw how
  obtain ⟨b, -, hb⟩ := List.mem_flatMap.1 hw
  rcases List.mem_append.1 hb with hb | hb
  · obtain ⟨x, hx, rfl⟩ := List.mem_map.1 hb
    exact ha b x hx
  · rw [List.mem_singleton.1 hb] at how
    cases how

variable {ghostImage : String} {c : SyncCall} {g : Globals} {guest : Guest} {ret : Int} {s' : SyncState}

/-- The state in which the event loop starts. -/
def listening (c : SyncCall) (g : Globals) (guest : Guest) : SyncState := startEvents (installed c g guest)

@[simp] theorem listening_g : (listening c g guest).g = (installed c g guest).g := rfl
@[simp] theorem listening_mem : (listening c g guest).mem = (installed c g guest).mem := rfl

theorem listening_addr : (listening c g guest).g.addr = resolved c g := (installed_spec c g guest).addr

theorem listening_replies : replies (listening c g guest).trace = [] := by
  have h := (installed_spec c g guest).untouched.replies
  simpa [listening, startEvents, entered, replies, -List.append_assoc] using h

theorem listening_ownWrites : ownWrites (listening c g guest).trace = [] := by
  have h := (installed_spec c g guest).untouched.ownWrites
  simpa [listening, startEvents, entered, ownWrites, -List.append_assoc] using h

/-- **A call that leaves at once** planted its breakpoints and did nothing else. -/
theorem doSync_exit (hfn : resolved c g .dwork = 0) :
    doSync ghostImage c g guest = some (0, installed c g guest) := by
  unfold doSync
  rw [if_pos ((installed_spec c g guest).targetWorkFn.trans hfn)]

theorem listening_interrupted : (listening c g guest).g.interrupted = g.interrupted := by
  rw [listening_g, (installed_spec c g guest).untouched.g]
  rfl

/-- **A call that finds `interrupted` clear** listens. -/
theorem doSync_listen (hfn : resolved c g .dwork ≠ 0) (hint : g.interrupted = 0) : doSync ghostImage c g guest =
    (listenLoop ghostImage c.vmid (listening c g guest) c.ticks).map (fun s => (0, finish c s)) := by
  have hloop : eventLoop ghostImage c.vmid (listening c g guest) c.ticks =
      listenLoop ghostImage c.vmid (listening c g guest) c.ticks :=
    if_neg (not_not.2 (listening_interrupted.trans hint))
  unfold doSync
  rw [if_neg (fun e => hfn ((installed_spec c g guest).targetWorkFn.symm.trans e)), ← hloop]
  rfl

/-- **A call that finds it set** does not. -/
theorem doSync_skip (hfn : resolved c g .dwork ≠ 0) (hint : g.interrupted ≠ 0) :
    doSync ghostImage c g guest = some (0, finish c (listening c g guest)) := by
  have hloop : eventLoop ghostImage c.vmid (listening c g guest) c.ticks = some (listening c g guest) :=
    if_pos (fun h => hint (listening_interrupted.symm.trans h))
  unfold doSync
  rw [if_neg (fun e => hfn ((installed_spec c g guest).targetWorkFn.symm.trans e))]
  show (eventLoop ghostImage c.vmid (listening c g guest) c.ticks).map _ = _
  rw [hloop]
  rfl

/-- **A call that returns from its event loop** saw the ticks before which the loop was live, and finished. -/
theorem doSync_loop (hfn : resolved c g .dwork ≠ 0) (h : doSync ghostImage c g guest = some (ret, s')) :
    ret = 0 ∧ ∃ used, used <+: c.ticks ∧
      s' = finish c (runTicks ghostImage c.vmid (listening c g guest) used) ∧
      ∀ p t, p ++ [t] <+: used ↔ p ++ [t] <+: c.ticks ∧ Live (listening c g guest).g p := by
  unfold doSync at h
  rw [if_neg (fun e => hfn ((installed_spec c g guest).targetWorkFn.symm.trans e))] at h
  obtain ⟨s, hs, heq⟩ := Option.map_eq_some_iff.1 h
  cases heq
  obtain ⟨used, hpre, rfl, -, hlive⟩ := eventLoop_used ghostImage c.vmid hs
  exact ⟨rfl, used, hpre, rfl, hlive⟩

theorem doSync_ret (h : doSync ghostImage c g guest = some (ret, s')) : ret = 0 := by
  by_cases hfn : resolved c g .dwork = 0
  · rw [doSync_exit hfn] at h
    cases h
    rfl
  · exact (doSync_loop hfn h).1

/-! ## A small guest -/

/-- Four mapped pages of `nop`, running. -/
def nopGuest : Guest := ⟨fun a => if a < 0x4000 then some 0x90 else none, false⟩

/-- A call on it whose symbols all resolve. -/
def nopCall (ticks : List Tick) : SyncCall where
  vmid := 1
  ksym
    | .qworko => some 0x1000
    | .dwork | .dworkBack => some 0x2000
    | .sysSyncFront | .sysSyncBack => some 0x3000
  ticks := ticks
  late := fun _ => []

/-- Context `ctx` hits an int3 at `rip`, on vCPU 0. -/
def hit (ctx : Nat) (rip : Addr) : Int3 := ⟨0, ctx, { rip := rip }⟩

theorem nopCall_injective (ticks : List Tick) (g : Globals) : Function.Injective (resolved (nopCall ticks) g) := by
  have h : ∀ b b', resolved (nopCall []) .fresh b = resolved (nopCall []) .fresh b' → b = b' := by
    intro b b'
    cases b <;> cases b' <;> decide
  intro b b' hb
  apply h b b'
  cases b <;> cases b' <;> exact hb

end Hyperagents
