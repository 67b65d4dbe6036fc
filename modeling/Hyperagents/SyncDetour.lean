import Hyperagents.SyncInstall
/-!
# What a returned call says of the detour

The call returns 0 whether or not the detour was taken, and the callback sends a context back from the tail of
sys_sync by the address alone.  Both are told here from the ticks: `doSync_flushed_iff` says when a call that returned
had a vCPU go from dwork to sys_sync and on to its tail, `sent_back_only_detoured_iff` when every context sent back to
dwork is one that came from there, `all_sent_back_iff` when every context that came from there was sent back.
-/
namespace Hyperagents

open Planting

/-! ## The ticks a call gets to see -/

/-- The globals the callbacks go by: the ones on entry, with the addresses looked up. -/
def armed (c : SyncCall) (g : Globals) : Globals := { g with addr := resolved c g }

variable {ghostImage : String} {c : SyncCall} {g : Globals} {guest : Guest}

theorem find_listening : (listening c g guest).g.find = (armed c g).find := by
  funext rip
  unfold Globals.find
  rw [listening_addr]
  rfl

/-- Whether the loop is live depends on the entry and the addresses, not on what was found there. -/
theorem live_listening (p : List Tick) : Live (listening c g guest).g p ↔ Live (armed c g) p := by
  have hg := (installed_spec c g guest).untouched.g
  have h2 : (listening c g guest).g.safety = g.safety := by rw [listening_g, hg]; rfl
  have h3 : (listening c g guest).g.doCleanup = g.doCleanup := by rw [listening_g, hg]; rfl
  unfold Live Stops CleaningUp
  rw [listening_interrupted, h2, h3, find_listening]
  rfl

/-- An int3 leaves the loop live: only the return of a listen ends it. -/
theorem Live.int3 {p : List Tick} (h : Live g p) (e : Int3) : Live g (p ++ [.int3 e]) := by
  refine ⟨h.1, fun q ok hq => h.2 q ok ?_⟩
  rcases List.prefix_concat_iff.1 hq with heq | hq
  · exact absurd (prefix_snoc_eq.1 heq).2 (by simp)
  · exact hq

theorem Live.of_prefix {p q : List Tick} (h : Live g q) (hp : p <+: q) : Live g p :=
  ⟨h.1, fun r ok hr => h.2 r ok (hr.trans hp)⟩

theorem listenLoop_eq_none (vmid : UInt64) : ∀ (ts : List Tick) (s : SyncState),
    listenLoop ghostImage vmid s ts = none ↔
      ∀ q ok, q ++ [.ret ok] <+: ts → (runTicks ghostImage vmid s (q ++ [.ret ok])).g.interrupted = 0
  | [], s => by simp [listenLoop]
  | t :: ts, s => by
    simp only [listenLoop]
    split
    · rename_i hret
      simp only [reduceCtorEq, false_iff]
      intro h
      cases t with
      | ret ok => exact hret.2 (h [] ok ⟨ts, rfl⟩)
      | _ => cases hret.1
    · rename_i hret
      rw [listenLoop_eq_none vmid ts]
      constructor
      · intro h q ok hq
        cases q with
        | nil =>
          obtain ⟨rfl, -⟩ := List.cons_prefix_cons.1 hq
          exact Classical.byContradiction (fun hne => hret ⟨rfl, hne⟩)
        | cons u q =>
          obtain ⟨rfl, htail⟩ := List.cons_prefix_cons.1 hq
          exact h q ok htail
      · intro h q ok hq
        exact h (t :: q) ok (List.cons_prefix_cons.2 ⟨rfl, hq⟩)

/-- **A call has not returned on its ticks** when it has entered the loop and the loop is live. -/
theorem doSync_eq_none : doSync ghostImage c g guest = none ↔ resolved c g .dwork ≠ 0 ∧ Live (armed c g) c.ticks := by
  rw [← @live_listening c g guest, live_iff ghostImage c.vmid, listening_interrupted]
  by_cases hfn : resolved c g .dwork = 0
  · rw [doSync_exit hfn]
    exact ⟨nofun, fun h => absurd hfn h.1⟩
  · by_cases hint : g.interrupted = 0
    · rw [doSync_listen hfn hint, Option.map_eq_none_iff, listenLoop_eq_none]
      exact ⟨fun h => ⟨hfn, hint, h⟩, fun h => h.2.2⟩
    · rw [doSync_skip hfn hint]
      exact ⟨nofun, fun h => absurd h.2.1 hint⟩

/-- The loop is left at the end of these ticks. -/
def LeftAfter (g : Globals) (used : List Tick) : Prop := ¬ Live g used ∧ ∀ p t, used = p ++ [t] → Live g p

theorem LeftAfter.unique {used used' ts : List Tick} (h : LeftAfter g used) (h' : LeftAfter g used')
    (hpre : used <+: ts) (hpre' : used' <+: ts) : used = used' := by
  -- A longer one would go on after the shorter.
  have hle : ∀ {u u' : List Tick}, LeftAfter g u → LeftAfter g u' → u <+: u' → u = u' := by
    rintro u u' hu hu' ⟨v, rfl⟩
    rcases v.eq_nil_or_concat with rfl | ⟨v, t, rfl⟩
    · exact (List.append_nil u).symm
    · have hlive := hu'.2 (u ++ v) t (by simp)
      exact absurd (hlive.of_prefix (List.prefix_append u v)) hu.1
  rcases List.prefix_or_prefix_of_prefix hpre hpre' with hp | hp
  · exact hle h h' hp
  · exact (hle h' h hp).symm

/-- **A call that entered its loop and returned** did so from where the loop is left. -/
theorem doSync_left (hfn : resolved c g .dwork ≠ 0) {ret : Int} {s' : SyncState}
    (h : doSync ghostImage c g guest = some (ret, s')) : ∃ used, used <+: c.ticks ∧ LeftAfter (armed c g) used ∧
      s' = finish c (runTicks ghostImage c.vmid (listening c g guest) used) := by
  obtain ⟨-, used, hpre, hs, hused⟩ := doSync_loop hfn h
  simp only [live_listening] at hused
  refine ⟨used, hpre, ⟨fun hlive => ?_, fun p t hp => ((hused p t).1 (hp ▸ List.prefix_rfl)).2⟩, hs⟩
  obtain ⟨rest, hrest⟩ := hpre
  cases rest with
  | nil =>
    rw [List.append_nil] at hrest
    have hnone : doSync ghostImage c g guest = none := doSync_eq_none.2 ⟨hfn, hrest ▸ hlive⟩
    cases hnone.symm.trans h
  | cons t rest =>
    have hnext : used ++ [t] <+: used := (hused used t).2 ⟨⟨rest, by simp [← hrest]⟩, hlive⟩
    have := hnext.length_le
    rw [List.length_append, List.length_singleton] at this
    omega

/-- The int3s of a list of ticks. -/
def int3s (ts : List Tick) : List Int3 :=
  ts.filterMap fun
    | .int3 e => some e
    | _ => none

theorem mem_int3s {ts : List Tick} {e : Int3} : e ∈ int3s ts ↔ .int3 e ∈ ts := by
  unfold int3s
  rw [List.mem_filterMap]
  constructor
  · rintro ⟨t, ht, he⟩
    cases t <;> simp_all
  · intro h
    exact ⟨_, h, rfl⟩

/-- The last int3 of any vCPU. -/
def lastInt3 (p : List Tick) : Option Int3 := (int3s p).getLast?

theorem lastInt3_snoc (p : List Tick) (t : Tick) : lastInt3 (p ++ [t]) =
    match t with
    | .int3 e => some e
    | _ => lastInt3 p := by
  have hsnoc : int3s (p ++ [t]) = int3s p ++ int3s [t] := List.filterMap_append
  rw [lastInt3, hsnoc]
  cases t with
  | int3 e => exact List.getLast?_concat
  | _ => exact congrArg List.getLast? (List.append_nil _)

section

variable (ghostImage : String) (vmid : UInt64)

/-- Where the next step writes: where the last int3 was, or where it would have on entry. -/
theorem runTicks_rewriteLoc (s : SyncState) (p : List Tick) : (runTicks ghostImage vmid s p).g.stepRewriteLoc =
    ((lastInt3 p).map (·.regs.rip)).getD s.g.stepRewriteLoc := by
  induction p using List.reverseRecOn with
  | nil => rfl
  | append_singleton p t ih =>
    obtain ⟨quiet, h⟩ := tick_effect ghostImage vmid (runTicks ghostImage vmid s p) t
    rw [runTicks_snoc, h.g, lastInt3_snoc]
    cases t with
    | int3 e => rfl
    | step v =>
      simp only [tickGlobals]
      split <;> exact ih
    | guest a x => exact ih
    | ret ok =>
      simp only [tickGlobals]
      split <;> exact ih

theorem answers_fst : ∀ (ts : List Tick) (s : SyncState),
    (answers ghostImage vmid s ts).map Prod.fst = int3s ts
  | [], _ => rfl
  | t :: ts, s => by
    rw [answers, List.map_append, answers_fst ts]
    cases t <;> rfl

theorem answers_snoc (s : SyncState) (p : List Tick) (e : Int3) : answers ghostImage vmid s (p ++ [.int3 e]) =
    answers ghostImage vmid s p ++ [(e, replyAt (runTicks ghostImage vmid s p).g e)] := by
  rw [answers_append]
  rfl

end

/-! ## Redirects -/

/-- From the beginning of dwork to the beginning of sys_sync. -/
def Detours (addr : Bp → Addr) (x : Int3 × IntReply) : Prop :=
  x.1.regs.rip = addr .dwork ∧ x.2.setRegisters = true ∧ x.2.regs.rip = addr .sysSyncFront

/-- From the tail of sys_sync to dwork, from one address to another. -/
def SendsBack (addr : Bp → Addr) (x : Int3 × IntReply) : Prop :=
  x.1.regs.rip = addr .sysSyncBack ∧ x.1.regs.rip ≠ addr .dwork ∧ x.2.setRegisters = true ∧ x.2.regs.rip = addr .dwork

theorem find_dwork_or {g : Globals} {rip : Addr} (h : rip = g.addr .dwork) :
    g.find rip = some .qworko ∨ g.find rip = some .dwork := by
  unfold Globals.find
  by_cases hq : rip = g.addr .qworko
  · rw [if_pos hq]
    exact .inl rfl
  · rw [if_neg hq, if_pos h]
    exact .inr rfl

theorem detours_iff {g g' : Globals} (h : SameBreakpoints g g') (e : Int3) :
    Detours g.addr (e, replyAt g' e) ↔ g.find e.regs.rip = some .dwork := by
  rw [← h.find, ← h.addr]
  constructor
  · rintro ⟨hrip, hset, -⟩
    rcases replyAt_setRegisters hset with ⟨hf, -⟩ | ⟨hf, -⟩
    · exact hf
    · rcases find_dwork_or hrip with hd | hd <;> rw [hd] at hf <;> cases hf
  · intro hf
    unfold replyAt
    rw [hf]
    exact ⟨(addr_of_find hf).symm, rfl, rfl⟩

theorem sendsBack_iff {g g' : Globals} (h : SameBreakpoints g g') (e : Int3) :
    SendsBack g.addr (e, replyAt g' e) ↔ g.find e.regs.rip = some .sysSyncBack := by
  rw [← h.find, ← h.addr]
  constructor
  · rintro ⟨-, hne, hset, -⟩
    rcases replyAt_setRegisters hset with ⟨hf, -⟩ | ⟨hf, -⟩
    · exact absurd (addr_of_find hf).symm hne
    · exact hf
  · intro hf
    unfold replyAt
    rw [hf]
    refine ⟨(addr_of_find hf).symm, fun hd => ?_, rfl, rfl⟩
    rcases find_dwork_or hd with hq | hq <;> rw [hq] at hf <;> cases hf

/-- A reply of a run is one of the loop's, at the addresses looked up. -/
theorem answers_reply {vmid : UInt64} {ts : List Tick} {x : Int3 × IntReply}
    (h : x ∈ answers ghostImage vmid (listening c g guest) ts) :
    (Detours (resolved c g) x ↔ (armed c g).find x.1.regs.rip = some .dwork) ∧
    (SendsBack (resolved c g) x ↔ (armed c g).find x.1.regs.rip = some .sysSyncBack) := by
  obtain ⟨p, -, hr⟩ := mem_answers ghostImage vmid h
  have hsame := runTicks_same ghostImage vmid (listening c g guest) p
  obtain ⟨e, r⟩ := x
  obtain rfl : r = replyAt _ e := hr
  rw [← @find_listening c g guest, ← @listening_addr c g guest]
  exact ⟨detours_iff hsame e, sendsBack_iff hsame e⟩

/-- What a returned call has in its trace: nothing where it left at once, else the answers of the ticks it saw. -/
theorem doSync_replies {ret : Int} {s' : SyncState} (h : doSync ghostImage c g guest = some (ret, s')) :
    (resolved c g .dwork = 0 ∧ replies s'.trace = []) ∨
    (resolved c g .dwork ≠ 0 ∧ ∃ used, replies s'.trace = answers ghostImage c.vmid (listening c g guest) used ∧
      ∀ p t, p ++ [t] <+: used ↔ p ++ [t] <+: c.ticks ∧ Live (armed c g) p) := by
  by_cases hfn : resolved c g .dwork = 0
  · rw [doSync_exit hfn] at h
    cases h
    exact .inl ⟨hfn, by simpa [entered, replies] using (installed_spec c g guest).untouched.replies⟩
  · obtain ⟨-, used, -, rfl, hlive⟩ := doSync_loop hfn h
    refine .inr ⟨hfn, used, ?_, fun p t => by rw [hlive, live_listening]⟩
    rw [(finish_effect c _).replies, replies_runTicks, listening_replies, List.nil_append]

/-! ## Mounted implies flushed -/

/-- A vCPU was redirected from dwork to sys_sync, and was at the tail of sys_sync afterwards. -/
def Flushed (addr : Bp → Addr) (t : List Act) : Prop :=
  ∃ x d y b z, replies t = x ++ d :: y ++ b :: z ∧ Detours addr d ∧ b.1.vcpu = d.1.vcpu ∧
    b.1.regs.rip = addr .sysSyncBack

/-- **A call that returned 0 flushed the guest** exactly when `target_work_fn` was not zero and, while the loop was
live, a vCPU came to dwork and later to the tail of sys_sync. -/
theorem doSync_flushed_iff (ghostImage : String) (c : SyncCall) (g : Globals) (guest : Guest) (ret : Int)
    (s' : SyncState) (h : doSync ghostImage c g guest = some (ret, s')) :
    (ret = 0 → Flushed (resolved c g) s'.trace) ↔
      resolved c g .dwork ≠ 0 ∧ ∃ p d e, p ++ [.int3 e] <+: c.ticks ∧ Live (armed c g) p ∧
        .int3 d ∈ p ∧ (armed c g).find d.regs.rip = some .dwork ∧
        e.vcpu = d.vcpu ∧ e.regs.rip = resolved c g .sysSyncBack := by
  obtain rfl := doSync_ret h
  rcases doSync_replies h with ⟨h0, hr⟩ | ⟨hfn, used, hr, hused⟩
  · simp only [Flushed, hr, h0]
    constructor
    · intro hf
      obtain ⟨x, d, y, b, z, hxy, -⟩ := hf trivial
      simp at hxy
    · rintro ⟨hfn, -⟩
      exact absurd rfl hfn
  · simp only [Flushed, hr, forall_const]
    constructor
    · rintro ⟨x, d, y, b, z, hxy, hd, hv, hb⟩
      obtain ⟨p, q, rfl, hp, -, -⟩ := answers_split ghostImage c.vmid used _ _ z hxy
      have hdp : d ∈ answers ghostImage c.vmid (listening c g guest) p := by rw [hp]; simp
      have hmem : d.1 ∈ int3s p := by
        rw [← answers_fst ghostImage c.vmid p (listening c g guest)]
        exact List.mem_map_of_mem hdp
      obtain ⟨hpre, hlive⟩ := (hused p (.int3 b.1)).1 ⟨q, by simp⟩
      exact ⟨hfn, p, d.1, b.1, hpre, hlive, mem_int3s.1 hmem, (answers_reply hdp).1.1 hd, hv, hb⟩
    · rintro ⟨-, p, d, e, hpre, hlive, hd, hf, hv, hb⟩
      obtain ⟨q, rfl⟩ := (hused p (.int3 e)).2 ⟨hpre, hlive⟩
      have hd' : d ∈ (answers ghostImage c.vmid (listening c g guest) p).map Prod.fst := by
        rw [answers_fst]
        exact mem_int3s.2 hd
      obtain ⟨⟨d', r⟩, hdr, rfl⟩ := List.mem_map.1 hd'
      obtain ⟨x, y, hxy⟩ := List.append_of_mem hdr
      refine ⟨x, (d', r), y, (e, replyAt (runTicks ghostImage c.vmid (listening c g guest) p).g e),
        answers ghostImage c.vmid (runTicks ghostImage c.vmid (listening c g guest) (p ++ [.int3 e])) q, ?_,
        (answers_reply hdr).1.2 hf, hv, hb⟩
      rw [answers_append, answers_snoc, hxy, List.append_assoc, List.singleton_append]

/-- One whole detour, to the clean-up and the listen's return. -/
def flushTicks : List Tick :=
  [.int3 (hit 0 0x2000), .int3 (hit 0 0x3000), .int3 (hit 0 0x309c), .int3 (hit 0 0x20aa), .step 0, .ret true]

theorem doSync_flushed_iff_nop : ∃ s', doSync "ghost.img" (nopCall flushTicks) .fresh nopGuest = some (0, s') ∧
    ((0 : Int) = 0 → Flushed (resolved (nopCall flushTicks) .fresh) s'.trace) := by
  have hsome : (doSync "ghost.img" (nopCall flushTicks) .fresh nopGuest).isSome := by decide +kernel
  obtain ⟨⟨ret, s'⟩, h⟩ := Option.isSome_iff_exists.1 hsome
  obtain rfl := doSync_ret h
  refine ⟨s', h, (doSync_flushed_iff _ _ _ _ _ s' h).2 ⟨by decide, ?_⟩⟩
  refine ⟨[.int3 (hit 0 0x2000), .int3 (hit 0 0x3000)], hit 0 0x2000, hit 0 0x309c, ?_, ⟨rfl, ?_⟩, ?_, ?_, rfl, ?_⟩
  · exact ⟨[.int3 (hit 0 0x20aa), .step 0, .ret true], rfl⟩
  · rintro q ok hq
    have := hq.subset (List.mem_append_right q (List.mem_singleton.2 rfl))
    simp at this
  · exact List.mem_cons_self
  · decide
  · decide

/-- The same call twice in one process: the first flushes the guest, the second returns 0 without an int3. -/
theorem doSync_second_not_flushed : ∃ s₁ s₂,
    doSync "ghost.img" (nopCall flushTicks) .fresh nopGuest = some (0, s₁) ∧
    doSync "ghost.img" (nopCall flushTicks) s₁.g ⟨s₁.mem, s₁.paused⟩ = some (0, s₂) ∧
    ¬ Flushed (resolved (nopCall flushTicks) s₁.g) s₂.trace := by
  have hsome : ((doSync "ghost.img" (nopCall flushTicks) .fresh nopGuest).bind fun r₁ =>
      (doSync "ghost.img" (nopCall flushTicks) r₁.2.g ⟨r₁.2.mem, r₁.2.paused⟩).map fun r₂ => replies r₂.2.trace) =
      some [] := by decide +kernel
  obtain ⟨⟨ret₁, s₁⟩, h₁, hrest⟩ := Option.bind_eq_some_iff.1 hsome
  obtain ⟨⟨ret₂, s₂⟩, h₂, hr⟩ := Option.map_eq_some_iff.1 hrest
  obtain rfl := doSync_ret h₁
  obtain rfl := doSync_ret h₂
  refine ⟨s₁, s₂, h₁, h₂, ?_⟩
  rintro ⟨x, d, y, b, z, hxy, -⟩
  rw [hr] at hxy
  simp at hxy

/-! ## Only the intercepted context is sent back -/

/-- The states of a call: between two ticks of a loop that has not been left, and where it returned. -/
inductive DuringSync (ghostImage : String) (c : SyncCall) (g : Globals) (guest : Guest) : SyncState → Prop
  | loop (p : List Tick) : p <+: c.ticks → doSync ghostImage { c with ticks := p } g guest = none →
      DuringSync ghostImage c g guest (runTicks ghostImage c.vmid (listening c g guest) p)
  | returned (ret : Int) (s' : SyncState) : doSync ghostImage c g guest = some (ret, s') →
      DuringSync ghostImage c g guest s'

/-- The int3s a state of the call has answered: none where the call left at once, else those of ticks it got to see. -/
theorem DuringSync.answers {s : SyncState} (h : DuringSync ghostImage c g guest s) : replies s.trace = [] ∨
    (resolved c g .dwork ≠ 0 ∧ ∃ used,
      replies s.trace = Hyperagents.answers ghostImage c.vmid (listening c g guest) used ∧
      ∀ p t, p ++ [t] <+: used → p ++ [t] <+: c.ticks ∧ Live (armed c g) p) := by
  cases h with
  | loop p hp hnone =>
    obtain ⟨hfn, hlive⟩ := doSync_eq_none.1 hnone
    refine .inr ⟨hfn, p, by rw [replies_runTicks, listening_replies, List.nil_append], fun q t hq => ⟨hq.trans hp, ?_⟩⟩
    exact hlive.of_prefix ((List.prefix_append q [t]).trans hq)
  | returned ret s' hret =>
    rcases doSync_replies hret with ⟨-, hr⟩ | ⟨hfn, used, hr, hused⟩
    · exact .inl hr
    · exact .inr ⟨hfn, used, hr, fun p t hp => (hused p t).1 hp⟩

/-- Every context sent back to dwork was redirected from there before, and not sent back since. -/
def OnlyDetoured (addr : Bp → Addr) (l : List (Int3 × IntReply)) : Prop :=
  ∀ x b y, l = x ++ b :: y → SendsBack addr b →
    ∃ u d w, x = u ++ d :: w ∧ Detours addr d ∧ d.1.ctx = b.1.ctx ∧
      ∀ z ∈ w, z.1.ctx = b.1.ctx → ¬ SendsBack addr z

/-- Among the int3s `l`, a hit at dwork by `ctx` with none at the tail of sys_sync after it. -/
def AwayFromDwork (g : Globals) (ctx : Nat) (l : List Int3) : Prop :=
  ∃ u d w, l = u ++ d :: w ∧ g.find d.regs.rip = some .dwork ∧ d.ctx = ctx ∧
    ∀ z ∈ w, z.ctx = ctx → g.find z.regs.rip ≠ some .sysSyncBack

theorem awayFromDwork_iff {vmid : UInt64} {p : List Tick} (ctx : Nat) :
    (∃ u d w, answers ghostImage vmid (listening c g guest) p = u ++ d :: w ∧ Detours (resolved c g) d ∧
      d.1.ctx = ctx ∧ ∀ z ∈ w, z.1.ctx = ctx → ¬ SendsBack (resolved c g) z) ↔
    AwayFromDwork (armed c g) ctx (int3s p) := by
  unfold AwayFromDwork
  rw [← answers_fst ghostImage vmid p (listening c g guest)]
  have hreply : ∀ x ∈ answers ghostImage vmid (listening c g guest) p, _ := fun x hx => answers_reply hx
  constructor
  · rintro ⟨u, d, w, hl, hd, hctx, hw⟩
    rw [hl] at hreply ⊢
    refine ⟨u.map Prod.fst, d.1, w.map Prod.fst, by simp, (hreply d (by simp)).1.1 hd, hctx, ?_⟩
    rintro z hz hzc hf
    obtain ⟨x, hx, rfl⟩ := List.mem_map.1 hz
    exact hw x hx hzc ((hreply x (by simp [hx])).2.2 hf)
  · rintro ⟨u, d, w, hmap, hd, hctx, hw⟩
    obtain ⟨u, dw, hl, rfl, hdw⟩ := List.map_eq_append_iff.1 hmap
    obtain ⟨d, w, rfl, rfl, rfl⟩ := List.map_eq_cons_iff.1 hdw
    clear hmap
    rw [hl] at hreply
    refine ⟨u, d, w, hl, (hreply d (by simp)).1.2 hd, hctx, fun z hz hzc hs => ?_⟩
    exact hw z.1 (List.mem_map_of_mem hz) hzc ((hreply z (by simp [hz])).2.1 hs)

/-- **Only the intercepted context is sent back** exactly when, while the loop is live, a context comes to the tail of
sys_sync only after it came to dwork, and once for each time. -/
theorem sent_back_only_detoured_iff (ghostImage : String) (c : SyncCall) (g : Globals) (guest : Guest) :
    (∀ s, DuringSync ghostImage c g guest s → OnlyDetoured (resolved c g) (replies s.trace)) ↔
      (resolved c g .dwork ≠ 0 → ∀ p e, p ++ [.int3 e] <+: c.ticks → Live (armed c g) p →
        (armed c g).find e.regs.rip = some .sysSyncBack → AwayFromDwork (armed c g) e.ctx (int3s p)) := by
  constructor
  · intro h hfn p e hpre hlive hf
    have hnone : doSync ghostImage { c with ticks := p ++ [.int3 e] } g guest = none :=
      doSync_eq_none.2 ⟨hfn, hlive.int3 e⟩
    have hs := h _ (.loop _ hpre hnone)
    rw [replies_runTicks, listening_replies, List.nil_append, answers_snoc] at hs
    have hmem : ∀ x ∈ answers ghostImage c.vmid (listening c g guest) (p ++ [.int3 e]), _ :=
      fun x hx => answers_reply hx
    rw [answers_snoc] at hmem
    exact (awayFromDwork_iff e.ctx).1 (hs _ _ [] rfl ((hmem _ (by simp)).2.2 hf))
  · intro h s hs
    have hcore : ∀ used, (∀ p t, p ++ [t] <+: used → p ++ [t] <+: c.ticks ∧ Live (armed c g) p) →
        resolved c g .dwork ≠ 0 →
          OnlyDetoured (resolved c g) (answers ghostImage c.vmid (listening c g guest) used) := by
      intro used hused hfn x b y hxy hb
      have hbm : b ∈ answers ghostImage c.vmid (listening c g guest) used := by rw [hxy]; simp
      obtain ⟨p, q, rfl, rfl, -, -⟩ := answers_split ghostImage c.vmid used _ _ y hxy
      obtain ⟨hpre, hlive⟩ := hused p (.int3 b.1) ⟨q, by simp⟩
      exact (awayFromDwork_iff b.1.ctx).2 (h hfn p b.1 hpre hlive ((answers_reply hbm).2.1 hb))
    rcases hs.answers with hr | ⟨hfn, used, hr, hused⟩
    · rw [hr]
      intro x b y hxy
      simp at hxy
    · rw [hr]
      exact hcore used hused hfn

/-- A context that calls sync() on its own, in a fresh process, is sent to dwork with zeros for its arguments. -/
theorem sent_back_uninvolved :
    doSync "ghost.img" (nopCall [.int3 (hit 7 0x309c)]) .fresh nopGuest = none ∧
    replies (runTicks "ghost.img" 1 (listening (nopCall [.int3 (hit 7 0x309c)]) .fresh nopGuest)
      [.int3 (hit 7 0x309c)]).trace = [(hit 7 0x309c, ⟨false, true, { rip := 0x2000 }, 0⟩)] ∧
    ¬ ∀ s, DuringSync "ghost.img" (nopCall [.int3 (hit 7 0x309c)]) .fresh nopGuest s →
      OnlyDetoured (resolved (nopCall [.int3 (hit 7 0x309c)]) .fresh) (replies s.trace) := by
  have hnone : (doSync "ghost.img" (nopCall [.int3 (hit 7 0x309c)]) .fresh nopGuest).isNone := by decide +kernel
  have hr : replies (runTicks "ghost.img" 1 (listening (nopCall [.int3 (hit 7 0x309c)]) .fresh nopGuest)
      [.int3 (hit 7 0x309c)]).trace = [(hit 7 0x309c, ⟨false, true, { rip := 0x2000 }, 0⟩)] := by decide +kernel
  refine ⟨Option.isNone_iff_eq_none.1 hnone, hr, fun h => ?_⟩
  obtain ⟨u, d, w, hx, -⟩ := h _ (.loop _ List.prefix_rfl (Option.isNone_iff_eq_none.1 hnone)) []
    (hit 7 0x309c, ⟨false, true, { rip := 0x2000 }, 0⟩) [] hr ⟨by decide, by decide, rfl, by decide⟩
  simp at hx

/-! ## Every intercepted context is sent back -/

/-- Every redirect from dwork to sys_sync was followed by one back to dwork for the same context. -/
def AllSentBack (addr : Bp → Addr) (l : List (Int3 × IntReply)) : Prop :=
  ∀ x d y, l = x ++ d :: y → Detours addr d → ∃ b ∈ y, SendsBack addr b ∧ b.1.ctx = d.1.ctx

/-- After the int3s of `p`, context `ctx` comes to the tail of sys_sync while the loop is live. -/
def ComesBack (g : Globals) (ticks p : List Tick) (ctx : Nat) : Prop :=
  ∃ q e, p ++ q ++ [.int3 e] <+: ticks ∧ Live g (p ++ q) ∧ g.find e.regs.rip = some .sysSyncBack ∧ e.ctx = ctx

/-- **No intercepted work function is lost** exactly when, for every int3 at dwork that the call gets to see, the
context comes to the tail of sys_sync before the loop is left. -/
theorem all_sent_back_iff (ghostImage : String) (c : SyncCall) (g : Globals) (guest : Guest) (ret : Int)
    (s' : SyncState) (h : doSync ghostImage c g guest = some (ret, s')) :
    AllSentBack (resolved c g) (replies s'.trace) ↔
      (resolved c g .dwork ≠ 0 → ∀ p d, p ++ [.int3 d] <+: c.ticks → Live (armed c g) p →
        (armed c g).find d.regs.rip = some .dwork → ComesBack (armed c g) c.ticks (p ++ [.int3 d]) d.ctx) := by
  rcases doSync_replies h with ⟨h0, hr⟩ | ⟨hfn, used, hr, hused⟩
  · rw [hr]
    refine iff_of_true (fun x d y hxy => ?_) fun hfn => absurd h0 hfn
    simp at hxy
  · have hreply : ∀ x ∈ answers ghostImage c.vmid (listening c g guest) used, _ := fun x hx => answers_reply hx
    rw [hr]
    constructor
    · intro hall _ p d hpre hlive hf
      obtain ⟨rest, rfl⟩ := (hused p (.int3 d)).2 ⟨hpre, hlive⟩
      rw [answers_append, answers_snoc, List.append_assoc, List.singleton_append] at hall hreply
      obtain ⟨b, hb, hback, hctx⟩ := hall _ _ _ rfl ((hreply _ (by simp)).1.2 hf)
      obtain ⟨q, hq, -⟩ := mem_answers ghostImage c.vmid hb
      have hseen : p ++ [.int3 d] ++ q ++ [.int3 b.1] <+: p ++ [.int3 d] ++ rest := by
        rw [List.append_assoc _ q]
        exact (List.prefix_append_right_inj _).2 hq
      obtain ⟨hticks, hlive'⟩ := (hused _ _).1 hseen
      exact ⟨q, b.1, hticks, hlive', (hreply b (by simp [hb])).2.1 hback, hctx⟩
    · intro hcond x d y hxy hd
      obtain ⟨p, rest, rfl, -, -, rfl⟩ := answers_split ghostImage c.vmid used _ _ y hxy
      obtain ⟨hpre, hlive⟩ := (hused p (.int3 d.1)).1 ⟨rest, by simp⟩
      obtain ⟨q, e, hticks, hlive', hf, hctx⟩ := hcond hfn p d.1 hpre hlive ((hreply d (by rw [hxy]; simp)).1.1 hd)
      have hseen := (hused _ _).2 ⟨hticks, hlive'⟩
      -- What comes after the hit at dwork begins with `q` and the int3 of the same context.
      rw [List.append_assoc _ q, show p ++ .int3 d.1 :: rest = p ++ [.int3 d.1] ++ rest by simp,
        List.prefix_append_right_inj] at hseen
      obtain ⟨rest, rfl⟩ := hseen
      have hmem : (e, replyAt (runTicks ghostImage c.vmid
          (runTicks ghostImage c.vmid (listening c g guest) (p ++ [.int3 d.1])) q).g e) ∈ answers ghostImage c.vmid
            (runTicks ghostImage c.vmid (listening c g guest) (p ++ [.int3 d.1])) (q ++ [.int3 e] ++ rest) := by
        rw [answers_append, answers_snoc]
        simp
      have hin := hreply _ (hxy ▸ List.mem_append_right x (List.mem_cons_of_mem d hmem))
      exact ⟨_, hmem, hin.2.2 hf, hctx⟩

theorem all_sent_back_iff_nop : ∃ s', doSync "ghost.img" (nopCall flushTicks) .fresh nopGuest = some (0, s') ∧
    AllSentBack (resolved (nopCall flushTicks) .fresh) (replies s'.trace) := by
  have hsome : (doSync "ghost.img" (nopCall flushTicks) .fresh nopGuest).isSome := by decide +kernel
  obtain ⟨⟨ret, s'⟩, h⟩ := Option.isSome_iff_exists.1 hsome
  obtain rfl := doSync_ret h
  refine ⟨s', h, (all_sent_back_iff _ _ _ _ _ s' h).2 fun _ => ?_⟩
  have hlive : Live (armed (nopCall flushTicks) .fresh) (flushTicks.take 2) := by
    refine ⟨rfl, ?_⟩
    rintro q ok hq
    have := hq.subset (List.mem_append_right q (List.mem_singleton.2 rfl))
    simp [flushTicks] at this
  have hback : ComesBack (armed (nopCall flushTicks) .fresh) flushTicks [.int3 (hit 0 0x2000)] 0 :=
    ⟨[.int3 (hit 0 0x3000)], hit 0 0x309c, ⟨[.int3 (hit 0 0x20aa), .step 0, .ret true], rfl⟩, hlive, by decide, rfl⟩
  -- The first tick is the one hit at dwork.
  show ∀ p d, p ++ [.int3 d] <+: flushTicks → _
  intro p d hpre _ hf
  rcases p with _ | ⟨a, p⟩
  · obtain ⟨⟨⟩, -⟩ := List.cons_prefix_cons.1 hpre
    exact hback
  · have hmem : Tick.int3 d ∈ flushTicks.tail := by
      obtain ⟨-, hp⟩ := List.cons_prefix_cons.1 hpre
      exact hp.subset (by simp)
    simp only [flushTicks, List.tail_cons, List.mem_cons, Tick.int3.injEq, reduceCtorEq, List.not_mem_nil,
      or_false] at hmem
    rcases hmem with rfl | rfl | rfl <;> exact absurd hf (by decide)

/-- A listen that fails right after a context was redirected from dwork: the call returns without it. -/
theorem detour_abandoned : ∃ s',
    doSync "ghost.img" (nopCall [.int3 (hit 0 0x2000), .ret false]) .fresh nopGuest = some (0, s') ∧
      ¬ AllSentBack (resolved (nopCall []) .fresh) (replies s'.trace) := by
  have hfound : (doSync "ghost.img" (nopCall [.int3 (hit 0 0x2000), .ret false]) .fresh nopGuest).map
      (fun r => replies r.2.trace) = some [(hit 0 0x2000, ⟨false, true, { rip := 0x3000 }, 0⟩)] := by decide +kernel
  obtain ⟨⟨ret, s'⟩, h, hr⟩ := Option.map_eq_some_iff.1 hfound
  obtain rfl := doSync_ret h
  refine ⟨s', h, fun hall => ?_⟩
  obtain ⟨b, hb, -⟩ := hall [] _ [] hr ⟨by decide, rfl, by decide⟩
  cases hb

end Hyperagents
