import Hyperagents.SyncDetour
/-!
# The arguments a context gets back

The callback saves the argument registers of a context that comes to dwork, and gives them to the next one it sends back
there.  They are saved in one place for all contexts: each interception overwrites what the one before it saved.  So a
context gets its own arguments back exactly where the last context to come to dwork had the same (`own_arguments_iff`).
-/
namespace Hyperagents

/-- The registers the callback saves. -/
structure Args where
  rdi : UInt64
  rsi : UInt64
  rdx : UInt64
  deriving DecidableEq, Repr

def Regs.args (r : Regs) : Args := ⟨r.rdi, r.rsi, r.rdx⟩

def Globals.savedArgs (g : Globals) : Args := ⟨g.savedRdi, g.savedRsi, g.savedRdx⟩

/-- The last int3 at dwork. -/
def lastAtDwork (g : Globals) (l : List Int3) : Option Int3 := l.reverse.find? fun e => g.find e.regs.rip = some .dwork

/-- The last int3 at dwork of one context. -/
def lastOf (g : Globals) (ctx : Nat) (l : List Int3) : Option Int3 :=
  l.reverse.find? fun e => e.ctx = ctx ∧ g.find e.regs.rip = some .dwork

/-- Every context sent back has the arguments that it last came to dwork with; its other registers are those it has at
the tail of sys_sync. -/
def OwnArguments (addr : Bp → Addr) (l : List (Int3 × IntReply)) : Prop :=
  ∀ x b y, l = x ++ b :: y → SendsBack addr b → ∀ u d w, x = u ++ d :: w → Detours addr d → d.1.ctx = b.1.ctx →
    (∀ z ∈ w, z.1.ctx = b.1.ctx → ¬ Detours addr z) →
      b.2.regs = { b.1.regs with
        rip := addr .dwork, rdi := d.1.regs.rdi, rsi := d.1.regs.rsi, rdx := d.1.regs.rdx }

/-- Where the context was at dwork, the last one there of all had the same arguments. -/
def SavedIsOwn (g : Globals) (ctx : Nat) (l : List Int3) : Prop :=
  ∀ d last, lastOf g ctx l = some d → lastAtDwork g l = some last → last.regs.args = d.regs.args

theorem lastAtDwork_snoc (g : Globals) (l : List Int3) (e : Int3) :
    lastAtDwork g (l ++ [e]) = if g.find e.regs.rip = some .dwork then some e else lastAtDwork g l := by
  unfold lastAtDwork
  rw [List.reverse_append, List.reverse_singleton, List.singleton_append, List.find?_cons]
  by_cases hf : g.find e.regs.rip = some .dwork <;> simp [hf]

theorem lastOf_eq_some {g : Globals} {ctx : Nat} {l : List Int3} {d : Int3} : lastOf g ctx l = some d ↔
    ∃ u w, l = u ++ d :: w ∧ d.ctx = ctx ∧ g.find d.regs.rip = some .dwork ∧
      ∀ z ∈ w, z.ctx = ctx → g.find z.regs.rip ≠ some .dwork := by
  unfold lastOf
  rw [List.find?_eq_some_iff_append]
  constructor
  · rintro ⟨hd, as, bs, hl, hnone⟩
    obtain ⟨hctx, hf⟩ := of_decide_eq_true hd
    refine ⟨bs.reverse, as.reverse, ?_, hctx, hf, fun z hz hzc hzf => ?_⟩
    · rw [← List.reverse_reverse l, hl]
      simp
    · have hz := hnone z (List.mem_reverse.1 hz)
      simp [hzc, hzf] at hz
  · rintro ⟨u, w, rfl, hctx, hf, hnone⟩
    refine ⟨decide_eq_true ⟨hctx, hf⟩, w.reverse, u.reverse, by simp, fun z hz => ?_⟩
    have hz := hnone z (List.mem_reverse.1 hz)
    simp only [Bool.not_eq_true', decide_eq_false_iff_not, not_and]
    exact hz

/-- A context that came to dwork is not the last to do so only if another came after it. -/
theorem lastAtDwork_of_lastOf {g : Globals} {ctx : Nat} {l : List Int3} {d : Int3} (h : lastOf g ctx l = some d) :
    ∃ last, lastAtDwork g l = some last := by
  obtain ⟨u, w, rfl, -, hf, -⟩ := lastOf_eq_some.1 h
  unfold lastAtDwork
  rw [← Option.isSome_iff_exists, List.find?_isSome]
  exact ⟨d, by simp, decide_eq_true hf⟩

/-! ## What is saved -/

section

variable (ghostImage : String) (vmid : UInt64)

/-- **The arguments saved** are those of the last int3 at dwork. -/
theorem runTicks_savedArgs (s : SyncState) (p : List Tick) : (runTicks ghostImage vmid s p).g.savedArgs =
    ((lastAtDwork s.g (int3s p)).map fun e => e.regs.args).getD s.g.savedArgs := by
  induction p using List.reverseRecOn with
  | nil => rfl
  | append_singleton p t ih =>
    obtain ⟨quiet, h⟩ := tick_effect ghostImage vmid (runTicks ghostImage vmid s p) t
    have hsnoc : int3s (p ++ [t]) = int3s p ++ int3s [t] := List.filterMap_append
    rw [runTicks_snoc, h.g, hsnoc]
    cases t with
    | int3 e =>
      rw [show int3s [.int3 e] = [e] from rfl, lastAtDwork_snoc]
      unfold Globals.savedArgs tickGlobals intGlobals
      dsimp only
      rw [runTicks_find]
      by_cases hf : s.g.find e.regs.rip = some .dwork
      · simp only [if_pos hf, Option.map_some, Option.getD_some]
        rfl
      · simp only [if_neg hf]
        exact ih
    | step v =>
      rw [show int3s [.step v] = [] from rfl, List.append_nil]
      simp only [tickGlobals]
      split <;> exact ih
    | guest a b =>
      rw [show int3s [.guest a b] = [] from rfl, List.append_nil]
      exact ih
    | ret ok =>
      rw [show int3s [.ret ok] = [] from rfl, List.append_nil]
      simp only [tickGlobals]
      split <;> exact ih

end

variable {ghostImage : String} {c : SyncCall} {g : Globals} {guest : Guest} {p : List Tick} {e d : Int3}

/-- The reply to a context at the tail of sys_sync. -/
theorem reply_regs (hf : (armed c g).find e.regs.rip = some .sysSyncBack) :
    (replyAt (runTicks ghostImage c.vmid (listening c g guest) p).g e).regs = { e.regs with
      rip := resolved c g .dwork
      rdi := (runTicks ghostImage c.vmid (listening c g guest) p).g.savedRdi
      rsi := (runTicks ghostImage c.vmid (listening c g guest) p).g.savedRsi
      rdx := (runTicks ghostImage c.vmid (listening c g guest) p).g.savedRdx } := by
  have hsame := runTicks_same ghostImage c.vmid (listening c g guest) p
  rw [← @find_listening c g guest, ← hsame.find] at hf
  unfold replyAt
  rw [hf, hsame.addr, listening_addr]

/-- **One send-back**: the reply brings the context's own arguments exactly where the last at dwork had the same. -/
theorem reply_own_iff (hf : (armed c g).find e.regs.rip = some .sysSyncBack)
    (hd : lastOf (armed c g) e.ctx (int3s p) = some d) :
    (replyAt (runTicks ghostImage c.vmid (listening c g guest) p).g e).regs =
        { e.regs with
          rip := resolved c g .dwork, rdi := d.regs.rdi, rsi := d.regs.rsi, rdx := d.regs.rdx } ↔
      ∀ last, lastAtDwork (armed c g) (int3s p) = some last → last.regs.args = d.regs.args := by
  have hsaved := runTicks_savedArgs ghostImage c.vmid (listening c g guest) p
  have hlast : lastAtDwork (listening c g guest).g (int3s p) = lastAtDwork (armed c g) (int3s p) := by
    unfold lastAtDwork
    rw [find_listening]
  obtain ⟨last, hl⟩ := lastAtDwork_of_lastOf hd
  rw [hlast, hl] at hsaved
  rw [reply_regs hf, hl]
  generalize (runTicks ghostImage c.vmid (listening c g guest) p).g = g' at hsaved
  obtain ⟨hrdi, hrsi, hrdx⟩ := Args.mk.inj (show Globals.savedArgs g' = last.regs.args from hsaved)
  rw [hrdi, hrsi, hrdx]
  simp [Regs.args]

/-! ## The whole call -/

/-- Where the replies of a run have a context at dwork last. -/
theorem lastOf_answers {ctx : Nat} :
    (∃ u d' w, answers ghostImage c.vmid (listening c g guest) p = u ++ d' :: w ∧ d'.1 = d ∧
      Detours (resolved c g) d' ∧ d'.1.ctx = ctx ∧ ∀ z ∈ w, z.1.ctx = ctx → ¬ Detours (resolved c g) z) ↔
    lastOf (armed c g) ctx (int3s p) = some d := by
  have hreply : ∀ x ∈ answers ghostImage c.vmid (listening c g guest) p,
      Detours (resolved c g) x ↔ (armed c g).find x.1.regs.rip = some .dwork := fun x hx => (answers_reply hx).1
  rw [lastOf_eq_some, ← answers_fst ghostImage c.vmid p (listening c g guest)]
  constructor
  · rintro ⟨u, d', w, hl, rfl, hd, hctx, hw⟩
    rw [hl] at hreply ⊢
    refine ⟨u.map Prod.fst, w.map Prod.fst, by simp, hctx, (hreply d' (by simp)).1 hd, fun z hz hzc hzf => ?_⟩
    obtain ⟨x, hx, rfl⟩ := List.mem_map.1 hz
    exact hw x hx hzc ((hreply x (by simp [hx])).2 hzf)
  · rintro ⟨u, w, hmap, hctx, hf, hw⟩
    obtain ⟨u, dw, hl, rfl, hdw⟩ := List.map_eq_append_iff.1 hmap
    obtain ⟨d', w, rfl, rfl, rfl⟩ := List.map_eq_cons_iff.1 hdw
    clear hmap
    rw [hl] at hreply
    refine ⟨u, d', w, hl, rfl, (hreply d' (by simp)).2 hf, hctx, fun z hz hzc hzd => ?_⟩
    exact hw z.1 (List.mem_map_of_mem hz) hzc ((hreply z (by simp [hz])).1 hzd)

/-- **Every context gets its own arguments back** exactly when, whenever one comes to the tail of sys_sync while the
loop is live, the last of all at dwork had the same arguments there. -/
theorem own_arguments_iff (ghostImage : String) (c : SyncCall) (g : Globals) (guest : Guest) :
    (∀ s, DuringSync ghostImage c g guest s → OwnArguments (resolved c g) (replies s.trace)) ↔
      (resolved c g .dwork ≠ 0 → ∀ p e, p ++ [.int3 e] <+: c.ticks → Live (armed c g) p →
        (armed c g).find e.regs.rip = some .sysSyncBack → SavedIsOwn (armed c g) e.ctx (int3s p)) := by
  constructor
  · intro h hfn p e hpre hlive hf d last hd hlast
    have hnone : doSync ghostImage { c with ticks := p ++ [.int3 e] } g guest = none :=
      doSync_eq_none.2 ⟨hfn, hlive.int3 e⟩
    have hs := h _ (.loop _ hpre hnone)
    rw [replies_runTicks, listening_replies, List.nil_append, answers_snoc] at hs
    have hback := (@answers_reply ghostImage c g guest c.vmid (p ++ [.int3 e])
      (e, replyAt (runTicks ghostImage c.vmid (listening c g guest) p).g e) (by rw [answers_snoc]; simp)).2.2 hf
    obtain ⟨u, d', w, hl, rfl, hdetour, hctx, hw⟩ := (@lastOf_answers ghostImage c g guest p d e.ctx).2 hd
    exact (reply_own_iff hf hd).1 (hs _ _ [] rfl hback u d' w hl hdetour hctx hw) last hlast
  · intro h s hs
    rcases hs.answers with hr | ⟨hfn, used, hr, hused⟩
    · rw [hr]
      intro x b y hxy
      simp at hxy
    · rw [hr]
      intro x b y hxy hb u d w hx hd hctx hw
      have hbm : b ∈ answers ghostImage c.vmid (listening c g guest) used := by rw [hxy]; simp
      obtain ⟨p, q, rfl, rfl, hreply, -⟩ := answers_split ghostImage c.vmid used _ _ y hxy
      obtain ⟨hpre, hlive⟩ := hused p (.int3 b.1) ⟨q, by simp⟩
      have hf := (answers_reply hbm).2.1 hb
      have hown := lastOf_answers.1 ⟨u, d, w, hx, rfl, hd, hctx, hw⟩
      rw [hreply]
      exact (reply_own_iff hf hown).2 fun last hlast => h hfn p b.1 hpre hlive hf d.1 last hown hlast

end Hyperagents
