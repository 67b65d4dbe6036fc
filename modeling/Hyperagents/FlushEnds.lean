import Hyperagents.SyncDetour
/-!
# When a flush ends

`do_sync` listens until `interrupted` is set, and looks at it only when a listen has returned.  The first flush of a
process returns exactly when one of its listens fails, or returns after the safety count is past fifty, or after a
single step that follows an int3 at the end of `dwork` (`flush_returns_iff`).  The safety count is no bound on the
int3s: a listen that goes on answers all that come.
-/
namespace Hyperagents

variable {ghostImage : String} {c : SyncCall} {guest : Guest} {p q : List Tick} {ok : Bool}

/-- A listen is the last one, by how it returns and by the ticks before its return. -/
def LastListen (g : Globals) (p : List Tick) (ok : Bool) : Prop :=
  ok = false ∨ 50 < p.countP Tick.isInt3 ∨
    ∃ q v, q ++ [.step v] <+: p ∧ ∃ e, .int3 e ∈ q ∧ g.find e.regs.rip = some .dworkBack

/-- A list with more than `n` of a kind has one of them with `n` before it. -/
theorem exists_prefix_countP {α : Type} {P : α → Bool} {n : Nat} {l : List α} (h : n < l.countP P) :
    ∃ p a, p ++ [a] <+: l ∧ P a = true ∧ p.countP P = n := by
  induction l using List.reverseRecOn with
  | nil => cases h
  | append_singleton l a ih =>
    by_cases hl : n < l.countP P
    · obtain ⟨p, b, hp, hb, hn⟩ := ih hl
      exact ⟨p, b, hp.trans (List.prefix_append _ _), hb, hn⟩
    · rw [List.countP_append, List.countP_singleton] at h
      split at h
      · next ha => exact ⟨l, a, List.prefix_rfl, ha, by omega⟩
      · exact absurd h hl

theorem Tick.eq_of_isInt3 {t : Tick} (h : t.isInt3 = true) : ∃ e, t = .int3 e := by
  cases t with
  | int3 e => exact ⟨e, rfl⟩
  | _ => cases h

/-- A prefix that ends in no return is one of what comes before the return. -/
theorem prefix_of_concat_ret {t : Tick} (hq : q ++ [t] <+: p ++ [.ret ok]) (ht : t.isRet = false) : q ++ [t] <+: p := by
  rcases List.prefix_concat_iff.1 hq with heq | hq
  · rw [(prefix_snoc_eq.1 heq).2] at ht
    cases ht
  · exact hq

/-- **The safety count** of a process with none so far. -/
theorem safety_past_iff {g : Globals} (h0 : g.safety = 0) :
    (∃ q e, q ++ [.int3 e] <+: p ∧ 50 < g.safety + UInt64.ofNat (q.countP Tick.isInt3 + 1)) ↔
      50 < p.countP Tick.isInt3 := by
  rw [h0]
  constructor
  · rintro ⟨q, e, hq, hpast⟩
    have hcount : (q ++ [Tick.int3 e]).countP Tick.isInt3 ≤ p.countP Tick.isInt3 := hq.sublist.countP_le
    rw [List.countP_append] at hcount
    have hlarge : 50 < q.countP Tick.isInt3 + 1 := by
      by_contra hsmall
      have hsize : q.countP Tick.isInt3 + 1 < UInt64.size := by
        change q.countP Tick.isInt3 + 1 < 18446744073709551616
        omega
      rw [UInt64.zero_add, UInt64.lt_iff_toNat_lt, UInt64.toNat_ofNat_of_lt' hsize] at hpast
      exact hsmall hpast
    exact hlarge.trans_le hcount
  · intro hpast
    obtain ⟨q, t, hq, ht, hcount⟩ := exists_prefix_countP hpast
    obtain ⟨e, rfl⟩ := Tick.eq_of_isInt3 ht
    exact ⟨q, e, hq, by rw [hcount]; decide⟩

/-- A listen after which `interrupted` is set is the last one, or comes after it. -/
theorem exists_lastListen_iff {g : Globals} {ts : List Tick} (hsafety : g.safety = 0) (hclean : g.doCleanup = 0) :
    (∃ p ok, p ++ [.ret ok] <+: ts ∧ Stops g (p ++ [.ret ok])) ↔
      ∃ p ok, p ++ [.ret ok] <+: ts ∧ LastListen g p ok := by
  have hcleaning : ∀ q, CleaningUp g q ↔ ∃ e, .int3 e ∈ q ∧ g.find e.regs.rip = some .dworkBack := by
    intro q
    unfold CleaningUp
    rw [hclean]
    exact or_iff_right (by decide)
  constructor
  · rintro ⟨p, ok, hp, hfailed | ⟨q, e, hq, hpast⟩ | ⟨q, v, hq, hclean⟩⟩
    · obtain ⟨q, r, hsplit⟩ := List.append_of_mem hfailed
      refine ⟨q, false, .trans ⟨r, ?_⟩ hp, .inl rfl⟩
      rw [hsplit, List.append_assoc]
      rfl
    · exact ⟨p, ok, hp, .inr (.inl ((safety_past_iff hsafety).1 ⟨q, e, prefix_of_concat_ret hq rfl, hpast⟩))⟩
    · exact ⟨p, ok, hp, .inr (.inr ⟨q, v, prefix_of_concat_ret hq rfl, (hcleaning q).1 hclean⟩)⟩
  · rintro ⟨p, ok, hp, hlast⟩
    refine ⟨p, ok, hp, (stops_snoc g p (.ret ok)).2 ?_⟩
    rcases hlast with hfailed | hpast | ⟨q, v, hq, hclean⟩
    · exact .inr hfailed
    · exact .inl (.inr (.inl ((safety_past_iff hsafety).2 hpast)))
    · exact .inl (.inr (.inr ⟨q, v, hq, (hcleaning q).2 hclean⟩))

/-- **The first flush of a process returns** exactly where there is no work function, or with the last of its listens,
for every guest and whatever events come in between. -/
theorem flush_returns_iff (ghostImage : String) (c : SyncCall) (guest : Guest) :
    (∃ r, doSync ghostImage c .fresh guest = some r) ↔
      resolved c .fresh .dwork = 0 ∨ ∃ p ok, p ++ [.ret ok] <+: c.ticks ∧ LastListen (armed c .fresh) p ok := by
  have hlive : Live (armed c .fresh) c.ticks ↔
      ¬ ∃ p ok, p ++ [.ret ok] <+: c.ticks ∧ Stops (armed c .fresh) (p ++ [.ret ok]) := by
    unfold Live
    push Not
    exact and_iff_right rfl
  rw [← Option.ne_none_iff_exists', ne_eq, doSync_eq_none, hlive, exists_lastListen_iff rfl rfl, not_and_or, not_not,
    not_not]

end Hyperagents
