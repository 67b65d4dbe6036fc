import Hyperagents.NoDeadlock
import Hyperagents.VictimSearch
/-!
# A way out of a call

Wherever the threads are, one that goes on alone from there returns from its call at some clock readings exactly where
it has a `WayOut`: the mutexes that it still has to lock are free of the other threads, and it has a slot, or one to be
had.  The thread that holds the VMI lock always returns, but from the null pointer of a record that never had a VM
(`returns_alone_iff`).

LibVMI takes every VM here, `do_sync` returns, and `qemu-nbd` connects.
-/
namespace Hyperagents

open Runs LockOrder

variable {T : Type} [DecidableEq T]

/-- Steps of the thread alone, at some clock readings, take it out of its call. -/
def ReturnsAlone (s : TlState T) (t : T) : Prop :=
  ∃ clock s', Run (stepOf fun s now => tlStep s (.step t now)) s clock s' ∧ s'.pc t = .idle

omit [DecidableEq T] in
/-- No other thread holds the mutex. -/
def TlState.FreeTo (s : TlState T) (t : T) (m : Mutex) : Prop := ∀ u, s.holder m = some u → u = t

/-- From the slot `i` on there is one to be had, or in the search there is. -/
def TlState.Room (s : TlState T) (t : T) (i : Slot) : Prop :=
  (∃ j, i ≤ j ∧ s.holder (.slot j) = none) ∨ s.FreeTo t .lk ∧ ∃ j, s.records.refcount j = 0

/-- What the thread `t` needs to get on from where it is. -/
def WayOut (s : TlState T) (t : T) : TlPc → Prop
  | .lookup r =>
    match s.records.lookup r.vmi with
    | some i => s.records.canRemount i = true
    | none => s.FreeTo t .vmi ∧ s.Room t 0
  | .claiming _ i => s.FreeTo t .vmi ∧ s.Room t i
  | .name _ | .search _ _ _ | .sleep _ _ => s.FreeTo t .vmi ∧ s.FreeTo t .lk ∧ ∃ i, s.records.refcount i = 0
  -- The flush and the pause of a mount lock the VMI lock each.
  | .unmount _ _ | .vmi (.resume _ _) _ | .disconnect _ _ | .reassign _ _ | .vmi (.flush _) _ | .connect _ =>
    s.FreeTo t .vmi
  | .drop dev => s.FreeTo t .vmi ∧ ∃ i : Slot, dev = i.val ∧ s.records.canRelease i = true ∧ s.records.owner i ≠ none
  | .vmi (.release i) .lock => s.FreeTo t .vmi ∧ s.records.owner i ≠ none
  | .vmi (.release i) .body => s.records.owner i ≠ none
  | .vmi _ .lock | .print .lock => s.FreeTo t .vmi
  | .idle | .vmi _ _ | .register _ | .mount _ | .stamp _ | .leave _ _ | .setDev _ _ | .print _ => True

/-! ## The invariant -/

/-- The agent whose `mountdev` is set at the end of a thread's call. -/
def TlPc.asks : TlPc → Option String
  | .vmi (.flush j) _ | .vmi (.pause j) _ | .connect j | .mount j | .stamp j => some j.req.name
  | .lookup r | .claiming r _ | .name r | .search r _ _ | .sleep r _ | .unmount r _ | .vmi (.resume r _) _
  | .disconnect r _ | .reassign r _ | .leave r _ => some r.name
  | .setDev n _ => some n
  | _ => none

/-- The `max` of a thread that searches. -/
def TlPc.max : TlPc → Option Int
  | .search _ m _ | .sleep _ m => some m.1
  | _ => none

/-- What a thread goes by on its way. -/
structure OnTheWay (agents : String → Option HAConfig) (p : TlPc) : Prop where
  named : ∀ n, p.asks = some n → agents n ≠ none
  short : ∀ m, p.max = some m → m < 10000

section

variable {s s' : TlState T} {t : T} {p q : TlPc} {agents agents' : String → Option HAConfig}

theorem OnTheWay.mono (h : OnTheWay agents p) (hagents : ∀ n, agents n ≠ none → agents' n ≠ none) :
    OnTheWay agents' p :=
  ⟨fun n hn => hagents n (h.named n hn), h.short⟩

/-- At a point with no agent and no `max`. -/
theorem OnTheWay.out (hasks : p.asks = none) (hmax : p.max = none) : OnTheWay agents p := by
  refine ⟨fun n hn => ?_, fun m hm => ?_⟩
  · rw [hasks] at hn
    cases hn
  · rw [hmax] at hm
    cases hm

/-- On to a point with the same agent, and with the same `max` or none. -/
theorem OnTheWay.next (h : OnTheWay agents q) (hasks : p.asks = q.asks ∨ p.asks = none)
    (hmax : p.max = q.max ∨ p.max = none) : OnTheWay agents p := by
  refine ⟨fun n hn => ?_, fun m hm => ?_⟩
  · rcases hasks with he | he <;> rw [he] at hn
    · exact h.named n hn
    · cases hn
  · rcases hmax with he | he <;> rw [he] at hm
    · exact h.short m hm
    · cases hm

theorem TlPc.afterTaken_asks (r : MountReq) (i : Slot) :
    (TlPc.afterTaken r i).asks = some r.name ∧ (TlPc.afterTaken r i).max = none := by
  unfold TlPc.afterTaken
  split <;> exact ⟨rfl, rfl⟩

theorem VmiSection.after_asks (k : VmiSection) :
    k.after.asks = (TlPc.vmi k .unlock).asks ∧ k.after.max = none := by
  cases k <;> exact ⟨rfl, rfl⟩

theorem VmiSection.stage_asks (k : VmiSection) (st st' : Stage) : (TlPc.vmi k st).asks = (TlPc.vmi k st').asks := by
  cases k <;> rfl

/-- A thread inside a call goes on. -/
theorem tlNext_onTheWay {now : Timeval} (h : OnTheWay s.agents q) (hs : tlNext s t now q = some s') :
    ∃ p, s'.pc = Function.update s.pc t p ∧ (∀ n, s.agents n ≠ none → s'.agents n ≠ none) ∧ OnTheWay s'.agents p := by
  have hgo : ∀ p, p.asks = q.asks ∨ p.asks = none → p.max = q.max ∨ p.max = none → OnTheWay s.agents p :=
    fun p hasks hmax => h.next hasks hmax
  cases q with
  | idle => cases hs
  | vmi k st =>
    cases st with
    | lock =>
      obtain ⟨-, rfl⟩ := TlState.lock_some (p := .vmi k .body) (m := .vmi) (by cases k <;> exact hs)
      exact ⟨_, rfl, fun _ hn => hn, hgo _ (.inl (k.stage_asks _ _)) (.inr rfl)⟩
    | body =>
      cases k with
      | release i =>
        simp only [tlNext] at hs
        split at hs
        · cases hs
        · cases hs
          exact ⟨_, rfl, fun _ hn => hn, hgo _ (.inl rfl) (.inr rfl)⟩
      | _ =>
        cases hs
        exact ⟨_, rfl, fun _ hn => hn, hgo _ (.inl rfl) (.inr rfl)⟩
    | unlock =>
      obtain ⟨hasks, hmax⟩ := k.after_asks
      obtain rfl : s.unlock .vmi t k.after = s' := Option.some.inj (by cases k <;> exact hs)
      exact ⟨_, rfl, fun _ hn => hn, hgo _ (.inl hasks) (.inr hmax)⟩
  | register ha =>
    cases hs
    refine ⟨.idle, rfl, fun n hn => ?_, .out rfl rfl⟩
    show Function.update s.agents ha.vmName (some ha) n ≠ none
    by_cases he : n = ha.vmName
    · rw [he, Function.update_self]
      exact Option.some_ne_none ha
    · rw [Function.update_of_ne he]
      exact hn
  | connect _ | mount _ | sleep _ _ | unmount _ _ | disconnect _ _ | reassign _ _ | leave _ _ =>
    cases hs
    exact ⟨_, rfl, fun _ hn => hn, hgo _ (.inl rfl) (.inl rfl)⟩
  | name r =>
    cases hs
    exact ⟨_, rfl, fun _ hn => hn, h.named, fun m hm => by cases hm; decide⟩
  | lookup r =>
    simp only [tlNext] at hs
    split at hs
    · split at hs
      · cases hs
        exact ⟨_, rfl, fun _ hn => hn, hgo _ (.inl rfl) (.inr rfl)⟩
      · cases hs
    · cases hs
      exact ⟨_, rfl, fun _ hn => hn, hgo _ (.inl rfl) (.inr rfl)⟩
  | claiming r i =>
    simp only [tlNext] at hs
    split at hs
    · cases hs
      exact ⟨_, rfl, fun _ hn => hn, hgo _ (.inl rfl) (.inr rfl)⟩
    · cases hs
      obtain ⟨hasks, hmax⟩ := TlPc.afterTaken_asks r i
      exact ⟨_, rfl, fun _ hn => hn, hgo _ (.inl hasks) (.inr hmax)⟩
  | stamp j =>
    obtain ⟨r, i, steal⟩ := j
    cases steal <;> cases hs <;> exact ⟨_, rfl, fun _ hn => hn, hgo _ (.inl rfl) (.inr rfl)⟩
  | search r m st =>
    cases st with
    | lock =>
      obtain ⟨-, rfl⟩ := TlState.lock_some (p := .search r m .body) hs
      exact ⟨_, rfl, fun _ hn => hn, hgo _ (.inl rfl) (.inl rfl)⟩
    | body =>
      simp only [tlNext] at hs
      split at hs
      · rename_i hshort
        cases hs
        refine ⟨_, rfl, fun _ hn => hn, h.named, fun m hm => ?_⟩
        cases hm
        exact hshort
      · cases hs
        exact ⟨_, rfl, fun _ hn => hn, hgo _ (.inl rfl) (.inr rfl)⟩
    | unlock =>
      cases hs
      exact ⟨_, rfl, fun _ hn => hn, hgo _ (.inl rfl) (.inl rfl)⟩
  | setDev n i =>
    obtain ⟨ha, -, rfl⟩ := Option.map_eq_some_iff.1 hs
    refine ⟨.idle, rfl, fun k hk => ?_, .out rfl rfl⟩
    show Function.update s.agents n (some { ha with mountdev := i.val }) k ≠ none
    by_cases he : k = n
    · rw [he, Function.update_self]
      exact Option.some_ne_none _
    · rw [Function.update_of_ne he]
      exact hk
  | drop dev =>
    simp only [tlNext] at hs
    split at hs
    · split at hs
      · cases hs
        exact ⟨_, rfl, fun _ hn => hn, hgo _ (.inr rfl) (.inr rfl)⟩
      · cases hs
    · cases hs
  | print st =>
    cases st with
    | lock =>
      obtain ⟨-, rfl⟩ := TlState.lock_some (p := .print (.test 0)) hs
      exact ⟨_, rfl, fun _ hn => hn, hgo _ (.inr rfl) (.inr rfl)⟩
    | test i =>
      simp only [tlNext] at hs
      split at hs
      · obtain ⟨-, rfl⟩ := TlState.lock_some hs
        exact ⟨_, rfl, fun _ hn => hn, hgo _ (.inr rfl) (.inr rfl)⟩
      · cases hs
        exact ⟨_, rfl, fun _ hn => hn, hgo _ (.inr rfl) (.inr rfl)⟩
    | tested _ | name _ | unlock =>
      cases hs
      exact ⟨_, rfl, fun _ hn => hn, hgo _ (.inr rfl) (.inr rfl)⟩

/-- **Every thread of a run is on its way**, with an agent that is registered. -/
theorem tlStep_onTheWay {l : TlLabel T} (h : ∀ u, OnTheWay s.agents (s.pc u)) (hs : tlStep s l = some s') :
    ∀ u, OnTheWay s'.agents (s'.pc u) := by
  have hmove : ∃ t p, s'.pc = Function.update s.pc t p ∧ (∀ n, s.agents n ≠ none → s'.agents n ≠ none) ∧
      OnTheWay s'.agents p := by
    cases l with
    | step t now =>
      obtain ⟨p, hp⟩ := tlNext_onTheWay (h t) hs
      exact ⟨t, p, hp⟩
    | call t c =>
      simp only [tlStep] at hs
      split at hs
      · cases c with
        | addAgent _ _ _ _ | printStatus | vmiSection =>
          cases hs
          exact ⟨t, _, rfl, fun _ hn => hn, .out rfl rfl⟩
        | unmountDisk n =>
          obtain ⟨ha, -, rfl⟩ := Option.map_eq_some_iff.1 hs
          exact ⟨t, _, rfl, fun _ hn => hn, .out rfl rfl⟩
        | mountDisk n =>
          obtain ⟨ha, hn, rfl⟩ := Option.map_eq_some_iff.1 hs
          refine ⟨t, _, rfl, fun _ hn => hn, ⟨fun k hk => ?_, fun _ hm => by cases hm⟩⟩
          cases hk
          show s.agents n ≠ none
          rw [hn]
          exact Option.some_ne_none ha
      · cases hs
  obtain ⟨t, p, hpc, hagents, hp⟩ := hmove
  intro u
  rw [hpc]
  by_cases hut : u = t
  · rw [hut, Function.update_self]
    exact hp
  · rw [Function.update_of_ne hut]
    exact (h u).mono hagents

/-- What holds of every state of a run. -/
structure UnderWay (s : TlState T) : Prop where
  consistent : Consistent program s.holder s.pc
  onTheWay : ∀ u, OnTheWay s.agents (s.pc u)

theorem UnderWay.step {l : TlLabel T} (h : UnderWay s) (hs : tlStep s l = some s') : UnderWay s' := by
  refine ⟨?_, tlStep_onTheWay h.onTheWay hs⟩
  obtain ⟨t, p, hpc, hmove⟩ := tlStep_moves hs
  rw [hpc]
  exact h.consistent.move hmove

theorem underWay_run {clock : Slot → Timeval} {ls : List (TlLabel T)}
    (hrun : Run (stepOf tlStep) (TlState.init clock) ls s) : UnderWay s := by
  refine ⟨consistent_run hrun, ?_⟩
  refine hrun.invariant (P := fun _ s => ∀ u, OnTheWay s.agents (s.pc u))
    (fun u => .out rfl rfl) ?_
  exact fun _ _ _ _ _ h hs => tlStep_onTheWay h hs

/-! ## Which mutexes are free -/

omit [DecidableEq T] in
/-- What a thread holds is free to it. -/
theorem UnderWay.freeTo_held (h : UnderWay s) {m : Mutex} (hm : program.holds (s.pc t) m = true) : s.FreeTo t m := by
  intro u hu
  exact Option.some.inj (hu.symm.trans (h.consistent.held t m hm))

omit [DecidableEq T] in
theorem freeTo_of_none {m : Mutex} (h : s.holder m = none) : s.FreeTo t m := by
  intro u hu
  rw [h] at hu
  cases hu

omit [DecidableEq T] in
theorem freeTo_of_update {m n : Mutex} (o : Option T) (hne : m ≠ n)
    (h : ∀ u, Function.update s.holder n o m = some u → u = t) : s.FreeTo t m :=
  fun u hu => h u ((Function.update_of_ne hne o s.holder).trans hu)

omit [DecidableEq T] in
/-- A mutex that is free to a thread without it is free. -/
theorem TlState.FreeTo.none {m : Mutex} (h : s.FreeTo t m) (hway : UnderWay s) (hm : m.awaited = true)
    (hnot : program.holds (s.pc t) m = false) : s.holder m = none := by
  cases hholder : s.holder m with
  | none => rfl
  | some u =>
    obtain rfl := h u hholder
    rw [hway.consistent.shown u m hm hholder] at hnot
    cases hnot

/-! ## A thread with a way out returns -/

variable {k : VmiSection} {st : Stage} {j : MountJob} {r : MountReq} {n : String} {i : Slot} {m : Int × Slot}

theorem tlGoto_pc (s : TlState T) (t : T) (p : TlPc) : (s.goto t p).pc t = p := Function.update_self _ _ _

omit [DecidableEq T] in
/-- Where one mutex changes hands another stays free. -/
theorem free_of_ne {holder : Mutex → Option T} {m n : Mutex} (o : Option T) (hne : m ≠ n)
    (hfree : holder m = none) : Function.update holder n o m = none :=
  (Function.update_of_ne hne o holder).trans hfree

theorem ReturnsAlone.of_idle (hpc : s.pc t = .idle) : ReturnsAlone s t := ⟨[], s, .nil, hpc⟩

/-- The thread takes its next step, and returns from where it is then. -/
theorem ReturnsAlone.of_next (now : Timeval) (hpc : s.pc t = p) (hs : tlNext s t now p = some s')
    (h : ReturnsAlone s' t) : ReturnsAlone s t := by
  obtain ⟨clock, s'', hrun, hidle⟩ := h
  have hstep : tlStep s (.step t now) = some s' := by
    change tlNext s t now (s.pc t) = some s'
    rw [hpc]
    exact hs
  have hone : Run (stepOf fun s now => tlStep s (.step t now)) s ([] ++ [now]) s' := .snoc .nil hstep
  exact ⟨now :: clock, s'', run_append_iff.2 ⟨s', hone, hrun⟩, hidle⟩

/-- Through a section of the VMI lock, from where it is free or the thread has it. -/
theorem ReturnsAlone.through (hpc : s.pc t = .vmi k st) (hfree : st = .lock → s.holder .vmi = none)
    (howner : ∀ i, k = .release i → st ≠ .unlock → s.records.owner i ≠ none)
    (hafter : ∀ u : TlState T, u.pc t = k.after → u.agents = s.agents → u.records = s.records →
      u.holder .vmi = none → ReturnsAlone u t) : ReturnsAlone s t := by
  have hunlock : ∀ u : TlState T, u.pc t = .vmi k .unlock → u.agents = s.agents → u.records = s.records →
      ReturnsAlone u t := by
    intro u hu ha hr
    have hnone : Function.update u.holder .vmi none .vmi = none := Function.update_self _ _ _
    have hback : ReturnsAlone (u.unlock .vmi t k.after) t := hafter _ (tlGoto_pc _ _ _) ha hr hnone
    exact .of_next ⟨0, 0⟩ hu (by cases k <;> rfl) hback
  have hbody : st ≠ .unlock → ∀ u : TlState T, u.pc t = .vmi k .body → u.agents = s.agents →
      u.records = s.records → ReturnsAlone u t := by
    intro hst u hu ha hr
    refine .of_next ⟨0, 0⟩ hu ?_ (hunlock (u.goto t (.vmi k .unlock)) (tlGoto_pc _ _ _) ha hr)
    cases k with
    | release i =>
      obtain ⟨v, hv⟩ := Option.ne_none_iff_exists'.1 (howner i rfl hst)
      simp only [tlNext, hr, hv]
    | _ => rfl
  cases st with
  | unlock => exact hunlock s hpc rfl rfl
  | body => exact hbody (fun e => by cases e) s hpc rfl rfl
  | lock =>
    refine .of_next ⟨0, 0⟩ hpc ?_ (hbody (fun e => by cases e) ({ s with
      holder := Function.update s.holder .vmi (some t) }.goto t (.vmi k .body)) (tlGoto_pc _ _ _) rfl rfl)
    have hlock : s.lock .vmi t (.vmi k .body) =
        some ({ s with holder := Function.update s.holder .vmi (some t) }.goto t (.vmi k .body)) := if_pos (hfree rfl)
    cases k <;> exact hlock

theorem ReturnsAlone.setDev (hpc : s.pc t = .setDev n i) (hn : s.agents n ≠ none) : ReturnsAlone s t := by
  obtain ⟨ha, hn⟩ := Option.ne_none_iff_exists'.1 hn
  refine .of_next ⟨0, 0⟩ hpc (congrArg (Option.map _) hn) (.of_idle (tlGoto_pc _ _ _))

theorem ReturnsAlone.leave (hpc : s.pc t = .leave r i) (hn : s.agents r.name ≠ none) : ReturnsAlone s t :=
  .of_next ⟨0, 0⟩ hpc rfl (.setDev (tlGoto_pc _ _ _) hn)

theorem ReturnsAlone.stamp (hpc : s.pc t = .stamp j) (hn : s.agents j.req.name ≠ none) : ReturnsAlone s t := by
  refine .of_next ⟨0, 0⟩ hpc rfl ?_
  split
  · exact .leave (tlGoto_pc _ _ _) hn
  · exact .setDev (tlGoto_pc _ _ _) hn

theorem ReturnsAlone.mount (hpc : s.pc t = .mount j) (hn : s.agents j.req.name ≠ none) : ReturnsAlone s t :=
  .of_next ⟨0, 0⟩ hpc rfl (.stamp (tlGoto_pc _ _ _) hn)

theorem ReturnsAlone.pause (hpc : s.pc t = .vmi (.pause j) st) (hfree : st = .lock → s.holder .vmi = none)
    (hn : s.agents j.req.name ≠ none) : ReturnsAlone s t :=
  .through hpc hfree nofun fun u hu ha _ _ => .mount hu (by rw [ha]; exact hn)

theorem ReturnsAlone.connect (hpc : s.pc t = .connect j) (hfree : s.holder .vmi = none)
    (hn : s.agents j.req.name ≠ none) : ReturnsAlone s t :=
  .of_next ⟨0, 0⟩ hpc rfl (.pause (tlGoto_pc _ _ _) (fun _ => hfree) hn)

theorem ReturnsAlone.flush (hpc : s.pc t = .vmi (.flush j) st) (hfree : st = .lock → s.holder .vmi = none)
    (hn : s.agents j.req.name ≠ none) : ReturnsAlone s t :=
  .through hpc hfree nofun fun u hu ha _ hv => .connect hu hv (by rw [ha]; exact hn)

theorem ReturnsAlone.reassign (hpc : s.pc t = .reassign r i) (hfree : s.holder .vmi = none)
    (hn : s.agents r.name ≠ none) : ReturnsAlone s t :=
  .of_next ⟨0, 0⟩ hpc rfl (.flush (tlGoto_pc _ _ _) (fun _ => hfree) hn)

theorem ReturnsAlone.disconnect (hpc : s.pc t = .disconnect r i) (hfree : s.holder .vmi = none)
    (hn : s.agents r.name ≠ none) : ReturnsAlone s t :=
  .of_next ⟨0, 0⟩ hpc rfl (.reassign (tlGoto_pc _ _ _) hfree hn)

theorem ReturnsAlone.resume (hpc : s.pc t = .vmi (.resume r i) st) (hfree : st = .lock → s.holder .vmi = none)
    (hn : s.agents r.name ≠ none) : ReturnsAlone s t :=
  .through hpc hfree nofun fun u hu ha _ hv => .disconnect hu hv (by rw [ha]; exact hn)

theorem ReturnsAlone.unmount (hpc : s.pc t = .unmount r i) (hfree : s.holder .vmi = none)
    (hn : s.agents r.name ≠ none) : ReturnsAlone s t :=
  .of_next ⟨0, 0⟩ hpc rfl (.resume (tlGoto_pc _ _ _) (fun _ => hfree) hn)

/-- A slot out of use is ripe at a reading that is late enough. -/
theorem exists_ripe {rs : Records} (h0 : rs.refcount i = 0) : ∃ now, rs.Ripe now := by
  refine ⟨⟨(rs i).lastUsed.sec + 10, (rs i).lastUsed.usec⟩, i, h0, ?_⟩
  unfold Records.idle timevalDiff
  dsimp only
  rw [Int.sub_self, Int.zero_tdiv]
  omega

theorem ReturnsAlone.searchBody (hpc : s.pc t = .search r m .body) (hm : m.1 < 10000)
    (h0 : s.records.refcount i = 0) (hfree : s.holder .vmi = none) (hn : s.agents r.name ≠ none) :
    ReturnsAlone s t := by
  obtain ⟨now, hripe⟩ := exists_ripe h0
  have hlong := (Records.victimPass_long_iff hm).2 hripe
  exact .of_next now hpc (if_neg hlong) (.unmount (tlGoto_pc _ _ _) hfree hn)

theorem ReturnsAlone.searchLock (hpc : s.pc t = .search r m .lock) (hm : m.1 < 10000)
    (h0 : s.records.refcount i = 0) (hfree : s.holder .vmi = none) (hlk : s.holder .lk = none)
    (hn : s.agents r.name ≠ none) : ReturnsAlone s t := by
  have hfree' := free_of_ne (n := .lk) (some t) (by decide) hfree
  exact .of_next ⟨0, 0⟩ hpc (if_pos hlk) (.searchBody (tlGoto_pc _ _ _) hm h0 hfree' hn)

theorem ReturnsAlone.sleep (hpc : s.pc t = .sleep r m) (hm : m.1 < 10000) (h0 : s.records.refcount i = 0)
    (hfree : s.holder .vmi = none) (hlk : s.holder .lk = none) (hn : s.agents r.name ≠ none) : ReturnsAlone s t :=
  .of_next ⟨0, 0⟩ hpc rfl (.searchLock (tlGoto_pc _ _ _) hm h0 hfree hlk hn)

theorem ReturnsAlone.searchUnlock (hpc : s.pc t = .search r m .unlock) (hm : m.1 < 10000)
    (h0 : s.records.refcount i = 0) (hfree : s.holder .vmi = none) (hn : s.agents r.name ≠ none) :
    ReturnsAlone s t := by
  have hlk : Function.update s.holder .lk none .lk = none := Function.update_self _ _ _
  have hfree' := free_of_ne (n := .lk) none (by decide) hfree
  have hback : ReturnsAlone (s.unlock .lk t (.sleep r m)) t := .sleep (tlGoto_pc _ _ _) hm h0 hfree' hlk hn
  exact .of_next ⟨0, 0⟩ hpc rfl hback

theorem ReturnsAlone.name (hpc : s.pc t = .name r) (h0 : s.records.refcount i = 0) (hfree : s.holder .vmi = none)
    (hlk : s.holder .lk = none) (hn : s.agents r.name ≠ none) : ReturnsAlone s t :=
  .of_next ⟨0, 0⟩ hpc rfl (.searchLock (tlGoto_pc _ _ _) (by decide) h0 hfree hlk hn)

theorem ReturnsAlone.claim (hpc : s.pc t = .claiming r i) (hslot : s.holder (.slot i) = none)
    (hfree : s.holder .vmi = none) (hn : s.agents r.name ≠ none) : ReturnsAlone s t := by
  have hfree' := free_of_ne (n := .slot i) (some t) (fun e => by cases e) hfree
  exact .of_next ⟨0, 0⟩ hpc (if_pos hslot) (.flush (tlGoto_pc _ _ _) (fun _ => hfree') hn)

/-- **A thread at a slot** takes it or goes on to the next one, and from the last to the search. -/
theorem ReturnsAlone.claiming (left : Nat) (hleft : i.val + left + 1 = DEVMAX) (hpc : s.pc t = .claiming r i)
    (hroom : (∃ j, i ≤ j ∧ s.holder (.slot j) = none) ∨ s.holder .lk = none ∧ ∃ j, s.records.refcount j = 0)
    (hfree : s.holder .vmi = none) (hn : s.agents r.name ≠ none) : ReturnsAlone s t := by
  induction left generalizing s i with
  | zero =>
    by_cases hslot : s.holder (.slot i) = none
    · exact .claim hpc hslot hfree hn
    · have hlast : TlPc.afterTaken r i = .name r := dif_neg (by omega)
      refine .of_next ⟨0, 0⟩ hpc (if_neg hslot) ?_
      rw [hlast]
      rcases hroom with ⟨j, hij, hj⟩ | ⟨hlk, j, h0⟩
      · have hj' : j.val < DEVMAX := j.isLt
        have hij' : i.val ≤ j.val := hij
        obtain rfl : i = j := Fin.ext (by omega)
        exact absurd hj hslot
      · exact .name (tlGoto_pc _ _ _) h0 hfree hlk hn
  | succ left ih =>
    by_cases hslot : s.holder (.slot i) = none
    · exact .claim hpc hslot hfree hn
    · have hlt : i.val + 1 < DEVMAX := by omega
      have hlater : TlPc.afterTaken r i = .claiming r ⟨i.val + 1, hlt⟩ := dif_pos hlt
      refine .of_next ⟨0, 0⟩ hpc (if_neg hslot) ?_
      rw [hlater]
      refine ih (i := ⟨i.val + 1, hlt⟩) (by simp only; omega) (tlGoto_pc _ _ _) ?_ hfree hn
      rcases hroom with ⟨j, hij, hj⟩ | hlk
      · refine .inl ⟨j, ?_, hj⟩
        have hne : i ≠ j := fun e => hslot (e ▸ hj)
        exact Nat.succ_le_of_lt (Fin.lt_def.1 (lt_of_le_of_ne hij hne))
      · exact .inr hlk

/-- **A thread that prints** comes to the last slot. -/
theorem ReturnsAlone.printName (left : Nat) (hleft : i.val + left + 1 = DEVMAX) (hpc : s.pc t = .print (.name i)) :
    ReturnsAlone s t := by
  induction left generalizing s i with
  | zero =>
    have hlast : StatusPc.after i = .unlock := dif_neg (by omega)
    refine .of_next ⟨0, 0⟩ hpc rfl ?_
    rw [hlast]
    exact .of_next ⟨0, 0⟩ (tlGoto_pc _ _ _) rfl (.of_idle (tlGoto_pc _ _ _))
  | succ left ih =>
    have hlt : i.val + 1 < DEVMAX := by omega
    have hlater : StatusPc.after i = .test ⟨i.val + 1, hlt⟩ := dif_pos hlt
    have hleft' : i.val + 1 + left + 1 = DEVMAX := by omega
    refine .of_next ⟨0, 0⟩ hpc rfl ?_
    rw [hlater]
    by_cases hslot : s.holder (.slot ⟨i.val + 1, hlt⟩) = none
    · refine .of_next ⟨0, 0⟩ (tlGoto_pc _ _ _) ((if_pos hslot).trans (if_pos hslot)) ?_
      exact .of_next ⟨0, 0⟩ (tlGoto_pc _ _ _) rfl (ih (i := ⟨i.val + 1, hlt⟩) hleft' (tlGoto_pc _ _ _))
    · refine .of_next ⟨0, 0⟩ (tlGoto_pc _ _ _) (if_neg hslot) ?_
      exact ih (i := ⟨i.val + 1, hlt⟩) hleft' (tlGoto_pc _ _ _)

theorem slots_left (i : Slot) : i.val + (15 - i.val) + 1 = DEVMAX := by
  have hlt : i.val < 16 := i.isLt
  change i.val + (15 - i.val) + 1 = 16
  omega

theorem ReturnsAlone.printTest (hpc : s.pc t = .print (.test i)) : ReturnsAlone s t := by
  by_cases hslot : s.holder (.slot i) = none
  · refine .of_next ⟨0, 0⟩ hpc ((if_pos hslot).trans (if_pos hslot)) ?_
    exact .of_next ⟨0, 0⟩ (tlGoto_pc _ _ _) rfl (.printName _ (slots_left i) (tlGoto_pc _ _ _))
  · exact .of_next ⟨0, 0⟩ hpc (if_neg hslot) (.printName _ (slots_left i) (tlGoto_pc _ _ _))

/-- **A thread with a way out** takes it. -/
theorem WayOut.returnsAlone (h : UnderWay s) (hway : WayOut s t (s.pc t)) : ReturnsAlone s t := by
  obtain ⟨hnamed, hshort⟩ := h.onTheWay t
  have hvmi : s.FreeTo t .vmi → (s.pc t).underVmi = false → s.holder .vmi = none := fun hf hu => hf.none h rfl hu
  have hlk : s.FreeTo t .lk → (s.pc t).underLk = false → s.holder .lk = none := fun hf hu => hf.none h rfl hu
  generalize hpc : s.pc t = p at hway hnamed hshort hvmi hlk
  cases p with
  | idle => exact .of_idle hpc
  | vmi k st =>
    have hfree : (st = .lock → s.FreeTo t .vmi) → st = .lock → s.holder .vmi = none := fun hf hst =>
      hvmi (hf hst) (by rw [hst]; rfl)
    cases k with
    | addAgent ha =>
      refine .through hpc (hfree fun hst => ?_) nofun fun u hu _ _ _ => ?_
      · rw [hst] at hway
        exact hway
      · exact .of_next ⟨0, 0⟩ hu rfl (.of_idle (tlGoto_pc _ _ _))
    | flush j => exact .flush hpc (hfree fun _ => hway) (hnamed _ rfl)
    | pause j =>
      refine .pause hpc (hfree fun hst => ?_) (hnamed _ rfl)
      rw [hst] at hway
      exact hway
    | resume r i => exact .resume hpc (hfree fun _ => hway) (hnamed _ rfl)
    | release i =>
      refine .through hpc (hfree fun hst => ?_) (fun j hj hst => ?_) fun u hu _ _ _ => .of_idle hu
      · rw [hst] at hway
        exact hway.1
      · cases hj
        cases st with
        | lock => exact hway.2
        | body => exact hway
        | unlock => exact absurd rfl hst
    | user =>
      refine .through hpc (hfree fun hst => ?_) nofun fun u hu _ _ _ => .of_idle hu
      rw [hst] at hway
      exact hway
  | register ha => exact .of_next ⟨0, 0⟩ hpc rfl (.of_idle (tlGoto_pc _ _ _))
  | lookup r =>
    have hn := hnamed _ rfl
    cases hl : s.records.lookup r.vmi with
    | some i =>
      simp only [WayOut, hl] at hway
      have hnext : tlNext s t ⟨0, 0⟩ (.lookup r) =
          some ({ s with records := s.records.remount i ⟨0, 0⟩ }.goto t (.setDev r.name i)) := by
        simp only [tlNext, hl, if_pos hway]
      exact .of_next ⟨0, 0⟩ hpc hnext (.setDev (tlGoto_pc _ _ _) hn)
    | none =>
      simp only [WayOut, hl] at hway
      obtain ⟨hf, hroom⟩ := hway
      have hnext : tlNext s t ⟨0, 0⟩ (.lookup r) = some (s.goto t (.claiming r 0)) := by
        simp only [tlNext, hl]
      refine .of_next ⟨0, 0⟩ hpc hnext (.claiming 15 rfl (tlGoto_pc _ _ _) ?_ (hvmi hf rfl) hn)
      exact hroom.imp_right fun hsearch => ⟨hlk hsearch.1 rfl, hsearch.2⟩
  | claiming r i =>
    obtain ⟨hf, hroom⟩ := hway
    refine .claiming _ (slots_left i) hpc ?_ (hvmi hf rfl) (hnamed _ rfl)
    exact hroom.imp_right fun hsearch => ⟨hlk hsearch.1 rfl, hsearch.2⟩
  | connect j => exact .connect hpc (hvmi hway rfl) (hnamed _ rfl)
  | mount j => exact .mount hpc (hnamed _ rfl)
  | stamp j => exact .stamp hpc (hnamed _ rfl)
  | name r =>
    obtain ⟨hf, hfk, i, h0⟩ := hway
    exact .name hpc h0 (hvmi hf rfl) (hlk hfk rfl) (hnamed _ rfl)
  | search r m st =>
    obtain ⟨hf, hfk, i, h0⟩ := hway
    cases st with
    | lock => exact .searchLock hpc (hshort _ rfl) h0 (hvmi hf rfl) (hlk hfk rfl) (hnamed _ rfl)
    | body => exact .searchBody hpc (hshort _ rfl) h0 (hvmi hf rfl) (hnamed _ rfl)
    | unlock => exact .searchUnlock hpc (hshort _ rfl) h0 (hvmi hf rfl) (hnamed _ rfl)
  | sleep r m =>
    obtain ⟨hf, hfk, i, h0⟩ := hway
    exact .sleep hpc (hshort _ rfl) h0 (hvmi hf rfl) (hlk hfk rfl) (hnamed _ rfl)
  | unmount r i => exact .unmount hpc (hvmi hway rfl) (hnamed _ rfl)
  | disconnect r i => exact .disconnect hpc (hvmi hway rfl) (hnamed _ rfl)
  | reassign r i => exact .reassign hpc (hvmi hway rfl) (hnamed _ rfl)
  | leave r i => exact .leave hpc (hnamed _ rfl)
  | setDev n i => exact .setDev hpc (hnamed _ rfl)
  | drop dev =>
    obtain ⟨hf, i, rfl, hcan, howner⟩ := hway
    have hnext : tlNext s t ⟨0, 0⟩ (.drop (i.val : Int)) =
        some ({ s with records := s.records.release i }.goto t (.vmi (.release i) .lock)) := by
      simp only [tlNext, Int.toNat_natCast, i.isLt, dite_true, Fin.eta, Int.natCast_nonneg, hcan, and_self, if_true]
    refine .of_next ⟨0, 0⟩ hpc hnext (.through (tlGoto_pc _ _ _) (fun _ => hvmi hf rfl) (fun j hj _ => ?_)
      fun u hu _ _ _ => .of_idle hu)
    cases hj
    show (s.records.release i).owner i ≠ none
    rw [Records.owner_release]
    exact howner
  | print p =>
    cases p with
    | lock => exact .of_next ⟨0, 0⟩ hpc (if_pos (hvmi hway rfl)) (.printTest (tlGoto_pc _ _ _))
    | test i => exact .printTest hpc
    | tested i => exact .of_next ⟨0, 0⟩ hpc rfl (.printName _ (slots_left i) (tlGoto_pc _ _ _))
    | name i => exact .printName _ (slots_left i) hpc
    | unlock => exact .of_next ⟨0, 0⟩ hpc rfl (.of_idle (tlGoto_pc _ _ _))

/-! ## A step finds no way out -/

/-- **A step of the thread finds no way out** that was not there before. -/
theorem WayOut.of_step {now : Timeval} (h : UnderWay s) (hs : tlStep s (.step t now) = some s')
    (hway : WayOut s' t (s'.pc t)) : WayOut s t (s.pc t) := by
  have hvmi : (s.pc t).underVmi = true → s.FreeTo t .vmi := fun hu => h.freeTo_held hu
  have hlk : (s.pc t).underLk = true → s.FreeTo t .lk := fun hu => h.freeTo_held hu
  have hshort := (h.onTheWay t).short
  change tlNext s t now (s.pc t) = some s' at hs
  generalize hpc : s.pc t = p at hs hvmi hlk hshort
  cases p with
  | idle | register _ | mount _ | stamp _ | leave _ _ | setDev _ _ => trivial
  | vmi k st =>
    cases st with
    | lock =>
      obtain ⟨hnone, rfl⟩ := TlState.lock_some (p := .vmi k .body) (m := .vmi) (by cases k <;> exact hs)
      rw [tlGoto_pc] at hway
      cases k with
      | release i => exact ⟨freeTo_of_none hnone, hway⟩
      | _ => exact freeTo_of_none hnone
    | body =>
      cases k with
      | flush _ | resume _ _ => exact hvmi rfl
      | release i =>
        simp only [tlNext] at hs
        split at hs
        · cases hs
        · rename_i v hv
          show s.records.owner i ≠ none
          rw [hv]
          exact Option.some_ne_none v
      | addAgent _ | pause _ | user => trivial
    | unlock =>
      cases k with
      | flush _ | resume _ _ => exact hvmi rfl
      | addAgent _ | pause _ | release _ | user => trivial
  | lookup r =>
    cases hl : s.records.lookup r.vmi with
    | some i =>
      simp only [tlNext, hl] at hs
      split at hs
      · rename_i hcan
        simpa only [WayOut, hl] using hcan
      · cases hs
    | none =>
      simp only [tlNext, hl] at hs
      cases hs
      rw [tlGoto_pc] at hway
      simp only [WayOut, hl]
      exact hway
  | claiming r i =>
    simp only [tlNext] at hs
    split at hs
    · rename_i hslot
      cases hs
      rw [tlGoto_pc] at hway
      exact ⟨freeTo_of_update (some t) (n := .slot i) (fun e => by cases e) hway, .inl ⟨i, le_rfl, hslot⟩⟩
    · cases hs
      rw [tlGoto_pc] at hway
      unfold TlPc.afterTaken at hway
      split at hway
      · obtain ⟨hf, hroom⟩ := hway
        refine ⟨hf, hroom.imp_left ?_⟩
        rintro ⟨j, hij, hj⟩
        exact ⟨j, Nat.le_of_succ_le hij, hj⟩
      · obtain ⟨hf, hsearch⟩ := hway
        exact ⟨hf, .inr hsearch⟩
  | connect _ | name _ | sleep _ _ | unmount _ _ | disconnect _ _ | reassign _ _ =>
    cases hs
    rw [tlGoto_pc] at hway
    exact hway
  | search r m st =>
    cases st with
    | lock =>
      obtain ⟨hnone, rfl⟩ := TlState.lock_some (p := .search r m .body) hs
      rw [tlGoto_pc] at hway
      obtain ⟨hf, -, h0⟩ := hway
      exact ⟨freeTo_of_update (some t) (n := .lk) (by decide) hf, freeTo_of_none hnone, h0⟩
    | body =>
      simp only [tlNext] at hs
      split at hs
      · cases hs
        rw [tlGoto_pc] at hway
        obtain ⟨hf, -, h0⟩ := hway
        exact ⟨hf, hlk rfl, h0⟩
      · rename_i hlong
        cases hs
        rw [tlGoto_pc] at hway
        exact ⟨hway, hlk rfl, _, Records.victimPass_long (hshort _ rfl) hlong⟩
    | unlock =>
      cases hs
      rw [TlState.unlock, tlGoto_pc] at hway
      obtain ⟨hf, -, h0⟩ := hway
      exact ⟨freeTo_of_update none (n := .lk) (by decide) hf, hlk rfl, h0⟩
  | drop dev =>
    simp only [tlNext] at hs
    split at hs
    · rename_i hdev
      split at hs
      · rename_i hcan
        cases hs
        rw [tlGoto_pc] at hway
        obtain ⟨hf, howner⟩ := hway
        change (s.records.release ⟨dev.toNat, hdev⟩).owner ⟨dev.toNat, hdev⟩ ≠ none at howner
        rw [Records.owner_release] at howner
        exact ⟨hf, ⟨dev.toNat, hdev⟩, (Int.toNat_of_nonneg hcan.1).symm, hcan.2, howner⟩
      · cases hs
    · cases hs
  | print p =>
    cases p with
    | lock =>
      obtain ⟨hnone, -⟩ := TlState.lock_some (p := .print (.test 0)) hs
      exact freeTo_of_none hnone
    | test _ | tested _ | name _ | unlock => trivial

theorem ReturnsAlone.wayOut (h : UnderWay s) (hret : ReturnsAlone s t) : WayOut s t (s.pc t) := by
  obtain ⟨clock, s', hrun, hidle⟩ := hret
  have hback : UnderWay s' ∧ (WayOut s' t (s'.pc t) → WayOut s t (s.pc t)) := by
    refine Run.invariant (P := fun _ s' => UnderWay s' ∧ (WayOut s' t (s'.pc t) → WayOut s t (s.pc t))) ⟨h, id⟩ ?_
      hrun
    rintro _ s₁ now s₂ - ⟨h₁, hback⟩ hs
    exact ⟨h₁.step hs, fun hway => hback (hway.of_step h₁ hs)⟩
  apply hback.2
  rw [hidle]
  trivial

omit [DecidableEq T] in
/-- Where a thread that holds the VMI lock has no way out. -/
theorem UnderWay.wayOut_of_vmi (h : UnderWay s) (ht : s.holder .vmi = some t) :
    WayOut s t (s.pc t) ∨ ∃ i, s.pc t = .vmi (.release i) .body ∧ s.records.owner i = none := by
  have hunder : (s.pc t).underVmi = true := h.consistent.shown t .vmi rfl ht
  have hfree : s.FreeTo t .vmi := h.freeTo_held hunder
  generalize s.pc t = p at hunder
  cases p with
  | vmi k st =>
    cases st with
    | lock => cases hunder
    | body =>
      cases k with
      | release i =>
        by_cases howner : s.records.owner i = none
        · exact .inr ⟨i, rfl, howner⟩
        · exact .inl howner
      | flush _ | resume _ _ => exact .inl hfree
      | addAgent _ | pause _ | user => exact .inl trivial
    | unlock =>
      cases k with
      | flush _ | resume _ _ => exact .inl hfree
      | addAgent _ | pause _ | release _ | user => exact .inl trivial
  | print p =>
    cases p with
    | lock => cases hunder
    | test _ | tested _ | name _ | unlock => exact .inl trivial
  | _ => cases hunder

end

/-- **When a call returns**, if its thread goes on alone from any state that any steps of any threads lead to; and the
thread that holds the VMI lock returns, but from a record that never had a VM. -/
theorem returns_alone_iff (clock : Slot → Timeval) (ls : List (TlLabel T)) (s : TlState T)
    (hrun : Run (stepOf tlStep) (TlState.init clock) ls s) :
    (∀ t, ReturnsAlone s t ↔ WayOut s t (s.pc t)) ∧ ∀ t, s.holder .vmi = some t → ReturnsAlone s t ∨
      ∃ i, s.pc t = .vmi (.release i) .body ∧ s.records.owner i = none := by
  have h := underWay_run hrun
  refine ⟨fun t => ⟨fun hret => hret.wayOut h, fun hway => hway.returnsAlone h⟩, fun t ht => ?_⟩
  exact (h.wayOut_of_vmi ht).imp_left fun hway => hway.returnsAlone h

/-- Thread 0 has its slot and has to wait for the VMI lock, which thread 1 holds. -/
theorem returns_alone_iff_three : ∃ s, Run (stepOf tlStep) (TlState.init fun _ => ⟨0, 0⟩) threeThreads s ∧
    ¬ ReturnsAlone s 0 ∧ ReturnsAlone s 1 := by
  obtain ⟨s, hs, hfound⟩ := Option.map_eq_some_iff.1 (show (exec tlStep (TlState.init fun _ => ⟨0, 0⟩)
    threeThreads).map (fun s => (s.pc 0, s.pc 1, s.holder .vmi)) =
      some (.vmi (.flush ⟨⟨"a", 1, "d"⟩, 0, false⟩) .lock, .vmi .user .body, some 1) by decide)
  simp only [Prod.mk.injEq] at hfound
  obtain ⟨hpc₀, hpc₁, hholder⟩ := hfound
  obtain ⟨hiff, -⟩ := returns_alone_iff _ threeThreads s (run_of_exec hs)
  refine ⟨s, run_of_exec hs, ?_, ?_⟩
  · rw [hiff, hpc₀]
    exact fun hway => absurd (hway 1 hholder) (by decide)
  · rw [hiff, hpc₁]
    trivial

end Hyperagents
