import Hyperagents.ArgsEnvs
import Mathlib.Data.List.Induction
import Mathlib.Data.List.TakeDrop
import Mathlib.Data.List.TakeWhile
/-!
# The environment block

A process's environment is a block of strings, each ended by a NUL; `get_args_and_envs` takes the block apart again
(`getArgsAndEnvs_env`): of the strings `key=value` the last one of each key counts, all others are passed over.

It does so where the capture got the block.  Where a call of the capture raises a `ValueError` the handler leaves `args`
or `env` empty, and the code after it raises an error of its own (`failed_capture_raises`).
-/
namespace Hyperagents

open Paging

def equals : UInt8 := '='.toUInt8

/-- The strings of an environment as the process has them in memory. -/
def envEncode (ss : List PyStr) : PyStr := ss.flatMap fun s => s ++ [0]

/-- The last of the strings `key=…` has this value. -/
def LastValue (ss : List PyStr) (key val : PyStr) : Prop :=
  ∃ before after, ss = before ++ (key ++ equals :: val) :: after ∧ ∀ w, key ++ equals :: w ∉ after

/-- `r` is what follows the last slash of `s`, all of `s` if there is none. -/
def AfterLastSlash (s r : PyStr) : Prop := '/'.toUInt8 ∉ r ∧ (s = r ∨ ∃ d, s = d ++ '/'.toUInt8 :: r)

/-- The field is what `R` makes of the key's last value, and empty if there is none. -/
structure FieldOf (R : PyStr → PyStr → Prop) (ss : List PyStr) (key field : PyStr) : Prop where
  value : ∀ val, LastValue ss key val → R val field
  empty : (∀ val, ¬ LastValue ss key val) → field = []

/-- The dictionary has what the strings say. -/
structure ParsesEnv (ss : List PyStr) (p : ArgsEnvs) : Prop where
  envList : ∀ key val, p.envList key = some val ↔ equals ∉ key ∧ LastValue ss key val
  user : FieldOf Eq ss (py "USER") p.user
  shell : FieldOf AfterLastSlash ss (py "SHELL") p.shell

variable {ss : List PyStr} {s key val k v : PyStr} {p : ArgsEnvs}

/-! ## Splitting -/

/-- **The block splits into its strings**, and an empty one behind the last NUL. -/
theorem splitOn_envEncode : ∀ ss : List PyStr, (∀ s ∈ ss, 0 ∉ s) → (envEncode ss).splitOn 0 = ss ++ [[]]
  | [], _ => rfl
  | s :: ss, h => by
    have henc : envEncode (s :: ss) = s ++ 0 :: envEncode ss := by simp [envEncode]
    rw [henc, List.splitOn_append_cons_self_of_not_mem (h s List.mem_cons_self),
      splitOn_envEncode ss fun t ht => h t (List.mem_cons_of_mem s ht)]
    rfl

theorem splitKey_append (hk : equals ∉ k) (v : PyStr) : splitKey (k ++ equals :: v) = some (k, v) := by
  have hall : ∀ b ∈ k, (b != equals) = true := fun b hb => bne_iff_ne.2 fun heq => hk (heq ▸ hb)
  have hspan : (k ++ equals :: v).span (· != equals) = (k, equals :: v) := by
    rw [List.span_eq_takeWhile_dropWhile, List.takeWhile_append_of_pos hall, List.dropWhile_append_of_pos hall]
    simp
  unfold splitKey
  unfold equals at hspan ⊢
  rw [hspan]

theorem splitKey_none (h : equals ∉ s) : splitKey s = none := by
  have hall : ∀ b ∈ s, (b != equals) = true := fun b hb => bne_iff_ne.2 fun heq => h (heq ▸ hb)
  have hspan : s.span (· != equals) = (s, []) := by
    rw [List.span_eq_takeWhile_dropWhile, List.takeWhile_eq_self_iff.2 hall, List.dropWhile_eq_nil_iff.2 hall]
  unfold splitKey
  unfold equals at hspan
  rw [hspan]

theorem key_unique (hk : equals ∉ k) (hkey : equals ∉ key) (h : k ++ equals :: v = key ++ equals :: val) :
    k = key ∧ v = val := by
  have hsplit := splitKey_append hk v
  rw [h, splitKey_append hkey val] at hsplit
  cases hsplit
  exact ⟨rfl, rfl⟩

theorem afterLastSlash_splitOn (s : PyStr) : AfterLastSlash s ((s.splitOn '/'.toUInt8).getLastD []) := by
  by_cases hslash : '/'.toUInt8 ∈ s
  · obtain ⟨r, d, hs, hr⟩ := List.eq_append_cons_of_mem (List.mem_reverse.2 hslash)
    have hr' : '/'.toUInt8 ∉ r.reverse := fun h => hr (List.mem_reverse.1 h)
    have hs' : s = d.reverse ++ '/'.toUInt8 :: r.reverse := by
      rw [← List.reverse_reverse s, hs]
      simp
    have hlast : (s.splitOn '/'.toUInt8).getLastD [] = r.reverse := by
      rw [hs', List.splitOn_append_cons_self, List.splitOn_eq_singleton hr', List.getLastD_concat]
    rw [hlast]
    exact ⟨hr', .inr ⟨_, hs'⟩⟩
  · have hlast : (s.splitOn '/'.toUInt8).getLastD [] = s := by
      rw [List.splitOn_eq_singleton hslash]
      rfl
    rw [hlast]
    exact ⟨hslash, .inl rfl⟩

/-! ## The last value of a key -/

theorem not_lastValue_nil : ¬ LastValue [] key val := by
  rintro ⟨before, after, h, -⟩
  simp at h

theorem lastValue_append_self : LastValue (ss ++ [key ++ equals :: v]) key val ↔ v = val := by
  constructor
  · rintro ⟨before, after, h, hafter⟩
    rcases List.eq_nil_or_concat after with rfl | ⟨after, s, rfl⟩
    · simpa using (List.append_inj' h rfl).2
    · rw [List.concat_eq_append, ← List.cons_append, ← List.append_assoc] at h
      obtain rfl : key ++ equals :: v = s := List.singleton_inj.1 (List.append_inj' h rfl).2
      refine absurd ?_ (hafter v)
      rw [List.concat_eq_append]
      exact List.mem_append_right after List.mem_cons_self
  · rintro rfl
    exact ⟨ss, [], rfl, fun w hw => by cases hw⟩

theorem lastValue_append_other (hs : ∀ w, s ≠ key ++ equals :: w) :
    LastValue (ss ++ [s]) key val ↔ LastValue ss key val := by
  constructor
  · rintro ⟨before, after, h, hafter⟩
    rcases List.eq_nil_or_concat after with rfl | ⟨after, t, rfl⟩
    · exact absurd (List.cons.inj (List.append_inj' h rfl).2).1 (hs val)
    · rw [List.concat_eq_append, ← List.cons_append, ← List.append_assoc] at h
      exact ⟨before, after, (List.append_inj' h rfl).1, fun w hw => hafter w (by simp [hw])⟩
  · rintro ⟨before, after, rfl, hafter⟩
    refine ⟨before, after ++ [s], by simp, fun w hw => ?_⟩
    rcases List.mem_append.1 hw with hw | hw
    · exact hafter w hw
    · exact hs w (List.mem_singleton.1 hw).symm


/-! ## The loop over the strings -/

theorem envItem_none (hs : equals ∉ s) : envItem true p s = p := by
  unfold envItem
  rw [splitKey_none hs]

theorem envItem_some (hk : equals ∉ k) : envItem true p (k ++ equals :: v) =
    { p with
      envList := Function.update p.envList k (some v)
      user := if k = py "USER" then v else p.user
      shell := if k = py "SHELL" then (v.splitOn '/'.toUInt8).getLastD [] else p.shell } := by
  unfold envItem
  rw [splitKey_append hk]
  by_cases huser : k = py "USER"
  · have hshell : k ≠ py "SHELL" := by
      rw [huser]
      decide
    simp only [if_true, if_pos huser, if_neg hshell]
  · simp only [if_true, if_neg huser]
    split <;> rfl

theorem fieldOf_nil {R : PyStr → PyStr → Prop} : FieldOf R [] key [] :=
  ⟨fun _ hl => absurd hl not_lastValue_nil, fun _ => rfl⟩

theorem FieldOf.skip {R : PyStr → PyStr → Prop} {field : PyStr} (h : FieldOf R ss key field)
    (hs : ∀ w, s ≠ key ++ equals :: w) : FieldOf R (ss ++ [s]) key field := by
  refine ⟨fun val hl => h.value val ((lastValue_append_other hs).1 hl), fun hnone => h.empty fun val hl => ?_⟩
  exact hnone val ((lastValue_append_other hs).2 hl)

theorem FieldOf.item {R : PyStr → PyStr → Prop} {field new : PyStr} (h : FieldOf R ss key field)
    (hkey : equals ∉ key) (hk : equals ∉ k) (hnew : R v new) :
    FieldOf R (ss ++ [k ++ equals :: v]) key (if k = key then new else field) := by
  by_cases heq : k = key
  · subst heq
    rw [if_pos rfl]
    refine ⟨fun val hl => ?_, fun hnone => absurd (lastValue_append_self.2 rfl) (hnone v)⟩
    rwa [← lastValue_append_self.1 hl]
  · rw [if_neg heq]
    exact h.skip fun w hw => heq (key_unique hk hkey hw).1

theorem parsesEnv_nil (h : p.envList = fun _ => none) (hu : p.user = []) (hs : p.shell = []) : ParsesEnv [] p := by
  refine ⟨fun key val => ?_, hu ▸ fieldOf_nil, hs ▸ fieldOf_nil⟩
  rw [h]
  exact iff_of_false (fun e => by cases e) fun hl => not_lastValue_nil hl.2

theorem ParsesEnv.skip (h : ParsesEnv ss p) (hs : equals ∉ s) : ParsesEnv (ss ++ [s]) (envItem true p s) := by
  have hother : ∀ key w, s ≠ key ++ equals :: w := by
    rintro key w rfl
    exact hs (List.mem_append_right key List.mem_cons_self)
  rw [envItem_none hs]
  refine ⟨fun key val => ?_, h.user.skip (hother _), h.shell.skip (hother _)⟩
  rw [lastValue_append_other (hother key)]
  exact h.envList key val

/-- **One more string `k=v`** gives its key the value `v` and leaves the others. -/
theorem ParsesEnv.item (h : ParsesEnv ss p) (hk : equals ∉ k) :
    ParsesEnv (ss ++ [k ++ equals :: v]) (envItem true p (k ++ equals :: v)) := by
  rw [envItem_some hk]
  refine ⟨fun key val => ?_, h.user.item (by decide) hk rfl,
    h.shell.item (by decide) hk (afterLastSlash_splitOn v)⟩
  dsimp only
  by_cases heq : k = key
  · subst heq
    rw [Function.update_self, lastValue_append_self]
    simp [hk]
  · rw [Function.update_of_ne (Ne.symm heq), h.envList key val]
    apply and_congr_right
    intro hkey
    exact (lastValue_append_other fun w hw => heq (key_unique hk hkey hw).1).symm

theorem ParsesEnv.step (h : ParsesEnv ss p) (s : PyStr) : ParsesEnv (ss ++ [s]) (envItem true p s) := by
  by_cases hs : equals ∈ s
  · obtain ⟨k, v, rfl, hk⟩ := List.eq_append_cons_of_mem hs
    exact h.item hk
  · exact h.skip hs

/-- **The loop** from strings taken apart already over the ones that follow. -/
theorem ParsesEnv.fold : ∀ (rest : List PyStr) {ss : List PyStr} {p : ArgsEnvs}, ParsesEnv ss p →
    ParsesEnv (ss ++ rest) (rest.foldl (envItem true) p)
  | [], ss, _, h => by rwa [List.append_nil]
  | s :: rest, ss, p, h => by
    rw [List.append_cons]
    exact ParsesEnv.fold rest (h.step s)

theorem foldl_envEncode (p : ArgsEnvs) (hss : ∀ s ∈ ss, 0 ∉ s) :
    ((envEncode ss).splitOn 0).foldl (envItem true) p = ss.foldl (envItem true) p := by
  rw [splitOn_envEncode ss hss, List.foldl_append]
  exact envItem_none List.not_mem_nil

theorem envItem_mm (full : Bool) (p : ArgsEnvs) (s : PyStr) : (envItem full p s).mm = p.mm := by
  unfold envItem
  cases splitKey s with
  | none => rfl
  | some kv => simp only [apply_ite ArgsEnvs.mm, ite_self]

theorem foldl_mm (full : Bool) : ∀ (items : List PyStr) (p : ArgsEnvs), (items.foldl (envItem full) p).mm = p.mm
  | [], _ => rfl
  | s :: items, p => (foldl_mm full items (envItem full p s)).trans (envItem_mm full p s)

/-! ## The function -/

variable {vmi : Pyvmi} {m : MmFields} {cfg : Cfg} {tsAddr : Int} {args env : Option PyStr}

/-- After the capture only what has been captured matters. -/
theorem getArgsAndEnvs_captured (full : Bool) (hmm : readMm vmi cfg tsAddr = .ok m)
    (hc : capture vmi m = .ok (args, env)) :
    getArgsAndEnvs vmi cfg tsAddr full = buildArgsEnvs full m args env := by
  unfold getArgsAndEnvs
  rw [hmm]
  change (capture vmi m >>= fun blocks => buildArgsEnvs full m blocks.1 blocks.2) = _
  rw [hc]
  rfl

/-- With the environment of these strings captured the function returns, and has what they say. -/
def ParsesCaptured (vmi : Pyvmi) (cfg : Cfg) (tsAddr : Int) (ss : List PyStr) : Prop :=
  ∃ p, getArgsAndEnvs vmi cfg tsAddr true = .ok p ∧ ParsesEnv ss p

/-- **The environment is taken apart into its strings.** -/
theorem getArgsAndEnvs_env (vmi : Pyvmi) (cfg : Cfg) (tsAddr : Int) (m : MmFields) (args : PyStr) (ss : List PyStr)
    (hmm : readMm vmi cfg tsAddr = .ok m) (hc : capture vmi m = .ok (some args, some (envEncode ss)))
    (hss : ∀ s ∈ ss, 0 ∉ s) : ParsesCaptured vmi cfg tsAddr ss := by
  refine ⟨_, (getArgsAndEnvs_captured true hmm hc).trans rfl, ?_⟩
  rw [foldl_envEncode _ hss]
  exact ParsesEnv.fold ss (parsesEnv_nil rfl rfl rfl)

/-- A process with one page, which starts with its environment. -/
def shellEnv : List PyStr :=
  [py "SHELL=/bin/sh", [], py "USER=root", py "no value", py "USER=a=b"]

def shellSpace : Space UInt8 where
  phys p := (envEncode shellEnv).getD p.toNat 0
  frame v := if v = 0 then some 0 else none

def shellGuest : Pyvmi := processGuest [(8, 4096), (4144, 43)] shellSpace

theorem getArgsAndEnvs_env_shell : ParsesCaptured shellGuest mmCfg 0 shellEnv :=
  getArgsAndEnvs_env shellGuest mmCfg 0 ⟨0, 0, 0, 0, 0, 0, 0, 43⟩ [] shellEnv (by decide) (by decide) (by decide)

/-! ## A capture that fails -/

/-- A call of the capture raises a `ValueError`, and the calls before it succeed. -/
inductive CaptureRaises (vmi : Pyvmi) (m : MmFields) : Prop
  | karg : vmi.translateUv2p m.argStart m.pid = .error .valueError → CaptureRaises vmi m
  | kenv {karg : Int} : vmi.translateUv2p m.argStart m.pid = .ok karg →
      vmi.translateUv2p m.envStart m.pid = .error .valueError → CaptureRaises vmi m
  | args {karg kenv : Int} : vmi.translateUv2p m.argStart m.pid = .ok karg →
      vmi.translateUv2p m.envStart m.pid = .ok kenv → vmi.readPa karg m.arglen = .error .valueError →
        CaptureRaises vmi m
  | env {karg kenv : Int} {args : PyStr} : vmi.translateUv2p m.argStart m.pid = .ok karg →
      vmi.translateUv2p m.envStart m.pid = .ok kenv → vmi.readPa karg m.arglen = .ok args →
        vmi.readPa kenv m.envlen = .error .valueError → CaptureRaises vmi m

/-- The function returns its dictionary, with the sizes and the addresses read. -/
def ReturnsFields (vmi : Pyvmi) (cfg : Cfg) (tsAddr : Int) (full : Bool) (m : MmFields) : Prop :=
  ∃ p, getArgsAndEnvs vmi cfg tsAddr full = .ok p ∧ p.mm = m

theorem CaptureRaises.capture (h : CaptureRaises vmi m) : ∃ args, capture vmi m = .ok (args, none) := by
  unfold Hyperagents.capture
  cases h with
  | karg ha =>
    rw [ha]
    exact ⟨none, rfl⟩
  | kenv ha he =>
    rw [ha, he]
    exact ⟨none, rfl⟩
  | args ha he hra =>
    rw [ha, he]
    dsimp only
    rw [hra]
    exact ⟨none, rfl⟩
  | @env karg kenv args ha he hra hre =>
    rw [ha, he]
    dsimp only
    rw [hra]
    dsimp only
    rw [hre]
    exact ⟨some args, rfl⟩

/-- Without an environment the function raises: on `args`, if that is missing too, and else in its last handler. -/
theorem buildArgsEnvs_none (full : Bool) (m : MmFields) (args : Option PyStr) :
    buildArgsEnvs full m args none = .error (if args = none then .attributeError else .keyError) := by
  cases args <;> rfl

theorem returns_iff_captured (full : Bool) (hmm : readMm vmi cfg tsAddr = .ok m) :
    ReturnsFields vmi cfg tsAddr full m ↔ ∃ args env, capture vmi m = .ok (some args, some env) := by
  constructor
  · rintro ⟨p, hp, -⟩
    cases hc : capture vmi m with
    | error e =>
      unfold getArgsAndEnvs at hp
      rw [hmm] at hp
      change (capture vmi m >>= fun blocks => buildArgsEnvs full m blocks.1 blocks.2) = _ at hp
      rw [hc] at hp
      cases hp
    | ok blocks =>
      obtain ⟨args, env⟩ := blocks
      rw [getArgsAndEnvs_captured full hmm hc] at hp
      cases env with
      | none =>
        rw [buildArgsEnvs_none] at hp
        cases hp
      | some env =>
        cases args with
        | none => cases hp
        | some args => exact ⟨args, env, rfl⟩
  · rintro ⟨args, env, hc⟩
    exact ⟨_, (getArgsAndEnvs_captured full hmm hc).trans rfl, foldl_mm full _ _⟩

/-- **A capture that fails makes the function raise**, whichever of its calls it is. -/
theorem failed_capture_raises (vmi : Pyvmi) (cfg : Cfg) (tsAddr : Int) (full : Bool) (m : MmFields)
    (hmm : readMm vmi cfg tsAddr = .ok m) (h : CaptureRaises vmi m) : ¬ ReturnsFields vmi cfg tsAddr full m := by
  rw [returns_iff_captured full hmm]
  rintro ⟨args, env, hc⟩
  obtain ⟨args', hc'⟩ := h.capture
  cases hc.symm.trans hc'

/-- The page with the environment is not there. -/
def swappedGuest : Pyvmi := processGuest [(8, 4096), (4136, 8192), (4144, 8235)] shellSpace

def swappedMm : MmFields := ⟨0, 0, 0, 0, 0, 0, 8192, 8235⟩

theorem swapped_raises : CaptureRaises swappedGuest swappedMm := by
  have hkarg : swappedGuest.translateUv2p swappedMm.argStart swappedMm.pid = .ok 0 := by decide
  exact .kenv hkarg (by decide)

theorem swapped_env_raises : readMm swappedGuest mmCfg 0 = .ok swappedMm ∧ CaptureRaises swappedGuest swappedMm ∧
    getArgsAndEnvs swappedGuest mmCfg 0 false = .error .attributeError ∧
      ¬ ReturnsFields swappedGuest mmCfg 0 false swappedMm := by
  have hmm : readMm swappedGuest mmCfg 0 = .ok swappedMm := by decide
  have hc : capture swappedGuest swappedMm = .ok (none, none) := by decide
  have hraise := (getArgsAndEnvs_captured false hmm hc).trans (buildArgsEnvs_none false swappedMm none)
  refine ⟨hmm, swapped_raises, hraise, ?_⟩
  rintro ⟨p, hp, -⟩
  cases hp.symm.trans hraise

theorem failed_capture_raises_swapped : ¬ ReturnsFields swappedGuest mmCfg 0 true swappedMm :=
  failed_capture_raises swappedGuest mmCfg 0 true swappedMm (by decide) swapped_raises

end Hyperagents
