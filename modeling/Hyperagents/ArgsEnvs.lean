import Hyperagents.Paging
import Hyperagents.Pyvmi
import Mathlib.Logic.Function.Basic
/-!
# The arguments and the environment of a process

`get_args_and_envs` reads the bounds of both blocks from the process's mm, and the blocks themselves physically: each in
one piece from where its first byte is (`capture`).  What it takes apart are the process's own bytes exactly where both
first bytes are mapped and the later pages of each block follow its first (`captures_virtual_iff`).
-/
namespace Hyperagents

open Paging

/-! ## The function -/

structure MmFields where
  pid : Int
  startBrk : Int
  brk : Int
  startStack : Int
  argStart : Int
  argEnd : Int
  envStart : Int
  envEnd : Int
  deriving DecidableEq, Repr

def MmFields.arglen (m : MmFields) : Int := m.argEnd - m.argStart

def MmFields.envlen (m : MmFields) : Int := m.envEnd - m.envStart

def readMm (vmi : Pyvmi) (cfg : Cfg) (tsAddr : Int) : Except PyError MmFields := do
  let mm ← vmi.readAddrVa (tsAddr + (← vmi.getOffset "linux_mm")) 0
  let pid ← vmi.read32Va (tsAddr + (← vmi.getOffset "linux_pid")) 0
  let startBrk ← vmi.readAddrVa (mm + cfg "u_start_brk") 0
  let brk ← vmi.readAddrVa (mm + cfg "u_brk") 0
  let startStack ← vmi.readAddrVa (mm + cfg "u_start_stack") 0
  let argStart ← vmi.readAddrVa (mm + cfg "u_arg_start") 0
  let argEnd ← vmi.readAddrVa (mm + cfg "u_arg_end") 0
  let envStart ← vmi.readAddrVa (mm + cfg "u_env_start") 0
  let envEnd ← vmi.readAddrVa (mm + cfg "u_env_end") 0
  return ⟨pid, startBrk, brk, startStack, argStart, argEnd, envStart, envEnd⟩

/-- The except clause of the capture: a `ValueError` leaves what has been captured so far. -/
def captured (e : PyError) (args : Option PyStr) : Except PyError (Option PyStr × Option PyStr) :=
  if e = .valueError then .ok (args, none) else .error e

/-- `args` and `env` after the capture. -/
def capture (vmi : Pyvmi) (m : MmFields) : Except PyError (Option PyStr × Option PyStr) :=
  match vmi.translateUv2p m.argStart m.pid with
  | .error e => captured e none
  | .ok karg =>
    match vmi.translateUv2p m.envStart m.pid with
    | .error e => captured e none
    | .ok kenv =>
      match vmi.readPa karg m.arglen with
      | .error e => captured e none
      | .ok args =>
        match vmi.readPa kenv m.envlen with
        | .error e => captured e (some args)
        | .ok env => .ok (some args, some env)

/-- The dictionary `p`; a key that is not set is `none`. -/
structure ArgsEnvs where
  mm : MmFields
  shell : PyStr
  user : PyStr
  argBlock : PyStr
  envBlock : Option PyStr
  envList : PyStr → Option PyStr

def isSpace (b : UInt8) : Bool := (py " \t\n\r\x0b\x0c").contains b

def strip (s : PyStr) : PyStr := ((s.dropWhile isSpace).reverse.dropWhile isSpace).reverse

/-- `item.split('=', 1)` into two, if there is a `=`. -/
def splitKey (item : PyStr) : Option (PyStr × PyStr) :=
  match item.span (· != '='.toUInt8) with
  | (_, []) => none
  | (key, _ :: val) => some (key, val)

/-- One turn of the loop over the environment: SSH_CLIENT, HOSTNAME, SHELL, PATH, PWD, _, LANG, USER.  An item without a
`=` is skipped. -/
def envItem (full : Bool) (p : ArgsEnvs) (item : PyStr) : ArgsEnvs :=
  match splitKey item with
  | none => p
  | some (key, val) =>
    let p := if full then { p with envList := Function.update p.envList key (some val) } else p
    if key = py "USER" then { p with user := val }
    else if key = py "SHELL" then { p with shell := (val.splitOn '/'.toUInt8).getLastD [] }
    else p

/-- From the captured blocks to the dictionary.  Without an environment the handler of the outer loop reads
`p['pid']`, a key that is not there. -/
def buildArgsEnvs (full : Bool) (m : MmFields) (args env : Option PyStr) : Except PyError ArgsEnvs :=
  match args with
  | none => .error .attributeError
  | some args =>
    let argBlock := strip (args.map fun b => if b = 0 then ' '.toUInt8 else b)
    match env with
    | none => .error .keyError
    | some env =>
      let p : ArgsEnvs := ⟨m, [], [], argBlock, if full then some env else none, fun _ => none⟩
      .ok ((env.splitOn 0).foldl (envItem full) p)

def getArgsAndEnvs (vmi : Pyvmi) (cfg : Cfg) (tsAddr : Int) (full : Bool) : Except PyError ArgsEnvs := do
  let m ← readMm vmi cfg tsAddr
  let (args, env) ← capture vmi m
  buildArgsEnvs full m args env

/-! ## What is captured -/

/-- pyvmi translates the process's addresses, and reads physical bytes. -/
structure ShowsSpace (vmi : Pyvmi) (pid : Int) (g : Space UInt8) : Prop where
  translate : ∀ va, vmi.translateUv2p va pid = (g.translate va).elim (.error .valueError) .ok
  readPa : ∀ p n, 0 ≤ n → vmi.readPa p n = .ok (g.readPhys p n)

/-- The strings captured are the bytes the process has at its arguments and at its environment. -/
def CapturesVirtual (vmi : Pyvmi) (m : MmFields) (g : Space UInt8) : Prop :=
  ∃ args env, capture vmi m = .ok (some args, some env) ∧ args.map some = g.virt m.argStart m.argEnd ∧
    env.map some = g.virt m.envStart m.envEnd

/-- The page of `a` is mapped, and the later pages of the range up to `b` follow it. -/
def ReadsOn (g : Space UInt8) (a b : Int) : Prop := ∃ f, g.frame (a / 4096) = some f ∧ g.Follows f a b

variable {vmi : Pyvmi} {m : MmFields} {g : Space UInt8} {a b : Int}

theorem translate_of_frame {f : Int} (h : g.frame (a / 4096) = some f) :
    g.translate a = some (f * 4096 + a % 4096) := by
  unfold Space.translate
  rw [h]
  rfl

theorem translate_of_no_frame (h : g.frame (a / 4096) = none) : g.translate a = none := by
  unfold Space.translate
  rw [h]
  rfl

/-- A capture that gets both blocks has read each on from its first byte. -/
theorem capture_ok_iff (h : ShowsSpace vmi m.pid g) (ha : m.argStart ≤ m.argEnd) (he : m.envStart ≤ m.envEnd)
    {args env : PyStr} : capture vmi m = .ok (some args, some env) ↔
      ∃ fa fe, g.frame (m.argStart / 4096) = some fa ∧ g.frame (m.envStart / 4096) = some fe ∧
        args = g.readPhys (fa * 4096 + m.argStart % 4096) m.arglen ∧
          env = g.readPhys (fe * 4096 + m.envStart % 4096) m.envlen := by
  have hal : 0 ≤ m.arglen := Int.sub_nonneg_of_le ha
  have hel : 0 ≤ m.envlen := Int.sub_nonneg_of_le he
  unfold capture
  rw [h.translate, h.translate]
  cases hfa : g.frame (m.argStart / 4096) with
  | none =>
    rw [translate_of_no_frame hfa]
    apply iff_of_false (fun e => by cases e)
    rintro ⟨fa, fe, hfa', -⟩
    cases hfa'
  | some fa =>
    rw [translate_of_frame hfa]
    cases hfe : g.frame (m.envStart / 4096) with
    | none =>
      rw [translate_of_no_frame hfe]
      apply iff_of_false (fun e => by cases e)
      rintro ⟨fa, fe, -, hfe', -⟩
      cases hfe'
    | some fe =>
      rw [translate_of_frame hfe]
      dsimp only [Option.elim]
      rw [h.readPa _ _ hal, h.readPa _ _ hel]
      constructor
      · intro heq
        cases heq
        exact ⟨fa, fe, rfl, rfl, rfl, rfl⟩
      · rintro ⟨fa', fe', hfa', hfe', rfl, rfl⟩
        cases hfa'
        cases hfe'
        rfl

/-- **The capture gets the process's bytes exactly where the pages of both blocks follow their first.** -/
theorem captures_virtual_iff (vmi : Pyvmi) (m : MmFields) (g : Space UInt8) (h : ShowsSpace vmi m.pid g)
    (ha : m.argStart ≤ m.argEnd) (he : m.envStart ≤ m.envEnd) (hma : g.Mapped m.argStart m.argEnd)
    (hme : g.Mapped m.envStart m.envEnd) :
    CapturesVirtual vmi m g ↔ ReadsOn g m.argStart m.argEnd ∧ ReadsOn g m.envStart m.envEnd := by
  unfold CapturesVirtual ReadsOn
  simp only [capture_ok_iff h ha he]
  constructor
  · rintro ⟨args, env, ⟨fa, fe, hfa, hfe, rfl, rfl⟩, hargs, henv⟩
    exact ⟨⟨fa, hfa, (read_eq_virt_iff hfa hma).1 hargs⟩, ⟨fe, hfe, (read_eq_virt_iff hfe hme).1 henv⟩⟩
  · rintro ⟨⟨fa, hfa, ha⟩, ⟨fe, hfe, he⟩⟩
    exact ⟨_, _, ⟨fa, fe, hfa, hfe, rfl, rfl⟩, (read_eq_virt_iff hfa hma).2 ha, (read_eq_virt_iff hfe hme).2 he⟩

/-- **What the function takes apart** where the pages of both blocks follow their first: the process's own bytes. -/
theorem getArgsAndEnvs_virtual {cfg : Cfg} {tsAddr : Int} (full : Bool) (hmm : readMm vmi cfg tsAddr = .ok m)
    (hc : CapturesVirtual vmi m g) : ∃ args env, args.map some = g.virt m.argStart m.argEnd ∧
      env.map some = g.virt m.envStart m.envEnd ∧
        getArgsAndEnvs vmi cfg tsAddr full = buildArgsEnvs full m (some args) (some env) := by
  obtain ⟨args, env, hcapture, hargs, henv⟩ := hc
  refine ⟨args, env, hargs, henv, ?_⟩
  unfold getArgsAndEnvs
  rw [hmm]
  show (capture vmi m >>= fun blocks => buildArgsEnvs full m blocks.1 blocks.2) = _
  rw [hcapture]
  rfl

theorem readsOn_of_one_page {f : Int} (hf : g.frame (a / 4096) = some f) (h : b ≤ (a / 4096 + 1) * 4096) :
    ReadsOn g a b := ⟨f, hf, follows_of_one_page h⟩

theorem readsOn_of_consecutive {f : Int} (hf : g.frame (a / 4096) = some f)
    (h : ∀ j, 0 < j → (a / 4096 + j) * 4096 < b → g.frame (a / 4096 + j) = some (f + j)) : ReadsOn g a b :=
  ⟨f, hf, follows_of_consecutive h⟩

/-! ## A process with two pages -/

/-- A guest with one process: its address space, and the words of its task and its mm. -/
def processGuest (words : List (Int × Int)) (g : Space UInt8) : Pyvmi :=
  { tableGuest words [] with
    getOffset := fun s => .ok (if s = "linux_mm" then 8 else 16)
    translateUv2p := fun va _ => (g.translate va).elim (.error .valueError) .ok
    readPa := fun p n => if 0 ≤ n then .ok (g.readPhys p n) else .error .valueError }

theorem processGuest_shows (words : List (Int × Int)) (g : Space UInt8) (pid : Int) :
    ShowsSpace (processGuest words g) pid g := ⟨fun _ => rfl, fun _ _ hn => if_pos hn⟩

/-- Each physical page is filled with its number; page 0 is mapped to page 65 and page 1 to page 70. -/
def scattered : Space UInt8 where
  phys p := (p / 4096).toNat.toUInt8
  frame v := if v = 0 then some 65 else if v = 1 then some 70 else none

/-- The arguments lie across the end of the first page, the environment inside it. -/
def scatteredMm : MmFields := ⟨42, 0, 0, 0, 4094, 4098, 16, 18⟩

def scatteredGuest : Pyvmi :=
  processGuest [(8, 4096), (16, 42), (4120, 4094), (4128, 4098), (4136, 16), (4144, 18)] scattered

theorem scattered_mapped {a b : Int} (ha : 0 ≤ a) (hb : b ≤ 8192) : scattered.Mapped a b := by
  intro va hva hvb
  have hpage : va / 4096 = 0 ∨ va / 4096 = 1 := by omega
  rcases hpage with h | h <;> rw [h] <;> decide

theorem captures_virtual_iff_scattered : CapturesVirtual scatteredGuest scatteredMm scattered ↔
    ReadsOn scattered 4094 4098 ∧ ReadsOn scattered 16 18 :=
  captures_virtual_iff scatteredGuest scatteredMm scattered (processGuest_shows _ _ _) (by decide) (by decide)
    (scattered_mapped (by decide) (by decide)) (scattered_mapped (by decide) (by decide))

/-- The offsets of the fields in the mm. -/
def mmCfg : Cfg := fun k => (([("u_start_brk", 0), ("u_brk", 8), ("u_start_stack", 16), ("u_arg_start", 24),
  ("u_arg_end", 32), ("u_env_start", 40), ("u_env_end", 48)] : List (String × Int)).lookup k).getD 0

/-- The arguments captured end with bytes of physical page 66, which the process does not have. -/
theorem scattered_args_not_captured : readMm scatteredGuest mmCfg 0 = .ok scatteredMm ∧
    capture scatteredGuest scatteredMm = .ok (some (py "AABB"), some (py "AA")) ∧
      scattered.virt 4094 4098 = (py "AAFF").map some ∧ ¬ CapturesVirtual scatteredGuest scatteredMm scattered := by
  have hcapture : capture scatteredGuest scatteredMm = .ok (some (py "AABB"), some (py "AA")) := by decide
  have hvirt : scattered.virt 4094 4098 = (py "AAFF").map some := by decide
  refine ⟨by decide, hcapture, hvirt, ?_⟩
  rintro ⟨args, env, heq, hargs, -⟩
  cases hcapture.symm.trans heq
  have hne : ((py "AABB").map some : List (Option UInt8)) ≠ (py "AAFF").map some := by decide
  exact hne (hargs.trans hvirt)

end Hyperagents
