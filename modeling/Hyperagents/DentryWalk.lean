import Hyperagents.Loops
import Hyperagents.Pyvmi
import Mathlib.Data.List.Basic
/-!
# The path of a mapped file

`get_vma_file` starts at the dentry of the file a VMA maps and follows `d_parent`, with nothing to stop it but a dentry
named `/`.  Where the parents get there (`ReachesRoot`) the names met on the way, reversed and joined, are the file's
path (`Chain`); where they do not, the loop never ends.
-/
namespace Hyperagents

open Loops

def slash : UInt8 := '/'.toUInt8

variable (vmi : Pyvmi) (cfg : Cfg)

/-- The name of a dentry, through its qstr. -/
def dName (dentryP : Int) : Except PyError PyStr := do
  let charP ← vmi.readAddrVa (dentryP + cfg "u_dentry_d_name_offset" + cfg "u_d_name_str_offset") 0
  vmi.readStrVa charP 0

def dParent (dentryP : Int) : Except PyError Int := vmi.readAddrVa (dentryP + cfg "u_dentry_d_parent_offset") 0

/-- The names inverted, each after a slash. -/
def pathStr (path : List PyStr) : PyStr := path.reverse.foldl (fun str i => str ++ py "/" ++ i) []

/-- One turn of the loop, at a dentry and with the names met so far. -/
def dentryTurn (w : Int × List PyStr) : Turn (Except PyError PyStr) (Int × List PyStr) :=
  match dName vmi cfg w.1 with
  | .error e => .leave (.error e)
  | .ok vmFile =>
    if vmFile = py "/" then .leave (.ok (pathStr w.2))
    else
      match dParent vmi cfg w.1 with
      | .error e => .leave (.error e)
      | .ok dentryP => .again (dentryP, w.2 ++ [vmFile])

/-- The file a VMA maps: vma -> *file -> path -> *dentry -> qstr -> *char. -/
def vmaFile (currentVma : Int) : Except PyError Int := vmi.readAddrVa (currentVma + cfg "u_vm_file_offset") 0

def fileDentry (fileP : Int) : Except PyError Int :=
  vmi.readAddrVa (fileP + cfg "u_vm_file_path_offset" + cfg "u_path_dentry_offset") 0

/-- What `get_vma_file` returns or raises, if it does within so many turns of its loop. -/
def getVmaFile (currentVma : Int) (turns : Nat) : Option (Except PyError PyStr) :=
  match vmaFile vmi cfg currentVma with
  | .error e => some (.error e)
  | .ok fileP =>
    if fileP = 0 then some (.ok [])
    else
      match fileDentry vmi cfg fileP with
      | .error e => some (.error e)
      | .ok dentryP => run (dentryTurn vmi cfg) turns (dentryP, [])

/-! ## Where the walk ends -/

/-- Following `d_parent` from the dentry gets to one named `/`. -/
inductive ReachesRoot : Int → Prop
  | root {d : Int} : dName vmi cfg d = .ok (py "/") → ReachesRoot d
  | parent {d d' : Int} : dParent vmi cfg d = .ok d' → ReachesRoot d' → ReachesRoot d

/-- The names from a dentry up to, and without, the first dentry named `/`. -/
inductive Chain : Int → List PyStr → Prop
  | root {d : Int} : dName vmi cfg d = .ok (py "/") → Chain d []
  | link {d d' : Int} {n : PyStr} {ns : List PyStr} : dName vmi cfg d = .ok n → n ≠ py "/" →
      dParent vmi cfg d = .ok d' → Chain d' ns → Chain d (n :: ns)

/-- The VMA maps no file, or one below a dentry named `/`. -/
def Walkable (currentVma : Int) : Prop :=
  ∃ fileP, vmaFile vmi cfg currentVma = .ok fileP ∧
    (fileP = 0 ∨ ∃ dentryP, fileDentry vmi cfg fileP = .ok dentryP ∧ ReachesRoot vmi cfg dentryP)

variable {vmi} {cfg}

theorem dName_ok (h : vmi.Readable) (d : Int) : ∃ n, dName vmi cfg d = .ok n := by
  obtain ⟨charP, hc⟩ := h.addr (d + cfg "u_dentry_d_name_offset" + cfg "u_d_name_str_offset") 0
  obtain ⟨n, hn⟩ := h.str charP 0
  refine ⟨n, ?_⟩
  unfold dName
  rw [hc]
  exact hn

theorem turn_root {d : Int} (hd : dName vmi cfg d = .ok (py "/")) (path : List PyStr) :
    dentryTurn vmi cfg (d, path) = .leave (.ok (pathStr path)) := by
  simp only [dentryTurn, hd, if_true]

theorem turn_link {d d' : Int} {n : PyStr} (hd : dName vmi cfg d = .ok n) (hn : n ≠ py "/")
    (hp : dParent vmi cfg d = .ok d') (path : List PyStr) :
    dentryTurn vmi cfg (d, path) = .again (d', path ++ [n]) := by
  simp only [dentryTurn, hd, hp, if_neg hn]

/-- **The loop along a chain**: one turn for each name. -/
theorem Chain.ends {d : Int} {names : List PyStr} (h : Chain vmi cfg d names) : ∀ path,
    Ends (dentryTurn vmi cfg) (d, path) names.length (.ok (pathStr (path ++ names))) := by
  induction h with
  | root hd =>
    intro path
    rw [List.append_nil]
    exact .leave (turn_root hd path)
  | @link d d' n ns hd hn hp _ ih =>
    intro path
    refine .again (turn_link hd hn hp path) ?_
    have h := ih (path ++ [n])
    rwa [List.append_assoc] at h

/-- Where all reads succeed a dentry below one named `/` has a chain of names up to it. -/
theorem ReachesRoot.chain (hread : vmi.Readable) {d : Int} (h : ReachesRoot vmi cfg d) :
    ∃ names, Chain vmi cfg d names := by
  induction h with
  | root hd => exact ⟨[], .root hd⟩
  | @parent d d' hp _ ih =>
    obtain ⟨ns, hns⟩ := ih
    obtain ⟨n, hn⟩ := @dName_ok vmi cfg hread d
    by_cases hroot : n = py "/"
    · exact ⟨[], .root (hn.trans (congrArg _ hroot))⟩
    · exact ⟨n :: ns, .link hn hroot hp hns⟩

/-- A dentry that does not get to one named `/` has a parent that does not. -/
theorem turn_lost (hread : vmi.Readable) (w : Int × List PyStr) (h : ¬ ReachesRoot vmi cfg w.1) :
    ∃ w', dentryTurn vmi cfg w = .again w' ∧ ¬ ReachesRoot vmi cfg w'.1 := by
  obtain ⟨n, hn⟩ := @dName_ok vmi cfg hread w.1
  obtain ⟨d', hp⟩ := hread.addr (w.1 + cfg "u_dentry_d_parent_offset") 0
  have hroot : n ≠ py "/" := fun e => h (.root (hn.trans (congrArg _ e)))
  exact ⟨_, turn_link hn hroot hp w.2, fun hr => h (.parent hp hr)⟩

/-- **The loop ends exactly below a dentry named `/`.** -/
theorem dentry_loop_ends_iff (hread : vmi.Readable) (d : Int) (path : List PyStr) :
    (∃ turns r, run (dentryTurn vmi cfg) turns (d, path) = some r) ↔ ReachesRoot vmi cfg d := by
  constructor
  · rintro ⟨turns, r, hr⟩
    by_contra hlost
    have hnone := run_of_invariant (I := fun w => ¬ ReachesRoot vmi cfg w.1) (turn_lost hread) turns (d, path) hlost
    rw [hnone] at hr
    cases hr
  · intro h
    obtain ⟨names, hnames⟩ := h.chain hread
    exact ⟨_, _, (hnames.ends path).run _ (Nat.lt_succ_self _)⟩

theorem get_vma_file_returns_iff (vmi : Pyvmi) (cfg : Cfg) (currentVma : Int) (hread : vmi.Readable) :
    (∃ turns r, getVmaFile vmi cfg currentVma turns = some r) ↔ Walkable vmi cfg currentVma := by
  obtain ⟨fileP, hfile⟩ := hread.addr (currentVma + cfg "u_vm_file_offset") 0
  change vmaFile vmi cfg currentVma = .ok fileP at hfile
  unfold Walkable getVmaFile
  rw [hfile]
  by_cases h0 : fileP = 0
  · exact iff_of_true ⟨0, .ok [], if_pos h0⟩ ⟨fileP, rfl, .inl h0⟩
  · obtain ⟨dentryP, hdentry⟩ := hread.addr (fileP + cfg "u_vm_file_path_offset" + cfg "u_path_dentry_offset") 0
    change fileDentry vmi cfg fileP = .ok dentryP at hdentry
    simp only [if_neg h0, hdentry]
    rw [dentry_loop_ends_iff hread]
    constructor
    · exact fun h => ⟨fileP, rfl, .inr ⟨dentryP, hdentry, h⟩⟩
    · rintro ⟨fileP', hf, hcase⟩
      cases hf
      rcases hcase with h | ⟨dentryP', hd, h⟩
      · exact absurd h h0
      · cases hdentry.symm.trans hd
        exact h

/-! ## A guest whose walk never ends -/

/-- The offsets of Fedora 25. -/
def fedora25 : Cfg := fun k => (([("u_vm_file_offset", 160), ("u_vm_file_path_offset", 16), ("u_path_dentry_offset", 8),
  ("u_dentry_d_name_offset", 32), ("u_d_name_str_offset", 8), ("u_dentry_d_parent_offset", 24)] :
    List (String × Int)).lookup k).getD 0

/-- The VMA at 4096 maps a file whose dentry is its own parent, as that of a memfd is. -/
def memfdGuest : Pyvmi :=
  tableGuest [(4096 + 160, 8192), (8192 + 24, 12288), (12288 + 40, 16384), (12288 + 24, 12288)]
    [(16384, py "memfd:a")]

theorem get_vma_file_returns_iff_memfd :
    (∃ turns r, getVmaFile memfdGuest fedora25 4096 turns = some r) ↔ Walkable memfdGuest fedora25 4096 :=
  get_vma_file_returns_iff memfdGuest fedora25 4096 (tableGuest_readable _ _)

theorem memfd_walk_never_ends :
    memfdGuest.Readable ∧ ∀ turns, getVmaFile memfdGuest fedora25 4096 turns = none := by
  refine ⟨tableGuest_readable _ _, fun turns => ?_⟩
  have hname : dName memfdGuest fedora25 12288 = .ok (py "memfd:a") := by decide
  have hparent : dParent memfdGuest fedora25 12288 = .ok 12288 := by decide
  refine run_of_invariant (I := fun w => w.1 = 12288) ?_ turns (12288, []) rfl
  rintro ⟨d, path⟩ rfl
  exact ⟨_, turn_link hname (by decide) hparent path, rfl⟩

/-! ## The path -/

theorem intercalate_cons_eq (x : UInt8) : ∀ (l : PyStr) (ls : List PyStr),
    [x].intercalate (l :: ls) = l ++ ls.flatMap (fun n => x :: n)
  | l, [] => by
    rw [List.intercalate_singleton]
    exact (List.append_nil l).symm
  | l, n :: ls => by
    rw [List.intercalate_cons_cons, intercalate_cons_eq x n ls]
    simp

theorem pathStr_eq (path : List PyStr) : pathStr path = path.reverse.flatMap (fun n => slash :: n) := by
  have hfold : ∀ (names : List PyStr) (str : PyStr),
      names.foldl (fun str i => str ++ py "/" ++ i) str = str ++ names.flatMap (fun n => slash :: n) := by
    intro names
    induction names with
    | nil => exact fun str => (List.append_nil str).symm
    | cons n names ih =>
      intro str
      rw [List.foldl_cons, ih]
      simp [py, slash]
  exact hfold path.reverse []

/-- **Splitting a path gives the names back**, from the root down. -/
theorem split_pathStr {names : List PyStr} (h : ∀ n ∈ names, slash ∉ n) :
    (pathStr names).splitOn slash = [] :: names.reverse := by
  have hjoin : pathStr names = [slash].intercalate ([] :: names.reverse) := by
    rw [intercalate_cons_eq, pathStr_eq]
    rfl
  rw [hjoin]
  refine List.splitOn_intercalate slash ?_ (List.cons_ne_nil _ _)
  intro n hn
  rcases List.mem_cons.1 hn with rfl | hn
  · exact List.not_mem_nil
  · exact h n (List.mem_reverse.1 hn)

/-- The walk returns the names joined, and they can be read back from what it returns. -/
structure WalksPath (vmi : Pyvmi) (cfg : Cfg) (currentVma : Int) (names : List PyStr) : Prop where
  returns : ∀ turns, names.length < turns →
    getVmaFile vmi cfg currentVma turns = some (.ok (names.reverse.flatMap (fun n => slash :: n)))
  split : (∀ n ∈ names, slash ∉ n) → (names.reverse.flatMap (fun n => slash :: n)).splitOn slash = [] :: names.reverse

theorem get_vma_file_path (vmi : Pyvmi) (cfg : Cfg) (currentVma fileP dentryP : Int) (names : List PyStr)
    (hfile : vmaFile vmi cfg currentVma = .ok fileP) (h0 : fileP ≠ 0)
    (hdentry : fileDentry vmi cfg fileP = .ok dentryP) (hchain : Chain vmi cfg dentryP names) :
    WalksPath vmi cfg currentVma names := by
  refine ⟨fun turns hturns => ?_, fun hslash => ?_⟩
  · have hends := (hchain.ends []).run turns hturns
    rw [List.nil_append, pathStr_eq] at hends
    unfold getVmaFile
    simp only [hfile, if_neg h0, hdentry]
    exact hends
  · rw [← pathStr_eq]
    exact split_pathStr hslash

/-- The VMA at 4096 maps `/usr/bin/bash`. -/
def bashGuest : Pyvmi :=
  tableGuest [(4096 + 160, 8192), (8192 + 24, 100), (100 + 40, 1000), (100 + 24, 200), (200 + 40, 2000),
      (200 + 24, 300), (300 + 40, 3000), (300 + 24, 400), (400 + 40, 4000), (400 + 24, 400)]
    [(1000, py "bash"), (2000, py "bin"), (3000, py "usr"), (4000, py "/")]

theorem get_vma_file_path_bash : WalksPath bashGuest fedora25 4096 [py "bash", py "bin", py "usr"] ∧
    getVmaFile bashGuest fedora25 4096 4 = some (.ok (py "/usr/bin/bash")) := by
  have hroot : Chain bashGuest fedora25 400 [] := .root (by decide)
  have husr : Chain bashGuest fedora25 300 [py "usr"] := .link (by decide) (by decide) (by decide) hroot
  have hbin : Chain bashGuest fedora25 200 [py "bin", py "usr"] := .link (by decide) (by decide) (by decide) husr
  have hbash : Chain bashGuest fedora25 100 [py "bash", py "bin", py "usr"] :=
    .link (by decide) (by decide) (by decide) hbin
  exact ⟨get_vma_file_path bashGuest fedora25 4096 8192 100 _ (by decide) (by decide) (by decide) hbash, by decide⟩

end Hyperagents
