import Hyperagents.CommandLength
import Hyperagents.ShellWords
import Mathlib.Data.List.TakeWhile
/-!
# The commands as the shell runs them

A command is a text that `system` hands to a shell `sh`, and nothing in it is quoted.  `ShellCmd.argv` are the words
that a format means; the shell reads just these while the strings of the configuration are plain, and of the lines that
it is known to read, then only (`commands_run_plain`).  Whoever may choose the path of a disk chooses a command of his
own (`connect_runs_more`).
-/
namespace Hyperagents

open ShellWords

/-- The program and the arguments that a format means. -/
def ShellCmd.argv : ShellCmd → List String
  | .umount dir => ["umount", dir]
  | .umountLazy dir => ["umount", "-l", dir]
  | .qemuNbdConnect dev disk => ["qemu-nbd", "-nf", "qcow2", "-c", "/dev/" ++ dev, disk]
  | .qemuNbdDisconnect dev => ["qemu-nbd", "-d", "/dev/" ++ dev]
  | .kpartxAdd dev => ["kpartx", "-av", "/dev/" ++ dev]
  | .mount check dev dir =>
    ["mount", "-o", check ++ "ro,nodev,nodiratime,noexec,noiversion,nomand,norelatime,nostrictatime,nosuid",
      "/dev/mapper/" ++ dev ++ "p1", dir]
  | .xlBlockAttach vmid image => ["xl", "block-attach", toString vmid, "file:" ++ image, "xvdz", "r"]
  | .xlBlockList vmid => ["xl", "block-list", toString vmid]
  | .xlBlockDetach vmid => ["xl", "block-detach", toString vmid, "xvdz"]

def ShellCmd.wordList (c : ShellCmd) : List Word := c.argv.map String.toList

/-- The command fits its buffer, and the shell reads the commands `cs` in it. -/
structure ShellCmd.RunAs (sh : List Char → List (List Word)) (c : ShellCmd) (cs : List (List Word)) : Prop where
  fits : c.length ≤ c.buffer
  reads : sh c.text.toList = cs

/-- The shell runs the one command that the format means. -/
def ShellCmd.Runs (sh : List Char → List (List Word)) (c : ShellCmd) : Prop := c.RunAs sh [c.wordList]

/-- The command is a line that every shell reads as the one the format means. -/
def ShellCmd.Meant (c : ShellCmd) : Prop := simpleCommands c.text.toList = some [c.wordList]

variable {sh : List Char → List (List Word)}

/-- **A command's text is its words**, joined by single blanks. -/
theorem ShellCmd.text_eq_join (c : ShellCmd) : c.text.toList = join c.wordList := by
  have hoptions : "ro,nodev,nodiratime,noexec,noiversion,nomand,norelatime,nostrictatime,nosuid /dev/mapper/".toList =
      "ro,nodev,nodiratime,noexec,noiversion,nomand,norelatime,nostrictatime,nosuid".toList ++
        ([' '] ++ "/dev/mapper/".toList) := by
    decide +kernel
  unfold text wordList argv join
  cases c <;> dsimp only <;> simp only [List.map_cons, List.map_nil, List.intercalate_cons_cons,
    List.intercalate_singleton, String.toList_append, hoptions, List.append_assoc]
  all_goals rfl

theorem ShellCmd.simple_wordList (c : ShellCmd) : simple c.wordList = true := by
  cases c <;> rfl

theorem ShellCmd.Meant.runs {c : ShellCmd} (h : c.Meant) (hsh : ShLaws sh) (hfits : c.length ≤ c.buffer) :
    c.Runs sh :=
  ⟨hfits, hsh.reads _ _ h⟩

theorem ShellCmd.Runs.meant {c : ShellCmd} (h : c.Runs sh) (hsh : ShLaws sh)
    (hread : (simpleCommands c.text.toList).isSome = true) : c.Meant := by
  obtain ⟨cs, hcs⟩ := Option.isSome_iff_exists.1 hread
  have hsame : cs = [c.wordList] := (hsh.reads _ _ hcs).symm.trans h.reads
  exact hcs.trans (congrArg some hsame)

theorem ShellCmd.meant_iff (c : ShellCmd) : c.Meant ↔ ∀ w ∈ c.argv, PlainWord w.toList := by
  unfold Meant
  rw [c.text_eq_join, simpleCommands_join_iff c.simple_wordList]
  exact List.forall_mem_map

/-! ## Plain strings -/

/-- A string that is a plain word, or a part of one. -/
def Plain (s : String) : Prop := ∀ c ∈ s.toList, plain c = true

instance (s : String) : Decidable (Plain s) := List.decidableBAll _ s.toList

theorem plain_append {s t : String} : Plain (s ++ t) ↔ Plain s ∧ Plain t := by
  unfold Plain
  rw [String.toList_append]
  exact List.forall_mem_append

theorem plainWord_iff {s : String} : PlainWord s.toList ↔ s ≠ "" ∧ Plain s := by
  have hempty : s.toList = [] ↔ s = "" := String.toList_eq_nil_iff
  unfold PlainWord Plain
  rw [ne_eq, hempty]

/-- A plain word stays one exactly if what follows is plain. -/
theorem plainWord_append {s t : String} (hs : PlainWord s.toList) : PlainWord (s ++ t).toList ↔ Plain t := by
  obtain ⟨hne, hplain⟩ := plainWord_iff.1 hs
  rw [plainWord_iff, plain_append]
  constructor
  · exact fun h => h.2.2
  · refine fun h => ⟨fun e => hne ?_, hplain, h⟩
    exact (String.append_eq_empty_iff.1 e).1

theorem plainWord_append_right {s t : String} (ht : PlainWord t.toList) : PlainWord (s ++ t).toList ↔ Plain s := by
  obtain ⟨hne, hplain⟩ := plainWord_iff.1 ht
  rw [plainWord_iff, plain_append]
  constructor
  · exact fun h => h.2.1
  · refine fun h => ⟨fun e => hne ?_, h, hplain⟩
    exact (String.append_eq_empty_iff.1 e).2

theorem plain_nbdDev (i : Slot) : PlainWord (nbdDev i).toList := by
  revert i
  decide

/-- A number has digits alone, and at least one. -/
theorem plain_toString (v : UInt64) : PlainWord (toString v).toList := by
  have hdigits : (toString v).toList = Nat.toDigits 10 v.toNat := Nat.toList_repr
  rw [hdigits]
  refine ⟨Nat.toDigits_ne_nil, fun c hc => ?_⟩
  have hdigit := Nat.isDigit_of_mem_toDigits (by decide) (by decide) hc
  simp [plain, Char.isAlphanum, hdigit]

/-! ## When a command is the one meant -/

/-- The strings of a command are plain, and those that are a word of their own are not empty. -/
def ShellCmd.PlainStrings : ShellCmd → Prop
  | .umount dir | .umountLazy dir => PlainWord dir.toList
  | .qemuNbdConnect dev disk => Plain dev ∧ PlainWord disk.toList
  | .qemuNbdDisconnect dev | .kpartxAdd dev => Plain dev
  | .mount check dev dir => Plain check ∧ Plain dev ∧ PlainWord dir.toList
  | .xlBlockAttach _ image => Plain image
  | .xlBlockList _ | .xlBlockDetach _ => True

theorem ShellCmd.meant_iff_plain (c : ShellCmd) : c.Meant ↔ c.PlainStrings := by
  have hdev : ∀ dev : String, PlainWord ("/dev/" ++ dev).toList ↔ Plain dev := fun dev =>
    plainWord_append (by decide)
  have hpartition : ∀ dev : String, PlainWord ("/dev/mapper/" ++ dev ++ "p1").toList ↔ Plain dev := fun dev => by
    have hp1 : Plain "p1" := by decide
    rw [String.append_assoc, plainWord_append (by decide), plain_append]
    exact and_iff_left hp1
  have himage : ∀ image : String, PlainWord ("file:" ++ image).toList ↔ Plain image := fun image =>
    plainWord_append (by decide)
  have hoptions : ∀ check : String, PlainWord (check ++
      "ro,nodev,nodiratime,noexec,noiversion,nomand,norelatime,nostrictatime,nosuid").toList ↔ Plain check :=
    fun check => plainWord_append_right (by decide)
  rw [c.meant_iff]
  cases c <;> simp +decide only [argv, List.forall_mem_cons, PlainStrings, hdev, hpartition, himage, hoptions,
    plain_toString, and_true, true_and]

/-! ## The strings of a configuration -/

/-- The configuration's three strings, as the formats print them, are plain, and the disk's path is not empty. -/
structure PlainArgs (x : FormatArgs) : Prop where
  disk : PlainWord (cStr x.diskPath).toList
  ghost : Plain (cStr x.ghostImage)
  base : Plain (cStr x.baseMountpoint)

theorem plain_dir (x : FormatArgs) : PlainWord x.dir.toList ↔ Plain (cStr x.baseMountpoint) :=
  plainWord_append_right (plain_nbdDev x.slot)

theorem plain_check (x : FormatArgs) : Plain x.check := by
  unfold FormatArgs.check
  cases x.linux <;> decide

theorem meant_of_plain {x : FormatArgs} (h : PlainArgs x) (site : FormatSite) : (x.command site).Meant := by
  have hdir := (plain_dir x).2 h.base
  have hdev := (plain_nbdDev x.slot).2
  rw [ShellCmd.meant_iff_plain]
  cases site with
  | blockAttach => exact h.ghost
  | blockList => trivial
  | blockDetach => trivial
  | dropUmount => exact hdir
  | dropDisconnect => exact hdev
  | connect => exact ⟨hdev, h.disk⟩
  | kpartx => exact hdev
  | precautionaryUmount => exact hdir
  | mount => exact ⟨plain_check x, hdev, hdir⟩
  | umount => exact hdir
  | disconnect => exact hdev

theorem plain_of_meant {x : FormatArgs} (h : ∀ site, (x.command site).Meant) : PlainArgs x := by
  have hattach := (ShellCmd.meant_iff_plain _).1 (h .blockAttach)
  have hconnect := (ShellCmd.meant_iff_plain _).1 (h .connect)
  have humount := (ShellCmd.meant_iff_plain _).1 (h .umount)
  exact ⟨hconnect.2, hattach, (plain_dir x).1 humount⟩

/-- **The shell runs the commands that the formats mean, and nothing else, while the strings are short and plain**; and
of the lines that it is known to read, then only. -/
theorem commands_run_plain (sh : List Char → List (List Word)) (hsh : ShLaws sh) (x : FormatArgs) :
    (ShortEnough x → PlainArgs x → ∀ site, (x.command site).Runs sh) ∧
      ((∀ site, (simpleCommands (x.command site).text.toList).isSome = true) →
        (∀ site, (x.command site).Runs sh) → ShortEnough x ∧ PlainArgs x) := by
  constructor
  · intro hshort hplain site
    refine (meant_of_plain hplain site).runs hsh ?_
    rw [← buffer_eq]
    exact commands_fit_of_short hshort site
  · intro hread hruns
    refine ⟨short_of_commands_fit fun site => ?_, plain_of_meant fun site => (hruns site).meant hsh (hread site)⟩
    rw [buffer_eq]
    exact (hruns site).fits

/-- A shell that reads nothing in the lines of which nothing is known. -/
def plainSh (t : List Char) : List (List Word) := (simpleCommands t).getD []

theorem plainSh_laws : ShLaws plainSh :=
  ⟨fun t cs h => by rw [plainSh, h]; rfl⟩

theorem commands_run_plain_linux :
    ∃ x : FormatArgs, x = ⟨"/mnt/", "/vm.img", "/ghost.img", 1, 0, true⟩ ∧ ∀ site, (x.command site).Runs plainSh :=
  ⟨_, rfl, (commands_run_plain plainSh plainSh_laws _).1 ⟨by decide, by decide, by decide⟩
    ⟨by decide, by decide, by decide⟩⟩

/-- **A disk's path with a semicolon in it runs what comes after the semicolon**, whatever command that is. -/
theorem connect_runs_more (sh : List Char → List (List Word)) (hsh : ShLaws sh) (x : FormatArgs) (disk : String)
    (ws : List Word) (hdisk : PlainWord disk.toList) (hws : ∀ w ∈ ws, PlainWord w) (hsimple : simple ws = true)
    (hpath : cStr x.diskPath = disk ++ ";" ++ String.ofList (join ws))
    (hshort : (nbdDev x.slot).utf8ByteSize + (cStr x.diskPath).utf8ByteSize ≤ 163) :
    (x.command .connect).RunAs sh [(ShellCmd.qemuNbdConnect (nbdDev x.slot) disk).wordList, ws] := by
  have hconnect : (ShellCmd.qemuNbdConnect (nbdDev x.slot) disk).Meant :=
    (ShellCmd.meant_iff_plain _).2 ⟨(plain_nbdDev x.slot).2, hdisk⟩
  have hsemicolon : ";".toList = [';'] := rfl
  have htext : (x.command .connect).text.toList =
      (ShellCmd.qemuNbdConnect (nbdDev x.slot) disk).text.toList ++ ';' :: join ws := by
    show ("qemu-nbd -nf qcow2 -c /dev/" ++ nbdDev x.slot ++ " " ++ cStr x.diskPath).toList =
      ("qemu-nbd -nf qcow2 -c /dev/" ++ nbdDev x.slot ++ " " ++ disk).toList ++ ';' :: join ws
    simp only [hpath, String.toList_append, hsemicolon, String.toList_ofList, List.append_assoc,
      List.singleton_append]
  have hread : simpleCommands (x.command .connect).text.toList =
      some [(ShellCmd.qemuNbdConnect (nbdDev x.slot) disk).wordList, ws] := by
    rw [htext, simpleCommands_append, hconnect, (simpleCommands_join_iff hsimple).2 hws]
    rw [Option.bind_some, Option.map_some, List.singleton_append]
  refine ⟨?_, hsh.reads _ _ hread⟩
  rw [FormatArgs.command, length_connect]
  show _ ≤ 192
  omega

/-- A path that ends in a command of its own. -/
theorem connect_runs_more_shutdown :
    ((FormatArgs.mk "/mnt/" "/vm.img;xl shutdown vm" "/ghost.img" 1 0 true).command .connect).RunAs plainSh
      [["qemu-nbd".toList, "-nf".toList, "qcow2".toList, "-c".toList, "/dev/nbd0".toList, "/vm.img".toList],
        ["xl".toList, "shutdown".toList, "vm".toList]] :=
  connect_runs_more plainSh plainSh_laws ⟨"/mnt/", "/vm.img;xl shutdown vm", "/ghost.img", 1, 0, true⟩ "/vm.img"
    ["xl".toList, "shutdown".toList, "vm".toList] (by decide) (by decide) (by decide) (by decide) (by decide)

/-! ## The commands of a run -/

section

open Runs

variable {δ : Type} {shell : Shell δ} {s s' : HaState δ}

/-- The strings of a HAMain are plain, and short. -/
structure PlainHa (s : HaState δ) : Prop where
  base : Plain s.baseMountpoint
  ghost : Plain s.ghostImage
  disk : ∀ n ha, s.agents n = some ha → PlainWord ha.diskPath.toList
  short : ShortStrings s

theorem cStr_of_plain {s : String} (h : Plain s) : cStr s = s := by
  unfold cStr
  have hall : s.toList.takeWhile (· != Char.ofNat 0) = s.toList := by
    refine List.takeWhile_eq_self_iff.2 fun c hc => ?_
    have hnul : c ≠ Char.ofNat 0 := by
      rintro rfl
      exact absurd (h _ hc) (by decide)
    exact bne_iff_ne.2 hnul
  rw [hall, String.ofList_toList]

theorem Formatted.meant {base ghost disk : String} {k : ShellCmd} (hk : Formatted base ghost disk k)
    (hbase : Plain base) (hghost : Plain ghost) (hdisk : PlainWord disk.toList) : k.Meant := by
  obtain ⟨vmid, slot, linux, site, hk⟩ := hk
  have hplain : PlainArgs ⟨base, disk, ghost, vmid, slot, linux⟩ := by
    constructor
    · dsimp only
      rw [cStr_of_plain (plainWord_iff.1 hdisk).2]
      exact hdisk
    · dsimp only
      rw [cStr_of_plain hghost]
      exact hghost
    · dsimp only
      rw [cStr_of_plain hbase]
      exact hbase
  rw [← hk]
  exact meant_of_plain hplain site

theorem PlainHa.nulFree (hs : PlainHa s) : NulFree s :=
  ⟨cStr_of_plain hs.base, cStr_of_plain hs.ghost, fun n ha hn => cStr_of_plain (plainWord_iff.1 (hs.disk n ha hn)).2⟩

theorem PlainHa.meant (hs : PlainHa s) (call : HaCall) {k : ShellCmd} (hk : k ∈ commands (callTrace shell s call)) :
    k.Meant := by
  have hnul := hs.nulFree
  have hmount : ∀ n env, call = .op (.mountDisk n env) → k.Meant := by
    rintro n env rfl
    simp only [callTrace] at hk
    cases hn : s.agents n with
    | none =>
      rw [hn] at hk
      cases hk
    | some ha =>
      rw [hn] at hk
      have hformatted := requestTrace_formatted hnul.base hnul.ghost (hnul.disk n ha hn) hk
      exact hformatted.meant hs.base hs.ghost (hs.disk n ha hn)
  cases call with
  | op o =>
    cases o with
    | addAgent n r d ok m => cases ok <;> cases hk
    | mountDisk n env => exact hmount n env rfl
    | unmountDisk n =>
      simp only [callTrace] at hk
      cases hn : s.agents n with
      | none =>
        rw [hn] at hk
        cases hk
      | some ha =>
        rw [hn, commands_releaseTrace] at hk
        cases hk
  | printStatus =>
    have hk : k ∈ commands (statusTrace s ++ [.unlockVmi]) := hk
    rw [commands_append, commands_statusTrace] at hk
    cases hk
  | destroyConfig ha => cases hk
  | destroyMain names =>
    -- The destructors format no disk's path.
    simp only [callTrace, commands_append, commands_destroyTraces, List.nil_append] at hk
    have hformatted : Formatted s.baseMountpoint s.ghostImage "disk" k := dropTrace_formatted hnul.base _ _ hk
    exact hformatted.meant hs.base hs.ghost (by decide)

/-- **Every command of a call** is run as it is meant. -/
theorem PlainHa.call (hs : PlainHa s) (hsh : ShLaws sh) (call : HaCall) {k : ShellCmd}
    (hk : k ∈ commands (callTrace shell s call)) : k.Runs sh :=
  (hs.meant call hk).runs hsh (call_commands_fit hs.nulFree hs.short call k hk)

/-- The paths of the disks that the calls register are plain words, and short. -/
def PlainOp : HaOp → Prop
  | .addAgent _ _ d _ _ => PlainWord d.toList ∧ d.utf8ByteSize ≤ 158
  | .mountDisk _ _ | .unmountDisk _ => True

theorem PlainHa.step {op : HaOp} (h : PlainHa s) (hop : PlainOp op) (hs : haStep shell s op = some s') :
    PlainHa s' := by
  cases op with
  | addAgent n r d ok m =>
    have hadd := haStep_addAgent hs
    have hghost : s'.ghostImage = s.ghostImage := by
      have hret : addAgent n r d ok m s = .ok s' := toOption_eq_some.1 hs
      unfold addAgent at hret
      dsimp only at hret
      split at hret
      · rw [← Except.ok.inj hret]
        rfl
      · cases hret
    have hdisk : ∀ k ha, s'.agents k = some ha → PlainWord ha.diskPath.toList ∧ ha.diskPath.utf8ByteSize ≤ 158 := by
      intro k ha hk
      rcases hadd.agents_cases hk with ⟨-, rfl⟩ | ⟨-, hk⟩
      · exact hop
      · exact ⟨h.disk k ha hk, h.short.disk k ha hk⟩
    exact ⟨hadd.baseMountpoint ▸ h.base, hghost ▸ h.ghost, fun k ha hk => (hdisk k ha hk).1,
      hadd.baseMountpoint ▸ h.short.base, hghost ▸ h.short.ghost, fun k ha hk => (hdisk k ha hk).2⟩
  | mountDisk n env =>
    obtain ⟨ha, i, s₁, hm⟩ := haStep_mountDisk hs
    have hkept := hm.path.kept
    have hbase : s'.baseMountpoint = s.baseMountpoint := by
      rw [hm.state]
      exact hkept.baseMountpoint
    have hghost : s'.ghostImage = s.ghostImage := by
      rw [hm.state]
      exact hkept.ghostImage
    have hdisk : ∀ k ha', s'.agents k = some ha' → ∃ n ha, s.agents n = some ha ∧ ha.diskPath = ha'.diskPath := by
      intro k ha' hk
      rcases hm.agents_cases hk with ⟨-, rfl⟩ | ⟨-, hk⟩
      · exact ⟨n, ha, hm.agent, rfl⟩
      · exact ⟨k, ha', hk, rfl⟩
    refine ⟨hbase ▸ h.base, hghost ▸ h.ghost, fun k ha' hk => ?_, hbase ▸ h.short.base, hghost ▸ h.short.ghost,
      fun k ha' hk => ?_⟩ <;> obtain ⟨n, ha, hn, hpath⟩ := hdisk k ha' hk <;> rw [← hpath]
    · exact h.disk n ha hn
    · exact h.short.disk n ha hn
  | unmountDisk n =>
    obtain ⟨ha, i, v, hu⟩ := haStep_unmountDisk hs
    refine ⟨hu.kept.baseMountpoint ▸ h.base, hu.kept.ghostImage ▸ h.ghost, ?_,
      hu.kept.baseMountpoint ▸ h.short.base, hu.kept.ghostImage ▸ h.short.ghost, ?_⟩ <;> rw [hu.kept.agents]
    · exact h.disk
    · exact h.short.disk

/-- **All commands of a run are run as they are meant**: those in the log, and those of any call after it. -/
theorem run_commands_run (sh : List Char → List (List Word)) (hsh : ShLaws sh) (shell : Shell δ)
    (base ghostImage : String) (clock : Slot → Timeval) (g : Globals) (guests : String → Guest) (host : δ)
    (ops : List HaOp) (s : HaState δ) (hbase : Plain base ∧ base.utf8ByteSize ≤ 69)
    (hghost : Plain ghostImage ∧ ghostImage.utf8ByteSize ≤ 78) (hops : ∀ op ∈ ops, PlainOp op)
    (hrun : Run (stepOf (haStep shell)) (HaState.init base ghostImage clock g guests host) ops s) :
    (∀ k ∈ commands s.log, k.Runs sh) ∧ ∀ call, ∀ k ∈ commands (callTrace shell s call), k.Runs sh := by
  have hnone : ∀ {n ha}, (HaState.init base ghostImage clock g guests host).agents n ≠ some ha := nofun
  have hinit : PlainHa (HaState.init base ghostImage clock g guests host) :=
    ⟨hbase.1, hghost.1, fun n ha hn => absurd hn hnone, hbase.2, hghost.2, fun n ha hn => absurd hn hnone⟩
  have hboth : PlainHa s ∧ ∀ k ∈ commands s.log, k.Runs sh := by
    refine Run.invariant_under (I := fun _ s => PlainHa s ∧ ∀ k ∈ commands s.log, k.Runs sh)
      (D := fun _ op => PlainOp op) ⟨hinit, fun k hk => by cases hk⟩ ?_ (fun p op hp => hops op (hp.subset (by simp)))
      hrun
    rintro ops s op s' ⟨hplain, hlog⟩ hop hs
    refine ⟨hplain.step hop hs, fun k hk => ?_⟩
    rw [callResult_log (callResult_of_step hs), commands_append] at hk
    rcases List.mem_append.1 hk with hk | hk
    · exact hlog k hk
    · exact hplain.call hsh (.op op) hk
  exact ⟨hboth.2, fun call k hk => hboth.1.call hsh call hk⟩

theorem run_commands_run_two : ∃ s, Run (stepOf (haStep idleShell)) (.small ()) twoAgents s ∧
    (∀ k ∈ commands s.log, k.Runs plainSh) ∧
      ∀ call, ∀ k ∈ commands (callTrace idleShell s call), k.Runs plainSh := by
  obtain ⟨s, hrun⟩ := exists_run (show (exec (haStep idleShell) (.small ()) twoAgents).isSome = true by decide)
  refine ⟨s, hrun, run_commands_run plainSh plainSh_laws idleShell "/mnt/" "/ghost.img" _ _ _ _ twoAgents s (by decide)
    (by decide) (fun op hop => ?_) hrun⟩
  simp only [twoAgents, List.mem_cons, List.not_mem_nil, or_false] at hop
  rcases hop with rfl | rfl | rfl | rfl | rfl | rfl
  · show PlainWord "disk-a".toList ∧ _
    decide
  · show PlainWord "disk-b".toList ∧ _
    decide
  all_goals trivial

end

end Hyperagents
