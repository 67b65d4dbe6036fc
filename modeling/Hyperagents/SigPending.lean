import Hyperagents.PyvmiRw
import Hyperagents.Rings
/-!
# Setting a pending signal

`set_sigpending` in `7.py` sets the pending signals of a task, and then those of the entries of its pending list: a
`while True` that works on `next_list_entry` and leaves where that is the first entry again.  But nothing moves it on,
so it leaves after the first entry, and the others are as they were (`sets_all_iff`).
-/
namespace Hyperagents

open ByteMemory Loops Rings

section

variable (vmi : PyvmiRw) (cfg : Cfg)

/-- A call of the inner block fails: a `ValueError` is printed and ends the loop, any other error the function. -/
def sigFailed (e : PyError) (newSigpending : Int) (m : Memory) :
    Turn (Except PyError Int × Memory) (Memory × Int × Int) :=
  if e = .valueError then .leave (.ok newSigpending, m) else .leave (.error e, m)

/-- One turn of the loop, with the memory, `next_list_entry` and `new_sigpending`. -/
def sigTurn (listHead sig : Int) (w : Memory × Int × Int) : Turn (Except PyError Int × Memory) (Memory × Int × Int) :=
  let (m, nextListEntry, newSigpending) := w
  let va := nextListEntry + cfg "u_sigpending_signal_offset"
  match vmi.readAddrVa m va 0 with
  | .error e => sigFailed e newSigpending m
  | .ok _ =>
    match vmi.write64Va m va 0 sig with
    | .error e => sigFailed e newSigpending m
    | .ok m =>
      match vmi.readAddrVa m va 0 with
      | .error e => sigFailed e newSigpending m
      | .ok newSigpending =>
        if listHead = nextListEntry then .leave (.ok newSigpending, m) else .again (m, nextListEntry, newSigpending)

def sigpendingVa (taskStruct : Int) : Int := taskStruct + cfg "u_task_struct_sigpending_offset"

/-- What `set_sigpending` returns and the memory after it, if its loop leaves within so many turns.  Every error ends in
the last handler. -/
def setSigpending (taskStruct sig : Int) (turns : Nat) (m : Memory) : Option ((Option Int × Int) × Memory) :=
  let signalVa := sigpendingVa cfg taskStruct + cfg "u_sigpending_signal_offset"
  match vmi.readAddrVa m signalVa 0 with
  | .error _ => some ((none, -1), m)
  | .ok originalSigpending =>
    match vmi.write64Va m signalVa 0 sig with
    | .error _ => some ((some originalSigpending, -1), m)
    | .ok m =>
      match vmi.readAddrVa m signalVa 0 with
      | .error _ => some ((some originalSigpending, -1), m)
      | .ok newSigpending =>
        match vmi.readAddrVa m (sigpendingVa cfg taskStruct) 0 with
        | .error _ => some ((some originalSigpending, -1), m)
        | .ok listHead =>
          (run (sigTurn vmi cfg listHead sig) turns (m, listHead, newSigpending)).map fun r =>
            match r with
            | (.ok newSigpending, m) => ((some originalSigpending, newSigpending), m)
            | (.error _, m) => ((some originalSigpending, -1), m)

end

/-! ## The pending list -/

/-- Where the signal of a node of the list is: of the task itself, or of an entry. -/
def nodeSignal (cfg : Cfg) (node : Int) : Int := node + cfg "u_sigpending_signal_offset"

/-- The entries `first` and `rest` are linked in a ring, through the task's list head or back to the first one, and the
signals lie apart from the links. -/
structure PendingList (m : Memory) (cfg : Cfg) (taskStruct first : Int) (rest : List Int) : Prop where
  head : (word m (sigpendingVa cfg taskStruct) : Int) = first
  ring : ∃ back ∈ [sigpendingVa cfg taskStruct, first], Path (fun a => some (word m a : Int)) back first rest
  apart : ∀ e ∈ first :: rest, ∀ link ∈ sigpendingVa cfg taskStruct :: first :: rest, Apart (nodeSignal cfg e) link

/-- `x` is a byte of the signal of one of the nodes. -/
def InSignals (cfg : Cfg) (nodes : List Int) (x : Int) : Prop :=
  ∃ node ∈ nodes, nodeSignal cfg node ≤ x ∧ x < nodeSignal cfg node + 8

/-- `set_sigpending` returns, with the signal set for the task and every entry and nothing else changed. -/
def SetsAll (vmi : PyvmiRw) (cfg : Cfg) (taskStruct : Int) (sig : Nat) (entries : List Int) (m : Memory) : Prop :=
  ∃ ret m' enough, (∀ turns, enough ≤ turns → setSigpending vmi cfg taskStruct sig turns m = some (ret, m')) ∧
    (∀ node ∈ sigpendingVa cfg taskStruct :: entries, word m' (nodeSignal cfg node) = sig) ∧
      ∀ x, ¬ InSignals cfg (sigpendingVa cfg taskStruct :: entries) x → m' x = m x

/-- What the signals of the task and of the first entry put at an address. -/
def sent (cfg : Cfg) (taskStruct first : Int) (sig : Nat) (x : Int) : Option UInt8 :=
  (cover (nodeSignal cfg first) (toBytes 8 sig) x).or
    (cover (nodeSignal cfg (sigpendingVa cfg taskStruct)) (toBytes 8 sig) x)

/-- The signal of a node is `sig` already, but for bytes it shares with those of the task and of the first entry; and
these are the same. -/
def SentAlready (m : Memory) (cfg : Cfg) (taskStruct first : Int) (sig : Nat) (node : Int) : Prop :=
  bytesAt (fun x => (sent cfg taskStruct first sig x).getD (m x)) (nodeSignal cfg node) 8 = toBytes 8 sig

/-- No two of the signals have a byte in common. -/
def SignalsApart (cfg : Cfg) (nodes : List Int) : Prop :=
  nodes.Pairwise fun a b => Apart (nodeSignal cfg a) (nodeSignal cfg b)

variable {vmi : PyvmiRw} {m : Memory} {cfg : Cfg} {taskStruct first : Int} {rest : List Int} {sig : Nat}

def setSignal (cfg : Cfg) (sig : Nat) (node : Int) (m : Memory) : Memory :=
  write m (nodeSignal cfg node) (toBytes 8 sig)

theorem word_setSignal_self (hsig : sig < 256 ^ 8) (node : Int) (m : Memory) :
    word (setSignal cfg sig node m) (nodeSignal cfg node) = sig := word_write_toBytes hsig

theorem word_setSignal_apart {node a : Int} (h : Apart (nodeSignal cfg node) a) :
    word (setSignal cfg sig node m) a = word m a := word_write_apart h (length_toBytes 8 sig)

theorem setSignal_calls (hw : vmi.Works) (hsig : sig < 256 ^ 8) (cfg : Cfg) (node : Int) (m : Memory) :
    vmi.write64Va m (node + cfg "u_sigpending_signal_offset") 0 sig = .ok (setSignal cfg sig node m) ∧
      vmi.readAddrVa (setSignal cfg sig node m) (node + cfg "u_sigpending_signal_offset") 0 = .ok sig := by
  refine ⟨hw.write64 m _ sig hsig, (hw.readAddr _ _).trans ?_⟩
  exact congrArg (fun w : Nat => Except.ok (w : Int)) (word_setSignal_self hsig node m)

/-- The loop leaves in its first turn, where `next_list_entry` is the first entry still. -/
theorem sigTurn_first (hw : vmi.Works) (hsig : sig < 256 ^ 8) (m : Memory) (new : Int) :
    sigTurn vmi cfg first sig (m, first, new) = .leave (.ok sig, setSignal cfg sig first m) := by
  obtain ⟨hwrite, hread⟩ := setSignal_calls hw hsig cfg first m
  unfold sigTurn
  dsimp only
  rw [hw.readAddr, hwrite]
  dsimp only
  rw [hread]
  exact if_pos rfl

/-- The link of the list head is apart from the task's own signal, as an entry's is from the entry's. -/
theorem PendingList.head_apart (h : PendingList m cfg taskStruct first rest) :
    Apart (nodeSignal cfg (sigpendingVa cfg taskStruct)) (sigpendingVa cfg taskStruct) := by
  have hown := h.apart first List.mem_cons_self first (List.mem_cons_of_mem _ List.mem_cons_self)
  unfold Apart nodeSignal at hown ⊢
  omega

/-- **What `set_sigpending` does**: it sets the task's signal and that of the first entry. -/
theorem setSigpending_eq (hw : vmi.Works) (hsig : sig < 256 ^ 8) (h : PendingList m cfg taskStruct first rest) :
    ∃ ret, ∀ turns, 1 ≤ turns → setSigpending vmi cfg taskStruct sig turns m =
      some (ret, setSignal cfg sig first (setSignal cfg sig (sigpendingVa cfg taskStruct) m)) := by
  obtain ⟨hwrite, hread⟩ := setSignal_calls hw hsig cfg (sigpendingVa cfg taskStruct) m
  have hhead := hw.readAddr (setSignal cfg sig (sigpendingVa cfg taskStruct) m) (sigpendingVa cfg taskStruct)
  rw [word_setSignal_apart h.head_apart, h.head] at hhead
  refine ⟨(some (word m (nodeSignal cfg (sigpendingVa cfg taskStruct))), sig), fun turns hturns => ?_⟩
  obtain ⟨n, rfl⟩ := Nat.exists_eq_add_of_le' hturns
  unfold setSigpending
  dsimp only
  rw [hw.readAddr, hwrite]
  dsimp only
  rw [hread]
  dsimp only
  rw [hhead]
  dsimp only
  rw [run_leave (sigTurn_first hw hsig _ _)]
  rfl

/-! ## Which signals are set -/

theorem setSignal_sent : setSignal cfg sig first (setSignal cfg sig (sigpendingVa cfg taskStruct) m) =
    fun x => (sent cfg taskStruct first sig x).getD (m x) := by
  funext x
  unfold setSignal sent write
  cases cover (nodeSignal cfg first) (toBytes 8 sig) x <;> rfl

theorem sentAlready_iff (hsig : sig < 256 ^ 8) (node : Int) : SentAlready m cfg taskStruct first sig node ↔
    word (setSignal cfg sig first (setSignal cfg sig (sigpendingVa cfg taskStruct) m)) (nodeSignal cfg node) = sig := by
  rw [word_eq_iff hsig, setSignal_sent]
  rfl

theorem setSignal_outside {nodes : List Int} {node x : Int} (hnode : node ∈ nodes) (hx : ¬ InSignals cfg nodes x) :
    setSignal cfg sig node m x = m x := by
  apply write_outside
  rw [length_toBytes]
  by_contra hin
  exact hx ⟨node, hnode, by omega, by omega⟩

theorem SetsAll.sentAlready {entries : List Int} (hall : SetsAll vmi cfg taskStruct sig entries m) (hw : vmi.Works)
    (hsig : sig < 256 ^ 8) (h : PendingList m cfg taskStruct first rest) {node : Int}
    (hnode : node ∈ sigpendingVa cfg taskStruct :: entries) : SentAlready m cfg taskStruct first sig node := by
  obtain ⟨ret, m', enough, hret, hset, -⟩ := hall
  obtain ⟨ret', hret'⟩ := setSigpending_eq hw hsig h
  cases (hret _ (Nat.le_max_left enough 1)).symm.trans (hret' _ (Nat.le_max_right enough 1))
  exact (sentAlready_iff hsig node).2 (hset node hnode)

theorem sets_all_iff_sent (hw : vmi.Works) (hsig : sig < 256 ^ 8) (h : PendingList m cfg taskStruct first rest) :
    SetsAll vmi cfg taskStruct sig (first :: rest) m ↔
      ∀ node ∈ sigpendingVa cfg taskStruct :: rest, SentAlready m cfg taskStruct first sig node := by
  constructor
  · intro hall node hnode
    apply hall.sentAlready hw hsig h
    rcases List.mem_cons.1 hnode with rfl | hnode
    · exact List.mem_cons_self
    · exact List.mem_cons_of_mem _ (List.mem_cons_of_mem _ hnode)
  · intro hall
    obtain ⟨ret, hret⟩ := setSigpending_eq hw hsig h
    refine ⟨ret, _, 1, hret, fun node hnode => ?_, fun x hx => ?_⟩
    · rcases List.mem_cons.1 hnode with rfl | hnode
      · exact (sentAlready_iff hsig _).1 (hall _ List.mem_cons_self)
      · rcases List.mem_cons.1 hnode with rfl | hnode
        · exact word_setSignal_self hsig _ _
        · exact (sentAlready_iff hsig node).1 (hall node (List.mem_cons_of_mem _ hnode))
    · rw [setSignal_outside (List.mem_cons_of_mem _ List.mem_cons_self) hx, setSignal_outside List.mem_cons_self hx]

theorem sentAlready_apart (hsig : sig < 256 ^ 8) {node : Int}
    (htask : Apart (nodeSignal cfg (sigpendingVa cfg taskStruct)) (nodeSignal cfg node))
    (hfirst : Apart (nodeSignal cfg first) (nodeSignal cfg node)) :
    SentAlready m cfg taskStruct first sig node ↔ word m (nodeSignal cfg node) = sig := by
  rw [sentAlready_iff hsig, word_setSignal_apart hfirst, word_setSignal_apart htask]

/-- **`set_sigpending` sets all signals exactly where those of the later entries are set already**: byte by byte where
the signals overlap, and otherwise word by word. -/
theorem sets_all_iff (vmi : PyvmiRw) (cfg : Cfg) (taskStruct first : Int) (rest : List Int) (sig : Nat) (m : Memory)
    (hw : vmi.Works) (hsig : sig < 256 ^ 8) (h : PendingList m cfg taskStruct first rest) :
    (SetsAll vmi cfg taskStruct sig (first :: rest) m ↔
      ∀ node ∈ sigpendingVa cfg taskStruct :: rest, SentAlready m cfg taskStruct first sig node) ∧
        (SignalsApart cfg (sigpendingVa cfg taskStruct :: first :: rest) →
          (SetsAll vmi cfg taskStruct sig (first :: rest) m ↔ ∀ e ∈ rest, word m (nodeSignal cfg e) = sig)) := by
  refine ⟨sets_all_iff_sent hw hsig h, fun hapart => ?_⟩
  obtain ⟨htask, hfirst⟩ := List.pairwise_cons.1 hapart
  obtain ⟨hfirst, -⟩ := List.pairwise_cons.1 hfirst
  have hown : SentAlready m cfg taskStruct first sig (sigpendingVa cfg taskStruct) := by
    rw [sentAlready_iff hsig, word_setSignal_apart (htask first List.mem_cons_self).symm]
    exact word_setSignal_self hsig _ _
  have hrest : ∀ e ∈ rest, SentAlready m cfg taskStruct first sig e ↔ word m (nodeSignal cfg e) = sig :=
    fun e he => sentAlready_apart hsig (htask e (List.mem_cons_of_mem _ he)) (hfirst e he)
  rw [sets_all_iff_sent hw hsig h, List.forall_mem_cons]
  constructor
  · exact fun hall e he => (hrest e he).1 (hall.2 e he)
  · exact fun hall => ⟨hown, fun e he => (hrest e he).2 (hall e he)⟩

/-! ## Two entries -/

/-- A task at 0 with two pending entries, at 64 and 128; no signal is set. -/
def twoPending : Memory := fun x => if x = 16 then 64 else if x = 64 then 128 else if x = 128 then 16 else 0

def pendingCfg : Cfg := fun _ => 16

def allGuest : PyvmiRw := byteGuest (fun _ => true) fun _ => true

theorem twoPending_list : PendingList twoPending pendingCfg 0 64 [128] :=
  ⟨by decide, ⟨16, by decide, by decide, show some (word twoPending 128 : Int) = some 16 by decide⟩, by decide⟩

theorem sets_all_iff_two : (SetsAll allGuest pendingCfg 0 9 [64, 128] twoPending ↔
    ∀ node ∈ sigpendingVa pendingCfg 0 :: [128], SentAlready twoPending pendingCfg 0 64 9 node) ∧
      (SignalsApart pendingCfg (sigpendingVa pendingCfg 0 :: 64 :: [128]) →
        (SetsAll allGuest pendingCfg 0 9 [64, 128] twoPending ↔
          ∀ e ∈ [(128 : Int)], word twoPending (nodeSignal pendingCfg e) = (9 : Nat))) :=
  sets_all_iff allGuest pendingCfg 0 64 [128] 9 twoPending byteGuest_works (by decide) twoPending_list

theorem second_pending_left : PendingList twoPending pendingCfg 0 64 [128] ∧
    ¬ SetsAll allGuest pendingCfg 0 9 [64, 128] twoPending := by
  refine ⟨twoPending_list, fun hall => ?_⟩
  have hsent := hall.sentAlready byteGuest_works (by decide) twoPending_list (show 128 ∈ _ by decide)
  have hsecond := (sentAlready_apart (by decide) (by decide) (by decide)).1 hsent
  exact absurd hsecond (by decide)

end Hyperagents
