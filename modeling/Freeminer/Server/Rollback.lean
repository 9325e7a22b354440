import Freeminer.Inventory.InventoryLocation
import Freeminer.Lib.Intern

/-! `RollbackManager` (`rollback.cpp`): recorded actions, their rows in the database, and the
actions that are read back to be reverted. -/

namespace Freeminer.Server

open Lib Database Inventory

/-- `c_str`: what stands before the first zero byte. -/
def cstr (s : ByteString) : ByteString := (cut 0 s).1

structure RollbackNode where
  name : ByteString := []
  param1 : ℤ := 0
  param2 : ℤ := 0
  metadata : ByteString := []
  deriving DecidableEq

inductive Change (w : PosWidth) where
  | setNode (p : V3Pos w) (n_old n_new : RollbackNode)
  | modifyInventoryStack (inventory_location inventory_list : ByteString)
      (inventory_index : UInt32) (inventory_add : Bool) (inventory_stack : ItemStack)
  deriving DecidableEq

structure RollbackAction (w : PosWidth) where
  unix_time : ℤ := 0
  actor : ByteString
  actor_is_guess : Bool := false
  change : Change w
  deriving DecidableEq

/-- The fields of `ActionRow` that a type of action has. -/
inductive RowChange where
  | setNode (x y z : ℤ) (oldNode : ℕ) (oldParam1 oldParam2 : ℤ) (oldMeta : ByteString)
      (newNode : ℕ) (newParam1 newParam2 : ℤ) (newMeta : ByteString) (guessed : Bool)
  | modifyInventoryStack (location list : ByteString) (index : Int32) (add : Bool)
      (stack : ItemStack) (id : ℕ)

structure ActionRow where
  actor : ℕ
  timestamp : ℤ
  change : RowChange

inductive ActionType where
  | setNode
  | modifyInventoryStack
  deriving DecidableEq

/-- A row of the table `action`, where a column may be null; its `id` is its place. -/
structure Columns where
  actor : ℕ
  timestamp : ℤ
  type : ActionType
  list : Option ByteString := none
  index : Option Int32 := none
  add : Option Bool := none
  stackNode : Option ℕ := none
  stackQuantity : Option ℕ := none
  nodeMeta : Option Bool := none
  x : Option ℤ := none
  y : Option ℤ := none
  z : Option ℤ := none
  oldNode : Option ℕ := none
  oldParam1 : Option ℤ := none
  oldParam2 : Option ℤ := none
  oldMeta : Option ByteString := none
  newNode : Option ℕ := none
  newParam1 : Option ℤ := none
  newParam2 : Option ℤ := none
  newMeta : Option ByteString := none
  guessedActor : Option Bool := none

/-- The three texts that `registerRow` takes for the coordinates of a location. Where a comma is
missing, a position of a text begins anew at its start. -/
def locationCoordinates (loc : ByteString) : ByteString × ByteString × ByteString :=
  match cut 44 ((cut 58 loc).2.getD loc) with
  | (x, none) => (x, loc, loc)
  | (x, some rest) =>
    match cut 44 rest with
    | (y, none) => (x, y, loc)
    | (y, some z) => (x, y, z)

/-- What `registerRow` binds to the columns. -/
def registerRow (row : ActionRow) : Columns :=
  match row.change with
  | .modifyInventoryStack location list index add stack id =>
    let nodeMeta := location.take 9 = bytes "nodemeta:"
    let coordinates := locationCoordinates location
    { actor := row.actor, timestamp := row.timestamp, type := .modifyInventoryStack
      list := some list, index := some index, add := some add, stackNode := some id
      stackQuantity := some stack.count.toNat, nodeMeta := some nodeMeta
      x := if nodeMeta then some (stoi coordinates.1) else none
      y := if nodeMeta then some (stoi coordinates.2.1) else none
      z := if nodeMeta then some (stoi coordinates.2.2) else none }
  | .setNode x y z oldNode oldParam1 oldParam2 oldMeta newNode newParam1 newParam2 newMeta
      guessed =>
    { actor := row.actor, timestamp := row.timestamp, type := .setNode
      x := some x, y := some y, z := some z
      oldNode := some oldNode, oldParam1 := some oldParam1, oldParam2 := some oldParam2
      oldMeta := some oldMeta, newNode := some newNode, newParam1 := some newParam1
      newParam2 := some newParam2, newMeta := some newMeta, guessedActor := some guessed }

/-- `itos`, whose argument is unsigned. -/
def itos (n : ℤ) : ByteString := decimal (n % 2 ^ 32).toNat

/-- `getActorName` and `getNodeName`, which answer with a C string. -/
def entityName (known : Interned ByteString) (id : ℕ) : ByteString :=
  cstr ((known.name? id).getD [])

/-- One step of `actionRowsFromSelect`: a null column reads as zero or as no text. -/
def actionRowFromSelect (actors : Interned ByteString) (c : Columns) : ActionRow :=
  { actor := c.actor
    timestamp := c.timestamp
    change :=
      match c.type with
      | .modifyInventoryStack =>
        let location :=
          if c.nodeMeta.getD false then
            bytes "nodemeta:" ++
              (itos (c.x.getD 0) ++ 44 :: (itos (c.y.getD 0) ++ 44 :: itos (c.z.getD 0)))
          else entityName actors c.actor
        .modifyInventoryStack location (c.list.getD []) (c.index.getD 0) (c.add.getD false)
          { count := UInt16.ofNat (c.stackQuantity.getD 0) } (c.stackNode.getD 0)
      | .setNode =>
        .setNode (c.x.getD 0) (c.y.getD 0) (c.z.getD 0)
          (c.oldNode.getD 0) (c.oldParam1.getD 0) (c.oldParam2.getD 0) (c.oldMeta.getD [])
          (c.newNode.getD 0) (c.newParam1.getD 0) (c.newParam2.getD 0) (c.newMeta.getD [])
          (c.guessedActor.getD false) }

/-- One step of `rollbackActionsFromActionRows`, which does not take the guess over. -/
def rollbackActionFromActionRow (w : PosWidth) (actors nodes : Interned ByteString)
    (row : ActionRow) : RollbackAction w :=
  { unix_time := row.timestamp
    actor := if row.actor ≠ 0 then entityName actors row.actor else []
    change :=
      match row.change with
      | .modifyInventoryStack location list index add stack id =>
        let name := if stack.name = [] then entityName nodes id else stack.name
        .modifyInventoryStack location list index.toUInt32 add { stack with name }
      | .setNode x y z oldNode oldParam1 oldParam2 oldMeta newNode newParam1 newParam2 newMeta _ =>
        .setNode (V3Pos.narrow w x y z)
          ⟨entityName nodes oldNode, oldParam1, oldParam2, oldMeta⟩
          ⟨entityName nodes newNode, newParam1, newParam2, newMeta⟩ }

structure RollbackManager (w : PosWidth) where
  knownActors : Interned ByteString := {}
  knownNodes : Interned ByteString := {}
  action : List Columns := []
  action_todisk_buffer : List (RollbackAction w) := []

namespace RollbackManager

variable {w : PosWidth}

def getActorId (s : RollbackManager w) (name : ByteString) : ℕ × RollbackManager w :=
  let (id, knownActors) := s.knownActors.intern name
  (id, { s with knownActors })

def getNodeId (s : RollbackManager w) (name : ByteString) : ℕ × RollbackManager w :=
  let (id, knownNodes) := s.knownNodes.intern name
  (id, { s with knownNodes })

def actionRowFromRollbackAction (s : RollbackManager w) (action : RollbackAction w) :
    ActionRow × RollbackManager w :=
  let (actor, s) := s.getActorId action.actor
  let (change, s) : RowChange × RollbackManager w :=
    match action.change with
    | .modifyInventoryStack location list index add stack =>
      let (id, s) := s.getNodeId stack.name
      (.modifyInventoryStack location list index.toInt32 add stack id, s)
    | .setNode p n_old n_new =>
      let (oldNode, s) := s.getNodeId n_old.name
      let (newNode, s) := s.getNodeId n_new.name
      (.setNode p.1.X p.1.Y p.1.Z oldNode n_old.param1 n_old.param2 n_old.metadata
        newNode n_new.param1 n_new.param2 n_new.metadata action.actor_is_guess, s)
  ({ actor, timestamp := action.unix_time, change }, s)

/-- `flush` of one action: one without an actor is left out. -/
def flushAction (s : RollbackManager w) (action : RollbackAction w) : RollbackManager w :=
  if action.actor = [] then s
  else
    let (row, s) := s.actionRowFromRollbackAction action
    { s with action := s.action ++ [registerRow row] }

def flush (s : RollbackManager w) : RollbackManager w :=
  { s.action_todisk_buffer.foldl flushAction s with action_todisk_buffer := [] }

def addAction (s : RollbackManager w) (action : RollbackAction w) : RollbackManager w :=
  let s := { s with action_todisk_buffer := s.action_todisk_buffer ++ [action] }
  if s.action_todisk_buffer.length ≥ 500 then s.flush else s

/-- `ORDER BY timestamp DESC, id DESC`, of rows with their ids. -/
def newestFirst {α : Type*} (timestamp : α → ℤ) (x y : α × ℕ) : Bool :=
  decide (timestamp y.1 < timestamp x.1 ∨ timestamp x.1 = timestamp y.1 ∧ y.2 ≤ x.2)

/-- `getRowsSince`: an empty actor selects the rows of all. -/
def getRowsSince (s : RollbackManager w) (firstTime : ℤ) (actor : ByteString) :
    List Columns × RollbackManager w :=
  let (id, s) : Option ℕ × RollbackManager w :=
    if actor = [] then (none, s)
    else
      let (id, s) := s.getActorId actor
      (some id, s)
  let selected := s.action.zipIdx.filter fun c =>
    decide (firstTime ≤ c.1.timestamp) && id.all fun id => c.1.actor == id
  ((selected.mergeSort (newestFirst Columns.timestamp)).map Prod.fst, s)

def getActionsSince (s : RollbackManager w) (firstTime : ℤ) (actor : ByteString) :
    List (RollbackAction w) × RollbackManager w :=
  let (rows, s) := s.getRowsSince firstTime actor
  let rows := rows.map (actionRowFromSelect s.knownActors)
  (rows.map (rollbackActionFromActionRow w s.knownActors s.knownNodes), s)

def getRevertActions (s : RollbackManager w) (actor_filter : ByteString) (cur_time seconds : ℤ) :
    List (RollbackAction w) × RollbackManager w :=
  s.flush.getActionsSince (cur_time - seconds) actor_filter

end RollbackManager

/-! ## What is recorded, and what a revert uses -/

/-- A change as it is reported: inventory locations are written by `InventoryLocation`. -/
inductive Reported (w : PosWidth) where
  | node (p : V3Pos w) (n_old n_new : RollbackNode)
  | stack (loc : InventoryLocation w) (list : ByteString) (index : UInt32) (add : Bool)
      (items : ItemStack)
  deriving DecidableEq

structure Report (w : PosWidth) where
  unix_time : ℤ
  actor : ByteString
  actor_is_guess : Bool := false
  what : Reported w

variable {w : PosWidth}

/-- `setSetNode` and `setModifyInventoryStack` -/
def Reported.change : Reported w → Change w
  | node p n_old n_new => .setNode p n_old n_new
  | stack loc list index add items => .modifyInventoryStack loc.serialize list index add items

def Report.action (r : Report w) : RollbackAction w :=
  { unix_time := r.unix_time, actor := r.actor, actor_is_guess := r.actor_is_guess
    change := r.what.change }

/-- What `applyRevert` uses of an action. -/
def RollbackAction.used (a : RollbackAction w) : Reported w :=
  match a.change with
  | .setNode p n_old n_new => .node p n_old n_new
  | .modifyInventoryStack location list index add stack =>
    .stack (InventoryLocation.deSerialize w location) list index add stack

inductive RollbackOp (w : PosWidth) where
  | addAction (r : Report w)
  | flush
  | getRevertActions (actor_filter : ByteString) (cur_time seconds : ℤ)

def RollbackManager.step (s : RollbackManager w) : RollbackOp w → RollbackManager w
  | .addAction r => s.addAction r.action
  | .flush => s.flush
  | .getRevertActions actor_filter cur_time seconds =>
    (s.getRevertActions actor_filter cur_time seconds).2

def RollbackManager.run (ops : List (RollbackOp w)) : RollbackManager w :=
  ops.foldl step {}

def recorded (ops : List (RollbackOp w)) : List (Report w) :=
  ops.flatMap fun op =>
    match op with
    | .addAction r => if r.actor = [] then [] else [r]
    | _ => []

/-- The recorded actions of an actor, or of all, since a time, with the newest first. -/
def revertible (reports : List (Report w)) (actor_filter : ByteString) (firstTime : ℤ) :
    List (Report w) :=
  let selected := reports.zipIdx.filter fun r =>
    decide (firstTime ≤ r.1.unix_time) && decide (actor_filter = [] ∨ r.1.actor = actor_filter)
  (selected.mergeSort (RollbackManager.newestFirst Report.unix_time)).map Prod.fst

/-- Whether a row of the database keeps what a revert uses of an action: no name has a zero byte,
a stack has neither wear nor metadata, and an inventory is that of a node or the one that the name
of the actor means. -/
def Report.Kept (r : Report w) : Prop :=
  match r.what with
  | .node _ n_old n_new => 0 ∉ n_old.name ∧ 0 ∉ n_new.name
  | .stack loc _ _ _ items => 0 ∉ items.name ∧ items.wear = 0 ∧ items.metadata = ∅ ∧
      ((∃ p, loc = .nodemeta p) ∨ InventoryLocation.deSerialize w (cstr r.actor) =
        InventoryLocation.deSerialize w loc.serialize)

/-! What comes back from the rollback log: the rows of the database stand for the recorded actions,
and a row keeps everything a revert uses exactly where its columns have room for it. -/

variable {w : PosWidth}

theorem cstr_eq_self {s : ByteString} : cstr s = s ↔ 0 ∉ s := by
  constructor
  · intro h
    rw [← h]
    exact notMem_cut 0 s
  · intro h
    simp [cstr, cut_of_notMem h]

/-! ## Coordinates in the columns -/

theorem stoi_itos {n : ℤ} (hlo : -2 ^ 31 ≤ n) (hhi : n < 2 ^ 31) : stoi (itos n) = n := by
  have hnonneg : 0 ≤ n % 2 ^ 32 := Int.emod_nonneg _ (by norm_num)
  have hlt : n % 2 ^ 32 < 2 ^ 32 := Int.emod_lt_of_pos _ (by norm_num)
  unfold itos
  rw [stoi_decimal_bmod (by omega), Int.toNat_of_nonneg hnonneg]
  have hmod : (n % 2 ^ 32).bmod (2 ^ 32) = n.bmod (2 ^ 32) := Int.emod_bmod n (2 ^ 32)
  rw [hmod]
  exact Int.bmod_eq_of_le (by omega) (by omega)

/-- A text that starts otherwise is no text of a node's location. -/
theorem take_ne_nodemeta {a : UInt8} (h : a ≠ 110) (xs : ByteString) :
    (a :: xs).take 9 ≠ bytes "nodemeta:" := by
  intro heq
  have hhead := congrArg List.head? heq
  rw [show (bytes "nodemeta:").head? = some 110 by decide] at hhead
  simp [h] at hhead

/-- Only the text of a node's location starts as one. -/
theorem take_serialize_iff (loc : InventoryLocation w) :
    loc.serialize.take 9 = bytes "nodemeta:" ↔ ∃ p, loc = .nodemeta p := by
  cases loc with
  | undefined => simp [InventoryLocation.serialize]; decide
  | currentPlayer => simp [InventoryLocation.serialize]; decide
  | player name =>
    have hne := take_ne_nodemeta (show (112 : UInt8) ≠ 110 by decide)
      ((bytes "player:").tail ++ name)
    simp only [InventoryLocation.serialize, reduceCtorEq, exists_false, iff_false]
    exact hne
  | nodemeta p =>
    have hlen : 9 = (bytes "nodemeta:").length := by decide
    simp only [InventoryLocation.serialize, InventoryLocation.nodemeta.injEq, exists_eq', iff_true]
    rw [hlen, List.take_left]
  | detached name =>
    have hne := take_ne_nodemeta (show (100 : UInt8) ≠ 110 by decide)
      ((bytes "detached:").tail ++ name)
    simp only [InventoryLocation.serialize, reduceCtorEq, exists_false, iff_false]
    exact hne

theorem locationCoordinates_nodemeta (p : V3Pos w) :
    locationCoordinates (InventoryLocation.serialize (.nodemeta p)) =
      (decimalInt p.1.X, decimalInt p.1.Y, decimalInt p.1.Z) := by
  have hcomma (n : ℤ) : 44 ∉ decimalInt n := notMem_decimalInt (by decide) (by decide) n
  have hsplit : InventoryLocation.serialize (.nodemeta p) = bytes "nodemeta" ++
      58 :: (decimalInt p.1.X ++ 44 :: (decimalInt p.1.Y ++ 44 :: decimalInt p.1.Z)) := by
    unfold InventoryLocation.serialize
    simp only
    rw [show bytes "nodemeta:" = bytes "nodemeta" ++ [58] by decide, List.append_assoc,
      List.singleton_append]
  have hcolon : 58 ∉ bytes "nodemeta" := by decide
  unfold locationCoordinates
  rw [hsplit, cut_append_cons hcolon, Option.getD_some, cut_append_cons (hcomma _)]
  simp only [cut_append_cons (hcomma _)]

/-- The position read back from three columns. -/
theorem deSerialize_itos (p : V3Pos w) :
    InventoryLocation.deSerialize w
        (bytes "nodemeta:" ++ (itos p.1.X ++ 44 :: (itos p.1.Y ++ 44 :: itos p.1.Z))) =
      .nodemeta p := by
  have hnot (n : ℤ) : 44 ∉ itos n ∧ 10 ∉ itos n :=
    ⟨notMem_decimal (by decide) _, notMem_decimal (by decide) _⟩
  obtain ⟨⟨hXl, hXh⟩, ⟨hYl, hYh⟩, hZl, hZh⟩ := p.int32
  rw [deSerialize_nodemeta (hnot _) (hnot _) (hnot _), stoi_itos hXl hXh, stoi_itos hYl hYh,
    stoi_itos hZl hZh, p.narrow_self]

/-! ## One action and its row -/

def Report.back (r : Report w) : Reported w :=
  match r.what with
  | .node p n_old n_new =>
    .node p { n_old with name := cstr n_old.name } { n_new with name := cstr n_new.name }
  | .stack loc list index add items =>
    let loc :=
      match loc with
      | .nodemeta p => .nodemeta p
      | _ => InventoryLocation.deSerialize w (cstr r.actor)
    .stack loc list index add { name := cstr items.name, count := items.count }

theorem Report.back_eq_used_iff (r : Report w) : r.back = r.action.used ↔ r.Kept := by
  obtain ⟨unix_time, actor, actor_is_guess, what⟩ := r
  cases what with
  | node p n_old n_new =>
    obtain ⟨oldName, _, _, _⟩ := n_old
    obtain ⟨newName, _, _, _⟩ := n_new
    simp [back, Kept, action, Reported.change, RollbackAction.used, cstr_eq_self]
  | stack loc list index add items =>
    obtain ⟨name, count, wear, metadata⟩ := items
    have hitems : ({ name := cstr name, count } : ItemStack) = ⟨name, count, wear, metadata⟩ ↔
        0 ∉ name ∧ wear = 0 ∧ metadata = ∅ := by
      rw [ItemStack.mk.injEq, cstr_eq_self]
      simp only [true_and, eq_comm]
    cases loc with
    | nodemeta p =>
      simp [back, Kept, action, Reported.change, RollbackAction.used, hitems,
        InventoryLocation.deSerialize_serialize_nodemeta]
    | undefined | currentPlayer | player | detached =>
      simp [back, Kept, action, Reported.change, RollbackAction.used, hitems]
      tauto

/-- A row stands for a report under what is known of names, and under all that extends it. -/
structure Stored (actors nodes : Interned ByteString) (c : Columns) (r : Report w) : Prop where
  actor : actors.name? c.actor = some r.actor
  timestamp : c.timestamp = r.unix_time
  used : ∀ actors' nodes', actors.Extends actors' → nodes.Extends nodes' →
    (rollbackActionFromActionRow w actors' nodes' (actionRowFromSelect actors' c)).used = r.back

theorem Stored.extend {actors actors' nodes nodes' : Interned ByteString} {c : Columns}
    {r : Report w} (h : Stored actors nodes c r) (hactors : actors.Extends actors')
    (hnodes : nodes.Extends nodes') : Stored actors' nodes' c r :=
  ⟨hactors _ _ h.actor, h.timestamp, fun _ _ ha hn => h.used _ _ (hactors.trans ha) (hnodes.trans hn)⟩

theorem entityName_of_extends {known known' : Interned ByteString} {id : ℕ} {name : ByteString}
    (hid : known.name? id = some name) (h : known.Extends known') :
    entityName known' id = cstr name := by
  simp [entityName, h id name hid]

/-- A change of a node comes back with its names cut. -/
theorem stored_setNode {actors nodes : Interned ByteString} {actor oldNode newNode : ℕ}
    {unix_time : ℤ} {name : ByteString} {guess : Bool} {p : V3Pos w} {n_old n_new : RollbackNode}
    (hactor : actors.name? actor = some name) (hold : nodes.name? oldNode = some n_old.name)
    (hnew : nodes.name? newNode = some n_new.name) :
    Stored actors nodes
      (registerRow ⟨actor, unix_time, .setNode p.1.X p.1.Y p.1.Z oldNode n_old.param1 n_old.param2
        n_old.metadata newNode n_new.param1 n_new.param2 n_new.metadata guess⟩)
      (⟨unix_time, name, guess, .node p n_old n_new⟩ : Report w) := by
  refine ⟨hactor, rfl, ?_⟩
  intro actors' nodes' _ hnodes
  simp [registerRow, actionRowFromSelect, rollbackActionFromActionRow, RollbackAction.used,
    Report.back, entityName_of_extends hold hnodes, entityName_of_extends hnew hnodes,
    p.narrow_self]

/-- A change of an inventory comes back at the node's place or at the actor's. -/
theorem stored_modifyInventoryStack {actors nodes : Interned ByteString} {actor id : ℕ}
    {unix_time : ℤ} {name list : ByteString} {guess : Bool} {loc : InventoryLocation w}
    {index : UInt32} {add : Bool} {items : ItemStack}
    (hactor : actors.name? actor = some name) (hid : nodes.name? id = some items.name) :
    Stored actors nodes
      (registerRow ⟨actor, unix_time,
        .modifyInventoryStack loc.serialize list index.toInt32 add items id⟩)
      (⟨unix_time, name, guess, .stack loc list index add items⟩ : Report w) := by
  refine ⟨hactor, rfl, ?_⟩
  intro actors' nodes' hactors hnodes
  have hcount : UInt16.ofNat items.count.toNat = items.count := by simp
  by_cases hloc : ∃ p, loc = .nodemeta p
  · have htake := (take_serialize_iff loc).mpr hloc
    obtain ⟨p, rfl⟩ := hloc
    obtain ⟨⟨hXl, hXh⟩, ⟨hYl, hYh⟩, hZl, hZh⟩ := p.int32
    simp [registerRow, htake, actionRowFromSelect, rollbackActionFromActionRow,
      RollbackAction.used, Report.back, entityName_of_extends hid hnodes, hcount,
      locationCoordinates_nodemeta, stoi_decimalInt hXl hXh, stoi_decimalInt hYl hYh,
      stoi_decimalInt hZl hZh, deSerialize_itos]
  · have htake := mt (take_serialize_iff loc).mp hloc
    cases loc with
    | nodemeta p => exact absurd ⟨p, rfl⟩ hloc
    | undefined | currentPlayer | player | detached =>
      simp [registerRow, htake, actionRowFromSelect, rollbackActionFromActionRow,
        RollbackAction.used, Report.back, entityName_of_extends hid hnodes, hcount,
        entityName_of_extends hactor hactors]

/-! ## The log -/

/-- The rows of the log stand for these reports, in their order. -/
structure Logged (s : RollbackManager w) (reports : List (Report w)) : Prop where
  actors : s.knownActors.WellFormed
  nodes : s.knownNodes.WellFormed
  rows : List.Forall₂ (Stored s.knownActors s.knownNodes) s.action reports

def named (reports : List (Report w)) : List (Report w) :=
  reports.flatMap fun r => if r.actor = [] then [] else [r]

/-- The log and what still waits to be written are all that was recorded. -/
def Holds (s : RollbackManager w) (reports : List (Report w)) : Prop :=
  ∃ flushed buffered, Logged s flushed ∧ s.action_todisk_buffer = buffered.map Report.action ∧
    reports = flushed ++ named buffered

namespace RollbackManager

variable {s : RollbackManager w} {flushed reports : List (Report w)}

theorem logged_extend {s' : RollbackManager w} (h : Logged s flushed)
    (hactors : s'.knownActors.WellFormed) (hnodes : s'.knownNodes.WellFormed)
    (hactors' : s.knownActors.Extends s'.knownActors)
    (hnodes' : s.knownNodes.Extends s'.knownNodes) (haction : s'.action = s.action) :
    Logged s' flushed := by
  refine ⟨hactors, hnodes, ?_⟩
  rw [haction]
  exact h.rows.imp fun c r hc => hc.extend hactors' hnodes'

/-- The row of an action stands for it, and nothing known is lost. -/
theorem actionRowFromRollbackAction_spec (h : Logged s flushed) (r : Report w) :
    let x := s.actionRowFromRollbackAction r.action
    Logged x.2 flushed ∧ x.2.action = s.action ∧
      Stored x.2.knownActors x.2.knownNodes (registerRow x.1) r := by
  obtain ⟨unix_time, actor, guess, what⟩ := r
  have hactor := h.actors.name?_intern actor
  cases what with
  | node p n_old n_new =>
    have hold := h.nodes.name?_intern n_old.name
    have hnodes := (h.nodes.intern n_old.name).intern n_new.name
    have hnew := (h.nodes.intern n_old.name).name?_intern n_new.name
    have hkeep := Interned.extends_intern (s.knownNodes.intern n_old.name).2 n_new.name
    refine ⟨?_, rfl, stored_setNode hactor (hkeep _ _ hold) hnew⟩
    exact logged_extend h (h.actors.intern actor) hnodes (Interned.extends_intern _ _)
      ((Interned.extends_intern _ _).trans hkeep) rfl
  | stack loc list index add items =>
    have hid := h.nodes.name?_intern items.name
    refine ⟨?_, rfl, stored_modifyInventoryStack hactor hid⟩
    exact logged_extend h (h.actors.intern actor) (h.nodes.intern items.name)
      (Interned.extends_intern _ _) (Interned.extends_intern _ _) rfl

theorem logged_flushAction (h : Logged s flushed) (r : Report w) :
    Logged (s.flushAction r.action) (flushed ++ named [r]) := by
  by_cases hactor : r.actor = []
  · have haction : r.action.actor = [] := hactor
    simpa [named, flushAction, haction, hactor] using h
  · have haction : r.action.actor ≠ [] := hactor
    obtain ⟨hlog, hrows, hstored⟩ := actionRowFromRollbackAction_spec h r
    simp only [named, flushAction, haction, hactor, if_false, List.flatMap_cons, List.flatMap_nil,
      List.append_nil]
    refine ⟨hlog.actors, hlog.nodes, ?_⟩
    exact List.rel_append hlog.rows (List.Forall₂.cons hstored List.Forall₂.nil)

theorem logged_foldl_flushAction (h : Logged s flushed) (buffered : List (Report w)) :
    Logged ((buffered.map Report.action).foldl flushAction s) (flushed ++ named buffered) := by
  induction buffered generalizing s flushed with
  | nil => simpa [named] using h
  | cons r buffered ih =>
    have hnext := ih (logged_flushAction h r)
    have happ : flushed ++ named [r] ++ named buffered = flushed ++ named (r :: buffered) := by
      simp [named]
    rwa [happ] at hnext

/-- After a flush the log has everything that was recorded. -/
theorem logged_flush (h : Holds s reports) : Logged s.flush reports := by
  obtain ⟨flushed, buffered, hlog, hbuffer, rfl⟩ := h
  have hfold := logged_foldl_flushAction hlog buffered
  rw [← hbuffer] at hfold
  exact ⟨hfold.actors, hfold.nodes, hfold.rows⟩

theorem Logged.holds (h : Logged s reports) (hbuffer : s.action_todisk_buffer = []) :
    Holds s reports := ⟨reports, [], h, hbuffer, by simp [named]⟩

theorem holds_addAction (h : Holds s reports) (r : Report w) :
    Holds (s.addAction r.action) (reports ++ named [r]) := by
  obtain ⟨flushed, buffered, hlog, hbuffer, rfl⟩ := h
  have hadd : Holds { s with action_todisk_buffer := s.action_todisk_buffer ++ [r.action] }
      (flushed ++ named buffered ++ named [r]) := by
    refine ⟨flushed, buffered ++ [r], ⟨hlog.actors, hlog.nodes, hlog.rows⟩, ?_, ?_⟩
    · simp [hbuffer]
    · simp [named]
  unfold addAction
  simp only
  split_ifs
  · exact Logged.holds (logged_flush hadd) rfl
  · exact hadd

/-- The rows selected from the log after a flush. -/
theorem logged_getRevertActions (h : Holds s reports) (actor_filter : ByteString)
    (cur_time seconds : ℤ) :
    Logged (s.getRevertActions actor_filter cur_time seconds).2 reports := by
  have hlog := logged_flush h
  unfold getRevertActions getActionsSince getRowsSince
  by_cases hfilter : actor_filter = []
  · simpa [hfilter] using hlog
  · simp only [hfilter, if_false]
    exact logged_extend hlog (hlog.actors.intern actor_filter) hlog.nodes
      (Interned.extends_intern _ _) (Interned.Extends.refl _) rfl

theorem holds_step (h : Holds s reports) (op : RollbackOp w) :
    Holds (s.step op) (reports ++ recorded [op]) := by
  cases op with
  | addAction r => simpa [step, recorded, named] using holds_addAction h r
  | flush => simpa [step, recorded] using Logged.holds (logged_flush h) rfl
  | getRevertActions actor_filter cur_time seconds =>
    have hbuffer : (s.getRevertActions actor_filter cur_time seconds).2.action_todisk_buffer =
        [] := by
      unfold getRevertActions getActionsSince getRowsSince
      by_cases hfilter : actor_filter = [] <;> simp [hfilter, flush, getActorId]
    simpa [step, recorded] using
      Logged.holds (logged_getRevertActions h actor_filter cur_time seconds) hbuffer

theorem holds_foldl_step (h : Holds s reports) (ops : List (RollbackOp w)) :
    Holds (ops.foldl step s) (reports ++ recorded ops) := by
  induction ops generalizing s reports with
  | nil => simpa [recorded] using h
  | cons op ops ih =>
    have hnext := ih (holds_step h op)
    have happ : reports ++ recorded [op] ++ recorded ops = reports ++ recorded (op :: ops) := by
      simp [recorded]
    rwa [happ] at hnext

/-- Whatever was asked for, the log and the buffer hold all that was recorded. -/
theorem holds_run (ops : List (RollbackOp w)) : Holds (run ops) (recorded ops) := by
  have hempty : Holds ({} : RollbackManager w) [] :=
    ⟨[], [], ⟨Interned.wellFormed_empty, Interned.wellFormed_empty, List.Forall₂.nil⟩, rfl, rfl⟩
  simpa [run] using holds_foldl_step hempty ops

/-! ## Selecting -/

/-- Sorting rows and sorting the reports they stand for is one sorting. -/
theorem sorted_zip {α β : Type*} {l : List (α × β)} {time : α → ℤ} {time' : β → ℤ}
    (pred : α → Bool) (pred' : β → Bool) (htime : ∀ x ∈ l, time x.1 = time' x.2)
    (hpred : ∀ x ∈ l, pred x.1 = pred' x.2) :
    ∃ m : List ((α × β) × ℕ), (∀ x ∈ m, x.1 ∈ l) ∧
      ((((l.map Prod.fst).zipIdx.filter fun x => pred x.1).mergeSort
        (newestFirst time)).map Prod.fst = m.map fun x => x.1.1) ∧
      ((((l.map Prod.snd).zipIdx.filter fun x => pred' x.1).mergeSort
        (newestFirst time')).map Prod.fst = m.map fun x => x.1.2) := by
  have hmem : ∀ x ∈ l.zipIdx, x.1 ∈ l := fun x hx => List.fst_mem_of_mem_zipIdx hx
  have hmem' : ∀ x ∈ l.zipIdx.filter fun x => pred x.1.1, x.1 ∈ l :=
    fun x hx => hmem x (List.mem_of_mem_filter hx)
  have hfilter : (l.zipIdx.filter fun x => pred' x.1.2) = l.zipIdx.filter fun x => pred x.1.1 :=
    List.filter_congr fun x hx => (hpred x.1 (hmem x hx)).symm
  refine ⟨(l.zipIdx.filter fun x => pred x.1.1).mergeSort (newestFirst fun x => time x.1), ?_, ?_, ?_⟩
  · intro x hx
    exact hmem' x (List.mem_mergeSort.mp hx)
  · rw [List.zipIdx_map, List.filter_map]
    have hsort := List.map_mergeSort (f := Prod.map Prod.fst id)
      (r := newestFirst fun x : α × β => time x.1) (s := newestFirst time)
      (l := l.zipIdx.filter fun x => pred x.1.1) fun x _ y _ => rfl
    exact (congrArg (List.map Prod.fst) hsort.symm).trans (by simp [Function.comp_def])
  · rw [List.zipIdx_map, List.filter_map]
    have hsort := List.map_mergeSort (f := Prod.map Prod.snd id)
      (r := newestFirst fun x : α × β => time x.1) (s := newestFirst time')
      (l := l.zipIdx.filter fun x => pred x.1.1) fun x hx y hy => by
        simp [newestFirst, htime x.1 (hmem' x hx), htime y.1 (hmem' y hy)]
    have hcomp : (fun x : β × ℕ => pred' x.1) ∘ Prod.map Prod.snd id =
        fun x : (α × β) × ℕ => pred' x.1.2 := rfl
    rw [hcomp, hfilter]
    exact (congrArg (List.map Prod.fst) hsort.symm).trans (by simp [Function.comp_def])

/-- The rows that are selected stand for the reports that can be reverted, in their order. -/
theorem getRowsSince_spec (h : Logged s reports) (firstTime : ℤ) (actor : ByteString) :
    let x := s.getRowsSince firstTime actor
    List.Forall₂ (Stored x.2.knownActors x.2.knownNodes) x.1
      (revertible reports actor firstTime) := by
  obtain ⟨l, hrows, hreports, hstored⟩ : ∃ l : List (Columns × Report w),
      s.action = l.map Prod.fst ∧ reports = l.map Prod.snd ∧
        ∀ x ∈ l, Stored s.knownActors s.knownNodes x.1 x.2 := by
    have hlen := h.rows.length_eq
    refine ⟨s.action.zip reports, ?_, ?_, ?_⟩
    · exact (List.map_fst_zip hlen.le).symm
    · exact (List.map_snd_zip hlen.ge).symm
    · intro x hx
      exact (List.forall₂_iff_zip.mp h.rows).2 hx
  have htime : ∀ x ∈ l, x.1.timestamp = x.2.unix_time := fun x hx => (hstored x hx).timestamp
  unfold getRowsSince revertible
  by_cases hactor : actor = []
  · obtain ⟨m, hm, hleft, hright⟩ := sorted_zip
      (fun c : Columns => decide (firstTime ≤ c.timestamp) && (none : Option ℕ).all (c.actor == ·))
      (fun r : Report w => decide (firstTime ≤ r.unix_time) &&
        decide (actor = [] ∨ r.actor = actor)) htime
      (fun x hx => by simp [hactor, htime x hx])
    simp only [hactor, if_true, hreports] at hleft hright ⊢
    rw [hrows, hleft, hright]
    exact List.forall₂_map_left_iff.mpr (List.forall₂_map_right_iff.mpr
      (List.forall₂_same.mpr fun x hx => hstored x.1 (hm x hx)))
  · obtain ⟨m, hm, hleft, hright⟩ := sorted_zip
      (fun c : Columns => decide (firstTime ≤ c.timestamp) &&
        (some (s.knownActors.intern actor).1).all (c.actor == ·))
      (fun r : Report w => decide (firstTime ≤ r.unix_time) &&
        decide (actor = [] ∨ r.actor = actor)) htime
      (fun x hx => by
        have hid := h.actors.intern_eq_iff (a := actor) (hstored x hx).actor
        simp [hactor, htime x hx, Bool.beq_eq_decide_eq, hid])
    simp only [hactor, if_false, false_or, getActorId, hreports] at hleft hright ⊢
    rw [hrows, hleft, hright]
    exact List.forall₂_map_left_iff.mpr (List.forall₂_map_right_iff.mpr
      (List.forall₂_same.mpr fun x hx =>
        (hstored x.1 (hm x hx)).extend (Interned.extends_intern _ _) (Interned.Extends.refl _)))

/-- What a revert uses of the actions that come back. -/
theorem used_getRevertActions (h : Holds s reports) (actor_filter : ByteString)
    (cur_time seconds : ℤ) :
    (s.getRevertActions actor_filter cur_time seconds).1.map RollbackAction.used =
      (revertible reports actor_filter (cur_time - seconds)).map Report.back := by
  have hrows := getRowsSince_spec (logged_flush h) (cur_time - seconds) actor_filter
  unfold getRevertActions getActionsSince
  simp only [List.map_map]
  have hmap := List.forall₂_map_left_iff.mpr (List.forall₂_map_right_iff.mpr (hrows.imp
    fun c r hc => hc.used _ _ (Interned.Extends.refl _) (Interned.Extends.refl _)))
  exact List.forall₂_eq_eq_eq ▸ hmap

end RollbackManager

/-- Whatever was recorded and asked for before, a revert gets the recorded actions of an actor back
with all it uses, and the newest first, exactly when the rows keep all of each of them. -/
theorem revertActions_used_iff (ops : List (RollbackOp w)) (actor_filter : ByteString)
    (cur_time seconds : ℤ) :
    ((RollbackManager.run ops).getRevertActions actor_filter cur_time seconds).1.map
          RollbackAction.used =
        (revertible (recorded ops) actor_filter (cur_time - seconds)).map
          (fun r => r.action.used) ↔
      ∀ r ∈ revertible (recorded ops) actor_filter (cur_time - seconds), r.Kept := by
  rw [RollbackManager.used_getRevertActions (RollbackManager.holds_run ops), List.map_inj_left]
  exact forall₂_congr fun r _ => r.back_eq_used_iff

def wornTool : List (RollbackOp .pos16) :=
  [.addAction ⟨10, bytes "player:a", false,
    .stack (.detached (bytes "chest")) (bytes "main") 0 false
      ⟨bytes "default:pick", 1, 1000, ∅⟩⟩]

/-- The tool comes back unworn, and from the inventory of the player. -/
theorem not_revertActions_used :
    ¬ ∀ (ops : List (RollbackOp .pos16)) (actor_filter : ByteString) (cur_time seconds : ℤ),
      ((RollbackManager.run ops).getRevertActions actor_filter cur_time seconds).1.map
          RollbackAction.used =
        (revertible (recorded ops) actor_filter (cur_time - seconds)).map
          (fun r => r.action.used) := by
  intro h
  have hused := h wornTool (bytes "player:a") 12 5
  revert hused
  decide +kernel

end Freeminer.Server
