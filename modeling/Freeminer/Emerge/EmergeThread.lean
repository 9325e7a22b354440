import Freeminer.Emerge.EmergeManager
import Freeminer.Util.Serialize

/-! `EmergeThread::run` (`emerge.cpp`): what becomes of an item that a thread takes from its queue,
and which callbacks are called. What the map, the database, the map generator and the scripts answer
is left open. -/

namespace Freeminer.Emerge

open Lib

inductive EmergeAction where
  | cancelled
  | errored
  | fromMemory
  | fromDisk
  | generated
  deriving DecidableEq

/-- An exception that `run` catches. -/
inductive Thrown where
  | versionMismatch
  | serializationError
  | other
  deriving DecidableEq

/-- What the calls made for one item answer or throw. A block is given by whether it is generated;
`getBlock` is told whether the data of the database is there already. -/
structure Calls where
  getBlock : Bool → Except Thrown (Option Bool)
  loadFromDb : Except Thrown ByteString
  loadBlock : ByteString → Except Thrown (Option Bool)
  prepareBlock : Except Thrown Unit
  initBlockMake : Except Thrown Bool
  makeChunk : Except Thrown Unit
  /-- `false` where the script raised a `LuaError`. -/
  onGenerated : Except Thrown Bool
  /-- Whether `finishGen` finds the block. -/
  finishGen : Except Thrown Bool
  cancelBlockMake : Except Thrown Unit

def MAX_MAP_GENERATION_LIMIT : ℤ := 2147483008
def MAP_BLOCKSIZE : ℤ := 16

def blockposOverMaxLimit (p : BlockPos) : Bool :=
  let maxLimitBp := MAX_MAP_GENERATION_LIMIT / MAP_BLOCKSIZE
  p.x.toInt < -maxLimitBp || p.x.toInt > maxLimitBp ||
    p.y.toInt < -maxLimitBp || p.y.toInt > maxLimitBp ||
    p.z.toInt < -maxLimitBp || p.z.toInt > maxLimitBp

namespace Calls

variable (c : Calls) (allowGen : Bool)

/-- The third part of `getBlockOrStartGen`. -/
def startGen : Except Thrown EmergeAction :=
  if allowGen then
    c.initBlockMake >>= fun started => .ok (if started then .generated else .cancelled)
  else .ok .cancelled

def getBlockOrStartGen (fromDb : Option ByteString) : Except Thrown EmergeAction :=
  c.getBlock fromDb.isSome >>= fun block =>
    match block, fromDb with
    | some true, _ => .ok .fromMemory
    | some false, _ => c.startGen allowGen
    | none, none => .ok .fromDisk
    | none, some data =>
      if data.isEmpty then c.startGen allowGen
      else
        c.loadBlock data >>= fun loaded =>
          if loaded = some true then c.prepareBlock >>= fun _ => .ok .fromDisk
          else c.startGen allowGen

/-- Generation of the chunk; a script that fails or a block that is not found is an error. -/
def generate : Except Thrown EmergeAction :=
  c.makeChunk >>= fun _ => c.onGenerated >>= fun fine =>
    if fine then c.finishGen >>= fun found => .ok (if found then .generated else .errored)
    else c.cancelBlockMake >>= fun _ => .ok .errored

def process : Except Thrown EmergeAction :=
  c.getBlockOrStartGen allowGen none >>= fun action =>
    (if action = .fromDisk then
      c.loadFromDb >>= fun databuf => c.getBlockOrStartGen allowGen (some databuf)
    else .ok action) >>= fun action =>
      if action = .generated then c.generate else .ok action

end Calls

inductive Ending where
  | completed (action : EmergeAction)
  | overLimit
  | thrown (e : Thrown)

/-- One pass of the loop in `run`, up to the callbacks. -/
def runItem (c : Calls) (pos : BlockPos) (flags : UInt16) : Ending :=
  if blockposOverMaxLimit pos then .overLimit
  else
    match c.process (flags &&& BLOCK_EMERGE_ALLOW_GEN != 0) with
    | .ok action => .completed action
    | .error e => .thrown e

/-- What the emerge came to, whether or not the callbacks are told. -/
def Ending.action : Ending → EmergeAction
  | completed action => action
  | overLimit => .cancelled
  | thrown _ => .errored

variable {C : Type}

inductive ThreadState (C : Type) where
  | idle
  | working (pos : BlockPos) (bedata : BlockEmergeData C)
  | exited

structure Call (C : Type) where
  pos : BlockPos
  action : EmergeAction
  callback : C
  deriving DecidableEq

def runCompletionCallbacks (pos : BlockPos) (action : EmergeAction) (callbacks : List C) :
    List (Call C) :=
  callbacks.map fun c => ⟨pos, action, c⟩

structure Done (C : Type) where
  pos : BlockPos
  bedata : BlockEmergeData C
  ending : Ending

namespace Done

def due (d : Done C) : List (Call C) :=
  runCompletionCallbacks d.pos d.ending.action d.bedata.callbacks

/-- The calls that are made: `continue` and the exceptions pass them by. -/
def made (d : Done C) : List (Call C) :=
  match d.ending with
  | .completed action => runCompletionCallbacks d.pos action d.bedata.callbacks
  | .overLimit => []
  | .thrown _ => []

end Done

/-- An item that `cancelPendingItems` takes. -/
def cancelledItem (item : BlockPos × BlockEmergeData C) : Done C :=
  ⟨item.1, item.2, .completed .cancelled⟩

/-- The manager and its threads, with the history of the accepted callbacks, of the items that
threads are done with, and of the calls. -/
structure System (C : Type) where
  manager : EmergeManager C
  threads : List (ThreadState C)
  accepted : List (BlockPos × C) := []
  done : List (Done C) := []
  called : List (Call C) := []

inductive Event (C : Type) where
  | enqueue (blockpos : BlockPos) (peerId : UInt16) (flags : UInt16) (callback : Option C)
  | take (thread : ℕ)
  | finish (thread : ℕ) (calls : Calls)
  | exit (thread : ℕ)
  | start (thread : ℕ)

namespace System

def setThread (s : System C) (thread : ℕ) (t : ThreadState C) : System C :=
  { s with threads := s.threads.set thread t }

def finished (s : System C) (items : List (Done C)) : System C :=
  { s with done := s.done ++ items, called := s.called ++ items.flatMap Done.made }

/-- A thread takes an item when it is idle and its queue is not empty. When it is told to stop it
leaves the loop between two items, and cancels what is pending. -/
def step (s : System C) : Event C → Option (System C)
  | .enqueue blockpos peerId flags callback =>
    let r := s.manager.enqueueBlockEmergeEx blockpos peerId flags callback
    some { s with manager := r.1, accepted :=
      if r.2 then s.accepted ++ callback.toList.map (blockpos, ·) else s.accepted }
  | .take thread =>
    match s.threads[thread]? with
    | some .idle =>
      (s.manager.popBlockEmerge thread).map fun r =>
        { s.setThread thread (.working r.2.1 r.2.2) with manager := r.1 }
    | _ => none
  | .finish thread calls =>
    match s.threads[thread]? with
    | some (.working pos bedata) =>
      some ((s.setThread thread .idle).finished [⟨pos, bedata, runItem calls pos bedata.flags⟩])
    | _ => none
  | .exit thread =>
    match s.threads[thread]? with
    | some .idle =>
      let r := s.manager.cancelPendingItems thread
      some ({ s.setThread thread .exited with manager := r.1 }.finished
        (r.2.map cancelledItem))
    | _ => none
  | .start thread =>
    match s.threads[thread]? with
    | some .exited => some (s.setThread thread .idle)
    | _ => none

def lts (C : Type) : Lts (System C) (Event C) where
  init s := (EmergeManager.lts C).init s.manager ∧ s.threads.length = s.manager.queues.length ∧
    (∀ t ∈ s.threads, t = .idle) ∧ s.accepted = [] ∧ s.done = [] ∧ s.called = []
  step s e s' := s.step e = some s'

end System

end Freeminer.Emerge
