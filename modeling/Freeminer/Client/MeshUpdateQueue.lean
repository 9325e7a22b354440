import Mathlib.Algebra.Order.Group.Multiset
import Mathlib.Data.Finset.Basic
import Mathlib.Data.List.ReduceOption
import Freeminer.Lib.Runs
import Freeminer.Voxel.Light

/-! `MeshUpdateQueue` (`mesh_generator_thread.cpp`) with its workers and the results they put, step by
step, each locked section in one step. -/

namespace Freeminer.Client

open Lib
open Voxel (V3)

/-- The blocks of the map at the time of a request, and which of them are all air. -/
structure MapView (β : Type) where
  block : V3 → Option β
  isAir : β → Bool

structure QueuedMeshUpdate (β : Type) where
  p : V3
  ack_list : List V3 := []
  crack_level : ℤ := -1
  crack_pos : V3 := ⟨0, 0, 0⟩
  map_blocks : List (Option β) := []
  urgent : Bool := false
  lod_step : ℤ := -1

structure MeshUpdateResult (β : Type) where
  p : V3
  ack_list : List V3
  urgent : Bool
  map_blocks : List (Option β)

def getMeshCoord (cell_size p : ℤ) : ℤ :=
  (p - if p < 0 then cell_size - 1 else 0).tdiv cell_size * cell_size

def getMeshPos (cell_size : ℕ) (p : V3) : V3 :=
  ⟨getMeshCoord cell_size p.X, getMeshCoord cell_size p.Y, getMeshCoord cell_size p.Z⟩

def cellRange (cell_size : ℕ) (p : ℤ) : List ℤ :=
  (List.range (cell_size + 2)).map fun (i : ℕ) => p - 1 + i

/-- The positions that `retrieveBlocks` visits, in their order. -/
def cellBlocks (cell_size : ℕ) (p : V3) : List V3 :=
  (cellRange cell_size p.X).flatMap fun X => (cellRange cell_size p.Z).flatMap fun Z =>
    (cellRange cell_size p.Y).map fun Y => ⟨X, Y, Z⟩

/-- The order of `v3bpos_t`. -/
def posLess (a b : V3) : Prop :=
  a.X < b.X ∨ a.X = b.X ∧ a.Y < b.Y ∨ a.X = b.X ∧ a.Y = b.Y ∧ a.Z < b.Z

instance (a b : V3) : Decidable (posLess a b) := inferInstanceAs (Decidable (_ ∨ _))

/-- The loop of `retrieveBlocks` over the positions and the pointers: the pointers after it, and the
blocks it grabs. -/
def retrieve {β : Type} (view : MapView β) : List V3 → List (Option β) → List (Option β) × List β
  | pos :: rest, none :: blocks =>
    let r := retrieve view rest blocks
    (view.block pos :: r.1, (view.block pos).toList ++ r.2)
  | _ :: rest, some b :: blocks =>
    let r := retrieve view rest blocks
    (some b :: r.1, r.2)
  | _, blocks => (blocks, [])

namespace QueuedMeshUpdate

variable {β : Type}

/-- `retrieveBlocks`, with the blocks that it grabs. -/
def retrieveBlocks (q : QueuedMeshUpdate β) (view : MapView β) (cell_size : ℕ) :
    QueuedMeshUpdate β × List β :=
  let map_blocks :=
    if q.map_blocks = [] then
      List.replicate ((cell_size + 2) * (cell_size + 2) * (cell_size + 2)) none
    else q.map_blocks
  let r := retrieve view (cellBlocks cell_size q.p) map_blocks
  ({ q with map_blocks := r.1 }, r.2)

/-- Whether the blocks of the cell are all air, by the order of their positions. -/
def checkSkip (q : QueuedMeshUpdate β) (view : MapView β) (pos : β → V3) (cell_size : ℕ) : Bool :=
  let p_max : V3 := q.p + ⟨cell_size, cell_size, cell_size⟩
  q.map_blocks.reduceOption.all fun b =>
    if ¬posLess (pos b) q.p ∧ posLess (pos b) p_max then view.isAir b else true

end QueuedMeshUpdate

/-- A request to `addBlock`. -/
structure MeshRequest where
  p : V3
  ack_block_to_server : Bool := false
  urgent : Bool := false
  from_neighbor : Bool := false
  lod_step : ℤ := -1
  crack_level : ℤ := -1
  crack_pos : V3 := ⟨0, 0, 0⟩

inductive Worker (β : Type) where
  | idle
  /-- It makes the mesh of an update that it has popped. -/
  | making (q : QueuedMeshUpdate β)
  /-- It has put the result, and is not done. -/
  | reported (p : V3)

def Worker.processing {β : Type} : Worker β → Option V3
  | idle => none
  | making q => some q.p
  | reported p => some p

/-- A queue with its workers and results. Of the references to blocks that are grabbed and dropped a
record is kept, and of the positions for which a request waits: those whose entry has been neither
popped nor discarded since. -/
structure MeshUpdates (β : Type) where
  m_queue : List (QueuedMeshUpdate β) := []
  m_urgents : Finset V3 := ∅
  m_inflight_blocks : Finset V3 := ∅
  workers : List (Worker β)
  m_queue_out : List (MeshUpdateResult β) := []
  m_queue_out_urgent : List (MeshUpdateResult β) := []
  grabbed : Multiset β := 0
  dropped : Multiset β := 0
  awaited : Finset V3 := ∅

def updateQueued {β γ : Type} (p : V3)
    (f : QueuedMeshUpdate β → QueuedMeshUpdate β × γ) :
    List (QueuedMeshUpdate β) → Option (List (QueuedMeshUpdate β) × γ)
  | [] => none
  | q :: qs =>
    if q.p = p then some ((f q).1 :: qs, (f q).2)
    else (updateQueued p f qs).map fun r => (q :: r.1, r.2)

namespace MeshUpdates

variable {β : Type}

/-- What a request changes in an entry, and the blocks that are grabbed for it. -/
def refresh (cell_size : ℕ) (view : MapView β) (r : MeshRequest) (q : QueuedMeshUpdate β) :
    QueuedMeshUpdate β × List β :=
  { q with
    ack_list := if r.ack_block_to_server then q.ack_list ++ [r.p] else q.ack_list
    crack_level := r.crack_level
    crack_pos := r.crack_pos
    urgent := q.urgent || r.urgent
    lod_step := if r.lod_step ≥ 0 then r.lod_step else q.lod_step }.retrieveBlocks view cell_size

/-- The entry of a request, and the blocks that are grabbed for it. -/
def newEntry (cell_size : ℕ) (view : MapView β) (r : MeshRequest) : QueuedMeshUpdate β × List β :=
  QueuedMeshUpdate.retrieveBlocks
    { p := getMeshPos cell_size r.p
      ack_list := if r.ack_block_to_server then [r.p] else []
      crack_level := r.crack_level
      crack_pos := r.crack_pos
      urgent := r.urgent
      lod_step := r.lod_step } view cell_size

def markUrgent (s : MeshUpdates β) (p : V3) (urgent : Bool) : MeshUpdates β :=
  if urgent then { s with m_urgents := insert p s.m_urgents } else s

/-- The rest of `addBlock`: an entry is changed or made, but one that a neighbour asks for is skipped
where all is air. -/
def enqueue (cell_size : ℕ) (pos : β → V3) (s : MeshUpdates β) (view : MapView β)
    (r : MeshRequest) : MeshUpdates β :=
  let mesh_position := getMeshPos cell_size r.p
  match updateQueued mesh_position (refresh cell_size view r) s.m_queue with
  | some (m_queue, grabs) =>
    { s with m_queue, grabbed := s.grabbed + grabs, awaited := insert mesh_position s.awaited }
  | none =>
    let (q, grabs) := newEntry cell_size view r
    if r.from_neighbor = true ∧ q.checkSkip view pos cell_size = true then
      { s with
        m_urgents := s.m_urgents.erase mesh_position
        grabbed := s.grabbed + grabs
        dropped := s.dropped + q.map_blocks.reduceOption }
    else
      { s with
        m_queue := s.m_queue ++ [q]
        grabbed := s.grabbed + grabs
        awaited := insert mesh_position s.awaited }

/-- `addBlock`: a request for a block that is not there is refused. -/
def addBlock (cell_size : ℕ) (pos : β → V3) (s : MeshUpdates β) (view : MapView β)
    (r : MeshRequest) : MeshUpdates β :=
  if view.block r.p = none then s
  else (s.markUrgent (getMeshPos cell_size r.p) r.urgent).enqueue cell_size pos view r

/-- Whether `pop` takes an entry. -/
def takes (s : MeshUpdates β) (q : QueuedMeshUpdate β) : Bool :=
  decide (s.m_urgents.Nonempty → q.p ∈ s.m_urgents) && decide (q.p ∉ s.m_inflight_blocks)

/-- `pop`, by an idle worker; it takes nothing where there is no entry for it. -/
def pop (s : MeshUpdates β) (i : ℕ) : Option (MeshUpdates β) :=
  match s.workers[i]? with
  | some .idle =>
    match s.m_queue.find? s.takes with
    | none => some s
    | some q =>
      some { s with
        m_queue := s.m_queue.eraseP s.takes
        m_urgents := s.m_urgents.erase q.p
        m_inflight_blocks := insert q.p s.m_inflight_blocks
        workers := s.workers.set i (.making q)
        awaited := s.awaited.erase q.p }
  | _ => none

/-- `putResult`: the result takes the blocks over. -/
def putResult (s : MeshUpdates β) (i : ℕ) : Option (MeshUpdates β) :=
  match s.workers[i]? with
  | some (.making q) =>
    let r : MeshUpdateResult β := ⟨q.p, q.ack_list, q.urgent, q.map_blocks⟩
    let s := { s with workers := s.workers.set i (.reported q.p) }
    if r.urgent then some { s with m_queue_out_urgent := s.m_queue_out_urgent ++ [r] }
    else some { s with m_queue_out := s.m_queue_out ++ [r] }
  | _ => none

def done (s : MeshUpdates β) (i : ℕ) : Option (MeshUpdates β) :=
  match s.workers[i]? with
  | some (.reported p) =>
    some { s with
      m_inflight_blocks := s.m_inflight_blocks.erase p
      workers := s.workers.set i .idle }
  | _ => none

/-- Whether `clear` discards an entry. -/
def discards (finish : Bool) (q : QueuedMeshUpdate β) : Bool := q.ack_list.isEmpty || finish

def entryRefs (qs : List (QueuedMeshUpdate β)) : List β :=
  qs.flatMap fun q => q.map_blocks.reduceOption

def resultRefs (rs : List (MeshUpdateResult β)) : List β :=
  rs.flatMap fun r => r.map_blocks.reduceOption

def clear (s : MeshUpdates β) (finish : Bool) : MeshUpdates β :=
  let gone := s.m_queue.filter (discards finish)
  let positions := (gone.map (·.p)).toFinset
  { s with
    m_queue := s.m_queue.filter fun q => !discards finish q
    m_urgents := s.m_urgents \ positions
    m_inflight_blocks := s.m_inflight_blocks \ positions
    dropped := s.dropped + entryRefs gone
    awaited := s.awaited \ positions }

/-- The client takes a result, the urgent ones first, and drops its blocks. -/
def nextResult (s : MeshUpdates β) : MeshUpdates β :=
  match s.m_queue_out_urgent, s.m_queue_out with
  | r :: rs, _ => { s with m_queue_out_urgent := rs, dropped := s.dropped + resultRefs [r] }
  | [], r :: rs => { s with m_queue_out := rs, dropped := s.dropped + resultRefs [r] }
  | [], [] => s

/-- Whether `clearAllQueues` discards a result. -/
def discardsResult (finish : Bool) (r : MeshUpdateResult β) : Bool := r.ack_list.isEmpty || finish

/-- A queue of results is cleared in `clearAllQueues`. -/
def clearOut (s : MeshUpdates β) (urgent finish : Bool) : MeshUpdates β :=
  if urgent then
    { s with
      m_queue_out_urgent := s.m_queue_out_urgent.filter fun r => !discardsResult finish r
      dropped := s.dropped + resultRefs (s.m_queue_out_urgent.filter (discardsResult finish)) }
  else
    { s with
      m_queue_out := s.m_queue_out.filter fun r => !discardsResult finish r
      dropped := s.dropped + resultRefs (s.m_queue_out.filter (discardsResult finish)) }

end MeshUpdates

/-- A locked section of the client or of a worker. -/
inductive MeshOp (β : Type) where
  | addBlock (view : MapView β) (r : MeshRequest)
  | pop (worker : ℕ)
  | putResult (worker : ℕ)
  | done (worker : ℕ)
  | clear (finish : Bool)
  | nextResult
  | clearOut (urgent finish : Bool)

namespace MeshUpdates

variable {β : Type}

def step (cell_size : ℕ) (pos : β → V3) (s : MeshUpdates β) : MeshOp β → Option (MeshUpdates β)
  | .addBlock view r => some (s.addBlock cell_size pos view r)
  | .pop worker => s.pop worker
  | .putResult worker => s.putResult worker
  | .done worker => s.done worker
  | .clear finish => some (s.clear finish)
  | .nextResult => some s.nextResult
  | .clearOut urgent finish => some (s.clearOut urgent finish)

def system (cell_size : ℕ) (pos : β → V3) : Lts (MeshUpdates β) (MeshOp β) where
  init s := ∃ n, s = { workers := List.replicate n .idle }
  step s op s' := s.step cell_size pos op = some s'

def workerRefs : Worker β → List β
  | .making q => q.map_blocks.reduceOption
  | _ => []

/-- The references that an entry, a worker or a result still has. -/
def held (s : MeshUpdates β) : Multiset β :=
  entryRefs s.m_queue + s.workers.flatMap workerRefs + resultRefs s.m_queue_out +
    resultRefs s.m_queue_out_urgent

/-- What the queue promises apart from its workers. -/
structure Orderly (s : MeshUpdates β) : Prop where
  /-- A position is queued once. -/
  once : (s.m_queue.map (·.p)).Nodup
  urgent : ∀ p ∈ s.m_urgents, ∃ q ∈ s.m_queue, q.p = p
  /-- A request that waits has its entry. -/
  entry : ∀ p ∈ s.awaited, ∃ q ∈ s.m_queue, q.p = p
  /-- What was grabbed was dropped once, or is held. -/
  references : s.grabbed = s.dropped + s.held

def Exclusive (s : MeshUpdates β) : Prop :=
  ∀ (i j : ℕ) (v w : Worker β) (p : V3), s.workers[i]? = some v → s.workers[j]? = some w → v.processing = some p →
    w.processing = some p → i = j

def KeepsInflight (s : MeshUpdates β) : MeshOp β → Prop
  | .clear finish => ∀ q ∈ s.m_queue, discards finish q = true → q.p ∉ s.m_inflight_blocks
  | _ => True

instance (s : MeshUpdates β) : (op : MeshOp β) → Decidable (s.KeepsInflight op)
  | .clear _ => inferInstanceAs (Decidable (∀ q ∈ s.m_queue, _ → _))
  | .addBlock .. => .isTrue trivial
  | .pop _ => .isTrue trivial
  | .putResult _ => .isTrue trivial
  | .done _ => .isTrue trivial
  | .nextResult => .isTrue trivial
  | .clearOut .. => .isTrue trivial

end MeshUpdates

end Freeminer.Client
