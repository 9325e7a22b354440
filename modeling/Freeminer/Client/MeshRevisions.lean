import Freeminer.Client.MeshUpdateQueue

/-! Mesh revisions: received blocks, the jobs of the two queues of `MeshUpdateManager` and the results
that `Client::step` takes (`client.cpp`, `fm_client.cpp`, `mesh_generator_thread.cpp`, `mapblock.h`).
A worker copies one block after the other, and a received block gives its revision to one block after
the other, each in a step of its own. -/

namespace Freeminer.MeshRevisions

open Lib
open Voxel (V3)
open Freeminer.Client (MeshUpdates MeshRequest MapView Worker getMeshPos cellBlocks)

variable {D : Type}

/-- The nodes of a block, and the number of received blocks up to it. -/
structure Snapshot (D : Type) where
  version : ℕ
  data : D
  deriving DecidableEq

structure MapBlockMesh (D : Type) where
  mesh_revision : ℕ
  lod_step : ℤ
  isEmpty : Bool
  /-- What it was made from, by the position of the block. -/
  copies : V3 → Option (Snapshot D)

/-- A block of the client's map. For an empty mesh no mesh is stored; here the last one that was
accepted stays known. -/
structure MapBlock (D : Type) where
  nodes : Snapshot D
  m_mesh_revision : ℕ := 1
  m_lod_mesh : ℤ → Option (MapBlockMesh D) := fun _ => none

def MapBlock.updateMeshRevision (b : MapBlock D) (revision : ℕ) : MapBlock D :=
  { b with m_mesh_revision := max b.m_mesh_revision revision }

/-- The data of a job while its blocks are copied. -/
structure MeshMakeData (D : Type) where
  lod_step : ℤ
  mesh_revision : ℕ := 0
  copies : V3 → Option (Snapshot D) := fun _ => none
  /-- The blocks that are not yet copied. -/
  pending : List V3

structure MeshUpdateResult (D : Type) where
  p : V3
  mesh : MapBlockMesh D
  ack_list : List V3
  urgent : Bool
  map_blocks : List (Option V3)

/-- A block whose revision is updated: one next to the received block, or the block that holds its
mesh. -/
inductive Bump where
  | edge (pos : V3)
  | holder (mesh_pos : V3)
  deriving DecidableEq

/-- Where the main thread is with a received block. -/
inductive Receiving where
  | idle
  | installed (blockpos : V3)
  | publishing (revision : ℕ) (todo : List Bump)

/-- `queue` and `making` are those of the normal and of the urgent queue. A block stays in the map, and
a pointer to it is its position. `updates` records the revisions of the blocks received for a
position, in their order. -/
structure Client (D : Type) where
  map : V3 → Option (MapBlock D) := fun _ => none
  m_next_mesh_revision : ℕ := 1
  queue : Bool → MeshUpdates V3
  making : Bool → ℕ → Option (MeshMakeData D) := fun _ _ => none
  results : Bool → List (MeshUpdateResult D) := fun _ => []
  receiving : Receiving := .idle
  updates : V3 → List ℕ := fun _ => []

/-- The size of the cells of the mesh grid, the nodes of a blank block, and which nodes are all
air. -/
structure Config (D : Type) where
  cell_size : ℕ
  blank : D
  isAir : D → Bool

namespace Client

variable (cfg : Config D)

def setBlock (c : Client D) (p : V3) (b : MapBlock D) : Client D :=
  { c with map := Function.update c.map p (some b) }

def blockOrBlank (c : Client D) (p : V3) : MapBlock D :=
  (c.map p).getD { nodes := ⟨0, cfg.blank⟩ }

/-- `createBlankBlock`, if there is no block. -/
def createBlankBlock (c : Client D) (p : V3) : Client D := c.setBlock p (c.blockOrBlank cfg p)

def install (c : Client D) (p : V3) (data : D) : Client D :=
  let b := c.blockOrBlank cfg p
  { c.setBlock p { b with nodes := ⟨b.nodes.version + 1, data⟩ } with receiving := .installed p }

def g_7dirs : List V3 :=
  [⟨0, 0, 1⟩, ⟨0, 1, 0⟩, ⟨1, 0, 0⟩, ⟨0, 0, -1⟩, ⟨0, -1, 0⟩, ⟨-1, 0, 0⟩, ⟨0, 0, 0⟩]

/-- `updateMeshTimestampWithEdge` takes the next revision. -/
def takeRevision (c : Client D) (blockpos : V3) : Client D :=
  let revision := c.m_next_mesh_revision + 1
  { c with
    m_next_mesh_revision := revision
    receiving := .publishing revision (g_7dirs.map fun dir => .edge (blockpos + dir))
    updates := Function.update c.updates blockpos (c.updates blockpos ++ [revision]) }

/-- One round of its loop, or the update of the block that holds the mesh. -/
def bump (c : Client D) (revision : ℕ) (b : Bump) (todo : List Bump) : Client D :=
  match b with
  | .edge pos =>
    match c.map pos with
    | none => { c with receiving := .publishing revision todo }
    | some block =>
      let mesh_pos := getMeshPos cfg.cell_size pos
      { c.setBlock pos (block.updateMeshRevision revision) with
        receiving := .publishing revision
          (if mesh_pos ≠ pos then .holder mesh_pos :: todo else todo) }
  | .holder mesh_pos =>
    match c.map mesh_pos with
    | none => { c with receiving := .publishing revision todo }
    | some block =>
      { c.setBlock mesh_pos (block.updateMeshRevision revision) with
        receiving := .publishing revision todo }

def view (c : Client D) : MapView V3 where
  block p := if (c.map p).isSome then some p else none
  isAir p := (c.map p).any fun b => cfg.isAir b.nodes.data

def setQueue (c : Client D) (urgent : Bool) (q : MeshUpdates V3) : Client D :=
  { c with queue := Function.update c.queue urgent q }

def setMaking (c : Client D) (urgent : Bool) (worker : ℕ) (d : Option (MeshMakeData D)) : Client D :=
  { c with making := Function.update c.making urgent (Function.update (c.making urgent) worker d) }

/-- `addBlock` -/
def addBlock (c : Client D) (urgent : Bool) (r : MeshRequest) : Client D :=
  c.setQueue urgent ((c.queue urgent).addBlock cfg.cell_size id (c.view cfg) r)

/-- The first half of `pop`; `step` is the level of detail where the request names none. -/
def pop (c : Client D) (urgent : Bool) (worker : ℕ) (step : ℤ) : Option (Client D) :=
  match (c.queue urgent).pop worker with
  | none => none
  | some queue =>
    match queue.workers[worker]? with
    | some (.making q) =>
      some ((c.setQueue urgent queue).setMaking urgent worker (some
        { lod_step := if q.lod_step ≥ 0 then q.lod_step else step
          pending := q.map_blocks.reduceOption }))
    | _ => some (c.setQueue urgent queue)

/-- A round of the loop of `fillDataFromMapBlocks`, under the lock of the block. -/
def fill (c : Client D) (d : MeshMakeData D) (p : V3) (pending : List V3) : MeshMakeData D :=
  match c.map p with
  | none => { d with pending }
  | some b =>
    { d with
      mesh_revision := max d.mesh_revision b.m_mesh_revision
      copies := Function.update d.copies p (some b.nodes)
      pending }

def copy (c : Client D) (urgent : Bool) (worker : ℕ) : Option (Client D) :=
  match c.making urgent worker with
  | some d =>
    match d.pending with
    | p :: pending => some (c.setMaking urgent worker (some (c.fill d p pending)))
    | [] => none
  | none => none

/-- The mesh of a job is made, and `putResult`. -/
def putResult (c : Client D) (urgent : Bool) (worker : ℕ) (isEmpty : Bool) : Option (Client D) :=
  match (c.queue urgent).workers[worker]?, c.making urgent worker with
  | some (.making q), some d =>
    if d.pending = [] then
      let r : MeshUpdateResult D :=
        { p := q.p
          mesh := ⟨d.mesh_revision, d.lod_step, isEmpty, d.copies⟩
          ack_list := q.ack_list
          urgent := q.urgent
          map_blocks := q.map_blocks }
      let queue :=
        { c.queue urgent with workers := (c.queue urgent).workers.set worker (.reported q.p) }
      some
        { (c.setQueue urgent queue).setMaking urgent worker none with
          results := Function.update c.results r.urgent (c.results r.urgent ++ [r]) }
    else none
  | _, _ => none

def done (c : Client D) (urgent : Bool) (worker : ℕ) : Option (Client D) :=
  ((c.queue urgent).done worker).map (c.setQueue urgent)

def revisionAt (c : Client D) (p : V3) : ℕ := ((c.map p).map MapBlock.m_mesh_revision).getD 0

/-- `current_mesh_revision` for a result. -/
def currentRevision (c : Client D) (r : MeshUpdateResult D) : ℕ :=
  max ((r.map_blocks.reduceOption.map c.revisionAt).foldl max 0) (c.revisionAt r.p)

def replaceMesh (c : Client D) (r : MeshUpdateResult D) : Client D :=
  if r.mesh.mesh_revision ≥ c.currentRevision r then
    let block := (c.blockOrBlank cfg r.p).updateMeshRevision r.mesh.mesh_revision
    c.setBlock r.p
      { block with m_lod_mesh := Function.update block.m_lod_mesh r.mesh.lod_step (some r.mesh) }
  else c

/-- `getNextResult`, the urgent ones first, and what `Client::step` does with it. -/
def nextResult (c : Client D) : Client D :=
  match c.results true, c.results false with
  | r :: rs, _ => { c.replaceMesh cfg r with results := Function.update c.results true rs }
  | [], r :: rs => { c.replaceMesh cfg r with results := Function.update c.results false rs }
  | [], [] => c

/-- `clearAllQueues`, which clears the normal queue of jobs. -/
def clearAllQueues (c : Client D) (finish : Bool) : Client D :=
  { c.setQueue false ((c.queue false).clear finish) with
    results := fun urgent => (c.results urgent).filter fun r => !(r.ack_list.isEmpty || finish) }

end Client

/-- The steps of the main thread and of the workers. -/
inductive Op (D : Type) where
  | createBlankBlock (p : V3)
  | install (p : V3) (data : D)
  | takeRevision
  | bump
  | addBlock (urgent : Bool) (r : MeshRequest)
  | pop (urgent : Bool) (worker : ℕ) (step : ℤ)
  | copy (urgent : Bool) (worker : ℕ)
  | putResult (urgent : Bool) (worker : ℕ) (isEmpty : Bool)
  | done (urgent : Bool) (worker : ℕ)
  | nextResult
  | clearAllQueues (finish : Bool)

namespace Client

variable (cfg : Config D)

/-- A received block and a result are handled by the main thread, one after the other. -/
def step (c : Client D) : Op D → Option (Client D)
  | .createBlankBlock p =>
    match c.receiving with
    | .idle => some (c.createBlankBlock cfg p)
    | _ => none
  | .install p data =>
    match c.receiving with
    | .idle => some (c.install cfg p data)
    | _ => none
  | .takeRevision =>
    match c.receiving with
    | .installed p => some (c.takeRevision p)
    | _ => none
  | .bump =>
    match c.receiving with
    | .publishing revision (b :: todo) => some (c.bump cfg revision b todo)
    | .publishing _ [] => some { c with receiving := .idle }
    | _ => none
  | .addBlock urgent r => some (c.addBlock cfg urgent r)
  | .pop urgent worker step => c.pop urgent worker step
  | .copy urgent worker => c.copy urgent worker
  | .putResult urgent worker isEmpty => c.putResult urgent worker isEmpty
  | .done urgent worker => c.done urgent worker
  | .nextResult =>
    match c.receiving with
    | .idle => some (c.nextResult cfg)
    | _ => none
  | .clearAllQueues finish => some (c.clearAllQueues finish)

def system : Lts (Client D) (Op D) where
  init c := ∃ n : Bool → ℕ, c = { queue := fun urgent => { workers := List.replicate (n urgent) .idle } }
  step c op c' := c.step cfg op = some c'

end Client

/-! ## What revisions promise -/

def versionOf (copies : V3 → Option (Snapshot D)) (p : V3) : ℕ := ((copies p).map (·.version)).getD 0

namespace Client

variable (cfg : Config D)

/-- A mesh at a position was made from all updates of its region up to its revision. -/
def Includes (c : Client D) (p : V3) (mesh : MapBlockMesh D) : Prop :=
  ∀ a ∈ cellBlocks cfg.cell_size p, ∀ n revision, (c.updates a)[n]? = some revision →
    revision ≤ mesh.mesh_revision → n < versionOf mesh.copies a

def Complete (c : Client D) : Prop :=
  ∀ urgent, ∀ r ∈ c.results urgent, c.Includes cfg r.p r.mesh

def meshAt (c : Client D) (p : V3) (lod_step : ℤ) : Option (MapBlockMesh D) :=
  (c.map p).bind fun b => b.m_lod_mesh lod_step

/-- No step replaces a mesh by one that was made from an older copy of a block of the region. -/
def NeverOlder (c : Client D) : Prop :=
  ∀ op c', c.step cfg op = some c' → ∀ p lod_step mesh mesh', c.meshAt p lod_step = some mesh →
    c'.meshAt p lod_step = some mesh' →
      ∀ a ∈ cellBlocks cfg.cell_size p, versionOf mesh.copies a ≤ versionOf mesh'.copies a

def jobPos (c : Client D) (urgent : Bool) (worker : ℕ) : Option V3 :=
  (c.queue urgent).workers[worker]?.bind Worker.processing

/-- A copy of a block is in time if every update of the region that the job has missed, of a block
that it has copied or that was not there, has a higher revision than the block that is copied now. -/
def InTime (c : Client D) : Op D → Prop
  | .copy urgent worker =>
    ∀ d ∈ c.making urgent worker, ∀ p ∈ d.pending.head?, ∀ corner ∈ c.jobPos urgent worker,
      ∀ a ∈ cellBlocks cfg.cell_size corner, a ∉ d.pending →
        ∀ revision ∈ (c.updates a).drop (versionOf d.copies a), c.revisionAt p < revision
  | _ => True

instance (c : Client D) : (op : Op D) → Decidable (c.InTime cfg op)
  | .copy urgent worker => inferInstanceAs (Decidable (∀ d ∈ c.making urgent worker, _))
  | .createBlankBlock _ => .isTrue trivial
  | .install _ _ => .isTrue trivial
  | .takeRevision => .isTrue trivial
  | .bump => .isTrue trivial
  | .addBlock _ _ => .isTrue trivial
  | .pop _ _ _ => .isTrue trivial
  | .putResult _ _ _ => .isTrue trivial
  | .done _ _ => .isTrue trivial
  | .nextResult => .isTrue trivial
  | .clearAllQueues _ => .isTrue trivial

end Client

end Freeminer.MeshRevisions
