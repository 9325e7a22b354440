import Mathlib.Data.Finmap
import Freeminer.Database.MapKeys
import Freeminer.Lib.Runs

/-! `initBlockMake`, `finishBlockMake` and `cancelBlockMake` (`servermap.cpp`): how a chunk is reserved
while it is generated, and how its blocks are kept in memory. -/

namespace Freeminer.Server

open Lib Database
open Voxel (V3 MAP_BLOCKSIZE)

/-- `MapgenParams`, with what `readParams` makes of the setting `chunksize`. -/
structure MapgenParams where
  chunksize : V3
  mapgen_limit : ℤ
  chunksize_ge : 1 ≤ chunksize.X ∧ 1 ≤ chunksize.Y ∧ 1 ≤ chunksize.Z
  chunksize_le : chunksize.X ≤ 999 ∧ chunksize.Y ≤ 999 ∧ chunksize.Z ≤ 999

def maxMapGenerationLimit : PosWidth → ℤ
  | .pos16 => 31007
  | .pos32 => 2147483008

def narrow (w : PosWidth) (x : ℤ) : ℤ := x.bmod (2 ^ w.bits)

/-- `getContainerPos`, for a coordinate. -/
def getContainerPos (p d : ℤ) : ℤ := (if 0 ≤ p then p else p - d + 1).tdiv d

/-- `getContainingChunk`, for a coordinate. -/
def containingChunk (w : PosWidth) (blockpos chunksize : ℤ) : ℤ :=
  let chunk_offset := (-chunksize).tdiv 2
  let container := narrow w (getContainerPos (narrow w (blockpos - chunk_offset)) chunksize)
  narrow w (narrow w (container * chunksize) + chunk_offset)

def chunkEnd (w : PosWidth) (bpmin chunksize : ℤ) : ℤ :=
  narrow w (narrow w (bpmin + chunksize) - 1)

def getContainingChunk (w : PosWidth) (blockpos chunksize : V3) : V3 :=
  ⟨containingChunk w blockpos.X chunksize.X, containingChunk w blockpos.Y chunksize.Y,
    containingChunk w blockpos.Z chunksize.Z⟩

def mapgenLimit (w : PosWidth) (params : MapgenParams) : ℤ :=
  (max 0 (min params.mapgen_limit (maxMapGenerationLimit w))).tdiv MAP_BLOCKSIZE

def blockpos_over_mapgen_limit (w : PosWidth) (params : MapgenParams) (p : V3) : Prop :=
  let mapgen_limit_bp := mapgenLimit w params
  p.X < -mapgen_limit_bp ∨ mapgen_limit_bp < p.X ∨ p.Y < -mapgen_limit_bp ∨ mapgen_limit_bp < p.Y ∨
    p.Z < -mapgen_limit_bp ∨ mapgen_limit_bp < p.Z

instance (w : PosWidth) (params : MapgenParams) (p : V3) :
    Decidable (blockpos_over_mapgen_limit w params p) := inferInstanceAs (Decidable (_ ∨ _))

/-- What of `BlockMakeData` tells which blocks are made. -/
structure BlockMakeData where
  blockpos_min : V3
  blockpos_max : V3
  deriving DecidableEq

/-- The values of a loop from `lo` to `hi`. -/
def intRange (lo hi : ℤ) : List ℤ := (List.range (hi + 1 - lo).toNat).map fun n : ℕ => lo + n

/-- The blocks of the nested loops over `x`, `z` and `y`. -/
def region (lo hi : V3) : List V3 :=
  (intRange lo.X hi.X).flatMap fun x =>
    (intRange lo.Z hi.Z).flatMap fun z => (intRange lo.Y hi.Y).map fun y => ⟨x, y, z⟩

namespace BlockMakeData

variable (w : PosWidth) (data : BlockMakeData)

/-- `blockpos_min - EMERGE_EXTRA_BORDER` -/
def full_bpmin : V3 :=
  ⟨narrow w (data.blockpos_min.X - 1), narrow w (data.blockpos_min.Y - 1),
    narrow w (data.blockpos_min.Z - 1)⟩

/-- `blockpos_max + EMERGE_EXTRA_BORDER` -/
def full_bpmax : V3 :=
  ⟨narrow w (data.blockpos_max.X + 1), narrow w (data.blockpos_max.Y + 1),
    narrow w (data.blockpos_max.Z + 1)⟩

def fullRegion : List V3 := region (data.full_bpmin w) (data.full_bpmax w)

end BlockMakeData

abbrev RefCounts := Finmap fun _ : V3 => ℤ

/-- `emergeBlockPtr` or `createBlock`, and `refGrab`. -/
def emergeAndGrab (blocks : RefCounts) (p : V3) : RefCounts :=
  blocks.insert p ((blocks.lookup p).getD 0 + 1)

/-- `refDrop` of a block that is in memory. -/
def refDrop (blocks : RefCounts) (p : V3) : RefCounts :=
  match blocks.lookup p with
  | some refcount => blocks.insert p (refcount - 1)
  | none => blocks

structure ServerMap where
  m_chunks_in_progress : Finset V3 := ∅
  m_mapgen_process : Finmap fun _ : V3 => UInt32 := ∅
  blocks : RefCounts := ∅

namespace ServerMap

variable (w : PosWidth) (params : MapgenParams)

def chunkOf (blockpos : V3) : BlockMakeData :=
  let bpmin := getContainingChunk w blockpos params.chunksize
  { blockpos_min := bpmin
    blockpos_max := ⟨chunkEnd w bpmin.X params.chunksize.X, chunkEnd w bpmin.Y params.chunksize.Y,
      chunkEnd w bpmin.Z params.chunksize.Z⟩ }

def Inside (data : BlockMakeData) : Prop :=
  ¬(blockpos_over_mapgen_limit w params (data.full_bpmin w) ∨
    blockpos_over_mapgen_limit w params (data.full_bpmax w))

instance (data : BlockMakeData) : Decidable (Inside w params data) :=
  inferInstanceAs (Decidable (¬_))

/-- At the time `now`; the data is for the generator. -/
def initBlockMake (m : ServerMap) (blockpos : V3) (now : UInt64) :
    ServerMap × Option BlockMakeData :=
  let data := chunkOf w params blockpos
  let bpmin := data.blockpos_min
  if bpmin ∈ m.m_chunks_in_progress then (m, none)
  else
    let m := { m with m_chunks_in_progress := insert bpmin m.m_chunks_in_progress }
    let gen := (m.m_mapgen_process.lookup bpmin).getD 0
    if now - 60000 < gen.toUInt64 then (m, none)
    else
      let m := { m with m_mapgen_process := m.m_mapgen_process.insert bpmin now.toUInt32 }
      if ¬Inside w params data then (m, none)
      else ({ m with blocks := (data.fullRegion w).foldl emergeAndGrab m.blocks }, some data)

def cancelBlockMake (m : ServerMap) (data : BlockMakeData) : ServerMap :=
  { m with blocks := (data.fullRegion w).foldl refDrop m.blocks }

def finishBlockMake (m : ServerMap) (data : BlockMakeData) : ServerMap :=
  { m_chunks_in_progress := m.m_chunks_in_progress.erase data.blockpos_min
    m_mapgen_process := m.m_mapgen_process.erase data.blockpos_min
    blocks := (data.fullRegion w).foldl refDrop m.blocks }

end ServerMap

/-- The map, and the chunks whose generation began and has not ended. -/
structure Generating where
  map : ServerMap := {}
  begun : List BlockMakeData := []

inductive MakeOp where
  | init (blockpos : V3) (now : UInt64)
  | finish (i : ℕ)
  | cancel (i : ℕ)
  /-- A block comes into memory for another reason. -/
  | load (p : V3)
  /-- A block that nobody refers to leaves the memory. -/
  | unload (p : V3)

namespace Generating

variable (w : PosWidth) (params : MapgenParams)

def step (s : Generating) : MakeOp → Option Generating
  | .init blockpos now =>
    let (map, data) := s.map.initBlockMake w params blockpos now
    some { map, begun := data.toList ++ s.begun }
  | .finish i => s.begun[i]?.map fun data =>
    { map := s.map.finishBlockMake w data, begun := s.begun.eraseIdx i }
  | .cancel i => s.begun[i]?.map fun data =>
    { map := s.map.cancelBlockMake w data, begun := s.begun.eraseIdx i }
  | .load p =>
    if s.map.blocks.lookup p = none then
      some { s with map.blocks := s.map.blocks.insert p 0 }
    else none
  | .unload p =>
    if s.map.blocks.lookup p = some 0 then some { s with map.blocks := s.map.blocks.erase p }
    else none

def system : Lts Generating MakeOp where
  init s := s = {}
  step s op s' := s.step w params op = some s'

end Generating

def BlockMakeData.Covers (data : BlockMakeData) (border : ℤ) (p : V3) : Prop :=
  (data.blockpos_min.X - border ≤ p.X ∧ p.X ≤ data.blockpos_max.X + border) ∧
    (data.blockpos_min.Y - border ≤ p.Y ∧ p.Y ≤ data.blockpos_max.Y + border) ∧
    (data.blockpos_min.Z - border ≤ p.Z ∧ p.Z ≤ data.blockpos_max.Z + border)

instance (data : BlockMakeData) (border : ℤ) (p : V3) : Decidable (data.Covers border p) :=
  inferInstanceAs (Decidable (_ ∧ _))

namespace Generating

variable (w : PosWidth) (params : MapgenParams)

/-- Chunks are reserved just while they are generated. -/
structure Exact (s : Generating) : Prop where
  in_progress : ∀ c, c ∈ s.map.m_chunks_in_progress ↔ ∃ data ∈ s.begun, data.blockpos_min = c
  process : ∀ c, c ∈ s.map.m_mapgen_process ↔ ∃ data ∈ s.begun, data.blockpos_min = c
  /-- No block is in two of the chunks. -/
  disjoint : s.begun.Pairwise fun data data' => ∀ p, ¬(data.Covers 0 p ∧ data'.Covers 0 p)
  refcount : ∀ p, (s.map.blocks.lookup p).getD 0 = s.begun.countP fun data => data.Covers 1 p
  /-- A chunk inside the limits that is not generated can be. -/
  free : ∀ blockpos now, ServerMap.Inside w params (ServerMap.chunkOf w params blockpos) →
    (∀ data ∈ s.begun,
      data.blockpos_min ≠ (ServerMap.chunkOf w params blockpos).blockpos_min) →
    (s.map.initBlockMake w params blockpos now).2 = some (ServerMap.chunkOf w params blockpos)

/-- No step leaves a reservation behind: an init outside of the limits, or a cancel. -/
def Released (s : Generating) : MakeOp → Prop
  | .init blockpos _ =>
    ServerMap.Inside w params (ServerMap.chunkOf w params blockpos) ∨
      (ServerMap.chunkOf w params blockpos).blockpos_min ∈ s.map.m_chunks_in_progress
  | .cancel _ => False
  | _ => True

instance (s : Generating) : (op : MakeOp) → Decidable (s.Released w params op)
  | .init .. => inferInstanceAs (Decidable (_ ∨ _))
  | .cancel _ => .isFalse id
  | .finish _ => .isTrue trivial
  | .load _ => .isTrue trivial
  | .unload _ => .isTrue trivial

end Generating

end Freeminer.Server
