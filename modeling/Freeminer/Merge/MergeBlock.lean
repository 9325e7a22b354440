import Freeminer.Block.NodeDefManager
import Freeminer.Lib.HashOrder
import Freeminer.Voxel.Light

/-! `WorldMerger::merge_one_block` (`fm_world_merge.cpp`): the blocks of a step are merged into one of
the next, which is stored when a node of it is not air. -/

namespace Freeminer.Merge

open Lib
open Block (MapNode Content CONTENT_AIR CONTENT_IGNORE)
open Voxel (V3 ContentLightingFlags LightBank LIGHT_MAX LIGHT_SUN getLightRaw setLight
  MAP_BLOCKSIZE)

/-- What the merge reads of the content definitions. -/
structure NodeDefManager where
  getLightingFlags : Content → ContentLightingFlags
  isLiquid : Content → Bool
  /-- `get_light_source_color`, as the lower three bytes of a light point -/
  lightSourceColor : Content → ℕ

/-- `m_light_points`, in the order of insertion. -/
abbrev LightPoints := List (V3 × ℕ)

structure FarContents where
  /-- By the relative position of the node. -/
  data : V3 → MapNode
  lightPoints : LightPoints

structure MapBlock extends FarContents where
  isGenerated : Bool := true
  changedTimestamp : ℕ := 0
  diskTimestamp : ℕ
  heatLastUpdate : ℕ := 0
  humidityLastUpdate : ℕ := 0

def BLOCK_TIMESTAMP_UNDEFINED : ℕ := 0xffffffff

def MapBlock.getActualTimestamp (b : MapBlock) : ℕ :=
  if b.changedTimestamp ≠ 0 ∧ b.changedTimestamp ≠ BLOCK_TIMESTAMP_UNDEFINED then
    b.changedTimestamp
  else if b.diskTimestamp ≠ 0 ∧ b.diskTimestamp ≠ BLOCK_TIMESTAMP_UNDEFINED then
    b.diskTimestamp
  else 0

/-- What `deSerialize` gets back of what `serialize` wrote to a database. -/
structure StoredBlock extends FarContents where
  isGenerated : Bool := true
  timestamp : ℕ

abbrev MapDatabase := Finmap fun _ : V3 => StoredBlock

def StoredBlock.load (b : StoredBlock) : Option MapBlock :=
  if b.isGenerated then some { b.toFarContents with diskTimestamp := b.timestamp } else none

/-- `load_block` -/
def loadBlock (dbase : MapDatabase) (pos : V3) : Option MapBlock :=
  (dbase.lookup pos).bind StoredBlock.load

/-- What all merges have in common: the contents, and what is not computed here, which is the order
of the hash maps and the floating point of the thinning. -/
structure MergeRules where
  ndef : NodeDefManager
  farlights : Bool
  /-- The order in which a hash map has keys that were inserted in this order. -/
  hashOrder : List V3 → List V3
  /-- `int(std::log2(size) * some_magick_thinner_const * (16 - level))` -/
  thinner : ℕ → ℕ → ℤ

/-! ### The node that stands for eight -/

/-- `contents`, `weights` and `nodes` at an index. -/
structure ContentWeight where
  content : Content
  weight : ℕ
  node : MapNode

def addWeight (weight : ℕ) (n : MapNode) : List ContentWeight → List ContentWeight
  | [] => [⟨n.param0, weight, n⟩]
  | t :: ts =>
    if t.content = n.param0 then ⟨t.content, t.weight + weight, n⟩ :: ts
    else t :: addWeight weight n ts

def mergeDirs : List V3 :=
  [⟨0, 1, 0⟩, ⟨1, 0, 0⟩, ⟨0, 0, 1⟩, ⟨0, 0, 0⟩, ⟨1, 1, 0⟩, ⟨0, 1, 1⟩, ⟨1, 0, 1⟩, ⟨1, 1, 1⟩]

structure Seen where
  /-- `maybe_air` and `air` -/
  air : Option MapNode := none
  contents : List ContentWeight := []
  maxLightNight : ℕ := 0

namespace MergeRules

variable (r : MergeRules)

def see (block : FarContents) (lpos : V3) (seen : Seen) (dir : V3) : Seen :=
  let n := block.data (lpos + dir)
  if n.param0 = CONTENT_IGNORE then seen
  else
    let weight := (if n.param0 = CONTENT_AIR then 1 else 2) + if dir = ⟨0, 0, 0⟩ then 4 else 0
    { air := if n.param0 = CONTENT_AIR then some n else seen.air
      contents := addWeight weight n seen.contents
      maxLightNight :=
        max seen.maxLightNight (getLightRaw n .night (r.ndef.getLightingFlags n.param0)) }

def mergeNode (block : FarContents) (lpos : V3) : Option MapNode :=
  let seen := mergeDirs.foldl (r.see block lpos) {}
  match seen.contents with
  | [] => seen.air
  | t :: ts =>
    let n := (ts.foldl (fun best t => if best.weight < t.weight then t else best) t).node
    let n := if seen.maxLightNight ≠ 0 then
      setLight n .night seen.maxLightNight (r.ndef.getLightingFlags n.param0) else n
    if n.param0 = CONTENT_IGNORE then none else some n

abbrev Sources := List (V3 × FarContents)

/-- `bbpos` -/
def cellOf (npos : V3) : V3 := ⟨npos.X / 8, npos.Y / 8, npos.Z / 8⟩

/-- `lpos` -/
def cellPos (npos : V3) : V3 := ⟨npos.X * 2 % 16, npos.Y * 2 % 16, npos.Z * 2 % 16⟩

/-- The node of a position of the merged block, if its block is there. -/
def pick (blocks : Sources) (npos : V3) : Option MapNode :=
  (blocks.lookup (cellOf npos)).bind fun block => r.mergeNode block (cellPos npos)

def mergePositions : List V3 :=
  (List.range 16).flatMap fun (x : ℕ) => (List.range 16).flatMap fun (y : ℕ) =>
    (List.range 16).map fun (z : ℕ) => ⟨x, y, z⟩

/-- The nodes of the merged block; one that is not set is what it was. Nothing is picked for a
position that is not in the block. -/
def mergeNodes (blocks : Sources) (start : V3 → MapNode) (npos : V3) : MapNode :=
  (r.pick blocks npos).getD (start npos)

/-- `not_empty_nodes` -/
def notEmptyNodes (blocks : Sources) : ℕ :=
  mergePositions.countP fun npos =>
    (r.pick blocks npos).any fun n => decide (n.param0 ≠ CONTENT_AIR)

/-! ### Light points -/

def makeLightPoint (level color : ℕ) : ℕ := min level LIGHT_MAX * 2 ^ 24 + color

def getLightPointLevel (light : ℕ) : ℕ :=
  if light ≤ LIGHT_SUN then light else min (light / 2 ^ 24 % 2 ^ 8) LIGHT_MAX

def lightPoint (block : FarContents) (blockpos p : V3) : Option (V3 × ℕ) :=
  let c := (block.data p).param0
  let lf := r.ndef.getLightingFlags c
  if c ≠ CONTENT_IGNORE ∧ lf.lightSource ≠ 0 ∧ r.ndef.isLiquid c = false then
    some (⟨blockpos.X * MAP_BLOCKSIZE + p.X, blockpos.Y * MAP_BLOCKSIZE + p.Y,
      blockpos.Z * MAP_BLOCKSIZE + p.Z⟩, makeLightPoint lf.lightSource (r.ndef.lightSourceColor c))
  else none

/-- `generated_light_points` of a block. -/
def generatedLightPoints (rpos blockpos : V3) (block : FarContents) : LightPoints :=
  (mergePositions.filter fun npos => cellOf npos = rpos).flatMap fun npos =>
    mergeDirs.filterMap fun dir => r.lightPoint block blockpos (cellPos npos + dir)

/-- `emplace` -/
def emplace (points : LightPoints) (lp : V3 × ℕ) : LightPoints :=
  if (points.lookup lp.1).isSome then points else points ++ [lp]

def walk {β : Type} (entries : List (V3 × β)) : List (V3 × β) :=
  (r.hashOrder (entries.map Prod.fst)).filterMap fun k => (entries.lookup k).map (k, ·)

structure LightStat where
  lightsCount : ℕ := 0
  points : LightPoints := []

def addLight (step size : ℕ) (stat : LightStat × ℕ) (lp : V3 × ℕ) : LightStat × ℕ :=
  let lightsCount := stat.1.lightsCount + 1
  let lightsInBlock := stat.2 + 1
  let mod := r.thinner size (getLightPointLevel lp.2)
  if 1 < mod ∧ 2 * (step + 1) * 3 < lightsInBlock ∧ (lightsCount : ℤ) % mod ≠ 0 then
    ({ stat.1 with lightsCount }, lightsInBlock)
  else ({ lightsCount, points := emplace stat.1.points lp }, lightsInBlock)

/-- The light points of the merged block at `bposAligned`. -/
def mergeLights (step : ℕ) (bposAligned : V3) (blocks : Sources) : LightPoints :=
  if r.farlights then
    ((r.walk blocks).foldl (fun stat (rpos, block) =>
      let lightPoints := if step = 0 then
        r.generatedLightPoints rpos (bposAligned + rpos) block else block.lightPoints
      ((r.walk lightPoints).foldl (r.addLight step lightPoints.length) (stat, 0)).1) {}).points
  else []

def blankData (_ : V3) : MapNode := { param0 := CONTENT_IGNORE }

/-- The merged block, started from these nodes, when it is to be stored. -/
def mergeContents (step : ℕ) (bposAligned : V3) (blocks : Sources) (start : V3 → MapNode) :
    Option FarContents :=
  if r.notEmptyNodes blocks ≠ 0 then
    some ⟨r.mergeNodes blocks start, r.mergeLights step bposAligned blocks⟩
  else none

end MergeRules

/-! ### The block -/

/-- `bpos_aligned + (rpos << step)` -/
def sourcePos (step : ℕ) (bposAligned rpos : V3) : V3 :=
  ⟨bposAligned.X + rpos.X * 2 ^ step, bposAligned.Y + rpos.Y * 2 ^ step,
    bposAligned.Z + rpos.Z * 2 ^ step⟩

def eight : List V3 :=
  [⟨0, 0, 0⟩, ⟨0, 0, 1⟩, ⟨0, 1, 0⟩, ⟨0, 1, 1⟩, ⟨1, 0, 0⟩, ⟨1, 0, 1⟩, ⟨1, 1, 0⟩, ⟨1, 1, 1⟩]

/-- The block of a position of a step: at step 0 one that is in memory comes first. -/
def nblock (smap : V3 → Option MapBlock) (dbase : MapDatabase) (step : ℕ) (nbpos : V3) :
    Option MapBlock :=
  match (if step = 0 then (smap nbpos).filter MapBlock.isGenerated else none) with
  | some b => some b
  | none => loadBlock dbase nbpos

def sources {β : Type} (block : V3 → Option β) (step : ℕ) (bposAligned : V3) : List (V3 × β) :=
  eight.filterMap fun rpos => (block (sourcePos step bposAligned rpos)).map (rpos, ·)

def validUpdateTime (timestamp : ℕ) : ℕ :=
  if timestamp = 2 ^ 64 - 1 ∨ timestamp = 2 ^ 32 - 1 then 0 else timestamp

def newestBlockTime (block : MapBlock) : ℕ :=
  max block.getActualTimestamp
    (max (validUpdateTime block.heatLastUpdate) (validUpdateTime block.humidityLastUpdate))

def withinLazyWindow (sourceTime targetTime lazy : ℕ) : Bool :=
  if lazy = 0 then false
  else if sourceTime < targetTime then true
  else decide (sourceTime - targetTime < lazy)

def FARMESH_STEP_MAX : ℕ := 16

structure WorldMerger where
  rules : MergeRules
  /-- Its answers, one after the other. -/
  stopFunc : ℕ → Bool := fun _ => false
  /-- Its answer while a block of a step is merged. -/
  getTimeFunc : Option (ℕ → V3 → ℕ) := none
  worldMergeLoadAll : ℤ := 0
  isPartial : Bool := false
  lazyUp : ℕ := 0
  /-- Whether `GetFarDatabase` has a database for the step. -/
  hasFarDatabase : ℕ → Bool := fun step => decide (step < FARMESH_STEP_MAX)
  todoOrder : SetOrder V3

namespace WorldMerger

variable (m : WorldMerger)

/-- The newest of the blocks, and the time it is if they have none. -/
def mergeTimestamp (step : ℕ) (bposAligned : V3) (blocks : List (V3 × MapBlock)) : ℕ :=
  let timestamp := (blocks.map fun b => b.2.getActualTimestamp).foldl max 0
  if timestamp = 0 then (m.getTimeFunc.map fun f => f step bposAligned).getD 0 else timestamp

def sourceTime (timestamp : ℕ) (blocks : List (V3 × MapBlock)) : ℕ :=
  max timestamp (max
    (validUpdateTime ((blocks.map fun b => b.2.heatLastUpdate).foldl max 0))
    (validUpdateTime ((blocks.map fun b => b.2.humidityLastUpdate).foldl max 0)))

def blockUp (dbaseUp : MapDatabase) (bposAligned : V3) : Option MapBlock :=
  if m.isPartial then loadBlock dbaseUp bposAligned else none

def isLazy (timestamp : ℕ) (blocks : List (V3 × MapBlock)) : Option MapBlock → Bool
  | some blockUp =>
    withinLazyWindow (sourceTime timestamp blocks) (newestBlockTime blockUp) m.lazyUp
  | none => false

def mergeOneBlock (smap : V3 → Option MapBlock) (dbase dbaseUp : MapDatabase)
    (bposAligned : V3) (step : ℕ) : MapDatabase :=
  let blocks := sources (nblock smap dbase step) step bposAligned
  let timestamp := m.mergeTimestamp step bposAligned blocks
  let start := m.blockUp dbaseUp bposAligned
  if m.isLazy timestamp blocks start then dbaseUp
  else
    match m.rules.mergeContents step bposAligned (blocks.map fun b => (b.1, b.2.toFarContents))
      ((start.map fun b => b.data).getD MergeRules.blankData) with
    | some contents => dbaseUp.insert bposAligned { contents with timestamp }
    | none => dbaseUp.erase bposAligned

/-- What a merge leaves in the upper database at its position, where this was. -/
def mergedEntry (smap : V3 → Option MapBlock) (dbase : MapDatabase) (old : Option StoredBlock)
    (bposAligned : V3) (step : ℕ) : Option StoredBlock :=
  let blocks := sources (nblock smap dbase step) step bposAligned
  let timestamp := m.mergeTimestamp step bposAligned blocks
  let start := if m.isPartial then old.bind StoredBlock.load else none
  if m.isLazy timestamp blocks start then old
  else
    (m.rules.mergeContents step bposAligned (blocks.map fun b => (b.1, b.2.toFarContents))
      ((start.map fun b => b.data).getD MergeRules.blankData)).map
        fun contents => { contents with timestamp }

theorem lookup_mergeOneBlock (smap : V3 → Option MapBlock) (dbase dbaseUp : MapDatabase)
    (bposAligned : V3) (step : ℕ) (q : V3) :
    (m.mergeOneBlock smap dbase dbaseUp bposAligned step).lookup q =
      if q = bposAligned then
        m.mergedEntry smap dbase (dbaseUp.lookup bposAligned) bposAligned step
      else dbaseUp.lookup q := by
  unfold mergeOneBlock mergedEntry blockUp loadBlock
  dsimp only
  by_cases hq : q = bposAligned
  · subst hq
    rw [if_pos rfl]
    by_cases hlazy : m.isLazy (m.mergeTimestamp step q (sources (nblock smap dbase step) step q))
        (sources (nblock smap dbase step) step q)
        (if m.isPartial then (dbaseUp.lookup q).bind StoredBlock.load else none) = true
    · rw [if_pos hlazy, if_pos hlazy]
    · rw [if_neg hlazy, if_neg hlazy]
      cases m.rules.mergeContents step q _ _ with
      | none => exact Finmap.lookup_erase q dbaseUp
      | some contents => exact Finmap.lookup_insert dbaseUp
  · rw [if_neg hq]
    by_cases hlazy : m.isLazy
        (m.mergeTimestamp step bposAligned (sources (nblock smap dbase step) step bposAligned))
        (sources (nblock smap dbase step) step bposAligned)
        (if m.isPartial then (dbaseUp.lookup bposAligned).bind StoredBlock.load else none) = true
    · rw [if_pos hlazy]
    · rw [if_neg hlazy]
      cases m.rules.mergeContents step bposAligned _ _ with
      | none => exact Finmap.lookup_erase_ne hq
      | some contents => exact Finmap.lookup_insert_of_ne dbaseUp hq

end WorldMerger

end Freeminer.Merge
