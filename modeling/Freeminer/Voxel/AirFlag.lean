import Freeminer.Lib.Cached
import Freeminer.Lib.Machine
import Freeminer.Voxel.Update

/-! The flag of a `MapBlock` that caches whether all of its nodes are air, and the operations of
`MapBlock` and `Map` that write nodes. -/

namespace Freeminer.Voxel

open Lib
open Block (MapNode Content CONTENT_AIR CONTENT_IGNORE)

/-- The relative positions of a block, in the order of `data`. -/
def relPositions : List V3 :=
  (List.range 16).flatMap fun (z : ℕ) => (List.range 16).flatMap fun (y : ℕ) =>
    (List.range 16).map fun (x : ℕ) => ⟨x, y, z⟩

/-- The loop of `actuallyUpdateIsAir`. -/
def MapBlock.allAir (b : MapBlock) : Bool :=
  relPositions.all fun rel => decide ((b.data rel).param0 = CONTENT_AIR)

/-- The condition of `tryShrinkNodes`. -/
def MapBlock.uniform (b : MapBlock) : Bool :=
  relPositions.all fun rel => decide (b.data rel = b.data ⟨0, 0, 0⟩)

namespace Map

theorem bottom_le_update (m : Map) (blockpos : V3) (f : MapBlock → MapBlock) :
    ∀ b, (Function.update m.block blockpos ((m.block blockpos).map f) b).isSome = true →
      m.bottom ≤ b.Y := by
  intro b hb
  apply m.bottom_le
  by_cases h : b = blockpos
  · subst h
    rwa [Function.update_self, Option.isSome_map] at hb
  · rwa [Function.update_of_ne h] at hb

def modifyBlock (m : Map) (blockpos : V3) (f : MapBlock → MapBlock) : Map where
  ndef := m.ndef
  block := Function.update m.block blockpos ((m.block blockpos).map f)
  bottom := m.bottom
  bottom_le := bottom_le_update m blockpos f

theorem bottom_le_insert (m : Map) (blockpos : V3) (block : MapBlock) :
    ∀ b, (Function.update m.block blockpos (some block) b).isSome = true →
      min m.bottom blockpos.Y ≤ b.Y := by
  intro b hb
  by_cases h : b = blockpos
  · subst h
    exact min_le_right _ _
  · rw [Function.update_of_ne h] at hb
    exact (min_le_left _ _).trans (m.bottom_le b hb)

def insertBlock (m : Map) (blockpos : V3) (block : MapBlock) : Map where
  ndef := m.ndef
  block := Function.update m.block blockpos (some block)
  bottom := min m.bottom blockpos.Y
  bottom_le := bottom_le_insert m blockpos block

def blockAir (m : Map) (blockpos : V3) : Option Bool := (m.block blockpos).map MapBlock.allAir

end Map

/-- The loaded blocks with the flag `m_is_air` of each, unless it expired. -/
structure AirMap where
  map : Map
  isAir : V3 → Option Bool := fun _ => none

namespace AirMap

/-! ## Operations of `MapBlock` -/

def expireIsAirCache (s : AirMap) (blockpos : V3) : AirMap :=
  { s with isAir := Function.update s.isAir blockpos none }

/-- `isAir`, which updates a flag that expired. -/
def getIsAir (s : AirMap) (blockpos : V3) : Option (Bool × AirMap) :=
  (s.map.block blockpos).map fun block =>
    match s.isAir blockpos with
    | some air => (air, s)
    | none => (block.allAir, { s with isAir := Function.update s.isAir blockpos (some block.allAir) })

/-- `setNodeNoCheck` of a block: the flag is not touched by `raiseModified`. -/
def setNodeNoCheck (s : AirMap) (blockpos rel : V3) (n : MapNode) : AirMap :=
  { s with map := s.map.setBlockNode blockpos rel n }

/-- `setNodeNoLock`, which is `setNodeNoCheck` without the lock. -/
def setNodeNoLock (s : AirMap) (blockpos rel : V3) (n : MapNode) : AirMap :=
  s.setNodeNoCheck blockpos rel n

/-- `MapBlock::setNode`, which looks at the light besides. -/
def setBlockNode (s : AirMap) (blockpos rel : V3) (n : MapNode) : AirMap :=
  s.setNodeNoCheck blockpos rel n

def fill (s : AirMap) (blockpos : V3) (n : MapNode) : AirMap :=
  { s with map := s.map.modifyBlock blockpos fun block => { block with data := fun _ => n } }

/-- The nodes of a block with those of a voxel manipulator over them: it does not copy what it has
no content of. -/
def copied (src : V3 → MapNode) (block : MapBlock) : MapBlock :=
  { block with
    data := fun rel => if (src rel).param0 ≠ CONTENT_IGNORE then src rel else block.data rel }

/-- `copyFrom`. On a server a block of equal nodes shrinks, and its flag is set. -/
def copyFrom (isClient : Bool) (s : AirMap) (blockpos : V3) (src : V3 → MapNode) : AirMap :=
  match s.map.block blockpos with
  | none => s
  | some block =>
    let block := copied src block
    let s := { s with map := s.map.modifyBlock blockpos (copied src) }
    if isClient = false ∧ block.uniform = true then
      { s with
        isAir := Function.update s.isAir blockpos
          (some (decide ((block.data ⟨0, 0, 0⟩).param0 = CONTENT_AIR))) }
    else s

/-! ## Operations of `Map` -/

/-- `set_node_in_block` -/
def setNodeInBlock (s : AirMap) (blockpos rel : V3) (n : MapNode) : AirMap :=
  if n.param0 = CONTENT_IGNORE then s else s.setNodeNoCheck blockpos rel n

/-- `Map::setNode`; where no block is loaded it throws and leaves the map. -/
def setNode (s : AirMap) (p : V3) (n : MapNode) : AirMap :=
  s.setNodeInBlock (getNodeBlockPos p) (relPos p) n

/-- The light of another node, as `setLight` of both banks takes it over. -/
def withLightOf (m : Map) (n oldnode : MapNode) : MapNode :=
  let f := m.getLightingFlags n
  let oldf := m.getLightingFlags oldnode
  setLight (setLight n .day (getLightRaw oldnode .day oldf) f) .night
    (getLightRaw oldnode .night oldf) f

/-- The fast variants of `addNodeAndUpdate`. -/
def addNodeFast (s : AirMap) (p : V3) (n : MapNode) (fast : ℤ) : AirMap :=
  let oldnode := (s.map.getNode p).getD { param0 := CONTENT_IGNORE }
  let n :=
    if fast = 2 ∧ n.param1 = 0 ∧ oldnode.param0 ≠ CONTENT_IGNORE then withLightOf s.map n oldnode
    else n
  s.setNode p n

def addNodeLit (s : AirMap) (p : V3) (n oldnode : MapNode) : AirMap :=
  let f := s.map.getLightingFlags n
  let t :=
    if f = s.map.getLightingFlags oldnode then
      s.setNodeInBlock (getNodeBlockPos p) (relPos p) (withLightOf s.map n oldnode)
    else
      let t := s.setNodeInBlock (getNodeBlockPos p) (relPos p)
        (setLight (setLight n .day 0 f) .night 0 f)
      { t with map := updateLightingNodes t.map [(p, oldnode)] }
  if n.param0 ≠ oldnode.param0 ∧ (oldnode.param0 = CONTENT_AIR ∨ n.param0 = CONTENT_AIR) then
    t.expireIsAirCache (getNodeBlockPos p)
  else t

def addNodeAndUpdate (s : AirMap) (p : V3) (n : MapNode) (fast : ℤ) : AirMap :=
  if fast = 1 ∨ fast = 2 then s.addNodeFast p n fast
  else
    match s.map.getNode p with
    | none => s
    | some oldnode => s.addNodeLit p n oldnode

def removeNodeAndUpdate (s : AirMap) (p : V3) (fast : ℤ) : AirMap :=
  s.addNodeAndUpdate p { param0 := CONTENT_AIR } fast

/-- One block of `MMVManip::blitBackAll`; a block that is not there is loaded before it. -/
def blitBack (isClient overwrite_generated : Bool) (s : AirMap) (b : V3 × (V3 → MapNode)) :
    AirMap :=
  match s.map.block b.1 with
  | none => s
  | some block =>
    if overwrite_generated = false ∧ block.isGenerated = true then s
    else (s.copyFrom isClient b.1 b.2).expireIsAirCache b.1

def blitBackAll (isClient : Bool) (s : AirMap) (blocks : List (V3 × (V3 → MapNode)))
    (overwrite_generated : Bool) : AirMap :=
  blocks.foldl (blitBack isClient overwrite_generated) s

/-- `emergeBlock`: a block that is not there is loaded, with a flag that has expired. -/
def emergeBlock (s : AirMap) (blockpos : V3) (block : MapBlock) : AirMap :=
  match s.map.block blockpos with
  | some _ => s
  | none =>
    { map := s.map.insertBlock blockpos block
      isAir := Function.update s.isAir blockpos none }

end AirMap

/-- What blocks and the map are asked for. The nodes of a block are given by positions in it. -/
inductive AirOp where
  | setNodeNoCheck (blockpos : V3) (rel : { rel : V3 // InBlock rel }) (n : MapNode)
  | setNodeNoLock (blockpos : V3) (rel : { rel : V3 // InBlock rel }) (n : MapNode)
  | setBlockNode (blockpos : V3) (rel : { rel : V3 // InBlock rel }) (n : MapNode)
  | fill (blockpos : V3) (n : MapNode)
  | copyFrom (blockpos : V3) (src : V3 → MapNode)
  | setNode (p : V3) (n : MapNode)
  | addNodeAndUpdate (p : V3) (n : MapNode) (fast : ℤ)
  | removeNodeAndUpdate (p : V3) (fast : ℤ)
  | blitBackAll (blocks : List (V3 × (V3 → MapNode))) (overwrite_generated : Bool)
  | emergeBlock (blockpos : V3) (block : MapBlock)
  | expireIsAirCache (blockpos : V3)
  | isAir (blockpos : V3)

/-- The state after an operation, and what `isAir` answers. -/
def AirMap.step (isClient : Bool) (s : AirMap) : AirOp → AirMap × Option Bool
  | .setNodeNoCheck blockpos rel n => (s.setNodeNoCheck blockpos rel n, none)
  | .setNodeNoLock blockpos rel n => (s.setNodeNoLock blockpos rel n, none)
  | .setBlockNode blockpos rel n => (s.setBlockNode blockpos rel n, none)
  | .fill blockpos n => (s.fill blockpos n, none)
  | .copyFrom blockpos src => (s.copyFrom isClient blockpos src, none)
  | .setNode p n => (s.setNode p n, none)
  | .addNodeAndUpdate p n fast => (s.addNodeAndUpdate p n fast, none)
  | .removeNodeAndUpdate p fast => (s.removeNodeAndUpdate p fast, none)
  | .blitBackAll blocks overwrite_generated =>
    (s.blitBackAll isClient blocks overwrite_generated, none)
  | .emergeBlock blockpos block => (s.emergeBlock blockpos block, none)
  | .expireIsAirCache blockpos => (s.expireIsAirCache blockpos, none)
  | .isAir blockpos =>
    match s.getIsAir blockpos with
    | none => (s, none)
    | some (air, s) => (s, some air)

/-- A map whose flags have all expired, as they are in new blocks. -/
def airMachine (isClient : Bool) (m : Map) : Machine AirMap AirOp (Option Bool) where
  init := { map := m }
  step s op := some (s.step isClient op)

/-- `isAir` of each block is true just when all of its nodes are air. -/
def AirMap.Sound (s : AirMap) : Prop :=
  ∀ blockpos block air t, s.map.block blockpos = some block →
    s.getIsAir blockpos = some (air, t) →
      (air = true ↔ ∀ rel, InBlock rel → (block.data rel).param0 = CONTENT_AIR)

/-- A node that is written in a block with a flag does not change whether all nodes are air: it is
air just when the node in its place is, or another node is not. -/
def AirMap.WriteKeeps (s : AirMap) (blockpos rel : V3) (n : MapNode) : Prop :=
  ∀ block, s.map.block blockpos = some block → s.isAir blockpos = none ∨
    (n.param0 = CONTENT_AIR ↔ (block.data rel).param0 = CONTENT_AIR) ∨
    ∃ rel', InBlock rel' ∧ rel' ≠ rel ∧ (block.data rel').param0 ≠ CONTENT_AIR

/-- The operation leaves no flag behind that its writes make wrong. -/
def AirMap.Harmless (isClient : Bool) (s : AirMap) : AirOp → Prop
  | .setNodeNoCheck blockpos rel n => s.WriteKeeps blockpos rel n
  | .setNodeNoLock blockpos rel n => s.WriteKeeps blockpos rel n
  | .setBlockNode blockpos rel n => s.WriteKeeps blockpos rel n
  | .fill blockpos n => ∀ block, s.map.block blockpos = some block → s.isAir blockpos = none ∨
      (n.param0 = CONTENT_AIR ↔ block.allAir = true)
  | .copyFrom blockpos src => ∀ block, s.map.block blockpos = some block →
      s.isAir blockpos = none ∨ (isClient = false ∧ (copied src block).uniform = true) ∨
      (copied src block).allAir = block.allAir
  | .setNode p n => n.param0 = CONTENT_IGNORE ∨ s.WriteKeeps (getNodeBlockPos p) (relPos p) n
  | .addNodeAndUpdate p n fast => fast = 1 ∨ fast = 2 → n.param0 = CONTENT_IGNORE ∨
      s.WriteKeeps (getNodeBlockPos p) (relPos p) n
  | .removeNodeAndUpdate p fast => fast = 1 ∨ fast = 2 →
      s.WriteKeeps (getNodeBlockPos p) (relPos p) { param0 := CONTENT_AIR }
  | _ => True

/-! When the cached air flags are right: all writes go past the flag but those that add a node with
its light, and a flag that is kept is right just when the writes change nothing about the air. -/

variable {s : AirMap} {m m' : Map} {blockpos rel p : V3} {n oldnode : MapNode} {block : MapBlock}

theorem mem_relPositions : rel ∈ relPositions ↔ InBlock rel := by
  obtain ⟨X, Y, Z⟩ := rel
  unfold relPositions InBlock MAP_BLOCKSIZE
  simp only [List.mem_flatMap, List.mem_map, List.mem_range, V3.mk.injEq]
  constructor
  · intro ⟨z, hz, y, hy, x, hx, heqX, heqY, heqZ⟩
    omega
  · intro h
    exact ⟨Z.toNat, by omega, Y.toNat, by omega, X.toNat, by omega, by omega, by omega, by omega⟩

theorem MapBlock.allAir_iff :
    block.allAir = true ↔ ∀ rel, InBlock rel → (block.data rel).param0 = CONTENT_AIR := by
  simp only [allAir, List.all_eq_true, mem_relPositions, decide_eq_true_eq]

theorem MapBlock.uniform_iff :
    block.uniform = true ↔ ∀ rel, InBlock rel → block.data rel = block.data ⟨0, 0, 0⟩ := by
  simp only [uniform, List.all_eq_true, mem_relPositions, decide_eq_true_eq]

theorem inBlock_zero : InBlock ⟨0, 0, 0⟩ := by
  unfold InBlock MAP_BLOCKSIZE
  decide

theorem MapBlock.allAir_of_uniform (h : block.uniform = true) :
    block.allAir = decide ((block.data ⟨0, 0, 0⟩).param0 = CONTENT_AIR) := by
  rw [Bool.eq_iff_iff, allAir_iff, decide_eq_true_eq]
  constructor
  · intro hall
    exact hall _ inBlock_zero
  · intro hzero rel hrel
    rw [uniform_iff.mp h rel hrel, hzero]

/-- One node does not change whether all are air when it is as the one before, or another is not. -/
theorem MapBlock.allAir_update_iff (hrel : InBlock rel) :
    ({ block with data := Function.update block.data rel n } : MapBlock).allAir = block.allAir ↔
      (n.param0 = CONTENT_AIR ↔ (block.data rel).param0 = CONTENT_AIR) ∨
        ∃ rel', InBlock rel' ∧ rel' ≠ rel ∧ (block.data rel').param0 ≠ CONTENT_AIR := by
  have hupdate : ({ block with data := Function.update block.data rel n } : MapBlock).allAir = true ↔
      n.param0 = CONTENT_AIR ∧
        ∀ rel', InBlock rel' → rel' ≠ rel → (block.data rel').param0 = CONTENT_AIR := by
    rw [allAir_iff]
    constructor
    · intro hall
      refine ⟨by simpa using hall rel hrel, ?_⟩
      intro rel' hrel' hne
      simpa [Function.update_of_ne hne] using hall rel' hrel'
    · rintro ⟨hn, hothers⟩ rel' hrel'
      by_cases hne : rel' = rel
      · subst hne
        simpa using hn
      · simpa [Function.update_of_ne hne] using hothers rel' hrel' hne
  have hblock : block.allAir = true ↔ (block.data rel).param0 = CONTENT_AIR ∧
      ∀ rel', InBlock rel' → rel' ≠ rel → (block.data rel').param0 = CONTENT_AIR := by
    rw [allAir_iff]
    constructor
    · intro hall
      exact ⟨hall rel hrel, fun rel' hrel' _ => hall rel' hrel'⟩
    · rintro ⟨hn, hothers⟩ rel' hrel'
      by_cases hne : rel' = rel
      · exact hne ▸ hn
      · exact hothers rel' hrel' hne
  have hothers : (∃ rel', InBlock rel' ∧ rel' ≠ rel ∧ (block.data rel').param0 ≠ CONTENT_AIR) ↔
      ¬ ∀ rel', InBlock rel' → rel' ≠ rel → (block.data rel').param0 = CONTENT_AIR := by
    push Not
    rfl
  rw [Bool.eq_iff_iff, hupdate, hblock, hothers]
  tauto

/-! ## The blocks of a map -/

theorem blockAir_of_block (h : m.block blockpos = some block) :
    m.blockAir blockpos = some block.allAir := by
  rw [Map.blockAir, h, Option.map_some]

theorem blockAir_setBlockNode_of_ne (m : Map) (n : MapNode) {b : V3} (h : b ≠ blockpos) :
    (m.setBlockNode blockpos rel n).blockAir b = m.blockAir b := by
  unfold Map.blockAir Map.setBlockNode Map.blockWith
  dsimp only
  rw [Function.update_of_ne h]

theorem blockAir_modifyBlock_of_ne (m : Map) (f : MapBlock → MapBlock) {b : V3}
    (h : b ≠ blockpos) : (m.modifyBlock blockpos f).blockAir b = m.blockAir b := by
  unfold Map.blockAir Map.modifyBlock
  dsimp only
  rw [Function.update_of_ne h]

theorem blockAir_modifyBlock (f : MapBlock → MapBlock) (h : m.block blockpos = some block) :
    (m.modifyBlock blockpos f).blockAir blockpos = some (f block).allAir := by
  unfold Map.blockAir Map.modifyBlock
  dsimp only
  rw [Function.update_self, h, Option.map_some, Option.map_some]

theorem blockAir_setBlockNode (n : MapNode) (h : m.block blockpos = some block) :
    (m.setBlockNode blockpos rel n).blockAir blockpos =
      some ({ block with data := Function.update block.data rel n } : MapBlock).allAir := by
  unfold Map.blockAir Map.setBlockNode Map.blockWith
  dsimp only
  rw [Function.update_self, h, Option.map_some, Option.map_some]

/-- Where no block is loaded, a write changes nothing. -/
theorem blockAir_setBlockNode_none (n : MapNode) (h : m.block blockpos = none) :
    (m.setBlockNode blockpos rel n).blockAir = m.blockAir := by
  funext b
  by_cases hb : b = blockpos
  · subst hb
    unfold Map.blockAir Map.setBlockNode Map.blockWith
    dsimp only
    rw [Function.update_self, h, Option.map_none]
  · exact blockAir_setBlockNode_of_ne m n hb

theorem blockAir_modifyBlock_none (f : MapBlock → MapBlock) (h : m.block blockpos = none) :
    (m.modifyBlock blockpos f).blockAir = m.blockAir := by
  funext b
  by_cases hb : b = blockpos
  · subst hb
    unfold Map.blockAir Map.modifyBlock
    dsimp only
    rw [Function.update_self, h, Option.map_none]
  · exact blockAir_modifyBlock_of_ne m f hb

theorem getNode_nodePos (h : InBlock rel) :
    m.getNode (nodePos blockpos rel) = (m.block blockpos).map (·.data rel) := by
  rw [← Map.getBlockNode_eq m blockpos h, Map.getBlockNode]

/-- What changes the light only leaves the air. -/
theorem blockAir_of_sameContent (h : Map.SameContent m m') : m'.blockAir = m.blockAir := by
  funext b
  have hcontent : ∀ rel, InBlock rel → (m'.block b).map (fun block => (block.data rel).param0) =
      (m.block b).map (fun block => (block.data rel).param0) := by
    intro rel hrel
    have hnode := h.content (nodePos b rel)
    rw [getNode_nodePos hrel, getNode_nodePos hrel, Option.map_map, Option.map_map] at hnode
    exact hnode
  unfold Map.blockAir
  cases hb : m.block b with
  | none =>
    have hzero := hcontent _ inBlock_zero
    rw [hb, Option.map_none, Option.map_eq_none_iff] at hzero
    rw [hzero, Option.map_none]
  | some block =>
    have hzero := hcontent _ inBlock_zero
    rw [hb, Option.map_some, Option.map_eq_some_iff] at hzero
    obtain ⟨block', hb', -⟩ := hzero
    rw [hb', Option.map_some, Option.map_some, Option.some.injEq, Bool.eq_iff_iff,
      MapBlock.allAir_iff, MapBlock.allAir_iff]
    refine forall₂_congr fun rel hrel => ?_
    have hrel' := hcontent rel hrel
    rw [hb, hb', Option.map_some, Option.map_some, Option.some.injEq] at hrel'
    rw [hrel']

theorem sameContent_updateLightingNodes (m : Map) (oldnodes : OldNodes) :
    Map.SameContent m (updateLightingNodes m oldnodes) :=
  (updateBank_other .day oldnodes m).1.trans (updateBank_other .night oldnodes _).1

namespace AirMap

/-! ## One operation -/

theorem sound_iff_fresh : s.Sound ↔ Fresh s.map.blockAir s.isAir := by
  constructor
  · intro h b v a hv ha
    obtain ⟨block, hb, rfl⟩ := Option.map_eq_some_iff.mp hv
    have hget : s.getIsAir b = some (a, s) := by simp [getIsAir, hb, ha]
    rw [Bool.eq_iff_iff, MapBlock.allAir_iff]
    exact h b block a s hb hget
  · intro h b block air t hb hget
    rw [← MapBlock.allAir_iff, ← Bool.eq_iff_iff]
    rw [getIsAir, hb, Option.map_some, Option.some.injEq] at hget
    cases hc : s.isAir b with
    | none =>
      simp only [hc, Prod.mk.injEq] at hget
      exact hget.1.symm
    | some a =>
      simp only [hc, Prod.mk.injEq] at hget
      rw [← hget.1]
      exact h b _ a (blockAir_of_block hb) hc

variable (h : Fresh s.map.blockAir s.isAir)

include h

theorem fresh_setNodeNoCheck_iff (hrel : InBlock rel) :
    Fresh (s.setNodeNoCheck blockpos rel n).map.blockAir (s.setNodeNoCheck blockpos rel n).isAir ↔
      s.WriteKeeps blockpos rel n := by
  unfold setNodeNoCheck WriteKeeps
  cases hb : s.map.block blockpos with
  | none =>
    simp only [reduceCtorEq, false_implies, implies_true, iff_true]
    exact h.congr (blockAir_setBlockNode_none n hb)
  | some block =>
    simp only [Option.some.injEq, forall_eq']
    rw [fresh_kept_iff h (fun b hne => blockAir_setBlockNode_of_ne s.map n hne)
      (blockAir_of_block hb) (blockAir_setBlockNode n hb), MapBlock.allAir_update_iff hrel]

theorem fresh_fill_iff :
    Fresh (s.fill blockpos n).map.blockAir (s.fill blockpos n).isAir ↔
      ∀ block, s.map.block blockpos = some block → s.isAir blockpos = none ∨
        (n.param0 = CONTENT_AIR ↔ block.allAir = true) := by
  unfold fill
  cases hb : s.map.block blockpos with
  | none =>
    simp only [reduceCtorEq, false_implies, implies_true, iff_true]
    exact h.congr (blockAir_modifyBlock_none _ hb)
  | some block =>
    have hfill : ({ block with data := fun _ => n } : MapBlock).allAir = true ↔
        n.param0 = CONTENT_AIR := by
      rw [MapBlock.allAir_iff]
      exact ⟨fun hall => hall _ inBlock_zero, fun hn _ _ => hn⟩
    simp only [Option.some.injEq, forall_eq']
    rw [fresh_kept_iff h (fun b hne => blockAir_modifyBlock_of_ne s.map _ hne)
      (blockAir_of_block hb) (blockAir_modifyBlock _ hb), Bool.eq_iff_iff, hfill]

theorem fresh_copyFrom_iff (isClient : Bool) (src : V3 → MapNode) :
    Fresh (s.copyFrom isClient blockpos src).map.blockAir
        (s.copyFrom isClient blockpos src).isAir ↔
      ∀ block, s.map.block blockpos = some block →
        s.isAir blockpos = none ∨ (isClient = false ∧ (copied src block).uniform = true) ∨
          (copied src block).allAir = block.allAir := by
  unfold copyFrom
  cases hb : s.map.block blockpos with
  | none =>
    simp only [reduceCtorEq, false_implies, implies_true, iff_true]
    exact h
  | some block =>
    have hothers : ∀ b ≠ blockpos, (s.map.modifyBlock blockpos (copied src)).blockAir b =
        s.map.blockAir b := fun b hne => blockAir_modifyBlock_of_ne s.map _ hne
    have hself := blockAir_modifyBlock (copied src) hb
    simp only [Option.some.injEq, forall_eq']
    split_ifs with hshrink
    · rw [MapBlock.allAir_of_uniform hshrink.2] at hself
      exact iff_of_true (h.store hothers hself) (Or.inr (Or.inl hshrink))
    · rw [fresh_kept_iff h hothers (blockAir_of_block hb) hself]
      exact or_congr_right (or_iff_right hshrink).symm

/-- What changes a block and lets its flag expire. -/
theorem fresh_expireIsAirCache {t : AirMap} (hmap : ∀ b ≠ blockpos, t.map.blockAir b = s.map.blockAir b)
    (hflags : ∀ b ≠ blockpos, t.isAir b = s.isAir b) :
    Fresh (t.expireIsAirCache blockpos).map.blockAir (t.expireIsAirCache blockpos).isAir := by
  unfold expireIsAirCache
  refine (fresh_iff_at h hmap fun b hne => ?_).mpr ?_
  · exact (Function.update_of_ne hne _ _).trans (hflags b hne)
  · intro v a _ ha
    dsimp only at ha
    rw [Function.update_self] at ha
    cases ha

theorem fresh_setNodeInBlock_iff (hrel : InBlock rel) :
    Fresh (s.setNodeInBlock blockpos rel n).map.blockAir (s.setNodeInBlock blockpos rel n).isAir ↔
      n.param0 = CONTENT_IGNORE ∨ s.WriteKeeps blockpos rel n := by
  unfold setNodeInBlock
  split_ifs with hignore
  · exact iff_of_true h (Or.inl hignore)
  · rw [fresh_setNodeNoCheck_iff h hrel]
    exact (or_iff_right hignore).symm

omit h in
theorem blockAir_setNodeInBlock_of_ne (s : AirMap) (n : MapNode) {b : V3} (hne : b ≠ blockpos) :
    (s.setNodeInBlock blockpos rel n).map.blockAir b = s.map.blockAir b := by
  unfold setNodeInBlock
  split_ifs
  · rfl
  · exact blockAir_setBlockNode_of_ne s.map n hne

omit h in
@[simp] theorem setNodeInBlock_isAir (s : AirMap) (n : MapNode) :
    (s.setNodeInBlock blockpos rel n).isAir = s.isAir := by
  unfold setNodeInBlock
  split_ifs <;> rfl

omit h in
@[simp] theorem withLightOf_param0 (m : Map) (n oldnode : MapNode) :
    (withLightOf m n oldnode).param0 = n.param0 := by
  simp [withLightOf]

theorem fresh_addNodeFast_iff (fast : ℤ) :
    Fresh (s.addNodeFast p n fast).map.blockAir (s.addNodeFast p n fast).isAir ↔
      n.param0 = CONTENT_IGNORE ∨ s.WriteKeeps (getNodeBlockPos p) (relPos p) n := by
  unfold addNodeFast setNode
  rw [fresh_setNodeInBlock_iff h (inBlock_relPos p)]
  unfold WriteKeeps
  split_ifs <;> simp

/-- What `addNodeAndUpdate` does to a block but for its flag. -/
structure Placed (s t : AirMap) (p : V3) (n : MapNode) : Prop where
  others : ∀ b ≠ getNodeBlockPos p, t.map.blockAir b = s.map.blockAir b
  flags : t.isAir = s.isAir
  fresh : n.param0 = CONTENT_IGNORE ∨ s.WriteKeeps (getNodeBlockPos p) (relPos p) n →
    Fresh t.map.blockAir t.isAir

theorem placed_setNodeInBlock {n' : MapNode} (hn : n'.param0 = n.param0) :
    Placed s (s.setNodeInBlock (getNodeBlockPos p) (relPos p) n') p n := by
  refine ⟨fun b hne => blockAir_setNodeInBlock_of_ne s n' hne, by simp, ?_⟩
  intro hkeeps
  apply (fresh_setNodeInBlock_iff h (inBlock_relPos p)).mpr
  unfold WriteKeeps at hkeeps ⊢
  rwa [hn]

/-- A node that is added with its light: the flag expires where the air changes. -/
theorem fresh_addNodeLit (hold : s.map.getNode p = some oldnode) :
    Fresh (s.addNodeLit p n oldnode).map.blockAir (s.addNodeLit p n oldnode).isAir := by
  have hplaced : ∀ t, Placed s t p n → Fresh
      (if n.param0 ≠ oldnode.param0 ∧ (oldnode.param0 = CONTENT_AIR ∨ n.param0 = CONTENT_AIR) then
        t.expireIsAirCache (getNodeBlockPos p) else t).map.blockAir
      (if n.param0 ≠ oldnode.param0 ∧ (oldnode.param0 = CONTENT_AIR ∨ n.param0 = CONTENT_AIR) then
        t.expireIsAirCache (getNodeBlockPos p) else t).isAir := by
    intro t ht
    split_ifs with hair
    · exact fresh_expireIsAirCache h ht.others fun b _ => by rw [ht.flags]
    · apply ht.fresh
      right
      intro block hb
      have hdata : block.data (relPos p) = oldnode := by
        rw [Map.getNode, Map.getBlockNode, hb] at hold
        exact Option.some.inj hold
      rw [hdata]
      by_cases heq : n.param0 = oldnode.param0
      · exact Or.inr (Or.inl (by rw [heq]))
      · have hneither : ¬ (oldnode.param0 = CONTENT_AIR ∨ n.param0 = CONTENT_AIR) :=
          fun hor => hair ⟨heq, hor⟩
        exact Or.inr (Or.inl (by tauto))
  unfold addNodeLit
  apply hplaced
  split_ifs
  · exact placed_setNodeInBlock h (withLightOf_param0 _ _ _)
  · have hput : Placed s (s.setNodeInBlock (getNodeBlockPos p) (relPos p)
        (setLight (setLight n .day 0 (s.map.getLightingFlags n)) .night 0
          (s.map.getLightingFlags n))) p n := placed_setNodeInBlock h (by simp)
    have hlight := blockAir_of_sameContent (sameContent_updateLightingNodes
      (s.setNodeInBlock (getNodeBlockPos p) (relPos p)
        (setLight (setLight n .day 0 (s.map.getLightingFlags n)) .night 0
          (s.map.getLightingFlags n))).map [(p, oldnode)])
    refine ⟨fun b hne => ?_, hput.flags, fun hkeeps => (hput.fresh hkeeps).congr hlight⟩
    rw [hlight]
    exact hput.others b hne

theorem fresh_addNodeAndUpdate_iff (fast : ℤ) :
    Fresh (s.addNodeAndUpdate p n fast).map.blockAir (s.addNodeAndUpdate p n fast).isAir ↔
      (fast = 1 ∨ fast = 2 → n.param0 = CONTENT_IGNORE ∨
        s.WriteKeeps (getNodeBlockPos p) (relPos p) n) := by
  unfold addNodeAndUpdate
  split_ifs with hfast
  · rw [fresh_addNodeFast_iff h fast]
    exact ⟨fun hkeeps _ => hkeeps, fun hkeeps => hkeeps hfast⟩
  · refine iff_of_true ?_ fun hfast' => absurd hfast' hfast
    cases hold : s.map.getNode p with
    | none => exact h
    | some oldnode => exact fresh_addNodeLit h hold

theorem fresh_blitBack (isClient overwrite_generated : Bool) (b : V3 × (V3 → MapNode)) :
    Fresh (s.blitBack isClient overwrite_generated b).map.blockAir
      (s.blitBack isClient overwrite_generated b).isAir := by
  unfold blitBack
  cases hb : s.map.block b.1 with
  | none => exact h
  | some block =>
    dsimp only
    split_ifs
    · exact h
    · apply fresh_expireIsAirCache h
      · intro c hne
        unfold copyFrom
        rw [hb]
        dsimp only
        split_ifs <;> exact blockAir_modifyBlock_of_ne s.map _ hne
      · intro c hne
        unfold copyFrom
        rw [hb]
        dsimp only
        split_ifs
        · exact Function.update_of_ne hne _ _
        · rfl

theorem fresh_blitBackAll (isClient : Bool) (blocks : List (V3 × (V3 → MapNode)))
    (overwrite_generated : Bool) :
    Fresh (s.blitBackAll isClient blocks overwrite_generated).map.blockAir
      (s.blitBackAll isClient blocks overwrite_generated).isAir := by
  unfold blitBackAll
  induction blocks generalizing s with
  | nil => exact h
  | cons b blocks ih => exact ih (fresh_blitBack h isClient overwrite_generated b)

theorem fresh_emergeBlock :
    Fresh (s.emergeBlock blockpos block).map.blockAir (s.emergeBlock blockpos block).isAir := by
  unfold emergeBlock
  cases hb : s.map.block blockpos with
  | some _ => exact h
  | none =>
    refine h.expire fun b hne => ?_
    unfold Map.blockAir Map.insertBlock
    dsimp only
    rw [Function.update_of_ne hne]

/-- Asking for a flag stores what is answered. -/
theorem fresh_getIsAir {air : Bool} {t : AirMap} (hget : s.getIsAir blockpos = some (air, t)) :
    Fresh t.map.blockAir t.isAir := by
  obtain ⟨block, hb, heq⟩ := Option.map_eq_some_iff.mp hget
  cases hc : s.isAir blockpos with
  | some a =>
    simp only [hc, Prod.mk.injEq] at heq
    exact heq.2 ▸ h
  | none =>
    simp only [hc, Prod.mk.injEq] at heq
    rw [← heq.2]
    exact h.store (fun _ _ => rfl) (blockAir_of_block hb)

omit h in
/-- An operation keeps the flags right just when it is harmless. -/
theorem sound_step_iff (isClient : Bool) (op : AirOp) (hs : s.Sound) :
    (s.step isClient op).1.Sound ↔ s.Harmless isClient op := by
  have h := sound_iff_fresh.mp hs
  rw [sound_iff_fresh]
  cases op with
  | setNodeNoCheck blockpos rel n => exact fresh_setNodeNoCheck_iff h rel.2
  | setNodeNoLock blockpos rel n => exact fresh_setNodeNoCheck_iff h rel.2
  | setBlockNode blockpos rel n => exact fresh_setNodeNoCheck_iff h rel.2
  | fill blockpos n => exact fresh_fill_iff h
  | copyFrom blockpos src => exact fresh_copyFrom_iff h isClient src
  | setNode p n => exact fresh_setNodeInBlock_iff h (inBlock_relPos p)
  | addNodeAndUpdate p n fast => exact fresh_addNodeAndUpdate_iff h fast
  | removeNodeAndUpdate p fast =>
    refine (fresh_addNodeAndUpdate_iff h fast).trans ?_
    exact forall_congr' fun _ => or_iff_right (by decide)
  | blitBackAll blocks overwrite_generated =>
    exact iff_of_true (fresh_blitBackAll h isClient blocks overwrite_generated) trivial
  | emergeBlock blockpos block => exact iff_of_true (fresh_emergeBlock h) trivial
  | expireIsAirCache blockpos =>
    exact iff_of_true (fresh_expireIsAirCache h (fun _ _ => rfl) fun _ _ => rfl) trivial
  | isAir blockpos =>
    refine iff_of_true ?_ trivial
    cases hget : s.getIsAir blockpos with
    | none => simpa [step, hget] using h
    | some x => simpa [step, hget] using fresh_getIsAir h hget

end AirMap

def airyFlags (c : Content) : ContentLightingFlags where
  lightSource := 0
  hasLight := decide (c = CONTENT_AIR)
  lightPropagates := decide (c = CONTENT_AIR)
  sunlightPropagates := decide (c = CONTENT_AIR)
  hasLight_eq := rfl
  lightSource_le := Nat.zero_le _

def airyMap : Map where
  ndef := airyFlags
  block := Function.update (fun _ => none) ⟨0, 0, 0⟩ (some { data := fun _ => ⟨CONTENT_AIR, 0, 0⟩ })
  bottom := 0
  bottom_le := by
    intro b hb
    by_cases h : b = ⟨0, 0, 0⟩
    · rw [h]
    · rw [Function.update_of_ne h] at hb
      cases hb

/-- The block is asked for its flag, and a stone is placed by the fast variant. -/
def stonePlaced : List AirOp := [.isAir ⟨0, 0, 0⟩, .addNodeAndUpdate ⟨1, 2, 3⟩ ⟨1, 0, 0⟩ 2]

end Freeminer.Voxel
