import Mathlib.Algebra.Order.Group.Unbundled.Abs
import Mathlib.Algebra.Order.Group.Int
import Mathlib.Algebra.Ring.Int.Defs
import Mathlib.Algebra.Ring.Nat
import Freeminer.Lib.Subdivision

/-! `fm_far_calc.cpp`: the grid of the far mesh, an octree around the player. `runFarAll` enumerates
its cells, `getFarParams` looks up the one of a block. Positions are block positions. -/

namespace Freeminer.Far

open Lib

/-- `v3bpos_t`. -/
structure V3 where
  X : ℤ
  Y : ℤ
  Z : ℤ
  deriving DecidableEq

def FARMESH_STEP_MAX : ℕ := 16

structure MapDrawControl where
  farmesh : ℤ
  cellSizePow : ℕ
  farmeshQualityPow : ℕ

structure TreeResult where
  pos : V3
  size : ℤ
  step : UInt8
  deriving DecidableEq

structure Child where
  pos : V3
  size : ℤ
  deriving DecidableEq

def rangeToStep (range : ℤ) : ℕ :=
  let r := (range % 2 ^ 32).toNat
  if r = 0 then 0 else Nat.log2 r

def MAP_BLOCKSIZE : ℕ := 16

/-- How far the near map has to reach. What does not fit into 64 bits is cut off. -/
def getFarMeshNearRange (drawControl : MapDrawControl) : ℕ :=
  if drawControl.farmesh ≤ 0 then 0
  else
    let cellPow := drawControl.cellSizePow
    let distancePow := 2 + max drawControl.farmeshQualityPow cellPow
    if cellPow ≥ 63 ∨ distancePow ≥ 63 then 2 ^ 64 - 1
    else
      let blocks := 2 ^ distancePow + 2 ^ cellPow
      if blocks > (2 ^ 64 - 1) / MAP_BLOCKSIZE then 2 ^ 64 - 1 else blocks * MAP_BLOCKSIZE

def wrap32 (x : ℤ) : ℤ := Int.bmod x (2 ^ 32)

def alignAxis (x : ℤ) (amount : ℕ) : ℤ := x / 2 ^ amount * 2 ^ amount

def alignShift (pos : V3) (amount : ℕ) : V3 :=
  ⟨alignAxis pos.X amount, alignAxis pos.Y amount, alignAxis pos.Z amount⟩

def contains (child : Child) (pos : V3) : Bool :=
  pos.X ≥ child.pos.X && pos.X < child.pos.X + child.size &&
    pos.Y ≥ child.pos.Y && pos.Y < child.pos.Y + child.size &&
    pos.Z ≥ child.pos.Z && pos.Z < child.pos.Z + child.size

/-- Whether the cell is not split: it is small, or far enough away for its size. -/
def isTreeCell (child : Child) (playerPos : V3) (cellSizePow farmeshQualityPow : ℕ) : Bool :=
  if child.size ≤ 2 ^ cellSizePow then true
  else
    let childSize := child.size / 2
    let distance := max |playerPos.X - (child.pos.X + childSize)|
      (max |playerPos.Y - (child.pos.Y + childSize)| |playerPos.Z - (child.pos.Z + childSize)|)
    let qualityShift := 1 + max farmeshQualityPow cellSizePow - cellSizePow
    let nextChildSize := wrap32 (child.size * 2 ^ qualityShift)
    distance ≥ nextChildSize

def split (child : Child) : List Child :=
  let size := child.size / 2
  let x := child.pos.X
  let y := child.pos.Y
  let z := child.pos.Z
  [⟨⟨x, y, z⟩, size⟩,
    ⟨⟨x + size, y, z⟩, size⟩,
    ⟨⟨x, y, z + size⟩, size⟩,
    ⟨⟨x + size, y, z + size⟩, size⟩,
    ⟨⟨x, y + size, z⟩, size⟩,
    ⟨⟨x + size, y + size, z⟩, size⟩,
    ⟨⟨x, y + size, z + size⟩, size⟩,
    ⟨⟨x + size, y + size, z + size⟩, size⟩]

def makeTreeResult (child : Child) (cellSizePow : ℕ) (cellSizeEach : Bool) : TreeResult :=
  let cellShift := if cellSizeEach then 0 else cellSizePow
  { pos := child.pos
    size := child.size / 2 ^ cellShift
    step := UInt8.ofNat (rangeToStep child.size) - UInt8.ofNat cellShift }

def makeFindResult (meshChild : Child) (blockPos : V3) (cellSizePow : ℕ) (cellSizeEach : Bool) :
    TreeResult :=
  if cellSizeEach then
    let storageSize := meshChild.size / 2 ^ cellSizePow
    let onAxis (block mesh : ℤ) : ℤ := mesh + (block - mesh).tdiv storageSize * storageSize
    makeTreeResult
      { pos := ⟨onAxis blockPos.X meshChild.pos.X, onAxis blockPos.Y meshChild.pos.Y,
          onAxis blockPos.Z meshChild.pos.Z⟩
        size := storageSize } cellSizePow true
  else makeTreeResult meshChild cellSizePow false

structure FindParam where
  playerPos : V3
  blockPos : V3
  cellSizePow : ℕ
  farmeshQualityPow : ℕ
  cellSizeEach : Bool

def find (param : FindParam) : ℕ → Child → Option TreeResult
  | 0, _ => none
  | fuel + 1, child =>
    if !contains child param.blockPos then none
    else if isTreeCell child param.playerPos param.cellSizePow param.farmeshQualityPow then
      some (makeFindResult child param.blockPos param.cellSizePow param.cellSizeEach)
    else (split child).findSome? (find param fuel)

def farmeshToTreePow (farmesh : ℤ) : ℕ :=
  min FARMESH_STEP_MAX (UInt8.ofNat (rangeToStep farmesh) - 1).toNat

/-- The root of the tree. A plane, if there is one, is its lower side. -/
def treeParamsToChild (treePow : ℕ) (playerBlockPos : V3) (twoD : ℤ) : Child :=
  let treeAlign := treePow - 1
  let treeAlignSize : ℤ := 2 ^ treeAlign
  let onAxis (x : ℤ) : ℤ := alignAxis x treeAlign - treeAlignSize / 2
  { pos := ⟨onAxis playerBlockPos.X, if twoD ≠ 0 then twoD else onAxis playerBlockPos.Y,
      onAxis playerBlockPos.Z⟩
    size := 2 ^ treePow }

def getFarParams (drawControl : MapDrawControl) (playerBlockPos blockpos : V3) (cellEach : Bool) :
    Option TreeResult :=
  let blockposAlignedCell :=
    if cellEach then blockpos else alignShift blockpos drawControl.cellSizePow
  let treePow := farmeshToTreePow drawControl.farmesh
  find { playerPos := playerBlockPos, blockPos := blockposAlignedCell,
         cellSizePow := drawControl.cellSizePow,
         farmeshQualityPow := drawControl.farmeshQualityPow, cellSizeEach := cellEach }
    (treePow + 1) (treeParamsToChild treePow playerBlockPos 0)

structure EachParam (σ : Type) where
  playerPos : V3
  cellSizePow : ℕ
  farmeshQualityPow : ℕ
  cellSizeEach : Bool
  func : σ → TreeResult → Bool × σ
  twoD : Bool

variable {σ : Type}

def storageChild (meshChild : Child) (cellSizePow x y z : ℕ) : Child :=
  let storageSize := meshChild.size / 2 ^ cellSizePow
  { pos := ⟨meshChild.pos.X + x * storageSize, meshChild.pos.Y + y * storageSize,
      meshChild.pos.Z + z * storageSize⟩
    size := storageSize }

def emitTreeCell (param : EachParam σ) (meshChild : Child) (s : σ) : Bool × σ :=
  if param.cellSizeEach then
    let blocksPerSide := 2 ^ param.cellSizePow
    let yCount := if param.twoD then 1 else blocksPerSide
    untilStop (fun s y =>
      untilStop (fun s z =>
        untilStop (fun s x =>
          param.func s (makeTreeResult (storageChild meshChild param.cellSizePow x y z)
            param.cellSizePow true))
          (List.range blocksPerSide) s)
        (List.range blocksPerSide) s)
      (List.range yCount) s
  else param.func s (makeTreeResult meshChild param.cellSizePow false)

def each (param : EachParam σ) : ℕ → Child → σ → Bool × σ
  | 0, _, s => (false, s)
  | fuel + 1, child, s =>
    if isTreeCell child param.playerPos param.cellSizePow param.farmeshQualityPow then
      emitTreeCell param child s
    else
      let childCount := if param.twoD then 4 else 8
      untilStop (fun s child => each param fuel child s) ((split child).take childCount) s

/-- `func` is called with every cell until it returns true. -/
def runFarAll (playerBlockPos : V3) (cellSizePow : ℕ) (farmesh : ℤ) (farmeshQualityPow : ℕ)
    (twoD : ℤ) (cellEach : Bool) (maxStep : ℕ) (func : σ → TreeResult → Bool × σ) (s : σ) :
    Bool × σ :=
  -- a tree cell cannot be smaller than one client mesh cell
  let treePow := max cellSizePow (if maxStep ≠ 0 then maxStep else farmeshToTreePow farmesh)
  each { playerPos := playerBlockPos, cellSizePow, farmeshQualityPow, cellSizeEach := cellEach,
         func, twoD := twoD ≠ 0 }
    (treePow + 1) (treeParamsToChild treePow playerBlockPos twoD) s

def enumerated (playerBlockPos : V3) (cellSizePow : ℕ) (farmesh : ℤ) (farmeshQualityPow : ℕ)
    (twoD : ℤ) (cellEach : Bool) (maxStep : ℕ) : List TreeResult :=
  (runFarAll playerBlockPos cellSizePow farmesh farmeshQualityPow twoD cellEach maxStep
    (fun cells cell => (false, cells ++ [cell])) []).2

end Freeminer.Far
