import Freeminer.Block.NodeDefManager
import Freeminer.Lib.Buffer
import Freeminer.Lib.Machine
import Freeminer.Voxel.VoxelArea

/-! `VoxelManipulator` (`voxel.cpp`): the nodes of an area in one array, which is copied when the area
grows. -/

namespace Freeminer.Voxel

open Lib
open Block (MapNode CONTENT_IGNORE)

namespace VoxelArea

variable {b : Build}

def empty (b : Build) : VoxelArea b where
  MinEdge := ⟨1, 1, 1⟩
  MaxEdge := ⟨0, 0, 0⟩
  minX := by cases b <;> decide
  minY := by cases b <;> decide
  minZ := by cases b <;> decide
  maxX := by cases b <;> decide
  maxY := by cases b <;> decide
  maxZ := by cases b <;> decide
  extentX := by cases b <;> decide
  extentY := by cases b <;> decide
  extentZ := by cases b <;> decide

/-- The smallest area with both. Nothing is defined where its extent overflows. -/
def addArea (m a : VoxelArea b) : Option (VoxelArea b) :=
  if m.hasEmptyExtent then some a
  else
    make b ⟨min a.MinEdge.X m.MinEdge.X, min a.MinEdge.Y m.MinEdge.Y, min a.MinEdge.Z m.MinEdge.Z⟩
      ⟨max a.MaxEdge.X m.MaxEdge.X, max a.MaxEdge.Y m.MaxEdge.Y, max a.MaxEdge.Z m.MaxEdge.Z⟩

def volume (a : VoxelArea b) : ℤ := a.getExtent.X * a.getExtent.Y * a.getExtent.Z

/-- `getVolume`, in 32 bits. -/
def getVolume (a : VoxelArea b) : ℕ := (a.volume % 2 ^ 32).toNat

/-- `real_volume` of `checkArea`, in 64 bits. -/
def real_volume (a : VoxelArea b) : ℤ := a.volume % 2 ^ 64

/-- What `index` comes to. -/
def offset (a : VoxelArea b) (p : V3) : ℤ :=
  (p.Z - a.MinEdge.Z) * a.getExtent.Y * a.getExtent.X + (p.Y - a.MinEdge.Y) * a.getExtent.X +
    (p.X - a.MinEdge.X)

/-- `index`. Nothing is defined where an `s32` overflows. -/
def index (a : VoxelArea b) (p : V3) : Option ℤ :=
  if -2147483648 ≤ a.offset p ∧ a.offset p ≤ 2147483647 then some (a.offset p) else none

end VoxelArea

def MAX_WORKING_VOLUME : ℤ := 150000000

def VOXELFLAG_NO_DATA : UInt8 := 1

/-- An entry of `m_data`, with the one of `m_flags` at the same index. -/
structure VoxelCell where
  node : MapNode := { param0 := CONTENT_IGNORE }
  flags : UInt8 := VOXELFLAG_NO_DATA
  deriving DecidableEq

structure VoxelManipulator (b : Build) where
  m_area : VoxelArea b := VoxelArea.empty b
  cells : Buffer VoxelCell := Buffer.replicate 0 {}

/-- What is copied into a manipulator: the array and the area that it is of. -/
structure CopySource (b : Build) where
  src : Buffer MapNode
  is_mono_block : Bool
  src_area : VoxelArea b
  from_pos : V3
  to_pos : V3
  size : V3

inductive VoxelAnswer where
  | done
  | thrown
  | refused
  | node (n : MapNode)
  | flag (b : Bool)
  deriving DecidableEq

def span (lo hi : ℤ) : List ℤ := (List.range (hi + 1 - lo).toNat).map fun k : ℕ => lo + k

namespace VoxelManipulator

variable {b : Build}

/-- A loop over the rows of `a`, one after the other; `row` gives what is done to the cells of a row. -/
def modifyRows (area a : VoxelArea b) (row : ℤ → ℤ → Option (ℤ → VoxelCell → VoxelCell))
    (cells : Buffer VoxelCell) : Option (Buffer VoxelCell) :=
  (span a.MinEdge.Z a.MaxEdge.Z).foldlM (fun cells z =>
    (span a.MinEdge.Y a.MaxEdge.Y).foldlM (fun cells y =>
      (row y z).bind fun f =>
        (area.index ⟨a.MinEdge.X, y, z⟩).bind fun start => cells.modify start a.getExtent.X f)
      cells) cells

/-- The old cells of a row, which are copied with `memcpy`. -/
def oldRow (m : VoxelManipulator b) (y z : ℤ) : Option (ℤ → VoxelCell → VoxelCell) :=
  (m.m_area.index ⟨m.m_area.MinEdge.X, y, z⟩).bind fun old_index =>
    if m.cells.Inside old_index m.m_area.getExtent.X then
      some fun x _ => m.cells.val (old_index + x)
    else none

/-- `addArea`, and whether it does not throw. -/
def addArea (m : VoxelManipulator b) (area : VoxelArea b) : Option (VoxelManipulator b × Bool) :=
  if area.hasEmptyExtent then some (m, true)
  else if m.m_area.contains area then some (m, true)
  else
    (m.m_area.addArea area).bind fun new_area =>
      if MAX_WORKING_VOLUME < new_area.real_volume then some (m, false)
      else
        (modifyRows new_area m.m_area m.oldRow (Buffer.replicate new_area.getVolume {})).map
          fun cells => (⟨new_area, cells⟩, true)

/-- `addArea` of a position, then what follows if it does not throw. -/
def emerge (m : VoxelManipulator b) (p : V3)
    (f : VoxelManipulator b → Option (VoxelManipulator b × VoxelAnswer)) :
    Option (VoxelManipulator b × VoxelAnswer) :=
  (VoxelArea.make b p p).bind fun voxel_area =>
    (m.addArea voxel_area).bind fun r => if r.2 then f r.1 else some (r.1, .thrown)

def write (m : VoxelManipulator b) (p : V3) (n : MapNode) : Option (VoxelManipulator b) :=
  (m.m_area.index p).bind fun i =>
    (m.cells.modify i 1 fun _ c => ⟨n, c.flags &&& ~~~VOXELFLAG_NO_DATA⟩).map fun cells =>
      { m with cells }

def cell (m : VoxelManipulator b) (p : V3) : Option VoxelCell := (m.m_area.index p).bind m.cells.get

def setNode (m : VoxelManipulator b) (p : V3) (n : MapNode) :
    Option (VoxelManipulator b × VoxelAnswer) :=
  m.emerge p fun m => (m.write p n).map (·, .done)

def setNodeNoEmerge (m : VoxelManipulator b) (p : V3) (n : MapNode) :
    Option (VoxelManipulator b × VoxelAnswer) :=
  if m.m_area.Holds p then (m.write p n).map (·, .done) else some (m, .refused)

/-- `getNode`, which throws where there is no data. -/
def getNode (m : VoxelManipulator b) (p : V3) : Option (VoxelManipulator b × VoxelAnswer) :=
  m.emerge p fun m => (m.cell p).map fun c =>
    (m, if c.flags &&& VOXELFLAG_NO_DATA ≠ 0 then .thrown else .node c.node)

def getNodeNoExNoEmerge (m : VoxelManipulator b) (p : V3) :
    Option (VoxelManipulator b × VoxelAnswer) :=
  if m.m_area.Holds p then
    (m.cell p).map fun c =>
      (m, .node (if c.flags &&& VOXELFLAG_NO_DATA ≠ 0 then { param0 := CONTENT_IGNORE } else c.node))
  else some (m, .node { param0 := CONTENT_IGNORE })

/-- `exists` -/
def existsAt (m : VoxelManipulator b) (p : V3) : Option (VoxelManipulator b × VoxelAnswer) :=
  if m.m_area.Holds p then
    (m.cell p).map fun c => (m, .flag (c.flags &&& VOXELFLAG_NO_DATA = 0))
  else some (m, .flag false)

/-- The running indexes of `copyFrom`. -/
structure CopyIndex where
  i_src : ℤ
  i_local : ℤ

/-- One row of `copyFrom`, and its flags. -/
def copyRow (c : CopySource b) (i : CopyIndex) (cells : Buffer VoxelCell) :
    Option (Buffer VoxelCell) :=
  if c.is_mono_block then
    if c.src.Inside 0 1 then
      cells.modify i.i_local c.size.X fun _ _ => ⟨c.src.val 0, 0⟩
    else none
  else if c.src.Inside i.i_src c.size.X then
    cells.modify i.i_local c.size.X fun x _ => ⟨c.src.val (i.i_src + x), 0⟩
  else none

/-- The two loops of `copyFrom`. -/
def copyLoop (c : CopySource b) (src_step dest_step dest_mod : ℤ)
    (s : Buffer VoxelCell × CopyIndex) : Option (Buffer VoxelCell × CopyIndex) :=
  (List.range c.size.Z.toNat).foldlM (fun s _ =>
    ((List.range c.size.Y.toNat).foldlM (fun s _ =>
      (copyRow c s.2 s.1).map fun cells =>
        (cells, ⟨s.2.i_src + src_step, s.2.i_local + dest_step⟩)) s).map fun s =>
      (s.1, { s.2 with i_local := s.2.i_local + dest_mod })) s

/-- `copyFrom`. The counters of its loops are `s16`. -/
def copyFrom (m : VoxelManipulator b) (c : CopySource b) : Option (VoxelManipulator b) :=
  (b.toPos (c.to_pos.Z + 1)).bind fun next =>
    (m.m_area.index ⟨c.to_pos.X, c.to_pos.Y, next⟩).bind fun above =>
      (m.m_area.index c.to_pos).bind fun i_local =>
        (c.src_area.index c.from_pos).bind fun i_src =>
          if c.size.Y ≤ 32767 ∧ c.size.Z ≤ 32767 then
            let dest_step := m.m_area.getExtent.X
            let dest_mod := above - i_local - dest_step * c.size.Y
            (copyLoop c c.src_area.getExtent.X dest_step dest_mod (m.cells, ⟨i_src, i_local⟩)).map
              fun r => { m with cells := r.1 }
          else none

def rowStart (b : Build) (p : V3) (y z : ℕ) : Option V3 :=
  (b.toPos (p.Y + y)).bind fun y => (b.toPos (p.Z + z)).map fun z => ⟨p.X, y, z⟩

/-- One row of `copyTo`: what there is no content of is not copied. -/
def copyToRow (m : VoxelManipulator b) (i_dst i_local : ℤ) (size : ℕ) (dst : Buffer MapNode) :
    Option (Buffer MapNode) :=
  (List.range size).foldlM (fun dst x =>
    (m.cells.get (i_local + x)).bind fun c =>
      if c.node.param0 ≠ CONTENT_IGNORE then dst.modify (i_dst + x) 1 fun _ _ => c.node
      else some dst) dst

def copyTo (m : VoxelManipulator b) (dst : Buffer MapNode) (dst_area : VoxelArea b)
    (dst_pos from_pos size : V3) : Option (Buffer MapNode) :=
  if size.X ≤ 32767 ∧ size.Y ≤ 32767 ∧ size.Z ≤ 32767 then
    (List.range size.Z.toNat).foldlM (fun dst z =>
      (List.range size.Y.toNat).foldlM (fun dst y =>
        ((rowStart b dst_pos y z).bind dst_area.index).bind fun i_dst =>
          ((rowStart b from_pos y z).bind m.m_area.index).bind fun i_local =>
            m.copyToRow i_dst i_local size.X.toNat dst) dst) dst
  else none

/-- What `setFlags` and `clearFlags` do to an area. -/
def modifyFlags (m : VoxelManipulator b) (a : VoxelArea b) (f : UInt8 → UInt8) :
    Option (VoxelManipulator b) :=
  if a.hasEmptyExtent then some m
  else if m.m_area.contains a then
    (modifyRows m.m_area a (fun _ _ => some fun _ c => { c with flags := f c.flags }) m.cells).map
      fun cells => { m with cells }
  else none

def setFlags (m : VoxelManipulator b) (a : VoxelArea b) (flags : UInt8) :
    Option (VoxelManipulator b) := m.modifyFlags a (· ||| flags)

def clearFlags (m : VoxelManipulator b) (a : VoxelArea b) (flags : UInt8) :
    Option (VoxelManipulator b) := m.modifyFlags a (· &&& ~~~flags)

end VoxelManipulator

inductive VoxelOp (b : Build) where
  | addArea (area : VoxelArea b)
  | setNode (p : V3) (n : MapNode)
  | setNodeNoEmerge (p : V3) (n : MapNode)
  | getNode (p : V3)
  | getNodeNoExNoEmerge (p : V3)
  | existsAt (p : V3)
  | copyFrom (c : CopySource b)
  | setFlags (area : VoxelArea b) (flags : UInt8)
  | clearFlags (area : VoxelArea b) (flags : UInt8)

def VoxelManipulator.machine (b : Build) : Machine (VoxelManipulator b) (VoxelOp b) VoxelAnswer where
  init := {}
  step m
    | .addArea area => (m.addArea area).map fun r => (r.1, if r.2 then .done else .thrown)
    | .setNode p n => m.setNode p n
    | .setNodeNoEmerge p n => m.setNodeNoEmerge p n
    | .getNode p => m.getNode p
    | .getNodeNoExNoEmerge p => m.getNodeNoExNoEmerge p
    | .existsAt p => m.existsAt p
    | .copyFrom c => (m.copyFrom c).map (·, .done)
    | .setFlags area flags => (m.setFlags area flags).map (·, .done)
    | .clearFlags area flags => (m.clearFlags area flags).map (·, .done)

/-! ## Indexes -/

theorem digits_lt {q r n m : ℤ} (hq : 0 ≤ q ∧ q < n) (hr : 0 ≤ r ∧ r < m) :
    0 ≤ q * m + r ∧ q * m + r < n * m := by
  have hm : 0 ≤ m := hr.1.trans hr.2.le
  have hlow := mul_nonneg hq.1 hm
  have hhigh := mul_le_mul_of_nonneg_right (Int.add_one_le_of_lt hq.2) hm
  rw [add_mul, one_mul] at hhigh
  omega

theorem digits_inj {q r q' r' m : ℤ} (hr : 0 ≤ r ∧ r < m) (hr' : 0 ≤ r' ∧ r' < m)
    (h : q * m + r = q' * m + r') : q = q' ∧ r = r' := by
  have hmod : ∀ q r : ℤ, 0 ≤ r ∧ r < m → (q * m + r) % m = r := by
    intro q r hr
    rw [Int.add_comm, Int.add_mul_emod_self_right, Int.emod_eq_of_lt hr.1 hr.2]
  have hlast : r = r' := by rw [← hmod q r hr, h, hmod q' r' hr']
  subst hlast
  have hfirst := mul_right_cancel₀ (by omega : m ≠ 0) (add_right_cancel h)
  exact ⟨hfirst, rfl⟩

namespace VoxelArea

variable {b : Build} {a : VoxelArea b} {p q : V3}

theorem offset_eq (a : VoxelArea b) (p : V3) : a.offset p =
    ((p.Z - a.MinEdge.Z) * a.getExtent.Y + (p.Y - a.MinEdge.Y)) * a.getExtent.X +
      (p.X - a.MinEdge.X) := by
  unfold offset
  ring

theorem offset_run (a : VoxelArea b) (x t y z : ℤ) :
    a.offset ⟨x + t, y, z⟩ = a.offset ⟨x, y, z⟩ + t := by
  unfold offset
  ring

theorem Holds.digits (h : a.Holds p) :
    (0 ≤ p.X - a.MinEdge.X ∧ p.X - a.MinEdge.X < a.getExtent.X) ∧
      (0 ≤ p.Y - a.MinEdge.Y ∧ p.Y - a.MinEdge.Y < a.getExtent.Y) ∧
      (0 ≤ p.Z - a.MinEdge.Z ∧ p.Z - a.MinEdge.Z < a.getExtent.Z) := by
  obtain ⟨hx, hy, hz⟩ := h
  unfold getExtent
  dsimp only
  omega

theorem Holds.offset_lt (h : a.Holds p) : 0 ≤ a.offset p ∧ a.offset p < a.volume := by
  obtain ⟨hx, hy, hz⟩ := h.digits
  have hvolume : a.volume = a.getExtent.Z * a.getExtent.Y * a.getExtent.X := by
    unfold volume
    ring
  rw [offset_eq, hvolume]
  exact digits_lt (digits_lt hz hy) hx

theorem Holds.offset_inj (hp : a.Holds p) (hq : a.Holds q) (h : a.offset p = a.offset q) : p = q := by
  obtain ⟨hx, hy, hz⟩ := hp.digits
  obtain ⟨hx', hy', hz'⟩ := hq.digits
  rw [offset_eq, offset_eq] at h
  obtain ⟨hrow, hX⟩ := digits_inj hx hx' h
  obtain ⟨hZ, hY⟩ := digits_inj hy hy' hrow
  obtain ⟨X, Y, Z⟩ := p
  obtain ⟨X', Y', Z'⟩ := q
  simp only [V3.mk.injEq]
  dsimp only at hX hY hZ
  omega

theorem Holds.index (h : a.Holds p) (hvolume : a.volume ≤ MAX_WORKING_VOLUME) :
    a.index p = some (a.offset p) := by
  have hlt := h.offset_lt
  unfold MAX_WORKING_VOLUME at hvolume
  exact if_pos (by omega)

theorem Holds.ne_empty (h : a.Holds p) : a.hasEmptyExtent = false := exists_holds_iff.1 ⟨p, h⟩

theorem volume_nonneg (a : VoxelArea b) : 0 ≤ a.volume := by
  have hx := a.extentX.1
  have hy := a.extentY.1
  have hz := a.extentZ.1
  exact mul_nonneg (mul_nonneg hx hy) hz

end VoxelArea

/-! ## Loops over rows -/

section Rows

variable {b : Build} {area : VoxelArea b} {cells : Buffer VoxelCell} {κ : Type*} {ks : List κ}
  {y z : κ → ℤ} {x w : ℤ}

/-- Rows of an area: each cell of a row is changed as the cell of its position, and nothing else is. -/
theorem modifyAll_rows (hnodup : ks.Nodup)
    (hinj : ∀ k ∈ ks, ∀ k' ∈ ks, y k = y k' → z k = z k' → k = k')
    (hinside : ∀ k ∈ ks, ∀ t, 0 ≤ t → t < w → area.Holds ⟨x + t, y k, z k⟩)
    (hsize : cells.size = area.volume.toNat) (f : κ → ℤ → VoxelCell → VoxelCell) :
    ∃ cells', cells.modifyAll w (fun k => area.offset ⟨x, y k, z k⟩) f ks = some cells' ∧
      cells'.size = cells.size ∧
      (∀ k ∈ ks, ∀ t, 0 ≤ t → t < w → cells'.val (area.offset ⟨x + t, y k, z k⟩) =
        f k t (cells.val (area.offset ⟨x + t, y k, z k⟩))) ∧
      ∀ p, area.Holds p →
        (∀ k ∈ ks, ¬((p.Y = y k ∧ p.Z = z k) ∧ x ≤ p.X ∧ p.X < x + w)) →
          cells'.val (area.offset p) = cells.val (area.offset p) := by
  have hvolume := area.volume_nonneg
  -- a cell of a row is the cell of its position
  have hposition : ∀ k ∈ ks, ∀ j,
      area.offset ⟨x, y k, z k⟩ ≤ j ∧ j < area.offset ⟨x, y k, z k⟩ + w →
        ∃ t, (0 ≤ t ∧ t < w) ∧ j = area.offset ⟨x + t, y k, z k⟩ ∧
          area.Holds ⟨x + t, y k, z k⟩ := by
    intro k hk j hj
    refine ⟨j - area.offset ⟨x, y k, z k⟩, by omega, ?_, hinside k hk _ (by omega) (by omega)⟩
    rw [VoxelArea.offset_run]
    omega
  have hin : ∀ k ∈ ks, cells.Inside (area.offset ⟨x, y k, z k⟩) w := by
    intro k hk
    by_cases hw : w ≤ 0
    · exact .inl hw
    have hfirst := (hinside k hk 0 le_rfl (by omega)).offset_lt
    have hlast := (hinside k hk (w - 1) (by omega) (by omega)).offset_lt
    rw [VoxelArea.offset_run] at hfirst hlast
    refine .inr ⟨by omega, ?_⟩
    rw [hsize]
    omega
  have hapart : ∀ k ∈ ks, ∀ k' ∈ ks, ∀ j,
      area.offset ⟨x, y k, z k⟩ ≤ j ∧ j < area.offset ⟨x, y k, z k⟩ + w →
      area.offset ⟨x, y k', z k'⟩ ≤ j ∧ j < area.offset ⟨x, y k', z k'⟩ + w → k = k' := by
    intro k hk k' hk' j hj hj'
    obtain ⟨t, -, heq, hholds⟩ := hposition k hk j hj
    obtain ⟨t', -, heq', hholds'⟩ := hposition k' hk' j hj'
    have hsame := hholds.offset_inj hholds' (heq ▸ heq')
    rw [V3.mk.injEq] at hsame
    exact hinj k hk k' hk' hsame.2.1 hsame.2.2
  obtain ⟨cells', hcells', hsize', hruns, hrest⟩ :=
    Buffer.modifyAll_spec (f := f) hnodup hin hapart
  refine ⟨cells', hcells', hsize', fun k hk t h0 ht => ?_, fun p hp hout => ?_⟩
  · have hrun := area.offset_run x t (y k) (z k)
    rw [hruns k hk _ (by omega)]
    congr 1
    omega
  · refine hrest _ fun k hk hj => ?_
    obtain ⟨t, ht, heq, hholds⟩ := hposition k hk _ hj
    have hsame := hp.offset_inj hholds heq
    refine hout k hk ?_
    rw [hsame]
    exact ⟨⟨rfl, rfl⟩, by dsimp only; omega⟩

theorem mem_span {lo hi i : ℤ} : i ∈ span lo hi ↔ lo ≤ i ∧ i ≤ hi := by
  unfold span
  rw [List.mem_map]
  constructor
  · rintro ⟨k, hk, rfl⟩
    rw [List.mem_range] at hk
    omega
  · intro h
    exact ⟨(i - lo).toNat, by rw [List.mem_range]; omega, by omega⟩

theorem nodup_span (lo hi : ℤ) : (span lo hi).Nodup :=
  List.nodup_range.map fun k k' h => by omega

/-- The loop over the rows of an area inside. -/
theorem modifyRows_spec {a : VoxelArea b} {r : ℤ → ℤ → Option (ℤ → VoxelCell → VoxelCell)}
    {f : ℤ → ℤ → ℤ → VoxelCell → VoxelCell} (hvolume : area.volume ≤ MAX_WORKING_VOLUME)
    (hsize : cells.size = area.volume.toNat) (ha : a.hasEmptyExtent = false)
    (hinside : ∀ p, a.Holds p → area.Holds p)
    (hrow : ∀ y z, a.Holds ⟨a.MinEdge.X, y, z⟩ → r y z = some (f y z)) :
    ∃ cells', VoxelManipulator.modifyRows area a r cells = some cells' ∧
      cells'.size = cells.size ∧
      ∀ p, area.Holds p → cells'.val (area.offset p) =
        if a.Holds p then f p.Y p.Z (p.X - a.MinEdge.X) (cells.val (area.offset p))
        else cells.val (area.offset p) := by
  obtain ⟨hx, -, -⟩ := VoxelArea.hasEmptyExtent_eq_false_iff.1 ha
  have hextent : a.getExtent.X = a.MaxEdge.X - a.MinEdge.X + 1 := rfl
  have hholds : ∀ k ∈ span a.MinEdge.Z a.MaxEdge.Z ×ˢ span a.MinEdge.Y a.MaxEdge.Y,
      ∀ t, 0 ≤ t → t < a.getExtent.X → a.Holds ⟨a.MinEdge.X + t, k.2, k.1⟩ := by
    intro k hk t h0 ht
    rw [List.mem_product, mem_span, mem_span] at hk
    exact ⟨by dsimp only; omega, hk.2, hk.1⟩
  obtain ⟨cells', hcells', hsize', hruns, hrest⟩ := modifyAll_rows (κ := ℤ × ℤ)
    (y := Prod.snd) (z := Prod.fst) (x := a.MinEdge.X) (w := a.getExtent.X)
    ((nodup_span a.MinEdge.Z a.MaxEdge.Z).product (nodup_span a.MinEdge.Y a.MaxEdge.Y))
    (fun k _ k' _ hy hz => Prod.ext hz hy)
    (fun k hk t h0 ht => hinside _ (hholds k hk t h0 ht)) hsize fun k => f k.2 k.1
  refine ⟨cells', ?_, hsize', fun p hp => ?_⟩
  · rw [← hcells']
    refine (foldlM_product (fun (cells : Buffer VoxelCell) (k : ℤ × ℤ) => (r k.2 k.1).bind fun f =>
      (area.index ⟨a.MinEdge.X, k.2, k.1⟩).bind fun start => cells.modify start a.getExtent.X f)
      _ _ cells).trans (foldlM_congr (fun k hk cells => ?_) cells)
    have hfirst := hholds k hk 0 le_rfl (by omega)
    rw [add_zero] at hfirst
    rw [hrow k.2 k.1 hfirst, (hinside _ hfirst).index hvolume]
    rfl
  · split_ifs with hpa
    · obtain ⟨hpx, hpy, hpz⟩ := hpa
      have hrun := hruns (p.Z, p.Y)
        (List.mem_product.2 ⟨mem_span.2 hpz, mem_span.2 hpy⟩)
        (p.X - a.MinEdge.X) (by omega) (by omega)
      rw [add_sub_cancel] at hrun
      exact hrun
    · refine hrest p hp fun k hk hout => hpa ?_
      rw [List.mem_product, mem_span, mem_span] at hk
      obtain ⟨⟨hy, hz⟩, hx⟩ := hout
      exact ⟨by omega, hy ▸ hk.2, hz ▸ hk.1⟩

end Rows

/-! ## The partial map -/

/-- What a manipulator is for: the nodes that were put into it, and the flags of every position. -/
structure PartialMap (b : Build) where
  area : VoxelArea b := VoxelArea.empty b
  node : V3 → MapNode := fun _ => { param0 := CONTENT_IGNORE }
  flags : V3 → UInt8 := fun _ => VOXELFLAG_NO_DATA

namespace PartialMap

variable {b : Build} (t : PartialMap b)

def Readable (p : V3) : Prop := t.flags p &&& VOXELFLAG_NO_DATA = 0

instance (p : V3) : Decidable (t.Readable p) := inferInstanceAs (Decidable (_ = _))

/-- The area grows, unless it would be too large; the nodes and their flags stay. -/
def addArea (area : VoxelArea b) : Option (PartialMap b × Bool) :=
  if area.hasEmptyExtent ∨ t.area.contains area then some (t, true)
  else
    (t.area.addArea area).map fun new_area =>
      if MAX_WORKING_VOLUME < new_area.volume then (t, false)
      else ({ t with area := new_area }, true)

def emerge (p : V3) (f : PartialMap b → PartialMap b × VoxelAnswer) :
    Option (PartialMap b × VoxelAnswer) :=
  (VoxelArea.make b p p).bind fun voxel_area =>
    (t.addArea voxel_area).map fun r => if r.2 then f r.1 else (r.1, .thrown)

def write (p : V3) (n : MapNode) : PartialMap b :=
  { t with
    node := Function.update t.node p n
    flags := Function.update t.flags p (t.flags p &&& ~~~VOXELFLAG_NO_DATA) }

def read (p : V3) : Option MapNode := if t.Readable p then some (t.node p) else none

end PartialMap

def CopySource.Covers {b : Build} (c : CopySource b) (p : V3) : Prop :=
  (c.to_pos.X ≤ p.X ∧ p.X < c.to_pos.X + c.size.X) ∧
    (c.to_pos.Y ≤ p.Y ∧ p.Y < c.to_pos.Y + c.size.Y) ∧
    (c.to_pos.Z ≤ p.Z ∧ p.Z < c.to_pos.Z + c.size.Z)

instance {b : Build} (c : CopySource b) (p : V3) : Decidable (c.Covers p) :=
  inferInstanceAs (Decidable (_ ∧ _ ∧ _))

def CopySource.nodeAt {b : Build} (c : CopySource b) (p : V3) : MapNode :=
  c.src.val (if c.is_mono_block then 0 else
    c.src_area.offset ⟨c.from_pos.X + (p.X - c.to_pos.X), c.from_pos.Y + (p.Y - c.to_pos.Y),
      c.from_pos.Z + (p.Z - c.to_pos.Z)⟩)

namespace PartialMap

variable {b : Build}

def copyFrom (t : PartialMap b) (c : CopySource b) : PartialMap b :=
  { t with
    node := fun p => if c.Covers p then c.nodeAt p else t.node p
    flags := fun p => if c.Covers p then 0 else t.flags p }

def modifyFlags (t : PartialMap b) (a : VoxelArea b) (f : UInt8 → UInt8) : PartialMap b :=
  { t with flags := fun p => if a.Holds p then f (t.flags p) else t.flags p }

def machine (b : Build) : Machine (PartialMap b) (VoxelOp b) VoxelAnswer where
  init := {}
  step t
    | .addArea area => (t.addArea area).map fun r => (r.1, if r.2 then .done else .thrown)
    | .setNode p n => t.emerge p fun t => (t.write p n, .done)
    | .setNodeNoEmerge p n => some (if t.area.Holds p then (t.write p n, .done) else (t, .refused))
    | .getNode p => t.emerge p fun t => (t, (t.read p).elim .thrown .node)
    | .getNodeNoExNoEmerge p => some (t, .node ((t.read p).getD { param0 := CONTENT_IGNORE }))
    | .existsAt p => some (t, .flag (t.read p).isSome)
    | .copyFrom c => some (t.copyFrom c, .done)
    | .setFlags area flags => some (t.modifyFlags area (· ||| flags), .done)
    | .clearFlags area flags => some (t.modifyFlags area (· &&& ~~~flags), .done)

end PartialMap

/-! ## Refinement -/

/-- The manipulator holds the map: each position of its area at its index, and none elsewhere. -/
structure Refines {b : Build} (m : VoxelManipulator b) (t : PartialMap b) : Prop where
  area : m.m_area = t.area
  begun : m.m_area = VoxelArea.empty b ∨ m.m_area.hasEmptyExtent = false
  volume : m.m_area.volume ≤ MAX_WORKING_VOLUME
  size : m.cells.size = m.m_area.volume.toNat
  cell : ∀ p, m.m_area.Holds p → m.cells.val (m.m_area.offset p) = ⟨t.node p, t.flags p⟩
  outside : ∀ p, ¬m.m_area.Holds p → t.node p = { param0 := CONTENT_IGNORE } ∧
    t.flags p = VOXELFLAG_NO_DATA

/-- Nothing overflows where the area grows, or the overflow does not hide that it is too large. -/
def VoxelManipulator.Growable {b : Build} (m : VoxelManipulator b) (area : VoxelArea b) : Prop :=
  area.hasEmptyExtent = true ∨ m.m_area.contains area = true ∨
    ∃ new_area, m.m_area.addArea area = some new_area ∧
      (new_area.volume ≤ MAX_WORKING_VOLUME ∨ MAX_WORKING_VOLUME < new_area.real_volume)

/-- What `copyFrom` relies on. -/
structure CopySource.Fits {b : Build} (m : VoxelManipulator b) (c : CopySource b) : Prop where
  counters : c.size.Y ≤ 32767 ∧ c.size.Z ≤ 32767
  first : ∃ i, m.m_area.index c.to_pos = some i
  next : ∃ z i, b.toPos (c.to_pos.Z + 1) = some z ∧
    m.m_area.index ⟨c.to_pos.X, c.to_pos.Y, z⟩ = some i
  source : ∃ i, c.src_area.index c.from_pos = some i
  inside : ∀ p, c.Covers p → m.m_area.Holds p
  mono : c.is_mono_block = true → 0 < c.src.size
  rows : c.is_mono_block = false → c.size.Y = c.src_area.getExtent.Y ∨ c.size.Z ≤ 1
  enough : c.is_mono_block = false → c.src_area.volume ≤ c.src.size ∧ ∀ p, c.Covers p →
    c.src_area.Holds ⟨c.from_pos.X + (p.X - c.to_pos.X), c.from_pos.Y + (p.Y - c.to_pos.Y),
      c.from_pos.Z + (p.Z - c.to_pos.Z)⟩

def VoxelOp.Fits {b : Build} (m : VoxelManipulator b) : VoxelOp b → Prop
  | addArea area => m.Growable area
  | setNode p _ => ∃ a, VoxelArea.make b p p = some a ∧ m.Growable a
  | getNode p => ∃ a, VoxelArea.make b p p = some a ∧ m.Growable a
  | copyFrom c => c.Fits m
  | setFlags area _ => area.hasEmptyExtent = true ∨ m.m_area.contains area = true
  | clearFlags area _ => area.hasEmptyExtent = true ∨ m.m_area.contains area = true
  | _ => True

section Growing

variable {b : Build} {m a c : VoxelArea b} {p : V3}

theorem VoxelArea.make_eq_some {lo hi : V3} (h : make b lo hi = some a) :
    a.MinEdge = lo ∧ a.MaxEdge = hi := by
  unfold make at h
  split_ifs at h
  cases h
  exact ⟨rfl, rfl⟩

theorem VoxelArea.holds_of_contains (h : m.contains a = true) (hp : a.Holds p) : m.Holds p := by
  obtain ⟨hx, hy, hz⟩ := (contains_iff hp.ne_empty).1 h
  obtain ⟨hpx, hpy, hpz⟩ := hp
  exact ⟨by omega, by omega, by omega⟩

theorem VoxelArea.not_holds_empty : ¬(VoxelArea.empty b).Holds p := by
  rintro ⟨hx, -, -⟩
  simp only [empty] at hx
  omega

/-- The larger area has the positions of both. -/
theorem VoxelArea.addArea_holds (h : m.addArea a = some c) (hp : m.Holds p ∨ a.Holds p) :
    c.Holds p := by
  unfold addArea at h
  split_ifs at h with hm
  · cases h
    refine hp.resolve_left fun hp => ?_
    rw [hp.ne_empty] at hm
    cases hm
  · obtain ⟨hmin, hmax⟩ := make_eq_some h
    unfold Holds at hp ⊢
    rw [hmin, hmax]
    dsimp only
    omega

theorem VoxelArea.addArea_ne_empty (h : m.addArea a = some c) (ha : a.hasEmptyExtent = false) :
    c.hasEmptyExtent = false := by
  obtain ⟨p, hp⟩ := exists_holds_iff.2 ha
  exact (addArea_holds h (.inr hp)).ne_empty

end Growing

namespace VoxelManipulator

variable {b : Build} {m m' : VoxelManipulator b} {t t' : PartialMap b} {p : V3} {n : MapNode}
  {area : VoxelArea b}

theorem refines_init : Refines ({} : VoxelManipulator b) {} where
  area := rfl
  begun := .inl rfl
  volume := by cases b <;> decide
  size := by cases b <;> rfl
  cell p hp := absurd hp VoxelArea.not_holds_empty
  outside _ _ := ⟨rfl, rfl⟩

/-- The rows of the old area are copied to their positions in the new one. -/
theorem grow_spec (h : Refines m t) {new_area : VoxelArea b}
    (hvolume : new_area.volume ≤ MAX_WORKING_VOLUME)
    (hholds : ∀ p, m.m_area.Holds p → new_area.Holds p) :
    ∃ cells, modifyRows new_area m.m_area m.oldRow (Buffer.replicate new_area.getVolume {}) =
        some cells ∧
      cells.size = new_area.volume.toNat ∧
      ∀ p, new_area.Holds p → cells.val (new_area.offset p) = ⟨t.node p, t.flags p⟩ := by
  have hnonneg := new_area.volume_nonneg
  have hsize : (Buffer.replicate new_area.getVolume ({} : VoxelCell)).size =
      new_area.volume.toNat := by
    unfold MAX_WORKING_VOLUME at hvolume
    change (new_area.volume % 2 ^ 32).toNat = _
    omega
  rcases h.begun with hbegun | hnonempty
  · refine ⟨_, by rw [modifyRows, hbegun]; rfl, hsize, fun p _ => ?_⟩
    obtain ⟨hnode, hflags⟩ := h.outside p (by rw [hbegun]; exact VoxelArea.not_holds_empty)
    rw [hnode, hflags]
    rfl
  · have hrow : ∀ y z, m.m_area.Holds ⟨m.m_area.MinEdge.X, y, z⟩ → m.oldRow y z =
        some fun x _ => m.cells.val (m.m_area.offset ⟨m.m_area.MinEdge.X, y, z⟩ + x) := by
      intro y z hfirst
      have hextent : m.m_area.getExtent.X = m.m_area.MaxEdge.X - m.m_area.MinEdge.X + 1 := rfl
      have hlast : m.m_area.Holds
          ⟨m.m_area.MinEdge.X + (m.m_area.getExtent.X - 1), y, z⟩ := by
        obtain ⟨hx, hy, hz⟩ := hfirst
        exact ⟨by dsimp only at hx ⊢; omega, hy, hz⟩
      have hlow := hfirst.offset_lt
      have hhigh := hlast.offset_lt
      rw [VoxelArea.offset_run] at hhigh
      unfold oldRow
      rw [hfirst.index h.volume, Option.bind_some, if_pos]
      refine .inr ⟨hlow.1, ?_⟩
      rw [h.size]
      omega
    obtain ⟨cells, hcells, hsize', hval⟩ := modifyRows_spec
      (f := fun y z x _ => m.cells.val (m.m_area.offset ⟨m.m_area.MinEdge.X, y, z⟩ + x)) hvolume hsize
      hnonempty hholds hrow
    refine ⟨cells, hcells, hsize'.trans hsize, fun p hp => ?_⟩
    rw [hval p hp]
    split_ifs with hold
    · rw [← VoxelArea.offset_run, add_sub_cancel]
      exact h.cell p hold
    · obtain ⟨hnode, hflags⟩ := h.outside p hold
      rw [hnode, hflags]
      rfl

/-- Growing keeps every node and flag where it is, and both throw together. -/
theorem addArea_refines (h : Refines m t) (hgrow : m.Growable area) :
    ∃ m' t' ok, m.addArea area = some (m', ok) ∧ t.addArea area = some (t', ok) ∧ Refines m' t' ∧
      (ok = true → ∀ p, area.Holds p → m'.m_area.Holds p) := by
  unfold addArea PartialMap.addArea
  rw [← h.area]
  by_cases hempty : area.hasEmptyExtent = true
  · refine ⟨m, t, true, if_pos hempty, if_pos (.inl hempty), h, fun _ p hp => ?_⟩
    rw [hp.ne_empty] at hempty
    cases hempty
  by_cases hcontains : m.m_area.contains area = true
  · refine ⟨m, t, true, ?_, if_pos (.inr hcontains), h,
      fun _ p hp => VoxelArea.holds_of_contains hcontains hp⟩
    rw [if_neg hempty, if_pos hcontains]
  obtain ⟨new_area, hnew, htrue⟩ := (hgrow.resolve_left hempty).resolve_left hcontains
  have hne := VoxelArea.addArea_ne_empty hnew (Bool.eq_false_iff.2 hempty)
  rw [if_neg hempty, if_neg hcontains, if_neg (by simp [hempty, hcontains]), hnew]
  simp only [Option.bind_some, Option.map_some]
  have hnonneg := new_area.volume_nonneg
  have hreal : MAX_WORKING_VOLUME < new_area.real_volume ↔ MAX_WORKING_VOLUME < new_area.volume := by
    unfold VoxelArea.real_volume MAX_WORKING_VOLUME at *
    omega
  simp only [hreal]
  split_ifs with hlarge
  · exact ⟨m, t, false, rfl, rfl, h, by simp⟩
  · have hvolume := not_lt.1 hlarge
    have hholds := fun p hp => VoxelArea.addArea_holds (p := p) hnew (.inl hp)
    obtain ⟨cells, hcells, hsize, hval⟩ := grow_spec h hvolume hholds
    refine ⟨⟨new_area, cells⟩, { t with area := new_area }, true, by rw [hcells]; rfl, rfl, ?_,
      fun _ p hp => VoxelArea.addArea_holds hnew (.inr hp)⟩
    exact ⟨rfl, .inr hne, hvolume, hsize, hval,
      fun p hp => h.outside p fun hold => hp (hholds p hold)⟩

theorem cell_refines (h : Refines m t) (hp : m.m_area.Holds p) :
    m.cell p = some ⟨t.node p, t.flags p⟩ := by
  have hlt := hp.offset_lt
  unfold cell
  rw [hp.index h.volume, Option.bind_some, Buffer.get_of_lt hlt.1, h.cell p hp]
  rw [h.size]
  omega

theorem write_refines (h : Refines m t) (hp : m.m_area.Holds p) :
    ∃ m', m.write p n = some m' ∧ Refines m' (t.write p n) := by
  have hlt := hp.offset_lt
  have hinside : m.cells.Inside (m.m_area.offset p) 1 := by
    rw [Buffer.inside_one, h.size]
    omega
  unfold write
  rw [hp.index h.volume, Option.bind_some, Buffer.modify, if_pos hinside]
  refine ⟨_, rfl, h.area, h.begun, h.volume, h.size, fun q hq => ?_, fun q hq => ?_⟩
  · dsimp only
    by_cases hpq : q = p
    · subst hpq
      rw [if_pos (by omega), h.cell q hq]
      simp [PartialMap.write]
    · have hne : m.m_area.offset q ≠ m.m_area.offset p := fun heq => hpq (hq.offset_inj hp heq)
      rw [if_neg (by omega), h.cell q hq]
      simp [PartialMap.write, hpq]
  · have hpq : q ≠ p := fun heq => hq (heq ▸ hp)
    simpa [PartialMap.write, hpq] using h.outside q hq

theorem readable_holds (h : Refines m t) (hp : t.Readable p) : m.m_area.Holds p := by
  by_contra hout
  rw [PartialMap.Readable, (h.outside p hout).2] at hp
  exact absurd hp (by decide)

theorem modifyFlags_refines (h : Refines m t) {f : UInt8 → UInt8}
    (harea : area.hasEmptyExtent = true ∨ m.m_area.contains area = true) :
    ∃ m', m.modifyFlags area f = some m' ∧ Refines m' (t.modifyFlags area f) := by
  unfold modifyFlags
  by_cases hempty : area.hasEmptyExtent = true
  · refine ⟨m, if_pos hempty, h.area, h.begun, h.volume, h.size, fun p hp => ?_, fun p hp => ?_⟩
    all_goals
      have hnot : ¬area.Holds p := fun hp => by simp [hp.ne_empty] at hempty
    · rw [h.cell p hp]
      simp [PartialMap.modifyFlags, hnot]
    · simpa [PartialMap.modifyFlags, hnot] using h.outside p hp
  · have hcontains := harea.resolve_left hempty
    rw [if_neg hempty, if_pos hcontains]
    obtain ⟨cells, hcells, hsize, hval⟩ := modifyRows_spec
      (r := fun _ _ => some fun _ c => { c with flags := f c.flags })
      (f := fun _ _ _ c => { c with flags := f c.flags }) h.volume h.size
      (Bool.eq_false_iff.2 hempty) (fun p hp => VoxelArea.holds_of_contains hcontains hp)
      fun _ _ _ => rfl
    refine ⟨{ m with cells }, by rw [hcells]; rfl, h.area, h.begun, h.volume, hsize.trans h.size,
      fun p hp => ?_, fun p hp => ?_⟩
    · dsimp only
      rw [hval p hp, h.cell p hp]
      unfold PartialMap.modifyFlags
      dsimp only
      split_ifs <;> rfl
    · have hnot : ¬area.Holds p := fun ha => hp (VoxelArea.holds_of_contains hcontains ha)
      simpa [PartialMap.modifyFlags, hnot] using h.outside p hp

/-! ### Copying -/

/-- The rows of `copyFrom`, with the running indexes counted out. -/
theorem copyLoop_eq (c : CopySource b) (src_step dest_step dest_mod i_src i_local : ℤ)
    (cells : Buffer VoxelCell) :
    copyLoop c src_step dest_step dest_mod (cells, ⟨i_src, i_local⟩) =
      ((List.range c.size.Z.toNat ×ˢ List.range c.size.Y.toNat).foldlM (fun cells k =>
        copyRow c ⟨i_src + (k.1 * c.size.Y.toNat + k.2) * src_step,
          i_local + k.1 * (c.size.Y.toNat * dest_step + dest_mod) + k.2 * dest_step⟩ cells)
        cells).map fun cells => (cells, ⟨i_src + c.size.Z.toNat * (c.size.Y.toNat * src_step),
          i_local + c.size.Z.toNat * (c.size.Y.toNat * dest_step + dest_mod)⟩) := by
  -- one layer, from any indexes on
  have hlayer : ∀ (i : CopyIndex) (cells : Buffer VoxelCell),
      (List.range c.size.Y.toNat).foldlM (fun (s : Buffer VoxelCell × CopyIndex) _ =>
        (copyRow c s.2 s.1).map fun cells =>
          (cells, (⟨s.2.i_src + src_step, s.2.i_local + dest_step⟩ : CopyIndex))) (cells, i) =
      ((List.range c.size.Y.toNat).foldlM (fun cells (y : ℕ) =>
        copyRow c ⟨i.i_src + y * src_step, i.i_local + y * dest_step⟩ cells) cells).map fun cells =>
          (cells, ⟨i.i_src + c.size.Y.toNat * src_step, i.i_local + c.size.Y.toNat * dest_step⟩) := by
    intro i cells
    have hcarried := foldlM_carried (n := c.size.Y.toNat)
      (g := fun s : Buffer VoxelCell × CopyIndex => (copyRow c s.2 s.1).map fun cells =>
        (cells, (⟨s.2.i_src + src_step, s.2.i_local + dest_step⟩ : CopyIndex)))
      (h := fun y cells => copyRow c ⟨i.i_src + y * src_step, i.i_local + y * dest_step⟩ cells)
      (p := fun y => ⟨i.i_src + y * src_step, i.i_local + y * dest_step⟩)
      (fun y _ cells => by
        refine congrArg (fun f => Option.map f _) (funext fun cells => ?_)
        simp only [Prod.mk.injEq, CopyIndex.mk.injEq, true_and, Nat.cast_add, Nat.cast_one]
        constructor <;> ring) cells
    simpa using hcarried
  have hcarried := foldlM_carried (n := c.size.Z.toNat)
    (g := fun s : Buffer VoxelCell × CopyIndex =>
      ((List.range c.size.Y.toNat).foldlM (fun s _ =>
        (copyRow c s.2 s.1).map fun cells =>
          (cells, (⟨s.2.i_src + src_step, s.2.i_local + dest_step⟩ : CopyIndex))) s).map fun s =>
        (s.1, { s.2 with i_local := s.2.i_local + dest_mod }))
    (h := fun z cells => (List.range c.size.Y.toNat).foldlM (fun cells (y : ℕ) =>
      copyRow c ⟨i_src + (z * c.size.Y.toNat + y) * src_step,
        i_local + z * (c.size.Y.toNat * dest_step + dest_mod) + y * dest_step⟩ cells) cells)
    (p := fun z => ⟨i_src + z * (c.size.Y.toNat * src_step),
      i_local + z * (c.size.Y.toNat * dest_step + dest_mod)⟩)
    (fun z _ cells => by
      have hrow : ∀ y : ℕ, i_src + (z : ℤ) * (c.size.Y.toNat * src_step) + y * src_step =
          i_src + (z * c.size.Y.toNat + y) * src_step := fun y => by ring
      simp only [hlayer, Option.map_map, hrow]
      refine congrArg (fun f => Option.map f _) (funext fun cells => ?_)
      simp only [Function.comp_apply, Prod.mk.injEq, CopyIndex.mk.injEq, true_and, Nat.cast_add,
        Nat.cast_one]
      constructor <;> ring) cells
  unfold copyLoop
  rw [← foldlM_product (fun cells (k : ℕ × ℕ) =>
    copyRow c ⟨i_src + (k.1 * c.size.Y.toNat + k.2) * src_step,
      i_local + k.1 * (c.size.Y.toNat * dest_step + dest_mod) + k.2 * dest_step⟩ cells)]
  simpa using hcarried

theorem copyRow_eq {c : CopySource b} {k : ℕ × ℕ} {i_local : ℤ} (hc : c.Fits m)
    (hk : k.1 < c.size.Z.toNat ∧ k.2 < c.size.Y.toNat) (cells : Buffer VoxelCell) :
    copyRow c ⟨c.src_area.offset c.from_pos +
        (k.1 * c.size.Y.toNat + k.2) * c.src_area.getExtent.X, i_local⟩ cells =
      cells.modify i_local c.size.X fun x _ =>
        ⟨c.nodeAt ⟨c.to_pos.X + x, c.to_pos.Y + k.2, c.to_pos.Z + k.1⟩, 0⟩ := by
  unfold copyRow CopySource.nodeAt
  by_cases hmono : c.is_mono_block = true
  · have hsrc := hc.mono hmono
    rw [if_pos hmono, if_pos (Buffer.inside_one.2 ⟨le_rfl, by exact_mod_cast hsrc⟩)]
    simp [hmono]
  · have hfull := Bool.eq_false_iff.2 hmono
    rw [if_neg hmono]
    have hstart : c.src_area.offset c.from_pos +
        (k.1 * c.size.Y.toNat + k.2) * c.src_area.getExtent.X =
        c.src_area.offset ⟨c.from_pos.X, c.from_pos.Y + k.2, c.from_pos.Z + k.1⟩ := by
      rcases hc.rows hfull with hY | hZ
      · have hcast : (c.size.Y.toNat : ℤ) = c.src_area.getExtent.Y := by omega
        rw [hcast]
        unfold VoxelArea.offset
        ring
      · have hzero : k.1 = 0 := by omega
        rw [hzero]
        unfold VoxelArea.offset
        push_cast
        ring
    simp only [hstart, add_sub_cancel_left, hfull, VoxelArea.offset_run]
    refine if_pos ?_
    by_cases hX : c.size.X ≤ 0
    · exact .inl hX
    obtain ⟨hsize, hsource⟩ := hc.enough hfull
    have hcovers : ∀ x, 0 ≤ x → x < c.size.X →
        c.Covers ⟨c.to_pos.X + x, c.to_pos.Y + k.2, c.to_pos.Z + k.1⟩ := by
      intro x h0 hx
      unfold CopySource.Covers
      dsimp only
      omega
    have hfirst := (hsource _ (hcovers 0 le_rfl (by omega))).offset_lt
    have hlast := (hsource _ (hcovers (c.size.X - 1) (by omega) (by omega))).offset_lt
    simp only [add_sub_cancel_left, VoxelArea.offset_run] at hfirst hlast
    right
    omega

theorem copyIndex_eq {c : CopySource b} {k : ℕ × ℕ} {z : ℤ} (hc : c.Fits m)
    (hz : b.toPos (c.to_pos.Z + 1) = some z) (hX : 0 < c.size.X)
    (hk : k.1 < c.size.Z.toNat ∧ k.2 < c.size.Y.toNat) :
    m.m_area.offset c.to_pos + k.1 * (c.size.Y.toNat * m.m_area.getExtent.X +
        (m.m_area.offset ⟨c.to_pos.X, c.to_pos.Y, z⟩ - m.m_area.offset c.to_pos -
          m.m_area.getExtent.X * c.size.Y)) + k.2 * m.m_area.getExtent.X =
      m.m_area.offset ⟨c.to_pos.X, c.to_pos.Y + k.2, c.to_pos.Z + k.1⟩ := by
  have hcast : (c.size.Y.toNat : ℤ) = c.size.Y := by omega
  rw [hcast]
  by_cases hzero : k.1 = 0
  · rw [hzero]
    unfold VoxelArea.offset
    push_cast
    ring
  · -- the next layer is in the area
    have hcovers : c.Covers ⟨c.to_pos.X, c.to_pos.Y, c.to_pos.Z + 1⟩ := by
      unfold CopySource.Covers
      dsimp only
      omega
    have hnext := (hc.inside _ hcovers).2.2
    have hmin := m.m_area.minZ
    have hmax := m.m_area.maxZ
    dsimp only at hnext
    rw [Build.toPos_of_range (by omega) (by omega)] at hz
    cases hz
    unfold VoxelArea.offset
    ring

theorem copyFrom_refines (h : Refines m t) {c : CopySource b} (hc : c.Fits m) :
    ∃ m', m.copyFrom c = some m' ∧ Refines m' (t.copyFrom c) := by
  obtain ⟨i_local, hlocal⟩ := hc.first
  obtain ⟨z, above, hz, habove⟩ := hc.next
  obtain ⟨i_src, hsrc⟩ := hc.source
  have hoffset : ∀ {area : VoxelArea b} {p i}, area.index p = some i → i = area.offset p := by
    intro area p i hi
    unfold VoxelArea.index at hi
    split_ifs at hi
    exact (Option.some.inj hi).symm
  obtain rfl := hoffset hlocal
  obtain rfl := hoffset habove
  obtain rfl := hoffset hsrc
  have hkeys : ∀ k ∈ List.range c.size.Z.toNat ×ˢ List.range c.size.Y.toNat,
      k.1 < c.size.Z.toNat ∧ k.2 < c.size.Y.toNat := by
    intro k hk
    rwa [List.mem_product, List.mem_range, List.mem_range] at hk
  unfold copyFrom
  simp only [hz, Option.bind_some, habove, hlocal, hsrc, if_pos hc.counters, copyLoop_eq]
  by_cases hX : c.size.X ≤ 0
  · -- rows of nothing
    have hnone : ∀ p, ¬c.Covers p := fun p hp => by
      unfold CopySource.Covers at hp
      omega
    refine ⟨m, ?_, h.area, h.begun, h.volume, h.size, fun p hp => ?_, fun p hp => ?_⟩
    · rw [foldlM_congr (f := fun cells _ => some cells) fun k hk cells => by
        rw [copyRow_eq hc (hkeys k hk), Buffer.modify_of_nonpos hX]]
      have hid : ∀ (l : List (ℕ × ℕ)) (cells : Buffer VoxelCell),
          l.foldlM (fun cells _ => some cells) cells = some cells := by
        intro l
        induction l with
        | nil => exact fun _ => rfl
        | cons _ l ih => exact fun cells => ih cells
      rw [hid]
      rfl
    · rw [h.cell p hp]
      simp [PartialMap.copyFrom, hnone]
    · simpa [PartialMap.copyFrom, hnone] using h.outside p hp
  · have hcovers : ∀ k ∈ List.range c.size.Z.toNat ×ˢ List.range c.size.Y.toNat, ∀ x, 0 ≤ x →
        x < c.size.X → c.Covers ⟨c.to_pos.X + x, c.to_pos.Y + k.2, c.to_pos.Z + k.1⟩ := by
      intro k hk x h0 hx
      have := hkeys k hk
      unfold CopySource.Covers
      dsimp only
      omega
    obtain ⟨cells, hcells, hsize, hruns, hrest⟩ := modifyAll_rows (κ := ℕ × ℕ)
      (y := fun k => c.to_pos.Y + k.2) (z := fun k => c.to_pos.Z + k.1) (x := c.to_pos.X)
      (w := c.size.X) (List.nodup_range.product List.nodup_range)
      (fun k _ k' _ hy hz => Prod.ext (by omega) (by omega))
      (fun k hk x h0 hx => hc.inside _ (hcovers k hk x h0 hx)) h.size
      fun k x _ => ⟨c.nodeAt ⟨c.to_pos.X + x, c.to_pos.Y + k.2, c.to_pos.Z + k.1⟩, 0⟩
    refine ⟨{ m with cells }, ?_, h.area, h.begun, h.volume, hsize.trans h.size, fun p hp => ?_,
      fun p hp => ?_⟩
    · rw [foldlM_congr fun k hk cells => by
        rw [copyRow_eq hc (hkeys k hk), copyIndex_eq hc hz (by omega) (hkeys k hk)]]
      change ((Buffer.modifyAll _ _ _ _ _).map _).map _ = _
      rw [hcells]
      rfl
    · dsimp only [PartialMap.copyFrom]
      by_cases hpc : c.Covers p
      · rw [if_pos hpc, if_pos hpc]
        obtain ⟨hpx, hpy, hpz⟩ := hpc
        have hk : ((p.Z - c.to_pos.Z).toNat, (p.Y - c.to_pos.Y).toNat) ∈
            List.range c.size.Z.toNat ×ˢ List.range c.size.Y.toNat := by
          rw [List.mem_product, List.mem_range, List.mem_range]
          omega
        have hrun := hruns _ hk (p.X - c.to_pos.X) (by omega) (by omega)
        have hposition : (⟨c.to_pos.X + (p.X - c.to_pos.X), c.to_pos.Y + (p.Y - c.to_pos.Y).toNat,
            c.to_pos.Z + (p.Z - c.to_pos.Z).toNat⟩ : V3) = p := by
          obtain ⟨X, Y, Z⟩ := p
          simp only [V3.mk.injEq]
          dsimp only at hpx hpy hpz ⊢
          omega
        dsimp only at hrun
        rwa [hposition] at hrun
      · rw [if_neg hpc, if_neg hpc, ← h.cell p hp]
        refine hrest p hp fun k hk hout => hpc ?_
        have := hcovers k hk (p.X - c.to_pos.X) (by omega) (by omega)
        rw [add_sub_cancel, ← hout.1.1, ← hout.1.2] at this
        exact this
    · have hnot : ¬c.Covers p := fun hpc => hp (hc.inside p hpc)
      simpa [PartialMap.copyFrom, hnot] using h.outside p hp

/-! ### Runs -/

/-- What follows the growth by one position. -/
theorem emerge_refines (h : Refines m t) (hp : ∃ a, VoxelArea.make b p p = some a ∧ m.Growable a)
    {f : VoxelManipulator b → Option (VoxelManipulator b × VoxelAnswer)}
    {g : PartialMap b → PartialMap b × VoxelAnswer}
    (hf : ∀ m t, Refines m t → m.m_area.Holds p →
      ∃ m' t' answer, f m = some (m', answer) ∧ g t = (t', answer) ∧ Refines m' t') :
    ∃ m' t' answer, m.emerge p f = some (m', answer) ∧ t.emerge p g = some (t', answer) ∧
      Refines m' t' := by
  obtain ⟨a, ha, hgrow⟩ := hp
  obtain ⟨hmin, hmax⟩ := VoxelArea.make_eq_some ha
  have hpa : a.Holds p := by
    unfold VoxelArea.Holds
    rw [hmin, hmax]
    exact ⟨⟨le_rfl, le_rfl⟩, ⟨le_rfl, le_rfl⟩, le_rfl, le_rfl⟩
  obtain ⟨m₁, t₁, ok, hm, ht, h₁, hholds⟩ := addArea_refines h hgrow
  unfold emerge PartialMap.emerge
  simp only [ha, Option.bind_some, hm, ht, Option.map_some]
  cases ok with
  | false => exact ⟨m₁, t₁, .thrown, rfl, rfl, h₁⟩
  | true =>
    obtain ⟨m₂, t₂, answer, hm₂, ht₂, h₂⟩ := hf m₁ t₁ h₁ (hholds rfl p hpa)
    exact ⟨m₂, t₂, answer, hm₂, congrArg some ht₂, h₂⟩

theorem read_of_holds (t : PartialMap b) (p : V3) :
    t.read p = if t.flags p &&& VOXELFLAG_NO_DATA ≠ 0 then none else some (t.node p) := by
  unfold PartialMap.read PartialMap.Readable
  split_ifs <;> simp_all

theorem read_outside (h : Refines m t) (hp : ¬m.m_area.Holds p) : t.read p = none :=
  if_neg fun hread => hp (readable_holds h hread)

theorem step_refines (h : Refines m t) {op : VoxelOp b} (hop : op.Fits m) :
    ∃ m' t' answer, (machine b).step m op = some (m', answer) ∧
      (PartialMap.machine b).step t op = some (t', answer) ∧ Refines m' t' := by
  cases op with
  | addArea area =>
    obtain ⟨m', t', ok, hm, ht, h'⟩ := addArea_refines h hop
    exact ⟨m', t', if ok then .done else .thrown, by simp [machine, hm],
      by simp [PartialMap.machine, ht], h'.1⟩
  | setNode p n =>
    refine emerge_refines (f := fun m => (m.write p n).map (·, .done))
      (g := fun t => (t.write p n, .done)) h hop fun m t h hp => ?_
    obtain ⟨m', hm', h'⟩ := write_refines (n := n) h hp
    exact ⟨m', _, .done, by rw [hm']; rfl, rfl, h'⟩
  | setNodeNoEmerge p n =>
    by_cases hp : m.m_area.Holds p
    · obtain ⟨m', hm', h'⟩ := write_refines (n := n) h hp
      refine ⟨m', _, .done, ?_, ?_, h'⟩
      · simp [machine, setNodeNoEmerge, hp, hm']
      · simp [PartialMap.machine, ← h.area, hp]
    · refine ⟨m, t, .refused, ?_, ?_, h⟩
      · simp [machine, setNodeNoEmerge, hp]
      · simp [PartialMap.machine, ← h.area, hp]
  | getNode p =>
    refine emerge_refines
      (f := fun m => (m.cell p).map fun c =>
        (m, if c.flags &&& VOXELFLAG_NO_DATA ≠ 0 then .thrown else .node c.node))
      (g := fun t => (t, (t.read p).elim .thrown .node)) h hop fun m t h hp =>
        ⟨m, t, _, by rw [cell_refines h hp]; rfl, ?_, h⟩
    rw [read_of_holds]
    split_ifs <;> rfl
  | getNodeNoExNoEmerge p =>
    refine ⟨m, t, .node ((t.read p).getD { param0 := CONTENT_IGNORE }), ?_, rfl, h⟩
    by_cases hp : m.m_area.Holds p
    · simp only [machine, getNodeNoExNoEmerge, hp, if_true, cell_refines h hp, Option.map_some,
        read_of_holds]
      split_ifs <;> rfl
    · simp [machine, getNodeNoExNoEmerge, hp, read_outside h hp]
  | existsAt p =>
    refine ⟨m, t, .flag (t.read p).isSome, ?_, rfl, h⟩
    by_cases hp : m.m_area.Holds p
    · simp only [machine, existsAt, hp, if_true, cell_refines h hp, Option.map_some, read_of_holds]
      split_ifs with hflag <;> simp_all
    · simp [machine, existsAt, hp, read_outside h hp]
  | copyFrom c =>
    obtain ⟨m', hm', h'⟩ := copyFrom_refines h hop
    exact ⟨m', _, .done, by simp [machine, hm'], rfl, h'⟩
  | setFlags area flags =>
    obtain ⟨m', hm', h'⟩ := modifyFlags_refines (f := (· ||| flags)) h hop
    exact ⟨m', _, .done, by simp [machine, setFlags, hm'], rfl, h'⟩
  | clearFlags area flags =>
    obtain ⟨m', hm', h'⟩ := modifyFlags_refines (f := (· &&& ~~~flags)) h hop
    exact ⟨m', _, .done, by simp [machine, clearFlags, hm'], rfl, h'⟩

theorem run_refines_from (h : Refines m t) {ops : List (VoxelOp b)}
    (hops : (machine b).Allowed (fun m op => op.Fits m) m ops) :
    ∃ m' t' answers, (machine b).run m ops = some (m', answers) ∧
      (PartialMap.machine b).run t ops = some (t', answers) ∧ Refines m' t' := by
  induction ops generalizing m t with
  | nil => exact ⟨m, t, [], rfl, rfl, h⟩
  | cons op ops ih =>
    obtain ⟨m₁, t₁, answer, hm, ht, h₁⟩ := step_refines h hops.1
    obtain ⟨m₂, t₂, answers, hm₂, ht₂, h₂⟩ := ih h₁ (hops.next hm)
    refine ⟨m₂, t₂, answer :: answers, ?_, ?_, h₂⟩
    · simp [Machine.run, hm, hm₂]
    · simp [Machine.run, ht, ht₂]

def origin : VoxelArea .pos32 where
  MinEdge := ⟨0, 0, 0⟩
  MaxEdge := ⟨0, 0, 0⟩
  minX := by decide
  minY := by decide
  minZ := by decide
  maxX := by decide
  maxY := by decide
  maxZ := by decide
  extentX := by decide
  extentY := by decide
  extentZ := by decide

/-- An area of `2 ^ 64` positions. -/
def wide : VoxelArea .pos32 where
  MinEdge := ⟨0, 0, 0⟩
  MaxEdge := ⟨4194303, 2097151, 2097151⟩
  minX := by decide
  minY := by decide
  minZ := by decide
  maxX := by decide
  maxY := by decide
  maxZ := by decide
  extentX := by decide
  extentY := by decide
  extentZ := by decide

end VoxelManipulator

end Freeminer.Voxel
