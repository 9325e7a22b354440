import Freeminer.Voxel.VoxelManipulator

/-! The nodes of a `MapBlock` (`mapblock.cpp`), which are kept as one node while they are all the same,
and a block that keeps them all. -/

namespace Freeminer.Voxel

open Lib
open Block (MapNode CONTENT_IGNORE)

def nodecount : ℕ := 16 * 16 * 16

def nodeIndex (p : V3) : ℤ := (p.Z * (16 * 16) + p.Y * 16 + p.X) % 2 ^ 32

/-- `isValidPosition`, whose parameters are `s16`. -/
def isValidPosition (p : V3) : Bool :=
  [p.X, p.Y, p.Z].all fun i => 0 ≤ i.bmod 65536 && i.bmod 65536 < 16

/-- `data_size` of `copyFrom` and `copyTo`. -/
def blockSize : V3 := ⟨16, 16, 16⟩

theorem edge_low (b : Build) : b.POS_MIN ≤ 0 ∧ 0 ≤ b.POS_MAX := by cases b <;> decide

theorem edge_high (b : Build) : b.POS_MIN ≤ 15 ∧ 15 ≤ b.POS_MAX := by cases b <;> decide

theorem edge_extent (b : Build) : (0 : ℤ) ≤ 15 - 0 + 1 ∧ 15 - 0 + 1 ≤ b.MAX_EXTENT := by
  cases b <;> decide

/-- `data_area` -/
def blockArea (b : Build) : VoxelArea b where
  MinEdge := ⟨0, 0, 0⟩
  MaxEdge := ⟨15, 15, 15⟩
  minX := edge_low b
  minY := edge_low b
  minZ := edge_low b
  maxX := edge_high b
  maxY := edge_high b
  maxZ := edge_high b
  extentX := edge_extent b
  extentY := edge_extent b
  extentZ := edge_extent b

inductive BlockOp (b : Build) where
  | setNode (p : V3) (n : MapNode)
  | setNodeNoCheck (p : V3) (n : MapNode)
  | setNodeNoLock (p : V3) (n : MapNode)
  | copyFrom (src : VoxelManipulator b)
  | copyTo (dst : VoxelManipulator b)
  | tryShrinkNodes
  | expandNodesIfNeeded
  /-- `getNode` of a position that may be outside. -/
  | getNodeChecked (p : V3)
  | getNodeNoCheck (p : V3)
  | getNodeNoLock (p : V3)
  /-- `owns_lock` tells whether the lock is got. -/
  | getNodeTry (p : V3) (owns_lock : Bool)

inductive BlockAnswer (b : Build) where
  | done
  | node (n : MapNode)
  | copied (dst : VoxelManipulator b)

structure BlockPlace (b : Build) where
  isClient : Bool
  posRelative : V3

namespace BlockPlace

variable {b : Build} (place : BlockPlace b)

def source (data : Buffer MapNode) (is_mono_block : Bool) : CopySource b where
  src := data
  is_mono_block
  src_area := blockArea b
  from_pos := ⟨0, 0, 0⟩
  to_pos := place.posRelative
  size := blockSize

def copyInto (src : VoxelManipulator b) (data : Buffer MapNode) : Option (Buffer MapNode) :=
  src.copyTo data (blockArea b) ⟨0, 0, 0⟩ place.posRelative blockSize

end BlockPlace

structure BlockData where
  data : Buffer MapNode
  m_is_mono_block : Bool

namespace BlockData

variable {b : Build} (m : BlockData)

def reallocate (count : ℕ) (n : MapNode) : BlockData :=
  { data := Buffer.replicate count n, m_is_mono_block := count = 1 }

def init : BlockData := reallocate nodecount { param0 := CONTENT_IGNORE }

def expandNodesIfNeeded : BlockData :=
  if m.m_is_mono_block then reallocate nodecount (m.data.val 0) else m

def tryShrinkNodes (isClient : Bool) : BlockData :=
  if isClient then m
  else if m.m_is_mono_block then m
  else if (List.range nodecount).all fun i => decide (m.data.val i = m.data.val 0) then
    reallocate 1 (m.data.val 0)
  else m

/-- What `setNode` and its variants do to the nodes. -/
def set (p : V3) (n : MapNode) : Option BlockData :=
  (m.expandNodesIfNeeded.data.modify (nodeIndex p) 1 fun _ _ => n).map fun data =>
    { m.expandNodesIfNeeded with data }

def get (p : V3) : Option MapNode := m.data.get (if m.m_is_mono_block then 0 else nodeIndex p)

def machine (place : BlockPlace b) : Machine BlockData (BlockOp b) (BlockAnswer b) where
  init := init
  step m
    | .setNode p n => (m.set p n).map (·, .done)
    | .setNodeNoCheck p n => (m.set p n).map (·, .done)
    | .setNodeNoLock p n => (m.set p n).map (·, .done)
    | .copyFrom src =>
      (place.copyInto src m.expandNodesIfNeeded.data).map fun data =>
        (({ m.expandNodesIfNeeded with data } : BlockData).tryShrinkNodes place.isClient, .done)
    | .copyTo dst =>
      (dst.copyFrom (place.source m.data m.m_is_mono_block)).map fun dst => (m, .copied dst)
    | .tryShrinkNodes => some (m.tryShrinkNodes place.isClient, .done)
    | .expandNodesIfNeeded => some (m.expandNodesIfNeeded, .done)
    | .getNodeChecked p =>
      if isValidPosition p then (m.get p).map fun n => (m, .node n)
      else some (m, .node { param0 := CONTENT_IGNORE })
    | .getNodeNoCheck p => (m.get p).map fun n => (m, .node n)
    | .getNodeNoLock p => (m.get p).map fun n => (m, .node n)
    | .getNodeTry p owns_lock =>
      if owns_lock then (m.get p).map fun n => (m, .node n)
      else some (m, .node { param0 := CONTENT_IGNORE })

end BlockData

def fullMachine {b : Build} (place : BlockPlace b) :
    Machine (Buffer MapNode) (BlockOp b) (BlockAnswer b) where
  init := Buffer.replicate nodecount { param0 := CONTENT_IGNORE }
  step data
    | .setNode p n => (data.modify (nodeIndex p) 1 fun _ _ => n).map (·, .done)
    | .setNodeNoCheck p n => (data.modify (nodeIndex p) 1 fun _ _ => n).map (·, .done)
    | .setNodeNoLock p n => (data.modify (nodeIndex p) 1 fun _ _ => n).map (·, .done)
    | .copyFrom src => (place.copyInto src data).map (·, .done)
    | .copyTo dst => (dst.copyFrom (place.source data false)).map fun dst => (data, .copied dst)
    | .tryShrinkNodes => some (data, .done)
    | .expandNodesIfNeeded => some (data, .done)
    | .getNodeChecked p =>
      if isValidPosition p then (data.get (nodeIndex p)).map fun n => (data, .node n)
      else some (data, .node { param0 := CONTENT_IGNORE })
    | .getNodeNoCheck p => (data.get (nodeIndex p)).map fun n => (data, .node n)
    | .getNodeNoLock p => (data.get (nodeIndex p)).map fun n => (data, .node n)
    | .getNodeTry p owns_lock =>
      if owns_lock then (data.get (nodeIndex p)).map fun n => (data, .node n)
      else some (data, .node { param0 := CONTENT_IGNORE })

def BlockData.WellFormed (m : BlockData) : Prop :=
  m.data.size = if m.m_is_mono_block then 1 else nodecount

/-- The array of all nodes that a block stands for. -/
structure Expands (m : BlockData) (data : Buffer MapNode) : Prop where
  wellFormed : m.WellFormed
  agrees : m.expandNodesIfNeeded.data.Agrees data

namespace BlockData

variable {b : Build} {m m' : BlockData} {data data' : Buffer MapNode} {place : BlockPlace b} {p : V3}
  {n : MapNode}

theorem expand_of_mono (h : m.m_is_mono_block = true) :
    m.expandNodesIfNeeded = reallocate nodecount (m.data.val 0) := if_pos h

theorem expand_of_full (h : m.m_is_mono_block = false) : m.expandNodesIfNeeded = m :=
  if_neg (by simp [h])

@[simp] theorem expand_is_full (m : BlockData) : m.expandNodesIfNeeded.m_is_mono_block = false := by
  unfold expandNodesIfNeeded
  split_ifs with hmono
  · rfl
  · simpa using hmono

theorem WellFormed.expand (h : m.WellFormed) : m.expandNodesIfNeeded.WellFormed := by
  unfold expandNodesIfNeeded
  split_ifs
  · rfl
  · exact h

theorem WellFormed.size_expand (h : m.WellFormed) : m.expandNodesIfNeeded.data.size = nodecount := by
  have := h.expand
  rwa [WellFormed, expand_is_full] at this

/-- A well formed block stands for what it expands to. -/
theorem expands_self (h : m.WellFormed) : Expands m m.expandNodesIfNeeded.data :=
  ⟨h, Buffer.Agrees.refl _⟩

theorem expands_expand (h : Expands m data) : Expands m.expandNodesIfNeeded data := by
  refine ⟨h.wellFormed.expand, ?_⟩
  rw [expand_of_full (expand_is_full m)]
  exact h.agrees

theorem expands_shrink (h : Expands m data) (isClient : Bool) :
    Expands (m.tryShrinkNodes isClient) data := by
  unfold tryShrinkNodes
  split_ifs with hclient hmono hall
  · exact h
  · exact h
  · have hfull := Bool.eq_false_iff.2 hmono
    have hdata := h.agrees
    have hsize := h.wellFormed
    rw [expand_of_full hfull] at hdata
    rw [WellFormed, hfull, if_neg (by simp)] at hsize
    refine ⟨rfl, ?_⟩
    refine Buffer.Agrees.trans ⟨hsize.symm, fun i h0 hi => ?_⟩ hdata
    have hi : i < nodecount := hi
    -- every node is the first
    have hsame := List.all_eq_true.1 hall i.toNat (List.mem_range.2 (by omega))
    rw [Int.toNat_of_nonneg h0] at hsame
    exact (of_decide_eq_true hsame).symm
  · exact h

theorem expands_get (h : Expands m data) (hn : data.get (nodeIndex p) = some n) :
    m.get p = some n := by
  have hget := (h.agrees.get (nodeIndex p)).trans hn
  unfold get
  cases hmono : m.m_is_mono_block with
  | false =>
    rw [expand_of_full hmono] at hget
    simpa using hget
  | true =>
    rw [expand_of_mono hmono] at hget
    have hsize := h.wellFormed
    rw [WellFormed, hmono, if_pos rfl] at hsize
    unfold Buffer.get at hget
    split_ifs at hget
    simp only [if_true]
    rw [Buffer.get_of_lt le_rfl (by omega)]
    exact hget

/-- A write is for one position: a block of one node expands before. -/
theorem expands_set (h : Expands m data)
    (hdata : (data.modify (nodeIndex p) 1 fun _ _ => n) = some data') :
    ∃ m', m.set p n = some m' ∧ Expands m' data' := by
  have hrel := h.agrees.modify (nodeIndex p) 1 fun _ _ => n
  unfold set
  rw [hdata] at hrel
  cases hm : m.expandNodesIfNeeded.data.modify (nodeIndex p) 1 fun _ _ => n with
  | none =>
    rw [hm] at hrel
    cases hrel
  | some d =>
    rw [hm] at hrel
    have hsize := (Buffer.modify_eq_some hm).2.1
    cases hrel with
    | some hagrees =>
      refine ⟨_, rfl, ?_⟩
      change Expands ⟨d, m.expandNodesIfNeeded.m_is_mono_block⟩ data'
      rw [expand_is_full]
      exact ⟨hsize.trans h.wellFormed.size_expand, hagrees⟩

end BlockData

namespace BlockPlace

variable {b : Build} {place : BlockPlace b} {data data' : Buffer MapNode} {m : BlockData}

/-- What is copied into arrays with the same nodes leaves them with the same nodes. -/
theorem copyInto_agrees (place : BlockPlace b) (src : VoxelManipulator b) (h : data.Agrees data') :
    Option.Rel Buffer.Agrees (place.copyInto src data) (place.copyInto src data') := by
  unfold copyInto VoxelManipulator.copyTo
  split_ifs
  · refine foldlM_rel (fun z data data' h => ?_) h
    refine foldlM_rel (fun y data data' h => ?_) h
    cases (VoxelManipulator.rowStart b ⟨0, 0, 0⟩ y z).bind (blockArea b).index with
    | none => exact .none
    | some i_dst =>
      cases (VoxelManipulator.rowStart b place.posRelative y z).bind src.m_area.index with
      | none => exact .none
      | some i_local =>
        refine foldlM_rel (fun x data data' h => ?_) h
        cases src.cells.get (i_local + x) with
        | none => exact .none
        | some c =>
          simp only [Option.bind_some]
          split_ifs
          · exact h.modify _ _ _
          · exact .some h
  · exact .none

/-- What copies into an array keeps its size. -/
theorem size_copyInto {src : VoxelManipulator b} (h : place.copyInto src data = some data') :
    data'.size = data.size := by
  have hkeep : ∀ {α : Type} {l : List α} {g : Buffer MapNode → α → Option (Buffer MapNode)},
      (∀ d a d', g d a = some d' → d'.size = d.size) →
        ∀ d d', l.foldlM g d = some d' → d'.size = d.size := by
    intro α l g hg
    induction l with
    | nil =>
      intro d d' hd
      cases hd
      rfl
    | cons a l ih =>
      intro d d' hd
      rw [List.foldlM_cons] at hd
      obtain ⟨d₁, hd₁, hd⟩ := Option.bind_eq_some_iff.1 hd
      exact (ih d₁ d' hd).trans (hg d a d₁ hd₁)
  unfold copyInto VoxelManipulator.copyTo at h
  split_ifs at h
  refine hkeep (fun d z d' hz => hkeep (fun d y d' hy => ?_) d d' hz) _ _ h
  obtain ⟨i_dst, -, hy⟩ := Option.bind_eq_some_iff.1 hy
  obtain ⟨i_local, -, hy⟩ := Option.bind_eq_some_iff.1 hy
  refine hkeep (fun d x d' hx => ?_) d d' hy
  obtain ⟨c, -, hx⟩ := Option.bind_eq_some_iff.1 hx
  split_ifs at hx
  · exact (Buffer.modify_eq_some hx).2.1
  · cases hx
    rfl

/-- A row of one node is as a row of the array. -/
theorem copyRow_source (h : Expands m data) {i_src : ℤ} (h0 : 0 ≤ i_src)
    (hend : i_src + 16 ≤ nodecount) (i_local : ℤ) (cells : Buffer VoxelCell) :
    VoxelManipulator.copyRow (place.source m.data m.m_is_mono_block) ⟨i_src, i_local⟩ cells =
      VoxelManipulator.copyRow (place.source data false) ⟨i_src, i_local⟩ cells := by
  have hsize : data.size = nodecount := h.agrees.size.symm.trans h.wellFormed.size_expand
  have hinside : ∀ d : Buffer MapNode, d.size = nodecount → d.Inside i_src 16 :=
    fun d hd => .inr ⟨h0, by rw [hd]; exact hend⟩
  have hwell := h.wellFormed
  have hall := h.agrees.symm.val
  have hrow : ∀ x : ℤ, 0 ≤ x → x < 16 → i_src + x < data.size := by
    intro x _ hx
    rw [hsize]
    omega
  unfold BlockData.WellFormed at hwell
  unfold VoxelManipulator.copyRow
  simp only [source, blockSize, hinside data hsize, if_true, Bool.false_eq_true, if_false]
  cases hmono : m.m_is_mono_block with
  | true =>
    rw [hmono, if_pos rfl] at hwell
    rw [BlockData.expand_of_mono hmono] at hall
    have hone : m.data.Inside 0 1 := .inr ⟨le_rfl, by omega⟩
    simp only [hone, if_true]
    refine Buffer.modify_congr fun x hx0 hx => funext fun _ => ?_
    rw [hall _ (by omega) (hrow x hx0 hx)]
    rfl
  | false =>
    rw [hmono, if_neg Bool.false_ne_true] at hwell
    rw [BlockData.expand_of_full hmono] at hall
    simp only [hinside m.data hwell, if_true, Bool.false_eq_true, if_false]
    refine Buffer.modify_congr fun x hx0 hx => funext fun _ => ?_
    rw [hall _ (by omega) (hrow x hx0 hx)]

theorem copyLoop_source (h : Expands m data) (dest_step dest_mod i_local : ℤ)
    (cells : Buffer VoxelCell) :
    VoxelManipulator.copyLoop (place.source m.data m.m_is_mono_block) 16 dest_step dest_mod
        (cells, ⟨0, i_local⟩) =
      VoxelManipulator.copyLoop (place.source data false) 16 dest_step dest_mod
        (cells, ⟨0, i_local⟩) := by
  have hsize : ∀ data is_mono_block, (place.source data is_mono_block).size = ⟨16, 16, 16⟩ :=
    fun _ _ => rfl
  have hsixteen : (16 : ℤ).toNat = 16 := rfl
  rw [VoxelManipulator.copyLoop_eq, VoxelManipulator.copyLoop_eq]
  simp only [hsize, hsixteen]
  rw [foldlM_congr fun k hk cells => ?_]
  rw [List.mem_product, List.mem_range, List.mem_range] at hk
  refine copyRow_source h ?_ ?_ _ _
  · omega
  · unfold nodecount
    omega

/-- A manipulator gets the same nodes from one node as from all. -/
theorem copyFrom_source (h : Expands m data) (dst : VoxelManipulator b) :
    dst.copyFrom (place.source m.data m.m_is_mono_block) = dst.copyFrom (place.source data false) := by
  have hindex : ∀ data is_mono_block, (place.source data is_mono_block).src_area.index
      (place.source data is_mono_block).from_pos = some 0 := fun _ _ => rfl
  have hstep : ∀ data is_mono_block,
      (place.source data is_mono_block).src_area.getExtent.X = 16 := fun _ _ => rfl
  have hto : ∀ data is_mono_block, (place.source data is_mono_block).to_pos = place.posRelative :=
    fun _ _ => rfl
  have hsize : ∀ data is_mono_block, (place.source data is_mono_block).size = blockSize :=
    fun _ _ => rfl
  unfold VoxelManipulator.copyFrom
  simp only [hindex, hstep, hto, hsize, Option.bind_some, copyLoop_source h]

end BlockPlace

namespace BlockData

variable {b : Build} {place : BlockPlace b} {m : BlockData} {data data' : Buffer MapNode}
  {op : BlockOp b} {answer : BlockAnswer b}

theorem step_set {p : V3} {n : MapNode} (h : Expands m data)
    (hstep : (data.modify (nodeIndex p) 1 fun _ _ => n).map (·, (.done : BlockAnswer b)) =
      some (data', answer)) :
    ∃ m', (m.set p n).map (·, .done) = some (m', answer) ∧ Expands m' data' := by
  obtain ⟨d, hd, heq⟩ := Option.map_eq_some_iff.1 hstep
  cases heq
  obtain ⟨m', hm', h'⟩ := expands_set h hd
  exact ⟨m', by rw [hm']; rfl, h'⟩

theorem step_get {p : V3} (h : Expands m data)
    (hstep : (data.get (nodeIndex p)).map (fun n => (data, (.node n : BlockAnswer b))) =
      some (data', answer)) :
    ∃ m', (m.get p).map (fun n => (m, .node n)) = some (m', answer) ∧ Expands m' data' := by
  obtain ⟨n, hn, heq⟩ := Option.map_eq_some_iff.1 hstep
  cases heq
  exact ⟨m, by rw [expands_get h hn]; rfl, h⟩

/-- What is possible with all nodes is possible with a block that stands for them, with the same answer. -/
theorem step_expands (h : Expands m data)
    (hstep : (fullMachine place).step data op = some (data', answer)) :
    ∃ m', (machine place).step m op = some (m', answer) ∧ Expands m' data' := by
  cases op with
  | setNode p n => exact step_set h hstep
  | setNodeNoCheck p n => exact step_set h hstep
  | setNodeNoLock p n => exact step_set h hstep
  | copyFrom src =>
    obtain ⟨d, hd, heq⟩ := Option.map_eq_some_iff.1 hstep
    cases heq
    have hrel := BlockPlace.copyInto_agrees place src h.agrees
    rw [hd] at hrel
    cases hm : place.copyInto src m.expandNodesIfNeeded.data with
    | none =>
      rw [hm] at hrel
      cases hrel
    | some d' =>
      rw [hm] at hrel
      cases hrel with
      | some hagrees =>
        have hsize := (BlockPlace.size_copyInto hm).trans h.wellFormed.size_expand
        have hexpands : Expands ⟨d', false⟩ data' := ⟨hsize, hagrees⟩
        refine ⟨(⟨d', false⟩ : BlockData).tryShrinkNodes place.isClient, ?_, ?_⟩
        · simp [machine, hm]
        · exact expands_shrink hexpands _
  | copyTo dst =>
    obtain ⟨d, hd, heq⟩ := Option.map_eq_some_iff.1 hstep
    cases heq
    refine ⟨m, ?_, h⟩
    change (dst.copyFrom (place.source m.data m.m_is_mono_block)).map _ = _
    rw [BlockPlace.copyFrom_source h, hd]
    rfl
  | tryShrinkNodes =>
    cases hstep
    exact ⟨_, rfl, expands_shrink h _⟩
  | expandNodesIfNeeded =>
    cases hstep
    exact ⟨_, rfl, expands_expand h⟩
  | getNodeChecked p =>
    simp only [fullMachine, machine] at hstep ⊢
    split_ifs at hstep ⊢ with hvalid
    · exact step_get h hstep
    · cases hstep
      exact ⟨m, rfl, h⟩
  | getNodeNoCheck p => exact step_get h hstep
  | getNodeNoLock p => exact step_get h hstep
  | getNodeTry p owns_lock =>
    simp only [fullMachine, machine] at hstep ⊢
    split_ifs at hstep ⊢ with hlock
    · exact step_get h hstep
    · cases hstep
      exact ⟨m, rfl, h⟩

theorem run_expands {ops : List (BlockOp b)} {answers : List (BlockAnswer b)} (h : Expands m data)
    (hrun : (fullMachine place).run data ops = some (data', answers)) :
    ∃ m', (machine place).run m ops = some (m', answers) ∧ Expands m' data' := by
  induction ops generalizing m data answers with
  | nil =>
    cases hrun
    exact ⟨m, rfl, h⟩
  | cons op ops ih =>
    obtain ⟨⟨data₁, answer⟩, hfirst, hrun⟩ := Option.bind_eq_some_iff.1 hrun
    obtain ⟨⟨data₂, rest⟩, hrest, heq⟩ := Option.map_eq_some_iff.1 hrun
    cases heq
    obtain ⟨m₁, hm₁, h₁⟩ := step_expands h hfirst
    obtain ⟨m₂, hm₂, h₂⟩ := ih h₁ hrest
    exact ⟨m₂, by simp [Machine.run, hm₁, hm₂], h₂⟩

/-- A block answers as an array of all of its nodes does, whether or not it keeps one node for all, and
stands for that array after. -/
theorem run_transparent (place : BlockPlace b) (m : BlockData) (hm : m.WellFormed)
    (ops : List (BlockOp b)) (data' : Buffer MapNode) (answers : List (BlockAnswer b))
    (hrun : (fullMachine place).run m.expandNodesIfNeeded.data ops = some (data', answers)) :
    ∃ m', (machine place).run m ops = some (m', answers) ∧ Expands m' data' :=
  run_expands (expands_self hm) hrun

/-- A block of stone gets one other node. -/
theorem run_transparent_stone :
    ∃ m', (machine (⟨false, ⟨0, 0, 0⟩⟩ : BlockPlace .pos32)).run (reallocate 1 { param0 := 5 })
        [.setNodeNoCheck ⟨1, 0, 0⟩ { param0 := 6 }, .getNodeNoCheck ⟨2, 0, 0⟩] =
          some (m', [.done, .node { param0 := 5 }]) ∧
      Expands m' ⟨nodecount, fun j => if 1 ≤ j ∧ j < 1 + 1 then { param0 := 6 } else { param0 := 5 }⟩ :=
  run_transparent ⟨false, ⟨0, 0, 0⟩⟩ (reallocate 1 { param0 := 5 }) rfl _ _ _ rfl

end BlockData

end Freeminer.Voxel
