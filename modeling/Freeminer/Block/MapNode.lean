import Mathlib.Data.List.GetD
import Freeminer.Util.BinaryStream

/-! `MapNode` and its bulk format (`mapnode.cpp`): all contents of a block, then all `param1`, then
all `param2`. -/

namespace Freeminer.Block

/-- `content_t` -/
abbrev Content := UInt16

structure MapNode where
  param0 : Content
  param1 : UInt8 := 0
  param2 : UInt8 := 0
  deriving DecidableEq

namespace MapNode

/-- `serializeBulk`; a block of one node repeats it. -/
def serializeBulk (nodes : List MapNode) : ByteString :=
  nodes.flatMap (fun n => writeU16 n.param0) ++ nodes.map param1 ++ nodes.map param2

/-- Old contents of one byte take four more bits from `param2`. -/
def widen (param0 : Content) (param2 : UInt8) : Content × UInt8 :=
  if 0x7F < param0 then (param0 <<< 4 ||| ((param2 &&& 0xF0) >>> 4).toUInt16, param2 &&& 0x0F)
  else (param0, param2)

/-- One node of the buffer that `deSerializeBulk` reads. -/
def ofBulk (databuf : ByteString) (nodecount contentWidth i : ℕ) : MapNode :=
  let param1 := databuf.getD (contentWidth * nodecount + i) 0
  let param2 := databuf.getD ((contentWidth + 1) * nodecount + i) 0
  if contentWidth = 1 then
    let (param0, param2) := widen (databuf.getD i 0).toUInt16 param2
    { param0, param1, param2 }
  else { param0 := readU16 (databuf.drop (i * 2)), param1, param2 }

/-- `deSerializeBulk`. A buffer that is not filled is taken to hold zeros. -/
def deSerializeBulk (is : IStream) (version : UInt8) (nodecount : ℕ)
    (contentWidth paramsWidth : UInt8) : Except LoadError (List MapNode × IStream) :=
  if version < 22 ∨ (contentWidth ≠ 1 ∧ contentWidth ≠ 2) ∨ paramsWidth ≠ 2 then
    .error (.serialization (bytes "Deserialize bulk node data error"))
  else
    let (databuf, is) := is.read (nodecount * (contentWidth.toNat + paramsWidth.toNat))
    .ok ((List.range nodecount).map (ofBulk databuf nodecount contentWidth.toNat), is)

variable {nodes : List MapNode}

theorem length_deSerializeBulk {is is' : IStream} {version contentWidth paramsWidth : UInt8}
    {nodecount : ℕ}
    (h : deSerializeBulk is version nodecount contentWidth paramsWidth = .ok (nodes, is')) :
    nodes.length = nodecount := by
  unfold deSerializeBulk at h
  split_ifs at h with hbad
  obtain rfl := (Prod.ext_iff.mp (Except.ok.inj h)).1
  simp

theorem length_flatMap_writeU16 (nodes : List MapNode) :
    (nodes.flatMap fun n => writeU16 n.param0).length = 2 * nodes.length := by
  induction nodes with
  | nil => rfl
  | cons n nodes ih =>
    rw [List.flatMap_cons, List.length_append, ih, length_writeU16, List.length_cons]
    omega

theorem length_serializeBulk (nodes : List MapNode) :
    (serializeBulk nodes).length = nodes.length * 4 := by
  simp only [serializeBulk, List.length_append, length_flatMap_writeU16, List.length_map]
  omega

/-- The content at a position of the buffer. -/
theorem readU16_drop {i : ℕ} (h : i < nodes.length) (rest : ByteString) :
    readU16 (((nodes.flatMap fun n => writeU16 n.param0) ++ rest).drop (i * 2)) =
      nodes[i].param0 := by
  induction nodes generalizing i with
  | nil => simp at h
  | cons n nodes ih =>
    cases i with
    | zero =>
      rw [List.flatMap_cons, List.append_assoc]
      exact readU16_writeU16 _ _
    | succ i =>
      have hdrop : ((n :: nodes).flatMap (fun n => writeU16 n.param0) ++ rest).drop ((i + 1) * 2) =
          ((nodes.flatMap fun n => writeU16 n.param0) ++ rest).drop (i * 2) := by
        rw [List.flatMap_cons, List.append_assoc, Nat.add_mul, Nat.add_comm, List.drop_append]
        simp
      rw [hdrop]
      exact ih (by simpa using h)

theorem ofBulk_serializeBulk {i : ℕ} (h : i < nodes.length) :
    ofBulk (serializeBulk nodes) nodes.length 2 i = nodes[i] := by
  have h0 : readU16 ((serializeBulk nodes).drop (i * 2)) = nodes[i].param0 := by
    rw [serializeBulk, List.append_assoc]
    exact readU16_drop h _
  have h1 : (serializeBulk nodes).getD (2 * nodes.length + i) 0 = nodes[i].param1 := by
    rw [serializeBulk, List.append_assoc,
      List.getD_append_right _ _ _ _ (by rw [length_flatMap_writeU16]; omega),
      length_flatMap_writeU16, Nat.add_sub_cancel_left,
      List.getD_append _ _ _ _ (by simpa using h)]
    simp [List.getD, h]
  have h2 : (serializeBulk nodes).getD ((2 + 1) * nodes.length + i) 0 = nodes[i].param2 := by
    have hlen : ((nodes.flatMap fun n => writeU16 n.param0) ++ nodes.map param1).length =
        (2 + 1) * nodes.length := by
      rw [List.length_append, length_flatMap_writeU16, List.length_map]
      omega
    rw [serializeBulk, List.getD_append_right _ _ _ _ (by omega), hlen, Nat.add_sub_cancel_left]
    simp [List.getD, h]
  simp only [ofBulk, h0, h1, h2, OfNat.ofNat_ne_one, if_false]

theorem deSerializeBulk_append {version : UInt8} (hv : ¬version < 22) {nodecount : ℕ}
    (hlen : nodes.length = nodecount) (rest : ByteString) :
    deSerializeBulk { rest := serializeBulk nodes ++ rest } version nodecount 2 2 =
      .ok (nodes, { rest }) := by
  subst hlen
  have hmap : (List.range nodes.length).map (ofBulk (serializeBulk nodes) nodes.length 2) =
      nodes := by
    apply List.ext_getElem
    · simp
    · intro i h1 h2
      rw [List.getElem_map, List.getElem_range, ofBulk_serializeBulk h2]
  unfold deSerializeBulk
  rw [if_neg (by simp [hv])]
  simp only [show (2 : UInt8).toNat = 2 from rfl]
  rw [IStream.read_append (length_serializeBulk nodes), hmap]

end MapNode

end Freeminer.Block
