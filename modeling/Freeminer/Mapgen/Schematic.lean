import Freeminer.NodeDef.NodeDefManager
import Freeminer.Block.MapBlock

/-! `NodeResolver` (`nodedef.cpp`): the names of nodes that wait for the node definitions. -/

namespace Freeminer

namespace NodeDef.NodeDefManager

open Block (Content CONTENT_UNKNOWN)

variable {R : Type}

/-- Contents that are not registered have the features of `CONTENT_UNKNOWN`. -/
def get (m : NodeDefManager R) (c : Content) : ContentFeatures R :=
  if (m.m_content_features c).name ≠ [] then m.m_content_features c
  else m.m_content_features CONTENT_UNKNOWN

def groupPrefix : ByteString := bytes "group:"

/-- What `getIds` adds to the vector it is given. -/
def getIds (m : NodeDefManager R) (name : ByteString) : List Content :=
  if groupPrefix.isPrefixOf name then m.m_group_to_items (name.drop 6) else (m.getId name).toList

end NodeDef.NodeDefManager

namespace Mapgen

open Block (Content)
open NodeDef (NodeDefManager)

structure NodeResolver where
  m_nodenames : List ByteString := []
  m_nodenames_idx : ℕ := 0
  m_nnlistsizes : List ℕ := []
  m_nnlistsizes_idx : ℕ := 0
  m_resolve_done : Bool := false
  deriving DecidableEq

namespace NodeResolver

variable {R : Type} (ndef : NodeDefManager R)

def reset (resolve_done : Bool) : NodeResolver := { m_resolve_done := resolve_done }

def idsOf (all_required : Bool) (c_fallback : Content) (name : ByteString) : Bool × List Content :=
  if NodeDefManager.groupPrefix.isPrefixOf name then (true, ndef.getIds name)
  else
    match ndef.getId name with
    | some c => (true, [c])
    | none => if all_required then (false, [c_fallback]) else (true, [])

/-- The loop of `getIdsFromNrBacklog` over the names that are left of the list. -/
def idsLoop (all_required : Bool) (c_fallback : Content) :
    ℕ → NodeResolver → Bool × List Content × NodeResolver
  | 0, r => (true, [], r)
  | length + 1, r =>
    match r.m_nodenames[r.m_nodenames_idx]? with
    | none => (false, [], r)
    | some name =>
      let (success, ids) := idsOf ndef all_required c_fallback name
      let (success', ids', r) := idsLoop all_required c_fallback length
        { r with m_nodenames_idx := r.m_nodenames_idx + 1 }
      (success && success', ids ++ ids', r)

def getIdsFromNrBacklog (r : NodeResolver) (all_required : Bool) (c_fallback : Content) :
    Bool × List Content × NodeResolver :=
  match r.m_nnlistsizes[r.m_nnlistsizes_idx]? with
  | none => (false, [], r)
  | some length =>
    idsLoop ndef all_required c_fallback length
      { r with m_nnlistsizes_idx := r.m_nnlistsizes_idx + 1 }

variable {ndef} {all_required : Bool} {c_fallback : Content}

theorem idsLoop_eq {length : ℕ} {r : NodeResolver}
    (h : r.m_nodenames_idx + length = r.m_nodenames.length) :
    (idsLoop ndef all_required c_fallback length r).2.1 =
      (r.m_nodenames.drop r.m_nodenames_idx).flatMap fun name =>
        (idsOf ndef all_required c_fallback name).2 := by
  induction length generalizing r with
  | zero =>
    rw [List.drop_eq_nil_of_le (by omega)]
    rfl
  | succ length ih =>
    have hlt : r.m_nodenames_idx < r.m_nodenames.length := by omega
    have hget : r.m_nodenames[r.m_nodenames_idx]? = some r.m_nodenames[r.m_nodenames_idx] :=
      List.getElem?_eq_getElem hlt
    rw [List.drop_eq_getElem_cons hlt, List.flatMap_cons]
    unfold idsLoop
    rw [hget]
    simp only
    congr 1
    apply ih
    simp only
    omega

variable (ndef all_required c_fallback) in
theorem getIdsFromNrBacklog_eq (names : List ByteString) (resolve_done : Bool) :
    (getIdsFromNrBacklog ndef
        { m_nodenames := names, m_nnlistsizes := [names.length], m_resolve_done := resolve_done }
        all_required c_fallback).2.1 =
      names.flatMap fun name => (idsOf ndef all_required c_fallback name).2 := by
  unfold getIdsFromNrBacklog
  simp only [List.getElem?_cons_zero]
  rw [idsLoop_eq (by simp)]
  simp

end NodeResolver

end Mapgen

end Freeminer

/-! Schematics (`mapgen/mg_schematic.cpp`): how a region of the map becomes one, the file it is
saved to, and how it is placed. -/

namespace Freeminer.Mapgen

open Block (Content MapNode CONTENT_AIR CONTENT_IGNORE Compression)
open NodeDef (NodeDefManager)

/-- `v3pos_t` -/
structure V3pos where
  X : ℤ
  Y : ℤ
  Z : ℤ
  deriving DecidableEq

namespace V3pos

instance : Add V3pos := ⟨fun p q => ⟨p.X + q.X, p.Y + q.Y, p.Z + q.Z⟩⟩
instance : Sub V3pos := ⟨fun p q => ⟨p.X - q.X, p.Y - q.Y, p.Z - q.Z⟩⟩

end V3pos

structure V3s16 where
  X : Int16
  Y : Int16
  Z : Int16
  deriving DecidableEq

/-- The product is right as long as an `int` holds it. -/
def V3s16.nodecount (size : V3s16) : ℤ := size.X.toInt * size.Y.toInt * size.Z.toInt

def MTSCHEM_FILE_SIGNATURE : UInt32 := 0x4d54534d
def MTSCHEM_FILE_VER_HIGHEST_READ : UInt16 := 4
def MTSCHEM_FILE_VER_HIGHEST_WRITE : UInt16 := 4
def MTSCHEM_MAPNODE_SER_FMT_VER : UInt8 := 28

def MTSCHEM_PROB_MASK : UInt8 := 0x7F
def MTSCHEM_PROB_NEVER : UInt8 := 0x00
def MTSCHEM_PROB_ALWAYS : UInt8 := 0x7F
def MTSCHEM_PROB_ALWAYS_OLD : UInt8 := 0xFF
def MTSCHEM_FORCE_PLACE : UInt8 := 0x80

structure Schematic extends NodeResolver where
  c_nodes : List Content := []
  size : V3s16
  schemdata : List MapNode
  slice_probs : List UInt8
  cells : schemdata.length = size.nodecount.toNat
  slices : slice_probs.length = size.Y.toInt.toNat
  deriving DecidableEq

namespace Schematic

/-! ## From the map -/

def regionNodes (vm : V3pos → MapNode) (p1 : V3pos) (sx sy sz : ℕ) : List MapNode :=
  (List.range sz).flatMap fun z => (List.range sy).flatMap fun y => (List.range sx).map fun x =>
    { vm (p1 + ⟨x, y, z⟩) with param1 := MTSCHEM_PROB_ALWAYS }

theorem length_regionNodes (vm : V3pos → MapNode) (p1 : V3pos) (sx sy sz : ℕ) :
    (regionNodes vm p1 sx sy sz).length = sx * sy * sz := by
  simp only [regionNodes, List.length_flatMap, List.length_map, List.length_range,
    List.map_const', List.sum_replicate, nsmul_eq_mul, Nat.cast_id]
  rw [Nat.mul_comm sy sx, Nat.mul_comm sz]

theorem toInt_ofInt {i : ℤ} (h : 1 ≤ i ∧ i ≤ 32767) : (Int16.ofInt i).toInt = i :=
  Int16.toInt_ofInt_of_le (by omega) (by omega)

/-- `vm` is what the manipulator holds of the map. The size of a region that is not of this kind
overflows, and nothing is captured. -/
def getSchematicFromMap (vm : V3pos → MapNode) (p1 p2 : V3pos) : Option Schematic :=
  let size_pos := p2 - p1 + ⟨1, 1, 1⟩
  if h : ((1 ≤ size_pos.X ∧ size_pos.X ≤ 32767) ∧ (1 ≤ size_pos.Y ∧ size_pos.Y ≤ 32767) ∧
      (1 ≤ size_pos.Z ∧ size_pos.Z ≤ 32767)) ∧ size_pos.X * size_pos.Y * size_pos.Z < 2 ^ 31 then
    some
      { NodeResolver.reset true with
        size := ⟨.ofInt size_pos.X, .ofInt size_pos.Y, .ofInt size_pos.Z⟩
        schemdata :=
          regionNodes vm p1 size_pos.X.toNat size_pos.Y.toNat size_pos.Z.toNat
        slice_probs := List.replicate size_pos.Y.toNat MTSCHEM_PROB_ALWAYS
        cells := by
          rw [length_regionNodes, V3s16.nodecount, toInt_ofInt h.1.1, toInt_ofInt h.1.2.1,
            toInt_ofInt h.1.2.2, Int.toNat_mul (Int.mul_nonneg (by omega) (by omega)) (by omega),
            Int.toNat_mul (by omega) (by omega)]
        slices := by rw [List.length_replicate, toInt_ofInt h.1.2.1] }
  else none

/-- An `int`: a signed overflow is undefined. -/
def checkInt (i : ℤ) : Option ℤ := if -2 ^ 31 ≤ i ∧ i < 2 ^ 31 then some i else none

/-- The flattened index of a position, where positions have 32 bits. -/
def indexOf (size : V3s16) (p0 pos : V3pos) : Option ℤ := do
  let x ← checkInt (pos.X - p0.X)
  let y ← checkInt (pos.Y - p0.Y)
  let z ← checkInt (pos.Z - p0.Z)
  let zi ← checkInt (z * (size.Y.toInt * size.X.toInt))
  let yi ← checkInt (y * size.X.toInt)
  let zyi ← checkInt (zi + yi)
  checkInt (zyi + x)

/-- One entry of the list of probabilities. Only the end of the array is checked. -/
def applyProbability (p0 : V3pos) (s : Schematic) (e : V3pos × UInt8) : Option Schematic := do
  let index ← indexOf s.size p0 e.1
  let nodecount ← checkInt s.size.nodecount
  if index < nodecount then
    if index < 0 then none
    else
      some { s with
        schemdata := s.schemdata.modify index.toNat fun n =>
          { n with
            param0 := if e.2 = MTSCHEM_PROB_NEVER then CONTENT_AIR else n.param0
            param1 := e.2 }
        cells := by rw [List.length_modify]; exact s.cells }
  else some s

def applySliceProbability (s : Schematic) (e : Int16 × UInt8) : Option Schematic :=
  if e.1 < s.size.Y then
    if e.1 < 0 then none
    else
      some { s with
        slice_probs := s.slice_probs.set e.1.toInt.toNat e.2
        slices := by rw [List.length_set]; exact s.slices }
  else some s

def applyProbabilities (s : Schematic) (p0 : V3pos) (plist : List (V3pos × UInt8))
    (splist : List (Int16 × UInt8)) : Option Schematic := do
  let s ← plist.foldlM (applyProbability p0) s
  splist.foldlM applySliceProbability s

/-! ## The file -/

/-- What ends a load or a save: an exception of the stream, or that of `new` for a negative
length. -/
inductive MtsError where
  | load (e : LoadError)
  | bad_array_new_length
  deriving DecidableEq

def writeV3S16 (p : V3s16) : ByteString :=
  writeU16 p.X.toUInt16 ++ writeU16 p.Y.toUInt16 ++ writeU16 p.Z.toUInt16

def readV3S16 (is : IStream) : Except LoadError (V3s16 × IStream) := do
  let (x, is) ← streamU16 is
  let (y, is) ← streamU16 is
  let (z, is) ← streamU16 is
  pure (⟨x.toInt16, y.toInt16, z.toInt16⟩, is)

def readSlices (version : UInt16) :
    (n : ℕ) → IStream → Except LoadError ({l : List UInt8 // l.length = n} × IStream)
  | 0, is => .ok (⟨[], rfl⟩, is)
  | n + 1, is => do
    let (prob, is) ← if 3 ≤ version then streamU8 is else pure (MTSCHEM_PROB_ALWAYS_OLD, is)
    let (⟨l, hl⟩, is) ← readSlices version n is
    pure (⟨prob :: l, by rw [List.length_cons, hl]⟩, is)

def readNames : ℕ → List ByteString → Option Content → IStream →
    Except LoadError (List ByteString × Option Content × IStream)
  | 0, names, cignore, is => .ok (names, cignore, is)
  | n + 1, names, cignore, is => do
    let (name, is) ← deSerializeString16 is
    if name = bytes "ignore" then
      readNames n (names ++ [bytes "air"]) (some (UInt16.ofNat names.length)) is
    else readNames n (names ++ [name]) cignore is

def readNodes (is : IStream) (nodecount : ℕ) :
    Except LoadError {l : List MapNode // l.length = nodecount} :=
  if 2 ^ 32 ≤ nodecount * 4 then .error .outOfBounds
  else
    match h : MapNode.deSerializeBulk is MTSCHEM_MAPNODE_SER_FMT_VER nodecount 2 2 with
    | .error e => .error e
    | .ok (nodes, _) => .ok ⟨nodes, MapNode.length_deSerializeBulk h⟩

def fixNode (version : UInt16) (cignore : Option Content) (n : MapNode) : MapNode :=
  let n :=
    if version < 2 then
      let n := if n.param1 = 0 then { n with param1 := MTSCHEM_PROB_ALWAYS_OLD } else n
      if cignore = some n.param0 then { n with param1 := MTSCHEM_PROB_NEVER } else n
    else n
  if version < 4 then { n with param1 := n.param1 >>> 1 } else n

def fixSlice (version : UInt16) (prob : UInt8) : UInt8 := if version < 4 then prob >>> 1 else prob

/-- The part of `deserializeFromMts` behind the probabilities of the slices. -/
def deserializeNodes (cz : Compression) (version : UInt16) (size : V3s16)
    (slices : {l : List UInt8 // l.length = size.Y.toInt.toNat}) (is : IStream) :
    Except MtsError Schematic := do
  let (nidmapcount, is) ← (streamU16 is).mapError .load
  let (names, cignore, is) ← (readNames nidmapcount.toNat [] none is).mapError .load
  if size.nodecount < 0 then throw .bad_array_new_length
  else
    let d_ss ← (cz.decompress MTSCHEM_MAPNODE_SER_FMT_VER is).1.mapError .load
    let nodes ← (readNodes { rest := d_ss } size.nodecount.toNat).mapError .load
    pure
      { NodeResolver.reset false with
        m_nodenames := names
        m_nnlistsizes := [names.length]
        size
        schemdata := nodes.1.map (fixNode version cignore)
        slice_probs := slices.1.map (fixSlice version)
        cells := by rw [List.length_map, nodes.2]
        slices := by rw [List.length_map, slices.2] }

/-- Nothing where it returns `false`. -/
def deserializeFromMts (cz : Compression) (is : IStream) : Except MtsError (Option Schematic) := do
  let (signature, is) ← (streamU32 is).mapError .load
  if signature ≠ MTSCHEM_FILE_SIGNATURE then pure none
  else
    let (version, is) ← (streamU16 is).mapError .load
    if MTSCHEM_FILE_VER_HIGHEST_READ < version then pure none
    else
      let (size, is) ← (readV3S16 is).mapError .load
      if size.Y < 0 then throw .bad_array_new_length
      else
        let (slices, is) ← (readSlices version size.Y.toInt.toNat is).mapError .load
        let s ← deserializeNodes cz version size slices is
        pure (some s)

def writeNames : List ByteString → Except LoadError ByteString
  | [] => .ok []
  | name :: names => do
    let t ← serializeString16 name
    let rest ← writeNames names
    pure (t ++ rest)

/-- The buffer of `serializeBulk` has a size of 32 bits, which nothing checks. -/
def writeNodes (nodes : List MapNode) : Except LoadError ByteString :=
  if 2 ^ 32 ≤ nodes.length * 4 then .error .outOfBounds else .ok (MapNode.serializeBulk nodes)

def serializeToMts (cz : Compression) (s : Schematic) : Except LoadError ByteString := do
  let names ← writeNames s.m_nodenames
  let buf ← writeNodes s.schemdata
  let nodes ← cz.compress MTSCHEM_MAPNODE_SER_FMT_VER (-1) buf
  pure (writeU32 MTSCHEM_FILE_SIGNATURE ++ writeU16 MTSCHEM_FILE_VER_HIGHEST_WRITE ++
    writeV3S16 s.size ++ s.slice_probs ++ writeU16 (UInt16.ofNat s.m_nodenames.length) ++ names ++
    nodes)

/-! ## Node ids -/

variable {R : Type} (ndef : NodeDefManager R)

/-- The ids given so far, the number of them, and their names. -/
structure Condensed where
  nodeidmap : Content → Option Content := fun _ => none
  numids : Content := 0
  m_nodenames : List ByteString := []

def Condensed.idOf (st : Condensed) (c : Content) : Content × Condensed :=
  match st.nodeidmap c with
  | some id => (id, st)
  | none =>
    (st.numids,
      { nodeidmap := Function.update st.nodeidmap c (some st.numids)
        numids := st.numids + 1
        m_nodenames := st.m_nodenames ++ [(ndef.get c).name] })

def condenseLoop : List MapNode → Condensed → List MapNode × Condensed
  | [], st => ([], st)
  | n :: nodes, st =>
    let (id, st) := st.idOf ndef n.param0
    let (nodes, st) := condenseLoop nodes st
    ({ n with param0 := id } :: nodes, st)

theorem length_condenseLoop (nodes : List MapNode) (st : Condensed) :
    (condenseLoop ndef nodes st).1.length = nodes.length := by
  induction nodes generalizing st with
  | nil => rfl
  | cons n nodes ih =>
    simp only [condenseLoop, List.length_cons, ih]

def condenseContentIds (s : Schematic) : Schematic :=
  { s with
    toNodeResolver :=
      { NodeResolver.reset false with m_nodenames := (condenseLoop ndef s.schemdata {}).2.m_nodenames }
    schemdata := (condenseLoop ndef s.schemdata {}).1
    cells := by rw [length_condenseLoop]; exact s.cells }

/-- The file that `saveSchematicToFile` writes; a clone is condensed if the node names are
resolved. -/
def saveSchematicToFile (cz : Compression) (s : Schematic) : Except LoadError ByteString :=
  serializeToMts cz (if s.m_resolve_done then s.condenseContentIds ndef else s)

/-- Nothing if there is no id to take instead of one that is too large. -/
def resolveNode (c_nodes : List Content) (n : MapNode) : Option MapNode :=
  let c_original := if c_nodes.length ≤ n.param0.toNat then 0 else n.param0
  c_nodes[c_original.toNat]?.map fun c => { n with param0 := c }

theorem length_mapM_option {α β : Type} {f : α → Option β} {l : List α} {l' : List β}
    (h : l.mapM f = some l') : l'.length = l.length := by
  induction l generalizing l' with
  | nil =>
    rw [List.mapM_nil] at h
    obtain rfl := Option.some.inj h
    rfl
  | cons a l ih =>
    rw [List.mapM_cons] at h
    obtain ⟨b, hb, h⟩ := Option.bind_eq_some_iff.mp h
    obtain ⟨l'', hl, h⟩ := Option.bind_eq_some_iff.mp h
    obtain rfl := Option.some.inj h
    rw [List.length_cons, List.length_cons, ih hl]

/-- `nodeResolveInternal` with `resolveNodeNames` -/
def resolveNodeNames (s : Schematic) : Option Schematic :=
  let r := { s.toNodeResolver with m_nodenames_idx := 0, m_nnlistsizes_idx := 0 }
  let (_, c_nodes, r) := r.getIdsFromNrBacklog ndef true CONTENT_AIR
  match h : s.schemdata.mapM (resolveNode c_nodes) with
  | none => none
  | some schemdata =>
    some { s with
      toNodeResolver := { r with m_nodenames := [], m_nnlistsizes := [], m_resolve_done := true }
      c_nodes
      schemdata
      cells := by rw [length_mapM_option h]; exact s.cells }

def replaceNames (replace_names : ByteString → Option ByteString) (s : Schematic) : Schematic :=
  { s with m_nodenames := s.m_nodenames.map fun name => (replace_names name).getD name }

def loadSchematicFromFile (cz : Compression) (replace_names : ByteString → Option ByteString)
    (data : ByteString) : Except MtsError (Option Schematic) := do
  match ← deserializeFromMts cz { rest := data } with
  | none => pure none
  | some s =>
    match (s.replaceNames replace_names).resolveNodeNames ndef with
    | none => throw (.load .outOfBounds)
    | some s => pure (some s)

end Schematic

/-! ## Placing -/

inductive Rotation where
  | ROTATE_0
  | ROTATE_90
  | ROTATE_180
  | ROTATE_270
  | ROTATE_RAND
  deriving DecidableEq

structure VoxelArea where
  MinEdge : V3pos
  MaxEdge : V3pos
  deriving DecidableEq

namespace VoxelArea

def contains (a : VoxelArea) (p : V3pos) : Bool :=
  a.MinEdge.X ≤ p.X && p.X ≤ a.MaxEdge.X && a.MinEdge.Y ≤ p.Y && p.Y ≤ a.MaxEdge.Y &&
    a.MinEdge.Z ≤ p.Z && p.Z ≤ a.MaxEdge.Z

def hasEmptyExtent (a : VoxelArea) : Bool :=
  a.MaxEdge.X < a.MinEdge.X || a.MaxEdge.Y < a.MinEdge.Y || a.MaxEdge.Z < a.MinEdge.Z

def containsArea (a b : VoxelArea) : Bool :=
  !b.hasEmptyExtent && a.contains b.MinEdge && a.contains b.MaxEdge

end VoxelArea

/-- `m_data`, by position. -/
structure MMVManip where
  m_area : VoxelArea
  m_data : V3pos → MapNode

def MMVManip.setNode (vm : MMVManip) (pos : V3pos) (n : MapNode) : MMVManip :=
  { vm with m_data := Function.update vm.m_data pos n }

/-- What is around a placement: `myrand_range`, and `rotateAlongYAxis` for the node definitions. -/
structure Placing (σ : Type) where
  myrand_range : σ → ℤ → ℤ → ℤ × σ
  rotateAlongYAxis : MapNode → Rotation → MapNode

namespace Schematic

variable {σ : Type} (env : Placing σ)

def fails (prob : UInt8) (g : σ) : Bool × σ :=
  if prob ≠ MTSCHEM_PROB_ALWAYS then
    let (r, g) := env.myrand_range g 1 MTSCHEM_PROB_ALWAYS.toNat
    (decide ((prob.toNat : ℤ) ≤ r), g)
  else (false, g)

/-- The body of the loop of `blitToVManip`. -/
def blitNode (rot : Rotation) (force_place : Bool) (pos : V3pos) (n : MapNode)
    (st : MMVManip × σ) : MMVManip × σ :=
  let (vm, g) := st
  if !vm.m_area.contains pos then st
  else if n.param0 = CONTENT_IGNORE then st
  else
    let placement_prob := n.param1 &&& MTSCHEM_PROB_MASK
    let force_place_node := n.param1 &&& MTSCHEM_FORCE_PLACE ≠ 0
    if placement_prob = MTSCHEM_PROB_NEVER then st
    else
      let c := (vm.m_data pos).param0
      if ¬force_place ∧ ¬force_place_node ∧ c ≠ CONTENT_AIR ∧ c ≠ CONTENT_IGNORE then st
      else
        let (skip, g) := fails env placement_prob g
        if skip then (vm, g)
        else
          let n := { n with param1 := 0 }
          (vm.setNode pos (if rot ≠ .ROTATE_0 then env.rotateAlongYAxis n rot else n), g)

/-- First index, steps in x and z, and the size in x and z for a rotation. -/
def strides (size : V3s16) : Rotation → ℤ × ℤ × ℤ × ℤ × ℤ
  | .ROTATE_90 =>
    (size.X.toInt - 1, size.X.toInt * size.Y.toInt, -1, size.Z.toInt, size.X.toInt)
  | .ROTATE_180 =>
    (size.X.toInt * size.Y.toInt * (size.Z.toInt - 1) + size.X.toInt - 1, -1,
      -(size.X.toInt * size.Y.toInt), size.X.toInt, size.Z.toInt)
  | .ROTATE_270 =>
    (size.X.toInt * size.Y.toInt * (size.Z.toInt - 1), -(size.X.toInt * size.Y.toInt), 1,
      size.Z.toInt, size.X.toInt)
  | _ => (0, 1, size.X.toInt * size.Y.toInt, size.X.toInt, size.Z.toInt)

def blitSlice (s : Schematic) (p : V3pos) (rot : Rotation) (force_place : Bool) (y : ℕ)
    (st : (MMVManip × σ) × ℤ) : (MMVManip × σ) × ℤ :=
  let (i_start, i_step_x, i_step_z, sx, sz) := strides s.size rot
  let ((vm, g), y_map) := st
  let (skip, g) := fails env (s.slice_probs.getD y 0) g
  if skip then ((vm, g), y_map)
  else
    let row (st : MMVManip × σ) (z : ℕ) : MMVManip × σ :=
      (List.range sx.toNat).foldl (fun st x =>
        let i := z * i_step_z + y * s.size.X.toInt + i_start + x * i_step_x
        blitNode env rot force_place ⟨p.X + x, y_map, p.Z + z⟩
          (s.schemdata.getD i.toNat ⟨CONTENT_IGNORE, 0, 0⟩) st) st
    ((List.range sz.toNat).foldl row (vm, g), y_map + 1)

def blitToVManip (s : Schematic) (vm : MMVManip) (g : σ) (p : V3pos) (rot : Rotation)
    (force_place : Bool) : MMVManip × σ :=
  ((List.range s.size.Y.toInt.toNat).foldl
    (fun st y => s.blitSlice env p rot force_place y st) ((vm, g), p.Y)).1

def DECO_PLACE_CENTER_X : UInt32 := 0x01
def DECO_PLACE_CENTER_Y : UInt32 := 0x02
def DECO_PLACE_CENTER_Z : UInt32 := 0x04

def centred (flags flag : UInt32) (p s : ℤ) : ℤ :=
  if flags &&& flag ≠ 0 then p - (s - 1).tdiv 2 else p

def rotationOf (r : ℤ) : Rotation :=
  if r = 0 then .ROTATE_0 else if r = 1 then .ROTATE_90 else if r = 2 then .ROTATE_180
  else .ROTATE_270

def placeOnVManip (sch : Schematic) (vm : MMVManip) (g : σ) (p : V3pos) (flags : UInt32)
    (rot : Rotation) (force_place : Bool) : Bool × MMVManip × σ :=
  let (rot, g) :=
    if rot = .ROTATE_RAND then
      let (r, g) := env.myrand_range g 0 3
      (rotationOf r, g)
    else (rot, g)
  let s : V3pos :=
    if rot = .ROTATE_90 ∨ rot = .ROTATE_270 then
      ⟨sch.size.Z.toInt, sch.size.Y.toInt, sch.size.X.toInt⟩
    else ⟨sch.size.X.toInt, sch.size.Y.toInt, sch.size.Z.toInt⟩
  let p : V3pos :=
    ⟨centred flags DECO_PLACE_CENTER_X p.X s.X, centred flags DECO_PLACE_CENTER_Y p.Y s.Y,
      centred flags DECO_PLACE_CENTER_Z p.Z s.Z⟩
  let (vm, g) := sch.blitToVManip env vm g p rot force_place
  (vm.m_area.containsArea ⟨p, p + s - ⟨1, 1, 1⟩⟩, vm, g)

/-! ## The round trip -/

def SameCells (s s' : Schematic) : Prop :=
  s'.size = s.size ∧ s'.slice_probs = s.slice_probs ∧ s'.schemdata = s.schemdata

/-- The saved file loads as a schematic with the same cells, and placing one or the other is the
same. -/
def RoundTrips {R : Type} (ndef : NodeDefManager R) (cz : Compression) (s : Schematic) : Prop :=
  ∃ data s', s.saveSchematicToFile ndef cz = .ok data ∧
    loadSchematicFromFile ndef cz (fun _ => none) data = .ok (some s') ∧ SameCells s s' ∧
    ∀ (σ : Type) (env : Placing σ) (vm : MMVManip) (g : σ) (p : V3pos) (flags : UInt32)
      (rot : Rotation) (force_place : Bool),
      s'.placeOnVManip env vm g p flags rot force_place =
        s.placeOnVManip env vm g p flags rot force_place

end Schematic

end Freeminer.Mapgen
