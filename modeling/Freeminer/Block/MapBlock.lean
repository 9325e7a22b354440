import Freeminer.Block.NodeIds

/-! `MapBlock` (`mapblock.cpp`), its format in the versions that are written, and how `ServerMap`
saves and loads one. -/

namespace Freeminer.Block

open Lib

def nodecount : ℕ := 16 * 16 * 16

/-- `data`: one node that stands for all, or each node. -/
inductive NodeData where
  | mono (n : MapNode)
  | full (nodes : Fin nodecount → MapNode)

namespace NodeData

def stored : NodeData → List MapNode
  | mono n => [n]
  | full nodes => List.ofFn nodes

def nodes : NodeData → List MapNode
  | mono n => List.replicate nodecount n
  | full nodes => List.ofFn nodes

def ofList (l : List MapNode) : NodeData := full fun i => l.getD i { param0 := CONTENT_IGNORE }

/-- `expandNodesIfNeeded` -/
def expanded (d : NodeData) : NodeData := ofList d.nodes

/-- What `serializeBulk` writes out of the memory of a block. -/
def bulk (d : NodeData) (stored : List MapNode) : List MapNode :=
  match d with
  | mono n => List.replicate nodecount (stored.headD n)
  | full _ => stored

/-- `tryShrinkNodes`; the `m_is_air` that it sets is for its callers to keep. -/
def tryShrink : NodeData → NodeData
  | mono n => mono n
  | full nodes =>
    let n := (List.ofFn nodes).headD { param0 := CONTENT_IGNORE }
    if (List.ofFn nodes).all fun m => decide (m = n) then mono n else full nodes

end NodeData

/-- How a part of a block is written for a version, to disk or not, and read into what is there. -/
structure Codec (α : Type) where
  serialize : UInt8 → Bool → α → Except LoadError (ByteString × α)
  deSerialize : UInt8 → α → IStream → Except LoadError (α × IStream)

/-- The parts of a block with formats of their own. -/
structure Sections where
  Metadata : Type
  Objects : Type
  Timers : Type
  metadata : Codec Metadata
  objects : Codec Objects
  timers : Codec Timers
  /-- What a read of metadata that throws leaves. -/
  metadataLeft : Metadata → IStream → Metadata

structure Compression where
  compress : UInt8 → ℤ → ByteString → Except LoadError ByteString
  /-- The data, and the stream after it or after the failure. -/
  decompress : UInt8 → IStream → Except LoadError ByteString × IStream

/-- What was compressed is decompressed, and the bytes after it are left in the stream. -/
def Compression.Lawful (cz : Compression) : Prop :=
  ∀ version level s t, cz.compress version level s = .ok t →
    ∀ rest, cz.decompress version { rest := t ++ rest } = (.ok s, { rest })

/-- `compress`, whose size is 32 bits wide. -/
def Compression.run (cz : Compression) (version : UInt8) (level : ℤ) (data : ByteString) :
    Except LoadError ByteString :=
  cz.compress version level (data.take (data.length % 2 ^ 32))

abbrev LightPoints := Finmap fun _ : ℤ × ℤ × ℤ => UInt32

/-- The packets of light points; one without them, or with others, is none. -/
structure Msgpack where
  pack : LightPoints → ByteString
  unpack : ByteString → Except LoadError (Option LightPoints)

def Msgpack.Lawful (mp : Msgpack) (l : LightPoints) : Prop :=
  mp.pack l ≠ [] ∧ mp.unpack (mp.pack l) = .ok (some l)

structure MapBlock (S : Sections) where
  isUnderground : Bool
  /-- `m_is_air`, unless it expired. -/
  isAir : Option Bool
  lightingComplete : UInt16
  generated : Bool
  timestamp : UInt32
  data : NodeData
  metadata : S.Metadata
  objects : S.Objects
  timers : S.Timers
  lightPoints : LightPoints

namespace MapBlock

variable {S : Sections}

def nodes (b : MapBlock S) : List MapNode := b.data.nodes

/-- `isAir()` -/
def getIsAir (b : MapBlock S) : Bool :=
  b.isAir.getD (b.data.stored.all fun n => decide (n.param0 = CONTENT_AIR))

def flags (b : MapBlock S) : UInt8 :=
  (if b.isUnderground then 0x01 else 0) ||| (if b.getIsAir then 0 else 0x02) |||
    (if b.generated then 0 else 0x08) ||| (if b.lightPoints = ∅ then 0 else 0x80)

variable (cz : Compression) (mp : Msgpack) (order : HashOrder Content ByteString)

/-! ## Writing -/

def writeNodes (version : UInt8) (level : ℤ) (nodes : List MapNode) :
    Except LoadError ByteString := do
  let text ←
    (if 29 ≤ version then .ok (MapNode.serializeBulk nodes)
    else cz.run version level (MapNode.serializeBulk nodes))
  pure ([2, 2] ++ text)

def writeMetadata (version : UInt8) (disk : Bool) (level : ℤ) (metadata : S.Metadata) :
    Except LoadError ByteString := do
  let (text, _) ← S.metadata.serialize version disk metadata
  if 29 ≤ version then .ok text else cz.run version level text

def writeIds (timestamp : UInt32) (nimap : NameIdMapping) : Except LoadError ByteString := do
  let ids ← nimap.serialize order
  pure (writeU32 timestamp ++ ids)

/-- The part that goes to disk only, with the timers before or after the others. -/
def writeDisk (b : MapBlock S) (version : UInt8) (nimap : NameIdMapping) :
    Except LoadError (ByteString × MapBlock S) := do
  let (timers, _) ← S.timers.serialize version true b.timers
  let (objects, left) ← S.objects.serialize version true b.objects
  let ids ← (if version < 29 then writeIds order b.timestamp nimap else pure [])
  pure (if version ≤ 24 then timers ++ objects ++ ids else objects ++ ids ++ timers,
    { b with objects := left })

def writeLightPoints (b : MapBlock S) : Except LoadError ByteString :=
  if b.lightPoints = ∅ then .ok [] else serializeString32 (mp.pack b.lightPoints)

/-- The nodes in memory, renumbered for the disk, and the names of their ids. -/
def ownIds (t : NodeDefManager) (b : MapBlock S) (disk : Bool) : List MapNode × NameIdMapping :=
  if disk then getBlockNodeIdMapping t b.data.stored else (b.data.stored, {})

/-- What `serialize` writes to `os`, which is compressed as a whole from version 29 on. The light
points go to `os_raw`, which is not `os` before that. -/
def serializeBody (t : NodeDefManager) (b : MapBlock S) (version : UInt8) (disk : Bool)
    (level : ℤ) : Except LoadError (ByteString × MapBlock S) := do
  let ids ←
    (if disk ∧ 29 ≤ version then writeIds order b.timestamp (ownIds t b disk).2 else pure [])
  let nodes ← writeNodes cz version level (b.data.bulk (ownIds t b disk).1)
  let metadata ← writeMetadata cz version disk level b.metadata
  let (diskData, left) ←
    (if disk then writeDisk order b version (ownIds t b disk).2 else pure ([], b))
  let light ← writeLightPoints mp b
  pure (b.flags :: (if 27 ≤ version then writeU16 b.lightingComplete else []) ++ ids ++ nodes ++
    metadata ++ diskData ++ (if 29 ≤ version then light else []), left)

def serialize (t : NodeDefManager) (b : MapBlock S) (version : UInt8) (disk : Bool) (level : ℤ) :
    Except LoadError (ByteString × MapBlock S) :=
  if version < 24 ∨ 29 < version then
    .error (.versionMismatch (bytes "ERROR: MapBlock format not supported"))
  else do
    let (text, b) ← serializeBody cz mp order t b version disk level
    if 29 ≤ version then do
      let text ← cz.run version level text
      pure (text, b)
    else pure (text, b)

/-! ## Reading -/

def readNodes (version : UInt8) (is : IStream) : Except LoadError (NodeData × IStream) := do
  let (contentWidth, is) ← streamU8 is
  let (paramsWidth, is) ← streamU8 is
  if contentWidth ≠ 1 ∧ contentWidth ≠ 2 then
    .error (.serialization (bytes "MapBlock::deSerialize(): invalid content_width"))
  else if paramsWidth ≠ 2 then
    .error (.serialization (bytes "MapBlock::deSerialize(): invalid params_width"))
  else if 29 ≤ version then do
    let (nodes, is) ← MapNode.deSerializeBulk is version nodecount contentWidth paramsWidth
    pure (.ofList nodes, is)
  else do
    let raw ← (cz.decompress version is).1
    let (nodes, _) ← MapNode.deSerializeBulk { rest := raw } version nodecount contentWidth
      paramsWidth
    pure (.ofList nodes, (cz.decompress version is).2)

def readMetadata (version : UInt8) (old : S.Metadata) (is : IStream) :
    Except LoadError (S.Metadata × IStream) :=
  if 29 ≤ version then S.metadata.deSerialize version old is
  else
    match cz.decompress version is with
    | (.ok raw, is) =>
      match S.metadata.deSerialize version old { rest := raw } with
      | .ok (metadata, _) => .ok (metadata, is)
      | .error _ => .ok (S.metadataLeft old { rest := raw }, is)
    | (.error _, is) => .ok (old, is)

def readIds (is : IStream) : Except LoadError (UInt32 × NameIdMapping × IStream) := do
  let (timestamp, is) ← streamU32 is
  let (nimap, is) ← NameIdMapping.deSerialize is
  pure (timestamp, nimap, is)

/-- The members that `deSerialize` sets after its start. -/
def setNodes (b : MapBlock S) (data : NodeData) (metadata : S.Metadata) : MapBlock S :=
  { b with data, metadata }

def setDisk (b : MapBlock S) (objects : S.Objects) (timers : S.Timers) (timestamp : UInt32) :
    MapBlock S :=
  { b with objects, timers, timestamp }

def setLightPoints (b : MapBlock S) (lightPoints : LightPoints) : MapBlock S :=
  { b with lightPoints }

/-- The block after `correctBlockNodeIds`, shrunk if it has one name only. -/
def corrected (b : MapBlock S) (nimap : NameIdMapping) (nodes : List MapNode) : MapBlock S :=
  if nimap.size = 1 then
    { b with
      data := (NodeData.ofList nodes).tryShrink
      isAir := some (nimap.getId (bytes "air")).isSome }
  else { b with data := .ofList nodes }

/-- The part that is on disk only; `nimap` was read before the nodes from version 29 on. -/
def readDisk (t : NodeDefManager) (b : MapBlock S) (version : UInt8) (nimap : NameIdMapping)
    (is : IStream) : Except LoadError (MapBlock S × NodeDefManager × IStream) := do
  let (_, is) ← (if version = 23 then streamU8 is else .ok (0, is))
  let (timers, is) ←
    (if version = 24 then S.timers.deSerialize version b.timers is else .ok (b.timers, is))
  let (objects, is) ← S.objects.deSerialize version b.objects is
  let (timestamp, nimap, is) ← (if version < 29 then readIds is else .ok (b.timestamp, nimap, is))
  let (nodes, t) ← correctBlockNodeIds nimap t b.nodes
  let (timers, is) ←
    (if 25 ≤ version then S.timers.deSerialize version timers is else .ok (timers, is))
  pure ((b.setDisk objects timers timestamp).corrected nimap nodes, t, is)

def readLightPoints (old : LightPoints) (is : IStream) : Except LoadError LightPoints := do
  let (data, _) ← deSerializeString32 is
  if data = [] then .ok old
  else do
    let packet ← mp.unpack data
    pure (packet.getD old)

/-- `deSerialize` up to the nodes: the flags, and the names of the ids from version 29 on. -/
def readStart (fixNotGenerated : Bool) (b : MapBlock S) (version : UInt8) (disk : Bool)
    (is : IStream) : Except LoadError (UInt8 × MapBlock S × NameIdMapping × IStream) := do
  let (flags, is) ← streamU8 is
  let (lightingComplete, is) ← (if version < 27 then .ok (0xFFFF, is) else streamU16 is)
  let (timestamp, nimap, is) ←
    (if disk ∧ 29 ≤ version then readIds is else .ok (b.timestamp, {}, is))
  pure (flags, { b with
    isUnderground := decide (flags &&& 0x01 ≠ 0), isAir := none, lightingComplete, timestamp
    generated := decide (flags &&& 0x08 = 0) || disk && fixNotGenerated
    data := b.data.expanded }, nimap, is)

/-- `deSerialize` from the nodes on. -/
def readRest (t : NodeDefManager) (version : UInt8) (disk : Bool) (flags : UInt8)
    (b : MapBlock S) (nimap : NameIdMapping) (is : IStream) :
    Except LoadError (MapBlock S × NodeDefManager) := do
  let (data, is) ← readNodes cz version is
  let (metadata, is) ← readMetadata cz version b.metadata is
  let b := b.setNodes data metadata
  let (b, t, is) ← (if disk then readDisk t b version nimap is else .ok (b, t, is))
  let lightPoints ←
    (if flags &&& 0x80 ≠ 0 then readLightPoints mp b.lightPoints is else .ok b.lightPoints)
  pure (b.setLightPoints lightPoints, t)

/-- `deSerialize`, on a server. Versions up to 22, which are not written any more, are read by
`deSerializeOld`. It is false if the block was not generated and only the start was read. -/
def deSerialize (deSerializeOld : UInt8 → Bool → MapBlock S → NodeDefManager → IStream →
      Except LoadError (MapBlock S × NodeDefManager)) (fixNotGenerated : Bool)
    (t : NodeDefManager) (b : MapBlock S) (is : IStream) (version : UInt8) (disk : Bool) :
    Except LoadError (Bool × MapBlock S × NodeDefManager) :=
  if 29 < version then
    .error (.versionMismatch (bytes "ERROR: MapBlock format not supported"))
  else if version ≤ 22 then do
    let (b, t) ← deSerializeOld version disk b t is
    pure (true, b, t)
  else do
    let is ←
      (if 29 ≤ version then (cz.decompress version is).1.map fun raw => ({ rest := raw } : IStream)
      else .ok is)
    let (flags, b, nimap, is) ← readStart fixNotGenerated b version disk is
    if b.generated then do
      let (b, t) ← readRest cz mp t version disk flags b nimap is
      pure (true, b, t)
    else pure (false, b, t)

end MapBlock

/-! What is read of each part of a block that was written. -/

namespace NodeData

variable {d : NodeData} {l : List MapNode} {R : MapNode → MapNode → Prop}

@[simp] theorem length_nodes (d : NodeData) : d.nodes.length = nodecount := by
  cases d <;> simp [nodes]

theorem nodes_ofList (h : l.length = nodecount) : (ofList l).nodes = l := by
  apply List.ext_getElem
  · simp [h]
  · intro i h1 h2
    simp [nodes, ofList, List.getD, h2]

theorem nodes_tryShrink (d : NodeData) : d.tryShrink.nodes = d.nodes := by
  cases d with
  | mono n => rfl
  | full f =>
    rw [tryShrink]
    split_ifs with hall
    · have hrep := List.eq_replicate_iff.mpr ⟨rfl, fun m hm => of_decide_eq_true
        (List.all_eq_true.mp hall m hm)⟩
      rw [List.length_ofFn] at hrep
      exact hrep.symm
    · rfl

theorem bulk_stored (d : NodeData) : d.bulk d.stored = d.nodes := by
  cases d <;> rfl

theorem bulk_forall₂ (h : List.Forall₂ R d.stored l) : List.Forall₂ R d.nodes (d.bulk l) := by
  cases d with
  | mono n =>
    obtain ⟨m, _, hm, hnil, rfl⟩ := List.forall₂_cons_left_iff.mp h
    obtain rfl := List.forall₂_nil_left_iff.mp hnil
    simp only [nodes, bulk, List.headD_cons]
    generalize nodecount = k
    induction k with
    | zero => exact .nil
    | succ k ih => exact .cons hm ih
  | full f => exact h

end NodeData

variable {cz : Compression} {level : ℤ} {version : UInt8} {s text : ByteString}

theorem Compression.Lawful.run (hcz : cz.Lawful) (h : cz.run version level s = .ok text)
    (hlen : s.length < 2 ^ 32) (rest : ByteString) :
    cz.decompress version { rest := text ++ rest } = (.ok s, { rest }) := by
  rw [Compression.run, Nat.mod_eq_of_lt hlen, List.take_length] at h
  exact hcz version level s text h rest

namespace MapBlock

variable {S : Sections} {mp : Msgpack} {order : HashOrder Content ByteString}
  {nodes : List MapNode} {nimap : NameIdMapping} {timestamp : UInt32} {b b' : MapBlock S}

theorem readNodes_append (hcz : cz.Lawful) (hv : ¬version < 22)
    (hlen : nodes.length = nodecount) (h : writeNodes cz version level nodes = .ok text)
    (rest : ByteString) :
    readNodes cz version { rest := text ++ rest } = .ok (.ofList nodes, { rest }) := by
  obtain ⟨data, hdata, h⟩ := bind_eq_ok.mp h
  obtain rfl := Except.ok.inj h
  unfold readNodes
  rw [List.append_assoc, List.cons_append, List.cons_append, List.nil_append, streamU8_append]
  simp only [bind, Except.bind, streamU8_append]
  rw [if_neg (by decide), if_neg (by decide)]
  split_ifs with h29
  · rw [if_pos h29] at hdata
    obtain rfl := Except.ok.inj hdata
    rw [MapNode.deSerializeBulk_append hv hlen]
    rfl
  · rw [if_neg h29] at hdata
    have hbulk : (MapNode.serializeBulk nodes).length < 2 ^ 32 := by
      rw [MapNode.length_serializeBulk, hlen]
      decide
    have happend := MapNode.deSerializeBulk_append hv hlen []
    rw [List.append_nil] at happend
    rw [hcz.run hdata hbulk]
    simp only [happend]
    rfl

theorem readIds_append (hcard : nimap.idToName.keys.card < 65536)
    (h : writeIds order timestamp nimap = .ok text) (rest : ByteString) :
    ∃ nimap', readIds { rest := text ++ rest } = .ok (timestamp, nimap', { rest }) ∧
      nimap'.idToName = nimap.idToName := by
  obtain ⟨ids, hids, h⟩ := bind_eq_ok.mp h
  obtain rfl := Except.ok.inj h
  obtain ⟨nimap', hread, heq⟩ := NameIdMapping.deSerialize_append hcard hids rest
  refine ⟨nimap', ?_, heq⟩
  unfold readIds
  rw [List.append_assoc, streamU32_append]
  simp only [bind, Except.bind, hread]
  rfl

theorem flags_underground (b : MapBlock S) :
    decide (b.flags &&& 0x01 ≠ 0) = b.isUnderground := by
  unfold flags
  cases b.isUnderground <;> cases b.getIsAir <;> cases b.generated <;>
    by_cases h : b.lightPoints = ∅ <;> simp [h] <;> decide

theorem flags_generated (b : MapBlock S) : decide (b.flags &&& 0x08 = 0) = b.generated := by
  unfold flags
  cases b.isUnderground <;> cases b.getIsAir <;> cases b.generated <;>
    by_cases h : b.lightPoints = ∅ <;> simp [h] <;> decide

theorem flags_lightPoints (b : MapBlock S) : b.flags &&& 0x80 ≠ 0 ↔ b.lightPoints ≠ ∅ := by
  unfold flags
  cases b.isUnderground <;> cases b.getIsAir <;> cases b.generated <;>
    by_cases h : b.lightPoints = ∅ <;> simp [h] <;> decide

theorem readLightPoints_append (hmp : mp.Lawful b.lightPoints) (hne : b.lightPoints ≠ ∅)
    (h : writeLightPoints mp b = .ok text) (old : LightPoints) (rest : ByteString) :
    readLightPoints mp old { rest := text ++ rest } = .ok b.lightPoints := by
  rw [writeLightPoints, if_neg hne] at h
  obtain ⟨hpack, hunpack⟩ := hmp
  unfold readLightPoints
  rw [deSerializeString32_append h]
  simp only [bind, Except.bind, hpack, if_false, hunpack]
  rfl

/-! ## Parts with formats of their own -/

end MapBlock

/-- What was written is read as `y`, wherever it stands. -/
def Codec.Reads {α : Type} (c : Codec α) (version : UInt8) (disk : Bool) (x old y : α) : Prop :=
  ∀ text left, c.serialize version disk x = .ok (text, left) →
    ∀ rest, c.deSerialize version old { rest := text ++ rest } = .ok (y, { rest })

namespace MapBlock

variable {S : Sections} {order : HashOrder Content ByteString}
  {nimap : NameIdMapping} {b b' old : MapBlock S} {disk : Bool} {m : S.Metadata} {o : S.Objects} {tm : S.Timers}
  {t : NodeDefManager}

theorem readMetadata_append (hcz : cz.Lawful)
    (hread : S.metadata.Reads version disk b.metadata old.metadata m)
    (hfits : ∀ text left, S.metadata.serialize version disk b.metadata = .ok (text, left) →
      text.length < 2 ^ 32)
    (h : writeMetadata cz version disk level b.metadata = .ok text) (rest : ByteString) :
    readMetadata cz version old.metadata { rest := text ++ rest } = .ok (m, { rest }) := by
  obtain ⟨⟨data, left⟩, hdata, h⟩ := bind_eq_ok.mp h
  have hread := hread data left hdata
  unfold readMetadata
  dsimp only at h
  split_ifs at h ⊢ with h29
  · obtain rfl := Except.ok.inj h
    exact hread rest
  · have hraw := hread []
    rw [List.append_nil] at hraw
    rw [hcz.run h (hfits data left hdata)]
    simp only [hraw]

theorem readDisk_append (t : NodeDefManager) (old : MapBlock S) (hv : ¬version < 24) (hcard : nimap.idToName.keys.card < 65536)
    (hobjects : S.objects.Reads version true b.objects old.objects o)
    (htimers : S.timers.Reads version true b.timers old.timers tm)
    (h : writeDisk order b version nimap = .ok (text, b')) {nimap' : NameIdMapping}
    (hnimap : 29 ≤ version → nimap'.idToName = nimap.idToName ∧ old.timestamp = b.timestamp)
    (rest : ByteString) :
    ∃ nimap'' : NameIdMapping, nimap''.idToName = nimap.idToName ∧
      readDisk t old version nimap' { rest := text ++ rest } =
        correctBlockNodeIds nimap'' t old.nodes >>= fun r =>
          .ok ((old.setDisk o tm b.timestamp).corrected nimap'' r.1, r.2, { rest }) := by
  obtain ⟨⟨timers, timersLeft⟩, htimersText, h⟩ := bind_eq_ok.mp h
  obtain ⟨⟨objects, objectsLeft⟩, hobjectsText, h⟩ := bind_eq_ok.mp h
  obtain ⟨ids, hids, h⟩ := bind_eq_ok.mp h
  obtain ⟨htext, -⟩ := Prod.ext_iff.mp (Except.ok.inj h)
  have hobjects := hobjects objects objectsLeft hobjectsText
  have htimers := htimers timers timersLeft htimersText
  subst htext
  have h23 : version ≠ 23 := by grind
  unfold readDisk
  simp only [h23, if_false]
  by_cases h29 : 29 ≤ version
  · obtain ⟨hid, htime⟩ := hnimap h29
    have hlt : ¬version < 29 := by grind
    have h24 : version ≠ 24 := by grind
    have hle : ¬version ≤ 24 := by grind
    have h25 : 25 ≤ version := by grind
    rw [if_neg hlt] at hids
    obtain rfl := Except.ok.inj hids
    refine ⟨nimap', hid, ?_⟩
    simp only [hlt, h24, hle, h25, if_true, if_false, List.append_assoc, List.nil_append, htime,
      hobjects, htimers, bind, Except.bind]
    rfl
  · have hlt : version < 29 := by grind
    rw [if_pos hlt] at hids
    by_cases h24 : version = 24
    · subst h24
      obtain ⟨nimap'', hread, hid⟩ := readIds_append hcard hids rest
      refine ⟨nimap'', hid, ?_⟩
      simp only [hlt, UInt8.le_refl, if_true, List.append_assoc, hobjects, htimers, hread,
        bind, Except.bind]
      rfl
    · have hle : ¬version ≤ 24 := by grind
      have h25 : 25 ≤ version := by grind
      obtain ⟨nimap'', hread, hid⟩ := readIds_append hcard hids (timers ++ rest)
      refine ⟨nimap'', hid, ?_⟩
      simp only [hlt, h24, hle, h25, if_true, if_false, List.append_assoc, hobjects, htimers,
        hread, bind, Except.bind]
      rfl

end MapBlock

end Freeminer.Block
