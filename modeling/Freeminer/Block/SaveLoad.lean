import Freeminer.Block.MapBlock

/-! What `deSerialize` makes of the bytes of `serialize`, and of a block that `ServerMap` saved. -/

namespace Freeminer.Block

open Lib

namespace MapBlock

variable {S : Sections} {cz : Compression} {mp : Msgpack} {order : HashOrder Content ByteString}
  {t t' : NodeDefManager} {b left old : MapBlock S} {version : UInt8} {disk : Bool} {level : ℤ}
  {data : ByteString}

/-- What `serializeBody` wrote, part by part. -/
structure Parts (cz : Compression) (mp : Msgpack) (order : HashOrder Content ByteString)
    (t : NodeDefManager) (b left : MapBlock S) (version : UInt8) (disk : Bool) (level : ℤ) where
  ids : ByteString
  nodes : ByteString
  metadata : ByteString
  diskData : ByteString
  light : ByteString
  ids_eq : (if disk ∧ 29 ≤ version then writeIds order b.timestamp (ownIds t b disk).2
    else pure []) = .ok ids
  nodes_eq : writeNodes cz version level (b.data.bulk (ownIds t b disk).1) = .ok nodes
  metadata_eq : writeMetadata cz version disk level b.metadata = .ok metadata
  disk_eq : (if disk then writeDisk order b version (ownIds t b disk).2 else pure ([], b)) =
    .ok (diskData, left)
  light_eq : writeLightPoints mp b = .ok light

def Parts.text (p : Parts cz mp order t b left version disk level) : ByteString :=
  b.flags :: (if 27 ≤ version then writeU16 b.lightingComplete else []) ++ p.ids ++ p.nodes ++
    p.metadata ++ p.diskData ++ (if 29 ≤ version then p.light else [])

theorem serializeBody_ok
    (h : serializeBody cz mp order t b version disk level = .ok (data, left)) :
    ∃ p : Parts cz mp order t b left version disk level, data = p.text := by
  obtain ⟨ids, hids, h⟩ := bind_eq_ok.mp h
  obtain ⟨nodes, hnodes, h⟩ := bind_eq_ok.mp h
  obtain ⟨metadata, hmetadata, h⟩ := bind_eq_ok.mp h
  obtain ⟨⟨diskData, left'⟩, hdisk, h⟩ := bind_eq_ok.mp h
  obtain ⟨light, hlight, h⟩ := bind_eq_ok.mp h
  obtain ⟨rfl, rfl⟩ := Prod.ext_iff.mp (Except.ok.inj h)
  exact ⟨⟨ids, nodes, metadata, diskData, light, hids, hnodes, hmetadata, hdisk, hlight⟩, rfl⟩

/-- The start of a block, up to its nodes, is read into `old`. -/
def headed (b old : MapBlock S) (version : UInt8) (disk : Bool) : MapBlock S :=
  { old with
    isUnderground := b.isUnderground
    isAir := none
    lightingComplete := if version < 27 then 0xFFFF else b.lightingComplete
    timestamp := if disk ∧ 29 ≤ version then b.timestamp else old.timestamp
    generated := b.generated
    data := old.data.expanded }

theorem lightingComplete_append (i : UInt16) (rest : ByteString) :
    (if version < 27 then .ok (0xFFFF, { rest := (if 27 ≤ version then writeU16 i else []) ++ rest })
      else streamU16 { rest := (if 27 ≤ version then writeU16 i else []) ++ rest } :
      Except LoadError (UInt16 × IStream)) =
    .ok (if version < 27 then 0xFFFF else i, { rest }) := by
  by_cases h : version < 27
  · have h' : ¬27 ≤ version := by grind
    rw [if_pos h, if_pos h, if_neg h', List.nil_append]
  · have h' : 27 ≤ version := by grind
    rw [if_neg h, if_neg h, if_pos h', streamU16_append]

theorem readStart_append (p : Parts cz mp order t b left version disk level)
    (hcard : (ownIds t b disk).2.idToName.keys.card < 65536) (hgen : b.generated = true)
    (fixNotGenerated : Bool) (old : MapBlock S) (rest : ByteString) :
    ∃ nimap : NameIdMapping,
      (disk = true → 29 ≤ version → nimap.idToName = (ownIds t b disk).2.idToName) ∧
      readStart fixNotGenerated old version disk
        { rest := b.flags :: ((if 27 ≤ version then writeU16 b.lightingComplete else []) ++
          (p.ids ++ rest)) } = .ok (b.flags, b.headed old version disk, nimap, { rest }) := by
  have hids := p.ids_eq
  have hflags : (decide (b.flags &&& 0x08 = 0) || disk && fixNotGenerated) = b.generated := by
    rw [flags_generated, hgen, Bool.true_or]
  unfold readStart
  rw [streamU8_append]
  simp only [bind, Except.bind, lightingComplete_append, hflags, flags_underground, headed]
  by_cases hstart : disk ∧ 29 ≤ version
  · rw [if_pos hstart] at hids
    obtain ⟨nimap, hread, hid⟩ := readIds_append hcard hids rest
    refine ⟨nimap, fun _ _ => hid, ?_⟩
    simp only [hstart, and_self, if_true, hread]
    rfl
  · rw [if_neg hstart] at hids
    rw [← Except.ok.inj hids]
    refine ⟨{}, fun hd h29 => absurd ⟨hd, h29⟩ hstart, ?_⟩
    simp only [hstart, if_false]
    rfl

/-- The light points after a read: those of the block, if it has any. -/
def lightPointsRead (b old : MapBlock S) : LightPoints :=
  if b.lightPoints = ∅ then old.lightPoints else b.lightPoints

theorem lightPoints_append (hmp : mp.Lawful b.lightPoints)
    (p : Parts cz mp order t b left version disk level)
    (hlight : b.lightPoints = ∅ ∨ 29 ≤ version) (old : MapBlock S) (rest : ByteString) :
    (if b.flags &&& 0x80 ≠ 0 then readLightPoints mp old.lightPoints
        { rest := (if 29 ≤ version then p.light else []) ++ rest }
      else .ok old.lightPoints) = .ok (b.lightPointsRead old) := by
  have hflag := flags_lightPoints b
  unfold lightPointsRead
  by_cases hempty : b.lightPoints = ∅
  · rw [if_pos hempty, if_neg (by simpa using fun h => hflag.mp h hempty)]
  · have h29 := hlight.resolve_left hempty
    rw [if_neg hempty, if_pos (hflag.mpr hempty), if_pos h29,
      readLightPoints_append hmp hempty p.light_eq]

theorem ownIds_disk (t : NodeDefManager) (b : MapBlock S) :
    List.Forall₂ (fun n m => (ownIds t b true).2.getName m.param0 = some (t.getName n.param0) ∧
      SameParams n m) b.nodes (b.data.bulk (ownIds t b true).1) ∧
    (ownIds t b true).2.idToName.keys.card < 65536 ∧
    ∀ id name, (ownIds t b true).2.getName id = some name → ∃ c, name = t.getName c := by
  have hlen : b.data.stored.length < 65536 := by
    cases b.data with
    | mono n =>
      rw [NodeData.stored, List.length_singleton]
      decide
    | full f =>
      rw [NodeData.stored, List.length_ofFn]
      decide
  obtain ⟨hnodes, hcard⟩ := getBlockNodeIdMapping_spec (t := t) hlen
  exact ⟨NodeData.bulk_forall₂ hnodes, hcard⟩

theorem length_bulk (t : NodeDefManager) (b : MapBlock S) (disk : Bool) :
    (b.data.bulk (ownIds t b disk).1).length = nodecount := by
  cases disk with
  | true => rw [← (ownIds_disk t b).1.length_eq, nodes, NodeData.length_nodes]
  | false =>
    show (b.data.bulk b.data.stored).length = nodecount
    rw [NodeData.bulk_stored, NodeData.length_nodes]

structure PartsRead (b old : MapBlock S) (version : UInt8) (disk : Bool) (m : S.Metadata)
    (o : S.Objects) (tm : S.Timers) : Prop where
  metadata : S.metadata.Reads version disk b.metadata old.metadata m
  objects : S.objects.Reads version true b.objects old.objects o
  timers : S.timers.Reads version true b.timers old.timers tm

variable {m : S.Metadata} {o : S.Objects} {tm : S.Timers}

/-- What `deSerialize` makes of a block for the network. -/
def networkRead (b old : MapBlock S) (version : UInt8) (m : S.Metadata) : MapBlock S :=
  ((b.headed old version false).setNodes (.ofList b.nodes) m).setLightPoints
    (b.lightPointsRead old)

/-- What `deSerialize` makes of a block on disk, whose nodes are `nodes` after correction. -/
def diskRead (t : NodeDefManager) (b old : MapBlock S) (version : UInt8) (m : S.Metadata)
    (o : S.Objects) (tm : S.Timers) (nimap : NameIdMapping) (nodes : List MapNode) : MapBlock S :=
  ((((b.headed old version true).setNodes (.ofList (b.data.bulk (ownIds t b true).1)) m).setDisk
    o tm b.timestamp).corrected nimap nodes).setLightPoints (b.lightPointsRead old)

@[simp] theorem lightPoints_corrected (nimap : NameIdMapping) (nodes : List MapNode) :
    (b.corrected nimap nodes).lightPoints = b.lightPoints := by
  unfold corrected
  split_ifs <;> rfl

theorem readRest_network (hcz : cz.Lawful) (hmp : mp.Lawful b.lightPoints) (hv : ¬version < 24)
    (p : Parts cz mp order t b left version false level)
    (hlight : b.lightPoints = ∅ ∨ 29 ≤ version)
    (hmeta : S.metadata.Reads version false b.metadata old.metadata m)
    (hfits : ∀ text left, S.metadata.serialize version false b.metadata = .ok (text, left) →
      text.length < 2 ^ 32) (nimap : NameIdMapping) (rest : ByteString) :
    readRest cz mp t' version false b.flags (b.headed old version false) nimap
      { rest := p.nodes ++ (p.metadata ++ ((if 29 ≤ version then p.light else []) ++ rest)) } =
    .ok (b.networkRead old version m, t') := by
  have hnodes (rest : ByteString) :=
    readNodes_append hcz (by grind) (length_bulk t b false) p.nodes_eq rest
  have hmeta (rest : ByteString) :
      readMetadata cz version (b.headed old version false).metadata
        { rest := p.metadata ++ rest } = .ok (m, { rest }) :=
    readMetadata_append hcz hmeta hfits p.metadata_eq rest
  have hlight := lightPoints_append hmp p hlight
    ((b.headed old version false).setNodes (.ofList b.nodes) m) rest
  have hbulk : b.data.bulk (ownIds t b false).1 = b.nodes := NodeData.bulk_stored b.data
  unfold readRest
  simp only [hnodes, hmeta, bind, Except.bind, hbulk, Bool.false_eq_true, if_false]
  rw [hlight]
  rfl

theorem readRest_disk (hcz : cz.Lawful) (hmp : mp.Lawful b.lightPoints) (hv : ¬version < 24)
    (p : Parts cz mp order t b left version true level)
    (hlight : b.lightPoints = ∅ ∨ 29 ≤ version) (hread : PartsRead b old version true m o tm)
    (hfits : ∀ text left, S.metadata.serialize version true b.metadata = .ok (text, left) →
      text.length < 2 ^ 32) {nimap : NameIdMapping}
    (hnimap : 29 ≤ version → nimap.idToName = (ownIds t b true).2.idToName)
    (t' : NodeDefManager) (rest : ByteString) :
    ∃ nimap' : NameIdMapping, nimap'.idToName = (ownIds t b true).2.idToName ∧
      readRest cz mp t' version true b.flags (b.headed old version true) nimap
        { rest := p.nodes ++ (p.metadata ++ (p.diskData ++
          ((if 29 ≤ version then p.light else []) ++ rest))) } =
      correctBlockNodeIds nimap' t' (b.data.bulk (ownIds t b true).1) >>= fun r =>
        .ok (diskRead t b old version m o tm nimap' r.1, r.2) := by
  have hnodes (rest : ByteString) :=
    readNodes_append hcz (by grind) (length_bulk t b true) p.nodes_eq rest
  have hmeta (rest : ByteString) :
      readMetadata cz version (b.headed old version true).metadata
        { rest := p.metadata ++ rest } = .ok (m, { rest }) :=
    readMetadata_append hcz hread.metadata hfits p.metadata_eq rest
  have hlight := lightPoints_append hmp p hlight old rest
  have hdisk := p.disk_eq
  rw [if_pos rfl] at hdisk
  have htime : 29 ≤ version → (b.headed old version true).timestamp = b.timestamp :=
    fun h29 => if_pos ⟨rfl, h29⟩
  obtain ⟨nimap', hid, hdisk⟩ := readDisk_append t'
    ((b.headed old version true).setNodes (.ofList (b.data.bulk (ownIds t b true).1)) m)
    hv (ownIds_disk t b).2.1 hread.objects hread.timers hdisk (fun h29 => ⟨hnimap h29, htime h29⟩)
    ((if 29 ≤ version then p.light else []) ++ rest)
  refine ⟨nimap', hid, ?_⟩
  have hown : nodes ((b.headed old version true).setNodes
      (.ofList (b.data.bulk (ownIds t b true).1)) m) = b.data.bulk (ownIds t b true).1 :=
    NodeData.nodes_ofList (length_bulk t b true)
  unfold readRest
  simp only [hnodes, hmeta, bind, Except.bind, if_true]
  rw [hdisk, hown]
  cases correctBlockNodeIds nimap' t' (b.data.bulk (ownIds t b true).1) with
  | error e => rfl
  | ok r =>
    simp only [bind, Except.bind, lightPoints_corrected]
    rw [show (setDisk (setNodes (b.headed old version true) _ m) o tm b.timestamp).lightPoints =
      old.lightPoints from rfl, hlight]
    rfl

structure Fits (cz : Compression) (mp : Msgpack) (order : HashOrder Content ByteString)
    (t : NodeDefManager) (b : MapBlock S) (version : UInt8) (disk : Bool) (level : ℤ) : Prop where
  body : ∀ text left, serializeBody cz mp order t b version disk level = .ok (text, left) →
    text.length < 2 ^ 32
  metadata : ∀ text left, S.metadata.serialize version disk b.metadata = .ok (text, left) →
    text.length < 2 ^ 32

variable (deSerializeOld : UInt8 → Bool → MapBlock S → NodeDefManager → IStream →
  Except LoadError (MapBlock S × NodeDefManager)) (fixNotGenerated : Bool) (t' : NodeDefManager)
  (old : MapBlock S)

/-- A generated block that was written is read from its nodes on, by the flags it was written
with. -/
theorem deSerialize_start (hcz : cz.Lawful) (hgen : b.generated = true)
    (hcard : (ownIds t b disk).2.idToName.keys.card < 65536)
    (hfits : Fits cz mp order t b version disk level)
    (h : serialize cz mp order t b version disk level = .ok (data, left)) (rest : ByteString) :
    ¬version < 24 ∧ ∃ (p : Parts cz mp order t b left version disk level) (nimap : NameIdMapping)
      (rest' : ByteString),
      (disk = true → 29 ≤ version → nimap.idToName = (ownIds t b disk).2.idToName) ∧
      deSerialize cz mp deSerializeOld fixNotGenerated t' old { rest := data ++ rest } version
        disk =
      readRest cz mp t' version disk b.flags (b.headed old version disk) nimap
        { rest := p.nodes ++ (p.metadata ++ (p.diskData ++
          ((if 29 ≤ version then p.light else []) ++ rest'))) } >>= fun r =>
        .ok (true, r.1, r.2) := by
  unfold serialize at h
  by_cases hv : version < 24 ∨ 29 < version
  · rw [if_pos hv] at h
    cases h
  rw [if_neg hv] at h
  obtain ⟨⟨text, left'⟩, hbody, h⟩ := bind_eq_ok.mp h
  have hlen := hfits.body text left' hbody
  obtain ⟨p, hp⟩ := serializeBody_ok hbody
  have hv24 : ¬version < 24 := by grind
  have hv22 : ¬version ≤ 22 := by grind
  have hv29 : ¬29 < version := by grind
  -- the stream that the block is read from, after decompression from version 29 on
  have hstream : left' = left ∧ ∃ rest', (if 29 ≤ version then
      (cz.decompress version { rest := data ++ rest }).1.map fun raw => ({ rest := raw } : IStream)
      else .ok { rest := data ++ rest }) = .ok { rest := text ++ rest' } := by
    dsimp only at h
    split_ifs at h ⊢ with h29
    · obtain ⟨packed, hpacked, h⟩ := bind_eq_ok.mp h
      obtain ⟨rfl, rfl⟩ := Prod.ext_iff.mp (Except.ok.inj h)
      refine ⟨rfl, [], ?_⟩
      rw [hcz.run hpacked hlen, List.append_nil]
      rfl
    · obtain ⟨rfl, rfl⟩ := Prod.ext_iff.mp (Except.ok.inj h)
      exact ⟨rfl, rest, rfl⟩
  obtain ⟨rfl, rest', hstream⟩ := hstream
  obtain ⟨nimap, hnimap, hstart⟩ := readStart_append p hcard hgen fixNotGenerated old
    (p.nodes ++ (p.metadata ++ (p.diskData ++ ((if 29 ≤ version then p.light else []) ++ rest'))))
  refine ⟨hv24, p, nimap, rest', hnimap, ?_⟩
  unfold deSerialize
  rw [if_neg hv29, if_neg hv22, hstream, hp, Parts.text]
  simp only [bind, Except.bind, List.cons_append, List.append_assoc, hstart]
  rw [if_pos (show (b.headed old version disk).generated = true from hgen)]
  rfl

theorem deSerialize_network (hcz : cz.Lawful) (hmp : mp.Lawful b.lightPoints) (hgen : b.generated = true)
    (hlight : b.lightPoints = ∅ ∨ 29 ≤ version)
    (hfits : Fits cz mp order t b version false level)
    (hmeta : S.metadata.Reads version false b.metadata old.metadata m)
    (h : serialize cz mp order t b version false level = .ok (data, left)) (rest : ByteString) :
    deSerialize cz mp deSerializeOld fixNotGenerated t' old { rest := data ++ rest } version
      false = .ok (true, b.networkRead old version m, t') := by
  have hcard : (ownIds t b false).2.idToName.keys.card < 65536 := by
    show (∅ : Finset Content).card < 65536
    decide
  obtain ⟨hv, p, nimap, rest', -, hread⟩ := deSerialize_start deSerializeOld fixNotGenerated t' old
    hcz hgen hcard hfits h rest
  have hdisk : [] = p.diskData := (Prod.ext_iff.mp (Except.ok.inj p.disk_eq)).1
  rw [hread, ← hdisk, List.nil_append, readRest_network hcz hmp hv p hlight hmeta hfits.metadata]
  rfl

/-- A block on disk: its nodes are those that `correctBlockNodeIds` makes of its own ids. -/
theorem deSerialize_disk (hcz : cz.Lawful) (hmp : mp.Lawful b.lightPoints) (hgen : b.generated = true)
    (hlight : b.lightPoints = ∅ ∨ 29 ≤ version)
    (hfits : Fits cz mp order t b version true level) (hread : PartsRead b old version true m o tm)
    (h : serialize cz mp order t b version true level = .ok (data, left)) (rest : ByteString) :
    ∃ nimap : NameIdMapping, nimap.idToName = (ownIds t b true).2.idToName ∧
      deSerialize cz mp deSerializeOld fixNotGenerated t' old { rest := data ++ rest } version
        true =
      correctBlockNodeIds nimap t' (b.data.bulk (ownIds t b true).1) >>= fun r =>
        .ok (true, diskRead t b old version m o tm nimap r.1, r.2) := by
  obtain ⟨hv, p, nimap, rest', hnimap, hstart⟩ := deSerialize_start deSerializeOld fixNotGenerated t'
    old hcz hgen (ownIds_disk t b).2.1 hfits h rest
  obtain ⟨nimap', hid, hrest⟩ := readRest_disk hcz hmp hv p hlight hread
    hfits.metadata (hnimap rfl) t' rest'
  refine ⟨nimap', hid, ?_⟩
  rw [hstart, hrest]
  cases correctBlockNodeIds nimap' t' (b.data.bulk (ownIds t b true).1) <;> rfl

end MapBlock

end Freeminer.Block
