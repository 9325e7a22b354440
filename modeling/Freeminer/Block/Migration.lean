import Freeminer.Block.SaveLoad

/-! Blocks that are saved under one table of definitions and loaded under another (`servermap.cpp`):
the nodes keep their names. -/

namespace Freeminer.Block

open Lib

variable {S : Sections} (cz : Compression) (mp : Msgpack) (order : HashOrder Content ByteString)

def SER_FMT_VER_HIGHEST_WRITE : UInt8 := 29

/-- `saveBlock`: what is written to the database, if anything. -/
def saveBlock (t : NodeDefManager) (b : MapBlock S) (level : ℤ) :
    Except LoadError (Option ByteString × MapBlock S) :=
  if b.generated then do
    let (text, left) ← b.serialize cz mp order t SER_FMT_VER_HIGHEST_WRITE true level
    pure (some (SER_FMT_VER_HIGHEST_WRITE :: text), left)
  else .ok (none, b)

def deSerializeBlock (deSerializeOld : UInt8 → Bool → MapBlock S → NodeDefManager → IStream →
      Except LoadError (MapBlock S × NodeDefManager)) (fixNotGenerated : Bool)
    (t : NodeDefManager) (b : MapBlock S) (is : IStream) :
    Except LoadError (Bool × MapBlock S × NodeDefManager) := do
  let (version, is) ← streamU8 is
  b.deSerialize cz mp deSerializeOld fixNotGenerated t is version true

def blockNames (t : NodeDefManager) (b : MapBlock S) : Finset ByteString :=
  (b.nodes.map fun n => t.getName n.param0).toFinset

/-- Every node of `b'` has an id that the table `t'` has a name for: the name it had under `t1`,
which an alias in `t2` may stand for. -/
structure Migrated (t1 t2 : NodeDefManager) (b b' : MapBlock S) (t' : NodeDefManager) : Prop where
  extended : t2.Extends t'
  nodes : List.Forall₂ (fun n m => t'.names m.param0 = t2.canonical (t1.getName n.param0) ∧
    t'.names m.param0 ≠ [] ∧ SameParams n m) b.nodes b'.nodes

variable {cz mp order} {t1 t2 t' : NodeDefManager} {b b' left old : MapBlock S} {level : ℤ}
  {blob : ByteString} {nimap : NameIdMapping}

/-- The names that a block wrote are given back by the table it was written with. -/
theorem correct_ownIds (ht1 : t1.names CONTENT_UNKNOWN ≠ []) (ht2 : t2.WellFormed)
    (hid : nimap.idToName = (MapBlock.ownIds t1 b true).2.idToName) :
    (∃ out t', correctBlockNodeIds nimap t2 (b.data.bulk (MapBlock.ownIds t1 b true).1) =
        .ok (out, t') ∧ t2.Room (blockNames t1 b) ∧ out.length = nodecount ∧
      ∀ b' : MapBlock S, b'.nodes = out → Migrated t1 t2 b b' t') ∨
    (∃ name ∈ blockNames t1 b,
      correctBlockNodeIds nimap t2 (b.data.bulk (MapBlock.ownIds t1 b true).1) =
        .error (couldNotAllocate name) ∧ ¬t2.Room (blockNames t1 b)) := by
  obtain ⟨hown, -, hnamed⟩ := MapBlock.ownIds_disk t1 b
  have hget (id : Content) : nimap.getName id = (MapBlock.ownIds t1 b true).2.getName id := by
    rw [NameIdMapping.getName, hid]
    rfl
  have hname_ne (c : Content) : t1.getName c ≠ [] := by
    unfold NodeDefManager.getName
    split_ifs with h
    · exact ht1
    · exact h
  have hne (id : Content) (name : ByteString) (h : nimap.getName id = some name) : name ≠ [] := by
    rw [hget] at h
    obtain ⟨c, rfl⟩ := hnamed id name h
    exact hname_ne c
  have hmem (name : ByteString) : name ∈ blockNames t1 b ↔
      ∃ n ∈ b.nodes, t1.getName n.param0 = name := by
    simp [blockNames]
  have hnodes : ∀ m ∈ b.data.bulk (MapBlock.ownIds t1 b true).1,
      ∃ name ∈ blockNames t1 b, nimap.getName m.param0 = some name := by
    intro m hm
    obtain ⟨n, hn, hname, -⟩ := exists_left hown hm
    exact ⟨t1.getName n.param0, (hmem _).mpr ⟨n, hn, rfl⟩, by rw [hget, hname]⟩
  have hnames : ∀ name ∈ blockNames t1 b, ∃ m ∈ b.data.bulk (MapBlock.ownIds t1 b true).1,
      nimap.getName m.param0 = some name := by
    intro name h
    obtain ⟨n, hn, rfl⟩ := (hmem name).mp h
    obtain ⟨m, hm, hname, -⟩ := exists_right hown hn
    exact ⟨m, hm, by rw [hget, hname]⟩
  obtain ⟨out, t', hrun, hroom, hwf, hext, hout⟩ | h :=
    correctBlockNodeIds_cases ht2 hne hnodes hnames
  · refine Or.inl ⟨out, t', hrun, hroom, ?_, fun b' hb' => ⟨hext, hb' ▸ ?_⟩⟩
    · rw [← hout.length_eq, MapBlock.length_bulk]
    · refine forall₂_comp (fun n k m hn hm => ?_) hown hout
      obtain ⟨heq, -⟩ := hm.name_eq _ (by rw [hget, hn.1])
      refine ⟨heq, ?_, ?_, ?_⟩
      · rw [heq]
        exact canonical_ne_nil ht2 (hname_ne _)
      · rw [hm.sameParams.1, hn.2.1]
      · rw [hm.sameParams.2, hn.2.2]
  · exact Or.inr h

namespace MapBlock

/-- From version 29 on nothing that is read after the nodes changes them but their correction. -/
theorem readDisk_ok {version : UInt8} (hv : 29 ≤ version) {is is' : IStream}
    (h : readDisk t2 b version nimap is = .ok (b', t', is')) :
    ∃ out, correctBlockNodeIds nimap t2 b.nodes = .ok (out, t') ∧
      (out.length = nodecount → b'.nodes = out) := by
  have hlt : ¬version < 29 := by grind
  unfold readDisk at h
  obtain ⟨_, -, h⟩ := bind_eq_ok.mp h
  obtain ⟨_, -, h⟩ := bind_eq_ok.mp h
  obtain ⟨_, -, h⟩ := bind_eq_ok.mp h
  obtain ⟨ids, hids, h⟩ := bind_eq_ok.mp h
  rw [if_neg hlt] at hids
  obtain rfl := Except.ok.inj hids
  obtain ⟨⟨out, t''⟩, hout, h⟩ := bind_eq_ok.mp h
  obtain ⟨_, -, h⟩ := bind_eq_ok.mp h
  obtain ⟨rfl, h⟩ := Prod.ext_iff.mp (Except.ok.inj h)
  obtain ⟨rfl, -⟩ := Prod.ext_iff.mp h
  refine ⟨out, hout, fun hlen => ?_⟩
  unfold nodes corrected
  split_ifs
  · rw [NodeData.nodes_tryShrink, NodeData.nodes_ofList hlen]
  · rw [NodeData.nodes_ofList hlen]

theorem readRest_ok (hcz : cz.Lawful) (p : Parts cz mp order t1 b left 29 true level)
    {flags : UInt8} {rest : ByteString}
    (h : readRest cz mp t2 29 true flags old nimap { rest := p.nodes ++ rest } = .ok (b', t')) :
    ∃ out, correctBlockNodeIds nimap t2 (b.data.bulk (ownIds t1 b true).1) = .ok (out, t') ∧
      (out.length = nodecount → b'.nodes = out) := by
  have hnodes := readNodes_append hcz (by decide) (length_bulk t1 b true) p.nodes_eq rest
  unfold readRest at h
  rw [hnodes] at h
  obtain ⟨_, hdata, h⟩ := bind_eq_ok.mp h
  obtain rfl := Except.ok.inj hdata
  obtain ⟨⟨metadata, is⟩, -, h⟩ := bind_eq_ok.mp h
  obtain ⟨⟨b'', t'', is'⟩, hdisk, h⟩ := bind_eq_ok.mp h
  obtain ⟨lightPoints, -, h⟩ := bind_eq_ok.mp h
  obtain ⟨rfl, rfl⟩ := Prod.ext_iff.mp (Except.ok.inj h)
  obtain ⟨out, hout, hlen⟩ := readDisk_ok (by decide) hdisk
  have hown : (old.setNodes (.ofList (b.data.bulk (ownIds t1 b true).1)) metadata).nodes =
      b.data.bulk (ownIds t1 b true).1 := NodeData.nodes_ofList (length_bulk t1 b true)
  rw [hown] at hout
  exact ⟨out, hout, hlen⟩

end MapBlock

theorem saveBlock_ok (h : saveBlock cz mp order t1 b level = .ok (some blob, left)) :
    b.generated = true ∧ ∃ data, blob = 29 :: data ∧
      b.serialize cz mp order t1 29 true level = .ok (data, left) := by
  unfold saveBlock at h
  split_ifs at h with hgen
  · obtain ⟨⟨data, left'⟩, hdata, h⟩ := bind_eq_ok.mp h
    obtain ⟨hblob, rfl⟩ := Prod.ext_iff.mp (Except.ok.inj h)
    exact ⟨hgen, data, (Option.some.inj hblob).symm, hdata⟩
  · obtain ⟨hnone, -⟩ := Prod.ext_iff.mp (Except.ok.inj h)
    cases hnone

/-- `deSerializeBlock` of what `saveBlock` wrote: the version byte is the one that was written. -/
theorem deSerializeBlock_cons (deSerializeOld : UInt8 → Bool → MapBlock S → NodeDefManager →
      IStream → Except LoadError (MapBlock S × NodeDefManager)) (fixNotGenerated : Bool)
    (t : NodeDefManager) (old : MapBlock S) (version : UInt8) (data : ByteString) :
    deSerializeBlock cz mp deSerializeOld fixNotGenerated t old { rest := version :: data } =
      old.deSerialize cz mp deSerializeOld fixNotGenerated t { rest := data } version true := by
  unfold deSerializeBlock
  rw [streamU8_append]
  rfl

variable (deSerializeOld : UInt8 → Bool → MapBlock S → NodeDefManager → IStream →
  Except LoadError (MapBlock S × NodeDefManager)) (fixNotGenerated : Bool) (old : MapBlock S)

theorem migrated_of_load (hcz : cz.Lawful) (ht1 : t1.names CONTENT_UNKNOWN ≠ [])
    (ht2 : t2.WellFormed) (hfits : b.Fits cz mp order t1 29 true level)
    (hsave : saveBlock cz mp order t1 b level = .ok (some blob, left)) {loaded : Bool}
    (h : deSerializeBlock cz mp deSerializeOld fixNotGenerated t2 old { rest := blob } =
      .ok (loaded, b', t')) :
    loaded = true ∧ t2.Room (blockNames t1 b) ∧ Migrated t1 t2 b b' t' := by
  obtain ⟨hgen, data, rfl, hdata⟩ := saveBlock_ok hsave
  obtain ⟨-, p, nimap, rest', hnimap, hstart⟩ := MapBlock.deSerialize_start deSerializeOld
    fixNotGenerated t2 old hcz hgen (MapBlock.ownIds_disk t1 b).2.1 hfits hdata []
  rw [List.append_nil] at hstart
  rw [deSerializeBlock_cons, hstart] at h
  obtain ⟨⟨b'', t''⟩, hrest, h⟩ := bind_eq_ok.mp h
  obtain ⟨rfl, h⟩ := Prod.ext_iff.mp (Except.ok.inj h)
  obtain ⟨rfl, rfl⟩ := Prod.ext_iff.mp h
  obtain ⟨out, hout, hnodes⟩ := MapBlock.readRest_ok hcz p hrest
  obtain ⟨out', t', hrun, hroom, hlen, hmig⟩ | ⟨name, -, hrun, -⟩ :=
    correct_ownIds (b := b) ht1 ht2 (hnimap rfl (by decide))
  · rw [hrun] at hout
    obtain ⟨rfl, rfl⟩ := Prod.ext_iff.mp (Except.ok.inj hout)
    exact ⟨rfl, hroom, hmig b'' (hnodes hlen)⟩
  · rw [hrun] at hout
    cases hout

theorem loads_iff_room (hcz : cz.Lawful) (hmp : mp.Lawful b.lightPoints)
    (ht1 : t1.names CONTENT_UNKNOWN ≠ []) (ht2 : t2.WellFormed)
    (hfits : b.Fits cz mp order t1 29 true level)
    (hsave : saveBlock cz mp order t1 b level = .ok (some blob, left)) {m : S.Metadata}
    {o : S.Objects} {tm : S.Timers} (hread : b.PartsRead old 29 true m o tm) :
    (∃ b' t', deSerializeBlock cz mp deSerializeOld fixNotGenerated t2 old { rest := blob } =
      .ok (true, b', t')) ↔ t2.Room (blockNames t1 b) := by
  obtain ⟨hgen, data, rfl, hdata⟩ := saveBlock_ok hsave
  obtain ⟨nimap, hid, hdisk⟩ := MapBlock.deSerialize_disk deSerializeOld fixNotGenerated t2 old
    hcz hmp hgen (Or.inr (by decide)) hfits hread hdata []
  rw [List.append_nil] at hdisk
  rw [deSerializeBlock_cons, hdisk]
  obtain ⟨out, t', hrun, hroom, -, -⟩ | ⟨name, -, hrun, hroom⟩ :=
    correct_ownIds (b := b) ht1 ht2 hid
  · rw [hrun]
    exact ⟨fun _ => hroom, fun _ => ⟨_, _, rfl⟩⟩
  · rw [hrun]
    exact ⟨fun ⟨_, _, h⟩ => (by cases h), fun h => absurd h hroom⟩

/-- The nodes of a block that was saved under one table keep their names and parameters under
another, if it loads; and it loads, if its other parts are read, exactly if the table has ids left
for the names it does not know. -/
theorem load_saveBlock (hcz : cz.Lawful) (hmp : mp.Lawful b.lightPoints)
    (ht1 : t1.names CONTENT_UNKNOWN ≠ []) (ht2 : t2.WellFormed)
    (hfits : b.Fits cz mp order t1 29 true level)
    (hsave : saveBlock cz mp order t1 b level = .ok (some blob, left)) :
    (∀ loaded b' t', deSerializeBlock cz mp deSerializeOld fixNotGenerated t2 old { rest := blob } =
      .ok (loaded, b', t') →
        loaded = true ∧ t2.Room (blockNames t1 b) ∧ Migrated t1 t2 b b' t') ∧
    ∀ m o tm, b.PartsRead old 29 true m o tm →
      ((∃ b' t', deSerializeBlock cz mp deSerializeOld fixNotGenerated t2 old { rest := blob } =
        .ok (true, b', t')) ↔ t2.Room (blockNames t1 b)) :=
  ⟨fun _ _ _ h => migrated_of_load deSerializeOld fixNotGenerated old hcz ht1 ht2 hfits hsave h,
    fun _ _ _ hread => loads_iff_room deSerializeOld fixNotGenerated old hcz hmp ht1 ht2 hfits hsave
      hread⟩

/-! ## A block of one node -/

def noSections : Sections where
  Metadata := Unit
  Objects := Unit
  Timers := Unit
  metadata := ⟨fun _ _ _ => .ok ([0], ()), fun _ _ is => (streamU8 is).map fun r => ((), r.2)⟩
  objects := ⟨fun _ _ _ => .ok ([0, 0, 0], ()), fun _ _ is => do
    let (_, is) ← streamU8 is
    let (_, is) ← streamU16 is
    pure ((), is)⟩
  timers := ⟨fun _ _ _ => .ok ([10, 0, 0], ()), fun _ _ is => do
    let (_, is) ← streamU8 is
    let (_, is) ← streamU16 is
    pure ((), is)⟩
  metadataLeft _ _ := ()

def storedOnly : Compression where
  compress _ _ s := .ok (s.flatMap (fun c => [1, c]) ++ [0])
  decompress _ is := (.ok (unpackStored is.rest).1, { rest := (unpackStored is.rest).2 })
where
  unpackStored : ByteString → ByteString × ByteString
    | [] => ([], [])
    | [_] => ([], [])
    | m :: c :: s =>
      if m = 1 then (c :: (unpackStored s).1, (unpackStored s).2) else ([], c :: s)

theorem unpackStored_append (s rest : ByteString) :
    storedOnly.unpackStored (s.flatMap (fun c => [1, c]) ++ 0 :: rest) = (s, rest) := by
  induction s with
  | nil => cases rest <;> rfl
  | cons c s ih =>
    rw [List.flatMap_cons, List.append_assoc, List.cons_append, List.cons_append,
      List.nil_append, storedOnly.unpackStored, ih]
    rfl

theorem lawful_storedOnly : storedOnly.Lawful := by
  intro version level s t h rest
  obtain rfl := Except.ok.inj h
  show (_, _) = _
  simp only [List.append_assoc, List.cons_append, List.nil_append, unpackStored_append]

def noPackets : Msgpack where
  pack _ := [0x80]
  unpack _ := .ok (some ∅)

def tableOf (names : Content → ByteString) (ids : List Content) (nextId : Content) :
    NodeDefManager where
  names := names
  nameIdMapping name := ids.find? fun c => decide (names c = name)
  nameIdMappingWithAliases name := ids.find? fun c => decide (names c = name)
  nextId := nextId

theorem names_of_find {names : Content → ByteString} {ids : List Content} {name : ByteString}
    {c : Content} (h : (ids.find? fun c => decide (names c = name)) = some c) :
    c ∈ ids ∧ names c = name :=
  ⟨List.mem_of_find?_eq_some h, by simpa using List.find?_some h⟩

theorem wellFormed_tableOf {names : Content → ByteString} {ids : List Content} {nextId : Content}
    (hne : ∀ c ∈ ids, names c ≠ []) (hunknown : names CONTENT_UNKNOWN ≠ [])
    (hign : names CONTENT_IGNORE = bytes "ignore") (hmem : CONTENT_IGNORE ∈ ids) :
    (tableOf names ids nextId).WellFormed where
  name_ne_nil name c h := by
    obtain ⟨hc, rfl⟩ := names_of_find h
    exact hne c hc
  names_eq name c h := (names_of_find h).2
  alias_named name c h := hne c (names_of_find h).1
  unknown_named := hunknown
  ignore_named := hign
  ignore_known h := by
    have := List.find?_eq_none.mp h CONTENT_IGNORE hmem
    simp [hign] at this

theorem unknown_tableOf {names : Content → ByteString} {ids : List Content} {nextId : Content}
    {name : ByteString} (h : (ids.find? fun c => decide (names c = name)) = none) :
    (tableOf names ids nextId).Unknown name := ⟨h, h⟩

def stoneNames (c : Content) : ByteString :=
  if c = CONTENT_UNKNOWN then bytes "unknown"
  else if c = CONTENT_AIR then bytes "air"
  else if c = CONTENT_IGNORE then bytes "ignore"
  else if c = 1 then bytes "stone"
  else []

def stoneTable : NodeDefManager :=
  tableOf stoneNames [CONTENT_UNKNOWN, CONTENT_AIR, CONTENT_IGNORE, 1] 2

theorem wellFormed_stoneTable : stoneTable.WellFormed := by
  refine wellFormed_tableOf ?_ (by decide) rfl (by simp)
  intro c hc
  simp only [List.mem_cons, List.not_mem_nil, or_false] at hc
  obtain rfl | rfl | rfl | rfl := hc <;> decide

def stoneBlock : MapBlock noSections where
  isUnderground := false
  isAir := none
  lightingComplete := 0xFFFF
  generated := true
  timestamp := 0
  data := .mono { param0 := 1 }
  metadata := ()
  objects := ()
  timers := ()
  lightPoints := ∅

theorem ownIds_stone : MapBlock.ownIds stoneTable stoneBlock true =
    ([{ param0 := 0 }], NameIdMapping.set {} 0 (bytes "stone")) := by
  rfl

def stoneIds : ByteString :=
  writeU32 0 ++ (0 :: writeU16 1 ++ (writeU16 0 ++ (writeU16 5 ++ bytes "stone") ++ []))

theorem writeIds_stone (order : HashOrder Content ByteString) :
    MapBlock.writeIds order 0 (NameIdMapping.set {} 0 (bytes "stone")) = .ok stoneIds := by
  unfold MapBlock.writeIds NameIdMapping.serialize
  rw [NameIdMapping.set, HashOrder.entries_singleton]
  rfl

def stoneText : ByteString :=
  stoneBlock.flags :: writeU16 0xFFFF ++ stoneIds ++
    ([2, 2] ++ MapNode.serializeBulk (List.replicate nodecount { param0 := 0 })) ++ [0] ++
    ([0, 0, 0] ++ [] ++ [10, 0, 0]) ++ []

theorem serializeBody_stone (order : HashOrder Content ByteString) (level : ℤ) :
    MapBlock.serializeBody storedOnly noPackets order stoneTable stoneBlock 29 true level =
      .ok (stoneText, stoneBlock) := by
  unfold MapBlock.serializeBody
  rw [ownIds_stone]
  simp only [show stoneBlock.timestamp = 0 from rfl, writeIds_stone]
  rfl

/-- The nodes of a block, with their widths. -/
theorem length_nodesText (m : MapNode) :
    ([2, 2] ++ MapNode.serializeBulk (List.replicate nodecount m) : ByteString).length = 16386 := by
  rw [List.length_append, MapNode.length_serializeBulk, List.length_replicate]
  rfl

theorem length_stoneText : stoneText.length < 2 ^ 32 := by
  have hstart : (stoneBlock.flags :: writeU16 0xFFFF).length = 3 := rfl
  have hids : stoneIds.length = 16 := rfl
  have hnodes := length_nodesText { param0 := 0 }
  have hrest : ([0, 0, 0] ++ [] ++ [10, 0, 0] : ByteString).length = 6 := rfl
  have hlen : stoneText.length = 3 + 16 + 16386 + 1 + 6 + 0 := by
    rw [stoneText, List.length_append, List.length_append, List.length_append,
      List.length_append, List.length_append, hstart, hids, hnodes, hrest, List.length_singleton,
      List.length_nil]
  omega

theorem fits_stone (order : HashOrder Content ByteString) (level : ℤ) :
    stoneBlock.Fits storedOnly noPackets order stoneTable 29 true level where
  body text left h := by
    rw [serializeBody_stone] at h
    obtain ⟨rfl, -⟩ := Prod.ext_iff.mp (Except.ok.inj h)
    exact length_stoneText
  metadata text left h := by
    obtain ⟨rfl, -⟩ := Prod.ext_iff.mp (Except.ok.inj h)
    decide

theorem saveBlock_stone (order : HashOrder Content ByteString) (level : ℤ) :
    ∃ blob, saveBlock storedOnly noPackets order stoneTable stoneBlock level =
      .ok (some blob, stoneBlock) := by
  refine ⟨29 :: (stoneText.flatMap (fun c => [1, c]) ++ [0]), ?_⟩
  have hlen : stoneText.take (stoneText.length % 2 ^ 32) = stoneText := by
    rw [Nat.mod_eq_of_lt length_stoneText, List.take_length]
  have hserialize : stoneBlock.serialize storedOnly noPackets order stoneTable 29 true level =
      .ok (stoneText.flatMap (fun c => [1, c]) ++ [0], stoneBlock) := by
    unfold MapBlock.serialize
    rw [serializeBody_stone, if_neg (by decide)]
    simp only [bind, Except.bind, Compression.run, hlen]
    rfl
  unfold saveBlock
  rw [if_pos (show stoneBlock.generated = true from rfl), SER_FMT_VER_HIGHEST_WRITE, hserialize]
  rfl

theorem partsRead_stone : stoneBlock.PartsRead stoneBlock 29 true () () () where
  metadata text left h rest := by
    obtain ⟨rfl, -⟩ := Prod.ext_iff.mp (Except.ok.inj h)
    rfl
  objects text left h rest := by
    obtain ⟨rfl, -⟩ := Prod.ext_iff.mp (Except.ok.inj h)
    rfl
  timers text left h rest := by
    obtain ⟨rfl, -⟩ := Prod.ext_iff.mp (Except.ok.inj h)
    rfl

/-- `deSerialize` of old versions, for a block that is not in one. -/
def noOldFormat (_ : UInt8) (_ : Bool) (b : MapBlock noSections) (t : NodeDefManager)
    (_ : IStream) : Except LoadError (MapBlock noSections × NodeDefManager) := .ok (b, t)

theorem blockNames_stone : blockNames stoneTable stoneBlock = {bytes "stone"} := by
  ext name
  simp only [blockNames, List.mem_toFinset, List.mem_map, Finset.mem_singleton, MapBlock.nodes,
    stoneBlock, NodeData.nodes, List.mem_replicate]
  constructor
  · rintro ⟨n, ⟨-, rfl⟩, rfl⟩
    rfl
  · rintro rfl
    exact ⟨_, ⟨by decide, rfl⟩, rfl⟩

theorem room_stoneTable : stoneTable.Room {bytes "stone"} := by
  have hknown : ¬stoneTable.Unknown (bytes "stone") := by decide
  rw [NodeDefManager.Room, Finset.filter_singleton, if_neg hknown, Finset.card_empty]
  exact Nat.zero_le _

theorem load_saveBlock_stone : ∃ blob b' t',
    saveBlock storedOnly noPackets (HashOrder.any Content ByteString) stoneTable stoneBlock 0 =
      .ok (some blob, stoneBlock) ∧
    deSerializeBlock storedOnly noPackets noOldFormat false stoneTable stoneBlock
      { rest := blob } = .ok (true, b', t') ∧
    Migrated stoneTable stoneTable stoneBlock b' t' := by
  obtain ⟨blob, hsave⟩ := saveBlock_stone (HashOrder.any Content ByteString) 0
  obtain ⟨hmig, hload⟩ := load_saveBlock noOldFormat false stoneBlock lawful_storedOnly
    ⟨by decide, rfl⟩ (by decide) wellFormed_stoneTable (fits_stone _ 0) hsave
  have hroom : stoneTable.Room (blockNames stoneTable stoneBlock) := by
    rw [blockNames_stone]
    exact room_stoneTable
  obtain ⟨b', t', h⟩ := (hload () () () partsRead_stone).mpr hroom
  exact ⟨blob, b', t', hsave, h, (hmig true b' t' h).2.2⟩

/-! A table without a free id. -/

def fullNames (c : Content) : ByteString :=
  if c = CONTENT_UNKNOWN then bytes "unknown"
  else if c = CONTENT_AIR then bytes "air"
  else if c = CONTENT_IGNORE then bytes "ignore"
  else 110 :: decimal c.toNat

def fullTable : NodeDefManager :=
  tableOf fullNames ((List.range 65536).map UInt16.ofNat) 65535

theorem fullNames_cases (c : Content) :
    fullNames c = bytes "unknown" ∧ c = CONTENT_UNKNOWN ∨
    fullNames c = bytes "air" ∧ c = CONTENT_AIR ∨
    fullNames c = bytes "ignore" ∧ c = CONTENT_IGNORE ∨
    fullNames c = 110 :: decimal c.toNat := by
  unfold fullNames
  split_ifs <;> simp [*]

theorem fullNames_ne_nil (c : Content) : fullNames c ≠ [] := by
  obtain ⟨h, -⟩ | ⟨h, -⟩ | ⟨h, -⟩ | h := fullNames_cases c <;> rw [h]
  · decide
  · decide
  · decide
  · exact List.cons_ne_nil _ _

theorem wellFormed_fullTable : fullTable.WellFormed :=
  wellFormed_tableOf (fun c _ => fullNames_ne_nil c) (fullNames_ne_nil _) rfl
    (List.mem_map.mpr ⟨127, List.mem_range.mpr (by decide), rfl⟩)

def NodeDefManager.Injective (t : NodeDefManager) : Prop :=
  ∀ c c', t.names c ≠ [] → t.names c = t.names c' → c = c'

theorem injective_stoneTable : stoneTable.Injective := by
  intro c c' hne h
  change stoneNames c ≠ [] at hne
  change stoneNames c = stoneNames c' at h
  unfold stoneNames at hne h
  split_ifs at hne h with h1 h2 h3 h4 h5 h6 h7 h8 <;> first | exact absurd h (by decide) | simp_all

theorem injective_fullTable : fullTable.Injective := by
  intro c c' _ h
  change fullNames c = fullNames c' at h
  obtain ⟨h1, rfl⟩ | ⟨h1, rfl⟩ | ⟨h1, rfl⟩ | h1 := fullNames_cases c <;>
    obtain ⟨h2, rfl⟩ | ⟨h2, rfl⟩ | ⟨h2, rfl⟩ | h2 := fullNames_cases c' <;> try rfl
  all_goals rw [h1, h2] at h
  any_goals (refine absurd h ?_; simp [bytes]; done)
  have hdigits := congrArg digitsValue (List.cons.inj h).2
  rw [digitsValue_decimal, digitsValue_decimal] at hdigits
  exact UInt16.toNat_inj.mp hdigits

theorem unknown_fullTable : fullTable.Unknown (bytes "stone") := by
  have hnone : (((List.range 65536).map UInt16.ofNat).find? fun c =>
      decide (fullNames c = bytes "stone")) = none := by
    refine List.find?_eq_none.mpr fun c _ => ?_
    obtain ⟨h, -⟩ | ⟨h, -⟩ | ⟨h, -⟩ | h := fullNames_cases c <;> rw [h] <;> simp [bytes]
  exact unknown_tableOf hnone

theorem not_room_fullTable : ¬fullTable.Room {bytes "stone"} := by
  have hfree : fullTable.freeIds = ∅ := Finset.eq_empty_iff_forall_notMem.mpr fun i hi =>
    fullNames_ne_nil _ (NodeDefManager.mem_freeIds.mp hi).2.2
  rw [NodeDefManager.Room, Finset.filter_singleton, if_pos unknown_fullTable,
    Finset.card_singleton, hfree]
  decide

/-- A table without a free id does not load a block with a name it does not know. -/
theorem not_migrates : ¬ ∀ (S : Sections) (cz : Compression) (mp : Msgpack)
    (order : HashOrder Content ByteString) (t1 t2 : NodeDefManager) (b left old : MapBlock S)
    (level : ℤ) (blob : ByteString) (deSerializeOld : UInt8 → Bool → MapBlock S →
      NodeDefManager → IStream → Except LoadError (MapBlock S × NodeDefManager))
    (m : S.Metadata) (o : S.Objects) (tm : S.Timers),
    cz.Lawful → mp.Lawful b.lightPoints → t1.WellFormed → t2.WellFormed → t1.Injective →
    t2.Injective → b.Fits cz mp order t1 29 true level → b.PartsRead old 29 true m o tm →
    saveBlock cz mp order t1 b level = .ok (some blob, left) →
    ∃ b' t', deSerializeBlock cz mp deSerializeOld false t2 old { rest := blob } =
      .ok (true, b', t') ∧
      List.Forall₂ (fun n m => t'.getName m.param0 = t1.getName n.param0 ∧ SameParams n m)
        b.nodes b'.nodes := by
  intro h
  obtain ⟨blob, hsave⟩ := saveBlock_stone (HashOrder.any Content ByteString) 0
  obtain ⟨b', t', hload, -⟩ := h noSections storedOnly noPackets (HashOrder.any _ _) stoneTable
    fullTable stoneBlock stoneBlock stoneBlock 0 blob noOldFormat () () () lawful_storedOnly
    ⟨by decide, rfl⟩ wellFormed_stoneTable wellFormed_fullTable injective_stoneTable
    injective_fullTable (fits_stone _ 0) partsRead_stone hsave
  obtain ⟨-, hroom, -⟩ := migrated_of_load noOldFormat false stoneBlock lawful_storedOnly
    (by decide) wellFormed_fullTable (fits_stone _ 0) hsave hload
  rw [blockNames_stone] at hroom
  exact not_room_fullTable hroom

end Freeminer.Block
