import Freeminer.Block.Migration
import Freeminer.Block.StaticObject

/-! Blocks with node metadata, node timers and static objects: what `deSerialize` gives back of what
`serialize` wrote, and what the format does not hold. -/

namespace Freeminer.Block

open Lib Inventory

structure BlockEnv where
  fl : Floats
  uninit : Uninit
  json : Json
  idef : Option ItemDefManager
  metadataOrders : MetadataOrders
  objectOrder : HashOrder UInt16 (StaticObject fl)
  /-- Positions in other versions of the static objects. -/
  readV3O : IStream → Except LoadError (ObjectPos fl × IStream)

namespace BlockEnv

variable (env : BlockEnv)

def metadataCodec : Codec NodeMetadataList where
  serialize version disk l := do
    let text ← l.serialize env.metadataOrders version disk
    pure (text, l)
  deSerialize _ _ is :=
    let (l, r) := NodeMetadataList.deSerialize env.uninit env.json env.idef is
    r.map fun is => (l, is)

def objectsCodec : Codec (StaticObjectList env.fl) where
  serialize _ _ l := do
    let text ← l.serialize env.objectOrder
    pure (text, l.withoutExcessive env.objectOrder)
  deSerialize _ old is := old.deSerialize env.readV3O is

def timersCodec : Codec (NodeTimerList env.fl) where
  serialize version _ l := do
    let text ← l.serialize version
    pure (text, l)
  deSerialize version old is := old.deSerialize version is

def sections : Sections where
  Metadata := NodeMetadataList
  Objects := StaticObjectList env.fl
  Timers := NodeTimerList env.fl
  metadata := env.metadataCodec
  objects := env.objectsCodec
  timers := env.timersCodec
  metadataLeft _ is := (NodeMetadataList.deSerialize env.uninit env.json env.idef is).1

variable {env} {version : UInt8}

theorem metadata_reads (version : UInt8) (disk : Bool) {l : NodeMetadataList}
    (hl : l.Storable env.json env.idef) (old : NodeMetadataList) :
    env.metadataCodec.Reads version disk l old (l.reread env.metadataOrders version disk) := by
  intro text left h rest
  obtain ⟨text', htext, heq⟩ := bind_eq_ok.mp h
  cases heq
  have hread := NodeMetadataList.deSerialize_append (u := env.uninit) hl htext rest
  simp only [metadataCodec, hread]
  rfl

theorem objects_reads {l : StaticObjectList env.fl} (hl : l.Storable env.objectOrder)
    (old : StaticObjectList env.fl) :
    env.objectsCodec.Reads version true l old (l.reread env.objectOrder old) := by
  intro text left h rest
  obtain ⟨text', htext, heq⟩ := bind_eq_ok.mp h
  cases heq
  exact StaticObjectList.deSerialize_append hl htext rest

theorem timers_reads {l : NodeTimerList env.fl} (hl : l.Storable) (hv : ¬version < 24)
    (old : NodeTimerList env.fl) :
    env.timersCodec.Reads version true l old (l.reread old) := by
  intro text left h rest
  obtain ⟨text', htext, heq⟩ := bind_eq_ok.mp h
  cases heq
  exact NodeTimerList.deSerialize_append hl hv htext rest

end BlockEnv

def NodeDefManager.SelfNamed (t : NodeDefManager) : Prop :=
  ∀ c, t.names c ≠ [] → ∃ i, t.getId (t.names c) = some i ∧ t.names i = t.names c

/-- Metadata that is not empty is kept where it is, without what the format leaves out. -/
structure MetadataKept (l l' : NodeMetadataList) (version : UInt8) (disk : Bool) : Prop where
  kept : ∀ p x, l.lookup p = some x → x.empty = false → ∃ y, l'.lookup p = some y ∧
    x.Kept y (NodeMetadataList.formatVersion version) disk
  only : ∀ p, p ∈ l' → ∃ x, l.lookup p = some x ∧ x.empty = false

/-- Each timer is kept with its timeout and what has elapsed of it in thousandths, but for those
whose timeout is less than that. -/
def TimersKept {fl : Floats} (l l' : NodeTimerList fl) : Prop :=
  ∀ p, l'.find p = (l.find p).bind fun e =>
    if fl.nonPos (fl.reread e.2.timeout) then none else some (l'.entry (l.current e).reread)

namespace MapBlock

variable {env : BlockEnv}

structure Restored (t t' : NodeDefManager) (b old b' : MapBlock env.sections) (version : UInt8)
    (disk : Bool) : Prop where
  nodes : List.Forall₂ (fun n m => t'.getName m.param0 = t.getName n.param0 ∧ SameParams n m)
    b.nodes b'.nodes
  isUnderground : b'.isUnderground = b.isUnderground
  generated : b'.generated = b.generated
  lightingComplete : b'.lightingComplete = if version < 27 then 0xFFFF else b.lightingComplete
  lightPoints : b'.lightPoints = b.lightPointsRead old
  metadata : MetadataKept b.metadata b'.metadata version disk
  objects : disk = true → b'.objects = StaticObjectList.reread env.objectOrder b.objects old.objects
  timers : disk = true → @TimersKept env.fl b.timers b'.timers
  timestamp : disk = true → b'.timestamp = b.timestamp

/-- A block whose parts are read back, and fit into the format. -/
structure Storable (cz : Compression) (mp : Msgpack) (order : HashOrder Content ByteString)
    (t : NodeDefManager) (b : MapBlock env.sections) (version : UInt8) (disk : Bool) (level : ℤ) :
    Prop where
  generated : b.generated = true
  lightPoints : b.lightPoints = ∅ ∨ 29 ≤ version
  fits : Fits cz mp order t b version disk level
  metadata : NodeMetadataList.Storable env.json env.idef b.metadata
  objects : disk = true → StaticObjectList.Storable env.objectOrder b.objects
  timers : disk = true → @NodeTimerList.Storable env.fl b.timers

end MapBlock

theorem metadataKept_reread (orders : MetadataOrders) (l : NodeMetadataList) (version : UInt8)
    (disk : Bool) : MetadataKept l (l.reread orders version disk) version disk := by
  refine ⟨fun p x hx hempty => ?_, fun p hp => ?_⟩
  · refine ⟨_, ?_, NodeMetadata.kept_reread (orders.vars p) x _ disk⟩
    rw [NodeMetadataList.lookup_reread, hx, Option.bind_some, if_neg (by simp [hempty])]
  · obtain ⟨y, hy⟩ := Finmap.mem_iff.mp hp
    rw [NodeMetadataList.lookup_reread, Option.bind_eq_some_iff] at hy
    obtain ⟨x, hx, h⟩ := hy
    split_ifs at h with hempty
    exact ⟨x, hx, by simpa using hempty⟩

theorem timersKept_reread {fl : Floats} {l : NodeTimerList fl} (hl : l.Storable)
    (old : NodeTimerList fl) : TimersKept l (l.reread old) := by
  have htime : ∀ (todo : List (fl.F64 × NodeTimer fl)) (done : NodeTimerList fl),
      (todo.foldl l.put done).time = done.time := by
    intro todo
    induction todo with
    | nil => exact fun _ => rfl
    | cons e todo ih =>
      intro done
      rw [List.foldl_cons, ih, NodeTimerList.put]
      split_ifs <;> rfl
  intro p
  have hentry : ∀ t, (l.reread old).entry t = old.entry t := by
    intro t
    rw [NodeTimerList.entry, NodeTimerList.entry, NodeTimerList.reread, htime]
  rw [NodeTimerList.find_reread hl]
  simp only [hentry]

/-- The names of a block are known to the table that they are from. -/
theorem room_blockNames {S : Sections} {t : NodeDefManager} (ht : t.SelfNamed)
    (hunknown : t.names CONTENT_UNKNOWN ≠ []) (b : MapBlock S) : t.Room (blockNames t b) := by
  have hknown : (blockNames t b).filter t.Unknown = ∅ := by
    refine Finset.filter_eq_empty_iff.mpr fun name hname hu => ?_
    obtain ⟨n, -, rfl⟩ := List.mem_map.mp (List.mem_toFinset.mp hname)
    unfold NodeDefManager.getName at hu
    split_ifs at hu with h
    · obtain ⟨i, hi, -⟩ := ht _ hunknown
      rw [hu.1] at hi
      cases hi
    · obtain ⟨i, hi, -⟩ := ht _ h
      rw [hu.1] at hi
      cases hi
  rw [NodeDefManager.Room, hknown]
  exact Nat.zero_le _

theorem canonical_getName {t : NodeDefManager} (ht : t.SelfNamed)
    (hunknown : t.names CONTENT_UNKNOWN ≠ []) (c : Content) :
    t.canonical (t.getName c) = t.getName c := by
  unfold NodeDefManager.getName
  split_ifs with h
  · obtain ⟨i, hi, heq⟩ := ht _ hunknown
    rw [NodeDefManager.canonical_of_getId hi, heq]
  · obtain ⟨i, hi, heq⟩ := ht _ h
    rw [NodeDefManager.canonical_of_getId hi, heq]

namespace MapBlock

variable {env : BlockEnv} {cz : Compression} {mp : Msgpack} {order : HashOrder Content ByteString}
  {t : NodeDefManager} {b left : MapBlock env.sections} {version : UInt8} {disk : Bool} {level : ℤ}
  {data : ByteString}

/-- The correction of ids leaves all but the nodes and what is known of air. -/
theorem corrected_eq {S : Sections} (b : MapBlock S) (nimap : NameIdMapping)
    {nodes : List MapNode} (hlen : nodes.length = nodecount) :
    ∃ data isAir, b.corrected nimap nodes = { b with data, isAir } ∧ data.nodes = nodes := by
  unfold corrected
  split_ifs
  · exact ⟨_, _, rfl, by rw [NodeData.nodes_tryShrink, NodeData.nodes_ofList hlen]⟩
  · exact ⟨_, b.isAir, rfl, NodeData.nodes_ofList hlen⟩

/-- The parts are no more than the start, the bits of the flags and the parts themselves. -/
theorem length_text_le {S : Sections} {b left : MapBlock S}
    (p : Parts cz mp order t b left version disk level) :
    p.text.length ≤ 3 + p.ids.length + p.nodes.length + p.metadata.length + p.diskData.length +
      p.light.length := by
  simp only [Parts.text, List.length_append, List.length_cons]
  split_ifs <;> simp only [length_writeU16, List.length_nil] <;> omega

theorem serializeBody_of_parts {S : Sections} {b left : MapBlock S}
    (p : Parts cz mp order t b left version disk level) :
    serializeBody cz mp order t b version disk level = .ok (p.text, left) := by
  unfold serializeBody
  rw [p.ids_eq, p.nodes_eq, p.metadata_eq, p.disk_eq, p.light_eq]
  rfl

theorem fits_of_parts {S : Sections} {b left : MapBlock S}
    (p : Parts cz mp order t b left 29 disk level) (hlen : p.text.length < 2 ^ 32) :
    Fits cz mp order t b 29 disk level := by
  refine ⟨fun text left h => ?_, fun text left h => ?_⟩
  · rw [serializeBody_of_parts p] at h
    cases h
    exact hlen
  · have htext : writeMetadata cz 29 disk level b.metadata = .ok text := by
      unfold writeMetadata
      rw [h]
      rfl
    rw [p.metadata_eq] at htext
    cases htext
    simp only [Parts.text, List.length_append] at hlen
    omega

end MapBlock

/-! ## A block with a chest -/

def thousandths : Floats where
  F32 := ℤ
  F64 := ℤ
  toF1000 x := UInt32.ofInt x
  ofF1000 i := i.toBitVec.toInt
  nonPos x := decide (x ≤ 0)
  sub x y := x - y
  widen x := x
  narrow x := x
  add64 x y := x + y
  sub64 x y := x - y
  lt64 x y := decide (x < y)
  clamp x := x
  beyond x := decide (31007 * 10 * 1000 < x)

noncomputable def anyOrders : MetadataOrders where
  pos := HashOrder.any _ _
  vars _ := HashOrder.any _ _
  items _ _ _ := HashOrder.any _ _

noncomputable def chestEnv : BlockEnv where
  fl := thousandths
  uninit := InventoryLists.anyUninit
  json := InventoryLists.anyJson
  idef := InventoryLists.anyItems
  metadataOrders := anyOrders
  objectOrder := HashOrder.any _ _
  readV3O _ := .error (.serialization [])

def owned : NodeMetadata where
  stringvars := (∅ : Finmap fun _ : ByteString => ByteString).insert (bytes "owner") (bytes "me")
  privatevars := {bytes "owner"}

def chestMetadata : NodeMetadataList :=
  (∅ : Finmap fun _ : NodePos => NodeMetadata).insert (1, 2, 3) owned

def cow : StaticObject thousandths where
  type := 7
  pos := ⟨(1500 : ℤ), (0 : ℤ), (-500 : ℤ)⟩
  data := bytes "cow"

def ticking : NodeTimerList thousandths where
  time := (10 : ℤ)
  timers := [((1010 : ℤ), ⟨(2000 : ℤ), (0 : ℤ), (1, 2, 3)⟩)]

noncomputable def chestBlock : MapBlock chestEnv.sections where
  isUnderground := true
  isAir := none
  lightingComplete := 0x0F0F
  generated := true
  timestamp := 0
  data := .mono { param0 := 1 }
  metadata := chestMetadata
  objects := ({ stored := [cow], active := ∅ } : StaticObjectList thousandths)
  timers := ticking
  lightPoints := ∅

theorem nonEmpty_chest : chestMetadata.nonEmpty anyOrders = [⟨(1, 2, 3), owned⟩] := by
  rw [NodeMetadataList.nonEmpty, chestMetadata, HashOrder.entries_singleton]
  rfl

theorem written_owned (order : MetadataOrder) :
    owned.written order true = [⟨bytes "owner", bytes "me"⟩] := by
  rw [NodeMetadata.written, owned, HashOrder.entries_singleton]
  rfl

def chestText : ByteString :=
  2 :: writeU16 1 ++ (writeU16 (posIndex (1, 2, 3)) ++
    (writeU32 1 ++ (writeU16 5 ++ bytes "owner" ++ (writeU32 2 ++ bytes "me") ++ [1] ++ []) ++
      bytes "EndInventory" ++ [10]) ++ [])

theorem serialize_chestMetadata :
    chestMetadata.serialize anyOrders 29 true = .ok chestText := by
  unfold NodeMetadataList.serialize
  rw [nonEmpty_chest]
  simp only [writeEntries, NodeMetadataList.writeEntry, NodeMetadata.serialize, written_owned]
  rfl

theorem written_cow :
    StaticObjectList.written chestEnv.objectOrder chestBlock.objects = [cow] := by
  have hempty : chestEnv.objectOrder.entries ∅ = [] :=
    (Multiset.coe_eq_zero _).mp (chestEnv.objectOrder.entries_eq ∅)
  unfold StaticObjectList.written
  rw [show StaticObjectList.active chestBlock.objects = ∅ from rfl, hempty]
  rfl

def chestDisk : ByteString :=
  0 :: writeU16 1 ++ (7 :: cow.pos.serialize ++ (writeU16 3 ++ bytes "cow") ++ []) ++ [] ++
    ((2 + 4 + 4) :: writeU16 1 ++ (writeU16 (posIndex (1, 2, 3)) ++
      (writeU32 2000 ++ writeU32 1000) ++ []))

theorem serialize_cow :
    StaticObjectList.serialize chestEnv.objectOrder chestBlock.objects =
      .ok (0 :: writeU16 1 ++ (7 :: cow.pos.serialize ++ (writeU16 3 ++ bytes "cow") ++ [])) := by
  unfold StaticObjectList.serialize
  rw [written_cow]
  rfl

theorem ownIds_chest : MapBlock.ownIds stoneTable chestBlock true =
    ([{ param0 := 0 }], NameIdMapping.set {} 0 (bytes "stone")) := by
  have hstone := ownIds_stone
  unfold MapBlock.ownIds at hstone ⊢
  exact hstone

/-- A block of one node is written as that many nodes. -/
theorem writeNodes_mono (level : ℤ) (n m : MapNode) :
    MapBlock.writeNodes storedOnly 29 level ((NodeData.mono n).bulk [m]) =
      .ok ([2, 2] ++ MapNode.serializeBulk (List.replicate nodecount m)) := by
  have hbulk : (NodeData.mono n).bulk [m] = List.replicate nodecount m := rfl
  rw [hbulk]
  generalize List.replicate nodecount m = nodes
  rfl

noncomputable def chestLeft : MapBlock chestEnv.sections :=
  { chestBlock with
    objects := StaticObjectList.withoutExcessive chestEnv.objectOrder chestBlock.objects }

noncomputable def chestParts (order : HashOrder Content ByteString) :
    MapBlock.Parts storedOnly noPackets order stoneTable chestBlock chestLeft 29 true 0 where
  ids := stoneIds
  nodes := [2, 2] ++ MapNode.serializeBulk (List.replicate nodecount { param0 := 0 })
  metadata := chestText
  diskData := chestDisk
  light := []
  ids_eq := by
    rw [ownIds_chest]
    exact writeIds_stone order
  nodes_eq := by
    rw [ownIds_chest]
    exact writeNodes_mono 0 _ _
  metadata_eq := by
    have htext : chestEnv.metadataCodec.serialize 29 true chestMetadata =
        .ok (chestText, chestMetadata) := by
      simp only [BlockEnv.metadataCodec]
      rw [show chestEnv.metadataOrders = anyOrders from rfl, serialize_chestMetadata]
      rfl
    unfold MapBlock.writeMetadata
    rw [show chestEnv.sections.metadata.serialize 29 true chestBlock.metadata = _ from htext]
    rfl
  disk_eq := by
    have htext : chestEnv.objectsCodec.serialize 29 true chestBlock.objects =
        .ok (0 :: writeU16 1 ++ (7 :: cow.pos.serialize ++ (writeU16 3 ++ bytes "cow") ++ []),
          StaticObjectList.withoutExcessive chestEnv.objectOrder chestBlock.objects) := by
      simp only [BlockEnv.objectsCodec]
      rw [serialize_cow]
      rfl
    unfold MapBlock.writeDisk
    rw [if_pos rfl,
      show chestEnv.sections.objects.serialize 29 true chestBlock.objects = _ from htext]
    rfl
  light_eq := rfl

theorem length_chestText (order : HashOrder Content ByteString) :
    (chestParts order).text.length < 2 ^ 32 := by
  have hle := MapBlock.length_text_le (chestParts order)
  have hids : (chestParts order).ids.length = 16 := rfl
  have hnodes : (chestParts order).nodes.length = 16386 := length_nodesText _
  have hmeta : (chestParts order).metadata.length = 36 := rfl
  have hdisk : (chestParts order).diskData.length = 34 := rfl
  have hlight : (chestParts order).light.length = 0 := rfl
  omega

theorem storable_chestMetadata : chestMetadata.Storable chestEnv.json chestEnv.idef := by
  refine ⟨fun p hp => ?_, fun p x hx => ?_⟩
  · rcases Finmap.mem_insert.mp hp with rfl | hp
    · decide
    · exact absurd hp Finmap.notMem_empty
  · by_cases hp : p = (1, 2, 3)
    · subst hp
      rw [chestMetadata, Finmap.lookup_insert] at hx
      cases hx
      exact ⟨by decide, ⟨List.nodup_nil, by decide, by decide⟩, by decide, by decide,
        fun l hl => absurd hl List.not_mem_nil⟩
    · rw [chestMetadata, Finmap.lookup_insert_of_ne _ hp] at hx
      cases hx

theorem storable_chest (order : HashOrder Content ByteString) :
    chestBlock.Storable storedOnly noPackets order stoneTable 29 true 0 where
  generated := rfl
  lightPoints := .inl rfl
  fits := MapBlock.fits_of_parts (chestParts order) (length_chestText order)
  metadata := storable_chestMetadata
  objects _ := by
    refine ⟨fun o ho => ?_, ?_⟩
    · rw [written_cow] at ho
      obtain rfl : o = cow := List.mem_singleton.mp ho
      exact ⟨by decide, by decide⟩
    · rw [written_cow]
      decide
  timers _ := ⟨by decide, by decide⟩

/-- What is written is what the parts make up, compressed. -/
theorem serialize_of_parts {S : Sections} {b left : MapBlock S} {t : NodeDefManager} {mp : Msgpack}
    {order : HashOrder Content ByteString} {disk : Bool} {level : ℤ}
    (p : MapBlock.Parts storedOnly mp order t b left 29 disk level) :
    ∃ data, MapBlock.serialize storedOnly mp order t b 29 disk level = .ok (data, left) := by
  obtain ⟨data, hdata⟩ : ∃ data, storedOnly.run 29 level p.text = .ok data := ⟨_, rfl⟩
  refine ⟨data, ?_⟩
  unfold MapBlock.serialize
  rw [if_neg (by decide), MapBlock.serializeBody_of_parts p]
  simp only [bind, Except.bind, hdata]
  rfl

theorem selfNamed_stoneTable : stoneTable.SelfNamed := by
  intro c hc
  change stoneNames c ≠ [] at hc
  unfold stoneNames at hc
  split_ifs at hc with h1 h2 h3 h4
  · exact h1 ▸ ⟨CONTENT_UNKNOWN, rfl, rfl⟩
  · exact h2 ▸ ⟨CONTENT_AIR, rfl, rfl⟩
  · exact h3 ▸ ⟨CONTENT_IGNORE, rfl, rfl⟩
  · exact h4 ▸ ⟨1, rfl, rfl⟩
  · exact absurd rfl hc

/-- `deSerialize` of old versions, for a block that is not in one. -/
def notOld {S : Sections} (_ : UInt8) (_ : Bool) (b : MapBlock S) (t : NodeDefManager)
    (_ : IStream) : Except LoadError (MapBlock S × NodeDefManager) := .ok (b, t)

def publicText : ByteString :=
  2 :: writeU16 1 ++ (writeU16 (posIndex (1, 2, 3)) ++
    (writeU32 0 ++ [] ++ bytes "EndInventory" ++ [10]) ++ [])

theorem written_public (order : MetadataOrder) : owned.written order false = [] := by
  rw [NodeMetadata.written, owned, HashOrder.entries_singleton]
  rfl

theorem countNonPrivate_owned (order : MetadataOrder) : owned.countNonPrivate order = 0 := by
  rw [NodeMetadata.countNonPrivate, owned, HashOrder.entries_singleton]
  rfl

noncomputable def publicParts (order : HashOrder Content ByteString) :
    MapBlock.Parts storedOnly noPackets order stoneTable chestBlock chestBlock 29 false 0 where
  ids := []
  nodes := [2, 2] ++ MapNode.serializeBulk (List.replicate nodecount { param0 := 1 })
  metadata := publicText
  diskData := []
  light := []
  ids_eq := rfl
  nodes_eq := writeNodes_mono 0 _ _
  metadata_eq := by
    have htext : chestEnv.metadataCodec.serialize 29 false chestMetadata =
        .ok (publicText, chestMetadata) := by
      simp only [BlockEnv.metadataCodec, NodeMetadataList.serialize]
      rw [show chestEnv.metadataOrders = anyOrders from rfl, nonEmpty_chest]
      simp only [writeEntries, NodeMetadataList.writeEntry, NodeMetadata.serialize, written_public,
        countNonPrivate_owned]
      rfl
    unfold MapBlock.writeMetadata
    rw [show chestEnv.sections.metadata.serialize 29 false chestBlock.metadata = _ from htext]
    rfl
  disk_eq := rfl
  light_eq := rfl

variable {fl : Floats} {readV3O : IStream → Except LoadError (ObjectPos fl × IStream)}
  {order : HashOrder UInt16 (StaticObject fl)}

namespace StaticObjectList

/-- The objects that `serialize` means to write: those without too much data, unless they are too
many. -/
def kept (order : HashOrder UInt16 (StaticObject fl)) (l : StaticObjectList fl) :
    List (StaticObject fl) :=
  if 65535 < (l.written order).length then [] else l.written order

def Framed (readV3O : IStream → Except LoadError (ObjectPos fl × IStream))
    (order : HashOrder UInt16 (StaticObject fl)) (l : StaticObjectList fl) : Prop :=
  ∃ text, l.serialize order = .ok text ∧ ∀ (old : StaticObjectList fl) (rest : ByteString),
    old.deSerialize readV3O { rest := text ++ rest } =
      .ok ({ old with stored := (l.kept order).map StaticObject.reread }, { rest })

variable {l old : StaticObjectList fl} {text objects : ByteString}

theorem length_le_of_mem_written {o : StaticObject fl} (h : o ∈ l.written order) :
    o.data.length ≤ 65535 := by
  rcases List.mem_append.mp h with h | h
  all_goals
    have hlen := (List.mem_filter.mp h).2
    rw [excessive, Bool.not_eq_true', decide_eq_false_iff_not] at hlen
    omega

theorem exists_writeEntries {os : List (StaticObject fl)}
    (h : ∀ o ∈ os, o.data.length ≤ 65535) :
    ∃ text, writeEntries StaticObject.serialize os = .ok text := by
  induction os with
  | nil => exact ⟨[], rfl⟩
  | cons o os ih =>
    rw [List.forall_mem_cons] at h
    obtain ⟨texts, htexts⟩ := ih h.2
    have hfirst : ∃ text, o.serialize = .ok text := by
      have hlen : ¬STRING_MAX_LEN < o.data.length := Nat.not_lt.mpr h.1
      unfold StaticObject.serialize serializeString16
      rw [if_neg hlen]
      split_ifs
      · exact ⟨[], rfl⟩
      · exact ⟨_, rfl⟩
    obtain ⟨text, htext⟩ := hfirst
    refine ⟨text ++ texts, ?_⟩
    rw [writeEntries, htext, htexts]
    rfl

theorem framed_of_inside (h : ∀ o ∈ l.kept order, o.Inside) : l.Framed readV3O order := by
  obtain ⟨objects, hobjects⟩ := exists_writeEntries fun o (ho : o ∈ l.written order) =>
    length_le_of_mem_written ho
  unfold kept at h
  unfold Framed kept
  by_cases hcount : 65535 < (l.written order).length
  · refine ⟨0 :: writeU16 0, ?_, fun old rest => ?_⟩
    · rw [serialize]
      simp only [hcount, if_true]
    · unfold deSerialize
      rw [if_pos hcount, List.cons_append, streamU8_append]
      simp only [bind, Except.bind, streamU16_append]
      rfl
  · rw [if_neg hcount] at h ⊢
    have hwrite : l.serialize order =
        .ok (0 :: writeU16 (UInt16.ofNat (l.written order).length) ++ objects) := by
      rw [serialize]
      simp only [hcount, if_false, hobjects]
      rfl
    exact ⟨_, hwrite, fun old rest => deSerialize_append ⟨h, Nat.not_lt.mp hcount⟩ hwrite rest⟩

noncomputable def herd : StaticObjectList thousandths where
  stored := [cow]
  active := (∅ : Finmap fun _ : UInt16 => StaticObject thousandths).insert 1 cow

theorem written_herd : herd.written (HashOrder.any _ _) = [cow, cow] := by
  rw [written, herd, HashOrder.entries_singleton]
  rfl

def RestoresAll : Prop :=
  ∀ (fl : Floats) (readV3O : IStream → Except LoadError (ObjectPos fl × IStream))
    (order : HashOrder UInt16 (StaticObject fl)) (l old : StaticObjectList fl)
    (text rest : ByteString), l.serialize order = .ok text →
    old.deSerialize readV3O { rest := text ++ rest } = .ok ({ old with
      stored := l.stored ++ (order.entries l.active).map Sigma.snd }, { rest })

def heavy : StaticObject thousandths := { cow with data := List.replicate 65536 0 }

end StaticObjectList

end Freeminer.Block
