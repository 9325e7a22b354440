import Freeminer.Inventory.ItemStackMetadata

/-! The text of an `ItemStack` (`inventory.cpp`): up to four parts, and the words that name an
item in texts of old versions. -/

namespace Freeminer.Inventory

open Lib

/-- Variables that a failed `>>` may leave as they were, uninitialised. -/
structure Uninit where
  material : UInt16
  materialcount : UInt16
  listsize : UInt32

/-- `content_mapnode_get_name_id_mapping` -/
def legacyNames : List (ℕ × String) :=
  [(0, "default:stone"), (2, "default:water_flowing"), (3, "default:torch"),
   (9, "default:water_source"), (14, "default:sign_wall"), (15, "default:chest"),
   (16, "default:furnace"), (17, "default:chest_locked"), (21, "default:fence_wood"),
   (30, "default:rail"), (31, "default:ladder"), (32, "default:lava_flowing"),
   (33, "default:lava_source"), (0x800, "default:dirt_with_grass"), (0x801, "default:tree"),
   (0x802, "default:leaves"), (0x803, "default:dirt_with_grass_footsteps"),
   (0x804, "default:mese"), (0x805, "default:dirt"), (0x806, "default:cloud"),
   (0x807, "default:coalstone"), (0x808, "default:wood"), (0x809, "default:sand"),
   (0x80a, "default:cobble"), (0x80b, "default:steelblock"), (0x80c, "default:glass"),
   (0x80d, "default:mossycobble"), (0x80e, "default:gravel"), (0x80f, "default:sandstone"),
   (0x810, "default:cactus"), (0x811, "default:brick"), (0x812, "default:clay"),
   (0x813, "default:papyrus"), (0x814, "default:bookshelf"), (0x815, "default:jungletree"),
   (0x816, "default:junglegrass"), (0x817, "default:nyancat"),
   (0x818, "default:nyancat_rainbow"), (0x819, "default:apple"), (0x820, "default:sapling"),
   (127, "ignore"), (126, "air")]

/-- `trans_table_19`, the old number first. -/
def transTable19 : List (ℕ × ℕ) :=
  [(1, 0x800), (4, 0x801), (5, 0x802), (6, 0x803), (7, 0x804), (8, 0x805), (10, 0x806),
   (11, 0x807), (12, 0x808), (13, 0x809), (18, 0x80a), (19, 0x80b), (20, 0x80c), (22, 0x80d),
   (23, 0x80e), (24, 0x80f), (25, 0x810), (26, 0x811), (27, 0x812), (28, 0x813), (29, 0x814)]

def contentTranslateFrom19ToInternal (c : ℕ) : ℕ := (transTable19.lookup c).getD c

namespace ItemStack

def serialize (order : MetadataOrder) (s : ItemStack) (serializeMeta : Bool) : ByteString :=
  if s.empty then []
  else
    let parts := if s.metadata ≠ ∅ then 4 else if s.wear ≠ 0 then 3 else if s.count ≠ 1 then 2 else 1
    serializeJsonStringIfNeeded s.name ++
      (if 2 ≤ parts then 32 :: decimal s.count.toNat else []) ++
      (if 3 ≤ parts then 32 :: decimal s.wear.toNat else []) ++
      (if 4 ≤ parts then
        32 :: (if serializeMeta then s.metadata.serialize order
          else bytes "<metadata size=" ++ decimal s.metadata.keys.card ++ bytes ">")
        else [])

def applyAlias (idef : Option ItemDefManager) (name : ByteString) : ByteString :=
  (idef.map fun idef => idef.getAlias name).getD name

def isTool (idef : Option ItemDefManager) (name : ByteString) : Bool :=
  (idef.map fun idef => decide ((idef.get name).type = .tool)).getD false

/-- "MaterialItem" and "MaterialItem2": a number of the old node table. -/
def readMaterial (u : Uninit) (idef : Option ItemDefManager) (translate : Bool) (is : IStream) :
    Except LoadError ItemStack :=
  let (material, is) := is.readUnsigned 16 u.material.toNat
  let (materialcount, _) := is.readUnsigned 16 u.materialcount.toNat
  let material :=
    if translate ∧ material ≤ 0xff then contentTranslateFrom19ToInternal material else material
  if 0xfff < material then .error (.serialization (bytes "Too large material number"))
  else
    let name := bytes ((legacyNames.lookup material).getD "unknown_block")
    .ok { name := applyAlias idef name, count := UInt16.ofNat materialcount }

/-- `Strfnd::skip_over` for one character, which does not skip to the end. -/
def skipOver (c : UInt8) (s : ByteString) : ByteString :=
  if s.all (· == c) then s else s.dropWhile (· == c)

/-- The rest of an old node or tool line: a name, in quotes or up to a blank, and a number. -/
def readNameAndNumber (idef : Option ItemDefManager) (is : IStream) : ByteString × ℤ :=
  let all := (is.getline 10).1
  let quoted := (strfndNext 34 all).2
  let (name, s) := if quoted ≠ [] then strfndNext 34 quoted else strfndNext 32 all
  (applyAlias idef name, stoi (trim (skipOver 32 s)))

def readNode (idef : Option ItemDefManager) (is : IStream) : ItemStack :=
  let (name, n) := readNameAndNumber idef is
  { name, count := if UInt16.ofInt n = 0 then 1 else UInt16.ofInt n }

def readTool (idef : Option ItemDefManager) (is : IStream) : ItemStack :=
  let (name, n) := readNameAndNumber idef is
  { name, count := 1, wear := UInt16.ofInt n }

def readParts (json : Json) (idef : Option ItemDefManager) (name : ByteString) (is : IStream) :
    Except LoadError ItemStack :=
  let name := applyAlias idef name
  let (countStr, is) := is.getline 32
  if countStr = [] then .ok { name, count := 1 }
  else
    let count := UInt16.ofInt (stoi countStr)
    let (wearStr, is) := is.getline 32
    if wearStr = [] then .ok { name, count }
    else do
      let (metadata, _) ← Metadata.deSerialize json is
      pure { name, count, wear := UInt16.ofInt (stoi wearStr), metadata }

def nodeWords : List ByteString :=
  ["node", "NodeItem", "MaterialItem3", "craft", "CraftItem"].map bytes

def toolWords : List ByteString := ["tool", "ToolItem"].map bytes

def finish (idef : Option ItemDefManager) (s : ItemStack) : ItemStack :=
  if s.name = [] ∨ s.count = 0 then {}
  else if isTool idef s.name then { s with count := 1 }
  else s

def deSerialize (u : Uninit) (json : Json) (idef : Option ItemDefManager) (is : IStream) :
    Except LoadError ItemStack := do
  let (name, is) ← deSerializeJsonStringIfNeeded is
  let (tmp, is) := is.getline 32
  let s ←
    if tmp ≠ [] then .error (.serialization (bytes "Unexpected text after item name"))
    else if name = bytes "MaterialItem" then readMaterial u idef true is
    else if name = bytes "MaterialItem2" then readMaterial u idef false is
    else if name ∈ nodeWords then .ok (readNode idef is)
    else if name = bytes "MBOItem" then
      .error (.serialization (bytes "MBOItem not supported anymore"))
    else if name ∈ toolWords then .ok (readTool idef is)
    else readParts json idef name is
  pure (finish idef s)

/-! ## Round trip -/

/-- Words that do not stand for themselves at the start of an item text. -/
def obsoleteWords : List ByteString :=
  bytes "MaterialItem" :: bytes "MaterialItem2" :: bytes "MBOItem" :: (nodeWords ++ toolWords)

variable {u : Uninit} {json : Json} {idef : Option ItemDefManager} {order : MetadataOrder}
  {s : ItemStack}

theorem getline_of_rest {is : IStream} (h : is.rest = []) (c : UInt8) :
    (is.getline c).1 = [] ∧ (is.getline c).2.rest = [] := by
  unfold IStream.getline
  split_ifs
  · simp [h, cut]
  · exact ⟨rfl, h⟩

theorem ofInt_stoi_decimal (n : UInt16) : UInt16.ofInt (stoi (decimal n.toNat)) = n := by
  have hn := n.toNat_lt
  rw [stoi_decimal (by omega)]
  simp only [UInt16.ofInt]
  norm_cast
  rw [Nat.mod_eq_of_lt hn]
  exact UInt16.ofNat_toNat

theorem readParts_end {is : IStream} (name : ByteString) (h : is.rest = []) :
    readParts json idef name is = .ok { name := applyAlias idef name, count := 1 } := by
  unfold readParts
  simp only [(getline_of_rest h 32).1, if_pos]

theorem readParts_count (name : ByteString) (count : UInt16) :
    readParts json idef name { rest := decimal count.toNat } =
      .ok { name := applyAlias idef name, count } := by
  unfold readParts
  rw [IStream.getline_end (notMem_decimal rfl _)]
  simp only [if_neg (decimal_ne_nil _), ofInt_stoi_decimal]
  rw [if_pos (getline_of_rest rfl 32).1]

theorem readParts_wear (name : ByteString) (count wear : UInt16) :
    readParts json idef name { rest := decimal count.toNat ++ 32 :: decimal wear.toNat } =
      .ok { name := applyAlias idef name, count, wear } := by
  unfold readParts
  rw [IStream.getline_delim (notMem_decimal rfl _)]
  simp only [if_neg (decimal_ne_nil _), ofInt_stoi_decimal]
  rw [IStream.getline_end (notMem_decimal rfl _)]
  simp only [if_neg (decimal_ne_nil _), ofInt_stoi_decimal]
  obtain ⟨is', h⟩ := Metadata.deSerialize_of_rest json
    (show IStream.rest ⟨[], true, (decimal wear.toNat).isEmpty⟩ = [] from rfl)
  rw [h]
  rfl

theorem readParts_metadata (order : MetadataOrder) (name : ByteString) (count wear : UInt16)
    (m : Metadata) :
    readParts json idef name { rest := decimal count.toNat ++ 32 ::
        (decimal wear.toNat ++ 32 :: m.serialize order) } =
      (Metadata.updateOverrides json (m.readBack order)).map fun _ =>
        { name := applyAlias idef name, count, wear, metadata := m.readBack order } := by
  unfold readParts
  rw [IStream.getline_delim (notMem_decimal rfl _)]
  simp only [if_neg (decimal_ne_nil _), ofInt_stoi_decimal]
  rw [IStream.getline_delim (notMem_decimal rfl _)]
  simp only [if_neg (decimal_ne_nil _), ofInt_stoi_decimal]
  obtain ⟨is', h⟩ := Metadata.deSerialize_end order json m
  rw [h]
  cases Metadata.updateOverrides json (m.readBack order) <;> rfl

theorem deSerialize_of_name {is is' : IStream} {name : ByteString}
    (h : deSerializeJsonStringIfNeeded is = .ok (name, is')) (htmp : (is'.getline 32).1 = [])
    (hname : name ∉ obsoleteWords) :
    deSerialize u json idef is =
      (readParts json idef name (is'.getline 32).2).map (finish idef) := by
  simp only [obsoleteWords, List.mem_cons, List.mem_append, not_or] at hname
  obtain ⟨h1, h2, h3, h4, h5⟩ := hname
  unfold deSerialize
  rw [h]
  simp only [bind, Except.bind, htmp, h1, h2, h3, h4, h5, ne_eq, not_true_eq_false, if_false]
  cases readParts json idef name (is'.getline 32).2 <;> rfl

variable (u json idef) in
theorem deSerialize_blank (name rest : ByteString) (hname : name ∉ obsoleteWords) :
    deSerialize u json idef { rest := serializeJsonStringIfNeeded name ++ 32 :: rest } =
      (readParts json idef name { rest }).map (finish idef) := by
  have hblank : IStream.getline { rest := 32 :: rest } 32 = ([], { rest }) :=
    IStream.getline_delim List.not_mem_nil rest
  rw [deSerialize_of_name (deSerializeJsonStringIfNeeded_blank name rest) (by rw [hblank]) hname,
    hblank]

/-- The text of a stack is read as the stack with its alias and the metadata that come back. -/
theorem deSerialize_serialize (order : MetadataOrder) (hcount : s.count ≠ 0)
    (hname : s.name ∉ obsoleteWords) :
    deSerialize u json idef { rest := s.serialize order true } =
      (Metadata.updateOverrides json (s.metadata.readBack order)).map fun _ =>
        finish idef { s with
          name := applyAlias idef s.name, metadata := s.metadata.readBack order } := by
  have hempty : s.empty = false := by simpa [empty] using hcount
  obtain ⟨name, count, wear, metadata⟩ := s
  unfold serialize
  simp only [hempty, Bool.false_eq_true, if_false]
  by_cases hm : metadata = ∅
  · subst hm
    simp only [Metadata.readBack_empty, Metadata.updateOverrides_empty, Except.map]
    by_cases hw : wear = 0
    · subst hw
      by_cases hc : count = 1
      · subst hc
        obtain ⟨is, h, hrest⟩ := deSerializeJsonStringIfNeeded_end name
        have hget := getline_of_rest hrest 32
        simpa [Except.map] using (deSerialize_of_name h hget.1 hname).trans
          (congrArg _ (readParts_end name hget.2))
      · simpa [hc, readParts_count, Except.map] using deSerialize_blank u json idef name (decimal count.toNat) hname
    · simpa [hw, readParts_wear, Except.map] using deSerialize_blank u json idef name
        (decimal count.toNat ++ 32 :: decimal wear.toNat) hname
  · have h := deSerialize_blank u json idef name (decimal count.toNat ++
      32 :: (decimal wear.toNat ++ 32 :: metadata.serialize order)) hname
    rw [readParts_metadata] at h
    cases hover : Metadata.updateOverrides json (metadata.readBack order) <;>
      simpa [hm, hover, Except.map] using h

/-- A stack as the item code builds it under an item definition manager. -/
def Stored (json : Json) (idef : Option ItemDefManager) (s : ItemStack) : Prop :=
  s = {} ∨
  s.count ≠ 0 ∧ s.name ≠ [] ∧ applyAlias idef s.name = s.name ∧
    (isTool idef s.name = true → s.count = 1) ∧ s.metadata.Framed ∧
    Metadata.updateOverrides json s.metadata = .ok ()

theorem finish_eq_iff {t : ItemStack} (hcount : s.count ≠ 0) (ht : t.count = s.count) :
    finish idef t = s ↔
      t = s ∧ s.name ≠ [] ∧ (isTool idef s.name = true → s.count = 1) := by
  unfold finish
  split_ifs with hclear htool
  · constructor
    · rintro rfl
      exact absurd rfl hcount
    · rintro ⟨rfl, hname, -⟩
      rcases hclear with h | h
      · exact absurd h hname
      · exact absurd h hcount
  · rw [not_or] at hclear
    constructor
    · rintro rfl
      have ht : t.count = 1 := ht
      exact ⟨by cases t; simp_all, hclear.1, fun _ => rfl⟩
    · rintro ⟨rfl, -, h⟩
      have := h htool
      cases t
      simp_all
  · rw [not_or] at hclear
    constructor
    · rintro rfl
      exact ⟨rfl, hclear.1, fun h => absurd h htool⟩
    · exact fun h => h.1

/-- A stack that is not empty is read back exactly where it is stored as the item code does. -/
theorem deSerialize_serialize_iff (order : MetadataOrder) (hcount : s.count ≠ 0)
    (hname : s.name ∉ obsoleteWords) :
    deSerialize u json idef { rest := s.serialize order true } = .ok s ↔ Stored json idef s := by
  have hne : s ≠ {} := by
    rintro rfl
    exact hcount rfl
  rw [deSerialize_serialize order hcount hname]
  simp only [Stored, hne, false_or]
  constructor
  · intro h
    cases hover : Metadata.updateOverrides json (s.metadata.readBack order) with
    | error e =>
      rw [hover] at h
      exact absurd h (by simp [Except.map])
    | ok v =>
      rw [hover] at h
      simp only [Except.map, Except.ok.injEq] at h
      obtain ⟨heq, h1, h2⟩ := (finish_eq_iff hcount (by rfl)).mp h
      have hmeta : s.metadata.readBack order = s.metadata := congrArg metadata heq
      exact ⟨hcount, h1, congrArg name heq, h2, (Metadata.readBack_eq_iff order).mp hmeta,
        hmeta ▸ hover⟩
  · rintro ⟨-, h1, h2, h3, h4, h5⟩
    have hmeta := (Metadata.readBack_eq_iff order).mpr h4
    rw [hmeta, h5]
    simp only [Except.map, h2]
    exact congrArg Except.ok ((finish_eq_iff hcount rfl).mpr ⟨rfl, h1, h3⟩)

end ItemStack

end Freeminer.Inventory
