import Mathlib.Data.Int.Interval
import Freeminer.Block.MapBlock
import Freeminer.Inventory.InventoryText

/-! `NodeMetadata` and `NodeMetadataList` (`nodemetadata.cpp`): their format, and what is read of
what was written. -/

namespace Freeminer.Block

open Lib Inventory ItemStack

structure NodeMetadata where
  stringvars : Finmap fun _ : ByteString => ByteString := ∅
  privatevars : Finset ByteString := ∅
  inventory : InventoryLists := []

namespace NodeMetadata

def empty (x : NodeMetadata) : Bool := decide (x.stringvars = ∅) && x.inventory.isEmpty

def isPrivate (x : NodeMetadata) (name : ByteString) : Bool := decide (name ∈ x.privatevars)

/-- The variables that are written: all of them, or those that are not private. -/
def written (order : MetadataOrder) (x : NodeMetadata) (disk : Bool) :
    List (Sigma fun _ : ByteString => ByteString) :=
  (order.entries x.stringvars).filter fun sv => disk || !x.isPrivate sv.1

def countNonPrivate (order : MetadataOrder) (x : NodeMetadata) : ℕ :=
  ((order.entries x.stringvars).filter fun sv => !x.isPrivate sv.1).length

def writeVar (x : NodeMetadata) (version : UInt8) (sv : Sigma fun _ : ByteString => ByteString) :
    Except LoadError ByteString := do
  let name ← serializeString16 sv.1
  let var ← serializeString32 sv.2
  pure (name ++ var ++ if 2 ≤ version then [if x.isPrivate sv.1 then 1 else 0] else [])

def serialize (order : MetadataOrder) (items : ℕ → ℕ → MetadataOrder) (x : NodeMetadata)
    (version : UInt8) (disk : Bool) : Except LoadError ByteString := do
  let numVars := if disk then x.stringvars.keys.card else x.countNonPrivate order
  let vars ← writeEntries (x.writeVar version) (x.written order disk)
  pure (writeU32 (UInt32.ofNat numVars) ++ vars ++ x.inventory.serialize items)

variable (u : Uninit) (json : Json) (idef : Option ItemDefManager)

def setVar (x : NodeMetadata) (name var : ByteString) (priv : Bool) : NodeMetadata :=
  { x with
    stringvars := x.stringvars.insert name var
    privatevars := if priv then insert name x.privatevars else x.privatevars }

def readVar (version : UInt8) (x : NodeMetadata) (is : IStream) :
    Except LoadError (Option NodeMetadata × IStream) := do
  let (name, is) ← deSerializeString16 is
  let (var, is) ← deSerializeString32 is
  let (priv, is) ← (if 2 ≤ version then streamU8 is else pure (0, is))
  pure (some (x.setVar name var (priv = 1)), is)

/-- `deSerialize` of metadata that it cleared. -/
def deSerialize (version : UInt8) (is : IStream) : Except LoadError (NodeMetadata × IStream) := do
  let (numVars, is) ← streamU32 is
  let (x, vars) := readEntries (readVar version) numVars.toNat {} is
  let is ← vars
  let (inventory, is) ← InventoryLists.deSerializeStream u json idef [] is
  pure ({ x with inventory }, is)

/-- Metadata whose text is read back: its inventory is as the item code builds it. -/
structure Storable (json : Json) (idef : Option ItemDefManager) (x : NodeMetadata) : Prop where
  vars : x.stringvars.keys.card < 2 ^ 32
  inventory : x.inventory.Valid
  line : ∀ l ∈ x.inventory, 10 ∉ l.name
  words : ∀ l ∈ x.inventory, ∀ s ∈ l.items, s.count ≠ 0 → s.name ∉ obsoleteWords
  stored : ∀ l ∈ x.inventory, ∀ s ∈ l.items, s.Stored json idef

def putVar (x : NodeMetadata) (version : UInt8) (y : NodeMetadata)
    (sv : Sigma fun _ : ByteString => ByteString) : NodeMetadata :=
  y.setVar sv.1 sv.2 (decide (2 ≤ version) && x.isPrivate sv.1)

def reread (order : MetadataOrder) (x : NodeMetadata) (version : UInt8) (disk : Bool) :
    NodeMetadata :=
  { (x.written order disk).foldl (x.putVar version) {} with inventory := x.inventory }

variable {u json idef} {order : MetadataOrder} {items : ℕ → ℕ → MetadataOrder}
  {x y : NodeMetadata} {version : UInt8} {disk : Bool} {text : ByteString}
  {sv : Sigma fun _ : ByteString => ByteString}

theorem readVar_append (h : x.writeVar version sv = .ok text) (y : NodeMetadata)
    (rest : ByteString) :
    readVar version y { rest := text ++ rest } = .ok (some (x.putVar version y sv), { rest }) := by
  obtain ⟨name, hname, h⟩ := bind_eq_ok.mp h
  obtain ⟨var, hvar, h⟩ := bind_eq_ok.mp h
  cases h
  unfold readVar putVar
  rw [List.append_assoc, List.append_assoc, deSerializeString16_append hname]
  simp only [bind, Except.bind, deSerializeString32_append hvar]
  by_cases hv : 2 ≤ version
  · simp only [hv, if_true, decide_true, Bool.true_and, List.singleton_append, streamU8_append]
    cases x.isPrivate sv.1 <;> rfl
  · simp only [hv, if_false, decide_false, Bool.false_and, List.nil_append]
    rfl

theorem length_written (order : MetadataOrder) (x : NodeMetadata) (disk : Bool) :
    (x.written order disk).length =
      if disk then x.stringvars.keys.card else x.countNonPrivate order := by
  cases disk with
  | true =>
    rw [if_pos rfl, ← order.length_entries x.stringvars]
    simp [written]
  | false => simp [written, countNonPrivate]

theorem length_written_le (order : MetadataOrder) (x : NodeMetadata) (disk : Bool) :
    (x.written order disk).length ≤ x.stringvars.keys.card := by
  rw [← order.length_entries x.stringvars]
  exact List.length_filter_le _ _

theorem deSerialize_append (hx : x.Storable json idef)
    (h : x.serialize order items version disk = .ok text) (rest : ByteString) :
    deSerialize u json idef version { rest := text ++ rest } =
      .ok (x.reread order version disk, { rest }) := by
  obtain ⟨vars, hvars, h⟩ := bind_eq_ok.mp h
  cases h
  have hnum : (UInt32.ofNat (if disk then x.stringvars.keys.card
      else x.countNonPrivate order)).toNat = (x.written order disk).length := by
    have := length_written_le order x disk
    have := hx.vars
    rw [← length_written, UInt32.toNat_ofNat']
    omega
  have hentries := readEntries_append (readVar version) (x.putVar version)
    (fun rest => ({ rest } : IStream)) (fun _ _ => True)
    (fun y sv _ text _ hw rest => readVar_append hw y rest) (fun _ _ _ h => h) hvars
    (s := {}) trivial (x.inventory.serialize items ++ rest)
  have hall := (InventoryLists.readAll_eq_iff (u := u) items x.inventory hx.words 0).mpr hx.stored
  have hinv := InventoryLists.deSerializeStream_append items hx.inventory hx.line hall rest
  unfold deSerialize
  rw [List.append_assoc, List.append_assoc, streamU32_append]
  simp only [bind, Except.bind, hnum, hentries, hinv]
  rfl

/-! ## What is kept -/

theorem stringvars_foldl (l : List (Sigma fun _ : ByteString => ByteString)) (y : NodeMetadata) :
    (l.foldl (x.putVar version) y).stringvars = insertAll l y.stringvars := by
  induction l generalizing y with
  | nil => rfl
  | cons sv l ih => exact ih _

theorem mem_privatevars_foldl (l : List (Sigma fun _ : ByteString => ByteString))
    (y : NodeMetadata) (name : ByteString) :
    name ∈ (l.foldl (x.putVar version) y).privatevars ↔ name ∈ y.privatevars ∨
      2 ≤ version ∧ name ∈ x.privatevars ∧ name ∈ l.map Sigma.fst := by
  induction l generalizing y with
  | nil => simp
  | cons sv l ih =>
    rw [List.foldl_cons, ih, putVar, setVar]
    by_cases hpriv : (decide (2 ≤ version) && x.isPrivate sv.1) = true
    · have hboth : 2 ≤ version ∧ sv.1 ∈ x.privatevars := by simpa [isPrivate] using hpriv
      rw [if_pos hpriv, Finset.mem_insert, List.map_cons, List.mem_cons]
      constructor
      · rintro ((rfl | h) | ⟨hv, hx, h⟩)
        · exact .inr ⟨hboth.1, hboth.2, .inl rfl⟩
        · exact .inl h
        · exact .inr ⟨hv, hx, .inr h⟩
      · rintro (h | ⟨hv, hx, rfl | h⟩)
        · exact .inl (.inr h)
        · exact .inl (.inl rfl)
        · exact .inr ⟨hv, hx, h⟩
    · have hnot : ¬(2 ≤ version ∧ sv.1 ∈ x.privatevars) := by simpa [isPrivate] using hpriv
      rw [if_neg hpriv, List.map_cons, List.mem_cons]
      constructor
      · rintro (h | ⟨hv, hx, h⟩)
        · exact .inl h
        · exact .inr ⟨hv, hx, .inr h⟩
      · rintro (h | ⟨hv, hx, rfl | h⟩)
        · exact .inl h
        · exact absurd ⟨hv, hx⟩ hnot
        · exact .inr ⟨hv, hx, h⟩

/-- What is kept of metadata: the variables, those that are private on disk only, and their marks
from version 2 on. -/
structure Kept (x y : NodeMetadata) (version : UInt8) (disk : Bool) : Prop where
  vars : ∀ name, y.stringvars.lookup name =
    if disk || !x.isPrivate name then x.stringvars.lookup name else none
  isPrivate : ∀ name, name ∈ y.stringvars →
    (y.isPrivate name = true ↔ 2 ≤ version ∧ x.isPrivate name = true)
  inventory : y.inventory = x.inventory

theorem lookup_reread (order : MetadataOrder) (x : NodeMetadata) (version : UInt8) (disk : Bool)
    (name : ByteString) : (x.reread order version disk).stringvars.lookup name =
      (x.written order disk).dlookup name := by
  have hnodup : (x.written order disk).NodupKeys :=
    (order.nodupKeys x.stringvars).sublist (List.filter_sublist)
  rw [reread, stringvars_foldl, lookup_insertAll hnodup, Finmap.lookup_empty, Option.or_none]

theorem dlookup_written (order : MetadataOrder) (x : NodeMetadata) (disk : Bool)
    (name : ByteString) : (x.written order disk).dlookup name =
      if disk || !x.isPrivate name then x.stringvars.lookup name else none := by
  have hnodup : (x.written order disk).NodupKeys :=
    (order.nodupKeys x.stringvars).sublist (List.filter_sublist)
  ext var
  rw [← Option.mem_def, List.mem_dlookup_iff hnodup, written, List.mem_filter, order.mem_entries]
  split_ifs with h
  · simp [h]
  · simp [h]

theorem kept_reread (order : MetadataOrder) (x : NodeMetadata) (version : UInt8) (disk : Bool) :
    Kept x (x.reread order version disk) version disk := by
  refine ⟨fun name => ?_, fun name hname => ?_, rfl⟩
  · rw [lookup_reread, dlookup_written]
  · have hmem : name ∈ (x.written order disk).map Sigma.fst := by
      obtain ⟨var, hvar⟩ := Finmap.mem_iff.mp hname
      rw [lookup_reread] at hvar
      exact List.mem_map.mpr ⟨⟨name, var⟩, List.of_mem_dlookup hvar, rfl⟩
    have hpriv : ((x.reread order version disk).isPrivate name = true) ↔
        name ∈ ((x.written order disk).foldl (x.putVar version) {}).privatevars := by
      rw [isPrivate, decide_eq_true_eq]
      rfl
    rw [hpriv, mem_privatevars_foldl]
    simp [isPrivate, hmem]

end NodeMetadata

/-- `v3pos_t` -/
abbrev NodePos := ℤ × ℤ × ℤ

def InBlock (p : NodePos) : Prop :=
  (0 ≤ p.1 ∧ p.1 < 16) ∧ (0 ≤ p.2.1 ∧ p.2.1 < 16) ∧ 0 ≤ p.2.2 ∧ p.2.2 < 16

instance (p : NodePos) : Decidable (InBlock p) := inferInstanceAs (Decidable (_ ∧ _))

def posIndex (p : NodePos) : UInt16 := UInt16.ofInt ((p.2.2 * 16 + p.2.1) * 16 + p.1)

def indexPos (i : UInt16) : NodePos :=
  ((i.toNat % 16 : ℕ), (i.toNat / 16 % 16 : ℕ), (i.toNat / 16 / 16 : ℕ))

theorem indexPos_posIndex {p : NodePos} (h : InBlock p) : indexPos (posIndex p) = p := by
  obtain ⟨x, y, z⟩ := p
  obtain ⟨⟨hx0, hx⟩, ⟨hy0, hy⟩, hz0, hz⟩ := h
  dsimp only at hx0 hx hy0 hy hz0 hz
  have hi : (posIndex (x, y, z)).toNat = ((z * 16 + y) * 16 + x).toNat := by
    rw [posIndex, UInt16.ofInt]
    simp
    omega
  unfold indexPos
  rw [hi]
  ext <;> dsimp only <;> omega

/-- There are no more than 4096 positions in a block. -/
theorem card_le_of_inBlock {s : Finset NodePos} (h : ∀ p ∈ s, InBlock p) : s.card ≤ 4096 := by
  have hsub : s ⊆ Finset.Ico 0 16 ×ˢ Finset.Ico 0 16 ×ˢ Finset.Ico 0 16 := by
    intro p hp
    obtain ⟨⟨hx0, hx⟩, ⟨hy0, hy⟩, hz0, hz⟩ := h p hp
    simp only [Finset.mem_product, Finset.mem_Ico]
    exact ⟨⟨hx0, hx⟩, ⟨hy0, hy⟩, hz0, hz⟩
  refine (Finset.card_le_card hsub).trans ?_
  rw [Finset.card_product, Finset.card_product]
  simp

/-- `NodeMetadataList` -/
abbrev NodeMetadataList := Finmap fun _ : NodePos => NodeMetadata

/-- The orders in which the maps are gone through. -/
structure MetadataOrders where
  pos : HashOrder NodePos NodeMetadata
  vars : NodePos → MetadataOrder
  items : NodePos → ℕ → ℕ → MetadataOrder

namespace NodeMetadataList

def nonEmpty (orders : MetadataOrders) (l : NodeMetadataList) :
    List (Sigma fun _ : NodePos => NodeMetadata) :=
  (orders.pos.entries l).filter fun e => !e.2.empty

def writeEntry (orders : MetadataOrders) (version : UInt8) (disk : Bool)
    (e : Sigma fun _ : NodePos => NodeMetadata) : Except LoadError ByteString := do
  let data ← e.2.serialize (orders.vars e.1) (orders.items e.1) version disk
  pure (writeU16 (posIndex e.1) ++ data)

def formatVersion (blockver : UInt8) : UInt8 := if 27 < blockver then 2 else 1

/-- `serialize`, with positions in the block and without empty metadata. -/
def serialize (orders : MetadataOrders) (l : NodeMetadataList) (blockver : UInt8) (disk : Bool) :
    Except LoadError ByteString :=
  let count := UInt16.ofNat (l.nonEmpty orders).length
  if count = 0 then .ok [0]
  else do
    let data ← writeEntries (writeEntry orders (formatVersion blockver) disk) (l.nonEmpty orders)
    pure (formatVersion blockver :: writeU16 count ++ data)

variable (u : Uninit) (json : Json) (idef : Option ItemDefManager)

/-- One entry; after a position that is there already its data is not read. -/
def readEntry (version : UInt8) (l : NodeMetadataList) (is : IStream) :
    Except LoadError (Option NodeMetadataList × IStream) := do
  let (p16, is) ← streamU16 is
  if indexPos p16 ∈ l then pure (some l, is)
  else do
    let (data, is) ← NodeMetadata.deSerialize u json idef version is
    pure (some (l.insert (indexPos p16) data), is)

/-- `deSerialize`: the list, also if it throws. -/
def deSerialize (is : IStream) : NodeMetadataList × Except LoadError IStream :=
  match streamU8 is with
  | .error e => (∅, .error e)
  | .ok (version, is) =>
    if version = 0 then (∅, .ok is)
    else if 2 < version then
      (∅, .error (.serialization (bytes "deSerialize: version " ++ decimal version.toNat ++
        bytes " not supported")))
    else
      match streamU16 is with
      | .error e => (∅, .error e)
      | .ok (count, is) => readEntries (readEntry u json idef version) count.toNat ∅ is

def reread (orders : MetadataOrders) (l : NodeMetadataList) (blockver : UInt8) (disk : Bool) :
    NodeMetadataList :=
  (l.nonEmpty orders).foldl (fun l e =>
    l.insert e.1 (e.2.reread (orders.vars e.1) (formatVersion blockver) disk)) ∅

structure Storable (json : Json) (idef : Option ItemDefManager) (l : NodeMetadataList) : Prop where
  inBlock : ∀ p ∈ l, InBlock p
  data : ∀ p x, l.lookup p = some x → x.Storable json idef

variable {u json idef} {orders : MetadataOrders} {l : NodeMetadataList} {blockver : UInt8}
  {disk : Bool} {text : ByteString} {e : Sigma fun _ : NodePos => NodeMetadata}

theorem mem_nonEmpty : e ∈ l.nonEmpty orders ↔ l.lookup e.1 = some e.2 ∧ e.2.empty = false := by
  rw [nonEmpty, List.mem_filter, ← orders.pos.mem_entries]
  simp

theorem length_nonEmpty (orders : MetadataOrders) (h : ∀ p ∈ l, InBlock p) :
    (l.nonEmpty orders).length ≤ 4096 := by
  refine (List.length_filter_le _ _).trans ?_
  rw [orders.pos.length_entries]
  exact card_le_of_inBlock fun p hp => h p (Finmap.mem_keys.mp hp)

structure Ahead (json : Json) (idef : Option ItemDefManager) (done : NodeMetadataList)
    (todo : List (Sigma fun _ : NodePos => NodeMetadata)) : Prop where
  nodup : todo.NodupKeys
  new : ∀ e ∈ todo, e.1 ∉ done
  inBlock : ∀ e ∈ todo, InBlock e.1
  data : ∀ e ∈ todo, e.2.Storable json idef

theorem Ahead.tail {done : NodeMetadataList} {todo : List (Sigma fun _ : NodePos => NodeMetadata)}
    (h : Ahead json idef done (e :: todo)) (x : NodeMetadata) :
    Ahead json idef (done.insert e.1 x) todo := by
  obtain ⟨hnodup, hnew, hinBlock, hdata⟩ := h
  rw [List.nodupKeys_cons] at hnodup
  rw [List.forall_mem_cons] at hnew hinBlock hdata
  refine ⟨hnodup.2, fun e' he' hmem => ?_, hinBlock.2, hdata.2⟩
  rcases Finmap.mem_insert.mp hmem with heq | hmem
  · exact hnodup.1 (heq ▸ List.mem_keys_of_mem he')
  · exact hnew.2 e' he' hmem

theorem deSerialize_append (hl : l.Storable json idef)
    (h : l.serialize orders blockver disk = .ok text) (rest : ByteString) :
    deSerialize u json idef { rest := text ++ rest } =
      (l.reread orders blockver disk, .ok { rest }) := by
  have hlen := length_nonEmpty orders hl.inBlock
  have hcount : (UInt16.ofNat (l.nonEmpty orders).length).toNat = (l.nonEmpty orders).length := by
    rw [UInt16.toNat_ofNat']
    omega
  unfold serialize at h
  dsimp only at h
  split_ifs at h with h0
  · cases h
    have hnil : l.nonEmpty orders = [] := by
      rw [← List.length_eq_zero_iff, ← hcount, h0]
      rfl
    unfold deSerialize reread
    rw [List.singleton_append, streamU8_append, hnil]
    rfl
  · obtain ⟨data, hdata, h⟩ := bind_eq_ok.mp h
    cases h
    have hahead : Ahead json idef ∅ (l.nonEmpty orders) := by
      refine ⟨(orders.pos.nodupKeys l).sublist List.filter_sublist, fun e _ => Finmap.notMem_empty,
        fun e he => ?_, fun e he => ?_⟩
      · exact hl.inBlock e.1 (Finmap.mem_of_lookup_eq_some (mem_nonEmpty.mp he).1)
      · exact hl.data e.1 e.2 (mem_nonEmpty.mp he).1
    have hentries := readEntries_append (readEntry u json idef (formatVersion blockver))
      (fun l e => l.insert e.1 (e.2.reread (orders.vars e.1) (formatVersion blockver) disk))
      (fun rest => ({ rest } : IStream)) (Ahead json idef)
      (fun done e todo text hI hw rest => by
        obtain ⟨entry, hentry, hw⟩ := bind_eq_ok.mp hw
        cases hw
        have hnew := hI.new e List.mem_cons_self
        have hpos := indexPos_posIndex (hI.inBlock e List.mem_cons_self)
        have hread := NodeMetadata.deSerialize_append (u := u) (hI.data e List.mem_cons_self)
          hentry rest
        unfold readEntry
        rw [List.append_assoc, streamU16_append]
        simp only [bind, Except.bind, hpos, hnew, if_false, hread]
        rfl)
      (fun done e todo hI => hI.tail _) hdata hahead rest
    have hversion : formatVersion blockver ≠ 0 ∧ ¬2 < formatVersion blockver := by
      unfold formatVersion
      split_ifs <;> decide
    unfold deSerialize
    rw [List.cons_append, List.cons_append, streamU8_append]
    simp only [hversion.1, hversion.2, if_false, List.append_assoc, streamU16_append, hcount,
      hentries]
    rfl

/-- Metadata that is not empty is read back at its position. -/
theorem lookup_reread (orders : MetadataOrders) (l : NodeMetadataList) (blockver : UInt8)
    (disk : Bool) (p : NodePos) : (l.reread orders blockver disk).lookup p =
    (l.lookup p).bind fun x =>
      if x.empty then none else some (x.reread (orders.vars p) (formatVersion blockver) disk) := by
  have hfold : ∀ (es : List (Sigma fun _ : NodePos => NodeMetadata)) (done : NodeMetadataList),
      es.NodupKeys → (es.foldl (fun l e => l.insert e.1
        (e.2.reread (orders.vars e.1) (formatVersion blockver) disk)) done).lookup p =
      ((es.dlookup p).map fun x => x.reread (orders.vars p) (formatVersion blockver) disk).or
        (done.lookup p) := by
    intro es
    induction es with
    | nil => intro done _; rfl
    | cons e es ih =>
      intro done hnodup
      rw [List.nodupKeys_cons] at hnodup
      rw [List.foldl_cons, ih _ hnodup.2]
      by_cases hp : p = e.1
      · subst hp
        rw [List.dlookup_eq_none.mpr hnodup.1, List.dlookup_cons_eq, Finmap.lookup_insert]
        rfl
      · rw [List.dlookup_cons_ne _ _ hp, Finmap.lookup_insert_of_ne _ hp]
  have hnodup : (l.nonEmpty orders).NodupKeys :=
    (orders.pos.nodupKeys l).sublist List.filter_sublist
  rw [reread, hfold _ _ hnodup, Finmap.lookup_empty, Option.or_none]
  have hlookup : (l.nonEmpty orders).dlookup p = (l.lookup p).bind fun x =>
      if x.empty then none else some x := by
    ext x
    rw [← Option.mem_def, List.mem_dlookup_iff hnodup, mem_nonEmpty, Option.bind_eq_some_iff]
    constructor
    · rintro ⟨hx, hempty⟩
      exact ⟨x, hx, by simp [hempty]⟩
    · rintro ⟨x', hx, h⟩
      split_ifs at h with hempty
      cases h
      exact ⟨hx, by simpa using hempty⟩
  rw [hlookup]
  cases l.lookup p with
  | none => rfl
  | some x =>
    simp only [Option.bind_some]
    split_ifs <;> rfl

end NodeMetadataList

end Freeminer.Block
