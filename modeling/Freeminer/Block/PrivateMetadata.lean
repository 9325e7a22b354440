import Freeminer.Block.NodeMetadata

/-! Variables of node metadata that are private: clients get neither their values nor their number,
and the marks of variables that have a value are stored. -/

namespace Freeminer.Block

open Lib Inventory

/-- `writePOS`: 16 bits without a protocol version. -/
def writePOS (x : ℤ) : ByteString := writeU16 (UInt16.ofInt x)

namespace NodeMetadataList

def visited (orders : MetadataOrders) (l : NodeMetadataList) (includeEmpty : Bool) :
    List (Sigma fun _ : NodePos => NodeMetadata) :=
  (orders.pos.entries l).filter fun e => includeEmpty || !e.2.empty

def writeAt (orders : MetadataOrders) (version : UInt8) (disk absolutePos : Bool)
    (e : Sigma fun _ : NodePos => NodeMetadata) : Except LoadError ByteString := do
  let data ← e.2.serialize (orders.vars e.1) (orders.items e.1) version disk
  pure ((if absolutePos then writePOS e.1.1 ++ writePOS e.1.2.1 ++ writePOS e.1.2.2
    else writeU16 (posIndex e.1)) ++ data)

/-- `serialize` with all its flags. -/
def serializeAll (orders : MetadataOrders) (l : NodeMetadataList) (blockver : UInt8)
    (disk absolutePos includeEmpty : Bool) : Except LoadError ByteString :=
  let count := UInt16.ofNat
    (if includeEmpty then l.keys.card else (l.nonEmpty orders).length)
  if count = 0 then .ok [0]
  else do
    let data ← writeEntries (writeAt orders (formatVersion blockver) disk absolutePos)
      (l.visited orders includeEmpty)
    pure (formatVersion blockver :: writeU16 count ++ data)

end NodeMetadataList

/-! ## What clients get -/

namespace NodeMetadata

/-- The same variables in the same order; only the values of private ones may differ. -/
structure SamePublic (order order' : MetadataOrder) (x x' : NodeMetadata) : Prop where
  privatevars : x.privatevars = x'.privatevars
  inventory : x.inventory = x'.inventory
  vars : List.Forall₂ (fun sv sv' => sv.1 = sv'.1 ∧ (x.isPrivate sv.1 = false → sv.2 = sv'.2))
    (order.entries x.stringvars) (order'.entries x'.stringvars)

variable {order order' : MetadataOrder} {x x' : NodeMetadata}

theorem stringvars_eq_empty_iff (order : MetadataOrder) (x : NodeMetadata) :
    x.stringvars = ∅ ↔ order.entries x.stringvars = [] := by
  constructor
  · intro h
    have := order.length_entries x.stringvars
    rw [h, Finmap.keys_empty, Finset.card_empty] at this
    rw [h]
    exact List.length_eq_zero_iff.mp this
  · intro h
    have := order.insertAll_entries x.stringvars
    rw [h] at this
    exact this.symm

theorem SamePublic.empty (h : SamePublic order order' x x') : x.empty = x'.empty := by
  have hvars : x.stringvars = ∅ ↔ x'.stringvars = ∅ := by
    rw [stringvars_eq_empty_iff order, stringvars_eq_empty_iff order',
      ← List.length_eq_zero_iff, ← List.length_eq_zero_iff, h.vars.length_eq]
  unfold NodeMetadata.empty
  rw [h.inventory, decide_eq_decide.mpr hvars]

theorem filter_congr (priv : ByteString → Bool)
    {svs svs' : List (Sigma fun _ : ByteString => ByteString)}
    (h : List.Forall₂ (fun sv sv' => sv.1 = sv'.1 ∧ (priv sv.1 = false → sv.2 = sv'.2)) svs svs') :
    svs.filter (fun sv => !priv sv.1) = svs'.filter fun sv => !priv sv.1 := by
  induction h with
  | nil => rfl
  | @cons sv sv' svs svs' hfirst _ ih =>
    obtain ⟨name, var⟩ := sv
    obtain ⟨name', var'⟩ := sv'
    obtain ⟨rfl, hvalue⟩ := hfirst
    dsimp only at hvalue
    rw [List.filter_cons, List.filter_cons, ih]
    cases hname : priv name with
    | true => rfl
    | false => rw [hvalue hname]

theorem SamePublic.isPrivate_eq (h : SamePublic order order' x x') :
    x'.isPrivate = x.isPrivate := by
  funext name
  rw [isPrivate, isPrivate, h.privatevars]

/-- The variables that are not private are the same. -/
theorem SamePublic.filter (h : SamePublic order order' x x') :
    (order.entries x.stringvars).filter (fun sv => !x.isPrivate sv.1) =
      (order'.entries x'.stringvars).filter fun sv => !x'.isPrivate sv.1 := by
  rw [h.isPrivate_eq]
  exact filter_congr x.isPrivate h.vars

theorem SamePublic.serialize (h : SamePublic order order' x x') (items : ℕ → ℕ → MetadataOrder)
    (version : UInt8) :
    x.serialize order items version false = x'.serialize order' items version false := by
  have hcount : x.countNonPrivate order = x'.countNonPrivate order' :=
    congrArg List.length h.filter
  have hwritten : x.written order false = x'.written order' false := h.filter
  have hvar : x.writeVar version = x'.writeVar version := by
    funext sv
    unfold writeVar
    rw [h.isPrivate_eq]
  unfold NodeMetadata.serialize
  simp only [Bool.false_eq_true, if_false]
  rw [hcount, hwritten, hvar, h.inventory]

end NodeMetadata

namespace NodeMetadataList

/-- The same metadata at the same positions, but for the values of private variables. -/
structure SamePublic (orders orders' : MetadataOrders) (l l' : NodeMetadataList) : Prop where
  items : orders.items = orders'.items
  entries : List.Forall₂ (fun e e' => e.1 = e'.1 ∧
      NodeMetadata.SamePublic (orders.vars e.1) (orders'.vars e'.1) e.2 e'.2)
    (orders.pos.entries l) (orders'.pos.entries l')

variable {orders orders' : MetadataOrders} {l l' : NodeMetadataList}

theorem filter_empty {es es' : List (Sigma fun _ : NodePos => NodeMetadata)}
    (includeEmpty : Bool)
    (h : List.Forall₂ (fun e e' => e.1 = e'.1 ∧
      NodeMetadata.SamePublic (orders.vars e.1) (orders'.vars e'.1) e.2 e'.2) es es') :
    List.Forall₂ (fun e e' => e.1 = e'.1 ∧
        NodeMetadata.SamePublic (orders.vars e.1) (orders'.vars e'.1) e.2 e'.2)
      (es.filter fun e => includeEmpty || !e.2.empty)
      (es'.filter fun e => includeEmpty || !e.2.empty) := by
  induction h with
  | nil => exact .nil
  | @cons e e' es es' hfirst _ ih =>
    rw [List.filter_cons, List.filter_cons, hfirst.2.empty]
    split_ifs
    · exact .cons hfirst ih
    · exact ih

theorem SamePublic.visited (h : SamePublic orders orders' l l') (includeEmpty : Bool) :
    List.Forall₂ (fun e e' => e.1 = e'.1 ∧
      NodeMetadata.SamePublic (orders.vars e.1) (orders'.vars e'.1) e.2 e'.2)
    (l.visited orders includeEmpty) (l'.visited orders' includeEmpty) :=
  filter_empty includeEmpty h.entries

theorem SamePublic.serializeAll (h : SamePublic orders orders' l l') (blockver : UInt8)
    (absolutePos includeEmpty : Bool) :
    serializeAll orders l blockver false absolutePos includeEmpty =
      serializeAll orders' l' blockver false absolutePos includeEmpty := by
  have hlen : l.keys.card = l'.keys.card := by
    rw [← orders.pos.length_entries, ← orders'.pos.length_entries, h.entries.length_eq]
  have hnonEmpty : (l.nonEmpty orders).length = (l'.nonEmpty orders').length :=
    (h.visited false).length_eq
  have hdata := writeEntries_congr ((h.visited includeEmpty).imp fun e e' he => by
    show writeAt orders (formatVersion blockver) false absolutePos e =
      writeAt orders' (formatVersion blockver) false absolutePos e'
    unfold writeAt
    rw [he.2.serialize, h.items, he.1])
  unfold NodeMetadataList.serializeAll
  rw [hlen, hnonEmpty, hdata]

end NodeMetadataList

/-! ## What the disk keeps -/

namespace NodeMetadata

/-- `SimpleMetadata::setString`: an empty value erases the variable. -/
def setString (x : NodeMetadata) (name var : ByteString) : NodeMetadata :=
  if var = [] then { x with stringvars := x.stringvars.erase name }
  else { x with stringvars := x.stringvars.insert name var }

def setStrings (x : NodeMetadata) (sets : List (ByteString × ByteString)) : NodeMetadata :=
  sets.foldl (fun x set => x.setString set.1 set.2) x

@[simp] theorem setString_privatevars (x : NodeMetadata) (name var : ByteString) :
    (x.setString name var).privatevars = x.privatevars := by
  unfold setString
  split_ifs <;> rfl

@[simp] theorem setStrings_privatevars (x : NodeMetadata) (sets : List (ByteString × ByteString)) :
    (x.setStrings sets).privatevars = x.privatevars := by
  unfold setStrings
  induction sets generalizing x with
  | nil => rfl
  | cons set sets ih => rw [List.foldl_cons, ih, setString_privatevars]

/-- A private variable is not among those that clients get, whatever is set. -/
theorem notMem_written_setStrings {y : NodeMetadata} {name : ByteString}
    (h : y.isPrivate name = true) (sets : List (ByteString × ByteString)) (order : MetadataOrder) :
    name ∉ ((y.setStrings sets).written order false).map Sigma.fst := by
  intro hmem
  obtain ⟨sv, hsv, rfl⟩ := List.mem_map.mp hmem
  have hpublic := (List.mem_filter.mp hsv).2
  rw [isPrivate, setStrings_privatevars, Bool.false_or, ← isPrivate, h] at hpublic
  cases hpublic

/-- The marks that the disk keeps: those of the variables that are read. All of them are read if
their number fits. -/
structure MarksKept (x y : NodeMetadata) : Prop where
  isPrivate : ∀ name ∈ y.stringvars, y.isPrivate name = x.isPrivate name
  all : x.stringvars.keys.card < 2 ^ 32 → y.stringvars = x.stringvars
  hidden : ∀ name ∈ y.stringvars, x.isPrivate name = true → ∀ sets order,
    name ∉ ((y.setStrings sets).written order false).map Sigma.fst

variable {u : Uninit} {json : Json} {idef : Option ItemDefManager} {order : MetadataOrder}
  {items : ℕ → ℕ → MetadataOrder} {x y : NodeMetadata} {version : UInt8} {text rest : ByteString}
  {is : IStream}

/-- The number of variables is written with 32 bits; that many are read. -/
def counted (order : MetadataOrder) (x : NodeMetadata) :
    List (Sigma fun _ : ByteString => ByteString) :=
  (order.entries x.stringvars).take (x.stringvars.keys.card % 2 ^ 32)

theorem nodupKeys_counted (order : MetadataOrder) (x : NodeMetadata) :
    (x.counted order).NodupKeys :=
  (order.nodupKeys x.stringvars).sublist (List.take_sublist _ _)

theorem vars_of_deSerialize (h : x.serialize order items version true = .ok text)
    (hread : deSerialize u json idef version { rest := text ++ rest } = .ok (y, is)) :
    y.stringvars = ((x.counted order).foldl (x.putVar version) {}).stringvars ∧
      y.privatevars = ((x.counted order).foldl (x.putVar version) {}).privatevars := by
  obtain ⟨vars, hvars, h⟩ := bind_eq_ok.mp h
  cases h
  have hwritten : x.written order true = order.entries x.stringvars := by simp [written]
  rw [hwritten, ← List.take_append_drop (x.stringvars.keys.card % 2 ^ 32)
    (order.entries x.stringvars)] at hvars
  obtain ⟨first, others, hfirst, _, rfl⟩ := writeEntries_append hvars
  have hnum : (UInt32.ofNat x.stringvars.keys.card).toNat = (x.counted order).length := by
    have hmod := Nat.mod_le x.stringvars.keys.card (2 ^ 32)
    rw [UInt32.toNat_ofNat', counted, List.length_take, order.length_entries]
    omega
  have hentries := readEntries_append (readVar version) (x.putVar version)
    (fun rest => ({ rest } : IStream)) (fun _ _ => True)
    (fun y sv _ text _ hw rest => readVar_append hw y rest) (fun _ _ _ h => h) hfirst
    (s := {}) trivial (others ++ (x.inventory.serialize items ++ rest))
  rw [← counted] at hentries
  unfold deSerialize at hread
  simp only [if_true, List.append_assoc, streamU32_append, bind, Except.bind, hnum,
    hentries] at hread
  cases hinv : InventoryLists.deSerializeStream u json idef []
      { rest := others ++ (x.inventory.serialize items ++ rest) } with
  | error e =>
    rw [hinv] at hread
    cases hread
  | ok lists =>
    rw [hinv] at hread
    cases hread
    exact ⟨rfl, rfl⟩

theorem mem_insertAll_iff {l : List (Sigma fun _ : ByteString => ByteString)} (h : l.NodupKeys)
    (name : ByteString) : name ∈ insertAll l ∅ ↔ name ∈ l.map Sigma.fst := by
  rw [← Finmap.lookup_isSome, lookup_insertAll h, Finmap.lookup_empty, Option.or_none,
    List.dlookup_isSome]
  rfl

theorem marksKept (h : x.serialize order items 2 true = .ok text)
    (hread : deSerialize u json idef 2 { rest := text ++ rest } = .ok (y, is)) :
    MarksKept x y := by
  obtain ⟨hvars, hpriv⟩ := vars_of_deSerialize h hread
  rw [stringvars_foldl] at hvars
  have hmarks : ∀ name ∈ y.stringvars, y.isPrivate name = x.isPrivate name := by
    intro name hname
    rw [hvars, mem_insertAll_iff (nodupKeys_counted order x)] at hname
    unfold NodeMetadata.isPrivate
    rw [decide_eq_decide, hpriv, mem_privatevars_foldl]
    constructor
    · rintro (hnone | ⟨_, hmem, _⟩)
      · cases hnone
      · exact hmem
    · intro hmem
      exact .inr ⟨by decide, hmem, hname⟩
  refine ⟨hmarks, fun hcard => ?_, fun name hname hprivate sets order' => ?_⟩
  · rw [hvars, counted, Nat.mod_eq_of_lt hcard, ← order.length_entries, List.take_length]
    exact order.insertAll_entries _
  · exact notMem_written_setStrings ((hmarks name hname).trans hprivate) sets order'

end NodeMetadata

/-- Clients get the same of metadata that differs in private values only, and the disk keeps the
marks of all variables, also under later values. -/
theorem privateHidden :
    (∀ (orders orders' : MetadataOrders) (l l' : NodeMetadataList),
      NodeMetadataList.SamePublic orders orders' l l' →
      ∀ (blockver : UInt8) (absolutePos includeEmpty : Bool),
        l.serializeAll orders blockver false absolutePos includeEmpty =
          l'.serializeAll orders' blockver false absolutePos includeEmpty) ∧
    ∀ (u : Uninit) (json : Json) (idef : Option ItemDefManager) (order : MetadataOrder)
      (items : ℕ → ℕ → MetadataOrder) (x y : NodeMetadata) (text rest : ByteString) (is : IStream),
      x.serialize order items 2 true = .ok text →
      NodeMetadata.deSerialize u json idef 2 { rest := text ++ rest } = .ok (y, is) →
      NodeMetadata.MarksKept x y :=
  ⟨fun _ _ _ _ h blockver absolutePos includeEmpty =>
      h.serializeAll blockver absolutePos includeEmpty,
    fun _ _ _ _ _ _ _ _ _ _ h hread => NodeMetadata.marksKept h hread⟩

def locked (code : ByteString) : NodeMetadata where
  stringvars := (∅ : Finmap fun _ : ByteString => ByteString).insert (bytes "code") code
  privatevars := {bytes "code"}

def lockedAt (code : ByteString) : NodeMetadataList :=
  (∅ : Finmap fun _ : NodePos => NodeMetadata).insert (1, 2, 3) (locked code)

noncomputable def someOrders : MetadataOrders where
  pos := HashOrder.any _ _
  vars _ := HashOrder.any _ _
  items _ _ _ := HashOrder.any _ _

theorem samePublic_locked (code code' : ByteString) :
    NodeMetadataList.SamePublic someOrders someOrders (lockedAt code) (lockedAt code') := by
  refine ⟨rfl, ?_⟩
  rw [lockedAt, lockedAt, HashOrder.entries_singleton, HashOrder.entries_singleton]
  refine .cons ⟨rfl, rfl, rfl, ?_⟩ .nil
  show List.Forall₂ _ (HashOrder.entries _ (locked code).stringvars)
    (HashOrder.entries _ (locked code').stringvars)
  rw [locked, locked, HashOrder.entries_singleton, HashOrder.entries_singleton]
  refine .cons ⟨rfl, fun h => ?_⟩ .nil
  have hcode : (locked code).isPrivate (bytes "code") = true := rfl
  rw [locked] at hcode
  exact absurd (hcode.symm.trans h) (by decide)

theorem storable_of_noInventory {x : NodeMetadata} (hvars : x.stringvars.keys.card < 2 ^ 32)
    (h : x.inventory = []) (json : Json) (idef : Option ItemDefManager) : x.Storable json idef := by
  refine ⟨hvars, ⟨?_, ?_, ?_⟩, ?_, ?_, ?_⟩
  · rw [h]
    exact List.nodup_nil
  all_goals
    rw [h]
    intro l hl
    cases hl

theorem card_locked (code : ByteString) : (locked code).stringvars.keys.card < 2 ^ 32 := by
  have hcard : (locked code).stringvars.keys.card = 1 := rfl
  rw [hcard]
  norm_num

theorem serialize_locked : ∃ text, (locked (bytes "1234")).serialize (someOrders.vars (1, 2, 3))
    (someOrders.items (1, 2, 3)) 2 true = .ok text := by
  unfold NodeMetadata.serialize NodeMetadata.written
  rw [locked, HashOrder.entries_singleton]
  exact ⟨_, rfl⟩

theorem privateHidden_locked :
    (lockedAt (bytes "1234")).serializeAll someOrders 29 false false false =
        (lockedAt (bytes "5678")).serializeAll someOrders 29 false false false ∧
      NodeMetadata.MarksKept (locked (bytes "1234"))
        ((locked (bytes "1234")).reread (someOrders.vars (1, 2, 3)) 2 true) := by
  obtain ⟨text, htext⟩ := serialize_locked
  exact ⟨privateHidden.1 someOrders someOrders _ _ (samePublic_locked _ _) 29 false false,
    privateHidden.2 InventoryLists.anyUninit InventoryLists.anyJson none _ _ _ _ text [] _ htext
      (NodeMetadata.deSerialize_append (storable_of_noInventory (card_locked _) rfl _ _) htext [])⟩

def KeepsEveryMark : Prop :=
  ∀ (u : Uninit) (json : Json) (idef : Option ItemDefManager) (order : MetadataOrder)
    (items : ℕ → ℕ → MetadataOrder) (x y : NodeMetadata) (text rest : ByteString) (is : IStream),
    x.serialize order items 2 true = .ok text →
    NodeMetadata.deSerialize u json idef 2 { rest := text ++ rest } = .ok (y, is) →
    ∀ name, y.isPrivate name = x.isPrivate name

def markedAhead : NodeMetadata := { privatevars := {bytes "code"} }

theorem not_keepsEveryMark : ¬KeepsEveryMark := by
  intro h
  have hnil : ∀ order : MetadataOrder, order.entries markedAhead.stringvars = [] := fun order =>
    (NodeMetadata.stringvars_eq_empty_iff order markedAhead).mp rfl
  have hcard : markedAhead.stringvars.keys.card < 2 ^ 32 := by
    have hzero : markedAhead.stringvars.keys.card = 0 := rfl
    rw [hzero]
    norm_num
  have hwrite : ∃ text, markedAhead.serialize (HashOrder.any _ _) (fun _ _ => HashOrder.any _ _)
      2 true = .ok text := by
    unfold NodeMetadata.serialize NodeMetadata.written
    rw [hnil]
    exact ⟨_, rfl⟩
  obtain ⟨text, htext⟩ := hwrite
  have hread := NodeMetadata.deSerialize_append (u := InventoryLists.anyUninit)
    (storable_of_noInventory hcard rfl InventoryLists.anyJson none) htext []
  have hmark := h _ _ _ _ _ _ _ _ _ _ htext hread (bytes "code")
  unfold NodeMetadata.reread NodeMetadata.written at hmark
  rw [hnil] at hmark
  revert hmark
  decide

end Freeminer.Block
