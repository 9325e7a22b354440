import Freeminer.Inventory.InventoryList
import Freeminer.Inventory.ItemString
import Freeminer.Lib.Runs

/-! The text of an `Inventory` (`inventory.cpp`), a line for each slot. Which inventories come
back from their text as they were. -/

namespace Freeminer.Inventory

open Lib ItemStack

structure InventoryList where
  name : ByteString
  width : UInt32 := 0
  items : ItemList
  deriving DecidableEq

namespace InventoryList

def setSize (l : InventoryList) (newsize : UInt32) : InventoryList :=
  { l with items := l.items.take newsize.toNat ++
      List.replicate (newsize.toNat - l.items.length) {} }

def clearItems (l : InventoryList) : InventoryList :=
  { l with items := List.replicate l.items.length {} }

def slotLine (order : MetadataOrder) (s : ItemStack) : ByteString :=
  if s.empty then bytes "Empty" else bytes "Item " ++ s.serialize order true

/-- `serialize`; each slot's metadata map has an iteration order of its own. -/
def serialize (order : ℕ → MetadataOrder) (l : InventoryList) : ByteString :=
  bytes "Width " ++ decimal l.width.toNat ++ [10] ++
    (l.items.zipIdx.flatMap fun s => slotLine (order s.2) s.1 ++ [10]) ++
    bytes "EndInventoryList" ++ [10]

def malformatted (l : InventoryList) (itemI : ℕ) : LoadError :=
  .serialization (bytes "Malformatted inventory list. list=" ++ l.name ++ bytes ", read " ++
    decimal itemI ++ bytes " of " ++ decimal l.items.length ++ bytes " ItemStacks.\n")

/-- The check before a slot is read. In a list of no slots the size less one wraps, and lets any
index pass. -/
def checkSlot (l : InventoryList) (itemI : ℕ) : Except LoadError Unit :=
  if l.items ≠ [] ∧ l.items.length - 1 < itemI then
    .error (.serialization (bytes "too many items"))
  else .ok ()

/-- `m_items[item_i] = item` -/
def setItem (l : InventoryList) (itemI : ℕ) (item : ItemStack) : Except LoadError InventoryList :=
  if itemI < l.items.length then .ok { l with items := l.items.set itemI item }
  else .error .outOfBounds

/-- `++item_i` for a slot that is kept, of which there may be any number. -/
def keepItem (itemI : ℕ) : ℕ := (itemI + 1) % 4294967296

variable (u : Uninit) (json : Json) (idef : Option ItemDefManager)

/-- The loop of `deSerialize` over the lines: the list, and the lines after it. -/
def readLines : ℕ → InventoryList → List ByteString →
    Except LoadError (InventoryList × List ByteString)
  | itemI, l, [] => .error (l.malformatted itemI)
  | itemI, l, line :: lines =>
    let (name, iss) := IStream.getline { rest := line } 32
    if name = bytes "EndInventoryList" ∨ name = bytes "end" then
      .ok ({ l with items := l.items.take itemI ++
        List.replicate (l.items.length - itemI) {} }, lines)
    else if name = bytes "Width" then
      let (width, iss) := iss.readUnsigned 32 l.width.toNat
      if iss.fail then .error (.serialization (bytes "incorrect width property"))
      else readLines itemI { l with width := UInt32.ofNat width } lines
    else if name = bytes "Item" then do
      let _ ← l.checkSlot itemI
      let item ← ItemStack.deSerialize u json idef iss
      let l ← l.setItem itemI item
      readLines (itemI + 1) l lines
    else if name = bytes "Empty" then do
      let _ ← l.checkSlot itemI
      let l ← l.setItem itemI {}
      readLines (itemI + 1) l lines
    else if name = bytes "Keep" then readLines (keepItem itemI) l lines
    else readLines itemI l lines

def deSerialize (l : InventoryList) (lines : List ByteString) :
    Except LoadError (InventoryList × List ByteString) :=
  readLines u json idef 0 { l with width := 0 } lines

end InventoryList

/-- The lists of an `Inventory`. -/
abbrev InventoryLists := List InventoryList

namespace InventoryLists

def getListIndex (inv : InventoryLists) (name : ByteString) : Option ℕ :=
  inv.findIdx? fun l => decide (l.name = name)

def addList (inv : InventoryLists) (name : ByteString) (size : UInt32) : InventoryLists :=
  match inv.getListIndex name with
  | some i => inv.modify i fun l => (l.setSize size).clearItems
  | none =>
    if 32 ∈ name then inv
    else inv ++ [{ name, items := List.replicate size.toNat {} }]

/-- `serialize`, not incremental. -/
def serialize (order : ℕ → ℕ → MetadataOrder) (inv : InventoryLists) : ByteString :=
  (inv.zipIdx.flatMap fun l =>
    bytes "List " ++ l.1.name ++ 32 :: decimal l.1.items.length ++ [10] ++
      l.1.serialize (order l.2)) ++
    bytes "EndInventory" ++ [10]

def malformatted (inv : InventoryLists) : LoadError :=
  .serialization (bytes "Malformatted inventory (damaged?). " ++ decimal inv.length ++
    bytes " lists read.\n")

variable (u : Uninit) (json : Json) (idef : Option ItemDefManager)

/-- The loop of `deSerialize` over the lines, with the positions of the lists that were sent: the
lists, and the lines after them. There are no more turns than lines. -/
def readListsFrom : ℕ → InventoryLists → List ℕ → List ByteString →
    Except LoadError (InventoryLists × List ByteString)
  | n + 1, inv, newLists, line :: lines =>
    let (name, iss) := IStream.getline { rest := line } 32
    if name = bytes "EndInventory" ∨ name = bytes "end" then
      .ok ((inv.zipIdx.filter fun l => decide (l.2 ∈ newLists)).map Prod.fst, lines)
    else if name = bytes "List" then
      let (listname, iss) := iss.getline 32
      let (listsize, _) := iss.readUnsigned 32 u.listsize.toNat
      let created : InventoryList := { name := listname, items := List.replicate listsize {} }
      match inv.getListIndex listname with
      | none => do
        let (list, lines) ← InventoryList.deSerialize u json idef created lines
        readListsFrom n (inv ++ [list]) (newLists ++ [inv.length]) lines
      | some i => do
        let list := (inv.getD i created).setSize (UInt32.ofNat listsize)
        let (list, lines) ← InventoryList.deSerialize u json idef list lines
        readListsFrom n (inv.set i list) (newLists ++ [i]) lines
    else if name = bytes "KeepList" then
      let (listname, _) := iss.getline 32
      readListsFrom n inv (newLists ++ (inv.getListIndex listname).toList) lines
    else readListsFrom n inv newLists lines
  | _, inv, _, _ => .error inv.malformatted

def readLists : ℕ → InventoryLists → List ℕ → List ByteString → Except LoadError InventoryLists
  | n + 1, inv, newLists, line :: lines =>
    let (name, iss) := IStream.getline { rest := line } 32
    if name = bytes "EndInventory" ∨ name = bytes "end" then
      .ok ((inv.zipIdx.filter fun l => decide (l.2 ∈ newLists)).map Prod.fst)
    else if name = bytes "List" then
      let (listname, iss) := iss.getline 32
      let (listsize, _) := iss.readUnsigned 32 u.listsize.toNat
      let created : InventoryList := { name := listname, items := List.replicate listsize {} }
      match inv.getListIndex listname with
      | none => do
        let (list, lines) ← InventoryList.deSerialize u json idef created lines
        readLists n (inv ++ [list]) (newLists ++ [inv.length]) lines
      | some i => do
        let list := (inv.getD i created).setSize (UInt32.ofNat listsize)
        let (list, lines) ← InventoryList.deSerialize u json idef list lines
        readLists n (inv.set i list) (newLists ++ [i]) lines
    else if name = bytes "KeepList" then
      let (listname, _) := iss.getline 32
      readLists n inv (newLists ++ (inv.getListIndex listname).toList) lines
    else readLists n inv newLists lines
  | _, inv, _, _ => .error inv.malformatted

/-- The stream before the lines that are left of a text; the last one has no line break. -/
def streamAt : List ByteString → IStream
  | [] => { rest := [], eof := true }
  | lines => { rest := List.intercalate [10] lines }

/-- `deSerialize` from a stream, which is left after the inventory. -/
def deSerializeStream (inv : InventoryLists) (is : IStream) :
    Except LoadError (InventoryLists × IStream) :=
  if is.good then
    let lines := is.rest.splitOn 10
    (readListsFrom u json idef lines.length inv [] lines).map fun r => (r.1, streamAt r.2)
  else .error inv.malformatted

/-- `deSerialize` into an inventory. -/
def deSerialize (inv : InventoryLists) (text : ByteString) : Except LoadError InventoryLists :=
  let lines := text.splitOn 10
  readLists u json idef lines.length inv [] lines

theorem readLists_eq (n : ℕ) (inv : InventoryLists) (newLists : List ℕ) (lines : List ByteString) :
    readLists u json idef n inv newLists lines =
      (readListsFrom u json idef n inv newLists lines).map Prod.fst := by
  induction n generalizing inv newLists lines with
  | zero => cases lines <;> rfl
  | succ n ih =>
    cases lines with
    | nil => rfl
    | cons line lines =>
      rw [readLists, readListsFrom]
      dsimp only
      split_ifs
      · rfl
      · split
        · cases InventoryList.deSerialize u json idef _ lines with
          | error e => rfl
          | ok r => exact ih _ _ _
        · cases InventoryList.deSerialize u json idef _ lines with
          | error e => rfl
          | ok r => exact ih _ _ _
      · exact ih _ _ _
      · exact ih _ _ _

/-! ## Reachable inventories -/

inductive Op where
  | addList (name : ByteString) (size : UInt32)
  | setSize (list : ℕ) (size : UInt32)
  | changeItem (list : ℕ) (i : UInt32) (newitem : ItemStack)

def apply (inv : InventoryLists) : Op → InventoryLists
  | .addList name size => inv.addList name size
  | .setSize list size => inv.modify list fun l => l.setSize size
  | .changeItem list i newitem =>
    inv.modify list fun l => { l with items := (ItemList.changeItem l.items i.toNat newitem).2 }

def ops : Lts InventoryLists Op where
  init inv := inv = []
  step inv op inv' := inv' = inv.apply op

/-- What every operation keeps: names that `addList` accepts, each once, and sizes of 32 bits. -/
structure Valid (inv : InventoryLists) : Prop where
  nodup : (inv.map InventoryList.name).Nodup
  name : ∀ l ∈ inv, 32 ∉ l.name
  size : ∀ l ∈ inv, l.items.length < 2 ^ 32

variable {inv : InventoryLists} {f : InventoryList → InventoryList}

theorem map_name_modify (hf : ∀ l, (f l).name = l.name) (i : ℕ) :
    (inv.modify i f).map InventoryList.name = inv.map InventoryList.name := by
  refine List.ext_getElem? fun j => ?_
  rw [List.getElem?_map, List.getElem?_map, List.getElem?_modify]
  cases inv[j]? with
  | none => rfl
  | some l => by_cases h : i = j <;> simp [h, hf]

theorem Valid.modify (h : inv.Valid) (hf : ∀ l, (f l).name = l.name)
    (hsize : ∀ l ∈ inv, (f l).items.length < 2 ^ 32) (i : ℕ) : Valid (inv.modify i f) := by
  have hmem : ∀ l ∈ inv.modify i f, l ∈ inv ∨ ∃ l' ∈ inv, l = f l' := by
    intro l hl
    obtain ⟨j, hj⟩ := List.mem_iff_getElem?.mp hl
    rw [List.getElem?_modify, Option.map_eq_map, Option.map_eq_some_iff] at hj
    obtain ⟨l', hl', rfl⟩ := hj
    have hl' := List.mem_of_getElem? hl'
    split_ifs
    · exact .inr ⟨l', hl', rfl⟩
    · exact .inl hl'
  refine ⟨(map_name_modify hf i).symm ▸ h.nodup, fun l hl => ?_, fun l hl => ?_⟩
  · rcases hmem l hl with hl | ⟨l', hl', rfl⟩
    · exact h.name l hl
    · exact hf l' ▸ h.name l' hl'
  · rcases hmem l hl with hl | ⟨l', hl', rfl⟩
    · exact h.size l hl
    · exact hsize l' hl'

theorem length_setSize (l : InventoryList) (n : UInt32) :
    (l.setSize n).items.length = n.toNat := by
  simp only [InventoryList.setSize, List.length_append, List.length_take, List.length_replicate]
  omega

theorem getListIndex_eq_none {name : ByteString} :
    inv.getListIndex name = none ↔ name ∉ inv.map InventoryList.name := by
  simp [getListIndex, List.findIdx?_eq_none_iff]

theorem Valid.apply (h : inv.Valid) (op : Op) : Valid (inv.apply op) := by
  cases op with
  | addList name size =>
    change Valid (inv.addList name size)
    unfold addList
    split
    · apply h.modify
      · exact fun l => rfl
      · intro l _
        simpa [InventoryList.clearItems, length_setSize] using size.toNat_lt
    · rename_i hnone
      split_ifs with hblank
      · exact h
      · have hsize := size.toNat_lt
        refine ⟨?_, ?_, ?_⟩
        · rw [List.map_append, List.map_singleton, List.nodup_append_comm]
          exact List.nodup_cons.mpr ⟨getListIndex_eq_none.mp hnone, h.nodup⟩
        · intro l hl
          rcases List.mem_append.mp hl with hl | hl
          · exact h.name l hl
          · rw [List.mem_singleton] at hl
            exact hl ▸ hblank
        · intro l hl
          rcases List.mem_append.mp hl with hl | hl
          · exact h.size l hl
          · rw [List.mem_singleton] at hl
            simpa [hl] using hsize
  | setSize list size =>
    apply h.modify
    · exact fun l => rfl
    · intro l _
      rw [length_setSize]
      exact size.toNat_lt
  | changeItem list i newitem =>
    apply h.modify
    · exact fun l => rfl
    · intro l hl
      have hsize := h.size l hl
      unfold ItemList.changeItem
      dsimp only
      split
      · exact hsize
      · simpa using hsize

theorem reach_valid (h : ops.Reach inv) : inv.Valid := by
  refine h.invariant (fun inv h0 => ?_) fun inv op inv' h _ hs => ?_
  · obtain rfl : inv = [] := h0
    exact ⟨List.nodup_nil, by simp, by simp⟩
  · obtain rfl : inv' = inv.apply op := hs
    exact h.apply op

end InventoryLists

/-! ## Lines -/

section Lines

variable {u : Uninit} {json : Json} {idef : Option ItemDefManager} {s : ItemStack}
  {l : InventoryList} {inv : InventoryLists}

def readSlot (u : Uninit) (json : Json) (idef : Option ItemDefManager) (order : MetadataOrder)
    (s : ItemStack) : Except LoadError ItemStack :=
  if s.empty then .ok {} else ItemStack.deSerialize u json idef { rest := s.serialize order true }

def readSlots (u : Uninit) (json : Json) (idef : Option ItemDefManager)
    (order : ℕ → MetadataOrder) : ℕ → ItemList → Except LoadError ItemList
  | _, [] => .ok []
  | i, s :: l => do
    let t ← readSlot u json idef (order i) s
    let ts ← readSlots u json idef order (i + 1) l
    pure (t :: ts)

namespace InventoryList

theorem newline_notMem_slotLine (order : MetadataOrder) (s : ItemStack) :
    10 ∉ slotLine order s := by
  have hdec : ∀ n, (10 : UInt8) ∉ decimal n := notMem_decimal rfl
  unfold slotLine ItemStack.serialize
  have h1 : (10 : UInt8) ∉ bytes "Empty" := by decide
  have h2 : (10 : UInt8) ∉ bytes "Item " := by decide
  split_ifs <;>
    simp [h1, h2, hdec, newline_notMem_json, Metadata.serialize]

def textLines (order : ℕ → MetadataOrder) (l : InventoryList) : List ByteString :=
  (bytes "Width " ++ decimal l.width.toNat) ::
    ((l.items.zipIdx.map fun s => slotLine (order s.2) s.1) ++ [bytes "EndInventoryList"])

theorem serialize_eq (order : ℕ → MetadataOrder) (l : InventoryList) :
    l.serialize order = (l.textLines order).flatMap (· ++ [10]) := by
  simp [serialize, textLines, List.flatMap_map, List.flatMap_append]

theorem newline_notMem_textLines {order : ℕ → MetadataOrder} {line : ByteString}
    (h : line ∈ l.textLines order) : 10 ∉ line := by
  simp only [textLines, List.mem_cons, List.mem_append, List.mem_map, List.not_mem_nil,
    or_false] at h
  rcases h with rfl | ⟨s, -, rfl⟩ | rfl
  · have h1 : (10 : UInt8) ∉ bytes "Width " := by decide
    have h2 : (10 : UInt8) ∉ decimal l.width.toNat := notMem_decimal rfl _
    simp [h1, h2]
  · exact newline_notMem_slotLine _ _
  · decide

theorem checkSlot_ok {itemI : ℕ} (h : itemI < l.items.length) : l.checkSlot itemI = .ok () := by
  unfold checkSlot
  rw [if_neg (by omega)]

theorem setItem_ok {itemI : ℕ} (h : itemI < l.items.length) (item : ItemStack) :
    l.setItem itemI item = .ok { l with items := l.items.set itemI item } := by
  rw [setItem, if_pos h]

theorem readLines_end (itemI : ℕ) (l : InventoryList) (lines : List ByteString) :
    readLines u json idef itemI l (bytes "EndInventoryList" :: lines) =
      .ok ({ l with items := l.items.take itemI ++
        List.replicate (l.items.length - itemI) {} }, lines) := by
  rw [readLines, IStream.getline_end (by decide)]
  simp

theorem readLines_slot (order : MetadataOrder) {itemI : ℕ} (h : itemI < l.items.length)
    (s : ItemStack) (lines : List ByteString) :
    readLines u json idef itemI l (slotLine order s :: lines) =
      readSlot u json idef order s >>= fun t =>
        readLines u json idef (itemI + 1) { l with items := l.items.set itemI t } lines := by
  unfold slotLine readSlot
  split_ifs with hs
  · rw [readLines, IStream.getline_end (by decide)]
    simp only [checkSlot_ok h, setItem_ok h]
    rfl
  · have htext : bytes "Item " ++ s.serialize order true =
        bytes "Item" ++ 32 :: s.serialize order true := rfl
    rw [readLines, htext, IStream.getline_delim (by decide)]
    simp only [checkSlot_ok h, setItem_ok h]
    rfl

variable (u json idef) in
/-- The lines of slots are read over whatever the slots held. -/
theorem readLines_slots (order : ℕ → MetadataOrder) {todo old : ItemList} (done : ItemList)
    (name : ByteString) (width : UInt32) (lines : List ByteString)
    (hold : old.length = todo.length) :
    readLines u json idef done.length ⟨name, width, done ++ old⟩
        (((todo.zipIdx done.length).map fun s => slotLine (order s.2) s.1) ++
          bytes "EndInventoryList" :: lines) =
      (readSlots u json idef order done.length todo).map fun items =>
        (⟨name, width, done ++ items⟩, lines) := by
  induction todo generalizing done old with
  | nil =>
    rw [List.length_eq_zero_iff.mp hold]
    simp [readLines_end, readSlots, Except.map]
  | cons s todo ih =>
    obtain ⟨o, old, rfl⟩ := List.exists_cons_of_length_eq_add_one hold
    rw [List.zipIdx_cons, List.map_cons, List.cons_append, readLines_slot _ (by simp), readSlots]
    cases hs : readSlot u json idef (order done.length) s with
    | error e => rfl
    | ok t =>
      have hset : (done ++ o :: old).set done.length t = (done ++ [t]) ++ old := by
        simp
      have ih := ih (done ++ [t]) (Nat.succ_injective hold)
      simp only [List.length_append, List.length_singleton] at ih
      simp only [bind, Except.bind, hset, ih]
      cases readSlots u json idef order (done.length + 1) todo <;>
        simp [Except.map, pure, Except.pure]

variable (u json idef) in
theorem deSerialize_textLines (order : ℕ → MetadataOrder) (l old : InventoryList)
    (hname : old.name = l.name) (hlength : old.items.length = l.items.length)
    (lines : List ByteString) :
    deSerialize u json idef old (l.textLines order ++ lines) =
      (readSlots u json idef order 0 l.items).map fun items => ({ l with items }, lines) := by
  have htext : bytes "Width " ++ decimal l.width.toNat =
      bytes "Width" ++ 32 :: decimal l.width.toNat := rfl
  have hread := readUnsigned_decimal (show l.width.toNat < 2 ^ 32 from l.width.toNat_lt)
  have hslots := readLines_slots u json idef order [] l.name l.width lines hlength
  rw [deSerialize, textLines, List.cons_append, readLines, htext, IStream.getline_delim (by decide)]
  have hend : ¬(bytes "Width" = bytes "EndInventoryList" ∨ bytes "Width" = bytes "end") := by decide
  simp only [hread, if_neg hend, hname]
  simpa using hslots

end InventoryList

namespace InventoryLists

def header (l : InventoryList) : ByteString :=
  bytes "List " ++ l.name ++ 32 :: decimal l.items.length

def readAll (u : Uninit) (json : Json) (idef : Option ItemDefManager)
    (order : ℕ → ℕ → MetadataOrder) : ℕ → InventoryLists → Except LoadError InventoryLists
  | _, [] => .ok []
  | i, l :: inv => do
    let items ← readSlots u json idef (order i) 0 l.items
    let ls ← readAll u json idef order (i + 1) inv
    pure ({ l with items } :: ls)

def listLines (order : ℕ → ℕ → MetadataOrder) (l : InventoryList × ℕ) : List ByteString :=
  header l.1 :: l.1.textLines (order l.2)

theorem serialize_eq (order : ℕ → ℕ → MetadataOrder) (inv : InventoryLists) :
    inv.serialize order =
      (inv.zipIdx.flatMap (listLines order) ++ [bytes "EndInventory"]).flatMap (· ++ [10]) := by
  simp [serialize, listLines, header, InventoryList.serialize_eq, List.flatMap_assoc]

theorem newline_notMem_header (h : 10 ∉ l.name) : 10 ∉ header l := by
  have h1 : (10 : UInt8) ∉ bytes "List " := by decide
  have h2 : (10 : UInt8) ∉ decimal l.items.length := notMem_decimal rfl _
  simp [header, h, h1, h2]

/-- The text of an inventory and what stands after it, cut into lines. -/
theorem splitOn_serialize_append (order : ℕ → ℕ → MetadataOrder) (h : ∀ l ∈ inv, 10 ∉ l.name)
    (rest : ByteString) :
    (inv.serialize order ++ rest).splitOn 10 =
      inv.zipIdx.flatMap (listLines order) ++ bytes "EndInventory" :: rest.splitOn 10 := by
  have hlines : ∀ line ∈ inv.zipIdx.flatMap (listLines order) ++ [bytes "EndInventory"],
      10 ∉ line := by
    intro line hline
    rcases List.mem_append.mp hline with hline | hline
    · obtain ⟨l, hl, hline⟩ := List.mem_flatMap.mp hline
      rcases List.mem_cons.mp hline with rfl | hline
      · exact newline_notMem_header (h l.1 (List.fst_mem_of_mem_zipIdx hl))
      · exact InventoryList.newline_notMem_textLines hline
    · rw [List.mem_singleton] at hline
      rw [hline]
      decide
  have hsplit := splitOn_lines hlines rest
  rw [← serialize_eq] at hsplit
  rw [hsplit, List.append_assoc]
  rfl

theorem splitOn_serialize (order : ℕ → ℕ → MetadataOrder) (h : ∀ l ∈ inv, 10 ∉ l.name) :
    (inv.serialize order).splitOn 10 =
      inv.zipIdx.flatMap (listLines order) ++ [bytes "EndInventory", []] := by
  have happend := splitOn_serialize_append order h []
  rwa [List.append_nil, List.splitOn_nil] at happend

theorem readListsFrom_end (n : ℕ) (inv : InventoryLists) (lines : List ByteString) :
    readListsFrom u json idef (n + 1) inv (List.range inv.length)
      (bytes "EndInventory" :: lines) = .ok (inv, lines) := by
  have hall : inv.zipIdx.filter (fun l => decide (l.2 ∈ List.range inv.length)) = inv.zipIdx := by
    rw [List.filter_eq_self]
    intro l hl
    have := List.snd_lt_of_mem_zipIdx hl
    simpa using this
  rw [readListsFrom, IStream.getline_end (by decide)]
  simp only [true_or, if_true, hall, List.zipIdx_map_fst]

theorem readListsFrom_list (order : ℕ → MetadataOrder) (n : ℕ) (lines : List ByteString)
    (hname : 32 ∉ l.name) (hsize : l.items.length < 2 ^ 32)
    (hnew : l.name ∉ inv.map InventoryList.name) :
    readListsFrom u json idef (n + 1) inv (List.range inv.length)
        (header l :: (l.textLines order ++ lines)) =
      readSlots u json idef order 0 l.items >>= fun items =>
        readListsFrom u json idef n (inv ++ [{ l with items }]) (List.range (inv.length + 1))
          lines := by
  have htext : header l = bytes "List" ++ 32 :: (l.name ++ 32 :: decimal l.items.length) := by
    simp [header, bytes]
  have hend : ¬(bytes "List" = bytes "EndInventory" ∨ bytes "List" = bytes "end") := by decide
  have hread := InventoryList.deSerialize_textLines u json idef order l
      ⟨l.name, 0, List.replicate l.items.length {}⟩ rfl (by simp) lines
  rw [readListsFrom, htext, IStream.getline_delim (by decide)]
  simp only [if_neg hend, if_true, IStream.getline_delim hname, readUnsigned_decimal hsize,
    getListIndex_eq_none.mpr hnew, hread, List.range_succ]
  cases readSlots u json idef order 0 l.items <;> rfl

variable (u json idef) in
/-- The lines of lists are read, and those after them are left. -/
theorem readListsFrom_all (order : ℕ → ℕ → MetadataOrder) (todo done : InventoryLists) (n : ℕ)
    (hn : todo.length < n) (hname : ∀ l ∈ todo, 32 ∉ l.name)
    (hsize : ∀ l ∈ todo, l.items.length < 2 ^ 32)
    (hnodup : ((done ++ todo).map InventoryList.name).Nodup) (lines : List ByteString) :
    readListsFrom u json idef n done (List.range done.length)
        ((todo.zipIdx done.length).flatMap (listLines order) ++ bytes "EndInventory" :: lines) =
      (readAll u json idef order done.length todo).map fun inv => (done ++ inv, lines) := by
  induction todo generalizing done n with
  | nil =>
    obtain ⟨n, rfl⟩ : ∃ k, n = k + 1 := ⟨n - 1, by simp at hn; omega⟩
    simpa [readAll, Except.map] using readListsFrom_end n done lines
  | cons l todo ih =>
    obtain ⟨n, rfl⟩ : ∃ k, n = k + 1 := ⟨n - 1, by simp at hn; omega⟩
    have hnew : l.name ∉ done.map InventoryList.name := by
      intro hmem
      rw [List.map_append, List.map_cons] at hnodup
      exact (List.disjoint_of_nodup_append hnodup) hmem List.mem_cons_self
    rw [List.zipIdx_cons, List.flatMap_cons, listLines, List.cons_append, List.cons_append,
      List.append_assoc, readListsFrom_list _ _ _ (hname l List.mem_cons_self)
      (hsize l List.mem_cons_self) hnew, readAll]
    cases hslots : readSlots u json idef (order done.length) 0 l.items with
    | error e => rfl
    | ok items =>
      have ih := ih (done ++ [{ l with items }]) n (by simpa using hn)
        (fun l hl => hname l (List.mem_cons_of_mem _ hl))
        (fun l hl => hsize l (List.mem_cons_of_mem _ hl)) (by simpa using hnodup)
      simp only [List.length_append, List.length_singleton] at ih
      simp only [bind, Except.bind, ih]
      cases readAll u json idef order (done.length + 1) todo <;>
        simp [Except.map, pure, Except.pure]

theorem length_le_lines (order : ℕ → ℕ → MetadataOrder) (inv : InventoryLists) (k : ℕ) :
    inv.length ≤ ((inv.zipIdx k).flatMap (listLines order)).length := by
  induction inv generalizing k with
  | nil => exact Nat.zero_le _
  | cons l inv ih =>
    have ih := ih (k + 1)
    simp only [List.zipIdx_cons, List.flatMap_cons, List.length_append, listLines,
      List.length_cons]
    omega

variable (u json idef) in
/-- An inventory's text is read as the lists that its slots' texts are read as, and the lines after
it are left. -/
theorem readListsFrom_text (order : ℕ → ℕ → MetadataOrder) (h : inv.Valid)
    (lines : List ByteString) {n : ℕ}
    (hn : (inv.zipIdx.flatMap (listLines order)).length < n) :
    readListsFrom u json idef n [] []
        (inv.zipIdx.flatMap (listLines order) ++ bytes "EndInventory" :: lines) =
      (readAll u json idef order 0 inv).map fun inv => (inv, lines) := by
  have hle := length_le_lines order inv 0
  have hall := readListsFrom_all u json idef order inv [] n (by omega) h.name h.size
    (by simpa using h.nodup) lines
  simpa using hall

/-- An inventory's text is read as the lists that its slots' texts are read as. -/
theorem deSerialize_serialize (order : ℕ → ℕ → MetadataOrder) (h : inv.Valid)
    (hnl : ∀ l ∈ inv, 10 ∉ l.name) :
    deSerialize u json idef [] (inv.serialize order) = readAll u json idef order 0 inv := by
  rw [deSerialize, splitOn_serialize order hnl, readLists_eq,
    readListsFrom_text u json idef order h [[]] (by simp)]
  cases readAll u json idef order 0 inv <;> rfl

theorem streamAt_splitOn (rest : ByteString) : streamAt (rest.splitOn 10) = { rest } := by
  obtain ⟨line, lines, h⟩ := List.exists_cons_of_ne_nil (List.splitOn_ne_nil 10 rest)
  have hrest : List.intercalate [10] (rest.splitOn 10) = rest := List.intercalate_splitOn 10
  rw [h] at hrest ⊢
  rw [streamAt, hrest]
  simp

/-- An inventory is read from a stream up to its end. -/
theorem deSerializeStream_append (order : ℕ → ℕ → MetadataOrder) (h : inv.Valid)
    (hnl : ∀ l ∈ inv, 10 ∉ l.name) (hread : readAll u json idef order 0 inv = .ok inv)
    (rest : ByteString) :
    deSerializeStream u json idef [] { rest := inv.serialize order ++ rest } =
      .ok (inv, { rest }) := by
  have hgood : IStream.good { rest := inv.serialize order ++ rest } = true := rfl
  unfold deSerializeStream
  rw [if_pos hgood]
  dsimp only
  rw [splitOn_serialize_append order hnl, readListsFrom_text u json idef order h _ (by simp), hread]
  simp only [Except.map, streamAt_splitOn]

variable (u json idef) in
theorem readSlot_eq_iff (order : MetadataOrder) (hname : s.count ≠ 0 → s.name ∉ obsoleteWords) :
    readSlot u json idef order s = .ok s ↔ s.Stored json idef := by
  unfold readSlot
  split_ifs with hempty
  · rw [empty_iff] at hempty
    rw [Except.ok.injEq, eq_comm, Stored]
    constructor
    · exact .inl
    · rintro (h | h)
      · exact h
      · exact absurd hempty h.1
  · rw [empty_iff] at hempty
    exact deSerialize_serialize_iff order hempty (hname hempty)

variable (u json idef) in
theorem readSlots_eq_iff (order : ℕ → MetadataOrder) (items : ItemList)
    (hname : ∀ s ∈ items, s.count ≠ 0 → s.name ∉ obsoleteWords) (i : ℕ) :
    readSlots u json idef order i items = .ok items ↔ ∀ s ∈ items, s.Stored json idef := by
  induction items generalizing i with
  | nil => simp [readSlots]
  | cons s items ih =>
    have hs := readSlot_eq_iff u json idef (order i)
      (hname s List.mem_cons_self)
    have ih := ih (fun s hs => hname s (List.mem_cons_of_mem _ hs)) (i + 1)
    rw [List.forall_mem_cons, ← hs, ← ih, readSlots]
    constructor
    · intro h
      obtain ⟨t, ht, h⟩ := bind_eq_ok.mp h
      obtain ⟨ts, hts, h⟩ := bind_eq_ok.mp h
      obtain ⟨rfl, rfl⟩ := List.cons.inj (Except.ok.inj h)
      exact ⟨ht, hts⟩
    · rintro ⟨ht, hts⟩
      rw [ht, hts]
      rfl

theorem readAll_eq_iff (order : ℕ → ℕ → MetadataOrder) (inv : InventoryLists)
    (hname : ∀ l ∈ inv, ∀ s ∈ l.items, s.count ≠ 0 → s.name ∉ obsoleteWords) (i : ℕ) :
    readAll u json idef order i inv = .ok inv ↔
      ∀ l ∈ inv, ∀ s ∈ l.items, s.Stored json idef := by
  induction inv generalizing i with
  | nil => simp [readAll]
  | cons l inv ih =>
    have hl := readSlots_eq_iff u json idef (order i) l.items
      (hname l List.mem_cons_self) 0
    have ih := ih (fun l hl => hname l (List.mem_cons_of_mem _ hl)) (i + 1)
    rw [List.forall_mem_cons, ← hl, ← ih, readAll]
    constructor
    · intro h
      obtain ⟨items, hitems, h⟩ := bind_eq_ok.mp h
      obtain ⟨ls, hls, h⟩ := bind_eq_ok.mp h
      obtain ⟨h1, rfl⟩ := List.cons.inj (Except.ok.inj h)
      exact ⟨hitems.trans (congrArg _ (congrArg InventoryList.items h1)), hls⟩
    · rintro ⟨hitems, hls⟩
      rw [hitems, hls]
      rfl

end InventoryLists

end Lines

/-! ## The round trip -/

namespace InventoryLists

/-- A new inventory reads the lists back from their text as they are. -/
def RoundTrips (u : Uninit) (json : Json) (idef : Option ItemDefManager)
    (order : ℕ → ℕ → MetadataOrder) (inv : InventoryLists) : Prop :=
  deSerialize u json idef [] (inv.serialize order) = .ok inv

instance (u : Uninit) (json : Json) (idef : Option ItemDefManager)
    (order : ℕ → ℕ → MetadataOrder) (inv : InventoryLists) :
    Decidable (RoundTrips u json idef order inv) :=
  inferInstanceAs (Decidable (deSerialize u json idef [] (inv.serialize order) = .ok inv))

/-- Where each list name is one line, and without the obsolete words, an inventory comes back
exactly where each of its stacks is stored as the item code builds it. -/
theorem roundTrips_iff_stored (u : Uninit) (json : Json) (idef : Option ItemDefManager)
    (order : ℕ → ℕ → MetadataOrder) {inv : InventoryLists} (h : ops.Reach inv)
    (hnl : ∀ l ∈ inv, 10 ∉ l.name)
    (hwords : ∀ l ∈ inv, ∀ s ∈ l.items, s.count ≠ 0 → s.name ∉ obsoleteWords) :
    RoundTrips u json idef order inv ↔ ∀ l ∈ inv, ∀ s ∈ l.items, s.Stored json idef := by
  rw [RoundTrips, deSerialize_serialize order (reach_valid h) hnl, readAll_eq_iff order inv hwords]

noncomputable def anyOrder : MetadataOrder := HashOrder.any ByteString ByteString

def anyUninit : Uninit := ⟨0, 0, 0⟩

def anyJson : Json := ⟨fun _ => true, fun _ => true⟩

def anyItems : Option ItemDefManager := some { get := fun _ => {} }

def chest (s : ItemStack) : InventoryLists :=
  [{ name := bytes "main", items := [s, {}] }]

theorem reach_chest (s : ItemStack) (ok : InventoryLists → Op → Prop)
    (hadd : ok [] (.addList (bytes "main") 2))
    (hchange : ok (chest {}) (.changeItem 0 0 s)) : ops.Run ok (chest s) := by
  have h1 : ops.Run ok (chest {}) := .step (.init rfl) hadd rfl
  exact .step h1 hchange rfl

def namedStone : ItemStack where
  name := bytes "default:stone"
  count := 5
  metadata := Finmap.singleton (bytes "description") (bytes "a stone")

theorem stored_namedStone : namedStone.Stored anyJson anyItems := by
  refine .inr ⟨by decide, by decide, rfl, by decide, ?_, by decide +kernel⟩
  intro k v hk
  by_cases hkey : k = bytes "description"
  · rw [hkey, namedStone, Finmap.lookup_singleton_eq, Option.some.injEq] at hk
    subst hkey hk
    decide
  · have hmem := Finmap.mem_of_lookup_eq_some hk
    exact absurd ((Finmap.mem_singleton _ _ _).mp hmem) hkey

theorem roundTrips_iff_stored_stone :
    RoundTrips anyUninit anyJson anyItems (fun _ _ => anyOrder) (chest namedStone) := by
  refine (roundTrips_iff_stored anyUninit anyJson anyItems (fun _ _ => anyOrder)
    (reach_chest namedStone _ trivial trivial) (by decide) (by decide)).mpr ?_
  simp only [chest, List.forall_mem_singleton, List.forall_mem_cons]
  exact ⟨stored_namedStone, .inl rfl⟩

/-- A node's old word is not read as a name. -/
theorem not_roundTrips :
    ¬ ∀ (u : Uninit) (json : Json) (idef : Option ItemDefManager)
      (order : ℕ → ℕ → MetadataOrder) (inv : InventoryLists),
      ops.Run (fun _ op => ∀ list i s, op = .changeItem list i s → 32 ∉ s.name) inv →
        RoundTrips u json idef order inv := by
  intro h
  have hrun := reach_chest { name := bytes "node", count := 5 }
    (fun _ op => ∀ list i s, op = .changeItem list i s → 32 ∉ s.name) (by simp) (by
      rintro _ _ s ⟨⟩
      decide)
  exact absurd (h anyUninit anyJson anyItems (fun _ _ => anyOrder) _ hrun) (by decide +kernel)

end InventoryLists

end Freeminer.Inventory
