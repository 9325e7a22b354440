import Freeminer.Inventory.InventoryText
import Freeminer.Inventory.Move

/-! The lists of an inventory with their `m_dirty`, and the operations that mark what they change. -/

namespace Freeminer.Inventory

variable {ρ : Type} [DecidableEq ρ]

/-- The slots of a list, and its `m_dirty`. -/
structure Slots where
  items : ItemList
  dirty : Bool := true

namespace Slots

def clearItems (l : Slots) : Slots := { items := List.replicate l.items.length {} }

/-- `changeItem`: the old item. -/
def changeItem (l : Slots) (i : ℕ) (newitem : ItemStack) : ItemStack × Slots :=
  match l.items[i]? with
  | none => (newitem, l)
  | some olditem => (olditem, if olditem ≠ newitem then { items := l.items.set i newitem } else l)

def deleteItem (l : Slots) (i : ℕ) : Slots :=
  match l.items[i]? with
  | none => l
  | some _ => { items := l.items.set i {} }

/-- `addItem` to a slot: what is left. -/
def addItemAt (idef : ItemDefManager) (l : Slots) (i : ℕ) (newitem : ItemStack) :
    Except Fault (ItemStack × Slots) :=
  match l.items[i]? with
  | none => .ok (newitem, l)
  | some s => do
    let (leftover, s) ← s.addItem idef newitem
    pure (leftover, { items := l.items.set i s, dirty := l.dirty || decide (leftover ≠ newitem) })

/-- A loop of `addItem` over the slots that are empty, or over those that are not. -/
def addItemLoop (idef : ItemDefManager) (toEmpty : Bool) :
    List ℕ → ItemStack → Slots → Except Fault (ItemStack × Slots)
  | [], newitem, l => .ok (newitem, l)
  | i :: is, newitem, l => do
    let slot ← l.items.getItem i
    if slot.empty ≠ toEmpty then addItemLoop idef toEmpty is newitem l
    else
      let (newitem, l) ← l.addItemAt idef i newitem
      if newitem.empty then pure (newitem, l) else addItemLoop idef toEmpty is newitem l

/-- `addItem` to any slot: what is left. -/
def addItem (idef : ItemDefManager) (l : Slots) (newitem : ItemStack) :
    Except Fault (ItemStack × Slots) :=
  if newitem.empty then .ok (newitem, l)
  else do
    let (newitem, l) ← addItemLoop idef false (List.range l.items.length) newitem l
    if newitem.empty then pure (newitem, l)
    else addItemLoop idef true (List.range l.items.length) newitem l

def takeItem (l : Slots) (i : ℕ) (takecount : UInt32) : Except Fault (ItemStack × Slots) :=
  match l.items[i]? with
  | none => .ok ({}, l)
  | some s => do
    let (taken, s) ← s.takeItem takecount
    pure (taken, { items := l.items.set i s, dirty := l.dirty || !taken.empty })

end Slots

/-! ### Moves between lists -/

abbrev SlotLists (ρ : Type) := ρ → Slots

namespace SlotLists

def changeItem (lists : SlotLists ρ) (r : ρ) (i : ℕ) (newitem : ItemStack) :
    ItemStack × SlotLists ρ :=
  let (olditem, l) := (lists r).changeItem i newitem
  (olditem, Function.update lists r l)

def addItemAt (idef : ItemDefManager) (lists : SlotLists ρ) (r : ρ) (i : ℕ) (newitem : ItemStack) :
    Except Fault (ItemStack × SlotLists ρ) := do
  let (leftover, l) ← (lists r).addItemAt idef i newitem
  pure (leftover, Function.update lists r l)

def addItem (idef : ItemDefManager) (lists : SlotLists ρ) (r : ρ) (newitem : ItemStack) :
    Except Fault (ItemStack × SlotLists ρ) := do
  let (leftover, l) ← (lists r).addItem idef newitem
  pure (leftover, Function.update lists r l)

def takeItem (lists : SlotLists ρ) (r : ρ) (i : ℕ) (takecount : UInt32) :
    Except Fault (ItemStack × SlotLists ρ) := do
  let (taken, l) ← (lists r).takeItem i takecount
  pure (taken, Function.update lists r l)

/-- The item taken from the source list: everything if the count is 0. -/
def takeSource (lists : SlotLists ρ) (src : ρ) (i : ℕ) (count : UInt32) :
    Except Fault (ItemStack × SlotLists ρ) :=
  if count = 0 then .ok (lists.changeItem src i {}) else lists.takeItem src i count

def moveItem (idef : ItemDefManager) (lists : SlotLists ρ) (src : ρ) (i : ℕ) (dest : ρ)
    (destI : ℕ) (count : UInt32) (swapIfNeeded : Bool) : Except Fault (SlotLists ρ) :=
  if src = dest ∧ i = destI then .ok lists
  else do
    let (moved, lists) ← lists.takeSource src i count
    let (leftover, lists) ← lists.addItemAt idef dest destI moved
    if leftover.empty then pure lists
    else
      let moved ← moved.remove leftover.count
      -- add any leftover stack back to the source stack
      let item ← (lists src).items.getItem i
      let leftover ← leftover.add item.count
      let (_, lists) := lists.changeItem src i leftover
      if moved.empty && swapIfNeeded then
        let (moved, lists) := lists.changeItem src i {}
        let (item2, lists) := lists.changeItem dest destI moved
        let (_, lists) := lists.changeItem src i item2
        pure lists
      else pure lists

def moveItemSomewhere (idef : ItemDefManager) (lists : SlotLists ρ) (src : ρ) (i : ℕ) (dest : ρ)
    (count : UInt32) : Except Fault (SlotLists ρ) := do
  let (item1, lists) ← lists.takeSource src i count
  if item1.empty then pure lists
  else
    let (leftover, lists) ← lists.addItem idef dest item1
    if leftover.empty then pure lists
    else
      -- add the remaining part back to the source item
      let item ← (lists src).items.getItem i
      let leftover ← leftover.add item.count
      let (_, lists) := lists.changeItem src i leftover
      pure lists

/-! ### The items are moved as they are without marks -/

variable {lists : SlotLists ρ} {src dest : ρ} {i : ℕ} {newitem : ItemStack}
  {idef : ItemDefManager} {count : UInt32}

end SlotLists

/-! ### Inventories -/

structure TrackedList where
  name : ByteString
  width : UInt32 := 0
  slots : Slots

namespace TrackedList

def list (l : TrackedList) : InventoryList := ⟨l.name, l.width, l.slots.items⟩

@[simp] theorem name_list (l : TrackedList) : l.list.name = l.name := rfl

def setModified (l : TrackedList) (dirty : Bool) : TrackedList :=
  { l with slots.dirty := dirty }

def clearItems (l : TrackedList) : TrackedList := { l with slots := l.slots.clearItems }

def setSize (l : TrackedList) (newsize : UInt32) : TrackedList :=
  if newsize.toNat = l.slots.items.length then l
  else { l with slots := { items := (l.list.setSize newsize).items } }

def setWidth (l : TrackedList) (newwidth : UInt32) : TrackedList :=
  { l with width := newwidth, slots.dirty := true }

/-- `operator=`, which leaves `m_dirty` as it is. -/
def assign (l : TrackedList) (other : InventoryList) : TrackedList where
  name := other.name
  width := other.width
  slots := { items := other.items, dirty := l.slots.dirty }

/-- The copy constructor: `operator=` on a list that is new, and marked. -/
def copy (other : InventoryList) : TrackedList :=
  assign { name := [], slots := { items := [] } } other

end TrackedList

structure TrackedInventory where
  lists : List TrackedList := []
  dirty : Bool := true

namespace TrackedInventory

def getListIndex (inv : TrackedInventory) (name : ByteString) : Option ℕ :=
  inv.lists.findIdx? fun l => decide (l.name = name)

def modify (inv : TrackedInventory) (i : ℕ) (f : TrackedList → TrackedList) : TrackedInventory :=
  { inv with lists := inv.lists.modify i f }

def checkModified (inv : TrackedInventory) : Bool :=
  inv.dirty || inv.lists.any fun l => l.slots.dirty

def setModified (inv : TrackedInventory) (dirty : Bool) : TrackedInventory where
  lists := if dirty then inv.lists else inv.lists.map fun l => l.setModified false
  dirty := dirty

def addList (inv : TrackedInventory) (name : ByteString) (size : UInt32) : TrackedInventory :=
  let inv := inv.setModified true
  match inv.getListIndex name with
  | some i => inv.modify i fun l => (l.setSize size).clearItems
  | none =>
    if 32 ∈ name then inv
    else
      { inv with
        lists := inv.lists ++ [{ name, slots := { items := List.replicate size.toNat {} } }] }

def deleteList (inv : TrackedInventory) (name : ByteString) : TrackedInventory :=
  match inv.getListIndex name with
  | none => inv
  | some i => { lists := inv.lists.eraseIdx i }

def clear (_ : TrackedInventory) : TrackedInventory := {}

/-- `operator=` of an inventory. -/
def assign (inv : TrackedInventory) (other : InventoryLists) : TrackedInventory :=
  { inv.clear with lists := other.map TrackedList.copy }.setModified true

def slots (inv : TrackedInventory) (elsewhere : ItemList) : SlotLists (Option ℕ)
  | none => { items := elsewhere }
  | some k => ((inv.lists[k]?).map TrackedList.slots).getD { items := [] }

def withSlots (inv : TrackedInventory) (slots : SlotLists (Option ℕ)) : TrackedInventory :=
  { inv with lists := inv.lists.mapIdx fun k l => { l with slots := slots (some k) } }

/-- What the server does to an inventory. A list is named by its place; a move may have one end
elsewhere. -/
inductive Mutation where
  | changeItem (list i : ℕ) (newitem : ItemStack)
  | deleteItem (list i : ℕ)
  | addItemAt (list i : ℕ) (newitem : ItemStack)
  | addItem (list : ℕ) (newitem : ItemStack)
  | takeItem (list i : ℕ) (takecount : UInt32)
  | moveItem (src : Option ℕ) (i : ℕ) (dest : Option ℕ) (destI : ℕ) (count : UInt32)
      (swapIfNeeded : Bool) (elsewhere : ItemList)
  | moveItemSomewhere (src : Option ℕ) (i : ℕ) (dest : Option ℕ) (count : UInt32)
      (elsewhere : ItemList)
  | clearItems (list : ℕ)
  | setSize (list : ℕ) (newsize : UInt32)
  | setWidth (list : ℕ) (newwidth : UInt32)
  | setListModified (list : ℕ)
  | setModified
  | addList (name : ByteString) (size : UInt32)
  | deleteList (name : ByteString)
  | clear
  | assignList (list : ℕ) (other : InventoryList)
  | assign (other : InventoryLists)

variable (idef : ItemDefManager)

def onSlots (inv : TrackedInventory) (list : ℕ) (f : Slots → Except Fault Slots) :
    Except Fault TrackedInventory := do
  let l ← f (inv.slots [] (some list))
  pure (inv.modify list fun old => { old with slots := l })

def apply (inv : TrackedInventory) : Mutation → Except Fault TrackedInventory
  | .changeItem list i newitem => inv.onSlots list fun l => .ok (l.changeItem i newitem).2
  | .deleteItem list i => inv.onSlots list fun l => .ok (l.deleteItem i)
  | .addItemAt list i newitem => inv.onSlots list fun l => (·.2) <$> l.addItemAt idef i newitem
  | .addItem list newitem => inv.onSlots list fun l => (·.2) <$> l.addItem idef newitem
  | .takeItem list i takecount => inv.onSlots list fun l => (·.2) <$> l.takeItem i takecount
  | .moveItem src i dest destI count swapIfNeeded elsewhere =>
    inv.withSlots <$> (inv.slots elsewhere).moveItem idef src i dest destI count swapIfNeeded
  | .moveItemSomewhere src i dest count elsewhere =>
    inv.withSlots <$> (inv.slots elsewhere).moveItemSomewhere idef src i dest count
  | .clearItems list => .ok (inv.modify list TrackedList.clearItems)
  | .setSize list newsize => .ok (inv.modify list fun l => l.setSize newsize)
  | .setWidth list newwidth => .ok (inv.modify list fun l => l.setWidth newwidth)
  | .setListModified list => .ok (inv.modify list fun l => l.setModified true)
  | .setModified => .ok (inv.setModified true)
  | .addList name size => .ok (inv.addList name size)
  | .deleteList name => .ok (inv.deleteList name)
  | .clear => .ok inv.clear
  | .assignList list other => .ok (inv.modify list fun l => l.assign other)
  | .assign other => .ok (inv.assign other)

end TrackedInventory

end Freeminer.Inventory
