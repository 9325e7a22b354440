import Freeminer.Inventory.Tracked
import Freeminer.Lib.Replica

/-! Every operation marks the lists that it changes, but one: a list that is assigned keeps its mark. -/

namespace Freeminer.Inventory

open Lib

variable {ρ : Type} [DecidableEq ρ] {idef : ItemDefManager} {i : ℕ} {s newitem : ItemStack}

/-- A stack that takes nothing of another is as it was. -/
theorem ItemStack.eq_of_addItem {s' : ItemStack} (h : s.addItem idef newitem = .ok (newitem, s')) :
    s' = s := by
  unfold ItemStack.addItem at h
  split_ifs at h with hnew hempty hkind hfits
  · exact (Prod.mk.inj (Except.ok.inj h)).2.symm
  · have hdefault := (Prod.mk.inj (Except.ok.inj h)).1
    rw [← hdefault] at hnew
    exact absurd rfl hnew
  · exact (Prod.mk.inj (Except.ok.inj h)).2.symm
  · obtain ⟨t, -, h⟩ := bind_eq_ok.mp h
    have hdefault := (Prod.mk.inj (Except.ok.inj h)).1
    rw [← hdefault] at hnew
    exact absurd rfl hnew
  · obtain ⟨t, hadd, h⟩ := bind_eq_ok.mp h
    obtain ⟨left, hremove, h⟩ := bind_eq_ok.mp h
    obtain ⟨rfl, rfl⟩ := Prod.mk.inj (Except.ok.inj h)
    have hle : s.freeSpace idef ≤ left.count := UInt16.le_of_lt (UInt16.not_le.mp hfits)
    obtain ⟨left', hremove', hcount, -, -⟩ := remove_spec hle
    obtain rfl := Except.ok.inj (hremove'.symm.trans hremove)
    have hzero : s.freeSpace idef = 0 := by
      have hle := UInt16.le_iff_toNat_le.mp hle
      have hlt := UInt16.lt_iff_toNat_lt.mp (UInt16.not_le.mp hfits)
      exact UInt16.toNat_inj.mp (by rw [UInt16.toNat_zero]; omega)
    rw [hzero, ItemStack.add] at hadd
    split_ifs at hadd
    obtain rfl := Except.ok.inj hadd
    rw [UInt16.add_zero]

/-- A stack of which nothing is taken is as it was. -/
theorem ItemStack.eq_of_takeItem {n : UInt32} {taken rest : ItemStack}
    (h : s.takeItem n = .ok (taken, rest)) (hempty : taken.empty = true) : rest = s := by
  unfold ItemStack.takeItem at h
  split_ifs at h with h0 hall
  · exact (Prod.mk.inj (Except.ok.inj h)).2.symm
  · rw [← (Prod.mk.inj (Except.ok.inj h)).1, empty_iff] at hempty
    exact absurd (.inr hempty) h0
  · obtain ⟨t, -, h⟩ := bind_eq_ok.mp h
    rw [← (Prod.mk.inj (Except.ok.inj h)).1, empty_iff] at hempty
    have hlt := s.count.toNat_lt
    have hn : n.toUInt16.toNat = n.toNat := by
      rw [UInt32.toNat_toUInt16]
      omega
    have hempty : n.toUInt16 = 0 := hempty
    rw [hempty, UInt16.toNat_zero] at hn
    exact absurd (.inl (UInt32.toNat_inj.mp hn.symm)) h0

namespace Slots

variable {l l' : Slots}

def Marks (l l' : Slots) : Prop := l'.dirty = false → l' = l

theorem Marks.refl (l : Slots) : l.Marks l := fun _ => rfl

theorem Marks.trans {m : Slots} (h : l.Marks l') (h' : l'.Marks m) : l.Marks m := by
  intro hm
  obtain rfl := h' hm
  exact h hm

theorem marks_changeItem (l : Slots) (i : ℕ) (newitem : ItemStack) :
    l.Marks (l.changeItem i newitem).2 := by
  unfold changeItem
  cases l.items[i]? with
  | none => exact .refl l
  | some olditem =>
    dsimp only
    split_ifs
    · intro h
      cases h
    · exact .refl l

theorem marks_deleteItem (l : Slots) (i : ℕ) : l.Marks (l.deleteItem i) := by
  unfold deleteItem
  cases l.items[i]? with
  | none => exact .refl l
  | some _ =>
    intro h
    cases h

theorem marks_addItemAt {left : ItemStack} (h : l.addItemAt idef i newitem = .ok (left, l')) :
    l.Marks l' := by
  unfold addItemAt at h
  cases hs : l.items[i]? with
  | none =>
    rw [hs] at h
    obtain ⟨-, rfl⟩ := Prod.mk.inj (Except.ok.inj h)
    exact .refl l
  | some s =>
    rw [hs] at h
    obtain ⟨r, hadd, h⟩ := bind_eq_ok.mp h
    obtain ⟨rfl, rfl⟩ := Prod.mk.inj (Except.ok.inj h)
    intro hclean
    rw [Bool.or_eq_false_iff, decide_eq_false_iff_not, not_not] at hclean
    have hadd : s.addItem idef newitem = .ok (newitem, r.2) := by rw [hadd, ← hclean.2]
    have hsame := ItemStack.eq_of_addItem hadd
    obtain ⟨hi, rfl⟩ := List.getElem?_eq_some_iff.mp hs
    obtain ⟨items, dirty⟩ := l
    obtain rfl : dirty = false := hclean.1
    simp [hsame, hclean.2]

theorem marks_addItemLoop {toEmpty : Bool} {is : List ℕ} {left : ItemStack}
    (h : addItemLoop idef toEmpty is newitem l = .ok (left, l')) : l.Marks l' := by
  induction is generalizing newitem l with
  | nil =>
    obtain ⟨-, rfl⟩ := Prod.mk.inj (Except.ok.inj h)
    exact .refl l
  | cons i is ih =>
    unfold addItemLoop at h
    obtain ⟨slot, -, h⟩ := bind_eq_ok.mp h
    split_ifs at h with hskip
    · exact ih h
    · obtain ⟨r, hadd, h⟩ := bind_eq_ok.mp h
      have hfirst := marks_addItemAt hadd
      dsimp only at h
      split_ifs at h with hempty
      · obtain ⟨-, rfl⟩ := Prod.mk.inj (Except.ok.inj h)
        exact hfirst
      · exact hfirst.trans (ih h)

theorem marks_addItem {left : ItemStack} (h : l.addItem idef newitem = .ok (left, l')) :
    l.Marks l' := by
  unfold addItem at h
  split_ifs at h with hempty
  · obtain ⟨-, rfl⟩ := Prod.mk.inj (Except.ok.inj h)
    exact .refl l
  · obtain ⟨r, hfirst, h⟩ := bind_eq_ok.mp h
    have hfirst := marks_addItemLoop hfirst
    dsimp only at h
    split_ifs at h with hleft
    · obtain ⟨-, rfl⟩ := Prod.mk.inj (Except.ok.inj h)
      exact hfirst
    · exact hfirst.trans (marks_addItemLoop h)

theorem marks_takeItem {n : UInt32} {taken : ItemStack} (h : l.takeItem i n = .ok (taken, l')) :
    l.Marks l' := by
  unfold takeItem at h
  cases hs : l.items[i]? with
  | none =>
    rw [hs] at h
    obtain ⟨-, rfl⟩ := Prod.mk.inj (Except.ok.inj h)
    exact .refl l
  | some s =>
    rw [hs] at h
    obtain ⟨r, htake, h⟩ := bind_eq_ok.mp h
    obtain ⟨rfl, rfl⟩ := Prod.mk.inj (Except.ok.inj h)
    intro hclean
    rw [Bool.or_eq_false_iff, Bool.not_eq_false'] at hclean
    have hsame := ItemStack.eq_of_takeItem htake hclean.2
    obtain ⟨hi, rfl⟩ := List.getElem?_eq_some_iff.mp hs
    obtain ⟨items, dirty⟩ := l
    obtain rfl : dirty = false := hclean.1
    simp [hsame, hclean.2]

end Slots

namespace SlotLists

variable {lists lists' : SlotLists ρ} {src dest : ρ} {count : UInt32}

def Marks (lists lists' : SlotLists ρ) : Prop := ∀ r, (lists r).Marks (lists' r)

omit [DecidableEq ρ] in
theorem Marks.refl (lists : SlotLists ρ) : lists.Marks lists := fun _ => .refl _

omit [DecidableEq ρ] in
theorem Marks.trans {lists'' : SlotLists ρ} (h : lists.Marks lists') (h' : lists'.Marks lists'') :
    lists.Marks lists'' :=
  fun r => (h r).trans (h' r)

theorem marks_update {l : Slots} (h : (lists src).Marks l) :
    lists.Marks (Function.update lists src l) := by
  intro r
  by_cases hr : r = src
  · subst hr
    rwa [Function.update_self]
  · rw [Function.update_of_ne hr]
    exact .refl _

theorem marks_changeItem (lists : SlotLists ρ) (r : ρ) (i : ℕ) (newitem : ItemStack) :
    lists.Marks (lists.changeItem r i newitem).2 :=
  marks_update ((lists r).marks_changeItem i newitem)

theorem marks_addItemAt {left : ItemStack}
    (h : lists.addItemAt idef dest i newitem = .ok (left, lists')) : lists.Marks lists' := by
  obtain ⟨r, hadd, h⟩ := bind_eq_ok.mp h
  obtain ⟨-, rfl⟩ := Prod.mk.inj (Except.ok.inj h)
  exact marks_update (Slots.marks_addItemAt hadd)

theorem marks_addItem {left : ItemStack}
    (h : lists.addItem idef dest newitem = .ok (left, lists')) : lists.Marks lists' := by
  obtain ⟨r, hadd, h⟩ := bind_eq_ok.mp h
  obtain ⟨-, rfl⟩ := Prod.mk.inj (Except.ok.inj h)
  exact marks_update (Slots.marks_addItem hadd)

theorem marks_takeSource {taken : ItemStack}
    (h : lists.takeSource src i count = .ok (taken, lists')) : lists.Marks lists' := by
  unfold takeSource at h
  split_ifs at h
  · have hchange := lists.marks_changeItem src i {}
    rwa [Except.ok.inj h] at hchange
  · obtain ⟨r, htake, h⟩ := bind_eq_ok.mp h
    obtain ⟨-, rfl⟩ := Prod.mk.inj (Except.ok.inj h)
    exact marks_update (Slots.marks_takeItem htake)

theorem marks_moveItem {destI : ℕ} {swapIfNeeded : Bool}
    (h : lists.moveItem idef src i dest destI count swapIfNeeded = .ok lists') :
    lists.Marks lists' := by
  unfold moveItem at h
  split_ifs at h
  · obtain rfl := Except.ok.inj h
    exact .refl _
  obtain ⟨⟨moved, lists₁⟩, htake, h⟩ := bind_eq_ok.mp h
  obtain ⟨⟨leftover, lists₂⟩, hadd, h⟩ := bind_eq_ok.mp h
  have hmarks := (marks_takeSource htake).trans (marks_addItemAt hadd)
  dsimp only at h
  split_ifs at h
  · obtain rfl := Except.ok.inj h
    exact hmarks
  obtain ⟨moved₁, -, h⟩ := bind_eq_ok.mp h
  obtain ⟨item, -, h⟩ := bind_eq_ok.mp h
  obtain ⟨leftover₁, -, h⟩ := bind_eq_ok.mp h
  have hmarks := hmarks.trans (lists₂.marks_changeItem src i leftover₁)
  split_ifs at h
  · obtain rfl := Except.ok.inj h
    exact ((hmarks.trans (marks_changeItem _ _ _ _)).trans (marks_changeItem _ _ _ _)).trans
      (marks_changeItem _ _ _ _)
  · obtain rfl := Except.ok.inj h
    exact hmarks

theorem marks_moveItemSomewhere
    (h : lists.moveItemSomewhere idef src i dest count = .ok lists') : lists.Marks lists' := by
  obtain ⟨⟨item1, lists₁⟩, htake, h⟩ := bind_eq_ok.mp h
  have hmarks := marks_takeSource htake
  dsimp only at h
  split_ifs at h
  · obtain rfl := Except.ok.inj h
    exact hmarks
  obtain ⟨⟨leftover, lists₂⟩, hadd, h⟩ := bind_eq_ok.mp h
  have hmarks := hmarks.trans (marks_addItem hadd)
  dsimp only at h
  split_ifs at h
  · obtain rfl := Except.ok.inj h
    exact hmarks
  obtain ⟨item, -, h⟩ := bind_eq_ok.mp h
  obtain ⟨leftover₁, -, h⟩ := bind_eq_ok.mp h
  obtain rfl := Except.ok.inj h
  exact hmarks.trans (lists₂.marks_changeItem src i leftover₁)

end SlotLists

namespace TrackedInventory

variable {inv inv' : TrackedInventory}

/-- The lists that are not marked, the names of all, and whether anything is to be sent. -/
def original (inv : TrackedInventory) : Original ByteString InventoryList where
  clean := {p | ∃ l ∈ inv.lists, l.slots.dirty = false ∧ p = (l.name, l.list)}
  keys := {n | n ∈ inv.lists.map TrackedList.name}
  modified := inv.checkModified = true

/-- A list that is not marked afterwards has not changed, and stands where it stood. -/
structure Marks (inv inv' : TrackedInventory) : Prop where
  length : inv'.lists.length = inv.lists.length
  list : ∀ (k : ℕ) (l' : TrackedList), inv'.lists[k]? = some l' →
    ∃ l, inv.lists[k]? = some l ∧ (l'.slots.dirty = false → l' = l)
  dirty : inv'.dirty = false → inv.dirty = false

structure Kept (inv inv' : TrackedInventory) : Prop where
  clean : inv'.original.clean ⊆ inv.original.clean
  gone : ¬inv'.original.modified → ¬inv.original.modified ∧ inv.original.keys ⊆ inv'.original.keys

theorem not_modified_iff :
    ¬inv.original.modified ↔ inv.dirty = false ∧ ∀ l ∈ inv.lists, l.slots.dirty = false := by
  change ¬inv.checkModified = true ↔ _
  rw [checkModified, Bool.not_eq_true, Bool.or_eq_false_iff, List.any_eq_false]
  simp only [Bool.not_eq_true]

theorem Marks.eq_of_clean (h : inv.Marks inv')
    (hclean : ∀ l ∈ inv'.lists, l.slots.dirty = false) : inv'.lists = inv.lists := by
  apply List.ext_getElem? fun k => ?_
  cases hk : inv'.lists[k]? with
  | none =>
    rw [List.getElem?_eq_none_iff, h.length] at hk
    exact (List.getElem?_eq_none_iff.mpr hk).symm
  | some l' =>
    obtain ⟨l, hl, hsame⟩ := h.list k l' hk
    rw [hl, hsame (hclean l' (List.mem_of_getElem? hk))]

theorem Marks.kept (h : inv.Marks inv') : inv.Kept inv' where
  clean := by
    intro p hp
    obtain ⟨l', hl', hclean, rfl⟩ := hp
    obtain ⟨k, hk⟩ := List.mem_iff_getElem?.mp hl'
    obtain ⟨l, hl, hsame⟩ := h.list k l' hk
    obtain rfl := hsame hclean
    exact ⟨l', List.mem_of_getElem? hl, hclean, rfl⟩
  gone hm := by
    rw [not_modified_iff] at hm ⊢
    have hlists := h.eq_of_clean hm.2
    refine ⟨⟨h.dirty hm.1, hlists ▸ hm.2⟩, fun n hn => ?_⟩
    change n ∈ inv'.lists.map TrackedList.name
    rw [hlists]
    exact hn

/-- The inventory is marked as a whole, and its lists that are not were there before. -/
structure MarksAll (inv inv' : TrackedInventory) : Prop where
  dirty : inv'.dirty = true
  clean : ∀ l ∈ inv'.lists, l.slots.dirty = false → l ∈ inv.lists

theorem MarksAll.kept (h : inv.MarksAll inv') : inv.Kept inv' where
  clean := by
    intro p hp
    obtain ⟨l', hl', hfalse, rfl⟩ := hp
    exact ⟨l', h.clean l' hl' hfalse, hfalse, rfl⟩
  gone hm := by
    rw [not_modified_iff, h.dirty] at hm
    cases hm.1

theorem marks_modify {f : TrackedList → TrackedList} {i : ℕ}
    (hf : ∀ l, inv.lists[i]? = some l → (f l).slots.dirty = false → f l = l) :
    inv.Marks (inv.modify i f) where
  length := List.length_modify ..
  list k l' hk := by
    change (inv.lists.modify i f)[k]? = some l' at hk
    rw [List.getElem?_modify, Option.map_eq_map, Option.map_eq_some_iff] at hk
    obtain ⟨l, hl, rfl⟩ := hk
    refine ⟨l, hl, ?_⟩
    by_cases hik : i = k
    · subst hik
      rw [if_pos rfl]
      exact hf l hl
    · rw [if_neg hik]
      exact fun _ => rfl
  dirty h := h

theorem marks_onSlots {list : ℕ} {f : Slots → Except Fault Slots}
    (hf : ∀ l l', f l = .ok l' → l.Marks l') (h : inv.onSlots list f = .ok inv') :
    inv.Marks inv' := by
  obtain ⟨slots, hslots, h⟩ := bind_eq_ok.mp h
  obtain rfl := Except.ok.inj h
  apply marks_modify
  intro l hl hclean
  have hmarks := hf _ _ hslots hclean
  dsimp only at hclean ⊢
  rw [hmarks, TrackedInventory.slots, hl]
  rfl

theorem marks_withSlots {elsewhere : ItemList} {slots : SlotLists (Option ℕ)}
    (h : (inv.slots elsewhere).Marks slots) : inv.Marks (inv.withSlots slots) where
  length := List.length_mapIdx ..
  list k l' hk := by
    change (inv.lists.mapIdx _)[k]? = some l' at hk
    rw [List.getElem?_mapIdx, Option.map_eq_some_iff] at hk
    obtain ⟨l, hl, rfl⟩ := hk
    refine ⟨l, hl, fun hclean => ?_⟩
    have hmarks := h (some k) hclean
    rw [hmarks, TrackedInventory.slots, hl]
    rfl
  dirty h := h

/-- A list that is assigned another is marked already, or is the same as the other. -/
def MarkedOrSame (inv : TrackedInventory) (list : ℕ) (other : InventoryList) : Prop :=
  ∀ l, inv.lists[list]? = some l → l.slots.dirty = true ∨ l.list = other

theorem marks_assignList {list : ℕ} {other : InventoryList} (h : inv.MarkedOrSame list other) :
    inv.Marks (inv.modify list fun l => l.assign other) := by
  apply marks_modify
  intro l hl hclean
  change l.slots.dirty = false at hclean
  rcases h l hl with hdirty | hsame
  · rw [hclean] at hdirty
    cases hdirty
  · obtain ⟨name, width, items, dirty⟩ := l
    obtain rfl := hsame
    rfl

theorem marksAll_addList (inv : TrackedInventory) (name : ByteString) (size : UInt32) :
    inv.MarksAll (inv.addList name size) := by
  unfold addList
  dsimp only
  have hmodified : ∀ f : TrackedList → TrackedList, (∀ l, (f l).slots.dirty = true) → ∀ i,
      inv.MarksAll ((inv.setModified true).modify i f) := by
    intro f hf i
    refine ⟨rfl, fun l hl hclean => ?_⟩
    have hmarks : (inv.setModified true).Marks ((inv.setModified true).modify i f) := by
      apply marks_modify
      intro l _ h
      rw [hf l] at h
      cases h
    obtain ⟨k, hk⟩ := List.mem_iff_getElem?.mp hl
    obtain ⟨l₀, hl₀, hsame⟩ := hmarks.list k l hk
    obtain rfl := hsame hclean
    exact List.mem_of_getElem? hl₀
  cases (inv.setModified true).getListIndex name with
  | some i => exact hmodified _ (fun l => rfl) i
  | none =>
    dsimp only
    split_ifs
    · exact ⟨rfl, fun l hl _ => hl⟩
    · refine ⟨rfl, fun l hl hclean => ?_⟩
      rcases List.mem_append.mp hl with hl | hl
      · exact hl
      · rw [List.mem_singleton.mp hl] at hclean
        cases hclean

theorem marks_deleteList (inv : TrackedInventory) (name : ByteString) :
    inv.Marks (inv.deleteList name) ∨ inv.MarksAll (inv.deleteList name) := by
  unfold deleteList
  cases inv.getListIndex name with
  | none => exact .inl ⟨rfl, fun k l hl => ⟨l, hl, fun _ => rfl⟩, id⟩
  | some i => exact .inr ⟨rfl, fun l hl _ => List.mem_of_mem_eraseIdx hl⟩

theorem marksAll_assign (inv : TrackedInventory) (other : InventoryLists) :
    inv.MarksAll (inv.assign other) := by
  refine ⟨rfl, fun l hl hclean => ?_⟩
  obtain ⟨l₀, -, rfl⟩ := List.mem_map.mp hl
  cases hclean

def Mutation.Marked (inv : TrackedInventory) : Mutation → Prop
  | .assignList list other => inv.MarkedOrSame list other
  | _ => True

/-- An operation marks what it changes, list by list or as a whole. -/
theorem marks_apply {m : Mutation} (h : inv.apply idef m = .ok inv') (hm : m.Marked inv) :
    inv.Marks inv' ∨ inv.MarksAll inv' := by
  cases m with
  | changeItem list i newitem =>
    rw [TrackedInventory.apply] at h
    refine .inl (marks_onSlots (fun l l' hl => ?_) h)
    obtain rfl := Except.ok.inj hl
    exact l.marks_changeItem i newitem
  | deleteItem list i =>
    rw [TrackedInventory.apply] at h
    refine .inl (marks_onSlots (fun l l' hl => ?_) h)
    obtain rfl := Except.ok.inj hl
    exact l.marks_deleteItem i
  | addItemAt list i newitem =>
    rw [TrackedInventory.apply] at h
    refine .inl (marks_onSlots (fun l l' hl => ?_) h)
    obtain ⟨r, hadd, hl⟩ := bind_eq_ok.mp hl
    obtain rfl := Except.ok.inj hl
    exact Slots.marks_addItemAt hadd
  | addItem list newitem =>
    rw [TrackedInventory.apply] at h
    refine .inl (marks_onSlots (fun l l' hl => ?_) h)
    obtain ⟨r, hadd, hl⟩ := bind_eq_ok.mp hl
    obtain rfl := Except.ok.inj hl
    exact Slots.marks_addItem hadd
  | takeItem list i takecount =>
    rw [TrackedInventory.apply] at h
    refine .inl (marks_onSlots (fun l l' hl => ?_) h)
    obtain ⟨r, htake, hl⟩ := bind_eq_ok.mp hl
    obtain rfl := Except.ok.inj hl
    exact Slots.marks_takeItem htake
  | moveItem src i dest destI count swapIfNeeded elsewhere =>
    obtain ⟨slots, hmove, h⟩ := bind_eq_ok.mp h
    obtain rfl := Except.ok.inj h
    exact .inl (marks_withSlots (SlotLists.marks_moveItem hmove))
  | moveItemSomewhere src i dest count elsewhere =>
    obtain ⟨slots, hmove, h⟩ := bind_eq_ok.mp h
    obtain rfl := Except.ok.inj h
    exact .inl (marks_withSlots (SlotLists.marks_moveItemSomewhere hmove))
  | clearItems list =>
    obtain rfl := Except.ok.inj h
    refine .inl (marks_modify fun l _ hclean => ?_)
    cases hclean
  | setSize list newsize =>
    obtain rfl := Except.ok.inj h
    refine .inl (marks_modify fun l _ hclean => ?_)
    by_cases hsize : newsize.toNat = l.slots.items.length
    · rw [TrackedList.setSize, if_pos hsize]
    · rw [TrackedList.setSize, if_neg hsize] at hclean
      cases hclean
  | setWidth list newwidth =>
    obtain rfl := Except.ok.inj h
    refine .inl (marks_modify fun l _ hclean => ?_)
    cases hclean
  | setListModified list =>
    obtain rfl := Except.ok.inj h
    refine .inl (marks_modify fun l _ hclean => ?_)
    cases hclean
  | setModified =>
    obtain rfl := Except.ok.inj h
    exact .inr ⟨rfl, fun l hl _ => hl⟩
  | addList name size =>
    obtain rfl := Except.ok.inj h
    exact .inr (marksAll_addList inv name size)
  | deleteList name =>
    obtain rfl := Except.ok.inj h
    exact marks_deleteList inv name
  | clear =>
    obtain rfl := Except.ok.inj h
    exact .inr ⟨rfl, fun l hl _ => absurd hl List.not_mem_nil⟩
  | assignList list other =>
    obtain rfl := Except.ok.inj h
    exact .inl (marks_assignList hm)
  | assign other =>
    obtain rfl := Except.ok.inj h
    exact .inr (marksAll_assign inv other)

/-- What is not marked after an operation was there before it. -/
theorem kept_apply {m : Mutation} (h : inv.apply idef m = .ok inv') (hm : m.Marked inv) :
    inv.Kept inv' :=
  (marks_apply h hm).elim Marks.kept MarksAll.kept

/-- Where nothing is marked after an operation, nothing was before, and nothing has changed. -/
theorem eq_of_not_modified {m : Mutation} (h : inv.apply idef m = .ok inv') (hm : m.Marked inv)
    (hclean : inv'.checkModified = false) :
    inv.checkModified = false ∧ inv'.lists = inv.lists := by
  have hclean' : inv'.dirty = false ∧ ∀ l ∈ inv'.lists, l.slots.dirty = false :=
    not_modified_iff.mp (by simpa [original] using hclean)
  rcases marks_apply h hm with hmarks | hall
  · have hlists := hmarks.eq_of_clean hclean'.2
    refine ⟨?_, hlists⟩
    have hbefore : ¬inv.original.modified :=
      not_modified_iff.mpr ⟨hmarks.dirty hclean'.1, hlists ▸ hclean'.2⟩
    simpa [original] using hbefore
  · rw [hall.dirty] at hclean'
    cases hclean'.1

/-! ### Names -/

def Distinct (inv : TrackedInventory) : Prop := (inv.lists.map TrackedList.name).Nodup

def Mutation.KeepsNames (inv : TrackedInventory) : Mutation → Prop
  | .assignList list other => (inv.modify list fun l => l.assign other).Distinct
  | .assign other => (other.map InventoryList.name).Nodup
  | _ => True

theorem map_name_modify {f : TrackedList → TrackedList} (hf : ∀ l, (f l).name = l.name) (i : ℕ) :
    (inv.modify i f).lists.map TrackedList.name = inv.lists.map TrackedList.name := by
  apply List.ext_getElem? fun k => ?_
  change ((inv.lists.modify i f).map TrackedList.name)[k]? = _
  rw [List.getElem?_map, List.getElem?_map, List.getElem?_modify]
  cases inv.lists[k]? with
  | none => rfl
  | some l =>
    by_cases hik : i = k
    · simp [hik, hf]
    · simp [hik]

theorem map_name_onSlots {list : ℕ} {f : Slots → Except Fault Slots}
    (h : inv.onSlots list f = .ok inv') :
    inv'.lists.map TrackedList.name = inv.lists.map TrackedList.name := by
  obtain ⟨slots, -, h⟩ := bind_eq_ok.mp h
  obtain rfl := Except.ok.inj h
  exact map_name_modify (fun _ => by rfl) list

theorem map_name_withSlots (slots : SlotLists (Option ℕ)) :
    (inv.withSlots slots).lists.map TrackedList.name = inv.lists.map TrackedList.name := by
  apply List.ext_getElem? fun k => ?_
  change ((inv.lists.mapIdx _).map TrackedList.name)[k]? = _
  rw [List.getElem?_map, List.getElem?_map, List.getElem?_mapIdx, Option.map_map]
  rfl

theorem getListIndex_eq_none {name : ByteString} :
    inv.getListIndex name = none ↔ name ∉ inv.lists.map TrackedList.name := by
  simp [getListIndex, List.findIdx?_eq_none_iff]

theorem Distinct.addList (h : inv.Distinct) (name : ByteString) (size : UInt32) :
    (inv.addList name size).Distinct := by
  unfold TrackedInventory.addList Distinct
  dsimp only
  cases hi : (inv.setModified true).getListIndex name with
  | some i =>
    dsimp only
    rw [map_name_modify fun l => ?_]
    · exact h
    · unfold TrackedList.clearItems TrackedList.setSize
      split_ifs <;> rfl
  | none =>
    dsimp only
    split_ifs
    · exact h
    · have hnew := getListIndex_eq_none.mp hi
      rw [List.map_append, List.nodup_append_comm]
      exact List.nodup_cons.mpr ⟨hnew, h⟩

theorem Distinct.apply {m : Mutation} (hd : inv.Distinct) (h : inv.apply idef m = .ok inv')
    (hm : m.KeepsNames inv) : inv'.Distinct := by
  have hsame : inv'.lists.map TrackedList.name = inv.lists.map TrackedList.name →
      inv'.Distinct := by
    intro heq
    unfold Distinct
    rw [heq]
    exact hd
  cases m with
  | changeItem list i newitem =>
    rw [TrackedInventory.apply] at h
    exact hsame (map_name_onSlots h)
  | deleteItem list i =>
    rw [TrackedInventory.apply] at h
    exact hsame (map_name_onSlots h)
  | addItemAt list i newitem =>
    rw [TrackedInventory.apply] at h
    exact hsame (map_name_onSlots h)
  | addItem list newitem =>
    rw [TrackedInventory.apply] at h
    exact hsame (map_name_onSlots h)
  | takeItem list i takecount =>
    rw [TrackedInventory.apply] at h
    exact hsame (map_name_onSlots h)
  | moveItem src i dest destI count swapIfNeeded elsewhere =>
    obtain ⟨slots, -, h⟩ := bind_eq_ok.mp h
    obtain rfl := Except.ok.inj h
    exact hsame (map_name_withSlots slots)
  | moveItemSomewhere src i dest count elsewhere =>
    obtain ⟨slots, -, h⟩ := bind_eq_ok.mp h
    obtain rfl := Except.ok.inj h
    exact hsame (map_name_withSlots slots)
  | clearItems list =>
    obtain rfl := Except.ok.inj h
    exact hsame (map_name_modify (fun _ => by rfl) list)
  | setSize list newsize =>
    obtain rfl := Except.ok.inj h
    refine hsame (map_name_modify (fun l => ?_) list)
    unfold TrackedList.setSize
    split_ifs <;> rfl
  | setWidth list newwidth =>
    obtain rfl := Except.ok.inj h
    exact hsame (map_name_modify (fun _ => by rfl) list)
  | setListModified list =>
    obtain rfl := Except.ok.inj h
    exact hsame (map_name_modify (fun _ => by rfl) list)
  | setModified =>
    obtain rfl := Except.ok.inj h
    exact hd
  | addList name size =>
    obtain rfl := Except.ok.inj h
    exact hd.addList name size
  | deleteList name =>
    obtain rfl := Except.ok.inj h
    unfold deleteList
    cases inv.getListIndex name with
    | none => exact hd
    | some i =>
      exact hd.sublist ((List.eraseIdx_sublist inv.lists i).map TrackedList.name)
  | clear =>
    obtain rfl := Except.ok.inj h
    exact List.nodup_nil
  | assignList list other =>
    obtain rfl := Except.ok.inj h
    exact hm
  | assign other =>
    obtain rfl := Except.ok.inj h
    change ((other.map TrackedList.copy).map TrackedList.name).Nodup
    rw [List.map_map]
    exact hm

/-! ### Marking what a client changed ahead -/

/-- `mark_player_inv_list_dirty` -/
def markList (inv : TrackedInventory) (name : ByteString) : TrackedInventory :=
  match inv.getListIndex name with
  | none => inv
  | some i => inv.modify i fun l => l.setModified true

theorem map_name_markList (inv : TrackedInventory) (name : ByteString) :
    (inv.markList name).lists.map TrackedList.name = inv.lists.map TrackedList.name := by
  unfold markList
  cases inv.getListIndex name with
  | none => rfl
  | some i => exact map_name_modify (fun _ => by rfl) i

/-- Only a list of the name is marked, and then none is left that is not. -/
theorem clean_markList (hd : inv.Distinct) {name : ByteString} {l : TrackedList}
    (hl : l ∈ (inv.markList name).lists) (hclean : l.slots.dirty = false) :
    l ∈ inv.lists ∧ l.name ≠ name := by
  unfold markList at hl
  cases hi : inv.getListIndex name with
  | none =>
    rw [hi] at hl
    refine ⟨hl, fun hname => ?_⟩
    exact getListIndex_eq_none.mp hi (hname ▸ List.mem_map_of_mem hl)
  | some i =>
    rw [hi] at hl
    obtain ⟨hlt, hname, -⟩ := List.findIdx?_eq_some_iff_getElem.mp hi
    obtain ⟨k, hk⟩ := List.mem_iff_getElem?.mp hl
    change (inv.lists.modify i _)[k]? = some l at hk
    rw [List.getElem?_modify, Option.map_eq_map, Option.map_eq_some_iff] at hk
    obtain ⟨l₀, hl₀, heq⟩ := hk
    by_cases hik : i = k
    · rw [if_pos hik] at heq
      rw [← heq] at hclean
      cases hclean
    · rw [if_neg hik] at heq
      obtain rfl : l₀ = l := heq
      refine ⟨List.mem_of_getElem? hl₀, fun hname' => hik ?_⟩
      obtain ⟨hk, hlk⟩ := List.getElem?_eq_some_iff.mp hl₀
      have hlt' : i < (inv.lists.map TrackedList.name).length := by simpa using hlt
      have hk' : k < (inv.lists.map TrackedList.name).length := by simpa using hk
      have hsame : (inv.lists.map TrackedList.name)[i] = (inv.lists.map TrackedList.name)[k] := by
        rw [List.getElem_map, List.getElem_map, hlk, hname']
        simpa using hname
      exact (List.Nodup.getElem_inj_iff hd).mp hsame

def markLists (inv : TrackedInventory) (names : List ByteString) : TrackedInventory :=
  names.foldl markList (inv.setModified true)

theorem markLists_spec (hd : inv.Distinct) (names : List ByteString) :
    (inv.markLists names).Distinct ∧ (inv.markLists names).dirty = true ∧
      ∀ l ∈ (inv.markLists names).lists, l.slots.dirty = false → l ∈ inv.lists ∧ l.name ∉ names := by
  unfold markLists
  induction names using List.reverseRecOn with
  | nil => exact ⟨hd, rfl, fun l hl _ => ⟨hl, List.not_mem_nil⟩⟩
  | append_singleton names name ih =>
    obtain ⟨ihd, ihdirty, ihlists⟩ := ih
    rw [List.foldl_append, List.foldl_cons, List.foldl_nil]
    refine ⟨?_, ?_, fun l hl hclean => ?_⟩
    · unfold Distinct
      rw [map_name_markList]
      exact ihd
    · unfold markList
      cases getListIndex _ name with
      | none => exact ihdirty
      | some i => exact ihdirty
    · obtain ⟨hmem, hname⟩ := clean_markList ihd hl hclean
      obtain ⟨hmem, hnames⟩ := ihlists l hmem hclean
      refine ⟨hmem, fun h => ?_⟩
      rcases List.mem_append.mp h with h | h
      · exact hnames h
      · exact hname (List.mem_singleton.mp h)

end TrackedInventory

end Freeminer.Inventory
