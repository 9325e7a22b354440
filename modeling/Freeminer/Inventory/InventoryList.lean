import Freeminer.Inventory.ItemStack
import Freeminer.Lib.Ledger

/-! The slots of an `InventoryList` and the operations on them. An operation on a slot that does
not exist leaves the list alone, and returns what was to be put there. -/

namespace Freeminer.Inventory

open Lib ItemStack

/-- `m_items` -/
abbrev ItemList := List ItemStack

namespace ItemList

/-- `changeItem`: the old item. -/
def changeItem (l : ItemList) (i : ℕ) (newitem : ItemStack) : ItemStack × ItemList :=
  match l[i]? with
  | none => (newitem, l)
  | some olditem => (olditem, l.set i newitem)

/-- `getItem`, with its assertion. -/
def getItem (l : ItemList) (i : ℕ) : Except Fault ItemStack :=
  match l[i]? with
  | none => .error .assertion
  | some s => .ok s

/-- `addItem` to a slot: what is left. -/
def addItemAt (idef : ItemDefManager) (l : ItemList) (i : ℕ) (newitem : ItemStack) :
    Except Fault (ItemStack × ItemList) :=
  match l[i]? with
  | none => .ok (newitem, l)
  | some s => do
    let (leftover, s) ← s.addItem idef newitem
    pure (leftover, l.set i s)

def itemFits (idef : ItemDefManager) (l : ItemList) (i : ℕ) (newitem : ItemStack) :
    Except Fault (Bool × ItemStack) :=
  match l[i]? with
  | none => .ok (false, newitem)
  | some s => s.itemFits idef newitem

def takeItem (l : ItemList) (i : ℕ) (takecount : UInt32) : Except Fault (ItemStack × ItemList) :=
  match l[i]? with
  | none => .ok ({}, l)
  | some s => do
    let (taken, s) ← s.takeItem takecount
    pure (taken, l.set i s)

/-- A loop of `addItem` over the slots that are empty, or over those that are not. -/
def addItemLoop (idef : ItemDefManager) (toEmpty : Bool) :
    List ℕ → ItemStack → ItemList → Except Fault (ItemStack × ItemList)
  | [], newitem, l => .ok (newitem, l)
  | i :: is, newitem, l => do
    let slot ← l.getItem i
    if slot.empty ≠ toEmpty then addItemLoop idef toEmpty is newitem l
    else
      let (newitem, l) ← l.addItemAt idef i newitem
      if newitem.empty then pure (newitem, l) else addItemLoop idef toEmpty is newitem l

/-- `addItem` to any slot: what is left. -/
def addItem (idef : ItemDefManager) (l : ItemList) (newitem : ItemStack) :
    Except Fault (ItemStack × ItemList) :=
  if newitem.empty then .ok (newitem, l)
  else do
    let (newitem, l) ← addItemLoop idef false (List.range l.length) newitem l
    if newitem.empty then pure (newitem, l)
    else addItemLoop idef true (List.range l.length) newitem l

def WellFormed (l : ItemList) : Prop := ∀ s ∈ l, s.WellFormed

variable {idef : ItemDefManager} {l l' l'' : ItemList} {i : ℕ} {s newitem left left' : ItemStack}

theorem WellFormed.set (h : l.WellFormed) (hs : s.WellFormed) : WellFormed (l.set i s) := by
  intro t ht
  rcases List.mem_or_eq_of_mem_set ht with ht | rfl
  · exact h t ht
  · exact hs

/-- What adding to a list does, to one slot or to several. -/
structure Adds (l : ItemList) (newitem left : ItemStack) (l' : ItemList) : Prop where
  length : l'.length = l.length
  countOf_eq : ∀ k, weight (countOf k) l' + countOf k left = weight (countOf k) l + countOf k newitem
  left_count : left.count.toNat ≤ newitem.count.toNat
  left_kind : left.count ≠ 0 → left.kind = newitem.kind
  slot : ∀ (i : ℕ) (s : ItemStack), l[i]? = some s → ∃ s' : ItemStack, l'[i]? = some s' ∧
    s'.count.toNat + left.count.toNat ≤ s.count.toNat + newitem.count.toNat ∧
    (s'.count ≠ 0 → s.count ≠ 0 ∧ s'.kind = s.kind ∨ newitem.count ≠ 0 ∧ s'.kind = newitem.kind)
  wellFormed : l.WellFormed → newitem.WellFormed → WellFormed l' ∧ left.WellFormed

theorem Adds.refl (l : ItemList) (newitem : ItemStack) : Adds l newitem newitem l :=
  ⟨rfl, fun _ => rfl, le_rfl, fun _ => rfl,
    fun _ s hs => ⟨s, hs, le_rfl, fun h => .inl ⟨h, rfl⟩⟩, fun hl hn => ⟨hl, hn⟩⟩

theorem ne_zero_of_le (h : left.count.toNat ≤ newitem.count.toNat) (h0 : left.count ≠ 0) :
    newitem.count ≠ 0 := by
  intro hn
  rw [hn, UInt16.toNat_zero, Nat.le_zero] at h
  exact h0 (UInt16.toNat_inj.mp h)

theorem Adds.trans (h : Adds l newitem left l') (h' : Adds l' left left' l'') :
    Adds l newitem left' l'' where
  length := h'.length.trans h.length
  countOf_eq k := by
    have h1 := h.countOf_eq k
    have h2 := h'.countOf_eq k
    omega
  left_count := h'.left_count.trans h.left_count
  left_kind h0 := (h'.left_kind h0).trans (h.left_kind (ne_zero_of_le h'.left_count h0))
  slot i s hs := by
    obtain ⟨s₁, hs₁, hcount₁, hkind₁⟩ := h.slot i s hs
    obtain ⟨s₂, hs₂, hcount₂, hkind₂⟩ := h'.slot i s₁ hs₁
    refine ⟨s₂, hs₂, by omega, fun h0 => ?_⟩
    rcases hkind₂ h0 with ⟨h1, hk⟩ | ⟨h1, hk⟩
    · rw [hk]
      exact hkind₁ h1
    · rw [hk, h.left_kind h1]
      exact .inr ⟨ne_zero_of_le h.left_count h1, rfl⟩
  wellFormed hl hn := by
    obtain ⟨hl', hleft⟩ := h.wellFormed hl hn
    exact h'.wellFormed hl' hleft

theorem addItemAt_spec (idef : ItemDefManager) (l : ItemList) (i : ℕ) (newitem : ItemStack) :
    ∃ left l', l.addItemAt idef i newitem = .ok (left, l') ∧ Adds l newitem left l' := by
  unfold addItemAt
  cases hs : l[i]? with
  | none => exact ⟨_, _, rfl, .refl l newitem⟩
  | some s =>
    obtain ⟨left, s', hadd, h⟩ := ItemStack.addItem_spec idef s newitem
    dsimp only
    rw [hadd]
    have hi : i < l.length := (List.getElem?_eq_some_iff.mp hs).1
    have hroom : roomFor idef s newitem ≤ newitem.count.toNat := room_le _ _ _ _
    have hleft := h.left_count
    have hcount := h.count
    refine ⟨left, l.set i s', rfl, by simp, fun k => ?_, by omega, h.left_kind, fun j t ht => ?_,
      fun hl hn => ?_⟩
    · have h1 := weight_set (w := countOf k) hs s'
      have h2 := h.countOf_eq k
      omega
    · by_cases hij : i = j
      · subst hij
        obtain rfl : s = t := Option.some.inj (hs.symm.trans ht)
        refine ⟨s', by simp [hi], by omega, fun h0 => ?_⟩
        rcases h.kind_new h0 with h1 | h1
        · exact .inl ⟨h1, h.kind h1⟩
        · exact .inr h1
      · exact ⟨t, by rw [List.getElem?_set_ne hij]; exact ht, by omega, fun h0 => .inl ⟨h0, rfl⟩⟩
    · obtain ⟨hs', hleft'⟩ := h.wellFormed (hl s (List.mem_of_getElem? hs)) hn
      exact ⟨hl.set hs', hleft'⟩

theorem addItemLoop_spec (idef : ItemDefManager) (newitem : ItemStack) (toEmpty : Bool)
    {is : List ℕ} (his : ∀ i ∈ is, i < l.length) :
    ∃ left l', addItemLoop idef toEmpty is newitem l = .ok (left, l') ∧ Adds l newitem left l' := by
  induction is generalizing l newitem with
  | nil => exact ⟨_, _, rfl, .refl l newitem⟩
  | cons i is ih =>
    have hi := his i (by simp)
    have his' : ∀ j ∈ is, j < l.length := fun j hj => his j (by simp [hj])
    simp only [addItemLoop, getItem, List.getElem?_eq_getElem hi, bind, Except.bind]
    split_ifs with hskip
    · exact ih _ his'
    · obtain ⟨left, l', hadd, h⟩ := addItemAt_spec idef l i newitem
      rw [hadd]
      dsimp only
      split_ifs with hempty
      · exact ⟨_, _, rfl, h⟩
      · obtain ⟨left', l'', hloop, h'⟩ := ih left (l := l') (by rwa [h.length])
        exact ⟨_, _, hloop, h.trans h'⟩

theorem addItem_spec (idef : ItemDefManager) (l : ItemList) (newitem : ItemStack) :
    ∃ left l', l.addItem idef newitem = .ok (left, l') ∧ Adds l newitem left l' := by
  unfold addItem
  split_ifs with hempty
  · exact ⟨_, _, rfl, .refl l newitem⟩
  · obtain ⟨left, l', hfirst, h⟩ := addItemLoop_spec idef newitem false
      fun i (hi : i ∈ List.range l.length) => List.mem_range.mp hi
    rw [hfirst]
    simp only [bind, Except.bind]
    split_ifs with hleft
    · exact ⟨_, _, rfl, h⟩
    · obtain ⟨left', l'', hsecond, h'⟩ := addItemLoop_spec idef left true
        fun i (hi : i ∈ List.range l'.length) => List.mem_range.mp hi
      exact ⟨_, _, hsecond, h.trans h'⟩

end ItemList

end Freeminer.Inventory
