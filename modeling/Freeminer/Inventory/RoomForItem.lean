import Freeminer.Inventory.InventoryList

/-! `InventoryList::roomForItem` and `containsItem`, which predict what `addItem` and `removeItem`
would do. The predictions are exact. -/

namespace Freeminer.Inventory

open Lib ItemStack

namespace ItemList

/-- The loop of `roomForItem` over the slots, with what is left of the item. -/
def roomLoop (idef : ItemDefManager) (l : ItemList) : List ℕ → ItemStack → Except Fault Bool
  | [], _ => .ok false
  | i :: is, item => do
    let (fits, leftover) ← l.itemFits idef i item
    if fits then pure true else roomLoop idef l is leftover

def roomForItem (idef : ItemDefManager) (l : ItemList) (item : ItemStack) : Except Fault Bool :=
  roomLoop idef l (List.range l.length) item

def isMatch (item : ItemStack) (matchMeta : Bool) (s : ItemStack) : Bool :=
  s.name == item.name && (!matchMeta || s.metadata == item.metadata)

/-- The loop of `containsItem` over the slots, the last one first. -/
def containsLoop (item : ItemStack) (matchMeta : Bool) : UInt32 → ItemList → Bool
  | _, [] => false
  | count, s :: l =>
    if count = 0 then false
    else if isMatch item matchMeta s then
      if s.count.toUInt32 ≥ count then true
      else containsLoop item matchMeta (count - s.count.toUInt32) l
    else containsLoop item matchMeta count l

def containsItem (l : ItemList) (item : ItemStack) (matchMeta : Bool) : Bool :=
  if item.count.toUInt32 = 0 then true
  else containsLoop item matchMeta item.count.toUInt32 l.reverse

/-- The loop of `removeItem` over the slots, the last one first. -/
def removeLoop (idef : ItemDefManager) (item : ItemStack) (matchMeta : Bool) :
    ItemStack → ItemList → Except Fault (ItemStack × ItemList)
  | removed, [] => .ok (removed, [])
  | removed, s :: l =>
    if isMatch item matchMeta s then do
      let stillToRemove := item.count.toUInt32 - removed.count.toUInt32
      let (taken, s) ← s.takeItem stillToRemove
      let (leftover, removed) ← removed.addItem idef taken
      -- allow oversized stacks
      let removed := { removed with count := removed.count + leftover.count }
      if removed.count = item.count then pure (removed, s :: l)
      else
        let (removed, l) ← removeLoop idef item matchMeta removed l
        pure (removed, s :: l)
    else do
      let (removed, l) ← removeLoop idef item matchMeta removed l
      pure (removed, s :: l)

/-- `removeItem`: what is removed. -/
def removeItem (idef : ItemDefManager) (l : ItemList) (item : ItemStack) (matchMeta : Bool) :
    Except Fault (ItemStack × ItemList) := do
  let (removed, l) ← removeLoop idef item matchMeta {} l.reverse
  pure (removed, l.reverse)

/-! ## Room -/

def freeFor (idef : ItemDefManager) (k : Kind) (s : ItemStack) : ℕ :=
  if s.count ≠ 0 ∧ s.kind = k then (s.freeSpace idef).toNat else 0

def slotAt (l : ItemList) (i : ℕ) : ItemStack := l.getD i {}

def freeAt (idef : ItemDefManager) (k : Kind) (l : ItemList) (is : List ℕ) : ℕ :=
  weight (fun i => freeFor idef k (l.slotAt i)) is

def EmptyAt (l : ItemList) (is : List ℕ) : Prop := ∃ i ∈ is, (l.slotAt i).count = 0

variable {idef : ItemDefManager} {l l' : ItemList} {i : ℕ} {is : List ℕ} {s item : ItemStack}
  {k : Kind} {matchMeta : Bool}

theorem roomFor_of_empty (h : s.count = 0) (item : ItemStack) :
    roomFor idef s item = item.count.toNat := by
  rw [roomFor, room, if_pos h]

theorem roomFor_of_ne (h : s.count ≠ 0) (item : ItemStack) :
    roomFor idef s item = min item.count.toNat (freeFor idef item.kind s) := by
  rw [roomFor, room, if_neg h, freeFor]
  by_cases hk : s.kind = item.kind
  · rw [if_pos hk, if_pos ⟨h, hk⟩]
  · rw [if_neg hk, if_neg fun h => hk h.2, Nat.min_zero]

theorem itemFits_eq (idef : ItemDefManager) (s item : ItemStack) :
    s.itemFits idef item = (s.addItem idef item).map fun r => (r.1.empty, r.1) := by
  unfold ItemStack.itemFits ItemStack.addItem
  split_ifs with hnew hempty hkind hfits
  · simp [Except.map, hnew]
  · rfl
  · simp [Except.map, hnew]
  · have hle := UInt16.le_iff_toNat_le.mp hfits
    have hfree := toNat_freeSpace_le idef s
    obtain ⟨s', hadd, -⟩ := add_spec (s := s) (n := item.count) (by omega)
    rw [hadd]
    rfl
  · obtain ⟨s', hadd, -⟩ := add_spec (toNat_freeSpace_le idef s)
    dsimp only
    rw [hadd]
    cases item.remove (s.freeSpace idef) <;> rfl

theorem slotAt_set_of_ne {j : ℕ} (h : i ≠ j) (s : ItemStack) :
    slotAt (l.set i s) j = l.slotAt j := by
  rw [slotAt, slotAt, List.getD_eq_getElem?_getD, List.getD_eq_getElem?_getD,
    List.getElem?_set_ne h]

theorem slotAt_set_self (h : i < l.length) (s : ItemStack) : slotAt (l.set i s) i = s := by
  rw [slotAt, List.getD_eq_getElem?_getD, List.getElem?_set_self h, Option.getD_some]

theorem freeAt_cons (idef : ItemDefManager) (k : Kind) (l : ItemList) (i : ℕ) (is : List ℕ) :
    freeAt idef k l (i :: is) = freeFor idef k (l.slotAt i) + freeAt idef k l is := by
  simp [freeAt, weight]

theorem freeAt_set (h : i ∉ is) (s : ItemStack) :
    freeAt idef k (l.set i s) is = freeAt idef k l is := by
  unfold freeAt weight
  congr 1
  refine List.map_congr_left fun j hj => ?_
  rw [slotAt_set_of_ne]
  rintro rfl
  exact h hj

theorem emptyAt_cons : EmptyAt l (i :: is) ↔ (l.slotAt i).count = 0 ∨ EmptyAt l is := by
  simp [EmptyAt]

theorem getElem?_eq_slotAt (h : i < l.length) : l[i]? = some (l.slotAt i) := by
  rw [slotAt, List.getD_eq_getElem?_getD, List.getElem?_eq_getElem h]
  rfl

/-- `roomForItem` looks for an empty slot, or for enough space in the others. -/
theorem roomLoop_spec (idef : ItemDefManager) (his : ∀ i ∈ is, i < l.length) (item : ItemStack)
    (hitem : item.count ≠ 0) :
    ∃ b, roomLoop idef l is item = .ok b ∧
      (b = true ↔ EmptyAt l is ∨ item.count.toNat ≤ freeAt idef item.kind l is) := by
  induction is generalizing item with
  | nil =>
    refine ⟨false, rfl, iff_of_false Bool.false_ne_true ?_⟩
    have hpos : item.count.toNat ≠ 0 := fun h => hitem (UInt16.toNat_inj.mp h)
    simp [EmptyAt, freeAt, weight, hpos]
  | cons i is ih =>
    have hi := his i (by simp)
    obtain ⟨left, s', hadd, h⟩ := ItemStack.addItem_spec idef (l.slotAt i) item
    have hleft := h.left_count
    rw [roomLoop, itemFits, getElem?_eq_slotAt hi]
    simp only [itemFits_eq, hadd, Except.map, bind, Except.bind, empty_iff]
    rw [emptyAt_cons, freeAt_cons]
    by_cases h0 : (l.slotAt i).count = 0
    · rw [roomFor_of_empty h0, Nat.sub_self] at hleft
      rw [if_pos (UInt16.toNat_inj.mp hleft)]
      exact ⟨true, rfl, iff_of_true rfl (.inl (.inl h0))⟩
    · rw [roomFor_of_ne h0] at hleft
      split_ifs with hfits
      · rw [hfits, UInt16.toNat_zero] at hleft
        exact ⟨true, rfl, iff_of_true rfl (.inr (by omega))⟩
      · obtain ⟨b, hloop, hb⟩ := ih (fun j hj => his j (by simp [hj])) left hfits
        refine ⟨b, hloop, hb.trans ?_⟩
        rw [h.left_kind hfits]
        have hpos : left.count.toNat ≠ 0 := fun h => hfits (UInt16.toNat_inj.mp h)
        refine or_congr (by simp [h0]) ?_
        omega

/-- The first loop of `addItem` fills the slots that are not empty. -/
theorem fillLoop_spec (idef : ItemDefManager) (his : ∀ i ∈ is, i < l.length) (hnodup : is.Nodup)
    (item : ItemStack) :
    ∃ left l', addItemLoop idef false is item l = .ok (left, l') ∧
      left.count.toNat = item.count.toNat - freeAt idef item.kind l is ∧
      (left.count ≠ 0 → left.kind = item.kind) ∧ l'.length = l.length ∧
      ∀ j, (l'.slotAt j).count = 0 ↔ (l.slotAt j).count = 0 := by
  induction is generalizing l item with
  | nil => exact ⟨item, l, rfl, by simp [freeAt, weight], fun _ => rfl, rfl, fun _ => Iff.rfl⟩
  | cons i is ih =>
    have hi := his i (by simp)
    have his' : ∀ j ∈ is, j < l.length := fun j hj => his j (by simp [hj])
    obtain ⟨hmem, hnodup⟩ := List.nodup_cons.mp hnodup
    rw [addItemLoop, getItem, getElem?_eq_slotAt hi, freeAt_cons]
    simp only [bind, Except.bind]
    by_cases h0 : (l.slotAt i).count = 0
    · have hfree : freeFor idef item.kind (l.slotAt i) = 0 := if_neg fun h => h.1 h0
      rw [if_pos (by simp [empty, h0]), hfree, Nat.zero_add]
      exact ih his' hnodup item
    · obtain ⟨left, s', hadd, h⟩ := ItemStack.addItem_spec idef (l.slotAt i) item
      have hleft := h.left_count
      have hcount := h.count
      rw [roomFor_of_ne h0] at hleft hcount
      have hempty : ∀ j, (slotAt (l.set i s') j).count = 0 ↔ (l.slotAt j).count = 0 := by
        intro j
        by_cases hj : i = j
        · subst hj
          rw [slotAt_set_self hi]
          refine iff_of_false (fun hz => ?_) h0
          rw [hz, UInt16.toNat_zero] at hcount
          exact h0 (UInt16.toNat_inj.mp (by rw [UInt16.toNat_zero]; omega))
        · rw [slotAt_set_of_ne hj]
      rw [if_neg (by simp [empty, h0]), addItemAt, getElem?_eq_slotAt hi]
      simp only [hadd, bind, Except.bind, pure, Except.pure, empty_iff]
      split_ifs with hdone
      · refine ⟨left, l.set i s', rfl, ?_, h.left_kind, List.length_set, hempty⟩
        rw [hdone, UInt16.toNat_zero] at hleft ⊢
        omega
      · obtain ⟨left', l', hloop, hcount', hkind, hlength, hsame⟩ :=
          ih (l := l.set i s') (by simpa using his') hnodup left
        refine ⟨left', l', hloop, ?_, fun hne => ?_, hlength.trans List.length_set,
          fun j => (hsame j).trans (hempty j)⟩
        · rw [h.left_kind hdone, freeAt_set hmem] at hcount'
          omega
        · rw [hkind hne, h.left_kind hdone]

/-- The second loop of `addItem` puts everything into the first empty slot. -/
theorem putLoop_spec (idef : ItemDefManager) (his : ∀ i ∈ is, i < l.length) (item : ItemStack)
    (hitem : item.count ≠ 0) :
    ∃ left l', addItemLoop idef true is item l = .ok (left, l') ∧
      (left.count = 0 ↔ EmptyAt l is) := by
  induction is with
  | nil => exact ⟨item, l, rfl, iff_of_false hitem (by simp [EmptyAt])⟩
  | cons i is ih =>
    have hi := his i (by simp)
    rw [addItemLoop, getItem, getElem?_eq_slotAt hi]
    simp only [bind, Except.bind, emptyAt_cons]
    by_cases h0 : (l.slotAt i).count = 0
    · obtain ⟨left, s', hadd, h⟩ := ItemStack.addItem_spec idef (l.slotAt i) item
      have hleft := h.left_count
      rw [roomFor_of_empty h0, Nat.sub_self] at hleft
      have hzero : left.count = 0 := UInt16.toNat_inj.mp hleft
      rw [if_neg (by simp [empty, h0]), addItemAt, getElem?_eq_slotAt hi]
      simp only [hadd, bind, Except.bind, pure, Except.pure, empty_iff]
      rw [if_pos hzero]
      exact ⟨left, l.set i s', rfl, iff_of_true hzero (.inl h0)⟩
    · rw [if_pos (by simp [empty, h0])]
      obtain ⟨left, l', hloop, h⟩ := ih fun j hj => his j (by simp [hj])
      exact ⟨left, l', hloop, h.trans (by simp [h0])⟩

/-- `addItem` leaves nothing if and only if there is an empty slot, or enough space. -/
theorem addItem_left (idef : ItemDefManager) (l : ItemList) (item : ItemStack)
    (hitem : item.count ≠ 0) :
    ∃ left l', l.addItem idef item = .ok (left, l') ∧
      (left.count = 0 ↔ EmptyAt l (List.range l.length) ∨
        item.count.toNat ≤ freeAt idef item.kind l (List.range l.length)) := by
  have his : ∀ i ∈ List.range l.length, i < l.length := fun i hi => List.mem_range.mp hi
  obtain ⟨left, l₁, hfill, hcount, -, hlength, hsame⟩ :=
    fillLoop_spec idef his List.nodup_range item
  rw [addItem, if_neg (mt empty_iff.mp hitem), hfill]
  simp only [bind, Except.bind, pure, Except.pure, empty_iff]
  split_ifs with hdone
  · rw [hdone, UInt16.toNat_zero] at hcount
    exact ⟨left, l₁, rfl, iff_of_true hdone (.inr (by omega))⟩
  · have hpos : left.count.toNat ≠ 0 := fun h => hdone (UInt16.toNat_inj.mp h)
    have his' : ∀ i ∈ List.range l.length, i < l₁.length := by rwa [hlength]
    obtain ⟨left', l₂, hput, hempty⟩ := putLoop_spec idef his' left hdone
    rw [hlength]
    refine ⟨left', l₂, hput, hempty.trans ?_⟩
    have hiff : EmptyAt l₁ (List.range l.length) ↔ EmptyAt l (List.range l.length) :=
      exists_congr fun j => and_congr_right fun _ => hsame j
    rw [hiff]
    refine (or_iff_left ?_).symm
    omega

/-! ## Contents -/

def matching (item : ItemStack) (matchMeta : Bool) (s : ItemStack) : ℕ :=
  if isMatch item matchMeta s then s.count.toNat else 0

/-- What removing does to a slot: only matching items are taken. -/
structure Shrinks (item : ItemStack) (matchMeta : Bool) (s s' : ItemStack) : Prop where
  le : s'.count ≤ s.count
  same : s'.count ≠ 0 → s' = { s with count := s'.count }
  other : isMatch item matchMeta s = false → s' = s

theorem shrinks_refl (item : ItemStack) (matchMeta : Bool) (s : ItemStack) :
    Shrinks item matchMeta s s := ⟨UInt16.le_refl _, fun _ => rfl, fun _ => rfl⟩

theorem weight_matching_cons (item : ItemStack) (matchMeta : Bool) (s : ItemStack) (l : ItemList) :
    weight (matching item matchMeta) (s :: l) =
      matching item matchMeta s + weight (matching item matchMeta) l := by
  simp [weight]

theorem rest_takeItem {n : UInt32} {taken rest : ItemStack} (h : s.takeItem n = .ok (taken, rest)) :
    rest.count ≠ 0 → rest = { s with count := rest.count } := by
  unfold ItemStack.takeItem at h
  split_ifs at h with h0 hall
  · cases h
    exact fun _ => rfl
  · cases h
    exact fun h => absurd rfl h
  · unfold ItemStack.remove at h
    split_ifs at h with hlt
    · cases h
    · by_cases hzero : s.count - n.toUInt16 = 0
      · simp only [hzero, if_true, bind, Except.bind, pure, Except.pure] at h
        cases h
        exact fun h => absurd rfl h
      · simp only [hzero, if_false, bind, Except.bind, pure, Except.pure] at h
        cases h
        exact fun _ => rfl

/-- A matching slot, from which some items are taken. -/
theorem shrinks_takeItem {n : UInt32} {taken rest : ItemStack} {m : ℕ}
    (hmatch : isMatch item matchMeta s = true) (h : s.takeItem n = .ok (taken, rest))
    (htaken : Taken s m taken rest) :
    Shrinks item matchMeta s rest ∧
      matching item matchMeta rest + taken.count.toNat = matching item matchMeta s := by
  have hle := htaken.le
  have htake := htaken.taken_count
  have hrest := htaken.rest_count
  refine ⟨⟨UInt16.le_iff_toNat_le.mpr (by omega), rest_takeItem h, ?_⟩, ?_⟩
  · rw [hmatch]
    exact fun h => absurd h.symm Bool.false_ne_true
  · have hs : matching item matchMeta s = s.count.toNat := if_pos hmatch
    have hmatching : matching item matchMeta rest = rest.count.toNat := by
      by_cases h0 : rest.count = 0
      · rw [matching, h0]
        split_ifs <;> rfl
      · rw [matching, rest_takeItem h h0]
        exact if_pos hmatch
    omega

/-- What is removed so far, and what the slots that are left hold, give what is removed in the
end. -/
theorem removeLoop_spec (idef : ItemDefManager) (item : ItemStack) (matchMeta : Bool)
    (l : ItemList) (removed : ItemStack) (hle : removed.count.toNat ≤ item.count.toNat) :
    ∃ removed' l', removeLoop idef item matchMeta removed l = .ok (removed', l') ∧
      removed'.count.toNat = min item.count.toNat
        (removed.count.toNat + weight (matching item matchMeta) l) ∧
      weight (matching item matchMeta) l' + removed'.count.toNat =
        weight (matching item matchMeta) l + removed.count.toNat ∧
      List.Forall₂ (Shrinks item matchMeta) l l' := by
  induction l generalizing removed with
  | nil => exact ⟨removed, [], rfl, by simp [weight, hle], rfl, .nil⟩
  | cons s l ih =>
    rw [removeLoop, weight_matching_cons]
    by_cases hmatch : isMatch item matchMeta s = true
    · have hlt := item.count.toNat_lt
      have hsub : (item.count.toUInt32 - removed.count.toUInt32).toNat =
          item.count.toNat - removed.count.toNat := by
        rw [UInt32.toNat_sub_of_le]
        · rw [UInt16.toNat_toUInt32, UInt16.toNat_toUInt32]
        · rw [UInt32.le_iff_toNat_le, UInt16.toNat_toUInt32, UInt16.toNat_toUInt32]
          exact hle
      obtain ⟨taken, rest, htake, htaken⟩ :=
        ItemStack.takeItem_spec s (item.count.toUInt32 - removed.count.toUInt32)
      obtain ⟨leftover, removed₁, hadd, hadded⟩ := ItemStack.addItem_spec idef removed taken
      obtain ⟨hshrinks, hsum⟩ := shrinks_takeItem hmatch htake htaken
      have hm : matching item matchMeta s = s.count.toNat := if_pos hmatch
      have hcount : (removed₁.count + leftover.count).toNat =
          removed.count.toNat + taken.count.toNat := by
        have h1 := hadded.left_count
        have h2 := hadded.count
        have h3 := room_le idef removed taken.kind taken.count.toNat
        have h4 := htaken.taken_count
        have h5 : roomFor idef removed taken = room idef removed taken.kind taken.count.toNat := rfl
        rw [UInt16.toNat_add, Nat.mod_eq_of_lt (by omega)]
        omega
      have htakenCount := htaken.taken_count
      rw [hsub] at htakenCount
      rw [if_pos hmatch]
      simp only [htake, hadd, bind, Except.bind, pure, Except.pure]
      split_ifs with hdone
      · have henough : item.count.toNat = removed.count.toNat + taken.count.toNat := by
          rw [← hcount, hdone]
        refine ⟨_, _, rfl, ?_, ?_, .cons hshrinks (List.forall₂_same.mpr fun s _ =>
          shrinks_refl item matchMeta s)⟩
        · dsimp only
          omega
        · rw [weight_matching_cons]
          dsimp only
          omega
      · obtain ⟨removed', l', hloop, hcount', hsum', hall⟩ :=
          ih { removed₁ with count := removed₁.count + leftover.count } (by
            rw [hcount]
            omega)
        have hne : item.count.toNat ≠ removed.count.toNat + taken.count.toNat := fun h =>
          hdone (UInt16.toNat_inj.mp (hcount.trans h.symm))
        simp only at hcount' hsum'
        rw [hcount] at hcount' hsum'
        rw [hloop]
        refine ⟨removed', rest :: l', rfl, ?_, ?_, .cons hshrinks hall⟩
        · omega
        · rw [weight_matching_cons]
          omega
    · obtain ⟨removed', l', hloop, hcount, hsum, hall⟩ := ih removed hle
      have hm : matching item matchMeta s = 0 := if_neg hmatch
      rw [if_neg hmatch, hloop]
      refine ⟨removed', s :: l', rfl, ?_, ?_, .cons (shrinks_refl item matchMeta s) hall⟩
      · rw [hcount, hm, Nat.zero_add]
      · rw [weight_matching_cons]
        omega

theorem weight_reverse (f : ItemStack → ℕ) (l : ItemList) : weight f l.reverse = weight f l := by
  rw [weight, List.map_reverse, List.sum_reverse]
  rfl

theorem removeItem_spec (idef : ItemDefManager) (l : ItemList) (item : ItemStack)
    (matchMeta : Bool) :
    ∃ removed l', removeItem idef l item matchMeta = .ok (removed, l') ∧
      removed.count.toNat = min item.count.toNat (weight (matching item matchMeta) l) ∧
      weight (matching item matchMeta) l' + removed.count.toNat =
        weight (matching item matchMeta) l ∧
      List.Forall₂ (Shrinks item matchMeta) l l' := by
  obtain ⟨removed, l', hloop, hcount, hsum, hall⟩ :=
    removeLoop_spec idef item matchMeta l.reverse {} (Nat.zero_le _)
  simp only [UInt16.toNat_zero, Nat.zero_add, Nat.add_zero, weight_reverse] at hcount hsum
  refine ⟨removed, l'.reverse, by rw [removeItem, hloop]; rfl, hcount, ?_, ?_⟩
  · rw [weight_reverse]
    exact hsum
  · rw [← List.forall₂_reverse_iff, List.reverse_reverse]
    exact hall

/-- `containsItem` counts the matching items until there are enough. -/
theorem containsLoop_iff (item : ItemStack) (matchMeta : Bool) (l : ItemList) (count : UInt32)
    (hcount : count ≠ 0) :
    containsLoop item matchMeta count l = true ↔
      count.toNat ≤ weight (matching item matchMeta) l := by
  have hpos : ∀ n : UInt32, n ≠ 0 → n.toNat ≠ 0 := fun n hn h => hn (UInt32.toNat_inj.mp h)
  induction l generalizing count with
  | nil => exact iff_of_false Bool.false_ne_true (by have := hpos count hcount; simp [weight, this])
  | cons s l ih =>
    rw [containsLoop, if_neg hcount, weight_matching_cons]
    split_ifs with hmatch henough
    · refine iff_of_true rfl ?_
      have hle := UInt32.le_iff_toNat_le.mp henough
      rw [UInt16.toNat_toUInt32] at hle
      rw [matching, if_pos hmatch]
      omega
    · have hlt := UInt32.lt_iff_toNat_lt.mp (UInt32.not_le.mp henough)
      have hsub := UInt32.toNat_sub_of_le _ _ (UInt32.le_of_lt (UInt32.not_le.mp henough))
      rw [UInt16.toNat_toUInt32] at hlt hsub
      have hne : count - s.count.toUInt32 ≠ 0 := by
        intro h
        rw [h, UInt32.toNat_zero] at hsub
        omega
      refine (ih _ hne).trans ?_
      rw [hsub, matching, if_pos hmatch]
      omega
    · refine (ih count hcount).trans ?_
      rw [matching, if_neg hmatch, Nat.zero_add]

theorem containsItem_iff (l : ItemList) (item : ItemStack) (matchMeta : Bool) :
    l.containsItem item matchMeta = true ↔
      item.count.toNat ≤ weight (matching item matchMeta) l := by
  have hto := UInt16.toNat_toUInt32 item.count
  unfold containsItem
  split_ifs with h0
  · rw [h0, UInt32.toNat_zero] at hto
    exact iff_of_true rfl (by omega)
  · rw [containsLoop_iff item matchMeta _ _ h0, hto, weight_reverse]

/-! ## The predictions -/

/-- `roomForItem` says whether `addItem` leaves nothing. `removeItem` removes as many matching items
as there are, up to the count, and nothing else; `containsItem` says whether it removes the full
count. -/
theorem predictions_exact (idef : ItemDefManager) (l : ItemList) (item : ItemStack)
    (hitem : item.empty = false) :
    (∃ fits left l', l.roomForItem idef item = .ok fits ∧ l.addItem idef item = .ok (left, l') ∧
      (fits = true ↔ left.empty = true)) ∧
    ∀ matchMeta, ∃ removed l', l.removeItem idef item matchMeta = .ok (removed, l') ∧
      removed.count.toNat = min item.count.toNat (weight (matching item matchMeta) l) ∧
      weight (matching item matchMeta) l' + removed.count.toNat =
        weight (matching item matchMeta) l ∧
      List.Forall₂ (Shrinks item matchMeta) l l' ∧
      (l.containsItem item matchMeta = true ↔ removed.count = item.count) := by
  have hne : item.count ≠ 0 := fun h => Bool.eq_false_iff.mp hitem (empty_iff.mpr h)
  constructor
  · obtain ⟨fits, hroom, hfits⟩ := roomLoop_spec idef
      (fun i (hi : i ∈ List.range l.length) => List.mem_range.mp hi) item hne
    obtain ⟨left, l', hadd, hleft⟩ := addItem_left idef l item hne
    exact ⟨fits, left, l', hroom, hadd, hfits.trans (hleft.symm.trans empty_iff.symm)⟩
  · intro matchMeta
    obtain ⟨removed, l', hremove, hcount, hsum, hall⟩ := removeItem_spec idef l item matchMeta
    refine ⟨removed, l', hremove, hcount, hsum, hall, ?_⟩
    rw [containsItem_iff, ← UInt16.toNat_inj, hcount]
    omega

/-- Thirty more items do not fit where there is space for twenty. -/
theorem predictions_exact_full :
    ∃ fits left l', roomForItem ⟨fun _ => {}, id⟩ [⟨[97], 79, 0, ∅⟩] ⟨[97], 30, 0, ∅⟩ = .ok fits ∧
      addItem ⟨fun _ => {}, id⟩ [⟨[97], 79, 0, ∅⟩] ⟨[97], 30, 0, ∅⟩ = .ok (left, l') ∧
      (fits = true ↔ left.empty = true) :=
  (predictions_exact ⟨fun _ => {}, id⟩ [⟨[97], 79, 0, ∅⟩] ⟨[97], 30, 0, ∅⟩ (by decide)).1

end ItemList

end Freeminer.Inventory
