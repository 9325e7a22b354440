import Mathlib.Algebra.Order.Ring.Int
import Freeminer.Inventory.MoveSlot
import Freeminer.Inventory.RoomForItem

/-! `IDropAction::apply`: items of one slot are handed to the `on_drop` callback of the item, and
those that it takes leave the list. The callbacks do not touch the inventories, so they are
functions of what they are given. -/

set_option linter.unusedSectionVars false

namespace Freeminer.Inventory

open ItemStack ItemList Lists IMoveAction

variable {ι : Type} [DecidableEq ι]

/-- A `count` of 0 means everything. -/
structure IDropAction (ι : Type) where
  count : UInt16 := 0
  fromInv : ι
  fromList : ByteString
  fromI : Int16 := -1

/-- `allow_take` of the inventories that have one (-1 if the stack is infinite), and `on_drop`,
which returns how many of the items are left. -/
structure DropCallbacks (ι : Type) where
  allowTake : ι → Option (IDropAction ι → ItemStack → Int32)
  onDrop : ItemStack → UInt16

namespace IDropAction

def source (a : IDropAction ι) : ι × ByteString := (a.fromInv, a.fromList)

def requested (a : IDropAction ι) (s : ItemStack) : UInt16 :=
  if a.count ≠ 0 ∧ a.count < s.count then a.count else s.count

/-- `src_can_take_count` -/
def srcCanTakeCount (cb : DropCallbacks ι) (a : IDropAction ι) (s : ItemStack) : ℤ :=
  match cb.allowTake a.fromInv with
  | none => (a.requested s).toNat
  | some allowTake => (allowTake a { s with count := a.requested s }).toInt

/-- `take_count` -/
def takeCount (cb : DropCallbacks ι) (a : IDropAction ι) (s : ItemStack) : ℤ :=
  let srcCanTakeCount := a.srcCanTakeCount cb s
  if srcCanTakeCount ≠ -1 ∧ srcCanTakeCount < (a.requested s).toNat then srcCanTakeCount
  else (a.requested s).toNat

/-- `item1`, with the count narrowed to 16 bits. -/
def dropped (cb : DropCallbacks ι) (a : IDropAction ι) (s : ItemStack) : ItemStack :=
  { s with count := UInt16.ofInt (a.takeCount cb s) }

/-- `actually_dropped_count` -/
def actuallyDroppedCount (cb : DropCallbacks ι) (a : IDropAction ι) (s : ItemStack) : ℕ :=
  (max 0 (a.takeCount cb s - (cb.onDrop (a.dropped cb s)).toNat)).toNat

/-- `apply`: what `on_drop` was handed, and the inventories. -/
def apply (cb : DropCallbacks ι) (a : IDropAction ι) (w : Inventories ι) :
    Except Fault (Option ItemStack × Inventories ι) :=
  let listFrom := w.lists a.source
  if !w.hasList a.fromInv a.fromList then .ok (none, w)
  else if !inBounds a.fromI listFrom then .ok (none, w)
  else do
    let i := a.fromI.toNatClampNeg
    let srcItem ← listFrom.getItem i
    if srcItem.empty then pure (none, w)
    else if a.takeCount cb srcItem = 0 then pure (none, w)
    else
      let item1 := a.dropped cb srcItem
      if a.actuallyDroppedCount cb srcItem = 0 then pure (some item1, w)
      else if a.srcCanTakeCount cb srcItem ≠ -1 then
        let (_, lists) ← w.lists.takeItem a.source i (.ofNat (a.actuallyDroppedCount cb srcItem))
        pure (some item1, { w with lists })
      else pure (some item1, w)

/-! ## What is handed out -/

variable {cb : DropCallbacks ι} {a : IDropAction ι} {w : Inventories ι} {s : ItemStack}

def slot (a : IDropAction ι) (w : Inventories ι) : Option ItemStack :=
  if w.hasList a.fromInv a.fromList && decide (0 ≤ a.fromI) then
    (w.lists a.source)[a.fromI.toNatClampNeg]?
  else none

/-- How many of the items it was handed `on_drop` took. -/
def taken (cb : DropCallbacks ι) : Option ItemStack → ℕ
  | none => 0
  | some item => item.count.toNat - (cb.onDrop item).toNat

/-- The callback is handed no more items of a stack than are asked for, allowed and there. -/
def MayHand (cb : DropCallbacks ι) (a : IDropAction ι) (s item : ItemStack) : Prop :=
  item = { s with count := item.count } ∧
    (item.count.toNat : ℤ) ≤ min (if a.count = 0 then (s.count.toNat : ℤ) else a.count.toNat)
      (min (max 0 (a.srcCanTakeCount cb s)) s.count.toNat)

/-- The slot loses as many items as the callback took, and nothing else changes. -/
def Loses (a : IDropAction ι) (w w' : Inventories ι) (s : ItemStack) (n : ℕ) : Prop :=
  ∃ rest : ItemStack, rest.count.toNat + n = s.count.toNat ∧
    (rest.count ≠ 0 → rest = { s with count := rest.count }) ∧
    w' = { w with lists := w.lists.setSlot a.source a.fromI.toNatClampNeg rest }

def DropsExactly (cb : DropCallbacks ι) (a : IDropAction ι) (w : Inventories ι) : Prop :=
  ∃ handed w', a.apply cb w = .ok (handed, w') ∧
    (a.slot w = none → handed = none ∧ w' = w) ∧
    ∀ s, a.slot w = some s →
      (∀ item, handed = some item → a.MayHand cb s item) ∧ a.Loses w w' s (taken cb handed)

theorem toNat_requested (a : IDropAction ι) (s : ItemStack) : (a.requested s).toNat =
    if a.count = 0 then s.count.toNat else min a.count.toNat s.count.toNat := by
  unfold requested
  by_cases h0 : a.count = 0
  · rw [if_neg fun h => h.1 h0, if_pos h0]
  · rw [if_neg h0]
    by_cases hlt : a.count < s.count
    · rw [if_pos ⟨h0, hlt⟩, Nat.min_eq_left (UInt16.lt_iff_toNat_lt.mp hlt).le]
    · rw [if_neg fun h => hlt h.2,
        Nat.min_eq_right (UInt16.le_iff_toNat_le.mp (UInt16.not_lt.mp hlt))]

theorem requested_bounds (a : IDropAction ι) (h0 : s.count ≠ 0) :
    0 < (a.requested s).toNat ∧ (a.requested s).toNat ≤ s.count.toNat := by
  have hs : 0 < s.count.toNat := UInt16.lt_iff_toNat_lt.mp (UInt16.pos_iff_ne_zero.mpr h0)
  rw [toNat_requested]
  split_ifs with ha
  · exact ⟨hs, le_rfl⟩
  · have hpos : 0 < a.count.toNat := UInt16.lt_iff_toNat_lt.mp (UInt16.pos_iff_ne_zero.mpr ha)
    exact ⟨lt_min hpos hs, min_le_right _ _⟩

/-- A negative answer is taken for a count. -/
theorem takeCount_eq (h : a.srcCanTakeCount cb s ≠ -1) :
    a.takeCount cb s = min (a.srcCanTakeCount cb s) (a.requested s).toNat := by
  unfold takeCount
  dsimp only
  split_ifs with hlt
  · exact (min_eq_left hlt.2.le).symm
  · refine (min_eq_right (not_lt.mp fun hlt' => hlt ⟨h, hlt'⟩)).symm

theorem toNat_dropped (cb : DropCallbacks ι) (a : IDropAction ι) (s : ItemStack) :
    ((a.dropped cb s).count.toNat : ℤ) = a.takeCount cb s % 65536 := by
  have hmod : (a.dropped cb s).count.toNat = (a.takeCount cb s % 65536).toNat % 65536 := rfl
  rw [hmod]
  omega

theorem dropped_of_nonneg (h0 : s.count ≠ 0) (hfinite : a.srcCanTakeCount cb s ≠ -1)
    (h : 0 ≤ a.srcCanTakeCount cb s) :
    ((a.dropped cb s).count.toNat : ℤ) = a.takeCount cb s := by
  have hle := (requested_bounds a h0).2
  have hlt := s.count.toNat_lt
  rw [toNat_dropped, takeCount_eq hfinite]
  omega

theorem actuallyDroppedCount_le (h0 : s.count ≠ 0) (hfinite : a.srcCanTakeCount cb s ≠ -1) :
    a.actuallyDroppedCount cb s ≤ s.count.toNat := by
  have hle := (requested_bounds a h0).2
  unfold actuallyDroppedCount
  rw [takeCount_eq hfinite]
  omega

/-! ## The cases of a drop -/

theorem slot_eq_some (h : a.slot w = some s) :
    w.hasList a.fromInv a.fromList = true ∧ inBounds a.fromI (w.lists a.source) = true ∧
      (w.lists a.source)[a.fromI.toNatClampNeg]? = some s := by
  unfold slot at h
  split_ifs at h with hlist
  rw [Bool.and_eq_true, decide_eq_true_iff] at hlist
  exact ⟨hlist.1, inBounds_iff.mpr ⟨hlist.2, s, h⟩, h⟩

theorem apply_of_none (h : a.slot w = none) : a.apply cb w = .ok (none, w) := by
  unfold apply
  dsimp only
  by_cases hlist : w.hasList a.fromInv a.fromList = true
  · have hbounds : inBounds a.fromI (w.lists a.source) = false := by
      rw [← Bool.not_eq_true, inBounds_iff]
      rintro ⟨hi, s, hs⟩
      rw [slot, if_pos (by simp [hlist, hi]), hs] at h
      cases h
    simp [hlist, hbounds]
  · simp [hlist]

theorem apply_of_empty (h : a.slot w = some s) (h0 : s.count = 0) :
    a.apply cb w = .ok (none, w) := by
  obtain ⟨hlist, hbounds, hs⟩ := slot_eq_some h
  unfold apply
  simp [hlist, hbounds, getItem_of_some hs, bind, Except.bind, h0, pure, Except.pure]

/-- The slot loses the items that count as dropped. -/
theorem apply_spec (h : a.slot w = some s) (h0 : s.count ≠ 0)
    (hfinite : a.srcCanTakeCount cb s ≠ -1) :
    ∃ w', a.apply cb w =
        .ok (if a.takeCount cb s = 0 then none else some (a.dropped cb s), w') ∧
      a.Loses w w' s (if a.takeCount cb s = 0 then 0 else a.actuallyDroppedCount cb s) := by
  obtain ⟨hlist, hbounds, hs⟩ := slot_eq_some h
  have hkeep : a.Loses w w s 0 := by
    refine ⟨s, rfl, fun _ => rfl, ?_⟩
    rw [setSlot_eq_self hs]
  unfold apply
  simp only [hlist, hbounds, getItem_of_some hs, bind, Except.bind, Bool.not_true,
    Bool.false_eq_true, if_false, empty_iff, h0]
  by_cases htake : a.takeCount cb s = 0
  · exact ⟨w, by rw [if_pos htake, if_pos htake]; rfl, by rwa [if_pos htake]⟩
  rw [if_neg htake, if_neg htake, if_neg htake]
  by_cases hdrop : a.actuallyDroppedCount cb s = 0
  · exact ⟨w, by rw [if_pos hdrop]; rfl, by rwa [hdrop]⟩
  have hle : a.actuallyDroppedCount cb s ≤ s.count.toNat := actuallyDroppedCount_le h0 hfinite
  have hlt := s.count.toNat_lt
  have hn : (UInt32.ofNat (a.actuallyDroppedCount cb s)).toNat = a.actuallyDroppedCount cb s :=
    UInt32.toNat_ofNat_of_lt' (by change _ < 4294967296; omega)
  obtain ⟨taken, rest, htaken, hspec⟩ :=
    ItemStack.takeItem_spec s (.ofNat (a.actuallyDroppedCount cb s))
  rw [hn, Nat.min_eq_left hle] at hspec
  rw [if_neg hdrop, if_pos hfinite]
  refine ⟨{ w with lists := w.lists.setSlot a.source a.fromI.toNatClampNeg rest }, ?_, rest, ?_,
    rest_takeItem htaken, rfl⟩
  · simp only [Lists.takeItem, ItemList.takeItem, hs, htaken, bind, Except.bind]
    rfl
  · rw [hspec.rest_count]
    omega

/-- The low bits of a negative multiple of 2^16 are zero. -/
theorem dropped_of_dvd (hfinite : a.srcCanTakeCount cb s ≠ -1) (h : a.srcCanTakeCount cb s < 0)
    (hdvd : 65536 ∣ a.srcCanTakeCount cb s) : (a.dropped cb s).count.toNat = 0 := by
  have hcount := toNat_dropped cb a s
  rw [takeCount_eq hfinite] at hcount
  omega

theorem mayHand_of_handed {item : ItemStack} (h0 : s.count ≠ 0)
    (hfinite : a.srcCanTakeCount cb s ≠ -1)
    (hcan : 0 ≤ a.srcCanTakeCount cb s ∨ 65536 ∣ a.srcCanTakeCount cb s)
    (h : (if a.takeCount cb s = 0 then none else some (a.dropped cb s)) = some item) :
    a.MayHand cb s item := by
  split_ifs at h with htake
  cases h
  refine ⟨rfl, ?_⟩
  have hle := (requested_bounds a h0).2
  have hreq := toNat_requested a s
  have hrequested : (a.requested s).toNat ≤
      if a.count = 0 then s.count.toNat else a.count.toNat := by
    rw [hreq]
    split_ifs
    · exact le_rfl
    · exact min_le_left _ _
  rcases lt_or_ge (a.srcCanTakeCount cb s) 0 with hneg | hpos
  · rw [dropped_of_dvd hfinite hneg (hcan.resolve_left (not_le.mpr hneg))]
    refine le_min ?_ (le_min (le_max_left _ _) (by simp))
    split_ifs <;> simp
  · rw [dropped_of_nonneg h0 hfinite hpos, takeCount_eq hfinite]
    refine le_min ?_ (le_min ?_ ?_)
    · split_ifs at hrequested ⊢ <;> omega
    · omega
    · omega

/-- What counts as dropped is what the callback took. -/
theorem taken_eq (h0 : s.count ≠ 0) (hfinite : a.srcCanTakeCount cb s ≠ -1)
    (hcan : 0 ≤ a.srcCanTakeCount cb s ∨ 65536 ∣ a.srcCanTakeCount cb s)
    (hsub : cb.onDrop (a.dropped cb s) ≤ (a.dropped cb s).count) :
    taken cb (if a.takeCount cb s = 0 then none else some (a.dropped cb s)) =
      if a.takeCount cb s = 0 then 0 else a.actuallyDroppedCount cb s := by
  have hle := UInt16.le_iff_toNat_le.mp hsub
  split_ifs with htake
  · rfl
  unfold actuallyDroppedCount taken
  rcases lt_or_ge (a.srcCanTakeCount cb s) 0 with hneg | hpos
  · have hzero := dropped_of_dvd hfinite hneg (hcan.resolve_left (not_le.mpr hneg))
    rw [takeCount_eq hfinite]
    dsimp only
    omega
  · have hcount := dropped_of_nonneg h0 hfinite hpos
    dsimp only
    omega

/-- A negative number of allowed items other than -1 survives the tests, and its low 16 bits are
the count that the callback is handed. -/
theorem apply_dropsExactly_iff (cb : DropCallbacks ι) (a : IDropAction ι) (w : Inventories ι)
    (hfinite : ∀ s, a.slot w = some s → a.srcCanTakeCount cb s ≠ -1)
    (hsub : ∀ item, cb.onDrop item ≤ item.count) :
    a.DropsExactly cb w ↔ ∀ s, a.slot w = some s → s.count ≠ 0 →
      0 ≤ a.srcCanTakeCount cb s ∨ 65536 ∣ a.srcCanTakeCount cb s := by
  constructor
  · rintro ⟨handed, w', happly, -, hdrop⟩ s hs h0
    obtain ⟨w'', hspec, -⟩ := apply_spec hs h0 (hfinite s hs)
    by_contra hcon
    rw [not_or, not_le] at hcon
    have htake : a.takeCount cb s = a.srcCanTakeCount cb s := by
      rw [takeCount_eq (hfinite s hs)]
      omega
    rw [happly, if_neg (by omega)] at hspec
    cases hspec
    have hcount := ((hdrop s hs).1 _ rfl).2
    rw [toNat_dropped, htake] at hcount
    have hle := hcount.trans ((min_le_right _ _).trans (min_le_left _ _))
    omega
  · intro hcan
    cases hslot : a.slot w with
    | none =>
      exact ⟨none, w, apply_of_none hslot, fun _ => ⟨rfl, rfl⟩, fun s hs => by
        rw [hslot] at hs
        cases hs⟩
    | some s =>
      by_cases h0 : s.count = 0
      · refine ⟨none, w, apply_of_empty hslot h0, fun h => absurd (hslot.symm.trans h) (by simp),
          fun s' hs' => ?_⟩
        cases hslot.symm.trans hs'
        refine ⟨fun _ h => absurd h (by simp), s, rfl, fun _ => rfl, ?_⟩
        rw [setSlot_eq_self (slot_eq_some hslot).2.2]
      · have hne := hfinite s hslot
        obtain ⟨w', happly, hloses⟩ := apply_spec hslot h0 hne
        refine ⟨_, w', happly, fun h => absurd (hslot.symm.trans h) (by simp), fun s' hs' => ?_⟩
        cases hslot.symm.trans hs'
        refine ⟨fun item hitem => ?_, ?_⟩
        · exact mayHand_of_handed h0 hne (hcan s hslot h0) hitem
        · rwa [taken_eq h0 hne (hcan s hslot h0) (hsub _)]

/-- Of five items three are allowed, and the callback leaves one of them. -/
theorem apply_dropsExactly_three :
    ({ fromInv := (), fromList := [], fromI := 0 } : IDropAction Unit).DropsExactly
      { allowTake := fun _ => some fun _ _ => 3
        onDrop := fun item => if item.count = 3 then 1 else 0 }
      { hasList := fun _ _ => true, lists := fun _ => [{ count := 5 }] } := by
  refine (apply_dropsExactly_iff _ _ _ (by decide) fun item => ?_).mpr (by decide)
  dsimp only
  split_ifs with h
  · rw [h]
    decide
  · exact UInt16.zero_le

/-- Five items, of which the inventory allows -2. -/
theorem apply_hands_negative :
    ¬∀ (cb : DropCallbacks Unit) (a : IDropAction Unit) (w : Inventories Unit),
    (∀ s, a.slot w = some s → a.srcCanTakeCount cb s ≠ -1) →
    (∀ item, cb.onDrop item ≤ item.count) → a.DropsExactly cb w := by
  intro h
  let cb : DropCallbacks Unit := { allowTake := fun _ => some fun _ _ => -2, onDrop := fun _ => 0 }
  let a : IDropAction Unit := { fromInv := (), fromList := [], fromI := 0 }
  let w : Inventories Unit := { hasList := fun _ _ => true, lists := fun _ => [{ count := 5 }] }
  obtain ⟨handed, w', happly, -, hdrop⟩ := h cb a w (by decide) fun item => UInt16.zero_le
  have hhanded : a.apply cb w = .ok (some { count := 65534 }, w) := rfl
  rw [hhanded] at happly
  cases happly
  exact absurd ((hdrop { count := 5 } rfl).1 _ rfl).2 (by decide)

end IDropAction

end Freeminer.Inventory
