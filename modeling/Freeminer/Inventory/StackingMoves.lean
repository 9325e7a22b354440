import Freeminer.Inventory.Stacking

/-! Moves between lists, with the wear and the metadata of what is moved: they change no item,
unless items of different wear are merged. -/

namespace Freeminer.Inventory

open Lib ItemStack ItemList

namespace ItemStack

def requested (count : UInt32) (s : ItemStack) : ItemStack :=
  if count = 0 then s
  else if s.count = 0 then {}
  else if s.count.toNat ≤ count.toNat then s
  else { s with count := count.toUInt16 }

def remaining (count : UInt32) (s : ItemStack) : ItemStack :=
  if count = 0 then {}
  else if s.count = 0 then s
  else if s.count.toNat ≤ count.toNat then {}
  else { s with count := s.count - count.toUInt16 }

variable {s taken rest : ItemStack} {count : UInt32}

theorem takeItem_eq (h : count ≠ 0) (s : ItemStack) :
    s.takeItem count = .ok (requested count s, remaining count s) := by
  unfold takeItem requested remaining
  rw [if_neg h, if_neg h]
  by_cases h0 : s.count = 0
  · rw [if_pos (.inr h0), if_pos h0, if_pos h0]
  rw [if_neg (not_or.mpr ⟨h, h0⟩), if_neg h0, if_neg h0]
  by_cases hall : s.count.toNat ≤ count.toNat
  · rw [if_pos hall, if_pos hall, if_pos hall]
  · have hlt := s.count.toNat_lt
    have hn : count.toUInt16.toNat = count.toNat := by
      rw [UInt32.toNat_toUInt16]
      omega
    have hle : count.toUInt16 ≤ s.count := UInt16.le_iff_toNat_le.mpr (by omega)
    have hrest : s.count - count.toUInt16 ≠ 0 := by
      intro hz
      have hsub := UInt16.toNat_sub_of_le _ _ hle
      rw [hz, UInt16.toNat_zero] at hsub
      omega
    rw [if_neg hall, if_neg hall, if_neg hall, remove, if_neg (UInt16.not_lt.mpr hle)]
    simp only [hrest, if_false, bind, Except.bind, pure, Except.pure]

theorem part_requested (count : UInt32) (s : ItemStack) : (requested count s).Part s := by
  unfold requested
  split_ifs
  · exact .refl s
  · exact part_of_count rfl
  · exact .refl s
  · exact fun _ => rfl

theorem part_remaining (count : UInt32) (s : ItemStack) : (remaining count s).Part s := by
  unfold remaining
  split_ifs
  · exact part_of_count rfl
  · exact .refl s
  · exact part_of_count rfl
  · exact fun _ => rfl

theorem count_requested (count : UInt32) (s : ItemStack) :
    (requested count s).count.toNat + (remaining count s).count.toNat = s.count.toNat := by
  by_cases h : count = 0
  · simp [requested, remaining, h]
  · obtain ⟨taken, rest, htake, htaken⟩ := takeItem_spec s count
    rw [takeItem_eq h] at htake
    cases htake
    have h1 := htaken.le
    have h2 := htaken.taken_count
    have h3 := htaken.rest_count
    omega

theorem items_requested (count : UInt32) (s : ItemStack) (d : Identity) :
    itemsOf d (requested count s) + itemsOf d (remaining count s) = itemsOf d s := by
  have h := count_requested count s
  rw [itemsOf_of_part (part_requested count s), itemsOf_of_part (part_remaining count s), itemsOf]
  split_ifs <;> omega

/-- Nor does putting back what could not be put elsewhere. -/
theorem items_putBack {leftover item s' : ItemStack} (hleft : leftover.Part s) (hitem : item.Part s)
    (h0 : leftover.count ≠ 0) (hsum : leftover.count.toNat + item.count.toNat < 65536)
    (hadd : leftover.add item.count = .ok s') (d : Identity) :
    itemsOf d s' = itemsOf d leftover + itemsOf d item := by
  obtain ⟨s₁, hadd₁, hcount, -⟩ := add_spec hsum
  rw [hadd] at hadd₁
  cases hadd₁
  have hpart : s'.Part s := fun _ => (identity_add hadd).trans (hleft h0)
  rw [itemsOf_of_part hpart, itemsOf_of_part hleft, itemsOf_of_part hitem, hcount]
  split_ifs <;> omega

end ItemStack

namespace Lists

variable {ρ : Type} [DecidableEq ρ] {idef : ItemDefManager} {lists : Lists ρ} {src dest : ρ}
  {i destI : ℕ} {count : UInt32} {s t : ItemStack}

def itemsIn (lists : Lists ρ) (refs : Finset ρ) (d : Identity) : ℕ := ledger (itemsOf d) lists refs

theorem itemsIn_setSlot (refs : Finset ρ) (hr : src ∈ refs) (h : (lists src)[i]? = some s)
    (t : ItemStack) (d : Identity) :
    (lists.setSlot src i t).itemsIn refs d + itemsOf d s = lists.itemsIn refs d + itemsOf d t :=
  ledger_set hr h t

theorem takeSource_eq (h : (lists src)[i]? = some s) (count : UInt32) :
    lists.takeSource src i count =
      .ok (requested count s, lists.setSlot src i (remaining count s)) := by
  unfold takeSource
  by_cases h0 : count = 0
  · rw [if_pos h0, changeItem_eq, h, requested, remaining, if_pos h0, if_pos h0]
    rfl
  · rw [if_neg h0, takeItem, ItemList.takeItem, h]
    dsimp only
    rw [ItemStack.takeItem_eq h0]
    rfl

/-! ## One slot to another -/

def MoveMixes (idef : ItemDefManager) (lists : Lists ρ) (src : ρ) (i : ℕ) (dest : ρ) (destI : ℕ)
    (count : UInt32) : Prop :=
  ¬(src = dest ∧ i = destI) ∧ ∃ s t, (lists src)[i]? = some s ∧ (lists dest)[destI]? = some t ∧
    Mixes idef t (requested count s)

/-- What `moveItem` puts into the two slots, either way round. -/
theorem moveItem_slots (hne : ¬(src = dest ∧ i = destI)) (hs : (lists src)[i]? = some s)
    (ht : (lists dest)[destI]? = some t) (count : UInt32) (swap : Bool) {leftover t₁ : ItemStack}
    (hadd : t.addItem idef (requested count s) = .ok (leftover, t₁)) :
    ∃ r s₁, lists.moveItem idef src i dest destI count swap = .ok r ∧
      (∀ d, itemsOf d s₁ = itemsOf d leftover + itemsOf d (remaining count s)) ∧
      (r.lists = (lists.setSlot src i s₁).setSlot dest destI t₁ ∨
        r.lists = (lists.setSlot src i t₁).setSlot dest destI s₁) := by
  obtain ⟨left, t', hadd', hadded⟩ := ItemStack.addItem_spec idef t (requested count s)
  rw [hadd] at hadd'
  cases hadd'
  have hcount := count_requested count s
  have hlt := s.count.toNat_lt
  have hleftCount := hadded.left_count
  have hpart : leftover.Part s := (part_addItem hadd).1.trans (part_requested count s) fun h0 =>
    ne_zero_of_le (by omega) h0
  have haddAt := addItemAt_of_some
    ((getElem?_setSlot_of_ne hne (remaining count s) :
      (lists.setSlot src i (remaining count s) dest)[destI]? = _).trans ht) hadd
  unfold moveItem
  rw [if_neg hne, takeSource_eq hs]
  simp only [bind, Except.bind, haddAt]
  by_cases h0 : leftover.count = 0
  · rw [if_pos (empty_iff.mpr h0)]
    exact ⟨_, remaining count s, rfl, fun d => by rw [itemsOf_of_count h0, Nat.zero_add], .inl rfl⟩
  · rw [if_neg (mt empty_iff.mp h0)]
    obtain ⟨moved, hremove, -⟩ := remove_spec (s := requested count s) (n := leftover.count)
      (UInt16.le_iff_toNat_le.mpr (by omega))
    have hsum : leftover.count.toNat + (remaining count s).count.toNat < 65536 := by omega
    obtain ⟨s₁, hput, -⟩ := add_spec hsum
    have hitems := items_putBack hpart (part_remaining count s) h0 hsum hput
    simp only [hremove, getItem_of_some (getElem?_pair_left hne hs (remaining count s) t₁), hput,
      changeItem_eq, setSlot_pair_left hne, getElem?_pair_left hne hs, setSlot_setSlot,
      getElem?_pair_right hne ht, Option.getD_some]
    split_ifs
    · exact ⟨_, s₁, rfl, hitems, .inr rfl⟩
    · exact ⟨_, s₁, rfl, hitems, .inl rfl⟩

theorem itemsIn_pair (hne : ¬(src = dest ∧ i = destI)) (hs : (lists src)[i]? = some s)
    (ht : (lists dest)[destI]? = some t) (a b : ItemStack) (d : Identity) :
    ((lists.setSlot src i a).setSlot dest destI b).itemsIn {src, dest} d + itemsOf d s +
        itemsOf d t =
      lists.itemsIn {src, dest} d + itemsOf d a + itemsOf d b := by
  have h1 := itemsIn_setSlot {src, dest} (by simp) hs a d
  have h2 := itemsIn_setSlot {src, dest} (by simp)
    ((getElem?_setSlot_of_ne hne a).trans ht) b d
  omega

/-- Without a destination slot everything is put back. -/
theorem moveItem_back (idef : ItemDefManager) (hne : ¬(src = dest ∧ i = destI))
    (hs : (lists src)[i]? = some s) (ht : (lists dest)[destI]? = none) (count : UInt32)
    (swap : Bool) :
    ∃ r s₁, lists.moveItem idef src i dest destI count swap = .ok r ∧
      (∀ d, itemsOf d s₁ = itemsOf d s) ∧ r.lists = lists.setSlot src i s₁ := by
  have hitems := items_requested count s
  have ht' : ∀ a, (lists.setSlot src i a dest)[destI]? = none := fun a =>
    (getElem?_setSlot_of_ne hne a).trans ht
  unfold moveItem
  rw [if_neg hne, takeSource_eq hs]
  simp only [bind, Except.bind, addItemAt_of_none (ht' _)]
  by_cases h0 : (requested count s).count = 0
  · rw [if_pos (empty_iff.mpr h0)]
    refine ⟨_, remaining count s, rfl, fun d => ?_, rfl⟩
    rw [← hitems d, itemsOf_of_count h0, Nat.zero_add]
  · have hcount := count_requested count s
    have hlt := s.count.toNat_lt
    have hsum : (requested count s).count.toNat + (remaining count s).count.toNat < 65536 := by
      omega
    obtain ⟨moved, hremove, -⟩ :=
      remove_spec (s := requested count s) (n := (requested count s).count) (UInt16.le_refl _)
    obtain ⟨s₁, hput, -⟩ := add_spec hsum
    have hback := items_putBack (part_requested count s) (part_remaining count s) h0 hsum hput
    rw [if_neg (mt empty_iff.mp h0)]
    simp only [hremove, getItem_of_some (getElem?_setSlot_self hs _), hput, changeItem_eq,
      setSlot_setSlot, getElem?_setSlot_self hs, Option.getD_some, ht', Option.getD_none,
      setSlot_of_none (ht' _)]
    have hsame : ∀ d, itemsOf d s₁ = itemsOf d s := fun d => (hback d).trans (hitems d)
    split_ifs
    · exact ⟨_, s₁, rfl, hsame, rfl⟩
    · exact ⟨_, s₁, rfl, hsame, rfl⟩

theorem moveItem_merged (idef : ItemDefManager) (lists : Lists ρ) (src : ρ) (i : ℕ) (dest : ρ)
    (destI : ℕ) (count : UInt32) (swap : Bool) :
    ∃ r d, lists.moveItem idef src i dest destI count swap = .ok r ∧
      Merged (MoveMixes idef lists src i dest destI count) d (lists.itemsIn {src, dest})
        (r.lists.itemsIn {src, dest}) := by
  by_cases hne : src = dest ∧ i = destI
  · refine ⟨_, ([], 0, ∅), by rw [moveItem, if_pos hne], ?_⟩
    exact (merged_refl _ _).congr (iff_of_false id fun h => h.1 hne)
  cases hs : (lists src)[i]? with
  | none =>
    obtain ⟨moved, didSwap, s', hmove, -⟩ := moveItem_of_none idef hne (.inl hs) count swap
    refine ⟨_, ([], 0, ∅), hmove, ?_⟩
    rw [setSlot_of_none hs]
    refine (merged_refl _ _).congr (iff_of_false id ?_)
    rintro ⟨-, s, t, hs', -⟩
    rw [hs] at hs'
    cases hs'
  | some s =>
    cases ht : (lists dest)[destI]? with
    | none =>
      obtain ⟨r, s₁, hmove, hsame, hr⟩ := moveItem_back idef hne hs ht count swap
      refine ⟨r, ([], 0, ∅), hmove, fun _ d => ?_, ?_⟩
      · have h1 := itemsIn_setSlot {src, dest} (by simp) hs s₁ d
        have h2 := hsame d
        rw [hr]
        omega
      · rintro ⟨-, s, t, -, ht', -⟩
        rw [ht] at ht'
        cases ht'
    | some t =>
      obtain ⟨leftover, t₁, hadd, -⟩ := ItemStack.addItem_spec idef t (requested count s)
      obtain ⟨r, s₁, hmove, hs₁, hr⟩ := moveItem_slots hne hs ht count swap hadd
      have hmixes : Mixes idef t (requested count s) ↔
          MoveMixes idef lists src i dest destI count := by
        refine ⟨fun hm => ⟨hne, s, t, hs, ht, hm⟩, ?_⟩
        rintro ⟨-, s', t', hs', ht', hm⟩
        rw [hs] at hs'
        rw [ht] at ht'
        cases hs'
        cases ht'
        exact hm
      have hslot := (ItemStack.addItem_merged hadd).congr hmixes
      have htotal : ∀ d, r.lists.itemsIn {src, dest} d + itemsOf d s + itemsOf d t =
          lists.itemsIn {src, dest} d + itemsOf d s₁ + itemsOf d t₁ := by
        intro d
        rcases hr with hr | hr <;> rw [hr, itemsIn_pair hne hs ht]
        omega
      refine ⟨r, (requested count s).identity, hmove, fun hm d => ?_, fun hm => ?_⟩
      · have h1 := hslot.kept hm d
        have h2 := htotal d
        have h3 := hs₁ d
        have h4 := items_requested count s d
        omega
      · have h1 := hslot.lost hm
        have h2 := htotal (requested count s).identity
        have h3 := hs₁ (requested count s).identity
        have h4 := items_requested count s (requested count s).identity
        omega

/-! ## One slot to a list -/

/-- Adding to the destination list merges items of different wear. -/
def SomewhereMixes (idef : ItemDefManager) (lists : Lists ρ) (src : ρ) (i : ℕ) (dest : ρ)
    (count : UInt32) : Prop :=
  ∃ s, (lists src)[i]? = some s ∧
    Mixed idef (lists.setSlot src i (remaining count s) dest) (requested count s)

theorem not_mixed_of_count {l : ItemList} (h : s.count = 0) : ¬Mixed idef l s :=
  fun ⟨_, _, hm, _⟩ => not_mixes_of_count h hm

theorem moveItemSomewhere_merged (idef : ItemDefManager) (lists : Lists ρ) (src : ρ) (i : ℕ)
    (dest : ρ) (count : UInt32) :
    ∃ lists' d, lists.moveItemSomewhere idef src i dest count = .ok lists' ∧
      Merged (SomewhereMixes idef lists src i dest count) d (lists.itemsIn {src, dest})
        (lists'.itemsIn {src, dest}) := by
  cases hs : (lists src)[i]? with
  | none =>
    refine ⟨lists, ([], 0, ∅), ?_, (merged_refl _ _).congr (iff_of_false id ?_)⟩
    · rw [moveItemSomewhere, takeSource_of_none hs]
      rfl
    · rintro ⟨s, hs', -⟩
      rw [hs] at hs'
      cases hs'
  | some s =>
    have hitems := items_requested count s
    have htake := itemsIn_setSlot {src, dest} (by simp) hs (remaining count s)
    have hmixes : Mixed idef (lists.setSlot src i (remaining count s) dest) (requested count s) ↔
        SomewhereMixes idef lists src i dest count := by
      refine ⟨fun hm => ⟨s, hs, hm⟩, ?_⟩
      rintro ⟨s', hs', hm⟩
      rw [hs] at hs'
      cases hs'
      exact hm
    unfold moveItemSomewhere
    rw [takeSource_eq hs]
    simp only [bind, Except.bind]
    by_cases h0 : (requested count s).count = 0
    · rw [if_pos (empty_iff.mpr h0)]
      refine ⟨_, ([], 0, ∅), rfl, fun _ d => ?_, fun hm => absurd (hmixes.mpr hm)
        (not_mixed_of_count h0)⟩
      have h1 := hitems d
      have h2 := htake d
      rw [itemsOf_of_count h0] at h1
      omega
    rw [if_neg (mt empty_iff.mp h0)]
    obtain ⟨leftover, l, hadd, hadds⟩ :=
      ItemList.addItem_spec idef (lists.setSlot src i (remaining count s) dest) (requested count s)
    obtain ⟨hmerged, hparts⟩ := ItemList.addItem_merged hadd
    have hmerged := hmerged.congr hmixes
    have hadd' : (lists.setSlot src i (remaining count s)).addItem idef dest (requested count s) =
        .ok (leftover, Function.update (lists.setSlot src i (remaining count s)) dest l) := by
      rw [addItem, hadd]
      rfl
    have hdest : ∀ d, itemsIn (Function.update (lists.setSlot src i (remaining count s)) dest l)
          {src, dest} d + weight (itemsOf d) (lists.setSlot src i (remaining count s) dest) =
        (lists.setSlot src i (remaining count s)).itemsIn {src, dest} d + weight (itemsOf d) l :=
      fun d => ledger_update (itemsOf d) _ (by simp) l
    rw [hadd']
    dsimp only
    -- the lists hold what they held, but for the items that are merged and the leftover
    have htotal : ∀ d, itemsIn (Function.update (lists.setSlot src i (remaining count s)) dest l)
          {src, dest} d + itemsOf d leftover +
            itemsWith (lists.setSlot src i (remaining count s) dest) (requested count s) d =
        lists.itemsIn {src, dest} d + l.itemsWith leftover d := by
      intro d
      have h1 := hitems d
      have h2 := htake d
      have h3 := hdest d
      unfold itemsWith
      omega
    have hresult : ∀ lists' : Lists ρ, (∀ d, lists'.itemsIn {src, dest} d =
          itemsIn (Function.update (lists.setSlot src i (remaining count s)) dest l)
            {src, dest} d + itemsOf d leftover) →
        Merged (SomewhereMixes idef lists src i dest count) (requested count s).identity
          (lists.itemsIn {src, dest}) (lists'.itemsIn {src, dest}) := by
      intro lists' h
      refine ⟨fun hm d => ?_, fun hm => ?_⟩
      · have h1 := hmerged.kept hm d
        have h2 := htotal d
        have h3 := h d
        omega
      · have h1 := hmerged.lost hm
        have h2 := htotal (requested count s).identity
        have h3 := h (requested count s).identity
        omega
    by_cases hleft : leftover.count = 0
    · rw [if_pos (empty_iff.mpr hleft)]
      exact ⟨_, _, rfl, hresult _ fun d => by rw [itemsOf_of_count hleft, Nat.add_zero]⟩
    rw [if_neg (mt empty_iff.mp hleft)]
    have hpart : leftover.Part s := hparts.left.trans (part_requested count s) fun _ => h0
    have hcount := count_requested count s
    have hlt := s.count.toNat_lt
    -- the source slot, which may be among the slots added to
    obtain ⟨s₁, hs₁, hle, hpart₁⟩ : ∃ s₁ : ItemStack,
        (Function.update (lists.setSlot src i (remaining count s)) dest l src)[i]? = some s₁ ∧
        leftover.count.toNat + s₁.count.toNat ≤ s.count.toNat ∧ s₁.Part s := by
      by_cases hd : src = dest
      · subst hd
        have hget := getElem?_setSlot_self hs (remaining count s)
        obtain ⟨s₁, hs₁, hle, -⟩ := hadds.slot i (remaining count s) hget
        have hold : slotAt (lists.setSlot src i (remaining count s) src) i = remaining count s := by
          rw [slotAt, List.getD_eq_getElem?_getD, hget, Option.getD_some]
        have hnew : l.slotAt i = s₁ := by
          rw [slotAt, List.getD_eq_getElem?_getD, hs₁, Option.getD_some]
        refine ⟨s₁, by rwa [Function.update_self], by omega, ?_⟩
        by_cases hr : (remaining count s).count = 0
        · have hempty := hparts.empty i (by rw [hold]; exact hr)
          rw [hnew] at hempty
          exact hempty.trans (part_requested count s) fun _ => h0
        · have hfull := hparts.full i (by rw [hold]; exact hr)
          rw [hold, hnew] at hfull
          exact hfull.trans (part_remaining count s) fun _ => hr
      · have hle := hadds.left_count
        refine ⟨remaining count s, ?_, by omega, part_remaining count s⟩
        rw [Function.update_of_ne hd, getElem?_setSlot_self hs]
    have hsum : leftover.count.toNat + s₁.count.toNat < 65536 := by omega
    obtain ⟨s₂, hput, -⟩ := add_spec hsum
    have hback := items_putBack hpart hpart₁ hleft hsum hput
    simp only [getItem_of_some hs₁, hput, changeItem_eq]
    refine ⟨_, _, rfl, hresult _ fun d => ?_⟩
    have h1 := itemsIn_setSlot {src, dest} (by simp) hs₁ s₂ d
    have h2 := hback d
    omega

end Lists

/-! ## All operations -/

/-- Items go to a stack that is not empty only if `stacksWith` holds, unless there is room for them
and their wear differs. -/
theorem transfer_iff {idef : ItemDefManager} {s s' newitem left : ItemStack}
    (h : s.addItem idef newitem = .ok (left, s')) :
    (s.empty = false ∧ left.count < newitem.count → s.stacksWith newitem = true) ↔
      ¬Mixes idef s newitem := by
  obtain ⟨left₁, s₁, hadd, hadded⟩ := ItemStack.addItem_spec idef s newitem
  rw [h] at hadd
  cases hadd
  have hleft := hadded.left_count
  have hle : roomFor idef s newitem ≤ newitem.count.toNat := room_le _ _ _ _
  rw [stacksWith_iff, identity_eq_iff, UInt16.lt_iff_toNat_lt, ← Bool.not_eq_true, empty_iff]
  constructor
  · rintro hstacks ⟨hne, hwear, hroom⟩
    exact hwear (hstacks ⟨hne, by omega⟩).2
  · rintro hm ⟨hne, hlt⟩
    have hroom : roomFor idef s newitem ≠ 0 := by omega
    refine ⟨?_, ?_⟩
    · by_contra hkind
      rw [roomFor, room, if_neg hne, if_neg hkind] at hroom
      exact hroom rfl
    · by_contra hwear
      exact hm ⟨hne, hwear, hroom⟩

open Lists in
/-- `addItem` respects `stacksWith`, and the operations on lists change no item, unless they put
items to others of a different wear. -/
theorem merge_iff {ρ : Type} [DecidableEq ρ] (idef : ItemDefManager) :
    (∀ s newitem : ItemStack, ∃ left s', s.addItem idef newitem = .ok (left, s') ∧
      ((s.empty = false ∧ left.count < newitem.count → s.stacksWith newitem = true) ↔
        ¬Mixes idef s newitem)) ∧
    (∀ (l : ItemList) (newitem : ItemStack), ∃ left l',
      l.addItem idef newitem = .ok (left, l') ∧
      ((∀ d, l'.itemsWith left d = l.itemsWith newitem d) ↔ ¬Mixed idef l newitem)) ∧
    (∀ (lists : Lists ρ) (src : ρ) (i : ℕ) (dest : ρ) (destI : ℕ) (count : UInt32) (swap : Bool),
      ∃ r, lists.moveItem idef src i dest destI count swap = .ok r ∧
      ((∀ d, r.lists.itemsIn {src, dest} d = lists.itemsIn {src, dest} d) ↔
        ¬MoveMixes idef lists src i dest destI count)) ∧
    ∀ (lists : Lists ρ) (src : ρ) (i : ℕ) (dest : ρ) (count : UInt32),
      ∃ lists', lists.moveItemSomewhere idef src i dest count = .ok lists' ∧
      ((∀ d, lists'.itemsIn {src, dest} d = lists.itemsIn {src, dest} d) ↔
        ¬SomewhereMixes idef lists src i dest count) := by
  refine ⟨fun s newitem => ?_, fun l newitem => ?_, fun lists src i dest destI count swap => ?_,
    fun lists src i dest count => ?_⟩
  · obtain ⟨left, s', hadd, -⟩ := ItemStack.addItem_spec idef s newitem
    exact ⟨left, s', hadd, transfer_iff hadd⟩
  · obtain ⟨left, l', hadd, -⟩ := ItemList.addItem_spec idef l newitem
    exact ⟨left, l', hadd, (ItemList.addItem_merged hadd).1.iff⟩
  · obtain ⟨r, d, hmove, hmerged⟩ := moveItem_merged idef lists src i dest destI count swap
    exact ⟨r, hmove, hmerged.iff⟩
  · obtain ⟨lists', d, hmove, hmerged⟩ := moveItemSomewhere_merged idef lists src i dest count
    exact ⟨lists', hmove, hmerged.iff⟩

/-- Two worn items become one stack of unworn ones. -/
theorem merge_worn : ∃ left s',
    ItemStack.addItem ⟨fun _ => {}, id⟩ ⟨[97], 3, 0, ∅⟩ ⟨[97], 2, 5, ∅⟩ = .ok (left, s') ∧
      left.count < 2 ∧ stacksWith ⟨[97], 3, 0, ∅⟩ ⟨[97], 2, 5, ∅⟩ = false ∧ s' = ⟨[97], 5, 0, ∅⟩ :=
  ⟨{}, ⟨[97], 5, 0, ∅⟩, by decide, by decide, by decide, rfl⟩

end Freeminer.Inventory
