import Freeminer.Inventory.InventoryList

/-! Moves between two inventory lists, which may be the same list. The lists are a family over
the references to them, so that a move between two slots of one list needs no case of its own. -/

namespace Freeminer.Inventory

open Lib ItemStack ItemList

variable {ρ : Type} [DecidableEq ρ]

abbrev Lists (ρ : Type) := ρ → ItemList

namespace Lists

/-- The item of a slot is replaced; nothing happens if there is no such slot. -/
def setSlot (lists : Lists ρ) (r : ρ) (i : ℕ) (s : ItemStack) : Lists ρ :=
  Function.update lists r ((lists r).set i s)

def WellFormed (lists : Lists ρ) (refs : Finset ρ) : Prop := ∀ r ∈ refs, (lists r).WellFormed

abbrev total (lists : Lists ρ) (refs : Finset ρ) (k : Kind) : ℕ := ledger (countOf k) lists refs

/-! ## The moves -/

def changeItem (lists : Lists ρ) (r : ρ) (i : ℕ) (newitem : ItemStack) : ItemStack × Lists ρ :=
  let (olditem, l) := (lists r).changeItem i newitem
  (olditem, Function.update lists r l)

def addItemAt (idef : ItemDefManager) (lists : Lists ρ) (r : ρ) (i : ℕ) (newitem : ItemStack) :
    Except Fault (ItemStack × Lists ρ) := do
  let (leftover, l) ← (lists r).addItemAt idef i newitem
  pure (leftover, Function.update lists r l)

def addItem (idef : ItemDefManager) (lists : Lists ρ) (r : ρ) (newitem : ItemStack) :
    Except Fault (ItemStack × Lists ρ) := do
  let (leftover, l) ← (lists r).addItem idef newitem
  pure (leftover, Function.update lists r l)

def takeItem (lists : Lists ρ) (r : ρ) (i : ℕ) (takecount : UInt32) :
    Except Fault (ItemStack × Lists ρ) := do
  let (taken, l) ← (lists r).takeItem i takecount
  pure (taken, Function.update lists r l)

/-- The item taken from the source list: everything if the count is 0. -/
def takeSource (lists : Lists ρ) (src : ρ) (i : ℕ) (count : UInt32) :
    Except Fault (ItemStack × Lists ρ) :=
  if count = 0 then .ok (lists.changeItem src i {}) else lists.takeItem src i count

/-- What `moveItem` returns, and the lists. -/
structure Moved (ρ : Type) where
  moved : ItemStack
  didSwap : Bool := false
  lists : Lists ρ

def moveItem (idef : ItemDefManager) (lists : Lists ρ) (src : ρ) (i : ℕ) (dest : ρ) (destI : ℕ)
    (count : UInt32) (swapIfNeeded : Bool) : Except Fault (Moved ρ) :=
  if src = dest ∧ i = destI then .ok { moved := {}, lists }
  else do
    let (moved, lists) ← lists.takeSource src i count
    let (leftover, lists) ← lists.addItemAt idef dest destI moved
    if leftover.empty then pure { moved, lists }
    else
      let moved ← moved.remove leftover.count
      -- add any leftover stack back to the source stack
      let item ← (lists src).getItem i
      let leftover ← leftover.add item.count
      let (_, lists) := lists.changeItem src i leftover
      if moved.empty && swapIfNeeded then
        let (moved, lists) := lists.changeItem src i {}
        let (item2, lists) := lists.changeItem dest destI moved
        let (_, lists) := lists.changeItem src i item2
        pure { moved, didSwap := true, lists }
      else pure { moved, lists }

def moveItemSomewhere (idef : ItemDefManager) (lists : Lists ρ) (src : ρ) (i : ℕ) (dest : ρ)
    (count : UInt32) : Except Fault (Lists ρ) := do
  let (item1, lists) ← lists.takeSource src i count
  if item1.empty then pure lists
  else
    let (leftover, lists) ← lists.addItem idef dest item1
    if leftover.empty then pure lists
    else
      -- add the remaining part back to the source item
      let item ← (lists src).getItem i
      let leftover ← leftover.add item.count
      let (_, lists) := lists.changeItem src i leftover
      pure lists

/-! ## Slots -/

variable {lists : Lists ρ} {r r' : ρ} {i j : ℕ} {s t : ItemStack} {refs : Finset ρ}

theorem changeItem_eq (lists : Lists ρ) (r : ρ) (i : ℕ) (newitem : ItemStack) :
    lists.changeItem r i newitem = ((lists r)[i]?.getD newitem, lists.setSlot r i newitem) := by
  unfold changeItem ItemList.changeItem setSlot
  cases h : (lists r)[i]? with
  | none => rw [List.set_eq_of_length_le (List.getElem?_eq_none_iff.mp h)]; rfl
  | some s => rfl

theorem getElem?_setSlot_self (h : (lists r)[i]? = some s) (t : ItemStack) :
    (lists.setSlot r i t r)[i]? = some t := by
  have hi := (List.getElem?_eq_some_iff.mp h).1
  rw [setSlot, Function.update_self, List.getElem?_set_self hi]

theorem getElem?_setSlot_of_ne (h : ¬(r = r' ∧ i = j)) (t : ItemStack) :
    (lists.setSlot r i t r')[j]? = (lists r')[j]? := by
  unfold setSlot
  by_cases hr : r' = r
  · subst hr
    rw [Function.update_self, List.getElem?_set_ne fun hij => h ⟨rfl, hij⟩]
  · rw [Function.update_of_ne hr]

theorem setSlot_setSlot (s t : ItemStack) :
    (lists.setSlot r i s).setSlot r i t = lists.setSlot r i t := by
  simp only [setSlot, Function.update_self, List.set_set, Function.update_idem]

theorem setSlot_comm (h : ¬(r = r' ∧ i = j)) (s t : ItemStack) :
    (lists.setSlot r i s).setSlot r' j t = (lists.setSlot r' j t).setSlot r i s := by
  unfold setSlot
  by_cases hr : r' = r
  · subst hr
    have hij : i ≠ j := fun hij => h ⟨rfl, hij⟩
    simp only [Function.update_self, Function.update_idem, List.set_comm _ _ hij]
  · rw [Function.update_of_ne hr, Function.update_of_ne (Ne.symm hr), Function.update_comm hr]

theorem setSlot_of_none (h : (lists r)[i]? = none) (s : ItemStack) :
    lists.setSlot r i s = lists := by
  rw [setSlot, List.set_eq_of_length_le (List.getElem?_eq_none_iff.mp h), Function.update_eq_self]

theorem setSlot_eq_self (h : (lists r)[i]? = some s) : lists.setSlot r i s = lists := by
  obtain ⟨hi, rfl⟩ := List.getElem?_eq_some_iff.mp h
  rw [setSlot, List.set_getElem_self, Function.update_eq_self]

theorem length_setSlot (lists : Lists ρ) (r : ρ) (i : ℕ) (s : ItemStack) (r' : ρ) :
    (lists.setSlot r i s r').length = (lists r').length := by
  unfold setSlot
  by_cases hr : r' = r
  · subst hr
    rw [Function.update_self, List.length_set]
  · rw [Function.update_of_ne hr]

theorem weight_setSlot (f : ItemStack → ℕ) (h : (lists r)[i]? = some s) (t : ItemStack) :
    weight f (lists.setSlot r i t r) + f s = weight f (lists r) + f t := by
  rw [setSlot, Function.update_self]
  exact weight_set h t

theorem total_setSlot (hr : r ∈ refs) (h : (lists r)[i]? = some s) (t : ItemStack) (k : Kind) :
    (lists.setSlot r i t).total refs k + countOf k s = lists.total refs k + countOf k t :=
  ledger_set hr h t

theorem wellFormed_update {l : ItemList} (h : lists.WellFormed refs) (hl : l.WellFormed) :
    WellFormed (Function.update lists r l) refs := by
  intro r' hr'
  by_cases hr : r' = r
  · subst hr
    rwa [Function.update_self]
  · rw [Function.update_of_ne hr]
    exact h r' hr'

theorem WellFormed.setSlot (h : lists.WellFormed refs) (hr : r ∈ refs) (hs : s.WellFormed) :
    (lists.setSlot r i s).WellFormed refs :=
  wellFormed_update h ((h r hr).set hs)

/-! ## One move -/

section Move

variable {idef : ItemDefManager} {src dest : ρ} {destI : ℕ} {count : UInt32} {swap : Bool}

def amount (count : UInt32) (s : ItemStack) : ℕ :=
  if count = 0 then s.count.toNat else min count.toNat s.count.toNat

theorem takeSource_of_none (h : (lists src)[i]? = none) :
    lists.takeSource src i count = .ok ({}, lists) := by
  unfold takeSource
  split_ifs
  · rw [changeItem_eq, h, setSlot_of_none h]
    rfl
  · unfold takeItem ItemList.takeItem
    rw [h]
    change Except.ok (_, Function.update lists src (lists src)) = _
    rw [Function.update_eq_self]

theorem takeSource_of_some (h : (lists src)[i]? = some s) (count : UInt32) :
    ∃ taken rest, lists.takeSource src i count = .ok (taken, lists.setSlot src i rest) ∧
      Taken s (amount count s) taken rest := by
  unfold takeSource amount
  split_ifs
  · rw [changeItem_eq, h]
    exact ⟨_, _, rfl, taken_all s⟩
  · obtain ⟨taken, rest, htake, htaken⟩ := ItemStack.takeItem_spec s count
    refine ⟨taken, rest, ?_, htaken⟩
    unfold takeItem ItemList.takeItem
    rw [h]
    dsimp only
    rw [htake]
    rfl

theorem addItemAt_of_none (h : (lists dest)[destI]? = none) (newitem : ItemStack) :
    lists.addItemAt idef dest destI newitem = .ok (newitem, lists) := by
  unfold addItemAt ItemList.addItemAt
  rw [h]
  change Except.ok (_, Function.update lists dest (lists dest)) = _
  rw [Function.update_eq_self]

theorem addItemAt_of_some {newitem leftover t' : ItemStack} (h : (lists dest)[destI]? = some t)
    (hadd : t.addItem idef newitem = .ok (leftover, t')) :
    lists.addItemAt idef dest destI newitem = .ok (leftover, lists.setSlot dest destI t') := by
  unfold addItemAt ItemList.addItemAt
  rw [h]
  dsimp only
  rw [hadd]
  rfl

theorem getItem_of_some {l : ItemList} (h : l[i]? = some s) : l.getItem i = .ok s := by
  rw [getItem, h]

/-- Leftover items are added back to what is in the source slot. -/
theorem putBack_spec {leftover item : ItemStack} (h0 : leftover.count ≠ 0)
    (hsum : leftover.count.toNat + item.count.toNat < 65536)
    (hkind : item.count ≠ 0 → item.kind = leftover.kind) :
    ∃ s', leftover.add item.count = .ok s' ∧
      s'.count.toNat = leftover.count.toNat + item.count.toNat ∧ s'.kind = leftover.kind ∧
      s'.WellFormed ∧ ∀ k, countOf k s' = countOf k leftover + countOf k item := by
  obtain ⟨s', hadd, hcount, hkind'⟩ := add_spec hsum
  have hs' : s'.count ≠ 0 := ne_zero_of_le (by omega) h0
  refine ⟨s', hadd, hcount, hkind', fun hz => absurd hz hs', fun k => ?_⟩
  have hmove := countOf_move (a := item) (b := leftover) (c := s') (d := {})
    (by simp only [UInt16.toNat_zero]; omega) hkind (fun _ => hkind') (fun h => absurd rfl h) k
  rw [countOf_default] at hmove
  omega

/-- What was taken goes back on top of what stayed. -/
theorem putBack_of_taken {n : ℕ} {taken rest leftover : ItemStack} (h : Taken s n taken rest)
    (hcount : leftover.count.toNat ≤ taken.count.toNat) (h0 : leftover.count ≠ 0)
    (hkind : leftover.kind = taken.kind) :
    ∃ s', leftover.add rest.count = .ok s' ∧
      s'.count.toNat = leftover.count.toNat + rest.count.toNat ∧ s'.kind = s.kind ∧
      s'.WellFormed ∧ ∀ k, countOf k s' = countOf k leftover + countOf k rest := by
  have hlt := s.count.toNat_lt
  have h1 := h.taken_count
  have h2 := h.rest_count
  have h3 := h.le
  have hleft : leftover.kind = s.kind := hkind.trans (h.taken_kind (ne_zero_of_le hcount h0))
  rw [← hleft]
  exact putBack_spec h0 (by omega) fun hrest => (h.rest_kind hrest).trans hleft.symm

/-- What a move of up to `n` items does to two different slots. -/
structure Moves (idef : ItemDefManager) (s t : ItemStack) (n : ℕ) (swap : Bool)
    (moved : ItemStack) (didSwap : Bool) (s' t' : ItemStack) : Prop where
  countOf_eq : ∀ k, countOf k s' + countOf k t' = countOf k s + countOf k t
  didSwap_iff : didSwap = true ↔ swap = true ∧ n ≠ 0 ∧ room idef t s.kind n = 0
  not_swapped : didSwap = false → moved.count.toNat = room idef t s.kind n ∧
    s'.count.toNat = s.count.toNat - room idef t s.kind n ∧
    t'.count.toNat = t.count.toNat + room idef t s.kind n ∧ (s'.count ≠ 0 → s'.kind = s.kind) ∧
    (t.count ≠ 0 → t'.kind = t.kind) ∧ (t'.count ≠ 0 → t.count ≠ 0 ∨ t'.kind = s.kind)
  swapped : didSwap = true → moved.count = s.count ∧ s'.count = t.count ∧ t'.count = s.count ∧
    (t.count ≠ 0 → s'.kind = t.kind) ∧ t'.kind = s.kind
  wellFormed : s.WellFormed → t.WellFormed → s'.WellFormed ∧ t'.WellFormed

section Pair

variable (hne : ¬(src = dest ∧ i = destI)) (hs : (lists src)[i]? = some s)
  (ht : (lists dest)[destI]? = some t)

include hne

theorem setSlot_pair_left (a b c : ItemStack) :
    ((lists.setSlot src i a).setSlot dest destI b).setSlot src i c =
      (lists.setSlot src i c).setSlot dest destI b := by
  rw [setSlot_comm fun h => hne ⟨h.1.symm, h.2.symm⟩, setSlot_setSlot]

include hs in
theorem getElem?_pair_left (a b : ItemStack) :
    ((lists.setSlot src i a).setSlot dest destI b src)[i]? = some a := by
  rw [getElem?_setSlot_of_ne fun h => hne ⟨h.1.symm, h.2.symm⟩, getElem?_setSlot_self hs]

include ht in
theorem getElem?_pair_right (a b : ItemStack) :
    ((lists.setSlot src i a).setSlot dest destI b dest)[destI]? = some b :=
  getElem?_setSlot_self ((getElem?_setSlot_of_ne hne a).trans ht) b

include hs ht in
/-- The weight of the destination list, which may be the source list. -/
theorem weight_pair (f : ItemStack → ℕ) (a b : ItemStack) :
    weight f ((lists.setSlot src i a).setSlot dest destI b dest) + f t +
        (if src = dest then f s else 0) =
      weight f (lists dest) + f b + if src = dest then f a else 0 := by
  have hdest := weight_setSlot f ((getElem?_setSlot_of_ne hne a).trans ht) b
  by_cases hd : src = dest
  · subst hd
    have hsrc := weight_setSlot f hs a
    simp only [if_true]
    omega
  · have hother : lists.setSlot src i a dest = lists dest :=
      Function.update_of_ne (Ne.symm hd) _ _
    rw [if_neg hd, if_neg hd, hdest, hother]

end Pair

variable (idef) in
theorem moveItem_spec (hne : ¬(src = dest ∧ i = destI)) (hs : (lists src)[i]? = some s)
    (ht : (lists dest)[destI]? = some t) (count : UInt32) (swap : Bool) :
    ∃ moved didSwap s' t', lists.moveItem idef src i dest destI count swap =
      .ok { moved, didSwap, lists := (lists.setSlot src i s').setSlot dest destI t' } ∧
      Moves idef s t (amount count s) swap moved didSwap s' t' := by
  obtain ⟨taken, rest, htake, htaken⟩ := takeSource_of_some hs count
  obtain ⟨leftover, t₁, hadd, hadded⟩ := ItemStack.addItem_spec idef t taken
  have hroom : roomFor idef t taken = room idef t s.kind (amount count s) :=
    roomFor_eq htaken.taken_count htaken.taken_kind
  have hle := room_le idef t s.kind (amount count s)
  have hn := htaken.le
  have hcount := hadded.left_count
  have ht₁ := hadded.count
  rw [hroom, htaken.taken_count] at hcount
  rw [hroom] at ht₁
  have hkind₁ : t₁.count ≠ 0 → t.count ≠ 0 ∨ t₁.kind = s.kind := by
    intro h
    rcases hadded.kind_new h with h | ⟨h, hk⟩
    · exact .inl h
    · exact .inr (hk.trans (htaken.taken_kind h))
  have hadd := addItemAt_of_some
    ((getElem?_setSlot_of_ne hne rest : (lists.setSlot src i rest dest)[destI]? = _).trans ht) hadd
  unfold moveItem
  rw [if_neg hne, htake]
  simp only [bind, Except.bind, hadd]
  by_cases h0 : leftover.count = 0
  · -- everything taken fits
    rw [if_pos (empty_iff.mpr h0)]
    rw [h0, UInt16.toNat_zero] at hcount
    refine ⟨taken, false, rest, t₁, rfl, fun k => ?_, ?_, fun _ => ?_, nofun, fun hs' ht' => ?_⟩
    · have h1 := htaken.countOf_eq k
      have h2 := hadded.countOf_eq k
      rw [countOf_of_count h0] at h2
      omega
    · constructor
      · exact nofun
      · rintro ⟨-, hne, hzero⟩
        omega
    · refine ⟨by rw [htaken.taken_count]; omega, by rw [htaken.rest_count]; omega, ht₁,
        htaken.rest_kind, hadded.kind, hkind₁⟩
    · obtain ⟨hrest, htaken'⟩ := htaken.wellFormed hs'
      exact ⟨hrest, (hadded.wellFormed ht' htaken').1⟩
  · rw [if_neg (mt empty_iff.mp h0)]
    have hleft : leftover.count.toNat ≤ taken.count.toNat := by
      rw [htaken.taken_count]
      omega
    obtain ⟨moved, hremove, hmoved, -, -⟩ :=
      remove_spec (s := taken) (n := leftover.count) (UInt16.le_iff_toNat_le.mpr hleft)
    obtain ⟨s₂, hput, hs₂, hkind₂, hwf₂, hcountOf₂⟩ :=
      putBack_of_taken htaken hleft h0 (hadded.left_kind h0)
    rw [htaken.taken_count] at hmoved
    rw [htaken.rest_count] at hs₂
    simp only [hremove, getItem_of_some (getElem?_pair_left hne hs rest t₁), hput, changeItem_eq,
      setSlot_pair_left hne, getElem?_pair_left hne hs, setSlot_setSlot,
      getElem?_pair_right hne ht, Option.getD_some]
    have hcountOf : ∀ k, countOf k s₂ + countOf k t₁ = countOf k s + countOf k t := by
      intro k
      have h1 := htaken.countOf_eq k
      have h2 := hadded.countOf_eq k
      have h3 := hcountOf₂ k
      omega
    have hwf : s.WellFormed → t.WellFormed → t₁.WellFormed := fun hs' ht' =>
      (hadded.wellFormed ht' (htaken.wellFormed hs').2).1
    have hn0 : amount count s ≠ 0 := by
      intro hzero
      refine h0 (UInt16.toNat_inj.mp ?_)
      rw [UInt16.toNat_zero]
      omega
    by_cases hswap : (moved.empty && swap) = true
    · -- nothing fits, and the two stacks are swapped
      rw [if_pos hswap]
      rw [Bool.and_eq_true, empty_iff] at hswap
      rw [hswap.1, UInt16.toNat_zero] at hmoved
      have hzero : room idef t s.kind (amount count s) = 0 := by omega
      refine ⟨s₂, true, t₁, s₂, rfl, fun k => ?_, ?_, nofun, fun _ => ?_, fun hs' ht' => ?_⟩
      · rw [Nat.add_comm]
        exact hcountOf k
      · simp [hswap.2, hn0, hzero]
      · have hcount₂ : s₂.count = s.count := UInt16.toNat_inj.mp (by omega)
        exact ⟨hcount₂, UInt16.toNat_inj.mp (by omega), hcount₂, hadded.kind, hkind₂⟩
      · exact ⟨hwf hs' ht', hwf₂⟩
    · rw [if_neg hswap]
      refine ⟨moved, false, s₂, t₁, rfl, hcountOf, ?_, fun _ => ?_, nofun, fun hs' ht' => ?_⟩
      · constructor
        · exact nofun
        · rintro ⟨hsw, -, hzero⟩
          refine absurd ?_ hswap
          rw [Bool.and_eq_true, empty_iff]
          refine ⟨UInt16.toNat_inj.mp ?_, hsw⟩
          rw [UInt16.toNat_zero]
          omega
      · exact ⟨by omega, by omega, ht₁, fun _ => hkind₂, hadded.kind, hkind₁⟩
      · exact ⟨hwf₂, hwf hs' ht'⟩

variable (idef) in
/-- A move from or to a slot that does not exist puts everything back. -/
theorem moveItem_of_none (hne : ¬(src = dest ∧ i = destI))
    (h : (lists src)[i]? = none ∨ (lists dest)[destI]? = none) (count : UInt32) (swap : Bool) :
    ∃ moved didSwap s', lists.moveItem idef src i dest destI count swap =
      .ok { moved, didSwap, lists := lists.setSlot src i s' } ∧
      ∀ s, (lists src)[i]? = some s → (∀ k, countOf k s' = countOf k s) ∧
        (s.WellFormed → s'.WellFormed) := by
  unfold moveItem
  rw [if_neg hne]
  cases hs : (lists src)[i]? with
  | none =>
    -- nothing is taken, and nothing is added
    have hadd : lists.addItemAt idef dest destI {} = .ok ({}, lists) := by
      cases ht : (lists dest)[destI]? with
      | none => exact addItemAt_of_none ht _
      | some t =>
        rw [addItemAt_of_some ht (show t.addItem idef {} = .ok ({}, t) from rfl),
          setSlot_eq_self ht]
    rw [takeSource_of_none hs]
    simp only [bind, Except.bind, hadd]
    rw [if_pos (by rfl)]
    exact ⟨_, _, {}, by rw [setSlot_of_none hs]; rfl, nofun⟩
  | some s =>
    have ht : (lists dest)[destI]? = none := h.resolve_left (by simp [hs])
    obtain ⟨taken, rest, htake, htaken⟩ := takeSource_of_some hs count
    have ht' : ∀ a, (lists.setSlot src i a dest)[destI]? = none := fun a =>
      (getElem?_setSlot_of_ne hne a).trans ht
    rw [htake]
    simp only [bind, Except.bind, addItemAt_of_none (ht' rest)]
    by_cases h0 : taken.count = 0
    · rw [if_pos (empty_iff.mpr h0)]
      refine ⟨_, _, rest, rfl, ?_⟩
      rintro _ ⟨⟩
      refine ⟨fun k => ?_, fun hs' => (htaken.wellFormed hs').1⟩
      have := htaken.countOf_eq k
      rwa [countOf_of_count h0] at this
    · rw [if_neg (mt empty_iff.mp h0)]
      obtain ⟨moved, hremove, -⟩ := remove_spec (s := taken) (n := taken.count) (UInt16.le_refl _)
      obtain ⟨s₂, hput, -, -, hwf₂, hcountOf₂⟩ := putBack_of_taken htaken le_rfl h0 rfl
      simp only [hremove, getItem_of_some (getElem?_setSlot_self hs rest), hput, changeItem_eq,
        setSlot_setSlot, getElem?_setSlot_self hs, Option.getD_some, ht', Option.getD_none,
        setSlot_of_none (ht' _)]
      have hs₂ : ∀ t, some s = some t →
          (∀ k, countOf k s₂ = countOf k t) ∧ (t.WellFormed → s₂.WellFormed) := by
        rintro _ ⟨⟩
        refine ⟨fun k => ?_, fun _ => hwf₂⟩
        have h1 := htaken.countOf_eq k
        have h2 := hcountOf₂ k
        omega
      split_ifs
      · exact ⟨_, _, s₂, rfl, hs₂⟩
      · exact ⟨_, _, s₂, rfl, hs₂⟩

end Move

/-! ## Conservation -/

section Conservation

/-- The lists after an operation on some of them: every kind is conserved, and empty slots have
no name. -/
structure Conserves (lists lists' : Lists ρ) (refs : Finset ρ) : Prop where
  total : ∀ k, lists'.total refs k = lists.total refs k
  wellFormed : lists.WellFormed refs → lists'.WellFormed refs

omit [DecidableEq ρ] in
theorem Conserves.refl (lists : Lists ρ) (refs : Finset ρ) : Conserves lists lists refs :=
  ⟨fun _ => rfl, id⟩

theorem Moves.total {n : ℕ} {swap didSwap : Bool} {moved s' t' : ItemStack} {src dest : ρ} {destI : ℕ}
    (h : Moves idef s t n swap moved didSwap s' t') (hne : ¬(src = dest ∧ i = destI))
    (hs : (lists src)[i]? = some s) (ht : (lists dest)[destI]? = some t) (hsrc : src ∈ refs)
    (hdest : dest ∈ refs) (k : Kind) :
    ((lists.setSlot src i s').setSlot dest destI t').total refs k = lists.total refs k := by
  have h1 := total_setSlot hsrc hs s' k
  have h2 := total_setSlot hdest ((getElem?_setSlot_of_ne hne s').trans ht) t' k
  have h3 := h.countOf_eq k
  omega

theorem moveItem_conserves (idef : ItemDefManager) (lists : Lists ρ) (src : ρ) (i : ℕ) (dest : ρ)
    (destI : ℕ) (count : UInt32) (swap : Bool) :
    ∃ r, lists.moveItem idef src i dest destI count swap = .ok r ∧
      Conserves lists r.lists {src, dest} := by
  have hsrc : src ∈ ({src, dest} : Finset ρ) := by simp
  have hdest : dest ∈ ({src, dest} : Finset ρ) := by simp
  by_cases hne : src = dest ∧ i = destI
  · exact ⟨_, by rw [moveItem, if_pos hne], .refl _ _⟩
  cases hs : (lists src)[i]? with
  | none =>
    obtain ⟨moved, didSwap, s', hmove, -⟩ := moveItem_of_none idef hne (.inl hs) count swap
    refine ⟨_, hmove, ?_⟩
    rw [setSlot_of_none hs]
    exact .refl _ _
  | some s =>
    cases ht : (lists dest)[destI]? with
    | none =>
      obtain ⟨moved, didSwap, s', hmove, hsame⟩ :=
        moveItem_of_none idef hne (.inr ht) count swap
      obtain ⟨hcount, hwf⟩ := hsame s hs
      refine ⟨_, hmove, fun k => ?_, fun h => h.setSlot hsrc (hwf ?_)⟩
      · have := total_setSlot hsrc hs s' k
        rw [hcount k] at this
        dsimp only
        omega
      · exact h src hsrc s (List.mem_of_getElem? hs)
    | some t =>
      obtain ⟨moved, didSwap, s', t', hmove, h⟩ := moveItem_spec idef hne hs ht count swap
      refine ⟨_, hmove, h.total hne hs ht hsrc hdest, fun hwf => ?_⟩
      obtain ⟨hs', ht'⟩ := h.wellFormed (hwf src hsrc s (List.mem_of_getElem? hs))
        (hwf dest hdest t (List.mem_of_getElem? ht))
      exact (hwf.setSlot hsrc hs').setSlot hdest ht'

theorem total_update {refs : Finset ρ} {r : ρ} (hr : r ∈ refs) (lists : Lists ρ) (l : ItemList)
    (k : Kind) :
    total (Function.update lists r l) refs k + weight (countOf k) (lists r) =
      lists.total refs k + weight (countOf k) l :=
  ledger_update (countOf k) lists hr l

theorem moveItemSomewhere_conserves (idef : ItemDefManager) (lists : Lists ρ) (src : ρ) (i : ℕ)
    (dest : ρ) (count : UInt32) :
    ∃ lists', lists.moveItemSomewhere idef src i dest count = .ok lists' ∧
      Conserves lists lists' {src, dest} := by
  have hsrc : src ∈ ({src, dest} : Finset ρ) := by simp
  have hdest : dest ∈ ({src, dest} : Finset ρ) := by simp
  unfold moveItemSomewhere
  cases hs : (lists src)[i]? with
  | none =>
    rw [takeSource_of_none hs]
    exact ⟨_, rfl, .refl _ _⟩
  | some s =>
    obtain ⟨taken, rest, htake, htaken⟩ := takeSource_of_some hs count
    have htotal := total_setSlot hsrc hs rest
    rw [htake]
    simp only [bind, Except.bind]
    by_cases h0 : taken.count = 0
    · rw [if_pos (empty_iff.mpr h0)]
      refine ⟨_, rfl, fun k => ?_, fun h => h.setSlot hsrc ?_⟩
      · have h1 := htotal k
        have h2 := htaken.countOf_eq k
        rw [countOf_of_count h0] at h2
        omega
      · exact (htaken.wellFormed (h src hsrc s (List.mem_of_getElem? hs))).1
    rw [if_neg (mt empty_iff.mp h0)]
    obtain ⟨leftover, l, hadd, hadds⟩ :=
      ItemList.addItem_spec idef (lists.setSlot src i rest dest) taken
    have hadd' : (lists.setSlot src i rest).addItem idef dest taken =
        .ok (leftover, Function.update (lists.setSlot src i rest) dest l) := by
      rw [addItem, hadd]
      rfl
    rw [hadd']
    have htotal' := total_update hdest (lists.setSlot src i rest) l
    have hwf : lists.WellFormed {src, dest} →
        WellFormed (Function.update (lists.setSlot src i rest) dest l) {src, dest} := by
      intro h
      obtain ⟨hrest, htaken'⟩ := htaken.wellFormed (h src hsrc s (List.mem_of_getElem? hs))
      have h1 := h.setSlot hsrc hrest (i := i)
      exact wellFormed_update h1 (hadds.wellFormed (h1 dest hdest) htaken').1
    dsimp only
    by_cases hleft : leftover.count = 0
    · rw [if_pos (empty_iff.mpr hleft)]
      refine ⟨_, rfl, fun k => ?_, hwf⟩
      have h1 := htotal k
      have h2 := htotal' k
      have h3 := hadds.countOf_eq k
      have h4 := htaken.countOf_eq k
      rw [countOf_of_count hleft] at h3
      omega
    · rw [if_neg (mt empty_iff.mp hleft)]
      have hleftkind : leftover.kind = s.kind :=
        (hadds.left_kind hleft).trans (htaken.taken_kind h0)
      -- the source slot, which may be among the slots added to
      obtain ⟨s₁, hs₁, hle, hkind₁⟩ : ∃ s₁ : ItemStack,
          (Function.update (lists.setSlot src i rest) dest l src)[i]? = some s₁ ∧
          leftover.count.toNat + s₁.count.toNat ≤ s.count.toNat ∧
          (s₁.count ≠ 0 → s₁.kind = leftover.kind) := by
        have h1 := htaken.taken_count
        have h2 := htaken.rest_count
        have h3 := htaken.le
        by_cases hd : src = dest
        · subst hd
          obtain ⟨s₁, hs₁, hle, hkind₁⟩ := hadds.slot i rest (getElem?_setSlot_self hs rest)
          refine ⟨s₁, by rwa [Function.update_self], by omega, fun hne => ?_⟩
          rw [hleftkind]
          rcases hkind₁ hne with ⟨h4, h5⟩ | ⟨h4, h5⟩
          · exact h5.trans (htaken.rest_kind h4)
          · exact h5.trans (htaken.taken_kind h4)
        · have hle := hadds.left_count
          refine ⟨rest, ?_, by omega, fun hne => (htaken.rest_kind hne).trans hleftkind.symm⟩
          rw [Function.update_of_ne hd, getElem?_setSlot_self hs]
      have hlt := s.count.toNat_lt
      obtain ⟨s₂, hput, -, -, hwf₂, hcountOf₂⟩ := putBack_spec hleft (by omega) hkind₁
      simp only [getItem_of_some hs₁, hput, changeItem_eq]
      refine ⟨_, rfl, fun k => ?_, fun h => (hwf h).setSlot hsrc hwf₂⟩
      have h1 := htotal k
      have h2 := htotal' k
      have h3 := hadds.countOf_eq k
      have h4 := htaken.countOf_eq k
      have h5 := total_setSlot hsrc hs₁ s₂ k
      have h6 := hcountOf₂ k
      omega

/-- Both moves succeed, so no count wraps and no assertion fails, and both conserve every kind
over the two lists. -/
theorem moves_conserve (idef : ItemDefManager) (lists : Lists ρ) (src : ρ) (i : ℕ) (dest : ρ)
    (destI : ℕ) (count : UInt32) (swap : Bool) :
    (∃ r, lists.moveItem idef src i dest destI count swap = .ok r ∧
      Conserves lists r.lists {src, dest}) ∧
    ∃ lists', lists.moveItemSomewhere idef src i dest count = .ok lists' ∧
      Conserves lists lists' {src, dest} :=
  ⟨moveItem_conserves idef lists src i dest destI count swap,
    moveItemSomewhere_conserves idef lists src i dest count⟩

end Conservation

end Lists

/-! `IMoveAction::apply`: a player's move from one slot to another, or to any slot of a list, with
the counts that the `allow_*` callbacks of the two inventories return. The callbacks do not touch
the inventories, so they are functions of what they are given. -/

variable {ι : Type} [DecidableEq ι]

/-- The lists of the inventories that `getInventory` finds, and which lists there are. -/
structure Inventories (ι : Type) where
  hasList : ι → ByteString → Bool
  lists : Lists (ι × ByteString)

/-- A `count` of 0 means everything. -/
structure IMoveAction (ι : Type) where
  fromInv : ι
  fromList : ByteString
  fromI : Int16 := -1
  toInv : ι
  toList : ByteString
  toI : Int16 := -1
  count : UInt16 := 0
  moveSomewhere : Bool := false
  causedByMoveSomewhere : Bool := false
  moveCount : UInt32 := 0

/-- `allow_move`, `allow_put` and `allow_take`: how many items may move; -1 if the stack is
infinite. -/
structure Callbacks (ι : Type) where
  allowMove : IMoveAction ι → UInt16 → Int32
  allowPut : IMoveAction ι → ItemStack → Int32
  allowTake : IMoveAction ι → ItemStack → Int32

/-- A move that the callbacks are asked about: `moveCount` items of `stack`, or a swap. -/
structure Offer (ι : Type) where
  action : IMoveAction ι
  i : ℕ
  j : ℕ
  stack : ItemStack
  dstItem : ItemStack
  swapExpected : Bool

/-- What the callbacks say about a move: the limits, and every answer that they gave. -/
structure Permission where
  srcCanTakeCount : Int32
  dstCanPutCount : Int32
  allowSwap : Bool
  answers : List Int32
  swapAnswers : List Int32

namespace IMoveAction

def source (a : IMoveAction ι) : ι × ByteString := (a.fromInv, a.fromList)

def destination (a : IMoveAction ι) : ι × ByteString := (a.toInv, a.toList)

def swapDirections (a : IMoveAction ι) : IMoveAction ι :=
  { a with
    fromInv := a.toInv, fromList := a.toList, fromI := a.toI
    toInv := a.fromInv, toList := a.fromList, toI := a.fromI }

def inBounds (i : Int16) (l : ItemList) : Bool := 0 ≤ i && decide (i.toNatClampNeg < l.length)

/-- The items to be moved, unless that can be told without the callbacks. -/
def prepare (idef : ItemDefManager) (a : IMoveAction ι) (w : Inventories ι) :
    Except Fault (IMoveAction ι × Option (Offer ι)) :=
  let listFrom := w.lists a.source
  let listTo := w.lists a.destination
  if !w.hasList a.fromInv a.fromList || !w.hasList a.toInv a.toList then .ok (a, none)
  else if !inBounds a.fromI listFrom || !inBounds a.toI listTo then .ok (a, none)
  else if a.source = a.destination ∧ a.fromI = a.toI then .ok (a, none)
  else do
    let i := a.fromI.toNatClampNeg
    let j := a.toI.toNatClampNeg
    let stack ← listFrom.getItem i
    let srcItem := if 0 < a.count ∧ a.count < stack.count then { stack with count := a.count }
      else stack
    if srcItem.empty then pure (a, none)
    else
      let (fits, restitem) ← listTo.itemFits idef j srcItem
      let swapExpected := !fits && restitem.count == srcItem.count && !a.causedByMoveSomewhere
      let moveCount := srcItem.count.toUInt32 - restitem.count.toUInt32
      -- cannot fill this stack, proceed with next slot
      if a.causedByMoveSomewhere && moveCount == 0 then pure ({ a with moveCount }, none)
      else
        -- a swap affects the entire stack
        let moveCount := if swapExpected then stack.count.toUInt32 else moveCount
        let dstItem ← listTo.getItem j
        let a := { a with moveCount }
        pure (a, some { action := a, i, j, stack, dstItem, swapExpected })

end IMoveAction

namespace Offer

def srcItem (o : Offer ι) : ItemStack :=
  { o.stack with count := o.action.moveCount.toUInt16 }

def allowsAll (r : Int32) (s : ItemStack) : Bool := r == -1 || decide ((s.count.toNat : ℤ) ≤ r.toInt)

def permission (o : Offer ι) (src dst : Int32) (allowSwap : Bool) (answers swapAnswers : List Int32) :
    Permission :=
  if o.swapExpected ≠ allowSwap then ⟨0, 0, allowSwap, answers, swapAnswers⟩
  else ⟨src, dst, allowSwap, answers, swapAnswers⟩

def permitMove (cb : Callbacks ι) (o : Offer ι) : Permission :=
  let src := cb.allowMove o.action o.srcItem.count
  if o.swapExpected && allowsAll src o.srcItem then
    let dst := cb.allowMove o.action.swapDirections o.dstItem.count
    o.permission src dst (allowsAll dst o.dstItem) [src] [dst]
  else o.permission src src false [src] []

def permitTransfer (cb : Callbacks ι) (o : Offer ι) : Permission :=
  let dst := cb.allowPut o.action o.srcItem
  let src := cb.allowTake o.action o.srcItem
  if o.swapExpected && allowsAll src o.srcItem && allowsAll dst o.srcItem then
    -- the callbacks run a second time with swapped inventories
    let srcCanTake := cb.allowPut o.action.swapDirections o.dstItem
    let dstCanPut := cb.allowTake o.action.swapDirections o.dstItem
    o.permission src dst (allowsAll srcCanTake o.dstItem && allowsAll dstCanPut o.dstItem) [dst, src]
      [srcCanTake, dstCanPut]
  else o.permission src dst false [dst, src] []

def permit (cb : Callbacks ι) (o : Offer ι) : Permission :=
  if o.action.fromInv = o.action.toInv then o.permitMove cb else o.permitTransfer cb

end Offer

namespace IMoveAction

/-- The limit given by a callback: `(u32)std::min<s32>(r, move_count)`. -/
def limit (r : Int32) (moveCount : UInt32) : UInt32 :=
  if r ≠ -1 then (min r moveCount.toInt32).toUInt32 else moveCount

/-- How many items the callbacks allow to move; no more than there are. -/
def allowed (o : Offer ι) (p : Permission) : UInt32 :=
  let moveCount := limit p.dstCanPutCount (limit p.srcCanTakeCount o.action.moveCount)
  if o.stack.count.toUInt32 < moveCount then o.stack.count.toUInt32 else moveCount

/-- Leftover items of an infinite source are put into the first empty slot. -/
def putElsewhere (l : ItemList) (s : ItemStack) : ItemList :=
  match l.findIdx? (·.empty) with
  | none => l
  | some i => l.set i s

def resetSource (a : IMoveAction ι) (i : ℕ) (fromStackWas toStackWas : ItemStack) (didSwap : Bool)
    (lists : Lists (ι × ByteString)) : Lists (ι × ByteString) :=
  let lists : Lists (ι × ByteString) :=
    if !a.causedByMoveSomewhere && fromStackWas.name ≠ toStackWas.name then
      Function.update lists a.destination (putElsewhere (lists a.destination) toStackWas)
    else lists
  if 0 < a.moveCount ∨ didSwap then lists.setSlot a.source i fromStackWas else lists

/-- If the destination is infinite, its stack is reset and the count taken from the source. -/
def resetDestination (a : IMoveAction ι) (i j : ℕ) (fromStackWas toStackWas : ItemStack)
    (didSwap : Bool) (lists : Lists (ι × ByteString)) : Except Fault (Lists (ι × ByteString)) := do
  let lists := lists.setSlot a.destination j toStackWas
  if didSwap then
    let (_, lists) ← (lists.setSlot a.source i fromStackWas).takeItem a.source i a.moveCount
    pure lists
  else pure lists

def perform (idef : ItemDefManager) (o : Offer ι) (p : Permission)
    (lists : Lists (ι × ByteString)) : Except Fault (IMoveAction ι × Lists (ι × ByteString)) := do
  let a := o.action
  let moveCount := allowed o p
  if moveCount = 0 then pure ({ a with moveCount }, lists)
  else
    let r ← lists.moveItem idef a.source o.i a.destination o.j moveCount p.allowSwap
    let a := { a with moveCount := r.moved.count.toUInt32 }
    if p.allowSwap ≠ r.didSwap then throw .assertion
    else
      let lists :=
        if p.srcCanTakeCount = -1 then a.resetSource o.i o.stack o.dstItem r.didSwap r.lists
        else r.lists
      let lists ←
        if p.dstCanPutCount = -1 then
          a.resetDestination o.i o.j o.stack o.dstItem r.didSwap lists
        else pure lists
      pure (a, lists)

/-- `apply` with a destination slot. -/
def applySlot (idef : ItemDefManager) (cb : Callbacks ι) (a : IMoveAction ι) (w : Inventories ι) :
    Except Fault (IMoveAction ι × Inventories ι) := do
  match ← a.prepare idef w with
  | (a, none) => pure (a, w)
  | (_, some o) =>
    let (a, lists) ← perform idef o (o.permit cb) w.lists
    pure (a, { w with lists })

/-- Tries one slot of the destination list, and takes what it took from the count. -/
def addTo (idef : ItemDefManager) (cb : Callbacks ι) (a : IMoveAction ι) (i : ℕ)
    (w : Inventories ι) : Except Fault (IMoveAction ι × Inventories ι) := do
  let (a, w) ← { a with toI := Int16.ofNat i }.applySlot idef cb w
  if a.count.toUInt32 < a.moveCount then throw .assertion
  else pure ({ a with count := a.count - a.moveCount.toUInt16 }, w)

/-- The slots of the destination list that are empty, or those that are not. -/
def applyLoop (idef : ItemDefManager) (cb : Callbacks ι) (toEmpty : Bool) :
    List ℕ → IMoveAction ι → Inventories ι → Except Fault (IMoveAction ι × Inventories ι)
  | [], a, w => .ok (a, w)
  | i :: is, a, w =>
    if a.count = 0 then .ok (a, w)
    else do
      let slot ← (w.lists a.destination).getItem i
      if slot.empty ≠ toEmpty then applyLoop idef cb toEmpty is a w
      else
        let (a, w) ← a.addTo idef cb i w
        applyLoop idef cb toEmpty is a w

def apply (idef : ItemDefManager) (cb : Callbacks ι) (a : IMoveAction ι) (w : Inventories ι) :
    Except Fault (IMoveAction ι × Inventories ι) :=
  if !w.hasList a.fromInv a.fromList || !w.hasList a.toInv a.toList then .ok (a, w)
  else if a.moveSomewhere then do
    -- `s16 dest_size`, which no move changes
    let destSize := (Int16.ofNat (w.lists a.destination).length).toNatClampNeg
    let b := { a with causedByMoveSomewhere := true, moveSomewhere := false }
    let (b, w) ← applyLoop idef cb false (List.range destSize) b w
    let (b, w) ← applyLoop idef cb true (List.range destSize) b w
    pure ({ b with
      toI := a.toI, count := a.count, causedByMoveSomewhere := false, moveSomewhere := true }, w)
  else a.applySlot idef cb w

end IMoveAction

end Freeminer.Inventory
