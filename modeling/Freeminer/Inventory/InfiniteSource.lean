import Freeminer.Inventory.MoveSlot

/-! Moves from an infinite source. What is put on top of a stack stays there, and the source is
reset; a stack that was swapped out of the destination is put into an empty slot of its list, if
there is one. -/

set_option linter.unusedSectionVars false

namespace Freeminer.Inventory

open Lib ItemStack

/-! ## Slots that keep their items -/

namespace Lists

variable {ρ : Type} {lists now : Lists ρ} {S T : Set (ρ × ℕ)} {r : ρ} {n : ℕ} {x : ItemStack}

/-- Every slot that is not in `S` still has the items it had. -/
structure KeptOutside (S : Set (ρ × ℕ)) (lists now : Lists ρ) : Prop where
  length : ∀ r, (now r).length = (lists r).length
  kept : ∀ r n x, (r, n) ∉ S → (lists r)[n]? = some x →
    ∃ y, (now r)[n]? = some y ∧ ∀ k, countOf k x ≤ countOf k y

namespace KeptOutside

theorem refl (S : Set (ρ × ℕ)) (lists : Lists ρ) : KeptOutside S lists lists :=
  ⟨fun _ => rfl, fun _ _ x _ hx => ⟨x, hx, fun _ => le_rfl⟩⟩

theorem trans {final : Lists ρ} (h : KeptOutside S lists now) (h' : KeptOutside S now final) :
    KeptOutside S lists final where
  length r := (h'.length r).trans (h.length r)
  kept r n x hS hx := by
    obtain ⟨y, hy, hle⟩ := h.kept r n x hS hx
    obtain ⟨z, hz, hle'⟩ := h'.kept r n y hS hy
    exact ⟨z, hz, fun k => (hle k).trans (hle' k)⟩

theorem weight_le (h : KeptOutside S lists now) (hr : ∀ n, (r, n) ∉ S) (k : Kind) :
    weight (countOf k) (lists r) ≤ weight (countOf k) (now r) := by
  refine weight_le_weight fun n x hx => ?_
  obtain ⟨y, hy, hle⟩ := h.kept r n x (hr n) hx
  exact ⟨y, hy, hle k⟩

variable [DecidableEq ρ]

/-- A slot is in order again once it is set to no less than it had. -/
theorem setSlot (h : KeptOutside S lists now) (hx : (lists r)[n]? = some x)
    (hT : S ⊆ insert (r, n) T) (y : ItemStack)
    (hle : (r, n) ∉ T → ∀ k, countOf k x ≤ countOf k y) :
    KeptOutside T lists (now.setSlot r n y) := by
  refine ⟨fun r' => (length_setSlot _ _ _ _ _).trans (h.length r'), fun r' m z hnot hz => ?_⟩
  by_cases hslot : r = r' ∧ n = m
  · obtain ⟨rfl, rfl⟩ := hslot
    cases hx.symm.trans hz
    have hlt := (List.getElem?_eq_some_iff.mp hx).1
    rw [← h.length r] at hlt
    exact ⟨y, getElem?_setSlot_self (List.getElem?_eq_getElem hlt) y, hle hnot⟩
  · rw [getElem?_setSlot_of_ne hslot]
    refine h.kept r' m z (fun hS => ?_) hz
    rcases hT hS with heq | hT
    · cases heq
      exact hslot ⟨rfl, rfl⟩
    · exact hnot hT

theorem fill (h : KeptOutside S lists now) (hx : (now r)[n]? = some x) (h0 : x.count = 0)
    (y : ItemStack) : KeptOutside S lists (now.setSlot r n y) := by
  refine ⟨fun r' => (length_setSlot _ _ _ _ _).trans (h.length r'), fun r' m z hnot hz => ?_⟩
  obtain ⟨u, hu, hle⟩ := h.kept r' m z hnot hz
  by_cases hslot : r = r' ∧ n = m
  · obtain ⟨rfl, rfl⟩ := hslot
    cases hx.symm.trans hu
    refine ⟨y, getElem?_setSlot_self hx y, fun k => (hle k).trans ?_⟩
    rw [countOf_of_count h0]
    exact Nat.zero_le _
  · rw [getElem?_setSlot_of_ne hslot]
    exact ⟨u, hu, hle⟩

end KeptOutside

end Lists

open Lists

variable {ι : Type} [DecidableEq ι] {idef : ItemDefManager} {cb : Callbacks ι}
  {a b : IMoveAction ι} {w w' : Inventories ι} {o : Offer ι} {p : Permission} {s t : ItemStack}
  {lists now : Lists (ι × ByteString)} {S : Set ((ι × ByteString) × ℕ)} {i j : ℕ} {didSwap : Bool}

namespace IMoveAction

/-- The same slot of the same list, and the same destination. -/
structure SameEnds (a b : IMoveAction ι) : Prop where
  source : b.source = a.source
  destination : b.destination = a.destination
  fromI : b.fromI = a.fromI
  caused : b.causedByMoveSomewhere = a.causedByMoveSomewhere

theorem SameEnds.trans {c : IMoveAction ι} (h : SameEnds a b) (h' : SameEnds b c) :
    SameEnds a c :=
  ⟨h'.source.trans h.source, h'.destination.trans h.destination, h'.fromI.trans h.fromI,
    h'.caused.trans h.caused⟩

/-! ## The resets -/

/-- Leftover items go to the first empty slot, and no other slot changes. -/
theorem putElsewhere_cases (l : ItemList) (s : ItemStack) :
    (putElsewhere l s = l ∧ ∀ x ∈ l, x.count ≠ 0) ∨
      ∃ (e : ℕ) (x : ItemStack), l[e]? = some x ∧ x.count = 0 ∧ putElsewhere l s = l.set e s := by
  unfold putElsewhere
  cases h : l.findIdx? (·.empty) with
  | none =>
    refine .inl ⟨rfl, fun x hx h0 => ?_⟩
    have hfull := List.findIdx?_eq_none_iff.mp h x hx
    simp [ItemStack.empty, h0] at hfull
  | some e =>
    obtain ⟨hlt, hempty, -⟩ := List.findIdx?_eq_some_iff_getElem.mp h
    exact .inr ⟨e, _, List.getElem?_eq_getElem hlt, empty_iff.mp hempty, rfl⟩

theorem exists_elsewhere {r : ι × ByteString} {e : ℕ} {x : ItemStack} (hx : (now r)[e]? = some x)
    (h0 : x.count = 0) (t : ItemStack) :
    ∃ (e : ℕ) (x : ItemStack), (now r)[e]? = some x ∧ x.count = 0 ∧
      Function.update now r (putElsewhere (now r) t) = now.setSlot r e t := by
  rcases putElsewhere_cases (now r) t with ⟨-, hfull⟩ | ⟨e, x, hx, h0, heq⟩
  · exact absurd h0 (hfull x (List.mem_of_getElem? hx))
  · exact ⟨e, x, hx, h0, by rw [heq, setSlot]⟩

theorem kept_elsewhere (h : KeptOutside S lists now) (r : ι × ByteString) (t : ItemStack) :
    KeptOutside S lists (Function.update now r (putElsewhere (now r) t)) := by
  rcases putElsewhere_cases (now r) t with ⟨heq, -⟩ | ⟨e, x, hx, h0, heq⟩
  · rwa [heq, Function.update_eq_self]
  · rw [heq]
    exact h.fill hx h0 t

/-- After the reset of the source, its slot is in order again. -/
theorem kept_resetSource (t : ItemStack) (didSwap : Bool) (hb : SameEnds a b)
    (h : KeptOutside (insert (a.source, i) S) lists now)
    (hs : (lists a.source)[i]? = some s) (hmoved : 0 < b.moveCount ∨ didSwap = true) :
    KeptOutside S lists (b.resetSource i s t didSwap now) := by
  unfold resetSource
  dsimp only
  rw [if_pos hmoved, hb.source]
  refine KeptOutside.setSlot (S := insert (a.source, i) S) ?_ hs subset_rfl s fun _ _ => le_rfl
  split_ifs
  · exact kept_elsewhere h _ _
  · exact h

theorem resetDestination_eq {x : ItemStack} (s t : ItemStack) (didSwap : Bool) (hb : SameEnds a b)
    (hx : (now a.source)[i]? = some x) (hne : ¬(a.source = a.destination ∧ i = j)) :
    ∃ rest, b.resetDestination i j s t didSwap now = .ok (if didSwap = true then
      (now.setSlot a.destination j t).setSlot a.source i rest
      else now.setSlot a.destination j t) := by
  have hslot : ((now.setSlot a.destination j t).setSlot a.source i s a.source)[i]? = some s := by
    refine getElem?_setSlot_self ((getElem?_setSlot_of_ne ?_ t).trans hx) s
    exact fun h => hne ⟨h.1.symm, h.2.symm⟩
  obtain ⟨taken, rest, htake, -⟩ := ItemStack.takeItem_spec s b.moveCount
  refine ⟨rest, ?_⟩
  unfold resetDestination
  rw [hb.source, hb.destination]
  cases didSwap with
  | false => rfl
  | true =>
    simp only [if_true, Lists.takeItem, ItemList.takeItem, hslot, htake, bind, Except.bind]
    rw [← setSlot_setSlot s rest]
    rfl

/-! ## What an infinite source permits -/

/-- What `allow_move` or `allow_take` answers. -/
def sourceAnswer (cb : Callbacks ι) (a : IMoveAction ι) (srcItem : ItemStack) : Int32 :=
  if a.fromInv = a.toInv then cb.allowMove a srcItem.count else cb.allowTake a srcItem

theorem permission_cases (o : Offer ι) (src dst : Int32) (allowSwap : Bool)
    (answers swapAnswers : List Int32) :
    let p := o.permission src dst allowSwap answers swapAnswers
    (p.srcCanTakeCount = 0 ∧ p.dstCanPutCount = 0) ∨
      (p.srcCanTakeCount = src ∧ p.allowSwap = o.swapExpected) := by
  unfold Offer.permission
  split_ifs with h
  · exact .inl ⟨rfl, rfl⟩
  · rw [not_not] at h
    exact .inr ⟨rfl, h.symm⟩

/-- Nothing may move, or the source is infinite and an expected swap is allowed. -/
theorem permit_cases (cb : Callbacks ι) (o : Offer ι) :
    ((o.permit cb).srcCanTakeCount = 0 ∧ (o.permit cb).dstCanPutCount = 0) ∨
      ((o.permit cb).srcCanTakeCount = o.action.sourceAnswer cb o.srcItem ∧
        (o.permit cb).allowSwap = o.swapExpected) := by
  unfold Offer.permit sourceAnswer
  split_ifs
  · unfold Offer.permitMove
    dsimp only
    split_ifs
    · exact permission_cases _ _ _ _ _ _
    · exact permission_cases _ _ _ _ _ _
  · unfold Offer.permitTransfer
    dsimp only
    split_ifs
    · exact permission_cases _ _ _ _ _ _
    · exact permission_cases _ _ _ _ _ _

theorem allowed_of_refused (hle : o.action.moveCount.toNat ≤ o.stack.count.toNat)
    (hsrc : p.srcCanTakeCount = 0) (hdst : p.dstCanPutCount = 0) : allowed o p = 0 := by
  have hzero : (0 : Int32).toInt = 0 := rfl
  have h := toNat_allowed hle (p := p) (by rw [hsrc, hzero]) (by rw [hdst, hzero])
  rw [hdst, hzero] at h
  exact UInt32.toNat_inj.mp (h.trans (Nat.zero_min _))

/-! ## A move to one slot -/

theorem sameEnds_of_prepare {x : Option (Offer ι)} (h : a.prepare idef w = .ok (b, x)) :
    SameEnds a b := by
  by_cases hmeets : ∃ i j s t, a.Meets w i j s t
  · obtain ⟨i, j, s, t, hmeets⟩ := hmeets
    rcases hmeets.prepare idef with ⟨-, h'⟩ | ⟨-, -, -, h'⟩ | ⟨-, o, h', hprepared, -⟩
    · cases h.symm.trans h'
      exact ⟨rfl, rfl, rfl, rfl⟩
    · cases h.symm.trans h'
      exact ⟨rfl, rfl, rfl, rfl⟩
    · cases h.symm.trans h'
      obtain ⟨moveCount, haction⟩ := hprepared.action
      rw [haction]
      exact ⟨rfl, rfl, rfl, rfl⟩
  · cases h.symm.trans (prepare_of_not_meets idef hmeets)
    exact ⟨rfl, rfl, rfl, rfl⟩

/-- The action of an offer is the one that is returned. -/
theorem action_of_prepare (h : a.prepare idef w = .ok (b, some o)) : b = o.action := by
  by_cases hmeets : ∃ i j s t, a.Meets w i j s t
  · obtain ⟨i, j, s, t, hmeets⟩ := hmeets
    rcases hmeets.prepare idef with ⟨-, h'⟩ | ⟨-, -, -, h'⟩ | ⟨-, o, h', -⟩
    · cases h.symm.trans h'
    · cases h.symm.trans h'
    · cases h.symm.trans h'
      rfl
  · cases h.symm.trans (prepare_of_not_meets idef hmeets)

theorem swapExpected_of_caused (h : a.prepare idef w = .ok (b, some o))
    (hcaused : a.causedByMoveSomewhere = true) : o.swapExpected = false := by
  by_cases hmeets : ∃ i j s t, a.Meets w i j s t
  · obtain ⟨i, j, s, t, hmeets⟩ := hmeets
    rcases hmeets.prepare idef with ⟨-, h'⟩ | ⟨-, -, -, h'⟩ | ⟨-, o', h', -, hexpected⟩
    · cases h.symm.trans h'
    · cases h.symm.trans h'
    · cases h.symm.trans h'
      exact hexpected hcaused
  · cases h.symm.trans (prepare_of_not_meets idef hmeets)

/-- A stack that is not swapped keeps its items. -/
theorem countOf_le_of_moves {n : ℕ} {swap : Bool} {moved s' t' : ItemStack}
    (h : Moves idef s t n swap moved false s' t') (k : Kind) : countOf k t ≤ countOf k t' := by
  obtain ⟨-, -, hcount, -, hkind, -⟩ := h.not_swapped rfl
  by_cases h0 : t.count = 0
  · rw [countOf_of_count h0]
    exact Nat.zero_le _
  · rw [countOf, countOf, hkind h0]
    split_ifs <;> omega

section Offered

variable (h : Offered idef a w o) (hends : SameEnds a o.action) (hsrc : p.srcCanTakeCount = -1)
  (h0 : allowed o p ≠ 0) (hexpected : p.allowSwap = o.swapExpected)

include h hends hsrc h0 hexpected

theorem perform_infinite :
    ∃ b moved s' t', SameEnds a b ∧ b.moveCount = moved.count.toUInt32 ∧
      Moves idef o.stack o.dstItem (allowed o p).toNat p.allowSwap moved p.allowSwap s' t' ∧
      let now := b.resetSource o.i o.stack o.dstItem p.allowSwap
        ((w.lists.setSlot a.source o.i s').setSlot a.destination o.j t')
      perform idef o p w.lists = (if p.dstCanPutCount = -1 then
        b.resetDestination o.i o.j o.stack o.dstItem p.allowSwap now else .ok now) >>=
          fun lists => .ok (b, lists) := by
  have hamount : amount (allowed o p) o.stack = (allowed o p).toNat := by
    unfold amount
    rw [if_neg h0, Nat.min_eq_left (allowed_le o p)]
  obtain ⟨moved, didSwap, s', t', hmove, hmoves⟩ :=
    moveItem_spec idef h.ne h.source h.destination (allowed o p) p.allowSwap
  rw [hamount] at hmoves
  have hdid : p.allowSwap = didSwap := by
    have hn : (allowed o p).toNat ≠ 0 := fun hz => h0 (UInt32.toNat_inj.mp hz)
    rw [Bool.eq_iff_iff, hmoves.didSwap_iff]
    exact ⟨fun hp => ⟨hp, hn, h.swapExpected_iff.mp (hexpected ▸ hp) _⟩, fun hp => hp.1⟩
  subst hdid
  refine ⟨{ o.action with moveCount := moved.count.toUInt32 }, moved, s', t',
    hends.trans ⟨rfl, rfl, rfl, rfl⟩, rfl, hmoves, ?_⟩
  unfold perform
  dsimp only
  rw [if_neg h0, h.source_eq, h.destination_eq, hmove]
  simp only [bind, Except.bind, ne_eq, not_true_eq_false, if_false, hsrc, if_true]
  split_ifs <;> rfl

/-- Where nothing is swapped every slot keeps its items. -/
theorem kept_of_not_swapped (hswap : p.allowSwap = false) :
    ∃ b L, perform idef o p w.lists = .ok (b, L) ∧ SameEnds a b ∧ KeptOutside ∅ w.lists L := by
  obtain ⟨b, moved, s', t', hb, hcount, hmoves, hperform⟩ :=
    perform_infinite h hends hsrc h0 hexpected
  rw [hswap] at hmoves hperform
  have hmoved : 0 < b.moveCount := by
    have hroom : room idef o.dstItem o.stack.kind (allowed o p).toNat ≠ 0 := by
      intro hzero
      have hn : (allowed o p).toNat ≠ 0 := fun hz => h0 (UInt32.toNat_inj.mp hz)
      have hall := h.swapExpected_iff.mpr fun n => room_eq_zero hzero hn
      simp [← hexpected, hswap] at hall
    rw [hcount, UInt32.lt_iff_toNat_lt, UInt16.toNat_toUInt32, (hmoves.not_swapped rfl).1]
    exact Nat.pos_of_ne_zero hroom
  have htaken : KeptOutside {(a.source, o.i)} w.lists (w.lists.setSlot a.source o.i s') :=
    (KeptOutside.refl ∅ _).setSlot h.source (Set.empty_subset _) s' fun hnot => absurd rfl hnot
  have hput := htaken.setSlot h.destination (Set.subset_insert _ _) t' fun _ =>
    countOf_le_of_moves hmoves
  rw [← insert_empty_eq] at hput
  have hreset := kept_resetSource o.dstItem false hb hput h.source (.inl hmoved)
  dsimp only at hperform
  split_ifs at hperform with hdst
  · obtain ⟨y, hy, -⟩ := hreset.kept _ _ _ (Set.notMem_empty _) h.source
    obtain ⟨rest, hrest⟩ := resetDestination_eq o.stack o.dstItem false hb hy h.ne
    rw [hrest] at hperform
    exact ⟨b, _, hperform, hb, hreset.setSlot h.destination (Set.empty_subset _) _
      fun _ _ => le_rfl⟩
  · exact ⟨b, _, hperform, hb, hreset⟩

/-- If the destination is infinite too, only the source slot may lose items. -/
theorem kept_of_infinite_destination (hswap : p.allowSwap = true) (hdst : p.dstCanPutCount = -1) :
    ∃ b L, perform idef o p w.lists = .ok (b, L) ∧ KeptOutside {(a.source, o.i)} w.lists L := by
  obtain ⟨b, moved, s', t', hb, -, -, hperform⟩ := perform_infinite h hends hsrc h0 hexpected
  rw [hswap] at hperform
  have hboth : KeptOutside {(a.source, o.i), (a.destination, o.j)} w.lists
      ((w.lists.setSlot a.source o.i s').setSlot a.destination o.j t') :=
    ((KeptOutside.refl ∅ _).setSlot h.source (Set.empty_subset _) s'
      fun hnot => absurd (Or.inl rfl) hnot).setSlot h.destination (Set.subset_insert _ _) t'
      fun hnot => absurd (Or.inr rfl) hnot
  have hreset := kept_resetSource o.dstItem true hb hboth h.source (.inr rfl)
  obtain ⟨y, hy, -⟩ := hreset.kept (a.source) o.i o.stack
    (fun heq => h.ne ⟨congrArg Prod.fst heq, congrArg Prod.snd heq⟩) h.source
  obtain ⟨rest, hrest⟩ := resetDestination_eq o.stack o.dstItem true hb hy h.ne
  rw [if_pos rfl] at hrest
  dsimp only at hperform
  rw [if_pos hdst, hrest] at hperform
  have hdest := hreset.setSlot (T := ∅) h.destination (by rw [insert_empty_eq]) o.dstItem
    fun _ _ => le_rfl
  exact ⟨b, _, hperform, hdest.setSlot h.source (Set.empty_subset _) rest
    fun hnot => absurd rfl hnot⟩

/-- A stack that was swapped out has an empty slot of the destination list to go to. -/
theorem weight_of_swapped (hcaused : a.causedByMoveSomewhere = false) (hswap : p.allowSwap = true)
    (hdst : p.dstCanPutCount ≠ -1) (hname : o.stack.name ≠ o.dstItem.name)
    (hempty : ∃ x ∈ w.lists a.destination, x.count = 0) :
    ∃ b L, perform idef o p w.lists = .ok (b, L) ∧
      ∀ r k, weight (countOf k) (w.lists r) ≤ weight (countOf k) (L r) := by
  obtain ⟨b, moved, s', t', hb, -, hmoves, hperform⟩ :=
    perform_infinite h hends hsrc h0 hexpected
  rw [hswap] at hperform hmoves
  obtain ⟨-, hs', ht', hskind, htkind⟩ := hmoves.swapped rfl
  dsimp only at hperform
  rw [if_neg hdst] at hperform
  refine ⟨b, _, hperform, fun r k => ?_⟩
  have ht : o.dstItem.count ≠ 0 := by
    intro hzero
    have hone := h.swapExpected_iff.mp (hexpected ▸ hswap) 1
    rw [room, if_pos hzero] at hone
    cases hone
  -- the slots that are empty are neither of the two that were swapped
  have hother : ∀ (e : ℕ) (x : ItemStack), x.count = 0 →
      (((w.lists.setSlot a.source o.i s').setSlot a.destination o.j t' a.destination)[e]? = some x ↔
        (w.lists a.destination)[e]? = some x) ∧
      ((w.lists a.destination)[e]? = some x →
        ¬(a.source = a.destination ∧ o.i = e) ∧ o.j ≠ e) := by
    intro e x hx
    have hne {y : ItemStack} (hy : y.count ≠ 0) : y ≠ x := fun heq => hy (heq ▸ hx)
    by_cases hi : a.source = a.destination ∧ o.i = e
    · obtain ⟨hsame, rfl⟩ := hi
      have hleft := getElem?_pair_left h.ne h.source s' t'
      have hsource := h.source
      rw [hsame] at hleft hsource
      simp [hleft, hsource, hsame, hne h.nonempty, hne (hs' ▸ ht)]
    · by_cases hj : o.j = e
      · subst hj
        simp [getElem?_pair_right h.ne h.destination s' t', h.destination, hne ht,
          hne (ht' ▸ h.nonempty)]
      · rw [getElem?_setSlot_of_ne fun h => hj h.2, getElem?_setSlot_of_ne hi]
        exact ⟨Iff.rfl, fun _ => ⟨hi, hj⟩⟩
  obtain ⟨x₀, hmem, hx₀⟩ := hempty
  obtain ⟨e₀, he₀⟩ := List.mem_iff_getElem?.mp hmem
  obtain ⟨e, x, hx, hx0, hupdate⟩ := exists_elsewhere ((hother e₀ x₀ hx₀).1.mpr he₀) hx₀ o.dstItem
  rw [(hother e x hx0).1] at hx
  obtain ⟨hi, hj⟩ := (hother e x hx0).2 hx
  have hreset : b.resetSource o.i o.stack o.dstItem true
      ((w.lists.setSlot a.source o.i s').setSlot a.destination o.j t') =
      (w.lists.setSlot a.destination o.j t').setSlot a.destination e o.dstItem := by
    unfold resetSource
    simp only [hb.caused, hcaused, hname, hb.source, hb.destination, Bool.not_false, ne_eq,
      not_false_eq_true, decide_true, Bool.and_self, if_true, or_true, hupdate]
    rw [setSlot_comm fun h => hi ⟨h.1.symm, h.2.symm⟩, setSlot_pair_left h.ne,
      setSlot_eq_self h.source]
  rw [hreset]
  by_cases hr : r = a.destination
  · subst hr
    have h1 := weight_setSlot (countOf k) h.destination t'
    have hslot : (w.lists.setSlot a.destination o.j t' a.destination)[e]? = some x :=
      (getElem?_setSlot_of_ne (fun h => hj h.2) t').trans hx
    have h2 := weight_setSlot (countOf k) hslot o.dstItem
    rw [countOf_of_count hx0] at h2
    omega
  · rw [setSlot, setSlot, Function.update_of_ne hr, Function.update_of_ne hr]

end Offered

/-! ## The action -/

def KeepsDestination (a : IMoveAction ι) (w w' : Inventories ι) : Prop :=
  ∀ name k, weight (countOf k) (w.lists (a.toInv, name)) ≤
    weight (countOf k) (w'.lists (a.toInv, name))

/-- A stack that is swapped out stays in the inventory: it goes to an empty slot, or the
destination is infinite and not the inventory of the source. -/
def Rescues (cb : Callbacks ι) (o : Offer ι) (w : Inventories ι) : Prop :=
  (o.permit cb).allowSwap = true →
    if (o.permit cb).dstCanPutCount = -1 then o.action.fromInv ≠ o.action.toInv
    else o.stack.name ≠ o.dstItem.name ∧ ∃ x ∈ w.lists o.action.destination, x.count = 0

/-- The source is infinite: `allow_move` or `allow_take` answers -1 whenever it is asked. -/
structure SourceInfinite (idef : ItemDefManager) (cb : Callbacks ι) (a : IMoveAction ι)
    (w : Inventories ι) : Prop where
  slot : a.moveSomewhere = false → ∀ b o, a.prepare idef w = .ok (b, some o) →
    o.action.sourceAnswer cb o.srcItem = -1
  somewhere : a.moveSomewhere = true → ∀ b s, SameEnds { a with causedByMoveSomewhere := true } b →
    b.sourceAnswer cb s = -1

theorem keepsDestination_of_kept (h : KeptOutside ∅ w.lists w'.lists) (a : IMoveAction ι) :
    a.KeepsDestination w w' := fun _ k => h.weight_le (fun _ => Set.notMem_empty _) k

/-- How an offer from an infinite source ends. -/
theorem perform_keeps (h : a.prepare idef w = .ok (b, some o))
    (hans : o.action.sourceAnswer cb o.srcItem = -1) :
    ∃ c L, perform idef o (o.permit cb) w.lists = .ok (c, L) ∧
      ((o.permit cb).allowSwap = false → SameEnds a c ∧ KeptOutside ∅ w.lists L) ∧
      (Rescues cb o w → a.KeepsDestination w { w with lists := L }) := by
  have hoffered := offered_of_some h
  have hends : SameEnds a o.action := action_of_prepare h ▸ sameEnds_of_prepare h
  by_cases h0 : allowed o (o.permit cb) = 0
  · refine ⟨_, _, perform_of_zero h0, fun _ => ⟨hends.trans ⟨rfl, rfl, rfl, rfl⟩, .refl _ _⟩,
      fun _ _ _ => le_rfl⟩
  rcases permit_cases cb o with ⟨hsrc, hdst⟩ | ⟨hsrc, hexpected⟩
  · exact absurd (allowed_of_refused hoffered.moveCount_le hsrc hdst) h0
  rw [hans] at hsrc
  cases hswap : (o.permit cb).allowSwap with
  | false =>
    obtain ⟨c, L, hperform, hc, hkept⟩ :=
      kept_of_not_swapped hoffered hends hsrc h0 hexpected hswap
    exact ⟨c, L, hperform, fun _ => ⟨hc, hkept⟩, fun _ => keepsDestination_of_kept hkept a⟩
  | true =>
    by_cases hdst : (o.permit cb).dstCanPutCount = -1
    · obtain ⟨c, L, hperform, hkept⟩ :=
        kept_of_infinite_destination hoffered hends hsrc h0 hexpected hswap hdst
      refine ⟨c, L, hperform, fun hf => Bool.noConfusion hf, fun hrescue => ?_⟩
      have hinv := hrescue hswap
      rw [if_pos hdst] at hinv
      refine fun name k => hkept.weight_le (fun n hn => hinv ?_) k
      have hsource := congrArg Prod.fst hends.source
      have hdestination := congrArg Prod.fst hends.destination
      exact (hsource.trans (congrArg (·.1.1) (Set.mem_singleton_iff.mp hn)).symm).trans
        hdestination.symm
    · by_cases hrescue : Rescues cb o w
      · have hplace := hrescue hswap
        rw [if_neg hdst] at hplace
        have hcaused : a.causedByMoveSomewhere = false := by
          rw [← Bool.not_eq_true]
          intro hcaused
          have hno := swapExpected_of_caused h hcaused
          rw [← hexpected, hswap] at hno
          cases hno
        obtain ⟨c, L, hperform, hweight⟩ := weight_of_swapped hoffered hends hsrc h0 hexpected
          hcaused hswap hdst hplace.1 (hends.destination ▸ hplace.2)
        exact ⟨c, L, hperform, fun hf => Bool.noConfusion hf, fun _ _ k => hweight _ k⟩
      · obtain ⟨c, moved, s', t', -, -, -, hperform⟩ :=
          perform_infinite hoffered hends hsrc h0 hexpected
        dsimp only at hperform
        rw [if_neg hdst] at hperform
        exact ⟨c, _, hperform, fun hf => Bool.noConfusion hf, fun h => absurd h hrescue⟩

theorem allowSwap_of_not_expected (h : o.swapExpected = false) :
    (o.permit cb).allowSwap = false := by
  unfold Offer.permit Offer.permitMove Offer.permitTransfer Offer.permission
  split_ifs <;> simp [h]

theorem applySlot_keeps (hinf : ∀ b o, a.prepare idef w = .ok (b, some o) →
      o.action.sourceAnswer cb o.srcItem = -1)
    (hrescue : ∀ b o, a.prepare idef w = .ok (b, some o) → Rescues cb o w) :
    ∃ r, a.applySlot idef cb w = .ok r ∧ a.KeepsDestination w r.2 := by
  obtain ⟨b, x, hprepare⟩ := prepare_total idef a w
  cases x with
  | none => exact ⟨(b, w), applySlot_of_none hprepare, fun _ _ => le_rfl⟩
  | some o =>
    obtain ⟨c, L, hperform, -, hkeeps⟩ := perform_keeps hprepare (hinf b o hprepare)
    exact ⟨_, applySlot_of_some hprepare hperform, hkeeps (hrescue b o hprepare)⟩

theorem applySlot_kept (idef : ItemDefManager) (w : Inventories ι)
    (hcaused : a.causedByMoveSomewhere = true)
    (hinf : ∀ b s, SameEnds a b → b.sourceAnswer cb s = -1) :
    ∃ b w', a.applySlot idef cb w = .ok (b, w') ∧ SameEnds a b ∧
      KeptOutside ∅ w.lists w'.lists := by
  obtain ⟨b, x, hprepare⟩ := prepare_total idef a w
  cases x with
  | none => exact ⟨b, w, applySlot_of_none hprepare, sameEnds_of_prepare hprepare, .refl _ _⟩
  | some o =>
    have hends : SameEnds a o.action := action_of_prepare hprepare ▸ sameEnds_of_prepare hprepare
    obtain ⟨c, L, hperform, hkept, -⟩ :=
      perform_keeps hprepare (hinf _ o.srcItem hends)
    have hexpected := swapExpected_of_caused hprepare hcaused
    obtain ⟨hc, hkept⟩ := hkept (allowSwap_of_not_expected hexpected)
    exact ⟨c, _, applySlot_of_some hprepare hperform, hc, hkept⟩

theorem addTo_kept {i : ℕ} {r : IMoveAction ι × Inventories ι}
    (hcaused : a.causedByMoveSomewhere = true)
    (hinf : ∀ b s, SameEnds a b → b.sourceAnswer cb s = -1) (h : a.addTo idef cb i w = .ok r) :
    SameEnds a r.1 ∧ KeptOutside ∅ w.lists r.2.lists := by
  have hinf' : ∀ b s, SameEnds { a with toI := Int16.ofNat i } b → b.sourceAnswer cb s = -1 :=
    fun b s hb => hinf b s ⟨hb.source, hb.destination, hb.fromI, hb.caused⟩
  obtain ⟨b, w', happly, hends, hkept⟩ := applySlot_kept idef w (by exact hcaused) hinf'
  unfold addTo at h
  simp only [happly, bind, Except.bind] at h
  split_ifs at h
  · cases h
    exact ⟨⟨hends.source, hends.destination, hends.fromI, hends.caused⟩, hkept⟩

/-- The induction is on the slots that are left; every step keeps all items of all lists. -/
theorem applyLoop_kept {toEmpty : Bool} {is : List ℕ} {r : IMoveAction ι × Inventories ι}
    (hcaused : a.causedByMoveSomewhere = true)
    (hinf : ∀ b s, SameEnds a b → b.sourceAnswer cb s = -1)
    (h : applyLoop idef cb toEmpty is a w = .ok r) :
    SameEnds a r.1 ∧ KeptOutside ∅ w.lists r.2.lists := by
  induction is generalizing a w with
  | nil =>
    cases h
    exact ⟨⟨rfl, rfl, rfl, rfl⟩, .refl _ _⟩
  | cons i is ih =>
    rw [applyLoop] at h
    split_ifs at h with hcount
    · cases h
      exact ⟨⟨rfl, rfl, rfl, rfl⟩, .refl _ _⟩
    · cases hslot : (w.lists a.destination).getItem i with
      | error e => simp [hslot, bind, Except.bind] at h
      | ok slot =>
        simp only [hslot, bind, Except.bind] at h
        split_ifs at h with hempty
        · exact ih hcaused hinf h
        · cases hadd : a.addTo idef cb i w with
          | error e => simp [hadd] at h
          | ok r₁ =>
            simp only [hadd] at h
            obtain ⟨hends, hkept⟩ := addTo_kept hcaused hinf hadd
            obtain ⟨hends', hkept'⟩ := ih (hends.caused.trans hcaused)
              (fun b s hb => hinf b s (hends.trans hb)) h
            exact ⟨hends.trans hends', hkept.trans hkept'⟩

/-- Nothing in the destination inventory is destroyed by a move from an infinite source, unless
a stack that is swapped out has no place to go. -/
theorem infinite_source_keeps (idef : ItemDefManager) (cb : Callbacks ι) (a : IMoveAction ι)
    (w : Inventories ι) (hinf : a.SourceInfinite idef cb w)
    (hrescue : a.moveSomewhere = false →
      ∀ b o, a.prepare idef w = .ok (b, some o) → Rescues cb o w) :
    (a.moveSomewhere = false → ∃ r, a.apply idef cb w = .ok r) ∧
      ∀ a' w', a.apply idef cb w = .ok (a', w') → a.KeepsDestination w w' := by
  cases hsomewhere : a.moveSomewhere with
  | false =>
    obtain ⟨⟨b, w₁⟩, happly, hkeeps⟩ :=
      applySlot_keeps (hinf.slot hsomewhere) (hrescue hsomewhere)
    rw [apply_of_slot hsomewhere, happly]
    refine ⟨fun _ => ⟨_, rfl⟩, fun a' w' h => ?_⟩
    cases h
    exact hkeeps
  | true =>
    refine ⟨fun h => Bool.noConfusion h, fun a' w' h => ?_⟩
    have hans : ∀ b s, SameEnds { a with causedByMoveSomewhere := true, moveSomewhere := false } b →
        b.sourceAnswer cb s = -1 := fun b s hb =>
      hinf.somewhere hsomewhere b s ⟨hb.source, hb.destination, hb.fromI, hb.caused⟩
    unfold apply at h
    split_ifs at h with hlists
    · cases h
      exact fun _ _ => le_rfl
    · simp only [bind, Except.bind] at h
      split at h
      · cases h
      rename_i r₁ hfull
      obtain ⟨hends₁, hkept₁⟩ := applyLoop_kept (by exact rfl) (by exact hans) hfull
      split at h
      · cases h
      rename_i r₂ hempty
      obtain ⟨-, hkept₂⟩ := applyLoop_kept (by exact hends₁.caused)
        (by exact fun b s hb => hans b s (hends₁.trans hb)) hempty
      cases h
      exact keepsDestination_of_kept (hkept₁.trans hkept₂) a

/-- A stone in one inventory, and a chest with dirt and `rest`. -/
def chest (rest : ItemList) : Inventories Bool where
  hasList _ name := name == bytes "main"
  lists r :=
    if r = (true, bytes "main") then { name := bytes "default:dirt", count := 1 } :: rest
    else if r = (false, bytes "main") then [{ name := bytes "default:stone", count := 1 }]
    else []

def endlessStones : Callbacks Bool where
  allowMove _ _ := -1
  allowPut _ _ := 99
  allowTake _ _ := -1

theorem sourceInfinite_chest (rest : ItemList) :
    takeOne.SourceInfinite anyItem endlessStones (chest rest) where
  slot _ b o _ := by
    unfold sourceAnswer
    split_ifs <;> rfl
  somewhere h := nomatch h

theorem infinite_source_keeps_dirt : (takeOne.moveSomewhere = false →
      ∃ r, takeOne.apply anyItem endlessStones (chest [{}]) = .ok r) ∧
    ∀ a' w', takeOne.apply anyItem endlessStones (chest [{}]) = .ok (a', w') →
      takeOne.KeepsDestination (chest [{}]) w' := by
  refine infinite_source_keeps anyItem endlessStones takeOne (chest [{}])
    (sourceInfinite_chest [{}]) fun _ b o h => ?_
  obtain ⟨b', o', h', ho⟩ : ∃ b o, takeOne.prepare anyItem (chest [{}]) = .ok (b, some o) ∧
      Rescues endlessStones o (chest [{}]) := by
    refine ⟨_, _, rfl, fun _ => ?_⟩
    rw [if_neg (by decide)]
    exact ⟨by decide, {}, by decide, rfl⟩
  cases h'.symm.trans h
  exact ho

/-- The chest is full: the dirt is in no list afterwards. -/
theorem infinite_source_destroys : ¬∀ (idef : ItemDefManager) (cb : Callbacks Bool)
    (a : IMoveAction Bool) (w : Inventories Bool), a.SourceInfinite idef cb w →
    ∀ a' w', a.apply idef cb w = .ok (a', w') → ∀ name k,
      0 < weight (countOf k) (w.lists (a.toInv, name)) →
      ∃ r, w'.hasList r.1 r.2 = true ∧ 0 < weight (countOf k) (w'.lists r) := by
  intro h
  obtain ⟨a', w', happly, hlists, hdirt⟩ : ∃ a' w',
      takeOne.apply anyItem endlessStones (chest []) = .ok (a', w') ∧
      w'.hasList = (chest []).hasList ∧ ∀ inv, w'.lists (inv, bytes "main") =
        [{ name := bytes "default:stone", count := 1 }] :=
    ⟨_, _, rfl, rfl, by decide⟩
  obtain ⟨⟨inv, name⟩, hname, hr⟩ := h anyItem endlessStones takeOne (chest [])
    (sourceInfinite_chest []) a' w' happly (bytes "main") (bytes "default:dirt", ∅) (by decide)
  obtain rfl : name = bytes "main" := by
    rw [hlists] at hname
    exact eq_of_beq hname
  rw [hdirt inv] at hr
  exact absurd hr (by decide)

end IMoveAction

end Freeminer.Inventory
