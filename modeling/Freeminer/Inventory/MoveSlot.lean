import Freeminer.Inventory.Move

/-! A move to one slot. With limits that are not negative it moves what they allow and no more. A
limit below -1 becomes a huge unsigned number, and the whole source stack may move. -/

namespace Freeminer.Inventory

open ItemStack Lists

variable {ι : Type} [DecidableEq ι]

/-! ## Room -/

section Room

variable {idef : ItemDefManager} {t : ItemStack} {k : Kind} {n m : ℕ}

theorem room_of_le (h : n ≤ m) : room idef t k n = min n (room idef t k m) := by
  unfold room
  split_ifs <;> omega

theorem room_eq_zero (h : room idef t k n = 0) (hn : n ≠ 0) : room idef t k m = 0 := by
  rcases Nat.le_total n m with hle | hle
  · rw [room_of_le hle] at h
    omega
  · rw [room_of_le hle, h, Nat.min_zero]

end Room

variable {idef : ItemDefManager} {cb : Callbacks ι} {a : IMoveAction ι} {w : Inventories ι}
  {i j : ℕ} {s t : ItemStack}

/-! ## Limits -/

theorem toInt_eq (x : Int32) : x.toUInt32.toNat < 2 ^ 31 ∧ x.toInt = x.toUInt32.toNat ∨
    2 ^ 31 ≤ x.toUInt32.toNat ∧ x.toInt = x.toUInt32.toNat - 2 ^ 32 := by
  have h : x.toInt = if 2 * x.toUInt32.toNat < 2 ^ 32 then (x.toUInt32.toNat : ℤ)
      else x.toUInt32.toNat - 2 ^ 32 := BitVec.toInt_eq_toNat_cond x.toBitVec
  split_ifs at h <;> omega

namespace IMoveAction

variable {r : Int32} {n : UInt32}

theorem toUInt32_min (r : Int32) (n : UInt32) :
    (min r n.toInt32).toUInt32 = r.toUInt32 ∧ r.toInt ≤ n.toInt32.toInt ∨
    (min r n.toInt32).toUInt32 = n ∧ n.toInt32.toInt < r.toInt := by
  by_cases h : r ≤ n.toInt32
  · exact .inl ⟨by rw [show min r n.toInt32 = r from if_pos h], Int32.le_iff_toInt_le.mp h⟩
  · rw [show min r n.toInt32 = n.toInt32 from if_neg h]
    refine .inr ⟨n.toUInt32_toInt32, ?_⟩
    rw [Int32.le_iff_toInt_le] at h
    omega

theorem toNat_limit (hr : 0 ≤ r.toInt) (hn : n.toNat < 2 ^ 31) :
    (limit r n).toNat = min r.toInt.toNat n.toNat := by
  have hne : r ≠ -1 := by
    rintro rfl
    exact absurd hr (by decide)
  have h1 := toInt_eq r
  have hlt := r.toUInt32.toNat_lt
  have h2 := toInt_eq n.toInt32
  rw [n.toUInt32_toInt32] at h2
  unfold limit
  rw [if_pos hne]
  rcases toUInt32_min r n with ⟨hmin, hle⟩ | ⟨hmin, hlt⟩ <;> rw [hmin] <;> omega

theorem le_limit (hr : r ≠ -1) (h : r.toInt < 0 ∨ 2 ^ 31 ≤ n.toNat) :
    2 ^ 31 ≤ (limit r n).toNat := by
  have h1 := toInt_eq r
  have h2 := toInt_eq n.toInt32
  have hn := n.toNat_lt
  rw [n.toUInt32_toInt32] at h2
  unfold limit
  rw [if_pos hr]
  rcases toUInt32_min r n with ⟨hmin, hle⟩ | ⟨hmin, hlt⟩ <;> rw [hmin] <;> omega

/-! ## The slots of a move -/

structure Meets (a : IMoveAction ι) (w : Inventories ι) (i j : ℕ) (s t : ItemStack) : Prop where
  hasFrom : w.hasList a.fromInv a.fromList = true
  hasTo : w.hasList a.toInv a.toList = true
  fromI : 0 ≤ a.fromI ∧ a.fromI.toNatClampNeg = i
  toI : 0 ≤ a.toI ∧ a.toI.toNatClampNeg = j
  source : (w.lists a.source)[i]? = some s
  destination : (w.lists a.destination)[j]? = some t
  ne : ¬(a.source = a.destination ∧ i = j)

theorem inBounds_iff {i : Int16} {l : ItemList} :
    inBounds i l = true ↔ 0 ≤ i ∧ ∃ s, l[i.toNatClampNeg]? = some s := by
  unfold inBounds
  rw [Bool.and_eq_true, decide_eq_true_iff, decide_eq_true_iff]
  exact and_congr_right fun _ => ⟨fun h => ⟨_, List.getElem?_eq_getElem h⟩,
    fun ⟨_, h⟩ => (List.getElem?_eq_some_iff.mp h).1⟩

/-- Nothing is prepared unless the slots exist and differ. -/
theorem prepare_of_not_meets (idef : ItemDefManager) (h : ¬∃ i j s t, a.Meets w i j s t) :
    a.prepare idef w = .ok (a, none) := by
  unfold prepare
  dsimp only
  split_ifs with hlists hbounds hsame
  · rfl
  · rfl
  · rfl
  · simp only [Bool.or_eq_true, Bool.not_eq_true', not_or, Bool.not_eq_false] at hlists hbounds
    obtain ⟨hi, s, hs⟩ := inBounds_iff.mp hbounds.1
    obtain ⟨hj, t, ht⟩ := inBounds_iff.mp hbounds.2
    refine absurd ⟨_, _, s, t, hlists.1, hlists.2, ⟨hi, rfl⟩, ⟨hj, rfl⟩, hs, ht, ?_⟩ h
    rintro ⟨hlist, hslot⟩
    refine hsame ⟨hlist, Int16.toInt.inj ?_⟩
    rw [← Int16.cast_toNatClampNeg _ hi, hslot, Int16.cast_toNatClampNeg _ hj]

/-- What is prepared: as many of the requested items as there is room for, and all of the stack
if that is none. -/
structure Prepared (idef : ItemDefManager) (a : IMoveAction ι) (i j : ℕ) (s t : ItemStack)
    (o : Offer ι) : Prop where
  action : ∃ moveCount, o.action = { a with moveCount }
  i_eq : o.i = i
  j_eq : o.j = j
  stack : o.stack = s
  dstItem : o.dstItem = t
  swapExpected_iff : o.swapExpected = true ↔
    room idef t s.kind (amount a.count.toUInt32 s) = 0
  moveCount : o.action.moveCount.toNat =
    if o.swapExpected then s.count.toNat else room idef t s.kind (amount a.count.toUInt32 s)

/-- The requested items are `count` of the stack. -/
theorem requested_spec (count : UInt16) (s : ItemStack) :
    let src := if 0 < count ∧ count < s.count then { s with count := count } else s
    src.count.toNat = amount count.toUInt32 s ∧ src.kind = s.kind ∧ (src.count = 0 ↔ s.count = 0) := by
  have hcount : count.toUInt32 = 0 ↔ count = 0 := by
    rw [← UInt32.toNat_inj, ← UInt16.toNat_inj]
    rfl
  intro src
  unfold src amount
  rw [UInt16.toNat_toUInt32]
  by_cases h0 : count = 0
  · rw [if_pos (hcount.mpr h0), if_neg fun h => absurd (h0 ▸ h.1) (by decide)]
    exact ⟨rfl, rfl, Iff.rfl⟩
  · rw [if_neg (mt hcount.mp h0)]
    have hpos : 0 < count := UInt16.pos_iff_ne_zero.mpr h0
    by_cases hlt : count < s.count
    · rw [if_pos ⟨hpos, hlt⟩]
      have h1 := UInt16.lt_iff_toNat_lt.mp hlt
      have h2 := UInt16.lt_iff_toNat_lt.mp hpos
      refine ⟨(Nat.min_eq_left h1.le).symm, rfl, iff_of_false h0 fun h => ?_⟩
      rw [h] at h1
      exact absurd h1 (Nat.not_lt_zero _)
    · rw [if_neg fun h => hlt h.2]
      have h1 := UInt16.le_iff_toNat_le.mp (UInt16.not_lt.mp hlt)
      exact ⟨(Nat.min_eq_right h1).symm, rfl, Iff.rfl⟩

theorem Meets.prepare (idef : ItemDefManager) (h : a.Meets w i j s t) :
    s.count = 0 ∧ a.prepare idef w = .ok (a, none) ∨
    a.causedByMoveSomewhere = true ∧ s.count ≠ 0 ∧
      room idef t s.kind (amount a.count.toUInt32 s) = 0 ∧
      a.prepare idef w = .ok ({ a with moveCount := 0 }, none) ∨
    s.count ≠ 0 ∧ ∃ o, a.prepare idef w = .ok (o.action, some o) ∧ Prepared idef a i j s t o ∧
      (a.causedByMoveSomewhere = true → o.swapExpected = false) := by
  obtain ⟨hfrom, hto, ⟨hi, rfl⟩, ⟨hj, rfl⟩, hs, ht, hne⟩ := h
  unfold IMoveAction.prepare
  dsimp only
  rw [if_neg (by simp [hfrom, hto]),
    if_neg (by simp [inBounds_iff.mpr ⟨hi, s, hs⟩, inBounds_iff.mpr ⟨hj, t, ht⟩]),
    if_neg fun h : _ ∧ a.fromI = a.toI => hne ⟨h.1, congrArg _ h.2⟩]
  obtain ⟨hcount, hkind, hzero⟩ := requested_spec a.count s
  generalize hsrc : (if 0 < a.count ∧ a.count < s.count then { s with count := a.count } else s :
    ItemStack) = src at hcount hkind hzero
  obtain ⟨fits, rest, hfits, hfits_iff, hrest⟩ := ItemStack.itemFits_spec idef t src
  have hfits' : ItemList.itemFits idef (w.lists a.destination) a.toI.toNatClampNeg src =
      .ok (fits, rest) := by
    rw [ItemList.itemFits, ht]
    exact hfits
  have hroom : roomFor idef t src = room idef t s.kind (amount a.count.toUInt32 s) :=
    roomFor_eq hcount fun _ => hkind
  have hle := room_le idef t s.kind (amount a.count.toUInt32 s)
  rw [hroom, hcount] at hrest
  simp only [bind, Except.bind, getItem_of_some hs, getItem_of_some ht, hsrc, hfits']
  by_cases h0 : s.count = 0
  · rw [if_pos (empty_iff.mpr (hzero.mpr h0))]
    exact .inl ⟨h0, rfl⟩
  refine .inr ?_
  have hsub : (src.count.toUInt32 - rest.count.toUInt32).toNat =
      room idef t s.kind (amount a.count.toUInt32 s) := by
    rw [UInt32.toNat_sub_of_le _ _ (by
      rw [UInt32.le_iff_toNat_le, UInt16.toNat_toUInt32, UInt16.toNat_toUInt32]; omega),
      UInt16.toNat_toUInt32, UInt16.toNat_toUInt32]
    omega
  have hn : amount a.count.toUInt32 s ≠ 0 := by
    rw [← hcount]
    intro hz
    exact h0 (hzero.mp (UInt16.toNat_inj.mp hz))
  have hmove : src.count.toUInt32 - rest.count.toUInt32 = 0 ↔
      room idef t s.kind (amount a.count.toUInt32 s) = 0 := by
    rw [← UInt32.toNat_inj, hsub]
    rfl
  have hswap : (!fits && rest.count == src.count) = true ↔
      room idef t s.kind (amount a.count.toUInt32 s) = 0 := by
    rw [Bool.and_eq_true, Bool.not_eq_true', ← Bool.not_eq_true, hfits_iff, beq_iff_eq,
      ← UInt16.toNat_inj, ← UInt16.toNat_inj, UInt16.toNat_zero]
    omega
  rw [if_neg (mt (empty_iff.mp) (mt hzero.mp h0))]
  by_cases hcaused : (a.causedByMoveSomewhere && src.count.toUInt32 - rest.count.toUInt32 == 0) = true
  · rw [if_pos hcaused]
    rw [Bool.and_eq_true, beq_iff_eq] at hcaused
    refine .inl ⟨hcaused.1, h0, hmove.mp hcaused.2, ?_⟩
    rw [hcaused.2]
    rfl
  · rw [if_neg hcaused]
    rw [Bool.and_eq_true, beq_iff_eq, hmove] at hcaused
    refine .inr ⟨h0, { action := _, i := _, j := _, stack := s, dstItem := t, swapExpected := _ },
      rfl, ?_, ?_⟩
    · refine ⟨⟨_, rfl⟩, rfl, rfl, rfl, rfl, ?_, ?_⟩
      · rw [Bool.and_eq_true, hswap, Bool.not_eq_true', ← Bool.not_eq_true]
        exact ⟨fun h => h.1, fun h => ⟨h, fun hc => hcaused ⟨hc, h⟩⟩⟩
      · split_ifs
        · exact UInt16.toNat_toUInt32 _
        · exact hsub
    · rintro hc
      simp [hc]

end IMoveAction

/-! ## Permission -/

structure Callbacks.Finite (cb : Callbacks ι) : Prop where
  allowMove : ∀ a n, cb.allowMove a n ≠ -1
  allowPut : ∀ a s, cb.allowPut a s ≠ -1
  allowTake : ∀ a s, cb.allowTake a s ≠ -1

namespace Offer

variable {o : Offer ι} {r src dst : Int32}

theorem allowsAll_iff (hr : r ≠ -1) : allowsAll r s = true ↔ (s.count.toNat : ℤ) ≤ r.toInt := by
  simp [allowsAll, hr]

/-- What the permission to move an offer is made of. -/
structure Permits (o : Offer ι) (p : Permission) : Prop where
  src_ne : p.srcCanTakeCount ≠ -1
  dst_ne : p.dstCanPutCount ≠ -1
  move : o.swapExpected = false → p.allowSwap = false ∧ p.swapAnswers = [] ∧
    ∀ r, r ∈ p.answers ↔ r = p.srcCanTakeCount ∨ r = p.dstCanPutCount
  swap : o.swapExpected = true →
    (p.allowSwap = true ∧ (∀ r ∈ p.answers, (o.srcItem.count.toNat : ℤ) ≤ r.toInt) ∧
      (∀ r ∈ p.swapAnswers, (o.dstItem.count.toNat : ℤ) ≤ r.toInt) ∧
      p.srcCanTakeCount ∈ p.answers ∧ p.dstCanPutCount ∈ p.answers ++ p.swapAnswers) ∨
    (p.allowSwap = false ∧ p.srcCanTakeCount = 0 ∧ p.dstCanPutCount = 0)

omit [DecidableEq ι] in
theorem permits_refused {answers swapAnswers : List Int32} (hsrc : src ≠ -1) (hdst : dst ≠ -1)
    (h : o.swapExpected = false → swapAnswers = [] ∧ ∀ r, r ∈ answers ↔ r = src ∨ r = dst) :
    o.Permits (o.permission src dst false answers swapAnswers) := by
  unfold permission
  split_ifs with hexpected
  · have hzero : (0 : Int32) ≠ -1 := by decide
    exact ⟨hzero, hzero, fun h => absurd h hexpected, fun _ => .inr ⟨rfl, rfl, rfl⟩⟩
  · rw [not_not] at hexpected
    exact ⟨hsrc, hdst, fun hf => ⟨rfl, h hf⟩, fun ht => absurd (hexpected.symm.trans ht) (by decide)⟩

omit [DecidableEq ι] in
theorem permits_swap {answers swapAnswers : List Int32} (hsrc : src ≠ -1) (hdst : dst ≠ -1)
    (hexpected : o.swapExpected = true)
    (hanswers : ∀ r ∈ answers, (o.srcItem.count.toNat : ℤ) ≤ r.toInt)
    (hswap : ∀ r ∈ swapAnswers, (o.dstItem.count.toNat : ℤ) ≤ r.toInt)
    (hmem : src ∈ answers) (hmem' : dst ∈ answers ++ swapAnswers) :
    o.Permits (o.permission src dst true answers swapAnswers) := by
  unfold permission
  rw [if_neg (by simp [hexpected])]
  exact ⟨hsrc, hdst, fun h => absurd (hexpected.symm.trans h) (by decide),
    fun _ => .inl ⟨rfl, hanswers, hswap, hmem, hmem'⟩⟩

omit [DecidableEq ι] in
theorem permits_permitMove (hcb : cb.Finite) : o.Permits (o.permitMove cb) := by
  have hsrc := hcb.allowMove o.action o.srcItem.count
  have hdst := hcb.allowMove o.action.swapDirections o.dstItem.count
  unfold permitMove
  dsimp only
  split_ifs with h
  · rw [Bool.and_eq_true, allowsAll_iff hsrc] at h
    cases hall : allowsAll (cb.allowMove o.action.swapDirections o.dstItem.count) o.dstItem with
    | false => exact permits_refused hsrc hdst fun hf => absurd (h.1.symm.trans hf) (by decide)
    | true =>
      rw [allowsAll_iff hdst] at hall
      exact permits_swap hsrc hdst h.1 (by simpa using h.2) (by simpa using hall) (by simp) (by simp)
  · exact permits_refused hsrc hsrc fun _ => ⟨rfl, by simp⟩

omit [DecidableEq ι] in
theorem permits_permitTransfer (hcb : cb.Finite) : o.Permits (o.permitTransfer cb) := by
  have hdst := hcb.allowPut o.action o.srcItem
  have hsrc := hcb.allowTake o.action o.srcItem
  have hput := hcb.allowPut o.action.swapDirections o.dstItem
  have htake := hcb.allowTake o.action.swapDirections o.dstItem
  unfold permitTransfer
  dsimp only
  split_ifs with h
  · rw [Bool.and_eq_true, Bool.and_eq_true, allowsAll_iff hsrc, allowsAll_iff hdst] at h
    obtain ⟨⟨hexpected, hsrc'⟩, hdst'⟩ := h
    cases hall : allowsAll (cb.allowPut o.action.swapDirections o.dstItem) o.dstItem &&
        allowsAll (cb.allowTake o.action.swapDirections o.dstItem) o.dstItem with
    | false => exact permits_refused hsrc hdst fun hf => absurd (hexpected.symm.trans hf) (by decide)
    | true =>
      rw [Bool.and_eq_true, allowsAll_iff hput, allowsAll_iff htake] at hall
      refine permits_swap hsrc hdst hexpected ?_ ?_ (by simp) (by simp)
      · simpa using ⟨hdst', hsrc'⟩
      · simpa using hall
  · exact permits_refused hsrc hdst fun _ => ⟨rfl, fun r => by simp [or_comm]⟩

theorem permits_permit (hcb : cb.Finite) : o.Permits (o.permit cb) := by
  unfold permit
  split_ifs
  · exact permits_permitMove hcb
  · exact permits_permitTransfer hcb

end Offer

namespace IMoveAction

section Perform

variable {o : Offer ι} {p : Permission}

omit [DecidableEq ι] in
theorem toNat_allowed (hle : o.action.moveCount.toNat ≤ o.stack.count.toNat)
    (hsrc : 0 ≤ p.srcCanTakeCount.toInt) (hdst : 0 ≤ p.dstCanPutCount.toInt) :
    (allowed o p).toNat = min p.dstCanPutCount.toInt.toNat
      (min p.srcCanTakeCount.toInt.toNat o.action.moveCount.toNat) := by
  have hlt := o.stack.count.toNat_lt
  have h1 := toNat_limit (n := o.action.moveCount) hsrc (by omega)
  have h2 := toNat_limit (n := limit p.srcCanTakeCount o.action.moveCount) hdst (by omega)
  unfold allowed
  dsimp only
  rw [if_neg, h2, h1]
  rw [UInt32.lt_iff_toNat_lt, UInt16.toNat_toUInt32, h2, h1]
  omega

omit [DecidableEq ι] in
/-- A negative limit allows the whole stack. -/
theorem toNat_allowed_of_neg (hsrc : p.srcCanTakeCount ≠ -1) (hdst : p.dstCanPutCount ≠ -1)
    (h : p.srcCanTakeCount.toInt < 0 ∨ p.dstCanPutCount.toInt < 0) :
    (allowed o p).toNat = o.stack.count.toNat := by
  have hlt := o.stack.count.toNat_lt
  have hlimit : 2 ^ 31 ≤ (limit p.dstCanPutCount
      (limit p.srcCanTakeCount o.action.moveCount)).toNat := by
    rcases h with h | h
    · exact le_limit hdst (.inr (le_limit hsrc (.inl h)))
    · exact le_limit hdst (.inl h)
  unfold allowed
  dsimp only
  rw [if_pos, UInt16.toNat_toUInt32]
  rw [UInt32.lt_iff_toNat_lt, UInt16.toNat_toUInt32]
  omega

omit [DecidableEq ι] in
theorem allowed_le (o : Offer ι) (p : Permission) :
    (allowed o p).toNat ≤ o.stack.count.toNat := by
  unfold allowed
  dsimp only
  split_ifs with h
  · rw [UInt16.toNat_toUInt32]
  · rw [UInt32.lt_iff_toNat_lt, UInt16.toNat_toUInt32] at h
    omega

theorem perform_of_zero {lists : Lists (ι × ByteString)} (h : allowed o p = 0) :
    perform idef o p lists = .ok ({ o.action with moveCount := 0 }, lists) := by
  unfold perform
  dsimp only
  rw [if_pos h, h]
  rfl

/-- What is allowed is moved, or the stacks are swapped. -/
theorem perform_spec (idef : ItemDefManager) {lists : Lists (ι × ByteString)}
    (hs : (lists o.action.source)[o.i]? = some o.stack)
    (ht : (lists o.action.destination)[o.j]? = some o.dstItem)
    (hne : ¬(o.action.source = o.action.destination ∧ o.i = o.j))
    (hsrc : p.srcCanTakeCount ≠ -1) (hdst : p.dstCanPutCount ≠ -1) (h0 : allowed o p ≠ 0)
    (hswap : p.allowSwap = true → room idef o.dstItem o.stack.kind (allowed o p).toNat = 0) :
    ∃ moved s' t', perform idef o p lists = .ok ({ o.action with
        moveCount := moved.count.toUInt32 },
        (lists.setSlot o.action.source o.i s').setSlot o.action.destination o.j t') ∧
      Moves idef o.stack o.dstItem (allowed o p).toNat p.allowSwap moved p.allowSwap s' t' := by
  have hamount : amount (allowed o p) o.stack = (allowed o p).toNat := by
    unfold amount
    rw [if_neg h0, Nat.min_eq_left (allowed_le o p)]
  obtain ⟨moved, didSwap, s', t', hmove, h⟩ := moveItem_spec idef hne hs ht (allowed o p) p.allowSwap
  rw [hamount] at h
  have hdid : p.allowSwap = didSwap := by
    have hn : (allowed o p).toNat ≠ 0 := fun hz => h0 (UInt32.toNat_inj.mp hz)
    rw [Bool.eq_iff_iff, h.didSwap_iff]
    exact ⟨fun hp => ⟨hp, hn, hswap hp⟩, fun hp => hp.1⟩
  subst hdid
  refine ⟨moved, s', t', ?_, h⟩
  unfold perform
  dsimp only
  rw [if_neg h0, hmove]
  simp only [bind, Except.bind, ne_eq, not_true_eq_false, if_false, hsrc, hdst]
  rfl

end Perform

/-! ## A move -/

def leaving (s s' : ItemStack) : ℕ := s.count.toNat - countOf s.kind s'

/-- The action succeeds (the swap assertion holds), every kind is conserved over any set of lists
that has the two, no more items leave the source slot than any callback allows, and nothing moves
when one allows none. -/
def MovesAsAllowed (idef : ItemDefManager) (cb : Callbacks ι) (a : IMoveAction ι)
    (w : Inventories ι) : Prop :=
  ∃ a' w', a.apply idef cb w = .ok (a', w') ∧
    (∀ refs : Finset (ι × ByteString), a.source ∈ refs → a.destination ∈ refs →
      ∀ k, w'.lists.total refs k = w.lists.total refs k) ∧
    ((∀ b o, a.prepare idef w ≠ .ok (b, some o)) → w' = w) ∧
    ∀ b o, a.prepare idef w = .ok (b, some o) →
      (∀ r ∈ (o.permit cb).answers, ∃ s', (w'.lists a.source)[o.i]? = some s' ∧
        (leaving o.stack s' : ℤ) ≤ max 0 r.toInt) ∧
      ((∃ r ∈ (o.permit cb).answers ++ (o.permit cb).swapAnswers, r.toInt ≤ 0) → w' = w)

def LimitsNonneg (idef : ItemDefManager) (cb : Callbacks ι) (a : IMoveAction ι)
    (w : Inventories ι) : Prop :=
  ∀ b o, a.prepare idef w = .ok (b, some o) → o.swapExpected = false →
    ∀ r ∈ (o.permit cb).answers, 0 ≤ r.toInt

theorem apply_of_slot (ha : a.moveSomewhere = false) :
    a.apply idef cb w = a.applySlot idef cb w := by
  unfold apply
  split_ifs with h
  · have hprepare : a.prepare idef w = .ok (a, none) := by
      unfold prepare
      dsimp only
      rw [if_pos h]
    rw [applySlot, hprepare]
    rfl
  · simp [ha] at *
  · rfl

theorem applySlot_of_none {b : IMoveAction ι} (h : a.prepare idef w = .ok (b, none)) :
    a.applySlot idef cb w = .ok (b, w) := by
  rw [applySlot, h]
  rfl

/-- How the action ends if the slots are there: with nothing, or with a move that the callbacks
allow. -/
theorem applySlot_of_some {b : IMoveAction ι} {o : Offer ι} {lists : Lists (ι × ByteString)}
    {c : IMoveAction ι} (h : a.prepare idef w = .ok (c, some o))
    (hperform : perform idef o (o.permit cb) w.lists = .ok (b, lists)) :
    a.applySlot idef cb w = .ok (b, { w with lists }) := by
  rw [applySlot, h]
  simp only [bind, Except.bind, hperform]
  rfl

/-- Nothing fails before the callbacks are asked. -/
theorem prepare_total (idef : ItemDefManager) (a : IMoveAction ι) (w : Inventories ι) :
    ∃ b o, a.prepare idef w = .ok (b, o) := by
  by_cases hmeets : ∃ i j s t, a.Meets w i j s t
  · obtain ⟨i, j, s, t, hmeets⟩ := hmeets
    rcases hmeets.prepare idef with ⟨-, h⟩ | ⟨-, -, -, h⟩ | ⟨-, o, h, -⟩
    · exact ⟨_, _, h⟩
    · exact ⟨_, _, h⟩
    · exact ⟨_, _, h⟩
  · exact ⟨_, _, prepare_of_not_meets idef hmeets⟩

/-- What is prepared comes from two slots that exist. -/
theorem prepared_of_some {b : IMoveAction ι} {o : Offer ι} (h : a.prepare idef w = .ok (b, some o)) :
    ∃ i j s t, a.Meets w i j s t ∧ s.count ≠ 0 ∧ Prepared idef a i j s t o := by
  by_cases hmeets : ∃ i j s t, a.Meets w i j s t
  · obtain ⟨i, j, s, t, hmeets⟩ := hmeets
    refine ⟨i, j, s, t, hmeets, ?_⟩
    rcases hmeets.prepare idef with ⟨-, h'⟩ | ⟨-, -, -, h'⟩ | ⟨h0, o', h', hprepared, -⟩ <;>
      rw [h] at h' <;> simp only [Except.ok.injEq, Prod.mk.injEq, Option.some.injEq, reduceCtorEq,
        and_false] at h'
    rw [h'.2]
    exact ⟨h0, hprepared⟩
  · rw [prepare_of_not_meets idef hmeets] at h
    simp at h

/-- An offer: the two slots of the action, as they are. -/
structure Offered (idef : ItemDefManager) (a : IMoveAction ι) (w : Inventories ι) (o : Offer ι) :
    Prop where
  source_eq : o.action.source = a.source
  destination_eq : o.action.destination = a.destination
  source : (w.lists a.source)[o.i]? = some o.stack
  destination : (w.lists a.destination)[o.j]? = some o.dstItem
  ne : ¬(a.source = a.destination ∧ o.i = o.j)
  nonempty : o.stack.count ≠ 0
  swapExpected_iff : o.swapExpected = true ↔
    ∀ n, room idef o.dstItem o.stack.kind n = 0
  moveCount : o.swapExpected = true → o.action.moveCount.toNat = o.stack.count.toNat
  moveCount_le : o.action.moveCount.toNat ≤ o.stack.count.toNat

theorem amount_ne_zero {count : UInt32} (h : s.count ≠ 0) : amount count s ≠ 0 := by
  have hs : s.count.toNat ≠ 0 := fun hz => h (UInt16.toNat_inj.mp hz)
  unfold amount
  split_ifs with h0
  · exact hs
  · have hn : count.toNat ≠ 0 := fun hz => h0 (UInt32.toNat_inj.mp hz)
    omega

theorem amount_le (count : UInt32) (s : ItemStack) : amount count s ≤ s.count.toNat := by
  unfold amount
  split_ifs <;> omega

omit [DecidableEq ι] in
theorem Prepared.offered {o : Offer ι} (h : Prepared idef a i j s t o) (hmeets : a.Meets w i j s t)
    (h0 : s.count ≠ 0) : Offered idef a w o := by
  obtain ⟨⟨moveCount, haction⟩, rfl, rfl, rfl, rfl, hexpected, hcount⟩ := h
  have hroom := room_le idef o.dstItem o.stack.kind (amount a.count.toUInt32 o.stack)
  have hamount := amount_le a.count.toUInt32 o.stack
  refine ⟨by rw [haction]; rfl, by rw [haction]; rfl, hmeets.source, hmeets.destination, hmeets.ne,
    h0, ?_, fun h => by rw [hcount, if_pos h], ?_⟩
  · rw [hexpected]
    exact ⟨fun h n => room_eq_zero h (amount_ne_zero h0), fun h => h _⟩
  · rw [hcount]
    split_ifs <;> omega

theorem offered_of_some {b : IMoveAction ι} {o : Offer ι} (h : a.prepare idef w = .ok (b, some o)) :
    Offered idef a w o := by
  obtain ⟨i, j, s, t, hmeets, h0, hprepared⟩ := prepared_of_some h
  exact hprepared.offered hmeets h0

section Apply

variable {o : Offer ι} (h : Offered idef a w o)

include h

/-- A swap is allowed only where nothing fits. -/
theorem Offered.room_of_swap (hcb : cb.Finite) (hswap : (o.permit cb).allowSwap = true) (n : ℕ) :
    room idef o.dstItem o.stack.kind n = 0 := by
  refine h.swapExpected_iff.mp ?_ n
  by_contra hf
  have hmove := (o.permits_permit hcb).move (Bool.not_eq_true _ ▸ hf)
  exact absurd (hswap.symm.trans hmove.1) (by decide)

/-- The move that is made, with the slots that it leaves. -/
theorem Offered.perform (hcb : cb.Finite) (hpos : allowed o (o.permit cb) ≠ 0) :
    ∃ moved s' t', IMoveAction.perform idef o (o.permit cb) w.lists = .ok ({ o.action with
        moveCount := moved.count.toUInt32 },
        (w.lists.setSlot a.source o.i s').setSlot a.destination o.j t') ∧
      Moves idef o.stack o.dstItem (allowed o (o.permit cb)).toNat (o.permit cb).allowSwap moved
        (o.permit cb).allowSwap s' t' := by
  have hp := o.permits_permit hcb
  rw [← h.source_eq, ← h.destination_eq]
  exact perform_spec idef (h.source_eq ▸ h.source) (h.destination_eq ▸ h.destination)
    (h.source_eq ▸ h.destination_eq ▸ h.ne) hp.src_ne hp.dst_ne hpos
    fun hswap => h.room_of_swap hcb hswap _

omit [DecidableEq ι] h in
/-- What leaves the source slot, when the stacks are not swapped. -/
theorem leaving_of_moves {n : ℕ} {swap : Bool} {moved s' t' : ItemStack}
    (hmoves : Moves idef s t n swap moved false s' t') (hn : n ≤ s.count.toNat) :
    leaving s s' = room idef t s.kind n := by
  obtain ⟨-, hcount, -, hkind, -⟩ := hmoves.not_swapped rfl
  have hroom := room_le idef t s.kind n
  unfold leaving
  by_cases h0 : s'.count = 0
  · rw [countOf_of_count h0, Nat.sub_zero]
    rw [h0, UInt16.toNat_zero] at hcount
    omega
  · rw [countOf, if_pos (hkind h0)]
    omega

/-- The answers of the callbacks bound what is moved. -/
theorem Offered.answers (hcb : cb.Finite) (hlimits : o.swapExpected = false →
    ∀ r ∈ (o.permit cb).answers, 0 ≤ r.toInt) (hpos : allowed o (o.permit cb) ≠ 0) :
    ((o.permit cb).allowSwap = false ∧ (o.permit cb).swapAnswers = [] ∧
      ∀ r ∈ (o.permit cb).answers, ((allowed o (o.permit cb)).toNat : ℤ) ≤ r.toInt) ∨
    ((o.permit cb).allowSwap = true ∧
      (∀ r ∈ (o.permit cb).answers, (o.stack.count.toNat : ℤ) ≤ r.toInt) ∧
      ∀ r ∈ (o.permit cb).swapAnswers, 0 < r.toInt) := by
  have hp := o.permits_permit hcb
  generalize o.permit cb = p at *
  have hpos' : (allowed o p).toNat ≠ 0 := fun hz => hpos (UInt32.toNat_inj.mp hz)
  cases hexpected : o.swapExpected with
  | false =>
    obtain ⟨hswap, hnone, hmem⟩ := hp.move hexpected
    have hsrc := hlimits hexpected _ ((hmem _).mpr (.inl rfl))
    have hdst := hlimits hexpected _ ((hmem _).mpr (.inr rfl))
    have hallowed := toNat_allowed h.moveCount_le hsrc hdst
    refine .inl ⟨hswap, hnone, fun r hr => ?_⟩
    rcases (hmem r).mp hr with rfl | rfl <;> omega
  | true =>
    have hcount := h.moveCount hexpected
    have hlt := o.stack.count.toNat_lt
    have hsrcItem : o.srcItem.count.toNat = o.stack.count.toNat := by
      rw [Offer.srcItem, UInt32.toNat_toUInt16, hcount, Nat.mod_eq_of_lt hlt]
    rcases hp.swap hexpected with ⟨hswap, hsrc, hdst, -⟩ | ⟨hswap, hsrc, hdst⟩
    · have hdstItem : o.dstItem.count ≠ 0 := by
        intro hz
        have hroom := h.swapExpected_iff.mp hexpected 1
        rw [room, if_pos hz] at hroom
        omega
      have hdstItem' : o.dstItem.count.toNat ≠ 0 := fun hz => hdstItem (UInt16.toNat_inj.mp hz)
      refine .inr ⟨hswap, fun r hr => hsrcItem ▸ hsrc r hr, fun r hr => ?_⟩
      have := hdst r hr
      omega
    · have hallowed := toNat_allowed (p := p) h.moveCount_le (by rw [hsrc]; decide)
        (by rw [hdst]; decide)
      rw [hdst] at hallowed
      simp [hpos'] at hallowed

/-- The move of an offer, when the limits are not negative. -/
theorem Offered.movesAsAllowed (hcb : cb.Finite) (hlimits : o.swapExpected = false →
    ∀ r ∈ (o.permit cb).answers, 0 ≤ r.toInt) {c : IMoveAction ι}
    (hprepare : a.prepare idef w = .ok (c, some o)) (ha : a.moveSomewhere = false) :
    MovesAsAllowed idef cb a w := by
  have hp := o.permits_permit hcb
  have hsome : ∀ b o', a.prepare idef w = .ok (b, some o') → o' = o := by
    intro b o' h'
    rw [hprepare] at h'
    simp only [Except.ok.injEq, Prod.mk.injEq, Option.some.injEq] at h'
    exact h'.2.symm
  by_cases hzero : allowed o (o.permit cb) = 0
  · refine ⟨_, w, by rw [apply_of_slot ha, applySlot_of_some hprepare (perform_of_zero hzero)],
      fun _ _ _ _ => rfl, fun _ => rfl, fun b o' h' => ?_⟩
    rw [hsome b o' h']
    refine ⟨fun r _ => ⟨o.stack, h.source, ?_⟩, fun _ => rfl⟩
    rw [leaving, countOf, if_pos rfl, Nat.sub_self]
    exact le_max_left _ _
  · obtain ⟨moved, s', t', hperform, hmoves⟩ := h.perform hcb hzero
    refine ⟨_, _, by rw [apply_of_slot ha, applySlot_of_some hprepare hperform],
      fun refs hsrc hdest => hmoves.total h.ne h.source h.destination hsrc hdest,
      fun hnone => absurd hprepare (hnone c o), fun b o' h' => ?_⟩
    rw [hsome b o' h']
    have hnonempty : o.stack.count.toNat ≠ 0 := fun hz => h.nonempty (UInt16.toNat_inj.mp hz)
    have hs' := getElem?_pair_left h.ne h.source s' t'
    rcases h.answers hcb hlimits hzero with ⟨hswap, hnone, hle⟩ | ⟨-, hle, hpos⟩
    · -- the items that fit are moved
      rw [hswap] at hmoves
      have hleaving := leaving_of_moves hmoves (allowed_le o _)
      have hroom := room_le idef o.dstItem o.stack.kind (allowed o (o.permit cb)).toNat
      have hzero' : (allowed o (o.permit cb)).toNat ≠ 0 := fun hz => hzero (UInt32.toNat_inj.mp hz)
      refine ⟨fun r hr => ⟨s', hs', ?_⟩, ?_⟩
      · have := hle r hr
        rw [hleaving]
        omega
      · rintro ⟨r, hr, hneg⟩
        rw [hnone, List.append_nil] at hr
        have := hle r hr
        omega
    · -- the stacks are swapped
      refine ⟨fun r hr => ⟨s', hs', ?_⟩, ?_⟩
      · have := hle r hr
        rw [leaving]
        omega
      · rintro ⟨r, hr, hneg⟩
        rcases List.mem_append.mp hr with hr | hr
        · have := hle r hr
          omega
        · have := hpos r hr
          omega

/-- A negative limit, and all of the stack may move. -/
theorem Offered.not_movesAsAllowed (hcb : cb.Finite) (hexpected : o.swapExpected = false)
    {r : Int32} (hr : r ∈ (o.permit cb).answers) (hneg : r.toInt < 0) {c : IMoveAction ι}
    (hprepare : a.prepare idef w = .ok (c, some o)) (ha : a.moveSomewhere = false) :
    ¬MovesAsAllowed idef cb a w := by
  rintro ⟨a', w', happly, -, -, hsome⟩
  have hp := o.permits_permit hcb
  obtain ⟨hswap, -, hmem⟩ := hp.move hexpected
  have hall : (allowed o (o.permit cb)).toNat = o.stack.count.toNat := by
    refine toNat_allowed_of_neg hp.src_ne hp.dst_ne ?_
    rcases (hmem r).mp hr with rfl | rfl
    · exact .inl hneg
    · exact .inr hneg
  have hnonempty : o.stack.count.toNat ≠ 0 := fun hz => h.nonempty (UInt16.toNat_inj.mp hz)
  have hpos : allowed o (o.permit cb) ≠ 0 := by
    intro hz
    rw [hz] at hall
    exact hnonempty hall.symm
  obtain ⟨moved, s', t', hperform, hmoves⟩ := h.perform hcb hpos
  rw [hswap] at hmoves
  -- something fits, so something moves
  have hroom : room idef o.dstItem o.stack.kind o.stack.count.toNat ≠ 0 := by
    intro hz
    have hswap := h.swapExpected_iff.mpr fun n => room_eq_zero hz hnonempty
    exact absurd (hswap.symm.trans hexpected) (by decide)
  have hcount := (hmoves.not_swapped rfl).2.1
  rw [hall] at hcount
  obtain ⟨-, hsame⟩ := hsome c o hprepare
  have hw' := hsame ⟨r, List.mem_append_left _ hr, hneg.le⟩
  rw [apply_of_slot ha, applySlot_of_some hprepare hperform, hw'] at happly
  have hs' := getElem?_pair_left h.ne h.source s' t'
  simp only [Except.ok.injEq, Prod.mk.injEq] at happly
  have hlists : (w.lists.setSlot a.source o.i s').setSlot a.destination o.j t' = w.lists :=
    congrArg Inventories.lists happly.2
  rw [hlists, h.source] at hs'
  obtain rfl := Option.some.inj hs'
  omega

end Apply

/-- With callbacks that never say infinite, a move does what they allow exactly if no limit is
negative where something fits. -/
theorem movesAsAllowed_iff (idef : ItemDefManager) {cb : Callbacks ι} (hcb : cb.Finite)
    (a : IMoveAction ι) (ha : a.moveSomewhere = false) (w : Inventories ι) :
    MovesAsAllowed idef cb a w ↔ LimitsNonneg idef cb a w := by
  constructor
  · intro hmoves b o hprepare hexpected r hr
    by_contra hneg
    exact (offered_of_some hprepare).not_movesAsAllowed hcb hexpected hr (not_le.mp hneg) hprepare ha
      hmoves
  · intro hlimits
    by_cases hsome : ∃ b o, a.prepare idef w = .ok (b, some o)
    · obtain ⟨b, o, hprepare⟩ := hsome
      exact (offered_of_some hprepare).movesAsAllowed hcb (hlimits b o hprepare) hprepare ha
    · obtain ⟨b, o, hprepare⟩ := prepare_total idef a w
      cases o with
      | some o => exact absurd ⟨b, o, hprepare⟩ hsome
      | none =>
        refine ⟨b, w, by rw [apply_of_slot ha, applySlot_of_none hprepare], fun _ _ _ _ => rfl,
          fun _ => rfl, fun b o h => absurd ⟨b, o, h⟩ hsome⟩

/-- Five stones in one inventory, an empty slot in the other, and callbacks that return `r`. -/
def stones : Inventories Bool where
  hasList _ _ := true
  lists r := if r.1 then [{}] else [{ name := bytes "default:stone", count := 5 }]

def always (r : Int32) : Callbacks Bool where
  allowMove _ _ := r
  allowPut _ _ := r
  allowTake _ _ := r

def takeOne : IMoveAction Bool where
  fromInv := false
  fromList := bytes "main"
  fromI := 0
  toInv := true
  toList := bytes "main"
  toI := 0
  count := 1

def anyItem : ItemDefManager := { get := fun _ => {} }

theorem finite_always {r : Int32} (h : r ≠ -1) : (always r).Finite :=
  ⟨fun _ _ => h, fun _ _ => h, fun _ _ => h⟩

theorem mem_answers_always (o : Offer Bool) (r x : Int32) :
    x ∈ (o.permit (always r)).answers ↔ x = r := by
  unfold Offer.permit Offer.permitMove Offer.permitTransfer Offer.permission always
  dsimp only
  split_ifs <;> simp

theorem movesAsAllowed_iff_stones : MovesAsAllowed anyItem (always 1) takeOne stones := by
  refine (movesAsAllowed_iff anyItem (finite_always (by decide)) takeOne rfl stones).mpr ?_
  intro b o _ _ r hr
  rw [(mem_answers_always o 1 r).mp hr]
  decide

/-- The callbacks return -2: all five stones move. -/
theorem not_movesAsAllowed : ¬∀ (idef : ItemDefManager) (cb : Callbacks Bool), cb.Finite →
    ∀ a : IMoveAction Bool, a.moveSomewhere = false → ∀ w, MovesAsAllowed idef cb a w := by
  intro h
  have hcb : (always (-2)).Finite := finite_always (by decide)
  obtain ⟨b, o, hprepare, hexpected⟩ : ∃ b o, takeOne.prepare anyItem stones = .ok (b, some o) ∧
      o.swapExpected = false := ⟨_, _, rfl, rfl⟩
  have hanswer := (mem_answers_always o (-2) (-2)).mpr rfl
  exact (offered_of_some hprepare).not_movesAsAllowed hcb hexpected hanswer (by decide) hprepare rfl
    (h anyItem _ hcb takeOne rfl stones)

end IMoveAction

end Freeminer.Inventory
