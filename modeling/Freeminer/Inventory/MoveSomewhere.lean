import Freeminer.Inventory.MoveSlot

/-! The move-somewhere loop. A slot that `apply` returns from early (the source slot itself, or any
slot once the source is empty) leaves `move_count` as the slot before it left it, and the loop
takes it from the count again. -/

set_option linter.unusedSectionVars false

namespace Freeminer.Inventory

open Lib ItemStack ItemList Lists

/-! ## The counts of the loop -/

/-- A slot that the loop comes to: the source slot, in the loop over the empty slots or in the one
over the others; or another slot, with its room. -/
inductive Visit where
  | source (toEmpty : Bool)
  | slot (room : ℕ)

namespace Visit

def rooms : List Visit → ℕ
  | [] => 0
  | .source _ :: vs => rooms vs
  | .slot room :: vs => room + rooms vs

/-- What remains of the count, what is in the source slot, and what the last slot took. -/
structure Counts where
  count : ℕ
  stack : ℕ
  moveCount : ℕ

/-- `apply` returns early, and the last `move_count` is taken from the count again. -/
def stale (c : Counts) : Option Counts :=
  if c.count < c.moveCount then none else some { c with count := c.count - c.moveCount }

def take (room : ℕ) (c : Counts) : Counts :=
  let moved := min room (min c.count c.stack)
  { count := c.count - moved, stack := c.stack - moved, moveCount := moved }

def step (c : Counts) : Visit → Option Counts
  | .source toEmpty => if decide (c.stack = 0) = toEmpty then stale c else some c
  | .slot room => if c.stack = 0 then stale c else some (take room c)

def run : List Visit → Counts → Option Counts
  | [], c => some c
  | v :: vs, c => if c.count = 0 then some c else (step c v).bind (run vs)

/-- How many items may still move, if there is room for `room`. -/
def due (room : ℕ) (c : Counts) : ℕ := min c.count (min c.stack room)

/-- Taking `move_count` from the count again leaves enough for what may still move. -/
def Spare (room : ℕ) (c : Counts) : Prop :=
  c.moveCount ≤ c.count ∧ due room { c with count := c.count - c.moveCount } = due room c

/-- Every early return leaves enough of the count, and nothing is left for the slots that the loop
does not come to, which have room for `beyond`. -/
def Harmless (beyond : ℕ) : List Visit → Counts → Prop
  | [], c => due beyond c = 0
  | .source toEmpty :: vs, c => c.count = 0 ∨
      if decide (c.stack = 0) = toEmpty then
        Spare (rooms vs + beyond) c ∧ Harmless beyond vs { c with count := c.count - c.moveCount }
      else Harmless beyond vs c
  | .slot room :: vs, c => c.count = 0 ∨
      if c.stack = 0 then
        Spare (rooms vs + beyond) c ∧ Harmless beyond vs { c with count := c.count - c.moveCount }
      else Harmless beyond vs (take room c)

instance (room : ℕ) (c : Counts) : Decidable (Spare room c) :=
  inferInstanceAs (Decidable (_ ∧ _))

instance decidableHarmless (beyond : ℕ) : (vs : List Visit) → (c : Counts) →
    Decidable (Harmless beyond vs c)
  | [], c => inferInstanceAs (Decidable (due beyond c = 0))
  | .source toEmpty :: vs, c =>
    have := decidableHarmless beyond vs
    inferInstanceAs (Decidable (c.count = 0 ∨ if decide (c.stack = 0) = toEmpty then _ ∧ _ else _))
  | .slot _ :: vs, c =>
    have := decidableHarmless beyond vs
    inferInstanceAs (Decidable (c.count = 0 ∨ if c.stack = 0 then _ ∧ _ else _))

variable {vs : List Visit} {c c' : Counts}

theorem run_of_zero (h : c.count = 0) (vs : List Visit) : run vs c = some c := by
  cases vs with
  | nil => rfl
  | cons v vs => rw [run, if_pos h]

theorem run_append (vs vs' : List Visit) (c : Counts) :
    run (vs ++ vs') c = (run vs c).bind (run vs') := by
  induction vs generalizing c with
  | nil => rfl
  | cons v vs ih =>
    rw [List.cons_append, run, run]
    split_ifs with h0
    · exact (run_of_zero h0 vs').symm
    · rw [Option.bind_assoc]
      exact congrArg _ (funext ih)

theorem rooms_append (vs vs' : List Visit) : rooms (vs ++ vs') = rooms vs + rooms vs' := by
  induction vs with
  | nil => rw [List.nil_append, rooms, Nat.zero_add]
  | cons v vs ih =>
    rw [List.cons_append]
    cases v with
    | source toEmpty => exact ih
    | slot room => rw [rooms, rooms, ih, Nat.add_assoc]

theorem stale_eq_some (h : stale c = some c') :
    c.moveCount ≤ c.count ∧ c' = { c with count := c.count - c.moveCount } := by
  unfold stale at h
  split_ifs at h with hlt
  exact ⟨not_lt.mp hlt, (Option.some.inj h).symm⟩

theorem run_le (h : run vs c = some c') : c'.stack ≤ c.stack ∧ c.stack - c'.stack ≤ due (rooms vs) c := by
  induction vs generalizing c with
  | nil =>
    obtain rfl := Option.some.inj h
    simp
  | cons v vs ih =>
    rw [run] at h
    split_ifs at h with h0
    · obtain rfl := Option.some.inj h
      simp
    · obtain ⟨c₁, hstep, hrun⟩ := Option.bind_eq_some_iff.mp h
      have hih := ih hrun
      unfold due at hih ⊢
      cases v with
      | source toEmpty =>
        rw [step] at hstep
        rw [rooms]
        split_ifs at hstep
        · obtain ⟨-, rfl⟩ := stale_eq_some hstep
          dsimp only at hih
          omega
        · obtain rfl := Option.some.inj hstep
          exact hih
      | slot room =>
        rw [step] at hstep
        rw [rooms]
        split_ifs at hstep
        · obtain ⟨-, rfl⟩ := stale_eq_some hstep
          dsimp only at hih
          omega
        · obtain rfl := Option.some.inj hstep
          simp only [take] at hih
          omega

theorem stale_iff {beyond room : ℕ} (hroom : c.stack = 0 ∨ rooms vs + beyond = room)
    (ih : ∀ c : Counts, Harmless beyond vs c ↔
      ∃ c', run vs c = some c' ∧ c'.stack + due (rooms vs + beyond) c = c.stack) :
    (Spare (rooms vs + beyond) c ∧ Harmless beyond vs { c with count := c.count - c.moveCount }) ↔
      ∃ c', (stale c).bind (run vs) = some c' ∧ c'.stack + due room c = c.stack := by
  have hdue : due room c = due (rooms vs + beyond) c := by
    unfold due
    rcases hroom with h | h
    · rw [h, Nat.zero_min, Nat.zero_min]
    · rw [h]
  rw [ih, hdue]
  by_cases hlt : c.count < c.moveCount
  · rw [stale, if_pos hlt, Option.bind_none]
    exact iff_of_false (fun h => absurd h.1.1 (not_le.mpr hlt)) nofun
  · rw [stale, if_neg hlt, Option.bind_some]
    constructor
    · rintro ⟨⟨-, hspare⟩, c', hrun, hstack⟩
      exact ⟨c', hrun, by rwa [← hspare]⟩
    · rintro ⟨c', hrun, hstack⟩
      -- no more moves than may, so the reduced count does not matter
      obtain ⟨hle, hmoved⟩ := run_le hrun
      have hspare : due (rooms vs + beyond) { c with count := c.count - c.moveCount } =
          due (rooms vs + beyond) c := by
        unfold due at *
        dsimp only at *
        omega
      exact ⟨⟨not_lt.mp hlt, hspare⟩, c', hrun, by rwa [hspare]⟩

theorem harmless_iff (beyond : ℕ) (vs : List Visit) (c : Counts) :
    Harmless beyond vs c ↔
      ∃ c', run vs c = some c' ∧ c'.stack + due (rooms vs + beyond) c = c.stack := by
  induction vs generalizing c with
  | nil =>
    rw [Harmless, run, rooms, Nat.zero_add]
    constructor
    · intro h
      exact ⟨c, rfl, by rw [h, Nat.add_zero]⟩
    · rintro ⟨_, ⟨⟩, h⟩
      omega
  | cons v vs ih =>
    by_cases h0 : c.count = 0
    · have hdue : due (rooms (v :: vs) + beyond) c = 0 := by
        rw [due, h0, Nat.zero_min]
      rw [run_of_zero h0, hdue]
      refine iff_of_true ?_ ⟨c, rfl, rfl⟩
      cases v <;> exact .inl h0
    · rw [run, if_neg h0]
      cases v with
      | source toEmpty =>
        rw [Harmless, step, rooms, or_iff_right h0]
        split_ifs
        · exact stale_iff (.inr rfl) ih
        · exact ih c
      | slot room =>
        rw [Harmless, step, rooms, or_iff_right h0]
        split_ifs with hstack
        · exact stale_iff (.inl hstack) ih
        · rw [ih (take room c), Option.bind_some]
          refine exists_congr fun c' => and_congr_right fun hrun => ?_
          unfold due take
          dsimp only
          omega

end Visit

/-! ## The loop -/

variable {ι : Type} [DecidableEq ι]

structure Callbacks.AllowAll (cb : Callbacks ι) : Prop where
  allowMove : ∀ a n, (n.toNat : ℤ) ≤ (cb.allowMove a n).toInt
  allowPut : ∀ a s, (s.count.toNat : ℤ) ≤ (cb.allowPut a s).toInt
  allowTake : ∀ a s, (s.count.toNat : ℤ) ≤ (cb.allowTake a s).toInt

theorem Callbacks.AllowAll.finite {cb : Callbacks ι} (h : cb.AllowAll) : cb.Finite := by
  have hne : ∀ (n : ℕ) (r : Int32), (n : ℤ) ≤ r.toInt → r ≠ -1 := by
    rintro n r hr rfl
    exact absurd (le_trans (Int.natCast_nonneg n) hr) (by decide)
  exact ⟨fun a n => hne _ _ (h.allowMove a n), fun a s => hne _ _ (h.allowPut a s),
    fun a s => hne _ _ (h.allowTake a s)⟩

namespace IMoveAction

def sourceItem (a : IMoveAction ι) (w : Inventories ι) : ItemStack :=
  if 0 ≤ a.fromI then ((w.lists a.source)[a.fromI.toNatClampNeg]?).getD {} else {}

def isSource (a : IMoveAction ι) (j : ℕ) : Bool :=
  decide (a.source = a.destination ∧ 0 ≤ a.fromI ∧ a.fromI.toNatClampNeg = j)

/-- How many of the source items a slot of the destination list has room for. -/
def slotRoom (idef : ItemDefManager) (a : IMoveAction ι) (w : Inventories ι) (j : ℕ) : ℕ :=
  match (w.lists a.destination)[j]? with
  | none => 0
  | some t =>
    if a.isSource j then 0
    else room idef t (a.sourceItem w).kind (a.sourceItem w).count.toNat

/-- The room of some slots of the destination list, the source slot excepted. -/
def roomIn (idef : ItemDefManager) (a : IMoveAction ι) (w : Inventories ι) (is : List ℕ) : ℕ :=
  (is.map (a.slotRoom idef w)).sum

/-- The slots that the loop over the empty slots comes to, or the one over the others. -/
def visits (idef : ItemDefManager) (a : IMoveAction ι) (w : Inventories ι) (toEmpty : Bool) :
    List ℕ → List Visit
  | [] => []
  | j :: is =>
    match (w.lists a.destination)[j]? with
    | none => visits idef a w toEmpty is
    | some t =>
      if a.isSource j then .source toEmpty :: visits idef a w toEmpty is
      else if t.empty = toEmpty then .slot (a.slotRoom idef w j) :: visits idef a w toEmpty is
      else visits idef a w toEmpty is

/-- `s16 dest_size` -/
def destSize (a : IMoveAction ι) (w : Inventories ι) : ℕ :=
  (Int16.ofNat (w.lists a.destination).length).toNatClampNeg

/-- How many items are in the slots of the destination list other than the source slot. -/
def outside (a : IMoveAction ι) (w : Inventories ι) : ℕ :=
  weight (fun s : ItemStack => s.count.toNat) (w.lists a.destination) -
    if a.source = a.destination then (a.sourceItem w).count.toNat else 0

/-- The action succeeds (the count never underflows and the assertion holds), and moves as many
items as are requested, present and have room. -/
def MovesExactly (idef : ItemDefManager) (cb : Callbacks ι) (a : IMoveAction ι)
    (w : Inventories ι) : Prop :=
  let moved := min a.count.toNat (min (a.sourceItem w).count.toNat
    (a.roomIn idef w (List.range (w.lists a.destination).length)))
  ∃ a' w', a.apply idef cb w = .ok (a', w') ∧
    (a.sourceItem w').count.toNat + moved = (a.sourceItem w).count.toNat ∧
    a.outside w' = a.outside w + moved ∧
    ∀ refs : Finset (ι × ByteString), a.source ∈ refs → a.destination ∈ refs →
      ∀ k, w'.lists.total refs k = w.lists.total refs k

/-- No early return takes from the count what is needed, and `dest_size` cuts off no slot that is
needed. -/
def NoHarm (idef : ItemDefManager) (a : IMoveAction ι) (w : Inventories ι) : Prop :=
  Visit.Harmless (a.roomIn idef w ((List.range (w.lists a.destination).length).drop (a.destSize w)))
    (a.visits idef w false (List.range (a.destSize w)) ++
      a.visits idef w true (List.range (a.destSize w)))
    { count := a.count.toNat, stack := (a.sourceItem w).count.toNat
      moveCount := a.moveCount.toNat }

variable {idef : ItemDefManager} {cb : Callbacks ι} {a b : IMoveAction ι} {w₀ w : Inventories ι}
  {pending : ℕ → ItemStack → Prop} {c c' : Visit.Counts} {i j : ℕ} {s t : ItemStack} {is : List ℕ}
  {toEmpty : Bool}

theorem rooms_visits (is : List ℕ) :
    Visit.rooms (a.visits idef w false is) + Visit.rooms (a.visits idef w true is) =
      a.roomIn idef w is := by
  induction is with
  | nil => rfl
  | cons j is ih =>
    unfold visits roomIn
    rw [List.map_cons, List.sum_cons, ← roomIn, ← ih]
    cases ht : (w.lists a.destination)[j]? with
    | none =>
      rw [slotRoom, ht]
      dsimp only
      omega
    | some t =>
      dsimp only
      by_cases hsource : a.isSource j = true
      · rw [slotRoom, ht]
        simp only [hsource, if_true, Visit.rooms]
        omega
      · rw [if_neg hsource, if_neg hsource]
        cases t.empty <;> simp only [Bool.false_eq_true, if_true, if_false, reduceCtorEq,
          Visit.rooms] <;> omega

/-- Where the loop is: the action and the inventories agree with the counts, and the pending slots
are as they were. -/
structure Tracks (a : IMoveAction ι) (w₀ : Inventories ι) (pending : ℕ → ItemStack → Prop)
    (c : Visit.Counts) (b : IMoveAction ι) (w : Inventories ι) : Prop where
  action : ∃ toI, b = { a with
    toI, count := b.count, moveCount := b.moveCount
    causedByMoveSomewhere := true, moveSomewhere := false }
  count : b.count.toNat = c.count
  moveCount : b.moveCount.toNat = c.moveCount
  hasList : w.hasList = w₀.hasList
  stack : (a.sourceItem w).count.toNat = c.stack
  stack_le : c.stack ≤ (a.sourceItem w₀).count.toNat
  kind : c.stack ≠ 0 → (a.sourceItem w).kind = (a.sourceItem w₀).kind
  length : (w.lists a.destination).length = (w₀.lists a.destination).length
  pending : ∀ j t, a.isSource j = false → (w₀.lists a.destination)[j]? = some t → pending j t →
    (w.lists a.destination)[j]? = some t
  nonempty : ∀ j t, a.isSource j = false → (w₀.lists a.destination)[j]? = some t →
    t.count ≠ 0 → ∃ t' : ItemStack, (w.lists a.destination)[j]? = some t' ∧ t'.count ≠ 0
  stored : weight (fun s : ItemStack => s.count.toNat) (w.lists a.destination) +
      (if a.source = a.destination then 0 else c.stack) =
    weight (fun s : ItemStack => s.count.toNat) (w₀.lists a.destination) +
      if a.source = a.destination then 0 else (a.sourceItem w₀).count.toNat
  total : ∀ refs : Finset (ι × ByteString), a.source ∈ refs → a.destination ∈ refs →
    ∀ k, w.lists.total refs k = w₀.lists.total refs k

theorem Tracks.mono {pending' : ℕ → ItemStack → Prop} (h : Tracks a w₀ pending c b w)
    (hp : ∀ j t, (w₀.lists a.destination)[j]? = some t → pending' j t → pending j t) :
    Tracks a w₀ pending' c b w :=
  { h with pending := fun j t hj ht hpending => h.pending j t hj ht (hp j t ht hpending) }

theorem sourceItem_eq (hi : 0 ≤ a.fromI)
    (hs : (w.lists a.source)[a.fromI.toNatClampNeg]? = some s) : a.sourceItem w = s := by
  rw [sourceItem, if_pos hi, hs]
  rfl

theorem exists_source (h : (a.sourceItem w).count ≠ 0) :
    0 ≤ a.fromI ∧ (w.lists a.source)[a.fromI.toNatClampNeg]? = some (a.sourceItem w) := by
  unfold sourceItem at h ⊢
  split_ifs at h ⊢ with hi
  · refine ⟨hi, ?_⟩
    cases hs : (w.lists a.source)[a.fromI.toNatClampNeg]? with
    | none =>
      rw [hs] at h
      exact absurd rfl h
    | some s => rfl
  · exact absurd rfl h

theorem isSource_iff :
    a.isSource j = true ↔ a.source = a.destination ∧ 0 ≤ a.fromI ∧ a.fromI.toNatClampNeg = j := by
  rw [isSource, decide_eq_true_iff]

def tryAt (b : IMoveAction ι) (j : ℕ) : IMoveAction ι := { b with toI := Int16.ofNat j }

theorem toI_tryAt (hj : j < 2 ^ 15) :
    0 ≤ (b.tryAt j).toI ∧ (b.tryAt j).toI.toNatClampNeg = j := by
  refine ⟨?_, Int16.toNatClampNeg_ofNat_of_lt hj⟩
  rw [Int16.le_iff_toInt_le, tryAt, Int16.toInt_ofNat_of_lt hj]
  exact Int.natCast_nonneg j

/-- The source slot, or an empty source: `apply` returns and leaves `move_count` alone. -/
theorem Tracks.applySlot_stale (idef : ItemDefManager) (cb : Callbacks ι)
    (h : Tracks a w₀ pending c b w) (hstale : c.stack = 0 ∨ a.isSource j = true) (hj : j < 2 ^ 15) :
    (b.tryAt j).applySlot idef cb w = .ok (b.tryAt j, w) := by
  refine applySlot_of_none ?_
  by_cases hmeets : ∃ i j' s t, (b.tryAt j).Meets w i j' s t
  · obtain ⟨i, j', s, t, hmeets⟩ := hmeets
    obtain ⟨toI, hb⟩ := h.action
    have hfromI : (b.tryAt j).fromI = a.fromI := by
      rw [tryAt, hb]
    have hsource : (b.tryAt j).source = a.source := by
      rw [tryAt, hb]
      rfl
    have hdest : (b.tryAt j).destination = a.destination := by
      rw [tryAt, hb]
      rfl
    obtain ⟨hi, rfl⟩ := hmeets.fromI
    obtain rfl : j' = j := hmeets.toI.2.symm.trans (toI_tryAt hj).2
    have hs := hmeets.source
    have hne := hmeets.ne
    rw [hsource, hfromI] at hs
    rw [hsource, hdest, hfromI] at hne
    rw [hfromI] at hi
    have hstack : s.count.toNat = c.stack := by
      rw [← h.stack, sourceItem_eq hi hs]
    have hempty : c.stack = 0 :=
      hstale.resolve_right fun hj => hne ⟨(isSource_iff.mp hj).1, (isSource_iff.mp hj).2.2⟩
    have h0 : s.count = 0 := UInt16.toNat_inj.mp (hstack.trans hempty)
    rcases hmeets.prepare idef with ⟨-, h⟩ | ⟨-, hne, -⟩ | ⟨hne, -⟩
    · exact h
    · exact absurd h0 hne
    · exact absurd h0 hne
  · exact prepare_of_not_meets idef hmeets

/-- Callbacks that allow everything limit nothing. -/
theorem allowed_of_allowAll (hcb : cb.AllowAll) {o : Offer ι} (hexpected : o.swapExpected = false)
    (hle : o.action.moveCount.toNat ≤ o.stack.count.toNat) :
    allowed o (o.permit cb) = o.action.moveCount ∧ (o.permit cb).allowSwap = false := by
  have hlt := o.stack.count.toNat_lt
  have hcount : o.srcItem.count.toNat = o.action.moveCount.toNat := by
    rw [Offer.srcItem, UInt32.toNat_toUInt16, Nat.mod_eq_of_lt (by omega)]
  have hmove := hcb.allowMove o.action o.srcItem.count
  have hput := hcb.allowPut o.action o.srcItem
  have htake := hcb.allowTake o.action o.srcItem
  rw [hcount] at hmove hput htake
  obtain ⟨hsrc, hdst, hswap⟩ : (o.action.moveCount.toNat : ℤ) ≤ (o.permit cb).srcCanTakeCount.toInt ∧
      (o.action.moveCount.toNat : ℤ) ≤ (o.permit cb).dstCanPutCount.toInt ∧
      (o.permit cb).allowSwap = false := by
    unfold Offer.permit Offer.permitMove Offer.permitTransfer Offer.permission
    simp only [hexpected, Bool.false_and, Bool.false_eq_true, if_false, ne_eq, not_true_eq_false]
    split_ifs
    · exact ⟨hmove, hmove, rfl⟩
    · exact ⟨htake, hput, rfl⟩
  have hallowed := toNat_allowed hle (le_trans (Int.natCast_nonneg _) hsrc)
    (le_trans (Int.natCast_nonneg _) hdst)
  exact ⟨UInt32.toNat_inj.mp (by omega), hswap⟩

/-- The inventories with the source slot and slot `j` replaced. -/
def replaceSlots (a : IMoveAction ι) (w : Inventories ι) (j : ℕ) (s' t' : ItemStack) :
    Inventories ι where
  hasList := w.hasList
  lists := (w.lists.setSlot a.source a.fromI.toNatClampNeg s').setSlot a.destination j t'

/-- Items move from the source slot to another one. -/
theorem Tracks.move {n : ℕ} {moved s' t' : ItemStack} (h : Tracks a w₀ pending c b w)
    (hmoves : Moves idef (a.sourceItem w) t n false moved false s' t') (hn : n ≤ c.stack)
    (hstack : c.stack ≠ 0) (hj : a.isSource j = false) (ht : (w.lists a.destination)[j]? = some t) (toI : Int16) :
    Tracks a w₀ (fun j' t => pending j' t ∧ j' ≠ j)
      { c with
        stack := c.stack - room idef t (a.sourceItem w).kind n
        moveCount := room idef t (a.sourceItem w).kind n }
      { b with toI, moveCount := moved.count.toUInt32 } (a.replaceSlots w j s' t') := by
  obtain ⟨hmoved, hs', ht', hkind, hkind_t, -⟩ := hmoves.not_swapped rfl
  obtain ⟨hi, hs⟩ := exists_source (a := a) (w := w) (by
    intro h0
    have := h.stack
    rw [h0] at this
    exact hstack this.symm)
  have hne : ¬(a.source = a.destination ∧ a.fromI.toNatClampNeg = j) := fun hsame => by
    rw [isSource_iff.mpr ⟨hsame.1, hi, hsame.2⟩] at hj
    exact absurd hj (by decide)
  have hsource : a.sourceItem (a.replaceSlots w j s' t') = s' :=
    sourceItem_eq hi (getElem?_pair_left hne hs s' t')
  have hother : ∀ j', a.isSource j' = false → j' ≠ j →
      ((a.replaceSlots w j s' t').lists a.destination)[j']? = (w.lists a.destination)[j']? := by
    intro j' hj' hjj
    rw [replaceSlots, getElem?_setSlot_of_ne fun h => hjj h.2.symm, getElem?_setSlot_of_ne]
    intro hsame
    rw [isSource_iff.mpr ⟨hsame.1, hi, hsame.2⟩] at hj'
    exact absurd hj' (by decide)
  obtain ⟨toI', hb⟩ := h.action
  refine ⟨⟨toI, ?_⟩, h.count, ?_, h.hasList, ?_, ?_, ?_, ?_, ?_, ?_, ?_, ?_⟩
  · rw [hb]
  · rw [UInt16.toNat_toUInt32]
    exact hmoved
  · rw [hsource, hs', h.stack]
  · have := h.stack_le
    dsimp only
    omega
  · intro h0
    rw [hsource, ← h.kind hstack]
    refine hkind fun hz => h0 ?_
    rw [hz, UInt16.toNat_zero, h.stack] at hs'
    exact hs'.symm
  · rw [← h.length, replaceSlots, length_setSlot, length_setSlot]
  · rintro j' t₁ hj' ht₁ ⟨hpending, hjj⟩
    rw [hother j' hj' hjj]
    exact h.pending j' t₁ hj' ht₁ hpending
  · intro j' t₁ hj' ht₁ h0
    by_cases hjj : j' = j
    · subst hjj
      refine ⟨t', getElem?_pair_right hne ht s' t', ?_⟩
      obtain ⟨t₂, ht₂, h0'⟩ := h.nonempty j' t₁ hj' ht₁ h0
      obtain rfl := Option.some.inj (ht₂.symm.trans ht)
      exact ne_zero_of_le (by omega) h0'
    · rw [hother j' hj' hjj]
      exact h.nonempty j' t₁ hj' ht₁ h0
  · have hstored := h.stored
    have hstack_eq := h.stack
    have hroom := room_le idef t (a.sourceItem w).kind n
    have hweight := weight_pair hne hs ht (fun s : ItemStack => s.count.toNat) s' t'
    dsimp only [replaceSlots] at hweight ⊢
    split_ifs at hstored hweight ⊢ <;> omega
  · intro refs hsrc hdest k
    rw [← h.total refs hsrc hdest k]
    exact hmoves.total hne hs ht hsrc hdest k

structure HasLists (a : IMoveAction ι) (w : Inventories ι) : Prop where
  source : w.hasList a.fromInv a.fromList = true
  destination : w.hasList a.toInv a.toList = true

/-- Nothing moved: the slot that was tried took nothing. -/
theorem Tracks.none_moved (h : Tracks a w₀ pending c b w) (toI : Int16) :
    Tracks a w₀ (fun j' t => pending j' t ∧ j' ≠ j) { c with moveCount := 0 }
      { b with toI, moveCount := 0 } w := by
  obtain ⟨toI', hb⟩ := h.action
  exact { h with
    action := ⟨toI, by rw [hb]⟩
    moveCount := rfl
    pending := fun j' t hj' ht hpending => h.pending j' t hj' ht hpending.1 }

/-- Another slot takes as many as are requested, present and have room. -/
theorem Tracks.applySlot_move (idef : ItemDefManager) (h : Tracks a w₀ pending c b w)
    (hcb : cb.AllowAll) (hlists : a.HasLists w₀) (hcount : c.count ≠ 0) (hstack : c.stack ≠ 0)
    (hj : a.isSource j = false) (hlt : j < 2 ^ 15) (ht : (w₀.lists a.destination)[j]? = some t)
    (hpending : pending j t) :
    ∃ b' w', (b.tryAt j).applySlot idef cb w = .ok (b', w') ∧ b'.count = b.count ∧
      Tracks a w₀ (fun j' t => pending j' t ∧ j' ≠ j)
        { Visit.take (a.slotRoom idef w₀ j) c with count := c.count } b' w' := by
  have ht' := h.pending j t hj ht hpending
  have hstack' : (a.sourceItem w).count ≠ 0 := by
    intro h0
    have := h.stack
    rw [h0] at this
    exact hstack this.symm
  obtain ⟨hi, hs⟩ := exists_source hstack'
  obtain ⟨toI, hb⟩ := h.action
  have hfromI : (b.tryAt j).fromI = a.fromI := by
    rw [tryAt, hb]
  have hsource : (b.tryAt j).source = a.source := by
    rw [tryAt, hb]
    rfl
  have hdest : (b.tryAt j).destination = a.destination := by
    rw [tryAt, hb]
    rfl
  have hne : ¬(a.source = a.destination ∧ a.fromI.toNatClampNeg = j) := fun hsame => by
    rw [isSource_iff.mpr ⟨hsame.1, hi, hsame.2⟩] at hj
    exact absurd hj (by decide)
  have hmeets : (b.tryAt j).Meets w a.fromI.toNatClampNeg j (a.sourceItem w) t := by
    refine ⟨?_, ?_, ?_, toI_tryAt hlt, hsource ▸ hs, hdest ▸ ht', hsource ▸ hdest ▸ hne⟩
    · rw [tryAt, hb, h.hasList]
      exact hlists.source
    · rw [tryAt, hb, h.hasList]
      exact hlists.destination
    · rw [hfromI]
      exact ⟨hi, rfl⟩
  -- the room for what is requested and present
  have hamount : amount (b.tryAt j).count.toUInt32 (a.sourceItem w) = min c.count c.stack := by
    have h0 : (b.tryAt j).count.toUInt32 ≠ 0 := by
      intro hz
      refine hcount ?_
      rw [← h.count, ← UInt16.toNat_toUInt32]
      exact congrArg UInt32.toNat hz
    rw [amount, if_neg h0, UInt16.toNat_toUInt32, h.stack, ← h.count]
    rfl
  have hmoved : room idef t (a.sourceItem w).kind (min c.count c.stack) =
      (Visit.take (a.slotRoom idef w₀ j) c).moveCount := by
    have hle := h.stack_le
    rw [h.kind hstack, room_of_le (m := (a.sourceItem w₀).count.toNat) (by omega), Visit.take,
      slotRoom, ht, min_comm]
    simp only [hj, Bool.false_eq_true, if_false]
  rcases hmeets.prepare idef with ⟨h0, -⟩ | ⟨-, -, hroom, hprepare⟩ | ⟨-, o, hprepare, ho, hcaused⟩
  · exact absurd h0 hstack'
  · -- there is no room
    refine ⟨_, w, applySlot_of_none hprepare, rfl, ?_⟩
    rw [hamount, hmoved] at hroom
    have htake : ({ Visit.take (a.slotRoom idef w₀ j) c with count := c.count } : Visit.Counts) =
        { c with moveCount := 0 } := by
      unfold Visit.take at hroom ⊢
      dsimp only at hroom ⊢
      rw [hroom, Nat.sub_zero]
    rw [htake]
    exact h.none_moved _
  · have hexpected : o.swapExpected = false := hcaused (by rw [tryAt, hb])
    have hoffered := ho.offered hmeets hstack'
    have hmoveCount := ho.moveCount
    rw [hexpected, if_neg Bool.false_ne_true, hamount, hmoved] at hmoveCount
    obtain ⟨hallowed, hswap⟩ := allowed_of_allowAll hcb hexpected hoffered.moveCount_le
    have hpos : allowed o (o.permit cb) ≠ 0 := by
      intro hz
      rw [hallowed] at hz
      have hroom := ho.swapExpected_iff.mpr (by rw [hamount, hmoved, ← hmoveCount, hz]; rfl)
      exact absurd (hroom.symm.trans hexpected) (by decide)
    obtain ⟨moved, s', t', hperform, hmoves⟩ := hoffered.perform hcb.finite hpos
    obtain ⟨⟨moveCount, haction⟩, hoi, hoj, hostack, hodst, -, -⟩ := ho
    rw [hswap, hallowed, hmoveCount, hostack, hodst] at hmoves
    rw [hsource, hdest, hoi, hoj] at hperform
    have hn : (Visit.take (a.slotRoom idef w₀ j) c).moveCount ≤ c.stack := by
      rw [← hmoved]
      have := room_le idef t (a.sourceItem w).kind (min c.count c.stack)
      omega
    have hroom : room idef t (a.sourceItem w).kind (Visit.take (a.slotRoom idef w₀ j) c).moveCount =
        (Visit.take (a.slotRoom idef w₀ j) c).moveCount := by
      have hle := room_le idef t (a.sourceItem w).kind (min c.count c.stack)
      rw [hmoved] at hle
      rw [room_of_le hle, hmoved, min_self]
    have htracks := h.move hmoves hn hstack hj ht' (Int16.ofNat j)
    rw [hroom] at htracks
    refine ⟨_, _, applySlot_of_some hprepare hperform, ?_, ?_⟩
    · rw [haction]
      rfl
    · rw [haction]
      exact htracks

/-- The count is reduced by what the slot left in `move_count`. -/
theorem Tracks.reduce (h : Tracks a w₀ pending c b w) (hle : c.moveCount ≤ c.count) :
    ¬b.count.toUInt32 < b.moveCount ∧
      Tracks a w₀ pending { c with count := c.count - c.moveCount }
        { b with count := b.count - b.moveCount.toUInt16 } w := by
  have hlt := b.count.toNat_lt
  have hcount := h.count
  have hmove := h.moveCount
  have hmove' : b.moveCount.toUInt16.toNat = c.moveCount := by
    rw [UInt32.toNat_toUInt16]
    omega
  constructor
  · rw [UInt32.lt_iff_toNat_lt, UInt16.toNat_toUInt32]
    omega
  · obtain ⟨toI, hb⟩ := h.action
    refine { h with action := ⟨toI, by rw [hb]⟩, count := ?_ }
    rw [UInt16.toNat_sub_of_le _ _ (by rw [UInt16.le_iff_toNat_le]; omega), hcount, hmove']

theorem Tracks.addTo_stale (idef : ItemDefManager) (cb : Callbacks ι)
    (h : Tracks a w₀ pending c b w) (hstale : c.stack = 0 ∨ a.isSource j = true)
    (hj : j < 2 ^ 15) :
    (Visit.stale c = none ∧ b.addTo idef cb j w = .error .assertion) ∨
      ∃ c' b', Visit.stale c = some c' ∧ b.addTo idef cb j w = .ok (b', w) ∧
        Tracks a w₀ pending c' b' w := by
  obtain ⟨toI, hb⟩ := h.action
  have htry : Tracks a w₀ pending c (b.tryAt j) w :=
    { h with action := ⟨_, by rw [tryAt, hb]⟩ }
  have hslot := h.applySlot_stale idef cb hstale hj
  unfold addTo Visit.stale
  rw [← tryAt, hslot]
  simp only [bind, Except.bind]
  by_cases hlt : c.count < c.moveCount
  · have hover : (b.tryAt j).count.toUInt32 < (b.tryAt j).moveCount := by
      rw [UInt32.lt_iff_toNat_lt, UInt16.toNat_toUInt32, htry.count, htry.moveCount]
      exact hlt
    rw [if_pos hlt, if_pos hover]
    exact .inl ⟨rfl, rfl⟩
  · obtain ⟨hover, hreduce⟩ := htry.reduce (not_lt.mp hlt)
    rw [if_neg hlt, if_neg hover]
    exact .inr ⟨_, _, rfl, rfl, hreduce⟩

theorem Tracks.addTo_move (idef : ItemDefManager) (h : Tracks a w₀ pending c b w)
    (hcb : cb.AllowAll) (hlists : a.HasLists w₀) (hcount : c.count ≠ 0) (hstack : c.stack ≠ 0)
    (hj : a.isSource j = false) (hlt : j < 2 ^ 15) (ht : (w₀.lists a.destination)[j]? = some t)
    (hpending : pending j t) :
    ∃ b' w', b.addTo idef cb j w = .ok (b', w') ∧
      Tracks a w₀ (fun j' t => pending j' t ∧ j' ≠ j) (Visit.take (a.slotRoom idef w₀ j) c) b' w' := by
  obtain ⟨b', w', hslot, -, htracks⟩ :=
    h.applySlot_move idef hcb hlists hcount hstack hj hlt ht hpending
  obtain ⟨hover, hreduce⟩ := htracks.reduce (by
    unfold Visit.take
    dsimp only
    omega)
  unfold addTo
  rw [← tryAt, hslot]
  simp only [bind, Except.bind]
  rw [if_neg hover]
  exact ⟨_, _, rfl, hreduce⟩

def Pending (toEmpty : Bool) (is : List ℕ) (j : ℕ) (t : ItemStack) : Prop :=
  t.empty = toEmpty ∧ j ∈ is ∨ toEmpty = false ∧ t.empty = true

/-- A loop does what the counts say, and fails only where they run out. -/
theorem applyLoop_spec (idef : ItemDefManager) (hcb : cb.AllowAll) (hlists : a.HasLists w₀)
    (hnodup : is.Nodup) (his : ∀ j ∈ is, j < 2 ^ 15 ∧ j < (w₀.lists a.destination).length)
    (h : Tracks a w₀ (Pending toEmpty is) c b w) :
    (Visit.run (a.visits idef w₀ toEmpty is) c = none ∧
      applyLoop idef cb toEmpty is b w = .error .assertion) ∨
    ∃ c' b' w', Visit.run (a.visits idef w₀ toEmpty is) c = some c' ∧
      applyLoop idef cb toEmpty is b w = .ok (b', w') ∧
      Tracks a w₀ (Pending toEmpty []) c' b' w' := by
  induction is generalizing c b w with
  | nil => exact .inr ⟨c, b, w, rfl, rfl, h⟩
  | cons j is ih =>
    obtain ⟨hlt, hlen⟩ := his j (List.mem_cons_self ..)
    have his' : ∀ j ∈ is, j < 2 ^ 15 ∧ j < (w₀.lists a.destination).length := fun j hj =>
      his j (List.mem_cons_of_mem _ hj)
    obtain ⟨hnot, hnodup'⟩ := List.nodup_cons.mp hnodup
    have hmono : ∀ j' t', Pending toEmpty is j' t' → Pending toEmpty (j :: is) j' t' :=
      fun j' t' => Or.imp_left fun h => ⟨h.1, List.mem_cons_of_mem _ h.2⟩
    have hrest := h.mono fun j' t' _ => hmono j' t'
    by_cases h0 : c.count = 0
    · refine .inr ⟨c, b, w, Visit.run_of_zero h0 _, ?_, h.mono fun j' t' _ => ?_⟩
      · rw [applyLoop, if_pos (UInt16.toNat_inj.mp (h.count.trans (h0.trans UInt16.toNat_zero.symm)))]
      · exact Or.imp_left fun h => absurd h.2 (List.not_mem_nil)
    have hb0 : b.count ≠ 0 := fun hz => h0 (by rw [← h.count, hz]; rfl)
    have hdest : b.destination = a.destination := by
      obtain ⟨toI, hb⟩ := h.action
      rw [hb]
      rfl
    obtain ⟨t, ht⟩ : ∃ t, (w₀.lists a.destination)[j]? = some t :=
      ⟨_, List.getElem?_eq_getElem hlen⟩
    obtain ⟨slot, hslot⟩ : ∃ slot, (w.lists a.destination)[j]? = some slot :=
      ⟨_, List.getElem?_eq_getElem (h.length ▸ hlen)⟩
    -- an early return
    have hstale (hstale : c.stack = 0 ∨ a.isSource j = true) :
        ((Visit.stale c).bind (Visit.run (a.visits idef w₀ toEmpty is)) = none ∧
          (b.addTo idef cb j w >>= fun r => applyLoop idef cb toEmpty is r.1 r.2) =
            .error .assertion) ∨
        ∃ c' b' w', (Visit.stale c).bind (Visit.run (a.visits idef w₀ toEmpty is)) = some c' ∧
          (b.addTo idef cb j w >>= fun r => applyLoop idef cb toEmpty is r.1 r.2) = .ok (b', w') ∧
          Tracks a w₀ (Pending toEmpty []) c' b' w' := by
      rcases hrest.addTo_stale idef cb hstale hlt with ⟨hnone, hadd⟩ | ⟨c₁, b₁, hsome, hadd, htracks⟩
      · rw [hnone, hadd]
        exact .inl ⟨rfl, rfl⟩
      · rw [hsome, hadd]
        exact ih hnodup' his' htracks
    rw [applyLoop, if_neg hb0, hdest, getItem_of_some hslot]
    unfold visits
    rw [ht]
    simp only [bind, Except.bind]
    by_cases hj : a.isSource j = true
    · rw [if_pos hj, Visit.run, if_neg h0, Visit.step]
      have hempty : slot.empty = decide (c.stack = 0) := by
        obtain ⟨hsame, hi, hij⟩ := isSource_iff.mp hj
        rw [← hsame, ← hij] at hslot
        rw [← h.stack, sourceItem_eq hi hslot, ItemStack.empty, Bool.eq_iff_iff, beq_iff_eq,
          decide_eq_true_iff, ← UInt16.toNat_inj]
        rfl
      rw [hempty]
      by_cases hvisit : decide (c.stack = 0) = toEmpty
      · rw [if_pos hvisit, if_neg (not_not.mpr hvisit)]
        exact hstale (.inr hj)
      · rw [if_neg hvisit, if_pos hvisit]
        exact ih hnodup' his' hrest
    · rw [if_neg hj]
      rw [Bool.not_eq_true] at hj
      by_cases hvisit : t.empty = toEmpty
      · have hslot' := h.pending j t hj ht (.inl ⟨hvisit, List.mem_cons_self ..⟩)
        obtain rfl := Option.some.inj (hslot'.symm.trans hslot)
        rw [if_pos hvisit, if_neg (not_not.mpr hvisit), Visit.run, if_neg h0, Visit.step]
        by_cases hstack : c.stack = 0
        · rw [if_pos hstack]
          exact hstale (.inl hstack)
        · rw [if_neg hstack, Option.bind_some]
          obtain ⟨b₁, w₁, hadd, htracks⟩ := h.addTo_move idef hcb hlists h0 hstack hj hlt ht
            (.inl ⟨hvisit, List.mem_cons_self ..⟩)
          rw [hadd]
          refine ih hnodup' his' (htracks.mono fun j' t' ht' hp => ⟨hmono j' t' hp, ?_⟩)
          rintro rfl
          rcases hp with ⟨-, hmem⟩ | ⟨hfalse, hempty⟩
          · exact hnot hmem
          · obtain rfl := Option.some.inj (ht'.symm.trans ht)
            rw [hempty, hfalse] at hvisit
            exact absurd hvisit (by decide)
      · have hskip : slot.empty ≠ toEmpty := by
          cases hempty : t.empty with
          | true =>
            have hfalse : toEmpty = false := by
              cases toEmpty with
              | false => rfl
              | true => exact absurd hempty hvisit
            have hslot' := h.pending j t hj ht (.inr ⟨hfalse, hempty⟩)
            obtain rfl := Option.some.inj (hslot'.symm.trans hslot)
            exact hvisit
          | false =>
            obtain ⟨slot', hslot', h0'⟩ := h.nonempty j t hj ht fun hz => by
              rw [empty_iff.mpr hz] at hempty
              exact absurd hempty (by decide)
            obtain rfl := Option.some.inj (hslot'.symm.trans hslot)
            rw [hempty] at hvisit
            intro hs
            rw [← hs] at hvisit
            exact h0' (empty_iff.mp (by simpa using hvisit))
        rw [if_neg hvisit, if_pos hskip]
        exact ih hnodup' his' hrest

def counts (a : IMoveAction ι) (w : Inventories ι) : Visit.Counts where
  count := a.count.toNat
  stack := (a.sourceItem w).count.toNat
  moveCount := a.moveCount.toNat

theorem destSize_le (a : IMoveAction ι) (w : Inventories ι) :
    a.destSize w ≤ (w.lists a.destination).length := by
  unfold destSize
  generalize (w.lists a.destination).length = n
  have h : (Int16.ofNat n).toInt = (n : ℤ).bmod (2 ^ 16) := Int16.toInt_ofNat
  rw [← Int16.toNat_toInt, h, Int.bmod_def]
  split_ifs <;> omega

theorem roomIn_range (idef : ItemDefManager) (a : IMoveAction ι) (w : Inventories ι) :
    a.roomIn idef w (List.range (a.destSize w)) +
      a.roomIn idef w ((List.range (w.lists a.destination).length).drop (a.destSize w)) =
    a.roomIn idef w (List.range (w.lists a.destination).length) := by
  have hsplit := List.take_append_drop (a.destSize w) (List.range (w.lists a.destination).length)
  rw [List.take_range, Nat.min_eq_left (a.destSize_le w)] at hsplit
  conv_rhs => rw [← hsplit]
  unfold roomIn
  rw [List.map_append, List.sum_append]

theorem Tracks.init (a : IMoveAction ι) (w : Inventories ι)
    (pending : ℕ → ItemStack → Prop) :
    Tracks a w pending (a.counts w)
      { a with causedByMoveSomewhere := true, moveSomewhere := false } w where
  action := ⟨a.toI, rfl⟩
  count := rfl
  moveCount := rfl
  hasList := rfl
  stack := rfl
  stack_le := le_rfl
  kind _ := rfl
  length := rfl
  pending _ _ _ h _ := h
  nonempty _ t _ h h0 := ⟨t, h, h0⟩
  stored := rfl
  total _ _ _ _ := rfl

/-- The whole action does what the counts say. -/
theorem apply_spec (idef : ItemDefManager) (hcb : cb.AllowAll) (ha : a.moveSomewhere = true)
    (hlists : a.HasLists w) :
    (Visit.run (a.visits idef w false (List.range (a.destSize w)) ++
        a.visits idef w true (List.range (a.destSize w))) (a.counts w) = none ∧
      a.apply idef cb w = .error .assertion) ∨
    ∃ c' b' a' w', Visit.run (a.visits idef w false (List.range (a.destSize w)) ++
        a.visits idef w true (List.range (a.destSize w))) (a.counts w) = some c' ∧
      a.apply idef cb w = .ok (a', w') ∧ Tracks a w (Pending true []) c' b' w' := by
  have hbound : ∀ j ∈ List.range (a.destSize w), j < 2 ^ 15 ∧ j < (w.lists a.destination).length := by
    intro j hj
    have hj' := List.mem_range.mp hj
    exact ⟨hj'.trans (Int16.toNatClampNeg_lt _), hj'.trans_le (a.destSize_le w)⟩
  rw [Visit.run_append]
  unfold apply
  rw [if_neg (by simp [hlists.source, hlists.destination]), if_pos ha]
  dsimp only
  rw [← destSize]
  rcases applyLoop_spec idef hcb hlists List.nodup_range hbound (.init a w _) with
    ⟨hnone, hloop⟩ | ⟨c₁, b₁, w₁, hsome, hloop, htracks⟩
  · rw [hnone, hloop]
    exact .inl ⟨rfl, rfl⟩
  · rw [hsome, hloop]
    have hpending := htracks.mono fun j t _ (h : Pending true (List.range (a.destSize w)) j t) =>
      .inr ⟨rfl, h.elim And.left fun h => absurd h.1 (by decide)⟩
    rcases applyLoop_spec idef hcb hlists List.nodup_range hbound hpending with
      ⟨hnone, hloop'⟩ | ⟨c₂, b₂, w₂, hsome', hloop', htracks'⟩
    · simp only [bind, Except.bind, hloop', Option.bind_some, hnone]
      exact .inl ⟨trivial, trivial⟩
    · simp only [bind, Except.bind, hloop', Option.bind_some, hsome']
      exact .inr ⟨c₂, b₂, _, w₂, rfl, rfl, htracks'⟩

/-- The source slot is one of the slots of its list. -/
theorem sourceItem_le (a : IMoveAction ι) (w : Inventories ι) :
    (a.sourceItem w).count.toNat ≤ weight (fun s : ItemStack => s.count.toNat) (w.lists a.source) := by
  by_cases h0 : (a.sourceItem w).count = 0
  · rw [h0]
    exact Nat.zero_le _
  · have hset := weight_set (w := fun s : ItemStack => s.count.toNat) (exists_source h0).2 {}
    dsimp only at hset
    rw [UInt16.toNat_zero] at hset
    omega

/-- What left the source slot is outside of it. -/
theorem Tracks.outside_eq {n : ℕ} (h : Tracks a w₀ pending c b w)
    (hn : c.stack + n = (a.sourceItem w₀).count.toNat) : a.outside w = a.outside w₀ + n := by
  have hstored := h.stored
  have hstack := h.stack
  have hle := a.sourceItem_le w₀
  unfold outside
  split_ifs at hstored ⊢ with hsame
  · rw [hsame] at hle
    omega
  · omega

/-- With callbacks that allow everything, as many items move as are requested, present and have
room, exactly if no early return takes too much from the count. -/
theorem movesExactly_iff (idef : ItemDefManager) (hcb : cb.AllowAll) (ha : a.moveSomewhere = true)
    (hlists : a.HasLists w) : MovesExactly idef cb a w ↔ NoHarm idef a w := by
  have hroom : Visit.rooms (a.visits idef w false (List.range (a.destSize w)) ++
      a.visits idef w true (List.range (a.destSize w))) +
      a.roomIn idef w ((List.range (w.lists a.destination).length).drop (a.destSize w)) =
      a.roomIn idef w (List.range (w.lists a.destination).length) := by
    rw [Visit.rooms_append, rooms_visits, roomIn_range]
  have hharm := Visit.harmless_iff
    (a.roomIn idef w ((List.range (w.lists a.destination).length).drop (a.destSize w)))
    (a.visits idef w false (List.range (a.destSize w)) ++
      a.visits idef w true (List.range (a.destSize w))) (a.counts w)
  rw [hroom] at hharm
  unfold NoHarm MovesExactly
  rw [← counts, hharm]
  dsimp only
  rcases apply_spec idef hcb ha hlists with
    ⟨hnone, happly⟩ | ⟨c', b', a', w', hsome, happly, htracks⟩
  · rw [hnone, happly]
    exact iff_of_false nofun nofun
  · rw [hsome, happly]
    constructor
    · rintro ⟨_, _, ⟨⟩, hstack, -⟩
      rw [htracks.stack] at hstack
      exact ⟨c', rfl, hstack⟩
    · rintro ⟨_, ⟨⟩, hstack⟩
      exact ⟨a', w', rfl, by rw [htracks.stack]; exact hstack, htracks.outside_eq hstack,
        htracks.total⟩

instance (idef : ItemDefManager) (a : IMoveAction ι) (w : Inventories ι) :
    Decidable (NoHarm idef a w) :=
  inferInstanceAs (Decidable (Visit.Harmless _ _ _))

/-- Three stones in one inventory, and two empty slots in the other. -/
def threeStones : Inventories Bool where
  hasList _ _ := true
  lists r := if r.1 then [{}, {}] else [{ name := bytes "default:stone", count := 3 }]

def takeSome (count : UInt16) : IMoveAction Bool :=
  { takeOne with toI := -1, count, moveSomewhere := true }

theorem allowAll_always : (always 65535).AllowAll := by
  have h : ∀ n : UInt16, (n.toNat : ℤ) ≤ (65535 : Int32).toInt := by
    intro n
    have := n.toNat_lt
    rw [show (65535 : Int32).toInt = 65535 from rfl]
    omega
  exact ⟨fun _ n => h n, fun _ s => h s.count, fun _ s => h s.count⟩

theorem movesExactly_iff_stones : MovesExactly anyItem (always 65535) (takeSome 2) threeStones :=
  (movesExactly_iff anyItem allowAll_always rfl ⟨rfl, rfl⟩).mpr (by decide)

/-- Five of three stones are requested: the second slot finds the source empty, and the three that
the first slot took are taken from the count again. -/
theorem not_movesExactly : ¬∀ (idef : ItemDefManager) (cb : Callbacks Bool), cb.AllowAll →
    ∀ a : IMoveAction Bool, a.moveSomewhere = true → a.moveCount = 0 → ∀ w, a.HasLists w →
      MovesExactly idef cb a w := by
  intro h
  obtain ⟨a', w', happly, -⟩ :=
    h anyItem _ allowAll_always (takeSome 5) rfl rfl threeStones ⟨rfl, rfl⟩
  have hfails : (takeSome 5).apply anyItem (always 65535) threeStones = .error .assertion := rfl
  rw [hfails] at happly
  cases happly

end IMoveAction

end Freeminer.Inventory
