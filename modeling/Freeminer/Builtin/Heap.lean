import Mathlib.Algebra.BigOperators.Intervals
import Mathlib.Data.List.Sort
import Freeminer.Lib.Machine

/-! The binary heap of `builtin/common/after.lua`: an array from index 1 on in which the parent of
index `i` is at `i / 2`. -/

namespace Freeminer.Builtin

open Function (update)
open Lib

variable {α : Type} [LinearOrder α]

/-- What is beyond `length` has no meaning. -/
structure Heap (α : Type) where
  length : ℕ
  get : ℕ → α

namespace Heap

/-- The loop of `heap_push`, from an index that is free for the element or for its parent. -/
def bubbleUp (element : α) (heap : ℕ → α) (index : ℕ) : ℕ → α :=
  if index > 1 ∧ element < heap (index / 2) then
    bubbleUp element (update heap index (heap (index / 2))) (index / 2)
  else update heap index element
termination_by index

def heapPush (h : Heap α) (element : α) : Heap α :=
  ⟨h.length + 1, bubbleUp element h.get (h.length + 1)⟩

/-- The index of the smallest of the element and the two children. -/
def smallest (element : α) (length : ℕ) (heap : ℕ → α) (index : ℕ) : ℕ :=
  let left := if index * 2 ≤ length ∧ heap (index * 2) < element
    then (index * 2, heap (index * 2)) else (index, element)
  if index * 2 + 1 ≤ length ∧ heap (index * 2 + 1) < left.2 then index * 2 + 1 else left.1

theorem smallest_cases (x : α) (n : ℕ) (f : ℕ → α) (i : ℕ) : smallest x n f i = i ∨
    (i < smallest x n f i ∧ smallest x n f i ≤ n ∧ smallest x n f i / 2 = i ∧
      f (smallest x n f i) < x) := by
  unfold smallest
  grind

/-- The loop of `heap_pop`. -/
def sinkDown (element : α) (length : ℕ) (heap : ℕ → α) (index : ℕ) : ℕ → α :=
  if smallest element length heap index ≠ index then
    sinkDown element length (update heap index (heap (smallest element length heap index)))
      (smallest element length heap index)
  else update heap index element
termination_by length - index
decreasing_by
  obtain hsame | hchild := smallest_cases element length heap index
  · contradiction
  · omega

/-- The heap is not empty. -/
def heapPop (h : Heap α) : Heap α × α :=
  let removed := h.get 1
  let element := h.get h.length
  let length := h.length - 1
  (⟨length, if length > 0 then sinkDown element length h.get 1 else h.get⟩, removed)

/-- A parent is never greater than its children. -/
def Ordered (h : Heap α) : Prop := ∀ j, 1 < j → j ≤ h.length → h.get (j / 2) ≤ h.get j

def content (h : Heap α) : Multiset α := ∑ k ∈ Finset.Icc 1 h.length, {h.get k}

section Content

omit [LinearOrder α]

variable {h : Heap α} {x : α} {i j n : ℕ}

/-- An element moves from an index to another, whose element takes its place. -/
theorem content_move (f : ℕ → α) (x : α) (hi : 1 ≤ i ∧ i ≤ n) (hj : 1 ≤ j ∧ j ≤ n) (hne : i ≠ j) :
    content ⟨n, update (update f i (f j)) j x⟩ = content ⟨n, update f i x⟩ := by
  have hswap : update (update f i (f j)) j x = update f i x ∘ Equiv.swap i j := by
    rw [Equiv.comp_swap_eq_update]
    funext k
    simp only [Function.update_apply]
    grind
  unfold content
  dsimp only
  rw [hswap]
  refine Equiv.Perm.sum_comp (Equiv.swap i j) _ (fun k => {update f i x k}) fun k hk => ?_
  have hk : k = i ∨ k = j := by
    by_contra hnot
    rw [not_or] at hnot
    exact hk (Equiv.swap_apply_of_ne_of_ne hnot.1 hnot.2)
  rw [Finset.coe_Icc, Set.mem_Icc]
  rcases hk with rfl | rfl
  · exact hi
  · exact hj

theorem content_succ (f : ℕ → α) (n : ℕ) :
    content ⟨n + 1, f⟩ = f (n + 1) ::ₘ content ⟨n, f⟩ := by
  rw [content, Finset.sum_Icc_succ_top (by omega), add_comm]
  rfl

theorem content_update_of_lt (f : ℕ → α) (x : α) (hi : n < i) :
    content ⟨n, update f i x⟩ = content ⟨n, f⟩ := by
  refine Finset.sum_congr rfl fun k hk => ?_
  have hle := (Finset.mem_Icc.mp hk).2
  dsimp only at hle ⊢
  rw [Function.update_of_ne (by omega)]

theorem mem_content : x ∈ h.content ↔ ∃ k, 1 ≤ k ∧ k ≤ h.length ∧ h.get k = x := by
  simp [content, Multiset.mem_sum, and_assoc, eq_comm]

end Content

variable {h : Heap α} {x : α} {n : ℕ}

/-- With the element at the index, only the edge to its parent may be out of order. -/
theorem bubbleUp_spec (f : ℕ → α) (i : ℕ) (hi : 1 ≤ i ∧ i ≤ n)
    (hedges : ∀ j, 1 < j → j ≤ n → j ≠ i → update f i x (j / 2) ≤ update f i x j)
    (hover : ∀ j, 1 < i → j ≤ n → j / 2 = i → f (i / 2) ≤ f j) :
    Ordered ⟨n, bubbleUp x f i⟩ ∧ content ⟨n, bubbleUp x f i⟩ = content ⟨n, update f i x⟩ := by
  induction f, i using bubbleUp.induct x with
  | case1 f i hlt ih =>
    rw [bubbleUp, if_pos hlt, ← content_move f x hi (j := i / 2) (by omega) (by omega)]
    simp only [Function.update_apply] at hedges ih ⊢
    refine ih (by omega) (fun j hj hle hne => ?_) (fun j h1 hle hhalf => ?_)
    · have := hedges j hj hle
      have := hover j
      grind
    · have := hedges j (by omega) hle
      have := hedges (i / 2) h1 (by omega) (by omega)
      grind
  | case2 f i hstop =>
    rw [bubbleUp, if_neg hstop]
    refine ⟨fun j hj hle => ?_, rfl⟩
    dsimp only at hle ⊢
    by_cases hne : j = i
    · subst hne
      have := not_lt.mp fun hlt => hstop ⟨hj, hlt⟩
      rwa [Function.update_self, Function.update_of_ne (by omega)]
    · exact hedges j hj hle hne

theorem smallest_le (f : ℕ → α) {i j : ℕ} (hj : j / 2 = i) (h1 : 1 < j) (hle : j ≤ n) :
    (smallest x n f i = i → x ≤ f j) ∧ (smallest x n f i ≠ i → f (smallest x n f i) ≤ f j) := by
  unfold smallest
  grind

/-- With the element at the index, only the edges to its children may be out of order. -/
theorem sinkDown_spec (f : ℕ → α) (i : ℕ) (hi : 1 ≤ i ∧ i ≤ n)
    (hedges : ∀ j, 1 < j → j ≤ n → j / 2 ≠ i → update f i x (j / 2) ≤ update f i x j)
    (hover : ∀ j, 1 < i → j ≤ n → j / 2 = i → f (i / 2) ≤ f j) :
    Ordered ⟨n, sinkDown x n f i⟩ ∧
      content ⟨n, sinkDown x n f i⟩ = content ⟨n, update f i x⟩ := by
  induction f, i using sinkDown.induct x n with
  | case1 f i hchild ih =>
    obtain ⟨hlt, hlen, hhalf, hsmall⟩ := (smallest_cases x n f i).resolve_left hchild
    have hleast := fun j (hj : j / 2 = i) h1 hle => (smallest_le f hj h1 hle).2 hchild
    rw [sinkDown, if_pos hchild]
    generalize smallest x n f i = c at *
    rw [← content_move f x hi (j := c) (by omega) (by omega)]
    simp only [Function.update_apply] at hedges ih ⊢
    refine ih (by omega) (fun j hj hle hne => ?_) (fun j h1 hle hj => ?_)
    · have := hedges j hj hle
      have := hleast j
      have := hover c
      grind
    · have := hedges j (by omega) hle
      grind
  | case2 f i hstop =>
    rw [sinkDown, if_neg hstop]
    refine ⟨fun j hj hle => ?_, rfl⟩
    dsimp only at hle ⊢
    by_cases hhalf : j / 2 = i
    · have := (smallest_le f hhalf hj hle).1 (not_not.mp hstop)
      rwa [hhalf, Function.update_self, Function.update_of_ne (by omega)]
    · exact hedges j hj hle hhalf

theorem heapPush_spec (ho : h.Ordered) (x : α) :
    (h.heapPush x).Ordered ∧ (h.heapPush x).content = x ::ₘ h.content := by
  obtain ⟨hordered, hcontent⟩ := bubbleUp_spec (x := x) (n := h.length + 1) h.get (h.length + 1)
    (by omega)
    (fun j hj hle hne => by
      rw [Function.update_of_ne (by omega), Function.update_of_ne hne]
      exact ho j hj (by omega))
    (fun j h1 hle hhalf => absurd hhalf (by omega))
  refine ⟨hordered, hcontent.trans ?_⟩
  rw [content_succ, Function.update_self, content_update_of_lt _ _ (Nat.lt_succ_self _)]

theorem Ordered.root_le (ho : h.Ordered) (hx : x ∈ h.content) : h.get 1 ≤ x := by
  obtain ⟨k, hk, hle, rfl⟩ := mem_content.mp hx
  clear hx
  induction k using Nat.strong_induction_on with
  | _ k ih =>
    rcases Nat.eq_or_lt_of_le hk with rfl | hlt
    · exact le_rfl
    · exact (ih (k / 2) (by omega) (by omega) (by omega)).trans (ho k hlt hle)

/-- The least element leaves. -/
theorem heapPop_spec (ho : h.Ordered) (hpos : 0 < h.length) :
    h.heapPop.1.Ordered ∧ h.content = h.get 1 ::ₘ h.heapPop.1.content := by
  obtain ⟨n, f⟩ := h
  obtain ⟨n, rfl⟩ := Nat.exists_eq_succ_of_ne_zero (Nat.pos_iff_ne_zero.mp hpos)
  unfold heapPop
  simp only [Nat.succ_eq_add_one, Nat.add_sub_cancel]
  split_ifs with h0
  · obtain ⟨hordered, hcontent⟩ := sinkDown_spec (x := f (n + 1)) (n := n) f 1 (by omega)
      (fun j hj hle hhalf => by
        rw [Function.update_of_ne hhalf, Function.update_of_ne (by omega)]
        exact ho j hj (Nat.le_succ_of_le hle))
      (fun j h1 => absurd h1 (Nat.lt_irrefl 1))
    refine ⟨hordered, ?_⟩
    -- the last element at the root, and the root after the last one
    have hmove := content_move f (f 1) (n := n + 1) (i := 1) (j := n + 1) (by omega) (by omega)
      (by omega)
    rw [Function.update_eq_self, content_succ, Function.update_self,
      content_update_of_lt _ _ (Nat.lt_succ_self n)] at hmove
    rw [hcontent, hmove]
  · obtain rfl : n = 0 := by omega
    exact ⟨fun j hj hle => absurd hle (by dsimp only; omega), content_succ f 0⟩

inductive Op (α : Type) where
  | push (element : α)
  | pop

/-- A heap that is empty at first. -/
def machine (get : ℕ → α) : Machine (Heap α) (Op α) (Option α) where
  init := ⟨0, get⟩
  step h
    | .push element => some (h.heapPush element, none)
    | .pop => if h.length = 0 then none else some (h.heapPop.1, some h.heapPop.2)

/-- What the heap is for: the elements in their order. -/
def sortedMachine (α : Type) [LinearOrder α] : Machine (List α) (Op α) (Option α) where
  init := []
  step l
    | .push element => some (l.orderedInsert (· ≤ ·) element, none)
    | .pop => l.head?.map fun x => (l.tail, some x)

/-- The head leaves. -/
theorem heapPop_cons {l : List α} (ho : h.Ordered) (hc : h.content = ↑(x :: l))
    (hl : (x :: l).Pairwise (· ≤ ·)) : h.length ≠ 0 ∧ h.get 1 = x ∧
      h.heapPop.1.Ordered ∧ h.heapPop.1.content = ↑l := by
  obtain ⟨k, hk, hle, -⟩ := mem_content.mp (by rw [hc]; exact List.mem_cons_self)
  obtain ⟨ho', hc'⟩ := heapPop_spec ho (by omega)
  have hroot : h.get 1 = x := by
    refine le_antisymm (ho.root_le (by simp [hc])) ?_
    have hmem : h.get 1 ∈ x :: l := Multiset.mem_coe.mp (by rw [← hc, hc']; simp)
    rcases List.mem_cons.mp hmem with heq | hin
    · exact heq.ge
    · exact List.rel_of_pairwise_cons hl hin
  rw [hc, hroot, ← Multiset.cons_coe, Multiset.cons_inj_right] at hc'
  exact ⟨by omega, hroot, ho', hc'.symm⟩

/-- Whatever is pushed and popped, the elements come out in order. -/
theorem answers_eq_sorted (get : ℕ → α) (ops : List (Op α)) :
    (machine get).answers ops = (sortedMachine α).answers ops := by
  refine Machine.answers_of_agree
    (R := fun h l => h.Ordered ∧ h.content = ↑l ∧ l.Pairwise (· ≤ ·)) ?_ ?_
    (Machine.allowed_true _ _)
  · rintro h l op ⟨ho, hc, hl⟩ -
    cases op with
    | push element =>
      obtain ⟨ho', hc'⟩ := heapPush_spec ho element
      refine ⟨⟨ho', ?_, hl.orderedInsert _⟩, rfl⟩
      rw [hc', hc]
      exact Multiset.coe_eq_coe.mpr (List.perm_orderedInsert _ _ _).symm
    | pop =>
      cases l with
      | nil =>
        have h0 : h.length = 0 := by simpa [content] using congrArg Multiset.card hc
        simp [machine, sortedMachine, h0, Machine.Agree]
      | cons x l =>
        obtain ⟨hne, hroot, ho', hc'⟩ := heapPop_cons ho hc hl
        simp only [machine, if_neg hne]
        exact ⟨⟨ho', hc', hl.of_cons⟩, congrArg some hroot⟩
  · exact ⟨fun j h1 hj => absurd hj (by change ¬j ≤ 0; omega), rfl, .nil⟩

end Heap

end Freeminer.Builtin
