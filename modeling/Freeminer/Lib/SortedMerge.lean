import Mathlib.Data.Multiset.UnionInter

/-! Sorting, and the difference of two sorted lists by one merge. -/

set_option linter.unusedSectionVars false

namespace Freeminer.Lib

/-- `std::sort` of indices by a comparison: in order where the comparison is a strict weak order,
with nothing said about the order of what compares equal. -/
structure Sorter where
  sort : (ℕ → ℕ → Bool) → List ℕ → List ℕ
  perm : ∀ less l, (sort less l).Perm l
  pairwise : ∀ less l, (∀ a b, less a b = true → less b a = false) →
    (∀ a b c, less b a = false → less c b = false → less c a = false) →
    (sort less l).Pairwise fun a b => less b a = false

theorem pairwise_mergeSort_not (less : ℕ → ℕ → Bool) (l : List ℕ)
    (hasymm : ∀ a b, less a b = true → less b a = false)
    (htrans : ∀ a b c, less b a = false → less c b = false → less c a = false) :
    (l.mergeSort fun a b => !less b a).Pairwise fun a b => less b a = false := by
  refine (List.pairwise_mergeSort (fun a b c hab hbc => ?_) (fun a b => ?_) l).imp
    fun {_ _} h => by simpa using h
  · simp only [Bool.not_eq_true'] at hab hbc ⊢
    exact htrans a b c hab hbc
  · cases hba : less b a with
    | false => rfl
    | true => simp [hasymm b a hba]

def stableSorter : Sorter where
  sort less l := l.mergeSort fun a b => !less b a
  perm _ _ := List.mergeSort_perm ..
  pairwise := pairwise_mergeSort_not

variable {α : Type*} [LT α] [LE α] [DecidableLT α] [DecidableLE α]

/-- `std::sort`. -/
def sort (l : List α) : List α := l.mergeSort fun a b => decide (a ≤ b)

/-- `std::set_difference`. -/
def setDifference : List α → List α → List α
  | [], _ => []
  | a :: as, [] => a :: as
  | a :: as, b :: bs =>
    if a < b then a :: setDifference as (b :: bs)
    else if b < a then setDifference (a :: as) bs
    else setDifference as bs
termination_by as bs => as.length + bs.length

variable [Std.IsLinearOrder α] [Std.LawfulOrderLT α]

theorem sort_perm (l : List α) : (sort l).Perm l := List.mergeSort_perm ..

theorem pairwise_sort (l : List α) : (sort l).Pairwise (· ≤ ·) := by
  refine (List.pairwise_mergeSort (fun a b c hab hbc => ?_) (fun a b => ?_) l).imp
    fun {_ _} => of_decide_eq_true
  · rw [decide_eq_true_iff] at hab hbc ⊢
    exact Std.le_trans hab hbc
  · rw [Bool.or_eq_true, decide_eq_true_iff, decide_eq_true_iff]
    exact Std.le_total

theorem filter_sort_eq {p : α → Bool} {l m : List α} (h : (l.filter p).Perm (m.filter p)) :
    (sort l).filter p = (sort m).filter p := by
  refine List.Perm.eq_of_pairwise (fun a b _ _ hab hba => Std.le_antisymm hab hba)
    ((pairwise_sort l).filter p) ((pairwise_sort m).filter p) ?_
  exact ((sort_perm l).filter p).trans (h.trans ((sort_perm m).filter p).symm)

/-- What is below a sorted list is not in it. -/
theorem notMem_of_lt {a b : α} {bs : List α} (hlt : a < b) (h : (b :: bs).Pairwise (· ≤ ·)) :
    a ∉ b :: bs := by
  intro hmem
  rcases List.mem_cons.mp hmem with rfl | hmem
  · exact Std.lt_irrefl hlt
  · exact Std.lt_irrefl (Std.lt_of_lt_of_le hlt (List.rel_of_pairwise_cons h hmem))

variable [DecidableEq α]

theorem count_setDifference {as bs : List α} (has : as.Pairwise (· ≤ ·))
    (hbs : bs.Pairwise (· ≤ ·)) (x : α) :
    (setDifference as bs).count x = as.count x - bs.count x := by
  induction as, bs using setDifference.induct with
  | case1 bs => simp [setDifference]
  | case2 a as => simp [setDifference]
  | case3 a as b bs hlt ih =>
    rw [setDifference, if_pos hlt, List.count_cons, ih has.tail hbs, List.count_cons (b := a)]
    have hnot := notMem_of_lt hlt hbs
    by_cases hx : a = x
    · rw [List.count_eq_zero_of_not_mem (l := b :: bs) (hx ▸ hnot)]
      rfl
    · rw [if_neg (by simpa using hx)]
      omega
  | case4 a as b bs hge hlt ih =>
    rw [setDifference, if_neg hge, if_pos hlt, ih has hbs.tail]
    have hnot := notMem_of_lt hlt has
    by_cases hx : b = x
    · rw [List.count_eq_zero_of_not_mem (hx ▸ hnot), Nat.zero_sub, Nat.zero_sub]
    · rw [List.count_cons_of_ne (b := b) hx]
  | case5 a as b bs hge hge' ih =>
    have heq : a = b := Std.le_antisymm (Std.not_lt.mp hge') (Std.not_lt.mp hge)
    rw [setDifference, if_neg hge, if_neg hge', ih has.tail hbs.tail, heq, List.count_cons,
      List.count_cons]
    omega

theorem coe_setDifference {as bs : List α} (has : as.Pairwise (· ≤ ·))
    (hbs : bs.Pairwise (· ≤ ·)) :
    (setDifference as bs : Multiset α) = (as : Multiset α) - (bs : Multiset α) := by
  ext x
  rw [Multiset.coe_count, count_setDifference has hbs, Multiset.count_sub, Multiset.coe_count,
    Multiset.coe_count]

end Freeminer.Lib
