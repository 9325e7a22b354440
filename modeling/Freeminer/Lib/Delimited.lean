import Mathlib.Data.List.DropRight

/-! Text cut at a delimiter. -/

namespace Freeminer.Lib

variable {α : Type*} [DecidableEq α] {d : α} {xs ys : List α} {ls : List (List α)}

/-- What stands before the first delimiter, and what follows it if there is one. -/
def cut (d : α) : List α → List α × Option (List α)
  | [] => ([], none)
  | x :: xs =>
    if x = d then ([], some xs)
    else
      let (before, after) := cut d xs
      (x :: before, after)

theorem cut_append_cons (h : d ∉ xs) (ys : List α) : cut d (xs ++ d :: ys) = (xs, some ys) := by
  induction xs with
  | nil => simp [cut]
  | cons x xs ih =>
    rw [List.mem_cons, not_or] at h
    rw [List.cons_append, cut, if_neg (Ne.symm h.1), ih h.2]

theorem cut_of_notMem (h : d ∉ xs) : cut d xs = (xs, none) := by
  induction xs with
  | nil => rfl
  | cons x xs ih =>
    rw [List.mem_cons, not_or] at h
    rw [cut, if_neg (Ne.symm h.1), ih h.2]

theorem notMem_cut (d : α) (xs : List α) : d ∉ (cut d xs).1 := by
  induction xs with
  | nil => simp [cut]
  | cons x xs ih =>
    rw [cut]
    split_ifs with hx
    · simp
    · simp [ih, Ne.symm hx]

/-- Nothing is cut off, or what stands before the first delimiter. -/
theorem cut_cases (d : α) (xs : List α) : cut d xs = (xs, none) ∨
    ∃ before after, cut d xs = (before, some after) ∧ xs = before ++ d :: after := by
  induction xs with
  | nil => exact .inl rfl
  | cons x xs ih =>
    by_cases h : x = d
    · exact .inr ⟨[], xs, by rw [cut, if_pos h], by rw [h]; rfl⟩
    · rw [cut, if_neg h]
      rcases ih with heq | ⟨before, after, heq, hs⟩
      · exact .inl (by rw [heq])
      · exact .inr ⟨x :: before, after, by rw [heq], by rw [hs]; rfl⟩

/-- Lines that are each ended by the delimiter are found again, with the text after them. -/
theorem splitOn_lines (h : ∀ l ∈ ls, d ∉ l) (ys : List α) :
    (ls.flatMap (· ++ [d]) ++ ys).splitOn d = ls ++ ys.splitOn d := by
  induction ls with
  | nil => rfl
  | cons l ls ih =>
    have hl : d ∉ l := h l List.mem_cons_self
    have ih := ih fun l hl => h l (List.mem_cons_of_mem _ hl)
    rw [List.flatMap_cons, List.append_assoc, List.append_assoc, List.singleton_append,
      List.splitOn_append_cons_self_of_not_mem hl, ih, List.cons_append]

theorem flatMap_splitOn (d : α) (xs : List α) :
    (xs.splitOn d).flatMap (· ++ [d]) = xs ++ [d] := by
  have h : ∀ ls : List (List α), ls ≠ [] →
      ls.flatMap (· ++ [d]) = [d].intercalate ls ++ [d] := by
    intro ls hls
    induction ls with
    | nil => exact absurd rfl hls
    | cons l ls ih =>
      cases ls with
      | nil => simp [List.intercalate]
      | cons m ls =>
        rw [List.flatMap_cons, ih (List.cons_ne_nil _ _)]
        simp [List.intercalate]
  rw [h _ (List.splitOn_ne_nil d xs), List.intercalate_splitOn]

theorem notMem_of_mem_splitOn {l : List α} (h : l ∈ xs.splitOn d) : d ∉ l := by
  induction xs generalizing l with
  | nil =>
    rw [List.splitOn_nil, List.mem_singleton] at h
    simp [h]
  | cons x xs ih =>
    rw [List.splitOn_cons_eq_if_modifyHead] at h
    split_ifs at h with hx
    · cases List.mem_cons.mp h with
      | inl heq => simp [heq]
      | inr hmem => exact ih hmem
    · cases hs : xs.splitOn d with
      | nil => exact absurd hs (List.splitOn_ne_nil d xs)
      | cons m ls =>
        rw [hs, List.modifyHead_cons] at h
        cases List.mem_cons.mp h with
        | inl heq =>
          have hm := ih (l := m) (by simp [hs])
          have hxd : d ≠ x := fun he => hx (by simp [he])
          simp [heq, hm, hxd]
        | inr hmem => exact ih (by simp [hs, hmem])

end Freeminer.Lib

/-! Lists without what their ends have of a kind of element, such as blanks. -/

namespace Freeminer.Lib

variable {α : Type*} (p : α → Bool) {x : α} {l : List α}

def strip (l : List α) : List α := (l.dropWhile p).rdropWhile p

theorem rdropWhile_cons (x : α) (l : List α) : (x :: l).rdropWhile p =
    if l.rdropWhile p = [] ∧ p x = true then [] else x :: l.rdropWhile p := by
  unfold List.rdropWhile
  rw [List.reverse_cons, List.dropWhile_append]
  cases h : l.reverse.dropWhile p with
  | nil => cases hx : p x <;> simp [hx]
  | cons y m => simp

/-- An element that stays keeps everything before it. -/
theorem rdropWhile_append_cons (hx : p x = false) (l m : List α) :
    (l ++ x :: m).rdropWhile p = l ++ x :: m.rdropWhile p := by
  induction l with
  | nil => rw [List.nil_append, rdropWhile_cons, if_neg (by simp [hx]), List.nil_append]
  | cons y l ih => rw [List.cons_append, rdropWhile_cons, ih, if_neg (by simp), List.cons_append]

/-- The two ends do not matter to each other. -/
theorem dropWhile_rdropWhile (l : List α) : (l.rdropWhile p).dropWhile p = strip p l := by
  unfold strip
  induction l with
  | nil => rfl
  | cons x l ih =>
    rw [rdropWhile_cons]
    cases hx : p x with
    | false =>
      rw [if_neg (by simp), List.dropWhile_cons_of_neg (by simp [hx]),
        List.dropWhile_cons_of_neg (by simp [hx]), rdropWhile_cons, if_neg (by simp [hx])]
    | true =>
      rw [List.dropWhile_cons_of_pos hx, ← ih]
      by_cases h : l.rdropWhile p = []
      · rw [if_pos ⟨h, rfl⟩, h]
      · rw [if_neg (by simp [h]), List.dropWhile_cons_of_pos hx]

theorem strip_cons (hx : p x = true) (l : List α) : strip p (x :: l) = strip p l := by
  unfold strip
  rw [List.dropWhile_cons_of_pos hx]

theorem strip_rdropWhile (l : List α) : strip p (l.rdropWhile p) = strip p l := by
  rw [strip, dropWhile_rdropWhile, strip, List.rdropWhile_idempotent]

theorem strip_strip (l : List α) : strip p (strip p l) = strip p l := by
  have hdrop : (strip p l).dropWhile p = strip p l := by
    rw [← dropWhile_rdropWhile, List.dropWhile_idempotent]
  rw [strip, hdrop, strip, List.rdropWhile_idempotent]

theorem strip_eq_self (h : ∀ x ∈ l, p x = false) : strip p l = l := by
  have hdrop : l.dropWhile p = l := by
    cases l with
    | nil => rfl
    | cons x l => exact List.dropWhile_cons_of_neg (by simp [h x List.mem_cons_self])
  rw [strip, hdrop, List.rdropWhile_eq_self_iff]
  intro hl
  rw [h _ (List.getLast_mem hl)]
  exact Bool.false_ne_true

end Freeminer.Lib
