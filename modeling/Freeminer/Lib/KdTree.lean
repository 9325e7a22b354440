import Mathlib.Data.Tree.Basic
import Mathlib.Tactic.Positivity
import Mathlib.Tactic.Ring

/-! Binary trees that split points by one coordinate on each level, and the query of a box in
them. A tree lies in an array when the children of the node at `i` are at `2 * i + 1` and
`2 * i + 2`. -/

namespace Freeminer.Lib

variable {α β : Type*} {k : ℕ} [NeZero k]

section Query

variable [LE β] [LT β] [DecidableLT β] (coord : Fin k → α → β) (lo hi : Fin k → β)

def elements : BinaryTree α → List α
  | .nil => []
  | .node a l r => a :: (elements l ++ elements r)

/-- From axis `d` on, what is left of a node is not above it, and what is right not below it. -/
def Splits : Fin k → BinaryTree α → Prop
  | _, .nil => True
  | d, .node a l r =>
    (∀ b ∈ elements l, coord d b ≤ coord d a) ∧ (∀ b ∈ elements r, coord d a ≤ coord d b) ∧
      Splits (d + 1) l ∧ Splits (d + 1) r

def inBox (a : α) : Bool := decide (∀ d, ¬ (coord d a < lo d ∨ hi d < coord d a))

/-- The points in the box, leaving out the side of a node that cannot have any. -/
def query : Fin k → BinaryTree α → List α
  | _, .nil => []
  | d, .node a l r =>
    if coord d a < lo d then query (d + 1) r
    else if hi d < coord d a then query (d + 1) l
    else query (d + 1) r ++ query (d + 1) l ++ if inBox coord lo hi a then [a] else []

variable {coord lo hi} [Std.IsLinearPreorder β] [Std.LawfulOrderLT β]

omit [NeZero k] [LE β] [Std.IsLinearPreorder β] [Std.LawfulOrderLT β] in
theorem inBox_false_of_lt {d : Fin k} {a : α} (h : coord d a < lo d) :
    inBox coord lo hi a = false :=
  decide_eq_false fun hall => hall d (Or.inl h)

omit [NeZero k] [LE β] [Std.IsLinearPreorder β] [Std.LawfulOrderLT β] in
theorem inBox_false_of_gt {d : Fin k} {a : α} (h : hi d < coord d a) :
    inBox coord lo hi a = false :=
  decide_eq_false fun hall => hall d (Or.inr h)

/-- A query finds the points in the box, each once. -/
theorem query_perm {d : Fin k} {t : BinaryTree α} (h : Splits coord d t) :
    (query coord lo hi d t).Perm ((elements t).filter (inBox coord lo hi)) := by
  induction t generalizing d with
  | nil => exact List.Perm.refl _
  | node a l r ihl ihr =>
    obtain ⟨hl, hr, hsl, hsr⟩ := h
    unfold query elements
    by_cases hlo : coord d a < lo d
    · have hnone : (elements l).filter (inBox coord lo hi) = [] := by
        apply List.filter_eq_nil_iff.mpr
        intro b hb
        rw [inBox_false_of_lt (Std.lt_of_le_of_lt (hl b hb) hlo)]
        exact Bool.false_ne_true
      rw [if_pos hlo, List.filter_cons_of_neg (by simp [inBox_false_of_lt hlo]),
        List.filter_append, hnone, List.nil_append]
      exact ihr hsr
    · by_cases hhi : hi d < coord d a
      · have hnone : (elements r).filter (inBox coord lo hi) = [] := by
          apply List.filter_eq_nil_iff.mpr
          intro b hb
          rw [inBox_false_of_gt (Std.lt_of_lt_of_le hhi (hr b hb))]
          exact Bool.false_ne_true
        rw [if_neg hlo, if_pos hhi, List.filter_cons_of_neg (by simp [inBox_false_of_gt hhi]),
          List.filter_append, hnone, List.append_nil]
        exact ihl hsl
      · rw [if_neg hlo, if_neg hhi, List.filter_cons, List.filter_append]
        have hsides := (ihr hsr).append (ihl hsl)
        have hswap := hsides.trans List.perm_append_comm
        split_ifs with ha
        · exact (hswap.append_right [a]).trans List.perm_append_comm
        · simpa using hswap

end Query

section Layout

/-- The tree lies in the first `n` places of an array, its root at `i`. -/
inductive Laid (n : ℕ) (f : ℕ → α) : ℕ → BinaryTree α → Prop
  | nil {i : ℕ} (h : n ≤ i) : Laid n f i .nil
  | node {i : ℕ} {l r : BinaryTree α} (h : i < n) (hl : Laid n f (2 * i + 1) l)
      (hr : Laid n f (2 * i + 2) r) : Laid n f i (.node (f i) l r)

/-- The place `j` is in the subtree of `i`. -/
def Below (i j : ℕ) : Prop := ∃ d, (j + 1) / 2 ^ d = i + 1

variable {n i j m : ℕ} {f g : ℕ → α} {t : BinaryTree α}

theorem below_self (i : ℕ) : Below i i := ⟨0, by simp⟩

theorem below_of_left (h : Below (2 * i + 1) j) : Below i j := by
  obtain ⟨d, hd⟩ := h
  refine ⟨d + 1, ?_⟩
  rw [pow_succ, ← Nat.div_div_eq_div_mul, hd]
  omega

theorem below_of_right (h : Below (2 * i + 2) j) : Below i j := by
  obtain ⟨d, hd⟩ := h
  refine ⟨d + 1, ?_⟩
  rw [pow_succ, ← Nat.div_div_eq_div_mul, hd]
  omega

theorem le_of_below (h : Below i j) : i ≤ j := by
  obtain ⟨d, hd⟩ := h
  have := Nat.div_le_self (j + 1) (2 ^ d)
  omega

/-- The quotient of a greater power is the smaller. -/
theorem div_pow_le_half {a b c d e : ℕ} (hd : a / 2 ^ d = b) (he : a / 2 ^ e = c) (h : d < e) :
    c ≤ b / 2 := by
  obtain ⟨k, rfl⟩ : ∃ k, e = d + 1 + k := ⟨e - d - 1, by omega⟩
  rw [pow_add, pow_succ, ← Nat.div_div_eq_div_mul, ← Nat.div_div_eq_div_mul, hd] at he
  rw [← he]
  exact Nat.div_le_self _ _

/-- No place is in the subtrees of both children. -/
theorem not_below_right (h : Below (2 * i + 1) j) : ¬ Below (2 * i + 2) j := by
  rintro ⟨e, he⟩
  obtain ⟨d, hd⟩ := h
  rcases Nat.lt_trichotomy d e with hlt | heq | hlt
  · have := div_pow_le_half hd he hlt
    omega
  · subst heq
    omega
  · have := div_pow_le_half he hd hlt
    omega

/-- Only the places of its subtree matter to a tree. -/
theorem Laid.congr (h : Laid n f i t) (hfg : ∀ j, Below i j → f j = g j) : Laid n g i t := by
  induction h with
  | nil h => exact .nil h
  | @node i l r h _ _ ihl ihr =>
    rw [hfg i (below_self i)]
    apply Laid.node h
    · exact ihl fun j hj => hfg j (below_of_left hj)
    · exact ihr fun j hj => hfg j (below_of_right hj)

/-- Of the first `n` places, `m` are in the subtree of `i`, whose left side is half of them. -/
def Fits (n i m : ℕ) : Prop :=
  (m = 0 ∧ n ≤ i) ∨ ∃ h, ((i + 1) * 2 ^ h = n ∧ m = 2 ^ h) ∨
    (n < (i + 1) * 2 ^ h ∧ (i + 2) * 2 ^ h ≤ 2 * n ∧ m + 1 = 2 ^ h)

theorem fits_root (h : ℕ) : Fits (2 ^ h) 0 (2 ^ h) := Or.inr ⟨h, Or.inl ⟨by simp, rfl⟩⟩

theorem Fits.le_of_eq_zero (h : Fits n i 0) : n ≤ i := by
  obtain ⟨_, h⟩ | ⟨h, ⟨_, h0⟩ | ⟨hlt, _, h1⟩⟩ := h
  · exact h
  · exact absurd h0.symm (by positivity)
  · rw [← h1] at hlt
    omega

theorem Fits.lt_of_pos (hm : 0 < m) (h : Fits n i m) : i < n := by
  obtain ⟨h0, _⟩ | ⟨h, ⟨hn, _⟩ | ⟨_, hle, h1⟩⟩ := h
  · omega
  · have : i + 1 ≤ (i + 1) * 2 ^ h := Nat.le_mul_of_pos_right _ (by positivity)
    omega
  · have : (i + 2) * 2 ≤ (i + 2) * 2 ^ h := Nat.mul_le_mul_left _ (by omega)
    omega

theorem Fits.left (hm : 0 < m) (h : Fits n i m) : Fits n (2 * i + 1) (m / 2) := by
  obtain ⟨h0, _⟩ | ⟨h, ⟨hn, hh⟩ | ⟨hlt, hle, h1⟩⟩ := h
  · omega
  · cases h with
    | zero => exact Or.inl ⟨by simp [hh], by simp at hn; omega⟩
    | succ h =>
      refine Or.inr ⟨h, Or.inl ⟨?_, ?_⟩⟩
      · rw [← hn, pow_succ]
        ring
      · rw [hh, pow_succ]
        omega
  · cases h with
    | zero => simp at h1; omega
    | succ h =>
      have hpow : (2 : ℕ) ^ (h + 1) = 2 * 2 ^ h := by ring
      refine Or.inr ⟨h, Or.inr ⟨?_, ?_, ?_⟩⟩
      · calc n < (i + 1) * 2 ^ (h + 1) := hlt
          _ = (2 * i + 1 + 1) * 2 ^ h := by ring
      · calc (2 * i + 1 + 2) * 2 ^ h ≤ (2 * i + 4) * 2 ^ h := Nat.mul_le_mul_right _ (by omega)
          _ = (i + 2) * 2 ^ (h + 1) := by ring
          _ ≤ 2 * n := hle
      · omega

theorem Fits.right (hm : 0 < m) (h : Fits n i m) : Fits n (2 * i + 2) (m - m / 2 - 1) := by
  obtain ⟨h0, _⟩ | ⟨h, ⟨hn, hh⟩ | ⟨hlt, hle, h1⟩⟩ := h
  · omega
  · cases h with
    | zero => exact Or.inl ⟨by simp [hh], by simp at hn; omega⟩
    | succ h =>
      have hpow : (2 : ℕ) ^ (h + 1) = 2 * 2 ^ h := by ring
      have hpos : 0 < 2 ^ h := by positivity
      refine Or.inr ⟨h, Or.inr ⟨?_, ?_, by omega⟩⟩
      · calc n = (i + 1) * 2 ^ (h + 1) := hn.symm
          _ = (2 * i + 2) * 2 ^ h := by ring
          _ < (2 * i + 2 + 1) * 2 ^ h := Nat.mul_lt_mul_of_pos_right (by omega) hpos
      · calc (2 * i + 2 + 2) * 2 ^ h = (i + 2) * 2 ^ (h + 1) := by ring
          _ ≤ (2 * (i + 1)) * 2 ^ (h + 1) := Nat.mul_le_mul_right _ (by omega)
          _ = 2 * n := by rw [← hn]; ring
  · cases h with
    | zero => simp at h1; omega
    | succ h =>
      have hpow : (2 : ℕ) ^ (h + 1) = 2 * 2 ^ h := by ring
      refine Or.inr ⟨h, Or.inr ⟨?_, ?_, by omega⟩⟩
      · calc n < (i + 1) * 2 ^ (h + 1) := hlt
          _ = (2 * i + 2) * 2 ^ h := by ring
          _ ≤ (2 * i + 2 + 1) * 2 ^ h := Nat.mul_le_mul_right _ (by omega)
      · calc (2 * i + 2 + 2) * 2 ^ h = (i + 2) * 2 ^ (h + 1) := by ring
          _ ≤ 2 * n := hle

end Layout

end Freeminer.Lib
