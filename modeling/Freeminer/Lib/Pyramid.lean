import Mathlib.Data.Nat.Notation
import Mathlib.Data.Set.Operations

/-! Levels that are computed one from the other, and how they are kept when the lowest changes: only
what is above a change is computed again. -/

namespace Freeminer.Lib

variable {α β : Type*} {up : ℕ → α → α} {build : ℕ → (α → β) → α → β}
  {base base' : α → β} {s n : ℕ}

def pyramid (build : ℕ → (α → β) → α → β) (base : α → β) : ℕ → α → β
  | 0 => base
  | s + 1 => build s (pyramid build base s)

def Local (up : ℕ → α → α) (build : ℕ → (α → β) → α → β) : Prop :=
  ∀ s (g g' : α → β) a, (∀ q, up s q = a → g q = g' q) → build s g a = build s g' a

theorem pyramid_succ (build : ℕ → (α → β) → α → β) (base : α → β) (s : ℕ) :
    pyramid build base (s + 1) = build s (pyramid build base s) := rfl

/-- An entry with nothing changed below it is the same. -/
theorem Local.pyramid_succ_eq (hl : Local up build) {D : Set α} {a : α}
    (hD : ∀ q ∉ D, pyramid build base s q = pyramid build base' s q) (ha : a ∉ up s '' D) :
    pyramid build base (s + 1) a = pyramid build base' (s + 1) a := by
  rw [pyramid_succ, pyramid_succ]
  apply hl
  intro q hq
  apply hD
  intro hmem
  exact ha ⟨q, hmem, hq⟩

/-- Levels that were right, of which the entries above the changed ones are computed again, are
right. `D s` holds what changed at level `s`. -/
theorem Local.refresh (hl : Local up build) {l l' : ℕ → α → β} {D : ℕ → Set α}
    (hold : ∀ s ≤ n, l s = pyramid build base s) (hbase : l' 0 = base')
    (hfirst : ∀ q ∉ D 0, base q = base' q)
    (hnext : ∀ s, s + 1 < n → l' (s + 1) = pyramid build base' (s + 1) →
      (∀ q ∉ up s '' D s, pyramid build base (s + 1) q = pyramid build base' (s + 1) q) →
      ∀ q ∉ D (s + 1), pyramid build base (s + 1) q = pyramid build base' (s + 1) q)
    (hfresh : ∀ s < n, l' s = pyramid build base' s →
      ∀ a ∈ up s '' D s, l' (s + 1) a = build s (l' s) a)
    (hkeep : ∀ s < n, ∀ a ∉ up s '' D s, l' (s + 1) a = l (s + 1) a) :
    ∀ s ≤ n, l' s = pyramid build base' s := by
  have hall : ∀ s ≤ n, l' s = pyramid build base' s ∧
      (s < n → ∀ q ∉ D s, pyramid build base s q = pyramid build base' s q) := by
    intro s
    induction s with
    | zero => exact fun _ => ⟨hbase, fun _ => hfirst⟩
    | succ s ih =>
      intro hs
      obtain ⟨hbelow, hD⟩ := ih (Nat.le_of_succ_le hs)
      have hclean : ∀ q ∉ up s '' D s,
          pyramid build base (s + 1) q = pyramid build base' (s + 1) q :=
        fun q hq => hl.pyramid_succ_eq (hD hs) hq
      have hlevel : l' (s + 1) = pyramid build base' (s + 1) := by
        funext a
        by_cases ha : a ∈ up s '' D s
        · rw [hfresh s hs hbelow a ha, hbelow, pyramid_succ]
        · rw [hkeep s hs a ha, hold (s + 1) hs]
          exact hclean a ha
      exact ⟨hlevel, fun hsn => hnext s hsn hlevel hclean⟩
  exact fun s hs => (hall s hs).1

end Freeminer.Lib
