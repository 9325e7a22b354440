import Mathlib.Tactic.Ring
import Mathlib.Tactic.LinearCombination
import Mathlib.Data.Int.ModEq

/-! Linear congruential generators modulo a power of two: with a multiplier that is 1 modulo 4
and an odd increment every residue is reached from every start. -/

namespace Freeminer.Lib

def lcg (a c : ℤ) (x : ℤ) : ℤ := a * x + c

variable {a c : ℤ}

/-- `2 ^ k` steps are one step of a generator of the same kind, that adds an odd multiple of
`2 ^ k`. -/
theorem lcg_two_pow (ha : a % 4 = 1) (hc : c % 2 = 1) (k : ℕ) :
    ∃ u v : ℤ, ∀ x, (lcg a c)^[2 ^ k] x = lcg (1 + 2 ^ (k + 2) * u) (2 ^ k * (2 * v + 1)) x := by
  induction k with
  | zero =>
    refine ⟨a / 4, c / 2, fun x => ?_⟩
    have h4 := Int.emod_add_mul_ediv a 4
    have h2 := Int.emod_add_mul_ediv c 2
    rw [ha] at h4
    rw [hc] at h2
    simp only [pow_zero, Function.iterate_one, lcg, zero_add, one_mul]
    linear_combination -x * h4 - h2
  | succ k ih =>
    obtain ⟨u, v, h⟩ := ih
    refine ⟨u + 2 ^ (k + 1) * u ^ 2, v + 2 ^ k * u * (2 * v + 1), fun x => ?_⟩
    rw [pow_succ, mul_two, Function.iterate_add_apply, h, h]
    simp only [lcg]
    ring

theorem lcg_reaches (ha : a % 4 = 1) (hc : c % 2 = 1) (k : ℕ) (x y : ℤ) :
    ∃ n, (lcg a c)^[n] x ≡ y [ZMOD 2 ^ k] := by
  induction k with
  | zero => exact ⟨0, by simp [Int.modEq_one]⟩
  | succ k ih =>
    obtain ⟨n, hn⟩ := ih
    obtain ⟨d, hd⟩ := hn.dvd
    obtain hev | hodd := Int.even_or_odd d
    · obtain ⟨e, rfl⟩ := hev
      exact ⟨n, Int.modEq_iff_dvd.mpr ⟨e, by rw [hd]; ring⟩⟩
    · -- one more half of the period
      obtain ⟨e, rfl⟩ := hodd
      obtain ⟨u, v, h⟩ := lcg_two_pow ha hc k
      refine ⟨2 ^ k + n, Int.modEq_iff_dvd.mpr ⟨e - v - 2 * u * (lcg a c)^[n] x, ?_⟩⟩
      rw [Function.iterate_add_apply, h, lcg]
      linear_combination hd

end Freeminer.Lib
