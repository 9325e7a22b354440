import Mathlib.Data.Nat.ModEq

/-! Serial numbers: `UInt16` counters that wrap. `serialDist a b` is how far `a` lies past
`b` on the circle, and `serial n` the counter that an unbounded count `n` shows. Counts less
than a whole turn apart are recovered from the distance of their counters. -/

namespace Freeminer.Lib

/-- How many increments lead from `b` to `a`. -/
def serialDist (a b : UInt16) : ℕ := (a - b).toNat

/-- The counter shown by the unbounded count `n`. -/
def serial (n : ℕ) : UInt16 := UInt16.ofNat n

theorem serialDist_eq (a b : UInt16) :
    serialDist a b = (a.toNat + 65536 - b.toNat) % 65536 := by
  have := b.toNat_lt
  simp only [serialDist, UInt16.toNat_sub]
  congr 1
  omega

@[simp] theorem serialDist_self (a : UInt16) : serialDist a a = 0 := by simp [serialDist]

theorem serialDist_eq_zero {a b : UInt16} : serialDist a b = 0 ↔ a = b := by
  constructor
  · intro h
    have ha := a.toNat_lt
    have hb := b.toNat_lt
    rw [serialDist_eq] at h
    exact UInt16.toNat_inj.mp (by omega)
  · rintro rfl
    exact serialDist_self a

theorem serialDist_left_inj {a b c : UInt16} (h : serialDist a c = serialDist b c) : a = b := by
  have ha := a.toNat_lt
  have hb := b.toNat_lt
  have hc := c.toNat_lt
  rw [serialDist_eq, serialDist_eq] at h
  exact UInt16.toNat_inj.mp (by omega)

@[simp] theorem toNat_serial (n : ℕ) : (serial n).toNat = n % 65536 := by simp [serial]

theorem serial_add (m n : ℕ) : serial (m + n) = serial m + UInt16.ofNat n :=
  UInt16.ofNat_add m n

/-- A count that is not behind, and less than a turn ahead, is recovered. -/
theorem serialDist_serial {m n : ℕ} (h1 : m ≤ n) (h2 : n < m + 65536) :
    serialDist (serial n) (serial m) = n - m := by
  rw [serialDist_eq, toNat_serial, toNat_serial]
  omega

/-- A count that is behind by less than a turn shows up as far ahead. -/
theorem serialDist_serial_behind {m n : ℕ} (h1 : n < m) (h2 : m ≤ n + 65536) :
    serialDist (serial n) (serial m) = 65536 - (m - n) := by
  rw [serialDist_eq, toNat_serial, toNat_serial]
  omega

theorem serial_inj {m n : ℕ} (h : serial m = serial n) (h1 : m < n + 65536)
    (h2 : n < m + 65536) : m = n := by
  have := congrArg UInt16.toNat h
  simp only [toNat_serial] at this
  omega

end Freeminer.Lib
