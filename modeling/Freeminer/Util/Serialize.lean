import Mathlib.Tactic.Common

/-! `std::string` as a list of bytes. -/

namespace Freeminer

abbrev ByteString := List UInt8

def bytes (s : String) : ByteString := s.toList.map fun c => UInt8.ofNat c.toNat

/-! Big-endian byte access of `util/serialize.h` on byte lists. A pointer into a buffer is
the list dropped to its position. -/

/-- A byte buffer (`SharedBuffer<u8>`, `Buffer<u8>`). -/
abbrev SharedBuffer := List UInt8

def readU8 (data : SharedBuffer) : UInt8 := data.getD 0 0

def readU16 (data : SharedBuffer) : UInt16 :=
  ((data.getD 0 0).toUInt16 <<< 8) ||| (data.getD 1 0).toUInt16

def readU32 (data : SharedBuffer) : UInt32 :=
  ((data.getD 0 0).toUInt32 <<< 24) ||| ((data.getD 1 0).toUInt32 <<< 16) |||
    ((data.getD 2 0).toUInt32 <<< 8) ||| (data.getD 3 0).toUInt32

def writeU16 (i : UInt16) : SharedBuffer := [(i >>> 8).toUInt8, i.toUInt8]

def writeU32 (i : UInt32) : SharedBuffer :=
  [(i >>> 24).toUInt8, (i >>> 16).toUInt8, (i >>> 8).toUInt8, i.toUInt8]

@[simp] theorem length_writeU16 (i : UInt16) : (writeU16 i).length = 2 := rfl

@[simp] theorem length_writeU32 (i : UInt32) : (writeU32 i).length = 4 := rfl

theorem toNat_readU16 (a b : UInt8) (rest : SharedBuffer) :
    (readU16 (a :: b :: rest)).toNat = 256 * a.toNat + b.toNat := by
  have ha := a.toNat_lt
  have hb := b.toNat_lt
  have hshift : (a.toNat <<< 8) % 2 ^ 16 = a.toNat <<< 8 := by rw [Nat.shiftLeft_eq]; omega
  simp only [readU16, List.getD_cons_zero, List.getD_cons_succ, UInt16.toNat_or,
    UInt16.toNat_shiftLeft, UInt8.toNat_toUInt16, show (8 : UInt16).toNat % 16 = 8 from rfl]
  rw [hshift, ← Nat.shiftLeft_add_eq_or_of_lt hb, Nat.shiftLeft_eq]
  omega

@[simp] theorem readU16_writeU16 (i : UInt16) (rest : SharedBuffer) :
    readU16 (writeU16 i ++ rest) = i := by
  apply UInt16.toNat_inj.mp
  have hi := i.toNat_lt
  rw [writeU16, List.cons_append, List.cons_append, List.nil_append, toNat_readU16,
    UInt16.toNat_toUInt8, UInt16.toNat_toUInt8, UInt16.toNat_shiftRight,
    show (8 : UInt16).toNat % 16 = 8 from rfl, Nat.shiftRight_eq_div_pow]
  omega

theorem toNat_readU32 (a b c d : UInt8) (rest : SharedBuffer) :
    (readU32 (a :: b :: c :: d :: rest)).toNat =
      16777216 * a.toNat + 65536 * b.toNat + 256 * c.toNat + d.toNat := by
  have ha := a.toNat_lt
  have hb := b.toNat_lt
  have hc := c.toNat_lt
  have hd := d.toNat_lt
  have h1 : (a.toNat <<< 24) % 2 ^ 32 = a.toNat <<< 24 := by rw [Nat.shiftLeft_eq]; omega
  have h2 : (b.toNat <<< 16) % 2 ^ 32 = b.toNat <<< 16 := by rw [Nat.shiftLeft_eq]; omega
  have h3 : (c.toNat <<< 8) % 2 ^ 32 = c.toNat <<< 8 := by rw [Nat.shiftLeft_eq]; omega
  have hcd : (c.toNat <<< 8 ||| d.toNat) = 256 * c.toNat + d.toNat := by
    rw [← Nat.shiftLeft_add_eq_or_of_lt hd, Nat.shiftLeft_eq]
    omega
  have hbcd : (b.toNat <<< 16 ||| (256 * c.toNat + d.toNat)) =
      65536 * b.toNat + 256 * c.toNat + d.toNat := by
    rw [← Nat.shiftLeft_add_eq_or_of_lt (by omega), Nat.shiftLeft_eq]
    omega
  have habcd : (a.toNat <<< 24 ||| (65536 * b.toNat + 256 * c.toNat + d.toNat)) =
      16777216 * a.toNat + 65536 * b.toNat + 256 * c.toNat + d.toNat := by
    rw [← Nat.shiftLeft_add_eq_or_of_lt (by omega), Nat.shiftLeft_eq]
    omega
  simp only [readU32, List.getD_cons_zero, List.getD_cons_succ, UInt32.toNat_or,
    UInt32.toNat_shiftLeft, UInt8.toNat_toUInt32, show (8 : UInt32).toNat % 32 = 8 from rfl,
    show (16 : UInt32).toNat % 32 = 16 from rfl, show (24 : UInt32).toNat % 32 = 24 from rfl]
  rw [h1, h2, h3, Nat.or_assoc, Nat.or_assoc, hcd, hbcd, habcd]

@[simp] theorem readU32_writeU32 (i : UInt32) (rest : SharedBuffer) :
    readU32 (writeU32 i ++ rest) = i := by
  apply UInt32.toNat_inj.mp
  have hi := i.toNat_lt
  simp only [writeU32, List.cons_append, List.nil_append]
  rw [toNat_readU32]
  simp only [UInt32.toNat_toUInt8, UInt32.toNat_shiftRight,
    show (8 : UInt32).toNat % 32 = 8 from rfl, show (16 : UInt32).toNat % 32 = 16 from rfl,
    show (24 : UInt32).toNat % 32 = 24 from rfl, Nat.shiftRight_eq_div_pow]
  omega

end Freeminer
