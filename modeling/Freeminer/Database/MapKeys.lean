import Freeminer.Voxel.Light

/-! `MapDatabase`: block positions as integers and as strings. -/

namespace Freeminer.Database

open Voxel (V3)

/-- `USE_POS32`: the width of a block coordinate. -/
inductive PosWidth where
  | pos16
  | pos32
  deriving DecidableEq

def PosWidth.bits : PosWidth → ℕ
  | .pos16 => 16
  | .pos32 => 32

def PosWidth.InRange (w : PosWidth) (p : V3) : Prop :=
  (-2 ^ (w.bits - 1) ≤ p.X ∧ p.X < 2 ^ (w.bits - 1)) ∧
    (-2 ^ (w.bits - 1) ≤ p.Y ∧ p.Y < 2 ^ (w.bits - 1)) ∧
    (-2 ^ (w.bits - 1) ≤ p.Z ∧ p.Z < 2 ^ (w.bits - 1))

def Packed (p : V3) : Prop :=
  (-2048 ≤ p.X ∧ p.X ≤ 2047) ∧ (-2048 ≤ p.Y ∧ p.Y ≤ 2047) ∧ (-2048 ≤ p.Z ∧ p.Z ≤ 2047)

instance (p : V3) : Decidable (Packed p) := inferInstanceAs (Decidable (_ ∧ _))

def getBlockAsInteger (pos : V3) : ℤ := pos.Z * 2 ^ 24 + pos.Y * 2 ^ 12 + pos.X

/-- The masks and shifts of a signed integer are remainders and quotients. -/
def getIntegerAsBlock (i : ℤ) : V3 :=
  let i := i + 0x800800800
  ⟨i % 0x1000 - 0x800, i / 2 ^ 12 % 0x1000 - 0x800, i / 2 ^ 24 % 0x1000 - 0x800⟩

def getBlockAsString (pos : V3) : ByteString :=
  97 :: (decimalInt pos.X ++ 44 :: (decimalInt pos.Y ++ 44 :: decimalInt pos.Z))

def MAX_LIMIT_BP : ℤ := 31000 / 16

def InLimit (pos : V3) : Prop :=
  (-MAX_LIMIT_BP ≤ pos.X ∧ pos.X ≤ MAX_LIMIT_BP) ∧ (-MAX_LIMIT_BP ≤ pos.Y ∧ pos.Y ≤ MAX_LIMIT_BP) ∧
    (-MAX_LIMIT_BP ≤ pos.Z ∧ pos.Z ≤ MAX_LIMIT_BP)

instance (pos : V3) : Decidable (InLimit pos) := inferInstanceAs (Decidable (_ ∧ _))

def getBlockAsStringCompatible (w : PosWidth) (pos : V3) : ByteString :=
  match w with
  | .pos32 => if InLimit pos then decimalInt (getBlockAsInteger pos) else getBlockAsString pos
  | .pos16 => getBlockAsString pos

/-- `stoi64`, by a stream. -/
def stoi64 (s : ByteString) : ℤ := (IStream.readSigned { rest := s } 64 0).1

/-- `i64tos`, whose argument is unsigned. -/
def i64tos (i : ℤ) : ByteString := decimal (i % 2 ^ 64).toNat

def getStringAsBlock (w : PosWidth) (i : ByteString) : V3 :=
  match w with
  | .pos32 =>
    if i.head? = some 97 then
      let x := (IStream.skipChar { rest := i }).readSigned 32 0
      let y := x.2.skipChar.readSigned 32 0
      let z := y.2.skipChar.readSigned 32 0
      ⟨x.1, y.1, z.1⟩
    else getIntegerAsBlock (stoi64 i)
  | .pos16 => getIntegerAsBlock (stoi64 i)

section Keys

variable {w : PosWidth} {p q : V3}

theorem Packed.inRange (h : Packed p) (w : PosWidth) : w.InRange p := by
  unfold Packed at h
  unfold PosWidth.InRange
  cases w <;> simp only [PosWidth.bits] <;> omega

theorem InLimit.packed (h : InLimit p) : Packed p := by
  unfold InLimit MAX_LIMIT_BP at h
  unfold Packed
  omega

theorem getIntegerAsBlock_getBlockAsInteger (h : Packed p) :
    getIntegerAsBlock (getBlockAsInteger p) = p := by
  obtain ⟨X, Y, Z⟩ := p
  simp only [Packed] at h
  simp only [getIntegerAsBlock, getBlockAsInteger, V3.mk.injEq]
  omega

theorem getBlockAsInteger_inj (hp : Packed p) (hq : Packed q)
    (h : getBlockAsInteger p = getBlockAsInteger q) : p = q := by
  rw [← getIntegerAsBlock_getBlockAsInteger hp, h, getIntegerAsBlock_getBlockAsInteger hq]

theorem getBlockAsInteger_range (h : Packed p) :
    -2 ^ (64 - 1) ≤ getBlockAsInteger p ∧ getBlockAsInteger p < 2 ^ (64 - 1) := by
  unfold Packed at h
  unfold getBlockAsInteger
  constructor <;> norm_num <;> omega

theorem stoi64_decimalInt (h : Packed p) :
    stoi64 (decimalInt (getBlockAsInteger p)) = getBlockAsInteger p := by
  obtain ⟨hlo, hhi⟩ := getBlockAsInteger_range h
  have hread := readSigned_decimalInt hlo hhi 0 [] (by simp)
  rw [List.append_nil] at hread
  rw [stoi64, hread]

/-- An integer key does not start with the letter of the other form. -/
theorem head_decimalInt (n : ℤ) : (decimalInt n).head? ≠ some 97 := by
  unfold decimalInt
  obtain ⟨c, cs, hcs, hc⟩ := decimal_eq_cons n.natAbs
  split_ifs
  · simp
  · rw [hcs, List.head?_cons]
    intro h
    rw [Option.some.inj h] at hc
    cases hc

/-- The integer form is decoded under both widths. -/
theorem getStringAsBlock_integer (w : PosWidth) (h : Packed p) :
    getStringAsBlock w (decimalInt (getBlockAsInteger p)) = p := by
  cases w with
  | pos16 =>
    unfold getStringAsBlock
    rw [stoi64_decimalInt h, getIntegerAsBlock_getBlockAsInteger h]
  | pos32 =>
    unfold getStringAsBlock
    rw [if_neg (head_decimalInt _), stoi64_decimalInt h, getIntegerAsBlock_getBlockAsInteger h]

theorem skipChar_cons {c : UInt8} (h : isSpace c = false) (cs : ByteString) :
    IStream.skipChar { rest := c :: cs } = { rest := cs } := by
  have hdrop : (c :: cs).dropWhile isSpace = c :: cs :=
    List.dropWhile_cons_of_neg (by simp [h])
  unfold IStream.skipChar
  simp [IStream.good, hdrop]

/-- The coordinate form is decoded where its letter is looked for. -/
theorem getStringAsBlock_string (h : PosWidth.pos32.InRange p) :
    getStringAsBlock .pos32 (getBlockAsString p) = p := by
  obtain ⟨⟨hx, hx'⟩, ⟨hy, hy'⟩, ⟨hz, hz'⟩⟩ := h
  have hX := readSigned_decimalInt hx hx' 0 (44 :: (decimalInt p.Y ++ 44 :: decimalInt p.Z))
    (by simp [isDigit])
  have hY := readSigned_decimalInt hy hy' 0 (44 :: decimalInt p.Z) (by simp [isDigit])
  have hZ := readSigned_decimalInt hz hz' 0 [] (by simp)
  rw [List.append_nil] at hZ
  unfold getStringAsBlock getBlockAsString
  simp only [PosWidth.bits] at hX hY hZ
  simp [skipChar_cons (show isSpace 97 = false by decide), hX,
    skipChar_cons (show isSpace 44 = false by decide), hY, hZ]

/-- The other width reads no number there. -/
theorem getStringAsBlock_string_pos16 (p : V3) :
    getStringAsBlock .pos16 (getBlockAsString p) = ⟨0, 0, 0⟩ := by
  have hzero : stoi64 (getBlockAsString p) = 0 :=
    readSigned_of_not_digit (by decide) (by decide) (by decide) _ 64 0
  unfold getStringAsBlock
  rw [hzero]
  rfl

theorem getBlockAsString_inj (h : getBlockAsString p = getBlockAsString q) : p = q := by
  obtain ⟨-, h⟩ := List.cons.inj h
  obtain ⟨hx, h⟩ := decimalInt_inj (by simp [isDigit]) (by simp [isDigit]) h
  obtain ⟨-, h⟩ := List.cons.inj h
  obtain ⟨hy, h⟩ := decimalInt_inj (by simp [isDigit]) (by simp [isDigit]) h
  obtain ⟨-, h⟩ := List.cons.inj h
  have hz := decimalInt_inj (a := []) (b := []) (by simp) (by simp) (by simpa using h)
  obtain ⟨X, Y, Z⟩ := p
  obtain ⟨X', Y', Z'⟩ := q
  exact V3.mk.injEq .. ▸ ⟨hx, hy, hz.1⟩

theorem decimalInt_inj_self {n m : ℤ} (h : decimalInt n = decimalInt m) : n = m :=
  (decimalInt_inj (a := []) (b := []) (by simp) (by simp) (by simpa using h)).1

/-- The two forms never give the same key. -/
theorem getBlockAsString_ne_integer (p : V3) (n : ℤ) : getBlockAsString p ≠ decimalInt n := by
  intro h
  apply head_decimalInt n
  rw [← h]
  rfl

/-- The keys of a position are decoded to it, and no other position has them. -/
structure KeysRight (w : PosWidth) (p : V3) : Prop where
  integer : Packed p → getIntegerAsBlock (getBlockAsInteger p) = p
  string : getStringAsBlock w (getBlockAsString p) = p
  old : Packed p → getStringAsBlock w (decimalInt (getBlockAsInteger p)) = p
  compatible : getStringAsBlock w (getBlockAsStringCompatible w p) = p
  unique : ∀ q ≠ p, getBlockAsString q ≠ getBlockAsString p ∧
    (Packed q → decimalInt (getBlockAsInteger q) ≠ getBlockAsString p) ∧
    (Packed p → getBlockAsString q ≠ decimalInt (getBlockAsInteger p)) ∧
    (Packed q → Packed p → getBlockAsInteger q ≠ getBlockAsInteger p ∧
      decimalInt (getBlockAsInteger q) ≠ decimalInt (getBlockAsInteger p))

/-- Keys are right where the coordinate form is looked for, and else for the origin alone. -/
theorem keysRight_iff (w : PosWidth) (p : V3) (h : w.InRange p) :
    KeysRight w p ↔ w = .pos32 ∨ p = ⟨0, 0, 0⟩ := by
  constructor
  · intro hright
    cases w with
    | pos16 => exact Or.inr (hright.string.symm.trans (getStringAsBlock_string_pos16 p))
    | pos32 => exact Or.inl rfl
  · intro hor
    have hstring : getStringAsBlock w (getBlockAsString p) = p := by
      cases w with
      | pos16 =>
        obtain rfl := hor.resolve_left (by decide)
        exact getStringAsBlock_string_pos16 _
      | pos32 => exact getStringAsBlock_string h
    refine ⟨getIntegerAsBlock_getBlockAsInteger, hstring, getStringAsBlock_integer w, ?_,
      fun q hne => ⟨fun heq => hne (getBlockAsString_inj heq), fun _ heq => ?_, fun _ heq => ?_,
        fun hq hp => ⟨fun heq => ?_, fun heq => ?_⟩⟩⟩
    · unfold getBlockAsStringCompatible
      cases w with
      | pos16 => exact hstring
      | pos32 =>
        dsimp only
        split_ifs with hlimit
        · exact getStringAsBlock_integer .pos32 hlimit.packed
        · exact hstring
    · exact getBlockAsString_ne_integer p _ heq.symm
    · exact getBlockAsString_ne_integer q _ heq
    · exact hne (getBlockAsInteger_inj hq hp heq)
    · exact hne (getBlockAsInteger_inj hq hp (decimalInt_inj_self heq))

theorem keysRight_iff_pos16 : KeysRight .pos16 ⟨-2048, 2047, 3⟩ ↔
    PosWidth.pos16 = .pos32 ∨ (⟨-2048, 2047, 3⟩ : V3) = ⟨0, 0, 0⟩ :=
  keysRight_iff .pos16 ⟨-2048, 2047, 3⟩ (Packed.inRange (by decide) .pos16)

/-- The key `a1,2,3` is decoded to the origin under 16 bits. -/
theorem not_keysRight_pos16 : PosWidth.pos16.InRange ⟨1, 2, 3⟩ ∧ ¬ KeysRight .pos16 ⟨1, 2, 3⟩ := by
  refine ⟨Packed.inRange (by decide) .pos16, fun h => ?_⟩
  have := (getStringAsBlock_string_pos16 ⟨1, 2, 3⟩).symm.trans h.string
  simp at this

end Keys

end Freeminer.Database
