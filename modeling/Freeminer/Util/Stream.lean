import Mathlib.Data.Nat.Digits.Defs
import Mathlib.Tactic.IntervalCases
import Freeminer.Lib.Delimited
import Freeminer.Util.Serialize

/-! `std::istream` over a string, and numbers in decimal text. A stream that hit its end or failed
is no longer good; nothing is read from it, and a variable read from it keeps its old value. -/

namespace Freeminer

open Lib

structure IStream where
  rest : ByteString
  eof : Bool := false
  fail : Bool := false

def isSpace (c : UInt8) : Bool := c == 32 || 9 ≤ c && c ≤ 13

/-- `trim` -/
def trim (s : ByteString) : ByteString :=
  ((s.dropWhile isSpace).reverse.dropWhile isSpace).reverse

/-- `str_split`, which gives no last part when nothing stands in it. -/
def strSplit (s : ByteString) (delimiter : UInt8) : List ByteString :=
  let parts := s.splitOn delimiter
  if parts.getLast? = some [] then parts.dropLast else parts

def isDigit (c : UInt8) : Bool := 48 ≤ c && c ≤ 57

def digitsValue (ds : ByteString) : ℕ := ds.foldl (fun n c => 10 * n + (c.toNat - 48)) 0

/-- `os << n` -/
def decimal (n : ℕ) : ByteString :=
  if n = 0 then [48] else (Nat.digits 10 n).reverse.map fun d => UInt8.ofNat (48 + d)

/-- `mystoi`, that is `atoi`: no digits are zero, and a number out of range of a `long` is cut to
it before its low 32 bits are taken. -/
def stoi (s : ByteString) : ℤ :=
  let s := s.dropWhile isSpace
  let value (s : ByteString) : ℤ := digitsValue (s.takeWhile isDigit)
  let long : ℤ := match s with
    | 45 :: s => max (-(2 ^ 63)) (-value s)
    | 43 :: s => min (2 ^ 63 - 1) (value s)
    | s => min (2 ^ 63 - 1) (value s)
  Int.bmod long (2 ^ 32)

namespace IStream

def good (s : IStream) : Bool := !s.eof && !s.fail

/-- `std::getline` into an empty string. -/
def getline (s : IStream) (delim : UInt8) : ByteString × IStream :=
  if s.good then
    match cut delim s.rest with
    | (line, some rest) => (line, { s with rest })
    | (line, none) => (line, { rest := [], eof := true, fail := line.isEmpty })
  else ([], { s with fail := true })

/-- `peek`: nothing at the end. -/
def peek (s : IStream) : Option UInt8 × IStream :=
  if s.good then
    match s.rest with
    | [] => (none, { s with eof := true })
    | c :: _ => (some c, s)
  else (none, { s with fail := true })

def unget (s : IStream) (c : UInt8) : IStream := { s with rest := c :: s.rest }

/-- `is >> n` for an unsigned integer of some width that holds `old`. -/
def readUnsigned (s : IStream) (bits old : ℕ) : ℕ × IStream :=
  if s.good then
    match s.rest.dropWhile isSpace with
    | [] => (old, { rest := [], eof := true, fail := true })
    | c :: cs =>
      let text := if c = 43 ∨ c = 45 then cs else c :: cs
      let digits := text.takeWhile isDigit
      let rest := text.dropWhile isDigit
      let value := digitsValue digits
      if digits.isEmpty then (0, { rest, eof := rest.isEmpty, fail := true })
      else if 2 ^ bits ≤ value then (2 ^ bits - 1, { rest, eof := rest.isEmpty, fail := true })
      else
        (if c = 45 then (2 ^ bits - value) % 2 ^ bits else value, { rest, eof := rest.isEmpty })
  else (old, { s with fail := true })

/-- `is >> n` for a signed integer of some width that holds `old`. -/
def readSigned (s : IStream) (bits : ℕ) (old : ℤ) : ℤ × IStream :=
  if s.good then
    match s.rest.dropWhile isSpace with
    | [] => (old, { rest := [], eof := true, fail := true })
    | c :: cs =>
      let text := if c = 43 ∨ c = 45 then cs else c :: cs
      let digits := text.takeWhile isDigit
      let rest := text.dropWhile isDigit
      let value : ℤ := if c = 45 then -digitsValue digits else digitsValue digits
      if digits.isEmpty then (0, { rest, eof := rest.isEmpty, fail := true })
      else if 2 ^ (bits - 1) ≤ value then
        (2 ^ (bits - 1) - 1, { rest, eof := rest.isEmpty, fail := true })
      else if value < -2 ^ (bits - 1) then
        (-2 ^ (bits - 1), { rest, eof := rest.isEmpty, fail := true })
      else (value, { rest, eof := rest.isEmpty })
  else (old, { s with fail := true })

/-- `is >> c` for a character that is not used. -/
def skipChar (s : IStream) : IStream :=
  if s.good then
    match s.rest.dropWhile isSpace with
    | [] => { rest := [], eof := true, fail := true }
    | _ :: cs => { rest := cs }
  else { s with fail := true }

variable {line rest : ByteString} {delim : UInt8}

theorem getline_delim (h : delim ∉ line) (rest : ByteString) :
    getline { rest := line ++ delim :: rest } delim = (line, { rest }) := by
  simp [getline, good, cut_append_cons h]

theorem getline_end (h : delim ∉ line) :
    getline { rest := line } delim =
      (line, { rest := [], eof := true, fail := line.isEmpty }) := by
  simp [getline, good, cut_of_notMem h]

end IStream

/-! ## Decimal numbers -/

theorem isDigit_digit {d : ℕ} (h : d < 10) : isDigit (UInt8.ofNat (48 + d)) = true := by
  interval_cases d <;> rfl

theorem toNat_digit {d : ℕ} (h : d < 10) : (UInt8.ofNat (48 + d)).toNat - 48 = d := by
  interval_cases d <;> rfl

theorem isDigit_of_mem_decimal {n : ℕ} {c : UInt8} (h : c ∈ decimal n) : isDigit c = true := by
  unfold decimal at h
  split_ifs at h
  · rw [List.mem_singleton] at h
    rw [h]
    rfl
  · simp only [List.mem_map, List.mem_reverse] at h
    obtain ⟨d, hd, rfl⟩ := h
    exact isDigit_digit (Nat.digits_lt_base (by norm_num) hd)

theorem decimal_ne_nil (n : ℕ) : decimal n ≠ [] := by
  unfold decimal
  split_ifs with h
  · simp
  · simpa [Nat.digits_eq_nil_iff_eq_zero] using h

theorem notMem_decimal {c : UInt8} (hc : isDigit c = false) (n : ℕ) : c ∉ decimal n := by
  intro h
  rw [isDigit_of_mem_decimal h] at hc
  exact Bool.noConfusion hc

theorem digitsValue_append (ds : ByteString) (c : UInt8) :
    digitsValue (ds ++ [c]) = 10 * digitsValue ds + (c.toNat - 48) := by
  simp [digitsValue]

theorem digitsValue_digits {ds : List ℕ} (h : ∀ d ∈ ds, d < 10) :
    digitsValue (ds.reverse.map fun d => UInt8.ofNat (48 + d)) = Nat.ofDigits 10 ds := by
  induction ds with
  | nil => rfl
  | cons d ds ih =>
    have hd : d < 10 := h d List.mem_cons_self
    have ih := ih fun d hd => h d (List.mem_cons_of_mem _ hd)
    rw [List.reverse_cons, List.map_append, List.map_singleton, digitsValue_append, ih,
      toNat_digit hd, Nat.ofDigits_cons]
    omega

theorem digitsValue_decimal (n : ℕ) : digitsValue (decimal n) = n := by
  unfold decimal
  split_ifs with h
  · rw [h]
    rfl
  · rw [digitsValue_digits fun d hd => Nat.digits_lt_base (by norm_num) hd, Nat.ofDigits_digits]

theorem takeWhile_decimal (n : ℕ) : (decimal n).takeWhile isDigit = decimal n :=
  List.takeWhile_eq_self_iff.mpr fun _ h => isDigit_of_mem_decimal h

/-- The first digit is no space and no sign. -/
theorem decimal_eq_cons (n : ℕ) : ∃ c cs, decimal n = c :: cs ∧ isDigit c = true := by
  obtain ⟨c, cs, h⟩ := List.exists_cons_of_ne_nil (decimal_ne_nil n)
  exact ⟨c, cs, h, isDigit_of_mem_decimal (h ▸ List.mem_cons_self)⟩

theorem isSpace_of_isDigit {c : UInt8} (h : isDigit c = true) : isSpace c = false := by
  simp only [isDigit, Bool.and_eq_true, decide_eq_true_eq] at h
  simp only [isSpace, Bool.or_eq_false_iff, beq_eq_false_iff_ne, Bool.and_eq_false_iff,
    decide_eq_false_iff_not]
  have h48 := UInt8.le_iff_toNat_le.mp h.1
  refine ⟨?_, .inr fun h13 => ?_⟩
  · rintro rfl
    exact absurd h48 (by decide)
  · have h13 := UInt8.le_iff_toNat_le.mp h13
    exact absurd (h48.trans h13) (by decide)

theorem ne_sign_of_isDigit {c : UInt8} (h : isDigit c = true) : c ≠ 43 ∧ c ≠ 45 := by
  constructor <;> rintro rfl <;> exact Bool.noConfusion h

theorem dropWhile_isSpace {c : UInt8} (h : isDigit c = true) (cs : ByteString) :
    (c :: cs).dropWhile isSpace = c :: cs :=
  List.dropWhile_cons_of_neg (by simp [isSpace_of_isDigit h])

theorem stoi_decimal_bmod {n : ℕ} (h : n < 2 ^ 63) : stoi (decimal n) = Int.bmod n (2 ^ 32) := by
  obtain ⟨c, cs, hcs, hc⟩ := decimal_eq_cons n
  have hsign := ne_sign_of_isDigit hc
  have hvalue : (digitsValue ((c :: cs).takeWhile isDigit) : ℤ) = n := by
    rw [← hcs, takeWhile_decimal, digitsValue_decimal]
  unfold stoi
  simp only [hcs, dropWhile_isSpace hc]
  split
  · rename_i heq
    exact absurd (List.cons.inj heq).1 hsign.2
  · rename_i heq
    exact absurd (List.cons.inj heq).1 hsign.1
  · rw [hvalue, min_eq_right (by omega)]

theorem stoi_decimal {n : ℕ} (h : n < 2 ^ 31) : stoi (decimal n) = n := by
  rw [stoi_decimal_bmod (by omega)]
  exact Int.bmod_eq_of_le (by omega) (by omega)

theorem readUnsigned_decimal {n bits : ℕ} (h : n < 2 ^ bits) (old : ℕ) :
    IStream.readUnsigned { rest := decimal n } bits old = (n, { rest := [], eof := true }) := by
  obtain ⟨c, cs, hcs, hc⟩ := decimal_eq_cons n
  have hsign := ne_sign_of_isDigit hc
  have htake : (c :: cs).takeWhile isDigit = c :: cs := hcs ▸ takeWhile_decimal n
  have hdrop : (c :: cs).dropWhile isDigit = [] :=
    List.dropWhile_eq_nil_iff.mpr fun x hx => isDigit_of_mem_decimal (n := n) (hcs ▸ hx)
  have hvalue : digitsValue (c :: cs) = n := hcs ▸ digitsValue_decimal n
  unfold IStream.readUnsigned
  simp only [hcs, dropWhile_isSpace hc]
  simp [IStream.good, hsign, htake, hdrop, hvalue, Nat.not_le.mpr h]

/-! ## Signed numbers -/

/-- `os << n` for a signed integer. -/
def decimalInt (n : ℤ) : ByteString := if n < 0 then 45 :: decimal n.natAbs else decimal n.natAbs

theorem notMem_decimalInt {c : UInt8} (hc : isDigit c = false) (hsign : c ≠ 45) (n : ℤ) :
    c ∉ decimalInt n := by
  unfold decimalInt
  split_ifs
  · simp [hsign, notMem_decimal hc]
  · exact notMem_decimal hc _

theorem stoi_decimalInt {n : ℤ} (hlo : -2 ^ 31 ≤ n) (hhi : n < 2 ^ 31) :
    stoi (decimalInt n) = n := by
  unfold decimalInt
  split_ifs with hneg
  · have hspace : (45 :: decimal n.natAbs).dropWhile isSpace = 45 :: decimal n.natAbs :=
      List.dropWhile_cons_of_neg (by decide)
    unfold stoi
    simp only [hspace, takeWhile_decimal, digitsValue_decimal]
    rw [max_eq_right (by omega), Int.bmod_eq_of_le (by omega) (by omega)]
    omega
  · rw [stoi_decimal (by omega)]
    omega

/-- A signed number is read up to what is no digit. -/
theorem readSigned_decimalInt {n : ℤ} {bits : ℕ} (hlo : -2 ^ (bits - 1) ≤ n)
    (hhi : n < 2 ^ (bits - 1)) (old : ℤ) (rest : ByteString)
    (hrest : ∀ c ∈ rest.head?, isDigit c = false) :
    IStream.readSigned { rest := decimalInt n ++ rest } bits old =
      (n, { rest, eof := rest.isEmpty }) := by
  have htake : (decimal n.natAbs ++ rest).takeWhile isDigit = decimal n.natAbs := by
    rw [List.takeWhile_append_of_pos fun c hc => isDigit_of_mem_decimal hc]
    cases rest with
    | nil => simp
    | cons c cs => simp [hrest c rfl]
  have hdrop : (decimal n.natAbs ++ rest).dropWhile isDigit = rest := by
    rw [List.dropWhile_append_of_pos fun c hc => isDigit_of_mem_decimal hc]
    cases rest with
    | nil => rfl
    | cons c cs => simp [hrest c rfl]
  have hempty : (decimal n.natAbs).isEmpty = false := by simp [decimal_ne_nil]
  unfold IStream.readSigned decimalInt
  by_cases hneg : n < 0
  · have habs : |n| = -n := abs_of_neg hneg
    have hspace : (45 :: (decimal n.natAbs ++ rest)).dropWhile isSpace =
        45 :: (decimal n.natAbs ++ rest) := List.dropWhile_cons_of_neg (by decide)
    simp [IStream.good, hneg, hspace, htake, hdrop, hempty, digitsValue_decimal, habs,
      Int.not_le.mpr hhi, hlo]
  · obtain ⟨c, cs, hcs, hc⟩ := decimal_eq_cons n.natAbs
    have hsign := ne_sign_of_isDigit hc
    have hvalue : (n.natAbs : ℤ) = n := by omega
    rw [hcs, List.cons_append] at htake hdrop
    have hspace := dropWhile_isSpace hc (cs ++ rest)
    have hdigits : (digitsValue (c :: cs) : ℤ) = n := by
      rw [← hcs, digitsValue_decimal, hvalue]
    simp [IStream.good, hneg, hcs, hspace, htake, hdrop, hsign, hdigits, Int.not_le.mpr hhi,
      Int.not_lt.mpr hlo]

/-- What starts with no sign and no digit is no number. -/
theorem readSigned_of_not_digit {c : UInt8} (hspace : isSpace c = false) (hdigit : isDigit c = false)
    (hsign : c ≠ 43 ∧ c ≠ 45) (cs : ByteString) (bits : ℕ) (old : ℤ) :
    (IStream.readSigned { rest := c :: cs } bits old).1 = 0 := by
  have hdrop : (c :: cs).dropWhile isSpace = c :: cs :=
    List.dropWhile_cons_of_neg (by simp [hspace])
  unfold IStream.readSigned
  simp [IStream.good, hdrop, hsign, hdigit]

/-- Before a comma or at the end the numbers are the same when the text is. -/
theorem decimalInt_inj {n m : ℤ} {a b : ByteString} (ha : ∀ c ∈ a.head?, isDigit c = false)
    (hb : ∀ c ∈ b.head?, isDigit c = false) (h : decimalInt n ++ a = decimalInt m ++ b) :
    n = m ∧ a = b := by
  obtain ⟨bits, hn, hm⟩ : ∃ bits : ℕ, (-2 ^ (bits - 1) ≤ n ∧ n < 2 ^ (bits - 1)) ∧
      (-2 ^ (bits - 1) ≤ m ∧ m < 2 ^ (bits - 1)) := by
    refine ⟨n.natAbs + m.natAbs + 1 + 1, ?_⟩
    have hlt : n.natAbs + m.natAbs + 1 < 2 ^ (n.natAbs + m.natAbs + 1) := Nat.lt_two_pow_self
    rw [Nat.add_sub_cancel]
    have : ((n.natAbs + m.natAbs + 1 : ℕ) : ℤ) < 2 ^ (n.natAbs + m.natAbs + 1) := by
      exact_mod_cast hlt
    omega
  have hreadn := readSigned_decimalInt hn.1 hn.2 0 a ha
  have hreadm := readSigned_decimalInt hm.1 hm.2 0 b hb
  rw [h, hreadm] at hreadn
  injection hreadn with hval hstream
  injection hstream with hrest _ _
  exact ⟨hval.symm, hrest.symm⟩

end Freeminer
