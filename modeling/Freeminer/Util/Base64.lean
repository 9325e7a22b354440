import Mathlib.Data.List.TakeWhile
import Mathlib.Data.Fintype.Basic
import Mathlib.Tactic.IntervalCases
import Freeminer.Util.Serialize

/-! `util/base64.cpp`: the encoder, the decoder and the test of what is well formed. Lengths are
taken in an `int`; where a signed counter overflows or the text is read behind its end, the
result is `none`. -/

namespace Freeminer.Util

def base64_chars : ByteString :=
  bytes "ABCDEFGHIJKLMNOPQRSTUVWXYZabcdefghijklmnopqrstuvwxyz0123456789+/"

def base64_chars_padding_1 : ByteString := bytes "AEIMQUYcgkosw048"
def base64_chars_padding_2 : ByteString := bytes "AQgw"

def is_base64 (c : UInt8) : Bool :=
  (48 ≤ c && c ≤ 57) || (65 ≤ c && c ≤ 90) || (97 ≤ c && c ≤ 122) || c == 43 || c == 47

/-- `base64_chars[v]` -/
def charOf (v : UInt8) : UInt8 := base64_chars.getD v.toNat 0

/-- `base64_chars.find(c)` as an `unsigned char`: 255 where it is `npos`. -/
def find (c : UInt8) : UInt8 :=
  if c ∈ base64_chars then UInt8.ofNat (base64_chars.idxOf c) else 255

/-- A `size_t` as an `int`. -/
def toInt (n : ℕ) : ℤ := (n : ℤ).bmod (2 ^ 32)

/-! The encoder. -/

def sextet_0 (a : UInt8) : UInt8 := (a &&& 0xfc) >>> 2
def sextet_1 (a b : UInt8) : UInt8 := ((a &&& 0x03) <<< 4) + ((b &&& 0xf0) >>> 4)
def sextet_2 (b c : UInt8) : UInt8 := ((b &&& 0x0f) <<< 2) + ((c &&& 0xc0) >>> 6)
def sextet_3 (c : UInt8) : UInt8 := c &&& 0x3f

/-- `char_array_4` from `char_array_3`. -/
def sextets (a b c : UInt8) : List UInt8 := [sextet_0 a, sextet_1 a b, sextet_2 b c, sextet_3 c]

/-- What the left-over bytes become: padded with zeros, and one character more than bytes. -/
def encodeTail (buf : ByteString) : ByteString :=
  if buf = [] then []
  else ((sextets (buf.getD 0 0) (buf.getD 1 0) (buf.getD 2 0)).take (buf.length + 1)).map charOf

/-- The loop, with `char_array_3` up to `i`. -/
def encodeLoop (buf : ByteString) : ByteString → ByteString
  | [] => encodeTail buf
  | b :: s =>
    let buf := buf ++ [b]
    if buf.length = 3 then
      (sextets (buf.getD 0 0) (buf.getD 1 0) (buf.getD 2 0)).map charOf ++ encodeLoop [] s
    else encodeLoop buf s

def base64_encode (s : ByteString) : ByteString := encodeLoop [] s

/-! The decoder. -/

def octet_0 (w x : UInt8) : UInt8 := (w <<< 2) + ((x &&& 0x30) >>> 4)
def octet_1 (x y : UInt8) : UInt8 := ((x &&& 0xf) <<< 4) + ((y &&& 0x3c) >>> 2)
def octet_2 (y z : UInt8) : UInt8 := ((y &&& 0x3) <<< 6) + z

/-- `char_array_3` from `char_array_4`. -/
def octets (w x y z : UInt8) : List UInt8 := [octet_0 w x, octet_1 x y, octet_2 y z]

def octetsOf (quad : ByteString) : ByteString :=
  octets (find (quad.getD 0 0)) (find (quad.getD 1 0)) (find (quad.getD 2 0)) (find (quad.getD 3 0))

def decodeTail (quad : ByteString) : ByteString :=
  if quad = [] then [] else (octetsOf quad).take (quad.length - 1)

/-- The loop at `in_len` and `in_`, with `char_array_4` up to `i` and the text from `in_` on. -/
def decodeLoop (in_len : ℤ) (in_ : ℕ) (quad : ByteString) : ByteString → Option ByteString
  | [] => if in_len = 0 then some (decodeTail quad) else none
  | c :: s =>
    if in_len = 0 then some (decodeTail quad)
    else if in_len = -2 ^ 31 then none
    else if c = 61 ∨ ¬ is_base64 c then some (decodeTail quad)
    else if in_ = 2 ^ 31 - 1 then none
    else
      let quad := quad ++ [c]
      if quad.length = 4 then
        (decodeLoop (in_len - 1) (in_ + 1) [] s).map (octetsOf quad ++ ·)
      else decodeLoop (in_len - 1) (in_ + 1) quad s

def base64_decode (s : ByteString) : Option ByteString := decodeLoop (toInt s.length) 0 [] s

/-! The test. -/

/-- `3 - ((i + 3) % 4)` -/
def paddingOf (i : ℕ) : ℕ := 3 - (i + 3) % 4

def tailOk (digits : ByteString) : Bool :=
  let padding := paddingOf digits.length
  !((padding = 1 && !(digits.getLast?.any (· ∈ base64_chars_padding_1))) ||
    (padding = 2 && !(digits.getLast?.any (· ∈ base64_chars_padding_2))) || padding = 3)

def base64_is_valid (s : ByteString) : Bool :=
  let digits := s.takeWhile is_base64
  let rest := s.dropWhile is_base64
  if !tailOk digits then false
  else
    let actual_padding := toInt rest.length
    if actual_padding = 0 then true
    else if !(rest.all (· = 61)) then false
    else (paddingOf digits.length : ℤ) = actual_padding

/-- The encoding of some bytes, with its padding complete or left out. -/
def IsEncoding (t : ByteString) : Prop :=
  ∃ s pad, t = base64_encode s ++ pad ∧
    (pad = [] ∨ pad = List.replicate (paddingOf (base64_encode s).length) 61)

/-- The characters after the digits are so many that their number is not seen. -/
def CountWraps (t : ByteString) : Prop :=
  let rest := t.dropWhile is_base64
  2 ^ 32 ≤ rest.length ∧ tailOk (t.takeWhile is_base64) ∧
    (rest.length % 2 ^ 32 = 0 ∨
      (∀ c ∈ rest, c = 61) ∧ rest.length % 2 ^ 32 = paddingOf (t.takeWhile is_base64).length)

/-! Digits and bytes, as numbers. -/

theorem charOf_table : ∀ n < 64, is_base64 (charOf (UInt8.ofNat n)) ∧
    find (charOf (UInt8.ofNat n)) = UInt8.ofNat n ∧
    (charOf (UInt8.ofNat n) ∈ base64_chars_padding_1 ↔ n % 4 = 0) ∧
    (charOf (UInt8.ofNat n) ∈ base64_chars_padding_2 ↔ n % 16 = 0) := by
  decide +kernel

theorem find_table : ∀ n < 256, is_base64 (UInt8.ofNat n) → (find (UInt8.ofNat n)).toNat < 64 ∧
    charOf (find (UInt8.ofNat n)) = UInt8.ofNat n := by
  decide +kernel

theorem byte_table : ∀ n < 256,
    ((UInt8.ofNat n &&& 0xfc) >>> 2).toNat = n / 4 ∧
    ((UInt8.ofNat n &&& 0x03) <<< 4).toNat = n % 4 * 16 ∧
    ((UInt8.ofNat n &&& 0xf0) >>> 4).toNat = n / 16 ∧
    ((UInt8.ofNat n &&& 0x0f) <<< 2).toNat = n % 16 * 4 ∧
    ((UInt8.ofNat n &&& 0xc0) >>> 6).toNat = n / 64 ∧
    (UInt8.ofNat n &&& 0x3f).toNat = n % 64 ∧
    (UInt8.ofNat n <<< 2).toNat = n * 4 % 256 ∧
    ((UInt8.ofNat n &&& 0x30) >>> 4).toNat = n / 16 % 4 ∧
    ((UInt8.ofNat n &&& 0xf) <<< 4).toNat = n % 16 * 16 ∧
    ((UInt8.ofNat n &&& 0x3c) >>> 2).toNat = n / 4 % 16 ∧
    ((UInt8.ofNat n &&& 0x3) <<< 6).toNat = n % 4 * 64 := by
  decide +kernel

variable {a b c v w x y z : UInt8} {s t quad : ByteString}

theorem charOf_spec (h : v.toNat < 64) : is_base64 (charOf v) ∧ find (charOf v) = v ∧
    (charOf v ∈ base64_chars_padding_1 ↔ v.toNat % 4 = 0) ∧
    (charOf v ∈ base64_chars_padding_2 ↔ v.toNat % 16 = 0) := by
  simpa using charOf_table v.toNat h

theorem find_spec (h : is_base64 c) : (find c).toNat < 64 ∧ charOf (find c) = c := by
  simpa [h] using find_table c.toNat c.toNat_lt

theorem toNat_sextets (a b c : UInt8) : (sextet_0 a).toNat = a.toNat / 4 ∧
    (sextet_1 a b).toNat = a.toNat % 4 * 16 + b.toNat / 16 ∧
    (sextet_2 b c).toNat = b.toNat % 16 * 4 + c.toNat / 64 ∧ (sextet_3 c).toNat = c.toNat % 64 := by
  have ha := byte_table a.toNat a.toNat_lt
  have hb := byte_table b.toNat b.toNat_lt
  have hc := byte_table c.toNat c.toNat_lt
  have := b.toNat_lt
  have := c.toNat_lt
  simp only [UInt8.ofNat_toNat] at ha hb hc
  simp only [sextet_0, sextet_1, sextet_2, sextet_3, UInt8.toNat_add, ha, hb, hc, true_and,
    and_true]
  omega

theorem toNat_octets (hw : w.toNat < 64) (hx : x.toNat < 64) (hy : y.toNat < 64)
    (hz : z.toNat < 64) : (octet_0 w x).toNat = w.toNat * 4 + x.toNat / 16 ∧
    (octet_1 x y).toNat = x.toNat % 16 * 16 + y.toNat / 4 ∧
    (octet_2 y z).toNat = y.toNat % 4 * 64 + z.toNat := by
  have hw' := byte_table w.toNat w.toNat_lt
  have hx' := byte_table x.toNat x.toNat_lt
  have hy' := byte_table y.toNat y.toNat_lt
  simp only [UInt8.ofNat_toNat] at hw' hx' hy'
  simp only [octet_0, octet_1, octet_2, UInt8.toNat_add, hw', hx', hy']
  omega

theorem sextets_lt (a b c : UInt8) : (sextet_0 a).toNat < 64 ∧ (sextet_1 a b).toNat < 64 ∧
    (sextet_2 b c).toNat < 64 ∧ (sextet_3 c).toNat < 64 := by
  have h := toNat_sextets a b c
  have := a.toNat_lt
  have := b.toNat_lt
  have := c.toNat_lt
  omega

theorem octets_sextets (a b c : UInt8) :
    octet_0 (sextet_0 a) (sextet_1 a b) = a ∧ octet_1 (sextet_1 a b) (sextet_2 b c) = b ∧
      octet_2 (sextet_2 b c) (sextet_3 c) = c := by
  obtain ⟨h0, h1, h2, h3⟩ := sextets_lt a b c
  have hs := toNat_sextets a b c
  have ho := toNat_octets h0 h1 h2 h3
  have := a.toNat_lt
  have := b.toNat_lt
  have := c.toNat_lt
  simp only [← UInt8.toNat_inj]
  omega

theorem sextets_octets (hw : w.toNat < 64) (hx : x.toNat < 64) (hy : y.toNat < 64)
    (hz : z.toNat < 64) :
    sextets (octet_0 w x) (octet_1 x y) (octet_2 y z) = [w, x, y, z] := by
  have hs := toNat_sextets (octet_0 w x) (octet_1 x y) (octet_2 y z)
  have ho := toNat_octets hw hx hy hz
  simp only [sextets, List.cons.injEq, ← UInt8.toNat_inj, and_true]
  omega

/-! Both loops, group by group. -/

theorem groups_of_three {P : ByteString → Prop} (h0 : P []) (h1 : ∀ a, P [a])
    (h2 : ∀ a b, P [a, b]) (h3 : ∀ a b c s, P s → P (a :: b :: c :: s)) : ∀ s, P s
  | [] => h0
  | [a] => h1 a
  | [a, b] => h2 a b
  | a :: b :: c :: s => h3 a b c s (groups_of_three h0 h1 h2 h3 s)

theorem groups_of_four {P : ByteString → Prop} (h0 : P []) (h1 : ∀ a, P [a])
    (h2 : ∀ a b, P [a, b]) (h3 : ∀ a b c, P [a, b, c])
    (h4 : ∀ a b c d s, P s → P (a :: b :: c :: d :: s)) : ∀ s, P s
  | [] => h0
  | [a] => h1 a
  | [a, b] => h2 a b
  | [a, b, c] => h3 a b c
  | a :: b :: c :: d :: s => h4 a b c d s (groups_of_four h0 h1 h2 h3 h4 s)

theorem encode_cons (a b c : UInt8) (s : ByteString) :
    base64_encode (a :: b :: c :: s) = (sextets a b c).map charOf ++ base64_encode s := rfl

theorem encode_one (a : UInt8) :
    base64_encode [a] = [charOf (sextet_0 a), charOf (sextet_1 a 0)] := rfl

theorem encode_two (a b : UInt8) : base64_encode [a, b] =
    [charOf (sextet_0 a), charOf (sextet_1 a b), charOf (sextet_2 b 0)] := rfl

def decodeDigits (quad : ByteString) : ByteString → ByteString
  | [] => decodeTail quad
  | c :: s =>
    if (quad ++ [c]).length = 4 then octetsOf (quad ++ [c]) ++ decodeDigits [] s
    else decodeDigits (quad ++ [c]) s

theorem decode_cons (p q r d : UInt8) (s : ByteString) :
    decodeDigits [] (p :: q :: r :: d :: s) =
      octets (find p) (find q) (find r) (find d) ++ decodeDigits [] s := rfl

theorem decode_one (p : UInt8) : decodeDigits [] [p] = [] := rfl

theorem decode_two (p q : UInt8) : decodeDigits [] [p, q] = [octet_0 (find p) (find q)] := rfl

theorem decode_three (p q r : UInt8) : decodeDigits [] [p, q, r] =
    [octet_0 (find p) (find q), octet_1 (find q) (find r)] := rfl

theorem decodeDigits_encode (s : ByteString) : decodeDigits [] (base64_encode s) = s := by
  induction s using groups_of_three with
  | h0 => rfl
  | h1 a =>
    obtain ⟨h0, h1, -, -⟩ := sextets_lt a 0 0
    rw [encode_one, decode_two, (charOf_spec h0).2.1, (charOf_spec h1).2.1, (octets_sextets a 0 0).1]
  | h2 a b =>
    obtain ⟨h0, h1, h2, -⟩ := sextets_lt a b 0
    rw [encode_two, decode_three, (charOf_spec h0).2.1, (charOf_spec h1).2.1, (charOf_spec h2).2.1,
      (octets_sextets a b 0).1, (octets_sextets a b 0).2.1]
  | h3 a b c s ih =>
    obtain ⟨h0, h1, h2, h3⟩ := sextets_lt a b c
    obtain ⟨e0, e1, e2⟩ := octets_sextets a b c
    rw [encode_cons]
    simp only [sextets, List.map_cons, List.map_nil, List.cons_append, List.nil_append]
    rw [decode_cons, (charOf_spec h0).2.1, (charOf_spec h1).2.1, (charOf_spec h2).2.1,
      (charOf_spec h3).2.1, ih, octets, e0, e1, e2]
    rfl

theorem digits_encode (s : ByteString) : ∀ c ∈ base64_encode s, is_base64 c := by
  induction s using groups_of_three with
  | h0 => simp [base64_encode, encodeLoop, encodeTail]
  | h1 a =>
    obtain ⟨h0, h1, -, -⟩ := sextets_lt a 0 0
    simp [encode_one, (charOf_spec h0).1, (charOf_spec h1).1]
  | h2 a b =>
    obtain ⟨h0, h1, h2, -⟩ := sextets_lt a b 0
    simp [encode_two, (charOf_spec h0).1, (charOf_spec h1).1, (charOf_spec h2).1]
  | h3 a b c s ih =>
    obtain ⟨h0, h1, h2, h3⟩ := sextets_lt a b c
    intro d hd
    rw [encode_cons] at hd
    obtain hd | hd := List.mem_append.mp hd
    · simp only [sextets, List.map_cons, List.map_nil, List.mem_cons, List.not_mem_nil,
        or_false] at hd
      obtain rfl | rfl | rfl | rfl := hd
      · exact (charOf_spec h0).1
      · exact (charOf_spec h1).1
      · exact (charOf_spec h2).1
      · exact (charOf_spec h3).1
    · exact ih d hd

theorem length_encode (s : ByteString) : (base64_encode s).length =
    s.length / 3 * 4 + if s.length % 3 = 0 then 0 else s.length % 3 + 1 := by
  induction s using groups_of_three with
  | h0 => rfl
  | h1 a => simp [encode_one]
  | h2 a b => simp [encode_two]
  | h3 a b c s ih =>
    simp only [encode_cons, List.length_append, ih, sextets, List.length_map, List.length_cons,
      List.length_nil]
    split_ifs <;> omega

theorem length_decodeDigits (s : ByteString) :
    (decodeDigits [] s).length = s.length / 4 * 3 + (s.length % 4 - 1) := by
  induction s using groups_of_four with
  | h0 => rfl
  | h1 a => simp [decode_one]
  | h2 a b => simp [decode_two]
  | h3 a b c => simp [decode_three]
  | h4 a b c d s ih =>
    simp only [decode_cons, List.length_append, ih, octets, List.length_cons, List.length_nil]
    omega

/-! Round trip: the counters are right while the text is shorter than `2 ^ 31`. -/

theorem toInt_bounds (n : ℕ) : -2 ^ 31 ≤ toInt n ∧ toInt n < 2 ^ 31 := by
  unfold toInt
  have h1 := Int.le_bmod (x := n) (m := 2 ^ 32) (by decide)
  have h2 := Int.bmod_lt (x := n) (m := 2 ^ 32) (by decide)
  omega

theorem toInt_emod (n : ℕ) : toInt n % 2 ^ 32 = n % 2 ^ 32 := by
  unfold toInt
  exact_mod_cast Int.bmod_emod

theorem digit_ne (h : is_base64 c) : c ≠ 61 := by
  rintro rfl
  exact absurd h (by decide)

/-- A counter that is not negative: so many of the digits are decoded. -/
theorem decodeLoop_digits {in_len in_ : ℕ} (hs : ∀ c ∈ s, is_base64 c) (hlen : in_len ≤ s.length)
    (hin : in_ + in_len < 2 ^ 31) :
    decodeLoop in_len in_ quad s = some (decodeDigits quad (s.take in_len)) := by
  induction s generalizing in_len in_ quad with
  | nil =>
    obtain rfl := Nat.le_zero.mp hlen
    rfl
  | cons c s ih =>
    cases in_len with
    | zero => rfl
    | succ n =>
      have hc := hs c List.mem_cons_self
      have hrest := fun quad => @ih quad n (in_ + 1)
        (fun d hd => hs d (List.mem_cons_of_mem c hd)) (by simpa using hlen) (by omega)
      rw [decodeLoop, List.take_succ_cons, decodeDigits, if_neg (by omega), if_neg (by omega),
        if_neg (by simp [hc, digit_ne hc]), if_neg (by omega),
        show ((n + 1 : ℕ) : ℤ) - 1 = n by omega]
      dsimp only
      split_ifs
      · rw [hrest, Option.map_some]
      · exact hrest _

/-- A negative one runs on until it overflows. -/
theorem decodeLoop_overflow {k in_ : ℕ} (hs : ∀ c ∈ s, is_base64 c) (hlen : k < s.length)
    (hk : k < 2 ^ 31) (hin : in_ + k < 2 ^ 31) :
    decodeLoop (-2 ^ 31 + k) in_ quad s = none := by
  induction s generalizing k in_ quad with
  | nil => exact absurd hlen (Nat.not_lt_zero k)
  | cons c s ih =>
    rw [decodeLoop, if_neg (by omega)]
    cases k with
    | zero => rfl
    | succ n =>
      have hc := hs c List.mem_cons_self
      have hrest := fun quad => @ih quad n (in_ + 1)
        (fun d hd => hs d (List.mem_cons_of_mem c hd)) (by simpa using hlen) (by omega) (by omega)
      rw [if_neg (by omega), if_neg (by simp [hc, digit_ne hc]), if_neg (by omega),
        show -2 ^ 31 + ((n + 1 : ℕ) : ℤ) - 1 = -2 ^ 31 + n by omega]
      dsimp only
      split_ifs
      · rw [hrest, Option.map_none]
      · exact hrest _

theorem decode_encode_iff (s : ByteString) :
    base64_decode (base64_encode s) = some s ↔ (base64_encode s).length < 2 ^ 31 := by
  have hdig := digits_encode s
  have hb := toInt_bounds (base64_encode s).length
  have hmod := toInt_emod (base64_encode s).length
  unfold base64_decode
  by_cases hneg : toInt (base64_encode s).length < 0
  · obtain ⟨k, hk⟩ : ∃ k : ℕ, toInt (base64_encode s).length = -2 ^ 31 + k :=
      ⟨(toInt (base64_encode s).length + 2 ^ 31).toNat, by omega⟩
    rw [hk, decodeLoop_overflow hdig (by omega) (by omega) (by omega)]
    exact iff_of_false (by simp) (by omega)
  · obtain ⟨n, hn⟩ : ∃ n : ℕ, toInt (base64_encode s).length = n :=
      ⟨(toInt (base64_encode s).length).toNat, by omega⟩
    rw [hn, decodeLoop_digits hdig (by omega) (by omega), Option.some_inj]
    constructor
    · intro heq
      -- fewer digits than there are give fewer bytes
      have hl := congrArg List.length heq
      rw [length_decodeDigits, List.length_take] at hl
      have he := length_encode s
      split_ifs at he <;> omega
    · intro hlt
      rw [List.take_of_length_le (by omega), decodeDigits_encode]

/-! What is well formed. -/

theorem tailOk_cons (p q r d : UInt8) (s : ByteString) :
    tailOk (p :: q :: r :: d :: s) = tailOk s := by
  have hpad : paddingOf (p :: q :: r :: d :: s).length = paddingOf s.length := by
    simp only [paddingOf, List.length_cons]
    omega
  unfold tailOk
  rw [hpad]
  cases s with
  | nil => rfl
  | cons c s => simp [List.getLast?_cons_cons]

theorem tailOk_encode (s : ByteString) : tailOk (base64_encode s) := by
  induction s using groups_of_three with
  | h0 => rfl
  | h1 a =>
    have hlt := sextets_lt a 0 0
    have hs := toNat_sextets a 0 0
    have hmem := (charOf_spec hlt.2.1).2.2.2.mpr (by simp [hs.2.1])
    simp [encode_one, tailOk, paddingOf, hmem]
  | h2 a b =>
    have hlt := sextets_lt a b 0
    have hs := toNat_sextets a b 0
    have hmem := (charOf_spec hlt.2.2.1).2.2.1.mpr (by simp [hs.2.2.1])
    simp [encode_two, tailOk, paddingOf, hmem]
  | h3 a b c s ih => exact (tailOk_cons _ _ _ _ _).trans ih

/-- Digits whose last one leaves no bits over are an encoding: of what they decode to. -/
theorem encode_decodeDigits (hs : ∀ c ∈ s, is_base64 c) (h : tailOk s) :
    base64_encode (decodeDigits [] s) = s := by
  have h64 : (0 : UInt8).toNat < 64 := by decide
  induction s using groups_of_four with
  | h0 => rfl
  | h1 p => exact absurd h (by simp [tailOk, paddingOf])
  | h2 p q =>
    obtain ⟨hp, ep⟩ := find_spec (hs p (by simp))
    obtain ⟨hq, eq⟩ := find_spec (hs q (by simp))
    have hmem : q ∈ base64_chars_padding_2 := by simpa [tailOk, paddingOf] using h
    rw [← eq, (charOf_spec hq).2.2.2] at hmem
    have hzero : octet_1 (find q) 0 = 0 := by
      have := (toNat_octets hp hq h64 h64).2.1
      rw [← UInt8.toNat_inj, this, UInt8.toNat_zero]
      omega
    have hsext := sextets_octets hp hq h64 h64
    rw [hzero] at hsext
    simp only [sextets, List.cons.injEq] at hsext
    rw [decode_two, encode_one, hsext.1, hsext.2.1, ep, eq]
  | h3 p q r =>
    obtain ⟨hp, ep⟩ := find_spec (hs p (by simp))
    obtain ⟨hq, eq⟩ := find_spec (hs q (by simp))
    obtain ⟨hr, er⟩ := find_spec (hs r (by simp))
    have hmem : r ∈ base64_chars_padding_1 := by simpa [tailOk, paddingOf] using h
    rw [← er, (charOf_spec hr).2.2.1] at hmem
    have hzero : octet_2 (find r) 0 = 0 := by
      have := (toNat_octets hp hq hr h64).2.2
      rw [← UInt8.toNat_inj, this, UInt8.toNat_zero]
      omega
    have hsext := sextets_octets hp hq hr h64
    rw [hzero] at hsext
    simp only [sextets, List.cons.injEq] at hsext
    rw [decode_three, encode_two, hsext.1, hsext.2.1, hsext.2.2.1, ep, eq, er]
  | h4 p q r d s ih =>
    obtain ⟨hp, ep⟩ := find_spec (hs p (by simp))
    obtain ⟨hq, eq⟩ := find_spec (hs q (by simp))
    obtain ⟨hr, er⟩ := find_spec (hs r (by simp))
    obtain ⟨hd, ed⟩ := find_spec (hs d (by simp))
    rw [decode_cons]
    simp only [octets, List.cons_append, List.nil_append]
    rw [encode_cons, sextets_octets hp hq hr hd,
      ih (fun c hc => hs c (by simp [hc])) (by rwa [tailOk_cons] at h)]
    simp [ep, eq, er, ed]

theorem paddingOf_le (i : ℕ) : paddingOf i ≤ 3 := Nat.sub_le _ _

theorem isEncoding_iff (t : ByteString) : IsEncoding t ↔ tailOk (t.takeWhile is_base64) ∧
    (t.dropWhile is_base64 = [] ∨ t.dropWhile is_base64 =
      List.replicate (paddingOf (t.takeWhile is_base64).length) 61) := by
  constructor
  · rintro ⟨s, pad, rfl, hpad⟩
    have hfirst : pad.takeWhile is_base64 = [] ∧ pad.dropWhile is_base64 = pad := by
      obtain rfl | rfl := hpad
      · exact ⟨rfl, rfl⟩
      · cases paddingOf (base64_encode s).length with
        | zero => exact ⟨rfl, rfl⟩
        | succ n => exact ⟨rfl, rfl⟩
    rw [List.takeWhile_append_of_pos (digits_encode s), List.dropWhile_append_of_pos
      (digits_encode s), hfirst.1, hfirst.2, List.append_nil]
    exact ⟨tailOk_encode s, hpad⟩
  · rintro ⟨htail, hrest⟩
    have henc := encode_decodeDigits (fun c hc => List.mem_takeWhile_imp hc) htail
    refine ⟨decodeDigits [] (t.takeWhile is_base64), t.dropWhile is_base64, ?_, ?_⟩
    · rw [henc, List.takeWhile_append_dropWhile]
    · rwa [henc]

theorem is_valid_iff (t : ByteString) : base64_is_valid t ↔ tailOk (t.takeWhile is_base64) ∧
    (toInt (t.dropWhile is_base64).length = 0 ∨ (∀ c ∈ t.dropWhile is_base64, c = 61) ∧
      (paddingOf (t.takeWhile is_base64).length : ℤ) = toInt (t.dropWhile is_base64).length) := by
  unfold base64_is_valid
  dsimp only
  split_ifs with h1 h2 h3
  · simp_all
  · simp_all
  · simp_all
  · simp_all
    exact fun _ => h3

theorem valid_iff_encoding (t : ByteString) :
    (base64_is_valid t ↔ IsEncoding t) ↔ ¬ CountWraps t := by
  rw [is_valid_iff, isEncoding_iff, List.eq_replicate_iff, ← List.length_eq_zero_iff]
  unfold CountWraps
  dsimp only
  have hle := paddingOf_le (t.takeWhile is_base64).length
  have hb := toInt_bounds (t.dropWhile is_base64).length
  have hmod := toInt_emod (t.dropWhile is_base64).length
  generalize (∀ c ∈ t.dropWhile is_base64, c = 61) = all
  by_cases htail : tailOk (t.takeWhile is_base64)
  · simp only [htail, true_and]
    by_cases hall : all
    · simp only [hall, true_and, and_true]
      omega
    · simp only [hall, false_and, and_false, or_false]
      omega
  · simp [htail]

/-- The round trip holds for exactly the texts whose encoding is shorter than `2 ^ 31`, and the
test is right on exactly the texts whose padding can be counted. -/
theorem base64_iff (s t : ByteString) :
    (base64_decode (base64_encode s) = some s ↔ (base64_encode s).length < 2 ^ 31) ∧
      ((base64_is_valid t ↔ IsEncoding t) ↔ ¬ CountWraps t) :=
  ⟨decode_encode_iff s, valid_iff_encoding t⟩

/-- Of 3 GiB the encoding has `2 ^ 32` characters, and no character of it is decoded. -/
theorem not_base64 : ¬ ((∀ s, base64_decode (base64_encode s) = some s) ∧
    ∀ t, base64_is_valid t ↔ IsEncoding t) := by
  intro h
  have hlt := (decode_encode_iff _).mp (h.1 (List.replicate (3 * 2 ^ 30) 0))
  rw [length_encode, List.length_replicate] at hlt
  exact absurd hlt (by decide)

end Freeminer.Util
