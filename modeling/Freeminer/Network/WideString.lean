import Freeminer.Network.ReadBounds

/-! Wide strings in packets: `operator<<(std::wstring_view)`, which writes the units of UTF-16 and
puts their number in front once it knows it, and what `operator>>(std::wstring &)` makes of them. -/

namespace Freeminer.Network

def WIDE_STRING_MAX_LEN : ℕ := 0xFFFF

/-! ## Writing -/

/-- A packet that is written: `m_data`, and `m_read_offset` where writing goes on. -/
structure PacketWriter where
  data : ByteString := []
  offset : ℕ := 0

def overwrite (data : ByteString) (offset : ℕ) (src : ByteString) : ByteString :=
  data.take offset ++ (src ++ data.drop (offset + src.length))

namespace PacketWriter

def checkDataSize (w : PacketWriter) (fieldSize : ℕ) : PacketWriter :=
  { w with data := w.data ++ List.replicate (w.offset + fieldSize - w.data.length) 0 }

/-- `operator<<(u16)` -/
def putU16 (w : PacketWriter) (src : UInt16) : PacketWriter where
  data := overwrite (w.checkDataSize 2).data w.offset (writeU16 src)
  offset := w.offset + 2

/-- One `wchar_t`, which is signed, and how many units were written. -/
def putChar (acc : PacketWriter × ℕ) (c : UInt32) : PacketWriter × ℕ :=
  if 0xFFFF < c ∧ c < 0x80000000 then
    let n := c - 0x10000
    ((acc.1.putU16 ((0xD800 : UInt32) ||| (n >>> 10)).toUInt16).putU16
      ((0xDC00 : UInt32) ||| (n &&& 0x3FF)).toUInt16, acc.2 + 2)
  else (acc.1.putU16 c.toUInt16, acc.2 + 1)

/-- `operator<<(std::wstring_view)` -/
def putWString (w : PacketWriter) (src : List UInt32) : Except ByteString PacketWriter :=
  if WIDE_STRING_MAX_LEN < src.length then .error (bytes "String too long")
  else if src.length = 0 then .ok (w.putU16 0)
  else
    let acc := src.foldl putChar (w.putU16 0xFFF0, 0)
    if WIDE_STRING_MAX_LEN < acc.2 then .error (bytes "String too long")
    else
      .ok { acc.1 with data := overwrite acc.1.data w.offset (writeU16 (UInt16.ofNat acc.2)) }

def written (w : PacketWriter) : ByteString :=
  w.data.take w.offset ++ List.replicate (w.offset - w.data.length) 0

theorem length_written (w : PacketWriter) : w.written.length = w.offset := by
  rw [written, List.length_append, List.length_take, List.length_replicate]
  omega

theorem written_checkDataSize (w : PacketWriter) (n : ℕ) :
    (w.checkDataSize n).data.take w.offset = w.written := by
  rw [checkDataSize, List.take_append, List.take_replicate, written]
  congr 2
  omega

theorem length_checkDataSize (w : PacketWriter) (n : ℕ) :
    w.offset + n ≤ (w.checkDataSize n).data.length := by
  rw [checkDataSize, List.length_append, List.length_replicate]
  omega

theorem written_putU16 (w : PacketWriter) (src : UInt16) :
    (w.putU16 src).written = w.written ++ writeU16 src := by
  have hdata : (w.putU16 src).data = w.written ++ (writeU16 src ++
      (w.checkDataSize 2).data.drop (w.offset + 2)) := by
    rw [putU16, overwrite, written_checkDataSize, length_writeU16]
  have hlen : w.offset + 2 ≤ (w.putU16 src).data.length := by
    rw [hdata, List.length_append, List.length_append, length_written, length_writeU16]
    omega
  have hoffset : (w.putU16 src).offset = w.offset + 2 := rfl
  rw [written, hoffset, Nat.sub_eq_zero_of_le hlen, List.replicate_zero, List.append_nil, hdata,
    ← List.append_assoc, List.take_left' (by rw [List.length_append, length_written]; rfl)]

theorem offset_le_putU16 (w : PacketWriter) (src : UInt16) :
    (w.putU16 src).offset ≤ (w.putU16 src).data.length := by
  have hlen := w.length_checkDataSize 2
  have hoffset : (w.putU16 src).offset = w.offset + 2 := rfl
  rw [hoffset, putU16, overwrite, List.length_append, List.length_append, List.length_take,
    List.length_drop, length_writeU16]
  omega

end PacketWriter

/-! ## UTF-16 -/

def unitsOf (c : UInt32) : List UInt16 :=
  if 0xFFFF < c ∧ c < 0x80000000 then
    [((0xD800 : UInt32) ||| ((c - 0x10000) >>> 10)).toUInt16,
      ((0xDC00 : UInt32) ||| ((c - 0x10000) &&& 0x3FF)).toUInt16]
  else [c.toUInt16]

def utf16 (src : List UInt32) : List UInt16 := src.flatMap unitsOf

theorem utf16_cons (c : UInt32) (src : List UInt32) :
    utf16 (c :: src) = unitsOf c ++ utf16 src := rfl

def unitBytes (units : List UInt16) : ByteString := units.flatMap writeU16

theorem unitBytes_cons (u : UInt16) (units : List UInt16) :
    unitBytes (u :: units) = writeU16 u ++ unitBytes units := rfl

theorem length_unitBytes (units : List UInt16) : (unitBytes units).length = 2 * units.length := by
  induction units with
  | nil => rfl
  | cons u units ih =>
    rw [unitBytes, List.flatMap_cons, List.length_append, length_writeU16, List.length_cons]
    have : (units.flatMap writeU16).length = 2 * units.length := ih
    omega

/-- The characters that the reader makes of units: a high surrogate takes the unit after it. -/
def decodeUnits : List UInt16 → List UInt32
  | [] => []
  | [u] => [u.toUInt32]
  | u :: v :: units =>
    if 0xD800 ≤ u.toUInt32 ∧ u.toUInt32 < 0xDC00 then
      NetworkPacket.ofSurrogates u.toUInt32 v.toUInt32 :: decodeUnits units
    else u.toUInt32 :: decodeUnits (v :: units)

def IsScalar (c : UInt32) : Prop := c < 0xD800 ∨ 0xE000 ≤ c ∧ c ≤ 0x10FFFF

/-- The bits of a surrogate are those of its range and the ten of its half. -/
theorem or_eq_add {a x : ℕ} (hx : x < 1024) : a * 1024 ||| x = a * 1024 + x := by
  have h := Nat.shiftLeft_add_eq_or_of_lt (i := 10) (by omega : x < 2 ^ 10) a
  rw [Nat.shiftLeft_eq] at h
  exact h.symm

theorem toNat_high (n : UInt32) (hn : n.toNat < 2 ^ 20) :
    ((0xD800 : UInt32) ||| (n >>> 10)).toNat = 0xD800 + n.toNat / 1024 := by
  have hshift : (n >>> 10).toNat = n.toNat / 1024 := by
    rw [UInt32.toNat_shiftRight, Nat.shiftRight_eq_div_pow]
    rfl
  rw [UInt32.toNat_or, hshift]
  exact or_eq_add (a := 54) (by omega)

theorem toNat_low (n : UInt32) :
    ((0xDC00 : UInt32) ||| (n &&& 0x3FF)).toNat = 0xDC00 + n.toNat % 1024 := by
  have hand : (n &&& 0x3FF).toNat = n.toNat % 1024 := by
    rw [UInt32.toNat_and]
    exact Nat.and_two_pow_sub_one_eq_mod n.toNat 10
  rw [UInt32.toNat_or, hand]
  exact or_eq_add (a := 55) (by omega)

theorem toNat_ofSurrogates {u v : UInt32} {h l : ℕ} (hu : u.toNat = 0xD800 + h) (hh : h < 1024)
    (hv : v.toNat = 0xDC00 + l) (hl : l < 1024) :
    (NetworkPacket.ofSurrogates u v).toNat = 0x10000 + (h * 1024 + l) := by
  have hand (x : UInt32) : (x &&& (0x3FF : UInt32)).toNat = x.toNat % 1024 := by
    rw [UInt32.toNat_and]
    exact Nat.and_two_pow_sub_one_eq_mod x.toNat 10
  have hhigh : ((u &&& (0x3FF : UInt32)) <<< (10 : UInt32)).toNat = h * 1024 := by
    have hten : (10 : UInt32).toNat % 32 = 10 := rfl
    rw [UInt32.toNat_shiftLeft, hand, hu, Nat.shiftLeft_eq, hten]
    omega
  unfold NetworkPacket.ofSurrogates
  rw [UInt32.toNat_add, UInt32.toNat_or, hhigh, hand, hv]
  have hlow : (0xDC00 + l) % 1024 = l := by omega
  have hbase : (0x10000 : UInt32).toNat = 0x10000 := rfl
  rw [hlow, or_eq_add hl, hbase]
  omega

theorem decodeUnits_unitsOf {c : UInt32} (hc : IsScalar c) (units : List UInt16) :
    decodeUnits (unitsOf c ++ units) = c :: decodeUnits units := by
  have h16 (x : UInt32) (hx : x.toNat < 65536) : x.toUInt16.toUInt32 = x := by
    apply UInt32.toNat_inj.mp
    rw [UInt16.toNat_toUInt32, UInt32.toNat_toUInt16]
    exact Nat.mod_eq_of_lt hx
  unfold IsScalar at hc
  simp only [UInt32.lt_iff_toNat_lt, UInt32.le_iff_toNat_le] at hc
  have hd800 : (0xD800 : UInt32).toNat = 0xD800 := rfl
  have he000 : (0xE000 : UInt32).toNat = 0xE000 := rfl
  have hmax : (0x10FFFF : UInt32).toNat = 0x10FFFF := rfl
  have hffff : (0xFFFF : UInt32).toNat = 0xFFFF := rfl
  have hdc00 : (0xDC00 : UInt32).toNat = 0xDC00 := rfl
  rw [hd800, he000, hmax] at hc
  unfold unitsOf
  split_ifs with hastral
  · -- a pair of surrogates
    rw [UInt32.lt_iff_toNat_lt, hffff] at hastral
    have hbase : (0x10000 : UInt32).toNat = 0x10000 := rfl
    have hn : (c - 0x10000).toNat = c.toNat - 0x10000 := by
      rw [UInt32.toNat_sub_of_le _ _ (by rw [UInt32.le_iff_toNat_le, hbase]; omega), hbase]
    have hhigh := toNat_high (c - 0x10000) (by omega)
    have hlow := toNat_low (c - 0x10000)
    have hu := h16 _ (show ((0xD800 : UInt32) ||| ((c - 0x10000) >>> 10)).toNat < 65536 by omega)
    have hv := h16 _ (show ((0xDC00 : UInt32) ||| ((c - 0x10000) &&& 0x3FF)).toNat < 65536 by omega)
    rw [List.cons_append, List.cons_append, List.nil_append, decodeUnits, hu, hv, if_pos]
    · congr 1
      apply UInt32.toNat_inj.mp
      rw [toNat_ofSurrogates hhigh (by omega) hlow (Nat.mod_lt _ (by norm_num)), hn]
      omega
    · rw [UInt32.le_iff_toNat_le, UInt32.lt_iff_toNat_lt, hd800, hdc00, hhigh]
      omega
  · -- one unit that is no surrogate
    have h80 : (0x80000000 : UInt32).toNat = 0x80000000 := rfl
    rw [UInt32.lt_iff_toNat_lt, UInt32.lt_iff_toNat_lt, hffff, h80] at hastral
    have hu := h16 c (by omega)
    have hnot : ¬(0xD800 ≤ c ∧ c < 0xDC00) := by
      rw [UInt32.le_iff_toNat_le, UInt32.lt_iff_toNat_lt, hd800, hdc00]
      omega
    rw [List.cons_append, List.nil_append]
    cases units with
    | nil =>
      change [c.toUInt16.toUInt32] = [c]
      rw [hu]
    | cons v units => rw [decodeUnits, hu, if_neg hnot]

theorem decodeUnits_utf16 {src : List UInt32} (hsrc : ∀ c ∈ src, IsScalar c) :
    decodeUnits (utf16 src) = src := by
  induction src with
  | nil => rfl
  | cons c src ih =>
    have hrest := ih fun c' hc' => hsrc c' (List.mem_cons_of_mem _ hc')
    rw [utf16_cons, decodeUnits_unitsOf (hsrc c List.mem_cons_self)]
    exact congrArg (c :: ·) hrest

namespace PacketWriter

theorem putChar_eq (acc : PacketWriter × ℕ) (c : UInt32) :
    putChar acc c = ((unitsOf c).foldl putU16 acc.1, acc.2 + (unitsOf c).length) := by
  unfold putChar unitsOf
  split_ifs
  · rfl
  · rfl

theorem foldl_putChar (src : List UInt32) (acc : PacketWriter × ℕ) :
    src.foldl putChar acc = ((utf16 src).foldl putU16 acc.1, acc.2 + (utf16 src).length) := by
  induction src generalizing acc with
  | nil => rfl
  | cons c src ih =>
    rw [List.foldl_cons, ih, putChar_eq, utf16_cons, List.foldl_append, List.length_append,
      ← Nat.add_assoc]

theorem written_foldl_putU16 (units : List UInt16) (w : PacketWriter) :
    (units.foldl putU16 w).written = w.written ++ unitBytes units := by
  induction units generalizing w with
  | nil => exact (List.append_nil _).symm
  | cons u units ih =>
    rw [List.foldl_cons, ih, written_putU16, List.append_assoc]
    rfl

theorem offset_foldl_putU16 (units : List UInt16) (w : PacketWriter) :
    (units.foldl putU16 w).offset = w.offset + 2 * units.length := by
  induction units generalizing w with
  | nil => rfl
  | cons u units ih =>
    have hoffset : (w.putU16 u).offset = w.offset + 2 := rfl
    rw [List.foldl_cons, ih, hoffset, List.length_cons]
    omega

theorem offset_le_foldl_putU16 (units : List UInt16) (w : PacketWriter)
    (h : w.offset ≤ w.data.length) :
    (units.foldl putU16 w).offset ≤ (units.foldl putU16 w).data.length := by
  induction units generalizing w with
  | nil => exact h
  | cons u units ih => exact ih _ (w.offset_le_putU16 u)

/-- The field of a wide string: the number of units, and the units. -/
def field (units : List UInt16) : ByteString :=
  writeU16 (UInt16.ofNat units.length) ++ unitBytes units

theorem length_le_utf16 (src : List UInt32) : src.length ≤ (utf16 src).length := by
  induction src with
  | nil => exact Nat.zero_le _
  | cons c src ih =>
    have hpos : 1 ≤ (unitsOf c).length := by
      unfold unitsOf
      split_ifs
      · exact Nat.le_succ 1
      · exact Nat.le_refl 1
    rw [utf16_cons, List.length_cons, List.length_append]
    omega

/-- The writer writes the field of the units, if they are not too many. -/
theorem putWString_eq {src : List UInt32} (hlen : (utf16 src).length ≤ WIDE_STRING_MAX_LEN)
    (w : PacketWriter) : ∃ w' tail, w.putWString src = .ok w' ∧
      w'.data = w.written ++ (field (utf16 src) ++ tail) ∧
      w'.offset = w.offset + (2 + 2 * (utf16 src).length) := by
  have hsrc : ¬WIDE_STRING_MAX_LEN < src.length := by
    have hle : src.length ≤ (utf16 src).length := length_le_utf16 src
    omega
  unfold putWString
  rw [if_neg hsrc]
  by_cases hempty : src.length = 0
  · obtain rfl := List.length_eq_zero_iff.mp hempty
    refine ⟨w.putU16 0, (w.checkDataSize 2).data.drop (w.offset + 2), if_pos rfl, ?_, rfl⟩
    rw [putU16, overwrite, written_checkDataSize, length_writeU16]
    rfl
  · rw [if_neg hempty, foldl_putChar]
    dsimp only
    rw [Nat.zero_add, if_neg (Nat.not_lt.mpr hlen)]
    set w₁ := w.putU16 0xFFF0
    set w₂ := (utf16 src).foldl putU16 w₁ with hw₂
    have hwritten : w₂.written = w.written ++ (writeU16 0xFFF0 ++ unitBytes (utf16 src)) := by
      rw [hw₂, written_foldl_putU16, written_putU16, List.append_assoc]
    have hle : w₂.offset ≤ w₂.data.length :=
      offset_le_foldl_putU16 _ _ (w.offset_le_putU16 0xFFF0)
    have hdata : w₂.data = w₂.written ++ w₂.data.drop w₂.offset := by
      rw [written, Nat.sub_eq_zero_of_le hle, List.replicate_zero, List.append_nil,
        List.take_append_drop]
    refine ⟨_, w₂.data.drop w₂.offset, rfl, ?_, ?_⟩
    · -- the number of units replaces the dummy value
      change overwrite w₂.data w.offset (writeU16 (UInt16.ofNat (utf16 src).length)) = _
      have htake : w₂.data.take w.offset = w.written := by
        rw [hdata, hwritten, List.append_assoc, List.take_left' w.length_written]
      have hdrop : w₂.data.drop (w.offset + 2) =
          unitBytes (utf16 src) ++ w₂.data.drop w₂.offset := by
        conv_lhs => rw [hdata, hwritten, ← List.append_assoc, List.append_assoc (_ ++ _)]
        exact List.drop_left' (by rw [List.length_append, length_written, length_writeU16])
      rw [overwrite, htake, length_writeU16, hdrop, field, List.append_assoc]
    · change w₂.offset = _
      rw [hw₂, offset_foldl_putU16]
      exact Nat.add_assoc _ _ _

end PacketWriter

/-! ## Reading -/

namespace NetworkPacket

variable {p : NetworkPacket}

/-- One unit is there, and the reader goes on after it. -/
theorem bytesFrom_advance_two {u : UInt16} {rest : ByteString}
    (h : p.bytesFrom p.readOffset = writeU16 u ++ rest) :
    (p.advance 2).bytesFrom (p.advance 2).readOffset = rest ∧
      (p.advance 2).readOffset.toNat = p.readOffset.toNat + 2 ∧
      (p.advance 2).readOffset.toNat ≤ p.data.length ∧ p.unit = u.toUInt32 := by
  have hlen := congrArg List.length h
  rw [bytesFrom, List.length_drop, List.length_append, length_writeU16] at hlen
  have hlt := p.length_lt
  have hadvance : (p.advance 2).readOffset.toNat = p.readOffset.toNat + 2 := by
    rw [advance_readOffset, UInt32.toNat_add]
    exact Nat.mod_eq_of_lt (by simp; omega)
  refine ⟨?_, hadvance, ?_, ?_⟩
  · rw [bytesFrom, hadvance, advance_data, ← List.drop_drop]
    change (p.bytesFrom p.readOffset).drop 2 = rest
    rw [h]
    exact List.drop_left' (length_writeU16 u)
  · omega
  · rw [unit, h, readU16_writeU16]

/-- The units that are there are read, each once. -/
theorem readWide_unitBytes {units : List UInt16} {rest : ByteString} {dst : List UInt32}
    (h : p.bytesFrom p.readOffset = unitBytes units ++ rest) :
    (readWide units.length p dst).value = .ok (.wide (dst ++ decodeUnits units)) := by
  fun_induction decodeUnits units generalizing p dst with
  | case1 => rw [List.length_nil, readWide, List.append_nil]
  | case2 u =>
    obtain ⟨-, -, -, hunit⟩ := bytesFrom_advance_two (u := u) h
    rw [List.length_singleton, readWide, unitRead, hunit]
  | case3 u v units hhigh ih =>
    rw [unitBytes_cons, unitBytes_cons, List.append_assoc, List.append_assoc] at h
    obtain ⟨hnext, -, -, hu⟩ := bytesFrom_advance_two h
    obtain ⟨hrest, -, -, hv⟩ := bytesFrom_advance_two hnext
    rw [List.length_cons, List.length_cons, readWide, hu, if_pos hhigh, hv]
    simp only [unitRead]
    rw [ih hrest, List.append_assoc, List.singleton_append]
  | case4 u v units hhigh ih =>
    rw [unitBytes_cons, List.append_assoc] at h
    obtain ⟨hnext, -, -, hu⟩ := bytesFrom_advance_two h
    rw [List.length_cons, List.length_cons, readWide, hu, if_neg hhigh]
    simp only [unitRead]
    rw [← List.length_cons, ih hnext, List.append_assoc, List.singleton_append]

/-- A field of units that is there is read to its end. -/
theorem readWString_field {units : List UInt16} {rest : ByteString} (hv : p.Valid)
    (hlen : units.length ≤ WIDE_STRING_MAX_LEN)
    (h : p.bytesFrom p.readOffset = PacketWriter.field units ++ rest) :
    p.readWString.value = .ok (.wide (decodeUnits units)) ∧
      p.readWString.packet.data = p.data ∧
      p.readWString.packet.readOffset.toNat = p.readOffset.toNat + (2 + 2 * units.length) := by
  rw [WIDE_STRING_MAX_LEN] at hlen
  have hcount : (UInt16.ofNat units.length).toNat = units.length :=
    UInt16.toNat_ofNat_of_lt' (Nat.lt_succ_of_le hlen)
  rw [PacketWriter.field, List.append_assoc] at h
  obtain ⟨hnext, hadvance, hle, -⟩ := bytesFrom_advance_two h
  have hread : readU16 (p.bytesFrom p.readOffset) = UInt16.ofNat units.length := by
    rw [h, readU16_writeU16]
  have hbytes := congrArg List.length hnext
  rw [bytesFrom, List.length_drop, List.length_append, length_unitBytes, advance_data] at hbytes
  have hlt := p.length_lt
  have hcheck : p.checkReadOffset p.readOffset 2 = .ok () := by
    obtain ⟨-, hok⟩ | ⟨hnot, -⟩ := p.checkReadOffset_cases 2
    · exact hok
    · exact absurd ((valid_advance_iff hv 2).mpr (.inl (by simp; omega))) hnot
  have hsize : ((UInt16.ofNat units.length).toUInt32 * 2).toNat = 2 * units.length := by
    rw [UInt32.toNat_mul, UInt16.toNat_toUInt32, hcount]
    have htwo : (2 : UInt32).toNat = 2 := rfl
    rw [htwo]
    omega
  have hq : (p.advance 2).Valid := hle
  have hcheck' : (p.advance 2).checkReadOffset (p.advance 2).readOffset
      ((UInt16.ofNat units.length).toUInt32 * 2) = .ok () := by
    obtain ⟨-, hok⟩ | ⟨hnot, -⟩ :=
      (p.advance 2).checkReadOffset_cases ((UInt16.ofNat units.length).toUInt32 * 2)
    · exact hok
    · refine absurd ((valid_advance_iff hq _).mpr (.inl ?_)) hnot
      rw [hsize, advance_data]
      omega
  unfold readWString
  simp only [readChecked, hcheck, Outcome.andThen, hread, hcheck', hcount]
  split_ifs with hzero
  · -- the empty string
    have hnil : units = [] := by
      rw [← List.length_eq_zero_iff, ← hcount, hzero]
      rfl
    subst hnil
    exact ⟨rfl, rfl, hadvance⟩
  · obtain ⟨hdata, hoffset⟩ := readWide_packet units.length (p.advance 2) []
    refine ⟨readWide_unitBytes hnext, hdata, ?_⟩
    have hmul : (UInt32.ofNat (2 * units.length)).toNat = 2 * units.length :=
      UInt32.toNat_ofNat_of_lt' (by rw [UInt32.size]; omega)
    change (readWide units.length (p.advance 2) []).packet.readOffset.toNat = _
    rw [hoffset, UInt32.toNat_add, hadvance, hmul]
    omega

end NetworkPacket

/-! ## The round trip -/

/-- A string of scalar values that fits is read back as it was written, up to the end of its field,
whatever was written before and after it; and any units that are in a packet are read to the end. -/
theorem readWString_putWString (w : PacketWriter) (src : List UInt32)
    (hscalar : ∀ c ∈ src, IsScalar c) (hlen : (utf16 src).length ≤ WIDE_STRING_MAX_LEN) :
    (∃ w', w.putWString src = .ok w' ∧
      ∀ (p : NetworkPacket) (more : ByteString), p.data = w'.data ++ more →
        p.readOffset.toNat = w.offset →
        p.readWString.value = .ok (.wide src) ∧ p.readWString.packet.data = p.data ∧
          p.readWString.packet.readOffset.toNat = w'.offset) ∧
    ∀ (p : NetworkPacket) (units : List UInt16) (rest : ByteString),
      units.length ≤ WIDE_STRING_MAX_LEN → p.Valid →
      p.bytesFrom p.readOffset = writeU16 (UInt16.ofNat units.length) ++ (unitBytes units ++ rest) →
      ∃ s, p.readWString.value = .ok (.wide s) ∧
        p.readWString.packet.readOffset.toNat = p.readOffset.toNat + (2 + 2 * units.length) := by
  constructor
  · obtain ⟨w', tail, hw', hdata, hoffset⟩ := w.putWString_eq hlen
    refine ⟨w', hw', fun p more hp hat => ?_⟩
    have hbytes : p.bytesFrom p.readOffset =
        PacketWriter.field (utf16 src) ++ (tail ++ more) := by
      rw [NetworkPacket.bytesFrom, hat, hp, hdata, List.append_assoc, List.append_assoc,
        List.drop_left' w.length_written]
    have hvalid : p.Valid := by
      rw [NetworkPacket.Valid, hat, hp, hdata, List.length_append, List.length_append,
        w.length_written]
      omega
    have hread := NetworkPacket.readWString_field hvalid hlen hbytes
    rw [decodeUnits_utf16 hscalar, hat, ← hoffset] at hread
    exact hread
  · intro p units rest hlen hvalid hbytes
    rw [← List.append_assoc] at hbytes
    obtain ⟨hvalue, -, hoffset⟩ := NetworkPacket.readWString_field hvalid hlen hbytes
    exact ⟨_, hvalue, hoffset⟩

/-- A letter and a face, after two other bytes. -/
theorem readWString_putWString_face :
    (∃ w', PacketWriter.putWString ⟨[1, 2], 2⟩ [0x61, 0x1F600] = .ok w' ∧
      ∀ (p : NetworkPacket) (more : ByteString), p.data = w'.data ++ more →
        p.readOffset.toNat = 2 →
        p.readWString.value = .ok (.wide [0x61, 0x1F600]) ∧ p.readWString.packet.data = p.data ∧
          p.readWString.packet.readOffset.toNat = w'.offset) ∧
    ∀ (p : NetworkPacket) (units : List UInt16) (rest : ByteString),
      units.length ≤ WIDE_STRING_MAX_LEN → p.Valid →
      p.bytesFrom p.readOffset = writeU16 (UInt16.ofNat units.length) ++ (unitBytes units ++ rest) →
      ∃ s, p.readWString.value = .ok (.wide s) ∧
        p.readWString.packet.readOffset.toNat = p.readOffset.toNat + (2 + 2 * units.length) :=
  readWString_putWString ⟨[1, 2], 2⟩ [0x61, 0x1F600]
    (List.forall_mem_cons.mpr ⟨.inl (by decide), List.forall_mem_singleton.mpr
      (.inr (by decide))⟩) (by decide)

/-- The surrogates of a face, behind their number. -/
example : (PacketWriter.putWString {} [0x1F600]).map (·.data) =
    .ok [0, 2, 0xD8, 0x3D, 0xDE, 0x00] := by decide +kernel

end Freeminer.Network
