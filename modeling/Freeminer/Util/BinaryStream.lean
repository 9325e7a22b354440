import Freeminer.Util.JsonString

/-! Binary reads from a stream (`util/serialize.h`, `util/serialize.cpp`), and what they read of
what was written. -/

namespace Freeminer

namespace IStream

/-- `read`: the bytes that are there. -/
def read (s : IStream) (n : ℕ) : ByteString × IStream :=
  if s.good then
    if n ≤ s.rest.length then (s.rest.take n, { s with rest := s.rest.drop n })
    else (s.rest, { rest := [], eof := true, fail := true })
  else ([], { s with fail := true })

theorem read_append {n : ℕ} {data : ByteString} (h : data.length = n) (rest : ByteString) :
    read { rest := data ++ rest } n = (data, { rest }) := by
  simp [read, good, ← h]

end IStream

/-- `MAKE_STREAM_READ_FXN` -/
def readFxn {α : Type} (n : ℕ) (f : SharedBuffer → α) (is : IStream) :
    Except LoadError (α × IStream) :=
  let (buf, is) := is.read n
  if is.eof then .error (.serialization (bytes "EOF")) else .ok (f buf, is)

abbrev streamU8 : IStream → Except LoadError (UInt8 × IStream) := readFxn 1 readU8

abbrev streamU16 : IStream → Except LoadError (UInt16 × IStream) := readFxn 2 readU16

abbrev streamU32 : IStream → Except LoadError (UInt32 × IStream) := readFxn 4 readU32

def STRING_MAX_LEN : ℕ := 0xFFFF
def LONG_STRING_MAX_LEN : ℕ := 64 * 1024 * 1024

def serializeString16 (plain : ByteString) : Except LoadError ByteString :=
  if STRING_MAX_LEN < plain.length then
    .error (.serialization (bytes "String too long for serializeString16"))
  else .ok (writeU16 (UInt16.ofNat plain.length) ++ plain)

def deSerializeString16 (is : IStream) : Except LoadError (ByteString × IStream) :=
  let (buf, is) := is.read 2
  if buf.length ≠ 2 then .error (.serialization (bytes "deSerializeString16: size not read"))
  else
    let size := (readU16 buf).toNat
    if size = 0 then .ok ([], is)
    else
      let (s, is) := is.read size
      if s.length ≠ size then .error (.serialization (bytes "deSerializeString16: truncated"))
      else .ok (s, is)

def serializeString32 (plain : ByteString) : Except LoadError ByteString :=
  if LONG_STRING_MAX_LEN < plain.length then
    .error (.serialization (bytes "String too long for serializeLongString"))
  else .ok (writeU32 (UInt32.ofNat plain.length) ++ plain)

def deSerializeString32 (is : IStream) : Except LoadError (ByteString × IStream) :=
  let (buf, is) := is.read 4
  if buf.length ≠ 4 then .error (.serialization (bytes "deSerializeLongString: size not read"))
  else
    let size := (readU32 buf).toNat
    if size = 0 then .ok ([], is)
    else if LONG_STRING_MAX_LEN < size then
      .error (.serialization (bytes "deSerializeLongString: string too long: " ++ decimal size ++
        bytes " bytes"))
    else
      let (s, is) := is.read size
      if s.length ≠ size then .error (.serialization (bytes "deSerializeLongString: truncated"))
      else .ok (s, is)

variable {s t rest : ByteString}

theorem readFxn_append {α : Type} {n : ℕ} {f : SharedBuffer → α} {data : ByteString}
    (h : data.length = n) (rest : ByteString) :
    readFxn n f { rest := data ++ rest } = .ok (f data, { rest }) := by
  unfold readFxn
  rw [IStream.read_append h]
  rfl

theorem streamU8_append (i : UInt8) (rest : ByteString) :
    streamU8 { rest := i :: rest } = .ok (i, { rest }) := by
  have hlen : [i].length = 1 := rfl
  exact readFxn_append hlen rest

theorem streamU16_append (i : UInt16) (rest : ByteString) :
    streamU16 { rest := writeU16 i ++ rest } = .ok (i, { rest }) := by
  rw [streamU16, readFxn_append (length_writeU16 i)]
  simpa using readU16_writeU16 i []

theorem streamU32_append (i : UInt32) (rest : ByteString) :
    streamU32 { rest := writeU32 i ++ rest } = .ok (i, { rest }) := by
  rw [streamU32, readFxn_append (length_writeU32 i)]
  simpa using readU32_writeU32 i []

theorem deSerializeString16_append (h : serializeString16 s = .ok t) (rest : ByteString) :
    deSerializeString16 { rest := t ++ rest } = .ok (s, { rest }) := by
  unfold serializeString16 at h
  split_ifs at h with hlen
  obtain rfl := Except.ok.inj h
  have hlen : s.length ≤ 65535 := Nat.not_lt.mp hlen
  have hsize : (UInt16.ofNat s.length).toNat = s.length := by
    rw [UInt16.toNat_ofNat']
    omega
  have hread : readU16 (writeU16 (UInt16.ofNat s.length)) = UInt16.ofNat s.length := by
    simpa using readU16_writeU16 (UInt16.ofNat s.length) []
  unfold deSerializeString16
  rw [List.append_assoc, IStream.read_append (length_writeU16 _)]
  simp only [hread, hsize, length_writeU16]
  by_cases h0 : s.length = 0
  · rw [List.length_eq_zero_iff] at h0
    simp [h0]
  · rw [IStream.read_append rfl]
    simp [h0]

theorem deSerializeString32_append (h : serializeString32 s = .ok t) (rest : ByteString) :
    deSerializeString32 { rest := t ++ rest } = .ok (s, { rest }) := by
  unfold serializeString32 at h
  split_ifs at h with hlen
  obtain rfl := Except.ok.inj h
  have hmax : LONG_STRING_MAX_LEN = 67108864 := rfl
  have hsize : (UInt32.ofNat s.length).toNat = s.length := by
    rw [UInt32.toNat_ofNat']
    omega
  have hread : readU32 (writeU32 (UInt32.ofNat s.length)) = UInt32.ofNat s.length := by
    simpa using readU32_writeU32 (UInt32.ofNat s.length) []
  unfold deSerializeString32
  rw [List.append_assoc, IStream.read_append (length_writeU32 _)]
  simp only [hread, hsize, length_writeU32]
  by_cases h0 : s.length = 0
  · rw [List.length_eq_zero_iff] at h0
    simp [h0]
  · rw [IStream.read_append rfl]
    simp [h0, hlen]

end Freeminer
