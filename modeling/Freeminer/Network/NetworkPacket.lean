import Freeminer.Util.BinaryStream

/-! `NetworkPacket` (`networkpacket.cpp`): the operators that read from a packet, and which bytes of
it they touch. -/

namespace Freeminer.Network

def readU64 (data : SharedBuffer) : UInt64 :=
  ((readU32 data).toUInt64 <<< 32) ||| (readU32 (data.drop 4)).toUInt64

/-- `m_datasize` is the size of `m_data`. -/
structure NetworkPacket where
  command : UInt16
  data : ByteString
  readOffset : UInt32 := 0
  protoVer : UInt16 := 0
  length_lt : data.length < 2 ^ 32

/-- What a read returns or throws (a `PacketError`), the packet after it, and the bytes it touched,
each range by its start and its length. -/
structure Outcome (α : Type) where
  value : Except ByteString α
  packet : NetworkPacket
  touched : List (ℕ × ℕ) := []

def Outcome.andThen {α β : Type} (x : Outcome α) (f : α → NetworkPacket → Outcome β) :
    Outcome β :=
  match x.value with
  | .error e => ⟨.error e, x.packet, x.touched⟩
  | .ok a =>
    let y := f a x.packet
    ⟨y.value, y.packet, x.touched ++ y.touched⟩

/-- What a field is read as; floats by their bits. -/
inductive Value where
  | nat (n : ℕ)
  | int (i : ℤ)
  | bool (b : Bool)
  | text (s : ByteString)
  | wide (s : List UInt32)
  | vec (l : List Value)
  | none

/-- The length an operator checks (and moves by), the length it reads, and what it reads. -/
structure FieldSpec where
  checked : UInt32
  width : ℕ
  decode : SharedBuffer → Value

def PROTOCOL_VERSION_32BIT : UInt16 := 147

inductive Field where
  | char | bool | u8 | u16 | u32 | u64 | f32 | v2f | v3f | s16 | s32 | v3s16 | v2s32 | v3s32 | pos
  | v3pos | color | s64 | v3s64 | f64 | f128 | v3f128 | v3opos
  deriving DecidableEq

def u8Value (d : SharedBuffer) : Value := .nat (readU8 d).toNat
def u16Value (d : SharedBuffer) : Value := .nat (readU16 d).toNat
def u32Value (d : SharedBuffer) : Value := .nat (readU32 d).toNat
def u64Value (d : SharedBuffer) : Value := .nat (readU64 d).toNat
def s16Value (d : SharedBuffer) : Value := .int (readU16 d).toInt16.toInt
def s32Value (d : SharedBuffer) : Value := .int (readU32 d).toInt32.toInt
def s64Value (d : SharedBuffer) : Value := .int (readU64 d).toInt64.toInt

/-- `long double`, whose sixteen bytes are copied. -/
def f128Value (d : SharedBuffer) : Value := .text (d.take 16)

def components (read : SharedBuffer → Value) (offsets : List ℕ) (d : SharedBuffer) : Value :=
  .vec (offsets.map fun i => read (d.drop i))

/-- What each operator checks and reads; positions are 32 bits wide from a protocol version on. -/
def Field.spec (protoVer : UInt16) : Field → FieldSpec
  | .char => ⟨1, 1, u8Value⟩
  | .bool => ⟨1, 1, fun d => .bool (readU8 d != 0)⟩
  | .u8 => ⟨1, 1, u8Value⟩
  | .u16 => ⟨2, 2, u16Value⟩
  | .u32 => ⟨4, 4, u32Value⟩
  | .u64 => ⟨8, 8, u64Value⟩
  | .f32 => ⟨4, 4, u32Value⟩
  | .v2f => ⟨8, 8, components u32Value [0, 4]⟩
  | .v3f => ⟨12, 12, components u32Value [0, 4, 8]⟩
  | .s16 => ⟨2, 2, s16Value⟩
  | .s32 => ⟨4, 4, s32Value⟩
  | .v3s16 => ⟨6, 6, components s16Value [0, 2, 4]⟩
  | .v2s32 => ⟨8, 8, components s32Value [0, 4]⟩
  | .v3s32 => ⟨12, 12, components s32Value [0, 4, 8]⟩
  | .pos => if protoVer < PROTOCOL_VERSION_32BIT then ⟨2, 2, s16Value⟩ else ⟨4, 4, s32Value⟩
  | .v3pos =>
    if protoVer < PROTOCOL_VERSION_32BIT then ⟨6, 6, components s16Value [0, 2, 4]⟩
    else ⟨12, 12, components s32Value [0, 4, 8]⟩
  | .color => ⟨4, 4, u32Value⟩
  -- four bytes are checked, eight are read
  | .s64 => ⟨4, 8, s64Value⟩
  -- the components overlap
  | .v3s64 => ⟨24, 16, components s64Value [0, 4, 8]⟩
  | .f64 => ⟨8, 8, u64Value⟩
  | .f128 => ⟨16, 16, f128Value⟩
  | .v3f128 => ⟨48, 48, components f128Value [0, 16, 32]⟩
  | .v3opos =>
    if protoVer < PROTOCOL_VERSION_32BIT then ⟨12, 12, components u32Value [0, 4, 8]⟩
    else ⟨24, 24, components u64Value [0, 8, 16]⟩

namespace NetworkPacket

section Read

variable (p : NetworkPacket)

def datasize : UInt32 := UInt32.ofNat p.data.length

/-- What a reader sees from a position on; what lies beyond the data is taken to be zero. -/
def bytesFrom (offset : UInt32) : SharedBuffer := p.data.drop offset.toNat

def advance (size : UInt32) : NetworkPacket := { p with readOffset := p.readOffset + size }

/-- `checkReadOffset`; the sum is 32 bits wide. -/
def checkReadOffset (fromOffset fieldSize : UInt32) : Except ByteString Unit :=
  if p.datasize < fromOffset + fieldSize then
    .error (bytes "Reading outside packet: cmd=" ++ decimal p.command.toNat ++ bytes " offset=" ++
      decimal fromOffset.toNat ++ bytes " size=" ++ decimal p.datasize.toNat)
  else .ok ()

/-- A check, and a read from the same place that moves by what was checked. -/
def readChecked (checked : UInt32) (width : ℕ) (decode : SharedBuffer → Value) : Outcome Value :=
  match p.checkReadOffset p.readOffset checked with
  | .error e => ⟨.error e, p, []⟩
  | .ok () =>
    ⟨.ok (decode (p.bytesFrom p.readOffset)), p.advance checked, [(p.readOffset.toNat, width)]⟩

def readField (f : Field) : Outcome Value :=
  p.readChecked (f.spec p.protoVer).checked (f.spec p.protoVer).width (f.spec p.protoVer).decode

def skip (count : UInt32) : Outcome Value :=
  match p.checkReadOffset p.readOffset count with
  | .error e => ⟨.error e, p, []⟩
  | .ok () => ⟨.ok .none, p.advance count, []⟩

def readRawString (len : UInt32) : Outcome Value :=
  match p.checkReadOffset p.readOffset len with
  | .error e => ⟨.error e, p, []⟩
  | .ok () =>
    if len = 0 then ⟨.ok (.text []), p, []⟩
    else
      ⟨.ok (.text ((p.bytesFrom p.readOffset).take len.toNat)), p.advance len,
        [(p.readOffset.toNat, len.toNat)]⟩

def readText (strLen : UInt32) : Outcome Value :=
  if strLen = 0 then ⟨.ok (.text []), p, []⟩ else p.readRawString strLen

/-- `operator>>(std::string &)` -/
def readString : Outcome Value :=
  (p.readChecked 2 2 u16Value).andThen fun _ q =>
    q.readText (readU16 (p.bytesFrom p.readOffset)).toUInt32

def readLongString : Outcome Value :=
  (p.readChecked 4 4 u32Value).andThen fun _ q =>
    let strLen := readU32 (p.bytesFrom p.readOffset)
    if LONG_STRING_MAX_LEN < strLen.toNat then ⟨.error (bytes "String too long"), q, []⟩
    else q.readText strLen

end Read

def unit (p : NetworkPacket) : UInt32 := (readU16 (p.bytesFrom p.readOffset)).toUInt32

def unitRead (p : NetworkPacket) (x : Outcome Value) : Outcome Value :=
  ⟨x.value, x.packet, (p.readOffset.toNat, 2) :: x.touched⟩

def ofSurrogates (c c2 : UInt32) : UInt32 :=
  (0x10000 : UInt32) + (((c &&& (0x3FF : UInt32)) <<< (10 : UInt32)) ||| (c2 &&& (0x3FF : UInt32)))

/-- The loop of `operator>>(std::wstring &)` over the units that are left; a surrogate takes the
unit after it, if there is one. -/
def readWide : ℕ → NetworkPacket → List UInt32 → Outcome Value
  | 0, p, dst => ⟨.ok (.wide dst), p, []⟩
  | 1, p, dst => p.unitRead ⟨.ok (.wide (dst ++ [p.unit])), p.advance 2, []⟩
  | left + 2, p, dst =>
    if 0xD800 ≤ p.unit ∧ p.unit < 0xDC00 then
      p.unitRead ((p.advance 2).unitRead (readWide left ((p.advance 2).advance 2)
        (dst ++ [ofSurrogates p.unit (p.advance 2).unit])))
    else p.unitRead (readWide (left + 1) (p.advance 2) (dst ++ [p.unit]))

/-- `operator>>(std::wstring &)` -/
def readWString (p : NetworkPacket) : Outcome Value :=
  (p.readChecked 2 2 u16Value).andThen fun _ q =>
    let strLen := readU16 (p.bytesFrom p.readOffset)
    if strLen = 0 then ⟨.ok (.wide []), q, []⟩
    else
      match q.checkReadOffset q.readOffset (strLen.toUInt32 * 2) with
      | .error e => ⟨.error e, q, []⟩
      | .ok () => readWide strLen.toNat q []

end NetworkPacket

inductive ReadOp where
  | field (f : Field)
  | string
  | wstring
  | longString
  | rawString (len : UInt32)
  | skip (count : UInt32)

def NetworkPacket.read (p : NetworkPacket) : ReadOp → Outcome Value
  | .field f => p.readField f
  | .string => p.readString
  | .wstring => p.readWString
  | .longString => p.readLongString
  | .rawString len => p.readRawString len
  | .skip count => p.skip count

end Freeminer.Network
