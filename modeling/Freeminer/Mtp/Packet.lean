import Freeminer.Util.Serialize
import Freeminer.Lib.Serial

/-! Packets of the MTP transport (`network/mtp/internal.h`, `impl.cpp`): the base header,
the ORIGINAL, SPLIT and RELIABLE headers, and the comparisons of 16-bit sequence numbers. -/

namespace Freeminer.Mtp

open Lib

/-- `session_t` -/
abbrev SessionT := UInt16

def PEER_ID_INEXISTENT : SessionT := 0
def PEER_ID_SERVER : SessionT := 1
def MAX_UDP_PEERS : SessionT := 0x3fff

def BASE_HEADER_SIZE : ℕ := 7
def ORIGINAL_HEADER_SIZE : ℕ := 1
def RELIABLE_HEADER_SIZE : ℕ := 3
def SEQNUM_INITIAL : UInt16 := 65500
def SEQNUM_MAX : ℕ := 65535

def PACKET_TYPE_CONTROL : UInt8 := 0
def PACKET_TYPE_ORIGINAL : UInt8 := 1
def PACKET_TYPE_SPLIT : UInt8 := 2
def PACKET_TYPE_RELIABLE : UInt8 := 3
def PACKET_TYPE_MAX : UInt8 := 4

def CONTROLTYPE_ACK : UInt8 := 0
def CONTROLTYPE_SET_PEER_ID : UInt8 := 1
def CONTROLTYPE_PING : UInt8 := 2
def CONTROLTYPE_DISCO : UInt8 := 3

def MAX_RELIABLE_WINDOW_SIZE : UInt16 := 0x8000
def MAX_RELIABLE_WINDOW_SIZE_SEND : ℕ := 2048
def START_RELIABLE_WINDOW_SIZE : UInt16 := 64
def MIN_RELIABLE_WINDOW_SIZE : ℕ := 32

/-- What a transport function may throw. A failed `sanity_check` ends the process. -/
inductive ConException where
  | processedSilently
  | processedQueued
  | incomingDataCorruption
  | invalidIncomingData
  | sanityCheck
  deriving DecidableEq

/-! ## Sequence numbers -/

def seqnumHigher (totest base : UInt16) : Bool :=
  if totest > base then
    if totest.toNat - base.toNat > SEQNUM_MAX / 2 then false else true
  else if base.toNat - totest.toNat > SEQNUM_MAX / 2 then true
  else false

def seqnumInWindow (seqnum next windowSize : UInt16) : Bool :=
  let windowStart := next
  let windowEnd := UInt16.ofNat ((next.toNat + windowSize.toNat) % (SEQNUM_MAX + 1))
  if windowStart < windowEnd then seqnum ≥ windowStart && seqnum < windowEnd
  else seqnum < windowEnd || seqnum ≥ windowStart

/-- The receive window is the half of the circle that starts at the expected number. -/
theorem seqnumInWindow_iff (seqnum next : UInt16) :
    seqnumInWindow seqnum next MAX_RELIABLE_WINDOW_SIZE = true ↔
      serialDist seqnum next < 0x8000 := by
  have h1 := seqnum.toNat_lt
  have h2 := next.toNat_lt
  have h3 : MAX_RELIABLE_WINDOW_SIZE.toNat = 0x8000 := rfl
  rw [serialDist_eq, seqnumInWindow, h3]
  split <;> rename_i h <;>
    simp only [UInt16.lt_iff_toNat_lt, ge_iff_le, UInt16.le_iff_toNat_le, Bool.or_eq_true,
      Bool.and_eq_true, decide_eq_true_eq, UInt16.toNat_ofNat', SEQNUM_MAX] at * <;> omega

theorem seqnumHigher_iff (totest base : UInt16) :
    seqnumHigher totest base = true ↔
      0 < serialDist totest base ∧ (serialDist totest base < 0x8000 ∨
        serialDist totest base = 0x8000 ∧ totest < base) := by
  have h1 := totest.toNat_lt
  have h2 := base.toNat_lt
  rw [serialDist_eq, seqnumHigher]
  split <;> rename_i h <;> split <;> rename_i h' <;>
    simp only [UInt16.lt_iff_toNat_lt, SEQNUM_MAX, gt_iff_lt, Bool.false_eq_true, false_iff,
      true_iff] at * <;> omega

/-- The sequence number of the `n`th reliable packet of a channel. -/
def seqnumOf (n : ℕ) : UInt16 := serial (SEQNUM_INITIAL.toNat + n)

theorem seqnumOf_add (n k : ℕ) : seqnumOf n + UInt16.ofNat k = seqnumOf (n + k) := by
  rw [seqnumOf, seqnumOf, ← serial_add, Nat.add_assoc]

theorem seqnumOf_succ (n : ℕ) : seqnumOf n + 1 = seqnumOf (n + 1) := seqnumOf_add n 1

theorem serialDist_seqnumOf {m n : ℕ} (h1 : m ≤ n) (h2 : n < m + 65536) :
    serialDist (seqnumOf n) (seqnumOf m) = n - m := by
  rw [seqnumOf, seqnumOf, serialDist_serial (by omega) (by omega)]
  omega

theorem serialDist_seqnumOf_behind {m n : ℕ} (h1 : n < m) (h2 : m ≤ n + 65536) :
    serialDist (seqnumOf n) (seqnumOf m) = 65536 - (m - n) := by
  rw [seqnumOf, seqnumOf, serialDist_serial_behind (by omega) (by omega)]
  omega

theorem seqnumOf_inj {m n : ℕ} (h : seqnumOf m = seqnumOf n) (h1 : m < n + 65536)
    (h2 : n < m + 65536) : m = n := by
  have := serial_inj h (by omega) (by omega)
  omega

/-! ## Packets -/

structure Address where
  host : List UInt8
  port : UInt16
  deriving DecidableEq

/-- A packet with its headers. The clocks of the source's struct are not modelled: which
packets have timed out is an input of the functions that ask. -/
structure BufferedPacket where
  data : SharedBuffer
  resendCount : ℕ := 0
  address : Address
  deriving DecidableEq

namespace BufferedPacket

def size (p : BufferedPacket) : ℕ := p.data.length

def getSeqnum (p : BufferedPacket) : UInt16 :=
  if p.size < BASE_HEADER_SIZE + 3 then 0 else readU16 (p.data.drop (BASE_HEADER_SIZE + 1))

def setSenderPeerId (p : BufferedPacket) (id : SessionT) : BufferedPacket :=
  if p.size < BASE_HEADER_SIZE then p
  else { p with data := p.data.take 4 ++ writeU16 id ++ p.data.drop 6 }

def readPeerId (p : BufferedPacket) : SessionT := readU16 (p.data.drop 4)

def readChannel (p : BufferedPacket) : UInt8 := readU8 (p.data.drop 6)

def payload (p : BufferedPacket) : SharedBuffer :=
  p.data.drop (BASE_HEADER_SIZE + RELIABLE_HEADER_SIZE)

end BufferedPacket

def makePacket (address : Address) (data : SharedBuffer) (protocolId : UInt32)
    (senderPeerId : SessionT) (channel : UInt8) : BufferedPacket where
  data := writeU32 protocolId ++ writeU16 senderPeerId ++ [channel] ++ data
  address := address

def makeOriginalPacket (data : SharedBuffer) : SharedBuffer := PACKET_TYPE_ORIGINAL :: data

def makeReliablePacket (data : SharedBuffer) (seqnum : UInt16) : SharedBuffer :=
  PACKET_TYPE_RELIABLE :: writeU16 seqnum ++ data

structure BufferedPacket.IsReliable (p : BufferedPacket) : Prop where
  size : BASE_HEADER_SIZE + 3 ≤ p.size
  type : readU8 (p.data.drop BASE_HEADER_SIZE) = PACKET_TYPE_RELIABLE

section Made

variable (address : Address) (data : SharedBuffer) (protocolId : UInt32) (sender : SessionT)
  (channel : UInt8) (seqnum : UInt16)

@[simp] theorem size_makePacket :
    (makePacket address data protocolId sender channel).size = BASE_HEADER_SIZE + data.length := by
  simp [makePacket, BufferedPacket.size, BASE_HEADER_SIZE]
  omega

@[simp] theorem drop_makePacket :
    (makePacket address data protocolId sender channel).data.drop BASE_HEADER_SIZE = data := by
  simp [makePacket, BASE_HEADER_SIZE, writeU32, writeU16]

theorem drop_makePacket_add (k : ℕ) :
    (makePacket address data protocolId sender channel).data.drop (BASE_HEADER_SIZE + k) =
      data.drop k := by
  rw [← List.drop_drop, drop_makePacket]

@[simp] theorem readPeerId_makePacket :
    (makePacket address data protocolId sender channel).readPeerId = sender := by
  simp only [BufferedPacket.readPeerId, makePacket, writeU32, List.append_assoc,
    List.cons_append, List.nil_append, List.drop_succ_cons, List.drop_zero, readU16_writeU16]

@[simp] theorem length_makeReliablePacket :
    (makeReliablePacket data seqnum).length = RELIABLE_HEADER_SIZE + data.length := by
  simp [makeReliablePacket, RELIABLE_HEADER_SIZE]
  omega

theorem isReliable_makePacket :
    (makePacket address (makeReliablePacket data seqnum) protocolId sender channel).IsReliable where
  size := by
    rw [size_makePacket, length_makeReliablePacket]
    simp only [RELIABLE_HEADER_SIZE]
    omega
  type := by rw [drop_makePacket]; rfl

@[simp] theorem getSeqnum_makePacket :
    (makePacket address (makeReliablePacket data seqnum) protocolId sender channel).getSeqnum =
      seqnum := by
  have hsize := (isReliable_makePacket address data protocolId sender channel seqnum).size
  rw [BufferedPacket.getSeqnum, if_neg (by omega), drop_makePacket_add]
  exact readU16_writeU16 seqnum data

@[simp] theorem payload_makePacket :
    (makePacket address (makeReliablePacket data seqnum) protocolId sender channel).payload =
      data := by
  rw [BufferedPacket.payload, drop_makePacket_add]
  rfl

end Made

/-! `setSenderPeerId` touches the sender field of the base header and nothing else. -/

section SetSender

variable (p : BufferedPacket) (id : SessionT)

@[simp] theorem size_setSenderPeerId : (p.setSenderPeerId id).size = p.size := by
  unfold BufferedPacket.setSenderPeerId
  split
  · rfl
  · rename_i h
    simp only [BufferedPacket.size, BASE_HEADER_SIZE, List.length_append, List.length_take,
      length_writeU16, List.length_drop] at *
    omega

theorem drop_setSenderPeerId (k : ℕ) (hk : 6 ≤ k) :
    (p.setSenderPeerId id).data.drop k = p.data.drop k := by
  unfold BufferedPacket.setSenderPeerId
  split
  · rfl
  · rename_i h
    have h6 : (p.data.take 4 ++ writeU16 id).length = 6 := by
      simp only [BufferedPacket.size, BASE_HEADER_SIZE, List.length_append, List.length_take,
        length_writeU16] at *
      omega
    rw [List.drop_append, h6, List.drop_of_length_le (by omega), List.nil_append, List.drop_drop,
      Nat.add_sub_cancel' hk]

@[simp] theorem getSeqnum_setSenderPeerId : (p.setSenderPeerId id).getSeqnum = p.getSeqnum := by
  simp only [BufferedPacket.getSeqnum, size_setSenderPeerId]
  rw [drop_setSenderPeerId _ _ _ (by decide)]

@[simp] theorem payload_setSenderPeerId : (p.setSenderPeerId id).payload = p.payload :=
  drop_setSenderPeerId _ _ _ (by decide)

theorem BufferedPacket.IsReliable.setSenderPeerId (h : p.IsReliable) :
    (p.setSenderPeerId id).IsReliable where
  size := by rw [size_setSenderPeerId]; exact h.size
  type := by rw [drop_setSenderPeerId _ _ _ (by decide)]; exact h.type

theorem readPeerId_setSenderPeerId (h : BASE_HEADER_SIZE ≤ p.size) :
    (p.setSenderPeerId id).readPeerId = id := by
  have h4 : (p.data.take 4).length = 4 := by
    simp only [BufferedPacket.size, BASE_HEADER_SIZE, List.length_take] at *
    omega
  rw [BufferedPacket.readPeerId, BufferedPacket.setSenderPeerId, if_neg (by omega)]
  simp only [List.append_assoc]
  rw [List.drop_append_of_le_length (by omega), List.drop_of_length_le (by omega),
    List.nil_append, readU16_writeU16]

end SetSender

end Freeminer.Mtp
