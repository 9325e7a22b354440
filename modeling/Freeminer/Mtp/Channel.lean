import Freeminer.Mtp.ReliableBuffer
import Freeminer.Mtp.Split

/-! `Channel`: the sequence numbers, windows, queues and buffers of one channel of a peer.
The counters that only feed statistics are left out. -/

namespace Freeminer.Mtp

open Lib

inductive ConnectionCommandType where
  | none | serve | connect | disconnect | disconnectPeer | send | sendToAll | ack | createPeer
  | resendOne | peerIdSet
  deriving DecidableEq

structure ConnectionCommand where
  type : ConnectionCommandType
  address : Address := ⟨[], 0⟩
  peerId : SessionT := PEER_ID_INEXISTENT
  channelnum : UInt8 := 0
  data : SharedBuffer := []
  reliable : Bool := false
  raw : Bool := false
  deriving DecidableEq

/-- `m_window_size`, which only `setWindowSize` writes. -/
structure WindowSize where
  val : UInt16
  min_le : MIN_RELIABLE_WINDOW_SIZE ≤ val.toNat
  le_max : val.toNat ≤ MAX_RELIABLE_WINDOW_SIZE_SEND

def WindowSize.set (size : ℤ) : WindowSize where
  val := UInt16.ofNat (max MIN_RELIABLE_WINDOW_SIZE (min size.toNat MAX_RELIABLE_WINDOW_SIZE_SEND))
  min_le := by
    rw [UInt16.toNat_ofNat']
    simp only [MIN_RELIABLE_WINDOW_SIZE, MAX_RELIABLE_WINDOW_SIZE_SEND]
    omega
  le_max := by
    rw [UInt16.toNat_ofNat']
    simp only [MIN_RELIABLE_WINDOW_SIZE, MAX_RELIABLE_WINDOW_SIZE_SEND]
    omega

/-- A reliable packet whose payload was handed to processing: its number, the number expected
then, and the payload. -/
structure Handled where
  seqnum : UInt16
  expected : UInt16
  payload : SharedBuffer
  deriving DecidableEq

structure Channel where
  incomingReliables : ReliablePacketBuffer := []
  outgoingReliablesSent : ReliablePacketBuffer := []
  queuedReliables : List BufferedPacket := []
  queuedCommands : List ConnectionCommand := []
  incomingSplits : IncomingSplitBuffer := ∅
  windowSize : WindowSize := .set START_RELIABLE_WINDOW_SIZE.toNat
  nextIncomingSeqnum : UInt16 := SEQNUM_INITIAL
  nextOutgoingSeqnum : UInt16 := SEQNUM_INITIAL
  nextOutgoingSplitSeqnum : UInt16 := SEQNUM_INITIAL
  /-- History: what was handed to processing. -/
  handled : List Handled := []

namespace Channel

def incNextIncomingSeqNum (chan : Channel) : Channel :=
  { chan with nextIncomingSeqnum := chan.nextIncomingSeqnum + 1 }

/-- The test under which `getOutgoingSequenceNumber` grants nothing. -/
def windowExceeded (chan : Channel) (lowestUnacked : UInt16) : Bool :=
  if lowestUnacked < chan.nextOutgoingSeqnum then
    chan.nextOutgoingSeqnum - lowestUnacked > chan.windowSize.val
  else
    chan.nextOutgoingSeqnum.toNat + (SEQNUM_MAX - lowestUnacked.toNat) > chan.windowSize.val.toNat

def getOutgoingSequenceNumber (chan : Channel) : Option UInt16 × Channel :=
  let next := chan.nextOutgoingSeqnum
  let granted := (some next, { chan with nextOutgoingSeqnum := next + 1 })
  match chan.outgoingReliablesSent.getFirstSeqnum with
  | none => granted
  | some lowestUnacked => if chan.windowExceeded lowestUnacked then (none, chan) else granted

/-- `none` is the `false` of the source. -/
def putBackSequenceNumber (chan : Channel) (seqnum : UInt16) : Option Channel :=
  if (seqnum.toNat + 1) % (SEQNUM_MAX + 1) = chan.nextOutgoingSeqnum.toNat then
    some { chan with nextOutgoingSeqnum := seqnum }
  else none

def setWindowSize (chan : Channel) (size : ℤ) : Channel :=
  { chan with windowSize := .set size }

/-- The channel after `n` numbers were granted. -/
def skip (chan : Channel) (n : ℕ) : Channel :=
  { chan with nextOutgoingSeqnum := chan.nextOutgoingSeqnum + UInt16.ofNat n }

variable {chan chan' : Channel} {seqnum : UInt16}

@[simp] theorem skip_zero : chan.skip 0 = chan := by simp [skip]

theorem skip_skip (m n : ℕ) : (chan.skip m).skip n = chan.skip (m + n) := by
  simp [skip, UInt16.add_assoc]

theorem putBackSequenceNumber_skip (n : ℕ) :
    (chan.skip (n + 1)).putBackSequenceNumber (chan.nextOutgoingSeqnum + UInt16.ofNat n) =
      some (chan.skip n) := by
  rw [putBackSequenceNumber, if_pos]
  · rfl
  · simp only [skip, UInt16.toNat_add, UInt16.toNat_ofNat', SEQNUM_MAX]
    omega

theorem serialDist_of_windowExceeded {s : UInt16} (h : chan.windowExceeded s = false) :
    serialDist chan.nextOutgoingSeqnum s ≤ MAX_RELIABLE_WINDOW_SIZE_SEND + 1 := by
  have hw := chan.windowSize.le_max
  have h1 := chan.nextOutgoingSeqnum.toNat_lt
  have h2 := s.toNat_lt
  rw [serialDist_eq]
  rw [windowExceeded] at h
  split_ifs at h with hlt
  · rw [UInt16.lt_iff_toNat_lt] at hlt
    rw [decide_eq_false_iff_not, gt_iff_lt, UInt16.lt_iff_toNat_lt, not_lt,
      UInt16.toNat_sub_of_le _ _ (UInt16.le_iff_toNat_le.mpr hlt.le)] at h
    omega
  · rw [UInt16.lt_iff_toNat_lt] at hlt
    rw [decide_eq_false_iff_not, SEQNUM_MAX] at h
    omega

/-- A granted number is the next one. While packets are unacked, the first of them is at most
one window and a number behind. -/
theorem getOutgoingSequenceNumber_eq_some
    (h : chan.getOutgoingSequenceNumber = (some seqnum, chan')) :
    seqnum = chan.nextOutgoingSeqnum ∧ chan' = chan.skip 1 ∧
      ∀ p ∈ chan.outgoingReliablesSent.head?,
        serialDist chan.nextOutgoingSeqnum p.getSeqnum ≤ MAX_RELIABLE_WINDOW_SIZE_SEND + 1 := by
  simp only [getOutgoingSequenceNumber, ReliablePacketBuffer.getFirstSeqnum] at h
  cases hsent : chan.outgoingReliablesSent.head? with
  | none =>
    rw [hsent] at h
    obtain ⟨h1, rfl⟩ := Prod.mk.inj h
    exact ⟨(Option.some.inj h1).symm, rfl, by simp⟩
  | some p =>
    rw [hsent] at h
    simp only [Option.map_some] at h
    split_ifs at h with hex
    · exact nomatch (Prod.mk.inj h).1
    · obtain ⟨h1, rfl⟩ := Prod.mk.inj h
      refine ⟨(Option.some.inj h1).symm, rfl, ?_⟩
      rintro q ⟨⟩
      exact serialDist_of_windowExceeded (Bool.eq_false_iff.mpr hex)

theorem getOutgoingSequenceNumber_eq_none (h : chan.getOutgoingSequenceNumber = (none, chan')) :
    chan' = chan := by
  simp only [getOutgoingSequenceNumber] at h
  split at h
  · exact nomatch (Prod.mk.inj h).1
  · split_ifs at h
    · exact (Prod.mk.inj h).2.symm
    · exact nomatch (Prod.mk.inj h).1

theorem getOutgoingSequenceNumber_of_empty (h : chan.outgoingReliablesSent = []) :
    chan.getOutgoingSequenceNumber = (some chan.nextOutgoingSeqnum, chan.skip 1) := by
  have hfirst : chan.outgoingReliablesSent.getFirstSeqnum = none := by rw [h]; rfl
  simp only [getOutgoingSequenceNumber, hfirst]
  rfl

end Channel

/-! The receiving side of a channel: what `handlePacketType_Reliable` and
`checkIncomingBuffers` do to the buffer of incoming reliables and to the expected number,
up to the payload that they hand to `processPacket`. -/

namespace Channel

/-- The expected number goes up, and the payload to `processPacket`. -/
def handle (chan : Channel) (seqnum : UInt16) (payload : SharedBuffer) : Channel :=
  { chan.incNextIncomingSeqNum with
    handled := chan.handled ++ [⟨seqnum, chan.nextIncomingSeqnum, payload⟩] }

/-- What `checkIncomingBuffers` takes from the buffer, if the first packet is the expected one. -/
def popDeliverable (chan : Channel) : Option (BufferedPacket × Channel) :=
  match chan.incomingReliables.getFirstSeqnum with
  | none => none
  | some firstseqnum =>
    if firstseqnum ≠ chan.nextIncomingSeqnum then none
    else
      match chan.incomingReliables.popFirst with
      | none => none
      | some (p, incoming) =>
        some (p, { chan with incomingReliables := incoming }.handle p.getSeqnum p.payload)

/-- A packet to process right now: a queued copy of it is dropped. -/
def processNow (chan : Channel) (seqnum : UInt16) (packetdata : SharedBuffer) : Channel :=
  let incoming :=
    match chan.incomingReliables.getFirstSeqnum, chan.incomingReliables.popFirst with
    | some queuedSeqnum, some (_, incoming) =>
      if queuedSeqnum = seqnum then incoming else chan.incomingReliables
    | _, _ => chan.incomingReliables
  { chan with incomingReliables := incoming }.handle seqnum (packetdata.drop RELIABLE_HEADER_SIZE)

end Channel

/-- `handlePacketType_Reliable` up to the nested packet: the channel, whether an ack is sent and
the peer is to be disconnected, and the payload to process or the exception thrown. -/
structure Received where
  chan : Channel
  ack : Bool := false
  corrupted : Bool := false
  payload : Except ConException SharedBuffer

/-- A control packet that `processPacket` throws away as invalid. -/
def MalformedControl (payload : SharedBuffer) : Prop :=
  let controltype := readU8 (payload.drop 1)
  payload.length < 2 ∨
    (controltype = CONTROLTYPE_ACK ∨ controltype = CONTROLTYPE_SET_PEER_ID) ∧
      payload.length < 4 ∨
    controltype ∉ [CONTROLTYPE_ACK, CONTROLTYPE_SET_PEER_ID, CONTROLTYPE_PING, CONTROLTYPE_DISCO]

/-- A payload of a reliable packet that `processPacket` throws away as invalid. -/
def Malformed (payload : SharedBuffer) : Prop :=
  let type := readU8 payload
  payload.length < 1 ∨
    type = PACKET_TYPE_CONTROL ∧ MalformedControl payload ∨
    type = PACKET_TYPE_ORIGINAL ∧ payload.length ≤ ORIGINAL_HEADER_SIZE ∨
    type ∉ [PACKET_TYPE_CONTROL, PACKET_TYPE_ORIGINAL, PACKET_TYPE_SPLIT]

instance : DecidablePred MalformedControl := fun _ => inferInstanceAs (Decidable (_ ∨ _ ∨ _))

instance : DecidablePred Malformed := fun _ => inferInstanceAs (Decidable (_ ∨ _ ∨ _ ∨ _))

/-- The new value of `packet_queued`, or none where invalid data leaves `receive`. -/
def Received.packetQueued (r : Received) : Option Bool :=
  match r.payload with
  | .ok payload => if Malformed payload then none else some true
  | .error .processedSilently => some true
  | .error .processedQueued => some true
  | .error _ => none

/-- What the receive thread reads of the connection and the peer. -/
structure ReceiveEnv where
  address : Address
  protocolId : UInt32
  peerId : SessionT
  channelnum : UInt8

def Channel.receiveReliable (env : ReceiveEnv) (packetdata : SharedBuffer) (chan : Channel) :
    Received :=
  if packetdata.length < RELIABLE_HEADER_SIZE then
    { chan, payload := .error .invalidIncomingData }
  else
    let seqnum := readU16 (packetdata.drop 1)
    let next := chan.nextIncomingSeqnum
    let inWindow := seqnumInWindow seqnum next MAX_RELIABLE_WINDOW_SIZE
    if !inWindow && seqnumHigher seqnum next then { chan, payload := .error .processedSilently }
    else if !inWindow && seqnumHigher next seqnum then
      -- seems like our ack was lost, send another one for an old packet
      { chan, ack := true, payload := .error .processedSilently }
    else if seqnum = next then
      { chan := chan.processNow seqnum packetdata
        ack := inWindow
        payload := .ok (packetdata.drop RELIABLE_HEADER_SIZE) }
    else
      -- this one comes later, buffer it
      let packet := makePacket env.address packetdata env.protocolId env.peerId env.channelnum
      match chan.incomingReliables.insert packet next with
      | .ok incoming =>
        { chan := { chan with incomingReliables := incoming }
          ack := inWindow
          payload := .error .processedQueued }
      | .error .incomingDataCorruption =>
        -- the handler goes on after the exception
        { chan := chan.processNow seqnum packetdata
          ack := inWindow
          corrupted := true
          payload := .ok (packetdata.drop RELIABLE_HEADER_SIZE) }
      | .error e => { chan, ack := inWindow, payload := .error e }

namespace Channel

variable {chan chan' : Channel} {p : BufferedPacket} {packetdata : SharedBuffer}
  {env : ReceiveEnv}

def Deliverable (chan : Channel) : Prop :=
  chan.incomingReliables.getFirstSeqnum = some chan.nextIncomingSeqnum

instance : DecidablePred Deliverable := fun _ => inferInstanceAs (Decidable (_ = _))

theorem deliverable_iff : chan.Deliverable ↔
    ∃ p incoming, chan.incomingReliables = p :: incoming ∧ p.getSeqnum = chan.nextIncomingSeqnum := by
  rw [Deliverable, ReliablePacketBuffer.getFirstSeqnum]
  cases chan.incomingReliables with
  | nil => simp
  | cons p incoming => simp

theorem popDeliverable_eq_none : chan.popDeliverable = none ↔ ¬chan.Deliverable := by
  rw [deliverable_iff]
  simp only [popDeliverable, ReliablePacketBuffer.getFirstSeqnum]
  cases chan.incomingReliables with
  | nil => simp
  | cons p incoming => simp [ReliablePacketBuffer.popFirst]

theorem popDeliverable_eq_some (h : chan.popDeliverable = some (p, chan')) :
    ∃ incoming, chan.incomingReliables = p :: incoming ∧ p.getSeqnum = chan.nextIncomingSeqnum ∧
      chan' = { chan with incomingReliables := incoming }.handle p.getSeqnum p.payload := by
  simp only [popDeliverable, ReliablePacketBuffer.getFirstSeqnum] at h
  cases hin : chan.incomingReliables with
  | nil => simp [hin] at h
  | cons q incoming =>
    simp only [hin, List.head?_cons, Option.map_some, ReliablePacketBuffer.popFirst] at h
    split_ifs at h with hne
    obtain ⟨rfl, rfl⟩ := Prod.mk.inj (Option.some.inj h)
    exact ⟨incoming, rfl, not_not.mp hne, rfl⟩

/-- The buffer once a packet numbered `seqnum` at its head is gone. -/
theorem processNow_eq (seqnum : UInt16) : chan.processNow seqnum packetdata =
    { chan with
      incomingReliables :=
        if chan.incomingReliables.getFirstSeqnum = some seqnum then chan.incomingReliables.tail
        else chan.incomingReliables }.handle seqnum (packetdata.drop RELIABLE_HEADER_SIZE) := by
  rw [processNow]
  congr 2
  cases chan.incomingReliables with
  | nil => rfl
  | cons p incoming =>
    simp [ReliablePacketBuffer.getFirstSeqnum, ReliablePacketBuffer.popFirst]

/-- The packet is not the expected one, and one of another size, or from another address, waits
under its number. -/
def Conflicts (env : ReceiveEnv) (packetdata : SharedBuffer) (chan : Channel) : Prop :=
  RELIABLE_HEADER_SIZE ≤ packetdata.length ∧
    readU16 (packetdata.drop 1) ≠ chan.nextIncomingSeqnum ∧
    ∃ q ∈ chan.incomingReliables, q.getSeqnum = readU16 (packetdata.drop 1) ∧
      (q.size ≠ BASE_HEADER_SIZE + packetdata.length ∨ q.address ≠ env.address)

instance (env : ReceiveEnv) (packetdata : SharedBuffer) :
    DecidablePred (Conflicts env packetdata) := fun _ => inferInstanceAs (Decidable (_ ∧ _ ∧ _))

theorem getSeqnum_makePacket_of_le (address : Address) (protocolId : UInt32) (sender : SessionT)
    (channel : UInt8) (h : RELIABLE_HEADER_SIZE ≤ packetdata.length) :
    (makePacket address packetdata protocolId sender channel).getSeqnum =
      readU16 (packetdata.drop 1) := by
  have hsize := size_makePacket address packetdata protocolId sender channel
  rw [BufferedPacket.getSeqnum, if_neg, drop_makePacket_add]
  rw [hsize]
  simp only [RELIABLE_HEADER_SIZE] at h
  omega

section Honest

variable (hsize : RELIABLE_HEADER_SIZE ≤ packetdata.length)

include hsize

/-- The expected packet is processed at once. -/
theorem receiveReliable_of_expected
    (h : readU16 (packetdata.drop 1) = chan.nextIncomingSeqnum) :
    chan.receiveReliable env packetdata =
      { chan := chan.processNow chan.nextIncomingSeqnum packetdata
        ack := true
        payload := .ok (packetdata.drop RELIABLE_HEADER_SIZE) } := by
  have hin : seqnumInWindow chan.nextIncomingSeqnum chan.nextIncomingSeqnum
      MAX_RELIABLE_WINDOW_SIZE = true := (seqnumInWindow_iff _ _).mpr (by simp)
  rw [receiveReliable, if_neg (not_lt.mpr hsize)]
  simp only [h, hin, Bool.not_true, Bool.false_and, Bool.false_eq_true, if_false, if_true]

/-- A packet that comes later in the window goes to the buffer. -/
theorem receiveReliable_of_ahead {incoming : ReliablePacketBuffer}
    (h0 : 0 < serialDist (readU16 (packetdata.drop 1)) chan.nextIncomingSeqnum)
    (hw : serialDist (readU16 (packetdata.drop 1)) chan.nextIncomingSeqnum < 0x8000)
    (hins : chan.incomingReliables.insert
      (makePacket env.address packetdata env.protocolId env.peerId env.channelnum)
      chan.nextIncomingSeqnum = .ok incoming) :
    chan.receiveReliable env packetdata =
      { chan := { chan with incomingReliables := incoming }
        ack := true
        payload := .error .processedQueued } := by
  have hin : seqnumInWindow (readU16 (packetdata.drop 1)) chan.nextIncomingSeqnum
      MAX_RELIABLE_WINDOW_SIZE = true := (seqnumInWindow_iff _ _).mpr hw
  have hne : readU16 (packetdata.drop 1) ≠ chan.nextIncomingSeqnum := by
    intro h
    rw [h, serialDist_self] at h0
    exact absurd h0 (Nat.lt_irrefl 0)
  rw [receiveReliable, if_neg (not_lt.mpr hsize)]
  simp only [hin, hne, hins, Bool.not_true, Bool.false_and, Bool.false_eq_true, if_false]

theorem receiveReliable_of_old
    (h : 0x8000 < serialDist (readU16 (packetdata.drop 1)) chan.nextIncomingSeqnum ∨
      0x8000 = serialDist (readU16 (packetdata.drop 1)) chan.nextIncomingSeqnum ∧
        chan.nextIncomingSeqnum < readU16 (packetdata.drop 1)) :
    chan.receiveReliable env packetdata =
      { chan, ack := true, payload := .error .processedSilently } := by
  obtain ⟨seqnum, hseqnum⟩ : ∃ s, s = readU16 (packetdata.drop 1) := ⟨_, rfl⟩
  obtain ⟨next, hnext⟩ : ∃ s, s = chan.nextIncomingSeqnum := ⟨_, rfl⟩
  rw [← hseqnum, ← hnext] at h
  have h1 := seqnum.toNat_lt
  have h2 := next.toNat_lt
  have hin : seqnumInWindow seqnum next MAX_RELIABLE_WINDOW_SIZE = false := by
    rw [Bool.eq_false_iff, ne_eq, seqnumInWindow_iff]
    omega
  have hfuture : seqnumHigher seqnum next = false := by
    rw [Bool.eq_false_iff, ne_eq, seqnumHigher_iff, UInt16.lt_iff_toNat_lt]
    rw [UInt16.lt_iff_toNat_lt] at h
    omega
  have hold : seqnumHigher next seqnum = true := by
    rw [seqnumHigher_iff, UInt16.lt_iff_toNat_lt]
    rw [UInt16.lt_iff_toNat_lt] at h
    rw [serialDist_eq] at h ⊢
    omega
  rw [receiveReliable, if_neg (not_lt.mpr hsize)]
  simp only [← hseqnum, ← hnext, hin, hfuture, hold, Bool.not_false, Bool.true_and,
    Bool.false_eq_true, if_false, if_true]

end Honest

theorem receiveReliable_cases (env : ReceiveEnv) (packetdata : SharedBuffer) (chan : Channel) :
    ((chan.receiveReliable env packetdata).chan = chan ∧
      ∃ e, (chan.receiveReliable env packetdata).payload = .error e) ∨
    (∃ incoming, chan.incomingReliables.insert
        (makePacket env.address packetdata env.protocolId env.peerId env.channelnum)
        chan.nextIncomingSeqnum = .ok incoming ∧
      readU16 (packetdata.drop 1) ≠ chan.nextIncomingSeqnum ∧
      (chan.receiveReliable env packetdata).chan = { chan with incomingReliables := incoming } ∧
      (chan.receiveReliable env packetdata).payload = .error .processedQueued) ∨
    (RELIABLE_HEADER_SIZE ≤ packetdata.length ∧
      (readU16 (packetdata.drop 1) = chan.nextIncomingSeqnum ∨ chan.Conflicts env packetdata) ∧
      (chan.receiveReliable env packetdata).chan =
        chan.processNow (readU16 (packetdata.drop 1)) packetdata ∧
      (chan.receiveReliable env packetdata).payload =
        .ok (packetdata.drop RELIABLE_HEADER_SIZE)) := by
  simp only [receiveReliable]
  split_ifs with hlen hfuture hold hnow
  · exact .inl ⟨rfl, _, rfl⟩
  · exact .inl ⟨rfl, _, rfl⟩
  · exact .inl ⟨rfl, _, rfl⟩
  · exact .inr (.inr ⟨not_lt.mp hlen, .inl hnow, rfl, rfl⟩)
  · rcases hins : chan.incomingReliables.insert
        (makePacket env.address packetdata env.protocolId env.peerId env.channelnum)
        chan.nextIncomingSeqnum with e | incoming
    · cases e with
      | incomingDataCorruption =>
        refine .inr (.inr ⟨not_lt.mp hlen, .inr ⟨not_lt.mp hlen, hnow, ?_⟩, rfl, rfl⟩)
        rcases ReliablePacketBuffer.insert_cases chan.incomingReliables
          (makePacket env.address packetdata env.protocolId env.peerId env.channelnum)
          chan.nextIncomingSeqnum with ⟨h, -⟩ | ⟨h, -⟩ | ⟨-, q, hq, hseq, hdiff⟩ | ⟨h, -⟩
        · exact nomatch h.symm.trans hins
        · exact nomatch h.symm.trans hins
        · rw [getSeqnum_makePacket_of_le _ _ _ _ (not_lt.mp hlen)] at hseq
          rw [size_makePacket] at hdiff
          exact ⟨q, hq, hseq, hdiff⟩
        · exact nomatch h.symm.trans hins
      | processedSilently => exact .inl ⟨rfl, _, rfl⟩
      | processedQueued => exact .inl ⟨rfl, _, rfl⟩
      | invalidIncomingData => exact .inl ⟨rfl, _, rfl⟩
      | sanityCheck => exact .inl ⟨rfl, _, rfl⟩
    · exact .inr (.inl ⟨incoming, rfl, hnow, rfl, rfl⟩)

end Channel

end Freeminer.Mtp
