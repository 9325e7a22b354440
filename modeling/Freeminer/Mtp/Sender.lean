import Freeminer.Mtp.Channel

/-! The sending side of a channel: `UDPPeer` turns commands into numbered packets,
`ConnectionSendThread` puts packets on the wire and keeps them until they are acked. Functions
that send return the packets sent. -/

namespace Freeminer.Mtp

/-- What the send thread reads of the connection and the peer. -/
structure SendEnv where
  maxPacketSize : UInt32
  protocolId : UInt32
  /-- `m_connection->GetPeerID()` -/
  peerId : SessionT
  /-- The address of the peer. -/
  address : Address
  channelnum : UInt8
  pendingDisconnect : Bool := false

namespace Channel

def makeReliable (env : SendEnv) (data : SharedBuffer) (seqnum : UInt16) : BufferedPacket :=
  makePacket env.address (makeReliablePacket data seqnum) env.protocolId env.peerId env.channelnum

/-! ## Numbering -/

/-- The loop over `originals` of `processReliableSendCommand`: `toadd`,
`have_sequence_number` and the channel after it. -/
def numberOriginals (env : SendEnv) (haveSequenceNumber : Bool) :
    List SharedBuffer → Channel → List BufferedPacket × Bool × Channel
  | [], chan => ([], haveSequenceNumber, chan)
  | original :: originals, chan =>
    match chan.getOutgoingSequenceNumber with
    | (none, chan) => ([], false, chan)
    | (some seqnum, chan) =>
      let (toadd, haveSequenceNumber, chan) := numberOriginals env true originals chan
      (makeReliable env original seqnum :: toadd, haveSequenceNumber, chan)

/-- The numbers `initial`, ... are put back, the `n`th first; `none` is the `FATAL_ERROR_IF`. -/
def putBackAll (initial : UInt16) : ℕ → Channel → Option Channel
  | 0, chan => some chan
  | n + 1, chan =>
    (chan.putBackSequenceNumber (initial + UInt16.ofNat (n % (SEQNUM_MAX + 1)))).bind
      (putBackAll initial n)

/-- The packets to number, and the channel with its next split sequence number. -/
def splitCommand (env : SendEnv) (c : ConnectionCommand) (chan : Channel) :
    Except ConException (List SharedBuffer × Channel) :=
  let chunksizeMax := env.maxPacketSize - UInt32.ofNat BASE_HEADER_SIZE -
    UInt32.ofNat RELIABLE_HEADER_SIZE
  if c.raw then .ok ([c.data], chan)
  else
    match makeAutoSplitPacket c.data chunksizeMax chan.nextOutgoingSplitSeqnum with
    | none => .error .sanityCheck
    | some (originals, splitSeqnum) =>
      .ok (originals, { chan with nextOutgoingSplitSeqnum := splitSeqnum })

/-- `processReliableSendCommand` from the numbering on. -/
def queueOriginals (env : SendEnv) (originals : List SharedBuffer) (chan : Channel) :
    Except ConException (Bool × Channel) :=
  if ¬originals.length < MAX_RELIABLE_WINDOW_SIZE.toNat then .error .sanityCheck
  else
    match numberOriginals env false originals chan with
    | (toadd, true, chan) =>
      if ¬(chan.queuedReliables ++ toadd).length < 0xFFFF then .error .sanityCheck
      else .ok (true, { chan with queuedReliables := chan.queuedReliables ++ toadd })
    | ([], false, chan) => .ok (false, chan)
    | (p :: toadd, false, chan) =>
      match putBackAll p.getSeqnum (toadd.length + 1) chan with
      | none => .error .sanityCheck
      | some chan => .ok (false, chan)

def processReliableSendCommand (env : SendEnv) (c : ConnectionCommand) (chan : Channel) :
    Except ConException (Bool × Channel) :=
  if env.pendingDisconnect then .ok (true, chan)
  else do
    let (originals, chan) ← splitCommand env c chan
    queueOriginals env originals chan

def putReliableSendCommand (env : SendEnv) (c : ConnectionCommand) (chan : Channel) :
    Except ConException Channel :=
  if env.pendingDisconnect then .ok chan
  else if chan.queuedCommands = [] ∧
      chan.queuedReliables.length + 1 < chan.windowSize.val.toNat / 2 then do
    let (done, chan) ← processReliableSendCommand env c chan
    pure (if done then chan else { chan with queuedCommands := chan.queuedCommands ++ [c] })
  else .ok { chan with queuedCommands := chan.queuedCommands ++ [c] }

/-- `RunCommandQueues` for one channel. -/
def runCommandQueue (env : SendEnv) (maxtransfer : ℕ) (chan : Channel) :
    Except ConException Channel :=
  match chan.queuedCommands with
  | [] => .ok chan
  | c :: _ =>
    if chan.queuedReliables.length < maxtransfer then do
      let (done, chan) ← processReliableSendCommand env c chan
      pure (if done then { chan with queuedCommands := chan.queuedCommands.tail } else chan)
    else .ok chan

/-! ## Sending -/

/-- The `next_expected` that `sendAsPacketReliable` passes to `insert`. -/
def nextExpected (nextOutgoing : UInt16) : UInt16 :=
  UInt16.ofInt (((nextOutgoing.toNat : ℤ) - MAX_RELIABLE_WINDOW_SIZE.toNat).tmod
    (MAX_RELIABLE_WINDOW_SIZE.toNat + 1))

def sendAsPacketReliable (p : BufferedPacket) (chan : Channel) : Except ConException Channel := do
  let sent ← chan.outgoingReliablesSent.insert p (nextExpected chan.nextOutgoingSeqnum)
  pure { chan with outgoingReliablesSent := sent }

/-- `rawSendAsPacket` of a reliable packet to an existing peer. -/
def rawSendAsPacket (env : SendEnv) (data : SharedBuffer) (chan : Channel) :
    Except ConException (Bool × List BufferedPacket × Channel) :=
  match chan.getOutgoingSequenceNumber with
  | (none, chan) => .ok (false, [], chan)
  | (some seqnum, chan) =>
    let p := makeReliable env data seqnum
    -- first check if our send window is already maxed out
    if chan.outgoingReliablesSent.length < chan.windowSize.val.toNat then do
      let chan ← sendAsPacketReliable p chan
      pure (true, [p], chan)
    else .ok (false, [], { chan with queuedReliables := chan.queuedReliables ++ [p] })

/-- A round of the loop of `sendPackets` over the queued packets of a channel. -/
def sendQueued (chan : Channel) : Except ConException (List BufferedPacket × Channel) :=
  match chan.queuedReliables with
  | [] => .ok ([], chan)
  | p :: queued =>
    if chan.outgoingReliablesSent.length < chan.windowSize.val.toNat then do
      let chan ← sendAsPacketReliable p { chan with queuedReliables := queued }
      pure ([p], chan)
    else .ok ([], chan)

/-- The loop of `sendPackets`, with the peer's `m_increment_packets_remaining`. -/
def sendPackets : ℕ → Channel → Except ConException (List BufferedPacket × Channel)
  | 0, chan => .ok ([], chan)
  | remaining + 1, chan => do
    let (wire, chan) ← sendQueued chan
    if wire = [] then pure ([], chan)
    else
      let (wire', chan) ← sendPackets remaining chan
      pure (wire ++ wire', chan)

/-- What `runTimeouts` resends, and nothing while the peer is half open. -/
def resendTimedOuts (expired : BufferedPacket → Bool) (quota : ℕ) (halfOpen : Bool)
    (chan : Channel) : List BufferedPacket × Channel :=
  let (sent, timedOuts) := chan.outgoingReliablesSent.getResend expired quota
  (if halfOpen then [] else timedOuts, { chan with outgoingReliablesSent := sent })

def RESEND_ONE_LIMIT : ℕ := 6

/-- `CONNCMD_RESEND_ONE` -/
def resendOne (chan : Channel) : List BufferedPacket × Channel :=
  let (sent, list) := chan.outgoingReliablesSent.getResend (fun _ => true) 1
  (list.filter fun packet => packet.resendCount ≤ RESEND_ONE_LIMIT,
    { chan with outgoingReliablesSent := sent })

/-- `CONTROLTYPE_ACK` -/
def ackReceived (seqnum : UInt16) (chan : Channel) : Channel :=
  match chan.outgoingReliablesSent.popSeqnum seqnum with
  | none => chan
  | some (_, sent) => { chan with outgoingReliablesSent := sent }

def fixPeerId (newId : SessionT) (chan : Channel) : Channel :=
  { chan with outgoingReliablesSent := chan.outgoingReliablesSent.fixPeerId newId }

end Channel

end Freeminer.Mtp
