import Freeminer.Mtp.Receiver

/-! `ConnectionSendThread`: the commands that it takes from the queue of the connection, and the
rounds of its loops over peers, channels and packets. Functions that send return the packets
sent. -/

namespace Freeminer.Mtp

/-- What `sendAsPacket` leaves for the end of the iteration. -/
structure OutgoingPacket where
  peerId : SessionT
  channelnum : Fin CHANNEL_COUNT
  data : SharedBuffer
  reliable : Bool := false
  ack : Bool := false

structure SendThread where
  conn : Connection := {}
  maxPacketSize : UInt32
  outgoingQueue : List OutgoingPacket := []
  /-- Whether the socket can be bound to an address. -/
  canBind : Address → Bool := fun _ => true

namespace Connection

/-- `Send`, for a packet with the given command; none is the `FATAL_ERROR`. -/
def send (conn : Connection) (peerId : SessionT) (channelnum : Fin CHANNEL_COUNT)
    (command : UInt16) (payload : SharedBuffer) (reliable : Bool) : Option Connection :=
  if reliable ∧ payload.length > MAX_RELIABLE_WINDOW_SIZE.toNat * 512 then none
  else some (conn.putCommand {
    type := .send
    peerId
    channelnum := channelnum.val.toUInt8
    reliable
    data := writeU16 command ++ payload })

def disconnect (conn : Connection) : Connection := conn.putCommand { type := .disconnect }

/-- `createServerPeer`; none is the `ConnectionException`. -/
def createServerPeer (conn : Connection) (address : Address) : Option Connection :=
  if conn.connectedToServer then none
  else some { conn with
    peers := conn.peers ++ [{ id := PEER_ID_SERVER, address, halfOpen := false }] }

end Connection

namespace SendThread

def sendEnv (t : SendThread) (peer : UDPPeer) (channelnum : Fin CHANNEL_COUNT) : SendEnv where
  maxPacketSize := t.maxPacketSize
  protocolId := t.conn.protocolId
  peerId := t.conn.peerId
  address := peer.address
  channelnum := channelnum.val.toUInt8
  pendingDisconnect := peer.pendingDisconnect

def setChannel (t : SendThread) (peerId : SessionT) (channelnum : Fin CHANNEL_COUNT)
    (chan : Channel) : SendThread :=
  { t with conn := t.conn.setChannel peerId channelnum chan }

/-- What `f` does with a channel of a peer, nothing if the peer is gone. -/
def onChannel (t : SendThread) (peerId : SessionT) (channelnum : Fin CHANNEL_COUNT)
    (f : UDPPeer → Channel → Except ConException (List BufferedPacket × Channel)) :
    Except ConException (List BufferedPacket × SendThread) :=
  match t.conn.getPeerNoEx peerId with
  | none => .ok ([], t)
  | some peer => do
    let (wire, chan) ← f peer (peer.channels channelnum)
    pure (wire, t.setChannel peerId channelnum chan)

/-- A command for a channel that does not exist fails an assertion. -/
def withChannelnum {α : Type} (channelnum : UInt8)
    (f : Fin CHANNEL_COUNT → Except ConException α) : Except ConException α :=
  if h : channelnum.toNat < CHANNEL_COUNT then f ⟨channelnum.toNat, h⟩ else .error .sanityCheck

/-! ## Sending -/

def rawSendAsPacket (t : SendThread) (peerId : SessionT) (channelnum : Fin CHANNEL_COUNT)
    (data : SharedBuffer) (reliable : Bool) :
    Except ConException (Bool × List BufferedPacket × SendThread) :=
  match t.conn.getPeerNoEx peerId with
  | none => .ok (false, [], t)
  | some peer =>
    if reliable then do
      let (sent, wire, chan) ←
        (peer.channels channelnum).rawSendAsPacket (t.sendEnv peer channelnum) data
      pure (sent, wire, t.setChannel peerId channelnum chan)
    else .ok (true, [makePacket peer.address data t.conn.protocolId t.conn.peerId
      channelnum.val.toUInt8], t)

def sendAsPacket (t : SendThread) (peerId : SessionT) (channelnum : Fin CHANNEL_COUNT)
    (data : SharedBuffer) (ack : Bool) : SendThread :=
  { t with outgoingQueue := t.outgoingQueue ++ [{ peerId, channelnum, data, ack }] }

/-- `PutReliableSendCommand` for a peer. -/
def putReliableSendCommand (t : SendThread) (peerId : SessionT) (c : ConnectionCommand) :
    Except ConException (List BufferedPacket × SendThread) :=
  withChannelnum c.channelnum fun channelnum =>
    t.onChannel peerId channelnum fun peer chan => do
      let chan ← chan.putReliableSendCommand (t.sendEnv peer channelnum) c
      pure ([], chan)

def sendReliable (t : SendThread) (c : ConnectionCommand) :
    Except ConException (List BufferedPacket × SendThread) :=
  t.putReliableSendCommand c.peerId c

/-- The loop of `sendToAllReliable`. -/
def sendToAllReliable (c : ConnectionCommand) :
    List SessionT → SendThread → Except ConException (List BufferedPacket × SendThread)
  | [], t => .ok ([], t)
  | peerId :: peerIds, t => do
    let (wire, t) ← t.putReliableSendCommand peerId c
    let (wire', t) ← sendToAllReliable c peerIds t
    pure (wire ++ wire', t)

def send (t : SendThread) (peerId : SessionT) (channelnum : Fin CHANNEL_COUNT)
    (data : SharedBuffer) : Except ConException SendThread :=
  match t.conn.getPeerNoEx peerId with
  | none => .ok t
  | some peer =>
    let chan := peer.channels channelnum
    let chunksizeMax := t.maxPacketSize - UInt32.ofNat BASE_HEADER_SIZE
    match makeAutoSplitPacket data chunksizeMax chan.nextOutgoingSplitSeqnum with
    | none => .error .sanityCheck
    | some (originals, splitSeqnum) =>
      let t := t.setChannel peerId channelnum { chan with nextOutgoingSplitSeqnum := splitSeqnum }
      .ok (originals.foldl (fun t original => t.sendAsPacket peerId channelnum original false) t)

/-- The loop of `sendToAll`. -/
def sendToAll (channelnum : Fin CHANNEL_COUNT) (data : SharedBuffer) :
    List SessionT → SendThread → Except ConException SendThread
  | [], t => .ok t
  | peerId :: peerIds, t => do
    let t ← t.send peerId channelnum data
    sendToAll channelnum data peerIds t

/-! ## Commands -/

def peerIds (t : SendThread) : List SessionT := t.conn.peers.map (·.id)

def serve (t : SendThread) (bindAddress : Address) : SendThread :=
  if t.canBind bindAddress then { t with conn := t.conn.setPeerId PEER_ID_SERVER }
  else { t with conn := t.conn.putEvent .bindFailed }

/-- `connect`; it does not return if the connection has a server or the socket cannot be
bound. -/
def connect (t : SendThread) (address : Address) : Option SendThread := do
  let conn ← t.conn.createServerPeer address
  let conn := conn.putEvent (.peerAdded PEER_ID_SERVER address)
  let bindAddr : Address := ⟨address.host.map fun _ => 0, 0⟩
  if t.canBind bindAddr then
    -- a dummy packet to the server, still without a peer id
    let conn ← (conn.setPeerId PEER_ID_INEXISTENT).send PEER_ID_SERVER 0 0 [] true
    some { t with conn }
  else none

def discoPacket : SharedBuffer := [PACKET_TYPE_CONTROL, CONTROLTYPE_DISCO]

def disconnect (t : SendThread) : SendThread :=
  t.peerIds.foldl (fun t peerId => t.sendAsPacket peerId 0 discoPacket false) t

def disconnectPeer (t : SendThread) (peerId : SessionT) : SendThread :=
  let t := t.sendAsPacket peerId 0 discoPacket false
  { t with conn := t.conn.updatePeer peerId fun peer => { peer with pendingDisconnect := true } }

/-- `fix_peer_id`. Only this thread adds packets to the channels it loops over, so the loop is
one step. -/
def fixPeerId (t : SendThread) (ownPeerId : SessionT) : SendThread :=
  { t with conn := { t.conn with peers := t.conn.peers.map fun peer =>
    { peer with channels := fun ch => (peer.channels ch).fixPeerId ownPeerId } } }

def processReliableCommand (t : SendThread) (c : ConnectionCommand) :
    Except ConException (List BufferedPacket × SendThread) :=
  match c.type with
  | .none => .ok ([], t)
  | .send => t.sendReliable c
  | .sendToAll => sendToAllReliable c t.peerIds t
  | .createPeer => withChannelnum c.channelnum fun channelnum => do
    let (sent, wire, t) ← t.rawSendAsPacket c.peerId channelnum c.data c.reliable
    if sent then pure (wire, t)
    else
      -- put to queue if we couldn't send it immediately
      let (wire', t) ← t.sendReliable c
      pure (wire ++ wire', t)
  | .resendOne => withChannelnum c.channelnum fun channelnum =>
    t.onChannel c.peerId channelnum fun _ chan => .ok chan.resendOne
  | .serve | .connect | .disconnect | .ack => .error .sanityCheck
  | .disconnectPeer | .peerIdSet => .ok ([], t)

def processNonReliableCommand (t : SendThread) (c : ConnectionCommand) :
    Except ConException (List BufferedPacket × SendThread) :=
  match c.type with
  | .none => .ok ([], t)
  | .serve => .ok ([], t.serve c.address)
  | .connect =>
    match t.connect c.address with
    | none => .error .sanityCheck
    | some t => .ok ([], t)
  | .disconnect => .ok ([], t.disconnect)
  | .disconnectPeer => .ok ([], t.disconnectPeer c.peerId)
  | .peerIdSet => .ok ([], t.fixPeerId c.peerId)
  | .send => withChannelnum c.channelnum fun channelnum => do
    let t ← t.send c.peerId channelnum c.data
    pure ([], t)
  | .sendToAll => withChannelnum c.channelnum fun channelnum => do
    let t ← sendToAll channelnum c.data t.peerIds t
    pure ([], t)
  | .ack => withChannelnum c.channelnum fun channelnum =>
    .ok ([], t.sendAsPacket c.peerId channelnum c.data true)
  | .createPeer => withChannelnum c.channelnum fun channelnum => do
    let (sent, wire, t) ← t.rawSendAsPacket c.peerId channelnum c.data c.reliable
    if sent then pure (wire, t)
    else
      let t ← t.send c.peerId channelnum c.data
      pure (wire, t)
  | .resendOne => .ok ([], t)

def processCommand (t : SendThread) : Except ConException (List BufferedPacket × SendThread) :=
  match t.conn.commandQueue with
  | [] => .ok ([], t)
  | c :: queue =>
    let t := { t with conn := { t.conn with commandQueue := queue } }
    if c.reliable then t.processReliableCommand c else t.processNonReliableCommand c

/-! ## Timeouts and queues -/

/-- `runTimeouts`, the packets of a channel to send again. -/
def resendTimedOuts (t : SendThread) (peerId : SessionT) (channelnum : Fin CHANNEL_COUNT)
    (expired : BufferedPacket → Bool) (quota : ℕ) :
    Except ConException (List BufferedPacket × SendThread) :=
  t.onChannel peerId channelnum fun peer chan =>
    .ok (chan.resendTimedOuts expired quota peer.halfOpen)

/-- `runTimeouts`, the window that `UpdateTimers` arrives at. -/
def updateTimers (t : SendThread) (peerId : SessionT) (channelnum : Fin CHANNEL_COUNT)
    (size : ℤ) : Except ConException (List BufferedPacket × SendThread) :=
  t.onChannel peerId channelnum fun peer chan =>
    .ok ([], if peer.halfOpen then chan else chan.setWindowSize size)

/-- `runTimeouts`, a ping that is due. -/
def ping (t : SendThread) (peerId : SessionT) :
    Except ConException (List BufferedPacket × SendThread) :=
  match t.conn.getPeerNoEx peerId with
  | none => .ok ([], t)
  | some peer =>
    if peer.halfOpen then .ok ([], t)
    else do
      let (_, wire, t) ← t.rawSendAsPacket peerId 0 [PACKET_TYPE_CONTROL, CONTROLTYPE_PING] true
      pure (wire, t)

/-- `RunCommandQueues` for one channel. -/
def runCommandQueue (t : SendThread) (peerId : SessionT) (channelnum : Fin CHANNEL_COUNT)
    (maxtransfer : ℕ) : Except ConException (List BufferedPacket × SendThread) :=
  t.onChannel peerId channelnum fun peer chan => do
    let chan ← chan.runCommandQueue (t.sendEnv peer channelnum) maxtransfer
    pure ([], chan)

/-- `sendPackets`, a queued packet of a channel. -/
def sendQueued (t : SendThread) (peerId : SessionT) (channelnum : Fin CHANNEL_COUNT) :
    Except ConException (List BufferedPacket × SendThread) :=
  t.onChannel peerId channelnum fun _ chan => chan.sendQueued

/-- `sendPackets`, the first packet of the outgoing queue, where `remaining` says whether the
quota of its peer is left. -/
def sendOutgoing (t : SendThread) (remaining : Bool) :
    Except ConException (List BufferedPacket × SendThread) :=
  match t.outgoingQueue with
  | [] => .ok ([], t)
  | packet :: queue =>
    let t := { t with outgoingQueue := queue }
    if packet.reliable then .ok ([], t)
    else if (t.conn.getPeerNoEx packet.peerId).isNone then .ok ([], t)
    else if packet.ack || remaining then do
      let (_, wire, t) ←
        t.rawSendAsPacket packet.peerId packet.channelnum packet.data packet.reliable
      pure (wire, t)
    else .ok ([], { t with outgoingQueue := queue ++ [packet] })

def deletePeer (t : SendThread) (peerId : SessionT) (timeout : Bool) : SendThread :=
  { t with conn := t.conn.deletePeer peerId timeout }

end SendThread

end Freeminer.Mtp
