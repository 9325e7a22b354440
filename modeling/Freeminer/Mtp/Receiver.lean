import Freeminer.Mtp.Sender

/-! `ConnectionReceiveThread`: one pass over the buffers of incoming packets, and the handling of
one datagram. A function that may throw returns what it returns or throws beside the
connection, since what it did before it throws stays done. -/

namespace Freeminer.Mtp

abbrev CHANNEL_COUNT : ℕ := 3

instance : NeZero CHANNEL_COUNT := ⟨by decide⟩

inductive ConnectionEvent where
  | dataReceived (peerId : SessionT) (data : SharedBuffer)
  | peerAdded (peerId : SessionT) (address : Address)
  | peerRemoved (peerId : SessionT) (timeout : Bool) (address : Address)
  | bindFailed

structure UDPPeer where
  id : SessionT
  address : Address
  halfOpen : Bool := true
  pendingDisconnect : Bool := false
  channels : Fin CHANNEL_COUNT → Channel := fun _ => {}

structure Connection where
  protocolId : UInt32 := 0x4f457403
  peerId : SessionT := PEER_ID_INEXISTENT
  /-- The peers in the order of `m_peer_ids`. -/
  peers : List UDPPeer := []
  commandQueue : List ConnectionCommand := []
  eventQueue : List ConnectionEvent := []

namespace Connection

def getPeerNoEx (conn : Connection) (peerId : SessionT) : Option UDPPeer :=
  conn.peers.find? fun peer => peer.id = peerId

def connectedToServer (conn : Connection) : Bool := (conn.getPeerNoEx PEER_ID_SERVER).isSome

def lookupPeer (conn : Connection) (sender : Address) : SessionT :=
  match conn.peers.find? fun peer => peer.address = sender with
  | none => PEER_ID_INEXISTENT
  | some peer => peer.id

def putCommand (conn : Connection) (c : ConnectionCommand) : Connection :=
  { conn with commandQueue := conn.commandQueue ++ [c] }

def putEvent (conn : Connection) (e : ConnectionEvent) : Connection :=
  { conn with eventQueue := conn.eventQueue ++ [e] }

def sendAck (conn : Connection) (peerId : SessionT) (channelnum : UInt8) (seqnum : UInt16) :
    Connection :=
  conn.putCommand {
    type := .ack
    peerId
    channelnum
    data := PACKET_TYPE_CONTROL :: CONTROLTYPE_ACK :: writeU16 seqnum }

def disconnectPeer (conn : Connection) (peerId : SessionT) : Connection :=
  conn.putCommand { type := .disconnectPeer, peerId }

def doResendOne (conn : Connection) (peerId : SessionT) : Connection :=
  conn.putCommand { type := .resendOne, peerId, reliable := true }

def setPeerId (conn : Connection) (id : SessionT) : Connection :=
  let conn := { conn with peerId := id }
  -- fix peer id in existing queued reliable packets
  if id ≠ PEER_ID_INEXISTENT then conn.putCommand { type := .peerIdSet, peerId := id } else conn

def deletePeer (conn : Connection) (peerId : SessionT) (timeout : Bool) : Connection :=
  match conn.getPeerNoEx peerId with
  | none => conn
  | some peer =>
    let conn := { conn with peers := conn.peers.filter fun peer => peer.id ≠ peerId }
    conn.putEvent (.peerRemoved peerId timeout peer.address)

/-- `createPeer`, where `drawn` is the last id drawn. -/
def createPeer (conn : Connection) (sender : Address) (drawn : SessionT) :
    SessionT × Connection :=
  if (conn.getPeerNoEx drawn).isSome then (PEER_ID_INEXISTENT, conn)
  else
    let peer : UDPPeer := { id := drawn, address := sender }
    let conn := { conn with peers := conn.peers ++ [peer] }
    let conn := conn.putCommand {
      type := .createPeer
      peerId := drawn
      reliable := true
      raw := true
      data := PACKET_TYPE_CONTROL :: CONTROLTYPE_SET_PEER_ID :: writeU16 drawn }
    (drawn, conn.putEvent (.peerAdded drawn sender))

def updatePeer (conn : Connection) (peerId : SessionT) (f : UDPPeer → UDPPeer) : Connection :=
  { conn with peers := conn.peers.map fun peer => if peer.id = peerId then f peer else peer }

def setChannel (conn : Connection) (peerId : SessionT) (channelnum : Fin CHANNEL_COUNT)
    (chan : Channel) : Connection :=
  conn.updatePeer peerId fun peer =>
    { peer with channels := Function.update peer.channels channelnum chan }

/-! ## Packet handlers -/

def handlePacketTypeControl (conn : Connection) (peer : UDPPeer) (channelnum : Fin CHANNEL_COUNT)
    (packetdata : SharedBuffer) : Except ConException SharedBuffer × Connection :=
  if packetdata.length < 2 then (.error .invalidIncomingData, conn)
  else
    let controltype := readU8 (packetdata.drop 1)
    if controltype = CONTROLTYPE_ACK then
      if packetdata.length < 4 then (.error .invalidIncomingData, conn)
      else (.error .processedSilently, conn.setChannel peer.id channelnum
        ((peer.channels channelnum).ackReceived (readU16 (packetdata.drop 2))))
    else if controltype = CONTROLTYPE_SET_PEER_ID then
      if packetdata.length < 4 then (.error .invalidIncomingData, conn)
      else if conn.peerId ≠ PEER_ID_INEXISTENT then (.error .processedSilently, conn)
      else (.error .processedSilently, conn.setPeerId (readU16 (packetdata.drop 2)))
    else if controltype = CONTROLTYPE_PING then (.error .processedSilently, conn)
    else if controltype = CONTROLTYPE_DISCO then
      (.error .processedSilently, conn.deletePeer peer.id false)
    else (.error .invalidIncomingData, conn)

def handlePacketTypeOriginal (conn : Connection) (packetdata : SharedBuffer) :
    Except ConException SharedBuffer × Connection :=
  if packetdata.length ≤ ORIGINAL_HEADER_SIZE then (.error .invalidIncomingData, conn)
  else (.ok (packetdata.drop ORIGINAL_HEADER_SIZE), conn)

def handlePacketTypeSplit (conn : Connection) (peer : UDPPeer) (channelnum : Fin CHANNEL_COUNT)
    (packetdata : SharedBuffer) (reliable : Bool) :
    Except ConException SharedBuffer × Connection :=
  let packet := makePacket peer.address packetdata conn.protocolId peer.id channelnum.val.toUInt8
  let chan := peer.channels channelnum
  match chan.incomingSplits.insert packet reliable with
  | .error e => (.error e, conn)
  | .ok (data, incomingSplits) =>
    let conn := conn.setChannel peer.id channelnum { chan with incomingSplits }
    if data.length ≠ 0 then (.ok data, conn) else (.error .processedSilently, conn)

/-- `processPacket`, with the handler of reliable packets as a parameter. -/
def processPacketWith (conn : Connection) (peerId : SessionT) (channelnum : Fin CHANNEL_COUNT)
    (packetdata : SharedBuffer) (reliable : Bool)
    (handlePacketTypeReliable : UDPPeer → Except ConException SharedBuffer × Connection) :
    Except ConException SharedBuffer × Connection :=
  match conn.getPeerNoEx peerId with
  | none => (.error .processedSilently, conn)
  | some peer =>
    if packetdata.length < 1 then (.error .invalidIncomingData, conn)
    else if peerId ≥ MAX_UDP_PEERS then (.error .invalidIncomingData, conn)
    else
      let type := readU8 packetdata
      if type = PACKET_TYPE_CONTROL then
        conn.handlePacketTypeControl peer channelnum packetdata
      else if type = PACKET_TYPE_ORIGINAL then conn.handlePacketTypeOriginal packetdata
      else if type = PACKET_TYPE_SPLIT then
        conn.handlePacketTypeSplit peer channelnum packetdata reliable
      else if type = PACKET_TYPE_RELIABLE then handlePacketTypeReliable peer
      else (.error .invalidIncomingData, conn)

/-- `processPacket` with `reliable` set: nested reliable packets are not allowed. -/
def processNested (conn : Connection) (peerId : SessionT) (channelnum : Fin CHANNEL_COUNT)
    (packetdata : SharedBuffer) : Except ConException SharedBuffer × Connection :=
  conn.processPacketWith peerId channelnum packetdata true
    fun _ => (.error .invalidIncomingData, conn)

def receiveEnv (conn : Connection) (peer : UDPPeer) (channelnum : Fin CHANNEL_COUNT) :
    ReceiveEnv where
  address := peer.address
  protocolId := conn.protocolId
  peerId := peer.id
  channelnum := channelnum.val.toUInt8

def handlePacketTypeReliable (conn : Connection) (peer : UDPPeer)
    (channelnum : Fin CHANNEL_COUNT) (packetdata : SharedBuffer) :
    Except ConException SharedBuffer × Connection :=
  let r := (peer.channels channelnum).receiveReliable (conn.receiveEnv peer channelnum) packetdata
  let conn := conn.setChannel peer.id channelnum r.chan
  let conn :=
    if r.ack then
      conn.sendAck peer.id channelnum.val.toUInt8 (readU16 (packetdata.drop 1))
    else conn
  let conn := if r.corrupted then conn.disconnectPeer peer.id else conn
  match r.payload with
  | .error e => (.error e, conn)
  | .ok payload => conn.processNested peer.id channelnum payload

def processPacket (conn : Connection) (peerId : SessionT) (channelnum : Fin CHANNEL_COUNT)
    (packetdata : SharedBuffer) : Except ConException SharedBuffer × Connection :=
  conn.processPacketWith peerId channelnum packetdata false fun peer =>
    conn.handlePacketTypeReliable peer channelnum packetdata

/-! ## The pass over the buffers -/

/-- The first channel, in the order of the peers, whose first packet is deliverable. -/
def findDeliverable (conn : Connection) : Option (UDPPeer × Fin CHANNEL_COUNT) :=
  conn.peers.findSome? fun peer =>
    ((List.finRange CHANNEL_COUNT).find? fun channelnum =>
      (peer.channels channelnum).Deliverable).map fun channelnum => (peer, channelnum)

/-- `getFromBuffers`: what one call returns or throws, `none` if there is nothing to process. -/
def getFromBuffers (conn : Connection) :
    Option (SessionT × Except ConException SharedBuffer) × Connection :=
  match conn.findDeliverable with
  | none => (none, conn)
  | some (peer, channelnum) =>
    match (peer.channels channelnum).popDeliverable with
    | none => (none, conn)
    | some (p, chan) =>
      let (result, conn) := (conn.setChannel peer.id channelnum chan).processNested
        p.readPeerId channelnum p.payload
      (some (p.readPeerId, result), conn)

/-! ## Datagrams -/

/-- A datagram and, should it come from someone new, what the rate limit says and the id drawn. -/
structure Datagram where
  sender : Address
  data : SharedBuffer
  throttled : Bool := false
  drawn : SessionT := PEER_ID_INEXISTENT

/-- The peer that a datagram is from, before its address is checked. -/
def identify (conn : Connection) (d : Datagram) : SessionT × Connection :=
  let peerId := readU16 (d.data.drop 4)
  if conn.connectedToServer then (peerId, conn)
  else if peerId ≠ PEER_ID_INEXISTENT then (peerId, conn)
  else
    -- try to identify the peer by the sender's address
    let peerId := conn.lookupPeer d.sender
    if peerId ≠ PEER_ID_INEXISTENT then (peerId, conn.doResendOne peerId)
    -- someone new is trying to talk to us
    else if d.throttled then (PEER_ID_INEXISTENT, conn)
    else conn.createPeer d.sender d.drawn

/-- What `receive` does with the result of `processPacket`. -/
def conclude (peerId : SessionT) :
    Except ConException SharedBuffer × Connection → Option Bool × Connection
  | (.ok resultdata, conn) => (some true, conn.putEvent (.dataReceived peerId resultdata))
  | (.error .processedSilently, conn) => (some true, conn)
  | (.error .processedQueued, conn) => (some true, conn)
  -- invalid data leaves the function (a failed `sanity_check` the process)
  | (.error _, conn) => (none, conn)

/-- `receive` from the arrival of a datagram on; the new value of `packet_queued`, or none where
the function returns before it is set. -/
def handleDatagram (conn : Connection) (d : Datagram) : Option Bool × Connection :=
  if d.data.length < BASE_HEADER_SIZE ∨ readU32 d.data ≠ conn.protocolId then (none, conn)
  else if h : (readU8 (d.data.drop 6)).toNat < CHANNEL_COUNT then
    let channelnum : Fin CHANNEL_COUNT := ⟨(readU8 (d.data.drop 6)).toNat, h⟩
    let knewPeerId := readU16 (d.data.drop 4) ≠ PEER_ID_INEXISTENT
    let (peerId, conn) := conn.identify d
    match conn.getPeerNoEx peerId with
    | none => (none, conn)
    | some peer =>
      if d.sender ≠ peer.address then (none, conn)
      else if ¬knewPeerId ∧ ¬peer.halfOpen then (none, conn)
      else
        let conn :=
          if knewPeerId then conn.updatePeer peerId fun peer => { peer with halfOpen := false }
          else conn
        conclude peerId (conn.processPacket peerId channelnum (d.data.drop BASE_HEADER_SIZE))
  else (none, conn)

end Connection

end Freeminer.Mtp
