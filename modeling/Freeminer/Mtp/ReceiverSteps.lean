import Freeminer.Lib.Runs
import Freeminer.Mtp.Reassembly
import Freeminer.Mtp.Receiver

/-! The receive thread as a transition system: passes over the buffers while `packet_queued` is
set, datagrams when it is not, and the other threads at any time. The handlers of packets
without a number leave the incoming reliables of every channel alone (`Keeps`). -/

namespace Freeminer.Mtp

open Lib

/-- The connection, and `packet_queued` of the receive loop. -/
structure ReceiveState where
  conn : Connection := {}
  packetQueued : Bool := true

/-- Two channels with the same incoming reliables. -/
structure SameIncoming (chan chan' : Channel) : Prop where
  incomingReliables : chan'.incomingReliables = chan.incomingReliables
  nextIncomingSeqnum : chan'.nextIncomingSeqnum = chan.nextIncomingSeqnum
  handled : chan'.handled = chan.handled

/-- Every channel has the incoming reliables of a channel that was there before, or none yet. -/
def Keeps (conn conn' : Connection) : Prop :=
  ∀ peer' ∈ conn'.peers, ∀ ch', (∃ peer ∈ conn.peers, ∃ ch,
    SameIncoming (peer.channels ch) (peer'.channels ch')) ∨ SameIncoming {} (peer'.channels ch')

inductive ReceiveOp where
  | buffers
  | datagram (d : Connection.Datagram)
  | other

/-- One step of the receive loop, or of the other threads, which may do anything but touch the
incoming reliables of a channel. -/
inductive ReceiveStep : ReceiveState → ReceiveOp → ReceiveState → Prop
  | passEnds {conn conn' : Connection} (h : conn.getFromBuffers = (none, conn')) :
      ReceiveStep ⟨conn, true⟩ .buffers ⟨conn', false⟩
  | processed {conn conn' : Connection} {peerId : SessionT} {data : SharedBuffer}
      (h : conn.getFromBuffers = (some (peerId, .ok data), conn')) :
      ReceiveStep ⟨conn, true⟩ .buffers ⟨conn'.putEvent (.dataReceived peerId data), true⟩
  | thrown {conn conn' : Connection} {peerId : SessionT} {e : ConException}
      (h : conn.getFromBuffers = (some (peerId, .error e), conn')) :
      ReceiveStep ⟨conn, true⟩ .buffers ⟨conn', true⟩
  | datagram {conn conn' : Connection} {d : Connection.Datagram} {queued : Option Bool}
      (h : conn.handleDatagram d = (queued, conn')) :
      ReceiveStep ⟨conn, false⟩ (.datagram d) ⟨conn', queued.getD false⟩
  | other {conn conn' : Connection} {packetQueued : Bool} (h : Keeps conn conn') :
      ReceiveStep ⟨conn, packetQueued⟩ .other ⟨conn', packetQueued⟩

def receiveLts : Lts ReceiveState ReceiveOp where
  init s := s = {}
  step := ReceiveStep

theorem ReceiveStep.of_datagram (conn : Connection) (d : Connection.Datagram) :
    ReceiveStep ⟨conn, false⟩ (.datagram d)
      ⟨(conn.handleDatagram d).2, (conn.handleDatagram d).1.getD false⟩ :=
  .datagram rfl

/-! ## Channels under the operations of a connection -/

theorem SameIncoming.refl (chan : Channel) : SameIncoming chan chan := ⟨rfl, rfl, rfl⟩

theorem SameIncoming.trans {a b c : Channel} (hab : SameIncoming a b) (hbc : SameIncoming b c) :
    SameIncoming a c :=
  ⟨hbc.1.trans hab.1, hbc.2.trans hab.2, hbc.3.trans hab.3⟩

theorem sameIncoming_ackReceived (seqnum : UInt16) (chan : Channel) :
    SameIncoming chan (chan.ackReceived seqnum) := by
  rw [Channel.ackReceived]
  split
  · exact .refl _
  · exact ⟨rfl, rfl, rfl⟩

theorem Keeps.refl (conn : Connection) : Keeps conn conn :=
  fun peer hpeer ch => .inl ⟨peer, hpeer, ch, .refl _⟩

theorem Keeps.trans {a b c : Connection} (hab : Keeps a b) (hbc : Keeps b c) : Keeps a c := by
  intro peer hpeer ch
  rcases hbc peer hpeer ch with ⟨peer₁, hpeer₁, ch₁, h₁⟩ | hfresh
  · rcases hab peer₁ hpeer₁ ch₁ with ⟨peer₀, hpeer₀, ch₀, h₀⟩ | hfresh
    · exact .inl ⟨peer₀, hpeer₀, ch₀, h₀.trans h₁⟩
    · exact .inr (hfresh.trans h₁)
  · exact .inr hfresh

def Connection.AllChannels (conn : Connection) (P : Channel → Prop) : Prop :=
  ∀ peer ∈ conn.peers, ∀ ch, P (peer.channels ch)

/-- A property of the incoming reliables that a fresh channel has survives what `Keeps` them. -/
theorem Keeps.allChannels {P : Channel → Prop} {conn conn' : Connection} (h : Keeps conn conn')
    (hP : ∀ c c', SameIncoming c c' → P c → P c') (h0 : P {}) (hall : conn.AllChannels P) :
    conn'.AllChannels P := by
  intro peer hpeer ch
  rcases h peer hpeer ch with ⟨peer₀, hpeer₀, ch₀, hsame⟩ | hfresh
  · exact hP _ _ hsame (hall peer₀ hpeer₀ ch₀)
  · exact hP _ _ hfresh h0

namespace Connection

variable {conn : Connection} {peerId : SessionT} {peer : UDPPeer} {ch : Fin CHANNEL_COUNT}

theorem mem_of_getPeerNoEx (h : conn.getPeerNoEx peerId = some peer) :
    peer ∈ conn.peers ∧ peer.id = peerId :=
  ⟨List.mem_of_find?_eq_some h, by simpa using List.find?_some h⟩

theorem keeps_of_peers {conn' : Connection} (h : conn'.peers = conn.peers) : Keeps conn conn' := by
  intro peer hpeer ch
  exact .inl ⟨peer, h ▸ hpeer, ch, .refl _⟩

/-- A channel after `setChannel` is the one set, or was there before. -/
theorem channels_setChannel {chan : Channel} {peer' : UDPPeer}
    (h : peer' ∈ (conn.setChannel peerId ch chan).peers) (ch' : Fin CHANNEL_COUNT) :
    peer'.channels ch' = chan ∨ ∃ peer ∈ conn.peers, peer'.channels ch' = peer.channels ch' := by
  obtain ⟨peer, hpeer, rfl⟩ := List.mem_map.mp h
  split_ifs with hid
  · by_cases hch : ch' = ch
    · subst hch
      exact .inl (Function.update_self _ _ _)
    · exact .inr ⟨peer, hpeer, Function.update_of_ne hch _ _⟩
  · exact .inr ⟨peer, hpeer, rfl⟩

theorem allChannels_setChannel {P : Channel → Prop} {chan : Channel} (h : P chan)
    (hall : conn.AllChannels P) : (conn.setChannel peerId ch chan).AllChannels P := by
  intro peer' hpeer' ch'
  rcases channels_setChannel hpeer' ch' with heq | ⟨peer, hpeer, heq⟩
  · rwa [heq]
  · rw [heq]
    exact hall peer hpeer ch'

theorem keeps_setChannel {chan : Channel} (hpeer : peer ∈ conn.peers)
    (h : SameIncoming (peer.channels ch) chan) : Keeps conn (conn.setChannel peerId ch chan) := by
  intro peer' hpeer' ch'
  rcases channels_setChannel hpeer' ch' with heq | ⟨peer₀, hpeer₀, heq⟩
  · exact .inl ⟨peer, hpeer, ch, heq ▸ h⟩
  · exact .inl ⟨peer₀, hpeer₀, ch', heq ▸ .refl _⟩

theorem keeps_deletePeer (timeout : Bool) : Keeps conn (conn.deletePeer peerId timeout) := by
  rw [deletePeer]
  split
  · exact .refl _
  · intro peer hpeer ch
    exact .inl ⟨peer, List.mem_of_mem_filter hpeer, ch, .refl _⟩

theorem keeps_setPeerId (id : SessionT) : Keeps conn (conn.setPeerId id) := by
  simp only [setPeerId]
  split <;> exact keeps_of_peers rfl

theorem keeps_identify (d : Datagram) : Keeps conn (conn.identify d).2 := by
  have hcreate : ∀ conn₀ : Connection, Keeps conn₀ (conn₀.createPeer d.sender d.drawn).2 := by
    intro conn₀
    rw [createPeer]
    split
    · exact .refl _
    · intro peer hpeer ch
      rcases List.mem_append.mp hpeer with hpeer | hpeer
      · exact .inl ⟨peer, hpeer, ch, .refl _⟩
      · obtain rfl := List.mem_singleton.mp hpeer
        exact .inr (.refl _)
  simp only [identify]
  split_ifs
  · exact .refl _
  · exact .refl _
  · exact keeps_of_peers rfl
  · exact .refl _
  · exact hcreate conn

theorem keeps_handlePacketTypeControl {packetdata : SharedBuffer} (hpeer : peer ∈ conn.peers) :
    Keeps conn (conn.handlePacketTypeControl peer ch packetdata).2 := by
  simp only [handlePacketTypeControl]
  split_ifs
  any_goals exact .refl _
  · exact keeps_setChannel hpeer (sameIncoming_ackReceived _ _)
  · exact keeps_setPeerId _
  · exact keeps_deletePeer false

theorem keeps_handlePacketTypeOriginal {packetdata : SharedBuffer} :
    Keeps conn (conn.handlePacketTypeOriginal packetdata).2 := by
  rw [handlePacketTypeOriginal]
  split_ifs <;> exact .refl _

theorem keeps_handlePacketTypeSplit {packetdata : SharedBuffer} {reliable : Bool}
    (hpeer : peer ∈ conn.peers) :
    Keeps conn (conn.handlePacketTypeSplit peer ch packetdata reliable).2 := by
  simp only [handlePacketTypeSplit]
  split
  · exact .refl _
  · split_ifs <;> exact keeps_setChannel hpeer ⟨rfl, rfl, rfl⟩

theorem keeps_processPacketWith {packetdata : SharedBuffer} {reliable : Bool}
    {handler : UDPPeer → Except ConException SharedBuffer × Connection}
    (h : ∀ peer, conn.getPeerNoEx peerId = some peer → ¬packetdata.length < 1 →
      ¬peerId ≥ MAX_UDP_PEERS → readU8 packetdata = PACKET_TYPE_RELIABLE →
      Keeps conn (handler peer).2) :
    Keeps conn (conn.processPacketWith peerId ch packetdata reliable handler).2 := by
  simp only [processPacketWith]
  split
  · exact .refl _
  · rename_i peer hpeer
    obtain ⟨hmem, -⟩ := mem_of_getPeerNoEx hpeer
    split_ifs with hlen hid hcontrol horiginal hsplit hreliable
    · exact .refl _
    · exact .refl _
    · exact keeps_handlePacketTypeControl hmem
    · exact keeps_handlePacketTypeOriginal
    · exact keeps_handlePacketTypeSplit hmem
    · exact h peer hpeer hlen hid hreliable
    · exact .refl _

/-- A packet inside a reliable one leaves the incoming reliables alone. -/
theorem keeps_processNested (payload : SharedBuffer) :
    Keeps conn (conn.processNested peerId ch payload).2 :=
  keeps_processPacketWith fun _ _ _ _ _ => .refl _

/-! ## One datagram -/

theorem peers_conclude (id : SessionT) (result : Except ConException SharedBuffer × Connection) :
    (conclude id result).2.peers = result.2.peers := by
  rcases result with ⟨_ | _, conn⟩
  · rename_i e
    cases e <;> rfl
  · rfl

/-- The flag is set unless an exception other than the two caught leaves the function. -/
theorem conclude_of_silent {id : SessionT} {result : Except ConException SharedBuffer × Connection}
    (h : ∀ e, result.1 = .error e → e = .processedSilently) : (conclude id result).1 = some true := by
  rcases result with ⟨e | data, conn⟩
  · obtain rfl := h e rfl
    rfl
  · rfl

theorem control_of_malformed {packetdata : SharedBuffer} (h : MalformedControl packetdata) :
    conn.handlePacketTypeControl peer ch packetdata = (.error .invalidIncomingData, conn) := by
  simp only [MalformedControl, List.mem_cons, List.not_mem_nil, or_false] at h
  simp only [handlePacketTypeControl]
  split_ifs <;> first | rfl | (exfalso; tauto)

theorem control_silent {packetdata : SharedBuffer} (h : ¬MalformedControl packetdata) :
    (conn.handlePacketTypeControl peer ch packetdata).1 = .error .processedSilently := by
  simp only [MalformedControl, List.mem_cons, List.not_mem_nil, or_false] at h
  simp only [handlePacketTypeControl]
  split_ifs <;> first | rfl | (exfalso; tauto)

/-- A packet inside a reliable one is thrown away if it is malformed. -/
theorem processNested_of_malformed {payload : SharedBuffer}
    (hpeer : conn.getPeerNoEx peerId = some peer) (h : Malformed payload) :
    conn.processNested peerId ch payload = (.error .invalidIncomingData, conn) := by
  simp only [processNested, processPacketWith, hpeer]
  split_ifs with hlen hid hcontrol horiginal hsplit
  · rfl
  · rfl
  · refine control_of_malformed (h.resolve_left hlen |>.resolve_right ?_).2
    simp [hcontrol, PACKET_TYPE_CONTROL, PACKET_TYPE_ORIGINAL]
  · have hshort : payload.length ≤ ORIGINAL_HEADER_SIZE := by
      simpa [Malformed, horiginal, PACKET_TYPE_CONTROL, PACKET_TYPE_ORIGINAL, hlen] using h
    rw [handlePacketTypeOriginal, if_pos hshort]
  · exact absurd h (by
      simp [Malformed, hsplit, PACKET_TYPE_CONTROL, PACKET_TYPE_ORIGINAL, PACKET_TYPE_SPLIT, hlen])
  · rfl
  · rfl

/-- Otherwise nothing but `ProcessedSilently` is thrown. -/
theorem processNested_silent {payload : SharedBuffer} {e : ConException}
    (hid : peerId < MAX_UDP_PEERS) (h : ¬Malformed payload)
    (he : (conn.processNested peerId ch payload).1 = .error e) : e = .processedSilently := by
  simp only [Malformed, not_or, not_and] at h
  obtain ⟨hlen, hmalcontrol, hmaloriginal, hother⟩ := h
  simp only [processNested, processPacketWith] at he
  split at he
  · exact (Except.error.inj he).symm
  rename_i peer hpeer
  rw [if_neg hlen, if_neg (UInt16.not_le.mpr hid)] at he
  split_ifs at he with hcontrol horiginal hsplit
  · exact Except.error.inj (he.symm.trans (control_silent (hmalcontrol hcontrol)))
  · rw [handlePacketTypeOriginal, if_neg (hmaloriginal horiginal)] at he
    exact nomatch he
  · obtain ⟨⟨data, splits⟩, hins⟩ := IncomingSplitBuffer.insert_total
      (peer.channels ch).incomingSplits
      (makePacket peer.address payload conn.protocolId peer.id ch.val.toUInt8) true
    simp only [handlePacketTypeSplit, hins] at he
    split_ifs at he
    exact (Except.error.inj he).symm
  all_goals exact absurd (by simp [hcontrol, horiginal, hsplit]) hother

theorem getPeerNoEx_updatePeer {f : UDPPeer → UDPPeer} (hf : ∀ peer, (f peer).id = peer.id)
    (h : conn.getPeerNoEx peerId = some peer) :
    (conn.updatePeer peerId f).getPeerNoEx peerId = some (f peer) := by
  have hid := (mem_of_getPeerNoEx h).2
  rw [getPeerNoEx] at h
  rw [getPeerNoEx, updatePeer, List.find?_map]
  have hcomp : ((fun peer : UDPPeer => decide (peer.id = peerId)) ∘
      fun peer => if peer.id = peerId then f peer else peer) =
      fun peer => decide (peer.id = peerId) := by
    funext p
    simp only [Function.comp_apply]
    split_ifs <;> simp [hf]
  rw [hcomp, h, Option.map_some, if_pos hid]

/-- What becomes of a reliable packet once its channel has taken it: the incoming reliables are
as the channel left them, and the flag is set unless its payload is malformed. -/
theorem handlePacketTypeReliable_spec (hpeer : conn.getPeerNoEx peerId = some peer)
    (hid : peerId < MAX_UDP_PEERS) (ch : Fin CHANNEL_COUNT) (packetdata : SharedBuffer) :
    let r := (peer.channels ch).receiveReliable (conn.receiveEnv peer ch) packetdata
    let result := conn.handlePacketTypeReliable peer ch packetdata
    Keeps (conn.setChannel peerId ch r.chan) result.2 ∧
      (∀ id, (conclude id result).1 = r.packetQueued) ∧
      (r.packetQueued = none → result.2.peers = (conn.setChannel peerId ch r.chan).peers) := by
  intro r result
  obtain ⟨-, rfl⟩ := mem_of_getPeerNoEx hpeer
  have hpeer₁ : ∀ {conn₁ : Connection}, conn₁.peers = (conn.setChannel peer.id ch r.chan).peers →
      conn₁.getPeerNoEx peer.id =
        some { peer with channels := Function.update peer.channels ch r.chan } := by
    intro conn₁ hpeers
    rw [getPeerNoEx, hpeers]
    exact getPeerNoEx_updatePeer (fun _ => rfl) hpeer
  rw [Received.packetQueued]
  rcases hpayload : r.payload with e | payload
  · obtain ⟨conn₁, hpeers, hresult⟩ : ∃ conn₁ : Connection,
        conn₁.peers = (conn.setChannel peer.id ch r.chan).peers ∧ result = (.error e, conn₁) := by
      unfold result handlePacketTypeReliable
      dsimp only
      rw [show (Channel.receiveReliable _ _ _).payload = _ from hpayload]
      refine ⟨_, ?_, rfl⟩
      split_ifs <;> rfl
    rw [hresult]
    refine ⟨keeps_of_peers hpeers, fun id => ?_, fun _ => hpeers⟩
    cases e <;> rfl
  · obtain ⟨conn₁, hpeers, hresult⟩ : ∃ conn₁ : Connection,
        conn₁.peers = (conn.setChannel peer.id ch r.chan).peers ∧
        result = conn₁.processNested peer.id ch payload := by
      unfold result handlePacketTypeReliable
      dsimp only
      rw [show (Channel.receiveReliable _ _ _).payload = _ from hpayload]
      refine ⟨_, ?_, rfl⟩
      split_ifs <;> rfl
    rw [hresult]
    refine ⟨(keeps_of_peers hpeers).trans (keeps_processNested payload), fun id => ?_, fun hq => ?_⟩
    · dsimp only
      split_ifs with hmalformed
      · rw [processNested_of_malformed (hpeer₁ hpeers) hmalformed]
        rfl
      · exact conclude_of_silent fun e => processNested_silent hid hmalformed
    · dsimp only at hq ⊢
      split_ifs at hq with hmalformed
      rw [processNested_of_malformed (hpeer₁ hpeers) hmalformed]
      exact hpeers

/-- The datagram carries a reliable packet of `peer` that gets as far as channel `ch`. -/
structure Reaches (conn : Connection) (d : Datagram) (peer : UDPPeer) (ch : Fin CHANNEL_COUNT) :
    Prop where
  size : BASE_HEADER_SIZE < d.data.length
  protocolId : readU32 d.data = conn.protocolId
  channelnum : (readU8 (d.data.drop 6)).toNat = ch.val
  peer_eq : (conn.identify d).2.getPeerNoEx (conn.identify d).1 = some peer
  address : d.sender = peer.address
  knew_or_halfOpen : readU16 (d.data.drop 4) ≠ PEER_ID_INEXISTENT ∨ peer.halfOpen = true
  id_lt : peer.id < MAX_UDP_PEERS
  type : readU8 (d.data.drop BASE_HEADER_SIZE) = PACKET_TYPE_RELIABLE

/-- The channel that the packet reaches, and what it makes of it. -/
def received (conn : Connection) (d : Datagram) (peer : UDPPeer) (ch : Fin CHANNEL_COUNT) :
    Received :=
  (peer.channels ch).receiveReliable (conn.receiveEnv peer ch) (d.data.drop BASE_HEADER_SIZE)

theorem protocolId_identify (d : Datagram) : (conn.identify d).2.protocolId = conn.protocolId := by
  simp only [identify]
  split_ifs
  any_goals rfl
  rw [createPeer]
  split_ifs <;> rfl

theorem processPacket_of_reliable {packetdata : SharedBuffer}
    (h : conn.getPeerNoEx peerId = some peer) (hlen : 0 < packetdata.length)
    (hid : peer.id < MAX_UDP_PEERS) (htype : readU8 packetdata = PACKET_TYPE_RELIABLE) :
    conn.processPacket peerId ch packetdata =
      conn.handlePacketTypeReliable peer ch packetdata := by
  obtain ⟨-, rfl⟩ := mem_of_getPeerNoEx h
  simp only [processPacket, processPacketWith, h]
  rw [if_neg (by omega), if_neg (UInt16.not_le.mpr hid), htype]
  rfl

/-- `SetFullyOpen` changes nothing that the handlers read. -/
theorem fullyOpen_spec (knew : Prop) [Decidable knew] (h : conn.getPeerNoEx peerId = some peer) :
    let conn₁ :=
      if knew then conn.updatePeer peerId fun peer => { peer with halfOpen := false } else conn
    Keeps conn conn₁ ∧ ∃ peer₁, conn₁.getPeerNoEx peerId = some peer₁ ∧ peer₁.id = peer.id ∧
      peer₁.channels = peer.channels ∧ conn₁.receiveEnv peer₁ = conn.receiveEnv peer := by
  dsimp only
  split_ifs
  · refine ⟨?_, { peer with halfOpen := false }, ?_, rfl, rfl, rfl⟩
    · intro peer' hpeer' ch
      obtain ⟨peer₀, hpeer₀, rfl⟩ := List.mem_map.mp hpeer'
      refine .inl ⟨peer₀, hpeer₀, ch, ?_⟩
      split_ifs <;> exact .refl _
    · exact getPeerNoEx_updatePeer (fun _ => rfl) h
  · exact ⟨.refl _, peer, h, rfl, rfl, rfl⟩

/-- A datagram without a reliable packet leaves the incoming reliables alone. -/
theorem keeps_handleDatagram {d : Datagram} (h : ∀ peer ch, ¬conn.Reaches d peer ch) :
    Keeps conn (conn.handleDatagram d).2 := by
  have hkeeps : Keeps conn (conn.identify d).2 := keeps_identify d
  simp only [handleDatagram]
  split
  · exact .refl _
  rename_i hheader
  split
  swap
  · exact .refl _
  rename_i hch
  split
  · exact hkeeps
  rename_i peer hpeer
  split
  · exact hkeeps
  rename_i haddress
  split
  · exact hkeeps
  rename_i hopen
  obtain ⟨hkeeps₁, -⟩ :=
    fullyOpen_spec (readU16 (d.data.drop 4) ≠ PEER_ID_INEXISTENT) hpeer
  refine (hkeeps.trans hkeeps₁).trans ?_
  refine Keeps.trans ?_ (keeps_of_peers (peers_conclude _ _))
  refine keeps_processPacketWith fun peer' _ hlen hidle htype => ?_
  refine absurd ?_ (h peer ⟨(readU8 (d.data.drop 6)).toNat, hch⟩)
  rw [not_or, not_not, not_lt] at hheader
  rw [List.length_drop] at hlen
  refine ⟨by omega, hheader.2, rfl, hpeer, not_not.mp haddress, ?_, ?_, htype⟩
  · by_cases hknew : readU16 (d.data.drop 4) ≠ PEER_ID_INEXISTENT
    · exact .inl hknew
    · exact .inr (by simpa [hknew] using hopen)
  · rw [(mem_of_getPeerNoEx hpeer).2]
    exact UInt16.not_le.mp hidle

/-- What a datagram with a reliable packet does to the incoming reliables, and when
`packet_queued` is set. -/
theorem handleDatagram_of_reaches {d : Datagram} (h : conn.Reaches d peer ch) :
    ∃ conn₁, Keeps conn conn₁ ∧
      (∃ peer₁ ∈ conn₁.peers, peer₁.id = peer.id ∧ peer₁.channels = peer.channels) ∧
      Keeps (conn₁.setChannel peer.id ch (conn.received d peer ch).chan)
        (conn.handleDatagram d).2 ∧
      (conn.handleDatagram d).1 = (conn.received d peer ch).packetQueued ∧
      ((conn.received d peer ch).packetQueued = none → (conn.handleDatagram d).2.peers =
        (conn₁.setChannel peer.id ch (conn.received d peer ch).chan).peers) := by
  obtain ⟨-, hid⟩ := mem_of_getPeerNoEx h.peer_eq
  obtain ⟨hkeeps₁, peer₁, hpeer₁, hid₁, hchannels, henv⟩ :=
    fullyOpen_spec (readU16 (d.data.drop 4) ≠ PEER_ID_INEXISTENT) h.peer_eq
  obtain ⟨conn₁, hconn₁⟩ : ∃ conn₁, conn₁ =
    (if readU16 (d.data.drop 4) ≠ PEER_ID_INEXISTENT then
      (conn.identify d).2.updatePeer (conn.identify d).1 fun peer => { peer with halfOpen := false }
    else (conn.identify d).2) := ⟨_, rfl⟩
  simp only [← hconn₁] at hkeeps₁ hpeer₁ henv
  have hch : (readU8 (d.data.drop 6)).toNat < CHANNEL_COUNT := by
    rw [h.channelnum]
    exact ch.isLt
  have hcheq : (⟨(readU8 (d.data.drop 6)).toNat, hch⟩ : Fin CHANNEL_COUNT) = ch :=
    Fin.ext h.channelnum
  have hprocess : conn₁.processPacket (conn.identify d).1 ch (d.data.drop BASE_HEADER_SIZE) =
      conn₁.handlePacketTypeReliable peer₁ ch (d.data.drop BASE_HEADER_SIZE) := by
    have hsize := h.size
    exact processPacket_of_reliable hpeer₁ (by rw [List.length_drop]; omega) (hid₁ ▸ h.id_lt)
      h.type
  have hhandle : conn.handleDatagram d = conclude (conn.identify d).1
      (conn₁.handlePacketTypeReliable peer₁ ch (d.data.drop BASE_HEADER_SIZE)) := by
    have hsize := h.size
    rw [handleDatagram, if_neg (by rw [not_or, not_not]; exact ⟨by omega, h.protocolId⟩),
      dif_pos hch]
    simp only [h.peer_eq]
    rw [if_neg (not_not.mpr h.address), if_neg, ← hconn₁, hcheq, hprocess]
    rcases h.knew_or_halfOpen with hknew | hhalf
    · exact fun hn => hn.1 hknew
    · exact fun hn => hn.2 hhalf
  have hspec := handlePacketTypeReliable_spec hpeer₁ (by rw [← hid]; exact h.id_lt) ch
    (d.data.drop BASE_HEADER_SIZE)
  have hreceived : (peer₁.channels ch).receiveReliable (conn₁.receiveEnv peer₁ ch)
      (d.data.drop BASE_HEADER_SIZE) = conn.received d peer ch := by
    rw [received, hchannels, henv]
    simp only [receiveEnv, protocolId_identify]
  rw [hreceived, ← hid] at hspec
  obtain ⟨hset, hqueued, hpeers⟩ := hspec
  rw [hhandle]
  refine ⟨conn₁, (keeps_identify d).trans hkeeps₁,
    ⟨peer₁, (mem_of_getPeerNoEx hpeer₁).1, hid₁, hchannels⟩,
    hset.trans (keeps_of_peers (peers_conclude _ _)), hqueued _, fun hnone => ?_⟩
  rw [peers_conclude, hpeers hnone]

/-! ## One pass over the buffers -/

theorem findDeliverable_eq_none (h : conn.findDeliverable = none) :
    conn.AllChannels fun chan => ¬chan.Deliverable := by
  intro peer hpeer ch hdeliverable
  rw [findDeliverable, List.findSome?_eq_none_iff] at h
  have hnone := Option.map_eq_none_iff.mp (h peer hpeer)
  have := List.find?_eq_none.mp hnone ch (List.mem_finRange ch)
  exact this (decide_eq_true hdeliverable)

theorem findDeliverable_eq_some (h : conn.findDeliverable = some (peer, ch)) :
    peer ∈ conn.peers ∧ (peer.channels ch).Deliverable := by
  obtain ⟨peer', hpeer', hmap⟩ := List.exists_of_findSome?_eq_some h
  obtain ⟨ch', hfind, heq⟩ := Option.map_eq_some_iff.mp hmap
  obtain ⟨rfl, rfl⟩ := Prod.mk.inj heq
  exact ⟨hpeer', by simpa using List.find?_some hfind⟩

/-- Either nothing is deliverable, or one deliverable packet is taken. -/
theorem getFromBuffers_cases {conn' : Connection}
    {result : Option (SessionT × Except ConException SharedBuffer)}
    (h : conn.getFromBuffers = (result, conn')) :
    (result = none ∧ conn' = conn ∧ conn.AllChannels fun chan => ¬chan.Deliverable) ∨
    (result ≠ none ∧ ∃ peer ∈ conn.peers, ∃ ch p chan,
      (peer.channels ch).popDeliverable = some (p, chan) ∧
      Keeps (conn.setChannel peer.id ch chan) conn') := by
  rw [getFromBuffers] at h
  split at h
  · rename_i hnone
    obtain ⟨rfl, rfl⟩ := Prod.mk.inj h
    exact .inl ⟨rfl, rfl, findDeliverable_eq_none hnone⟩
  · rename_i peer ch hsome
    obtain ⟨hpeer, hdeliverable⟩ := findDeliverable_eq_some hsome
    split at h
    · rename_i hpop
      exact absurd hdeliverable (Channel.popDeliverable_eq_none.mp hpop)
    · rename_i p chan hpop
      obtain ⟨rfl, rfl⟩ := Prod.mk.inj h
      exact .inr ⟨nofun, peer, hpeer, ch, p, chan, hpop, keeps_processNested _⟩

end Connection

/-- The rule for a property of every channel: what takes a packet from the buffer and what takes
one from a datagram have to preserve it. -/
theorem ReceiveStep.allChannels {P : Channel → Prop} {s s' : ReceiveState} {op : ReceiveOp}
    (hs : ReceiveStep s op s') (hP : ∀ c c', SameIncoming c c' → P c → P c') (h0 : P {})
    (hpop : ∀ c p c', c.popDeliverable = some (p, c') → P c → P c')
    (hreceive : ∀ d peer ch, op = .datagram d → s.conn.Reaches d peer ch →
      P (peer.channels ch) → P (s.conn.received d peer ch).chan)
    (hall : s.conn.AllChannels P) : s'.conn.AllChannels P := by
  have hbuffers : ∀ (conn conn' : Connection) result, conn.AllChannels P →
      conn.getFromBuffers = (result, conn') → conn'.AllChannels P := by
    intro conn conn' result hall h
    rcases Connection.getFromBuffers_cases h with ⟨-, rfl, -⟩ | ⟨-, peer, hpeer, ch, p, chan, hp, hk⟩
    · exact hall
    · refine hk.allChannels hP h0 (Connection.allChannels_setChannel ?_ hall)
      exact hpop _ _ _ hp (hall peer hpeer ch)
  cases hs with
  | passEnds h => exact hbuffers _ _ _ hall h
  | @processed conn conn' _ _ h => exact hbuffers conn conn' _ hall h
  | thrown h => exact hbuffers _ _ _ hall h
  | other h => exact h.allChannels hP h0 hall
  | @datagram conn conn' d _ h =>
    have h : (conn.handleDatagram d).2 = conn' := by rw [h]
    dsimp only
    rw [← h]
    by_cases hreaches : ∃ peer ch, conn.Reaches d peer ch
    · obtain ⟨peer, ch, hreaches⟩ := hreaches
      obtain ⟨conn₁, hk₁, ⟨peer₁, hpeer₁, -, hchannels⟩, hk₂, -⟩ :=
        Connection.handleDatagram_of_reaches hreaches
      have hall₁ := hk₁.allChannels hP h0 hall
      refine hk₂.allChannels hP h0 (Connection.allChannels_setChannel ?_ hall₁)
      exact hreceive d peer ch rfl hreaches (hchannels ▸ hall₁ peer₁ hpeer₁ ch)
    · simp only [not_exists] at hreaches
      exact (Connection.keeps_handleDatagram hreaches).allChannels hP h0 hall

end Freeminer.Mtp
