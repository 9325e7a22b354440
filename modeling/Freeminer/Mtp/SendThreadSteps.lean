import Freeminer.Lib.Result
import Freeminer.Mtp.ReceiverSteps
import Freeminer.Mtp.SenderSteps
import Freeminer.Mtp.SendThread

/-! What the threads of a connection do to the packets that its channels still have to send.
A property of packets that new ones have, and that resending does not change, holds of all that
the send thread sends and keeps (`Emits`). The receive thread adds no packets: it acks some,
and `Receives` lists all that it does to the connection. -/

namespace Freeminer.Mtp

open Lib ReliablePacketBuffer

/-! ## Channels -/

def Channel.AllPackets (P : BufferedPacket → Prop) (chan : Channel) : Prop :=
  (∀ p ∈ chan.queuedReliables, P p) ∧ ∀ p ∈ chan.outgoingReliablesSent, P p

def Stable (P : BufferedPacket → Prop) : Prop :=
  ∀ p n, P p → P { p with resendCount := n }

theorem ReliablePacketBuffer.mem_getResendFrom_old {expired : BufferedPacket → Bool}
    {maxPackets n : ℕ} {b : ReliablePacketBuffer} {q : BufferedPacket}
    (h : q ∈ (getResendFrom expired maxPackets n b).1) :
    ∃ p ∈ b, ∃ count, q = { p with resendCount := count } := by
  induction b generalizing n with
  | nil => exact nomatch h
  | cons p b ih =>
    have hcons : ∀ {q}, (∃ p' ∈ b, ∃ count, q = { p' with resendCount := count }) →
        ∃ p' ∈ p :: b, ∃ count, q = { p' with resendCount := count } := by
      rintro q ⟨p', hp', hcount⟩
      exact ⟨p', List.mem_cons_of_mem _ hp', hcount⟩
    simp only [getResendFrom] at h
    split_ifs at h
    · rcases List.mem_cons.mp h with rfl | h
      · exact ⟨q, List.mem_cons_self, q.resendCount, rfl⟩
      · exact hcons (ih h)
    · rcases List.mem_cons.mp h with rfl | h
      · exact ⟨p, List.mem_cons_self, _, rfl⟩
      · exact hcons ⟨q, h, q.resendCount, rfl⟩
    · rcases List.mem_cons.mp h with rfl | h
      · exact ⟨p, List.mem_cons_self, _, rfl⟩
      · exact hcons (ih h)

namespace Channel

variable {P : BufferedPacket → Prop} {env : SendEnv} {chan chan' : Channel} {p : BufferedPacket}

theorem mem_numbering {next : UInt16} {originals : List SharedBuffer}
    (h : p ∈ numbering env next originals) :
    ∃ data seqnum, p = makeReliable env data seqnum := by
  induction originals generalizing next with
  | nil => exact nomatch h
  | cons o originals ih =>
    rcases List.mem_cons.mp h with rfl | h
    · exact ⟨o, next, rfl⟩
    · exact ih h

theorem Queues.allPackets (h : Queues env chan chan')
    (hmade : ∀ data seqnum, P (makeReliable env data seqnum)) (hall : chan.AllPackets P) :
    chan'.AllPackets P := by
  obtain ⟨hsent, ⟨hqueue, -⟩ | ⟨originals, -, -, -, -, hqueue⟩⟩ := h
  · rwa [AllPackets, hsent, hqueue]
  · rw [AllPackets, hsent, hqueue]
    refine ⟨fun p hp => ?_, hall.2⟩
    rcases List.mem_append.mp hp with hp | hp
    · exact hall.1 p hp
    · obtain ⟨data, seqnum, rfl⟩ := mem_numbering hp
      exact hmade data seqnum

theorem allPackets_sendAsPacketReliable (h : chan.sendAsPacketReliable p = .ok chan') (hp : P p)
    (hall : chan.AllPackets P) : chan'.AllPackets P := by
  obtain ⟨sent, hins, rfl⟩ := sendAsPacketReliable_eq_ok h
  refine ⟨hall.1, fun q hq => ?_⟩
  rcases mem_of_insert hins with rfl | hmem
  · exact hall.2 q hq
  · rcases (hmem q).mp hq with rfl | hq
    · exact hp
    · exact hall.2 q hq

theorem allPackets_rawSendAsPacket {data : SharedBuffer} {sent : Bool}
    {wire : List BufferedPacket} (h : chan.rawSendAsPacket env data = .ok (sent, wire, chan'))
    (hmade : ∀ data seqnum, P (makeReliable env data seqnum)) (hall : chan.AllPackets P) :
    chan'.AllPackets P ∧ ∀ p ∈ wire, P p := by
  rw [rawSendAsPacket] at h
  rcases hget : chan.getOutgoingSequenceNumber with ⟨_ | seqnum, chan₁⟩
  · rw [hget] at h
    obtain rfl := getOutgoingSequenceNumber_eq_none hget
    cases h
    exact ⟨hall, by simp⟩
  · rw [hget] at h
    obtain ⟨-, rfl, -⟩ := getOutgoingSequenceNumber_eq_some hget
    dsimp only at h
    split_ifs at h
    · obtain ⟨chan₂, hsend, h⟩ := bind_eq_ok.mp h
      cases h
      exact ⟨allPackets_sendAsPacketReliable hsend (hmade data seqnum) hall,
        by simpa using hmade data seqnum⟩
    · cases h
      refine ⟨⟨fun p hp => ?_, hall.2⟩, by simp⟩
      rcases List.mem_append.mp hp with hp | hp
      · exact hall.1 p hp
      · rw [List.mem_singleton.mp hp]
        exact hmade data seqnum

theorem allPackets_sendQueued {wire : List BufferedPacket} (h : chan.sendQueued = .ok (wire, chan'))
    (hall : chan.AllPackets P) : chan'.AllPackets P ∧ ∀ p ∈ wire, P p := by
  rw [sendQueued] at h
  split at h
  · cases h
    exact ⟨hall, by simp⟩
  · rename_i p queued hqueue
    rw [AllPackets, hqueue, List.forall_mem_cons] at hall
    split_ifs at h
    · obtain ⟨chan₂, hsend, h⟩ := bind_eq_ok.mp h
      cases h
      exact ⟨allPackets_sendAsPacketReliable hsend hall.1.1 ⟨hall.1.2, hall.2⟩,
        by simpa using hall.1.1⟩
    · cases h
      exact ⟨by rwa [AllPackets, hqueue, List.forall_mem_cons], by simp⟩

theorem allPackets_getResend (hstable : Stable P) (expired : BufferedPacket → Bool) (quota : ℕ)
    (hall : chan.AllPackets P) :
    let r := chan.outgoingReliablesSent.getResend expired quota
    ({ chan with outgoingReliablesSent := r.1 } : Channel).AllPackets P ∧ ∀ p ∈ r.2, P p := by
  intro r
  have hsent : ∀ p ∈ r.1, P p := by
    intro p hp
    obtain ⟨q, hq, n, rfl⟩ := mem_getResendFrom_old hp
    exact hstable q n (hall.2 q hq)
  exact ⟨⟨hall.1, hsent⟩, fun p hp => hsent p (mem_getResendFrom hp)⟩

theorem allPackets_resendTimedOuts (hstable : Stable P) (expired : BufferedPacket → Bool)
    (quota : ℕ) (halfOpen : Bool) (hall : chan.AllPackets P) :
    (chan.resendTimedOuts expired quota halfOpen).2.AllPackets P ∧
      ∀ p ∈ (chan.resendTimedOuts expired quota halfOpen).1, P p := by
  obtain ⟨hall', hwire⟩ := allPackets_getResend hstable expired quota hall
  refine ⟨hall', fun p hp => ?_⟩
  rw [resendTimedOuts] at hp
  dsimp only at hp
  split_ifs at hp
  · exact nomatch hp
  · exact hwire p hp

theorem allPackets_resendOne (hstable : Stable P) (hall : chan.AllPackets P) :
    chan.resendOne.2.AllPackets P ∧ ∀ p ∈ chan.resendOne.1, P p := by
  obtain ⟨hall', hwire⟩ := allPackets_getResend hstable (fun _ => true) 1 hall
  exact ⟨hall', fun p hp => hwire p (List.mem_of_mem_filter hp)⟩

end Channel

/-! ## The send thread -/

namespace SendThread

/-- What a step of the send thread may do: it keeps the ids and the commands left, and the
property of all that it keeps and sends. -/
structure Emits (P : BufferedPacket → Prop) (t : SendThread) (wire : List BufferedPacket)
    (t' : SendThread) : Prop where
  peerId : t'.conn.peerId = t.conn.peerId
  protocolId : t'.conn.protocolId = t.conn.protocolId
  commandQueue : t'.conn.commandQueue = t.conn.commandQueue
  packets : t.conn.AllChannels (Channel.AllPackets P) →
    t'.conn.AllChannels (Channel.AllPackets P) ∧ ∀ p ∈ wire, P p

def Makes (P : BufferedPacket → Prop) (t : SendThread) : Prop :=
  ∀ address data channelnum, P (makePacket address data t.conn.protocolId t.conn.peerId channelnum)

variable {P : BufferedPacket → Prop} {t t' t'' : SendThread} {wire wire' : List BufferedPacket}
  {c : ConnectionCommand} {peerId : SessionT} {ch : Fin CHANNEL_COUNT} {data : SharedBuffer}

theorem Emits.refl (t : SendThread) : t.Emits P [] t := ⟨rfl, rfl, rfl, fun h => ⟨h, by simp⟩⟩

theorem Emits.trans (h : t.Emits P wire t') (h' : t'.Emits P wire' t'') :
    t.Emits P (wire ++ wire') t'' where
  peerId := h'.peerId.trans h.peerId
  protocolId := h'.protocolId.trans h.protocolId
  commandQueue := h'.commandQueue.trans h.commandQueue
  packets hall := by
    obtain ⟨hall, hwire⟩ := h.packets hall
    obtain ⟨hall, hwire'⟩ := h'.packets hall
    refine ⟨hall, fun p hp => ?_⟩
    rcases List.mem_append.mp hp with hp | hp
    · exact hwire p hp
    · exact hwire' p hp

theorem Emits.makes (h : t.Emits P wire t') (hmade : t.Makes P) : t'.Makes P := by
  unfold Makes
  rw [h.peerId, h.protocolId]
  exact hmade

theorem emits_setChannel {chan : Channel} (h : t.conn.AllChannels (Channel.AllPackets P) →
    chan.AllPackets P ∧ ∀ p ∈ wire, P p) : t.Emits P wire (t.setChannel peerId ch chan) :=
  ⟨rfl, rfl, rfl, fun hall => ⟨Connection.allChannels_setChannel (h hall).1 hall, (h hall).2⟩⟩

theorem emits_onChannel
    {f : UDPPeer → Channel → Except ConException (List BufferedPacket × Channel)}
    (h : t.onChannel peerId ch f = .ok (wire, t'))
    (hf : ∀ peer chan wire chan', f peer chan = .ok (wire, chan') → chan.AllPackets P →
      chan'.AllPackets P ∧ ∀ p ∈ wire, P p) : t.Emits P wire t' := by
  unfold onChannel at h
  split at h
  · cases h
    exact .refl _
  · rename_i peer hpeer
    obtain ⟨⟨wire₁, chan⟩, hchan, h⟩ := bind_eq_ok.mp h
    cases h
    refine emits_setChannel fun hall => hf peer _ _ _ hchan ?_
    exact hall peer (Connection.mem_of_getPeerNoEx hpeer).1 ch

theorem withChannelnum_eq_ok {α : Type} {channelnum : UInt8}
    {f : Fin CHANNEL_COUNT → Except ConException α} {r : α}
    (h : withChannelnum channelnum f = .ok r) : ∃ ch, f ch = .ok r := by
  unfold withChannelnum at h
  split at h
  · exact ⟨_, h⟩
  · exact nomatch h

theorem emits_rawSendAsPacket {reliable sent : Bool}
    (h : t.rawSendAsPacket peerId ch data reliable = .ok (sent, wire, t')) (hmade : t.Makes P) :
    t.Emits P wire t' := by
  unfold rawSendAsPacket at h
  split at h
  · cases h
    exact .refl _
  · rename_i peer hpeer
    split_ifs at h
    · obtain ⟨⟨sent₁, wire₁, chan⟩, hchan, h⟩ := bind_eq_ok.mp h
      cases h
      refine emits_setChannel fun hall => ?_
      exact Channel.allPackets_rawSendAsPacket hchan (fun _ _ => hmade _ _ _)
        (hall peer (Connection.mem_of_getPeerNoEx hpeer).1 ch)
    · cases h
      exact ⟨rfl, rfl, rfl, fun hall => ⟨hall, by simpa using hmade _ _ _⟩⟩

theorem emits_putReliableSendCommand (h : t.putReliableSendCommand peerId c = .ok (wire, t'))
    (hmade : t.Makes P) : t.Emits P wire t' := by
  obtain ⟨ch, h⟩ := withChannelnum_eq_ok h
  refine emits_onChannel h fun peer chan wire chan' hput hall => ?_
  obtain ⟨chan₁, hput, h⟩ := bind_eq_ok.mp hput
  cases h
  exact ⟨(Channel.putReliableSendCommand_cases hput).allPackets (fun _ _ => hmade _ _ _) hall,
    by simp⟩

theorem emits_sendToAllReliable {peerIds : List SessionT}
    (h : sendToAllReliable c peerIds t = .ok (wire, t')) (hmade : t.Makes P) :
    t.Emits P wire t' := by
  induction peerIds generalizing t wire with
  | nil =>
    cases h
    exact .refl _
  | cons peerId peerIds ih =>
    obtain ⟨⟨wire₁, t₁⟩, hput, h⟩ := bind_eq_ok.mp h
    obtain ⟨⟨wire₂, t₂⟩, hrest, h⟩ := bind_eq_ok.mp h
    cases h
    have hemits := emits_putReliableSendCommand hput hmade
    exact hemits.trans (ih hrest (hemits.makes hmade))

theorem emits_of_conn (h : t'.conn = t.conn) : t.Emits P [] t' :=
  ⟨by rw [h], by rw [h], by rw [h], fun hall => ⟨h ▸ hall, by simp⟩⟩

theorem conn_foldl_sendAsPacket {α : Type} (items : List α) (f : α → SessionT × Fin CHANNEL_COUNT ×
    SharedBuffer) (t : SendThread) :
    (items.foldl (fun t item => t.sendAsPacket (f item).1 (f item).2.1 (f item).2.2 false) t).conn =
      t.conn := by
  induction items generalizing t with
  | nil => rfl
  | cons item items ih => exact ih _

theorem emits_send (h : t.send peerId ch data = .ok t') : t.Emits P [] t' := by
  unfold send at h
  split at h
  · cases h
    exact .refl _
  · rename_i peer hpeer
    dsimp only at h
    split at h
    · exact nomatch h
    · rename_i originals splitSeqnum _
      cases h
      have hset : t.Emits P [] (t.setChannel peerId ch
          { peer.channels ch with nextOutgoingSplitSeqnum := splitSeqnum }) :=
        emits_setChannel fun hall =>
          ⟨hall peer (Connection.mem_of_getPeerNoEx hpeer).1 ch, by simp⟩
      exact hset.trans (emits_of_conn
        (conn_foldl_sendAsPacket originals (fun original => (peerId, ch, original)) _))

theorem emits_sendToAll {peerIds : List SessionT} (h : sendToAll ch data peerIds t = .ok t') :
    t.Emits P [] t' := by
  induction peerIds generalizing t with
  | nil =>
    cases h
    exact .refl _
  | cons peerId peerIds ih =>
    obtain ⟨t₁, hsend, h⟩ := bind_eq_ok.mp h
    exact (emits_send hsend).trans (ih h)

theorem emits_disconnectPeer : t.Emits P [] (t.disconnectPeer peerId) where
  peerId := rfl
  protocolId := rfl
  commandQueue := rfl
  packets hall := by
    refine ⟨fun peer' hpeer' ch => ?_, by simp⟩
    obtain ⟨peer, hpeer, rfl⟩ := List.mem_map.mp hpeer'
    have hpeer := hall peer hpeer ch
    split_ifs <;> exact hpeer

theorem emits_processReliableCommand (hstable : Stable P) (hmade : t.Makes P)
    (h : t.processReliableCommand c = .ok (wire, t')) : t.Emits P wire t' := by
  unfold processReliableCommand at h
  split at h
  · cases h
    exact .refl _
  · exact emits_putReliableSendCommand h hmade
  · exact emits_sendToAllReliable h hmade
  · obtain ⟨ch, h⟩ := withChannelnum_eq_ok h
    obtain ⟨⟨sent, wire₁, t₁⟩, hraw, h⟩ := bind_eq_ok.mp h
    have hemits := emits_rawSendAsPacket hraw hmade
    dsimp only at h
    split_ifs at h
    · cases h
      exact hemits
    · obtain ⟨⟨wire₂, t₂⟩, hput, h⟩ := bind_eq_ok.mp h
      cases h
      exact hemits.trans (emits_putReliableSendCommand hput (hemits.makes hmade))
  · obtain ⟨ch, h⟩ := withChannelnum_eq_ok h
    refine emits_onChannel h fun peer chan wire chan' hresend hall => ?_
    cases hresend
    exact Channel.allPackets_resendOne hstable hall
  all_goals cases h
  all_goals exact .refl _

/-- The commands that change the peer id of the connection or of packets are not among these. -/
theorem emits_processNonReliableCommand (hmade : t.Makes P)
    (htype : c.type ∉ [.serve, .connect, .peerIdSet])
    (h : t.processNonReliableCommand c = .ok (wire, t')) : t.Emits P wire t' := by
  unfold processNonReliableCommand at h
  split at h <;> rename_i hc <;> rw [hc] at htype
  · cases h
    exact .refl _
  · simp at htype
  · simp at htype
  · cases h
    exact emits_of_conn (conn_foldl_sendAsPacket _ (fun peerId => (peerId, 0, discoPacket)) _)
  · cases h
    exact emits_disconnectPeer
  · simp at htype
  · obtain ⟨ch, h⟩ := withChannelnum_eq_ok h
    obtain ⟨t₁, hsend, h⟩ := bind_eq_ok.mp h
    cases h
    exact emits_send hsend
  · obtain ⟨ch, h⟩ := withChannelnum_eq_ok h
    obtain ⟨t₁, hsend, h⟩ := bind_eq_ok.mp h
    cases h
    exact emits_sendToAll hsend
  · obtain ⟨ch, h⟩ := withChannelnum_eq_ok h
    cases h
    exact emits_of_conn rfl
  · obtain ⟨ch, h⟩ := withChannelnum_eq_ok h
    obtain ⟨⟨sent, wire₁, t₁⟩, hraw, h⟩ := bind_eq_ok.mp h
    have hemits := emits_rawSendAsPacket hraw hmade
    dsimp only at h
    split_ifs at h
    · cases h
      exact hemits
    · obtain ⟨t₂, hsend, h⟩ := bind_eq_ok.mp h
      cases h
      rw [← List.append_nil wire]
      exact hemits.trans (emits_send hsend)
  · cases h
    exact .refl _

theorem emits_resendTimedOuts (hstable : Stable P) {expired : BufferedPacket → Bool} {quota : ℕ}
    (h : t.resendTimedOuts peerId ch expired quota = .ok (wire, t')) : t.Emits P wire t' := by
  refine emits_onChannel h fun peer chan wire chan' hresend hall => ?_
  cases hresend
  exact Channel.allPackets_resendTimedOuts hstable expired quota peer.halfOpen hall

theorem emits_updateTimers {size : ℤ} (h : t.updateTimers peerId ch size = .ok (wire, t')) :
    t.Emits P wire t' := by
  refine emits_onChannel h fun peer chan wire chan' htimers hall => ?_
  cases htimers
  split_ifs <;> exact ⟨hall, by simp⟩

theorem emits_runCommandQueue {maxtransfer : ℕ} (hmade : t.Makes P)
    (h : t.runCommandQueue peerId ch maxtransfer = .ok (wire, t')) : t.Emits P wire t' := by
  refine emits_onChannel h fun peer chan wire chan' hqueue hall => ?_
  obtain ⟨chan₁, hqueue, h⟩ := bind_eq_ok.mp hqueue
  cases h
  exact ⟨(Channel.runCommandQueue_cases hqueue).allPackets (fun _ _ => hmade _ _ _) hall, by simp⟩

theorem emits_sendQueued (h : t.sendQueued peerId ch = .ok (wire, t')) : t.Emits P wire t' :=
  emits_onChannel h fun _ _ _ _ => Channel.allPackets_sendQueued

theorem emits_ping (hmade : t.Makes P) (h : t.ping peerId = .ok (wire, t')) :
    t.Emits P wire t' := by
  unfold ping at h
  split at h
  · cases h
    exact .refl _
  · split_ifs at h
    · cases h
      exact .refl _
    · obtain ⟨⟨sent, wire₁, t₁⟩, hraw, h⟩ := bind_eq_ok.mp h
      cases h
      exact emits_rawSendAsPacket hraw hmade

theorem emits_sendOutgoing {remaining : Bool} (hmade : t.Makes P)
    (h : t.sendOutgoing remaining = .ok (wire, t')) : t.Emits P wire t' := by
  unfold sendOutgoing at h
  split at h
  · cases h
    exact .refl _
  · rename_i packet queue _
    dsimp only at h
    split_ifs at h
    · cases h
      exact emits_of_conn rfl
    · cases h
      exact emits_of_conn rfl
    · obtain ⟨⟨sent, wire₁, t₁⟩, hraw, h⟩ := bind_eq_ok.mp h
      cases h
      have hfirst : t.Emits P [] { t with outgoingQueue := queue } := emits_of_conn rfl
      exact hfirst.trans (emits_rawSendAsPacket hraw hmade)
    · cases h
      exact emits_of_conn rfl

theorem emits_deletePeer (timeout : Bool) : t.Emits P [] (t.deletePeer peerId timeout) := by
  unfold deletePeer Connection.deletePeer
  split
  · exact .refl _
  · refine ⟨rfl, rfl, rfl, fun hall => ⟨fun peer hpeer ch => ?_, by simp⟩⟩
    exact hall peer (List.mem_of_mem_filter hpeer) ch

end SendThread

/-! ## The receive thread -/

/-- What the receive thread does to a connection, one thing at a time. -/
inductive Receives : Connection → Connection → Prop
  | channel {conn : Connection} {peer : UDPPeer} {chan : Channel} (peerId : SessionT)
      (ch : Fin CHANNEL_COUNT) (hpeer : peer ∈ conn.peers)
      (hqueued : chan.queuedReliables = (peer.channels ch).queuedReliables)
      (hsent : ∀ p ∈ chan.outgoingReliablesSent, p ∈ (peer.channels ch).outgoingReliablesSent) :
      Receives conn (conn.setChannel peerId ch chan)
  | event (conn : Connection) (e : ConnectionEvent) : Receives conn (conn.putEvent e)
  | command (conn : Connection) (c : ConnectionCommand)
      (hc : c.type ∈ [.ack, .disconnectPeer, .resendOne, .createPeer]) :
      Receives conn (conn.putCommand c)
  | setPeerId {conn : Connection} (id : SessionT) (hid : conn.peerId = PEER_ID_INEXISTENT) :
      Receives conn (conn.setPeerId id)
  | deletePeer (conn : Connection) (peerId : SessionT) (timeout : Bool) :
      Receives conn (conn.deletePeer peerId timeout)
  | addPeer (conn : Connection) (id : SessionT) (address : Address) :
      Receives conn { conn with peers := conn.peers ++ [{ id, address }] }
  | fullyOpen (conn : Connection) (peerId : SessionT) :
      Receives conn (conn.updatePeer peerId fun peer => { peer with halfOpen := false })

def SameOutgoing (chan chan' : Channel) : Prop :=
  chan'.queuedReliables = chan.queuedReliables ∧
    chan'.outgoingReliablesSent = chan.outgoingReliablesSent

theorem sameOutgoing_receiveReliable (env : ReceiveEnv) (packetdata : SharedBuffer)
    (chan : Channel) : SameOutgoing chan (chan.receiveReliable env packetdata).chan := by
  unfold Channel.receiveReliable
  dsimp only
  split_ifs
  any_goals exact ⟨rfl, rfl⟩
  split <;> exact ⟨rfl, rfl⟩

theorem sameOutgoing_popDeliverable {chan chan' : Channel} {p : BufferedPacket}
    (h : chan.popDeliverable = some (p, chan')) : SameOutgoing chan chan' := by
  obtain ⟨incoming, -, -, rfl⟩ := Channel.popDeliverable_eq_some h
  exact ⟨rfl, rfl⟩

namespace Connection

open Relation (ReflTransGen)

variable {conn : Connection} {peerId : SessionT} {peer : UDPPeer} {ch : Fin CHANNEL_COUNT}

theorem receives_identify (d : Datagram) : ReflTransGen Receives conn (conn.identify d).2 := by
  unfold identify
  dsimp only
  split_ifs
  · exact .refl
  · exact .refl
  · exact .single (.command _ _ (by simp))
  · exact .refl
  · unfold createPeer
    split_ifs
    · exact .refl
    · exact .tail (.tail (.single (.addPeer _ _ _)) (.command _ _ (by simp))) (.event _ _)

theorem receives_handlePacketTypeControl {packetdata : SharedBuffer} (hpeer : peer ∈ conn.peers) :
    ReflTransGen Receives conn (conn.handlePacketTypeControl peer ch packetdata).2 := by
  unfold handlePacketTypeControl
  dsimp only
  split_ifs with hlen hack hlen hset hlen hid
  any_goals exact .refl
  · refine .single (.channel _ _ hpeer ?_ ?_) <;> rw [Channel.ackReceived_outgoing]
    exact fun p => List.mem_of_mem_eraseP
  · exact .single (.setPeerId _ (not_not.mp hid))
  · exact .single (.deletePeer _ _ _)

theorem receives_handlePacketTypeOriginal {packetdata : SharedBuffer} :
    ReflTransGen Receives conn (conn.handlePacketTypeOriginal packetdata).2 := by
  unfold handlePacketTypeOriginal
  split_ifs <;> exact .refl

theorem receives_handlePacketTypeSplit {packetdata : SharedBuffer} {reliable : Bool}
    (hpeer : peer ∈ conn.peers) :
    ReflTransGen Receives conn (conn.handlePacketTypeSplit peer ch packetdata reliable).2 := by
  unfold handlePacketTypeSplit
  dsimp only
  split
  · exact .refl
  · split_ifs <;> exact .single (.channel _ _ hpeer rfl fun _ => id)

theorem receives_processPacketWith {packetdata : SharedBuffer} {reliable : Bool}
    {handler : UDPPeer → Except ConException SharedBuffer × Connection}
    (h : ∀ peer ∈ conn.peers, ReflTransGen Receives conn (handler peer).2) :
    ReflTransGen Receives conn
      (conn.processPacketWith peerId ch packetdata reliable handler).2 := by
  unfold processPacketWith
  split
  · exact .refl
  · rename_i peer hpeer
    obtain ⟨hmem, -⟩ := mem_of_getPeerNoEx hpeer
    dsimp only
    split_ifs
    · exact .refl
    · exact .refl
    · exact receives_handlePacketTypeControl hmem
    · exact receives_handlePacketTypeOriginal
    · exact receives_handlePacketTypeSplit hmem
    · exact h peer hmem
    · exact .refl

theorem receives_processNested (payload : SharedBuffer) :
    ReflTransGen Receives conn (conn.processNested peerId ch payload).2 :=
  receives_processPacketWith fun _ _ => .refl

theorem receives_setChannel {chan : Channel} (hpeer : peer ∈ conn.peers)
    (h : SameOutgoing (peer.channels ch) chan) : Receives conn (conn.setChannel peerId ch chan) :=
  .channel _ _ hpeer h.1 fun _ hp => h.2 ▸ hp

theorem receives_handlePacketTypeReliable {packetdata : SharedBuffer} (hpeer : peer ∈ conn.peers) :
    ReflTransGen Receives conn (conn.handlePacketTypeReliable peer ch packetdata).2 := by
  unfold handlePacketTypeReliable
  dsimp only
  generalize hr : (peer.channels ch).receiveReliable (conn.receiveEnv peer ch) packetdata = r
  have hset : ReflTransGen Receives conn (conn.setChannel peer.id ch r.chan) :=
    .single (receives_setChannel hpeer (hr ▸ sameOutgoing_receiveReliable _ _ _))
  have hack : ∀ conn' seqnum, ReflTransGen Receives conn' (if r.ack = true then
      conn'.sendAck peer.id ch.val.toUInt8 seqnum else conn') := by
    intro conn' seqnum
    split_ifs
    · exact .single (.command _ _ (by simp))
    · exact .refl
  have hcorrupted : ∀ conn', ReflTransGen Receives conn' (if r.corrupted = true then
      conn'.disconnectPeer peer.id else conn') := by
    intro conn'
    split_ifs
    · exact .single (.command _ _ (by simp))
    · exact .refl
  have hall := (hset.trans (hack _ (readU16 (packetdata.drop 1)))).trans (hcorrupted _)
  split
  · exact hall
  · exact hall.trans (receives_processNested _)

theorem receives_conclude (id : SessionT) (result : Except ConException SharedBuffer × Connection) :
    ReflTransGen Receives result.2 (conclude id result).2 := by
  rcases result with ⟨e | data, conn⟩
  · cases e <;> exact .refl
  · exact .single (.event _ _)

theorem receives_handleDatagram (d : Datagram) :
    ReflTransGen Receives conn (conn.handleDatagram d).2 := by
  have hidentify : ReflTransGen Receives conn (conn.identify d).2 := receives_identify d
  unfold handleDatagram
  split
  · exact .refl
  split
  swap
  · exact .refl
  dsimp only
  split
  · exact hidentify
  split
  · exact hidentify
  split
  · exact hidentify
  have hopen : ∀ conn' id, ReflTransGen Receives conn'
      (if readU16 (d.data.drop 4) ≠ PEER_ID_INEXISTENT then
        conn'.updatePeer id fun peer => { peer with halfOpen := false } else conn') := by
    intro conn' id
    split_ifs
    · exact .single (.fullyOpen _ _)
    · exact .refl
  have hopened := hidentify.trans (hopen (conn.identify d).2 (conn.identify d).1)
  refine (hopened.trans ?_).trans (receives_conclude _ _)
  exact receives_processPacketWith fun peer hpeer => receives_handlePacketTypeReliable hpeer

theorem receives_getFromBuffers : ReflTransGen Receives conn conn.getFromBuffers.2 := by
  unfold getFromBuffers
  split
  · exact .refl
  · rename_i peer ch hsome
    obtain ⟨hpeer, -⟩ := findDeliverable_eq_some hsome
    split
    · exact .refl
    · rename_i p chan hpop
      exact .head (receives_setChannel hpeer (sameOutgoing_popDeliverable hpop))
        (receives_processNested _)

end Connection

end Freeminer.Mtp
