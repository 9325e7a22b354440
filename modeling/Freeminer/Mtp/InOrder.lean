import Freeminer.Mtp.ReceiverSteps

/-! The numbers that the receiver processes. As long as no datagram conflicts with a buffered
packet, every channel processes its reliable packets under the expected numbers, one after the
other. A conflicting one is processed ahead of the others, and moves the expected number. -/

namespace Freeminer.Mtp

open Lib

/-- The packets processed had the numbers 65500, ..., each was the expected one then, and the
number now expected is the one after them. -/
structure Channel.InOrder (chan : Channel) : Prop where
  seqnum : chan.handled.map (·.seqnum) = (List.range chan.handled.length).map seqnumOf
  expected : chan.handled.map (·.expected) = (List.range chan.handled.length).map seqnumOf
  next : chan.nextIncomingSeqnum = seqnumOf chan.handled.length

namespace Channel

variable {chan chan' : Channel} {p : BufferedPacket} {packetdata : SharedBuffer}
  {env : ReceiveEnv}

theorem InOrder.init : InOrder {} := ⟨rfl, rfl, rfl⟩

theorem InOrder.same (hs : SameIncoming chan chan') (h : chan.InOrder) : chan'.InOrder where
  seqnum := by rw [hs.handled, h.seqnum]
  expected := by rw [hs.handled, h.expected]
  next := by rw [hs.handled, hs.nextIncomingSeqnum, h.next]

/-- Processing the expected packet keeps the order. -/
theorem InOrder.handle (h : chan.InOrder) (payload : SharedBuffer) :
    (chan.handle chan.nextIncomingSeqnum payload).InOrder := by
  have hlen : (chan.handle chan.nextIncomingSeqnum payload).handled.length =
      chan.handled.length + 1 := List.length_append
  refine ⟨?_, ?_, ?_⟩
  · rw [hlen, List.range_succ, List.map_append, ← h.seqnum]
    simp [Channel.handle, h.next]
  · rw [hlen, List.range_succ, List.map_append, ← h.expected]
    simp [Channel.handle, h.next]
  · rw [hlen, ← seqnumOf_succ, ← h.next]
    rfl

theorem InOrder.incoming (h : chan.InOrder) (incoming : ReliablePacketBuffer) :
    { chan with incomingReliables := incoming }.InOrder :=
  ⟨h.seqnum, h.expected, h.next⟩

theorem InOrder.pop (hp : chan.popDeliverable = some (p, chan')) (h : chan.InOrder) :
    chan'.InOrder := by
  obtain ⟨incoming, -, hseq, rfl⟩ := popDeliverable_eq_some hp
  rw [hseq]
  exact (h.incoming incoming).handle _

/-- A reliable packet is processed only if it is the expected one, unless it conflicts. -/
theorem InOrder.receive (hconf : ¬chan.Conflicts env packetdata) (h : chan.InOrder) :
    (chan.receiveReliable env packetdata).chan.InOrder := by
  rcases receiveReliable_cases env packetdata chan with
    ⟨heq, -⟩ | ⟨incoming, -, -, heq, -⟩ | ⟨-, hnow, heq, -⟩
  · rwa [heq]
  · rw [heq]
    exact h.incoming incoming
  · rw [heq, processNow_eq, hnow.resolve_right hconf]
    exact (h.incoming _).handle _

end Channel

/-- The datagram carries a reliable packet that is not the expected one, and one of another size
is buffered under its number. -/
def Connection.Conflicting (conn : Connection) (d : Connection.Datagram) : Prop :=
  ∃ peer ch, conn.Reaches d peer ch ∧
    (peer.channels ch).Conflicts (conn.receiveEnv peer ch) (d.data.drop BASE_HEADER_SIZE)

namespace ReceiveState

def NotConflicting (s : ReceiveState) (op : ReceiveOp) : Prop :=
  ∀ d, op = .datagram d → ¬s.conn.Conflicting d

/-- In every run without conflicting datagrams every channel processes in order. -/
theorem inOrder_of_run {s : ReceiveState} (h : receiveLts.Run NotConflicting s) :
    s.conn.AllChannels Channel.InOrder := by
  refine Lts.Run.invariant (I := fun s => s.conn.AllChannels Channel.InOrder) ?_ ?_ h
  · rintro s rfl peer hpeer
    simp at hpeer
  · intro s op s' hall hok hs
    refine ReceiveStep.allChannels hs (fun _ _ => .same) .init (fun _ _ _ => .pop) ?_ hall
    intro d peer ch hop hreaches
    exact .receive fun hconf => hok d hop ⟨peer, ch, hreaches, hconf⟩

/-! ## A packet processed ahead of the others -/

/-- A client that is not known yet if `peerId` is 0, and is drawn the id 2 then. -/
def reliableDatagram (peerId : SessionT) (seqnum : UInt16) (payload : SharedBuffer) :
    Connection.Datagram where
  sender := ⟨[127, 0, 0, 1], 40000⟩
  data := (makePacket ⟨[127, 0, 0, 1], 40000⟩ (makeReliablePacket payload seqnum) 0x4f457403
    peerId 0).data
  drawn := 2

def firstDatagram : Connection.Datagram := reliableDatagram PEER_ID_INEXISTENT 65500 [1, 0, 42]

def handledFirst (conn : Connection) : List (List Handled) :=
  conn.peers.map fun peer => (peer.channels 0).handled

theorem exists_handled {conn : Connection} {l : List Handled} (h : handledFirst conn = [l]) :
    ∃ peer ∈ conn.peers, (peer.channels 0).handled = l :=
  List.mem_map.mp (h ▸ List.mem_singleton_self l : l ∈ handledFirst conn)

/-- The first packet of a new client is processed. -/
theorem inOrder_of_run_first : ∃ s : ReceiveState,
    (∃ peer ∈ s.conn.peers, (peer.channels 0).handled = [⟨65500, 65500, [1, 0, 42]⟩]) ∧
    s.conn.AllChannels Channel.InOrder := by
  have hok : NotConflicting ⟨{}, false⟩ (.datagram firstDatagram) := by
    rintro d hd ⟨peer, ch, hreaches, -, -, q, hq, -⟩
    obtain rfl := ReceiveOp.datagram.inj hd
    have hpeer : (Connection.identify {} firstDatagram).2.getPeerNoEx
        (Connection.identify {} firstDatagram).1 = some { id := 2, address := firstDatagram.sender } :=
      rfl
    obtain rfl := Option.some.inj (hpeer.symm.trans hreaches.peer_eq)
    simp at hq
  have hpass : NotConflicting {} .buffers := fun d hd => by cases hd
  have hrun : receiveLts.Run NotConflicting
      ⟨(Connection.handleDatagram {} firstDatagram).2, true⟩ :=
    .step (.step (.init rfl) hpass (.passEnds rfl)) hok
      (.of_datagram {} firstDatagram)
  exact ⟨_, exists_handled rfl, inOrder_of_run hrun⟩

/-- A packet that is ahead, and then another one under its number. -/
def aheadDatagram : Connection.Datagram := reliableDatagram PEER_ID_INEXISTENT 65501 [1, 0, 42]

def conflictingDatagram : Connection.Datagram := reliableDatagram 2 65501 [1, 0, 0, 42]

def afterAhead : Connection := (Connection.handleDatagram {} aheadDatagram).2

/-- The second one is processed although 65500 is expected. -/
theorem not_inOrder : ¬∀ s, receiveLts.Reach s → s.conn.AllChannels Channel.InOrder := by
  intro h
  have h1 : receiveLts.Reach ⟨afterAhead, true⟩ :=
    .step (.step (.init rfl) trivial (.passEnds rfl)) trivial
      (.of_datagram {} aheadDatagram)
  have h2 : receiveLts.Reach ⟨(afterAhead.handleDatagram conflictingDatagram).2, true⟩ :=
    .step (.step h1 trivial (.passEnds rfl)) trivial
      (.of_datagram afterAhead conflictingDatagram)
  obtain ⟨peer, hpeer, hhandled⟩ := exists_handled
    (show handledFirst (afterAhead.handleDatagram conflictingDatagram).2 =
      [[⟨65501, 65500, [1, 0, 0, 42]⟩]] by rfl)
  have hseq := (h _ h2 peer hpeer 0).seqnum
  rw [hhandled] at hseq
  exact absurd hseq (by decide)

end ReceiveState

/-! Packets left waiting. `packet_queued` is set behind the handlers, so a datagram that throws
out of `receive` does not set it, although the expected number may have gone up before. As long
as no such packet has its successor in the buffer, nothing deliverable is left without a pass
over the buffers to come. -/

namespace Channel

variable {chan chan' : Channel} {packetdata : SharedBuffer} {env : ReceiveEnv}

/-- The packet after the expected one is the first to wait, but for a copy of `seqnum`. -/
def SuccessorWaits (seqnum : UInt16) (chan : Channel) : Prop :=
  let incoming :=
    if chan.incomingReliables.getFirstSeqnum = some seqnum then chan.incomingReliables.tail
    else chan.incomingReliables
  ReliablePacketBuffer.getFirstSeqnum incoming = some (chan.nextIncomingSeqnum + 1)

/-- The packet is processed, its payload is thrown away as invalid, and its successor waits. -/
structure Strands (env : ReceiveEnv) (packetdata : SharedBuffer) (chan : Channel) : Prop where
  size : RELIABLE_HEADER_SIZE ≤ packetdata.length
  processed : readU16 (packetdata.drop 1) = chan.nextIncomingSeqnum ∨
    chan.Conflicts env packetdata
  malformed : Malformed (packetdata.drop RELIABLE_HEADER_SIZE)
  waits : chan.SuccessorWaits (readU16 (packetdata.drop 1))

theorem not_deliverable_init : ¬({} : Channel).Deliverable := nofun

theorem not_deliverable_same (hs : SameIncoming chan chan') (h : ¬chan.Deliverable) :
    ¬chan'.Deliverable := by
  rwa [Deliverable, hs.incomingReliables, hs.nextIncomingSeqnum]

theorem deliverable_processNow (seqnum : UInt16) :
    (chan.processNow seqnum packetdata).Deliverable ↔ chan.SuccessorWaits seqnum := by
  rw [processNow_eq]
  rfl

/-- Nothing deliverable appears, unless the flag is set or the packet strands another. -/
theorem receiveReliable_not_deliverable (h : ¬chan.Deliverable)
    (hstrands : ¬chan.Strands env packetdata)
    (hqueued : (chan.receiveReliable env packetdata).packetQueued ≠ some true) :
    ¬(chan.receiveReliable env packetdata).chan.Deliverable := by
  rw [Received.packetQueued] at hqueued
  rcases receiveReliable_cases env packetdata chan with
    ⟨heq, -⟩ | ⟨incoming, -, -, -, hpayload⟩ | ⟨hsize, hnow, heq, hpayload⟩
  · rwa [heq]
  · rw [hpayload] at hqueued
    exact absurd rfl hqueued
  · rw [hpayload] at hqueued
    have hmalformed : Malformed (packetdata.drop RELIABLE_HEADER_SIZE) := by
      by_contra hne
      exact hqueued (if_neg hne)
    rw [heq, deliverable_processNow]
    exact fun hwaits => hstrands ⟨hsize, hnow, hmalformed, hwaits⟩

end Channel

/-- The datagram carries a reliable packet whose payload is invalid and whose successor waits. -/
def Connection.Stranding (conn : Connection) (d : Connection.Datagram) : Prop :=
  ∃ peer ch, conn.Reaches d peer ch ∧
    (peer.channels ch).Strands (conn.receiveEnv peer ch) (d.data.drop BASE_HEADER_SIZE)

namespace ReceiveState

/-- A pass over the buffers is scheduled, or there is nothing to process in them. -/
def NoneStranded (s : ReceiveState) : Prop :=
  s.packetQueued = true ∨ s.conn.AllChannels fun chan => ¬chan.Deliverable

def NotStranding (s : ReceiveState) (op : ReceiveOp) : Prop :=
  ∀ d, op = .datagram d → ¬s.conn.Stranding d

theorem noneStranded_step {s s' : ReceiveState} {op : ReceiveOp} (h : s.NoneStranded)
    (hok : s.NotStranding op) (hs : ReceiveStep s op s') : s'.NoneStranded := by
  have hsame : ∀ c c' : Channel, SameIncoming c c' → ¬c.Deliverable → ¬c'.Deliverable :=
    fun _ _ => Channel.not_deliverable_same
  cases hs with
  | processed | thrown => exact .inl rfl
  | passEnds hget =>
    rcases Connection.getFromBuffers_cases hget with ⟨-, rfl, hnone⟩ | ⟨hne, -⟩
    · exact .inr hnone
    · exact absurd rfl hne
  | other hk => exact h.imp_right (hk.allChannels hsame Channel.not_deliverable_init)
  | @datagram conn conn' d queued hd =>
    have hnone := h.resolve_left Bool.false_ne_true
    have hfst : (conn.handleDatagram d).1 = queued := by rw [hd]
    have hsnd : (conn.handleDatagram d).2 = conn' := by rw [hd]
    subst hfst hsnd
    by_cases hreaches : ∃ peer ch, conn.Reaches d peer ch
    · obtain ⟨peer, ch, hreaches⟩ := hreaches
      obtain ⟨conn₁, hk₁, ⟨peer₁, hpeer₁, -, hchannels⟩, hk₂, hqueued, -⟩ :=
        Connection.handleDatagram_of_reaches hreaches
      rw [hqueued]
      by_cases hflag : (conn.received d peer ch).packetQueued = some true
      · exact .inl (by rw [hflag]; rfl)
      right
      have hnone₁ := hk₁.allChannels hsame Channel.not_deliverable_init hnone
      refine hk₂.allChannels hsame Channel.not_deliverable_init
        (Connection.allChannels_setChannel ?_ hnone₁)
      refine Channel.receiveReliable_not_deliverable (hchannels ▸ hnone₁ peer₁ hpeer₁ ch) ?_ hflag
      exact fun hstrands => hok d rfl ⟨peer, ch, hreaches, hstrands⟩
    · simp only [not_exists] at hreaches
      exact .inr ((Connection.keeps_handleDatagram hreaches).allChannels hsame
        Channel.not_deliverable_init hnone)

/-- In every run without stranding datagrams no deliverable packet waits for a later datagram. -/
theorem noneStranded_of_run {s : ReceiveState} (h : receiveLts.Run NotStranding s) :
    s.NoneStranded := by
  refine Lts.Run.invariant (I := NoneStranded) ?_ ?_ h
  · rintro s rfl
    exact .inl rfl
  · exact fun s op s' hI hok hs => noneStranded_step hI hok hs

/-- The numbers that wait in the first channel of each peer, and the number expected there. -/
def waitingFirst (conn : Connection) : List (List UInt16 × UInt16) :=
  conn.peers.map fun peer => ((peer.channels 0).incomingReliables.map (·.getSeqnum),
    (peer.channels 0).nextIncomingSeqnum)

theorem exists_waiting {conn : Connection} {seqnums : List UInt16} {next : UInt16}
    (h : waitingFirst conn = [(seqnums, next)]) : ∃ peer ∈ conn.peers,
      (peer.channels 0).incomingReliables.map (·.getSeqnum) = seqnums ∧
      (peer.channels 0).nextIncomingSeqnum = next := by
  obtain ⟨peer, hpeer, heq⟩ := List.mem_map.mp
    (h ▸ List.mem_singleton_self _ : (seqnums, next) ∈ waitingFirst conn)
  obtain ⟨h1, h2⟩ := Prod.mk.inj heq
  exact ⟨peer, hpeer, h1, h2⟩

/-- A packet that is ahead waits in its channel, and is not deliverable. -/
theorem noneStranded_of_run_ahead : ∃ s : ReceiveState, s.packetQueued = false ∧
    waitingFirst s.conn = [([65501], 65500)] ∧ s.NoneStranded := by
  have hok : NotStranding ⟨{}, false⟩ (.datagram aheadDatagram) := by
    rintro d hd ⟨peer, ch, hreaches, -, -, -, hwaits⟩
    obtain rfl := ReceiveOp.datagram.inj hd
    have hpeer : (Connection.identify {} aheadDatagram).2.getPeerNoEx
        (Connection.identify {} aheadDatagram).1 = some { id := 2, address := aheadDatagram.sender } :=
      rfl
    obtain rfl := Option.some.inj (hpeer.symm.trans hreaches.peer_eq)
    exact nomatch hwaits
  have hpass : ∀ s : ReceiveState, NotStranding s .buffers := fun s d hd => by cases hd
  have hrun : receiveLts.Run NotStranding ⟨afterAhead, false⟩ :=
    .step (.step (.step (.init rfl) (hpass _) (.passEnds rfl)) hok
      (.of_datagram {} aheadDatagram)) (hpass ⟨afterAhead, true⟩) (.passEnds rfl)
  exact ⟨_, rfl, rfl, noneStranded_of_run hrun⟩

/-! ## A packet that is stranded -/

def malformedDatagram : Connection.Datagram := reliableDatagram 2 65500 []

/-- The packet ahead is now deliverable, and no pass over the buffers is scheduled. -/
theorem not_noneStranded : ¬∀ s, receiveLts.Reach s → s.NoneStranded := by
  intro h
  have h1 : receiveLts.Reach ⟨afterAhead, true⟩ :=
    .step (.step (.init rfl) trivial (.passEnds rfl)) trivial
      (.of_datagram {} aheadDatagram)
  have h2 : receiveLts.Reach ⟨(afterAhead.handleDatagram malformedDatagram).2, false⟩ :=
    .step (.step h1 trivial (.passEnds rfl)) trivial
      (.of_datagram afterAhead malformedDatagram)
  obtain ⟨peer, hpeer, hseqnums, hnext⟩ := exists_waiting
    (show waitingFirst (afterAhead.handleDatagram malformedDatagram).2 = [([65501], 65501)] by rfl)
  refine (h _ h2).resolve_left Bool.false_ne_true peer hpeer 0 ?_
  rw [Channel.Deliverable, ReliablePacketBuffer.getFirstSeqnum, ← List.head?_map, hseqnums, hnext]
  rfl

end ReceiveState

end Freeminer.Mtp
