import Freeminer.Mtp.Link

/-! A run in which a packet is lost and another one is processed in its place. A short payload
and one of 32767 chunks are queued behind each other while nothing is unacked, so that the first
is half a turn behind when it is sent, and is not kept. The receiver waits for it, acks the
packets of the next half turn as early and those of the half turn after it as old, and then
takes the packet that has its number again. -/

namespace Freeminer.Mtp

open Lib Channel

namespace Link

def clientPacket (data : SharedBuffer) (n : ℕ) : BufferedPacket :=
  makeReliable Sender.smallPackets data (seqnumOf n)

/-! ## The receiver -/

/-- `R` packets were processed, and some of the `B` after the expected one wait. -/
structure Waiting (R B : ℕ) (chan : Channel) : Prop where
  handled : chan.handled.length = R
  expected : chan.nextIncomingSeqnum = seqnumOf R
  waiting : ∀ q ∈ chan.incomingReliables, ∃ k, 0 < k ∧ k ≤ B ∧ q.getSeqnum = seqnumOf (R + k)
  length : chan.incomingReliables.length ≤ B

section Receiver

variable {R B : ℕ} {chan : Channel} {data : SharedBuffer} {n : ℕ}

theorem Waiting.getSeqnum_ne (h : Waiting R B chan) (hB : B < 0x8000) :
    ∀ q ∈ chan.incomingReliables, q.getSeqnum ≠ chan.nextIncomingSeqnum := by
  intro q hq heq
  obtain ⟨k, hk, hkB, hseq⟩ := h.waiting q hq
  have := seqnumOf_inj (hseq.symm.trans (heq.trans h.expected)) (by omega) (by omega)
  omega

theorem Waiting.not_deliverable (h : Waiting R B chan) (hB : B < 0x8000) : ¬chan.Deliverable := by
  rw [deliverable_iff]
  rintro ⟨q, incoming, hin, hseq⟩
  exact h.getSeqnum_ne hB q (hin ▸ List.mem_cons_self) hseq

theorem drop_clientPacket (data : SharedBuffer) (n : ℕ) :
    (clientPacket data n).data.drop BASE_HEADER_SIZE = makeReliablePacket data (seqnumOf n) :=
  drop_makePacket _ _ _ _ _

theorem header_le_clientPacket (data : SharedBuffer) (n : ℕ) :
    RELIABLE_HEADER_SIZE ≤ (makeReliablePacket data (seqnumOf n)).length := by
  rw [length_makeReliablePacket]
  omega

theorem readU16_clientPacket (data : SharedBuffer) (n : ℕ) :
    readU16 ((makeReliablePacket data (seqnumOf n)).drop 1) = seqnumOf n :=
  readU16_writeU16 _ data

/-- What `receiveReliable` makes of a packet of the client. -/
abbrev receives (chan : Channel) (data : SharedBuffer) (n : ℕ) : Received :=
  chan.receiveReliable serverSide (makeReliablePacket data (seqnumOf n))

/-- The expected packet, or one that shows the same number. -/
theorem Waiting.receives_expected (h : Waiting R B chan) (hB : B < 0x8000)
    (hn : seqnumOf n = seqnumOf R) : receives chan data n =
      { chan := chan.handle chan.nextIncomingSeqnum data, ack := true, payload := .ok data } := by
  have hne : chan.incomingReliables.getFirstSeqnum ≠ some chan.nextIncomingSeqnum :=
    h.not_deliverable hB
  rw [receives, receiveReliable_of_expected (header_le_clientPacket data n)
    (by rw [readU16_clientPacket, hn, h.expected]), processNow_eq, if_neg hne]
  rfl

/-- Processing the expected packet while none waits. -/
theorem Waiting.handle (h : Waiting R 0 chan) (data : SharedBuffer) :
    Waiting (R + 1) 0 (chan.handle chan.nextIncomingSeqnum data) := by
  have hempty : chan.incomingReliables = [] :=
    List.length_eq_zero_iff.mp (Nat.le_zero.mp h.length)
  refine ⟨?_, ?_, fun q hq => ?_, h.length⟩
  · rw [← h.handled]
    exact List.length_append
  · rw [← seqnumOf_succ, ← h.expected]
    rfl
  · have hq : q ∈ chan.incomingReliables := hq
    rw [hempty] at hq
    exact nomatch hq

theorem Waiting.receives_ahead (h : Waiting R B chan) (hB : B + 1 < 0x8000)
    (data : SharedBuffer) :
    ∃ chan', Waiting R (B + 1) chan' ∧ receives chan data (R + (B + 1)) =
      { chan := chan', ack := true, payload := .error .processedQueued } := by
  obtain ⟨packet, hpacket⟩ : ∃ packet, packet = makePacket serverSide.address
    (makeReliablePacket data (seqnumOf (R + (B + 1)))) serverSide.protocolId serverSide.peerId
    serverSide.channelnum := ⟨_, rfl⟩
  have hseq : packet.getSeqnum = seqnumOf (R + (B + 1)) := by
    rw [hpacket]
    exact getSeqnum_makePacket _ _ _ _ _ _
  have hreliable : packet.IsReliable := hpacket ▸ isReliable_makePacket _ _ _ _ _ _
  have hdist : serialDist (seqnumOf (R + (B + 1))) chan.nextIncomingSeqnum = B + 1 := by
    rw [h.expected, serialDist_seqnumOf (by omega) (by omega)]
    omega
  have hnew : ∀ q ∈ chan.incomingReliables, q.getSeqnum ≠ packet.getSeqnum := by
    intro q hq heq
    obtain ⟨k, hk, hkB, hqseq⟩ := h.waiting q hq
    have := seqnumOf_inj (hqseq.symm.trans (heq.trans hseq)) (by omega) (by omega)
    omega
  have hahead : ReliablePacketBuffer.ahead chan.nextIncomingSeqnum packet = B + 1 := by
    rw [ReliablePacketBuffer.ahead, hseq, hdist]
  have hlen := h.length
  have hins : chan.incomingReliables.insert packet chan.nextIncomingSeqnum = .ok _ :=
    ReliablePacketBuffer.insert_of_new hreliable (by omega) (by omega)
      (by simp only [SEQNUM_MAX]; omega) hnew
  refine ⟨_, ?_, receiveReliable_of_ahead (header_le_clientPacket data _)
    (by rw [readU16_clientPacket, hdist]; omega) (by rw [readU16_clientPacket, hdist]; omega)
    (hpacket ▸ hins)⟩
  refine ⟨h.handled, h.expected, fun q hq => ?_, ?_⟩
  · rcases mem_insertByKey.mp hq with rfl | hq
    · exact ⟨B + 1, by omega, le_rfl, hpacket ▸ hseq⟩
    · obtain ⟨k, hk, hkB, hqseq⟩ := h.waiting q hq
      exact ⟨k, hk, by omega, hqseq⟩
  · dsimp only
    rw [insertByKey_perm.length_eq, List.length_cons]
    omega

/-- A packet of the half turn after those that wait. -/
theorem Waiting.receives_old (h : Waiting 36 B chan) {j : ℕ} (hj : j < 0x8000) :
    receives chan data (36 + 0x8000 + j) =
      { chan, ack := true, payload := .error .processedSilently } := by
  have hdist : serialDist (seqnumOf (36 + 0x8000 + j)) (seqnumOf 36) = 0x8000 + j := by
    rw [serialDist_seqnumOf (by omega) (by omega)]
    omega
  refine receiveReliable_of_old (header_le_clientPacket data _) ?_
  rw [readU16_clientPacket, h.expected, hdist]
  rcases Nat.eq_zero_or_pos j with rfl | hpos
  · -- exactly half a turn: the numbers themselves decide
    exact .inr ⟨rfl, by decide⟩
  · exact .inl (by omega)

end Receiver

/-! ## The stages of the run -/

def lostPayload : SharedBuffer := makeOriginalPacket [0, 1]

/-- Nothing is unacked, the packets `queue` wait to be sent, `M` payloads have numbers, and the
receiver waits for a datagram. -/
structure Stage (M R B : ℕ) (queue : List BufferedPacket) (l : Link) : Prop where
  queue : l.sender.chan.queuedReliables = queue
  sent : l.sender.chan.outgoingReliablesSent = []
  commands : l.sender.chan.queuedCommands = []
  window : l.sender.chan.windowSize.val = 64
  next : l.sender.chan.nextOutgoingSeqnum = seqnumOf M
  length : l.sender.numbered.length = M
  lost : 36 < M → l.sender.numbered[36]? = some lostPayload
  receiver : Waiting R B l.receiver
  idle : l.packetQueued = false

variable {M R B n : ℕ} {queue : List BufferedPacket} {l : Link} {data : SharedBuffer}

theorem Stage.init : ∃ l, (lts serverSide).Reach l ∧ Stage 0 0 0 [] l := by
  have hreach : (lts serverSide).Reach { packetQueued := false } :=
    .step (.init rfl) trivial (.passEnds rfl rfl)
  exact ⟨_, hreach, rfl, rfl, rfl, rfl, rfl, rfl, by simp, ⟨rfl, rfl, by simp, by simp⟩, rfl⟩

/-- A command is queued: its packets get the next numbers. -/
theorem Stage.number (h : Stage M R B queue l) (hgate : queue.length + 1 < 32)
    {originals : List SharedBuffer} {split : UInt16}
    (hsplit : splitCommand Sender.smallPackets (Sender.sendCommand data) l.sender.chan =
      .ok (originals, { l.sender.chan with nextOutgoingSplitSeqnum := split }))
    (hne : originals ≠ []) (hlen : originals.length < 0x8000)
    (hlost : 36 < M + originals.length →
      (l.sender.numbered ++ originals)[36]? = some lostPayload) :
    ∃ l', (lts serverSide).Path l l' ∧ Stage (M + originals.length) R B
      (queue ++ numbering Sender.smallPackets (seqnumOf M) originals) l' := by
  have hput := putReliableSendCommand_of_empty
    (show Sender.smallPackets.pendingDisconnect = false from rfl) h.commands
    (by rw [h.queue, h.window]; exact hgate) h.sent hsplit hne hlen
  have hexec : SenderOp.exec (.command Sender.smallPackets (Sender.sendCommand data))
      l.sender.chan = .ok {
        chan := { l.sender.chan.skip originals.length with
          queuedReliables := l.sender.chan.queuedReliables ++
            numbering Sender.smallPackets l.sender.chan.nextOutgoingSeqnum originals
          nextOutgoingSplitSeqnum := split }
        made := numbering Sender.smallPackets (seqnumOf M) originals } := by
    rw [SenderOp.exec, hput, ← h.next]
    have hsince : l.sender.chan.queuedSince { l.sender.chan.skip originals.length with
        queuedReliables := l.sender.chan.queuedReliables ++
          numbering Sender.smallPackets l.sender.chan.nextOutgoingSeqnum originals
        nextOutgoingSplitSeqnum := split } =
        numbering Sender.smallPackets l.sender.chan.nextOutgoingSeqnum originals :=
      List.drop_left
    simp only [bind, Except.bind, pure, Except.pure, hsince]
  have hnumbered : l.sender.numbered ++
      (numbering Sender.smallPackets (seqnumOf M) originals).map (·.payload) =
      l.sender.numbered ++ originals := by rw [map_payload_numbering]
  refine ⟨_, .single (a := .send (.command _ _)) (.send rfl hexec (Sender.apply_of_exec hexec)),
    ?_, h.sent, h.commands, h.window, ?_, ?_, ?_, h.receiver, h.idle⟩
  · dsimp only
    rw [h.queue, h.next]
  · dsimp only [skip]
    rw [h.next, seqnumOf_add]
  · dsimp only
    rw [hnumbered, List.length_append, h.length]
  · dsimp only
    rw [hnumbered]
    exact hlost

theorem apply_sendPackets {s : Sender} (hqueue : s.chan.queuedReliables = clientPacket data n :: queue)
    (hsent : s.chan.outgoingReliablesSent = []) (hwindow : s.chan.windowSize.val = 64)
    (hnext : s.chan.nextOutgoingSeqnum = seqnumOf M) (hn : n < M) (hM : M < n + 0x8000) :
    ∃ s', s.apply .sendPackets = .ok s' ∧ s'.numbered = s.numbered ∧
      SenderOp.exec .sendPackets s.chan = .ok { chan := s'.chan, wire := [clientPacket data n] } ∧
      s'.chan = { s.chan with
        queuedReliables := queue
        outgoingReliablesSent := [clientPacket data n] } := by
  have hseq : (clientPacket data n).getSeqnum = seqnumOf n := getSeqnum_makePacket _ _ _ _ _ _
  have hahead : ReliablePacketBuffer.ahead (nextExpected (seqnumOf M)) (clientPacket data n) =
      n + 0x8000 - M := by
    rw [ReliablePacketBuffer.ahead, hseq, nextExpected_seqnumOf,
      serialDist_seqnumOf_behind (by omega) (by omega)]
    omega
  have hins : ReliablePacketBuffer.insert [] (clientPacket data n) (nextExpected (seqnumOf M)) =
      .ok [clientPacket data n] :=
    ReliablePacketBuffer.insert_of_new (isReliable_makePacket _ _ _ _ _ _) (by omega) (by omega)
      (by simp) (by simp)
  have hexec : SenderOp.exec .sendPackets s.chan = .ok {
      chan := { s.chan with
        queuedReliables := queue
        outgoingReliablesSent := [clientPacket data n] }
      wire := [clientPacket data n] } := by
    have hlen : s.chan.outgoingReliablesSent.length < s.chan.windowSize.val.toNat := by
      rw [hsent, hwindow]
      decide
    rw [SenderOp.exec, sendQueued, hqueue]
    dsimp only
    rw [if_pos hlen, sendAsPacketReliable]
    dsimp only
    rw [hsent, hnext, hins]
    rfl
  exact ⟨_, Sender.apply_of_exec hexec, List.append_nil _, hexec, rfl⟩

/-- A packet that is half a turn behind is sent and not kept. -/
theorem apply_sendPackets_lost {s : Sender}
    (hqueue : s.chan.queuedReliables = clientPacket data n :: queue)
    (hsent : s.chan.outgoingReliablesSent = []) (hwindow : s.chan.windowSize.val = 64)
    (hnext : s.chan.nextOutgoingSeqnum = seqnumOf M) (hM : M = n + 0x8000) :
    ∃ s', s.apply .sendPackets = .ok s' ∧ s'.numbered = s.numbered ∧
      SenderOp.exec .sendPackets s.chan = .ok { chan := s'.chan, wire := [clientPacket data n] } ∧
      s'.chan = { s.chan with queuedReliables := queue } := by
  have hseq : (clientPacket data n).getSeqnum = seqnumOf n := getSeqnum_makePacket _ _ _ _ _ _
  have hfar : 0x8000 ≤ serialDist s.chan.nextOutgoingSeqnum (clientPacket data n).getSeqnum := by
    rw [hnext, hseq, serialDist_seqnumOf (by omega) (by omega)]
    omega
  have hsend := Sender.sendQueued_of_not_fit hqueue (by rw [hsent, hwindow]; decide) hfar
  have hexec : SenderOp.exec .sendPackets s.chan = .ok {
      chan := { s.chan with queuedReliables := queue }
      wire := [clientPacket data n] } := by
    rw [SenderOp.exec, hsend]
    rfl
  exact ⟨_, Sender.apply_of_exec hexec, List.append_nil _, hexec, rfl⟩

theorem apply_ack {s : Sender} {p : BufferedPacket} (hsent : s.chan.outgoingReliablesSent = [p]) :
    ∃ s', s.apply (.ack p.getSeqnum) = .ok s' ∧ s'.numbered = s.numbered ∧
      s'.chan = { s.chan with outgoingReliablesSent := [] } := by
  refine ⟨_, Sender.apply_of_exec rfl, List.append_nil _, ?_⟩
  dsimp only
  rw [ackReceived_outgoing, hsent]
  simp

/-- The first packet of the queue is sent and received. -/
theorem Stage.arrive (h : Stage M R B (clientPacket data n :: queue) l) (hn : n < M)
    (hM : M < n + 0x8000) (hR : R < n + 0x8000) {r : Received}
    (hr : receives l.receiver data n = r) : ∃ l', (lts serverSide).Path l l' ∧
      l'.sender.chan = { l.sender.chan with
        queuedReliables := queue
        outgoingReliablesSent := [clientPacket data n] } ∧
      l'.sender.numbered = l.sender.numbered ∧ l'.receiver = r.chan ∧
      l'.packetQueued = r.packetQueued.getD false ∧
      l'.acks = if r.ack then (n, (clientPacket data n).getSeqnum) :: l.acks else l.acks := by
  obtain ⟨s, happly, hnumbered, hexec, hs⟩ :=
    apply_sendPackets h.queue h.sent h.window h.next hn hM
  have hnumber : s.numberOf (clientPacket data n) = n := by
    have hseq : (clientPacket data n).getSeqnum = seqnumOf n := getSeqnum_makePacket _ _ _ _ _ _
    rw [Sender.numberOf, hnumbered, hs, hseq]
    dsimp only
    rw [h.next, h.length, serialDist_seqnumOf hn.le (by omega)]
    omega
  let l₁ : Link := { l with
    sender := s
    flight := l.flight ++ [clientPacket data n].map fun p => (s.numberOf p, p) }
  have hstep₁ : Step serverSide l (.send .sendPackets) l₁ := .send rfl hexec happly
  have hreceived : l₁.received serverSide (clientPacket data n) = r := by
    rw [received, drop_clientPacket]
    exact hr
  have hstep₂ : Step serverSide l₁ (.receive n (clientPacket data n)) _ := .receive h.idle (List.mem_append_right _ (by simp [hnumber]))
    (by rw [h.receiver.handled]; exact hR)
  rw [hreceived] at hstep₂
  exact ⟨_, (Lts.Path.single hstep₁).trans (Lts.Path.single hstep₂), hs, hnumbered, rfl, rfl, rfl⟩

/-- The first packet of the queue is sent, received and acked. -/
theorem Stage.exchange (h : Stage M R B (clientPacket data n :: queue) l) (hn : n < M)
    (hM : M < n + 0x8000) (hR : R < n + 0x8000) {r : Received}
    (hr : receives l.receiver data n = r) (hack : r.ack = true)
    (hqueued : r.packetQueued = some true) {R' B' : ℕ} (hchan : Waiting R' B' r.chan)
    (hB' : B' < 0x8000) : ∃ l', (lts serverSide).Path l l' ∧ Stage M R' B' queue l' := by
  obtain ⟨l₁, hpath₁, hchan₁, hnumbered₁, hreceiver₁, hqueued₁, hacks₁⟩ := h.arrive hn hM hR hr
  rw [hqueued, Option.getD_some] at hqueued₁
  rw [hack, if_pos rfl] at hacks₁
  obtain ⟨s₂, happly₂, hnumbered₂, hs₂⟩ := apply_ack (s := l₁.sender) (by rw [hchan₁])
  have hstep₃ : Step serverSide l₁ .buffers _ := .passEnds hqueued₁
    (popDeliverable_eq_none.mpr (hreceiver₁ ▸ hchan.not_deliverable hB'))
  have hstep₄ : Step serverSide { l₁ with packetQueued := false } (.ack n _) _ := .ack
    (hacks₁ ▸ List.mem_cons_self) (by rw [hnumbered₁, h.length]; omega) happly₂
  refine ⟨_, hpath₁.trans ((Lts.Path.single hstep₃).trans (Lts.Path.single hstep₄)), ?_⟩
  rw [hchan₁] at hs₂
  rw [hnumbered₁] at hnumbered₂
  exact ⟨by rw [hs₂], by rw [hs₂], by rw [hs₂]; exact h.commands, by rw [hs₂]; exact h.window,
    by rw [hs₂]; exact h.next, by rw [hnumbered₂]; exact h.length,
    by rw [hnumbered₂]; exact h.lost, by rw [hreceiver₁]; exact hchan, rfl⟩

/-- A payload of one packet is queued and its packet exchanged. -/
theorem Stage.short (h : Stage M R B [] l) (b : UInt8)
    (hlost : 36 < M + 1 → (l.sender.numbered ++ [makeOriginalPacket [0, b]])[36]? = some lostPayload) :
    ∃ l', (lts serverSide).Path l l' ∧
      Stage (M + 1) R B [clientPacket (makeOriginalPacket [0, b]) M] l' := by
  have hsplit : splitCommand Sender.smallPackets (Sender.sendCommand [0, b]) l.sender.chan =
      .ok ([makeOriginalPacket [0, b]], { l.sender.chan with
        nextOutgoingSplitSeqnum := l.sender.chan.nextOutgoingSplitSeqnum }) := rfl
  exact h.number (by simp) hsplit (by simp) (by simp) hlost

/-- 36 packets are exchanged, which takes the numbers from 65500 to 0. -/
theorem Stage.first : ∃ l, (lts serverSide).Reach l ∧ Stage 36 36 0 [] l := by
  obtain ⟨l, hreach, hl⟩ := Stage.init
  have hround : ∀ i < 36, ∀ l, Stage i i 0 [] l →
      ∃ l', (lts serverSide).Path l l' ∧ Stage (i + 1) (i + 1) 0 [] l' := by
    intro i hi l hl
    obtain ⟨l₁, hpath₁, hl₁⟩ := hl.short 42 (by omega)
    have hwait : Waiting (i + 1) 0
        (l₁.receiver.handle l₁.receiver.nextIncomingSeqnum (makeOriginalPacket [0, 42])) :=
      hl₁.receiver.handle _
    obtain ⟨l₂, hpath₂, hl₂⟩ := hl₁.exchange (by omega) (by omega) (by omega)
      (hl₁.receiver.receives_expected (by omega) rfl) rfl rfl hwait (by omega)
    exact ⟨l₂, hpath₁.trans hpath₂, hl₂⟩
  obtain ⟨l', hpath, hl'⟩ := Lts.Path.iterate (P := fun i => Stage i i 0 []) hround hl
  exact ⟨l', hreach.path hpath, hl'⟩

/-- A short payload and a long one are queued; the packet of the short one is sent and not
kept. -/
theorem Stage.lose (h : Stage 36 36 0 [] l) : ∃ l' chunks, (lts serverSide).Path l l' ∧
    chunks.length = 0x7FFF ∧ Stage (36 + 0x8000) 36 0
      (numbering Sender.smallPackets (seqnumOf 37) chunks) l' := by
  obtain ⟨l₁, hpath₁, hl₁⟩ := h.short 1 fun _ => by
    rw [List.getElem?_append_right (by rw [h.length]), h.length]
    exact List.getElem?_cons_zero
  obtain ⟨chunks, hchunks, hsplit⟩ := Sender.splitCommand_long
    (List.length_replicate (n := 16219665) (a := 7)) l₁.sender.chan
  have hne : chunks ≠ [] := by
    rintro rfl
    simp at hchunks
  obtain ⟨l₂, hpath₂, hl₂⟩ := hl₁.number (by simp) hsplit hne (by omega) fun _ => by
    rw [List.getElem?_append_left (by rw [hl₁.length]; omega)]
    exact hl₁.lost (by omega)
  rw [hchunks] at hl₂
  obtain ⟨s₃, happly, hnumbered, hexec, hs₃⟩ := apply_sendPackets_lost (M := 36 + 0x8000)
    hl₂.queue hl₂.sent hl₂.window hl₂.next rfl
  have hstep : (lts serverSide).step l₂ (.send .sendPackets) _ := .send rfl hexec happly
  refine ⟨_, chunks, hpath₁.trans (hpath₂.trans (Lts.Path.single hstep)), hchunks,
    by rw [hs₃]; rfl, by rw [hs₃]; exact hl₂.sent, by rw [hs₃]; exact hl₂.commands,
    by rw [hs₃]; exact hl₂.window, by rw [hs₃]; exact hl₂.next,
    by rw [hnumbered]; exact hl₂.length, by rw [hnumbered]; exact hl₂.lost, hl₂.receiver, hl₂.idle⟩

/-- The packets of the long payload are acked, and wait for the short one. -/
theorem Stage.wait {chunks : List SharedBuffer} (hchunks : chunks.length = 0x7FFF)
    (h : Stage (36 + 0x8000) 36 0 (numbering Sender.smallPackets (seqnumOf 37) chunks) l) :
    ∃ l', (lts serverSide).Path l l' ∧ Stage (36 + 0x8000) 36 0x7FFF [] l' := by
  have hround : ∀ i < 0x7FFF, ∀ l, Stage (36 + 0x8000) 36 i
        (numbering Sender.smallPackets (seqnumOf (37 + i)) (chunks.drop i)) l →
      ∃ l', (lts serverSide).Path l l' ∧ Stage (36 + 0x8000) 36 (i + 1)
        (numbering Sender.smallPackets (seqnumOf (37 + (i + 1))) (chunks.drop (i + 1))) l' := by
    intro i hi l hl
    have hsucc : 37 + i = 36 + (i + 1) := by omega
    rw [List.drop_eq_getElem_cons (by omega), numbering, seqnumOf_succ, hsucc] at hl
    obtain ⟨chan', hwait, hreceives⟩ :=
      hl.receiver.receives_ahead (by omega) chunks[i]
    obtain ⟨l', hpath, hl'⟩ := hl.exchange (by omega) (by omega) (by omega) hreceives rfl rfl hwait
      (by omega)
    have hnext : 36 + (i + 1) + 1 = 37 + (i + 1) := by omega
    rw [hnext] at hl'
    exact ⟨l', hpath, hl'⟩
  obtain ⟨l', hpath, hl'⟩ := Lts.Path.iterate (P := fun i => Stage (36 + 0x8000) 36 i
    (numbering Sender.smallPackets (seqnumOf (37 + i)) (chunks.drop i))) hround h
  rw [← hchunks, List.drop_length] at hl'
  exact ⟨l', hpath, hchunks ▸ hl'⟩

theorem Stage.ignore (h : Stage (36 + 0x8000) 36 0x7FFF [] l) :
    ∃ l', (lts serverSide).Path l l' ∧ Stage (36 + 65536) 36 0x7FFF [] l' := by
  have hround : ∀ j < 0x8000, ∀ l, Stage (36 + 0x8000 + j) 36 0x7FFF [] l →
      ∃ l', (lts serverSide).Path l l' ∧ Stage (36 + 0x8000 + (j + 1)) 36 0x7FFF [] l' := by
    intro j hj l hl
    obtain ⟨l₁, hpath₁, hl₁⟩ := hl.short 42 fun _ => by
      rw [List.getElem?_append_left (by rw [hl.length]; omega)]
      exact hl.lost (by omega)
    obtain ⟨l₂, hpath₂, hl₂⟩ := hl₁.exchange (by omega) (by omega) (by omega)
      (hl₁.receiver.receives_old hj) rfl rfl hl₁.receiver (by omega)
    exact ⟨l₂, hpath₁.trans hpath₂, hl₂⟩
  exact Lts.Path.iterate (P := fun j => Stage (36 + 0x8000 + j) 36 0x7FFF []) hround h

/-- The packet that then has the number of the lost one is processed in its place. -/
theorem not_prefix : ¬∀ l, (lts serverSide).Reach l →
    l.receiver.handled.map (·.payload) <+: l.sender.numbered := by
  intro hprefix
  obtain ⟨l₁, hreach, hl₁⟩ := Stage.first
  obtain ⟨l₂, chunks, hpath₂, hchunks, hl₂⟩ := hl₁.lose
  obtain ⟨l₃, hpath₃, hl₃⟩ := hl₂.wait hchunks
  obtain ⟨l₄, hpath₄, hl₄⟩ := hl₃.ignore
  obtain ⟨l₅, hpath₅, hl₅⟩ := hl₄.short 42 fun _ => by
    rw [List.getElem?_append_left (by rw [hl₄.length]; omega)]
    exact hl₄.lost (by omega)
  have hwrap : seqnumOf (36 + 65536) = seqnumOf 36 := by decide
  obtain ⟨l₆, hpath₆, -, hnumbered, hreceiver, -⟩ := hl₅.arrive (by omega) (by omega) (by omega)
    (hl₅.receiver.receives_expected (by omega) hwrap)
  have hpre := hprefix l₆ (hreach.path (hpath₂.trans (hpath₃.trans (hpath₄.trans
    (hpath₅.trans hpath₆)))))
  have hlen := hl₅.receiver.handled
  have hget : (l₆.receiver.handled.map (·.payload))[36]? = some (makeOriginalPacket [0, 42]) := by
    rw [hreceiver, Channel.handle, List.map_append,
      List.getElem?_append_right (by rw [List.length_map, hlen]), List.length_map, hlen]
    rfl
  have hlost := hl₅.lost (by omega)
  rw [← hnumbered] at hlost
  obtain ⟨rest, hrest⟩ := hpre
  have hlt := (List.getElem?_eq_some_iff.mp hget).1
  rw [← hrest, List.getElem?_append_left hlt, hget] at hlost
  exact absurd (Option.some.inj hlost) (by decide)

end Link

end Freeminer.Mtp
