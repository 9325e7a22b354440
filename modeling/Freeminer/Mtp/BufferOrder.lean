import Freeminer.Mtp.Kept
import Freeminer.Mtp.InOrder

/-! The order of the buffers. The packets of a buffer stand in the order of their distance from
the expected number, half a turn ahead at most. The receive thread moves the expected number
past packets that are in order, unless a conflicting packet arrives while the expected one still
waits. The send thread moves it as far as the window test lets it, which is never past the
oldest unacked packet. -/

namespace Freeminer.Mtp

open Lib

namespace ReliablePacketBuffer

/-- The numbers increase from the expected one, none twice, over half a turn at most. -/
structure Ordered (b : ReliablePacketBuffer) (nextExpected : UInt16) : Prop where
  order : Increasing (ahead nextExpected) b
  nodup : (b.map (·.getSeqnum)).Nodup
  window : ∀ p ∈ b, ahead nextExpected p < 0x8000

variable {b b' : ReliablePacketBuffer} {p : BufferedPacket} {nextExpected : UInt16} {n : ℕ}

theorem Ordered.of_increasing (horder : Increasing (ahead nextExpected) b)
    (hwindow : ∀ p ∈ b, ahead nextExpected p < 0x8000) : b.Ordered nextExpected where
  order := horder
  nodup := by
    refine List.pairwise_map.mpr (horder.imp fun {p q} hlt heq => ?_)
    rw [ahead, ahead, heq] at hlt
    exact lt_irrefl _ hlt
  window := hwindow

theorem Ordered.nil : Ordered [] nextExpected := .of_increasing .nil (by simp)

theorem Ordered.sublist (h : b.Ordered nextExpected) (hs : b'.Sublist b) :
    b'.Ordered nextExpected :=
  .of_increasing (h.order.sublist hs) fun p hp => h.window p (hs.subset hp)

theorem Ordered.length_le (h : b.Ordered nextExpected) : b.length ≤ SEQNUM_MAX := by
  have hlen : b.length ≤ 0x8000 - 0 :=
    h.order.length_le fun p hp => ⟨Nat.zero_le _, h.window p hp⟩
  rw [SEQNUM_MAX]
  omega

/-- `insert` keeps the order, whatever the packet. -/
theorem Ordered.insert (h : b.Ordered nextExpected) (hins : b.insert p nextExpected = .ok b') :
    b'.Ordered nextExpected := by
  by_cases hp : p.IsReliable
  · by_cases hout : ahead nextExpected p = 0 ∨ 0x8000 ≤ ahead nextExpected p
    · rw [insert_of_outside hout] at hins
      exact Except.ok.inj hins ▸ h
    simp only [not_or, not_le] at hout
    have h0 : 0 < ahead nextExpected p := Nat.pos_of_ne_zero hout.1
    by_cases hmem : ∃ q ∈ b, q.getSeqnum = p.getSeqnum
    · obtain ⟨q, hq, hseq⟩ := hmem
      rw [insert_of_mem hp h0 hout.2 h.length_le h.order hq hseq] at hins
      split_ifs at hins
      exact Except.ok.inj hins ▸ h
    · simp only [not_exists, not_and] at hmem
      rw [insert_of_new hp h0 hout.2 h.length_le hmem] at hins
      obtain rfl := Except.ok.inj hins
      refine .of_increasing (h.order.insertByKey fun q hq heq => ?_) fun q hq => ?_
      · exact hmem q hq (serialDist_left_inj heq)
      · rcases mem_insertByKey.mp hq with rfl | hq
        · exact hout.2
        · exact h.window q hq
  · rw [ReliablePacketBuffer.insert] at hins
    split_ifs at hins with hsize htype
    · exact Except.ok.inj hins ▸ h
    · exact Except.ok.inj hins ▸ h
    all_goals exact absurd ⟨not_lt.mp hsize, not_not.mp htype⟩ hp

/-- The expected number may go up as far as the first packet. -/
theorem ahead_add (hn : n ≤ ahead nextExpected p) :
    ahead (nextExpected + UInt16.ofNat n) p = ahead nextExpected p - n := by
  have h1 := nextExpected.toNat_lt
  have h2 := p.getSeqnum.toNat_lt
  rw [ahead, serialDist_eq] at hn ⊢
  rw [ahead, serialDist_eq, UInt16.toNat_add, UInt16.toNat_ofNat']
  omega

theorem Ordered.advance (h : b.Ordered nextExpected) (hn : ∀ p ∈ b, n ≤ ahead nextExpected p) :
    b.Ordered (nextExpected + UInt16.ofNat n) := by
  refine .of_increasing ?_ fun p hp => ?_
  · refine h.order.imp_of_mem fun {p q} hp hq hlt => ?_
    rw [ahead_add (hn p hp), ahead_add (hn q hq)]
    have := hn p hp
    omega
  · rw [ahead_add (hn p hp)]
    have := h.window p hp
    omega

end ReliablePacketBuffer

open ReliablePacketBuffer

/-! ## The incoming packets -/

namespace Channel

variable {chan chan' : Channel} {p : BufferedPacket} {packetdata : SharedBuffer}
  {env : ReceiveEnv}

def IncomingOrdered (chan : Channel) : Prop :=
  chan.incomingReliables.Ordered chan.nextIncomingSeqnum

theorem IncomingOrdered.init : IncomingOrdered {} := .nil

theorem IncomingOrdered.same (hs : SameIncoming chan chan') (h : chan.IncomingOrdered) :
    chan'.IncomingOrdered := by
  rwa [IncomingOrdered, hs.incomingReliables, hs.nextIncomingSeqnum]

/-- Past the expected number, where no packet under it is left. -/
theorem IncomingOrdered.handle {incoming : ReliablePacketBuffer} {seqnum : UInt16}
    {payload : SharedBuffer} (h : chan.IncomingOrdered)
    (hsub : incoming.Sublist chan.incomingReliables)
    (hlater : ∀ q ∈ incoming, q.getSeqnum ≠ chan.nextIncomingSeqnum) :
    ({ chan with incomingReliables := incoming }.handle seqnum payload).IncomingOrdered := by
  refine Ordered.advance (n := 1) (Ordered.sublist h hsub) fun q hq => ?_
  exact Nat.pos_of_ne_zero fun h0 => hlater q hq (serialDist_eq_zero.mp h0)

/-- Behind a first packet that is the expected one there is no other. -/
theorem IncomingOrdered.tail_ne {incoming : ReliablePacketBuffer} (h : chan.IncomingOrdered)
    (hin : chan.incomingReliables = p :: incoming) (hseq : p.getSeqnum = chan.nextIncomingSeqnum) :
    ∀ q ∈ incoming, q.getSeqnum ≠ chan.nextIncomingSeqnum := by
  intro q hq heq
  have hnodup := h.nodup
  rw [hin, List.map_cons, List.nodup_cons] at hnodup
  exact hnodup.1 (List.mem_map.mpr ⟨q, hq, heq.trans hseq.symm⟩)

theorem IncomingOrdered.pop (hp : chan.popDeliverable = some (p, chan'))
    (h : chan.IncomingOrdered) : chan'.IncomingOrdered := by
  obtain ⟨incoming, hin, hseq, rfl⟩ := popDeliverable_eq_some hp
  exact h.handle (hin ▸ List.sublist_cons_self _ _) (h.tail_ne hin hseq)

/-- Only the first packet can be the expected one. -/
theorem IncomingOrdered.ne_of_not_deliverable (h : chan.IncomingOrdered)
    (hdel : ¬chan.Deliverable) : ∀ q ∈ chan.incomingReliables,
      q.getSeqnum ≠ chan.nextIncomingSeqnum := by
  intro q hq heq
  obtain ⟨p, incoming, hin⟩ := List.exists_cons_of_ne_nil (List.ne_nil_of_mem hq)
  have horder := h.order
  rw [hin] at hq horder
  rcases List.mem_cons.mp hq with rfl | hq
  · exact hdel (deliverable_iff.mpr ⟨q, incoming, hin, heq⟩)
  · have hlt := (List.pairwise_cons.mp horder).1 q hq
    rw [ahead, ahead, heq, serialDist_self] at hlt
    exact absurd hlt (Nat.not_lt_zero _)

/-- The packet conflicts with one that waits, and the expected one waits as well. -/
def Misorders (env : ReceiveEnv) (packetdata : SharedBuffer) (chan : Channel) : Prop :=
  chan.Deliverable ∧ chan.Conflicts env packetdata

theorem IncomingOrdered.receive (hok : ¬chan.Misorders env packetdata) (h : chan.IncomingOrdered) :
    (chan.receiveReliable env packetdata).chan.IncomingOrdered := by
  rcases receiveReliable_cases env packetdata chan with
    ⟨heq, -⟩ | ⟨incoming, hins, -, heq, -⟩ | ⟨-, hnow, heq, -⟩
  · rwa [heq]
  · rw [heq]
    exact Ordered.insert h hins
  · rw [heq, processNow_eq]
    have hsub : (if chan.incomingReliables.getFirstSeqnum = some (readU16 (packetdata.drop 1)) then
        chan.incomingReliables.tail else chan.incomingReliables).Sublist chan.incomingReliables := by
      split_ifs
      · exact List.tail_sublist _
      · exact .refl _
    refine h.handle hsub fun q hq => ?_
    by_cases hdel : chan.Deliverable
    · -- the packet is the expected one, and drops its copy
      have hexpected := hnow.resolve_right fun hconf => hok ⟨hdel, hconf⟩
      obtain ⟨p, incoming, hin, hseq⟩ := deliverable_iff.mp hdel
      rw [hexpected, if_pos (show _ = some _ from hdel), hin, List.tail_cons] at hq
      exact h.tail_ne hin hseq q hq
    · exact h.ne_of_not_deliverable hdel q (hsub.subset hq)

end Channel

/-- The datagram carries a reliable packet that conflicts with one in the buffer, while the first
packet there is the expected one. -/
def Connection.Misordering (conn : Connection) (d : Connection.Datagram) : Prop :=
  ∃ peer ch, conn.Reaches d peer ch ∧
    (peer.channels ch).Misorders (conn.receiveEnv peer ch) (d.data.drop BASE_HEADER_SIZE)

namespace ReceiveState

def NotMisordering (s : ReceiveState) (op : ReceiveOp) : Prop :=
  ∀ d, op = .datagram d → ¬s.conn.Misordering d

theorem incomingOrdered_of_run {s : ReceiveState} (h : receiveLts.Run NotMisordering s) :
    s.conn.AllChannels Channel.IncomingOrdered := by
  refine Lts.Run.invariant (I := fun s => s.conn.AllChannels Channel.IncomingOrdered) ?_ ?_ h
  · rintro s rfl peer hpeer
    simp at hpeer
  · intro s op s' hall hok hs
    refine ReceiveStep.allChannels hs (fun _ _ => .same) .init (fun _ _ _ => .pop) ?_ hall
    intro d peer ch hop hreaches
    exact .receive fun hmis => hok d hop ⟨peer, ch, hreaches, hmis⟩

end ReceiveState

/-! ## The packets on the wire -/

namespace Channel

variable {chan chan' : Channel} {n : ℕ}

def OutgoingOrdered (chan : Channel) : Prop :=
  chan.outgoingReliablesSent.Ordered (nextExpected chan.nextOutgoingSeqnum)

theorem nextExpected_add (s : UInt16) : nextExpected (s + UInt16.ofNat n) =
    nextExpected s + UInt16.ofNat n := by
  rw [nextExpected_eq, nextExpected_eq, UInt16.add_assoc, UInt16.add_comm (UInt16.ofNat n),
    UInt16.add_assoc]

/-- Numbers are granted while the oldest packet is near, and the others are nearer. -/
theorem OutgoingOrdered.advance (h : chan.OutgoingOrdered) (hn : n < 0x8000)
    (hgrant : chan.Granted n) :
    chan.outgoingReliablesSent.Ordered (nextExpected (chan.nextOutgoingSeqnum + UInt16.ofNat n)) := by
  rw [nextExpected_add]
  refine Ordered.advance h fun q hq => ?_
  obtain ⟨p, sent, hsent⟩ := List.exists_cons_of_ne_nil (List.ne_nil_of_mem hq)
  have hp := hgrant p (by rw [hsent]; rfl)
  have horder := h.order
  have hwindow := h.window p (by rw [hsent]; exact List.mem_cons_self)
  have hle : ahead (nextExpected chan.nextOutgoingSeqnum) p ≤
      ahead (nextExpected chan.nextOutgoingSeqnum) q := by
    rw [hsent] at hq horder
    rcases List.mem_cons.mp hq with rfl | hq
    · exact le_refl _
    · exact ((List.pairwise_cons.mp horder).1 q hq).le
  refine le_trans ?_ hle
  have h1 := chan.nextOutgoingSeqnum.toNat_lt
  have h2 := p.getSeqnum.toNat_lt
  rw [serialDist_eq, UInt16.toNat_add, UInt16.toNat_ofNat', MAX_RELIABLE_WINDOW_SIZE_SEND] at hp
  rw [ahead, serialDist_eq, nextExpected_eq, UInt16.toNat_add, UInt16.toNat_ofNat'] at hwindow ⊢
  omega

theorem Ordered.of_same {b b' : ReliablePacketBuffer} {next : UInt16}
    (hs : List.Forall₂ SamePacket b b') (h : b.Ordered next) : b'.Ordered next := by
  have hmap := map_getSeqnum_of_same hs
  have hahead : ∀ l : ReliablePacketBuffer, l.map (ahead next) =
      (l.map (·.getSeqnum)).map fun s => serialDist s next := fun l => by
    rw [List.map_map]
    rfl
  refine .of_increasing ?_ fun q hq => ?_
  · have horder := List.pairwise_map.mpr h.order
    rw [hahead, ← hmap, ← hahead] at horder
    exact List.pairwise_map.mp horder
  · obtain ⟨p, hp, hpq⟩ := exists_same_of_mem hs hq
    rw [ahead, hpq.seqnum]
    exact h.window p hp

theorem OutgoingOrdered.sends {wire made : List BufferedPacket} {acked : Option UInt16}
    (hs : Sends chan chan' wire made acked) (h : chan.OutgoingOrdered) : chan'.OutgoingOrdered := by
  cases hs with
  | number env hne hlen hgrant hsent hnext hqueue =>
    rw [OutgoingOrdered, hsent, hnext]
    exact h.advance hlen hgrant
  | direct env data hgrant hlen hnext hqueue hsent =>
    have hadvanced := h.advance (by decide) hgrant
    rw [hnext] at hsent
    rw [OutgoingOrdered, hnext]
    exact Ordered.insert hadvanced hsent
  | transmit p hlen hnext hqueue hsent =>
    rw [OutgoingOrdered, hnext]
    exact Ordered.insert h hsent
  | refresh hnext hqueue hsent hwire =>
    rw [OutgoingOrdered, hnext]
    exact Ordered.of_same hsent h
  | ack seqnum hnext hqueue hsent =>
    rw [OutgoingOrdered, hnext, hsent]
    exact Ordered.sublist h List.eraseP_sublist

end Channel

theorem Sender.outgoingOrdered_of_reach {s : Sender} (h : lts.Reach s) : s.chan.OutgoingOrdered := by
  refine Lts.Run.invariant (I := fun s => s.chan.OutgoingOrdered) ?_ ?_ h
  · rintro s rfl
    exact .nil
  · intro s op s' hI _ hs
    obtain ⟨r, hexec, rfl⟩ := apply_eq_ok hs
    exact .sends (SenderOp.exec_sends hexec) hI

/-! ## Both buffers -/

/-- A second packet that is ahead, and then another one under its number. -/
def secondDatagram : Connection.Datagram := ReceiveState.reliableDatagram 2 65502 [1, 0, 42]

def secondConflicting : Connection.Datagram := ReceiveState.reliableDatagram 2 65502 [1, 0, 0, 42]

def afterSecond : Connection := (ReceiveState.afterAhead.handleDatagram secondDatagram).2

def afterMalformed : Connection := (afterSecond.handleDatagram ReceiveState.malformedDatagram).2

end Freeminer.Mtp
