import Freeminer.Mtp.InOrder
import Freeminer.Mtp.SenderSteps

/-! The invariant of the receiving side of a channel whose packets all come from one sender: it
has processed the first payloads that got numbers, and the buffer holds some of the next half
turn of packets, in the order of their numbers. -/

namespace Freeminer.Mtp

open Lib ReliablePacketBuffer

/-- `p` carries the `n`th payload under its number. -/
structure IsNumber (numbered : List SharedBuffer) (n : ℕ) (p : BufferedPacket) : Prop where
  reliable : p.IsReliable
  seqnum : p.getSeqnum = seqnumOf n
  payload : numbered[n]? = some p.payload

section Packets

variable {numbered : List SharedBuffer} {m n : ℕ} {p q : BufferedPacket}

theorem HasNumber.isNumber (h : HasNumber numbered n p) : IsNumber numbered n p :=
  ⟨h.reliable, h.seqnum, h.payload⟩

theorem IsNumber.lt (h : IsNumber numbered n p) : n < numbered.length :=
  (List.getElem?_eq_some_iff.mp h.payload).1

theorem IsNumber.append (h : IsNumber numbered n p) (l : List SharedBuffer) :
    IsNumber (numbered ++ l) n p where
  reliable := h.reliable
  seqnum := h.seqnum
  payload := by rw [List.getElem?_append_left h.lt, h.payload]

theorem IsNumber.size (h : IsNumber numbered n p) :
    p.size = BASE_HEADER_SIZE + RELIABLE_HEADER_SIZE + p.payload.length := by
  have hsize := h.reliable.size
  simp only [BufferedPacket.size, BufferedPacket.payload, List.length_drop, BASE_HEADER_SIZE,
    RELIABLE_HEADER_SIZE] at *
  omega

theorem IsNumber.header_le (h : IsNumber numbered n p) :
    RELIABLE_HEADER_SIZE ≤ (p.data.drop BASE_HEADER_SIZE).length := by
  have hsize := h.reliable.size
  simp only [BufferedPacket.size, List.length_drop, BASE_HEADER_SIZE, RELIABLE_HEADER_SIZE] at *
  omega

theorem IsNumber.readU16 (h : IsNumber numbered n p) :
    readU16 ((p.data.drop BASE_HEADER_SIZE).drop 1) = seqnumOf n := by
  have hsize := h.reliable.size
  rw [← h.seqnum, BufferedPacket.getSeqnum, if_neg (by omega), List.drop_drop]

theorem drop_payload (p : BufferedPacket) :
    (p.data.drop BASE_HEADER_SIZE).drop RELIABLE_HEADER_SIZE = p.payload := by
  rw [List.drop_drop]
  rfl

/-- The receiver puts a base header of its own on what it buffers. -/
theorem IsNumber.remake (h : IsNumber numbered n p) (address : Address) (protocolId : UInt32)
    (sender : SessionT) (channel : UInt8) : IsNumber numbered n
      (makePacket address (p.data.drop BASE_HEADER_SIZE) protocolId sender channel) where
  reliable := by
    refine ⟨?_, ?_⟩
    · have := h.header_le
      rw [size_makePacket]
      simp only [RELIABLE_HEADER_SIZE] at this
      omega
    · rw [drop_makePacket]
      exact h.reliable.type
  seqnum := by rw [Channel.getSeqnum_makePacket_of_le _ _ _ _ h.header_le, h.readU16]
  payload := by
    rw [BufferedPacket.payload, drop_makePacket_add, drop_payload]
    exact h.payload

/-- How far a packet of the next half turn is past the expected one. -/
theorem IsNumber.ahead (h : IsNumber numbered n p) (hle : m ≤ n) (hlt : n < m + 0x8000) :
    ahead (seqnumOf m) p = n - m := by
  rw [ReliablePacketBuffer.ahead, h.seqnum, serialDist_seqnumOf hle (by omega)]

end Packets

/-- The invariant of the receiving side, for the payloads numbered so far. -/
structure ReceiverInv (numbered : List SharedBuffer) (address : Address) (chan : Channel) :
    Prop where
  handled : chan.handled.map (·.payload) = numbered.take chan.handled.length
  next : chan.nextIncomingSeqnum = seqnumOf chan.handled.length
  buffer : ∀ q ∈ chan.incomingReliables, q.address = address ∧
    ∃ n, IsNumber numbered n q ∧ chan.handled.length ≤ n ∧ n < chan.handled.length + 0x8000
  order : Increasing (ahead chan.nextIncomingSeqnum) chan.incomingReliables

/-- The `n`th packet was processed, or it waits in the buffer. -/
def Channel.Has (chan : Channel) (n : ℕ) : Prop :=
  n < chan.handled.length ∨
    n < chan.handled.length + 0x8000 ∧ ∃ q ∈ chan.incomingReliables, q.getSeqnum = seqnumOf n

section Receive

variable {numbered : List SharedBuffer} {address : Address} {chan chan' : Channel} {n : ℕ}
  {p q : BufferedPacket} {env : ReceiveEnv}

theorem ReceiverInv.init : ReceiverInv [] address {} where
  handled := rfl
  next := rfl
  buffer := by simp
  order := .nil

theorem ReceiverInv.length_le (h : ReceiverInv numbered address chan) :
    chan.handled.length ≤ numbered.length := by
  have := congrArg List.length h.handled
  rw [List.length_map, List.length_take] at this
  omega

theorem ReceiverInv.prefix (h : ReceiverInv numbered address chan) :
    chan.handled.map (·.payload) <+: numbered := by
  rw [h.handled]
  exact List.take_prefix _ _

theorem ReceiverInv.append (h : ReceiverInv numbered address chan) (l : List SharedBuffer) :
    ReceiverInv (numbered ++ l) address chan where
  handled := by rw [List.take_append_of_le_length h.length_le, h.handled]
  next := h.next
  buffer q hq := by
    obtain ⟨haddress, n, hn, hrange⟩ := h.buffer q hq
    exact ⟨haddress, n, hn.append l, hrange⟩
  order := h.order

theorem ReceiverInv.length_buffer (h : ReceiverInv numbered address chan) :
    chan.incomingReliables.length ≤ SEQNUM_MAX := by
  have hlen : chan.incomingReliables.length ≤ 0x8000 - 0 := h.order.length_le fun q hq => by
    obtain ⟨-, n, hn, hle, hlt⟩ := h.buffer q hq
    rw [h.next, hn.ahead hle hlt]
    omega
  simp only [SEQNUM_MAX]
  omega

/-- What waits under the number of the `n`th packet is that packet. -/
theorem ReceiverInv.buffer_of_seqnum (h : ReceiverInv numbered address chan)
    (hq : q ∈ chan.incomingReliables) (hle : chan.handled.length ≤ n)
    (hlt : n < chan.handled.length + 0x8000) (hseq : q.getSeqnum = seqnumOf n) :
    IsNumber numbered n q := by
  obtain ⟨-, m, hm, hmle, hmlt⟩ := h.buffer q hq
  obtain rfl := seqnumOf_inj (hm.seqnum.symm.trans hseq) (by omega) (by omega)
  exact hm

theorem ReceiverInv.lt_of_has (h : ReceiverInv numbered address chan) (hn : chan.Has n) :
    n < numbered.length := by
  rcases hn with hlt | ⟨hlt, q, hq, hseq⟩
  · exact hlt.trans_le h.length_le
  · by_cases hle : chan.handled.length ≤ n
    · exact (h.buffer_of_seqnum hq hle hlt hseq).lt
    · have := h.length_le
      omega

/-- The expected packet can only wait at the head of the buffer. -/
theorem ReceiverInv.not_has_next (h : ReceiverInv numbered address chan)
    (hdel : ¬chan.Deliverable) : ¬chan.Has chan.handled.length := by
  rintro (hlt | ⟨-, q, hq, hseq⟩)
  · exact Nat.lt_irrefl _ hlt
  refine hdel (Channel.deliverable_iff.mpr ?_)
  rw [← h.next] at hseq
  have hzero : ahead chan.nextIncomingSeqnum q = 0 := by rw [ahead, hseq, serialDist_self]
  have horder := h.order
  rcases hin : chan.incomingReliables with _ | ⟨p, incoming⟩
  · rw [hin] at hq
    simp at hq
  · rw [hin] at hq horder
    rcases List.mem_cons.mp hq with rfl | hq
    · exact ⟨q, incoming, rfl, hseq⟩
    · have := (List.pairwise_cons.mp horder).1 q hq
      omega

/-- Processing the next packet, once the buffer holds later ones only. -/
theorem ReceiverInv.handle (h : ReceiverInv numbered address chan)
    {incoming : ReliablePacketBuffer} (hsub : incoming.Sublist chan.incomingReliables)
    (hlater : ∀ q ∈ incoming, q.getSeqnum ≠ chan.nextIncomingSeqnum)
    {payload : SharedBuffer} (hpayload : numbered[chan.handled.length]? = some payload) :
    ReceiverInv numbered address
      ({ chan with incomingReliables := incoming }.handle chan.nextIncomingSeqnum payload) := by
  have hlen : ({ chan with incomingReliables := incoming }.handle chan.nextIncomingSeqnum
      payload).handled.length = chan.handled.length + 1 := List.length_append
  have hnext : ({ chan with incomingReliables := incoming }.handle chan.nextIncomingSeqnum
      payload).nextIncomingSeqnum = seqnumOf (chan.handled.length + 1) := by
    rw [← seqnumOf_succ, ← h.next]
    rfl
  have hbuffer : ∀ q ∈ incoming, q.address = address ∧ ∃ n, IsNumber numbered n q ∧
      chan.handled.length + 1 ≤ n ∧ n < chan.handled.length + 0x8000 := by
    intro q hq
    obtain ⟨haddress, n, hn, hle, hlt⟩ := h.buffer q (hsub.subset hq)
    refine ⟨haddress, n, hn, ?_, hlt⟩
    have hne : n ≠ chan.handled.length := by
      rintro rfl
      exact hlater q hq (hn.seqnum.trans h.next.symm)
    omega
  refine ⟨?_, by rw [hlen, hnext], ?_, ?_⟩
  · obtain ⟨hlt, hget⟩ := List.getElem?_eq_some_iff.mp hpayload
    rw [hlen, List.take_add_one, hpayload, ← h.handled]
    simp [Channel.handle]
  · intro q hq
    obtain ⟨haddress, n, hn, hle, hlt⟩ := hbuffer q hq
    rw [hlen]
    exact ⟨haddress, n, hn, hle, by omega⟩
  · rw [hnext]
    refine (h.order.sublist hsub).imp_of_mem fun {p q} hp hq hlt => ?_
    obtain ⟨-, m, hm, hmle, hmlt⟩ := hbuffer p hp
    obtain ⟨-, n, hn, hnle, hnlt⟩ := hbuffer q hq
    rw [h.next, hm.ahead (by omega) hmlt, hn.ahead (by omega) hnlt] at hlt
    rw [hm.ahead hmle (by omega), hn.ahead hnle (by omega)]
    omega

theorem Channel.has_handle {incoming : ReliablePacketBuffer} {payload : SharedBuffer}
    (hnext : chan.nextIncomingSeqnum = seqnumOf chan.handled.length)
    (hmem : ∀ q ∈ chan.incomingReliables,
      q.getSeqnum = chan.nextIncomingSeqnum ∨ q ∈ incoming)
    (h : n = chan.handled.length ∨ chan.Has n) :
    ({ chan with incomingReliables := incoming }.handle chan.nextIncomingSeqnum payload).Has n := by
  have hlen : ({ chan with incomingReliables := incoming }.handle chan.nextIncomingSeqnum
      payload).handled.length = chan.handled.length + 1 := List.length_append
  rw [Has, hlen]
  rcases h with rfl | hlt | ⟨hlt, q, hq, hseq⟩
  · exact .inl (by omega)
  · exact .inl (by omega)
  · by_cases hle : n ≤ chan.handled.length
    · exact .inl (by omega)
    · refine .inr ⟨by omega, q, (hmem q hq).resolve_left fun heq => ?_, hseq⟩
      rw [hseq, hnext] at heq
      have := seqnumOf_inj heq (by omega) (by omega)
      omega

/-- A pass over the buffers that takes the first packet. -/
theorem ReceiverInv.pop (h : ReceiverInv numbered address chan)
    (hpop : chan.popDeliverable = some (p, chan')) :
    ReceiverInv numbered address chan' ∧ ∀ n, chan.Has n → chan'.Has n := by
  obtain ⟨incoming, hin, hseq, rfl⟩ := Channel.popDeliverable_eq_some hpop
  have hp : p ∈ chan.incomingReliables := hin ▸ List.mem_cons_self
  have hnumber := h.buffer_of_seqnum hp le_rfl (by omega) (hseq.trans h.next)
  have horder := h.order
  rw [hin] at horder
  rw [hseq]
  constructor
  · refine h.handle (hin ▸ List.sublist_cons_self _ _) (fun q hq heq => ?_) hnumber.payload
    have := (List.pairwise_cons.mp horder).1 q hq
    rw [ahead, ahead, hseq, heq] at this
    exact Nat.lt_irrefl _ this
  · intro n hn
    refine Channel.has_handle h.next (fun q hq => ?_) (.inr hn)
    rw [hin] at hq
    rcases List.mem_cons.mp hq with rfl | hq
    · exact .inl hseq
    · exact .inr hq

/-- A packet of the sender arrives, delayed by less than half a turn, and less than half a turn
past the expected one. -/
theorem ReceiverInv.receive (h : ReceiverInv numbered env.address chan)
    (hp : IsNumber numbered n p) (hdel : ¬chan.Deliverable)
    (hlow : chan.handled.length < n + 0x8000) (hhigh : n < chan.handled.length + 0x8000) :
    ReceiverInv numbered env.address
        (chan.receiveReliable env (p.data.drop BASE_HEADER_SIZE)).chan ∧
      (chan.receiveReliable env (p.data.drop BASE_HEADER_SIZE)).chan.Has n ∧
      ∀ m, chan.Has m →
        (chan.receiveReliable env (p.data.drop BASE_HEADER_SIZE)).chan.Has m := by
  rcases Nat.lt_trichotomy n chan.handled.length with hlt | rfl | hgt
  · -- it was processed before
    have hdist : 0x8000 < serialDist (readU16 ((p.data.drop BASE_HEADER_SIZE).drop 1))
        chan.nextIncomingSeqnum := by
      rw [hp.readU16, h.next, serialDist_seqnumOf_behind hlt (by omega)]
      omega
    rw [Channel.receiveReliable_of_old hp.header_le (.inl hdist)]
    exact ⟨h, .inl hlt, fun m hm => hm⟩
  · -- it is the expected one, of which no copy waits
    have hne : chan.incomingReliables.getFirstSeqnum ≠ some chan.nextIncomingSeqnum := hdel
    rw [Channel.receiveReliable_of_expected hp.header_le (by rw [hp.readU16, h.next]),
      Channel.processNow_eq, if_neg hne, drop_payload]
    refine ⟨h.handle (.refl _) (fun q hq heq => ?_) hp.payload,
      Channel.has_handle h.next (fun _ => .inr) (.inl rfl),
      fun m hm => Channel.has_handle h.next (fun _ => .inr) (.inr hm)⟩
    exact h.not_has_next hdel (.inr ⟨by omega, q, hq, heq.trans h.next⟩)
  · -- it comes later
    have hremake := hp.remake env.address env.protocolId env.peerId env.channelnum
    obtain ⟨packet, hpacket⟩ : ∃ packet, packet = makePacket env.address
      (p.data.drop BASE_HEADER_SIZE) env.protocolId env.peerId env.channelnum := ⟨_, rfl⟩
    rw [← hpacket] at hremake
    have hahead : ahead chan.nextIncomingSeqnum packet = n - chan.handled.length := by
      rw [h.next, hremake.ahead hgt.le hhigh]
    have hdist : serialDist (readU16 ((p.data.drop BASE_HEADER_SIZE).drop 1))
        chan.nextIncomingSeqnum = n - chan.handled.length := by
      rw [hp.readU16, ← hremake.seqnum]
      exact hahead
    have hreceive : ∀ incoming,
        chan.incomingReliables.insert packet chan.nextIncomingSeqnum = .ok incoming →
        chan.receiveReliable env (p.data.drop BASE_HEADER_SIZE) =
          { chan := { chan with incomingReliables := incoming }
            ack := true
            payload := .error .processedQueued } := by
      intro incoming hins
      rw [hpacket] at hins
      exact Channel.receiveReliable_of_ahead hp.header_le (by rw [hdist]; omega)
        (by rw [hdist]; omega) hins
    by_cases hmem : ∃ q ∈ chan.incomingReliables, q.getSeqnum = packet.getSeqnum
    · obtain ⟨q, hq, hseq⟩ := hmem
      have hqn := h.buffer_of_seqnum hq hgt.le hhigh (hseq.trans hremake.seqnum)
      have hpayload := Option.some.inj (hqn.payload.symm.trans hremake.payload)
      have hins : chan.incomingReliables.insert packet chan.nextIncomingSeqnum =
          .ok chan.incomingReliables := by
        rw [insert_of_mem hremake.reliable (by omega) (by omega) h.length_buffer h.order hq hseq,
          if_neg]
        rw [not_or, not_not, not_not, hqn.size, hremake.size, hpayload, (h.buffer q hq).1, hpacket]
        exact ⟨rfl, rfl⟩
      rw [hreceive _ hins]
      exact ⟨h, .inr ⟨hhigh, q, hq, hqn.seqnum⟩, fun m hm => hm⟩
    · have hnew : ∀ q ∈ chan.incomingReliables, q.getSeqnum ≠ packet.getSeqnum :=
        fun q hq heq => hmem ⟨q, hq, heq⟩
      have hins : chan.incomingReliables.insert packet chan.nextIncomingSeqnum = .ok _ :=
        insert_of_new hremake.reliable (by omega) (by omega) h.length_buffer hnew
      rw [hreceive _ hins]
      refine ⟨⟨h.handled, h.next, fun q hq => ?_, ?_⟩,
        .inr ⟨hhigh, packet, mem_insertByKey.mpr (.inl rfl), hremake.seqnum⟩, fun m hm => ?_⟩
      · rcases mem_insertByKey.mp hq with rfl | hq
        · exact ⟨by rw [hpacket]; rfl, n, hremake, hgt.le, hhigh⟩
        · exact h.buffer q hq
      · exact h.order.insertByKey fun q hq heq => hnew q hq (serialDist_left_inj heq)
      · rcases hm with hlt | ⟨hlt, q, hq, hseq⟩
        · exact .inl hlt
        · exact .inr ⟨hlt, q, mem_insertByKey.mpr (.inr hq), hseq⟩

end Receive

end Freeminer.Mtp
