import Freeminer.Lib.Runs
import Freeminer.Mtp.SenderSteps

/-! What the sender keeps. Every reliable packet put on the wire stays in
`outgoing_reliables_sent` until its ack arrives, as long as no queued packet is half a turn or
more behind the next number. A packet further behind is sent, but `insert` drops it. -/

namespace Freeminer.Mtp

open Lib Channel ReliablePacketBuffer

/-- The sending side of a channel with its history. -/
structure Sender where
  chan : Channel := {}
  /-- The payloads in the order of their numbers. -/
  numbered : List SharedBuffer := []
  /-- What was put on the wire and not acked since. -/
  unacked : List (UInt16 × SharedBuffer) := []

namespace Sender

def apply (op : SenderOp) (s : Sender) : Except ConException Sender := do
  let r ← op.exec s.chan
  pure {
    chan := r.chan
    numbered := s.numbered ++ r.made.map (·.payload)
    unacked := (s.unacked.filter fun e => some e.1 ≠ op.acked) ++
      r.wire.map fun p => (p.getSeqnum, p.payload) }

def lts : Lts Sender SenderOp where
  init s := s = {}
  step s op s' := s.apply op = .ok s'

theorem reach_apply {op : SenderOp} {s s' : Sender} (h : lts.Reach s) (hs : s.apply op = .ok s') :
    lts.Reach s' :=
  .step h trivial hs

/-- Every queued packet is less than half a turn behind the next number. -/
def Fit (s : Sender) : Prop := Fits s.chan.nextOutgoingSeqnum s.chan.queuedReliables

/-- Every packet put on the wire and not acked is still there to be resent. -/
def Kept (s : Sender) : Prop :=
  ∀ e ∈ s.unacked, ∃ p ∈ s.chan.outgoingReliablesSent, p.getSeqnum = e.1 ∧ p.payload = e.2

def Inv (s : Sender) : Prop :=
  SenderInv s.numbered s.chan.nextOutgoingSeqnum s.chan.queuedReliables s.chan.outgoingReliablesSent

theorem apply_eq_ok {op : SenderOp} {s s' : Sender} (h : s.apply op = .ok s') :
    ∃ r, op.exec s.chan = .ok r ∧ s' = {
      chan := r.chan
      numbered := s.numbered ++ r.made.map (·.payload)
      unacked := (s.unacked.filter fun e => some e.1 ≠ op.acked) ++
        r.wire.map fun p => (p.getSeqnum, p.payload) } := by
  rw [apply] at h
  rcases hexec : op.exec s.chan with e | r
  · rw [hexec] at h
    exact nomatch h
  · rw [hexec] at h
    exact ⟨r, rfl, (Except.ok.inj h).symm⟩

theorem apply_of_exec {op : SenderOp} {s : Sender} {r : Outcome} (h : op.exec s.chan = .ok r) :
    s.apply op = .ok {
      chan := r.chan
      numbered := s.numbered ++ r.made.map (·.payload)
      unacked := (s.unacked.filter fun e => some e.1 ≠ op.acked) ++
        r.wire.map fun p => (p.getSeqnum, p.payload) } := by
  rw [apply, h]
  rfl

end Sender

section Step

variable {numbered : List SharedBuffer} {chan chan' : Channel} {wire made : List BufferedPacket}
  {acked : Option UInt16}

/-- One operation keeps the invariant, and what it puts on the wire it keeps. -/
theorem SenderInv.step
    (h : SenderInv numbered chan.nextOutgoingSeqnum chan.queuedReliables
      chan.outgoingReliablesSent)
    (hfits : Fits chan.nextOutgoingSeqnum chan.queuedReliables)
    (hs : Sends chan chan' wire made acked) :
    SenderInv (numbered ++ made.map (·.payload)) chan'.nextOutgoingSeqnum chan'.queuedReliables
      chan'.outgoingReliablesSent ∧
    (∀ p ∈ wire, p ∈ chan'.outgoingReliablesSent) ∧
    ∀ p ∈ chan.outgoingReliablesSent, some p.getSeqnum ≠ acked →
      ∃ q ∈ chan'.outgoingReliablesSent, SamePacket p q := by
  cases hs with
  | number env hne hlen hgrant hsent hnext hqueue =>
    rw [map_payload_numbering, hsent, hnext, hqueue]
    exact ⟨h.number hfits env _ hlen hgrant, by simp, fun p hp _ => ⟨p, hp, .refl p⟩⟩
  | direct env data hgrant hlen hnext hqueue hsent =>
    obtain ⟨sent', hins, hmem, hinv⟩ := h.direct hfits env data hgrant hlen
    rw [hnext] at hsent
    obtain rfl := Except.ok.inj (hins.symm.trans hsent)
    have hpay : [makeReliable env data chan.nextOutgoingSeqnum].map (·.payload) = [data] :=
      map_payload_numbering env chan.nextOutgoingSeqnum [data]
    rw [hpay, hnext, hqueue]
    exact ⟨hinv, by simp [hmem], fun p hp _ => ⟨p, (hmem p).mpr (.inr hp), .refl p⟩⟩
  | transmit p hlen hnext hqueue hsent =>
    obtain ⟨n, hn⟩ := h.queued p (by simp [hqueue])
    have hfit := h.lt_of_fits hfits (by simp [hqueue]) hn
    rw [hqueue] at h
    obtain ⟨sent', hins, hmem, hinv⟩ := h.transmit_head hlen hn hfit
    obtain rfl := Except.ok.inj (hins.symm.trans hsent)
    rw [List.map_nil, List.append_nil, hnext]
    exact ⟨hinv, by simp [hmem], fun q hq _ => ⟨q, (hmem q).mpr (.inr hq), .refl q⟩⟩
  | refresh hnext hqueue hsent hwire =>
    rw [List.map_nil, List.append_nil, hnext, hqueue]
    exact ⟨h.refresh hsent, hwire, fun p hp _ => exists_same_mem hsent hp⟩
  | ack seqnum hnext hqueue hsent =>
    rw [List.map_nil, List.append_nil, hnext, hqueue, hsent]
    refine ⟨h.erase List.eraseP_sublist, by simp, fun p hp hne => ⟨p, ?_, .refl p⟩⟩
    refine (List.mem_eraseP_of_neg ?_).mpr hp
    simpa using hne

end Step

namespace Sender

theorem inv_kept_init : Inv {} ∧ Kept {} := ⟨SenderInv.init, by simp [Kept]⟩

theorem inv_kept_step {s s' : Sender} {op : SenderOp} (h : s.Inv ∧ s.Kept) (hfit : s.Fit)
    (hs : s.apply op = .ok s') : s'.Inv ∧ s'.Kept := by
  obtain ⟨hinv, hkept⟩ := h
  obtain ⟨r, hexec, rfl⟩ := apply_eq_ok hs
  obtain ⟨hinv', hwire, hstay⟩ := SenderInv.step hinv hfit (SenderOp.exec_sends hexec)
  refine ⟨hinv', fun e he => ?_⟩
  rcases List.mem_append.mp he with he | he
  · obtain ⟨he, hne⟩ := List.mem_filter.mp he
    obtain ⟨p, hp, hseq, hpay⟩ := hkept e he
    obtain ⟨q, hq, hpq⟩ := hstay p hp (by rw [hseq]; simpa using hne)
    exact ⟨q, hq, hpq.seqnum.trans hseq, hpq.payload.trans hpay⟩
  · obtain ⟨p, hp, rfl⟩ := List.mem_map.mp he
    exact ⟨p, hwire p hp, rfl, rfl⟩

/-- Sending does not throw: `insert` takes the packet. -/
def Sendable (s : Sender) : Prop :=
  (∃ s', s.apply .sendPackets = .ok s') ∧ ∀ env data, ∃ s', s.apply (.rawSend env data) = .ok s'

theorem sendable_of_inv {s : Sender} (h : s.Inv) (hfit : s.Fit) : s.Sendable := by
  have hw := s.chan.windowSize.val.toNat_lt
  constructor
  · suffices hexec : ∃ r, s.chan.sendQueued = .ok r by
      obtain ⟨r, hr⟩ := hexec
      exact ⟨_, apply_of_exec (by rw [SenderOp.exec, hr]; rfl)⟩
    rw [sendQueued]
    split
    · exact ⟨_, rfl⟩
    · rename_i p queue hqueue
      split_ifs with hlen
      · obtain ⟨n, hn⟩ := h.queued p (by simp [hqueue])
        have hlt := h.lt_of_fits hfit (by simp [hqueue]) hn
        rw [Inv, hqueue] at h
        obtain ⟨sent', hins, -, -⟩ := h.transmit_head
          (by simp only [SEQNUM_MAX]; omega) hn hlt
        rw [sendAsPacketReliable]
        dsimp only
        rw [hins]
        exact ⟨_, rfl⟩
      · exact ⟨_, rfl⟩
  · intro env data
    suffices hexec : ∃ r, s.chan.rawSendAsPacket env data = .ok r by
      obtain ⟨r, hr⟩ := hexec
      exact ⟨_, apply_of_exec (by rw [SenderOp.exec, hr]; rfl)⟩
    rw [rawSendAsPacket]
    rcases hget : s.chan.getOutgoingSequenceNumber with ⟨_ | seqnum, chan₁⟩
    · exact ⟨_, rfl⟩
    · have hgrant := granted_of_getOutgoingSequenceNumber hget
      obtain ⟨rfl, rfl, -⟩ := getOutgoingSequenceNumber_eq_some hget
      dsimp only
      split_ifs with hlen
      · have hlen : s.chan.outgoingReliablesSent.length < s.chan.windowSize.val.toNat := hlen
        obtain ⟨sent', hins, -, -⟩ := SenderInv.direct h hfit env data hgrant
          (by simp only [SEQNUM_MAX]; omega)
        have hins : ReliablePacketBuffer.insert (s.chan.skip 1).outgoingReliablesSent
            (makeReliable env data s.chan.nextOutgoingSeqnum)
            (nextExpected (s.chan.skip 1).nextOutgoingSeqnum) = .ok sent' := hins
        rw [sendAsPacketReliable, hins]
        exact ⟨_, rfl⟩
      · exact ⟨_, rfl⟩

/-- In every run in which the queued packets fit before each step, what was sent is kept, and
while they fit nothing that is sent is rejected. -/
theorem kept_of_run {s : Sender} (h : lts.Run (fun s _ => s.Fit) s) :
    s.Kept ∧ (s.Fit → s.Sendable) := by
  have hinv : s.Inv ∧ s.Kept := by
    refine Lts.Run.invariant (I := fun s => s.Inv ∧ s.Kept) ?_ ?_ h
    · rintro s rfl
      exact inv_kept_init
    · exact fun s op s' hI hfit hs => inv_kept_step hI hfit hs
  exact ⟨hinv.2, sendable_of_inv hinv.1⟩

/-! ## A packet that is lost -/

/-- A queued packet that is half a turn behind is sent and not kept. -/
theorem sendQueued_of_not_fit {chan : Channel} {p : BufferedPacket} {queue : List BufferedPacket}
    (hqueue : chan.queuedReliables = p :: queue)
    (hlen : chan.outgoingReliablesSent.length < chan.windowSize.val.toNat)
    (hfar : 0x8000 ≤ serialDist chan.nextOutgoingSeqnum p.getSeqnum) :
    chan.sendQueued = .ok ([p], { chan with queuedReliables := queue }) := by
  simp only [sendQueued, hqueue]
  rw [if_pos hlen, sendAsPacketReliable]
  change (insert chan.outgoingReliablesSent p (nextExpected chan.nextOutgoingSeqnum) >>= _) >>= _ = _
  rw [insert_of_outside (ahead_of_far hfar)]
  rfl

def smallPackets : SendEnv where
  maxPacketSize := 512
  protocolId := 0x4f457403
  peerId := 2
  address := ⟨[127, 0, 0, 1], 30000⟩
  channelnum := 0

def sendCommand (data : SharedBuffer) : ConnectionCommand where
  type := .send
  peerId := PEER_ID_SERVER
  data := data
  reliable := true

def oneQueued : Channel where
  queuedReliables := numbering smallPackets SEQNUM_INITIAL [makeOriginalPacket [0, 42]]
  nextOutgoingSeqnum := 65501

def shortQueued : Sender where
  chan := oneQueued
  numbered := [makeOriginalPacket [0, 42]]

def shortSent : Sender where
  chan := { oneQueued with
    queuedReliables := []
    outgoingReliablesSent := oneQueued.queuedReliables }
  numbered := [makeOriginalPacket [0, 42]]
  unacked := [(SEQNUM_INITIAL, makeOriginalPacket [0, 42])]

theorem apply_shortQueued :
    apply (.command smallPackets (sendCommand [0, 42])) {} = .ok shortQueued := rfl

theorem apply_shortSent : apply .sendPackets shortQueued = .ok shortSent := rfl

theorem fit_shortQueued : shortQueued.Fit :=
  show Fits 65501 oneQueued.queuedReliables by decide

/-- The short payload is queued and sent. -/
theorem kept_of_run_short : ∃ s : Sender, s.unacked = [(SEQNUM_INITIAL, makeOriginalPacket [0, 42])] ∧
    s.Kept ∧ (s.Fit → s.Sendable) := by
  have hrun : lts.Run (fun s _ => s.Fit) shortSent :=
    .step (.step (.init rfl) (by simp [Fit, Fits]) apply_shortQueued) fit_shortQueued
      apply_shortSent
  exact ⟨_, rfl, kept_of_run hrun⟩

/-- The channel once a payload of the given chunks is queued behind it. -/
def longQueued (chunks : List SharedBuffer) : Channel :=
  { oneQueued.skip 0x7FFF with
    queuedReliables := oneQueued.queuedReliables ++ numbering smallPackets 65501 chunks
    nextOutgoingSplitSeqnum := SEQNUM_INITIAL + 1 }

theorem splitCommand_long {data : SharedBuffer} (hdata : data.length = 16219665) (chan : Channel) :
    ∃ chunks, chunks.length = 0x7FFF ∧ splitCommand smallPackets (sendCommand data) chan =
      .ok (chunks, { chan with nextOutgoingSplitSeqnum := chan.nextOutgoingSplitSeqnum + 1 }) := by
  have h502 : (502 : UInt32).toNat = 502 := rfl
  obtain ⟨chunks, hsplit, hlen⟩ : ∃ chunks,
      makeSplitPacket data 502 chan.nextOutgoingSplitSeqnum = some chunks ∧
      chunks.length = (data.length + ((502 : UInt32).toNat - 7) - 1) / ((502 : UInt32).toNat - 7) :=
    makeSplitPacket_isSome (by omega) (by omega) (by rintro rfl; simp at hdata) (by omega)
  rw [hdata, h502] at hlen
  have hauto : makeAutoSplitPacket (sendCommand data).data 502 chan.nextOutgoingSplitSeqnum =
      some (chunks, chan.nextOutgoingSplitSeqnum + 1) := by
    change makeAutoSplitPacket data 502 chan.nextOutgoingSplitSeqnum = _
    rw [makeAutoSplitPacket, if_pos (by omega), hsplit]
    rfl
  have hchunksize : smallPackets.maxPacketSize - UInt32.ofNat BASE_HEADER_SIZE -
      UInt32.ofNat RELIABLE_HEADER_SIZE = 502 := rfl
  refine ⟨chunks, hlen, ?_⟩
  simp only [splitCommand, hchunksize]
  rw [if_neg (by simp [sendCommand])]
  rw [hauto]

/-- A payload of 32767 chunks is queued in one go behind it, which takes the next number half a
turn past the first packet. -/
theorem putReliableSendCommand_long {data : SharedBuffer} (hdata : data.length = 16219665) :
    ∃ chunks, chunks.length = 0x7FFF ∧
      oneQueued.putReliableSendCommand smallPackets (sendCommand data) =
        .ok (longQueued chunks) := by
  obtain ⟨chunks, hlen, hsplitCommand⟩ := splitCommand_long hdata oneQueued
  refine ⟨chunks, hlen, ?_⟩
  rw [longQueued, ← hlen]
  refine putReliableSendCommand_of_empty rfl rfl (by decide) rfl hsplitCommand ?_ (by omega)
  rintro rfl
  simp at hlen

/-- The short packet is then sent, and dropped. -/
theorem not_kept : ¬∀ s, lts.Reach s → s.Kept := by
  intro hkept
  obtain ⟨chunks, hlen, hput⟩ := putReliableSendCommand_long
    (List.length_replicate (n := 16219665) (a := 7))
  have hexec : SenderOp.exec (.command smallPackets
      (sendCommand (List.replicate 16219665 7))) oneQueued =
      .ok { chan := longQueued chunks, made := oneQueued.queuedSince (longQueued chunks) } := by
    rw [SenderOp.exec, hput]
    rfl
  obtain ⟨s₂, h2, hchan⟩ : ∃ s₂, apply (.command smallPackets
      (sendCommand (List.replicate 16219665 7))) shortQueued = .ok s₂ ∧
      s₂.chan = longQueued chunks := ⟨_, apply_of_exec hexec, rfl⟩
  have hsend : (longQueued chunks).sendQueued = .ok
      ([makeReliable smallPackets (makeOriginalPacket [0, 42]) SEQNUM_INITIAL],
        { longQueued chunks with queuedReliables := numbering smallPackets 65501 chunks }) :=
    sendQueued_of_not_fit rfl
      (show ([] : List BufferedPacket).length < (64 : UInt16).toNat by decide)
      (show 0x8000 ≤ serialDist 32732 SEQNUM_INITIAL by decide)
  have hexec' : SenderOp.exec .sendPackets s₂.chan =
      .ok {
        chan := { longQueued chunks with queuedReliables := numbering smallPackets 65501 chunks }
        wire := [makeReliable smallPackets (makeOriginalPacket [0, 42]) SEQNUM_INITIAL] } := by
    rw [SenderOp.exec, hchan, hsend]
    rfl
  have h3 := apply_of_exec hexec'
  have hreach := reach_apply (reach_apply (reach_apply (.init rfl) apply_shortQueued) h2) h3
  obtain ⟨p, hp, -⟩ := hkept _ hreach _ (List.mem_append_right _ (List.mem_singleton_self _))
  cases hp

end Sender

end Freeminer.Mtp
