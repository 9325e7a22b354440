import Freeminer.Mtp.Sender

/-! What the operations on the sending side of a channel do to its next number, its queue and
its packets on the wire. `Sends` lists the possibilities, `exec_sends` says there are no others,
and no later proof looks into the operations again. -/

namespace Freeminer.Mtp

open Lib

namespace Channel

/-- The packets that carry `originals` under the numbers from `next` on. -/
def numbering (env : SendEnv) : UInt16 → List SharedBuffer → List BufferedPacket
  | _, [] => []
  | next, original :: originals => makeReliable env original next :: numbering env (next + 1) originals

/-- The first packet on the wire, if any, was at most a window behind when the last of `n`
numbers was granted. -/
def Granted (chan : Channel) (n : ℕ) : Prop :=
  ∀ p ∈ chan.outgoingReliablesSent.head?,
    serialDist (chan.nextOutgoingSeqnum + UInt16.ofNat n) p.getSeqnum ≤
      MAX_RELIABLE_WINDOW_SIZE_SEND + 2

/-- A command may leave the packets alone, or queue some under the next numbers. -/
def Queues (env : SendEnv) (chan chan' : Channel) : Prop :=
  chan'.outgoingReliablesSent = chan.outgoingReliablesSent ∧
  ((chan'.queuedReliables = chan.queuedReliables ∧
    chan'.nextOutgoingSeqnum = chan.nextOutgoingSeqnum) ∨
  ∃ originals, originals ≠ [] ∧ originals.length < 0x8000 ∧ chan.Granted originals.length ∧
    chan'.nextOutgoingSeqnum = chan.nextOutgoingSeqnum + UInt16.ofNat originals.length ∧
    chan'.queuedReliables =
      chan.queuedReliables ++ numbering env chan.nextOutgoingSeqnum originals)

variable {env : SendEnv} {chan chan' : Channel} {c : ConnectionCommand}
  {originals : List SharedBuffer}

theorem length_numbering (next : UInt16) (originals : List SharedBuffer) :
    (numbering env next originals).length = originals.length := by
  induction originals generalizing next with
  | nil => rfl
  | cons o originals ih => simp [numbering, ih]

theorem granted_of_getOutgoingSequenceNumber {seqnum : UInt16}
    (h : chan.getOutgoingSequenceNumber = (some seqnum, chan')) : chan.Granted 1 := by
  intro p hp
  obtain ⟨-, -, hd⟩ := getOutgoingSequenceNumber_eq_some h
  have hd := hd p hp
  have h1 := chan.nextOutgoingSeqnum.toNat_lt
  have h2 := p.getSeqnum.toNat_lt
  rw [serialDist_eq] at hd ⊢
  simp only [MAX_RELIABLE_WINDOW_SIZE_SEND] at *
  have h3 : (chan.nextOutgoingSeqnum + UInt16.ofNat 1).toNat =
      (chan.nextOutgoingSeqnum.toNat + 1) % 65536 := by
    simp [UInt16.toNat_add]
  omega

/-- The numbers go to the first originals, in order. -/
theorem numberOriginals_spec {have₀ have₁ : Bool} {toadd : List BufferedPacket}
    (h : numberOriginals env have₀ originals chan = (toadd, have₁, chan')) :
    chan' = chan.skip toadd.length ∧ (toadd = [] ∨ chan.Granted toadd.length) ∧
      ∃ taken rest, originals = taken ++ rest ∧
        toadd = numbering env chan.nextOutgoingSeqnum taken ∧
        (have₁ = true → rest = [] ∧ (originals = [] → have₀ = true)) := by
  induction originals generalizing have₀ chan toadd have₁ chan' with
  | nil =>
    simp only [numberOriginals, Prod.mk.injEq] at h
    obtain ⟨rfl, rfl, rfl⟩ := h
    exact ⟨by simp, .inl rfl, [], [], rfl, rfl, fun h => ⟨rfl, fun _ => h⟩⟩
  | cons original originals ih =>
    rw [numberOriginals] at h
    rcases hget : chan.getOutgoingSequenceNumber with ⟨_ | seqnum, chan₁⟩
    · simp only [hget, Prod.mk.injEq] at h
      obtain ⟨rfl, rfl, rfl⟩ := h
      refine ⟨?_, .inl rfl, [], _, rfl, rfl, fun h => nomatch h⟩
      rw [getOutgoingSequenceNumber_eq_none hget]
      simp
    · rw [hget] at h
      have hgrant := granted_of_getOutgoingSequenceNumber hget
      obtain ⟨rfl, rfl, -⟩ := getOutgoingSequenceNumber_eq_some hget
      rcases hrest : numberOriginals env true originals (chan.skip 1) with ⟨toadd₁, have₂, chan₂⟩
      simp only [hrest, Prod.mk.injEq] at h
      obtain ⟨rfl, rfl, rfl⟩ := h
      obtain ⟨rfl, hgrant₁, taken, rest, rfl, rfl, hall⟩ := ih hrest
      refine ⟨?_, .inr ?_, original :: taken, rest, rfl, rfl, fun h => ⟨(hall h).1, nofun⟩⟩
      · rw [skip_skip, List.length_cons, Nat.add_comm]
      · rw [List.length_cons, Nat.add_comm]
        rcases hgrant₁ with hnil | hgrant₁
        · rw [hnil]
          exact hgrant
        · intro p hp
          have := hgrant₁ p hp
          simpa [skip, UInt16.add_assoc] using this

theorem numberOriginals_of_empty {have₀ : Bool} (h : chan.outgoingReliablesSent = []) :
    numberOriginals env have₀ originals chan =
      (numbering env chan.nextOutgoingSeqnum originals, have₀ || !originals.isEmpty,
        chan.skip originals.length) := by
  induction originals generalizing have₀ chan with
  | nil => simp [numberOriginals, numbering]
  | cons original originals ih =>
    have hih := @ih (chan.skip 1) true h
    simp only [numberOriginals, getOutgoingSequenceNumber_of_empty h, hih, skip_skip, numbering,
      List.length_cons, Nat.add_comm 1, Bool.true_or, List.isEmpty_cons, Bool.not_false,
      Bool.or_true]
    rfl

theorem putBackAll_skip (n : ℕ) :
    putBackAll chan.nextOutgoingSeqnum n (chan.skip n) = some chan := by
  induction n with
  | zero => simp [putBackAll]
  | succ n ih =>
    have hn : UInt16.ofNat (n % (SEQNUM_MAX + 1)) = UInt16.ofNat n := by
      apply UInt16.toNat_inj.mp
      simp [SEQNUM_MAX]
    rw [putBackAll, hn, putBackSequenceNumber_skip, Option.bind_some, ih]

/-- Either the originals are all queued under the next numbers, or the channel is as before. -/
theorem queueOriginals_cases {done : Bool}
    (h : queueOriginals env originals chan = .ok (done, chan')) :
    (done = false ∧ chan' = chan) ∨
    (done = true ∧ originals ≠ [] ∧ originals.length < 0x8000 ∧ chan.Granted originals.length ∧
      chan' = { chan.skip originals.length with
        queuedReliables :=
          chan.queuedReliables ++ numbering env chan.nextOutgoingSeqnum originals }) := by
  rw [queueOriginals] at h
  split_ifs at h with hlen
  have hlen : originals.length < 0x8000 := hlen
  rcases hnum : numberOriginals env false originals chan with ⟨toadd, have₁, chan₁⟩
  obtain ⟨rfl, hgrant, taken, rest, rfl, rfl, hall⟩ := numberOriginals_spec hnum
  rw [hnum] at h
  cases have₁ with
  | true =>
    obtain ⟨rfl, hne⟩ := hall rfl
    dsimp only at h
    split_ifs at h
    have htaken : taken ≠ [] := by
      rintro rfl
      exact nomatch hne rfl
    have hgrant : chan.Granted taken.length := by
      rcases hgrant with hnil | hgrant
      · have := congrArg List.length hnil
        rw [length_numbering, List.length_nil] at this
        exact absurd (List.length_eq_zero_iff.mp this) htaken
      · rwa [length_numbering] at hgrant
    obtain ⟨rfl, rfl⟩ := Prod.mk.inj (Except.ok.inj h)
    refine .inr ⟨rfl, by simpa using htaken, hlen, by simpa using hgrant, ?_⟩
    rw [length_numbering, List.append_nil]
    rfl
  | false =>
    left
    cases taken with
    | nil =>
      obtain ⟨rfl, rfl⟩ := Prod.mk.inj (Except.ok.inj h)
      exact ⟨rfl, skip_zero⟩
    | cons original taken =>
      have hfirst : (makeReliable env original chan.nextOutgoingSeqnum).getSeqnum =
          chan.nextOutgoingSeqnum := getSeqnum_makePacket _ _ _ _ _ _
      rw [numbering] at h
      dsimp only at h
      rw [hfirst, ← List.length_cons (a := makeReliable env original chan.nextOutgoingSeqnum),
        putBackAll_skip] at h
      obtain ⟨rfl, rfl⟩ := Prod.mk.inj (Except.ok.inj h)
      exact ⟨rfl, rfl⟩

theorem processReliableSendCommand_cases {done : Bool}
    (h : processReliableSendCommand env c chan = .ok (done, chan')) : Queues env chan chan' := by
  rw [processReliableSendCommand] at h
  split_ifs at h with hpending
  · obtain ⟨-, rfl⟩ := Prod.mk.inj (Except.ok.inj h)
    exact ⟨rfl, .inl ⟨rfl, rfl⟩⟩
  rcases hsplit : splitCommand env c chan with e | ⟨originals, chan₁⟩
  · rw [hsplit] at h
    cases h
  rw [hsplit] at h
  have hchan₁ : ∃ n, chan₁ = { chan with nextOutgoingSplitSeqnum := n } := by
    simp only [splitCommand] at hsplit
    split_ifs at hsplit
    · exact ⟨chan.nextOutgoingSplitSeqnum, (Prod.mk.inj (Except.ok.inj hsplit)).2.symm⟩
    · split at hsplit
      · exact nomatch hsplit
      · exact ⟨_, (Prod.mk.inj (Except.ok.inj hsplit)).2.symm⟩
  obtain ⟨n, rfl⟩ := hchan₁
  rcases queueOriginals_cases h with ⟨-, rfl⟩ | ⟨-, hne, hlen, hgrant, rfl⟩
  · exact ⟨rfl, .inl ⟨rfl, rfl⟩⟩
  · exact ⟨rfl, .inr ⟨originals, hne, hlen, hgrant, rfl, rfl⟩⟩

/-- While nothing is unacked, numbers are granted without limit. -/
theorem putReliableSendCommand_of_empty {split : UInt16} (hpending : env.pendingDisconnect = false)
    (hcommands : chan.queuedCommands = [])
    (hgate : chan.queuedReliables.length + 1 < chan.windowSize.val.toNat / 2)
    (hempty : chan.outgoingReliablesSent = [])
    (hsplit : splitCommand env c chan =
      .ok (originals, { chan with nextOutgoingSplitSeqnum := split }))
    (hne : originals ≠ []) (hlen : originals.length < 0x8000) :
    putReliableSendCommand env c chan = .ok { chan.skip originals.length with
      queuedReliables := chan.queuedReliables ++ numbering env chan.nextOutgoingSeqnum originals
      nextOutgoingSplitSeqnum := split } := by
  have hw := chan.windowSize.le_max
  have hqueue : queueOriginals env originals { chan with nextOutgoingSplitSeqnum := split } =
      .ok (true, { chan.skip originals.length with
        queuedReliables := chan.queuedReliables ++ numbering env chan.nextOutgoingSeqnum originals
        nextOutgoingSplitSeqnum := split }) := by
    have hmax : MAX_RELIABLE_WINDOW_SIZE.toNat = 0x8000 := rfl
    have hnumber := @numberOriginals_of_empty env { chan with nextOutgoingSplitSeqnum := split }
      originals false hempty
    rw [queueOriginals, if_neg (by omega), hnumber]
    have hisEmpty : originals.isEmpty = false := by simpa using hne
    simp only [hisEmpty, Bool.not_false, Bool.or_true]
    rw [if_neg]
    · rfl
    · simp only [MAX_RELIABLE_WINDOW_SIZE_SEND] at hw
      change ¬¬(chan.queuedReliables ++ numbering env chan.nextOutgoingSeqnum originals).length < _
      rw [List.length_append, length_numbering]
      omega
  rw [putReliableSendCommand, if_neg (by simp [hpending]), if_pos ⟨hcommands, hgate⟩,
    processReliableSendCommand, if_neg (by simp [hpending]), hsplit]
  simp only [bind, Except.bind, hqueue]
  rfl

theorem putReliableSendCommand_cases (h : putReliableSendCommand env c chan = .ok chan') :
    Queues env chan chan' := by
  rw [putReliableSendCommand] at h
  split_ifs at h
  · obtain rfl := Except.ok.inj h
    exact ⟨rfl, .inl ⟨rfl, rfl⟩⟩
  · rcases hproc : processReliableSendCommand env c chan with e | ⟨done, chan₁⟩
    · rw [hproc] at h
      cases h
    · rw [hproc] at h
      obtain rfl := Except.ok.inj h
      have := processReliableSendCommand_cases hproc
      split <;> exact this
  · obtain rfl := Except.ok.inj h
    exact ⟨rfl, .inl ⟨rfl, rfl⟩⟩

theorem runCommandQueue_cases {maxtransfer : ℕ}
    (h : runCommandQueue env maxtransfer chan = .ok chan') : Queues env chan chan' := by
  rw [runCommandQueue] at h
  split at h
  · obtain rfl := Except.ok.inj h
    exact ⟨rfl, .inl ⟨rfl, rfl⟩⟩
  · split_ifs at h
    · rename_i c _ _ _
      rcases hproc : processReliableSendCommand env c chan with e | ⟨done, chan₁⟩
      · rw [hproc] at h
        cases h
      · rw [hproc] at h
        obtain rfl := Except.ok.inj h
        have := processReliableSendCommand_cases hproc
        split <;> exact this
    · obtain rfl := Except.ok.inj h
      exact ⟨rfl, .inl ⟨rfl, rfl⟩⟩

end Channel

/-! ## Operations -/

/-- What the send thread does with a channel, and the arrival of an ack. -/
inductive SenderOp where
  | command (env : SendEnv) (c : ConnectionCommand)
  | runCommandQueues (env : SendEnv) (maxtransfer : ℕ)
  | rawSend (env : SendEnv) (data : SharedBuffer)
  | sendPackets
  | runTimeouts (expired : BufferedPacket → Bool) (quota : ℕ) (halfOpen : Bool)
  | resendOne
  | setWindowSize (size : ℤ)
  | fixPeerId (newId : SessionT)
  | ack (seqnum : UInt16)

/-- The channel after an operation, the packets it put on the wire, and the packets that got
their numbers in it. -/
structure Outcome where
  chan : Channel
  wire : List BufferedPacket := []
  made : List BufferedPacket := []

def Channel.queuedSince (chan chan' : Channel) : List BufferedPacket :=
  chan'.queuedReliables.drop chan.queuedReliables.length

def SenderOp.exec : SenderOp → Channel → Except ConException Outcome
  | .command env c, chan => do
    let chan' ← chan.putReliableSendCommand env c
    pure { chan := chan', made := chan.queuedSince chan' }
  | .runCommandQueues env maxtransfer, chan => do
    let chan' ← chan.runCommandQueue env maxtransfer
    pure { chan := chan', made := chan.queuedSince chan' }
  | .rawSend env data, chan => do
    let (_, wire, chan') ← chan.rawSendAsPacket env data
    pure { chan := chan', wire, made := wire ++ chan.queuedSince chan' }
  | .sendPackets, chan => do
    let (wire, chan') ← chan.sendQueued
    pure { chan := chan', wire }
  | .runTimeouts expired quota halfOpen, chan =>
    let (wire, chan') := chan.resendTimedOuts expired quota halfOpen
    .ok { chan := chan', wire }
  | .resendOne, chan =>
    let (wire, chan') := chan.resendOne
    .ok { chan := chan', wire }
  | .setWindowSize size, chan => .ok { chan := chan.setWindowSize size }
  | .fixPeerId newId, chan => .ok { chan := chan.fixPeerId newId }
  | .ack seqnum, chan => .ok { chan := chan.ackReceived seqnum }

def SenderOp.acked : SenderOp → Option UInt16
  | .ack seqnum => some seqnum
  | _ => none

open Channel ReliablePacketBuffer

/-- All that an operation can do: the channels before and after, the packets put on the wire,
the packets made, and the number acked. -/
inductive Sends (chan chan' : Channel) :
    List BufferedPacket → List BufferedPacket → Option UInt16 → Prop
  | number {originals : List SharedBuffer} (env : SendEnv) (hne : originals ≠ [])
      (hlen : originals.length < 0x8000) (hgrant : chan.Granted originals.length)
      (hsent : chan'.outgoingReliablesSent = chan.outgoingReliablesSent)
      (hnext : chan'.nextOutgoingSeqnum = chan.nextOutgoingSeqnum + UInt16.ofNat originals.length)
      (hqueue : chan'.queuedReliables =
        chan.queuedReliables ++ numbering env chan.nextOutgoingSeqnum originals) :
      Sends chan chan' [] (numbering env chan.nextOutgoingSeqnum originals) none
  | direct (env : SendEnv) (data : SharedBuffer) (hgrant : chan.Granted 1)
      (hlen : chan.outgoingReliablesSent.length ≤ SEQNUM_MAX)
      (hnext : chan'.nextOutgoingSeqnum = chan.nextOutgoingSeqnum + 1)
      (hqueue : chan'.queuedReliables = chan.queuedReliables)
      (hsent : chan.outgoingReliablesSent.insert
        (makeReliable env data chan.nextOutgoingSeqnum) (nextExpected chan'.nextOutgoingSeqnum) =
          .ok chan'.outgoingReliablesSent) :
      Sends chan chan' [makeReliable env data chan.nextOutgoingSeqnum]
        [makeReliable env data chan.nextOutgoingSeqnum] none
  | transmit (p : BufferedPacket) (hlen : chan.outgoingReliablesSent.length ≤ SEQNUM_MAX)
      (hnext : chan'.nextOutgoingSeqnum = chan.nextOutgoingSeqnum)
      (hqueue : chan.queuedReliables = p :: chan'.queuedReliables)
      (hsent : chan.outgoingReliablesSent.insert p (nextExpected chan.nextOutgoingSeqnum) =
        .ok chan'.outgoingReliablesSent) : Sends chan chan' [p] [] none
  | refresh {wire : List BufferedPacket}
      (hnext : chan'.nextOutgoingSeqnum = chan.nextOutgoingSeqnum)
      (hqueue : chan'.queuedReliables = chan.queuedReliables)
      (hsent : List.Forall₂ SamePacket chan.outgoingReliablesSent chan'.outgoingReliablesSent)
      (hwire : ∀ p ∈ wire, p ∈ chan'.outgoingReliablesSent) : Sends chan chan' wire [] none
  | ack (seqnum : UInt16) (hnext : chan'.nextOutgoingSeqnum = chan.nextOutgoingSeqnum)
      (hqueue : chan'.queuedReliables = chan.queuedReliables)
      (hsent : chan'.outgoingReliablesSent =
        chan.outgoingReliablesSent.eraseP fun p => p.getSeqnum == seqnum) :
      Sends chan chan' [] [] (some seqnum)

variable {env : SendEnv} {chan chan' : Channel}

theorem Channel.Queues.sends (h : Queues env chan chan') :
    Sends chan chan' [] (chan.queuedSince chan') none := by
  obtain ⟨hsent, ⟨hqueue, hnext⟩ | ⟨originals, hne, hlen, hgrant, hnext, hqueue⟩⟩ := h
  · rw [queuedSince, hqueue, List.drop_length]
    exact .refresh hnext hqueue (hsent ▸ SamePacket.refl_list _) (by simp)
  · rw [queuedSince, hqueue, List.drop_left]
    exact .number env hne hlen hgrant hsent hnext hqueue

theorem Channel.sendAsPacketReliable_eq_ok {p : BufferedPacket}
    (h : chan.sendAsPacketReliable p = .ok chan') :
    ∃ sent, chan.outgoingReliablesSent.insert p (nextExpected chan.nextOutgoingSeqnum) = .ok sent ∧
      chan' = { chan with outgoingReliablesSent := sent } := by
  rw [sendAsPacketReliable] at h
  rcases hins : chan.outgoingReliablesSent.insert p (nextExpected chan.nextOutgoingSeqnum)
    with e | sent
  · rw [hins] at h
    cases h
  · rw [hins] at h
    exact ⟨sent, rfl, (Except.ok.inj h).symm⟩

theorem Channel.ackReceived_outgoing (seqnum : UInt16) (chan : Channel) :
    chan.ackReceived seqnum = { chan with
      outgoingReliablesSent :=
        chan.outgoingReliablesSent.eraseP fun p => p.getSeqnum == seqnum } := by
  rw [ackReceived]
  split <;> rename_i hpop
  · rw [List.eraseP_of_forall_not]
    simpa using popSeqnum_eq_none.mp hpop
  · obtain ⟨p, -, hp⟩ := Option.map_eq_some_iff.mp hpop
    obtain ⟨-, rfl⟩ := Prod.mk.inj hp
    rfl

theorem SenderOp.exec_sends {op : SenderOp} {r : Outcome} (h : op.exec chan = .ok r) :
    Sends chan r.chan r.wire r.made op.acked := by
  cases op with
  | command env c =>
    rcases hput : chan.putReliableSendCommand env c with e | chan'
    · rw [exec, hput] at h
      cases h
    · rw [exec, hput] at h
      obtain rfl := Except.ok.inj h
      exact (putReliableSendCommand_cases hput).sends
  | runCommandQueues env maxtransfer =>
    rcases hrun : chan.runCommandQueue env maxtransfer with e | chan'
    · rw [exec, hrun] at h
      cases h
    · rw [exec, hrun] at h
      obtain rfl := Except.ok.inj h
      exact (runCommandQueue_cases hrun).sends
  | rawSend env data =>
    simp only [exec, rawSendAsPacket] at h
    rcases hget : chan.getOutgoingSequenceNumber with ⟨_ | seqnum, chan₁⟩
    · rw [hget] at h
      obtain rfl := getOutgoingSequenceNumber_eq_none hget
      obtain rfl := Except.ok.inj h
      rw [queuedSince, List.drop_length]
      exact .refresh rfl rfl (SamePacket.refl_list _) (by simp)
    · rw [hget] at h
      have hgrant := granted_of_getOutgoingSequenceNumber hget
      obtain ⟨rfl, rfl, -⟩ := getOutgoingSequenceNumber_eq_some hget
      dsimp only at h
      split_ifs at h with hlen
      · rcases hsend : (chan.skip 1).sendAsPacketReliable
          (makeReliable env data chan.nextOutgoingSeqnum) with e | chan₂
        · rw [hsend] at h
          cases h
        · rw [hsend] at h
          obtain rfl := Except.ok.inj h
          obtain ⟨sent, hins, rfl⟩ := sendAsPacketReliable_eq_ok hsend
          have hmax : chan.outgoingReliablesSent.length ≤ SEQNUM_MAX := by
            have hw := chan.windowSize.val.toNat_lt
            have hlen : chan.outgoingReliablesSent.length < chan.windowSize.val.toNat := hlen
            simp only [SEQNUM_MAX]
            omega
          have hq : chan.queuedSince { chan.skip 1 with outgoingReliablesSent := sent } = [] :=
            List.drop_length
          rw [hq]
          exact .direct env data hgrant hmax rfl rfl hins
      · obtain rfl := Except.ok.inj h
        have hq : chan.queuedSince { chan.skip 1 with queuedReliables := chan.queuedReliables ++
            [makeReliable env data chan.nextOutgoingSeqnum] } =
            numbering env chan.nextOutgoingSeqnum [data] := List.drop_left
        rw [List.nil_append]
        exact hq ▸ .number env (by simp) (by simp) hgrant rfl rfl rfl
  | sendPackets =>
    simp only [exec, sendQueued] at h
    split at h <;> rename_i hqueue
    · obtain rfl := Except.ok.inj h
      exact .refresh rfl rfl (SamePacket.refl_list _) (by simp)
    · rename_i p queued
      split_ifs at h with hlen
      · rcases hsend : sendAsPacketReliable p { chan with queuedReliables := queued }
          with e | chan₂
        · rw [hsend] at h
          cases h
        · rw [hsend] at h
          obtain rfl := Except.ok.inj h
          obtain ⟨sent, hins, rfl⟩ := sendAsPacketReliable_eq_ok hsend
          have hw := chan.windowSize.val.toNat_lt
          exact .transmit p (by simp only [SEQNUM_MAX]; omega) rfl hqueue hins
      · obtain rfl := Except.ok.inj h
        exact .refresh rfl rfl (SamePacket.refl_list _) (by simp)
  | runTimeouts expired quota halfOpen =>
    obtain rfl := Except.ok.inj h
    refine .refresh rfl rfl (getResendFrom_same expired quota 0 _) fun p hp => ?_
    dsimp only at hp
    split_ifs at hp
    · simp at hp
    · exact mem_getResendFrom hp
  | resendOne =>
    obtain rfl := Except.ok.inj h
    refine .refresh rfl rfl (getResendFrom_same (fun _ => true) 1 0 _) fun p hp => ?_
    exact mem_getResendFrom (List.mem_of_mem_filter hp)
  | setWindowSize size =>
    obtain rfl := Except.ok.inj h
    exact .refresh rfl rfl (SamePacket.refl_list _) (by simp)
  | fixPeerId newId =>
    obtain rfl := Except.ok.inj h
    exact .refresh rfl rfl (fixPeerId_same newId _) (by simp)
  | ack seqnum =>
    obtain rfl := Except.ok.inj h
    rw [ackReceived_outgoing]
    exact .ack seqnum rfl rfl rfl

/-! The invariant of the sending side: every packet queued or kept on the wire carries the
payload that was given its number, and what is on the wire is less than half a turn behind the
next number. It holds as long as the same is true of the queue (`Fits`). -/

/-- `p` is the `n`th packet numbered, and fewer than a turn of numbers were given since. -/
structure HasNumber (numbered : List SharedBuffer) (n : ℕ) (p : BufferedPacket) : Prop where
  reliable : p.IsReliable
  seqnum : p.getSeqnum = seqnumOf n
  payload : numbered[n]? = some p.payload
  recent : numbered.length < n + 65536

variable {numbered : List SharedBuffer} {m n : ℕ} {p q : BufferedPacket}

theorem HasNumber.lt (h : HasNumber numbered n p) : n < numbered.length :=
  (List.getElem?_eq_some_iff.mp h.payload).1

theorem HasNumber.eq_of_seqnum (hp : HasNumber numbered m p) (hq : HasNumber numbered n q)
    (h : p.getSeqnum = q.getSeqnum) : m = n := by
  have h1 := hp.lt
  have h2 := hq.lt
  have h3 := hp.recent
  have h4 := hq.recent
  rw [hp.seqnum, hq.seqnum] at h
  exact seqnumOf_inj h (by omega) (by omega)

theorem HasNumber.unique (hp : HasNumber numbered m p) (hq : HasNumber numbered n p) : m = n :=
  hp.eq_of_seqnum hq rfl

theorem HasNumber.append (h : HasNumber numbered n p) (l : List SharedBuffer)
    (hrecent : numbered.length + l.length < n + 65536) : HasNumber (numbered ++ l) n p where
  reliable := h.reliable
  seqnum := h.seqnum
  payload := by rw [List.getElem?_append_left h.lt, h.payload]
  recent := by rwa [List.length_append]

theorem HasNumber.same (h : HasNumber numbered n p) (hpq : SamePacket p q) :
    HasNumber numbered n q where
  reliable := hpq.reliable h.reliable
  seqnum := hpq.seqnum.trans h.seqnum
  payload := by rw [hpq.payload, h.payload]
  recent := h.recent

/-- How far a packet is behind the next number. -/
theorem HasNumber.behind (h : HasNumber numbered n p) :
    serialDist (seqnumOf numbered.length) p.getSeqnum = numbered.length - n := by
  rw [h.seqnum, serialDist_seqnumOf h.lt.le h.recent]

/-- The remainder of `sendAsPacketReliable` never reduces anything. -/
theorem nextExpected_eq (s : UInt16) : nextExpected s = s + UInt16.ofNat 0x8000 := by
  have hs := s.toNat_lt
  have htmod : ((s.toNat : ℤ) - 0x8000).tmod (0x8000 + 1) = (s.toNat : ℤ) - 0x8000 := by
    rcases Int.le_total 0 ((s.toNat : ℤ) - 0x8000) with h | h
    · exact Int.tmod_eq_of_lt h (by omega)
    · rw [← Int.neg_inj, ← Int.neg_tmod]
      exact Int.tmod_eq_of_lt (by omega) (by omega)
  have hmax : (MAX_RELIABLE_WINDOW_SIZE.toNat : ℤ) = 0x8000 := rfl
  rw [nextExpected, hmax, htmod]
  apply UInt16.toNat_inj.mp
  rw [UInt16.ofInt, UInt16.toNat_ofNat', UInt16.toNat_add, UInt16.toNat_ofNat']
  omega

theorem nextExpected_seqnumOf (n : ℕ) : nextExpected (seqnumOf n) = seqnumOf (n + 0x8000) := by
  rw [nextExpected_eq, seqnumOf_add]

/-- A packet half a turn or more behind the next number is outside what `insert` takes. -/
theorem ahead_of_far {next : UInt16} (h : 0x8000 ≤ serialDist next p.getSeqnum) :
    ahead (nextExpected next) p = 0 ∨ 0x8000 ≤ ahead (nextExpected next) p := by
  have h1 := next.toNat_lt
  have h2 := p.getSeqnum.toNat_lt
  rw [serialDist_eq] at h
  rw [ahead, serialDist_eq, nextExpected_eq, UInt16.toNat_add, UInt16.toNat_ofNat']
  omega

/-- `insert` orders the packets on the wire by their numbers. -/
theorem HasNumber.ahead (h : HasNumber numbered n p) (hfit : numbered.length < n + 0x8000) :
    ahead (nextExpected (seqnumOf numbered.length)) p = n + 0x8000 - numbered.length := by
  have hn := h.lt
  rw [ReliablePacketBuffer.ahead, h.seqnum, nextExpected_seqnumOf,
    serialDist_seqnumOf_behind (by omega) (by omega)]
  omega

/-- The invariant, for the next number, the queue and the packets on the wire. -/
structure SenderInv (numbered : List SharedBuffer) (next : UInt16)
    (queue sent : List BufferedPacket) : Prop where
  next_eq : next = seqnumOf numbered.length
  queued : ∀ p ∈ queue, ∃ n, HasNumber numbered n p
  fit : ∀ p ∈ sent, ∃ n, HasNumber numbered n p ∧ numbered.length < n + 0x8000
  order : Increasing (ReliablePacketBuffer.ahead (nextExpected next)) sent
  distinct : ((queue ++ sent).map (·.getSeqnum)).Nodup

theorem SenderInv.init : SenderInv [] SEQNUM_INITIAL [] [] where
  next_eq := rfl
  queued := by simp
  fit := by simp
  order := .nil
  distinct := by simp

section Numbering

variable {env : SendEnv} {originals : List SharedBuffer}

variable (env) in
theorem map_payload_numbering (next : UInt16) (originals : List SharedBuffer) :
    (numbering env next originals).map (·.payload) = originals := by
  induction originals generalizing next with
  | nil => rfl
  | cons o originals ih =>
    rw [numbering, List.map_cons, ih, makeReliable, payload_makePacket]

theorem getElem_numbering (next : UInt16) {i : ℕ} (hi : i < originals.length) :
    (numbering env next originals)[i]? =
      some (makeReliable env originals[i] (next + UInt16.ofNat i)) := by
  induction originals generalizing next i with
  | nil => simp at hi
  | cons o originals ih =>
    cases i with
    | zero => simp [numbering]
    | succ i =>
      have hsucc : UInt16.ofNat (i + 1) = 1 + UInt16.ofNat i := by
        rw [Nat.add_comm, UInt16.ofNat_add]
        rfl
      rw [numbering, List.getElem?_cons_succ, ih _ (by simpa using hi), List.getElem_cons_succ,
        UInt16.add_assoc, hsucc]

/-- The packets just numbered have the numbers from `numbered.length` on. -/
theorem hasNumber_of_getElem {i : ℕ} (hlen : originals.length < 0x8000)
    (hp : (numbering env (seqnumOf numbered.length) originals)[i]? = some p) :
    HasNumber (numbered ++ originals) (numbered.length + i) p := by
  obtain ⟨hi, -⟩ := List.getElem?_eq_some_iff.mp hp
  rw [length_numbering] at hi
  rw [getElem_numbering _ hi, seqnumOf_add] at hp
  obtain rfl := Option.some.inj hp
  refine ⟨isReliable_makePacket _ _ _ _ _ _, getSeqnum_makePacket _ _ _ _ _ _, ?_, ?_⟩
  · rw [List.getElem?_append_right (by omega), Nat.add_sub_cancel_left,
      List.getElem?_eq_getElem hi, makeReliable, payload_makePacket]
  · rw [List.length_append]
    omega

theorem hasNumber_numbering (hlen : originals.length < 0x8000)
    (hp : p ∈ numbering env (seqnumOf numbered.length) originals) :
    ∃ i < originals.length, HasNumber (numbered ++ originals) (numbered.length + i) p := by
  obtain ⟨i, hget⟩ := List.mem_iff_getElem?.mp hp
  have hi := (List.getElem?_eq_some_iff.mp hget).1
  rw [length_numbering] at hi
  exact ⟨i, hi, hasNumber_of_getElem hlen hget⟩

theorem map_getSeqnum_numbering (N : ℕ) (originals : List SharedBuffer) :
    (numbering env (seqnumOf N) originals).map (·.getSeqnum) =
      (List.range' N originals.length).map seqnumOf := by
  induction originals generalizing N with
  | nil => rfl
  | cons o originals ih =>
    rw [numbering, List.map_cons, seqnumOf_succ, ih, makeReliable, getSeqnum_makePacket,
      List.length_cons, List.range'_succ, List.map_cons]

theorem nodup_numbering (N : ℕ) (hlen : originals.length < 0x8000) :
    ((numbering env (seqnumOf N) originals).map (·.getSeqnum)).Nodup := by
  rw [map_getSeqnum_numbering]
  refine List.Nodup.map_on (fun m hm n hn hmn => ?_) List.nodup_range'
  rw [List.mem_range'_1] at hm hn
  exact seqnumOf_inj hmn (by omega) (by omega)

end Numbering

/-! ## Preservation -/

variable {next : UInt16} {queue sent : List BufferedPacket}

/-- The packets queued are less than half a turn behind the next number. -/
def Fits (next : UInt16) (queue : List BufferedPacket) : Prop :=
  ∀ p ∈ queue, serialDist next p.getSeqnum < 0x8000

instance : DecidablePred (Fits next) := fun _ => List.decidableBAll _ _

theorem SenderInv.lt_of_fits (h : SenderInv numbered next queue sent) (hfits : Fits next queue)
    (hp : p ∈ queue) (hn : HasNumber numbered n p) : numbered.length < n + 0x8000 := by
  have hd := hfits p hp
  rw [h.next_eq, hn.behind] at hd
  omega

/-- The first packet on the wire has the least number. -/
theorem SenderInv.le_of_head (h : SenderInv numbered next queue sent) (hp : p ∈ sent.head?)
    (hm : HasNumber numbered m p) (hq : q ∈ sent) (hn : HasNumber numbered n q) : m ≤ n := by
  cases sent with
  | nil => simp at hq
  | cons a sent =>
    obtain rfl : a = p := by simpa using hp
    rcases List.mem_cons.mp hq with rfl | hq
    · exact (hm.unique hn).le
    · have hlt := (List.pairwise_cons.mp h.order).1 q hq
      obtain ⟨m', hm', hfitm⟩ := h.fit a (by simp)
      obtain ⟨n', hn', hfitn⟩ := h.fit q (by simp [hq])
      obtain rfl := hm.unique hm'
      obtain rfl := hn.unique hn'
      rw [h.next_eq, hm.ahead hfitm, hn.ahead hfitn] at hlt
      have := hm.lt
      omega

/-- Numbers given to queued packets keep the invariant. -/
theorem SenderInv.number (h : SenderInv numbered next queue sent) (hfits : Fits next queue)
    (env : SendEnv) (originals : List SharedBuffer) (hlen : originals.length < 0x8000)
    (hgrant : ∀ p ∈ sent.head?, serialDist (next + UInt16.ofNat originals.length) p.getSeqnum ≤
      MAX_RELIABLE_WINDOW_SIZE_SEND + 2) :
    SenderInv (numbered ++ originals) (next + UInt16.ofNat originals.length)
      (queue ++ numbering env next originals) sent := by
  have hnext : next + UInt16.ofNat originals.length =
      seqnumOf (numbered ++ originals).length := by
    rw [h.next_eq, seqnumOf_add, List.length_append]
  -- the first packet on the wire bounds the others
  have hsent : ∀ p ∈ sent, ∃ n, HasNumber numbered n p ∧
      numbered.length + originals.length < n + 0x8000 := by
    intro p hp
    obtain ⟨n, hn, hfit⟩ := h.fit p hp
    refine ⟨n, hn, ?_⟩
    obtain ⟨a, ha⟩ : ∃ a, a ∈ sent.head? := by
      cases sent with
      | nil => simp at hp
      | cons a sent => exact ⟨a, rfl⟩
    obtain ⟨m, hm, hfitm⟩ := h.fit a (List.mem_of_mem_head? ha)
    have hle := h.le_of_head ha hm hp hn
    have hgrant := hgrant a ha
    have := hm.lt
    rw [h.next_eq, hm.seqnum, seqnumOf_add, serialDist_seqnumOf (by omega) (by omega)] at hgrant
    simp only [MAX_RELIABLE_WINDOW_SIZE_SEND] at hgrant
    omega
  have hqueue : ∀ p ∈ queue, ∃ n < numbered.length, HasNumber (numbered ++ originals) n p := by
    intro p hp
    obtain ⟨n, hn⟩ := h.queued p hp
    have hfit := h.lt_of_fits hfits hp hn
    exact ⟨n, hn.lt, hn.append _ (by omega)⟩
  have hsent' : ∀ p ∈ sent, ∃ n < numbered.length, HasNumber (numbered ++ originals) n p ∧
      (numbered ++ originals).length < n + 0x8000 := by
    intro p hp
    obtain ⟨n, hn, hfit⟩ := hsent p hp
    exact ⟨n, hn.lt, hn.append _ (by omega), by rwa [List.length_append]⟩
  refine ⟨hnext, ?_, fun p hp => ?_, ?_, ?_⟩
  · intro p hp
    rcases List.mem_append.mp hp with hp | hp
    · obtain ⟨n, -, hn⟩ := hqueue p hp
      exact ⟨n, hn⟩
    · rw [h.next_eq] at hp
      obtain ⟨i, -, hi⟩ := hasNumber_numbering hlen hp
      exact ⟨_, hi⟩
  · obtain ⟨n, -, hn⟩ := hsent' p hp
    exact ⟨n, hn⟩
  · refine h.order.imp_of_mem fun {p q} hp hq hlt => ?_
    obtain ⟨m, hm, hfitm⟩ := hsent p hp
    obtain ⟨n, hn, hfitn⟩ := hsent q hq
    have h1 := hm.lt
    have h2 := hn.lt
    rw [h.next_eq, hm.ahead (by omega), hn.ahead (by omega)] at hlt
    rw [hnext, (hm.append _ (by omega)).ahead (by rwa [List.length_append]),
      (hn.append _ (by omega)).ahead (by rwa [List.length_append])]
    rw [List.length_append]
    omega
  · have hperm : (queue ++ numbering env next originals ++ sent).Perm
        (queue ++ sent ++ numbering env next originals) := by
      rw [List.append_assoc, List.append_assoc]
      exact List.perm_append_comm.append_left queue
    rw [(hperm.map _).nodup_iff, List.map_append, List.nodup_append]
    refine ⟨h.distinct, h.next_eq ▸ nodup_numbering _ hlen, ?_⟩
    rintro _ hold _ hnew heq
    obtain ⟨p, hp, rfl⟩ := List.mem_map.mp hold
    obtain ⟨q, hq, rfl⟩ := List.mem_map.mp hnew
    obtain ⟨n, hlt, hn⟩ : ∃ n < numbered.length, HasNumber (numbered ++ originals) n p := by
      rcases List.mem_append.mp hp with hp | hp
      · exact hqueue p hp
      · obtain ⟨n, hlt, hn, -⟩ := hsent' p hp
        exact ⟨n, hlt, hn⟩
    rw [h.next_eq] at hq
    obtain ⟨i, -, hi⟩ := hasNumber_numbering hlen hq
    have := hn.eq_of_seqnum hi heq
    omega

/-- A packet that is less than half a turn behind goes from the queue to the wire. -/
theorem SenderInv.transmit {l₁ l₂ : List BufferedPacket}
    (h : SenderInv numbered next (l₁ ++ p :: l₂) sent) (hlen : sent.length ≤ SEQNUM_MAX)
    (hn : HasNumber numbered n p) (hfit : numbered.length < n + 0x8000) :
    ∃ sent', ReliablePacketBuffer.insert sent p (nextExpected next) = .ok sent' ∧
      (∀ q, q ∈ sent' ↔ q = p ∨ q ∈ sent) ∧ SenderInv numbered next (l₁ ++ l₂) sent' := by
  have hperm : (l₁ ++ p :: l₂ ++ sent).Perm (p :: (l₁ ++ l₂ ++ sent)) := by
    rw [List.append_assoc, List.append_assoc]
    exact List.perm_middle
  have hdist := (hperm.map (·.getSeqnum)).nodup_iff.mp h.distinct
  rw [List.map_cons, List.nodup_cons] at hdist
  have hnew : ∀ q ∈ sent, q.getSeqnum ≠ p.getSeqnum := by
    intro q hq heq
    exact hdist.1 (List.mem_map.mpr ⟨q, List.mem_append_right _ hq, heq⟩)
  have hahead : ReliablePacketBuffer.ahead (nextExpected next) p =
      n + 0x8000 - numbered.length := by
    rw [h.next_eq, hn.ahead hfit]
  have hlt := hn.lt
  refine ⟨_, insert_of_new hn.reliable (by omega) (by omega) hlen hnew,
    fun q => mem_insertByKey, h.next_eq, ?_, ?_, ?_, ?_⟩
  · intro q hq
    exact h.queued q (by
      rcases List.mem_append.mp hq with hq | hq
      · exact List.mem_append_left _ hq
      · exact List.mem_append_right _ (List.mem_cons_of_mem _ hq))
  · intro q hq
    rcases mem_insertByKey.mp hq with rfl | hq
    · exact ⟨n, hn, hfit⟩
    · exact h.fit q hq
  · refine h.order.insertByKey fun q hq heq => hnew q hq ?_
    exact serialDist_left_inj heq
  · have hperm' : (l₁ ++ l₂ ++
        insertByKey (ReliablePacketBuffer.ahead (nextExpected next)) p sent).Perm
        (l₁ ++ p :: l₂ ++ sent) :=
      ((insertByKey_perm.append_left (l₁ ++ l₂)).trans List.perm_middle).trans hperm.symm
    exact (hperm'.map _).nodup_iff.mpr h.distinct

theorem SenderInv.transmit_head (h : SenderInv numbered next (p :: queue) sent)
    (hlen : sent.length ≤ SEQNUM_MAX) (hn : HasNumber numbered n p)
    (hfit : numbered.length < n + 0x8000) :
    ∃ sent', ReliablePacketBuffer.insert sent p (nextExpected next) = .ok sent' ∧
      (∀ q, q ∈ sent' ↔ q = p ∨ q ∈ sent) ∧ SenderInv numbered next queue sent' :=
  SenderInv.transmit (show SenderInv numbered next ([] ++ p :: queue) sent from h) hlen hn hfit

/-- A packet may be sent as soon as it has its number. -/
theorem SenderInv.direct (h : SenderInv numbered next queue sent) (hfits : Fits next queue)
    (env : SendEnv) (data : SharedBuffer)
    (hgrant : ∀ p ∈ sent.head?, serialDist (next + UInt16.ofNat 1) p.getSeqnum ≤
      MAX_RELIABLE_WINDOW_SIZE_SEND + 2) (hlen : sent.length ≤ SEQNUM_MAX) :
    ∃ sent', ReliablePacketBuffer.insert sent (makeReliable env data next)
        (nextExpected (next + 1)) = .ok sent' ∧
      (∀ q, q ∈ sent' ↔ q = makeReliable env data next ∨ q ∈ sent) ∧
      SenderInv (numbered ++ [data]) (next + 1) queue sent' := by
  have hnumber := h.number hfits env [data] (by simp) hgrant
  have hp : makeReliable env data next ∈ numbering env (seqnumOf numbered.length) [data] := by
    rw [← h.next_eq]
    exact List.mem_singleton_self _
  obtain ⟨i, hi, hn⟩ := hasNumber_numbering (by simp) hp
  have hi : i < 1 := hi
  obtain ⟨sent', hins, hmem, hinv⟩ := hnumber.transmit hlen hn (by
    rw [List.length_append]
    simp only [List.length_singleton]
    omega)
  exact ⟨sent', hins, hmem, by simpa [numbering] using hinv⟩

/-- Packets rewritten in place, and packets taken off the wire, keep the invariant. -/
theorem SenderInv.refresh {sent' : List BufferedPacket}
    (h : SenderInv numbered next queue sent) (hsame : List.Forall₂ SamePacket sent sent') :
    SenderInv numbered next queue sent' := by
  have hseq := map_getSeqnum_of_same hsame
  refine ⟨h.next_eq, h.queued, fun q hq => ?_, ?_, ?_⟩
  · obtain ⟨p, hp, hpq⟩ := exists_same_of_mem hsame hq
    obtain ⟨n, hn, hfit⟩ := h.fit p hp
    exact ⟨n, hn.same hpq, hfit⟩
  · have horder := h.order
    simp only [Increasing, ReliablePacketBuffer.ahead] at horder ⊢
    rw [← List.pairwise_map (f := BufferedPacket.getSeqnum)
      (R := fun s t => serialDist s (nextExpected next) < serialDist t (nextExpected next))]
      at horder ⊢
    rwa [hseq]
  · rw [List.map_append, hseq, ← List.map_append]
    exact h.distinct

theorem SenderInv.erase {sent' : List BufferedPacket}
    (h : SenderInv numbered next queue sent) (hsub : sent'.Sublist sent) :
    SenderInv numbered next queue sent' where
  next_eq := h.next_eq
  queued := h.queued
  fit p hp := h.fit p (hsub.subset hp)
  order := h.order.sublist hsub
  distinct := h.distinct.sublist ((hsub.append_left queue).map _)

end Freeminer.Mtp
