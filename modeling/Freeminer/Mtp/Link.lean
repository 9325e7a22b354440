import Freeminer.Mtp.IncomingInvariant
import Freeminer.Mtp.Kept

/-! One channel between a sender and a receiver. Datagrams and acks may be lost, repeated and
reordered, and are delayed by less than half a turn (an ack by less than a turn). What the
receiver processes is a prefix of what the sender numbered, as long as what is queued fits and
no packet is stranded. -/

namespace Freeminer.Mtp

open Lib ReliablePacketBuffer

/-- What the sender still has: its queue, and what it may resend. -/
def Channel.held (chan : Channel) : List BufferedPacket :=
  chan.queuedReliables ++ chan.outgoingReliablesSent

section Held

/-- No packet is made when none is numbered. -/
theorem made_nil {next : UInt16} {wire : List BufferedPacket} : ∃ env originals,
    [] = Channel.numbering env next originals ∧ originals.length < 0x8000 ∧
      (wire = [] ∨ originals.length ≤ 1) :=
  ⟨⟨0, 0, 0, ⟨[], 0⟩, 0, false⟩, [], rfl, by simp, .inr (by simp)⟩

variable {numbered : List SharedBuffer} {chan chan' : Channel} {wire made : List BufferedPacket}
  {acked : Option UInt16} {p : BufferedPacket}

theorem SenderInv.number_of_held
    (h : SenderInv numbered chan.nextOutgoingSeqnum chan.queuedReliables
      chan.outgoingReliablesSent) (hp : p ∈ chan.held) : ∃ n, HasNumber numbered n p := by
  rcases List.mem_append.mp hp with hp | hp
  · exact h.queued p hp
  · obtain ⟨n, hn, -⟩ := h.fit p hp
    exact ⟨n, hn⟩

theorem SenderInv.recent_of_held
    (h : SenderInv numbered chan.nextOutgoingSeqnum chan.queuedReliables
      chan.outgoingReliablesSent)
    (hfits : Fits chan.nextOutgoingSeqnum chan.queuedReliables) {n : ℕ} (hp : p ∈ chan.held)
    (hn : HasNumber numbered n p) : numbered.length < n + 0x8000 := by
  rcases List.mem_append.mp hp with hp | hp
  · exact h.lt_of_fits hfits hp hn
  · obtain ⟨m, hm, hfit⟩ := h.fit p hp
    exact hn.unique hm ▸ hfit

/-- An operation takes nothing from the sender but what it acks, and adds what it numbers, which
is at most one packet if it sends any. -/
theorem SenderInv.held_step
    (h : SenderInv numbered chan.nextOutgoingSeqnum chan.queuedReliables
      chan.outgoingReliablesSent)
    (hfits : Fits chan.nextOutgoingSeqnum chan.queuedReliables)
    (hs : Sends chan chan' wire made acked) :
    (∀ p ∈ chan.held, some p.getSeqnum ≠ acked → ∃ q ∈ chan'.held, SamePacket p q) ∧
    (∀ p ∈ made, p ∈ chan'.held) ∧
    (∀ q ∈ chan'.held, q ∈ made ∨ ∃ p ∈ chan.held, SamePacket p q) ∧
    ∃ env originals, made = Channel.numbering env chan.nextOutgoingSeqnum originals ∧
      originals.length < 0x8000 ∧ (wire = [] ∨ originals.length ≤ 1) := by
  simp only [Channel.held, List.mem_append]
  cases hs with
  | @number originals env hne hlen hgrant hsent hnext hqueue =>
    simp only [hsent, hqueue, List.mem_append]
    refine ⟨fun p hp _ => ⟨p, hp.imp_left .inl, .refl p⟩, fun p hp => .inl (.inr hp),
      fun q hq => ?_, env, originals, rfl, hlen, .inl trivial⟩
    rcases hq with (hq | hq) | hq
    · exact .inr ⟨q, .inl hq, .refl q⟩
    · exact .inl hq
    · exact .inr ⟨q, .inr hq, .refl q⟩
  | direct env data hgrant hlen hnext hqueue hsent =>
    obtain ⟨sent', hins, hmem, -⟩ := h.direct hfits env data hgrant hlen
    rw [hnext] at hsent
    obtain rfl := Except.ok.inj (hins.symm.trans hsent)
    simp only [hqueue, hmem, List.mem_singleton]
    refine ⟨fun p hp _ => ⟨p, hp.imp_right .inr, .refl p⟩, fun p hp => .inr (.inl hp),
      fun q hq => ?_, env, [data], rfl, by simp, .inr le_rfl⟩
    rcases hq with hq | hq | hq
    · exact .inr ⟨q, .inl hq, .refl q⟩
    · exact .inl hq
    · exact .inr ⟨q, .inr hq, .refl q⟩
  | transmit p hlen hnext hqueue hsent =>
    obtain ⟨n, hn⟩ := h.queued p (by simp [hqueue])
    have hfit := h.lt_of_fits hfits (by simp [hqueue]) hn
    rw [hqueue] at h
    obtain ⟨sent', hins, hmem, -⟩ := h.transmit_head hlen hn hfit
    obtain rfl := Except.ok.inj (hins.symm.trans hsent)
    simp only [hqueue, hmem, List.mem_cons]
    refine ⟨fun q hq _ => ⟨q, ?_, .refl q⟩, by simp, fun q hq => .inr ⟨q, ?_, .refl q⟩, made_nil⟩
    · rcases hq with (rfl | hq) | hq
      · exact .inr (.inl rfl)
      · exact .inl hq
      · exact .inr (.inr hq)
    · rcases hq with hq | rfl | hq
      · exact .inl (.inr hq)
      · exact .inl (.inl rfl)
      · exact .inr hq
  | refresh hnext hqueue hsent hwire =>
    simp only [hqueue]
    refine ⟨fun p hp _ => ?_, by simp, fun q hq => .inr ?_, made_nil⟩
    · rcases hp with hp | hp
      · exact ⟨p, .inl hp, .refl p⟩
      · obtain ⟨q, hq, hpq⟩ := exists_same_mem hsent hp
        exact ⟨q, .inr hq, hpq⟩
    · rcases hq with hq | hq
      · exact ⟨q, .inl hq, .refl q⟩
      · obtain ⟨p, hp, hpq⟩ := exists_same_of_mem hsent hq
        exact ⟨p, .inr hp, hpq⟩
  | ack seqnum hnext hqueue hsent =>
    simp only [hqueue, hsent]
    refine ⟨fun p hp hne => ⟨p, hp.imp_right fun hp => ?_, .refl p⟩, by simp, fun q hq => .inr
      ⟨q, hq.imp_right fun hq => List.mem_of_mem_eraseP hq, .refl q⟩,
      by simpa using @made_nil chan.nextOutgoingSeqnum []⟩
    exact (List.mem_eraseP_of_neg (by simpa using hne)).mpr hp

end Held

/-- The two sides of a channel, and all that was ever put on the wire between them, each under
the unwrapped number that it carries. -/
structure Link where
  sender : Sender := {}
  receiver : Channel := {}
  packetQueued : Bool := true
  flight : List (ℕ × BufferedPacket) := []
  acks : List (ℕ × UInt16) := []

inductive LinkOp where
  | send (op : SenderOp)
  | receive (n : ℕ) (p : BufferedPacket)
  | buffers
  | ack (n : ℕ) (seqnum : UInt16)
  | other

def Sender.numberOf (s : Sender) (p : BufferedPacket) : ℕ :=
  s.numbered.length - serialDist s.chan.nextOutgoingSeqnum p.getSeqnum

namespace Link

def received (env : ReceiveEnv) (l : Link) (p : BufferedPacket) : Received :=
  l.receiver.receiveReliable env (p.data.drop BASE_HEADER_SIZE)

/-- One step of either side. What is on the wire is never taken from it, so that it may arrive
in any order, any number of times, or never. -/
inductive Step (env : ReceiveEnv) : Link → LinkOp → Link → Prop
  | send {l : Link} {op : SenderOp} {r : Outcome} {sender' : Sender} (hack : op.acked = none)
      (hexec : op.exec l.sender.chan = .ok r) (happly : l.sender.apply op = .ok sender') :
      Step env l (.send op) { l with
        sender := sender'
        flight := l.flight ++ r.wire.map fun p => (sender'.numberOf p, p) }
  | receive {l : Link} {n : ℕ} {p : BufferedPacket} (hqueued : l.packetQueued = false)
      (hflight : (n, p) ∈ l.flight) (hdelay : l.receiver.handled.length < n + 0x8000) :
      Step env l (.receive n p) { l with
        receiver := (l.received env p).chan
        packetQueued := (l.received env p).packetQueued.getD false
        acks := if (l.received env p).ack then (n, p.getSeqnum) :: l.acks else l.acks }
  | unbuffer {l : Link} {p : BufferedPacket} {chan : Channel} (hqueued : l.packetQueued = true)
      (hpop : l.receiver.popDeliverable = some (p, chan)) :
      Step env l .buffers { l with receiver := chan }
  | passEnds {l : Link} (hqueued : l.packetQueued = true)
      (hpop : l.receiver.popDeliverable = none) :
      Step env l .buffers { l with packetQueued := false }
  | ack {l : Link} {n : ℕ} {seqnum : UInt16} {sender' : Sender} (hacks : (n, seqnum) ∈ l.acks)
      (hdelay : l.sender.numbered.length < n + 65536)
      (happly : l.sender.apply (.ack seqnum) = .ok sender') :
      Step env l (.ack n seqnum) { l with sender := sender' }
  /-- Some other datagram arrives. -/
  | other {l : Link} : Step env l .other { l with packetQueued := true }

def lts (env : ReceiveEnv) : Lts Link LinkOp where
  init l := l = {}
  step := Step env

/-- What the sender queues fits, and what the receiver takes strands nothing. -/
def Ok (env : ReceiveEnv) (l : Link) : LinkOp → Prop
  | .send _ => l.sender.Fit
  | .receive _ p => ¬l.receiver.Strands env (p.data.drop BASE_HEADER_SIZE)
  | _ => True

structure Inv (env : ReceiveEnv) (l : Link) : Prop where
  sender : l.sender.Inv
  receiver : ReceiverInv l.sender.numbered env.address l.receiver
  /-- Whatever the receiver has not got, the sender still has. -/
  covered : ∀ n < l.sender.numbered.length, l.receiver.Has n ∨
    ∃ p ∈ l.sender.chan.held, HasNumber l.sender.numbered n p
  flight : ∀ e ∈ l.flight, IsNumber l.sender.numbered e.1 e.2
  /-- Nothing was sent half a turn past what the sender still has. -/
  near : ∀ e ∈ l.flight, ∀ p ∈ l.sender.chan.held, ∀ m, HasNumber l.sender.numbered m p →
    e.1 < m + 0x8000
  acked : ∀ e ∈ l.acks, e.2 = seqnumOf e.1 ∧ l.receiver.Has e.1
  queued : l.packetQueued = true ∨ ¬l.receiver.Deliverable

variable {env : ReceiveEnv} {l : Link}

theorem Inv.init : Inv env {} where
  sender := SenderInv.init
  receiver := .init
  covered := by simp
  flight := by simp
  near := by simp
  acked := by simp
  queued := .inl rfl

/-- The sender's packets under the payloads numbered after an operation. -/
theorem hasNumber_held {s s' : Sender} {op : SenderOp} {r : Outcome} (h : s.Inv) (hfit : s.Fit)
    (hexec : op.exec s.chan = .ok r) (happly : s.apply op = .ok s') :
    s'.numbered = s.numbered ++ r.made.map (·.payload) ∧
    (∀ n p, p ∈ s.chan.held → HasNumber s.numbered n p → some p.getSeqnum ≠ op.acked →
      ∃ q ∈ s'.chan.held, HasNumber s'.numbered n q) ∧
    (∀ n, s.numbered.length ≤ n → n < s'.numbered.length →
      ∃ q ∈ s'.chan.held, HasNumber s'.numbered n q) ∧
    (∀ n q, q ∈ s'.chan.held → HasNumber s'.numbered n q → s.numbered.length ≤ n ∨
      ∃ p ∈ s.chan.held, HasNumber s.numbered n p) ∧
    (r.wire = [] ∨ s'.numbered.length ≤ s.numbered.length + 1) := by
  obtain ⟨r', hr', rfl⟩ := Sender.apply_eq_ok happly
  obtain rfl := Except.ok.inj (hexec.symm.trans hr')
  obtain ⟨hstay, hadd, hback, env, originals, hmade, hlen, hwire⟩ :=
    SenderInv.held_step h hfit (SenderOp.exec_sends hexec)
  have hpayloads : r.made.map (·.payload) = originals := by
    rw [hmade, map_payload_numbering]
  have hnext : s.chan.nextOutgoingSeqnum = seqnumOf s.numbered.length := h.next_eq
  rw [hnext] at hmade
  dsimp only
  rw [hpayloads]
  have hold : ∀ n p q, p ∈ s.chan.held → HasNumber s.numbered n p → SamePacket p q →
      HasNumber (s.numbered ++ originals) n q := by
    intro n p q hp hn hpq
    have := h.recent_of_held hfit hp hn
    exact (hn.append _ (by omega)).same hpq
  refine ⟨rfl, fun n p hp hn hne => ?_, fun n hge hlt => ?_, fun n q hq hn => ?_, ?_⟩
  · obtain ⟨q, hq, hpq⟩ := hstay p hp hne
    exact ⟨q, hq, hold n p q hp hn hpq⟩
  · rw [List.length_append] at hlt
    obtain ⟨p, hp⟩ : ∃ p, r.made[n - s.numbered.length]? = some p := by
      rw [hmade]
      exact ⟨_, List.getElem?_eq_getElem (by rw [Channel.length_numbering]; omega)⟩
    refine ⟨p, hadd p (List.mem_of_getElem? hp), ?_⟩
    rw [hmade] at hp
    have hn := hasNumber_of_getElem hlen hp
    rwa [Nat.add_sub_cancel' hge] at hn
  · rcases hback q hq with hq | ⟨p, hp, hpq⟩
    · rw [hmade] at hq
      obtain ⟨i, -, hi⟩ := hasNumber_numbering hlen hq
      have := hn.unique hi
      exact .inl (by omega)
    · obtain ⟨m, hm⟩ := h.number_of_held hp
      obtain rfl := hn.unique (hold m p q hp hm hpq)
      exact .inr ⟨p, hp, hm⟩
  · rw [List.length_append]
    exact hwire.imp_right fun hle => by omega

theorem numberOf_eq {s : Sender} (h : s.Inv) {n : ℕ} {p : BufferedPacket}
    (hn : HasNumber s.numbered n p) : s.numberOf p = n := by
  have hlt := hn.lt
  have hnext : s.chan.nextOutgoingSeqnum = seqnumOf s.numbered.length := h.next_eq
  rw [Sender.numberOf, hnext, hn.behind]
  omega

theorem Inv.send {op : SenderOp} {r : Outcome} {sender' : Sender} (h : Inv env l)
    (hfit : l.sender.Fit) (hack : op.acked = none) (hexec : op.exec l.sender.chan = .ok r)
    (happly : l.sender.apply op = .ok sender') : Inv env { l with
      sender := sender'
      flight := l.flight ++ r.wire.map fun p => (sender'.numberOf p, p) } := by
  obtain ⟨hnumbered, hstay, hmade, hback, hwire⟩ := hasNumber_held h.sender hfit hexec happly
  obtain ⟨hinv, hsent⟩ : sender'.Inv ∧ ∀ p ∈ r.wire, ∃ n, HasNumber sender'.numbered n p := by
    obtain ⟨r', hr', rfl⟩ := Sender.apply_eq_ok happly
    obtain rfl := Except.ok.inj (hexec.symm.trans hr')
    obtain ⟨hinv, hkept, -⟩ := SenderInv.step h.sender hfit (SenderOp.exec_sends hexec)
    refine ⟨hinv, fun p hp => ?_⟩
    obtain ⟨n, hn, -⟩ := hinv.fit p (hkept p hp)
    exact ⟨n, hn⟩
  have hlen := congrArg List.length hnumbered
  rw [List.length_append] at hlen
  refine ⟨hinv, hnumbered ▸ h.receiver.append _, fun n hn => ?_, fun e he => ?_, ?_, h.acked,
    h.queued⟩
  · by_cases hlt : n < l.sender.numbered.length
    · refine (h.covered n hlt).imp_right ?_
      rintro ⟨p, hp, hpn⟩
      exact hstay n p hp hpn (by simp [hack])
    · exact .inr (hmade n (by omega) hn)
  · rcases List.mem_append.mp he with he | he
    · rw [hnumbered]
      exact (h.flight e he).append _
    · obtain ⟨p, hp, rfl⟩ := List.mem_map.mp he
      obtain ⟨n, hn⟩ := hsent p hp
      dsimp only
      rw [numberOf_eq hinv hn]
      exact hn.isNumber
  · intro e he q hq m hm
    rcases List.mem_append.mp he with he | he
    · have hlt := (h.flight e he).lt
      rcases hback m q hq hm with hge | ⟨p, hp, hpm⟩
      · omega
      · exact h.near e he p hp m hpm
    · obtain ⟨p, hp, rfl⟩ := List.mem_map.mp he
      obtain ⟨n, hn⟩ := hsent p hp
      have hlt := hn.lt
      have hone := hwire.resolve_left (List.ne_nil_of_mem hp)
      dsimp only
      rw [numberOf_eq hinv hn]
      rcases hback m q hq hm with hge | ⟨p', hp', hpm⟩
      · omega
      · have := h.sender.recent_of_held hfit hp' hpm
        omega

/-- A packet that arrives is not half a turn past the expected one. -/
theorem Inv.near_next (h : Inv env l) (hqueued : l.packetQueued = false) {e : ℕ × BufferedPacket}
    (he : e ∈ l.flight) : e.1 < l.receiver.handled.length + 0x8000 := by
  by_cases hlt : e.1 < l.receiver.handled.length
  · omega
  have hdel := h.queued.resolve_left (by simp [hqueued])
  have hM := (h.flight e he).lt
  obtain ⟨p, hp, hn⟩ := (h.covered l.receiver.handled.length (by omega)).resolve_left
    (h.receiver.not_has_next hdel)
  exact h.near e he p hp _ hn

theorem Inv.receive {n : ℕ} {p : BufferedPacket} (h : Inv env l)
    (hstrands : ¬l.receiver.Strands env (p.data.drop BASE_HEADER_SIZE))
    (hqueued : l.packetQueued = false) (hflight : (n, p) ∈ l.flight)
    (hdelay : l.receiver.handled.length < n + 0x8000) : Inv env { l with
      receiver := (l.received env p).chan
      packetQueued := (l.received env p).packetQueued.getD false
      acks := if (l.received env p).ack then (n, p.getSeqnum) :: l.acks else l.acks } := by
  have hdel := h.queued.resolve_left (by simp [hqueued])
  have hn := h.flight _ hflight
  obtain ⟨hrec, hhas, hmono⟩ := h.receiver.receive hn hdel hdelay (h.near_next hqueued hflight)
  refine ⟨h.sender, hrec, fun m hm => (h.covered m hm).imp_left (hmono m), h.flight, h.near,
    fun e he => ?_, ?_⟩
  · dsimp only at he
    split_ifs at he
    · rcases List.mem_cons.mp he with rfl | he
      · exact ⟨hn.seqnum, hhas⟩
      · exact ⟨(h.acked e he).1, hmono _ (h.acked e he).2⟩
    · exact ⟨(h.acked e he).1, hmono _ (h.acked e he).2⟩
  · by_cases hflag : (l.received env p).packetQueued = some true
    · left
      dsimp only
      rw [hflag]
      rfl
    · exact .inr (Channel.receiveReliable_not_deliverable hdel hstrands hflag)

theorem Inv.ack {n : ℕ} {seqnum : UInt16} {sender' : Sender} (h : Inv env l)
    (hacks : (n, seqnum) ∈ l.acks) (hdelay : l.sender.numbered.length < n + 65536)
    (happly : l.sender.apply (.ack seqnum) = .ok sender') :
    Inv env { l with sender := sender' } := by
  obtain ⟨hseq, hhas⟩ := h.acked _ hacks
  dsimp only at hseq hhas
  have hlt := h.receiver.lt_of_has hhas
  obtain ⟨hnumbered, hqueue, hsent, hnext⟩ : sender'.numbered = l.sender.numbered ∧
      sender'.chan.queuedReliables = l.sender.chan.queuedReliables ∧
      sender'.chan.outgoingReliablesSent =
        l.sender.chan.outgoingReliablesSent.eraseP (fun p => p.getSeqnum == seqnum) ∧
      sender'.chan.nextOutgoingSeqnum = l.sender.chan.nextOutgoingSeqnum := by
    obtain ⟨r, hr, rfl⟩ := Sender.apply_eq_ok happly
    obtain rfl := Except.ok.inj hr
    dsimp only
    rw [Channel.ackReceived_outgoing]
    exact ⟨List.append_nil _, rfl, rfl, rfl⟩
  refine ⟨?_, hnumbered ▸ h.receiver, fun m hm => ?_, hnumbered ▸ h.flight,
    fun e he q hq m hm => ?_, h.acked, h.queued⟩
  · have hinv := h.sender.erase
      (List.eraseP_sublist (p := fun p : BufferedPacket => p.getSeqnum == seqnum))
    rw [← hnumbered, ← hnext, ← hqueue, ← hsent] at hinv
    exact hinv
  · dsimp only at hm ⊢
    rw [hnumbered] at hm ⊢
    rcases h.covered m hm with hhas' | ⟨p, hp, hpm⟩
    · exact .inl hhas'
    -- what the ack takes away, the receiver has
    by_cases hmn : m = n
    · exact .inl (hmn ▸ hhas)
    refine .inr ⟨p, ?_, hpm⟩
    rw [Channel.held, hqueue, hsent]
    rcases List.mem_append.mp hp with hp | hp
    · exact List.mem_append_left _ hp
    · refine List.mem_append_right _ ((List.mem_eraseP_of_neg ?_).mpr hp)
      have hrecent := hpm.recent
      rw [hpm.seqnum, hseq, beq_iff_eq]
      exact fun heq => hmn (seqnumOf_inj heq (by omega) (by omega))
  · dsimp only at hq hm
    rw [hnumbered] at hm
    rw [Channel.held, hqueue, hsent] at hq
    refine h.near e he q ?_ m hm
    rcases List.mem_append.mp hq with hq | hq
    · exact List.mem_append_left _ hq
    · exact List.mem_append_right _ (List.mem_of_mem_eraseP hq)

theorem Inv.step {l' : Link} {op : LinkOp} (h : Inv env l) (hok : l.Ok env op)
    (hs : Step env l op l') : Inv env l' := by
  cases hs with
  | send hack hexec happly => exact h.send hok hack hexec happly
  | receive hqueued hflight hdelay => exact h.receive hok hqueued hflight hdelay
  | unbuffer hqueued hpop =>
    obtain ⟨hrec, hmono⟩ := h.receiver.pop hpop
    exact ⟨h.sender, hrec, fun m hm => (h.covered m hm).imp_left (hmono m), h.flight, h.near,
      fun e he => ⟨(h.acked e he).1, hmono _ (h.acked e he).2⟩, .inl hqueued⟩
  | passEnds hqueued hpop =>
    exact ⟨h.sender, h.receiver, h.covered, h.flight, h.near, h.acked,
      .inr (Channel.popDeliverable_eq_none.mp hpop)⟩
  | ack hacks hdelay happly => exact h.ack hacks hdelay happly
  | other => exact ⟨h.sender, h.receiver, h.covered, h.flight, h.near, h.acked, .inl rfl⟩

/-- In every run in which what is queued fits and nothing is stranded, what the receiver has
processed is a prefix of what the sender has numbered. -/
theorem prefix_of_run (h : (lts env).Run (Ok env) l) :
    l.receiver.handled.map (·.payload) <+: l.sender.numbered := by
  have hinv : Inv env l := by
    refine Lts.Run.invariant (I := Inv env) ?_ (fun l op l' hI hok hs => hI.step hok hs) h
    rintro l rfl
    exact .init
  exact hinv.receiver.prefix

def serverSide : ReceiveEnv where
  address := ⟨[127, 0, 0, 1], 40000⟩
  protocolId := 0x4f457403
  peerId := 2
  channelnum := 0

/-- A payload is queued, sent and processed. -/
theorem prefix_of_run_short : ∃ l : Link,
    l.receiver.handled.map (·.payload) = [makeOriginalPacket [0, 42]] ∧
    l.receiver.handled.map (·.payload) <+: l.sender.numbered := by
  let p := Channel.makeReliable Sender.smallPackets (makeOriginalPacket [0, 42]) SEQNUM_INITIAL
  have hnumber : Sender.shortSent.numberOf p = 0 := by decide
  have hstep₁ : Step serverSide { packetQueued := false } (.send (.command _ _))
      { packetQueued := false, sender := Sender.shortQueued } :=
    .send (r := { chan := Sender.oneQueued, made := Sender.oneQueued.queuedReliables }) rfl rfl
      Sender.apply_shortQueued
  have hstep₂ : Step serverSide { packetQueued := false, sender := Sender.shortQueued }
      (.send .sendPackets) { packetQueued := false, sender := Sender.shortSent, flight := [(0, p)] } :=
    hnumber ▸ .send (r := { chan := Sender.shortSent.chan, wire := [p] }) rfl rfl
      Sender.apply_shortSent
  have hwaits : ¬({} : Channel).Strands serverSide (p.data.drop BASE_HEADER_SIZE) :=
    fun h => nomatch h.waits
  have hstep₀ : Step serverSide {} .buffers { packetQueued := false } :=
    .passEnds (l := {}) rfl rfl
  have hfit : Sender.Fit {} := by simp [Sender.Fit, Fits]
  have hrun₀ : (lts serverSide).Run (Ok serverSide) {} := .init rfl
  have hrun₁ := hrun₀.step (a := LinkOp.buffers) trivial hstep₀
  have hrun₂ := hrun₁.step (a := LinkOp.send (.command _ _)) hfit hstep₁
  have hrun₃ := hrun₂.step (a := LinkOp.send .sendPackets) Sender.fit_shortQueued hstep₂
  have hrun₄ := hrun₃.step (a := LinkOp.receive 0 p) hwaits
    (.receive rfl List.mem_cons_self (by decide))
  exact ⟨_, by decide, prefix_of_run hrun₄⟩

end Link

end Freeminer.Mtp
