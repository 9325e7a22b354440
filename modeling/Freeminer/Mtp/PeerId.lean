import Freeminer.Mtp.SendThreadSteps

/-! The peer id of a client. It connects without one, the server sends it one, and
`CONNCMD_PEER_ID_SET` writes it into the packets on the wire, not into those still queued. So
all that is sent afterwards carries the new id as long as no packet with another one is queued
when the command is processed. -/

namespace Freeminer.Mtp

open Lib

/-- The client, with what it sent since `CONNCMD_PEER_ID_SET`. -/
structure Client where
  thread : SendThread
  /-- History: the id of the command, once it is processed. -/
  peerIdSet : Option SessionT := none
  sentSince : List BufferedPacket := []

/-- What the threads of a client do: the application, the receive thread, and the loops of the
send thread, one round each. The clocks and quotas that the loops depend on are left open. -/
inductive ClientOp where
  | send (peerId : SessionT) (channelnum : Fin CHANNEL_COUNT) (command : UInt16)
      (payload : SharedBuffer) (reliable : Bool)
  | disconnect
  | disconnectPeer (peerId : SessionT)
  | datagram (d : Connection.Datagram)
  | buffers
  | resendTimedOuts (peerId : SessionT) (channelnum : Fin CHANNEL_COUNT)
      (expired : BufferedPacket → Bool) (quota : ℕ)
  | updateTimers (peerId : SessionT) (channelnum : Fin CHANNEL_COUNT) (size : ℤ)
  | ping (peerId : SessionT)
  | runCommandQueue (peerId : SessionT) (channelnum : Fin CHANNEL_COUNT) (maxtransfer : ℕ)
  | processCommand
  | sendQueued (peerId : SessionT) (channelnum : Fin CHANNEL_COUNT)
  | sendOutgoing (remaining : Bool)
  | deletePeer (peerId : SessionT) (timeout : Bool)

def Connection.receiveBuffers (conn : Connection) : Connection :=
  match conn.getFromBuffers with
  | (some (peerId, .ok data), conn) => conn.putEvent (.dataReceived peerId data)
  | (_, conn) => conn

def ClientOp.exec :
    ClientOp → SendThread → Except ConException (List BufferedPacket × SendThread)
  | .send peerId channelnum command payload reliable, t =>
    match t.conn.send peerId channelnum command payload reliable with
    | none => .error .sanityCheck
    | some conn => .ok ([], { t with conn })
  | .disconnect, t => .ok ([], { t with conn := t.conn.disconnect })
  | .disconnectPeer peerId, t => .ok ([], { t with conn := t.conn.disconnectPeer peerId })
  | .datagram d, t => .ok ([], { t with conn := (t.conn.handleDatagram d).2 })
  | .buffers, t => .ok ([], { t with conn := t.conn.receiveBuffers })
  | .resendTimedOuts peerId channelnum expired quota, t =>
    t.resendTimedOuts peerId channelnum expired quota
  | .updateTimers peerId channelnum size, t => t.updateTimers peerId channelnum size
  | .ping peerId, t => t.ping peerId
  | .runCommandQueue peerId channelnum maxtransfer, t =>
    t.runCommandQueue peerId channelnum maxtransfer
  | .processCommand, t => t.processCommand
  | .sendQueued peerId channelnum, t => t.sendQueued peerId channelnum
  | .sendOutgoing remaining, t => t.sendOutgoing remaining
  | .deletePeer peerId timeout, t => .ok ([], t.deletePeer peerId timeout)

/-- The id that a step sets, if it processes `CONNCMD_PEER_ID_SET`. -/
def ClientOp.sets (op : ClientOp) (t : SendThread) : Option SessionT :=
  match op, t.conn.commandQueue with
  | .processCommand, c :: _ => if !c.reliable ∧ c.type = .peerIdSet then some c.peerId else none
  | _, _ => none

namespace Client

def apply (op : ClientOp) (s : Client) : Except ConException Client := do
  let (wire, thread) ← op.exec s.thread
  pure {
    thread
    peerIdSet := (op.sets s.thread).or s.peerIdSet
    sentSince := if s.peerIdSet.isSome then s.sentSince ++ wire else s.sentSince }

def lts : Lts Client ClientOp where
  init s := ∃ protocolId maxPacketSize canBind address,
    ({ conn := { protocolId }, maxPacketSize, canBind } : SendThread).connect address =
      some s.thread ∧ s.peerIdSet = none ∧ s.sentSince = []
  step s op s' := s.apply op = .ok s'

/-- When `CONNCMD_PEER_ID_SET` is processed, every packet still queued carries its id. -/
def QueuesReady (s : Client) (op : ClientOp) : Prop :=
  ∀ id ∈ op.sets s.thread, s.thread.conn.AllChannels fun chan =>
    ∀ p ∈ chan.queuedReliables, p.readPeerId = id

end Client

/-! ## The invariant -/

def HasSender (idSet : Option SessionT) (p : BufferedPacket) : Prop :=
  BASE_HEADER_SIZE ≤ p.size ∧ ∀ id ∈ idSet, p.readPeerId = id

/-- The id never changes once there is one, and the commands to set it name it. -/
structure PeerIdInv (idSet : Option SessionT) (conn : Connection) : Prop where
  commands : ∀ c ∈ conn.commandQueue, c.type ≠ .serve ∧ c.type ≠ .connect ∧
    (c.type = .peerIdSet → c.peerId = conn.peerId ∧ conn.peerId ≠ PEER_ID_INEXISTENT)
  set : ∀ id ∈ idSet, id = conn.peerId ∧ conn.peerId ≠ PEER_ID_INEXISTENT
  packets : conn.AllChannels (Channel.AllPackets (HasSender idSet))

section Invariant

variable {idSet : Option SessionT} {conn conn' : Connection} {t t' : SendThread}
  {wire : List BufferedPacket}

theorem stable_hasSender : Stable (HasSender idSet) := fun _ _ h => h

theorem PeerIdInv.makes (h : PeerIdInv idSet t.conn) : t.Makes (HasSender idSet) := by
  intro address data channelnum
  refine ⟨by rw [size_makePacket]; exact Nat.le_add_right _ _, fun id hid => ?_⟩
  rw [readPeerId_makePacket]
  exact (h.set id hid).1.symm

theorem PeerIdInv.emits (h : PeerIdInv idSet t.conn) (he : t.Emits (HasSender idSet) wire t') :
    PeerIdInv idSet t'.conn ∧ ∀ p ∈ wire, HasSender idSet p := by
  obtain ⟨hpackets, hwire⟩ := he.packets h.packets
  refine ⟨⟨?_, ?_, hpackets⟩, hwire⟩
  · rw [he.commandQueue, he.peerId]
    exact h.commands
  · rw [he.peerId]
    exact h.set

theorem PeerIdInv.putCommand {c : ConnectionCommand} (h : PeerIdInv idSet conn)
    (hc : c.type ∉ [.serve, .connect, .peerIdSet]) : PeerIdInv idSet (conn.putCommand c) := by
  refine ⟨fun c' hc' => ?_, h.set, h.packets⟩
  rcases List.mem_append.mp hc' with hc' | hc'
  · exact h.commands c' hc'
  · obtain rfl := List.mem_singleton.mp hc'
    simp only [List.mem_cons, List.not_mem_nil, or_false, not_or] at hc
    exact ⟨hc.1, hc.2.1, fun htype => absurd htype hc.2.2⟩

theorem PeerIdInv.setPeerId {id : SessionT} (h : PeerIdInv idSet conn)
    (hid : conn.peerId = PEER_ID_INEXISTENT) : PeerIdInv idSet (conn.setPeerId id) := by
  have hset : ∀ id' ∈ idSet, False := fun id' hid' => (h.set id' hid').2 hid
  have hcommands : ∀ c ∈ conn.commandQueue,
      c.type ≠ .serve ∧ c.type ≠ .connect ∧ c.type ≠ .peerIdSet := by
    intro c hc
    obtain ⟨h1, h2, h3⟩ := h.commands c hc
    exact ⟨h1, h2, fun htype => (h3 htype).2 hid⟩
  unfold Connection.setPeerId
  dsimp only
  split_ifs with hne
  · refine ⟨fun c hc => ?_, fun id' hid' => (hset id' hid').elim, h.packets⟩
    rcases List.mem_append.mp hc with hc | hc
    · obtain ⟨h1, h2, h3⟩ := hcommands c hc
      exact ⟨h1, h2, fun htype => absurd htype h3⟩
    · obtain rfl := List.mem_singleton.mp hc
      exact ⟨nofun, nofun, fun _ => ⟨rfl, hne⟩⟩
  · refine ⟨fun c hc => ?_, fun id' hid' => (hset id' hid').elim, h.packets⟩
    obtain ⟨h1, h2, h3⟩ := hcommands c hc
    exact ⟨h1, h2, fun htype => absurd htype h3⟩

theorem PeerIdInv.of_peers (h : PeerIdInv idSet conn)
    (hcommands : conn'.commandQueue = conn.commandQueue) (hid : conn'.peerId = conn.peerId)
    (hpackets : conn'.AllChannels (Channel.AllPackets (HasSender idSet))) :
    PeerIdInv idSet conn' := by
  refine ⟨?_, ?_, hpackets⟩
  · rw [hcommands, hid]
    exact h.commands
  · rw [hid]
    exact h.set

/-- The receive thread keeps the invariant. -/
theorem PeerIdInv.receives (h : PeerIdInv idSet conn) (hr : Receives conn conn') :
    PeerIdInv idSet conn' := by
  cases hr with
  | @channel peer chan peerId ch hpeer hqueued hsent =>
    obtain ⟨hqueue, hwire⟩ := h.packets peer hpeer ch
    refine h.of_peers rfl rfl (Connection.allChannels_setChannel ⟨?_, ?_⟩ h.packets)
    · rwa [hqueued]
    · exact fun p hp => hwire p (hsent p hp)
  | event e => exact h.of_peers rfl rfl h.packets
  | command c hc =>
    refine h.putCommand fun hc' => ?_
    simp only [List.mem_cons, List.not_mem_nil, or_false] at hc hc'
    rcases hc with hc | hc | hc | hc <;> simp [hc] at hc'
  | setPeerId id hid => exact h.setPeerId hid
  | deletePeer peerId timeout =>
    unfold Connection.deletePeer
    split
    · exact h
    · refine h.of_peers rfl rfl fun peer hpeer ch => ?_
      exact h.packets peer (List.mem_of_mem_filter hpeer) ch
  | addPeer id address =>
    refine h.of_peers rfl rfl fun peer hpeer ch => ?_
    rcases List.mem_append.mp hpeer with hpeer | hpeer
    · exact h.packets peer hpeer ch
    · obtain rfl := List.mem_singleton.mp hpeer
      exact ⟨by simp, by simp⟩
  | fullyOpen peerId =>
    refine h.of_peers rfl rfl fun peer' hpeer' ch => ?_
    obtain ⟨peer, hpeer, rfl⟩ := List.mem_map.mp hpeer'
    have := h.packets peer hpeer ch
    split_ifs <;> exact this

theorem PeerIdInv.receives_path (h : PeerIdInv idSet conn)
    (hr : Relation.ReflTransGen Receives conn conn') : PeerIdInv idSet conn' := by
  induction hr with
  | refl => exact h
  | tail _ hstep ih => exact ih.receives hstep

/-- `fix_peer_id` fixes the packets on the wire. -/
theorem PeerIdInv.fixPeerId (h : PeerIdInv idSet t.conn)
    (hid : t.conn.peerId ≠ PEER_ID_INEXISTENT)
    (hqueued : t.conn.AllChannels fun chan =>
      ∀ p ∈ chan.queuedReliables, p.readPeerId = t.conn.peerId) :
    PeerIdInv (some t.conn.peerId) (t.fixPeerId t.conn.peerId).conn := by
  refine ⟨h.commands, fun id hid' => ?_, fun peer' hpeer' ch => ?_⟩
  · obtain rfl := Option.some.inj hid'
    exact ⟨rfl, hid⟩
  · obtain ⟨peer, hpeer, rfl⟩ := List.mem_map.mp hpeer'
    obtain ⟨hqueue, hwire⟩ := h.packets peer hpeer ch
    refine ⟨fun p hp => ⟨(hqueue p hp).1, fun id hid' => ?_⟩, fun p hp => ?_⟩
    · obtain rfl := Option.some.inj hid'
      exact hqueued peer hpeer ch p hp
    · obtain ⟨q, hq, rfl⟩ := List.mem_map.mp hp
      obtain ⟨hsize, -⟩ := hwire q hq
      refine ⟨by rwa [size_setSenderPeerId], fun id hid' => ?_⟩
      obtain rfl := Option.some.inj hid'
      exact readPeerId_setSenderPeerId q _ hsize

/-- A step sets no id but that of the connection. -/
theorem PeerIdInv.eq_of_sets {op : ClientOp} {id : SessionT} (h : PeerIdInv idSet t.conn)
    (hid : id ∈ op.sets t) : id = t.conn.peerId := by
  unfold ClientOp.sets at hid
  split at hid
  · rename_i c queue hqueue
    split_ifs at hid with hset
    · obtain rfl := Option.some.inj hid
      exact ((h.commands c (by simp [hqueue])).2.2 hset.2).1
    · exact nomatch hid
  · exact nomatch hid

/-- A command keeps the invariant, with the id that it sets if it sets one. -/
theorem PeerIdInv.processCommand (h : PeerIdInv idSet t.conn)
    (hready : ∀ id ∈ ClientOp.sets .processCommand t, t.conn.AllChannels fun chan =>
      ∀ p ∈ chan.queuedReliables, p.readPeerId = id)
    (hs : t.processCommand = .ok (wire, t')) :
    PeerIdInv ((ClientOp.sets .processCommand t).or idSet) t'.conn ∧
      ∀ p ∈ wire, HasSender idSet p := by
  cases hqueue : t.conn.commandQueue with
  | nil =>
    simp only [SendThread.processCommand, hqueue, Except.ok.injEq, Prod.mk.injEq] at hs
    obtain ⟨rfl, rfl⟩ := hs
    simp only [ClientOp.sets, hqueue, Option.none_or]
    exact ⟨h, by simp⟩
  | cons c queue =>
    obtain ⟨hserve, hconnect, hset⟩ := h.commands c (by simp [hqueue])
    -- the connection without the command
    obtain ⟨t₁, ht₁⟩ : ∃ t₁ : SendThread,
        t₁ = { t with conn := { t.conn with commandQueue := queue } } := ⟨_, rfl⟩
    have hpop : PeerIdInv idSet t₁.conn := by
      subst ht₁
      exact ⟨fun c' hc' => h.commands c' (by simp [hqueue, hc']), h.set, h.packets⟩
    simp only [SendThread.processCommand, hqueue, ← ht₁] at hs
    simp only [ClientOp.sets, hqueue] at hready ⊢
    by_cases hreliable : c.reliable = true
    · rw [if_pos hreliable] at hs
      rw [if_neg (by simp [hreliable]), Option.none_or]
      exact hpop.emits (SendThread.emits_processReliableCommand stable_hasSender hpop.makes hs)
    rw [if_neg hreliable] at hs
    by_cases htype : c.type = .peerIdSet
    · obtain ⟨hid, hne⟩ := hset htype
      rw [if_pos ⟨by simpa using hreliable, htype⟩, hid] at hready ⊢
      simp only [SendThread.processNonReliableCommand, htype, Except.ok.injEq, Prod.mk.injEq] at hs
      obtain ⟨rfl, rfl⟩ := hs
      have hid₁ : c.peerId = t₁.conn.peerId := by rw [ht₁, hid]
      rw [hid₁, ← hid, hid₁]
      refine ⟨hpop.fixPeerId ?_ ?_, by simp⟩
      · rwa [← hid₁, hid]
      · rw [← hid₁, hid]
        subst ht₁
        exact hready _ rfl
    · rw [if_neg (by simp [htype]), Option.none_or]
      refine hpop.emits (SendThread.emits_processNonReliableCommand hpop.makes ?_ hs)
      simp [hserve, hconnect, htype]

theorem receives_receiveBuffers : Relation.ReflTransGen Receives conn conn.receiveBuffers := by
  have hbuffers : Relation.ReflTransGen Receives conn conn.getFromBuffers.2 :=
    Connection.receives_getFromBuffers
  unfold Connection.receiveBuffers
  split
  · rename_i peerId data conn₁ hget
    rw [hget] at hbuffers
    exact hbuffers.tail (.event _ _)
  · rename_i conn₁ _ hget
    rw [hget] at hbuffers
    exact hbuffers

/-- Every step of every thread keeps the invariant, and what it sends carries the id. -/
theorem PeerIdInv.exec {op : ClientOp} (h : PeerIdInv idSet t.conn)
    (hready : ∀ id ∈ op.sets t, t.conn.AllChannels fun chan =>
      ∀ p ∈ chan.queuedReliables, p.readPeerId = id)
    (hs : op.exec t = .ok (wire, t')) :
    PeerIdInv ((op.sets t).or idSet) t'.conn ∧ ∀ p ∈ wire, HasSender idSet p := by
  by_cases hop : op = .processCommand
  · subst hop
    exact h.processCommand hready hs
  have hnone : op.sets t = none := by
    unfold ClientOp.sets
    split
    · exact absurd rfl hop
    · rfl
  rw [hnone, Option.none_or]
  cases op with
  | send peerId channelnum command payload reliable =>
    simp only [ClientOp.exec, Connection.send] at hs
    split_ifs at hs
    cases hs
    exact ⟨h.putCommand (by simp), by simp⟩
  | disconnect =>
    cases hs
    exact ⟨h.putCommand (by simp), by simp⟩
  | disconnectPeer peerId =>
    cases hs
    exact ⟨h.putCommand (by simp), by simp⟩
  | datagram d =>
    cases hs
    exact ⟨h.receives_path (Connection.receives_handleDatagram d), by simp⟩
  | buffers =>
    cases hs
    exact ⟨h.receives_path receives_receiveBuffers, by simp⟩
  | resendTimedOuts peerId channelnum expired quota =>
    exact h.emits (SendThread.emits_resendTimedOuts stable_hasSender hs)
  | updateTimers peerId channelnum size => exact h.emits (SendThread.emits_updateTimers hs)
  | ping peerId => exact h.emits (SendThread.emits_ping h.makes hs)
  | runCommandQueue peerId channelnum maxtransfer =>
    exact h.emits (SendThread.emits_runCommandQueue h.makes hs)
  | processCommand => exact absurd rfl hop
  | sendQueued peerId channelnum => exact h.emits (SendThread.emits_sendQueued hs)
  | sendOutgoing remaining => exact h.emits (SendThread.emits_sendOutgoing h.makes hs)
  | deletePeer peerId timeout =>
    cases hs
    exact h.emits (SendThread.emits_deletePeer timeout)

/-- A client that has just connected has one peer with empty channels, and one command. -/
theorem PeerIdInv.connect {protocolId maxPacketSize : UInt32} {canBind : Address → Bool}
    {address : Address} (hs : ({ conn := { protocolId }, maxPacketSize, canBind } :
      SendThread).connect address = some t) : PeerIdInv none t.conn := by
  unfold SendThread.connect at hs
  obtain ⟨conn, hconn, hs⟩ := Option.bind_eq_some_iff.mp hs
  unfold Connection.createServerPeer at hconn
  split_ifs at hconn
  cases hconn
  dsimp only at hs
  split_ifs at hs
  obtain ⟨conn, hsend, hs⟩ := Option.bind_eq_some_iff.mp hs
  unfold Connection.send at hsend
  split_ifs at hsend
  cases hsend
  cases hs
  refine ⟨fun c hc => ?_, by simp, fun peer hpeer ch => ?_⟩
  · obtain rfl : c = _ := List.mem_singleton.mp hc
    exact ⟨by simp, by simp, by simp⟩
  · obtain rfl : peer = _ := List.mem_singleton.mp hpeer
    exact ⟨by simp, by simp⟩

end Invariant

namespace Client

theorem apply_eq_ok {op : ClientOp} {s s' : Client} (h : s.apply op = .ok s') :
    ∃ wire thread, op.exec s.thread = .ok (wire, thread) ∧ s' = {
      thread
      peerIdSet := (op.sets s.thread).or s.peerIdSet
      sentSince := if s.peerIdSet.isSome then s.sentSince ++ wire else s.sentSince } := by
  obtain ⟨⟨wire, thread⟩, hexec, h⟩ := bind_eq_ok.mp h
  exact ⟨wire, thread, hexec, (Except.ok.inj h).symm⟩

/-- What the client sent since `CONNCMD_PEER_ID_SET` carries the id of the command, in every run
in which no packet with another id is queued when the command is processed. -/
theorem sender_of_run {s : Client} (h : lts.Run QueuesReady s) :
    ∀ id ∈ s.peerIdSet, ∀ p ∈ s.sentSince, p.readPeerId = id := by
  suffices hinv : PeerIdInv s.peerIdSet s.thread.conn ∧
      (s.peerIdSet = none → s.sentSince = []) ∧
      ∀ id ∈ s.peerIdSet, ∀ p ∈ s.sentSince, p.readPeerId = id from hinv.2.2
  refine Lts.Run.invariant (I := fun s : Client => PeerIdInv s.peerIdSet s.thread.conn ∧
    (s.peerIdSet = none → s.sentSince = []) ∧
    ∀ id ∈ s.peerIdSet, ∀ p ∈ s.sentSince, p.readPeerId = id) ?_ ?_ h
  · rintro s ⟨_, _, _, _, hconnect, hid, hsent⟩
    rw [hid, hsent]
    exact ⟨.connect hconnect, fun _ => rfl, by simp⟩
  · rintro s op s' ⟨hinv, hempty, hsent⟩ hready hs
    obtain ⟨wire, thread, hexec, rfl⟩ := apply_eq_ok hs
    obtain ⟨hinv', hwire⟩ := hinv.exec hready hexec
    refine ⟨hinv', ?_, ?_⟩
    · intro hnone
      obtain ⟨-, hnone⟩ := Option.or_eq_none_iff.mp hnone
      simp [hnone, hempty hnone]
    · intro id hid p hp
      cases hset : s.peerIdSet with
      | none => simp [hset, hempty hset] at hp
      | some id₀ =>
        -- the id does not change any more
        have hid₀ : id = id₀ := by
          rw [(hinv.set id₀ hset).1]
          rcases Option.or_eq_some_iff.mp hid with hid | ⟨-, hid⟩
          · exact hinv.eq_of_sets hid
          · exact (hinv.set id hid).1
        rw [hset] at hp
        rcases List.mem_append.mp hp with hp | hp
        · exact hid₀ ▸ hsent id₀ hset p hp
        · exact hid₀ ▸ (hwire p hp).2 id₀ hset

/-! ## A packet that misses the id -/

-- the ids range over the option, not over every 16-bit number
instance (s : Client) (op : ClientOp) : Decidable (s.QueuesReady op) :=
  @Option.decidableForallMem _ (fun id => ∀ peer ∈ s.thread.conn.peers,
    ∀ ch, ∀ p ∈ (peer.channels ch).queuedReliables, p.readPeerId = id)
    (fun _ => inferInstance) (op.sets s.thread)

def exec (op : ClientOp) (s : Client) : Option Client := (s.apply op).toOption

theorem step_of_exec {s s' : Client} {op : ClientOp} (h : s.exec op = some s') :
    lts.step s op s' := by
  unfold exec at h
  change s.apply op = .ok s'
  cases hs : s.apply op with
  | error e => rw [hs] at h; exact nomatch h
  | ok s₁ => rw [hs] at h; rw [Option.some.inj h]

def serverAddress : Address := ⟨[127, 0, 0, 1], 30000⟩

/-- The client once it has connected to the server and sent the dummy packet. -/
def dummySent : List ClientOp := [.processCommand, .sendQueued PEER_ID_SERVER 0]

/-- The server's first packet: the reliable `CONTROLTYPE_SET_PEER_ID` with the id 5. -/
def setPeerIdDatagram : Connection.Datagram where
  sender := serverAddress
  data := writeU32 0x4f457403 ++ writeU16 PEER_ID_SERVER ++ [0] ++
    makeReliablePacket (PACKET_TYPE_CONTROL :: CONTROLTYPE_SET_PEER_ID :: writeU16 5)
      SEQNUM_INITIAL

/-- The packet arrives, and its ack and `CONNCMD_PEER_ID_SET` are processed. -/
def peerIdArrives : List ClientOp := [.datagram setPeerIdDatagram, .processCommand, .processCommand]

/-- A reliable payload is put into the command queue and becomes a queued packet. -/
def payloadQueued : List ClientOp := [.send PEER_ID_SERVER 0 42 [7] true, .processCommand]

def fresh : SendThread where
  conn := { protocolId := 0x4f457403 }
  maxPacketSize := 512

def idsAfter (ok : Client → ClientOp → Prop) [∀ s op, Decidable (ok s op)] (ops : List ClientOp) :
    Option (Option SessionT × List SessionT) := do
  let thread ← fresh.connect serverAddress
  let s ← Lts.execAll exec ok ops { thread }
  pure (s.peerIdSet, s.sentSince.map (·.readPeerId))

theorem exists_run (ok : Client → ClientOp → Prop) [∀ s op, Decidable (ok s op)]
    (ops : List ClientOp) {idSet : Option SessionT} {ids : List SessionT}
    (h : idsAfter ok ops = some (idSet, ids)) :
    ∃ s, lts.Run ok s ∧ s.peerIdSet = idSet ∧ s.sentSince.map (·.readPeerId) = ids := by
  unfold idsAfter at h
  cases hconnect : fresh.connect serverAddress with
  | none =>
    rw [hconnect] at h
    exact nomatch h
  | some thread =>
    rw [hconnect] at h
    obtain ⟨_, ⟨⟩, h⟩ := Option.bind_eq_some_iff.mp h
    obtain ⟨s, hexec, h⟩ := Option.bind_eq_some_iff.mp h
    obtain ⟨rfl, rfl⟩ := Prod.mk.inj (Option.some.inj h)
    have hinit : lts.Run ok { thread } := .init ⟨_, _, _, _, hconnect, rfl, rfl⟩
    exact ⟨s, hinit.execAll exec ok (fun _ _ _ => step_of_exec) hexec, rfl, rfl⟩

/-- The payload is queued after the id has been set. -/
theorem sender_of_run_later : ∃ s : Client, s.peerIdSet = some 5 ∧ s.sentSince ≠ [] ∧
    ∀ id ∈ s.peerIdSet, ∀ p ∈ s.sentSince, p.readPeerId = id := by
  obtain ⟨s, hrun, hset, hids⟩ := exists_run QueuesReady
    (dummySent ++ peerIdArrives ++ payloadQueued ++ [.sendQueued PEER_ID_SERVER 0])
    (show _ = some (some 5, [5]) by decide +kernel)
  refine ⟨s, hset, ?_, sender_of_run hrun⟩
  intro hnil
  simp [hnil] at hids

/-- The id arrives while the payload is queued: it is sent without a peer id. -/
theorem not_sender : ¬∀ s, lts.Reach s →
    ∀ id ∈ s.peerIdSet, ∀ p ∈ s.sentSince, p.readPeerId = id := by
  intro h
  obtain ⟨s, hrun, hset, hids⟩ := exists_run (fun _ _ => True)
    (dummySent ++ payloadQueued ++ peerIdArrives ++ [.sendQueued PEER_ID_SERVER 0])
    (show _ = some (some 5, [0]) by decide +kernel)
  have hmem : (0 : SessionT) ∈ s.sentSince.map (·.readPeerId) := by
    rw [hids]
    exact List.mem_singleton_self _
  obtain ⟨p, hp, hid⟩ := List.mem_map.mp hmem
  exact absurd (h s hrun 5 hset p hp) (by rw [hid]; decide)

end Client

end Freeminer.Mtp
