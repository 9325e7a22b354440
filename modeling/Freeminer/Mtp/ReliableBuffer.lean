import Freeminer.Mtp.Packet
import Freeminer.Lib.KeyOrder

/-! `ReliablePacketBuffer`: packets kept in the order of their distance from the expected
sequence number. The comparisons of `insert` distinguish whether the number has wrapped; on
the circle both loops compare distances (`isBefore_iff`). -/

namespace Freeminer.Mtp

open Lib

abbrev ReliablePacketBuffer := List BufferedPacket

namespace ReliablePacketBuffer

def getFirstSeqnum (b : ReliablePacketBuffer) : Option UInt16 := b.head?.map (·.getSeqnum)

/-- `popFirst`; `none` is the `NotFoundException`. -/
def popFirst : ReliablePacketBuffer → Option (BufferedPacket × ReliablePacketBuffer)
  | [] => none
  | p :: b => some (p, b)

def findPacketNoLock (b : ReliablePacketBuffer) (seqnum : UInt16) : Option BufferedPacket :=
  b.find? fun p => p.getSeqnum == seqnum

/-- `popSeqnum`; `none` is the `NotFoundException`. -/
def popSeqnum (b : ReliablePacketBuffer) (seqnum : UInt16) :
    Option (BufferedPacket × ReliablePacketBuffer) :=
  (b.findPacketNoLock seqnum).map fun p => (p, b.eraseP fun p => p.getSeqnum == seqnum)

/-- The condition under which `insert` walks on past a packet numbered `s`. -/
def isBefore (nextExpected seqnum s : UInt16) : Bool :=
  if seqnum < nextExpected then s < seqnum || s ≥ nextExpected
  else s < seqnum && s ≥ nextExpected

def insert (b : ReliablePacketBuffer) (p : BufferedPacket) (nextExpected : UInt16) :
    Except ConException ReliablePacketBuffer :=
  if p.size < BASE_HEADER_SIZE + 3 then .ok b
  else if readU8 (p.data.drop BASE_HEADER_SIZE) ≠ PACKET_TYPE_RELIABLE then .ok b
  else if !seqnumInWindow p.getSeqnum nextExpected MAX_RELIABLE_WINDOW_SIZE then .ok b
  else if p.getSeqnum = nextExpected then .ok b
  else if b.length > SEQNUM_MAX then .error .sanityCheck
  else
    match b.dropWhile fun i => isBefore nextExpected p.getSeqnum i.getSeqnum with
    -- the number last compared was before that of `p`, so it is another one
    | [] => .ok ((b.takeWhile fun i => isBefore nextExpected p.getSeqnum i.getSeqnum) ++ [p])
    | i :: rest =>
      if i.getSeqnum = p.getSeqnum then
        if i.size ≠ p.size ∨ i.address ≠ p.address then .error .incomingDataCorruption
        else .ok b
      else
        .ok ((b.takeWhile fun i => isBefore nextExpected p.getSeqnum i.getSeqnum) ++ p :: i :: rest)

def fixPeerId (b : ReliablePacketBuffer) (newId : SessionT) : ReliablePacketBuffer :=
  b.map (·.setSenderPeerId newId)

/-- `getResend`, where `expired` says which packets have waited long enough and `n` is how many
are collected already. -/
def getResendFrom (expired : BufferedPacket → Bool) (maxPackets n : ℕ) :
    ReliablePacketBuffer → ReliablePacketBuffer × List BufferedPacket
  | [] => ([], [])
  | p :: b =>
    if !expired p then
      let (b', out) := getResendFrom expired maxPackets n b
      (p :: b', out)
    else
      let p' := { p with resendCount := p.resendCount + 1 }
      if n + 1 ≥ maxPackets then (p' :: b, [p'])
      else
        let (b', out) := getResendFrom expired maxPackets (n + 1) b
        (p' :: b', p' :: out)

def getResend (b : ReliablePacketBuffer) (expired : BufferedPacket → Bool) (maxPackets : ℕ) :
    ReliablePacketBuffer × List BufferedPacket :=
  getResendFrom expired maxPackets 0 b

/-! ## Order -/

theorem isBefore_iff (nextExpected seqnum s : UInt16) :
    isBefore nextExpected seqnum s = true ↔
      serialDist s nextExpected < serialDist seqnum nextExpected := by
  have h1 := nextExpected.toNat_lt
  have h2 := seqnum.toNat_lt
  have h3 := s.toNat_lt
  rw [serialDist_eq, serialDist_eq, isBefore]
  split <;> rename_i h <;>
    simp only [UInt16.lt_iff_toNat_lt, ge_iff_le, UInt16.le_iff_toNat_le, Bool.or_eq_true,
      Bool.and_eq_true, decide_eq_true_eq] at * <;> omega

def ahead (nextExpected : UInt16) (p : BufferedPacket) : ℕ :=
  serialDist p.getSeqnum nextExpected

variable {b b' : ReliablePacketBuffer} {p q : BufferedPacket} {nextExpected : UInt16}

theorem isBefore_eq (p q : BufferedPacket) :
    isBefore nextExpected p.getSeqnum q.getSeqnum = decide (ahead nextExpected q < ahead nextExpected p) := by
  rw [Bool.eq_iff_iff, isBefore_iff, decide_eq_true_eq, ahead, ahead]

/-- A packet whose number is in the window, not the expected one, and in the buffer under no
packet, is inserted in order. -/
theorem insert_of_new (hp : p.IsReliable) (h0 : 0 < ahead nextExpected p)
    (hw : ahead nextExpected p < 0x8000) (hlen : b.length ≤ SEQNUM_MAX)
    (hnew : ∀ q ∈ b, q.getSeqnum ≠ p.getSeqnum) :
    b.insert p nextExpected = .ok (insertByKey (ahead nextExpected) p b) := by
  have hin : seqnumInWindow p.getSeqnum nextExpected MAX_RELIABLE_WINDOW_SIZE = true :=
    (seqnumInWindow_iff _ _).mpr hw
  have hne : p.getSeqnum ≠ nextExpected := by
    intro h
    simp [ahead, h] at h0
  rw [insert, if_neg (by have := hp.size; omega), if_neg (by simp [hp.type])]
  simp only [hin, Bool.not_true, Bool.false_eq_true, if_false, hne, isBefore_eq, gt_iff_lt,
    not_lt.mpr hlen]
  split <;> rename_i hd
  · simp only [insertByKey, hd]
  · rename_i i rest
    have hi : i ∈ b := (List.dropWhile_sublist _).subset (hd ▸ List.mem_cons_self)
    rw [if_neg (hnew i hi)]
    simp only [insertByKey, hd]

/-- A packet with the expected number, or one outside the window, is dropped. -/
theorem insert_of_outside (h : ahead nextExpected p = 0 ∨ 0x8000 ≤ ahead nextExpected p) :
    b.insert p nextExpected = .ok b := by
  unfold insert
  split_ifs with h1 h2 h3 h4 h5
  any_goals rfl
  all_goals
    exfalso
    rw [Bool.not_eq_true', Bool.not_eq_false, seqnumInWindow_iff] at h3
    rcases h with h | h
    · exact h4 (serialDist_eq_zero.mp h)
    · exact absurd h3 (not_lt.mpr h)

/-- A packet whose number is in the window, not the expected one, and in the buffer already. -/
theorem insert_of_mem (hp : p.IsReliable) (h0 : 0 < ahead nextExpected p)
    (hw : ahead nextExpected p < 0x8000) (hlen : b.length ≤ SEQNUM_MAX)
    (horder : Increasing (ahead nextExpected) b) (hq : q ∈ b) (hseq : q.getSeqnum = p.getSeqnum) :
    b.insert p nextExpected =
      if q.size ≠ p.size ∨ q.address ≠ p.address then .error .incomingDataCorruption else .ok b := by
  have hin : seqnumInWindow p.getSeqnum nextExpected MAX_RELIABLE_WINDOW_SIZE = true :=
    (seqnumInWindow_iff _ _).mpr hw
  have hne : p.getSeqnum ≠ nextExpected := by
    intro h
    simp [ahead, h] at h0
  have hhead := horder.head_dropWhile (a := p) hq (by rw [ahead, ahead, hseq])
  rw [insert, if_neg (by have := hp.size; omega), if_neg (by simp [hp.type])]
  simp only [hin, Bool.not_true, Bool.false_eq_true, if_false, hne, isBefore_eq, gt_iff_lt,
    not_lt.mpr hlen]
  split <;> rename_i hd
  · rw [hd] at hhead
    exact nomatch hhead
  · rw [hd] at hhead
    obtain rfl := Option.some.inj hhead
    rw [if_pos hseq]

theorem insert_cases (b : ReliablePacketBuffer) (p : BufferedPacket) (nextExpected : UInt16) :
    (b.insert p nextExpected = .ok b ∧
      (¬p.IsReliable ∨ ahead nextExpected p = 0 ∨ 0x8000 ≤ ahead nextExpected p ∨
        ∃ q ∈ b, q.getSeqnum = p.getSeqnum)) ∨
    (b.insert p nextExpected = .ok (insertByKey (ahead nextExpected) p b) ∧
      0 < ahead nextExpected p ∧ ahead nextExpected p < 0x8000) ∨
    (b.insert p nextExpected = .error .incomingDataCorruption ∧
      ∃ q ∈ b, q.getSeqnum = p.getSeqnum ∧ (q.size ≠ p.size ∨ q.address ≠ p.address)) ∨
    (b.insert p nextExpected = .error .sanityCheck ∧ SEQNUM_MAX < b.length) := by
  unfold insert
  split_ifs with h1 h2 h3 h4 h5
  · exact .inl ⟨rfl, .inl fun hp => by have := hp.size; omega⟩
  · exact .inl ⟨rfl, .inl fun hp => h2 hp.type⟩
  · refine .inl ⟨rfl, .inr (.inr (.inl ?_))⟩
    rw [Bool.not_eq_true', ← Bool.not_eq_true, seqnumInWindow_iff] at h3
    exact not_lt.mp h3
  · exact .inl ⟨rfl, .inr (.inl (serialDist_eq_zero.mpr h4))⟩
  · exact .inr (.inr (.inr ⟨rfl, h5⟩))
  · have h0 : 0 < ahead nextExpected p := Nat.pos_of_ne_zero fun h => h4 (serialDist_eq_zero.mp h)
    have hw : ahead nextExpected p < 0x8000 := by
      rw [Bool.not_eq_true', Bool.not_eq_false, seqnumInWindow_iff] at h3
      exact h3
    simp only [isBefore_eq]
    split <;> rename_i hd
    · refine .inr (.inl ⟨?_, h0, hw⟩)
      rw [insertByKey, hd]
    · rename_i i rest
      have hi : i ∈ b := (List.dropWhile_sublist _).subset (hd ▸ List.mem_cons_self)
      split_ifs with h6 h7
      · exact .inr (.inr (.inl ⟨rfl, i, hi, h6, h7⟩))
      · exact .inl ⟨rfl, .inr (.inr (.inr ⟨i, hi, h6⟩))⟩
      · refine .inr (.inl ⟨?_, h0, hw⟩)
        rw [insertByKey, hd]

/-- `insert` never invents or loses a packet. -/
theorem mem_of_insert (h : b.insert p nextExpected = .ok b') :
    b' = b ∨ ∀ q, q ∈ b' ↔ q = p ∨ q ∈ b := by
  rcases insert_cases b p nextExpected with ⟨he, -⟩ | ⟨he, -⟩ | ⟨he, -⟩ | ⟨he, -⟩ <;>
    rw [he] at h
  · exact .inl (Except.ok.inj h).symm
  · obtain rfl := Except.ok.inj h
    exact .inr fun q => mem_insertByKey
  · exact nomatch h
  · exact nomatch h

/-! ## The other operations -/

theorem popSeqnum_eq_none {seqnum : UInt16} :
    b.popSeqnum seqnum = none ↔ ∀ p ∈ b, p.getSeqnum ≠ seqnum := by
  simp [popSeqnum, findPacketNoLock]

/-- `q` is `p` but for the sender id and the resend count. -/
structure SamePacket (p q : BufferedPacket) : Prop where
  seqnum : q.getSeqnum = p.getSeqnum
  payload : q.payload = p.payload
  reliable : p.IsReliable → q.IsReliable

theorem SamePacket.refl (p : BufferedPacket) : SamePacket p p := ⟨rfl, rfl, id⟩

theorem SamePacket.refl_list (b : ReliablePacketBuffer) : List.Forall₂ SamePacket b b :=
  List.forall₂_same.mpr fun p _ => .refl p

theorem map_getSeqnum_of_same (h : List.Forall₂ SamePacket b b') :
    b'.map (·.getSeqnum) = b.map (·.getSeqnum) := by
  induction h with
  | nil => rfl
  | cons hpq _ ih => rw [List.map_cons, List.map_cons, hpq.seqnum, ih]

theorem exists_same_of_mem (h : List.Forall₂ SamePacket b b') (hq : q ∈ b') :
    ∃ p ∈ b, SamePacket p q := by
  induction h with
  | nil => simp at hq
  | cons hpq _ ih =>
    rcases List.mem_cons.mp hq with rfl | hq
    · exact ⟨_, List.mem_cons_self, hpq⟩
    · obtain ⟨p, hp, hpq⟩ := ih hq
      exact ⟨p, List.mem_cons_of_mem _ hp, hpq⟩

theorem exists_same_mem (h : List.Forall₂ SamePacket b b') (hp : p ∈ b) :
    ∃ q ∈ b', SamePacket p q := by
  induction h with
  | nil => simp at hp
  | cons hpq _ ih =>
    rcases List.mem_cons.mp hp with rfl | hp
    · exact ⟨_, List.mem_cons_self, hpq⟩
    · obtain ⟨q, hq, hpq⟩ := ih hp
      exact ⟨q, List.mem_cons_of_mem _ hq, hpq⟩

theorem fixPeerId_same (id : SessionT) (b : ReliablePacketBuffer) :
    List.Forall₂ SamePacket b (b.fixPeerId id) := by
  rw [fixPeerId, List.forall₂_map_right_iff, List.forall₂_same]
  exact fun p _ => ⟨getSeqnum_setSenderPeerId p id, payload_setSenderPeerId p id,
    fun hp => hp.setSenderPeerId p id⟩

theorem getResendFrom_same (expired : BufferedPacket → Bool) (maxPackets n : ℕ)
    (b : ReliablePacketBuffer) :
    List.Forall₂ SamePacket b (getResendFrom expired maxPackets n b).1 := by
  have hcount : ∀ p : BufferedPacket, SamePacket p { p with resendCount := p.resendCount + 1 } :=
    fun p => ⟨rfl, rfl, fun h => ⟨h.size, h.type⟩⟩
  induction b generalizing n with
  | nil => exact .nil
  | cons p b ih =>
    simp only [getResendFrom]
    split_ifs
    · exact .cons (.refl p) (ih n)
    · exact .cons (hcount p) (SamePacket.refl_list b)
    · exact .cons (hcount p) (ih (n + 1))

theorem mem_getResendFrom {expired : BufferedPacket → Bool} {maxPackets n : ℕ}
    (h : q ∈ (getResendFrom expired maxPackets n b).2) :
    q ∈ (getResendFrom expired maxPackets n b).1 := by
  induction b generalizing n with
  | nil => exact h
  | cons p b ih =>
    simp only [getResendFrom] at h ⊢
    split_ifs at h ⊢
    · exact List.mem_cons_of_mem _ (ih h)
    · simp only [List.mem_singleton] at h
      simp [h]
    · rcases List.mem_cons.mp h with rfl | h
      · simp
      · exact List.mem_cons_of_mem _ (ih h)

end ReliablePacketBuffer

end Freeminer.Mtp
