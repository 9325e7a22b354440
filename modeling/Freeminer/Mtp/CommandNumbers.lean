import Freeminer.Mtp.SenderSteps

/-! The numbers of the commands. `getOutgoingSequenceNumber` compares the next number with the
oldest unacked one: below the wrap it bounds their distance by the window, past the wrap by one
more. Whatever it answers, a command gets all the numbers it needs or none. -/

namespace Freeminer.Mtp

open Lib

namespace Channel

variable {env : SendEnv} {chan chan' : Channel} {c : ConnectionCommand}
  {originals : List SharedBuffer} {lowestUnacked : UInt16}

/-! ## The window test -/

def Grants (chan : Channel) : Prop := chan.getOutgoingSequenceNumber.1.isSome

/-- The criterion below the wrap, on the circle: the next number is at most a window past the
oldest unacked one. -/
def InWindow (chan : Channel) (lowestUnacked : UInt16) : Prop :=
  serialDist chan.nextOutgoingSeqnum lowestUnacked ≤ chan.windowSize.val.toNat

theorem grants_iff (hfirst : chan.outgoingReliablesSent.getFirstSeqnum = some lowestUnacked) :
    chan.Grants ↔ chan.windowExceeded lowestUnacked = false := by
  simp only [Grants, getOutgoingSequenceNumber, hfirst]
  split_ifs with hexceeded <;> simp [hexceeded]

/-- Below the wrap the test is the criterion. -/
theorem windowExceeded_of_lt (h : lowestUnacked < chan.nextOutgoingSeqnum) :
    chan.windowExceeded lowestUnacked = false ↔ chan.InWindow lowestUnacked := by
  have hnext := chan.nextOutgoingSeqnum.toNat_lt
  rw [UInt16.lt_iff_toNat_lt] at h
  have hsub := UInt16.toNat_sub_of_le _ _ (UInt16.le_iff_toNat_le.mpr h.le)
  rw [windowExceeded, if_pos (UInt16.lt_iff_toNat_lt.mpr h), decide_eq_false_iff_not, gt_iff_lt,
    UInt16.lt_iff_toNat_lt, hsub, InWindow, serialDist_eq]
  omega

/-- Past the wrap the test allows one more. -/
theorem windowExceeded_of_wrapped (h : chan.nextOutgoingSeqnum < lowestUnacked) :
    chan.windowExceeded lowestUnacked = false ↔
      serialDist chan.nextOutgoingSeqnum lowestUnacked ≤ chan.windowSize.val.toNat + 1 := by
  have hlowest := lowestUnacked.toNat_lt
  rw [UInt16.lt_iff_toNat_lt] at h
  rw [windowExceeded, if_neg (by rw [UInt16.lt_iff_toNat_lt]; omega), decide_eq_false_iff_not,
    serialDist_eq, SEQNUM_MAX]
  omega

/-- Equal numbers count as a whole turn apart. -/
theorem windowExceeded_self : chan.windowExceeded chan.nextOutgoingSeqnum = true := by
  have hnext := chan.nextOutgoingSeqnum.toNat_lt
  have hwindow := chan.windowSize.le_max
  rw [MAX_RELIABLE_WINDOW_SIZE_SEND] at hwindow
  rw [windowExceeded, if_neg (by rw [UInt16.lt_iff_toNat_lt]; omega), decide_eq_true_eq, SEQNUM_MAX]
  omega

/-- The decision is that of the criterion, but for equal numbers and, past the wrap, for a
distance of one more than the window. -/
theorem grants_iff_inWindow
    (hfirst : chan.outgoingReliablesSent.getFirstSeqnum = some lowestUnacked) :
    (chan.Grants ↔ chan.InWindow lowestUnacked) ↔
      lowestUnacked ≠ chan.nextOutgoingSeqnum ∧
      ¬(chan.nextOutgoingSeqnum < lowestUnacked ∧
        serialDist chan.nextOutgoingSeqnum lowestUnacked = chan.windowSize.val.toNat + 1) := by
  rw [grants_iff hfirst]
  rcases Nat.lt_trichotomy lowestUnacked.toNat chan.nextOutgoingSeqnum.toNat with hlt | heq | hlt
  · have hwrapped : ¬chan.nextOutgoingSeqnum < lowestUnacked := by
      rw [UInt16.lt_iff_toNat_lt]
      omega
    have hne : lowestUnacked ≠ chan.nextOutgoingSeqnum := by
      rintro rfl
      exact lt_irrefl _ hlt
    simp [windowExceeded_of_lt (UInt16.lt_iff_toNat_lt.mpr hlt), hwrapped, hne]
  · obtain rfl := UInt16.toNat_inj.mp heq
    simp [windowExceeded_self, InWindow]
  · have hwrapped : chan.nextOutgoingSeqnum < lowestUnacked := UInt16.lt_iff_toNat_lt.mpr hlt
    rw [windowExceeded_of_wrapped hwrapped, InWindow]
    constructor
    · intro h
      refine ⟨?_, fun ⟨_, heq⟩ => by omega⟩
      rintro rfl
      exact lt_irrefl _ hlt
    · rintro ⟨-, h⟩
      have hne : serialDist chan.nextOutgoingSeqnum lowestUnacked ≠
          chan.windowSize.val.toNat + 1 := fun heq => h ⟨hwrapped, heq⟩
      omega

def somePeer (pendingDisconnect : Bool) : SendEnv := ⟨512, 0, 1, ⟨[], 0⟩, 0, pendingDisconnect⟩

def oneUnacked (next lowestUnacked : UInt16) : Channel where
  outgoingReliablesSent := [makeReliable (somePeer false) [] lowestUnacked]
  nextOutgoingSeqnum := next

theorem grants_iff_inWindow_wrapped :
    (oneUnacked 2 65530).Grants ↔ (oneUnacked 2 65530).InWindow 65530 :=
  (grants_iff_inWindow rfl).mpr (by decide)

/-- With a window of 64 a number 65 past the wrap is granted. -/
theorem not_grants_iff_inWindow : ¬∀ (chan : Channel) (lowestUnacked : UInt16),
    chan.outgoingReliablesSent.getFirstSeqnum = some lowestUnacked →
      serialDist chan.nextOutgoingSeqnum lowestUnacked ≤ 0x7fff →
        (chan.Grants ↔ chan.InWindow lowestUnacked) := by
  intro h
  have hgrants : (oneUnacked 0 65471).Grants := by
    unfold Grants
    decide
  exact absurd ((h (oneUnacked 0 65471) 65471 rfl (by decide)).mp hgrants) (by
    unfold InWindow
    decide)

/-! ## All the numbers or none -/

/-- What `processReliableSendCommand` returns, or which of its checks stops it. -/
inductive CommandOutcome (env : SendEnv) (c : ConnectionCommand) (chan : Channel) :
    Except ConException (Bool × Channel) → Prop
  | disconnecting (hpending : env.pendingDisconnect = true) :
      CommandOutcome env c chan (.ok (true, chan))
  | queued {originals : List SharedBuffer} {split : UInt16}
      (hsplit : splitCommand env c chan =
        .ok (originals, { chan with nextOutgoingSplitSeqnum := split })) :
      CommandOutcome env c chan (.ok (true, { chan with
        queuedReliables := chan.queuedReliables ++ numbering env chan.nextOutgoingSeqnum originals
        nextOutgoingSeqnum := chan.nextOutgoingSeqnum + UInt16.ofNat originals.length
        nextOutgoingSplitSeqnum := split }))
  | refused {split : UInt16} :
      CommandOutcome env c chan (.ok (false, { chan with nextOutgoingSplitSeqnum := split }))
  | notSplit (hsplit : splitCommand env c chan = .error .sanityCheck) :
      CommandOutcome env c chan (.error .sanityCheck)
  | tooLong {originals : List SharedBuffer} {split : UInt16}
      (hsplit : splitCommand env c chan =
        .ok (originals, { chan with nextOutgoingSplitSeqnum := split }))
      (hlen : 0x8000 ≤ originals.length ∨
        0xFFFF ≤ chan.queuedReliables.length + originals.length) :
      CommandOutcome env c chan (.error .sanityCheck)

/-- The `FATAL_ERROR_IF`: a number drawn for `originals` cannot be put back. -/
def FatalError (env : SendEnv) (originals : List SharedBuffer) (chan : Channel) : Prop :=
  ∃ p toadd chan', numberOriginals env false originals chan = (p :: toadd, false, chan') ∧
    putBackAll p.getSeqnum (toadd.length + 1) chan' = none

theorem not_fatalError : ¬FatalError env originals chan := by
  rintro ⟨p, toadd, chan', hnumber, hfatal⟩
  obtain ⟨hskip, -, taken, rest, -, htoadd, -⟩ := numberOriginals_spec hnumber
  cases taken with
  | nil => cases htoadd
  | cons original taken =>
    obtain ⟨rfl, -⟩ := List.cons.inj htoadd
    have hfirst : (makeReliable env original chan.nextOutgoingSeqnum).getSeqnum =
        chan.nextOutgoingSeqnum := getSeqnum_makePacket _ _ _ _ _ _
    rw [hskip, hfirst, List.length_cons, putBackAll_skip] at hfatal
    cases hfatal

theorem splitCommand_cases (env : SendEnv) (c : ConnectionCommand) (chan : Channel) :
    splitCommand env c chan = .error .sanityCheck ∨ ∃ originals split, splitCommand env c chan =
      .ok (originals, { chan with nextOutgoingSplitSeqnum := split }) := by
  simp only [splitCommand]
  split_ifs
  · exact .inr ⟨_, _, rfl⟩
  · split
    · exact .inl rfl
    · exact .inr ⟨_, _, rfl⟩

theorem queueOriginals_eq_error {e : ConException} (h : queueOriginals env originals chan = .error e) :
    e = .sanityCheck ∧
      (0x8000 ≤ originals.length ∨ 0xFFFF ≤ chan.queuedReliables.length + originals.length) := by
  have hmax : MAX_RELIABLE_WINDOW_SIZE.toNat = 0x8000 := rfl
  rw [queueOriginals] at h
  split_ifs at h with hlen
  · rcases hnumber : numberOriginals env false originals chan with ⟨toadd, have₁, chan₁⟩
    rw [hnumber] at h
    obtain ⟨rfl, -, taken, rest, rfl, rfl, -⟩ := numberOriginals_spec hnumber
    cases have₁ with
    | true =>
      dsimp only at h
      split_ifs at h with hqueue
      refine ⟨(Except.error.inj h).symm, .inr ?_⟩
      have hqueue' : 0xFFFF ≤ (chan.queuedReliables ++
          numbering env chan.nextOutgoingSeqnum taken).length := not_lt.mp hqueue
      rw [List.length_append, length_numbering] at hqueue'
      rw [List.length_append]
      omega
    | false =>
      cases taken with
      | nil => cases h
      | cons original taken =>
        rw [numbering] at h hnumber
        dsimp only at h
        split at h
        · rename_i hfatal
          exact absurd ⟨_, _, _, hnumber, hfatal⟩ not_fatalError
        · cases h
  · exact ⟨(Except.error.inj h).symm, .inl (by omega)⟩

/-- A command is queued under the next numbers as a whole, or the numbers and the queue are as
before, and no number drawn is lost. -/
theorem commandOutcome (env : SendEnv) (c : ConnectionCommand) (chan : Channel) :
    CommandOutcome env c chan (processReliableSendCommand env c chan) ∧
      ∀ originals chan₁, splitCommand env c chan = .ok (originals, chan₁) →
        ¬FatalError env originals chan₁ := by
  refine ⟨?_, fun _ _ _ => not_fatalError⟩
  rw [processReliableSendCommand]
  split_ifs with hpending
  · exact .disconnecting hpending
  rcases splitCommand_cases env c chan with hsplit | ⟨originals, split, hsplit⟩
  · simp only [hsplit, bind, Except.bind]
    exact .notSplit hsplit
  simp only [hsplit, bind, Except.bind]
  rcases hqueue : queueOriginals env originals { chan with nextOutgoingSplitSeqnum := split } with
    e | ⟨done, chan'⟩
  · obtain ⟨rfl, hlen⟩ := queueOriginals_eq_error hqueue
    exact .tooLong hsplit hlen
  · rcases queueOriginals_cases hqueue with ⟨rfl, rfl⟩ | ⟨rfl, -, -, -, rfl⟩
    · exact .refused
    · exact .queued hsplit

def rawCommand : ConnectionCommand where
  type := .send
  data := [42]
  reliable := true
  raw := true

def queueFull : Channel where
  queuedReliables := List.replicate 0xFFFE (makeReliable (somePeer false) [] 0)

/-- All the packets are queued under the next numbers, or numbers and queue are as before. -/
def Atomic (env : SendEnv) (c : ConnectionCommand) (chan : Channel) : Prop :=
  ∃ done chan', processReliableSendCommand env c chan = .ok (done, chan') ∧
    (done = true ∧ (∃ originals chan₁, splitCommand env c chan = .ok (originals, chan₁) ∧
        chan'.queuedReliables =
          chan.queuedReliables ++ numbering env chan.nextOutgoingSeqnum originals) ∨
      done = false ∧ chan'.nextOutgoingSeqnum = chan.nextOutgoingSeqnum ∧
        chan'.queuedReliables = chan.queuedReliables)

theorem processReliableSendCommand_of_full (hsent : chan.outgoingReliablesSent = [])
    (hlen : chan.queuedReliables.length = 0xFFFE) :
    processReliableSendCommand (somePeer false) rawCommand chan = .error .sanityCheck := by
  have hsplit : splitCommand (somePeer false) rawCommand chan = .ok ([rawCommand.data], chan) := rfl
  have hmax : MAX_RELIABLE_WINDOW_SIZE.toNat = 0x8000 := rfl
  rw [processReliableSendCommand, if_neg (by simp [somePeer]), hsplit]
  simp only [bind, Except.bind]
  rw [queueOriginals, if_neg (by simp [hmax]), numberOriginals_of_empty hsent]
  simp only [List.isEmpty_cons, Bool.not_false, Bool.or_true]
  rw [if_pos]
  intro hlt
  rw [List.length_append, length_numbering] at hlt
  have hskip : (chan.skip [rawCommand.data].length).queuedReliables = chan.queuedReliables := rfl
  rw [hskip, hlen, List.length_singleton] at hlt
  exact absurd hlt (by decide)

/-- A peer that is to be disconnected takes commands and queues nothing, and where the queue is
full the process ends. -/
theorem not_atomic : ¬Atomic (somePeer true) rawCommand {} ∧
    ¬Atomic (somePeer false) rawCommand queueFull := by
  constructor
  · rintro ⟨done, chan', hprocess, hcases⟩
    have hpending : processReliableSendCommand (somePeer true) rawCommand {} = .ok (true, {}) :=
      if_pos rfl
    rw [hpending] at hprocess
    obtain ⟨rfl, rfl⟩ := Prod.mk.inj (Except.ok.inj hprocess)
    rcases hcases with ⟨-, originals, chan₁, hsplit, hqueue⟩ | ⟨hdone, -⟩
    · obtain ⟨rfl, rfl⟩ := Prod.mk.inj (Except.ok.inj hsplit)
      exact absurd (congrArg List.length hqueue) (by decide)
    · cases hdone
  · rintro ⟨done, chan', hprocess, -⟩
    rw [processReliableSendCommand_of_full rfl List.length_replicate] at hprocess
    cases hprocess

end Channel

end Freeminer.Mtp
