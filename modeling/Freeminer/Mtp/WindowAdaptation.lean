import Mathlib.Tactic.Linarith
import Freeminer.Mtp.Channel

/-! `Channel::UpdateTimers`: the counters of a channel, and how the window for reliable packets
follows them. Times and rates are rationals. -/

namespace Freeminer.Mtp

/-- A rate in KiB/s: the present one, the highest one and the mean. -/
structure Kbps where
  cur : ℚ := 0
  max : ℚ := 0
  avg : ℚ := 0

structure ChannelRates where
  windowSize : WindowSize
  currentPacketLoss : UInt32 := 0
  currentPacketTooLate : UInt32 := 0
  currentPacketSuccessful : UInt32 := 0
  packetLossCounter : ℚ := 0
  currentBytesTransfered : UInt32 := 0
  currentBytesReceived : UInt32 := 0
  currentBytesLost : UInt32 := 0
  kbps : Kbps := {}
  incomingKbps : Kbps := {}
  kbpsLost : Kbps := {}
  bpmCounter : ℚ := 0
  rateSamples : ℕ := 0

def Kbps.update (rate : Kbps) (bytes : UInt32) (bpmCounter : ℚ) (rateSamples : ℕ) : Kbps :=
  let cur := bytes.toNat / bpmCounter / 1024
  let oldFraction : ℚ := (rateSamples - 1) / rateSamples
  { cur, max := if rate.max < cur then cur else rate.max,
    avg := rate.avg * oldFraction + cur * (1 - oldFraction) }

namespace ChannelRates

def updatePacketLossCounter (c : ChannelRates) (count : UInt32) : ChannelRates :=
  { c with currentPacketLoss := c.currentPacketLoss + count }

def updatePacketTooLateCounter (c : ChannelRates) : ChannelRates :=
  { c with currentPacketTooLate := c.currentPacketTooLate + 1 }

def updateBytesSent (c : ChannelRates) (bytes packets : UInt32) : ChannelRates :=
  { c with
    currentBytesTransfered := c.currentBytesTransfered + bytes
    currentPacketSuccessful := c.currentPacketSuccessful + packets }

def updateBytesLost (c : ChannelRates) (bytes : UInt32) : ChannelRates :=
  { c with currentBytesLost := c.currentBytesLost + bytes }

def updateBytesReceived (c : ChannelRates) (bytes : UInt32) : ChannelRates :=
  { c with currentBytesReceived := c.currentBytesReceived + bytes }

def reasonableAmountOfDataTransmitted (c : ChannelRates) : Bool :=
  c.windowSize.val.toNat * 512 / 2 < c.currentBytesTransfered.toNat

end ChannelRates

/-- `std::min` -/
def stdMin (a b : UInt32) : UInt32 := if b < a then b else a

/-- The new window; the ratio is a quotient of unsigned integers. -/
def WindowSize.adapt (w : WindowSize) (packetLoss packetsSuccessful : UInt32)
    (reasonable : Bool) : WindowSize :=
  let size : ℤ := w.val.toNat
  if packetsSuccessful = 0 ∧ 0 < packetLoss then .set (size - 10)
  else
    let successfulToLostRatio : ℚ :=
      if 0 < packetsSuccessful then (packetLoss / packetsSuccessful).toNat else 0
    if successfulToLostRatio < 1 / 100 then if reasonable then .set (size + 100) else w
    else if successfulToLostRatio < 5 / 100 then if reasonable then .set (size + 50) else w
    else if 15 / 100 < successfulToLostRatio then .set (size - 100)
    else if 10 / 100 < successfulToLostRatio then .set (size - 50)
    else w

namespace ChannelRates

/-- The end of a measurement interval; of the packets lost as many count as were successful. -/
def adaptWindow (c : ChannelRates) : ChannelRates :=
  { c with
    packetLossCounter := c.packetLossCounter - 1
    currentPacketLoss := 0
    currentPacketTooLate := 0
    currentPacketSuccessful := 0
    windowSize := c.windowSize.adapt
      (stdMin (c.currentPacketLoss + c.currentPacketTooLate) c.currentPacketSuccessful)
      c.currentPacketSuccessful c.reasonableAmountOfDataTransmitted }

def updateRates (c : ChannelRates) : ChannelRates :=
  let rateSamples := min (c.rateSamples + 1) 10
  { c with
    kbps := c.kbps.update c.currentBytesTransfered c.bpmCounter rateSamples
    kbpsLost := c.kbpsLost.update c.currentBytesLost c.bpmCounter rateSamples
    incomingKbps := c.incomingKbps.update c.currentBytesReceived c.bpmCounter rateSamples
    currentBytesTransfered := 0
    currentBytesLost := 0
    currentBytesReceived := 0
    bpmCounter := 0
    rateSamples }

def updateTimers (c : ChannelRates) (dtime : ℚ) : ChannelRates :=
  let c := { c with
    bpmCounter := c.bpmCounter + dtime, packetLossCounter := c.packetLossCounter + dtime }
  let c := if 1 < c.packetLossCounter then c.adaptWindow else c
  if 10 < c.bpmCounter then c.updateRates else c

/-- The packets that count as lost: also those that came too late. -/
def lost (c : ChannelRates) : ℕ := c.currentPacketLoss.toNat + c.currentPacketTooLate.toNat

end ChannelRates

/-! ## What the window should do -/

/-- The window shrinks when the exact ratio is over the thresholds, and by `step` when packets were
lost and none was successful; it grows only below the threshold of low loss. -/
structure Follows (step : ℕ) (w : WindowSize) (lost successful : ℕ) (w' : WindowSize) : Prop where
  high : 0 < successful → 15 / 100 < (lost / successful : ℚ) →
    w' = .set ((w.val.toNat : ℤ) - 100)
  raised : 0 < successful → 10 / 100 < (lost / successful : ℚ) → (lost / successful : ℚ) ≤ 15 / 100 →
    w' = .set ((w.val.toNat : ℤ) - 50)
  none_successful : successful = 0 → 0 < lost → w' = .set ((w.val.toNat : ℤ) - step)
  low : w.val < w'.val →
    lost = 0 ∨ 0 < successful ∧ (lost / successful : ℚ) < 5 / 100
  range : MIN_RELIABLE_WINDOW_SIZE ≤ w'.val.toNat ∧ w'.val.toNat ≤ MAX_RELIABLE_WINDOW_SIZE_SEND

namespace WindowSize

theorem ext_toNat {w w' : WindowSize} (h : w.val.toNat = w'.val.toNat) : w = w' := by
  obtain ⟨val, _, _⟩ := w
  obtain ⟨val', _, _⟩ := w'
  obtain rfl : val = val' := UInt16.toNat_inj.mp h
  rfl

theorem toNat_set (size : ℤ) :
    (WindowSize.set size).val.toNat = max 32 (min size.toNat 2048) := by
  unfold WindowSize.set
  rw [UInt16.toNat_ofNat']
  simp only [MIN_RELIABLE_WINDOW_SIZE, MAX_RELIABLE_WINDOW_SIZE_SEND]
  omega

theorem range (w : WindowSize) : 32 ≤ w.val.toNat ∧ w.val.toNat ≤ 2048 := ⟨w.min_le, w.le_max⟩

/-- A window is what is left of it when it shrinks only if it is the smallest. -/
theorem eq_set_sub_iff {w : WindowSize} {k : ℕ} (hk : 0 < k) :
    w = .set ((w.val.toNat : ℤ) - k) ↔ w.val.toNat = 32 := by
  obtain ⟨hmin, hmax⟩ := w.range
  constructor
  · intro h
    have heq := congrArg (fun w => w.val.toNat) h
    simp only [toNat_set] at heq
    omega
  · intro h
    apply ext_toNat
    rw [toNat_set]
    omega

theorem set_add_ne_set_sub {w : WindowSize} {k : ℕ} (hk : 0 < k) :
    WindowSize.set ((w.val.toNat : ℤ) + 100) ≠ .set ((w.val.toNat : ℤ) - k) := by
  obtain ⟨hmin, hmax⟩ := w.range
  intro h
  have heq := congrArg (fun w => w.val.toNat) h
  simp only [toNat_set] at heq
  omega

/-- The quotient is zero or one, and with no success nothing counts as lost. -/
theorem adapt_stdMin (w : WindowSize) (packetLoss packetsSuccessful : UInt32) (reasonable : Bool) :
    w.adapt (stdMin packetLoss packetsSuccessful) packetsSuccessful reasonable =
      if 0 < packetsSuccessful ∧ packetsSuccessful ≤ packetLoss then
        .set ((w.val.toNat : ℤ) - 100)
      else if reasonable then .set ((w.val.toNat : ℤ) + 100) else w := by
  have hmin : (stdMin packetLoss packetsSuccessful).toNat =
      min packetLoss.toNat packetsSuccessful.toNat := by
    unfold stdMin
    split_ifs with h
    · exact (Nat.min_eq_right (UInt32.lt_iff_toNat_lt.mp h).le).symm
    · exact (Nat.min_eq_left (UInt32.le_iff_toNat_le.mp (UInt32.not_lt.mp h))).symm
  have hdead : ¬(packetsSuccessful = 0 ∧ 0 < stdMin packetLoss packetsSuccessful) := by
    rintro ⟨rfl, hlt⟩
    rw [UInt32.lt_iff_toNat_lt, hmin, UInt32.toNat_zero] at hlt
    omega
  unfold adapt
  dsimp only
  rw [if_neg hdead]
  simp only [UInt32.toNat_div, hmin, UInt32.lt_iff_toNat_lt, UInt32.le_iff_toNat_le,
    UInt32.toNat_zero]
  by_cases hpos : 0 < packetsSuccessful.toNat
  · simp only [hpos, if_true, true_and]
    by_cases hle : packetsSuccessful.toNat ≤ packetLoss.toNat
    · rw [if_pos hle, Nat.min_eq_right hle, Nat.div_self hpos]
      norm_num
    · rw [if_neg hle, Nat.div_eq_of_lt (by omega)]
      norm_num
  · simp only [hpos, if_false, false_and]
    norm_num

end WindowSize

/-- A threshold in percent, without the quotient. -/
theorem percent_lt_ratio {a lost successful : ℕ} (h : 0 < successful) :
    (a / 100 : ℚ) < (lost / successful : ℚ) ↔ a * successful < lost * 100 := by
  rw [div_lt_div_iff₀ (by norm_num) (by exact_mod_cast h)]
  exact_mod_cast Iff.rfl

theorem ratio_lt_percent {a lost successful : ℕ} (h : 0 < successful) :
    (lost / successful : ℚ) < (a / 100 : ℚ) ↔ lost * 100 < a * successful := by
  rw [div_lt_div_iff₀ (by exact_mod_cast h) (by norm_num)]
  exact_mod_cast Iff.rfl

theorem follows_iff {step lost successful : ℕ} {w w' : WindowSize} :
    Follows step w lost successful w' ↔
      (0 < successful → 15 * successful < lost * 100 → w' = .set ((w.val.toNat : ℤ) - 100)) ∧
      (0 < successful → 10 * successful < lost * 100 → lost * 100 ≤ 15 * successful →
        w' = .set ((w.val.toNat : ℤ) - 50)) ∧
      (successful = 0 → 0 < lost → w' = .set ((w.val.toNat : ℤ) - step)) ∧
      (w.val.toNat < w'.val.toNat →
        lost = 0 ∨ 0 < successful ∧ lost * 100 < 5 * successful) := by
  have h5 (h : 0 < successful) : (lost / successful : ℚ) < 5 / 100 ↔
      lost * 100 < 5 * successful := ratio_lt_percent (a := 5) h
  have h10 (h : 0 < successful) : (10 / 100 : ℚ) < lost / successful ↔
      10 * successful < lost * 100 := percent_lt_ratio (a := 10) h
  have h15 (h : 0 < successful) : (15 / 100 : ℚ) < lost / successful ↔
      15 * successful < lost * 100 := percent_lt_ratio (a := 15) h
  constructor
  · intro h
    refine ⟨fun hpos hlt => h.high hpos ((h15 hpos).mpr hlt), fun hpos hlt hle => ?_,
      h.none_successful, fun hlt => ?_⟩
    · exact h.raised hpos ((h10 hpos).mpr hlt)
        (not_lt.mp fun hgt => absurd ((h15 hpos).mp hgt) (not_lt.mpr hle))
    · obtain hzero | ⟨hpos, hlow⟩ := h.low (UInt16.lt_iff_toNat_lt.mpr hlt)
      · exact .inl hzero
      · exact .inr ⟨hpos, (h5 hpos).mp hlow⟩
  · rintro ⟨hhigh, hraised, hnone, hlow⟩
    refine ⟨fun hpos hlt => hhigh hpos ((h15 hpos).mp hlt), fun hpos hlt hle => ?_, hnone,
      fun hlt => ?_, w'.range⟩
    · exact hraised hpos ((h10 hpos).mp hlt)
        (not_lt.mp fun hgt => absurd ((h15 hpos).mpr hgt) (not_lt.mpr hle))
    · obtain hzero | ⟨hpos, hless⟩ := hlow (UInt16.lt_iff_toNat_lt.mp hlt)
      · exact .inl hzero
      · exact .inr ⟨hpos, (h5 hpos).mpr hless⟩

namespace ChannelRates

variable (c : ChannelRates) {dtime : ℚ}

/-- The window stays only when it is the smallest one and little was sent. -/
def Stuck : Prop :=
  c.windowSize.val.toNat = MIN_RELIABLE_WINDOW_SIZE ∧ c.reasonableAmountOfDataTransmitted = false

def CannotGrow : Prop :=
  c.windowSize.val.toNat = MAX_RELIABLE_WINDOW_SIZE_SEND ∨ c.reasonableAmountOfDataTransmitted = false

/-- The window follows the ratio although the quotient is rounded: nothing was lost, or as much was
lost as was successful (as 32 bits have it), or the ratio is low, or it is not high and the window
cannot grow, or the window is stuck. -/
def Decided : Prop :=
  c.lost = 0 ∨
  0 < c.currentPacketSuccessful.toNat ∧
    (c.currentPacketSuccessful.toNat ≤ c.lost % 2 ^ 32 ∨
      c.lost * 20 < c.currentPacketSuccessful.toNat ∨
      c.lost * 10 ≤ c.currentPacketSuccessful.toNat ∧ c.CannotGrow) ∨
  c.Stuck

theorem windowSize_updateTimers (hdue : 1 < c.packetLossCounter + dtime) :
    (c.updateTimers dtime).windowSize =
      if 0 < c.currentPacketSuccessful.toNat ∧ c.currentPacketSuccessful.toNat ≤ c.lost % 2 ^ 32 then
        .set ((c.windowSize.val.toNat : ℤ) - 100)
      else if c.reasonableAmountOfDataTransmitted then .set ((c.windowSize.val.toNat : ℤ) + 100)
      else c.windowSize := by
  have hadapt := c.windowSize.adapt_stdMin (c.currentPacketLoss + c.currentPacketTooLate)
    c.currentPacketSuccessful c.reasonableAmountOfDataTransmitted
  simp only [UInt32.lt_iff_toNat_lt, UInt32.le_iff_toNat_le, UInt32.toNat_add,
    UInt32.toNat_zero] at hadapt
  have hrates (c : ChannelRates) (due : Prop) [Decidable due] :
      (if due then c.updateRates else c).windowSize = c.windowSize := by
    split_ifs
    · rfl
    · rfl
  unfold updateTimers
  dsimp only
  rw [hrates, if_pos hdue]
  exact hadapt

/-- The window follows the exact ratio of the packets lost to those successful if and only if the
interval is `Decided`. -/
theorem follows_updateTimers_iff {step : ℕ} (hstep : 0 < step)
    (hdue : 1 < c.packetLossCounter + dtime) :
    Follows step c.windowSize c.lost c.currentPacketSuccessful.toNat
      (c.updateTimers dtime).windowSize ↔ c.Decided := by
  rw [windowSize_updateTimers c hdue, follows_iff]
  unfold Decided Stuck CannotGrow MIN_RELIABLE_WINDOW_SIZE MAX_RELIABLE_WINDOW_SIZE_SEND
  obtain ⟨hmin, hmax⟩ := c.windowSize.range
  have hle : c.lost % 2 ^ 32 ≤ c.lost := Nat.mod_le _ _
  split_ifs with hshrinks hreasonable
  · -- as much was lost as was successful
    have hlt : ¬c.windowSize.val.toNat <
        (WindowSize.set ((c.windowSize.val.toNat : ℤ) - 100)).val.toNat := by
      rw [WindowSize.toNat_set]
      omega
    constructor
    · intro _
      exact .inr (.inl ⟨hshrinks.1, .inl hshrinks.2⟩)
    · intro _
      exact ⟨fun _ _ => rfl, fun _ _ _ => by omega, fun _ _ => by omega, fun h => absurd h hlt⟩
  · -- the window grows
    have hgrows : c.windowSize.val.toNat <
        (WindowSize.set ((c.windowSize.val.toNat : ℤ) + 100)).val.toNat ↔
          c.windowSize.val.toNat ≠ 2048 := by
      rw [WindowSize.toNat_set]
      omega
    have hne {k : ℕ} (hk : 0 < k) := WindowSize.set_add_ne_set_sub (w := c.windowSize) hk
    have h50 := hne (k := 50) (by norm_num)
    have h100 := hne (k := 100) (by norm_num)
    simp only [Nat.cast_ofNat] at h50 h100
    simp only [hgrows, h50, h100, hne hstep, hreasonable, Bool.true_eq_false, or_false, and_false]
    grind
  · -- the window stays
    rw [Bool.not_eq_true] at hreasonable
    have h50 := WindowSize.eq_set_sub_iff (w := c.windowSize) (k := 50) (by norm_num)
    have h100 := WindowSize.eq_set_sub_iff (w := c.windowSize) (k := 100) (by norm_num)
    simp only [Nat.cast_ofNat] at h50 h100
    simp only [h50, h100, WindowSize.eq_set_sub_iff hstep, lt_irrefl, false_imp_iff, hreasonable,
      or_true, and_true]
    grind

/-- A hundred packets came through, with 200 bytes each, and half as many were lost. -/
def halfLost : ChannelRates where
  windowSize := .set 64
  currentPacketLoss := 50
  currentPacketSuccessful := 100
  currentBytesTransfered := 20000

theorem follows_updateTimers_iff_halfLost :
    Follows 100 halfLost.windowSize halfLost.lost halfLost.currentPacketSuccessful.toNat
      (halfLost.updateTimers 2).windowSize ↔ halfLost.Decided :=
  halfLost.follows_updateTimers_iff (by norm_num) (by norm_num [halfLost])

/-- The window grows although half of the packets were lost. -/
theorem not_follows_updateTimers : ¬∀ (c : ChannelRates) (dtime : ℚ),
    1 < c.packetLossCounter + dtime →
      Follows 100 c.windowSize c.lost c.currentPacketSuccessful.toNat
        (c.updateTimers dtime).windowSize := by
  intro h
  have hdue : 1 < halfLost.packetLossCounter + 2 := by norm_num [halfLost]
  have hlost : halfLost.lost = 50 := by decide
  have hsuccessful : halfLost.currentPacketSuccessful.toNat = 100 := by decide
  have hgrown : (halfLost.updateTimers 2).windowSize = .set 164 := by
    have hsize : halfLost.windowSize.val.toNat = 64 := WindowSize.toNat_set 64
    have hused : halfLost.reasonableAmountOfDataTransmitted = true := by
      rw [reasonableAmountOfDataTransmitted, hsize]
      decide
    rw [windowSize_updateTimers halfLost hdue, hlost, hsuccessful, hsize, hused,
      if_neg (by norm_num), if_pos rfl]
    norm_num
  have hhigh := (h halfLost 2 hdue).high
  rw [hgrown, hlost, hsuccessful] at hhigh
  have hval := congrArg (fun w => w.val.toNat) (hhigh (by norm_num) (by norm_num))
  simp only [WindowSize.toNat_set] at hval
  exact absurd hval (by decide)

end ChannelRates

end Freeminer.Mtp
