import Mathlib.Data.Int.CardIntervalMod
import Freeminer.Lib.FullPeriod

/-! `PcgRandom` (`noise.cpp`): the generator, and the draws from an interval by rejection. -/

namespace Freeminer.Noise

open Lib

structure PcgRandom where
  m_state : UInt64
  m_inc : UInt64
deriving DecidableEq

inductive PrngException where
  | invalidRange
deriving DecidableEq

namespace PcgRandom

def next (g : PcgRandom) : UInt32 × PcgRandom :=
  let oldstate := g.m_state
  let xorshifted : UInt32 := (((oldstate >>> 18) ^^^ oldstate) >>> 27).toUInt32
  let rot : UInt32 := (oldstate >>> 59).toUInt32
  ((xorshifted >>> rot) ||| (xorshifted <<< (-rot &&& 31)),
    { g with m_state := oldstate * 6364136223846793005 + g.m_inc })

def seed (state seq : UInt64) : PcgRandom :=
  let g : PcgRandom := ⟨0, (seq <<< 1) ||| 1⟩
  let g := g.next.2
  ({ g with m_state := g.m_state + state }).next.2

def threshold (bound : UInt32) : UInt32 := -bound % bound

/-- `while ((r = next()) < threshold)`, for at most `fuel` outputs. -/
def rangeLoop (bound : UInt32) : ℕ → PcgRandom → Option (UInt32 × PcgRandom)
  | 0, _ => none
  | fuel + 1, g =>
    if g.next.1 < threshold bound then rangeLoop bound fuel g.next.2
    else some (g.next.1 % bound, g.next.2)

/-- `range(u32)` -/
def rangeBound (fuel : ℕ) (g : PcgRandom) (bound : UInt32) : Option (UInt32 × PcgRandom) :=
  if bound = 0 then some g.next
  else if bound = 1 then some (0, g)
  else rangeLoop bound fuel g

/-- `(s64)max - (s64)min + 1`, as a 32-bit number: 0 for the full range. -/
def boundOf (min max : Int32) : UInt32 := (max.toInt64 - min.toInt64 + 1).toUInt64.toUInt32

/-- `range(s32, s32)` -/
def range (fuel : ℕ) (g : PcgRandom) (min max : Int32) :
    Except PrngException (Option (Int32 × PcgRandom)) :=
  if max < min then .error .invalidRange
  else .ok ((g.rangeBound fuel (boundOf min max)).map fun (r, g) => ((r + min.toUInt32).toInt32, g))

end PcgRandom

open PcgRandom

/-! What one output of the generator is turned into. -/

def draw (bound r : UInt32) : Option UInt32 :=
  if bound = 0 then some r
  else if bound = 1 then some 0
  else if r < threshold bound then none else some (r % bound)

def drawBetween (min max : Int32) (r : UInt32) : Option Int32 :=
  (draw (boundOf min max) r).map fun v => (v + min.toUInt32).toInt32

def produced {α : Type} [DecidableEq α] (f : UInt32 → Option α) (x : α) : ℕ :=
  Nat.count (fun r => f (UInt32.ofNat r) = some x) (2 ^ 32)

/-- Only values of the interval, each by as many accepted outputs, and some output is accepted. -/
structure Unbiased {α : Type} [DecidableEq α] (f : UInt32 → Option α) (In : α → Prop) : Prop where
  inside : ∀ r x, f r = some x → In x
  even : ∃ k > 0, ∀ x, In x → produced f x = k
  accepts : ∃ r x, f r = some x

/-- The `n`-th output from here on. -/
def PcgRandom.output (g : PcgRandom) (n : ℕ) : UInt32 := ((fun g => g.next.2)^[n] g).next.1

/-- `x` is what the first accepted output is turned into. -/
def FirstAccepted {α : Type} (f : UInt32 → Option α) (g : PcgRandom) (x : α) : Prop :=
  ∃ n, (∀ i < n, f (g.output i) = none) ∧ f (g.output n) = some x

variable {bound : UInt32} {min max : Int32} {g : PcgRandom}

def size (bound : UInt32) : ℕ := if bound = 0 then 2 ^ 32 else bound.toNat

theorem size_pos (bound : UInt32) : 0 < size bound := by
  unfold size
  split_ifs with h
  · exact Nat.two_pow_pos 32
  · exact Nat.pos_of_ne_zero fun h0 => h (UInt32.toNat_inj.mp h0)

theorem size_le (bound : UInt32) : size bound ≤ 2 ^ 32 := by
  have hlt := bound.toNat_lt
  unfold size
  split_ifs
  · exact le_rfl
  · exact hlt.le

theorem lt_size_iff {v : UInt32} : v.toNat < size bound ↔ (bound ≠ 0 → v < bound) := by
  unfold size
  split_ifs with h
  · exact iff_of_true v.toNat_lt fun h0 => absurd h h0
  · rw [← UInt32.lt_iff_toNat_lt]
    exact ⟨fun hv _ => hv, fun hv => hv h⟩

theorem toNat_threshold (h : bound ≠ 0) : (threshold bound).toNat = 2 ^ 32 % bound.toNat := by
  have hlt := bound.toNat_lt
  have hne : bound.toNat ≠ 0 := fun h0 => h (UInt32.toNat_inj.mp h0)
  have hneg : (-bound).toNat = 2 ^ 32 - bound.toNat := by
    rw [UInt32.toNat_neg]
    exact Nat.mod_eq_of_lt (Nat.sub_lt (Nat.two_pow_pos 32) (by omega))
  rw [threshold, UInt32.toNat_mod, hneg, ← Nat.mod_eq_sub_mod hlt.le]

/-- From the rest of `n` by `b` on, every rest occurs equally often below `n`. -/
theorem count_from_mod {b v : ℕ} (hv : v < b) (n : ℕ) :
    Nat.count (fun r => ¬ r < n % b ∧ r % b = v) n = n / b := by
  have hb : 0 < b := by omega
  have hle := Nat.mod_le n b
  have hall := Nat.count_modEq_card n hb v
  have hlow := Nat.count_modEq_card (n % b) hb v
  rw [Nat.mod_mod, Nat.div_eq_of_lt (Nat.mod_lt n hb)] at hlow
  have hsplit := Nat.count_add (fun r => r ≡ v [MOD b]) (n % b) (n - n % b)
  have hsplit' := Nat.count_add (fun r => ¬ r < n % b ∧ r % b = v) (n % b) (n - n % b)
  rw [Nat.add_sub_cancel' hle] at hsplit hsplit'
  have hnone : Nat.count (fun r => ¬ r < n % b ∧ r % b = v) (n % b) = 0 :=
    Nat.count_of_forall_not fun r hr h => h.1 hr
  have hsome : Nat.count (fun k => ¬ n % b + k < n % b ∧ (n % b + k) % b = v) (n - n % b) =
      Nat.count (fun k => n % b + k ≡ v [MOD b]) (n - n % b) := by
    congr 1
    funext k
    simp [Nat.ModEq, Nat.mod_eq_of_lt hv]
  omega

theorem draw_eq_some {r v : UInt32} :
    draw bound r = some v ↔ ¬ r.toNat < 2 ^ 32 % size bound ∧ r.toNat % size bound = v.toNat := by
  unfold draw size
  by_cases h : bound = 0
  · rw [if_pos h, if_pos h, Nat.mod_self, Nat.mod_eq_of_lt r.toNat_lt, UInt32.toNat_inj]
    simp
  · rw [if_neg h, if_neg h, ← toNat_threshold h, ← UInt32.lt_iff_toNat_lt, ← UInt32.toNat_mod,
      UInt32.toNat_inj]
    split_ifs with h1 h2
    · subst h1
      simp [threshold, eq_comm]
    · simp [h2]
    · simp [h2]

theorem count_congr {p q : ℕ → Prop} [DecidablePred p] [DecidablePred q] {n : ℕ}
    (h : ∀ k < n, p k ↔ q k) : Nat.count p n = Nat.count q n :=
  le_antisymm (Nat.count_mono_left fun k hk => (h k hk).mp)
    (Nat.count_mono_left fun k hk => (h k hk).mpr)

theorem produced_draw {v : UInt32} (hv : v.toNat < size bound) :
    produced (draw bound) v = 2 ^ 32 / size bound := by
  refine (count_congr fun r hr => ?_).trans (count_from_mod hv _)
  rw [draw_eq_some, UInt32.toNat_ofNat_of_lt' hr]

theorem unbiased_draw (bound : UInt32) :
    Unbiased (draw bound) fun v => bound ≠ 0 → v < bound where
  inside r x hx := by
    rw [← lt_size_iff, ← (draw_eq_some.mp hx).2]
    exact Nat.mod_lt _ (size_pos bound)
  even := ⟨2 ^ 32 / size bound, Nat.div_pos (size_le bound) (size_pos bound),
    fun v hv => produced_draw (lt_size_iff.mpr hv)⟩
  accepts := by
    have hlt := Nat.mod_lt (2 ^ 32) (size_pos bound)
    have hle := size_le bound
    have hmax : (4294967295 : UInt32).toNat = 4294967295 := rfl
    refine ⟨4294967295, UInt32.ofNat (4294967295 % size bound), draw_eq_some.mpr ⟨?_, ?_⟩⟩
    · omega
    · rw [hmax, UInt32.toNat_ofNat_of_lt' ((Nat.mod_le _ _).trans_lt (by decide))]

/-! The interval: what is drawn is the distance from its lower end. -/

theorem size_boundOf (h : min ≤ max) :
    (size (boundOf min max) : ℤ) = max.toInt - min.toInt + 1 := by
  have hmin := min.le_toInt
  have hmax := max.toInt_lt
  have hle := Int32.le_iff_toInt_le.mp h
  -- the 64-bit difference does not wrap
  have hwide : (max.toInt64 - min.toInt64 + 1).toInt = max.toInt - min.toInt + 1 := by
    rw [Int64.toInt_add, Int64.toInt_sub, Int32.toInt_toInt64, Int32.toInt_toInt64,
      show (1 : Int64).toInt = 1 from rfl, Int.bmod_eq_of_le (n := max.toInt - min.toInt),
      Int.bmod_eq_of_le] <;> omega
  have hcond := BitVec.toInt_eq_toNat_cond (max.toInt64 - min.toInt64 + 1).toBitVec
  rw [Int64.toInt_toBitVec, hwide] at hcond
  have hto : (boundOf min max).toNat = (max.toInt64 - min.toInt64 + 1).toBitVec.toNat % 2 ^ 32 :=
    UInt64.toNat_toUInt32 _
  have hlt := (max.toInt64 - min.toInt64 + 1).toBitVec.isLt
  unfold size
  by_cases h0 : boundOf min max = 0
  · have hzero : (boundOf min max).toNat = 0 := by rw [h0]; rfl
    rw [if_pos h0]
    split_ifs at hcond <;> omega
  · have hpos : (boundOf min max).toNat ≠ 0 := fun he => h0 (UInt32.toNat_inj.mp he)
    rw [if_neg h0]
    split_ifs at hcond <;> omega

theorem toNat_sub_min (min x : Int32) : ((x.toUInt32 - min.toUInt32).toNat : ℤ) =
    x.toInt - min.toInt + if min.toInt ≤ x.toInt then 0 else 2 ^ 32 := by
  have hx := BitVec.toInt_eq_toNat_cond x.toBitVec
  have hmin := BitVec.toInt_eq_toNat_cond min.toBitVec
  have hltx := x.toBitVec.isLt
  have hltm := min.toBitVec.isLt
  rw [Int32.toInt_toBitVec] at hx hmin
  rw [UInt32.toNat_sub, show x.toUInt32.toNat = x.toBitVec.toNat from rfl,
    show min.toUInt32.toNat = min.toBitVec.toNat from rfl]
  split_ifs at hx hmin ⊢ <;> omega

theorem drawBetween_eq_some {r : UInt32} {x : Int32} :
    drawBetween min max r = some x ↔
      draw (boundOf min max) r = some (x.toUInt32 - min.toUInt32) := by
  unfold drawBetween
  rw [Option.map_eq_some_iff]
  constructor
  · rintro ⟨v, hv, rfl⟩
    rw [hv, UInt32.toUInt32_toInt32, UInt32.add_sub_cancel]
  · intro h
    exact ⟨_, h, by rw [UInt32.sub_add_cancel, Int32.toInt32_toUInt32]⟩

theorem unbiased_drawBetween (h : min ≤ max) :
    Unbiased (drawBetween min max) fun x => min ≤ x ∧ x ≤ max where
  inside r x hx := by
    have hv := (unbiased_draw (boundOf min max)).inside r _ (drawBetween_eq_some.mp hx)
    have hlt := lt_size_iff.mpr hv
    have hsub := toNat_sub_min min x
    have hsize := size_boundOf h
    have := x.le_toInt
    have := max.toInt_lt
    rw [Int32.le_iff_toInt_le, Int32.le_iff_toInt_le]
    split_ifs at hsub <;> omega
  even := by
    refine ⟨2 ^ 32 / size (boundOf min max), Nat.div_pos (size_le _) (size_pos _), fun x hx => ?_⟩
    have hlt : (x.toUInt32 - min.toUInt32).toNat < size (boundOf min max) := by
      have hsub := toNat_sub_min min x
      rw [if_pos (Int32.le_iff_toInt_le.mp hx.1)] at hsub
      have := size_boundOf h
      have := Int32.le_iff_toInt_le.mp hx.2
      omega
    refine (count_congr fun r _ => ?_).trans (produced_draw hlt)
    rw [drawBetween_eq_some]
  accepts := by
    obtain ⟨r, v, hv⟩ := (unbiased_draw (boundOf min max)).accepts
    exact ⟨r, _, by rw [drawBetween, hv, Option.map_some]⟩

/-! The loop over the outputs of the generator. -/

theorem output_succ (g : PcgRandom) (n : ℕ) : g.output (n + 1) = g.next.2.output n := by
  rw [output, Function.iterate_succ_apply, output]

theorem firstAccepted_rangeLoop (h0 : bound ≠ 0) (h1 : bound ≠ 1) {fuel : ℕ} {v : UInt32}
    {g' : PcgRandom} (h : rangeLoop bound fuel g = some (v, g')) :
    FirstAccepted (draw bound) g v := by
  induction fuel generalizing g with
  | zero => exact absurd h (by simp [rangeLoop])
  | succ fuel ih =>
    rw [rangeLoop] at h
    have hdraw : draw bound (g.output 0) =
        if g.next.1 < threshold bound then none else some (g.next.1 % bound) := by
      rw [draw, if_neg h0, if_neg h1]
      rfl
    split_ifs at h hdraw with hlt
    · obtain ⟨n, hnone, hsome⟩ := ih h
      refine ⟨n + 1, fun i hi => ?_, by rw [output_succ, hsome]⟩
      cases i with
      | zero => exact hdraw
      | succ i => rw [output_succ, hnone i (by omega)]
    · obtain ⟨rfl, -⟩ := Prod.mk.inj (Option.some.inj h)
      exact ⟨0, fun i hi => absurd hi (Nat.not_lt_zero i), hdraw⟩

theorem firstAccepted_rangeBound {fuel : ℕ} {v : UInt32} {g' : PcgRandom}
    (h : g.rangeBound fuel bound = some (v, g')) : FirstAccepted (draw bound) g v := by
  unfold rangeBound at h
  split_ifs at h with h0 h1
  · refine ⟨0, fun i hi => absurd hi (Nat.not_lt_zero i), ?_⟩
    rw [draw, if_pos h0]
    exact congrArg (some ·.1) (Option.some.inj h)
  · cases h
    refine ⟨0, fun i hi => absurd hi (Nat.not_lt_zero i), ?_⟩
    rw [draw, if_neg h0, if_pos h1]
  · exact firstAccepted_rangeLoop h0 h1 h

/-- The loop ends once some output is not below the threshold. -/
theorem rangeLoop_ends {n : ℕ} (h : ¬ g.output n < threshold bound) :
    ∃ v g', rangeLoop bound (n + 1) g = some (v, g') := by
  induction n generalizing g with
  | zero => exact ⟨_, _, if_neg h⟩
  | succ n ih =>
    rw [output_succ] at h
    rw [rangeLoop]
    split_ifs with hlt
    · exact ih h
    · exact ⟨_, _, rfl⟩

theorem next_mk (s i : UInt64) : (next ⟨s, i⟩).2.m_inc = i := rfl

theorem next_m_inc (g : PcgRandom) : g.next.2.m_inc = g.m_inc := by
  cases g
  exact next_mk _ _

theorem inc_iterate (g : PcgRandom) (n : ℕ) : ((fun g => g.next.2)^[n] g).m_inc = g.m_inc := by
  induction n with
  | zero => rfl
  | succ n ih =>
    rw [Function.iterate_succ_apply']
    exact (next_m_inc _).trans ih

theorem state_iterate (g : PcgRandom) (n : ℕ) :
    (((fun g => g.next.2)^[n] g).m_state.toNat : ℤ) ≡
      (lcg 6364136223846793005 g.m_inc.toNat)^[n] g.m_state.toNat [ZMOD 2 ^ 64] := by
  induction n with
  | zero => exact Int.ModEq.rfl
  | succ n ih =>
    rw [Function.iterate_succ_apply', Function.iterate_succ_apply']
    generalize hx : (fun g => g.next.2)^[n] g = x at ih
    have hinc : x.m_inc = g.m_inc := hx ▸ inc_iterate g n
    have hstate : x.next.2.m_state.toNat =
        (x.m_state.toNat * 6364136223846793005 % 2 ^ 64 + x.m_inc.toNat) % 2 ^ 64 := by
      rw [next, UInt64.toNat_add, UInt64.toNat_mul]
      rfl
    generalize (lcg 6364136223846793005 g.m_inc.toNat)^[n] g.m_state.toNat = y at ih
    rw [hstate, hinc, lcg]
    unfold Int.ModEq at ih ⊢
    omega

/-- A generator with an odd increment comes to every state, and to the largest output. -/
theorem output_max (h : g.m_inc.toNat % 2 = 1) : ∃ n, g.output n = 4294967295 := by
  obtain ⟨n, hn⟩ := lcg_reaches (a := 6364136223846793005) (c := g.m_inc.toNat) (by decide)
    (by omega) 64 g.m_state.toNat 576458553280167936
  have hstate := (state_iterate g n).trans hn
  generalize hx : (fun g => g.next.2)^[n] g = x at hstate
  have hlt := x.m_state.toNat_lt
  have heq : x.m_state = 576458553280167936 := by
    refine UInt64.toNat_inj.mp ?_
    have : (576458553280167936 : UInt64).toNat = 576458553280167936 := rfl
    rw [this]
    unfold Int.ModEq at hstate
    omega
  refine ⟨n, ?_⟩
  rw [output, hx, next, heq]
  rfl

theorem seed_odd (state seq : UInt64) : (seed state seq).m_inc.toNat % 2 = 1 := by
  have hinc : (seed state seq).m_inc = (seq <<< 1) ||| 1 := rfl
  rw [hinc, UInt64.toNat_or]
  simp

theorem rangeBound_ends (h : g.m_inc.toNat % 2 = 1) (bound : UInt32) :
    ∃ fuel v g', g.rangeBound fuel bound = some (v, g') := by
  unfold rangeBound
  split_ifs with h0 h1
  · exact ⟨0, _, _, rfl⟩
  · exact ⟨0, _, _, rfl⟩
  · obtain ⟨n, hn⟩ := output_max h
    refine ⟨n + 1, rangeLoop_ends (n := n) ?_⟩
    have hlt := Nat.mod_lt (2 ^ 32) (Nat.pos_of_ne_zero fun he => h0 (UInt32.toNat_inj.mp he))
    have := bound.toNat_lt
    rw [hn, UInt32.lt_iff_toNat_lt, toNat_threshold h0,
      show (4294967295 : UInt32).toNat = 4294967295 from rfl]
    omega

/-- The draws below a bound and from an interval: nothing outside, every value by as many of the
accepted outputs, of which there are some; what is returned is made of the first accepted output,
and a generator from `seed` comes to one. -/
theorem range_unbiased :
    (∀ bound, Unbiased (draw bound) (fun v => bound ≠ 0 → v < bound) ∧
      ∀ g : PcgRandom,
        (∀ fuel v g', g.rangeBound fuel bound = some (v, g') → FirstAccepted (draw bound) g v) ∧
        (g.m_inc.toNat % 2 = 1 → ∃ fuel v g', g.rangeBound fuel bound = some (v, g'))) ∧
    (∀ min max, min ≤ max → Unbiased (drawBetween min max) (fun x => min ≤ x ∧ x ≤ max) ∧
      ∀ g : PcgRandom,
        (∀ fuel x g', g.range fuel min max = .ok (some (x, g')) →
          FirstAccepted (drawBetween min max) g x) ∧
        (g.m_inc.toNat % 2 = 1 → ∃ fuel x g', g.range fuel min max = .ok (some (x, g')))) ∧
    ∀ state seq, (seed state seq).m_inc.toNat % 2 = 1 := by
  refine ⟨fun bound => ⟨unbiased_draw bound, fun g => ⟨fun fuel v g' => firstAccepted_rangeBound,
    fun h => rangeBound_ends h bound⟩⟩, fun min max hle => ⟨unbiased_drawBetween hle, fun g => ?_⟩,
    seed_odd⟩
  have hnlt : ¬ max < min := Int32.not_lt.mpr hle
  simp only [range, if_neg hnlt]
  constructor
  · intro fuel x g' h
    obtain ⟨⟨v, g₁⟩, hv, heq⟩ := Option.map_eq_some_iff.mp (Except.ok.inj h)
    cases heq
    obtain ⟨n, hnone, hsome⟩ := firstAccepted_rangeBound hv
    exact ⟨n, fun i hi => by rw [drawBetween, hnone i hi, Option.map_none],
      by rw [drawBetween, hsome, Option.map_some]⟩
  · intro h
    obtain ⟨fuel, v, g', hv⟩ := rangeBound_ends h (boundOf min max)
    exact ⟨fuel, _, _, by rw [hv]; rfl⟩

end Freeminer.Noise
