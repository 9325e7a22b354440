import Freeminer.Liquid.Collect

/-! How `ServerMap::transformLiquidsReal` (`fm_liquid.cpp`) distributes what it collected: each
loop keeps the rest above zero and the wanted levels in their range. -/

namespace Freeminer.Liquid

open Block Cell

def liquid_random_map : Fin 4 → Dir → Dir :=
  ![![D_BOTTOM, D_SELF, D_BACK, D_FRONT, D_RIGHT, D_LEFT, D_TOP],
    ![D_BOTTOM, D_SELF, D_RIGHT, D_FRONT, D_LEFT, D_BACK, D_TOP],
    ![D_BOTTOM, D_SELF, D_FRONT, D_LEFT, D_RIGHT, D_BACK, D_TOP],
    ![D_BOTTOM, D_SELF, D_LEFT, D_FRONT, D_BACK, D_RIGHT, D_TOP]]

/-- Settings, and where and when the cell is visited. -/
structure Setting where
  relax : ℤ
  fast_flood : ℤ
  water_level : ℤ
  liquid_pressure : ℤ
  /-- `p0.Y` -/
  y : ℤ
  loopcount : ℕ
  loop_rand : ℕ
  initial_size : ℕ
  /-- `wind_dir`, if the wind is strong enough and chance lets it count. -/
  wind : Option Dir
  wind_mem : ∀ d, wind = some d → d ∈ [D_RIGHT, D_LEFT, D_BACK, D_FRONT]

structure Kind where
  level_max : ℤ
  pressure : ℤ
  level_max_compressed : ℤ
  gas : Bool
  liquid_renewable : Bool
  float_height : Option ℤ

def kindOf (ndef : Content → ContentFeatures) (s : Setting) (c : Cell) : Kind :=
  let flowing := ndef c.liquid_kind_flowing
  let f := ndef c.liquid_kind
  let level_max : ℤ := (flowing.getMaxLevel false).toNat
  let pressure := max 0 (s16 (if 0 < s.liquid_pressure then f.pressure else 0))
  { level_max, pressure
    level_max_compressed :=
      if pressure ≠ 0 then min ((flowing.getMaxLevel true).toNat : ℤ) (s16 (level_max + pressure))
      else level_max
    gas := decide (0 < f.gas)
    liquid_renewable := f.liquid_renewable
    float_height := f.float_height }

/-- `total_level`, `liquid_levels_want` and `want_level`. -/
structure Levels where
  total : ℤ
  want : Dir → ℤ
  want_level : ℤ := 0

variable (s : Setting) (k : Kind) (c : Cell)

def skips : Bool :=
  (loaded (c.neighbors D_SELF).node &&
      decide ((c.neighbors D_SELF).node.param2 &&& LIQUID_STABLE_MASK ≠ 0)) ||
    decide (c.liquid_kind = CONTENT_IGNORE) || !(c.neighbors D_SELF).liquid ||
    decide (c.total_level ≤ 0) || decide (c.can_liquid ≤ 0) ||
    decide (c.can_liquid_same_level ≤ 0)

def levelAvg : ℤ :=
  let avg := s16 (c.total_level.tdiv c.can_liquid)
  let avg := if k.gas ∧ 0 < c.total_level ∧ avg < 1 then 1 else avg
  if k.pressure = 0 ∧ ¬k.gas ∧ avg ≠ 0 then k.level_max else avg

/-- The place in the row `n` of `liquid_random_map`. -/
def randomDir (n : ℕ) (ir : Dir) : Dir :=
  liquid_random_map (Fin.ofNat 4 (s.loopcount + s.loop_rand + n)) ir

/-- `ir` from `D_SELF` to before `D_TOP`. -/
def sameDirs : List Dir := [D_SELF, D_BACK, D_FRONT, D_RIGHT, D_LEFT]

/-- `ir` from `D_BOTTOM` to `D_TOP`. -/
def allDirs : List Dir := [D_BOTTOM, D_SELF, D_BACK, D_FRONT, D_RIGHT, D_LEFT, D_TOP]

namespace Levels

variable (st : Levels)

/-- One level more is wanted at `i`. -/
def inc (i : Dir) : Levels :=
  { st with want := Function.update st.want i (s8 (st.want i + 1)), total := s16 (st.total - 1) }

/-- So much is wanted at `i`, and taken from the total. -/
def put (i : Dir) (w rest : ℤ) : Levels :=
  { st with want := Function.update st.want i (s8 w), total := s16 rest }

/-- Gravity direction, which is `D_BOTTOM` for liquids. -/
def fillPrimary : Levels :=
  if (c.neighbors D_BOTTOM).liquid then
    let w := s8 (if k.level_max < levelAvg k c then levelAvg k c
      else if k.level_max < st.total then k.level_max else st.total)
    st.put D_BOTTOM w (st.total - w)
  else st

def relaxWant : ℤ := u16 (k.level_max * c.can_liquid_same_level)

def relaxMissingLevels : ℤ :=
  let nodes := u16 (if s.relax < c.can_liquid_same_level then c.can_liquid_same_level - s.relax
    else 0)
  if k.pressure ≠ 0 ∧ 1 < k.level_max then max nodes (u16 (nodes * k.level_max)) else nodes

def relaxUp : Levels :=
  if k.liquid_renewable ∧ s.relax ≠ 0 ∧
      (s.y = s.water_level ∨ s.fast_flood ≠ 0 ∧ s.y ≤ s.water_level ∧ s.fast_flood < s.y) ∧
      1 < k.level_max ∧ c.liquid_levels D_TOP = 0 ∧ k.level_max ≤ c.liquid_levels D_BOTTOM ∧
      relaxWant k c ≤ st.total + relaxMissingLevels s k c ∧ st.total < relaxWant k c ∧
      0 < relaxMissingLevels s k c then
    { st with total := s16 (relaxWant k c) }
  else st

def aboveUnloaded : Levels :=
  if c.liquid_levels D_TOP = 0 ∧ s.water_level < s.y ∧ 1 < k.level_max ∧
      loaded (c.neighbors D_BOTTOM).node = false ∧ s.loopcount % 3 = 0 then
    { st with total := s16 (st.total - 1) }
  else st

def selfLevel : Levels :=
  let w := u16 (if k.level_max < levelAvg k c then levelAvg k c
    else if k.level_max * c.can_liquid_same_level ≤ st.total then k.level_max
    else st.total.tdiv c.can_liquid_same_level)
  { st with want_level := w, total := s16 (st.total - w * c.can_liquid_same_level) }

def relaxDown : Levels :=
  if k.liquid_renewable ∧ s.relax ≠ 0 ∧ s.y = s.water_level + 1 ∧ c.liquid_levels D_TOP = 0 ∧
      (st.total ≤ 1 ∨ s.loopcount % 2 = 0) ∧ 1 < k.level_max ∧
      k.level_max ≤ c.liquid_levels D_BOTTOM ∧ st.want_level ≤ 0 ∧
      st.total ≤ relaxMissingLevels s k c ∧ 0 < relaxMissingLevels s k c then
    { st with total := 0 }
  else st

def fillSameStep (ir : Dir) : Levels :=
  let ii := randomDir s 1 ir
  if (c.neighbors ii).liquid then
    let st : Levels := { st with want := Function.update st.want ii (s8 st.want_level) }
    if st.want ii < k.level_max ∧ 0 < st.total then
      if (LIQUID_LEVEL_SOURCE.toNat : ℤ) < k.level_max ∨ s.loopcount % 3 ≠ 0 ∨
          c.liquid_levels ii ≤ 0 then
        if st.want ii < c.liquid_levels ii then st.inc ii else st
      else st.inc ii
    else st
  else st

def fillSame : Levels := sameDirs.foldl (fillSameStep s k c) st

def fillRestStep (st : Levels) (ir : Dir) : Levels :=
  let ii := randomDir s 2 ir
  if st.total < 1 then st
  else if 0 ≤ st.want ii ∧ st.want ii < k.level_max then st.inc ii
  else st

def fillRest : Levels := sameDirs.foldl (fillRestStep s k) st

def compressStep (st : Levels) (ir : Dir) : Levels :=
  let ii := randomDir s 3 ir
  if st.total < 1 then st
  else if (c.neighbors ii).liquid ∧ st.want ii < k.level_max_compressed then st.inc ii
  else st

/-- The opposite vertical direction, `D_TOP`, if there is still volume. -/
def fillSecondary : Levels :=
  if (c.neighbors D_TOP).liquid ∧ 0 < st.total then
    let current := if 0 < st.want D_TOP then st.want D_TOP else 0
    let add := min st.total (s16 (k.level_max - current))
    let st := st.put D_TOP (current + add) (st.total - add)
    if 0 < st.total ∧ k.pressure ≠ 0 then allDirs.foldl (compressStep s k c) st else st
  else st

/-- One level goes from `i` to `j`. -/
def move (i j : Dir) : Levels :=
  let want := Function.update st.want i (s8 (st.want i - 1))
  { st with want := Function.update want j (s8 (want j + 1)) }

def press : Levels :=
  if k.pressure ≠ 0 then
    if (c.neighbors D_BOTTOM).liquid ∧ st.want D_BOTTOM < k.level_max_compressed ∧
        0 < st.want D_TOP then st.move D_TOP D_BOTTOM
    else if (c.neighbors D_BOTTOM).liquid ∧ st.want D_BOTTOM < k.level_max_compressed ∧
        k.level_max < st.want D_SELF then
      if st.want D_BOTTOM ≤ st.want D_SELF then st.move D_SELF D_BOTTOM else st
    else if (c.neighbors D_TOP).liquid ∧ st.want D_SELF < k.level_max_compressed ∧
        k.level_max < st.want D_TOP then
      if st.want D_SELF ≤ st.want D_TOP then st.move D_TOP D_SELF else st
    else st
  else st

/-! ## Gas -/

/-- `add_gas_dir` -/
def addGasDir (dirs : List Dir) (dir : Dir) : List Dir :=
  if (c.neighbors dir).liquid ∧ dir ∉ dirs then dirs ++ [dir] else dirs

def floatDirs : List Dir :=
  match k.float_height with
  | some h => if s.y ≠ h then addGasDir c [] (if s.y < h then D_TOP else D_BOTTOM) else []
  | none => []

def addWindDir (dirs : List Dir) : List Dir :=
  match s.wind with
  | some dir => addGasDir c dirs dir
  | none => dirs

/-- `gas_dirs`, in the order in which they were added. -/
def gasDirs : List Dir :=
  let dirs := addWindDir s c (floatDirs s k c)
  let dirs := if k.float_height.isNone then addGasDir c dirs D_TOP else dirs
  let dirs := (sameDirs.map (randomDir s 1)).foldl (addGasDir c) dirs
  if k.float_height.isNone then allDirs.foldl (addGasDir c) (addGasDir c dirs D_BOTTOM) else dirs

def gasBase (dirs : List Dir) : Levels :=
  let base := min k.level_max (s16 (st.total / dirs.length))
  if 0 < base then dirs.foldl (fun st dir => st.put dir base (st.total - base)) st else st

/-- One try to place what is left, in the directions `dirs` in turn. -/
def gasTry (dirs : List Dir) (st : Levels) (tries : ℕ) : Levels :=
  match dirs[tries % dirs.length]? with
  | some dir =>
    if 0 < st.total ∧ (c.neighbors dir).liquid ∧ st.want dir < k.level_max then st.inc dir else st
  | none => st

def gasTries (dirs : List Dir) : Levels :=
  (List.range (dirs.length * k.level_max.toNat)).foldl (gasTry k c dirs) st

/-- `fallback_dirs`: what the preferred layer does not hold. -/
def fallbackDirs : List Dir :=
  match k.float_height with
  | none => []
  | some h =>
    if s.y < h then [D_BOTTOM]
    else if h < s.y then [D_TOP]
    else if (s.loopcount + s.loop_rand) % 2 = 1 then [D_TOP, D_BOTTOM]
    else [D_BOTTOM, D_TOP]

def fillGas : Levels :=
  if gasDirs s k c = [] then st
  else
    let st := (st.gasBase k (gasDirs s k c)).gasTries k c (gasDirs s k c)
    if k.float_height.isSome ∧ 0 < st.total then st.gasTries k c (fallbackDirs s k) else st

/-! ## The rest -/

/-- What is left goes to one place, up to the compressed maximum. -/
def rest (i : Dir) : Levels :=
  if 0 < st.total ∧ (c.neighbors i).liquid ∧ st.want i < k.level_max_compressed then
    let add := if k.level_max_compressed - st.want i < st.total
      then k.level_max_compressed - st.want i else st.total
    st.put i (st.want i + add) (st.total - add)
  else st

def floodStep (st : Levels) (ii : Dir) : Levels :=
  if (c.neighbors ii).infinity ∧ st.want ii < c.liquid_levels ii then
    { st with want := Function.update st.want ii (c.liquid_levels ii) }
  else if 0 ≤ st.want ii ∧ st.want ii < k.level_max ∧ 1 < k.level_max ∧ ¬k.gas ∧
      s.fast_flood ≠ 0 ∧ s.y < s.water_level ∧ s.fast_flood < s.y ∧ 1000 ≤ s.initial_size ∧
      ii ≠ D_TOP ∧ k.level_max / 4 ≤ st.want_level ∧ 5 ≤ c.can_liquid_same_level ∧
      k.level_max ≤ c.liquid_levels D_TOP then
    { st with want := Function.update st.want ii (s8 k.level_max) }
  else st

def flood : Levels := allDirs.foldl (floodStep s k c) st

end Levels

def phases : List (Levels → Levels) :=
  (if k.gas then [Levels.fillGas s k c]
    else [Levels.fillPrimary k c, Levels.relaxUp s k c, Levels.aboveUnloaded s k c,
      Levels.selfLevel k c, Levels.relaxDown s k c, Levels.fillSame s k c, Levels.fillRest s k,
      Levels.fillSecondary s k c, Levels.press k c]) ++
    [(·.rest k c D_TOP), (·.rest k c D_SELF), Levels.flood s k c]

def Cell.start : Levels where
  total := c.total_level
  want := c.liquid_levels_want

def runPhases (ps : List (Levels → Levels)) (st : Levels) : Levels :=
  ps.foldl (fun st p => p st) st

/-! ## The range -/

namespace Kind

/-- The most that a place holds: the maximum of the liquid, or the compressed one. -/
def bound : ℤ := max k.level_max k.level_max_compressed

structure Proper : Prop where
  nonneg : 0 ≤ k.level_max
  bound_le : k.bound ≤ 127

theorem le_bound : k.level_max ≤ k.bound := le_max_left _ _

variable {k} in
theorem Proper.bound_nonneg (hk : k.Proper) : 0 ≤ k.bound := hk.nonneg.trans k.le_bound

end Kind

variable {s k c} {nodes : Dir → MapNode} {st : Levels} {i j : Dir}

theorem proper_kindOf (ndef : Content → ContentFeatures)
    (h : (ndef c.liquid_kind_flowing).leveled ≤ 127) : (kindOf ndef s c).Proper := by
  have hmax : ∀ compress, ((ndef c.liquid_kind_flowing).getMaxLevel compress).toNat ≤ 127 := by
    intro compress
    have hle := UInt8.le_iff_toNat_le.mp h
    unfold ContentFeatures.getMaxLevel
    split_ifs
    all_goals first
      | decide
      | exact hle
  refine ⟨Int.natCast_nonneg _, ?_⟩
  unfold Kind.bound kindOf
  dsimp only
  have hplain := hmax false
  have hcompress := hmax true
  generalize max 0 (s16 (if 0 < s.liquid_pressure then (ndef c.liquid_kind).pressure else 0)) = p
  split_ifs
  · exact max_le (by omega) ((min_le_left _ _).trans (by omega))
  · exact max_le (by omega) (by omega)

namespace Levels

/-- What holds of the levels all the time: something is left or nothing, what is wanted of a node
that takes part is not negative, nothing is wanted of one that is not liquid, and nowhere more than
the maximum. -/
structure Inv (k : Kind) (c : Cell) (st : Levels) : Prop where
  total_nonneg : 0 ≤ st.total
  total_le : st.total ≤ 889
  want_level_nonneg : 0 ≤ st.want_level
  want_level_le : st.want_level ≤ k.bound
  counted : ∀ i, c.liquid_levels_want i = 0 → 0 ≤ st.want i
  low : ∀ i, -1 ≤ st.want i
  dry : ∀ i, (c.neighbors i).liquid = false → st.want i = -1
  high : ∀ i, st.want i ≤ k.bound

theorem inv_start (hk : k.Proper) (hc : c.Sound nodes) : Inv k c c.start where
  total_nonneg := hc.total_bounds.1
  total_le := hc.total_bounds.2
  want_level_nonneg := le_rfl
  want_level_le := hk.bound_nonneg
  counted i h := h.ge
  low i := by
    rcases (hc.seen i).wanted with h | h
    all_goals
      show -1 ≤ c.liquid_levels_want i
      omega
  dry i h := by
    rcases (hc.seen i).wanted with hw | hw
    · rw [(hc.seen i).liquid hw] at h
      cases h
    · exact hw
  high i := by
    have hmax := hk.bound_nonneg
    rcases (hc.seen i).wanted with h | h
    all_goals
      show c.liquid_levels_want i ≤ k.bound
      omega

theorem liquid_of_want (h : Inv k c st) (hi : 0 ≤ st.want i) : (c.neighbors i).liquid = true := by
  cases hl : (c.neighbors i).liquid with
  | true => rfl
  | false =>
    have := h.dry i hl
    omega

/-- What is wanted of one place may change within the range. -/
theorem Inv.update (h : Inv k c st) (hi : (c.neighbors i).liquid = true) {w : ℤ} (hw : 0 ≤ w)
    (hw' : w ≤ k.bound) : Inv k c { st with want := Function.update st.want i w } where
  total_nonneg := h.total_nonneg
  total_le := h.total_le
  want_level_nonneg := h.want_level_nonneg
  want_level_le := h.want_level_le
  counted j hj := by
    by_cases hji : j = i
    · subst hji
      simpa using hw
    · simpa [hji] using h.counted j hj
  low j := by
    by_cases hji : j = i
    · subst hji
      simp only [Function.update_self]
      omega
    · simpa [hji] using h.low j
  dry j hj := by
    have hji : j ≠ i := by
      rintro rfl
      rw [hi] at hj
      cases hj
    simpa [hji] using h.dry j hj
  high j := by
    by_cases hji : j = i
    · subst hji
      simpa using hw'
    · simpa [hji] using h.high j

theorem Inv.setTotal (h : Inv k c st) {t : ℤ} (ht : 0 ≤ t) (ht' : t ≤ 889) :
    Inv k c { st with total := t } :=
  ⟨ht, ht', h.want_level_nonneg, h.want_level_le, h.counted, h.low, h.dry, h.high⟩

theorem inv_put (hk : k.Proper) (h : Inv k c st) (hi : (c.neighbors i).liquid = true) {w t : ℤ}
    (hw : 0 ≤ w) (hw' : w ≤ k.bound) (ht : 0 ≤ t) (ht' : t ≤ 889) : Inv k c (st.put i w t) := by
  have hbound := hk.bound_le
  unfold put
  rw [s8_eq (by omega) (by omega), s16_eq (by omega) (by omega)]
  exact (h.update hi hw hw').setTotal ht ht'

theorem inv_inc (hk : k.Proper) (h : Inv k c st) (hi : (c.neighbors i).liquid = true)
    (hw : st.want i < k.bound) (ht : 0 < st.total) : Inv k c (st.inc i) := by
  have hlow := h.low i
  have htotal := h.total_le
  exact inv_put hk h hi (by omega) (by omega) (by omega) (by omega)

theorem inv_move (hk : k.Proper) (h : Inv k c st) (hi : (c.neighbors i).liquid = true)
    (hj : (c.neighbors j).liquid = true) (hij : i ≠ j) (hwi : 0 < st.want i)
    (hwj : st.want j < k.bound) : Inv k c (st.move i j) := by
  have hbound := hk.bound_le
  have hhigh := h.high i
  have hlow := h.low j
  unfold move
  dsimp only
  rw [Function.update_of_ne (Ne.symm hij), s8_eq (by omega) (by omega),
    s8_eq (by omega) (by omega)]
  exact (h.update hi (by omega) (by omega)).update hj (by omega) (by omega)

/-! ## The average -/

def AtMost (c : Cell) (b : ℤ) : Prop := ∀ i, c.liquid_levels i ≤ b

theorem sum_seven (f : Dir → ℤ) :
    ∑ i, f i = f 0 + f 1 + f 2 + f 3 + f 4 + f 5 + f 6 := by
  rw [Fin.sum_univ_seven]

/-- Those that take part are on the same level, below or above. -/
theorem can_eq (hc : c.Sound nodes) : c.can_liquid = c.can_liquid_same_level +
    (1 + c.liquid_levels_want D_BOTTOM) + (1 + c.liquid_levels_want D_TOP) := by
  rw [hc.can, hc.same, sum_seven, sum_seven]
  have hsame : Cell.sameLevel 1 = 1 ∧ Cell.sameLevel 2 = 1 ∧ Cell.sameLevel 3 = 1 ∧
      Cell.sameLevel 4 = 1 ∧ Cell.sameLevel 5 = 1 := by decide
  have hother : Cell.sameLevel 0 = 0 ∧ Cell.sameLevel 6 = 0 := by decide
  rw [hsame.1, hsame.2.1, hsame.2.2.1, hsame.2.2.2.1, hsame.2.2.2.2, hother.1, hother.2]
  unfold D_BOTTOM D_TOP
  ring

/-- No more is collected than the places hold. -/
theorem total_le_can (hc : c.Sound nodes) {b : ℤ} (hb : 0 ≤ b) (hlevel : AtMost c b) :
    c.total_level ≤ c.can_liquid * b := by
  rw [hc.total, hc.can, Finset.sum_mul]
  refine Finset.sum_le_sum fun i _ => ?_
  rcases (hc.seen i).wanted with hw | hw
  · rw [hw]
    have := hlevel i
    exact (max_le this hb).trans (by omega)
  · have hnot : ¬0 < c.liquid_levels i := fun h => by
      have := (hc.seen i).positive h
      omega
    rw [hw, max_eq_right (by omega)]
    omega

/-- An average above the maximum is that of compressed liquid, and is there for every node that
takes part. -/
theorem levelAvg_of_lt (hk : k.Proper) (hc : c.Sound nodes) (hlevel : AtMost c k.bound)
    (hcan : 0 < c.can_liquid) (havg : k.level_max < levelAvg k c) (hgas : k.gas = false) :
    levelAvg k c * c.can_liquid ≤ c.total_level ∧ levelAvg k c ≤ k.bound := by
  have htotal := hc.total_bounds
  have hbound := hk.bound_le
  have hnonneg := hk.bound_nonneg
  have hdiv : c.total_level.tdiv c.can_liquid = c.total_level / c.can_liquid :=
    Int.tdiv_eq_ediv_of_nonneg htotal.1
  have hmul : c.total_level / c.can_liquid * c.can_liquid ≤ c.total_level :=
    Int.ediv_mul_le _ (by omega)
  have hle : c.total_level / c.can_liquid ≤ k.bound :=
    Int.ediv_le_of_le_mul hcan (by
      rw [mul_comm]
      exact total_le_can hc hnonneg hlevel)
  have hpos : 0 ≤ c.total_level / c.can_liquid := Int.ediv_nonneg htotal.1 (by omega)
  unfold levelAvg at havg ⊢
  simp only [hgas, Bool.false_eq_true, false_and, if_false, not_false_eq_true, true_and, hdiv,
    s16_eq (show -32768 ≤ c.total_level / c.can_liquid by omega) (by omega)] at havg ⊢
  split_ifs at havg ⊢ with hplain
  · omega
  · exact ⟨hmul, hle⟩

/-! ## The parts -/

/-- A cell that is not left alone, with levels that are at most their maximum. Below compressed
liquid there is no stable one, which would get its share without being counted. -/
structure Ready (nodes : Dir → MapNode) (k : Kind) (c : Cell) : Prop where
  proper : k.Proper
  sound : c.Sound nodes
  levels : AtMost c k.bound
  total : 0 < c.total_level
  can : 0 < c.can_liquid
  same : 0 < c.can_liquid_same_level
  self : (c.neighbors D_SELF).liquid = true
  stable : k.gas = false → k.level_max < levelAvg k c →
    (nodes D_BOTTOM).param2 &&& LIQUID_STABLE_MASK = 0

/-- Before the node and those beside it get their level: an average above the maximum is left for
each of them. -/
structure Early (s : Setting) (k : Kind) (c : Cell) (st : Levels) : Prop where
  inv : Inv k c st
  top : st.want D_TOP ≤ 0
  reserve : k.level_max < levelAvg k c → levelAvg k c * c.can_liquid_same_level ≤ st.total
  untouched : loaded (c.neighbors D_BOTTOM).node = false → s.water_level < s.y →
    st.total = c.total_level

theorem top_start (hc : c.Sound nodes) : c.start.want D_TOP ≤ 0 := by
  show c.liquid_levels_want D_TOP ≤ 0
  rcases (hc.seen D_TOP).wanted with h | h
  all_goals omega

theorem early_fillPrimary (hr : Ready nodes k c) (hgas : k.gas = false) :
    Early s k c (c.start.fillPrimary k c) := by
  have hbound := hr.proper.bound_le
  have hnonneg := hr.proper.nonneg
  have hmax := k.le_bound
  have htotal := hr.sound.total_bounds
  have hinv := inv_start hr.proper hr.sound
  have hcan := can_eq hr.sound
  have htop := (hr.sound.seen D_TOP).wanted
  have hbottom := (hr.sound.seen D_BOTTOM).wanted
  have hstart : c.start.total = c.total_level := rfl
  unfold fillPrimary
  by_cases hliquid : (c.neighbors D_BOTTOM).liquid = true
  · rw [if_pos hliquid]
    have hnode : loaded (c.neighbors D_BOTTOM).node = true := by
      rw [hr.sound.node D_BOTTOM hliquid]
      exact (hr.sound.seen D_BOTTOM).loaded hliquid
    have hput : ∀ w, 0 ≤ w → w ≤ k.bound → w ≤ c.total_level →
        (k.level_max < levelAvg k c →
          levelAvg k c * c.can_liquid_same_level ≤ c.total_level - w) →
        Early s k c (c.start.put D_BOTTOM w (c.total_level - w)) := by
      intro w hw hw' hleft hreserve
      refine ⟨inv_put hr.proper hinv hliquid hw hw' (by omega) (by omega), ?_, fun havg => ?_,
        fun hnot => ?_⟩
      · show Function.update c.start.want D_BOTTOM (s8 w) D_TOP ≤ 0
        rw [Function.update_of_ne (by decide)]
        exact top_start hr.sound
      · show _ ≤ s16 _
        rw [s16_eq (by omega) (by omega)]
        exact hreserve havg
      · rw [hnode] at hnot
        cases hnot
    dsimp only
    rw [hstart]
    by_cases havg : k.level_max < levelAvg k c
    · obtain ⟨hsum, hle⟩ := levelAvg_of_lt hr.proper hr.sound hr.levels hr.can havg hgas
      have hcounted : c.liquid_levels_want D_BOTTOM = 0 := by
        rcases (hr.sound.seen D_BOTTOM).stable hliquid with h | h
        · exact h
        · exact absurd (hr.stable hgas havg) h
      -- the place below counts, so its share is there
      have hshare : levelAvg k c * (c.can_liquid_same_level + 1) ≤
          levelAvg k c * c.can_liquid :=
        mul_le_mul_of_nonneg_left (by omega) (by omega)
      have hprod : 0 ≤ levelAvg k c * c.can_liquid_same_level :=
        mul_nonneg (by omega) hr.same.le
      rw [mul_add, mul_one] at hshare
      rw [if_pos havg, s8_eq (by omega) (by omega)]
      exact hput _ (by omega) hle (by omega) fun _ => by omega
    · rw [if_neg havg]
      split_ifs with hlt
      · rw [s8_eq (by omega) (by omega)]
        exact hput _ hnonneg hmax hlt.le fun h => absurd h havg
      · rw [s8_eq (by omega) (by omega)]
        exact hput _ htotal.1 (by omega) le_rfl fun h => absurd h havg
  · rw [if_neg hliquid]
    refine ⟨hinv, top_start hr.sound, fun havg => ?_, fun _ _ => rfl⟩
    obtain ⟨hsum, -⟩ := levelAvg_of_lt hr.proper hr.sound hr.levels hr.can havg hgas
    exact (mul_le_mul_of_nonneg_left (by omega) (by omega)).trans hsum

theorem relaxWant_eq (hr : Ready nodes k c) :
    relaxWant k c = k.level_max * c.can_liquid_same_level ∧
      0 ≤ k.level_max * c.can_liquid_same_level ∧
      k.level_max * c.can_liquid_same_level ≤ 889 := by
  have hbound := hr.proper.bound_le
  have hmax := k.le_bound
  have hnonneg : 0 ≤ k.level_max * c.can_liquid_same_level :=
    mul_nonneg hr.proper.nonneg hr.same.le
  have hle : k.level_max * c.can_liquid_same_level ≤ 127 * 7 :=
    mul_le_mul (by omega) hr.sound.same_bounds.2 hr.same.le (by decide)
  refine ⟨?_, hnonneg, hle⟩
  unfold relaxWant u16
  exact Int.emod_eq_of_lt hnonneg (by omega)

theorem early_relaxUp (hr : Ready nodes k c) (h : Early s k c st) :
    Early s k c (st.relaxUp s k c) := by
  obtain ⟨heq, hnonneg, hle⟩ := relaxWant_eq hr
  unfold relaxUp
  split_ifs with hrelax
  · obtain ⟨-, -, hy, -, -, -, -, hlt, -⟩ := hrelax
    rw [heq] at hlt
    rw [heq, s16_eq (by omega) (by omega)]
    refine ⟨h.inv.setTotal hnonneg hle, h.top, fun havg => ?_, fun _ hwater => ?_⟩
    · -- with so much left it is not relaxed
      have hless : k.level_max * c.can_liquid_same_level ≤
          levelAvg k c * c.can_liquid_same_level :=
        mul_le_mul_of_nonneg_right havg.le hr.same.le
      have := h.reserve havg
      omega
    · rcases hy with hy | ⟨-, hy, -⟩
      all_goals omega
  · exact h

/-- Before the node and those beside it get their level, after all that changes the total. -/
structure Settled (k : Kind) (c : Cell) (st : Levels) : Prop where
  inv : Inv k c st
  top : st.want D_TOP ≤ 0
  reserve : k.level_max < levelAvg k c → levelAvg k c * c.can_liquid_same_level ≤ st.total

theorem settled_aboveUnloaded (hr : Ready nodes k c) (hgas : k.gas = false)
    (h : Early s k c st) : Settled k c (st.aboveUnloaded s k c) := by
  have htotal := hr.total
  have hle := hr.sound.total_bounds.2
  have hcan := can_eq hr.sound
  have hbottom := (hr.sound.seen D_BOTTOM).wanted
  unfold aboveUnloaded
  split_ifs with hunloaded
  · obtain ⟨hzero, hwater, -, hnode, -⟩ := hunloaded
    have hsame := h.untouched hnode hwater
    have htop : c.liquid_levels_want D_TOP = 0 := (hr.sound.seen D_TOP).top hzero rfl
    rw [hsame, s16_eq (by omega) (by omega)]
    refine ⟨h.inv.setTotal (by omega) (by omega), h.top, fun havg => ?_⟩
    obtain ⟨hsum, -⟩ := levelAvg_of_lt hr.proper hr.sound hr.levels hr.can havg hgas
    have hnonneg := hr.proper.nonneg
    -- the place above counts, so its share is left over
    have hshare : levelAvg k c * (c.can_liquid_same_level + 1) ≤ levelAvg k c * c.can_liquid :=
      mul_le_mul_of_nonneg_left (by omega) (by omega)
    rw [mul_add, mul_one] at hshare
    show _ ≤ c.total_level - 1
    omega
  · exact ⟨h.inv, h.top, h.reserve⟩

structure Open (k : Kind) (c : Cell) (st : Levels) : Prop where
  inv : Inv k c st
  top : st.want D_TOP ≤ 0

theorem Inv.setWantLevel (h : Inv k c st) {w : ℤ} (hw : 0 ≤ w) (hw' : w ≤ k.bound) :
    Inv k c { st with want_level := w } :=
  ⟨h.total_nonneg, h.total_le, hw, hw', h.counted, h.low, h.dry, h.high⟩

theorem open_selfLevel (hr : Ready nodes k c) (hgas : k.gas = false) (h : Settled k c st) :
    Open k c (st.selfLevel k c) := by
  have hbound := hr.proper.bound_le
  have hnonneg := hr.proper.nonneg
  have hmax := k.le_bound
  have htotal := h.inv.total_nonneg
  have hle := h.inv.total_le
  have hsame := hr.same
  have hset : ∀ w : ℤ, 0 ≤ w → w ≤ k.bound → w * c.can_liquid_same_level ≤ st.total →
      Open k c { st with
        want_level := u16 w
        total := s16 (st.total - u16 w * c.can_liquid_same_level) } := by
    intro w hw hw' hleft
    have hu : u16 w = w := Int.emod_eq_of_lt hw (by omega)
    have hprod : 0 ≤ w * c.can_liquid_same_level := mul_nonneg hw hsame.le
    rw [hu, s16_eq (by omega) (by omega)]
    exact ⟨(h.inv.setWantLevel hw hw').setTotal (by omega) (by omega), h.top⟩
  unfold selfLevel
  dsimp only
  split_ifs with havg hfull
  · obtain ⟨-, hle'⟩ := levelAvg_of_lt hr.proper hr.sound hr.levels hr.can havg hgas
    exact hset _ (by omega) hle' (h.reserve havg)
  · exact hset _ hnonneg hmax hfull
  · rw [Int.tdiv_eq_ediv_of_nonneg htotal]
    have hlt : st.total / c.can_liquid_same_level < k.level_max :=
      Int.ediv_lt_of_lt_mul hsame (by omega)
    exact hset _ (Int.ediv_nonneg htotal hsame.le) (by omega) (Int.ediv_mul_le _ (by omega))

theorem open_relaxDown (h : Open k c st) : Open k c (st.relaxDown s k c) := by
  unfold relaxDown
  split_ifs
  · exact ⟨h.inv.setTotal le_rfl (by decide), h.top⟩
  · exact h

/-- The rows of the map go through the places on the same level. -/
theorem randomDir_ne_top (n : ℕ) {ir : Dir} (h : ir ∈ sameDirs) : randomDir s n ir ≠ D_TOP := by
  have hrows : ∀ row : Fin 4, ∀ ir ∈ sameDirs, liquid_random_map row ir ≠ D_TOP := by decide
  exact hrows _ ir h

theorem open_inc (hk : k.Proper) (h : Open k c st) (hi : (c.neighbors i).liquid = true)
    (htop : i ≠ D_TOP) (hw : st.want i < k.bound) (ht : 0 < st.total) : Open k c (st.inc i) := by
  refine ⟨inv_inc hk h.inv hi hw ht, ?_⟩
  show Function.update st.want i _ D_TOP ≤ 0
  rw [Function.update_of_ne (Ne.symm htop)]
  exact h.top

theorem open_fillSameStep (hk : k.Proper) (h : Open k c st) {ir : Dir} (hir : ir ∈ sameDirs) :
    Open k c (fillSameStep s k c st ir) := by
  have hbound := hk.bound_le
  have hmax := k.le_bound
  have htop := randomDir_ne_top (s := s) 1 hir
  have hnonneg := h.inv.want_level_nonneg
  have hle := h.inv.want_level_le
  unfold fillSameStep
  dsimp only
  by_cases hliquid : (c.neighbors (randomDir s 1 ir)).liquid = true
  · rw [if_pos hliquid, s8_eq (by omega) (by omega)]
    have hset : Open k c { st with
        want := Function.update st.want (randomDir s 1 ir) st.want_level } := by
      refine ⟨h.inv.update hliquid hnonneg hle, ?_⟩
      show Function.update st.want _ _ D_TOP ≤ 0
      rw [Function.update_of_ne (Ne.symm htop)]
      exact h.top
    split_ifs with hroom hexact hmore
    · exact open_inc hk hset hliquid htop (hroom.1.trans_le hmax) hroom.2
    · exact hset
    · exact open_inc hk hset hliquid htop (hroom.1.trans_le hmax) hroom.2
    · exact hset
  · rw [if_neg hliquid]
    exact h

theorem open_fillSame (hk : k.Proper) (h : Open k c st) : Open k c (st.fillSame s k c) :=
  List.foldlRecOn sameDirs _ h fun _ h _ hir => open_fillSameStep hk h hir

theorem open_fillRestStep (hk : k.Proper) (h : Open k c st) {ir : Dir} (hir : ir ∈ sameDirs) :
    Open k c (fillRestStep s k st ir) := by
  have hmax := k.le_bound
  unfold fillRestStep
  dsimp only
  split_ifs with hempty hroom
  · exact h
  · exact open_inc hk h (liquid_of_want h.inv hroom.1) (randomDir_ne_top 2 hir) (by omega)
      (by omega)
  · exact h

theorem open_fillRest (hk : k.Proper) (h : Open k c st) : Open k c (st.fillRest s k) :=
  List.foldlRecOn sameDirs _ h fun _ h _ hir => open_fillRestStep hk h hir

theorem inv_compressStep (hk : k.Proper) (h : Inv k c st) (ir : Dir) :
    Inv k c (compressStep s k c st ir) := by
  have hmax : k.level_max_compressed ≤ k.bound := le_max_right _ _
  unfold compressStep
  dsimp only
  split_ifs with hempty hroom
  · exact h
  · exact inv_inc hk h hroom.1 (by omega) (by omega)
  · exact h

theorem inv_fillSecondary (hk : k.Proper) (h : Open k c st) :
    Inv k c (st.fillSecondary s k c) := by
  have hbound := hk.bound_le
  have hnonneg := hk.nonneg
  have hmax := k.le_bound
  have hle := h.inv.total_le
  unfold fillSecondary
  dsimp only
  by_cases hfill : (c.neighbors D_TOP).liquid = true ∧ 0 < st.total
  · have hcurrent : ¬0 < st.want D_TOP := by
      have := h.top
      omega
    rw [if_pos hfill, if_neg hcurrent, sub_zero, s16_eq (by omega) (by omega), zero_add]
    have hadd := min_le_left st.total k.level_max
    have hadd' := min_le_right st.total k.level_max
    have hpos : 0 ≤ min st.total k.level_max := le_min hfill.2.le hnonneg
    have hput := inv_put hk h.inv hfill.1 hpos (by omega)
      (show 0 ≤ st.total - min st.total k.level_max by omega) (by omega)
    split_ifs
    · exact List.foldlRecOn allDirs _ hput fun _ h ir _ => inv_compressStep hk h ir
    · exact hput
  · rw [if_neg hfill]
    exact h.inv

theorem inv_press (hr : Ready nodes k c) (h : Inv k c st) : Inv k c (st.press k c) := by
  have hmax : k.level_max_compressed ≤ k.bound := le_max_right _ _
  have hnonneg := hr.proper.nonneg
  unfold press
  split_ifs with _ hbottom hself _ htop
  · exact inv_move hr.proper h (liquid_of_want h hbottom.2.2.le) hbottom.1 (by decide)
      hbottom.2.2 (by omega)
  · exact inv_move hr.proper h hr.self hself.1 (by decide) (by omega) (by omega)
  · exact h
  · exact inv_move hr.proper h htop.1 hr.self (by decide) (by omega) (by omega)
  · exact h
  · exact h
  · exact h

theorem inv_rest (hk : k.Proper) (h : Inv k c st) (i : Dir) : Inv k c (st.rest k c i) := by
  have hmax : k.level_max_compressed ≤ k.bound := le_max_right _ _
  have hle := h.total_le
  have hlow := h.low i
  unfold rest
  dsimp only
  split_ifs with hroom hmore
  · exact inv_put hk h hroom.2.1 (by omega) (by omega) (by omega) (by omega)
  · exact inv_put hk h hroom.2.1 (by omega) (by omega) (by omega) (by omega)
  · exact h

theorem inv_floodStep (hr : Ready nodes k c) (h : Inv k c st) (i : Dir) :
    Inv k c (floodStep s k c st i) := by
  have hbound := hr.proper.bound_le
  have hnonneg := hr.proper.nonneg
  have hmax := k.le_bound
  unfold floodStep
  split_ifs with hinf hfast
  · have hcounted := (hr.sound.seen i).infinity hinf.1
    have hliquid := (hr.sound.seen i).liquid hcounted
    have hwant := h.counted i hcounted
    exact h.update hliquid (by omega) (hr.levels i)
  · rw [s8_eq (by omega) (by omega)]
    exact h.update (liquid_of_want h hfast.1) hnonneg hmax
  · exact h

theorem inv_flood (hr : Ready nodes k c) (h : Inv k c st) : Inv k c (st.flood s k c) :=
  List.foldlRecOn allDirs _ h fun _ h i _ => inv_floodStep hr h i
/-! ## The parts of a gas -/

structure GoodDirs (c : Cell) (dirs : List Dir) : Prop where
  nodup : dirs.Nodup
  liquid : ∀ d ∈ dirs, (c.neighbors d).liquid = true

variable {dirs : List Dir} {d : Dir}

theorem mem_addGasDir : i ∈ addGasDir c dirs d ↔
    i ∈ dirs ∨ i = d ∧ (c.neighbors d).liquid = true := by
  unfold addGasDir
  split_ifs with h
  · rw [List.mem_append, List.mem_singleton]
    tauto
  · constructor
    · exact .inl
    · rintro (hi | ⟨rfl, hl⟩)
      · exact hi
      · by_contra hnot
        exact h ⟨hl, hnot⟩

theorem good_addGasDir (h : GoodDirs c dirs) (d : Dir) : GoodDirs c (addGasDir c dirs d) := by
  refine ⟨?_, fun i hi => ?_⟩
  · unfold addGasDir
    split_ifs with hd
    · exact List.nodup_append.mpr ⟨h.nodup, List.nodup_singleton d, fun a ha b hb => by
        rw [List.mem_singleton.mp hb]
        rintro rfl
        exact hd.2 ha⟩
    · exact h.nodup
  · rcases mem_addGasDir.mp hi with hi | ⟨rfl, hl⟩
    · exact h.liquid i hi
    · exact hl

theorem good_foldl (h : GoodDirs c dirs) (ds : List Dir) :
    GoodDirs c (ds.foldl (addGasDir c) dirs) :=
  List.foldlRecOn ds _ h fun _ h d _ => good_addGasDir h d

theorem mem_foldl_addGasDir (ds : List Dir) (hi : i ∈ ds ∨ i ∈ dirs)
    (hl : (c.neighbors i).liquid = true) : i ∈ ds.foldl (addGasDir c) dirs := by
  induction ds generalizing dirs with
  | nil =>
    rcases hi with hi | hi
    · cases hi
    · exact hi
  | cons d ds ih =>
    rw [List.foldl_cons]
    refine ih ?_
    rcases hi with hi | hi
    · rcases List.mem_cons.mp hi with rfl | hi
      · exact .inr (mem_addGasDir.mpr (.inr ⟨rfl, hl⟩))
      · exact .inl hi
    · exact .inr (mem_addGasDir.mpr (.inl hi))

theorem good_floatDirs (s : Setting) (k : Kind) (c : Cell) : GoodDirs c (floatDirs s k c) := by
  have hnil : GoodDirs c [] := ⟨List.nodup_nil, fun d hd => by cases hd⟩
  unfold floatDirs
  cases k.float_height with
  | none => exact hnil
  | some h =>
    dsimp only
    split_ifs
    · exact good_addGasDir hnil _
    · exact good_addGasDir hnil _
    · exact hnil

theorem good_addWindDir (s : Setting) (h : GoodDirs c dirs) : GoodDirs c (addWindDir s c dirs) := by
  unfold addWindDir
  cases s.wind with
  | none => exact h
  | some dir => exact good_addGasDir h dir

theorem good_gasDirs (s : Setting) (k : Kind) (c : Cell) : GoodDirs c (gasDirs s k c) := by
  have hwind := good_addWindDir s (good_floatDirs s k c)
  unfold gasDirs
  dsimp only
  split_ifs
  · exact good_foldl (good_addGasDir (good_foldl (good_addGasDir hwind _) _) _) _
  · exact good_foldl hwind _

/-- Each of some directions gets so much, if there is enough for all. -/
theorem inv_foldl_put (hk : k.Proper) (h : Inv k c st) {base : ℤ} (hbase : 0 ≤ base)
    (hle : base ≤ k.bound) (hliquid : ∀ d ∈ dirs, (c.neighbors d).liquid = true)
    (henough : base * dirs.length ≤ st.total) :
    Inv k c (dirs.foldl (fun st dir => st.put dir base (st.total - base)) st) := by
  induction dirs generalizing st with
  | nil => exact h
  | cons d dirs ih =>
    rw [List.forall_mem_cons] at hliquid
    rw [List.length_cons] at henough
    push_cast at henough
    rw [mul_add, mul_one] at henough
    have hrest : 0 ≤ base * (dirs.length : ℤ) := mul_nonneg hbase (Int.natCast_nonneg _)
    have htotal := h.total_le
    rw [List.foldl_cons]
    refine ih (inv_put hk h hliquid.1 hbase hle (by omega) (by omega)) hliquid.2 ?_
    show _ ≤ s16 _
    rw [s16_eq (by omega) (by omega)]
    omega

theorem gasBase_share (h : Inv k c st) (hdirs : dirs ≠ []) :
    s16 (st.total / dirs.length) = st.total / dirs.length ∧ 0 ≤ st.total / dirs.length ∧
      st.total / dirs.length * dirs.length ≤ st.total := by
  have hlen : 0 < (dirs.length : ℤ) := by
    have := List.length_pos_iff.mpr hdirs
    omega
  have hmul : st.total / dirs.length * dirs.length ≤ st.total := Int.ediv_mul_le _ (by omega)
  have hpos : 0 ≤ st.total / (dirs.length : ℤ) := Int.ediv_nonneg h.total_nonneg hlen.le
  have hle : st.total / (dirs.length : ℤ) ≤ st.total :=
    Int.ediv_le_self _ h.total_nonneg
  have htotal := h.total_le
  exact ⟨s16_eq (by omega) (by omega), hpos, hmul⟩

theorem inv_gasBase (hk : k.Proper) (h : Inv k c st) (hdirs : dirs ≠ [])
    (hliquid : ∀ d ∈ dirs, (c.neighbors d).liquid = true) : Inv k c (st.gasBase k dirs) := by
  have hmax := k.le_bound
  obtain ⟨heq, hpos, hmul⟩ := gasBase_share h hdirs
  have hbase := min_le_left k.level_max (st.total / dirs.length)
  have hshare : min k.level_max (st.total / dirs.length) * (dirs.length : ℤ) ≤
      st.total / dirs.length * dirs.length :=
    mul_le_mul_of_nonneg_right (min_le_right _ _) (Int.natCast_nonneg _)
  unfold gasBase
  dsimp only
  rw [heq]
  split_ifs with hsome
  · exact inv_foldl_put hk h hsome.le (by omega) hliquid (by omega)
  · exact h

theorem inv_gasTry (hk : k.Proper) (h : Inv k c st) (dirs : List Dir) (tries : ℕ) :
    Inv k c (gasTry k c dirs st tries) := by
  have hmax := k.le_bound
  unfold gasTry
  cases dirs[tries % dirs.length]? with
  | none => exact h
  | some dir =>
    dsimp only
    split_ifs with hroom
    · exact inv_inc hk h hroom.2.1 (by omega) hroom.1
    · exact h

theorem inv_gasTries (hk : k.Proper) (h : Inv k c st) (dirs : List Dir) :
    Inv k c (st.gasTries k c dirs) :=
  List.foldlRecOn (List.range _) _ h fun _ h tries _ => inv_gasTry hk h dirs tries

theorem inv_fillGas (hk : k.Proper) (h : Inv k c st) : Inv k c (st.fillGas s k c) := by
  unfold fillGas
  dsimp only
  split_ifs with hnil
  · exact h
  · exact inv_gasTries hk (inv_gasTries hk (inv_gasBase hk h hnil
      (good_gasDirs s k c).liquid) _) _
  · exact inv_gasTries hk (inv_gasBase hk h hnil (good_gasDirs s k c).liquid) _

end Levels

/-! ## All parts -/

def Along (P : Levels → Prop) : List (Levels → Levels) → Levels → Prop
  | [], st => P st
  | p :: ps, st => P st ∧ Along P ps (p st)

theorem Along.imp {P Q : Levels → Prop} (h : ∀ st, P st → Q st) {ps : List (Levels → Levels)}
    (ha : Along P ps st) : Along Q ps st := by
  induction ps generalizing st with
  | nil => exact h st ha
  | cons p ps ih => exact ⟨h st ha.1, ih ha.2⟩

theorem along_phases (hr : Levels.Ready nodes k c) :
    Along (Levels.Inv k c) (phases s k c) c.start := by
  have hk := hr.proper
  have hstart := Levels.inv_start hk hr.sound
  unfold phases
  cases hgas : k.gas with
  | true =>
    have hfill := Levels.inv_fillGas (s := s) hk hstart
    have htop := Levels.inv_rest hk hfill D_TOP
    have hself := Levels.inv_rest hk htop D_SELF
    exact ⟨hstart, hfill, htop, hself, Levels.inv_flood hr hself⟩
  | false =>
    have hprimary := Levels.early_fillPrimary (s := s) hr hgas
    have hup := Levels.early_relaxUp hr hprimary
    have habove := Levels.settled_aboveUnloaded hr hgas hup
    have hlevel := Levels.open_selfLevel hr hgas habove
    have hdown := Levels.open_relaxDown (s := s) hlevel
    have hsame := Levels.open_fillSame (s := s) hk hdown
    have hrest := Levels.open_fillRest (s := s) hk hsame
    have hsecondary := Levels.inv_fillSecondary (s := s) hk hrest
    have hpress := Levels.inv_press hr hsecondary
    have htop := Levels.inv_rest hk hpress D_TOP
    have hself := Levels.inv_rest hk htop D_SELF
    exact ⟨hstart, hprimary.inv, hup.inv, habove.inv, hlevel.inv, hdown.inv, hsame.inv, hrest.inv,
      hsecondary, hpress, htop, hself, Levels.inv_flood hr hself⟩

end Freeminer.Liquid
