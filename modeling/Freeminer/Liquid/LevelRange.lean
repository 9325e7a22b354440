import Freeminer.Liquid.Distribute

/-! Levels that are not compressed: what the places hold, so that nothing is left over. -/

namespace Freeminer.Liquid

open Block Cell

variable {s : Setting} {k : Kind} {c : Cell} {nodes : Dir → MapNode} {st : Levels} {i j : Dir}

namespace Levels

/-! ## Levels that are not compressed -/

theorem AtMost.mono {b b' : ℤ} (h : AtMost c b) (hb : b ≤ b') : AtMost c b' :=
  fun i => (h i).trans hb

theorem levelAvg_le (hk : k.Proper) (hc : c.Sound nodes) (hcan : 0 < c.can_liquid)
    (hgas : k.gas = false) (h : AtMost c k.level_max) : ¬k.level_max < levelAvg k c := by
  intro havg
  have hsum := (levelAvg_of_lt hk hc (h.mono k.le_bound) hcan havg hgas).1
  have hle := total_le_can hc hk.nonneg h
  have hlt : k.level_max * c.can_liquid < levelAvg k c * c.can_liquid :=
    mul_lt_mul_of_pos_right havg hcan
  rw [mul_comm] at hle
  omega

/-- What is left for the node and those beside it, and for the place above if that takes part. -/
def Holds (k : Kind) (c : Cell) (st : Levels) : Prop :=
  st.total ≤ k.level_max * c.can_liquid_same_level +
    k.level_max * (1 + c.liquid_levels_want D_TOP)

theorem holds_fillPrimary (hr : Ready nodes k c) (hgas : k.gas = false)
    (h : AtMost c k.level_max) : Holds k c (c.start.fillPrimary k c) := by
  have hbound := hr.proper.bound_le
  have hnonneg := hr.proper.nonneg
  have hmax := k.le_bound
  have htotal := hr.sound.total_bounds
  have hle := total_le_can hr.sound hnonneg h
  have havg := levelAvg_le hr.proper hr.sound hr.can hgas h
  have hstart : c.start.total = c.total_level := rfl
  rw [can_eq hr.sound, add_mul, add_mul, mul_comm, mul_comm (1 + c.liquid_levels_want D_BOTTOM),
    mul_comm (1 + c.liquid_levels_want D_TOP)] at hle
  have htop : 0 ≤ k.level_max * (1 + c.liquid_levels_want D_TOP) :=
    mul_nonneg hnonneg (hr.sound.one_add_want D_TOP).1
  have hbelow : k.level_max * (1 + c.liquid_levels_want D_BOTTOM) ≤ k.level_max :=
    mul_le_of_le_one_right hnonneg (hr.sound.one_add_want D_BOTTOM).2
  have hsame : 0 ≤ k.level_max * c.can_liquid_same_level := mul_nonneg hnonneg hr.same.le
  unfold Holds fillPrimary
  dsimp only
  rw [hstart]
  by_cases hliquid : (c.neighbors D_BOTTOM).liquid = true
  · rw [if_pos hliquid, if_neg havg]
    show s16 _ ≤ _
    split_ifs with hlt
    · rw [s8_eq (by omega) (by omega), s16_eq (by omega) (by omega)]
      omega
    · rw [s8_eq (by omega) (by omega), s16_eq (by omega) (by omega)]
      omega
  · have hcounted : c.liquid_levels_want D_BOTTOM = -1 := by
      rcases (hr.sound.seen D_BOTTOM).wanted with hw | hw
      · exact absurd ((hr.sound.seen D_BOTTOM).liquid hw) hliquid
      · exact hw
    rw [if_neg hliquid, hstart]
    rw [hcounted] at hle
    omega

theorem holds_relaxUp (hr : Ready nodes k c) (h : Holds k c st) :
    Holds k c (st.relaxUp s k c) := by
  obtain ⟨heq, hnonneg, hle⟩ := relaxWant_eq hr
  have htop : 0 ≤ k.level_max * (1 + c.liquid_levels_want D_TOP) :=
    mul_nonneg hr.proper.nonneg (hr.sound.one_add_want D_TOP).1
  unfold relaxUp
  split_ifs
  · rw [heq, s16_eq (by omega) (by omega)]
    show k.level_max * c.can_liquid_same_level ≤ _
    omega
  · exact h

theorem holds_aboveUnloaded (hinv : Inv k c st) (h : Holds k c st) :
    Holds k c (st.aboveUnloaded s k c) := by
  have hnonneg := hinv.total_nonneg
  have hle := hinv.total_le
  unfold aboveUnloaded
  split_ifs
  · show s16 _ ≤ _
    rw [s16_eq (by omega) (by omega)]
    have : st.total ≤ _ := h
    omega
  · exact h

/-- What is left after the node and those beside it got their level: what they do not hold, or too
little for one more on each of them. -/
def Split (k : Kind) (c : Cell) (st : Levels) : Prop :=
  st.want_level = k.level_max ∧ st.total ≤ k.level_max * (1 + c.liquid_levels_want D_TOP) ∨
    st.want_level < k.level_max ∧ st.total < c.can_liquid_same_level

theorem split_selfLevel (hr : Ready nodes k c) (hgas : k.gas = false)
    (hlevel : AtMost c k.level_max) (hinv : Inv k c st) (h : Holds k c st) :
    Split k c (st.selfLevel k c) := by
  have hbound := hr.proper.bound_le
  have hnonneg := hr.proper.nonneg
  have hmax := k.le_bound
  have htotal := hinv.total_nonneg
  have hle := hinv.total_le
  have hsame := hr.same
  have hprod := (relaxWant_eq hr).2
  unfold Holds at h
  unfold selfLevel Split
  rw [if_neg (levelAvg_le hr.proper hr.sound hr.can hgas hlevel)]
  split_ifs with hfull
  · have hu : u16 k.level_max = k.level_max := Int.emod_eq_of_lt hnonneg (by omega)
    left
    dsimp only
    rw [hu, s16_eq (by omega) (by omega)]
    exact ⟨rfl, by omega⟩
  · have hlt : st.total / c.can_liquid_same_level < k.level_max :=
      Int.ediv_lt_of_lt_mul hsame (by omega)
    have hpos : 0 ≤ st.total / c.can_liquid_same_level := Int.ediv_nonneg htotal hsame.le
    have hu : u16 (st.total / c.can_liquid_same_level) = st.total / c.can_liquid_same_level :=
      Int.emod_eq_of_lt hpos (by omega)
    have hmod := Int.emod_lt_of_pos st.total hsame
    have hmod' := Int.emod_nonneg st.total (show c.can_liquid_same_level ≠ 0 by omega)
    have hdiv := Int.emod_add_mul_ediv st.total c.can_liquid_same_level
    rw [mul_comm] at hdiv
    have hshared : 0 ≤ st.total / c.can_liquid_same_level * c.can_liquid_same_level :=
      mul_nonneg hpos hsame.le
    right
    dsimp only
    rw [Int.tdiv_eq_ediv_of_nonneg htotal, hu, s16_eq (by omega) (by omega)]
    exact ⟨hlt, by omega⟩

theorem split_relaxDown (hr : Ready nodes k c) (h : Split k c st) :
    Split k c (st.relaxDown s k c) := by
  have htop : 0 ≤ k.level_max * (1 + c.liquid_levels_want D_TOP) :=
    mul_nonneg hr.proper.nonneg (hr.sound.one_add_want D_TOP).1
  have hsame := hr.same
  unfold relaxDown
  split_ifs
  · rcases h with ⟨hwant, _⟩ | ⟨hwant, _⟩
    · exact .inl ⟨hwant, htop⟩
    · exact .inr ⟨hwant, hsame⟩
  · exact h

/-! ### The odd levels -/

def sameLiquid (c : Cell) : Finset Dir :=
  Finset.univ.filter fun i => sameDirs.contains i = true ∧ (c.neighbors i).liquid = true

theorem same_le_card (hc : c.Sound nodes) :
    c.can_liquid_same_level ≤ (sameLiquid c).card := by
  rw [hc.same, sameLiquid, Finset.card_filter]
  push_cast
  refine Finset.sum_le_sum fun i _ => ?_
  have hlevel : Cell.sameLevel i = if sameDirs.contains i = true then 1 else 0 := by
    revert i
    decide
  rw [hlevel]
  rcases (hc.seen i).wanted with hw | hw
  · have hl := (hc.seen i).liquid hw
    rw [hw, hl]
    split_ifs with hsame hboth hboth
    · decide
    · exact absurd ⟨hsame, rfl⟩ hboth
    · decide
    · decide
  · rw [hw, show (1 : ℤ) + -1 = 0 by decide, zero_mul]
    split_ifs <;> decide

/-- In each row of the map each place on the same level has its turn. -/
theorem exists_randomDir (s : Setting) (n : ℕ) {i : Dir} (h : i ∈ sameDirs) :
    i ∈ sameDirs.map (randomDir s n) := by
  have hrows : ∀ row : Fin 4, ∀ i ∈ sameDirs, i ∈ sameDirs.map (liquid_random_map row) := by
    decide
  exact hrows _ i h

theorem randomDir_mem (s : Setting) (n : ℕ) {ir : Dir} (h : ir ∈ sameDirs) :
    randomDir s n ir ∈ sameDirs := by
  have hrows : ∀ row : Fin 4, ∀ ir ∈ sameDirs, liquid_random_map row ir ∈ sameDirs := by decide
  exact hrows _ ir h

theorem nodup_randomDir (s : Setting) (n : ℕ) : (sameDirs.map (randomDir s n)).Nodup := by
  have hrows : ∀ row : Fin 4, (sameDirs.map (liquid_random_map row)).Nodup := by decide
  exact hrows _

/-- What the places on the same level got beyond the level that all of them have. -/
def odd (c : Cell) (is : Finset Dir) (st : Levels) : ℤ :=
  ∑ i ∈ is, if (c.neighbors i).liquid then st.want i - st.want_level else 0

/-- The loop over the same level, after the places `is`. -/
structure Filled (k : Kind) (c : Cell) (is : Finset Dir) (left : ℤ) (st : Levels) : Prop where
  inv : Inv k c st
  room : st.want_level < k.level_max
  want : ∀ i ∈ is, (c.neighbors i).liquid = true → st.want_level ≤ st.want i
  sum : st.total + odd c is st = left

theorem odd_update {is : Finset Dir} {i : Dir} (hi : i ∉ is) (w : ℤ) :
    odd c is { st with want := Function.update st.want i w } = odd c is st := by
  refine Finset.sum_congr rfl fun j hj => ?_
  have hne : j ≠ i := fun heq => hi (heq ▸ hj)
  simp only [Function.update_of_ne hne]

theorem odd_insert {is : Finset Dir} {i : Dir} (hi : i ∉ is) (st : Levels) :
    odd c (insert i is) st =
      (if (c.neighbors i).liquid then st.want i - st.want_level else 0) + odd c is st :=
  Finset.sum_insert hi

theorem Filled.inc (hk : k.Proper) {is : Finset Dir} {left : ℤ} (h : Filled k c is left st)
    {i : Dir} (hi : i ∈ is) (hl : (c.neighbors i).liquid = true) (hw : st.want i < k.bound)
    (ht : 0 < st.total) : Filled k c is left (st.inc i) := by
  have hbound := hk.bound_le
  have hlow := h.inv.low i
  have htotal := h.inv.total_le
  have hwant := h.want i hi hl
  have hself : (st.inc i).want i = st.want i + 1 := by
    show Function.update st.want i _ i = _
    rw [Function.update_self, s8_eq (by omega) (by omega)]
  have hother : ∀ j, j ≠ i → (st.inc i).want j = st.want j := fun j hj =>
    Function.update_of_ne hj _ _
  have hlevel : (st.inc i).want_level = st.want_level := rfl
  have hsum : odd c is (st.inc i) = odd c is st + 1 := by
    unfold odd
    rw [← Finset.add_sum_erase is _ hi, ← Finset.add_sum_erase is (fun j =>
      if (c.neighbors j).liquid then st.want j - st.want_level else 0) hi, hself, hl, hlevel]
    have hrest : ∀ j ∈ is.erase i,
        (if (c.neighbors j).liquid then (st.inc i).want j - st.want_level else 0) =
          if (c.neighbors j).liquid then st.want j - st.want_level else 0 := by
      intro j hj
      rw [hother j (Finset.ne_of_mem_erase hj)]
    rw [Finset.sum_congr rfl hrest]
    simp only [if_true]
    ring
  have htotal' : (st.inc i).total = st.total - 1 := s16_eq (by omega) (by omega)
  refine ⟨inv_inc hk h.inv hl hw ht, h.room, fun j hj hlj => ?_, ?_⟩
  · by_cases hji : j = i
    · subst hji
      rw [hself, hlevel]
      omega
    · rw [hother j hji]
      exact h.want j hj hlj
  · rw [htotal', hsum, ← h.sum]
    ring

theorem filled_fillSameStep (hk : k.Proper) {is : Finset Dir} {left : ℤ}
    (h : Filled k c is left st) {ir : Dir} (hi : randomDir s 1 ir ∉ is) :
    Filled k c (insert (randomDir s 1 ir) is) left (fillSameStep s k c st ir) := by
  have hbound := hk.bound_le
  have hmax := k.le_bound
  have hnonneg := h.inv.want_level_nonneg
  have hle := h.inv.want_level_le
  unfold fillSameStep
  dsimp only
  by_cases hl : (c.neighbors (randomDir s 1 ir)).liquid = true
  · rw [if_pos hl, s8_eq (by omega) (by omega)]
    have hset : Filled k c (insert (randomDir s 1 ir) is) left
        { st with want := Function.update st.want (randomDir s 1 ir) st.want_level } := by
      refine ⟨h.inv.update hl hnonneg hle, h.room, fun j hj hlj => ?_, ?_⟩
      · by_cases hji : j = randomDir s 1 ir
        · subst hji
          simp only [Function.update_self]
          exact le_rfl
        · simp only [Function.update_of_ne hji]
          exact h.want j ((Finset.mem_insert.mp hj).resolve_left hji) hlj
      · rw [odd_insert hi, odd_update hi, ← h.sum]
        simp only [hl, if_true, Function.update_self]
        ring
    split_ifs with hroom hexact hmore
    · exact hset.inc hk (Finset.mem_insert_self _ _) hl (hroom.1.trans_le hmax) hroom.2
    · exact hset
    · exact hset.inc hk (Finset.mem_insert_self _ _) hl (hroom.1.trans_le hmax) hroom.2
    · exact hset
  · rw [if_neg hl]
    refine ⟨h.inv, h.room, fun j hj hlj => ?_, ?_⟩
    · rcases Finset.mem_insert.mp hj with rfl | hj
      · exact absurd hlj hl
      · exact h.want j hj hlj
    · rw [odd_insert hi, if_neg hl, zero_add]
      exact h.sum

theorem filled_foldl (hk : k.Proper) {irs : List Dir} {is : Finset Dir} {left : ℤ}
    (h : Filled k c is left st) (hnodup : (irs.map (randomDir s 1)).Nodup)
    (hnew : ∀ ir ∈ irs, randomDir s 1 ir ∉ is) :
    Filled k c ((irs.map (randomDir s 1)).toFinset ∪ is) left
      (irs.foldl (fillSameStep s k c) st) := by
  induction irs generalizing st is with
  | nil => simpa using h
  | cons ir irs ih =>
    rw [List.map_cons, List.nodup_cons] at hnodup
    rw [List.forall_mem_cons] at hnew
    have hrest := ih (filled_fillSameStep hk h hnew.1) hnodup.2 (fun jr hjr hmem => by
      rcases Finset.mem_insert.mp hmem with heq | hmem
      · exact hnodup.1 (heq ▸ List.mem_map_of_mem hjr)
      · exact hnew.2 jr hjr hmem)
    rw [List.map_cons, List.toFinset_cons, Finset.insert_union, ← Finset.union_insert]
    exact hrest

/-- After a turn with something left a place has more than the level of all. -/
theorem filled_fillRest (hk : k.Proper) {is : Finset Dir} {left : ℤ} {irs : List Dir}
    (h : Filled k c is left st)
    (hdirs : ∀ ir ∈ irs, (c.neighbors (randomDir s 2 ir)).liquid = true → randomDir s 2 ir ∈ is) :
    Filled k c is left (irs.foldl (fillRestStep s k) st) ∧
      (irs.foldl (fillRestStep s k) st).want_level = st.want_level ∧
      (∀ i, st.want i ≤ (irs.foldl (fillRestStep s k) st).want i) ∧
      (irs.foldl (fillRestStep s k) st).total ≤ st.total ∧
      (0 < (irs.foldl (fillRestStep s k) st).total → ∀ ir ∈ irs,
        (c.neighbors (randomDir s 2 ir)).liquid = true →
        st.want_level < (irs.foldl (fillRestStep s k) st).want (randomDir s 2 ir)) := by
  have hmax := k.le_bound
  induction irs generalizing st with
  | nil => exact ⟨h, rfl, fun _ => le_rfl, le_rfl, fun _ ir hir => by cases hir⟩
  | cons ir irs ih =>
    rw [List.forall_mem_cons] at hdirs
    have hbound := hk.bound_le
    have htotal := h.inv.total_le
    have hnonneg := h.inv.want_level_nonneg
    have hroom := h.room
    -- one turn
    have hstep : Filled k c is left (fillRestStep s k st ir) ∧
        (fillRestStep s k st ir).want_level = st.want_level ∧
        (∀ i, st.want i ≤ (fillRestStep s k st ir).want i) ∧
        (fillRestStep s k st ir).total ≤ st.total ∧
        (0 < (fillRestStep s k st ir).total → (c.neighbors (randomDir s 2 ir)).liquid = true →
          st.want_level < (fillRestStep s k st ir).want (randomDir s 2 ir)) := by
      unfold fillRestStep
      dsimp only
      split_ifs with hempty hwant
      · exact ⟨h, rfl, fun _ => le_rfl, le_rfl, fun hpos => by omega⟩
      · have hl := liquid_of_want h.inv hwant.1
        have hin := hdirs.1 hl
        have hle := h.want _ hin hl
        have hself : (st.inc (randomDir s 2 ir)).want (randomDir s 2 ir) =
            st.want (randomDir s 2 ir) + 1 := by
          show Function.update st.want _ _ _ = _
          rw [Function.update_self, s8_eq (by omega) (by omega)]
        have hinc : (st.inc (randomDir s 2 ir)).total = st.total - 1 :=
          s16_eq (by omega) (by omega)
        refine ⟨h.inc hk hin hl (by omega) (by omega), rfl, fun i => ?_, by omega,
          fun _ _ => by omega⟩
        by_cases hi : i = randomDir s 2 ir
        · rw [hi, hself]
          omega
        · exact (Function.update_of_ne hi _ _).ge
      · refine ⟨h, rfl, fun _ => le_rfl, le_rfl, fun _ hl => ?_⟩
        have hle := h.want _ (hdirs.1 hl) hl
        by_contra hnot
        exact hwant ⟨by omega, by omega⟩
    obtain ⟨hfilled, hlevel, hmono, hless, hturn⟩ := hstep
    obtain ⟨hfilled', hlevel', hmono', hless', hturn'⟩ := ih hfilled hdirs.2
    rw [List.foldl_cons]
    refine ⟨hfilled', hlevel'.trans hlevel, fun i => (hmono i).trans (hmono' i),
      hless'.trans hless, fun hpos jr hjr hl => ?_⟩
    rcases List.mem_cons.mp hjr with rfl | hjr
    · exact (hturn (by omega) hl).trans_le (hmono' _)
    · rw [← hlevel]
      exact hturn' hpos jr hjr hl
/-! ## The sum of a gas -/

def sumWant (st : Levels) : ℤ := ∑ i, max (st.want i) 0

theorem sumWant_put (hk : k.Proper) (h : Inv k c st) {base : ℤ} (hbase : 0 ≤ base)
    (hle : base ≤ k.bound) (hi : st.want i ≤ 0) (henough : base ≤ st.total) :
    (st.put i base (st.total - base)).total + (st.put i base (st.total - base)).sumWant =
      st.total + st.sumWant := by
  have hbound := hk.bound_le
  have htotal := h.total_le
  unfold put sumWant
  rw [s8_eq (by omega) (by omega), s16_eq (by omega) (by omega),
    sum_update_add st.want (fun _ x => max x 0) i base (max_eq_right hi), max_eq_left hbase]
  ring

theorem sumWant_inc (hk : k.Proper) (h : Inv k c st) (hi : 0 ≤ st.want i)
    (hw : st.want i < k.bound) (ht : 0 < st.total) :
    (st.inc i).total + (st.inc i).sumWant = st.total + st.sumWant := by
  have hbound := hk.bound_le
  have htotal := h.total_le
  unfold inc sumWant
  dsimp only
  rw [s8_eq (by omega) (by omega), s16_eq (by omega) (by omega),
    sum_update st.want (fun _ x => max x 0) i (st.want i + 1), max_eq_left hi,
    max_eq_left (by omega)]
  ring

theorem sumWant_foldl_put (hk : k.Proper) (h : Inv k c st) {base : ℤ} (hbase : 0 ≤ base)
    (hle : base ≤ k.bound) (hgood : GoodDirs c dirs) (hzero : ∀ d ∈ dirs, st.want d ≤ 0)
    (henough : base * dirs.length ≤ st.total) :
    (dirs.foldl (fun st dir => st.put dir base (st.total - base)) st).total =
        st.total - base * dirs.length ∧
      (dirs.foldl (fun st dir => st.put dir base (st.total - base)) st).sumWant =
        st.sumWant + base * dirs.length ∧
      (∀ d ∈ dirs, (dirs.foldl (fun st dir => st.put dir base (st.total - base)) st).want d =
        base) ∧
      ∀ d ∉ dirs, (dirs.foldl (fun st dir => st.put dir base (st.total - base)) st).want d =
        st.want d := by
  have hbound := hk.bound_le
  induction dirs generalizing st with
  | nil => simp
  | cons d dirs ih =>
    obtain ⟨hnodup, hliquid⟩ := hgood
    rw [List.nodup_cons] at hnodup
    rw [List.forall_mem_cons] at hliquid hzero
    have hlen : ((d :: dirs).length : ℤ) = dirs.length + 1 := by simp
    rw [hlen] at henough ⊢
    rw [mul_add, mul_one] at henough ⊢
    have hrest : 0 ≤ base * (dirs.length : ℤ) := mul_nonneg hbase (Int.natCast_nonneg _)
    have htotal := h.total_le
    have hput : (st.put d base (st.total - base)).total = st.total - base :=
      s16_eq (by omega) (by omega)
    have hsum := sumWant_put hk h hbase hle hzero.1 (by omega)
    have hself : (st.put d base (st.total - base)).want d = base := by
      show Function.update st.want d (s8 base) d = base
      rw [Function.update_self, s8_eq (by omega) (by omega)]
    have hother : ∀ i, i ≠ d → (st.put d base (st.total - base)).want i = st.want i := by
      intro i hi
      exact Function.update_of_ne hi _ _
    have hinv : Inv k c (st.put d base (st.total - base)) :=
      inv_put hk h hliquid.1 hbase hle (by omega) (by omega)
    obtain ⟨htotal', hsum', hin, hout⟩ := ih hinv ⟨hnodup.2, hliquid.2⟩
      (fun i hi => by
        rw [hother i fun heq => hnodup.1 (heq ▸ hi)]
        exact hzero.2 i hi) (by omega)
    rw [List.foldl_cons]
    refine ⟨by omega, by omega, fun i hi => ?_, fun i hi => ?_⟩
    · rcases List.mem_cons.mp hi with rfl | hi
      · rw [hout i hnodup.1, hself]
      · exact hin i hi
    · rw [List.mem_cons, not_or] at hi
      rw [hout i hi.2, hother i hi.1]

theorem gasTry_of_empty (h : st.total ≤ 0) (dirs : List Dir) (tries : ℕ) :
    gasTry k c dirs st tries = st := by
  unfold gasTry
  cases dirs[tries % dirs.length]? with
  | none => rfl
  | some dir =>
    dsimp only
    rw [if_neg fun hroom => by omega]

def unit (c : Cell) (d : Option Dir) : ℤ :=
  if d.any fun d => (c.neighbors d).liquid then 1 else 0

def liquidCount (c : Cell) (dirs : List Dir) : ℕ := dirs.countP fun d => (c.neighbors d).liquid

theorem unit_nonneg (c : Cell) (d : Option Dir) : 0 ≤ unit c d := by
  unfold unit
  split_ifs <;> decide

theorem sum_unit (c : Cell) (dirs : List Dir) :
    ∑ j ∈ Finset.range dirs.length, unit c dirs[j]? = liquidCount c dirs := by
  unfold liquidCount
  induction dirs with
  | nil => rfl
  | cons d dirs ih =>
    have hhead : unit c (d :: dirs)[0]? = if (c.neighbors d).liquid then 1 else 0 := by
      simp [unit]
    rw [List.length_cons, Finset.sum_range_succ', hhead, List.countP_cons]
    simp only [List.getElem?_cons_succ, ih]
    split_ifs <;> simp

/-- In each round each liquid direction has its turn. -/
theorem sum_rounds (c : Cell) (dirs : List Dir) (m : ℕ) :
    ∑ n ∈ Finset.range (dirs.length * m), unit c dirs[n % dirs.length]? =
      m * liquidCount c dirs := by
  induction m with
  | zero => simp
  | succ m ih =>
    have hround : ∀ j ∈ Finset.range dirs.length,
        unit c dirs[(dirs.length * m + j) % dirs.length]? = unit c dirs[j]? := by
      intro j hj
      rw [Nat.mul_add_mod, Nat.mod_eq_of_lt (Finset.mem_range.mp hj)]
    rw [Nat.mul_succ, Finset.sum_range_add, ih, Finset.sum_congr rfl hround, sum_unit]
    push_cast
    ring

theorem total_gasTry_le (h : Inv k c st) (dirs : List Dir) (tries : ℕ) :
    (gasTry k c dirs st tries).total ≤ st.total := by
  have htotal := h.total_le
  unfold gasTry
  cases dirs[tries % dirs.length]? with
  | none => exact le_rfl
  | some dir =>
    dsimp only
    split_ifs with hroom
    · show s16 _ ≤ _
      rw [s16_eq (by omega) (by omega)]
      omega
    · exact le_rfl

/-- How often the direction at `j` had its turn in `n` tries. -/
def turns (len n j : ℕ) : ℕ := (n + (len - 1 - j)) / len

theorem turns_mono (len n j : ℕ) : turns len n j ≤ turns len (n + 1) j :=
  Nat.div_le_div_right (by omega)

theorem turns_self {len : ℕ} (hlen : 0 < len) (n : ℕ) : turns len n (n % len) = n / len := by
  have hdiv := Nat.div_add_mod n len
  have hlt := Nat.mod_lt n hlen
  have heq : n + (len - 1 - n % len) = len - 1 + len * (n / len) := by omega
  unfold turns
  rw [heq, Nat.add_mul_div_left _ _ hlen, Nat.div_eq_of_lt (by omega), Nat.zero_add]

theorem turns_succ_self {len : ℕ} (hlen : 0 < len) (n : ℕ) :
    turns len (n + 1) (n % len) = n / len + 1 := by
  have hdiv := Nat.div_add_mod n len
  have hlt := Nat.mod_lt n hlen
  have heq : n + 1 + (len - 1 - n % len) = len * (n / len + 1) := by
    rw [Nat.mul_add, Nat.mul_one]
    omega
  unfold turns
  rw [heq, Nat.mul_div_cancel_left _ hlen]

/-- After some tries: something was taken in each turn of a liquid direction while there was
something left, and the directions are filled evenly. -/
structure Tried (k : Kind) (c : Cell) (dirs : List Dir) (st : Levels) (b n : ℕ) (st' : Levels) :
    Prop where
  inv : Inv k c st'
  total : st'.total =
    max (st.total - ∑ m ∈ Finset.range n, unit c dirs[m % dirs.length]?) 0
  want : ∀ (j : ℕ) (hj : j < dirs.length), st'.want dirs[j] ≤ b + turns dirs.length n j

theorem tried_succ (hk : k.Proper) (hnodup : dirs.Nodup) {b n : ℕ} {st' : Levels}
    (h : Tried k c dirs st b n st') (hn : n < dirs.length * (k.level_max.toNat - b)) :
    Tried k c dirs st b (n + 1) (gasTry k c dirs st' n) := by
  have hmax := k.le_bound
  have hlen : 0 < dirs.length := by
    rw [Nat.pos_iff_ne_zero]
    intro hzero
    rw [hzero, Nat.zero_mul] at hn
    cases hn
  have hi : n % dirs.length < dirs.length := Nat.mod_lt n hlen
  have hget : dirs[n % dirs.length]? = some dirs[n % dirs.length] := List.getElem?_eq_getElem hi
  have hsame : ∀ (j : ℕ) (hj : j < dirs.length), st'.want dirs[j] ≤
      b + turns dirs.length (n + 1) j := by
    intro j hj
    have hwant := h.want j hj
    have hmono := turns_mono dirs.length n j
    omega
  have htotal := h.total
  have hunit := unit_nonneg c dirs[n % dirs.length]?
  have hstay : st'.total ≤ 0 ∨ unit c dirs[n % dirs.length]? = 0 →
      Tried k c dirs st b (n + 1) st' := by
    intro hcase
    refine ⟨h.inv, ?_, hsame⟩
    rw [Finset.sum_range_succ]
    omega
  by_cases hsome : 0 < st'.total
  · by_cases hl : (c.neighbors dirs[n % dirs.length]).liquid = true
    · have hquot : n / dirs.length < k.level_max.toNat - b := Nat.div_lt_of_lt_mul hn
      have hwant := h.want _ hi
      have hturn := turns_succ_self hlen n
      rw [turns_self hlen] at hwant
      generalize n / dirs.length = q at hquot hwant hturn
      have hone : unit c dirs[n % dirs.length]? = 1 := by simp [unit, hget, hl]
      have htry : gasTry k c dirs st' n = st'.inc dirs[n % dirs.length] := by
        unfold gasTry
        rw [hget]
        dsimp only
        rw [if_pos ⟨hsome, hl, by omega⟩]
      have hle := h.inv.total_le
      have hbound := hk.bound_le
      have hlow := h.inv.low dirs[n % dirs.length]
      rw [htry]
      refine ⟨inv_inc hk h.inv hl (by omega) hsome, ?_, fun j hj => ?_⟩
      · show s16 _ = _
        rw [s16_eq (by omega) (by omega), Finset.sum_range_succ, hone]
        omega
      · by_cases hji : j = n % dirs.length
        · subst hji
          show Function.update st'.want _ _ _ ≤ _
          rw [Function.update_self, s8_eq (by omega) (by omega), hturn]
          omega
        · have hne : dirs[j] ≠ dirs[n % dirs.length] := fun heq =>
            hji ((List.Nodup.getElem_inj_iff hnodup).mp heq)
          show Function.update st'.want _ _ _ ≤ _
          rw [Function.update_of_ne hne]
          exact hsame j hj
    · have htry : gasTry k c dirs st' n = st' := by
        unfold gasTry
        rw [hget]
        dsimp only
        rw [if_neg fun hroom => hl hroom.2.1]
      rw [htry]
      exact hstay (.inr (by simp [unit, hget, hl]))
  · rw [gasTry_of_empty (by omega)]
    exact hstay (.inl (by omega))

theorem tried_run (hk : k.Proper) (h : Inv k c st) (hnodup : dirs.Nodup) {b : ℕ}
    (hwant : ∀ d ∈ dirs, st.want d ≤ b) {n : ℕ} (hn : n ≤ dirs.length * (k.level_max.toNat - b)) :
    Tried k c dirs st b n ((List.range n).foldl (gasTry k c dirs) st) := by
  induction n with
  | zero =>
    have htotal := h.total_nonneg
    refine ⟨h, by simp [htotal], fun j hj => ?_⟩
    have hle := hwant dirs[j] (List.getElem_mem hj)
    show st.want dirs[j] ≤ _
    omega
  | succ n ih =>
    rw [List.range_succ, List.foldl_append, List.foldl_cons, List.foldl_nil]
    exact tried_succ hk hnodup (ih (by omega)) (by omega)

/-- After all tries nothing is left, or what the directions do not hold. -/
theorem total_gasTries_le (hk : k.Proper) (h : Inv k c st) (hnodup : dirs.Nodup) {b : ℕ}
    (hb : b ≤ k.level_max.toNat) (hwant : ∀ d ∈ dirs, st.want d ≤ b) :
    (st.gasTries k c dirs).total ≤
      max (st.total - (k.level_max.toNat - b : ℕ) * (liquidCount c dirs : ℤ)) 0 := by
  have htried := tried_run hk h hnodup hwant (le_refl (dirs.length * (k.level_max.toNat - b)))
  have htotal := htried.total
  rw [sum_rounds] at htotal
  have hrounds : dirs.length * k.level_max.toNat =
      dirs.length * (k.level_max.toNat - b) + dirs.length * b := by
    rw [← Nat.mul_add, Nat.sub_add_cancel hb]
  unfold gasTries
  rw [hrounds, List.range_add, List.foldl_append, ← htotal]
  -- the tries after those only take more
  have hmore : ∀ (ts : List ℕ) (st' : Levels), Inv k c st' →
      (ts.foldl (gasTry k c dirs) st').total ≤ st'.total := by
    intro ts
    induction ts with
    | nil => exact fun _ _ => le_rfl
    | cons n ts ih =>
      intro st' hinv
      exact (ih _ (inv_gasTry hk hinv dirs n)).trans (total_gasTry_le hinv dirs n)
  exact hmore _ _ htried.inv

/-! ### Where a gas goes -/

theorem mem_of_mem_foldl {ds : List Dir} (h : i ∈ ds.foldl (addGasDir c) dirs) :
    i ∈ ds ∨ i ∈ dirs := by
  induction ds generalizing dirs with
  | nil => exact .inr h
  | cons d ds ih =>
    rw [List.foldl_cons] at h
    rcases ih h with hi | hi
    · exact .inl (List.mem_cons_of_mem d hi)
    · rcases mem_addGasDir.mp hi with hi | ⟨rfl, -⟩
      · exact .inr hi
      · exact .inl List.mem_cons_self

theorem mem_addWindDir (s : Setting) (h : i ∈ dirs) : i ∈ addWindDir s c dirs := by
  unfold addWindDir
  cases s.wind with
  | none => exact h
  | some dir => exact mem_addGasDir.mpr (.inl h)

theorem mem_of_mem_addWindDir (h : i ∈ addWindDir s c dirs) : i ∈ sameDirs ∨ i ∈ dirs := by
  have hbeside : ∀ d ∈ [D_RIGHT, D_LEFT, D_BACK, D_FRONT], d ∈ sameDirs := by decide
  unfold addWindDir at h
  cases hwind : s.wind with
  | none =>
    rw [hwind] at h
    exact .inr h
  | some dir =>
    rw [hwind] at h
    rcases mem_addGasDir.mp h with hi | ⟨rfl, -⟩
    · exact .inr hi
    · exact .inl (hbeside _ (s.wind_mem _ hwind))

/-- Each liquid node is one of the directions, or one of those that get the excess. -/
theorem mem_gasDirs_or (s : Setting) (k : Kind) (hl : (c.neighbors i).liquid = true) :
    i ∈ gasDirs s k c ∨ i ∈ fallbackDirs s k := by
  have hall : ∀ i : Dir, i ∈ allDirs := by decide
  have hplaces : ∀ i : Dir, i ∈ sameDirs ∨ i = D_TOP ∨ i = D_BOTTOM := by decide
  unfold gasDirs
  cases hfloat : k.float_height with
  | none =>
    left
    simp only [Option.isNone_none, if_true]
    exact mem_foldl_addGasDir allDirs (.inl (hall i)) hl
  | some h =>
    simp only [Option.isNone_some, Bool.false_eq_true, if_false]
    have hfirst : i ∈ floatDirs s k c → i ∈ (sameDirs.map (randomDir s 1)).foldl (addGasDir c)
        (addWindDir s c (floatDirs s k c)) := fun hi =>
      mem_foldl_addGasDir _ (.inr (mem_addWindDir s hi)) hl
    rcases hplaces i with hsame | rfl | rfl
    · exact .inl (mem_foldl_addGasDir _ (.inl (exists_randomDir s 1 hsame)) hl)
    · by_cases hy : s.y < h
      · refine .inl (hfirst ?_)
        simp [floatDirs, hfloat, hy, hy.ne, mem_addGasDir, hl]
      · right
        simp only [fallbackDirs, hfloat, if_neg hy]
        split_ifs <;> simp
    · by_cases hy : h < s.y
      · refine .inl (hfirst ?_)
        simp [floatDirs, hfloat, hy.ne', hy.not_gt, mem_addGasDir, hl]
      · right
        simp only [fallbackDirs, hfloat, if_neg hy]
        split_ifs <;> simp

/-- Those that get the excess got nothing before. -/
theorem notMem_gasDirs (h : i ∈ fallbackDirs s k) : i ∉ gasDirs s k c := by
  have hsame : D_TOP ∉ sameDirs ∧ D_BOTTOM ∉ sameDirs := by decide
  have hne : D_TOP ≠ D_BOTTOM := by decide
  cases hfloat : k.float_height with
  | none =>
    rw [fallbackDirs, hfloat] at h
    cases h
  | some height =>
    have hplace : i = D_TOP ∧ height ≤ s.y ∨ i = D_BOTTOM ∧ s.y ≤ height := by
      simp only [fallbackDirs, hfloat] at h
      split_ifs at h with hlow hhigh hodd
      · exact .inr ⟨List.mem_singleton.mp h, hlow.le⟩
      · exact .inl ⟨List.mem_singleton.mp h, hhigh.le⟩
      all_goals
        have heq : height = s.y := by omega
        subst heq
        simpa [or_comm] using h
    intro hi
    unfold gasDirs at hi
    simp only [hfloat, Option.isNone_some, Bool.false_eq_true, if_false] at hi
    have hfloatDirs : i ∈ sameDirs ∨ i ∈ floatDirs s k c := by
      rcases mem_of_mem_foldl hi with hi | hi
      · obtain ⟨ir, hir, rfl⟩ := List.mem_map.mp hi
        exact .inl (randomDir_mem s 1 hir)
      · exact mem_of_mem_addWindDir hi
    rcases hfloatDirs with hi | hi
    · rcases hplace with ⟨rfl, -⟩ | ⟨rfl, -⟩
      · exact hsame.1 hi
      · exact hsame.2 hi
    · simp only [floatDirs, hfloat] at hi
      split_ifs at hi with hy hlow
      · rcases mem_addGasDir.mp hi with hi | ⟨rfl, -⟩
        · cases hi
        · rcases hplace with ⟨-, hle⟩ | ⟨heq, -⟩
          · omega
          · exact hne heq
      · rcases mem_addGasDir.mp hi with hi | ⟨rfl, -⟩
        · cases hi
        · rcases hplace with ⟨heq, -⟩ | ⟨-, hle⟩
          · exact hne heq.symm
          · omega
      · cases hi

theorem nodup_fallbackDirs (s : Setting) (k : Kind) : (fallbackDirs s k).Nodup := by
  unfold fallbackDirs
  cases k.float_height with
  | none => exact List.nodup_nil
  | some h =>
    dsimp only
    split_ifs <;> decide

theorem liquidCount_of_good (h : GoodDirs c dirs) : liquidCount c dirs = dirs.length :=
  List.countP_eq_length.mpr fun d hd => by simpa using h.liquid d hd

/-- No more nodes take part than there are directions for them. -/
theorem can_le_dirs (hc : c.Sound nodes) (s : Setting) (k : Kind) :
    c.can_liquid ≤ (gasDirs s k c).length + (liquidCount c (fallbackDirs s k) : ℤ) := by
  have hcard : c.can_liquid ≤
      ((Finset.univ.filter fun i => (c.neighbors i).liquid = true).card : ℤ) := by
    rw [hc.can, Finset.card_filter]
    push_cast
    refine Finset.sum_le_sum fun i _ => ?_
    rcases (hc.seen i).wanted with hw | hw
    · rw [hw, if_pos ((hc.seen i).liquid hw)]
      decide
    · rw [hw]
      split_ifs <;> decide
  have hsub : (Finset.univ.filter fun i => (c.neighbors i).liquid = true) ⊆
      (gasDirs s k c).toFinset ∪
        ((fallbackDirs s k).filter fun d => (c.neighbors d).liquid).toFinset := by
    intro i hi
    have hl := (Finset.mem_filter.mp hi).2
    rw [Finset.mem_union, List.mem_toFinset, List.mem_toFinset, List.mem_filter]
    exact (mem_gasDirs_or s k hl).imp_right fun h => ⟨h, hl⟩
  have hunion := (Finset.card_le_card hsub).trans (Finset.card_union_le _ _)
  have hfirst := (gasDirs s k c).toFinset_card_le
  have hsecond := ((fallbackDirs s k).filter fun d => (c.neighbors d).liquid).toFinset_card_le
  have hcount : liquidCount c (fallbackDirs s k) =
      ((fallbackDirs s k).filter fun d => (c.neighbors d).liquid).length :=
    List.countP_eq_length_filter
  omega

/-! ### What a gas leaves -/

structure Shared (k : Kind) (c : Cell) (dirs : List Dir) (st : Levels) (base : ℕ) (st' : Levels) :
    Prop where
  inv : Inv k c st'
  base_le : base ≤ k.level_max.toNat
  want : ∀ d ∈ dirs, st'.want d ≤ base
  other : ∀ d ∉ dirs, st'.want d = st.want d
  total : st'.total = st.total - base * dirs.length
  sum : st'.total + st'.sumWant = st.total + st.sumWant

theorem shared_gasBase (hk : k.Proper) (h : Inv k c st) (hgood : GoodDirs c dirs)
    (hnil : dirs ≠ []) (hzero : ∀ d ∈ dirs, st.want d ≤ 0) :
    ∃ base, Shared k c dirs st base (st.gasBase k dirs) := by
  have hmax := k.le_bound
  have hinv := inv_gasBase hk h hnil hgood.liquid
  obtain ⟨heq, hpos, hmul⟩ := gasBase_share h hnil
  have hle := min_le_left k.level_max (st.total / dirs.length)
  have hshare : min k.level_max (st.total / dirs.length) * (dirs.length : ℤ) ≤
      st.total / dirs.length * dirs.length :=
    mul_le_mul_of_nonneg_right (min_le_right _ _) (Int.natCast_nonneg _)
  unfold gasBase at hinv ⊢
  dsimp only at hinv ⊢
  rw [heq] at hinv ⊢
  split_ifs at hinv ⊢ with hsome
  · obtain ⟨htotal, hsum, hin, hout⟩ := sumWant_foldl_put hk h hsome.le (hle.trans hmax) hgood hzero
      (by omega)
    have hcast : ((min k.level_max (st.total / dirs.length)).toNat : ℤ) =
        min k.level_max (st.total / dirs.length) := Int.toNat_of_nonneg hsome.le
    refine ⟨(min k.level_max (st.total / dirs.length)).toNat, hinv, by omega, fun d hd => ?_, hout,
      ?_, by omega⟩
    · rw [hin d hd, hcast]
    · rw [hcast]
      exact htotal
  · refine ⟨0, hinv, by omega, fun d hd => ?_, fun _ _ => rfl, by simp, rfl⟩
    simpa using hzero d hd

theorem want_gasTry (hi : i ∉ dirs) (tries : ℕ) :
    (gasTry k c dirs st tries).want i = st.want i := by
  unfold gasTry
  cases hdir : dirs[tries % dirs.length]? with
  | none => rfl
  | some dir =>
    have hne : i ≠ dir := fun heq => hi (heq ▸ List.mem_of_getElem? hdir)
    dsimp only
    split_ifs
    · exact Function.update_of_ne hne _ _
    · rfl

theorem want_gasTries (hi : i ∉ dirs) : (st.gasTries k c dirs).want i = st.want i := by
  unfold gasTries
  refine List.foldlRecOn (motive := fun st' : Levels => st'.want i = st.want i) _ _ rfl
    fun st' h n _ => ?_
  rw [want_gasTry hi]
  exact h

theorem wanted_start (hc : c.Sound nodes) (i : Dir) : c.start.want i ≤ 0 := by
  show c.liquid_levels_want i ≤ 0
  rcases (hc.seen i).wanted with h | h
  all_goals omega

theorem gasDirs_ne_nil (hself : (c.neighbors D_SELF).liquid = true) : gasDirs s k c ≠ [] := by
  intro hnil
  have hsame : D_SELF ∉ fallbackDirs s k := by
    unfold fallbackDirs
    cases k.float_height with
    | none => simp
    | some h =>
      dsimp only
      split_ifs <;> decide
  rcases mem_gasDirs_or s k hself with h | h
  · rw [hnil] at h
    cases h
  · exact hsame h

/-- Of a gas whose levels are at most the maximum nothing is left. -/
theorem total_fillGas (hr : Ready nodes k c) (h : AtMost c k.level_max) :
    (c.start.fillGas s k c).total = 0 := by
  have hstart := inv_start hr.proper hr.sound
  have hgood := good_gasDirs s k c
  have hnil := gasDirs_ne_nil (s := s) (k := k) hr.self
  have hnonneg := hr.proper.nonneg
  have hplaces : c.total_level ≤ k.level_max * ((gasDirs s k c).length : ℤ) +
      k.level_max * (liquidCount c (fallbackDirs s k) : ℤ) := by
    have hcan := mul_le_mul_of_nonneg_right (can_le_dirs hr.sound s k) hnonneg
    have hle := total_le_can hr.sound hnonneg h
    rw [← mul_add, mul_comm]
    omega
  obtain ⟨base, hshared⟩ := shared_gasBase hr.proper hstart hgood hnil
    fun d _ => wanted_start hr.sound d
  have hinv := inv_gasTries hr.proper hshared.inv (gasDirs s k c)
  -- what the directions do not hold
  have hleft := total_gasTries_le hr.proper hshared.inv hgood.nodup hshared.base_le hshared.want
  rw [liquidCount_of_good hgood, hshared.total, Nat.cast_sub hshared.base_le,
    Int.toNat_of_nonneg hnonneg, sub_mul] at hleft
  have htotal : c.start.total = c.total_level := rfl
  have hfinal := inv_fillGas (s := s) hr.proper hstart
  unfold fillGas at hfinal ⊢
  rw [if_neg hnil] at hfinal ⊢
  dsimp only at hfinal ⊢
  have hpos := hinv.total_nonneg
  split_ifs at hfinal ⊢ with hmore
  · have hempty : ∀ d ∈ fallbackDirs s k, ((c.start.gasBase k (gasDirs s k c)).gasTries k c
        (gasDirs s k c)).want d ≤ (0 : ℕ) := by
      intro d hd
      rw [want_gasTries (notMem_gasDirs hd), hshared.other d (notMem_gasDirs hd)]
      exact wanted_start hr.sound d
    have hrest := total_gasTries_le hr.proper hinv (nodup_fallbackDirs s k) (Nat.zero_le _) hempty
    rw [Nat.sub_zero, Int.toNat_of_nonneg hnonneg] at hrest
    have := hfinal.total_nonneg
    omega
  · by_cases hsome : 0 < ((c.start.gasBase k (gasDirs s k c)).gasTries k c (gasDirs s k c)).total
    · have hnone : k.float_height = none := by
        cases hfloat : k.float_height with
        | none => rfl
        | some height => exact absurd ⟨by rw [hfloat]; rfl, hsome⟩ hmore
      have hzero : liquidCount c (fallbackDirs s k) = 0 := by
        rw [fallbackDirs, hnone]
        rfl
      rw [hzero, Nat.cast_zero, mul_zero, add_zero] at hplaces
      omega
    · omega

/-! ### The sum of a gas -/

/-- Nothing special about the nodes of a gas: none is infinite or stable. -/
structure PlainGas (k : Kind) (c : Cell) : Prop where
  gas : k.gas = true
  infinity : ∀ i, (c.neighbors i).infinity = false
  stable : ∀ i, (c.neighbors i).liquid = true → c.liquid_levels_want i = 0

/-- Where all that is liquid takes part, a gas that is placed was left before. -/
theorem sumWant_gasTry (hk : k.Proper)
    (hall : ∀ i, (c.neighbors i).liquid = true → c.liquid_levels_want i = 0) (h : Inv k c st)
    (dirs : List Dir) (tries : ℕ) :
    (gasTry k c dirs st tries).total + (gasTry k c dirs st tries).sumWant =
      st.total + st.sumWant := by
  have hmax := k.le_bound
  unfold gasTry
  cases dirs[tries % dirs.length]? with
  | none => rfl
  | some dir =>
    dsimp only
    split_ifs with hroom
    · exact sumWant_inc hk h (h.counted dir (hall dir hroom.2.1)) (by omega) hroom.1
    · rfl

theorem sumWant_gasTries (hk : k.Proper)
    (hall : ∀ i, (c.neighbors i).liquid = true → c.liquid_levels_want i = 0) (h : Inv k c st)
    (dirs : List Dir) :
    (st.gasTries k c dirs).total + (st.gasTries k c dirs).sumWant = st.total + st.sumWant := by
  have hrun : ∀ (ts : List ℕ) (st' : Levels), Inv k c st' →
      (ts.foldl (gasTry k c dirs) st').total + (ts.foldl (gasTry k c dirs) st').sumWant =
        st'.total + st'.sumWant := by
    intro ts
    induction ts with
    | nil => exact fun _ _ => rfl
    | cons n ts ih =>
      intro st' hinv
      exact (ih _ (inv_gasTry hk hinv dirs n)).trans (sumWant_gasTry hk hall hinv dirs n)
  exact hrun _ st h

theorem sumWant_start (hc : c.Sound nodes) : c.start.sumWant = 0 :=
  Finset.sum_eq_zero fun i _ => max_eq_right (wanted_start hc i)

theorem sumWant_fillGas (hr : Ready nodes k c)
    (hall : ∀ i, (c.neighbors i).liquid = true → c.liquid_levels_want i = 0) :
    (c.start.fillGas s k c).total + (c.start.fillGas s k c).sumWant = c.total_level := by
  have hstart := inv_start hr.proper hr.sound
  have hnil := gasDirs_ne_nil (s := s) (k := k) hr.self
  obtain ⟨base, hshared⟩ := shared_gasBase hr.proper hstart (good_gasDirs s k c) hnil
    fun d _ => wanted_start hr.sound d
  have hinv := inv_gasTries hr.proper hshared.inv (gasDirs s k c)
  have hfirst := sumWant_gasTries hr.proper hall hshared.inv (gasDirs s k c)
  rw [hshared.sum, sumWant_start hr.sound, add_zero] at hfirst
  unfold fillGas
  rw [if_neg hnil]
  dsimp only
  split_ifs
  · exact (sumWant_gasTries hr.proper hall hinv _).trans hfirst
  · exact hfirst

theorem rest_of_empty (h : st.total ≤ 0) (i : Dir) : st.rest k c i = st := by
  unfold rest
  rw [if_neg fun hroom => by omega]

theorem flood_of_gas (hg : PlainGas k c) (st : Levels) : st.flood s k c = st := by
  unfold flood
  refine List.foldlRecOn (motive := fun x => x = st) _ _ rfl fun x hx i _ => ?_
  unfold floodStep
  rw [hg.infinity, hg.gas, if_neg (by simp), if_neg (by simp)]
  exact hx

/-- A gas whose levels are at most the maximum is wanted as much as there was of it. -/
theorem sumWant_plain (hr : Ready nodes k c) (hg : PlainGas k c) (h : AtMost c k.level_max) :
    (runPhases (phases s k c) c.start).sumWant = c.total_level := by
  have hzero := total_fillGas (s := s) hr h
  have hsum := sumWant_fillGas (s := s) hr hg.stable
  unfold phases runPhases
  rw [if_pos hg.gas]
  simp only [List.singleton_append, List.foldl_cons, List.foldl_nil]
  rw [rest_of_empty hzero.le, rest_of_empty hzero.le, flood_of_gas hg]
  omega

/-! ### What a liquid leaves -/

theorem full_fillSameStep (hk : k.Proper) (h : st.want_level = k.level_max) (ir : Dir) :
    (fillSameStep s k c st ir).total = st.total ∧
      (fillSameStep s k c st ir).want_level = k.level_max := by
  have hbound := hk.bound_le
  have hnonneg := hk.nonneg
  have hmax := k.le_bound
  unfold fillSameStep
  dsimp only
  have hset : ¬(Function.update st.want (randomDir s 1 ir) (s8 st.want_level) (randomDir s 1 ir) <
      k.level_max ∧ 0 < st.total) := by
    rw [Function.update_self, h, s8_eq (by omega) (by omega)]
    exact fun hroom => lt_irrefl _ hroom.1
  rw [if_neg hset]
  split_ifs
  · exact ⟨rfl, h⟩
  · exact ⟨rfl, h⟩

/-- Where all get the maximum, nothing more is taken from the total. -/
theorem full_fillSame (hk : k.Proper) (h : st.want_level = k.level_max) :
    (st.fillSame s k c).total = st.total :=
  (List.foldlRecOn
    (motive := fun st' : Levels => st'.total = st.total ∧ st'.want_level = k.level_max) sameDirs _
    ⟨rfl, h⟩ fun _ hst ir _ =>
      ⟨(full_fillSameStep hk hst.2 ir).1.trans hst.1, (full_fillSameStep hk hst.2 ir).2⟩).1

theorem total_fillRest_le (hk : k.Proper) (h : Open k c st) :
    (st.fillRest s k).total ≤ st.total := by
  have hstep : ∀ st' : Levels, Open k c st' → ∀ ir,
      (fillRestStep s k st' ir).total ≤ st'.total := by
    intro st' hst ir
    have hle := hst.inv.total_le
    unfold fillRestStep
    dsimp only
    split_ifs with hempty hroom
    · exact le_rfl
    · show s16 _ ≤ _
      rw [s16_eq (by omega) (by omega)]
      omega
    · exact le_rfl
  exact (List.foldlRecOn (motive := fun st' : Levels => Open k c st' ∧ st'.total ≤ st.total)
    sameDirs _ ⟨h, le_rfl⟩ fun st' hst ir hir =>
      ⟨open_fillRestStep hk hst.1 hir, (hstep st' hst.1 ir).trans hst.2⟩).2

/-- Too little for one more on each place is given away. -/
theorem total_fillRest_of_odd (hc : c.Sound nodes) (hk : k.Proper) (h : Inv k c st)
    (hroom : st.want_level < k.level_max) (hless : st.total < c.can_liquid_same_level) :
    ((st.fillSame s k c).fillRest s k).total ≤ 0 := by
  unfold fillRest
  have hempty : Filled k c ∅ st.total st :=
    ⟨h, hroom, fun _ hi => absurd hi (Finset.notMem_empty _), add_zero _⟩
  have hsame : Filled k c (sameDirs.map (randomDir s 1)).toFinset st.total
      (st.fillSame s k c) := by
    have hfold := filled_foldl (s := s) hk hempty (nodup_randomDir s 1) fun _ _ =>
      Finset.notMem_empty _
    rwa [Finset.union_empty] at hfold
  have hin : ∀ i ∈ sameDirs, i ∈ (sameDirs.map (randomDir s 1)).toFinset := fun i hi =>
    List.mem_toFinset.mpr (exists_randomDir s 1 hi)
  have hdirs : ∀ ir ∈ sameDirs, (c.neighbors (randomDir s 2 ir)).liquid = true →
      randomDir s 2 ir ∈ (sameDirs.map (randomDir s 1)).toFinset :=
    fun ir hir _ => hin _ (randomDir_mem s 2 hir)
  obtain ⟨hrest, hlevel, -, -, hturn⟩ := filled_fillRest hk hsame hdirs
  by_contra hleft
  -- otherwise each place got one more, but there are not so many
  have hmore : ((sameLiquid c).card : ℤ) ≤ odd c (sameDirs.map (randomDir s 1)).toFinset
      (sameDirs.foldl (fillRestStep s k) (st.fillSame s k c)) := by
    have hsub : sameLiquid c ⊆ (sameDirs.map (randomDir s 1)).toFinset.filter fun i =>
        (c.neighbors i).liquid = true := by
      intro i hi
      obtain ⟨-, hdir, hl⟩ := Finset.mem_filter.mp hi
      exact Finset.mem_filter.mpr ⟨hin i (List.contains_iff_mem.mp hdir), hl⟩
    refine (Int.ofNat_le.mpr (Finset.card_le_card hsub)).trans ?_
    rw [Finset.card_filter]
    push_cast
    refine Finset.sum_le_sum fun i hi => ?_
    split_ifs with hl
    · obtain ⟨ir, hir, rfl⟩ : ∃ ir ∈ sameDirs, randomDir s 2 ir = i := by
        obtain ⟨ir, hir, rfl⟩ := List.mem_map.mp (List.mem_toFinset.mp hi)
        exact List.mem_map.mp (exists_randomDir s 2 (randomDir_mem s 1 hir))
      have hgot := hturn (by omega) ir hir hl
      rw [← hlevel] at hgot
      show 1 ≤ (sameDirs.foldl (fillRestStep s k) (st.fillSame s k c)).want _ -
        (sameDirs.foldl (fillRestStep s k) (st.fillSame s k c)).want_level
      exact Int.le_sub_right_of_add_le (by omega)
    · exact le_rfl
  have hcard := same_le_card hc
  have hsum := hrest.sum
  omega

/-- After the same level is filled, only what the place above holds is left. -/
theorem left_fillRest (hr : Ready nodes k c) (h : Open k c st) (hsplit : Split k c st) :
    ((st.fillSame s k c).fillRest s k).total ≤ k.level_max * (1 + c.liquid_levels_want D_TOP) := by
  rcases hsplit with ⟨hfull, hleft⟩ | ⟨hroom, hless⟩
  · have hrest := total_fillRest_le (s := s) hr.proper (open_fillSame (s := s) hr.proper h)
    rw [full_fillSame hr.proper hfull] at hrest
    omega
  · have hzero := total_fillRest_of_odd (s := s) hr.sound hr.proper h.inv hroom hless
    have htop : 0 ≤ k.level_max * (1 + c.liquid_levels_want D_TOP) :=
      mul_nonneg hr.proper.nonneg (hr.sound.one_add_want D_TOP).1
    omega

end Levels

/-! ## All parts -/

namespace Kind

def plain (k : Kind) : Kind := { k with level_max_compressed := k.level_max }

theorem bound_plain (k : Kind) : k.plain.bound = k.level_max := max_self _

theorem proper_plain (h : k.Proper) : k.plain.Proper :=
  ⟨h.nonneg, k.bound_plain.trans_le (k.le_bound.trans h.bound_le)⟩

end Kind

namespace Levels

theorem Inv.of_plain (h : Inv k.plain c st) : Inv k c st := by
  have hle : k.plain.bound ≤ k.bound := k.bound_plain.trans_le k.le_bound
  exact ⟨h.total_nonneg, h.total_le, h.want_level_nonneg, h.want_level_le.trans hle, h.counted,
    h.low, h.dry, fun i => (h.high i).trans hle⟩

/-- With levels that are at most the maximum it is as if the kind could not be compressed. -/
theorem ready_plain (hr : Ready nodes k c) (h : AtMost c k.level_max) :
    Ready nodes k.plain c where
  proper := Kind.proper_plain hr.proper
  sound := hr.sound
  levels := fun i => (h i).trans k.bound_plain.ge
  total := hr.total
  can := hr.can
  same := hr.same
  self := hr.self
  stable hgas havg := absurd havg (levelAvg_le (Kind.proper_plain hr.proper) hr.sound hr.can hgas h)

/-- The place above takes all that is left, if there is something. -/
theorem fillSecondary_cases (hr : Ready nodes k c) (h : Open k.plain c st)
    (hleft : st.total ≤ k.level_max * (1 + c.liquid_levels_want D_TOP)) :
    st.total = 0 ∧ st.fillSecondary s k c = st ∨
      0 < st.total ∧ st.total ≤ k.level_max ∧ c.liquid_levels_want D_TOP = 0 ∧
        st.fillSecondary s k c = st.put D_TOP st.total 0 := by
  have hbound := (Kind.proper_plain hr.proper).bound_le
  have hpos := h.inv.total_nonneg
  have hplain := k.bound_plain
  by_cases hsome : 0 < st.total
  · right
    have hcounted : c.liquid_levels_want D_TOP = 0 := by
      rcases (hr.sound.seen D_TOP).wanted with hw | hw
      · exact hw
      · rw [hw, show (1 : ℤ) + -1 = 0 by decide, mul_zero] at hleft
        omega
    rw [hcounted, add_zero, mul_one] at hleft
    have htop : ¬0 < st.want D_TOP := by
      have := h.top
      omega
    have hzero : ¬(0 < (st.put D_TOP st.total 0).total ∧ k.pressure ≠ 0) := fun hmore =>
      absurd hmore.1 (by
        show ¬(0 : ℤ) < s16 0
        decide)
    refine ⟨hsome, hleft, hcounted, ?_⟩
    unfold fillSecondary
    rw [if_pos ⟨(hr.sound.seen D_TOP).liquid hcounted, hsome⟩]
    dsimp only
    rw [if_neg htop, sub_zero, s16_eq (by omega) (by omega), min_eq_left hleft, zero_add, sub_self,
      if_neg hzero]
  · left
    refine ⟨by omega, ?_⟩
    unfold fillSecondary
    rw [if_neg fun hfill => hsome hfill.2]

theorem plain_fillSecondary (hr : Ready nodes k c) (h : Open k.plain c st)
    (hleft : st.total ≤ k.level_max * (1 + c.liquid_levels_want D_TOP)) :
    Inv k.plain c (st.fillSecondary s k c) ∧ (st.fillSecondary s k c).total = 0 := by
  have hplain := k.bound_plain
  have hpos := h.inv.total_nonneg
  rcases fillSecondary_cases (s := s) hr h hleft with ⟨hzero, heq⟩ | ⟨hsome, hle, hw, heq⟩
  · rw [heq]
    exact ⟨h.inv, hzero⟩
  · rw [heq]
    exact ⟨inv_put (Kind.proper_plain hr.proper) h.inv ((hr.sound.seen D_TOP).liquid hw) hpos
      (by omega) le_rfl (by decide), rfl⟩

theorem total_press (st : Levels) : (st.press k c).total = st.total := by
  unfold press
  split_ifs <;> rfl

/-- Only the place below gets more by pressure, where nowhere is more than the maximum. -/
theorem press_le (h : Inv k.plain c st) (hk : k.Proper) (hi : i ≠ D_BOTTOM) :
    (st.press k c).want i ≤ k.level_max := by
  have hhigh : ∀ j, st.want j ≤ k.level_max := fun j => (h.high j).trans k.bound_plain.le
  have hself := hhigh D_SELF
  have htop := hhigh D_TOP
  have hbound := (Kind.proper_plain hk).bound_le
  have hplain := k.bound_plain
  have hlow := h.low D_TOP
  unfold press
  split_ifs
  · show Function.update (Function.update st.want D_TOP (s8 _)) D_BOTTOM _ i ≤ _
    rw [Function.update_of_ne hi]
    by_cases htopi : i = D_TOP
    · rw [htopi, Function.update_self, s8_eq (by omega) (by omega)]
      omega
    · rw [Function.update_of_ne htopi]
      exact hhigh i
  · omega
  all_goals first
    | exact hhigh i
    | omega

/-- Nowhere but below is more than the maximum, and there the compressed maximum may be. -/
structure Sharp (k : Kind) (c : Cell) (st : Levels) : Prop where
  inv : Inv k c st
  high : ∀ i, i ≠ D_BOTTOM → st.want i ≤ k.level_max

theorem Inv.sharp (h : Inv k.plain c st) : Sharp k c st :=
  ⟨h.of_plain, fun i _ => (h.high i).trans k.bound_plain.le⟩

theorem sharp_floodStep (hr : Ready nodes k c) (hlevel : AtMost c k.level_max)
    (h : Sharp k c st) (j : Dir) : Sharp k c (floodStep s k c st j) := by
  have hbound := hr.proper.bound_le
  have hnonneg := hr.proper.nonneg
  have hmax := k.le_bound
  refine ⟨inv_floodStep hr h.inv j, fun i hi => ?_⟩
  have hset : ∀ w : ℤ, w ≤ k.level_max → Function.update st.want j w i ≤ k.level_max := by
    intro w hw
    by_cases hij : i = j
    · rw [hij, Function.update_self]
      exact hw
    · rw [Function.update_of_ne hij]
      exact h.high i hi
  unfold floodStep
  split_ifs
  · exact hset _ (hlevel j)
  · exact hset _ (s8_eq (by omega) (by omega)).le
  · exact h.high i hi

theorem sharp_flood (hr : Ready nodes k c) (hlevel : AtMost c k.level_max) (h : Sharp k c st) :
    Sharp k c (st.flood s k c) :=
  List.foldlRecOn allDirs _ h fun _ h j _ => sharp_floodStep hr hlevel h j

/-- Levels that are at most the maximum stay so, but below. -/
theorem sharp_phases (hr : Ready nodes k c) (hlevel : AtMost c k.level_max) :
    Along (Sharp k c) (phases s k c) c.start := by
  have hr' := ready_plain hr hlevel
  have hk' := hr'.proper
  have hstart := inv_start hk' hr.sound
  unfold phases
  cases hgas : k.gas with
  | true =>
    have hfill : Inv k.plain c (c.start.fillGas s k c) := inv_fillGas (s := s) hk' hstart
    have hzero := total_fillGas (s := s) hr hlevel
    simp only [if_true, List.singleton_append, Along]
    rw [rest_of_empty hzero.le, rest_of_empty hzero.le]
    exact ⟨hstart.sharp, hfill.sharp, hfill.sharp, hfill.sharp,
      sharp_flood hr hlevel hfill.sharp⟩
  | false =>
    have hgas' : k.plain.gas = false := hgas
    have hlevel' : AtMost c k.plain.level_max := hlevel
    have hprimary := early_fillPrimary (s := s) hr' hgas'
    have hup := early_relaxUp hr' hprimary
    have habove := settled_aboveUnloaded hr' hgas' hup
    have hself := open_selfLevel hr' hgas' habove
    have hdown := open_relaxDown (s := s) hself
    have hsame := open_fillSame (s := s) hk' hdown
    have hrest := open_fillRest (s := s) hk' hsame
    have hholds := holds_aboveUnloaded (s := s) hup.inv (holds_relaxUp (s := s) hr'
      (holds_fillPrimary hr' hgas' hlevel'))
    have hsplit := split_relaxDown (s := s) hr'
      (split_selfLevel hr' hgas' hlevel' habove.inv hholds)
    obtain ⟨hsecondary, hzero⟩ := plain_fillSecondary (s := s) hr hrest
      (left_fillRest hr' hdown hsplit)
    have hpress : Sharp k c (press k c (fillSecondary s k c (fillRest s k (fillSame s k c
        (relaxDown s k c (selfLevel k c (aboveUnloaded s k c (relaxUp s k c
          (fillPrimary k c c.start))))))))) :=
      ⟨inv_press hr hsecondary.of_plain, fun i hi => press_le hsecondary hr.proper hi⟩
    have hempty : (press k c (fillSecondary s k c (fillRest s k (fillSame s k c
        (relaxDown s k c (selfLevel k c (aboveUnloaded s k c (relaxUp s k c
          (fillPrimary k c c.start))))))))).total = 0 := (total_press _).trans hzero
    simp only [Bool.false_eq_true, if_false, List.cons_append, List.nil_append, Along]
    rw [rest_of_empty hempty.le, rest_of_empty hempty.le]
    exact ⟨hstart.sharp, hprimary.inv.sharp, hup.inv.sharp, habove.inv.sharp, hself.inv.sharp,
      hdown.inv.sharp, hsame.inv.sharp, hrest.inv.sharp, hsecondary.sharp, hpress, hpress, hpress,
      sharp_flood hr hlevel hpress⟩

end Levels

/-! ## The range -/

/-- What is left is not negative, nor is what is wanted anywhere (-1 is what is wanted of a node
that takes no part), and of no place more is wanted than `most`. -/
structure InRange (c : Cell) (most : Dir → ℤ) (st : Levels) : Prop where
  total : 0 ≤ st.total
  wanted : ∀ i, 0 ≤ st.want i ∨ st.want i = -1 ∧ c.liquid_levels_want i = -1
  dry : ∀ i, (c.neighbors i).liquid = false → st.want i = -1
  most : ∀ i, st.want i ≤ most i

/-- At most the maximum, and `below` in the place below. -/
def Kind.most (k : Kind) (below : ℤ) (i : Dir) : ℤ := if i = D_BOTTOM then below else k.level_max

theorem Levels.Inv.inRange (hc : c.Sound nodes) (h : Levels.Inv k c st) {most : Dir → ℤ}
    (hmost : ∀ i, st.want i ≤ most i) : InRange c most st := by
  refine ⟨h.total_nonneg, fun i => ?_, h.dry, hmost⟩
  have hlow := h.low i
  rcases (hc.seen i).wanted with hw | hw
  · exact .inl (h.counted i hw)
  · by_cases hneg : 0 ≤ st.want i
    · exact .inl hneg
    · exact .inr ⟨by omega, hw⟩

variable {ndef : Content → ContentFeatures} {meltLevel : UInt8 → UInt8 → UInt8 → ℤ}
  {settable : Bool} {loopcount : ℕ}

theorem ready_kindOf (hc : collect ndef meltLevel settable loopcount nodes = some c)
    (hskip : skips c = false) (hleveled : (ndef c.liquid_kind_flowing).leveled ≤ 127)
    (hlevel : Levels.AtMost c (kindOf ndef s c).bound)
    (hstable : (kindOf ndef s c).gas = false →
      (kindOf ndef s c).level_max < levelAvg (kindOf ndef s c) c →
        (nodes D_BOTTOM).param2 &&& LIQUID_STABLE_MASK = 0) :
    Levels.Ready nodes (kindOf ndef s c) c := by
  unfold skips at hskip
  simp only [Bool.or_eq_false_iff, decide_eq_false_iff_not, Bool.not_eq_false', not_le] at hskip
  obtain ⟨⟨⟨⟨-, hself⟩, htotal⟩, hcan⟩, hsame⟩ := hskip
  exact ⟨proper_kindOf ndef hleveled, collect_sound hc, hlevel, htotal, hcan, hsame, hself, hstable⟩

/-- With levels that are at most the maximum no liquid is compressed. -/
theorem ready_of_levels (hc : collect ndef meltLevel settable loopcount nodes = some c)
    (hskip : skips c = false) (hleveled : (ndef c.liquid_kind_flowing).leveled ≤ 127)
    (hlevel : Levels.AtMost c (kindOf ndef s c).level_max) :
    Levels.Ready nodes (kindOf ndef s c) c := by
  have hcan : 0 < c.can_liquid := by
    unfold skips at hskip
    simp only [Bool.or_eq_false_iff, decide_eq_false_iff_not, not_le] at hskip
    exact hskip.1.2
  exact ready_kindOf hc hskip hleveled (hlevel.mono (Kind.le_bound _)) fun hgas havg =>
    absurd havg (Levels.levelAvg_le (proper_kindOf ndef hleveled) (collect_sound hc) hcan hgas
      hlevel)

/-- The levels stay in range through the distribution, whatever the nodes are: with levels that are
at most the maximum nowhere but below is more of it wanted, and there up to the compressed one if
that is more; a gas without infinite or stable nodes is wanted as much as there was of it. With
compressed levels, and no stable node below them, the greater of both is the most everywhere. -/
theorem levels_inRange (hc : collect ndef meltLevel settable loopcount nodes = some c)
    (hskip : skips c = false) (hleveled : (ndef c.liquid_kind_flowing).leveled ≤ 127)
    (s : Setting) :
    (Levels.AtMost c (kindOf ndef s c).level_max →
      Along (InRange c ((kindOf ndef s c).most (kindOf ndef s c).bound))
          (phases s (kindOf ndef s c) c) c.start ∧
        (Levels.PlainGas (kindOf ndef s c) c →
          (runPhases (phases s (kindOf ndef s c) c) c.start).sumWant = c.total_level)) ∧
      (Levels.AtMost c (kindOf ndef s c).bound →
        ((kindOf ndef s c).gas = false →
          (kindOf ndef s c).level_max < levelAvg (kindOf ndef s c) c →
            (nodes D_BOTTOM).param2 &&& LIQUID_STABLE_MASK = 0) →
        Along (InRange c fun _ => (kindOf ndef s c).bound) (phases s (kindOf ndef s c) c)
          c.start) := by
  refine ⟨fun hlevel => ?_, fun hlevel hstable => ?_⟩
  · have hr := ready_of_levels hc hskip hleveled hlevel
    refine ⟨(Levels.sharp_phases hr hlevel).imp fun st hst => ?_, fun hg =>
      Levels.sumWant_plain hr hg hlevel⟩
    refine hst.inv.inRange hr.sound fun i => ?_
    unfold Kind.most
    split_ifs with hi
    · exact hst.inv.high i
    · exact hst.high i hi
  · have hr := ready_kindOf hc hskip hleveled hlevel hstable
    exact (along_phases hr).imp fun st hst => hst.inRange hr.sound hst.high

def pool (leveled : UInt8) (pressure gas : ℤ) : Content → ContentFeatures := fun _ => {
  liquid_type := .flowing
  liquid_alternative_flowing := 5
  liquid_alternative_flowing_id := 5
  liquid_alternative_source_id := 5
  melt_id := CONTENT_IGNORE
  param_type_2 := .leveled
  leveled
  leveled_max := 127
  liquid_renewable := false
  drop_by_liquid := 0
  weight := 0
  gas
  pressure
  falling_node := 0
  float_height := none }

def still : Setting where
  relax := 0
  fast_flood := 0
  water_level := 0
  liquid_pressure := 1
  y := 5
  loopcount := 1
  loop_rand := 0
  initial_size := 0
  wind := none
  wind_mem _ h := by cases h

def fullCell (leveled : UInt8) (pressure gas : ℤ) : Cell :=
  (collect (pool leveled pressure gas) (fun _ _ _ => 0) true 1
    fun _ => { param0 := 5, param2 := 31 }).getD {}

/-- Seven full nodes of a gas. -/
theorem levels_inRange_gas :
    Along (InRange (fullCell 31 0 1) ((kindOf (pool 31 0 1) still (fullCell 31 0 1)).most 31))
        (phases still (kindOf (pool 31 0 1) still (fullCell 31 0 1)) (fullCell 31 0 1))
        (fullCell 31 0 1).start ∧
      (runPhases (phases still (kindOf (pool 31 0 1) still (fullCell 31 0 1)) (fullCell 31 0 1))
        (fullCell 31 0 1).start).sumWant = 217 := by
  have hc : collect (pool 31 0 1) (fun _ _ _ => 0) true 1 (fun _ => { param0 := 5, param2 := 31 }) =
      some (fullCell 31 0 1) := rfl
  have hall := (levels_inRange hc (by decide) (by decide) still).1
    (by unfold Levels.AtMost; decide)
  exact ⟨hall.1, hall.2 ⟨by decide, by decide, by decide⟩⟩

/-- Below more is wanted than the compressed maximum, where that is less than the maximum; and a
maximum of more than 127 is no level. -/
theorem not_inRange :
    (¬∀ (ndef : Content → ContentFeatures) (nodes : Dir → MapNode) (c : Cell) (s : Setting),
        collect ndef (fun _ _ _ => 0) true 1 nodes = some c → skips c = false →
        (ndef c.liquid_kind_flowing).leveled ≤ 127 →
        Levels.AtMost c (kindOf ndef s c).level_max →
        Along (InRange c ((kindOf ndef s c).most (kindOf ndef s c).level_max_compressed))
          (phases s (kindOf ndef s c) c) c.start) ∧
      ¬∀ (ndef : Content → ContentFeatures) (nodes : Dir → MapNode) (c : Cell) (s : Setting),
        collect ndef (fun _ _ _ => 0) true 1 nodes = some c → skips c = false →
        Levels.AtMost c (kindOf ndef s c).level_max →
        Along (InRange c ((kindOf ndef s c).most (kindOf ndef s c).bound))
          (phases s (kindOf ndef s c) c) c.start := by
  constructor
  · intro h
    have hall := h (pool 100 1 0) (fun _ => { param0 := 5, param2 := 31 }) (fullCell 100 1 0) still
      rfl (by decide) (by decide) (by unfold Levels.AtMost; decide)
    have hbelow := hall.2.1.most D_BOTTOM
    revert hbelow
    decide
  · intro h
    have hall := h (pool 200 0 0) (fun _ => { param0 := 5, param2 := 31 }) (fullCell 200 0 0) still
      rfl (by decide) (by unfold Levels.AtMost; decide)
    have hbelow := hall.2.1.wanted D_BOTTOM
    revert hbelow
    decide

end Freeminer.Liquid
