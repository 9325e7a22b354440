import Mathlib.Algebra.BigOperators.Fin
import Mathlib.Algebra.Order.BigOperators.Group.Finset
import Freeminer.Block.NodeDefManager

/-! What `ServerMap::transformLiquidsReal` (`fm_liquid.cpp`) collects of a cell: the node itself and
the six around it, which of them take part, and their levels. -/

namespace Freeminer.Liquid

open Block

/-- A place of the cell: below it, itself, back, front, right, left and above it. -/
abbrev Dir := Fin 7

def D_BOTTOM : Dir := 0
def D_SELF : Dir := 1
def D_BACK : Dir := 2
def D_FRONT : Dir := 3
def D_RIGHT : Dir := 4
def D_LEFT : Dir := 5
def D_TOP : Dir := 6

def liquid_explore_map : List Dir := [1, 0, 6, 2, 3, 4, 5]

def LEVELED_MAX : UInt8 := 0x1F
def LIQUID_LEVEL_MASK : UInt8 := 0x07
def LIQUID_LEVEL_SOURCE : UInt8 := 8
def LIQUID_STABLE_MASK : UInt8 := 0x40
def LIQUID_INFINITY_MASK : UInt8 := 0x80

/-- Conversions to `int8_t`, `int16_t` and `uint16_t`. -/
def s8 (x : ℤ) : ℤ := x.bmod 256
def s16 (x : ℤ) : ℤ := x.bmod 65536
def u16 (x : ℤ) : ℤ := x % 65536

inductive LiquidType where
  | none
  | flowing
  | source
  deriving DecidableEq

inductive ContentParamType2 where
  | leveled
  | flowingliquid
  | other
  deriving DecidableEq

/-- What the solver reads of `ContentFeatures`. -/
structure ContentFeatures where
  liquid_type : LiquidType
  /-- The content of the name `liquid_alternative_flowing`. -/
  liquid_alternative_flowing : Content
  liquid_alternative_flowing_id : Content
  liquid_alternative_source_id : Content
  melt_id : Content
  param_type_2 : ContentParamType2
  leveled : UInt8
  leveled_max : UInt8
  liquid_renewable : Bool
  /-- The ratings in groups, 0 without one. -/
  drop_by_liquid : ℤ
  weight : ℤ
  gas : ℤ
  pressure : ℤ
  falling_node : ℤ
  float_height : Option ℤ

namespace ContentFeatures

def getMaxLevel (f : ContentFeatures) (compress : Bool) : UInt8 :=
  if f.leveled ≠ 0 ∨ f.param_type_2 = .leveled then
    if compress then LEVELED_MAX else if f.leveled ≠ 0 then f.leveled else LEVELED_MAX
  else if f.param_type_2 = .flowingliquid ∨ f.liquid_type = .flowing then LIQUID_LEVEL_SOURCE
  else 0

end ContentFeatures

variable (ndef : Content → ContentFeatures)

/-- `MapNode::getLevel` -/
def getLevel (n : MapNode) : UInt8 :=
  let f := ndef n.param0
  if f.param_type_2 = .leveled then
    let level := n.param2 &&& LEVELED_MAX
    if f.liquid_type = .source ∧ f.liquid_alternative_flowing_id = n.param0 then
      if level ≠ 0 then level else f.getMaxLevel false
    else
      let level := if f.liquid_type = .source then level + f.getMaxLevel false else level
      if level ≠ 0 then level else 1
  else if f.leveled ≠ 0 then
    if LEVELED_MAX < f.leveled then LEVELED_MAX else f.leveled
  else if f.liquid_type = .source then
    if (ndef f.liquid_alternative_flowing).param_type_2 = .leveled then LEVELED_MAX
    else LIQUID_LEVEL_SOURCE
  else if f.param_type_2 = .flowingliquid ∨ f.liquid_type = .flowing then
    n.param2 &&& LIQUID_LEVEL_MASK
  else if f.leveled_max < f.leveled then f.leveled_max
  else f.leveled

/-- `NodeNeighbor`; its position and type follow from its place. -/
structure NodeNeighbor where
  node : MapNode := { param0 := CONTENT_IGNORE }
  liquid : Bool := false
  infinity : Bool := false
  weight : ℤ := 0
  drop : Bool := false

structure Cell where
  neighbors : Dir → NodeNeighbor := fun _ => {}
  liquid_levels : Dir → ℤ := fun _ => -1
  liquid_levels_want : Dir → ℤ := fun _ => -1
  total_level : ℤ := 0
  can_liquid : ℤ := 0
  can_liquid_same_level : ℤ := 0
  liquid_kind : Content := CONTENT_IGNORE
  liquid_kind_flowing : Content := CONTENT_IGNORE
  melt_kind : Content := CONTENT_IGNORE
  melt_kind_flowing : Content := CONTENT_IGNORE

def loaded (n : MapNode) : Bool := n.param0 ≠ CONTENT_IGNORE

def orElse (c d : Content) : Content := if c = CONTENT_IGNORE then d else c

namespace Cell

def setNeighbor (c : Cell) (i : Dir) (nb : NodeNeighbor) : Cell :=
  { c with neighbors := Function.update c.neighbors i nb }

def setLevel (c : Cell) (i : Dir) (level : ℤ) : Cell :=
  { c with liquid_levels := Function.update c.liquid_levels i level }

def kindsOfSource (c : Cell) (content : Content) (f : ContentFeatures) : Cell :=
  let kindFlowing := orElse c.liquid_kind_flowing f.liquid_alternative_flowing_id
  let kind := orElse c.liquid_kind content
  let melt := orElse c.melt_kind f.melt_id
  { c with
    liquid_kind := kind
    liquid_kind_flowing := orElse kindFlowing kind
    melt_kind := melt
    melt_kind_flowing := orElse (orElse c.melt_kind_flowing
      (ndef f.melt_id).liquid_alternative_flowing_id) melt }

def kindsOfFlowing (c : Cell) (content : Content) (f : ContentFeatures) : Cell :=
  let kindFlowing := orElse c.liquid_kind_flowing content
  let meltFlowing := orElse c.melt_kind_flowing f.melt_id
  { c with
    liquid_kind := orElse (orElse c.liquid_kind f.liquid_alternative_source_id) kindFlowing
    liquid_kind_flowing := kindFlowing
    melt_kind := orElse (orElse c.melt_kind (ndef f.melt_id).liquid_alternative_source_id)
      meltFlowing
    melt_kind_flowing := meltFlowing }

def takePart (c : Cell) (i : Dir) (nb : NodeNeighbor) (level : ℤ) : Cell :=
  (c.setNeighbor i { nb with liquid := true }).setLevel i level

def takeMelted (c : Cell) (i : Dir) (nb : NodeNeighbor) (level : ℤ) : Cell :=
  (c.setNeighbor i { nb with liquid := decide (level ≠ 0) }).setLevel i level

/-- The liquid of the cell takes part, and without a level if it is stable; then nothing more is
done with it. -/
def takeLiquid (c : Cell) (i : Dir) (nb : NodeNeighbor) (same : Bool) : Cell × Bool :=
  if same then
    if nb.node.param2 &&& LIQUID_STABLE_MASK ≠ 0 then
      (c.setNeighbor i { nb with liquid := true }, true)
    else
      (c.takePart i { nb with infinity := decide (nb.node.param2 &&& LIQUID_INFINITY_MASK ≠ 0) }
        (s8 (getLevel ndef nb.node).toNat), false)
  else (c.setNeighbor i nb, false)

/-- The `switch` over the type of the liquid, for a node that is there. `meltLevel` is the product
of the level with the quotient of the maximal levels, in floating point. -/
def classify (meltLevel : UInt8 → UInt8 → UInt8 → ℤ) (loopcount : ℕ) (c : Cell) (i : Dir)
    (n : MapNode) : Cell × Bool :=
  let f := ndef n.param0
  let nb : NodeNeighbor := { node := n }
  match f.liquid_type with
  | .none =>
    if n.param0 = CONTENT_AIR then (c.takePart i nb 0, false)
    else if c.melt_kind_flowing ≠ CONTENT_IGNORE ∧ n.param0 = c.melt_kind_flowing ∧ i ≠ D_TOP ∧
        loopcount % 2 = 0 then
      (c.takeMelted i nb (s8 (meltLevel ((ndef c.liquid_kind_flowing).getMaxLevel false)
        (f.getMaxLevel false) (getLevel ndef n))), false)
    else if c.melt_kind ≠ CONTENT_IGNORE ∧ n.param0 = c.melt_kind ∧ i ≠ D_TOP ∧
        loopcount % 8 = 0 then
      (c.takeMelted i nb (s8 ((ndef c.liquid_kind_flowing).getMaxLevel false).toNat), false)
    else if f.drop_by_liquid ≠ 0 ∧ (loopcount : ℤ) % (f.drop_by_liquid % 2 ^ 64) = 0 then
      (c.takePart i { nb with drop := true } 0, false)
    else (c.setNeighbor i nb, false)
  | .source =>
    let c := c.kindsOfSource ndef n.param0 f
    c.takeLiquid ndef i nb (n.param0 = c.liquid_kind)
  | .flowing =>
    let c := c.kindsOfFlowing ndef n.param0 f
    c.takeLiquid ndef i nb (n.param0 = c.liquid_kind_flowing)

/-- 1 for a place that is `NEIGHBOR_SAME_LEVEL`. -/
def sameLevel (i : Dir) : ℤ := if i = D_TOP ∨ i = D_BOTTOM then 0 else 1

def count (c : Cell) (i : Dir) : Cell :=
  let c := if (c.neighbors i).liquid then
      { c with
        liquid_levels_want := Function.update c.liquid_levels_want i 0
        can_liquid := s8 (c.can_liquid + 1)
        can_liquid_same_level :=
          s8 (c.can_liquid_same_level + sameLevel i) }
    else c
  if 0 < c.liquid_levels i then { c with total_level := s16 (c.total_level + c.liquid_levels i) }
  else c

/-- The heavier liquid of two that lie on each other goes down, and the iteration ends; but not if
one of the nodes cannot be set. -/
def swaps (settable : Bool) (c : Cell) (i : Dir) : Bool :=
  settable &&
    (i = D_BOTTOM && decide ((c.neighbors D_BOTTOM).weight ≠ 0) &&
        decide ((c.neighbors D_BOTTOM).weight < (c.neighbors D_SELF).weight) ||
      i = D_TOP && decide ((c.neighbors D_SELF).weight ≠ 0) &&
        decide ((c.neighbors D_SELF).weight < (c.neighbors D_TOP).weight))

/-- The weight counts of the node itself and of those above and below it. -/
def weigh (c : Cell) (i : Dir) : Cell :=
  if (ndef (c.neighbors i).node.param0).liquid_type ≠ .none ∧
      (i = D_SELF ∨ i = D_BOTTOM ∨ i = D_TOP) then
    c.setNeighbor i { c.neighbors i with weight := (ndef (c.neighbors i).node.param0).weight }
  else c

def explore (meltLevel : UInt8 → UInt8 → UInt8 → ℤ) (settable : Bool) (loopcount : ℕ)
    (nodes : Dir → MapNode) (c : Cell) (i : Dir) : Option Cell :=
  if loaded (nodes i) then
    let r := c.classify ndef meltLevel loopcount i (nodes i)
    if r.2 then some r.1
    else
      let c := r.1.weigh ndef i
      if (ndef (nodes i).param0).liquid_type ≠ .none ∧ c.swaps settable i then none
      else some (c.count i)
  else some (c.setNeighbor i { node := nodes i })

def collect (meltLevel : UInt8 → UInt8 → UInt8 → ℤ) (settable : Bool) (loopcount : ℕ)
    (nodes : Dir → MapNode) : Option Cell :=
  liquid_explore_map.foldlM (explore ndef meltLevel settable loopcount nodes) {}

/-! ## What one neighbour adds -/

theorem s8_le (x : ℤ) : s8 x ≤ 127 := by
  have h : s8 x < (256 + 1) / 2 := Int.bmod_lt (by decide)
  omega

/-- What is known of a node that was looked at, with its level and what is wanted of it: 0 if it
takes part. A stable one is liquid and does not. -/
structure Seen (n : MapNode) (i : Dir) (nb : NodeNeighbor) (level want : ℤ) : Prop where
  node : nb.node = n
  level_le : level ≤ 127
  wanted : want = 0 ∨ want = -1
  liquid : want = 0 → nb.liquid = true
  stable : nb.liquid = true → want = 0 ∨ n.param2 &&& LIQUID_STABLE_MASK ≠ 0
  positive : 0 < level → want = 0
  top : level = 0 → i = D_TOP → want = 0
  infinity : nb.infinity = true → want = 0
  loaded : nb.liquid = true → Liquid.loaded n = true

/-- The cell before a neighbour is looked at has nothing of it. -/
structure Fresh (c : Cell) (i : Dir) : Prop where
  liquid : (c.neighbors i).liquid = false
  level : c.liquid_levels i = -1
  want : c.liquid_levels_want i = -1

variable {ndef} {c c' : Cell} {i : Dir} {nodes : Dir → MapNode} {n : MapNode} {loopcount : ℕ}
  {meltLevel : UInt8 → UInt8 → UInt8 → ℤ} {settable : Bool}

/-- What the `switch` leaves of a neighbour; the counts are as before. -/
structure Classified (c : Cell) (i : Dir) (n : MapNode) (r : Cell × Bool) (nb : NodeNeighbor)
    (level : ℤ) : Prop where
  neighbors : r.1.neighbors = Function.update c.neighbors i nb
  levels : r.1.liquid_levels = Function.update c.liquid_levels i level
  wants : r.1.liquid_levels_want = c.liquid_levels_want
  total : r.1.total_level = c.total_level
  can : r.1.can_liquid = c.can_liquid
  same : r.1.can_liquid_same_level = c.can_liquid_same_level
  node : nb.node = n
  level_le : level ≤ 127
  liquid : 0 < level → nb.liquid = true
  top : level = 0 → i = D_TOP → nb.liquid = true
  infinity : nb.infinity = true → nb.liquid = true
  stable : r.2 = true → nb.liquid = true ∧ nb.infinity = false ∧ level = -1 ∧
    n.param2 &&& LIQUID_STABLE_MASK ≠ 0

theorem classified_setNeighbor (h : c.Fresh i) :
    Classified c i n (c.setNeighbor i { node := n }, false) { node := n } (-1) where
  neighbors := rfl
  levels := by rw [← h.level, Function.update_eq_self]; rfl
  wants := rfl
  total := rfl
  can := rfl
  same := rfl
  node := rfl
  level_le := by decide
  liquid h := by omega
  top h := by omega
  infinity h := by cases h
  stable h := by cases h

theorem classified_takePart (c : Cell) (i : Dir) (n : MapNode) (infinity drop : Bool) (level : ℤ)
    (hlevel : level ≤ 127) :
    Classified c i n (c.takePart i { node := n, infinity, drop } level, false)
      { node := n, liquid := true, infinity, drop } level where
  neighbors := rfl
  levels := rfl
  wants := rfl
  total := rfl
  can := rfl
  same := rfl
  node := rfl
  level_le := hlevel
  liquid _ := rfl
  top _ _ := rfl
  infinity _ := rfl
  stable h := by cases h

theorem classified_takeMelted (hi : i ≠ D_TOP) (level : ℤ) (hlevel : level ≤ 127) :
    Classified c i n (c.takeMelted i { node := n } level, false)
      { node := n, liquid := decide (level ≠ 0) } level where
  neighbors := rfl
  levels := rfl
  wants := rfl
  total := rfl
  can := rfl
  same := rfl
  node := rfl
  level_le := hlevel
  liquid h := by
    rw [decide_eq_true_eq]
    omega
  top _ h := absurd h hi
  infinity h := by cases h
  stable h := by cases h

theorem classified_takeLiquid (ndef : Content → ContentFeatures) (n : MapNode) (h : c.Fresh i)
    (same : Bool) :
    ∃ nb level, Classified c i n (c.takeLiquid ndef i { node := n } same) nb level := by
  unfold takeLiquid
  split_ifs with hsame hstable
  · refine ⟨{ node := n, liquid := true }, -1, rfl, ?_, rfl, rfl, rfl, rfl, rfl, by decide,
      fun _ => rfl, fun _ _ => rfl, fun _ => rfl, fun _ => ⟨rfl, rfl, rfl, hstable⟩⟩
    rw [← h.level, Function.update_eq_self]
    rfl
  · exact ⟨_, _, classified_takePart c i n _ false _ (s8_le _)⟩
  · exact ⟨_, _, classified_setNeighbor h⟩

/-- The kinds do not matter for what is known of a neighbour. -/
theorem Classified.of_kinds {kinds : Cell} {r : Cell × Bool} {nb : NodeNeighbor} {level : ℤ}
    (h : Classified kinds i n r nb level) (hnb : kinds.neighbors = c.neighbors)
    (hlevels : kinds.liquid_levels = c.liquid_levels)
    (hwant : kinds.liquid_levels_want = c.liquid_levels_want)
    (htotal : kinds.total_level = c.total_level) (hcan : kinds.can_liquid = c.can_liquid)
    (hsame : kinds.can_liquid_same_level = c.can_liquid_same_level) :
    Classified c i n r nb level where
  neighbors := hnb ▸ h.neighbors
  levels := hlevels ▸ h.levels
  wants := hwant ▸ h.wants
  total := htotal ▸ h.total
  can := hcan ▸ h.can
  same := hsame ▸ h.same
  node := h.node
  level_le := h.level_le
  liquid := h.liquid
  top := h.top
  infinity := h.infinity
  stable := h.stable

theorem classified (ndef : Content → ContentFeatures) (meltLevel : UInt8 → UInt8 → UInt8 → ℤ)
    (loopcount : ℕ) (n : MapNode) (h : c.Fresh i) :
    ∃ nb level, Classified c i n (c.classify ndef meltLevel loopcount i n) nb level := by
  unfold classify
  dsimp only
  cases (ndef n.param0).liquid_type with
  | none =>
    dsimp only
    split_ifs with hair hflowing hmelt hdrop
    · exact ⟨_, _, classified_takePart c i n false false 0 (by decide)⟩
    · exact ⟨_, _, classified_takeMelted hflowing.2.2.1 _ (s8_le _)⟩
    · exact ⟨_, _, classified_takeMelted hmelt.2.2.1 _ (s8_le _)⟩
    · exact ⟨_, _, classified_takePart c i n false true 0 (by decide)⟩
    · exact ⟨_, _, classified_setNeighbor h⟩
  | source =>
    obtain ⟨nb, level, hr⟩ := classified_takeLiquid ndef n
      (c := c.kindsOfSource ndef n.param0 (ndef n.param0)) (i := i) ⟨h.liquid, h.level, h.want⟩ _
    exact ⟨nb, level, hr.of_kinds rfl rfl rfl rfl rfl rfl⟩
  | flowing =>
    obtain ⟨nb, level, hr⟩ := classified_takeLiquid ndef n
      (c := c.kindsOfFlowing ndef n.param0 (ndef n.param0)) (i := i) ⟨h.liquid, h.level, h.want⟩ _
    exact ⟨nb, level, hr.of_kinds rfl rfl rfl rfl rfl rfl⟩

structure Added (n : MapNode) (c : Cell) (i : Dir) (c' : Cell) (nb : NodeNeighbor)
    (level want : ℤ) : Prop where
  seen : Seen n i nb level want
  neighbors : c'.neighbors = Function.update c.neighbors i nb
  levels : c'.liquid_levels = Function.update c.liquid_levels i level
  wants : c'.liquid_levels_want = Function.update c.liquid_levels_want i want
  total : c'.total_level =
    if 0 < level then s16 (c.total_level + level) else c.total_level
  can : c'.can_liquid = if want = 0 then s8 (c.can_liquid + 1) else c.can_liquid
  same : c'.can_liquid_same_level =
    if want = 0 then s8 (c.can_liquid_same_level + sameLevel i) else c.can_liquid_same_level

theorem classified_weigh (ndef : Content → ContentFeatures) {r : Cell × Bool} {nb : NodeNeighbor}
    {level : ℤ}
    (h : Classified c i n r nb level) :
    ∃ nb', Classified c i n (r.1.weigh ndef i, r.2) nb' level := by
  unfold weigh
  split_ifs
  · have hnb : r.1.neighbors i = nb := by rw [h.neighbors, Function.update_self]
    refine ⟨{ nb with weight := (ndef (r.1.neighbors i).node.param0).weight }, ?_, h.levels,
      h.wants, h.total, h.can, h.same, h.node, h.level_le, h.liquid, h.top, h.infinity, h.stable⟩
    show Function.update r.1.neighbors i _ = _
    rw [hnb, h.neighbors, Function.update_idem]
  · exact ⟨nb, h.neighbors, h.levels, h.wants, h.total, h.can, h.same, h.node, h.level_le, h.liquid,
      h.top, h.infinity, h.stable⟩

/-- Counting a neighbour after the `switch`. -/
theorem added_count {c₁ : Cell} {nb : NodeNeighbor} {level : ℤ} (hload : loaded n = true)
    (h : Classified c i n (c₁, false) nb level) (hwant : c.liquid_levels_want i = -1) :
    Added n c i (c₁.count i) nb level (if nb.liquid then 0 else -1) := by
  have hnb : (c₁.neighbors i).liquid = nb.liquid := by
    rw [h.neighbors, Function.update_self]
  have hlevel : c₁.liquid_levels i = level := by
    rw [h.levels, Function.update_self]
  have hneighbors : c₁.neighbors = Function.update c.neighbors i nb := h.neighbors
  have hlevels : c₁.liquid_levels = Function.update c.liquid_levels i level := h.levels
  have hwants : c₁.liquid_levels_want = c.liquid_levels_want := h.wants
  have htotal : c₁.total_level = c.total_level := h.total
  have hcan : c₁.can_liquid = c.can_liquid := h.can
  have hsame : c₁.can_liquid_same_level = c.can_liquid_same_level := h.same
  unfold count
  rw [hnb]
  cases hliquid : nb.liquid with
  | true =>
    simp only [if_true]
    have hseen : Seen n i nb level 0 := ⟨h.node, h.level_le, .inl rfl, fun _ => hliquid,
      fun _ => .inl rfl, fun _ => rfl, fun _ _ => rfl, fun _ => rfl, fun _ => hload⟩
    rw [hlevel]
    split_ifs with hpos
    all_goals
      refine ⟨hseen, hneighbors, hlevels, ?_, ?_, ?_, ?_⟩
      · show Function.update c₁.liquid_levels_want i 0 = _
        rw [hwants]
      · simp only [hpos, if_true, if_false, htotal]
      · simp only [if_true, hcan]
      · simp only [if_true, hsame]
  | false =>
    have hnot : ¬0 < level := fun hpos => by
      rw [h.liquid hpos] at hliquid
      cases hliquid
    have hseen : Seen n i nb level (-1) := by
      refine ⟨h.node, h.level_le, .inr rfl, fun h => by omega, fun hl => ?_, fun hpos => ?_,
        fun hzero hi => ?_, fun hinf => ?_, fun hl => ?_⟩
      · rw [hl] at hliquid
        cases hliquid
      · exact absurd hpos hnot
      · rw [h.top hzero hi] at hliquid
        cases hliquid
      · rw [h.infinity hinf] at hliquid
        cases hliquid
      · rw [hl] at hliquid
        cases hliquid
    simp only [Bool.false_eq_true, if_false, hlevel, hnot]
    refine ⟨hseen, hneighbors, hlevels, ?_, ?_, ?_, ?_⟩
    · rw [hwants, ← hwant, Function.update_eq_self]
    · rw [htotal, if_neg hnot]
    · rw [hcan]
      rfl
    · rw [hsame]
      rfl

theorem seen_uncounted {nb : NodeNeighbor} (i : Dir) (hnode : nb.node = n)
    (hstable : nb.liquid = true → n.param2 &&& LIQUID_STABLE_MASK ≠ 0)
    (hinf : nb.infinity = false) (hload : nb.liquid = true → loaded n = true) :
    Seen n i nb (-1) (-1) where
  node := hnode
  level_le := by decide
  wanted := .inr rfl
  liquid h := by cases h
  stable h := .inr (hstable h)
  positive h := by cases h
  top h := by cases h
  infinity h := by
    rw [hinf] at h
    cases h
  loaded := hload

theorem explore_added (h : c.Fresh i)
    (hc : c.explore ndef meltLevel settable loopcount nodes i = some c') :
    ∃ nb level want, Added (nodes i) c i c' nb level want := by
  unfold explore at hc
  by_cases hload : loaded (nodes i) = true
  · rw [if_pos hload] at hc
    obtain ⟨nb, level, hclass⟩ := classified ndef meltLevel loopcount (nodes i) h
    dsimp only at hc
    split_ifs at hc with hstable hswap
    · -- a stable liquid
      cases hc
      obtain ⟨hliquid, hinf, rfl, hmask⟩ := hclass.stable hstable
      refine ⟨nb, -1, -1, seen_uncounted i hclass.node (fun _ => hmask) hinf fun _ => hload,
        hclass.neighbors, hclass.levels, ?_, hclass.total, ?_, ?_⟩
      · rw [hclass.wants, ← h.want, Function.update_eq_self]
      · rw [hclass.can]
        rfl
      · rw [hclass.same]
        rfl
    · cases hc
      rw [Bool.not_eq_true] at hstable
      obtain ⟨nb', hweigh⟩ := classified_weigh ndef hclass
      rw [hstable] at hweigh
      exact ⟨nb', level, _, added_count hload hweigh h.want⟩
  · rw [if_neg hload] at hc
    cases hc
    refine ⟨{ node := nodes i }, -1, -1, seen_uncounted i rfl (fun h => by cases h) rfl
      (fun h => by cases h), rfl, ?_, ?_, rfl, rfl, rfl⟩
    · rw [← h.level, Function.update_eq_self]
      rfl
    · rw [← h.want, Function.update_eq_self]
      rfl

/-! ## What is collected -/

/-- The counts of a cell are sums over its neighbours. -/
structure Sound (nodes : Dir → MapNode) (c : Cell) : Prop where
  seen : ∀ i, Seen (nodes i) i { c.neighbors i with node := nodes i } (c.liquid_levels i)
    (c.liquid_levels_want i)
  node : ∀ i, (c.neighbors i).liquid = true → (c.neighbors i).node = nodes i
  total : c.total_level = ∑ i, max (c.liquid_levels i) 0
  can : c.can_liquid = ∑ i, (1 + c.liquid_levels_want i)
  same : c.can_liquid_same_level = ∑ i, (1 + c.liquid_levels_want i) * sameLevel i

theorem sum_update (f : Dir → ℤ) (g : Dir → ℤ → ℤ) (i : Dir) (x : ℤ) :
    ∑ j, g j (Function.update f i x j) = ∑ j, g j (f j) - g i (f i) + g i x := by
  have hrest : ∀ j ∈ Finset.univ.erase i, g j (Function.update f i x j) = g j (f j) := by
    intro j hj
    rw [Function.update_of_ne (Finset.ne_of_mem_erase hj)]
  rw [← Finset.add_sum_erase _ _ (Finset.mem_univ i), Finset.sum_congr rfl hrest,
    Function.update_self, ← Finset.add_sum_erase _ (fun j => g j (f j)) (Finset.mem_univ i)]
  ring

theorem sum_update_add (f : Dir → ℤ) (g : Dir → ℤ → ℤ) (i : Dir) (x : ℤ) (h : g i (f i) = 0) :
    ∑ j, g j (Function.update f i x j) = ∑ j, g j (f j) + g i x := by
  rw [sum_update, h, sub_zero]

theorem s8_eq {x : ℤ} (h : -128 ≤ x) (h' : x ≤ 127) : s8 x = x :=
  Int.bmod_eq_of_le (by omega) (by omega)

theorem s16_eq {x : ℤ} (h : -32768 ≤ x) (h' : x ≤ 32767) : s16 x = x :=
  Int.bmod_eq_of_le (by omega) (by omega)

theorem sum_le_seven {f : Dir → ℤ} {k : ℤ} (h : ∀ i, f i ≤ k) : ∑ i, f i ≤ 7 * k := by
  have := Finset.sum_le_card_nsmul Finset.univ f k fun i _ => h i
  simpa using this

theorem Sound.total_bounds (h : Sound nodes c) : 0 ≤ c.total_level ∧ c.total_level ≤ 889 := by
  rw [h.total]
  refine ⟨Finset.sum_nonneg fun i _ => le_max_right _ _, ?_⟩
  have := sum_le_seven (f := fun i => max (c.liquid_levels i) 0) (k := 127)
    fun i => max_le (h.seen i).level_le (by decide)
  omega

theorem Sound.one_add_want (h : Sound nodes c) (i : Dir) :
    0 ≤ 1 + c.liquid_levels_want i ∧ 1 + c.liquid_levels_want i ≤ 1 := by
  rcases (h.seen i).wanted with hw | hw
  all_goals
    rw [hw]
    decide

theorem sameLevel_bounds (i : Dir) : 0 ≤ sameLevel i ∧ sameLevel i ≤ 1 := by
  unfold sameLevel
  split_ifs <;> decide

theorem Sound.can_bounds (h : Sound nodes c) : 0 ≤ c.can_liquid ∧ c.can_liquid ≤ 7 := by
  rw [h.can]
  refine ⟨Finset.sum_nonneg fun i _ => (h.one_add_want i).1, ?_⟩
  have := sum_le_seven fun i => (h.one_add_want i).2
  omega

theorem Sound.same_bounds (h : Sound nodes c) :
    0 ≤ c.can_liquid_same_level ∧ c.can_liquid_same_level ≤ 7 := by
  have hone : ∀ i, 0 ≤ (1 + c.liquid_levels_want i) * sameLevel i ∧
      (1 + c.liquid_levels_want i) * sameLevel i ≤ 1 := by
    intro i
    obtain ⟨hlow, hhigh⟩ := h.one_add_want i
    obtain ⟨hlow', hhigh'⟩ := sameLevel_bounds i
    exact ⟨mul_nonneg hlow hlow', mul_le_one₀ hhigh hlow' hhigh'⟩
  rw [h.same]
  refine ⟨Finset.sum_nonneg fun i _ => (hone i).1, ?_⟩
  have := sum_le_seven fun i => (hone i).2
  omega

theorem Seen.with_node {nb : NodeNeighbor} {level want : ℤ} (h : Seen n i nb level want) :
    Seen n i { nb with node := n } level want :=
  ⟨rfl, h.level_le, h.wanted, h.liquid, h.stable, h.positive, h.top, h.infinity, h.loaded⟩

/-- Looking at a new neighbour keeps the sums. -/
theorem Added.sound {nb : NodeNeighbor} {level want : ℤ} (h : Added (nodes i) c i c' nb level want)
    (hs : Sound nodes c) (hf : c.Fresh i) : Sound nodes c' := by
  have htotal := hs.total_bounds
  have hcan := hs.can_bounds
  have hsame := hs.same_bounds
  have hlevel := h.seen.level_le
  refine ⟨fun j => ?_, fun j => ?_, ?_, ?_, ?_⟩
  · rw [h.neighbors, h.levels, h.wants]
    by_cases hj : j = i
    · subst hj
      rw [Function.update_self, Function.update_self, Function.update_self]
      exact h.seen.with_node
    · rw [Function.update_of_ne hj, Function.update_of_ne hj, Function.update_of_ne hj]
      exact hs.seen j
  · rw [h.neighbors]
    by_cases hj : j = i
    · subst hj
      rw [Function.update_self]
      exact fun _ => h.seen.node
    · rw [Function.update_of_ne hj]
      exact hs.node j
  · have hsum := sum_update_add c.liquid_levels (fun _ x => max x 0) i level
      (by rw [hf.level]; rfl)
    rw [h.levels, hsum, ← hs.total, h.total]
    split_ifs with hpos
    · rw [max_eq_left hpos.le, s16_eq (by omega) (by omega)]
    · rw [max_eq_right (by omega), add_zero]
  · have hsum := sum_update_add c.liquid_levels_want (fun _ x => 1 + x) i want
      (by rw [hf.want]; rfl)
    rw [h.wants, hsum, ← hs.can, h.can]
    rcases h.seen.wanted with hw | hw
    · rw [if_pos hw, hw, s8_eq (by omega) (by omega)]
      ring
    · rw [if_neg (by omega), hw]
      ring
  · have hsum := sum_update_add c.liquid_levels_want (fun j x => (1 + x) * sameLevel j) i want
      (by rw [hf.want]; ring)
    have hone := sameLevel_bounds i
    rw [h.wants, hsum, ← hs.same, h.same]
    rcases h.seen.wanted with hw | hw
    · rw [if_pos hw, hw, s8_eq (by omega) (by omega)]
      ring
    · rw [if_neg (by omega), hw]
      ring

theorem Added.fresh {nb : NodeNeighbor} {level want : ℤ} (h : Added n c i c' nb level want)
    {j : Dir} (hj : j ≠ i) (hf : c.Fresh j) : c'.Fresh j := by
  refine ⟨?_, ?_, ?_⟩
  · rw [h.neighbors, Function.update_of_ne hj]
    exact hf.liquid
  · rw [h.levels, Function.update_of_ne hj]
    exact hf.level
  · rw [h.wants, Function.update_of_ne hj]
    exact hf.want

theorem sound_foldlM {todo : List Dir} (hnodup : todo.Nodup) (hs : Sound nodes c)
    (hf : ∀ i ∈ todo, c.Fresh i)
    (h : todo.foldlM (explore ndef meltLevel settable loopcount nodes) c = some c') :
    Sound nodes c' := by
  induction todo generalizing c with
  | nil =>
    cases h
    exact hs
  | cons i todo ih =>
    rw [List.nodup_cons] at hnodup
    rw [List.forall_mem_cons] at hf
    rw [List.foldlM_cons] at h
    obtain ⟨c₁, hstep, h⟩ := Option.bind_eq_some_iff.mp h
    obtain ⟨nb, level, want, hadded⟩ := explore_added hf.1 hstep
    refine ih hnodup.2 (hadded.sound hs hf.1) (fun j hj => ?_) h
    have hne : j ≠ i := fun heq => hnodup.1 (heq ▸ hj)
    exact hadded.fresh hne (hf.2 j hj)

theorem sound_init (nodes : Dir → MapNode) : Sound nodes {} := by
  refine ⟨fun i => ?_, fun i h => (by cases h), rfl, rfl, rfl⟩
  exact seen_uncounted i rfl (fun h => by cases h) rfl fun h => by cases h

/-- Whatever the nodes are, the counts of the cell are sums over its neighbours. -/
theorem collect_sound (h : collect ndef meltLevel settable loopcount nodes = some c) :
    Sound nodes c :=
  sound_foldlM (by decide) (sound_init nodes) (fun _ _ => ⟨rfl, rfl, rfl⟩) h

end Cell

end Freeminer.Liquid
