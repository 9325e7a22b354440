import Freeminer.Liquid.LevelRange

/-! How `ServerMap::transformLiquidsReal` (`fm_liquid.cpp`) writes the levels back that it wants,
and what an iteration does to the amount of liquid in the seven nodes. Liquid that is marked as
stable is liquid, but is not counted. -/

namespace Freeminer.Liquid

open Block Cell

variable (ndef : Content → ContentFeatures)

/-- `MapNode::setLevel`, without what it returns. -/
def setLevel (n : MapNode) (level : ℤ) (compress : Bool) : MapNode :=
  let f := ndef n.param0
  let max : ℤ := (f.getMaxLevel false).toNat
  if f.param_type_2 = .leveled ∨ f.param_type_2 = .flowingliquid ∨ f.liquid_type = .flowing ∨
      f.liquid_type = .source then
    if level = 0 then { n with param0 := CONTENT_AIR, param2 := 0 }
    else
      let level := if level < 0 then 0 else min level (f.getMaxLevel compress).toNat
      let r : Content × ℤ :=
        if max ≤ level then
          if f.liquid_type = .source then (n.param0, level - max)
          else if f.liquid_alternative_source_id ≠ CONTENT_IGNORE then
            (f.liquid_alternative_source_id, level - max)
          else (n.param0, level)
        else if f.liquid_alternative_flowing_id ≠ CONTENT_IGNORE then
          (f.liquid_alternative_flowing_id, level)
        else (n.param0, level)
      { n with
        param0 := r.1
        param2 := UInt8.ofNat r.2.toNat &&& LEVELED_MAX ||| n.param2 &&& ~~~LEVELED_MAX }
  else n

def liquidLevel (n : MapNode) : ℤ :=
  if (ndef n.param0).liquid_type = .none then 0 else (getLevel ndef n).toNat

def Cell.isWritten (c : Cell) (want : Dir → ℤ) (i : Dir) : Bool :=
  decide (0 ≤ want i) && (c.neighbors i).liquid && decide (c.liquid_levels i ≠ want i)

def newNode (c : Cell) (want : Dir → ℤ) (i : Dir) : MapNode :=
  setLevel ndef { (c.neighbors i).node with param0 := c.liquid_kind_flowing } (want i) true

def writeStep (c : Cell) (want : Dir → ℤ) (nodes : Dir → MapNode) (i : Dir) : Dir → MapNode :=
  if c.isWritten want i then Function.update nodes i (newNode ndef c want i) else nodes

def writeBack (s : Setting) (c : Cell) (want : Dir → ℤ) (nodes : Dir → MapNode) : Dir → MapNode :=
  (allDirs.map (randomDir s 4)).foldl (writeStep ndef c want) nodes

variable (meltLevel : UInt8 → UInt8 → UInt8 → ℤ) (settable : Bool)

def swapAt (loopcount : ℕ) (nodes : Dir → MapNode) (c : Cell) : List Dir → Option Dir
  | [] => none
  | i :: is =>
    match c.explore ndef meltLevel settable loopcount nodes i with
    | none => some i
    | some c => swapAt loopcount nodes c is

def iteration (s : Setting) (nodes : Dir → MapNode) : Dir → MapNode :=
  match collect ndef meltLevel settable s.loopcount nodes with
  | none =>
    match swapAt ndef meltLevel settable s.loopcount nodes {} liquid_explore_map with
    | some i => nodes ∘ Equiv.swap D_SELF i
    | none => nodes
  | some c =>
    if skips c then nodes
    else
      let k := kindOf ndef s c
      writeBack ndef s c (runPhases (phases s k c) c.start).want nodes

variable {ndef meltLevel settable} {s : Setting} {k : Kind} {c c' : Cell} {nodes : Dir → MapNode}
  {st : Levels} {i : Dir} {want : Dir → ℤ} {n : MapNode} {loopcount : ℕ}

/-! ## What was counted -/

namespace Cell

/-- A node that takes part has the level that was counted, unless it melts or is dropped, and liquid
that takes no part has none. -/
structure CountsAt (ndef : Content → ContentFeatures) (nodes : Dir → MapNode) (c : Cell) (i : Dir) :
    Prop where
  level : c.liquid_levels_want i = 0 → (ndef (nodes i).param0).liquid_type ≠ .none →
    c.liquid_levels i = s8 (getLevel ndef (nodes i)).toNat
  air : c.liquid_levels_want i = 0 → (ndef (nodes i).param0).liquid_type = .none →
    (nodes i).param0 = CONTENT_AIR → c.liquid_levels i = 0
  stable : c.liquid_levels_want i = -1 → (c.neighbors i).liquid = true → c.liquid_levels i = -1

theorem level_takeLiquid (nb : NodeNeighbor) (same : Bool) (hnb : nb.liquid = false)
    (hl : ((c.takeLiquid ndef i nb same).1.neighbors i).liquid = true)
    (hgo : (c.takeLiquid ndef i nb same).2 = false) :
    (c.takeLiquid ndef i nb same).1.liquid_levels i = s8 (getLevel ndef nb.node).toNat := by
  unfold takeLiquid at hl hgo ⊢
  split_ifs at hl hgo ⊢
  · show Function.update c.liquid_levels i _ i = _
    rw [Function.update_self]
  · have hfalse : (Function.update c.neighbors i nb i).liquid = true := hl
    rw [Function.update_self, hnb] at hfalse
    cases hfalse

theorem level_classify
    (hl : ((c.classify ndef meltLevel loopcount i n).1.neighbors i).liquid = true)
    (hgo : (c.classify ndef meltLevel loopcount i n).2 = false) :
    ((ndef n.param0).liquid_type ≠ .none →
      (c.classify ndef meltLevel loopcount i n).1.liquid_levels i = s8 (getLevel ndef n).toNat) ∧
    ((ndef n.param0).liquid_type = .none → n.param0 = CONTENT_AIR →
      (c.classify ndef meltLevel loopcount i n).1.liquid_levels i = 0) := by
  unfold classify at hl hgo ⊢
  dsimp only at hl hgo ⊢
  cases htype : (ndef n.param0).liquid_type with
  | none =>
    refine ⟨fun h => absurd rfl h, fun _ hair => ?_⟩
    dsimp only
    rw [if_pos hair]
    show Function.update c.liquid_levels i 0 i = 0
    rw [Function.update_self]
  | source =>
    rw [htype] at hl hgo
    refine ⟨fun _ => ?_, fun h => by cases h⟩
    exact level_takeLiquid { node := n } _ rfl hl hgo
  | flowing =>
    rw [htype] at hl hgo
    refine ⟨fun _ => ?_, fun h => by cases h⟩
    exact level_takeLiquid { node := n } _ rfl hl hgo

theorem weigh_fields (ndef : Content → ContentFeatures) (c : Cell) (i : Dir) :
    ((c.weigh ndef i).neighbors i).liquid = (c.neighbors i).liquid ∧
      (c.weigh ndef i).liquid_levels = c.liquid_levels ∧
      (c.weigh ndef i).liquid_levels_want = c.liquid_levels_want := by
  unfold weigh
  split_ifs
  · refine ⟨?_, rfl, rfl⟩
    show (Function.update c.neighbors i _ i).liquid = _
    rw [Function.update_self]
  · exact ⟨rfl, rfl, rfl⟩

theorem count_levels (c : Cell) (i : Dir) : (c.count i).liquid_levels = c.liquid_levels := by
  unfold count
  dsimp only
  split_ifs <;> rfl

theorem liquid_of_counted (hwant : c.liquid_levels_want i = -1)
    (h : (c.count i).liquid_levels_want i = 0) : (c.neighbors i).liquid = true := by
  by_contra hl
  have hsame : (c.count i).liquid_levels_want = c.liquid_levels_want := by
    unfold count
    dsimp only
    rw [if_neg hl]
    split_ifs <;> rfl
  rw [hsame, hwant] at h
  cases h

theorem count_liquid (c : Cell) (i : Dir) :
    ((c.count i).neighbors i).liquid = (c.neighbors i).liquid := by
  unfold count
  dsimp only
  split_ifs <;> rfl

theorem want_of_liquid (h : (c.neighbors i).liquid = true) :
    (c.count i).liquid_levels_want i = 0 := by
  unfold count
  dsimp only
  rw [if_pos h]
  split_ifs
  all_goals
    show Function.update c.liquid_levels_want i 0 i = 0
    rw [Function.update_self]

theorem countsAt_explore (hf : c.Fresh i)
    (h : c.explore ndef meltLevel settable loopcount nodes i = some c') :
    CountsAt ndef nodes c' i := by
  unfold explore at h
  by_cases hload : loaded (nodes i) = true
  · rw [if_pos hload] at h
    obtain ⟨nb, level, hclass⟩ := classified ndef meltLevel loopcount (nodes i) hf
    have hold : (c.classify ndef meltLevel loopcount i (nodes i)).1.liquid_levels_want i = -1 := by
      rw [hclass.wants, hf.want]
    dsimp only at h
    split_ifs at h with hstable hswap
    · cases h
      refine ⟨fun hw => ?_, fun hw => ?_, fun _ _ => ?_⟩
      · rw [hold] at hw
        cases hw
      · rw [hold] at hw
        cases hw
      · rw [hclass.levels, Function.update_self]
        exact (hclass.stable hstable).2.2.1
    · cases h
      obtain ⟨hliquid, hlevels, hwants⟩ := weigh_fields ndef
        (c.classify ndef meltLevel loopcount i (nodes i)).1 i
      have hl := fun hw => (hliquid ▸ liquid_of_counted (by rw [hwants, hold]) hw :
        ((c.classify ndef meltLevel loopcount i (nodes i)).1.neighbors i).liquid = true)
      have hgo := Bool.eq_false_of_not_eq_true hstable
      refine ⟨fun hw htype => ?_, fun hw htype hair => ?_, fun hw hnb => ?_⟩
      · rw [count_levels, hlevels]
        exact (level_classify (hl hw) hgo).1 htype
      · rw [count_levels, hlevels]
        exact (level_classify (hl hw) hgo).2 htype hair
      · have hcounted := want_of_liquid (c := (c.classify ndef meltLevel loopcount i
          (nodes i)).1.weigh ndef i) (i := i) (by
            rw [← count_liquid]
            exact hnb)
        rw [hcounted] at hw
        cases hw
  · rw [if_neg hload] at h
    cases h
    have hold : c.liquid_levels_want i ≠ 0 := by
      rw [hf.want]
      decide
    refine ⟨fun hw => absurd hw hold, fun hw => absurd hw hold, fun _ hnb => ?_⟩
    have hfalse : (Function.update c.neighbors i { node := nodes i } i).liquid = true := hnb
    rw [Function.update_self] at hfalse
    cases hfalse

theorem Added.countsAt {nb : NodeNeighbor} {level want : ℤ} {j : Dir}
    (h : Added n c i c' nb level want) (hj : j ≠ i) (hc : CountsAt ndef nodes c j) :
    CountsAt ndef nodes c' j := by
  have hwant : c'.liquid_levels_want j = c.liquid_levels_want j := by
    rw [h.wants, Function.update_of_ne hj]
  have hlevel : c'.liquid_levels j = c.liquid_levels j := by
    rw [h.levels, Function.update_of_ne hj]
  have hnb : c'.neighbors j = c.neighbors j := by
    rw [h.neighbors, Function.update_of_ne hj]
  refine ⟨?_, ?_, ?_⟩
  · rw [hwant, hlevel]
    exact hc.level
  · rw [hwant, hlevel]
    exact hc.air
  · rw [hwant, hlevel, hnb]
    exact hc.stable

theorem countsAt_foldlM {todo : List Dir} (hnodup : todo.Nodup) (hf : ∀ i ∈ todo, c.Fresh i)
    (hc : ∀ i, CountsAt ndef nodes c i)
    (h : todo.foldlM (explore ndef meltLevel settable loopcount nodes) c = some c') (i : Dir) :
    CountsAt ndef nodes c' i := by
  induction todo generalizing c with
  | nil =>
    cases h
    exact hc i
  | cons j todo ih =>
    rw [List.nodup_cons] at hnodup
    rw [List.forall_mem_cons] at hf
    rw [List.foldlM_cons] at h
    obtain ⟨c₁, hstep, h⟩ := Option.bind_eq_some_iff.mp h
    obtain ⟨nb, level, want, hadded⟩ := explore_added hf.1 hstep
    refine ih hnodup.2 (fun l hl => ?_) (fun l => ?_) h
    · exact hadded.fresh (fun heq => hnodup.1 (heq ▸ hl)) (hf.2 l hl)
    · by_cases hlj : l = j
      · subst hlj
        exact countsAt_explore hf.1 hstep
      · exact hadded.countsAt hlj (hc l)

/-- The levels that are collected are those of the nodes. -/
theorem collect_counts (h : collect ndef meltLevel settable loopcount nodes = some c) (i : Dir) :
    CountsAt ndef nodes c i := by
  have hempty : ∀ i, CountsAt ndef nodes {} i := by
    intro i
    refine ⟨fun hw => ?_, fun hw => ?_, fun _ hl => ?_⟩
    · cases hw
    · cases hw
    · cases hl
  exact countsAt_foldlM (by decide) (fun _ _ => ⟨rfl, rfl, rfl⟩) hempty h i

end Cell

/-! ## What is written -/

theorem writeStep_apply (ndef : Content → ContentFeatures) (c : Cell) (want : Dir → ℤ)
    (nodes : Dir → MapNode) (i j : Dir) : writeStep ndef c want nodes j i =
      if i = j ∧ c.isWritten want i then newNode ndef c want i else nodes i := by
  unfold writeStep
  by_cases hij : i = j
  · subst hij
    cases hw : c.isWritten want i with
    | true => simp
    | false => simp
  · cases hw : c.isWritten want j with
    | true => simp [hij]
    | false => simp [hij]

theorem writeBack_apply (ndef : Content → ContentFeatures) (s : Setting) (c : Cell)
    (want : Dir → ℤ) (nodes : Dir → MapNode) (i : Dir) : writeBack ndef s c want nodes i =
      if c.isWritten want i then newNode ndef c want i else nodes i := by
  have hrows : ∀ row : Fin 4, ∀ i, i ∈ allDirs.map (liquid_random_map row) := by decide
  have hfold : ∀ is : List Dir, (is.foldl (writeStep ndef c want) nodes) i =
      if i ∈ is ∧ c.isWritten want i then newNode ndef c want i else nodes i := by
    intro is
    induction is using List.reverseRecOn with
    | nil => simp
    | append_singleton is j ih =>
      rw [List.foldl_append, List.foldl_cons, List.foldl_nil, writeStep_apply, ih]
      by_cases hw : c.isWritten want i = true
      · by_cases hij : i = j
        · subst hij
          simp [hw]
        · simp [hij]
      · simp [hw]
  have hin : i ∈ allDirs.map (randomDir s 4) := hrows _ i
  unfold writeBack
  rw [hfold]
  simp only [hin, true_and]

namespace Levels

def spread (s : Setting) (k : Kind) (c : Cell) : Levels :=
  if k.gas then ((c.start.fillGas s k c).rest k c D_TOP).rest k c D_SELF
  else
    ((press k c (fillSecondary s k c (fillRest s k (fillSame s k c
      (selfLevel k c (c.start.fillPrimary k c)))))).rest k c D_TOP).rest k c D_SELF

end Levels

/-- No special rule fires: liquid is relaxed neither up nor down, none is above an unloaded node, no
node melts or is dropped, and none is infinite or flooded. -/
structure RulesIdle (ndef : Content → ContentFeatures) (s : Setting) (k : Kind) (c : Cell)
    (nodes : Dir → MapNode) : Prop where
  solid : ∀ i, (c.neighbors i).liquid = true → (ndef (nodes i).param0).liquid_type = .none →
    (nodes i).param0 = CONTENT_AIR
  relaxUp : k.gas = false →
    (c.start.fillPrimary k c).relaxUp s k c = c.start.fillPrimary k c
  aboveUnloaded : k.gas = false →
    (c.start.fillPrimary k c).aboveUnloaded s k c = c.start.fillPrimary k c
  relaxDown : k.gas = false → ((c.start.fillPrimary k c).selfLevel k c).relaxDown s k c =
    (c.start.fillPrimary k c).selfLevel k c
  flood : (Levels.spread s k c).flood s k c = Levels.spread s k c

theorem runPhases_idle (h : RulesIdle ndef s k c nodes) :
    runPhases (phases s k c) c.start = Levels.spread s k c := by
  have hflood := h.flood
  unfold phases runPhases
  cases hgas : k.gas with
  | true =>
    unfold Levels.spread at hflood ⊢
    rw [hgas] at hflood ⊢
    simpa using hflood
  | false =>
    unfold Levels.spread at hflood ⊢
    rw [hgas] at hflood ⊢
    simp only [Bool.false_eq_true, if_false, List.cons_append, List.nil_append, List.foldl_cons,
      List.foldl_nil] at hflood ⊢
    rw [h.relaxUp hgas, h.aboveUnloaded hgas, h.relaxDown hgas, hflood]

/-- What `setLevel` writes of a level is what is read of it. -/
def KeepsLevels (ndef : Content → ContentFeatures) (k : Kind) (flowing : Content) : Prop :=
  ∀ (n : MapNode) (w : ℤ), n.param0 = flowing → 0 ≤ w → w ≤ k.bound →
    liquidLevel ndef (setLevel ndef n w true) = w

/-! ## The sum of a liquid -/

namespace Levels

/-- A place on the same level gets the level of all, and perhaps one more from what is left. -/
theorem sumWant_fillSameStep (hk : k.Proper) (h : Open k c st) {ir : Dir}
    (hzero : st.want (randomDir s 1 ir) ≤ 0) :
    (fillSameStep s k c st ir).total + (fillSameStep s k c st ir).sumWant = st.total + st.sumWant +
      (if (c.neighbors (randomDir s 1 ir)).liquid then st.want_level else 0) ∧
    (fillSameStep s k c st ir).want_level = st.want_level ∧
    ((c.neighbors (randomDir s 1 ir)).liquid = true →
      0 ≤ (fillSameStep s k c st ir).want (randomDir s 1 ir)) ∧
    ∀ j, j ≠ randomDir s 1 ir → (fillSameStep s k c st ir).want j = st.want j := by
  have hbound := hk.bound_le
  have hmax := k.le_bound
  have hnonneg := h.inv.want_level_nonneg
  have hle := h.inv.want_level_le
  unfold fillSameStep
  dsimp only
  by_cases hl : (c.neighbors (randomDir s 1 ir)).liquid = true
  · rw [if_pos hl, if_pos hl, s8_eq (by omega) (by omega)]
    generalize hii : randomDir s 1 ir = ii at hl hzero ⊢
    have hset : Inv k c { st with want := Function.update st.want ii st.want_level } :=
      h.inv.update hl hnonneg hle
    have hsum : sumWant { st with want := Function.update st.want ii st.want_level } =
        st.sumWant + st.want_level := by
      unfold sumWant
      rw [sum_update_add st.want (fun _ x => max x 0) ii st.want_level (max_eq_right hzero),
        max_eq_left hnonneg]
    have hself : Function.update st.want ii st.want_level ii = st.want_level :=
      Function.update_self ..
    have hinc : 0 < st.total → st.want_level < k.level_max →
        (inc { st with want := Function.update st.want ii st.want_level } ii).total +
          (inc { st with want := Function.update st.want ii st.want_level } ii).sumWant =
            st.total + st.sumWant + st.want_level ∧
          0 ≤ (inc { st with want := Function.update st.want ii st.want_level } ii).want ii ∧
          ∀ j, j ≠ ii →
            (inc { st with want := Function.update st.want ii st.want_level } ii).want j =
              st.want j := by
      intro ht hroom
      have hkeep := sumWant_inc hk hset (i := ii) (hnonneg.trans_eq hself.symm)
        (hself.trans_lt (hroom.trans_le hmax)) ht
      refine ⟨by rw [hkeep, hsum]; ring, ?_, fun j hj => ?_⟩
      · show 0 ≤ Function.update (Function.update st.want ii st.want_level) ii
          (s8 (Function.update st.want ii st.want_level ii + 1)) ii
        rw [Function.update_self, hself, s8_eq (by omega) (by omega)]
        omega
      · show Function.update (Function.update st.want ii st.want_level) ii _ j = _
        rw [Function.update_of_ne hj, Function.update_of_ne hj]
    have hstay : st.total + sumWant { st with want := Function.update st.want ii st.want_level } =
        st.total + st.sumWant + st.want_level := by
      rw [hsum]
      ring
    split_ifs with hroom hexact hmore
    · rw [hself] at hroom
      exact ⟨(hinc hroom.2 hroom.1).1, rfl, fun _ => (hinc hroom.2 hroom.1).2.1,
        (hinc hroom.2 hroom.1).2.2⟩
    · exact ⟨hstay, rfl, fun _ => hnonneg.trans_eq hself.symm,
        fun j hj => Function.update_of_ne hj _ _⟩
    · rw [hself] at hroom
      exact ⟨(hinc hroom.2 hroom.1).1, rfl, fun _ => (hinc hroom.2 hroom.1).2.1,
        (hinc hroom.2 hroom.1).2.2⟩
    · exact ⟨hstay, rfl, fun _ => hnonneg.trans_eq hself.symm,
        fun j hj => Function.update_of_ne hj _ _⟩
  · rw [if_neg hl, if_neg hl, add_zero]
    exact ⟨rfl, rfl, fun h => absurd h hl, fun _ _ => rfl⟩

theorem sumWant_foldl (hk : k.Proper) {irs : List Dir} (h : Open k c st)
    (hsame : ∀ ir ∈ irs, ir ∈ sameDirs) (hnodup : (irs.map (randomDir s 1)).Nodup)
    (hzero : ∀ ir ∈ irs, st.want (randomDir s 1 ir) ≤ 0) :
    (irs.foldl (fillSameStep s k c) st).total + (irs.foldl (fillSameStep s k c) st).sumWant =
        st.total + st.sumWant + liquidCount c (irs.map (randomDir s 1)) * st.want_level ∧
      (∀ ir ∈ irs, (c.neighbors (randomDir s 1 ir)).liquid = true →
        0 ≤ (irs.foldl (fillSameStep s k c) st).want (randomDir s 1 ir)) ∧
      ∀ j, j ∉ irs.map (randomDir s 1) →
        (irs.foldl (fillSameStep s k c) st).want j = st.want j := by
  induction irs generalizing st with
  | nil => simp [liquidCount]
  | cons ir irs ih =>
    rw [List.map_cons, List.nodup_cons] at hnodup
    rw [List.forall_mem_cons] at hsame hzero
    obtain ⟨hsum, hlevel, hpos, hother⟩ := sumWant_fillSameStep (s := s) hk h hzero.1
    have hne : ∀ jr ∈ irs, randomDir s 1 jr ≠ randomDir s 1 ir := fun jr hjr heq =>
      hnodup.1 (heq ▸ List.mem_map_of_mem hjr)
    obtain ⟨hsum', hpos', hother'⟩ := ih (open_fillSameStep hk h hsame.1) hsame.2 hnodup.2
      fun jr hjr => by
        rw [hother _ (hne jr hjr)]
        exact hzero.2 jr hjr
    rw [List.foldl_cons]
    refine ⟨?_, fun jr hjr hl => ?_, fun j hj => ?_⟩
    · rw [hsum', hsum, hlevel]
      unfold liquidCount
      rw [List.map_cons, List.countP_cons]
      split_ifs <;> push_cast <;> ring
    · rcases List.mem_cons.mp hjr with rfl | hjr
      · rw [hother' _ hnodup.1]
        exact hpos hl
      · exact hpos' jr hjr hl
    · rw [List.map_cons, List.mem_cons, not_or] at hj
      rw [hother' j hj.2, hother j hj.1]

/-- Filling the rest keeps the sum, and what is not wanted or not on the same level. -/
theorem sumWant_fillRestStep (hk : k.Proper) (h : Open k c st) {ir : Dir} (hir : ir ∈ sameDirs) :
    (fillRestStep s k st ir).total + (fillRestStep s k st ir).sumWant = st.total + st.sumWant ∧
      ∀ j, (0 ≤ st.want j → 0 ≤ (fillRestStep s k st ir).want j) ∧
        (j ∉ sameDirs → (fillRestStep s k st ir).want j = st.want j) := by
  have hbound := hk.bound_le
  have hmax := k.le_bound
  unfold fillRestStep
  dsimp only
  split_ifs with hempty hroom
  · exact ⟨rfl, fun j => ⟨id, fun _ => rfl⟩⟩
  · refine ⟨sumWant_inc hk h.inv hroom.1 (by omega) (by omega), fun j => ⟨fun hj => ?_,
      fun hj => ?_⟩⟩
    · show 0 ≤ Function.update st.want _ _ j
      by_cases hji : j = randomDir s 2 ir
      · rw [hji, Function.update_self, s8_eq (by omega) (by omega)]
        omega
      · rwa [Function.update_of_ne hji]
    · have hne : j ≠ randomDir s 2 ir := fun heq => hj (heq ▸ randomDir_mem s 2 hir)
      exact Function.update_of_ne hne _ _
  · exact ⟨rfl, fun j => ⟨id, fun _ => rfl⟩⟩

theorem sumWant_fillRest (hk : k.Proper) (h : Open k c st) :
    (st.fillRest s k).total + (st.fillRest s k).sumWant = st.total + st.sumWant ∧
      ∀ j, (0 ≤ st.want j → 0 ≤ (st.fillRest s k).want j) ∧
        (j ∉ sameDirs → (st.fillRest s k).want j = st.want j) := by
  have hrun := List.foldlRecOn (motive := fun st' : Levels => Open k c st' ∧
      st'.total + st'.sumWant = st.total + st.sumWant ∧
      ∀ j, (0 ≤ st.want j → 0 ≤ st'.want j) ∧ (j ∉ sameDirs → st'.want j = st.want j))
    sameDirs (fillRestStep s k) ⟨h, rfl, fun j => ⟨id, fun _ => rfl⟩⟩ fun st' hst ir hir => by
      obtain ⟨hsum, hwant⟩ := sumWant_fillRestStep (s := s) hk hst.1 hir
      refine ⟨open_fillRestStep hk hst.1 hir, hsum.trans hst.2.1, fun j => ⟨fun hj => ?_,
        fun hj => ?_⟩⟩
      · exact (hwant j).1 ((hst.2.2 j).1 hj)
      · rw [(hwant j).2 hj, (hst.2.2 j).2 hj]
  exact hrun.2

theorem sumWant_move (hk : k.Proper) (h : Inv k c st) {j : Dir} (hij : i ≠ j)
    (hwi : 0 < st.want i) (hj : 0 ≤ st.want j) (hwj : st.want j < k.bound) :
    (st.move i j).sumWant = st.sumWant := by
  have hbound := hk.bound_le
  have hhigh := h.high i
  unfold move sumWant
  dsimp only
  rw [Function.update_of_ne (Ne.symm hij), s8_eq (by omega) (by omega),
    s8_eq (by omega) (by omega),
    sum_update (Function.update st.want i (st.want i - 1)) (fun _ x => max x 0) j (st.want j + 1),
    sum_update st.want (fun _ x => max x 0) i (st.want i - 1), Function.update_of_ne (Ne.symm hij),
    max_eq_left (by omega), max_eq_left (by omega), max_eq_left (by omega), max_eq_left (by omega)]
  ring

/-- Pressure keeps the sum, where nowhere is more than the maximum. -/
theorem sumWant_press (hr : Ready nodes k c) (h : Inv k.plain c st)
    (hbottom : (c.neighbors D_BOTTOM).liquid = true → 0 ≤ st.want D_BOTTOM) :
    (st.press k c).sumWant = st.sumWant := by
  have hself : st.want D_SELF ≤ k.level_max := (h.high D_SELF).trans k.bound_plain.le
  have htop : st.want D_TOP ≤ k.level_max := (h.high D_TOP).trans k.bound_plain.le
  have hle : k.level_max_compressed ≤ k.bound := le_max_right _ _
  unfold press
  split_ifs with _ hmove
  · exact sumWant_move hr.proper h.of_plain (by decide) hmove.2.2 (hbottom hmove.1) (by omega)
  · omega
  all_goals first
    | rfl
    | omega

/-- Pressure takes from the node itself and from the one above only. -/
theorem want_press (hk : k.Proper) (h : Inv k.plain c st) (hi : 0 ≤ st.want i) :
    0 ≤ (st.press k c).want i := by
  have hself : st.want D_SELF ≤ k.level_max := (h.high D_SELF).trans k.bound_plain.le
  have htop : st.want D_TOP ≤ k.level_max := (h.high D_TOP).trans k.bound_plain.le
  have hbound := hk.bound_le
  have hle : k.level_max_compressed ≤ k.bound := le_max_right _ _
  have hplain := k.le_bound
  have hlow := h.low D_BOTTOM
  unfold press
  split_ifs with _ hmove
  · show 0 ≤ Function.update (Function.update st.want D_TOP (s8 _)) D_BOTTOM (s8 (Function.update
      st.want D_TOP _ D_BOTTOM + 1)) i
    by_cases hib : i = D_BOTTOM
    · rw [hib] at hi ⊢
      rw [Function.update_self, Function.update_of_ne (by decide), s8_eq (by omega) (by omega)]
      omega
    · rw [Function.update_of_ne hib]
      by_cases hit : i = D_TOP
      · rw [hit, Function.update_self, s8_eq (by omega) (by omega)]
        omega
      · rw [Function.update_of_ne hit]
        exact hi
  · omega
  all_goals first
    | exact hi
    | omega

/-- Without liquid above there is no pressure, where nowhere is more than the maximum. -/
theorem press_of_top (h : Inv k.plain c st) (htop : st.want D_TOP = -1) : st.press k c = st := by
  have hself : st.want D_SELF ≤ k.level_max := (h.high D_SELF).trans k.bound_plain.le
  have htop' : st.want D_TOP ≤ k.level_max := (h.high D_TOP).trans k.bound_plain.le
  unfold press
  split_ifs
  all_goals first
    | rfl
    | omega

/-- All places on the same level that are liquid take part. -/
theorem same_eq_count (hc : c.Sound nodes) (s : Setting)
    (hall : ∀ i ∈ sameDirs, (c.neighbors i).liquid = true → c.liquid_levels_want i = 0) :
    c.can_liquid_same_level = liquidCount c (sameDirs.map (randomDir s 1)) := by
  have hperm : (sameDirs.map (randomDir s 1)).Perm sameDirs := by
    have hrows : ∀ row : Fin 4, (sameDirs.map (liquid_random_map row)).Perm sameDirs := by decide
    exact hrows _
  have hone : ∀ i ∈ sameDirs,
      1 + c.liquid_levels_want i = if (c.neighbors i).liquid then 1 else 0 := by
    intro i hi
    split_ifs with hl
    · rw [hall i hi hl]
      rfl
    · rcases (hc.seen i).wanted with hw | hw
      · exact absurd ((hc.seen i).liquid hw) hl
      · rw [hw]
        rfl
  have hsame : ∀ i ∈ sameDirs, Cell.sameLevel i = 1 := by decide
  have hother : Cell.sameLevel 0 = 0 ∧ Cell.sameLevel 6 = 0 := by decide
  have hcount : (liquidCount c sameDirs : ℤ) =
      (sameDirs.map fun i => if (c.neighbors i).liquid then (1 : ℤ) else 0).sum := by
    unfold liquidCount
    induction sameDirs with
    | nil => rfl
    | cons i is ih =>
      rw [List.countP_cons, List.map_cons, List.sum_cons, ← ih]
      split_ifs <;> push_cast <;> ring
  have heq : liquidCount c (sameDirs.map (randomDir s 1)) = liquidCount c sameDirs :=
    hperm.countP_eq _
  rw [heq, hcount, hc.same, sum_seven, hother.1, hother.2, hsame 1 (by decide),
    hsame 2 (by decide), hsame 3 (by decide), hsame 4 (by decide), hsame 5 (by decide),
    hone 1 (by decide), hone 2 (by decide), hone 3 (by decide), hone 4 (by decide),
    hone 5 (by decide)]
  simp only [sameDirs, D_SELF, D_BACK, D_FRONT, D_RIGHT, D_LEFT, List.map_cons, List.map_nil,
    List.sum_cons, List.sum_nil]
  ring

theorem sumWant_fillPrimary (hr : Ready nodes k c) (hgas : k.gas = false)
    (hlevel : AtMost c k.level_max) :
    (c.start.fillPrimary k c).total + (c.start.fillPrimary k c).sumWant = c.total_level ∧
      ((c.neighbors D_BOTTOM).liquid = true → 0 ≤ (c.start.fillPrimary k c).want D_BOTTOM) ∧
      ∀ j, j ≠ D_BOTTOM → (c.start.fillPrimary k c).want j = c.liquid_levels_want j := by
  have hstart := inv_start hr.proper hr.sound
  have htotal : c.start.total = c.total_level := rfl
  have hpos := hr.total
  have hbound := hr.proper.bound_le
  have hnonneg := hr.proper.nonneg
  have hle := k.le_bound
  have hsum := sumWant_start hr.sound
  unfold fillPrimary
  by_cases hl : (c.neighbors D_BOTTOM).liquid = true
  · rw [if_pos hl]
    dsimp only
    rw [if_neg (levelAvg_le hr.proper hr.sound hr.can hgas hlevel), htotal]
    have hput : ∀ w : ℤ, 0 ≤ w → w ≤ k.bound → w ≤ c.total_level →
        (c.start.put D_BOTTOM (s8 w) (c.start.total - s8 w)).total +
            (c.start.put D_BOTTOM (s8 w) (c.start.total - s8 w)).sumWant = c.total_level ∧
          0 ≤ (c.start.put D_BOTTOM (s8 w) (c.start.total - s8 w)).want D_BOTTOM ∧
          ∀ j, j ≠ D_BOTTOM →
            (c.start.put D_BOTTOM (s8 w) (c.start.total - s8 w)).want j =
              c.liquid_levels_want j := by
      intro w hw hw' hfit
      rw [s8_eq (by omega) (by omega)]
      refine ⟨?_, ?_, fun j hj => Function.update_of_ne hj _ _⟩
      · rw [sumWant_put hr.proper hstart hw hw' (wanted_start hr.sound D_BOTTOM)
          (hfit.trans_eq htotal.symm), hsum, add_zero, htotal]
      · show 0 ≤ Function.update c.start.want D_BOTTOM (s8 w) D_BOTTOM
        rw [Function.update_self, s8_eq (by omega) (by omega)]
        exact hw
    split_ifs with hlt
    · obtain ⟨hkeep, hwant, hother⟩ := hput k.level_max hnonneg hle hlt.le
      exact ⟨hkeep, fun _ => hwant, hother⟩
    · obtain ⟨hkeep, hwant, hother⟩ := hput c.total_level hpos.le (by omega) le_rfl
      exact ⟨hkeep, fun _ => hwant, hother⟩
  · rw [if_neg hl]
    exact ⟨by rw [hsum, htotal, add_zero], fun h => absurd h hl, fun j _ => rfl⟩

theorem total_selfLevel (hr : Ready nodes k c) (hinv : Inv k c st)
    (h : Inv k c (st.selfLevel k c)) :
    (st.selfLevel k c).total =
      st.total - (st.selfLevel k c).want_level * c.can_liquid_same_level := by
  have hbound := hr.proper.bound_le
  have hsame := hr.sound.same_bounds
  have htotal := hinv.total_le
  have hnonneg := hinv.total_nonneg
  have hlow := h.want_level_nonneg
  have hhigh := h.want_level_le
  have hprod : 0 ≤ (st.selfLevel k c).want_level * c.can_liquid_same_level :=
    mul_nonneg hlow hsame.1
  have hprod' : (st.selfLevel k c).want_level * c.can_liquid_same_level ≤ 127 * 7 :=
    mul_le_mul (by omega) hsame.2 hsame.1 (by decide)
  show s16 (st.total - (st.selfLevel k c).want_level * c.can_liquid_same_level) = _
  exact s16_eq (by omega) (by omega)

/-- What the distribution of a liquid leaves, where no special rule fires. -/
structure Spread (k : Kind) (c : Cell) (st : Levels) : Prop where
  sharp : Sharp k c st
  reached : ∀ i, i ≠ D_TOP → (c.neighbors i).liquid = true → 0 ≤ st.want i
  top : c.liquid_levels_want D_TOP = -1 → st.want D_TOP = -1
  sum : (∀ i, i ≠ D_TOP → (c.neighbors i).liquid = true → c.liquid_levels_want i = 0) →
    st.sumWant = c.total_level

theorem spread_liquid (hr : Ready nodes k c) (hlevel : AtMost c k.level_max) (hgas : k.gas = false)
    (hidle : RulesIdle ndef s k c nodes) : Spread k c (spread s k c) := by
  have hr' := ready_plain hr hlevel
  have hk' := hr'.proper
  have hgas' : k.plain.gas = false := hgas
  have hlevel' : AtMost c k.plain.level_max := hlevel
  have hplaces : ∀ i : Dir, i ≠ D_TOP → i = D_BOTTOM ∨ i ∈ sameDirs := by decide
  have hbottom : D_BOTTOM ∉ sameDirs := by decide
  have htop : D_TOP ∉ sameDirs := by decide
  obtain ⟨hsum₁, hbelow, hother₁⟩ := sumWant_fillPrimary hr hgas hlevel
  have hholds := holds_fillPrimary hr' hgas' hlevel'
  have hsettled : Settled k.plain c (c.start.fillPrimary k c) := by
    have hup := early_relaxUp (s := s) hr' (early_fillPrimary hr' hgas')
    have hup' : relaxUp s k.plain c (fillPrimary k.plain c c.start) = c.start.fillPrimary k c :=
      hidle.relaxUp hgas
    have habove := settled_aboveUnloaded hr' hgas' hup
    rw [hup'] at habove
    have habove' : aboveUnloaded s k.plain c (c.start.fillPrimary k c) =
        c.start.fillPrimary k c := hidle.aboveUnloaded hgas
    rwa [habove'] at habove
  have hsplit : Split k.plain c ((c.start.fillPrimary k c).selfLevel k c) :=
    split_selfLevel hr' hgas' hlevel' hsettled.inv hholds
  have hopen₂ : Open k.plain c ((c.start.fillPrimary k c).selfLevel k c) :=
    open_selfLevel hr' hgas' hsettled
  have htotal₂ := total_selfLevel hr hsettled.inv.of_plain hopen₂.inv.of_plain
  have hsum₂ : ((c.start.fillPrimary k c).selfLevel k c).sumWant =
      (c.start.fillPrimary k c).sumWant := rfl
  have hwant₂ : ∀ j, j ≠ D_BOTTOM →
      ((c.start.fillPrimary k c).selfLevel k c).want j = c.liquid_levels_want j := hother₁
  have hbelow₂ : (c.neighbors D_BOTTOM).liquid = true →
      0 ≤ ((c.start.fillPrimary k c).selfLevel k c).want D_BOTTOM := hbelow
  have hspread : spread s k c = ((press k c (fillSecondary s k c (fillRest s k (fillSame s k c
      ((c.start.fillPrimary k c).selfLevel k c))))).rest k c D_TOP).rest k c D_SELF := by
    unfold spread
    rw [hgas]
    rfl
  obtain ⟨st₂, hst₂⟩ : ∃ st₂, (c.start.fillPrimary k c).selfLevel k c = st₂ := ⟨_, rfl⟩
  rw [hst₂] at hsplit hopen₂ htotal₂ hsum₂ hwant₂ hbelow₂ hspread
  -- the same level
  have hopen₃ : Open k.plain c (st₂.fillSame s k c) := open_fillSame (s := s) hk' hopen₂
  have hzero : ∀ ir ∈ sameDirs, st₂.want (randomDir s 1 ir) ≤ 0 := by
    intro ir hir
    have hne : randomDir s 1 ir ≠ D_BOTTOM := fun heq => hbottom (heq ▸ randomDir_mem s 1 hir)
    rw [hwant₂ _ hne]
    exact wanted_start hr.sound _
  obtain ⟨hsum₃, hbeside, hother₃⟩ :
      (st₂.fillSame s k c).total + (st₂.fillSame s k c).sumWant =
        st₂.total + st₂.sumWant + liquidCount c (sameDirs.map (randomDir s 1)) * st₂.want_level ∧
      (∀ ir ∈ sameDirs, (c.neighbors (randomDir s 1 ir)).liquid = true →
        0 ≤ (st₂.fillSame s k c).want (randomDir s 1 ir)) ∧
      ∀ j, j ∉ sameDirs.map (randomDir s 1) → (st₂.fillSame s k c).want j = st₂.want j := by
    have hplain := sumWant_foldl (s := s) hk' hopen₂ (fun _ h => h) (nodup_randomDir s 1) hzero
    exact hplain
  have hother₃' : ∀ j, j ∉ sameDirs → (st₂.fillSame s k c).want j = st₂.want j := by
    intro j hj
    refine hother₃ j fun hmem => hj ?_
    obtain ⟨ir, hir, rfl⟩ := List.mem_map.mp hmem
    exact randomDir_mem s 1 hir
  obtain ⟨hsum₄, hwant₄⟩ :
      ((st₂.fillSame s k c).fillRest s k).total + ((st₂.fillSame s k c).fillRest s k).sumWant =
        (st₂.fillSame s k c).total + (st₂.fillSame s k c).sumWant ∧
      ∀ j, (0 ≤ (st₂.fillSame s k c).want j → 0 ≤ ((st₂.fillSame s k c).fillRest s k).want j) ∧
        (j ∉ sameDirs → ((st₂.fillSame s k c).fillRest s k).want j =
          (st₂.fillSame s k c).want j) := by
    have hplain := sumWant_fillRest (s := s) hk' hopen₃
    exact hplain
  have hopen₄ : Open k.plain c ((st₂.fillSame s k c).fillRest s k) :=
    open_fillRest (s := s) hk' hopen₃
  have hleft : ((st₂.fillSame s k c).fillRest s k).total ≤
      k.level_max * (1 + c.liquid_levels_want D_TOP) := by
    have hplain := left_fillRest (s := s) hr' hopen₂ hsplit
    exact hplain
  have hreached₄ : ∀ i, i ≠ D_TOP → (c.neighbors i).liquid = true →
      0 ≤ ((st₂.fillSame s k c).fillRest s k).want i := by
    intro i hi hl
    refine (hwant₄ i).1 ?_
    rcases hplaces i hi with rfl | hsame
    · rw [hother₃' _ hbottom]
      exact hbelow₂ hl
    · obtain ⟨ir, hir, rfl⟩ := List.mem_map.mp (exists_randomDir s 1 hsame)
      exact hbeside ir hir hl
  have htop₄ : ((st₂.fillSame s k c).fillRest s k).want D_TOP = c.liquid_levels_want D_TOP := by
    rw [(hwant₄ D_TOP).2 htop, hother₃' _ htop, hwant₂ _ (by decide)]
  have hall₄ : (∀ i, i ≠ D_TOP → (c.neighbors i).liquid = true → c.liquid_levels_want i = 0) →
      ((st₂.fillSame s k c).fillRest s k).total + ((st₂.fillSame s k c).fillRest s k).sumWant =
        c.total_level := by
    intro hall
    have hcount := same_eq_count hr.sound s fun i hi hl =>
      hall i (fun heq => htop (heq ▸ hi)) hl
    rw [hsum₄, hsum₃, htotal₂, hsum₂, ← hcount, ← hsum₁]
    ring
  obtain ⟨st₄, hst₄⟩ : ∃ st₄, (st₂.fillSame s k c).fillRest s k = st₄ := ⟨_, rfl⟩
  rw [hst₄] at hspread hopen₄ hleft hreached₄ htop₄ hall₄
  -- the places above and below
  obtain ⟨hinv₅, htotal₅⟩ := plain_fillSecondary (s := s) hr hopen₄ hleft
  have hempty : (press k c (fillSecondary s k c st₄)).total ≤ 0 :=
    ((total_press _).trans htotal₅).le
  rw [rest_of_empty hempty, rest_of_empty hempty] at hspread
  have hcases := fillSecondary_cases (s := s) hr hopen₄ hleft
  have hreached₅ : ∀ i, i ≠ D_TOP → (c.neighbors i).liquid = true →
      0 ≤ (fillSecondary s k c st₄).want i := by
    intro i hi hl
    rcases hcases with ⟨-, heq⟩ | ⟨-, -, -, heq⟩
    · rw [heq]
      exact hreached₄ i hi hl
    · rw [heq]
      show 0 ≤ Function.update st₄.want D_TOP _ i
      rw [Function.update_of_ne hi]
      exact hreached₄ i hi hl
  have hpressed : Sharp k c (press k c (fillSecondary s k c st₄)) :=
    ⟨inv_press hr hinv₅.of_plain, fun i hi => press_le hinv₅ hr.proper hi⟩
  rw [hspread]
  refine ⟨hpressed, fun i hi hl => want_press hr.proper hinv₅ (hreached₅ i hi hl), fun hw => ?_,
    fun hall => ?_⟩
  · rcases hcases with ⟨-, heq⟩ | ⟨-, -, hcounted, -⟩
    · rw [heq] at hinv₅ ⊢
      rw [press_of_top hinv₅ (htop₄.trans hw), htop₄, hw]
    · rw [hw] at hcounted
      cases hcounted
  · rw [sumWant_press hr hinv₅ (hreached₅ D_BOTTOM (by decide)), ← hall₄ hall]
    rcases hcases with ⟨hnone, heq⟩ | ⟨hsome, hle, hcounted, heq⟩
    · rw [heq, hnone, zero_add]
    · have hput := sumWant_put hk' hopen₄.inv hsome.le (by rw [k.bound_plain]; exact hle)
        hopen₄.top le_rfl
      rw [sub_self] at hput
      rw [heq, ← hput]
      show _ = s16 0 + _
      rw [s16_eq (by decide) (by decide), zero_add]

end Levels

/-! ## Conservation -/

def volume (ndef : Content → ContentFeatures) (nodes : Dir → MapNode) : ℤ :=
  ∑ i, liquidLevel ndef (nodes i)

/-- The cell of an iteration that goes on after it was collected. -/
def Goes (ndef : Content → ContentFeatures) (meltLevel : UInt8 → UInt8 → UInt8 → ℤ)
    (settable : Bool) (s : Setting) (nodes : Dir → MapNode) (c : Cell) : Prop :=
  collect ndef meltLevel settable s.loopcount nodes = some c ∧ skips c = false

def finalWant (ndef : Content → ContentFeatures) (s : Setting) (c : Cell) : Dir → ℤ :=
  (runPhases (phases s (kindOf ndef s c) c) c.start).want

/-- The volume is kept: no liquid is overwritten that was not counted, and what was counted was
counted once. -/
structure Conserves (ndef : Content → ContentFeatures) (meltLevel : UInt8 → UInt8 → UInt8 → ℤ)
    (settable : Bool) (s : Setting) (nodes : Dir → MapNode) : Prop where
  volume : volume ndef (iteration ndef meltLevel settable s nodes) = volume ndef nodes
  counted : ∀ c, Goes ndef meltLevel settable s nodes c → ∀ i,
    c.isWritten (finalWant ndef s c) i = true → c.liquid_levels_want i = 0
  once : ∀ c, Goes ndef meltLevel settable s nodes c →
    c.total_level = ∑ i, if c.liquid_levels_want i = 0 then liquidLevel ndef (nodes i) else 0

/-- An iteration in which no special rule fires, with levels that are at most the maximum and that
are read as they are written. -/
structure Regular (ndef : Content → ContentFeatures) (s : Setting) (nodes : Dir → MapNode)
    (c : Cell) : Prop where
  leveled : (ndef c.liquid_kind_flowing).leveled ≤ 127
  keeps : KeepsLevels ndef (kindOf ndef s c) c.liquid_kind_flowing
  levels : ∀ i, c.liquid_levels_want i = 0 →
    liquidLevel ndef (nodes i) ≤ (kindOf ndef s c).level_max
  idle : RulesIdle ndef s (kindOf ndef s c) c nodes

/-- No stable liquid lies where liquid is put without asking: below and beside the node, and
anywhere around a gas. -/
def Spared (k : Kind) (c : Cell) : Prop :=
  ∀ i, k.gas = true ∨ i ≠ D_TOP → (c.neighbors i).liquid = true → c.liquid_levels_want i = 0

theorem Regular.level_eq (hreg : Regular ndef s nodes c) (hc : c.Sound nodes)
    (hcounts : ∀ i, CountsAt ndef nodes c i) (hi : c.liquid_levels_want i = 0) :
    c.liquid_levels i = liquidLevel ndef (nodes i) := by
  have hle := hreg.levels i hi
  have hbound := (proper_kindOf (s := s) (c := c) ndef hreg.leveled).bound_le
  have hmax := (kindOf ndef s c).le_bound
  unfold liquidLevel at hle ⊢
  split_ifs at hle ⊢ with htype
  · exact (hcounts i).air hi htype (hreg.idle.solid i ((hc.seen i).liquid hi) htype)
  · rw [(hcounts i).level hi htype, s8_eq (by omega) (by omega)]

theorem Regular.atMost (hreg : Regular ndef s nodes c) (hc : c.Sound nodes)
    (hcounts : ∀ i, CountsAt ndef nodes c i) :
    Levels.AtMost c (kindOf ndef s c).level_max := by
  intro i
  rcases (hc.seen i).wanted with hw | hw
  · rw [hreg.level_eq hc hcounts hw]
    exact hreg.levels i hw
  · have hnonneg := (proper_kindOf (s := s) (c := c) ndef hreg.leveled).nonneg
    have hnot : ¬0 < c.liquid_levels i := fun hpos => by
      have hcounted := (hc.seen i).positive hpos
      omega
    omega

theorem liquidLevel_nonneg (ndef : Content → ContentFeatures) (n : MapNode) :
    0 ≤ liquidLevel ndef n := by
  unfold liquidLevel
  split_ifs
  · exact le_rfl
  · exact Int.natCast_nonneg _

/-- What is collected is the liquid of the nodes that take part. -/
theorem Regular.total_eq (hreg : Regular ndef s nodes c) (hc : c.Sound nodes)
    (hcounts : ∀ i, CountsAt ndef nodes c i) :
    c.total_level = ∑ i, if c.liquid_levels_want i = 0 then liquidLevel ndef (nodes i) else 0 := by
  rw [hc.total]
  refine Finset.sum_congr rfl fun i _ => ?_
  split_ifs with hw
  · rw [hreg.level_eq hc hcounts hw]
    exact max_eq_left (liquidLevel_nonneg ndef _)
  · exact max_eq_right (not_lt.mp fun hpos => hw ((hc.seen i).positive hpos))

/-- The levels that are wanted in the end of a regular iteration. -/
theorem Regular.spread (hreg : Regular ndef s nodes c)
    (hc : collect ndef meltLevel settable s.loopcount nodes = some c) (hskip : skips c = false) :
    Levels.Sharp (kindOf ndef s c) c (Levels.spread s (kindOf ndef s c) c) ∧
      ((kindOf ndef s c).gas = false →
        Levels.Spread (kindOf ndef s c) c (Levels.spread s (kindOf ndef s c) c)) ∧
      (Spared (kindOf ndef s c) c →
        (Levels.spread s (kindOf ndef s c) c).sumWant = c.total_level ∧
        ∀ i, c.liquid_levels_want i = -1 →
          (Levels.spread s (kindOf ndef s c) c).want i = -1) := by
  have hsound := collect_sound hc
  have hlevel := hreg.atMost hsound (collect_counts hc)
  have hr := ready_of_levels hc hskip hreg.leveled hlevel
  cases hgas : (kindOf ndef s c).gas with
  | true =>
    have hfill := Levels.inv_fillGas (s := s) (Kind.proper_plain hr.proper)
      (Levels.inv_start (Kind.proper_plain hr.proper) hr.sound)
    have hzero := Levels.total_fillGas (s := s) hr hlevel
    have heq : Levels.spread s (kindOf ndef s c) c = c.start.fillGas s (kindOf ndef s c) c := by
      unfold Levels.spread
      rw [hgas, if_pos rfl, Levels.rest_of_empty hzero.le, Levels.rest_of_empty hzero.le]
    have hinv : Levels.Inv (kindOf ndef s c).plain c (Levels.spread s (kindOf ndef s c) c) := by
      rw [heq]
      exact hfill
    refine ⟨hinv.sharp, fun h => (by cases h), fun hspared => ?_⟩
    have hall : ∀ i, (c.neighbors i).liquid = true → c.liquid_levels_want i = 0 := fun i hl =>
      hspared i (.inl hgas) hl
    refine ⟨?_, fun i hi => hinv.dry i ?_⟩
    · have hsum := Levels.sumWant_fillGas (s := s) hr hall
      rw [heq]
      omega
    · cases hl : (c.neighbors i).liquid with
      | false => rfl
      | true =>
        have hcounted := hall i hl
        omega
  | false =>
    have hspread := Levels.spread_liquid hr hlevel hgas hreg.idle
    refine ⟨hspread.sharp, fun _ => hspread, fun hspared => ⟨hspread.sum fun i hi hl =>
      hspared i (.inr hi) hl, fun i hi => ?_⟩⟩
    by_cases htop : i = D_TOP
    · rw [htop] at hi ⊢
      exact hspread.top hi
    · refine hspread.sharp.inv.dry i ?_
      cases hl : (c.neighbors i).liquid with
      | false => rfl
      | true =>
        have hcounted := hspared i (.inr htop) hl
        omega

/-- The level of a node after the write-back: what is wanted, where it was counted. -/
theorem Regular.level_after (hreg : Regular ndef s nodes c)
    (hc : collect ndef meltLevel settable s.loopcount nodes = some c) (hskip : skips c = false)
    (hspared : Spared (kindOf ndef s c) c) (i : Dir) :
    liquidLevel ndef (writeBack ndef s c (Levels.spread s (kindOf ndef s c) c).want nodes i) =
      if c.liquid_levels_want i = 0 then (Levels.spread s (kindOf ndef s c) c).want i
      else liquidLevel ndef (nodes i) := by
  obtain ⟨hsharp, -, hspread⟩ := hreg.spread hc hskip
  have hsound := collect_sound hc
  rw [writeBack_apply]
  by_cases hi : c.liquid_levels_want i = 0
  · rw [if_pos hi]
    have hwant := hsharp.inv.counted i hi
    have hl : (c.neighbors i).liquid = true := (hsound.seen i).liquid hi
    by_cases hw : c.isWritten (Levels.spread s (kindOf ndef s c) c).want i = true
    · rw [if_pos hw]
      exact hreg.keeps _ _ rfl hwant (hsharp.inv.high i)
    · rw [if_neg hw, ← hreg.level_eq hsound (collect_counts hc) hi]
      by_contra hne
      exact hw (by simp [isWritten, hwant, hl, hne])
  · have hnot : c.liquid_levels_want i = -1 := (hsound.seen i).wanted.resolve_left hi
    have hwant := (hspread hspared).2 i hnot
    rw [if_neg hi, if_neg fun hw => by simp [isWritten, hwant] at hw]

theorem volume_swap (ndef : Content → ContentFeatures) (nodes : Dir → MapNode) (i j : Dir) :
    volume ndef (nodes ∘ Equiv.swap i j) = volume ndef nodes :=
  Equiv.sum_comp (Equiv.swap i j) fun i => liquidLevel ndef (nodes i)

theorem Regular.volume_writeBack (hreg : Regular ndef s nodes c)
    (hc : collect ndef meltLevel settable s.loopcount nodes = some c) (hskip : skips c = false)
    (hspared : Spared (kindOf ndef s c) c) :
    volume ndef (writeBack ndef s c (Levels.spread s (kindOf ndef s c) c).want nodes) =
      volume ndef nodes := by
  obtain ⟨hsharp, -, hspread⟩ := hreg.spread hc hskip
  obtain ⟨hsum, hdry⟩ := hspread hspared
  have hsound := collect_sound hc
  have htotal := hreg.total_eq hsound (collect_counts hc)
  have hwanted : (Levels.spread s (kindOf ndef s c) c).sumWant = ∑ i,
      if c.liquid_levels_want i = 0 then (Levels.spread s (kindOf ndef s c) c).want i else 0 := by
    refine Finset.sum_congr rfl fun i _ => ?_
    split_ifs with hi
    · exact max_eq_left (hsharp.inv.counted i hi)
    · rw [hdry i ((hsound.seen i).wanted.resolve_left hi)]
      rfl
  have hsplit : ∀ f : Dir → ℤ, (∑ i, if c.liquid_levels_want i = 0 then f i
      else liquidLevel ndef (nodes i)) = (∑ i, if c.liquid_levels_want i = 0 then f i else 0) +
        ∑ i, if c.liquid_levels_want i = 0 then 0 else liquidLevel ndef (nodes i) := by
    intro f
    rw [← Finset.sum_add_distrib]
    refine Finset.sum_congr rfl fun i _ => ?_
    split_ifs <;> ring
  have hbefore := hsplit fun i => liquidLevel ndef (nodes i)
  simp only [ite_self] at hbefore
  unfold volume
  rw [Finset.sum_congr rfl fun i _ => hreg.level_after hc hskip hspared i, hsplit, ← hwanted, hsum,
    htotal, hbefore]

/-- Stable liquid below or beside a liquid that is no gas is overwritten. -/
theorem Regular.isWritten_of_stable (hreg : Regular ndef s nodes c)
    (hc : Goes ndef meltLevel settable s nodes c) (hgas : (kindOf ndef s c).gas = false)
    (hi : i ≠ D_TOP) (hl : (c.neighbors i).liquid = true)
    (hstable : c.liquid_levels_want i = -1) : c.isWritten (finalWant ndef s c) i = true := by
  have hreached := ((hreg.spread hc.1 hc.2).2.1 hgas).reached i hi hl
  have hlevel := (collect_counts hc.1 i).stable hstable hl
  have hne : c.liquid_levels i ≠ (Levels.spread s (kindOf ndef s c) c).want i := by omega
  unfold finalWant
  rw [runPhases_idle hreg.idle]
  simp [isWritten, hreached, hl, hne]

theorem and_or_mask (a p mask : UInt8) (hmask : LEVELED_MAX &&& mask = mask) :
    (a &&& LEVELED_MAX ||| p &&& ~~~LEVELED_MAX) &&& mask = a &&& mask := by
  have hnot : ~~~LEVELED_MAX &&& mask = 0 := by
    rw [← hmask, ← UInt8.and_assoc, UInt8.and_comm (~~~LEVELED_MAX), UInt8.and_not_self,
      UInt8.zero_and]
  have hdistrib : (a &&& LEVELED_MAX ||| p &&& ~~~LEVELED_MAX) &&& mask =
      (a &&& LEVELED_MAX) &&& mask ||| (p &&& ~~~LEVELED_MAX) &&& mask := by
    apply UInt8.toBitVec_inj.mp
    simp only [UInt8.toBitVec_and, UInt8.toBitVec_or]
    exact BitVec.and_or_distrib_right
  rw [hdistrib, UInt8.and_assoc, hmask, UInt8.and_assoc, hnot, UInt8.and_zero, UInt8.or_zero]

/-- A liquid with eight levels, which keeps its source as a content of its own. -/
structure Classic (ndef : Content → ContentFeatures) (flowing source : Content) : Prop where
  air : (ndef CONTENT_AIR).liquid_type = .none
  flows : (ndef flowing).liquid_type = .flowing
  param : (ndef flowing).param_type_2 = .flowingliquid
  leveled : (ndef flowing).leveled = 0
  alternative : (ndef flowing).liquid_alternative_flowing_id = flowing
  sourceOf : (ndef flowing).liquid_alternative_source_id = source
  loaded : flowing ≠ CONTENT_IGNORE ∧ source ≠ CONTENT_IGNORE
  springs : (ndef source).liquid_type = .source
  plain : (ndef source).param_type_2 ≠ .leveled ∧ (ndef source).leveled = 0
  unleveled : (ndef (ndef source).liquid_alternative_flowing).param_type_2 ≠ .leveled

theorem Classic.getMaxLevel {flowing source : Content} (h : Classic ndef flowing source)
    (compress : Bool) : (ndef flowing).getMaxLevel compress = LIQUID_LEVEL_SOURCE := by
  unfold ContentFeatures.getMaxLevel
  rw [h.leveled, h.param]
  simp

/-- Such a liquid is read as it is written. -/
theorem Classic.keepsLevels {flowing source : Content} (h : Classic ndef flowing source)
    (hbound : k.bound ≤ 8) : KeepsLevels ndef k flowing := by
  intro n w hn hw hle
  have hsource : (LIQUID_LEVEL_SOURCE.toNat : ℤ) = 8 := by decide
  have hmask : LEVELED_MAX &&& LIQUID_LEVEL_MASK = LIQUID_LEVEL_MASK := by decide
  unfold setLevel
  dsimp only
  rw [hn, h.getMaxLevel, h.getMaxLevel, hsource, h.param, h.flows, h.sourceOf, h.alternative]
  simp only [reduceCtorEq, true_or, or_true, if_true, if_false, h.loaded.1, h.loaded.2, ne_eq,
    not_false_eq_true, if_neg (not_lt.mpr hw), min_eq_left (hle.trans hbound)]
  by_cases hzero : w = 0
  · rw [if_pos hzero, hzero]
    simp [liquidLevel, h.air]
  · rw [if_neg hzero]
    by_cases hfull : 8 ≤ w
    · have hw8 : w = 8 := by omega
      rw [if_pos hfull, hw8]
      simp [liquidLevel, getLevel, h.springs, h.plain.1, h.plain.2, h.unleveled, hsource]
    · rw [if_neg hfull]
      have hlow : (UInt8.ofNat w.toNat &&& LIQUID_LEVEL_MASK).toNat = w.toNat := by
        have hlt : w.toNat < 8 := by omega
        generalize w.toNat = m at hlt ⊢
        interval_cases m <;> decide
      simp [liquidLevel, getLevel, h.flows, h.param, h.leveled, and_or_mask _ _ _ hmask, hlow, hw]

def water (content : Content) : ContentFeatures where
  liquid_type := if content = 5 then .source else if content = 6 then .flowing else .none
  liquid_alternative_flowing := if content = 5 ∨ content = 6 then 6 else CONTENT_IGNORE
  liquid_alternative_flowing_id := if content = 5 ∨ content = 6 then 6 else CONTENT_IGNORE
  liquid_alternative_source_id := if content = 5 ∨ content = 6 then 5 else CONTENT_IGNORE
  melt_id := CONTENT_IGNORE
  param_type_2 := if content = 6 then .flowingliquid else .other
  leveled := 0
  leveled_max := 127
  liquid_renewable := false
  drop_by_liquid := 0
  weight := 0
  gas := 0
  pressure := 0
  falling_node := 0
  float_height := none

theorem classic_water : Classic water 6 5 := by
  constructor <;> decide

def sourceOver (below : MapNode) (i : Dir) : MapNode :=
  if i = D_SELF then { param0 := 5 } else if i = D_BOTTOM then below else { param0 := 9 }

def cellOver (below : MapNode) : Cell :=
  (collect water (fun _ _ _ => 0) true 1 (sourceOver below)).getD {}

theorem collect_sourceOver (below : MapNode)
    (h : below ∈ [({ param0 := CONTENT_AIR } : MapNode), { param0 := 5, param2 := 0x40 }]) :
    collect water (fun _ _ _ => 0) true 1 (sourceOver below) = some (cellOver below) := by
  rcases List.mem_pair.mp h with rfl | rfl
  · rfl
  · rfl

/-- Without infinite liquid and fast flooding, liquid that is not renewed and lies above a node that
is there is left to the distribution. -/
theorem rulesIdle_of_calm (hsolid : ∀ i, (c.neighbors i).liquid = true →
      (ndef (nodes i).param0).liquid_type = .none → (nodes i).param0 = CONTENT_AIR)
    (hrenew : k.liquid_renewable = false) (hbelow : loaded (c.neighbors D_BOTTOM).node = true)
    (hinf : ∀ i, (c.neighbors i).infinity = false) (hfast : s.fast_flood = 0) :
    RulesIdle ndef s k c nodes where
  solid := hsolid
  relaxUp _ := by
    unfold Levels.relaxUp
    rw [if_neg (by simp [hrenew])]
  aboveUnloaded _ := by
    unfold Levels.aboveUnloaded
    rw [if_neg (by simp [hbelow])]
  relaxDown _ := by
    unfold Levels.relaxDown
    rw [if_neg (by simp [hrenew])]
  flood := by
    unfold Levels.flood
    refine List.foldlRecOn (motive := fun st => st = Levels.spread s k c) _ _ rfl
      fun st hst i _ => ?_
    unfold Levels.floodStep
    rw [hinf, if_neg (by simp), if_neg (by simp [hfast])]
    exact hst

theorem regular_sourceOver (below : MapNode)
    (h : below ∈ [({ param0 := CONTENT_AIR } : MapNode), { param0 := 5, param2 := 0x40 }]) :
    Regular water still (sourceOver below) (cellOver below) := by
  rcases List.mem_pair.mp h with rfl | rfl
  · exact ⟨by decide, classic_water.keepsLevels (by decide), by decide,
      rulesIdle_of_calm (by decide) rfl (by decide) (by decide) rfl⟩
  · exact ⟨by decide, classic_water.keepsLevels (by decide), by decide,
      rulesIdle_of_calm (by decide) rfl (by decide) (by decide) rfl⟩

theorem goes_sourceOver {below : MapNode}
    (h : below ∈ [({ param0 := CONTENT_AIR } : MapNode), { param0 := 5, param2 := 0x40 }])
    (hc : Goes water (fun _ _ _ => 0) true still (sourceOver below) c) : c = cellOver below :=
  Option.some.inj (hc.1.symm.trans (collect_sourceOver below h))

end Freeminer.Liquid
