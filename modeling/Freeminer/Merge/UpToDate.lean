import Freeminer.Merge.WorldMerger

/-! The blocks of the coarser steps after a merge: each that holds a changed block is merged from the
blocks of the step below as they are now, and all are what a merge of the whole world gives. -/

namespace Freeminer.Merge

open Lib
open Block (MapNode CONTENT_IGNORE)
open Voxel (V3)

/-! ### Levels -/

def MergeState.level (w : MergeState) (step : ℕ) (q : V3) : Option FarContents :=
  (nblock w.smap (w.dbs step) step q).map MapBlock.toFarContents

/-- A merged block from the blocks of the step below, started from nothing. -/
def build (r : MergeRules) (step : ℕ) (block : V3 → Option FarContents) (a : V3) :
    Option FarContents :=
  if align step a = a then
    r.mergeContents step a (sources block step a) MergeRules.blankData
  else none

/-- The blocks of all steps, merged from scratch from those of the world. -/
def scratch (r : MergeRules) (world : V3 → Option FarContents) : ℕ → V3 → Option FarContents :=
  pyramid (build r) world

/-- All coarser blocks are what a merge of the whole world gives. -/
def UpToDate (r : MergeRules) (w : MergeState) : Prop :=
  ∀ s ≤ FARMESH_STEP_MAX - 1, w.level s = scratch r (w.level 0) s

section Align

variable {step : ℕ} {a rpos : V3}

theorem mul_ediv_part {k r : ℤ} (step : ℕ) (hr : r = 0 ∨ r = 1) :
    (k * 2 ^ (step + 1) + r * 2 ^ step) / 2 ^ (step + 1) = k := by
  have hpos : (0 : ℤ) < 2 ^ step := by positivity
  have hsucc : (2 : ℤ) ^ (step + 1) = 2 * 2 ^ step := by ring
  rw [add_comm, Int.add_mul_ediv_right _ _ (by positivity)]
  rw [Int.ediv_eq_zero_of_lt, zero_add]
  · rcases hr with rfl | rfl <;> omega
  · rcases hr with rfl | rfl <;> omega

@[simp] theorem align_align (step : ℕ) (p : V3) : align step (align step p) = align step p := by
  unfold align
  simp only [V3.mk.injEq]
  have hpos : (2 : ℤ) ^ (step + 1) ≠ 0 := by positivity
  simp only [Int.mul_ediv_cancel _ hpos, and_self]

/-- The eight blocks belong to the block they are merged into. -/
theorem align_sourcePos (ha : align step a = a) (hr : rpos ∈ eight) :
    align step (sourcePos step a rpos) = a := by
  have hcoord : ∀ x r : ℤ, x / 2 ^ (step + 1) * 2 ^ (step + 1) = x → r = 0 ∨ r = 1 →
      (x + r * 2 ^ step) / 2 ^ (step + 1) * 2 ^ (step + 1) = x := by
    intro x r hx hr01
    rw [← hx, mul_ediv_part step hr01]
  obtain ⟨X, Y, Z⟩ := a
  obtain ⟨rx, ry, rz⟩ := rpos
  simp only [align, V3.mk.injEq] at ha
  have hbits : (rx = 0 ∨ rx = 1) ∧ (ry = 0 ∨ ry = 1) ∧ (rz = 0 ∨ rz = 1) := by
    simp only [eight, List.mem_cons, V3.mk.injEq, List.not_mem_nil, or_false] at hr
    omega
  simp only [align, sourcePos, V3.mk.injEq]
  exact ⟨hcoord X rx ha.1 hbits.1, hcoord Y ry ha.2.1 hbits.2.1, hcoord Z rz ha.2.2 hbits.2.2⟩

/-- The block of a step that holds a block of the world. -/
theorem align_succ (step : ℕ) (p : V3) : align (step + 1) (align step p) = align (step + 1) p := by
  have hcoord : ∀ x : ℤ, x / 2 ^ (step + 1) * 2 ^ (step + 1) / 2 ^ (step + 1 + 1) =
      x / 2 ^ (step + 1 + 1) := by
    intro x
    have hpos : (0 : ℤ) ≤ 2 ^ (step + 1) := by positivity
    rw [pow_succ (2 : ℤ) (step + 1), ← Int.ediv_ediv_of_nonneg hpos,
      ← Int.ediv_ediv_of_nonneg hpos, Int.mul_ediv_cancel _ (by positivity)]
  unfold align
  simp only [hcoord]

end Align

section Levels

variable {r : MergeRules} {m : WorldMerger} {w w' : MergeState} {step : ℕ} {a : V3}

theorem sources_congr {β : Type} {block block' : V3 → Option β}
    (h : ∀ rpos ∈ eight, block (sourcePos step a rpos) = block' (sourcePos step a rpos)) :
    sources block step a = sources block' step a := by
  unfold sources
  apply List.filterMap_congr
  intro rpos hr
  rw [h rpos hr]

theorem map_sources {β γ : Type} (f : β → γ) (block : V3 → Option β) (step : ℕ) (a : V3) :
    (sources block step a).map (fun b => (b.1, f b.2)) =
      sources (fun q => (block q).map f) step a := by
  unfold sources
  rw [List.map_filterMap]
  apply List.filterMap_congr
  intro rpos _
  simp only [Option.map_map]
  rfl

/-- A block is merged from those that belong to it. -/
theorem build_local (r : MergeRules) : Local align (build r) := by
  intro step g g' a h
  unfold build
  by_cases ha : align step a = a
  · rw [if_pos ha, if_pos ha]
    rw [sources_congr fun rpos hr => h _ (align_sourcePos ha hr)]
  · rw [if_neg ha, if_neg ha]

theorem level_succ (w : MergeState) (step : ℕ) (q : V3) : w.level (step + 1) q =
    (((w.dbs (step + 1)).lookup q).bind StoredBlock.load).map MapBlock.toFarContents := by
  unfold MergeState.level nblock loadBlock
  rw [if_neg (Nat.succ_ne_zero step)]

theorem level_zero (hsmap : w'.smap = w.smap) (hdbs : w'.dbs 0 = w.dbs 0) :
    w'.level 0 = w.level 0 := by
  funext q
  unfold MergeState.level
  rw [hsmap, hdbs]

def startData (m : WorldMerger) (w : MergeState) (step : ℕ) (a : V3) : V3 → MapNode :=
  ((m.blockUp (w.dbs (step + 1)) a).map fun b => b.data).getD MergeRules.blankData

def blocksBelow (w : MergeState) (step : ℕ) (a : V3) : List (V3 × MapBlock) :=
  sources (nblock w.smap (w.dbs step) step) step a

/-- The merge leaves the upper block, which is new enough. -/
structure LazilyKept (m : WorldMerger) (w w' : MergeState) (step : ℕ) (a : V3) : Prop where
  isLazy : m.isLazy (m.mergeTimestamp step a (blocksBelow w' step a)) (blocksBelow w' step a)
    (m.blockUp (w.dbs (step + 1)) a) = true
  level : w'.level (step + 1) a = w.level (step + 1) a

/-- The upper block is merged from the blocks of the step below as they are after the merge. -/
def Rebuilt (m : WorldMerger) (w w' : MergeState) (step : ℕ) (a : V3) : Prop :=
  w'.level (step + 1) a =
    m.rules.mergeContents step a (sources (w'.level step) step a) (startData m w step a)

theorem rebuilt_of_lookup (hsmap : w'.smap = w.smap)
    (h : (w'.dbs (step + 1)).lookup a =
      m.mergedEntry w.smap (w'.dbs step) ((w.dbs (step + 1)).lookup a) a step) :
    LazilyKept m w w' step a ∨ Rebuilt m w w' step a := by
  rw [← hsmap] at h
  unfold WorldMerger.mergedEntry at h
  by_cases hlazy : m.isLazy (m.mergeTimestamp step a (blocksBelow w' step a))
      (blocksBelow w' step a) (m.blockUp (w.dbs (step + 1)) a) = true
  · left
    refine ⟨hlazy, ?_⟩
    rw [level_succ, level_succ, h]
    exact congrArg (fun o => (Option.bind o StoredBlock.load).map MapBlock.toFarContents)
      (if_pos hlazy)
  · right
    unfold Rebuilt
    rw [level_succ, h]
    refine (congrArg (fun o => (Option.bind o StoredBlock.load).map MapBlock.toFarContents)
      (if_neg hlazy)).trans ?_
    rw [map_sources]
    unfold startData WorldMerger.blockUp loadBlock MergeState.level
    cases m.rules.mergeContents step a _ _ with
    | none => rfl
    | some contents => rfl

/-- What is not picked is left as it was before. -/
theorem mergeContents_start {blocks : MergeRules.Sources} {start start' : V3 → MapNode}
    (h : ∀ npos, r.pick blocks npos = none → start npos = start' npos) :
    r.mergeContents step a blocks start = r.mergeContents step a blocks start' := by
  have hnodes : r.mergeNodes blocks start = r.mergeNodes blocks start' := by
    funext npos
    unfold MergeRules.mergeNodes
    cases hpick : r.pick blocks npos with
    | none => exact h npos hpick
    | some n => rfl
  unfold MergeRules.mergeContents
  rw [hnodes]

theorem mergeContents_nil (r : MergeRules) (step : ℕ) (a : V3) (start : V3 → MapNode) :
    r.mergeContents step a [] start = none := by
  unfold MergeRules.mergeContents
  rw [if_neg]
  rw [not_not, MergeRules.notEmptyNodes, List.countP_eq_zero]
  intro npos _
  simp [MergeRules.pick]

theorem sources_none {β : Type} (step : ℕ) (a : V3) :
    sources (fun _ => (none : Option β)) step a = [] := by
  unfold sources
  rw [List.filterMap_eq_nil_iff]
  intro rpos _
  rfl

theorem scratch_none (r : MergeRules) (s : ℕ) : scratch r (fun _ => none) s = fun _ => none := by
  unfold scratch
  induction s with
  | zero => rfl
  | succ s ih =>
    rw [pyramid_succ, ih]
    funext a
    unfold build
    rw [sources_none, mergeContents_nil, ite_self]

end Levels

/-! ### The merge -/

/-- Where the world of before gives a node of a merged block, the world of now gives one. -/
def PicksKept (r : MergeRules) (world world' : V3 → Option FarContents) : Prop :=
  ∀ s < FARMESH_STEP_MAX - 1, ∀ a npos,
    r.pick (sources (scratch r world' s) s a) npos = none →
      r.pick (sources (scratch r world s) s a) npos = none

/-- Where the world of before gives a merged block, the world of now gives one. -/
def BlocksKept (r : MergeRules) (world world' : V3 → Option FarContents) : Prop :=
  ∀ s < FARMESH_STEP_MAX - 1, ∀ a,
    scratch r world' (s + 1) a = none → scratch r world (s + 1) a = none

section Merge

variable {m : WorldMerger} {w w' w₀ : MergeState} {step : ℕ} {a : V3} {todo : ℕ → Finset V3}

/-- A merge into a block that was right starts from nothing that is not picked again. -/
theorem startData_eq {world world' : V3 → Option FarContents} {npos : V3}
    (hold : w.level (step + 1) a = scratch m.rules world (step + 1) a)
    (hpicks : m.isPartial = true → PicksKept m.rules world world') (hstep : step < FARMESH_STEP_MAX - 1)
    (hnone : m.rules.pick (sources (scratch m.rules world' step) step a) npos = none) :
    startData m w step a npos = MergeRules.blankData npos := by
  unfold startData WorldMerger.blockUp
  by_cases hpartial : m.isPartial = true
  swap
  · rw [if_neg hpartial]
    rfl
  rw [if_pos hpartial]
  unfold loadBlock
  cases hload : ((w.dbs (step + 1)).lookup a).bind StoredBlock.load with
  | none => rfl
  | some b =>
    rw [level_succ, hload, scratch, pyramid_succ, build] at hold
    by_cases ha : align step a = a
    swap
    · rw [if_neg ha] at hold
      simp at hold
    rw [if_pos ha, MergeRules.mergeContents] at hold
    by_cases hempty : m.rules.notEmptyNodes
        (sources (pyramid (build m.rules) world step) step a) = 0
    · rw [if_neg (not_not_intro hempty)] at hold
      simp at hold
    rw [if_pos hempty, Option.map_some, Option.some.injEq] at hold
    have hdata : b.data npos = m.rules.mergeNodes
        (sources (pyramid (build m.rules) world step) step a) MergeRules.blankData npos := by
      rw [show b.data = b.toFarContents.data from rfl, hold]
    have hbefore := hpicks hpartial step hstep a npos hnone
    rw [scratch] at hbefore
    rw [Option.map_some, Option.getD_some, hdata, MergeRules.mergeNodes, hbefore]
    rfl

theorem isLazy_eq_false {timestamp : ℕ} {blocks : List (V3 × MapBlock)} (h : m.lazyUp = 0)
    (blockUp : Option MapBlock) : m.isLazy timestamp blocks blockUp = false := by
  unfold WorldMerger.isLazy
  cases blockUp with
  | none => rfl
  | some b => simp [withinLazyWindow, h]

theorem blockUp_eq_none {dbaseUp : MapDatabase} (h : m.isPartial = false ∨ dbaseUp = ∅) :
    m.blockUp dbaseUp a = none := by
  unfold WorldMerger.blockUp loadBlock
  rcases h with h | rfl
  · rw [if_neg (by rw [h]; decide)]
  · rw [Finmap.lookup_empty, Option.bind_none, ite_self]

/-- Blocks that were right before some of the world changed are right after a merge that goes through
what changed. -/
theorem MergedAll.upToDate (h : MergedAll m 0 (FARMESH_STEP_MAX - 1) todo w w')
    (hlazy : ∀ s < FARMESH_STEP_MAX - 1, ∀ a, ¬LazilyKept m w w' s a)
    (hold : UpToDate m.rules w₀) (hdbs : ∀ s, w.dbs (s + 1) = w₀.dbs (s + 1))
    (hchanged : ∀ q ∉ todo 0, w₀.level 0 q = w.level 0 q)
    (hpicks : m.isPartial = true → PicksKept m.rules (w₀.level 0) (w.level 0))
    (hblocks : m.worldMergeLoadAll = 1 → BlocksKept m.rules (w₀.level 0) (w.level 0)) :
    UpToDate m.rules w' := by
  have hbase : w'.level 0 = w.level 0 := level_zero h.smap (h.dbs 0 le_rfl)
  have hup : ∀ s q, w.level (s + 1) q = w₀.level (s + 1) q := by
    intro s q
    rw [level_succ, level_succ, hdbs s]
  unfold UpToDate
  rw [hbase]
  refine (build_local m.rules).refresh (D := fun s => (todo s : Set V3)) hold hbase ?first ?next ?fresh
    ?keep
  case first =>
    intro q hq
    exact hchanged q fun hmem => hq (Finset.mem_coe.mpr hmem)
  case next =>
    intro s hs hlevel hclean q hq
    rw [Finset.mem_coe, h.next s (Nat.zero_le s) (by omega)] at hq
    unfold WorldMerger.stepTodo at hq
    by_cases hload : m.worldMergeLoadAll = 1
    · have hkeys : q ∉ (w'.dbs (s + 1)).keys := by
        rwa [WorldMerger.nextTodo, if_pos hload, if_pos ⟨by omega, rfl⟩] at hq
      rw [Finmap.mem_keys, ← Finmap.lookup_eq_none] at hkeys
      have hnone : pyramid (build m.rules) (w.level 0) (s + 1) q = none := by
        rw [← hlevel, level_succ, hkeys]
        rfl
      rw [hnone]
      exact hblocks hload s (by omega) q hnone
    · apply hclean
      rintro ⟨p, hp, rfl⟩
      have hmem : align s p ∈ m.nextTodo s (todo s) := by
        rw [WorldMerger.nextTodo, if_neg hload]
        exact Finset.mem_image_of_mem _ (Finset.mem_coe.mp hp)
      rw [if_neg fun hand => Finset.ne_empty_of_mem hmem hand.2] at hq
      exact hq hmem
  case fresh =>
    intro s hs hlevel a ha
    obtain ⟨p, hp, rfl⟩ := ha
    have himage : align s p ∈ (todo s).image (align s) :=
      Finset.mem_image_of_mem _ (Finset.mem_coe.mp hp)
    have hlookup := h.lookup s (Nat.zero_le s) (by omega) (align s p)
    rw [if_pos himage] at hlookup
    have hrebuilt := (rebuilt_of_lookup h.smap hlookup).resolve_left (hlazy s hs _)
    unfold Rebuilt at hrebuilt
    rw [hrebuilt, build, if_pos (align_align s p)]
    apply mergeContents_start
    intro npos hnone
    rw [hlevel] at hnone
    refine startData_eq ?_ hpicks hs hnone
    rw [hup, hold (s + 1) hs]
  case keep =>
    intro s hs a ha
    have hlookup := h.lookup s (Nat.zero_le s) (by omega) a
    have hnot : a ∉ (todo s).image (align s) := by
      intro hmem
      obtain ⟨p, hp, hpa⟩ := Finset.mem_image.mp hmem
      exact ha ⟨p, Finset.mem_coe.mpr hp, hpa⟩
    rw [if_neg hnot] at hlookup
    rw [level_succ, hlookup, ← level_succ, hup]

/-! ### From scratch -/

def emptyState : MergeState where
  smap _ := none
  dbs _ := ∅
  todo := ∅

theorem level_emptyState (s : ℕ) : emptyState.level s = fun _ => none := by
  funext q
  unfold MergeState.level nblock loadBlock emptyState
  rw [Finmap.lookup_empty]
  split_ifs <;> rfl

theorem upToDate_emptyState (r : MergeRules) : UpToDate r emptyState := by
  intro s _
  rw [level_emptyState, level_emptyState, scratch_none]

theorem picksKept_emptyState (r : MergeRules) (world : V3 → Option FarContents) :
    PicksKept r (emptyState.level 0) world := by
  intro s _ a npos _
  rw [level_emptyState, scratch_none, sources_none]
  rfl

theorem blocksKept_emptyState (r : MergeRules) (world : V3 → Option FarContents) :
    BlocksKept r (emptyState.level 0) world := by
  intro s _ a _
  rw [level_emptyState, scratch_none]

/-- With nothing merged before, a merge that goes through the world is a merge from scratch. -/
theorem MergedAll.upToDate_of_empty (h : MergedAll m 0 (FARMESH_STEP_MAX - 1) todo w w')
    (hdbs : ∀ s, w.dbs (s + 1) = ∅) (hworld : ∀ q ∉ todo 0, w.level 0 q = none) :
    UpToDate m.rules w' := by
  have hlazy : ∀ s < FARMESH_STEP_MAX - 1, ∀ a, ¬LazilyKept m w w' s a := by
    intro s _ a hkept
    have hisLazy := hkept.isLazy
    rw [hdbs s, blockUp_eq_none (.inr rfl)] at hisLazy
    exact absurd hisLazy Bool.false_ne_true
  refine h.upToDate hlazy (upToDate_emptyState m.rules) hdbs ?_
    (fun _ => picksKept_emptyState m.rules _) (fun _ => blocksKept_emptyState m.rules _)
  intro q hq
  rw [level_emptyState, hworld q hq]

/-! ### `merge_list` -/

/-- At each step one of the blocks that are gone through is in the coarser block of a changed one. -/
theorem MergedAll.exists_mem (h : MergedAll m 0 (FARMESH_STEP_MAX - 1) todo w w')
    (hload : m.worldMergeLoadAll ≠ 1) {p : V3} (hp : p ∈ todo 0) :
    ∀ s < FARMESH_STEP_MAX - 1, ∃ q ∈ todo s, align s q = align s p := by
  intro s
  induction s with
  | zero => exact fun _ => ⟨p, hp, rfl⟩
  | succ s ih =>
    intro hs
    obtain ⟨q, hq, hqp⟩ := ih (by omega)
    refine ⟨align s q, ?_, ?_⟩
    · have hmem : align s q ∈ m.nextTodo s (todo s) := by
        rw [WorldMerger.nextTodo, if_neg hload]
        exact Finset.mem_image_of_mem _ hq
      rw [h.next s (Nat.zero_le s) (by omega), WorldMerger.stepTodo,
        if_neg fun hand => Finset.ne_empty_of_mem hmem hand.2]
      exact hmem
    · rw [hqp, align_succ]

theorem MergedAll.rebuilt (h : MergedAll m 0 (FARMESH_STEP_MAX - 1) todo w w') {q : V3}
    (hstep : step < FARMESH_STEP_MAX - 1) (hq : q ∈ todo step) :
    LazilyKept m w w' step (align step q) ∨ Rebuilt m w w' step (align step q) := by
  have hlookup := h.lookup step (Nat.zero_le step) (by omega) (align step q)
  rw [if_pos (Finset.mem_image_of_mem _ hq)] at hlookup
  exact rebuilt_of_lookup h.smap hlookup

/-- With `world_merge_load_all` 1 each step after the first goes through all that is stored. -/
theorem MergedAll.mem_of_stored (h : MergedAll m 0 (FARMESH_STEP_MAX - 1) todo w w')
    (hload : m.worldMergeLoadAll = 1) {q : V3} (hpos : 0 < step)
    (hstep : step < FARMESH_STEP_MAX - 1) (hq : w'.level step q ≠ none) : q ∈ todo step := by
  obtain ⟨s, rfl⟩ := Nat.exists_eq_succ_of_ne_zero hpos.ne'
  rw [h.next s (Nat.zero_le s) (by omega), WorldMerger.stepTodo, WorldMerger.nextTodo, if_pos hload,
    if_pos ⟨by omega, rfl⟩, Finmap.mem_keys]
  by_contra hnot
  rw [← Finmap.lookup_eq_none] at hnot
  rw [level_succ, hnot] at hq
  exact hq rfl

/-- After a `merge_list` that was not stopped, each coarser block that holds a block that it went
through is merged from the blocks of the step below as they are now, or left for being new enough.
When none is, and nothing that was picked is lost, all are what a merge from scratch gives, and this
is what a first merge gives. -/
theorem mergeList_upToDate (h : m.mergeList w = (false, w')) :
    (m.worldMergeLoadAll ≠ 1 → ∀ p ∈ m.stepTodo w.todo (w.dbs 0),
      ∀ step < FARMESH_STEP_MAX - 1,
        LazilyKept m w w' step (align step p) ∨ Rebuilt m w w' step (align step p)) ∧
    (m.worldMergeLoadAll = 1 →
      (∀ p ∈ m.stepTodo w.todo (w.dbs 0),
        LazilyKept m w w' 0 (align 0 p) ∨ Rebuilt m w w' 0 (align 0 p)) ∧
      ∀ step, 0 < step → step < FARMESH_STEP_MAX - 1 → ∀ q, w'.level step q ≠ none →
        LazilyKept m w w' step (align step q) ∨ Rebuilt m w w' step (align step q)) ∧
    (m.lazyUp = 0 ∨ m.isPartial = false → ∀ w₀, UpToDate m.rules w₀ →
      (∀ s, w.dbs (s + 1) = w₀.dbs (s + 1)) →
      (∀ q ∉ m.stepTodo w.todo (w.dbs 0), w₀.level 0 q = w.level 0 q) →
      (m.isPartial = true → PicksKept m.rules (w₀.level 0) (w.level 0)) →
      (m.worldMergeLoadAll = 1 → BlocksKept m.rules (w₀.level 0) (w.level 0)) →
      UpToDate m.rules w') ∧
    ((∀ s, w.dbs (s + 1) = ∅) → (∀ q ∉ m.stepTodo w.todo (w.dbs 0), w.level 0 q = none) →
      UpToDate m.rules w') := by
  obtain ⟨todo, hall⟩ := mergeList_merged h
  have hfirst := hall.first
  rw [← hfirst]
  refine ⟨?_, ?_, ?_, ?_⟩
  · intro hload p hp step hstep
    obtain ⟨q, hq, hqp⟩ := hall.exists_mem hload hp step hstep
    rw [← hqp]
    exact hall.rebuilt hstep hq
  · intro hload
    refine ⟨fun p hp => hall.rebuilt (by decide) hp, ?_⟩
    intro step hpos hstep q hq
    exact hall.rebuilt hstep (hall.mem_of_stored hload hpos hstep hq)
  · intro hoption w₀ hold hdbs hchanged hpicks hblocks
    refine hall.upToDate ?_ hold hdbs hchanged hpicks hblocks
    intro s _ a hkept
    have hisLazy := hkept.isLazy
    rcases hoption with hlazyUp | hpartial
    · rw [isLazy_eq_false hlazyUp] at hisLazy
      exact absurd hisLazy Bool.false_ne_true
    · rw [blockUp_eq_none (.inl hpartial)] at hisLazy
      exact absurd hisLazy Bool.false_ne_true
  · intro hdbs hworld
    exact hall.upToDate_of_empty hdbs hworld

end Merge

/-! ### A world of one block -/

/-- Contents without light, and hash maps in the order of insertion. -/
def plainRules : MergeRules where
  ndef := {
    getLightingFlags _ := ⟨0, false, false, false, rfl, Nat.zero_le _⟩
    isLiquid _ := false
    lightSourceColor _ := 0 }
  farlights := false
  hashOrder l := l
  thinner _ _ := 0

def fullBlock (content : Block.Content) (timestamp : ℕ) : StoredBlock where
  data _ := { param0 := content }
  lightPoints := []
  timestamp := timestamp

/-- One changed block, with the upper block of before at step 1 when there is one. -/
def oneBlock (up : MapDatabase) : MergeState where
  smap _ := none
  dbs s := if s = 0 then Finmap.insert ⟨0, 0, 0⟩ (fullBlock 1 3) ∅ else if s = 1 then up else ∅
  todo := {⟨0, 0, 0⟩}

noncomputable def changesMerger (lazyUp : ℕ) : WorldMerger where
  rules := plainRules
  isPartial := true
  lazyUp := lazyUp
  todoOrder := SetOrder.any V3

theorem changesMerger_mergeList (lazyUp : ℕ) (w : MergeState) :
    (changesMerger lazyUp).mergeList w = (false, ((changesMerger lazyUp).mergeList w).2) := by
  apply mergeList_eq_false
  · exact fun _ => rfl
  · intro s _ hs
    exact decide_eq_true hs

theorem oneBlock_level (up : MapDatabase) (q : V3) : (oneBlock up).level 0 q =
    if q = ⟨0, 0, 0⟩ then some (fullBlock 1 3).toFarContents else none := by
  have hdb : (oneBlock up).dbs 0 = Finmap.insert ⟨0, 0, 0⟩ (fullBlock 1 3) ∅ := rfl
  unfold MergeState.level nblock loadBlock
  rw [hdb]
  by_cases hq : q = ⟨0, 0, 0⟩
  · subst hq
    rw [Finmap.lookup_insert]
    rfl
  · rw [Finmap.lookup_insert_of_ne _ hq, Finmap.lookup_empty, if_neg hq]
    rfl

theorem mergeList_upToDate_oneBlock :
    UpToDate plainRules ((changesMerger 0).mergeList (oneBlock ∅)).2 ∧
      UpToDate plainRules ((changesMerger 10).mergeList (oneBlock ∅)).2 ∧
      ∀ step < FARMESH_STEP_MAX - 1,
        LazilyKept (changesMerger 10) (oneBlock ∅) ((changesMerger 10).mergeList (oneBlock ∅)).2 step
            (align step ⟨0, 0, 0⟩) ∨
          Rebuilt (changesMerger 10) (oneBlock ∅) ((changesMerger 10).mergeList (oneBlock ∅)).2 step
            (align step ⟨0, 0, 0⟩) := by
  have hdbs : ∀ s, (oneBlock ∅).dbs (s + 1) = ∅ := by
    intro s
    unfold oneBlock
    dsimp only
    rw [if_neg (Nat.succ_ne_zero s), ite_self]
  have hworld : ∀ q ∉ ({⟨0, 0, 0⟩} : Finset V3), (oneBlock ∅).level 0 q = none := by
    intro q hq
    rw [oneBlock_level, if_neg fun h => hq (Finset.mem_singleton.mpr h)]
  have hload : (changesMerger 10).worldMergeLoadAll ≠ 1 := Int.zero_ne_one
  refine ⟨?_, ?_, ?_⟩
  · refine (mergeList_upToDate (changesMerger_mergeList 0 (oneBlock ∅))).2.2.1 (.inl rfl) emptyState
      (upToDate_emptyState plainRules) hdbs ?_ (fun _ => picksKept_emptyState plainRules _)
      (fun _ => blocksKept_emptyState plainRules _)
    intro q hq
    rw [level_emptyState, hworld q hq]
  · exact (mergeList_upToDate (changesMerger_mergeList 10 (oneBlock ∅))).2.2.2 hdbs hworld
  · exact (mergeList_upToDate (changesMerger_mergeList 10 (oneBlock ∅))).1 hload ⟨0, 0, 0⟩
      (Finset.mem_singleton_self _)

def newerUp : MapDatabase := Finmap.insert ⟨0, 0, 0⟩ (fullBlock 2 5) ∅

theorem mergedEntry_newerUp : (changesMerger 10).mergedEntry (oneBlock newerUp).smap
    ((oneBlock newerUp).dbs 0) (newerUp.lookup ⟨0, 0, 0⟩) ⟨0, 0, 0⟩ 0 =
      newerUp.lookup ⟨0, 0, 0⟩ := by
  unfold WorldMerger.mergedEntry
  exact if_pos rfl

/-- A coarser block that is newer than the window allows is not merged from what is now below it. -/
theorem not_rebuilt_after_mergeList :
    ¬∀ (m : WorldMerger) (w w' : MergeState), m.mergeList w = (false, w') →
      ∀ p ∈ w.todo, ∀ step < FARMESH_STEP_MAX - 1,
        w'.level (step + 1) (align step p) =
          build m.rules step (w'.level step) (align step p) := by
  intro h
  have hrun := changesMerger_mergeList 10 (oneBlock newerUp)
  have hclaim := h _ _ _ hrun ⟨0, 0, 0⟩ (Finset.mem_singleton_self _) 0 (by decide)
  obtain ⟨todo, hall⟩ := mergeList_merged hrun
  have hup : (((changesMerger 10).mergeList (oneBlock newerUp)).2.dbs 1).lookup ⟨0, 0, 0⟩ =
      newerUp.lookup ⟨0, 0, 0⟩ := by
    refine (hall.lookup 0 le_rfl (by decide) ⟨0, 0, 0⟩).trans ?_
    rw [hall.dbs 0 le_rfl]
    split_ifs
    · exact mergedEntry_newerUp
    · rfl
  have halign : align 0 ⟨0, 0, 0⟩ = ⟨0, 0, 0⟩ := rfl
  rw [halign, level_succ, hup, level_zero hall.smap (hall.dbs 0 le_rfl), build, if_pos halign] at hclaim
  have hsources : sources ((oneBlock newerUp).level 0) 0 ⟨0, 0, 0⟩ =
      [(⟨0, 0, 0⟩, (fullBlock 1 3).toFarContents)] := rfl
  rw [hsources, MergeRules.mergeContents] at hclaim
  split_ifs at hclaim with hempty
  · have hnode := congrArg (fun o : Option FarContents => o.map fun c => (c.data ⟨0, 0, 0⟩).param0)
      hclaim
    exact absurd hnode (by decide)
  · exact absurd hclaim (by simp [newerUp, fullBlock, StoredBlock.load])

end Freeminer.Merge
