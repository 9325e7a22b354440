import Freeminer.Lib.Pyramid
import Freeminer.Merge.MergeBlock

/-! `merge_one_step`, `merge_list` and `add_changed`: which blocks of each step are merged, and what
is then in the databases. -/

namespace Freeminer.Merge

open Lib
open Voxel (V3)

/-- `bpos_aligned` of a block of the step. -/
def align (step : ℕ) (bpos : V3) : V3 :=
  ⟨bpos.X / 2 ^ (step + 1) * 2 ^ (step + 1), bpos.Y / 2 ^ (step + 1) * 2 ^ (step + 1),
    bpos.Z / 2 ^ (step + 1) * 2 ^ (step + 1)⟩

structure MergeState where
  /-- The blocks that are in memory. -/
  smap : V3 → Option MapBlock
  /-- The database of each step. -/
  dbs : ℕ → MapDatabase
  /-- `blocks_todo` -/
  todo : Finset V3
  /-- How often `stop_func` was asked. -/
  asked : ℕ := 0

namespace WorldMerger

variable (m : WorldMerger)

/-- `merge_one_block` of the step, and what it leaves. -/
def mergeAt (step : ℕ) (w : MergeState) (bposAligned : V3) : MergeState :=
  { w with
    dbs := Function.update w.dbs (step + 1)
      (m.mergeOneBlock w.smap (w.dbs step) (w.dbs (step + 1)) bposAligned step) }

/-- The loop of `merge_one_step`, with `blocks_processed`; whether it was stopped. -/
def mergeLoop (step : ℕ) : List V3 → Finset V3 → MergeState → Bool × Finset V3 × MergeState
  | [], processed, w => (false, processed, w)
  | bpos :: rest, processed, w =>
    if m.stopFunc w.asked then (true, processed, { w with asked := w.asked + 1 })
    else if align step bpos ∈ processed then
      mergeLoop step rest processed { w with asked := w.asked + 1 }
    else
      mergeLoop step rest (insert (align step bpos) processed)
        (m.mergeAt step { w with asked := w.asked + 1 } (align step bpos))

/-- The blocks that `merge_one_step` goes through: all that are stored, when it is to load them. -/
def stepTodo (blocksTodo : Finset V3) (dbaseCurrent : MapDatabase) : Finset V3 :=
  if m.worldMergeLoadAll ≠ 0 ∧ blocksTodo = ∅ then dbaseCurrent.keys else blocksTodo

/-- What a step that went through these blocks leaves to do for the next. -/
def nextTodo (step : ℕ) (blocksTodo : Finset V3) : Finset V3 :=
  if m.worldMergeLoadAll = 1 then ∅ else blocksTodo.image (align step)

def mergeOneStep (step : ℕ) (w : MergeState) : Bool × MergeState :=
  if m.hasFarDatabase (step + 1) = false then (true, w)
  else if m.stepTodo w.todo (w.dbs step) = ∅ then (false, { w with todo := ∅ })
  else
    match m.mergeLoop step (m.todoOrder.entries (m.stepTodo w.todo (w.dbs step))) ∅ w with
    | (true, _, w') => (true, { w' with todo := m.stepTodo w.todo (w.dbs step) })
    | (false, processed, w') =>
      (decide (processed = ∅),
        { w' with todo := if m.worldMergeLoadAll = 1 then ∅ else processed })

/-- This many steps from `step` on. -/
def mergeSteps : ℕ → ℕ → MergeState → Bool × MergeState
  | _, 0, w => (false, w)
  | step, n + 1, w =>
    match m.mergeOneStep step w with
    | (true, w') => (true, w')
    | (false, w') => mergeSteps (step + 1) n w'

def mergeList (w : MergeState) : Bool × MergeState := m.mergeSteps 0 (FARMESH_STEP_MAX - 1) w

end WorldMerger

/-! ### What a step leaves -/

/-- After a step of a merge that went through: the entries at these positions are merged, and nothing
else is written. -/
structure Merged (m : WorldMerger) (step : ℕ) (at' : Finset V3) (w w' : MergeState) : Prop where
  smap : w'.smap = w.smap
  dbs : ∀ s, s ≠ step + 1 → w'.dbs s = w.dbs s
  lookup : ∀ a, (w'.dbs (step + 1)).lookup a =
    if a ∈ at' then
      m.mergedEntry w.smap (w.dbs step) ((w.dbs (step + 1)).lookup a) a step
    else (w.dbs (step + 1)).lookup a

variable {m : WorldMerger} {step : ℕ} {w w' : MergeState} {l : List V3} {processed T : Finset V3}

theorem Merged.empty (hsmap : w'.smap = w.smap) (hdbs : w'.dbs = w.dbs) : Merged m step ∅ w w' where
  smap := hsmap
  dbs s _ := congrFun hdbs s
  lookup a := by rw [if_neg (Finset.notMem_empty a), hdbs]

theorem Merged.insert {a : V3} (n : ℕ) (ha : a ∉ T)
    (h : Merged m step T (m.mergeAt step { w with asked := n } a) w') :
    Merged m step (insert a T) w w' where
  smap := h.smap
  dbs s hs := by
    rw [h.dbs s hs]
    exact Function.update_of_ne hs _ _
  lookup b := by
    have hbelow : (m.mergeAt step { w with asked := n } a).dbs step = w.dbs step :=
      Function.update_of_ne (Nat.ne_of_lt (Nat.lt_succ_self step)) _ _
    have hup : ((m.mergeAt step { w with asked := n } a).dbs (step + 1)).lookup b =
        if b = a then m.mergedEntry w.smap (w.dbs step) ((w.dbs (step + 1)).lookup a) a step
        else (w.dbs (step + 1)).lookup b := by
      rw [WorldMerger.mergeAt]
      dsimp only
      rw [Function.update_self, m.lookup_mergeOneBlock]
    rw [h.lookup b, hbelow, hup]
    by_cases hb : b = a
    · subst hb
      rw [if_neg ha, if_pos rfl, if_pos (Finset.mem_insert_self b T)]
    · rw [if_neg hb]
      by_cases hT : b ∈ T
      · rw [if_pos hT, if_pos (Finset.mem_insert_of_mem hT)]
        rfl
      · rw [if_neg hT, if_neg fun hmem => hT (Finset.mem_of_mem_insert_of_ne hmem hb)]

theorem mergeLoop_merged (h : m.mergeLoop step l processed w = (false, T, w')) :
    T = processed ∪ (l.map (align step)).toFinset ∧
      Merged m step ((l.map (align step)).toFinset \ processed) w w' := by
  induction l generalizing processed w with
  | nil =>
    rw [WorldMerger.mergeLoop, Prod.mk.injEq, Prod.mk.injEq] at h
    obtain ⟨-, rfl, rfl⟩ := h
    refine ⟨by simp, ?_⟩
    rw [List.map_nil, List.toFinset_nil, Finset.empty_sdiff]
    exact Merged.empty rfl rfl
  | cons bpos rest ih =>
    rw [WorldMerger.mergeLoop] at h
    by_cases hstop : m.stopFunc w.asked = true
    · rw [if_pos hstop] at h
      simp at h
    rw [if_neg hstop] at h
    rw [List.map_cons, List.toFinset_cons]
    by_cases hmem : align step bpos ∈ processed
    · rw [if_pos hmem] at h
      obtain ⟨hT, hmerged⟩ := ih h
      refine ⟨?_, ?_⟩
      · rw [hT, Finset.union_insert, Finset.insert_eq_of_mem (Finset.mem_union_left _ hmem)]
      · rw [Finset.insert_sdiff_of_mem _ hmem]
        exact ⟨hmerged.smap, hmerged.dbs, hmerged.lookup⟩
    · rw [if_neg hmem] at h
      obtain ⟨hT, hmerged⟩ := ih h
      refine ⟨?_, ?_⟩
      · rw [hT, Finset.union_insert, Finset.insert_union]
      · rw [Finset.insert_sdiff_of_notMem _ hmem]
        have hset : insert (align step bpos) ((rest.map (align step)).toFinset \ processed) =
            insert (align step bpos)
              ((rest.map (align step)).toFinset \ insert (align step bpos) processed) := by
          ext q
          simp only [Finset.mem_insert, Finset.mem_sdiff]
          tauto
        rw [hset]
        refine Merged.insert (w.asked + 1) ?_ hmerged
        simp

theorem mergeOneStep_merged (h : m.mergeOneStep step w = (false, w')) :
    Merged m step ((m.stepTodo w.todo (w.dbs step)).image (align step)) w w' ∧ 
      w'.todo = m.nextTodo step (m.stepTodo w.todo (w.dbs step)) := by
  unfold WorldMerger.mergeOneStep at h
  by_cases hdb : m.hasFarDatabase (step + 1) = false
  · rw [if_pos hdb] at h
    simp at h
  rw [if_neg hdb] at h
  unfold WorldMerger.nextTodo
  by_cases htodo : m.stepTodo w.todo (w.dbs step) = ∅
  · rw [if_pos htodo, Prod.mk.injEq] at h
    obtain ⟨-, rfl⟩ := h
    rw [htodo, Finset.image_empty, ite_self]
    exact ⟨Merged.empty rfl rfl, rfl⟩
  rw [if_neg htodo] at h
  rcases hloop : m.mergeLoop step (m.todoOrder.entries (m.stepTodo w.todo (w.dbs step))) ∅ w with
    ⟨stopped, T, w₁⟩
  rw [hloop] at h
  cases stopped with
  | true => simp at h
  | false =>
    obtain ⟨hT, hmerged⟩ := mergeLoop_merged hloop
    have himage : ((m.todoOrder.entries (m.stepTodo w.todo (w.dbs step))).map (align step)).toFinset =
        (m.stepTodo w.todo (w.dbs step)).image (align step) := by
      ext q
      simp
    rw [himage, Finset.empty_union] at hT
    rw [himage, Finset.sdiff_empty] at hmerged
    simp only [Prod.mk.injEq] at h
    obtain ⟨-, rfl⟩ := h
    rw [hT]
    exact ⟨⟨hmerged.smap, hmerged.dbs, hmerged.lookup⟩, rfl⟩

/-- After the steps of a merge that went through, with the blocks that each went through. -/
structure MergedAll (m : WorldMerger) (step n : ℕ) (todo : ℕ → Finset V3) (w w' : MergeState) :
    Prop where
  smap : w'.smap = w.smap
  dbs : ∀ s ≤ step, w'.dbs s = w.dbs s
  first : todo step = m.stepTodo w.todo (w.dbs step)
  next : ∀ s, step ≤ s → s + 1 < step + n →
    todo (s + 1) = m.stepTodo (m.nextTodo s (todo s)) (w'.dbs (s + 1))
  lookup : ∀ s, step ≤ s → s < step + n → ∀ a, (w'.dbs (s + 1)).lookup a =
    if a ∈ (todo s).image (align s) then
      m.mergedEntry w.smap (w'.dbs s) ((w.dbs (s + 1)).lookup a) a s
    else (w.dbs (s + 1)).lookup a

theorem MergedAll.nil (m : WorldMerger) (step : ℕ) (w : MergeState) :
    MergedAll m step 0 (fun _ => m.stepTodo w.todo (w.dbs step)) w w where
  smap := rfl
  dbs _ _ := rfl
  first := rfl
  next s _ hs := by omega
  lookup s _ hs := by omega

theorem MergedAll.cons {n : ℕ} {todo : ℕ → Finset V3} {w₁ : MergeState}
    (h : Merged m step ((m.stepTodo w.todo (w.dbs step)).image (align step)) w w₁)
    (htodo : w₁.todo = m.nextTodo step (m.stepTodo w.todo (w.dbs step)))
    (hrest : MergedAll m (step + 1) n todo w₁ w') :
    MergedAll m step (n + 1)
      (Function.update todo step (m.stepTodo w.todo (w.dbs step))) w w' where
  smap := hrest.smap.trans h.smap
  dbs s hs := by rw [hrest.dbs s (Nat.le_succ_of_le hs), h.dbs s (by omega)]
  first := Function.update_self _ _ _
  next s hs hsn := by
    rw [Function.update_of_ne (by omega)]
    rcases Nat.eq_or_lt_of_le hs with rfl | hlt
    · rw [Function.update_self, hrest.first, htodo, hrest.dbs _ le_rfl]
    · rw [Function.update_of_ne (by omega)]
      exact hrest.next s hlt (by omega)
  lookup s hs hsn a := by
    rcases Nat.eq_or_lt_of_le hs with rfl | hlt
    · rw [Function.update_self, hrest.dbs _ le_rfl, hrest.dbs _ (Nat.le_succ step),
        h.dbs step (by omega)]
      exact h.lookup a
    · rw [Function.update_of_ne (by omega), hrest.lookup s hlt (by omega) a, h.smap,
        h.dbs (s + 1) (by omega)]

theorem mergeSteps_merged {n : ℕ} (h : m.mergeSteps step n w = (false, w')) :
    ∃ todo, MergedAll m step n todo w w' := by
  induction n generalizing step w with
  | zero =>
    rw [WorldMerger.mergeSteps, Prod.mk.injEq] at h
    obtain ⟨-, rfl⟩ := h
    exact ⟨_, MergedAll.nil m step w⟩
  | succ n ih =>
    rw [WorldMerger.mergeSteps] at h
    rcases hstep : m.mergeOneStep step w with ⟨stopped, w₁⟩
    rw [hstep] at h
    cases stopped with
    | true => simp at h
    | false =>
      obtain ⟨hmerged, htodo⟩ := mergeOneStep_merged hstep
      obtain ⟨todo, hrest⟩ := ih h
      exact ⟨_, hrest.cons hmerged htodo⟩

/-- All steps of a merge that was not stopped. -/
theorem mergeList_merged (h : m.mergeList w = (false, w')) :
    ∃ todo, MergedAll m 0 (FARMESH_STEP_MAX - 1) todo w w' :=
  mergeSteps_merged h

/-! ### A merge that is not stopped goes through -/

theorem mergeLoop_eq_false (hstop : ∀ n, m.stopFunc n = false) :
    (m.mergeLoop step l processed w).1 = false := by
  induction l generalizing processed w with
  | nil => rfl
  | cons bpos rest ih =>
    rw [WorldMerger.mergeLoop, if_neg (by rw [hstop]; decide)]
    split_ifs
    · exact ih
    · exact ih

theorem mergeOneStep_eq_false (hstop : ∀ n, m.stopFunc n = false)
    (hdb : m.hasFarDatabase (step + 1) = true) : (m.mergeOneStep step w).1 = false := by
  unfold WorldMerger.mergeOneStep
  rw [if_neg (by rw [hdb]; decide)]
  by_cases htodo : m.stepTodo w.todo (w.dbs step) = ∅
  · rw [if_pos htodo]
  rw [if_neg htodo]
  rcases hloop : m.mergeLoop step (m.todoOrder.entries (m.stepTodo w.todo (w.dbs step))) ∅ w with
    ⟨stopped, T, w₁⟩
  have hfalse : (m.mergeLoop step (m.todoOrder.entries (m.stepTodo w.todo (w.dbs step))) ∅ w).1 =
      false := mergeLoop_eq_false hstop
  rw [hloop] at hfalse
  dsimp only at hfalse
  subst hfalse
  obtain ⟨hT, -⟩ := mergeLoop_merged hloop
  dsimp only
  rw [decide_eq_false_iff_not, hT]
  obtain ⟨p, hp⟩ := Finset.nonempty_iff_ne_empty.mpr htodo
  apply Finset.ne_empty_of_mem (a := align step p)
  simp only [Finset.empty_union, List.mem_toFinset, List.mem_map, SetOrder.mem_entries]
  exact ⟨p, hp, rfl⟩

theorem mergeSteps_eq_false {n : ℕ} (hstop : ∀ n, m.stopFunc n = false)
    (hdb : ∀ s, step < s → s ≤ step + n → m.hasFarDatabase s = true) :
    (m.mergeSteps step n w).1 = false := by
  induction n generalizing step w with
  | zero => rfl
  | succ n ih =>
    rw [WorldMerger.mergeSteps]
    have hstep := mergeOneStep_eq_false (w := w) hstop (hdb (step + 1) (by omega) (by omega))
    rcases hw : m.mergeOneStep step w with ⟨stopped, w₁⟩
    rw [hw] at hstep
    dsimp only at hstep
    subst hstep
    exact ih fun s hs hsn => hdb s (by omega) (by omega)

/-- With all databases there, only `stop_func` ends a merge. -/
theorem mergeList_eq_false (hstop : ∀ n, m.stopFunc n = false)
    (hdb : ∀ s, 0 < s → s < FARMESH_STEP_MAX → m.hasFarDatabase s = true) :
    m.mergeList w = (false, (m.mergeList w).2) := by
  rw [Prod.ext_iff]
  refine ⟨mergeSteps_eq_false hstop fun s hs hsn => hdb s hs ?_, rfl⟩
  unfold FARMESH_STEP_MAX at hsn ⊢
  omega

end Freeminer.Merge
