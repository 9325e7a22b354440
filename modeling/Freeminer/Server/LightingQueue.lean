import Mathlib.Data.Finset.Max
import Freeminer.Lib.HashOrder
import Freeminer.Lib.Runs
import Freeminer.Voxel.Light

/-! The blocks whose light is to be repaired (`fm_map.cpp`): two indexes of them, to which any thread
adds, and the passes of `updateLightingQueue`. Each locked section is one step. -/

namespace Freeminer.Server

open Lib
open Voxel (V3)

/-- `lighting_map_t` -/
abbrev LightingMap := Finmap fun _ : V3 => Int32

/-- A range as a key of `m_lighting_modified_blocks_range`. -/
def rangeKey (range : Int32) : ℕ := range.toUInt32.toNat

structure LightingQueue where
  m_lighting_modified_blocks : LightingMap := ∅
  m_lighting_modified_blocks_range : Finmap fun _ : ℕ => LightingMap := ∅

namespace LightingQueue

/-- `m_lighting_modified_blocks_range[key]` -/
def under (q : LightingQueue) (key : ℕ) : LightingMap :=
  (q.m_lighting_modified_blocks_range.lookup key).getD ∅

/-- Changes what `m_lighting_modified_blocks_range[key]` is. -/
def modifyUnder (q : LightingQueue) (key : ℕ) (f : LightingMap → LightingMap) : LightingQueue :=
  { q with
    m_lighting_modified_blocks_range := q.m_lighting_modified_blocks_range.insert key (f (q.under key)) }

def set (q : LightingQueue) (key : ℕ) (pos : V3) (range : Int32) : LightingQueue :=
  { q.modifyUnder key fun blocks => blocks.insert pos range with
    m_lighting_modified_blocks := q.m_lighting_modified_blocks.insert pos range }

def lighting_modified_add (q : LightingQueue) (pos : V3) (range : Int32) : LightingQueue :=
  match q.m_lighting_modified_blocks.lookup pos with
  | none => q.set (rangeKey range) pos range
  | some old_range =>
    if old_range ≤ range then q
    else
      (q.modifyUnder (rangeKey old_range) fun blocks => blocks.erase pos).set (rangeKey range) pos range

/-- `m_lighting_modified_blocks_range.erase` -/
def eraseUnder (q : LightingQueue) (key : ℕ) : LightingQueue :=
  { q with m_lighting_modified_blocks_range := q.m_lighting_modified_blocks_range.erase key }

/-- The first locked section: the blocks under the first range are taken, if there is a range. -/
def take (order : HashOrder V3 Int32) (q : LightingQueue) :
    Option ((ℕ × List (Sigma fun _ : V3 => Int32)) × LightingQueue) :=
  if h : q.m_lighting_modified_blocks_range.keys.Nonempty then
    let range := q.m_lighting_modified_blocks_range.keys.min' h
    let blocks := order.entries (q.under range)
    some ((range, blocks),
      { q.eraseUnder range with
        m_lighting_modified_blocks :=
          blocks.foldl (fun index i => index.erase i.1) q.m_lighting_modified_blocks })
  else none

/-- The second locked section: what is left of the blocks is put back. -/
def putBack (q : LightingQueue) (range : ℕ) (blocks : List (Sigma fun _ : V3 => Int32)) :
    LightingQueue :=
  blocks.foldl (fun q i => q.set range i.1 i.2) q

def forget (q : LightingQueue) (pos : V3) : LightingQueue :=
  match q.m_lighting_modified_blocks.lookup pos with
  | none => q
  | some range =>
    { q.modifyUnder (rangeKey range) fun blocks => blocks.erase pos with
      m_lighting_modified_blocks := q.m_lighting_modified_blocks.erase pos }

def forgetAll (q : LightingQueue) (processed : List V3) : LightingQueue := processed.foldl forget q

def Queued (q : LightingQueue) (pos : V3) : Prop := pos ∈ q.m_lighting_modified_blocks

/-- A position has a range in the position index if and only if it is recorded with it under this
range, and under no other. -/
def Consistent (q : LightingQueue) : Prop :=
  ∀ pos range key, (q.under key).lookup pos = some range ↔
    key = rangeKey range ∧ q.m_lighting_modified_blocks.lookup pos = some range

variable {q q' : LightingQueue} {key k : ℕ} {pos p : V3} {range : Int32}

theorem under_modifyUnder (f : LightingMap → LightingMap) :
    (q.modifyUnder key f).under k = if k = key then f (q.under key) else q.under k := by
  unfold modifyUnder under
  split_ifs with hk
  · subst hk
    rw [Finmap.lookup_insert]
    rfl
  · rw [Finmap.lookup_insert_of_ne _ hk]

theorem under_eraseUnder : (q.eraseUnder key).under k = if k = key then ∅ else q.under k := by
  unfold eraseUnder under
  split_ifs with hk
  · rw [hk, Finmap.lookup_erase]
    rfl
  · rw [Finmap.lookup_erase_ne hk]

theorem lookup_under_set :
    ((q.set key pos range).under k).lookup p =
      if k = key ∧ p = pos then some range else (q.under k).lookup p := by
  change ((q.modifyUnder key fun blocks => blocks.insert pos range).under k).lookup p = _
  rw [under_modifyUnder]
  by_cases hk : k = key
  · subst hk
    by_cases hp : p = pos
    · subst hp
      simp [Finmap.lookup_insert]
    · simp [hp, Finmap.lookup_insert_of_ne]
  · simp [hk]

theorem lookup_set :
    (q.set key pos range).m_lighting_modified_blocks.lookup p =
      if p = pos then some range else q.m_lighting_modified_blocks.lookup p := by
  change (q.m_lighting_modified_blocks.insert pos range).lookup p = _
  split_ifs with hp
  · rw [hp, Finmap.lookup_insert]
  · rw [Finmap.lookup_insert_of_ne _ hp]

/-- What is recorded nowhere may be recorded under any range. -/
theorem Consistent.set (h : q.Consistent) (hpos : q.m_lighting_modified_blocks.lookup pos = none) :
    (q.set (rangeKey range) pos range).Consistent := by
  intro p r k
  rw [lookup_under_set, lookup_set]
  by_cases hp : p = pos
  · subst hp
    simp only [and_true, if_true]
    split_ifs with hk
    · constructor
      · rintro ⟨⟩
        exact ⟨hk, rfl⟩
      · exact fun h => h.2
    · constructor
      · intro hlookup
        have := ((h p r k).1 hlookup).2
        rw [hpos] at this
        cases this
      · rintro ⟨hkey, ⟨⟩⟩
        exact absurd hkey hk
  · simp only [hp, and_false, if_false]
    exact h p r k

theorem lookup_forget :
    (q.forget pos).m_lighting_modified_blocks.lookup p =
      if p = pos then none else q.m_lighting_modified_blocks.lookup p := by
  unfold forget
  cases hlookup : q.m_lighting_modified_blocks.lookup pos with
  | none =>
    split_ifs with hp
    · rw [hp, hlookup]
    · rfl
  | some range =>
    change (q.m_lighting_modified_blocks.erase pos).lookup p = _
    split_ifs with hp
    · rw [hp, Finmap.lookup_erase]
    · rw [Finmap.lookup_erase_ne hp]

theorem Consistent.lookup_under_forget (h : q.Consistent) :
    ((q.forget pos).under k).lookup p = if p = pos then none else (q.under k).lookup p := by
  have hnone : q.m_lighting_modified_blocks.lookup pos = none → (q.under k).lookup pos = none := by
    intro hpos
    by_contra hne
    obtain ⟨r, hr⟩ := Option.ne_none_iff_exists'.1 hne
    have := ((h pos r k).1 hr).2
    rw [hpos] at this
    cases this
  unfold forget
  cases hlookup : q.m_lighting_modified_blocks.lookup pos with
  | none =>
    split_ifs with hp
    · rw [hp]
      exact hnone hlookup
    · rfl
  | some range =>
    change ((q.modifyUnder (rangeKey range) fun blocks => blocks.erase pos).under k).lookup p = _
    rw [under_modifyUnder]
    by_cases hp : p = pos
    · subst hp
      rw [if_pos rfl]
      split_ifs with hk
      · exact Finmap.lookup_erase _ _
      · by_contra hne
        obtain ⟨r, hr⟩ := Option.ne_none_iff_exists'.1 hne
        obtain ⟨hkey, hindex⟩ := (h p r k).1 hr
        rw [hlookup] at hindex
        cases hindex
        exact hk hkey
    · rw [if_neg hp]
      split_ifs with hk
      · rw [Finmap.lookup_erase_ne hp, hk]
      · rfl

theorem Consistent.forget (h : q.Consistent) : (q.forget pos).Consistent := by
  intro p r k
  rw [h.lookup_under_forget, lookup_forget]
  split_ifs with hp
  · simp
  · exact h p r k

theorem Consistent.forgetAll {processed : List V3} (h : q.Consistent) :
    (q.forgetAll processed).Consistent := by
  unfold LightingQueue.forgetAll
  induction processed generalizing q with
  | nil => exact h
  | cons pos processed ih => exact ih h.forget

theorem lookup_forgetAll {processed : List V3} (hp : p ∉ processed) :
    (q.forgetAll processed).m_lighting_modified_blocks.lookup p =
      q.m_lighting_modified_blocks.lookup p := by
  unfold LightingQueue.forgetAll
  induction processed generalizing q with
  | nil => rfl
  | cons pos processed ih =>
    rw [List.mem_cons, not_or] at hp
    rw [List.foldl_cons, ih hp.2, lookup_forget, if_neg hp.1]

/-- A request with a smaller range than before is as one after the position was taken out. -/
theorem lighting_modified_add_eq (q : LightingQueue) (pos : V3) (range : Int32) :
    q.lighting_modified_add pos range = q ∧ q.Queued pos ∨
      q.lighting_modified_add pos range = (q.forget pos).set (rangeKey range) pos range := by
  unfold lighting_modified_add forget
  cases hlookup : q.m_lighting_modified_blocks.lookup pos with
  | none => exact .inr rfl
  | some old_range =>
    simp only
    split_ifs with hle
    · exact .inl ⟨rfl, Finmap.mem_of_lookup_eq_some hlookup⟩
    · right
      have hinsert : (q.m_lighting_modified_blocks.erase pos).insert pos range =
          q.m_lighting_modified_blocks.insert pos range := by
        refine Finmap.ext_lookup fun p => ?_
        by_cases hp : p = pos
        · rw [hp, Finmap.lookup_insert, Finmap.lookup_insert]
        · rw [Finmap.lookup_insert_of_ne _ hp, Finmap.lookup_insert_of_ne _ hp,
            Finmap.lookup_erase_ne hp]
      simp only [set, hinsert]
      rfl

theorem Consistent.add (h : q.Consistent) : (q.lighting_modified_add pos range).Consistent := by
  rcases lighting_modified_add_eq q pos range with ⟨heq, -⟩ | heq
  · rwa [heq]
  · rw [heq]
    refine h.forget.set ?_
    rw [lookup_forget, if_pos rfl]

theorem queued_iff : q.Queued p ↔ q.m_lighting_modified_blocks.lookup p ≠ none := by
  rw [Queued, ne_eq, Finmap.lookup_eq_none, not_not]

/-- A request puts its position into the queue and takes none out. -/
theorem queued_add : (q.lighting_modified_add pos range).Queued p ↔ p = pos ∨ q.Queued p := by
  rcases lighting_modified_add_eq q pos range with ⟨heq, hqueued⟩ | heq
  · rw [heq]
    constructor
    · exact .inr
    · rintro (rfl | h)
      · exact hqueued
      · exact h
  · rw [heq, queued_iff, queued_iff, lookup_set, lookup_forget]
    by_cases hp : p = pos <;> simp [hp]

/-- The loop that erases the taken blocks from the position index. -/
theorem lookup_eraseAll (blocks : List (Sigma fun _ : V3 => Int32)) (index : LightingMap) :
    (blocks.foldl (fun index i => index.erase i.1) index).lookup p =
      if p ∈ blocks.map Sigma.fst then none else index.lookup p := by
  induction blocks generalizing index with
  | nil => simp
  | cons i blocks ih =>
    rw [List.foldl_cons, ih, List.map_cons]
    by_cases hp : p = i.1
    · rw [hp, Finmap.lookup_erase, ite_self, if_pos List.mem_cons_self]
    · rw [Finmap.lookup_erase_ne hp]
      by_cases hmem : p ∈ blocks.map Sigma.fst
      · rw [if_pos hmem, if_pos (List.mem_cons_of_mem _ hmem)]
      · rw [if_neg hmem, if_neg (List.not_mem_cons_of_ne_of_not_mem hp hmem)]

/-- What a pass takes: the blocks that were recorded under one range, and no others. -/
theorem Consistent.take {order : HashOrder V3 Int32} {range : ℕ}
    {blocks : List (Sigma fun _ : V3 => Int32)} (h : q.Consistent)
    (htake : q.take order = some ((range, blocks), q')) :
    q'.Consistent ∧ ∀ p, q.Queued p ↔ p ∈ blocks.map Sigma.fst ∨ q'.Queued p := by
  unfold LightingQueue.take at htake
  split_ifs at htake with hranges
  cases htake
  set range := q.m_lighting_modified_blocks_range.keys.min' hranges
  have hmem : ∀ p, p ∈ (order.entries (q.under range)).map Sigma.fst ↔
      (q.under range).lookup p ≠ none := by
    intro p
    rw [List.mem_map, Option.ne_none_iff_exists']
    constructor
    · rintro ⟨⟨p, r⟩, hp, rfl⟩
      exact ⟨r, order.mem_entries.1 hp⟩
    · rintro ⟨r, hr⟩
      exact ⟨⟨p, r⟩, order.mem_entries.2 hr, rfl⟩
  constructor
  · intro p r k
    rw [lookup_eraseAll]
    change ((q.eraseUnder range).under k).lookup p = some r ↔ _
    rw [under_eraseUnder]
    split_ifs with hk hp hp
    · simp
    · rw [hk, Finmap.lookup_empty]
      simp only [reduceCtorEq, false_iff, not_and]
      intro hkey hindex
      have := (h p r range).2 ⟨hkey, hindex⟩
      exact hp ((hmem p).2 (by rw [this]; simp))
    · simp only [and_false, iff_false]
      intro hlookup
      obtain ⟨hkey, hindex⟩ := (h p r k).1 hlookup
      obtain ⟨r', hr'⟩ := Option.ne_none_iff_exists'.1 ((hmem p).1 hp)
      obtain ⟨hkey', hindex'⟩ := (h p r' range).1 hr'
      rw [hindex] at hindex'
      cases hindex'
      exact hk (hkey.trans hkey'.symm)
    · exact h p r k
  · intro p
    rw [queued_iff, queued_iff, lookup_eraseAll]
    by_cases hp : p ∈ (order.entries (q.under range)).map Sigma.fst
    · rw [if_pos hp]
      obtain ⟨r, hr⟩ := Option.ne_none_iff_exists'.1 ((hmem p).1 hp)
      have hindex := ((h p r range).1 hr).2
      simp [hp, hindex]
    · simp [hp]

theorem consistent_empty : ({} : LightingQueue).Consistent := by
  intro p r k
  simp [under]

theorem take_single (order : HashOrder V3 Int32) (pos : V3) (range : Int32) :
    ∃ q', (({} : LightingQueue).lighting_modified_add pos range).take order =
      some ((rangeKey range, [⟨pos, range⟩]), q') ∧ ¬q'.Queued pos := by
  have hadd : ({} : LightingQueue).lighting_modified_add pos range =
      ({} : LightingQueue).set (rangeKey range) pos range := rfl
  rw [hadd]
  set q := ({} : LightingQueue).set (rangeKey range) pos range with hq
  have hkey : ∀ k, k ∈ q.m_lighting_modified_blocks_range.keys ↔ k = rangeKey range := by
    intro k
    rw [Finmap.mem_keys]
    simp [hq, set, modifyUnder, Finmap.notMem_empty]
  have hranges : q.m_lighting_modified_blocks_range.keys.Nonempty := ⟨_, (hkey _).2 rfl⟩
  have hfirst := (hkey _).1 (Finset.min'_mem _ hranges)
  have hunder : q.under (rangeKey range) = (∅ : LightingMap).insert pos range := by
    rw [hq]
    change (modifyUnder {} (rangeKey range) fun blocks => blocks.insert pos range).under _ = _
    rw [under_modifyUnder, if_pos rfl]
    rfl
  unfold LightingQueue.take
  rw [dif_pos hranges]
  simp only [hfirst, hunder, HashOrder.entries_singleton]
  refine ⟨_, rfl, ?_⟩
  rw [queued_iff, not_not]
  simp only [lookup_eraseAll]
  exact if_pos (by simp)

end LightingQueue

/-- How `updateLighting` fares with a block: it is not there, `repair_block_light` does not get its
lock, or it is repaired and other blocks change with it. -/
inductive Repair where
  | notLoaded
  | failed
  | repaired (others : List V3)

/-- A call of `updateLightingQueue`. -/
inductive LightingPass where
  | idle
  | top (processed : List V3)
  /-- In the loop of `updateLighting`; `todo` is what it has not come to. -/
  | repairing (range : ℕ) (blocks : List (Sigma fun _ : V3 => Int32)) (todo modified processed : List V3)
  | finishing (processed : List V3)

namespace LightingPass

def Holds (pos : V3) : LightingPass → Prop
  | repairing _ _ todo _ _ => pos ∈ todo
  | _ => False

/-- The positions that the last section will take out of the queue. -/
def processed : LightingPass → List V3
  | idle => []
  | top processed => processed
  | repairing _ _ _ _ processed => processed
  | finishing processed => processed

end LightingPass

/-- The queue and the passes, with the history of the positions that were requested and not repaired
since, and of those whose block was found not to be there since. -/
structure Lighting where
  queue : LightingQueue := {}
  passes : ℕ → LightingPass := fun _ => .idle
  requested : List V3 := []
  dropped : List V3 := []

namespace Lighting

inductive Event where
  | add (pos : V3) (range : Int32)
  | start (i : ℕ)
  | take (i : ℕ)
  | repair (i : ℕ) (r : Repair)
  /-- `more` tells whether there is time for another range. -/
  | putBack (i : ℕ) (more : Bool)
  | finish (i : ℕ)

def setPass (s : Lighting) (i : ℕ) (p : LightingPass) : Lighting :=
  { s with passes := Function.update s.passes i p }

def step (order : HashOrder V3 Int32) (s : Lighting) : Event → Option Lighting
  | .add pos range =>
    some { s with
      queue := s.queue.lighting_modified_add pos range
      requested := pos :: s.requested
      dropped := s.dropped.filter (· ≠ pos) }
  | .start i =>
    match s.passes i with
    | .idle => some (s.setPass i (.top []))
    | _ => none
  | .take i =>
    match s.passes i with
    | .top processed =>
      match s.queue.take order with
      | none => some (s.setPass i (.finishing processed))
      | some r =>
        some { s.setPass i (.repairing r.1.1 r.1.2 (r.1.2.map Sigma.fst) [] processed) with
          queue := r.2 }
    | _ => none
  | .repair i r =>
    match s.passes i with
    | .repairing range blocks (pos :: todo) modified processed =>
      match r with
      | .notLoaded =>
        some { s.setPass i (.repairing range (blocks.filter (·.1 ≠ pos)) todo modified processed) with
          dropped := pos :: s.dropped }
      -- the block is registered as modified before its lock is tried
      | .failed => some (s.setPass i (.repairing range blocks todo (pos :: modified) processed))
      | .repaired others =>
        some { s.setPass i
            (.repairing range blocks todo (pos :: (others ++ modified)) (pos :: processed)) with
          requested := s.requested.filter (· ≠ pos) }
    | _ => none
  | .putBack i more =>
    match s.passes i with
    | .repairing range blocks [] modified processed =>
      let blocks := blocks.filter fun b => !modified.contains b.1 && !processed.contains b.1
      some { s.setPass i (if more then .top processed else .finishing processed) with
        queue := s.queue.putBack range blocks }
    | _ => none
  | .finish i =>
    match s.passes i with
    | .finishing processed => some { s.setPass i .idle with queue := s.queue.forgetAll processed }
    | _ => none

def lts (order : HashOrder V3 Int32) : Lts Lighting Event where
  init s := s = {}
  step s e s' := s.step order e = some s'

/-- Every requested position is in the queue until it is repaired. -/
def StaysQueued (s : Lighting) : Prop := ∀ pos ∈ s.requested, s.queue.Queued pos

/-- The position is in the queue or with a pass until it is repaired or its block is not there. -/
def Kept (s : Lighting) (pos : V3) : Prop :=
  pos ∈ s.requested → pos ∈ s.dropped ∨ s.queue.Queued pos ∨ ∃ i, (s.passes i).Holds pos

/-- Repairs of the position get their lock, and it is not requested between a repair and the end of
the pass that made it. -/
def Undisturbed (pos : V3) (s : Lighting) : Event → Prop
  | .add pos' _ => pos' = pos → ∀ i, pos ∉ (s.passes i).processed
  | .repair i .failed =>
    ∀ range blocks todo modified processed,
      s.passes i ≠ .repairing range blocks (pos :: todo) modified processed
  | _ => True

variable {order : HashOrder V3 Int32} {s s' : Lighting} {e : Event} {pos : V3}

/-- What is left of the blocks of a pass is still to be repaired or was registered as modified, so that
nothing is put back. -/
def LeavesNothing : LightingPass → Prop
  | .repairing _ blocks todo modified _ => ∀ b ∈ blocks, b.1 ∈ todo ∨ b.1 ∈ modified
  | _ => True

structure Indexed (s : Lighting) : Prop where
  consistent : s.queue.Consistent
  leavesNothing : ∀ i, LeavesNothing (s.passes i)

theorem setPass_leavesNothing {i : ℕ} {p : LightingPass} (h : ∀ i, LeavesNothing (s.passes i))
    (hp : LeavesNothing p) (j : ℕ) : LeavesNothing ((s.setPass i p).passes j) := by
  unfold setPass
  rcases eq_or_ne j i with rfl | hne
  · simpa using hp
  · simpa [hne] using h j

/-- The loop of `updateLighting` has taken all blocks out. -/
theorem putBack_filter {q : LightingQueue} {range : ℕ} {blocks : List (Sigma fun _ : V3 => Int32)}
    {modified processed : List V3} (h : LeavesNothing (.repairing range blocks [] modified processed)) :
    q.putBack range
      (blocks.filter fun b => !modified.contains b.1 && !processed.contains b.1) = q := by
  have hnil : blocks.filter (fun b => !modified.contains b.1 && !processed.contains b.1) = [] := by
    refine List.filter_eq_nil_iff.2 fun b hb => ?_
    have hmem := (h b hb).resolve_left (by simp)
    simp [hmem]
  rw [hnil]
  rfl

theorem Indexed.step (h : s.Indexed) (hs : s.step order e = some s') : s'.Indexed := by
  obtain ⟨hconsistent, hleaves⟩ := h
  unfold Lighting.step at hs
  cases e with
  | add pos range =>
    cases hs
    exact ⟨hconsistent.add, hleaves⟩
  | start i =>
    simp only at hs
    split at hs <;> cases hs
    exact ⟨hconsistent, setPass_leavesNothing hleaves trivial⟩
  | take i =>
    simp only at hs
    split at hs
    next processed hpass =>
      split at hs <;> cases hs
      next => exact ⟨hconsistent, setPass_leavesNothing hleaves trivial⟩
      next r htake =>
        refine ⟨(hconsistent.take htake).1, setPass_leavesNothing hleaves ?_⟩
        exact fun b hb => .inl (List.mem_map_of_mem hb)
    next => cases hs
  | repair i r =>
    simp only at hs
    split at hs
    next range blocks pos todo modified processed hpass =>
      have hrest := hleaves i
      rw [hpass] at hrest
      cases r with
      | notLoaded =>
        cases hs
        refine ⟨hconsistent, setPass_leavesNothing hleaves fun b hb => ?_⟩
        obtain ⟨hmem, hne⟩ := List.mem_filter.1 hb
        rcases hrest b hmem with htodo | hmodified
        · exact .inl ((List.mem_cons.1 htodo).resolve_left (by simpa using hne))
        · exact .inr hmodified
      | failed =>
        cases hs
        refine ⟨hconsistent, setPass_leavesNothing hleaves fun b hb => ?_⟩
        rcases hrest b hb with htodo | hmodified
        · rcases List.mem_cons.1 htodo with heq | htodo
          · exact .inr (List.mem_cons.2 (.inl heq))
          · exact .inl htodo
        · exact .inr (List.mem_cons_of_mem _ hmodified)
      | repaired others =>
        cases hs
        refine ⟨hconsistent, setPass_leavesNothing hleaves fun b hb => ?_⟩
        rcases hrest b hb with htodo | hmodified
        · rcases List.mem_cons.1 htodo with heq | htodo
          · exact .inr (List.mem_cons.2 (.inl heq))
          · exact .inl htodo
        · exact .inr (List.mem_cons_of_mem _ (List.mem_append_right _ hmodified))
    next => cases hs
  | putBack i more =>
    simp only at hs
    split at hs <;> cases hs
    next range blocks modified processed hpass =>
      have hrest := hleaves i
      rw [hpass] at hrest
      refine ⟨?_, setPass_leavesNothing hleaves ?_⟩
      · simp only [putBack_filter hrest]
        exact hconsistent
      · cases more <;> trivial
  | finish i =>
    simp only at hs
    split at hs <;> cases hs
    next processed hpass =>
      exact ⟨hconsistent.forgetAll, setPass_leavesNothing hleaves trivial⟩

theorem indexed_of_run {ok : Lighting → Event → Prop} (h : (lts order).Run ok s) : s.Indexed := by
  refine h.invariant (fun s hs => ?_) fun s e s' hI _ hs => hI.step hs
  cases hs
  exact ⟨LightingQueue.consistent_empty, fun _ => trivial⟩

/-- The invariant of the runs that are undisturbed at a position. -/
structure Tracked (pos : V3) (s : Lighting) : Prop where
  kept : s.Kept pos
  processed : ∀ i, pos ∈ (s.passes i).processed → pos ∉ s.requested

theorem Tracked.change {i : ℕ} {p : LightingPass} (h : Tracked pos s)
    (hpasses : s'.passes = Function.update s.passes i p)
    (hrequested : pos ∈ s'.requested → pos ∈ s.requested)
    (hdropped : pos ∈ s.dropped → pos ∈ s'.dropped)
    (hqueued : pos ∈ s'.requested → s.queue.Queued pos → s'.queue.Queued pos ∨ p.Holds pos)
    (hholds : pos ∈ s'.requested → (s.passes i).Holds pos → pos ∈ s'.dropped ∨ p.Holds pos)
    (hprocessed : pos ∈ s'.requested → pos ∈ p.processed → pos ∈ (s.passes i).processed) :
    Tracked pos s' := by
  have hself : s'.passes i = p := by simp [hpasses]
  have hother : ∀ j, j ≠ i → s'.passes j = s.passes j := fun j hj => by simp [hpasses, hj]
  refine ⟨fun hreq => ?_, fun j hj hreq => ?_⟩
  · rcases h.kept (hrequested hreq) with hdrop | hqueue | ⟨j, hj⟩
    · exact .inl (hdropped hdrop)
    · rcases hqueued hreq hqueue with hqueue | hhold
      · exact .inr (.inl hqueue)
      · exact .inr (.inr ⟨i, by rwa [hself]⟩)
    · rcases eq_or_ne j i with rfl | hne
      · rcases hholds hreq hj with hdrop | hhold
        · exact .inl hdrop
        · exact .inr (.inr ⟨j, by rwa [hself]⟩)
      · exact .inr (.inr ⟨j, by rwa [hother j hne]⟩)
  · rcases eq_or_ne j i with rfl | hne
    · rw [hself] at hj
      exact h.processed j (hprocessed hreq hj) (hrequested hreq)
    · rw [hother j hne] at hj
      exact h.processed j hj (hrequested hreq)

theorem Tracked.step (h : Tracked pos s) (hI : s.Indexed) (hok : Undisturbed pos s e)
    (hs : s.step order e = some s') : Tracked pos s' := by
  unfold Lighting.step at hs
  cases e with
  | add pos' range =>
    cases hs
    by_cases hpos : pos = pos'
    · subst hpos
      refine ⟨fun _ => .inr (.inl (LightingQueue.queued_add.2 (.inl rfl))), fun i hi => ?_⟩
      exact absurd hi (hok rfl i)
    · refine ⟨fun hreq => ?_, fun i hi hreq => ?_⟩
      · have hreq := (List.mem_cons.1 hreq).resolve_left hpos
        rcases h.kept hreq with hdrop | hqueue | hheld
        · exact .inl (List.mem_filter.2 ⟨hdrop, by simpa using hpos⟩)
        · exact .inr (.inl (LightingQueue.queued_add.2 (.inr hqueue)))
        · exact .inr (.inr hheld)
      · exact h.processed i hi ((List.mem_cons.1 hreq).resolve_left hpos)
  | start i =>
    simp only at hs
    split at hs <;> cases hs
    next hpass =>
      refine h.change rfl id id (fun _ => .inl) (fun _ hhold => ?_) fun _ hmem => ?_
      · rw [hpass] at hhold
        exact hhold.elim
      · simp [LightingPass.processed] at hmem
  | take i =>
    simp only at hs
    split at hs
    next processed hpass =>
      have hfree : ¬(s.passes i).Holds pos := by
        rw [hpass]
        exact id
      split at hs <;> cases hs
      next =>
        refine h.change rfl id id (fun _ => .inl) (fun _ hhold => absurd hhold hfree) fun _ hmem => ?_
        rw [hpass]
        exact hmem
      next r htake =>
        refine h.change rfl id id (fun _ hqueue => ?_) (fun _ hhold => absurd hhold hfree)
          fun _ hmem => ?_
        -- the blocks that are taken out are those the pass holds
        · exact (((hI.consistent.take htake).2 pos).1 hqueue).symm
        · rw [hpass]
          exact hmem
    next => cases hs
  | repair i r =>
    simp only at hs
    split at hs
    next range blocks pos' todo modified processed hpass =>
      cases r with
      | notLoaded =>
        cases hs
        refine h.change rfl id (List.mem_cons_of_mem _) (fun _ => .inl) (fun _ hhold => ?_)
          fun _ hmem => ?_
        · rw [hpass] at hhold
          rcases List.mem_cons.1 hhold with rfl | htodo
          · exact .inl List.mem_cons_self
          · exact .inr htodo
        · rw [hpass]
          exact hmem
      | failed =>
        cases hs
        refine h.change rfl id id (fun _ => .inl) (fun _ hhold => ?_) fun _ hmem => ?_
        · rw [hpass] at hhold
          rcases List.mem_cons.1 hhold with rfl | htodo
          · exact absurd hpass (hok range blocks todo modified processed)
          · exact .inr htodo
        · rw [hpass]
          exact hmem
      | repaired others =>
        cases hs
        have hreq : ∀ {l : List V3}, pos ∈ l.filter (· ≠ pos') → pos ≠ pos' := fun hmem =>
          by simpa using (List.mem_filter.1 hmem).2
        refine h.change rfl (fun hmem => (List.mem_filter.1 hmem).1) id (fun _ => .inl)
          (fun hmem hhold => ?_) fun hmem hdone => ?_
        · rw [hpass] at hhold
          exact .inr ((List.mem_cons.1 hhold).resolve_left (hreq hmem))
        · rw [hpass]
          exact (List.mem_cons.1 hdone).resolve_left (hreq hmem)
    next => cases hs
  | putBack i more =>
    simp only at hs
    split at hs <;> cases hs
    next range blocks modified processed hpass =>
      have hrest := hI.leavesNothing i
      rw [hpass] at hrest
      refine h.change rfl id id (fun _ hqueue => .inl ?_) (fun _ hhold => ?_) fun _ hmem => ?_
      · simp only [putBack_filter hrest]
        exact hqueue
      · rw [hpass] at hhold
        exact absurd hhold (by simp [LightingPass.Holds])
      · rw [hpass]
        cases more <;> exact hmem
  | finish i =>
    simp only at hs
    split at hs <;> cases hs
    next processed hpass =>
      refine h.change rfl id id (fun hreq hqueue => .inl ?_) (fun _ hhold => ?_) fun _ hmem => ?_
      -- what was repaired in this pass is not requested
      · have hnot : pos ∉ processed := fun hmem => h.processed i (by rwa [hpass]) hreq
        rw [LightingQueue.queued_iff, LightingQueue.lookup_forgetAll hnot]
        exact LightingQueue.queued_iff.1 hqueue
      · rw [hpass] at hhold
        exact hhold.elim
      · simp [LightingPass.processed] at hmem

theorem tracked_of_run (h : (lts order).Run (Undisturbed pos) s) : Tracked pos s := by
  have hboth := h.invariant (I := fun s => s.Indexed ∧ Tracked pos s) (fun s hs => ?_)
    fun s e s' hI hok hs => ⟨hI.1.step hs, hI.2.step hI.1 hok hs⟩
  · exact hboth.2
  · cases hs
    refine ⟨⟨LightingQueue.consistent_empty, fun _ => trivial⟩, ?_, ?_⟩
    · intro hmem
      simp at hmem
    · intro i hmem
      simp [LightingPass.processed] at hmem

theorem run_next {ok : Lighting → Event → Prop} (h : (lts order).Run ok s) (hok : ok s e)
    (hs : s.step order e = some s') : (lts order).Run ok s' := .step h hok hs

end Lighting

end Freeminer.Server
