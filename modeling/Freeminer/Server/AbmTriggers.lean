import Freeminer.Block.MapBlock
import Freeminer.Voxel.Light

/-! `MapBlock::abmTriggersRun` (`fm_abm.cpp`): the triggers that `ABMHandler::apply` stored for a block
are gone through, and those whose node has changed are erased from the list on the way. -/

namespace Freeminer.Server

open Block (MapNode Content CONTENT_IGNORE)
open Voxel (V3 getNodeBlockPos)

/-- What is read of an `ABMWithState` and of its modifier, which is called by its number. -/
structure ABMWithState where
  abm : ℕ
  interval : ℚ
  chance : ℚ
  simple_catchup : Bool
  min_y : ℤ
  max_y : ℤ

/-- `abm_trigger_one`; what it points to is the `abmws` of its `ActiveABM`, if there are both. -/
structure AbmTrigger where
  abmws : Option ABMWithState
  pos : V3
  content : Content
  active_object_count : UInt32
  active_object_count_wider : UInt32
  neighbor_pos : V3

/-- What the run asks of the rest of the server. `div` is the division of floats, `toInt` their
conversion. -/
structure AbmEnv (World : Type) where
  div : ℚ → ℚ → ℚ
  toInt : ℚ → UInt32
  ofSeconds : UInt32 → ℚ
  myrand : World → World × UInt32
  /-- The node is `CONTENT_IGNORE` where its block is not loaded. -/
  getNodeTry : World → V3 → MapNode
  trigger : ABMWithState → V3 → MapNode → UInt32 → UInt32 → V3 → World → World
  /-- `m_added_objects`, and setting it to zero. -/
  addedObjects : World → ℕ
  clearAddedObjects : World → World
  /-- `blocks_with_abm.put` of the time for the block. -/
  putBlockWithAbm : UInt32 → World → World
  /-- What is counted around a block, if it is loaded. -/
  countObjects : World → V3 → Option (UInt32 × UInt32)

/-- What the loop carries from one trigger to the next. -/
structure AbmRun (World : Type) where
  world : World
  active_object_added : V3 → UInt32 := fun _ => 0
  triggers_count : ℕ := 0

section Examine

variable {World : Type} (env : AbmEnv World) (dtime : ℚ)

/-- `chance`, as it is cut down for the intervals that have passed. -/
def AbmEnv.chance (a : ABMWithState) : UInt32 :=
  let intervals := if a.simple_catchup then env.div dtime a.interval else 1
  env.toInt (env.div a.chance (if intervals = 0 then 1 else intervals))

def AbmEnv.hits (a : ABMWithState) (s : AbmRun World) : AbmRun World × Bool :=
  let chance := env.chance dtime a
  if chance = 0 then (s, true)
  else
    let r := env.myrand s.world
    ({ s with world := r.1 }, r.2 % chance = 0)

/-- The modifier is called, and the objects are counted again if it added any. -/
def AbmEnv.call (a : ABMWithState) (t : AbmTrigger) (node : MapNode) (s : AbmRun World) :
    AbmRun World × AbmTrigger :=
  let blockpos := getNodeBlockPos t.pos
  let active_object_add := s.active_object_added blockpos
  let world := env.trigger a t.pos node (t.active_object_count + active_object_add)
    (t.active_object_count_wider + active_object_add) t.neighbor_pos s.world
  let s := { s with world, triggers_count := s.triggers_count + 1 }
  if env.addedObjects world = 0 then (s, t)
  else
    let s := { s with world := env.clearAddedObjects world }
    match env.countObjects world blockpos with
    | none => (s, t)
    | some (count, wider) =>
      let added := if t.active_object_count < count then
        Function.update s.active_object_added blockpos (count - t.active_object_count)
        else s.active_object_added
      ({ s with active_object_added := added },
        { t with active_object_count := count, active_object_count_wider := wider })

/-- The body of the loop for one trigger: what it leaves of it, or nothing where it erases it. -/
def AbmEnv.examine (s : AbmRun World) (t : AbmTrigger) : AbmRun World × Option AbmTrigger :=
  match t.abmws with
  | none => (s, none)
  | some a =>
    if a.interval = 0 then (s, none)
    else if t.pos.Y < a.min_y ∨ a.max_y < t.pos.Y then (s, some t)
    else
      let (s, hit) := env.hits dtime a s
      if hit then
        let node := env.getNodeTry s.world t.pos
        if node.param0 ≠ t.content then
          if node.param0 ≠ CONTENT_IGNORE then (s, none) else (s, some t)
        else
          let r := env.call a t node s
          (r.1, some r.2)
      else (s, some t)

end Examine

/-- What a run did: the triggers that were examined, by their places in the list, with whether each was
found stale; those that stay, with their places; and whether the iterator went past the end. -/
structure Visit (S T : Type) where
  state : S
  examined : List (ℕ × Bool) := []
  kept : List (ℕ × T) := []
  pastEnd : Bool := false

namespace Visit

variable {S T : Type}

/-- The trigger at `i` was kept, then the rest was gone through. -/
def keep (i : ℕ) (t : T) (v : Visit S T) : Visit S T :=
  { v with examined := (i, false) :: v.examined, kept := (i, t) :: v.kept }

/-- The trigger at `i` was erased, then the rest was gone through. -/
def drop (i : ℕ) (v : Visit S T) : Visit S T := { v with examined := (i, true) :: v.examined }

/-- The iterator went over the trigger at `i`. -/
def pass (i : ℕ) (t : T) (v : Visit S T) : Visit S T := { v with kept := (i, t) :: v.kept }

/-- Each of the `n` triggers from place `i` on is examined once, exactly the stale ones are erased, and
the end is not left. -/
structure Exact (i n : ℕ) (v : Visit S T) : Prop where
  examined : v.examined.map Prod.fst = List.range' i n
  kept : v.kept.map Prod.fst = (v.examined.filter fun e => !e.2).map Prod.fst
  inside : v.pastEnd = false

end Visit

section Loop

variable {S T : Type} (examine : S → T → S × Option T)

/-- The loop from the trigger at place `i` on. `erase` gives the trigger after the one that is erased,
and `continue` goes on to the one after that. -/
def visit (i : ℕ) : S → List T → Visit S T
  | s, [] => { state := s }
  | s, t :: ts =>
    match examine s t with
    | (s, some t) => (visit (i + 1) s ts).keep i t
    | (s, none) =>
      match ts with
      | [] => { state := s, examined := [(i, true)], pastEnd := true }
      | next :: ts => ((visit (i + 2) s ts).pass (i + 1) next).drop i

/-- Every trigger is examined in turn: the places of those that are found stale. -/
def staleIn (i : ℕ) : S → List T → List ℕ
  | _, [] => []
  | s, t :: ts =>
    match examine s t with
    | (s, some _) => staleIn (i + 1) s ts
    | (s, none) => i :: staleIn (i + 1) s ts

variable {examine} {i : ℕ} {s : S} {ts : List T}

theorem le_of_mem_examined {e : ℕ × Bool} (h : e ∈ (visit examine i s ts).examined) : i ≤ e.1 := by
  fun_induction visit examine i s ts with
  | case1 => simp at h
  | case2 i s t ts s' t' hkeep ih =>
    rcases List.mem_cons.1 h with rfl | h
    · exact le_rfl
    · exact (Nat.le_succ i).trans (ih h)
  | case3 => simp_all
  | case4 i s t s' hdrop next ts ih =>
    rcases List.mem_cons.1 h with rfl | h
    · exact le_rfl
    · exact (Nat.le_add_right i 2).trans (ih h)

namespace Visit

variable {t : T} {n : ℕ} {v : Visit S T}

theorem exact_keep_iff : (v.keep i t).Exact i (n + 1) ↔ v.Exact (i + 1) n := by
  constructor
  · rintro ⟨hexamined, hkept, hinside⟩
    rw [List.range'_succ] at hexamined
    simp only [keep, List.map_cons, List.cons.injEq, true_and] at hexamined
    simp only [keep, List.filter_cons, Bool.not_false, if_true, List.map_cons, List.cons.injEq,
      true_and] at hkept
    exact ⟨hexamined, hkept, hinside⟩
  · rintro ⟨hexamined, hkept, hinside⟩
    refine ⟨?_, ?_, hinside⟩
    · rw [List.range'_succ]
      simp [keep, hexamined]
    · simp [keep, hkept]

end Visit

/-- The loop does what it should when no trigger is found stale, and only then: the first that is takes
the trigger after it along, or the end. -/
theorem visit_exact_iff : (visit examine i s ts).Exact i ts.length ↔ staleIn examine i s ts = [] := by
  fun_induction visit examine i s ts with
  | case1 => exact ⟨fun _ => rfl, fun _ => ⟨rfl, rfl, rfl⟩⟩
  | case2 i s t ts s' t' hkeep ih =>
    rw [List.length_cons, Visit.exact_keep_iff, ih, staleIn, hkeep]
  | case3 i s t s' hdrop =>
    rw [staleIn, hdrop]
    simp only [List.cons_ne_nil, iff_false]
    intro h
    exact absurd h.inside (by simp)
  | case4 i s t s' hdrop next ts ih =>
    rw [staleIn, hdrop]
    simp only [List.cons_ne_nil, iff_false]
    intro h
    -- the place after the stale one is not examined
    have hexamined := h.examined
    rw [List.length_cons, List.length_cons, List.range'_succ, List.range'_succ] at hexamined
    simp only [Visit.drop, Visit.pass, List.map_cons, List.cons.injEq, true_and] at hexamined
    have hmem : i + 1 ∈ (visit examine (i + 2) s' ts).examined.map Prod.fst := by simp [hexamined]
    obtain ⟨e, he, heq⟩ := List.mem_map.1 hmem
    have hle := le_of_mem_examined he
    omega

end Loop

/-- What `abmTriggersRun` reads and writes of a block. -/
structure AbmBlock where
  abm_triggers : Option (List AbmTrigger)
  m_abm_timestamp : UInt32
  actualTimestamp : UInt32

/-- What a call of `abmTriggersRun` did, with the count that it returns. -/
structure AbmOutcome (World : Type) where
  block : AbmBlock
  world : World
  visit : Visit (AbmRun World) AbmTrigger
  triggers_count : ℕ

section Run

variable {World : Type} (env : AbmEnv World)

def AbmBlock.dtime (block : AbmBlock) (time : UInt32) : UInt32 :=
  let dtime :=
    if block.m_abm_timestamp ≠ 0 then time - block.m_abm_timestamp
    else if block.actualTimestamp ≠ 0 then time - block.actualTimestamp
    else 1
  if dtime = 0 then 1 else dtime

def AbmBlock.triggers (block : AbmBlock) : List AbmTrigger := block.abm_triggers.getD []

/-- The triggers that are found stale when each is examined in turn. -/
def AbmEnv.stale (time : UInt32) (block : AbmBlock) (w : World) : List ℕ :=
  staleIn (env.examine (env.ofSeconds (block.dtime time))) 0 { world := w } block.triggers

/-- `owns_lock` tells whether the mutex of the triggers was free. -/
def AbmEnv.abmTriggersRun (owns_lock : Bool) (time : UInt32) (block : AbmBlock) (w : World) :
    AbmOutcome World :=
  match owns_lock, block.abm_triggers with
  | true, some triggers =>
    let v := visit (env.examine (env.ofSeconds (block.dtime time))) 0 { world := w } triggers
    let block := { block with
      abm_triggers := if v.kept.isEmpty then none else some (v.kept.map Prod.snd)
      m_abm_timestamp := time }
    let w := v.state.world
    { block, visit := v, triggers_count := v.state.triggers_count
      world := if v.state.triggers_count = 0 then w else env.putBlockWithAbm time w }
  | _, _ =>
    { block, world := w, triggers_count := 0
      visit := { state := { world := w }, kept := block.triggers.zipIdx.map Prod.swap } }

variable {env} {owns_lock : Bool} {time : UInt32} {block : AbmBlock} {w : World}

/-- When a run goes through the stored triggers as it should. -/
theorem abmTriggersRun_exact_iff :
    (env.abmTriggersRun owns_lock time block w).visit.Exact 0 block.triggers.length ↔
      block.triggers = [] ∨ owns_lock = true ∧ env.stale time block w = [] := by
  unfold AbmEnv.abmTriggersRun
  split
  next triggers hsome =>
    have htriggers : block.triggers = triggers := by simp [AbmBlock.triggers, hsome]
    rw [AbmEnv.stale, htriggers, visit_exact_iff]
    constructor
    · intro h
      exact .inr ⟨rfl, h⟩
    · rintro (h | h)
      · rw [h]
        rfl
      · exact h.2
  next hnot =>
    constructor
    · intro h
      have := congrArg List.length h.examined
      simp at this
      exact .inl (List.length_eq_zero_iff.1 this.symm)
    · rintro (h | ⟨rfl, -⟩)
      · rw [h]
        exact ⟨rfl, rfl, rfl⟩
      · cases hsome : block.abm_triggers with
        | none =>
          simp only [AbmBlock.triggers, hsome]
          exact ⟨rfl, rfl, rfl⟩
        | some triggers => exact absurd hsome (hnot triggers rfl)

/-- A server where nothing is called, with a node of content 6 everywhere. -/
def changedEnv : AbmEnv Unit where
  div a b := a / b
  toInt q := UInt32.ofNat q.num.toNat
  ofSeconds t := t.toNat
  myrand w := (w, 0)
  getNodeTry _ _ := { param0 := 6 }
  trigger _ _ _ _ _ _ w := w
  addedObjects _ := 0
  clearAddedObjects w := w
  putBlockWithAbm _ w := w
  countObjects _ _ := none

def changedBlock : AbmBlock where
  abm_triggers := some [{
    abmws := some { abm := 0, interval := 10, chance := 1, simple_catchup := false, min_y := -100,
                    max_y := 100 }
    pos := ⟨0, 0, 0⟩, content := 5, active_object_count := 0, active_object_count_wider := 0
    neighbor_pos := ⟨0, 0, 0⟩ }]
  m_abm_timestamp := 0
  actualTimestamp := 0

theorem not_abmTriggersRun_exact :
    ¬∀ (env : AbmEnv Unit) (time : UInt32) (block : AbmBlock),
      (env.abmTriggersRun true time block ()).visit.Exact 0 block.triggers.length := by
  intro h
  have hinside := (h changedEnv 1 changedBlock).inside
  have hpast : (changedEnv.abmTriggersRun true 1 changedBlock ()).visit.pastEnd = true := by
    decide +kernel
  rw [hpast] at hinside
  cases hinside

end Run

end Freeminer.Server
