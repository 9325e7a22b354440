import Mathlib.Order.Interval.Finset.Basic
import Freeminer.Pathfinding.Pathfinder

/-! Which elements of the grid the path finder accesses (`pathfinder.cpp`). Dijkstra tests an index
before it reads the element; A* reads the neighbors in all four directions of each node that it
expands, and the array ends where the test does. -/

namespace Freeminer.Pathfinding

open Voxel (V3)

/-! ## Positions and indices -/

section Positions

variable (pf : Pathfinder) (p d : V3)

theorem add_neg_cancel : p + d + -d = p := by
  change (⟨p.X + d.X + -d.X, p.Y + d.Y + -d.Y, p.Z + d.Z + -d.Z⟩ : V3) = ⟨p.X, p.Y, p.Z⟩
  simp

theorem getRealPos_getIndexPos : pf.getRealPos (pf.getIndexPos p) = p := by
  change (⟨pf.MinEdge.X + (p.X - pf.MinEdge.X), pf.MinEdge.Y + (p.Y - pf.MinEdge.Y),
    pf.MinEdge.Z + (p.Z - pf.MinEdge.Z)⟩ : V3) = ⟨p.X, p.Y, p.Z⟩
  simp

theorem getIndexPos_getRealPos : pf.getIndexPos (pf.getRealPos p) = p := by
  change (⟨pf.MinEdge.X + p.X - pf.MinEdge.X, pf.MinEdge.Y + p.Y - pf.MinEdge.Y,
    pf.MinEdge.Z + p.Z - pf.MinEdge.Z⟩ : V3) = ⟨p.X, p.Y, p.Z⟩
  simp

theorem getRealPos_add : pf.getRealPos (p + d) = pf.getRealPos p + d := by
  change (⟨pf.MinEdge.X + (p.X + d.X), pf.MinEdge.Y + (p.Y + d.Y), pf.MinEdge.Z + (p.Z + d.Z)⟩ : V3) =
    ⟨pf.MinEdge.X + p.X + d.X, pf.MinEdge.Y + p.Y + d.Y, pf.MinEdge.Z + p.Z + d.Z⟩
  simp only [add_assoc]

variable {pf} {p} {q : V3}

theorem getIndexPos_eq_iff : pf.getIndexPos p = q ↔ p = pf.getRealPos q := by
  constructor
  · rintro rfl
    exact (getRealPos_getIndexPos pf p).symm
  · rintro rfl
    exact getIndexPos_getRealPos pf q

end Positions

/-! ## Runs that stay inside -/

/-- The run does not leave the grid, and what it returns is as it should be. -/
def Fine {α : Type} (P : α → Prop) : Except PathFault α → Prop
  | .ok a => P a
  | .error e => e ≠ .outside ∧ e ≠ .overflow

namespace Fine

variable {α β : Type} {P : α → Prop} {Q : β → Prop} {x : Except PathFault α}
  {f : α → Except PathFault β}

theorem bind (h : Fine P x) (hf : ∀ a, P a → Fine Q (f a)) : Fine Q (x.bind f) := by
  cases x with
  | ok a => exact hf a h
  | error e => exact h

theorem ne (h : Fine P x) : x ≠ .error .outside ∧ x ≠ .error .overflow := by
  cases x with
  | ok a => exact ⟨by simp, by simp⟩
  | error e =>
    refine ⟨fun heq => ?_, fun heq => ?_⟩
    · cases heq
      exact h.1 rfl
    · cases heq
      exact h.2 rfl

end Fine

namespace Pathfinder

variable {pf : Pathfinder} {nodes : Nodes} {ipos n dir : V3}

theorem getIndexElement_inside (h : pf.Inside ipos) :
    pf.getIndexElement nodes ipos = .ok (nodes ipos) :=
  if_pos h

theorem getIndexElement_outside (h : ¬pf.Inside ipos) :
    pf.getIndexElement nodes ipos = .error .outside :=
  if_neg h

theorem fine_getIndexElement {β : Type} {Q : β → Prop} {f : PathGridnode → Except PathFault β}
    (h : pf.Inside ipos) (hf : Fine Q (f (nodes ipos))) :
    Fine Q ((pf.getIndexElement nodes ipos).bind f) := by
  rw [getIndexElement_inside h]
  exact hf

theorem modify_self {f : PathGridnode → PathGridnode} : modify nodes ipos f ipos = f (nodes ipos) :=
  Function.update_self _ _ _

theorem modify_of_ne {f : PathGridnode → PathGridnode} (h : n ≠ ipos) :
    modify nodes ipos f n = nodes n :=
  Function.update_of_ne h _ _

theorem Inside.of_valid (h : pf.isValidIndex ipos = true) : pf.Inside ipos := fun _ => h

def Linked (pf : Pathfinder) (nodes : Nodes) : Prop :=
  ∀ p, pf.Inside p → pf.Inside (p + (nodes p).sourcedir)

theorem Linked.modify (h : pf.Linked nodes) {f : PathGridnode → PathGridnode}
    (hf : pf.Inside (ipos + (f (nodes ipos)).sourcedir)) :
    pf.Linked (Pathfinder.modify nodes ipos f) := by
  intro p hp
  by_cases heq : p = ipos
  · subst heq
    rwa [modify_self]
  · rw [modify_of_ne heq]
    exact h p hp

/-! ## Dijkstra -/

section Dijkstra

variable {srcdir : V3} {current_cost : ℤ} {s : AllCosts}

theorem fine_updateDirections {update : V3 → V3 → ℤ → AllCosts → Except PathFault (Bool × AllCosts)}
    (hupdate : ∀ ipos srcdir current_cost s, pf.Inside ipos → pf.Inside (ipos + srcdir) →
      pf.Linked s.nodes → Fine (fun r => pf.Linked r.2.nodes) (update ipos srcdir current_cost s))
    (hipos : pf.Inside ipos) (dirs : List V3) (retval : Bool) (h : pf.Linked s.nodes) :
    Fine (fun r => pf.Linked r.2.nodes)
      (pf.updateDirections update ipos srcdir current_cost dirs retval s) := by
  induction dirs generalizing retval s with
  | nil => exact h
  | cons direction rest ih =>
    rw [updateDirections]
    dsimp only
    split_ifs with hback hcost hvalid
    · exact ih retval h
    · exact ih retval h
    · exact ih retval h
    -- the index is tested before the element is read
    · refine fine_getIndexElement (.of_valid (by simpa using hvalid)) ?_
      split_ifs
      · exact ih retval h
      · exact h
    · refine fine_getIndexElement (.of_valid (by simpa using hvalid)) ?_
      split_ifs
      · exact ih retval h
      · refine Fine.bind (hupdate _ _ _ _ (.of_valid (by simpa using hvalid)) ?_ h)
          fun r hr => ih _ hr
        rwa [add_neg_cancel]
      · exact ih retval h

theorem fine_updateAllCosts (fuel : ℕ) (hipos : pf.Inside ipos) (hsrc : pf.Inside (ipos + srcdir))
    (h : pf.Linked s.nodes) :
    Fine (fun r => pf.Linked r.2.nodes) (pf.updateAllCosts fuel ipos srcdir current_cost s) := by
  induction fuel generalizing ipos srcdir current_cost s with
  | zero => exact ⟨by simp, by simp⟩
  | succ fuel ih =>
    have hlinked : pf.Linked (Pathfinder.modify s.nodes ipos fun g_pos =>
        { g_pos with totalcost := current_cost, sourcedir := srcdir }) := h.modify hsrc
    rw [updateAllCosts]
    refine fine_getIndexElement hipos ?_
    dsimp only
    split_ifs
    · exact hlinked
    · exact fine_updateDirections (fun _ _ _ _ hin hin' hs => ih hin hin' hs) hipos directions false
        hlinked

end Dijkstra

/-! ## Paths -/

theorem fine_buildPath (h : pf.Linked nodes) (k : ℕ) (hipos : pf.Inside ipos) :
    Fine (fun path => ∀ p ∈ path, pf.Inside p) (pf.buildPath nodes k ipos) := by
  induction k generalizing ipos with
  | zero => exact fun p hp => absurd hp List.not_mem_nil
  | succ k ih =>
    rw [buildPath]
    refine fine_getIndexElement hipos ?_
    split_ifs
    · exact fun p hp => absurd hp List.not_mem_nil
    · exact fun p hp => by rwa [List.mem_singleton.1 hp]
    · refine Fine.bind (ih (h ipos hipos)) fun path hpath p hp => ?_
      rcases List.mem_cons.1 hp with rfl | hp
      · exact hipos
      · exact hpath p hp

theorem fine_fullPath {path : List V3} (h : ∀ p ∈ path, pf.Inside p) :
    Fine (fun _ => True) (pf.fullPath nodes path) := by
  induction path with
  | nil => exact trivial
  | cons ipos path ih =>
    rw [fullPath]
    refine fine_getIndexElement (h ipos List.mem_cons_self) ?_
    exact Fine.bind (ih fun p hp => h p (List.mem_cons_of_mem _ hp)) fun _ _ => trivial

/-! ## The elements of A* -/

def stepCost (pf : Pathfinder) (n dir : V3) : PathCost := pf.calcCost (pf.getRealPos n) dir

def neighbor (pf : Pathfinder) (n dir : V3) : V3 := n + withHeight dir (pf.stepCost n dir).y_change

structure Grid (pf : Pathfinder) (nodes : Nodes) : Prop where
  valid : ∀ n, (nodes n).valid = (pf.initNode n).valid
  cost : ∀ n, ∀ dir ∈ directions, ((nodes n).getCost dir).updated = true →
    (nodes n).getCost dir = pf.stepCost n dir
  linked : pf.Linked nodes

/-- An element to which nothing was written that the search relies on. -/
theorem Grid.modify (h : pf.Grid nodes) {f : PathGridnode → PathGridnode}
    (hvalid : (f (nodes ipos)).valid = (nodes ipos).valid)
    (hcost : (f (nodes ipos)).directions = (nodes ipos).directions)
    (hlinked : pf.Inside (ipos + (f (nodes ipos)).sourcedir)) :
    pf.Grid (Pathfinder.modify nodes ipos f) := by
  refine ⟨fun n => ?_, fun n dir hdir hupdated => ?_, h.linked.modify hlinked⟩
  · by_cases heq : n = ipos
    · subst heq
      rw [modify_self, hvalid, h.valid]
    · rw [modify_of_ne heq, h.valid]
  · by_cases heq : n = ipos
    · subst heq
      have hsame : (f (nodes n)).getCost dir = (nodes n).getCost dir := by
        unfold PathGridnode.getCost
        rw [hcost]
      rw [modify_self, hsame] at hupdated ⊢
      exact h.cost n dir hdir hupdated
    · rw [modify_of_ne heq] at hupdated ⊢
      exact h.cost n dir hdir hupdated

theorem add_zero_pos (p : V3) : p + ⟨0, 0, 0⟩ = p := by
  change (⟨p.X + 0, p.Y + 0, p.Z + 0⟩ : V3) = ⟨p.X, p.Y, p.Z⟩
  simp

theorem grid_initNode (pf : Pathfinder) : pf.Grid pf.initNode := by
  refine ⟨fun _ => rfl, fun n dir hdir hupdated => ?_, fun p hp => ?_⟩
  · unfold initNode at hupdated ⊢
    dsimp only at hupdated ⊢
    simp only [directions, List.mem_cons, List.not_mem_nil, or_false] at hdir
    split_ifs at hupdated ⊢
    · rcases hdir with rfl | rfl | rfl | rfl <;> rfl
    · rcases hdir with rfl | rfl | rfl | rfl <;> cases hupdated
    · rcases hdir with rfl | rfl | rfl | rfl <;> cases hupdated
  · have hzero : (pf.initNode p).sourcedir = ⟨0, 0, 0⟩ := by
      unfold initNode
      dsimp only
      split_ifs <;> rfl
    rwa [hzero, add_zero_pos]

/-! ## A* -/

section Heuristic

variable {s s' : Nodes × List V3} {openList : List V3} {StartIndex EndIndex m : V3}
  {queue : PriorityQueue}

def noted (pf : Pathfinder) (nodes : Nodes) (n dir : V3) : Nodes :=
  if ((nodes n).getCost dir).updated then nodes
  else modify nodes n fun g_pos => g_pos.setCost dir (pf.stepCost n dir)

theorem slot_injective {dir' : V3} (hdir : dir ∈ directions) (hdir' : dir' ∈ directions)
    (h : slot dir = slot dir') : dir = dir' := by
  simp only [directions, List.mem_cons, List.not_mem_nil, or_false] at hdir hdir'
  rcases hdir with rfl | rfl | rfl | rfl <;> rcases hdir' with rfl | rfl | rfl | rfl <;>
    first
    | rfl
    | exact absurd h (by decide)

theorem getCost_setCost {g_pos : PathGridnode} {cost : PathCost} {dir' : V3} (hdir : dir ∈ directions)
    (hdir' : dir' ∈ directions) :
    (g_pos.setCost dir cost).getCost dir' = if dir' = dir then cost else g_pos.getCost dir' := by
  obtain ⟨d, hd⟩ : ∃ d, slot dir = some d := by
    simp only [directions, List.mem_cons, List.not_mem_nil, or_false] at hdir
    rcases hdir with rfl | rfl | rfl | rfl
    · exact ⟨.DIR_XP, rfl⟩
    · exact ⟨.DIR_XM, rfl⟩
    · exact ⟨.DIR_ZP, rfl⟩
    · exact ⟨.DIR_ZM, rfl⟩
  by_cases heq : dir' = dir
  · subst heq
    simp [PathGridnode.setCost, PathGridnode.getCost, hd]
  · rw [if_neg heq]
    cases hd' : slot dir' with
    | none => simp [PathGridnode.getCost, hd']
    | some d' =>
      have hne : d' ≠ d := fun h => heq (slot_injective hdir' hdir (by rw [hd, hd', h]))
      simp [PathGridnode.setCost, PathGridnode.getCost, hd, hd', hne]

theorem setCost_rest (g_pos : PathGridnode) (dir : V3) (cost : PathCost) :
    (g_pos.setCost dir cost).valid = g_pos.valid ∧
      (g_pos.setCost dir cost).sourcedir = g_pos.sourcedir ∧
      (g_pos.setCost dir cost).is_closed = g_pos.is_closed ∧
      (g_pos.setCost dir cost).is_open = g_pos.is_open := by
  unfold PathGridnode.setCost
  split <;> exact ⟨rfl, rfl, rfl, rfl⟩

theorem noted_rest (pf : Pathfinder) (nodes : Nodes) (n dir m : V3) :
    (pf.noted nodes n dir m).valid = (nodes m).valid ∧
      (pf.noted nodes n dir m).sourcedir = (nodes m).sourcedir ∧
      (pf.noted nodes n dir m).is_closed = (nodes m).is_closed ∧
      (pf.noted nodes n dir m).is_open = (nodes m).is_open := by
  unfold noted
  split_ifs
  · exact ⟨rfl, rfl, rfl, rfl⟩
  · by_cases heq : m = n
    · subst heq
      rw [modify_self]
      exact setCost_rest _ _ _
    · rw [modify_of_ne heq]
      exact ⟨rfl, rfl, rfl, rfl⟩

theorem Grid.noted (h : pf.Grid nodes) (hdir : dir ∈ directions) : pf.Grid (pf.noted nodes n dir) := by
  refine ⟨fun m => ?_, fun m dir' hdir' hupdated => ?_, fun p hp => ?_⟩
  · rw [(noted_rest pf nodes n dir m).1, h.valid]
  · unfold Pathfinder.noted at hupdated ⊢
    split_ifs at hupdated ⊢
    · exact h.cost m dir' hdir' hupdated
    · by_cases heq : m = n
      · subst heq
        rw [modify_self, getCost_setCost hdir hdir'] at hupdated ⊢
        split_ifs at hupdated ⊢ with hsame
        · rw [hsame]
        · exact h.cost m dir' hdir' hupdated
      · rw [modify_of_ne heq] at hupdated ⊢
        exact h.cost m dir' hdir' hupdated
  · rw [(noted_rest pf nodes n dir p).2.1]
    exact h.linked p hp

def Fresh (nodes : Nodes) (p : V3) : Prop := (nodes p).is_closed = false ∧ (nodes p).is_open = false

instance (nodes : Nodes) (p : V3) : Decidable (Fresh nodes p) := inferInstanceAs (Decidable (_ ∧ _))

structure Opened (pf : Pathfinder) (n dir : V3) (s s' : Nodes × List V3) : Prop where
  grid : pf.Grid s'.1
  closed : ∀ m, (s'.1 m).is_closed = (s.1 m).is_closed
  opened : (s'.2 = s.2 ∧ (∀ m, (s'.1 m).is_open = (s.1 m).is_open) ∧
      ((pf.stepCost n dir).valid = true → ¬Fresh s.1 (pf.neighbor n dir))) ∨
    (s'.2 = s.2 ++ [pf.getRealPos (pf.neighbor n dir)] ∧
      (∀ m, (s'.1 m).is_open = if m = pf.neighbor n dir then true else (s.1 m).is_open) ∧
      (pf.stepCost n dir).valid = true ∧ Fresh s.1 (pf.neighbor n dir))

def openedNode (pf : Pathfinder) (nodes : Nodes) (n dir : V3) (n_pos : PathGridnode) : PathGridnode :=
  { n_pos with
    sourcedir := -withHeight dir (pf.stepCost n dir).y_change
    totalcost := (nodes n).totalcost + (pf.stepCost n dir).value
    estimated_cost := (nodes n).totalcost + (pf.stepCost n dir).value +
      pf.getXZManhattanDist (pf.getRealPos (pf.neighbor n dir))
    is_open := true }

theorem openNeighbor_eq (hgrid : pf.Grid s.1) (hdir : dir ∈ directions) :
    pf.openNeighbor (pf.getRealPos n) dir s =
      (pf.getIndexElement (pf.noted s.1 n dir) (pf.neighbor n dir)).bind fun n_pos =>
        if (pf.stepCost n dir).valid = true ∧ n_pos.is_closed = false ∧ n_pos.is_open = false then
          .ok (modify (pf.noted s.1 n dir) (pf.neighbor n dir) (pf.openedNode s.1 n dir),
            s.2 ++ [pf.getRealPos (pf.neighbor n dir)])
        else .ok (pf.noted s.1 n dir, s.2) := by
  have hcost : (if ((s.1 n).getCost dir).updated then (s.1 n).getCost dir
      else pf.calcCost (pf.getRealPos n) dir) = pf.stepCost n dir := by
    split_ifs with hupdated
    · exact hgrid.cost n dir hdir hupdated
    · rfl
  have hneighbor : pf.getRealPos n + withHeight dir (pf.stepCost n dir).y_change =
      pf.getRealPos (pf.neighbor n dir) := (getRealPos_add pf n _).symm
  unfold openNeighbor
  dsimp only
  rw [getIndexPos_getRealPos, hcost, hneighbor, getIndexPos_getRealPos]
  rfl

theorem openNeighbor_outside (hgrid : pf.Grid s.1) (hdir : dir ∈ directions)
    (h : ¬pf.Inside (pf.neighbor n dir)) :
    pf.openNeighbor (pf.getRealPos n) dir s = .error .outside := by
  rw [openNeighbor_eq hgrid hdir, getIndexElement_outside h]
  rfl

theorem openNeighbor_inside (hgrid : pf.Grid s.1) (hdir : dir ∈ directions) (hn : pf.Inside n)
    (h : pf.Inside (pf.neighbor n dir)) :
    ∃ s', pf.openNeighbor (pf.getRealPos n) dir s = .ok s' ∧ pf.Opened n dir s s' := by
  have hrest := noted_rest pf s.1 n dir
  rw [openNeighbor_eq hgrid hdir, getIndexElement_inside h]
  change ∃ s', (if _ ∧ _ ∧ _ then _ else _) = _ ∧ _
  rw [(hrest _).2.2.1, (hrest _).2.2.2]
  by_cases hopens : (pf.stepCost n dir).valid = true ∧
      (s.1 (pf.neighbor n dir)).is_closed = false ∧ (s.1 (pf.neighbor n dir)).is_open = false
  · refine ⟨_, if_pos hopens, (hgrid.noted hdir).modify rfl rfl ?_, fun m => ?_, .inr
      ⟨rfl, fun m => ?_, hopens.1, hopens.2⟩⟩
    · -- the way back leads to the node itself
      change pf.Inside (n + withHeight dir _ + -withHeight dir _)
      rwa [add_neg_cancel]
    · by_cases heq : m = pf.neighbor n dir
      · subst heq
        dsimp only
        rw [modify_self]
        exact (hrest _).2.2.1
      · dsimp only
        rw [modify_of_ne heq]
        exact (hrest m).2.2.1
    · by_cases heq : m = pf.neighbor n dir
      · subst heq
        dsimp only
        rw [modify_self, if_pos rfl]
        rfl
      · dsimp only
        rw [modify_of_ne heq, if_neg heq]
        exact (hrest m).2.2.2
  · refine ⟨_, if_neg hopens, hgrid.noted hdir, fun m => (hrest m).2.2.1, .inl
      ⟨rfl, fun m => (hrest m).2.2.2, fun hvalid hfresh => hopens ⟨hvalid, hfresh⟩⟩⟩

end Heuristic

section Expansion

variable {s s' : Nodes × List V3} {openList : List V3} {StartIndex EndIndex : V3}
  {queue : PriorityQueue}

/-- A node whose neighbors are read once it is taken from the open list. -/
def Expandable (pf : Pathfinder) (EndIndex n : V3) : Prop :=
  pf.isValidIndex n = true ∧ (pf.initNode n).valid = true ∧ n ≠ EndIndex

inductive Reached (pf : Pathfinder) (StartIndex EndIndex : V3) : V3 → Prop where
  | start : Reached pf StartIndex EndIndex StartIndex
  | step {n dir : V3} (h : Reached pf StartIndex EndIndex n) (hn : pf.Expandable EndIndex n)
    (hdir : dir ∈ directions) (hvalid : (pf.stepCost n dir).valid = true) :
    Reached pf StartIndex EndIndex (pf.neighbor n dir)

def NoExit (pf : Pathfinder) (StartIndex EndIndex : V3) : Prop :=
  ∀ n, pf.Reached StartIndex EndIndex n → pf.Expandable EndIndex n →
    ∀ dir ∈ directions, pf.Inside (pf.neighbor n dir)

structure Staying (pf : Pathfinder) (StartIndex EndIndex : V3) (s : Nodes × List V3) : Prop where
  grid : pf.Grid s.1
  inside : ∀ pos ∈ s.2, pf.Inside (pf.getIndexPos pos)
  reached : ∀ pos ∈ s.2, pf.Reached StartIndex EndIndex (pf.getIndexPos pos)

theorem Staying.openNeighbors (hno : pf.NoExit StartIndex EndIndex)
    (hn : pf.Reached StartIndex EndIndex n) (hexpand : pf.Expandable EndIndex n) {dirs : List V3}
    (hdirs : ∀ dir ∈ dirs, dir ∈ directions) (h : pf.Staying StartIndex EndIndex s) :
    Fine (pf.Staying StartIndex EndIndex) (pf.openNeighbors (pf.getRealPos n) dirs s) := by
  induction dirs generalizing s with
  | nil => exact h
  | cons dir dirs ih =>
    have hdir := hdirs dir List.mem_cons_self
    have hin := hno n hn hexpand dir hdir
    obtain ⟨s', hs', hopened⟩ := openNeighbor_inside h.grid hdir (.of_valid hexpand.1) hin
    rw [Pathfinder.openNeighbors, hs']
    refine ih (fun dir' hdir' => hdirs dir' (List.mem_cons_of_mem _ hdir')) ?_
    rcases hopened.opened with ⟨hlist, -, -⟩ | ⟨hlist, -, hvalid, -⟩
    · exact ⟨hopened.grid, by rw [hlist]; exact h.inside, by rw [hlist]; exact h.reached⟩
    · refine ⟨hopened.grid, fun pos hpos => ?_, fun pos hpos => ?_⟩
      · rw [hlist, List.mem_append, List.mem_singleton] at hpos
        rcases hpos with hpos | rfl
        · exact h.inside pos hpos
        · rwa [getIndexPos_getRealPos]
      · rw [hlist, List.mem_append, List.mem_singleton] at hpos
        rcases hpos with hpos | rfl
        · exact h.reached pos hpos
        · rw [getIndexPos_getRealPos]
          exact hn.step hexpand hdir hvalid

theorem compared_inside (h : ∀ pos ∈ openList, pf.Inside (pf.getIndexPos pos)) :
    pf.compared nodes openList = .ok () := by
  induction openList with
  | nil => rfl
  | cons pos rest ih =>
    rw [compared, getIndexElement_inside (h pos List.mem_cons_self)]
    exact ih fun pos hpos => h pos (List.mem_cons_of_mem _ hpos)

def closeNode (g_pos : PathGridnode) : PathGridnode :=
  { g_pos with is_closed := true, is_open := false }

theorem Grid.close (h : pf.Grid nodes) (hn : pf.Inside n) :
    pf.Grid (Pathfinder.modify nodes n closeNode) :=
  h.modify rfl rfl (h.linked n hn)

theorem heuristicLoop_succ (queue : PriorityQueue) (destination : V3) (fuel k : ℕ)
    (hempty : openList ≠ []) (h : ∀ pos ∈ openList, pf.Inside (pf.getIndexPos pos)) :
    ∃ current_pos ∈ openList,
      pf.heuristicLoop queue destination (fuel + 1) k (nodes, openList) =
        if pf.isValidIndex (pf.getIndexPos current_pos) = false then
          pf.heuristicLoop queue destination fuel (k + 1) (nodes, openList.erase current_pos)
        else if (nodes (pf.getIndexPos current_pos)).valid = false then
          pf.heuristicLoop queue destination fuel (k + 1)
            (modify nodes (pf.getIndexPos current_pos) closeNode, openList.erase current_pos)
        else if current_pos = destination then
          .ok (true, modify (modify nodes (pf.getIndexPos current_pos) closeNode)
            (pf.getIndexPos current_pos) fun g_pos => { g_pos with target := true })
        else
          (pf.openNeighbors current_pos directions
            (modify nodes (pf.getIndexPos current_pos) closeNode,
              openList.erase current_pos)).bind fun s =>
                pf.heuristicLoop queue destination fuel (k + 1) s := by
  have hmem := queue.top_mem k (pf.compareHeuristic nodes) openList hempty
  refine ⟨_, hmem, ?_⟩
  rw [heuristicLoop, if_neg hempty, compared_inside h]
  change (if _ then _ else _) = _
  rw [getIndexElement_inside (h _ hmem)]
  rfl

theorem fine_heuristicLoop (hno : pf.NoExit StartIndex EndIndex) (fuel k : ℕ)
    (h : pf.Staying StartIndex EndIndex s) :
    Fine (fun r => pf.Linked r.2)
      (pf.heuristicLoop queue (pf.getRealPos EndIndex) fuel k s) := by
  induction fuel generalizing k s with
  | zero => exact ⟨by simp, by simp⟩
  | succ fuel ih =>
    obtain ⟨nodes, openList⟩ := s
    by_cases hempty : openList = []
    · rw [heuristicLoop, if_pos hempty]
      exact h.grid.linked
    · obtain ⟨current_pos, hmem, hturn⟩ :=
        heuristicLoop_succ queue (pf.getRealPos EndIndex) fuel k hempty h.inside
      have hin := h.inside current_pos hmem
      have hrest : ∀ nodes', pf.Grid nodes' →
          pf.Staying StartIndex EndIndex (nodes', openList.erase current_pos) := fun nodes' hgrid =>
        ⟨hgrid, fun pos hpos => h.inside pos (List.mem_of_mem_erase hpos),
          fun pos hpos => h.reached pos (List.mem_of_mem_erase hpos)⟩
      have hclosed : pf.Grid (modify nodes (pf.getIndexPos current_pos) closeNode) :=
        h.grid.close hin
      rw [hturn]
      split_ifs with hvalid hnode hend
      · exact ih _ (hrest _ h.grid)
      · exact ih _ (hrest _ hclosed)
      · have htarget : pf.Linked (modify (modify nodes (pf.getIndexPos current_pos) closeNode)
            (pf.getIndexPos current_pos) fun g_pos => { g_pos with target := true }) :=
          hclosed.linked.modify (hclosed.linked _ hin)
        exact htarget
      · have hexpand : pf.Expandable EndIndex (pf.getIndexPos current_pos) := by
          refine ⟨by simpa using hvalid, ?_, fun heq => hend (getIndexPos_eq_iff.1 heq)⟩
          rw [← h.grid.valid]
          simpa using hnode
        have hopened := (hrest _ hclosed).openNeighbors hno (h.reached current_pos hmem) hexpand
          fun _ hdir => hdir
        rw [getRealPos_getIndexPos] at hopened
        exact Fine.bind hopened fun s hs => ih _ hs

end Expansion

end Pathfinder

end Freeminer.Pathfinding
