import Freeminer.Block.NodeDefManager
import Freeminer.Voxel.Light

/-! What the path finder knows of the nodes of a map (`pathfinder.cpp`): what a step costs, and the
elements of the grid that keep it. Positions are integers here: a map ends far inside the range of
`pos_t`, which is `s32`. -/

namespace Freeminer.Pathfinding

open Block (Content CONTENT_IGNORE)
open Voxel (V3)

instance : Sub V3 := ⟨fun a b => ⟨a.X - b.X, a.Y - b.Y, a.Z - b.Z⟩⟩

/-- `invert` -/
instance : Neg V3 := ⟨fun a => ⟨-a.X, -a.Y, -a.Z⟩⟩

inductive PathDirections where
  | DIR_XP | DIR_XM | DIR_ZP | DIR_ZM
  deriving DecidableEq

open PathDirections

/-- The four cardinal directions, in the order in which they are tried. -/
def directions : List V3 := [⟨1, 0, 0⟩, ⟨-1, 0, 0⟩, ⟨0, 0, 1⟩, ⟨0, 0, -1⟩]

structure PathCost where
  valid : Bool := false
  value : ℤ := 0
  y_change : ℤ := 0
  updated : Bool := false
  deriving DecidableEq

structure PathGridnode where
  valid : Bool := false
  target : Bool := false
  source : Bool := false
  totalcost : ℤ := -1
  estimated_cost : ℤ := -1
  sourcedir : V3 := ⟨0, 0, 0⟩
  pos : V3 := ⟨0, 0, 0⟩
  directions : PathDirections → PathCost := fun _ => {}
  is_closed : Bool := false
  is_open : Bool := false

def slot (dir : V3) : Option PathDirections :=
  if 0 < dir.X then some DIR_XP
  else if dir.X < 0 then some DIR_XM
  else if 0 < dir.Z then some DIR_ZP
  else if dir.Z < 0 then some DIR_ZM
  else none

namespace PathGridnode

def getCost (g_pos : PathGridnode) (dir : V3) : PathCost :=
  match slot dir with
  | some d => g_pos.directions d
  | none => {}

def setCost (g_pos : PathGridnode) (dir : V3) (cost : PathCost) : PathGridnode :=
  match slot dir with
  | some d => { g_pos with directions := Function.update g_pos.directions d cost }
  | none => g_pos

end PathGridnode

/-- The elements by their indices. When nothing was written to them they are as `initNode` makes them:
those of an array at once, those of a map when they are accessed first. -/
abbrev Nodes := V3 → PathGridnode

inductive PathFault where
  /-- An element is accessed that is outside of the array. -/
  | outside
  /-- An `int` overflows in the length of the diagonal. -/
  | overflow
  /-- The array cannot be made. -/
  | length_error
  /-- So many turns were not enough. -/
  | fuel
  deriving DecidableEq

/-- The map, and what does not change while a path is searched for. -/
structure Pathfinder where
  m_map : V3 → Content
  walkable : Content → Bool
  MinEdge : V3
  MaxEdge : V3
  m_maxdrop : ℤ
  m_maxjump : ℤ
  m_prefetch : Bool
  m_destination : V3

namespace Pathfinder

variable (pf : Pathfinder)

def down : V3 := ⟨0, -1, 0⟩

def up : V3 := ⟨0, 1, 0⟩

def free (p : V3) : Bool := pf.m_map p ≠ CONTENT_IGNORE && !pf.walkable (pf.m_map p)

def solid (p : V3) : Bool := pf.m_map p ≠ CONTENT_IGNORE && pf.walkable (pf.m_map p)

/-- `m_limits.isPointInside` -/
def isPointInside (p : V3) : Bool :=
  pf.MinEdge.X ≤ p.X && p.X ≤ pf.MaxEdge.X && pf.MinEdge.Y ≤ p.Y && p.Y ≤ pf.MaxEdge.Y &&
    pf.MinEdge.Z ≤ p.Z && p.Z ≤ pf.MaxEdge.Z

/-- The loop that looks for a surface below; `n` is how far down the limit is. -/
def fall : ℕ → V3 → V3
  | 0, testpos => testpos
  | n + 1, testpos =>
    if pf.free testpos ∧ pf.MinEdge.Y < testpos.Y then fall n (testpos + down) else testpos

/-- The loop that looks for a surface above, and the room for the jump; `n` is how far up the limit
is. Gives the target, where the jump is by then, and whether something is in its way. -/
def rise : ℕ → V3 → V3 → V3 × V3 × Bool
  | 0, targetpos, jumppos => (targetpos, jumppos, false)
  | n + 1, targetpos, jumppos =>
    if pf.solid targetpos ∧ targetpos.Y < pf.MaxEdge.Y then
      if pf.free jumppos then rise n (targetpos + up) (jumppos + up) else (targetpos, jumppos, true)
    else (targetpos, jumppos, false)

def calcCost (pos dir : V3) : PathCost :=
  let pos2 := pos + dir
  if pf.isPointInside pos2 = false then { updated := true }
  else if pf.m_map pos2 = CONTENT_IGNORE then { updated := true }
  else if pf.walkable (pf.m_map pos2) = false then
    let below := pos2 + down
    if pf.m_map below = CONTENT_IGNORE then { updated := true }
    else if pf.walkable (pf.m_map below) then
      { updated := true, valid := true, value := 1, y_change := 0 }
    else
      let testpos := pf.fall (below.Y - pf.MinEdge.Y).toNat below
      if pf.MinEdge.Y ≤ testpos.Y ∧ pf.solid testpos ∧ pos2.Y - testpos.Y - 1 ≤ pf.m_maxdrop then
        { updated := true, valid := true, value := 2, y_change := testpos.Y - pos2.Y + 1 }
      else { updated := true }
  else
    let (targetpos, jumppos, headbanger) := pf.rise (pf.MaxEdge.Y - pos2.Y).toNat pos2 pos
    if headbanger = false ∧ pf.free jumppos ∧ targetpos.Y ≤ pf.MaxEdge.Y ∧
        pf.walkable (pf.m_map targetpos) = false ∧ targetpos.Y - pos2.Y ≤ pf.m_maxjump then
      { updated := true, valid := true, value := 2, y_change := targetpos.Y - pos2.Y }
    else { updated := true }

/-- The loop of `walkDownwards`, with how far it has gone. -/
def walkLoop (max_down : ℕ) : ℕ → V3 → ℕ → V3 × ℕ
  | 0, testpos, steps => (testpos, steps)
  | n + 1, testpos, steps =>
    if pf.free testpos ∧ pf.MinEdge.Y < testpos.Y ∧ steps ≤ max_down then
      walkLoop max_down n (testpos + down) (steps + 1)
    else (testpos, steps)

def walkDownwards (pos : V3) (max_down : ℕ) : V3 :=
  if max_down = 0 then pos
  else
    let (testpos, steps) := pf.walkLoop max_down (pos.Y - pf.MinEdge.Y).toNat pos 0
    if pf.MinEdge.Y ≤ testpos.Y ∧ pf.solid testpos then
      if steps = 0 then testpos
      else if steps - 1 ≤ max_down then testpos + up
      else pos
    else pos

def getRealPos (ipos : V3) : V3 := pf.MinEdge + ipos

def getIndexPos (pos : V3) : V3 := pos - pf.MinEdge

/-- `m_max_index_x`, `m_max_index_y` and `m_max_index_z` -/
def m_max_index : V3 := pf.MaxEdge - pf.MinEdge

def isValidIndex (index : V3) : Bool :=
  index.X < pf.m_max_index.X && index.Y < pf.m_max_index.Y && index.Z < pf.m_max_index.Z &&
    0 ≤ index.X && 0 ≤ index.Y && 0 ≤ index.Z

/-- An element of the grid as it is made: valid where one may stand. -/
def initNode (ipos : V3) : PathGridnode :=
  let realpos := pf.getRealPos ipos
  if pf.free realpos ∧ pf.solid (realpos + down) then
    { valid := true
      pos := realpos
      directions := if pf.m_prefetch then fun
          | DIR_XP => pf.calcCost realpos ⟨1, 0, 0⟩
          | DIR_XM => pf.calcCost realpos ⟨-1, 0, 0⟩
          | DIR_ZP => pf.calcCost realpos ⟨0, 0, 1⟩
          | DIR_ZM => pf.calcCost realpos ⟨0, 0, -1⟩
        else fun _ => {} }
  else {}

/-! ## Containers -/

/-- `getLengthSQ` of the diagonal. -/
def lengthSQ : ℤ :=
  let diff := pf.m_max_index
  diff.X * diff.X + diff.Y * diff.Y + diff.Z * diff.Z

/-- The search area is so small that its elements are in an array: `diff.getLength() > 5` is not. -/
def small : Bool := pf.lengthSQ < 36

/-- The container is made: an `ArrayGridNodeContainer` with the dimensions of the diagonal, or a
`MapGridNodeContainer`. -/
def makeContainer : Except PathFault Unit :=
  if 2 ^ 31 ≤ pf.lengthSQ then .error .overflow
  else if pf.small ∧ pf.m_max_index.X * pf.m_max_index.Y * pf.m_max_index.Z < 0 then
    .error .length_error
  else .ok ()

/-- The index is inside the limits of the container; those of the array are its dimensions, a map has
none. -/
def Inside (ipos : V3) : Prop := pf.small = true → pf.isValidIndex ipos = true

instance (ipos : V3) : Decidable (pf.Inside ipos) := inferInstanceAs (Decidable (_ → _))

def getIndexElement (nodes : Nodes) (ipos : V3) : Except PathFault PathGridnode :=
  if pf.Inside ipos then .ok (nodes ipos) else .error .outside

variable {pf} {p q : V3}

theorem isValidIndex_iff : pf.isValidIndex p = true ↔
    (0 ≤ p.X ∧ p.X < pf.m_max_index.X) ∧ (0 ≤ p.Y ∧ p.Y < pf.m_max_index.Y) ∧
      0 ≤ p.Z ∧ p.Z < pf.m_max_index.Z := by
  simp only [isValidIndex, Bool.and_eq_true, decide_eq_true_eq]
  tauto

end Pathfinder

/-! The searches of the path finder, and the path that is read off the grid (`pathfinder.cpp`). -/

inductive PathAlgorithm where
  | PA_DIJKSTRA | PA_PLAIN | PA_PLAIN_NP
  deriving DecidableEq

def PATHFINDER_MAX_WAYPOINTS : ℕ := 700

def withHeight (dir : V3) (y_change : ℤ) : V3 := ⟨dir.X, y_change, dir.Z⟩

/-- `openList` holds positions; `top` may depend on what happened before, here on how many were taken.
Where the comparison is a strict weak order, no element is after the top. -/
structure PriorityQueue where
  top : ℕ → (V3 → V3 → Bool) → List V3 → V3
  top_mem : ∀ (n : ℕ) (less : V3 → V3 → Bool) (l : List V3), l ≠ [] → top n less l ∈ l
  top_le : ∀ (n : ℕ) (less : V3 → V3 → Bool) (l : List V3),
    (∀ p ∈ l, ∀ q ∈ l, less p q = true → less q p = false) →
    (∀ p ∈ l, ∀ q ∈ l, ∀ r ∈ l, less p r = true → less p q = true ∨ less q r = true) →
    ∀ p ∈ l, less (top n less l) p = false

/-- The best of a list that is looked through, `best` being that of what came before. -/
def scan (less : V3 → V3 → Bool) : V3 → List V3 → V3
  | best, [] => best
  | best, pos :: rest => scan less (if less best pos then pos else best) rest

theorem scan_mem (less : V3 → V3 → Bool) (best : V3) (l : List V3) :
    scan less best l ∈ best :: l := by
  induction l generalizing best with
  | nil => exact List.mem_singleton_self best
  | cons pos rest ih =>
    rw [scan]
    split_ifs
    · exact List.mem_cons_of_mem _ (ih pos)
    · rcases List.mem_cons.1 (ih best) with heq | hmem
      · exact List.mem_cons.2 (.inl heq)
      · exact List.mem_cons_of_mem _ (List.mem_cons_of_mem _ hmem)

theorem not_less_self {less : V3 → V3 → Bool} {l : List V3} {p : V3}
    (hasymm : ∀ p ∈ l, ∀ q ∈ l, less p q = true → less q p = false) (hp : p ∈ l) :
    less p p = false := by
  by_contra hself
  have hself' : less p p = true := by simpa using hself
  exact hself (hasymm p hp p hp hself')

theorem scan_le {less : V3 → V3 → Bool} {l : List V3}
    (hasymm : ∀ p ∈ l, ∀ q ∈ l, less p q = true → less q p = false)
    (htrans : ∀ p ∈ l, ∀ q ∈ l, ∀ r ∈ l, less p r = true → less p q = true ∨ less q r = true) :
    ∀ (rest : List V3) (best : V3), rest ⊆ l → best ∈ l →
      ∀ p ∈ l, (p ∈ rest ∨ less best p = false) → less (scan less best rest) p = false := by
  intro rest
  induction rest with
  | nil => exact fun best _ _ p _ h => h.resolve_left List.not_mem_nil
  | cons pos rest ih =>
    intro best hrest hbest p hp h
    have hpos := hrest List.mem_cons_self
    have hrest' : rest ⊆ l := fun q hq => hrest (List.mem_cons_of_mem _ hq)
    rw [scan]
    split_ifs with hbetter
    · refine ih pos hrest' hpos p hp ?_
      rcases h with hmem | hle
      · rcases List.mem_cons.1 hmem with rfl | hmem
        · exact .inr (not_less_self hasymm hp)
        · exact .inl hmem
      · -- what was not better than the one before is not better than a better one
        refine .inr (by_contra fun hlt => ?_)
        have hlt' : less pos p = true := by simpa using hlt
        rcases htrans pos hpos best hbest p hp hlt' with hback | hlt''
        · rw [hasymm best hbest pos hpos hbetter] at hback
          cases hback
        · rw [hle] at hlt''
          cases hlt''
    · refine ih best hrest' hbest p hp ?_
      rcases h with hmem | hle
      · rcases List.mem_cons.1 hmem with rfl | hmem
        · exact .inr (by simpa using hbetter)
        · exact .inl hmem
      · exact .inr hle

def scanQueue : PriorityQueue where
  top _ less l := scan less (l.headD ⟨0, 0, 0⟩) l.tail
  top_mem _ less l hl := by
    cases l with
    | nil => exact absurd rfl hl
    | cons best rest => exact scan_mem less best rest
  top_le _ less l hasymm htrans p hp := by
    cases l with
    | nil => cases hp
    | cons best rest =>
      refine scan_le hasymm htrans rest best (fun q hq => List.mem_cons_of_mem _ hq)
        List.mem_cons_self p hp ?_
      rcases List.mem_cons.1 hp with rfl | hmem
      · exact .inr (not_less_self hasymm hp)
      · exact .inl hmem

namespace Pathfinder

variable (pf : Pathfinder)

def modify (nodes : Nodes) (ipos : V3) (f : PathGridnode → PathGridnode) : Nodes :=
  Function.update nodes ipos (f (nodes ipos))

/-! ## Dijkstra -/

/-- What `updateAllCosts` writes to. -/
structure AllCosts where
  nodes : Nodes
  m_min_target_distance : ℤ := -1

/-- The loop over the directions; `update` is the recursive call. -/
def updateDirections (update : V3 → V3 → ℤ → AllCosts → Except PathFault (Bool × AllCosts))
    (ipos srcdir : V3) (current_cost : ℤ) :
    List V3 → Bool → AllCosts → Except PathFault (Bool × AllCosts)
  | [], retval, s => .ok (retval, s)
  | direction :: rest, retval, s =>
    let skip := updateDirections update ipos srcdir current_cost rest
    if direction = srcdir then skip retval s
    else
      let cost := (s.nodes ipos).getCost direction
      if cost.valid = false then skip retval s
      else
        let direction := withHeight direction cost.y_change
        let ipos2 := ipos + direction
        if pf.isValidIndex ipos2 = false then skip retval s
        else
          (pf.getIndexElement s.nodes ipos2).bind fun g_pos2 =>
            if g_pos2.valid = false then skip retval s
            else
              let new_cost := current_cost + cost.value
              if 0 < s.m_min_target_distance ∧ s.m_min_target_distance < new_cost then
                .ok (false, s)
              else if g_pos2.totalcost < 0 ∨ new_cost < g_pos2.totalcost then
                (update ipos2 (-direction) new_cost s).bind fun r => skip (retval || r.1) r.2
              else skip retval s

/-- `fuel` bounds how deep the calls are nested. -/
def updateAllCosts : ℕ → V3 → V3 → ℤ → AllCosts → Except PathFault (Bool × AllCosts)
  | 0, _, _, _, _ => .error .fuel
  | fuel + 1, ipos, srcdir, current_cost, s =>
    (pf.getIndexElement s.nodes ipos).bind fun g_pos =>
      let s := { s with
        nodes := modify s.nodes ipos fun g_pos =>
          { g_pos with totalcost := current_cost, sourcedir := srcdir } }
      if g_pos.target then .ok (true, { s with m_min_target_distance := current_cost })
      else pf.updateDirections (updateAllCosts fuel) ipos srcdir current_cost directions false s

/-! ## A* -/

def getXZManhattanDist (pos : V3) : ℤ := |pos.X - pf.m_destination.X| + |pos.Z - pf.m_destination.Z|

/-- `PathfinderCompareHeuristic` -/
def compareHeuristic (nodes : Nodes) (pos1 pos2 : V3) : Bool :=
  let element pos := nodes (pf.getIndexPos pos)
  (element pos1).valid && (element pos2).valid &&
    decide ((element pos2).estimated_cost < (element pos1).estimated_cost)

/-- The queue compares its positions, and may read the elements of any of them. -/
def compared (nodes : Nodes) : List V3 → Except PathFault Unit
  | [] => .ok ()
  | pos :: rest => (pf.getIndexElement nodes (pf.getIndexPos pos)).bind fun _ => compared nodes rest

/-- One direction of the node that was taken from the open list. The neighbor is accessed whether there
is a way to it or not. -/
def openNeighbor (current_pos direction_flat : V3) (s : Nodes × List V3) :
    Except PathFault (Nodes × List V3) :=
  let (nodes, openList) := s
  let ipos := pf.getIndexPos current_pos
  let current_totalcost := (nodes ipos).totalcost
  let kept := (nodes ipos).getCost direction_flat
  let cost := if kept.updated then kept else pf.calcCost current_pos direction_flat
  let nodes := if kept.updated then nodes
    else modify nodes ipos fun g_pos => g_pos.setCost direction_flat cost
  let direction_3d := withHeight direction_flat cost.y_change
  let neighbor := current_pos + direction_3d
  let ineighbor := pf.getIndexPos neighbor
  (pf.getIndexElement nodes ineighbor).bind fun n_pos =>
    if cost.valid ∧ n_pos.is_closed = false ∧ n_pos.is_open = false then
      .ok (modify nodes ineighbor fun n_pos =>
        { n_pos with
          sourcedir := -direction_3d
          totalcost := current_totalcost + cost.value
          estimated_cost := current_totalcost + cost.value + pf.getXZManhattanDist neighbor
          is_open := true },
        openList ++ [neighbor])
    else .ok (nodes, openList)

def openNeighbors (current_pos : V3) :
    List V3 → Nodes × List V3 → Except PathFault (Nodes × List V3)
  | [], s => .ok s
  | direction_flat :: rest, s =>
    (pf.openNeighbor current_pos direction_flat s).bind fun s => openNeighbors current_pos rest s

/-- The loop over the open list; `fuel` bounds how many turns are made, and `n` are those made. -/
def heuristicLoop (queue : PriorityQueue) (destination : V3) :
    ℕ → ℕ → Nodes × List V3 → Except PathFault (Bool × Nodes)
  | 0, _, _ => .error .fuel
  | fuel + 1, n, (nodes, openList) =>
    if openList = [] then .ok (false, nodes)
    else
      (pf.compared nodes openList).bind fun _ =>
        let current_pos := queue.top n (pf.compareHeuristic nodes) openList
        let openList := openList.erase current_pos
        let ipos := pf.getIndexPos current_pos
        if pf.isValidIndex ipos = false then
          heuristicLoop queue destination fuel (n + 1) (nodes, openList)
        else
          (pf.getIndexElement nodes ipos).bind fun g_pos =>
            let nodes := modify nodes ipos fun g_pos =>
              { g_pos with is_closed := true, is_open := false }
            if g_pos.valid = false then
              heuristicLoop queue destination fuel (n + 1) (nodes, openList)
            else if current_pos = destination then
              .ok (true, modify nodes ipos fun g_pos => { g_pos with target := true })
            else
              (pf.openNeighbors current_pos directions (nodes, openList)).bind fun s =>
                heuristicLoop queue destination fuel (n + 1) s

def updateCostHeuristic (queue : PriorityQueue) (fuel : ℕ) (isource idestination : V3)
    (nodes : Nodes) : Except PathFault (Bool × Nodes) :=
  let source := pf.getRealPos isource
  let destination := pf.getRealPos idestination
  (pf.getIndexElement nodes isource).bind fun _ =>
    let nodes := modify nodes isource fun s_pos =>
      { s_pos with
        source := true
        totalcost := 0
        estimated_cost := pf.getXZManhattanDist destination }
    pf.heuristicLoop queue destination fuel 0 (nodes, [source])

/-! ## Paths -/

/-- The path from `ipos` back to the source, as far as it got; `n` is how many waypoints it may still
have. -/
def buildPath (nodes : Nodes) : ℕ → V3 → Except PathFault (List V3)
  | 0, _ => .ok []
  | n + 1, ipos =>
    (pf.getIndexElement nodes ipos).bind fun g_pos =>
      if g_pos.valid = false then .ok []
      else if g_pos.source then .ok [ipos]
      else (buildPath nodes n (ipos + g_pos.sourcedir)).bind fun path => .ok (ipos :: path)

def fullPath (nodes : Nodes) : List V3 → Except PathFault (List V3)
  | [] => .ok []
  | ipos :: rest =>
    (pf.getIndexElement nodes ipos).bind fun g_pos =>
      (fullPath nodes rest).bind fun path => .ok (g_pos.pos :: path)

def search (queue : PriorityQueue) (fuel : ℕ) (algo : PathAlgorithm) (StartIndex EndIndex : V3)
    (nodes : Nodes) : Except PathFault (Bool × Nodes) :=
  match algo with
  | .PA_DIJKSTRA =>
    (pf.updateAllCosts fuel StartIndex ⟨0, 0, 0⟩ 0 { nodes }).bind fun r => .ok (r.1, r.2.nodes)
  | .PA_PLAIN | .PA_PLAIN_NP => pf.updateCostHeuristic queue fuel StartIndex EndIndex nodes

/-- The end position is marked as target and the start position as source. -/
def marked (StartIndex EndIndex : V3) : Nodes :=
  modify (modify pf.initNode EndIndex fun endpos => { endpos with target := true }) StartIndex
    fun startpos => { startpos with source := true, totalcost := 0 }

/-- `getPath` after the start and the end were looked up: the positions of the path, if one is found. -/
def searchPath (queue : PriorityQueue) (fuel : ℕ) (algo : PathAlgorithm) (StartIndex EndIndex : V3)
    (nodes : Nodes) : Except PathFault (Option (List V3)) :=
  (pf.search queue fuel algo StartIndex EndIndex nodes).bind fun r =>
    if r.1 then
      (pf.buildPath r.2 (PATHFINDER_MAX_WAYPOINTS - 1) EndIndex).bind fun index_path =>
        (pf.fullPath r.2 index_path.reverse).bind fun path => .ok (some path)
    else .ok none

/-- `getPath` after the search area is known; `max_drop` and `max_jump` are the limits as they were
given. -/
def findPath (queue : PriorityQueue) (fuel : ℕ) (true_source true_destination : V3)
    (max_jump max_drop : ℕ) (algo : PathAlgorithm) : Except PathFault (List V3) :=
  pf.makeContainer.bind fun _ =>
    if pf.walkable (pf.m_map true_destination) then .ok []
    else if pf.walkable (pf.m_map true_source) then .ok []
    else
      let source := pf.walkDownwards true_source max_drop
      let destination := pf.walkDownwards true_destination max_jump
      let StartIndex := pf.getIndexPos source
      let EndIndex := pf.getIndexPos destination
      (pf.getIndexElement pf.initNode StartIndex).bind fun startpos =>
        (pf.getIndexElement pf.initNode EndIndex).bind fun endpos =>
          if startpos.valid = false then .ok []
          else if endpos.valid = false then .ok []
          else
            (pf.searchPath queue fuel algo StartIndex EndIndex
              (pf.marked StartIndex EndIndex)).bind fun found =>
                .ok (found.elim [] fun path =>
                  (if source ≠ true_source then [true_source] else []) ++ path ++
                    (if destination ≠ true_destination then [true_destination] else []))

end Pathfinder

/-- An `unsigned int` as an `int`. -/
def toInt (n : ℕ) : ℤ := if n < 2 ^ 31 then n else n - 2 ^ 32

/-- An `unsigned int` that was computed, as a `pos_t`. -/
def toPos (n : ℤ) : ℤ := n.bmod (2 ^ 32)

/-- The path finder for a request; `searchdistance`, `max_jump` and `max_drop` are of 32 bits. -/
def Pathfinder.start (m_map : V3 → Block.Content) (walkable : Block.Content → Bool)
    (source destination : V3) (searchdistance max_jump max_drop : ℕ) (algo : PathAlgorithm) :
    Pathfinder where
  m_map := m_map
  walkable := walkable
  MinEdge := ⟨toPos (min source.X destination.X - searchdistance),
    toPos (min source.Y destination.Y - searchdistance),
    toPos (min source.Z destination.Z - searchdistance)⟩
  MaxEdge := ⟨toPos (max source.X destination.X + searchdistance),
    toPos (max source.Y destination.Y + searchdistance),
    toPos (max source.Z destination.Z + searchdistance)⟩
  m_maxdrop := toInt max_drop
  m_maxjump := toInt max_jump
  m_prefetch := algo ≠ .PA_PLAIN_NP
  m_destination := destination

/-- `getPath`, with so many turns at most. -/
def getPath (m_map : V3 → Block.Content) (walkable : Block.Content → Bool) (queue : PriorityQueue)
    (fuel : ℕ) (source destination : V3) (searchdistance max_jump max_drop : ℕ)
    (algo : PathAlgorithm) : Except PathFault (List V3) :=
  (Pathfinder.start m_map walkable source destination searchdistance max_jump max_drop algo).findPath
    queue fuel source destination max_jump max_drop algo

end Freeminer.Pathfinding
