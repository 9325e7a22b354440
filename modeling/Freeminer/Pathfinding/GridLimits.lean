import Mathlib.Data.Int.Interval
import Freeminer.Pathfinding.GridAccess

/-! When the path finder stays in its grid (`pathfinder.cpp`). The search for the end goes on until
each node that can be expanded was, unless it gets to the end; and in an array it does not get there
without being at the border before. -/

namespace Freeminer.Pathfinding

open Voxel (V3)

namespace Pathfinder

variable {pf : Pathfinder} {StartIndex EndIndex n m dir : V3} {s s' : Nodes × List V3}
  {pending : List V3} {queue : PriorityQueue}

/-! ## Every node that can be expanded is -/

section Searching

/-- The search before it left the grid, when the directions `pending` of the node `n` are yet to be
tried. -/
structure Searching (pf : Pathfinder) (StartIndex EndIndex n : V3) (pending : List V3)
    (s : Nodes × List V3) : Prop where
  grid : pf.Grid s.1
  listed : ∀ m, (s.1 m).is_open = true → pf.getRealPos m ∈ s.2
  inside : ∀ pos ∈ s.2, pf.Inside (pf.getIndexPos pos)
  opened : ∀ pos ∈ s.2, pf.getIndexPos pos = StartIndex ∨
    ∃ P dir, (s.1 P).is_closed = true ∧ pf.Expandable EndIndex P ∧ dir ∈ directions ∧
      pf.getIndexPos pos = pf.neighbor P dir
  expanded : ∀ m, (s.1 m).is_closed = true → pf.Expandable EndIndex m → ∀ dir ∈ directions,
    (m = n → dir ∉ pending) → pf.Inside (pf.neighbor m dir) ∧
      ((pf.stepCost m dir).valid = true → ¬Fresh s.1 (pf.neighbor m dir))
  first : (s.1 StartIndex).is_closed = true ∨ s.2 = [pf.getRealPos StartIndex]

theorem not_fresh_of_opened (h : pf.Opened n dir s s') (hm : ¬Fresh s.1 m) : ¬Fresh s'.1 m := by
  rintro ⟨hclosed, hopen⟩
  rw [h.closed] at hclosed
  rcases h.opened with ⟨-, hsame, -⟩ | ⟨-, hsame, -, -⟩
  · rw [hsame] at hopen
    exact hm ⟨hclosed, hopen⟩
  · rw [hsame] at hopen
    split_ifs at hopen
    exact hm ⟨hclosed, hopen⟩

theorem not_fresh_neighbor (h : pf.Opened n dir s s') (hvalid : (pf.stepCost n dir).valid = true) :
    ¬Fresh s'.1 (pf.neighbor n dir) := by
  rcases h.opened with ⟨-, -, hold⟩ | ⟨-, hsame, -, -⟩
  · exact not_fresh_of_opened h (hold hvalid)
  · rintro ⟨-, hopen⟩
    rw [hsame, if_pos rfl] at hopen
    cases hopen

theorem Searching.opened_step (h : pf.Searching StartIndex EndIndex n (dir :: pending) s)
    (hclosed : (s.1 n).is_closed = true) (hn : pf.Expandable EndIndex n) (hdir : dir ∈ directions)
    (hin : pf.Inside (pf.neighbor n dir)) (hfirst : (s.1 StartIndex).is_closed = true)
    (hstep : pf.Opened n dir s s') : pf.Searching StartIndex EndIndex n pending s' := by
  refine ⟨hstep.grid, fun m hm => ?_, fun pos hpos => ?_, fun pos hpos => ?_,
    fun m hm hexpand dir' hdir' hpending => ?_, .inl (by rwa [hstep.closed])⟩
  · rcases hstep.opened with ⟨hlist, hsame, -⟩ | ⟨hlist, hsame, -, -⟩
    · rw [hsame] at hm
      rw [hlist]
      exact h.listed m hm
    · rw [hsame] at hm
      rw [hlist, List.mem_append, List.mem_singleton]
      split_ifs at hm with heq
      · exact .inr (by rw [heq])
      · exact .inl (h.listed m hm)
  · rcases hstep.opened with ⟨hlist, -, -⟩ | ⟨hlist, -, -, -⟩
    · rw [hlist] at hpos
      exact h.inside pos hpos
    · rw [hlist, List.mem_append, List.mem_singleton] at hpos
      rcases hpos with hpos | rfl
      · exact h.inside pos hpos
      · rwa [getIndexPos_getRealPos]
  · simp only [hstep.closed]
    rcases hstep.opened with ⟨hlist, -, -⟩ | ⟨hlist, -, -, -⟩
    · rw [hlist] at hpos
      exact h.opened pos hpos
    · rw [hlist, List.mem_append, List.mem_singleton] at hpos
      rcases hpos with hpos | rfl
      · exact h.opened pos hpos
      · exact .inr ⟨n, dir, hclosed, hn, hdir, getIndexPos_getRealPos pf _⟩
  · rw [hstep.closed] at hm
    by_cases hnow : m = n ∧ dir' = dir
    · obtain ⟨rfl, rfl⟩ := hnow
      exact ⟨hin, not_fresh_neighbor hstep⟩
    · have hpending' : m = n → dir' ∉ dir :: pending := fun heq hmem => by
        rcases List.mem_cons.1 hmem with heq' | hmem
        · exact hnow ⟨heq, heq'⟩
        · exact hpending heq hmem
      obtain ⟨hin', hfresh⟩ := h.expanded m hm hexpand dir' hdir' hpending'
      exact ⟨hin', fun hvalid => not_fresh_of_opened hstep (hfresh hvalid)⟩

/-- How many turns are left at most: the nodes on the list, and those of the array that may still get
on it. -/
def waiting (box : Finset V3) (s : Nodes × List V3) : ℕ :=
  (box.filter (Fresh s.1)).card + s.2.length

theorem waiting_opened {box : Finset V3} (hbox : pf.neighbor n dir ∈ box)
    (h : pf.Opened n dir s s') : waiting box s' ≤ waiting box s := by
  have hsub : box.filter (Fresh s'.1) ⊆ box.filter (Fresh s.1) := by
    intro p hp
    rw [Finset.mem_filter] at hp ⊢
    exact ⟨hp.1, by_contra fun hfresh => not_fresh_of_opened h hfresh hp.2⟩
  unfold waiting
  rcases h.opened with ⟨hlist, -, -⟩ | ⟨hlist, -, hvalid, hfresh⟩
  · rw [hlist]
    exact Nat.add_le_add_right (Finset.card_le_card hsub) _
  · -- the neighbor is on the list now
    have hlt : (box.filter (Fresh s'.1)).card < (box.filter (Fresh s.1)).card := by
      refine Finset.card_lt_card (Finset.ssubset_iff_of_subset hsub |>.2
        ⟨pf.neighbor n dir, Finset.mem_filter.2 ⟨hbox, hfresh⟩, fun hmem => ?_⟩)
      exact not_fresh_neighbor h hvalid (Finset.mem_filter.1 hmem).2
    rw [hlist, List.length_append, List.length_singleton]
    omega

/-- All directions: one leads out of the grid, or the node is done. -/
theorem Searching.openNeighbors {box : Finset V3} (hbox : ∀ p, pf.Inside p → p ∈ box)
    (hn : pf.Expandable EndIndex n) (hdirs : ∀ dir ∈ pending, dir ∈ directions)
    (h : pf.Searching StartIndex EndIndex n pending s) (hclosed : (s.1 n).is_closed = true)
    (hfirst : (s.1 StartIndex).is_closed = true) :
    pf.openNeighbors (pf.getRealPos n) pending s = .error .outside ∨
      ∃ s', pf.openNeighbors (pf.getRealPos n) pending s = .ok s' ∧
        pf.Searching StartIndex EndIndex n [] s' ∧ waiting box s' ≤ waiting box s := by
  induction pending generalizing s with
  | nil => exact .inr ⟨s, rfl, h, le_rfl⟩
  | cons dir pending ih =>
    have hdir := hdirs dir List.mem_cons_self
    rw [Pathfinder.openNeighbors]
    by_cases hin : pf.Inside (pf.neighbor n dir)
    · obtain ⟨s', hs', hstep⟩ := openNeighbor_inside h.grid hdir (.of_valid hn.1) hin
      rw [hs']
      rcases ih (fun dir' hdir' => hdirs dir' (List.mem_cons_of_mem _ hdir'))
        (h.opened_step hclosed hn hdir hin hfirst hstep) (by rwa [hstep.closed])
        (by rwa [hstep.closed]) with hout | ⟨s'', hs'', hsearching, hle⟩
      · exact .inl hout
      · exact .inr ⟨s'', hs'', hsearching, hle.trans (waiting_opened (hbox _ hin) hstep)⟩
    · rw [openNeighbor_outside h.grid hdir hin]
      exact .inl rfl

theorem is_closed_close {nodes : Nodes} :
    (modify nodes n closeNode m).is_closed = if m = n then true else (nodes m).is_closed := by
  split_ifs with heq
  · subst heq
    rw [modify_self]
    rfl
  · rw [modify_of_ne heq]

theorem is_open_close {nodes : Nodes} :
    (modify nodes n closeNode m).is_open = if m = n then false else (nodes m).is_open := by
  split_ifs with heq
  · subst heq
    rw [modify_self]
    rfl
  · rw [modify_of_ne heq]

theorem not_fresh_close {nodes : Nodes} (h : m = n ∨ ¬Fresh nodes m) :
    ¬Fresh (modify nodes n closeNode) m := by
  rintro ⟨hclosed, hopen⟩
  rw [is_closed_close] at hclosed
  split_ifs at hclosed with heq
  rw [is_open_close, if_neg heq] at hopen
  exact (h.resolve_left heq) ⟨hclosed, hopen⟩

def Inner (pf : Pathfinder) (n : V3) : Prop := ∀ dir ∈ directions, pf.Inside (pf.neighbor n dir)

/-- Who starts away from the border gets to the end along the border only. -/
def Bordered (pf : Pathfinder) (StartIndex EndIndex : V3) : Prop :=
  pf.Inner StartIndex → ∀ P, pf.Inner P → ∀ dir ∈ directions, pf.neighbor P dir ≠ EndIndex

section Turn

variable {nodes : Nodes} {openList : List V3} {pos : V3}

theorem Searching.first_close (h : pf.Searching StartIndex EndIndex n [] (nodes, openList))
    (hpos : pos ∈ openList) :
    (modify nodes (pf.getIndexPos pos) closeNode StartIndex).is_closed = true := by
  rcases h.first with hclosed | honly
  · rw [is_closed_close, hclosed, ite_self]
  · -- the first node that is taken is the start
    have heq : pos = pf.getRealPos StartIndex := by
      rw [show openList = [pf.getRealPos StartIndex] from honly] at hpos
      exact List.mem_singleton.1 hpos
    rw [heq, getIndexPos_getRealPos, is_closed_close, if_pos rfl]

/-- The node that is taken from the list is closed, and its neighbors are yet to be read. -/
theorem Searching.close (h : pf.Searching StartIndex EndIndex n [] (nodes, openList))
    (hpos : pos ∈ openList) : pf.Searching StartIndex EndIndex (pf.getIndexPos pos) directions
      (modify nodes (pf.getIndexPos pos) closeNode, openList.erase pos) := by
  have hkeep : ∀ m, (nodes m).is_closed = true →
      (modify nodes (pf.getIndexPos pos) closeNode m).is_closed = true := fun m hm => by
    rw [is_closed_close, hm, ite_self]
  refine ⟨h.grid.close (h.inside pos hpos), fun m hm => ?_,
    fun q hq => h.inside q (List.mem_of_mem_erase hq), fun q hq => ?_,
    fun m hm hexpand dir hdir hpending => ?_, .inl (h.first_close hpos)⟩
  · rw [is_open_close] at hm
    split_ifs at hm with heq
    refine (List.mem_erase_of_ne fun hreal => heq ?_).2 (h.listed m hm)
    rw [← hreal, getIndexPos_getRealPos]
  · rcases h.opened q (List.mem_of_mem_erase hq) with hstart | ⟨P, dir, hP, hrest⟩
    · exact .inl hstart
    · exact .inr ⟨P, dir, hkeep P hP, hrest⟩
  · have hne : m ≠ pf.getIndexPos pos := fun heq => hpending heq hdir
    rw [is_closed_close, if_neg hne] at hm
    obtain ⟨hin, hfresh⟩ := h.expanded m hm hexpand dir hdir fun _ => List.not_mem_nil
    exact ⟨hin, fun hvalid => not_fresh_close (.inr (hfresh hvalid))⟩

theorem waiting_close (box : Finset V3) (nodes : Nodes) (n : V3) (hpos : pos ∈ openList) :
    waiting box (modify nodes n closeNode, openList.erase pos) + 1 ≤
      waiting box (nodes, openList) := by
  have hsub : box.filter (Fresh (modify nodes n closeNode)) ⊆ box.filter (Fresh nodes) := by
    intro p hp
    rw [Finset.mem_filter] at hp ⊢
    exact ⟨hp.1, by_contra fun hfresh => not_fresh_close (.inr hfresh) hp.2⟩
  have hcard := Finset.card_le_card hsub
  have hlength := List.length_erase_of_mem hpos
  have hpositive := List.length_pos_of_mem hpos
  unfold waiting
  dsimp only
  omega

/-- The neighbors of a node that is not expanded are not read. -/
theorem Searching.skip (h : pf.Searching StartIndex EndIndex n pending s)
    (hn : ¬pf.Expandable EndIndex n) : pf.Searching StartIndex EndIndex n [] s :=
  ⟨h.grid, h.listed, h.inside, h.opened, fun m hm hexpand dir hdir _ =>
    h.expanded m hm hexpand dir hdir fun heq => absurd (heq ▸ hexpand) hn, h.first⟩

/-- When the list is empty, each node that can be expanded was. -/
theorem Searching.closed_of_reached (h : pf.Searching StartIndex EndIndex n [] (nodes, []))
    (hm : pf.Reached StartIndex EndIndex m) : (nodes m).is_closed = true := by
  induction hm with
  | start => exact h.first.resolve_right (by simp)
  | @step m dir hm hexpand hdir hvalid ih =>
    obtain ⟨-, hfresh⟩ := h.expanded m ih hexpand dir hdir fun _ => List.not_mem_nil
    by_contra hclosed
    refine hfresh hvalid ⟨by simpa using hclosed, ?_⟩
    by_contra hopen
    exact List.not_mem_nil (h.listed (pf.neighbor m dir) (by simpa using hopen))

theorem Searching.noExit (h : pf.Searching StartIndex EndIndex n [] (nodes, [])) :
    pf.NoExit StartIndex EndIndex := fun m hm hexpand dir hdir =>
  (h.expanded m (h.closed_of_reached hm) hexpand dir hdir fun _ => List.not_mem_nil).1

theorem heuristicLoop_outside {box : Finset V3} (hbox : ∀ p, pf.Inside p → p ∈ box)
    (hsmall : pf.small = true) (hstart : pf.Expandable EndIndex StartIndex)
    (hborder : pf.Bordered StartIndex EndIndex) (hexit : ¬pf.NoExit StartIndex EndIndex) (fuel k : ℕ)
    (h : pf.Searching StartIndex EndIndex n [] s) (hfuel : waiting box s < fuel) :
    pf.heuristicLoop queue (pf.getRealPos EndIndex) fuel k s = .error .outside := by
  induction fuel generalizing k n s with
  | zero => omega
  | succ fuel ih =>
    obtain ⟨nodes, openList⟩ := s
    by_cases hempty : openList = []
    · subst hempty
      exact absurd h.noExit hexit
    · obtain ⟨pos, hpos, hturn⟩ :=
        heuristicLoop_succ queue (pf.getRealPos EndIndex) fuel k hempty h.inside
      have hin : pf.isValidIndex (pf.getIndexPos pos) = true := h.inside pos hpos hsmall
      have hclose := h.close hpos
      have hless := waiting_close box nodes (pf.getIndexPos pos) hpos
      rw [hturn, if_neg (by simp [hin])]
      split_ifs with hnode hend
      · refine ih (k + 1) (hclose.skip fun hexpand => ?_) (by omega)
        rw [h.grid.valid, hexpand.2.1] at hnode
        cases hnode
      · exfalso
        have hend' : pf.getIndexPos pos = EndIndex := getIndexPos_eq_iff.2 hend
        rcases h.opened pos hpos with hfirst | ⟨P, dir, hP, hexpand, hdir, heq⟩
        · exact hstart.2.2 (hfirst.symm.trans hend')
        · have hinner : ∀ m, (nodes m).is_closed = true → pf.Expandable EndIndex m → pf.Inner m :=
            fun m hm hexpand dir hdir =>
              (h.expanded m hm hexpand dir hdir fun _ => List.not_mem_nil).1
          rcases h.first with hfirst | honly
          · exact hborder (hinner _ hfirst hstart) P (hinner P hP hexpand) dir hdir
              (heq.symm.trans hend')
          · rw [show openList = [pf.getRealPos StartIndex] from honly] at hpos
            rw [List.mem_singleton.1 hpos, getIndexPos_getRealPos] at hend'
            exact hstart.2.2 hend'
      · have hexpand : pf.Expandable EndIndex (pf.getIndexPos pos) := by
          refine ⟨hin, ?_, fun heq => hend (getIndexPos_eq_iff.1 heq)⟩
          rw [← h.grid.valid]
          simpa using hnode
        have hneighbors := hclose.openNeighbors hbox hexpand (fun _ hdir => hdir)
          (by rw [is_closed_close, if_pos rfl]) (h.first_close hpos)
        rw [getRealPos_getIndexPos] at hneighbors
        rcases hneighbors with hout | ⟨s', hs', hsearching, hle⟩
        · rw [hout]
          rfl
        · rw [hs']
          exact ih (k + 1) hsearching (by omega)

end Turn

end Searching

/-! ## The border -/

section Border

variable {a b : ℤ} {searchdistance max_jump max_drop : ℕ} {source destination pos : V3}

theorem walkLoop_flat (pf : Pathfinder) (max_down k steps : ℕ) (pos : V3) :
    (pf.walkLoop max_down k pos steps).1.X = pos.X ∧
      (pf.walkLoop max_down k pos steps).1.Z = pos.Z := by
  induction k generalizing pos steps with
  | zero => exact ⟨rfl, rfl⟩
  | succ k ih =>
    rw [walkLoop]
    split_ifs
    · obtain ⟨hX, hZ⟩ := ih (steps + 1) (pos + down)
      exact ⟨hX.trans (add_zero pos.X), hZ.trans (add_zero pos.Z)⟩
    · exact ⟨rfl, rfl⟩

theorem walkDownwards_flat (pf : Pathfinder) (pos : V3) (max_down : ℕ) :
    (pf.walkDownwards pos max_down).X = pos.X ∧ (pf.walkDownwards pos max_down).Z = pos.Z := by
  obtain ⟨hX, hZ⟩ := walkLoop_flat pf max_down (pos.Y - pf.MinEdge.Y).toNat 0 pos
  unfold walkDownwards
  dsimp only
  split_ifs
  · exact ⟨rfl, rfl⟩
  · exact ⟨hX, hZ⟩
  · exact ⟨(add_zero _).trans hX, (add_zero _).trans hZ⟩
  · exact ⟨rfl, rfl⟩
  · exact ⟨rfl, rfl⟩

/-- All four neighbors of a node are in an array where the node is not at its border. -/
theorem Inner.bounds (hsmall : pf.small = true) (h : pf.Inner n) :
    (0 < n.X ∧ n.X + 1 < pf.m_max_index.X) ∧ 0 < n.Z ∧ n.Z + 1 < pf.m_max_index.Z := by
  have hXP := isValidIndex_iff.1 (h ⟨1, 0, 0⟩ (by simp [directions]) hsmall)
  have hXM := isValidIndex_iff.1 (h ⟨-1, 0, 0⟩ (by simp [directions]) hsmall)
  have hZP := isValidIndex_iff.1 (h ⟨0, 0, 1⟩ (by simp [directions]) hsmall)
  have hZM := isValidIndex_iff.1 (h ⟨0, 0, -1⟩ (by simp [directions]) hsmall)
  have hX : 0 ≤ n.X + -1 ∧ n.X + 1 < pf.m_max_index.X := ⟨hXM.1.1, hXP.1.2⟩
  have hZ : 0 ≤ n.Z + -1 ∧ n.Z + 1 < pf.m_max_index.Z := ⟨hZM.2.2.1, hZP.2.2.2⟩
  omega

theorem neighbor_flat (pf : Pathfinder) (n : V3) (hdir : dir ∈ directions) :
    (pf.neighbor n dir).X = n.X ∨ (pf.neighbor n dir).Z = n.Z := by
  simp only [directions, List.mem_cons, List.not_mem_nil, or_false] at hdir
  rcases hdir with rfl | rfl | rfl | rfl
  · exact .inr (add_zero n.Z)
  · exact .inr (add_zero n.Z)
  · exact .inl (add_zero n.X)
  · exact .inl (add_zero n.X)

/-- What the limits are along an axis when the start and the end are in an array. -/
theorem axis (ha : 0 ≤ a - toPos (min a b - searchdistance))
    (ha' : a - toPos (min a b - searchdistance) <
      toPos (max a b + searchdistance) - toPos (min a b - searchdistance))
    (hb : 0 ≤ b - toPos (min a b - searchdistance))
    (hb' : b - toPos (min a b - searchdistance) <
      toPos (max a b + searchdistance) - toPos (min a b - searchdistance))
    (hsize : toPos (max a b + searchdistance) - toPos (min a b - searchdistance) ≤ 5) :
    (a ≤ b ∧ a - toPos (min a b - searchdistance) = searchdistance % 2 ^ 32 ∧
        toPos (max a b + searchdistance) - b = searchdistance % 2 ^ 32) ∨
      (b ≤ a ∧ b - toPos (min a b - searchdistance) = searchdistance % 2 ^ 32 ∧
        toPos (max a b + searchdistance) - a = searchdistance % 2 ^ 32) := by
  have hlow : toPos (min a b - searchdistance) % 2 ^ 32 = (min a b - searchdistance) % 2 ^ 32 :=
    Int.bmod_emod
  have hhigh : toPos (max a b + searchdistance) % 2 ^ 32 = (max a b + searchdistance) % 2 ^ 32 :=
    Int.bmod_emod
  rcases le_total a b with hle | hle
  · rw [min_eq_left hle, max_eq_right hle] at *
    exact .inl ⟨hle, by omega⟩
  · rw [min_eq_right hle, max_eq_left hle] at *
    exact .inr ⟨hle, by omega⟩

theorem le_five {edge rest : ℤ} (hrest : 0 ≤ rest) (h : edge * edge + rest < 36) : edge ≤ 5 := by
  nlinarith only [hrest, h]

theorem edge_le (hsmall : pf.small = true) :
    pf.m_max_index.X ≤ 5 ∧ pf.m_max_index.Y ≤ 5 ∧ pf.m_max_index.Z ≤ 5 := by
  have hlength : pf.m_max_index.X * pf.m_max_index.X + pf.m_max_index.Y * pf.m_max_index.Y +
      pf.m_max_index.Z * pf.m_max_index.Z < 36 := of_decide_eq_true hsmall
  have hXX := mul_self_nonneg pf.m_max_index.X
  have hYY := mul_self_nonneg pf.m_max_index.Y
  have hZZ := mul_self_nonneg pf.m_max_index.Z
  refine ⟨le_five (add_nonneg hYY hZZ) ?_, le_five (add_nonneg hXX hZZ) ?_,
    le_five (add_nonneg hXX hYY) ?_⟩ <;> linarith only [hlength]

/-- The search of an array does not get to the end without being at the border: where the start is
not at the border the end is, and in two directions. -/
theorem start_border {m_map : V3 → Block.Content} {walkable : Block.Content → Bool}
    {algo : PathAlgorithm}
    (hpf : pf = Pathfinder.start m_map walkable source destination searchdistance max_jump max_drop
      algo)
    (hStart : StartIndex = pf.getIndexPos (pf.walkDownwards source max_drop))
    (hEnd : EndIndex = pf.getIndexPos (pf.walkDownwards destination max_jump))
    (hsmall : pf.small = true) (hstart : pf.isValidIndex StartIndex = true)
    (hend : pf.isValidIndex EndIndex = true) (hne : StartIndex ≠ EndIndex) :
    pf.Bordered StartIndex EndIndex := by
  intro hinner P hP dir hdir hneighbor
  obtain ⟨hmX, hmY, hmZ⟩ := edge_le hsmall
  obtain ⟨hsX, hsY, hsZ⟩ := isValidIndex_iff.1 hstart
  obtain ⟨heX, heY, heZ⟩ := isValidIndex_iff.1 hend
  obtain ⟨hiX, hiZ⟩ := hinner.bounds hsmall
  obtain ⟨hpX, hpZ⟩ := hP.bounds hsmall
  have hflat := neighbor_flat pf P hdir
  rw [hneighbor] at hflat
  have hlength : pf.m_max_index.X * pf.m_max_index.X + pf.m_max_index.Y * pf.m_max_index.Y +
      pf.m_max_index.Z * pf.m_max_index.Z < 36 := of_decide_eq_true hsmall
  -- the margin is the same along both axes
  have hStartX : StartIndex.X = source.X - pf.MinEdge.X := by
    rw [hStart, ← (walkDownwards_flat pf source max_drop).1]
    rfl
  have hStartZ : StartIndex.Z = source.Z - pf.MinEdge.Z := by
    rw [hStart, ← (walkDownwards_flat pf source max_drop).2]
    rfl
  have hEndX : EndIndex.X = destination.X - pf.MinEdge.X := by
    rw [hEnd, ← (walkDownwards_flat pf destination max_jump).1]
    rfl
  have hEndZ : EndIndex.Z = destination.Z - pf.MinEdge.Z := by
    rw [hEnd, ← (walkDownwards_flat pf destination max_jump).2]
    rfl
  have hX : (source.X ≤ destination.X ∧ source.X - pf.MinEdge.X = searchdistance % 2 ^ 32 ∧
        pf.MaxEdge.X - destination.X = searchdistance % 2 ^ 32) ∨
      (destination.X ≤ source.X ∧ destination.X - pf.MinEdge.X = searchdistance % 2 ^ 32 ∧
        pf.MaxEdge.X - source.X = searchdistance % 2 ^ 32) := by
    rw [hStartX] at hsX
    rw [hEndX] at heX
    subst hpf
    exact axis hsX.1 hsX.2 heX.1 heX.2 hmX
  have hZ : (source.Z ≤ destination.Z ∧ source.Z - pf.MinEdge.Z = searchdistance % 2 ^ 32 ∧
        pf.MaxEdge.Z - destination.Z = searchdistance % 2 ^ 32) ∨
      (destination.Z ≤ source.Z ∧ destination.Z - pf.MinEdge.Z = searchdistance % 2 ^ 32 ∧
        pf.MaxEdge.Z - source.Z = searchdistance % 2 ^ 32) := by
    rw [hStartZ] at hsZ
    rw [hEndZ] at heZ
    subst hpf
    exact axis hsZ.1 hsZ.2 heZ.1 heZ.2 hmZ
  have hmaxX : pf.m_max_index.X = pf.MaxEdge.X - pf.MinEdge.X := rfl
  have hmaxZ : pf.m_max_index.Z = pf.MaxEdge.Z - pf.MinEdge.Z := rfl
  generalize (searchdistance : ℤ) % 2 ^ 32 = margin at hX hZ
  by_cases hmargin : margin ≤ 1
  · omega
  · -- a wider margin leaves one node only
    have hlargeX : 4 ≤ pf.m_max_index.X := by omega
    have hlargeZ : 4 ≤ pf.m_max_index.Z := by omega
    have hfourX : pf.m_max_index.X ≤ 4 := by nlinarith
    have hfourZ : pf.m_max_index.Z ≤ 4 := by nlinarith
    have honeY : pf.m_max_index.Y ≤ 1 := by nlinarith
    have hsameX : StartIndex.X = EndIndex.X := by omega
    have hsameY : StartIndex.Y = EndIndex.Y := by omega
    have hsameZ : StartIndex.Z = EndIndex.Z := by omega
    apply hne
    cases StartIndex
    cases EndIndex
    simp_all

end Border

/-! ## Paths -/

section Paths

variable {nodes : Nodes} {source destination : V3} {max_jump max_drop : ℕ} {algo : PathAlgorithm}

theorem fresh_initNode (pf : Pathfinder) (m : V3) : Fresh pf.initNode m := by
  unfold Fresh initNode
  dsimp only
  split_ifs <;> exact ⟨rfl, rfl⟩

/-- The elements before the search: what is written to them is not what the search relies on. -/
structure Untouched (pf : Pathfinder) (nodes : Nodes) : Prop where
  grid : pf.Grid nodes
  fresh : ∀ m, Fresh nodes m

theorem Untouched.modify (h : pf.Untouched nodes) (hn : pf.Inside n)
    {f : PathGridnode → PathGridnode} (hvalid : (f (nodes n)).valid = (nodes n).valid)
    (hcost : (f (nodes n)).directions = (nodes n).directions)
    (hsourcedir : (f (nodes n)).sourcedir = (nodes n).sourcedir)
    (hfresh : (f (nodes n)).is_closed = (nodes n).is_closed ∧
      (f (nodes n)).is_open = (nodes n).is_open) : pf.Untouched (Pathfinder.modify nodes n f) := by
  refine ⟨h.grid.modify hvalid hcost (by rw [hsourcedir]; exact h.grid.linked n hn), fun m => ?_⟩
  by_cases heq : m = n
  · subst heq
    unfold Fresh
    rw [modify_self, hfresh.1, hfresh.2]
    exact h.fresh m
  · unfold Fresh
    rw [modify_of_ne heq]
    exact h.fresh m

theorem untouched_marked (hStart : pf.Inside StartIndex) (hEnd : pf.Inside EndIndex) :
    pf.Untouched (pf.marked StartIndex EndIndex) :=
  Untouched.modify
    (Untouched.modify ⟨grid_initNode pf, fresh_initNode pf⟩ hEnd rfl rfl rfl ⟨rfl, rfl⟩)
    hStart rfl rfl rfl ⟨rfl, rfl⟩

def sourceNode (pf : Pathfinder) (EndIndex : V3) (s_pos : PathGridnode) : PathGridnode :=
  { s_pos with
    source := true
    totalcost := 0
    estimated_cost := pf.getXZManhattanDist (pf.getRealPos EndIndex) }

theorem updateCostHeuristic_eq (hStart : pf.Inside StartIndex) (fuel : ℕ) :
    pf.updateCostHeuristic queue fuel StartIndex EndIndex nodes =
      pf.heuristicLoop queue (pf.getRealPos EndIndex) fuel 0
        (Pathfinder.modify nodes StartIndex (pf.sourceNode EndIndex), [pf.getRealPos StartIndex]) := by
  unfold updateCostHeuristic
  rw [getIndexElement_inside hStart]
  rfl

theorem Untouched.sourced (h : pf.Untouched nodes) (hStart : pf.Inside StartIndex) :
    pf.Untouched (Pathfinder.modify nodes StartIndex (pf.sourceNode EndIndex)) :=
  h.modify hStart rfl rfl rfl ⟨rfl, rfl⟩

theorem fine_search (hStart : pf.Inside StartIndex)
    (halgo : algo = .PA_DIJKSTRA ∨ pf.NoExit StartIndex EndIndex) (h : pf.Untouched nodes)
    (fuel : ℕ) : Fine (fun r => pf.Linked r.2)
      (pf.search queue fuel algo StartIndex EndIndex nodes) := by
  have hheuristic : pf.NoExit StartIndex EndIndex → Fine (fun r => pf.Linked r.2)
      (pf.updateCostHeuristic queue fuel StartIndex EndIndex nodes) := by
    intro hno
    rw [updateCostHeuristic_eq hStart]
    refine fine_heuristicLoop hno fuel 0 ⟨(h.sourced hStart).grid, fun pos hpos => ?_,
      fun pos hpos => ?_⟩
    · rwa [List.mem_singleton.1 hpos, getIndexPos_getRealPos]
    · rw [List.mem_singleton.1 hpos, getIndexPos_getRealPos]
      exact .start
  cases algo with
  | PA_DIJKSTRA =>
    refine Fine.bind (fine_updateAllCosts fuel hStart ?_ h.grid.linked) fun r hr => hr
    rwa [add_zero_pos]
  | PA_PLAIN => exact hheuristic (halgo.resolve_left (by simp))
  | PA_PLAIN_NP => exact hheuristic (halgo.resolve_left (by simp))

theorem fine_searchPath (hStart : pf.Inside StartIndex) (hEnd : pf.Inside EndIndex)
    (halgo : algo = .PA_DIJKSTRA ∨ pf.NoExit StartIndex EndIndex) (h : pf.Untouched nodes)
    (fuel : ℕ) :
    Fine (fun _ => True) (pf.searchPath queue fuel algo StartIndex EndIndex nodes) := by
  refine Fine.bind (fine_search hStart halgo h fuel) fun r hr => ?_
  split_ifs
  · refine Fine.bind (fine_buildPath hr _ hEnd) fun index_path hpath => ?_
    exact Fine.bind (fine_fullPath fun p hp => hpath p (List.mem_reverse.1 hp)) fun _ _ => trivial
  · trivial

/-- When the path finder stays in its grid: the container is made without an overflow, and either no
element of it is accessed, or the start and the end are inside, and A* finds no way out. -/
def StaysInside (pf : Pathfinder) (source destination : V3) (max_jump max_drop : ℕ)
    (algo : PathAlgorithm) : Prop :=
  let StartIndex := pf.getIndexPos (pf.walkDownwards source max_drop)
  let EndIndex := pf.getIndexPos (pf.walkDownwards destination max_jump)
  pf.lengthSQ < 2 ^ 31 ∧
    ((pf.small = true ∧ pf.m_max_index.X * pf.m_max_index.Y * pf.m_max_index.Z < 0) ∨
      pf.walkable (pf.m_map destination) = true ∨ pf.walkable (pf.m_map source) = true ∨
      (pf.Inside StartIndex ∧ pf.Inside EndIndex ∧
        (algo = .PA_DIJKSTRA ∨ (pf.initNode EndIndex).valid = false ∨
          pf.NoExit StartIndex EndIndex)))

theorem fine_findPath (h : pf.StaysInside source destination max_jump max_drop algo) (fuel : ℕ) :
    Fine (fun _ => True) (pf.findPath queue fuel source destination max_jump max_drop algo) := by
  obtain ⟨hlength, hrun⟩ := h
  have hmade : Fine (fun _ => ¬(pf.small = true ∧
      pf.m_max_index.X * pf.m_max_index.Y * pf.m_max_index.Z < 0)) pf.makeContainer := by
    unfold makeContainer
    rw [if_neg (not_le.2 hlength)]
    split_ifs with hnegative
    · exact ⟨by simp, by simp⟩
    · exact hnegative
  refine Fine.bind hmade fun _ hnegative => ?_
  split_ifs with hdestination hsource
  · trivial
  · trivial
  · obtain ⟨hStart, hEnd, halgo⟩ :=
      ((hrun.resolve_left hnegative).resolve_left hdestination).resolve_left hsource
    refine fine_getIndexElement hStart (fine_getIndexElement hEnd ?_)
    split_ifs with hstartpos hendpos
    · trivial
    · trivial
    all_goals
      have halgo' := halgo.imp_right fun h => h.resolve_left hendpos
      exact Fine.bind (fine_searchPath hStart hEnd halgo' (untouched_marked hStart hEnd) fuel)
        fun _ _ => trivial

theorem exists_box (hsmall : pf.small = true) : ∃ box : Finset V3, ∀ p, pf.Inside p → p ∈ box := by
  refine ⟨(Finset.Ico 0 pf.m_max_index.X ×ˢ Finset.Ico 0 pf.m_max_index.Y ×ˢ
    Finset.Ico 0 pf.m_max_index.Z).image fun q => ⟨q.1, q.2.1, q.2.2⟩, fun p hp => ?_⟩
  have hvalid := isValidIndex_iff.1 (hp hsmall)
  refine Finset.mem_image.2 ⟨(p.X, p.Y, p.Z), ?_, rfl⟩
  simp only [Finset.mem_product, Finset.mem_Ico]
  exact hvalid

theorem Reached.start_expandable (h : pf.Reached StartIndex EndIndex n)
    (hn : pf.Expandable EndIndex n) : pf.Expandable EndIndex StartIndex := by
  induction h with
  | start => exact hn
  | step _ hm _ _ ih => exact ih hm

theorem expandable_of_exit (hexit : ¬pf.NoExit StartIndex EndIndex) :
    pf.Expandable EndIndex StartIndex :=
  by_contra fun hno => hexit fun _ hn hexpand => absurd (hn.start_expandable hexpand) hno

/-- A* leaves an array when there is an exit. -/
theorem updateCostHeuristic_outside (queue : PriorityQueue) (hsmall : pf.small = true)
    (hStart : pf.Inside StartIndex)
    (hborder : StartIndex ≠ EndIndex → pf.Bordered StartIndex EndIndex)
    (hexit : ¬pf.NoExit StartIndex EndIndex) (h : pf.Untouched nodes) :
    ∃ fuel, pf.updateCostHeuristic queue fuel StartIndex EndIndex nodes = .error .outside := by
  obtain ⟨box, hbox⟩ := exists_box hsmall
  have hstart := expandable_of_exit hexit
  have hmarked : pf.Untouched (Pathfinder.modify nodes StartIndex (pf.sourceNode EndIndex)) :=
    h.sourced hStart
  refine ⟨_, (updateCostHeuristic_eq hStart _).trans (heuristicLoop_outside (n := StartIndex) hbox
    hsmall hstart (hborder hstart.2.2) hexit _ 0 ⟨hmarked.grid, fun m hm => ?_, fun pos hpos => ?_,
      fun pos hpos => ?_, fun m hm => ?_, .inr rfl⟩ (Nat.lt_succ_self _))⟩
  · rw [(hmarked.fresh m).2] at hm
    cases hm
  · rwa [List.mem_singleton.1 hpos, getIndexPos_getRealPos]
  · rw [List.mem_singleton.1 hpos, getIndexPos_getRealPos]
    exact .inl rfl
  · rw [(hmarked.fresh m).1] at hm
    cases hm

theorem searchPath_outside (queue : PriorityQueue) (hsmall : pf.small = true)
    (hStart : pf.Inside StartIndex)
    (hborder : StartIndex ≠ EndIndex → pf.Bordered StartIndex EndIndex)
    (hexit : ¬pf.NoExit StartIndex EndIndex) (halgo : algo ≠ .PA_DIJKSTRA) (h : pf.Untouched nodes) :
    ∃ fuel, pf.searchPath queue fuel algo StartIndex EndIndex nodes = .error .outside := by
  obtain ⟨fuel, hfuel⟩ := updateCostHeuristic_outside queue hsmall hStart hborder hexit h
  refine ⟨fuel, ?_⟩
  unfold searchPath search
  cases algo with
  | PA_DIJKSTRA => exact absurd rfl halgo
  | PA_PLAIN => rw [hfuel]; rfl
  | PA_PLAIN_NP => rw [hfuel]; rfl

/-- What is left to do when the container is made and nothing is in the way. -/
theorem findPath_made (queue : PriorityQueue) (algo : PathAlgorithm) (hlength : pf.lengthSQ < 2 ^ 31)
    (hnegative : ¬(pf.small = true ∧
      pf.m_max_index.X * pf.m_max_index.Y * pf.m_max_index.Z < 0))
    (hdestination : ¬pf.walkable (pf.m_map destination) = true)
    (hsource : ¬pf.walkable (pf.m_map source) = true)
    (hStart : StartIndex = pf.getIndexPos (pf.walkDownwards source max_drop))
    (hEnd : EndIndex = pf.getIndexPos (pf.walkDownwards destination max_jump)) :
    ∃ finish : Option (List V3) → Except PathFault (List V3), ∀ fuel,
      pf.findPath queue fuel source destination max_jump max_drop algo =
        (pf.getIndexElement pf.initNode StartIndex).bind fun startpos =>
          (pf.getIndexElement pf.initNode EndIndex).bind fun endpos =>
            if startpos.valid = false then .ok []
            else if endpos.valid = false then .ok []
            else (pf.searchPath queue fuel algo StartIndex EndIndex
              (pf.marked StartIndex EndIndex)).bind finish := by
  have hmade : pf.makeContainer = .ok () := by
    unfold makeContainer
    rw [if_neg (not_le.2 hlength), if_neg hnegative]
  subst hStart hEnd
  refine ⟨fun found => .ok (found.elim [] fun path =>
    (if pf.walkDownwards source max_drop ≠ source then [source] else []) ++ path ++
      (if pf.walkDownwards destination max_jump ≠ destination then [destination] else [])),
    fun fuel => ?_⟩
  unfold findPath
  rw [hmade]
  change (if _ then _ else if _ then _ else _) = _
  rw [if_neg hdestination, if_neg hsource]

/-- The other way around, where the end is not reached before the border. -/
theorem staysInside_of_findPath
    (hStart : StartIndex = pf.getIndexPos (pf.walkDownwards source max_drop))
    (hEnd : EndIndex = pf.getIndexPos (pf.walkDownwards destination max_jump))
    (hborder : pf.small = true → pf.Inside StartIndex → pf.Inside EndIndex →
      StartIndex ≠ EndIndex → pf.Bordered StartIndex EndIndex)
    (h : ∀ fuel, pf.findPath queue fuel source destination max_jump max_drop algo ≠
        .error .outside ∧
      pf.findPath queue fuel source destination max_jump max_drop algo ≠ .error .overflow) :
    pf.StaysInside source destination max_jump max_drop algo := by
  have hlength : pf.lengthSQ < 2 ^ 31 := by
    by_contra hge
    refine (h 0).2 ?_
    unfold findPath makeContainer
    rw [if_pos (not_lt.1 hge)]
    rfl
  refine ⟨hlength, ?_⟩
  by_cases hnegative : pf.small = true ∧
      pf.m_max_index.X * pf.m_max_index.Y * pf.m_max_index.Z < 0
  · exact .inl hnegative
  by_cases hdestination : pf.walkable (pf.m_map destination) = true
  · exact .inr (.inl hdestination)
  by_cases hsource : pf.walkable (pf.m_map source) = true
  · exact .inr (.inr (.inl hsource))
  refine .inr (.inr (.inr ?_))
  rw [← hStart, ← hEnd]
  obtain ⟨finish, hmade⟩ := findPath_made queue algo hlength hnegative
    hdestination hsource hStart hEnd
  simp only [hmade] at h
  have hinStart : pf.Inside StartIndex := by
    by_contra hout
    rw [getIndexElement_outside hout] at h
    exact (h 0).1 rfl
  rw [getIndexElement_inside hinStart] at h
  have hinEnd : pf.Inside EndIndex := by
    by_contra hout
    rw [getIndexElement_outside hout] at h
    exact (h 0).1 rfl
  rw [getIndexElement_inside hinEnd] at h
  refine ⟨hinStart, hinEnd, ?_⟩
  by_contra hcon
  simp only [not_or] at hcon
  obtain ⟨halgo, hendpos, hexit⟩ := hcon
  have hsmall : pf.small = true := by
    by_contra hlarge
    exact hexit fun n _ _ dir _ hsmall => absurd hsmall hlarge
  obtain ⟨fuel, hfuel⟩ := searchPath_outside queue hsmall hinStart
    (hborder hsmall hinStart hinEnd) hexit halgo (untouched_marked hinStart hinEnd)
  refine (h fuel).1 ?_
  change (if _ then _ else if _ then _ else _) = _
  rw [if_neg (by simp [(expandable_of_exit hexit).2.1]), if_neg hendpos, hfuel]
  rfl

/-- The path finder stays in its grid exactly if no `int` overflows, the start and the end are inside
and A*, when it is used, does not read a neighbor that is outside. -/
theorem getPath_inside_iff (m_map : V3 → Block.Content) (walkable : Block.Content → Bool)
    (queue : PriorityQueue) (source destination : V3) (searchdistance max_jump max_drop : ℕ)
    (algo : PathAlgorithm) :
    (∀ fuel, getPath m_map walkable queue fuel source destination searchdistance max_jump max_drop
        algo ≠ .error .outside ∧
      getPath m_map walkable queue fuel source destination searchdistance max_jump max_drop algo ≠
        .error .overflow) ↔
      (start m_map walkable source destination searchdistance max_jump max_drop algo).StaysInside
        source destination max_jump max_drop algo := by
  constructor
  · exact staysInside_of_findPath rfl rfl fun hsmall hin hin' hne =>
      start_border rfl rfl rfl hsmall (hin hsmall) (hin' hsmall) hne
  · intro h fuel
    exact (fine_findPath h fuel).ne

theorem not_getPath_inside : ¬∀ (m_map : V3 → Block.Content) (walkable : Block.Content → Bool)
    (queue : PriorityQueue) (fuel : ℕ) (source destination : V3)
    (searchdistance max_jump max_drop : ℕ) (algo : PathAlgorithm),
    getPath m_map walkable queue fuel source destination searchdistance max_jump max_drop algo ≠
      .error .outside := fun h =>
  h (fun _ => Block.CONTENT_AIR) (fun _ => false) scanQueue 1 ⟨0, 0, 0⟩ ⟨0, 0, 0⟩ 0 1 1 .PA_PLAIN_NP
    (by decide)

/-- One turn of A* between two neighbors on flat ground leaves the array. -/
example : getPath (fun p => if p.Y < 0 then 5 else Block.CONTENT_AIR) (fun c => c = 5) scanQueue 2
    ⟨0, 0, 0⟩ ⟨1, 0, 0⟩ 1 1 1 .PA_PLAIN_NP = .error .outside := by decide

end Paths

end Pathfinder

end Freeminer.Pathfinding
