import Freeminer.Voxel.Light

/-! `VoxelArea` (`voxel.h`), whose edges are inclusive, and the areas that are left of one when
another is taken out of it. -/

namespace Freeminer.Voxel

/-- The width of `pos_t`. -/
inductive Build where
  | pos16
  | pos32
  deriving DecidableEq

namespace Build

def POS_MIN : Build → ℤ
  | pos16 => -32768
  | pos32 => -2147483648

def POS_MAX : Build → ℤ
  | pos16 => 32767
  | pos32 => 2147483647

def MAX_EXTENT : Build → ℤ
  | pos16 => 65536
  | pos32 => 2147483647

/-- An `int` that is stored as a `pos_t`. A short one wraps around; where the `int` itself is out of
its range nothing is defined. -/
def toPos (b : Build) (i : ℤ) : Option ℤ :=
  match b with
  | pos16 => some (i.bmod 65536)
  | pos32 => if -2147483648 ≤ i ∧ i ≤ 2147483647 then some i else none

variable {b : Build} {i : ℤ}

theorem toPos_of_range (hmin : b.POS_MIN ≤ i) (hmax : i ≤ b.POS_MAX) : b.toPos i = some i := by
  cases b with
  | pos16 =>
    change -32768 ≤ i at hmin
    change i ≤ 32767 at hmax
    have hwrap : i.bmod 65536 = i := by
      rw [Int.bmod_def]
      split <;> omega
    rw [toPos, hwrap]
  | pos32 => exact if_pos ⟨hmin, hmax⟩

end Build

structure VoxelArea (b : Build) where
  MinEdge : V3
  MaxEdge : V3
  minX : b.POS_MIN ≤ MinEdge.X ∧ MinEdge.X ≤ b.POS_MAX
  minY : b.POS_MIN ≤ MinEdge.Y ∧ MinEdge.Y ≤ b.POS_MAX
  minZ : b.POS_MIN ≤ MinEdge.Z ∧ MinEdge.Z ≤ b.POS_MAX
  maxX : b.POS_MIN ≤ MaxEdge.X ∧ MaxEdge.X ≤ b.POS_MAX
  maxY : b.POS_MIN ≤ MaxEdge.Y ∧ MaxEdge.Y ≤ b.POS_MAX
  maxZ : b.POS_MIN ≤ MaxEdge.Z ∧ MaxEdge.Z ≤ b.POS_MAX
  extentX : 0 ≤ MaxEdge.X - MinEdge.X + 1 ∧ MaxEdge.X - MinEdge.X + 1 ≤ b.MAX_EXTENT
  extentY : 0 ≤ MaxEdge.Y - MinEdge.Y + 1 ∧ MaxEdge.Y - MinEdge.Y + 1 ≤ b.MAX_EXTENT
  extentZ : 0 ≤ MaxEdge.Z - MinEdge.Z + 1 ∧ MaxEdge.Z - MinEdge.Z + 1 ≤ b.MAX_EXTENT

namespace VoxelArea

variable {b : Build}

/-- The constructor from two edges, with the assertions of `cacheExtent`. -/
def make (b : Build) (min_edge max_edge : V3) : Option (VoxelArea b) :=
  if h : ((b.POS_MIN ≤ min_edge.X ∧ min_edge.X ≤ b.POS_MAX) ∧
      (b.POS_MIN ≤ min_edge.Y ∧ min_edge.Y ≤ b.POS_MAX) ∧
      (b.POS_MIN ≤ min_edge.Z ∧ min_edge.Z ≤ b.POS_MAX)) ∧
      ((b.POS_MIN ≤ max_edge.X ∧ max_edge.X ≤ b.POS_MAX) ∧
      (b.POS_MIN ≤ max_edge.Y ∧ max_edge.Y ≤ b.POS_MAX) ∧
      (b.POS_MIN ≤ max_edge.Z ∧ max_edge.Z ≤ b.POS_MAX)) ∧
      (0 ≤ max_edge.X - min_edge.X + 1 ∧ max_edge.X - min_edge.X + 1 ≤ b.MAX_EXTENT) ∧
      (0 ≤ max_edge.Y - min_edge.Y + 1 ∧ max_edge.Y - min_edge.Y + 1 ≤ b.MAX_EXTENT) ∧
      (0 ≤ max_edge.Z - min_edge.Z + 1 ∧ max_edge.Z - min_edge.Z + 1 ≤ b.MAX_EXTENT) then
    some ⟨min_edge, max_edge, h.1.1, h.1.2.1, h.1.2.2, h.2.1.1, h.2.1.2.1, h.2.1.2.2, h.2.2.1,
      h.2.2.2.1, h.2.2.2.2⟩
  else none

def getExtent (a : VoxelArea b) : V3 :=
  ⟨a.MaxEdge.X - a.MinEdge.X + 1, a.MaxEdge.Y - a.MinEdge.Y + 1, a.MaxEdge.Z - a.MinEdge.Z + 1⟩

def hasEmptyExtent (a : VoxelArea b) : Bool :=
  decide (a.getExtent.X = 0 ∨ a.getExtent.Y = 0 ∨ a.getExtent.Z = 0)

/-- `contains` of a position. -/
def Holds (a : VoxelArea b) (p : V3) : Prop :=
  (a.MinEdge.X ≤ p.X ∧ p.X ≤ a.MaxEdge.X) ∧ (a.MinEdge.Y ≤ p.Y ∧ p.Y ≤ a.MaxEdge.Y) ∧
    (a.MinEdge.Z ≤ p.Z ∧ p.Z ≤ a.MaxEdge.Z)

instance (a : VoxelArea b) (p : V3) : Decidable (a.Holds p) :=
  inferInstanceAs (Decidable (_ ∧ _ ∧ _))

/-- `contains` of an area; none contains an empty one. -/
def contains (a c : VoxelArea b) : Bool :=
  !c.hasEmptyExtent && (a.MinEdge.X ≤ c.MinEdge.X && c.MaxEdge.X ≤ a.MaxEdge.X &&
    a.MinEdge.Y ≤ c.MinEdge.Y && c.MaxEdge.Y ≤ a.MaxEdge.Y &&
    a.MinEdge.Z ≤ c.MinEdge.Z && c.MaxEdge.Z ≤ a.MaxEdge.Z)

/-- The edges of the areas that `diff` takes: back, front, top, bottom, left and right. -/
def slabs (s a : VoxelArea b) : List (Option (V3 × V3)) :=
  [(b.toPos (a.MaxEdge.Z + 1)).map fun z => (⟨s.MinEdge.X, s.MinEdge.Y, z⟩, s.MaxEdge),
    (b.toPos (a.MinEdge.Z - 1)).map fun z => (s.MinEdge, ⟨s.MaxEdge.X, s.MaxEdge.Y, z⟩),
    (b.toPos (a.MaxEdge.Y + 1)).map fun y =>
      (⟨s.MinEdge.X, y, a.MinEdge.Z⟩, ⟨s.MaxEdge.X, s.MaxEdge.Y, a.MaxEdge.Z⟩),
    (b.toPos (a.MinEdge.Y - 1)).map fun y =>
      (⟨s.MinEdge.X, s.MinEdge.Y, a.MinEdge.Z⟩, ⟨s.MaxEdge.X, y, a.MaxEdge.Z⟩),
    (b.toPos (a.MinEdge.X - 1)).map fun x =>
      (⟨s.MinEdge.X, a.MinEdge.Y, a.MinEdge.Z⟩, ⟨x, a.MaxEdge.Y, a.MaxEdge.Z⟩),
    (b.toPos (a.MaxEdge.X + 1)).map fun x =>
      (⟨x, a.MinEdge.Y, a.MinEdge.Z⟩, ⟨s.MaxEdge.X, a.MaxEdge.Y, a.MaxEdge.Z⟩)]

def ofEdges (edges : Option (V3 × V3)) : Option (VoxelArea b) :=
  edges.bind fun e => make b e.1 e.2

/-- `diff`: the areas that are not empty. Nothing is defined where an edge overflows, and an area
that is not inside fails the assertion. -/
def diff (s a : VoxelArea b) : Option (List (VoxelArea b)) :=
  if a.hasEmptyExtent then some (if s.hasEmptyExtent then [] else [s])
  else if s.contains a then
    ((s.slabs a).mapM ofEdges).map (List.filter fun c => !c.hasEmptyExtent)
  else none

/-- The areas are disjoint and not empty, and together they are the positions of the area that are
not in the other. -/
structure Partitions (l : List (VoxelArea b)) (s a : VoxelArea b) : Prop where
  disjoint : l.Pairwise fun c c' => ∀ p, ¬(c.Holds p ∧ c'.Holds p)
  nonempty : ∀ c ∈ l, ∃ p, c.Holds p
  union : ∀ p, (∃ c ∈ l, c.Holds p) ↔ s.Holds p ∧ ¬a.Holds p

/-- No edge is at an end of `pos_t`. -/
def Inner (a : VoxelArea b) : Prop :=
  (b.POS_MIN < a.MinEdge.X ∧ a.MaxEdge.X < b.POS_MAX) ∧
    (b.POS_MIN < a.MinEdge.Y ∧ a.MaxEdge.Y < b.POS_MAX) ∧
    (b.POS_MIN < a.MinEdge.Z ∧ a.MaxEdge.Z < b.POS_MAX)

variable {s a c : VoxelArea b} {l : List (VoxelArea b)}

theorem hasEmptyExtent_eq_false_iff : a.hasEmptyExtent = false ↔
    a.MinEdge.X ≤ a.MaxEdge.X ∧ a.MinEdge.Y ≤ a.MaxEdge.Y ∧ a.MinEdge.Z ≤ a.MaxEdge.Z := by
  have hx := a.extentX.1
  have hy := a.extentY.1
  have hz := a.extentZ.1
  rw [hasEmptyExtent, decide_eq_false_iff_not]
  unfold getExtent
  dsimp only
  omega

theorem exists_holds_iff : (∃ p, a.Holds p) ↔ a.hasEmptyExtent = false := by
  rw [hasEmptyExtent_eq_false_iff]
  constructor
  · rintro ⟨p, hx, hy, hz⟩
    exact ⟨hx.1.trans hx.2, hy.1.trans hy.2, hz.1.trans hz.2⟩
  · rintro ⟨hx, hy, hz⟩
    exact ⟨a.MinEdge, ⟨le_rfl, hx⟩, ⟨le_rfl, hy⟩, le_rfl, hz⟩

theorem contains_iff (ha : a.hasEmptyExtent = false) : s.contains a = true ↔
    (s.MinEdge.X ≤ a.MinEdge.X ∧ a.MaxEdge.X ≤ s.MaxEdge.X) ∧
      (s.MinEdge.Y ≤ a.MinEdge.Y ∧ a.MaxEdge.Y ≤ s.MaxEdge.Y) ∧
      (s.MinEdge.Z ≤ a.MinEdge.Z ∧ a.MaxEdge.Z ≤ s.MaxEdge.Z) := by
  simp [contains, ha, and_assoc]

theorem partitions_of_empty (ha : a.hasEmptyExtent = true) :
    Partitions (if s.hasEmptyExtent then [] else [s]) s a := by
  have hnone : ∀ p, ¬a.Holds p := by
    intro p hp
    have := exists_holds_iff.mp ⟨p, hp⟩
    rw [ha] at this
    cases this
  split_ifs with hs
  · refine ⟨List.Pairwise.nil, by simp, fun p => ?_⟩
    have hnone' : ¬s.Holds p := by
      intro hp
      rw [exists_holds_iff.mp ⟨p, hp⟩] at hs
      cases hs
    simp [hnone']
  · refine ⟨List.pairwise_singleton _ _, ?_, fun p => by simp [hnone p]⟩
    intro c hc
    rw [List.mem_singleton.mp hc]
    exact exists_holds_iff.mpr (Bool.eq_false_iff.mpr hs)

/-- The edges of an axis lie within those of an area, and are at most one off from each other. -/
def Within (b : Build) (min_edge max_edge lo hi : ℤ) : Prop :=
  (min_edge ≤ lo ∧ lo ≤ b.POS_MAX) ∧ (b.POS_MIN ≤ hi ∧ hi ≤ max_edge) ∧ lo ≤ hi + 1

theorem ofEdges_within (s : VoxelArea b) (lo hi : V3)
    (hx : Within b s.MinEdge.X s.MaxEdge.X lo.X hi.X)
    (hy : Within b s.MinEdge.Y s.MaxEdge.Y lo.Y hi.Y)
    (hz : Within b s.MinEdge.Z s.MaxEdge.Z lo.Z hi.Z) :
    ∃ c : VoxelArea b, ofEdges (some (lo, hi)) = some c ∧ c.MinEdge = lo ∧ c.MaxEdge = hi := by
  have hX := s.extentX.2
  have hY := s.extentY.2
  have hZ := s.extentZ.2
  have hminX := s.minX.1
  have hminY := s.minY.1
  have hminZ := s.minZ.1
  have hmaxX := s.maxX.2
  have hmaxY := s.maxY.2
  have hmaxZ := s.maxZ.2
  unfold Within at hx hy hz
  exact ⟨_, dif_pos (by dsimp only; omega), rfl, rfl⟩

/-- The edges that are taken when none of the other area is at an end. -/
theorem slabs_of_inner (h : a.Inner) (hab : a.hasEmptyExtent = false) : s.slabs a =
    [some (⟨s.MinEdge.X, s.MinEdge.Y, a.MaxEdge.Z + 1⟩, s.MaxEdge),
      some (s.MinEdge, ⟨s.MaxEdge.X, s.MaxEdge.Y, a.MinEdge.Z - 1⟩),
      some (⟨s.MinEdge.X, a.MaxEdge.Y + 1, a.MinEdge.Z⟩, ⟨s.MaxEdge.X, s.MaxEdge.Y, a.MaxEdge.Z⟩),
      some (⟨s.MinEdge.X, s.MinEdge.Y, a.MinEdge.Z⟩, ⟨s.MaxEdge.X, a.MinEdge.Y - 1, a.MaxEdge.Z⟩),
      some (⟨s.MinEdge.X, a.MinEdge.Y, a.MinEdge.Z⟩, ⟨a.MinEdge.X - 1, a.MaxEdge.Y, a.MaxEdge.Z⟩),
      some (⟨a.MaxEdge.X + 1, a.MinEdge.Y, a.MinEdge.Z⟩,
        ⟨s.MaxEdge.X, a.MaxEdge.Y, a.MaxEdge.Z⟩)] := by
  obtain ⟨⟨hminX, hmaxX⟩, ⟨hminY, hmaxY⟩, hminZ, hmaxZ⟩ := h
  obtain ⟨hX, hY, hZ⟩ := hasEmptyExtent_eq_false_iff.mp hab
  unfold slabs
  rw [Build.toPos_of_range (i := a.MaxEdge.Z + 1) (by omega) (by omega),
    Build.toPos_of_range (i := a.MinEdge.Z - 1) (by omega) (by omega),
    Build.toPos_of_range (i := a.MaxEdge.Y + 1) (by omega) (by omega),
    Build.toPos_of_range (i := a.MinEdge.Y - 1) (by omega) (by omega),
    Build.toPos_of_range (i := a.MinEdge.X - 1) (by omega) (by omega),
    Build.toPos_of_range (i := a.MaxEdge.X + 1) (by omega) (by omega)]
  rfl

theorem pairwise_filter_nonempty (h : l.Pairwise fun c c' => ∀ p, ¬(c.Holds p ∧ c'.Holds p))
    (hunion : ∀ p, (∃ c ∈ l, c.Holds p) ↔ s.Holds p ∧ ¬a.Holds p) :
    Partitions (l.filter fun c => !c.hasEmptyExtent) s a where
  disjoint := h.filter _
  nonempty c hc := exists_holds_iff.mpr (by simpa using (List.mem_filter.mp hc).2)
  union p := by
    rw [← hunion p]
    constructor
    · rintro ⟨c, hc, hp⟩
      exact ⟨c, (List.mem_filter.mp hc).1, hp⟩
    · rintro ⟨c, hc, hp⟩
      have hne := exists_holds_iff.mp ⟨p, hp⟩
      exact ⟨c, List.mem_filter.mpr ⟨hc, by simpa using hne⟩, hp⟩

theorem diff_of_inner (ha : a.hasEmptyExtent = false) (hs : s.contains a = true) (h : a.Inner) :
    ∃ l, s.diff a = some l ∧ Partitions l s a := by
  obtain ⟨hx, hy, hz⟩ := (contains_iff ha).mp hs
  obtain ⟨hax, hay, haz⟩ := hasEmptyExtent_eq_false_iff.mp ha
  have hinner := h
  obtain ⟨⟨hminX, hmaxX⟩, ⟨hminY, hmaxY⟩, hminZ, hmaxZ⟩ := h
  have hsX := s.minX
  have hsY := s.minY
  have hsZ := s.minZ
  have hsX' := s.maxX
  have hsY' := s.maxY
  have hsZ' := s.maxZ
  have hwhole : Within b s.MinEdge.X s.MaxEdge.X s.MinEdge.X s.MaxEdge.X ∧
      Within b s.MinEdge.Y s.MaxEdge.Y s.MinEdge.Y s.MaxEdge.Y ∧
      Within b s.MinEdge.Z s.MaxEdge.Z a.MinEdge.Z a.MaxEdge.Z ∧
      Within b s.MinEdge.Y s.MaxEdge.Y a.MinEdge.Y a.MaxEdge.Y := by
    unfold Within
    omega
  obtain ⟨hX, hY, hZa, hYa⟩ := hwhole
  obtain ⟨back, hback, hback1, hback2⟩ := ofEdges_within s
    ⟨s.MinEdge.X, s.MinEdge.Y, a.MaxEdge.Z + 1⟩ s.MaxEdge hX hY
    (by unfold Within; dsimp only; omega)
  obtain ⟨front, hfront, hfront1, hfront2⟩ := ofEdges_within s
    s.MinEdge ⟨s.MaxEdge.X, s.MaxEdge.Y, a.MinEdge.Z - 1⟩ hX hY
    (by unfold Within; dsimp only; omega)
  obtain ⟨top, htop, htop1, htop2⟩ := ofEdges_within s
    ⟨s.MinEdge.X, a.MaxEdge.Y + 1, a.MinEdge.Z⟩
    ⟨s.MaxEdge.X, s.MaxEdge.Y, a.MaxEdge.Z⟩ hX (by unfold Within; dsimp only; omega) hZa
  obtain ⟨bottom, hbottom, hbottom1, hbottom2⟩ := ofEdges_within s
    ⟨s.MinEdge.X, s.MinEdge.Y, a.MinEdge.Z⟩
    ⟨s.MaxEdge.X, a.MinEdge.Y - 1, a.MaxEdge.Z⟩ hX (by unfold Within; dsimp only; omega) hZa
  obtain ⟨left, hleft, hleft1, hleft2⟩ := ofEdges_within s
    ⟨s.MinEdge.X, a.MinEdge.Y, a.MinEdge.Z⟩
    ⟨a.MinEdge.X - 1, a.MaxEdge.Y, a.MaxEdge.Z⟩ (by unfold Within; dsimp only; omega) hYa hZa
  obtain ⟨right, hright, hright1, hright2⟩ := ofEdges_within s
    ⟨a.MaxEdge.X + 1, a.MinEdge.Y, a.MinEdge.Z⟩
    ⟨s.MaxEdge.X, a.MaxEdge.Y, a.MaxEdge.Z⟩ (by unfold Within; dsimp only; omega) hYa hZa
  have hall : (s.slabs a).mapM ofEdges = some [back, front, top, bottom, left, right] := by
    rw [slabs_of_inner hinner ha]
    simp [hback, hfront, htop, hbottom, hleft, hright]
  refine ⟨_, by rw [diff, if_neg (by simp [ha]), if_pos hs, hall]; rfl, ?_⟩
  apply pairwise_filter_nonempty
  · simp only [List.pairwise_cons, List.mem_cons, List.not_mem_nil, or_false, forall_eq_or_imp,
      forall_eq, Holds, hback1, hback2, hfront1, hfront2, htop1, htop2, hbottom1, hbottom2, hleft1,
      hleft2, hright1, hright2, List.Pairwise.nil, IsEmpty.forall_iff, implies_true, and_true]
    refine ⟨⟨?_, ?_, ?_, ?_, ?_⟩, ⟨?_, ?_, ?_, ?_⟩, ⟨?_, ?_, ?_⟩, ⟨?_, ?_⟩, ?_⟩ <;>
      · intro p
        omega
  · intro p
    simp only [List.mem_cons, List.not_mem_nil, or_false, exists_eq_or_imp, exists_eq_left, Holds,
      hback1, hback2, hfront1, hfront2, htop1, htop2, hbottom1, hbottom2, hleft1, hleft2, hright1,
      hright2]
    omega

/-- One past an end is undefined, or the other end. -/
theorem toPos_past_end : (b.toPos (b.POS_MAX + 1) = none ∨ b.toPos (b.POS_MAX + 1) = some b.POS_MIN) ∧
    (b.toPos (b.POS_MIN - 1) = none ∨ b.toPos (b.POS_MIN - 1) = some b.POS_MAX) := by
  cases b <;> decide

theorem edges_of_ofEdges {lo hi : V3} (h : ofEdges (some (lo, hi)) = some c) :
    c.MinEdge = lo ∧ c.MaxEdge = hi := by
  have hmake : make b lo hi = some c := h
  unfold make at hmake
  split_ifs at hmake
  obtain rfl := Option.some.inj hmake
  exact ⟨rfl, rfl⟩

theorem ofEdges_of_mapM {edges : List (Option (V3 × V3))} (h : edges.mapM ofEdges = some l)
    {e : Option (V3 × V3)} (he : e ∈ edges) : ∃ c ∈ l, ofEdges e = some c := by
  induction edges generalizing l with
  | nil => cases he
  | cons e' edges ih =>
    rw [List.mapM_cons] at h
    obtain ⟨c', hc', h⟩ := Option.bind_eq_some_iff.mp h
    obtain ⟨cs, hcs, h⟩ := Option.bind_eq_some_iff.mp h
    obtain rfl := Option.some.inj h
    rcases List.mem_cons.mp he with rfl | he
    · exact ⟨c', List.mem_cons_self, hc'⟩
    · obtain ⟨c, hc, hec⟩ := ih hcs he
      exact ⟨c, List.mem_cons_of_mem _ hc, hec⟩

/-- An area whose edge wrapped around would hold a position of the area that was taken out. -/
theorem inner_of_diff (ha : a.hasEmptyExtent = false) (hs : s.contains a = true)
    (hl : s.diff a = some l) (h : Partitions l s a) : a.Inner := by
  rw [diff, if_neg (by simp [ha]), if_pos hs] at hl
  obtain ⟨cs, hcs, rfl⟩ := Option.map_eq_some_iff.mp hl
  obtain ⟨hx, hy, hz⟩ := (contains_iff ha).mp hs
  obtain ⟨hax, hay, haz⟩ := hasEmptyExtent_eq_false_iff.mp ha
  have hself : a.Holds a.MinEdge := ⟨⟨le_rfl, hax⟩, ⟨le_rfl, hay⟩, le_rfl, haz⟩
  have hnone : ∀ c ∈ cs, ¬c.Holds a.MinEdge := by
    intro c hc hp
    have hne := exists_holds_iff.mp ⟨_, hp⟩
    exact ((h.union _).mp ⟨c, List.mem_filter.mpr ⟨hc, by simpa using hne⟩, hp⟩).2 hself
  have hX := a.minX
  have hY := a.minY
  have hZ := a.minZ
  have hX' := s.maxX.2
  have hY' := s.maxY.2
  have hZ' := s.maxZ.2
  have hsX := s.minX.1
  have hsY := s.minY.1
  have hsZ := s.minZ.1
  obtain ⟨hpast, hpast'⟩ := toPos_past_end (b := b)
  -- an edge that is stored in a slab leaves the corner outside of it
  have hslab : ∀ (i : ℤ) (f : ℤ → V3 × V3), (b.toPos i).map f ∈ s.slabs a →
      ∃ j, b.toPos i = some j ∧ ¬(((f j).1.X ≤ a.MinEdge.X ∧ a.MinEdge.X ≤ (f j).2.X) ∧
        ((f j).1.Y ≤ a.MinEdge.Y ∧ a.MinEdge.Y ≤ (f j).2.Y) ∧
        ((f j).1.Z ≤ a.MinEdge.Z ∧ a.MinEdge.Z ≤ (f j).2.Z)) := by
    intro i f hmem
    obtain ⟨c, hc, hof⟩ := ofEdges_of_mapM hcs hmem
    cases hj : b.toPos i with
    | none =>
      rw [hj] at hof
      cases hof
    | some j =>
      rw [hj] at hof
      obtain ⟨h1, h2⟩ := edges_of_ofEdges hof
      refine ⟨j, rfl, fun hin => hnone c hc ?_⟩
      unfold Holds
      rw [h1, h2]
      exact hin
  have hmax : ∀ f, (b.toPos (b.POS_MAX + 1)).map f ∈ s.slabs a →
      ¬(((f b.POS_MIN).1.X ≤ a.MinEdge.X ∧ a.MinEdge.X ≤ (f b.POS_MIN).2.X) ∧
        ((f b.POS_MIN).1.Y ≤ a.MinEdge.Y ∧ a.MinEdge.Y ≤ (f b.POS_MIN).2.Y) ∧
        ((f b.POS_MIN).1.Z ≤ a.MinEdge.Z ∧ a.MinEdge.Z ≤ (f b.POS_MIN).2.Z)) := by
    intro f hmem
    obtain ⟨j, hj, hout⟩ := hslab _ f hmem
    rcases hpast with hp | hp <;> rw [hp] at hj <;> cases hj
    exact hout
  have hmin : ∀ f, (b.toPos (b.POS_MIN - 1)).map f ∈ s.slabs a →
      ¬(((f b.POS_MAX).1.X ≤ a.MinEdge.X ∧ a.MinEdge.X ≤ (f b.POS_MAX).2.X) ∧
        ((f b.POS_MAX).1.Y ≤ a.MinEdge.Y ∧ a.MinEdge.Y ≤ (f b.POS_MAX).2.Y) ∧
        ((f b.POS_MAX).1.Z ≤ a.MinEdge.Z ∧ a.MinEdge.Z ≤ (f b.POS_MAX).2.Z)) := by
    intro f hmem
    obtain ⟨j, hj, hout⟩ := hslab _ f hmem
    rcases hpast' with hp | hp <;> rw [hp] at hj <;> cases hj
    exact hout
  refine ⟨⟨?_, ?_⟩, ⟨?_, ?_⟩, ?_, ?_⟩
  · by_contra hend
    have hleft := hmin _ (by
      rw [show b.POS_MIN = a.MinEdge.X by omega]
      exact List.mem_of_getElem? (i := 4) rfl)
    dsimp only at hleft
    omega
  · by_contra hend
    have hright := hmax _ (by
      rw [show b.POS_MAX = a.MaxEdge.X by omega]
      exact List.mem_of_getElem? (i := 5) rfl)
    dsimp only at hright
    omega
  · by_contra hend
    have hbottom := hmin _ (by
      rw [show b.POS_MIN = a.MinEdge.Y by omega]
      exact List.mem_of_getElem? (i := 3) rfl)
    dsimp only at hbottom
    omega
  · by_contra hend
    have htop := hmax _ (by
      rw [show b.POS_MAX = a.MaxEdge.Y by omega]
      exact List.mem_of_getElem? (i := 2) rfl)
    dsimp only at htop
    omega
  · by_contra hend
    have hfront := hmin _ (by
      rw [show b.POS_MIN = a.MinEdge.Z by omega]
      exact List.mem_of_getElem? (i := 1) rfl)
    dsimp only at hfront
    omega
  · by_contra hend
    have hback := hmax _ (by
      rw [show b.POS_MAX = a.MaxEdge.Z by omega]
      exact List.mem_of_getElem? (i := 0) rfl)
    dsimp only at hback
    omega

/-- `diff` is a partition just when nothing is taken out, or no edge of what is taken out is at an end
of `pos_t`. -/
theorem diff_partitions_iff (h : a.hasEmptyExtent = true ∨ s.contains a = true) :
    (∃ l, s.diff a = some l ∧ Partitions l s a) ↔ (a.hasEmptyExtent = true ∨ a.Inner) := by
  cases ha : a.hasEmptyExtent with
  | true =>
    refine iff_of_true ⟨_, by rw [diff, if_pos ha], ?_⟩ (.inl rfl)
    exact partitions_of_empty ha
  | false =>
    have hs : s.contains a = true := h.resolve_left (by simp [ha])
    constructor
    · rintro ⟨l, hl, hpart⟩
      exact .inr (inner_of_diff ha hs hl hpart)
    · rintro (hempty | hinner)
      · cases hempty
      · exact diff_of_inner ha hs hinner

def cube (b : Build) (lo hi : ℤ) (hlo : b.POS_MIN ≤ lo ∧ lo ≤ b.POS_MAX)
    (hhi : b.POS_MIN ≤ hi ∧ hi ≤ b.POS_MAX) (h : 0 ≤ hi - lo + 1 ∧ hi - lo + 1 ≤ b.MAX_EXTENT) :
    VoxelArea b :=
  ⟨⟨lo, lo, lo⟩, ⟨hi, hi, hi⟩, hlo, hlo, hlo, hhi, hhi, hhi, h, h, h⟩

theorem diff_partitions_iff_cube :
    ∃ l, (cube .pos32 0 2 (by decide) (by decide) (by decide)).diff
        (cube .pos32 1 1 (by decide) (by decide) (by decide)) = some l ∧
      Partitions l (cube .pos32 0 2 (by decide) (by decide) (by decide))
        (cube .pos32 1 1 (by decide) (by decide) (by decide)) :=
  (diff_partitions_iff (.inr (by decide))).mpr
    (.inr ⟨⟨by decide, by decide⟩, ⟨by decide, by decide⟩, by decide, by decide⟩)

/-- With positions of 16 bits, the last node taken out of itself leaves whole columns. -/
theorem not_partitions : ¬∀ (b : Build) (s a : VoxelArea b), s.contains a = true →
    ∃ l, s.diff a = some l ∧ Partitions l s a := by
  intro h
  obtain ⟨l, hl, hpart⟩ := h .pos16 (cube .pos16 32767 32767 (by decide) (by decide) (by decide))
    (cube .pos16 32767 32767 (by decide) (by decide) (by decide)) (by decide)
  have hinner := inner_of_diff (by decide) (by decide) hl hpart
  exact absurd hinner.1.2 (by decide)

end VoxelArea

end Freeminer.Voxel
