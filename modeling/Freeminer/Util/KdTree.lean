import Mathlib.Data.List.GetD
import Freeminer.Lib.KdTree
import Freeminer.Lib.SortedMerge

/-! A k-d-tree (`util/k_d_tree.h`): points with their indices in order along each axis, and the
tree that splitting the indices in the middle, one axis after the other, gives. -/

namespace Freeminer.Util

open Lib

/-- The conversion to `Idx`, of 16 bits. -/
def idx (n : ℕ) : ℕ := n % 65536

abbrev Point (Dim : ℕ) (β : Type) := Fin Dim → β

structure SortedIndices (Dim : ℕ) where
  indices : Fin Dim → List ℕ

structure SplitResult (Dim : ℕ) where
  left : SortedIndices Dim
  right : SortedIndices Dim
  pivot : ℕ

variable {Dim : ℕ} [NeZero Dim] {β Id : Type}

namespace SortedIndices

variable (s : SortedIndices Dim)

def size : ℕ := (s.indices 0).length

def setMarkers (b : Bool) (l : List ℕ) (markers : List Bool) : List Bool :=
  l.foldl (fun markers i => markers.set i b) markers

/-- The indices before and after the middle one of an axis, and the markers again as they were. -/
def split (axis : Fin Dim) (markers : List Bool) : SplitResult Dim × List Bool :=
  let leftN := idx (s.size / 2)
  let left := (s.indices axis).take leftN
  let mid := (s.indices axis).getD leftN 0
  let marked := setMarkers true left markers
  (⟨⟨fun d => if d = axis then left
      else (s.indices d).filter fun i => i ≠ mid && marked.getD i false⟩,
    ⟨fun d => if d = axis then (s.indices axis).drop (leftN + 1)
      else (s.indices d).filter fun i => i ≠ mid && !marked.getD i false⟩, mid⟩,
    setMarkers false left marked)

end SortedIndices

structure SortedPoints (Dim : ℕ) (β : Type) where
  points : List (Point Dim β) := []
  indices : SortedIndices Dim := ⟨fun _ => []⟩

/-- `begin(d)[i]` -/
def coord [Inhabited β] (points : List (Point Dim β)) (d : Fin Dim) (i : ℕ) : β :=
  (points.getD i default) d

namespace SortedPoints

variable [LE β] [LT β] [DecidableLE β] [DecidableLT β] [Inhabited β]

def size (s : SortedPoints Dim β) : ℕ := s.points.length

def single (point : Point Dim β) : SortedPoints Dim β := ⟨[point], ⟨fun _ => [0]⟩⟩

def sort (S : Sorter) (points : List (Point Dim β)) : SortedPoints Dim β where
  points := points
  indices := ⟨fun d => S.sort (fun i j => decide (coord points d i < coord points d j))
    (List.range points.length)⟩

def merge (a b : SortedPoints Dim β) : SortedPoints Dim β where
  points := a.points ++ b.points
  indices := ⟨fun d =>
    ((a.indices.indices d).merge ((b.indices.indices d).map (· + a.size)) fun i j =>
      decide (coord (a.points ++ b.points) d i ≤ coord (a.points ++ b.points) d j)).map idx⟩

end SortedPoints

structure KdTree (Dim : ℕ) (β Id : Type) where
  items : SortedPoints Dim β := {}
  ids : List Id := []
  tree : List ℕ := []
  deleted : List Bool := []

namespace KdTree

variable [LE β] [LT β] [DecidableLE β] [DecidableLT β] [Inhabited β] [Inhabited Id]

def cap (t : KdTree Dim β Id) : ℕ := t.items.size

/-- Fills the array of the tree from `root` on; `fuel` is at least the number of indices. -/
def init : ℕ → ℕ → Fin Dim → SortedIndices Dim → List ℕ × List Bool → List ℕ × List Bool
  | 0, _, _, _, s => s
  | fuel + 1, root, axis, sorted, (tree, deleted) =>
    let (split, deleted) := sorted.split axis deleted
    let s := (tree.set root split.pivot, deleted)
    let s := if split.left.size = 0 then s
      else init fuel (idx (2 * root + 1)) (axis + 1) split.left s
    if split.right.size = 0 then s
    else init fuel (idx (2 * root + 2)) (axis + 1) split.right s

def initAll (items : SortedPoints Dim β) : List ℕ × List Bool :=
  init items.size 0 0 items.indices
    (List.replicate items.size 0, List.replicate items.size false)

def single (point : Point Dim β) (id : Id) : KdTree Dim β Id where
  items := .single point
  ids := [id]
  tree := [0]
  deleted := [false]

def build (S : Sorter) (pts : List (Point Dim β × Id)) : KdTree Dim β Id :=
  let items := SortedPoints.sort S (pts.map Prod.fst)
  { items, ids := pts.map Prod.snd, tree := (initAll items).1, deleted := (initAll items).2 }

/-- The marks of the merged tree are those of the two, which `init` has used meanwhile. -/
def merge (a b : KdTree Dim β Id) : KdTree Dim β Id :=
  let items := a.items.merge b.items
  { items, ids := a.ids ++ b.ids, tree := (initAll items).1, deleted := a.deleted ++ b.deleted }

def remove (t : KdTree Dim β Id) (internalIdx : ℕ) : Option (KdTree Dim β Id) :=
  if t.deleted.getD internalIdx false then none
  else some { t with deleted := t.deleted.set internalIdx true }

/-- What `foreach` calls back with. -/
def foreach (t : KdTree Dim β Id) : List (ℕ × Point Dim β × Id) :=
  ((List.range t.cap).filter fun i => !t.deleted.getD i false).map fun i =>
    (i, t.items.points.getD i default, t.ids.getD i default)

/-- From `root` on; `fuel` is at least the depth. -/
def rangeQueryFrom (t : KdTree Dim β Id) (min max : Point Dim β) :
    ℕ → ℕ → Fin Dim → List (Point Dim β × Id)
  | 0, _, _ => []
  | fuel + 1, root, split =>
    if root ≥ t.cap then []
    else
      let ptid := t.tree.getD root 0
      let point := t.items.points.getD ptid default
      if min split > point split then rangeQueryFrom t min max fuel (2 * root + 2) (split + 1)
      else if max split < point split then
        rangeQueryFrom t min max fuel (2 * root + 1) (split + 1)
      else
        rangeQueryFrom t min max fuel (2 * root + 2) (split + 1) ++
          rangeQueryFrom t min max fuel (2 * root + 1) (split + 1) ++
          if t.deleted.getD ptid false then []
          else if ∃ d, point d < min d ∨ point d > max d then []
          else [(point, t.ids.getD ptid default)]

def rangeQuery (t : KdTree Dim β Id) (min max : Point Dim β) : List (Point Dim β × Id) :=
  t.rangeQueryFrom min max t.cap 0 0

end KdTree

end Freeminer.Util

/-! A k-d-tree finds its points: the tree that `init` fills in splits the points by the axes, and
the query follows it. -/

set_option linter.unusedSectionVars false

namespace Freeminer.Util

open Lib

variable {Dim : ℕ} [NeZero Dim] {β Id : Type} [LE β] [LT β] [DecidableLE β] [DecidableLT β]
  [Inhabited β] [Inhabited Id]

namespace SortedIndices

section Markers

variable {b : Bool} {l markers : List Bool} {is : List ℕ} {i n : ℕ}

@[simp] theorem length_setMarkers (b : Bool) (is : List ℕ) (markers : List Bool) :
    (setMarkers b is markers).length = markers.length := by
  unfold setMarkers
  induction is generalizing markers with
  | nil => rfl
  | cons j is ih => rw [List.foldl_cons, ih, List.length_set]

theorem getElem?_setMarkers (b : Bool) (is : List ℕ) (markers : List Bool) (i : ℕ) :
    (setMarkers b is markers)[i]? =
      if i ∈ is ∧ i < markers.length then some b else markers[i]? := by
  unfold setMarkers
  induction is generalizing markers with
  | nil => simp
  | cons j is ih =>
    rw [List.foldl_cons, ih, List.length_set, List.getElem?_set]
    by_cases hj : j = i
    · subst hj
      by_cases hlen : j < markers.length
      · simp [hlen]
      · simp [hlen]
    · simp [hj, Ne.symm hj]

theorem getD_setMarkers_true (h : i < n) :
    (setMarkers true is (List.replicate n false)).getD i false = decide (i ∈ is) := by
  rw [List.getD_eq_getElem?_getD, getElem?_setMarkers]
  by_cases hi : i ∈ is <;> simp [hi, h]

theorem setMarkers_false_true (is : List ℕ) (n : ℕ) :
    setMarkers false is (setMarkers true is (List.replicate n false)) = List.replicate n false := by
  apply List.ext_getElem?
  intro i
  rw [getElem?_setMarkers, getElem?_setMarkers, length_setMarkers, List.length_replicate,
    List.getElem?_replicate]
  split_ifs <;> simp_all

end Markers

/-- On each axis the indices are the same, each once and in the order of the points. -/
structure WF (points : List (Point Dim β)) (s : SortedIndices Dim) : Prop where
  nodup : (s.indices 0).Nodup
  perm : ∀ d, (s.indices d).Perm (s.indices 0)
  sorted : ∀ d, (s.indices d).Pairwise fun i j => coord points d i ≤ coord points d j

section Split

variable {points : List (Point Dim β)} {s : SortedIndices Dim} {n : ℕ}

theorem filter_marked_perm {l left right : List ℕ} {mid : ℕ} (hnodup : (left ++ mid :: right).Nodup)
    (hperm : l.Perm (left ++ mid :: right)) :
    (l.filter fun i => i ≠ mid && decide (i ∈ left)).Perm left ∧
      (l.filter fun i => i ≠ mid && !decide (i ∈ left)).Perm right := by
  obtain ⟨hleft, hright, hdisj⟩ := List.nodup_append.mp hnodup
  have hnodup' := hperm.nodup_iff.mpr hnodup
  have hmid : mid ∉ left := fun h => hdisj mid h mid List.mem_cons_self rfl
  obtain ⟨hmid', hright⟩ := List.nodup_cons.mp hright
  constructor
  · apply (List.perm_ext_iff_of_nodup (hnodup'.filter _) hleft).mpr
    intro i
    simp only [List.mem_filter, hperm.mem_iff, List.mem_append, List.mem_cons, Bool.and_eq_true,
      decide_eq_true_eq]
    constructor
    · exact fun h => h.2.2
    · intro h
      exact ⟨Or.inl h, fun he => hmid (he ▸ h), h⟩
  · apply (List.perm_ext_iff_of_nodup (hnodup'.filter _) hright).mpr
    intro i
    simp only [List.mem_filter, hperm.mem_iff, List.mem_append, List.mem_cons, Bool.and_eq_true,
      decide_eq_true_eq, Bool.not_eq_true', decide_eq_false_iff_not]
    constructor
    · rintro ⟨h | h | h, hne, hnot⟩
      · exact absurd h hnot
      · exact absurd h hne
      · exact h
    · intro h
      exact ⟨Or.inr (Or.inr h), fun he => hmid' (he ▸ h),
        fun hl => hdisj i hl i (List.mem_cons_of_mem _ h) rfl⟩

theorem idx_of_lt {m : ℕ} (h : m < 65536) : idx m = m := Nat.mod_eq_of_lt h

structure IsSplit (points : List (Point Dim β)) (s : SortedIndices Dim) (axis : Fin Dim)
    (r : SplitResult Dim) : Prop where
  left : r.left.WF points
  right : r.right.WF points
  left_size : r.left.size = s.size / 2
  right_size : r.right.size = s.size - s.size / 2 - 1
  perm : (s.indices 0).Perm (r.pivot :: (r.left.indices 0 ++ r.right.indices 0))
  left_le : ∀ i ∈ r.left.indices 0, coord points axis i ≤ coord points axis r.pivot
  le_right : ∀ i ∈ r.right.indices 0, coord points axis r.pivot ≤ coord points axis i

theorem split_snd (s : SortedIndices Dim) (axis : Fin Dim) (n : ℕ) :
    (s.split axis (List.replicate n false)).2 = List.replicate n false :=
  setMarkers_false_true _ _

theorem split_isSplit (h : s.WF points) (hpos : 0 < s.size) (hsize : s.size < 65536)
    (hn : ∀ i ∈ s.indices 0, i < n) (axis : Fin Dim) :
    IsSplit points s axis (s.split axis (List.replicate n false)).1 := by
  have hidx : idx (s.size / 2) = s.size / 2 := idx_of_lt (by omega)
  have hlen : (s.indices axis).length = s.size := (h.perm axis).length_eq
  have hmid : s.size / 2 < (s.indices axis).length := by omega
  let left := (s.indices axis).take (s.size / 2)
  let mid := (s.indices axis).getD (s.size / 2) 0
  let right := (s.indices axis).drop (s.size / 2 + 1)
  have hparts : s.indices axis = left ++ mid :: right := by
    have hget : mid = (s.indices axis)[s.size / 2] := List.getD_eq_getElem _ _ hmid
    rw [hget, ← List.drop_eq_getElem_cons hmid, List.take_append_drop]
  have hnodup : (left ++ mid :: right).Nodup := hparts ▸ (h.perm axis).nodup_iff.mpr h.nodup
  have hsorted := hparts ▸ h.sorted axis
  obtain ⟨hsl, hsr, hlr⟩ := List.pairwise_append.mp hsorted
  obtain ⟨hmr, hsr⟩ := List.pairwise_cons.mp hsr
  -- what the filters of the other axes keep
  have hfilter : ∀ d, (((s.indices d).filter fun i => i ≠ mid && decide (i ∈ left)).Perm left ∧
      ((s.indices d).filter fun i => i ≠ mid && !decide (i ∈ left)).Perm right) := fun d =>
    filter_marked_perm hnodup (hparts ▸ (h.perm d).trans (h.perm axis).symm)
  have hmarked : ∀ d, ∀ i ∈ s.indices d,
      (setMarkers true left (List.replicate n false)).getD i false = decide (i ∈ left) :=
    fun d i hi => getD_setMarkers_true (hn i ((h.perm d).mem_iff.mp hi))
  have hl : ∀ d, ((s.split axis (List.replicate n false)).1.left.indices d).Perm left ∧
      ((s.split axis (List.replicate n false)).1.left.indices d).Sublist (s.indices d) := by
    intro d
    simp only [split, hidx]
    split_ifs with hd
    · subst hd
      exact ⟨List.Perm.refl _, List.take_sublist _ _⟩
    · rw [List.filter_congr (q := fun i => i ≠ mid && decide (i ∈ left)) fun i hi => by
        rw [hmarked d i hi]]
      exact ⟨(hfilter d).1, List.filter_sublist⟩
  have hr : ∀ d, ((s.split axis (List.replicate n false)).1.right.indices d).Perm right ∧
      ((s.split axis (List.replicate n false)).1.right.indices d).Sublist (s.indices d) := by
    intro d
    simp only [split, hidx]
    split_ifs with hd
    · subst hd
      exact ⟨List.Perm.refl _, List.drop_sublist _ _⟩
    · rw [List.filter_congr (q := fun i => i ≠ mid && !decide (i ∈ left)) fun i hi => by
        rw [hmarked d i hi]]
      exact ⟨(hfilter d).2, List.filter_sublist⟩
  have hpivot : (s.split axis (List.replicate n false)).1.pivot = mid := by
    simp only [split, hidx]
    rfl
  have hnl := (List.nodup_append.mp hnodup).1
  have hnr := (List.nodup_cons.mp (List.nodup_append.mp hnodup).2.1).2
  refine ⟨⟨(hl 0).1.nodup_iff.mpr hnl, fun d => (hl d).1.trans (hl 0).1.symm,
      fun d => (h.sorted d).sublist (hl d).2⟩,
    ⟨(hr 0).1.nodup_iff.mpr hnr, fun d => (hr d).1.trans (hr 0).1.symm,
      fun d => (h.sorted d).sublist (hr d).2⟩, ?_, ?_, ?_, ?_, ?_⟩
  · have : left.length = s.size / 2 := by simp [left]; omega
    exact (hl 0).1.length_eq.trans this
  · have : right.length = s.size - s.size / 2 - 1 := by simp [right]; omega
    exact (hr 0).1.length_eq.trans this
  · rw [hpivot]
    have hcons := ((hl 0).1.append (hr 0).1).cons mid
    refine (h.perm axis).symm.trans ?_
    rw [hparts]
    exact List.perm_middle.trans hcons.symm
  · rw [hpivot]
    intro i hi
    exact hlr i ((hl 0).1.mem_iff.mp hi) mid List.mem_cons_self
  · rw [hpivot]
    intro i hi
    exact hmr i ((hr 0).1.mem_iff.mp hi)

end Split

end SortedIndices

namespace KdTree

open SortedIndices

section Init

variable {points : List (Point Dim β)} {root n : ℕ} {axis : Fin Dim}

/-- From `root` on, the array `tree'` has the tree of the indices, and elsewhere it is `tree`. -/
structure Filled (points : List (Point Dim β)) (root : ℕ) (axis : Fin Dim)
    (sorted : SortedIndices Dim) (tree tree' : List ℕ) : Prop where
  length : tree'.length = tree.length
  frame : ∀ j, ¬ Below root j → tree'.getD j 0 = tree.getD j 0
  laid : ∃ t, Laid tree.length (fun j => tree'.getD j 0) root t ∧
    (elements t).Perm (sorted.indices 0) ∧ Splits (coord points) axis t

theorem filled_empty {sorted : SortedIndices Dim} {tree : List ℕ} (hsize : sorted.size = 0)
    (hfits : Fits tree.length root sorted.size) : Filled points root axis sorted tree tree := by
  refine ⟨rfl, fun _ _ => rfl, .nil, .nil ?_, ?_, trivial⟩
  · rw [hsize] at hfits
    exact hfits.le_of_eq_zero
  · rw [List.eq_nil_of_length_eq_zero hsize]
    exact List.Perm.refl _

/-- A pivot at the root, and then one side after the other. -/
theorem filled_node {sorted : SortedIndices Dim} {r : SplitResult Dim} {tree tree₁ tree₂ : List ℕ}
    (hr : IsSplit points sorted axis r) (hroot : root < tree.length)
    (hl : Filled points (2 * root + 1) (axis + 1) r.left (tree.set root r.pivot) tree₁)
    (hr' : Filled points (2 * root + 2) (axis + 1) r.right tree₁ tree₂) :
    Filled points root axis sorted tree tree₂ := by
  obtain ⟨tl, hlaidl, hpl, hsl⟩ := hl.laid
  obtain ⟨tr, hlaidr, hpr, hsr⟩ := hr'.laid
  have hlen : tree₁.length = tree.length := hl.length.trans (List.length_set ..)
  have hat : tree₂.getD root 0 = r.pivot := by
    rw [hr'.frame root fun h => absurd (le_of_below h) (by omega),
      hl.frame root fun h => absurd (le_of_below h) (by omega)]
    simp [List.getD_eq_getElem?_getD, hroot]
  refine ⟨hr'.length.trans hlen, fun j hj => ?_, .node r.pivot tl tr, ?_, ?_, ?_, ?_, hsl, hsr⟩
  · have hne : root ≠ j := fun h => hj (h ▸ below_self root)
    rw [hr'.frame j fun h => hj (below_of_right h), hl.frame j fun h => hj (below_of_left h)]
    simp [List.getD_eq_getElem?_getD, hne]
  · rw [← hat]
    apply Laid.node hroot
    · rw [List.length_set] at hlaidl
      exact hlaidl.congr fun j hj => (hr'.frame j (not_below_right hj)).symm
    · rwa [hlen] at hlaidr
  · exact ((hpl.append hpr).cons r.pivot).trans hr.perm.symm
  · exact fun b hb => hr.left_le b (hpl.mem_iff.mp hb)
  · exact fun b hb => hr.le_right b (hpr.mem_iff.mp hb)

/-- `init` fills in the tree of the indices, and leaves the markers as they were. -/
theorem init_filled (hn : n < 65536) (fuel : ℕ) : ∀ (root : ℕ) (axis : Fin Dim)
    (sorted : SortedIndices Dim) (tree : List ℕ), sorted.WF points →
    (∀ i ∈ sorted.indices 0, i < n) → 0 < sorted.size → sorted.size ≤ fuel → sorted.size ≤ n →
    tree.length = n → Fits n root sorted.size →
    (init fuel root axis sorted (tree, List.replicate n false)).2 = List.replicate n false ∧
      Filled points root axis sorted tree
        (init fuel root axis sorted (tree, List.replicate n false)).1 := by
  induction fuel with
  | zero =>
    intro root axis sorted tree _ _ hpos hfuel
    omega
  | succ fuel ih =>
    intro root axis sorted tree hwf hlt hpos hfuel hsize hlen hfits
    -- a side of the split, which may be empty
    have hside : ∀ (root : ℕ) (side : SortedIndices Dim) (tree : List ℕ), side.WF points →
        (∀ i ∈ side.indices 0, i < n) → side.size ≤ fuel → side.size ≤ n → tree.length = n →
        Fits n root side.size →
        (if side.size = 0 then (tree, List.replicate n false)
          else init fuel (idx root) (axis + 1) side (tree, List.replicate n false)).2 =
            List.replicate n false ∧
          Filled points root (axis + 1) side tree
            (if side.size = 0 then (tree, List.replicate n false)
              else init fuel (idx root) (axis + 1) side (tree, List.replicate n false)).1 := by
      intro root side tree hwf hlt hfuel hsize hlen hfits
      split_ifs with h0
      · exact ⟨rfl, filled_empty h0 (hlen ▸ hfits)⟩
      · have hroot := hfits.lt_of_pos (Nat.pos_of_ne_zero h0)
        rw [idx_of_lt (by omega)]
        exact ih root (axis + 1) side tree hwf hlt (Nat.pos_of_ne_zero h0) hfuel hsize hlen hfits
    have hr := split_isSplit hwf hpos (by omega) hlt axis
    have hmarks := split_snd sorted axis n
    have hmem : ∀ i ∈ (sorted.split axis (List.replicate n false)).1.left.indices 0 ++
        (sorted.split axis (List.replicate n false)).1.right.indices 0, i < n := fun i hi =>
      hlt i (hr.perm.mem_iff.mpr (List.mem_cons_of_mem _ hi))
    have hsl := hr.left_size
    have hsr := hr.right_size
    obtain ⟨hl2, hl1⟩ := hside (2 * root + 1) (sorted.split axis (List.replicate n false)).1.left
      (tree.set root (sorted.split axis (List.replicate n false)).1.pivot) hr.left
      (fun i hi => hmem i (List.mem_append_left _ hi)) (by omega) (by omega)
      ((List.length_set ..).trans hlen) (hsl ▸ hfits.left hpos)
    simp only [init, hmarks]
    generalize hs : (if (sorted.split axis (List.replicate n false)).1.left.size = 0 then _
      else _ : List ℕ × List Bool) = s at hl1 hl2 ⊢
    obtain ⟨tree₁, marks⟩ := s
    subst hl2
    obtain ⟨hr2, hr1⟩ := hside (2 * root + 2) (sorted.split axis (List.replicate n false)).1.right
      tree₁ hr.right (fun i hi => hmem i (List.mem_append_right _ hi)) (by omega) (by omega)
      (hl1.length.trans ((List.length_set ..).trans hlen)) (hsr ▸ hfits.right hpos)
    exact ⟨hr2, filled_node hr (hlen ▸ hfits.lt_of_pos hpos) hl1 hr1⟩

end Init

section Query

variable {t : KdTree Dim β Id}

/-- The point with its id, and whether it is not marked as deleted. -/
def entry (t : KdTree Dim β Id) (i : ℕ) : Point Dim β × Id :=
  (t.items.points.getD i default, t.ids.getD i default)

def alive (t : KdTree Dim β Id) (i : ℕ) : Bool := !t.deleted.getD i false

def live (t : KdTree Dim β Id) : List (Point Dim β × Id) :=
  ((List.range t.cap).filter t.alive).map t.entry

structure WF (t : KdTree Dim β Id) : Prop where
  sorted : t.items.indices.WF t.items.points
  perm : (t.items.indices.indices 0).Perm (List.range t.cap)
  ids : t.ids.length = t.cap
  deleted : t.deleted.length = t.cap
  laid : ∃ tree, Laid t.cap (fun j => t.tree.getD j 0) 0 tree ∧
    (elements tree).Perm (List.range t.cap) ∧ Splits (coord t.items.points) 0 tree

/-- The box from `min` to `max`. -/
def InBox (min max point : Point Dim β) : Prop := ∀ d, min d ≤ point d ∧ point d ≤ max d

instance (min max : Point Dim β) : DecidablePred (InBox min max) := fun _ =>
  inferInstanceAs (Decidable (∀ _, _))

/-- What the query does at the point of a node. -/
theorem found_eq (t : KdTree Dim β Id) (min max : Point Dim β) (i : ℕ) :
    (if t.deleted.getD i false then []
      else if ∃ d, t.items.points.getD i default d < min d ∨ t.items.points.getD i default d > max d
        then []
      else [(t.items.points.getD i default, t.ids.getD i default)]) =
    ((if inBox (coord t.items.points) min max i then [i] else []).filter t.alive).map t.entry := by
  have hbox : inBox (coord t.items.points) min max i = true ↔
      ¬ ∃ d, t.items.points.getD i default d < min d ∨
        t.items.points.getD i default d > max d := by
    simp [inBox, coord]
  by_cases hin : inBox (coord t.items.points) min max i = true
  · rw [if_neg (hbox.mp hin), if_pos hin]
    have halive : t.alive i = !t.deleted.getD i false := rfl
    cases hdel : t.deleted.getD i false with
    | false =>
      rw [hdel] at halive
      rw [List.filter_cons_of_pos halive]
      rfl
    | true =>
      rw [hdel] at halive
      rw [List.filter_cons_of_neg (by simp [halive])]
      rfl
  · rw [if_pos (not_not.mp (mt hbox.mpr hin)), if_neg hin]
    simp

/-- The query goes down the tree that lies in the array. -/
theorem rangeQueryFrom_eq {min max : Point Dim β} {root : ℕ} {tree : BinaryTree ℕ}
    (h : Laid t.cap (fun j => t.tree.getD j 0) root tree) {fuel : ℕ}
    (hfuel : (elements tree).length ≤ fuel) (axis : Fin Dim) :
    t.rangeQueryFrom min max fuel root axis =
      ((query (coord t.items.points) min max axis tree).filter t.alive).map t.entry := by
  induction h generalizing fuel axis with
  | nil hroot =>
    cases fuel with
    | zero => rfl
    | succ fuel =>
      unfold rangeQueryFrom
      rw [if_pos hroot]
      rfl
  | @node root l r hroot hl hr ihl ihr =>
    cases fuel with
    | zero => simp [elements] at hfuel
    | succ fuel =>
      simp only [elements, List.length_cons, List.length_append] at hfuel
      have ihl := @ihl fuel (by omega) (axis + 1)
      have ihr := @ihr fuel (by omega) (axis + 1)
      simp only [rangeQueryFrom, if_neg (Nat.not_le.mpr hroot), query, ihl, ihr, found_eq]
      by_cases h1 : coord t.items.points axis (t.tree.getD root 0) < min axis
      · rw [if_pos h1]
        exact if_pos h1
      · by_cases h2 : max axis < coord t.items.points axis (t.tree.getD root 0)
        · rw [if_neg h1, if_pos h2]
          exact (if_neg h1).trans (if_pos h2)
        · rw [if_neg h1, if_neg h2, List.filter_append, List.filter_append, List.map_append,
            List.map_append]
          exact (if_neg h1).trans (if_neg h2)

variable [Std.IsLinearPreorder β] [Std.LawfulOrderLT β]

/-- A query finds the points in the box that are not deleted, each once. -/
theorem rangeQuery_perm (h : t.WF) (min max : Point Dim β) :
    (t.rangeQuery min max).Perm (t.live.filter fun e => InBox min max e.1) := by
  obtain ⟨tree, hlaid, hperm, hsplits⟩ := h.laid
  have hfuel : (elements tree).length ≤ t.cap := by
    rw [hperm.length_eq, List.length_range]
  have hbox : ∀ i, inBox (coord t.items.points) min max i = decide (InBox min max (t.entry i).1) := by
    intro i
    apply decide_eq_decide.mpr
    simp only [InBox, entry, coord, not_or, Std.not_lt]
  unfold rangeQuery live
  rw [rangeQueryFrom_eq hlaid hfuel, List.filter_map]
  apply List.Perm.map
  refine ((query_perm hsplits).filter _).trans ?_
  rw [List.filter_comm]
  refine (((hperm.filter t.alive).filter _)).trans ?_
  rw [List.filter_congr fun i _ => hbox i]
  exact List.Perm.refl _

end Query

section Build

variable {t a b : KdTree Dim β Id} [Std.IsLinearPreorder β] [Std.LawfulOrderLT β]

theorem sort_wf (S : Sorter) (points : List (Point Dim β)) :
    (SortedPoints.sort S points).indices.WF points ∧
      ∀ d, ((SortedPoints.sort S points).indices.indices d).Perm (List.range points.length) := by
  have hperm : ∀ d, ((SortedPoints.sort S points).indices.indices d).Perm
      (List.range points.length) := fun d => S.perm _ _
  refine ⟨⟨(hperm 0).nodup_iff.mpr List.nodup_range, fun d => (hperm d).trans (hperm 0).symm,
    fun d => ?_⟩, hperm⟩
  refine (S.pairwise _ _ (fun i j h => ?_) fun i j k h₁ h₂ => ?_).imp fun {i j} h => ?_
  · rw [decide_eq_true_eq] at h
    rw [decide_eq_false_iff_not, Std.not_lt]
    exact Std.le_of_lt h
  · rw [decide_eq_false_iff_not, Std.not_lt] at h₁ h₂ ⊢
    exact Std.le_trans h₁ h₂
  · rwa [decide_eq_false_iff_not, Std.not_lt] at h

theorem map_idx_eq {l : List ℕ} (h : ∀ i ∈ l, i < 65536) : l.map idx = l := by
  conv_rhs => rw [← List.map_id l]
  exact List.map_congr_left fun i hi => idx_of_lt (h i hi)

theorem coord_append_left {p q : List (Point Dim β)} {d : Fin Dim} {i : ℕ} (h : i < p.length) :
    coord (p ++ q) d i = coord p d i := by
  unfold coord
  rw [List.getD_append _ _ _ _ h]

theorem coord_append_right (p q : List (Point Dim β)) (d : Fin Dim) (i : ℕ) :
    coord (p ++ q) d (i + p.length) = coord q d i := by
  unfold coord
  rw [List.getD_append_right _ _ _ _ (by omega), Nat.add_sub_cancel]

/-- The merge of two sorted sets of points. -/
theorem merge_wf {a b : SortedPoints Dim β} (ha : a.indices.WF a.points)
    (hb : b.indices.WF b.points) (hpa : (a.indices.indices 0).Perm (List.range a.size))
    (hpb : (b.indices.indices 0).Perm (List.range b.size)) (hsize : a.size + b.size < 65536) :
    (a.merge b).indices.WF (a.merge b).points ∧
      ((a.merge b).indices.indices 0).Perm (List.range (a.merge b).size) := by
  have hsum : (a.merge b).size = a.size + b.size := List.length_append
  -- before the indices are stored
  have hmerge : ∀ d, (((a.indices.indices d).merge ((b.indices.indices d).map (· + a.size))
      fun i j => decide (coord (a.points ++ b.points) d i ≤ coord (a.points ++ b.points) d j))).Perm
      (List.range (a.size + b.size)) := by
    intro d
    refine (List.merge_perm_append _).trans ?_
    rw [List.range_add]
    apply ((ha.perm d).trans hpa).append
    have := ((hb.perm d).trans hpb).map (· + a.size)
    simpa only [Nat.add_comm] using this
  have hidx : ∀ d, (a.merge b).indices.indices d =
      (a.indices.indices d).merge ((b.indices.indices d).map (· + a.size)) fun i j =>
        decide (coord (a.points ++ b.points) d i ≤ coord (a.points ++ b.points) d j) := by
    intro d
    apply map_idx_eq
    intro i hi
    have := List.mem_range.mp ((hmerge d).mem_iff.mp hi)
    omega
  have hperm : ∀ d, ((a.merge b).indices.indices d).Perm (List.range (a.merge b).size) := by
    intro d
    rw [hidx d, hsum]
    exact hmerge d
  refine ⟨⟨(hperm 0).nodup_iff.mpr List.nodup_range, fun d => (hperm d).trans (hperm 0).symm,
    fun d => ?_⟩, hperm 0⟩
  rw [hidx d]
  refine (List.pairwise_merge (fun i j k hij hjk => ?_) (fun i j => ?_) _ _ ?_ ?_).imp
    fun {i j} h => of_decide_eq_true h
  · rw [decide_eq_true_eq] at hij hjk ⊢
    exact Std.le_trans hij hjk
  · rw [Bool.or_eq_true, decide_eq_true_eq, decide_eq_true_eq]
    exact Std.le_total
  · have hlt : ∀ i ∈ a.indices.indices d, i < a.points.length := fun i hi =>
      List.mem_range.mp (((ha.perm d).trans hpa).mem_iff.mp hi)
    refine (ha.sorted d).imp_of_mem fun {i j} hi hj h => decide_eq_true ?_
    change coord (a.points ++ b.points) d i ≤ coord (a.points ++ b.points) d j
    rwa [coord_append_left (hlt i hi), coord_append_left (hlt j hj)]
  · refine List.pairwise_map.mpr ((hb.sorted d).imp fun {i j} h => decide_eq_true ?_)
    change coord (a.points ++ b.points) d (i + a.points.length) ≤
      coord (a.points ++ b.points) d (j + a.points.length)
    rwa [coord_append_right, coord_append_right]

/-- The tree of as many points as a power of two. -/
theorem initAll_laid (items : SortedPoints Dim β) {h : ℕ} (hwf : items.indices.WF items.points)
    (hperm : (items.indices.indices 0).Perm (List.range items.size)) (hh : items.size = 2 ^ h)
    (hlt : items.size < 65536) :
    (initAll items).2 = List.replicate items.size false ∧
      ∃ tree, Laid items.size (fun j => (initAll items).1.getD j 0) 0 tree ∧
        (elements tree).Perm (List.range items.size) ∧ Splits (coord items.points) 0 tree := by
  have hsize : items.indices.size = items.size := hperm.length_eq.trans List.length_range
  have hpos : 0 < items.size := by
    rw [hh]
    exact Nat.two_pow_pos h
  obtain ⟨h2, h1⟩ := init_filled hlt items.size 0 0 items.indices (List.replicate items.size 0)
    hwf (fun i hi => List.mem_range.mp (hperm.mem_iff.mp hi)) (by omega) (by omega) (by omega)
    List.length_replicate (by rw [hsize, hh]; exact fits_root h)
  obtain ⟨tree, hlaid, hp, hs⟩ := h1.laid
  rw [List.length_replicate] at hlaid
  exact ⟨h2, tree, hlaid, hp.trans hperm, hs⟩

/-- The live entries, where there are no marks. -/
theorem live_of_replicate {pts : List (Point Dim β × Id)}
    (hpoints : t.items.points = pts.map Prod.fst) (hids : t.ids = pts.map Prod.snd)
    (hdel : t.deleted = List.replicate t.cap false) : t.live = pts := by
  have hcap : t.cap = pts.length := by simp [cap, SortedPoints.size, hpoints]
  have halive : (List.range t.cap).filter t.alive = List.range t.cap := by
    apply List.filter_eq_self.mpr
    intro i hi
    simp [alive, hdel, List.getD_eq_getElem?_getD, List.mem_range.mp hi]
  unfold live
  rw [halive, hcap]
  apply List.ext_getElem (by simp)
  intro i h₁ h₂
  simp [entry, hpoints, hids, h₂]

theorem wf_empty : ({} : KdTree Dim β Id).WF := by
  refine ⟨⟨List.nodup_nil, fun _ => List.Perm.refl _, fun _ => List.Pairwise.nil⟩,
    List.Perm.refl _, rfl, rfl, .nil, .nil (le_refl _), List.Perm.refl _, trivial⟩

theorem wf_single (point : Point Dim β) (id : Id) : (single point id).WF := by
  refine ⟨⟨List.nodup_singleton _, fun _ => List.Perm.refl _, fun _ => List.pairwise_singleton _ _⟩,
    List.Perm.refl _, rfl, rfl, .node 0 .nil .nil, ?_, List.Perm.refl _, ?_⟩
  · exact Laid.node (i := 0) (f := fun j => [0].getD j 0) Nat.one_pos (.nil (le_refl _))
      (.nil (Nat.le_succ 1))
  · exact ⟨fun b h => absurd h List.not_mem_nil, fun b h => absurd h List.not_mem_nil, trivial,
      trivial⟩

theorem live_single (point : Point Dim β) (id : Id) : (single point id).live = [(point, id)] :=
  live_of_replicate rfl rfl rfl

theorem wf_build (S : Sorter) {pts : List (Point Dim β × Id)} {h : ℕ} (hlen : pts.length = 2 ^ h)
    (hlt : pts.length < 65536) : (build S pts).WF ∧ (build S pts).live = pts := by
  obtain ⟨hwf, hperm⟩ := sort_wf S (pts.map Prod.fst)
  have hsize : (SortedPoints.sort S (pts.map Prod.fst)).size = pts.length := List.length_map ..
  obtain ⟨hdel, hlaid⟩ := initAll_laid (SortedPoints.sort S (pts.map Prod.fst)) hwf
    (hperm 0) (hsize.trans hlen) (by omega)
  refine ⟨⟨hwf, hperm 0, ?_, ?_, hlaid⟩, live_of_replicate rfl rfl hdel⟩
  · exact (List.length_map ..).trans hsize.symm
  · rw [build, hdel, List.length_replicate]
    rfl

theorem cap_merge (a b : KdTree Dim β Id) : (a.merge b).cap = a.cap + b.cap := List.length_append

theorem wf_merge (ha : a.WF) (hb : b.WF) {h : ℕ} (hcap : a.cap + b.cap = 2 ^ h)
    (hlt : a.cap + b.cap < 65536) : (a.merge b).WF := by
  obtain ⟨hwf, hperm⟩ := merge_wf ha.sorted hb.sorted ha.perm hb.perm hlt
  have hsize : (a.items.merge b.items).size = a.cap + b.cap := cap_merge a b
  obtain ⟨-, hlaid⟩ := initAll_laid (a.items.merge b.items) hwf hperm (hsize.trans hcap) (by omega)
  refine ⟨hwf, hperm, ?_, ?_, hlaid⟩
  · rw [cap_merge, ← ha.ids, ← hb.ids]
    exact List.length_append
  · rw [cap_merge, ← ha.deleted, ← hb.deleted]
    exact List.length_append

theorem live_merge (ha : a.WF) (b : KdTree Dim β Id) : (a.merge b).live = a.live ++ b.live := by
  have hal : ∀ i, i < a.cap →
      (a.merge b).alive i = a.alive i ∧ (a.merge b).entry i = a.entry i := by
    intro i hi
    have hd : i < a.deleted.length := ha.deleted ▸ hi
    have hid : i < a.ids.length := ha.ids ▸ hi
    have hp : i < a.items.points.length := hi
    simp only [alive, entry, merge, SortedPoints.merge, List.getD_append _ _ _ _ hd,
      List.getD_append _ _ _ _ hid, List.getD_append _ _ _ _ hp, and_self]
  have hbl : ∀ i, (a.merge b).alive (a.cap + i) = b.alive i ∧
      (a.merge b).entry (a.cap + i) = b.entry i := by
    intro i
    have hd : a.deleted.length ≤ a.cap + i := by rw [ha.deleted]; omega
    have hid : a.ids.length ≤ a.cap + i := by rw [ha.ids]; omega
    have hp : a.items.points.length ≤ a.cap + i := Nat.le_add_right a.cap i
    have hcap : a.items.points.length = a.cap := rfl
    simp only [alive, entry, merge, SortedPoints.merge, List.getD_append_right _ _ _ _ hd,
      List.getD_append_right _ _ _ _ hid, List.getD_append_right _ _ _ _ hp, ha.deleted, ha.ids,
      hcap, Nat.add_sub_cancel_left, and_self]
  unfold live
  rw [cap_merge, List.range_add, List.filter_append, List.map_append, List.filter_map, List.map_map]
  congr 1
  · rw [List.filter_congr fun i hi => (hal i (List.mem_range.mp hi)).1]
    exact List.map_congr_left fun i hi =>
      (hal i (List.mem_range.mp (List.mem_of_mem_filter hi))).2
  · rw [List.filter_congr (p := (a.merge b).alive ∘ fun x => a.cap + x) (q := b.alive)
      fun i _ => (hbl i).1]
    exact List.map_congr_left fun i _ => (hbl i).2

end Build

section Remove

variable {t t' : KdTree Dim β Id} {i j : ℕ}

def At (t : KdTree Dim β Id) (i : ℕ) (e : Point Dim β × Id) : Prop :=
  i < t.cap ∧ t.alive i = true ∧ t.entry i = e

theorem mem_foreach {x : ℕ × Point Dim β × Id} : x ∈ t.foreach ↔ t.At x.1 x.2 := by
  change x ∈ ((List.range t.cap).filter t.alive).map (fun i => (i, t.entry i)) ↔ _
  rw [List.mem_map]
  constructor
  · rintro ⟨i, hi, rfl⟩
    obtain ⟨hlt, halive⟩ := List.mem_filter.mp hi
    exact ⟨List.mem_range.mp hlt, halive, rfl⟩
  · intro h
    exact ⟨x.1, List.mem_filter.mpr ⟨List.mem_range.mpr h.1, h.2.1⟩, by rw [h.2.2]⟩

theorem map_foreach (t : KdTree Dim β Id) : t.foreach.map Prod.snd = t.live := by
  change (((List.range t.cap).filter t.alive).map fun i => (i, t.entry i)).map Prod.snd = _
  rw [List.map_map]
  rfl

theorem mem_live {e : Point Dim β × Id} : e ∈ t.live ↔ ∃ i, t.At i e := by
  rw [← map_foreach, List.mem_map]
  constructor
  · rintro ⟨x, hx, rfl⟩
    exact ⟨x.1, mem_foreach.mp hx⟩
  · rintro ⟨i, h⟩
    exact ⟨(i, e), mem_foreach.mpr h, rfl⟩

theorem remove_alive (h : t.WF) (hi : i < t.cap) (hr : t.remove i = some t') (j : ℕ) :
    t'.alive j = (decide (j ≠ i) && t.alive j) := by
  unfold remove at hr
  split_ifs at hr with hd
  obtain rfl := Option.some.inj hr
  have hlen : i < t.deleted.length := h.deleted ▸ hi
  unfold alive
  rw [List.getD_eq_getElem?_getD, List.getElem?_set, List.getD_eq_getElem?_getD]
  by_cases hij : i = j
  · simp [hij, hij ▸ hlen]
  · simp [hij, Ne.symm hij]

/-- A removal of a live entry, of which the others stay where they are. -/
theorem remove_spec (h : t.WF) {e : Point Dim β × Id} (hat : t.At i e) :
    ∃ t', t.remove i = some t' ∧ t'.WF ∧ t'.cap = t.cap ∧ t.live.Perm (e :: t'.live) ∧
      ∀ j e', t'.At j e' ↔ j ≠ i ∧ t.At j e' := by
  obtain ⟨hlt, halive, hentry⟩ := hat
  have hdel : t.deleted.getD i false = false := by simpa [alive] using halive
  have hr : t.remove i = some { t with deleted := t.deleted.set i true } := by
    rw [remove, hdel]
    rfl
  have halive' := remove_alive h hlt hr
  refine ⟨_, hr, ⟨h.sorted, h.perm, h.ids, ?_, h.laid⟩, rfl, ?_, fun j e' => ?_⟩
  · exact (List.length_set ..).trans h.deleted
  · have hperm : ((List.range t.cap).filter t.alive).Perm
        (i :: (List.range t.cap).filter
          ({ t with deleted := t.deleted.set i true } : KdTree Dim β Id).alive) := by
      apply (List.perm_ext_iff_of_nodup (List.nodup_range.filter _) (List.nodup_cons.mpr
        ⟨fun hin => ?_, List.nodup_range.filter _⟩)).mpr
      · intro j
        rw [List.mem_cons, List.mem_filter, List.mem_filter, halive' j]
        by_cases hj : j = i
        · simp [hj, hlt, halive]
        · simp [hj]
      · have := (List.mem_filter.mp hin).2
        rw [halive' i] at this
        simp at this
    have := hperm.map t.entry
    rw [List.map_cons, hentry] at this
    exact this
  · unfold At
    rw [halive' j]
    constructor
    · rintro ⟨h1, h2, h3⟩
      obtain ⟨hne, ha⟩ := Bool.and_eq_true_iff.mp h2
      exact ⟨of_decide_eq_true hne, h1, ha, h3⟩
    · rintro ⟨hne, h1, h2, h3⟩
      exact ⟨h1, by simp [hne, h2], h3⟩

end Remove

end KdTree

end Freeminer.Util
