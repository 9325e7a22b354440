import Freeminer.Far.Grid

/-! The lookup of the far mesh for all sizes of the tree. The enumeration makes the tree at least as
big as a cell, the lookup does not; and the lookup aligns a block as if the tree started at a
multiple of the size of a cell. -/

namespace Freeminer.Far

open Lib

variable {playerPos : V3} {c q : ℕ} {farmesh : ℤ} {cellEach : Bool}

/-- `tree_align` has eight bits, and what has 32 bits can be shifted by less than 32. For a tree of
one block it is 255. -/
def ShiftDefined (treePow : ℕ) : Prop := (UInt8.ofNat treePow - 1).toNat < 32

theorem shiftDefined_iff {treePow : ℕ} (h : treePow ≤ 32) : ShiftDefined treePow ↔ 1 ≤ treePow := by
  unfold ShiftDefined
  rcases Nat.eq_zero_or_pos treePow with rfl | hpos
  · decide
  · refine ⟨fun _ => hpos, fun _ => ?_⟩
    have hnat : (UInt8.ofNat treePow).toNat = treePow := by
      rw [UInt8.toNat_ofNat']
      omega
    rw [UInt8.toNat_sub_of_le _ _ (by rw [UInt8.le_iff_toNat_le, hnat]; exact hpos), hnat]
    change treePow - 1 < 32
    omega

theorem farmeshToTreePow_le (farmesh : ℤ) : farmeshToTreePow farmesh ≤ 16 := min_le_left _ _

/-- The lookup of a block in a cell that is enumerated gives this cell. -/
structure Answers (playerPos : V3) (c q : ℕ) (farmesh : ℤ) (cellEach : Bool) : Prop where
  shift : ShiftDefined (farmeshToTreePow farmesh)
  lookup : ∀ r ∈ enumerated playerPos c farmesh q 0 cellEach 0, ∀ p,
    contains (r.cell c cellEach) p = true →
    getFarParams { farmesh, cellSizePow := c, farmeshQualityPow := q } playerPos p cellEach = some r

/-- The tree is not smaller than a cell, and its root is aligned or blocks are looked up as they
are. -/
def Fits (playerPos : V3) (c : ℕ) (farmesh : ℤ) (cellEach : Bool) : Prop :=
  let treePow := farmeshToTreePow farmesh
  1 ≤ treePow ∧ c ≤ treePow ∧ (cellEach = true ∨ c = 0 ∨ c + 2 ≤ treePow ∨
    c = 1 ∧ treePow = 1 ∧ 2 ∣ playerPos.X ∧ 2 ∣ playerPos.Y ∧ 2 ∣ playerPos.Z)

/-! ## Alignment -/

/-- The root of the tree starts at multiples of the size of a cell. -/
structure RootAligned (playerPos : V3) (c treePow : ℕ) : Prop where
  X : (2 : ℤ) ^ c ∣ (treeParamsToChild treePow playerPos 0).pos.X
  Y : (2 : ℤ) ^ c ∣ (treeParamsToChild treePow playerPos 0).pos.Y
  Z : (2 : ℤ) ^ c ∣ (treeParamsToChild treePow playerPos 0).pos.Z

def rootAxis (treePow : ℕ) (x : ℤ) : ℤ := alignAxis x (treePow - 1) - 2 ^ (treePow - 1) / 2

theorem pos_root (treePow : ℕ) (playerPos : V3) : (treeParamsToChild treePow playerPos 0).pos =
    ⟨rootAxis treePow playerPos.X, rootAxis treePow playerPos.Y,
      rootAxis treePow playerPos.Z⟩ := rfl

theorem pow_half (k : ℕ) : (2 : ℤ) ^ (k + 1) / 2 = 2 ^ k := by
  rw [pow_succ]
  exact Int.mul_ediv_cancel _ two_ne_zero

theorem not_pow_dvd (k : ℕ) : ¬(2 : ℤ) ^ (k + 1) ∣ 2 ^ k := by
  intro h
  have hle := Int.le_of_dvd (by positivity) h
  rw [pow_succ] at hle
  have hpos : (0 : ℤ) < 2 ^ k := by positivity
  omega

/-- A tree that is as big as a cell, or twice as big, starts in the middle of one. -/
theorem not_dvd_rootAxis {treePow : ℕ} (hc : 1 ≤ c) (hle : c ≤ treePow) (hlt : treePow < c + 2)
    (hne : ¬(c = 1 ∧ treePow = 1)) (x : ℤ) : ¬(2 : ℤ) ^ c ∣ rootAxis treePow x := by
  obtain ⟨k, rfl⟩ : ∃ k, treePow = k + 2 := ⟨treePow - 2, by omega⟩
  intro h
  -- `2 ^ (k + 1)` divides what the root is aligned to, but not the half that it is moved by
  have hdvd : (2 : ℤ) ^ (k + 1) ∣ rootAxis (k + 2) x := by
    rcases Nat.lt_or_ge c (k + 1) with hlt' | hge
    · omega
    · exact (pow_dvd_pow 2 hge).trans h
  unfold rootAxis at hdvd
  rw [show k + 2 - 1 = k + 1 from rfl, pow_half] at hdvd
  have halign : (2 : ℤ) ^ (k + 1) ∣ alignAxis x (k + 1) := dvd_alignAxis le_rfl x
  exact not_pow_dvd k ((Int.dvd_iff_dvd_of_dvd_sub hdvd).mp halign)

theorem rootAxis_one (x : ℤ) : rootAxis 1 x = x := by
  simp [rootAxis, alignAxis]

theorem rootAligned_iff {treePow : ℕ} (hle : c ≤ treePow) (hpow : 1 ≤ treePow) :
    RootAligned playerPos c treePow ↔ c = 0 ∨ c + 2 ≤ treePow ∨
      c = 1 ∧ treePow = 1 ∧ 2 ∣ playerPos.X ∧ 2 ∣ playerPos.Y ∧ 2 ∣ playerPos.Z := by
  constructor
  · intro h
    by_contra hcon
    rw [not_or, not_or] at hcon
    obtain ⟨hc, hlt, hone⟩ := hcon
    have hX := h.X
    have hY := h.Y
    have hZ := h.Z
    rw [pos_root] at hX hY hZ
    by_cases hsmall : c = 1 ∧ treePow = 1
    · obtain ⟨rfl, rfl⟩ := hsmall
      simp only [rootAxis_one, pow_one] at hX hY hZ
      exact hone ⟨rfl, rfl, hX, hY, hZ⟩
    · exact not_dvd_rootAxis (by omega) hle (by omega) hsmall playerPos.X hX
  · rintro (rfl | hbig | ⟨rfl, rfl, hX, hY, hZ⟩)
    · constructor <;> simp
    · have hroot := node_root hbig playerPos
      exact ⟨hroot.X, hroot.Y, hroot.Z⟩
    · constructor <;> rw [pos_root] <;> simpa [rootAxis_one]

theorem alignAxis_le (x : ℤ) (c : ℕ) : alignAxis x c ≤ x :=
  Int.ediv_mul_le x (by positivity)

theorem alignAxis_lt {x : ℤ} (h : ¬(2 : ℤ) ^ c ∣ x) : alignAxis x c < x :=
  lt_of_le_of_ne (alignAxis_le x c) fun heq => h ⟨x / 2 ^ c, by
    rw [mul_comm]
    exact heq.symm⟩

/-! ## The lookup -/

theorem sized_root {treePow : ℕ} (h : c ≤ treePow) (playerPos : V3) :
    Sized c treePow (treeParamsToChild treePow playerPos 0) := ⟨treePow, h, le_rfl, rfl⟩

theorem answers_of_fits (h : Fits playerPos c farmesh cellEach) (q : ℕ) :
    Answers playerPos c q farmesh cellEach := by
  obtain ⟨hpow, hle, hcase⟩ := h
  have hmax := farmeshToTreePow_le farmesh
  refine ⟨(shiftDefined_iff (by omega)).mpr hpow, fun r hr p hp => ?_⟩
  rw [enumerated_eq_of_le hle] at hr
  obtain ⟨l, hl, hr⟩ := List.mem_flatMap.mp hr
  refine getFarParams_eq (sized_root hle playerPos) hl hr hp fun heach => ?_
  have hroot : Node c (farmeshToTreePow farmesh)
      (treeParamsToChild (farmeshToTreePow farmesh) playerPos 0) := by
    obtain ⟨hX, hY, hZ⟩ := (rootAligned_iff hle hpow).mpr
      (hcase.resolve_left fun h => Bool.noConfusion (h.symm.trans heach))
    exact ⟨sized_root hle playerPos, hX, hY, hZ⟩
  obtain ⟨-, _, -, hlnode⟩ := (subdivides playerPos c q).node_of_leaf hroot hl
  exact hlnode.contains_align p

/-- A block that is aligned out of the root is not found. -/
theorem getFarParams_eq_none {p : V3}
    (h : contains (treeParamsToChild (farmeshToTreePow farmesh) playerPos 0) (alignShift p c) =
      false) :
    getFarParams { farmesh, cellSizePow := c, farmeshQualityPow := q } playerPos p false =
      none := by
  unfold getFarParams
  simp only [Bool.false_eq_true, if_false]
  rw [find]
  simp [h]

/-- If the root is not aligned, then its own first block is not found. -/
theorem not_answers_of_not_aligned (hle : c ≤ farmeshToTreePow farmesh)
    (h : ¬RootAligned playerPos c (farmeshToTreePow farmesh)) :
    ¬Answers playerPos c q farmesh false := by
  rintro ⟨-, hlookup⟩
  set root := treeParamsToChild (farmeshToTreePow farmesh) playerPos 0 with hrootdef
  have hroot := sized_root hle playerPos
  have hpos : (0 : ℤ) < root.size := by
    change (0 : ℤ) < 2 ^ farmeshToTreePow farmesh
    positivity
  have hin : contains root root.pos = true :=
    contains_iff.mpr ⟨⟨le_rfl, by omega⟩, ⟨le_rfl, by omega⟩, ⟨le_rfl, by omega⟩⟩
  obtain ⟨l, hl, hlp⟩ := ((subdivides_sized playerPos c q).contains_iff hroot).mp hin
  obtain ⟨-, _, -, hlsize⟩ := (subdivides_sized playerPos c q).node_of_leaf hroot hl
  obtain ⟨r, hr, hp⟩ := (contains_emitted hlsize false).mp hlp
  have hmem : r ∈ enumerated playerPos c farmesh q 0 false 0 := by
    rw [enumerated_eq_of_le hle]
    exact List.mem_flatMap.mpr ⟨l, hl, hr⟩
  have hout : contains root (alignShift root.pos c) = false := by
    by_contra hcon
    rw [Bool.not_eq_false] at hcon
    obtain ⟨hX, hY, hZ⟩ := contains_iff.mp hcon
    have haxis : ∀ {x : ℤ}, x ≤ alignAxis x c → (2 : ℤ) ^ c ∣ x := fun hx => by
      by_contra hndvd
      exact absurd (alignAxis_lt hndvd) (not_lt.mpr hx)
    exact h ⟨haxis hX.le, haxis hY.le, haxis hZ.le⟩
  exact absurd ((hlookup r hmem root.pos hp).symm.trans (getFarParams_eq_none hout)) (by simp)

theorem eq_of_find_leaf {param : FindParam} {fuel : ℕ} {child : Child} {r : TreeResult}
    (hleaf : isTreeCell child param.playerPos param.cellSizePow param.farmeshQualityPow = true)
    (h : find param (fuel + 1) child = some r) :
    r = makeFindResult child param.blockPos param.cellSizePow param.cellSizeEach := by
  rw [find, hleaf, if_pos rfl] at h
  split_ifs at h
  exact (Option.some.inj h).symm

/-- A tree that is smaller than a cell gives results of no size. -/
theorem size_of_getFarParams (hlt : farmeshToTreePow farmesh < c) {p : V3} {r : TreeResult}
    (h : getFarParams { farmesh, cellSizePow := c, farmeshQualityPow := q } playerPos p cellEach =
      some r) : r.size = 0 := by
  have hpow : (2 : ℤ) ^ farmeshToTreePow farmesh < 2 ^ c := pow_lt_pow_right₀ one_lt_two hlt
  have hzero : (2 : ℤ) ^ farmeshToTreePow farmesh / 2 ^ c = 0 :=
    Int.ediv_eq_zero_of_lt (by positivity) hpow
  have hleaf : isTreeCell (treeParamsToChild (farmeshToTreePow farmesh) playerPos 0) playerPos c q =
      true := if_pos hpow.le
  rw [eq_of_find_leaf hleaf h]
  cases cellEach with
  | false => exact hzero
  | true =>
    change (2 : ℤ) ^ farmeshToTreePow farmesh / 2 ^ c / 2 ^ 0 = 0
    rw [hzero, Int.zero_ediv]

/-- The enumeration of a tree of one cell. -/
theorem mem_enumerated_of_lt (hlt : farmeshToTreePow farmesh < c) {r : TreeResult}
    (hr : r ∈ emitted c cellEach false (treeParamsToChild c playerPos 0)) :
    r ∈ enumerated playerPos c farmesh q 0 cellEach 0 := by
  have hpow : enumTreePow c farmesh 0 = c := max_eq_left (by simpa using hlt.le)
  have hleaf : isLeaf playerPos c q (treeParamsToChild c playerPos 0) = true := if_pos le_rfl
  rw [enumerated_eq, hpow]
  refine List.mem_flatMap.mpr ⟨_, ?_, hr⟩
  rw [leaves_of_isLeaf hleaf]
  exact List.mem_singleton_self _

theorem not_answers_of_lt (hlt : farmeshToTreePow farmesh < c) :
    ¬Answers playerPos c q farmesh cellEach := by
  rintro ⟨-, hlookup⟩
  set root := treeParamsToChild c playerPos 0
  have hsize : root.size = 2 ^ c := rfl
  have hpos : (0 : ℤ) < 2 ^ c := by positivity
  have hin : contains root root.pos = true :=
    contains_iff.mpr ⟨⟨le_rfl, by omega⟩, ⟨le_rfl, by omega⟩, ⟨le_rfl, by omega⟩⟩
  obtain ⟨r, hr, hp⟩ := (contains_emitted (sized_root le_rfl playerPos) cellEach).mp hin
  have hlook := hlookup r (mem_enumerated_of_lt hlt hr) root.pos hp
  have hzero := size_of_getFarParams hlt hlook
  obtain ⟨hX, -, -⟩ := contains_iff.mp hp
  have hcell : (r.cell c cellEach).size = 0 := by simp [TreeResult.cell, hzero]
  have := hX.le
  have := hX.lt
  omega

/-- The lookup finds the cells that are enumerated exactly if the tree fits. -/
theorem answers_iff (playerPos : V3) (c q : ℕ) (farmesh : ℤ) (cellEach : Bool) :
    Answers playerPos c q farmesh cellEach ↔ Fits playerPos c farmesh cellEach := by
  constructor
  · intro h
    have hle : c ≤ farmeshToTreePow farmesh := by
      by_contra hlt
      exact not_answers_of_lt (not_le.mp hlt) h
    have hmax := farmeshToTreePow_le farmesh
    have hpow := (shiftDefined_iff (by omega)).mp h.shift
    refine ⟨hpow, hle, ?_⟩
    cases cellEach with
    | true => exact .inl rfl
    | false =>
      by_contra hcon
      rw [not_or] at hcon
      exact not_answers_of_not_aligned hle
        (fun haligned => hcon.2 ((rootAligned_iff hle hpow).mp haligned)) h
  · exact fun h => answers_of_fits h q

/-- Cells of eight blocks in a tree of two. -/
theorem not_answers : ¬∀ (playerPos : V3) (c q : ℕ) (farmesh : ℤ) (cellEach : Bool),
    ShiftDefined (farmeshToTreePow farmesh) →
    ∀ r ∈ enumerated playerPos c farmesh q 0 cellEach 0, ∀ p,
      contains (r.cell c cellEach) p = true →
      getFarParams { farmesh, cellSizePow := c, farmeshQualityPow := q } playerPos p cellEach =
        some r := by
  intro h
  have hlook := h ⟨0, 0, 0⟩ 3 0 4 true ((shiftDefined_iff (by decide)).mpr (by decide)) ⟨⟨-2, -2, -2⟩, 1, 0⟩
    (mem_enumerated_of_lt (by decide) (mem_emitted_each.mpr
      ⟨0, by decide, 0, by decide, 0, by decide, by decide⟩)) ⟨-2, -2, -2⟩ (by decide)
  exact absurd hlook (by decide)

end Freeminer.Far
