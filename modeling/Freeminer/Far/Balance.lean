import Mathlib.Tactic.NormNum
import Mathlib.Tactic.Ring
import Freeminer.Far.Query

/-! The far mesh grid is balanced: cells that share part of a face differ by at most one step. A
cell is split by its distance relative to its size, and the centre of a neighbour of half the size is
too near for the bigger one to have stayed whole. -/

namespace Freeminer.Far

open Lib

/-! ## Distances -/

def distance (playerPos : V3) (child : Child) : ℤ :=
  max |playerPos.X - (child.pos.X + child.size / 2)|
    (max |playerPos.Y - (child.pos.Y + child.size / 2)|
      |playerPos.Z - (child.pos.Z + child.size / 2)|)

/-- The distance from which a cell is not split, before it is cut off to 32 bits. -/
def splitRange (c q : ℕ) (child : Child) : ℤ := child.size * 2 ^ (1 + max q c - c)

variable {playerPos : V3} {c q n M : ℕ} {child d l : Child}

theorem isLeaf_eq_false_iff : isLeaf playerPos c q child = false ↔
    2 ^ c < child.size ∧ distance playerPos child < wrap32 (splitRange c q child) := by
  unfold isLeaf isTreeCell
  split_ifs with hsize
  · simp [hsize]
  · dsimp only
    rw [decide_eq_false_iff_not, ge_iff_le, not_le]
    exact ⟨fun h => ⟨not_le.mp hsize, h⟩, And.right⟩

theorem distance_nonneg (playerPos : V3) (child : Child) : 0 ≤ distance playerPos child :=
  (abs_nonneg _).trans (le_max_left _ _)

theorem wrap32_of_lt {x : ℤ} (hx : 0 ≤ x) (hlt : x < 2 ^ 31) : wrap32 x = x :=
  Int.bmod_eq_of_le (by omega) (by omega)

/-- A power of two that does not fit is not positive. -/
theorem wrap32_pow {k : ℕ} (h : 0 < wrap32 (2 ^ k)) : k < 31 := by
  by_contra hge
  obtain ⟨j, rfl⟩ : ∃ j, k = 31 + j := ⟨k - 31, by omega⟩
  cases j with
  | zero => exact absurd h (by decide)
  | succ j =>
    have hzero : wrap32 (2 ^ (31 + (j + 1))) = 0 := by
      have heq : (2 : ℤ) ^ (31 + (j + 1)) = 2 ^ j * ((2 ^ 32 : ℕ) : ℤ) := by
        push_cast
        ring
      rw [wrap32, heq]
      exact Int.mul_bmod_left _ _
    rw [hzero] at h
    exact absurd h (lt_irrefl 0)

/-! ## Cells above a leaf -/

structure Inside (l d : Child) : Prop where
  X : d.pos.X ≤ l.pos.X ∧ l.pos.X + l.size ≤ d.pos.X + d.size
  Y : d.pos.Y ≤ l.pos.Y ∧ l.pos.Y + l.size ≤ d.pos.Y + d.size
  Z : d.pos.Z ≤ l.pos.Z ∧ l.pos.Z + l.size ≤ d.pos.Z + d.size

theorem Inside.refl (l : Child) : Inside l l := ⟨⟨le_rfl, le_rfl⟩, ⟨le_rfl, le_rfl⟩, ⟨le_rfl, le_rfl⟩⟩

theorem Inside.trans {e : Child} (h : Inside l d) (h' : Inside d e) : Inside l e :=
  ⟨⟨h'.X.1.trans h.X.1, h.X.2.trans h'.X.2⟩, ⟨h'.Y.1.trans h.Y.1, h.Y.2.trans h'.Y.2⟩,
    ⟨h'.Z.1.trans h.Z.1, h.Z.2.trans h'.Z.2⟩⟩

theorem Part.inside {h : ℤ} (hpart : Part child d h) (hsize : child.size = 2 * h) (hpos : 0 ≤ h) :
    Inside d child := by
  have haxis : ∀ {x a : ℤ}, (a = x ∨ a = x + h) → x ≤ a ∧ a + h ≤ x + 2 * h := by
    rintro x a (rfl | rfl) <;> constructor <;> omega
  constructor <;> rw [hsize, hpart.size]
  · exact haxis hpart.X
  · exact haxis hpart.Y
  · exact haxis hpart.Z

/-- A leaf of side `2 ^ b` below a cell of side `2 ^ M`: above it is a cell of every side in between,
which was split. -/
structure Below (playerPos : V3) (c q M : ℕ) (child l : Child) (b : ℕ) : Prop where
  size : l.size = 2 ^ b
  le : c ≤ b ∧ b ≤ M
  isLeaf : isLeaf playerPos c q l = true
  inside : Inside l child
  above : ∀ m, b < m → m ≤ M → ∃ d, d.size = 2 ^ m ∧ Far.isLeaf playerPos c q d = false ∧
    Inside l d ∧ (m = M → d = child)

theorem exists_below (twoD : Bool) (hsize : child.size = 2 ^ M) (hc : c ≤ M)
    (hl : l ∈ leaves (isLeaf playerPos c q) (visited twoD) n child) :
    ∃ b, Below playerPos c q M child l b := by
  induction n generalizing child M with
  | zero => exact absurd hl List.not_mem_nil
  | succ n ih =>
    cases hleaf : isLeaf playerPos c q child with
    | true =>
      rw [leaves_of_isLeaf hleaf, List.mem_singleton] at hl
      subst hl
      exact ⟨M, hsize, ⟨hc, le_rfl⟩, hleaf, Inside.refl _, fun m hlt hle => by omega⟩
    | false =>
      rw [leaves_of_split hleaf] at hl
      obtain ⟨d, hd, hl⟩ := List.mem_flatMap.mp hl
      have hlt := (isLeaf_eq_false_iff.mp hleaf).1
      rw [hsize] at hlt
      have hcM : c < M := (pow_lt_pow_iff_right₀ one_lt_two).mp hlt
      obtain ⟨M, rfl⟩ : ∃ k, M = k + 1 := ⟨M - 1, by omega⟩
      have hhalf : child.size = 2 * 2 ^ M := by rw [hsize, pow_succ, mul_comm]
      have hpart := (mem_split_iff hhalf).mp (List.mem_of_mem_take hd)
      obtain ⟨b, hbelow⟩ := ih hpart.size (by omega) hl
      have hinside := hpart.inside hhalf (by positivity)
      refine ⟨b, hbelow.size, ⟨hbelow.le.1, hbelow.le.2.trans (Nat.le_succ M)⟩, hbelow.isLeaf,
        hbelow.inside.trans hinside, fun m hbm hm => ?_⟩
      rcases Nat.lt_or_ge M m with hlt | hge
      · obtain rfl : m = M + 1 := by omega
        exact ⟨child, hsize, hleaf, hbelow.inside.trans hinside, fun _ => rfl⟩
      · obtain ⟨e, hesize, heleaf, heinside, -⟩ := hbelow.above m hbm hge
        exact ⟨e, hesize, heleaf, heinside, fun h => by omega⟩

/-! ## Neighbours -/

def Touch (x s y t : ℤ) : Prop := x + s = y ∨ y + t = x

def Overlap (x s y t : ℤ) : Prop := x < y + t ∧ y < x + s

def ShareFace (l m : Child) : Prop :=
  Touch l.pos.X l.size m.pos.X m.size ∧ Overlap l.pos.Y l.size m.pos.Y m.size ∧
      Overlap l.pos.Z l.size m.pos.Z m.size ∨
    Overlap l.pos.X l.size m.pos.X m.size ∧ Touch l.pos.Y l.size m.pos.Y m.size ∧
      Overlap l.pos.Z l.size m.pos.Z m.size ∨
    Overlap l.pos.X l.size m.pos.X m.size ∧ Overlap l.pos.Y l.size m.pos.Y m.size ∧
      Touch l.pos.Z l.size m.pos.Z m.size

structure Near (l m : Child) : Prop where
  X : l.pos.X ≤ m.pos.X + m.size ∧ m.pos.X ≤ l.pos.X + l.size
  Y : l.pos.Y ≤ m.pos.Y + m.size ∧ m.pos.Y ≤ l.pos.Y + l.size
  Z : l.pos.Z ≤ m.pos.Z + m.size ∧ m.pos.Z ≤ l.pos.Z + l.size

theorem Near.symm {m : Child} (h : Near l m) : Near m l := ⟨h.X.symm, h.Y.symm, h.Z.symm⟩

theorem ShareFace.near {m : Child} (hl : 0 ≤ l.size) (hm : 0 ≤ m.size) (h : ShareFace l m) :
    Near l m := by
  unfold ShareFace Touch Overlap at h
  constructor <;> constructor <;> omega

theorem Near.mono {l' m m' : Child} (h : Near l m) (hl : Inside l l') (hm : Inside m m') :
    Near l' m' := by
  obtain ⟨hX, hY, hZ⟩ := h
  obtain ⟨hlX, hlY, hlZ⟩ := hl
  obtain ⟨hmX, hmY, hmZ⟩ := hm
  constructor <;> constructor <;> omega

/-- The centres of a cell and of one of half its size without a gap in between are not far apart. -/
theorem distance_le {k : ℤ} {A D : Child} (hA : A.size = 4 * k) (hD : D.size = 2 * k)
    (hnear : Near A D) (playerPos : V3) :
    distance playerPos A ≤ distance playerPos D + 3 * k := by
  have haxis : ∀ p a d : ℤ, a ≤ d + 2 * k ∧ d ≤ a + 4 * k →
      |p - (a + 2 * k)| ≤ |p - (d + k)| + 3 * k := by
    intro p a d h
    have h₁ := le_abs_self (p - (d + k))
    have h₂ := neg_abs_le (p - (d + k))
    exact abs_le.mpr ⟨by omega, by omega⟩
  have hA2 : A.size / 2 = 2 * k := by omega
  have hD2 : D.size / 2 = k := by omega
  obtain ⟨hX, hY, hZ⟩ := hnear
  rw [hA, hD] at hX hY hZ
  have hdX := haxis playerPos.X _ _ hX
  have hdY := haxis playerPos.Y _ _ hY
  have hdZ := haxis playerPos.Z _ _ hZ
  unfold distance
  rw [hA2, hD2]
  refine max_le ?_ (max_le ?_ ?_)
  · exact hdX.trans (by gcongr; exact le_max_left _ _)
  · refine hdY.trans ?_
    gcongr
    exact (le_max_left _ _).trans (le_max_right _ _)
  · refine hdZ.trans ?_
    gcongr
    exact (le_max_right _ _).trans (le_max_right _ _)

/-- Nothing is cut off below a root that is split. -/
theorem splitRange_lt {root : Child} (hsize : root.size = 2 ^ M)
    (hroot : isLeaf playerPos c q root = false) (hd : d.size = 2 ^ n) (hn : n ≤ M) :
    wrap32 (splitRange c q d) = splitRange c q d := by
  have hpos := (distance_nonneg playerPos root).trans_lt (isLeaf_eq_false_iff.mp hroot).2
  rw [splitRange, hsize, ← pow_add] at hpos
  have hlt := wrap32_pow hpos
  rw [splitRange, hd, ← pow_add]
  exact wrap32_of_lt (by positivity) (pow_lt_pow_right₀ one_lt_two (by omega))

/-- A leaf is at most twice as big as a neighbour. -/
theorem le_of_near {root A B : Child} {a b : ℕ} (hroot : root.size = 2 ^ M)
    (hA : Below playerPos c q M root A a) (hB : Below playerPos c q M root B b)
    (hnear : Near A B) : a ≤ b + 1 := by
  by_contra hlt
  obtain ⟨a, rfl⟩ : ∃ k, a = k + 2 := ⟨a - 2, by omega⟩
  obtain ⟨haM, hbM⟩ := hA.le.2, hB.le.2
  -- the cell above `B` that is half as big as `A`
  obtain ⟨D, hDsize, hDsplit, hDinside, -⟩ := hB.above (a + 1) (by omega) (by omega)
  obtain ⟨root', -, hrootsplit, -, hrooteq⟩ := hB.above M (by omega) le_rfl
  rw [hrooteq rfl] at hrootsplit
  have hk : (0 : ℤ) < 2 ^ a := by positivity
  have hA4 : A.size = 4 * 2 ^ a := by rw [hA.size, pow_add, mul_comm]; norm_num
  have hD2 : D.size = 2 * 2 ^ a := by rw [hDsize, pow_succ, mul_comm]
  have hdist := distance_le hA4 hD2 (hnear.mono (Inside.refl A) hDinside) playerPos
  obtain ⟨hDlt, hDdist⟩ := isLeaf_eq_false_iff.mp hDsplit
  rw [splitRange_lt hroot hrootsplit hDsize (by omega)] at hDdist
  have hAdist : splitRange c q A ≤ distance playerPos A := by
    by_contra hcon
    have hAsplit : isLeaf playerPos c q A = false := by
      refine isLeaf_eq_false_iff.mpr ⟨by omega, ?_⟩
      rw [splitRange_lt hroot hrootsplit hA.size (by omega)]
      exact not_le.mp hcon
    rw [hA.isLeaf] at hAsplit
    exact Bool.noConfusion hAsplit
  have htwo : (2 : ℤ) ≤ 2 ^ (1 + max q c - c) := by
    have hge : 1 ≤ 1 + max q c - c := by
      have := le_max_right q c
      omega
    calc (2 : ℤ) = 2 ^ 1 := (pow_one 2).symm
      _ ≤ 2 ^ (1 + max q c - c) := pow_le_pow_right₀ one_le_two hge
  unfold splitRange at hAdist hDdist
  rw [hA4] at hAdist
  rw [hD2] at hDdist
  have hmul := mul_le_mul_of_nonneg_left htwo hk.le
  rw [mul_assoc] at hAdist hDdist
  omega

/-! ## Steps -/

theorem rangeToStep_pow {k : ℕ} (h : k < 32) : rangeToStep (2 ^ k) = k := by
  have hlt : (2 : ℤ) ^ k < 2 ^ 32 := pow_lt_pow_right₀ one_lt_two h
  have hmod : ((2 : ℤ) ^ k % 2 ^ 32).toNat = 2 ^ k := by
    rw [Int.emod_eq_of_lt (by positivity) hlt]
    exact_mod_cast Int.toNat_natCast (2 ^ k)
  unfold rangeToStep
  rw [hmod, if_neg (by positivity), Nat.log2_two_pow]

theorem step_makeTreeResult {k : ℕ} (h : k < 32) (hc : c ≤ k) (hsize : d.size = 2 ^ k) :
    (makeTreeResult d c false).step.toNat = k - c := by
  simp only [makeTreeResult, hsize, rangeToStep_pow h, Bool.false_eq_true, if_false]
  rw [UInt8.toNat_sub_of_le]
  · rw [UInt8.toNat_ofNat', UInt8.toNat_ofNat']
    omega
  · rw [UInt8.le_iff_toNat_le, UInt8.toNat_ofNat', UInt8.toNat_ofNat']
    omega

theorem step_makeTreeResult_each {k : ℕ} (h : k < 32) (hsize : d.size = 2 ^ k) :
    (makeTreeResult d c true).step.toNat = k := by
  have hstep : (makeTreeResult d c true).step = UInt8.ofNat k - 0 := by
    simp only [makeTreeResult, hsize, rangeToStep_pow h, if_true]
    rfl
  rw [hstep, UInt8.sub_zero, UInt8.toNat_ofNat']
  omega

theorem size_storageChild {b x y z : ℕ} (hsize : l.size = 2 ^ b) (hc : c ≤ b) :
    (storageChild l c x y z).size = 2 ^ (b - c) := by
  simp only [storageChild]
  rw [hsize, ← Nat.sub_add_cancel hc, pow_add, Nat.add_sub_cancel]
  exact Int.mul_ediv_cancel _ (by positivity)

theorem inside_storageChild {b x y z : ℕ} (hsize : l.size = 2 ^ b) (hc : c ≤ b) (hx : x < 2 ^ c)
    (hy : y < 2 ^ c) (hz : z < 2 ^ c) : Inside (storageChild l c x y z) l := by
  have hst := size_storageChild (x := x) (y := y) (z := z) hsize hc
  have hl : l.size = (2 ^ c : ℕ) * 2 ^ (b - c) := by
    rw [hsize, ← Nat.add_sub_cancel' hc, pow_add, Nat.add_sub_cancel_left]
    push_cast
    rfl
  have haxis : ∀ (a : ℤ) (k : ℕ), k < 2 ^ c → a ≤ a + k * 2 ^ (b - c) ∧
      a + k * 2 ^ (b - c) + 2 ^ (b - c) ≤ a + (2 ^ c : ℕ) * 2 ^ (b - c) := by
    intro a k hk
    have hpos : (0 : ℤ) ≤ 2 ^ (b - c) := by positivity
    have hk' : ((k : ℤ) + 1) * 2 ^ (b - c) ≤ (2 ^ c : ℕ) * 2 ^ (b - c) :=
      mul_le_mul_of_nonneg_right (by exact_mod_cast hk) hpos
    have hk0 : 0 ≤ (k : ℤ) * 2 ^ (b - c) := by positivity
    rw [add_mul] at hk'
    constructor <;> omega
  have hdiv : l.size / 2 ^ c = 2 ^ (b - c) := hst
  constructor <;> rw [hst, hl] <;> simp only [storageChild, hdiv]
  · exact haxis _ x hx
  · exact haxis _ y hy
  · exact haxis _ z hz

/-- The results for a leaf have its step and are inside it. -/
theorem mem_emitted {b : ℕ} {cellEach twoD : Bool} {r : TreeResult} (hsize : l.size = 2 ^ b)
    (hc : c ≤ b) (hb : b < 32) (hr : r ∈ emitted c cellEach twoD l) :
    r.step.toNat = b - c ∧ Inside (r.cell c cellEach) l ∧ 0 ≤ (r.cell c cellEach).size := by
  cases cellEach with
  | false =>
    rw [List.mem_singleton.mp hr, cell_makeTreeResult (hsize ▸ pow_dvd_pow 2 hc)]
    exact ⟨step_makeTreeResult hb hc hsize, Inside.refl l, hsize ▸ by positivity⟩
  | true =>
    simp only [emitted, if_true, List.mem_flatMap, List.mem_range, List.mem_map] at hr
    obtain ⟨y, hy, z, hz, x, hx, rfl⟩ := hr
    have hy' : y < 2 ^ c := by
      split_ifs at hy
      · exact hy.trans_le (Nat.one_le_two_pow)
      · exact hy
    rw [cell_makeTreeResult_each]
    refine ⟨step_makeTreeResult_each (by omega) (size_storageChild hsize hc),
      inside_storageChild hsize hc hx hy' hz, ?_⟩
    rw [size_storageChild hsize hc]
    positivity

/-- Any two cells that share part of a face differ by at most one step. -/
theorem balanced (playerPos : V3) (c : ℕ) (farmesh : ℤ) (q : ℕ) (twoD : ℤ) (cellEach : Bool)
    (maxStep : ℕ) (hfits : enumTreePow c farmesh maxStep < 31) {r s : TreeResult}
    (hr : r ∈ enumerated playerPos c farmesh q twoD cellEach maxStep)
    (hs : s ∈ enumerated playerPos c farmesh q twoD cellEach maxStep)
    (hface : ShareFace (r.cell c cellEach) (s.cell c cellEach)) :
    r.step.toNat ≤ s.step.toNat + 1 ∧ s.step.toNat ≤ r.step.toNat + 1 := by
  rw [enumerated_eq] at hr hs
  obtain ⟨A, hA, hr⟩ := List.mem_flatMap.mp hr
  obtain ⟨B, hB, hs⟩ := List.mem_flatMap.mp hs
  have hroot : (treeParamsToChild (enumTreePow c farmesh maxStep) playerPos twoD).size =
      2 ^ enumTreePow c farmesh maxStep := rfl
  have hc : c ≤ enumTreePow c farmesh maxStep := le_max_left _ _
  obtain ⟨a, hbelowA⟩ := exists_below _ hroot hc hA
  obtain ⟨b, hbelowB⟩ := exists_below _ hroot hc hB
  obtain ⟨hca, haM⟩ := hbelowA.le
  obtain ⟨hcb, hbM⟩ := hbelowB.le
  obtain ⟨hrstep, hrin, hrsize⟩ := mem_emitted hbelowA.size hca (by omega) hr
  obtain ⟨hsstep, hsin, hssize⟩ := mem_emitted hbelowB.size hcb (by omega) hs
  have hnear := (hface.near hrsize hssize).mono hrin hsin
  have hab := le_of_near hroot hbelowA hbelowB hnear
  have hba := le_of_near hroot hbelowB hbelowA hnear.symm
  omega

/-- A cell of step 0 and its neighbour of step 1. -/
theorem balanced_origin : (0 : UInt8).toNat ≤ (1 : UInt8).toNat + 1 ∧
    (1 : UInt8).toNat ≤ (0 : UInt8).toNat + 1 :=
  balanced ⟨0, 0, 0⟩ 0 16 0 0 false 0 (by decide +kernel)
    (r := ⟨⟨3, 0, 0⟩, 1, 0⟩) (s := ⟨⟨4, 0, 0⟩, 2, 1⟩)
    (by rw [enumerated_eq]; decide +kernel) (by rw [enumerated_eq]; decide +kernel)
    (by simp [ShareFace, Touch, Overlap, TreeResult.cell])

/-! The near map reaches over the finest cells of the far mesh grid: a cell of step 0 is part of one
that was split, and that one is split only near the player. -/

/-- `getNodeBlockPos` -/
def getNodeBlockPos (p : V3) : V3 := ⟨p.X / 16, p.Y / 16, p.Z / 16⟩

def nodeDistance (a b : V3) : ℤ := max |a.X - b.X| (max |a.Y - b.Y| |a.Z - b.Z|)

/-- The near map reaches over every node of a cell of step 0, wherever the camera is in the block of
the player. -/
structure NearRangeCovers (playerPos : V3) (c q : ℕ) (farmesh : ℤ) (cellEach : Bool) : Prop where
  shift : ShiftDefined (enumTreePow c farmesh 0)
  covers : ∀ r ∈ enumerated playerPos c farmesh q 0 cellEach 0, r.step = 0 → ∀ camera node,
    getNodeBlockPos camera = playerPos →
    contains (r.cell c cellEach) (getNodeBlockPos node) = true →
    nodeDistance camera node ≤
      getFarMeshNearRange { farmesh, cellSizePow := c, farmeshQualityPow := q }

variable {playerPos : V3} {c q : ℕ} {farmesh : ℤ} {cellEach : Bool}

/-! ## The range -/

theorem le_getFarMeshNearRange (hfar : 0 < farmesh) (hc : c ≤ 30) {k : ℕ} (hk : k ≤ 32)
    (hle : k ≤ 2 + max q c) :
    (16 : ℤ) * (2 ^ k + 2 ^ c) ≤
      getFarMeshNearRange { farmesh, cellSizePow := c, farmeshQualityPow := q } := by
  have hkpow : (2 : ℕ) ^ k ≤ 2 ^ 32 := Nat.pow_le_pow_right (by norm_num) hk
  have hcpow : (2 : ℕ) ^ c ≤ 2 ^ 30 := Nat.pow_le_pow_right (by norm_num) hc
  have hkq : (2 : ℕ) ^ k ≤ 2 ^ (2 + max q c) := Nat.pow_le_pow_right (by norm_num) hle
  have hnat : 16 * (2 ^ k + 2 ^ c) ≤
      getFarMeshNearRange { farmesh, cellSizePow := c, farmeshQualityPow := q } := by
    unfold getFarMeshNearRange MAP_BLOCKSIZE
    rw [if_neg (not_le.mpr hfar)]
    dsimp only
    split_ifs <;> omega
  exact_mod_cast hnat

/-! ## Cells near the player -/

/-- A node of a cell is not farther away than its middle and half its side. -/
theorem axis_le {x s p D n m : ℤ} (hx : x ≤ n / 16) (hlt : n / 16 < x + s)
    (hdist : |p - (x + s / 2)| < D) (hm : m / 16 = p) : |m - n| ≤ 16 * (D + s / 2) := by
  rw [abs_lt] at hdist
  rw [abs_le]
  constructor <;> omega

theorem nodeDistance_le {d : Child} {D : ℤ} (hdist : distance playerPos d < D) {camera node : V3}
    (hcamera : getNodeBlockPos camera = playerPos)
    (hnode : contains d (getNodeBlockPos node) = true) :
    nodeDistance camera node ≤ 16 * (D + d.size / 2) := by
  subst hcamera
  obtain ⟨hX, hY, hZ⟩ := contains_iff.mp hnode
  unfold distance at hdist
  rw [max_lt_iff, max_lt_iff] at hdist
  exact max_le (axis_le hX.le hX.lt hdist.1 rfl)
    (max_le (axis_le hY.le hY.lt hdist.2.1 rfl) (axis_le hZ.le hZ.lt hdist.2.2 rfl))

theorem Inside.contains {l d : Child} (h : Inside l d) {p : V3} (hp : contains l p = true) :
    contains d p = true := by
  obtain ⟨hX, hY, hZ⟩ := contains_iff.mp hp
  have haxis : ∀ {x s y t n : ℤ}, y ≤ x ∧ x + s ≤ y + t → InAxis x s n → InAxis y t n := by
    rintro x s y t n ⟨hle, hge⟩ ⟨hn, hlt⟩
    exact ⟨hle.trans hn, hlt.trans_le hge⟩
  exact contains_iff.mpr ⟨haxis h.X hX, haxis h.Y hY, haxis h.Z hZ⟩

/-- A cell that is split is near the player, and its range was not cut off. -/
theorem distance_lt_of_split {d : Child} {m : ℕ} (hsize : d.size = 2 ^ m)
    (h : isLeaf playerPos c q d = false) :
    distance playerPos d < 2 ^ (m + (1 + max q c - c)) ∧ m + (1 + max q c - c) < 31 := by
  have hlt := (isLeaf_eq_false_iff.mp h).2
  rw [splitRange, hsize, ← pow_add] at hlt
  have hfits := wrap32_pow ((distance_nonneg playerPos d).trans_lt hlt)
  rw [wrap32_of_lt (by positivity) (pow_lt_pow_right₀ one_lt_two hfits)] at hlt
  exact ⟨hlt, hfits⟩

/-- The root of a tree of one cell is around the player. -/
theorem abs_sub_rootAxis_le (x : ℤ) (k : ℕ) : |x - (rootAxis k x + 2 ^ k / 2)| < 2 ^ (2 + k) := by
  unfold rootAxis alignAxis
  have hfour : (2 : ℤ) ^ (2 + k) = 4 * 2 ^ k := by rw [pow_add]; norm_num
  have hdiv := Int.mul_ediv_add_emod x (2 ^ (k - 1))
  have hmod := Int.emod_nonneg x (b := 2 ^ (k - 1)) (by positivity)
  have hmod' := Int.emod_lt_of_pos x (b := 2 ^ (k - 1)) (by positivity)
  rw [mul_comm] at hdiv
  have hle : (2 : ℤ) ^ (k - 1) ≤ 2 ^ k := pow_le_pow_right₀ one_le_two (Nat.sub_le k 1)
  have hpos : (0 : ℤ) < 2 ^ (k - 1) := by positivity
  rw [hfour, abs_lt]
  constructor <;> omega

theorem distance_root_lt (playerPos : V3) (k : ℕ) :
    distance playerPos (treeParamsToChild k playerPos 0) < 2 ^ (2 + k) :=
  max_lt (abs_sub_rootAxis_le _ k) (max_lt (abs_sub_rootAxis_le _ k) (abs_sub_rootAxis_le _ k))

/-- Every node of a leaf of step 0 is near. -/
theorem nodeDistance_le_of_leaf (hfar : 0 < farmesh) (hc : c ≤ 30) {M : ℕ} {l : Child}
    (hbelow : Below playerPos c q M (treeParamsToChild M playerPos 0) l c) {camera node : V3}
    (hcamera : getNodeBlockPos camera = playerPos)
    (hnode : contains l (getNodeBlockPos node) = true) : nodeDistance camera node ≤
      getFarMeshNearRange { farmesh, cellSizePow := c, farmeshQualityPow := q } := by
  rcases Nat.eq_or_lt_of_le hbelow.le.2 with rfl | hlt
  · -- the whole tree is one cell
    have hroot := hbelow.inside.contains hnode
    have hdist := nodeDistance_le (distance_root_lt playerPos c) hcamera hroot
    have hsize : (treeParamsToChild c playerPos 0).size = 2 ^ c := rfl
    have hpos : (0 : ℤ) < 2 ^ c := by positivity
    have hrange := le_getFarMeshNearRange hfar hc (k := 2 + c) (q := q) (by omega) (by omega)
    omega
  · obtain ⟨d, hsize, hsplit, hinside, -⟩ := hbelow.above (c + 1) (Nat.lt_succ_self c) hlt
    obtain ⟨hdist, hfits⟩ := distance_lt_of_split hsize hsplit
    have hexp : c + 1 + (1 + max q c - c) = 2 + max q c := by
      have := le_max_right q c
      omega
    rw [hexp] at hdist hfits
    have hhalf : d.size / 2 = 2 ^ c := by rw [hsize, pow_half]
    have hnear := nodeDistance_le hdist hcamera (hinside.contains hnode)
    rw [hhalf] at hnear
    exact hnear.trans (le_getFarMeshNearRange hfar hc (by omega) le_rfl)

/-! ## The grid -/

theorem rangeToStep_eq_one_iff (hfar : 0 < farmesh) (hint : farmesh < 2 ^ 31) :
    rangeToStep farmesh = 1 ↔ farmesh = 2 ∨ farmesh = 3 := by
  have hmod : farmesh % 2 ^ 32 = farmesh := Int.emod_eq_of_lt hfar.le (by omega)
  have hne : farmesh.toNat ≠ 0 := by omega
  unfold rangeToStep
  rw [hmod, if_neg hne, Nat.log2_eq_iff hne]
  omega

theorem rangeToStep_lt (range : ℤ) : rangeToStep range < 32 := by
  unfold rangeToStep
  dsimp only
  split_ifs with h
  · norm_num
  · rw [Nat.log2_lt h]
    omega

/-- The settings that make a tree of one block. -/
theorem farmeshToTreePow_eq_zero_iff (hfar : 0 < farmesh) (hint : farmesh < 2 ^ 31) :
    farmeshToTreePow farmesh = 0 ↔ farmesh = 2 ∨ farmesh = 3 := by
  rw [← rangeToStep_eq_one_iff hfar hint]
  have hlt := rangeToStep_lt farmesh
  have hsub : (UInt8.ofNat (rangeToStep farmesh) - 1).toNat = (255 + rangeToStep farmesh) % 256 := by
    rw [UInt8.toNat_sub, UInt8.toNat_ofNat']
    simp
  unfold farmeshToTreePow FARMESH_STEP_MAX
  rw [hsub]
  omega

/-- The near map reaches over the finest cells exactly if the grid is placed by defined shifts. Only
settings of two and three blocks with cells of one block are not. -/
theorem nearRangeCovers_iff (playerPos : V3) (c q : ℕ) (farmesh : ℤ) (cellEach : Bool)
    (hfar : 0 < farmesh) (hint : farmesh < 2 ^ 31) (hc : c ≤ 30) :
    NearRangeCovers playerPos c q farmesh cellEach ↔ ¬(c = 0 ∧ (farmesh = 2 ∨ farmesh = 3)) := by
  have hmax := farmeshToTreePow_le farmesh
  have hpow : enumTreePow c farmesh 0 = max c (farmeshToTreePow farmesh) := rfl
  have hshift : ShiftDefined (enumTreePow c farmesh 0) ↔
      ¬(c = 0 ∧ (farmesh = 2 ∨ farmesh = 3)) := by
    rw [shiftDefined_iff (by omega), ← farmeshToTreePow_eq_zero_iff hfar hint]
    omega
  rw [← hshift]
  refine ⟨fun h => h.shift, fun h => ⟨h, fun r hr hstep camera node hcamera hnode => ?_⟩⟩
  rw [enumerated_eq] at hr
  obtain ⟨l, hl, hr⟩ := List.mem_flatMap.mp hr
  have hle : c ≤ enumTreePow c farmesh 0 := le_max_left _ _
  have hsize : (treeParamsToChild (enumTreePow c farmesh 0) playerPos 0).size =
      2 ^ enumTreePow c farmesh 0 := rfl
  obtain ⟨b, hbelow⟩ := exists_below _ hsize hle hl
  obtain ⟨hcb, hbM⟩ := hbelow.le
  have hb : b < 32 := by
    rw [hpow] at hbM
    omega
  obtain ⟨hrstep, hrin, -⟩ := mem_emitted hbelow.size hcb hb hr
  obtain rfl : b = c := by
    rw [hstep] at hrstep
    change 0 = b - c at hrstep
    omega
  exact nodeDistance_le_of_leaf hfar hc hbelow hcamera (hrin.contains hnode)

theorem nearRangeCovers_iff_origin : NearRangeCovers ⟨0, 0, 0⟩ 1 1 256 false ↔
    ¬(1 = 0 ∧ ((256 : ℤ) = 2 ∨ (256 : ℤ) = 3)) :=
  nearRangeCovers_iff ⟨0, 0, 0⟩ 1 1 256 false (by decide) (by decide) (by decide)

/-- Cells of one block and a far mesh of two. -/
theorem not_nearRangeCovers : ¬∀ (playerPos : V3) (c q : ℕ) (farmesh : ℤ) (cellEach : Bool),
    0 < farmesh → farmesh < 2 ^ 31 → c ≤ 30 → NearRangeCovers playerPos c q farmesh cellEach := by
  intro h
  have hshift := (h ⟨0, 0, 0⟩ 0 0 2 false (by decide) (by decide) (by decide)).shift
  exact absurd ((shiftDefined_iff (by decide)).mp hshift) (by decide)

end Freeminer.Far
