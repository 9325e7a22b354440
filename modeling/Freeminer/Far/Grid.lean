import Mathlib.Tactic.Positivity
import Freeminer.Far.FarCalc

/-! The enumeration and the lookup of the far mesh grid agree: the cells do not overlap, cover the
root of the tree, and the lookup of a block gives the cell that contains it. -/

namespace Freeminer.Far

open Lib

/-! ## Axes -/

/-- Whether `p` is in the interval of this start and size. -/
structure InAxis (x size p : ℤ) : Prop where
  le : x ≤ p
  lt : p < x + size

theorem contains_iff {child : Child} {p : V3} : contains child p = true ↔
    InAxis child.pos.X child.size p.X ∧ InAxis child.pos.Y child.size p.Y ∧
      InAxis child.pos.Z child.size p.Z := by
  simp only [contains, ge_iff_le, Bool.and_eq_true, decide_eq_true_eq]
  exact ⟨fun ⟨⟨⟨⟨⟨h₁, h₂⟩, h₃⟩, h₄⟩, h₅⟩, h₆⟩ => ⟨⟨h₁, h₂⟩, ⟨h₃, h₄⟩, ⟨h₅, h₆⟩⟩,
    fun ⟨⟨h₁, h₂⟩, ⟨h₃, h₄⟩, ⟨h₅, h₆⟩⟩ => ⟨⟨⟨⟨⟨h₁, h₂⟩, h₃⟩, h₄⟩, h₅⟩, h₆⟩⟩

theorem inAxis_halves {x h p : ℤ} (_hpos : 0 ≤ h) :
    InAxis x (2 * h) p ↔ InAxis x h p ∨ InAxis (x + h) h p := by
  constructor
  · rintro ⟨hle, hlt⟩
    rcases lt_or_ge p (x + h) with hp | hp
    · exact .inl ⟨hle, hp⟩
    · exact .inr ⟨hp, by omega⟩
  · rintro (⟨hle, hlt⟩ | ⟨hle, hlt⟩) <;> constructor <;> omega

theorem not_inAxis_both {x h p : ℤ} (hp : InAxis x h p) : ¬InAxis (x + h) h p := by
  rintro ⟨hle, -⟩
  exact absurd hp.lt (not_lt.mpr hle)

/-! ## The subdivision -/

/-- The parts of a cell of twice the size. -/
theorem split_eq {child : Child} {h : ℤ} (hsize : child.size = 2 * h) : split child =
    [⟨⟨child.pos.X, child.pos.Y, child.pos.Z⟩, h⟩,
      ⟨⟨child.pos.X + h, child.pos.Y, child.pos.Z⟩, h⟩,
      ⟨⟨child.pos.X, child.pos.Y, child.pos.Z + h⟩, h⟩,
      ⟨⟨child.pos.X + h, child.pos.Y, child.pos.Z + h⟩, h⟩,
      ⟨⟨child.pos.X, child.pos.Y + h, child.pos.Z⟩, h⟩,
      ⟨⟨child.pos.X + h, child.pos.Y + h, child.pos.Z⟩, h⟩,
      ⟨⟨child.pos.X, child.pos.Y + h, child.pos.Z + h⟩, h⟩,
      ⟨⟨child.pos.X + h, child.pos.Y + h, child.pos.Z + h⟩, h⟩] := by
  have hhalf : child.size / 2 = h := by omega
  simp only [split, hhalf]

/-- A part is half as big, and starts where the cell starts or in its middle. -/
structure Part (child d : Child) (h : ℤ) : Prop where
  size : d.size = h
  X : d.pos.X = child.pos.X ∨ d.pos.X = child.pos.X + h
  Y : d.pos.Y = child.pos.Y ∨ d.pos.Y = child.pos.Y + h
  Z : d.pos.Z = child.pos.Z ∨ d.pos.Z = child.pos.Z + h

theorem mem_split_iff {child d : Child} {h : ℤ} (hsize : child.size = 2 * h) :
    d ∈ split child ↔ Part child d h := by
  obtain ⟨⟨x, y, z⟩, s⟩ := d
  rw [split_eq hsize]
  simp only [List.mem_cons, List.not_mem_nil, or_false, Child.mk.injEq, V3.mk.injEq]
  constructor
  · intro hmem
    constructor <;> dsimp only <;> tauto
  · rintro ⟨hs, hx, hy, hz⟩
    dsimp only at hs hx hy hz
    tauto

/-- Two parts that start at the same point are the same. -/
theorem Part.eq_of_contains {child d e : Child} {h : ℤ} {p : V3} (hd : Part child d h)
    (he : Part child e h) (hdp : contains d p = true) (hep : contains e p = true) : d = e := by
  obtain ⟨hdX, hdY, hdZ⟩ := contains_iff.mp hdp
  obtain ⟨heX, heY, heZ⟩ := contains_iff.mp hep
  have haxis : ∀ {x a b q : ℤ}, (a = x ∨ a = x + h) → (b = x ∨ b = x + h) → InAxis a h q →
      InAxis b h q → a = b := by
    rintro x a b q (rfl | rfl) (rfl | rfl) ha hb
    · rfl
    · exact absurd hb (not_inAxis_both ha)
    · exact absurd ha (not_inAxis_both hb)
    · rfl
  rw [hd.size] at hdX hdY hdZ
  rw [he.size] at heX heY heZ
  have hX := haxis hd.X he.X hdX heX
  have hY := haxis hd.Y he.Y hdY heY
  have hZ := haxis hd.Z he.Z hdZ heZ
  obtain ⟨⟨x, y, z⟩, s⟩ := d
  obtain ⟨⟨x', y', z'⟩, s'⟩ := e
  simp only [Child.mk.injEq, V3.mk.injEq]
  exact ⟨⟨hX, hY, hZ⟩, hd.size.trans he.size.symm⟩

theorem pairwise_split {child : Child} {h : ℤ} (hsize : child.size = 2 * h) (hpos : 0 < h) :
    (split child).Pairwise (Disjoint contains) := by
  have hnodup : (split child).Nodup := by
    rw [split_eq hsize]
    simp
    omega
  refine List.Nodup.pairwise_of_forall_ne hnodup fun d hd e he hne p hp => ?_
  by_contra hep
  rw [Bool.not_eq_false] at hep
  exact hne (((mem_split_iff hsize).mp hd).eq_of_contains ((mem_split_iff hsize).mp he) hp hep)

theorem contains_split {child : Child} {h : ℤ} (hsize : child.size = 2 * h) (hpos : 0 ≤ h)
    {p : V3} : contains child p = true ↔ ∃ d ∈ split child, contains d p = true := by
  rw [contains_iff, hsize, inAxis_halves hpos, inAxis_halves hpos, inAxis_halves hpos]
  constructor
  · rintro ⟨hx, hy, hz⟩
    have haxis : ∀ {x q : ℤ}, InAxis x h q ∨ InAxis (x + h) h q →
        ∃ a, (a = x ∨ a = x + h) ∧ InAxis a h q := by
      rintro x q (hq | hq)
      · exact ⟨x, .inl rfl, hq⟩
      · exact ⟨x + h, .inr rfl, hq⟩
    obtain ⟨a, ha, hpx⟩ := haxis hx
    obtain ⟨b, hb, hpy⟩ := haxis hy
    obtain ⟨c, hc, hpz⟩ := haxis hz
    exact ⟨⟨⟨a, b, c⟩, h⟩, (mem_split_iff hsize).mpr ⟨rfl, ha, hb, hc⟩,
      contains_iff.mpr ⟨hpx, hpy, hpz⟩⟩
  · rintro ⟨d, hd, hp⟩
    have hpart := (mem_split_iff hsize).mp hd
    obtain ⟨hx, hy, hz⟩ := contains_iff.mp hp
    rw [hpart.size] at hx hy hz
    have haxis : ∀ {x a q : ℤ}, (a = x ∨ a = x + h) → InAxis a h q →
        InAxis x h q ∨ InAxis (x + h) h q := by
      rintro x a q (rfl | rfl) hq
      · exact .inl hq
      · exact .inr hq
    exact ⟨haxis hpart.X hx, haxis hpart.Y hy, haxis hpart.Z hz⟩

/-! ## The tree -/

/-- A cell of the tree: its size is a power of two from `2 ^ c` to `2 ^ n`, and its position a
multiple of `2 ^ c`. -/
structure Node (c n : ℕ) (child : Child) : Prop where
  size : ∃ m, c ≤ m ∧ m ≤ n ∧ child.size = 2 ^ m
  X : (2 : ℤ) ^ c ∣ child.pos.X
  Y : (2 : ℤ) ^ c ∣ child.pos.Y
  Z : (2 : ℤ) ^ c ∣ child.pos.Z

def Sized (c n : ℕ) (child : Child) : Prop := ∃ m, c ≤ m ∧ m ≤ n ∧ child.size = 2 ^ m

variable {playerPos : V3} {c q n : ℕ} {child d : Child}

abbrev isLeaf (playerPos : V3) (c q : ℕ) (child : Child) : Bool := isTreeCell child playerPos c q

theorem lt_size_of_split (h : isLeaf playerPos c q child = false) : 2 ^ c < child.size := by
  unfold isLeaf isTreeCell at h
  split_ifs at h with hsize
  exact not_le.mp hsize

theorem Sized.half (h : Sized c (n + 1) child) (hsplit : isLeaf playerPos c q child = false) :
    ∃ m, c ≤ m ∧ m ≤ n ∧ child.size = 2 * 2 ^ m := by
  obtain ⟨m, hcm, hmn, hsize⟩ := h
  have hlt := lt_size_of_split hsplit
  rw [hsize] at hlt
  have hlt' : c < m := (pow_lt_pow_iff_right₀ one_lt_two).mp hlt
  obtain ⟨m, rfl⟩ : ∃ k, m = k + 1 := ⟨m - 1, by omega⟩
  exact ⟨m, by omega, by omega, by rw [hsize, pow_succ, mul_comm]⟩

theorem Node.part (h : Node c (n + 1) child) (hsplit : isLeaf playerPos c q child = false)
    (hd : d ∈ split child) : Node c n d := by
  obtain ⟨m, hcm, hmn, hsize⟩ := Sized.half h.size hsplit
  have hpart := (mem_split_iff hsize).mp hd
  have hdvd : (2 : ℤ) ^ c ∣ 2 ^ m := pow_dvd_pow 2 hcm
  have haxis : ∀ {x a : ℤ}, (a = x ∨ a = x + 2 ^ m) → (2 : ℤ) ^ c ∣ x → (2 : ℤ) ^ c ∣ a := by
    rintro x a (rfl | rfl) hx
    · exact hx
    · exact dvd_add hx hdvd
  exact ⟨⟨m, hcm, hmn, hpart.size⟩, haxis hpart.X h.X, haxis hpart.Y h.Y, haxis hpart.Z h.Z⟩

theorem subdivides_sized (playerPos : V3) (c q : ℕ) :
    Subdivides contains (isLeaf playerPos c q) split (Sized c) where
  stop child h := by
    obtain ⟨m, hcm, hm, hsize⟩ := h
    have hc : c = 0 := by omega
    have hm0 : m = 0 := by omega
    subst hc hm0
    unfold isLeaf isTreeCell
    rw [if_pos hsize.le]
  parts n child h hsplit d hd := by
    obtain ⟨m, hcm, hmn, hsize⟩ := h.half hsplit
    exact ⟨m, hcm, hmn, ((mem_split_iff hsize).mp hd).size⟩
  cover n child h hsplit p := by
    obtain ⟨m, -, -, hsize⟩ := h.half hsplit
    exact contains_split hsize (by positivity)
  disjoint n child h hsplit := by
    obtain ⟨m, -, -, hsize⟩ := h.half hsplit
    exact pairwise_split hsize (by positivity)

theorem subdivides (playerPos : V3) (c q : ℕ) :
    Subdivides contains (isLeaf playerPos c q) split (Node c) where
  stop child h := (subdivides_sized playerPos c q).stop child h.size
  parts _ _ h hsplit _ hd := h.part hsplit hd
  cover n child h := (subdivides_sized playerPos c q).cover n child h.size
  disjoint n child h := (subdivides_sized playerPos c q).disjoint n child h.size

/-! ## What is enumerated -/

variable {σ : Type}

def emitted (c : ℕ) (cellEach twoD : Bool) (child : Child) : List TreeResult :=
  if cellEach then
    (List.range (if twoD then 1 else 2 ^ c)).flatMap fun y =>
      (List.range (2 ^ c)).flatMap fun z =>
        (List.range (2 ^ c)).map fun x => makeTreeResult (storageChild child c x y z) c true
  else [makeTreeResult child c false]

theorem emitTreeCell_eq (param : EachParam σ) (child : Child) (s : σ) :
    emitTreeCell param child s =
      untilStop param.func (emitted param.cellSizePow param.cellSizeEach param.twoD child) s := by
  unfold emitTreeCell emitted
  split_ifs
  · simp only [untilStop_flatMap, untilStop_map]
  · simp only [untilStop_flatMap, untilStop_map]
  · rw [untilStop]
    obtain ⟨stop, s'⟩ := param.func s (makeTreeResult child param.cellSizePow false)
    cases stop <;> rfl

def visited (twoD : Bool) (child : Child) : List Child :=
  (split child).take (if twoD then 4 else 8)

/-- The enumeration goes through the results for all leaves. -/
theorem each_eq (param : EachParam σ) (fuel : ℕ) (child : Child) (s : σ) :
    each param fuel child s = untilStop param.func
      ((leaves (isLeaf param.playerPos param.cellSizePow param.farmeshQualityPow)
        (visited param.twoD) fuel child).flatMap
          (emitted param.cellSizePow param.cellSizeEach param.twoD)) s := by
  induction fuel generalizing child s with
  | zero => rfl
  | succ fuel ih =>
    rw [each]
    cases hleaf : isLeaf param.playerPos param.cellSizePow param.farmeshQualityPow child with
    | true =>
      rw [leaves_of_isLeaf hleaf, if_pos hleaf, emitTreeCell_eq, List.flatMap_singleton]
    | false =>
      rw [leaves_of_split hleaf, if_neg (Bool.eq_false_iff.mp hleaf), List.flatMap_assoc,
        untilStop_flatMap]
      exact congrArg (fun f => untilStop f (visited param.twoD child) s)
        (funext fun s => funext fun d => ih d s)

def enumTreePow (c : ℕ) (farmesh : ℤ) (maxStep : ℕ) : ℕ :=
  max c (if maxStep ≠ 0 then maxStep else farmeshToTreePow farmesh)

theorem enumerated_eq (playerPos : V3) (c : ℕ) (farmesh : ℤ) (q : ℕ) (twoD : ℤ) (cellEach : Bool)
    (maxStep : ℕ) : enumerated playerPos c farmesh q twoD cellEach maxStep =
      (leaves (isLeaf playerPos c q) (visited (twoD ≠ 0)) (enumTreePow c farmesh maxStep + 1)
        (treeParamsToChild (enumTreePow c farmesh maxStep) playerPos twoD)).flatMap
          (emitted c cellEach (twoD ≠ 0)) := by
  unfold enumerated runFarAll
  dsimp only
  rw [each_eq, untilStop_collect, List.nil_append]
  rfl

theorem find_eq (param : FindParam) (fuel : ℕ) (child : Child) :
    find param fuel child =
      (locate contains (isLeaf param.playerPos param.cellSizePow param.farmeshQualityPow) split
        param.blockPos fuel child).map fun leaf =>
          makeFindResult leaf param.blockPos param.cellSizePow param.cellSizeEach := by
  induction fuel generalizing child with
  | zero => rfl
  | succ fuel ih =>
    rw [find, locate]
    split_ifs
    · rfl
    · rfl
    · rw [List.map_findSome?]
      exact congrArg (fun f => (split child).findSome? f) (funext ih)

/-! ## Results of a leaf -/

def TreeResult.cell (c : ℕ) (cellEach : Bool) (r : TreeResult) : Child where
  pos := r.pos
  size := r.size * 2 ^ (if cellEach then 0 else c)

theorem cell_makeTreeResult_each (child : Child) (c : ℕ) :
    (makeTreeResult child c true).cell c true = child := by
  simp [makeTreeResult, TreeResult.cell]

theorem cell_makeTreeResult {child : Child} (h : (2 : ℤ) ^ c ∣ child.size) :
    (makeTreeResult child c false).cell c false = child := by
  simp [makeTreeResult, TreeResult.cell, Int.ediv_mul_cancel h]

/-- The place of a stored block is found by division. -/
theorem tdiv_of_inAxis {x st p : ℤ} {k : ℕ} (h : InAxis (x + k * st) st p) :
    (p - x).tdiv st = k := by
  obtain ⟨hle, hlt⟩ := h
  have hst : 0 < st := by omega
  have hk : 0 ≤ (k : ℤ) * st := by positivity
  rw [Int.tdiv_eq_ediv_of_nonneg (by omega)]
  exact (Int.ediv_eq_iff_of_pos hst).mpr ⟨by omega, by omega⟩

/-- An interval is divided into stored blocks. -/
theorem inAxis_iff_exists {x st p : ℤ} {N : ℕ} (hst : 0 < st) :
    InAxis x (N * st) p ↔ ∃ k < N, InAxis (x + k * st) st p := by
  constructor
  · rintro ⟨hle, hlt⟩
    have hdiv := Int.mul_ediv_add_emod (p - x) st
    have hmod := Int.emod_nonneg (p - x) hst.ne'
    have hmod' := Int.emod_lt_of_pos (p - x) hst
    have hnonneg := Int.ediv_nonneg (sub_nonneg.mpr hle) hst.le
    have hbound : (p - x) / st < N := Int.ediv_lt_of_lt_mul hst (by omega)
    refine ⟨((p - x) / st).toNat, by omega, ?_⟩
    rw [Int.toNat_of_nonneg hnonneg, mul_comm]
    constructor <;> omega
  · rintro ⟨k, hk, hle, hlt⟩
    have hk0 : 0 ≤ (k : ℤ) * st := by positivity
    have hkN : ((k : ℤ) + 1) * st ≤ N * st := mul_le_mul_of_nonneg_right (by omega) hst.le
    rw [add_mul] at hkN
    constructor <;> omega

section Storage

variable {st : ℤ}

theorem contains_storageChild {x y z : ℕ} {p : V3} (hsize : child.size / 2 ^ c = st) :
    contains (storageChild child c x y z) p = true ↔ InAxis (child.pos.X + x * st) st p.X ∧
      InAxis (child.pos.Y + y * st) st p.Y ∧ InAxis (child.pos.Z + z * st) st p.Z := by
  rw [contains_iff]
  simp only [storageChild, hsize]

/-- The stored blocks at different places do not overlap. -/
theorem disjoint_storageChild {x y z x' y' z' : ℕ} (hne : ¬(x = x' ∧ y = y' ∧ z = z')) :
    Disjoint contains (storageChild child c x y z) (storageChild child c x' y' z') := by
  intro p hp
  by_contra hp'
  rw [Bool.not_eq_false] at hp'
  obtain ⟨hx, hy, hz⟩ := (contains_storageChild rfl).mp hp
  obtain ⟨hx', hy', hz'⟩ := (contains_storageChild rfl).mp hp'
  refine hne ⟨?_, ?_, ?_⟩
  · exact Int.ofNat_inj.mp ((tdiv_of_inAxis hx).symm.trans (tdiv_of_inAxis hx'))
  · exact Int.ofNat_inj.mp ((tdiv_of_inAxis hy).symm.trans (tdiv_of_inAxis hy'))
  · exact Int.ofNat_inj.mp ((tdiv_of_inAxis hz).symm.trans (tdiv_of_inAxis hz'))

theorem mem_emitted_each {r : TreeResult} : r ∈ emitted c true false child ↔
    ∃ x < 2 ^ c, ∃ y < 2 ^ c, ∃ z < 2 ^ c, r = makeTreeResult (storageChild child c x y z) c true := by
  simp only [emitted, if_true, Bool.false_eq_true, if_false, List.mem_flatMap, List.mem_range,
    List.mem_map]
  constructor
  · rintro ⟨y, hy, z, hz, x, hx, rfl⟩
    exact ⟨x, hx, y, hy, z, hz, rfl⟩
  · rintro ⟨x, hx, y, hy, z, hz, rfl⟩
    exact ⟨y, hy, z, hz, x, hx, rfl⟩

end Storage

theorem pairwise_emitted (c : ℕ) (cellEach : Bool) (child : Child) :
    (emitted c cellEach false child).Pairwise fun r s =>
      Disjoint contains (r.cell c cellEach) (s.cell c cellEach) := by
  cases cellEach with
  | false => exact List.pairwise_singleton _ _
  | true =>
    have hrange : ∀ N : ℕ, (List.range N).Pairwise fun a b => a ≠ b := fun N => List.nodup_range
    unfold emitted
    rw [if_pos rfl, List.pairwise_flatMap]
    refine ⟨fun y _ => List.pairwise_flatMap.mpr ⟨fun z _ => ?_, (hrange _).imp ?_⟩,
      (hrange _).imp ?_⟩
    · rw [List.pairwise_map]
      refine (hrange _).imp fun {x x'} hne => ?_
      rw [cell_makeTreeResult_each, cell_makeTreeResult_each]
      exact disjoint_storageChild fun h => hne h.1
    · intro z z' hne r hr s hs
      obtain ⟨x, -, rfl⟩ := List.mem_map.mp hr
      obtain ⟨x', -, rfl⟩ := List.mem_map.mp hs
      rw [cell_makeTreeResult_each, cell_makeTreeResult_each]
      exact disjoint_storageChild fun h => hne h.2.2
    · intro y y' hne r hr s hs
      obtain ⟨z, -, hr⟩ := List.mem_flatMap.mp hr
      obtain ⟨x, -, rfl⟩ := List.mem_map.mp hr
      obtain ⟨z', -, hs⟩ := List.mem_flatMap.mp hs
      obtain ⟨x', -, rfl⟩ := List.mem_map.mp hs
      rw [cell_makeTreeResult_each, cell_makeTreeResult_each]
      exact disjoint_storageChild fun h => hne h.2.1

/-- How big the stored blocks of a leaf are. -/
theorem Sized.storage (h : Sized c n child) :
    ∃ st : ℤ, 0 < st ∧ child.size / 2 ^ c = st ∧ child.size = (2 ^ c : ℕ) * st := by
  obtain ⟨m, hcm, -, hsize⟩ := h
  refine ⟨2 ^ (m - c), by positivity, ?_, ?_⟩
  · rw [hsize, ← Nat.sub_add_cancel hcm, pow_add, Nat.add_sub_cancel]
    exact Int.mul_ediv_cancel _ (by positivity)
  · rw [hsize, ← Nat.add_sub_cancel' hcm, pow_add, Nat.add_sub_cancel_left]
    push_cast
    rfl

theorem Sized.dvd_size (h : Sized c n child) : (2 : ℤ) ^ c ∣ child.size := by
  obtain ⟨m, hcm, -, hsize⟩ := h
  exact hsize ▸ pow_dvd_pow 2 hcm

theorem contains_emitted (h : Sized c n child) (cellEach : Bool) {p : V3} :
    contains child p = true ↔
      ∃ r ∈ emitted c cellEach false child, contains (r.cell c cellEach) p = true := by
  cases cellEach with
  | false => simp [emitted, cell_makeTreeResult h.dvd_size]
  | true =>
    obtain ⟨st, hst, hdiv, hsize⟩ := h.storage
    rw [contains_iff, hsize, inAxis_iff_exists hst, inAxis_iff_exists hst, inAxis_iff_exists hst]
    constructor
    · rintro ⟨⟨x, hx, hpx⟩, ⟨y, hy, hpy⟩, z, hz, hpz⟩
      refine ⟨_, mem_emitted_each.mpr ⟨x, hx, y, hy, z, hz, rfl⟩, ?_⟩
      rw [cell_makeTreeResult_each, contains_storageChild hdiv]
      exact ⟨hpx, hpy, hpz⟩
    · rintro ⟨r, hr, hp⟩
      obtain ⟨x, hx, y, hy, z, hz, rfl⟩ := mem_emitted_each.mp hr
      rw [cell_makeTreeResult_each, contains_storageChild hdiv] at hp
      exact ⟨⟨x, hx, hp.1⟩, ⟨y, hy, hp.2.1⟩, z, hz, hp.2.2⟩

/-- The lookup in a leaf selects the result that contains the block. -/
theorem makeFindResult_eq {cellEach : Bool} {r : TreeResult} {p p' : V3}
    (hr : r ∈ emitted c cellEach false child) (hp : contains (r.cell c cellEach) p = true)
    (hp' : cellEach = true → p' = p) : makeFindResult child p' c cellEach = r := by
  cases cellEach with
  | false =>
    rw [List.mem_singleton.mp hr]
    rfl
  | true =>
    obtain ⟨x, -, y, -, z, -, rfl⟩ := mem_emitted_each.mp hr
    rw [cell_makeTreeResult_each, contains_storageChild rfl] at hp
    rw [hp' rfl, makeFindResult, if_pos rfl]
    dsimp only
    rw [tdiv_of_inAxis hp.1, tdiv_of_inAxis hp.2.1, tdiv_of_inAxis hp.2.2]
    rfl

/-! ## Enumeration and lookup -/

theorem dvd_alignAxis {k : ℕ} (h : c ≤ k) (x : ℤ) : (2 : ℤ) ^ c ∣ alignAxis x k :=
  (pow_dvd_pow 2 h).mul_left _

theorem node_root {treePow : ℕ} (h : c + 2 ≤ treePow) (playerPos : V3) :
    Node c treePow (treeParamsToChild treePow playerPos 0) := by
  have hhalf : (2 : ℤ) ^ c ∣ 2 ^ (treePow - 1) / 2 := by
    obtain ⟨k, rfl⟩ : ∃ k, treePow = k + 2 := ⟨treePow - 2, by omega⟩
    have hk : (2 : ℤ) ^ (k + 2 - 1) / 2 = 2 ^ k := by
      rw [show k + 2 - 1 = k + 1 from rfl, pow_succ]
      exact Int.mul_ediv_cancel _ two_ne_zero
    rw [hk]
    exact pow_dvd_pow 2 (by omega)
  have haxis : ∀ x, (2 : ℤ) ^ c ∣ alignAxis x (treePow - 1) - 2 ^ (treePow - 1) / 2 := fun x =>
    (dvd_alignAxis (by omega) x).sub hhalf
  exact ⟨⟨treePow, by omega, le_rfl, rfl⟩, haxis _, haxis _, haxis _⟩

theorem inAxis_align {x size p : ℤ} (hx : (2 : ℤ) ^ c ∣ x) (hsize : (2 : ℤ) ^ c ∣ size) :
    InAxis x size (alignAxis p c) ↔ InAxis x size p := by
  have hpos : (0 : ℤ) < 2 ^ c := by positivity
  have hle : ∀ y, (2 : ℤ) ^ c ∣ y → (y ≤ alignAxis p c ↔ y ≤ p) := by
    rintro y ⟨k, rfl⟩
    unfold alignAxis
    rw [mul_comm (2 ^ c) k, mul_le_mul_iff_left₀ hpos, Int.le_ediv_iff_mul_le hpos]
  have hlt := hle (x + size) (hx.add hsize)
  constructor
  · rintro ⟨h₁, h₂⟩
    exact ⟨(hle x hx).mp h₁, not_le.mp fun h => absurd h₂ (not_lt.mpr (hlt.mpr h))⟩
  · rintro ⟨h₁, h₂⟩
    exact ⟨(hle x hx).mpr h₁, not_le.mp fun h => absurd h₂ (not_lt.mpr (hlt.mp h))⟩

/-- Aligning a block does not move it out of a cell. -/
theorem Node.contains_align (h : Node c n child) (p : V3) :
    contains child (alignShift p c) = contains child p := by
  rw [Bool.eq_iff_iff, contains_iff, contains_iff]
  have hdvd := Sized.dvd_size h.size
  exact and_congr (inAxis_align h.X hdvd)
    (and_congr (inAxis_align h.Y hdvd) (inAxis_align h.Z hdvd))

/-- The lookup of a block in a result gives that result, if the block stays in the leaf when it is
aligned. -/
theorem getFarParams_eq {farmesh : ℤ} {cellEach : Bool} {l : Child} {r : TreeResult} {p : V3}
    (hroot : Sized c (farmeshToTreePow farmesh)
      (treeParamsToChild (farmeshToTreePow farmesh) playerPos 0))
    (hl : l ∈ leaves (isLeaf playerPos c q) split (farmeshToTreePow farmesh + 1)
      (treeParamsToChild (farmeshToTreePow farmesh) playerPos 0))
    (hr : r ∈ emitted c cellEach false l) (hp : contains (r.cell c cellEach) p = true)
    (halign : cellEach = false → contains l (alignShift p c) = contains l p) :
    getFarParams { farmesh, cellSizePow := c, farmeshQualityPow := q } playerPos p cellEach =
      some r := by
  have hsub := subdivides_sized playerPos c q
  obtain ⟨-, _, -, hlsize⟩ := hsub.node_of_leaf hroot hl
  have hlp := (contains_emitted hlsize cellEach).mpr ⟨r, hr, hp⟩
  rw [getFarParams, find_eq]
  dsimp only
  cases cellEach with
  | true =>
    rw [if_pos rfl, hsub.locate_eq hroot hl hlp, Option.map_some,
      makeFindResult_eq hr hp fun _ => rfl]
  | false =>
    rw [if_neg Bool.false_ne_true, hsub.locate_eq hroot hl ((halign rfl).trans hlp),
      Option.map_some, makeFindResult_eq hr hp Bool.noConfusion]

/-- What is enumerated when the tree is not smaller than a cell. -/
theorem enumerated_eq_of_le {farmesh : ℤ} {cellEach : Bool} (h : c ≤ farmeshToTreePow farmesh) :
    enumerated playerPos c farmesh q 0 cellEach 0 =
      (leaves (isLeaf playerPos c q) split (farmeshToTreePow farmesh + 1)
        (treeParamsToChild (farmeshToTreePow farmesh) playerPos 0)).flatMap
          (emitted c cellEach false) := by
  have hpow : enumTreePow c farmesh 0 = farmeshToTreePow farmesh := max_eq_right (by simpa using h)
  rw [enumerated_eq, hpow]
  rfl

structure GridAgrees (playerPos : V3) (c q : ℕ) (farmesh : ℤ) (cellEach : Bool)
    (cells : List TreeResult) : Prop where
  disjoint : cells.Pairwise fun r s => Disjoint contains (r.cell c cellEach) (s.cell c cellEach)
  cover : ∀ p, contains (treeParamsToChild (farmeshToTreePow farmesh) playerPos 0) p = true ↔
    ∃ r ∈ cells, contains (r.cell c cellEach) p = true
  lookup : ∀ r ∈ cells, ∀ p, contains (r.cell c cellEach) p = true →
    getFarParams { farmesh, cellSizePow := c, farmeshQualityPow := q } playerPos p cellEach = some r

/-- The cells that are enumerated do not overlap and cover the root, and the lookup of a block in one
of them gives that cell. -/
theorem gridAgrees (playerPos : V3) (c q : ℕ) (farmesh : ℤ) (cellEach : Bool)
    (h : c + 2 ≤ farmeshToTreePow farmesh) :
    GridAgrees playerPos c q farmesh cellEach
      (enumerated playerPos c farmesh q 0 cellEach 0) := by
  have hsub := subdivides playerPos c q
  have hroot := node_root h playerPos
  rw [enumerated_eq_of_le (by omega)]
  constructor
  · rw [List.pairwise_flatMap]
    refine ⟨fun l _ => pairwise_emitted c cellEach l, ?_⟩
    refine (hsub.pairwise_leaves hroot).imp_of_mem fun {l m} hl hm hdisj r hr s hs p hp => ?_
    obtain ⟨-, _, -, hlnode⟩ := hsub.node_of_leaf hroot hl
    obtain ⟨-, _, -, hmnode⟩ := hsub.node_of_leaf hroot hm
    by_contra hsp
    rw [Bool.not_eq_false] at hsp
    have hlp := (contains_emitted hlnode.size cellEach).mpr ⟨r, hr, hp⟩
    have hmp := (contains_emitted hmnode.size cellEach).mpr ⟨s, hs, hsp⟩
    exact absurd hmp (Bool.eq_false_iff.mp (hdisj p hlp))
  · intro p
    rw [hsub.contains_iff hroot]
    constructor
    · rintro ⟨l, hl, hp⟩
      obtain ⟨-, _, -, hlnode⟩ := hsub.node_of_leaf hroot hl
      obtain ⟨r, hr, hrp⟩ := (contains_emitted hlnode.size cellEach).mp hp
      exact ⟨r, List.mem_flatMap.mpr ⟨l, hl, hr⟩, hrp⟩
    · rintro ⟨r, hr, hp⟩
      obtain ⟨l, hl, hr⟩ := List.mem_flatMap.mp hr
      obtain ⟨-, _, -, hlnode⟩ := hsub.node_of_leaf hroot hl
      exact ⟨l, hl, (contains_emitted hlnode.size cellEach).mpr ⟨r, hr, hp⟩⟩
  · intro r hr p hp
    obtain ⟨l, hl, hr⟩ := List.mem_flatMap.mp hr
    obtain ⟨-, _, -, hlnode⟩ := hsub.node_of_leaf hroot hl
    exact getFarParams_eq hroot.size hl hr hp fun _ => hlnode.contains_align p

/-- The grid of a player at the origin. -/
theorem gridAgrees_origin : GridAgrees ⟨0, 0, 0⟩ 1 1 256 true
    (enumerated ⟨0, 0, 0⟩ 1 256 1 0 true 0) :=
  gridAgrees ⟨0, 0, 0⟩ 1 1 256 true (by decide +kernel)

end Freeminer.Far
