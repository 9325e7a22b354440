import Freeminer.Mapgen.Schematic

/-! Which cells and slices of a schematic `applyProbabilities` touches. -/

namespace Freeminer.Mapgen.Schematic

open Block (MapNode CONTENT_AIR)

/-! What the entries ask for. -/

/-- The position, seen from the origin, is in the schematic. -/
def Inside (size : V3s16) (p0 pos : V3pos) : Prop :=
  (0 ≤ pos.X - p0.X ∧ pos.X - p0.X < size.X.toInt) ∧
    (0 ≤ pos.Y - p0.Y ∧ pos.Y - p0.Y < size.Y.toInt) ∧
    (0 ≤ pos.Z - p0.Z ∧ pos.Z - p0.Z < size.Z.toInt)

instance (size : V3s16) (p0 pos : V3pos) : Decidable (Inside size p0 pos) :=
  inferInstanceAs (Decidable (_ ∧ _))

/-- The place of a cell in the array. -/
def cellOf (size : V3s16) (p0 pos : V3pos) : ℤ :=
  (pos.Z - p0.Z) * (size.Y.toInt * size.X.toInt) + (pos.Y - p0.Y) * size.X.toInt + (pos.X - p0.X)

/-- The probabilities for a cell, in order. -/
def named (size : V3s16) (p0 : V3pos) (plist : List (V3pos × UInt8)) (i : ℕ) : List UInt8 :=
  (plist.filter fun e => Inside size p0 e.1 ∧ cellOf size p0 e.1 = i).map Prod.snd

def namedSlice (splist : List (Int16 × UInt8)) (y : ℕ) : List UInt8 :=
  (splist.filter fun e => e.1.toInt = (y : ℤ)).map Prod.snd

/-- A cell with its last probability; air where that is never. -/
def marked (probs : List UInt8) (n : MapNode) : MapNode :=
  { n with
    param0 := if probs.getLast? = some MTSCHEM_PROB_NEVER then CONTENT_AIR else n.param0
    param1 := probs.getLast?.getD n.param1 }

/-- Exactly what is named is touched, and no index leaves an array. -/
def TouchesNamed (s : Schematic) (p0 : V3pos) (plist : List (V3pos × UInt8))
    (splist : List (Int16 × UInt8)) : Prop :=
  ∃ s', s.applyProbabilities p0 plist splist = some s' ∧
    s'.schemdata = s.schemdata.mapIdx (fun i n => marked (named s.size p0 plist i) n) ∧
    s'.slice_probs = s.slice_probs.mapIdx (fun y prob => (namedSlice splist y).getLast?.getD prob) ∧
    s'.size = s.size ∧ s'.c_nodes = s.c_nodes ∧ s'.toNodeResolver = s.toNodeResolver

/-! What the code touches. -/

/-- The probabilities of the entries whose flattened index is that of the cell. -/
def hits (size : V3s16) (p0 : V3pos) (plist : List (V3pos × UInt8)) (i : ℕ) : List UInt8 :=
  (plist.filter fun e => indexOf size p0 e.1 = some (i : ℤ)).map Prod.snd

/-- A cell after all of them: what was never once is air for good. -/
def hit (probs : List UInt8) (n : MapNode) : MapNode :=
  { n with
    param0 := if MTSCHEM_PROB_NEVER ∈ probs then CONTENT_AIR else n.param0
    param1 := probs.getLast?.getD n.param1 }

/-- Nothing overflows for the entry, and its index is not before the array. -/
def Reaches (size : V3s16) (p0 : V3pos) (e : V3pos × UInt8) : Prop :=
  ∃ index, indexOf size p0 e.1 = some index ∧ (checkInt size.nodecount).isSome ∧
    (index < size.nodecount → 0 ≤ index)

/-- The entries that hit a cell leave of it what those that name it ask for: of the entries that
hit it the last is for the last one that names it, or changes nothing, and none is for never
unless the last one that names it is, or the cell is air. -/
def CellAgrees (hitting naming : List UInt8) (n : MapNode) : Prop :=
  hitting.getLast?.getD n.param1 = naming.getLast?.getD n.param1 ∧
    ((MTSCHEM_PROB_NEVER ∈ hitting ↔ naming.getLast? = some MTSCHEM_PROB_NEVER) ∨
      n.param0 = CONTENT_AIR)

/-- The two schematics have the same fields but for the nodes. -/
structure SameRest (s s' : Schematic) : Prop where
  size : s'.size = s.size
  c_nodes : s'.c_nodes = s.c_nodes
  resolver : s'.toNodeResolver = s.toNodeResolver

variable {s s' : Schematic} {p0 : V3pos} {e : V3pos × UInt8} {plist : List (V3pos × UInt8)}
  {splist : List (Int16 × UInt8)}

theorem hit_append (a b : List UInt8) (n : MapNode) : hit (a ++ b) n = hit b (hit a n) := by
  simp only [hit, List.mem_append, List.getLast?_append, MapNode.mk.injEq, and_true]
  constructor
  · by_cases ha : MTSCHEM_PROB_NEVER ∈ a <;> by_cases hb : MTSCHEM_PROB_NEVER ∈ b <;> simp [ha, hb]
  · cases b.getLast? <;> rfl

theorem hits_cons (size : V3s16) (e : V3pos × UInt8) (plist : List (V3pos × UInt8)) (i : ℕ) :
    hits size p0 (e :: plist) i = hits size p0 [e] i ++ hits size p0 plist i := by
  rw [hits, ← List.singleton_append, List.filter_append, List.map_append, hits, hits]

theorem applyProbability_iff : (∃ s', applyProbability p0 s e = some s') ↔ Reaches s.size p0 e := by
  constructor
  · rintro ⟨s', h⟩
    obtain ⟨index, hindex, h⟩ := Option.bind_eq_some_iff.mp h
    obtain ⟨nodecount, hcount, h⟩ := Option.bind_eq_some_iff.mp h
    refine ⟨index, hindex, by rw [hcount]; rfl, fun hlt => ?_⟩
    unfold checkInt at hcount
    split_ifs at hcount
    cases hcount
    rw [if_pos hlt] at h
    by_contra hneg
    rw [if_pos (Int.not_le.mp hneg)] at h
    cases h
  · rintro ⟨index, hindex, hsome, hle⟩
    have hcount : checkInt s.size.nodecount = some s.size.nodecount := by
      unfold checkInt at hsome ⊢
      split_ifs at hsome ⊢ with hc
      · rfl
      · exact absurd hsome (by decide)
    unfold applyProbability
    rw [hindex, hcount]
    simp only [Option.bind_eq_bind, Option.bind_some]
    by_cases hlt : index < s.size.nodecount
    · rw [if_pos hlt, if_neg (Int.not_lt.mpr (hle hlt))]
      exact ⟨_, rfl⟩
    · rw [if_neg hlt]
      exact ⟨_, rfl⟩

theorem applyProbability_eq (h : applyProbability p0 s e = some s') : SameRest s s' ∧
    s'.slice_probs = s.slice_probs ∧
    s'.schemdata = s.schemdata.mapIdx fun i n => hit (hits s.size p0 [e] i) n := by
  obtain ⟨index, hindex, h⟩ := Option.bind_eq_some_iff.mp h
  obtain ⟨nodecount, hcount, h⟩ := Option.bind_eq_some_iff.mp h
  obtain rfl : s.size.nodecount = nodecount := by
    unfold checkInt at hcount
    split_ifs at hcount
    exact Option.some.inj hcount
  have hlen := s.cells
  have hhits : ∀ i : ℕ, hits s.size p0 [e] i = if index = i then [e.2] else [] := by
    intro i
    rw [hits, List.filter_singleton, hindex]
    split_ifs <;> simp_all
  by_cases hlt : index < s.size.nodecount
  · rw [if_pos hlt] at h
    by_cases hneg : index < 0
    · rw [if_pos hneg] at h
      cases h
    rw [if_neg hneg] at h
    cases h
    refine ⟨⟨rfl, rfl, rfl⟩, rfl, List.ext_getElem? fun i => ?_⟩
    rw [List.getElem?_modify, List.getElem?_mapIdx, hhits]
    by_cases hi : index = i
    · simp [hi, hit, eq_comm]
    · have : ¬ index.toNat = i := by omega
      simp [hi, this, hit]
  · rw [if_neg hlt] at h
    cases h
    refine ⟨⟨rfl, rfl, rfl⟩, rfl, List.ext_getElem? fun i => ?_⟩
    rw [List.getElem?_mapIdx, hhits]
    by_cases hi : index = i
    · rw [List.getElem?_eq_none (by omega)]
      rfl
    · simp [hi, hit]

theorem SameRest.trans {t : Schematic} (h : SameRest s s') (h' : SameRest s' t) : SameRest s t :=
  ⟨h'.size.trans h.size, h'.c_nodes.trans h.c_nodes, h'.resolver.trans h.resolver⟩

theorem cells_iff : (∃ s', plist.foldlM (applyProbability p0) s = some s') ↔
    ∀ e ∈ plist, Reaches s.size p0 e := by
  induction plist generalizing s with
  | nil => simp
  | cons e plist ih =>
    rw [List.forall_mem_cons, ← applyProbability_iff]
    simp only [List.foldlM_cons, Option.bind_eq_bind, Option.bind_eq_some_iff]
    constructor
    · rintro ⟨t, s', hs', ht⟩
      have := ih.mp ⟨t, ht⟩
      rw [(applyProbability_eq hs').1.size] at this
      exact ⟨⟨s', hs'⟩, this⟩
    · rintro ⟨⟨s', hs'⟩, hrest⟩
      obtain ⟨t, ht⟩ := (ih (s := s')).mpr (by rwa [(applyProbability_eq hs').1.size])
      exact ⟨t, s', hs', ht⟩

theorem cells_eq (h : plist.foldlM (applyProbability p0) s = some s') : SameRest s s' ∧
    s'.slice_probs = s.slice_probs ∧
    s'.schemdata = s.schemdata.mapIdx fun i n => hit (hits s.size p0 plist i) n := by
  induction plist generalizing s with
  | nil =>
    cases h
    refine ⟨⟨rfl, rfl, rfl⟩, rfl, (List.mapIdx_eq_iff.mpr fun i => ?_).symm⟩
    simp [hits, hit]
  | cons e plist ih =>
    rw [List.foldlM_cons] at h
    obtain ⟨t, ht, h⟩ := Option.bind_eq_some_iff.mp h
    obtain ⟨hrest, hslices, hcells⟩ := applyProbability_eq ht
    obtain ⟨hrest', hslices', hcells'⟩ := ih h
    refine ⟨hrest.trans hrest', hslices'.trans hslices, ?_⟩
    rw [hcells', hcells, List.mapIdx_mapIdx, hrest.size]
    refine List.mapIdx_eq_mapIdx_iff.mpr fun i _ => ?_
    rw [hits_cons s.size e plist, hit_append]
    rfl

theorem applySlice_iff {e : Int16 × UInt8} : (∃ s', applySliceProbability s e = some s') ↔
    (e.1 < s.size.Y → 0 ≤ e.1) := by
  unfold applySliceProbability
  split_ifs with hlt hneg
  · simpa [hlt] using Int16.not_le.mpr hneg
  · simpa [hlt] using Int16.not_lt.mp hneg
  · simp [hlt]

theorem applySlice_eq {e : Int16 × UInt8} (h : applySliceProbability s e = some s') :
    SameRest s s' ∧ s'.schemdata = s.schemdata ∧
      s'.slice_probs = s.slice_probs.mapIdx fun y prob => (namedSlice [e] y).getLast?.getD prob := by
  have hlen := s.slices
  have hnamed : ∀ y : ℕ, namedSlice [e] y = if e.1.toInt = y then [e.2] else [] := by
    intro y
    rw [namedSlice, List.filter_singleton]
    split_ifs <;> simp_all
  unfold applySliceProbability at h
  simp only [Int16.lt_iff_toInt_lt] at h
  split_ifs at h with hlt hneg
  · cases h
    refine ⟨⟨rfl, rfl, rfl⟩, rfl, List.ext_getElem? fun y => ?_⟩
    rw [List.getElem?_mapIdx, hnamed, List.getElem?_set]
    have h0 : (0 : Int16).toInt = 0 := rfl
    by_cases hy : e.1.toInt = y
    · have hlt' : y < s.slice_probs.length := by omega
      simp [hy, hlt']
    · rw [if_neg (by omega)]
      simp [hy]
  · cases h
    refine ⟨⟨rfl, rfl, rfl⟩, rfl, List.ext_getElem? fun y => ?_⟩
    rw [List.getElem?_mapIdx, hnamed]
    by_cases hy : e.1.toInt = y
    · rw [List.getElem?_eq_none (by omega)]
      rfl
    · simp [hy]

theorem slices_iff : (∃ s', splist.foldlM applySliceProbability s = some s') ↔
    ∀ e ∈ splist, e.1 < s.size.Y → 0 ≤ e.1 := by
  induction splist generalizing s with
  | nil => simp
  | cons e splist ih =>
    rw [List.forall_mem_cons, ← applySlice_iff]
    simp only [List.foldlM_cons, Option.bind_eq_bind, Option.bind_eq_some_iff]
    constructor
    · rintro ⟨t, s', hs', ht⟩
      have := ih.mp ⟨t, ht⟩
      rw [(applySlice_eq hs').1.size] at this
      exact ⟨⟨s', hs'⟩, this⟩
    · rintro ⟨⟨s', hs'⟩, hrest⟩
      obtain ⟨t, ht⟩ := (ih (s := s')).mpr (by rwa [(applySlice_eq hs').1.size])
      exact ⟨t, s', hs', ht⟩

theorem slices_eq (h : splist.foldlM applySliceProbability s = some s') : SameRest s s' ∧
    s'.schemdata = s.schemdata ∧ s'.slice_probs =
      s.slice_probs.mapIdx fun y prob => (namedSlice splist y).getLast?.getD prob := by
  induction splist generalizing s with
  | nil =>
    cases h
    exact ⟨⟨rfl, rfl, rfl⟩, rfl, (List.mapIdx_eq_iff.mpr fun y => by simp [namedSlice]).symm⟩
  | cons e splist ih =>
    rw [List.foldlM_cons] at h
    obtain ⟨t, ht, h⟩ := Option.bind_eq_some_iff.mp h
    obtain ⟨hrest, hcells, hslices⟩ := applySlice_eq ht
    obtain ⟨hrest', hcells', hslices'⟩ := ih h
    refine ⟨hrest.trans hrest', hcells'.trans hcells, ?_⟩
    rw [hslices', hslices, List.mapIdx_mapIdx]
    refine List.mapIdx_eq_mapIdx_iff.mpr fun y _ => ?_
    have happend : namedSlice (e :: splist) y = namedSlice [e] y ++ namedSlice splist y := by
      rw [namedSlice, ← List.singleton_append, List.filter_append, List.map_append, namedSlice,
        namedSlice]
    rw [happend, List.getLast?_append]
    cases (namedSlice splist y).getLast? <;> simp

theorem hit_eq_marked_iff {hitting naming : List UInt8} {n : MapNode} :
    hit hitting n = marked naming n ↔ CellAgrees hitting naming n := by
  unfold hit marked CellAgrees
  rw [MapNode.mk.injEq]
  by_cases hh : MTSCHEM_PROB_NEVER ∈ hitting <;>
    by_cases hn : naming.getLast? = some MTSCHEM_PROB_NEVER <;> simp [hh, hn, and_comm, eq_comm]

/-- Only what is named is touched exactly if every entry is in bounds, and the entries that hit a
cell agree with those that name it. -/
theorem touchesNamed_iff (s : Schematic) (p0 : V3pos) (plist : List (V3pos × UInt8))
    (splist : List (Int16 × UInt8)) : s.TouchesNamed p0 plist splist ↔
      (∀ e ∈ plist, Reaches s.size p0 e) ∧ (∀ e ∈ splist, e.1 < s.size.Y → 0 ≤ e.1) ∧
      ∀ i n, s.schemdata[i]? = some n →
        CellAgrees (hits s.size p0 plist i) (named s.size p0 plist i) n := by
  constructor
  · rintro ⟨s', hs', hcells, -⟩
    obtain ⟨t, ht, hs'⟩ := Option.bind_eq_some_iff.mp hs'
    have hrun := cells_eq ht
    have hslices := slices_iff.mp ⟨s', hs'⟩
    rw [hrun.1.size] at hslices
    refine ⟨cells_iff.mp ⟨t, ht⟩, hslices, fun i n hn => ?_⟩
    rw [(slices_eq hs').2.1, hrun.2.2, List.mapIdx_eq_mapIdx_iff] at hcells
    obtain ⟨hi, rfl⟩ := List.getElem?_eq_some_iff.mp hn
    exact hit_eq_marked_iff.mp (hcells i hi)
  · rintro ⟨hcells, hslices, hagree⟩
    obtain ⟨t, ht⟩ := cells_iff.mpr hcells
    have hrun := cells_eq ht
    obtain ⟨s', hs'⟩ := (slices_iff (s := t)).mpr (by rwa [hrun.1.size])
    have hrun' := slices_eq hs'
    have hrest := hrun.1.trans hrun'.1
    refine ⟨s', Option.bind_eq_some_iff.mpr ⟨t, ht, hs'⟩, ?_, by rw [hrun'.2.2, hrun.2.1],
      hrest.size, hrest.c_nodes, hrest.resolver⟩
    rw [hrun'.2.1, hrun.2.2, List.mapIdx_eq_mapIdx_iff]
    intro i hi
    exact hit_eq_marked_iff.mpr (hagree i _ (List.getElem?_eq_getElem hi))

/-- Two nodes of stone beside each other. -/
def pair : Schematic where
  size := ⟨2, 1, 1⟩
  schemdata := [⟨1, 0x7F, 0⟩, ⟨1, 0x7F, 0⟩]
  slice_probs := [0x7F]
  cells := rfl
  slices := rfl

/-- A position left of the region is before the array. -/
theorem not_touchesNamed : ¬ ∀ (s : Schematic) (p0 : V3pos) (plist : List (V3pos × UInt8))
    (splist : List (Int16 × UInt8)), s.TouchesNamed p0 plist splist := by
  intro h
  obtain ⟨s', hs', -⟩ := h pair ⟨0, 0, 0⟩ [(⟨-1, 0, 0⟩, 0x40)] []
  have hnone : pair.applyProbabilities ⟨0, 0, 0⟩ [(⟨-1, 0, 0⟩, 0x40)] [] = none := by decide
  rw [hnone] at hs'
  cases hs'

end Freeminer.Mapgen.Schematic
