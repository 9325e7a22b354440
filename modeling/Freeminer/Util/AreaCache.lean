import Mathlib.Tactic.Ring
import Freeminer.Util.AreaStore

/-! The cache of an `AreaStore` changes no answer: a position of the map lies in its block, so the
areas that contain it are among those that overlap the block; and whatever changes the areas or the
size of the blocks empties the cache. -/

namespace Freeminer.Util

open Std Lib

section Vector

variable {m : AreaMap} {t : List UInt32}

theorem pointed_eq_true {f : Area → Bool} {id : UInt32} :
    AreaIndex.pointed m f id = true ↔ ∃ a, m[id]? = some a ∧ f a = true := by
  unfold AreaIndex.pointed
  cases m[id]? <;> simp

theorem nodup_keys_filter (m : AreaMap) (f : UInt32 × Area → Bool) :
    ((m.toList.filter f).map Prod.fst).Nodup := by
  have hkeys : (m.toList.map Prod.fst).Nodup := by
    rw [ExtTreeMap.map_fst_toList_eq_keys]
    exact ExtTreeMap.nodup_keys
  exact hkeys.sublist (List.filter_sublist.map _)

theorem mem_keys_filter {f : Area → Bool} {id : UInt32} :
    id ∈ (m.toList.filter fun e => f e.2).map Prod.fst ↔ ∃ a, m[id]? = some a ∧ f a = true := by
  simp only [List.mem_map, List.mem_filter, Prod.exists, ExtTreeMap.mem_toList_iff_getElem?_eq_some]
  constructor
  · rintro ⟨k, a, ⟨hk, hf⟩, rfl⟩
    exact ⟨a, hk, hf⟩
  · rintro ⟨a, hk, hf⟩
    exact ⟨id, a, ⟨hk, hf⟩, rfl⟩

/-- Going through the pointers finds what going through the map finds. -/
theorem filter_pointed_perm (hnodup : t.Nodup) (hmem : ∀ id, id ∈ t ↔ id ∈ m) (f : Area → Bool) :
    (t.filter (AreaIndex.pointed m f)).Perm ((m.toList.filter fun e => f e.2).map Prod.fst) := by
  refine (List.perm_ext_iff_of_nodup (hnodup.filter _) (nodup_keys_filter m _)).mpr fun id => ?_
  rw [mem_keys_filter, List.mem_filter, pointed_eq_true, hmem id]
  constructor
  · exact fun h => h.2
  · rintro ⟨a, ha, hf⟩
    exact ⟨ExtTreeMap.mem_iff_isSome_getElem?.mpr (by simp [ha]), a, ha, hf⟩

theorem vector_insert {a : Area} (h : t.Nodup ∧ ∀ id, id ∈ t ↔ id ∈ m) (hid : a.id ∉ m) :
    (t ++ [a.id]).Nodup ∧ ∀ id, id ∈ t ++ [a.id] ↔ id ∈ m.insert a.id a := by
  have hnew : a.id ∉ t := mt (h.2 a.id).mp hid
  refine ⟨List.nodup_append.mpr ⟨h.1, List.nodup_singleton _, ?_⟩, fun id => ?_⟩
  · rintro id hin b hb rfl
    exact hnew (List.mem_singleton.mp hb ▸ hin)
  · rw [List.mem_append, List.mem_singleton, ExtTreeMap.mem_insert, h.2 id, Std.LawfulEqCmp.compare_eq_iff_eq]
    tauto

theorem vector_remove {id : UInt32} (h : t.Nodup ∧ ∀ id, id ∈ t ↔ id ∈ m) :
    (t.erase id).Nodup ∧ ∀ k, k ∈ t.erase id ↔ k ∈ m.erase id := by
  refine ⟨h.1.erase id, fun k => ?_⟩
  rw [h.1.mem_erase_iff, ExtTreeMap.mem_erase, h.2 k, ne_eq, ne_eq,
    Std.LawfulEqCmp.compare_eq_iff_eq]
  tauto

end Vector

/-- `VectorAreaStore`: the pointers in the order of insertion. -/
def vectorIndex : AreaIndex where
  σ := List UInt32
  empty := []
  insert t a := t ++ [a.id]
  remove t a := (t.erase a.id, true)
  forPos t m pos := t.filter (AreaIndex.pointed m fun a => a.containsPt pos)
  inArea t m minedge maxedge acceptOverlap :=
    t.filter (AreaIndex.pointed m fun a =>
      if acceptOverlap then areasOverlap minedge maxedge a else containsArea minedge maxedge a)
  Indexes t m := t.Nodup ∧ ∀ id, id ∈ t ↔ id ∈ m
  indexes_empty := ⟨List.nodup_nil, fun id => by simp⟩
  indexes_insert _ _ _ h hid := vector_insert h hid
  indexes_remove _ _ _ _ h _ hid := hid ▸ vector_remove h
  forPos_perm t m pos h := filter_pointed_perm h.1 h.2 _
  inArea_perm t m minedge maxedge h := filter_pointed_perm h.1 h.2 _

/-- A region of the spatial index, by its low and its high corner. -/
abbrev Region := Pos × Pos

/-- The R-tree of the spatial index library, of which the store uses these functions, with what the
library documents of them: a query visits the entries that it is about, each once. -/
structure RTree where
  σ : Type
  empty : σ
  insertData : σ → Region → UInt32 → σ
  deleteData : σ → Region → UInt32 → σ × Bool
  pointLocationQuery : σ → Pos → List UInt32
  intersectsWithQuery : σ → Region → List UInt32
  containsWhatQuery : σ → Region → List UInt32
  entries : σ → Multiset (Region × UInt32)
  entries_empty : entries empty = 0
  entries_insertData : ∀ t r id, entries (insertData t r id) = (r, id) ::ₘ entries t
  entries_deleteData : ∀ t r id, entries (deleteData t r id).1 = (entries t).erase (r, id)
  pointLocationQuery_eq : ∀ t p, (pointLocationQuery t p : Multiset UInt32) =
    ((entries t).filter fun e => e.1.1.le p ∧ p.le e.1.2).map Prod.snd
  intersectsWithQuery_eq : ∀ t (r : Region), (intersectsWithQuery t r : Multiset UInt32) =
    ((entries t).filter fun e => overlapsIn r.1.x r.2.x e.1.1.x e.1.2.x ∧
      overlapsIn r.1.y r.2.y e.1.1.y e.1.2.y ∧ overlapsIn r.1.z r.2.z e.1.1.z e.1.2.z).map Prod.snd

/-- A list of the entries, all of which every query looks at, is such a tree. -/
def listTree : RTree where
  σ := List (Region × UInt32)
  empty := []
  insertData t r id := (r, id) :: t
  deleteData t r id := (@List.erase _ instBEqOfDecidableEq t (r, id), decide ((r, id) ∈ t))
  pointLocationQuery t p := (t.filter fun e => e.1.1.le p ∧ p.le e.1.2).map Prod.snd
  intersectsWithQuery t r := (t.filter fun e => overlapsIn r.1.x r.2.x e.1.1.x e.1.2.x ∧
    overlapsIn r.1.y r.2.y e.1.1.y e.1.2.y ∧ overlapsIn r.1.z r.2.z e.1.1.z e.1.2.z).map Prod.snd
  containsWhatQuery t r := (t.filter fun e => r.1.le e.1.1 ∧ e.1.2.le r.2).map Prod.snd
  entries t := t
  entries_empty := rfl
  entries_insertData _ _ _ := rfl
  entries_deleteData t r id := (Multiset.coe_erase t (r, id)).symm
  pointLocationQuery_eq _ _ := rfl
  intersectsWithQuery_eq t _ := by rw [Multiset.filter_coe, Multiset.map_coe]

section Spatial

def treeEntry (e : UInt32 × Area) : Region × UInt32 := ((e.2.minedge, e.2.maxedge), e.1)

variable {m : AreaMap} {T : RTree} {t : T.σ}

theorem nodup_toList (m : AreaMap) : m.toList.Nodup := by
  have hkeys : (m.toList.map Prod.fst).Nodup := by
    rw [ExtTreeMap.map_fst_toList_eq_keys]
    exact ExtTreeMap.nodup_keys
  exact hkeys.of_map _

theorem toList_insert_perm {id : UInt32} (a : Area) (h : id ∉ m) :
    (m.insert id a).toList.Perm ((id, a) :: m.toList) := by
  have hnone : m[id]? = none := by simpa using h
  refine (List.perm_ext_iff_of_nodup (nodup_toList _) (List.nodup_cons.mpr
    ⟨fun hin => ?_, nodup_toList m⟩)).mpr fun e => ?_
  · rw [ExtTreeMap.mem_toList_iff_getElem?_eq_some, hnone] at hin
    cases hin
  · obtain ⟨k, b⟩ := e
    rw [ExtTreeMap.mem_toList_iff_getElem?_eq_some, List.mem_cons,
      ExtTreeMap.mem_toList_iff_getElem?_eq_some, ExtTreeMap.getElem?_insert]
    by_cases hk : id = k
    · subst hk
      simp [hnone, eq_comm]
    · have : ¬ compare id k = .eq := by rwa [LawfulEqCmp.compare_eq_iff_eq]
      simp [this, Ne.symm hk]

theorem toList_perm_erase {id : UInt32} {a : Area} (h : m[id]? = some a) :
    m.toList.Perm ((id, a) :: (m.erase id).toList) := by
  refine (List.perm_ext_iff_of_nodup (nodup_toList m) (List.nodup_cons.mpr
    ⟨fun hin => ?_, nodup_toList _⟩)).mpr fun e => ?_
  · rw [ExtTreeMap.mem_toList_iff_getElem?_eq_some] at hin
    simp at hin
  · obtain ⟨k, b⟩ := e
    rw [ExtTreeMap.mem_toList_iff_getElem?_eq_some, List.mem_cons,
      ExtTreeMap.mem_toList_iff_getElem?_eq_some, ExtTreeMap.getElem?_erase]
    by_cases hk : id = k
    · subst hk
      simp [h, eq_comm]
    · have : ¬ compare id k = .eq := by rwa [LawfulEqCmp.compare_eq_iff_eq]
      simp [this, Ne.symm hk]

def TreeIndexes (T : RTree) (t : T.σ) (m : AreaMap) : Prop :=
  T.entries t = (m.toList.map treeEntry : List (Region × UInt32))

theorem tree_insert {a : Area} (h : TreeIndexes T t m) (hid : a.id ∉ m) :
    TreeIndexes T (T.insertData t (a.minedge, a.maxedge) a.id) (m.insert a.id a) := by
  unfold TreeIndexes at h ⊢
  rw [T.entries_insertData, h, Multiset.cons_coe]
  exact Multiset.coe_eq_coe.mpr ((toList_insert_perm a hid).map treeEntry).symm

theorem tree_remove {id : UInt32} {a : Area} (h : TreeIndexes T t m) (hm : m[id]? = some a)
    (hid : a.id = id) :
    TreeIndexes T (T.deleteData t (a.minedge, a.maxedge) a.id).1 (m.erase id) := by
  have hperm := (toList_perm_erase hm).map treeEntry
  unfold TreeIndexes at h ⊢
  rw [T.entries_deleteData, h, Multiset.coe_eq_coe.mpr hperm, List.map_cons, ← Multiset.cons_coe,
    hid]
  exact Multiset.erase_cons_head _ _

/-- A query of the tree finds what going through the map finds. -/
theorem tree_query_perm {l : List UInt32} {f : Area → Bool} {p : Region × UInt32 → Prop}
    [DecidablePred p] (h : TreeIndexes T t m)
    (hl : (l : Multiset UInt32) = ((T.entries t).filter p).map Prod.snd)
    (hp : ∀ e, p (treeEntry e) ↔ f e.2 = true) :
    l.Perm ((m.toList.filter fun e => f e.2).map Prod.fst) := by
  unfold TreeIndexes at h
  rw [h, Multiset.filter_coe, Multiset.map_coe, List.filter_map, List.map_map] at hl
  have hfun : (m.toList.filter ((fun e => decide (p e)) ∘ treeEntry)) =
      m.toList.filter fun e => f e.2 := by
    refine List.filter_congr fun e _ => ?_
    have := hp e
    cases hf : f e.2 <;> simp [this, hf]
  rw [hfun] at hl
  exact Multiset.coe_eq_coe.mp hl

end Spatial

/-- `SpatialAreaStore`; the visitor turns an id into the pointer. -/
def spatialIndex (T : RTree) : AreaIndex where
  σ := T.σ
  empty := T.empty
  insert t a := T.insertData t (a.minedge, a.maxedge) a.id
  remove t a := T.deleteData t (a.minedge, a.maxedge) a.id
  forPos t _ pos := T.pointLocationQuery t pos
  inArea t _ minedge maxedge acceptOverlap :=
    if acceptOverlap then T.intersectsWithQuery t (minedge, maxedge)
    else T.containsWhatQuery t (minedge, maxedge)
  Indexes := TreeIndexes T
  indexes_empty := T.entries_empty
  indexes_insert _ _ _ h hid := tree_insert h hid
  indexes_remove _ _ _ _ h hm hid := tree_remove h hm hid
  forPos_perm t m pos h :=
    tree_query_perm (f := fun a => a.containsPt pos) h (T.pointLocationQuery_eq t pos) fun e => by
      simp [treeEntry, Area.containsPt]
  inArea_perm t m minedge maxedge h :=
    tree_query_perm (f := areasOverlap minedge maxedge) h
      (T.intersectsWithQuery_eq t (minedge, maxedge)) fun e => by
        simp [treeEntry, areasOverlap, and_assoc]

section Blocks

/-- A coordinate of the map: of a block within `MAX_MAP_GENERATION_LIMIT`. -/
def OnMap (p : Int32) : Prop := -2147483008 ≤ p.toInt ∧ p.toInt < 2147483008 + 16

theorem bmod_eq {x : ℤ} (h : -2147483648 ≤ x) (h' : x < 2147483648) : x.bmod (2 ^ 32) = x :=
  Int.bmod_eq_of_le_mul_two (by omega) (by omega)

/-- Division towards zero, of the shifted number, rounds down. -/
theorem tdiv_eq_floor {p d : ℤ} (hd : 0 < d) (hp : p < 0) : (p - d + 1).tdiv d = p / d := by
  have hmod := Int.emod_nonneg p (ne_of_gt hd)
  have hmod' := Int.emod_lt_of_pos p hd
  have hdiv := Int.mul_ediv_add_emod p d
  have hneg : p - d + 1 = -(d - 1 - p) := by ring
  have hsplit : d - 1 - p = (d - 1 - p % d) + d * -(p / d) := by
    rw [mul_neg]
    omega
  rw [hneg, Int.neg_tdiv, Int.tdiv_eq_ediv_of_nonneg (by omega), hsplit,
    Int.add_mul_ediv_left _ _ (ne_of_gt hd), Int.ediv_eq_zero_of_lt (by omega) (by omega)]
  ring

theorem containerCoord_toInt {p d : Int32} (hp : OnMap p) (hd : 0 < d.toInt) (hd' : d.toInt < 256) :
    (containerCoord p d).toInt = p.toInt / d.toInt := by
  obtain ⟨hlo, hhi⟩ := hp
  have hdne : d ≠ -1 := by
    rintro rfl
    exact absurd hd (by decide)
  unfold containerCoord
  rw [Int32.toInt_div_of_ne_right _ _ hdne]
  have hge : p ≥ 0 ↔ 0 ≤ p.toInt := by rw [ge_iff_le, Int32.le_iff_toInt_le]; rfl
  split_ifs with h0
  · rw [Int.tdiv_eq_ediv_of_nonneg (hge.mp h0)]
  · have hneg : p.toInt < 0 := by
      rw [hge] at h0
      omega
    have h1 : (p - d).toInt = p.toInt - d.toInt := by
      rw [Int32.toInt_sub, bmod_eq (by omega) (by omega)]
    have h2 : (p - d + 1).toInt = p.toInt - d.toInt + 1 := by
      rw [Int32.toInt_add, h1]
      exact bmod_eq (by simp; omega) (by simp; omega)
    rw [h2]
    exact tdiv_eq_floor hd hneg

/-- The block of a position reaches from below it to above it. -/
theorem block_spans {p d : Int32} (hp : OnMap p) (hd : 0 < d.toInt) (hd' : d.toInt < 256) :
    containerCoord p d * d ≤ p ∧ p ≤ containerCoord p d * d + d - 1 := by
  obtain ⟨hlo, hhi⟩ := hp
  have hmod := Int.emod_nonneg p.toInt (ne_of_gt hd)
  have hmod' := Int.emod_lt_of_pos p.toInt hd
  have hdiv := Int.mul_ediv_add_emod p.toInt d.toInt
  have hmin : (containerCoord p d * d).toInt = p.toInt - p.toInt % d.toInt := by
    rw [Int32.toInt_mul, containerCoord_toInt ⟨hlo, hhi⟩ hd hd', mul_comm]
    rw [bmod_eq (by omega) (by omega)]
    omega
  have hsum : (containerCoord p d * d + d).toInt = p.toInt - p.toInt % d.toInt + d.toInt := by
    rw [Int32.toInt_add, hmin, bmod_eq (by omega) (by omega)]
  have hmax : (containerCoord p d * d + d - 1).toInt =
      p.toInt - p.toInt % d.toInt + d.toInt - 1 := by
    rw [Int32.toInt_sub, hsum]
    exact bmod_eq (by simp; omega) (by simp; omega)
  rw [Int32.le_iff_toInt_le, Int32.le_iff_toInt_le, hmin, hmax]
  omega

end Blocks

section Overlap

theorem overlapsIn_of_le {amin amax bmin bmax p : Int32} (h1 : amin ≤ p) (h2 : p ≤ amax)
    (h3 : bmin ≤ p) (h4 : p ≤ bmax) : overlapsIn amin amax bmin bmax = true := by
  simp only [Int32.le_iff_toInt_le] at h1 h2 h3 h4
  simp only [overlapsIn, Bool.not_eq_true', Bool.or_eq_false_iff, decide_eq_false_iff_not,
    gt_iff_lt, Int32.lt_iff_toInt_lt]
  omega

def Pos.OnMap (p : Pos) : Prop := Util.OnMap p.x ∧ Util.OnMap p.y ∧ Util.OnMap p.z

variable {I : AreaIndex} {s : AreaStore I}

theorem radius_toInt (s : AreaStore I) : s.radius.toInt = s.cacheblockRadius.toNat := by
  have := s.cacheblockRadius.toNat_lt
  exact Int32.toInt_ofNat_of_lt (by omega)

theorem overlaps_of_contains {d : Int32} {pos : Pos} (hpos : pos.OnMap) (hd : 0 < d.toInt)
    (hd' : d.toInt < 256) {a : Area} (h : a.containsPt pos = true) :
    areasOverlap
      ⟨(getContainerPos pos d).x * d, (getContainerPos pos d).y * d, (getContainerPos pos d).z * d⟩
      ⟨(getContainerPos pos d).x * d + d - 1, (getContainerPos pos d).y * d + d - 1,
        (getContainerPos pos d).z * d + d - 1⟩ a = true := by
  obtain ⟨hx, hy, hz⟩ := hpos
  obtain ⟨hx1, hx2⟩ := block_spans hx hd hd'
  obtain ⟨hy1, hy2⟩ := block_spans hy hd hd'
  obtain ⟨hz1, hz2⟩ := block_spans hz hd hd'
  simp only [Area.containsPt, Pos.le, Bool.and_eq_true, decide_eq_true_eq] at h
  obtain ⟨⟨⟨h1, h2⟩, h3⟩, ⟨⟨h4, h5⟩, h6⟩⟩ := h
  simp only [areasOverlap, Bool.and_eq_true]
  exact ⟨⟨overlapsIn_of_le hx1 hx2 h1 h4, overlapsIn_of_le hy1 hy2 h2 h5⟩,
    overlapsIn_of_le hz1 hz2 h3 h6⟩

/-- Looking through the areas of the block finds what looking for the position finds. -/
theorem cacheMiss_filter_perm (hindex : I.Indexes s.index s.areasMap)
    (hradius : 0 < s.cacheblockRadius.toNat) {pos : Pos} (hpos : pos.OnMap) :
    ((s.cacheMiss (getContainerPos pos s.radius)).filter
      (AreaIndex.pointed s.areasMap fun a => a.containsPt pos)).Perm
      (I.forPos s.index s.areasMap pos) := by
  have hr := radius_toInt s
  have hlt := s.cacheblockRadius.toNat_lt
  refine ((I.inArea_perm _ _ _ _ hindex).filter _).trans
    (List.Perm.trans ?_ (I.forPos_perm _ _ pos hindex).symm)
  refine (List.perm_ext_iff_of_nodup ((nodup_keys_filter _ _).filter _)
    (nodup_keys_filter _ _)).mpr fun id => ?_
  rw [List.mem_filter, mem_keys_filter, mem_keys_filter (f := fun a => a.containsPt pos),
    pointed_eq_true]
  refine ⟨fun h => h.2, fun h => ⟨?_, h⟩⟩
  obtain ⟨a, ha, hc⟩ := h
  exact ⟨a, ha, overlaps_of_contains hpos (by omega) (by omega) hc⟩

end Overlap

namespace AreaStore

variable {I : AreaIndex} {s : AreaStore I}

def KeyedById (m : AreaMap) : Prop := ∀ (id : UInt32) (a : Area), m[id]? = some a → a.id = id

/-- The structure has the areas of the map, and the cache, which is empty while it is disabled, has
the areas of its blocks. -/
structure WF (s : AreaStore I) : Prop where
  indexes : I.Indexes s.index s.areasMap
  ids : KeyedById s.areasMap
  radius : 0 < s.cacheblockRadius.toNat
  cache : s.resCache.Holds s.cacheMiss
  disabled : s.cacheEnabled = false → s.resCache.Empty

theorem wf_init (enabled : Bool) : ({ cacheEnabled := enabled } : AreaStore I).WF :=
  have hempty : LRUCache.Empty ({ limit := 1000 } : LRUCache Pos (List UInt32)) := ⟨rfl, rfl⟩
  have hradius : 0 < (64 : UInt8).toNat := by decide
  ⟨I.indexes_empty, fun id a h => by simp at h, hradius, hempty.holds _, fun _ => hempty⟩

/-- After a change the cache is emptied, if it was not empty already. -/
theorem wf_invalidate (hindex : I.Indexes s.index s.areasMap)
    (hids : KeyedById s.areasMap) (hradius : 0 < s.cacheblockRadius.toNat)
    (hdisabled : s.cacheEnabled = false → s.resCache.Empty) : s.invalidateCache.WF := by
  unfold invalidateCache
  split_ifs with he
  · have hempty := s.resCache.empty_invalidate
    exact ⟨hindex, hids, hradius, hempty.holds _, fun _ => hempty⟩
  · have hempty := hdisabled (by simpa using he)
    exact ⟨hindex, hids, hradius, hempty.holds _, fun _ => hempty⟩

theorem setCacheParams_wf (h : s.WF) (enabled : Bool) (blockRadius : UInt8) (limit : ℕ) :
    (s.setCacheParams enabled blockRadius limit).WF := by
  have hradius : 0 < (if blockRadius > 16 then blockRadius else 16 : UInt8).toNat := by
    split_ifs with hgt
    · exact Nat.lt_of_le_of_lt (Nat.zero_le _) (UInt8.lt_iff_toNat_lt.mp hgt)
    · decide
  exact wf_invalidate h.indexes h.ids hradius fun _ => s.resCache.empty_setLimit _

theorem ids_insert {m : AreaMap} (h : KeyedById m) (a : Area) : KeyedById (m.insert a.id a) := by
  intro id b hb
  rw [ExtTreeMap.getElem?_insert] at hb
  split_ifs at hb with hk
  · rw [← Option.some.inj hb]
    exact LawfulEqCmp.eq_of_compare hk
  · exact h id b hb

theorem emplace_wf (h : s.WF) (a : Area) : (s.emplace a).1.WF := by
  unfold emplace
  split_ifs with hin
  · exact h
  · exact wf_invalidate (I.indexes_insert _ _ _ h.indexes hin) (ids_insert h.ids _) h.radius
      h.disabled

theorem removeArea_wf (h : s.WF) (id : UInt32) : (s.removeArea id).1.WF := by
  unfold removeArea
  cases ha : s.areasMap[id]? with
  | none => exact h
  | some a =>
    refine wf_invalidate (I.indexes_remove _ _ _ _ h.indexes ha (h.ids id a ha))
      (fun k b hb => ?_) h.radius h.disabled
    rw [ExtTreeMap.getElem?_erase] at hb
    split_ifs at hb
    exact h.ids k b hb

theorem getAreasForPos_wf (h : s.WF) (pos : Pos) : (s.getAreasForPos pos).1.WF := by
  unfold getAreasForPos
  split_ifs with he
  · have hcache := (LRUCache.lookupCache_spec h.cache (getContainerPos pos s.radius)).2
    exact ⟨h.indexes, h.ids, h.radius, hcache, fun hd => by simp [he] at hd⟩
  · exact h

/-- With or without the cache a query finds the same areas. -/
theorem getAreasForPos_perm (h : s.WF) {pos : Pos} (hpos : pos.OnMap) :
    (s.getAreasForPos pos).2.Perm (I.forPos s.index s.areasMap pos) := by
  unfold getAreasForPos
  split_ifs with he
  · simp only
    rw [(LRUCache.lookupCache_spec h.cache (getContainerPos pos s.radius)).1]
    exact cacheMiss_filter_perm h.indexes h.radius hpos
  · rfl

/-- Two stores with the same areas, of which the second does not use its cache. -/
structure Same (s t : AreaStore I) : Prop where
  wf : s.WF
  areasMap : s.areasMap = t.areasMap
  index : s.index = t.index
  uncached : t.cacheEnabled = false

theorem invalidateCache_areasMap (s : AreaStore I) : s.invalidateCache.areasMap = s.areasMap := by
  unfold invalidateCache
  split_ifs <;> rfl

theorem invalidateCache_index (s : AreaStore I) : s.invalidateCache.index = s.index := by
  unfold invalidateCache
  split_ifs <;> rfl

theorem invalidateCache_cacheEnabled (s : AreaStore I) :
    s.invalidateCache.cacheEnabled = s.cacheEnabled := by
  unfold invalidateCache
  split_ifs <;> rfl

theorem getAreasForPos_areasMap (s : AreaStore I) (pos : Pos) :
    (s.getAreasForPos pos).1.areasMap = s.areasMap := by
  unfold getAreasForPos
  split_ifs <;> rfl

theorem getAreasForPos_index (s : AreaStore I) (pos : Pos) :
    (s.getAreasForPos pos).1.index = s.index := by
  unfold getAreasForPos
  split_ifs <;> rfl

def Asked (_ : AreaStore I) : AreaOp → Prop
  | .getAreasForPos pos => pos.OnMap
  | _ => True

theorem emplace_same {t : AreaStore I} (h : Same s t) (a : Area) :
    Same (s.emplace a).1 (t.emplace a).1 ∧ (s.emplace a).2 = (t.emplace a).2 := by
  have hwf := emplace_wf h.wf a
  unfold emplace at hwf ⊢
  simp only [h.areasMap, h.index] at hwf ⊢
  split_ifs at hwf ⊢
  · exact ⟨h, rfl⟩
  · refine ⟨⟨hwf, ?_, ?_, ?_⟩, rfl⟩
    · rw [invalidateCache_areasMap, invalidateCache_areasMap]
    · rw [invalidateCache_index, invalidateCache_index]
    · rw [invalidateCache_cacheEnabled]
      exact h.uncached

theorem insertArea_same {t : AreaStore I} (h : Same s t) (a : Area) :
    Same (s.insertArea a).1 (t.insertArea a).1 ∧ (s.insertArea a).2 = (t.insertArea a).2 := by
  have hid : s.assignId a = t.assignId a := by simp [assignId, h.areasMap]
  unfold insertArea
  rw [hid]
  exact emplace_same h _

theorem removeArea_same {t : AreaStore I} (h : Same s t) (id : UInt32) :
    Same (s.removeArea id).1 (t.removeArea id).1 ∧ (s.removeArea id).2 = (t.removeArea id).2 := by
  have hwf := removeArea_wf h.wf id
  unfold removeArea at hwf ⊢
  rw [h.areasMap] at hwf ⊢
  cases ha : t.areasMap[id]? with
  | none => exact ⟨h, rfl⟩
  | some a =>
    simp only [ha, h.index] at hwf ⊢
    refine ⟨⟨hwf, ?_, ?_, ?_⟩, trivial⟩
    · rw [invalidateCache_areasMap, invalidateCache_areasMap]
    · rw [invalidateCache_index, invalidateCache_index]
    · rw [invalidateCache_cacheEnabled]
      exact h.uncached

theorem step_same {t : AreaStore I} (h : Same s t) (op : AreaOp) (hop : s.Asked op) :
    Machine.Agree Same ((machine I true).step s op) ((machine I false).step t op) := by
  cases op with
  | insert mine maxe id data =>
    obtain ⟨hs, heq⟩ := insertArea_same h (Area.ofEdges mine maxe id data)
    refine ⟨hs, ?_⟩
    simp only [step, heq]
  | remove id =>
    obtain ⟨hs, heq⟩ := removeArea_same h id
    refine ⟨hs, ?_⟩
    simp only [step, heq]
  | setCacheParams enabled blockRadius limit =>
    refine ⟨⟨setCacheParams_wf h.wf _ _ _, ?_, ?_, ?_⟩, rfl⟩
    · simp only [step, setCacheParams, invalidateCache_areasMap, h.areasMap]
    · simp only [step, setCacheParams, invalidateCache_index, h.index]
    · simp only [step, setCacheParams, invalidateCache_cacheEnabled, Bool.and_false]
  | getAreasForPos pos =>
    have hperm := getAreasForPos_perm h.wf hop
    refine ⟨⟨getAreasForPos_wf h.wf pos, ?_, ?_, ?_⟩, ?_⟩
    · simp only [step, getAreasForPos_areasMap, h.areasMap]
    · simp only [step, getAreasForPos_index, h.index]
    · simp [step, getAreasForPos, h.uncached]
    · have ht : (t.getAreasForPos pos).2 = I.forPos s.index s.areasMap pos := by
        simp [getAreasForPos, h.uncached, h.areasMap, h.index]
      have heq : s.areasAt (s.getAreasForPos pos).2 = t.areasAt (t.getAreasForPos pos).2 := by
        rw [ht, areasAt, areasAt, h.areasMap]
        exact Multiset.coe_eq_coe.mpr ((h.areasMap ▸ hperm).filterMap _)
      exact congrArg AreaAnswer.areas heq
  | getAreasInArea minedge maxedge acceptOverlap =>
    refine ⟨h, ?_⟩
    simp only [step, areasAt, getAreasInArea, h.areasMap, h.index]
  | getArea id =>
    refine ⟨h, ?_⟩
    simp only [step, getArea, h.areasMap]
  | size =>
    refine ⟨h, ?_⟩
    simp only [step, size, h.areasMap]

theorem allowed_of_onMap {ops : List AreaOp}
    (h : ∀ pos, AreaOp.getAreasForPos pos ∈ ops → pos.OnMap) (s : AreaStore I) :
    (machine I true).Allowed Asked s ops := by
  induction ops generalizing s with
  | nil => trivial
  | cons op ops ih =>
    refine ⟨?_, ih (fun pos hpos => h pos (List.mem_cons_of_mem _ hpos)) _⟩
    cases op with
    | getAreasForPos pos => exact h pos List.mem_cons_self
    | _ => trivial

/-- Whatever finds the areas, the cache changes no answer of any run on the map. -/
theorem answers_cached_eq (I : AreaIndex) {ops : List AreaOp}
    (h : ∀ pos, AreaOp.getAreasForPos pos ∈ ops → pos.OnMap) :
    (machine I true).answers ops = (machine I false).answers ops := by
  have hsame : Same (machine I true).init (machine I false).init := ⟨wf_init true, rfl, rfl, rfl⟩
  exact Machine.answers_of_agree (fun _ _ op h hop => step_same h op hop) hsame (allowed_of_onMap h _)

/-- A corner of the map, asked for twice and again after its area is gone. -/
def cornerOps : List AreaOp :=
  let corner : Pos := ⟨-2147483008, 0, 2147483023⟩
  [.insert corner ⟨5, 5, 5⟩ U32_MAX [], .setCacheParams true 255 0, .getAreasForPos corner,
    .getAreasForPos corner, .remove 0, .getAreasForPos corner]

theorem answers_cached_eq_corner :
    (machine vectorIndex true).answers cornerOps = (machine vectorIndex false).answers cornerOps :=
  answers_cached_eq vectorIndex fun pos h => by
    have hpos : pos = ⟨-2147483008, 0, 2147483023⟩ := by simpa [cornerOps] using h
    subst hpos
    refine ⟨⟨?_, ?_⟩, ⟨?_, ?_⟩, ⟨?_, ?_⟩⟩ <;> decide

/-- After every run a `SpatialAreaStore` finds all areas at a position, each once. -/
theorem getAreasForPos_spatial (T : RTree) (ops : List AreaOp) (pos : { p : Pos // p.OnMap }) :
    let s := ops.foldl (fun s op => (s.step true op).1) ({} : AreaStore (spatialIndex T))
    (s.getAreasForPos pos).2.Perm
      ((s.areasMap.toList.filter fun e => e.2.containsPt pos).map Prod.fst) := by
  intro s
  have hwf : s.WF := by
    refine List.foldlRecOn ops _ (wf_init true) fun s h op _ => ?_
    cases op with
    | insert mine maxe id data => exact emplace_wf h _
    | remove id => exact removeArea_wf h id
    | setCacheParams enabled blockRadius limit => exact setCacheParams_wf h ..
    | getAreasForPos pos => exact getAreasForPos_wf h pos
    | _ => exact h
  exact (getAreasForPos_perm hwf pos.2).trans ((spatialIndex T).forPos_perm _ _ _ hwf.indexes)

end AreaStore

end Freeminer.Util
