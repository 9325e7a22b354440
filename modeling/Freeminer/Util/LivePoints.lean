import Mathlib.Data.List.AList
import Mathlib.Data.Fin.VecNotation
import Freeminer.Lib.Machine
import Freeminer.Util.KdTree

/-! `DynamicKdTrees` (`util/k_d_tree.h`): a forest of k-d-trees of sizes of successive powers of
two. Removed points are marked, and dropped when they are half of the points. -/

namespace Freeminer.Util

open Lib

structure DelEntry where
  treeIdx : ℕ
  inTree : ℕ

structure DynamicKdTrees (Dim : ℕ) (β Id : Type) [DecidableEq Id] where
  trees : List (KdTree Dim β Id) := []
  delEntries : AList fun _ : Id => DelEntry := ∅
  nEntries : ℕ := 0
  deleted : ℕ := 0

namespace DynamicKdTrees

variable {Dim : ℕ} [NeZero Dim] {β Id : Type} [LE β] [LT β] [DecidableLE β] [DecidableLT β]
  [Inhabited β] [Inhabited Id] [DecidableEq Id]

def updateDelEntries (s : DynamicKdTrees Dim β Id) (treeIdx : ℕ) : DynamicKdTrees Dim β Id :=
  { s with
    delEntries := (s.trees.getD treeIdx {}).foreach.foldl
      (fun entries x => entries.insert x.2.2 ⟨treeIdx, x.1⟩) s.delEntries }

/-- The loop of `insert`: the trees after it, and where the tree is planted. -/
def plant (tree : KdTree Dim β Id) : List (KdTree Dim β Id) → List (KdTree Dim β Id) × ℕ
  | [] => ([tree], 0)
  | t :: ts =>
    if t.cap = 0 then (tree :: ts, 0)
    else ({} :: (plant (tree.merge t) ts).1, (plant (tree.merge t) ts).2 + 1)

def insert (s : DynamicKdTrees Dim β Id) (point : Point Dim β) (id : Id) :
    DynamicKdTrees Dim β Id :=
  let planted := plant (.single point id) s.trees
  let s := { s with trees := planted.1 }.updateDelEntries planted.2
  { s with nEntries := s.nEntries + 1 }

/-- The new forest: a tree of `n` points for each tree of the old one that is not empty. -/
def replant (S : Sorter) : ℕ → List (KdTree Dim β Id) → List (Point Dim β × Id) →
    List (KdTree Dim β Id)
  | _, [], _ => []
  | n, t :: ts, live =>
    if t.cap > 0 then .build S (live.take n) :: replant S (2 * n) ts (live.drop n)
    else {} :: replant S (2 * n) ts live

/-- `shrink_to_half`; nothing where an assertion fails, and where there is no tree to shift out. -/
def shrinkToHalf (S : Sorter) (s : DynamicKdTrees Dim β Id) : Option (DynamicKdTrees Dim β Id) :=
  if s.nEntries < s.deleted then none
  else if s.nEntries - s.deleted ≠ s.nEntries / 2 then none
  else
    let nEntries := s.nEntries - s.deleted
    let live := s.trees.flatMap fun t => t.foreach.map Prod.snd
    if live.length ≠ nEntries then none
    else
      match s.trees with
      | [] => none
      | _ :: shifted =>
        let trees := replant S 1 shifted live
        some ((List.range trees.length).foldl updateDelEntries { trees, nEntries })

def remove (S : Sorter) (s : DynamicKdTrees Dim β Id) (id : Id) :
    Option (DynamicKdTrees Dim β Id) :=
  match s.delEntries.lookup id with
  | none => none
  | some it =>
    match (s.trees[it.treeIdx]?).bind fun tree => tree.remove it.inTree with
    | none => none
    | some tree =>
      let s := { s with
        trees := s.trees.set it.treeIdx tree
        delEntries := s.delEntries.erase id
        deleted := s.deleted + 1 }
      if s.deleted ≥ (s.nEntries + 1) / 2 then s.shrinkToHalf S else some s

def update (S : Sorter) (s : DynamicKdTrees Dim β Id) (newPos : Point Dim β) (id : Id) :
    Option (DynamicKdTrees Dim β Id) :=
  (s.remove S id).map fun s => s.insert newPos id

def rangeQuery (s : DynamicKdTrees Dim β Id) (min max : Point Dim β) : List (Point Dim β × Id) :=
  s.trees.flatMap fun tree => tree.rangeQuery min max

def size (s : DynamicKdTrees Dim β Id) : ℕ := s.nEntries - s.deleted

inductive Op (Dim : ℕ) (β Id : Type) where
  | insert (point : Point Dim β) (id : Id)
  | remove (id : Id)
  | update (newPos : Point Dim β) (id : Id)
  | rangeQuery (min max : Point Dim β)
  | size

inductive Answer (Dim : ℕ) (β Id : Type) where
  | done
  | found (points : Multiset (Point Dim β × Id))
  | count (n : ℕ)

def step (S : Sorter) (s : DynamicKdTrees Dim β Id) :
    Op Dim β Id → Option (DynamicKdTrees Dim β Id × Answer Dim β Id)
  | .insert point id => some (s.insert point id, .done)
  | .remove id => (s.remove S id).map fun s => (s, .done)
  | .update newPos id => (s.update S newPos id).map fun s => (s, .done)
  | .rangeQuery min max => some (s, .found (s.rangeQuery min max))
  | .size => some (s, .count s.size)

def machine (S : Sorter) :
    Machine (DynamicKdTrees Dim β Id) (Op Dim β Id) (Answer Dim β Id) where
  init := {}
  step := step S

end DynamicKdTrees

end Freeminer.Util

/-! A forest of k-d-trees is a set of points by id: what a query finds is what is live in the box,
and no assertion fails. -/

set_option linter.unusedSectionVars false

namespace Freeminer.Util

open Lib

variable {Dim : ℕ} [NeZero Dim] {β Id : Type} [LE β] [LT β] [DecidableLE β] [DecidableLT β]
  [Inhabited β] [Inhabited Id] [DecidableEq Id]

abbrev LivePoints (Dim : ℕ) (β Id : Type) := List (Point Dim β × Id)

namespace LivePoints

open DynamicKdTrees

def remove (l : LivePoints Dim β Id) (id : Id) : LivePoints Dim β Id := l.filter fun e => e.2 ≠ id

def step (l : LivePoints Dim β Id) : Op Dim β Id → LivePoints Dim β Id × Answer Dim β Id
  | .insert point id => ((point, id) :: l, .done)
  | .remove id => (l.remove id, .done)
  | .update newPos id => ((newPos, id) :: l.remove id, .done)
  | .rangeQuery min max => (l, .found (l.filter fun e => KdTree.InBox min max e.1 : List _))
  | .size => (l, .count l.length)

def machine : Machine (LivePoints Dim β Id) (Op Dim β Id) (Answer Dim β Id) where
  init := []
  step l op := some (l.step op)

/-- What is inserted is not live yet, and what is removed or moved is. -/
def Unique (l : LivePoints Dim β Id) : Op Dim β Id → Prop
  | .insert _ id => id ∉ l.map Prod.snd
  | .remove id => id ∈ l.map Prod.snd
  | .update _ id => id ∈ l.map Prod.snd
  | _ => True

end LivePoints

namespace DynamicKdTrees

section Slots

variable {k : ℕ} {tree : KdTree Dim β Id} {ts : List (KdTree Dim β Id)}

def Slots : ℕ → List (KdTree Dim β Id) → Prop
  | _, [] => True
  | k, t :: ts => (t.WF ∧ (t.cap = 0 ∨ t.cap = 2 ^ k)) ∧ Slots (k + 1) ts

def caps (ts : List (KdTree Dim β Id)) : ℕ := (ts.map KdTree.cap).sum

@[simp] theorem caps_nil : caps ([] : List (KdTree Dim β Id)) = 0 := rfl

@[simp] theorem caps_cons (t : KdTree Dim β Id) (ts : List (KdTree Dim β Id)) :
    caps (t :: ts) = t.cap + caps ts := List.sum_cons

theorem Slots.wf (h : Slots k ts) : ∀ t ∈ ts, t.WF := by
  induction ts generalizing k with
  | nil => exact fun t ht => absurd ht List.not_mem_nil
  | cons t ts ih =>
    intro t' ht'
    cases List.mem_cons.mp ht' with
    | inl heq => exact heq ▸ h.1.1
    | inr hmem => exact ih h.2 t' hmem

theorem live_of_cap_eq_zero {t : KdTree Dim β Id} (h : t.cap = 0) : t.live = [] := by
  simp [KdTree.live, h]

variable [Std.IsLinearPreorder β] [Std.LawfulOrderLT β]

structure Planted (k : ℕ) (tree : KdTree Dim β Id) (ts : List (KdTree Dim β Id))
    (r : List (KdTree Dim β Id) × ℕ) : Prop where
  slots : Slots k r.1
  caps : caps r.1 = tree.cap + caps ts
  live : (r.1.flatMap KdTree.live).Perm (tree.live ++ ts.flatMap KdTree.live)
  at_lt : r.2 < r.1.length
  before : ∀ j < r.2, ∀ t, r.1[j]? = some t → t.cap = 0
  after : ∀ j > r.2, r.1[j]? = ts[j]?

theorem plant_planted (ht : tree.WF) (hcap : tree.cap = 2 ^ k) (hts : Slots k ts)
    (hlt : tree.cap + caps ts < 65536) : Planted k tree ts (plant tree ts) := by
  induction ts generalizing k tree with
  | nil =>
    refine ⟨⟨⟨ht, Or.inr hcap⟩, trivial⟩, rfl, by simp [plant], by simp [plant],
      fun j hj => absurd hj (Nat.not_lt_zero j), fun j hj => ?_⟩
    have hj : 0 < j := hj
    simp [plant, Nat.pos_iff_ne_zero.mp hj]
  | cons t ts ih =>
    obtain ⟨⟨hwf, ht0⟩, hts⟩ := hts
    rw [caps_cons] at hlt
    unfold plant
    by_cases h0 : t.cap = 0
    · rw [if_pos h0]
      refine ⟨⟨⟨ht, Or.inr hcap⟩, hts⟩, ?_, ?_, Nat.zero_lt_succ _,
        fun j hj => absurd hj (Nat.not_lt_zero j), fun j hj => ?_⟩
      · simp [h0]
      · simp [live_of_cap_eq_zero h0]
      · obtain ⟨j, rfl⟩ := Nat.exists_eq_succ_of_ne_zero (Nat.pos_iff_ne_zero.mp hj)
        simp
    · have hpow : t.cap = 2 ^ k := ht0.resolve_left h0
      have hsum : tree.cap + t.cap = 2 ^ (k + 1) := by rw [hcap, hpow, pow_succ]; omega
      have hcm := KdTree.cap_merge tree t
      have hp := ih (KdTree.wf_merge ht hwf hsum (by omega)) (hcm.trans hsum) hts (by omega)
      rw [if_neg h0]
      refine ⟨⟨⟨KdTree.wf_empty, Or.inl rfl⟩, hp.slots⟩, ?_, ?_, Nat.succ_lt_succ hp.at_lt, ?_, ?_⟩
      · have := hp.caps
        have hzero : ({} : KdTree Dim β Id).cap = 0 := rfl
        simp only [caps_cons]
        omega
      · have hlive := hp.live
        rw [KdTree.live_merge ht, List.append_assoc] at hlive
        exact hlive
      · intro j hj t' ht'
        cases j with
        | zero => exact Option.some.inj ht' ▸ rfl
        | succ j => exact hp.before j (Nat.lt_of_succ_lt_succ hj) t' ht'
      · intro j hj
        cases j with
        | zero => exact absurd hj (Nat.not_lt_zero _)
        | succ j => exact hp.after j (Nat.lt_of_succ_lt_succ hj)

theorem two_dvd_caps (h : Slots (k + 1) ts) : 2 ∣ caps ts := by
  induction ts generalizing k with
  | nil => exact Nat.dvd_zero 2
  | cons t ts ih =>
    rw [caps_cons]
    apply Nat.dvd_add _ (ih h.2)
    cases h.1.2 with
    | inl h0 => exact h0 ▸ Nat.dvd_zero 2
    | inr hpow => exact hpow ▸ Dvd.intro_left _ (pow_succ 2 k).symm

/-- The new forest has the live points, one slot lower. -/
theorem replant_spec (S : Sorter) (live : List (Point Dim β × Id)) (h : Slots (k + 1) ts)
    (hlen : 2 * live.length = caps ts) (hlt : live.length < 65536) :
    Slots k (replant S (2 ^ k) ts live) ∧
      (replant S (2 ^ k) ts live).flatMap KdTree.live = live ∧
      caps (replant S (2 ^ k) ts live) = live.length := by
  induction ts generalizing k live with
  | nil =>
    have h0 : live.length = 0 := by simpa using hlen
    rw [List.eq_nil_of_length_eq_zero h0]
    exact ⟨trivial, rfl, rfl⟩
  | cons t ts ih =>
    obtain ⟨⟨-, ht⟩, hts⟩ := h
    rw [caps_cons] at hlen
    have hnext : 2 * 2 ^ k = 2 ^ (k + 1) := (pow_succ' 2 k).symm
    unfold replant
    rw [hnext]
    by_cases h0 : t.cap = 0
    · rw [if_neg (by omega)]
      obtain ⟨hs, hl, hc⟩ := ih live hts (by omega) hlt
      exact ⟨⟨⟨KdTree.wf_empty, Or.inl rfl⟩, hs⟩, hl, (Nat.zero_add _).trans hc⟩
    · have hpow : t.cap = 2 ^ (k + 1) := ht.resolve_left h0
      have htake : (live.take (2 ^ k)).length = 2 ^ k := by
        rw [List.length_take]
        omega
      obtain ⟨hwf, hbuilt⟩ := KdTree.wf_build S htake (by omega)
      have hcap : (KdTree.build S (live.take (2 ^ k))).cap = 2 ^ k :=
        (List.length_map ..).trans htake
      obtain ⟨hs, hl, hc⟩ := ih (live.drop (2 ^ k)) hts
        (by rw [List.length_drop]; omega) (by rw [List.length_drop]; omega)
      rw [if_pos (Nat.pos_of_ne_zero h0)]
      refine ⟨⟨⟨hwf, Or.inr hcap⟩, hs⟩, ?_, ?_⟩
      · rw [List.flatMap_cons, hbuilt, hl, List.take_append_drop]
      · rw [caps_cons, hc, hcap, List.length_drop]
        omega

end Slots

section Located

variable {s : DynamicKdTrees Dim β Id} {ts : List (KdTree Dim β Id)} {id : Id} {e e' : DelEntry}

def Located (ts : List (KdTree Dim β Id)) (id : Id) (e : DelEntry) : Prop :=
  ∃ t p, ts[e.treeIdx]? = some t ∧ t.At e.inTree (p, id)

def liveIds (ts : List (KdTree Dim β Id)) : List Id := (ts.flatMap KdTree.live).map Prod.snd

theorem at_unique {t : KdTree Dim β Id} {i j : ℕ} {p q : Point Dim β}
    (h : (t.live.map Prod.snd).Nodup) (hi : t.At i (p, id)) (hj : t.At j (q, id)) : i = j := by
  unfold KdTree.live at h
  rw [List.map_map] at h
  apply List.inj_on_of_nodup_map h
  · exact List.mem_filter.mpr ⟨List.mem_range.mpr hi.1, hi.2.1⟩
  · exact List.mem_filter.mpr ⟨List.mem_range.mpr hj.1, hj.2.1⟩
  · simp [hi.2.2, hj.2.2]

theorem located_unique (h : (liveIds ts).Nodup) (he : Located ts id e) (he' : Located ts id e') :
    e = e' := by
  obtain ⟨t, p, ht, hat⟩ := he
  obtain ⟨t', p', ht', hat'⟩ := he'
  unfold liveIds at h
  rw [List.map_flatMap, List.nodup_flatMap] at h
  obtain ⟨hone, htwo⟩ := h
  have hmem : id ∈ t.live.map Prod.snd :=
    List.mem_map_of_mem (f := Prod.snd) (KdTree.mem_live.mpr ⟨_, hat⟩)
  have hmem' : id ∈ t'.live.map Prod.snd :=
    List.mem_map_of_mem (f := Prod.snd) (KdTree.mem_live.mpr ⟨_, hat'⟩)
  obtain ⟨hlt, hget⟩ := List.getElem?_eq_some_iff.mp ht
  obtain ⟨hlt', hget'⟩ := List.getElem?_eq_some_iff.mp ht'
  rw [List.pairwise_iff_getElem] at htwo
  have htree : e.treeIdx = e'.treeIdx := by
    rcases Nat.lt_trichotomy e.treeIdx e'.treeIdx with h | h | h
    · have := htwo _ _ hlt hlt' h
      rw [hget, hget'] at this
      exact absurd hmem' (this hmem)
    · exact h
    · have := htwo _ _ hlt' hlt h
      rw [hget, hget'] at this
      exact absurd hmem (this hmem')
  have htt : t = t' := by
    rw [htree, ht'] at ht
    exact (Option.some.inj ht).symm
  subst htt
  have hin := at_unique (hone t (List.mem_of_getElem? ht)) hat hat'
  cases e
  cases e'
  simp only at htree hin
  rw [htree, hin]

theorem mem_liveIds : id ∈ liveIds ts ↔ ∃ e, Located ts id e := by
  unfold liveIds
  constructor
  · intro h
    obtain ⟨x, hx, rfl⟩ := List.mem_map.mp h
    obtain ⟨t, ht, hx⟩ := List.mem_flatMap.mp hx
    obtain ⟨i, hi⟩ := KdTree.mem_live.mp hx
    obtain ⟨k, hk⟩ := List.getElem?_of_mem ht
    exact ⟨⟨k, i⟩, t, x.1, hk, hi⟩
  · rintro ⟨e, t, p, ht, hat⟩
    exact List.mem_map.mpr ⟨(p, id), List.mem_flatMap.mpr
      ⟨t, List.mem_of_getElem? ht, KdTree.mem_live.mpr ⟨_, hat⟩⟩, rfl⟩

/-- Entries that are written one after the other, of which the last one counts. -/
theorem lookup_foldl_insert (l : List (ℕ × Point Dim β × Id)) (k : ℕ)
    (m : AList fun _ : Id => DelEntry) (id : Id) :
    (l.foldl (fun m x => m.insert x.2.2 ⟨k, x.1⟩) m).lookup id = m.lookup id ∧
        (∀ x ∈ l, x.2.2 ≠ id) ∨
      ∃ x ∈ l, x.2.2 = id ∧
        (l.foldl (fun m x => m.insert x.2.2 ⟨k, x.1⟩) m).lookup id = some ⟨k, x.1⟩ := by
  induction l generalizing m with
  | nil => exact Or.inl ⟨rfl, fun x hx => absurd hx List.not_mem_nil⟩
  | cons y l ih =>
    rw [List.foldl_cons]
    rcases ih (m.insert y.2.2 ⟨k, y.1⟩) with ⟨heq, hne⟩ | ⟨x, hx, hid, heq⟩
    · by_cases hy : y.2.2 = id
      · refine Or.inr ⟨y, List.mem_cons_self, hy, ?_⟩
        rw [heq, hy, AList.lookup_insert]
      · refine Or.inl ⟨?_, fun x hx => ?_⟩
        · rw [heq, AList.lookup_insert_ne (Ne.symm hy)]
        · cases List.mem_cons.mp hx with
          | inl h => exact h ▸ hy
          | inr h => exact hne x h
    · exact Or.inr ⟨x, List.mem_cons_of_mem _ hx, hid, heq⟩

@[simp] theorem updateDelEntries_trees (s : DynamicKdTrees Dim β Id) (k : ℕ) :
    (s.updateDelEntries k).trees = s.trees := rfl

/-- The entries of one tree are written, and the others stay. -/
theorem updateDelEntries_lookup (h : (liveIds s.trees).Nodup) (he : Located s.trees id e) (k : ℕ) :
    (s.updateDelEntries k).delEntries.lookup id =
      if e.treeIdx = k then some e else s.delEntries.lookup id := by
  have hcases := lookup_foldl_insert (s.trees.getD k {}).foreach k s.delEntries id
  change (_ = s.delEntries.lookup id ∧ _) ∨ _ at hcases
  have hplace : ∀ x ∈ (s.trees.getD k {}).foreach, x.2.2 = id → e = ⟨k, x.1⟩ := by
    intro x hx hid
    have hat := KdTree.mem_foreach.mp hx
    have hk : s.trees[k]? = some (s.trees.getD k {}) := by
      rw [List.getD_eq_getElem?_getD]
      cases hs : s.trees[k]? with
      | some t => rfl
      | none =>
        rw [List.getD_eq_getElem?_getD, hs] at hat
        exact absurd hat.1 (Nat.not_lt_zero _)
    apply located_unique h he
    exact ⟨_, x.2.1, hk, hid ▸ hat⟩
  split_ifs with hk
  · rcases hcases with ⟨-, hne⟩ | ⟨x, hx, hid, heq⟩
    · obtain ⟨t, p, ht, hat⟩ := he
      rw [hk] at ht
      have hmem : (e.inTree, p, id) ∈ (s.trees.getD k {}).foreach := by
        rw [List.getD_eq_getElem?_getD, ht]
        exact KdTree.mem_foreach.mpr hat
      exact absurd rfl (hne _ hmem)
    · rw [hplace x hx hid]
      exact heq
  · rcases hcases with ⟨heq, -⟩ | ⟨x, hx, hid, -⟩
    · exact heq
    · have := hplace x hx hid
      exact absurd (congrArg DelEntry.treeIdx this) hk

theorem updateAll_lookup (h : (liveIds s.trees).Nodup) (he : Located s.trees id e) (n : ℕ) :
    ((List.range n).foldl updateDelEntries s).trees = s.trees ∧ (e.treeIdx < n →
      ((List.range n).foldl updateDelEntries s).delEntries.lookup id = some e) := by
  induction n with
  | zero => exact ⟨rfl, fun h => absurd h (Nat.not_lt_zero _)⟩
  | succ n ih =>
    rw [List.range_succ, List.foldl_append, List.foldl_cons, List.foldl_nil]
    refine ⟨ih.1, fun hlt => ?_⟩
    rw [updateDelEntries_lookup (e := e) (by rwa [ih.1]) (by rwa [ih.1])]
    split_ifs with hk
    · rfl
    · exact ih.2 (by omega)

end Located

section Invariant

variable {s : DynamicKdTrees Dim β Id} {ts : List (KdTree Dim β Id)} {live : LivePoints Dim β Id}
  {id : Id} {k i : ℕ}

/-- The forest has the live points, and fewer than half of what it has is marked. -/
structure Inv (s : DynamicKdTrees Dim β Id) (live : LivePoints Dim β Id) : Prop where
  slots : Slots 0 s.trees
  entries : s.nEntries = caps s.trees
  size : s.nEntries = s.deleted + live.length
  points : (s.trees.flatMap KdTree.live).Perm live
  nodup : (live.map Prod.snd).Nodup
  located : ∀ id e, Located s.trees id e → s.delEntries.lookup id = some e
  half : 2 * s.deleted < s.nEntries ∨ s.nEntries = 0

theorem inv_init : Inv ({} : DynamicKdTrees Dim β Id) [] := by
  refine ⟨trivial, rfl, rfl, List.Perm.refl _, List.nodup_nil, fun id e h => ?_, Or.inr rfl⟩
  obtain ⟨t, p, ht, -⟩ := h
  simp at ht

theorem liveIds_perm (h : (ts.flatMap KdTree.live).Perm live) :
    (liveIds ts).Perm (live.map Prod.snd) := h.map _

theorem Slots.set {t t' : KdTree Dim β Id} (h : Slots k ts) (ht : ts[i]? = some t) (hwf : t'.WF)
    (hcap : t'.cap = t.cap) : Slots k (ts.set i t') ∧ caps (ts.set i t') = caps ts := by
  induction ts generalizing k i with
  | nil => simp at ht
  | cons u ts ih =>
    cases i with
    | zero =>
      obtain rfl := Option.some.inj ht
      refine ⟨⟨⟨hwf, hcap ▸ h.1.2⟩, h.2⟩, ?_⟩
      rw [List.set_cons_zero, caps_cons, caps_cons, hcap]
    | succ i =>
      obtain ⟨hs, hc⟩ := ih h.2 ht
      refine ⟨⟨h.1, hs⟩, ?_⟩
      rw [List.set_cons_succ, caps_cons, caps_cons, hc]

theorem flatMap_set_perm {t t' : KdTree Dim β Id} {x : Point Dim β × Id} (ht : ts[i]? = some t)
    (hlive : t.live.Perm (x :: t'.live)) :
    (ts.flatMap KdTree.live).Perm (x :: (ts.set i t').flatMap KdTree.live) := by
  induction ts generalizing i with
  | nil => simp at ht
  | cons u ts ih =>
    cases i with
    | zero =>
      obtain rfl := Option.some.inj ht
      exact hlive.append_right _
    | succ i =>
      rw [List.set_cons_succ, List.flatMap_cons, List.flatMap_cons]
      exact ((ih ht).append_left u.live).trans List.perm_middle

theorem located_set {t t' : KdTree Dim β Id} {e : DelEntry} (ht : ts[i]? = some t) {j : ℕ}
    (hat : ∀ m x, t'.At m x ↔ m ≠ j ∧ t.At m x) (h : Located (ts.set i t') id e) :
    Located ts id e ∧ e ≠ ⟨i, j⟩ := by
  obtain ⟨u, p, hu, hin⟩ := h
  rw [List.getElem?_set] at hu
  by_cases hi : i = e.treeIdx
  · have hlen : e.treeIdx < ts.length := (List.getElem?_eq_some_iff.mp (hi ▸ ht)).1
    rw [if_pos hi, if_pos (hi ▸ hlen)] at hu
    obtain rfl := Option.some.inj hu
    obtain ⟨hne, hin⟩ := (hat _ _).mp hin
    exact ⟨⟨t, p, hi ▸ ht, hin⟩, fun he => hne (congrArg DelEntry.inTree he)⟩
  · rw [if_neg hi] at hu
    exact ⟨⟨u, p, hu, hin⟩, fun he => hi (congrArg DelEntry.treeIdx he).symm⟩

variable [Std.IsLinearPreorder β] [Std.LawfulOrderLT β]

theorem insert_inv (h : Inv s live) (point : Point Dim β) (hid : id ∉ live.map Prod.snd)
    (hroom : s.nEntries + 1 < 65536) : Inv (s.insert point id) ((point, id) :: live) := by
  have hcap : (KdTree.single point id).cap = 2 ^ 0 := rfl
  have hp := plant_planted (KdTree.wf_single point id) hcap h.slots (by
    have := h.entries
    omega)
  have hlive : ((plant (.single point id) s.trees).1.flatMap KdTree.live).Perm
      ((point, id) :: live) := by
    refine hp.live.trans ?_
    rw [KdTree.live_single]
    exact h.points.cons _
  have hnodup : (((point, id) :: live).map Prod.snd).Nodup := List.nodup_cons.mpr ⟨hid, h.nodup⟩
  have hids := (liveIds_perm hlive).nodup_iff.mpr hnodup
  refine ⟨hp.slots, ?_, ?_, hlive, hnodup, fun id' e he => ?_, Or.inl ?_⟩
  · have := h.entries
    have := hp.caps
    simp only [insert]
    change s.nEntries + 1 = caps (plant (.single point id) s.trees).1
    omega
  · have := h.size
    change s.nEntries + 1 = s.deleted + (live.length + 1)
    omega
  · change Located (plant (.single point id) s.trees).1 id' e at he
    refine (updateDelEntries_lookup (s := { s with trees := (plant (.single point id) s.trees).1 })
      hids he _).trans ?_
    split_ifs with hk
    · rfl
    · -- the other trees are as before, and those before it are empty
      obtain ⟨t, p, ht, hat⟩ := he
      rcases Nat.lt_or_gt_of_ne hk with hlt | hgt
      · have := hp.before _ hlt t ht
        exact absurd hat.1 (by omega)
      · exact h.located id' e ⟨t, p, (hp.after _ hgt).symm.trans ht, hat⟩
  · have := h.size
    have := h.half
    change 2 * s.deleted < s.nEntries + 1
    omega

/-- What `remove` leaves before a shrinking. -/
structure Marked (s : DynamicKdTrees Dim β Id) (live : LivePoints Dim β Id) : Prop where
  slots : Slots 0 s.trees
  entries : s.nEntries = caps s.trees
  size : s.nEntries = s.deleted + live.length
  points : (s.trees.flatMap KdTree.live).Perm live
  nodup : (live.map Prod.snd).Nodup

/-- A forest that is half marked shrinks to its live points. -/
theorem shrinkToHalf_inv (S : Sorter) (h : Marked s live) (hhalf : s.deleted = (s.nEntries + 1) / 2)
    (hpos : 0 < s.nEntries) (hroom : s.nEntries < 65536) :
    ∃ s', s.shrinkToHalf S = some s' ∧ Inv s' live ∧ s'.nEntries < 65536 := by
  have hsize := h.size
  have hents := h.entries
  have hnum : s.nEntries - s.deleted = live.length := by omega
  have hlen : (s.trees.flatMap KdTree.live).length = live.length := h.points.length_eq
  cases htrees : s.trees with
  | nil =>
    rw [htrees] at hents
    exact absurd hents (by simp; omega)
  | cons t ts =>
    have hslots := h.slots
    rw [htrees] at hslots hents
    rw [caps_cons] at hents
    obtain ⟨⟨-, ht⟩, hts⟩ := hslots
    have heven := two_dvd_caps hts
    have hcap : t.cap = 0 ∨ t.cap = 1 := ht
    have hspec := replant_spec S (k := 0) (s.trees.flatMap KdTree.live) hts (by omega)
      (by omega)
    obtain ⟨hs, hl, hc⟩ := hspec
    let trees := replant S (2 ^ 0) ts (s.trees.flatMap KdTree.live)
    let s' : DynamicKdTrees Dim β Id := { trees, nEntries := live.length }
    have hids : (liveIds s'.trees).Nodup := by
      have hperm : (trees.flatMap KdTree.live).Perm live := hl ▸ h.points
      exact (liveIds_perm hperm).nodup_iff.mpr h.nodup
    have hshrunk : s.shrinkToHalf S =
        some ((List.range trees.length).foldl updateDelEntries s') := by
      have hforeach : (s.trees.flatMap fun t => t.foreach.map Prod.snd) =
          s.trees.flatMap KdTree.live := by
        simp only [KdTree.map_foreach]
      unfold shrinkToHalf
      rw [if_neg (by omega), if_neg (by omega)]
      simp only [hforeach]
      rw [if_neg (by omega), hnum]
      simp only [htrees]
      rw [← htrees]
      rfl
    have hfields : ∀ n, ((List.range n).foldl updateDelEntries s').trees = trees ∧
        ((List.range n).foldl updateDelEntries s').nEntries = live.length ∧
        ((List.range n).foldl updateDelEntries s').deleted = 0 := by
      intro n
      induction n with
      | zero => exact ⟨rfl, rfl, rfl⟩
      | succ n ih =>
        rw [List.range_succ, List.foldl_append]
        exact ih
    obtain ⟨hft, hfn, hfd⟩ := hfields trees.length
    refine ⟨_, hshrunk, ⟨?_, ?_, ?_, ?_, h.nodup, fun id e he => ?_, ?_⟩, ?_⟩
    · rw [hft]
      exact hs
    · rw [hft, hfn]
      exact hlen.symm.trans hc.symm
    · rw [hfn, hfd]
      omega
    · rw [hft]
      exact (List.Perm.of_eq hl).trans h.points
    · rw [hft] at he
      obtain ⟨u, p, hu, hat⟩ := he
      exact (updateAll_lookup (s := s') hids ⟨u, p, hu, hat⟩ _).2
        (List.getElem?_eq_some_iff.mp hu).1
    · rw [hfn, hfd]
      omega
    · rw [hfn]
      omega

theorem remove_inv (S : Sorter) (h : Inv s live) (hid : id ∈ live.map Prod.snd)
    (hroom : s.nEntries < 65536) :
    ∃ s', s.remove S id = some s' ∧ Inv s' (live.remove id) ∧ s'.nEntries < 65536 := by
  have hids := (liveIds_perm h.points).nodup_iff.mpr h.nodup
  obtain ⟨e, he⟩ := mem_liveIds.mp ((liveIds_perm h.points).mem_iff.mpr hid)
  have hlook := h.located id e he
  obtain ⟨t, p, ht, hat⟩ := he
  obtain ⟨t', hr, hwf, hcap, hlive, hat'⟩ :=
    KdTree.remove_spec (h.slots.wf t (List.mem_of_getElem? ht)) hat
  obtain ⟨hslots, hcaps⟩ := h.slots.set ht hwf hcap
  have hperm := flatMap_set_perm ht hlive
  -- the live points that are left
  have hrest : ((s.trees.set e.treeIdx t').flatMap KdTree.live).Perm (live.remove id) := by
    have hcons := (h.points.symm.trans hperm)
    have hnot : id ∉ ((s.trees.set e.treeIdx t').flatMap KdTree.live).map Prod.snd :=
      (List.nodup_cons.mp ((hcons.map Prod.snd).nodup_iff.mp h.nodup)).1
    have hfilter := hcons.filter fun x => x.2 ≠ id
    rw [List.filter_cons_of_neg (by simp)] at hfilter
    refine (hfilter.trans (List.Perm.of_eq (List.filter_eq_self.mpr fun x hx => ?_))).symm
    simp only [ne_eq, decide_not, Bool.not_eq_true', decide_eq_false_iff_not]
    intro hx'
    exact hnot (hx' ▸ List.mem_map_of_mem hx)
  have hlen : live.length = (live.remove id).length + 1 := by
    rw [← hrest.length_eq, ← h.points.length_eq, hperm.length_eq, List.length_cons]
  have hsize := h.size
  have hhalf := h.half
  have hnodup : ((live.remove id).map Prod.snd).Nodup :=
    h.nodup.sublist (List.filter_sublist.map _)
  let s₁ : DynamicKdTrees Dim β Id := { s with
    trees := s.trees.set e.treeIdx t'
    delEntries := s.delEntries.erase id
    deleted := s.deleted + 1 }
  have hm : Marked s₁ (live.remove id) := by
    refine ⟨hslots, h.entries.trans hcaps.symm, ?_, hrest, hnodup⟩
    change s.nEntries = s.deleted + 1 + _
    omega
  have hremove : s.remove S id =
      if s.deleted + 1 ≥ (s.nEntries + 1) / 2 then s₁.shrinkToHalf S else some s₁ := by
    simp only [remove, hlook, ht, Option.bind_some, hr]
    rfl
  rw [hremove]
  split_ifs with hge
  · apply shrinkToHalf_inv S hm
    · change s.deleted + 1 = (s.nEntries + 1) / 2
      omega
    · change 0 < s.nEntries
      omega
    · exact hroom
  · refine ⟨s₁, rfl, ⟨hm.slots, hm.entries, hm.size, hm.points, hm.nodup, fun id' e' he' => ?_, ?_⟩,
      hroom⟩
    · obtain ⟨hold, hne⟩ := located_set ht hat' he'
      have hid' : id' ≠ id := by
        intro heq
        subst heq
        exact hne (located_unique hids hold ⟨t, p, ht, hat⟩)
      exact (AList.lookup_erase_ne hid').trans (h.located id' e' hold)
    · change 2 * (s.deleted + 1) < s.nEntries ∨ _
      omega

theorem rangeQuery_perm (h : Inv s live) (min max : Point Dim β) :
    (s.rangeQuery min max).Perm (live.filter fun e => KdTree.InBox min max e.1) := by
  refine List.Perm.trans ?_ (h.points.filter _)
  have hwf := h.slots.wf
  unfold rangeQuery
  rw [List.filter_flatMap]
  exact List.Perm.flatMap_left _ fun t ht => KdTree.rangeQuery_perm (hwf t ht) min max

/-- The entries, live and deleted, are fewer than 65536 after the call. -/
def Room (S : Sorter) (s : DynamicKdTrees Dim β Id) (op : Op Dim β Id) : Prop :=
  (s.step S op).elim True fun r => r.1.nEntries < 65536

theorem step_agree (S : Sorter) (op : Op Dim β Id) (h : Inv s live ∧ s.nEntries < 65536)
    (hroom : s.Room S op) (hids : live.Unique op) :
    Machine.Agree (fun s live => Inv s live ∧ s.nEntries < 65536) ((machine S).step s op)
      (LivePoints.machine.step live op) := by
  obtain ⟨hinv, hlt⟩ := h
  cases op with
  | insert point id => exact ⟨⟨insert_inv hinv point hids hroom, hroom⟩, rfl⟩
  | remove id =>
    obtain ⟨s', hs', hinv', hlt'⟩ := remove_inv S hinv hids hlt
    simp only [machine, step, hs', Option.map_some]
    exact ⟨⟨hinv', hlt'⟩, rfl⟩
  | update newPos id =>
    obtain ⟨s', hs', hinv', -⟩ := remove_inv S hinv hids hlt
    have hnot : id ∉ (live.remove id).map Prod.snd := by
      intro hin
      obtain ⟨x, hx, hid⟩ := List.mem_map.mp hin
      exact absurd hid (of_decide_eq_true (List.mem_filter.mp hx).2)
    have hroom' : (s'.insert newPos id).nEntries < 65536 := by
      simpa [Room, step, update, hs'] using hroom
    simp only [machine, step, update, hs', Option.map_some]
    exact ⟨⟨insert_inv hinv' newPos hnot hroom', hroom'⟩, rfl⟩
  | rangeQuery min max =>
    refine ⟨⟨hinv, hlt⟩, ?_⟩
    exact congrArg Answer.found (Multiset.coe_eq_coe.mpr (rangeQuery_perm hinv min max))
  | size =>
    have hsize := hinv.size
    refine ⟨⟨hinv, hlt⟩, ?_⟩
    exact congrArg Answer.count (by unfold size; omega)

/-- Every call is answered as by the set of the live points; in particular no assertion fails. -/
theorem answers_live_eq (S : Sorter) {ops : List (Op Dim β Id)}
    (hids : (LivePoints.machine : Machine (LivePoints Dim β Id) _ _).Allowed LivePoints.Unique []
      ops)
    (hroom : (machine S).Allowed (Room S) {} ops) :
    (machine S).answers ops = LivePoints.machine.answers ops := by
  have hstart : Inv ({} : DynamicKdTrees Dim β Id) [] ∧
      ({} : DynamicKdTrees Dim β Id).nEntries < 65536 := ⟨inv_init, Nat.zero_lt_succ _⟩
  exact (Machine.agree_run_both (fun _ _ op h hr hu => step_agree S op h hr hu) ops hstart hroom
    hids).1

/-- Points that coincide, a move that shrinks the forest, and one id used again. -/
def reuseOps : List (Op 2 ℤ ℕ) :=
  [.insert ![1, 5] 1, .insert ![1, 5] 2, .insert ![3, -2] 3, .insert ![0, 0] 4,
    .rangeQuery ![0, 0] ![3, 5], .update ![2, 2] 2, .remove 1, .insert ![9, 9] 1, .remove 3, .size,
    .rangeQuery ![0, 0] ![9, 9]]

instance (l : LivePoints 2 ℤ ℕ) : DecidablePred l.Unique
  | .insert _ id => inferInstanceAs (Decidable (id ∉ l.map Prod.snd))
  | .remove id => inferInstanceAs (Decidable (id ∈ l.map Prod.snd))
  | .update _ id => inferInstanceAs (Decidable (id ∈ l.map Prod.snd))
  | .rangeQuery _ _ => .isTrue trivial
  | .size => .isTrue trivial

instance (S : Sorter) (s : DynamicKdTrees 2 ℤ ℕ) : DecidablePred (s.Room S) := fun op =>
  inferInstanceAs (Decidable ((s.step S op).elim True fun r => r.1.nEntries < 65536))

theorem answers_live_eq_reuse :
    (machine stableSorter).answers reuseOps = LivePoints.machine.answers reuseOps :=
  answers_live_eq stableSorter (by decide) (by decide)

end Invariant

end DynamicKdTrees

end Freeminer.Util
