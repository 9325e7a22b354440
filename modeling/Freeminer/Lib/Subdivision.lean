import Mathlib.Data.List.Basic

/-! Loops that stop early, and subdividing a cell until a test says to stop: the cells at which it stops, and going down to the
one that contains a point. -/

namespace Freeminer.Lib

variable {σ α β C P : Type*}

/-- Goes through the list until `f` returns true. -/
def untilStop (f : σ → α → Bool × σ) : List α → σ → Bool × σ
  | [], s => (false, s)
  | a :: as, s =>
    match f s a with
    | (true, s) => (true, s)
    | (false, s) => untilStop f as s

def leaves (isLeaf : C → Bool) (split : C → List C) : ℕ → C → List C
  | 0, _ => []
  | n + 1, c => if isLeaf c then [c] else (split c).flatMap (leaves isLeaf split n)

def locate (contains : C → P → Bool) (isLeaf : C → Bool) (split : C → List C) (p : P) :
    ℕ → C → Option C
  | 0, _ => none
  | n + 1, c =>
    if !contains c p then none
    else if isLeaf c then some c
    else (split c).findSome? (locate contains isLeaf split p n)

def Disjoint (contains : C → P → Bool) (c d : C) : Prop :=
  ∀ p, contains c p = true → contains d p = false

/-- A cell of depth `n` is a leaf, or its parts have a smaller depth, cover it and do not overlap. -/
structure Subdivides (contains : C → P → Bool) (isLeaf : C → Bool) (split : C → List C)
    (Node : ℕ → C → Prop) : Prop where
  stop : ∀ c, Node 0 c → isLeaf c = true
  parts : ∀ n c, Node (n + 1) c → isLeaf c = false → ∀ d ∈ split c, Node n d
  cover : ∀ n c, Node (n + 1) c → isLeaf c = false →
    ∀ p, contains c p = true ↔ ∃ d ∈ split c, contains d p = true
  disjoint : ∀ n c, Node (n + 1) c → isLeaf c = false → (split c).Pairwise (Disjoint contains)

theorem untilStop_append (f : σ → α → Bool × σ) (l m : List α) (s : σ) :
    untilStop f (l ++ m) s =
      match untilStop f l s with
      | (true, s) => (true, s)
      | (false, s) => untilStop f m s := by
  induction l generalizing s with
  | nil => rfl
  | cons a l ih =>
    rw [List.cons_append, untilStop, untilStop]
    obtain ⟨stop, s'⟩ := f s a
    cases stop with
    | true => rfl
    | false => exact ih s'

theorem untilStop_flatMap (f : σ → β → Bool × σ) (g : α → List β) (l : List α) (s : σ) :
    untilStop f (l.flatMap g) s = untilStop (fun s a => untilStop f (g a) s) l s := by
  induction l generalizing s with
  | nil => rfl
  | cons a l ih =>
    rw [List.flatMap_cons, untilStop_append, untilStop]
    obtain ⟨stop, s'⟩ := untilStop f (g a) s
    cases stop with
    | true => rfl
    | false => exact ih s'

theorem untilStop_map (f : σ → β → Bool × σ) (g : α → β) (l : List α) (s : σ) :
    untilStop f (l.map g) s = untilStop (fun s a => f s (g a)) l s := by
  induction l generalizing s with
  | nil => rfl
  | cons a l ih =>
    rw [List.map_cons, untilStop, untilStop]
    obtain ⟨stop, s'⟩ := f s (g a)
    cases stop with
    | true => rfl
    | false => exact ih s'

/-- A loop that never stops collects the list. -/
theorem untilStop_collect (l s : List α) :
    untilStop (fun s a => (false, s ++ [a])) l s = (false, s ++ l) := by
  induction l generalizing s with
  | nil => rw [List.append_nil, untilStop]
  | cons a l ih =>
    have hstep := ih (s ++ [a])
    rw [List.append_assoc, List.singleton_append] at hstep
    exact hstep

variable {contains : C → P → Bool} {isLeaf : C → Bool} {split : C → List C} {Node : ℕ → C → Prop}
  {n : ℕ} {c l : C} {p : P}

theorem leaves_of_isLeaf (h : isLeaf c = true) : leaves isLeaf split (n + 1) c = [c] := by
  rw [leaves, if_pos h]

theorem leaves_of_split (h : isLeaf c = false) :
    leaves isLeaf split (n + 1) c = (split c).flatMap (leaves isLeaf split n) := by
  rw [leaves, if_neg (Bool.eq_false_iff.mp h)]

theorem eq_of_contains {cs : List C} {d e : C} (h : cs.Pairwise (Disjoint contains)) (hd : d ∈ cs)
    (he : e ∈ cs) (hdp : contains d p = true) (hep : contains e p = true) : d = e := by
  induction h with
  | nil => exact absurd hd List.not_mem_nil
  | @cons c cs hc _ ih =>
    rcases List.mem_cons.mp hd with rfl | hd' <;> rcases List.mem_cons.mp he with rfl | he'
    · rfl
    · exact absurd hep (Bool.eq_false_iff.mp (hc e he' p hdp))
    · exact absurd hdp (Bool.eq_false_iff.mp (hc d hd' p hep))
    · exact ih hd' he'

theorem contains_of_locate (hl : locate contains isLeaf split p n c = some l) :
    contains c p = true := by
  cases n with
  | zero => exact absurd hl (by simp [locate])
  | succ n =>
    rw [locate] at hl
    by_contra hnot
    rw [Bool.not_eq_true] at hnot
    rw [hnot, Bool.not_false, if_pos rfl] at hl
    exact absurd hl (by simp)

theorem findSome?_eq {f : C → Option C} {cs : List C} (hex : ∃ d ∈ cs, f d = some l)
    (huniq : ∀ d ∈ cs, ∀ m, f d = some m → m = l) : cs.findSome? f = some l := by
  obtain ⟨d, hd, hdl⟩ := hex
  cases hfind : cs.findSome? f with
  | none => exact absurd (List.findSome?_eq_none_iff.mp hfind d hd) (by simp [hdl])
  | some m =>
    obtain ⟨e, he, hem⟩ := List.exists_of_findSome?_eq_some hfind
    rw [huniq e he m hem]

namespace Subdivides

variable (h : Subdivides contains isLeaf split Node)
include h

theorem contains_iff (hc : Node n c) :
    contains c p = true ↔ ∃ l ∈ leaves isLeaf split (n + 1) c, contains l p = true := by
  induction n generalizing c with
  | zero => simp [leaves_of_isLeaf (h.stop c hc)]
  | succ n ih =>
    cases hleaf : isLeaf c with
    | true => simp [leaves_of_isLeaf hleaf]
    | false =>
      rw [leaves_of_split hleaf, h.cover n c hc hleaf p]
      constructor
      · rintro ⟨d, hd, hp⟩
        obtain ⟨l, hl, hlp⟩ := (ih (h.parts n c hc hleaf d hd)).mp hp
        exact ⟨l, List.mem_flatMap.mpr ⟨d, hd, hl⟩, hlp⟩
      · rintro ⟨l, hl, hlp⟩
        obtain ⟨d, hd, hl⟩ := List.mem_flatMap.mp hl
        exact ⟨d, hd, (ih (h.parts n c hc hleaf d hd)).mpr ⟨l, hl, hlp⟩⟩

theorem node_of_leaf (hc : Node n c) (hl : l ∈ leaves isLeaf split (n + 1) c) :
    isLeaf l = true ∧ ∃ k ≤ n, Node k l := by
  induction n generalizing c with
  | zero =>
    rw [leaves_of_isLeaf (h.stop c hc), List.mem_singleton] at hl
    exact hl ▸ ⟨h.stop c hc, 0, Nat.le_refl 0, hc⟩
  | succ n ih =>
    cases hleaf : isLeaf c with
    | true =>
      rw [leaves_of_isLeaf hleaf, List.mem_singleton] at hl
      exact hl ▸ ⟨hleaf, n + 1, Nat.le_refl _, hc⟩
    | false =>
      rw [leaves_of_split hleaf] at hl
      obtain ⟨d, hd, hl⟩ := List.mem_flatMap.mp hl
      obtain ⟨hlleaf, k, hk, hnode⟩ := ih (h.parts n c hc hleaf d hd) hl
      exact ⟨hlleaf, k, Nat.le_succ_of_le hk, hnode⟩

theorem contains_of_leaf (hc : Node n c) (hl : l ∈ leaves isLeaf split (n + 1) c)
    (hp : contains l p = true) : contains c p = true :=
  (h.contains_iff hc).mpr ⟨l, hl, hp⟩

theorem pairwise_leaves (hc : Node n c) :
    (leaves isLeaf split (n + 1) c).Pairwise (Disjoint contains) := by
  induction n generalizing c with
  | zero =>
    rw [leaves_of_isLeaf (h.stop c hc)]
    exact List.pairwise_singleton _ _
  | succ n ih =>
    cases hleaf : isLeaf c with
    | true =>
      rw [leaves_of_isLeaf hleaf]
      exact List.pairwise_singleton _ _
    | false =>
      have hparts := h.parts n c hc hleaf
      rw [leaves_of_split hleaf, List.pairwise_flatMap]
      refine ⟨fun d hd => ih (hparts d hd), ?_⟩
      refine (h.disjoint n c hc hleaf).imp_of_mem fun {d e} hd he hdisj l hl m hm p hp => ?_
      by_contra hmp
      have hdp := h.contains_of_leaf (hparts d hd) hl hp
      have hep := h.contains_of_leaf (hparts e he) hm (Bool.not_eq_false _ ▸ hmp)
      exact absurd hep (Bool.eq_false_iff.mp (hdisj p hdp))

/-- Going down to a point of a leaf ends at this leaf. -/
theorem locate_eq (hc : Node n c) (hl : l ∈ leaves isLeaf split (n + 1) c)
    (hp : contains l p = true) : locate contains isLeaf split p (n + 1) c = some l := by
  induction n generalizing c with
  | zero =>
    have hcp := h.contains_of_leaf hc hl hp
    have hleaf := h.stop c hc
    rw [leaves_of_isLeaf hleaf, List.mem_singleton] at hl
    rw [locate, hcp, Bool.not_true, if_neg Bool.false_ne_true, if_pos hleaf, hl]
  | succ n ih =>
    have hcp := h.contains_of_leaf hc hl hp
    rw [locate, hcp, Bool.not_true, if_neg Bool.false_ne_true]
    cases hleaf : isLeaf c with
    | true =>
      rw [leaves_of_isLeaf hleaf, List.mem_singleton] at hl
      rw [if_pos rfl, hl]
    | false =>
      rw [if_neg Bool.false_ne_true]
      have hparts := h.parts n c hc hleaf
      rw [leaves_of_split hleaf] at hl
      obtain ⟨d, hd, hl⟩ := List.mem_flatMap.mp hl
      refine findSome?_eq ⟨d, hd, ih (hparts d hd) hl⟩ fun e he m hm => ?_
      -- only `d` contains the point
      have heq := eq_of_contains (h.disjoint n c hc hleaf) he hd (contains_of_locate hm)
        (h.contains_of_leaf (hparts d hd) hl hp)
      rw [heq, ih (hparts d hd) hl] at hm
      exact (Option.some.inj hm).symm

end Subdivides

end Freeminer.Lib
