import Mathlib.Data.List.ProdSigma
import Mathlib.Data.List.Nodup
import Mathlib.Tactic.Ring

/-! Buffers of a fixed size whose accesses are checked, and loops that change one run of cells after
the other. -/

namespace Freeminer.Lib

/-- The cells from 0 up to `size`; what `val` is elsewhere is not looked at. -/
structure Buffer (α : Type*) where
  size : ℕ
  val : ℤ → α

namespace Buffer

variable {α κ : Type*} (b : Buffer α)

def replicate (size : ℕ) (a : α) : Buffer α := ⟨size, fun _ => a⟩

/-- The `n` cells from `i` on are in the buffer. -/
def Inside (i n : ℤ) : Prop := n ≤ 0 ∨ (0 ≤ i ∧ i + n ≤ b.size)

instance (i n : ℤ) : Decidable (b.Inside i n) := inferInstanceAs (Decidable (_ ∨ _))

def get (i : ℤ) : Option α := if b.Inside i 1 then some (b.val i) else none

/-- Changes the `n` cells from `i` on; `f` is told the place in the run. -/
def modify (i n : ℤ) (f : ℤ → α → α) : Option (Buffer α) :=
  if b.Inside i n then
    some { b with val := fun j => if i ≤ j ∧ j < i + n then f (j - i) (b.val j) else b.val j }
  else none

/-- Runs of `n` cells, one after the other. -/
def modifyAll (n : ℤ) (start : κ → ℤ) (f : κ → ℤ → α → α) (ks : List κ) : Option (Buffer α) :=
  ks.foldlM (fun b k => b.modify (start k) n (f k)) b

variable {b} {b' : Buffer α} {i j n : ℤ} {f : ℤ → α → α}

@[simp] theorem inside_one : b.Inside i 1 ↔ 0 ≤ i ∧ i < b.size := by
  unfold Inside
  omega

theorem get_of_lt (h0 : 0 ≤ i) (h : i < b.size) : b.get i = some (b.val i) :=
  if_pos (inside_one.2 ⟨h0, h⟩)

theorem modify_eq_some (h : b.modify i n f = some b') : b.Inside i n ∧ b'.size = b.size ∧
    ∀ j, b'.val j = if i ≤ j ∧ j < i + n then f (j - i) (b.val j) else b.val j := by
  unfold modify at h
  split_ifs at h with hin
  cases h
  exact ⟨hin, rfl, fun _ => rfl⟩

theorem modify_of_nonpos (hn : n ≤ 0) : b.modify i n f = some b := by
  unfold modify
  rw [if_pos (.inl hn)]
  have hval : (fun j => if i ≤ j ∧ j < i + n then f (j - i) (b.val j) else b.val j) = b.val :=
    funext fun j => if_neg (by omega)
  rw [hval]

/-- Runs that are inside and do not overlap: each changes its own cells, and the others stay. -/
theorem modifyAll_spec {start : κ → ℤ} {f : κ → ℤ → α → α} {ks : List κ} (hnodup : ks.Nodup)
    (hin : ∀ k ∈ ks, b.Inside (start k) n)
    (hapart : ∀ k ∈ ks, ∀ k' ∈ ks, ∀ j, start k ≤ j ∧ j < start k + n →
      start k' ≤ j ∧ j < start k' + n → k = k') :
    ∃ b', b.modifyAll n start f ks = some b' ∧ b'.size = b.size ∧
      (∀ k ∈ ks, ∀ j, start k ≤ j ∧ j < start k + n → b'.val j = f k (j - start k) (b.val j)) ∧
      ∀ j, (∀ k ∈ ks, ¬(start k ≤ j ∧ j < start k + n)) → b'.val j = b.val j := by
  induction ks generalizing b with
  | nil => exact ⟨b, rfl, rfl, by simp, fun _ _ => rfl⟩
  | cons k ks ih =>
    rw [List.nodup_cons] at hnodup
    have hfirst := hin k List.mem_cons_self
    obtain ⟨b', hb', hsize, hruns, hrest⟩ :=
      ih (b := { b with
          val := fun j => if start k ≤ j ∧ j < start k + n then f k (j - start k) (b.val j) else b.val j })
        hnodup.2 (fun k' hk' => hin k' (List.mem_cons_of_mem _ hk'))
        fun k₁ h₁ k₂ h₂ =>
          hapart k₁ (List.mem_cons_of_mem _ h₁) k₂ (List.mem_cons_of_mem _ h₂)
    refine ⟨b', ?_, hsize, fun k' hk' j hj => ?_, fun j hj => ?_⟩
    · unfold modifyAll
      rw [List.foldlM_cons, modify, if_pos hfirst]
      exact hb'
    · rcases List.mem_cons.1 hk' with rfl | hk'
      · have hout : ∀ k'' ∈ ks, ¬(start k'' ≤ j ∧ j < start k'' + n) := by
          intro k'' hk'' hj'
          have := hapart k' List.mem_cons_self k'' (List.mem_cons_of_mem _ hk'') j hj hj'
          exact hnodup.1 (this ▸ hk'')
        rw [hrest j hout]
        exact if_pos hj
      · have hne : ¬(start k ≤ j ∧ j < start k + n) := by
          intro hj'
          have := hapart k List.mem_cons_self k' (List.mem_cons_of_mem _ hk') j hj' hj
          exact hnodup.1 (this ▸ hk')
        rw [hruns k' hk' j hj]
        exact congrArg _ (if_neg hne)
    · rw [hrest j fun k' hk' => hj k' (List.mem_cons_of_mem _ hk')]
      exact if_neg (hj k List.mem_cons_self)

structure Agrees (b b' : Buffer α) : Prop where
  size : b.size = b'.size
  val : ∀ i : ℤ, 0 ≤ i → i < b.size → b.val i = b'.val i

theorem Agrees.refl (b : Buffer α) : b.Agrees b := ⟨rfl, fun _ _ _ => rfl⟩

theorem Agrees.symm (h : b.Agrees b') : b'.Agrees b :=
  ⟨h.size.symm, fun i h0 hi => (h.val i h0 (h.size ▸ hi)).symm⟩

theorem Agrees.trans {b'' : Buffer α} (h : b.Agrees b') (h' : b'.Agrees b'') : b.Agrees b'' :=
  ⟨h.size.trans h'.size, fun i h0 hi => (h.val i h0 hi).trans (h'.val i h0 (h.size ▸ hi))⟩

theorem Agrees.inside_iff (h : b.Agrees b') : b.Inside i n ↔ b'.Inside i n := by
  unfold Inside
  rw [h.size]

theorem Agrees.get (h : b.Agrees b') (i : ℤ) : b.get i = b'.get i := by
  unfold Buffer.get
  by_cases hin : b.Inside i 1
  · rw [if_pos hin, if_pos (h.inside_iff.1 hin)]
    rw [inside_one] at hin
    rw [h.val i hin.1 hin.2]
  · rw [if_neg hin, if_neg (h.inside_iff.not.1 hin)]

theorem Agrees.modify (h : b.Agrees b') (i n : ℤ) (f : ℤ → α → α) :
    Option.Rel Agrees (b.modify i n f) (b'.modify i n f) := by
  unfold Buffer.modify
  by_cases hin : b.Inside i n
  · rw [if_pos hin, if_pos (h.inside_iff.1 hin)]
    refine .some ⟨h.size, fun j h0 hj => ?_⟩
    dsimp only
    rw [h.val j h0 hj]
  · rw [if_neg hin, if_neg (h.inside_iff.not.1 hin)]
    exact .none

/-- What is done outside of a run does not matter. -/
theorem modify_congr {f' : ℤ → α → α} (h : ∀ x, 0 ≤ x → x < n → f x = f' x) :
    b.modify i n f = b.modify i n f' := by
  unfold modify
  split_ifs
  · simp only [Option.some.injEq, Buffer.mk.injEq, true_and]
    funext j
    split_ifs with hj
    · rw [h (j - i) (by omega) (by omega)]
    · rfl
  · rfl

end Buffer

section Loops

variable {σ ι : Type*} {n : ℕ}

theorem foldlM_congr {α : Type*} {g f : σ → α → Option σ} {l : List α}
    (h : ∀ a ∈ l, ∀ s, g s a = f s a) (s : σ) : l.foldlM g s = l.foldlM f s := by
  induction l generalizing s with
  | nil => rfl
  | cons a l ih =>
    rw [List.foldlM_cons, List.foldlM_cons, h a List.mem_cons_self]
    cases f s a with
    | none => rfl
    | some s' => exact ih (fun a' ha' => h a' (List.mem_cons_of_mem _ ha')) s'

theorem foldlM_rel {α : Type*} {R : σ → σ → Prop} {g : σ → α → Option σ} {l : List α}
    (h : ∀ a s s', R s s' → Option.Rel R (g s a) (g s' a)) {s s' : σ} (hs : R s s') :
    Option.Rel R (l.foldlM g s) (l.foldlM g s') := by
  induction l generalizing s s' with
  | nil => exact .some hs
  | cons a l ih =>
    rw [List.foldlM_cons, List.foldlM_cons]
    have hfirst := h a s s' hs
    cases hg : g s a with
    | none =>
      rw [hg] at hfirst
      cases hfirst' : g s' a with
      | none => exact .none
      | some y =>
        rw [hfirst'] at hfirst
        cases hfirst
    | some x =>
      rw [hg] at hfirst
      cases hfirst' : g s' a with
      | none =>
        rw [hfirst'] at hfirst
        cases hfirst
      | some y =>
        rw [hfirst'] at hfirst
        cases hfirst with
        | some hxy => exact ih hxy

/-- A loop that carries a place along with its state: the place after `k` turns is known beforehand. -/
theorem foldlM_carried {g : σ × ι → Option (σ × ι)} {h : ℕ → σ → Option σ} {p : ℕ → ι}
    (hg : ∀ k < n, ∀ s, g (s, p k) = (h k s).map fun s => (s, p (k + 1))) (s : σ) :
    (List.range n).foldlM (fun x _ => g x) (s, p 0) =
      ((List.range n).foldlM (fun s k => h k s) s).map fun s => (s, p n) := by
  induction n with
  | zero => rfl
  | succ n ih =>
    rw [List.range_succ, List.foldlM_append, List.foldlM_append, ih fun k hk => hg k (by omega)]
    cases (List.range n).foldlM (fun s k => h k s) s with
    | none => rfl
    | some s' =>
      have hlast := hg n (by omega) s'
      simp [hlast]

/-- Two nested loops are one over the pairs. -/
theorem foldlM_product {α β : Type*} (g : σ → α × β → Option σ) (l : List α) (l' : List β) (s : σ) :
    l.foldlM (fun s a => l'.foldlM (fun s b => g s (a, b)) s) s = (l ×ˢ l').foldlM g s := by
  induction l generalizing s with
  | nil => rfl
  | cons a l ih =>
    rw [List.product_cons, List.foldlM_append, List.foldlM_map, List.foldlM_cons]
    cases l'.foldlM (fun s b => g s (a, b)) s with
    | none => rfl
    | some s' => exact ih s'

end Loops

end Freeminer.Lib
