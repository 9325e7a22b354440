import Mathlib.Data.List.Induction
import Mathlib.Order.Nat

/-! Choosing the first element of the highest rank among those that qualify. -/

namespace Freeminer.Lib

variable {α : Type*}

/-- `a` qualifies, those before it that do have a lower rank, and those after it no higher one. -/
structure FirstBest (p : α → Prop) (rank : α → ℕ) (l : List α) (a : α) : Prop where
  qualifies : p a
  split : ∃ before after, l = before ++ a :: after ∧ (∀ b ∈ before, p b → rank b < rank a) ∧
    ∀ b ∈ after, p b → rank b ≤ rank a

variable {p : α → Prop} {rank : α → ℕ} {l m : List α} {a b : α}

namespace FirstBest

theorem mem (h : FirstBest p rank l a) : a ∈ l := by
  obtain ⟨before, after, rfl, -, -⟩ := h.split
  exact List.mem_append_right _ (List.mem_cons_self ..)

theorem le (h : FirstBest p rank l a) (hb : b ∈ l) (hp : p b) : rank b ≤ rank a := by
  obtain ⟨before, after, rfl, hbefore, hafter⟩ := h.split
  rcases List.mem_append.mp hb with hb | hb
  · exact Nat.le_of_lt (hbefore b hb hp)
  · rcases List.mem_cons.mp hb with rfl | hb
    · exact Nat.le_refl _
    · exact hafter b hb hp

theorem head (hp : p a) (h : ∀ b ∈ l, p b → rank b ≤ rank a) : FirstBest p rank (a :: l) a :=
  ⟨hp, [], l, rfl, fun _ hb => absurd hb (List.not_mem_nil), h⟩

theorem eq (ha : FirstBest p rank l a) (hb : FirstBest p rank l b) : a = b := by
  induction l with
  | nil => exact absurd ha.mem List.not_mem_nil
  | cons c l ih =>
    obtain ⟨before, after, heq, hbefore, hafter⟩ := ha.split
    obtain ⟨before', after', heq', hbefore', hafter'⟩ := hb.split
    cases before with
    | nil =>
      cases before' with
      | nil => exact (List.cons.inj (heq.symm.trans heq')).1
      | cons c' before' =>
        have hc : a = c' := (List.cons.inj (heq.symm.trans heq')).1
        have hlt := hbefore' a (hc ▸ List.mem_cons_self ..) ha.qualifies
        exact absurd (ha.le hb.mem hb.qualifies) (not_le.mpr hlt)
    | cons c' before =>
      cases before' with
      | nil =>
        have hc : c' = b := (List.cons.inj (heq.symm.trans heq')).1
        have hlt := hbefore b (hc ▸ List.mem_cons_self ..) hb.qualifies
        exact absurd (hb.le ha.mem ha.qualifies) (not_le.mpr hlt)
      | cons c'' before' =>
        obtain ⟨rfl, hl⟩ := List.cons.inj heq
        obtain ⟨rfl, hl'⟩ := List.cons.inj heq'
        exact ih ⟨ha.qualifies, before, after, hl, fun b hb => hbefore b (List.mem_cons_of_mem _ hb),
            hafter⟩
          ⟨hb.qualifies, before', after', hl', fun b hb => hbefore' b (List.mem_cons_of_mem _ hb),
            hafter'⟩

/-- The choice from a sublist that has it. -/
theorem sublist_filter (h : FirstBest p rank l a) (q : α → Bool) (hq : q a = true) :
    FirstBest p rank (l.filter q) a := by
  obtain ⟨before, after, rfl, hbefore, hafter⟩ := h.split
  refine ⟨h.qualifies, before.filter q, after.filter q, ?_,
    fun b hb => hbefore b (List.mem_filter.mp hb).1, fun b hb => hafter b (List.mem_filter.mp hb).1⟩
  rw [List.filter_append, List.filter_cons_of_pos hq]

theorem append_right (h : FirstBest p rank l a) (hm : ∀ b ∈ m, p b → rank b ≤ rank a) :
    FirstBest p rank (l ++ m) a := by
  obtain ⟨before, after, rfl, hbefore, hafter⟩ := h.split
  refine ⟨h.qualifies, before, after ++ m, by simp, hbefore, fun b hb hp => ?_⟩
  rcases List.mem_append.mp hb with hb | hb
  · exact hafter b hb hp
  · exact hm b hb hp

theorem append_left (h : FirstBest p rank l a) (hm : ∀ b ∈ m, p b → rank b < rank a) :
    FirstBest p rank (m ++ l) a := by
  obtain ⟨before, after, rfl, hbefore, hafter⟩ := h.split
  refine ⟨h.qualifies, m ++ before, after, by simp, fun b hb hp => ?_, hafter⟩
  rcases List.mem_append.mp hb with hb | hb
  · exact hm b hb hp
  · exact hbefore b hb hp

/-- What comes before the choice has a lower rank. -/
theorem lt_of_append (h : FirstBest p rank (m ++ l) a) (ha : a ∉ m) (hb : b ∈ m) (hp : p b) :
    rank b < rank a := by
  induction m with
  | nil => exact absurd hb List.not_mem_nil
  | cons c m ih =>
    obtain ⟨before, after, heq, hbefore, hafter⟩ := h.split
    cases before with
    | nil => exact absurd (List.cons.inj heq).1 fun hc => ha (hc ▸ List.mem_cons_self ..)
    | cons c' before =>
      obtain ⟨rfl, heq'⟩ := List.cons.inj heq
      rcases List.mem_cons.mp hb with rfl | hb
      · exact hbefore b (List.mem_cons_self ..) hp
      · exact ih ⟨h.qualifies, before, after, heq',
          fun d hd => hbefore d (List.mem_cons_of_mem _ hd), hafter⟩
          (fun hmem => ha (List.mem_cons_of_mem _ hmem)) hb

end FirstBest

/-- Keeps the best so far unless `a` qualifies and has a higher rank. -/
def chooseStep (p : α → Prop) [DecidablePred p] (rank : α → ℕ) (best : Option α) (a : α) :
    Option α :=
  match best with
  | none => if p a then some a else none
  | some b => if rank a > rank b ∧ p a then some a else some b

/-- `FirstBest` as a choice that need not be possible. -/
def Chosen (p : α → Prop) (rank : α → ℕ) (l : List α) : Option α → Prop
  | none => ∀ a ∈ l, ¬p a
  | some a => FirstBest p rank l a

variable [DecidablePred p]

theorem chosen_step {best : Option α} (h : Chosen p rank l best) (a : α) :
    Chosen p rank (l ++ [a]) (chooseStep p rank best a) := by
  cases best with
  | none =>
    rw [chooseStep]
    split_ifs with ha
    · exact ⟨ha, l, [], rfl, fun b hb hp => absurd hp (h b hb),
        fun _ hb => absurd hb List.not_mem_nil⟩
    · intro b hb
      rcases List.mem_append.mp hb with hb | hb
      · exact h b hb
      · rwa [List.mem_singleton.mp hb]
  | some b =>
    rw [chooseStep]
    split_ifs with ha
    · exact ⟨ha.2, l, [], rfl, fun c hc hp => Nat.lt_of_le_of_lt (h.le hc hp) ha.1,
        fun _ hb => absurd hb List.not_mem_nil⟩
    · refine h.append_right fun c hc hp => ?_
      obtain rfl := List.mem_singleton.mp hc
      exact Nat.not_lt.mp fun hlt => ha ⟨hlt, hp⟩

theorem chosen_foldl (p : α → Prop) [DecidablePred p] (rank : α → ℕ) (l : List α) : Chosen p rank l (l.foldl (chooseStep p rank) none) := by
  induction l using List.reverseRecOn with
  | nil => exact fun _ ha => absurd ha List.not_mem_nil
  | append_singleton l a ih =>
    rw [List.foldl_append]
    exact chosen_step ih a

omit [DecidablePred p] in
theorem Chosen.eq_some {best : Option α} (h : Chosen p rank l best) (ha : FirstBest p rank l a) :
    best = some a := by
  cases best with
  | none => exact absurd ha.qualifies (h a ha.mem)
  | some b => exact congrArg some (h.eq ha)

omit [DecidablePred p] in
theorem Chosen.eq_none {best : Option α} (h : Chosen p rank l best) (ha : ∀ a ∈ l, ¬p a) :
    best = none := by
  cases best with
  | none => rfl
  | some b => exact absurd h.qualifies (ha b h.mem)

end Freeminer.Lib
