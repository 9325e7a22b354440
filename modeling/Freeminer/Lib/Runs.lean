import Mathlib.Logic.Relation
import Mathlib.Data.Nat.Notation
import Mathlib.Tactic.SplitIfs

/-! Labelled transition systems and their runs. A run may be restricted by a condition
on each step, read off the state before the step and the label; an invariant is proved
once, from the start states and one step, for every state such a run reaches. -/

namespace Freeminer.Lib

/-- Where runs start, and what a step with a given label may do. -/
structure Lts (σ α : Type*) where
  init : σ → Prop
  step : σ → α → σ → Prop

namespace Lts

variable {σ α : Type*} (T : Lts σ α)

/-- The states reached by runs all of whose steps meet `ok`. -/
inductive Run (ok : σ → α → Prop) : σ → Prop
  | init {s : σ} : T.init s → Run ok s
  | step {s : σ} {a : α} {s' : σ} : Run ok s → ok s a → T.step s a s' → Run ok s'

abbrev Reach : σ → Prop := T.Run fun _ _ => True

variable {T} {ok ok' : σ → α → Prop} {s s' : σ} {a : α}

theorem Run.mono (h : ∀ s a, ok s a → ok' s a) (hr : T.Run ok s) : T.Run ok' s := by
  induction hr with
  | init h0 => exact .init h0
  | step _ hok hs ih => exact .step ih (h _ _ hok) hs

/-- The invariant rule. -/
theorem Run.invariant {I : σ → Prop} (h0 : ∀ s, T.init s → I s)
    (hs : ∀ s a s', I s → ok s a → T.step s a s' → I s') (hr : T.Run ok s) : I s := by
  induction hr with
  | init h => exact h0 _ h
  | step _ hok hst ih => exact hs _ _ _ ih hok hst

variable (T) in
def Next (s s' : σ) : Prop := ∃ a, T.step s a s'

variable (T) in
abbrev Path : σ → σ → Prop := Relation.ReflTransGen T.Next

theorem Path.single (h : T.step s a s') : T.Path s s' := Relation.ReflTransGen.single ⟨a, h⟩

theorem Run.path (hr : T.Reach s) (hp : T.Path s s') : T.Reach s' := by
  induction hp with
  | refl => exact hr
  | tail _ hn ih =>
    obtain ⟨a, ha⟩ := hn
    exact .step ih trivial ha

/-- A family of states that steps from each index to the next is left at its end. -/
theorem Path.iterate {P : ℕ → σ → Prop} {n : ℕ}
    (hs : ∀ i < n, ∀ s, P i s → ∃ s', T.Path s s' ∧ P (i + 1) s') (h0 : P 0 s) :
    ∃ s', T.Path s s' ∧ P n s' := by
  induction n with
  | zero => exact ⟨s, .refl, h0⟩
  | succ n ih =>
    obtain ⟨m, hm, hPm⟩ := ih fun i hi => hs i (by omega)
    obtain ⟨s', hs', hP'⟩ := hs n (by omega) m hPm
    exact ⟨s', hm.trans hs', hP'⟩

section Exec

variable (exec : α → σ → Option σ) (ok : σ → α → Prop) [∀ s a, Decidable (ok s a)]

def execAll : List α → σ → Option σ
  | [], s => some s
  | a :: as, s => if ok s a then (exec a s).bind (execAll as) else none

theorem Run.execAll {as : List α} (hexec : ∀ s a s', exec a s = some s' → T.step s a s')
    (hr : T.Run ok s) (h : execAll exec ok as s = some s') : T.Run ok s' := by
  induction as generalizing s with
  | nil => exact Option.some.inj h ▸ hr
  | cons a as ih =>
    unfold Lts.execAll at h
    split_ifs at h with hok
    obtain ⟨s₁, hs₁, h⟩ := Option.bind_eq_some_iff.mp h
    exact ih (.step hr hok (hexec s a s₁ hs₁)) h

end Exec

end Lts

end Freeminer.Lib
