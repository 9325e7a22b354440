import Mathlib.Data.Set.Finite.Basic

/-! What can be put in an order in which everything comes after what it requires: where something is
missing, or a cycle is reached, nothing that leads there can. -/

namespace Freeminer.Lib

open Relation

variable {κ : Type*} {present : Set κ} {requires : κ → κ → Prop} {a b : κ} {l : List κ}

/-- What is there and requires only what is grounded. -/
inductive Grounded (present : Set κ) (requires : κ → κ → Prop) : κ → Prop where
  | intro {a : κ} (ha : a ∈ present) (h : ∀ b, requires a b → Grounded present requires b) :
    Grounded present requires a

namespace Grounded

theorem mem (h : Grounded present requires a) : a ∈ present := by
  cases h with
  | intro ha _ => exact ha

theorem reach (h : Grounded present requires a) (hab : ReflTransGen requires a b) :
    Grounded present requires b := by
  induction hab with
  | refl => exact h
  | tail _ hbc ih =>
    cases ih with
    | intro _ hall => exact hall _ hbc

theorem acyclic (h : Grounded present requires a) : ¬TransGen requires a a := by
  induction h with
  | intro _ _ ih =>
    intro hcycle
    obtain ⟨b, hab, hba⟩ := TransGen.head'_iff.1 hcycle
    exact ih b hab (TransGen.tail' hba hab)

end Grounded

/-- Among finitely many: nothing missing and no cycle is reached. -/
theorem grounded_iff (hfinite : present.Finite) : Grounded present requires a ↔
    ∀ b, ReflTransGen requires a b → b ∈ present ∧ ¬TransGen requires b b := by
  constructor
  · exact fun h b hab => ⟨(h.reach hab).mem, (h.reach hab).acyclic⟩
  · intro h
    let S := {b // ReflTransGen requires a b}
    have hfinite' : Finite S :=
      (hfinite.subset fun b (hb : ReflTransGen requires a b) => (h b hb).1).to_subtype
    let below : S → S → Prop := fun c b => TransGen requires b.1 c.1
    have htrans : IsTrans S below := ⟨fun _ _ _ hab hbc => TransGen.trans hbc hab⟩
    have hirrefl : Std.Irrefl below := ⟨fun b => (h b.1 b.2).2⟩
    have hwell : WellFounded below := Finite.wellFounded_of_trans_of_irrefl below
    have hall : ∀ b : S, Grounded present requires b.1 := by
      intro b
      induction b using hwell.induction with
      | _ b ih =>
        exact .intro (h b.1 b.2).1 fun c hbc => ih ⟨c, b.2.tail hbc⟩ (TransGen.single hbc)
    exact hall ⟨a, .refl⟩

inductive Ordered (requires : κ → κ → Prop) : List κ → Prop where
  | nil : Ordered requires []
  | snoc {l : List κ} {a : κ} (h : Ordered requires l) (ha : ∀ b, requires a b → b ∈ l) :
    Ordered requires (l ++ [a])

namespace Ordered

theorem split (h : Ordered requires l) {l₁ l₂ : List κ} (hl : l = l₁ ++ a :: l₂) :
    ∀ b, requires a b → b ∈ l₁ := by
  induction h generalizing l₂ with
  | nil => simp at hl
  | @snoc l c h hc ih =>
    rcases List.eq_nil_or_concat l₂ with rfl | ⟨l₃, d, rfl⟩
    · obtain ⟨rfl, hca⟩ := List.append_inj' hl rfl
      cases hca
      exact hc
    · have hl' : l ++ [c] = (l₁ ++ a :: l₃) ++ [d] := by simpa using hl
      exact ih (List.append_inj' hl' rfl).1

theorem grounded (h : Ordered requires l) (hl : ∀ a ∈ l, a ∈ present) :
    ∀ a ∈ l, Grounded present requires a := by
  induction h with
  | nil => simp
  | @snoc l c h hc ih =>
    have hbefore := ih fun a ha => hl a (List.mem_append_left _ ha)
    intro a ha
    rcases List.mem_append.1 ha with ha | ha
    · exact hbefore a ha
    · rw [List.mem_singleton.1 ha]
      exact .intro (hl c (by simp)) fun b hb => hbefore b (hc b hb)

end Ordered

/-- Where everything that is left over requires something that is left over or missing, nothing that
is grounded is left over. -/
theorem Grounded.mem_of_stuck (done : Set κ)
    (hstuck : ∀ a ∈ present, a ∉ done → ∃ b, requires a b ∧ b ∉ done)
    (h : Grounded present requires a) : a ∈ done := by
  induction h with
  | @intro a ha _ ih =>
    by_contra hout
    obtain ⟨b, hab, hb⟩ := hstuck a ha hout
    exact hb (ih b hab)

end Freeminer.Lib
