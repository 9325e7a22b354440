import Mathlib.Data.Fintype.Fin

/-! Pairing off two lists so that every pair is related: Mathlib's `Multiset.Rel`, as a bijection of
the places. -/

namespace Freeminer.Lib

variable {α β : Type*} {r : α → β → Prop}

def Assignable (r : α → β → Prop) (l : List α) (m : List β) : Prop :=
  ∃ σ : Fin l.length ≃ Fin m.length, ∀ i, r (l.get i) (m.get (σ i))

theorem coe_eq_map_get (l : List α) : (l : Multiset α) = Finset.univ.val.map l.get := by
  rw [Fin.univ_val_map, List.ofFn_get]

theorem card_fiber_get [DecidableEq α] (l : List α) (a : α) :
    Fintype.card { i // l.get i = a } = l.count a := by
  rw [← Multiset.coe_count, coe_eq_map_get, Multiset.count_map, Fintype.card_subtype]
  exact congrArg Finset.card (Finset.filter_congr fun i _ => eq_comm)

theorem exists_equiv_of_perm {l m : List α} (h : l.Perm m) :
    ∃ e : Fin l.length ≃ Fin m.length, ∀ i, m.get (e i) = l.get i := by
  classical
  have hfiber : ∀ a, Nonempty ({ i // l.get i = a } ≃ { i // m.get i = a }) := fun a =>
    Fintype.card_eq.mp ((card_fiber_get l a).trans ((h.count_eq a).trans (card_fiber_get m a).symm))
  exact ⟨Equiv.ofFiberEquiv fun a => (hfiber a).some, fun i => Equiv.ofFiberEquiv_map _ i⟩

theorem Assignable.rel {l : List α} {m : List β} (h : Assignable r l m) :
    Multiset.Rel r (l : Multiset α) (m : Multiset β) := by
  obtain ⟨σ, hσ⟩ := h
  rw [coe_eq_map_get l, coe_eq_map_get m, ← Multiset.map_univ_val_equiv σ, Multiset.map_map,
    Multiset.rel_map]
  exact Multiset.rel_refl_of_refl_on fun i _ => hσ i

theorem exists_pairs {s : Multiset α} {t : Multiset β} (h : Multiset.Rel r s t) :
    ∃ ps : List (α × β), (∀ p ∈ ps, r p.1 p.2) ∧ s = (ps.map Prod.fst : Multiset α) ∧
      t = (ps.map Prod.snd : Multiset β) := by
  induction h with
  | zero => exact ⟨[], by simp⟩
  | @cons a b s t hab _ ih =>
    obtain ⟨ps, hps, hs, ht⟩ := ih
    refine ⟨(a, b) :: ps, fun p hp => ?_, by rw [hs]; rfl, by rw [ht]; rfl⟩
    rcases List.mem_cons.mp hp with rfl | hp
    · exact hab
    · exact hps p hp

theorem assignable_iff_rel {l : List α} {m : List β} :
    Assignable r l m ↔ Multiset.Rel r (l : Multiset α) (m : Multiset β) := by
  refine ⟨Assignable.rel, fun h => ?_⟩
  obtain ⟨ps, hps, hl, hm⟩ := exists_pairs h
  obtain ⟨e, he⟩ := exists_equiv_of_perm (Multiset.coe_eq_coe.mp hl)
  obtain ⟨f, hf⟩ := exists_equiv_of_perm (Multiset.coe_eq_coe.mp hm.symm)
  have hlen : (ps.map Prod.fst).length = (ps.map Prod.snd).length := by simp
  refine ⟨(e.trans (finCongr hlen)).trans f, fun i => ?_⟩
  have hpair := hps _ (List.get_mem ps ((e i).cast (List.length_map ..)))
  rw [← he i, Equiv.trans_apply, Equiv.trans_apply, hf]
  simpa using hpair

/-- If some elements of the second list are only related to themselves, they are paired off first. -/
theorem rel_add_eq {r : α → α → Prop} [DecidableEq α] {s t u : Multiset α}
    (ht : ∀ b ∈ t, ∀ a, r a b ↔ a = b) :
    Multiset.Rel r s (t + u) ↔ t ≤ s ∧ Multiset.Rel r (s - t) u := by
  rw [Multiset.rel_add_right]
  constructor
  · rintro ⟨s₀, s₁, h₀, h₁, rfl⟩
    have heq : s₀ = t := Multiset.rel_eq.mp (h₀.mono fun a _ b hb hab => (ht b hb a).mp hab)
    rw [heq, add_tsub_cancel_left]
    exact ⟨Multiset.le_add_right t s₁, h₁⟩
  · rintro ⟨hle, h⟩
    refine ⟨t, s - t, Multiset.rel_refl_of_refl_on fun b hb => (ht b hb b).mpr rfl, h, ?_⟩
    rw [add_tsub_cancel_of_le hle]

end Freeminer.Lib
