import Mathlib.Order.Interval.Finset.Nat

/-! Lists that increase strictly by a natural-number key: inserting in front of the first
larger key keeps them so, and a bound on the keys bounds the length. -/

namespace Freeminer.Lib

variable {α : Type*} (key : α → ℕ)

abbrev Increasing (l : List α) : Prop := l.Pairwise fun a b => key a < key b

/-- The elements of `l` with a smaller key, then `a`, then the rest. -/
def insertByKey (a : α) (l : List α) : List α :=
  l.takeWhile (fun b => key b < key a) ++ a :: l.dropWhile fun b => key b < key a

variable {key} {a b : α} {l : List α}

theorem mem_insertByKey : b ∈ insertByKey key a l ↔ b = a ∨ b ∈ l := by
  conv_rhs => rw [← List.takeWhile_append_dropWhile (p := fun b => key b < key a) (l := l)]
  simp only [insertByKey, List.mem_append, List.mem_cons]
  tauto

theorem insertByKey_perm : (insertByKey key a l).Perm (a :: l) := by
  conv_rhs => rw [← List.takeWhile_append_dropWhile (p := fun b => key b < key a) (l := l)]
  exact List.perm_middle

theorem Increasing.insertByKey (h : Increasing key l) (ha : ∀ b ∈ l, key b ≠ key a) :
    Increasing key (insertByKey key a l) := by
  induction l with
  | nil => exact List.pairwise_singleton _ _
  | cons c l ih =>
    obtain ⟨hc, hl⟩ := List.pairwise_cons.mp h
    by_cases hlt : key c < key a
    · have hcons : Lib.insertByKey key a (c :: l) = c :: Lib.insertByKey key a l := by
        simp [Lib.insertByKey, hlt]
      rw [hcons]
      refine List.pairwise_cons.mpr ⟨fun b hb => ?_, ih hl fun b hb => ha b (by simp [hb])⟩
      rcases mem_insertByKey.mp hb with rfl | hb
      · exact hlt
      · exact hc b hb
    · have hcons : Lib.insertByKey key a (c :: l) = a :: c :: l := by
        simp [Lib.insertByKey, hlt]
      have hac : key a < key c := by
        have := ha c (by simp)
        omega
      rw [hcons]
      refine List.pairwise_cons.mpr ⟨fun b hb => ?_, h⟩
      rcases List.mem_cons.mp hb with rfl | hb
      · exact hac
      · exact hac.trans (hc b hb)

/-- What is found where `a` would go is the element with the key of `a`, if there is one. -/
theorem Increasing.head_dropWhile (h : Increasing key l) (hb : b ∈ l) (hk : key b = key a) :
    (l.dropWhile fun c => key c < key a).head? = some b := by
  induction l with
  | nil => simp at hb
  | cons c l ih =>
    obtain ⟨hc, hl⟩ := List.pairwise_cons.mp h
    rcases List.mem_cons.mp hb with rfl | hb
    · simp [hk]
    · have hcb := hc b hb
      rw [List.dropWhile_cons_of_pos (by simpa using (hk ▸ hcb))]
      exact ih hl hb

theorem Increasing.nodup (h : Increasing key l) : (l.map key).Nodup :=
  List.pairwise_map.mpr (h.imp fun hab => hab.ne)

theorem Increasing.length_le (h : Increasing key l) {lo hi : ℕ}
    (hl : ∀ a ∈ l, lo ≤ key a ∧ key a < hi) : l.length ≤ hi - lo := by
  have hsub : (l.map key).toFinset ⊆ Finset.Ico lo hi := by
    intro k hk
    obtain ⟨a, ha, rfl⟩ := List.mem_map.mp (List.mem_toFinset.mp hk)
    exact Finset.mem_Ico.mpr (hl a ha)
  have := Finset.card_le_card hsub
  rwa [List.toFinset_card_of_nodup h.nodup, List.length_map, Nat.card_Ico] at this

end Freeminer.Lib
