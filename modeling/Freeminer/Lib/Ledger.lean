import Mathlib.Algebra.BigOperators.Group.Finset.Basic
import Mathlib.Algebra.GroupWithZero.Nat
import Mathlib.Data.List.AList

/-! A family of lists whose entries have a weight. Replacing an entry changes the total weight
over any set of the lists by the difference of the two entries, whichever list it is in; so moves
between lists that may be the same list need no case distinction. -/

namespace Freeminer.Lib

variable {ρ α : Type*}

def weight (w : α → ℕ) (l : List α) : ℕ := (l.map w).sum

/-- The weight of the lists in `s`, each counted once. -/
def ledger (w : α → ℕ) (lists : ρ → List α) (s : Finset ρ) : ℕ := ∑ r ∈ s, weight w (lists r)

theorem weight_set {w : α → ℕ} {l : List α} {i : ℕ} {a : α} (h : l[i]? = some a) (b : α) :
    weight w (l.set i b) + w a = weight w l + w b := by
  induction l generalizing i with
  | nil => simp at h
  | cons c l ih =>
    cases i with
    | zero =>
      obtain rfl : c = a := by simpa using h
      simp only [weight, List.set_cons_zero, List.map_cons, List.sum_cons]
      omega
    | succ i =>
      have := ih (by simpa using h)
      simp only [weight, List.set_cons_succ, List.map_cons, List.sum_cons] at this ⊢
      omega

/-- A list whose entries weigh no more than those of another, place by place. -/
theorem weight_le_weight {w : α → ℕ} {l l' : List α}
    (h : ∀ (i : ℕ) (a : α), l[i]? = some a → ∃ b, l'[i]? = some b ∧ w a ≤ w b) :
    weight w l ≤ weight w l' := by
  induction l generalizing l' with
  | nil => exact Nat.zero_le _
  | cons a l ih =>
    obtain ⟨b, hb, hle⟩ := h 0 a rfl
    cases l' with
    | nil => simp at hb
    | cons c l' =>
      obtain rfl : c = b := by simpa using hb
      have hrest := ih fun i x hx => by simpa using h (i + 1) x (by simpa using hx)
      simp only [weight, List.map_cons, List.sum_cons] at hrest ⊢
      omega

variable [DecidableEq ρ]

theorem ledger_update (w : α → ℕ) (lists : ρ → List α) {s : Finset ρ} {r : ρ} (hr : r ∈ s)
    (l : List α) :
    ledger w (Function.update lists r l) s + weight w (lists r) =
      ledger w lists s + weight w l := by
  have hrest : ∑ x ∈ s.erase r, weight w (Function.update lists r l x) =
      ∑ x ∈ s.erase r, weight w (lists x) := by
    refine Finset.sum_congr rfl fun x hx => ?_
    rw [Function.update_of_ne (Finset.ne_of_mem_erase hx)]
  rw [ledger, ledger, ← Finset.add_sum_erase s _ hr, ← Finset.add_sum_erase s _ hr, hrest,
    Function.update_self]
  omega

theorem ledger_set {w : α → ℕ} {lists : ρ → List α} {s : Finset ρ} {r : ρ} {i : ℕ} {a : α}
    (hr : r ∈ s) (h : (lists r)[i]? = some a) (b : α) :
    ledger w (Function.update lists r ((lists r).set i b)) s + w a = ledger w lists s + w b := by
  have h1 := ledger_update w lists hr ((lists r).set i b)
  have h2 := weight_set (w := w) h b
  omega

end Freeminer.Lib

/-! Totals over a finite map, and totals that are one: the weight of the entries changes by the
entry that is erased or inserted, and where the weight of a list is one, one of its members has it
all. -/

namespace Freeminer.Lib

section Map

variable {α : Type*} {β : α → Type*} [DecidableEq α] {w : Sigma β → ℕ} {s : AList β} {a : α}
  {b b' : β a}

theorem weight_erase (h : s.lookup a = some b) :
    weight w (s.erase a).entries + w ⟨a, b⟩ = weight w s.entries := by
  have hmem : a ∈ s := AList.lookup_isSome.mp (by simp [h])
  obtain ⟨b', l₁, l₂, hl₁, heq, herase⟩ := List.exists_of_kerase (AList.mem_keys.mp hmem)
  have hb : b' = b := by
    have : s.lookup a = some b' := by
      rw [AList.lookup, heq, List.dlookup_append, List.dlookup_eq_none.mpr hl₁]
      simp
    exact Option.some.inj (this.symm.trans h)
  subst hb
  change weight w (List.kerase a s.entries) + _ = _
  rw [herase, heq]
  simp only [weight, List.map_append, List.sum_append, List.map_cons, List.sum_cons]
  omega

theorem weight_insert_of_notMem (h : a ∉ s) :
    weight w (s.insert a b).entries = weight w s.entries + w ⟨a, b⟩ := by
  rw [AList.entries_insert_of_notMem h]
  simp only [weight, List.map_cons, List.sum_cons]
  omega

theorem weight_insert_of_lookup (h : s.lookup a = some b) (b' : β a) :
    weight w (s.insert a b').entries + w ⟨a, b⟩ = weight w s.entries + w ⟨a, b'⟩ := by
  have herase := weight_erase (w := w) h
  have hcons : weight w (s.insert a b').entries =
      w ⟨a, b'⟩ + weight w (s.erase a).entries := by
    rw [AList.entries_insert]
    simp only [weight, List.map_cons, List.sum_cons]
    rfl
  omega

end Map

section One

variable {α : Type*} {w : α → ℕ} {l : List α}

theorem weight_eq_zero_iff : weight w l = 0 ↔ ∀ a ∈ l, w a = 0 := by
  induction l with
  | nil => simp [weight]
  | cons c l ih =>
    have hsum : weight w (c :: l) = w c + weight w l := by simp [weight]
    rw [hsum, Nat.add_eq_zero_iff, ih, List.forall_mem_cons]

/-- A weight of one is that of one member, and the other members have none. -/
theorem exists_of_weight_eq_one (h : weight w l = 1) :
    ∃ (i : ℕ) (a : α), l[i]? = some a ∧ w a = 1 ∧
      ∀ (j : ℕ) (b : α), l[j]? = some b → j ≠ i → w b = 0 := by
  induction l with
  | nil => simp [weight] at h
  | cons c l ih =>
    have hsum : w c + weight w l = 1 := by simpa [weight] using h
    by_cases hc : w c = 0
    · obtain ⟨i, a, hi, ha, hrest⟩ := ih (by omega)
      refine ⟨i + 1, a, by simpa using hi, ha, fun j b hj hne => ?_⟩
      cases j with
      | zero =>
        obtain rfl : c = b := by simpa using hj
        exact hc
      | succ j => exact hrest j b (by simpa using hj) (by omega)
    · have hzero := weight_eq_zero_iff.mp (show weight w l = 0 by omega)
      refine ⟨0, c, rfl, by omega, fun j b hj hne => ?_⟩
      cases j with
      | zero => exact absurd rfl hne
      | succ j => exact hzero b (List.mem_of_getElem? (by simpa using hj))

end One

end Freeminer.Lib

/-! Counting the entries of a finite map, and how many keys a fixed number of bits allows. -/

namespace Freeminer.Lib

variable {α β : Type} [DecidableEq α] {m : AList fun _ : α => β} {a : α} {b : β}

theorem countP_entries_of_lookup (p : (_ : α) × β → Bool) (h : m.lookup a = some b) :
    m.entries.countP p = (m.erase a).entries.countP p + if p ⟨a, b⟩ then 1 else 0 := by
  have hkey : a ∈ m.entries.keys := AList.mem_keys.mp (AList.lookup_isSome.mp (h ▸ rfl))
  obtain ⟨b', l₁, l₂, hfirst, heq, herase⟩ := List.exists_of_kerase hkey
  have hb : b' = b := by
    have hmem : (⟨a, b'⟩ : (_ : α) × β) ∈ m.entries := by
      rw [heq]
      exact List.mem_append_right _ List.mem_cons_self
    exact Option.some.inj ((AList.mem_lookup_iff.mpr hmem).symm.trans h)
  subst hb
  change _ = (List.kerase a m.entries).countP p + _
  rw [herase, heq]
  simp only [List.countP_append, List.countP_cons]
  omega

theorem countP_entries_insert (p : (_ : α) × β → Bool) :
    (m.insert a b).entries.countP p =
      (m.erase a).entries.countP p + if p ⟨a, b⟩ then 1 else 0 := by
  rw [AList.entries_insert, List.countP_cons]
  rfl

theorem countP_entries_erase_of_notMem (p : (_ : α) × β → Bool) (h : a ∉ m) :
    (m.erase a).entries.countP p = m.entries.countP p := by
  change (List.kerase a m.entries).countP p = _
  rw [List.kerase_of_notMem_keys h]

/-- What a filter that pairs its elements with something keeps of them. -/
theorem map_snd_filterMap_sublist {γ δ : Type} {f : γ → Option (δ × γ)}
    (hf : ∀ c x, f c = some x → x.2 = c) (l : List γ) :
    ((l.filterMap f).map Prod.snd).Sublist l := by
  induction l with
  | nil => exact List.Sublist.refl _
  | cons c l ih =>
    cases hc : f c with
    | none =>
      rw [List.filterMap_cons_none hc]
      exact ih.cons c
    | some x =>
      rw [List.filterMap_cons_some hc, List.map_cons, hf c x hc]
      exact ih.cons_cons c

/-- Different keys of sixteen bits other than 0. -/
theorem length_lt_of_nodup {l : List UInt16} (h : l.Nodup) (h0 : 0 ∉ l) : l.length < 65536 := by
  have hinj : Function.Injective UInt16.toNat := fun _ _ => UInt16.toNat_inj.mp
  have hsub : 0 :: l.map UInt16.toNat ⊆ List.range 65536 := by
    intro n hn
    rcases List.mem_cons.mp hn with rfl | hn
    · simp
    · obtain ⟨x, -, rfl⟩ := List.mem_map.mp hn
      exact List.mem_range.mpr x.toNat_lt
  have hnodup : (0 :: l.map UInt16.toNat).Nodup := by
    refine List.nodup_cons.mpr ⟨fun hmem => ?_, h.map hinj⟩
    obtain ⟨x, hx, hzero⟩ := List.mem_map.mp hmem
    exact h0 ((UInt16.toNat_inj.mp hzero : x = 0) ▸ hx)
  have hle := (List.subperm_of_subset hnodup hsub).length_le
  simp only [List.length_cons, List.length_map, List.length_range] at hle
  omega

end Freeminer.Lib
