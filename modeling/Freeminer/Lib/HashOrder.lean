import Mathlib.Data.Finmap

/-! Hash maps, written in an iteration order that only they know and read back by insertion. -/

set_option linter.unusedSectionVars false

namespace Freeminer.Lib

variable {α β : Type} [DecidableEq α]

structure HashOrder (α β : Type) where
  entries : (Finmap fun _ : α => β) → List (Sigma fun _ : α => β)
  entries_eq : ∀ m, (entries m : Multiset (Sigma fun _ : α => β)) = m.entries

variable {m : Finmap fun _ : α => β} {l : List (Sigma fun _ : α => β)} {k : α} {v : β}

def insertAll (l : List (Sigma fun _ : α => β)) (m : Finmap fun _ : α => β) :
    Finmap fun _ : α => β :=
  l.foldl (fun m e => m.insert e.1 e.2) m

theorem lookup_insertAll (h : l.NodupKeys) (m : Finmap fun _ : α => β) (k : α) :
    (insertAll l m).lookup k = (l.dlookup k).or (m.lookup k) := by
  unfold insertAll
  induction l generalizing m with
  | nil => simp
  | cons e l ih =>
    obtain ⟨k', v'⟩ := e
    rw [List.nodupKeys_cons] at h
    rw [List.foldl_cons, ih h.2]
    by_cases hk : k = k'
    · subst hk
      rw [List.dlookup_eq_none.mpr h.1, List.dlookup_cons_eq, Finmap.lookup_insert]
      rfl
    · rw [List.dlookup_cons_ne _ _ hk, Finmap.lookup_insert_of_ne _ hk]

namespace HashOrder

variable (order : HashOrder α β)

theorem nodupKeys (m : Finmap fun _ : α => β) : (order.entries m).NodupKeys := by
  have := m.nodupKeys
  rwa [← order.entries_eq m, Multiset.coe_nodupKeys] at this

theorem dlookup (m : Finmap fun _ : α => β) (k : α) :
    (order.entries m).dlookup k = m.lookup k := by
  have hm : m = AList.toFinmap ⟨order.entries m, order.nodupKeys m⟩ :=
    Finmap.ext (order.entries_eq m).symm
  conv_rhs => rw [hm]
  rfl

theorem mem_entries : ⟨k, v⟩ ∈ order.entries m ↔ m.lookup k = some v := by
  rw [← order.dlookup, ← Option.mem_def, List.mem_dlookup_iff (order.nodupKeys m)]

theorem insertAll_entries (m : Finmap fun _ : α => β) : insertAll (order.entries m) ∅ = m := by
  refine Finmap.ext_lookup fun k => ?_
  rw [lookup_insertAll (order.nodupKeys m), order.dlookup, Finmap.lookup_empty, Option.or_none]

theorem length_entries (m : Finmap fun _ : α => β) :
    (order.entries m).length = m.keys.card := by
  have h := congrArg Multiset.card (order.entries_eq m)
  rw [Multiset.coe_card] at h
  rw [h, ← Finset.card_val]
  exact (Multiset.card_map _ _).symm

theorem entries_singleton (k : α) (v : β) :
    order.entries ((∅ : Finmap fun _ : α => β).insert k v) = [⟨k, v⟩] := by
  exact Multiset.coe_eq_singleton.mp (order.entries_eq _)

noncomputable def any (α β : Type) : HashOrder α β where
  entries m := m.entries.toList
  entries_eq _ := Multiset.coe_toList _

end HashOrder

structure SetOrder (α : Type) where
  entries : Finset α → List α
  entries_eq : ∀ s, (entries s : Multiset α) = s.val

namespace SetOrder

variable (order : SetOrder α) {s : Finset α} {a : α}

@[simp] theorem mem_entries : a ∈ order.entries s ↔ a ∈ s := by
  rw [← Multiset.mem_coe, order.entries_eq, Finset.mem_val]

noncomputable def any (α : Type) : SetOrder α where
  entries s := s.toList
  entries_eq s := s.coe_toList

end SetOrder

end Freeminer.Lib
