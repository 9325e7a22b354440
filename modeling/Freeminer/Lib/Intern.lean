import Mathlib.Data.List.Nodup
import Mathlib.Data.List.Range

/-! Interning into a table that numbers its rows from 1, with the numbers known so far kept beside
it. The number of a value stays its number, and two values never share one. -/

namespace Freeminer.Lib

/-- The known numbers, and how many rows the table has. -/
structure Interned (α : Type*) where
  known : List (ℕ × α) := []
  rows : ℕ := 0

namespace Interned

variable {α : Type*}

def name? (t : Interned α) (id : ℕ) : Option α :=
  (t.known.find? fun e => e.1 == id).map Prod.snd

/-- The number of a value, which gets the next row where it has none. -/
def intern [DecidableEq α] (t : Interned α) (a : α) : ℕ × Interned α :=
  match t.known.find? fun e => e.2 == a with
  | some e => (e.1, t)
  | none => (t.rows + 1, { known := t.known ++ [(t.rows + 1, a)], rows := t.rows + 1 })

/-- Every number is that of a row, and the numbers and the values are pairwise different. -/
structure WellFormed (t : Interned α) : Prop where
  ids : (t.known.map Prod.fst).Nodup
  names : (t.known.map Prod.snd).Nodup
  bound : ∀ e ∈ t.known, 1 ≤ e.1 ∧ e.1 ≤ t.rows

def Extends (t t' : Interned α) : Prop := ∀ id a, t.name? id = some a → t'.name? id = some a

theorem Extends.refl (t : Interned α) : Extends t t := fun _ _ h => h

theorem Extends.trans {t₁ t₂ t₃ : Interned α} (h : Extends t₁ t₂) (h' : Extends t₂ t₃) :
    Extends t₁ t₃ := fun id a ha => h' id a (h id a ha)

theorem wellFormed_empty : ({} : Interned α).WellFormed := ⟨by simp, by simp, by simp⟩

variable {t : Interned α} {a b : α} {id : ℕ}

theorem mem_of_name? (h : t.name? id = some a) : (id, a) ∈ t.known := by
  unfold name? at h
  cases hf : t.known.find? fun e => e.1 == id with
  | none => simp [hf] at h
  | some e =>
    have hid : e.1 = id := by simpa using List.find?_some hf
    have ha : e.2 = a := by simpa [hf] using h
    have hmem := List.mem_of_find?_eq_some hf
    rwa [← hid, ← ha]

theorem WellFormed.name?_eq (h : t.WellFormed) (hmem : (id, a) ∈ t.known) :
    t.name? id = some a := by
  unfold name?
  cases hf : t.known.find? fun e => e.1 == id with
  | none => simpa using List.find?_eq_none.mp hf _ hmem
  | some e =>
    have hid : e.1 = id := by simpa using List.find?_some hf
    have he : e = (id, a) :=
      List.inj_on_of_nodup_map h.ids (List.mem_of_find?_eq_some hf) hmem hid
    simp [he]

variable [DecidableEq α]

theorem WellFormed.intern (h : t.WellFormed) (a : α) : (t.intern a).2.WellFormed := by
  unfold Interned.intern
  cases hf : t.known.find? fun e => e.2 == a with
  | some e => exact h
  | none =>
    have hnew : ∀ e ∈ t.known, e.2 ≠ a := by simpa using List.find?_eq_none.mp hf
    refine ⟨?_, ?_, ?_⟩
    · rw [List.map_append, List.nodup_append]
      refine ⟨h.ids, by simp, ?_⟩
      intro i hi j hj
      obtain ⟨e, he, rfl⟩ := List.mem_map.mp hi
      have hle := (h.bound e he).2
      have hj' : j = t.rows + 1 := by simpa using hj
      omega
    · rw [List.map_append, List.nodup_append]
      refine ⟨h.names, by simp, ?_⟩
      intro x hx y hy
      obtain ⟨e, he, rfl⟩ := List.mem_map.mp hx
      have hy' : y = a := by simpa using hy
      rw [hy']
      exact hnew e he
    · intro e he
      rcases List.mem_append.mp he with he | he
      · have := h.bound e he
        exact ⟨this.1, by simp only; omega⟩
      · have : e = (t.rows + 1, a) := by simpa using he
        simp [this]

/-- The number handed out names the value. -/
theorem WellFormed.name?_intern (h : t.WellFormed) (a : α) :
    (t.intern a).2.name? (t.intern a).1 = some a := by
  apply (h.intern a).name?_eq
  unfold Interned.intern
  cases hf : t.known.find? fun e => e.2 == a with
  | some e =>
    have ha : e.2 = a := by simpa using List.find?_some hf
    have hmem := List.mem_of_find?_eq_some hf
    show (e.1, a) ∈ t.known
    rwa [← ha]
  | none => simp

theorem extends_intern (t : Interned α) (a : α) : Extends t (t.intern a).2 := by
  intro id b hb
  unfold Interned.intern
  cases t.known.find? fun e => e.2 == a with
  | some e => exact hb
  | none =>
    unfold name? at hb ⊢
    cases hf : t.known.find? fun e => e.1 == id with
    | none => simp [hf] at hb
    | some e =>
      have hb' : e.2 = b := by simpa [hf] using hb
      simp [List.find?_append, hf, hb']

/-- Two values have one number only where they are the same. -/
theorem WellFormed.intern_eq_iff (h : t.WellFormed) (hb : t.name? id = some b) :
    id = (t.intern a).1 ↔ b = a := by
  have hid := extends_intern t a id b hb
  constructor
  · intro heq
    rw [heq, h.name?_intern a] at hid
    exact (Option.some.inj hid).symm
  · intro heq
    have hmem := mem_of_name? hid
    have hmem' := mem_of_name? (h.name?_intern a)
    have := List.inj_on_of_nodup_map (h.intern a).names hmem hmem' heq
    exact congrArg Prod.fst this

end Interned

/-! The distinct values of a list in the order in which they first occur, and their places in it. -/

variable {α : Type} [DecidableEq α]

def distinctFrom (seen : List α) : List α → List α
  | [] => seen
  | a :: l => if a ∈ seen then distinctFrom seen l else distinctFrom (seen ++ [a]) l

def distinct (l : List α) : List α := distinctFrom [] l

variable {seen l : List α} {a : α}

theorem prefix_distinctFrom (seen l : List α) : seen <+: distinctFrom seen l := by
  induction l generalizing seen with
  | nil => exact List.prefix_refl _
  | cons a l ih =>
    unfold distinctFrom
    split_ifs with hmem
    · exact ih seen
    · exact (List.prefix_append _ _).trans (ih _)

theorem mem_distinctFrom : a ∈ distinctFrom seen l ↔ a ∈ seen ∨ a ∈ l := by
  induction l generalizing seen with
  | nil => simp [distinctFrom]
  | cons b l ih =>
    unfold distinctFrom
    split_ifs with hmem
    · rw [ih, List.mem_cons]
      constructor
      · rintro (h | h)
        · exact .inl h
        · exact .inr (.inr h)
      · rintro (h | rfl | h)
        · exact .inl h
        · exact .inl hmem
        · exact .inr h
    · rw [ih, List.mem_append, List.mem_singleton, List.mem_cons, or_assoc]

theorem nodup_distinctFrom (h : seen.Nodup) : (distinctFrom seen l).Nodup := by
  induction l generalizing seen with
  | nil => exact h
  | cons a l ih =>
    unfold distinctFrom
    split_ifs with hmem
    · exact ih h
    · exact ih (List.nodup_append.mpr ⟨h, List.nodup_singleton a, by
        intro b hb c hc heq
        rw [List.mem_singleton] at hc
        exact hmem (hc ▸ heq ▸ hb)⟩)

theorem mem_distinct : a ∈ distinct l ↔ a ∈ l := by simp [distinct, mem_distinctFrom]

theorem nodup_distinct (l : List α) : (distinct l).Nodup := nodup_distinctFrom List.nodup_nil

/-- A value keeps its place when more are seen. -/
theorem idxOf_distinctFrom (h : a ∈ seen) : (distinctFrom seen l).idxOf a = seen.idxOf a := by
  obtain ⟨rest, hrest⟩ := prefix_distinctFrom seen l
  rw [← hrest, List.idxOf_append_of_mem h]

/-- Where a list begins with the values, each is found at its place. -/
theorem prefix_iff_idxOf {R : List α} (h : seen.Nodup) :
    seen <+: R ↔ ∀ a ∈ seen, R[seen.idxOf a]? = some a := by
  rw [List.prefix_iff_getElem?]
  constructor
  · intro hR a ha
    rw [hR _ (List.idxOf_lt_length_of_mem ha), List.getElem_idxOf]
  · intro hR i hi
    have := hR seen[i] (List.getElem_mem hi)
    rwa [h.idxOf_getElem] at this

end Freeminer.Lib
