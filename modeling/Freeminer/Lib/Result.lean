import Mathlib.Data.List.Forall2

/-! Computations that may throw: what follows from their success. -/

namespace Freeminer.Lib

universe u v

variable {ε : Type u} {α β : Type v}

theorem bind_eq_ok {x : Except ε α} {f : α → Except ε β} {b : β} :
    (x >>= f) = .ok b ↔ ∃ a, x = .ok a ∧ f a = .ok b := by
  cases x with
  | error e => exact ⟨nofun, fun ⟨_, h, _⟩ => nomatch h⟩
  | ok a => exact ⟨fun h => ⟨a, rfl, h⟩, fun ⟨_, ha, h⟩ => Except.ok.inj ha ▸ h⟩

theorem ok_of_toOption {x : Except ε α} {a : α} (h : x.toOption = some a) : x = .ok a := by
  cases x with
  | error e => cases h
  | ok b => rw [Option.some.inj h]

end Freeminer.Lib

/-! Lists whose elements are related one by one. -/

namespace Freeminer.Lib

universe u v w

variable {α : Type u} {β : Type v} {γ : Type w} {R : α → β → Prop} {S : β → γ → Prop}
  {T : α → γ → Prop} {l : List α} {m : List β} {n : List γ}

theorem forall₂_comp (hT : ∀ a b c, R a b → S b c → T a c) (h : List.Forall₂ R l m)
    (h' : List.Forall₂ S m n) : List.Forall₂ T l n := by
  induction h generalizing n with
  | nil =>
    obtain rfl := List.forall₂_nil_left_iff.mp h'
    exact .nil
  | cons hab _ ih =>
    obtain ⟨c, n, hbc, hrest, rfl⟩ := List.forall₂_cons_left_iff.mp h'
    exact .cons (hT _ _ _ hab hbc) (ih hrest)

theorem exists_right (h : List.Forall₂ R l m) {a : α} (ha : a ∈ l) : ∃ b ∈ m, R a b := by
  induction h with
  | nil => cases ha
  | cons hab _ ih =>
    rcases List.mem_cons.mp ha with rfl | ha
    · exact ⟨_, List.mem_cons_self, hab⟩
    · obtain ⟨b, hb, hR⟩ := ih ha
      exact ⟨b, List.mem_cons_of_mem _ hb, hR⟩

theorem exists_left (h : List.Forall₂ R l m) {b : β} (hb : b ∈ m) : ∃ a ∈ l, R a b :=
  exists_right (R := fun b a => R a b) h.flip hb

end Freeminer.Lib

/-! Entries that are written one after the other and read back one by one into a state, from a
stream that a text feeds. An entry that is not read leaves the state as it is. -/

namespace Freeminer.Lib

variable {ε α β σ S : Type}

def writeEntries (write : α → Except ε (List β)) : List α → Except ε (List β)
  | [] => .ok []
  | e :: es => do
    let text ← write e
    let texts ← writeEntries write es
    pure (text ++ texts)

/-- Reads a number of entries, or fewer if one of them is the last. -/
def readEntries (read : σ → S → Except ε (Option σ × S)) : ℕ → σ → S → σ × Except ε S
  | 0, s, is => (s, .ok is)
  | n + 1, s, is =>
    match read s is with
    | .error e => (s, .error e)
    | .ok (none, is) => (s, .ok is)
    | .ok (some s, is) => readEntries read n s is

theorem writeEntries_congr {γ : Type} {write : α → Except ε (List β)}
    {write' : γ → Except ε (List β)} {es : List α} {es' : List γ} (h : List.Forall₂ (fun e e' => write e = write' e') es es') :
    writeEntries write es = writeEntries write' es' := by
  induction h with
  | nil => rfl
  | cons hfirst _ ih => rw [writeEntries, writeEntries, hfirst, ih]

/-- What was written of some entries and of those after them. -/
theorem writeEntries_append {write : α → Except ε (List β)} {es es' : List α} {text : List β}
    (h : writeEntries write (es ++ es') = .ok text) :
    ∃ text₁ text₂, writeEntries write es = .ok text₁ ∧ writeEntries write es' = .ok text₂ ∧
      text = text₁ ++ text₂ := by
  induction es generalizing text with
  | nil => exact ⟨[], text, rfl, h, rfl⟩
  | cons e es ih =>
    obtain ⟨first, hfirst, h⟩ := bind_eq_ok.mp h
    obtain ⟨texts, htexts, h⟩ := bind_eq_ok.mp h
    cases h
    obtain ⟨text₁, text₂, h₁, h₂, rfl⟩ := ih htexts
    refine ⟨first ++ text₁, text₂, ?_, h₂, (List.append_assoc ..).symm⟩
    rw [writeEntries, hfirst, h₁]
    rfl

theorem writeEntries_ok (text : α → List β) (es : List α) :
    writeEntries (fun e => (.ok (text e) : Except ε (List β))) es = .ok (es.flatMap text) := by
  induction es with
  | nil => rfl
  | cons e es ih =>
    rw [writeEntries, ih, List.flatMap_cons]
    rfl

/-- What holds after a number of entries were read. -/
theorem readEntries_invariant {read : σ → S → Except ε (Option σ × S)} {P : ℕ → σ → Prop}
    (hread : ∀ i s is s' is', P i s → read s is = .ok (some s', is') → P (i + 1) s')
    {i : ℕ} {s : σ} (hs : P i s) (n : ℕ) (is : S) :
    ∃ j, j ≤ n ∧ P (i + j) (readEntries read n s is).1 := by
  induction n generalizing i s is with
  | zero => exact ⟨0, Nat.le_refl 0, hs⟩
  | succ n ih =>
    unfold readEntries
    cases h : read s is with
    | error e => exact ⟨0, Nat.zero_le _, hs⟩
    | ok r =>
      obtain ⟨s', is'⟩ := r
      cases s' with
      | none => exact ⟨0, Nat.zero_le _, hs⟩
      | some s' =>
        obtain ⟨j, hj, hP⟩ := ih (hread i s is s' is' hs h) is'
        refine ⟨j + 1, Nat.succ_le_succ hj, ?_⟩
        rwa [Nat.add_assoc, Nat.add_comm 1 j] at hP

variable {write : α → Except ε (List β)} (read : σ → S → Except ε (Option σ × S))
  (put : σ → α → σ) (feed : List β → S) (I : σ → List α → Prop) {es : List α} {text : List β}

/-- Entries that are written are put into the state in their order, where each of them is read as
what `put` makes of it; `I` is what holds of the state before the entries that are left. -/
theorem readEntries_append
    (hread : ∀ s e es text, I s (e :: es) → write e = .ok text → ∀ rest,
      read s (feed (text ++ rest)) = .ok (some (put s e), feed rest))
    (hstep : ∀ s e es, I s (e :: es) → I (put s e) es)
    (h : writeEntries write es = .ok text) {s : σ} (hs : I s es) (rest : List β) :
    readEntries read es.length s (feed (text ++ rest)) = (es.foldl put s, .ok (feed rest)) := by
  induction es generalizing s text with
  | nil =>
    cases h
    rfl
  | cons e es ih =>
    obtain ⟨text₁, hfirst, h⟩ := bind_eq_ok.mp h
    obtain ⟨texts, htexts, h⟩ := bind_eq_ok.mp h
    cases h
    rw [List.length_cons, List.append_assoc, readEntries, hread s e es text₁ hs hfirst]
    exact ih htexts (hstep s e es hs)

end Freeminer.Lib
