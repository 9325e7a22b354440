import Mathlib.Data.Set.Basic

/-! A copy that is kept by messages which name only what was marked since the last one, while the copy
may run ahead at some keys. -/

namespace Freeminer.Lib

variable {K V : Type}

inductive Notice (V : Type) where
  | absent
  | keep
  | full (v : V)

abbrev Message (K V : Type) := K → Notice V

def Notice.apply (old : Option V) : Notice V → Option V
  | .absent => none
  | .keep => old
  | .full v => some v

def replay (r : K → Option V) (messages : List (Message K V)) : K → Option V :=
  messages.foldl (fun r m k => (m k).apply (r k)) r

/-- What is known of the original: the entries that are not marked, its keys, and whether anything is
marked. -/
structure Original (K V : Type) where
  clean : Set (K × V)
  keys : Set K
  modified : Prop

/-- The copy has what is not marked, except at the keys where it ran ahead. -/
structure Synced (o : Original K V) (ahead : Set K) (r : K → Option V) : Prop where
  clean : ∀ k v, (k, v) ∈ o.clean → k ∉ ahead → r k = some v
  gone : ¬o.modified → ∀ k ∉ o.keys, r k = none

/-- The message that makes the clean entries of one original of those of another. -/
structure Describes (m : Message K V) (o o' : Original K V) : Prop where
  clean : ∀ k v, (k, v) ∈ o'.clean → m k = .full v ∨ m k = .keep ∧ (k, v) ∈ o.clean
  gone : ∀ k ∉ o'.keys, m k = .absent

variable {o o' : Original K V} {ahead ahead' : Set K} {r r' : K → Option V} {m : Message K V}
  {messages : List (Message K V)}

theorem replay_append (r : K → Option V) (messages messages' : List (Message K V)) :
    replay r (messages ++ messages') = replay (replay r messages) messages' :=
  List.foldl_append ..

/-- What a copy is at a key depends on what it was there. -/
theorem replay_congr {k : K} (messages : List (Message K V)) (h : r k = r' k) :
    replay r messages k = replay r' messages k := by
  induction messages generalizing r r' with
  | nil => exact h
  | cons m messages ih =>
    apply ih
    exact congrArg (fun old => (m k).apply old) h

theorem replay_eq_none {k : K} (messages : List (Message K V)) (h : r k = none → r' k = none)
    (hnone : replay r messages k = none) : replay r' messages k = none := by
  induction messages generalizing r r' with
  | nil => exact h hnone
  | cons m messages ih =>
    refine ih (r := fun k => (m k).apply (r k)) (fun hk => ?_) hnone
    dsimp only at hk ⊢
    cases hm : m k with
    | absent => rfl
    | keep =>
      rw [hm] at hk
      exact h hk
    | full v =>
      rw [hm] at hk
      cases hk

namespace Synced

/-- The original changes, and marks what it changes. -/
theorem marks (h : Synced o ahead r) (hclean : o'.clean ⊆ o.clean)
    (hgone : ¬o'.modified → ¬o.modified ∧ o.keys ⊆ o'.keys) : Synced o' ahead r where
  clean k v hk := h.clean k v (hclean hk)
  gone hm k hk := h.gone (hgone hm).1 k fun hmem => hk ((hgone hm).2 hmem)

theorem runAhead (h : Synced o ahead (replay r messages)) (hsub : ahead ⊆ ahead')
    (hsame : ∀ k ∉ ahead', r' k = r k) (hnone : ∀ k, r k = none → r' k = none) :
    Synced o ahead' (replay r' messages) where
  clean k v hk hahead := by
    rw [replay_congr messages (hsame k hahead)]
    exact h.clean k v hk fun hmem => hahead (hsub hmem)
  gone hm k hk := replay_eq_none messages (hnone k) (h.gone hm k hk)

/-- The original marks the keys at which the copy ran ahead. -/
theorem catchUp (h : Synced o ahead r)
    (hclean : ∀ k v, (k, v) ∈ o'.clean → (k, v) ∈ o.clean ∧ (k ∈ ahead → k ∈ ahead'))
    (hgone : ¬o'.modified → ¬o.modified ∧ o.keys ⊆ o'.keys) : Synced o' ahead' r where
  clean k v hk hahead := h.clean k v (hclean k v hk).1 fun hmem => hahead ((hclean k v hk).2 hmem)
  gone hm k hk := h.gone (hgone hm).1 k fun hmem => hk ((hgone hm).2 hmem)

/-- The original sends what is marked, and unmarks it. -/
theorem send (h : Synced o ahead (replay r messages)) (hm : Describes m o o') :
    Synced o' ahead (replay r (messages ++ [m])) where
  clean k v hk hahead := by
    rw [replay_append]
    change (m k).apply _ = _
    rcases hm.clean k v hk with hfull | ⟨hkeep, hold⟩
    · rw [hfull]
      rfl
    · rw [hkeep]
      exact h.clean k v hold hahead
  gone _ k hk := by
    rw [replay_append]
    change (m k).apply _ = _
    rw [hm.gone k hk]
    rfl

end Synced

end Freeminer.Lib
