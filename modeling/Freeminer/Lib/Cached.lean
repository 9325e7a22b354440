import Mathlib.Logic.Function.Basic

/-! Values that are cached by key and may expire, and when a change leaves what is cached right. -/

namespace Freeminer.Lib

variable {κ ν : Type*} {value value' cache cache' : κ → Option ν} {k₀ : κ}

def Fresh (value cache : κ → Option ν) : Prop :=
  ∀ k v a, value k = some v → cache k = some a → a = v

theorem fresh_expired : Fresh value fun _ => none := by
  intro k v a _ ha
  cases ha

theorem Fresh.congr (h : Fresh value cache) (hvalue : value' = value) : Fresh value' cache := by
  rwa [hvalue]

/-- What changes at one key is right where it is right at that key. -/
theorem fresh_iff_at (h : Fresh value cache) (hvalue : ∀ k ≠ k₀, value' k = value k)
    (hcache : ∀ k ≠ k₀, cache' k = cache k) :
    Fresh value' cache' ↔ ∀ v a, value' k₀ = some v → cache' k₀ = some a → a = v := by
  constructor
  · exact fun hfresh => hfresh k₀
  · intro hat k v a hv ha
    by_cases hk : k = k₀
    · subst hk
      exact hat v a hv ha
    · rw [hvalue k hk] at hv
      rw [hcache k hk] at ha
      exact h k v a hv ha

variable [DecidableEq κ]

theorem Fresh.expire (h : Fresh value cache) (hvalue : ∀ k ≠ k₀, value' k = value k) :
    Fresh value' (Function.update cache k₀ none) := by
  refine (fresh_iff_at h hvalue fun k hk => Function.update_of_ne hk _ _).mpr ?_
  intro v a _ ha
  rw [Function.update_self] at ha
  cases ha

theorem Fresh.store (h : Fresh value cache) {v : ν} (hvalue : ∀ k ≠ k₀, value' k = value k)
    (hv : value' k₀ = some v) : Fresh value' (Function.update cache k₀ (some v)) := by
  refine (fresh_iff_at h hvalue fun k hk => Function.update_of_ne hk _ _).mpr ?_
  intro u a hu ha
  rw [Function.update_self] at ha
  rw [hv] at hu
  exact (Option.some.inj ha).symm.trans (Option.some.inj hu)

omit [DecidableEq κ] in
/-- A value that changes and does not expire stays right when nothing was cached of it, or when it
is what it was. -/
theorem fresh_kept_iff (h : Fresh value cache) (hvalue : ∀ k ≠ k₀, value' k = value k)
    {v v' : ν} (hv : value k₀ = some v) (hv' : value' k₀ = some v') :
    Fresh value' cache ↔ cache k₀ = none ∨ v' = v := by
  rw [fresh_iff_at h hvalue fun _ _ => rfl]
  cases hc : cache k₀ with
  | none => simp
  | some a =>
    have ha : a = v := h k₀ v a hv hc
    subst ha
    simp [hv', eq_comm]

end Freeminer.Lib
