import Freeminer.Lib.Machine
import Freeminer.Util.Serialize

/-! `KeyValueCached` (`fm_key_value_cached.cpp`): values of a database that are kept in memory, and
what becomes of them when threads put, get, save and unload in any order. Each locked section is one
step; `unload` has two of them. -/

namespace Freeminer.Server

open Lib

/-- The database as it reads and writes while it is open. -/
structure KeyValueCached where
  stats : ByteString → Option ByteString := fun _ => none
  database : ByteString → Option ByteString

namespace KeyValueCached

/-- What `KeyValueStorage::get` leaves in an empty string. -/
def stored (s : KeyValueCached) (key : ByteString) : ByteString := (s.database key).getD []

/-- Every value that is kept is written, and deleted where it is empty. -/
def save (s : KeyValueCached) : KeyValueCached :=
  { s with
    database := fun key =>
      match s.stats key with
      | some value => if value.isEmpty then none else some value
      | none => s.database key }

/-- The second section of `unload`. -/
def clear (s : KeyValueCached) : KeyValueCached := { s with stats := fun _ => none }

def get (s : KeyValueCached) (key : ByteString) : KeyValueCached × ByteString :=
  match s.stats key with
  | some value => (s, value)
  | none => ({ s with stats := Function.update s.stats key (some (s.stored key)) }, s.stored key)

def put (s : KeyValueCached) (key value : ByteString) : KeyValueCached :=
  { s with stats := Function.update s.stats key (some value) }

/-- What `get` returns. -/
def value (s : KeyValueCached) (key : ByteString) : ByteString := (s.get key).2

variable {s : KeyValueCached} {key : ByteString}

theorem value_eq (s : KeyValueCached) (key : ByteString) :
    s.value key = (s.stats key).getD (s.stored key) := by
  cases h : s.stats key <;> simp [value, get, h]

@[simp] theorem stored_clear (s : KeyValueCached) (key : ByteString) :
    s.clear.stored key = s.stored key := rfl

@[simp] theorem stored_put (s : KeyValueCached) (k v key : ByteString) :
    (s.put k v).stored key = s.stored key := rfl

@[simp] theorem value_clear (s : KeyValueCached) (key : ByteString) :
    s.clear.value key = s.stored key := rfl

@[simp] theorem stored_get (s : KeyValueCached) (k key : ByteString) :
    (s.get k).1.stored key = s.stored key := by
  cases h : s.stats k <;> simp [get, h, stored]

@[simp] theorem value_get (s : KeyValueCached) (k key : ByteString) :
    (s.get k).1.value key = s.value key := by
  cases h : s.stats k with
  | some v => simp [get, h]
  | none =>
    simp only [value_eq, stored_get]
    by_cases hk : key = k
    · subst hk
      simp [get, h]
    · simp [get, h, hk]

theorem value_put (s : KeyValueCached) (k v key : ByteString) :
    (s.put k v).value key = if key = k then v else s.value key := by
  simp only [value_eq, stored_put]
  by_cases hk : key = k <;> simp [put, hk]

/-- After a save the database holds what `get` returns. -/
@[simp] theorem stored_save (s : KeyValueCached) (key : ByteString) :
    s.save.stored key = s.value key := by
  rw [value_eq]
  cases h : s.stats key with
  | none => simp [stored, save, h]
  | some v => cases v <;> simp [stored, save, h]

@[simp] theorem value_save (s : KeyValueCached) (key : ByteString) :
    s.save.value key = s.value key := by
  rw [value_eq s.save, stored_save, value_eq s]
  cases h : s.stats key <;> simp [save, h]

/-! ## Threads -/

inductive Call where
  | put (key value : ByteString)
  | get (key : ByteString)
  | save
  | unload

/-- The store with the threads that are between the sections of `unload`, each with the keys that
were put since it saved, and the value that was put last for each key. -/
structure System where
  store : KeyValueCached
  unloading : ℕ → Option (List ByteString) := fun _ => none
  written : ByteString → Option ByteString := fun _ => none

namespace System

def put (s : System) (key value : ByteString) : System where
  store := s.store.put key value
  unloading t := (s.unloading t).map (key :: ·)
  written := Function.update s.written key (some value)

/-- The next step of a thread: the rest of its `unload`, or else the call that it makes. -/
def step (s : System) (thread : ℕ) (call : Call) : System × Option ByteString :=
  match s.unloading thread, call with
  | some _, _ =>
    ({ s with store := s.store.clear, unloading := Function.update s.unloading thread none }, none)
  | none, .put key value => (s.put key value, some value)
  | none, .get key => ({ s with store := (s.store.get key).1 }, some (s.store.get key).2)
  | none, .save => ({ s with store := s.store.save }, none)
  | none, .unload =>
    ({ s with
      store := s.store.save
      unloading := Function.update s.unloading thread (some []) }, none)

def machine (database : ByteString → Option ByteString) :
    Machine System (ℕ × Call) (Option ByteString) where
  init := { store := { database } }
  step s a := some (s.step a.1 a.2)

def Saved (s : System) (except : List ByteString) : Prop :=
  ∀ key v, key ∉ except → s.written key = some v → s.store.stored key = v

/-- The call is answered with what was put; when it completes a save or an unload, what was put before
it is in the database. -/
def Serves (s : System) (thread : ℕ) (call : Call) : Prop :=
  match s.unloading thread, call with
  | some since, _ => (s.step thread call).1.Saved since
  | none, .get key => ∀ v, s.written key = some v → (s.step thread call).2 = some v
  | none, .save => (s.step thread call).1.Saved []
  | none, _ => True

/-- No write is lost: `get` returns what was put, and every call that may come next is served. -/
def NoneLost (s : System) : Prop :=
  (∀ key v, s.written key = some v → s.store.value key = v) ∧
    ∀ thread call, s.Serves thread call

/-- Where the step drops the cache, all that was put is in the database. -/
def DropsSaved (s : System) (a : ℕ × Call) : Prop :=
  (s.unloading a.1).isSome = true → s.Saved []

variable {s : System}

theorem noneLost_iff : s.NoneLost ↔
    (∀ key v, s.written key = some v → s.store.value key = v) ∧
      ∀ thread since, s.unloading thread = some since → s.Saved since := by
  refine and_congr_right fun hkept => ⟨fun h thread since hsince => ?_, fun h thread call => ?_⟩
  · have hserves := h thread .save
    simp only [Serves, hsince] at hserves
    intro key v hkey hv
    have := hserves key v hkey (by simpa [step, hsince] using hv)
    simpa [step, hsince] using this
  · unfold Serves
    cases hunload : s.unloading thread with
    | some since =>
      intro key v hkey hv
      have hv : s.written key = some v := by simpa [step, hunload] using hv
      simpa [step, hunload] using h thread since hunload key v hkey hv
    | none =>
      cases call with
      | put key value => trivial
      | unload => trivial
      | get key =>
        intro v hv
        simpa [step, hunload, value] using hkept key v hv
      | save =>
        intro key v _ hv
        have hv : s.written key = some v := by simpa [step, hunload] using hv
        simpa [step, hunload] using hkept key v hv

/-- Only the step that drops the cache can lose a write. -/
theorem noneLost_step_iff (h : s.NoneLost) (a : ℕ × Call) :
    (s.step a.1 a.2).1.NoneLost ↔ s.DropsSaved a := by
  obtain ⟨hkept, hsaved⟩ := noneLost_iff.mp h
  obtain ⟨thread, call⟩ := a
  unfold DropsSaved
  rw [noneLost_iff]
  cases hunload : s.unloading thread with
  | some since =>
    constructor
    · intro hstep _ key v _ hv
      have := hstep.1 key v (by simpa [step, hunload] using hv)
      simpa [step, hunload] using this
    · intro hall
      have hall : s.Saved [] := hall rfl
      refine ⟨fun key v hv => ?_, fun t since' ht key v hkey hv => ?_⟩
      · have hv : s.written key = some v := by simpa [step, hunload] using hv
        simpa [step, hunload] using hall key v List.not_mem_nil hv
      · have hv : s.written key = some v := by simpa [step, hunload] using hv
        simpa [step, hunload] using hall key v List.not_mem_nil hv
  | none =>
    refine iff_of_true ?_ fun hnone => by cases hnone
    cases call with
    | put k value =>
      refine ⟨fun key v hv => ?_, fun t since ht key v hkey hv => ?_⟩
      · have hv : Function.update s.written k (some value) key = some v := by
          simpa [step, hunload, put] using hv
        have hvalue : (s.step thread (.put k value)).1.store.value key =
            if key = k then value else s.store.value key := by
          simp only [step, hunload, put]
          exact value_put s.store k value key
        rw [hvalue]
        by_cases hk : key = k
        · subst hk
          rw [Function.update_self] at hv
          rw [if_pos rfl]
          exact Option.some.inj hv
        · rw [Function.update_of_ne hk] at hv
          rw [if_neg hk]
          exact hkept key v hv
      · obtain ⟨since₀, hsince₀, rfl⟩ : ∃ l, s.unloading t = some l ∧ k :: l = since := by
          simpa [step, hunload, put] using ht
        obtain ⟨hne, hnot⟩ := not_or.mp (fun hor => hkey (List.mem_cons.mpr hor))
        have hv : s.written key = some v := by
          simpa [step, hunload, put, Function.update_of_ne hne] using hv
        simpa [step, hunload, put] using hsaved t since₀ hsince₀ key v hnot hv
    | get k =>
      refine ⟨fun key v hv => ?_, fun t since ht key v hkey hv => ?_⟩
      · simpa [step, hunload] using hkept key v (by simpa [step, hunload] using hv)
      · simpa [step, hunload] using
          hsaved t since (by simpa [step, hunload] using ht) key v hkey
            (by simpa [step, hunload] using hv)
    | save =>
      refine ⟨fun key v hv => ?_, fun t since ht key v hkey hv => ?_⟩
      · simpa [step, hunload] using hkept key v (by simpa [step, hunload] using hv)
      · simpa [step, hunload] using hkept key v (by simpa [step, hunload] using hv)
    | unload =>
      refine ⟨fun key v hv => ?_, fun t since ht key v hkey hv => ?_⟩
      · simpa [step, hunload] using hkept key v (by simpa [step, hunload] using hv)
      · simpa [step, hunload] using hkept key v (by simpa [step, hunload] using hv)

/-- Over any interleaving no write is lost in any state just when each `unload` drops the cache
while all that was put is in the database. -/
theorem noneLost_always_iff (database : ByteString → Option ByteString)
    (as : List (ℕ × Call)) :
    (∀ as' rest r, as = as' ++ rest → (machine database).run (machine database).init as' = some r →
        r.1.NoneLost) ↔
      (machine database).Allowed DropsSaved (machine database).init as := by
  apply Machine.always_iff_allowed
  · intro s a x h hx
    obtain rfl : s.step a.1 a.2 = x := Option.some.inj hx
    exact noneLost_step_iff h a
  · exact fun _ _ => rfl
  · refine noneLost_iff.mpr ⟨fun key v hv => ?_, fun thread since hsince => ?_⟩
    · cases hv
    · cases hsince

/-- A value is put between the sections of an `unload`, and the next `get` does not return it. -/
theorem not_noneLost : ¬∀ (database : ByteString → Option ByteString) (as : List (ℕ × Call)) r,
    (machine database).run (machine database).init as = some r → r.1.NoneLost := by
  intro h
  have hlost := (h (fun _ => none) [(0, .unload), (1, .put [107] [118]), (0, .save)] _ rfl).1
    [107] [118] (by decide)
  revert hlost
  decide

end System

end KeyValueCached

end Freeminer.Server
