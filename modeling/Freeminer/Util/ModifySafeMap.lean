import Std.Data.ExtTreeMap
import Mathlib.Algebra.Ring.Nat
import Freeminer.Lib.Machine

/-! `ModifySafeMap` (`util/container.h`): a map that may be changed while it is iterated. Entries
that are put during an iteration go to a map of their own, removed ones stay as null values, and
both are tidied up when the last iteration ends. -/

set_option linter.unusedSectionVars false

namespace Freeminer.Util

open Std Lib

variable {K V : Type} [Ord K] [TransOrd K] [LawfulEqOrd K]

/-- A null value is `none`; the copy of a `locker` has no part in it. -/
structure ModifySafeMap (K V : Type) [Ord K] where
  values : ExtTreeMap K (Option V) := ∅
  new : ExtTreeMap K (Option V) := ∅
  iterating : UInt32 := 0
  /-- About how many null values there are; only compared with zero and with half the size. -/
  garbage : ℕ := 0

namespace ModifySafeMap

def GC_MIN_SIZE : ℕ := 30

section Operations

variable (m : ModifySafeMap K V)

/-- The value that is found in `m_values`, or the null value. -/
def find (key : K) : Option V := m.values[key]?.getD none

def get (key : K) : Option V :=
  if m.iterating ≠ 0 then m.new[key]?.getD (m.find key) else m.find key

def put (key : K) (value : Option V) : ModifySafeMap K V :=
  if value.isNone then m
  else if m.iterating ≠ 0 then
    if key ∈ m.values then
      { m with values := m.values.insert key none, garbage := m.garbage + 1,
               new := m.new.insert key value }
    else { m with new := m.new.insert key value }
  else { m with values := m.values.insert key value }

/-- The first part of `take`, which looks at `m_new`. -/
def takeNew (key : K) : ModifySafeMap K V × Option V :=
  if m.iterating ≠ 0 then ({ m with new := m.new.erase key }, m.new[key]?.getD none) else (m, none)

def takeValue (key : K) (ret : Option V) : ModifySafeMap K V × Option V :=
  match m.values[key]? with
  | none => (m, ret)
  | some old =>
    if m.iterating ≠ 0 then
      ({ m with values := m.values.insert key none, garbage := m.garbage + 1 }, ret.or old)
    else ({ m with values := m.values.erase key }, ret.or old)

def take (key : K) : ModifySafeMap K V × Option V :=
  (m.takeNew key).1.takeValue key (m.takeNew key).2

def remove (key : K) : ModifySafeMap K V × Bool := ((m.take key).1, (m.take key).2.isSome)

/-- The number of entries; `none` stands for `unknown`. -/
def size : Option ℕ :=
  if m.iterating ≠ 0 then none
  else if m.garbage = 0 then some m.values.size
  else some (m.values.foldl (fun n _ v => n + if v.isSome then 1 else 0) 0)

def empty : Bool :=
  if m.iterating ≠ 0 then false
  else if m.garbage = 0 then m.values.isEmpty
  else m.values.toList.all fun e => e.2.isNone

def clear : ModifySafeMap K V :=
  if m.iterating ≠ 0 then
    { m with values := m.values.map fun _ _ => none, garbage := m.values.size }
  else { m with values := ∅, garbage := 0 }

/-- Entries of `m_new` take precedence. -/
def mergeNew : ModifySafeMap K V :=
  if m.new.isEmpty then m else { m with values := m.values ∪ m.new, new := ∅ }

def collectGarbage : ModifySafeMap K V :=
  if m.values.size < GC_MIN_SIZE ∨ m.garbage < m.values.size / 2 then m
  else { m with values := m.values.filter fun _ v => v.isSome, garbage := 0 }

/-- The constructor of `IterationHelper`. -/
def iter : ModifySafeMap K V := { m with iterating := m.iterating + 1 }

/-- The destructor of `IterationHelper`. -/
def endIter : ModifySafeMap K V :=
  let m' := { m with iterating := m.iterating - 1 }
  if m'.iterating = 0 then m'.mergeNew.collectGarbage else m'

/-- What an iteration meets from `begin()` to `end()`, null values left out. -/
def entries : List (K × V) := m.values.toList.filterMap fun e => e.2.map (e.1, ·)

end Operations

end ModifySafeMap

/-- The operations of a map and of the iterations over it. -/
inductive MapOp (K V : Type) where
  | put (key : K) (value : Option V)
  | take (key : K)
  | remove (key : K)
  | clear
  | get (key : K)
  | size
  | empty
  | entries
  | iter
  | endIter
  | collectGarbage

inductive MapAnswer (K V : Type) where
  | value (v : Option V)
  | removed (b : Bool)
  | count (n : Option ℕ)
  | isEmpty (b : Bool)
  | listing (l : List (K × V))
  | done
  deriving DecidableEq

namespace ModifySafeMap

/-- Only an iteration that runs can end, and garbage is collected when none runs. -/
def step (m : ModifySafeMap K V) : MapOp K V → Option (ModifySafeMap K V × MapAnswer K V)
  | .put key value => some (m.put key value, .done)
  | .take key => some ((m.take key).1, .value (m.take key).2)
  | .remove key => some ((m.remove key).1, .removed (m.remove key).2)
  | .clear => some (m.clear, .done)
  | .get key => some (m, .value (m.get key))
  | .size => some (m, .count m.size)
  | .empty => some (m, .isEmpty m.empty)
  | .entries => some (m, .listing m.entries)
  | .iter => some (m.iter, .done)
  | .endIter => if m.iterating = 0 then none else some (m.endIter, .done)
  | .collectGarbage => if m.iterating = 0 then some (m.collectGarbage, .done) else none

def machine (K V : Type) [Ord K] [TransOrd K] [LawfulEqOrd K] :
    Machine (ModifySafeMap K V) (MapOp K V) (MapAnswer K V) := ⟨{}, step⟩

end ModifySafeMap

/-- An ordinary map, and how many iterations run over it. -/
structure OrdinaryMap (K V : Type) [Ord K] where
  values : ExtTreeMap K V := ∅
  iterating : ℕ := 0

namespace OrdinaryMap

def step (m : OrdinaryMap K V) : MapOp K V → Option (OrdinaryMap K V × MapAnswer K V)
  | .put _ none => some (m, .done)
  | .put key (some v) => some ({ m with values := m.values.insert key v }, .done)
  | .take key => some ({ m with values := m.values.erase key }, .value m.values[key]?)
  | .remove key => some ({ m with values := m.values.erase key }, .removed m.values[key]?.isSome)
  | .clear => some ({ m with values := ∅ }, .done)
  | .get key => some (m, .value m.values[key]?)
  | .size => some (m, .count (some m.values.size))
  | .empty => some (m, .isEmpty m.values.isEmpty)
  | .entries => some (m, .listing m.values.toList)
  | .iter => some ({ m with iterating := m.iterating + 1 }, .done)
  | .endIter =>
    if m.iterating = 0 then none else some ({ m with iterating := m.iterating - 1 }, .done)
  | .collectGarbage => if m.iterating = 0 then some (m, .done) else none

def machine (K V : Type) [Ord K] [TransOrd K] [LawfulEqOrd K] :
    Machine (OrdinaryMap K V) (MapOp K V) (MapAnswer K V) := ⟨{}, step⟩

end OrdinaryMap

namespace ModifySafeMap

def content (m : ModifySafeMap K V) : ExtTreeMap K V := (m.values ∪ m.new).filterMap fun _ v => v

theorem content_getElem? (m : ModifySafeMap K V) (k : K) :
    m.content[k]? = (m.new[k]?.or m.values[k]?).join := by
  rw [content, ExtTreeMap.getElem?_filterMap', ExtTreeMap.getElem?_union]
  rfl

/-- A new entry is not null and hides a null value; there are new entries during an iteration only,
and null values only where they are counted. -/
structure Inv (m : ModifySafeMap K V) : Prop where
  new_ne : ∀ k : K, m.new[k]? ≠ some none
  hidden : ∀ k : K, m.new[k]? ≠ none → m.values[k]?.join = none
  idle : m.iterating = 0 → m.new = ∅
  counted : m.garbage = 0 → ∀ k : K, m.values[k]? ≠ some none

theorem inv_init : ({} : ModifySafeMap K V).Inv := by
  constructor <;> simp

variable {m : ModifySafeMap K V}

theorem Inv.new_empty (h : m.Inv) (hi : ¬ m.iterating ≠ 0) : m.new = ∅ :=
  h.idle (Decidable.not_not.mp hi)

theorem get_eq (h : m.Inv) (key : K) : m.get key = m.content[key]? := by
  rw [content_getElem?]
  unfold get find
  split_ifs with hi
  · cases hn : m.new[key]? with
    | none => cases m.values[key]? <;> rfl
    | some v => rfl
  · rw [h.new_empty hi]
    cases hv : m.values[key]? <;> simp

section Put

theorem put_content (h : m.Inv) (key : K) (v : V) :
    (m.put key (some v)).content = m.content.insert key v := by
  apply ExtTreeMap.ext_getElem?
  intro k
  rw [content_getElem?, ExtTreeMap.getElem?_insert, content_getElem?]
  unfold put
  by_cases hk : compare key k = .eq
  · obtain rfl := LawfulEqCmp.eq_of_compare hk
    split_ifs with hv hi hm
    · simp at hv
    · simp
    · simp
    · simp [h.new_empty hi]
  · split_ifs <;> simp_all [ExtTreeMap.getElem?_insert]

theorem put_inv (h : m.Inv) (key : K) (value : Option V) : (m.put key value).Inv := by
  unfold put
  split_ifs with hv hi hm
  · exact h
  · refine ⟨fun k => ?_, fun k => ?_, fun h0 => absurd h0 hi, fun h0 => by simp at h0⟩
    · have := h.new_ne k
      rw [ExtTreeMap.getElem?_insert]
      split_ifs <;> simp_all
    · have := h.hidden k
      simp only [ExtTreeMap.getElem?_insert]
      split_ifs <;> simp_all
  · refine ⟨fun k => ?_, fun k => ?_, fun h0 => absurd h0 hi, h.counted⟩
    · have := h.new_ne k
      rw [ExtTreeMap.getElem?_insert]
      split_ifs <;> simp_all
    · have := h.hidden k
      simp only [ExtTreeMap.getElem?_insert]
      split_ifs with hk
      · have : m.values[k]? = none := by
          rw [← LawfulEqCmp.eq_of_compare hk]
          simpa using hm
        simp [this]
      · exact this
  · have hnew := h.new_empty hi
    refine ⟨h.new_ne, fun k hk => by simp [hnew] at hk, h.idle, fun h0 k => ?_⟩
    have := h.counted h0 k
    rw [ExtTreeMap.getElem?_insert]
    split_ifs <;> simp_all

end Put

section Take

theorem takeNew_inv (h : m.Inv) (key : K) : (m.takeNew key).1.Inv := by
  unfold takeNew
  split_ifs with hi
  · refine ⟨fun k => ?_, fun k => ?_, fun h0 => absurd h0 hi, h.counted⟩
    · have := h.new_ne k
      rw [ExtTreeMap.getElem?_erase]
      split_ifs <;> simp_all
    · have := h.hidden k
      rw [ExtTreeMap.getElem?_erase]
      split_ifs <;> simp_all
  · exact h

theorem takeValue_inv (h : m.Inv) (key : K) (ret : Option V) :
    (m.takeValue key ret).1.Inv := by
  unfold takeValue
  cases hv : m.values[key]? with
  | none => exact h
  | some old =>
    simp only
    split_ifs with hi
    · refine ⟨h.new_ne, fun k => ?_, h.idle, fun h0 => by simp at h0⟩
      have := h.hidden k
      rw [ExtTreeMap.getElem?_insert]
      split_ifs <;> simp_all
    · have hnew := h.new_empty hi
      refine ⟨h.new_ne, fun k hk => by simp [hnew] at hk, h.idle, fun h0 k => ?_⟩
      have := h.counted h0 k
      rw [ExtTreeMap.getElem?_erase]
      split_ifs <;> simp_all

theorem take_inv (h : m.Inv) (key : K) : (m.take key).1.Inv :=
  takeValue_inv (takeNew_inv h key) key _

theorem take_content (h : m.Inv) (key : K) : (m.take key).1.content = m.content.erase key := by
  apply ExtTreeMap.ext_getElem?
  intro k
  rw [content_getElem?, ExtTreeMap.getElem?_erase, content_getElem?]
  unfold take takeNew takeValue
  by_cases hk : compare key k = .eq
  · obtain rfl := LawfulEqCmp.eq_of_compare hk
    split_ifs with hi
    · cases hv : m.values[key]? with
      | none => simp [hv]
      | some old => simp
    · cases hv : m.values[key]? with
      | none => simp [hv, h.new_empty hi]
      | some old => simp [h.new_empty hi]
  · split_ifs with hi
    · cases hv : m.values[key]? with
      | none => simp [hk, ExtTreeMap.getElem?_erase]
      | some old => simp [hk, ExtTreeMap.getElem?_erase, ExtTreeMap.getElem?_insert]
    · cases hv : m.values[key]? with
      | none => simp
      | some old => simp [hk, ExtTreeMap.getElem?_erase]

theorem take_answer (h : m.Inv) (key : K) : (m.take key).2 = m.content[key]? := by
  rw [content_getElem?]
  have hne := h.new_ne key
  have hhid := h.hidden key
  unfold take takeNew takeValue
  split_ifs with hi
  · cases hn : m.new[key]? <;> cases hv : m.values[key]? <;> simp_all
  · rw [h.new_empty hi]
    cases hv : m.values[key]? <;> simp_all

end Take

section Clear

/-- A `clear` that leaves nothing in `m_new`. -/
def ClearsAll (m : ModifySafeMap K V) : Prop := m.iterating = 0 ∨ m.new.isEmpty

theorem clear_inv (h : m.Inv) : m.clear.Inv := by
  unfold clear
  split_ifs with hi
  · refine ⟨h.new_ne, fun k _ => ?_, h.idle, fun h0 k => ?_⟩
    · simp
      cases m.values[k]? <;> rfl
    · have : m.values = ∅ := ExtTreeMap.eq_empty_iff_size_eq_zero.mpr h0
      simp [this]
  · have hnew := h.new_empty hi
    exact ⟨h.new_ne, fun k hk => by simp [hnew] at hk, h.idle, fun _ k => by simp⟩

/-- `clear` empties the map if and only if there are no new entries. -/
theorem clear_content_iff (h : m.Inv) : m.clear.content = ∅ ↔ m.ClearsAll := by
  unfold ClearsAll
  by_cases hi : m.iterating = 0
  · refine iff_of_true (ExtTreeMap.ext_getElem? fun k => ?_) (.inl hi)
    rw [content_getElem?]
    simp [clear, hi, h.idle hi]
  · have hlook : ∀ k : K, m.clear.content[k]? = m.new[k]?.join := by
      intro k
      rw [content_getElem?]
      simp only [clear, ne_eq, hi, not_false_eq_true, if_true, ExtTreeMap.getElem?_map]
      cases m.new[k]? <;> cases m.values[k]? <;> rfl
    rw [ExtTreeMap.isEmpty_iff]
    refine ⟨fun he => .inr (ExtTreeMap.ext_getElem? fun k => ?_), fun hor => ?_⟩
    · have hk := hlook k
      have hne := h.new_ne k
      rw [he] at hk
      cases hn : m.new[k]? with
      | none => simp
      | some v => cases v <;> simp_all
    · have hnew := hor.resolve_left hi
      exact ExtTreeMap.ext_getElem? fun k => by simp [hlook, hnew]

end Clear

section Iteration

theorem iter_inv (h : m.Inv) (hlt : m.iterating.toNat + 1 < 2 ^ 32) : m.iter.Inv := by
  refine ⟨h.new_ne, h.hidden, fun h0 => ?_, h.counted⟩
  have := congrArg UInt32.toNat h0
  simp [iter, UInt32.toNat_add] at this
  omega

theorem mergeNew_content (m : ModifySafeMap K V) : m.mergeNew.content = m.content := by
  unfold mergeNew
  split_ifs
  · rfl
  · apply ExtTreeMap.ext_getElem?
    intro k
    rw [content_getElem?, content_getElem?]
    simp [ExtTreeMap.getElem?_union]

/-- The merge is made when the last iteration has ended, with the new entries still there. -/
theorem mergeNew_inv (hne : ∀ k : K, m.new[k]? ≠ some none)
    (hcounted : m.garbage = 0 → ∀ k : K, m.values[k]? ≠ some none) :
    m.mergeNew.Inv ∧ m.mergeNew.new = ∅ := by
  unfold mergeNew
  split_ifs with he
  · have he : m.new = ∅ := by simpa using he
    exact ⟨⟨hne, fun k hk => by simp [he] at hk, fun _ => he, hcounted⟩, he⟩
  · refine ⟨⟨by simp, by simp, by simp, fun h0 k => ?_⟩, rfl⟩
    have hc := hcounted h0 k
    have hn := hne k
    rw [ExtTreeMap.getElem?_union]
    cases hk : m.new[k]? <;> simp_all

theorem collectGarbage_content (hn : m.new = ∅) : m.collectGarbage.content = m.content := by
  unfold collectGarbage
  split_ifs
  · rfl
  · apply ExtTreeMap.ext_getElem?
    intro k
    rw [content_getElem?, content_getElem?]
    simp only [hn, ExtTreeMap.getElem?_filter']
    cases m.values[k]? with
    | none => simp
    | some v => cases v <;> simp [Option.filter]

theorem collectGarbage_inv (h : m.Inv) (hn : m.new = ∅) : m.collectGarbage.Inv := by
  unfold collectGarbage
  split_ifs
  · exact h
  · refine ⟨h.new_ne, fun k hk => by simp [hn] at hk, h.idle, fun _ k => ?_⟩
    simp only [ExtTreeMap.getElem?_filter']
    cases m.values[k]? with
    | none => simp
    | some v => cases v <;> simp

theorem endIter_inv (h : m.Inv) :
    m.endIter.Inv ∧ m.endIter.content = m.content := by
  unfold endIter
  simp only
  split_ifs with h0
  · obtain ⟨hinv, hnew⟩ :=
      mergeNew_inv (m := { m with iterating := m.iterating - 1 }) h.new_ne h.counted
    exact ⟨collectGarbage_inv hinv hnew,
      (collectGarbage_content hnew).trans (mergeNew_content _)⟩
  · exact ⟨⟨h.new_ne, h.hidden, fun he => absurd he h0, h.counted⟩, rfl⟩

theorem mergeNew_iterating (m : ModifySafeMap K V) : m.mergeNew.iterating = m.iterating := by
  unfold mergeNew
  split_ifs <;> rfl

theorem collectGarbage_iterating (m : ModifySafeMap K V) :
    m.collectGarbage.iterating = m.iterating := by
  unfold collectGarbage
  split_ifs <;> rfl

theorem endIter_iterating (m : ModifySafeMap K V) : m.endIter.iterating = m.iterating - 1 := by
  unfold endIter
  simp only
  split_ifs
  · rw [collectGarbage_iterating, mergeNew_iterating]
  · rfl

end Iteration

section Idle

/-- Outside of iterations the content is what is not null in `m_values`. -/
theorem content_of_idle (h : m.Inv) (hi : m.iterating = 0) :
    m.content = m.values.filterMap fun _ v => v := by
  apply ExtTreeMap.ext_getElem?
  intro k
  rw [content_getElem?, h.idle hi, ExtTreeMap.getElem?_filterMap']
  cases m.values[k]? <;> simp

theorem entries_eq (h : m.Inv) (hi : m.iterating = 0) : m.entries = m.content.toList := by
  rw [content_of_idle h hi, ExtTreeMap.toList_filterMap]
  rfl

/-- Where nothing is counted no value is null. -/
theorem size_of_counted (h : m.Inv) (h0 : m.garbage = 0) :
    (m.values.filterMap fun _ v => v).size = m.values.size := by
  rw [ExtTreeMap.size_filterMap_eq_size_iff]
  intro k hk
  have := h.counted h0 k
  rw [ExtTreeMap.getElem?_eq_some_getElem hk] at this
  cases hv : m.values[k] with
  | none => simp [hv] at this
  | some v => rfl

theorem foldl_count (l : List (K × Option V)) (n : ℕ) :
    l.foldl (fun n e => n + if e.2.isSome then 1 else 0) n =
      n + (l.filterMap fun e => e.2.map (e.1, ·)).length := by
  induction l generalizing n with
  | nil => rfl
  | cons e l ih =>
    rw [List.foldl_cons, ih, List.filterMap_cons]
    cases e.2 with
    | none => simp
    | some v =>
      simp only [Option.isSome_some, if_true, Option.map_some, List.length_cons]
      omega

theorem size_eq (h : m.Inv) (hi : m.iterating = 0) : m.size = some m.content.size := by
  rw [content_of_idle h hi]
  unfold size
  simp only [hi, ne_eq, not_true, if_false]
  split_ifs with h0
  · rw [size_of_counted h h0]
  · rw [ExtTreeMap.foldl_eq_foldl_toList, foldl_count, ← ExtTreeMap.length_toList,
      ExtTreeMap.toList_filterMap, Nat.zero_add]

theorem all_isNone (l : List (K × Option V)) :
    (l.all fun e => e.2.isNone) = (l.filterMap fun e => e.2.map (e.1, ·)).isEmpty := by
  induction l with
  | nil => rfl
  | cons e l ih =>
    rw [List.all_cons, ih, List.filterMap_cons]
    cases e.2 <;> simp

theorem empty_eq (h : m.Inv) (hi : m.iterating = 0) : m.empty = m.content.isEmpty := by
  rw [content_of_idle h hi]
  unfold empty
  simp only [hi, ne_eq, not_true, if_false]
  split_ifs with h0
  · rw [ExtTreeMap.isEmpty_eq_size_beq_zero, ExtTreeMap.isEmpty_eq_size_beq_zero,
      size_of_counted h h0]
  · rw [all_isNone, ← ExtTreeMap.isEmpty_toList, ExtTreeMap.toList_filterMap]

end Idle

/-- What `ModifySafeMap` asks of its callers: `size`, `empty` and a listing are for the time when no
iteration runs, fewer than `2 ^ 32` iterations are nested, and a `clear` leaves no new entry. -/
def Allowed (m : ModifySafeMap K V) : MapOp K V → Prop
  | .size | .empty | .entries => m.iterating = 0
  | .clear => m.ClearsAll
  | .iter => m.iterating.toNat + 1 < 2 ^ 32
  | _ => True

/-- The map holds what the ordinary map holds, during as many iterations. -/
structure Refines (m : ModifySafeMap K V) (o : OrdinaryMap K V) : Prop where
  inv : m.Inv
  content : m.content = o.values
  iterating : m.iterating.toNat = o.iterating

theorem iterating_eq_zero {o : OrdinaryMap K V} (h : Refines m o) :
    m.iterating = 0 ↔ o.iterating = 0 := by
  rw [← h.iterating, ← UInt32.toNat_inj]
  rfl

theorem put_iterating (key : K) (value : Option V) : (m.put key value).iterating = m.iterating := by
  unfold put
  split_ifs <;> rfl

theorem take_iterating (key : K) : (m.take key).1.iterating = m.iterating := by
  unfold take takeValue takeNew
  split_ifs <;> split <;> rfl

theorem clear_iterating (m : ModifySafeMap K V) : m.clear.iterating = m.iterating := by
  unfold clear
  split_ifs <;> rfl

theorem step_agree {o : OrdinaryMap K V} (h : Refines m o) (op : MapOp K V) (hok : m.Allowed op) :
    Machine.Agree Refines (m.step op) (o.step op) := by
  have hzero := iterating_eq_zero h
  cases op with
  | put key value =>
    cases value with
    | none => exact ⟨h, rfl⟩
    | some v =>
      exact ⟨⟨put_inv h.inv key (some v), by rw [put_content h.inv, h.content],
        by rw [put_iterating, h.iterating]⟩, rfl⟩
  | take key =>
    exact ⟨⟨take_inv h.inv key, by rw [take_content h.inv, h.content],
      by rw [take_iterating, h.iterating]⟩, by rw [take_answer h.inv, h.content]⟩
  | remove key =>
    exact ⟨⟨take_inv h.inv key, by rw [remove, take_content h.inv, h.content],
      by rw [remove, take_iterating, h.iterating]⟩, by rw [remove, take_answer h.inv, h.content]⟩
  | clear =>
    exact ⟨⟨clear_inv h.inv, (clear_content_iff h.inv).mpr hok,
      by rw [clear_iterating, h.iterating]⟩, rfl⟩
  | get key => exact ⟨h, by rw [get_eq h.inv, h.content]⟩
  | size => exact ⟨h, by rw [size_eq h.inv hok, h.content]⟩
  | empty => exact ⟨h, by rw [empty_eq h.inv hok, h.content]⟩
  | entries => exact ⟨h, by rw [entries_eq h.inv hok, h.content]⟩
  | iter =>
    refine ⟨⟨iter_inv h.inv hok, h.content, ?_⟩, rfl⟩
    rw [← h.iterating, iter, UInt32.toNat_add]
    exact Nat.mod_eq_of_lt hok
  | endIter =>
    unfold step OrdinaryMap.step
    by_cases hi : m.iterating = 0
    · simp [hi, hzero.mp hi, Machine.Agree]
    · have ho : o.iterating ≠ 0 := mt hzero.mpr hi
      simp only [hi, ho, if_false]
      obtain ⟨hinv, hcontent⟩ := endIter_inv h.inv
      refine ⟨⟨hinv, hcontent.trans h.content, ?_⟩, rfl⟩
      have hit := h.iterating
      have hlt := m.iterating.toNat_lt
      rw [endIter_iterating, UInt32.toNat_sub_of_le _ _ ?_]
      · simp [hit]
      · rw [UInt32.le_iff_toNat_le]
        simp
        omega
  | collectGarbage =>
    unfold step OrdinaryMap.step
    by_cases hi : m.iterating = 0
    · simp only [hi, hzero.mp hi, if_true]
      have hnew := h.inv.idle hi
      exact ⟨⟨collectGarbage_inv h.inv hnew, (collectGarbage_content hnew).trans h.content,
        by rw [collectGarbage_iterating, h.iterating]⟩, rfl⟩
    · have ho : o.iterating ≠ 0 := mt hzero.mpr hi
      simp [hi, ho, Machine.Agree]

theorem refines_init : Refines ({} : ModifySafeMap K V) {} :=
  ⟨inv_init, ExtTreeMap.ext_getElem? fun k => by simp [content_getElem?], rfl⟩

/-- In the allowed runs the map answers as an ordinary map does. -/
theorem answers_eq {ops : List (MapOp K V)} (hok : (machine K V).Allowed Allowed {} ops) :
    (machine K V).answers ops = (OrdinaryMap.machine K V).answers ops := by
  have hstep : ∀ (m : ModifySafeMap K V) (o : OrdinaryMap K V) (op : MapOp K V), Refines m o →
      m.Allowed op → Machine.Agree Refines ((machine K V).step m op)
        ((OrdinaryMap.machine K V).step o op) := fun _ _ op h hok => step_agree h op hok
  exact Machine.answers_of_agree hstep refines_init hok

instance decidableAllowed (m : ModifySafeMap K V) : (op : MapOp K V) → Decidable (m.Allowed op)
  | .size | .empty | .entries => inferInstanceAs (Decidable (m.iterating = 0))
  | .clear => inferInstanceAs (Decidable (m.iterating = 0 ∨ m.new.isEmpty))
  | .iter => inferInstanceAs (Decidable (m.iterating.toNat + 1 < 2 ^ 32))
  | .put .. | .take _ | .remove _ | .get _ | .endIter | .collectGarbage => .isTrue trivial

/-- Two nested iterations, in which one entry is removed, one replaced and one put. -/
def nested : List (MapOp ℕ ℕ) :=
  [.put 1 (some 10), .put 2 (some 20), .iter, .take 1, .iter, .put 2 (some 21), .put 3 (some 30),
    .get 2, .endIter, .remove 3, .get 1, .endIter, .size, .entries, .clear, .empty]

theorem answers_eq_nested :
    (machine ℕ ℕ).answers nested = (OrdinaryMap.machine ℕ ℕ).answers nested :=
  answers_eq (by decide +kernel)

/-- An iteration leaves the size unknown, and `clear` leaves a new entry in the map. -/
theorem not_answers_eq :
    (machine ℕ ℕ).answers [.iter, .size] ≠ (OrdinaryMap.machine ℕ ℕ).answers [.iter, .size] ∧
      (machine ℕ ℕ).answers [.iter, .put 1 (some 10), .clear, .get 1] ≠
        (OrdinaryMap.machine ℕ ℕ).answers [.iter, .put 1 (some 10), .clear, .get 1] := by
  decide +kernel

end ModifySafeMap

end Freeminer.Util
