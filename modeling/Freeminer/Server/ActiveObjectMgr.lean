import Mathlib.Logic.Function.Basic
import Freeminer.Util.ModifySafeMap

/-! The server's `ActiveObjectMgr`: objects by their ids. -/

set_option linter.unusedSectionVars false

namespace Freeminer.Server

open Lib Util

variable {O τ : Type} [DecidableEq O] [DecidableEq τ]

/-- The objects of type `O` have their ids themselves; each thread has the id that it used last. -/
structure ActiveObjectMgr (O τ : Type) where
  id : O → UInt16
  lastUsedId : τ → UInt16
  activeObjects : ModifySafeMap UInt16 O := {}
  /-- Ids that `clearIf` has not removed yet. -/
  objectsToRemove : List UInt16 := []

namespace ActiveObjectMgr

def getActiveObject (m : ActiveObjectMgr O τ) (id : UInt16) : Option O := m.activeObjects.get id

def isFreeId (m : ActiveObjectMgr O τ) (id : UInt16) : Bool :=
  id != 0 && (m.activeObjects.get id).isNone

/-- The loop of `getFreeId`: the answer, and the id that was used last. -/
def getFreeIdFrom (m : ActiveObjectMgr O τ) (startid : UInt16) : ℕ → UInt16 →
    Option (UInt16 × UInt16)
  | 0, _ => none
  | fuel + 1, lastUsedId =>
    if m.isFreeId (lastUsedId + 1) then some (lastUsedId + 1, lastUsedId + 1)
    else if lastUsedId + 1 = startid then some (0, lastUsedId + 1)
    else getFreeIdFrom m startid fuel (lastUsedId + 1)

/-- `getFreeId` on a thread; there are 65536 ids to look at. -/
def getFreeId (m : ActiveObjectMgr O τ) (t : τ) : Option (UInt16 × UInt16) :=
  m.getFreeIdFrom (m.lastUsedId t) 65536 (m.lastUsedId t)

/-- `registerObject` of an object that has its id. -/
def registerWithId (m : ActiveObjectMgr O τ) (obj : O) (overLimit : Bool) :
    ActiveObjectMgr O τ × Bool :=
  if !m.isFreeId (m.id obj) then (m, false)
  else if overLimit then (m, false)
  else ({ m with activeObjects := m.activeObjects.put (m.id obj) (some obj) }, true)

/-- `overLimit`: the object is outside the maximum range. -/
def registerObject (m : ActiveObjectMgr O τ) (t : τ) (obj : O) (overLimit : Bool) :
    Option (ActiveObjectMgr O τ × Bool) :=
  if m.id obj = 0 then
    (m.getFreeId t).map fun r =>
      let m := { m with lastUsedId := Function.update m.lastUsedId t r.2 }
      if r.1 = 0 then (m, false)
      else registerWithId { m with id := Function.update m.id obj r.1 } obj overLimit
  else some (m.registerWithId obj overLimit)

def removeObject (m : ActiveObjectMgr O τ) (id : UInt16) : ActiveObjectMgr O τ :=
  { m with activeObjects := (m.activeObjects.remove id).1 }

/-- `clearIf`; `locked`: the lock that it tries to get is free. -/
def clearIf (m : ActiveObjectMgr O τ) (cb : O → UInt16 → Bool) (locked : Bool) :
    ActiveObjectMgr O τ :=
  let active := m.activeObjects.entries
  let objectsToRemove :=
    m.objectsToRemove ++ (active.filter fun it => cb it.2 it.1).map Prod.fst
  if objectsToRemove.isEmpty then m
  else if !locked then { m with objectsToRemove }
  else
    { m with
      activeObjects := objectsToRemove.foldl (fun s id => (s.remove id).1) m.activeObjects
      objectsToRemove := [] }

/-- `step` calls a function on what it answers, unless it does not get the lock. -/
def step (m : ActiveObjectMgr O τ) (locked : Bool) : List O :=
  if !locked then [] else m.activeObjects.entries.map Prod.snd

end ActiveObjectMgr

/-- What is done with a manager. The id of an object that is not in it may be set. -/
inductive ObjectOp (O τ : Type) where
  | setId (obj : O) (id : UInt16)
  | registerObject (t : τ) (obj : O) (overLimit : Bool)
  | removeObject (id : UInt16)
  | clearIf (cb : O → UInt16 → Bool) (locked : Bool)
  | step (locked : Bool)

inductive ObjectAnswer (O : Type) where
  | registered (b : Bool)
  | visited (objs : List O)
  | done

/-- A manager, and all that a predicate of `clearIf` has accepted so far. -/
structure Traced (O τ : Type) where
  mgr : ActiveObjectMgr O τ
  accepted : List (UInt16 × O) := []

namespace Traced

def accepts (s : Traced O τ) (cb : O → UInt16 → Bool) : List (UInt16 × O) :=
  s.mgr.activeObjects.entries.filter fun it => cb it.2 it.1

def step (s : Traced O τ) : ObjectOp O τ → Option (Traced O τ × ObjectAnswer O)
  | .setId obj id =>
    if s.mgr.getActiveObject (s.mgr.id obj) = some obj then none
    else some ({ s with mgr := { s.mgr with id := Function.update s.mgr.id obj id } }, .done)
  | .registerObject t obj overLimit =>
    (s.mgr.registerObject t obj overLimit).map fun r => ({ s with mgr := r.1 }, .registered r.2)
  | .removeObject id => some ({ s with mgr := s.mgr.removeObject id }, .done)
  | .clearIf cb locked =>
    some ({ mgr := s.mgr.clearIf cb locked, accepted := s.accepted ++ s.accepts cb }, .done)
  | .step locked => some (s, .visited (s.mgr.step locked))

/-- A manager without objects, whatever ids objects have and threads have used. -/
def start (id : O → UInt16) (lastUsedId : τ → UInt16) : Traced O τ :=
  { mgr := { id, lastUsedId } }

def machine (id : O → UInt16) (lastUsedId : τ → UInt16) :
    Machine (Traced O τ) (ObjectOp O τ) (ObjectAnswer O) := ⟨start id lastUsedId, step⟩

end Traced

namespace ActiveObjectMgr

variable {m : ActiveObjectMgr O τ} {id : UInt16} {obj : O} {t : τ} {cb : O → UInt16 → Bool}

/-! ### Free ids -/

/-- The loop after `n` ids, none of which was free. -/
theorem getFreeIdFrom_spec (m : ActiveObjectMgr O τ) (startid : UInt16) (fuel n : ℕ)
    (hn : n + fuel = 65536) (hpos : 0 < fuel)
    (hseen : ∀ i, 0 < i → i ≤ n → m.isFreeId (startid + UInt16.ofNat i) = false) :
    ∃ id last, m.getFreeIdFrom startid fuel (startid + UInt16.ofNat n) = some (id, last) ∧
      (id ≠ 0 → m.isFreeId id = true) ∧ (id = 0 → ∀ i, m.isFreeId i = false) := by
  induction fuel generalizing n with
  | zero => exact absurd hpos (Nat.lt_irrefl 0)
  | succ fuel ih =>
    have hnext : startid + UInt16.ofNat n + 1 = startid + UInt16.ofNat (n + 1) := by
      rw [UInt16.add_assoc]
      congr 1
      apply UInt16.toNat_inj.mp
      simp [UInt16.toNat_add]
    unfold getFreeIdFrom
    rw [hnext]
    split_ifs with hfree hstart
    · refine ⟨_, _, rfl, fun _ => hfree, fun h0 => ?_⟩
      rw [h0] at hfree
      exact absurd hfree (by simp [isFreeId])
    · have hfree := Bool.eq_false_iff.mpr hfree
      refine ⟨0, _, rfl, fun h => absurd rfl h, fun _ i => ?_⟩
      -- all ids have been looked at, the first one last
      have hlast : n + 1 = 65536 := by
        have h0 := congrArg UInt16.toNat hstart
        rw [UInt16.toNat_add] at h0
        have hlt := startid.toNat_lt
        simp only [UInt16.toNat_ofNat'] at h0
        omega
      have hall : ∀ j, 0 < j → j ≤ 65536 → m.isFreeId (startid + UInt16.ofNat j) = false := by
        intro j hj hle
        rcases Nat.lt_or_ge n j with hlt | hge
        · have : j = n + 1 := by omega
          exact this ▸ hfree
        · exact hseen j hj hge
      by_cases hi : i = startid
      · have := hall 65536 (by decide) (Nat.le_refl _)
        have h0 : startid + UInt16.ofNat 65536 = startid := by
          apply UInt16.toNat_inj.mp
          rw [UInt16.toNat_add]
          have hlt := startid.toNat_lt
          simp only [UInt16.toNat_ofNat']
          omega
        rwa [h0, ← hi] at this
      · have hdiff : startid + UInt16.ofNat (i - startid).toNat = i := by
          rw [UInt16.ofNat_toNat, UInt16.add_comm, UInt16.sub_add_cancel]
        have hpos : 0 < (i - startid).toNat := by
          rcases Nat.eq_zero_or_pos (i - startid).toNat with h0 | hpos
          · rw [h0] at hdiff
            exact absurd (by simpa using hdiff.symm) hi
          · exact hpos
        have hlt := (i - startid).toNat_lt
        have := hall (i - startid).toNat hpos (by omega)
        rwa [hdiff] at this
    · have hfree := Bool.eq_false_iff.mpr hfree
      have hmore : 0 < fuel := by
        rcases Nat.eq_zero_or_pos fuel with h0 | hpos
        · subst h0
          refine absurd ?_ hstart
          apply UInt16.toNat_inj.mp
          rw [UInt16.toNat_add]
          have hlt := startid.toNat_lt
          simp only [UInt16.toNat_ofNat']
          omega
        · exact hpos
      refine ih (n + 1) (by omega) hmore fun i hi hle => ?_
      rcases Nat.lt_or_ge n i with hlt | hge
      · have : i = n + 1 := by omega
        exact this ▸ hfree
      · exact hseen i hi hge

/-- `getFreeId` returns; its answer is free, or 0 when no id is. -/
theorem getFreeId_spec (m : ActiveObjectMgr O τ) (t : τ) :
    ∃ id last, m.getFreeId t = some (id, last) ∧ (id ≠ 0 → m.isFreeId id = true) ∧
      (id = 0 → ∀ i, m.isFreeId i = false) := by
  have h := getFreeIdFrom_spec m (m.lastUsedId t) 65536 0 rfl (by decide)
    (fun i hi hle => absurd hi (by omega))
  have h0 : m.lastUsedId t + UInt16.ofNat 0 = m.lastUsedId t := by simp
  rwa [h0] at h

/-! ### What leaves -/

/-- The objects are found under their own ids, none of which is 0; nothing iterates over them
between two operations. -/
structure Inv (m : ActiveObjectMgr O τ) : Prop where
  objects : m.activeObjects.Inv
  idle : m.activeObjects.iterating = 0
  ids : ∀ id obj, m.activeObjects.content[id]? = some obj → m.id obj = id ∧ id ≠ 0

theorem Inv.getActiveObject (h : m.Inv) (id : UInt16) :
    m.getActiveObject id = m.activeObjects.content[id]? :=
  ModifySafeMap.get_eq h.objects id

theorem Inv.isFreeId (h : m.Inv) (id : UInt16) :
    m.isFreeId id = true ↔ id ≠ 0 ∧ m.activeObjects.content[id]? = none := by
  rw [ActiveObjectMgr.isFreeId, ModifySafeMap.get_eq h.objects]
  simp

theorem Inv.mem_entries (h : m.Inv) :
    (id, obj) ∈ m.activeObjects.entries ↔ m.activeObjects.content[id]? = some obj := by
  rw [ModifySafeMap.entries_eq h.objects h.idle]
  exact Std.ExtTreeMap.mem_toList_iff_getElem?_eq_some

theorem Inv.registerWithId (h : m.Inv) (obj : O) (overLimit : Bool) :
    (m.registerWithId obj overLimit).1.Inv ∧
      ∀ (id : UInt16) o, m.activeObjects.content[id]? = some o →
        (m.registerWithId obj overLimit).1.activeObjects.content[id]? = some o := by
  unfold ActiveObjectMgr.registerWithId
  split_ifs with hfree hover
  · exact ⟨h, fun _ _ ho => ho⟩
  · exact ⟨h, fun _ _ ho => ho⟩
  · have hfree : m.isFreeId (m.id obj) = true := by simpa using hfree
    obtain ⟨hne, hnone⟩ := (h.isFreeId _).mp hfree
    have hcontent := ModifySafeMap.put_content h.objects (m.id obj) obj
    refine ⟨⟨?_, ?_, fun id o ho => ?_⟩, fun id o ho => ?_⟩
    · exact ModifySafeMap.put_inv h.objects (m.id obj) (some obj)
    · exact (ModifySafeMap.put_iterating _ _).trans h.idle
    · dsimp only at ho ⊢
      rw [hcontent, Std.ExtTreeMap.getElem?_insert] at ho
      split_ifs at ho with heq
      · obtain rfl := Std.LawfulEqCmp.eq_of_compare heq
        obtain rfl := Option.some.inj ho
        exact ⟨rfl, hne⟩
      · exact h.ids id o ho
    · dsimp only
      rw [hcontent, Std.ExtTreeMap.getElem?_insert]
      split_ifs with heq
      · obtain rfl := Std.LawfulEqCmp.eq_of_compare heq
        rw [hnone] at ho
        cases ho
      · exact ho

/-- An object that is not in the manager gets an id. -/
theorem Inv.setId (h : m.Inv) (hnot : m.activeObjects.content[m.id obj]? ≠ some obj)
    (id : UInt16) : ({ m with id := Function.update m.id obj id }).Inv := by
  refine ⟨h.objects, h.idle, fun i o ho => ?_⟩
  obtain ⟨heq, hne⟩ := h.ids i o ho
  refine ⟨?_, hne⟩
  dsimp only
  rw [Function.update_of_ne, heq]
  intro hoo
  subst hoo
  exact hnot (heq ▸ ho)

theorem Inv.registerObject (h : m.Inv) {overLimit : Bool} {r : ActiveObjectMgr O τ × Bool}
    (hr : m.registerObject t obj overLimit = some r) :
    r.1.Inv ∧ ∀ (id : UInt16) o, m.activeObjects.content[id]? = some o →
      r.1.activeObjects.content[id]? = some o := by
  unfold ActiveObjectMgr.registerObject at hr
  split_ifs at hr with h0
  · obtain ⟨⟨id, last⟩, -, rfl⟩ := Option.map_eq_some_iff.mp hr
    have hlast : ({ m with lastUsedId := Function.update m.lastUsedId t last }).Inv :=
      ⟨h.objects, h.idle, h.ids⟩
    dsimp only
    split_ifs
    · exact ⟨hlast, fun _ _ ho => ho⟩
    · have hnot : m.activeObjects.content[m.id obj]? ≠ some obj := fun ho =>
        (h.ids _ _ ho).2 h0
      exact (hlast.setId hnot id).registerWithId obj overLimit
  · obtain rfl := Option.some.inj hr
    exact h.registerWithId obj overLimit

/-- What a registration does: nothing to the objects, or one more under an id that was free. -/
structure Registers (m : ActiveObjectMgr O τ) (obj : O) (r : ActiveObjectMgr O τ × Bool) :
    Prop where
  inv : r.1.Inv
  waiting : r.1.objectsToRemove = m.objectsToRemove
  refused : r.2 = false → ∀ id, r.1.getActiveObject id = m.getActiveObject id
  free : r.2 = true → r.1.id obj ≠ 0 ∧ m.getActiveObject (r.1.id obj) = none
  added : r.2 = true → ∀ id, r.1.getActiveObject id =
    if id = r.1.id obj then some obj else m.getActiveObject id

theorem Inv.registers_of_refused {m' : ActiveObjectMgr O τ} (h : m'.Inv)
    (hwaiting : m'.objectsToRemove = m.objectsToRemove)
    (hsame : m'.activeObjects = m.activeObjects) : m.Registers obj (m', false) := by
  refine ⟨h, hwaiting, fun _ id => ?_, ?_, ?_⟩
  · rw [ActiveObjectMgr.getActiveObject, hsame]
    rfl
  · intro hr
    cases hr
  · intro hr
    cases hr

theorem Inv.registers_withId (h : m.Inv) (obj : O) (overLimit : Bool) :
    m.Registers obj (m.registerWithId obj overLimit) := by
  have hinv := (h.registerWithId obj overLimit).1
  unfold ActiveObjectMgr.registerWithId at hinv ⊢
  split_ifs at hinv ⊢ with hfree hover
  · exact h.registers_of_refused rfl rfl
  · exact h.registers_of_refused rfl rfl
  · have hfree : m.isFreeId (m.id obj) = true := by simpa using hfree
    obtain ⟨hne, hnone⟩ := (h.isFreeId _).mp hfree
    refine ⟨hinv, rfl, ?_, fun _ => ⟨hne, ?_⟩, fun _ id => ?_⟩
    · intro hr
      cases hr
    · rw [h.getActiveObject]
      exact hnone
    · rw [hinv.getActiveObject, h.getActiveObject]
      dsimp only
      rw [ModifySafeMap.put_content h.objects, Std.ExtTreeMap.getElem?_insert]
      by_cases heq : id = m.id obj
      · subst heq
        simp
      · have hne : compare (m.id obj) id ≠ .eq := fun hcmp =>
          heq (Std.LawfulEqCmp.eq_of_compare hcmp).symm
        rw [if_neg hne, if_neg heq]

/-- The registration of an object that has no id yet. -/
theorem Inv.registers (h : m.Inv) (h0 : m.id obj = 0) {overLimit : Bool}
    {r : ActiveObjectMgr O τ × Bool} (hr : m.registerObject t obj overLimit = some r) :
    m.Registers obj r := by
  rw [ActiveObjectMgr.registerObject, if_pos h0] at hr
  obtain ⟨⟨id, last⟩, -, rfl⟩ := Option.map_eq_some_iff.mp hr
  have hlast : ({ m with lastUsedId := Function.update m.lastUsedId t last }).Inv :=
    ⟨h.objects, h.idle, h.ids⟩
  dsimp only
  split_ifs
  · exact hlast.registers_of_refused rfl rfl
  · have hnot : m.activeObjects.content[m.id obj]? ≠ some obj := fun ho =>
      (h.ids _ _ ho).2 h0
    have hspec := (hlast.setId hnot id).registers_withId obj overLimit
    exact ⟨hspec.inv, hspec.waiting, hspec.refused, hspec.free, hspec.added⟩

theorem remove_foldl (ids : List UInt16) : ∀ s : ModifySafeMap UInt16 O, s.Inv → s.iterating = 0 →
    (ids.foldl (fun s id => (s.remove id).1) s).Inv ∧
      (ids.foldl (fun s id => (s.remove id).1) s).iterating = 0 ∧
      ∀ id, (ids.foldl (fun s id => (s.remove id).1) s).content[id]? =
        if id ∈ ids then none else s.content[id]? := by
  induction ids with
  | nil => exact fun s h hi => ⟨h, hi, fun id => by simp⟩
  | cons a ids ih =>
    intro s h hi
    obtain ⟨hinv, hidle, hcontent⟩ := ih (s.remove a).1 (ModifySafeMap.take_inv h a)
      ((ModifySafeMap.take_iterating a).trans hi)
    refine ⟨hinv, hidle, fun id => ?_⟩
    rw [List.foldl_cons, hcontent, ModifySafeMap.remove, ModifySafeMap.take_content h,
      Std.ExtTreeMap.getElem?_erase]
    by_cases heq : compare a id = .eq
    · obtain rfl := Std.LawfulEqCmp.eq_of_compare heq
      simp
    · have hne : id ≠ a := by
        intro hsame
        subst hsame
        exact heq Std.ReflCmp.compare_self
      simp [heq, hne]

theorem Inv.removeObject (h : m.Inv) (id : UInt16) :
    (m.removeObject id).Inv ∧ ∀ i, (m.removeObject id).activeObjects.content[i]? =
      if i = id then none else m.activeObjects.content[i]? := by
  obtain ⟨hinv, hidle, hall⟩ := remove_foldl [id] m.activeObjects h.objects h.idle
  have hcontent : ∀ i, (m.removeObject id).activeObjects.content[i]? =
      if i = id then none else m.activeObjects.content[i]? := by
    intro i
    have := hall i
    simp only [List.mem_singleton] at this
    exact this
  refine ⟨⟨hinv, hidle, fun i o ho => ?_⟩, hcontent⟩
  rw [hcontent] at ho
  split_ifs at ho
  exact h.ids i o ho

/-- `clearIf` removes the ids that have been waiting and those that are accepted now. -/
theorem Inv.clearIf (h : m.Inv) (cb : O → UInt16 → Bool) (locked : Bool) :
    (m.clearIf cb locked).Inv ∧ ∀ id obj, m.activeObjects.content[id]? = some obj →
      ((m.clearIf cb locked).activeObjects.content[id]? = some obj ↔
        ¬ (locked = true ∧ (id ∈ m.objectsToRemove ∨ cb obj id = true))) := by
  have hmem : ∀ id obj, m.activeObjects.content[id]? = some obj →
      (id ∈ m.objectsToRemove ++
        (m.activeObjects.entries.filter fun it => cb it.2 it.1).map Prod.fst ↔
        id ∈ m.objectsToRemove ∨ cb obj id = true) := by
    intro id obj ho
    rw [List.mem_append, List.mem_map]
    refine or_congr_right ⟨?_, fun hcb => ?_⟩
    · intro ⟨it, hit, heq⟩
      obtain ⟨hit, hcb⟩ := List.mem_filter.mp hit
      have hsame : m.activeObjects.content[it.1]? = some it.2 := h.mem_entries.mp hit
      rw [heq, ho] at hsame
      rw [Option.some.inj hsame, ← heq]
      exact hcb
    · exact ⟨(id, obj), List.mem_filter.mpr ⟨h.mem_entries.mpr ho, hcb⟩, rfl⟩
  unfold ActiveObjectMgr.clearIf
  dsimp only
  split_ifs with hempty hlocked
  · refine ⟨h, fun id obj ho => iff_of_true ho ?_⟩
    rw [List.isEmpty_iff] at hempty
    rw [← hmem id obj ho, hempty]
    simp
  · have hlocked : locked = false := by simpa using hlocked
    exact ⟨⟨h.objects, h.idle, h.ids⟩, fun id obj ho => iff_of_true ho (by simp [hlocked])⟩
  · have hlocked : locked = true := by simpa using hlocked
    obtain ⟨hinv, hidle, hcontent⟩ := remove_foldl (m.objectsToRemove ++
      (m.activeObjects.entries.filter fun it => cb it.2 it.1).map Prod.fst) m.activeObjects
      h.objects h.idle
    refine ⟨⟨hinv, hidle, fun id obj ho => ?_⟩, fun id obj ho => ?_⟩
    · rw [hcontent] at ho
      split_ifs at ho
      exact h.ids id obj ho
    · dsimp only
      rw [hcontent, ho]
      split_ifs with hgone
      · simp [hlocked, (hmem id obj ho).mp hgone]
      · exact iff_of_true rfl fun hand => hgone ((hmem id obj ho).mpr hand.2)

/-- What is in the table after `clearIf` was there before. -/
theorem Inv.of_clearIf (h : m.Inv) (locked : Bool)
    (ho : (m.clearIf cb locked).getActiveObject id = some obj) :
    m.getActiveObject id = some obj := by
  have h' := (h.clearIf cb locked).1
  rw [h'.getActiveObject] at ho
  rw [h.getActiveObject]
  unfold ActiveObjectMgr.clearIf at ho
  dsimp only at ho
  split_ifs at ho
  · exact ho
  · exact ho
  · dsimp only at ho
    rw [(remove_foldl _ m.activeObjects h.objects h.idle).2.2] at ho
    split_ifs at ho
    exact ho

theorem Inv.getActiveObject_clearIf (h : m.Inv) (cb : O → UInt16 → Bool) (locked : Bool) :
    (m.clearIf cb locked).getActiveObject id = some obj ↔ m.getActiveObject id = some obj ∧
      ¬(locked = true ∧ (id ∈ m.objectsToRemove ∨ cb obj id = true)) := by
  obtain ⟨h', hleft⟩ := h.clearIf cb locked
  constructor
  · intro ho
    have hbefore := h.of_clearIf locked ho
    rw [h'.getActiveObject] at ho
    exact ⟨hbefore, (hleft id obj (h.getActiveObject id ▸ hbefore)).mp ho⟩
  · rintro ⟨hbefore, hnot⟩
    rw [h'.getActiveObject]
    exact (hleft id obj (h.getActiveObject id ▸ hbefore)).mpr hnot

theorem Inv.mem_waiting_clearIf (h : m.Inv) (cb : O → UInt16 → Bool) (locked : Bool) :
    id ∈ (m.clearIf cb locked).objectsToRemove ↔ locked = false ∧
      (id ∈ m.objectsToRemove ∨ ∃ obj, m.getActiveObject id = some obj ∧ cb obj id = true) := by
  have hmem : id ∈ m.objectsToRemove ++
      (m.activeObjects.entries.filter fun it => cb it.2 it.1).map Prod.fst ↔
      id ∈ m.objectsToRemove ∨ ∃ obj, m.getActiveObject id = some obj ∧ cb obj id = true := by
    simp only [List.mem_append, List.mem_map, List.mem_filter, Prod.exists, exists_and_right,
      exists_eq_right, h.mem_entries, h.getActiveObject]
  unfold ActiveObjectMgr.clearIf
  dsimp only
  rw [← hmem]
  split_ifs with hempty hlocked
  · rw [List.isEmpty_iff] at hempty
    rw [hempty, (List.append_eq_nil_iff.mp hempty).1]
    simp
  · simp only [Bool.not_eq_true'] at hlocked
    exact ⟨fun hin => ⟨hlocked, hin⟩, fun hand => hand.2⟩
  · simp only [Bool.not_eq_true', Bool.not_eq_false] at hlocked
    simp [hlocked]

theorem Inv.getActiveObject_removeObject (h : m.Inv) (id i : UInt16) :
    (m.removeObject id).getActiveObject i = if i = id then none else m.getActiveObject i := by
  obtain ⟨h', hall⟩ := h.removeObject id
  rw [h'.getActiveObject, h.getActiveObject, hall]

end ActiveObjectMgr

namespace Traced

variable {s s' : Traced O τ} {op : ObjectOp O τ} {a : ObjectAnswer O}

/-- Distinct ids, none of which is 0, and an answer of `getFreeId`, which is 0 only when no id is
free. -/
structure Sound (s : Traced O τ) : Prop where
  ids : ∀ id obj, s.mgr.getActiveObject id = some obj → s.mgr.id obj = id ∧ id ≠ 0
  distinct : ∀ id obj id' obj', s.mgr.getActiveObject id = some obj →
    s.mgr.getActiveObject id' = some obj' → obj ≠ obj' → s.mgr.id obj ≠ s.mgr.id obj'
  freeId : ∀ t, ∃ id last, s.mgr.getFreeId t = some (id, last) ∧
    (id ≠ 0 → s.mgr.isFreeId id = true) ∧ (id = 0 → ∀ i, s.mgr.isFreeId i = false)

/-- Each object that leaves was removed by its id, or a predicate has accepted it. -/
def Justified (s : Traced O τ) (op : ObjectOp O τ) : Prop :=
  ∀ s' a, s.step op = some (s', a) → ∀ id obj, s.mgr.getActiveObject id = some obj →
    s'.mgr.getActiveObject id ≠ some obj → op = .removeObject id ∨ (id, obj) ∈ s'.accepted

/-- A `clearIf` that gets its lock finds under each id that waits since an earlier call an object
that a predicate has accepted or accepts now, or none. -/
def Steady (s : Traced O τ) : ObjectOp O τ → Prop
  | .clearIf cb true => ∀ id ∈ s.mgr.objectsToRemove, ∀ obj,
      s.mgr.getActiveObject id = some obj → (id, obj) ∈ s.accepted ∨ cb obj id = true
  | _ => True

theorem inv_step (h : s.mgr.Inv) (hstep : s.step op = some (s', a)) : s'.mgr.Inv := by
  cases op with
  | setId obj id =>
    unfold step at hstep
    dsimp only at hstep
    split_ifs at hstep with hlive
    obtain ⟨rfl, -⟩ := Prod.mk.inj (Option.some.inj hstep)
    rw [h.getActiveObject] at hlive
    exact h.setId hlive id
  | registerObject t obj overLimit =>
    obtain ⟨r, hr, heq⟩ := Option.map_eq_some_iff.mp hstep
    obtain ⟨rfl, -⟩ := Prod.mk.inj heq
    exact (h.registerObject hr).1
  | removeObject id =>
    obtain ⟨rfl, -⟩ := Prod.mk.inj (Option.some.inj hstep)
    exact (h.removeObject id).1
  | clearIf cb locked =>
    obtain ⟨rfl, -⟩ := Prod.mk.inj (Option.some.inj hstep)
    exact (h.clearIf cb locked).1
  | step locked =>
    obtain ⟨rfl, -⟩ := Prod.mk.inj (Option.some.inj hstep)
    exact h

theorem sound_of_inv (h : s.mgr.Inv) : s.Sound := by
  refine ⟨fun id obj ho => h.ids id obj (h.getActiveObject id ▸ ho),
    fun id obj id' obj' ho ho' hne heq => hne ?_, fun t => s.mgr.getFreeId_spec t⟩
  rw [h.getActiveObject] at ho ho'
  rw [(h.ids id obj ho).1, (h.ids id' obj' ho').1] at heq
  rw [heq, ho'] at ho
  exact (Option.some.inj ho).symm

theorem mem_accepts (h : s.mgr.Inv) {cb : O → UInt16 → Bool} {id : UInt16} {obj : O}
    (ho : s.mgr.activeObjects.content[id]? = some obj) :
    (id, obj) ∈ s.accepts cb ↔ cb obj id = true := by
  rw [accepts, List.mem_filter, h.mem_entries]
  exact ⟨fun hand => hand.2, fun hcb => ⟨ho, hcb⟩⟩

/-- An operation is justified just when it is steady. -/
theorem justified_iff_steady (h : s.mgr.Inv) : s.Justified op ↔ s.Steady op := by
  cases op with
  | setId obj id =>
    refine iff_of_true (fun s' a hstep i o ho hleaves => absurd ?_ hleaves) trivial
    unfold step at hstep
    dsimp only at hstep
    split_ifs at hstep
    obtain ⟨rfl, -⟩ := Prod.mk.inj (Option.some.inj hstep)
    exact ho
  | registerObject t obj overLimit =>
    refine iff_of_true (fun s' a hstep i o ho hleaves => absurd ?_ hleaves) trivial
    have h' := inv_step h hstep
    obtain ⟨r, hr, heq⟩ := Option.map_eq_some_iff.mp hstep
    obtain ⟨rfl, -⟩ := Prod.mk.inj heq
    rw [h'.getActiveObject]
    exact (h.registerObject hr).2 i o (h.getActiveObject i ▸ ho)
  | removeObject id =>
    refine iff_of_true (fun s' a hstep i o ho hleaves => ?_) trivial
    have h' := inv_step h hstep
    obtain ⟨rfl, -⟩ := Prod.mk.inj (Option.some.inj hstep)
    rw [h'.getActiveObject, (h.removeObject id).2] at hleaves
    rw [h.getActiveObject] at ho
    by_cases heq : i = id
    · exact Or.inl (heq ▸ rfl)
    · rw [if_neg heq] at hleaves
      exact absurd ho hleaves
  | clearIf cb locked =>
    have h' := (h.clearIf cb locked).1
    have hleft := (h.clearIf cb locked).2
    cases locked with
    | false =>
      refine iff_of_true (fun s' a hstep i o ho hleaves => absurd ?_ hleaves) trivial
      obtain ⟨rfl, -⟩ := Prod.mk.inj (Option.some.inj hstep)
      rw [h.getActiveObject] at ho
      rw [h'.getActiveObject, hleft i o ho]
      simp
    | true =>
      constructor
      · intro hjust i hi o ho
        have hgone : (s.mgr.clearIf cb true).getActiveObject i ≠ some o := by
          rw [h'.getActiveObject, ne_eq, hleft i o (h.getActiveObject i ▸ ho)]
          simp [hi]
        rcases hjust _ _ rfl i o ho hgone with heq | hacc
        · cases heq
        · rw [h.getActiveObject] at ho
          rcases List.mem_append.mp hacc with hbefore | hnow
          · exact Or.inl hbefore
          · exact Or.inr ((mem_accepts h ho).mp hnow)
      · intro hsteady s' a hstep i o ho hleaves
        obtain ⟨rfl, -⟩ := Prod.mk.inj (Option.some.inj hstep)
        have hlive := ho
        rw [h.getActiveObject] at ho
        rw [h'.getActiveObject, ne_eq, hleft i o ho, not_not] at hleaves
        right
        apply List.mem_append.mpr
        rcases hleaves.2 with hwaits | hcb
        · exact (hsteady i hwaits o hlive).imp_right (mem_accepts h ho).mpr
        · exact Or.inr ((mem_accepts h ho).mpr hcb)
  | step locked =>
    refine iff_of_true (fun s' a hstep i o ho hleaves => absurd ?_ hleaves) trivial
    obtain ⟨rfl, -⟩ := Prod.mk.inj (Option.some.inj hstep)
    exact ho

theorem inv_start (id : O → UInt16) (lastUsedId : τ → UInt16) : (start id lastUsedId).mgr.Inv := by
  refine ⟨ModifySafeMap.inv_init, rfl, fun i o ho => ?_⟩
  rw [ModifySafeMap.content_getElem?] at ho
  simp [start] at ho

/-- In every run ids are sound, and all that leaves is justified just when every `clearIf` is
steady. -/
theorem justified_run_iff (id : O → UInt16) (lastUsedId : τ → UInt16)
    (ops : List (ObjectOp O τ)) :
    (∀ s answers, (machine id lastUsedId).run (start id lastUsedId) ops = some (s, answers) →
      s.Sound) ∧
    ((machine id lastUsedId).Allowed Justified (start id lastUsedId) ops ↔
      (machine id lastUsedId).Allowed Steady (start id lastUsedId) ops) := by
  have hstep : ∀ (s : Traced O τ) op x, s.mgr.Inv →
      (machine id lastUsedId).step s op = some x → x.1.mgr.Inv :=
    fun s op x h hx => inv_step h hx
  constructor
  · intro s answers hrun
    exact sound_of_inv (Machine.run_invariant hstep ops (inv_start id lastUsedId) hrun)
  · exact Machine.allowed_congr hstep (fun s op h => justified_iff_steady h) ops
      (inv_start id lastUsedId)

/-- An object is accepted while the lock is taken and removed by its id; the next object gets that
id. -/
def reused : List (ObjectOp ℕ Unit) :=
  [.registerObject () 0 false, .clearIf (fun _ _ => true) false, .removeObject 1, .setId 1 1,
    .registerObject () 1 false]

/-- A `clearIf` that accepts nothing removes the next object. -/
theorem not_justified_reused :
    ¬ (machine (fun _ => 0) fun _ => 0).Allowed Justified (start (fun _ => 0) fun _ => 0)
      (reused ++ [.clearIf (fun _ _ => false) true]) := by
  intro hallowed
  have hrun : ((machine (fun _ => 0) fun _ => 0).run (start (fun _ => 0) fun _ => 0) reused).any
      (fun r => decide (r.1.mgr.getActiveObject 1 = some 1 ∧
        (r.1.mgr.clearIf (fun _ _ => false) true).getActiveObject 1 = none ∧
        (1, 1) ∉ r.1.accepted ++ r.1.accepts fun _ _ => false)) = true := by decide +kernel
  cases hr : (machine (fun _ => 0) fun _ => 0).run (start (fun _ => 0) fun _ => 0) reused with
  | none =>
    rw [hr] at hrun
    cases hrun
  | some r =>
    rw [hr, Option.any_some] at hrun
    obtain ⟨hlive, hgone, hnot⟩ := of_decide_eq_true hrun
    have hjust := (hallowed.append hr).1
    rcases hjust _ _ rfl 1 1 hlive (by rw [hgone]; simp) with heq | hacc
    · cases heq
    · exact hnot hacc

end Traced

end Freeminer.Server
