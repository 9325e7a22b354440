import Mathlib.Data.Fintype.Pi
import Freeminer.Util.KdTree
import Freeminer.Server.ActiveObjectMgr

/-! The spatial index of the server's `ActiveObjectMgr` (`server/activeobjectmgr.cpp`). It is a
placeholder for `DynamicKdTrees`; what lies in an area is looked up among the objects. -/

set_option linter.unusedSectionVars false

namespace Freeminer.Server

open Lib Util

/-- The class has no data. -/
structure FakeDynamicKdTrees (β : Type) where

namespace FakeDynamicKdTrees

variable {β : Type} (s : FakeDynamicKdTrees β)

def insert (_point : Point 3 β) (_id : UInt16) : FakeDynamicKdTrees β := s

def remove (_id : UInt16) : FakeDynamicKdTrees β := s

def update (_newPos : Point 3 β) (_id : UInt16) : FakeDynamicKdTrees β := s

def rangeQuery (_s : FakeDynamicKdTrees β) (_min _max : Point 3 β) : List (Point 3 β × UInt16) := []

def size (_s : FakeDynamicKdTrees β) : ℕ := 0

end FakeDynamicKdTrees

variable {O τ β : Type} [DecidableEq O] [DecidableEq τ] [CommRing β] [LinearOrder β]

/-- A manager with its index. Objects have their positions themselves. -/
structure IndexedMgr (O τ β : Type) where
  mgr : ActiveObjectMgr O τ
  basePosition : O → Point 3 β
  spatialIndex : FakeDynamicKdTrees β := {}

inductive IndexedOp (O τ β : Type) where
  | registerObject (t : τ) (obj : O)
  | setBasePosition (obj : O) (pos : Point 3 β)
  | removeObject (id : UInt16)
  | clearIf (cb : O → UInt16 → Bool) (locked : Bool)

def getDistanceFromSQ (p q : Point 3 β) : β :=
  (p 0 - q 0) * (p 0 - q 0) + (p 1 - q 1) * (p 1 - q 1) + (p 2 - q 2) * (p 2 - q 2)

namespace IndexedMgr

variable (s : IndexedMgr O τ β)

/-- The manager after it, and what `insert` of the index is called with. -/
def registerObject (overLimit : Point 3 β → Bool) (t : τ) (obj : O) :
    Option (IndexedMgr O τ β × Option (Point 3 β × UInt16)) :=
  let pos := s.basePosition obj
  (s.mgr.registerObject t obj (overLimit pos)).map fun r =>
    if r.2 then
      ({ s with mgr := r.1, spatialIndex := s.spatialIndex.insert pos (r.1.id obj) },
        some (pos, r.1.id obj))
    else ({ s with mgr := r.1 }, none)

def removeObject (id : UInt16) : IndexedMgr O τ β :=
  let ok := (s.mgr.activeObjects.remove id).2
  let s := { s with mgr := s.mgr.removeObject id }
  if !ok then s else { s with spatialIndex := s.spatialIndex.remove id }

def updateObjectPos (id : UInt16) (pos : Point 3 β) : IndexedMgr O τ β :=
  if (s.mgr.getActiveObject id).isSome then
    { s with spatialIndex := s.spatialIndex.update pos id }
  else s

/-- `ServerActiveObject::setBasePosition` of an object of this environment. -/
def setBasePosition (obj : O) (pos : Point 3 β) : IndexedMgr O τ β :=
  let changed := s.basePosition obj ≠ pos
  let s := { s with basePosition := Function.update s.basePosition obj pos }
  if changed then s.updateObjectPos (s.mgr.id obj) pos else s

/-- What the two lookups have in common; a callback need not be given. -/
def getObjects (inside : Point 3 β → Bool) (includeObjCb : Option (O → Bool)) : List O :=
  (s.mgr.activeObjects.entries.map Prod.snd).filter fun obj =>
    inside (s.basePosition obj) && includeObjCb.all (· obj)

def getObjectsInsideRadius (pos : Point 3 β) (radius : β) (includeObjCb : Option (O → Bool)) :
    List O :=
  let r2 := radius * radius
  s.getObjects (fun objectpos => decide (getDistanceFromSQ objectpos pos ≤ r2)) includeObjCb

def getObjectsInArea (minEdge maxEdge : Point 3 β) (includeObjCb : Option (O → Bool)) : List O :=
  s.getObjects (fun objectpos => decide (KdTree.InBox minEdge maxEdge objectpos)) includeObjCb

def step (overLimit : Point 3 β → Bool) (s : IndexedMgr O τ β) :
    IndexedOp O τ β → Option (IndexedMgr O τ β × Option (Point 3 β × UInt16))
  | .registerObject t obj => s.registerObject overLimit t obj
  | .setBasePosition obj pos => some (s.setBasePosition obj pos, none)
  | .removeObject id => some (s.removeObject id, none)
  | .clearIf cb locked => some ({ s with mgr := s.mgr.clearIf cb locked }, none)

/-- Nothing is registered yet; objects have any ids and positions. -/
def machine (overLimit : Point 3 β → Bool) (id : O → UInt16) (lastUsedId : τ → UInt16)
    (basePosition : O → Point 3 β) :
    Machine (IndexedMgr O τ β) (IndexedOp O τ β) (Option (Point 3 β × UInt16)) where
  init := { mgr := { id, lastUsedId }, basePosition }
  step := step overLimit

/-- An object is live when it is in the table. -/
def Live (obj : O) : Prop := ∃ id, s.mgr.getActiveObject id = some obj

/-- A query of the index finds the live objects in its box, each at its position. -/
def Mirrors : Prop :=
  ∀ min max, (s.spatialIndex.rangeQuery min max).Perm
    ((s.mgr.activeObjects.entries.map fun it => (s.basePosition it.2, it.1)).filter
      fun e => KdTree.InBox min max e.1)

/-- The index is empty, and the lookups find each live object in the area once. -/
structure Answers : Prop where
  size : s.spatialIndex.size = 0
  rangeQuery : ∀ min max, s.spatialIndex.rangeQuery min max = []
  nodup : ∀ inside cb, (s.getObjects inside cb).Nodup
  insideRadius : ∀ pos radius cb obj, obj ∈ s.getObjectsInsideRadius pos radius cb ↔
    s.Live obj ∧ getDistanceFromSQ (s.basePosition obj) pos ≤ radius * radius ∧
      ∀ f, cb = some f → f obj = true
  inArea : ∀ min max cb obj, obj ∈ s.getObjectsInArea min max cb ↔
    s.Live obj ∧ KdTree.InBox min max (s.basePosition obj) ∧ ∀ f, cb = some f → f obj = true

/-- What the index is given is a new entry: its id was free, and an object at that position has
it now. -/
def InsertsNew (overLimit : Point 3 β → Bool) (s : IndexedMgr O τ β) (op : IndexedOp O τ β) :
    Prop :=
  ∀ s' point id, step overLimit s op = some (s', some (point, id)) →
    id ≠ 0 ∧ s.mgr.getActiveObject id = none ∧
      (∀ min max p, (p, id) ∉ s.spatialIndex.rangeQuery min max) ∧
      ∃ obj, s'.mgr.getActiveObject id = some obj ∧ s'.basePosition obj = point

variable {s} {overLimit : Point 3 β → Bool}

theorem mgr_setBasePosition (obj : O) (pos : Point 3 β) :
    (s.setBasePosition obj pos).mgr = s.mgr := by
  unfold setBasePosition updateObjectPos
  dsimp only
  split_ifs <;> rfl

theorem mgr_removeObject (id : UInt16) : (s.removeObject id).mgr = s.mgr.removeObject id := by
  unfold removeObject
  dsimp only
  split_ifs <;> rfl

theorem registers (h : s.mgr.Inv) {t : τ} {obj : O} {beyond : Bool} {r : ActiveObjectMgr O τ × Bool}
    (hr : s.mgr.registerObject t obj beyond = some r) : s.mgr.Registers obj r := by
  by_cases h0 : s.mgr.id obj = 0
  · exact h.registers h0 hr
  · rw [ActiveObjectMgr.registerObject, if_neg h0] at hr
    obtain rfl := Option.some.inj hr
    exact h.registers_withId obj beyond

theorem step_inv (h : s.mgr.Inv) (op : IndexedOp O τ β) :
    ∃ x, step overLimit s op = some x ∧ x.1.mgr.Inv := by
  cases op with
  | registerObject t obj =>
    have hsome : ∃ r, s.mgr.registerObject t obj (overLimit (s.basePosition obj)) = some r := by
      unfold ActiveObjectMgr.registerObject
      split_ifs
      · obtain ⟨id, last, heq, -⟩ := s.mgr.getFreeId_spec t
        exact ⟨_, by rw [heq, Option.map_some]⟩
      · exact ⟨_, rfl⟩
    obtain ⟨r, hr⟩ := hsome
    refine ⟨_, congrArg (Option.map _) hr, ?_⟩
    dsimp only
    split_ifs <;> exact (registers h hr).inv
  | setBasePosition obj pos =>
    refine ⟨_, rfl, ?_⟩
    rw [mgr_setBasePosition]
    exact h
  | removeObject id =>
    refine ⟨_, rfl, ?_⟩
    rw [mgr_removeObject]
    exact (h.removeObject id).1
  | clearIf cb locked => exact ⟨_, rfl, (h.clearIf cb locked).1⟩

theorem insertsNew (h : s.mgr.Inv) (op : IndexedOp O τ β) : InsertsNew overLimit s op := by
  intro s' point id hstep
  cases op with
  | registerObject t obj =>
    obtain ⟨r, hr, heq⟩ := Option.map_eq_some_iff.mp hstep
    have hreg := registers h hr
    split_ifs at heq with hok
    · obtain ⟨rfl, hcall⟩ := Prod.mk.inj heq
      obtain ⟨rfl, rfl⟩ := Prod.mk.inj (Option.some.inj hcall)
      obtain ⟨hne, hfree⟩ := hreg.free hok
      refine ⟨hne, hfree, fun min max p hp => absurd hp List.not_mem_nil, obj, ?_, rfl⟩
      exact (hreg.added hok _).trans (if_pos rfl)
    · cases (Prod.mk.inj heq).2
  | setBasePosition obj pos => cases hstep
  | removeObject id => cases hstep
  | clearIf cb locked => cases hstep

theorem live_iff (h : s.mgr.Inv) {obj : O} :
    s.Live obj ↔ obj ∈ s.mgr.activeObjects.entries.map Prod.snd := by
  rw [List.mem_map]
  constructor
  · rintro ⟨id, ho⟩
    exact ⟨(id, obj), h.mem_entries.mpr (h.getActiveObject id ▸ ho), rfl⟩
  · rintro ⟨⟨id, o⟩, hin, rfl⟩
    exact ⟨id, (h.getActiveObject id).trans (h.mem_entries.mp hin)⟩

theorem mem_getObjects (h : s.mgr.Inv) {inside : Point 3 β → Bool} {cb : Option (O → Bool)}
    {obj : O} : obj ∈ s.getObjects inside cb ↔
      s.Live obj ∧ inside (s.basePosition obj) = true ∧ ∀ f, cb = some f → f obj = true := by
  rw [getObjects, List.mem_filter, ← live_iff h, Bool.and_eq_true]
  cases cb <;> simp

theorem nodup_objects (h : s.mgr.Inv) : (s.mgr.activeObjects.entries.map Prod.snd).Nodup := by
  have hkeys : s.mgr.activeObjects.entries.Pairwise fun a b => a.1 ≠ b.1 := by
    rw [ModifySafeMap.entries_eq h.objects h.idle]
    refine Std.ExtTreeMap.distinct_keys_toList.imp fun hne heq => hne ?_
    rw [heq]
    exact Std.ReflCmp.compare_self
  refine List.pairwise_map.mpr (List.Pairwise.imp_of_mem (fun {a b} ha hb hne heq => hne ?_) hkeys)
  have hida := (h.ids a.1 a.2 (h.mem_entries.mp ha)).1
  have hidb := (h.ids b.1 b.2 (h.mem_entries.mp hb)).1
  rw [← hida, ← hidb, heq]

theorem answers_of_inv (h : s.mgr.Inv) : s.Answers where
  size := rfl
  rangeQuery _ _ := rfl
  nodup _ _ := (nodup_objects h).filter _
  insideRadius pos radius cb obj := by
    rw [getObjectsInsideRadius, mem_getObjects h, decide_eq_true_iff]
  inArea min max cb obj := by
    rw [getObjectsInArea, mem_getObjects h, decide_eq_true_iff]

/-- Every run is possible; the index stays empty and is only told of new ids, and after it the
lookups find the live objects at their positions. -/
theorem answers_run (overLimit : Point 3 β → Bool) (id : O → UInt16) (lastUsedId : τ → UInt16)
    (basePosition : O → Point 3 β) (ops : List (IndexedOp O τ β)) :
    (machine overLimit id lastUsedId basePosition).Allowed (InsertsNew overLimit)
        (machine overLimit id lastUsedId basePosition).init ops ∧
      ∃ s calls, (machine overLimit id lastUsedId basePosition).run
        (machine overLimit id lastUsedId basePosition).init ops = some (s, calls) ∧ s.Answers := by
  have hinit : (machine overLimit id lastUsedId basePosition).init.mgr.Inv :=
    Traced.inv_start id lastUsedId
  generalize (machine overLimit id lastUsedId basePosition).init = s at hinit ⊢
  induction ops generalizing s with
  | nil => exact ⟨trivial, s, [], rfl, answers_of_inv hinit⟩
  | cons op ops ih =>
    obtain ⟨x, hx, hinv⟩ : ∃ x, (machine overLimit id lastUsedId basePosition).step s op = some x ∧
        x.1.mgr.Inv := step_inv hinit op
    obtain ⟨hallowed, s', calls, hrun, hanswers⟩ := ih x.1 hinv
    refine ⟨⟨insertsNew hinit op, ?_⟩, s', x.2 :: calls, ?_, hanswers⟩
    · rw [hx]
      exact hallowed
    · rw [Machine.run, hx, Option.bind_some, hrun, Option.map_some]

/-- One object is registered, and no query finds it. -/
theorem not_mirrors_run : ¬ ∀ (ops : List (IndexedOp Unit Unit ℤ)) s calls,
    (machine (fun _ => false) (fun _ => 0) (fun _ => 0) fun _ => 0).run
      (machine (fun _ => false) (fun _ => 0) (fun _ => 0) fun _ => 0).init ops = some (s, calls) →
    s.Mirrors := by
  intro hall
  have hrun : ((machine (fun _ => false) (fun _ => 0) (fun _ => 0) fun _ => (0 : Point 3 ℤ)).run
      (machine (fun _ => false) (fun _ => 0) (fun _ => 0) fun _ => 0).init
      [.registerObject () ()]).any (fun r => decide
        (((r.1.mgr.activeObjects.entries.map fun it => (r.1.basePosition it.2, it.1)).filter
          fun e => KdTree.InBox 0 0 e.1).length = 1)) = true := by decide +kernel
  obtain ⟨⟨s, calls⟩, hr, hlive⟩ := (Option.any_eq_true _ _).mp hrun
  have hperm := (hall _ s calls hr 0 0).length_eq
  rw [of_decide_eq_true hlive] at hperm
  cases hperm

end IndexedMgr

end Freeminer.Server
