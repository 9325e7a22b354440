import Mathlib.Data.List.FinRange
import Freeminer.Block.NodeDefManager
import Freeminer.Voxel.Light

/-! `Circuit::update`: the elements of a circuit send signals over its virtual elements, which
connect faces of theirs. An element or a virtual element is pointed at by its id. -/

namespace Freeminer.Circuits

open Block (MapNode CONTENT_IGNORE)
open Voxel (V3)

/-- What the simulator reads of a node's definition. -/
structure ContentFeatures where
  circuitElementFunc : UInt8 → UInt8
  circuitElementDelay : UInt8
  hasOnActivate : Bool := false
  hasOnDeactivate : Bool := false

/-- The map, the node definitions and the callbacks, which may change the map. -/
structure Environment (World : Type) where
  getNode : World → V3 → MapNode
  ndef : MapNode → ContentFeatures
  nodeOnActivate : V3 → MapNode → World → World
  nodeOnDeactivate : V3 → MapNode → World → World

structure CircuitElement where
  pos : V3
  elementId : UInt32
  prevInputState : UInt8 := 0
  currentInputState : UInt8 := 0
  nextInputState : UInt8 := 0
  currentOutputState : UInt8 := 0
  statesQueue : List UInt8 := []
  /-- The virtual element of a face that is connected. -/
  faces : Fin 6 → Option UInt32

structure CircuitElementVirtualContainer where
  shift : UInt8
  elementPointer : UInt32

structure CircuitElementVirtual where
  elementId : UInt32
  state : Bool := false
  containers : List CircuitElementVirtualContainer

structure Circuit where
  elements : List CircuitElement
  virtualElements : List CircuitElementVirtual
  sinceLastUpdate : ℚ := 0

def shiftToFace (shift : UInt8) : UInt8 := 1 <<< shift

namespace CircuitElementVirtual

def addState (v : CircuitElementVirtual) (state : Bool) : CircuitElementVirtual :=
  { v with state := v.state || state }

/-- `list_pointer->addState` -/
def addStateAt (id : UInt32) (state : Bool) (vs : List CircuitElementVirtual) :
    List CircuitElementVirtual :=
  vs.map fun v => if v.elementId = id then v.addState state else v

end CircuitElementVirtual

namespace CircuitElement

def addState (e : CircuitElement) (state : UInt8) : CircuitElement :=
  { e with nextInputState := e.nextInputState ||| state }

/-- `element_pointer->addState` -/
def addStateAt (id : UInt32) (state : UInt8) (es : List CircuitElement) : List CircuitElement :=
  es.map fun e => if e.elementId = id then e.addState state else e

def outputAt (e : CircuitElement) (i : Fin 6) : Bool :=
  e.currentOutputState &&& shiftToFace (UInt8.ofNat i) ≠ 0

def update (vs : List CircuitElementVirtual) (e : CircuitElement) : List CircuitElementVirtual :=
  if e.currentOutputState ≠ 0 then
    (List.finRange 6).foldl (fun vs i =>
      match e.faces i with
      | some v => CircuitElementVirtual.addStateAt v (e.outputAt i) vs
      | none => vs) vs
  else vs

def setDelay (delay : UInt8) (queue : List UInt8) : List UInt8 :=
  if delay.toNat ≤ queue.length then queue.drop (queue.length - delay.toNat)
  else queue ++ List.replicate (delay.toNat - queue.length) 0

variable {World : Type} (env : Environment World)

/-- `node_on_activate` and `node_on_deactivate`, if the input state changes from or to zero. -/
def report (pos : V3) (node : MapNode) (old new : UInt8) (w : World) : World :=
  let nodeFeatures := env.ndef node
  let w :=
    if new ≠ 0 ∧ old = 0 ∧ nodeFeatures.hasOnActivate then env.nodeOnActivate pos node w else w
  if new = 0 ∧ old ≠ 0 ∧ nodeFeatures.hasOnDeactivate then env.nodeOnDeactivate pos node w else w

def updateState (e : CircuitElement) (w : World) : Option (CircuitElement × World) :=
  let node := env.getNode w e.pos
  if node.param0 = CONTENT_IGNORE then none
  else
    let nodeFeatures := env.ndef node
    let delay := nodeFeatures.circuitElementDelay
    let queue := if delay.toNat ≠ e.statesQueue.length then setDelay delay e.statesQueue
      else e.statesQueue
    let queue := queue ++ [e.nextInputState]
    let next := queue.headD 0
    some ({ e with
            statesQueue := queue.tail
            currentOutputState := nodeFeatures.circuitElementFunc next
            prevInputState := e.currentInputState
            currentInputState := next
            nextInputState := 0 }, report env e.pos node e.currentInputState next w)

def resetState (e : CircuitElement) : CircuitElement :=
  { e with nextInputState := 0, currentInputState := e.prevInputState }

/-- The states are updated until the map is found not to be loaded. -/
def updateStates (w : World) : List CircuitElement → List CircuitElement × World × Bool
  | [] => ([], w, true)
  | e :: es =>
    match updateState env e w with
    | none => (e :: es, w, false)
    | some (e, w) =>
      let (es, w, isMapLoaded) := updateStates w es
      (e :: es, w, isMapLoaded)

end CircuitElement

namespace CircuitElementVirtual

def update (v : CircuitElementVirtual) (es : List CircuitElement) :
    CircuitElementVirtual × List CircuitElement :=
  if v.state then
    ({ v with state := false }, v.containers.foldl (fun es i =>
      CircuitElement.addStateAt i.elementPointer (shiftToFace i.shift) es) es)
  else (v, es)

def updateAll : List CircuitElementVirtual → List CircuitElement →
    List CircuitElementVirtual × List CircuitElement
  | [], es => ([], es)
  | v :: vs, es =>
    let (v, es) := v.update es
    let (vs, es) := updateAll vs es
    (v :: vs, es)

end CircuitElementVirtual

namespace Circuit

variable {World : Type} (env : Environment World)

/-- What is done when an update is due, and whether the map was loaded. -/
def tick (c : Circuit) (w : World) : Circuit × World × Bool :=
  let virtualElements := c.elements.foldl CircuitElement.update c.virtualElements
  let (virtualElements, elements) := CircuitElementVirtual.updateAll virtualElements c.elements
  let (elements, w, isMapLoaded) := CircuitElement.updateStates env w elements
  let elements := if isMapLoaded then elements else elements.map CircuitElement.resetState
  ({ c with elements, virtualElements }, w, isMapLoaded)

def minUpdateDelay : ℚ := 1 / 5

def update (dtime : ℚ) (c : Circuit) (w : World) : Circuit × World :=
  if c.sinceLastUpdate > minUpdateDelay then
    let (c, w, _) := tick env { c with sinceLastUpdate := c.sinceLastUpdate - minUpdateDelay } w
    (c, w)
  else ({ c with sinceLastUpdate := c.sinceLastUpdate + dtime }, w)

end Circuit

/-! ## What the elements send -/

variable {World : Type} {env : Environment World} {es : List CircuitElement}
  {vs : List CircuitElementVirtual}

/-- An element has its output on at a face that is connected to the virtual element. -/
def CircuitElement.sendsTo (id : UInt32) (e : CircuitElement) : Bool :=
  (List.finRange 6).any fun i => e.faces i == some id && e.outputAt i

/-- A virtual element after all elements have sent their signals. -/
def CircuitElementVirtual.signalled (es : List CircuitElement) (v : CircuitElementVirtual) :
    CircuitElementVirtual :=
  v.addState (es.any (·.sendsTo v.elementId))

@[simp] theorem addState_elementId (v : CircuitElementVirtual) (b : Bool) :
    (v.addState b).elementId = v.elementId := rfl

@[simp] theorem addState_false (v : CircuitElementVirtual) : v.addState false = v := by
  simp [CircuitElementVirtual.addState]

theorem addState_addState (v : CircuitElementVirtual) (b b' : Bool) :
    (v.addState b).addState b' = v.addState (b || b') := by
  simp [CircuitElementVirtual.addState, Bool.or_assoc]

theorem outputAt_of_zero {e : CircuitElement} (h : e.currentOutputState = 0) (i : Fin 6) :
    e.outputAt i = false := by
  simp [CircuitElement.outputAt, h]

theorem foldl_faces (e : CircuitElement) (is : List (Fin 6)) (vs : List CircuitElementVirtual) :
    is.foldl (fun vs i =>
      match e.faces i with
      | some v => CircuitElementVirtual.addStateAt v (e.outputAt i) vs
      | none => vs) vs =
    vs.map fun v => v.addState (is.any fun i => e.faces i == some v.elementId && e.outputAt i) := by
  induction is generalizing vs with
  | nil => simp
  | cons i is ih =>
    rw [List.foldl_cons, ih]
    cases hface : e.faces i with
    | none => simp [hface]
    | some id =>
      simp only [CircuitElementVirtual.addStateAt, List.map_map]
      apply List.map_congr_left
      intro v _
      by_cases hid : v.elementId = id
      · simp [hid, hface, addState_addState]
      · have hid' : (id == v.elementId) = false := beq_eq_false_iff_ne.mpr fun h => hid h.symm
        simp [hid, hid', hface]

theorem update_eq (e : CircuitElement) (vs : List CircuitElementVirtual) :
    e.update vs = vs.map fun v => v.addState (e.sendsTo v.elementId) := by
  unfold CircuitElement.update
  split_ifs with h0
  · exact foldl_faces e _ vs
  · have hzero := outputAt_of_zero (not_not.mp h0)
    have hnone : ∀ v : CircuitElementVirtual, e.sendsTo v.elementId = false := fun v => by
      simp [CircuitElement.sendsTo, hzero]
    simp [hnone]

theorem foldl_update_eq (es : List CircuitElement) (vs : List CircuitElementVirtual) :
    es.foldl CircuitElement.update vs = vs.map (·.signalled es) := by
  induction es generalizing vs with
  | nil => simp [CircuitElementVirtual.signalled]
  | cons e es ih =>
    rw [List.foldl_cons]
    rw [ih, update_eq, List.map_map]
    apply List.map_congr_left
    intro v _
    simp [CircuitElementVirtual.signalled, addState_addState]

/-! ## What the virtual elements send -/

def CircuitElementVirtual.signals (vs : List CircuitElementVirtual) (id : UInt32) : List UInt8 :=
  vs.flatMap fun v =>
    if v.state then
      (v.containers.filter (·.elementPointer = id)).map fun i => shiftToFace i.shift
    else []

def orAll (signals : List UInt8) : UInt8 := signals.foldr (· ||| ·) 0

def CircuitElement.receives (vs : List CircuitElementVirtual) (e : CircuitElement) :
    CircuitElement :=
  e.addState (orAll (CircuitElementVirtual.signals vs e.elementId))

theorem orAll_append (l l' : List UInt8) : orAll (l ++ l') = orAll l ||| orAll l' := by
  induction l with
  | nil => simp [orAll]
  | cons a l ih =>
    simp only [orAll, List.cons_append, List.foldr_cons] at ih ⊢
    rw [ih, UInt8.or_assoc]

theorem orAll_perm {l l' : List UInt8} (h : l.Perm l') : orAll l = orAll l' := by
  induction h with
  | nil => rfl
  | cons a _ ih => simpa [orAll] using congrArg (a ||| ·) ih
  | swap a b l =>
    simp only [orAll, List.foldr_cons]
    rw [← UInt8.or_assoc, ← UInt8.or_assoc, UInt8.or_comm b a]
  | trans _ _ ih ih' => exact ih.trans ih'

theorem addState_addState_element (e : CircuitElement) (a b : UInt8) :
    (e.addState a).addState b = e.addState (a ||| b) := by
  simp [CircuitElement.addState, UInt8.or_assoc]

@[simp] theorem addState_elementId_element (e : CircuitElement) (a : UInt8) :
    (e.addState a).elementId = e.elementId := rfl

@[simp] theorem addState_zero (e : CircuitElement) : e.addState 0 = e := by
  simp [CircuitElement.addState]

theorem foldl_containers (is : List CircuitElementVirtualContainer) (es : List CircuitElement) :
    is.foldl (fun es i => CircuitElement.addStateAt i.elementPointer (shiftToFace i.shift) es) es =
    es.map fun e => e.addState
      (orAll ((is.filter (·.elementPointer = e.elementId)).map fun i => shiftToFace i.shift)) := by
  induction is generalizing es with
  | nil => simp [orAll]
  | cons i is ih =>
    rw [List.foldl_cons, ih]
    simp only [CircuitElement.addStateAt, List.map_map]
    apply List.map_congr_left
    intro e _
    by_cases hid : e.elementId = i.elementPointer
    · have hid' : i.elementPointer = e.elementId := hid.symm
      simp only [Function.comp_apply, if_pos hid, addState_elementId_element]
      rw [addState_addState_element, List.filter_cons_of_pos (by simpa using hid'), List.map_cons]
      rfl
    · have hid' : ¬i.elementPointer = e.elementId := fun h => hid h.symm
      simp [hid, hid']

theorem update_virtual_eq (v : CircuitElementVirtual) (es : List CircuitElement) :
    v.update es = ({ v with state := false }, es.map (·.receives [v])) := by
  unfold CircuitElementVirtual.update
  cases hstate : v.state with
  | false =>
    have hv : ({ v with state := false } : CircuitElementVirtual) = v := by rw [← hstate]
    simp [hv, CircuitElement.receives, CircuitElementVirtual.signals, hstate, orAll]
  | true =>
    rw [if_pos rfl, foldl_containers]
    simp [CircuitElement.receives, CircuitElementVirtual.signals, hstate]

theorem updateAll_eq (vs : List CircuitElementVirtual) (es : List CircuitElement) :
    CircuitElementVirtual.updateAll vs es =
      (vs.map fun v => { v with state := false }, es.map (·.receives vs)) := by
  induction vs generalizing es with
  | nil => simp [CircuitElementVirtual.updateAll, CircuitElement.receives,
      CircuitElementVirtual.signals, orAll]
  | cons v vs ih =>
    rw [CircuitElementVirtual.updateAll, update_virtual_eq]
    dsimp only
    rw [ih, List.map_cons, List.map_map]
    refine Prod.ext rfl (List.map_congr_left fun e _ => ?_)
    simp only [Function.comp_apply, CircuitElement.receives, addState_elementId_element]
    rw [addState_addState_element, ← orAll_append]
    simp [CircuitElementVirtual.signals]

/-! ## A tick -/

namespace Circuit

def signalledElements (c : Circuit) : List CircuitElement :=
  c.elements.map (·.receives (c.virtualElements.map (·.signalled c.elements)))

theorem tick_eq (c : Circuit) (w : World) :
    tick env c w =
      let (elements, w, isMapLoaded) := CircuitElement.updateStates env w c.signalledElements
      ({ c with
          elements := if isMapLoaded then elements else elements.map CircuitElement.resetState
          virtualElements := c.virtualElements.map fun v => { v with state := false } },
        w, isMapLoaded) := by
  unfold tick signalledElements
  simp only [foldl_update_eq, updateAll_eq, List.map_map]
  rfl

end Circuit

end Freeminer.Circuits
