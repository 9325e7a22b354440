import Freeminer.Circuits.Circuit

/-! What an update leaves behind when it is given up, and that it does not depend on the order of
the elements. -/

namespace Freeminer.Circuits

open Block (MapNode CONTENT_IGNORE)
open Voxel (V3)

variable {World : Type} {env : Environment World} {w : World} {es : List CircuitElement}

/-! ## Giving up -/

def CircuitElement.states (e : CircuitElement) : UInt8 × UInt8 × List UInt8 :=
  (e.prevInputState, e.currentInputState, e.statesQueue)

def Circuit.states (c : Circuit) : List (UInt8 × UInt8 × List UInt8) × List Bool :=
  (c.elements.map CircuitElement.states, c.virtualElements.map CircuitElementVirtual.state)

/-- Up to the first element whose node is not loaded, the delayed states of an element are as many
as its node asks for, and all are the input that it gets now. -/
def Steady (env : Environment World) : World → List CircuitElement → Prop
  | _, [] => True
  | w, e :: es =>
    let node := env.getNode w e.pos
    node.param0 ≠ CONTENT_IGNORE →
      e.statesQueue =
        List.replicate (env.ndef node).circuitElementDelay.toNat e.nextInputState ∧
      Steady env (CircuitElement.report env e.pos node e.currentInputState e.nextInputState w) es

structure Unharmed (env : Environment World) (c : Circuit) (w : World) : Prop where
  off : ∀ v ∈ c.virtualElements, v.state = false
  same : ∀ e ∈ c.elements, e.prevInputState = e.currentInputState
  steady : Steady env w c.signalledElements

theorem length_setDelay (delay : UInt8) (queue : List UInt8) :
    (CircuitElement.setDelay delay queue).length = delay.toNat := by
  unfold CircuitElement.setDelay
  split_ifs with h
  · rw [List.length_drop]
    omega
  · rw [List.length_append, List.length_replicate]
    omega

/-- What stays the same when it is shifted by one place is all the same. -/
theorem eq_replicate_of_append {α : Type} {x a : α} {l : List α} (h : l ++ [x] = a :: l) :
    a = x ∧ ∀ b ∈ l, b = x := by
  induction l generalizing a with
  | nil =>
    cases h
    exact ⟨rfl, by simp⟩
  | cons b l ih =>
    rw [List.cons_append, List.cons.injEq] at h
    obtain ⟨rfl, h⟩ := h
    obtain ⟨rfl, hall⟩ := ih h
    exact ⟨rfl, by simpa using hall⟩

theorem tail_eq_iff {queue queue' : List UInt8} {x : UInt8} {n : ℕ}
    (hlen : queue'.length = n) (hsame : queue.length = n → queue' = queue) :
    (queue' ++ [x]).tail = queue ↔ queue = List.replicate n x := by
  constructor
  · intro h
    have hn : queue.length = n := by
      rw [← h]
      simp [hlen]
    rw [hsame hn] at h
    cases queue with
    | nil => simp [← hn]
    | cons a queue =>
      obtain ⟨rfl, hall⟩ := eq_replicate_of_append (by simpa using h)
      exact List.eq_replicate_iff.mpr ⟨hn, by simpa using hall⟩
  · intro h
    rw [hsame (by simp [h]), h, ← List.replicate_succ', List.tail_replicate]
    rfl

namespace CircuitElement

theorem updateState_eq_none {e : CircuitElement}
    (h : (env.getNode w e.pos).param0 = CONTENT_IGNORE) : updateState env e w = none := if_pos h

/-- An element after an update of its state, and the input that counts now. -/
theorem updateState_eq_some {e : CircuitElement}
    (h : (env.getNode w e.pos).param0 ≠ CONTENT_IGNORE) :
    ∃ e' next, updateState env e w = some (e', report env e.pos (env.getNode w e.pos)
        e.currentInputState next w) ∧
      e'.prevInputState = e.currentInputState ∧ e'.currentInputState = next ∧
      (e'.statesQueue = e.statesQueue ↔ e.statesQueue = List.replicate
        (env.ndef (env.getNode w e.pos)).circuitElementDelay.toNat e.nextInputState) ∧
      (e'.statesQueue = e.statesQueue → next = e.nextInputState) := by
  have hdelay : ∀ (n : UInt8) (queue : List UInt8),
      (if n.toNat ≠ queue.length then setDelay n queue else queue).length = n.toNat ∧
      (queue.length = n.toNat →
        (if n.toNat ≠ queue.length then setDelay n queue else queue) = queue) := by
    intro n queue
    refine ⟨?_, fun h => if_neg (by simp [h])⟩
    split_ifs with h
    · exact length_setDelay n queue
    · exact (not_not.mp h).symm
  obtain ⟨hlen, hsame⟩ :=
    hdelay (env.ndef (env.getNode w e.pos)).circuitElementDelay e.statesQueue
  refine ⟨_, _, if_neg h, rfl, rfl, tail_eq_iff hlen hsame, fun hq => ?_⟩
  have hrep := (tail_eq_iff hlen hsame).mp hq
  rw [hsame (by rw [hrep, List.length_replicate]), hrep]
  cases (env.ndef (env.getNode w e.pos)).circuitElementDelay.toNat with
  | zero => rfl
  | succ n => rfl

theorem states_resetState_eq_iff (e : CircuitElement) :
    e.resetState.states = e.states ↔ e.prevInputState = e.currentInputState := by
  simp [resetState, states]

theorem reset_updateStates_iff (h : (updateStates env w es).2.2 = false) :
    ((updateStates env w es).1.map resetState).map states = es.map states ↔
      (∀ e ∈ es, e.prevInputState = e.currentInputState) ∧ Steady env w es := by
  induction es generalizing w with
  | nil => cases h
  | cons e es ih =>
    rw [Steady, List.forall_mem_cons]
    by_cases hnode : (env.getNode w e.pos).param0 = CONTENT_IGNORE
    · -- it is given up here
      rw [updateStates, updateState_eq_none hnode]
      simp [hnode, states_resetState_eq_iff]
    · obtain ⟨e', next, hupdate, hprev, hcurrent, hqueue, hnext⟩ :=
        updateState_eq_some hnode
      rw [updateStates, hupdate] at h ⊢
      have hhead : e'.resetState.states = e.states ↔
          e.prevInputState = e.currentInputState ∧ e'.statesQueue = e.statesQueue := by
        simp only [states, resetState, hprev, Prod.mk.injEq, true_and]
        rw [eq_comm (a := e.currentInputState)]
      simp only [List.map_cons, List.cons.injEq]
      rw [hhead, ih h]
      by_cases hsteady : e'.statesQueue = e.statesQueue
      · rw [hnext hsteady]
        have hrep := hqueue.mp hsteady
        constructor
        · rintro ⟨⟨he, -⟩, hes, hrest⟩
          exact ⟨⟨he, hes⟩, fun _ => ⟨hrep, hrest⟩⟩
        · rintro ⟨⟨he, hes⟩, hrest⟩
          exact ⟨⟨he, hsteady⟩, hes, (hrest hnode).2⟩
      · constructor
        · rintro ⟨⟨-, hsame⟩, -⟩
          exact absurd hsame hsteady
        · rintro ⟨-, hrest⟩
          exact absurd (hqueue.mpr (hrest hnode).1) hsteady

end CircuitElement

/-- An update that is given up leaves the states as they were exactly in these circuits. -/
theorem states_tick_iff (env : Environment World) (c : Circuit) (w : World)
    (h : (Circuit.tick env c w).2.2 = false) :
    (Circuit.tick env c w).1.states = c.states ↔ Unharmed env c w := by
  rw [Circuit.tick_eq] at h ⊢
  dsimp only at h ⊢
  have hstates : c.signalledElements.map CircuitElement.states =
      c.elements.map CircuitElement.states := by
    simp [Circuit.signalledElements, Function.comp_def, CircuitElement.states,
      CircuitElement.receives, CircuitElement.addState]
  have hprev : (∀ e ∈ c.signalledElements, e.prevInputState = e.currentInputState) ↔
      ∀ e ∈ c.elements, e.prevInputState = e.currentInputState := by
    simp [Circuit.signalledElements, CircuitElement.receives, CircuitElement.addState]
  have hvirtual : (c.virtualElements.map fun v => { v with state := false }).map
        CircuitElementVirtual.state = c.virtualElements.map CircuitElementVirtual.state ↔
      ∀ v ∈ c.virtualElements, v.state = false := by
    rw [List.map_map, List.map_inj_left]
    exact ⟨fun h v hv => (h v hv).symm, fun h v hv => (h v hv).symm⟩
  simp only [h, Bool.false_eq_true, if_false, Circuit.states, Prod.mk.injEq]
  rw [← hstates, CircuitElement.reset_updateStates_iff h, hprev, hvirtual]
  constructor
  · rintro ⟨⟨hsame, hsteady⟩, hoff⟩
    exact ⟨hoff, hsame, hsteady⟩
  · rintro ⟨hoff, hsame, hsteady⟩
    exact ⟨⟨hsame, hsteady⟩, hoff⟩

def alwaysOn : Environment Bool where
  getNode loaded _ := { param0 := if loaded then 1 else CONTENT_IGNORE }
  ndef _ := { circuitElementFunc := fun _ => 1, circuitElementDelay := 0 }
  nodeOnActivate _ _ w := w
  nodeOnDeactivate _ _ w := w

def wired : Circuit where
  elements := [
    { pos := ⟨0, 0, 0⟩, elementId := 0, faces := fun i => if i = 0 then some 1 else none },
    { pos := ⟨0, 2, 0⟩, elementId := 1, faces := fun i => if i = 1 then some 1 else none }]
  virtualElements := [{
    elementId := 1
    containers := [{ shift := 0, elementPointer := 0 }, { shift := 1, elementPointer := 1 }] }]

def wiredOn : Circuit := (Circuit.tick alwaysOn (Circuit.tick alwaysOn wired true).1 true).1

theorem states_tick_iff_wiredOn : (Circuit.tick alwaysOn wiredOn false).1.states = wiredOn.states ↔
    Unharmed alwaysOn wiredOn false :=
  states_tick_iff alwaysOn wiredOn false rfl

/-- An update that is given up after that turns them off. -/
theorem not_allOrNothing : ¬∀ (env : Environment Bool) (c : Circuit) (w : Bool),
    (Circuit.tick env c w).2.2 = false → (Circuit.tick env c w).1.states = c.states := by
  intro h
  exact absurd (h alwaysOn wiredOn false rfl) (by decide)

/-! ## The order of the elements -/

def KeepsNodes (env : Environment World) (es : List CircuitElement) : Prop :=
  ∀ e ∈ es, ∀ pos node w, env.getNode (env.nodeOnActivate pos node w) e.pos = env.getNode w e.pos ∧
    env.getNode (env.nodeOnDeactivate pos node w) e.pos = env.getNode w e.pos

def Loaded (env : Environment World) (w : World) (es : List CircuitElement) : Prop :=
  ∀ e ∈ es, (env.getNode w e.pos).param0 ≠ CONTENT_IGNORE

namespace CircuitElement

theorem getNode_report (hkeep : KeepsNodes env es) {e : CircuitElement} (he : e ∈ es) (pos : V3)
    (node : MapNode) (old new : UInt8) (w : World) :
    env.getNode (report env pos node old new w) e.pos = env.getNode w e.pos := by
  unfold report
  dsimp only
  split_ifs
  · rw [(hkeep e he pos node _).2, (hkeep e he pos node w).1]
  · exact (hkeep e he pos node w).2
  · exact (hkeep e he pos node w).1
  · rfl

def updated (env : Environment World) (w : World) (e : CircuitElement) : CircuitElement :=
  ((updateState env e w).map Prod.fst).getD e

theorem updated_congr {w' : World} {e : CircuitElement}
    (h : env.getNode w' e.pos = env.getNode w e.pos) : updated env w' e = updated env w e := by
  unfold updated updateState
  dsimp only
  rw [h]
  split_ifs <;> rfl

/-- Over a map that is loaded each state is updated by itself. -/
theorem updateStates_eq (hkeep : KeepsNodes env es) (hload : Loaded env w es) :
    ∃ w', updateStates env w es = (es.map (updated env w), w', true) := by
  induction es generalizing w with
  | nil => exact ⟨w, rfl⟩
  | cons e es ih =>
    obtain ⟨e', next, hupdate, -⟩ := updateState_eq_some (hload e (by simp))
    have hsame : ∀ d ∈ es, env.getNode (report env e.pos (env.getNode w e.pos)
        e.currentInputState next w) d.pos = env.getNode w d.pos :=
      fun d hd => getNode_report hkeep (List.mem_cons_of_mem _ hd) _ _ _ _ _
    obtain ⟨w', hrest⟩ := ih (fun d hd => hkeep d (List.mem_cons_of_mem _ hd)) (fun d hd => by
      rw [hsame d hd]
      exact hload d (List.mem_cons_of_mem _ hd))
    refine ⟨w', ?_⟩
    have hfirst : updated env w e = e' := by simp [updated, hupdate]
    rw [updateStates, hupdate]
    simp only [hrest, List.map_cons, hfirst]
    rw [List.map_congr_left fun d hd => updated_congr (hsame d hd)]

end CircuitElement

/-- The elements are the same but for their order. -/
structure SameUpToOrder (c c' : Circuit) : Prop where
  elements : c.elements.Perm c'.elements
  virtualElements : c.virtualElements.Perm c'.virtualElements
  sinceLastUpdate : c.sinceLastUpdate = c'.sinceLastUpdate

variable {c c' : Circuit}

theorem signalled_congr (h : SameUpToOrder c c') (v : CircuitElementVirtual) :
    v.signalled c.elements = v.signalled c'.elements := by
  unfold CircuitElementVirtual.signalled
  rw [h.elements.any_eq]

theorem receives_congr {vs vs' : List CircuitElementVirtual} (h : vs.Perm vs')
    (e : CircuitElement) : e.receives vs = e.receives vs' := by
  unfold CircuitElement.receives CircuitElementVirtual.signals
  rw [orAll_perm (h.flatMap_right _)]

theorem SameUpToOrder.signalledElements (h : SameUpToOrder c c') :
    c.signalledElements.Perm c'.signalledElements := by
  have hvs : (c.virtualElements.map (·.signalled c.elements)).Perm
      (c'.virtualElements.map (·.signalled c'.elements)) := by
    rw [List.map_congr_left fun v _ => signalled_congr h v]
    exact h.virtualElements.map _
  unfold Circuit.signalledElements
  rw [List.map_congr_left fun e _ => receives_congr hvs e]
  exact h.elements.map _

theorem mem_signalledElements {e : CircuitElement} (h : e ∈ c.signalledElements) :
    ∃ d ∈ c.elements, e.pos = d.pos := by
  obtain ⟨d, hd, rfl⟩ := List.mem_map.mp h
  exact ⟨d, hd, rfl⟩

theorem tick_eq_of_loaded (hkeep : KeepsNodes env c.elements) (hload : Loaded env w c.elements) :
    (Circuit.tick env c w).1 = { c with
      elements := c.signalledElements.map (CircuitElement.updated env w)
      virtualElements := c.virtualElements.map fun v => { v with state := false } } := by
  have hkeep' : KeepsNodes env c.signalledElements := fun e he pos node w => by
    obtain ⟨d, hd, hpos⟩ := mem_signalledElements he
    rw [hpos]
    exact hkeep d hd pos node w
  have hload' : Loaded env w c.signalledElements := fun e he => by
    obtain ⟨d, hd, hpos⟩ := mem_signalledElements he
    rw [hpos]
    exact hload d hd
  obtain ⟨w', hupdate⟩ := CircuitElement.updateStates_eq hkeep' hload'
  rw [Circuit.tick_eq, hupdate]
  rfl

theorem tick_sameUpToOrder (h : SameUpToOrder c c') (hload : Loaded env w c.elements)
    (hkeep : KeepsNodes env c.elements) :
    SameUpToOrder (Circuit.tick env c w).1 (Circuit.tick env c' w).1 := by
  have hload' : Loaded env w c'.elements :=
    fun e he => hload e (h.elements.mem_iff.mpr he)
  have hkeep' : KeepsNodes env c'.elements :=
    fun e he => hkeep e (h.elements.mem_iff.mpr he)
  rw [tick_eq_of_loaded hkeep hload, tick_eq_of_loaded hkeep' hload']
  exact ⟨h.signalledElements.map _, h.virtualElements.map _, h.sinceLastUpdate⟩

theorem update_of_due {dtime : ℚ} (h : c.sinceLastUpdate > Circuit.minUpdateDelay) :
    (Circuit.update env dtime c w).1 = (Circuit.tick env
      { c with sinceLastUpdate := c.sinceLastUpdate - Circuit.minUpdateDelay } w).1 := by
  rw [Circuit.update, if_pos h]

theorem update_of_not_due {dtime : ℚ} (h : ¬c.sinceLastUpdate > Circuit.minUpdateDelay) :
    (Circuit.update env dtime c w).1 = { c with sinceLastUpdate := c.sinceLastUpdate + dtime } := by
  rw [Circuit.update, if_neg h]

def wiredBack : Circuit := { wired with elements := wired.elements.reverse }

/-- A node that writes another one when it is activated, all at once and not node by node. -/
def writer : Environment (V3 → MapNode) where
  getNode w p := w p
  ndef n := {
    circuitElementFunc := fun _ => if n.param0 = 2 then 1 else 0
    circuitElementDelay := 0
    hasOnActivate := n.param0 = 1 }
  nodeOnActivate _ _ w p := if p = ⟨0, 2, 0⟩ then { param0 := 2 } else w p
  nodeOnDeactivate _ _ w := w

def signalOn : Circuit := { wired with
  virtualElements := wired.virtualElements.map (·.addState true)
  sinceLastUpdate := 1 }

theorem one_gt_minUpdateDelay : (1 : ℚ) > Circuit.minUpdateDelay := by
  norm_num [Circuit.minUpdateDelay]

end Freeminer.Circuits
