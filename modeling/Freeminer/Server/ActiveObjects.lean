import Freeminer.Server.ActiveObjectMgr

/-! The active objects of the server's environment, and the static copies that the blocks keep of
them: registration, activation, deactivation and removal. -/

set_option linter.unusedSectionVars false

namespace Freeminer.Server

open Util

variable {B P E τ : Type} [DecidableEq B] [DecidableEq τ]

/-- The static data of an object; `entity` says whose data it is. -/
structure StaticObject (P E : Type) where
  type : UInt8
  pos : P
  entity : E

structure StaticObjectList (P E : Type) where
  stored : List (StaticObject P E) := []
  active : Std.ExtTreeMap UInt16 (StaticObject P E) := ∅

namespace StaticObjectList

variable (l : StaticObjectList P E) (id : UInt16)

def insert (obj : StaticObject P E) : StaticObjectList P E :=
  if id = 0 then { l with stored := l.stored ++ [obj] }
  else if id ∈ l.active then l
  else { l with active := l.active.insert id obj }

def remove : StaticObjectList P E :=
  if id = 0 then l
  else if id ∉ l.active then l
  else { l with active := l.active.erase id }

def setActive (obj : StaticObject P E) : StaticObjectList P E :=
  { l with active := l.active.insert id obj }

def storeActiveObject : StaticObjectList P E :=
  match l.active[id]? with
  | none => l
  | some obj => { stored := l.stored ++ [obj], active := l.active.erase id }

/-- `MapBlock::saveStaticObject`; `none` when the block has enough objects. -/
def saveStaticObject (limit : ℕ) (obj : StaticObject P E) : Option (StaticObjectList P E) :=
  if limit ≤ l.stored.length then none else some (l.insert id obj)

end StaticObjectList

def ACTIVEOBJECT_TYPE_INVALID : UInt8 := 0
def ACTIVEOBJECT_TYPE_LUAENTITY : UInt8 := 7
def ACTIVEOBJECT_TYPE_LUAITEM : UInt8 := 22
def ACTIVEOBJECT_TYPE_LUAFALLING : UInt8 := 23
def ACTIVEOBJECT_TYPE_PLAYER : UInt8 := 100

structure ServerActiveObject (B P E : Type) where
  type : UInt8
  pos : P
  entity : E
  knownByCount : UInt16 := 0
  pendingRemoval : Bool := false
  pendingDeactivation : Bool := false
  staticExists : Bool := false
  staticBlock : B

namespace ServerActiveObject

variable (obj : ServerActiveObject B P E)

def isGone : Bool := obj.pendingRemoval || obj.pendingDeactivation

/-- The constructor of `StaticObject` that takes an object. -/
def toStatic : StaticObject P E := ⟨obj.type, obj.pos, obj.entity⟩

end ServerActiveObject

/-- What the environment asks of positions, entities and settings. -/
structure ObjectRules (B P E : Type) where
  /-- `getNodeBlockPos(floatToInt(pos, BS))` -/
  getNodeBlockPos : P → B
  /-- `objectpos_over_limit` -/
  overLimit : P → Bool
  /-- The coordinates that `activateObjects` looks at are past `MAX_MAP_GENERATION_LIMIT`. -/
  broken : P → Bool
  /-- At least `ACTIVE_OBJECT_RESAVE_DISTANCE_SQ` apart. -/
  farApart : B → B → Bool
  /-- The block of an object that has never had static data. -/
  noBlock : B
  isStaticAllowed : E → Bool
  /-- The setting `max_objects_per_block`. -/
  maxObjects : UInt16

/-- `get_max_objects_per_block` -/
def ObjectRules.limit (R : ObjectRules B P E) : ℕ := max 256 R.maxObjects.toNat

/-- Objects are known by the order in which they were made. -/
structure ServerEnvironment (B P E τ : Type) where
  mgr : ActiveObjectMgr ℕ τ
  obj : ℕ → ServerActiveObject B P E
  made : ℕ := 0
  blocks : B → StaticObjectList P E := fun _ => {}
  activeBlocks : B → Bool := fun _ => false
  /-- History: the entities that a limit has dropped. -/
  lost : List E := []

/-- What an object of a pass meets: whether the block emerges that its static data is deleted from,
saved to or stored in, what `shouldUnload` says, whether its lock is free and whether the block that
it stands in is loaded. -/
structure ObjectAnswers where
  deletes : Bool := true
  saves : Bool := true
  stores : Bool := true
  shouldUnload : Bool := true
  lock : Bool := true
  blockLoaded : Bool := true

/-- What an activated object meets: whether the block of its static data emerges, and whether the
block that is activated has become an orphan. -/
structure ActivationAnswers where
  emerges : Bool := true
  isOrphan : Bool := false

namespace ServerEnvironment

variable (R : ObjectRules B P E)

section Parts

variable (env : ServerEnvironment B P E τ) (id : UInt16) (o : ℕ)

/-- `getActiveObject(id, true)`, as a pointer. -/
def getObject : Option ℕ := env.mgr.getActiveObject id

/-- `getActiveObject(id)` -/
def getActiveObject : Option ℕ := (env.getObject id).filter fun o => !(env.obj o).isGone

def setObj (obj : ServerActiveObject B P E) : ServerEnvironment B P E τ :=
  { env with obj := Function.update env.obj o obj }

def setBlock (b : B) (l : StaticObjectList P E) : ServerEnvironment B P E τ :=
  { env with blocks := Function.update env.blocks b l }

@[simp] theorem setObj_obj (obj : ServerActiveObject B P E) (o' : ℕ) :
    (env.setObj o obj).obj o' = if o' = o then obj else env.obj o' := Function.update_apply ..

def create (obj : ServerActiveObject B P E) : ServerEnvironment B P E τ :=
  let mgr := { env.mgr with id := Function.update env.mgr.id env.made 0 }
  { env.setObj env.made obj with mgr, made := env.made + 1 }

def markForRemoval : ServerEnvironment B P E τ :=
  env.setObj o { env.obj o with pendingRemoval := true }

def markForDeactivation : ServerEnvironment B P E τ :=
  env.setObj o { env.obj o with pendingDeactivation := true }

/-- `deleteStaticFromBlock`; `emerges`: the block is there. -/
def deleteStaticFromBlock (emerges : Bool) : ServerEnvironment B P E τ :=
  let obj := env.obj o
  if !obj.staticExists then env
  else if !emerges then env
  else
    (env.setBlock obj.staticBlock ((env.blocks obj.staticBlock).remove id)).setObj o
      { obj with staticExists := false }

/-- `saveStaticToBlock`: the environment, and whether it was saved. An object whose data is refused
because the block has enough objects goes to the history. -/
def saveStaticToBlock (emerges : Bool) (blockpos : B) (storeId : UInt16) :
    ServerEnvironment B P E τ × Bool :=
  let obj := env.obj o
  if !emerges then (env, false)
  else
    match (env.blocks blockpos).saveStaticObject storeId R.limit obj.toStatic with
    | none => ({ env with lost := obj.entity :: env.lost }, false)
    | some l =>
      ((env.setBlock blockpos l).setObj o { obj with staticExists := true, staticBlock := blockpos },
        true)

/-! ### Registration -/

/-- `addActiveObjectRaw`: the environment and the id, or 0. `emerges`: the block of the static data
is there. Static data comes with an object that says it has some. -/
def addActiveObjectRaw (t : τ) (fromStatic : Option (StaticObject P E)) (emerges : Bool) :
    Option (ServerEnvironment B P E τ × UInt16) :=
  (env.mgr.registerObject t o (R.overLimit (env.obj o).pos)).bind fun r =>
    let env := { env with mgr := r.1 }
    let id := env.mgr.id o
    let obj := env.obj o
    if !r.2 then some (env, 0)
    else if obj.staticExists then
      fromStatic.map fun s =>
        if emerges then
          (env.setBlock obj.staticBlock ((env.blocks obj.staticBlock).setActive id s), id)
        else (env.setObj o { obj with staticExists := false }, id)
    else if R.isStaticAllowed obj.entity then
      let blockpos := R.getNodeBlockPos obj.pos
      if emerges then
        some ((env.setBlock blockpos ((env.blocks blockpos).setActive id obj.toStatic)).setObj o
          { obj with staticExists := true, staticBlock := blockpos }, id)
      else
        let env := env.markForRemoval o
        some ({ env with mgr := env.mgr.removeObject id }, 0)
    else some (env, id)

def addActiveObject (t : τ) (type : UInt8) (pos : P) (entity : E) (emerges : Bool) :
    Option (ServerEnvironment B P E τ × UInt16) :=
  (env.create { type, pos, entity, staticBlock := R.noBlock }).addActiveObjectRaw R env.made t none
    emerges

/-! ### Activation -/

/-- `createSAO` has a factory for it. -/
def createSAO (type : UInt8) : Bool :=
  type == ACTIVEOBJECT_TYPE_LUAENTITY || type == ACTIVEOBJECT_TYPE_LUAFALLING ||
    type == ACTIVEOBJECT_TYPE_LUAITEM

/-- An entity whose object could not be registered goes to the history. -/
def orLost (entity : E) (r : ServerEnvironment B P E τ × UInt16) : ServerEnvironment B P E τ :=
  if r.2 = 0 then { r.1 with lost := entity :: r.1.lost } else r.1

/-- The loop of `activateObjects` over the stored objects from the `k`th on; the answer says whether
the block has become an orphan. Static data that no object can be made from ends the loop; nothing
is ever put into `new_stored`. -/
def activateStored (env : ServerEnvironment B P E τ) (t : τ) (b : B)
    (ans : ℕ → ActivationAnswers) :
    ℕ → List (StaticObject P E) → Option (ServerEnvironment B P E τ × Bool)
  | _, [] => some (env, false)
  | k, s :: stored =>
    if s.type == ACTIVEOBJECT_TYPE_INVALID || R.broken s.pos then some (env, false)
    else if !createSAO s.type then some (env, false)
    else
      let o := env.made
      let env := env.create { s with staticExists := true, staticBlock := b }
      (env.addActiveObjectRaw R o t (some s) (ans k).emerges).bind fun r =>
        if (ans k).isOrphan then some (orLost s.entity r, true)
        else activateStored (orLost s.entity r) t b ans (k + 1) stored

/-- `activateObjects`, with `onObjectsActivation`. -/
def activateObjects (t : τ) (b : B) (ans : ℕ → ActivationAnswers) :
    Option (ServerEnvironment B P E τ) :=
  let l := env.blocks b
  if l.stored.isEmpty then some env
  else if R.limit < l.stored.length then
    let env := env.setBlock b { l with stored := l.stored.take R.limit }
    some { env with lost := (l.stored.drop R.limit).map StaticObject.entity ++ env.lost }
  else
    (env.activateStored R t b ans 0 l.stored).map fun r =>
      if r.2 then r.1
      else r.1.setBlock b { r.1.blocks b with stored := [] }

/-! ### Removal and deactivation -/

/-- What `removeRemovedObjects` does with an object: whether it is to be deleted. -/
def removeRemoved (ans : ObjectAnswers) : ServerEnvironment B P E τ × Bool :=
  if !(env.obj o).isGone then (env, false)
  else
    let env :=
      if (env.obj o).pendingRemoval then env.deleteStaticFromBlock id o ans.deletes else env
    let obj := env.obj o
    if 0 < obj.knownByCount then (env, false)
    else if !obj.pendingRemoval && obj.staticExists && ans.stores then
      (env.setBlock obj.staticBlock ((env.blocks obj.staticBlock).storeActiveObject id), true)
    else (env, true)

/-- Whether the static data of an object goes to the block that it has moved to. -/
def resaves : Bool :=
  let obj := env.obj o
  let blockpos := R.getNodeBlockPos obj.pos
  R.isStaticAllowed obj.entity && obj.staticExists && env.activeBlocks blockpos &&
    (!env.activeBlocks obj.staticBlock || R.farApart blockpos obj.staticBlock)

def stillActive (ans : ObjectAnswers) : Bool :=
  let obj := env.obj o
  if R.isStaticAllowed obj.entity then env.activeBlocks (R.getNodeBlockPos obj.pos)
  else ans.blockLoaded

/-- Whether `deactivateFarObjects` passes over an object. -/
def skips (ans : ObjectAnswers) : Bool :=
  let obj := env.obj o
  !ans.shouldUnload || obj.isGone || obj.type == ACTIVEOBJECT_TYPE_PLAYER || !ans.lock

/-- The static data of an object that is deactivated: whether it was saved, or need not be. -/
def updateStatic (ans : ObjectAnswers) (pendingDelete : Bool) : ServerEnvironment B P E τ × Bool :=
  let obj := env.obj o
  let env := env.deleteStaticFromBlock id o ans.deletes
  if R.isStaticAllowed obj.entity then
    env.saveStaticToBlock R o ans.saves (R.getNodeBlockPos obj.pos) (if pendingDelete then id else 0)
  else (env, true)

/-- What `deactivateFarObjects`, not forced, does with an object: whether it is to be deleted. -/
def deactivateFar (ans : ObjectAnswers) : ServerEnvironment B P E τ × Bool :=
  let obj := env.obj o
  if env.skips o ans then (env, false)
  else if env.resaves R o then
    let env := env.deleteStaticFromBlock id o ans.deletes
    ((env.saveStaticToBlock R o ans.saves (R.getNodeBlockPos obj.pos) id).1, false)
  else if env.stillActive R o ans then (env, false)
  else
    let pendingDelete := decide (0 < obj.knownByCount)
    let r := env.updateStatic R id o ans pendingDelete
    -- an object whose data was not saved is deleted nevertheless
    (r.1.markForDeactivation o, !(pendingDelete && r.2))

/-- A loop over objects, and the ids of those that are to be deleted. -/
def visit (cb : ServerEnvironment B P E τ → UInt16 → ℕ → ServerEnvironment B P E τ × Bool) :
    ServerEnvironment B P E τ → List (UInt16 × ℕ) → ServerEnvironment B P E τ × List UInt16
  | env, [] => (env, [])
  | env, it :: its =>
    let r := cb env it.1 it.2
    let rest := visit cb r.1 its
    (rest.1, if r.2 then it.1 :: rest.2 else rest.2)

/-- `clearIf` with what changes the environment; `locked`: the table can be locked at the end. -/
def clearIf (cb : ServerEnvironment B P E τ → UInt16 → ℕ → ServerEnvironment B P E τ × Bool)
    (locked : Bool) : ServerEnvironment B P E τ :=
  let r := visit cb env env.mgr.activeObjects.entries
  { r.1 with mgr := r.1.mgr.clearIf (fun _ id => r.2.contains id) locked }

def removeRemovedObjects (ans : UInt16 → ObjectAnswers) (locked : Bool) :
    ServerEnvironment B P E τ :=
  env.clearIf (fun env id o => env.removeRemoved id o (ans id)) locked

def deactivateFarObjects (ans : UInt16 → ObjectAnswers) (locked : Bool) :
    ServerEnvironment B P E τ :=
  env.clearIf (fun env id o => env.deactivateFar R id o (ans id)) locked

end Parts

end ServerEnvironment

/-! What the operations of the environment do with the table of active objects. -/

variable {B P E τ : Type} [DecidableEq B] [DecidableEq τ] {R : ObjectRules B P E}

namespace ServerEnvironment

variable {env env' env'' : ServerEnvironment B P E τ} {id : UInt16} {o : ℕ}

/-! ### The table stays -/

/-- The table is the same, the counters too, and what is gone stays gone. -/
structure SameTable (env env' : ServerEnvironment B P E τ) : Prop where
  mgr : env'.mgr = env.mgr
  made : env'.made = env.made
  count : ∀ o, (env'.obj o).knownByCount = (env.obj o).knownByCount
  gone : ∀ o, (env.obj o).isGone = true → (env'.obj o).isGone = true

@[refl] theorem SameTable.refl (env : ServerEnvironment B P E τ) : env.SameTable env :=
  ⟨rfl, rfl, fun _ => rfl, fun _ h => h⟩

theorem SameTable.trans (h : env.SameTable env') (h' : env'.SameTable env'') :
    env.SameTable env'' :=
  ⟨h'.mgr.trans h.mgr, h'.made.trans h.made, fun o => (h'.count o).trans (h.count o),
    fun o hgone => h'.gone o (h.gone o hgone)⟩

theorem SameTable.getObject (h : env.SameTable env') (id : UInt16) :
    env'.getObject id = env.getObject id := by
  rw [ServerEnvironment.getObject, h.mgr]
  rfl

theorem sameTable_setObj {obj : ServerActiveObject B P E}
    (hcount : obj.knownByCount = (env.obj o).knownByCount)
    (hgone : (env.obj o).isGone = true → obj.isGone = true) :
    env.SameTable (env.setObj o obj) := by
  refine ⟨rfl, rfl, fun o' => ?_, fun o' h => ?_⟩
  · by_cases heq : o' = o
    · subst heq
      simpa [setObj] using hcount
    · simp [setObj, heq]
  · by_cases heq : o' = o
    · subst heq
      simpa [setObj] using hgone h
    · simpa [setObj, heq] using h

theorem sameTable_setBlock (b : B) (l : StaticObjectList P E) : env.SameTable (env.setBlock b l) :=
  ⟨rfl, rfl, fun _ => rfl, fun _ h => h⟩

theorem sameTable_lost (lost : List E) : env.SameTable { env with lost } :=
  ⟨rfl, rfl, fun _ => rfl, fun _ h => h⟩

theorem sameTable_markForRemoval : env.SameTable (env.markForRemoval o) :=
  sameTable_setObj rfl fun _ => rfl

theorem sameTable_markForDeactivation : env.SameTable (env.markForDeactivation o) :=
  sameTable_setObj rfl fun _ => by simp [ServerActiveObject.isGone]

theorem sameTable_deleteStaticFromBlock (emerges : Bool) :
    env.SameTable (env.deleteStaticFromBlock id o emerges) := by
  unfold deleteStaticFromBlock
  dsimp only
  split_ifs
  · rfl
  · rfl
  · exact (sameTable_setBlock _ _).trans (sameTable_setObj rfl fun h => h)

theorem sameTable_saveStaticToBlock (emerges : Bool) (blockpos : B) (storeId : UInt16) :
    env.SameTable (env.saveStaticToBlock R o emerges blockpos storeId).1 := by
  unfold saveStaticToBlock
  dsimp only
  split_ifs
  · rfl
  · split
    · exact sameTable_lost _
    · exact (sameTable_setBlock _ _).trans (sameTable_setObj rfl fun h => h)

theorem sameTable_removeRemoved (ans : ObjectAnswers) :
    env.SameTable (env.removeRemoved id o ans).1 := by
  unfold removeRemoved
  dsimp only
  split_ifs
  · rfl
  · exact sameTable_deleteStaticFromBlock _
  · exact (sameTable_deleteStaticFromBlock _).trans (sameTable_setBlock _ _)
  · exact sameTable_deleteStaticFromBlock _
  · rfl
  · exact sameTable_setBlock _ _
  · rfl

theorem sameTable_updateStatic (ans : ObjectAnswers) (pendingDelete : Bool) :
    env.SameTable (env.updateStatic R id o ans pendingDelete).1 := by
  unfold updateStatic
  dsimp only
  split_ifs
  · exact (sameTable_deleteStaticFromBlock _).trans (sameTable_saveStaticToBlock _ _ _)
  · exact (sameTable_deleteStaticFromBlock _).trans (sameTable_saveStaticToBlock _ _ _)
  · exact sameTable_deleteStaticFromBlock _

theorem sameTable_deactivateFar (ans : ObjectAnswers) :
    env.SameTable (env.deactivateFar R id o ans).1 := by
  unfold deactivateFar
  dsimp only
  split_ifs
  · rfl
  · exact (sameTable_deleteStaticFromBlock _).trans (sameTable_saveStaticToBlock _ _ _)
  · rfl
  · exact (sameTable_updateStatic _ _).trans sameTable_markForDeactivation

/-! ### What a pass accepts -/

theorem removeRemoved_accepts {ans : ObjectAnswers}
    (h : (env.removeRemoved id o ans).2 = true) :
    (env.obj o).isGone = true ∧ (env.obj o).knownByCount = 0 := by
  have hcount : ((if (env.obj o).pendingRemoval = true then
      env.deleteStaticFromBlock id o ans.deletes else env).obj o).knownByCount =
      (env.obj o).knownByCount := by
    split_ifs
    · exact (sameTable_deleteStaticFromBlock _).count o
    · rfl
  unfold removeRemoved at h
  dsimp only at h
  by_cases hgone : (env.obj o).isGone = true
  · refine ⟨hgone, ?_⟩
    rw [if_neg (by simp [hgone]), hcount] at h
    by_contra hne
    have hpos : 0 < (env.obj o).knownByCount := UInt16.pos_iff_ne_zero.mpr hne
    rw [if_pos hpos] at h
    cases h
  · rw [if_pos (by simpa using hgone)] at h
    cases h

def deactivates (R : ObjectRules B P E) (env : ServerEnvironment B P E τ) (o : ℕ)
    (ans : ObjectAnswers) : Bool :=
  !env.skips o ans && !env.resaves R o && !env.stillActive R o ans

/-- An object is deleted at once if no client knows it or its data could not be saved. -/
theorem deactivateFar_accepts_iff {ans : ObjectAnswers} :
    (env.deactivateFar R id o ans).2 = true ↔ env.deactivates R o ans = true ∧
      (0 < (env.obj o).knownByCount → (env.updateStatic R id o ans true).2 = false) := by
  unfold deactivateFar deactivates
  dsimp only
  split_ifs with hskips hresaves hactive
  · simp [hskips]
  · simp [hresaves]
  · simp [hactive]
  · by_cases hknown : 0 < (env.obj o).knownByCount <;> simp [hskips, hresaves, hactive, hknown]

theorem deactivateFar_gone {ans : ObjectAnswers}
    (h : (env.deactivateFar R id o ans).2 = true) :
    ((env.deactivateFar R id o ans).1.obj o).isGone = true := by
  unfold deactivateFar at h ⊢
  dsimp only at h ⊢
  split_ifs at h ⊢
  simp [markForDeactivation, setObj, ServerActiveObject.isGone]

/-- What decides whether the data of a deactivated object is saved. -/
theorem updateStatic_saved_iff {ans : ObjectAnswers} {pendingDelete : Bool} :
    (env.updateStatic R id o ans pendingDelete).2 = true ↔
      (R.isStaticAllowed (env.obj o).entity = true → ans.saves = true ∧
        (env.blocks (R.getNodeBlockPos (env.obj o).pos)).stored.length < R.limit) := by
  have hstored : ∀ b, ((env.deleteStaticFromBlock id o ans.deletes).blocks b).stored =
      (env.blocks b).stored := by
    intro b
    unfold deleteStaticFromBlock
    dsimp only
    split_ifs
    · rfl
    · rfl
    · by_cases hb : b = (env.obj o).staticBlock
      · subst hb
        simp only [setObj, setBlock, Function.update_self]
        unfold StaticObjectList.remove
        split_ifs <;> rfl
      · simp [setObj, setBlock, hb]
  unfold updateStatic
  dsimp only
  by_cases hallowed : R.isStaticAllowed (env.obj o).entity = true
  · rw [if_pos hallowed]
    unfold saveStaticToBlock StaticObjectList.saveStaticObject
    dsimp only
    rw [hstored]
    cases hsaves : ans.saves with
    | false => simp [hallowed]
    | true =>
      by_cases hfull : R.limit ≤ (env.blocks (R.getNodeBlockPos (env.obj o).pos)).stored.length
      · simp [hallowed, hfull]
      · simp [hallowed, hfull, Nat.lt_of_not_le hfull]
  · rw [if_neg hallowed]
    simp [hallowed]

/-! ### Passes -/

def VisitAllowed (cb : ServerEnvironment B P E τ → UInt16 → ℕ → ServerEnvironment B P E τ × Bool)
    (ok : ServerEnvironment B P E τ → UInt16 → ℕ → Prop) :
    ServerEnvironment B P E τ → List (UInt16 × ℕ) → Prop
  | _, [] => True
  | env, it :: its => ok env it.1 it.2 ∧ VisitAllowed cb ok (cb env it.1 it.2).1 its

instance decidableVisitAllowed
    (cb : ServerEnvironment B P E τ → UInt16 → ℕ → ServerEnvironment B P E τ × Bool)
    (ok : ServerEnvironment B P E τ → UInt16 → ℕ → Prop) [∀ env id o, Decidable (ok env id o)] :
    (env : ServerEnvironment B P E τ) → (its : List (UInt16 × ℕ)) →
      Decidable (VisitAllowed cb ok env its)
  | _, [] => .isTrue trivial
  | env, it :: its =>
    have : Decidable (VisitAllowed cb ok (cb env it.1 it.2).1 its) :=
      decidableVisitAllowed cb ok (cb env it.1 it.2).1 its
    inferInstanceAs (Decidable (_ ∧ _))

variable {cb : ServerEnvironment B P E τ → UInt16 → ℕ → ServerEnvironment B P E τ × Bool}
  {ok : ServerEnvironment B P E τ → UInt16 → ℕ → Prop} {its : List (UInt16 × ℕ)}

theorem visitAllowed_true (its : List (UInt16 × ℕ)) :
    VisitAllowed cb (fun _ _ _ => True) env its := by
  induction its generalizing env with
  | nil => trivial
  | cons it its ih => exact ⟨trivial, ih⟩

theorem sameTable_visit (hcb : ∀ (env : ServerEnvironment B P E τ) id o, env.SameTable (cb env id o).1) :
    env.SameTable (visit cb env its).1 := by
  induction its generalizing env with
  | nil => rfl
  | cons it its ih => exact (hcb env it.1 it.2).trans ih

/-- What a pass accepts was accepted in one of its states. -/
theorem mem_visit (hcb : ∀ (env : ServerEnvironment B P E τ) id o, env.SameTable (cb env id o).1)
    (hok : VisitAllowed cb ok env its) (h : id ∈ (visit cb env its).2) :
    ∃ env₁ o, (id, o) ∈ its ∧ env.SameTable env₁ ∧ ok env₁ id o ∧ (cb env₁ id o).2 = true ∧
      (cb env₁ id o).1.SameTable (visit cb env its).1 := by
  induction its generalizing env with
  | nil => exact absurd h List.not_mem_nil
  | cons it its ih =>
    unfold visit at h ⊢
    dsimp only at h ⊢
    have hrest : id ∈ (visit cb (cb env it.1 it.2).1 its).2 →
        ∃ env₁ o, (id, o) ∈ it :: its ∧ env.SameTable env₁ ∧ ok env₁ id o ∧
          (cb env₁ id o).2 = true ∧
          (cb env₁ id o).1.SameTable (visit cb (cb env it.1 it.2).1 its).1 := by
      intro hin
      obtain ⟨env₁, o, hmem, hsame, hrest⟩ := ih hok.2 hin
      exact ⟨env₁, o, List.mem_cons_of_mem _ hmem, (hcb _ _ _).trans hsame, hrest⟩
    split_ifs at h with hacc
    · rcases List.mem_cons.mp h with rfl | hin
      · exact ⟨env, it.2, List.mem_cons_self, .refl env, hok.1, hacc, sameTable_visit hcb⟩
      · exact hrest hin
    · exact hrest h

/-! ### The table -/

/-- Objects of the table were made before, and what waits for its removal is gone. -/
structure Inv (env : ServerEnvironment B P E τ) : Prop where
  mgr : env.mgr.Inv
  fresh : ∀ id o, env.getObject id = some o → o < env.made
  waiting : ∀ id ∈ env.mgr.objectsToRemove, ∃ o, env.getObject id = some o ∧
    (env.obj o).isGone = true

theorem Inv.sameTable (h : env.Inv) (hsame : env.SameTable env') : env'.Inv := by
  refine ⟨hsame.mgr ▸ h.mgr, fun id o ho => ?_, fun id hid => ?_⟩
  · rw [hsame.getObject] at ho
    rw [hsame.made]
    exact h.fresh id o ho
  · rw [hsame.mgr] at hid
    obtain ⟨o, ho, hgone⟩ := h.waiting id hid
    exact ⟨o, (hsame.getObject id).trans ho, hsame.gone o hgone⟩

theorem Inv.id_unique (h : env.Inv) {id id' : UInt16} (ho : env.getObject id = some o)
    (ho' : env.getObject id' = some o) : id = id' := by
  have hid := (h.mgr.ids id o (h.mgr.getActiveObject id ▸ ho)).1
  exact hid.symm.trans (h.mgr.ids id' o (h.mgr.getActiveObject id' ▸ ho')).1

theorem Inv.ne_zero (h : env.Inv) (ho : env.getObject id = some o) : id ≠ 0 :=
  (h.mgr.ids id o (h.mgr.getActiveObject id ▸ ho)).2

/-- The table may have more objects, under ids that were free. -/
structure Grows (env env' : ServerEnvironment B P E τ) : Prop where
  inv : env'.Inv
  waiting : env'.mgr.objectsToRemove = env.mgr.objectsToRemove
  made : env.made ≤ env'.made
  old : ∀ id o, env.getObject id = some o → env'.getObject id = some o ∧
    (env'.obj o).knownByCount = (env.obj o).knownByCount
  new : ∀ id o, env'.getObject id = some o → env.getObject id = some o ∨
    env.getObject id = none ∧ (env'.obj o).knownByCount = 0

theorem Grows.trans (h : env.Grows env') (h' : env'.Grows env'') : env.Grows env'' := by
  refine ⟨h'.inv, h'.waiting.trans h.waiting, Nat.le_trans h.made h'.made,
    fun id o ho => ?_, fun id o ho => ?_⟩
  · obtain ⟨ho', hcount⟩ := h.old id o ho
    obtain ⟨ho'', hcount'⟩ := h'.old id o ho'
    exact ⟨ho'', hcount'.trans hcount⟩
  · rcases h'.new id o ho with ho' | ⟨hnone, hzero⟩
    · rcases h.new id o ho' with hold | ⟨hnone, hzero⟩
      · exact Or.inl hold
      · exact Or.inr ⟨hnone, ((h'.old id o ho').2).trans hzero⟩
    · refine Or.inr ⟨?_, hzero⟩
      cases hbefore : env.getObject id with
      | none => rfl
      | some o₁ => cases hnone.symm.trans (h.old id o₁ hbefore).1

theorem Inv.grows (h : env.Inv) (hsame : env.SameTable env') : env.Grows env' :=
  ⟨h.sameTable hsame, by rw [hsame.mgr], Nat.le_of_eq hsame.made.symm,
    fun id o ho => ⟨(hsame.getObject id).trans ho, hsame.count o⟩,
    fun id _ ho => Or.inl ((hsame.getObject id).symm.trans ho)⟩

theorem Grows.orLost {r : ServerEnvironment B P E τ × UInt16} (h : env.Grows r.1) (entity : E) :
    env.Grows (ServerEnvironment.orLost entity r) := by
  unfold ServerEnvironment.orLost
  split_ifs
  · exact h.trans (h.inv.grows (sameTable_lost _))
  · exact h

/-- The object that is made next is not in the table. -/
theorem Inv.create_not_in_table (h : env.Inv) (id : UInt16) :
    env.getObject id ≠ some env.made :=
  fun ho => Nat.lt_irrefl _ (h.fresh id _ ho)

theorem Inv.create (h : env.Inv) (obj : ServerActiveObject B P E) :
    env.Grows (env.create obj) := by
  have hnot : env.mgr.activeObjects.content[env.mgr.id env.made]? ≠ some env.made := by
    rw [← h.mgr.getActiveObject]
    exact h.create_not_in_table _
  have hmgr := h.mgr.setId hnot 0
  have hold : ∀ id o, env.getObject id = some o → o ≠ env.made := by
    rintro id o ho rfl
    exact h.create_not_in_table id ho
  refine ⟨⟨hmgr, fun id o ho => ?_, fun id hid => ?_⟩, rfl, Nat.le_succ _, fun id o ho => ?_,
    fun id o ho => Or.inl ho⟩
  · exact Nat.lt_succ_of_lt (h.fresh id o ho)
  · obtain ⟨o, ho, hgone⟩ := h.waiting id hid
    refine ⟨o, ho, ?_⟩
    simpa [ServerEnvironment.create, setObj, hold id o ho] using hgone
  · refine ⟨ho, ?_⟩
    simp [ServerEnvironment.create, hold id o ho]

/-- `addActiveObjectRaw` of an object that was just made. -/
theorem Inv.addActiveObjectRaw (h : env.Inv) {t : τ} {fromStatic : Option (StaticObject P E)}
    {emerges : Bool} (h0 : env.mgr.id o = 0) (hmade : o < env.made)
    (hfresh : ∀ id, env.getObject id ≠ some o) (hcount : (env.obj o).knownByCount = 0)
    {r : ServerEnvironment B P E τ × UInt16}
    (hr : env.addActiveObjectRaw R o t fromStatic emerges = some r) : env.Grows r.1 := by
  obtain ⟨⟨mgr, ok⟩, hreg, hr⟩ := Option.bind_eq_some_iff.mp hr
  have hspec := h.mgr.registers h0 hreg
  -- the table after the registration
  have hgrows : env.Grows { env with mgr } := by
    cases ok with
    | false =>
      have hsame : ∀ id, ({ env with mgr } : ServerEnvironment B P E τ).getObject id =
          env.getObject id := hspec.refused rfl
      refine ⟨⟨hspec.inv, fun id o' ho' => ?_, fun id hid => ?_⟩, hspec.waiting, Nat.le_refl _,
        fun id o' ho' => ⟨(hsame id).trans ho', rfl⟩, fun id o' ho' => ?_⟩
      · exact h.fresh id o' ((hsame id).symm.trans ho')
      · obtain ⟨o', ho', hgone⟩ := h.waiting id (hspec.waiting ▸ hid)
        exact ⟨o', (hsame id).trans ho', hgone⟩
      · exact Or.inl ((hsame id).symm.trans ho')
    | true =>
      have hfree : env.getObject (mgr.id o) = none := (hspec.free rfl).2
      have hadded : ∀ id, ({ env with mgr } : ServerEnvironment B P E τ).getObject id =
          if id = mgr.id o then some o else env.getObject id := hspec.added rfl
      have hkept : ∀ id o', env.getObject id = some o' →
          ({ env with mgr } : ServerEnvironment B P E τ).getObject id = some o' := by
        intro id o' ho'
        rw [hadded, if_neg, ho']
        rintro rfl
        cases hfree.symm.trans ho'
      refine ⟨⟨hspec.inv, fun id o' ho' => ?_, fun id hid => ?_⟩, hspec.waiting, Nat.le_refl _,
        fun id o' ho' => ⟨hkept id o' ho', rfl⟩, fun id o' ho' => ?_⟩
      · rw [hadded] at ho'
        split_ifs at ho' with heq
        · exact Option.some.inj ho' ▸ hmade
        · exact h.fresh id o' ho'
      · obtain ⟨o', ho', hgone⟩ := h.waiting id (hspec.waiting ▸ hid)
        exact ⟨o', hkept id o' ho', hgone⟩
      · rw [hadded] at ho'
        split_ifs at ho' with heq
        · obtain rfl := Option.some.inj ho'
          exact Or.inr ⟨heq ▸ hfree, hcount⟩
        · exact Or.inl ho'
  have hthen : ∀ {env'}, SameTable { env with mgr } env' → env.Grows env' := fun hsame =>
    hgrows.trans (hgrows.inv.grows hsame)
  cases ok with
  | false =>
    simp only [Bool.not_false, if_true] at hr
    exact Option.some.inj hr ▸ hgrows
  | true =>
    simp only [Bool.not_true, Bool.false_eq_true, if_false] at hr
    split_ifs at hr with hstatic hemerges hallowed hemerges
    · obtain ⟨s, -, rfl⟩ := Option.map_eq_some_iff.mp hr
      exact hthen (sameTable_setBlock _ _)
    · obtain ⟨s, -, rfl⟩ := Option.map_eq_some_iff.mp hr
      exact hthen (sameTable_setObj rfl fun hgone => hgone)
    · obtain rfl := Option.some.inj hr
      exact hthen ((sameTable_setBlock _ _).trans (sameTable_setObj rfl fun hgone => hgone))
    · -- the object leaves the table again
      obtain rfl := Option.some.inj hr
      have hfree : env.getObject (mgr.id o) = none := (hspec.free rfl).2
      have htable : ∀ id, (mgr.removeObject (mgr.id o)).getActiveObject id = env.getObject id := by
        intro id
        rw [hspec.inv.getActiveObject_removeObject]
        split_ifs with heq
        · rw [heq, hfree]
        · exact (hspec.added rfl id).trans (if_neg heq)
      have hother : ∀ id o', env.getObject id = some o' → o' ≠ o := by
        rintro id o' ho' rfl
        exact hfresh id ho'
      refine ⟨⟨(hspec.inv.removeObject _).1, fun id o' ho' => ?_, fun id hid => ?_⟩, hspec.waiting,
        Nat.le_refl _, fun id o' ho' => ⟨(htable id).trans ho', ?_⟩, fun id o' ho' => ?_⟩
      · exact h.fresh id o' ((htable id).symm.trans ho')
      · obtain ⟨o', ho', hgone⟩ := h.waiting id (hspec.waiting ▸ hid)
        refine ⟨o', (htable id).trans ho', ?_⟩
        simpa [markForRemoval, setObj, hother id o' ho'] using hgone
      · simp [markForRemoval, hother id o' ho']
      · exact Or.inl ((htable id).symm.trans ho')
    · exact Option.some.inj hr ▸ hgrows

theorem Inv.addActiveObject (h : env.Inv) {t : τ} {type : UInt8} {pos : P} {entity : E}
    {emerges : Bool} {r : ServerEnvironment B P E τ × UInt16}
    (hr : env.addActiveObject R t type pos entity emerges = some r) : env.Grows r.1 := by
  have hcreate := h.create { type, pos, entity, staticBlock := R.noBlock }
  refine hcreate.trans (hcreate.inv.addActiveObjectRaw ?_ (Nat.lt_succ_self _)
    h.create_not_in_table ?_ hr)
  · simp [ServerEnvironment.create]
  · simp [ServerEnvironment.create]

theorem Inv.activateStored (h : env.Inv) {t : τ} {b : B} {ans : ℕ → ActivationAnswers} {k : ℕ}
    {stored : List (StaticObject P E)} {r : ServerEnvironment B P E τ × Bool}
    (hr : env.activateStored R t b ans k stored = some r) : env.Grows r.1 := by
  induction stored generalizing env k with
  | nil => exact Option.some.inj hr ▸ h.grows (.refl env)
  | cons s stored ih =>
    rw [ServerEnvironment.activateStored] at hr
    by_cases hbroken : (s.type == ACTIVEOBJECT_TYPE_INVALID || R.broken s.pos) = true
    · rw [if_pos hbroken] at hr
      exact Option.some.inj hr ▸ h.grows (.refl env)
    rw [if_neg hbroken] at hr
    by_cases hunknown : (!createSAO s.type) = true
    · rw [if_pos hunknown] at hr
      exact Option.some.inj hr ▸ h.grows (.refl env)
    rw [if_neg hunknown] at hr
    obtain ⟨r₁, hadd, hr⟩ := Option.bind_eq_some_iff.mp hr
    have hcreate := h.create { s with staticExists := true, staticBlock := b }
    have hadded : env.Grows r₁.1 := by
      refine hcreate.trans (hcreate.inv.addActiveObjectRaw ?_ (Nat.lt_succ_self _)
        h.create_not_in_table ?_ hadd)
      · simp [ServerEnvironment.create]
      · simp [ServerEnvironment.create]
    have hlogged := hadded.orLost s.entity
    split_ifs at hr
    · exact Option.some.inj hr ▸ hlogged
    · exact hlogged.trans (ih hlogged.inv hr)

theorem Inv.activateObjects (h : env.Inv) {t : τ} {b : B} {ans : ℕ → ActivationAnswers}
    (hr : env.activateObjects R t b ans = some env') : env.Grows env' := by
  unfold ServerEnvironment.activateObjects at hr
  dsimp only at hr
  split_ifs at hr
  · exact Option.some.inj hr ▸ h.grows (.refl env)
  · exact Option.some.inj hr ▸ h.grows ((sameTable_setBlock _ _).trans (sameTable_lost _))
  · obtain ⟨r, hloop, rfl⟩ := Option.map_eq_some_iff.mp hr
    have hgrows := h.activateStored hloop
    split_ifs
    · exact hgrows
    · exact hgrows.trans (hgrows.inv.grows (sameTable_setBlock _ _))

/-- A pass of `clearIf`: what leaves the table has waited or was accepted, and so has what waits
afterwards. -/
theorem Inv.clearIf (h : env.Inv)
    {cb : ServerEnvironment B P E τ → UInt16 → ℕ → ServerEnvironment B P E τ × Bool}
    (hcb : ∀ (env : ServerEnvironment B P E τ) id o, env.SameTable (cb env id o).1)
    (hgone : ∀ (env : ServerEnvironment B P E τ) id o, (cb env id o).2 = true →
      ((cb env id o).1.obj o).isGone = true) (locked : Bool) :
    (env.clearIf cb locked).Inv ∧
      (∀ id o, (env.clearIf cb locked).getObject id = some o ↔ env.getObject id = some o ∧
        ¬(locked = true ∧ (id ∈ env.mgr.objectsToRemove ∨
          id ∈ (visit cb env env.mgr.activeObjects.entries).2))) ∧
      ∀ id, id ∈ (env.clearIf cb locked).mgr.objectsToRemove ↔ locked = false ∧
        (id ∈ env.mgr.objectsToRemove ∨ id ∈ (visit cb env env.mgr.activeObjects.entries).2) := by
  have hsame : env.SameTable (visit cb env env.mgr.activeObjects.entries).1 := sameTable_visit hcb
  have hinv := h.sameTable hsame
  have htable : ∀ id o, (env.clearIf cb locked).getObject id = some o ↔ env.getObject id = some o ∧
      ¬(locked = true ∧ (id ∈ env.mgr.objectsToRemove ∨
        id ∈ (visit cb env env.mgr.activeObjects.entries).2)) := by
    intro id o
    rw [getObject, ServerEnvironment.clearIf]
    dsimp only
    rw [hinv.mgr.getActiveObject_clearIf, hsame.mgr]
    simp [getObject]
  -- what is accepted is in the table
  have haccepted : ∀ id, id ∈ (visit cb env env.mgr.activeObjects.entries).2 →
      ∃ o, env.getObject id = some o ∧
        ((visit cb env env.mgr.activeObjects.entries).1.obj o).isGone = true := by
    intro id hid
    obtain ⟨env₁, o, hmem, -, -, hacc, hafter⟩ := mem_visit hcb (visitAllowed_true _) hid
    exact ⟨o, (h.mgr.getActiveObject id).trans (h.mgr.mem_entries.mp hmem),
      hafter.gone o (hgone env₁ id o hacc)⟩
  have hwaiting : ∀ id, id ∈ (env.clearIf cb locked).mgr.objectsToRemove ↔ locked = false ∧
      (id ∈ env.mgr.objectsToRemove ∨
        id ∈ (visit cb env env.mgr.activeObjects.entries).2) := by
    intro id
    rw [ServerEnvironment.clearIf]
    dsimp only
    rw [hinv.mgr.mem_waiting_clearIf, hsame.mgr]
    refine and_congr_right fun _ => or_congr_right ⟨?_, fun hid => ?_⟩
    · rintro ⟨o, -, hmem⟩
      simpa using hmem
    · obtain ⟨o, ho, -⟩ := haccepted id hid
      exact ⟨o, ho, by simpa using hid⟩
  have hmgr : (env.clearIf cb locked).mgr.Inv := by
    rw [ServerEnvironment.clearIf]
    dsimp only
    exact (hinv.mgr.clearIf _ locked).1
  refine ⟨⟨hmgr, fun id o ho => ?_, fun id hid => ?_⟩, htable, hwaiting⟩
  · have hlt := h.fresh id o ((htable id o).mp ho).1
    exact Nat.lt_of_lt_of_eq hlt hsame.made.symm
  · obtain ⟨hlocked, hid⟩ := (hwaiting id).mp hid
    have hstays : ∀ o, env.getObject id = some o →
        (env.clearIf cb locked).getObject id = some o := fun o ho =>
      (htable id o).mpr ⟨ho, fun hand => by simp [hlocked] at hand⟩
    rcases hid with hid | hid
    · obtain ⟨o, ho, hgone⟩ := h.waiting id hid
      exact ⟨o, hstays o ho, hsame.gone o hgone⟩
    · obtain ⟨o, ho, hgone⟩ := haccepted id hid
      exact ⟨o, hstays o ho, hgone⟩

/-- A pass meets each object of the table once. -/
theorem Inv.nodup_entries (h : env.Inv) :
    (env.mgr.activeObjects.entries.map Prod.fst).Nodup := by
  rw [ModifySafeMap.entries_eq h.mgr.objects h.mgr.idle]
  refine List.pairwise_map.mpr (Std.ExtTreeMap.distinct_keys_toList.imp ?_)
  intro a b hne heq
  exact hne (heq ▸ Std.ReflCmp.compare_self)

end ServerEnvironment

end Freeminer.Server
