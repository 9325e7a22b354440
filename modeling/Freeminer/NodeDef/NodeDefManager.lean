import Mathlib.Data.Finmap
import Freeminer.Block.NodeDefManager
import Freeminer.Lib.Runs

/-! `NodeDefManager` (`nodedef.cpp`) with features, groups and removal, and how it reaches a client. -/

namespace Freeminer.NodeDef

open Lib
open Block (Content CONTENT_UNKNOWN CONTENT_AIR CONTENT_IGNORE)

/-- `ItemGroupList` -/
abbrev ItemGroupList := Finmap fun _ : ByteString => ℤ

def itemgroup_get (groups : ItemGroupList) (name : ByteString) : ℤ := (groups.lookup name).getD 0

/-- What is known of a node; `rest` is all that the manager does not look at. -/
structure ContentFeatures (R : Type) where
  name : ByteString
  groups : ItemGroupList
  floats : Bool
  rest : R

variable {R : Type}

/-- `reset`, where `rest` is what it makes of the other members. -/
def ContentFeatures.reset (rest : R) : ContentFeatures R :=
  { name := []
    groups := (∅ : ItemGroupList).insert (bytes "dig_immediate") 2
    floats := false
    rest }

def ContentFeatures.withFloats (f : ContentFeatures R) : ContentFeatures R :=
  { f with floats := itemgroup_get f.groups (bytes "float") ≠ 0 }

/-- The members of new features and of the contents of the engine that the manager does not look
at. -/
structure Builtin (R : Type) where
  reset : R
  unknown : R
  air : R
  ignore : R

/-- Features after the end of the vector, which `size` is the length of, are as new. -/
structure NodeDefManager (R : Type) where
  m_content_features : Content → ContentFeatures R
  size : ℕ
  m_id_to_name : Content → Option ByteString := fun _ => none
  m_name_to_id : ByteString → Option Content := fun _ => none
  m_name_id_mapping_with_aliases : ByteString → Option Content := fun _ => none
  m_group_to_items : ByteString → List Content := fun _ => []
  m_next_id : Content := 0

namespace NodeDefManager

def addNameIdMapping (m : NodeDefManager R) (i : Content) (name : ByteString) : NodeDefManager R :=
  { m with
    m_id_to_name := Function.update m.m_id_to_name i (some name)
    m_name_to_id := Function.update m.m_name_to_id name (some i)
    m_name_id_mapping_with_aliases :=
      if m.m_name_id_mapping_with_aliases name = none then
        Function.update m.m_name_id_mapping_with_aliases name (some i)
      else m.m_name_id_mapping_with_aliases }

def setFeatures (m : NodeDefManager R) (id : Content) (f : ContentFeatures R) : NodeDefManager R :=
  { m with
    m_content_features := Function.update m.m_content_features id f
    size := max m.size (id.toNat + 1) }

def clear (builtin : Builtin R) : NodeDefManager R :=
  let features (name : ByteString) (rest : R) :=
    { ContentFeatures.reset rest with name }
  let m : NodeDefManager R :=
    { m_content_features := fun _ => .reset builtin.reset
      size := 128 }
  let m := (m.setFeatures CONTENT_UNKNOWN (features (bytes "unknown") builtin.unknown)).addNameIdMapping
    CONTENT_UNKNOWN (bytes "unknown")
  let m := (m.setFeatures CONTENT_AIR (features (bytes "air") builtin.air)).addNameIdMapping
    CONTENT_AIR (bytes "air")
  let m := (m.setFeatures CONTENT_IGNORE (features (bytes "ignore") builtin.ignore)).addNameIdMapping
    CONTENT_IGNORE (bytes "ignore")
  m.setFeatures 0 (features (bytes "ignore") builtin.ignore)

def getId (m : NodeDefManager R) (name : ByteString) : Option Content :=
  m.m_name_id_mapping_with_aliases name

/-- The loop of `allocateId` from an id on: nothing while it goes on, else the id if there is one. -/
def allocateLoop (m : NodeDefManager R) : ℕ → Content → Option (Option Content)
  | 0, _ => none
  | fuel + 1, id =>
    if m.m_next_id ≤ id then
      if (m.m_content_features id).name = [] then some (some id)
      else m.allocateLoop fuel (id + 1)
    else some none

/-- A loop that goes on for longer has seen every id and does not end. The vector grows up to the
last id that is looked at. -/
def allocateId (m : NodeDefManager R) : Option (Content × NodeDefManager R) :=
  (m.allocateLoop 65537 m.m_next_id).map fun
    | some id =>
      (id, { m with
        size := max m.size (id.toNat + 1)
        m_next_id := if id.toNat < 65535 then id + 1 else 65535 })
    | none => (CONTENT_IGNORE, { m with size := 65536 })

def eraseIdFromGroups (m : NodeDefManager R) (id : Content) : NodeDefManager R :=
  { m with m_group_to_items := fun group => (m.m_group_to_items group).filter (· ≠ id) }

/-- The end of `set`, for the id of the name. -/
def register (m : NodeDefManager R) (id : Content) (def_ : ContentFeatures R) : NodeDefManager R :=
  let m := (m.eraseIdFromGroups id).setFeatures id def_.withFloats
  { m with
    m_group_to_items := fun group =>
      if group ∈ def_.groups then m.m_group_to_items group ++ [id] else m.m_group_to_items group }

/-- `CONTENT_IGNORE` for what is refused; nothing if `allocateId` does not end. -/
def set (m : NodeDefManager R) (name : ByteString) (def_ : ContentFeatures R) :
    Option (Content × NodeDefManager R) :=
  if name = [] ∨ name ≠ def_.name ∨ name = bytes "ignore" then some (CONTENT_IGNORE, m)
  else
    match m.m_name_to_id name with
    | some id => some (id, m.register id def_)
    | none =>
      m.allocateId.map fun (id, m) =>
        if id = CONTENT_IGNORE then (CONTENT_IGNORE, m)
        else (id, (m.addNameIdMapping id name).register id def_)

def allocateDummy (builtin : Builtin R) (m : NodeDefManager R) (name : ByteString) :
    Option (Content × NodeDefManager R) :=
  if name = [] then some (CONTENT_IGNORE, m)
  else m.set name { ContentFeatures.reset builtin.reset with name }

def removeNode (m : NodeDefManager R) (name : ByteString) : NodeDefManager R :=
  match m.m_name_to_id name with
  | some id =>
    eraseIdFromGroups
      { m with
        m_id_to_name := Function.update m.m_id_to_name id none
        m_name_to_id := Function.update m.m_name_to_id name none
        m_name_id_mapping_with_aliases :=
          Function.update m.m_name_id_mapping_with_aliases name none } id
  | none => m

end NodeDefManager

/-! ## On the wire -/

/-- `ContentFeatures::serialize` and `deSerialize`, which overwrites features that were there; what
the text carries of the features is the same on both sides. -/
structure FeaturesCodec (R : Type) where
  serialize : ContentFeatures R → Except LoadError ByteString
  deSerialize : ContentFeatures R → ByteString → Except LoadError (ContentFeatures R)
  Same : ContentFeatures R → ContentFeatures R → Prop
  same_name : ∀ f g, Same f g → g.name = f.name
  deSerialize_serialize : ∀ f data, serialize f = .ok data →
    ∀ old, ∃ g, deSerialize old data = .ok g ∧ Same f g

def isBuiltin (i : Content) : Bool := i = CONTENT_IGNORE || i = CONTENT_AIR || i = CONTENT_UNKNOWN

namespace NodeDefManager

variable (builtin : Builtin R) (codec : FeaturesCodec R)

def sent (m : NodeDefManager R) : List (Content × ContentFeatures R) :=
  ((List.range m.size).map UInt16.ofNat).filterMap fun i =>
    if isBuiltin i ∨ (m.m_content_features i).name = [] then none
    else some (i, m.m_content_features i)

def serializeEntry (e : Content × ContentFeatures R) : Except LoadError ByteString := do
  let wrapper ← codec.serialize e.2
  let s ← serializeString16 wrapper
  pure (writeU16 e.1 ++ s)

/-- At most 65533 contents are sent, so the count does not overflow. -/
def serialize (m : NodeDefManager R) : Except LoadError ByteString := do
  let entries ← m.sent.mapM (serializeEntry codec)
  let os2 ← serializeString32 entries.flatten
  pure (1 :: writeU16 (UInt16.ofNat m.sent.length) ++ os2)

def acceptEntry (m : NodeDefManager R) (i : Content) (f : ContentFeatures R) : NodeDefManager R :=
  if isBuiltin i then m
  else if f.name = [] then m
  else if ∃ existing_id, m.m_name_to_id f.name = some existing_id ∧ i ≠ existing_id then m
  else (m.setFeatures i f.withFloats).addNameIdMapping i f.name

/-- The loop of `deSerialize`; the features are read over those before. -/
def deSerializeLoop : ℕ → IStream → ContentFeatures R → NodeDefManager R →
    Except LoadError (NodeDefManager R)
  | 0, _, _, m => .ok m
  | count + 1, is2, f, m => do
    let (i, is2) ← streamU16 is2
    let (wrapper, is2) ← deSerializeString16 is2
    let f ← codec.deSerialize f wrapper
    deSerializeLoop count is2 f (m.acceptEntry i f)

def deSerialize (data : ByteString) : Except LoadError (NodeDefManager R) := do
  let (version, is) ← streamU8 { rest := data }
  if version < 1 then
    throw (.serialization (bytes "unsupported NodeDefinitionManager version"))
  let (count, is) ← streamU16 is
  let (os2, _) ← deSerializeString32 is
  deSerializeLoop codec count.toNat { rest := os2 } (.reset builtin.reset) (clear builtin)

end NodeDefManager

/-! ## Runs -/

inductive NodeOp (R : Type) where
  | set (name : ByteString) (def_ : ContentFeatures R)
  | allocateDummy (name : ByteString)
  | removeNode (name : ByteString)

/-- A manager with what is registered now, by name, and all ids that are or were in use. -/
structure Registry (R : Type) where
  manager : NodeDefManager R
  nodes : ByteString → Option (Content × ContentFeatures R) := fun _ => none
  used : Content → Prop := fun id => isBuiltin id ∨ id = 0

namespace Registry

def registered (s : Registry R) (name : ByteString) (def_ : ContentFeatures R)
    (r : Content × NodeDefManager R) : Registry R :=
  if r.1 = CONTENT_IGNORE then { s with manager := r.2 }
  else
    { manager := r.2
      nodes := Function.update s.nodes name (some (r.1, def_.withFloats))
      used := fun id => s.used id ∨ id = r.1 }

def step (builtin : Builtin R) (s : Registry R) : NodeOp R → Option (Registry R)
  | .set name def_ => (s.manager.set name def_).map (s.registered name def_)
  | .allocateDummy name =>
    (s.manager.allocateDummy builtin name).map
      (s.registered name { ContentFeatures.reset builtin.reset with name })
  | .removeNode name =>
    some { s with
      manager := s.manager.removeNode name
      nodes := Function.update s.nodes name none }

def system (builtin : Builtin R) : Lts (Registry R) (NodeOp R) where
  init s := s = { manager := .clear builtin }
  step s op s' := s.step builtin op = some s'

structure Consistent (builtin : Builtin R) (s : Registry R) : Prop where
  injective : ∀ name name' id, s.manager.m_name_to_id name = some id →
    s.manager.m_name_to_id name' = some id → name = name'
  getId : s.manager.getId = s.manager.m_name_to_id
  getName : ∀ id name, s.manager.m_id_to_name id = some name ↔ s.manager.m_name_to_id name = some id
  registered : ∀ name id f, s.nodes name = some (id, f) →
    s.manager.m_name_to_id name = some id ∧ s.manager.m_content_features id = f
  /-- `allocateId` ends, and gives an id that was never in use or `CONTENT_IGNORE`. -/
  allocates : ∃ r, s.manager.allocateId = some r ∧ (r.1 = CONTENT_IGNORE ∨ ¬s.used r.1)
  /-- Every operation ends. -/
  ends : ∀ op, (s.step builtin op).isSome
  groups : ∀ group id, id ∈ s.manager.m_group_to_items group ↔
    ∃ name f, s.nodes name = some (id, f) ∧ group ∈ f.groups
  group_once : ∀ group, (s.manager.m_group_to_items group).Nodup

def builtinNames : List ByteString := [bytes "unknown", bytes "air", bytes "ignore"]

/-- The client gets the registered nodes, apart from those of the engine. -/
def Delivered (builtin : Builtin R) (codec : FeaturesCodec R) (s : Registry R) : Prop :=
  ∀ data, s.manager.serialize codec = .ok data →
    ∃ client, NodeDefManager.deSerialize builtin codec data = .ok client ∧
      ∀ name ∉ builtinNames,
        (∀ id, client.getId name = some id ↔ ∃ f, s.nodes name = some (id, f)) ∧
        ∀ id f, s.nodes name = some (id, f) →
          ∃ g, codec.Same f g ∧ client.m_content_features id = g.withFloats

/-- No registered node is removed, apart from those of the engine. -/
def Keeps (s : Registry R) : NodeOp R → Prop
  | .removeNode name => name ∈ builtinNames ∨ s.nodes name = none
  | _ => True

end Registry

end Freeminer.NodeDef
