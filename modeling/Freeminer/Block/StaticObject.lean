import Freeminer.Block.NodeTimer

/-! `StaticObject` and `StaticObjectList` (`staticobject.cpp`), with positions of 32 bits: objects
are stored with their positions in thousandths, and active ones with those that are not. -/

namespace Freeminer.Block

open Lib

variable {fl : Floats}

/-- `v3opos_t` -/
structure ObjectPos (fl : Floats) where
  x : fl.F32
  y : fl.F32
  z : fl.F32

structure StaticObject (fl : Floats) where
  type : UInt8
  pos : ObjectPos fl
  data : ByteString

structure StaticObjectList (fl : Floats) where
  stored : List (StaticObject fl)
  active : Finmap fun _ : UInt16 => StaticObject fl

namespace ObjectPos

/-- The check of both `serialize` and `deSerialize`, which leaves `Z` out. -/
def broken (p : ObjectPos fl) : Bool := fl.beyond p.x || fl.beyond p.x || fl.beyond p.y

/-- `writeV3F1000` of `clampToF1000` -/
def serialize (p : ObjectPos fl) : ByteString :=
  writeF1000 fl (fl.clamp p.x) ++ writeF1000 fl (fl.clamp p.y) ++ writeF1000 fl (fl.clamp p.z)

/-- `readV3F1000` -/
def deSerialize (is : IStream) : Except LoadError (ObjectPos fl × IStream) :=
  readFxn 12 (fun buf => ⟨fl.ofF1000 (readU32 buf), fl.ofF1000 (readU32 (buf.drop 4)),
    fl.ofF1000 (readU32 (buf.drop 8))⟩) is

def reread (p : ObjectPos fl) : ObjectPos fl :=
  ⟨fl.reread (fl.clamp p.x), fl.reread (fl.clamp p.y), fl.reread (fl.clamp p.z)⟩

theorem deSerialize_append (p : ObjectPos fl) (rest : ByteString) :
    deSerialize { rest := p.serialize ++ rest } = .ok (p.reread, { rest }) := by
  have hlen : p.serialize.length = 12 := rfl
  have hx : p.serialize = writeF1000 fl (fl.clamp p.x) ++ (writeF1000 fl (fl.clamp p.y) ++
    writeF1000 fl (fl.clamp p.z)) := rfl
  have hy : p.serialize.drop 4 = writeF1000 fl (fl.clamp p.y) ++ writeF1000 fl (fl.clamp p.z) := rfl
  have hz : p.serialize.drop 8 = writeF1000 fl (fl.clamp p.z) ++ [] := rfl
  unfold deSerialize
  rw [readFxn_append hlen, hy, hz, hx]
  simp only [writeF1000, readU32_writeU32]
  rfl

end ObjectPos

namespace StaticObject

def serialize (o : StaticObject fl) : Except LoadError ByteString :=
  if o.pos.broken then .ok []
  else do
    let data ← serializeString16 o.data
    pure (o.type :: o.pos.serialize ++ data)

variable (readV3O : IStream → Except LoadError (ObjectPos fl × IStream))

def deSerialize (version : UInt8) (is : IStream) :
    Except LoadError (Option (StaticObject fl) × IStream) := do
  let (type, is) ← streamU8 is
  let (pos, is) ← (if version = 0 then ObjectPos.deSerialize is else readV3O is)
  if pos.broken then pure (none, is)
  else do
    let (data, is) ← deSerializeString16 is
    pure (some ⟨type, pos, data⟩, is)

def reread (o : StaticObject fl) : StaticObject fl := { o with pos := o.pos.reread }

/-- An object that is in the world, before and after its position is rounded. -/
structure Inside (o : StaticObject fl) : Prop where
  written : o.pos.broken = false
  read : o.pos.reread.broken = false

variable {o : StaticObject fl} {text : ByteString}

theorem deSerialize_append (ho : o.Inside) (h : o.serialize = .ok text) (rest : ByteString) :
    deSerialize readV3O 0 { rest := text ++ rest } = .ok (some o.reread, { rest }) := by
  unfold serialize at h
  rw [if_neg (by simp [ho.written])] at h
  obtain ⟨data, hdata, h⟩ := bind_eq_ok.mp h
  cases h
  unfold deSerialize
  rw [List.cons_append, List.cons_append, streamU8_append]
  simp only [bind, Except.bind, if_true, List.append_assoc, ObjectPos.deSerialize_append, ho.read,
    Bool.false_eq_true, if_false, deSerializeString16_append hdata]
  rfl

end StaticObject

namespace StaticObjectList

/-- `problematic` -/
def excessive (o : StaticObject fl) : Bool := decide (65535 < o.data.length)

variable (order : HashOrder UInt16 (StaticObject fl))

/-- The objects that are written: those that were stored, and the active ones. -/
def written (l : StaticObjectList fl) : List (StaticObject fl) :=
  (l.stored.filter fun o => !excessive o) ++
    ((order.entries l.active).map Sigma.snd).filter fun o => !excessive o

/-- `serialize` deletes the objects with too much data. -/
def withoutExcessive (l : StaticObjectList fl) : StaticObjectList fl where
  stored := l.stored.filter fun o => !excessive o
  active := insertAll ((order.entries l.active).filter fun e => !excessive e.2) ∅

/-- `serialize`; too many objects are not written at all. -/
def serialize (l : StaticObjectList fl) : Except LoadError ByteString :=
  let count := (l.written order).length
  if 65535 < count then .ok (0 :: writeU16 0)
  else do
    let objects ← writeEntries StaticObject.serialize (l.written order)
    pure (0 :: writeU16 (UInt16.ofNat count) ++ objects)

variable (readV3O : IStream → Except LoadError (ObjectPos fl × IStream))

def readObject (version : UInt8) (l : StaticObjectList fl) (is : IStream) :
    Except LoadError (Option (StaticObjectList fl) × IStream) := do
  let (o, is) ← StaticObject.deSerialize readV3O version is
  pure (o.map fun o => { l with stored := l.stored ++ [o] }, is)

def deSerialize (l : StaticObjectList fl) (is : IStream) :
    Except LoadError (StaticObjectList fl × IStream) := do
  let (version, is) ← streamU8 is
  let (count, is) ← streamU16 is
  let (l, objects) :=
    readEntries (readObject readV3O version) count.toNat { l with stored := [] } is
  let is ← objects
  pure (l, is)

def reread (l old : StaticObjectList fl) : StaticObjectList fl :=
  { old with stored := (l.written order).map StaticObject.reread }

/-- Objects that are in the world, and not too many. -/
structure Storable (l : StaticObjectList fl) : Prop where
  inside : ∀ o ∈ l.written order, o.Inside
  count : (l.written order).length ≤ 65535

variable {order readV3O} {l old : StaticObjectList fl} {text : ByteString}

theorem foldl_append (l : List (StaticObject fl)) (done : StaticObjectList fl) :
    (l.foldl (fun done o => { done with stored := done.stored ++ [o.reread] }) done :
      StaticObjectList fl) = { done with stored := done.stored ++ l.map StaticObject.reread } := by
  induction l generalizing done with
  | nil => simp
  | cons o l ih =>
    rw [List.foldl_cons, ih]
    simp

theorem deSerialize_append (hl : l.Storable order) (h : l.serialize order = .ok text)
    (rest : ByteString) :
    old.deSerialize readV3O { rest := text ++ rest } = .ok (l.reread order old, { rest }) := by
  have hcount : (UInt16.ofNat (l.written order).length).toNat = (l.written order).length := by
    have := hl.count
    rw [UInt16.toNat_ofNat']
    omega
  unfold serialize at h
  dsimp only at h
  rw [if_neg (by have := hl.count; omega)] at h
  obtain ⟨objects, hobjects, h⟩ := bind_eq_ok.mp h
  cases h
  have hentries := readEntries_append (readObject readV3O 0)
    (fun done o => { done with stored := done.stored ++ [o.reread] })
    (fun rest => ({ rest } : IStream)) (fun _ todo => ∀ o ∈ todo, o.Inside)
    (fun done o todo text hI hw rest => by
      have hread := StaticObject.deSerialize_append readV3O (hI o List.mem_cons_self) hw rest
      unfold readObject
      simp only [bind, Except.bind, hread]
      rfl)
    (fun done o todo hI o' ho' => hI o' (List.mem_cons_of_mem o ho')) hobjects
    (s := { old with stored := [] }) hl.inside rest
  unfold deSerialize
  rw [List.cons_append, List.cons_append, streamU8_append]
  simp only [bind, Except.bind, List.append_assoc, streamU16_append, hcount, hentries,
    foldl_append]
  rfl

end StaticObjectList

end Freeminer.Block
