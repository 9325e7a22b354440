import Freeminer.Block.NodeMetadata

/-! `NodeTimer` and `NodeTimerList` (`nodetimer.cpp`): timers are stored with their timeout and
what has elapsed of it, in thousandths. -/

namespace Freeminer.Block

open Lib

/-- The arithmetic of `f32` and `double` that is used here. -/
structure Floats where
  F32 : Type
  F64 : Type
  /-- The 32 bits that `writeF1000` writes. -/
  toF1000 : F32 → UInt32
  ofF1000 : UInt32 → F32
  /-- Not above zero. -/
  nonPos : F32 → Bool
  sub : F32 → F32 → F32
  widen : F32 → F64
  narrow : F64 → F32
  add64 : F64 → F64 → F64
  sub64 : F64 → F64 → F64
  lt64 : F64 → F64 → Bool
  /-- `clampToF1000` -/
  clamp : F32 → F32
  /-- Above `MAX_MAP_GENERATION_LIMIT * BS`. -/
  beyond : F32 → Bool

namespace Floats

def reread (fl : Floats) (x : fl.F32) : fl.F32 := fl.ofF1000 (fl.toF1000 x)

end Floats

def writeF1000 (fl : Floats) (x : fl.F32) : ByteString := writeU32 (fl.toF1000 x)

def streamF1000 (fl : Floats) : IStream → Except LoadError (fl.F32 × IStream) :=
  readFxn 4 fun buf => fl.ofF1000 (readU32 buf)

theorem streamF1000_append (fl : Floats) (x : fl.F32) (rest : ByteString) :
    streamF1000 fl { rest := writeF1000 fl x ++ rest } = .ok (fl.reread x, { rest }) := by
  rw [streamF1000, writeF1000, readFxn_append (length_writeU32 _)]
  have hread := readU32_writeU32 (fl.toF1000 x) []
  rw [List.append_nil] at hread
  rw [hread]
  rfl

structure NodeTimer (fl : Floats) where
  timeout : fl.F32
  elapsed : fl.F32
  position : NodePos

/-- `m_timers`, in the order of the times at which they go off. -/
structure NodeTimerList (fl : Floats) where
  time : fl.F64
  timers : List (fl.F64 × NodeTimer fl)

variable {fl : Floats}

namespace NodeTimer

def serialize (t : NodeTimer fl) : ByteString := writeF1000 fl t.timeout ++ writeF1000 fl t.elapsed

def deSerialize (p : NodePos) (is : IStream) : Except LoadError (NodeTimer fl × IStream) := do
  let (timeout, is) ← streamF1000 fl is
  let (elapsed, is) ← streamF1000 fl is
  pure (⟨timeout, elapsed, p⟩, is)

def reread (t : NodeTimer fl) : NodeTimer fl :=
  ⟨fl.reread t.timeout, fl.reread t.elapsed, t.position⟩

theorem deSerialize_append (t : NodeTimer fl) (rest : ByteString) :
    deSerialize t.position { rest := t.serialize ++ rest } = .ok (t.reread, { rest }) := by
  unfold deSerialize serialize
  rw [List.append_assoc, streamF1000_append]
  simp only [bind, Except.bind, streamF1000_append]
  rfl

end NodeTimer

namespace NodeTimerList

/-- `m_timers.emplace`: behind the timers of the same time. -/
def emplace (e : fl.F64 × NodeTimer fl) :
    List (fl.F64 × NodeTimer fl) → List (fl.F64 × NodeTimer fl)
  | [] => [e]
  | e' :: timers => if fl.lt64 e.1 e'.1 then e :: e' :: timers else e' :: emplace e timers

def entry (l : NodeTimerList fl) (t : NodeTimer fl) : fl.F64 × NodeTimer fl :=
  (fl.add64 l.time (fl.widen (fl.sub t.timeout t.elapsed)), t)

def insert (l : NodeTimerList fl) (t : NodeTimer fl) : NodeTimerList fl :=
  { l with timers := emplace (l.entry t) l.timers }

/-- `m_iterators.find` -/
def find (l : NodeTimerList fl) (p : NodePos) : Option (fl.F64 × NodeTimer fl) :=
  l.timers.find? fun e => decide (e.2.position = p)

def current (l : NodeTimerList fl) (e : fl.F64 × NodeTimer fl) : NodeTimer fl :=
  ⟨e.2.timeout, fl.sub e.2.timeout (fl.narrow (fl.sub64 e.1 l.time)), e.2.position⟩

def writeTimer (l : NodeTimerList fl) (e : fl.F64 × NodeTimer fl) : Except LoadError ByteString :=
  .ok (writeU16 (posIndex e.2.position) ++ (l.current e).serialize)

def serialize (l : NodeTimerList fl) (version : UInt8) : Except LoadError ByteString := do
  let timers ← writeEntries l.writeTimer l.timers
  let size := writeU16 (UInt16.ofNat l.timers.length)
  if version = 24 then
    if l.timers = [] then pure [0] else pure (1 :: size ++ timers)
  else if 25 ≤ version then pure ((2 + 4 + 4) :: size ++ timers)
  else pure timers

/-- One timer; it is ignored without a timeout, or where there is one already. -/
def readTimer (l : NodeTimerList fl) (is : IStream) :
    Except LoadError (Option (NodeTimerList fl) × IStream) := do
  let (p16, is) ← streamU16 is
  let (t, is) ← NodeTimer.deSerialize (indexPos p16) is
  if fl.nonPos t.timeout then pure (some l, is)
  else if (l.find t.position).isSome then pure (some l, is)
  else pure (some (l.insert t), is)

def deSerialize (l : NodeTimerList fl) (version : UInt8) (is : IStream) :
    Except LoadError (NodeTimerList fl × IStream) := do
  let readAll (is : IStream) : Except LoadError (NodeTimerList fl × IStream) := do
    let (count, is) ← streamU16 is
    let (l, timers) := readEntries readTimer count.toNat { l with timers := [] } is
    let is ← timers
    pure (l, is)
  if version = 24 then do
    let (timerVersion, is) ← streamU8 is
    if timerVersion = 0 then pure ({ l with timers := [] }, is)
    else if timerVersion ≠ 1 then
      .error (.serialization (bytes "unsupported NodeTimerList version"))
    else readAll is
  else if 25 ≤ version then do
    let (timerDataLen, is) ← streamU8 is
    if timerDataLen ≠ 2 + 4 + 4 then
      .error (.serialization (bytes "unsupported NodeTimer data length"))
    else readAll is
  else readAll is

def put (l : NodeTimerList fl) (done : NodeTimerList fl) (e : fl.F64 × NodeTimer fl) :
    NodeTimerList fl :=
  if fl.nonPos (fl.reread e.2.timeout) then done else done.insert (l.current e).reread

def reread (l old : NodeTimerList fl) : NodeTimerList fl :=
  l.timers.foldl l.put { old with timers := [] }

/-- Each position of the block has one timer at most. -/
structure Storable (l : NodeTimerList fl) : Prop where
  nodup : (l.timers.map fun e => e.2.position).Nodup
  inBlock : ∀ e ∈ l.timers, InBlock e.2.position

variable {l old done : NodeTimerList fl} {e : fl.F64 × NodeTimer fl} {version : UInt8}
  {text : ByteString} {p : NodePos} {todo : List (fl.F64 × NodeTimer fl)} {t : NodeTimer fl}

theorem find_emplace {timers : List (fl.F64 × NodeTimer fl)}
    (h : timers.find? (fun e' => decide (e'.2.position = e.2.position)) = none) (p : NodePos) :
    (emplace e timers).find? (fun e' => decide (e'.2.position = p)) =
      if e.2.position = p then some e
      else timers.find? fun e' => decide (e'.2.position = p) := by
  induction timers with
  | nil =>
    rw [emplace, List.find?_cons]
    by_cases hp : e.2.position = p <;> simp [hp]
  | cons e' timers ih =>
    have hne : e'.2.position ≠ e.2.position := by
      intro heq
      simp [heq] at h
    have hrest : timers.find? (fun e' => decide (e'.2.position = e.2.position)) = none := by
      simpa [hne] using h
    rw [emplace]
    split_ifs with hlt hp hp
    · rw [List.find?_cons]
      simp [hp]
    · rw [List.find?_cons]
      simp [hp]
    · subst hp
      have ih := ih hrest
      rw [if_pos rfl] at ih
      simp [hne, ih]
    · have ih := ih hrest
      rw [if_neg hp] at ih
      by_cases hp' : e'.2.position = p
      · simp [hp']
      · simp [hp', ih]

theorem find_insert (h : l.find t.position = none) (p : NodePos) :
    (l.insert t).find p = if t.position = p then some (l.entry t) else l.find p := by
  have h : l.timers.find? (fun e' => decide (e'.2.position = (l.entry t).2.position)) = none := h
  exact find_emplace h p

structure Ahead (done : NodeTimerList fl) (todo : List (fl.F64 × NodeTimer fl)) : Prop where
  nodup : (todo.map fun e => e.2.position).Nodup
  new : ∀ e ∈ todo, done.find e.2.position = none
  inBlock : ∀ e ∈ todo, InBlock e.2.position

theorem Ahead.tail (h : Ahead done (e :: todo)) : Ahead (l.put done e) todo := by
  obtain ⟨hnodup, hnew, hinBlock⟩ := h
  rw [List.map_cons, List.nodup_cons] at hnodup
  rw [List.forall_mem_cons] at hnew hinBlock
  refine ⟨hnodup.2, fun e' he' => ?_, hinBlock.2⟩
  unfold put
  split_ifs with htimeout
  · exact hnew.2 e' he'
  · have hne : e.2.position ≠ e'.2.position := by
      intro heq
      exact hnodup.1 (List.mem_map.mpr ⟨e', he', heq.symm⟩)
    have hnone : done.find (l.current e).reread.position = none := hnew.1
    have hpos : (l.current e).reread.position ≠ e'.2.position := hne
    rw [find_insert hnone, if_neg hpos]
    exact hnew.2 e' he'

theorem readTimer_append (h : Ahead done (e :: todo)) (hw : l.writeTimer e = .ok text)
    (rest : ByteString) :
    readTimer done { rest := text ++ rest } = .ok (some (l.put done e), { rest }) := by
  cases hw
  have hpos : indexPos (posIndex e.2.position) = (l.current e).position :=
    indexPos_posIndex (h.inBlock e List.mem_cons_self)
  have hnew : done.find (l.current e).reread.position = none := h.new e List.mem_cons_self
  unfold readTimer put
  rw [List.append_assoc, streamU16_append]
  simp only [bind, Except.bind, hpos, NodeTimer.deSerialize_append, hnew, Option.isSome_none]
  have htimeout : (l.current e).reread.timeout = fl.reread e.2.timeout := rfl
  rw [htimeout, if_neg Bool.false_ne_true]
  split_ifs <;> rfl

theorem length_le (hl : l.Storable) : l.timers.length ≤ 4096 := by
  have hinBlock : ∀ p ∈ (l.timers.map fun e => e.2.position).toFinset, InBlock p := by
    intro p hp
    obtain ⟨e, he, rfl⟩ := List.mem_map.mp (List.mem_toFinset.mp hp)
    exact hl.inBlock e he
  have hcard := card_le_of_inBlock hinBlock
  rwa [List.toFinset_card_of_nodup hl.nodup, List.length_map] at hcard

theorem deSerialize_append (hl : l.Storable) (hv : ¬version < 24)
    (h : l.serialize version = .ok text) (rest : ByteString) :
    old.deSerialize version { rest := text ++ rest } = .ok (l.reread old, { rest }) := by
  obtain ⟨timers, htimers, h⟩ := bind_eq_ok.mp h
  have hlen := length_le hl
  have hcount : (UInt16.ofNat l.timers.length).toNat = l.timers.length := by
    rw [UInt16.toNat_ofNat']
    omega
  have hahead : Ahead { old with timers := [] } l.timers := ⟨hl.nodup, fun _ _ => rfl, hl.inBlock⟩
  have hentries := readEntries_append readTimer l.put (fun rest => ({ rest } : IStream)) Ahead
    (fun done e todo text hI hw rest => readTimer_append hI hw rest)
    (fun done e todo hI => hI.tail) htimers hahead rest
  unfold deSerialize
  by_cases h24 : version = 24
  · rw [if_pos h24] at h ⊢
    split_ifs at h with hnil
    · cases h
      rw [List.singleton_append, streamU8_append]
      unfold reread
      rw [hnil]
      rfl
    · cases h
      rw [List.cons_append, List.cons_append, streamU8_append]
      simp only [bind, Except.bind, List.append_assoc, streamU16_append, hcount, hentries]
      rfl
  · have h25 : 25 ≤ version := by grind
    rw [if_neg h24, if_pos h25] at h ⊢
    cases h
    rw [List.cons_append, List.cons_append, streamU8_append]
    simp only [bind, Except.bind, List.append_assoc, streamU16_append, hcount, hentries]
    rfl

/-- A timer is read back at its position, unless its timeout is stored as none. -/
theorem find_reread (hl : l.Storable) (old : NodeTimerList fl) (p : NodePos) :
    (l.reread old).find p = (l.find p).bind fun e =>
      if fl.nonPos (fl.reread e.2.timeout) then none
      else some (old.entry (l.current e).reread) := by
  have hfold : ∀ (todo : List (fl.F64 × NodeTimer fl)) (done : NodeTimerList fl), Ahead done todo →
      done.time = old.time → (todo.foldl l.put done).find p =
        (done.find p).or ((todo.find? fun e => decide (e.2.position = p)).bind fun e =>
          if fl.nonPos (fl.reread e.2.timeout) then none
          else some (old.entry (l.current e).reread)) := by
    intro todo
    induction todo with
    | nil =>
      intro done _ _
      simp
    | cons e todo ih =>
      intro done hahead htime
      have hnew := hahead.new e List.mem_cons_self
      have htime' : (l.put done e).time = old.time := by
        unfold put
        split_ifs <;> exact htime
      rw [List.foldl_cons, ih _ hahead.tail htime', List.find?_cons]
      have hentry : done.entry (l.current e).reread = old.entry (l.current e).reread := by
        rw [entry, entry, htime]
      by_cases hp : e.2.position = p
      · subst hp
        have hnone : todo.find? (fun e' => decide (e'.2.position = e.2.position)) = none := by
          rw [List.find?_eq_none]
          intro e' he' heq
          have hnodup := hahead.nodup
          rw [List.map_cons, List.nodup_cons] at hnodup
          exact hnodup.1 (List.mem_map.mpr ⟨e', he', of_decide_eq_true heq⟩)
        unfold put
        split_ifs with htimeout
        · simp [hnew, hnone, htimeout]
        · have hnone : done.find (l.current e).reread.position = none := hnew
          have hpos : (l.current e).reread.position = e.2.position := rfl
          rw [find_insert hnone, if_pos hpos, hentry]
          simp [hnew, htimeout]
      · have hput : (l.put done e).find p = done.find p := by
          unfold put
          split_ifs
          · rfl
          · have hnone : done.find (l.current e).reread.position = none := hnew
            have hpos : (l.current e).reread.position ≠ p := hp
            rw [find_insert hnone, if_neg hpos]
        rw [hput]
        simp only [decide_eq_false hp]
  have hahead : Ahead { old with timers := [] } l.timers := ⟨hl.nodup, fun _ _ => rfl, hl.inBlock⟩
  exact hfold l.timers _ hahead rfl

end NodeTimerList

end Freeminer.Block
