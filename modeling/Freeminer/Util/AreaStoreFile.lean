import Freeminer.Lib.Result
import Freeminer.Util.AreaCache
import Freeminer.Util.BinaryStream

/-! `AreaStore::serialize` and `AreaStore::deserialize` (`util/areastore.cpp`): what of a store is
read back into an empty store or into one that has areas already. -/

namespace Freeminer

namespace IStream

/-- `canRead` -/
def canRead (is : IStream) : Bool := is.good && !is.rest.isEmpty

end IStream

namespace Util.AreaFile

open Std Lib

/-- An `Area` whose edges may be in any order: `deserialize` does not sort them. -/
structure Area where
  id : UInt32
  minedge : Pos
  maxedge : Pos
  data : ByteString
  deriving DecidableEq

/-- `areas_map`, where the key of an area is its id. -/
structure AreaTable where
  areas : ExtTreeMap UInt32 Area
  keyed : ∀ (id : UInt32) (a : Area), areas[id]? = some a → a.id = id

namespace AreaTable

def empty : AreaTable := ⟨∅, fun id a h => by simp at h⟩

def getNextId (t : AreaTable) : UInt32 := nextIdFrom t.areas.keys 0

def assignId (t : AreaTable) (a : Area) : Area :=
  if a.id = U32_MAX then { a with id := t.getNextId } else a

theorem keyed_insert (t : AreaTable) (a : Area) (id : UInt32) (b : Area)
    (h : (t.areas.insert a.id a)[id]? = some b) : b.id = id := by
  rw [ExtTreeMap.getElem?_insert] at h
  split_ifs at h with hid
  · cases h
    exact LawfulEqCmp.compare_eq_iff_eq.mp hid
  · exact t.keyed id b h

def emplace (t : AreaTable) (a : Area) : AreaTable × Bool :=
  if a.id ∈ t.areas then (t, false) else (⟨t.areas.insert a.id a, t.keyed_insert a⟩, true)

def insertArea (t : AreaTable) (a : Area) : AreaTable × Bool := t.emplace (t.assignId a)

end AreaTable

/-! ## The file -/

/-- `writeV3Pos` without a protocol version: `posToS16`. -/
def writeV3Pos (p : Pos) : ByteString :=
  writeU16 p.x.toInt16.toUInt16 ++ writeU16 p.y.toInt16.toUInt16 ++
    writeU16 p.z.toInt16.toUInt16

/-- `readV3Pos`: `s16ToPos`. -/
def readV3Pos : IStream → Except LoadError (Pos × IStream) :=
  readFxn 6 fun buf => ⟨(readU16 buf).toInt16.toInt32, (readU16 (buf.drop 2)).toInt16.toInt32,
    (readU16 (buf.drop 4)).toInt16.toInt32⟩

def writeArea (a : Area) : ByteString :=
  writeV3Pos a.minedge ++ writeV3Pos a.maxedge ++ writeU16 (UInt16.ofNat a.data.length) ++ a.data

def AreaTable.serialize (t : AreaTable) : ByteString :=
  0 :: (writeU16 (UInt16.ofNat t.areas.size) ++
    t.areas.toList.flatMap (fun e => writeArea e.2) ++
    t.areas.toList.flatMap fun e => writeU32 e.2.id)

/-- The data is read into a string of zeros, also if there is less of it. -/
def readArea (areas : List Area) (is : IStream) :
    Except LoadError (Option (List Area) × IStream) := do
  let (minedge, is) ← readV3Pos is
  let (maxedge, is) ← readV3Pos is
  let (dataLen, is) ← streamU16 is
  let (data, is) := is.read dataLen.toNat
  pure (some (areas ++ [⟨U32_MAX, minedge, maxedge,
    data ++ List.replicate (dataLen.toNat - data.length) 0⟩]), is)

/-- The areas that were read are inserted, with their ids if these are there. -/
def insertAreas (readIds : Bool) : List Area → AreaTable → IStream →
    AreaTable × Except LoadError IStream
  | [], t, is => (t, .ok is)
  | a :: areas, t, is =>
    match if readIds then streamU32 is else .ok (a.id, is) with
    | .error e => (t, .error e)
    | .ok (id, is) => insertAreas readIds areas (t.insertArea { a with id }).1 is

/-- `deserialize`: the areas, also if it throws. -/
def AreaTable.deserialize (t : AreaTable) (is : IStream) : AreaTable × Except LoadError IStream :=
  match streamU8 is with
  | .error e => (t, .error e)
  | .ok (ver, is) =>
    if 5 ≤ ver then
      (t, .error (.serialization (bytes "Unknown AreaStore serialization version!")))
    else
      match streamU16 is with
      | .error e => (t, .error e)
      | .ok (numAreas, is) =>
        match readEntries readArea numAreas.toNat [] is with
        | (_, .error e) => (t, .error e)
        | (areas, .ok is) => insertAreas is.canRead areas t is

/-! ## The store -/

namespace AreaStore

variable {I : AreaIndex} {s : AreaStore I}

end AreaStore

/-! ## What is read -/

def low (p : Pos) : Pos := ⟨p.x.toInt16.toInt32, p.y.toInt16.toInt32, p.z.toInt16.toInt32⟩

/-- An area that the file can hold: its coordinates and the length of its data have 16 bits. -/
structure Area.Fits (a : Area) : Prop where
  minedge : low a.minedge = a.minedge
  maxedge : low a.maxedge = a.maxedge
  data : a.data.length ≤ 65535

theorem readV3Pos_low {is is' : IStream} {p : Pos} (h : readV3Pos is = .ok (p, is')) :
    low p = p := by
  unfold readV3Pos readFxn at h
  split at h
  dsimp only at h
  split_ifs at h
  cases h
  simp [low]

theorem length_read_le (is : IStream) (n : ℕ) : (is.read n).1.length ≤ n := by
  unfold IStream.read
  split_ifs with hgood hlen
  · simp
  · dsimp only
    omega
  · simp

theorem readArea_fits {areas areas' : List Area} {is is' : IStream}
    (h : readArea areas is = .ok (some areas', is')) :
    ∃ a, areas' = areas ++ [a] ∧ a.Fits := by
  obtain ⟨⟨minedge, is₁⟩, hmin, h⟩ := bind_eq_ok.mp h
  obtain ⟨⟨maxedge, is₂⟩, hmax, h⟩ := bind_eq_ok.mp h
  obtain ⟨⟨dataLen, is₃⟩, hlen, h⟩ := bind_eq_ok.mp h
  cases h
  refine ⟨_, rfl, readV3Pos_low hmin, readV3Pos_low hmax, ?_⟩
  have hread := length_read_le is₃ dataLen.toNat
  have hbound := dataLen.toNat_lt
  show ((is₃.read dataLen.toNat).1 ++ List.replicate _ 0).length ≤ 65535
  rw [List.length_append, List.length_replicate]
  show (is₃.read dataLen.toNat).1.length + (dataLen.toNat - (is₃.read dataLen.toNat).1.length) ≤ _
  omega

def ReadFits (n : ℕ) (areas : List Area) : Prop := areas.length = n ∧ ∀ a ∈ areas, a.Fits

theorem readFits_readArea (n : ℕ) (areas : List Area) (is : IStream) (areas' : List Area)
    (is' : IStream) (h : ReadFits n areas) (hread : readArea areas is = .ok (some areas', is')) :
    ReadFits (n + 1) areas' := by
  obtain ⟨a, rfl, ha⟩ := readArea_fits hread
  refine ⟨by rw [List.length_append, h.1, List.length_singleton], fun b hb => ?_⟩
  rcases List.mem_append.mp hb with hb | hb
  · exact h.2 b hb
  · rw [List.mem_singleton.mp hb]
    exact ha

/-- Whatever is read, it is at most so many areas, and they fit. -/
theorem readAreas_fits (n : ℕ) (is : IStream) :
    (readEntries readArea n [] is).1.length ≤ n ∧
      ∀ a ∈ (readEntries readArea n [] is).1, a.Fits := by
  have hempty : ReadFits 0 [] := ⟨rfl, fun a ha => by cases ha⟩
  obtain ⟨j, hj, hlen, hfits⟩ := readEntries_invariant readFits_readArea hempty n is
  exact ⟨by omega, hfits⟩

namespace AreaTable

variable {t : AreaTable} {a b : Area} {id : UInt32}

theorem size_emplace_le (t : AreaTable) (a : Area) :
    (t.emplace a).1.areas.size ≤ t.areas.size + 1 := by
  unfold emplace
  split_ifs
  · exact Nat.le_succ _
  · exact ExtTreeMap.size_insert_le

theorem emplace_origin (h : (t.emplace a).1.areas[id]? = some b) :
    t.areas[id]? = some b ∨ b = a := by
  unfold emplace at h
  split_ifs at h
  · exact .inl h
  · rw [ExtTreeMap.getElem?_insert] at h
    split_ifs at h
    · exact .inr (Option.some.inj h).symm
    · exact .inl h

theorem fits_assignId (h : a.Fits) (t : AreaTable) : (t.assignId a).Fits := by
  unfold assignId
  split_ifs
  · exact ⟨h.minedge, h.maxedge, h.data⟩
  · exact h

/-- What is in a table came there from a file or was there before. -/
structure Grown (t r : AreaTable) (n : ℕ) : Prop where
  size : r.areas.size ≤ t.areas.size + n
  origin : ∀ (id : UInt32) (a : Area), r.areas[id]? = some a → t.areas[id]? = some a ∨ a.Fits

theorem Grown.refl (t : AreaTable) (n : ℕ) : Grown t t n := ⟨by omega, fun _ _ h => .inl h⟩

theorem grown_insertAreas (readIds : Bool) {areas : List Area} (h : ∀ a ∈ areas, a.Fits)
    (t : AreaTable) (is : IStream) :
    Grown t (insertAreas readIds areas t is).1 areas.length := by
  induction areas generalizing t is with
  | nil => exact .refl t 0
  | cons a areas ih =>
    rw [List.forall_mem_cons] at h
    unfold insertAreas
    cases hid : if readIds then streamU32 is else .ok (a.id, is) with
    | error e => exact .refl t _
    | ok r =>
      obtain ⟨id, is'⟩ := r
      have hfits : ({ a with id } : Area).Fits := ⟨h.1.minedge, h.1.maxedge, h.1.data⟩
      obtain ⟨hsize, horigin⟩ := ih h.2 (t.insertArea { a with id }).1 is'
      have hone := size_emplace_le t (t.assignId { a with id })
      refine ⟨?_, fun k b hb => ?_⟩
      · rw [List.length_cons]
        unfold insertArea at hsize
        dsimp only
        unfold insertArea
        omega
      · rcases horigin k b hb with hb | hb
        · rcases emplace_origin hb with hb | rfl
          · exact .inl hb
          · exact .inr (fits_assignId hfits t)
        · exact .inr hb

/-- Of whatever file, no more than 65535 areas are read, and they fit. -/
theorem grown_deserialize (t : AreaTable) (is : IStream) :
    Grown t (t.deserialize is).1 65535 := by
  unfold deserialize
  split
  · exact .refl t _
  · split_ifs
    · exact .refl t _
    · split
      · exact .refl t _
      · rename_i numAreas is' _
        obtain ⟨hlen, hfits⟩ := readAreas_fits numAreas.toNat is'
        have hbound := numAreas.toNat_lt
        split
        · exact .refl t _
        · rename_i areas is'' hread
          rw [hread] at hlen hfits
          dsimp only at hlen hfits
          obtain ⟨hsize, horigin⟩ := grown_insertAreas is''.canRead hfits t is''
          exact ⟨by omega, horigin⟩

end AreaTable

/-! ## What was written -/

/-- Three numbers of 16 bits that are read at once. -/
theorem readFxn_u16 {α : Type} (f : UInt16 → UInt16 → UInt16 → α) (x y z : UInt16)
    (rest : ByteString) :
    readFxn 6 (fun buf => f (readU16 buf) (readU16 (buf.drop 2)) (readU16 (buf.drop 4)))
      { rest := writeU16 x ++ writeU16 y ++ writeU16 z ++ rest } = .ok (f x y z, { rest }) := by
  have hlen : (writeU16 x ++ writeU16 y ++ writeU16 z).length = 6 := rfl
  have hy : (writeU16 x ++ writeU16 y ++ writeU16 z).drop 2 = writeU16 y ++ writeU16 z := rfl
  have hz : (writeU16 x ++ writeU16 y ++ writeU16 z).drop 4 = writeU16 z ++ [] := rfl
  rw [readFxn_append hlen, hy, hz, List.append_assoc]
  simp only [readU16_writeU16]

theorem readV3Pos_append (p : Pos) (rest : ByteString) :
    readV3Pos { rest := writeV3Pos p ++ rest } = .ok (low p, { rest }) :=
  readFxn_u16 (fun x y z => (⟨x.toInt16.toInt32, y.toInt16.toInt32, z.toInt16.toInt32⟩ : Pos))
    p.x.toInt16.toUInt16 p.y.toInt16.toUInt16 p.z.toInt16.toUInt16 rest

def Area.unset (a : Area) : Area := { a with id := U32_MAX }

theorem readArea_append {a : Area} (ha : a.Fits) (areas : List Area) (rest : ByteString) :
    readArea areas { rest := writeArea a ++ rest } =
      .ok (some (areas ++ [a.unset]), { rest }) := by
  have hlen : (UInt16.ofNat a.data.length).toNat = a.data.length := by
    have := ha.data
    rw [UInt16.toNat_ofNat']
    omega
  unfold readArea writeArea
  simp only [List.append_assoc, readV3Pos_append, ha.minedge, ha.maxedge, bind, Except.bind,
    streamU16_append, hlen, IStream.read_append rfl, Nat.sub_self, List.replicate_zero,
    List.append_nil]
  rfl

theorem foldl_unset (l areas : List Area) :
    l.foldl (fun areas a => areas ++ [a.unset]) areas = areas ++ l.map Area.unset := by
  induction l generalizing areas with
  | nil => simp
  | cons a l ih => simp [ih]

def AreaTable.insertAll (t : AreaTable) (l : List Area) : AreaTable :=
  l.foldl (fun t a => (t.insertArea a).1) t

theorem insertAreas_append (l : List Area) (t : AreaTable) (rest : ByteString) :
    insertAreas true (l.map Area.unset) t { rest := l.flatMap (fun a => writeU32 a.id) ++ rest } =
      (t.insertAll l, .ok { rest }) := by
  induction l generalizing t with
  | nil => rfl
  | cons a l ih =>
    rw [List.flatMap_cons, List.append_assoc, List.map_cons, insertAreas]
    simp only [if_true, streamU32_append]
    exact ih _

namespace AreaTable

variable {s t r : AreaTable}

def list (s : AreaTable) : List Area := s.areas.toList.map Prod.snd

theorem mem_list {a : Area} : a ∈ s.list ↔ s.areas[a.id]? = some a := by
  rw [list, List.mem_map]
  constructor
  · rintro ⟨⟨id, b⟩, hb, rfl⟩
    rw [ExtTreeMap.mem_toList_iff_getElem?_eq_some] at hb
    rwa [s.keyed id b hb]
  · intro h
    exact ⟨(a.id, a), ExtTreeMap.mem_toList_iff_getElem?_eq_some.mpr h, rfl⟩

theorem map_id_list (s : AreaTable) : s.list.map Area.id = s.areas.keys := by
  rw [← ExtTreeMap.map_fst_toList_eq_keys, list, List.map_map]
  refine List.map_congr_left fun e he => ?_
  exact s.keyed e.1 e.2 (ExtTreeMap.mem_toList_iff_getElem?_eq_some.mp he)

theorem length_list (s : AreaTable) : s.list.length = s.areas.size := by
  rw [list, List.length_map, ExtTreeMap.length_toList]

theorem pairwise_keys (s : AreaTable) : s.areas.keys.Pairwise (· < ·) :=
  s.areas.ordered_keys.imp fun h => compareOfLessAndEq_eq_lt.mp h

theorem serialize_eq (s : AreaTable) : s.serialize =
    0 :: (writeU16 (UInt16.ofNat s.list.length) ++ s.list.flatMap writeArea ++
      s.list.flatMap fun a => writeU32 a.id) := by
  rw [length_list, list, List.flatMap_map, List.flatMap_map]
  rfl

/-- Areas that fit, and not too many, are inserted one after the other. -/
theorem deserialize_append (hcount : s.areas.size ≤ 65535) (hfits : ∀ a ∈ s.list, a.Fits)
    (t : AreaTable) (rest : ByteString) (hrest : s.list = [] → rest = []) :
    t.deserialize { rest := s.serialize ++ rest } = (t.insertAll s.list, .ok { rest }) := by
  have hlen : (UInt16.ofNat s.list.length).toNat = s.list.length := by
    rw [length_list, UInt16.toNat_ofNat']
    omega
  have hentries := readEntries_append readArea (fun areas a => areas ++ [a.unset])
    (fun rest => ({ rest } : IStream)) (fun _ todo => ∀ a ∈ todo, a.Fits)
    (fun areas a todo text hI hw rest => by
      cases hw
      exact readArea_append (hI a List.mem_cons_self) areas rest)
    (fun areas a todo hI b hb => hI b (List.mem_cons_of_mem a hb)) (writeEntries_ok _ s.list)
    (s := []) hfits (s.list.flatMap (fun a => writeU32 a.id) ++ rest)
  have hids := insertAreas_append s.list t rest
  unfold deserialize
  rw [serialize_eq, List.cons_append, streamU8_append]
  simp only [List.append_assoc, streamU16_append, hlen, hentries, foldl_unset, List.nil_append]
  have hver : ¬(5 : UInt8) ≤ 0 := by decide
  rw [if_neg hver]
  cases hl : s.list with
  | nil =>
    rw [hrest hl]
    rfl
  | cons a l =>
    rw [hl] at hids
    have hread : IStream.canRead
        { rest := (a :: l).flatMap (fun a => writeU32 a.id) ++ rest } = true := rfl
    rw [hread]
    exact hids

/-! ## The ids -/

theorem nextIdFrom_eq_iff {ids : List UInt32} {freeId : UInt32} (hsorted : ids.Pairwise (· < ·))
    (hfree : ∀ id ∈ ids, freeId ≤ id) (hmax : U32_MAX ∉ ids) :
    nextIdFrom ids freeId = U32_MAX ↔ ∀ id, freeId ≤ id → id ≠ U32_MAX → id ∈ ids := by
  have hle : ∀ id : UInt32, id.toNat ≤ U32_MAX.toNat := fun id => Nat.le_of_lt_succ id.toNat_lt
  induction ids generalizing freeId with
  | nil =>
    constructor
    · rintro rfl id hid hne
      exact absurd (UInt32.le_antisymm (UInt32.le_iff_toNat_le.mpr (hle id)) hid) hne
    · intro h
      by_contra hne
      cases h freeId (UInt32.le_refl freeId) hne
  | cons id ids ih =>
    rw [List.pairwise_cons] at hsorted
    rw [List.forall_mem_cons] at hfree
    rw [List.mem_cons, not_or] at hmax
    unfold nextIdFrom
    split_ifs with hgap
    · -- there is a gap before the next id
      have hlt : freeId.toNat < id.toNat := UInt32.lt_iff_toNat_lt.mp hgap
      have hmaxid := hle id
      constructor
      · rintro rfl
        omega
      · intro h
        have hne : freeId ≠ U32_MAX := by
          rintro rfl
          omega
        rcases List.mem_cons.mp (h freeId (UInt32.le_refl freeId) hne) with heq | hmem
        · rw [heq] at hlt
          omega
        · have := UInt32.lt_iff_toNat_lt.mp (hsorted.1 freeId hmem)
          omega
    · have heq : freeId = id := by
        have hnot := mt UInt32.lt_iff_toNat_lt.mpr hgap
        have := UInt32.le_iff_toNat_le.mp hfree.1
        exact UInt32.toNat_inj.mp (by omega)
      subst heq
      have hne : freeId.toNat ≠ U32_MAX.toNat := fun h => hmax.1 (UInt32.toNat_inj.mp h.symm)
      have hbound := hle freeId
      have hnext : (freeId + 1).toNat = freeId.toNat + 1 := by
        have hmaxval : U32_MAX.toNat = 4294967295 := rfl
        rw [UInt32.toNat_add, UInt32.toNat_one]
        omega
      have hfrom : ∀ id ∈ ids, freeId + 1 ≤ id := by
        intro id hid
        have := UInt32.lt_iff_toNat_lt.mp (hsorted.1 id hid)
        rw [UInt32.le_iff_toNat_le, hnext]
        omega
      refine (ih hsorted.2 hfrom hmax.2).trans ?_
      constructor
      · intro h id hid hidne
        by_cases hsame : id = freeId
        · exact List.mem_cons.mpr (.inl hsame)
        · refine List.mem_cons.mpr (.inr (h id ?_ hidne))
          have := UInt32.le_iff_toNat_le.mp hid
          have hval : id.toNat ≠ freeId.toNat := fun h => hsame (UInt32.toNat_inj.mp h)
          rw [UInt32.le_iff_toNat_le, hnext]
          omega
      · intro h id hid hidne
        have hle' := UInt32.le_iff_toNat_le.mp hid
        rw [hnext] at hle'
        rcases List.mem_cons.mp (h id (UInt32.le_iff_toNat_le.mpr (by omega)) hidne) with
          rfl | hmem
        · omega
        · exact hmem

/-- The next id is the one that stands for none only if all others are taken. -/
theorem getNextId_eq_iff (h : U32_MAX ∉ t.areas) :
    t.getNextId = U32_MAX ↔ ∀ id, id ≠ U32_MAX → id ∈ t.areas := by
  have hmem : ∀ id, id ∈ t.areas.keys ↔ id ∈ t.areas := fun id => ExtTreeMap.mem_keys
  unfold getNextId
  rw [nextIdFrom_eq_iff (pairwise_keys t) (fun id _ => UInt32.zero_le) (mt (hmem _).mp h)]
  constructor
  · exact fun hall id hne => (hmem id).mp (hall id UInt32.zero_le hne)
  · exact fun hall id _ hne => (hmem id).mpr (hall id hne)

/-! ## Merging -/

theorem areas_insertArea_of_ne {a : Area} (hid : a.id ≠ U32_MAX) (hnew : a.id ∉ t.areas) :
    (t.insertArea a).1.areas = t.areas.insert a.id a := by
  unfold insertArea assignId
  rw [if_neg hid, emplace, if_neg hnew]

theorem getElem?_insertAll {l : List Area} (hnodup : (l.map Area.id).Nodup)
    (hnew : ∀ a ∈ l, a.id ∉ t.areas) (hset : ∀ a ∈ l, a.id ≠ U32_MAX) (id : UInt32) (b : Area) :
    (t.insertAll l).areas[id]? = some b ↔ (b ∈ l ∧ b.id = id) ∨ t.areas[id]? = some b := by
  induction l generalizing t with
  | nil => simp [insertAll]
  | cons a l ih =>
    rw [List.map_cons, List.nodup_cons] at hnodup
    rw [List.forall_mem_cons] at hnew hset
    have hinsert := areas_insertArea_of_ne hset.1 hnew.1
    have hlater : ∀ b ∈ l, b.id ∉ (t.insertArea a).1.areas := by
      intro b hb
      rw [hinsert, ExtTreeMap.mem_insert, LawfulEqCmp.compare_eq_iff_eq, not_or]
      exact ⟨fun heq => hnodup.1 (heq ▸ List.mem_map_of_mem hb), hnew.2 b hb⟩
    have hrest := ih hnodup.2 hlater hset.2
    rw [insertAll, List.foldl_cons, ← insertAll, hrest, hinsert, ExtTreeMap.getElem?_insert]
    have hnone : t.areas[a.id]? = none := ExtTreeMap.getElem?_eq_none hnew.1
    by_cases hid : a.id = id
    · subst hid
      rw [if_pos (LawfulEqCmp.compare_eq_iff_eq.mpr rfl), hnone]
      constructor
      · rintro (⟨hb, hid⟩ | hb)
        · exact .inl ⟨List.mem_cons_of_mem a hb, hid⟩
        · cases hb
          exact .inl ⟨List.mem_cons_self, rfl⟩
      · rintro (⟨hb, hid⟩ | hb)
        · rcases List.mem_cons.mp hb with rfl | hb
          · exact .inr rfl
          · exact .inl ⟨hb, hid⟩
        · cases hb
    · rw [if_neg (mt LawfulEqCmp.compare_eq_iff_eq.mp hid)]
      constructor
      · rintro (⟨hb, hid⟩ | hb)
        · exact .inl ⟨List.mem_cons_of_mem a hb, hid⟩
        · exact .inr hb
      · rintro (⟨hb, hbid⟩ | hb)
        · rcases List.mem_cons.mp hb with rfl | hb
          · exact absurd hbid hid
          · exact .inl ⟨hb, hbid⟩
        · exact .inr hb

theorem getElem?_union_iff (hdisjoint : ∀ id ∈ s.areas, id ∉ t.areas) (id : UInt32) (b : Area) :
    (t.areas ∪ s.areas)[id]? = some b ↔ (b ∈ s.list ∧ b.id = id) ∨ t.areas[id]? = some b := by
  rw [ExtTreeMap.getElem?_union, mem_list]
  cases hs : s.areas[id]? with
  | none =>
    rw [Option.none_or]
    constructor
    · exact .inr
    · rintro (⟨hb, rfl⟩ | hb)
      · rw [hs] at hb
        cases hb
      · exact hb
  | some a =>
    have hnone : t.areas[id]? = none :=
      ExtTreeMap.getElem?_eq_none (hdisjoint id (ExtTreeMap.mem_iff_isSome_getElem?.mpr (by simp [hs])))
    have hid := s.keyed id a hs
    rw [Option.some_or, hnone]
    constructor
    · intro hb
      cases hb
      exact .inl ⟨hid ▸ hs, hid⟩
    · rintro (⟨hb, rfl⟩ | hb)
      · rw [hs] at hb
        exact hb
      · cases hb

/-- An area that has the last id is the last of its table. -/
theorem list_eq_of_mem (h : U32_MAX ∈ s.areas) : ∃ l a, s.list = l ++ [a] ∧ a.id = U32_MAX ∧
    ∀ b ∈ l, b.id ≠ U32_MAX := by
  have hle : ∀ id : UInt32, id.toNat ≤ U32_MAX.toNat := fun id => Nat.le_of_lt_succ id.toNat_lt
  have hsorted := pairwise_keys s
  rw [← ExtTreeMap.mem_keys, ← map_id_list] at h
  rw [← map_id_list] at hsorted
  rcases List.eq_nil_or_concat s.list with hnil | ⟨l, a, hl⟩
  · rw [hnil] at h
    cases h
  · rw [List.concat_eq_append] at hl
    rw [hl, List.map_append, List.map_singleton] at hsorted h
    have hlast : ∀ id ∈ l.map Area.id, id < a.id := fun id hid =>
      (List.pairwise_append.mp hsorted).2.2 id hid a.id (List.mem_singleton_self _)
    have ha : a.id = U32_MAX := by
      rcases List.mem_append.mp h with hmem | hmem
      · have := UInt32.lt_iff_toNat_lt.mp (hlast U32_MAX hmem)
        have := hle a.id
        omega
      · exact (List.mem_singleton.mp hmem).symm
    refine ⟨l, a, hl, ha, fun b hb hbid => ?_⟩
    have hlt := hlast b.id (List.mem_map_of_mem hb)
    rw [hbid, ha] at hlt
    exact absurd hlt (UInt32.lt_irrefl _)

theorem nodup_ids (s : AreaTable) : (s.list.map Area.id).Nodup := by
  rw [map_id_list]
  exact ExtTreeMap.nodup_keys

/-- The areas are all inserted with their ids, but for one that has the id that stands for none: it
gets the next, which is this one only if all others are taken. -/
theorem insertAll_eq_union_iff (hdisjoint : ∀ id ∈ s.areas, id ∉ t.areas) :
    (t.insertAll s.list).areas = t.areas ∪ s.areas ↔
      (U32_MAX ∈ s.areas → ∀ id, id ≠ U32_MAX → id ∈ t.areas ∨ id ∈ s.areas) := by
  have hmem : ∀ a ∈ s.list, a.id ∈ s.areas := fun a ha =>
    ExtTreeMap.mem_iff_isSome_getElem?.mpr (by simp [mem_list.mp ha])
  by_cases hmax : U32_MAX ∈ s.areas
  · obtain ⟨l, a, hl, ha, hset⟩ := list_eq_of_mem hmax
    have hnodup := nodup_ids s
    rw [hl, List.map_append] at hnodup
    have hnew : ∀ b ∈ l, b.id ∉ t.areas := fun b hb =>
      hdisjoint b.id (hmem b (hl ▸ List.mem_append_left _ hb))
    have hbefore := getElem?_insertAll (List.nodup_append.mp hnodup).1 hnew hset
    have hstep : t.insertAll s.list = ((t.insertAll l).insertArea a).1 := by
      rw [hl, insertAll, List.foldl_append]
      rfl
    -- before the last area its id is not taken
    have hfree : U32_MAX ∉ (t.insertAll l).areas := by
      intro hin
      obtain ⟨b, hb⟩ := Option.isSome_iff_exists.mp (ExtTreeMap.mem_iff_isSome_getElem?.mp hin)
      rcases (hbefore U32_MAX b).mp hb with ⟨hbl, hbid⟩ | hbt
      · exact hset b hbl hbid
      · exact hdisjoint U32_MAX hmax (ExtTreeMap.mem_iff_isSome_getElem?.mpr (by simp [hbt]))
    have htaken : ∀ id, id ≠ U32_MAX →
        (id ∈ (t.insertAll l).areas ↔ id ∈ t.areas ∨ id ∈ s.areas) := by
      intro id hid
      rw [← ExtTreeMap.isSome_getElem?_iff_mem, Option.isSome_iff_exists]
      constructor
      · rintro ⟨b, hb⟩
        rcases (hbefore id b).mp hb with ⟨hbl, rfl⟩ | hbt
        · exact .inr (hmem b (hl ▸ List.mem_append_left _ hbl))
        · exact .inl (ExtTreeMap.mem_iff_isSome_getElem?.mpr (by simp [hbt]))
      · rintro (hin | hin)
        · obtain ⟨b, hb⟩ := Option.isSome_iff_exists.mp (ExtTreeMap.mem_iff_isSome_getElem?.mp hin)
          exact ⟨b, (hbefore id b).mpr (.inr hb)⟩
        · obtain ⟨b, hb⟩ := Option.isSome_iff_exists.mp (ExtTreeMap.mem_iff_isSome_getElem?.mp hin)
          have hbid := s.keyed id b hb
          have hbl : b ∈ l ++ [a] := hl ▸ mem_list.mpr (hbid ▸ hb)
          rcases List.mem_append.mp hbl with hbl | hba
          · exact ⟨b, (hbefore id b).mpr (.inl ⟨hbl, hbid⟩)⟩
          · rw [List.mem_singleton.mp hba] at hbid
            exact absurd (hbid.symm.trans ha) hid
    have hall : (∀ id, id ≠ U32_MAX → id ∈ (t.insertAll l).areas) ↔
        ∀ id, id ≠ U32_MAX → id ∈ t.areas ∨ id ∈ s.areas :=
      forall_congr' fun id => forall_congr' fun hid => htaken id hid
    rw [hstep, ← hall, ← getNextId_eq_iff hfree]
    have hassign : (t.insertAll l).assignId a = { a with id := (t.insertAll l).getNextId } := by
      unfold assignId
      rw [if_pos ha]
    constructor
    · intro heq _
      by_contra hnext
      have hin : U32_MAX ∈ ((t.insertAll l).insertArea a).1.areas := by
        rw [heq]
        exact ExtTreeMap.mem_union_of_right hmax
      unfold insertArea emplace at hin
      rw [hassign] at hin
      split_ifs at hin
      · exact hfree hin
      · rw [ExtTreeMap.mem_insert, LawfulEqCmp.compare_eq_iff_eq] at hin
        exact hin.elim hnext hfree
    · intro hnext
      have hsame : (t.insertAll l).assignId a = a := by
        rw [hassign, hnext hmax, ← ha]
      have hnot : a.id ∉ (t.insertAll l).areas := ha ▸ hfree
      refine ExtTreeMap.ext_getElem? fun id => Option.ext fun b => ?_
      rw [getElem?_union_iff hdisjoint, hl, insertArea, hsame, emplace, if_neg hnot,
        ExtTreeMap.getElem?_insert]
      by_cases hid : a.id = id
      · subst hid
        rw [if_pos (LawfulEqCmp.compare_eq_iff_eq.mpr rfl)]
        have hnone : t.areas[a.id]? = none :=
          ExtTreeMap.getElem?_eq_none (hdisjoint _ (ha ▸ hmax))
        rw [hnone]
        constructor
        · intro hb
          cases hb
          exact .inl ⟨List.mem_append_right _ (List.mem_singleton_self _), rfl⟩
        · rintro (⟨hb, hbid⟩ | hb)
          · rcases List.mem_append.mp hb with hb | hb
            · exact absurd (hbid.trans ha) (hset b hb)
            · rw [List.mem_singleton.mp hb]
          · cases hb
      · rw [if_neg (mt LawfulEqCmp.compare_eq_iff_eq.mp hid), hbefore, List.mem_append,
          List.mem_singleton]
        constructor
        · rintro (⟨hb, hbid⟩ | hb)
          · exact .inl ⟨.inl hb, hbid⟩
          · exact .inr hb
        · rintro (⟨hb | rfl, hbid⟩ | hb)
          · exact .inl ⟨hb, hbid⟩
          · exact absurd hbid hid
          · exact .inr hb
  · have hset : ∀ a ∈ s.list, a.id ≠ U32_MAX := fun a ha hid => hmax (hid ▸ hmem a ha)
    have hunion : (t.insertAll s.list).areas = t.areas ∪ s.areas := by
      refine ExtTreeMap.ext_getElem? fun id => Option.ext fun b => ?_
      rw [getElem?_insertAll (nodup_ids s) (fun a ha => hdisjoint a.id (hmem a ha)) hset,
        getElem?_union_iff hdisjoint]
    exact iff_of_true hunion fun h => absurd h hmax

/-- The file of a store is read into another: its areas are there with their ids and their data,
those that were there before are kept, and none takes the place of another. -/
def Merges (s t : AreaTable) : Prop :=
  ∃ r is, t.deserialize { rest := s.serialize } = (r, .ok is) ∧
    r.areas = t.areas ∪ s.areas ∧ r.areas.size = t.areas.size + s.areas.size

/-- A store that is read into another without loss. -/
structure Mergeable (s t : AreaTable) : Prop where
  count : s.areas.size ≤ 65535
  fits : ∀ a ∈ s.list, a.Fits
  disjoint : ∀ id ∈ s.areas, id ∉ t.areas
  set : U32_MAX ∈ s.areas → ∀ id, id ≠ U32_MAX → id ∈ t.areas ∨ id ∈ s.areas

theorem disjoint_of_size (h : (t.areas ∪ s.areas).size = t.areas.size + s.areas.size) :
    ∀ id ∈ s.areas, id ∉ t.areas := by
  intro id hs ht
  have hsum : t.areas.size + s.areas.size = (t.areas ∪ s.areas).size + (t.areas ∩ s.areas).size :=
    ExtTreeMap.size_add_size_eq_size_union_add_size_inter
  have hzero : (t.areas ∩ s.areas).size = 0 := by omega
  have hempty := ExtTreeMap.eq_empty_iff_size_eq_zero.mpr hzero
  have hin : id ∈ t.areas ∩ s.areas := ExtTreeMap.mem_inter_iff.mpr ⟨ht, hs⟩
  rw [hempty] at hin
  exact ExtTreeMap.not_mem_empty hin

theorem fits_of_merges (h : Merges s t) : ∀ a ∈ s.list, a.Fits := by
  obtain ⟨r, is, hread, hunion, hsize⟩ := h
  obtain ⟨-, horigin⟩ := grown_deserialize t { rest := s.serialize }
  rw [hread] at horigin
  have hdisjoint := disjoint_of_size (hunion ▸ hsize)
  intro a ha
  have hs := mem_list.mp ha
  have hin : r.areas[a.id]? = some a := by
    rw [hunion]
    exact (getElem?_union_iff hdisjoint _ _).mpr (.inl ⟨ha, rfl⟩)
  rcases horigin a.id a hin with hold | hfits
  · exact absurd (ExtTreeMap.mem_iff_isSome_getElem?.mpr (by simp [hold]))
      (hdisjoint a.id (ExtTreeMap.mem_iff_isSome_getElem?.mpr (by simp [hs])))
  · exact hfits

/-- A store is read into another without loss exactly if it has at most 65535 areas, their
coordinates and the lengths of their data have 16 bits, and no id of it is in the other. -/
theorem merges_iff (s t : AreaTable) : Merges s t ↔ Mergeable s t := by
  constructor
  · intro h
    have hfits := fits_of_merges h
    obtain ⟨r, is, hread, hunion, hsize⟩ := h
    have hgrown := (grown_deserialize t { rest := s.serialize }).size
    rw [hread, hsize] at hgrown
    have hdisjoint := disjoint_of_size (hunion ▸ hsize)
    have hcount : s.areas.size ≤ 65535 := by omega
    have hall := deserialize_append hcount hfits t [] fun _ => rfl
    rw [List.append_nil, hread] at hall
    have hr : r = t.insertAll s.list := congrArg Prod.fst hall
    rw [hr] at hunion
    exact ⟨hcount, hfits, hdisjoint, (insertAll_eq_union_iff hdisjoint).mp hunion⟩
  · rintro ⟨hcount, hfits, hdisjoint, hset⟩
    have hall := deserialize_append hcount hfits t [] fun _ => rfl
    rw [List.append_nil] at hall
    have hunion := (insertAll_eq_union_iff hdisjoint).mpr hset
    refine ⟨_, _, hall, hunion, ?_⟩
    rw [hunion]
    exact ExtTreeMap.size_union_of_not_mem fun id ht hs => hdisjoint id hs ht

def farEast : AreaTable :=
  (empty.insertArea ⟨0, ⟨40000, 0, 0⟩, ⟨40001, 1, 1⟩, bytes "spawn"⟩).1

theorem not_merges : ¬∀ s t, Merges s t := by
  intro h
  have hfits := fits_of_merges (h farEast empty)
    ⟨0, ⟨40000, 0, 0⟩, ⟨40001, 1, 1⟩, bytes "spawn"⟩ (mem_list.mpr rfl)
  exact absurd hfits.minedge (by decide)

end AreaTable

end Util.AreaFile

end Freeminer
