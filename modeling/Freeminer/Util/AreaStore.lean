import Std.Data.ExtTreeMap
import Mathlib.Data.List.AList
import Mathlib.Data.Multiset.Filter
import Freeminer.Lib.Machine
import Freeminer.Util.Serialize

/-! `LRUCache` (`util/container.h`): the values of a function, kept for the keys that were looked up
last. -/

namespace Freeminer.Util

variable {K V : Type} [DecidableEq K]

/-- An entry of `m_map` holds its place in `m_queue`, which is the key there. -/
structure LRUCache (K V : Type) where
  limit : ℕ
  map : AList fun _ : K => V := ∅
  queue : List K := []

namespace LRUCache

def invalidate (c : LRUCache K V) : LRUCache K V := { c with map := ∅, queue := [] }

def setLimit (c : LRUCache K V) (limit : ℕ) : LRUCache K V := { c with limit }.invalidate

/-- A full cache gives up the key that was looked up longest ago. -/
def deleteOld (c : LRUCache K V) : LRUCache K V :=
  if c.queue.length = c.limit then
    match c.queue.getLast? with
    | some id => { c with map := c.map.erase id, queue := c.queue.dropLast }
    | none => c
  else c

def enter (c : LRUCache K V) (key : K) (value : V) : LRUCache K V :=
  let c' := { c with map := c.map.insert key value }.deleteOld
  { c' with queue := key :: c'.queue }

def touch (c : LRUCache K V) (key : K) : LRUCache K V :=
  { c with queue := key :: c.queue.erase key }

/-- `cacheMiss` gives the value of a key that is not in the cache. -/
def lookupCache (c : LRUCache K V) (cacheMiss : K → V) (key : K) : V × LRUCache K V :=
  match c.map.lookup key with
  | some value => (value, c.touch key)
  | none => (cacheMiss key, c.enter key (cacheMiss key))

/-- Every entry is what `cacheMiss` would give, and the queue holds the keys of the map. -/
structure Holds (c : LRUCache K V) (cacheMiss : K → V) : Prop where
  value : ∀ key value, c.map.lookup key = some value → value = cacheMiss key
  keys : ∀ key, key ∈ c.map ↔ key ∈ c.queue
  nodup : c.queue.Nodup

def Empty (c : LRUCache K V) : Prop := c.map = ∅ ∧ c.queue = []

omit [DecidableEq K] in
theorem empty_invalidate (c : LRUCache K V) : c.invalidate.Empty := ⟨rfl, rfl⟩

theorem Empty.holds {c : LRUCache K V} (h : c.Empty) (cacheMiss : K → V) : c.Holds cacheMiss := by
  obtain ⟨hmap, hqueue⟩ := h
  exact ⟨fun key value hv => by simp [hmap] at hv, fun key => by simp [hmap, hqueue],
    by simp [hqueue]⟩

omit [DecidableEq K] in
theorem empty_setLimit (c : LRUCache K V) (limit : ℕ) : (c.setLimit limit).Empty := ⟨rfl, rfl⟩

variable {c : LRUCache K V} {cacheMiss : K → V}

theorem holds_touch (h : c.Holds cacheMiss) {key : K} (hkey : key ∈ c.map) :
    (c.touch key).Holds cacheMiss := by
  refine ⟨h.value, fun k => ?_, ?_⟩
  · have hmem := h.keys k
    by_cases hk : k = key
    · simp [touch, hk, hkey]
    · simp [touch, hk, hmem, List.mem_erase_of_ne hk]
  · exact List.nodup_cons.mpr ⟨h.nodup.not_mem_erase, h.nodup.erase key⟩

/-- After a new key is in the map the oldest one goes, which is another. -/
theorem holds_enter (h : c.Holds cacheMiss) {key : K} (hkey : key ∉ c.map) :
    (c.enter key (cacheMiss key)).Holds cacheMiss := by
  have hq : key ∉ c.queue := mt (h.keys key).mpr hkey
  have hvalue : ∀ k v, (c.map.insert key (cacheMiss key)).lookup k = some v → v = cacheMiss k := by
    intro k v hv
    by_cases hk : k = key
    · subst hk
      simpa [AList.lookup_insert] using hv.symm
    · rw [AList.lookup_insert_ne hk] at hv
      exact h.value k v hv
  unfold enter deleteOld
  simp only
  split_ifs with hfull
  · cases hlast : c.queue.getLast? with
    | none =>
      have hnil : c.queue = [] := List.getLast?_eq_none_iff.mp hlast
      refine ⟨hvalue, fun k => ?_, ?_⟩
      · simp [h.keys k]
      · simp [hnil]
    | some id =>
      obtain ⟨l, hl⟩ := List.getLast?_eq_some_iff.mp hlast
      have hnodup : (l ++ [id]).Nodup := hl ▸ h.nodup
      obtain ⟨hl', -, hid⟩ := List.nodup_append.mp hnodup
      have hdrop : c.queue.dropLast = l := by simp [hl]
      have hne : key ≠ id := by
        rintro rfl
        simp [hl] at hq
      refine ⟨fun k v hv => ?_, fun k => ?_, ?_⟩
      · have hk : k ≠ id := by
          rintro rfl
          simp at hv
        rw [AList.lookup_erase_ne hk] at hv
        exact hvalue k v hv
      · have hmem := h.keys k
        rw [hl, List.mem_append, List.mem_singleton] at hmem
        simp only [AList.mem_erase, AList.mem_insert, hmem, hdrop, List.mem_cons]
        constructor
        · rintro ⟨hk, rfl | hin | rfl⟩
          · exact .inl rfl
          · exact .inr hin
          · exact absurd rfl hk
        · rintro (rfl | hin)
          · exact ⟨hne, .inl rfl⟩
          · exact ⟨fun he => hid k hin id (List.mem_singleton_self id) he, .inr (.inl hin)⟩
      · rw [hdrop]
        exact List.nodup_cons.mpr ⟨fun hin => hq (by simp [hl, hin]), hl'⟩
  · refine ⟨hvalue, fun k => ?_, ?_⟩
    · simp [h.keys k]
    · exact List.nodup_cons.mpr ⟨hq, h.nodup⟩

/-- A lookup gives the value of `cacheMiss`, and what is kept stays right. -/
theorem lookupCache_spec (h : c.Holds cacheMiss) (key : K) :
    (c.lookupCache cacheMiss key).1 = cacheMiss key ∧
      (c.lookupCache cacheMiss key).2.Holds cacheMiss := by
  unfold lookupCache
  cases hv : c.map.lookup key with
  | some value => exact ⟨h.value key value hv, holds_touch h (AList.lookup_isSome.mp (by simp [hv]))⟩
  | none => exact ⟨rfl, holds_enter h (AList.lookup_eq_none.mp hv)⟩

end LRUCache

/-! `AreaStore` (`util/areastore.cpp`): areas with ids, the two structures that find them by place,
and the cache of the areas that overlap a block of positions. -/

open Std Lib

/-- `v3pos_t` and `v3bpos_t`, with coordinates of 32 bits (`USE_POS32`). -/
structure Pos where
  x : Int32
  y : Int32
  z : Int32
  deriving DecidableEq

def U32_MAX : UInt32 := 0xFFFFFFFF

/-- `AST_SMALLER_EQ_AS` -/
def Pos.le (p q : Pos) : Bool := p.x ≤ q.x && p.y ≤ q.y && p.z ≤ q.z

/-- The edges are in order, as the constructor of `Area` leaves them. -/
structure Area where
  id : UInt32
  minedge : Pos
  maxedge : Pos
  data : ByteString
  sorted : minedge.le maxedge = true
  deriving DecidableEq

/-- `sortBoxVerticies` in one dimension. -/
def lower (p q : Int32) : Int32 := if p > q then q else p
def upper (p q : Int32) : Int32 := if p > q then p else q

theorem lower_le_upper (p q : Int32) : lower p q ≤ upper p q := by
  unfold lower upper
  rw [Int32.le_iff_toInt_le]
  split_ifs with h
  · rw [gt_iff_lt, Int32.lt_iff_toInt_lt] at h
    omega
  · rw [gt_iff_lt, Int32.lt_iff_toInt_lt] at h
    omega

def Pos.lower (p q : Pos) : Pos := ⟨Util.lower p.x q.x, Util.lower p.y q.y, Util.lower p.z q.z⟩
def Pos.upper (p q : Pos) : Pos := ⟨Util.upper p.x q.x, Util.upper p.y q.y, Util.upper p.z q.z⟩

theorem Pos.lower_le_upper (p q : Pos) : (p.lower q).le (p.upper q) = true := by
  simp [Pos.le, Pos.lower, Pos.upper, Util.lower_le_upper]

/-- The constructor of `Area`. -/
def Area.ofEdges (mine maxe : Pos) (areaId : UInt32) (data : ByteString) : Area :=
  ⟨areaId, mine.lower maxe, mine.upper maxe, data, mine.lower_le_upper maxe⟩

/-- `AST_CONTAINS_PT` -/
def Area.containsPt (a : Area) (p : Pos) : Bool := a.minedge.le p && p.le a.maxedge

/-- `AST_CONTAINS_AREA`, for the area `a` in the box. -/
def containsArea (minedge maxedge : Pos) (a : Area) : Bool :=
  minedge.le a.minedge && a.maxedge.le maxedge

/-- `AST_OVERLAPS_IN_DIMENSION` -/
def overlapsIn (amin amax bmin bmax : Int32) : Bool := !(amin > bmax || amax < bmin)

/-- `AST_AREAS_OVERLAP` -/
def areasOverlap (minedge maxedge : Pos) (a : Area) : Bool :=
  overlapsIn minedge.x maxedge.x a.minedge.x a.maxedge.x &&
    overlapsIn minedge.y maxedge.y a.minedge.y a.maxedge.y &&
    overlapsIn minedge.z maxedge.z a.minedge.z a.maxedge.z

abbrev AreaMap := ExtTreeMap UInt32 Area

/-- The loop of `getNextId` over the ids in order. -/
def nextIdFrom : List UInt32 → UInt32 → UInt32
  | [], freeId => freeId
  | id :: ids, freeId => if id > freeId then freeId else nextIdFrom ids (id + 1)

def getNextId (areasMap : AreaMap) : UInt32 := nextIdFrom areasMap.keys 0

/-- What a store finds its areas by: the areas themselves stay where they are in `areas_map`, so a
pointer to one is its id. `Indexes` says that a structure has the areas of a map. -/
structure AreaIndex where
  σ : Type
  empty : σ
  insert : σ → Area → σ
  /-- The structure without the area, and what is returned. -/
  remove : σ → Area → σ × Bool
  /-- `getAreasForPosImpl` -/
  forPos : σ → AreaMap → Pos → List UInt32
  inArea : σ → AreaMap → Pos → Pos → Bool → List UInt32
  Indexes : σ → AreaMap → Prop
  indexes_empty : Indexes empty ∅
  indexes_insert : ∀ t m a, Indexes t m → a.id ∉ m → Indexes (insert t a) (m.insert a.id a)
  indexes_remove : ∀ t m id a, Indexes t m → m[id]? = some a → a.id = id →
    Indexes (remove t a).1 (m.erase id)
  forPos_perm : ∀ t m pos, Indexes t m →
    (forPos t m pos).Perm ((m.toList.filter fun e => e.2.containsPt pos).map Prod.fst)
  inArea_perm : ∀ t m minedge maxedge, Indexes t m →
    (inArea t m minedge maxedge true).Perm
      ((m.toList.filter fun e => areasOverlap minedge maxedge e.2).map Prod.fst)

namespace AreaIndex

/-- An area of the map that a pointer points to has the property. -/
def pointed (m : AreaMap) (f : Area → Bool) (id : UInt32) : Bool :=
  match m[id]? with
  | none => false
  | some a => f a

end AreaIndex

structure AreaStore (I : AreaIndex) where
  areasMap : AreaMap := ∅
  index : I.σ := I.empty
  cacheEnabled : Bool := true
  cacheblockRadius : UInt8 := 64
  resCache : LRUCache Pos (List UInt32) := { limit := 1000 }

def containerCoord (p d : Int32) : Int32 := (if p ≥ 0 then p else p - d + 1) / d

def getContainerPos (p : Pos) (d : Int32) : Pos :=
  ⟨containerCoord p.x d, containerCoord p.y d, containerCoord p.z d⟩

namespace AreaStore

variable {I : AreaIndex} (s : AreaStore I)

def radius : Int32 := s.cacheblockRadius.toNat.toInt32

/-- `cacheMiss`, for the block `mpos`. -/
def cacheMiss (mpos : Pos) : List UInt32 :=
  let r := s.radius
  let minedge : Pos := ⟨mpos.x * r, mpos.y * r, mpos.z * r⟩
  let maxedge : Pos := ⟨minedge.x + r - 1, minedge.y + r - 1, minedge.z + r - 1⟩
  I.inArea s.index s.areasMap minedge maxedge true

def invalidateCache : AreaStore I :=
  if s.cacheEnabled then { s with resCache := s.resCache.invalidate } else s

def setCacheParams (enabled : Bool) (blockRadius : UInt8) (limit : ℕ) : AreaStore I :=
  { s with
    cacheEnabled := enabled
    cacheblockRadius := if blockRadius > 16 then blockRadius else 16
    resCache := s.resCache.setLimit (if limit > 20 then limit else 20) }.invalidateCache

def assignId (a : Area) : Area :=
  if a.id = U32_MAX then { a with id := getNextId s.areasMap } else a

def emplace (a : Area) : AreaStore I × Bool × UInt32 :=
  if a.id ∈ s.areasMap then (s, false, a.id)
  else
    ({ s with areasMap := s.areasMap.insert a.id a, index := I.insert s.index a }.invalidateCache,
      true, a.id)

def insertArea (a : Area) : AreaStore I × Bool × UInt32 := s.emplace (s.assignId a)

def removeArea (id : UInt32) : AreaStore I × Bool :=
  match s.areasMap[id]? with
  | none => (s, false)
  | some a =>
    let r := I.remove s.index a
    ({ s with areasMap := s.areasMap.erase id, index := r.1 }.invalidateCache, r.2)

def getAreasForPos (pos : Pos) : AreaStore I × List UInt32 :=
  if s.cacheEnabled then
    let r := s.resCache.lookupCache s.cacheMiss (getContainerPos pos s.radius)
    ({ s with resCache := r.2 }, r.1.filter (AreaIndex.pointed s.areasMap fun a => a.containsPt pos))
  else (s, I.forPos s.index s.areasMap pos)

def getAreasInArea (minedge maxedge : Pos) (acceptOverlap : Bool) : List UInt32 :=
  I.inArea s.index s.areasMap minedge maxedge acceptOverlap

def getArea (id : UInt32) : Option Area := s.areasMap[id]?

def size : ℕ := s.areasMap.size

end AreaStore

inductive AreaOp where
  | insert (mine maxe : Pos) (id : UInt32) (data : ByteString)
  | remove (id : UInt32)
  | setCacheParams (enabled : Bool) (blockRadius : UInt8) (limit : ℕ)
  | getAreasForPos (pos : Pos)
  | getAreasInArea (minedge maxedge : Pos) (acceptOverlap : Bool)
  | getArea (id : UInt32)
  | size

/-- What it answers; areas that are found are told without their order. -/
inductive AreaAnswer where
  | inserted (b : Bool) (id : UInt32)
  | removed (b : Bool)
  | areas (l : Multiset Area)
  | area (a : Option Area)
  | count (n : ℕ)
  | done

namespace AreaStore

variable {I : AreaIndex}

def areasAt (s : AreaStore I) (ids : List UInt32) : Multiset Area :=
  (ids.filterMap fun id => s.areasMap[id]? : List Area)

/-- One call; `cached` is whether the cache may be enabled at all. -/
def step (cached : Bool) (s : AreaStore I) : AreaOp → AreaStore I × AreaAnswer
  | .insert mine maxe id data =>
    let r := s.insertArea (Area.ofEdges mine maxe id data)
    (r.1, .inserted r.2.1 r.2.2)
  | .remove id => ((s.removeArea id).1, .removed (s.removeArea id).2)
  | .setCacheParams enabled blockRadius limit =>
    (s.setCacheParams (enabled && cached) blockRadius limit, .done)
  | .getAreasForPos pos =>
    ((s.getAreasForPos pos).1, .areas (s.areasAt (s.getAreasForPos pos).2))
  | .getAreasInArea minedge maxedge acceptOverlap =>
    (s, .areas (s.areasAt (s.getAreasInArea minedge maxedge acceptOverlap)))
  | .getArea id => (s, .area (s.getArea id))
  | .size => (s, .count s.size)

/-- The store with the cache, and the same store with the cache disabled. -/
def machine (I : AreaIndex) (cached : Bool) : Machine (AreaStore I) AreaOp AreaAnswer where
  init := { cacheEnabled := cached }
  step s op := some (s.step cached op)

end AreaStore

end Freeminer.Util
