import Mathlib.Data.Finset.Card
import Freeminer.Block.MapNode

/-! `NodeDefManager` (`nodedef.cpp`): names of contents, and the dummies that are allocated for
names it does not know. -/

namespace Freeminer.Block

def CONTENT_UNKNOWN : Content := 125
def CONTENT_AIR : Content := 126
def CONTENT_IGNORE : Content := 127

/-- `names` are those of `m_content_features`; an empty one is a free id. -/
structure NodeDefManager where
  names : Content → ByteString
  nameIdMapping : ByteString → Option Content
  nameIdMappingWithAliases : ByteString → Option Content
  nextId : Content

namespace NodeDefManager

/-- `get(c).name` -/
def getName (t : NodeDefManager) (c : Content) : ByteString :=
  if t.names c = [] then t.names CONTENT_UNKNOWN else t.names c

def getId (t : NodeDefManager) (name : ByteString) : Option Content :=
  t.nameIdMappingWithAliases name

/-- A name that is there already keeps its id in the mapping with aliases (`emplace`). -/
def addNameIdMapping (t : NodeDefManager) (i : Content) (name : ByteString) : NodeDefManager :=
  { t with
    nameIdMapping := Function.update t.nameIdMapping name (some i)
    nameIdMappingWithAliases :=
      if t.nameIdMappingWithAliases name = none then
        Function.update t.nameIdMappingWithAliases name (some i)
      else t.nameIdMappingWithAliases }

/-- The first free id from `nextId` on. -/
def firstFree (t : NodeDefManager) : Option ℕ :=
  (List.range' t.nextId.toNat (65536 - t.nextId.toNat)).find? fun id =>
    decide (t.names (UInt16.ofNat id) = [])

/-- `CONTENT_IGNORE` if there is no free id (from `nextId` 0 on the loop would not end). -/
def allocateId (t : NodeDefManager) : Content × NodeDefManager :=
  match t.firstFree with
  | some id => (UInt16.ofNat id, { t with nextId := UInt16.ofNat (min (id + 1) 65535) })
  | none => (CONTENT_IGNORE, t)

/-- `set`, for a definition that has a name only. -/
def set (t : NodeDefManager) (name : ByteString) : Content × NodeDefManager :=
  if name = [] ∨ name = bytes "ignore" then (CONTENT_IGNORE, t)
  else
    match t.nameIdMapping name with
    | some id => (id, { t with names := Function.update t.names id name })
    | none =>
      let (id, t) := t.allocateId
      if id = CONTENT_IGNORE then (CONTENT_IGNORE, t)
      else
        let t := t.addNameIdMapping id name
        (id, { t with names := Function.update t.names id name })

def allocateDummy (t : NodeDefManager) (name : ByteString) : Content × NodeDefManager :=
  if name = [] then (CONTENT_IGNORE, t) else t.set name

/-- What registration keeps: the mappings lead to named ids, the own one to the name itself, and
the contents of the engine have their names. -/
structure WellFormed (t : NodeDefManager) : Prop where
  name_ne_nil : ∀ name c, t.nameIdMapping name = some c → name ≠ []
  names_eq : ∀ name c, t.nameIdMapping name = some c → t.names c = name
  alias_named : ∀ name c, t.getId name = some c → t.names c ≠ []
  unknown_named : t.names CONTENT_UNKNOWN ≠ []
  ignore_named : t.names CONTENT_IGNORE = bytes "ignore"
  ignore_known : t.getId (bytes "ignore") ≠ none

/-- The name under which a node of some name is loaded: that of the id which the table, with its
aliases, has for it; a name it does not know stays. -/
def canonical (t : NodeDefManager) (name : ByteString) : ByteString :=
  ((t.getId name).map t.names).getD name

def Unknown (t : NodeDefManager) (name : ByteString) : Prop :=
  t.getId name = none ∧ t.nameIdMapping name = none

instance (t : NodeDefManager) (name : ByteString) : Decidable (t.Unknown name) :=
  inferInstanceAs (Decidable (_ ∧ _))

def freeIds (t : NodeDefManager) : Finset ℕ :=
  (Finset.range 65536).filter fun id =>
    t.nextId.toNat ≤ id ∧ t.names (UInt16.ofNat id) = []

def Room (t : NodeDefManager) (names : Finset ByteString) : Prop :=
  (names.filter t.Unknown).card ≤ t.freeIds.card

variable {t t' t'' : NodeDefManager} {name : ByteString} {c : Content} {id : ℕ}

theorem mem_freeIds :
    id ∈ t.freeIds ↔ id < 65536 ∧ t.nextId.toNat ≤ id ∧ t.names (UInt16.ofNat id) = [] := by
  simp [freeIds]

theorem firstFree_eq_none : t.firstFree = none ↔ t.freeIds = ∅ := by
  have hnext := t.nextId.toNat_lt
  rw [firstFree, List.find?_range'_eq_none, Finset.eq_empty_iff_forall_notMem]
  constructor
  · intro h i hi
    obtain ⟨hlt, hle, hname⟩ := mem_freeIds.mp hi
    simpa [hname] using h i hle (by omega)
  · intro h i hle hlt
    have hi := h i
    rw [mem_freeIds] at hi
    simpa using fun hname => hi ⟨by omega, hle, hname⟩

theorem firstFree_eq_some (h : t.firstFree = some id) :
    id ∈ t.freeIds ∧ ∀ j ∈ t.freeIds, id ≤ j := by
  have hnext := t.nextId.toNat_lt
  rw [firstFree, List.find?_range'_eq_some] at h
  obtain ⟨hname, hmem, hleast⟩ := h
  rw [List.mem_range'_1] at hmem
  refine ⟨mem_freeIds.mpr ⟨by omega, hmem.1, of_decide_eq_true hname⟩, fun j hj => ?_⟩
  obtain ⟨-, hle, hjname⟩ := mem_freeIds.mp hj
  by_contra hlt
  simpa [hjname] using hleast j hle (by omega)

/-! ## Allocation of a dummy -/

theorem allocateDummy_registered (ht : t.WellFormed) (h : t.nameIdMapping name = some c) :
    t.allocateDummy name = if name = bytes "ignore" then (CONTENT_IGNORE, t) else (c, t) := by
  have hne := ht.name_ne_nil name c h
  have hself : Function.update t.names c name = t.names := by
    rw [← ht.names_eq name c h, Function.update_eq_self]
  simp [allocateDummy, set, hne, h, hself]

theorem allocateDummy_full (hne : name ≠ []) (hn : t.nameIdMapping name = none)
    (hfree : t.firstFree = none) : t.allocateDummy name = (CONTENT_IGNORE, t) := by
  simp [allocateDummy, set, hne, hn, allocateId, hfree]

def allocated (t : NodeDefManager) (id : ℕ) (name : ByteString) : NodeDefManager :=
  { ({ t with nextId := UInt16.ofNat (min (id + 1) 65535) } : NodeDefManager).addNameIdMapping
      (UInt16.ofNat id) name with
    names := Function.update t.names (UInt16.ofNat id) name }

theorem allocateDummy_allocated (ht : t.WellFormed) (hne : name ≠ [])
    (hign : name ≠ bytes "ignore") (hn : t.nameIdMapping name = none)
    (hfree : t.firstFree = some id) :
    t.allocateDummy name = (UInt16.ofNat id, t.allocated id name) := by
  have hid := (mem_freeIds.mp (firstFree_eq_some hfree).1).2.2
  have hne' : UInt16.ofNat id ≠ CONTENT_IGNORE := by
    intro heq
    rw [heq, ht.ignore_named] at hid
    exact absurd hid (by decide)
  simp [allocateDummy, set, hne, hign, hn, allocateId, hfree, hne', allocated, addNameIdMapping]

structure Extends (t t' : NodeDefManager) : Prop where
  names_eq : ∀ c, t.names c ≠ [] → t'.names c = t.names c
  getId_eq : ∀ name c, t.getId name = some c → t'.getId name = some c
  names_getId : ∀ name c, t'.getId name = some c → t'.names c = t.canonical name
  registered : ∀ name c, t.nameIdMapping name = some c → t'.nameIdMapping name = some c

theorem canonical_of_getId (h : t.getId name = some c) : t.canonical name = t.names c := by
  rw [canonical, h]
  rfl

theorem canonical_of_none (h : t.getId name = none) : t.canonical name = name := by
  rw [canonical, h]
  rfl

theorem Extends.refl (t : NodeDefManager) : t.Extends t :=
  ⟨fun _ _ => rfl, fun _ _ h => h, fun _ _ h => (canonical_of_getId h).symm, fun _ _ h => h⟩

theorem Extends.canonical_eq (h : t.Extends t') (name : ByteString) :
    t'.canonical name = t.canonical name := by
  cases hid : t'.getId name with
  | some c => rw [canonical_of_getId hid, h.names_getId name c hid]
  | none =>
    rw [canonical_of_none hid]
    cases hid0 : t.getId name with
    | none => rw [canonical_of_none hid0]
    | some c =>
      rw [h.getId_eq name c hid0] at hid
      cases hid

theorem Extends.trans (h : t.Extends t') (h' : t'.Extends t'') : t.Extends t'' where
  names_eq c hc := by
    have hc' := h.names_eq c hc
    rw [h'.names_eq c (by rwa [hc']), hc']
  getId_eq name c hid := h'.getId_eq name c (h.getId_eq name c hid)
  names_getId name c hid := by rw [h'.names_getId name c hid, h.canonical_eq]
  registered name c hid := h'.registered name c (h.registered name c hid)

theorem Extends.not_unknown (h : t.Extends t') (hu : ¬t.Unknown name) : ¬t'.Unknown name := by
  rintro ⟨hid, hn⟩
  apply hu
  constructor
  · refine Option.eq_none_iff_forall_ne_some.mpr fun c hc => ?_
    rw [h.getId_eq name c hc] at hid
    cases hid
  · refine Option.eq_none_iff_forall_ne_some.mpr fun c hc => ?_
    rw [h.registered name c hc] at hn
    cases hn

/-! The table after an allocation. -/

theorem getId_allocated (hu : t.getId name = none) (id : ℕ) (other : ByteString) :
    (t.allocated id name).getId other =
      if other = name then some (UInt16.ofNat id) else t.getId other := by
  rw [getId] at hu
  simp [allocated, addNameIdMapping, getId, hu, Function.update_apply]

theorem nameIdMapping_allocated (t : NodeDefManager) (id : ℕ) (name other : ByteString) :
    (t.allocated id name).nameIdMapping other =
      if other = name then some (UInt16.ofNat id) else t.nameIdMapping other := by
  simp [allocated, addNameIdMapping, Function.update_apply]

theorem names_allocated (t : NodeDefManager) (id : ℕ) (name : ByteString) (c : Content) :
    (t.allocated id name).names c = if c = UInt16.ofNat id then name else t.names c := by
  simp [allocated, Function.update_apply]

theorem names_allocated_of_named (hfree : t.names (UInt16.ofNat id) = []) (hc : t.names c ≠ [])
    (name : ByteString) : (t.allocated id name).names c = t.names c := by
  rw [names_allocated, if_neg]
  rintro rfl
  exact hc hfree

theorem extends_allocated (ht : t.WellFormed) (hu : t.Unknown name)
    (hfree : t.names (UInt16.ofNat id) = []) : t.Extends (t.allocated id name) where
  names_eq _ hc := names_allocated_of_named hfree hc name
  getId_eq other c hid := by
    rw [getId_allocated hu.1, if_neg, hid]
    rintro rfl
    rw [hu.1] at hid
    cases hid
  names_getId other c hid := by
    rw [getId_allocated hu.1] at hid
    split_ifs at hid with heq
    · obtain rfl := Option.some.inj hid
      rw [names_allocated, if_pos rfl, heq, canonical_of_none hu.1]
    · rw [names_allocated_of_named hfree (ht.alias_named other c hid), canonical_of_getId hid]
  registered other c hid := by
    rw [nameIdMapping_allocated, if_neg, hid]
    rintro rfl
    rw [hu.2] at hid
    cases hid

theorem WellFormed.allocated (ht : t.WellFormed) (hne : name ≠ []) (hu : t.Unknown name)
    (hfree : t.names (UInt16.ofNat id) = []) : (t.allocated id name).WellFormed where
  name_ne_nil other c hid := by
    rw [nameIdMapping_allocated] at hid
    split_ifs at hid with heq
    · exact heq ▸ hne
    · exact ht.name_ne_nil other c hid
  names_eq other c hid := by
    rw [nameIdMapping_allocated] at hid
    split_ifs at hid with heq
    · obtain rfl := Option.some.inj hid
      rw [names_allocated, if_pos rfl, heq]
    · have hname := ht.names_eq other c hid
      rw [names_allocated_of_named hfree, hname]
      rw [hname]
      exact ht.name_ne_nil other c hid
  alias_named other c hid := by
    rw [getId_allocated hu.1] at hid
    split_ifs at hid with heq
    · obtain rfl := Option.some.inj hid
      rw [names_allocated, if_pos rfl]
      exact hne
    · have hc := ht.alias_named other c hid
      rwa [names_allocated_of_named hfree hc]
  unknown_named := by
    rw [names_allocated_of_named hfree ht.unknown_named]
    exact ht.unknown_named
  ignore_named := by
    rw [names_allocated_of_named hfree (by rw [ht.ignore_named]; decide), ht.ignore_named]
  ignore_known := by
    rw [getId_allocated hu.1]
    split_ifs
    · simp
    · exact ht.ignore_known

theorem unknown_allocated (hu : t.Unknown name) (id : ℕ) (other : ByteString) :
    (t.allocated id name).Unknown other ↔ t.Unknown other ∧ other ≠ name := by
  rw [Unknown, getId_allocated hu.1, nameIdMapping_allocated]
  by_cases heq : other = name <;> simp [heq, Unknown]

theorem freeIds_allocated (hne : name ≠ []) (hfree : t.firstFree = some id) :
    (t.allocated id name).freeIds = t.freeIds.erase id := by
  obtain ⟨hid, hleast⟩ := firstFree_eq_some hfree
  obtain ⟨hlt, hle, hname⟩ := mem_freeIds.mp hid
  have hnext : (t.allocated id name).nextId.toNat = min (id + 1) 65535 := by
    show (UInt16.ofNat (min (id + 1) 65535)).toNat = _
    rw [UInt16.toNat_ofNat']
    omega
  ext j
  rw [Finset.mem_erase, mem_freeIds, hnext]
  have hof (hj : j < 65536) : UInt16.ofNat j = UInt16.ofNat id ↔ j = id := by
    rw [← UInt16.toNat_inj, UInt16.toNat_ofNat', UInt16.toNat_ofNat']
    omega
  constructor
  · rintro ⟨hj, hmin, hempty⟩
    rw [names_allocated] at hempty
    split_ifs at hempty with heq
    · exact absurd hempty hne
    · rw [hof hj] at heq
      exact ⟨heq, mem_freeIds.mpr ⟨hj, by omega, hempty⟩⟩
  · rintro ⟨hji, hj⟩
    have hij := hleast j hj
    obtain ⟨hj, -, hempty⟩ := mem_freeIds.mp hj
    refine ⟨hj, by omega, ?_⟩
    rwa [names_allocated, if_neg (by rwa [hof hj])]

/-- An allocation takes one unknown name and one free id. -/
theorem room_allocated {names : Finset ByteString} (hmem : name ∈ names) (hne : name ≠ [])
    (hu : t.Unknown name) (hfree : t.firstFree = some id) :
    (t.allocated id name).Room names ↔ t.Room names := by
  have hneeded : names.filter (t.allocated id name).Unknown =
      (names.filter t.Unknown).erase name := by
    ext other
    simp only [Finset.mem_filter, Finset.mem_erase, unknown_allocated hu]
    tauto
  have hin : name ∈ names.filter t.Unknown := Finset.mem_filter.mpr ⟨hmem, hu⟩
  have hid := (firstFree_eq_some hfree).1
  have hpos := Finset.card_pos.mpr ⟨name, hin⟩
  have hpos' := Finset.card_pos.mpr ⟨id, hid⟩
  rw [Room, Room, hneeded, freeIds_allocated hne hfree, Finset.card_erase_of_mem hin,
    Finset.card_erase_of_mem hid]
  omega

/-- A name without an id gets one, or the table has no room for it. -/
theorem allocateDummy_cases (ht : t.WellFormed) (hne : name ≠ []) (hid : t.getId name = none) :
    (∃ c t', t.allocateDummy name = (c, t') ∧ c ≠ CONTENT_IGNORE ∧ t'.WellFormed ∧ t.Extends t' ∧
      t'.names c = name ∧ ¬t'.Unknown name ∧
      ∀ names : Finset ByteString, name ∈ names → (t'.Room names ↔ t.Room names)) ∨
    (t.allocateDummy name = (CONTENT_IGNORE, t) ∧
      ∀ names : Finset ByteString, name ∈ names → ¬t.Room names) := by
  have hign : name ≠ bytes "ignore" := by
    rintro rfl
    exact ht.ignore_known hid
  cases hn : t.nameIdMapping name with
  | some c =>
    have hc := ht.names_eq name c hn
    refine Or.inl ⟨c, t, ?_, ?_, ht, .refl t, hc, ?_, fun _ _ => Iff.rfl⟩
    · rw [allocateDummy_registered ht hn, if_neg hign]
    · rintro rfl
      exact hign (hc.symm.trans ht.ignore_named)
    · rintro ⟨-, hnone⟩
      rw [hn] at hnone
      cases hnone
  | none =>
    have hu : t.Unknown name := ⟨hid, hn⟩
    cases hfree : t.firstFree with
    | some id =>
      have hempty := (mem_freeIds.mp (firstFree_eq_some hfree).1).2.2
      refine Or.inl ⟨UInt16.ofNat id, t.allocated id name,
        allocateDummy_allocated ht hne hign hn hfree, ?_, ht.allocated hne hu hempty,
        extends_allocated ht hu hempty, ?_, ?_, fun names hmem => room_allocated hmem hne hu hfree⟩
      · intro heq
        rw [heq, ht.ignore_named] at hempty
        exact absurd hempty (by decide)
      · rw [names_allocated, if_pos rfl]
      · simp [unknown_allocated hu]
    | none =>
      refine Or.inr ⟨allocateDummy_full hne hn hfree, fun names hmem => ?_⟩
      have hin : name ∈ names.filter t.Unknown := Finset.mem_filter.mpr ⟨hmem, hu⟩
      have hpos := Finset.card_pos.mpr ⟨name, hin⟩
      rw [Room, firstFree_eq_none.mp hfree, Finset.card_empty]
      omega

end NodeDefManager

end Freeminer.Block
