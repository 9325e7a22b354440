import Freeminer.Lib.HashOrder
import Freeminer.Lib.Result
import Freeminer.Block.NodeDefManager

/-! `NameIdMapping` (`nameidmapping.h`): a block's table of content names, and its format. -/

namespace Freeminer.Block

open Lib

structure NameIdMapping where
  idToName : Finmap fun _ : Content => ByteString := ∅
  nameToId : Finmap fun _ : ByteString => Content := ∅

namespace NameIdMapping

def set (m : NameIdMapping) (id : Content) (name : ByteString) : NameIdMapping where
  idToName := m.idToName.insert id name
  nameToId := m.nameToId.insert name id

def getName (m : NameIdMapping) (id : Content) : Option ByteString := m.idToName.lookup id

def getId (m : NameIdMapping) (name : ByteString) : Option Content := m.nameToId.lookup name

def size (m : NameIdMapping) : UInt16 := UInt16.ofNat m.idToName.keys.card

def writeEntries : List (Sigma fun _ : Content => ByteString) → Except LoadError ByteString
  | [] => .ok []
  | e :: l => do
    let name ← serializeString16 e.2
    let text ← writeEntries l
    pure (writeU16 e.1 ++ name ++ text)

def serialize (order : HashOrder Content ByteString) (m : NameIdMapping) :
    Except LoadError ByteString := do
  let text ← writeEntries (order.entries m.idToName)
  pure (0 :: writeU16 m.size ++ text)

def readEntries : ℕ → NameIdMapping → IStream → Except LoadError (NameIdMapping × IStream)
  | 0, m, is => .ok (m, is)
  | n + 1, m, is => do
    let (id, is) ← streamU16 is
    let (name, is) ← deSerializeString16 is
    readEntries n (m.set id name) is

def deSerialize (is : IStream) : Except LoadError (NameIdMapping × IStream) := do
  let (version, is) ← streamU8 is
  if version ≠ 0 then .error (.serialization (bytes "unsupported NameIdMapping version"))
  else
    let (count, is) ← streamU16 is
    readEntries count.toNat {} is

variable {m m' : NameIdMapping} {id : Content} {name text : ByteString}
  {l : List (Sigma fun _ : Content => ByteString)} {order : HashOrder Content ByteString}

theorem getName_set_self (m : NameIdMapping) (id : Content) (name : ByteString) :
    (m.set id name).getName id = some name := Finmap.lookup_insert _

theorem getName_set_of_ne {id' : Content} (h : id' ≠ id) (m : NameIdMapping) (name : ByteString) :
    (m.set id name).getName id' = m.getName id' := Finmap.lookup_insert_of_ne _ h

theorem readEntries_append (h : writeEntries l = .ok text) (m : NameIdMapping)
    (rest : ByteString) :
    ∃ m', readEntries l.length m { rest := text ++ rest } = .ok (m', { rest }) ∧
      m'.idToName = insertAll l m.idToName := by
  induction l generalizing m text with
  | nil =>
    obtain rfl := Except.ok.inj h
    exact ⟨m, rfl, rfl⟩
  | cons e l ih =>
    obtain ⟨name, hname, h⟩ := bind_eq_ok.mp h
    obtain ⟨tail, htail, h⟩ := bind_eq_ok.mp h
    obtain rfl := Except.ok.inj h
    obtain ⟨m', hm', hid⟩ := ih htail (m.set e.1 e.2)
    refine ⟨m', ?_, hid⟩
    rw [List.length_cons, readEntries, List.append_assoc, List.append_assoc,
      streamU16_append]
    simp only [bind, Except.bind, deSerializeString16_append hname]
    exact hm'

theorem deSerialize_append (hcard : m.idToName.keys.card < 65536)
    (h : serialize order m = .ok text) (rest : ByteString) :
    ∃ m', deSerialize { rest := text ++ rest } = .ok (m', { rest }) ∧
      m'.idToName = m.idToName := by
  obtain ⟨entries, hentries, h⟩ := bind_eq_ok.mp h
  obtain rfl := Except.ok.inj h
  obtain ⟨m', hm', hid⟩ := readEntries_append hentries {} rest
  have hsize : m.size.toNat = (order.entries m.idToName).length := by
    rw [size, UInt16.toNat_ofNat', order.length_entries]
    omega
  refine ⟨m', ?_, hid.trans (order.insertAll_entries m.idToName)⟩
  unfold deSerialize
  rw [List.cons_append, List.cons_append, streamU8_append]
  simp only [bind, Except.bind, ne_eq, not_true_eq_false, if_false, List.append_assoc,
    streamU16_append, hsize]
  exact hm'

end NameIdMapping

/-! A block's own numbering of contents (`mapblock.cpp`): `getBlockNodeIdMapping` renumbers before
writing, `correctBlockNodeIds` maps back by names after reading. -/

/-- `IdIdMapping`; ids without an entry are mapped to 0xFFFF. -/
abbrev IdIdMapping := Content → Content

def IdIdMapping.set (mapping : IdIdMapping) (k v : Content) : IdIdMapping :=
  Function.update mapping k v

/-- The state of the loop of `getBlockNodeIdMapping`. -/
structure Renumbering where
  mapping : IdIdMapping := fun _ => 0xFFFF
  idCounter : Content := 0
  nimap : NameIdMapping := {}

def renumberNode (t : NodeDefManager) (s : Renumbering) (n : MapNode) : MapNode × Renumbering :=
  if s.mapping n.param0 ≠ 0xFFFF then ({ n with param0 := s.mapping n.param0 }, s)
  else
    ({ n with param0 := s.idCounter },
      { mapping := s.mapping.set n.param0 s.idCounter
        idCounter := s.idCounter + 1
        nimap := s.nimap.set s.idCounter (t.getName n.param0) })

def renumberNodes (t : NodeDefManager) : Renumbering → List MapNode → List MapNode × Renumbering
  | s, [] => ([], s)
  | s, n :: nodes =>
    let (n, s) := renumberNode t s n
    let (nodes, s) := renumberNodes t s nodes
    (n :: nodes, s)

def getBlockNodeIdMapping (t : NodeDefManager) (nodes : List MapNode) :
    List MapNode × NameIdMapping :=
  let (nodes, s) := renumberNodes t {} nodes
  (nodes, s.nimap)

def noNameMapping (id : Content) : LoadError :=
  .serialization (bytes "MapBlock::correctBlockNodeIds(): Block contains id " ++
    decimal id.toNat ++ bytes " with no name mapping")

def couldNotAllocate (name : ByteString) : LoadError :=
  .serialization (bytes "MapBlock::correctBlockNodeIds(): " ++
    bytes "Could not allocate global id for node name \"" ++ name ++ bytes "\"")

/-- One turn of the loop of `correctBlockNodeIds`, with its cache. -/
def correctNode (nimap : NameIdMapping) (cache : IdIdMapping) (t : NodeDefManager) (n : MapNode) :
    Except LoadError (MapNode × IdIdMapping × NodeDefManager) :=
  if cache n.param0 ≠ 0xFFFF then .ok ({ n with param0 := cache n.param0 }, cache, t)
  else
    match nimap.getName n.param0 with
    | none => .error (noNameMapping n.param0)
    | some name =>
      match t.getId name with
      | some globalId => .ok ({ n with param0 := globalId }, cache.set n.param0 globalId, t)
      | none =>
        let (globalId, t) := t.allocateDummy name
        if globalId = CONTENT_IGNORE then .error (couldNotAllocate name)
        else .ok ({ n with param0 := globalId }, cache.set n.param0 globalId, t)

def correctNodes (nimap : NameIdMapping) : IdIdMapping → NodeDefManager → List MapNode →
    Except LoadError (List MapNode × NodeDefManager)
  | _, t, [] => .ok ([], t)
  | cache, t, n :: nodes => do
    let (n, cache, t) ← correctNode nimap cache t n
    let (nodes, t) ← correctNodes nimap cache t nodes
    pure (n :: nodes, t)

/-- `correctBlockNodeIds`, with the table that the unknown names were added to. -/
def correctBlockNodeIds (nimap : NameIdMapping) (t : NodeDefManager) (nodes : List MapNode) :
    Except LoadError (List MapNode × NodeDefManager) :=
  correctNodes nimap (fun _ => 0xFFFF) t nodes

def SameParams (n m : MapNode) : Prop := m.param1 = n.param1 ∧ m.param2 = n.param2

/-! ## Renumbering -/

/-- What the loop has after `k` nodes: ids below the counter, each with the name of the contents
that are mapped to it. -/
structure Renumbering.Numbered (t : NodeDefManager) (k : ℕ) (s : Renumbering) : Prop where
  counter_le : s.idCounter.toNat ≤ k
  mapped : ∀ c, s.mapping c ≠ 0xFFFF → s.nimap.getName (s.mapping c) = some (t.getName c)
  named_lt : ∀ id ∈ s.nimap.idToName.keys, id.toNat < s.idCounter.toNat
  named : ∀ id name, s.nimap.getName id = some name → ∃ c, name = t.getName c

variable {t t' : NodeDefManager} {s : Renumbering} {n : MapNode} {nodes : List MapNode} {k : ℕ}

theorem Renumbering.numbered_init (t : NodeDefManager) : Numbered t 0 {} where
  counter_le := Nat.le_refl _
  mapped c h := absurd rfl h
  named_lt id h := by simp at h
  named id name h := by simp [NameIdMapping.getName] at h

def Keeps (s s' : Renumbering) : Prop :=
  ∀ id name, s.nimap.getName id = some name → s'.nimap.getName id = some name

theorem renumberNode_spec (hs : s.Numbered t k) (hk : k < 65535) (n : MapNode) :
    (renumberNode t s n).2.Numbered t (k + 1) ∧ Keeps s (renumberNode t s n).2 ∧
      (renumberNode t s n).2.nimap.getName (renumberNode t s n).1.param0 =
        some (t.getName n.param0) ∧
      SameParams n (renumberNode t s n).1 := by
  unfold renumberNode
  split_ifs with hmap
  · exact ⟨⟨Nat.le_succ_of_le hs.counter_le, hs.mapped, hs.named_lt, hs.named⟩, fun _ _ h => h,
      hs.mapped _ hmap, rfl, rfl⟩
  · have hcounter := hs.counter_le
    have hsucc : (s.idCounter + 1).toNat = s.idCounter.toNat + 1 := by
      rw [UInt16.toNat_add, show (1 : UInt16).toNat = 1 from rfl]
      omega
    have hkeeps (id : Content) (name : ByteString) (h : s.nimap.getName id = some name) :
        (s.nimap.set s.idCounter (t.getName n.param0)).getName id = some name := by
      rw [NameIdMapping.getName_set_of_ne, h]
      rintro rfl
      have hmem : s.idCounter ∈ s.nimap.idToName.keys :=
        Finmap.mem_keys.mpr (Finmap.mem_of_lookup_eq_some h)
      exact absurd (hs.named_lt _ hmem) (Nat.lt_irrefl _)
    refine ⟨⟨by simp only [hsucc]; omega, ?_, ?_, ?_⟩, hkeeps,
      NameIdMapping.getName_set_self _ _ _, rfl, rfl⟩
    · intro c hc
      by_cases heq : c = n.param0
      · simp only [IdIdMapping.set, heq, Function.update_self]
        exact NameIdMapping.getName_set_self _ _ _
      · simp only [IdIdMapping.set, Function.update_of_ne heq] at hc ⊢
        exact hkeeps _ _ (hs.mapped c hc)
    · intro id hid
      simp only [NameIdMapping.set, Finmap.mem_keys, Finmap.mem_insert] at hid
      rcases hid with rfl | hid
      · simp only [hsucc]
        omega
      · have := hs.named_lt id (Finmap.mem_keys.mpr hid)
        simp only [hsucc]
        omega
    · intro id name h
      by_cases heq : id = s.idCounter
      · subst heq
        rw [NameIdMapping.getName_set_self] at h
        exact ⟨n.param0, (Option.some.inj h).symm⟩
      · rw [NameIdMapping.getName_set_of_ne heq] at h
        exact hs.named id name h

theorem renumberNodes_spec (nodes : List MapNode) (hs : s.Numbered t k) (hk : k + nodes.length < 65536) :
    (renumberNodes t s nodes).2.Numbered t (k + nodes.length) ∧
      Keeps s (renumberNodes t s nodes).2 ∧
      List.Forall₂ (fun n m => (renumberNodes t s nodes).2.nimap.getName m.param0 =
        some (t.getName n.param0) ∧ SameParams n m) nodes (renumberNodes t s nodes).1 := by
  induction nodes generalizing s k with
  | nil => exact ⟨hs, fun _ _ h => h, .nil⟩
  | cons n nodes ih =>
    rw [List.length_cons] at hk
    obtain ⟨hstep, hkeeps, hname, hparams⟩ := renumberNode_spec hs (by omega) n
    obtain ⟨hrun, hkeeps', hnodes⟩ := ih hstep (by omega)
    refine ⟨?_, fun id name h => hkeeps' id name (hkeeps id name h),
      .cons ⟨hkeeps' _ _ hname, hparams⟩ hnodes⟩
    rw [List.length_cons, Nat.add_comm nodes.length, ← Nat.add_assoc]
    exact hrun

/-- Each node's own id has the node's name in the block's table, which has no more ids than the
block has nodes. -/
theorem getBlockNodeIdMapping_spec (hlen : nodes.length < 65536) :
    List.Forall₂ (fun n m => (getBlockNodeIdMapping t nodes).2.getName m.param0 =
      some (t.getName n.param0) ∧ SameParams n m) nodes (getBlockNodeIdMapping t nodes).1 ∧
    (getBlockNodeIdMapping t nodes).2.idToName.keys.card < 65536 ∧
    ∀ id name, (getBlockNodeIdMapping t nodes).2.getName id = some name → ∃ c, name = t.getName c
    := by
  obtain ⟨hrun, -, hnodes⟩ :=
    renumberNodes_spec nodes (Renumbering.numbered_init t) (by omega)
  refine ⟨hnodes, ?_, hrun.named⟩
  have hcounter := hrun.counter_le
  have hsub : (getBlockNodeIdMapping t nodes).2.idToName.keys.image UInt16.toNat ⊆
      Finset.range nodes.length := by
    intro i hi
    obtain ⟨id, hid, rfl⟩ := Finset.mem_image.mp hi
    have := hrun.named_lt id hid
    exact Finset.mem_range.mpr (by omega)
  have hcard := Finset.card_le_card hsub
  rw [Finset.card_image_of_injective _ fun _ _ => UInt16.toNat_inj.mp, Finset.card_range] at hcard
  omega

/-! ## Correction -/

/-- What the loop of `correctBlockNodeIds` keeps, from the table `t` on: `names` are those of the
block. -/
structure Correcting (t : NodeDefManager) (nimap : NameIdMapping) (names : Finset ByteString)
    (cache : IdIdMapping) (t' : NodeDefManager) : Prop where
  wellFormed : t'.WellFormed
  extended : t.Extends t'
  room_iff : t'.Room names ↔ t.Room names
  cached : ∀ id, cache id ≠ 0xFFFF → ∃ name, nimap.getName id = some name ∧
    t'.names (cache id) = t.canonical name ∧ ¬t'.Unknown name

/-- A node that was read under the name it was written with. -/
structure CorrectedNode (t : NodeDefManager) (nimap : NameIdMapping) (t' : NodeDefManager)
    (n m : MapNode) : Prop where
  name_eq : ∀ name, nimap.getName n.param0 = some name →
    t'.names m.param0 = t.canonical name ∧ ¬t'.Unknown name
  sameParams : SameParams n m

variable {nimap : NameIdMapping} {names : Finset ByteString} {cache cache' : IdIdMapping}
  {t'' : NodeDefManager} {name : ByteString} {m : MapNode} {c : Content}

theorem canonical_ne_nil (ht : t.WellFormed) (hne : name ≠ []) : t.canonical name ≠ [] := by
  cases hid : t.getId name with
  | some c =>
    rw [NodeDefManager.canonical_of_getId hid]
    exact ht.alias_named name c hid
  | none => rwa [NodeDefManager.canonical_of_none hid]

theorem CorrectedNode.extends (h : CorrectedNode t nimap t' n m) (ht : t.WellFormed)
    (hne : ∀ name, nimap.getName n.param0 = some name → name ≠ []) (hext : t'.Extends t'') :
    CorrectedNode t nimap t'' n m where
  name_eq name hname := by
    obtain ⟨heq, hu⟩ := h.name_eq name hname
    refine ⟨?_, hext.not_unknown hu⟩
    rw [hext.names_eq _ (heq ▸ canonical_ne_nil ht (hne name hname)), heq]
  sameParams := h.sameParams

/-- The cache entry of a name that was looked up. -/
theorem Correcting.cache_set (h : Correcting t nimap names cache t') (hext : t'.Extends t'')
    (ht : t.WellFormed) (hne : ∀ id name, nimap.getName id = some name → name ≠ [])
    (hwf : t''.WellFormed) (hroom : t''.Room names ↔ t'.Room names)
    (hname : nimap.getName n.param0 = some name) (hc : t''.names c = t.canonical name)
    (hu : ¬t''.Unknown name) : Correcting t nimap names (cache.set n.param0 c) t'' where
  wellFormed := hwf
  extended := h.extended.trans hext
  room_iff := hroom.trans h.room_iff
  cached id hid := by
    by_cases heq : id = n.param0
    · subst heq
      refine ⟨name, hname, ?_, hu⟩
      rw [IdIdMapping.set, Function.update_self, hc]
    · rw [IdIdMapping.set, Function.update_of_ne heq] at hid ⊢
      obtain ⟨name', hname', heq', hu'⟩ := h.cached id hid
      refine ⟨name', hname', ?_, hext.not_unknown hu'⟩
      rw [hext.names_eq _ (heq' ▸ canonical_ne_nil ht (hne id name' hname')), heq']

/-- One node: it is given the id of its name, or the table has no room for the block's names. -/
theorem correctNode_cases (h : Correcting t nimap names cache t') (ht : t.WellFormed)
    (hne : ∀ id name, nimap.getName id = some name → name ≠ [])
    (hname : nimap.getName n.param0 = some name) (hmem : name ∈ names) :
    (∃ m cache' t'', correctNode nimap cache t' n = .ok (m, cache', t'') ∧
      Correcting t nimap names cache' t'' ∧ t'.Extends t'' ∧ CorrectedNode t nimap t'' n m) ∨
    (correctNode nimap cache t' n = .error (couldNotAllocate name) ∧ ¬t.Room names) := by
  have hnode (c : Content) (t'' : NodeDefManager) (hc : t''.names c = t.canonical name)
      (hu : ¬t''.Unknown name) : CorrectedNode t nimap t'' n { n with param0 := c } := by
    refine ⟨fun name' hname' => ?_, rfl, rfl⟩
    obtain rfl := Option.some.inj (hname.symm.trans hname')
    exact ⟨hc, hu⟩
  unfold correctNode
  split_ifs with hcache
  · obtain ⟨name', hname', hc, hu⟩ := h.cached n.param0 hcache
    obtain rfl := Option.some.inj (hname.symm.trans hname')
    exact Or.inl ⟨_, _, _, rfl, h, .refl t', hnode _ _ hc hu⟩
  · rw [hname]
    cases hid : t'.getId name with
    | some c =>
      have hc := h.extended.names_getId name c hid
      have hu : ¬t'.Unknown name := by
        rintro ⟨hnone, -⟩
        rw [hid] at hnone
        cases hnone
      exact Or.inl ⟨_, _, _, by simp only [hid],
        h.cache_set (.refl t') ht hne h.wellFormed Iff.rfl hname hc hu, .refl t', hnode _ _ hc hu⟩
    | none =>
      have hnone : t.canonical name = name := by
        rw [← h.extended.canonical_eq, NodeDefManager.canonical_of_none hid]
      obtain ⟨c, t'', hdummy, hc, hwf, hext, hnames, hu, hroom⟩ | ⟨hdummy, hroom⟩ :=
        NodeDefManager.allocateDummy_cases h.wellFormed (hne _ _ hname) hid
      · have hnames := hnames.trans hnone.symm
        refine Or.inl ⟨_, cache.set n.param0 c, t'', by simp only [hid, hdummy, hc, if_false], ?_,
          hext, hnode _ _ hnames hu⟩
        exact h.cache_set hext ht hne hwf (hroom names hmem) hname hnames hu
      · refine Or.inr ⟨by simp only [hid, hdummy, if_true], ?_⟩
        rw [← h.room_iff]
        exact hroom names hmem

theorem correctNodes_cases (h : Correcting t nimap names cache t') (ht : t.WellFormed)
    (hne : ∀ id name, nimap.getName id = some name → name ≠ [])
    (hnodes : ∀ n ∈ nodes, ∃ name ∈ names, nimap.getName n.param0 = some name) :
    (∃ out cache'' t'', correctNodes nimap cache t' nodes = .ok (out, t'') ∧
      Correcting t nimap names cache'' t'' ∧ t'.Extends t'' ∧
      List.Forall₂ (CorrectedNode t nimap t'') nodes out) ∨
    (∃ name ∈ names, correctNodes nimap cache t' nodes = .error (couldNotAllocate name) ∧
      ¬t.Room names) := by
  induction nodes generalizing cache t' with
  | nil => exact Or.inl ⟨[], cache, t', rfl, h, .refl t', .nil⟩
  | cons n nodes ih =>
    obtain ⟨name, hmem, hname⟩ := hnodes n List.mem_cons_self
    have hrest n (hn : n ∈ nodes) := hnodes n (List.mem_cons_of_mem _ hn)
    obtain ⟨m, cache', t'', hstep, h', hext, hm⟩ | ⟨hstep, hroom⟩ :=
      correctNode_cases h ht hne hname hmem
    · obtain ⟨out, cache'', t3, hrun, h'', hext', hout⟩ | ⟨name', hmem', hrun, hroom⟩ :=
        ih h' hrest
      · refine Or.inl ⟨m :: out, cache'', t3, ?_, h'', hext.trans hext', .cons ?_ hout⟩
        · simp only [correctNodes, hstep, hrun, bind, Except.bind, pure, Except.pure]
        · exact hm.extends ht (hne _) hext'
      · refine Or.inr ⟨name', hmem', ?_, hroom⟩
        simp only [correctNodes, hstep, hrun, bind, Except.bind]
    · refine Or.inr ⟨name, hmem, ?_, hroom⟩
      simp only [correctNodes, hstep, bind, Except.bind]

/-- `correctBlockNodeIds` on a block whose ids all have names: there is room for the unknown ones,
and each node is given the id of its name, or there is none and it throws. -/
theorem correctBlockNodeIds_cases (ht : t.WellFormed)
    (hne : ∀ id name, nimap.getName id = some name → name ≠ [])
    (hnodes : ∀ n ∈ nodes, ∃ name ∈ names, nimap.getName n.param0 = some name)
    (hnames : ∀ name ∈ names, ∃ n ∈ nodes, nimap.getName n.param0 = some name) :
    (∃ out t', correctBlockNodeIds nimap t nodes = .ok (out, t') ∧ t.Room names ∧ t'.WellFormed ∧
      t.Extends t' ∧ List.Forall₂ (CorrectedNode t nimap t') nodes out) ∨
    (∃ name ∈ names, correctBlockNodeIds nimap t nodes = .error (couldNotAllocate name) ∧
      ¬t.Room names) := by
  have hinit : Correcting t nimap names (fun _ => 0xFFFF) t :=
    ⟨ht, .refl t, Iff.rfl, fun _ h => absurd rfl h⟩
  obtain ⟨out, cache, t', hrun, h, hext, hout⟩ | ⟨name, hmem, hrun, hroom⟩ :=
    correctNodes_cases hinit ht hne hnodes
  · refine Or.inl ⟨out, t', hrun, ?_, h.wellFormed, hext, hout⟩
    -- no name of the block is unknown at the end
    have hneeded : names.filter t'.Unknown = ∅ := by
      refine Finset.filter_eq_empty_iff.mpr fun name hmem => ?_
      obtain ⟨n, hn, hname⟩ := hnames name hmem
      obtain ⟨m, -, hm⟩ := exists_right hout hn
      exact (hm.name_eq name hname).2
    rw [← h.room_iff, NodeDefManager.Room, hneeded]
    exact Nat.zero_le _
  · exact Or.inr ⟨name, hmem, hrun, hroom⟩

end Freeminer.Block
