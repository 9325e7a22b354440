import Freeminer.Lib.Intern
import Freeminer.Mapgen.Schematic
import Freeminer.Block.Migration

/-! The table of names that a schematic is saved with: which ids its contents get, and what these
ids become when the names are resolved. -/

namespace Freeminer.Mapgen

open Lib
open Block (Content MapNode CONTENT_AIR CONTENT_IGNORE Compression)
open NodeDef (NodeDefManager)

variable {R : Type} {ndef : NodeDefManager R}

namespace Schematic

def contents (s : Schematic) : List Content := distinct (s.schemdata.map MapNode.param0)

def keptName (name : ByteString) : ByteString :=
  if name = bytes "ignore" then bytes "air" else name

variable (ndef) in
/-- What a content is after its name was saved and resolved; the name of a group stands for all
contents of it. -/
def idsRead (c : Content) : List Content :=
  (NodeResolver.idsOf ndef true CONTENT_AIR (keptName (ndef.get c).name)).2

variable (ndef) in
/-- The names of the contents resolve to these contents, in their order. -/
def Resolves (s : Schematic) : Prop := s.contents <+: s.contents.flatMap (idsRead ndef)

variable (ndef) in
/-- When a schematic has a file that stands for it. -/
structure Savable (s : Schematic) : Prop where
  fits : s.schemdata.length < 2 ^ 30
  few : s.contents.length < 2 ^ 16
  short : ∀ c ∈ s.contents, (ndef.get c).name.length ≤ STRING_MAX_LEN
  resolves : Resolves ndef s

variable {s : Schematic} {c : Content}

theorem mem_contents : c ∈ s.contents ↔ ∃ n ∈ s.schemdata, n.param0 = c := by
  rw [contents, mem_distinct, List.mem_map]

theorem nodup_contents (s : Schematic) : s.contents.Nodup := nodup_distinct _

theorem length_le_of_nodup {l : List Content} (h : l.Nodup) : l.length ≤ 65536 := by
  have hnodup : (l.map UInt16.toNat).Nodup := h.map (fun a b hab => UInt16.toNat_inj.mp hab)
  have hsub : l.map UInt16.toNat ⊆ List.range 65536 := by
    intro i hi
    obtain ⟨c, -, rfl⟩ := List.mem_map.mp hi
    exact List.mem_range.mpr c.toNat_lt
  have hle := (List.subperm_of_subset hnodup hsub).length_le
  rwa [List.length_map, List.length_range] at hle

theorem toNat_ofNat_idxOf {l : List Content} (h : l.Nodup) (hc : c ∈ l) :
    (UInt16.ofNat (l.idxOf c)).toNat = l.idxOf c := by
  have hlt := List.idxOf_lt_length_of_mem hc
  have hle := length_le_of_nodup h
  exact UInt16.toNat_ofNat_of_lt' (by
    show l.idxOf c < 65536
    omega)

/-! ## Condensing -/

/-- The ids of the contents seen so far are their places. -/
structure Condensed.Numbers (ndef : NodeDefManager R) (seen : List Content) (st : Condensed) :
    Prop where
  nodeidmap : ∀ c, st.nodeidmap c =
    if c ∈ seen then some (UInt16.ofNat (seen.idxOf c)) else none
  numids : st.numids = UInt16.ofNat seen.length
  m_nodenames : st.m_nodenames = seen.map fun c => (ndef.get c).name

theorem Condensed.numbers_empty : Numbers ndef [] {} := ⟨fun _ => rfl, rfl, rfl⟩

theorem Condensed.Numbers.idOf {seen : List Content} {st : Condensed} (h : Numbers ndef seen st)
    (c : Content) :
    Numbers ndef (distinctFrom seen [c]) (st.idOf ndef c).2 ∧
      (st.idOf ndef c).1 = UInt16.ofNat ((distinctFrom seen [c]).idxOf c) := by
  unfold Condensed.idOf
  by_cases hc : c ∈ seen
  · have hseen : distinctFrom seen [c] = seen := by simp [distinctFrom, hc]
    have hid := h.nodeidmap c
    rw [if_pos hc] at hid
    rw [hid, hseen]
    exact ⟨h, rfl⟩
  · have hseen : distinctFrom seen [c] = seen ++ [c] := by simp [distinctFrom, hc]
    have hid := h.nodeidmap c
    rw [if_neg hc] at hid
    have hplace : (seen ++ [c]).idxOf c = seen.length := by
      rw [List.idxOf_append_of_notMem hc]
      simp
    rw [hid, hseen]
    refine ⟨⟨?_, ?_, ?_⟩, ?_⟩
    · intro d
      show Function.update st.nodeidmap c (some st.numids) d = _
      by_cases hd : d = c
      · subst hd
        rw [Function.update_self, if_pos (by simp), hplace, h.numids]
      · rw [Function.update_of_ne hd, h.nodeidmap d]
        by_cases hmem : d ∈ seen
        · rw [if_pos hmem, if_pos (List.mem_append_left _ hmem), List.idxOf_append_of_mem hmem]
        · rw [if_neg hmem, if_neg (by simp [hmem, hd])]
    · rw [List.length_append, List.length_singleton]
      simp only [h.numids]
      exact (UInt16.ofNat_add _ _).symm
    · simp [h.m_nodenames]
    · rw [hplace]
      exact h.numids

theorem distinctFrom_cons (seen l : List Content) (c : Content) :
    distinctFrom seen (c :: l) = distinctFrom (distinctFrom seen [c]) l := by
  simp only [distinctFrom]
  split_ifs <;> rfl

/-- Each node gets the place of its content. -/
theorem condenseLoop_spec {nodes : List MapNode} {seen : List Content} {st : Condensed}
    (h : st.Numbers ndef seen) :
    (condenseLoop ndef nodes st).2.Numbers ndef (distinctFrom seen (nodes.map MapNode.param0)) ∧
      (condenseLoop ndef nodes st).1 = nodes.map fun n =>
        { n with
          param0 := UInt16.ofNat
            ((distinctFrom seen (nodes.map MapNode.param0)).idxOf n.param0) } := by
  induction nodes generalizing seen st with
  | nil => exact ⟨h, rfl⟩
  | cons n nodes ih =>
    obtain ⟨hnum, hid⟩ := h.idOf n.param0
    obtain ⟨hnum', hnodes⟩ := ih hnum
    have hmem : n.param0 ∈ distinctFrom seen [n.param0] := mem_distinctFrom.mpr (.inr (by simp))
    simp only [condenseLoop, List.map_cons]
    rw [distinctFrom_cons]
    refine ⟨hnum', ?_⟩
    rw [hnodes, hid, idxOf_distinctFrom hmem]

theorem schemdata_condenseContentIds (ndef : NodeDefManager R) (s : Schematic) :
    (s.condenseContentIds ndef).schemdata = s.schemdata.map fun n =>
      { n with param0 := UInt16.ofNat (s.contents.idxOf n.param0) } :=
  (condenseLoop_spec Condensed.numbers_empty).2

theorem m_nodenames_condenseContentIds (ndef : NodeDefManager R) (s : Schematic) :
    (s.condenseContentIds ndef).m_nodenames = s.contents.map fun c => (ndef.get c).name :=
  (condenseLoop_spec Condensed.numbers_empty).1.m_nodenames

/-! ## Resolving -/

theorem resolveNode_of_lt {c_nodes : List Content} {n : MapNode}
    (h : n.param0.toNat < c_nodes.length) :
    resolveNode c_nodes n = c_nodes[n.param0.toNat]?.map fun c => { n with param0 := c } := by
  simp only [resolveNode, Nat.not_le.mpr h, if_false]

theorem resolveNode_of_le {c_nodes : List Content} {n : MapNode}
    (h : c_nodes.length ≤ n.param0.toNat) :
    resolveNode c_nodes n = c_nodes[0]?.map fun c => { n with param0 := c } := by
  simp only [resolveNode, h, if_true, UInt16.toNat_zero]

theorem mapM_map_eq_self {α : Type} {f : α → Option α} {g : α → α} {l : List α}  :
    (l.map g).mapM f = some l ↔ ∀ a ∈ l, f (g a) = some a := by
  induction l with
  | nil => simp
  | cons a l ih =>
    rw [List.map_cons, List.mapM_cons]
    constructor
    · intro h
      obtain ⟨b, hb, h⟩ := Option.bind_eq_some_iff.mp h
      obtain ⟨l', hl, h⟩ := Option.bind_eq_some_iff.mp h
      obtain ⟨rfl, rfl⟩ := List.cons_eq_cons.mp (Option.some.inj h)
      intro x hx
      rcases List.mem_cons.mp hx with rfl | hx
      · exact hb
      · exact ih.mp hl x hx
    · intro h
      rw [h a List.mem_cons_self, ih.mpr fun x hx => h x (List.mem_cons_of_mem _ hx)]
      rfl

/-- The ids become the contents again if and only if the resolved names begin with these. -/
theorem resolve_condensed_iff (s : Schematic) (c_nodes : List Content) :
    (s.schemdata.map fun n : MapNode =>
        { n with param0 := UInt16.ofNat (s.contents.idxOf n.param0) }).mapM (resolveNode c_nodes) =
      some s.schemdata ↔ s.contents <+: c_nodes := by
  have hnodup := s.nodup_contents
  rw [mapM_map_eq_self, prefix_iff_idxOf hnodup]
  constructor
  · intro h
    -- the content that occurs first has the id 0, which also stands for ids that are too large
    have hread : ∀ c ∈ s.contents, c_nodes[s.contents.idxOf c]? = some c ∨
        (c_nodes.length ≤ s.contents.idxOf c ∧ c_nodes[0]? = some c) := by
      intro c hc
      obtain ⟨n, hn, rfl⟩ := mem_contents.mp hc
      have hres := h n hn
      have hid := toNat_ofNat_idxOf hnodup hc
      by_cases hlt : s.contents.idxOf n.param0 < c_nodes.length
      · rw [resolveNode_of_lt (by simpa only [hid] using hlt), hid] at hres
        obtain ⟨d, hd, hdn⟩ := Option.map_eq_some_iff.mp hres
        exact .inl (hd.trans (congrArg some (congrArg MapNode.param0 hdn)))
      · have hle := Nat.not_lt.mp hlt
        rw [resolveNode_of_le (by simpa only [hid] using hle)] at hres
        obtain ⟨d, hd, hdn⟩ := Option.map_eq_some_iff.mp hres
        exact .inr ⟨hle, hd.trans (congrArg some (congrArg MapNode.param0 hdn))⟩
    intro c hc
    rcases hread c hc with hc' | ⟨hle, hzero⟩
    · exact hc'
    · have hpos : 0 < s.contents.length := List.length_pos_of_mem hc
      have hfirst := hread s.contents[0] (List.getElem_mem hpos)
      rw [hnodup.idxOf_getElem 0 hpos] at hfirst
      have hsame : c_nodes[0]? = some s.contents[0] := by
        rcases hfirst with hfirst | ⟨-, hfirst⟩
        · exact hfirst
        · exact hfirst
      have hc0 : c = s.contents[0] := Option.some.inj (hzero.symm.trans hsame)
      rw [hc0, hnodup.idxOf_getElem 0 hpos]
      exact hsame
  · intro h n hn
    have hc : n.param0 ∈ s.contents := mem_contents.mpr ⟨n, hn, rfl⟩
    have hget := h n.param0 hc
    have hid := toNat_ofNat_idxOf hnodup hc
    have hlt : s.contents.idxOf n.param0 < c_nodes.length :=
      (List.getElem?_eq_some_iff.mp hget).1
    rw [resolveNode_of_lt (by simpa only [hid] using hlt), hid, hget]
    rfl

/-- Without an id for any name no node is resolved. -/
theorem resolve_empty {nodes : List MapNode} (h : nodes ≠ []) :
    nodes.mapM (resolveNode []) = none := by
  cases nodes with
  | nil => exact absurd rfl h
  | cons n nodes =>
    rw [List.mapM_cons]
    rfl

/-! ## When the names resolve -/

/-- Where no name is that of a group, each content has to be registered under its own name, and
that is not the one that stands for unknown parts of the map. -/
theorem resolves_iff (hgroup : ∀ c ∈ s.contents,
      NodeDefManager.groupPrefix.isPrefixOf (keptName (ndef.get c).name) = false) :
    Resolves ndef s ↔
      ∀ c ∈ s.contents, (ndef.getId (keptName (ndef.get c).name)).getD CONTENT_AIR = c := by
  have hread : ∀ c ∈ s.contents,
      idsRead ndef c = [(ndef.getId (keptName (ndef.get c).name)).getD CONTENT_AIR] := by
    intro c hc
    rw [idsRead, NodeResolver.idsOf, hgroup c hc]
    cases ndef.getId (keptName (ndef.get c).name) <;> rfl
  have hflat : s.contents.flatMap (idsRead ndef) =
      s.contents.map fun c => (ndef.getId (keptName (ndef.get c).name)).getD CONTENT_AIR := by
    rw [List.map_eq_flatMap]
    exact List.flatMap_congr hread
  rw [Resolves, hflat]
  constructor
  · intro h
    have heq := h.eq_of_length (by rw [List.length_map])
    intro c hc
    obtain ⟨i, hi, rfl⟩ := List.getElem_of_mem hc
    have hget := congrArg (fun l : List Content => l[i]?) heq
    simp only [List.getElem?_map, List.getElem?_eq_getElem hi, Option.map_some] at hget
    exact (Option.some.inj hget).symm
  · intro h
    have hmap : (s.contents.map fun c =>
        (ndef.getId (keptName (ndef.get c).name)).getD CONTENT_AIR) = s.contents := by
      conv_rhs => rw [← List.map_id s.contents]
      exact List.map_congr_left h
    rw [hmap]

end Schematic

/-! The file of a schematic is read back, up to the names: what is captured from the map has a file
that stands for it if and only if it is `Savable`. -/

variable {R : Type} {ndef : NodeDefManager R}

namespace Schematic

variable {cz : Compression} {s s' : Schematic} {data : ByteString}

/-! ## Reading what was written -/

theorem readV3S16_append (p : V3s16) (rest : ByteString) :
    readV3S16 { rest := writeV3S16 p ++ rest } = .ok (p, { rest }) := by
  simp only [readV3S16, writeV3S16, List.append_assoc, streamU16_append, bind, Except.bind, pure,
    Except.pure, Int16.toInt16_toUInt16]

theorem readSlices_append {version : UInt16} (hv : 3 ≤ version) {n : ℕ}
    (l : {l : List UInt8 // l.length = n}) (rest : ByteString) :
    readSlices version n { rest := l.1 ++ rest } = .ok (l, { rest }) := by
  induction n with
  | zero =>
    obtain ⟨l, hl⟩ := l
    obtain rfl := List.length_eq_zero_iff.mp hl
    rfl
  | succ n ih =>
    obtain ⟨l, hl⟩ := l
    cases l with
    | nil => cases hl
    | cons prob l =>
      have hn : l.length = n := by simpa using hl
      rw [readSlices, if_pos hv, List.cons_append, streamU8_append]
      simp only [bind, Except.bind]
      rw [ih ⟨l, hn⟩]
      rfl

theorem writeNames_ok_iff {names : List ByteString} :
    (∃ t, writeNames names = .ok t) ↔ ∀ name ∈ names, name.length ≤ STRING_MAX_LEN := by
  induction names with
  | nil => simp [writeNames]
  | cons name names ih =>
    rw [List.forall_mem_cons, ← ih]
    constructor
    · rintro ⟨t, ht⟩
      obtain ⟨a, ha, ht⟩ := bind_eq_ok.mp ht
      obtain ⟨b, hb, ht⟩ := bind_eq_ok.mp ht
      refine ⟨?_, b, hb⟩
      unfold serializeString16 at ha
      split_ifs at ha with hlen
      exact Nat.not_lt.mp hlen
    · rintro ⟨hlen, b, hb⟩
      refine ⟨_, bind_eq_ok.mpr ⟨_, if_neg (Nat.not_lt.mpr hlen), bind_eq_ok.mpr ⟨b, hb, rfl⟩⟩⟩

theorem readNames_append {names : List ByteString} {t : ByteString} (h : writeNames names = .ok t)
    (before : List ByteString) (cignore : Option Content) (rest : ByteString) :
    ∃ cignore', readNames names.length before cignore { rest := t ++ rest } =
      .ok (before ++ names.map keptName, cignore', { rest }) := by
  induction names generalizing before cignore t with
  | nil =>
    obtain rfl := Except.ok.inj h
    exact ⟨cignore, by simp [readNames]⟩
  | cons name names ih =>
    obtain ⟨a, ha, h⟩ := bind_eq_ok.mp h
    obtain ⟨b, hb, h⟩ := bind_eq_ok.mp h
    obtain rfl := Except.ok.inj h
    simp only [List.length_cons, readNames, List.append_assoc, deSerializeString16_append ha, bind,
      Except.bind]
    by_cases hname : name = bytes "ignore"
    · obtain ⟨cignore', hread⟩ := ih hb (before ++ [bytes "air"]) (some (UInt16.ofNat before.length))
      refine ⟨cignore', ?_⟩
      rw [if_pos hname, hread]
      simp [keptName, hname]
    · obtain ⟨cignore', hread⟩ := ih hb (before ++ [name]) cignore
      refine ⟨cignore', ?_⟩
      rw [if_neg hname, hread]
      simp [keptName, hname]

theorem readNodes_serializeBulk {nodes : List MapNode} (h : nodes.length * 4 < 2 ^ 32) {n : ℕ}
    (hn : nodes.length = n) :
    readNodes { rest := MapNode.serializeBulk nodes } n = .ok ⟨nodes, hn⟩ := by
  subst hn
  have hversion : ¬MTSCHEM_MAPNODE_SER_FMT_VER < 22 := by decide
  have hread := MapNode.deSerializeBulk_append hversion (rfl : nodes.length = nodes.length) []
  rw [List.append_nil] at hread
  unfold readNodes
  rw [if_neg (Nat.not_le.mpr h)]
  split
  · rename_i e he
    cases hread.symm.trans he
  · rename_i nodes' rest he
    obtain ⟨rfl, -⟩ := Prod.ext_iff.mp (Except.ok.inj (hread.symm.trans he))
    rfl

/-! ## The whole file -/

def header (s : Schematic) : ByteString :=
  writeU32 MTSCHEM_FILE_SIGNATURE ++ writeU16 MTSCHEM_FILE_VER_HIGHEST_WRITE ++
    writeV3S16 s.size ++ s.slice_probs

theorem serializeToMts_ok (h : serializeToMts cz s = .ok data) :
    s.schemdata.length * 4 < 2 ^ 32 ∧
      ∃ names nodes, writeNames s.m_nodenames = .ok names ∧
        cz.compress MTSCHEM_MAPNODE_SER_FMT_VER (-1) (MapNode.serializeBulk s.schemdata) =
          .ok nodes ∧
        data = s.header ++ (writeU16 (UInt16.ofNat s.m_nodenames.length) ++ (names ++ nodes)) := by
  obtain ⟨names, hnames, h⟩ := bind_eq_ok.mp h
  obtain ⟨buf, hbuf, h⟩ := bind_eq_ok.mp h
  obtain ⟨nodes, hnodes, hdata⟩ := bind_eq_ok.mp h
  unfold writeNodes at hbuf
  split_ifs at hbuf with hlen
  obtain rfl := Except.ok.inj hbuf
  refine ⟨Nat.not_le.mp hlen, names, nodes, hnames, hnodes, ?_⟩
  rw [← Except.ok.inj hdata]
  simp only [header, List.append_assoc]

theorem exists_serializeToMts (hcz : ∀ s, ∃ t, cz.compress MTSCHEM_MAPNODE_SER_FMT_VER (-1) s = .ok t)
    (hlen : s.schemdata.length * 4 < 2 ^ 32)
    (hshort : ∀ name ∈ s.m_nodenames, name.length ≤ STRING_MAX_LEN) :
    ∃ data, serializeToMts cz s = .ok data := by
  obtain ⟨names, hnames⟩ := writeNames_ok_iff.mpr hshort
  obtain ⟨nodes, hnodes⟩ := hcz (MapNode.serializeBulk s.schemdata)
  exact ⟨_, bind_eq_ok.mpr ⟨names, hnames, bind_eq_ok.mpr
    ⟨_, if_neg (Nat.not_le.mpr hlen), bind_eq_ok.mpr ⟨nodes, hnodes, rfl⟩⟩⟩⟩

structure Sized (size : V3s16) : Prop where
  slices : ¬size.Y < 0
  cells : ¬size.nodecount < 0

variable (cz) in
theorem deserializeFromMts_header (h : Sized s.size) (rest : ByteString) :
    deserializeFromMts cz { rest := s.header ++ rest } =
      (deserializeNodes cz MTSCHEM_FILE_VER_HIGHEST_WRITE s.size ⟨s.slice_probs, s.slices⟩
        { rest }).map some := by
  have hslices : readSlices MTSCHEM_FILE_VER_HIGHEST_WRITE s.size.Y.toInt.toNat
      { rest := s.slice_probs ++ rest } = .ok (⟨s.slice_probs, s.slices⟩, { rest }) :=
    readSlices_append (by decide) ⟨s.slice_probs, s.slices⟩ rest
  simp only [deserializeFromMts, header, List.append_assoc, streamU32_append, streamU16_append,
    readV3S16_append, Except.mapError, bind, Except.bind]
  rw [if_neg (by decide), if_neg (by decide), if_neg h.slices]
  simp only [hslices]
  cases deserializeNodes cz MTSCHEM_FILE_VER_HIGHEST_WRITE s.size ⟨s.slice_probs, s.slices⟩
    { rest } <;> rfl

def asRead (s : Schematic) : Schematic :=
  { NodeResolver.reset false with
    m_nodenames := s.m_nodenames.map keptName
    m_nnlistsizes := [s.m_nodenames.length]
    size := s.size
    schemdata := s.schemdata
    slice_probs := s.slice_probs
    cells := s.cells
    slices := s.slices }

theorem map_fixNode (cignore : Option Content) (nodes : List MapNode) :
    nodes.map (fixNode MTSCHEM_FILE_VER_HIGHEST_WRITE cignore) = nodes := by
  have hfix : fixNode MTSCHEM_FILE_VER_HIGHEST_WRITE cignore = id := by
    funext n
    have h2 : ¬MTSCHEM_FILE_VER_HIGHEST_WRITE < 2 := by decide
    have h4 : ¬MTSCHEM_FILE_VER_HIGHEST_WRITE < 4 := by decide
    simp only [fixNode, h2, h4, if_false, id]
  rw [hfix, List.map_id]

theorem map_fixSlice (probs : List UInt8) :
    probs.map (fixSlice MTSCHEM_FILE_VER_HIGHEST_WRITE) = probs := by
  have hfix : fixSlice MTSCHEM_FILE_VER_HIGHEST_WRITE = id := by
    funext prob
    have h4 : ¬MTSCHEM_FILE_VER_HIGHEST_WRITE < 4 := by decide
    simp only [fixSlice, h4, if_false, id]
  rw [hfix, List.map_id]

theorem deserializeFromMts_serializeToMts (hcz : cz.Lawful) (hsized : Sized s.size)
    (hfew : s.m_nodenames.length < 2 ^ 16) (h : serializeToMts cz s = .ok data) :
    deserializeFromMts cz { rest := data } = .ok (some s.asRead) := by
  obtain ⟨hlen, names, nodes, hnames, hnodes, rfl⟩ := serializeToMts_ok h
  have hcount : (UInt16.ofNat s.m_nodenames.length).toNat = s.m_nodenames.length :=
    UInt16.toNat_ofNat_of_lt' hfew
  obtain ⟨cignore, hread⟩ := readNames_append hnames [] none nodes
  have hbulk := readNodes_serializeBulk hlen s.cells
  have hplain := hcz _ _ _ _ hnodes []
  rw [List.append_nil] at hplain
  rw [deserializeFromMts_header cz hsized]
  simp only [deserializeNodes, streamU16_append, Except.mapError, bind, Except.bind, hcount, hread,
    List.nil_append, hplain, hbulk, if_neg hsized.cells, pure, Except.pure, Except.map, map_fixNode,
    map_fixSlice, List.length_map, asRead]

/-! ## Resolving the names -/

variable (ndef) in
/-- The ids that `resolveNodeNames` finds. -/
def idsFound (s : Schematic) : List Content :=
  (NodeResolver.getIdsFromNrBacklog ndef
    { s.toNodeResolver with m_nodenames_idx := 0, m_nnlistsizes_idx := 0 } true CONTENT_AIR).2.1

variable (ndef) in
theorem resolveNodeNames_eq (s : Schematic) :
    (resolveNodeNames ndef s).map (fun s' => (s'.size, s'.slice_probs, s'.schemdata)) =
      (s.schemdata.mapM (resolveNode (idsFound ndef s))).map fun nodes =>
        (s.size, s.slice_probs, nodes) := by
  unfold resolveNodeNames
  dsimp only
  split
  · rename_i hnone
    have hnone : s.schemdata.mapM (resolveNode (idsFound ndef s)) = none := hnone
    rw [hnone]
    rfl
  · rename_i nodes hnodes
    have hnodes : s.schemdata.mapM (resolveNode (idsFound ndef s)) = some nodes := hnodes
    rw [hnodes]
    rfl

theorem idsFound_asRead (s : Schematic) :
    idsFound ndef s.asRead = s.m_nodenames.flatMap fun name =>
      (NodeResolver.idsOf ndef true CONTENT_AIR (keptName name)).2 := by
  have hids := NodeResolver.getIdsFromNrBacklog_eq ndef true CONTENT_AIR
    (s.m_nodenames.map keptName) false
  rw [List.length_map, List.flatMap_map] at hids
  exact hids

theorem replaceNames_none (s : Schematic) : s.replaceNames (fun _ => none) = s := by
  have hmap : s.m_nodenames.map (fun name => (none : Option ByteString).getD name) =
      s.m_nodenames := List.map_id _
  unfold replaceNames
  rw [hmap]

variable (ndef) in
/-- What a load gives, if the file is read. -/
theorem load_eq {r : Schematic} (h : deserializeFromMts cz { rest := data } = .ok (some r)) :
    loadSchematicFromFile ndef cz (fun _ => none) data =
      (r.resolveNodeNames ndef).elim (.error (.load .outOfBounds)) fun s' => .ok (some s') := by
  unfold loadSchematicFromFile
  rw [h]
  simp only [bind, Except.bind, replaceNames_none]
  cases r.resolveNodeNames ndef <;> rfl

/-! ## The round trip -/

theorem placeOnVManip_congr (h : SameCells s s') {σ : Type} (env : Placing σ) (vm : MMVManip) (g : σ)
    (p : V3pos) (flags : UInt32) (rot : Rotation) (force_place : Bool) :
    s'.placeOnVManip env vm g p flags rot force_place =
      s.placeOnVManip env vm g p flags rot force_place := by
  obtain ⟨hsize, hslices, hnodes⟩ := h
  have hslice : ∀ p rot y st, s'.blitSlice env p rot force_place y st =
      s.blitSlice env p rot force_place y st := by
    intro p rot y st
    simp only [blitSlice, hsize, hslices, hnodes]
  simp only [placeOnVManip, blitToVManip, hsize, hslice]

/-- What every schematic that was captured from the map satisfies, whatever probabilities were
applied to it. -/
structure Ready (s : Schematic) : Prop where
  resolved : s.m_resolve_done = true
  sized : Sized s.size

theorem length_condensed (ndef : NodeDefManager R) (s : Schematic) :
    (s.condenseContentIds ndef).schemdata.length = s.schemdata.length :=
  length_condenseLoop ndef s.schemdata {}

/-- The ids that are found for a condensed schematic. -/
theorem idsFound_condensed (s : Schematic) :
    idsFound ndef (s.condenseContentIds ndef).asRead = s.contents.flatMap (idsRead ndef) := by
  rw [idsFound_asRead, m_nodenames_condenseContentIds, List.flatMap_map]
  rfl

theorem loads_iff_resolves (hcz : cz.Lawful) (h : Ready s) (hfew : s.contents.length < 2 ^ 16)
    (hdata : serializeToMts cz (s.condenseContentIds ndef) = .ok data) :
    (∃ s', loadSchematicFromFile ndef cz (fun _ => none) data = .ok (some s') ∧ SameCells s s') ↔
      Resolves ndef s := by
  have hsized : Sized (s.condenseContentIds ndef).size := h.sized
  have hnames : (s.condenseContentIds ndef).m_nodenames.length < 2 ^ 16 := by
    rw [m_nodenames_condenseContentIds, List.length_map]
    exact hfew
  have hread := load_eq ndef (deserializeFromMts_serializeToMts hcz hsized hnames hdata)
  have hres := resolveNodeNames_eq ndef (s.condenseContentIds ndef).asRead
  have hcells : (s.condenseContentIds ndef).asRead.schemdata =
      s.schemdata.map fun n => { n with param0 := UInt16.ofNat (s.contents.idxOf n.param0) } :=
    schemdata_condenseContentIds ndef s
  rw [idsFound_condensed, hcells] at hres
  rw [Resolves, ← resolve_condensed_iff, hread]
  constructor
  · rintro ⟨s', hload, hsize, hslices, hnodes⟩
    cases hr : (s.condenseContentIds ndef).asRead.resolveNodeNames ndef with
    | none =>
      rw [hr] at hload
      cases hload
    | some r =>
      rw [hr] at hload hres
      obtain rfl := Option.some.inj (Except.ok.inj hload)
      obtain ⟨nodes, hnodes', heq⟩ := Option.map_eq_some_iff.mp hres.symm
      rw [hnodes', ← hnodes]
      exact congrArg some (congrArg (fun x => x.2.2) heq)
  · intro hnodes
    rw [hnodes] at hres
    obtain ⟨r, hr, heq⟩ := Option.map_eq_some_iff.mp hres
    rw [hr]
    exact ⟨r, rfl, congrArg (fun x => x.1) heq, congrArg (fun x => x.2.1) heq,
      congrArg (fun x => x.2.2) heq⟩

/-- A file whose count of names is 0 has no names. -/
theorem names_of_count_zero {version : UInt16} {size : V3s16}
    {slices : {l : List UInt8 // l.length = size.Y.toInt.toNat}} {rest : ByteString} {r : Schematic}
    (h : deserializeNodes cz version size slices { rest := writeU16 0 ++ rest } = .ok r) :
    r.m_nodenames = [] ∧ r.m_nnlistsizes = [0] ∧ r.size = size := by
  simp only [deserializeNodes, streamU16_append, Except.mapError, bind, Except.bind,
    show (0 : UInt16).toNat = 0 from rfl, readNames] at h
  split_ifs at h
  split at h
  · cases h
  · split at h
    · cases h
    · obtain rfl := Except.ok.inj h
      exact ⟨rfl, rfl, rfl⟩

/-- With as many contents as there are ids the count of names is 0, and nothing resolves. -/
theorem not_loads_of_full (h : Ready s) (hfull : ¬s.contents.length < 2 ^ 16)
    (hdata : serializeToMts cz (s.condenseContentIds ndef) = .ok data) :
    ¬∃ s', loadSchematicFromFile ndef cz (fun _ => none) data = .ok (some s') := by
  rintro ⟨s', hload⟩
  have hle := length_le_of_nodup s.nodup_contents
  have hlen : (s.condenseContentIds ndef).m_nodenames.length = 65536 := by
    rw [m_nodenames_condenseContentIds, List.length_map]
    omega
  have hsized : Sized (s.condenseContentIds ndef).size := h.sized
  obtain ⟨-, names, nodes, -, -, rfl⟩ := serializeToMts_ok hdata
  have hread := deserializeFromMts_header cz hsized
    (writeU16 (UInt16.ofNat (s.condenseContentIds ndef).m_nodenames.length) ++ (names ++ nodes))
  rw [hlen, show UInt16.ofNat 65536 = 0 from rfl] at hread hload
  cases hr : deserializeNodes cz MTSCHEM_FILE_VER_HIGHEST_WRITE (s.condenseContentIds ndef).size
      ⟨(s.condenseContentIds ndef).slice_probs, (s.condenseContentIds ndef).slices⟩
      { rest := writeU16 0 ++ (names ++ nodes) } with
  | error e =>
    rw [hr] at hread
    rw [loadSchematicFromFile, hread] at hload
    cases hload
  | ok r =>
    rw [hr] at hread
    obtain ⟨hn, hsizes, hsize⟩ := names_of_count_zero hr
    rw [load_eq ndef hread] at hload
    have hids : idsFound ndef r = [] := by
      unfold idsFound
      simp only [NodeResolver.getIdsFromNrBacklog, hsizes, List.getElem?_cons_zero]
      rfl
    have hne : r.schemdata ≠ [] := by
      intro hnil
      have hcells := r.cells
      have hcells' := s.cells
      have hsize' : r.size = s.size := hsize
      rw [hnil, hsize', ← hcells', List.length_nil] at hcells
      have hnone : s.schemdata = [] := List.length_eq_zero_iff.mp hcells.symm
      have hzero : s.contents.length = 0 := by
        rw [contents, hnone]
        rfl
      omega
    have hres := resolveNodeNames_eq ndef r
    rw [hids, resolve_empty hne, Option.map_none, Option.map_eq_none_iff] at hres
    rw [hres] at hload
    cases hload

theorem roundTrips_iff_savable (hcz : cz.Lawful)
    (hcompress : ∀ data, ∃ t, cz.compress MTSCHEM_MAPNODE_SER_FMT_VER (-1) data = .ok t)
    (h : Ready s) : RoundTrips ndef cz s ↔ Savable ndef s := by
  have hsave : s.saveSchematicToFile ndef cz = serializeToMts cz (s.condenseContentIds ndef) := by
    rw [saveSchematicToFile, h.resolved, if_pos rfl]
  have hshort : (∀ name ∈ (s.condenseContentIds ndef).m_nodenames, name.length ≤ STRING_MAX_LEN) ↔
      ∀ c ∈ s.contents, (ndef.get c).name.length ≤ STRING_MAX_LEN := by
    rw [m_nodenames_condenseContentIds, List.forall_mem_map]
  constructor
  · rintro ⟨data, s', hdata, hload, hsame, -⟩
    rw [hsave] at hdata
    obtain ⟨hlen, names, nodes, hnames, -⟩ := serializeToMts_ok hdata
    rw [length_condensed] at hlen
    have hfew : s.contents.length < 2 ^ 16 := by
      by_contra hfull
      exact not_loads_of_full h hfull hdata ⟨s', hload⟩
    exact ⟨by omega, hfew, hshort.mp (writeNames_ok_iff.mp ⟨names, hnames⟩),
      (loads_iff_resolves hcz h hfew hdata).mp ⟨s', hload, hsame⟩⟩
  · intro hs
    have hlen : (s.condenseContentIds ndef).schemdata.length * 4 < 2 ^ 32 := by
      have := hs.fits
      rw [length_condensed]
      omega
    obtain ⟨data, hdata⟩ := exists_serializeToMts hcompress hlen (hshort.mpr hs.short)
    obtain ⟨s', hload, hsame⟩ := (loads_iff_resolves hcz h hs.few hdata).mpr hs.resolves
    exact ⟨data, s', hsave.trans hdata, hload, hsame, fun _ env vm g p flags rot force_place =>
      placeOnVManip_congr hsame env vm g p flags rot force_place⟩

/-! ## Captured regions -/

theorem ready_of_capture {vm : V3pos → MapNode} {p1 p2 : V3pos}
    (h : getSchematicFromMap vm p1 p2 = some s) : Ready s := by
  unfold getSchematicFromMap at h
  dsimp only at h
  split_ifs at h with hsize
  obtain rfl := Option.some.inj h
  refine ⟨rfl, ⟨?_, ?_⟩⟩
  · rw [Int16.lt_iff_toInt_lt]
    simp only [toInt_ofInt hsize.1.2.1]
    have := hsize.1.2.1.1
    exact Int.not_lt.mpr (by
      show (0 : ℤ) ≤ _
      omega)
  · simp only [V3s16.nodecount, toInt_ofInt hsize.1.1, toInt_ofInt hsize.1.2.1,
      toInt_ofInt hsize.1.2.2]
    obtain ⟨⟨hx, hy, hz⟩, -⟩ := hsize
    exact Int.not_lt.mpr (Int.mul_nonneg (Int.mul_nonneg (by omega) (by omega)) (by omega))

theorem Ready.applyProbability {p0 : V3pos} {e : V3pos × UInt8} (h : Ready s)
    (hs : applyProbability p0 s e = some s') : Ready s' := by
  obtain ⟨index, -, hs⟩ := Option.bind_eq_some_iff.mp hs
  obtain ⟨nodecount, -, hs⟩ := Option.bind_eq_some_iff.mp hs
  split at hs
  · split at hs
    · cases hs
    · obtain rfl := Option.some.inj hs
      exact ⟨h.resolved, h.sized⟩
  · obtain rfl := Option.some.inj hs
    exact h

theorem Ready.applySliceProbability {e : Int16 × UInt8} (h : Ready s)
    (hs : applySliceProbability s e = some s') : Ready s' := by
  unfold Schematic.applySliceProbability at hs
  split_ifs at hs
  · obtain rfl := Option.some.inj hs
    exact ⟨h.resolved, h.sized⟩
  · obtain rfl := Option.some.inj hs
    exact h

theorem foldlM_invariant {α β : Type} {P : β → Prop} {f : β → α → Option β}
    (hf : ∀ b a b', P b → f b a = some b' → P b') {l : List α} {b b' : β} (hb : P b)
    (h : l.foldlM f b = some b') : P b' := by
  induction l generalizing b with
  | nil =>
    obtain rfl := Option.some.inj h
    exact hb
  | cons a l ih =>
    rw [List.foldlM_cons] at h
    obtain ⟨c, hc, h⟩ := Option.bind_eq_some_iff.mp h
    exact ih (hf b a c hb hc) h

theorem Ready.applyProbabilities {p0 : V3pos} {plist : List (V3pos × UInt8)}
    {splist : List (Int16 × UInt8)} (h : Ready s)
    (hs : s.applyProbabilities p0 plist splist = some s') : Ready s' := by
  obtain ⟨t, ht, hs⟩ := Option.bind_eq_some_iff.mp hs
  have hready := foldlM_invariant (fun b a b' hb hb' => Ready.applyProbability hb hb') h ht
  exact foldlM_invariant (fun b a b' hb hb' => Ready.applySliceProbability hb hb') hready hs

def stoneDefs : NodeDefManager Unit :=
  ((NodeDefManager.clear ⟨(), (), (), ()⟩).addNameIdMapping 1 (bytes "stone")).setFeatures 1
    { NodeDef.ContentFeatures.reset () with name := bytes "stone" }

def stoneAndAir (p : V3pos) : MapNode := if p.X < 1 then ⟨1, 15, 3⟩ else ⟨CONTENT_AIR, 15, 0⟩

theorem compress_storedOnly (data : ByteString) : ∃ t,
    Block.storedOnly.compress MTSCHEM_MAPNODE_SER_FMT_VER (-1) data = .ok t := ⟨_, rfl⟩

end Schematic

end Freeminer.Mapgen
