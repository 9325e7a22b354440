import Freeminer.Lib.Result
import Freeminer.NodeDef.Registry

/-! A client gets the node definitions that are registered, when no registered node was removed. -/

namespace Freeminer.NodeDef

open Lib
open Block (Content CONTENT_UNKNOWN CONTENT_AIR CONTENT_IGNORE)

variable {R : Type} {m : NodeDefManager R} {s s' : Registry R} {builtin : Builtin R}
  {codec : FeaturesCodec R} {id : Content} {name : ByteString} {f g : ContentFeatures R}
  {r : Content × NodeDefManager R}

theorem exists_of_forall₂ {α β : Type} {T : α → β → Prop} {as : List α} {bs : List β}
    (h : List.Forall₂ T as bs) :
    (∀ a ∈ as, ∃ b ∈ bs, T a b) ∧ ∀ b ∈ bs, ∃ a ∈ as, T a b := by
  induction h with
  | nil => exact ⟨fun _ h => absurd h List.not_mem_nil, fun _ h => absurd h List.not_mem_nil⟩
  | @cons a b as bs hab _ ih =>
    constructor
    · intro a' ha'
      cases ha' with
      | head => exact ⟨b, List.mem_cons_self, hab⟩
      | tail _ ha' =>
        obtain ⟨b', hb', hT⟩ := ih.1 a' ha'
        exact ⟨b', List.mem_cons_of_mem _ hb', hT⟩
    · intro b' hb'
      cases hb' with
      | head => exact ⟨a, List.mem_cons_self, hab⟩
      | tail _ hb' =>
        obtain ⟨a', ha', hT⟩ := ih.2 b' hb'
        exact ⟨a', List.mem_cons_of_mem _ ha', hT⟩

namespace NodeDefManager

/-! ## The text -/

theorem toNat_ofNat_of_lt {n : ℕ} (hn : n < 65536) : (UInt16.ofNat n).toNat = n :=
  UInt16.toNat_ofNat_of_lt' hn

theorem mem_sent (hsize : m.size ≤ 65536) :
    (id, f) ∈ m.sent ↔ id.toNat < m.size ∧ isBuiltin id = false ∧
      m.m_content_features id = f ∧ f.name ≠ [] := by
  unfold sent
  rw [List.mem_filterMap]
  constructor
  · intro ⟨i, hi, h⟩
    split_ifs at h with hskip
    obtain ⟨n, hn, rfl⟩ := List.mem_map.mp hi
    rw [List.mem_range] at hn
    injection h with h
    injection h with hid hf
    subst hid hf
    rw [not_or, Bool.not_eq_true] at hskip
    refine ⟨?_, hskip.1, rfl, hskip.2⟩
    rw [toNat_ofNat_of_lt (by omega)]
    exact hn
  · intro ⟨hid, hbuiltin, hf, hname⟩
    refine ⟨id, List.mem_map.mpr ⟨id.toNat, List.mem_range.mpr hid, UInt16.ofNat_toNat⟩, ?_⟩
    rw [if_neg, hf]
    rw [not_or, hf]
    exact ⟨by simp [hbuiltin], hname⟩

theorem nodup_sent (hsize : m.size ≤ 65536) : (m.sent.map (·.1)).Nodup := by
  have hids : ((List.range m.size).map UInt16.ofNat).Nodup := by
    refine (List.nodup_map_iff_inj_on List.nodup_range).mpr fun a ha b hb heq => ?_
    rw [List.mem_range] at ha hb
    have h := congrArg UInt16.toNat heq
    rwa [toNat_ofNat_of_lt (by omega), toNat_ofNat_of_lt (by omega)] at h
  have hsub : (m.sent.map (·.1)).Sublist ((List.range m.size).map UInt16.ofNat) := by
    unfold sent
    rw [List.map_filterMap]
    generalize (List.range m.size).map UInt16.ofNat = ids
    induction ids with
    | nil => exact List.Sublist.slnil
    | cons i ids ih =>
      rw [List.filterMap_cons]
      split_ifs with hskip
      · exact ih.cons i
      · exact ih.cons_cons i
  exact hids.sublist hsub

theorem length_sent (hsize : m.size ≤ 65536) : m.sent.length < 65536 := by
  have hnew : CONTENT_IGNORE ∉ m.sent.map (·.1) := by
    intro hmem
    obtain ⟨⟨i, f⟩, hmem, hi⟩ := List.mem_map.mp hmem
    have hbuiltin := ((mem_sent hsize).mp hmem).2.1
    have hi : i = CONTENT_IGNORE := hi
    subst hi
    exact absurd hbuiltin (by decide)
  have hnodup : ((CONTENT_IGNORE :: m.sent.map (·.1)).map UInt16.toNat).Nodup :=
    (List.nodup_cons.mpr ⟨hnew, nodup_sent hsize⟩).map fun _ _ => UInt16.toNat_inj.mp
  have hsub : (CONTENT_IGNORE :: m.sent.map (·.1)).map UInt16.toNat ⊆ List.range 65536 := by
    intro n hn
    obtain ⟨i, -, rfl⟩ := List.mem_map.mp hn
    exact List.mem_range.mpr i.toNat_lt
  have hlen := (hnodup.subperm hsub).length_le
  rw [List.length_map, List.length_cons, List.length_map, List.length_range] at hlen
  exact hlen

/-- Entries are read as what was sent of them, and the client goes through them in their order. -/
theorem deSerializeLoop_entries {es : List (Content × ContentFeatures R)} {chunks : List ByteString}
    (h : es.mapM (serializeEntry codec) = .ok chunks) (old : ContentFeatures R)
    (m : NodeDefManager R) :
    ∃ gs : List (Content × ContentFeatures R), List.Forall₂ (fun e e' => e'.1 = e.1 ∧ codec.Same e.2 e'.2) es gs ∧
      deSerializeLoop codec es.length { rest := chunks.flatten } old m =
        .ok (gs.foldl (fun m e => m.acceptEntry e.1 e.2) m) := by
  induction es generalizing chunks old m with
  | nil => exact ⟨[], .nil, rfl⟩
  | cons e es ih =>
    rw [List.mapM_cons] at h
    obtain ⟨chunk, hchunk, h⟩ := bind_eq_ok.mp h
    obtain ⟨chunks', hchunks, h⟩ := bind_eq_ok.mp h
    injection h with h
    subst h
    obtain ⟨wrapper, hwrapper, hchunk⟩ := bind_eq_ok.mp hchunk
    obtain ⟨data, hdata, hchunk⟩ := bind_eq_ok.mp hchunk
    injection hchunk with hchunk
    subst hchunk
    obtain ⟨g, hg, hsame⟩ := codec.deSerialize_serialize e.2 wrapper hwrapper old
    obtain ⟨gs, hgs, hloop⟩ := ih hchunks g (m.acceptEntry e.1 g)
    refine ⟨(e.1, g) :: gs, .cons ⟨rfl, hsame⟩ hgs, ?_⟩
    rw [List.length_cons, List.flatten_cons, deSerializeLoop, List.append_assoc, streamU16_append]
    dsimp only [bind, Except.bind]
    rw [deSerializeString16_append hdata]
    dsimp only
    rw [hg]
    exact hloop

/-! ## The client -/

structure Client (builtin : Builtin R) (m : NodeDefManager R)
    (es : List (Content × ContentFeatures R)) : Prop where
  aliases : m.m_name_id_mapping_with_aliases = m.m_name_to_id
  engine : ∀ name ∈ Registry.builtinNames, m.m_name_to_id name = (clear builtin).m_name_to_id name
  known : ∀ name ∉ Registry.builtinNames, ∀ id,
    m.m_name_to_id name = some id ↔ ∃ g, (id, g) ∈ es ∧ g.name = name
  features : ∀ id g, (id, g) ∈ es → g.name ∉ Registry.builtinNames →
    m.m_content_features id = g.withFloats

theorem client_clear (builtin : Builtin R) : Client builtin (clear builtin) [] where
  aliases := Registry.aliases_clear builtin
  engine _ _ := rfl
  known name hname id := by
    rw [Registry.m_name_to_id_clear]
    have hne : ∀ b ∈ Registry.builtinNames, name ≠ b := fun b hb heq => hname (heq ▸ hb)
    rw [if_neg (hne _ (by decide)), if_neg (hne _ (by decide)), if_neg (hne _ (by decide))]
    simp
  features id g h := by cases h

theorem engine_id (builtin : Builtin R) (h : name ∈ Registry.builtinNames) :
    ∃ id, isBuiltin id = true ∧ (clear builtin).m_name_to_id name = some id := by
  rw [Registry.m_name_to_id_clear]
  simp only [Registry.builtinNames, List.mem_cons, List.not_mem_nil, or_false] at h
  obtain rfl | rfl | rfl := h
  · exact ⟨125, by decide, by decide⟩
  · exact ⟨126, by decide, by decide⟩
  · exact ⟨127, by decide, by decide⟩

theorem Client.acceptEntry {es : List (Content × ContentFeatures R)} (h : Client builtin m es)
    (hid : isBuiltin id = false) (hname : g.name ≠ []) (hnew : ∀ e ∈ es, e.1 ≠ id)
    (hone : ∀ e ∈ es, e.2.name = g.name → g.name ∈ Registry.builtinNames) :
    Client builtin (m.acceptEntry id g) (es ++ [(id, g)]) := by
  unfold NodeDefManager.acceptEntry
  rw [if_neg (by simp [hid]), if_neg hname]
  by_cases hengine : g.name ∈ Registry.builtinNames
  · -- another content has the name on the client
    obtain ⟨b, hb, hmap⟩ := engine_id builtin hengine
    rw [← h.engine g.name hengine] at hmap
    have hne : id ≠ b := by
      intro heq
      rw [heq, hb] at hid
      cases hid
    rw [if_pos ⟨b, hmap, hne⟩]
    refine { aliases := h.aliases, engine := h.engine, known := ?_, features := ?_ }
    · intro name hname' id'
      rw [h.known name hname']
      refine exists_congr fun g' => ?_
      rw [List.mem_append, List.mem_singleton]
      constructor
      · intro ⟨hmem, hg'⟩
        exact ⟨.inl hmem, hg'⟩
      · intro ⟨hmem, hg'⟩
        refine ⟨hmem.resolve_right fun heq => ?_, hg'⟩
        injection heq with _ heq
        rw [← hg', heq] at hname'
        exact hname' hengine
    · intro id' g' hmem hg'
      rw [List.mem_append, List.mem_singleton] at hmem
      cases hmem with
      | inl hmem => exact h.features id' g' hmem hg'
      | inr heq =>
        injection heq with _ heq
        rw [heq] at hg'
        exact absurd hengine hg'
  · have hnone : m.m_name_to_id g.name = none := by
      refine Option.eq_none_iff_forall_ne_some.mpr fun id' hid' => ?_
      obtain ⟨g', hmem, hg'⟩ := (h.known g.name hengine id').mp hid'
      exact hengine (hone _ hmem hg')
    rw [if_neg]
    · have hmap : ∀ name, Function.update m.m_name_to_id g.name (some id) name =
          if name = g.name then some id else m.m_name_to_id name :=
        fun _ => Function.update_apply _ _ _ _
      refine { aliases := ?_, engine := ?_, known := ?_, features := ?_ }
      · unfold NodeDefManager.addNameIdMapping NodeDefManager.setFeatures
        dsimp only
        rw [h.aliases, if_pos hnone]
      · intro name hname'
        have hne : name ≠ g.name := fun heq => hengine (heq ▸ hname')
        unfold NodeDefManager.addNameIdMapping NodeDefManager.setFeatures
        dsimp only
        rw [hmap, if_neg hne]
        exact h.engine name hname'
      · intro name hname' id'
        unfold NodeDefManager.addNameIdMapping NodeDefManager.setFeatures
        dsimp only
        rw [hmap]
        simp only [List.mem_append, List.mem_singleton]
        by_cases heq : name = g.name
        · rw [if_pos heq]
          constructor
          · intro hid'
            exact ⟨g, .inr (by rw [Option.some.inj hid']), heq.symm⟩
          · intro ⟨g', hmem, hg'⟩
            cases hmem with
            | inl hmem => exact absurd (hone _ hmem (hg'.trans heq)) hengine
            | inr hmem =>
              injection hmem with hid' _
              rw [hid']
        · rw [if_neg heq, h.known name hname']
          refine exists_congr fun g' => and_congr_left fun hg' => ?_
          refine (or_iff_left fun hmem => heq ?_).symm
          injection hmem with _ hg
          rw [← hg', hg]
      · intro id' g' hmem hg'
        rw [List.mem_append, List.mem_singleton] at hmem
        have hfeature : ((m.setFeatures id g.withFloats).addNameIdMapping id
            g.name).m_content_features id' =
              if id' = id then g.withFloats else m.m_content_features id' :=
          Function.update_apply _ _ _ _
        rw [hfeature]
        cases hmem with
        | inl hmem =>
          rw [if_neg (hnew _ hmem)]
          exact h.features id' g' hmem hg'
        | inr hmem =>
          injection hmem with hid' hg
          rw [if_pos hid', hg]
    · intro ⟨existing_id, hexisting, _⟩
      rw [hnone] at hexisting
      cases hexisting

/-- Entries with different ids, whose names are different apart from those of the engine. -/
theorem Client.foldl {es : List (Content × ContentFeatures R)} (h : Client builtin m es)
    (gs : List (Content × ContentFeatures R)) (hids : ((es ++ gs).map (·.1)).Nodup)
    (hgs : ∀ e ∈ gs, isBuiltin e.1 = false ∧ e.2.name ≠ [])
    (hone : ∀ e ∈ es ++ gs, ∀ e' ∈ es ++ gs, e.2.name = e'.2.name →
      e.1 = e'.1 ∨ e.2.name ∈ Registry.builtinNames) :
    Client builtin (gs.foldl (fun m e => m.acceptEntry e.1 e.2) m) (es ++ gs) := by
  induction gs generalizing es m with
  | nil => simpa using h
  | cons e gs ih =>
    have hassoc : es ++ e :: gs = (es ++ [e]) ++ gs := by simp
    have hmem : e ∈ es ++ e :: gs := by simp
    have hnew : ∀ e' ∈ es, e'.1 ≠ e.1 := by
      intro e' he' heq
      rw [List.map_append, List.map_cons, List.nodup_append] at hids
      exact hids.2.2 _ (List.mem_map_of_mem he') _ List.mem_cons_self heq
    have hhead := hgs e List.mem_cons_self
    rw [List.foldl_cons]
    rw [hassoc] at hids hone ⊢
    refine ih (h.acceptEntry hhead.1 hhead.2 hnew fun e' he' heq => ?_) hids
      (fun e' he' => hgs e' (List.mem_cons_of_mem _ he')) hone
    have hor := hone e' (by simp [he']) e (by simp) heq
    exact heq ▸ hor.resolve_left (hnew e' he')

end NodeDefManager

/-! ## Runs without removal -/

namespace Registry

/-- Every content with a name is a registered node, apart from those of the engine. -/
structure Live (s : Registry R) : Prop where
  sound : s.Sound
  engine : ∀ id, isBuiltin id = true →
    s.used id ∧ (s.manager.m_content_features id).name ∈ builtinNames
  live : ∀ id, isBuiltin id = false → (s.manager.m_content_features id).name ≠ [] →
    (s.manager.m_content_features id).name ∈ builtinNames ∨
      s.nodes (s.manager.m_content_features id).name =
        some (id, s.manager.m_content_features id)
  size : ∀ name id f, s.nodes name = some (id, f) → id.toNat < s.manager.size

theorem ne_nil_of_builtin (h : name ∈ builtinNames) : name ≠ [] := by
  intro heq
  subst heq
  exact absurd h (by decide)

theorem features_clear (builtin : Builtin R) (hid : isBuiltin id = false) (hzero : id ≠ 0) :
    (NodeDefManager.clear builtin).m_content_features id = .reset builtin.reset := by
  have hne := mt isBuiltin_iff.mpr (Bool.eq_false_iff.mp hid)
  rw [not_or, not_or] at hne
  simp only [NodeDefManager.clear, NodeDefManager.setFeatures, NodeDefManager.addNameIdMapping,
    Function.update_apply, CONTENT_IGNORE, CONTENT_AIR, CONTENT_UNKNOWN]
  rw [if_neg hzero, if_neg hne.1, if_neg hne.2.1, if_neg hne.2.2]

theorem live_init (builtin : Builtin R) : Live { manager := .clear builtin } where
  sound := sound_init builtin
  engine id hid := by
    obtain ⟨hunknown, hair, hignore, -⟩ := names_clear builtin
    refine ⟨.inl hid, ?_⟩
    dsimp only
    obtain rfl | rfl | rfl := isBuiltin_iff.mp hid
    · rw [hignore]
      exact (by decide : bytes "ignore" ∈ builtinNames)
    · rw [hair]
      exact (by decide : bytes "air" ∈ builtinNames)
    · rw [hunknown]
      exact (by decide : bytes "unknown" ∈ builtinNames)
  live id hid hname := by
    refine .inl ?_
    dsimp only at hname ⊢
    by_cases hzero : id = 0
    · subst hzero
      obtain ⟨-, -, -, h, -⟩ := names_clear builtin
      rw [h]
      exact (by decide : bytes "ignore" ∈ builtinNames)
    · rw [features_clear builtin hid hzero] at hname
      exact absurd rfl hname
  size name id f h := by cases h

theorem Live.set (h : s.Live) (hset : s.manager.set name f = some r) :
    (s.registered name f r).Live := by
  obtain ⟨r', hr', hsound, hcases⟩ := h.sound.set name f
  obtain rfl := Option.some.inj (hr'.symm.trans hset)
  obtain ⟨hignore, n, hn, hr⟩ | ⟨hid, hfree, hname, hne, hgrow, hlt, hfeatures⟩ := hcases
  · unfold registered at hsound ⊢
    rw [if_pos hignore, hr] at hsound ⊢
    exact
      { sound := hsound, engine := h.engine, live := h.live
        size := fun name id f hnode => Nat.lt_of_lt_of_le (h.size name id f hnode) hn }
  · have hfeature : ∀ id', r'.2.m_content_features id' =
        if id' = r'.1 then f.withFloats else s.manager.m_content_features id' := by
      intro id'
      rw [hfeatures]
      exact Function.update_apply _ _ _ _
    have hnodes : ∀ name', Function.update s.nodes name (some (r'.1, f.withFloats)) name' =
        if name' = name then some (r'.1, f.withFloats) else s.nodes name' :=
      fun _ => Function.update_apply _ _ _ _
    unfold registered at hsound ⊢
    rw [if_neg hid] at hsound ⊢
    have hfname : f.withFloats.name = name := hname
    refine { sound := hsound, engine := ?_, live := ?_, size := ?_ }
    · intro id' hbuiltin
      obtain ⟨hused, hmem⟩ := h.engine id' hbuiltin
      refine ⟨.inl hused, ?_⟩
      dsimp only
      rw [hfeature]
      split_ifs with heq
      · subst heq
        rw [hfname]
        cases hfree with
        | inl hmapped => exact (h.sound.named name _ hmapped).1 ▸ hmem
        | inr hempty =>
          rw [hempty.2] at hmem
          exact absurd rfl (ne_nil_of_builtin hmem)
      · exact hmem
    · intro id' hbuiltin hname'
      dsimp only at hname' ⊢
      rw [hfeature] at hname' ⊢
      split_ifs at hname' ⊢ with heq
      · subst heq
        rw [hfname, hnodes, if_pos rfl]
        exact .inr rfl
      · refine (h.live id' hbuiltin hname').imp_right fun hnode => ?_
        rw [hnodes, if_neg, hnode]
        intro hsame
        rw [hsame] at hnode
        have hmapped := (h.sound.nodes name id' _ hnode).1
        cases hfree with
        | inl hfree => exact heq (Option.some.inj (hmapped.symm.trans hfree))
        | inr hempty =>
          rw [hempty.1] at hmapped
          cases hmapped
    · intro name' id' f' hnode
      dsimp only at hnode ⊢
      rw [hnodes] at hnode
      split_ifs at hnode with heq
      · rw [Option.some.injEq, Prod.mk.injEq] at hnode
        exact hnode.1 ▸ hlt
      · exact Nat.lt_of_lt_of_le (h.size name' id' f' hnode) hgrow

theorem Live.removeNode (h : s.Live) (hok : name ∈ builtinNames ∨ s.nodes name = none) :
    Live { s with
      manager := s.manager.removeNode name
      nodes := Function.update s.nodes name none } := by
  have hfeatures : (s.manager.removeNode name).m_content_features = s.manager.m_content_features := by
    unfold NodeDefManager.removeNode
    split <;> rfl
  have hsize : (s.manager.removeNode name).size = s.manager.size := by
    unfold NodeDefManager.removeNode
    split <;> rfl
  have hnodes : ∀ name', Function.update s.nodes name none name' =
      if name' = name then none else s.nodes name' := fun _ => Function.update_apply _ _ _ _
  refine { sound := h.sound.removeNode name, engine := ?_, live := ?_, size := ?_ }
  · dsimp only
    rw [hfeatures]
    exact h.engine
  · dsimp only
    rw [hfeatures]
    intro id hid hname
    by_cases heq : (s.manager.m_content_features id).name = name
    · refine .inl ?_
      cases h.live id hid hname with
      | inl hbuiltin => exact hbuiltin
      | inr hnode =>
        rw [heq] at hnode ⊢
        refine hok.resolve_right fun hnone => ?_
        rw [hnone] at hnode
        cases hnode
    · rw [hnodes, if_neg heq]
      exact h.live id hid hname
  · intro name' id f hnode
    dsimp only at hnode ⊢
    rw [hnodes] at hnode
    split_ifs at hnode
    rw [hsize]
    exact h.size name' id f hnode

theorem live_run (h : (system builtin).Run Keeps s) : s.Live := by
  refine h.invariant (fun s h0 => ?_) fun s op s' h hok hs => ?_
  · have h0 : s = { manager := .clear builtin } := h0
    exact h0 ▸ live_init builtin
  · cases op with
    | set name f =>
      obtain ⟨r, hr, rfl⟩ := Option.map_eq_some_iff.mp hs
      exact h.set hr
    | allocateDummy name =>
      obtain ⟨r, hr, rfl⟩ := Option.map_eq_some_iff.mp hs
      unfold NodeDefManager.allocateDummy at hr
      split_ifs at hr
      · injection hr with hr
        subst hr
        have hsame : s.registered name { ContentFeatures.reset builtin.reset with name }
            (CONTENT_IGNORE, s.manager) = s := if_pos rfl
        rw [hsame]
        exact h
      · exact h.set hr
    | removeNode name =>
      injection hs with hs
      exact hs ▸ h.removeNode hok

/-- What is sent under a name that is not the engine's is what is registered under it. -/
theorem Live.mem_sent (h : s.Live) (hname : name ∉ builtinNames) (id : Content)
    (f : ContentFeatures R) :
    (id, f) ∈ s.manager.sent ∧ f.name = name ↔ s.nodes name = some (id, f) := by
  rw [NodeDefManager.mem_sent h.sound.size_le]
  constructor
  · intro ⟨⟨_, hbuiltin, hf, hne⟩, hfname⟩
    subst hf
    have hnode := (h.live id hbuiltin hne).resolve_left (hfname ▸ hname)
    rwa [hfname] at hnode
  · intro hnode
    obtain ⟨hmapped, hf⟩ := h.sound.nodes name id f hnode
    obtain ⟨hfname, hused⟩ := h.sound.named name id hmapped
    rw [hf] at hfname
    have hne := h.sound.used_named id hused
    rw [hf] at hne
    refine ⟨⟨h.size name id f hnode, ?_, hf, hne⟩, hfname⟩
    rw [Bool.eq_false_iff]
    intro hbuiltin
    have hmem := (h.engine id hbuiltin).2
    rw [hf, hfname] at hmem
    exact hname hmem

/-- The text that is sent is read as entries that are the same. -/
theorem Live.deSerialize (h : s.Live) {data : ByteString}
    (hdata : s.manager.serialize codec = .ok data) (builtin : Builtin R) :
    ∃ gs : List (Content × ContentFeatures R),
      List.Forall₂ (fun e e' => e'.1 = e.1 ∧ codec.Same e.2 e'.2) s.manager.sent gs ∧
      NodeDefManager.deSerialize builtin codec data =
        .ok (gs.foldl (fun m e => m.acceptEntry e.1 e.2) (NodeDefManager.clear builtin)) := by
  obtain ⟨chunks, hchunks, hdata⟩ := bind_eq_ok.mp hdata
  obtain ⟨os2, hos2, hdata⟩ := bind_eq_ok.mp hdata
  injection hdata with hdata
  subst hdata
  obtain ⟨gs, hgs, hloop⟩ := NodeDefManager.deSerializeLoop_entries hchunks
    (.reset builtin.reset) (NodeDefManager.clear builtin)
  refine ⟨gs, hgs, ?_⟩
  have hcount := NodeDefManager.toNat_ofNat_of_lt (NodeDefManager.length_sent h.sound.size_le)
  have hos2' := deSerializeString32_append hos2 []
  rw [List.append_nil] at hos2'
  unfold NodeDefManager.deSerialize
  rw [List.cons_append, streamU8_append]
  dsimp only [bind, Except.bind]
  rw [if_neg (by decide), streamU16_append]
  dsimp only
  rw [hos2']
  dsimp only
  rw [hcount]
  exact hloop

theorem Live.delivered (h : s.Live) (builtin : Builtin R) (codec : FeaturesCodec R) :
    s.Delivered builtin codec := by
  intro data hdata
  obtain ⟨gs, hgs, hread⟩ := h.deSerialize hdata builtin
  refine ⟨_, hread, ?_⟩
  -- the entries that are read have the ids and names of those that were sent
  have hids : gs.map (·.1) = s.manager.sent.map (·.1) := by
    clear hread
    generalize s.manager.sent = es at hgs
    induction hgs with
    | nil => rfl
    | cons heq _ ih => rw [List.map_cons, List.map_cons, ih, heq.1]
  have hback : ∀ e' ∈ gs, ∃ f, (e'.1, f) ∈ s.manager.sent ∧ codec.Same f e'.2 := by
    intro e' he'
    obtain ⟨e, he, heq, hsame⟩ := (exists_of_forall₂ hgs).2 e' he'
    exact ⟨e.2, heq ▸ he, hsame⟩
  have hforth : ∀ id f, (id, f) ∈ s.manager.sent → ∃ g, (id, g) ∈ gs ∧ codec.Same f g := by
    intro id f hf
    obtain ⟨⟨id', g⟩, hg, heq, hsame⟩ := (exists_of_forall₂ hgs).1 _ hf
    have heq : id' = id := heq
    exact ⟨g, heq ▸ hg, hsame⟩
  have hclient := NodeDefManager.Client.foldl (NodeDefManager.client_clear builtin) gs
    (by
      rw [List.nil_append, hids]
      exact NodeDefManager.nodup_sent h.sound.size_le)
    (by
      intro e' he'
      obtain ⟨f, hf, hsame⟩ := hback e' he'
      obtain ⟨-, hbuiltin, -, hne⟩ := (NodeDefManager.mem_sent h.sound.size_le).mp hf
      exact ⟨hbuiltin, by rwa [codec.same_name f e'.2 hsame]⟩)
    (by
      intro e he e' he' heq
      rw [List.nil_append] at he he'
      by_cases hengine : e.2.name ∈ builtinNames
      · exact .inr hengine
      · obtain ⟨f, hf, hsame⟩ := hback e he
        obtain ⟨f', hf', hsame'⟩ := hback e' he'
        have hnode := (h.mem_sent hengine _ f).mp ⟨hf, (codec.same_name _ _ hsame).symm⟩
        have hnode' := (h.mem_sent hengine _ f').mp
          ⟨hf', (codec.same_name _ _ hsame').symm.trans heq.symm⟩
        rw [hnode, Option.some.injEq, Prod.mk.injEq] at hnode'
        exact .inl hnode'.1)
  rw [List.nil_append] at hclient
  intro name hname
  constructor
  · intro id
    unfold NodeDefManager.getId
    rw [hclient.aliases, hclient.known name hname]
    constructor
    · intro ⟨g, hg, hgname⟩
      obtain ⟨f, hf, hsame⟩ := hback _ hg
      exact ⟨f, (h.mem_sent hname id f).mp ⟨hf, (codec.same_name _ _ hsame).symm.trans hgname⟩⟩
    · intro ⟨f, hnode⟩
      obtain ⟨hf, hfname⟩ := (h.mem_sent hname id f).mpr hnode
      obtain ⟨g, hg, hsame⟩ := hforth id f hf
      exact ⟨g, hg, (codec.same_name _ _ hsame).trans hfname⟩
  · intro id f hnode
    obtain ⟨hf, hfname⟩ := (h.mem_sent hname id f).mpr hnode
    obtain ⟨g, hg, hsame⟩ := hforth id f hf
    refine ⟨g, hsame, hclient.features id g hg ?_⟩
    rw [codec.same_name _ _ hsame, hfname]
    exact hname

def nameCodec : FeaturesCodec Unit where
  serialize f := .ok f.name
  deSerialize old data := .ok { old with name := data }
  Same f g := g.name = f.name
  same_name _ _ h := h
  deSerialize_serialize f data h old := by
    injection h with h
    exact ⟨_, rfl, h.symm⟩

def unitBuiltin : Builtin Unit := ⟨(), (), (), ()⟩

def stone : ContentFeatures Unit := { ContentFeatures.reset () with name := bytes "stone" }

instance (s : Registry R) : ∀ op, Decidable (Keeps s op)
  | .set _ _ => isTrue trivial
  | .allocateDummy _ => isTrue trivial
  | .removeNode name => inferInstanceAs (Decidable (name ∈ builtinNames ∨ s.nodes name = none))

/-- The state after a list of operations, each under the condition of a run. -/
def runOps (ok : Registry Unit → NodeOp Unit → Prop) [∀ s op, Decidable (ok s op)]
    (ops : List (NodeOp Unit)) : Option (Registry Unit) :=
  Lts.execAll (fun op s => s.step unitBuiltin op) ok ops { manager := .clear unitBuiltin }

theorem run_runOps {ok : Registry Unit → NodeOp Unit → Prop} [∀ s op, Decidable (ok s op)]
    {ops : List (NodeOp Unit)} {s : Registry Unit} (h : runOps ok ops = some s) :
    (system unitBuiltin).Run ok s :=
  Lts.Run.execAll _ _ (fun _ _ _ hs => hs) (.init rfl) h

end Registry

end Freeminer.NodeDef
