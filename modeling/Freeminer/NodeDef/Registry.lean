import Freeminer.NodeDef.NodeDefManager

/-! The tables of `NodeDefManager` agree in every run. -/

namespace Freeminer.NodeDef

open Block (Content CONTENT_UNKNOWN CONTENT_AIR CONTENT_IGNORE)

variable {R : Type} {m : NodeDefManager R} {s s' : Registry R} {builtin : Builtin R}
  {id : Content} {name : ByteString} {f : ContentFeatures R}

namespace NodeDefManager

/-! ## Allocation -/

theorem allocateLoop_some {fuel : ℕ} {start : Content}
    (h : m.allocateLoop fuel start = some (some id)) : (m.m_content_features id).name = [] := by
  induction fuel generalizing start with
  | zero => cases h
  | succ fuel ih =>
    unfold allocateLoop at h
    split_ifs at h with hnext hfree
    · injection h with h
      injection h with h
      exact h ▸ hfree
    · exact ih h
    · cases h

/-- From a first id that is not 0 the loop ends at the latest when ids overflow. -/
theorem allocateLoop_ends (hnext : m.m_next_id ≠ 0) {fuel : ℕ} {start : Content}
    (hfuel : 65536 < start.toNat + fuel) : (m.allocateLoop fuel start).isSome := by
  induction fuel generalizing start with
  | zero =>
    have := start.toNat_lt
    omega
  | succ fuel ih =>
    unfold allocateLoop
    split_ifs with hle hfree
    · rfl
    · by_cases hlast : start.toNat = 65535
      · have hzero : start + 1 = 0 := by
          apply UInt16.toNat_inj.mp
          rw [UInt16.toNat_add, hlast]
          rfl
        rw [hzero]
        have hstop : ¬m.m_next_id ≤ 0 := by
          intro hle
          exact hnext (UInt16.toNat_inj.mp (Nat.le_zero.mp (UInt16.le_iff_toNat_le.mp hle)))
        cases fuel with
        | zero => omega
        | succ fuel =>
          unfold allocateLoop
          rw [if_neg hstop]
          rfl
      · have hstep : (start + 1).toNat = start.toNat + 1 := by
          have := start.toNat_lt
          rw [UInt16.toNat_add]
          exact Nat.mod_eq_of_lt (by
            have : (1 : UInt16).toNat = 1 := rfl
            omega)
        exact ih (by omega)
    · rfl

/-- The first allocation of a new manager finds the id 1. -/
theorem allocateLoop_first (hnext : m.m_next_id = 0) (hfree : (m.m_content_features 1).name = [])
    (fuel : ℕ) : (m.allocateLoop (fuel + 2) 0).isSome := by
  unfold allocateLoop
  rw [hnext, if_pos (UInt16.le_refl 0)]
  split_ifs
  · rfl
  · unfold allocateLoop
    have hone : (0 : UInt16) + 1 = 1 := rfl
    rw [hone, if_pos hfree]
    split_ifs <;> rfl

/-- What `allocateId` gives: a free id, or `CONTENT_IGNORE`. -/
theorem allocateId_spec (h : m.m_next_id ≠ 0 ∨ (m.m_content_features 1).name = []) :
    (∃ id, (m.m_content_features id).name = [] ∧
      m.allocateId = some (id, { m with
        size := max m.size (id.toNat + 1)
        m_next_id := if id.toNat < 65535 then id + 1 else 65535 })) ∨
    m.allocateId = some (CONTENT_IGNORE, { m with size := 65536 }) := by
  have hends : (m.allocateLoop 65537 m.m_next_id).isSome := by
    by_cases hnext : m.m_next_id = 0
    · rw [hnext]
      exact allocateLoop_first hnext (h.resolve_left (not_not.mpr hnext)) 65535
    · exact allocateLoop_ends hnext (by omega)
  obtain ⟨r, hr⟩ := Option.isSome_iff_exists.mp hends
  unfold allocateId
  cases r with
  | some id =>
    refine .inl ⟨id, allocateLoop_some hr, ?_⟩
    rw [hr]
    rfl
  | none =>
    refine .inr ?_
    rw [hr]
    rfl

theorem next_ne_zero (id : Content) : (if id.toNat < 65535 then id + 1 else 65535) ≠ 0 := by
  split_ifs with hlt
  · intro hzero
    have := congrArg UInt16.toNat hzero
    rw [UInt16.toNat_add, Nat.mod_eq_of_lt (by
      have : (1 : UInt16).toNat = 1 := rfl
      omega)] at this
    have hone : (1 : UInt16).toNat = 1 := rfl
    have h0 : (0 : UInt16).toNat = 0 := rfl
    omega
  · decide

end NodeDefManager

namespace Registry

structure Sound (s : Registry R) : Prop where
  named : ∀ name id, s.manager.m_name_to_id name = some id →
    (s.manager.m_content_features id).name = name ∧ s.used id
  getName : ∀ id name, s.manager.m_id_to_name id = some name ↔ s.manager.m_name_to_id name = some id
  getId : s.manager.m_name_id_mapping_with_aliases = s.manager.m_name_to_id
  used_named : ∀ id, s.used id → (s.manager.m_content_features id).name ≠ []
  nodes : ∀ name id f, s.nodes name = some (id, f) →
    s.manager.m_name_to_id name = some id ∧ s.manager.m_content_features id = f
  groups : ∀ group id, id ∈ s.manager.m_group_to_items group ↔
    ∃ name f, s.nodes name = some (id, f) ∧ group ∈ f.groups
  group_once : ∀ group, (s.manager.m_group_to_items group).Nodup
  next : s.manager.m_next_id ≠ 0 ∨ (s.manager.m_content_features 1).name = []
  ignore : (s.manager.m_content_features CONTENT_IGNORE).name = bytes "ignore"
  size_le : s.manager.size ≤ 65536

theorem names_clear (builtin : Builtin R) :
    (NodeDefManager.clear builtin).m_content_features 125 =
        { ContentFeatures.reset builtin.unknown with name := bytes "unknown" } ∧
      (NodeDefManager.clear builtin).m_content_features 126 =
        { ContentFeatures.reset builtin.air with name := bytes "air" } ∧
      (NodeDefManager.clear builtin).m_content_features 127 =
        { ContentFeatures.reset builtin.ignore with name := bytes "ignore" } ∧
      (NodeDefManager.clear builtin).m_content_features 0 =
        { ContentFeatures.reset builtin.ignore with name := bytes "ignore" } ∧
      (NodeDefManager.clear builtin).m_content_features 1 = .reset builtin.reset :=
  ⟨rfl, rfl, rfl, rfl, rfl⟩

theorem m_name_to_id_clear (builtin : Builtin R) (name : ByteString) :
    (NodeDefManager.clear builtin).m_name_to_id name =
      if name = bytes "ignore" then some 127
      else if name = bytes "air" then some 126
      else if name = bytes "unknown" then some 125 else none := by
  simp only [NodeDefManager.clear, NodeDefManager.setFeatures, NodeDefManager.addNameIdMapping,
    Function.update_apply]
  rfl

theorem m_id_to_name_clear (builtin : Builtin R) (id : Content) :
    (NodeDefManager.clear builtin).m_id_to_name id =
      if id = 127 then some (bytes "ignore")
      else if id = 126 then some (bytes "air")
      else if id = 125 then some (bytes "unknown") else none := by
  simp only [NodeDefManager.clear, NodeDefManager.setFeatures, NodeDefManager.addNameIdMapping,
    Function.update_apply]
  rfl

theorem isBuiltin_iff : isBuiltin id = true ↔ id = 127 ∨ id = 126 ∨ id = 125 := by
  unfold isBuiltin
  rw [Bool.or_eq_true, Bool.or_eq_true, or_assoc]
  exact or_congr ⟨of_decide_eq_true, decide_eq_true⟩
    (or_congr ⟨of_decide_eq_true, decide_eq_true⟩ ⟨of_decide_eq_true, decide_eq_true⟩)

theorem aliases_clear (builtin : Builtin R) :
    (NodeDefManager.clear builtin).m_name_id_mapping_with_aliases =
      (NodeDefManager.clear builtin).m_name_to_id := rfl

theorem sound_init (builtin : Builtin R) : Sound { manager := .clear builtin } := by
  obtain ⟨hunknown, hair, hignore, hzero, hone⟩ := names_clear builtin
  refine ⟨fun name id h => ?_, fun id name => ?_, aliases_clear builtin, fun id h => ?_,
    fun name id f h => ?_, fun group id => ?_, fun group => ?_, .inr ?_, ?_, ?_⟩
  · rw [m_name_to_id_clear] at h
    split_ifs at h with h1 h2 h3
    · injection h with h
      subst h h1
      exact ⟨congrArg ContentFeatures.name hignore, .inl rfl⟩
    · injection h with h
      subst h h2
      exact ⟨congrArg ContentFeatures.name hair, .inl rfl⟩
    · injection h with h
      subst h h3
      exact ⟨congrArg ContentFeatures.name hunknown, .inl rfl⟩
  · dsimp only
    rw [m_id_to_name_clear, m_name_to_id_clear]
    have hair' : bytes "air" ≠ bytes "ignore" := by decide
    have hunknown' : bytes "unknown" ≠ bytes "ignore" := by decide
    have hunknown'' : bytes "unknown" ≠ bytes "air" := by decide
    constructor
    · intro h
      split_ifs at h with h1 h2 h3
      · rw [← Option.some.inj h, if_pos rfl, h1]
      · rw [← Option.some.inj h, if_neg hair', if_pos rfl, h2]
      · rw [← Option.some.inj h, if_neg hunknown', if_neg hunknown'', if_pos rfl, h3]
    · intro h
      split_ifs at h with h1 h2 h3
      · rw [← Option.some.inj h, if_pos rfl, h1]
      · rw [← Option.some.inj h, if_neg (by decide), if_pos rfl, h2]
      · rw [← Option.some.inj h, if_neg (by decide), if_neg (by decide), if_pos rfl, h3]
  · have h : isBuiltin id = true ∨ id = 0 := h
    rw [isBuiltin_iff] at h
    dsimp only
    obtain (rfl | rfl | rfl) | rfl := h
    · rw [hignore]
      exact (by decide : bytes "ignore" ≠ [])
    · rw [hair]
      exact (by decide : bytes "air" ≠ [])
    · rw [hunknown]
      exact (by decide : bytes "unknown" ≠ [])
    · rw [hzero]
      exact (by decide : bytes "ignore" ≠ [])
  · cases h
  · constructor
    · intro h
      cases h
    · intro ⟨name, f, h, _⟩
      cases h
  · exact List.nodup_nil
  · rw [hone]
    rfl
  · exact congrArg ContentFeatures.name hignore
  · exact (by decide : 128 ≤ 65536)

def Free (s : Registry R) (name : ByteString) (id : Content) : Prop :=
  s.manager.m_name_to_id name = some id ∨
    (s.manager.m_name_to_id name = none ∧ (s.manager.m_content_features id).name = [])

theorem Sound.eq_of_free (h : s.Sound) (hid : s.Free name id) {name' : ByteString}
    (h' : s.manager.m_name_to_id name' = some id) : name' = name := by
  cases hid with
  | inl hid => exact (h.named name' id h').1.symm.trans (h.named name id hid).1
  | inr hid => exact absurd hid.2 (h.used_named id (h.named name' id h').2)

theorem items_register (hgroups : m.m_group_to_items = s.manager.m_group_to_items)
    (group : ByteString) :
    (m.register id f).m_group_to_items group =
      (s.manager.m_group_to_items group).filter (· ≠ id) ++
        if group ∈ f.groups then [id] else [] := by
  rw [← hgroups]
  by_cases hg : group ∈ f.groups
  · simp [NodeDefManager.register, NodeDefManager.setFeatures,
      NodeDefManager.eraseIdFromGroups, hg]
  · simp [NodeDefManager.register, NodeDefManager.setFeatures,
      NodeDefManager.eraseIdFromGroups, hg]

/-- A registration, where `m` has the id for the name. -/
theorem Sound.register (h : s.Sound) (hid : s.Free name id) (hname : f.name = name)
    (hne : name ≠ []) (hid_ne : id ≠ CONTENT_IGNORE) (hsize : m.size ≤ 65536)
    (hfeatures : m.m_content_features = s.manager.m_content_features)
    (hgroups : m.m_group_to_items = s.manager.m_group_to_items)
    (hid_name : m.m_id_to_name = Function.update s.manager.m_id_to_name id (some name))
    (hname_id : m.m_name_to_id = Function.update s.manager.m_name_to_id name (some id))
    (haliases : m.m_name_id_mapping_with_aliases = m.m_name_to_id)
    (hnext : m.m_next_id ≠ 0 ∨
      (s.manager.m_name_to_id name = some id ∧ m.m_next_id = s.manager.m_next_id)) :
    Sound
      { manager := m.register id f
        nodes := Function.update s.nodes name (some (id, f.withFloats))
        used := fun id' => s.used id' ∨ id' = id } := by
  have hfeature : ∀ id', (m.register id f).m_content_features id' =
      if id' = id then f.withFloats else s.manager.m_content_features id' := by
    intro id'
    rw [← hfeatures]
    exact Function.update_apply _ _ _ _
  have hmap : ∀ name', (m.register id f).m_name_to_id name' =
      if name' = name then some id else s.manager.m_name_to_id name' := by
    intro name'
    have heq : (m.register id f).m_name_to_id = m.m_name_to_id := rfl
    rw [heq, hname_id]
    exact Function.update_apply _ _ _ _
  have hnodes : ∀ name', Function.update s.nodes name (some (id, f.withFloats)) name' =
      if name' = name then some (id, f.withFloats) else s.nodes name' :=
    fun _ => Function.update_apply _ _ _ _
  have hother : ∀ name' id', name' ≠ name → s.manager.m_name_to_id name' = some id' → id' ≠ id := by
    intro name' id' hne' h' heq
    exact hne' (h.eq_of_free hid (heq ▸ h'))
  refine ⟨fun name' id' h' => ?_, fun id' name' => ?_, haliases, fun id' h' => ?_,
    fun name' id' f' h' => ?_, fun group id' => ?_, fun group => ?_, ?_, ?_, ?_⟩
  · rw [hmap] at h'
    rw [hfeature]
    split_ifs at h' with heq
    · injection h' with h'
      subst heq h'
      rw [if_pos rfl]
      exact ⟨hname, .inr rfl⟩
    · rw [if_neg (hother name' id' heq h')]
      exact ⟨(h.named name' id' h').1, .inl (h.named name' id' h').2⟩
  · have hback : (m.register id f).m_id_to_name id' =
        if id' = id then some name else s.manager.m_id_to_name id' := by
      have heq : (m.register id f).m_id_to_name = m.m_id_to_name := rfl
      rw [heq, hid_name]
      exact Function.update_apply _ _ _ _
    rw [hback, hmap]
    by_cases hid' : id' = id
    · subst hid'
      rw [if_pos rfl]
      by_cases hname' : name' = name
      · simp [hname']
      · rw [if_neg hname']
        constructor
        · intro heq
          exact absurd (Option.some.inj heq).symm hname'
        · intro heq
          exact absurd rfl (hother name' id' hname' heq)
    · rw [if_neg hid', h.getName]
      by_cases hname' : name' = name
      · subst hname'
        rw [if_pos rfl]
        constructor
        · intro heq
          cases hid with
          | inl hid => exact absurd (Option.some.inj (heq.symm.trans hid)) hid'
          | inr hid =>
            rw [hid.1] at heq
            cases heq
        · intro heq
          exact absurd (Option.some.inj heq).symm hid'
      · rw [if_neg hname']
  · rw [hfeature]
    split_ifs with heq
    · have : f.withFloats.name = name := hname
      rw [this]
      exact hne
    · exact h.used_named id' (h'.resolve_right heq)
  · rw [hmap, hfeature]
    dsimp only at h'
    rw [hnodes] at h'
    split_ifs at h' with hname'
    · rw [Option.some.injEq, Prod.mk.injEq] at h'
      obtain ⟨rfl, rfl⟩ := h'
      simp [hname']
    · obtain ⟨hmapped, hf⟩ := h.nodes name' id' f' h'
      rw [if_neg hname', if_neg (hother name' id' hname' hmapped)]
      exact ⟨hmapped, hf⟩
  · have hitems : (m.register id f).m_group_to_items group =
        (s.manager.m_group_to_items group).filter (· ≠ id) ++
          if group ∈ f.groups then [id] else [] := items_register hgroups group
    dsimp only
    rw [hitems, List.mem_append, List.mem_filter, h.groups, decide_eq_true_eq]
    simp only [hnodes]
    constructor
    · intro hor
      cases hor with
      | inl hold =>
        obtain ⟨⟨name', f', hnode, hg⟩, hne'⟩ := hold
        have hname' : name' ≠ name := by
          intro heq
          subst heq
          have hmapped := (h.nodes name' id' f' hnode).1
          cases hid with
          | inl hid => exact hne' (Option.some.inj (hmapped.symm.trans hid))
          | inr hid =>
            rw [hid.1] at hmapped
            cases hmapped
        exact ⟨name', f', by rwa [if_neg hname'], hg⟩
      | inr hnew =>
        split_ifs at hnew with hg
        · rw [List.mem_singleton] at hnew
          subst hnew
          exact ⟨name, f.withFloats, if_pos rfl, hg⟩
        · cases hnew
    · intro ⟨name', f', hnode, hg⟩
      split_ifs at hnode with hname'
      · rw [Option.some.injEq, Prod.mk.injEq] at hnode
        obtain ⟨rfl, rfl⟩ := hnode
        have hg : group ∈ f.groups := hg
        rw [if_pos hg]
        exact .inr (List.mem_singleton_self _)
      · exact .inl ⟨⟨name', f', hnode, hg⟩,
          hother name' id' hname' (h.nodes name' id' f' hnode).1⟩
  · have hitems : (m.register id f).m_group_to_items group =
        (s.manager.m_group_to_items group).filter (· ≠ id) ++
          if group ∈ f.groups then [id] else [] := items_register hgroups group
    dsimp only
    rw [hitems, List.nodup_append]
    refine ⟨(h.group_once group).filter _, ?_, fun a ha b hb heq => ?_⟩
    · split_ifs
      · exact List.nodup_singleton _
      · exact List.nodup_nil
    · split_ifs at hb
      · rw [List.mem_singleton] at hb
        rw [List.mem_filter, decide_eq_true_eq] at ha
        exact ha.2 (heq.trans hb)
      · cases hb
  · have hnext_id : (m.register id f).m_next_id = m.m_next_id := rfl
    rw [hnext_id, hfeature]
    cases hnext with
    | inl hnext => exact .inl hnext
    | inr hsame =>
      rw [hsame.2]
      refine h.next.imp_right fun hfree => ?_
      rw [if_neg, hfree]
      intro heq
      exact h.used_named id (h.named name id hsame.1).2 (heq ▸ hfree)
  · rw [hfeature, if_neg (Ne.symm hid_ne), h.ignore]
  · have := id.toNat_lt
    exact Nat.max_le.mpr ⟨hsize, this⟩

/-! ## Steps -/

/-- What `set` does: it refuses, with nothing changed but the size, or registers. -/
theorem Sound.set (h : s.Sound) (name : ByteString) (f : ContentFeatures R) :
    ∃ r, s.manager.set name f = some r ∧ (s.registered name f r).Sound ∧
      ((r.1 = CONTENT_IGNORE ∧ ∃ n, s.manager.size ≤ n ∧ r.2 = { s.manager with size := n }) ∨
        (r.1 ≠ CONTENT_IGNORE ∧ s.Free name r.1 ∧ f.name = name ∧ name ≠ [] ∧
          s.manager.size ≤ r.2.size ∧ r.1.toNat < r.2.size ∧
          r.2.m_content_features = Function.update s.manager.m_content_features r.1 f.withFloats)) := by
  have hresize : ∀ n ≤ 65536, Sound { s with manager := { s.manager with size := n } } := fun n hn =>
    { named := h.named, getName := h.getName, getId := h.getId, used_named := h.used_named
      nodes := h.nodes, groups := h.groups, group_once := h.group_once, next := h.next
      ignore := h.ignore, size_le := hn }
  have hrefused : ∀ n, s.registered name f (CONTENT_IGNORE, { s.manager with size := n }) =
      { s with manager := { s.manager with size := n } } := fun n => if_pos rfl
  have hignore : ∀ id, s.Free name id → name ≠ bytes "ignore" → id ≠ CONTENT_IGNORE := by
    intro id hid hne heq
    subst heq
    cases hid with
    | inl hid => exact hne ((h.named name _ hid).1.symm.trans h.ignore)
    | inr hid =>
      have hfree := hid.2
      rw [h.ignore] at hfree
      exact absurd hfree (by decide)
  unfold NodeDefManager.set
  by_cases hbad : name = [] ∨ name ≠ f.name ∨ name = bytes "ignore"
  · rw [if_pos hbad]
    refine ⟨_, rfl, ?_, .inl ⟨rfl, s.manager.size, Nat.le_refl _, rfl⟩⟩
    have hsame : s.registered name f (CONTENT_IGNORE, s.manager) = s := if_pos rfl
    rw [hsame]
    exact h
  · rw [if_neg hbad]
    rw [not_or, not_or, not_ne_iff] at hbad
    obtain ⟨hne, hname, hign⟩ := hbad
    cases hmapped : s.manager.m_name_to_id name with
    | some id =>
      have hfree : s.Free name id := .inl hmapped
      have hid := hignore id hfree hign
      refine ⟨_, rfl, ?_, .inr ⟨hid, hfree, hname.symm, hne, ?_, ?_, rfl⟩⟩
      · unfold Registry.registered
        rw [if_neg hid]
        refine h.register hfree hname.symm hne hid h.size_le rfl rfl ?_ ?_ h.getId (.inr ⟨hmapped, rfl⟩)
        · rw [← (h.getName id name).mpr hmapped, Function.update_eq_self]
        · rw [← hmapped, Function.update_eq_self]
      · exact Nat.le_max_left _ _
      · exact Nat.lt_of_lt_of_le (Nat.lt_succ_self _) (Nat.le_max_right _ _)
    | none =>
      dsimp only
      obtain ⟨id, hempty, halloc⟩ | halloc := NodeDefManager.allocateId_spec h.next
      · have hfree : s.Free name id := .inr ⟨hmapped, hempty⟩
        have hid := hignore id hfree hign
        rw [halloc, Option.map_some, if_neg hid]
        refine ⟨_, rfl, ?_, .inr ⟨hid, hfree, hname.symm, hne, ?_, ?_, rfl⟩⟩
        · unfold Registry.registered
          rw [if_neg hid]
          refine h.register hfree hname.symm hne hid (Nat.max_le.mpr ⟨h.size_le, id.toNat_lt⟩) rfl rfl rfl
            rfl ?_
            (.inl (NodeDefManager.next_ne_zero id))
          have halias : s.manager.m_name_id_mapping_with_aliases name = none := by
            rw [h.getId, hmapped]
          unfold NodeDefManager.addNameIdMapping
          dsimp only
          rw [if_pos halias, h.getId]
        · exact (Nat.le_max_left _ _).trans (Nat.le_max_left _ _)
        · exact Nat.lt_of_lt_of_le (Nat.lt_succ_self _) (Nat.le_max_right _ _)
      · rw [halloc, Option.map_some, if_pos rfl]
        refine ⟨_, rfl, ?_, .inl ⟨rfl, 65536, h.size_le, rfl⟩⟩
        rw [hrefused]
        exact hresize 65536 (Nat.le_refl _)

theorem Sound.allocateDummy (h : s.Sound) (builtin : Builtin R) (name : ByteString) :
    ∃ r, s.manager.allocateDummy builtin name = some r ∧
      (s.registered name { ContentFeatures.reset builtin.reset with name } r).Sound := by
  unfold NodeDefManager.allocateDummy
  by_cases hname : name = []
  · rw [if_pos hname]
    refine ⟨_, rfl, ?_⟩
    have hsame : s.registered name { ContentFeatures.reset builtin.reset with name }
        (CONTENT_IGNORE, s.manager) = s := if_pos rfl
    rw [hsame]
    exact h
  · rw [if_neg hname]
    obtain ⟨r, hr, hsound, -⟩ := h.set name { ContentFeatures.reset builtin.reset with name }
    exact ⟨r, hr, hsound⟩

theorem Sound.removeNode (h : s.Sound) (name : ByteString) :
    Sound { s with
      manager := s.manager.removeNode name
      nodes := Function.update s.nodes name none } := by
  have hnodes : ∀ name', Function.update s.nodes name none name' =
      if name' = name then none else s.nodes name' := fun _ => Function.update_apply _ _ _ _
  unfold NodeDefManager.removeNode
  cases hmapped : s.manager.m_name_to_id name with
  | none =>
    have hnone : s.nodes name = none := by
      refine Option.eq_none_iff_forall_ne_some.mpr fun x hx => ?_
      rw [(h.nodes name x.1 x.2 hx).1] at hmapped
      cases hmapped
    dsimp only
    rw [← hnone, Function.update_eq_self]
    exact h
  | some id =>
    have hmap : ∀ name', Function.update s.manager.m_name_to_id name none name' =
        if name' = name then none else s.manager.m_name_to_id name' :=
      fun _ => Function.update_apply _ _ _ _
    have hother : ∀ name' id', name' ≠ name → s.manager.m_name_to_id name' = some id' → id' ≠ id := by
      intro name' id' hne h' heq
      exact hne (h.eq_of_free (.inl hmapped) (heq ▸ h'))
    refine
      { named := fun name' id' h' => ?_, getName := fun id' name' => ?_, getId := ?_
        used_named := h.used_named, nodes := fun name' id' f h' => ?_
        groups := fun group id' => ?_, group_once := fun group => (h.group_once group).filter _
        next := h.next, ignore := h.ignore, size_le := h.size_le }
    · dsimp only [NodeDefManager.eraseIdFromGroups] at h'
      rw [hmap] at h'
      split_ifs at h'
      exact h.named name' id' h'
    · have hback : Function.update s.manager.m_id_to_name id none id' =
          if id' = id then none else s.manager.m_id_to_name id' := Function.update_apply _ _ _ _
      dsimp only [NodeDefManager.eraseIdFromGroups]
      rw [hback, hmap]
      by_cases hname' : name' = name
      · subst hname'
        rw [if_pos rfl]
        refine iff_of_false (fun heq => ?_) (fun heq => by cases heq)
        split_ifs at heq with hid'
        rw [h.getName, hmapped, Option.some.injEq] at heq
        exact hid' heq.symm
      · rw [if_neg hname']
        split_ifs with hid'
        · refine iff_of_false (fun heq => by cases heq) fun heq => ?_
          exact hother name' id' hname' heq hid'
        · exact h.getName id' name'
    · dsimp only [NodeDefManager.eraseIdFromGroups]
      rw [h.getId]
    · dsimp only at h'
      rw [hnodes] at h'
      split_ifs at h' with hname'
      obtain ⟨hid', hf⟩ := h.nodes name' id' f h'
      dsimp only [NodeDefManager.eraseIdFromGroups]
      rw [hmap, if_neg hname']
      exact ⟨hid', hf⟩
    · dsimp only [NodeDefManager.eraseIdFromGroups]
      rw [List.mem_filter, h.groups, decide_eq_true_eq]
      simp only [hnodes]
      constructor
      · intro ⟨⟨name', f, hnode, hg⟩, hne⟩
        refine ⟨name', f, ?_, hg⟩
        rwa [if_neg]
        intro heq
        have hid' := (h.nodes name' id' f hnode).1
        rw [heq, hmapped, Option.some.injEq] at hid'
        exact hne hid'.symm
      · intro ⟨name', f, hnode, hg⟩
        split_ifs at hnode with hname'
        exact ⟨⟨name', f, hnode, hg⟩, hother name' id' hname' (h.nodes name' id' f hnode).1⟩

theorem Sound.step {op : NodeOp R} (h : s.Sound) (hstep : s.step builtin op = some s') : s'.Sound := by
  cases op with
  | set name f =>
    obtain ⟨r, hr, hsound, -⟩ := h.set name f
    simp only [Registry.step, hr, Option.map_some, Option.some.injEq] at hstep
    exact hstep ▸ hsound
  | allocateDummy name =>
    obtain ⟨r, hr, hsound⟩ := h.allocateDummy builtin name
    simp only [Registry.step, hr, Option.map_some, Option.some.injEq] at hstep
    exact hstep ▸ hsound
  | removeNode name =>
    injection hstep with hstep
    exact hstep ▸ h.removeNode name

theorem sound_run (h : (system builtin).Reach s) : s.Sound := by
  refine h.invariant (fun s h0 => ?_) fun s op s' h _ hs => h.step hs
  have h0 : s = { manager := .clear builtin } := h0
  exact h0 ▸ sound_init builtin

theorem Sound.consistent (h : s.Sound) (builtin : Builtin R) : s.Consistent builtin where
  injective name name' id hid hid' := (h.named name id hid).1.symm.trans (h.named name' id hid').1
  getId := h.getId
  getName := h.getName
  registered := h.nodes
  allocates := by
    obtain ⟨id, hempty, halloc⟩ | halloc := NodeDefManager.allocateId_spec h.next
    · exact ⟨_, halloc, .inr fun hused => h.used_named id hused hempty⟩
    · exact ⟨_, halloc, .inl rfl⟩
  ends := by
    intro op
    cases op with
    | set name f =>
      obtain ⟨r, hr, -⟩ := h.set name f
      simp [Registry.step, hr]
    | allocateDummy name =>
      obtain ⟨r, hr, -⟩ := h.allocateDummy builtin name
      simp [Registry.step, hr]
    | removeNode name => rfl
  groups := h.groups
  group_once := h.group_once

end Registry

end Freeminer.NodeDef
