import Freeminer.Client.MeshRevisions

/-! What mesh revisions promise over any interleaving of the main thread and the workers, as long as
every block is copied in time. -/

namespace Freeminer.MeshRevisions

open Lib
open Voxel (V3)
open Freeminer.Client (MeshUpdates MeshRequest MapView Worker getMeshPos cellBlocks)

variable {D : Type}

def Receiving.unnumbered (r : Receiving) (p : V3) : ℕ :=
  match r with
  | .installed q => if q = p then 1 else 0
  | _ => 0

namespace Client

variable {cfg : Config D} {c c' : Client D} {p a : V3}

def versionAt (c : Client D) (p : V3) : ℕ := ((c.map p).map fun b => b.nodes.version).getD 0

/-! ## Later states -/

/-- What only grows: new updates have revisions above all that were taken. -/
structure Later (c c' : Client D) : Prop where
  next : c.m_next_mesh_revision ≤ c'.m_next_mesh_revision
  version : ∀ p, c.versionAt p ≤ c'.versionAt p
  revision : ∀ p, c.revisionAt p ≤ c'.revisionAt p
  kept : ∀ (p : V3) (n revision : ℕ), (c.updates p)[n]? = some revision → (c'.updates p)[n]? = some revision
  new : ∀ (p : V3) (n revision : ℕ), (c'.updates p)[n]? = some revision →
    (c.updates p)[n]? = some revision ∨ c.m_next_mesh_revision < revision

/-- The part of the state that the workers leave alone. -/
structure SameMap (c c' : Client D) : Prop where
  map : c'.map = c.map
  next : c'.m_next_mesh_revision = c.m_next_mesh_revision
  receiving : c'.receiving = c.receiving
  updates : c'.updates = c.updates

theorem SameMap.versionAt (h : SameMap c c') (p : V3) : c'.versionAt p = c.versionAt p := by
  unfold Client.versionAt
  rw [h.map]

theorem SameMap.revisionAt (h : SameMap c c') (p : V3) : c'.revisionAt p = c.revisionAt p := by
  unfold Client.revisionAt
  rw [h.map]

theorem SameMap.meshAt (h : SameMap c c') (p : V3) (lod_step : ℤ) :
    c'.meshAt p lod_step = c.meshAt p lod_step := by
  unfold Client.meshAt
  rw [h.map]

theorem SameMap.later (h : SameMap c c') : Later c c' where
  next := h.next.ge
  version p := (h.versionAt p).ge
  revision p := (h.revisionAt p).ge
  kept p n revision hn := by
    rw [h.updates]
    exact hn
  new p n revision hn := by
    rw [h.updates] at hn
    exact .inl hn

/-- A block is changed, and its version and revision do not get smaller. -/
theorem later_setBlock {b : MapBlock D} (hversion : c.versionAt p ≤ b.nodes.version)
    (hrevision : c.revisionAt p ≤ b.m_mesh_revision) : Later c (c.setBlock p b) where
  next := le_rfl
  version q := by
    by_cases hq : q = p
    · subst hq
      simpa [versionAt, setBlock] using hversion
    · simp [versionAt, setBlock, hq]
  revision q := by
    by_cases hq : q = p
    · subst hq
      simpa [revisionAt, setBlock] using hrevision
    · simp [revisionAt, setBlock, hq]
  kept _ _ _ hn := hn
  new _ _ _ hn := .inl hn

/-! ## Updates and their revisions -/

structure Numbered (c : Client D) : Prop where
  one_le : 1 ≤ c.m_next_mesh_revision
  block_le : ∀ p, c.revisionAt p ≤ c.m_next_mesh_revision
  update_le : ∀ (p : V3) (n revision : ℕ), (c.updates p)[n]? = some revision →
    0 < revision ∧ revision ≤ c.m_next_mesh_revision
  /-- An update gets its revision after it was installed. -/
  version : ∀ p, c.versionAt p = (c.updates p).length + c.receiving.unnumbered p
  /-- It is published, or about to be. -/
  published : ∀ (p : V3) (n revision : ℕ), (c.updates p)[n]? = some revision → revision ≤ c.revisionAt p ∨
    ∃ todo, c.receiving = .publishing revision todo ∧ Bump.edge p ∈ todo
  publishing_le : ∀ revision todo, c.receiving = .publishing revision todo →
    revision ≤ c.m_next_mesh_revision

theorem Numbered.sameMap (h : Numbered c) (hs : SameMap c c') : Numbered c' where
  one_le := hs.next ▸ h.one_le
  block_le p := by
    rw [hs.revisionAt, hs.next]
    exact h.block_le p
  update_le p n revision hn := by
    rw [hs.updates] at hn
    rw [hs.next]
    exact h.update_le p n revision hn
  version p := by
    rw [hs.versionAt, hs.updates, hs.receiving]
    exact h.version p
  published p n revision hn := by
    rw [hs.updates] at hn
    rw [hs.revisionAt, hs.receiving]
    exact h.published p n revision hn
  publishing_le revision todo hr := by
    rw [hs.receiving] at hr
    rw [hs.next]
    exact h.publishing_le revision todo hr

/-! ## Jobs, results and meshes -/

/-- The copies of a job or a result are of blocks that it holds. -/
structure Copied (c : Client D) (map_blocks : List (Option V3)) (copies : V3 → Option (Snapshot D)) :
    Prop where
  held : ∀ a s, copies a = some s → some a ∈ map_blocks
  version_le : ∀ a, versionOf copies a ≤ c.versionAt a

theorem Copied.later {map_blocks : List (Option V3)} {copies : V3 → Option (Snapshot D)}
    (h : Copied c map_blocks copies) (hl : Later c c') : Copied c' map_blocks copies :=
  ⟨h.held, fun a => (h.version_le a).trans (hl.version a)⟩

/-- A job misses an update of a block it has copied, or that was not there, only if the revision of
that update is above its own. -/
structure GoodJob (cell_size : ℕ) (c : Client D) (q : Freeminer.Client.QueuedMeshUpdate V3)
    (d : MeshMakeData D) : Prop where
  revision_le : d.mesh_revision ≤ c.m_next_mesh_revision
  copied : Copied c q.map_blocks d.copies
  pending : ∀ a ∈ d.pending, some a ∈ q.map_blocks
  missed : ∀ a ∈ cellBlocks cell_size q.p, a ∉ d.pending → ∀ n revision : ℕ,
    (c.updates a)[n]? = some revision → versionOf d.copies a ≤ n → d.mesh_revision < revision

theorem GoodJob.later {cell_size : ℕ} {q : Freeminer.Client.QueuedMeshUpdate V3}
    {d : MeshMakeData D} (h : GoodJob cell_size c q d) (hl : Later c c') :
    GoodJob cell_size c' q d where
  revision_le := h.revision_le.trans hl.next
  copied := h.copied.later hl
  pending := h.pending
  missed a ha hpending n revision hn hle := by
    rcases hl.new a n revision hn with hn | hn
    · exact h.missed a ha hpending n revision hn hle
    · exact h.revision_le.trans_lt hn

structure GoodResult (cfg : Config D) (c : Client D) (r : MeshUpdateResult D) : Prop where
  revision_le : r.mesh.mesh_revision ≤ c.m_next_mesh_revision
  copied : Copied c r.map_blocks r.mesh.copies
  includes : c.Includes cfg r.p r.mesh

theorem GoodResult.later {r : MeshUpdateResult D} (h : GoodResult cfg c r) (hl : Later c c') :
    GoodResult cfg c' r where
  revision_le := h.revision_le.trans hl.next
  copied := h.copied.later hl
  includes a ha n revision hn hle := by
    rcases hl.new a n revision hn with hn | hn
    · exact h.includes a ha n revision hn hle
    · have := h.revision_le
      omega

/-- A mesh of the map was made from no update above its revision. -/
structure GoodMesh (cfg : Config D) (c : Client D) (p : V3) (mesh : MapBlockMesh D) : Prop where
  revision_le : mesh.mesh_revision ≤ c.revisionAt p
  copied : ∀ a ∈ cellBlocks cfg.cell_size p, ∀ n < versionOf mesh.copies a,
    ∃ revision : ℕ, (c.updates a)[n]? = some revision ∧ revision ≤ mesh.mesh_revision

theorem GoodMesh.later {mesh : MapBlockMesh D} (h : GoodMesh cfg c p mesh) (hl : Later c c') :
    GoodMesh cfg c' p mesh where
  revision_le := h.revision_le.trans (hl.revision p)
  copied a ha n hn := by
    obtain ⟨revision, hupdate, hle⟩ := h.copied a ha n hn
    exact ⟨revision, hl.kept a n revision hupdate, hle⟩

structure Inv (cfg : Config D) (c : Client D) : Prop where
  numbered : Numbered c
  jobs : ∀ urgent worker d, c.making urgent worker = some d →
    ∃ q, (c.queue urgent).workers[worker]? = some (.making q) ∧ GoodJob cfg.cell_size c q d
  results : ∀ urgent, ∀ r ∈ c.results urgent, GoodResult cfg c r
  meshes : ∀ p lod_step mesh, c.meshAt p lod_step = some mesh → GoodMesh cfg c p mesh

/-- The workers, the results and the meshes stay as they are. -/
theorem Inv.later (h : Inv cfg c) (hnumbered : Numbered c') (hl : Later c c')
    (hqueue : c'.queue = c.queue) (hmaking : c'.making = c.making) (hresults : c'.results = c.results)
    (hmeshes : ∀ p lod_step mesh, c'.meshAt p lod_step = some mesh →
      c.meshAt p lod_step = some mesh) : Inv cfg c' where
  numbered := hnumbered
  jobs urgent worker d hd := by
    rw [hmaking] at hd
    obtain ⟨q, hq, hjob⟩ := h.jobs urgent worker d hd
    exact ⟨q, by rw [hqueue]; exact hq, hjob.later hl⟩
  results urgent r hr := by
    rw [hresults] at hr
    exact (h.results urgent r hr).later hl
  meshes p lod_step mesh hmesh := (h.meshes p lod_step mesh (hmeshes p lod_step mesh hmesh)).later hl

/-! ## The main thread -/

theorem versionAt_setBlock (c : Client D) (p q : V3) (b : MapBlock D) :
    (c.setBlock p b).versionAt q = if q = p then b.nodes.version else c.versionAt q := by
  by_cases hq : q = p <;> simp [versionAt, setBlock, hq]

theorem revisionAt_setBlock (c : Client D) (p q : V3) (b : MapBlock D) :
    (c.setBlock p b).revisionAt q = if q = p then b.m_mesh_revision else c.revisionAt q := by
  by_cases hq : q = p <;> simp [revisionAt, setBlock, hq]

theorem meshAt_setBlock (c : Client D) (p q : V3) (b : MapBlock D) (lod_step : ℤ) :
    (c.setBlock p b).meshAt q lod_step =
      if q = p then b.m_lod_mesh lod_step else c.meshAt q lod_step := by
  by_cases hq : q = p <;> simp [meshAt, setBlock, hq]

theorem version_blockOrBlank (cfg : Config D) (c : Client D) (p : V3) :
    (c.blockOrBlank cfg p).nodes.version = c.versionAt p := by
  unfold blockOrBlank versionAt
  cases c.map p <;> rfl

theorem revision_blockOrBlank (h : Numbered c) (cfg : Config D) (p : V3) :
    c.revisionAt p ≤ (c.blockOrBlank cfg p).m_mesh_revision ∧
      (c.blockOrBlank cfg p).m_mesh_revision ≤ c.m_next_mesh_revision := by
  have hle := h.block_le p
  have hone := h.one_le
  unfold blockOrBlank
  unfold revisionAt at hle ⊢
  cases hb : c.map p with
  | none => exact ⟨Nat.zero_le _, hone⟩
  | some b =>
    rw [hb] at hle
    exact ⟨le_rfl, hle⟩

theorem mesh_blockOrBlank (cfg : Config D) (c : Client D) (p : V3) (lod_step : ℤ) :
    (c.blockOrBlank cfg p).m_lod_mesh lod_step = c.meshAt p lod_step := by
  unfold blockOrBlank meshAt
  cases c.map p <;> rfl

/-- A block whose nodes stay as they are gets a revision that was taken. -/
theorem Numbered.setBlock (h : Numbered c) {b : MapBlock D} (hversion : b.nodes.version = c.versionAt p)
    (hrevision : c.revisionAt p ≤ b.m_mesh_revision)
    (hnext : b.m_mesh_revision ≤ c.m_next_mesh_revision) : Numbered (c.setBlock p b) where
  one_le := h.one_le
  block_le q := by
    rw [revisionAt_setBlock]
    split_ifs
    · exact hnext
    · exact h.block_le q
  update_le := h.update_le
  version q := by
    rw [versionAt_setBlock]
    split_ifs with hq
    · rw [hversion, hq]
      exact h.version p
    · exact h.version q
  published q n revision hn := by
    rcases h.published q n revision hn with hle | hle
    · refine .inl (hle.trans ?_)
      rw [revisionAt_setBlock]
      split_ifs with hq
      · rw [hq]
        exact hrevision
      · exact le_rfl
    · exact .inr hle
  publishing_le := h.publishing_le

theorem meshAt_createBlankBlock (cfg : Config D) (c : Client D) (p q : V3) (lod_step : ℤ) :
    (c.createBlankBlock cfg p).meshAt q lod_step = c.meshAt q lod_step := by
  rw [Client.createBlankBlock, meshAt_setBlock, mesh_blockOrBlank]
  split_ifs with hq
  · rw [hq]
  · rfl

theorem Inv.createBlankBlock (h : Inv cfg c) (p : V3) : Inv cfg (c.createBlankBlock cfg p) := by
  have hversion := version_blockOrBlank cfg c p
  obtain ⟨hle, hnext⟩ := revision_blockOrBlank h.numbered cfg p
  refine h.later (h.numbered.setBlock hversion hle hnext) (later_setBlock hversion.ge hle) rfl rfl rfl ?_
  intro q lod_step mesh hmesh
  rwa [meshAt_createBlankBlock] at hmesh

theorem Numbered.install (h : Numbered c) (hidle : c.receiving = .idle) (p : V3) (data : D) :
    Numbered (c.install cfg p data) where
  one_le := h.one_le
  block_le q := by
    have hle : (c.install cfg p data).revisionAt q =
        if q = p then (c.blockOrBlank cfg p).m_mesh_revision else c.revisionAt q :=
      revisionAt_setBlock c p q _
    rw [hle]
    split_ifs
    · exact (revision_blockOrBlank h cfg p).2
    · exact h.block_le q
  update_le := h.update_le
  version q := by
    have hversion : (c.install cfg p data).versionAt q =
        if q = p then (c.blockOrBlank cfg p).nodes.version + 1 else c.versionAt q :=
      versionAt_setBlock c p q _
    have hq := h.version q
    rw [hidle] at hq
    have hzero : Receiving.idle.unnumbered q = 0 := rfl
    have hunnumbered : (c.install cfg p data).receiving.unnumbered q = if p = q then 1 else 0 := rfl
    have hupdates : (c.install cfg p data).updates q = c.updates q := rfl
    rw [hversion, hunnumbered, hupdates]
    by_cases heq : q = p
    · subst heq
      rw [if_pos rfl, if_pos rfl, version_blockOrBlank]
      omega
    · rw [if_neg heq, if_neg (Ne.symm heq)]
      omega
  published q n revision hn := by
    rcases h.published q n revision hn with hle | ⟨todo, hpub, -⟩
    · refine .inl (hle.trans ?_)
      have hrev : (c.install cfg p data).revisionAt q =
          if q = p then (c.blockOrBlank cfg p).m_mesh_revision else c.revisionAt q :=
        revisionAt_setBlock c p q _
      rw [hrev]
      split_ifs with hq
      · rw [hq]
        exact (revision_blockOrBlank h cfg p).1
      · exact le_rfl
    · rw [hidle] at hpub
      cases hpub
  publishing_le revision todo hpub := by cases hpub

theorem meshAt_install (cfg : Config D) (c : Client D) (p q : V3) (data : D) (lod_step : ℤ) :
    (c.install cfg p data).meshAt q lod_step = c.meshAt q lod_step := by
  have hmeshAt : (c.install cfg p data).meshAt q lod_step =
      if q = p then (c.blockOrBlank cfg p).m_lod_mesh lod_step else c.meshAt q lod_step :=
    meshAt_setBlock c p q _ lod_step
  rw [hmeshAt, mesh_blockOrBlank]
  split_ifs with hq
  · rw [hq]
  · rfl

theorem Inv.install (h : Inv cfg c) (hidle : c.receiving = .idle) (p : V3) (data : D) :
    Inv cfg (c.install cfg p data) := by
  have hversion := version_blockOrBlank cfg c p
  have hlater : Later c (c.install cfg p data) := by
    obtain ⟨hnext, hver, hrev, hkept, hnew⟩ := later_setBlock (c := c) (p := p)
      (b := { c.blockOrBlank cfg p with nodes := ⟨(c.blockOrBlank cfg p).nodes.version + 1, data⟩ })
      (by simp only [hversion]; omega) (revision_blockOrBlank h.numbered cfg p).1
    exact ⟨hnext, hver, hrev, hkept, hnew⟩
  refine h.later (h.numbered.install hidle p data) hlater rfl rfl rfl ?_
  intro q lod_step mesh hmesh
  rwa [meshAt_install] at hmesh

/-- The updates after a revision was taken. -/
theorem getElem?_takeRevision {n revision : ℕ} {q : V3}
    (h : ((c.takeRevision p).updates q)[n]? = some revision) :
    (c.updates q)[n]? = some revision ∨ q = p ∧ revision = c.m_next_mesh_revision + 1 := by
  have hupdates : (c.takeRevision p).updates =
      Function.update c.updates p (c.updates p ++ [c.m_next_mesh_revision + 1]) := rfl
  rw [hupdates] at h
  by_cases hq : q = p
  · subst hq
    rw [Function.update_self] at h
    rcases Nat.lt_or_ge n (c.updates q).length with hlt | hge
    · rw [List.getElem?_append_left hlt] at h
      exact .inl h
    · rw [List.getElem?_append_right hge] at h
      have hmem := List.mem_of_getElem? h
      rw [List.mem_singleton] at hmem
      exact .inr ⟨rfl, hmem⟩
  · rw [Function.update_of_ne hq] at h
    exact .inl h

theorem later_takeRevision (c : Client D) (p : V3) : Later c (c.takeRevision p) where
  next := Nat.le_succ _
  version _ := le_rfl
  revision _ := le_rfl
  kept q n revision hn := by
    have hupdates : (c.takeRevision p).updates =
        Function.update c.updates p (c.updates p ++ [c.m_next_mesh_revision + 1]) := rfl
    rw [hupdates]
    by_cases hq : q = p
    · subst hq
      rw [Function.update_self]
      exact List.getElem?_append_left (List.getElem?_eq_some_iff.mp hn).1 ▸ hn
    · rw [Function.update_of_ne hq]
      exact hn
  new q n revision hn := by
    rcases getElem?_takeRevision hn with hn | ⟨-, rfl⟩
    · exact .inl hn
    · exact .inr (Nat.lt_succ_self _)

theorem Numbered.takeRevision (h : Numbered c) (hr : c.receiving = .installed p) :
    Numbered (c.takeRevision p) where
  one_le := h.one_le.trans (Nat.le_succ _)
  block_le q := (h.block_le q).trans (Nat.le_succ _)
  update_le q n revision hn := by
    have hnext : (c.takeRevision p).m_next_mesh_revision = c.m_next_mesh_revision + 1 := rfl
    rw [hnext]
    rcases getElem?_takeRevision hn with hn | ⟨-, rfl⟩
    · have := h.update_le q n revision hn
      omega
    · omega
  version q := by
    have hq := h.version q
    rw [hr] at hq
    have hold : (Receiving.installed p).unnumbered q = if p = q then 1 else 0 := rfl
    have hnew : (c.takeRevision p).receiving.unnumbered q = 0 := rfl
    have hversion : (c.takeRevision p).versionAt q = c.versionAt q := rfl
    have hupdates : (c.takeRevision p).updates =
        Function.update c.updates p (c.updates p ++ [c.m_next_mesh_revision + 1]) := rfl
    rw [hversion, hnew, hq, hold, hupdates]
    by_cases heq : p = q
    · subst heq
      rw [if_pos rfl, Function.update_self, List.length_append, List.length_singleton]
    · rw [if_neg heq, Function.update_of_ne (Ne.symm heq)]
  published q n revision hn := by
    rcases getElem?_takeRevision hn with hn | ⟨rfl, rfl⟩
    · rcases h.published q n revision hn with hle | ⟨todo, hpub, -⟩
      · exact .inl hle
      · rw [hr] at hpub
        cases hpub
    · refine .inr ⟨_, rfl, List.mem_map.mpr ⟨⟨0, 0, 0⟩, by decide, ?_⟩⟩
      simp [Voxel.V3.add_def]
  publishing_le revision todo hpub := by
    injection hpub with hrev htodo
    rw [← hrev]
    exact le_rfl

theorem Inv.takeRevision (h : Inv cfg c) (hr : c.receiving = .installed p) :
    Inv cfg (c.takeRevision p) :=
  h.later (h.numbered.takeRevision hr) (later_takeRevision c p) rfl rfl rfl fun _ _ _ hmesh => hmesh

/-- The main thread goes on with what is left to publish. -/
theorem Numbered.goOn (h : Numbered c) {r : Receiving}
    (hunnumbered : ∀ q, r.unnumbered q = c.receiving.unnumbered q)
    (hpublished : ∀ (q : V3) (n revision : ℕ), (c.updates q)[n]? = some revision → revision ≤ c.revisionAt q ∨
      ∃ todo, r = .publishing revision todo ∧ Bump.edge q ∈ todo)
    (hle : ∀ revision todo, r = .publishing revision todo → revision ≤ c.m_next_mesh_revision) :
    Numbered { c with receiving := r } where
  one_le := h.one_le
  block_le := h.block_le
  update_le := h.update_le
  version q := (h.version q).trans (congrArg ((c.updates q).length + ·) (hunnumbered q).symm)
  published := hpublished
  publishing_le := hle

theorem later_receiving (c : Client D) (r : Receiving) : Later c { c with receiving := r } :=
  ⟨le_rfl, fun _ => le_rfl, fun _ => le_rfl, fun _ _ _ hn => hn, fun _ _ _ hn => .inl hn⟩

theorem Inv.goOn (h : Inv cfg c) {r : Receiving} (hnumbered : Numbered { c with receiving := r }) :
    Inv cfg { c with receiving := r } :=
  h.later hnumbered (later_receiving c r) rfl rfl rfl fun _ _ _ hmesh => hmesh

theorem revisionAt_of_some {b : MapBlock D} (h : c.map p = some b) :
    c.revisionAt p = b.m_mesh_revision := by
  rw [revisionAt, h]
  rfl

theorem versionAt_of_some {b : MapBlock D} (h : c.map p = some b) :
    c.versionAt p = b.nodes.version := by
  rw [versionAt, h]
  rfl

theorem meshAt_updateMeshRevision {b : MapBlock D} (hb : c.map p = some b) (revision : ℕ) (q : V3)
    (lod_step : ℤ) :
    (c.setBlock p (b.updateMeshRevision revision)).meshAt q lod_step = c.meshAt q lod_step := by
  rw [meshAt_setBlock]
  split_ifs with hq
  · rw [meshAt, hq, hb]
    rfl
  · rfl

/-- A block gets a revision that was taken. -/
theorem Inv.updateMeshRevision (h : Inv cfg c) {b : MapBlock D} (hb : c.map p = some b)
    {revision : ℕ} (hnext : revision ≤ c.m_next_mesh_revision) :
    Inv cfg (c.setBlock p (b.updateMeshRevision revision)) := by
  have hle : c.revisionAt p ≤ (b.updateMeshRevision revision).m_mesh_revision := by
    rw [revisionAt_of_some hb]
    exact le_max_left _ _
  have hold : b.m_mesh_revision ≤ c.m_next_mesh_revision := by
    rw [← revisionAt_of_some hb]
    exact h.numbered.block_le p
  refine h.later (h.numbered.setBlock (versionAt_of_some hb).symm hle (max_le hold hnext))
    (later_setBlock (versionAt_of_some hb).le hle) rfl rfl rfl ?_
  intro q lod_step mesh hmesh
  rwa [meshAt_updateMeshRevision hb] at hmesh

theorem meshAt_bump (cfg : Config D) (c : Client D) (revision : ℕ) (b : Bump) (todo : List Bump)
    (q : V3) (lod_step : ℤ) :
    (c.bump cfg revision b todo).meshAt q lod_step = c.meshAt q lod_step := by
  cases b with
  | edge pos =>
    simp only [Client.bump]
    split
    · rfl
    · rename_i block hb
      exact meshAt_updateMeshRevision hb revision q lod_step
  | holder mesh_pos =>
    simp only [Client.bump]
    split
    · rfl
    · rename_i block hb
      exact meshAt_updateMeshRevision hb revision q lod_step

theorem Inv.bump (h : Inv cfg c) {revision : ℕ} {b : Bump} {todo : List Bump}
    (hr : c.receiving = .publishing revision (b :: todo)) : Inv cfg (c.bump cfg revision b todo) := by
  have hnext := h.numbered.publishing_le revision _ hr
  have hsame : ∀ (todo' : List Bump) (q : V3),
      (Receiving.publishing revision todo').unnumbered q = c.receiving.unnumbered q := by
    intro todo' q
    rw [hr]
    rfl
  -- the updates that were published, or are in what is left
  have hleft : ∀ (q : V3) (n rev : ℕ), (c.updates q)[n]? = some rev → rev ≤ c.revisionAt q ∨
      rev = revision ∧ (b = .edge q ∨ Bump.edge q ∈ todo) := by
    intro q n rev hn
    rcases h.numbered.published q n rev hn with hle | ⟨todo', hpub, hmem⟩
    · exact .inl hle
    · rw [hr] at hpub
      injection hpub with hrev htodo
      subst htodo
      refine .inr ⟨hrev.symm, ?_⟩
      rcases List.mem_cons.mp hmem with hmem | hmem
      · exact .inl hmem.symm
      · exact .inr hmem
  cases b with
  | edge pos =>
    cases hb : c.map pos with
    | none =>
      have heq : c.bump cfg revision (.edge pos) todo =
          { c with receiving := .publishing revision todo } := by
        simp only [Client.bump, hb]
      rw [heq]
      refine h.goOn (h.numbered.goOn (hsame todo) ?_ ?_)
      · intro q n rev hn
        rcases hleft q n rev hn with hle | ⟨rfl, hq | hq⟩
        · exact .inl hle
        · -- a block that is not there was never received
          injection hq with hq
          subst hq
          have hversion := h.numbered.version pos
          have hzero : c.versionAt pos = 0 := by
            rw [versionAt, hb]
            rfl
          have hlt := (List.getElem?_eq_some_iff.mp hn).1
          omega
        · exact .inr ⟨todo, rfl, hq⟩
      · intro rev todo' heq'
        injection heq' with hrev
        rw [← hrev]
        exact hnext
    | some block =>
      have hinv := h.updateMeshRevision hb hnext
      have heq : c.bump cfg revision (.edge pos) todo =
          { c.setBlock pos (block.updateMeshRevision revision) with
            receiving := .publishing revision
              (if getMeshPos cfg.cell_size pos ≠ pos then
                .holder (getMeshPos cfg.cell_size pos) :: todo else todo) } := by
        simp only [Client.bump, hb]
      rw [heq]
      refine hinv.goOn (hinv.numbered.goOn (hsame _) ?_ ?_)
      · intro q n rev hn
        have hgrow := (later_setBlock (c := c) (p := pos)
          (b := block.updateMeshRevision revision) (versionAt_of_some hb).le
          (by rw [revisionAt_of_some hb]; exact le_max_left _ _)).revision q
        rcases hleft q n rev hn with hle | ⟨rfl, hq | hq⟩
        · exact .inl (hle.trans hgrow)
        · injection hq with hq
          subst hq
          refine .inl ?_
          rw [revisionAt_setBlock, if_pos rfl]
          exact le_max_right _ _
        · refine .inr ⟨_, rfl, ?_⟩
          split_ifs
          · exact List.mem_cons_of_mem _ hq
          · exact hq
      · intro rev todo' heq'
        injection heq' with hrev
        rw [← hrev]
        exact hnext
  | holder mesh_pos =>
    cases hb : c.map mesh_pos with
    | none =>
      have heq : c.bump cfg revision (.holder mesh_pos) todo =
          { c with receiving := .publishing revision todo } := by
        simp only [Client.bump, hb]
      rw [heq]
      refine h.goOn (h.numbered.goOn (hsame todo) ?_ ?_)
      · intro q n rev hn
        rcases hleft q n rev hn with hle | ⟨rfl, hq | hq⟩
        · exact .inl hle
        · cases hq
        · exact .inr ⟨todo, rfl, hq⟩
      · intro rev todo' heq'
        injection heq' with hrev
        rw [← hrev]
        exact hnext
    | some block =>
      have hinv := h.updateMeshRevision hb hnext
      have heq : c.bump cfg revision (.holder mesh_pos) todo =
          { c.setBlock mesh_pos (block.updateMeshRevision revision) with
            receiving := .publishing revision todo } := by
        simp only [Client.bump, hb]
      rw [heq]
      refine hinv.goOn (hinv.numbered.goOn (hsame _) ?_ ?_)
      · intro q n rev hn
        have hgrow := (later_setBlock (c := c) (p := mesh_pos)
          (b := block.updateMeshRevision revision) (versionAt_of_some hb).le
          (by rw [revisionAt_of_some hb]; exact le_max_left _ _)).revision q
        rcases hleft q n rev hn with hle | ⟨rfl, hq | hq⟩
        · exact .inl (hle.trans hgrow)
        · cases hq
        · exact .inr ⟨_, rfl, hq⟩
      · intro rev todo' heq'
        injection heq' with hrev
        rw [← hrev]
        exact hnext

theorem Inv.publishedAll (h : Inv cfg c) {revision : ℕ}
    (hr : c.receiving = .publishing revision []) : Inv cfg { c with receiving := .idle } := by
  refine h.goOn (h.numbered.goOn ?_ ?_ ?_)
  · intro q
    rw [hr]
    rfl
  · intro q n rev hn
    rcases h.numbered.published q n rev hn with hle | ⟨todo, hpub, hmem⟩
    · exact .inl hle
    · rw [hr] at hpub
      injection hpub with hrev htodo
      rw [← htodo] at hmem
      cases hmem
  · intro rev todo heq
    cases heq

/-! ## Results -/

theorem le_foldl_max {l : List ℕ} {m n : ℕ} : (n ∈ l ∨ n ≤ m) → n ≤ l.foldl max m := by
  induction l generalizing m with
  | nil =>
    rintro (h | h)
    · cases h
    · exact h
  | cons a l ih =>
    intro h
    apply ih
    rcases h with h | h
    · rcases List.mem_cons.mp h with rfl | h
      · exact .inr (le_max_right _ _)
      · exact .inl h
    · exact .inr (h.trans (le_max_left _ _))

theorem le_currentRevision {r : MeshUpdateResult D} (h : some a ∈ r.map_blocks) :
    c.revisionAt a ≤ c.currentRevision r := by
  refine le_max_of_le_left (le_foldl_max (.inl (List.mem_map.mpr ⟨a, ?_, rfl⟩)))
  exact List.reduceOption_mem_iff.mpr h

/-- With no received block at work every update has been published. -/
theorem Numbered.idle (h : Numbered c) (hidle : c.receiving = .idle) :
    (∀ p, c.versionAt p = (c.updates p).length) ∧
      ∀ (p : V3) (n revision : ℕ), (c.updates p)[n]? = some revision → revision ≤ c.revisionAt p := by
  constructor
  · intro p
    have hp := h.version p
    rw [hidle] at hp
    exact hp
  · intro p n revision hn
    rcases h.published p n revision hn with hle | ⟨todo, hpub, -⟩
    · exact hle
    · rw [hidle] at hpub
      cases hpub

/-- A result that is accepted was made from no update above its revision. -/
theorem goodMesh_of_accepted (h : Inv cfg c) (hidle : c.receiving = .idle) {r : MeshUpdateResult D}
    (hr : GoodResult cfg c r) (haccept : r.mesh.mesh_revision ≥ c.currentRevision r) :
    ∀ a ∈ cellBlocks cfg.cell_size r.p, ∀ n < versionOf r.mesh.copies a,
      ∃ revision : ℕ, (c.updates a)[n]? = some revision ∧ revision ≤ r.mesh.mesh_revision := by
  intro a ha n hn
  obtain ⟨hversion, hpublished⟩ := h.numbered.idle hidle
  have hlt : n < (c.updates a).length := by
    have := hr.copied.version_le a
    have := hversion a
    omega
  have hupdate : (c.updates a)[n]? = some (c.updates a)[n] := List.getElem?_eq_getElem hlt
  have hheld : some a ∈ r.map_blocks := by
    cases hcopy : r.mesh.copies a with
    | none =>
      rw [versionOf, hcopy] at hn
      exact absurd hn (Nat.not_lt_zero n)
    | some s => exact hr.copied.held a s hcopy
  exact ⟨_, hupdate, (hpublished a n _ hupdate).trans ((le_currentRevision hheld).trans haccept)⟩

theorem meshAt_replaceMesh {r : MeshUpdateResult D} {q : V3} {lod_step : ℤ}
    {mesh : MapBlockMesh D} (h : (c.replaceMesh cfg r).meshAt q lod_step = some mesh) :
    c.meshAt q lod_step = some mesh ∨
      q = r.p ∧ mesh = r.mesh ∧ r.mesh.mesh_revision ≥ c.currentRevision r := by
  unfold replaceMesh at h
  split_ifs at h with haccept
  · rw [meshAt_setBlock] at h
    split_ifs at h with hq
    · by_cases hlod : lod_step = r.mesh.lod_step
      · subst hlod
        dsimp only at h
        rw [Function.update_self] at h
        exact .inr ⟨hq, (Option.some.inj h).symm, haccept⟩
      · dsimp only at h
        rw [Function.update_of_ne hlod, MapBlock.updateMeshRevision, mesh_blockOrBlank] at h
        rw [hq]
        exact .inl h
    · exact .inl h
  · exact .inl h

theorem Inv.replaceMesh (h : Inv cfg c) (hidle : c.receiving = .idle) {r : MeshUpdateResult D}
    (hr : GoodResult cfg c r) : Inv cfg (c.replaceMesh cfg r) := by
  by_cases haccept : r.mesh.mesh_revision ≥ c.currentRevision r
  · have heq : c.replaceMesh cfg r = c.setBlock r.p
        { (c.blockOrBlank cfg r.p).updateMeshRevision r.mesh.mesh_revision with
          m_lod_mesh := Function.update (c.blockOrBlank cfg r.p).m_lod_mesh r.mesh.lod_step
            (some r.mesh) } := if_pos haccept
    obtain ⟨hle, hnext⟩ := revision_blockOrBlank h.numbered cfg r.p
    have hversion := version_blockOrBlank cfg c r.p
    have hgood := goodMesh_of_accepted h hidle hr haccept
    have hlater : Later c (c.replaceMesh cfg r) := by
      rw [heq]
      exact later_setBlock hversion.ge (hle.trans (le_max_left _ _))
    have hnumbered : Numbered (c.replaceMesh cfg r) := by
      rw [heq]
      exact h.numbered.setBlock hversion (hle.trans (le_max_left _ _)) (max_le hnext hr.revision_le)
    have hrevision : r.mesh.mesh_revision ≤ (c.replaceMesh cfg r).revisionAt r.p := by
      rw [heq, revisionAt_setBlock, if_pos rfl]
      exact le_max_right _ _
    have hfields : (c.replaceMesh cfg r).queue = c.queue ∧ (c.replaceMesh cfg r).making = c.making ∧
        (c.replaceMesh cfg r).results = c.results := by
      rw [heq]
      exact ⟨rfl, rfl, rfl⟩
    refine ⟨hnumbered, ?_, ?_, ?_⟩
    · intro urgent worker d hd
      rw [hfields.2.1] at hd
      obtain ⟨q, hq, hjob⟩ := h.jobs urgent worker d hd
      exact ⟨q, by rw [hfields.1]; exact hq, hjob.later hlater⟩
    · intro urgent r' hr'
      rw [hfields.2.2] at hr'
      exact (h.results urgent r' hr').later hlater
    · intro q lod_step mesh hmesh
      rcases meshAt_replaceMesh hmesh with hmesh | ⟨rfl, rfl, -⟩
      · exact (h.meshes q lod_step mesh hmesh).later hlater
      · refine ⟨hrevision, fun a ha n hn => ?_⟩
        obtain ⟨revision, hupdate, hle'⟩ := hgood a ha n hn
        exact ⟨revision, hlater.kept a n revision hupdate, hle'⟩
  · have heq : c.replaceMesh cfg r = c := if_neg haccept
    rw [heq]
    exact h

theorem Inv.ofResults (h : Inv cfg c) {results : Bool → List (MeshUpdateResult D)}
    (hresults : ∀ urgent, ∀ r ∈ results urgent, r ∈ c.results urgent) :
    Inv cfg { c with results } :=
  ⟨h.numbered.sameMap ⟨rfl, rfl, rfl, rfl⟩, fun urgent worker d hd => by
      obtain ⟨q, hq, hjob⟩ := h.jobs urgent worker d hd
      exact ⟨q, hq, hjob.later (SameMap.later ⟨rfl, rfl, rfl, rfl⟩)⟩,
    fun urgent r hr => (h.results urgent r (hresults urgent r hr)).later
      (SameMap.later ⟨rfl, rfl, rfl, rfl⟩),
    fun p lod_step mesh hmesh => (h.meshes p lod_step mesh hmesh).later
      (SameMap.later ⟨rfl, rfl, rfl, rfl⟩)⟩

/-- `nextResult` takes a result, or does nothing. -/
theorem nextResult_cases (cfg : Config D) (c : Client D) :
    c.nextResult cfg = c ∨ ∃ urgent r rs, c.results urgent = r :: rs ∧
      c.nextResult cfg =
        { c.replaceMesh cfg r with results := Function.update c.results urgent rs } := by
  unfold nextResult
  cases htrue : c.results true with
  | cons r rs => exact .inr ⟨true, r, rs, htrue, rfl⟩
  | nil =>
    cases hfalse : c.results false with
    | cons r rs => exact .inr ⟨false, r, rs, hfalse, rfl⟩
    | nil => exact .inl rfl

theorem results_replaceMesh (c : Client D) (r : MeshUpdateResult D) :
    (c.replaceMesh cfg r).results = c.results := by
  unfold replaceMesh
  split_ifs <;> rfl

theorem Inv.nextResult (h : Inv cfg c) (hidle : c.receiving = .idle) :
    Inv cfg (c.nextResult cfg) := by
  rcases nextResult_cases cfg c with heq | ⟨urgent, r, rs, hrs, heq⟩
  · rw [heq]
    exact h
  · have hr := h.results urgent r (by rw [hrs]; exact List.mem_cons_self)
    rw [heq]
    refine (h.replaceMesh hidle hr).ofResults ?_
    intro urgent' r' hr'
    rw [results_replaceMesh]
    by_cases hu : urgent' = urgent
    · subst hu
      rw [Function.update_self] at hr'
      rw [hrs]
      exact List.mem_cons_of_mem _ hr'
    · rw [Function.update_of_ne hu] at hr'
      exact hr'

/-- The mesh of a result that is taken is no older than the one it replaces. -/
theorem neverOlder_nextResult (h : Inv cfg c) {q : V3} {lod_step : ℤ} {mesh mesh' : MapBlockMesh D}
    (hmesh : c.meshAt q lod_step = some mesh)
    (hmesh' : (c.nextResult cfg).meshAt q lod_step = some mesh') :
    ∀ a ∈ cellBlocks cfg.cell_size q, versionOf mesh.copies a ≤ versionOf mesh'.copies a := by
  intro a ha
  rcases nextResult_cases cfg c with heq | ⟨urgent, r, rs, hrs, heq⟩
  · rw [heq, hmesh] at hmesh'
    rw [Option.some.inj hmesh']
  · have hr := h.results urgent r (by rw [hrs]; exact List.mem_cons_self)
    rw [heq] at hmesh'
    rcases meshAt_replaceMesh (c := c) (r := r) hmesh' with hsame | ⟨rfl, rfl, haccept⟩
    · rw [hmesh] at hsame
      rw [Option.some.inj hsame]
    · have hgood := h.meshes _ lod_step mesh hmesh
      by_contra hlt
      have hlt : versionOf r.mesh.copies a < versionOf mesh.copies a := Nat.not_le.mp hlt
      obtain ⟨revision, hupdate, hle⟩ := hgood.copied a ha _ hlt
      have hle' : revision ≤ r.mesh.mesh_revision :=
        hle.trans (hgood.revision_le.trans ((le_max_right _ _).trans haccept))
      exact Nat.lt_irrefl _ (hr.includes a ha _ revision hupdate hle')

/-! ## The workers -/

theorem workers_enqueue (cell_size : ℕ) (s : MeshUpdates V3) (view : MapView V3) (r : MeshRequest) :
    (s.enqueue cell_size id view r).workers = s.workers := by
  unfold MeshUpdates.enqueue
  dsimp only
  split
  · rfl
  · split_ifs <;> rfl

theorem workers_addBlock (cell_size : ℕ) (s : MeshUpdates V3) (view : MapView V3) (r : MeshRequest) :
    (s.addBlock cell_size id view r).workers = s.workers := by
  unfold MeshUpdates.addBlock
  split_ifs
  · rfl
  · rw [workers_enqueue, MeshUpdates.markUrgent]
    split_ifs <;> rfl

theorem Inv.workers (h : Inv cfg c) (hs : SameMap c c')
    (hjobs : ∀ urgent worker d, c'.making urgent worker = some d →
      ∃ q, (c'.queue urgent).workers[worker]? = some (.making q) ∧ GoodJob cfg.cell_size c q d)
    (hresults : ∀ urgent, ∀ r ∈ c'.results urgent, GoodResult cfg c r) : Inv cfg c' where
  numbered := h.numbered.sameMap hs
  jobs urgent worker d hd := by
    obtain ⟨q, hq, hjob⟩ := hjobs urgent worker d hd
    exact ⟨q, hq, hjob.later hs.later⟩
  results urgent r hr := (hresults urgent r hr).later hs.later
  meshes p lod_step mesh hmesh := by
    rw [hs.meshAt] at hmesh
    exact (h.meshes p lod_step mesh hmesh).later hs.later

theorem queue_setQueue (c : Client D) (urgent u : Bool) (q : MeshUpdates V3) :
    (c.setQueue urgent q).queue u = if u = urgent then q else c.queue u := by
  by_cases hu : u = urgent
  · subst hu
    simp [setQueue]
  · simp [setQueue, hu]

theorem making_setMaking (c : Client D) (urgent u : Bool) (worker w : ℕ)
    (d : Option (MeshMakeData D)) :
    (c.setMaking urgent worker d).making u w =
      if u = urgent ∧ w = worker then d else c.making u w := by
  by_cases hu : u = urgent
  · subst hu
    by_cases hw : w = worker <;> simp [setMaking, hw]
  · simp [setMaking, hu]

/-- A queue is changed, but none of its workers. -/
theorem Inv.setQueue (h : Inv cfg c) (urgent : Bool) {q : MeshUpdates V3}
    (hq : q.workers = (c.queue urgent).workers) : Inv cfg (c.setQueue urgent q) := by
  refine h.workers ⟨rfl, rfl, rfl, rfl⟩ ?_ h.results
  intro u w d hd
  obtain ⟨job, hjob, hgood⟩ := h.jobs u w d hd
  refine ⟨job, ?_, hgood⟩
  rw [queue_setQueue]
  split_ifs with hu
  · rw [hq, ← hu]
    exact hjob
  · exact hjob

/-- An idle worker takes an entry, or stays idle. -/
theorem pop_cases {s s' : MeshUpdates V3} {i : ℕ} (h : s.pop i = some s') :
    s.workers[i]? = some .idle ∧
      (s' = s ∨ ∃ q, s'.workers = s.workers.set i (.making q)) := by
  unfold MeshUpdates.pop at h
  split at h
  · rename_i hidle
    refine ⟨hidle, ?_⟩
    split at h
    · exact .inl (Option.some.inj h).symm
    · rename_i q hfind
      obtain rfl := Option.some.inj h
      exact .inr ⟨q, rfl⟩
  · cases h

theorem goodJob_new (h : Inv cfg c) (q : Freeminer.Client.QueuedMeshUpdate V3) (step : ℤ) :
    GoodJob cfg.cell_size c q { lod_step := step, pending := q.map_blocks.reduceOption } where
  revision_le := Nat.zero_le _
  copied := by
    refine ⟨?_, fun a => Nat.zero_le _⟩
    intro a s hs
    cases hs
  pending a ha := List.reduceOption_mem_iff.mp ha
  missed a _ _ n revision hn _ := (h.numbered.update_le a n revision hn).1

theorem Inv.pop (h : Inv cfg c) {urgent : Bool} {worker : ℕ} {step : ℤ}
    (hstep : c.pop urgent worker step = some c') : Inv cfg c' := by
  unfold Client.pop at hstep
  cases hpop : (c.queue urgent).pop worker with
  | none =>
    rw [hpop] at hstep
    cases hstep
  | some queue =>
    rw [hpop] at hstep
    dsimp only at hstep
    obtain ⟨hidle, hqueue | ⟨q, hqueue⟩⟩ := pop_cases hpop
    · subst hqueue
      rw [hidle] at hstep
      obtain rfl := Option.some.inj hstep
      exact h.setQueue urgent rfl
    · have hlt : worker < (c.queue urgent).workers.length :=
        (List.getElem?_eq_some_iff.mp hidle).1
      have hworker : queue.workers[worker]? = some (.making q) := by
        rw [hqueue, List.getElem?_set_self hlt]
      rw [hworker] at hstep
      obtain rfl := Option.some.inj hstep
      refine h.workers ⟨rfl, rfl, rfl, rfl⟩ ?_ h.results
      intro u w d hd
      rw [making_setMaking] at hd
      by_cases hw : u = urgent ∧ w = worker
      · rw [if_pos hw] at hd
        obtain ⟨rfl, rfl⟩ := hw
        obtain rfl := Option.some.inj hd
        refine ⟨q, ?_, goodJob_new h q _⟩
        have hself : ((c.setQueue u queue).queue u) = queue := by
          rw [queue_setQueue, if_pos rfl]
        exact (congrArg (fun s : MeshUpdates V3 => s.workers[w]?) hself).trans hworker
      · rw [if_neg hw] at hd
        obtain ⟨job, hjob, hgood⟩ := h.jobs u w d hd
        refine ⟨job, ?_, hgood⟩
        change ((c.setQueue urgent queue).queue u).workers[w]? = _
        rw [queue_setQueue]
        split_ifs with hu
        · subst hu
          have hne : worker ≠ w := fun heq => hw ⟨rfl, heq.symm⟩
          rw [hqueue, List.getElem?_set_ne hne]
          exact hjob
        · exact hjob

theorem versionOf_update (copies : V3 → Option (Snapshot D)) (s : Snapshot D) (q : V3) :
    versionOf (Function.update copies p (some s)) q = if q = p then s.version else versionOf copies q := by
  by_cases hq : q = p <;> simp [versionOf, hq]

theorem GoodJob.fill (h : Inv cfg c) {q : Freeminer.Client.QueuedMeshUpdate V3} {d : MeshMakeData D}
    {pending : List V3} (hgood : GoodJob cfg.cell_size c q d) (hd : d.pending = p :: pending)
    (hintime : ∀ a ∈ cellBlocks cfg.cell_size q.p, a ∉ d.pending →
      ∀ revision ∈ (c.updates a).drop (versionOf d.copies a), c.revisionAt p < revision) :
    GoodJob cfg.cell_size c q (c.fill d p pending) := by
  have hpending : ∀ a ∈ pending, some a ∈ q.map_blocks :=
    fun a ha => hgood.pending a (hd ▸ List.mem_cons_of_mem _ ha)
  have hversion : (c.updates p).length ≤ c.versionAt p := by
    have := h.numbered.version p
    omega
  cases hb : c.map p with
  | none =>
    have heq : c.fill d p pending = { d with pending } := by simp only [Client.fill, hb]
    rw [heq]
    refine ⟨hgood.revision_le, hgood.copied, hpending, ?_⟩
    intro a ha hnot n revision hn hle
    by_cases hap : a = p
    · -- a block that is not there was never received
      subst hap
      have hzero : c.versionAt a = 0 := by
        rw [versionAt, hb]
        rfl
      have hlt := (List.getElem?_eq_some_iff.mp hn).1
      omega
    · refine hgood.missed a ha ?_ n revision hn hle
      rw [hd]
      exact fun hmem => (List.mem_cons.mp hmem).elim hap hnot
  | some b =>
    have heq : c.fill d p pending =
        { d with
          mesh_revision := max d.mesh_revision b.m_mesh_revision
          copies := Function.update d.copies p (some b.nodes)
          pending } := by
      simp only [Client.fill, hb]
    rw [heq]
    refine ⟨?_, ⟨?_, ?_⟩, hpending, ?_⟩
    · refine max_le hgood.revision_le ?_
      rw [← revisionAt_of_some hb]
      exact h.numbered.block_le p
    · intro a s hs
      by_cases hap : a = p
      · rw [hap]
        exact hgood.pending p (hd ▸ List.mem_cons_self)
      · dsimp only at hs
        rw [Function.update_of_ne hap] at hs
        exact hgood.copied.held a s hs
    · intro a
      dsimp only
      rw [versionOf_update]
      split_ifs with hap
      · rw [hap, versionAt_of_some hb]
      · exact hgood.copied.version_le a
    · intro a ha hnot n revision hn hle
      dsimp only at hle ⊢
      rw [versionOf_update] at hle
      by_cases hap : a = p
      · -- the copy has all updates of the block so far
        rw [if_pos hap] at hle
        have hlt := (List.getElem?_eq_some_iff.mp hn).1
        rw [hap] at hlt
        rw [versionAt_of_some hb] at hversion
        omega
      · rw [if_neg hap] at hle
        have hnot' : a ∉ d.pending := by
          rw [hd]
          exact fun hmem => (List.mem_cons.mp hmem).elim hap hnot
        have hmem : revision ∈ (c.updates a).drop (versionOf d.copies a) := by
          refine List.mem_of_getElem? (i := n - versionOf d.copies a) ?_
          rw [List.getElem?_drop, Nat.add_sub_cancel' hle]
          exact hn
        have hrev := hintime a ha hnot' revision hmem
        rw [revisionAt_of_some hb] at hrev
        exact max_lt (hgood.missed a ha hnot' n revision hn hle) hrev

theorem Inv.copy (h : Inv cfg c) {urgent : Bool} {worker : ℕ}
    (hintime : c.InTime cfg (.copy urgent worker)) (hstep : c.copy urgent worker = some c') :
    Inv cfg c' := by
  unfold Client.copy at hstep
  cases hd : c.making urgent worker with
  | none =>
    rw [hd] at hstep
    cases hstep
  | some d =>
    rw [hd] at hstep
    dsimp only at hstep
    cases hpending : d.pending with
    | nil =>
      rw [hpending] at hstep
      cases hstep
    | cons p pending =>
      rw [hpending] at hstep
      obtain rfl := Option.some.inj hstep
      obtain ⟨q, hq, hgood⟩ := h.jobs urgent worker d hd
      have hpos : c.jobPos urgent worker = some q.p := by
        rw [jobPos, hq]
        rfl
      refine h.workers ⟨rfl, rfl, rfl, rfl⟩ ?_ h.results
      intro u w d' hd'
      rw [making_setMaking] at hd'
      split_ifs at hd' with hw
      · obtain ⟨rfl, rfl⟩ := hw
        obtain rfl := Option.some.inj hd'
        exact ⟨q, hq, hgood.fill h hpending (hintime d hd p (by rw [hpending]; rfl) q.p hpos)⟩
      · exact h.jobs u w d' hd'

theorem Inv.putResult (h : Inv cfg c) {urgent isEmpty : Bool} {worker : ℕ}
    (hstep : c.putResult urgent worker isEmpty = some c') : Inv cfg c' := by
  unfold Client.putResult at hstep
  split at hstep
  · rename_i q d hq hd
    split_ifs at hstep with hpending
    obtain rfl := Option.some.inj hstep
    obtain ⟨q', hq', hgood⟩ := h.jobs urgent worker d hd
    rw [hq] at hq'
    injection hq' with hq'
    injection hq' with hq'
    subst hq'
    refine h.workers ⟨rfl, rfl, rfl, rfl⟩ ?_ ?_
    · intro u w d' hd'
      change ((c.setQueue urgent _).setMaking urgent worker none).making u w = some d' at hd'
      rw [making_setMaking] at hd'
      split_ifs at hd' with hw
      obtain ⟨job, hjob, hgood'⟩ := h.jobs u w d' hd'
      refine ⟨job, ?_, hgood'⟩
      change ((c.setQueue urgent _).queue u).workers[w]? = _
      rw [queue_setQueue]
      split_ifs with hu
      · subst hu
        have hne : worker ≠ w := fun heq => hw ⟨rfl, heq.symm⟩
        dsimp only
        rw [List.getElem?_set_ne hne]
        exact hjob
      · exact hjob
    · have hresult : GoodResult cfg c
          { p := q.p, mesh := ⟨d.mesh_revision, d.lod_step, isEmpty, d.copies⟩, ack_list := q.ack_list,
            urgent := q.urgent, map_blocks := q.map_blocks } := by
        refine ⟨hgood.revision_le, hgood.copied, ?_⟩
        intro a ha n revision hn hle
        by_contra hmissed
        have hlt := hgood.missed a ha (by simp [hpending]) n revision hn (Nat.not_lt.mp hmissed)
        exact Nat.lt_irrefl _ (hlt.trans_le hle)
      intro u r hr
      change r ∈ Function.update c.results q.urgent (c.results q.urgent ++ [_]) u at hr
      by_cases hu : u = q.urgent
      · subst hu
        rw [Function.update_self] at hr
        rcases List.mem_append.mp hr with hr | hr
        · exact h.results _ r hr
        · rw [List.mem_singleton] at hr
          rw [hr]
          exact hresult
      · rw [Function.update_of_ne hu] at hr
        exact h.results u r hr
  · cases hstep

theorem Inv.done (h : Inv cfg c) {urgent : Bool} {worker : ℕ}
    (hstep : c.done urgent worker = some c') : Inv cfg c' := by
  obtain ⟨queue, hqueue, rfl⟩ := Option.map_eq_some_iff.mp hstep
  unfold MeshUpdates.done at hqueue
  split at hqueue
  · rename_i p hreported
    obtain rfl := Option.some.inj hqueue
    refine h.workers ⟨rfl, rfl, rfl, rfl⟩ ?_ h.results
    intro u w d hd
    obtain ⟨job, hjob, hgood⟩ := h.jobs u w d hd
    refine ⟨job, ?_, hgood⟩
    rw [queue_setQueue]
    split_ifs with hu
    · subst hu
      have hne : worker ≠ w := by
        rintro rfl
        rw [hreported] at hjob
        cases hjob
      dsimp only
      rw [List.getElem?_set_ne hne]
      exact hjob
    · exact hjob
  · cases hqueue

theorem Inv.clearAllQueues (h : Inv cfg c) (finish : Bool) : Inv cfg (c.clearAllQueues finish) := by
  have hqueue := h.setQueue false (q := (c.queue false).clear finish) rfl
  exact hqueue.ofResults fun urgent r hr => (List.mem_filter.mp hr).1

/-! ## Runs -/

theorem Inv.step (h : Inv cfg c) {op : Op D} (hintime : c.InTime cfg op)
    (hstep : c.step cfg op = some c') : Inv cfg c' := by
  cases op with
  | createBlankBlock p =>
    simp only [Client.step] at hstep
    split at hstep
    · exact Option.some.inj hstep ▸ h.createBlankBlock p
    · cases hstep
  | install p data =>
    simp only [Client.step] at hstep
    split at hstep
    · rename_i hidle
      exact Option.some.inj hstep ▸ h.install hidle p data
    · cases hstep
  | takeRevision =>
    simp only [Client.step] at hstep
    split at hstep
    · rename_i p hr
      exact Option.some.inj hstep ▸ h.takeRevision hr
    · cases hstep
  | bump =>
    simp only [Client.step] at hstep
    split at hstep
    · rename_i revision b todo hr
      exact Option.some.inj hstep ▸ h.bump hr
    · rename_i revision hr
      exact Option.some.inj hstep ▸ h.publishedAll hr
    · cases hstep
  | addBlock urgent r =>
    exact Option.some.inj hstep ▸ h.setQueue urgent (workers_addBlock _ _ _ _)
  | pop urgent worker step => exact h.pop hstep
  | copy urgent worker => exact h.copy hintime hstep
  | putResult urgent worker isEmpty => exact h.putResult hstep
  | done urgent worker => exact h.done hstep
  | nextResult =>
    simp only [Client.step] at hstep
    split at hstep
    · rename_i hidle
      exact Option.some.inj hstep ▸ h.nextResult hidle
    · cases hstep
  | clearAllQueues finish => exact Option.some.inj hstep ▸ h.clearAllQueues finish

theorem inv_run (h : (system cfg).Run (InTime cfg) c) : Inv cfg c := by
  refine h.invariant ?_ fun _ _ _ hinv hok hstep => hinv.step hok hstep
  rintro c ⟨n, rfl⟩
  refine ⟨⟨le_rfl, fun p => Nat.zero_le _, ?_, fun p => rfl, ?_, ?_⟩, ?_, ?_, ?_⟩
  · intro p n revision hn
    cases hn
  · intro p n revision hn
    cases hn
  · intro revision todo hr
    cases hr
  · intro urgent worker d hd
    cases hd
  · intro urgent r hr
    cases hr
  · intro p lod_step mesh hmesh
    cases hmesh

theorem map_pop {urgent : Bool} {worker : ℕ} {step : ℤ} (h : c.pop urgent worker step = some c') :
    c'.map = c.map := by
  unfold Client.pop at h
  split at h
  · cases h
  · split at h <;> (obtain rfl := Option.some.inj h; rfl)

theorem map_copy {urgent : Bool} {worker : ℕ} (h : c.copy urgent worker = some c') :
    c'.map = c.map := by
  unfold Client.copy at h
  split at h
  · split at h
    · obtain rfl := Option.some.inj h
      rfl
    · cases h
  · cases h

theorem map_putResult {urgent isEmpty : Bool} {worker : ℕ}
    (h : c.putResult urgent worker isEmpty = some c') : c'.map = c.map := by
  unfold Client.putResult at h
  split at h
  · split_ifs at h
    obtain rfl := Option.some.inj h
    rfl
  · cases h

theorem map_done {urgent : Bool} {worker : ℕ} (h : c.done urgent worker = some c') :
    c'.map = c.map := by
  obtain ⟨queue, -, rfl⟩ := Option.map_eq_some_iff.mp h
  rfl

theorem meshAt_of_map (h : c'.map = c.map) (p : V3) (lod_step : ℤ) :
    c'.meshAt p lod_step = c.meshAt p lod_step := by
  rw [meshAt, meshAt, h]

theorem meshAt_step {op : Op D} (h : c.step cfg op = some c') :
    c' = c.nextResult cfg ∨ ∀ p lod_step, c'.meshAt p lod_step = c.meshAt p lod_step := by
  cases op with
  | createBlankBlock p =>
    simp only [Client.step] at h
    split at h
    · exact .inr (Option.some.inj h ▸ meshAt_createBlankBlock cfg c p)
    · cases h
  | install p data =>
    simp only [Client.step] at h
    split at h
    · exact .inr fun q => Option.some.inj h ▸ meshAt_install cfg c p q data
    · cases h
  | takeRevision =>
    simp only [Client.step] at h
    split at h
    · exact .inr (Option.some.inj h ▸ fun _ _ => rfl)
    · cases h
  | bump =>
    simp only [Client.step] at h
    split at h
    · exact .inr (Option.some.inj h ▸ meshAt_bump cfg c _ _ _)
    · exact .inr (Option.some.inj h ▸ fun _ _ => rfl)
    · cases h
  | addBlock urgent r => exact .inr (Option.some.inj h ▸ fun _ _ => rfl)
  | pop urgent worker step => exact .inr (meshAt_of_map (map_pop h))
  | copy urgent worker => exact .inr (meshAt_of_map (map_copy h))
  | putResult urgent worker isEmpty => exact .inr (meshAt_of_map (map_putResult h))
  | done urgent worker => exact .inr (meshAt_of_map (map_done h))
  | nextResult =>
    simp only [Client.step] at h
    split at h
    · exact .inl (Option.some.inj h).symm
    · cases h
  | clearAllQueues finish => exact .inr (Option.some.inj h ▸ fun _ _ => rfl)

/-- Where every block is copied in time, a result was made from all updates up to its revision, and no
mesh is replaced by an older one. -/
theorem complete_of_run (h : (system cfg).Run (InTime cfg) c) : c.Complete cfg ∧ c.NeverOlder cfg := by
  have hinv := inv_run h
  refine ⟨fun urgent r hr => (hinv.results urgent r hr).includes, ?_⟩
  intro op c' hstep p lod_step mesh mesh' hmesh hmesh'
  rcases meshAt_step hstep with rfl | hsame
  · exact neverOlder_nextResult hinv hmesh hmesh'
  · rw [hsame, hmesh] at hmesh'
    intro a _
    rw [Option.some.inj hmesh']

def oneBlockCells : Config ℕ := ⟨1, 0, fun _ => false⟩

def receiveOps (p : V3) (data : ℕ) : List (Op ℕ) :=
  [.install p data, .takeRevision] ++ List.replicate 8 .bump

def startOps (urgent : Bool) (p : V3) : List (Op ℕ) :=
  [.addBlock urgent { p := p, urgent := urgent }, .pop urgent 0 0, .copy urgent 0]

def endOps (urgent : Bool) : List (Op ℕ) := [.copy urgent 0, .putResult urgent 0 false]

def oneWorkerEach : Client ℕ := { queue := fun _ => { workers := [.idle] } }

/-- The state after a list of operations, each under the condition of a run. -/
def runOps (ok : Client ℕ → Op ℕ → Prop) [∀ c op, Decidable (ok c op)] (ops : List (Op ℕ)) :
    Option (Client ℕ) :=
  Lts.execAll (fun op c => c.step oneBlockCells op) ok ops oneWorkerEach

theorem run_runOps {ok : Client ℕ → Op ℕ → Prop} [∀ c op, Decidable (ok c op)] {ops : List (Op ℕ)}
    {c : Client ℕ} (h : runOps ok ops = some c) : (system oneBlockCells).Run ok c :=
  Lts.Run.execAll _ _ (fun _ _ _ hs => hs) (.init ⟨fun _ => 1, rfl⟩) h

/-- The first block of a mesh is received again before the second is copied, but that one is not
next to it. -/
theorem complete_of_run_apart : ∃ c : Client ℕ, (system oneBlockCells).Run (InTime oneBlockCells) c ∧
    (c.results false).map (fun r => r.mesh.mesh_revision) = [3] ∧ c.Complete oneBlockCells ∧
      c.NeverOlder oneBlockCells := by
  have hrun : (runOps (InTime oneBlockCells)
      (receiveOps ⟨0, 0, 0⟩ 1 ++ receiveOps ⟨1, 1, 1⟩ 1 ++ startOps false ⟨0, 0, 0⟩ ++
        receiveOps ⟨0, 0, 0⟩ 2 ++ endOps false)).map
      (fun c => (c.results false).map fun r => r.mesh.mesh_revision) = some [3] := by
    decide +kernel
  obtain ⟨c, hc, hresults⟩ := Option.map_eq_some_iff.mp hrun
  have hreach := run_runOps hc
  exact ⟨c, hreach, hresults, complete_of_run hreach⟩

/-- The first block of a mesh is received again before the second, next to it, is copied: the result
has the revision of what it has not copied. It replaces that of an urgent job that has. -/
theorem not_complete : ∃ c : Client ℕ, (system oneBlockCells).Reach c ∧ ¬c.Complete oneBlockCells ∧
    ¬c.NeverOlder oneBlockCells := by
  have hrun : (runOps (fun _ _ => True)
      (receiveOps ⟨0, 0, 0⟩ 1 ++ receiveOps ⟨1, 0, 0⟩ 1 ++ startOps false ⟨0, 0, 0⟩ ++
        receiveOps ⟨0, 0, 0⟩ 2 ++ endOps false ++ startOps true ⟨0, 0, 0⟩ ++ endOps true ++
        [.nextResult])).bind (fun c =>
      (c.results false).head?.bind fun r => (c.meshAt ⟨0, 0, 0⟩ 0).bind fun mesh =>
        (c.step oneBlockCells .nextResult).bind fun c' => (c'.meshAt ⟨0, 0, 0⟩ 0).map fun mesh' =>
          (r.p, (c.updates ⟨0, 0, 0⟩)[1]?, r.mesh.mesh_revision, versionOf r.mesh.copies ⟨0, 0, 0⟩,
            versionOf mesh.copies ⟨0, 0, 0⟩, versionOf mesh'.copies ⟨0, 0, 0⟩)) =
      some (⟨0, 0, 0⟩, some 4, 4, 1, 2, 1) := by
    decide +kernel
  obtain ⟨c, hc, hrun⟩ := Option.bind_eq_some_iff.mp hrun
  obtain ⟨r, hr, hrun⟩ := Option.bind_eq_some_iff.mp hrun
  obtain ⟨mesh, hmesh, hrun⟩ := Option.bind_eq_some_iff.mp hrun
  obtain ⟨c', hstep, hrun⟩ := Option.bind_eq_some_iff.mp hrun
  obtain ⟨mesh', hmesh', heq⟩ := Option.map_eq_some_iff.mp hrun
  injection heq with hp heq
  injection heq with hupdate heq
  injection heq with hrevision heq
  injection heq with hcopy heq
  injection heq with hnew hold
  have hmem : (⟨0, 0, 0⟩ : V3) ∈ cellBlocks oneBlockCells.cell_size ⟨0, 0, 0⟩ := by decide
  refine ⟨c, run_runOps hc, ?_, ?_⟩
  · intro h
    have hlt := h false r (List.mem_of_head? hr) ⟨0, 0, 0⟩ (hp ▸ hmem) 1 4 hupdate hrevision.ge
    omega
  · intro h
    have hle := h .nextResult c' hstep ⟨0, 0, 0⟩ 0 mesh mesh' hmesh hmesh' ⟨0, 0, 0⟩ hmem
    omega

end Client

end Freeminer.MeshRevisions
