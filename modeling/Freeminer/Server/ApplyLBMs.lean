import Mathlib.Data.Finset.Sort
import Freeminer.Block.NodeDefManager
import Freeminer.Server.LBMTimes
import Freeminer.Voxel.Light

/-! `LBMManager::applyLBMs` (`blockmodifier.cpp`): a block is scanned once for each introduction
time from its timestamp on, then each modifier is called for the positions that were found for its
contents and have kept them. -/

namespace Freeminer.Server

open Lib
open Block (Content CONTENT_IGNORE NodeDefManager)
open Voxel (V3)

/-! ## Contents -/

/-- What a game knows of its nodes; `m_group_to_items` is empty for a group that is not there. -/
structure LBMGameDef where
  ndef : NodeDefManager
  m_group_to_items : ByteString → List Content

namespace LBMGameDef

/-- `getIds`, or nothing where it returns `false`. -/
def getIds (g : LBMGameDef) (name : ByteString) : Option (List Content) :=
  if (bytes "group:").isPrefixOf name then some (g.m_group_to_items (name.drop 6))
  else (g.ndef.getId name).map fun id => [id]

/-- `allocateUnknownNodeId`: a dummy, in no group. -/
def allocateUnknownNodeId (g : LBMGameDef) (name : ByteString) : Content × LBMGameDef :=
  let (id, ndef) := g.ndef.allocateDummy name
  if id = CONTENT_IGNORE then (id, { g with ndef })
  else (id, { ndef, m_group_to_items := fun group => (g.m_group_to_items group).filter (· ≠ id) })

/-- The ids of one of the `trigger_contents`. -/
def nodeIds (g : LBMGameDef) (node : ByteString) : List Content × LBMGameDef :=
  match g.getIds node with
  | some ids => (ids, g)
  | none =>
    let (c_id, g) := g.allocateUnknownNodeId node
    if c_id = CONTENT_IGNORE then ([], g) else ([c_id], g)

/-- `c_ids`, as `addLBM` collects them. -/
def triggerIds : LBMGameDef → List ByteString → List Content × LBMGameDef
  | g, [] => ([], g)
  | g, node :: nodes =>
    let (ids, g) := g.nodeIds node
    let (c_ids, g) := triggerIds g nodes
    (ids ++ c_ids, g)

/-- The ids that each modifier gets when they are added one after the other. -/
def registerIds (trigger_contents : LoadingBlockModifierDef → List ByteString) :
    LBMGameDef → List LoadingBlockModifierDef → LoadingBlockModifierDef → Finset Content
  | _, [] => fun _ => ∅
  | g, lbm_def :: regs =>
    let (c_ids, g) := g.triggerIds (trigger_contents lbm_def)
    Function.update (registerIds trigger_contents g regs) lbm_def c_ids.toFinset

end LBMGameDef

/-! ## The mapping of one introduction time -/

structure LBMContentMapping where
  lbm_list : List LoadingBlockModifierDef := []
  map : Content → Option (List LoadingBlockModifierDef) := fun _ => none

namespace LBMContentMapping

/-- `map[c_id].push_back` -/
def pushBack (map : Content → Option (List LoadingBlockModifierDef))
    (lbm_def : LoadingBlockModifierDef) (c_id : Content) :
    Content → Option (List LoadingBlockModifierDef) :=
  Function.update map c_id (some ((map c_id).getD [] ++ [lbm_def]))

/-- `addLBM`, with the ids of the modifier. No modifier is added twice: it leaves `m_lbm_defs` when
it is added. -/
def addLBM (ids : LoadingBlockModifierDef → Finset Content) (m : LBMContentMapping)
    (lbm_def : LoadingBlockModifierDef) : LBMContentMapping :=
  { lbm_list := m.lbm_list ++ [lbm_def]
    map := ((ids lbm_def).sort (· ≤ ·)).foldl (fun map c_id => pushBack map lbm_def c_id) m.map }

def lookup (m : LBMContentMapping) (c : Content) : Option (List LoadingBlockModifierDef) := m.map c

end LBMContentMapping

/-- `m_lbm_lookup` with its mappings. -/
def LBMLookup.contents (ids : LoadingBlockModifierDef → Finset Content) (lookup : LBMLookup) :
    List (UInt32 × LBMContentMapping) :=
  lookup.map fun e => (e.1, e.2.foldl (LBMContentMapping.addLBM ids) {})

/-- The mappings from `lower_bound` on. -/
def getLBMsIntroducedAfter (contents : List (UInt32 × LBMContentMapping)) (time : UInt32) :
    List LBMContentMapping :=
  (contents.dropWhile fun e => e.1 < time).map Prod.snd

/-! ## The scan -/

structure LBMToRun where
  p : Finset V3 := ∅
  l : List LoadingBlockModifierDef := []

def insertLBMs (l container : List LoadingBlockModifierDef) : List LoadingBlockModifierDef :=
  container.foldl (fun l it => if it ∈ l then l else l ++ [it]) l

abbrev LBMsToRun := Finmap fun _ : Content => LBMToRun

/-- What the scan carries from one position to the next. While there are modifiers for `previous_c`,
`batch` points to its entry. -/
structure LBMScan where
  previous_c : Content := CONTENT_IGNORE
  lbm_list : Option (List LoadingBlockModifierDef) := none
  to_run : LBMsToRun

def scanNode (m : LBMContentMapping) (s : LBMScan) (pos : V3) (c : Content) : LBMScan :=
  let c_changed : Bool := s.previous_c ≠ c
  let lbm_list := if c_changed then m.lookup c else s.lbm_list
  match lbm_list with
  | none => { s with previous_c := c, lbm_list := none }
  | some l =>
    let batch := (s.to_run.lookup c).getD {}
    { previous_c := c
      lbm_list := some l
      to_run := s.to_run.insert c
        { p := insert pos batch.p, l := if c_changed then insertLBMs batch.l l else batch.l } }

/-- The loops over the positions; `f` has the contents of the nodes. -/
def scanNodes (m : LBMContentMapping) (f : V3 → Content) (ps : List V3) (to_run : LBMsToRun) :
    LBMsToRun :=
  (ps.foldl (fun s pos => scanNode m s pos (f pos)) { to_run }).to_run

def blockPositions : List V3 :=
  (List.range 16).flatMap fun z => (List.range 16).flatMap fun y => (List.range 16).map fun x =>
    (⟨x, y, z⟩ : V3)

/-- What the rest of the server does to a block; `getContent` is that of `getNodeNoCheck`. -/
structure LBMEnv (World : Type) where
  getContent : World → V3 → Content
  isOrphan : World → Bool
  trigger : LoadingBlockModifierDef → Finset V3 → ℚ → World → World

section Run

variable {World : Type} (env : LBMEnv World) (dtime_s : ℚ)

def scanBlock (w : World) (to_run : LBMsToRun) (m : LBMContentMapping) : LBMsToRun :=
  scanNodes m (env.getContent w) blockPositions to_run

/-- A call of `trigger`, with the content of its batch. -/
structure LBMCall where
  c : Content
  lbm_def : LoadingBlockModifierDef
  positions : Finset V3
  deriving DecidableEq

/-- What the loops over the batches carry, with the calls that they made. -/
structure LBMRun (World : Type) where
  world : World
  first : Bool := true
  calls : List LBMCall := []
  /-- It returned. -/
  returned : Bool := false

def runBatch (c : Content) : List LoadingBlockModifierDef → Finset V3 → LBMRun World → LBMRun World
  | [], _, s => s
  | lbm_def :: l, p, s =>
    let p := if s.first then p else p.filter fun pos => env.getContent s.world pos = c
    if p = ∅ then { s with first := false }
    else
      let world := env.trigger lbm_def p dtime_s s.world
      let s := { s with world, first := false, calls := s.calls ++ [⟨c, lbm_def, p⟩] }
      if env.isOrphan world then { s with returned := true } else runBatch c l p s

/-- The loop over `to_run`. -/
def runBatches : List (Sigma fun _ : Content => LBMToRun) → LBMRun World → LBMRun World
  | [], s => s
  | ⟨c, batch⟩ :: rest, s =>
    let s := runBatch env dtime_s c batch.l batch.p s
    if s.returned then s else runBatches rest s

/-- `applyLBMs`; `order` is the iteration order of `to_run`. -/
def applyLBMs (order : HashOrder Content LBMToRun) (contents : List (UInt32 × LBMContentMapping))
    (stamp : UInt32) (w : World) : LBMRun World :=
  let to_run := (getLBMsIntroducedAfter contents stamp).foldl (scanBlock env w) ∅
  runBatches env dtime_s (order.entries to_run) { world := w }

end Run

/-! ## What the scan finds -/

section Scan

variable {ids : LoadingBlockModifierDef → Finset Content} {lbm_def : LoadingBlockModifierDef}
  {c d : Content} {m : LBMContentMapping} {f : V3 → Content} {s : LBMScan} {pos : V3}

def LBMContentMapping.lbmsOf (m : LBMContentMapping) (c : Content) : List LoadingBlockModifierDef :=
  (m.lookup c).getD []

theorem foldl_pushBack {c_ids : List Content} (h : c_ids.Nodup)
    (map : Content → Option (List LoadingBlockModifierDef)) (lbm_def : LoadingBlockModifierDef) :
    c_ids.foldl (fun map c_id => LBMContentMapping.pushBack map lbm_def c_id) map c =
      if c ∈ c_ids then some ((map c).getD [] ++ [lbm_def]) else map c := by
  induction c_ids generalizing map with
  | nil => simp
  | cons c_id c_ids ih =>
    obtain ⟨hnew, hnodup⟩ := List.nodup_cons.1 h
    rw [List.foldl_cons, ih hnodup]
    by_cases hc : c = c_id
    · subst hc
      simp [hnew, LBMContentMapping.pushBack]
    · simp [hc, LBMContentMapping.pushBack]

theorem mem_lbmsOf_addLBM {lbm : LoadingBlockModifierDef} :
    lbm ∈ (m.addLBM ids lbm_def).lbmsOf c ↔ lbm ∈ m.lbmsOf c ∨ lbm = lbm_def ∧ c ∈ ids lbm_def := by
  have hmap : (m.addLBM ids lbm_def).map c = if c ∈ (ids lbm_def).sort (· ≤ ·) then
      some ((m.map c).getD [] ++ [lbm_def]) else m.map c :=
    foldl_pushBack (Finset.sort_nodup _ _) _ _
  rw [LBMContentMapping.lbmsOf, LBMContentMapping.lookup, hmap]
  by_cases hc : c ∈ ids lbm_def
  · rw [if_pos ((Finset.mem_sort _).2 hc)]
    simp [hc, LBMContentMapping.lbmsOf, LBMContentMapping.lookup]
  · rw [if_neg fun hmem => hc ((Finset.mem_sort _).1 hmem)]
    simp [hc, LBMContentMapping.lbmsOf, LBMContentMapping.lookup]

/-- A mapping has the modifiers that were added, each for its ids. -/
theorem mem_lbmsOf {lbms : List LoadingBlockModifierDef} {lbm : LoadingBlockModifierDef} :
    lbm ∈ (lbms.foldl (LBMContentMapping.addLBM ids) m).lbmsOf c ↔
      lbm ∈ m.lbmsOf c ∨ lbm ∈ lbms ∧ c ∈ ids lbm := by
  induction lbms generalizing m with
  | nil => simp
  | cons lbm_def lbms ih =>
    rw [List.foldl_cons, ih, mem_lbmsOf_addLBM, List.mem_cons, or_assoc]
    refine or_congr_right ⟨?_, ?_⟩
    · rintro (⟨rfl, hc⟩ | ⟨hmem, hc⟩)
      · exact ⟨.inl rfl, hc⟩
      · exact ⟨.inr hmem, hc⟩
    · rintro ⟨rfl | hmem, hc⟩
      · exact .inl ⟨rfl, hc⟩
      · exact .inr ⟨hmem, hc⟩

theorem mem_insertLBMs {l container : List LoadingBlockModifierDef}
    {lbm : LoadingBlockModifierDef} :
    lbm ∈ insertLBMs l container ↔ lbm ∈ l ∨ lbm ∈ container := by
  unfold insertLBMs
  induction container generalizing l with
  | nil => simp
  | cons it container ih =>
    rw [List.foldl_cons, ih]
    by_cases hit : it ∈ l
    · rw [if_pos hit, List.mem_cons]
      constructor
      · rintro (h | h)
        · exact .inl h
        · exact .inr (.inr h)
      · rintro (h | rfl | h)
        · exact .inl h
        · exact .inl hit
        · exact .inr h
    · rw [if_neg hit, List.mem_append, List.mem_singleton, List.mem_cons, or_assoc]

theorem nodup_insertLBMs {l : List LoadingBlockModifierDef} (h : l.Nodup)
    (container : List LoadingBlockModifierDef) : (insertLBMs l container).Nodup := by
  unfold insertLBMs
  refine List.foldlRecOn (motive := List.Nodup) container _ h fun l hl it _ => ?_
  by_cases hit : it ∈ l
  · rwa [if_pos hit]
  · rw [if_neg hit]
    exact List.nodup_append.2 ⟨hl, List.nodup_singleton _, fun a ha b hb => by
      rw [List.mem_singleton.1 hb]
      exact fun heq => hit (heq ▸ ha)⟩

/-- The entry of a content holds some positions of those gone through, all of them with the content,
and each modifier once. -/
structure LBMToRun.Plain (f : V3 → Content) (ps : List V3) (c : Content) (batch : LBMToRun) :
    Prop where
  nonempty : batch.p.Nonempty
  content : ∀ pos ∈ batch.p, pos ∈ ps ∧ f pos = c
  nodup : batch.l.Nodup

theorem insertLBMs_of_subset {l container : List LoadingBlockModifierDef}
    (h : ∀ lbm_def ∈ container, lbm_def ∈ l) : insertLBMs l container = l := by
  unfold insertLBMs
  induction container with
  | nil => rfl
  | cons it container ih =>
    rw [List.foldl_cons, if_pos (h it List.mem_cons_self)]
    exact ih fun lbm_def hmem => h lbm_def (List.mem_cons_of_mem _ hmem)

theorem insertLBMs_insertLBMs (l container : List LoadingBlockModifierDef) :
    insertLBMs (insertLBMs l container) container = insertLBMs l container :=
  insertLBMs_of_subset fun _ hmem => mem_insertLBMs.2 (.inr hmem)

def PlainEntries (f : V3 → Content) (ps : List V3) (to_run : LBMsToRun) : Prop :=
  ∀ c batch, to_run.lookup c = some batch → batch.Plain f ps c

theorem PlainEntries.scanNode {ps : List V3} (h : PlainEntries f ps s.to_run) (hpos : pos ∈ ps) :
    PlainEntries f ps (Server.scanNode m s pos (f pos)).to_run := by
  unfold Server.scanNode
  dsimp only
  split
  · exact h
  · intro c batch hbatch
    by_cases hc : c = f pos
    · subst hc
      rw [Finmap.lookup_insert, Option.some.injEq] at hbatch
      subst hbatch
      have hold : (∀ q ∈ ((s.to_run.lookup (f pos)).getD {}).p, q ∈ ps ∧ f q = f pos) ∧
          ((s.to_run.lookup (f pos)).getD {}).l.Nodup := by
        cases hlookup : s.to_run.lookup (f pos) with
        | none => exact ⟨fun q hq => absurd hq (Finset.notMem_empty q), List.nodup_nil⟩
        | some old => exact ⟨(h _ old hlookup).content, (h _ old hlookup).nodup⟩
      refine ⟨⟨pos, Finset.mem_insert_self _ _⟩, fun q hq => ?_, ?_⟩
      · rcases Finset.mem_insert.1 hq with rfl | hq
        · exact ⟨hpos, rfl⟩
        · exact hold.1 q hq
      · dsimp only
        split_ifs
        · exact nodup_insertLBMs hold.2 _
        · exact hold.2
    · rw [Finmap.lookup_insert_of_ne _ hc] at hbatch
      exact h c batch hbatch

theorem PlainEntries.scanNodes {to_run : LBMsToRun} {ps : List V3} (h : PlainEntries f ps to_run) :
    PlainEntries f ps (Server.scanNodes m f ps to_run) := by
  unfold Server.scanNodes
  exact List.foldlRecOn (motive := fun s : LBMScan => PlainEntries f ps s.to_run) ps _ h
    fun s hs pos hpos => hs.scanNode hpos

/-- An entry to which the positions with its content are added, if there are any. -/
def grown (f : V3 → Content) (done : List V3) (c : Content) (l : List LoadingBlockModifierDef)
    (old : Option LBMToRun) : Option LBMToRun :=
  if ∃ pos ∈ done, f pos = c then
    some { p := (old.getD {}).p ∪ done.toFinset.filter fun pos => f pos = c
           l := insertLBMs (old.getD {}).l l }
  else old

/-- What the scan for one mapping has done with the positions it went through. Nodes of
`CONTENT_IGNORE` that come first are taken for looked up. -/
structure Scanned (m : LBMContentMapping) (f : V3 → Content) (to_run : LBMsToRun) (done : List V3)
    (s : LBMScan) : Prop where
  cached : s.previous_c ≠ CONTENT_IGNORE →
    s.lbm_list = m.lookup s.previous_c ∧ ∃ pos ∈ done, f pos = s.previous_c
  entry : ∀ c, c ≠ CONTENT_IGNORE → s.to_run.lookup c =
    (m.lookup c).elim (to_run.lookup c) fun l => grown f done c l (to_run.lookup c)

theorem grown_other {done : List V3} {l : List LoadingBlockModifierDef} {old : Option LBMToRun}
    (h : f pos ≠ c) : grown f (done ++ [pos]) c l old = grown f done c l old := by
  simp [grown, h, Finset.filter_insert]

theorem grown_same {done : List V3} {l : List LoadingBlockModifierDef} {old : Option LBMToRun}
    (h : f pos = c) : grown f (done ++ [pos]) c l old =
      some { p := insert pos ((grown f done c l old).getD {}).p
             l := insertLBMs ((grown f done c l old).getD {}).l l } := by
  have hnew : ∃ q ∈ done ++ [pos], f q = c := ⟨pos, by simp, h⟩
  unfold grown
  rw [if_pos hnew]
  by_cases hdone : ∃ q ∈ done, f q = c
  · simp [hdone, insertLBMs_insertLBMs, Finset.filter_insert, h]
  · have hnone : done.toFinset.filter (fun q => f q = c) = ∅ :=
      Finset.filter_eq_empty_iff.2 fun q hq hfq => hdone ⟨q, List.mem_toFinset.1 hq, hfq⟩
    simp [hdone, hnone, Finset.filter_insert, h]

theorem Scanned.scanNode {to_run : LBMsToRun} {done : List V3} (h : Scanned m f to_run done s) :
    Scanned m f to_run (done ++ [pos]) (Server.scanNode m s pos (f pos)) := by
  have hlist : f pos ≠ CONTENT_IGNORE →
      (if (decide (s.previous_c ≠ f pos)) = true then m.lookup (f pos) else s.lbm_list) =
        m.lookup (f pos) := by
    intro hc
    by_cases hchanged : s.previous_c = f pos
    · rw [if_neg (by simpa using hchanged), (h.cached (hchanged ▸ hc)).1, hchanged]
    · rw [if_pos (by simpa using hchanged)]
  have hmem : ∃ q ∈ done ++ [pos], f q = f pos := ⟨pos, by simp, rfl⟩
  unfold Server.scanNode
  dsimp only
  split
  · rename_i hnone
    refine ⟨fun hc => ⟨?_, hmem⟩, fun c hc => ?_⟩
    · exact (hnone.symm.trans (hlist hc))
    · by_cases hother : f pos = c
      · have hlookup : m.lookup c = none := by
          rw [← hother] at hc ⊢
          exact (hlist hc).symm.trans hnone
        rw [h.entry c hc, hlookup]
        rfl
      · rw [h.entry c hc]
        simp only [grown_other hother]
  · rename_i l hsome
    refine ⟨fun hc => ⟨hsome.symm.trans (hlist hc), hmem⟩, fun c hc => ?_⟩
    by_cases hother : f pos = c
    · subst hother
      have hlookup : m.lookup (f pos) = some l := (hlist hc).symm.trans hsome
      have hold := h.entry (f pos) hc
      rw [hlookup, Option.elim_some] at hold ⊢
      rw [Finmap.lookup_insert, grown_same rfl, ← hold]
      by_cases hchanged : s.previous_c = f pos
      · -- the modifiers of this content are there already
        have hdone := (h.cached (hchanged ▸ hc)).2
        rw [hchanged] at hdone
        rw [if_neg (by simpa using hchanged)]
        have hthere : insertLBMs ((s.to_run.lookup (f pos)).getD {}).l l =
            ((s.to_run.lookup (f pos)).getD {}).l := by
          rw [hold]
          unfold grown
          rw [if_pos hdone]
          exact insertLBMs_insertLBMs _ _
        rw [hthere]
      · rw [if_pos (by simpa using hchanged)]
    · rw [Finmap.lookup_insert_of_ne _ (Ne.symm hother), h.entry c hc]
      simp only [grown_other hother]

theorem Scanned.foldl {to_run : LBMsToRun} {done : List V3} (h : Scanned m f to_run done s)
    (ps : List V3) :
    Scanned m f to_run (done ++ ps)
      (ps.foldl (fun s pos => Server.scanNode m s pos (f pos)) s) := by
  induction ps generalizing done s with
  | nil => rwa [List.append_nil]
  | cons pos ps ih =>
    rw [List.append_cons]
    exact ih h.scanNode

theorem scanNodes_lookup {to_run : LBMsToRun} {ps : List V3} (hc : c ≠ CONTENT_IGNORE) :
    (scanNodes m f ps to_run).lookup c =
      (m.lookup c).elim (to_run.lookup c) fun l => grown f ps c l (to_run.lookup c) := by
  have hstart : Scanned m f to_run [] { to_run } := by
    refine ⟨fun h => absurd rfl h, fun c _ => ?_⟩
    cases m.lookup c <;> simp [grown]
  exact (hstart.foldl ps).entry c hc

def Due (ms : List LBMContentMapping) (c : Content) (lbm_def : LoadingBlockModifierDef) : Prop :=
  ∃ m ∈ ms, lbm_def ∈ m.lbmsOf c

end Scan

section ScanBlock

variable {World : Type} {env : LBMEnv World} {w : World} {c : Content} {m : LBMContentMapping}
  {ms : List LBMContentMapping} {to_run : LBMsToRun} {batch : LBMToRun}

/-- What is collected for a content: all its positions with all its modifiers, or nothing. -/
structure Collected (env : LBMEnv World) (w : World) (ms : List LBMContentMapping)
    (to_run : LBMsToRun) : Prop where
  plain : PlainEntries (env.getContent w) blockPositions to_run
  positions : ∀ c batch, c ≠ CONTENT_IGNORE → to_run.lookup c = some batch →
    ∀ pos ∈ blockPositions, env.getContent w pos = c → pos ∈ batch.p
  modifiers : ∀ c batch, c ≠ CONTENT_IGNORE → to_run.lookup c = some batch →
    ∀ lbm_def, lbm_def ∈ batch.l ↔ Due ms c lbm_def
  absent : ∀ c, c ≠ CONTENT_IGNORE → to_run.lookup c = none →
    ∀ lbm_def, Due ms c lbm_def → ∀ pos ∈ blockPositions, env.getContent w pos ≠ c

theorem due_append {lbm_def : LoadingBlockModifierDef} :
    Due (ms ++ [m]) c lbm_def ↔ Due ms c lbm_def ∨ lbm_def ∈ m.lbmsOf c := by
  simp [Due, or_and_right, exists_or]

theorem Collected.scanBlock (h : Collected env w ms to_run) :
    Collected env w (ms ++ [m]) (Server.scanBlock env w to_run m) := by
  have hother : ∀ c, m.lookup c = none →
      ∀ lbm_def, Due (ms ++ [m]) c lbm_def ↔ Due ms c lbm_def := by
    intro c hnone lbm_def
    rw [due_append, LBMContentMapping.lbmsOf, hnone]
    simp
  -- a content of which there is no node has no entry
  have habsent : ∀ c, (¬∃ pos ∈ blockPositions, env.getContent w pos = c) →
      to_run.lookup c = none := by
    intro c hnone
    by_contra hsome
    obtain ⟨old, hold⟩ := Option.ne_none_iff_exists'.1 hsome
    obtain ⟨pos, hpos⟩ := (h.plain c old hold).nonempty
    exact hnone ⟨pos, (h.plain c old hold).content pos hpos⟩
  refine ⟨h.plain.scanNodes, fun c batch hc hbatch => ?_, fun c batch hc hbatch lbm_def => ?_,
    fun c hc hbatch lbm_def hdue pos hpos hcontent => ?_⟩
  · rw [Server.scanBlock, scanNodes_lookup hc] at hbatch
    cases hlookup : m.lookup c with
    | none =>
      rw [hlookup] at hbatch
      exact h.positions c batch hc hbatch
    | some l =>
      rw [hlookup, Option.elim_some, grown] at hbatch
      split_ifs at hbatch with hsome
      · cases hbatch
        intro pos hpos hcontent
        exact Finset.mem_union_right _
          (Finset.mem_filter.2 ⟨List.mem_toFinset.2 hpos, hcontent⟩)
      · rw [habsent c hsome] at hbatch
        cases hbatch
  · rw [Server.scanBlock, scanNodes_lookup hc] at hbatch
    cases hlookup : m.lookup c with
    | none =>
      rw [hlookup] at hbatch
      rw [hother c hlookup]
      exact h.modifiers c batch hc hbatch lbm_def
    | some l =>
      rw [hlookup, Option.elim_some, grown] at hbatch
      split_ifs at hbatch with hsome
      · cases hbatch
        rw [mem_insertLBMs, due_append, LBMContentMapping.lbmsOf, hlookup, Option.getD_some]
        refine or_congr_left ?_
        cases hold : to_run.lookup c with
        | none =>
          obtain ⟨pos, hpos, hcontent⟩ := hsome
          refine ⟨fun hmem => absurd hmem List.not_mem_nil, fun hdue => ?_⟩
          exact absurd hcontent (h.absent c hc hold lbm_def hdue pos hpos)
        | some old => exact h.modifiers c old hc hold lbm_def
      · rw [habsent c hsome] at hbatch
        cases hbatch
  · rw [Server.scanBlock, scanNodes_lookup hc] at hbatch
    cases hlookup : m.lookup c with
    | none =>
      rw [hlookup] at hbatch
      exact h.absent c hc hbatch lbm_def ((hother c hlookup lbm_def).1 hdue) pos hpos hcontent
    | some l =>
      rw [hlookup, Option.elim_some, grown, if_pos ⟨pos, hpos, hcontent⟩] at hbatch
      cases hbatch

/-- The scans collect all positions of each content that has modifiers. -/
theorem collected (env : LBMEnv World) (w : World) (ms : List LBMContentMapping) :
    Collected env w ms (ms.foldl (Server.scanBlock env w) ∅) := by
  have hall : ∀ (rest done : List LBMContentMapping) (to_run : LBMsToRun),
      Collected env w done to_run →
        Collected env w (done ++ rest) (rest.foldl (Server.scanBlock env w) to_run) := by
    intro rest
    induction rest with
    | nil =>
      intro done to_run h
      rwa [List.append_nil]
    | cons m rest ih =>
      intro done to_run h
      rw [List.append_cons, List.foldl_cons]
      exact ih _ _ h.scanBlock
  refine hall ms [] ∅ ⟨fun c batch h => ?_, fun c batch _ h => ?_, fun c batch _ h => ?_,
    fun c _ _ lbm_def hdue => ?_⟩
  · simp at h
  · simp at h
  · simp at h
  · obtain ⟨m, hm, -⟩ := hdue
    exact absurd hm List.not_mem_nil

end ScanBlock

/-! ## What the run does -/

section Applied

variable {World : Type} (env : LBMEnv World) (dtime_s : ℚ)

def worldAfter (w : World) (calls : List LBMCall) : World :=
  calls.foldl (fun w call => env.trigger call.lbm_def call.positions dtime_s w) w

/-- The position had the content at the scan, and whenever a modifier was called for it since. -/
def Kept (w : World) (calls : List LBMCall) (c : Content) (pos : V3) : Prop :=
  pos ∈ blockPositions ∧ env.getContent w pos = c ∧
    ∀ before call after, calls = before ++ call :: after → call.c = c →
      env.getContent (worldAfter env dtime_s w before) pos = c

def Held (w : World) (calls : List LBMCall) (c : Content) (pos : V3) : Prop :=
  Kept env dtime_s w calls c pos ∧ env.getContent (worldAfter env dtime_s w calls) pos = c

structure Sound (due : Content → LoadingBlockModifierDef → Prop) (w : World) (r : LBMRun World) :
    Prop where
  world : r.world = worldAfter env dtime_s w r.calls
  found : ∀ call ∈ r.calls, call.positions.Nonempty ∧
    ∀ pos ∈ call.positions, pos ∈ blockPositions ∧ env.getContent w pos = call.c
  asked : ∀ call ∈ r.calls, call.c ≠ CONTENT_IGNORE → due call.c call.lbm_def
  positions : ∀ before call after, r.calls = before ++ call :: after → call.c ≠ CONTENT_IGNORE →
    ∀ pos, pos ∈ call.positions ↔ Held env dtime_s w before call.c pos
  once : (r.calls.map fun call => (call.c, call.lbm_def)).Nodup
  alive : ∀ before call after, r.calls = before ++ call :: after → before ≠ [] →
    env.isOrphan (worldAfter env dtime_s w before) = false

/-- Unless the block is orphaned, each modifier that is due for a content is called for it, or else
no position has kept the content when it is its turn. -/
structure Applied (due : Content → LoadingBlockModifierDef → Prop) (w : World) (r : LBMRun World) :
    Prop extends Sound env dtime_s due w r where
  positionOnce : r.calls.Pairwise fun call call' => call.lbm_def = call'.lbm_def →
    Disjoint call.positions call'.positions
  complete : env.isOrphan r.world = false → ∀ c lbm_def, c ≠ CONTENT_IGNORE → due c lbm_def →
    (∃ call ∈ r.calls, call.c = c ∧ call.lbm_def = lbm_def) ∨
      ∃ before after, r.calls = before ++ after ∧ (∀ call ∈ after, call.c ≠ c) ∧
        ∀ pos, ¬Held env dtime_s w before c pos

variable {env dtime_s} {due : Content → LoadingBlockModifierDef → Prop} {w : World}
  {s : LBMRun World} {c : Content} {pos : V3} {p : Finset V3} {l : List LoadingBlockModifierDef}
  {calls before after : List LBMCall} {call call' : LBMCall}

theorem worldAfter_concat : worldAfter env dtime_s w (calls ++ [call]) =
    env.trigger call.lbm_def call.positions dtime_s (worldAfter env dtime_s w calls) := by
  simp [worldAfter]

/-- A call among those up to a last one is before it or is it. -/
theorem split_concat (h : calls ++ [call'] = before ++ call :: after) :
    (before = calls ∧ call = call') ∨ ∃ after', calls = before ++ call :: after' := by
  rcases List.eq_nil_or_concat after with rfl | ⟨after', last, rfl⟩
  · obtain ⟨hbefore, hcall⟩ := List.append_inj' h rfl
    exact .inl ⟨hbefore.symm, (List.cons.inj hcall).1.symm⟩
  · have h' : calls ++ [call'] = (before ++ call :: after') ++ [last] := by simpa using h
    exact .inr ⟨after', (List.append_inj' h' rfl).1⟩

theorem kept_concat_same (h : call.c = c) :
    Kept env dtime_s w (calls ++ [call]) c pos ↔ Held env dtime_s w calls c pos := by
  constructor
  · rintro ⟨hpos, hscan, hall⟩
    refine ⟨⟨hpos, hscan, fun before call' after hcalls => ?_⟩, hall calls call [] rfl h⟩
    exact hall before call' (after ++ [call]) (by simp [hcalls])
  · rintro ⟨⟨hpos, hscan, hall⟩, hnow⟩
    refine ⟨hpos, hscan, fun before call' after hcalls hc => ?_⟩
    rcases split_concat hcalls with ⟨rfl, -⟩ | ⟨after', hcalls'⟩
    · exact hnow
    · exact hall before call' after' hcalls' hc

/-- A content that no modifier was called for yet is kept where it was at the scan. -/
theorem kept_fresh (h : ∀ call ∈ calls, call.c ≠ c) : Kept env dtime_s w calls c pos ↔
    pos ∈ blockPositions ∧ env.getContent w pos = c := by
  refine ⟨fun hkept => ⟨hkept.1, hkept.2.1⟩, fun ⟨hpos, hscan⟩ => ⟨hpos, hscan, ?_⟩⟩
  rintro before call after rfl hc
  exact absurd hc (h call (by simp))

structure Going (env : LBMEnv World) (dtime_s : ℚ) (due : Content → LoadingBlockModifierDef → Prop)
    (w : World) (s : LBMRun World) : Prop where
  sound : Sound env dtime_s due w s
  start : s.first = true → s.calls = []
  going : s.returned = false → s.calls ≠ [] → env.isOrphan s.world = false
  orphan : s.returned = true → env.isOrphan s.world = true

theorem Sound.concat {world : World} (h : Sound env dtime_s due w s) (call : LBMCall)
    (first returned : Bool)
    (hworld : world = env.trigger call.lbm_def call.positions dtime_s s.world)
    (hfound : call.positions.Nonempty ∧
      ∀ pos ∈ call.positions, pos ∈ blockPositions ∧ env.getContent w pos = call.c)
    (hdue : call.c ≠ CONTENT_IGNORE → due call.c call.lbm_def ∧
      ∀ pos, pos ∈ call.positions ↔ Held env dtime_s w s.calls call.c pos)
    (hnew : ∀ old ∈ s.calls, old.c = call.c → old.lbm_def ≠ call.lbm_def)
    (halive : s.calls ≠ [] → env.isOrphan s.world = false) :
    Sound env dtime_s due w ⟨world, first, s.calls ++ [call], returned⟩ := by
  refine ⟨?_, fun old hold => ?_, fun old hold hc => ?_, fun before old after hcalls hc => ?_, ?_,
    fun before old after hcalls hne => ?_⟩
  · rw [hworld, worldAfter_concat, h.world]
  · rcases List.mem_append.1 hold with hold | hold
    · exact h.found old hold
    · rw [List.mem_singleton.1 hold]
      exact hfound
  · rcases List.mem_append.1 hold with hold | hold
    · exact h.asked old hold hc
    · rw [List.mem_singleton.1 hold] at hc ⊢
      exact (hdue hc).1
  · rcases split_concat hcalls with ⟨rfl, rfl⟩ | ⟨after', hcalls'⟩
    · exact (hdue hc).2
    · exact h.positions before old after' hcalls' hc
  · rw [List.map_append, List.nodup_append]
    refine ⟨h.once, List.nodup_singleton _, fun a ha b hb => ?_⟩
    obtain ⟨old, hold, rfl⟩ := List.mem_map.1 ha
    rw [List.map_singleton, List.mem_singleton] at hb
    rw [hb]
    exact fun heq => hnew old hold (Prod.ext_iff.1 heq).1 (Prod.ext_iff.1 heq).2
  · rcases split_concat hcalls with ⟨rfl, -⟩ | ⟨after', hcalls'⟩
    · rw [← h.world]
      exact halive hne
    · exact h.alive before old after' hcalls' hne

structure Batched (env : LBMEnv World) (dtime_s : ℚ)
    (due : Content → LoadingBlockModifierDef → Prop) (w : World) (c : Content)
    (l : List LoadingBlockModifierDef) (s s' : LBMRun World) : Prop where
  going : Going env dtime_s due w s'
  calls : ∃ new, s'.calls = s.calls ++ new ∧ ∀ call ∈ new, call.c = c
  complete : s'.returned = false → c ≠ CONTENT_IGNORE → ∀ lbm_def ∈ l,
    (∃ call ∈ s'.calls, call.c = c ∧ call.lbm_def = lbm_def) ∨
      ∀ pos, ¬Held env dtime_s w s'.calls c pos

theorem Going.runBatch (h : Going env dtime_s due w s) (hreturned : s.returned = false)
    (hfound : ∀ pos ∈ p, pos ∈ blockPositions ∧ env.getContent w pos = c)
    (hp : c ≠ CONTENT_IGNORE → ∀ pos, pos ∈ p ↔ Kept env dtime_s w s.calls c pos)
    (hdue : c ≠ CONTENT_IGNORE → ∀ lbm_def ∈ l, due c lbm_def) (hl : l.Nodup)
    (hnew : ∀ call ∈ s.calls, call.c = c → call.lbm_def ∉ l) :
    Batched env dtime_s due w c l s (Server.runBatch env dtime_s c l p s) := by
  induction l generalizing p s with
  | nil => exact ⟨h, ⟨[], by simp [Server.runBatch]⟩, fun _ _ lbm_def hmem => by simp at hmem⟩
  | cons lbm_def l ih =>
    obtain ⟨hout, hnodup⟩ := List.nodup_cons.1 hl
    have hchecked : c ≠ CONTENT_IGNORE → ∀ pos,
        pos ∈ (if s.first then p else p.filter fun pos => env.getContent s.world pos = c) ↔
          Held env dtime_s w s.calls c pos := by
      intro hc pos
      cases hfirst : s.first with
      | true =>
        -- nothing was called since the scan
        rw [if_pos rfl, hp hc, h.start hfirst]
        exact ⟨fun hkept => ⟨hkept, hkept.2.1⟩, And.left⟩
      | false =>
        rw [if_neg (by simp), Finset.mem_filter, hp hc, h.sound.world]
        rfl
    have hsub : ∀ pos ∈ (if s.first then p else
        p.filter fun pos => env.getContent s.world pos = c), pos ∈ p := by
      intro pos hpos
      split_ifs at hpos
      · exact hpos
      · exact (Finset.mem_filter.1 hpos).1
    rw [Server.runBatch]
    dsimp only
    generalize (if s.first then p else p.filter fun pos => env.getContent s.world pos = c) = q
      at hchecked hsub
    split_ifs with hempty horphan
    · refine ⟨⟨⟨h.sound.world, h.sound.found, h.sound.asked, h.sound.positions, h.sound.once,
        h.sound.alive⟩, fun hfirst => absurd hfirst (by simp), h.going, h.orphan⟩, ⟨[], by simp⟩,
        fun _ hc _ _ => .inr fun pos hheld => ?_⟩
      rw [← hchecked hc, hempty] at hheld
      exact absurd hheld (Finset.notMem_empty pos)
    · have hsound := h.sound.concat ⟨c, lbm_def, q⟩ false true rfl
        ⟨Finset.nonempty_iff_ne_empty.2 hempty, fun pos hpos => hfound pos (hsub pos hpos)⟩
        (fun hc => ⟨hdue hc lbm_def List.mem_cons_self, hchecked hc⟩)
        (fun old hold hc heq => hnew old hold hc (by simp [heq])) (h.going hreturned)
      refine ⟨⟨hsound, fun hfirst => absurd hfirst (by simp), fun hback => absurd hback (by simp),
        fun _ => horphan⟩, ⟨[⟨c, lbm_def, q⟩], rfl, by simp⟩, fun hback => absurd hback (by simp)⟩
    · have hsound := h.sound.concat ⟨c, lbm_def, q⟩ false s.returned rfl
        ⟨Finset.nonempty_iff_ne_empty.2 hempty, fun pos hpos => hfound pos (hsub pos hpos)⟩
        (fun hc => ⟨hdue hc lbm_def List.mem_cons_self, hchecked hc⟩)
        (fun old hold hc heq => hnew old hold hc (by simp [heq])) (h.going hreturned)
      have hstep : Going env dtime_s due w ⟨env.trigger lbm_def q dtime_s s.world, false,
          s.calls ++ [⟨c, lbm_def, q⟩], s.returned⟩ :=
        ⟨hsound, fun hfirst => absurd hfirst (by simp), fun _ _ => by simpa using horphan,
          fun hback => absurd hback (by simp [hreturned])⟩
      have hsame : (⟨c, lbm_def, q⟩ : LBMCall).c = c := rfl
      obtain ⟨hgoing, ⟨new, hcalls, hnewc⟩, hcomplete⟩ := ih hstep hreturned
        (fun pos hpos => hfound pos (hsub pos hpos))
        (fun hc pos => (hchecked hc pos).trans (kept_concat_same hsame).symm)
        (fun hc lbm hmem => hdue hc lbm (List.mem_cons_of_mem _ hmem)) hnodup
        (fun old hold hc => by
          rcases List.mem_append.1 hold with hold | hold
          · exact fun hmem => hnew old hold hc (List.mem_cons_of_mem _ hmem)
          · rwa [List.mem_singleton.1 hold])
      refine ⟨hgoing, ⟨⟨c, lbm_def, q⟩ :: new, ?_, ?_⟩, fun hback hc lbm hmem => ?_⟩
      · rw [hcalls, List.append_assoc, List.singleton_append]
      · intro call hcall
        rcases List.mem_cons.1 hcall with rfl | hcall
        · rfl
        · exact hnewc call hcall
      · rcases List.mem_cons.1 hmem with rfl | hmem
        · exact .inl ⟨⟨c, lbm, q⟩, by rw [hcalls]; simp, rfl, rfl⟩
        · exact hcomplete hback hc lbm hmem

structure AllBatched (env : LBMEnv World) (dtime_s : ℚ)
    (due : Content → LoadingBlockModifierDef → Prop) (w : World)
    (es : List (Sigma fun _ : Content => LBMToRun)) (s s' : LBMRun World) : Prop where
  going : Going env dtime_s due w s'
  calls : ∃ new, s'.calls = s.calls ++ new ∧ ∀ call ∈ new, call.c ∈ es.keys
  complete : s'.returned = false → ∀ e ∈ es, e.1 ≠ CONTENT_IGNORE → ∀ lbm_def ∈ e.2.l,
    (∃ call ∈ s'.calls, call.c = e.1 ∧ call.lbm_def = lbm_def) ∨
      ∃ before after, s'.calls = before ++ after ∧ (∀ call ∈ after, call.c ≠ e.1) ∧
        ∀ pos, ¬Held env dtime_s w before e.1 pos

theorem Going.runBatches {es : List (Sigma fun _ : Content => LBMToRun)}
    (h : Going env dtime_s due w s) (hreturned : s.returned = false) (hes : es.NodupKeys)
    (hnew : ∀ call ∈ s.calls, call.c ∉ es.keys)
    (hfound : ∀ e ∈ es, ∀ pos ∈ e.2.p, pos ∈ blockPositions ∧ env.getContent w pos = e.1)
    (hp : ∀ e ∈ es, e.1 ≠ CONTENT_IGNORE →
      ∀ pos, pos ∈ e.2.p ↔ pos ∈ blockPositions ∧ env.getContent w pos = e.1)
    (hdue : ∀ e ∈ es, e.1 ≠ CONTENT_IGNORE → ∀ lbm_def ∈ e.2.l, due e.1 lbm_def)
    (hl : ∀ e ∈ es, e.2.l.Nodup) :
    AllBatched env dtime_s due w es s (Server.runBatches env dtime_s es s) := by
  induction es generalizing s with
  | nil => exact ⟨h, ⟨[], by simp [Server.runBatches]⟩, fun _ e he => by simp at he⟩
  | cons e es ih =>
    obtain ⟨c, batch⟩ := e
    obtain ⟨hfresh, hnodup⟩ := List.nodupKeys_cons.1 hes
    have hnone : ∀ call ∈ s.calls, call.c ≠ c := fun call hcall hc =>
      hnew call hcall (by simp [hc])
    obtain ⟨hgoing, ⟨new, hcalls, hnewc⟩, hcomplete⟩ := h.runBatch (c := c) (p := batch.p)
      (l := batch.l) hreturned (hfound _ List.mem_cons_self)
      (fun hc pos => (hp _ List.mem_cons_self hc pos).trans (kept_fresh hnone).symm)
      (hdue _ List.mem_cons_self) (hl _ List.mem_cons_self)
      (fun call hcall hc => absurd hc (hnone call hcall))
    rw [Server.runBatches]
    split_ifs with hback
    · refine ⟨hgoing, ⟨new, hcalls, fun call hcall => ?_⟩, fun hgo => ?_⟩
      · simp [hnewc call hcall]
      · rw [hback] at hgo
        cases hgo
    · have hother : ∀ call ∈ (Server.runBatch env dtime_s c batch.l batch.p s).calls,
          call.c ∉ es.keys := by
        intro call hcall
        rw [hcalls] at hcall
        rcases List.mem_append.1 hcall with hcall | hcall
        · exact fun hmem => hnew call hcall (by simp [hmem])
        · rwa [hnewc call hcall]
      obtain ⟨hgoing', ⟨new', hcalls', hnewc'⟩, hcomplete'⟩ := ih hgoing (by simpa using hback)
        hnodup hother (fun e he => hfound e (List.mem_cons_of_mem _ he))
        (fun e he => hp e (List.mem_cons_of_mem _ he))
        (fun e he => hdue e (List.mem_cons_of_mem _ he))
        (fun e he => hl e (List.mem_cons_of_mem _ he))
      refine ⟨hgoing', ⟨new ++ new', ?_, fun call hcall => ?_⟩, fun hgo e he hc lbm_def hmem => ?_⟩
      · rw [hcalls', hcalls, List.append_assoc]
      · rcases List.mem_append.1 hcall with hcall | hcall
        · simp [hnewc call hcall]
        · simp [hnewc' call hcall]
      · rcases List.mem_cons.1 he with rfl | he
        · rcases hcomplete (by simpa using hback) hc lbm_def hmem with
            ⟨call, hcall, hcalled⟩ | hnone
          · exact .inl ⟨call, by rw [hcalls']; exact List.mem_append_left _ hcall, hcalled⟩
          · refine .inr ⟨_, new', hcalls', fun call hcall hc => ?_, hnone⟩
            exact hfresh (hc ▸ hnewc' call hcall)
        · exact hcomplete' hgo e he hc lbm_def hmem

/-- A position is in the calls of a modifier once: it had one content at the scan. -/
theorem Sound.positionOnce (h : Sound env dtime_s due w s) :
    s.calls.Pairwise fun call call' => call.lbm_def = call'.lbm_def →
      Disjoint call.positions call'.positions := by
  refine (List.pairwise_map.1 h.once).imp_of_mem fun {call call'} hcall hcall' hne hsame => ?_
  refine Finset.disjoint_left.2 fun pos hpos hpos' => hne (Prod.ext ?_ hsame)
  exact ((h.found call hcall).2 pos hpos).2.symm.trans ((h.found call' hcall').2 pos hpos').2

/-- The run does what is due, whatever is registered. -/
theorem applied (env : LBMEnv World) (dtime_s : ℚ) (order : HashOrder Content LBMToRun)
    (contents : List (UInt32 × LBMContentMapping)) (stamp : UInt32) (w : World) :
    Applied env dtime_s (Due (getLBMsIntroducedAfter contents stamp)) w
      (applyLBMs env dtime_s order contents stamp w) := by
  have hcollected := collected env w (getLBMsIntroducedAfter contents stamp)
  unfold applyLBMs
  dsimp only
  generalize (getLBMsIntroducedAfter contents stamp).foldl (scanBlock env w) ∅ = to_run
    at hcollected
  have hentry : ∀ e ∈ order.entries to_run, to_run.lookup e.1 = some e.2 := fun e he =>
    order.mem_entries.1 he
  have hstart : Going env dtime_s (Due (getLBMsIntroducedAfter contents stamp)) w
      ({ world := w } : LBMRun World) := by
    refine ⟨⟨rfl, by simp, by simp, by simp, by simp, by simp⟩, fun _ => rfl,
      fun _ h => absurd rfl h, fun h => absurd h (by simp)⟩
  obtain ⟨hgoing, ⟨new, hcalls, hnewc⟩, hcomplete⟩ := hstart.runBatches rfl
    (order.nodupKeys to_run) (by simp)
    (fun e he => (hcollected.plain _ _ (hentry e he)).content)
    (fun e he hc pos => ⟨fun hpos => (hcollected.plain _ _ (hentry e he)).content pos hpos,
      fun hpos => hcollected.positions _ _ hc (hentry e he) pos hpos.1 hpos.2⟩)
    (fun e he hc lbm_def => (hcollected.modifiers _ _ hc (hentry e he) lbm_def).1)
    (fun e he => (hcollected.plain _ _ (hentry e he)).nodup)
  refine ⟨hgoing.sound, hgoing.sound.positionOnce, fun halive c lbm_def hc hdue => ?_⟩
  have hreturned : (Server.runBatches env dtime_s (order.entries to_run) { world := w }).returned =
      false := by
    by_contra hback
    rw [hgoing.orphan (by simpa using hback)] at halive
    cases halive
  cases hlookup : to_run.lookup c with
  | some batch =>
    exact hcomplete hreturned ⟨c, batch⟩ (order.mem_entries.2 hlookup) hc lbm_def
      ((hcollected.modifiers c batch hc hlookup lbm_def).2 hdue)
  | none =>
    -- there is no node of it
    have hnone := hcollected.absent c hc hlookup lbm_def hdue
    refine .inr ⟨[], new, hcalls, fun call hcall hcall' => ?_,
      fun pos hheld => hnone pos hheld.1.1 hheld.1.2.1⟩
    obtain ⟨batch, hbatch⟩ := List.mem_keys.1 (hnewc call hcall)
    rw [hcall', order.mem_entries, hlookup] at hbatch
    cases hbatch

end Applied

/-! ## From registration to the calls -/

section Registered

/-- The modifier is registered, was introduced at or after the time, and the content is one of its
own. -/
def LBMDefs.Due (defs : LBMDefs) (read : IntroductionTimes) (now stamp : UInt32)
    (ids : LoadingBlockModifierDef → Finset Content) (c : Content)
    (lbm_def : LoadingBlockModifierDef) : Prop :=
  defs.lookup lbm_def.name = some lbm_def ∧
    stamp ≤ introductionTime now (read.lookup lbm_def.name) lbm_def ∧ c ∈ ids lbm_def

theorem mem_getLBMsIntroducedAfter {lookup : LBMLookup} (h : lookup.Ordered)
    {ids : LoadingBlockModifierDef → Finset Content} {stamp : UInt32} {m : LBMContentMapping} :
    m ∈ getLBMsIntroducedAfter (lookup.contents ids) stamp ↔
      ∃ time l, (time, l) ∈ lookup ∧ stamp ≤ time ∧
        m = l.foldl (LBMContentMapping.addLBM ids) {} := by
  unfold getLBMsIntroducedAfter LBMLookup.contents
  induction lookup with
  | nil => simp
  | cons e lookup ih =>
    obtain ⟨time₀, l₀⟩ := e
    obtain ⟨hfirst, hrest⟩ := List.pairwise_cons.1 h
    rw [List.map_cons, List.dropWhile_cons]
    by_cases hold : time₀ < stamp
    · rw [if_pos (by simpa using hold), ih hrest]
      constructor
      · rintro ⟨time, l, hmem, hstamp, rfl⟩
        exact ⟨time, l, List.mem_cons_of_mem _ hmem, hstamp, rfl⟩
      · rintro ⟨time, l, hmem, hstamp, rfl⟩
        rcases List.mem_cons.1 hmem with heq | hmem
        · cases heq
          exact absurd hold (UInt32.not_lt.2 hstamp)
        · exact ⟨time, l, hmem, hstamp, rfl⟩
    · rw [if_neg (by simpa using hold)]
      have hstamp₀ := UInt32.not_lt.1 hold
      constructor
      · intro hmem
        rw [← List.map_cons (f := fun e : UInt32 × List LoadingBlockModifierDef =>
          (e.1, e.2.foldl (LBMContentMapping.addLBM ids) {})), List.map_map] at hmem
        obtain ⟨⟨time, l⟩, hentry, rfl⟩ := List.mem_map.1 hmem
        refine ⟨time, l, hentry, ?_, rfl⟩
        rcases List.mem_cons.1 hentry with heq | hlater
        · cases heq
          exact hstamp₀
        · exact UInt32.le_trans hstamp₀ (UInt32.le_of_lt (hfirst _ hlater))
      · rintro ⟨time, l, hmem, hstamp, rfl⟩
        rw [← List.map_cons (f := fun e : UInt32 × List LoadingBlockModifierDef =>
          (e.1, e.2.foldl (LBMContentMapping.addLBM ids) {})), List.map_map]
        exact List.mem_map.2 ⟨(time, l), hmem, rfl⟩

variable {regs added : List LoadingBlockModifierDef} {defs : LBMDefs} {order : LBMOrders}
  {uninit now : UInt32} {times : ByteString} {read : IntroductionTimes} {lookup : LBMLookup}

theorem due_iff (hregs : registerLBMs regs = .ok defs)
    (hread : parseIntroductionTimesString uninit times = .ok read)
    (hload : loadIntroductionTimes order uninit defs times now = .ok lookup)
    (ids : LoadingBlockModifierDef → Finset Content) (stamp : UInt32) (c : Content)
    (lbm_def : LoadingBlockModifierDef) :
    Due (getLBMsIntroducedAfter (lookup.contents ids) stamp) c lbm_def ↔
      defs.Due read now stamp ids c lbm_def := by
  have hintro : ∀ time, lookup.Introduced time lbm_def ↔ defs.lookup lbm_def.name = some lbm_def ∧
      time = introductionTime now (read.lookup lbm_def.name) lbm_def := fun time =>
    introduced_load (registerLBMs_accepted hregs) hread hload
  have hempty : lbm_def ∉ ({} : LBMContentMapping).lbmsOf c := List.not_mem_nil
  unfold Due LBMDefs.Due
  simp only [mem_getLBMsIntroducedAfter (LBMLookup.Ordered.load hload)]
  constructor
  · rintro ⟨_, ⟨time, l, hmem, hstamp, rfl⟩, hlbm⟩
    rw [mem_lbmsOf, or_iff_right hempty] at hlbm
    obtain ⟨hdef, rfl⟩ := (hintro time).1 ⟨l, hmem, hlbm.1⟩
    exact ⟨hdef, hstamp, hlbm.2⟩
  · rintro ⟨hdef, hstamp, hc⟩
    obtain ⟨l, hmem, hlbm⟩ := (hintro _).2 ⟨hdef, rfl⟩
    exact ⟨_, ⟨_, l, hmem, hstamp, rfl⟩, mem_lbmsOf.2 (.inr ⟨hlbm, hc⟩)⟩

variable {World : Type}

/-- Whatever is registered: each modifier that was introduced at or after the timestamp is called
once for each of its contents, with the positions that had it at the scan and kept it at every check
since, until the block is orphaned; `added` are the modifiers in the order of `addLBM`. -/
theorem applyLBMs_exact (hregs : registerLBMs regs = .ok defs)
    (hread : parseIntroductionTimesString uninit times = .ok read)
    (hload : loadIntroductionTimes order uninit defs times now = .ok lookup) (g : LBMGameDef)
    (trigger_contents : LoadingBlockModifierDef → List ByteString)
    (added : List LoadingBlockModifierDef) (env : LBMEnv World) (dtime_s : ℚ)
    (order' : HashOrder Content LBMToRun) (stamp : UInt32) (w : World) :
    Applied env dtime_s (defs.Due read now stamp (g.registerIds trigger_contents added)) w
      (applyLBMs env dtime_s order' (lookup.contents (g.registerIds trigger_contents added)) stamp
        w) := by
  have hdue : Due (getLBMsIntroducedAfter (lookup.contents (g.registerIds trigger_contents added))
      stamp) = defs.Due read now stamp (g.registerIds trigger_contents added) := by
    funext c lbm_def
    exact propext (due_iff hregs hread hload _ _ _ _)
  rw [← hdue]
  exact applied env dtime_s order' _ stamp w

def oneNode : LBMGameDef where
  ndef :=
    { names := fun _ => []
      nameIdMapping := fun _ => none
      nameIdMappingWithAliases := fun name => if name = bytes "mod:tree" then some 7 else none
      nextId := 0 }
  m_group_to_items _ := []

def growing : LBMEnv ℕ where
  getContent _ _ := 7
  isOrphan _ := false
  trigger _ _ _ n := n + 1

theorem applyLBMs_exact_plain : ∃ defs lookup,
    registerLBMs [{ name := bytes ":mod:grow" }] = .ok defs ∧
      loadIntroductionTimes ⟨.any _ _, .any _ _⟩ 0 defs [] 5 = .ok lookup ∧
      Applied growing 0
        (defs.Due ∅ 5 3 (oneNode.registerIds (fun _ => [bytes "mod:tree"])
          [{ name := bytes "mod:grow" }])) 0
        (applyLBMs growing 0 (.any _ _)
          (lookup.contents (oneNode.registerIds (fun _ => [bytes "mod:tree"])
            [{ name := bytes "mod:grow" }])) 3 0) := by
  have hregs : registerLBMs [{ name := bytes ":mod:grow" }] =
      .ok ((∅ : LBMDefs).insert (bytes "mod:grow") { name := bytes "mod:grow" }) := rfl
  have hread : parseIntroductionTimesString 0 [] = .ok ∅ := rfl
  obtain ⟨lookup, hload⟩ := loadIntroductionTimes_eq ⟨.any _ _, .any _ _⟩
    ((∅ : LBMDefs).insert (bytes "mod:grow") { name := bytes "mod:grow" }) 5 hread
  exact ⟨_, lookup, hregs, hload, applyLBMs_exact hregs hread hload oneNode
    (fun _ => [bytes "mod:tree"]) [{ name := bytes "mod:grow" }] _ 0 (.any _ _) 3 0⟩

/-- The node at the corner is another after the first call, and what it was after the second. -/
def changing : LBMEnv ℕ where
  getContent n pos := if pos = ⟨0, 0, 0⟩ ∧ n = 1 then 9 else 7
  isOrphan _ := false
  trigger _ _ _ n := n + 1

theorem worldAfter_changing (calls : List LBMCall) :
    worldAfter changing 0 0 calls = calls.length := by
  induction calls using List.reverseRecOn with
  | nil => rfl
  | append_singleton calls call ih =>
    rw [worldAfter_concat, ih, List.length_append]
    rfl

theorem held_changing (calls : List LBMCall) : Held changing 0 0 calls 7 ⟨1, 0, 0⟩ := by
  have hall : ∀ n, changing.getContent n ⟨1, 0, 0⟩ = 7 := by
    intro n
    simp [changing]
  refine ⟨⟨?_, hall _, fun before _ _ _ _ => hall _⟩, hall _⟩
  unfold blockPositions
  simp only [List.mem_flatMap, List.mem_map]
  exact ⟨0, by decide, 0, by decide, 1, by decide, rfl⟩

/-- A position that has the content when the modifier is called, as at the scan, may be left out: it
had another one when an earlier modifier was called for the same content. -/
theorem not_applyLBMs_exact : ¬∀ (regs added : List LoadingBlockModifierDef) (defs : LBMDefs)
    (order : LBMOrders) (uninit : UInt32) (times : ByteString) (now : UInt32) (lookup : LBMLookup)
    (g : LBMGameDef) (trigger_contents : LoadingBlockModifierDef → List ByteString)
    (env : LBMEnv ℕ) (order' : HashOrder Content LBMToRun) (stamp : UInt32) (w : ℕ),
    registerLBMs regs = .ok defs →
    loadIntroductionTimes order uninit defs times now = .ok lookup →
    ∀ before call after, (applyLBMs env 0 order'
        (lookup.contents (g.registerIds trigger_contents added)) stamp w).calls =
          before ++ call :: after →
      ∀ pos, pos ∈ call.positions ↔ pos ∈ blockPositions ∧ env.getContent w pos = call.c ∧
        env.getContent (worldAfter env 0 w before) pos = call.c := by
  intro h
  have hregs : registerLBMs [{ name := [97] }, { name := [98] }, { name := [99] }] =
      .ok ((((∅ : LBMDefs).insert [97] { name := [97] }).insert [98] { name := [98] }).insert [99]
        { name := [99] }) := rfl
  have hread : parseIntroductionTimesString 0 [] = .ok ∅ := rfl
  obtain ⟨lookup, hload⟩ := loadIntroductionTimes_eq ⟨.any _ _, .any _ _⟩
    ((((∅ : LBMDefs).insert [97] { name := [97] }).insert [98] { name := [98] }).insert [99]
      { name := [99] }) 5 hread
  have hexact := h _ [{ name := [97] }, { name := [98] }, { name := [99] }] _ _ _ _ _ _ oneNode
    (fun _ => [bytes "mod:tree"]) changing (.any _ _) 0 0 hregs hload
  have happlied := applied changing 0 (.any _ _) (lookup.contents (oneNode.registerIds
    (fun _ => [bytes "mod:tree"]) [{ name := [97] }, { name := [98] }, { name := [99] }])) 0 0
  have hcalled : ∀ name ∈ [[97], [98], [99]], ∃ call ∈ (applyLBMs changing 0 (.any _ _)
      (lookup.contents (oneNode.registerIds (fun _ => [bytes "mod:tree"])
        [{ name := [97] }, { name := [98] }, { name := [99] }])) 0 0).calls,
      call.lbm_def = { name := name } := by
    intro name hname
    have hids : LBMDefs.Due ((((∅ : LBMDefs).insert [97] { name := [97] }).insert [98]
        { name := [98] }).insert [99] { name := [99] }) ∅ 5 0
        (oneNode.registerIds (fun _ => [bytes "mod:tree"])
          [{ name := [97] }, { name := [98] }, { name := [99] }]) 7 { name := name } := by
      simp only [List.mem_cons, List.not_mem_nil, or_false] at hname
      rcases hname with rfl | rfl | rfl
      · exact ⟨rfl, UInt32.zero_le, by decide⟩
      · exact ⟨rfl, UInt32.zero_le, by decide⟩
      · exact ⟨rfl, UInt32.zero_le, by decide⟩
    have hdue := (due_iff hregs hread hload _ 0 7 { name := name }).2 hids
    rcases happlied.complete rfl 7 _ (by decide) hdue with ⟨call, hcall, -, heq⟩ | hnone
    · exact ⟨call, hcall, heq⟩
    · obtain ⟨before, -, -, -, hnone⟩ := hnone
      exact absurd (held_changing before) (hnone _)
  generalize (applyLBMs changing 0 (.any _ _) (lookup.contents (oneNode.registerIds
    (fun _ => [bytes "mod:tree"]) [{ name := [97] }, { name := [98] }, { name := [99] }])) 0 0) = r
    at hexact happlied hcalled
  have hc : ∀ call ∈ r.calls, call.c = 7 := by
    intro call hcall
    obtain ⟨⟨pos, hpos⟩, hfound⟩ := happlied.found call hcall
    rw [← (hfound pos hpos).2]
    simp [changing]
  -- there are three calls at least
  obtain ⟨call₁, call₂, call₃, rest, hcalls⟩ : ∃ call₁ call₂ call₃ rest,
      r.calls = [call₁, call₂] ++ call₃ :: rest := by
    obtain ⟨a, ha, hname₁⟩ := hcalled [97] (by simp)
    obtain ⟨b, hb, hname₂⟩ := hcalled [98] (by simp)
    obtain ⟨d, hd, hname₃⟩ := hcalled [99] (by simp)
    have hab : a ≠ b := fun heq => by simp [heq, hname₂] at hname₁
    have had : a ≠ d := fun heq => by simp [heq, hname₃] at hname₁
    have hbd : b ≠ d := fun heq => by simp [heq, hname₃] at hname₂
    match hcalls : r.calls with
    | [] => simp [hcalls] at ha
    | [_] =>
      rw [hcalls, List.mem_singleton] at ha hb
      exact absurd (ha.trans hb.symm) hab
    | [_, _] =>
      rw [hcalls, List.mem_pair] at ha hb hd
      rcases ha with rfl | rfl <;> rcases hb with rfl | rfl <;> rcases hd with rfl | rfl <;>
        simp_all
    | call₁ :: call₂ :: call₃ :: rest => exact ⟨call₁, call₂, call₃, rest, rfl⟩
  have hc₃ : call₃.c = 7 := hc call₃ (by simp [hcalls])
  have hcorner : (⟨0, 0, 0⟩ : V3) ∈ call₃.positions := by
    rw [hexact _ _ _ hcalls, worldAfter_changing, hc₃]
    refine ⟨?_, rfl, rfl⟩
    unfold blockPositions
    simp only [List.mem_flatMap, List.mem_map]
    exact ⟨0, by decide, 0, by decide, 0, by decide, rfl⟩
  have hheld := (happlied.positions _ _ _ hcalls (by rw [hc₃]; decide) _).1 hcorner
  have hsecond := hheld.1.2.2 [call₁] call₂ [] rfl
    ((hc call₂ (by simp [hcalls])).trans hc₃.symm)
  rw [worldAfter_changing, hc₃, List.length_singleton] at hsecond
  exact absurd hsecond (by decide)

end Registered

end Freeminer.Server
