import Freeminer.Voxel.Map

/-! `unspread_light`: removes all light that is potentially emitted by some nodes, and finds what
is to be lit again. -/

namespace Freeminer.Voxel

open Lib
open Block (MapNode)

/-- The state of the loop over the neighbours of a node. -/
structure Unspread where
  map : Map
  fromNodes : LightQueue
  brightestNeighborLight : ℕ
  /-- The direction of the brightest neighbour. -/
  sourceDir : ℕ

/-- A neighbour of a node that had `currentLight`: it loses its light if it has less, else it can
light up the node. -/
def unspreadNeighbor (bank : LightBank) (currentLight : ℕ) (current : ChangingLight)
    (st : Unspread) (i : ℕ) : Unspread :=
  if current.sourceDirection + i = 5 then st
  else
    let next := stepRelBlockPos i current.relPosition current.blockPosition
    match st.map.getBlockNode next.2 next.1 with
    | none => st
    | some neighbor =>
      let f := st.map.getLightingFlags neighbor
      let light := getLightRaw neighbor bank f
      if f.lightPropagates = true ∧ light < currentLight then
        if light > 0 then
          { st with
            map := st.map.setBlockNode next.2 next.1 (setLight neighbor bank 0 f)
            fromNodes := st.fromNodes.push light ⟨next.1, next.2, i⟩ }
        else st
      else if st.brightestNeighborLight < max f.lightSource light then
        { st with brightestNeighborLight := max f.lightSource light, sourceDir := i }
      else st

/-- A node of the queue; what can be lit again goes to `lightSources`. -/
def unspreadNode (bank : LightBank) (currentLight : ℕ) (current : ChangingLight) (m : Map)
    (fromNodes lightSources : LightQueue) : Map × LightQueue × LightQueue :=
  match m.getBlockNode current.blockPosition current.relPosition with
  | none => (m, fromNodes, lightSources)
  | some node =>
    let f := m.getLightingFlags node
    let st := directions.foldl (unspreadNeighbor bank currentLight current)
      { map := m, fromNodes, brightestNeighborLight := f.lightSource + 1, sourceDir := 6 }
    if st.brightestNeighborLight > 1 ∧ f.lightPropagates = true then
      (st.map, st.fromNodes, lightSources.push (st.brightestNeighborLight - 1)
        { current with sourceDirection := if st.sourceDir = 6 then 6 else 5 - st.sourceDir })
    else (st.map, st.fromNodes, lightSources)

/-- The loop; `fuel` is more than the weight of the queue. -/
def unspreadLoop (bank : LightBank) : ℕ → Map → LightQueue → LightQueue → Map × LightQueue
  | 0, m, _, lightSources => (m, lightSources)
  | fuel + 1, m, fromNodes, lightSources =>
    match fromNodes.next with
    | none => (m, lightSources)
    | some (currentLight, current, fromNodes) =>
      let r := unspreadNode bank currentLight current m fromNodes lightSources
      unspreadLoop bank fuel r.1 r.2.1 r.2.2

def unspreadLight (bank : LightBank) (m : Map) (fromNodes lightSources : LightQueue) :
    Map × LightQueue :=
  unspreadLoop bank (fromNodes.weight + 1) m fromNodes lightSources

section Directions

variable {c : ChangingLight} {i j : ℕ} {p q : V3}

theorem neighborDirs_inj : ∀ i < 6, ∀ j < 6, neighborDirs i = neighborDirs j → i = j := by decide

theorem add_neighborDirs_inj (hi : i < 6) (hj : j < 6)
    (h : p + neighborDirs i = p + neighborDirs j) : i = j := by
  apply neighborDirs_inj i hi j hj
  simp only [V3.add_def, V3.mk.injEq] at h
  cases hni : neighborDirs i
  cases hnj : neighborDirs j
  simp only [hni, hnj] at h
  simp only [V3.mk.injEq]
  omega

/-- The neighbour that is skipped is the one that caused the change. -/
theorem source_eq_iff (hi : i < 6) :
    c.source = some (c.pos + neighborDirs i) ↔ c.sourceDirection + i = 5 := by
  unfold ChangingLight.source
  split_ifs with h
  · rw [Option.some.injEq]
    constructor
    · intro heq
      have := add_neighborDirs_inj (by omega) hi heq
      omega
    · intro heq
      have : 5 - c.sourceDirection = i := by omega
      rw [this]
  · constructor
    · exact fun h => by cases h
    · omega

/-- The node next to one in a direction, that it put into a queue. -/
theorem pos_source_step (hc : InBlock c.relPosition) (hi : i < 6) :
    let next := stepRelBlockPos i c.relPosition c.blockPosition
    InBlock next.1 ∧ (⟨next.1, next.2, i⟩ : ChangingLight).pos = c.pos + neighborDirs i ∧
      (⟨next.1, next.2, i⟩ : ChangingLight).source = some c.pos := by
  obtain ⟨hin, hpos⟩ := stepRelBlockPos_spec hc hi c.blockPosition
  refine ⟨hin, hpos, ?_⟩
  have hp : ChangingLight.pos ⟨(stepRelBlockPos i c.relPosition c.blockPosition).1,
      (stepRelBlockPos i c.relPosition c.blockPosition).2, i⟩ = c.pos + neighborDirs i := hpos
  rw [ChangingLight.source, if_pos hi, hp, neighborDirs_opposite hi]

end Directions

section Around

variable {bank : LightBank} {currentLight : ℕ} {c : ChangingLight} {m₀ m : Map}
  {q₀ lightSources : LightQueue} {st : Unspread} {i : ℕ} {ds : List ℕ}

/-- The loop has seen the neighbours in the directions `ds`; it started with the map `m₀` and the
queue `q₀`. -/
structure Around (bank : LightBank) (currentLight : ℕ) (c : ChangingLight) (m₀ : Map)
    (q₀ : LightQueue) (ds : List ℕ) (st : Unspread) : Prop where
  content : Map.SameContent m₀ st.map
  other : ∀ bank' ≠ bank, ∀ v, st.map.raw bank' v = m₀.raw bank' v
  unseen : ∀ v, (∀ i ∈ ds, v ≠ c.pos + neighborDirs i) → st.map.raw bank v = m₀.raw bank v
  raw : ∀ v, st.map.raw bank v = m₀.raw bank v ∨ m₀.Adjacent c.pos v ∧ m₀.Propagates v ∧
    0 < m₀.raw bank v ∧ m₀.raw bank v < currentLight ∧ st.map.raw bank v = 0 ∧
    ∃ e ∈ st.fromNodes.entries, e.node = v ∧ e.level = m₀.raw bank v
  dark : ∀ i ∈ ds, c.source ≠ some (c.pos + neighborDirs i) →
    m₀.Propagates (c.pos + neighborDirs i) → st.map.raw bank (c.pos + neighborDirs i) = 0 ∨
      currentLight ≤ st.map.raw bank (c.pos + neighborDirs i)
  kept : q₀.entries ⊆ st.fromNodes.entries
  queued : ∀ e ∈ st.fromNodes.entries, e ∈ q₀.entries ∨ e.source = some c.pos ∧
    m₀.Adjacent c.pos e.node ∧ m₀.Propagates e.node ∧ 0 < e.level ∧ e.level < currentLight ∧
    e.level = m₀.raw bank e.node ∧ st.map.raw bank e.node = 0
  ok : st.fromNodes.Ok
  maxLight : st.fromNodes.maxLight = currentLight
  emits : m₀.source c.pos + 1 ≤ st.brightestNeighborLight
  bright : ∀ i ∈ ds, c.source ≠ some (c.pos + neighborDirs i) →
    (¬ m₀.Propagates (c.pos + neighborDirs i) ∨
      currentLight ≤ st.map.raw bank (c.pos + neighborDirs i)) →
    glow m₀.source (st.map.raw bank) (c.pos + neighborDirs i) ≤ st.brightestNeighborLight
  brightest : st.sourceDir = 6 ∧ st.brightestNeighborLight = m₀.source c.pos + 1 ∨
    st.sourceDir ∈ ds ∧ m₀.Adjacent (c.pos + neighborDirs st.sourceDir) c.pos ∧
      st.brightestNeighborLight =
        glow m₀.source (st.map.raw bank) (c.pos + neighborDirs st.sourceDir) ∧
      (¬ m₀.Propagates (c.pos + neighborDirs st.sourceDir) ∨
        currentLight ≤ st.map.raw bank (c.pos + neighborDirs st.sourceDir))
  weight : st.fromNodes.weight ≤ q₀.weight + ds.length * (7 ^ currentLight / 7)

/-- The neighbour that is seen next, by its position on the map. -/
theorem unspreadNeighbor_eq (hc : InBlock c.relPosition) (hi : i < 6)
    (hs : c.source ≠ some (c.pos + neighborDirs i)) {n : MapNode}
    (hn : st.map.getNode (c.pos + neighborDirs i) = some n) :
    unspreadNeighbor bank currentLight c st i =
      if (st.map.getLightingFlags n).lightPropagates = true ∧
          getLightRaw n bank (st.map.getLightingFlags n) < currentLight then
        if getLightRaw n bank (st.map.getLightingFlags n) > 0 then
          { st with
            map := st.map.setNode (c.pos + neighborDirs i)
              (setLight n bank 0 (st.map.getLightingFlags n))
            fromNodes := st.fromNodes.push (getLightRaw n bank (st.map.getLightingFlags n))
              ⟨(stepRelBlockPos i c.relPosition c.blockPosition).1,
                (stepRelBlockPos i c.relPosition c.blockPosition).2, i⟩ }
        else st
      else if st.brightestNeighborLight < getLight n bank (st.map.getLightingFlags n) then
        { st with
          brightestNeighborLight := getLight n bank (st.map.getLightingFlags n)
          sourceDir := i }
      else st := by
  obtain ⟨hin, hpos⟩ := stepRelBlockPos_spec hc hi c.blockPosition
  have hpos : nodePos (stepRelBlockPos i c.relPosition c.blockPosition).2
      (stepRelBlockPos i c.relPosition c.blockPosition).1 = c.pos + neighborDirs i := hpos
  unfold unspreadNeighbor
  rw [if_neg fun h => hs ((source_eq_iff hi).mpr h)]
  dsimp only
  rw [Map.getBlockNode_eq _ _ hin, hpos, hn]
  dsimp only
  rw [Map.setBlockNode_eq _ _ hin, hpos]
  rfl

theorem unspreadNeighbor_skip (hi : i < 6) (hc : InBlock c.relPosition)
    (h : c.source = some (c.pos + neighborDirs i) ∨
      st.map.getNode (c.pos + neighborDirs i) = none) :
    unspreadNeighbor bank currentLight c st i = st := by
  unfold unspreadNeighbor
  split_ifs with hskip
  · rfl
  · obtain ⟨hin, hpos⟩ := stepRelBlockPos_spec hc hi c.blockPosition
    have hpos : nodePos (stepRelBlockPos i c.relPosition c.blockPosition).2
        (stepRelBlockPos i c.relPosition c.blockPosition).1 = c.pos + neighborDirs i := hpos
    have hnone := h.resolve_left fun hs => hskip ((source_eq_iff hi).mp hs)
    dsimp only
    rw [Map.getBlockNode_eq _ _ hin, hpos, hnone]

/-- A neighbour at which nothing is done. -/
theorem Around.cons_same (h : Around bank currentLight c m₀ q₀ ds st)
    (hdark : c.source ≠ some (c.pos + neighborDirs i) → m₀.Propagates (c.pos + neighborDirs i) →
      st.map.raw bank (c.pos + neighborDirs i) = 0 ∨
        currentLight ≤ st.map.raw bank (c.pos + neighborDirs i))
    (hbright : c.source ≠ some (c.pos + neighborDirs i) →
      (¬ m₀.Propagates (c.pos + neighborDirs i) ∨
        currentLight ≤ st.map.raw bank (c.pos + neighborDirs i)) →
      glow m₀.source (st.map.raw bank) (c.pos + neighborDirs i) ≤ st.brightestNeighborLight) :
    Around bank currentLight c m₀ q₀ (i :: ds) st := by
  refine ⟨h.content, h.other, fun v hv => h.unseen v fun j hj => hv j (List.mem_cons_of_mem _ hj),
    h.raw, fun j hj => ?_, h.kept, h.queued, h.ok, h.maxLight, h.emits, fun j hj => ?_,
    h.brightest.imp_right fun hb => ⟨List.mem_cons_of_mem _ hb.1, hb.2⟩, ?_⟩
  · cases List.mem_cons.mp hj with
    | inl heq => exact heq ▸ hdark
    | inr hin => exact h.dark j hin
  · cases List.mem_cons.mp hj with
    | inl heq => exact heq ▸ hbright
    | inr hin => exact h.bright j hin
  · refine h.weight.trans (Nat.add_le_add_left ?_ _)
    exact Nat.mul_le_mul_right _ (Nat.le_succ _)

/-- The neighbour that is seen next has not been changed. -/
theorem Around.raw_next (h : Around bank currentLight c m₀ q₀ ds st) (hi : i < 6)
    (hds : ∀ j ∈ ds, j < 6) (hnot : i ∉ ds) :
    st.map.raw bank (c.pos + neighborDirs i) = m₀.raw bank (c.pos + neighborDirs i) := by
  apply h.unseen
  intro j hj heq
  exact hnot (add_neighborDirs_inj hi (hds j hj) heq ▸ hj)

/-- A neighbour that can light up the node. -/
theorem Around.cons_bright (h : Around bank currentLight c m₀ q₀ ds st) (hi : i < 6)
    (hds : ∀ j ∈ ds, j < 6) (hnot : i ∉ ds)
    (hadj : m₀.Adjacent (c.pos + neighborDirs i) c.pos)
    (hleft : ¬ m₀.Propagates (c.pos + neighborDirs i) ∨
      currentLight ≤ st.map.raw bank (c.pos + neighborDirs i))
    (hlt : st.brightestNeighborLight <
      glow m₀.source (st.map.raw bank) (c.pos + neighborDirs i)) :
    Around bank currentLight c m₀ q₀ (i :: ds)
      { st with
        brightestNeighborLight := glow m₀.source (st.map.raw bank) (c.pos + neighborDirs i)
        sourceDir := i } := by
  have hsame := h.raw_next hi hds hnot
  refine ⟨h.content, h.other, fun v hv => h.unseen v fun j hj => hv j (List.mem_cons_of_mem _ hj),
    h.raw, fun j hj hs hp => ?_, h.kept, h.queued, h.ok, h.maxLight, h.emits.trans hlt.le,
    fun j hj hs hl => ?_, Or.inr ⟨List.mem_cons_self, hadj, rfl, hleft⟩, ?_⟩
  · cases List.mem_cons.mp hj with
    | inl heq =>
      subst heq
      exact Or.inr (hleft.resolve_left fun hno => hno hp)
    | inr hin => exact h.dark j hin hs hp
  · cases List.mem_cons.mp hj with
    | inl heq =>
      subst heq
      exact Nat.le_refl _
    | inr hin => exact (h.bright j hin hs hl).trans hlt.le
  · refine h.weight.trans (Nat.add_le_add_left ?_ _)
    exact Nat.mul_le_mul_right _ (Nat.le_succ _)

theorem Around.cons_dark (h : Around bank currentLight c m₀ q₀ ds st) (hc : InBlock c.relPosition)
    (hi : i < 6) (hds : ∀ j ∈ ds, j < 6) (hnot : i ∉ ds)
    (hs : c.source ≠ some (c.pos + neighborDirs i)) {n : MapNode}
    (hn : st.map.getNode (c.pos + neighborDirs i) = some n)
    (hadj : m₀.Adjacent c.pos (c.pos + neighborDirs i))
    (hp : m₀.Propagates (c.pos + neighborDirs i))
    (hpos : 0 < st.map.raw bank (c.pos + neighborDirs i))
    (hlt : st.map.raw bank (c.pos + neighborDirs i) < currentLight) :
    Around bank currentLight c m₀ q₀ (i :: ds)
      { st with
        map := st.map.setNode (c.pos + neighborDirs i)
          (setLight n bank 0 (st.map.getLightingFlags n))
        fromNodes := st.fromNodes.push (st.map.raw bank (c.pos + neighborDirs i))
          ⟨(stepRelBlockPos i c.relPosition c.blockPosition).1,
            (stepRelBlockPos i c.relPosition c.blockPosition).2, i⟩ } := by
  have hsame := h.raw_next hi hds hnot
  obtain ⟨hin, hnext, hsource⟩ := pos_source_step hc hi
  have hflag : (st.map.getLightingFlags n).lightPropagates = true :=
    (Map.propagates_iff hn).mp (h.content.propagates ▸ hp)
  have hraw : ∀ bank' v, (st.map.setNode (c.pos + neighborDirs i)
      (setLight n bank 0 (st.map.getLightingFlags n))).raw bank' v =
      if bank' = bank ∧ v = c.pos + neighborDirs i then 0 else st.map.raw bank' v := by
    intro bank' v
    rw [Map.raw_setLight hn (Nat.zero_le _)]
    simp only [hflag, and_true]
  have hle : st.map.raw bank (c.pos + neighborDirs i) ≤ LIGHT_SUN := Map.raw_le _ _ _
  have hmax : st.map.raw bank (c.pos + neighborDirs i) ≤ st.fromNodes.maxLight :=
    h.maxLight ▸ hlt.le
  obtain ⟨hok, hmaxLight⟩ := LightQueue.ok_push h.ok hmax
    (c := ⟨(stepRelBlockPos i c.relPosition c.blockPosition).1,
      (stepRelBlockPos i c.relPosition c.blockPosition).2, i⟩) hin
  have hne : ∀ j ∈ ds, c.pos + neighborDirs j ≠ c.pos + neighborDirs i := by
    intro j hj heq
    exact hnot (add_neighborDirs_inj (hds j hj) hi heq ▸ hj)
  have hentries := LightQueue.entries_push hle st.fromNodes
    ⟨(stepRelBlockPos i c.relPosition c.blockPosition).1,
      (stepRelBlockPos i c.relPosition c.blockPosition).2, i⟩
  rw [ChangingLight.entry, hnext, hsource] at hentries
  refine ⟨h.content.trans (Map.sameContent_setNode hn bank 0), fun bank' hb v => ?_,
    fun v hv => ?_, fun v => ?_, fun j hj hs' hp' => ?_, ?_, fun e he => ?_, hok,
    hmaxLight.trans h.maxLight, h.emits, fun j hj hs' hl => ?_, ?_, ?_⟩
  · rw [hraw, if_neg fun hand => hb hand.1]
    exact h.other bank' hb v
  · rw [hraw, if_neg fun hand => hv i List.mem_cons_self hand.2]
    exact h.unseen v fun j hj => hv j (List.mem_cons_of_mem _ hj)
  · rw [hraw]
    split_ifs with hv
    · obtain ⟨-, rfl⟩ := hv
      rw [hsame] at hpos hlt
      refine Or.inr ⟨hadj, hp, hpos, hlt, rfl, ?_⟩
      rw [hentries, hsame]
      exact ⟨_, Set.mem_insert _ _, rfl, rfl⟩
    · rcases h.raw v with hv | ⟨h1, h2, h3, h4, h5, e, he, h6⟩
      · exact Or.inl hv
      · refine Or.inr ⟨h1, h2, h3, h4, h5, e, ?_, h6⟩
        rw [hentries]
        exact Set.mem_insert_of_mem _ he
  · rw [hraw]
    cases List.mem_cons.mp hj with
    | inl heq =>
      subst heq
      rw [if_pos ⟨rfl, rfl⟩]
      exact Or.inl rfl
    | inr hin =>
      rw [if_neg fun hand => hne j hin hand.2]
      exact h.dark j hin hs' hp'
  · rw [hentries]
    exact h.kept.trans (Set.subset_insert _ _)
  · rw [hentries, Set.mem_insert_iff] at he
    cases he with
    | inl heq =>
      subst heq
      rw [hsame] at hpos hlt
      refine Or.inr ⟨rfl, hadj, hp, ?_, ?_, hsame, ?_⟩
      · rwa [hsame]
      · rwa [hsame]
      · rw [hraw, if_pos ⟨rfl, rfl⟩]
    | inr hin =>
      refine (h.queued e hin).imp_right fun hq => ?_
      obtain ⟨h1, h2, h3, h4, h5, h6, h7⟩ := hq
      refine ⟨h1, h2, h3, h4, h5, h6, ?_⟩
      rw [hraw]
      split_ifs
      · rfl
      · exact h7
  · cases List.mem_cons.mp hj with
    | inl heq =>
      subst heq
      rw [hraw, if_pos ⟨rfl, rfl⟩] at hl
      rcases hl with hno | hle
      · exact absurd hp hno
      · omega
    | inr hin =>
      have hj' : glow m₀.source ((st.map.setNode (c.pos + neighborDirs i)
          (setLight n bank 0 (st.map.getLightingFlags n))).raw bank) (c.pos + neighborDirs j) =
          glow m₀.source (st.map.raw bank) (c.pos + neighborDirs j) := by
        rw [glow, glow, hraw, if_neg fun hand => hne j hin hand.2]
      rw [hraw, if_neg fun hand => hne j hin hand.2] at hl
      rw [hj']
      exact h.bright j hin hs' hl
  · rcases h.brightest with hb | ⟨hmem, hb, hlight, hl⟩
    · exact Or.inl hb
    · have hj' : (st.map.setNode (c.pos + neighborDirs i)
          (setLight n bank 0 (st.map.getLightingFlags n))).raw bank
          (c.pos + neighborDirs st.sourceDir) =
          st.map.raw bank (c.pos + neighborDirs st.sourceDir) := by
        rw [hraw, if_neg fun hand => hne _ hmem hand.2]
      refine Or.inr ⟨List.mem_cons_of_mem _ hmem, hb, ?_, ?_⟩
      · rw [glow, hj']
        exact hlight
      · rw [hj']
        exact hl
  · rw [LightQueue.weight_push hle, List.length_cons, Nat.add_mul, Nat.one_mul, ← Nat.add_assoc]
    apply Nat.add_le_add h.weight
    rw [Nat.le_div_iff_mul_le (by decide), ← Nat.pow_succ]
    exact Nat.pow_le_pow_right (by decide) hlt

theorem Around.step (h : Around bank currentLight c m₀ q₀ ds st) (hc : InBlock c.relPosition)
    (hloaded : (m₀.getNode c.pos).isSome = true) (hi : i < 6) (hds : ∀ j ∈ ds, j < 6)
    (hnot : i ∉ ds) :
    Around bank currentLight c m₀ q₀ (i :: ds) (unspreadNeighbor bank currentLight c st i) := by
  by_cases hskip : c.source = some (c.pos + neighborDirs i)
  · rw [unspreadNeighbor_skip hi hc (Or.inl hskip)]
    exact h.cons_same (fun hs => absurd hskip hs) fun hs => absurd hskip hs
  · cases hn : st.map.getNode (c.pos + neighborDirs i) with
    | none =>
      rw [unspreadNeighbor_skip hi hc (Or.inr hn)]
      have hzero : glow m₀.source (st.map.raw bank) (c.pos + neighborDirs i) = 0 := by
        rw [glow, ← h.content.source, Map.source, Map.raw, hn]
        rfl
      refine h.cons_same (fun _ hp => ?_) fun _ _ => hzero ▸ Nat.zero_le _
      obtain ⟨n, hn', -⟩ := h.content.propagates ▸ hp
      rw [hn] at hn'
      cases hn'
    | some n =>
      have hq : (m₀.getNode (c.pos + neighborDirs i)).isSome = true := by
        rw [← h.content.isSome, hn]
        rfl
      have hadj : m₀.Adjacent c.pos (c.pos + neighborDirs i) := ⟨hloaded, hq, i, hi, rfl⟩
      have hraw : st.map.raw bank (c.pos + neighborDirs i) =
          getLightRaw n bank (st.map.getLightingFlags n) := Map.raw_of_getNode hn
      have hglow : glow m₀.source (st.map.raw bank) (c.pos + neighborDirs i) =
          getLight n bank (st.map.getLightingFlags n) := by
        rw [← h.content.source, Map.glow_of_getNode hn]
      have hflag : m₀.Propagates (c.pos + neighborDirs i) ↔
          (st.map.getLightingFlags n).lightPropagates = true := by
        rw [← h.content.propagates]
        exact Map.propagates_iff hn
      rw [unspreadNeighbor_eq hc hi hskip hn, ← hraw, ← hglow]
      split_ifs with hlow hpos hbright
      · exact h.cons_dark hc hi hds hnot hskip hn hadj (hflag.mpr hlow.1) hpos hlow.2
      · refine h.cons_same (fun _ _ => Or.inl (by omega)) fun _ hl => ?_
        rcases hl with hno | hle
        · exact absurd (hflag.mpr hlow.1) hno
        · omega
      · refine h.cons_bright hi hds hnot (m₀.adjacent_symm _ _ hadj) ?_ hbright
        rw [hflag]
        by_cases hf : (st.map.getLightingFlags n).lightPropagates = true
        · exact Or.inr (Nat.not_lt.mp fun hlt => hlow ⟨hf, hlt⟩)
        · exact Or.inl hf
      · refine h.cons_same (fun _ hp => Or.inr ?_) fun _ _ => Nat.not_lt.mp hbright
        exact Nat.not_lt.mp fun hlt => hlow ⟨hflag.mp hp, hlt⟩

theorem Around.foldl (hc : InBlock c.relPosition) (hloaded : (m₀.getNode c.pos).isSome = true) :
    ∀ {dirs ds : List ℕ} {st : Unspread}, dirs.Nodup → (∀ i ∈ dirs, i < 6) → (∀ j ∈ ds, j < 6) →
      (∀ i ∈ dirs, i ∉ ds) → Around bank currentLight c m₀ q₀ ds st →
      Around bank currentLight c m₀ q₀ (dirs.reverse ++ ds)
        (dirs.foldl (unspreadNeighbor bank currentLight c) st) := by
  intro dirs
  induction dirs with
  | nil => exact fun _ _ _ _ h => h
  | cons i dirs ih =>
    intro ds st hnodup hdirs hds hnot h
    rw [List.nodup_cons] at hnodup
    have hi := hdirs i List.mem_cons_self
    rw [List.reverse_cons, List.append_assoc, List.singleton_append, List.foldl_cons]
    apply ih hnodup.2 (fun j hj => hdirs j (List.mem_cons_of_mem _ hj))
    · intro j hj
      cases List.mem_cons.mp hj with
      | inl heq => exact heq ▸ hi
      | inr hin => exact hds j hin
    · intro j hj hin
      cases List.mem_cons.mp hin with
      | inl heq => exact hnodup.1 (heq ▸ hj)
      | inr hin => exact hnot j (List.mem_cons_of_mem _ hj) hin
    · exact h.step hc hloaded hi hds (hnot i List.mem_cons_self)

variable (bank) in
/-- The loop over all neighbours of a node. -/
theorem around_directions (hc : InBlock c.relPosition) {n : MapNode}
    (hn : m₀.getNode c.pos = some n) (hok : q₀.Ok) (hmax : q₀.maxLight = currentLight) :
    Around bank currentLight c m₀ q₀ [5, 4, 3, 2, 1, 0]
      (directions.foldl (unspreadNeighbor bank currentLight c)
        { map := m₀
          fromNodes := q₀
          brightestNeighborLight := (m₀.getLightingFlags n).lightSource + 1
          sourceDir := 6 }) := by
  have hsource : m₀.source c.pos = (m₀.getLightingFlags n).lightSource := Map.source_of_getNode hn
  change Around bank currentLight c m₀ q₀ (directions.reverse ++ []) _
  apply Around.foldl hc (by rw [hn]; rfl) (by decide) (by decide) (by simp) (by simp)
  refine ⟨.refl m₀, fun _ _ _ => rfl, fun _ _ => rfl, fun _ => Or.inl rfl, by simp,
    Set.Subset.refl _, fun _ he => Or.inl he, hok, hmax, hsource ▸ Nat.le_refl _, by simp,
    Or.inl ⟨rfl, hsource ▸ rfl⟩, ?_⟩
  simp

end Around

section Run

variable {bank : LightBank} {light : ℕ} {c : ChangingLight} {m : Map}
  {q q₀ lightSources : LightQueue}

/-- A queue of nodes to be lit: none has the level 0, and all are loaded. -/
structure Sources (m : Map) (q : LightQueue) : Prop where
  ok : q.Ok
  maxLight : q.maxLight = LIGHT_SUN
  pos : ∀ e ∈ q.entries, 0 < e.level
  loaded : ∀ e ∈ q.entries, (m.getNode e.node).isSome = true

theorem sources_clear (m : Map) : Sources m .clear :=
  ⟨LightQueue.ok_clear, rfl, by simp [LightQueue.entries_clear],
    by simp [LightQueue.entries_clear]⟩

theorem Sources.push (h : Sources m q) (hpos : 0 < light) (hle : light ≤ LIGHT_SUN)
    (hc : InBlock c.relPosition) (hloaded : (m.getNode c.pos).isSome = true) :
    Sources m (q.push light c) := by
  obtain ⟨hok, hmax⟩ := LightQueue.ok_push h.ok (h.maxLight ▸ hle) hc
  refine ⟨hok, hmax.trans h.maxLight, fun e he => ?_, fun e he => ?_⟩
  · rw [LightQueue.entries_push hle, Set.mem_insert_iff] at he
    cases he with
    | inl heq => exact heq ▸ hpos
    | inr hin => exact h.pos e hin
  · rw [LightQueue.entries_push hle, Set.mem_insert_iff] at he
    cases he with
    | inl heq => exact heq ▸ hloaded
    | inr hin => exact h.loaded e hin

theorem Sources.of_sameContent {m' : Map} (h : Sources m q) (hm : Map.SameContent m m') :
    Sources m' q := ⟨h.ok, h.maxLight, h.pos, fun e he => (hm.isSome e.node).trans (h.loaded e he)⟩

def flood (bank : LightBank) (m : Map) (fromNodes lightSources : LightQueue) : Flood V3 :=
  ⟨m.raw bank, fromNodes.entries, lightSources.entries⟩

/-- What a node of the queue `q` does. -/
structure NodeUnspread (bank : LightBank) (m : Map) (q lightSources : LightQueue) (e : Entry V3)
    (r : Map × LightQueue × LightQueue) : Prop where
  unlights : Unlights m.Adjacent m.Propagates m.source e (flood bank m q lightSources)
    (flood bank r.1 r.2.1 r.2.2)
  content : Map.SameContent m r.1
  other : ∀ bank' ≠ bank, ∀ v, r.1.raw bank' v = m.raw bank' v
  ok : r.2.1.Ok
  loaded : ∀ e ∈ r.2.1.entries, (m.getNode e.node).isSome = true
  sources : Sources m r.2.2
  weight : r.2.1.weight < q.weight

/-- The brightest neighbour that is left, or the node itself, as a source of light. -/
theorem Around.lit {st : Unspread} {ds : List ℕ}
    (h : Around bank light c m q₀ ds st) (hds : ∀ j ∈ ds, j < 6) :
    (ChangingLight.source { c with
        sourceDirection := if st.sourceDir = 6 then 6 else 5 - st.sourceDir } = none ∧
        st.brightestNeighborLight - 1 ≤ m.source c.pos) ∨
      ∃ z, ChangingLight.source { c with
          sourceDirection := if st.sourceDir = 6 then 6 else 5 - st.sourceDir } = some z ∧
        m.Adjacent z c.pos ∧ st.brightestNeighborLight = glow m.source (st.map.raw bank) z ∧
        (¬ m.Propagates z ∨ light ≤ st.map.raw bank z) := by
  rcases h.brightest with ⟨hdir, hlight⟩ | ⟨hmem, hadj, hlight, hleft⟩
  · left
    rw [if_pos hdir, hlight]
    exact ⟨rfl, by omega⟩
  · right
    have hdir := hds _ hmem
    refine ⟨c.pos + neighborDirs st.sourceDir, ?_, hadj, hlight, hleft⟩
    rw [if_neg (by omega), ChangingLight.source,
      if_pos (show 5 - st.sourceDir < 6 from by omega)]
    have : 5 - (5 - st.sourceDir) = st.sourceDir := by omega
    rw [this]
    rfl

theorem Around.brightest_le {st : Unspread} {ds : List ℕ} (h : Around bank light c m q₀ ds st) :
    st.brightestNeighborLight ≤ LIGHT_SUN := by
  rcases h.brightest with ⟨-, hlight⟩ | ⟨-, -, hlight, -⟩
  · rw [hlight]
    exact Nat.succ_le_succ (m.source_le c.pos)
  · rw [hlight]
    exact max_le ((m.source_le _).trans (by decide)) (Map.raw_le _ _ _)

/-- What the loop over the neighbours does, with what it found. -/
theorem Around.unlights {st : Unspread} {found : Set (Entry V3)}
    (h : Around bank light c m q₀ [5, 4, 3, 2, 1, 0] st) (hnext : LightQueue.Next q light c q₀)
    (hfound : lightSources.entries ⊆ found)
    (hgather : m.Propagates c.pos → ∀ k, 0 < k → k < st.brightestNeighborLight → Holds found c.pos k)
    (hlit : ∀ e ∈ found, e ∈ lightSources.entries ∨ e.node = c.pos ∧ m.Propagates c.pos ∧
      (e.source = none ∧ e.level ≤ m.source c.pos ∨ ∃ z, e.source = some z ∧ m.Adjacent z c.pos ∧
        e.level + 1 ≤ glow m.source (st.map.raw bank) z ∧
        (¬ m.Propagates z ∨ light ≤ st.map.raw bank z))) :
    Unlights m.Adjacent m.Propagates m.source (c.entry light) (flood bank m q lightSources)
      ⟨st.map.raw bank, st.fromNodes.entries, found⟩ := by
  have hdir : ∀ {v}, m.Adjacent c.pos v → ∃ i ∈ [5, 4, 3, 2, 1, 0], v = c.pos + neighborDirs i := by
    intro v ⟨_, _, i, hi, heq⟩
    refine ⟨i, ?_, heq⟩
    interval_cases i <;> simp
  refine ⟨hnext.mem, hnext.brightest, h.raw, fun v hadj hopen hs => ?_, fun e he => ?_,
    fun e he => ?_, hfound, fun hopen => ⟨fun v hadj hs hleft => ?_, ?_⟩, hlit⟩
  · obtain ⟨i, hi, rfl⟩ := hdir hadj
    exact h.dark i hi hs hopen
  · exact (hnext.kept e he).imp_right fun hin => h.kept hin
  · exact (h.queued e he).imp_left fun hin => hnext.subset hin
  · obtain ⟨i, hi, rfl⟩ := hdir (m.adjacent_symm _ _ hadj)
    have hbright := h.bright i hi hs hleft
    rcases Nat.lt_or_ge 1 (glow m.source (st.map.raw bank) (c.pos + neighborDirs i)) with h1 | h1
    · have hpos : 0 < glow m.source (st.map.raw bank) (c.pos + neighborDirs i) - 1 := by omega
      have hlt : glow m.source (st.map.raw bank) (c.pos + neighborDirs i) - 1 <
          st.brightestNeighborLight := by omega
      exact Or.inr (hgather hopen _ hpos hlt)
    · exact Or.inl h1
  · rcases Nat.eq_zero_or_pos (m.source c.pos) with h0 | hpos
    · exact Or.inl h0
    · exact Or.inr (hgather hopen _ hpos h.emits)

variable (bank) in
theorem unspreadNode_spec (hnext : LightQueue.Next q light c q₀)
    (hloaded : ∀ e ∈ q.entries, (m.getNode e.node).isSome = true) (hs : Sources m lightSources) :
    NodeUnspread bank m q lightSources (c.entry light)
      (unspreadNode bank light c m q₀ lightSources) := by
  have hload : (m.getNode c.pos).isSome = true := hloaded _ hnext.mem
  obtain ⟨n, hn⟩ := Option.isSome_iff_exists.mp hload
  have haround := around_directions bank hnext.inBlock hn hnext.ok hnext.maxLight
  have hsource : m.source c.pos = (m.getLightingFlags n).lightSource := Map.source_of_getNode hn
  have hflag : m.Propagates c.pos ↔ (m.getLightingFlags n).lightPropagates = true :=
    Map.propagates_iff hn
  unfold unspreadNode
  rw [Map.getBlockNode_eq _ _ hnext.inBlock]
  change NodeUnspread bank m q lightSources _ (match m.getNode c.pos with | none => _ | some _ => _)
  rw [hn]
  dsimp only
  generalize directions.foldl (unspreadNeighbor bank light c) _ = st at haround
  have hload' : ∀ e ∈ st.fromNodes.entries, (m.getNode e.node).isSome = true := by
    intro e he
    rcases haround.queued e he with hin | ⟨-, hadj, -⟩
    · exact hloaded e (hnext.subset hin)
    · exact hadj.2.1
  have hweight : st.fromNodes.weight < q.weight := by
    have := haround.weight
    have := hnext.weight
    have := Nat.pow_pos (n := light) (show 0 < 7 by decide)
    simp only [List.length_cons, List.length_nil] at *
    omega
  by_cases hpush : st.brightestNeighborLight > 1 ∧ (m.getLightingFlags n).lightPropagates = true
  · rw [if_pos hpush]
    obtain ⟨hbright, hf⟩ := hpush
    have hle := haround.brightest_le
    have hentries := LightQueue.entries_push
      (show st.brightestNeighborLight - 1 ≤ LIGHT_SUN by omega) lightSources
      { c with sourceDirection := if st.sourceDir = 6 then 6 else 5 - st.sourceDir }
    have hunlights := haround.unlights hnext
      (Set.subset_insert (ChangingLight.entry (st.brightestNeighborLight - 1)
        { c with sourceDirection := if st.sourceDir = 6 then 6 else 5 - st.sourceDir })
        lightSources.entries) (fun _ k hpos hlt => ⟨_, Set.mem_insert _ _, rfl, Nat.le_sub_one_of_lt hlt⟩) fun e he => by
        rw [Set.mem_insert_iff] at he
        cases he with
        | inr hin => exact Or.inl hin
        | inl heq =>
          subst heq
          refine Or.inr ⟨rfl, hflag.mpr hf, ?_⟩
          rcases haround.lit (by decide) with hnone | ⟨z, hz, hadj, hlight, hleft⟩
          · exact Or.inl hnone
          · refine Or.inr ⟨z, hz, hadj, ?_, hleft⟩
            rw [← hlight]
            exact (Nat.sub_add_cancel hbright.le).le
    rw [← hentries] at hunlights
    exact ⟨hunlights, haround.content, haround.other, haround.ok, hload',
      hs.push (by omega) (by omega) hnext.inBlock hload, hweight⟩
  · rw [if_neg hpush]
    refine ⟨haround.unlights hnext (Set.Subset.refl _) (fun hopen k hpos hlt => ?_)
      fun e he => Or.inl he, haround.content, haround.other, haround.ok, hload', hs, hweight⟩
    exact absurd ⟨by omega, hflag.mp hopen⟩ hpush

structure Losers (m : Map) (q : LightQueue) : Prop where
  ok : q.Ok
  loaded : ∀ e ∈ q.entries, (m.getNode e.node).isSome = true

theorem losers_clear (m : Map) : Losers m .clear :=
  ⟨LightQueue.ok_clear, by simp [LightQueue.entries_clear]⟩

/-- What the whole unlighting does: any `P` that its steps preserve holds at its end. -/
structure Unspreads (bank : LightBank) (m : Map) (P : Flood V3 → Prop) (r : Map × LightQueue) :
    Prop where
  content : Map.SameContent m r.1
  other : ∀ bank' ≠ bank, ∀ v, r.1.raw bank' v = m.raw bank' v
  sources : Sources m r.2
  holds : P ⟨r.1.raw bank, ∅, r.2.entries⟩

theorem unspreadLoop_spec {P : Flood V3 → Prop} {nbr : V3 → V3 → Prop} {opens : V3 → Prop}
    {src : V3 → ℕ} (hP : ∀ e st st', P st → Unlights nbr opens src e st st' → P st') (fuel : ℕ) :
    ∀ (m : Map) (q lightSources : LightQueue), m.Adjacent = nbr → m.Propagates = opens →
      m.source = src → q.weight < fuel → Losers m q → Sources m lightSources →
      P (flood bank m q lightSources) →
      Unspreads bank m P (unspreadLoop bank fuel m q lightSources) := by
  induction fuel with
  | zero => exact fun _ _ _ _ _ _ hw => absurd hw (Nat.not_lt_zero _)
  | succ fuel ih =>
    intro m q lightSources hnbr hopens hsrc hw hq hs hholds
    unfold unspreadLoop
    cases hnext : q.next with
    | none =>
      refine ⟨.refl m, fun _ _ _ => rfl, hs, ?_⟩
      rwa [flood, LightQueue.next_none hq.ok hnext] at hholds
    | some r =>
      obtain ⟨light, c, q'⟩ := r
      have hnode := unspreadNode_spec bank (LightQueue.next_some hq.ok hnext) hq.loaded hs
      dsimp only
      generalize unspreadNode bank light c m q' lightSources = r at hnode
      have hload : ∀ e ∈ r.2.1.entries, (r.1.getNode e.node).isSome = true := fun e he =>
        (hnode.content.isSome e.node).trans (hnode.loaded e he)
      obtain ⟨hcontent, hother, hsources, hdone⟩ := ih r.1 r.2.1 r.2.2
        (hnode.content.adjacent.trans hnbr) (hnode.content.propagates.trans hopens)
        (hnode.content.source.trans hsrc) (Nat.lt_of_lt_of_le hnode.weight (Nat.le_of_lt_succ hw))
        ⟨hnode.ok, hload⟩ (hnode.sources.of_sameContent hnode.content)
        (hP _ _ _ hholds (hnbr ▸ hopens ▸ hsrc ▸ hnode.unlights))
      exact ⟨hnode.content.trans hcontent,
        fun bank' hb v => (hother bank' hb v).trans (hnode.other bank' hb v),
        hsources.of_sameContent hnode.content.symm, hdone⟩

variable (bank) in
/-- `unspread_light` keeps what its steps keep, until no node is left. -/
theorem unspreadLight_spec {P : Flood V3 → Prop}
    (hP : ∀ e st st', P st → Unlights m.Adjacent m.Propagates m.source e st st' → P st')
    (hq : Losers m q) (hs : Sources m lightSources) (h : P (flood bank m q lightSources)) :
    Unspreads bank m P (unspreadLight bank m q lightSources) :=
  unspreadLoop_spec hP _ m q lightSources rfl rfl rfl (Nat.lt_succ_self _) hq hs h

end Run

end Freeminer.Voxel
