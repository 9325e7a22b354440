import Freeminer.Block.NodeDefManager
import Freeminer.Voxel.Spread

/-! `update_lighting_nodes`: the light of a map after some of its nodes have been replaced. -/

namespace Freeminer.Voxel

open Block (MapNode CONTENT_IGNORE)

def above : V3 := ⟨0, 1, 0⟩

def below : V3 := ⟨0, -1, 0⟩

def isSunlightAbove (m : Map) (pos : V3) : Bool :=
  match m.block (getNodeBlockPos (pos + above)) with
  | none =>
    match m.block (getNodeBlockPos pos) with
    | none => false
    | some b => !b.isUnderground
  | some source =>
    let n := source.data (relPos (pos + above))
    if n.param0 = CONTENT_IGNORE then !source.isUnderground
    else getLight n .day (m.getLightingFlags n) == LIGHT_SUN

/-- The positions of changed nodes, with the nodes that were there. -/
abbrev OldNodes := List (V3 × MapNode)

/-- Nodes that are brighter than the brightest modified node was do not change. -/
def minSafeLight (m : Map) (bank : LightBank) (oldnodes : OldNodes) : ℕ :=
  let brightest := oldnodes.foldl (fun minSafe o =>
    let oldLight := getLight o.2 bank (m.getLightingFlags o.2)
    if oldLight > minSafe then oldLight else minSafe) 0
  -- when one node changed, those as bright did not get their light from it
  if oldnodes.length > 1 then brightest + 1 else brightest

/-- The light that a neighbour gives to a node for sure, when it is more than it has. -/
def safeSpread (m : Map) (bank : LightBank) (minSafe : ℕ) (p : V3) (newLight i : ℕ) : ℕ :=
  match m.getNode (p + neighborDirs i) with
  | none => newLight
  | some n2 =>
    let spread := getLight n2 bank (m.getLightingFlags n2)
    if spread > newLight ∧ spread ≥ minSafe then spread - 1 else newLight

def getNewLight (m : Map) (bank : LightBank) (minSafe : ℕ) (p : V3) (n : MapNode) : ℕ :=
  let f := m.getLightingFlags n
  if f.lightPropagates then
    if bank = .day ∧ f.sunlightPropagates = true ∧ isSunlightAbove m p = true then LIGHT_SUN
    else directions.foldl (safeSpread m bank minSafe p) f.lightSource
  else f.lightSource

/-- The nodes from `y` down to the bottom of the world. -/
def columnFuel (m : Map) (p : V3) : ℕ := (p.Y - m.bottom * MAP_BLOCKSIZE + 1).toNat

def removeSunlight : ℕ → V3 → Map → LightQueue → Map × LightQueue
  | 0, _, m, q => (m, q)
  | fuel + 1, p, m, q =>
    match m.getNode p with
    | none => (m, q)
    | some n =>
      if getLight n .day (m.getLightingFlags n) ≠ LIGHT_SUN then (m, q)
      else
        removeSunlight fuel (p + below) (m.setNode p (setLight n .day 0 (m.getLightingFlags n)))
          (q.push LIGHT_SUN ⟨relPos p, getNodeBlockPos p, 4⟩)

def addSunlight : ℕ → V3 → Map → LightQueue → LightQueue
  | 0, _, _, q => q
  | fuel + 1, p, m, q =>
    match m.getNode p with
    | none => q
    | some n =>
      let f := m.getLightingFlags n
      if getLight n .day f = LIGHT_SUN then q
      else if f.sunlightPropagates = false then q
      else addSunlight fuel (p + below) m (q.push LIGHT_SUN ⟨relPos p, getNodeBlockPos p, 4⟩)

structure Lighting where
  map : Map
  disappearingLights : LightQueue
  lightSources : LightQueue

/-- Processes sunlight for a changed node and puts it into the queues. -/
def initNode (bank : LightBank) (minSafe : ℕ) (st : Lighting) (o : V3 × MapNode) : Lighting :=
  match st.map.getNode o.1 with
  | none => st
  | some n =>
    let oldLight := getLight o.2 bank (st.map.getLightingFlags o.2)
    let newLight := getNewLight st.map bank minSafe o.1 n
    let c : ChangingLight := ⟨relPos o.1, getNodeBlockPos o.1, 6⟩
    let lightSources := if newLight > 0 then st.lightSources.push newLight c else st.lightSources
    if newLight < oldLight then
      let map := st.map.setNode o.1 (setLight n bank 0 (st.map.getLightingFlags n))
      let disappearingLights := st.disappearingLights.push oldLight c
      if bank = .day ∧ oldLight = LIGHT_SUN then
        let r := removeSunlight (columnFuel map o.1) (o.1 + below) map disappearingLights
        { map := r.1, disappearingLights := r.2, lightSources }
      else { map, disappearingLights, lightSources }
    else if newLight > oldLight ∧ bank = .day ∧ newLight = LIGHT_SUN then
      { st with
        lightSources := addSunlight (columnFuel st.map o.1) (o.1 + below) st.map lightSources }
    else { st with lightSources }

def initNodes (bank : LightBank) (oldnodes : OldNodes) (m : Map) : Lighting :=
  oldnodes.foldl (initNode bank (minSafeLight m bank oldnodes))
    { map := m, disappearingLights := .clear, lightSources := .clear }

def updateBank (bank : LightBank) (oldnodes : OldNodes) (m : Map) : Map :=
  let st := initNodes bank oldnodes m
  let r := unspreadLight bank st.map st.disappearingLights st.lightSources
  spreadLight bank (initLights bank LIGHT_SUN r.1 r.2) r.2

def updateLightingNodes (m : Map) (oldnodes : OldNodes) : Map :=
  updateBank .night oldnodes (updateBank .day oldnodes m)

/-- What its callers do: a node is put where a block is loaded, without light, and the old one is
kept. -/
def replaceNode (st : Map × OldNodes) (change : V3 × MapNode) : Map × OldNodes :=
  match st.1.getNode change.1 with
  | none => st
  | some oldnode =>
    let f := st.1.getLightingFlags change.2
    (st.1.setNode change.1 (setLight (setLight change.2 .day 0 f) .night 0 f),
      st.2 ++ [(change.1, oldnode)])

def replaceNodes (m : Map) (changes : List (V3 × MapNode)) : Map × OldNodes :=
  changes.foldl replaceNode (m, [])

section Start

variable {bank : LightBank} {m₀ m : Map} {st : Lighting} {q : LightQueue} {o : V3 × MapNode}
  {minSafe : ℕ}

/-- The queues of a map whose content is that of `m₀`. -/
structure Started (bank : LightBank) (m₀ : Map) (st : Lighting) : Prop where
  content : Map.SameContent m₀ st.map
  other : ∀ bank' ≠ bank, ∀ v, st.map.raw bank' v = m₀.raw bank' v
  losers : Losers m₀ st.disappearingLights
  maxLight : st.disappearingLights.maxLight = LIGHT_SUN
  sources : Sources m₀ st.lightSources

/-- The node at a position as it is put into a queue. -/
theorem pos_relPos (p : V3) (dir : ℕ) :
    ChangingLight.pos ⟨relPos p, getNodeBlockPos p, dir⟩ = p := nodePos_relPos p

theorem Losers.push {light : ℕ} {c : ChangingLight} (h : Losers m₀ q) (hmax : q.maxLight = LIGHT_SUN)
    (hle : light ≤ LIGHT_SUN) (hc : InBlock c.relPosition)
    (hloaded : (m₀.getNode c.pos).isSome = true) :
    Losers m₀ (q.push light c) ∧ (q.push light c).maxLight = LIGHT_SUN := by
  obtain ⟨hok, hmax'⟩ := LightQueue.ok_push h.ok (hmax ▸ hle) hc
  refine ⟨⟨hok, fun e he => ?_⟩, hmax'.trans hmax⟩
  rw [LightQueue.entries_push hle, Set.mem_insert_iff] at he
  cases he with
  | inl heq => exact heq ▸ hloaded
  | inr hin => exact h.loaded e hin

theorem safeSpread_le {newLight i : ℕ} {p : V3} (h : newLight ≤ LIGHT_SUN) :
    safeSpread m bank minSafe p newLight i ≤ LIGHT_SUN := by
  unfold safeSpread
  cases m.getNode (p + neighborDirs i) with
  | none => exact h
  | some n =>
    dsimp only
    split_ifs
    · exact (Nat.sub_le _ _).trans (getLight_le n bank _)
    · exact h

theorem getNewLight_le (m : Map) (bank : LightBank) (minSafe : ℕ) (p : V3) (n : MapNode) :
    getNewLight m bank minSafe p n ≤ LIGHT_SUN := by
  have hsource : (m.getLightingFlags n).lightSource ≤ LIGHT_SUN :=
    (m.getLightingFlags n).lightSource_le.trans (by decide)
  have hfold : ∀ (dirs : List ℕ) (light : ℕ), light ≤ LIGHT_SUN →
      dirs.foldl (safeSpread m bank minSafe p) light ≤ LIGHT_SUN := by
    intro dirs
    induction dirs with
    | nil => exact fun _ h => h
    | cons i dirs ih => exact fun light h => ih _ (safeSpread_le h)
  unfold getNewLight
  dsimp only
  split_ifs
  · exact Nat.le_refl _
  · exact hfold directions _ hsource
  · exact hsource

theorem removeSunlight_spec (fuel : ℕ) : ∀ (p : V3) (m : Map) (q : LightQueue),
    Map.SameContent m₀ m → Losers m₀ q → q.maxLight = LIGHT_SUN →
    Map.SameContent m₀ (removeSunlight fuel p m q).1 ∧
      (∀ bank' ≠ .day, ∀ v, (removeSunlight fuel p m q).1.raw bank' v = m.raw bank' v) ∧
      Losers m₀ (removeSunlight fuel p m q).2 ∧
      (removeSunlight fuel p m q).2.maxLight = LIGHT_SUN := by
  induction fuel with
  | zero => exact fun p m q hm hq hmax => ⟨hm, fun _ _ _ => rfl, hq, hmax⟩
  | succ fuel ih =>
    intro p m q hm hq hmax
    unfold removeSunlight
    cases hn : m.getNode p with
    | none => exact ⟨hm, fun _ _ _ => rfl, hq, hmax⟩
    | some n =>
      dsimp only
      split_ifs with hsun
      · exact ⟨hm, fun _ _ _ => rfl, hq, hmax⟩
      · have hload : (m₀.getNode (ChangingLight.pos ⟨relPos p, getNodeBlockPos p, 4⟩)).isSome =
            true := by
          rw [pos_relPos, ← hm.isSome, hn]
          rfl
        obtain ⟨hq', hmax'⟩ := hq.push hmax (Nat.le_refl _) (inBlock_relPos p) hload
        obtain ⟨h1, h2, h3⟩ := ih (p + below) _ _ (hm.trans (Map.sameContent_setNode hn .day 0)) hq'
          hmax'
        refine ⟨h1, fun bank' hb v => (h2 bank' hb v).trans ?_, h3⟩
        rw [Map.raw_setLight hn (Nat.zero_le _), if_neg fun hand => hb hand.1]

theorem addSunlight_spec (fuel : ℕ) : ∀ (p : V3) (q : LightQueue), Sources m q →
    Sources m (addSunlight fuel p m q) := by
  induction fuel with
  | zero => exact fun _ _ h => h
  | succ fuel ih =>
    intro p q hq
    unfold addSunlight
    cases hn : m.getNode p with
    | none => exact hq
    | some n =>
      dsimp only
      split_ifs
      · exact hq
      · exact hq
      · apply ih
        apply hq.push (by decide) (Nat.le_refl _) (inBlock_relPos p)
        rw [pos_relPos, hn]
        rfl

theorem Started.step (h : Started bank m₀ st) (o : V3 × MapNode) :
    Started bank m₀ (initNode bank minSafe st o) := by
  unfold initNode
  cases hn : st.map.getNode o.1 with
  | none => exact h
  | some n =>
    have hload : (m₀.getNode (ChangingLight.pos ⟨relPos o.1, getNodeBlockPos o.1, 6⟩)).isSome =
        true := by
      rw [pos_relPos, ← h.content.isSome, hn]
      rfl
    have hnew : Sources m₀ (if getNewLight st.map bank minSafe o.1 n > 0 then
        st.lightSources.push (getNewLight st.map bank minSafe o.1 n)
          ⟨relPos o.1, getNodeBlockPos o.1, 6⟩ else st.lightSources) := by
      split_ifs with hpos
      · exact h.sources.push hpos (getNewLight_le ..) (inBlock_relPos o.1) hload
      · exact h.sources
    have hcontent := h.content.trans (Map.sameContent_setNode hn bank 0)
    have hother : ∀ bank' ≠ bank, ∀ v, (st.map.setNode o.1
        (setLight n bank 0 (st.map.getLightingFlags n))).raw bank' v = m₀.raw bank' v := by
      intro bank' hb v
      rw [Map.raw_setLight hn (Nat.zero_le _), if_neg fun hand => hb hand.1]
      exact h.other bank' hb v
    obtain ⟨hlosers, hmax⟩ := h.losers.push h.maxLight
      (getLight_le o.2 bank (st.map.getLightingFlags o.2)) (inBlock_relPos o.1) hload
    dsimp only
    generalize (if getNewLight st.map bank minSafe o.1 n > 0 then _ else _) = lights at hnew ⊢
    split_ifs with hlow hsun hhigh
    · obtain ⟨rfl, -⟩ := hsun
      obtain ⟨h1, h2, h3, h4⟩ := removeSunlight_spec
        (columnFuel (st.map.setNode o.1 (setLight n .day 0 (st.map.getLightingFlags n))) o.1)
        (o.1 + below) _ _ hcontent hlosers hmax
      exact ⟨h1, fun bank' hb v => (h2 bank' hb v).trans (hother bank' hb v), h3, h4, hnew⟩
    · exact ⟨hcontent, hother, hlosers, hmax, hnew⟩
    · refine ⟨h.content, h.other, h.losers, h.maxLight, ?_⟩
      have := addSunlight_spec (columnFuel st.map o.1) (o.1 + below) _
        (hnew.of_sameContent h.content)
      exact this.of_sameContent h.content.symm
    · exact ⟨h.content, h.other, h.losers, h.maxLight, hnew⟩

theorem started_initNodes (bank : LightBank) (oldnodes : OldNodes) (m : Map) :
    Started bank m (initNodes bank oldnodes m) := by
  have hfold : ∀ (os : OldNodes) (st : Lighting), Started bank m st →
      Started bank m (os.foldl (initNode bank (minSafeLight m bank oldnodes)) st) := by
    intro os
    induction os with
    | nil => exact fun _ h => h
    | cons o os ih => exact fun st h => ih _ (h.step o)
  exact hfold oldnodes _
    ⟨.refl m, fun _ _ _ => rfl, losers_clear m, rfl, sources_clear m⟩

/-- What follows the queues: unlighting, storing what is to be lit, and spreading it. -/
theorem relight_other {unlit : Map × LightQueue}
    (h : Unspreads bank m (fun _ => True) unlit) :
    Map.SameContent m (spreadLight bank (initLights bank LIGHT_SUN unlit.1 unlit.2) unlit.2) ∧
      ∀ bank' ≠ bank, ∀ v, (spreadLight bank (initLights bank LIGHT_SUN unlit.1 unlit.2)
        unlit.2).raw bank' v = m.raw bank' v := by
  have hinit := initBelow_initLights bank h.sources.ok (Nat.le_refl LIGHT_SUN) unlit.1
  have hcontent := h.content.trans hinit.content
  have hspread := spreadLight_spec bank (P := fun _ _ => True)
    (fun _ _ _ _ _ _ _ => trivial) (h.sources.of_sameContent hcontent) trivial
  refine ⟨hcontent.trans hspread.content, fun bank' hb v => ?_⟩
  exact (hspread.other bank' hb v).trans ((hinit.other bank' hb v).trans (h.other bank' hb v))

/-- A bank is brought up to date without the other. -/
theorem updateBank_other (bank : LightBank) (oldnodes : OldNodes) (m : Map) :
    Map.SameContent m (updateBank bank oldnodes m) ∧
      ∀ bank' ≠ bank, ∀ v, (updateBank bank oldnodes m).raw bank' v = m.raw bank' v := by
  have hstart := started_initNodes bank oldnodes m
  have hunlit := unspreadLight_spec bank (P := fun _ => True)
    (fun _ _ _ _ _ => trivial)
    ⟨hstart.losers.ok, fun e he => (hstart.content.isSome e.node).trans (hstart.losers.loaded e he)⟩
    (hstart.sources.of_sameContent hstart.content) trivial
  obtain ⟨hcontent, hother⟩ := relight_other hunlit
  exact ⟨hstart.content.trans hcontent,
    fun bank' hb v => (hother bank' hb v).trans (hstart.other bank' hb v)⟩

end Start

end Freeminer.Voxel
