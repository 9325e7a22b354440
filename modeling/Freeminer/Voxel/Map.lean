import Freeminer.Lib.Reflood
import Freeminer.Voxel.Light

/-! The nodes of the loaded blocks of a map, and the light that its sources give them. -/

namespace Freeminer.Voxel

open Lib
open Block (MapNode Content)

structure MapBlock where
  /-- By the relative position of the node. -/
  data : V3 → MapNode
  isUnderground : Bool := false
  isGenerated : Bool := true

/-- The blocks that are loaded, and what contents do to light. No block is loaded below the world. -/
structure Map where
  ndef : Content → ContentLightingFlags
  block : V3 → Option MapBlock
  bottom : ℤ
  bottom_le : ∀ b, (block b).isSome = true → bottom ≤ b.Y

namespace Map

def getLightingFlags (m : Map) (n : MapNode) : ContentLightingFlags := m.ndef n.param0

/-- `getNodeNoCheck` of a block of the map. -/
def getBlockNode (m : Map) (block rel : V3) : Option MapNode := (m.block block).map (·.data rel)

def blockWith (m : Map) (block rel : V3) (n : MapNode) : V3 → Option MapBlock :=
  Function.update m.block block
    ((m.block block).map fun b => { b with data := Function.update b.data rel n })

theorem bottom_le_blockWith (m : Map) (block rel : V3) (n : MapNode) :
    ∀ b, (m.blockWith block rel n b).isSome = true → m.bottom ≤ b.Y := by
  intro b hb
  apply m.bottom_le
  unfold blockWith at hb
  by_cases h : b = block
  · subst h
    rwa [Function.update_self, Option.isSome_map] at hb
  · rwa [Function.update_of_ne h] at hb

/-- `setNodeNoCheck` -/
def setBlockNode (m : Map) (block rel : V3) (n : MapNode) : Map where
  ndef := m.ndef
  block := m.blockWith block rel n
  bottom := m.bottom
  bottom_le := bottom_le_blockWith m block rel n

/-- `getNode`, for a valid position. -/
def getNode (m : Map) (p : V3) : Option MapNode := m.getBlockNode (getNodeBlockPos p) (relPos p)

def setNode (m : Map) (p : V3) (n : MapNode) : Map :=
  m.setBlockNode (getNodeBlockPos p) (relPos p) n

section Nodes

variable {m : Map} {p q block rel : V3} {n : MapNode}

theorem getBlockNode_eq (m : Map) (block : V3) (h : InBlock rel) :
    m.getBlockNode block rel = m.getNode (nodePos block rel) := by
  rw [getNode, getNodeBlockPos_nodePos h, relPos_nodePos h]

theorem setBlockNode_eq (m : Map) (block : V3) (h : InBlock rel) (n : MapNode) :
    m.setBlockNode block rel n = m.setNode (nodePos block rel) n := by
  rw [setNode, getNodeBlockPos_nodePos h, relPos_nodePos h]

/-- Only the node at the position is set, when it is loaded. -/
theorem getNode_setNode (m : Map) (p : V3) (n : MapNode) (q : V3) :
    (m.setNode p n).getNode q = if q = p then (m.getNode q).map fun _ => n else m.getNode q := by
  unfold setNode setBlockNode getNode getBlockNode blockWith
  dsimp only
  by_cases hb : getNodeBlockPos q = getNodeBlockPos p
  · rw [hb, Function.update_self, Option.map_map]
    by_cases hr : relPos q = relPos p
    · have hq : q = p := by rw [← nodePos_relPos q, hb, hr, nodePos_relPos]
      rw [if_pos hq, Option.map_map, hr]
      cases m.block (getNodeBlockPos p) with
      | none => rfl
      | some b => simp
    · have hq : q ≠ p := fun h => hr (h ▸ rfl)
      rw [if_neg hq]
      cases m.block (getNodeBlockPos p) with
      | none => rfl
      | some b => simp [Function.update_of_ne hr]
  · have hq : q ≠ p := fun h => hb (h ▸ rfl)
    rw [if_neg hq, Function.update_of_ne hb]

end Nodes

/-! ### Light on the map -/

/-- The light that is stored for a node, none where no block is loaded. -/
def raw (m : Map) (bank : LightBank) (p : V3) : ℕ :=
  match m.getNode p with
  | some n => getLightRaw n bank (m.getLightingFlags n)
  | none => 0

def source (m : Map) (p : V3) : ℕ :=
  match m.getNode p with
  | some n => (m.getLightingFlags n).lightSource
  | none => 0

def Propagates (m : Map) (p : V3) : Prop :=
  ∃ n, m.getNode p = some n ∧ (m.getLightingFlags n).lightPropagates = true

def Adjacent (m : Map) (p q : V3) : Prop :=
  (m.getNode p).isSome = true ∧ (m.getNode q).isSome = true ∧ ∃ dir < 6, q = p + neighborDirs dir

/-- The light of a node from scratch: of all light sources the greatest level less the length of a
path from it through nodes that light propagates through. -/
noncomputable def nightLight (m : Map) (p : V3) : ℕ := lightAt m.Adjacent m.Propagates m.source p

def NightCorrect (m : Map) : Prop := ∀ p, m.Propagates p → m.raw .night p = m.nightLight p

section Light

variable {m m' : Map} {p q : V3} {n : MapNode} {bank bank' : LightBank} {light : ℕ}

theorem raw_le (m : Map) (bank : LightBank) (p : V3) : m.raw bank p ≤ LIGHT_SUN := by
  unfold raw
  cases m.getNode p with
  | none => exact Nat.zero_le _
  | some n => exact getLightRaw_le n bank _

theorem source_le (m : Map) (p : V3) : m.source p ≤ LIGHT_MAX := by
  unfold source
  cases m.getNode p with
  | none => exact Nat.zero_le _
  | some n => exact (m.getLightingFlags n).lightSource_le

theorem raw_of_getNode (h : m.getNode p = some n) :
    m.raw bank p = getLightRaw n bank (m.getLightingFlags n) := by
  rw [raw, h]

theorem source_of_getNode (h : m.getNode p = some n) :
    m.source p = (m.getLightingFlags n).lightSource := by
  rw [source, h]

theorem propagates_iff (h : m.getNode p = some n) :
    m.Propagates p ↔ (m.getLightingFlags n).lightPropagates = true := by
  constructor
  · intro ⟨n', hn', hf⟩
    obtain rfl := Option.some.inj (h.symm.trans hn')
    exact hf
  · exact fun hf => ⟨n, h, hf⟩

theorem glow_of_getNode (h : m.getNode p = some n) :
    glow m.source (m.raw bank) p = getLight n bank (m.getLightingFlags n) := by
  rw [glow, raw_of_getNode h, source_of_getNode h, getLight]

theorem raw_of_not_propagates (h : ¬ m.Propagates p) : m.raw bank p = 0 := by
  cases hn : m.getNode p with
  | none => rw [raw, hn]
  | some n =>
    rw [raw_of_getNode hn]
    apply getLightRaw_of_shut
    exact Bool.eq_false_iff.mpr fun hf => h ((propagates_iff hn).mpr hf)

theorem adjacent_symm (m : Map) : ∀ p q, m.Adjacent p q → m.Adjacent q p := by
  intro p q ⟨hp, hq, dir, hdir, heq⟩
  refine ⟨hq, hp, 5 - dir, by omega, ?_⟩
  rw [heq, neighborDirs_opposite hdir]

/-- Two maps that differ in what is stored of light only. -/
structure SameContent (m m' : Map) : Prop where
  ndef : m'.ndef = m.ndef
  content : ∀ p, (m'.getNode p).map (·.param0) = (m.getNode p).map (·.param0)

theorem SameContent.refl (m : Map) : SameContent m m := ⟨rfl, fun _ => rfl⟩

theorem SameContent.trans {m₂ : Map} (h : SameContent m m') (h₂ : SameContent m' m₂) :
    SameContent m m₂ :=
  ⟨h₂.ndef.trans h.ndef, fun p => (h₂.content p).trans (h.content p)⟩

theorem SameContent.getNode (h : SameContent m m') (hn : m.getNode p = some n) :
    ∃ n', m'.getNode p = some n' ∧ n'.param0 = n.param0 := by
  have := h.content p
  rw [hn, Option.map_some, Option.map_eq_some_iff] at this
  exact this

theorem SameContent.symm (h : SameContent m m') : SameContent m' m :=
  ⟨h.ndef.symm, fun p => (h.content p).symm⟩

theorem SameContent.isSome (h : SameContent m m') (p : V3) :
    (m'.getNode p).isSome = (m.getNode p).isSome := by
  have := congrArg Option.isSome (h.content p)
  rwa [Option.isSome_map, Option.isSome_map] at this

theorem SameContent.flags {n' : MapNode} (h : SameContent m m') (hn : n'.param0 = n.param0) :
    m'.getLightingFlags n' = m.getLightingFlags n := by
  rw [getLightingFlags, getLightingFlags, h.ndef, hn]

theorem SameContent.adjacent (h : SameContent m m') : m'.Adjacent = m.Adjacent := by
  funext p q
  rw [Adjacent, Adjacent, h.isSome, h.isSome]

theorem SameContent.source (h : SameContent m m') : m'.source = m.source := by
  funext p
  cases hn : m.getNode p with
  | none =>
    have : m'.getNode p = none := by
      have := h.content p
      rwa [hn, Option.map_none, Option.map_eq_none_iff] at this
    rw [Map.source, Map.source, hn, this]
  | some n =>
    obtain ⟨n', hn', hc⟩ := h.getNode hn
    rw [source_of_getNode hn, source_of_getNode hn', h.flags hc]

theorem SameContent.propagates (h : SameContent m m') : m'.Propagates = m.Propagates := by
  have himp : ∀ {m m' : Map} (p : V3), SameContent m m' → m.Propagates p → m'.Propagates p := by
    intro m m' p h ⟨n, hn, hf⟩
    obtain ⟨n', hn', hc⟩ := h.getNode hn
    exact ⟨n', hn', (h.flags hc).symm ▸ hf⟩
  funext p
  exact propext ⟨himp p h.symm, himp p h⟩

theorem SameContent.nightLight (h : SameContent m m') : m'.nightLight = m.nightLight := by
  funext p
  rw [Map.nightLight, Map.nightLight, h.adjacent, h.propagates, h.source]

theorem sameContent_setNode (hn : m.getNode p = some n) (bank : LightBank) (light : ℕ) :
    SameContent m (m.setNode p (setLight n bank light (m.getLightingFlags n))) := by
  refine ⟨rfl, fun q => ?_⟩
  rw [getNode_setNode]
  split_ifs with hq
  · subst hq
    rw [hn, Option.map_some, Option.map_some, Option.map_some, setLight_param0]
  · rfl

/-- Setting the light of a node changes what is stored of it in this bank, where it stores any. -/
theorem raw_setLight (hn : m.getNode p = some n) (h : light ≤ LIGHT_SUN) (q : V3) :
    (m.setNode p (setLight n bank light (m.getLightingFlags n))).raw bank' q =
      if bank' = bank ∧ q = p ∧ (m.getLightingFlags n).lightPropagates = true then light
      else m.raw bank' q := by
  have hsame := sameContent_setNode hn bank light
  by_cases hq : q = p
  · subst hq
    have hget : (m.setNode q (setLight n bank light (m.getLightingFlags n))).getNode q =
        some (setLight n bank light (m.getLightingFlags n)) := by
      rw [getNode_setNode, if_pos rfl, hn]
      rfl
    rw [raw_of_getNode hget, hsame.flags (setLight_param0 ..), getLightRaw_setLight h,
      raw_of_getNode hn, ContentLightingFlags.hasLight_eq]
    simp
  · have hget : (m.setNode p (setLight n bank light (m.getLightingFlags n))).getNode q =
        m.getNode q := by rw [getNode_setNode, if_neg hq]
    rw [if_neg fun hand => hq hand.2.1, raw, raw, hget]
    rfl

end Light

end Map

/-! `LightQueue`: nodes whose light changes, by level, the brightest first. -/

structure ChangingLight where
  relPosition : V3
  blockPosition : V3
  /-- From the node that caused the change to this node; 6 is no direction. -/
  sourceDirection : ℕ := 6

/-- For each level the nodes, the last of a vector first, and the level of the brightest. -/
structure LightQueue where
  lights : ℕ → List ChangingLight
  maxLight : ℕ

namespace LightQueue

def clear : LightQueue := { lights := fun _ => [], maxLight := LIGHT_SUN }

def push (q : LightQueue) (light : ℕ) (c : ChangingLight) : LightQueue :=
  if light > LIGHT_SUN then q
  else { q with lights := Function.update q.lights light (c :: q.lights light) }

/-- `next`, with the level from which it searches down. -/
def nextFrom (lights : ℕ → List ChangingLight) : ℕ → Option (ℕ × ChangingLight × LightQueue)
  | 0 =>
    match lights 0 with
    | [] => none
    | c :: rest => some (0, c, { lights := Function.update lights 0 rest, maxLight := 0 })
  | light + 1 =>
    match lights (light + 1) with
    | [] => nextFrom lights light
    | c :: rest =>
      some (light + 1, c,
        { lights := Function.update lights (light + 1) rest, maxLight := light + 1 })

def next (q : LightQueue) : Option (ℕ × ChangingLight × LightQueue) :=
  nextFrom q.lights q.maxLight

def weightBelow (lights : ℕ → List ChangingLight) : ℕ → ℕ
  | 0 => 0
  | light + 1 => weightBelow lights light + (lights light).length * 7 ^ light

def weight (q : LightQueue) : ℕ := weightBelow q.lights (LIGHT_SUN + 1)

end LightQueue

namespace ChangingLight

def pos (c : ChangingLight) : V3 := nodePos c.blockPosition c.relPosition

def source (c : ChangingLight) : Option V3 :=
  if c.sourceDirection < 6 then some (c.pos + neighborDirs (5 - c.sourceDirection)) else none

def entry (light : ℕ) (c : ChangingLight) : Entry V3 := ⟨light, c.pos, c.source⟩

end ChangingLight

namespace LightQueue

def entries (q : LightQueue) : Set (Entry V3) :=
  {e | ∃ light, ∃ c ∈ q.lights light, e = c.entry light}

/-- No node is brighter than the brightest, and all lie in blocks. -/
structure Ok (q : LightQueue) : Prop where
  maxLight_le : q.maxLight ≤ LIGHT_SUN
  le : ∀ light, ∀ _c ∈ q.lights light, light ≤ q.maxLight
  inBlock : ∀ light, ∀ c ∈ q.lights light, InBlock c.relPosition

section Weight

variable {lights : ℕ → List ChangingLight} {light n : ℕ} {cs : List ChangingLight}

theorem weightBelow_update_of_le (h : n ≤ light) (lights : ℕ → List ChangingLight)
    (cs : List ChangingLight) :
    weightBelow (Function.update lights light cs) n = weightBelow lights n := by
  induction n with
  | zero => rfl
  | succ n ih =>
    rw [weightBelow, weightBelow, ih (Nat.le_of_succ_le h), Function.update_of_ne (by omega)]

/-- Replacing a vector changes the weight by its own. -/
theorem weightBelow_update (h : light < n) (lights : ℕ → List ChangingLight)
    (cs : List ChangingLight) :
    weightBelow (Function.update lights light cs) n + (lights light).length * 7 ^ light =
      weightBelow lights n + cs.length * 7 ^ light := by
  induction n with
  | zero => exact absurd h (Nat.not_lt_zero _)
  | succ n ih =>
    rw [weightBelow, weightBelow]
    rcases Nat.lt_succ_iff_lt_or_eq.mp h with hlt | heq
    · have := ih hlt
      rw [Function.update_of_ne (by omega)]
      omega
    · subst heq
      rw [weightBelow_update_of_le (Nat.le_refl _), Function.update_self]
      omega

end Weight

section Queue

variable {q q' : LightQueue} {light : ℕ} {c : ChangingLight} {e : Entry V3}

theorem mem_entries : e ∈ q.entries ↔ ∃ c ∈ q.lights e.level, e = c.entry e.level := by
  constructor
  · rintro ⟨light, c, hc, rfl⟩
    exact ⟨c, hc, rfl⟩
  · rintro ⟨c, hc, heq⟩
    exact ⟨e.level, c, hc, heq⟩

theorem entries_clear : clear.entries = ∅ := by
  apply Set.eq_empty_of_forall_notMem
  rintro e ⟨light, c, hc, -⟩
  exact absurd hc List.not_mem_nil

theorem ok_clear : clear.Ok :=
  ⟨Nat.le_refl _, fun _ _ hc => absurd hc List.not_mem_nil,
    fun _ _ hc => absurd hc List.not_mem_nil⟩

theorem entries_push (h : light ≤ LIGHT_SUN) (q : LightQueue) (c : ChangingLight) :
    (q.push light c).entries = insert (c.entry light) q.entries := by
  rw [push, if_neg h.not_gt]
  ext e
  rw [Set.mem_insert_iff, mem_entries, mem_entries]
  dsimp only
  by_cases hl : e.level = light
  · rw [hl, Function.update_self]
    simp only [List.mem_cons, exists_eq_or_imp]
  · rw [Function.update_of_ne hl]
    constructor
    · exact Or.inr
    · rintro (rfl | h)
      · exact absurd rfl hl
      · exact h

theorem ok_push (hq : q.Ok) (h : light ≤ q.maxLight) (hc : InBlock c.relPosition) :
    (q.push light c).Ok ∧ (q.push light c).maxLight = q.maxLight := by
  rw [push, if_neg (h.trans hq.maxLight_le).not_gt]
  refine ⟨⟨hq.maxLight_le, fun l c' hc' => ?_, fun l c' hc' => ?_⟩, rfl⟩
  · dsimp only at hc' ⊢
    by_cases hl : l = light
    · exact hl ▸ h
    · rw [Function.update_of_ne hl] at hc'
      exact hq.le l c' hc'
  · dsimp only at hc'
    by_cases hl : l = light
    · rw [hl, Function.update_self, List.mem_cons] at hc'
      cases hc' with
      | inl heq => exact heq ▸ hc
      | inr hin => exact hq.inBlock light c' hin
    · rw [Function.update_of_ne hl] at hc'
      exact hq.inBlock l c' hc'

theorem weight_push (h : light ≤ LIGHT_SUN) (q : LightQueue) (c : ChangingLight) :
    (q.push light c).weight = q.weight + 7 ^ light := by
  rw [push, if_neg h.not_gt, weight, weight]
  have := weightBelow_update (n := LIGHT_SUN + 1) (Nat.lt_succ_of_le h) q.lights
    (c :: q.lights light)
  rw [List.length_cons, Nat.add_mul] at this
  dsimp only
  omega

/-- The next node is the brightest, and the others stay. -/
theorem nextFrom_spec (lights : ℕ → List ChangingLight) (n : ℕ) :
    match nextFrom lights n with
    | none => ∀ light ≤ n, lights light = []
    | some (light, c, q) => light ≤ n ∧ (∀ l ≤ n, light < l → lights l = []) ∧
      ∃ rest, lights light = c :: rest ∧
        q = { lights := Function.update lights light rest, maxLight := light } := by
  induction n with
  | zero =>
    unfold nextFrom
    cases h : lights 0 with
    | nil =>
      intro light hle
      rw [Nat.le_zero.mp hle, h]
    | cons c rest => exact ⟨Nat.le_refl 0, fun l hle hlt => absurd hlt (by omega), rest, h, rfl⟩
  | succ n ih =>
    unfold nextFrom
    cases h : lights (n + 1) with
    | nil =>
      dsimp only
      have hle : ∀ {l}, l ≤ n + 1 → l = n + 1 ∨ l ≤ n := fun hl => by omega
      cases hn : nextFrom lights n with
      | none =>
        rw [hn] at ih
        intro light hlight
        cases hle hlight with
        | inl heq => rw [heq, h]
        | inr hle => exact ih light hle
      | some r =>
        rw [hn] at ih
        refine ⟨Nat.le_succ_of_le ih.1, fun l hl hlt => ?_, ih.2.2⟩
        cases hle hl with
        | inl heq => rw [heq, h]
        | inr hle => exact ih.2.1 l hle hlt
    | cons c rest => exact ⟨Nat.le_refl _, fun l hle hlt => absurd hlt (by omega), rest, h, rfl⟩

theorem next_none (hq : q.Ok) (h : q.next = none) : q.entries = ∅ := by
  have hspec := nextFrom_spec q.lights q.maxLight
  rw [next] at h
  rw [h] at hspec
  apply Set.eq_empty_of_forall_notMem
  rintro e ⟨light, c, hc, -⟩
  rw [hspec light (hq.le light c hc)] at hc
  exact absurd hc List.not_mem_nil

/-- What `next` takes out of a queue. -/
structure Next (q : LightQueue) (light : ℕ) (c : ChangingLight) (q' : LightQueue) : Prop where
  ok : q'.Ok
  maxLight : q'.maxLight = light
  light_le : light ≤ LIGHT_SUN
  inBlock : InBlock c.relPosition
  mem : c.entry light ∈ q.entries
  brightest : ∀ e ∈ q.entries, e.level ≤ light
  kept : ∀ e ∈ q.entries, e = c.entry light ∨ e ∈ q'.entries
  subset : q'.entries ⊆ q.entries
  weight : q'.weight + 7 ^ light = q.weight

theorem next_some (hq : q.Ok) (h : q.next = some (light, c, q')) : Next q light c q' := by
  have hspec := nextFrom_spec q.lights q.maxLight
  rw [next] at h
  rw [h] at hspec
  obtain ⟨hle, habove, rest, hlights, rfl⟩ := hspec
  have hc : c ∈ q.lights light := hlights ▸ List.mem_cons_self
  have hsub : ∀ l c', c' ∈ Function.update q.lights light rest l → c' ∈ q.lights l := by
    intro l c' hc'
    by_cases hl : l = light
    · rw [hl, Function.update_self] at hc'
      rw [hl, hlights]
      exact List.mem_cons_of_mem _ hc'
    · rwa [Function.update_of_ne hl] at hc'
  have hmax : ∀ l c', c' ∈ q.lights l → l ≤ light := by
    intro l c' hc'
    by_contra hlt
    rw [habove l (hq.le l c' hc') (by omega)] at hc'
    exact absurd hc' List.not_mem_nil
  refine ⟨⟨hle.trans hq.maxLight_le, fun l c' hc' => hmax l c' (hsub l c' hc'),
    fun l c' hc' => hq.inBlock l c' (hsub l c' hc')⟩, rfl, hle.trans hq.maxLight_le,
    hq.inBlock light c hc, ⟨light, c, hc, rfl⟩, ?_, ?_, ?_, ?_⟩
  · rintro e ⟨l, c', hc', rfl⟩
    exact hmax l c' hc'
  · rintro e ⟨l, c', hc', rfl⟩
    by_cases hl : l = light
    · rw [hl, hlights, List.mem_cons] at hc'
      cases hc' with
      | inl heq => exact Or.inl (heq ▸ hl ▸ rfl)
      | inr hin =>
        refine Or.inr ⟨l, c', ?_, rfl⟩
        dsimp only
        rwa [hl, Function.update_self]
    · refine Or.inr ⟨l, c', ?_, rfl⟩
      dsimp only
      rwa [Function.update_of_ne hl]
  · rintro e ⟨l, c', hc', rfl⟩
    exact ⟨l, c', hsub l c' hc', rfl⟩
  · have := weightBelow_update (n := LIGHT_SUN + 1) (Nat.lt_succ_of_le (hle.trans hq.maxLight_le))
      q.lights rest
    rw [hlights, List.length_cons, Nat.add_mul] at this
    rw [LightQueue.weight, LightQueue.weight]
    dsimp only
    omega

end Queue

end LightQueue

end Freeminer.Voxel
