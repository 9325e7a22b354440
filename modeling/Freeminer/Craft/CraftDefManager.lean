import Freeminer.Craft.CraftDefinition
import Freeminer.Lib.Choice

/-! `CCraftDefManager`: recipes are registered, then filed by hash class and key, and
`getCraftResult` looks them up by the keys of the input. -/

namespace Freeminer.Craft

open Lib Inventory

/-- `m_craft_defs`. -/
structure CraftDefManager where
  craftDefs : CraftHashType → ℕ → List CraftDefinition := fun _ _ => []

structure Best where
  priority : RecipePriority := .noRecipe
  found : Option (CraftDefinition × CraftOutput) := none

/-- What a craft gives: the output, the input that is left, and replacements. -/
structure CraftResult where
  output : CraftOutput
  items : List ItemStack
  outputReplacements : List ItemStack

namespace CraftDefManager

def enter (m : CraftDefManager) (type : CraftHashType) (hash : ℕ) (d : CraftDefinition) :
    CraftDefManager where
  craftDefs t h := if t = type ∧ h = hash then m.craftDefs t h ++ [d] else m.craftDefs t h

def registerCraft (m : CraftDefManager) (d : CraftDefinition) : CraftDefManager :=
  m.enter .unhashed 0 d

/-- Moves the recipes from the unhashed layer into layers higher up. -/
def initHashes (gamedef : GameDef) (m : CraftDefManager) : CraftDefManager :=
  let moved := (m.craftDefs .unhashed 0).foldl
    (fun m d => m.enter (d.hashType gamedef) (d.getHash gamedef (d.hashType gamedef)) d) m
  { craftDefs := fun t h => if t = .unhashed ∧ h = 0 then [] else moved.craftDefs t h }

def consider (gamedef : GameDef) (input : CraftInput) (best : Best) (d : CraftDefinition) : Best :=
  if d.priority.rank > best.priority.rank ∧ d.check gamedef input = true then
    let out := d.getOutput gamedef input
    -- the crafted item does not exist
    if gamedef.isKnown (gamedef.deSerialize out.item).name = false then best
    else { priority := d.priority, found := some (d, out) }
  else best

/-- All classes, and in each the recipes under the key from back to front. -/
def search (gamedef : GameDef) (m : CraftDefManager) (input : CraftInput) : Best :=
  [CraftHashType.itemNames, .count, .unhashed].foldl
    (fun best type =>
      (m.craftDefs type (input.hash type)).reverse.foldl (consider gamedef input) best) {}

def findCraft (gamedef : GameDef) (m : CraftDefManager) (input : CraftInput) :
    Option (CraftDefinition × CraftOutput) :=
  if input.empty then none
  else
    let best := m.search gamedef input
    if best.priority = .noRecipe then none else best.found

def getCraftResult (gamedef : GameDef) (m : CraftDefManager) (input : CraftInput)
    (decrementInput : Bool) : Except Fault (Option CraftResult) :=
  match m.findCraft gamedef input with
  | none => .ok none
  | some (d, output) =>
    if decrementInput then do
      let (items, outputReplacements) ← d.decrementInput gamedef input.items
      pure (some { output, items, outputReplacements })
    else .ok (some { output, items := input.items, outputReplacements := [] })

def hashed (gamedef : GameDef) (defs : List CraftDefinition) : CraftDefManager :=
  (defs.foldl registerCraft {}).initHashes gamedef

end CraftDefManager

/-! ## The order of the recipes -/

variable {gamedef : GameDef} {input : CraftInput} {defs : List CraftDefinition}
  {d e : CraftDefinition}

def Craftable (gamedef : GameDef) (input : CraftInput) (d : CraftDefinition) : Prop :=
  d.check gamedef input = true ∧
    gamedef.isKnown (gamedef.deSerialize (d.getOutput gamedef input).item).name = true

instance : DecidablePred (Craftable gamedef input) :=
  fun _ => inferInstanceAs (Decidable (_ ∧ _))

def CraftDefinition.rank (d : CraftDefinition) : ℕ := d.priority.rank

/-- The recipe that a scan over all registered recipes chooses: higher priority first, among equal
priorities the one registered last. -/
def ScanChooses (gamedef : GameDef) (input : CraftInput) (defs : List CraftDefinition) :
    Option CraftDefinition → Prop :=
  Chosen (Craftable gamedef input) CraftDefinition.rank defs.reverse

theorem rank_pos (d : CraftDefinition) : 0 < d.rank := by
  unfold CraftDefinition.rank CraftDefinition.priority
  cases d with
  | shaped d =>
    dsimp only [CraftDefinitionShaped.priority]
    split_ifs <;> decide
  | shapeless d =>
    dsimp only [CraftDefinitionShapeless.priority]
    split_ifs <;> decide
  | toolRepair d => exact Nat.one_pos
  | cooking d =>
    dsimp only [CraftDefinitionCooking.priority, singlePriority]
    split_ifs <;> decide
  | fuel d =>
    dsimp only [CraftDefinitionFuel.priority, singlePriority]
    split_ifs <;> decide

namespace CraftDefManager

def Best.ofChoice (gamedef : GameDef) (input : CraftInput) : Option CraftDefinition → Best
  | none => {}
  | some d => { priority := d.priority, found := some (d, d.getOutput gamedef input) }

theorem consider_eq (best : Best) (d : CraftDefinition) :
    consider gamedef input best d =
      if d.rank > best.priority.rank ∧ Craftable gamedef input d then
        Best.ofChoice gamedef input (some d)
      else best := by
  unfold consider
  by_cases hbetter : d.priority.rank > best.priority.rank ∧ d.check gamedef input = true
  · rw [if_pos hbetter]
    dsimp only
    by_cases hknown : gamedef.isKnown
        (gamedef.deSerialize (d.getOutput gamedef input).item).name = true
    · rw [if_neg (by simp [hknown]), if_pos ⟨hbetter.1, hbetter.2, hknown⟩]
      rfl
    · rw [if_pos (by simpa using hknown), if_neg fun h => hknown h.2.2]
  · rw [if_neg hbetter, if_neg fun h => hbetter ⟨h.1, h.2.1⟩]

theorem consider_ofChoice (best : Option CraftDefinition) (d : CraftDefinition) :
    consider gamedef input (Best.ofChoice gamedef input best) d =
      Best.ofChoice gamedef input
        (chooseStep (Craftable gamedef input) CraftDefinition.rank best d) := by
  rw [consider_eq]
  cases best with
  | none =>
    rw [chooseStep]
    by_cases hd : Craftable gamedef input d
    · rw [if_pos hd, if_pos ⟨rank_pos d, hd⟩]
    · rw [if_neg hd, if_neg fun h => hd h.2]
  | some b =>
    rw [chooseStep]
    by_cases hd : d.rank > b.rank ∧ Craftable gamedef input d
    · rw [if_pos hd]
      exact if_pos hd
    · rw [if_neg hd]
      exact if_neg hd

def tried (m : CraftDefManager) (input : CraftInput) : List CraftDefinition :=
  (m.craftDefs .itemNames (input.hash .itemNames)).reverse ++
    ((m.craftDefs .count (input.hash .count)).reverse ++
      (m.craftDefs .unhashed (input.hash .unhashed)).reverse)

theorem foldl_consider (l : List CraftDefinition) (best : Option CraftDefinition) :
    l.foldl (consider gamedef input) (Best.ofChoice gamedef input best) =
      Best.ofChoice gamedef input
        (l.foldl (chooseStep (Craftable gamedef input) CraftDefinition.rank) best) := by
  induction l generalizing best with
  | nil => rfl
  | cons d l ih => rw [List.foldl_cons, List.foldl_cons, consider_ofChoice, ih]

theorem search_eq (m : CraftDefManager) : m.search gamedef input = Best.ofChoice gamedef input
    ((m.tried input).foldl (chooseStep (Craftable gamedef input) CraftDefinition.rank) none) := by
  rw [tried, List.foldl_append, List.foldl_append, ← foldl_consider, ← foldl_consider,
    ← foldl_consider]
  rfl

/-- The recipe that is found is the first of the highest priority among those tried. -/
theorem chosen_findCraft (gamedef : GameDef) (m : CraftDefManager)
    (hempty : input.empty = false) :
    Chosen (Craftable gamedef input) CraftDefinition.rank (m.tried input)
      ((m.findCraft gamedef input).map Prod.fst) := by
  have hchosen := chosen_foldl (Craftable gamedef input) CraftDefinition.rank (m.tried input)
  rw [findCraft, hempty, if_neg Bool.false_ne_true, search_eq]
  cases hbest : (m.tried input).foldl (chooseStep (Craftable gamedef input)
    CraftDefinition.rank) none with
  | none =>
    rw [hbest] at hchosen
    exact hchosen
  | some d =>
    rw [hbest] at hchosen
    have hne : (Best.ofChoice gamedef input (some d)).priority ≠ .noRecipe := by
      intro h
      have hpos := rank_pos d
      rw [CraftDefinition.rank, show d.priority = .noRecipe from h] at hpos
      exact absurd hpos (lt_irrefl 0)
    dsimp only
    rw [if_neg hne]
    exact hchosen

theorem findCraft_output (m : CraftDefManager) {out : CraftOutput}
    (h : m.findCraft gamedef input = some (d, out)) : out = d.getOutput gamedef input := by
  unfold findCraft at h
  rw [search_eq] at h
  cases hbest : (m.tried input).foldl (chooseStep (Craftable gamedef input)
    CraftDefinition.rank) none with
  | none =>
    rw [hbest] at h
    dsimp only [Best.ofChoice] at h
    split_ifs at h
  | some e =>
    rw [hbest] at h
    dsimp only [Best.ofChoice] at h
    split_ifs at h
    obtain ⟨rfl, rfl⟩ := Prod.mk.inj (Option.some.inj h)
    rfl

/-! ## Filing -/

theorem craftDefs_registerCraft (m : CraftDefManager) (defs : List CraftDefinition) :
    (defs.foldl registerCraft m).craftDefs = fun t h =>
      if t = .unhashed ∧ h = 0 then m.craftDefs t h ++ defs else m.craftDefs t h := by
  induction defs generalizing m with
  | nil => simp
  | cons d defs ih =>
    rw [List.foldl_cons, ih]
    funext t h
    unfold registerCraft enter
    dsimp only
    split_ifs <;> simp

def filedUnder (gamedef : GameDef) (type : CraftHashType) (hash : ℕ) (d : CraftDefinition) :
    Bool :=
  d.hashType gamedef = type ∧ d.getHash gamedef (d.hashType gamedef) = hash

theorem craftDefs_enter (m : CraftDefManager) (defs : List CraftDefinition)
    (type : CraftHashType) (hash : ℕ) :
    (defs.foldl (fun m d => m.enter (d.hashType gamedef)
      (d.getHash gamedef (d.hashType gamedef)) d) m).craftDefs type hash =
        m.craftDefs type hash ++ defs.filter (filedUnder gamedef type hash) := by
  induction defs generalizing m with
  | nil => simp
  | cons d defs ih =>
    rw [List.foldl_cons, ih]
    unfold enter
    dsimp only
    split_ifs with h
    · have hfiled : filedUnder gamedef type hash d = true := by
        rw [filedUnder, decide_eq_true_iff]
        exact ⟨h.1.symm, h.2.symm⟩
      rw [List.filter_cons_of_pos hfiled, List.append_assoc, List.singleton_append]
    · have hnot : filedUnder gamedef type hash d = false := by
        rw [filedUnder, decide_eq_false_iff_not]
        exact fun hd => h ⟨hd.1.symm, hd.2.symm⟩
      rw [List.filter_cons_of_neg (Bool.eq_false_iff.mp hnot)]

theorem craftDefs_hashed (defs : List CraftDefinition) (type : CraftHashType) (hash : ℕ) :
    (hashed gamedef defs).craftDefs type hash =
      if type = .unhashed ∧ hash = 0 then [] else defs.filter (filedUnder gamedef type hash) := by
  unfold hashed initHashes
  dsimp only
  rw [craftDefs_enter, craftDefs_registerCraft]
  split_ifs with h
  · rfl
  · simp [h]

theorem hashType_ne_unhashed (gamedef : GameDef) (d : CraftDefinition) :
    d.hashType gamedef ≠ .unhashed := by
  cases d with
  | shaped d =>
    dsimp only [CraftDefinition.hashType, CraftDefinitionShaped.hashType]
    split_ifs <;> exact CraftHashType.noConfusion
  | shapeless d =>
    dsimp only [CraftDefinition.hashType, CraftDefinitionShapeless.hashType]
    split_ifs <;> exact CraftHashType.noConfusion
  | toolRepair d => exact CraftHashType.noConfusion
  | cooking d =>
    dsimp only [CraftDefinition.hashType, singleHashType]
    split_ifs <;> exact CraftHashType.noConfusion
  | fuel d =>
    dsimp only [CraftDefinition.hashType, singleHashType]
    split_ifs <;> exact CraftHashType.noConfusion

theorem tried_hashed (gamedef : GameDef) (defs : List CraftDefinition) (input : CraftInput) :
    (hashed gamedef defs).tried input =
      (defs.filter (filedUnder gamedef .itemNames (input.hash .itemNames))).reverse ++
        (defs.filter (filedUnder gamedef .count (input.hash .count))).reverse := by
  have hzero : input.hash .unhashed = 0 := rfl
  rw [tried, craftDefs_hashed, craftDefs_hashed, craftDefs_hashed, hzero]
  simp

theorem filedUnder_iff {type : CraftHashType} (hcheck : d.check gamedef input = true) :
    filedUnder gamedef type (input.hash type) d = true ↔
      d.hashType gamedef = type ∧ d.SameCount gamedef input := by
  rw [filedUnder, decide_eq_true_iff]
  refine and_congr_right fun htype => ?_
  rw [← htype]
  exact CraftDefinition.getHash_eq_iff hcheck

theorem mem_tried (hcheck : d.check gamedef input = true)
    (htried : d ∈ (hashed gamedef defs).tried input) :
    d ∈ defs ∧ d.SameCount gamedef input := by
  rw [tried_hashed, List.mem_append, List.mem_reverse, List.mem_reverse, List.mem_filter,
    List.mem_filter, filedUnder_iff hcheck, filedUnder_iff hcheck] at htried
  rcases htried with ⟨hd, -, hcount⟩ | ⟨hd, -, hcount⟩ <;> exact ⟨hd, hcount⟩

end CraftDefManager

/-! ## Lookup and scan -/

open CraftDefManager

def craftWith (gamedef : GameDef) (input : CraftInput) (decrementInput : Bool) :
    Option CraftDefinition → Except Fault (Option CraftResult)
  | none => .ok none
  | some d =>
    let output := d.getOutput gamedef input
    if decrementInput then do
      let (items, outputReplacements) ← d.decrementInput gamedef input.items
      pure (some { output, items, outputReplacements })
    else .ok (some { output, items := input.items, outputReplacements := [] })

/-- `getCraftResult` finds the recipe that a scan over all registered recipes chooses, and returns
its result. -/
def FindsScanned (gamedef : GameDef) (defs : List CraftDefinition) (input : CraftInput) : Prop :=
  ∀ best, ScanChooses gamedef input defs best →
    ((hashed gamedef defs).findCraft gamedef input).map Prod.fst = best ∧
    ∀ decrementInput, (hashed gamedef defs).getCraftResult gamedef input decrementInput =
      craftWith gamedef input decrementInput best

/-- The recipe is filed where it is looked up, and no recipe of the same priority is in an earlier
hash class. -/
structure Reachable (gamedef : GameDef) (defs : List CraftDefinition) (input : CraftInput)
    (d : CraftDefinition) : Prop where
  notEmpty : input.empty = false
  sameCount : d.SameCount gamedef input
  noTie : d.hashType gamedef = .count → ∀ e ∈ defs, Craftable gamedef input e →
    e.hashType gamedef = .itemNames → e.priority ≠ d.priority

theorem rank_injective : Function.Injective RecipePriority.rank := by
  intro a b h
  cases a <;> cases b <;> first | rfl | exact absurd h (by decide)

theorem scan_le (hd : ScanChooses gamedef input defs (some d)) (he : e ∈ defs)
    (hcraft : Craftable gamedef input e) : e.rank ≤ d.rank :=
  FirstBest.le hd (List.mem_reverse.mpr he) hcraft

/-- The scan's recipe is the first one in its class. -/
theorem firstBest_class (hd : ScanChooses gamedef input defs (some d))
    (hcount : d.SameCount gamedef input) :
    FirstBest (Craftable gamedef input) CraftDefinition.rank
      (defs.filter (filedUnder gamedef (d.hashType gamedef)
        (input.hash (d.hashType gamedef)))).reverse d := by
  rw [← List.filter_reverse]
  have hfirst : FirstBest (Craftable gamedef input) CraftDefinition.rank defs.reverse d := hd
  exact hfirst.sublist_filter _ ((filedUnder_iff hfirst.qualifies.1).mpr ⟨rfl, hcount⟩)

theorem Reachable.firstBest_tried (hd : ScanChooses gamedef input defs (some d))
    (h : Reachable gamedef defs input d) :
    FirstBest (Craftable gamedef input) CraftDefinition.rank
      ((hashed gamedef defs).tried input) d := by
  have hclass := firstBest_class hd h.sameCount
  have hle : ∀ type, ∀ e ∈ (defs.filter (filedUnder gamedef type (input.hash type))).reverse,
      Craftable gamedef input e → e.rank ≤ d.rank := fun type e he hcraft =>
    scan_le hd (List.mem_filter.mp (List.mem_reverse.mp he)).1 hcraft
  rw [tried_hashed]
  cases htype : d.hashType gamedef with
  | itemNames =>
    rw [htype] at hclass
    exact hclass.append_right (hle .count)
  | count =>
    rw [htype] at hclass
    refine hclass.append_left fun e he hcraft => lt_of_le_of_ne (hle .itemNames e he hcraft) ?_
    obtain ⟨hmem, hfiled⟩ := List.mem_filter.mp (List.mem_reverse.mp he)
    have hnames := ((filedUnder_iff hcraft.1).mp hfiled).1
    exact fun hrank => h.noTie htype e hmem hcraft hnames (rank_injective hrank)
  | unhashed => exact absurd htype (hashType_ne_unhashed gamedef d)

/-- A recipe of the same priority in an earlier class is found first. -/
theorem noTie_of_firstBest (htype : d.hashType gamedef = .count)
    (h : FirstBest (Craftable gamedef input) CraftDefinition.rank
      ((hashed gamedef defs).tried input) d) (he : e ∈ defs) (hcraft : Craftable gamedef input e)
    (hnames : e.hashType gamedef = .itemNames) : e.priority ≠ d.priority := by
  intro hpriority
  rw [tried_hashed] at h
  have hcount := CraftDefinition.sameCount_of_itemNames hcraft.1 hnames
  have hlt := h.lt_of_append (fun hmem => ?_) (List.mem_reverse.mpr (List.mem_filter.mpr
    ⟨he, (filedUnder_iff hcraft.1).mpr ⟨hnames, hcount⟩⟩)) hcraft
  · exact absurd (congrArg RecipePriority.rank hpriority) hlt.ne
  · have hfiled := (List.mem_filter.mp (List.mem_reverse.mp hmem)).2
    rw [((filedUnder_iff h.qualifies.1).mp hfiled).1] at htype
    exact CraftHashType.noConfusion htype

/-- When nothing can be crafted, nothing is found. -/
theorem findCraft_eq_none (h : ∀ d ∈ defs, ¬Craftable gamedef input d) :
    ((hashed gamedef defs).findCraft gamedef input).map Prod.fst = none := by
  cases hempty : input.empty with
  | true => simp [findCraft, hempty]
  | false =>
    refine (chosen_findCraft gamedef (hashed gamedef defs) hempty).eq_none fun d hd hcraft => ?_
    exact h d (mem_tried hcraft.1 hd).1 hcraft

theorem Reachable.of_found (hd : ScanChooses gamedef input defs (some d))
    (h : ((hashed gamedef defs).findCraft gamedef input).map Prod.fst = some d) :
    Reachable gamedef defs input d := by
  have hempty : input.empty = false := by
    by_contra htrue
    rw [findCraft, if_pos (by simpa using htrue)] at h
    exact absurd h (by simp)
  have hfirst := chosen_findCraft gamedef (hashed gamedef defs) hempty
  rw [h] at hfirst
  exact ⟨hempty, (mem_tried hd.qualifies.1 hfirst.mem).2,
    fun htype e he hcraft hnames => noTie_of_firstBest htype hfirst he hcraft hnames⟩

theorem getCraftResult_eq (m : CraftDefManager) (decrementInput : Bool) :
    m.getCraftResult gamedef input decrementInput =
      craftWith gamedef input decrementInput ((m.findCraft gamedef input).map Prod.fst) := by
  unfold getCraftResult
  cases h : m.findCraft gamedef input with
  | none => rfl
  | some found =>
    obtain ⟨d, out⟩ := found
    rw [findCraft_output m h]
    rfl

/-- Every item is known, and in the group `coal`. -/
def coals : GameDef where
  idef := { get := fun _ => { groups := [(bytes "coal", 1)] } }
  isKnown _ := true
  deSerialize s := { name := s, count := 1 }
  getItemString s := s.name

def coalLump : CraftInput where
  method := .fuel
  width := 1
  items := [{ name := bytes "lump", count := 1 }]
  named s hs := by
    rw [List.mem_singleton.mp hs]
    decide

/-- A lump burns for 40 seconds, and then, as it was registered last, whatever is coal for 10. -/
def coalFuels : List CraftDefinition :=
  [.fuel { recipe := bytes "lump", burntime := 40 },
    .fuel { recipe := bytes "group:coal", burntime := 10 }]

end Freeminer.Craft
