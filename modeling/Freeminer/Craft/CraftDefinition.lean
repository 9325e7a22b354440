import Freeminer.Craft.Shaped
import Freeminer.Craft.Shapeless

/-! `CraftDefinition`: the five kinds of recipes, with their priorities and hash classes. -/

namespace Freeminer.Craft

open Lib Inventory

/-- The wear that is added, in 65536ths and rounded. -/
structure CraftDefinitionToolRepair where
  additionalWear : ℤ
  deriving DecidableEq

structure CraftDefinitionCooking where
  output : ByteString
  recipe : ByteString
  cooktime : ℚ
  replacements : CraftReplacements := []
  deriving DecidableEq

structure CraftDefinitionFuel where
  recipe : ByteString
  burntime : ℚ
  replacements : CraftReplacements := []
  deriving DecidableEq

inductive CraftDefinition where
  | shaped (d : CraftDefinitionShaped)
  | shapeless (d : CraftDefinitionShapeless)
  | toolRepair (d : CraftDefinitionToolRepair)
  | cooking (d : CraftDefinitionCooking)
  | fuel (d : CraftDefinitionFuel)
  deriving DecidableEq

/-! ## Priorities -/

namespace CraftDefinitionShaped

def priority (d : CraftDefinitionShaped) : RecipePriority :=
  if hasGroupItem d.recipe then .shapedAndGroups else .shaped

def hashType (gamedef : GameDef) (d : CraftDefinitionShaped) : CraftHashType :=
  if hasGroupItem (d.recipeNames gamedef) then .count else .itemNames

def getHash (gamedef : GameDef) (type : CraftHashType) (d : CraftDefinitionShaped) : ℕ :=
  getHashForGrid type (sort (d.recipeNames gamedef))

end CraftDefinitionShaped

namespace CraftDefinitionShapeless

def priority (d : CraftDefinitionShapeless) : RecipePriority :=
  if hasGroupItem d.recipe then .shapelessAndGroups else .shapeless

def hashType (gamedef : GameDef) (d : CraftDefinitionShapeless) : CraftHashType :=
  if hasGroupItem (d.recipeNames gamedef) then .count else .itemNames

def getHash (gamedef : GameDef) (type : CraftHashType) (d : CraftDefinitionShapeless) : ℕ :=
  getHashForGrid type (d.recipeNames gamedef)

end CraftDefinitionShapeless

/-- The priority, hash class and key of a recipe of one ingredient. -/
def singlePriority (recName : ByteString) : RecipePriority :=
  if isGroupRecipeStr recName then .shapelessAndGroups else .shapeless

def singleHashType (recName : ByteString) : CraftHashType :=
  if isGroupRecipeStr recName then .count else .itemNames

def singleHash (type : CraftHashType) (recName : ByteString) : ℕ :=
  match type with
  | .itemNames => getHashForString recName
  | .count => 1
  | .unhashed => 0

def singleCheck (gamedef : GameDef) (recName : ByteString) (input : CraftInput) : Bool :=
  match input.filtered with
  | [inpName] => inputItemMatchesRecipe gamedef inpName recName
  | _ => false

namespace CraftDefinitionCooking

def recipeName (gamedef : GameDef) (d : CraftDefinitionCooking) : ByteString :=
  craftGetItemName gamedef d.recipe

def priority (d : CraftDefinitionCooking) : RecipePriority := singlePriority d.recipe

def check (gamedef : GameDef) (d : CraftDefinitionCooking) (input : CraftInput) : Bool :=
  if input.method ≠ .cooking then false else singleCheck gamedef (d.recipeName gamedef) input

end CraftDefinitionCooking

namespace CraftDefinitionFuel

def recipeName (gamedef : GameDef) (d : CraftDefinitionFuel) : ByteString :=
  craftGetItemName gamedef d.recipe

/-- The constructor looks at `recipe_name`, which is empty until the hash is computed, and not at
`recipe`. -/
def priority (_ : CraftDefinitionFuel) : RecipePriority := singlePriority []

def check (gamedef : GameDef) (d : CraftDefinitionFuel) (input : CraftInput) : Bool :=
  if input.method ≠ .fuel then false else singleCheck gamedef (d.recipeName gamedef) input

end CraftDefinitionFuel

/-! ## Tool repair -/

def craftToolRepair (gamedef : GameDef) (additionalWear : ℤ) (item1 item2 : ItemStack) :
    ItemStack :=
  let definition := gamedef.idef.get item1.name
  if item1.count ≠ 1 ∨ item2.count ≠ 1 ∨ item1.name ≠ item2.name ∨ definition.type ≠ .tool ∨
      itemgroupGet definition.groups (bytes "disable_repair") = 1 then {}
  else
    let item1Uses : ℤ := 65536 - item1.wear.toNat
    let item2Uses : ℤ := 65536 - item2.wear.toNat
    let newUses := item1Uses + item2Uses
    let newWear := 65536 - newUses + additionalWear
    if newWear ≥ 65536 then {}
    else { item1 with wear := UInt16.ofNat newWear.toNat }

def pickTools : List ItemStack → ItemStack → ItemStack → ItemStack × ItemStack × Bool
  | [], item1, item2 => (item1, item2, false)
  | item :: items, item1, item2 =>
    if item.empty then pickTools items item1 item2
    else if item1.empty then pickTools items item item2
    else if item2.empty then pickTools items item1 item
    else
      let (item1, item2, _) := pickTools items item1 item2
      (item1, item2, true)

namespace CraftDefinitionToolRepair

def repaired (gamedef : GameDef) (d : CraftDefinitionToolRepair) (input : CraftInput) :
    ItemStack :=
  let (item1, item2, _) := pickTools input.items {} {}
  craftToolRepair gamedef d.additionalWear item1 item2

def check (gamedef : GameDef) (d : CraftDefinitionToolRepair) (input : CraftInput) : Bool :=
  if input.method ≠ .normal then false
  else if (pickTools input.items {} {}).2.2 then false
  else !(d.repaired gamedef input).empty

end CraftDefinitionToolRepair

/-! ## All kinds -/

namespace CraftDefinition

def priority : CraftDefinition → RecipePriority
  | shaped d => d.priority
  | shapeless d => d.priority
  | toolRepair _ => .toolRepair
  | cooking d => d.priority
  | fuel d => d.priority

def hashType (gamedef : GameDef) : CraftDefinition → CraftHashType
  | shaped d => d.hashType gamedef
  | shapeless d => d.hashType gamedef
  | toolRepair _ => .count
  | cooking d => singleHashType (d.recipeName gamedef)
  | fuel d => singleHashType (d.recipeName gamedef)

def getHash (gamedef : GameDef) (type : CraftHashType) : CraftDefinition → ℕ
  | shaped d => d.getHash gamedef type
  | shapeless d => d.getHash gamedef type
  | toolRepair _ => 2
  | cooking d => singleHash type (d.recipeName gamedef)
  | fuel d => singleHash type (d.recipeName gamedef)

def check (gamedef : GameDef) (input : CraftInput) : CraftDefinition → Bool
  | shaped d => d.check gamedef input
  | shapeless d => d.check gamedef input
  | toolRepair d => d.check gamedef input
  | cooking d => d.check gamedef input
  | fuel d => d.check gamedef input

def getOutput (gamedef : GameDef) (input : CraftInput) : CraftDefinition → CraftOutput
  | shaped d => { item := d.output }
  | shapeless d => { item := d.output }
  | toolRepair d => { item := gamedef.getItemString (d.repaired gamedef input) }
  | cooking d => { item := d.output, time := d.cooktime }
  | fuel d => { time := d.burntime }

end CraftDefinition

/-! ## Taking the input -/

def craftDecrementInput (items : List ItemStack) : Except Fault (List ItemStack) :=
  items.mapM fun item => if item.count ≠ 0 then item.remove 1 else .ok item

def findReplacement (gamedef : GameDef) (name : ByteString) :
    CraftReplacements → Option (ByteString × CraftReplacements)
  | [] => none
  | (item, replacement) :: pairs =>
    if inputItemMatchesRecipe gamedef name item then some (replacement, pairs)
    else (findReplacement gamedef name pairs).map fun (r, pairs) => (r, (item, replacement) :: pairs)

/-- The stacks that stay, and the replacements that do not fit in. -/
def replaceLoop (gamedef : GameDef) : List ItemStack → CraftReplacements →
    Except Fault (List ItemStack × List ItemStack)
  | [], _ => .ok ([], [])
  | item :: items, pairs =>
    match findReplacement gamedef item.name pairs with
    | some (replacement, pairs) =>
      if item.count = 1 then do
        let (items, reps) ← replaceLoop gamedef items pairs
        pure (gamedef.deSerialize replacement :: items, reps)
      else do
        let item ← item.remove 1
        let (items, reps) ← replaceLoop gamedef items pairs
        pure (item :: items, gamedef.deSerialize replacement :: reps)
    | none => do
      let item ← if item.count > 0 then item.remove 1 else .ok item
      let (items, reps) ← replaceLoop gamedef items pairs
      pure (item :: items, reps)

def craftDecrementOrReplaceInput (gamedef : GameDef) (items : List ItemStack)
    (replacements : CraftReplacements) : Except Fault (List ItemStack × List ItemStack) :=
  if replacements = [] then do
    let items ← craftDecrementInput items
    pure (items, [])
  else replaceLoop gamedef items replacements

def CraftDefinition.decrementInput (gamedef : GameDef) (items : List ItemStack) :
    CraftDefinition → Except Fault (List ItemStack × List ItemStack)
  | shaped d => craftDecrementOrReplaceInput gamedef items d.replacements
  | shapeless d => craftDecrementOrReplaceInput gamedef items d.replacements
  | toolRepair _ => do
    let items ← craftDecrementInput items
    pure (items, [])
  | cooking d => craftDecrementOrReplaceInput gamedef items d.replacements
  | fuel d => craftDecrementOrReplaceInput gamedef items d.replacements

/-! ## Keys of recipes that match -/

variable {gamedef : GameDef} {input : CraftInput} {recName : ByteString}

theorem singleCheck_spec (h : singleCheck gamedef recName input = true) :
    ∃ inpName, input.filtered = [inpName] ∧ inputItemMatchesRecipe gamedef inpName recName = true := by
  unfold singleCheck at h
  split at h
  · exact ⟨_, by assumption, h⟩
  · exact absurd h Bool.false_ne_true

theorem singleHash_of_check (h : singleCheck gamedef recName input = true) :
    singleHash (singleHashType recName) recName = input.hash (singleHashType recName) := by
  obtain ⟨inpName, hfiltered, hmatch⟩ := singleCheck_spec h
  unfold singleHashType
  split_ifs with hgroup
  · rw [CraftInput.hash_count, hfiltered]
    rfl
  · rw [CraftInput.hash_itemNames hfiltered, (matches_iff_eq (by simpa using hgroup)).mp hmatch]
    rfl

namespace CraftDefinitionShapeless

variable {d : CraftDefinitionShapeless}

theorem assigned_of_check (h : d.check gamedef input = true) : Assigned gamedef d input := by
  by_cases hmany : SHAPELESS_GROUPS_MAX < (d.recipeOnlygroup gamedef).length
  · rw [check_of_many hmany] at h
    exact absurd h Bool.false_ne_true
  · exact (check_iff_assigned (not_lt.mp hmany)).mp h |>.2

theorem Assigned.present_eq (h : Assigned gamedef d input) :
    present (craftGetItemNames gamedef d.recipe) = craftGetItemNames gamedef d.recipe := by
  obtain ⟨σ, hσ⟩ := h
  refine List.filter_eq_self.mpr fun recName hmem => ?_
  obtain ⟨j, rfl⟩ := List.get_of_mem hmem
  have hmatch := hσ (σ.symm j)
  rw [Equiv.apply_symm_apply] at hmatch
  have hname := (List.mem_filter.mp (List.get_mem input.filtered (σ.symm j))).2
  rw [decide_eq_true_iff] at hname ⊢
  intro hnil
  rw [hnil] at hmatch
  exact hname ((matches_iff_eq (by decide)).mp hmatch)

theorem Assigned.perm (h : Assigned gamedef d input)
    (hgroup : hasGroupItem (craftGetItemNames gamedef d.recipe) = false) :
    (craftGetItemNames gamedef d.recipe).Perm input.filtered := by
  have heq := Multiset.rel_eq.mp (h.rel.mono fun inpName _ recName hmem hmatch => ?_)
  · exact (Multiset.coe_eq_coe.mp heq).symm
  · have hnot : isGroupRecipeStr recName = false := Bool.eq_false_iff.mpr fun h =>
      Bool.eq_false_iff.mp hgroup (List.any_eq_true.mpr ⟨recName, hmem, h⟩)
    exact (matches_iff_eq hnot).mp hmatch

theorem hasGroupItem_recipeNames (gamedef : GameDef) (d : CraftDefinitionShapeless) :
    hasGroupItem (d.recipeNames gamedef) = hasGroupItem (craftGetItemNames gamedef d.recipe) := by
  rw [Bool.eq_iff_iff, hasGroupItem, hasGroupItem, List.any_eq_true, List.any_eq_true]
  simp only [recipeNames, (sort_perm _).mem_iff]

theorem getHash_of_check (h : d.check gamedef input = true) :
    d.getHash gamedef (d.hashType gamedef) = input.hash (d.hashType gamedef) := by
  have hassigned := assigned_of_check h
  rw [getHash, recipeNames]
  unfold hashType
  rw [hasGroupItem_recipeNames]
  split_ifs with hgroup
  · rw [getHashForGrid_count, hassigned.present_eq, CraftInput.hash_count, hassigned.length_eq]
    simp [craftGetItemNames]
  · refine getHashForGrid_sort ?_ _
    rw [hassigned.present_eq]
    exact hassigned.perm (by simpa using hgroup)

end CraftDefinitionShapeless

namespace CraftDefinitionShaped

variable {d : CraftDefinitionShaped}

/-- Without groups the keys are the same; with groups if the recipe has as many ingredients as the
input has items. -/
theorem getHash_eq_iff (h : d.check gamedef input = true) :
    d.getHash gamedef (d.hashType gamedef) = input.hash (d.hashType gamedef) ↔
      (present (d.recipeNames gamedef)).length = input.filtered.length := by
  unfold getHash hashType
  split_ifs with hgroup
  · rw [getHashForGrid_count, CraftInput.hash_count]
  · have hperm := present_perm_of_check h (by simpa using hgroup)
    exact iff_of_true (getHashForGrid_sort hperm _) hperm.length_eq

end CraftDefinitionShaped

/-! ## Two tools -/

def itemCount (items : List ItemStack) : ℕ := items.countP fun item => !item.empty

theorem length_filtered (input : CraftInput) : input.filtered.length = itemCount input.items := by
  rw [CraftInput.filtered, CraftInput.itemNames, ← List.countP_eq_length_filter, List.countP_map]
  refine List.countP_congr fun item hitem => ?_
  have hnamed := input.named item hitem
  simp [ItemStack.empty, hnamed]

/-- Without a third item, the two that are picked are all. -/
theorem itemCount_pickTools (items : List ItemStack) (item1 item2 : ItemStack)
    (h : (pickTools items item1 item2).2.2 = false)
    (horder : item1.empty = true → item2.empty = true) :
    itemCount items + itemCount [item1, item2] =
      itemCount [(pickTools items item1 item2).1, (pickTools items item1 item2).2.1] := by
  induction items generalizing item1 item2 with
  | nil => simp [pickTools, itemCount]
  | cons item items ih =>
    rw [pickTools] at h ⊢
    split_ifs at h ⊢ with hempty h1 h2
    · rw [← ih item1 item2 h horder]
      simp [itemCount, hempty]
    · rw [← ih item item2 h fun he => absurd he hempty]
      simp [itemCount, hempty, h1, horder h1]
    · rw [← ih item1 item h fun he => absurd he h1]
      simp [itemCount, hempty, h1, h2]

theorem craftToolRepair_of_not_empty {wear : ℤ} {item1 item2 : ItemStack}
    (h : (craftToolRepair gamedef wear item1 item2).empty = false) :
    item1.count = 1 ∧ item2.count = 1 := by
  dsimp only [craftToolRepair] at h
  split_ifs at h with hfail hworn
  · exact absurd h (by decide)
  · exact absurd h (by decide)
  · rw [not_or, not_or, not_not, not_not] at hfail
    exact ⟨hfail.1, hfail.2.1⟩

theorem CraftDefinitionToolRepair.length_filtered_of_check {d : CraftDefinitionToolRepair}
    (h : d.check gamedef input = true) : input.filtered.length = 2 := by
  unfold check at h
  split_ifs at h with hmethod hmore
  have hrepaired : (d.repaired gamedef input).empty = false := by simpa using h
  obtain ⟨hone, htwo⟩ := craftToolRepair_of_not_empty hrepaired
  have hcount := itemCount_pickTools input.items {} {} (by simpa using hmore) fun h => h
  rw [length_filtered]
  simpa [itemCount, ItemStack.empty, hone, htwo] using hcount

namespace CraftDefinition

/-- A shaped recipe has as many ingredients as the input has items. Other recipes that match do
anyway. -/
def SameCount (gamedef : GameDef) (input : CraftInput) : CraftDefinition → Prop
  | shaped d => (present (d.recipeNames gamedef)).length = input.filtered.length
  | _ => True

/-- A recipe that matches has the key of the input, unless its shape has more or less ingredients
than the input has items. -/
theorem getHash_eq_iff {d : CraftDefinition} (h : d.check gamedef input = true) :
    d.getHash gamedef (d.hashType gamedef) = input.hash (d.hashType gamedef) ↔
      d.SameCount gamedef input := by
  cases d with
  | shaped d => exact d.getHash_eq_iff h
  | shapeless d => exact iff_of_true (d.getHash_of_check h) trivial
  | toolRepair d =>
    refine iff_of_true ?_ trivial
    exact (d.length_filtered_of_check h).symm.trans input.hash_count.symm
  | cooking d =>
    dsimp only [check, CraftDefinitionCooking.check] at h
    split_ifs at h
    exact iff_of_true (singleHash_of_check h) trivial
  | fuel d =>
    dsimp only [check, CraftDefinitionFuel.check] at h
    split_ifs at h
    exact iff_of_true (singleHash_of_check h) trivial

theorem sameCount_of_itemNames {d : CraftDefinition} (h : d.check gamedef input = true)
    (htype : d.hashType gamedef = .itemNames) : d.SameCount gamedef input := by
  cases d with
  | shaped d =>
    have hgroup : hasGroupItem (d.recipeNames gamedef) = false := by
      dsimp only [hashType, CraftDefinitionShaped.hashType] at htype
      split_ifs at htype with hgroup
      simpa using hgroup
    exact (d.present_perm_of_check h hgroup).length_eq
  | _ => trivial

end CraftDefinition

end Freeminer.Craft
