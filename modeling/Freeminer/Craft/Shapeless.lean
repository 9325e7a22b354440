import Freeminer.Craft.HopcroftKarp
import Freeminer.Craft.Recipe
import Freeminer.Lib.Assignment

/-! `CraftDefinitionShapeless`: the items are in any order. Exact ingredients are taken out by a
sorted merge, the groups are matched with what is left. -/

namespace Freeminer.Craft

open Lib

structure CraftDefinitionShapeless where
  output : ByteString
  recipe : List ByteString
  replacements : CraftReplacements := []
  deriving DecidableEq

def SHAPELESS_GROUPS_MAX : ℕ := 30000

namespace CraftDefinitionShapeless

/-- `recipe_names`, sorted. -/
def recipeNames (gamedef : GameDef) (d : CraftDefinitionShapeless) : List ByteString :=
  sort (craftGetItemNames gamedef d.recipe)

def recipeOnlygroup (gamedef : GameDef) (d : CraftDefinitionShapeless) : List ByteString :=
  (d.recipeNames gamedef).filter isGroupRecipeStr

def recipeNogroup (gamedef : GameDef) (d : CraftDefinitionShapeless) : List ByteString :=
  (d.recipeNames gamedef).filter fun name => !isGroupRecipeStr name

def bipGraph (gamedef : GameDef) (inputForGroup recipeOnlygroup : List ByteString) : BipGraph :=
  let graphSize := recipeOnlygroup.length
  (List.range graphSize).map fun i =>
    (List.range graphSize).filter fun j =>
      inputItemMatchesRecipe gamedef (inputForGroup.getD i []) (recipeOnlygroup.getD j [])

def check (gamedef : GameDef) (d : CraftDefinitionShapeless) (input : CraftInput) : Bool :=
  if input.method ≠ .normal then false
  -- a wrong number of items
  else if input.filtered.length ≠ d.recipe.length then false
  else
    let inputFiltered := sort input.filtered
    let inputForGroup := setDifference inputFiltered (d.recipeNogroup gamedef)
    -- all non-group slots must be satisfied
    if inputFiltered.length - inputForGroup.length ≠ (d.recipeNogroup gamedef).length then false
    else if (d.recipeOnlygroup gamedef).length > SHAPELESS_GROUPS_MAX then false
    else (bipGraph gamedef inputForGroup (d.recipeOnlygroup gamedef)).canMatchAll

variable {gamedef : GameDef} {d : CraftDefinitionShapeless} {input : CraftInput}

abbrev Matches (gamedef : GameDef) (inpName recName : ByteString) : Prop :=
  inputItemMatchesRecipe gamedef inpName recName = true

@[simp] theorem length_bipGraph (gamedef : GameDef) (ls ms : List ByteString) :
    (bipGraph gamedef ls ms).length = ms.length := by
  simp [bipGraph]

theorem mem_neighbors_bipGraph {ls ms : List ByteString} {u v : ℕ} :
    v ∈ (bipGraph gamedef ls ms).neighbors u ↔
      u < ms.length ∧ v < ms.length ∧ Matches gamedef (ls.getD u []) (ms.getD v []) := by
  rw [bipGraph, BipGraph.neighbors, List.getD_eq_getElem?_getD, List.getElem?_map]
  by_cases hu : u < ms.length
  · rw [List.getElem?_range hu]
    simp [hu]
  · rw [List.getElem?_eq_none (by simpa using hu)]
    simp [hu]

theorem closed_bipGraph (gamedef : GameDef) (ls ms : List ByteString) :
    (bipGraph gamedef ls ms).Closed := by
  intro u v hv
  rw [length_bipGraph]
  exact (mem_neighbors_bipGraph.mp hv).2.1

theorem getD_eq_get (ls : List ByteString) (i : Fin ls.length) : ls.getD i [] = ls.get i := by
  rw [List.getD_eq_getElem?_getD, List.getElem?_eq_getElem i.isLt]
  rfl

/-- A perfect matching of the graph assigns the items to the slots. -/
theorem perfect_bipGraph {ls ms : List ByteString} (hlen : ls.length = ms.length) :
    (bipGraph gamedef ls ms).Perfect ↔ Assignable (Matches gamedef) ls ms := by
  unfold BipGraph.Perfect
  rw [length_bipGraph]
  constructor
  · rintro ⟨f, hf, hinj⟩
    have hlt : ∀ i : Fin ls.length, f i < ms.length := fun i =>
      (mem_neighbors_bipGraph.mp (hf i (hlen ▸ i.isLt))).2.1
    have hbij : Function.Bijective fun i : Fin ls.length => (⟨f i, hlt i⟩ : Fin ms.length) := by
      refine (Fintype.bijective_iff_injective_and_card _).mpr ⟨fun i j heq => ?_, by simp [hlen]⟩
      exact Fin.ext (hinj (hlen ▸ i.isLt) (hlen ▸ j.isLt) (Fin.mk.inj heq))
    refine ⟨Equiv.ofBijective _ hbij, fun i => ?_⟩
    have hmatch := (mem_neighbors_bipGraph.mp (hf i (hlen ▸ i.isLt))).2.2
    rw [getD_eq_get] at hmatch
    rw [Equiv.ofBijective_apply, ← getD_eq_get ms]
    exact hmatch
  · rintro ⟨σ, hσ⟩
    refine ⟨fun u => if hu : u < ls.length then σ ⟨u, hu⟩ else 0, fun u hu => ?_,
      fun u hu v hv heq => ?_⟩
    · have hu' : u < ls.length := hlen ▸ hu
      have hmatch := hσ ⟨u, hu'⟩
      rw [← getD_eq_get, ← getD_eq_get] at hmatch
      simp only [dif_pos hu']
      rw [mem_neighbors_bipGraph]
      exact ⟨hu, (σ ⟨u, hu'⟩).isLt, hmatch⟩
    · have hu' : u < ls.length := hlen ▸ hu
      have hv' : v < ls.length := hlen ▸ hv
      simp only [dif_pos hu', dif_pos hv'] at heq
      exact congrArg Fin.val (σ.injective (Fin.ext heq))

theorem recipeNames_eq (gamedef : GameDef) (d : CraftDefinitionShapeless) :
    (craftGetItemNames gamedef d.recipe : Multiset ByteString) =
      (d.recipeNogroup gamedef : Multiset ByteString) + d.recipeOnlygroup gamedef := by
  rw [Multiset.coe_add, Multiset.coe_eq_coe]
  have hsplit := List.filter_append_perm (fun name => !isGroupRecipeStr name) (d.recipeNames gamedef)
  simp only [Bool.not_not] at hsplit
  exact (hsplit.trans (sort_perm _)).symm

/-- What the non-group slots leave for the groups. -/
theorem coe_inputForGroup (gamedef : GameDef) (d : CraftDefinitionShapeless) (input : CraftInput) :
    (setDifference (sort input.filtered) (d.recipeNogroup gamedef) : Multiset ByteString) =
      (input.filtered : Multiset ByteString) - d.recipeNogroup gamedef := by
  have hsorted : (d.recipeNogroup gamedef).Pairwise (· ≤ ·) := (pairwise_sort _).filter _
  rw [coe_setDifference (pairwise_sort _) hsorted, Multiset.coe_eq_coe.mpr (sort_perm _)]

def Assigned (gamedef : GameDef) (d : CraftDefinitionShapeless) (input : CraftInput) : Prop :=
  Assignable (Matches gamedef) input.filtered (craftGetItemNames gamedef d.recipe)

/-- The non-group slots can be satisfied first. -/
theorem assigned_iff : Assigned gamedef d input ↔
    (d.recipeNogroup gamedef : Multiset ByteString) ≤ input.filtered ∧
      Assignable (Matches gamedef)
        (setDifference (sort input.filtered) (d.recipeNogroup gamedef))
        (d.recipeOnlygroup gamedef) := by
  rw [Assigned, assignable_iff_rel, recipeNames_eq, rel_add_eq, assignable_iff_rel,
    coe_inputForGroup]
  intro b hb a
  have hgroup := (List.mem_filter.mp (Multiset.mem_coe.mp hb)).2
  exact matches_iff_eq (by simpa using hgroup)

theorem card_sub_eq_iff {s t : Multiset ByteString} :
    s.card - (s - t).card = t.card ↔ t ≤ s := by
  have hcard := congrArg Multiset.card (Multiset.sub_add_inter s t)
  rw [Multiset.card_add] at hcard
  have hle : (s ∩ t).card ≤ t.card := Multiset.card_le_card Multiset.inter_le_right
  constructor
  · intro h
    have heq := Multiset.eq_of_le_of_card_le (Multiset.inter_le_right (s := s) (t := t)) (by omega)
    exact heq ▸ Multiset.inter_le_left
  · intro h
    rw [Multiset.card_sub h]
    have := Multiset.card_le_card h
    omega

theorem Assigned.length_eq (h : Assigned gamedef d input) :
    input.filtered.length = d.recipe.length := by
  obtain ⟨σ, -⟩ := h
  simpa [craftGetItemNames] using Fintype.card_congr σ

theorem length_setDifference :
    (sort input.filtered).length -
        (setDifference (sort input.filtered) (d.recipeNogroup gamedef)).length =
      (d.recipeNogroup gamedef).length ↔
    (d.recipeNogroup gamedef : Multiset ByteString) ≤ input.filtered := by
  rw [← card_sub_eq_iff, ← coe_inputForGroup, Multiset.coe_card, Multiset.coe_card,
    Multiset.coe_card, (sort_perm input.filtered).length_eq]

/-- As many items are left as there are group slots. -/
theorem length_inputForGroup (hlen : input.filtered.length = d.recipe.length)
    (hle : (d.recipeNogroup gamedef : Multiset ByteString) ≤ input.filtered) :
    (setDifference (sort input.filtered) (d.recipeNogroup gamedef)).length =
      (d.recipeOnlygroup gamedef).length := by
  have hrecipe := congrArg Multiset.card (recipeNames_eq gamedef d)
  have hinput := congrArg Multiset.card (coe_inputForGroup gamedef d input)
  rw [Multiset.card_sub hle] at hinput
  simp only [Multiset.card_add, Multiset.coe_card, craftGetItemNames, List.length_map] at *
  omega

/-- The check is exact: it is true if and only if the items can be assigned to the ingredients, one
to one, such that each matches its own. -/
theorem check_iff_assigned (hmax : (d.recipeOnlygroup gamedef).length ≤ SHAPELESS_GROUPS_MAX) :
    d.check gamedef input = true ↔ input.method = .normal ∧ Assigned gamedef d input := by
  dsimp only [check]
  split_ifs with hmethod hlen hsub hmany
  · simp [hmethod]
  · exact iff_of_false not_false fun h => hlen h.2.length_eq
  · rw [not_not] at hlen
    refine iff_of_false not_false fun h => hsub ?_
    exact length_setDifference.mpr (assigned_iff.mp h.2).1
  · exact absurd hmax (not_le.mpr hmany)
  · rw [not_not] at hmethod hlen hsub
    have hle := length_setDifference.mp hsub
    have hcount := length_inputForGroup hlen hle
    have hinf : (d.recipeOnlygroup gamedef).length + 1 < BipGraph.inf := by
      unfold SHAPELESS_GROUPS_MAX at hmax
      unfold BipGraph.inf
      omega
    rw [BipGraph.canMatchAll_iff (by rwa [length_bipGraph]) (closed_bipGraph _ _ _),
      perfect_bipGraph hcount, assigned_iff]
    exact ⟨fun h => ⟨hmethod, hle, h⟩, fun h => h.2.2⟩

/-- A recipe of more groups never matches. -/
theorem check_of_many (hmany : SHAPELESS_GROUPS_MAX < (d.recipeOnlygroup gamedef).length) :
    d.check gamedef input = false := by
  dsimp only [check]
  split_ifs <;> rfl

theorem length_recipeOnlygroup_le (gamedef : GameDef) (d : CraftDefinitionShapeless) :
    (d.recipeOnlygroup gamedef).length ≤ d.recipe.length := by
  have hrecipe := congrArg Multiset.card (recipeNames_eq gamedef d)
  simp only [Multiset.card_add, Multiset.coe_card, craftGetItemNames, List.length_map] at hrecipe
  omega

/-- Every item is known, and in the group `wood`. -/
def woods : GameDef where
  idef := { get := fun _ => { groups := [(bytes "wood", 1)] } }
  isKnown _ := true
  deSerialize s := { name := s, count := 1 }
  getItemString s := s.name

def planks (n : ℕ) : CraftInput where
  items := List.replicate n { name := bytes "plank", count := 1 }
  named s hs := by
    rw [(List.mem_replicate.mp hs).2]
    decide

def anyWood (n : ℕ) : CraftDefinitionShapeless where
  output := bytes "table"
  recipe := List.replicate n (bytes "group:wood")

theorem assigned_planks (n : ℕ) : Assigned woods (anyWood n) (planks n) := by
  have hfiltered : (planks n).filtered = List.replicate n (bytes "plank") := by
    simp [CraftInput.filtered, CraftInput.itemNames, planks, bytes]
  have hnames : craftGetItemNames woods (anyWood n).recipe =
      List.replicate n (bytes "group:wood") := by
    simp [craftGetItemNames, craftGetItemName, anyWood, woods]
  unfold Assigned
  rw [hfiltered, hnames, assignable_iff_rel]
  refine Multiset.rel_of_forall (fun a b ha hb => ?_) (by simp)
  rw [List.eq_of_mem_replicate (Multiset.mem_coe.mp ha),
    List.eq_of_mem_replicate (Multiset.mem_coe.mp hb)]
  decide

theorem check_iff_assigned_planks : (anyWood 2).check woods (planks 2) = true :=
  (check_iff_assigned ((length_recipeOnlygroup_le woods (anyWood 2)).trans (by decide))).mpr
    ⟨rfl, assigned_planks 2⟩

theorem length_recipeOnlygroup_anyWood (n : ℕ) :
    ((anyWood n).recipeOnlygroup woods).length = n := by
  have hfilter := ((sort_perm (craftGetItemNames woods (anyWood n).recipe)).filter
    isGroupRecipeStr).length_eq
  have hgroup : isGroupRecipeStr (bytes "group:wood") = true := by decide
  rw [recipeOnlygroup, recipeNames, hfilter]
  simp [craftGetItemNames, craftGetItemName, anyWood, woods, hgroup]

/-- 30001 planks are not taken for 30001 pieces of wood. -/
theorem not_check_iff_assigned : ¬∀ (gamedef : GameDef) (d : CraftDefinitionShapeless) (input : CraftInput),
    d.check gamedef input = true ↔ input.method = .normal ∧ Assigned gamedef d input := by
  intro h
  have hmany : SHAPELESS_GROUPS_MAX < ((anyWood 30001).recipeOnlygroup woods).length := by
    rw [length_recipeOnlygroup_anyWood]
    decide
  have hcheck := (h woods (anyWood 30001) (planks 30001)).mpr ⟨rfl, assigned_planks 30001⟩
  rw [check_of_many hmany] at hcheck
  exact Bool.false_ne_true hcheck

end CraftDefinitionShapeless

end Freeminer.Craft
