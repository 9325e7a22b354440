import Mathlib.Data.Rat.Defs
import Freeminer.Inventory.ItemStack
import Freeminer.Lib.SortedMerge

/-! What all recipes share (`craftdef.h`): ingredients, which are item names or groups, the input,
priorities and hash classes. -/

namespace Freeminer.Craft

open Lib Inventory

/-- `IGameDef`: item definitions, and how itemstrings are read and written. -/
structure GameDef where
  idef : ItemDefManager
  isKnown : ByteString → Bool
  deSerialize : ByteString → ItemStack
  getItemString : ItemStack → ByteString

inductive CraftMethod where
  | normal | cooking | fuel
  deriving DecidableEq

/-- The crafting slots. A stack is empty or has a name. -/
structure CraftInput where
  method : CraftMethod := .normal
  width : ℕ := 0
  items : List ItemStack := []
  named : ∀ s ∈ items, s.name = [] ↔ s.count = 0 := by simp

structure CraftOutput where
  item : ByteString := []
  time : ℚ := 0
  deriving DecidableEq

abbrev CraftReplacements := List (ByteString × ByteString)

inductive RecipePriority where
  | noRecipe | toolRepair | shapelessAndGroups | shapeless | shapedAndGroups | shaped
  deriving DecidableEq

def RecipePriority.rank : RecipePriority → ℕ
  | noRecipe => 0
  | toolRepair => 1
  | shapelessAndGroups => 2
  | shapeless => 3
  | shapedAndGroups => 4
  | shaped => 5

inductive CraftHashType where
  | itemNames | count | unhashed
  deriving DecidableEq

/-! ## Ingredients -/

def itemgroupGet (groups : List (ByteString × ℤ)) (name : ByteString) : ℤ :=
  (groups.lookup name).getD 0

def isGroupRecipeStr (recName : ByteString) : Bool := (bytes "group:").isPrefixOf recName

def hasGroupItem (recipe : List ByteString) : Bool := recipe.any isGroupRecipeStr

/-- What `next(",")` gives until `at_end`, after `pre` was read. -/
def groupNames : ByteString → ByteString → List ByteString
  | pre, [] => [pre]
  | pre, c :: cs =>
    if c = ','.toUInt8 then
      if cs = [] then [pre] else pre :: groupNames [] cs
    else groupNames (pre ++ [c]) cs

/-- An ingredient is matched by its name, or by an item in all its groups. -/
def inputItemMatchesRecipe (gamedef : GameDef) (inpName recName : ByteString) : Bool :=
  inpName == recName ||
    isGroupRecipeStr recName && gamedef.isKnown inpName &&
      (groupNames [] (recName.drop 6)).all fun checkGroup =>
        itemgroupGet (gamedef.idef.get inpName).groups checkGroup != 0

def craftGetItemName (gamedef : GameDef) (itemstring : ByteString) : ByteString :=
  (gamedef.deSerialize itemstring).name

def craftGetItemNames (gamedef : GameDef) (itemstrings : List ByteString) : List ByteString :=
  itemstrings.map (craftGetItemName gamedef)

namespace CraftInput

def empty (input : CraftInput) : Bool := input.items.all ItemStack.empty

def itemNames (input : CraftInput) : List ByteString := input.items.map ItemStack.name

def filtered (input : CraftInput) : List ByteString := input.itemNames.filter (· ≠ [])

end CraftInput

variable {gamedef : GameDef} {inpName recName : ByteString}

/-- An ingredient that is no group is matched by its name only. -/
theorem matches_iff_eq (h : isGroupRecipeStr recName = false) :
    inputItemMatchesRecipe gamedef inpName recName = true ↔ inpName = recName := by
  rw [inputItemMatchesRecipe, h, Bool.false_and, Bool.false_and, Bool.or_false, beq_iff_eq]

/-! The keys under which recipes are filed and looked up. -/

namespace Murmur

def m : UInt64 := 0xc6a4a7935bd1e995

def r : UInt64 := 47

def leBytes : ByteString → UInt64
  | [] => 0
  | b :: bs => b.toUInt64 ||| (leBytes bs <<< 8)

def mix (h k : UInt64) : UInt64 :=
  let k := k * m
  let k := k ^^^ (k >>> r)
  let k := k * m
  (h ^^^ k) * m

def loop (h : UInt64) : ByteString → UInt64
  | b₀ :: b₁ :: b₂ :: b₃ :: b₄ :: b₅ :: b₆ :: b₇ :: data =>
    loop (mix h (leBytes [b₀, b₁, b₂, b₃, b₄, b₅, b₆, b₇])) data
  | [] => h
  | data => (h ^^^ leBytes data) * m

end Murmur

/-- `murmur_hash_64_ua`. -/
def murmurHash64 (key : ByteString) (seed : UInt32) : UInt64 :=
  let h := seed.toUInt64 ^^^ (UInt64.ofNat key.length * Murmur.m)
  let h := Murmur.loop h key
  let h := h ^^^ (h >>> Murmur.r)
  let h := h * Murmur.m
  h ^^^ (h >>> Murmur.r)

def getHashForString (recipeStr : ByteString) : ℕ := (murmurHash64 recipeStr 0xdeadbeef).toNat

def present (gridNames : List ByteString) : List ByteString := gridNames.filter (· ≠ [])

def getHashForGrid (type : CraftHashType) (gridNames : List ByteString) : ℕ :=
  match type with
  | .itemNames => getHashForString (List.intercalate ['\n'.toUInt8] (present gridNames))
  | .count => (present gridNames).length
  | .unhashed => 0

/-- What `getCraftResult` looks for. -/
def CraftInput.hash (input : CraftInput) (type : CraftHashType) : ℕ :=
  getHashForGrid type (sort input.itemNames)

variable {input : CraftInput} {names : List ByteString}

theorem present_itemNames (input : CraftInput) : present input.itemNames = input.filtered := rfl

/-- The key of sorted names is determined by the names that are there. -/
theorem getHashForGrid_sort (h : (present names).Perm input.filtered) (type : CraftHashType) :
    getHashForGrid type (sort names) = input.hash type := by
  have heq : present (sort names) = present (sort input.itemNames) := filter_sort_eq h
  unfold CraftInput.hash getHashForGrid
  rw [heq]

theorem getHashForGrid_count (names : List ByteString) :
    getHashForGrid .count (sort names) = (present names).length :=
  ((sort_perm names).filter _).length_eq

theorem CraftInput.hash_count (input : CraftInput) : input.hash .count = input.filtered.length :=
  getHashForGrid_count input.itemNames

theorem CraftInput.hash_itemNames {name : ByteString} (h : input.filtered = [name]) :
    input.hash .itemNames = getHashForString name := by
  have heq : present (sort input.itemNames) = [name] := by
    refine List.perm_singleton.mp ?_
    rw [← h]
    exact (sort_perm input.itemNames).filter _
  unfold CraftInput.hash getHashForGrid
  rw [heq]
  simp [List.intercalate]

end Freeminer.Craft
