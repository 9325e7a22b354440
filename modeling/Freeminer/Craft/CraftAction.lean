import Freeminer.Craft.CraftDefManager
import Freeminer.Inventory.ActionText

/-! `ICraftAction::apply`: the craft grid is crafted as often as asked for and as the result slot
has room. Replacements that do not stay in the grid go to the main list, and what is left of
them is handed to `on_drop`. -/

namespace Freeminer.Craft

open Lib Inventory ItemStack

def Named (s : ItemStack) : Prop := s.name = [] ↔ s.count = 0

/-- Itemstrings are read as stacks that are empty or have a name. -/
structure NamedGameDef extends GameDef where
  named_deSerialize : ∀ s, Named (deSerialize s)

/-- The `craft` list. -/
structure CraftList where
  width : ℕ := 0
  items : ItemList
  named : ∀ s ∈ items, Named s

/-- The lists of the inventory. There is a `main` list, which is locked without a check. -/
structure CraftInventory where
  craft : Option CraftList
  craftresult : Option ItemList
  main : ItemList

/-- `craft_predict` and `on_craft` may give another item for the craft that they are told of.
`on_drop` returns how many items are left. -/
structure CraftCallbacks where
  craftPredict : ItemStack → ItemList → ItemStack
  onCraft : ItemStack → ItemList → ItemStack
  onDrop : ItemStack → UInt16

/-! ## What a craft leaves is named -/

section Named

variable {gamedef : GameDef} {s s' : ItemStack} {items items' reps : List ItemStack}

theorem named_default : Named {} := by simp [Named]

theorem named_remove {n : UInt16} (hs : Named s) (h : s.remove n = .ok s') : Named s' := by
  unfold ItemStack.remove at h
  split_ifs at h with hlt
  cases h
  split_ifs with h0
  · exact named_default
  · refine ⟨fun hname => ?_, fun hzero => absurd hzero h0⟩
    have hzero : s.count = 0 := hs.mp hname
    rw [hzero, UInt16.not_lt] at hlt
    have hn : n = 0 := UInt16.le_antisymm hlt UInt16.zero_le
    exact absurd (by rw [hzero, hn]; rfl) h0

/-- Without replacements the two ways to take the input are the same. -/
theorem replaceLoop_nil (items : List ItemStack) :
    replaceLoop gamedef items [] = (craftDecrementInput items).map (·, []) := by
  unfold craftDecrementInput
  induction items with
  | nil => rfl
  | cons item items ih =>
    rw [replaceLoop, findReplacement, List.mapM_cons, ih]
    simp only [gt_iff_lt, UInt16.pos_iff_ne_zero]
    by_cases h0 : item.count ≠ 0
    · rw [if_pos h0, if_pos h0]
      cases item.remove 1 with
      | error e => rfl
      | ok item =>
        cases items.mapM fun item => if item.count ≠ 0 then item.remove 1 else Except.ok item with
        | error e => rfl
        | ok items => rfl
    · rw [if_neg h0, if_neg h0]
      cases items.mapM fun item => if item.count ≠ 0 then item.remove 1 else Except.ok item with
      | error e => rfl
      | ok items => rfl

def CraftDefinition.replacements : CraftDefinition → CraftReplacements
  | shaped d => d.replacements
  | shapeless d => d.replacements
  | toolRepair _ => []
  | cooking d => d.replacements
  | fuel d => d.replacements

theorem craftDecrementOrReplaceInput_eq (items : List ItemStack) (pairs : CraftReplacements) :
    craftDecrementOrReplaceInput gamedef items pairs = replaceLoop gamedef items pairs := by
  unfold craftDecrementOrReplaceInput
  split_ifs with h
  · rw [h, replaceLoop_nil]
    cases craftDecrementInput items <;> rfl
  · rfl

theorem decrementInput_eq (d : CraftDefinition) (items : List ItemStack) :
    d.decrementInput gamedef items = replaceLoop gamedef items d.replacements := by
  cases d with
  | toolRepair d =>
    rw [CraftDefinition.replacements, replaceLoop_nil]
    unfold CraftDefinition.decrementInput
    cases craftDecrementInput items <;> rfl
  | shaped d => exact craftDecrementOrReplaceInput_eq items d.replacements
  | shapeless d => exact craftDecrementOrReplaceInput_eq items d.replacements
  | cooking d => exact craftDecrementOrReplaceInput_eq items d.replacements
  | fuel d => exact craftDecrementOrReplaceInput_eq items d.replacements

def ingredients (items : List ItemStack) : List ItemStack :=
  (items.filter fun item => !item.empty).map fun item => { item with count := 1 }

def replaced (gamedef : GameDef) : List ItemStack → CraftReplacements → List ItemStack
  | [], _ => []
  | item :: items, pairs =>
    match findReplacement gamedef item.name pairs with
    | some (replacement, pairs) => gamedef.deSerialize replacement :: replaced gamedef items pairs
    | none => replaced gamedef items pairs

theorem weight_cons (f : ItemStack → ℕ) (s : ItemStack) (l : List ItemStack) :
    weight f (s :: l) = f s + weight f l := by
  simp [weight]

theorem weight_append (f : ItemStack → ℕ) (l l' : List ItemStack) :
    weight f (l ++ l') = weight f l + weight f l' := by
  simp [weight]

theorem weight_ingredients_of_empty (h0 : s.count = 0) (k : Kind) :
    weight (countOf k) (ingredients (s :: items)) = weight (countOf k) (ingredients items) := by
  simp [ingredients, ItemStack.empty, h0]

theorem weight_ingredients_cons (h0 : s.count ≠ 0) (k : Kind) :
    weight (countOf k) (ingredients (s :: items)) =
      countOf k { s with count := 1 } + weight (countOf k) (ingredients items) := by
  simp [ingredients, ItemStack.empty, h0, weight_cons]

theorem countOf_remove (h0 : s.count ≠ 0) (h : s.remove 1 = .ok s') (k : Kind) :
    countOf k s' + countOf k { s with count := 1 } = countOf k s := by
  have hpos : (1 : UInt16) ≤ s.count := by
    rw [UInt16.le_iff_toNat_le]
    exact Nat.pos_of_ne_zero fun hz => h0 (UInt16.toNat_inj.mp hz)
  obtain ⟨rest, hrest, hcount, hkind, -⟩ := remove_spec hpos
  cases h.symm.trans hrest
  have hle := UInt16.le_iff_toNat_le.mp hpos
  have hmove := countOf_move (a := {}) (b := s) (c := s') (d := { s with count := 1 })
    (by simp only [hcount, UInt16.toNat_zero, UInt16.toNat_one] at hle ⊢; omega)
    (fun h => absurd rfl h) hkind (fun _ => rfl) k
  simpa using hmove

/-- What a craft leaves: the replacements that are due are in the grid or among the output
replacements. -/
structure Leaves (gamedef : GameDef) (items : List ItemStack) (pairs : CraftReplacements)
    (items' reps : List ItemStack) : Prop where
  length : items'.length = items.length
  named : (∀ s, Named (gamedef.deSerialize s)) → (∀ s ∈ items, Named s) → ∀ s ∈ items', Named s
  balance : ∀ k, weight (countOf k) items' + weight (countOf k) reps +
    weight (countOf k) (ingredients items) =
      weight (countOf k) items + weight (countOf k) (replaced gamedef items pairs)

theorem ne_zero_of_remove (h : s.remove 1 = .ok s') : s.count ≠ 0 := by
  intro h0
  unfold ItemStack.remove at h
  rw [h0, if_pos (by decide)] at h
  cases h

theorem leaves_of_replaceLoop {pairs : CraftReplacements}
    (h : replaceLoop gamedef items pairs = .ok (items', reps)) :
    Leaves gamedef items pairs items' reps := by
  induction items generalizing pairs items' reps with
  | nil =>
    cases h
    exact ⟨rfl, fun _ h => h, fun _ => rfl⟩
  | cons item items ih =>
    rw [replaceLoop] at h
    cases hfind : findReplacement gamedef item.name pairs with
    | some found =>
      obtain ⟨replacement, pairs'⟩ := found
      rw [hfind] at h
      dsimp only at h
      split_ifs at h with hone
      · -- the replacement takes the place of the last item
        obtain ⟨⟨items₁, reps₁⟩, hloop, hpure⟩ := bind_eq_ok.mp h
        cases hpure
        obtain ⟨hlength, hnamed, hbalance⟩ := ih hloop
        refine ⟨by simp [hlength], fun hdes hitems => ?_, fun k => ?_⟩
        · rw [List.forall_mem_cons] at hitems ⊢
          exact ⟨hdes _, hnamed hdes hitems.2⟩
        · have h0 : item.count ≠ 0 := by simp [hone]
          have hsame : ({ item with count := 1 } : ItemStack) = item := by rw [← hone]
          rw [weight_cons, weight_cons, weight_ingredients_cons h0, hsame, replaced, hfind]
          dsimp only
          rw [weight_cons]
          have := hbalance k
          omega
      · obtain ⟨item₁, hremove, hrest⟩ := bind_eq_ok.mp h
        obtain ⟨⟨items₁, reps₁⟩, hloop, hpure⟩ := bind_eq_ok.mp hrest
        cases hpure
        obtain ⟨hlength, hnamed, hbalance⟩ := ih hloop
        have h0 := ne_zero_of_remove hremove
        refine ⟨by simp [hlength], fun hdes hitems => ?_, fun k => ?_⟩
        · rw [List.forall_mem_cons] at hitems ⊢
          exact ⟨named_remove hitems.1 hremove, hnamed hdes hitems.2⟩
        · rw [weight_cons, weight_cons, weight_cons, weight_ingredients_cons h0, replaced, hfind]
          dsimp only
          rw [weight_cons]
          have := hbalance k
          have := countOf_remove h0 hremove k
          omega
    | none =>
      rw [hfind] at h
      dsimp only at h
      split_ifs at h with hpos
      · obtain ⟨item₁, hremove, hrest⟩ := bind_eq_ok.mp h
        obtain ⟨⟨items₁, reps₁⟩, hloop, hpure⟩ := bind_eq_ok.mp hrest
        cases hpure
        obtain ⟨hlength, hnamed, hbalance⟩ := ih hloop
        have h0 := ne_zero_of_remove hremove
        refine ⟨by simp [hlength], fun hdes hitems => ?_, fun k => ?_⟩
        · rw [List.forall_mem_cons] at hitems ⊢
          exact ⟨named_remove hitems.1 hremove, hnamed hdes hitems.2⟩
        · rw [weight_cons, weight_cons, weight_ingredients_cons h0, replaced, hfind]
          dsimp only
          have := hbalance k
          have := countOf_remove h0 hremove k
          omega
      · obtain ⟨item₁, hitem, hrest⟩ := bind_eq_ok.mp h
        cases hitem
        obtain ⟨⟨items₁, reps₁⟩, hloop, hpure⟩ := bind_eq_ok.mp hrest
        cases hpure
        obtain ⟨hlength, hnamed, hbalance⟩ := ih hloop
        have h0 : item.count = 0 := by simpa using hpos
        refine ⟨by simp [hlength], fun hdes hitems => ?_, fun k => ?_⟩
        · rw [List.forall_mem_cons] at hitems ⊢
          exact ⟨hitems.1, hnamed hdes hitems.2⟩
        · rw [weight_cons, weight_cons, weight_ingredients_of_empty h0, replaced, hfind]
          dsimp only
          have := hbalance k
          omega

end Named

/-! ## The action -/

namespace CraftList

def toInput (l : CraftList) : CraftInput where
  width := if l.width ≠ 0 then l.width else 3
  items := l.items
  named := l.named

end CraftList

theorem named_getCraftResult {gamedef : NamedGameDef} {m : CraftDefManager} {l : CraftList}
    {decrementInput : Bool} {co : CraftResult}
    (h : m.getCraftResult gamedef.toGameDef l.toInput decrementInput = .ok (some co)) :
    ∀ s ∈ co.items, Named s := by
  unfold CraftDefManager.getCraftResult at h
  split at h
  · cases h
  split_ifs at h
  · obtain ⟨⟨items, reps⟩, hdecrement, hpure⟩ := bind_eq_ok.mp h
    cases hpure
    rw [decrementInput_eq] at hdecrement
    exact (leaves_of_replaceLoop hdecrement).named gamedef.named_deSerialize l.named
  · cases h
    exact l.named

/-- `for (u16 i = 0; i < size; i++)` -/
def indexLoop (size : ℕ) : ℕ → UInt16 → Option (List ℕ)
  | 0, _ => none
  | fuel + 1, i =>
    if i.toNat < size then (indexLoop size fuel (i + 1)).map (i.toNat :: ·) else some []

variable (gamedef : NamedGameDef) (m : CraftDefManager)

/-- `getCraftingResult`: the result, the grid and the replacements that do not stay in it. -/
def getCraftingResult (l : CraftList) (decrementInput : Bool) :
    Except Fault (ItemStack × CraftList × List ItemStack) :=
  match h : m.getCraftResult gamedef.toGameDef l.toInput decrementInput with
  | .error e => .error e
  | .ok none => .ok ({}, l, [])
  | .ok (some co) =>
    .ok (gamedef.deSerialize co.output.item,
      { l with items := co.items, named := named_getCraftResult h }, co.outputReplacements)

structure CraftState where
  craft : CraftList
  craftresult : ItemList
  crafted : ItemStack
  countRemaining : ℕ
  outputReplacements : List ItemStack := []

def mergeReplacement : List ItemStack → ItemStack → Except Fault (List ItemStack × ItemStack)
  | [], itemstack => .ok ([], itemstack)
  | output :: outputs, itemstack => do
    let (itemstack, output) ←
      if itemstack.name = output.name then output.addItem gamedef.idef itemstack
      else pure (itemstack, output)
    let (outputs, itemstack) ← mergeReplacement outputs itemstack
    pure (output :: outputs, itemstack)

def addReplacements : List ItemStack → List ItemStack → Except Fault (List ItemStack)
  | [], outputs => .ok outputs
  | itemstack :: temp, outputs => do
    let (outputs, itemstack) ← mergeReplacement gamedef outputs itemstack
    addReplacements temp (outputs ++ [itemstack])

variable (cb : CraftCallbacks)

def predict (l : CraftList) : Except Fault ItemStack := do
  let (crafted, _, _) ← getCraftingResult gamedef m l false
  pure (cb.craftPredict crafted l.items)

def craftStep (σ : CraftState) : Except Fault (CraftState × Bool) :=
  if σ.crafted.empty then .ok (σ, false)
  else do
    let (fits, _) ← σ.craftresult.itemFits gamedef.idef 0 σ.crafted
    if !fits then pure (σ, false)
    else
      let (crafted, craft, temp) ← getCraftingResult gamedef m σ.craft true
      let crafted := cb.onCraft crafted σ.craft.items
      let (_, craftresult) ← σ.craftresult.addItemAt gamedef.idef 0 crafted
      let outputReplacements ← addReplacements gamedef temp σ.outputReplacements
      let σ := { σ with craft, craftresult, crafted, outputReplacements }
      if σ.countRemaining = 1 then pure (σ, false)
      else
        let crafted ← predict gamedef m cb craft
        pure ({ σ with crafted, countRemaining := σ.countRemaining - 1 }, true)

def craftLoop : ℕ → CraftState → Option (Except Fault CraftState)
  | 0, _ => none
  | fuel + 1, σ =>
    match craftStep gamedef m cb σ with
    | .error e => some (.error e)
    | .ok (σ, false) => some (.ok σ)
    | .ok (σ, true) => craftLoop fuel σ

/-- `on_drop` until nothing is left or it does not take anything. What it returns is not looked
at. -/
def dropLoop (count : UInt16) (s : ItemStack) : ℕ → Option (List ItemStack)
  | 0 => none
  | fuel + 1 =>
    let _returned := cb.onDrop s
    if count ≤ s.count ∨ s.empty then some [s] else (dropLoop count s fuel).map (s :: ·)

/-- The replacements go to the main list, or are dropped if it is full. -/
def putAway (fuel : ℕ) :
    List ItemStack → ItemList → List ItemStack → Option (Except Fault (ItemList × List ItemStack))
  | [], main, handed => some (.ok (main, handed))
  | output :: outputs, main, handed =>
    match main.addItem gamedef.idef output with
    | .error e => some (.error e)
    | .ok (output, main) =>
      if output.empty then putAway fuel outputs main handed
      else (dropLoop cb output.count output fuel).bind fun dropped =>
        putAway fuel outputs main (handed ++ dropped)

/-- `apply`: the lists, and the stacks that were handed to `on_drop`. The copies of the grid that
`getCraftingResult` makes end only if the first one does. -/
def craftApply (fuel : ℕ) (count : UInt16) (inv : CraftInventory) :
    Option (Except Fault (CraftInventory × List ItemStack)) :=
  match inv.craft, inv.craftresult with
  | some craft, some craftresult =>
    if craftresult.length < 1 then some (.ok (inv, []))
    else
      (indexLoop craft.items.length fuel 0).bind fun _ =>
        match predict gamedef m cb craft with
        | .error e => some (.error e)
        | .ok crafted =>
          (craftLoop gamedef m cb fuel
              { craft, craftresult, crafted, countRemaining := count.toNat }).bind fun
            | .error e => some (.error e)
            | .ok σ =>
              (putAway gamedef cb fuel σ.outputReplacements inv.main []).map fun r =>
                r.map fun (main, handed) =>
                  ({ craft := some σ.craft, craftresult := some σ.craftresult, main }, handed)
  | _, _ => some (.ok (inv, []))

/-! ## Loops of a craft -/

/-- A size that a 16-bit number can reach is reached. -/
theorem indexLoop_total {size : ℕ} (hsize : size < 65536) (fuel : ℕ) {i : UInt16}
    (hle : i.toNat ≤ size) (hfuel : size < i.toNat + fuel) :
    ∃ is, indexLoop size fuel i = some is := by
  induction fuel generalizing i with
  | zero => omega
  | succ fuel ih =>
    rw [indexLoop]
    split_ifs with hlt
    · have hnext : (i + 1).toNat = i.toNat + 1 := by
        rw [UInt16.toNat_add, UInt16.toNat_one, Nat.mod_eq_of_lt (by omega)]
      obtain ⟨is, his⟩ := @ih (i + 1) (by omega) (by omega)
      exact ⟨_, by rw [his]; rfl⟩
    · exact ⟨_, rfl⟩

variable {gamedef m cb} {l l' l'' : CraftList} {σ σ' : CraftState}

/-- The stack is handed over once: the loop sees no change of its count. -/
theorem dropLoop_succ (cb : CraftCallbacks) (s : ItemStack) (fuel : ℕ) :
    dropLoop cb s.count s (fuel + 1) = some [s] := by
  rw [dropLoop, if_pos (.inl (UInt16.le_refl _))]

theorem weight_mergeReplacement {outputs outputs' : List ItemStack} {s left : ItemStack}
    (h : mergeReplacement gamedef outputs s = .ok (outputs', left)) (k : Kind) :
    weight (countOf k) outputs' + countOf k left = weight (countOf k) outputs + countOf k s := by
  induction outputs generalizing s outputs' with
  | nil =>
    cases h
    rfl
  | cons output outputs ih =>
    rw [mergeReplacement] at h
    split_ifs at h with hname
    · obtain ⟨⟨s₁, output₁⟩, hadd, hrest⟩ := bind_eq_ok.mp h
      obtain ⟨⟨outputs₁, s₂⟩, hmerge, hpure⟩ := bind_eq_ok.mp hrest
      cases hpure
      obtain ⟨left', output', hadd', hadded⟩ := ItemStack.addItem_spec gamedef.idef output s
      cases hadd.symm.trans hadd'
      have := ih hmerge
      have := hadded.countOf_eq k
      rw [weight_cons, weight_cons]
      omega
    · obtain ⟨⟨s₁, output₁⟩, hkeep, hrest⟩ := bind_eq_ok.mp h
      cases hkeep
      obtain ⟨⟨outputs₁, s₂⟩, hmerge, hpure⟩ := bind_eq_ok.mp hrest
      cases hpure
      have := ih hmerge
      rw [weight_cons, weight_cons]
      omega

theorem weight_addReplacements {temp outputs outputs' : List ItemStack}
    (h : addReplacements gamedef temp outputs = .ok outputs') (k : Kind) :
    weight (countOf k) outputs' = weight (countOf k) outputs + weight (countOf k) temp := by
  induction temp generalizing outputs with
  | nil =>
    cases h
    rfl
  | cons s temp ih =>
    obtain ⟨⟨outputs₁, s₁⟩, hmerge, hrest⟩ := bind_eq_ok.mp h
    have := weight_mergeReplacement hmerge k
    have hone : weight (countOf k) [s₁] = countOf k s₁ := by simp [weight]
    rw [weight_cons, ih hrest, weight_append, hone]
    omega

/-- What `getCraftingResult` finds: the input does not change what the result is. -/
theorem getCraftingResult_cases {decrementInput : Bool} {crafted : ItemStack}
    {temp : List ItemStack}
    (h : getCraftingResult gamedef m l decrementInput = .ok (crafted, l', temp)) :
    (m.findCraft gamedef.toGameDef l.toInput = none ∧ crafted = {} ∧ l' = l ∧ temp = []) ∨
    ∃ d out, m.findCraft gamedef.toGameDef l.toInput = some (d, out) ∧
      crafted = gamedef.deSerialize out.item ∧ (decrementInput = true →
        replaceLoop gamedef.toGameDef l.items d.replacements = .ok (l'.items, temp)) := by
  unfold getCraftingResult at h
  split at h
  · cases h
  · rename_i hnone
    cases h
    refine .inl ⟨?_, rfl, rfl, rfl⟩
    unfold CraftDefManager.getCraftResult at hnone
    split at hnone
    · assumption
    · split_ifs at hnone
      · obtain ⟨⟨items, reps⟩, -, hpure⟩ := bind_eq_ok.mp hnone
        cases hpure
      · cases hnone
  · rename_i co hsome
    cases h
    unfold CraftDefManager.getCraftResult at hsome
    split at hsome
    · cases hsome
    rename_i d out hfind
    refine .inr ⟨d, out, hfind, ?_⟩
    split_ifs at hsome with hdecrement
    · obtain ⟨⟨items, reps⟩, hleft, hpure⟩ := bind_eq_ok.mp hsome
      cases hpure
      rw [decrementInput_eq] at hleft
      exact ⟨rfl, fun _ => hleft⟩
    · cases hsome
      exact ⟨rfl, fun ht => absurd ht hdecrement⟩

/-- One round: it is the last and changes nothing, or it crafts. -/
theorem craftStep_cases {more : Bool} (h : craftStep gamedef m cb σ = .ok (σ', more)) :
    (σ' = σ ∧ more = false) ∨ ∃ crafted temp left rest, σ.crafted.count ≠ 0 ∧
      σ.craftresult.itemFits gamedef.idef 0 σ.crafted = .ok (true, rest) ∧
      getCraftingResult gamedef m σ.craft true = .ok (crafted, σ'.craft, temp) ∧
      σ.craftresult.addItemAt gamedef.idef 0 (cb.onCraft crafted σ.craft.items) =
        .ok (left, σ'.craftresult) ∧
      addReplacements gamedef temp σ.outputReplacements = .ok σ'.outputReplacements ∧
      (more = true → predict gamedef m cb σ'.craft = .ok σ'.crafted) := by
  unfold craftStep at h
  split_ifs at h with hempty
  · cases h
    exact .inl ⟨rfl, rfl⟩
  · obtain ⟨⟨fits, rest⟩, hfits, h⟩ := bind_eq_ok.mp h
    cases fits with
    | false =>
      cases h
      exact .inl ⟨rfl, rfl⟩
    | true =>
      obtain ⟨⟨crafted, craft, temp⟩, hresult, h⟩ := bind_eq_ok.mp h
      obtain ⟨⟨left, craftresult⟩, hadd, h⟩ := bind_eq_ok.mp h
      obtain ⟨outputs, houtputs, h⟩ := bind_eq_ok.mp h
      refine .inr ⟨crafted, temp, left, rest, by simpa using hempty, hfits, ?_⟩
      dsimp only at h
      split_ifs at h with hlast
      · cases h
        exact ⟨hresult, hadd, houtputs, fun hf => Bool.noConfusion hf⟩
      · obtain ⟨next, hnext, h⟩ := bind_eq_ok.mp h
        cases h
        exact ⟨hresult, hadd, houtputs, fun _ => hnext⟩

/-! ## Conservation -/

/-- A sequence of crafts: the ingredients that are used, and the replacements that are made. -/
inductive Crafts (gamedef : NamedGameDef) (m : CraftDefManager) :
    CraftList → CraftList → List ItemStack → List ItemStack → Prop
  | done (l : CraftList) : Crafts gamedef m l l [] []
  | craft {l l' l'' : CraftList} {d : CraftDefinition} {out : CraftOutput}
      {temp used made : List ItemStack}
      (hfind : m.findCraft gamedef.toGameDef l.toInput = some (d, out))
      (hleft : replaceLoop gamedef.toGameDef l.items d.replacements = .ok (l'.items, temp))
      (hrest : Crafts gamedef m l' l'' used made) :
      Crafts gamedef m l l'' (ingredients l.items ++ used)
        (replaced gamedef.toGameDef l.items d.replacements ++ made)

theorem Crafts.trans {used made used' made' : List ItemStack}
    (h : Crafts gamedef m l l' used made) (h' : Crafts gamedef m l' l'' used' made') :
    Crafts gamedef m l l'' (used ++ used') (made ++ made') := by
  induction h with
  | done l => exact h'
  | craft hfind hleft hrest ih =>
    rw [List.append_assoc, List.append_assoc]
    exact .craft hfind hleft (ih h')

/-- The grid and the output replacements have what they had, less the ingredients that were used
and with the replacements that were made. -/
def Balanced (gamedef : NamedGameDef) (m : CraftDefManager) (σ σ' : CraftState) : Prop :=
  ∃ used made, Crafts gamedef m σ.craft σ'.craft used made ∧ ∀ k,
    weight (countOf k) σ'.craft.items + weight (countOf k) σ'.outputReplacements +
      weight (countOf k) used =
    weight (countOf k) σ.craft.items + weight (countOf k) σ.outputReplacements +
      weight (countOf k) made

theorem Balanced.refl (σ : CraftState) : Balanced gamedef m σ σ :=
  ⟨[], [], .done _, fun _ => rfl⟩

theorem Balanced.trans {σ'' : CraftState} (h : Balanced gamedef m σ σ')
    (h' : Balanced gamedef m σ' σ'') : Balanced gamedef m σ σ'' := by
  obtain ⟨used, made, hcrafts, hsum⟩ := h
  obtain ⟨used', made', hcrafts', hsum'⟩ := h'
  refine ⟨_, _, hcrafts.trans hcrafts', fun k => ?_⟩
  have := hsum k
  have := hsum' k
  rw [weight_append, weight_append]
  omega

theorem balanced_craftStep {more : Bool} (h : craftStep gamedef m cb σ = .ok (σ', more)) :
    Balanced gamedef m σ σ' := by
  rcases craftStep_cases h with ⟨rfl, -⟩ | ⟨crafted, temp, left, rest, -, -, hresult, -, houts, -⟩
  · exact .refl _
  have hadd := weight_addReplacements houts
  rcases getCraftingResult_cases hresult with ⟨-, -, hcraft, rfl⟩ | ⟨d, out, hfind, -, hleft⟩
  · refine ⟨[], [], hcraft ▸ .done _, fun k => ?_⟩
    rw [hcraft, hadd k]
    rfl
  · have hleft := hleft rfl
    refine ⟨_, _, .craft hfind hleft (.done _), fun k => ?_⟩
    have hbalance := (leaves_of_replaceLoop hleft).balance k
    rw [hadd k, List.append_nil, List.append_nil]
    omega

theorem balanced_craftLoop {fuel : ℕ} (h : craftLoop gamedef m cb fuel σ = some (.ok σ')) :
    Balanced gamedef m σ σ' := by
  induction fuel generalizing σ with
  | zero => cases h
  | succ fuel ih =>
    rw [craftLoop] at h
    cases hstep : craftStep gamedef m cb σ with
    | error e => simp [hstep] at h
    | ok r =>
      obtain ⟨σ₁, more⟩ := r
      rw [hstep] at h
      cases more with
      | false =>
        cases h
        exact balanced_craftStep hstep
      | true => exact (balanced_craftStep hstep).trans (ih h)

theorem putAway_spec {fuel : ℕ} {outputs handed handed' : List ItemStack} {main main' : ItemList}
    (h : putAway gamedef cb fuel outputs main handed = some (.ok (main', handed'))) (k : Kind) :
    weight (countOf k) main' + weight (countOf k) handed' =
      weight (countOf k) main + weight (countOf k) handed + weight (countOf k) outputs := by
  induction outputs generalizing main handed with
  | nil =>
    cases h
    rfl
  | cons output outputs ih =>
    obtain ⟨left, main₁, hadd, hadds⟩ := ItemList.addItem_spec gamedef.idef main output
    rw [putAway, hadd] at h
    dsimp only at h
    have hsum := hadds.countOf_eq k
    rw [weight_cons]
    split_ifs at h with hempty
    · have hnone := countOf_of_count (empty_iff.mp hempty) k
      have := ih h
      omega
    · cases fuel with
      | zero => simp [dropLoop] at h
      | succ fuel =>
        rw [dropLoop_succ] at h
        have := ih h
        have hone : weight (countOf k) [left] = countOf k left := by simp [weight]
        rw [weight_append, hone] at this
        omega

/-! ## Termination -/

structure CraftCallbacks.Passive (cb : CraftCallbacks) : Prop where
  craftPredict : ∀ s l, cb.craftPredict s l = s
  onCraft : ∀ s l, cb.onCraft s l = s

def resultCount : ItemList → ℕ
  | [] => 0
  | s :: _ => s.count.toNat

theorem resultCount_lt (l : ItemList) : resultCount l < 65536 := by
  cases l with
  | nil => decide
  | cons s l => exact s.count.toNat_lt

/-- Items that fit are added to the result slot. -/
theorem resultCount_addItemAt {idef : ItemDefManager} {l l' : ItemList} {s rest left : ItemStack}
    (h0 : s.count ≠ 0) (hfits : ItemList.itemFits idef l 0 s = .ok (true, rest))
    (hadd : l.addItemAt idef 0 s = .ok (left, l')) : resultCount l < resultCount l' := by
  cases l with
  | nil => cases hfits
  | cons t l =>
    obtain ⟨fits, rest', hfits', hiff, hcount⟩ := ItemStack.itemFits_spec idef t s
    have hall : fits = true := by
      cases hfits'.symm.trans hfits
      rfl
    obtain ⟨left', t', hadd', hadded⟩ := ItemStack.addItem_spec idef t s
    have hl : l' = t' :: l := by
      simp only [ItemList.addItemAt, List.getElem?_cons_zero, hadd', bind, Except.bind, pure,
        Except.pure] at hadd
      cases hadd
      rfl
    have hs : s.count.toNat ≠ 0 := fun hz => h0 (UInt16.toNat_inj.mp hz)
    have hrest : rest'.count.toNat = 0 := by
      rw [hiff.mp hall]
      rfl
    have hnew := hadded.count
    rw [hl]
    simp only [resultCount]
    omega

theorem crafted_of_predict (hcb : cb.Passive) {crafted crafted' : ItemStack}
    {temp : List ItemStack} (hpredict : predict gamedef m cb l = .ok crafted)
    (h0 : crafted.count ≠ 0) (h : getCraftingResult gamedef m l true = .ok (crafted', l', temp)) :
    crafted' = crafted := by
  obtain ⟨⟨s, l₁, temp₁⟩, hresult, hpure⟩ := bind_eq_ok.mp hpredict
  cases hpure
  rw [hcb.craftPredict] at h0 ⊢
  rcases getCraftingResult_cases hresult with ⟨-, rfl, -⟩ | ⟨d, out, hfind, rfl, -⟩
  · exact absurd rfl h0
  · rcases getCraftingResult_cases h with ⟨hnone, -⟩ | ⟨d', out', hfind', rfl, -⟩
    · cases hfind.symm.trans hnone
    · cases hfind.symm.trans hfind'
      rfl

/-- A round after which the loop goes on puts items into the result slot. -/
theorem craftStep_progress (hcb : cb.Passive)
    (hpredict : predict gamedef m cb σ.craft = .ok σ.crafted)
    (h : craftStep gamedef m cb σ = .ok (σ', true)) :
    predict gamedef m cb σ'.craft = .ok σ'.crafted ∧
      resultCount σ.craftresult < resultCount σ'.craftresult := by
  rcases craftStep_cases h with ⟨-, hmore⟩ |
    ⟨crafted, temp, left, rest, h0, hfits, hresult, hadd, -, hnext⟩
  · cases hmore
  · rw [crafted_of_predict hcb hpredict h0 hresult, hcb.onCraft] at hadd
    exact ⟨hnext rfl, resultCount_addItemAt h0 hfits hadd⟩

theorem craftLoop_total (hcb : cb.Passive) (n : ℕ) (σ : CraftState)
    (hpredict : predict gamedef m cb σ.craft = .ok σ.crafted)
    (hn : 65536 ≤ resultCount σ.craftresult + n) :
    ∃ r, ∀ fuel, n ≤ fuel → craftLoop gamedef m cb fuel σ = some r := by
  induction n generalizing σ with
  | zero =>
    have := resultCount_lt σ.craftresult
    omega
  | succ n ih =>
    cases hstep : craftStep gamedef m cb σ with
    | error e =>
      refine ⟨.error e, fun fuel hfuel => ?_⟩
      cases fuel with
      | zero => omega
      | succ fuel => rw [craftLoop, hstep]
    | ok r =>
      obtain ⟨σ', more⟩ := r
      cases more with
      | false =>
        refine ⟨.ok σ', fun fuel hfuel => ?_⟩
        cases fuel with
        | zero => omega
        | succ fuel => rw [craftLoop, hstep]
      | true =>
        obtain ⟨hpredict', hlt⟩ := craftStep_progress hcb hpredict hstep
        obtain ⟨r, hr⟩ := ih σ' hpredict' (by omega)
        refine ⟨r, fun fuel hfuel => ?_⟩
        cases fuel with
        | zero => omega
        | succ fuel =>
          rw [craftLoop, hstep]
          exact hr fuel (Nat.le_of_succ_le_succ hfuel)

theorem putAway_total (gamedef : NamedGameDef) (cb : CraftCallbacks) (outputs : List ItemStack)
    (main : ItemList) (handed : List ItemStack) :
    ∃ r, ∀ fuel, 1 ≤ fuel → putAway gamedef cb fuel outputs main handed = some r := by
  induction outputs generalizing main handed with
  | nil => exact ⟨_, fun _ _ => rfl⟩
  | cons output outputs ih =>
    obtain ⟨left, main₁, hadd, -⟩ := ItemList.addItem_spec gamedef.idef main output
    by_cases hempty : left.empty = true
    · obtain ⟨r, hr⟩ := ih main₁ handed
      refine ⟨r, fun fuel hfuel => ?_⟩
      rw [putAway, hadd]
      dsimp only
      rw [if_pos hempty, hr fuel hfuel]
    · obtain ⟨r, hr⟩ := ih main₁ (handed ++ [left])
      refine ⟨r, fun fuel hfuel => ?_⟩
      rw [putAway, hadd]
      dsimp only
      obtain ⟨fuel, rfl⟩ := Nat.exists_eq_add_of_le' hfuel
      rw [if_neg hempty, dropLoop_succ]
      exact hr (fuel + 1) hfuel

/-! ## The whole action -/

/-- Replacements are in the grid, in the main list or handed over once, together with what was
there before and but for the ingredients that later crafts used. -/
def KeepsReplacements (gamedef : NamedGameDef) (m : CraftDefManager) (inv inv' : CraftInventory)
    (handed : List ItemStack) : Prop :=
  inv' = inv ∧ handed = [] ∨ ∃ l l' used made, inv.craft = some l ∧ inv'.craft = some l' ∧
    Crafts gamedef m l l' used made ∧ ∀ k,
      weight (countOf k) l'.items + weight (countOf k) inv'.main + weight (countOf k) handed +
        weight (countOf k) used =
      weight (countOf k) l.items + weight (countOf k) inv.main + weight (countOf k) made

theorem keepsReplacements_of_craftApply {fuel : ℕ} {count : UInt16} {inv inv' : CraftInventory}
    {handed : List ItemStack}
    (h : craftApply gamedef m cb fuel count inv = some (.ok (inv', handed))) :
    KeepsReplacements gamedef m inv inv' handed := by
  unfold craftApply at h
  split at h
  · rename_i l craftresult hcraft hresult
    split_ifs at h with hlen
    · cases h
      exact .inl ⟨rfl, rfl⟩
    · obtain ⟨is, -, h⟩ := Option.bind_eq_some_iff.mp h
      split at h
      · cases h
      rename_i crafted hpredict
      obtain ⟨loop, hloop, h⟩ := Option.bind_eq_some_iff.mp h
      cases loop with
      | error e => cases h
      | ok σ =>
        obtain ⟨r, hput, h⟩ := Option.map_eq_some_iff.mp h
        cases r with
        | error e => cases h
        | ok r =>
          obtain ⟨main, handed⟩ := r
          cases h
          obtain ⟨used, made, hcrafts, hsum⟩ := balanced_craftLoop hloop
          refine .inr ⟨l, σ.craft, used, made, hcraft, rfl, hcrafts, fun k => ?_⟩
          have hput := putAway_spec hput k
          have hsum := hsum k
          have hnil : weight (countOf k) [] = 0 := rfl
          dsimp only at hsum ⊢
          omega
  · cases h
    exact .inl ⟨rfl, rfl⟩

def eggs : NamedGameDef where
  idef := { get := fun _ => {} }
  isKnown _ := true
  deSerialize s := if s = [] then {} else { name := s, count := 1 }
  getItemString s := s.name
  named_deSerialize s := by
    split_ifs with h <;> simp [Named, h]

def eggRecipes : CraftDefManager where
  craftDefs type hash :=
    if type = .unhashed ∧ hash = 0 then
      [.shaped { output := bytes "dish", width := 1, recipe := [bytes "egg"],
                 replacements := [(bytes "egg", bytes "shell")] },
        .shaped { output := bytes "dish", width := 1, recipe := [bytes "shell"] }]
    else []

def gridOf (s : ItemStack) (hs : Named s) : CraftList where
  items := [s]
  named := by simp [hs]

def eggGrid : CraftList := gridOf { name := bytes "egg", count := 1 } (by simp [Named, bytes])

def shellGrid : CraftList := gridOf { name := bytes "shell", count := 1 } (by simp [Named, bytes])

def oneEgg : CraftInventory where
  craft := some eggGrid
  craftresult := some [{}]
  main := []

def noCallbacks : CraftCallbacks where
  craftPredict s _ := s
  onCraft s _ := s
  onDrop s := s.count

theorem passive_noCallbacks : noCallbacks.Passive := ⟨fun _ _ => rfl, fun _ _ => rfl⟩

end Freeminer.Craft
