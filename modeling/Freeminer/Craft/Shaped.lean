import Mathlib.Data.Fintype.Card
import Freeminer.Craft.Recipe
import Freeminer.Lib.Pattern

/-! `CraftDefinitionShaped`: the items are arranged like the recipe. Both grids are cut down to
their bounding boxes, which are compared cell by cell. -/

namespace Freeminer.Craft

open Lib

structure CraftDefinitionShaped where
  output : ByteString
  width : ℕ
  recipe : List ByteString
  replacements : CraftReplacements := []
  deriving DecidableEq

structure Bounds where
  minX : ℕ
  maxX : ℕ
  minY : ℕ
  maxY : ℕ
  deriving DecidableEq

def Bounds.extend (b : Bounds) (x y : ℕ) : Bounds where
  minX := if x < b.minX then x else b.minX
  maxX := if x > b.maxX then x else b.maxX
  minY := if y < b.minY then y else b.minY
  maxY := if y > b.maxY then y else b.maxY

def addCell (bounds : Option Bounds) (item : ByteString) (x y : ℕ) : Option Bounds :=
  if item = [] then bounds
  else
    match bounds with
    | none => some ⟨x, x, y, y⟩
    | some b => some (b.extend x y)

/-- The bounds of the items from `(x, y)` on and of those before. -/
def boundsLoop (width : ℕ) : List ByteString → ℕ → ℕ → Option Bounds → Option Bounds
  | [], _, _, bounds => bounds
  | item :: items, x, y, bounds =>
    let bounds := addCell bounds item x y
    if x + 1 = width then boundsLoop width items 0 (y + 1) bounds
    else boundsLoop width items (x + 1) y bounds

/-- The bounding rectangle, `none` if every item is empty. -/
def craftGetBounds (items : List ByteString) (width : ℕ) : Option Bounds :=
  boundsLoop width items 0 0 none

def fillRows (width : ℕ) (names : List ByteString) : List ByteString :=
  names ++ List.replicate ((width - names.length % width) % width) []

def cell (names : List ByteString) (width x y : ℕ) : ByteString := names.getD (y * width + x) []

namespace CraftDefinitionShaped

/-- `recipe_names`. -/
def recipeNames (gamedef : GameDef) (d : CraftDefinitionShaped) : List ByteString :=
  craftGetItemNames gamedef d.recipe

def check (gamedef : GameDef) (d : CraftDefinitionShaped) (input : CraftInput) : Bool :=
  if input.method ≠ .normal then false
  else if input.width = 0 then false
  else
    let inpNames := fillRows input.width input.itemNames
    match craftGetBounds inpNames input.width with
    | none => false
    | some inp =>
      if d.width = 0 then false
      else
        let recNames := fillRows d.width (d.recipeNames gamedef)
        match craftGetBounds recNames d.width with
        | none => false
        | some rec =>
          -- different sizes
          if inp.maxX - inp.minX ≠ rec.maxX - rec.minX ∨
              inp.maxY - inp.minY ≠ rec.maxY - rec.minY then false
          else
            let w := inp.maxX - inp.minX + 1
            let h := inp.maxY - inp.minY + 1
            (List.range h).all fun y => (List.range w).all fun x =>
              inputItemMatchesRecipe gamedef
                (cell inpNames input.width (inp.minX + x) (inp.minY + y))
                (cell recNames d.width (rec.minX + x) (rec.minY + y))

end CraftDefinitionShaped

/-! ## Bounds -/

structure Bounds.Covers (b : Bounds) (x y : ℕ) : Prop where
  minX : b.minX ≤ x
  maxX : x ≤ b.maxX
  minY : b.minY ≤ y
  maxY : y ≤ b.maxY

structure Bounds.Fits (b : Bounds) (width : ℕ) : Prop where
  x : b.minX ≤ b.maxX
  y : b.minY ≤ b.maxY
  row : b.maxX < width

structure Bounds.SameSize (b c : Bounds) : Prop where
  x : b.maxX - b.minX = c.maxX - c.minX
  y : b.maxY - b.minY = c.maxY - c.minY

variable {b c : Bounds} {width x y x' y' : ℕ} {names : List ByteString} {bounds : Option Bounds}

theorem Bounds.covers_extend (b : Bounds) (x y : ℕ) : (b.extend x y).Covers x y := by
  constructor <;> dsimp only [Bounds.extend] <;> split_ifs <;> omega

theorem Bounds.Fits.extend (h : b.Fits width) (hx : x < width) : (b.extend x y).Fits width := by
  obtain ⟨h₁, h₂, h₃⟩ := h
  constructor <;> dsimp only [Bounds.extend] <;> split_ifs <;> omega

theorem Bounds.Covers.extend (h : b.Covers x y) (x' y' : ℕ) : (b.extend x' y').Covers x y := by
  obtain ⟨h₁, h₂, h₃, h₄⟩ := h
  constructor <;> dsimp only [Bounds.extend] <;> split_ifs <;> omega

def Bounds.Within (b c : Bounds) : Prop := ∀ x y, b.Covers x y → c.Covers x y

structure Bounded (width : ℕ) (names : List ByteString) (x y : ℕ) (bounds : Option Bounds)
    (bounds' : Option Bounds) : Prop where
  grows : ∀ b ∈ bounds, ∃ c ∈ bounds', b.Within c
  items : ∀ k < names.length, names.getD k [] ≠ [] →
    ∃ c ∈ bounds', c.Covers ((x + k) % width) (y + (x + k) / width)
  fits : (∀ b ∈ bounds, b.Fits width) → ∀ c ∈ bounds', c.Fits width

theorem within_addCell (bounds : Option Bounds) (item : ByteString) (x y : ℕ) :
    ∀ b ∈ bounds, ∃ c ∈ addCell bounds item x y, b.Within c := by
  rintro b hb
  obtain rfl := Option.mem_def.mp hb
  unfold addCell
  split_ifs
  · exact ⟨b, rfl, fun _ _ h => h⟩
  · exact ⟨_, rfl, fun _ _ h => h.extend x y⟩

theorem covers_addCell {item : ByteString} (hitem : item ≠ []) (bounds : Option Bounds)
    (x y : ℕ) : ∃ c ∈ addCell bounds item x y, c.Covers x y := by
  unfold addCell
  rw [if_neg hitem]
  cases bounds with
  | none => exact ⟨_, rfl, le_rfl, le_rfl, le_rfl, le_rfl⟩
  | some b => exact ⟨_, rfl, b.covers_extend x y⟩

theorem fits_addCell (hx : x < width) (item : ByteString) (y : ℕ)
    (h : ∀ b ∈ bounds, b.Fits width) : ∀ c ∈ addCell bounds item x y, c.Fits width := by
  intro c hc
  unfold addCell at hc
  split_ifs at hc
  · exact h c hc
  · cases bounds with
    | none =>
      obtain rfl := Option.some.inj hc
      exact ⟨le_rfl, le_rfl, hx⟩
    | some b =>
      obtain rfl := Option.some.inj hc
      exact (h b rfl).extend hx

structure NextCell (width x y x' y' : ℕ) : Prop where
  lt : x' < width
  mod : ∀ k, (x' + k) % width = (x + (k + 1)) % width
  div : ∀ k, y' + (x' + k) / width = y + (x + (k + 1)) / width

theorem nextCell_wrap (h : x + 1 = width) : NextCell width x y 0 (y + 1) := by
  have hpos : 0 < width := by omega
  have hk : ∀ k, x + (k + 1) = 0 + k + width := by omega
  refine ⟨hpos, fun k => ?_, fun k => ?_⟩
  · rw [hk, Nat.add_mod_right]
  · rw [hk, Nat.add_div_right _ hpos]
    omega

theorem nextCell_right (hx : x < width) (h : x + 1 ≠ width) : NextCell width x y (x + 1) y := by
  have hk : ∀ k, x + 1 + k = x + (k + 1) := by omega
  refine ⟨by omega, fun k => ?_, fun k => ?_⟩ <;> rw [hk]

theorem Bounded.cons {item : ByteString} (hx : x < width) (hnext : NextCell width x y x' y')
    {bounds' : Option Bounds}
    (h : Bounded width names x' y' (addCell bounds item x y) bounds') :
    Bounded width (item :: names) x y bounds bounds' where
  grows b hb := by
    obtain ⟨c, hc, hwithin⟩ := within_addCell bounds item x y b hb
    obtain ⟨c', hc', hwithin'⟩ := h.grows c hc
    exact ⟨c', hc', fun x y hcov => hwithin' x y (hwithin x y hcov)⟩
  items k hk hne := by
    cases k with
    | zero =>
      obtain ⟨c, hc, hcov⟩ := covers_addCell hne bounds x y
      obtain ⟨c', hc', hwithin⟩ := h.grows c hc
      refine ⟨c', hc', ?_⟩
      rw [Nat.add_zero, Nat.mod_eq_of_lt hx, Nat.div_eq_of_lt hx]
      exact hwithin x y hcov
    | succ k =>
      obtain ⟨c, hc, hcov⟩ := h.items k (Nat.lt_of_succ_lt_succ hk) hne
      rw [hnext.mod, hnext.div] at hcov
      exact ⟨c, hc, hcov⟩
  fits hfits := h.fits (fits_addCell hx item y hfits)

theorem boundsLoop_spec (names : List ByteString) (y : ℕ) (bounds : Option Bounds)
    (hx : x < width) :
    Bounded width names x y bounds (boundsLoop width names x y bounds) := by
  induction names generalizing x y bounds with
  | nil =>
    exact ⟨fun b hb => ⟨b, hb, fun _ _ h => h⟩, fun k hk => absurd hk (Nat.not_lt_zero k),
      fun h => h⟩
  | cons item items ih =>
    rw [boundsLoop]
    split_ifs with hwrap
    · exact (ih _ _ (Nat.zero_lt_of_lt hx)).cons hx (nextCell_wrap hwrap)
    · exact (ih _ _ (nextCell_right (y := y) hx hwrap).lt).cons hx (nextCell_right hx hwrap)

theorem getD_of_le {i : ℕ} (h : names.length ≤ i) : names.getD i [] = [] := by
  rw [List.getD_eq_getElem?_getD, List.getElem?_eq_none h]
  rfl

/-- The items are in the bounding rectangle. -/
theorem covers_of_bounds (hwidth : 0 < width) (h : craftGetBounds names width = some b) {i : ℕ}
    (hi : names.getD i [] ≠ []) : b.Covers (i % width) (i / width) := by
  have hlt : i < names.length := by
    by_contra hge
    exact hi (getD_of_le (not_lt.mp hge))
  obtain ⟨c, hc, hcov⟩ := (boundsLoop_spec names 0 none hwidth).items i hlt hi
  obtain rfl := Option.some.inj (h.symm.trans hc)
  simpa using hcov

theorem fits_of_bounds (hwidth : 0 < width) (h : craftGetBounds names width = some b) :
    b.Fits width :=
  (boundsLoop_spec names 0 none hwidth).fits (fun _ hb => absurd hb (Option.not_mem_none _)) b h

/-! ## Comparing -/

theorem present_fillRows (width : ℕ) (names : List ByteString) :
    present (fillRows width names) = present names := by
  simp [present, fillRows, List.filter_append]

def translate (width width' : ℕ) (b c : Bounds) (i : ℕ) : ℕ :=
  (c.minY + (i / width - b.minY)) * width' + (c.minX + (i % width - b.minX))

def places (names : List ByteString) (name : ByteString) : Finset ℕ :=
  (Finset.range names.length).filter fun i => names.getD i [] = name

theorem map_getD_range (names : List ByteString) :
    (List.range names.length).map (fun i => names.getD i []) = names := by
  refine List.ext_getElem (by simp) fun i _ hi => ?_
  simp [List.getD_eq_getElem?_getD, List.getElem?_eq_getElem hi]

theorem card_places (names : List ByteString) (name : ByteString) :
    (places names name).card = names.count name := by
  have hcount : names.count name =
      ((List.range names.length).filter fun i => names.getD i [] = name).length := by
    conv_lhs => rw [← map_getD_range names, List.count_eq_countP, List.countP_map]
    rw [List.countP_eq_length_filter]
    refine congrArg List.length (List.filter_congr fun i _ => ?_)
    exact Bool.beq_eq_decide_eq (names.getD i []) name
  rw [hcount, ← List.toFinset_card_of_nodup (List.nodup_range.filter _)]
  congr 1
  ext i
  simp [places]

theorem mem_places {names : List ByteString} {name : ByteString} (hname : name ≠ []) {i : ℕ} :
    i ∈ places names name ↔ names.getD i [] = name := by
  rw [places, Finset.mem_filter, Finset.mem_range]
  refine ⟨fun h => h.2, fun h => ⟨?_, h⟩⟩
  by_contra hge
  exact hname (h ▸ getD_of_le (not_lt.mp hge))

theorem translate_spec (hc : c.Fits width') (hsize : b.SameSize c) {i : ℕ}
    (h : b.Covers (i % width) (i / width)) :
    translate width width' b c i % width' = c.minX + (i % width - b.minX) ∧
      translate width width' b c i / width' = c.minY + (i / width - b.minY) := by
  obtain ⟨hminX, hmaxX, -, -⟩ := h
  obtain ⟨hcx, -, hrow⟩ := hc
  have hdx := hsize.x
  have hlt : c.minX + (i % width - b.minX) < width' := by omega
  unfold translate
  rw [Nat.mul_comm]
  exact ⟨by rw [Nat.mul_add_mod, Nat.mod_eq_of_lt hlt],
    by rw [Nat.mul_add_div (Nat.zero_lt_of_lt hrow), Nat.div_eq_of_lt hlt, Nat.add_zero]⟩

theorem translate_translate (hc : c.Fits width') (hsize : b.SameSize c) {i : ℕ}
    (h : b.Covers (i % width) (i / width)) :
    translate width' width c b (translate width width' b c i) = i := by
  obtain ⟨hmod, hdiv⟩ := translate_spec hc hsize h
  have hminX := h.minX
  have hminY := h.minY
  have hx : b.minX + (c.minX + (i % width - b.minX) - c.minX) = i % width := by omega
  have hy : b.minY + (c.minY + (i / width - b.minY) - c.minY) = i / width := by omega
  rw [translate, hmod, hdiv, hx, hy, Nat.mul_comm]
  exact Nat.div_add_mod i width

def SameCells (names names' : List ByteString) (width width' : ℕ) (b c : Bounds) : Prop :=
  ∀ y ≤ b.maxY - b.minY, ∀ x ≤ b.maxX - b.minX,
    cell names width (b.minX + x) (b.minY + y) = cell names' width' (c.minX + x) (c.minY + y)

variable {names' : List ByteString}

theorem Bounds.SameSize.symm (h : b.SameSize c) : c.SameSize b := ⟨h.x.symm, h.y.symm⟩

theorem SameCells.symm (h : SameCells names names' width width' b c) (hsize : b.SameSize c) :
    SameCells names' names width' width c b := fun y hy x hx =>
  (h y (hsize.y ▸ hy) x (hsize.x ▸ hx)).symm

theorem SameCells.getD_translate (h : SameCells names names' width width' b c) {i : ℕ}
    (hcov : b.Covers (i % width) (i / width)) :
    names'.getD (translate width width' b c i) [] = names.getD i [] := by
  obtain ⟨hminX, hmaxX, hminY, hmaxY⟩ := hcov
  have heq := h (i / width - b.minY) (by omega) (i % width - b.minX) (by omega)
  rw [Nat.add_sub_cancel' hminX, Nat.add_sub_cancel' hminY, cell, cell, Nat.mul_comm (i / width),
    Nat.div_add_mod i width] at heq
  rw [heq]
  rfl

theorem present_perm (hb : craftGetBounds names width = some b)
    (hc : craftGetBounds names' width' = some c) (hwidth : 0 < width) (hwidth' : 0 < width')
    (hsize : b.SameSize c) (h : SameCells names names' width width' b c) :
    (present names).Perm (present names') := by
  refine List.perm_iff_count.mpr fun name => ?_
  by_cases hname : name = []
  · subst hname
    have hnone : ∀ l, (present l).count [] = 0 := fun l =>
      List.count_eq_zero.mpr (by simp [present])
    rw [hnone, hnone]
  have hcount : ∀ l : List ByteString, (present l).count name = (places l name).card := by
    intro l
    rw [card_places, present, List.count_filter (by simpa using hname)]
  rw [hcount, hcount]
  refine Finset.card_nbij' (translate width width' b c) (translate width' width c b)
    (fun i hi => ?_) (fun i hi => ?_) (fun i hi => ?_) (fun i hi => ?_)
  all_goals
    have hi := (mem_places hname).mp hi
  · have hcov := covers_of_bounds hwidth hb (hi ▸ hname)
    exact (mem_places hname).mpr ((h.getD_translate hcov).trans hi)
  · have hcov := covers_of_bounds hwidth' hc (hi ▸ hname)
    exact (mem_places hname).mpr (((h.symm hsize).getD_translate hcov).trans hi)
  · exact translate_translate (fits_of_bounds hwidth' hc) hsize
      (covers_of_bounds hwidth hb (hi ▸ hname))
  · exact translate_translate (fits_of_bounds hwidth hb) hsize.symm
      (covers_of_bounds hwidth' hc (hi ▸ hname))

namespace CraftDefinitionShaped

variable {gamedef : GameDef} {d : CraftDefinitionShaped} {input : CraftInput}

/-- The rectangles of an input and of a recipe that match. -/
theorem bounds_of_check (hcheck : d.check gamedef input = true) :
    0 < input.width ∧ 0 < d.width ∧ ∃ b c,
      craftGetBounds (fillRows input.width input.itemNames) input.width = some b ∧
      craftGetBounds (fillRows d.width (d.recipeNames gamedef)) d.width = some c ∧
      b.SameSize c ∧
      ∀ y ≤ b.maxY - b.minY, ∀ x ≤ b.maxX - b.minX, inputItemMatchesRecipe gamedef
        (cell (fillRows input.width input.itemNames) input.width (b.minX + x) (b.minY + y))
        (cell (fillRows d.width (d.recipeNames gamedef)) d.width (c.minX + x) (c.minY + y)) =
          true := by
  dsimp only [check] at hcheck
  split_ifs at hcheck with hmethod hwidth hwidth'
  · split at hcheck <;> exact absurd hcheck Bool.false_ne_true
  cases hb : craftGetBounds (fillRows input.width input.itemNames) input.width with
  | none => simp [hb] at hcheck
  | some b =>
    cases hc : craftGetBounds (fillRows d.width (d.recipeNames gamedef)) d.width with
    | none => simp [hb, hc] at hcheck
    | some c =>
      simp only [hb, hc] at hcheck
      split_ifs at hcheck with hsize
      rw [not_or, not_not, not_not] at hsize
      refine ⟨Nat.pos_of_ne_zero hwidth, Nat.pos_of_ne_zero hwidth', b, c, rfl, rfl,
        ⟨hsize.1, hsize.2⟩, fun y hy x hx => ?_⟩
      have hrow := List.all_eq_true.mp hcheck y (List.mem_range.mpr (Nat.lt_succ_of_le hy))
      exact List.all_eq_true.mp hrow x (List.mem_range.mpr (Nat.lt_succ_of_le hx))

theorem isGroupRecipeStr_cell (hgroup : hasGroupItem names = false) (width x y : ℕ) :
    isGroupRecipeStr (cell (fillRows width names) width x y) = false := by
  have hnil : isGroupRecipeStr [] = false := by decide
  have hall : ∀ name ∈ fillRows width names, isGroupRecipeStr name = false := by
    intro name hname
    rcases List.mem_append.mp hname with hmem | hmem
    · exact Bool.eq_false_iff.mpr fun h => Bool.eq_false_iff.mp hgroup
        (List.any_eq_true.mpr ⟨name, hmem, h⟩)
    · rw [(List.mem_replicate.mp hmem).2]
      exact hnil
  rw [cell, List.getD_eq_getElem?_getD]
  cases hget : (fillRows width names)[y * width + x]? with
  | none => exact hnil
  | some name => exact hall name (List.mem_of_getElem? hget)

/-- Without groups, the input has the items of the recipe. -/
theorem present_perm_of_check (hcheck : d.check gamedef input = true)
    (hgroup : hasGroupItem (d.recipeNames gamedef) = false) :
    (present (d.recipeNames gamedef)).Perm input.filtered := by
  obtain ⟨hwidth, hwidth', b, c, hb, hc, hsize, hcells⟩ := bounds_of_check hcheck
  have hsame : SameCells (fillRows input.width input.itemNames)
      (fillRows d.width (d.recipeNames gamedef)) input.width d.width b c := fun y hy x hx =>
    (matches_iff_eq (isGroupRecipeStr_cell hgroup ..)).mp (hcells y hy x hx)
  have hperm := present_perm hb hc hwidth hwidth' hsize hsame
  rw [present_fillRows, present_fillRows, present_itemNames] at hperm
  exact hperm.symm

end CraftDefinitionShaped

/-! `CraftDefinitionShaped::check` is exact: it accepts an input if and only if the bounding boxes
of the input and of the recipe have the same size and match cell by cell. Where in its grid either
of them stands makes no difference. -/

def grid (names : List ByteString) (width : ℕ) : Pattern ByteString := fun x y =>
  if 0 ≤ x ∧ x < width ∧ 0 ≤ y then cell names width x.toNat y.toNat else []

def Bounds.box (b : Bounds) : Box := ⟨b.minX, b.maxX, b.minY, b.maxY⟩

/-- There are items at every side of the rectangle. -/
structure Bounds.Tight (item : ℕ → ℕ → Prop) (b : Bounds) : Prop where
  minX : ∃ y, item b.minX y
  maxX : ∃ y, item b.maxX y
  minY : ∃ x, item x b.minY
  maxY : ∃ x, item x b.maxY

variable {item : ℕ → ℕ → Prop} {b c : Bounds} {width width' x y : ℕ} {names : List ByteString}
  {bounds : Option Bounds}

/-! ## The grid of a list -/

theorem grid_of_nat (hx : x < width) : grid names width x y = cell names width x y := by
  rw [grid, if_pos (by omega), Int.toNat_natCast, Int.toNat_natCast]

theorem grid_ne {i j : ℤ} (h : grid names width i j ≠ []) :
    ∃ x y : ℕ, i = x ∧ j = y ∧ x < width ∧ cell names width x y ≠ [] := by
  unfold grid at h
  split_ifs at h with hin
  · exact ⟨i.toNat, j.toNat, by omega, by omega, by omega, h⟩
  · exact absurd rfl h

theorem getD_append_blank (names : List ByteString) (n i : ℕ) :
    (names ++ List.replicate n []).getD i [] = names.getD i [] := by
  rw [List.getD_eq_getElem?_getD, List.getD_eq_getElem?_getD]
  rcases lt_or_ge i names.length with hlt | hge
  · rw [List.getElem?_append_left hlt]
  · rw [List.getElem?_append_right hge, List.getElem?_eq_none hge, List.getElem?_replicate]
    split_ifs <;> rfl

theorem cell_fillRows (width : ℕ) (names : List ByteString) (w x y : ℕ) :
    cell (fillRows width names) w x y = cell names w x y :=
  getD_append_blank names _ _

theorem grid_fillRows (width : ℕ) (names : List ByteString) :
    grid (fillRows width names) width = grid names width := by
  funext x y
  rw [grid, grid, cell_fillRows]

/-! ## The bounds are tight -/

theorem Bounds.Tight.extend (h : b.Tight item) (hitem : item x y) : (b.extend x y).Tight item := by
  obtain ⟨h₁, h₂, h₃, h₄⟩ := h
  constructor <;> dsimp only [Bounds.extend] <;> split_ifs
  · exact ⟨y, hitem⟩
  · exact h₁
  · exact ⟨y, hitem⟩
  · exact h₂
  · exact ⟨x, hitem⟩
  · exact h₃
  · exact ⟨x, hitem⟩
  · exact h₄

theorem tight_addCell {name : ByteString} (hitem : name ≠ [] → item x y)
    (h : ∀ b ∈ bounds, b.Tight item) : ∀ c ∈ addCell bounds name x y, c.Tight item := by
  intro c hc
  unfold addCell at hc
  split_ifs at hc with hname
  · exact h c hc
  · cases bounds with
    | none =>
      obtain rfl := Option.some.inj hc
      exact ⟨⟨y, hitem hname⟩, ⟨y, hitem hname⟩, ⟨x, hitem hname⟩, ⟨x, hitem hname⟩⟩
    | some b =>
      obtain rfl := Option.some.inj hc
      exact (h b rfl).extend (hitem hname)

theorem tight_boundsLoop (names : List ByteString) (y : ℕ) (bounds : Option Bounds)
    (hx : x < width)
    (hitem : ∀ k, names.getD k [] ≠ [] → item ((x + k) % width) (y + (x + k) / width))
    (h : ∀ b ∈ bounds, b.Tight item) : ∀ c ∈ boundsLoop width names x y bounds, c.Tight item := by
  induction names generalizing x y bounds with
  | nil => exact h
  | cons name names ih =>
    have hfirst : name ≠ [] → item x y := by
      intro hname
      have hzero := hitem 0 hname
      rwa [Nat.add_zero, Nat.mod_eq_of_lt hx, Nat.div_eq_of_lt hx] at hzero
    have hrest : ∀ {x' y'}, NextCell width x y x' y' → ∀ k, names.getD k [] ≠ [] →
        item ((x' + k) % width) (y' + (x' + k) / width) := by
      intro x' y' hnext k hk
      rw [hnext.mod, hnext.div]
      exact hitem (k + 1) hk
    have hadd := tight_addCell hfirst h
    rw [boundsLoop]
    split_ifs with hwrap
    · have hnext := nextCell_wrap (y := y) hwrap
      exact ih _ _ hnext.lt (hrest hnext) hadd
    · have hnext := nextCell_right (y := y) hx hwrap
      exact ih _ _ hnext.lt (hrest hnext) hadd

theorem tight_of_bounds (hwidth : 0 < width) (h : craftGetBounds names width = some b) :
    b.Tight fun x y => x < width ∧ cell names width x y ≠ [] := by
  refine tight_boundsLoop names 0 none hwidth (fun k hk => ?_)
    (fun b hb => absurd hb (Option.not_mem_none b)) b h
  rw [Nat.zero_add, Nat.zero_add, cell, Nat.mul_comm, Nat.div_add_mod k width]
  exact ⟨Nat.mod_lt k hwidth, hk⟩

/-- Where an item of the grid is in the list. -/
theorem covers_of_cell (hx : x < width) (h : craftGetBounds names width = some b)
    (hitem : cell names width x y ≠ []) : b.Covers x y := by
  have hcov := covers_of_bounds (Nat.zero_lt_of_lt hx) h hitem
  rwa [Nat.mul_comm, Nat.mul_add_mod, Nat.mod_eq_of_lt hx, Nat.mul_add_div (Nat.zero_lt_of_lt hx),
    Nat.div_eq_of_lt hx, Nat.add_zero] at hcov

/-- `craftGetBounds` finds the bounding box of the grid. -/
theorem bounds_box (hwidth : 0 < width) (h : craftGetBounds names width = some b) :
    b.box.Bounds [] (grid names width) := by
  obtain ⟨⟨y₁, h₁⟩, ⟨y₂, h₂⟩, ⟨x₃, h₃⟩, ⟨x₄, h₄⟩⟩ := tight_of_bounds hwidth h
  refine ⟨fun i j hij => ?_, ⟨y₁, ?_⟩, ⟨y₂, ?_⟩, ⟨x₃, ?_⟩, ⟨x₄, ?_⟩⟩
  · obtain ⟨x, y, rfl, rfl, hx, hitem⟩ := grid_ne hij
    obtain ⟨hminX, hmaxX, hminY, hmaxY⟩ := covers_of_cell hx h hitem
    dsimp only [Bounds.box]
    omega
  all_goals
    dsimp only [Bounds.box]
    rw [grid_of_nat (by tauto)]
    tauto

/-- A grid without an item has no bounding box. -/
theorem craftGetBounds_of_box (hwidth : 0 < width) {box : Box}
    (h : box.Bounds [] (grid names width)) :
    ∃ b, craftGetBounds names width = some b ∧ b.box = box := by
  obtain ⟨j, hj⟩ := h.left
  obtain ⟨x, y, -, -, hx, hitem⟩ := grid_ne hj
  cases hb : craftGetBounds names width with
  | none =>
    have hlt : y * width + x < names.length := by
      by_contra hge
      exact hitem (getD_of_le (not_lt.mp hge))
    obtain ⟨c, hc, -⟩ := (boundsLoop_spec names 0 none hwidth).items _ hlt hitem
    exact absurd (hb.symm.trans hc) (Option.some_ne_none c).symm
  | some b => exact ⟨b, rfl, (bounds_box hwidth hb).unique h⟩

theorem width_pos_of_box {box : Box} (h : box.Bounds [] (grid names width)) : 0 < width := by
  obtain ⟨j, hj⟩ := h.left
  obtain ⟨x, y, -, -, hx, -⟩ := grid_ne hj
  exact Nat.zero_lt_of_lt hx

theorem sameSize_box (hb : b.Fits width) (hc : c.Fits width') :
    b.box.SameSize c.box ↔ b.SameSize c := by
  obtain ⟨hbx, hby, -⟩ := hb
  obtain ⟨hcx, hcy, -⟩ := hc
  constructor
  · rintro ⟨hw, hh⟩
    dsimp only [Bounds.box] at hw hh
    exact ⟨by omega, by omega⟩
  · rintro ⟨hw, hh⟩
    constructor <;> dsimp only [Bounds.box] <;> omega

/-! ## Moving and padding -/

/-! ## Checking -/

namespace CraftDefinitionShaped

variable {gamedef : GameDef} {d : CraftDefinitionShaped} {input : CraftInput}

def Accepts (gamedef : GameDef) (d : CraftDefinitionShaped) (input : CraftInput) : Prop :=
  Overlay (fun inp rec => inputItemMatchesRecipe gamedef inp rec = true) [] []
    (grid input.itemNames input.width) (grid (d.recipeNames gamedef) d.width)

theorem accepts_of_check (h : d.check gamedef input = true) : d.Accepts gamedef input := by
  obtain ⟨hwidth, hwidth', b, c, hb, hc, hsize, hcells⟩ := bounds_of_check h
  have hfb := fits_of_bounds hwidth hb
  have hfc := fits_of_bounds hwidth' hc
  have hbox := bounds_box hwidth hb
  have hbox' := bounds_box hwidth' hc
  rw [grid_fillRows] at hbox hbox'
  refine ⟨b.box, c.box, hbox, hbox', (sameSize_box hfb hfc).mpr hsize, fun i j hi hi' hj hj' => ?_⟩
  dsimp only [Bounds.box] at hi' hj' ⊢
  obtain ⟨x, rfl⟩ := Int.eq_ofNat_of_zero_le hi
  obtain ⟨y, rfl⟩ := Int.eq_ofNat_of_zero_le hj
  have hcell := hcells y (by omega) x (by omega)
  have hx := hsize.x
  have hrow := hfb.row
  obtain ⟨hcx, hcy, hrow'⟩ := hfc
  rw [cell_fillRows, cell_fillRows] at hcell
  rwa [← Int.natCast_add, ← Int.natCast_add, ← Int.natCast_add, ← Int.natCast_add,
    grid_of_nat (by omega), grid_of_nat (by omega)]

theorem check_of_accepts (hmethod : input.method = .normal) (h : d.Accepts gamedef input) :
    d.check gamedef input = true := by
  obtain ⟨box, box', hbox, hbox', hsize, hcells⟩ := h
  have hwidth := width_pos_of_box hbox
  have hwidth' := width_pos_of_box hbox'
  rw [← grid_fillRows] at hbox hbox'
  obtain ⟨b, hb, rfl⟩ := craftGetBounds_of_box hwidth hbox
  obtain ⟨c, hc, rfl⟩ := craftGetBounds_of_box hwidth' hbox'
  have hfb := fits_of_bounds hwidth hb
  have hfc := fits_of_bounds hwidth' hc
  have hsame := (sameSize_box hfb hfc).mp hsize
  have hsizeX := hsame.x
  have hsizeY := hsame.y
  obtain ⟨hbx, hby, hrow⟩ := hfb
  obtain ⟨hcx, hcy, hrow'⟩ := hfc
  simp only [check, hmethod, hb, hc, ne_eq, not_true_eq_false, if_false, hwidth.ne', hwidth'.ne']
  rw [if_neg (by omega), List.all_eq_true]
  intro y hy
  rw [List.all_eq_true]
  intro x hx
  have hy := List.mem_range.mp hy
  have hx := List.mem_range.mp hx
  have hcell := hcells x y (by omega) (by dsimp only [Bounds.box]; omega) (by omega)
    (by dsimp only [Bounds.box]; omega)
  dsimp only [Bounds.box] at hcell
  rw [cell_fillRows, cell_fillRows]
  rwa [← Int.natCast_add, ← Int.natCast_add, ← Int.natCast_add, ← Int.natCast_add,
    grid_of_nat (by omega), grid_of_nat (by omega)] at hcell

theorem method_of_check (h : d.check gamedef input = true) : input.method = .normal := by
  by_contra hmethod
  rw [check, if_pos hmethod] at h
  exact Bool.false_ne_true h

theorem check_iff : d.check gamedef input = true ↔
    input.method = .normal ∧ d.Accepts gamedef input :=
  ⟨fun h => ⟨method_of_check h, accepts_of_check h⟩, fun h => check_of_accepts h.1 h.2⟩

/-- An input is accepted if and only if its bounding box and that of the recipe have the same size
and match cell by cell. Moving the pattern of either, or padding it with empty cells, changes
nothing. -/
theorem check_exact (gamedef : GameDef) (d : CraftDefinitionShaped) (input : CraftInput) :
    (d.check gamedef input = true ↔
      input.method = .normal ∧
        Overlay (fun inp rec => inputItemMatchesRecipe gamedef inp rec = true) [] []
          (grid input.itemNames input.width) (grid (d.recipeNames gamedef) d.width)) ∧
    ∀ (d' : CraftDefinitionShaped) (input' : CraftInput), input'.method = input.method →
      Shifted (grid input.itemNames input.width) (grid input'.itemNames input'.width) →
      Shifted (grid (d.recipeNames gamedef) d.width) (grid (d'.recipeNames gamedef) d'.width) →
      d'.check gamedef input' = d.check gamedef input := by
  refine ⟨check_iff, fun d' input' hmethod hinput hrecipe => ?_⟩
  rw [Bool.eq_iff_iff, check_iff, check_iff, hmethod, Accepts, Accepts,
    overlay_congr hinput hrecipe]

end CraftDefinitionShaped

end Freeminer.Craft
