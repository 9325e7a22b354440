import Freeminer.Craft.CraftAction

/-! `craftDecrementOrReplaceInput`: what becomes of each slot of the grid, and where the replacement
of each pair goes. -/

namespace Freeminer.Craft

open Lib Inventory

/-- A slot: its stack before and after, the place in the list of the pair that it uses, and the
replacement that goes elsewhere. -/
structure SlotChange where
  before : ItemStack
  pair : Option ℕ
  after : ItemStack
  apart : List ItemStack

def lessOne (s : ItemStack) : ItemStack :=
  if s.count = 1 then {} else { s with count := s.count - 1 }

/-- One item is taken from a stack that is not empty. A pair that fits is used for it at most. -/
inductive SlotChange.Valid (gamedef : GameDef) (pairs : CraftReplacements) : SlotChange → Prop
  | empty {s : ItemStack} (h : s.count = 0) : Valid gamedef pairs ⟨s, none, s, []⟩
  | taken {s : ItemStack} (h : s.count ≠ 0) : Valid gamedef pairs ⟨s, none, lessOne s, []⟩
  | replaced {s : ItemStack} {k : ℕ} {item replacement : ByteString} (h : s.count = 1)
      (hk : pairs[k]? = some (item, replacement))
      (hmatch : inputItemMatchesRecipe gamedef s.name item = true) :
      Valid gamedef pairs ⟨s, some k, gamedef.deSerialize replacement, []⟩
  | apart {s : ItemStack} {k : ℕ} {item replacement : ByteString} (h : 1 < s.count)
      (hk : pairs[k]? = some (item, replacement))
      (hmatch : inputItemMatchesRecipe gamedef s.name item = true) :
      Valid gamedef pairs ⟨s, some k, lessOne s, [gamedef.deSerialize replacement]⟩

/-- Every slot is changed as it should be, and no pair is used twice. -/
structure Consumed (gamedef : GameDef) (items : List ItemStack) (pairs : CraftReplacements)
    (items' reps : List ItemStack) (changes : List SlotChange) : Prop where
  before : changes.map SlotChange.before = items
  after : changes.map SlotChange.after = items'
  apart : changes.flatMap SlotChange.apart = reps
  valid : ∀ c ∈ changes, c.Valid gamedef pairs
  once : (changes.filterMap SlotChange.pair).Nodup

def Consumes (gamedef : GameDef) (items : List ItemStack) (pairs : CraftReplacements) : Prop :=
  ∃ items' reps, craftDecrementOrReplaceInput gamedef items pairs = .ok (items', reps) ∧
    ∃ changes, Consumed gamedef items pairs items' reps changes

variable {gamedef : GameDef} {s s' : ItemStack} {items items' reps : List ItemStack}
  {pairs : CraftReplacements}

theorem remove_one (h : s.remove 1 = .ok s') : s.count ≠ 0 ∧ s' = lessOne s := by
  refine ⟨ne_zero_of_remove h, ?_⟩
  unfold ItemStack.remove at h
  split_ifs at h with hlt
  cases h
  unfold lessOne
  by_cases h1 : s.count = 1
  · simp [h1]
  · have h0 : s.count - 1 ≠ 0 := fun h => h1 (by rw [← UInt16.sub_add_cancel s.count 1, h]; rfl)
    rw [if_neg h0, if_neg h1]

theorem one_lt (h0 : s.count ≠ 0) (h1 : s.count ≠ 1) : 1 < s.count := by
  rw [UInt16.lt_iff_toNat_lt]
  have h0' : s.count.toNat ≠ 0 := fun h => h0 (UInt16.toNat_inj.mp h)
  have h1' : s.count.toNat ≠ 1 := fun h => h1 (UInt16.toNat_inj.mp h)
  change 1 < s.count.toNat
  omega

/-! ## The pairs that are left -/

/-- A stack takes the first pair that it matches. -/
theorem findReplacement_eq (name : ByteString) (pairs : CraftReplacements) :
    findReplacement gamedef name pairs =
      (pairs.find? fun p => inputItemMatchesRecipe gamedef name p.1).map fun p =>
        (p.2, pairs.eraseP fun p => inputItemMatchesRecipe gamedef name p.1) := by
  induction pairs with
  | nil => rfl
  | cons p pairs ih =>
    obtain ⟨item, replacement⟩ := p
    rw [findReplacement, ih]
    cases hmatch : inputItemMatchesRecipe gamedef name item with
    | true => simp [hmatch]
    | false => cases hfind : pairs.find? fun p => inputItemMatchesRecipe gamedef name p.1 <;>
        simp [hmatch, hfind]

/-- Pairs that are left, with their places in the list. -/
structure Places (pairs : CraftReplacements) (left : List (ℕ × ByteString × ByteString)) :
    Prop where
  nodup : (left.map Prod.fst).Nodup
  get : ∀ e ∈ left, pairs[e.1]? = some e.2

theorem places_all (pairs : CraftReplacements) :
    ∃ left : List (ℕ × ByteString × ByteString), left.map Prod.snd = pairs ∧ Places pairs left := by
  refine ⟨pairs.zipIdx.map Prod.swap, by simp [List.map_map, Function.comp_def], ?_, ?_⟩
  · have : (pairs.zipIdx.map Prod.swap).map Prod.fst = pairs.zipIdx.map Prod.snd := by
      simp [List.map_map, Function.comp_def]
    rw [this, List.zipIdx_map_snd]
    exact List.nodup_range'
  · intro e he
    obtain ⟨⟨p, k⟩, hmem, rfl⟩ := List.mem_map.mp he
    exact List.mem_zipIdx_iff_getElem?.mp hmem

theorem findReplacement_some {name : ByteString} {left : List (ℕ × ByteString × ByteString)}
    {replacement : ByteString} {rest : CraftReplacements}
    (h : findReplacement gamedef name (left.map Prod.snd) = some (replacement, rest)) :
    ∃ k item left', left.Perm ((k, item, replacement) :: left') ∧ left'.map Prod.snd = rest ∧
      inputItemMatchesRecipe gamedef name item = true := by
  induction left generalizing rest with
  | nil => cases h
  | cons e left ih =>
    obtain ⟨k, item, replacement'⟩ := e
    rw [List.map_cons, findReplacement] at h
    split_ifs at h with hmatch
    · cases h
      exact ⟨k, item, left, .refl _, rfl, hmatch⟩
    · obtain ⟨⟨r, rest'⟩, hfind, heq⟩ := Option.map_eq_some_iff.mp h
      cases heq
      obtain ⟨k', item', left', hperm, hrest, hmatch'⟩ := ih hfind
      refine ⟨k', item', (k, item, replacement') :: left', ?_, by simp [hrest], hmatch'⟩
      exact (hperm.cons _).trans (.swap _ _ _)

theorem Places.tail {left left' : List (ℕ × ByteString × ByteString)}
    {e : ℕ × ByteString × ByteString} (h : Places pairs left) (hperm : left.Perm (e :: left')) :
    pairs[e.1]? = some e.2 ∧ Places pairs left' ∧ e.1 ∉ left'.map Prod.fst ∧
      ∀ k ∈ left'.map Prod.fst, k ∈ left.map Prod.fst := by
  have hnodup := (hperm.map Prod.fst).nodup_iff.mp h.nodup
  rw [List.map_cons, List.nodup_cons] at hnodup
  refine ⟨h.get e (hperm.mem_iff.mpr (by simp)), ⟨hnodup.2, ?_⟩, hnodup.1, ?_⟩
  · intro e' he'
    exact h.get e' (hperm.mem_iff.mpr (List.mem_cons_of_mem _ he'))
  · intro k hk
    exact (hperm.map Prod.fst).mem_iff.mpr (List.mem_cons_of_mem _ hk)

/-! ## The loop -/

/-- A slot is put before the others. The pair that it uses is not among theirs. -/
theorem Consumed.cons {changes : List SlotChange} {c : SlotChange}
    (h : Consumed gamedef items pairs items' reps changes) (hc : c.Valid gamedef pairs)
    (hpair : ∀ k, c.pair = some k → k ∉ changes.filterMap SlotChange.pair) :
    Consumed gamedef (c.before :: items) pairs (c.after :: items') (c.apart ++ reps)
      (c :: changes) := by
  refine ⟨by simp [h.before], by simp [h.after], by simp [h.apart], ?_, ?_⟩
  · rw [List.forall_mem_cons]
    exact ⟨hc, h.valid⟩
  · cases hp : c.pair with
    | none => simpa [List.filterMap_cons, hp] using h.once
    | some k =>
      rw [List.filterMap_cons, hp, List.nodup_cons]
      exact ⟨hpair k hp, h.once⟩

theorem consumed_of_replaceLoop {left : List (ℕ × ByteString × ByteString)}
    (hleft : Places pairs left)
    (h : replaceLoop gamedef items (left.map Prod.snd) = .ok (items', reps)) :
    ∃ changes, Consumed gamedef items pairs items' reps changes ∧
      ∀ k ∈ changes.filterMap SlotChange.pair, k ∈ left.map Prod.fst := by
  induction items generalizing left items' reps with
  | nil =>
    cases h
    exact ⟨[], ⟨rfl, rfl, rfl, by simp, by simp⟩, by simp⟩
  | cons item items ih =>
    rw [replaceLoop] at h
    cases hfind : findReplacement gamedef item.name (left.map Prod.snd) with
    | none =>
      rw [hfind] at h
      dsimp only at h
      split_ifs at h with hpos
      · obtain ⟨item₁, hitem, hrest⟩ := bind_eq_ok.mp h
        obtain ⟨⟨items₁, reps₁⟩, hloop, hpure⟩ := bind_eq_ok.mp hrest
        cases hpure
        obtain ⟨changes, hconsumed, hused⟩ := ih hleft hloop
        obtain ⟨h0, rfl⟩ := remove_one hitem
        exact ⟨_, hconsumed.cons (.taken h0) (by simp), hused⟩
      · obtain ⟨item₁, hitem, hrest⟩ := bind_eq_ok.mp h
        cases hitem
        obtain ⟨⟨items₁, reps₁⟩, hloop, hpure⟩ := bind_eq_ok.mp hrest
        cases hpure
        obtain ⟨changes, hconsumed, hused⟩ := ih hleft hloop
        exact ⟨_, hconsumed.cons (.empty (by simpa using hpos)) (by simp), hused⟩
    | some found =>
      obtain ⟨replacement, rest⟩ := found
      rw [hfind] at h
      dsimp only at h
      obtain ⟨k, name, left', hperm, rfl, hmatch⟩ := findReplacement_some hfind
      obtain ⟨hk, hleft', hnotin, hsub⟩ := hleft.tail hperm
      have hmem : k ∈ left.map Prod.fst := by simpa using (hperm.map Prod.fst).mem_iff.mpr (by simp)
      split_ifs at h with hone
      · -- the replacement takes the place of the last item
        obtain ⟨⟨items₁, reps₁⟩, hloop, hpure⟩ := bind_eq_ok.mp h
        cases hpure
        obtain ⟨changes, hconsumed, hused⟩ := ih hleft' hloop
        refine ⟨_, hconsumed.cons (.replaced hone hk hmatch) ?_, ?_⟩
        · rintro k' ⟨⟩ hk'
          exact hnotin (hused k hk')
        · rw [List.filterMap_cons, List.forall_mem_cons]
          exact ⟨hmem, fun k' hk' => hsub k' (hused k' hk')⟩
      · obtain ⟨item₁, hremove, hrest⟩ := bind_eq_ok.mp h
        obtain ⟨⟨items₁, reps₁⟩, hloop, hpure⟩ := bind_eq_ok.mp hrest
        cases hpure
        obtain ⟨changes, hconsumed, hused⟩ := ih hleft' hloop
        obtain ⟨h0, rfl⟩ := remove_one hremove
        refine ⟨_, hconsumed.cons (.apart (one_lt h0 hone) hk hmatch) ?_, ?_⟩
        · rintro k' ⟨⟩ hk'
          exact hnotin (hused k hk')
        · rw [List.filterMap_cons, List.forall_mem_cons]
          exact ⟨hmem, fun k' hk' => hsub k' (hused k' hk')⟩

/-! ## Empty slots -/

/-- No empty slot matches a pair that the slots before it leave. Each of them takes the first pair
that it matches. -/
def EmptySlotsUnmatched (gamedef : GameDef) : List ItemStack → CraftReplacements → Prop
  | [], _ => True
  | item :: items, pairs =>
    (item.count = 0 → ∀ p ∈ pairs, inputItemMatchesRecipe gamedef item.name p.1 = false) ∧
      EmptySlotsUnmatched gamedef items
        (pairs.eraseP fun p => inputItemMatchesRecipe gamedef item.name p.1)

theorem remove_one_of_ne (h0 : s.count ≠ 0) : s.remove 1 = .ok (lessOne s) := by
  have hlt : ¬s.count < 1 := by
    rw [UInt16.lt_iff_toNat_lt]
    have h0' : s.count.toNat ≠ 0 := fun h => h0 (UInt16.toNat_inj.mp h)
    change ¬s.count.toNat < 1
    omega
  cases h : s.remove 1 with
  | ok s' => rw [(remove_one h).2]
  | error e => simp [ItemStack.remove, hlt] at h

theorem remove_one_of_eq (h0 : s.count = 0) : s.remove 1 = .error .assertion := by
  rw [ItemStack.remove, h0, if_pos (by decide)]

theorem eraseP_of_find?_none {name : ByteString}
    (h : (pairs.find? fun p => inputItemMatchesRecipe gamedef name p.1) = none) :
    (pairs.eraseP fun p => inputItemMatchesRecipe gamedef name p.1) = pairs :=
  List.eraseP_of_forall_not fun p hp => by simpa using List.find?_eq_none.mp h p hp

/-- The loop runs through exactly if no empty slot is to give an item. -/
theorem replaceLoop_isOk_iff :
    (∃ r, replaceLoop gamedef items pairs = .ok r) ↔ EmptySlotsUnmatched gamedef items pairs := by
  induction items generalizing pairs with
  | nil => simp [replaceLoop, EmptySlotsUnmatched]
  | cons item items ih =>
    rw [replaceLoop, EmptySlotsUnmatched, findReplacement_eq]
    cases hfind : pairs.find? fun p => inputItemMatchesRecipe gamedef item.name p.1 with
    | none =>
      have hnone : ∀ p ∈ pairs, inputItemMatchesRecipe gamedef item.name p.1 = false :=
        fun p hp => by simpa using List.find?_eq_none.mp hfind p hp
      rw [eraseP_of_find?_none hfind, ← ih]
      have hand : ∀ P : Prop, (item.count = 0 → ∀ p ∈ pairs,
          inputItemMatchesRecipe gamedef item.name p.1 = false) ∧ P ↔ P :=
        fun P => and_iff_right fun _ => hnone
      rw [hand]
      simp only [Option.map_none]
      by_cases h0 : item.count = 0
      · rw [if_neg (by simp [h0])]
        cases replaceLoop gamedef items pairs <;> simp [bind, Except.bind, pure, Except.pure]
      · rw [if_pos (UInt16.pos_iff_ne_zero.mpr h0), remove_one_of_ne h0]
        cases replaceLoop gamedef items pairs <;> simp [bind, Except.bind, pure, Except.pure]
    | some p =>
      have hmem := List.mem_of_find?_eq_some hfind
      have hmatch := List.find?_some hfind
      rw [← ih]
      simp only [Option.map_some]
      cases hloop : replaceLoop gamedef items
        (pairs.eraseP fun p => inputItemMatchesRecipe gamedef item.name p.1) with
      | error e =>
        by_cases h0 : item.count = 0
        · simp [h0, remove_one_of_eq h0, bind, Except.bind]
        · by_cases h1 : item.count = 1
          · simp [h1, bind, Except.bind]
          · simp [h1, remove_one_of_ne h0, bind, Except.bind]
      | ok r =>
        by_cases h0 : item.count = 0
        · simpa [h0, remove_one_of_eq h0, bind, Except.bind] using ⟨p.1, ⟨p.2, hmem⟩, hmatch⟩
        · by_cases h1 : item.count = 1
          · simp [h1, bind, Except.bind, pure, Except.pure]
          · simp [h0, h1, remove_one_of_ne h0, bind, Except.bind, pure, Except.pure]

end Freeminer.Craft
