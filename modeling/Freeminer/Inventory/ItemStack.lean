import Mathlib.Data.Finmap
import Freeminer.Lib.Result
import Freeminer.Util.Serialize

/-! `ItemStack` (`inventory.h`): an item name with a count, a wear and metadata. Counts are
16-bit; a sum that wraps is a fault, as is a failed assertion. -/

namespace Freeminer.Inventory

inductive ItemType where
  | none | node | craft | tool
  deriving DecidableEq

/-- What the inventory and the craft code read of an item definition. -/
structure ItemDefinition where
  type : ItemType := .none
  stackMax : UInt16 := 99
  groups : List (ByteString × ℤ) := []

/-- `IItemDefManager`: the definition of every name (a fallback for unknown ones), and aliases. -/
structure ItemDefManager where
  get : ByteString → ItemDefinition
  getAlias : ByteString → ByteString := id

/-- `ItemStackMetadata`: its string variables. -/
abbrev Metadata := Finmap fun _ : ByteString => ByteString

structure ItemStack where
  name : ByteString := []
  count : UInt16 := 0
  wear : UInt16 := 0
  metadata : Metadata := ∅
  deriving DecidableEq

inductive Fault where
  | countWraps
  | assertion
  deriving DecidableEq

namespace ItemStack

def empty (s : ItemStack) : Bool := s.count == 0

def add (s : ItemStack) (n : UInt16) : Except Fault ItemStack :=
  if s.count.toNat + n.toNat < 65536 then .ok { s with count := s.count + n }
  else .error .countWraps

def remove (s : ItemStack) (n : UInt16) : Except Fault ItemStack :=
  if s.count < n then .error .assertion
  else
    let s := { s with count := s.count - n }
    .ok (if s.count = 0 then {} else s)

def getStackMax (idef : ItemDefManager) (s : ItemStack) : UInt16 := (idef.get s.name).stackMax

def freeSpace (idef : ItemDefManager) (s : ItemStack) : UInt16 :=
  let max := s.getStackMax idef
  if s.count ≥ max then 0 else max - s.count

/-- `addItem`: what is left of `newitem`, and the stack. -/
def addItem (idef : ItemDefManager) (s newitem : ItemStack) :
    Except Fault (ItemStack × ItemStack) :=
  if newitem.empty then .ok (newitem, s)
  else if s.empty then .ok ({}, newitem)
  else if s.name ≠ newitem.name ∨ s.metadata ≠ newitem.metadata then .ok (newitem, s)
  else if newitem.count ≤ s.freeSpace idef then do
    let s ← s.add newitem.count
    pure ({}, s)
  else do
    let freespace := s.freeSpace idef
    let s ← s.add freespace
    let newitem ← newitem.remove freespace
    pure (newitem, s)

/-- `itemFits`: whether `newitem` fits, and what would be left of it. -/
def itemFits (idef : ItemDefManager) (s newitem : ItemStack) : Except Fault (Bool × ItemStack) :=
  if newitem.empty then .ok (true, newitem)
  else if s.empty then .ok (true, {})
  else if s.name ≠ newitem.name ∨ s.metadata ≠ newitem.metadata then .ok (false, newitem)
  else if newitem.count ≤ s.freeSpace idef then .ok (true, {})
  else do
    let newitem ← newitem.remove (s.freeSpace idef)
    pure (newitem.empty, newitem)

/-- `takeItem`: what is taken, and the stack. -/
def takeItem (s : ItemStack) (takecount : UInt32) : Except Fault (ItemStack × ItemStack) :=
  if takecount = 0 ∨ s.count = 0 then .ok ({}, s)
  else if takecount.toNat ≥ s.count.toNat then .ok (s, {})
  else do
    let rest ← s.remove takecount.toUInt16
    pure ({ s with count := takecount.toUInt16 }, rest)

/-! ## Kinds and counts -/

abbrev Kind := ByteString × Metadata

def kind (s : ItemStack) : Kind := (s.name, s.metadata)

def countOf (k : Kind) (s : ItemStack) : ℕ := if s.kind = k then s.count.toNat else 0

def WellFormed (s : ItemStack) : Prop := s.count = 0 → s.name = []

/-- How many of `n` items of a kind a stack takes. -/
def room (idef : ItemDefManager) (s : ItemStack) (k : Kind) (n : ℕ) : ℕ :=
  if s.count = 0 then n
  else if s.kind = k then min n (s.freeSpace idef).toNat
  else 0

abbrev roomFor (idef : ItemDefManager) (s newitem : ItemStack) : ℕ :=
  room idef s newitem.kind newitem.count.toNat

variable {idef : ItemDefManager} {s s' t newitem : ItemStack} {k : Kind}

@[simp] theorem empty_iff : s.empty = true ↔ s.count = 0 := by simp [empty]

@[simp] theorem countOf_default (k : Kind) : countOf k {} = 0 := by simp [countOf]

theorem wellFormed_default : WellFormed {} := fun _ => rfl

theorem countOf_of_count (h : s.count = 0) (k : Kind) : countOf k s = 0 := by
  simp [countOf, h]

theorem kind_eq_iff : s.kind = t.kind ↔ s.name = t.name ∧ s.metadata = t.metadata := by
  simp [kind]

theorem room_le (idef : ItemDefManager) (s : ItemStack) (k : Kind) (n : ℕ) :
    room idef s k n ≤ n := by
  unfold room
  split_ifs <;> omega

@[simp] theorem room_zero (idef : ItemDefManager) (s : ItemStack) (k : Kind) :
    room idef s k 0 = 0 := Nat.le_zero.mp (room_le idef s k 0)

theorem roomFor_eq {n : ℕ} (hcount : newitem.count.toNat = n)
    (hkind : newitem.count ≠ 0 → newitem.kind = k) : roomFor idef s newitem = room idef s k n := by
  subst hcount
  by_cases h0 : newitem.count = 0
  · simp [roomFor, h0]
  · rw [roomFor, hkind h0]

theorem toNat_freeSpace_le (idef : ItemDefManager) (s : ItemStack) :
    s.count.toNat + (s.freeSpace idef).toNat < 65536 := by
  have h1 := s.count.toNat_lt
  unfold freeSpace
  dsimp only
  split_ifs with hmax
  · simpa using h1
  · have hle : s.count ≤ s.getStackMax idef := UInt16.le_of_lt (UInt16.not_le.mp hmax)
    have h2 := (s.getStackMax idef).toNat_lt
    rw [UInt16.toNat_sub_of_le _ _ hle]
    have := UInt16.le_iff_toNat_le.mp hle
    omega

/-- What is left after `n` items are removed. -/
theorem remove_spec {n : UInt16} (h : n ≤ s.count) :
    ∃ s', s.remove n = .ok s' ∧ s'.count.toNat = s.count.toNat - n.toNat ∧
      (s'.count ≠ 0 → s'.kind = s.kind) ∧ s'.WellFormed := by
  unfold remove
  rw [if_neg (UInt16.not_lt.mpr h)]
  have hsub := UInt16.toNat_sub_of_le _ _ h
  refine ⟨_, rfl, ?_, ?_, ?_⟩ <;> dsimp only <;> split_ifs with h0
  · rw [← hsub, h0]
  · exact hsub
  · exact fun hne => absurd rfl hne
  · exact fun _ => rfl
  · exact wellFormed_default
  · exact fun h => absurd h h0

theorem add_spec {n : UInt16} (h : s.count.toNat + n.toNat < 65536) :
    ∃ s', s.add n = .ok s' ∧ s'.count.toNat = s.count.toNat + n.toNat ∧ s'.kind = s.kind := by
  unfold add
  rw [if_pos h]
  refine ⟨_, rfl, ?_, rfl⟩
  rw [UInt16.toNat_add, Nat.mod_eq_of_lt h]

/-- Items of the same kind move from one stack to another. -/
theorem countOf_move {a b c d : ItemStack} (hsum : c.count.toNat + d.count.toNat =
    a.count.toNat + b.count.toNat) (ha : a.count ≠ 0 → a.kind = b.kind)
    (hc : c.count ≠ 0 → c.kind = b.kind) (hd : d.count ≠ 0 → d.kind = b.kind) (k : Kind) :
    countOf k c + countOf k d = countOf k a + countOf k b := by
  have hcount : ∀ x : ItemStack, (x.count ≠ 0 → x.kind = b.kind) →
      countOf k x = if b.kind = k then x.count.toNat else 0 := by
    intro x hx
    by_cases h0 : x.count = 0
    · simp [countOf, h0]
    · rw [countOf, hx h0]
  rw [hcount a ha, hcount c hc, hcount d hd, countOf]
  split_ifs
  · exact hsum
  · rfl

/-- All that `addItem` does. -/
structure Added (idef : ItemDefManager) (s newitem left s' : ItemStack) : Prop where
  left_count : left.count.toNat = newitem.count.toNat - roomFor idef s newitem
  count : s'.count.toNat = s.count.toNat + roomFor idef s newitem
  countOf_eq : ∀ k, countOf k s' + countOf k left = countOf k s + countOf k newitem
  left_kind : left.count ≠ 0 → left.kind = newitem.kind
  kind : s.count ≠ 0 → s'.kind = s.kind
  kind_new : s'.count ≠ 0 → s.count ≠ 0 ∨ newitem.count ≠ 0 ∧ s'.kind = newitem.kind
  wellFormed : s.WellFormed → newitem.WellFormed → s'.WellFormed ∧ left.WellFormed

theorem addItem_spec (idef : ItemDefManager) (s newitem : ItemStack) :
    ∃ left s', s.addItem idef newitem = .ok (left, s') ∧ Added idef s newitem left s' := by
  unfold addItem
  split_ifs with hnew hempty hkind hfits
  · rw [empty_iff] at hnew
    have hroom : roomFor idef s newitem = 0 := by
      simp [roomFor, hnew]
    exact ⟨_, _, rfl, by simp [hroom], by simp [hroom], fun k => rfl, fun _ => rfl, fun _ => rfl,
      .inl, fun hs hn => ⟨hs, hn⟩⟩
  · rw [empty_iff] at hempty
    have hroom : roomFor idef s newitem = newitem.count.toNat := by rw [roomFor, room, if_pos hempty]
    refine ⟨_, _, rfl, by simp [hroom], by simp [hroom, hempty], fun k => ?_, fun h => absurd rfl h,
      fun h => absurd hempty h, fun h => .inr ⟨h, rfl⟩, fun hs hn => ⟨hn, wellFormed_default⟩⟩
    rw [countOf_of_count hempty, countOf_default, Nat.add_comm]
  · have hroom : roomFor idef s newitem = 0 := by
      rw [roomFor, room, if_neg (by simpa using hempty), if_neg]
      rw [kind_eq_iff]
      tauto
    exact ⟨_, _, rfl, by simp [hroom], by simp [hroom], fun k => rfl, fun _ => rfl, fun _ => rfl,
      .inl, fun hs hn => ⟨hs, hn⟩⟩
  · rw [empty_iff] at hempty hnew
    have hsame : s.kind = newitem.kind := by
      rw [kind_eq_iff]
      tauto
    have hle := UInt16.le_iff_toNat_le.mp hfits
    have hroom : roomFor idef s newitem = newitem.count.toNat := by
      rw [roomFor, room, if_neg hempty, if_pos hsame, Nat.min_eq_left hle]
    have hfree := toNat_freeSpace_le idef s
    obtain ⟨s', hadd, hcount, hkind'⟩ := add_spec (s := s) (n := newitem.count) (by omega)
    rw [hadd]
    refine ⟨_, _, rfl, by simp [hroom], by rw [hroom, hcount], fun k => ?_, fun h => absurd rfl h,
      fun _ => hkind', fun _ => .inl hempty, fun hs hn => ⟨fun h0 => ?_, wellFormed_default⟩⟩
    · refine countOf_move ?_ (fun _ => hsame) (fun _ => hkind'.trans hsame) (fun h => absurd rfl h) k
      rw [hcount]
      rfl
    · rw [← UInt16.toNat_inj] at h0 hempty
      simp only [UInt16.toNat_zero] at h0 hempty
      omega
  · rw [empty_iff] at hempty hnew
    have hsame : s.kind = newitem.kind := by
      rw [kind_eq_iff]
      tauto
    have hlt := UInt16.lt_iff_toNat_lt.mp (UInt16.not_le.mp hfits)
    have hroom : roomFor idef s newitem = (s.freeSpace idef).toNat := by
      rw [roomFor, room, if_neg hempty, if_pos hsame, Nat.min_eq_right hlt.le]
    have hfree := toNat_freeSpace_le idef s
    obtain ⟨s', hadd, hcount, hkind'⟩ := add_spec (s := s) (n := s.freeSpace idef) hfree
    obtain ⟨left, hremove, hleft, hleftkind, hwf⟩ :=
      remove_spec (s := newitem) (n := s.freeSpace idef) (UInt16.le_iff_toNat_le.mpr hlt.le)
    dsimp only
    rw [hadd, hremove]
    refine ⟨_, _, rfl, by rw [hleft, hroom], by rw [hcount, hroom], fun k => ?_, hleftkind,
      fun _ => hkind', fun _ => .inl hempty, fun hs hn => ⟨fun h0 => ?_, hwf⟩⟩
    · refine countOf_move ?_ (fun _ => hsame) (fun _ => hkind'.trans hsame) hleftkind k
      omega
    · rw [← UInt16.toNat_inj] at h0 hempty
      simp only [UInt16.toNat_zero] at h0 hempty
      omega

/-- `itemFits` says what `addItem` would leave. -/
theorem itemFits_spec (idef : ItemDefManager) (s newitem : ItemStack) :
    ∃ fits rest, s.itemFits idef newitem = .ok (fits, rest) ∧ (fits = true ↔ rest.count = 0) ∧
      rest.count.toNat = newitem.count.toNat - roomFor idef s newitem := by
  unfold itemFits
  split_ifs with hnew hempty hkind hfits
  · rw [empty_iff] at hnew
    exact ⟨_, _, rfl, by simp [hnew], by simp [hnew]⟩
  · rw [empty_iff] at hempty
    exact ⟨_, _, rfl, by simp, by simp [roomFor, room, hempty]⟩
  · rw [empty_iff] at hempty hnew
    refine ⟨_, _, rfl, by simp [hnew], ?_⟩
    rw [roomFor, room, if_neg hempty, if_neg (by rw [kind_eq_iff]; tauto), Nat.sub_zero]
  · rw [empty_iff] at hempty hnew
    refine ⟨_, _, rfl, by simp, ?_⟩
    rw [roomFor, room, if_neg hempty, if_pos (by rw [kind_eq_iff]; tauto),
      Nat.min_eq_left (UInt16.le_iff_toNat_le.mp hfits)]
    simp
  · rw [empty_iff] at hempty hnew
    have hlt := UInt16.lt_iff_toNat_lt.mp (UInt16.not_le.mp hfits)
    obtain ⟨left, hremove, hleft, -, -⟩ :=
      remove_spec (s := newitem) (n := s.freeSpace idef) (UInt16.le_iff_toNat_le.mpr hlt.le)
    rw [hremove]
    refine ⟨_, _, rfl, empty_iff, ?_⟩
    rw [roomFor, room, if_neg hempty, if_pos (by rw [kind_eq_iff]; tauto), Nat.min_eq_right hlt.le, hleft]

/-- `n` of the items are taken. -/
structure Taken (s : ItemStack) (n : ℕ) (taken rest : ItemStack) : Prop where
  le : n ≤ s.count.toNat
  taken_count : taken.count.toNat = n
  rest_count : rest.count.toNat = s.count.toNat - n
  countOf_eq : ∀ k, countOf k rest + countOf k taken = countOf k s
  taken_kind : taken.count ≠ 0 → taken.kind = s.kind
  rest_kind : rest.count ≠ 0 → rest.kind = s.kind
  wellFormed : s.WellFormed → rest.WellFormed ∧ taken.WellFormed

theorem taken_all (s : ItemStack) : Taken s s.count.toNat s {} where
  le := le_rfl
  taken_count := rfl
  rest_count := by simp
  countOf_eq k := by simp
  taken_kind _ := rfl
  rest_kind h := absurd rfl h
  wellFormed hs := ⟨wellFormed_default, hs⟩

theorem takeItem_spec (s : ItemStack) (n : UInt32) :
    ∃ taken rest, s.takeItem n = .ok (taken, rest) ∧
      Taken s (min n.toNat s.count.toNat) taken rest := by
  unfold takeItem
  split_ifs with h0 hall
  · have hmin : min n.toNat s.count.toNat = 0 := by
      rcases h0 with h0 | h0 <;> simp [h0]
    rw [hmin]
    exact ⟨_, _, rfl, by omega, rfl, rfl, fun k => by simp, fun h => absurd rfl h, fun _ => rfl,
      fun hs => ⟨hs, wellFormed_default⟩⟩
  · rw [Nat.min_eq_right hall]
    exact ⟨_, _, rfl, taken_all s⟩
  · have hlt := s.count.toNat_lt
    have hn : n.toUInt16.toNat = n.toNat := by
      rw [UInt32.toNat_toUInt16]
      omega
    obtain ⟨rest, hremove, hrest, hkind, hwf⟩ := remove_spec (s := s) (n := n.toUInt16)
      (by rw [UInt16.le_iff_toNat_le, hn]; omega)
    rw [hremove, Nat.min_eq_left (by omega)]
    refine ⟨_, _, rfl, by omega, hn, by omega, fun k => ?_, fun _ => rfl, hkind,
      fun hs => ⟨hwf, fun h => ?_⟩⟩
    · have hmove := countOf_move (a := {}) (b := s) (c := rest)
        (d := { s with count := n.toUInt16 }) (by simp only [UInt16.toNat_zero]; omega)
        (fun h => absurd rfl h) hkind (fun _ => rfl) k
      simpa using hmove
    · have h' : n.toUInt16 = 0 := h
      rw [← UInt16.toNat_inj, hn, UInt16.toNat_zero] at h'
      exact absurd (.inl (UInt32.toNat_inj.mp h')) h0

end ItemStack

end Freeminer.Inventory
