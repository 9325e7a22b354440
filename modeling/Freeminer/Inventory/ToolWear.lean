import Mathlib.Order.Iterate
import Mathlib.Tactic.Ring
import Freeminer.Inventory.ItemStack

/-! The wear of a tool (`tool.cpp`, `ItemStack::addWear`): the 65536 points of wear are split into
one block for each use, the normal blocks first and then those that are one point larger. -/

namespace Freeminer.Inventory

section Blocks

variable (uses : UInt32)

def wear_normal : UInt32 := 65536 / uses

def blocks_oversize : UInt16 := (65536 % uses).toUInt16

def blocks_normal : UInt16 := (uses - (blocks_oversize uses).toUInt32).toUInt16

def wear_extra_at : UInt16 := ((blocks_normal uses).toUInt32 * wear_normal uses).toUInt16

def calculateResultWear (initial_wear : UInt16) : UInt32 :=
  if uses = 0 then 0
  else
    let wear_extra : UInt16 :=
      if 0 < blocks_oversize uses ∧ wear_extra_at uses ≤ initial_wear then 1 else 0
    wear_normal uses + wear_extra.toUInt32

end Blocks

namespace ItemStack

variable (idef : ItemDefManager)

def addWear (s : ItemStack) (amount : ℤ) : ItemStack × Bool :=
  if (idef.get s.name).type = .tool then
    if 65535 - (s.wear.toNat : ℤ) < amount then ({}, true)
    else if amount < -(s.wear.toNat : ℤ) then ({ s with wear := 0 }, true)
    else ({ s with wear := UInt16.ofNat (s.wear.toNat + amount).toNat }, true)
  else (s, false)

def applyUse (uses : UInt32) (s : ItemStack) : ItemStack :=
  (s.addWear idef (calculateResultWear uses s.wear).toNat).1

/-- The tool is gone after `k` uses and not before. -/
def DestroyedAt (uses : UInt32) (s : ItemStack) (k : ℕ) : Prop :=
  (applyUse idef uses)^[k] s = {} ∧ ∀ i < k, (applyUse idef uses)^[i] s ≠ {}

end ItemStack

/-! The same in exact numbers. -/

def wearAfter (n v : ℕ) : ℕ :=
  v + (65536 / n + if 0 < 65536 % n ∧ (n - 65536 % n) * (65536 / n) ≤ v then 1 else 0)

variable {n v : ℕ}

theorem blocks_add (n : ℕ) (hn : 0 < n) :
    (n - 65536 % n) * (65536 / n) + 65536 % n * (65536 / n + 1) = 65536 := by
  have hle := (Nat.mod_lt 65536 hn).le
  calc (n - 65536 % n) * (65536 / n) + 65536 % n * (65536 / n + 1)
      = (n - 65536 % n + 65536 % n) * (65536 / n) + 65536 % n := by ring
    _ = n * (65536 / n) + 65536 % n := by rw [Nat.sub_add_cancel hle]
    _ = 65536 := Nat.div_add_mod 65536 n

theorem wearAfter_mono (n : ℕ) : Monotone (wearAfter n) := by
  intro u v huv
  unfold wearAfter
  split_ifs <;> omega

theorem lt_wearAfter (hn : 0 < n) (hle : n ≤ 65536) (v : ℕ) : v < wearAfter n v := by
  have := Nat.div_pos hle hn
  unfold wearAfter
  omega

/-- From a new tool: the normal blocks, then the oversized ones. -/
theorem wearAfter_iterate (hn : 0 < n) (hle : n ≤ 65536) {k : ℕ} (hk : k ≤ n) :
    (wearAfter n)^[k] 0 = k * (65536 / n) + (k - (n - 65536 % n)) := by
  induction k with
  | zero => simp
  | succ k ih =>
    have hpos := Nat.div_pos hle hn
    have hmod := Nat.mod_lt 65536 hn
    rw [Function.iterate_succ_apply', ih (by omega), wearAfter, Nat.add_mul]
    by_cases hlt : k < n - 65536 % n
    · have hmul := Nat.mul_le_mul_right (65536 / n) hlt
      rw [Nat.succ_mul] at hmul
      rw [if_neg (by omega)]
      omega
    · have hmul := Nat.mul_le_mul_right (65536 / n) (Nat.le_of_not_lt hlt)
      rw [if_pos (by omega)]
      omega

theorem wearAfter_full (hn : 0 < n) (hle : n ≤ 65536) : (wearAfter n)^[n] 0 = 65536 := by
  have hmod := Nat.mod_lt 65536 hn
  have hdiv := Nat.div_add_mod 65536 n
  rw [wearAfter_iterate hn hle le_rfl]
  omega

/-! No step of the computation wraps. -/

section Wraps

variable {uses : UInt32} (hpos : 0 < uses.toNat) (hle : uses.toNat ≤ 65535)
include hpos hle

theorem toNat_blocks_oversize : (blocks_oversize uses).toNat = 65536 % uses.toNat := by
  have := Nat.mod_lt 65536 hpos
  simp only [blocks_oversize, UInt32.toNat_toUInt16, UInt32.toNat_mod, UInt32.reduceToNat]
  omega

theorem toNat_blocks_normal :
    (blocks_normal uses).toNat = uses.toNat - 65536 % uses.toNat := by
  have := Nat.mod_lt 65536 hpos
  have hb := toNat_blocks_oversize hpos hle
  simp only [blocks_normal, UInt32.toNat_toUInt16, UInt32.toNat_sub, UInt16.toNat_toUInt32, hb]
  omega

theorem toNat_wear_extra_at (hover : 0 < 65536 % uses.toNat) :
    (wear_extra_at uses).toNat = (uses.toNat - 65536 % uses.toNat) * (65536 / uses.toNat) := by
  have hadd := blocks_add uses.toNat hpos
  have hb := toNat_blocks_normal hpos hle
  have hmul : 0 < 65536 % uses.toNat * (65536 / uses.toNat + 1) := Nat.mul_pos hover (Nat.succ_pos _)
  have hlt := (Nat.lt_add_of_pos_right hmul).trans_eq hadd
  simp only [wear_extra_at, wear_normal, UInt32.toNat_toUInt16, UInt32.toNat_mul,
    UInt16.toNat_toUInt32, UInt32.toNat_div, UInt32.reduceToNat, hb]
  rw [Nat.mod_eq_of_lt (hlt.trans (by decide)), Nat.mod_eq_of_lt hlt]

theorem toNat_calculateResultWear (w : UInt16) :
    w.toNat + (calculateResultWear uses w).toNat = wearAfter uses.toNat w.toNat := by
  have hne : uses ≠ 0 := by
    intro h0
    simp [h0] at hpos
  have hdiv := Nat.div_le_self 65536 uses.toNat
  have hb := toNat_blocks_oversize hpos hle
  unfold calculateResultWear wearAfter
  rw [if_neg hne]
  by_cases hover : 0 < 65536 % uses.toNat
  · have he := toNat_wear_extra_at hpos hle hover
    simp only [UInt16.lt_iff_toNat_lt, UInt16.le_iff_toNat_le, hb, he, UInt16.toNat_zero]
    split_ifs
    · simp [wear_normal]
      omega
    · simp [wear_normal]
  · simp only [UInt16.lt_iff_toNat_lt, hb, UInt16.toNat_zero]
    rw [if_neg (by omega), if_neg (by omega)]
    simp [wear_normal]

end Wraps

namespace ItemStack

variable {idef : ItemDefManager} {uses : UInt32} {s : ItemStack}

theorem applyUse_eq (hpos : 0 < uses.toNat) (hle : uses.toNat ≤ 65535)
    (htool : (idef.get s.name).type = .tool) :
    s.applyUse idef uses = if wearAfter uses.toNat s.wear.toNat < 65536 then
      { s with wear := UInt16.ofNat (wearAfter uses.toNat s.wear.toNat) } else {} := by
  have hw := toNat_calculateResultWear hpos hle s.wear
  unfold applyUse addWear
  rw [if_pos htool]
  split_ifs with h1 h2 h3 <;> first | omega | rfl | skip
  · rw [← hw]
    rfl

theorem applyUse_iterate (hpos : 0 < uses.toNat) (hle : uses.toNat ≤ 65535)
    (htool : (idef.get s.name).type = .tool) {k : ℕ}
    (hk : (wearAfter uses.toNat)^[k] s.wear.toNat < 65536) :
    (applyUse idef uses)^[k] s =
      { s with wear := UInt16.ofNat ((wearAfter uses.toNat)^[k] s.wear.toNat) } := by
  induction k with
  | zero => simp
  | succ k ih =>
    rw [Function.iterate_succ_apply'] at hk ⊢
    have hlt := lt_wearAfter hpos (by omega) ((wearAfter uses.toNat)^[k] s.wear.toNat)
    have hnat := UInt16.toNat_ofNat_of_lt' (hlt.trans hk)
    rw [ih (hlt.trans hk), applyUse_eq hpos hle (by exact htool), hnat, if_pos hk,
      Function.iterate_succ_apply']

theorem destroyedAt_of_full (hpos : 0 < uses.toNat) (hle : uses.toNat ≤ 65535)
    (htool : (idef.get s.name).type = .tool) (hs : s.count ≠ 0) {k : ℕ}
    (hk : (wearAfter uses.toNat)^[k] s.wear.toNat < 65536)
    (hfull : 65536 ≤ (wearAfter uses.toNat)^[k + 1] s.wear.toNat) :
    s.DestroyedAt idef uses (k + 1) := by
  have hmono : ∀ i ≤ k, (wearAfter uses.toNat)^[i] s.wear.toNat < 65536 := fun i hi =>
    ((wearAfter_mono _).monotone_iterate_of_le_map (lt_wearAfter hpos (by omega) _).le
      hi).trans_lt hk
  constructor
  · rw [Function.iterate_succ_apply'] at hfull ⊢
    rw [applyUse_iterate hpos hle htool hk, applyUse_eq hpos hle (by exact htool),
      UInt16.toNat_ofNat_of_lt' hk, if_neg (by omega)]
  · intro i hi h0
    rw [applyUse_iterate hpos hle htool (hmono i (by omega))] at h0
    exact hs (congrArg ItemStack.count h0)

/-- A tool with any number of uses: a new one is destroyed by exactly the last of them, any other
no later, and no intermediate value wraps. -/
theorem tool_lasts (idef : ItemDefManager) {uses : UInt32} (hpos : 0 < uses.toNat)
    (hle : uses.toNat ≤ 65535) :
    (∀ s : ItemStack, (idef.get s.name).type = .tool → s.count ≠ 0 →
      (s.wear = 0 → s.DestroyedAt idef uses uses.toNat) ∧
      ∃ k ≤ uses.toNat, s.DestroyedAt idef uses k) ∧
    (wear_normal uses).toNat = 65536 / uses.toNat ∧
    (blocks_oversize uses).toNat = 65536 % uses.toNat ∧
    (blocks_normal uses).toNat = uses.toNat - (blocks_oversize uses).toNat ∧
    (0 < blocks_oversize uses →
      (wear_extra_at uses).toNat = (blocks_normal uses).toNat * (wear_normal uses).toNat) ∧
    ∀ w : UInt16, w.toNat + (calculateResultWear uses w).toNat = wearAfter uses.toNat w.toNat := by
  have hb := toNat_blocks_oversize hpos hle
  have hn := toNat_blocks_normal hpos hle
  refine ⟨fun s htool hs => ?_, by simp [wear_normal], hb, by rw [hn, hb], fun h => ?_,
    toNat_calculateResultWear hpos hle⟩
  · have hfull : 65536 ≤ (wearAfter uses.toNat)^[uses.toNat] s.wear.toNat := by
      rw [← wearAfter_full hpos (by omega)]
      exact (wearAfter_mono _).iterate _ (Nat.zero_le _)
    refine ⟨fun h0 => ?_, ?_⟩
    · obtain ⟨k, hk⟩ : ∃ k, uses.toNat = k + 1 := ⟨uses.toNat - 1, by omega⟩
      have hlast := wearAfter_full hpos (by omega : uses.toNat ≤ 65536)
      have hlt := lt_wearAfter hpos (by omega) ((wearAfter uses.toNat)^[k] 0)
      rw [← Function.iterate_succ_apply' (wearAfter uses.toNat) k, Nat.succ_eq_add_one, ← hk,
        hlast] at hlt
      have hz : s.wear.toNat = 0 := by rw [h0]; rfl
      have hd := destroyedAt_of_full hpos hle htool hs (k := k) (by rw [hz]; exact hlt)
        (by rw [← hk]; exact hfull)
      rwa [← hk] at hd
    · classical
      have hex : ∃ k, 65536 ≤ (wearAfter uses.toNat)^[k] s.wear.toNat := ⟨_, hfull⟩
      obtain ⟨k, hk⟩ : ∃ k, Nat.find hex = k + 1 := by
        have hne : Nat.find hex ≠ 0 := by
          intro h0
          have := Nat.find_spec hex
          rw [h0] at this
          have := s.wear.toNat_lt
          simp at *
          omega
        exact Nat.exists_eq_succ_of_ne_zero hne
      have hmin := Nat.find_min hex (m := k) (by omega)
      have hspec := Nat.find_spec hex
      rw [hk] at hspec
      exact ⟨k + 1, hk ▸ Nat.find_min' hex hfull,
        destroyedAt_of_full hpos hle htool hs (by omega) hspec⟩
  · rw [UInt16.lt_iff_toNat_lt, hb] at h
    rw [toNat_wear_extra_at hpos hle h, hn]
    simp [wear_normal]

def everyTool : ItemDefManager := { get := fun _ => { type := .tool } }

/-- 65536 points in 130 blocks, from a new tool. -/
theorem tool_lasts_130 :
    ({ name := [112], count := 1 } : ItemStack).DestroyedAt everyTool 130 130 :=
  ((@tool_lasts everyTool 130 (by decide) (by decide)).1 _ rfl (by decide)).1 rfl

end ItemStack

end Freeminer.Inventory
