import Freeminer.Block.MapNode

/-! The light of the nodes of a map: what is stored of it in a `MapNode`, what a node does to light
by its content, and the nodes of the blocks that are loaded. -/

namespace Freeminer.Voxel

open Block (MapNode Content)

def LIGHT_MAX : ℕ := 14

def LIGHT_SUN : ℕ := 15

def MAP_BLOCKSIZE : ℤ := 16

/-- `v3pos_t`, and `v3bpos_t` for the position of a block. -/
structure V3 where
  X : ℤ
  Y : ℤ
  Z : ℤ
  deriving DecidableEq

namespace V3

instance : Add V3 := ⟨fun a b => ⟨a.X + b.X, a.Y + b.Y, a.Z + b.Z⟩⟩

theorem add_def (a b : V3) : a + b = ⟨a.X + b.X, a.Y + b.Y, a.Z + b.Z⟩ := rfl

end V3

inductive LightBank where
  | day
  | night
  deriving DecidableEq

/-- What registered content does to light: light passes through what can store it. -/
structure ContentLightingFlags where
  lightSource : ℕ
  hasLight : Bool
  lightPropagates : Bool
  sunlightPropagates : Bool
  hasLight_eq : hasLight = lightPropagates
  lightSource_le : lightSource ≤ LIGHT_MAX
  deriving DecidableEq

/-- The four bits of `param1` for a bank. -/
def LightBank.bits (bank : LightBank) (param1 : UInt8) : UInt8 :=
  match bank with
  | .day => param1 &&& (0x0f : UInt8)
  | .night => (param1 >>> 4) &&& (0x0f : UInt8)

def LightBank.setBits (bank : LightBank) (param1 light : UInt8) : UInt8 :=
  match bank with
  | .day => (param1 &&& (0xf0 : UInt8)) ||| (light &&& (0x0f : UInt8))
  | .night => (param1 &&& (0x0f : UInt8)) ||| ((light &&& (0x0f : UInt8)) <<< 4)

def getLightRaw (n : MapNode) (bank : LightBank) (f : ContentLightingFlags) : ℕ :=
  if f.hasLight then (bank.bits n.param1).toNat else 0

def getLight (n : MapNode) (bank : LightBank) (f : ContentLightingFlags) : ℕ :=
  max f.lightSource (getLightRaw n bank f)

def setLight (n : MapNode) (bank : LightBank) (light : ℕ) (f : ContentLightingFlags) : MapNode :=
  if f.hasLight then { n with param1 := bank.setBits n.param1 (UInt8.ofNat light) } else n

section Stored

variable {n : MapNode} {bank bank' : LightBank} {light : ℕ} {f : ContentLightingFlags}

@[simp] theorem setLight_param0 (n : MapNode) (bank : LightBank) (light : ℕ)
    (f : ContentLightingFlags) : (setLight n bank light f).param0 = n.param0 := by
  unfold setLight
  split_ifs <;> rfl

theorem bits_le (bank : LightBank) (p : UInt8) : (bank.bits p).toNat ≤ LIGHT_SUN := by
  cases bank with
  | day =>
    rw [LightBank.bits, UInt8.toNat_and]
    exact Nat.and_le_right
  | night =>
    rw [LightBank.bits, UInt8.toNat_and]
    exact Nat.and_le_right

theorem getLightRaw_le (n : MapNode) (bank : LightBank) (f : ContentLightingFlags) :
    getLightRaw n bank f ≤ LIGHT_SUN := by
  unfold getLightRaw
  split_ifs
  · exact bits_le bank n.param1
  · exact Nat.zero_le _

theorem getLight_le (n : MapNode) (bank : LightBank) (f : ContentLightingFlags) :
    getLight n bank f ≤ LIGHT_SUN :=
  max_le (f.lightSource_le.trans (by decide)) (getLightRaw_le n bank f)

/-- Setting one half of a byte leaves the other. -/
theorem bits_setBits_fin : ∀ (p : Fin 256) (a : Fin 16),
    (LightBank.day.bits (LightBank.day.setBits (UInt8.ofNat p) (UInt8.ofNat a))).toNat = a ∧
      LightBank.night.bits (LightBank.day.setBits (UInt8.ofNat p) (UInt8.ofNat a)) =
        LightBank.night.bits (UInt8.ofNat p) ∧
      LightBank.day.bits (LightBank.night.setBits (UInt8.ofNat p) (UInt8.ofNat a)) =
        LightBank.day.bits (UInt8.ofNat p) ∧
      (LightBank.night.bits (LightBank.night.setBits (UInt8.ofNat p) (UInt8.ofNat a))).toNat = a := by
  decide +kernel

theorem bits_setBits (h : light ≤ LIGHT_SUN) (bank bank' : LightBank) (p : UInt8) :
    (bank'.bits (bank.setBits p (UInt8.ofNat light))).toNat =
      if bank' = bank then light else (bank'.bits p).toNat := by
  have hall := bits_setBits_fin ⟨p.toNat, p.toNat_lt⟩ ⟨light, Nat.lt_succ_of_le h⟩
  simp only [UInt8.ofNat_toNat] at hall
  obtain ⟨hdd, hnd, hdn, hnn⟩ := hall
  cases bank <;> cases bank'
  · exact hdd
  · exact congrArg UInt8.toNat hnd
  · exact congrArg UInt8.toNat hdn
  · exact hnn

theorem getLightRaw_setLight (h : light ≤ LIGHT_SUN) :
    getLightRaw (setLight n bank light f) bank' f =
      if bank' = bank ∧ f.hasLight = true then light else getLightRaw n bank' f := by
  unfold getLightRaw setLight
  by_cases hf : f.hasLight = true
  · rw [if_pos hf, if_pos hf, if_pos hf, bits_setBits h]
    simp [hf]
  · rw [if_neg hf, if_neg hf, if_neg fun hand => hf hand.2]

theorem getLightRaw_of_shut (h : f.lightPropagates = false) : getLightRaw n bank f = 0 := by
  rw [getLightRaw, f.hasLight_eq, h]
  rfl

end Stored

/-! ### Positions -/

/-- `neighbor_dirs`; opposite directions add up to 5. -/
def neighborDirs : ℕ → V3
  | 0 => ⟨1, 0, 0⟩
  | 1 => ⟨0, 1, 0⟩
  | 2 => ⟨0, 0, 1⟩
  | 3 => ⟨0, 0, -1⟩
  | 4 => ⟨0, -1, 0⟩
  | 5 => ⟨-1, 0, 0⟩
  | _ => ⟨0, 0, 0⟩

def directions : List ℕ := [0, 1, 2, 3, 4, 5]

/-- The relative position and the block of the node next to one in a direction. -/
def stepRelBlockPos (dir : ℕ) (rel block : V3) : V3 × V3 :=
  match dir with
  | 0 =>
    if rel.X < MAP_BLOCKSIZE - 1 then ({ rel with X := rel.X + 1 }, block)
    else ({ rel with X := 0 }, { block with X := block.X + 1 })
  | 1 =>
    if rel.Y < MAP_BLOCKSIZE - 1 then ({ rel with Y := rel.Y + 1 }, block)
    else ({ rel with Y := 0 }, { block with Y := block.Y + 1 })
  | 2 =>
    if rel.Z < MAP_BLOCKSIZE - 1 then ({ rel with Z := rel.Z + 1 }, block)
    else ({ rel with Z := 0 }, { block with Z := block.Z + 1 })
  | 3 =>
    if rel.Z > 0 then ({ rel with Z := rel.Z - 1 }, block)
    else ({ rel with Z := MAP_BLOCKSIZE - 1 }, { block with Z := block.Z - 1 })
  | 4 =>
    if rel.Y > 0 then ({ rel with Y := rel.Y - 1 }, block)
    else ({ rel with Y := MAP_BLOCKSIZE - 1 }, { block with Y := block.Y - 1 })
  | 5 =>
    if rel.X > 0 then ({ rel with X := rel.X - 1 }, block)
    else ({ rel with X := MAP_BLOCKSIZE - 1 }, { block with X := block.X - 1 })
  | _ => (rel, block)

def getNodeBlockPos (p : V3) : V3 :=
  ⟨p.X / MAP_BLOCKSIZE, p.Y / MAP_BLOCKSIZE, p.Z / MAP_BLOCKSIZE⟩

/-- The offset that `getNodeBlockPosWithOffset` gives. -/
def relPos (p : V3) : V3 := ⟨p.X % MAP_BLOCKSIZE, p.Y % MAP_BLOCKSIZE, p.Z % MAP_BLOCKSIZE⟩

def nodePos (block rel : V3) : V3 :=
  ⟨block.X * MAP_BLOCKSIZE + rel.X, block.Y * MAP_BLOCKSIZE + rel.Y, block.Z * MAP_BLOCKSIZE + rel.Z⟩

def InBlock (rel : V3) : Prop :=
  (0 ≤ rel.X ∧ rel.X < MAP_BLOCKSIZE) ∧ (0 ≤ rel.Y ∧ rel.Y < MAP_BLOCKSIZE) ∧
    (0 ≤ rel.Z ∧ rel.Z < MAP_BLOCKSIZE)

section Positions

variable {p rel block : V3} {dir : ℕ}

theorem inBlock_relPos (p : V3) : InBlock (relPos p) := by
  have h : ∀ x : ℤ, 0 ≤ x % MAP_BLOCKSIZE ∧ x % MAP_BLOCKSIZE < MAP_BLOCKSIZE := fun x =>
    ⟨Int.emod_nonneg x (by decide), Int.emod_lt_of_pos x (by decide)⟩
  exact ⟨h _, h _, h _⟩

theorem nodePos_relPos (p : V3) : nodePos (getNodeBlockPos p) (relPos p) = p := by
  have h : ∀ x : ℤ, x / MAP_BLOCKSIZE * MAP_BLOCKSIZE + x % MAP_BLOCKSIZE = x := fun x =>
    Int.ediv_mul_add_emod x MAP_BLOCKSIZE
  simp [nodePos, getNodeBlockPos, relPos, h]

theorem getNodeBlockPos_nodePos (h : InBlock rel) : getNodeBlockPos (nodePos block rel) = block := by
  obtain ⟨⟨hx, hx'⟩, ⟨hy, hy'⟩, hz, hz'⟩ := h
  have hdiv : ∀ b x : ℤ, 0 ≤ x → x < MAP_BLOCKSIZE → (b * MAP_BLOCKSIZE + x) / MAP_BLOCKSIZE = b := by
    intro b x h0 hlt
    unfold MAP_BLOCKSIZE at *
    omega
  simp [nodePos, getNodeBlockPos, *]

theorem relPos_nodePos (h : InBlock rel) : relPos (nodePos block rel) = rel := by
  obtain ⟨⟨hx, hx'⟩, ⟨hy, hy'⟩, hz, hz'⟩ := h
  have hmod : ∀ b x : ℤ, 0 ≤ x → x < MAP_BLOCKSIZE → (b * MAP_BLOCKSIZE + x) % MAP_BLOCKSIZE = x := by
    intro b x h0 hlt
    unfold MAP_BLOCKSIZE at *
    omega
  simp [nodePos, relPos, *]

theorem neighborDirs_opposite (h : dir < 6) (p : V3) :
    p + neighborDirs dir + neighborDirs (5 - dir) = p := by
  rw [V3.add_def, V3.add_def]
  interval_cases dir <;> simp [neighborDirs]

/-- A step inside blocks is a step on the map. -/
theorem stepRelBlockPos_spec (h : InBlock rel) (hdir : dir < 6) (block : V3) :
    InBlock (stepRelBlockPos dir rel block).1 ∧
      nodePos (stepRelBlockPos dir rel block).2 (stepRelBlockPos dir rel block).1 =
        nodePos block rel + neighborDirs dir := by
  unfold InBlock nodePos at *
  rw [V3.add_def]
  interval_cases dir
  all_goals
    simp only [stepRelBlockPos, neighborDirs, V3.mk.injEq]
    split_ifs with hc
    · simp only [MAP_BLOCKSIZE] at *
      omega
    · simp only [MAP_BLOCKSIZE] at *
      omega

end Positions

end Freeminer.Voxel
