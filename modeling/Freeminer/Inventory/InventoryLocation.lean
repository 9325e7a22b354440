import Freeminer.Database.MapKeys
import Freeminer.Inventory.ItemStackMetadata

/-! `InventoryLocation` (`inventorymanager.cpp`): where an inventory is, and its text. -/

namespace Freeminer.Inventory

open Lib Database
open Voxel (V3)

/-- `v3pos_t` -/
abbrev V3Pos (w : PosWidth) := { p : V3 // w.InRange p }

theorem inRange_bmod (w : PosWidth) (x y z : ℤ) :
    w.InRange ⟨x.bmod (2 ^ w.bits), y.bmod (2 ^ w.bits), z.bmod (2 ^ w.bits)⟩ := by
  have hrange (n : ℤ) : -2 ^ (w.bits - 1) ≤ n.bmod (2 ^ w.bits) ∧
      n.bmod (2 ^ w.bits) < 2 ^ (w.bits - 1) := by
    have hlo := Int.le_bmod (x := n) (m := 2 ^ w.bits) (by positivity)
    have hhi := Int.bmod_lt (x := n) (m := 2 ^ w.bits) (by positivity)
    cases w <;> simp only [PosWidth.bits] at hlo hhi ⊢ <;> omega
  exact ⟨hrange x, hrange y, hrange z⟩

def V3Pos.narrow (w : PosWidth) (x y z : ℤ) : V3Pos w :=
  ⟨⟨x.bmod (2 ^ w.bits), y.bmod (2 ^ w.bits), z.bmod (2 ^ w.bits)⟩, inRange_bmod w x y z⟩

inductive InventoryLocation (w : PosWidth) where
  | undefined
  | currentPlayer
  | player (name : ByteString)
  | nodemeta (p : V3Pos w)
  | detached (name : ByteString)
  deriving DecidableEq

namespace InventoryLocation

variable {w : PosWidth}

def serialize : InventoryLocation w → ByteString
  | undefined => bytes "undefined"
  | currentPlayer => bytes "current_player"
  | player name => bytes "player:" ++ name
  | nodemeta p =>
    bytes "nodemeta:" ++
      (decimalInt p.1.X ++ 44 :: (decimalInt p.1.Y ++ 44 :: decimalInt p.1.Z))
  | detached name => bytes "detached:" ++ name

/-- `deSerialize` into a fresh location: an unknown type leaves it undefined. -/
def deSerialize (w : PosWidth) (s : ByteString) : InventoryLocation w :=
  let (tname, is) := IStream.getline { rest := s } 58
  if tname = bytes "undefined" then undefined
  else if tname = bytes "current_player" then currentPlayer
  else if tname = bytes "player" then player (is.getline 10).1
  else if tname = bytes "nodemeta" then
    let (x, fn) := strfndNext 44 (is.getline 10).1
    let (y, fn) := strfndNext 44 fn
    let (z, _) := strfndNext 44 fn
    nodemeta (V3Pos.narrow w (stoi x) (stoi y) (stoi z))
  else if tname = bytes "detached" then detached (is.getline 10).1
  else undefined

end InventoryLocation

/-! ## Positions in text -/

section Text

variable {w : PosWidth}

theorem V3Pos.narrow_self (p : V3Pos w) : V3Pos.narrow w p.1.X p.1.Y p.1.Z = p := by
  obtain ⟨⟨X, Y, Z⟩, hX, hY, hZ⟩ := p
  have hself (n : ℤ) (h : -2 ^ (w.bits - 1) ≤ n ∧ n < 2 ^ (w.bits - 1)) :
      n.bmod (2 ^ w.bits) = n := by
    cases w <;> simp only [PosWidth.bits] at h ⊢ <;>
      exact Int.bmod_eq_of_le (by omega) (by omega)
  simp only [narrow, hself X hX, hself Y hY, hself Z hZ]

/-- Coordinates of any width are 32-bit integers. -/
theorem V3Pos.int32 (p : V3Pos w) : (-2 ^ 31 ≤ p.1.X ∧ p.1.X < 2 ^ 31) ∧
    (-2 ^ 31 ≤ p.1.Y ∧ p.1.Y < 2 ^ 31) ∧ (-2 ^ 31 ≤ p.1.Z ∧ p.1.Z < 2 ^ 31) := by
  obtain ⟨⟨X, Y, Z⟩, hX, hY, hZ⟩ := p
  cases w <;> simp only [PosWidth.bits] at hX hY hZ ⊢ <;> omega

/-- Three numbers between commas, however they are written, are a position. -/
theorem deSerialize_nodemeta {x y z : ByteString} (hx : 44 ∉ x ∧ 10 ∉ x) (hy : 44 ∉ y ∧ 10 ∉ y)
    (hz : 44 ∉ z ∧ 10 ∉ z) :
    InventoryLocation.deSerialize w (bytes "nodemeta:" ++ (x ++ 44 :: (y ++ 44 :: z))) =
      .nodemeta (V3Pos.narrow w (stoi x) (stoi y) (stoi z)) := by
  have hsplit : bytes "nodemeta:" ++ (x ++ 44 :: (y ++ 44 :: z)) =
      bytes "nodemeta" ++ 58 :: (x ++ 44 :: (y ++ 44 :: z)) := by
    rw [show bytes "nodemeta:" = bytes "nodemeta" ++ [58] by decide, List.append_assoc,
      List.singleton_append]
  have hline : (IStream.getline { rest := x ++ 44 :: (y ++ 44 :: z) } 10).1 =
      x ++ 44 :: (y ++ 44 :: z) := by
    have hnot : (10 : UInt8) ∉ x ++ 44 :: (y ++ 44 :: z) := by simp [hx, hy, hz]
    simp [IStream.getline, IStream.good, cut_of_notMem hnot]
  have hlast : strfndNext 44 z = (z, []) := by simp [strfndNext, cut_of_notMem hz.1]
  have htype : IStream.getline { rest := bytes "nodemeta" ++ 58 :: (x ++ 44 :: (y ++ 44 :: z)) } 58 =
      (bytes "nodemeta", { rest := x ++ 44 :: (y ++ 44 :: z) }) := by
    have hnot : (58 : UInt8) ∉ bytes "nodemeta" := by decide
    simp [IStream.getline, IStream.good, cut_append_cons hnot]
  unfold InventoryLocation.deSerialize
  rw [hsplit, htype]
  simp only [hline, Metadata.strfndNext_append hx.1, Metadata.strfndNext_append hy.1, hlast]
  rw [if_neg (by decide), if_neg (by decide), if_neg (by decide), if_pos trivial]

theorem InventoryLocation.deSerialize_serialize_nodemeta (p : V3Pos w) :
    deSerialize w (serialize (nodemeta p)) = nodemeta p := by
  have hcomma (n : ℤ) : 44 ∉ decimalInt n := notMem_decimalInt (by decide) (by decide) n
  have hnewline (n : ℤ) : 10 ∉ decimalInt n := notMem_decimalInt (by decide) (by decide) n
  obtain ⟨⟨hXl, hXh⟩, ⟨hYl, hYh⟩, hZl, hZh⟩ := p.int32
  unfold serialize
  rw [deSerialize_nodemeta ⟨hcomma _, hnewline _⟩ ⟨hcomma _, hnewline _⟩ ⟨hcomma _, hnewline _⟩,
    stoi_decimalInt hXl hXh, stoi_decimalInt hYl hYh,
    stoi_decimalInt hZl hZh, p.narrow_self]

end Text

end Freeminer.Inventory
