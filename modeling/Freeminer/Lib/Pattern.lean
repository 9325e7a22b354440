import Mathlib.Algebra.Order.Group.Int
import Mathlib.Tactic.Common

/-! Patterns in the plane: what is not blank has a bounding box, and two patterns fit when they
match cell by cell once their boxes are laid over each other. -/

namespace Freeminer.Lib

variable {α β : Type}

abbrev Pattern (α : Type) := ℤ → ℤ → α

structure Box where
  left : ℤ
  right : ℤ
  top : ℤ
  bottom : ℤ

/-- The cells that are not blank are in the box, and some are at each of its sides. -/
structure Box.Bounds (b : Box) (blank : α) (p : Pattern α) : Prop where
  covers : ∀ x y, p x y ≠ blank → (b.left ≤ x ∧ x ≤ b.right) ∧ b.top ≤ y ∧ y ≤ b.bottom
  left : ∃ y, p b.left y ≠ blank
  right : ∃ y, p b.right y ≠ blank
  top : ∃ x, p x b.top ≠ blank
  bottom : ∃ x, p x b.bottom ≠ blank

structure Box.SameSize (b c : Box) : Prop where
  width : b.right - b.left = c.right - c.left
  height : b.bottom - b.top = c.bottom - c.top

def Overlay (same : α → β → Prop) (blank : α) (blank' : β) (p : Pattern α) (q : Pattern β) : Prop :=
  ∃ b c : Box, b.Bounds blank p ∧ c.Bounds blank' q ∧ b.SameSize c ∧
    ∀ i j, 0 ≤ i → i ≤ b.right - b.left → 0 ≤ j → j ≤ b.bottom - b.top →
      same (p (b.left + i) (b.top + j)) (q (c.left + i) (c.top + j))

def Shifted (p p' : Pattern α) : Prop := ∃ dx dy, ∀ x y, p' (x + dx) (y + dy) = p x y

variable {same : α → β → Prop} {blank : α} {blank' : β} {p p' : Pattern α} {q q' : Pattern β}
  {b c : Box}

theorem Shifted.symm (h : Shifted p p') : Shifted p' p := by
  obtain ⟨dx, dy, h⟩ := h
  refine ⟨-dx, -dy, fun x y => ?_⟩
  rw [← h]
  simp

theorem Box.Bounds.unique (hb : b.Bounds blank p) (hc : c.Bounds blank p) : b = c := by
  obtain ⟨yl, hl⟩ := hb.left
  obtain ⟨yr, hr⟩ := hb.right
  obtain ⟨xt, ht⟩ := hb.top
  obtain ⟨xb, hbo⟩ := hb.bottom
  obtain ⟨yl', hl'⟩ := hc.left
  obtain ⟨yr', hr'⟩ := hc.right
  obtain ⟨xt', ht'⟩ := hc.top
  obtain ⟨xb', hbo'⟩ := hc.bottom
  have h1 := (hc.covers _ _ hl).1.1
  have h2 := (hb.covers _ _ hl').1.1
  have h3 := (hc.covers _ _ hr).1.2
  have h4 := (hb.covers _ _ hr').1.2
  have h5 := (hc.covers _ _ ht).2.1
  have h6 := (hb.covers _ _ ht').2.1
  have h7 := (hc.covers _ _ hbo).2.2
  have h8 := (hb.covers _ _ hbo').2.2
  obtain ⟨left, right, top, bottom⟩ := b
  obtain ⟨left', right', top', bottom'⟩ := c
  simp only at h1 h2 h3 h4 h5 h6 h7 h8
  rw [show left = left' by omega, show right = right' by omega, show top = top' by omega,
    show bottom = bottom' by omega]

theorem Box.Bounds.move {dx dy : ℤ} (hb : b.Bounds blank p)
    (h : ∀ x y, p' (x + dx) (y + dy) = p x y) :
    Box.Bounds ⟨b.left + dx, b.right + dx, b.top + dy, b.bottom + dy⟩ blank p' := by
  refine ⟨fun x y hxy => ?_, ?_, ?_, ?_, ?_⟩
  · have hold := h (x - dx) (y - dy)
    rw [Int.sub_add_cancel, Int.sub_add_cancel] at hold
    rw [hold] at hxy
    obtain ⟨⟨hl, hr⟩, ht, hbo⟩ := hb.covers _ _ hxy
    simp only
    omega
  · obtain ⟨y, hy⟩ := hb.left
    exact ⟨y + dy, by rwa [h]⟩
  · obtain ⟨y, hy⟩ := hb.right
    exact ⟨y + dy, by rwa [h]⟩
  · obtain ⟨x, hx⟩ := hb.top
    exact ⟨x + dx, by rwa [h]⟩
  · obtain ⟨x, hx⟩ := hb.bottom
    exact ⟨x + dx, by rwa [h]⟩

theorem Overlay.move_left (hover : Overlay same blank blank' p q) (h : Shifted p p') :
    Overlay same blank blank' p' q := by
  obtain ⟨b, c, hb, hc, hsize, hcells⟩ := hover
  obtain ⟨dx, dy, h⟩ := h
  refine ⟨_, c, hb.move h, hc, ⟨?_, ?_⟩, fun i j hi hi' hj hj' => ?_⟩
  · have := hsize.width
    simp only
    omega
  · have := hsize.height
    simp only
    omega
  · simp only at hi' hj' ⊢
    have hcell := hcells i j hi (by omega) hj (by omega)
    rwa [show b.left + dx + i = b.left + i + dx by omega,
      show b.top + dy + j = b.top + j + dy by omega, h]

theorem Overlay.move_right (hover : Overlay same blank blank' p q) (h : Shifted q q') :
    Overlay same blank blank' p q' := by
  obtain ⟨b, c, hb, hc, hsize, hcells⟩ := hover
  obtain ⟨dx, dy, h⟩ := h
  refine ⟨b, _, hb, hc.move h, ⟨?_, ?_⟩, fun i j hi hi' hj hj' => ?_⟩
  · have := hsize.width
    simp only
    omega
  · have := hsize.height
    simp only
    omega
  · have hcell := hcells i j hi hi' hj hj'
    rwa [show c.left + dx + i = c.left + i + dx by omega,
      show c.top + dy + j = c.top + j + dy by omega, h]

/-- Whether patterns fit does not depend on where they stand. -/
theorem overlay_congr (hp : Shifted p p') (hq : Shifted q q') :
    Overlay same blank blank' p q ↔ Overlay same blank blank' p' q' :=
  ⟨fun h => (h.move_left hp).move_right hq, fun h => (h.move_left hp.symm).move_right hq.symm⟩

end Freeminer.Lib
