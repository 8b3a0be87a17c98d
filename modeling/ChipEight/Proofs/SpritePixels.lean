import ChipEight.Proofs.Checked
import ChipEight.Proofs.Sprite

/-
  A drawing pixel by pixel. Only the start of a sprite is taken modulo the size of the picture:
  what lies behind the right edge or below the lower one is cut off and does not come in again at
  the opposite edge, and the drawing never asks for a pixel that is not there.
-/
namespace ChipEight.Display

/-- The sprite has a set bit on the pixel. The first pixel of a row is its most significant bit. -/
def Hit (x y : Nat) (sprite : List Byte) (column : Fin 64) (row : Fin 32) : Prop :=
  x % width ≤ column ∧ column < x % width + 8 ∧
    y % height ≤ row ∧ row < y % height + sprite.length ∧
    (sprite.getD (row - y % height) 0).getLsbD (7 - (column - x % width)) = true

instance (x y : Nat) (sprite : List Byte) (column : Fin 64) (row : Fin 32) :
    Decidable (Hit x y sprite column row) :=
  inferInstanceAs (Decidable (_ ∧ _))

section Hits
variable {x y : Nat} {sprite : List Byte} {column : Fin 64} {row : Fin 32}

theorem covers_iff_hit : covers x y sprite column row = true ↔ Hit x y sprite column row := by
  simp only [covers, Hit, Bool.and_eq_true, decide_eq_true_eq]
  constructor
  · rintro ⟨⟨right, near, under⟩, bit⟩
    -- behind its last row a sprite has no set bits, so that a set one bounds the row
    have length : row - y % height < sprite.length := by
      refine Nat.lt_of_not_le fun behind => ?_
      rw [List.getD_eq_getElem?_getD, List.getElem?_eq_none behind] at bit
      simp at bit
    exact ⟨right, near, under, by omega, bit⟩
  · rintro ⟨right, near, under, -, bit⟩
    exact ⟨⟨right, near, under⟩, bit⟩

theorem not_hit_left (left : column < x % width) : ¬ Hit x y sprite column row :=
  fun hit => Nat.not_le.mpr left hit.1

theorem not_hit_above (above : row < y % height) : ¬ Hit x y sprite column row :=
  fun hit => Nat.not_le.mpr above hit.2.2.1

end Hits

section Drawn
variable {d : Display} {x y : Nat} {sprite : List Byte} {column : Fin 64} {row : Fin 32}

theorem pixel_draw_of_hit (hit : Hit x y sprite column row) :
    (d.draw x y sprite).1.pixel column row =
      if d.pixel column row = background then d.foreground else background := by
  rw [(Flips.draw d x y sprite).pixels, if_pos (covers_iff_hit.mpr hit)]
  rfl

theorem pixel_draw_of_not_hit (missed : ¬ Hit x y sprite column row) :
    (d.draw x y sprite).1.pixel column row = d.pixel column row := by
  rw [(Flips.draw d x y sprite).pixels, if_neg fun covered => missed (covers_iff_hit.mp covered)]

end Drawn

theorem draw_is_pixel_exact (d : Display) (x y : Nat) (sprite : List Byte) :
    let drawn := d.draw x y sprite
    (∀ column row, Hit x y sprite column row → d.pixel column row ≠ background →
      drawn.1.pixel column row = background) ∧
    (∀ column row, Hit x y sprite column row → d.pixel column row = background →
      drawn.1.pixel column row = d.foreground) ∧
    (∀ column row, ¬ Hit x y sprite column row →
      drawn.1.pixel column row = d.pixel column row) ∧
    (drawn.2 = true ↔
      ∃ column row, Hit x y sprite column row ∧ d.pixel column row ≠ background) ∧
    (∀ (column : Fin 64) (row : Fin 32), column < x % width ∨ row < y % height →
      drawn.1.pixel column row = d.pixel column row) ∧
    drawn.1.foreground = d.foreground ∧
    Checked.draw d x y sprite = some drawn := by
  intro drawn
  refine ⟨?_, ?_, ?_, ?_, ?_, (Flips.draw d x y sprite).foreground, ?_⟩
  · intro column row hit lit
    rw [pixel_draw_of_hit hit, if_neg lit]
  · intro column row hit dark
    rw [pixel_draw_of_hit hit, if_pos dark]
  · intro column row missed
    exact pixel_draw_of_not_hit missed
  · rw [(Flips.draw d x y sprite).collision]
    simp only [covers_iff_hit]
  · rintro column row (left | above)
    · exact pixel_draw_of_not_hit (not_hit_left left)
    · exact pixel_draw_of_not_hit (not_hit_above above)
  · exact Checked.drawRows_eq d (x % width) (y % height) sprite

/-- Two pixels are left of a sprite that starts in the last row, two columns from the right edge. -/
theorem corner_is_cut_off :
    let d := (blank 7).setPixel 63 31 9
    let drawn := d.draw 126 63 [0xFF, 0xFF]
    drawn.2 = true ∧ drawn.1.pixel 63 31 = background ∧ drawn.1.pixel 62 31 = 7 ∧
      (∀ row, drawn.1.pixel 0 row = background) ∧
      (∀ column, drawn.1.pixel column 0 = background) := by
  intro d drawn
  obtain ⟨lit, dark, -, collision, cut, -, -⟩ :=
    draw_is_pixel_exact ((blank 7).setPixel 63 31 9) 126 63 [0xFF, 0xFF]
  have corner : d.pixel 63 31 ≠ background := by decide
  refine ⟨?_, ?_, ?_, ?_, ?_⟩
  · exact collision.mpr ⟨63, 31, by decide, corner⟩
  · exact lit 63 31 (by decide) corner
  · exact dark 62 31 (by decide) (by decide)
  · intro row
    rw [cut 0 row (.inl (by decide))]
    revert row
    decide
  · intro column
    rw [cut column 0 (.inr (by decide))]
    revert column
    decide

end ChipEight.Display
