import ChipEight.Proofs.Sprite
import Mathlib.Algebra.Ring.Parity
import Mathlib.Data.List.DropRight

/-
  The picture is the parity of the sprites drawn on it since it was last cleared. Pixels hold
  palette entries and are not combined with an exclusive or, so that flips cancel has to be read
  off the history: a pixel only ever holds the background or the foreground.
-/
namespace ChipEight

/-- What changes a picture. -/
inductive Stroke where
  | draw (x y : Nat) (sprite : List Byte)
  | clear
  deriving DecidableEq

namespace Stroke

def covers (column : Fin 64) (row : Fin 32) : Stroke → Bool
  | .draw x y sprite => Display.covers x y sprite column row
  | .clear => false

/-- How many of the sprites drawn since the picture was last cleared cover the pixel. -/
def coverings (strokes : List Stroke) (column : Fin 64) (row : Fin 32) : Nat :=
  (strokes.rtakeWhile (· ≠ .clear)).countP (covers column row)

variable (strokes : List Stroke) (column : Fin 64) (row : Fin 32)

theorem coverings_clear : coverings (strokes ++ [.clear]) column row = 0 := by
  simp [coverings]

theorem coverings_draws {draws : List Stroke} (unbroken : .clear ∉ draws) :
    coverings (strokes ++ draws) column row =
      coverings strokes column row + draws.countP (covers column row) := by
  induction draws using List.reverseRecOn with
  | nil => simp
  | append_singleton draws last ih =>
    have earlier : .clear ∉ draws := fun h => unbroken (List.mem_append_left _ h)
    have drawn : last ≠ .clear := fun h => unbroken (by simp [h])
    have counted := ih earlier
    unfold coverings at counted ⊢
    rw [← List.append_assoc, List.rtakeWhile_concat_pos _ _ _ (by simpa using drawn),
      List.countP_append, List.countP_append, counted, Nat.add_assoc]

theorem coverings_draw (x y : Nat) (sprite : List Byte) :
    coverings (strokes ++ [.draw x y sprite]) column row = coverings strokes column row +
      if Display.covers x y sprite column row then 1 else 0 := by
  rw [coverings_draws strokes column row (by simp), List.countP_singleton]
  rfl

end Stroke

namespace Display

/-- The picture after a stroke, and whether a lit pixel went out under a sprite. -/
def paint (d : Display) : Stroke → Display × Bool
  | .draw x y sprite => d.draw x y sprite
  | .clear => (d.clear, false)

def painted (d : Display) (strokes : List Stroke) : Display :=
  strokes.foldl (fun d stroke => (d.paint stroke).1) d

variable (foreground : Byte) (strokes : List Stroke)

theorem painted_append (d : Display) (more : List Stroke) :
    d.painted (strokes ++ more) = (d.painted strokes).painted more :=
  List.foldl_append

theorem foreground_painted (d : Display) : (d.painted strokes).foreground = d.foreground := by
  induction strokes generalizing d with
  | nil => rfl
  | cons stroke strokes ih =>
    refine (ih (d.paint stroke).1).trans ?_
    cases stroke with
    | draw x y sprite => exact (Flips.draw d x y sprite).foreground
    | clear => rfl

theorem pixel_painted (column : Fin 64) (row : Fin 32) :
    ((blank foreground).painted strokes).pixel column row =
      if Odd (Stroke.coverings strokes column row) then foreground else background := by
  induction strokes using List.reverseRecOn with
  | nil => simp [painted, blank, blankGrid, pixel, Stroke.coverings]
  | append_singleton strokes last ih =>
    rw [painted_append]
    cases last with
    | clear =>
      rw [Stroke.coverings_clear]
      simp [painted, paint, clear, blankGrid, pixel]
    | draw x y sprite =>
      have drawn := (Flips.draw ((blank foreground).painted strokes) x y sprite).pixels column row
      rw [Stroke.coverings_draw]
      refine drawn.trans ?_
      cases covered : covers x y sprite column row with
      | false => simpa using ih
      | true =>
        -- with a dark foreground the two branches are one value, and the flip is none
        simp only [if_true, toggled, foreground_painted, ih, Nat.odd_add_one]
        by_cases odd : Odd (Stroke.coverings strokes column row)
        · simp only [odd, if_true, not_true, if_false, blank]
          split
          · next dark => exact dark
          · rfl
        · simp [odd, blank]

theorem lit_painted (column : Fin 64) (row : Fin 32) :
    ((blank foreground).painted strokes).pixel column row ≠ background ↔
      foreground ≠ background ∧ Odd (Stroke.coverings strokes column row) := by
  rw [pixel_painted]
  by_cases odd : Odd (Stroke.coverings strokes column row)
  · simp [odd]
  · simp [odd]

theorem collides_painted (x y : Nat) (sprite : List Byte) :
    (((blank foreground).painted strokes).draw x y sprite).2 = true ↔
      foreground ≠ background ∧ ∃ column row, covers x y sprite column row = true ∧
        Odd (Stroke.coverings strokes column row) := by
  rw [(Flips.draw _ x y sprite).collision]
  constructor
  · rintro ⟨column, row, covered, lit⟩
    have := (lit_painted foreground strokes column row).mp lit
    exact ⟨this.1, column, row, covered, this.2⟩
  · rintro ⟨visible, column, row, covered, odd⟩
    exact ⟨column, row, covered, (lit_painted foreground strokes column row).mpr ⟨visible, odd⟩⟩

/-- Histories that cover every pixel equally often, up to parity, leave one picture. -/
theorem painted_eq_of_parity {strokes' : List Stroke}
    (same : ∀ column row, Odd (Stroke.coverings strokes column row) ↔
      Odd (Stroke.coverings strokes' column row)) :
    (blank foreground).painted strokes = (blank foreground).painted strokes' := by
  refine ext_pixel ?_ fun column row => ?_
  · rw [foreground_painted, foreground_painted]
  · rw [pixel_painted, pixel_painted]
    simp only [same column row]

theorem painted_perm {draws shuffled : List Stroke} (unbroken : .clear ∉ draws)
    (perm : draws.Perm shuffled) :
    ((blank foreground).painted strokes).painted shuffled =
      ((blank foreground).painted strokes).painted draws := by
  rw [← painted_append, ← painted_append]
  refine painted_eq_of_parity foreground _ fun column row => ?_
  have alsoUnbroken : .clear ∉ shuffled := fun h => unbroken (perm.mem_iff.mpr h)
  rw [Stroke.coverings_draws strokes column row unbroken,
    Stroke.coverings_draws strokes column row alsoUnbroken, perm.countP_eq]

theorem painted_twice (x y : Nat) (sprite : List Byte) :
    (blank foreground).painted (strokes ++ [.draw x y sprite] ++ [.draw x y sprite]) =
      (blank foreground).painted strokes := by
  refine painted_eq_of_parity foreground _ fun column row => ?_
  rw [Stroke.coverings_draw, Stroke.coverings_draw]
  cases covers x y sprite column row with
  | false => simp
  | true => simp [Nat.odd_add_one]

/-- A pixel the sprite turns on is one it covers. -/
theorem collides_after (x y : Nat) (sprite : List Byte) :
    let now := (blank foreground).painted strokes
    let once := (now.draw x y sprite).1
    (once.draw x y sprite).2 = true ↔ ∃ column row,
      now.pixel column row = background ∧ once.pixel column row ≠ background := by
  intro now once
  have first := (Flips.draw now x y sprite).pixels
  rw [(Flips.draw once x y sprite).collision]
  constructor
  · rintro ⟨column, row, covered, lit⟩
    refine ⟨column, row, ?_, lit⟩
    by_contra wasLit
    -- a lit pixel that is covered goes out
    rw [first column row, if_pos covered, toggled, if_neg wasLit] at lit
    exact lit rfl
  · rintro ⟨column, row, dark, lit⟩
    refine ⟨column, row, ?_, lit⟩
    by_contra missed
    rw [first column row, if_neg missed] at lit
    exact lit dark

theorem picture_is_parity (foreground : Byte) (strokes : List Stroke) :
    let now := (blank foreground).painted strokes
    (∀ column row, now.pixel column row =
      if Odd (Stroke.coverings strokes column row) then foreground else background) ∧
    (∀ x y sprite, (now.draw x y sprite).2 = true ↔
      foreground ≠ background ∧ ∃ column row, covers x y sprite column row = true ∧
        Odd (Stroke.coverings strokes column row)) ∧
    (∀ draws shuffled, .clear ∉ draws → draws.Perm shuffled →
      now.painted shuffled = now.painted draws) ∧
    (∀ x y sprite, let once := (now.draw x y sprite).1
      (once.draw x y sprite).1 = now ∧
      ((once.draw x y sprite).2 = true ↔ ∃ column row,
        now.pixel column row = background ∧ once.pixel column row ≠ background)) ∧
    (foreground = background → (∀ column row, now.pixel column row = background) ∧
      ∀ x y sprite, (now.draw x y sprite).2 = false) := by
  intro now
  refine ⟨pixel_painted foreground strokes, collides_painted foreground strokes, ?_, ?_, ?_⟩
  · intro draws shuffled unbroken perm
    exact painted_perm foreground strokes unbroken perm
  · intro x y sprite once
    refine ⟨?_, collides_after foreground strokes x y sprite⟩
    have twice := painted_twice foreground strokes x y sprite
    rw [painted_append, painted_append] at twice
    exact twice
  · intro invisible
    constructor
    · intro column row
      by_contra lit
      exact ((lit_painted foreground strokes column row).mp lit).1 invisible
    · intro x y sprite
      rw [← Bool.not_eq_true, collides_painted]
      exact fun collision => collision.1 invisible

/-- One sprite after a clear, started outside of the screen on both axes. -/
def wrappedStart : List Stroke := [.draw 0 0 [0xFF], .clear, .draw 65 34 [0xF0]]

theorem crossing_sprites_commute :
    .clear ∉ [Stroke.draw 0 2 [0xE0], .draw 3 1 [0x80, 0x80]] ∧
    [Stroke.draw 0 2 [0xE0], .draw 3 1 [0x80, 0x80]].Perm
      [.draw 3 1 [0x80, 0x80], .draw 0 2 [0xE0]] ∧
    ((blank 7).painted wrappedStart).painted [.draw 3 1 [0x80, 0x80], .draw 0 2 [0xE0]] =
      ((blank 7).painted wrappedStart).painted [.draw 0 2 [0xE0], .draw 3 1 [0x80, 0x80]] ∧
    ((blank 7).painted wrappedStart).pixel 1 2 = 7 ∧
    (((blank 7).painted wrappedStart).draw 1 2 [0x80]).2 = true ∧
    (((blank 0).painted wrappedStart).draw 1 2 [0x80]).2 = false := by
  have covered : Odd (Stroke.coverings wrappedStart 1 2) := by decide
  have pixel := (picture_is_parity 7 wrappedStart).1 1 2
  have collision := ((picture_is_parity 7 wrappedStart).2.1 1 2 [0x80]).mpr
    ⟨by decide, 1, 2, by decide, covered⟩
  have order := (picture_is_parity 7 wrappedStart).2.2.1
    [.draw 0 2 [0xE0], .draw 3 1 [0x80, 0x80]] [.draw 3 1 [0x80, 0x80], .draw 0 2 [0xE0]]
    (by decide) (.swap _ _ _)
  have unseen := ((picture_is_parity 0 wrappedStart).2.2.2.2 rfl).2 1 2 [0x80]
  rw [if_pos covered] at pixel
  exact ⟨by decide, .swap _ _ _, order, pixel, collision, unseen⟩

end Display
end ChipEight
