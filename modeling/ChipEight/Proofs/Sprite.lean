import ChipEight.Display

/-
  What a drawing does to the picture as a whole: which pixels it flips, in closed form, and when
  it reports a lit one. The rows of a sprite and the bits of a row are parts that touch different
  pixels, and a part says the same three things about itself as the whole.
-/
namespace ChipEight

/-- The item at a place of a list that begins at `start`, and the default outside of it. -/
def itemAt {α : Type} (default : α) (start : Nat) (items : List α) (place : Nat) : α :=
  if start ≤ place then items.getD (place - start) default else default

section Items
variable {α : Type} {default a : α} {start place : Nat} {items : List α}

theorem itemAt_nil : itemAt default start [] place = default := by
  simp [itemAt]

theorem itemAt_before (before : place < start) : itemAt default start items place = default := by
  rw [itemAt, if_neg (Nat.not_le.mpr before)]

theorem itemAt_cons : itemAt default start (a :: items) place =
    if place = start then a else itemAt default (start + 1) items place := by
  unfold itemAt
  rcases Nat.lt_trichotomy place start with before | rfl | behind
  · rw [if_neg (by omega), if_neg (by omega), if_neg (by omega)]
  · simp
  · have next : place - start = (place - (start + 1)) + 1 := by omega
    rw [if_pos (by omega), if_neg (by omega), if_pos (by omega), next, List.getD_cons_succ]

/-- The bits of a byte that are laid out from `start` on. -/
theorem itemAt_bitsOf (b : Byte) : itemAt false start (bitsOf b) place =
    (decide (start ≤ place ∧ place < start + 8) && b.getLsbD (7 - (place - start))) := by
  unfold itemAt
  by_cases reached : start ≤ place
  · rw [if_pos reached, bitsOf, List.getD_eq_getElem?_getD, List.getElem?_ofFn]
    by_cases inside : place - start < 8
    · have : place < start + 8 := by omega
      simp [reached, inside, this]
    · have : ¬ place < start + 8 := by omega
      simp [inside, this]
  · simp [reached]

end Items

namespace Display

theorem ext_pixel {d d' : Display} (foreground : d.foreground = d'.foreground)
    (pixels : ∀ column row, d.pixel column row = d'.pixel column row) : d = d' := by
  refine Display.ext ?_ foreground
  refine Vector.ext fun row hr => ?_
  exact Vector.ext fun column hc => pixels ⟨column, hc⟩ ⟨row, hr⟩

/-- What a pixel is once it is flipped. -/
def toggled (d : Display) (column : Fin 64) (row : Fin 32) : Byte :=
  if d.pixel column row = background then d.foreground else background

/-- Whether a sprite that starts at `x` and `y` has a set bit on the pixel. -/
def covers (x y : Nat) (sprite : List Byte) (column : Fin 64) (row : Fin 32) : Bool :=
  decide (x % width ≤ column ∧ column < x % width + 8 ∧ y % height ≤ row) &&
    (sprite.getD (row - y % height) 0).getLsbD (7 - (column - x % width))

/-- The result of flipping exactly the pixels that are hit. -/
structure Flips (d : Display) (hit : Fin 64 → Fin 32 → Bool) (result : Display × Bool) :
    Prop where
  foreground : result.1.foreground = d.foreground
  pixels : ∀ column row, result.1.pixel column row =
    if hit column row then d.toggled column row else d.pixel column row
  collision : result.2 = true ↔
    ∃ column row, hit column row = true ∧ d.pixel column row ≠ background

namespace Flips
variable {d : Display} {hit hit' : Fin 64 → Fin 32 → Bool} {result : Display × Bool}

theorem of_same (same : ∀ column row, hit column row = hit' column row)
    (h : Flips d hit result) : Flips d hit' result := by
  have : hit = hit' := funext fun column => funext fun row => same column row
  exact this ▸ h

theorem nothing (d : Display) : Flips d (fun _ _ => false) (d, false) where
  foreground := rfl
  pixels _ _ := rfl
  collision := by simp

theorem flip (d : Display) (x : Fin 64) (y : Fin 32) :
    Flips d (fun column row => decide (column = x ∧ row = y)) (d.flip x y) where
  foreground := foreground_flip d x y
  pixels column row := by
    by_cases here : column = x ∧ row = y
    · obtain ⟨rfl, rfl⟩ := here
      unfold Display.flip toggled
      split <;> simp [pixel_setPixel]
    · have elsewhere : ¬ (x = column ∧ y = row) := fun h => here ⟨h.1.symm, h.2.symm⟩
      unfold Display.flip
      split <;> simp [pixel_setPixel, here, elsewhere]
  collision := by
    unfold Display.flip
    split
    · next dark => simp [dark]
    · next lit =>
      exact iff_of_true rfl ⟨x, y, by simp, lit⟩

/-- Two parts that touch different pixels, one after the other. -/
theorem andThen {after : Display × Bool} (first : Flips d hit result)
    (second : Flips result.1 hit' after)
    (apart : ∀ column row, hit column row = true → hit' column row = false) :
    Flips d (fun column row => hit column row || hit' column row)
      (after.1, result.2 || after.2) where
  foreground := second.foreground.trans first.foreground
  pixels column row := by
    rw [second.pixels column row]
    have before := first.pixels column row
    cases now : hit column row with
    | true => simp [apart column row now, before, now]
    | false =>
      have same : result.1.pixel column row = d.pixel column row := by simpa [now] using before
      simp [toggled, same, first.foreground]
  collision := by
    have same : ∀ column row, hit' column row = true →
        result.1.pixel column row = d.pixel column row := by
      intro column row later
      cases now : hit column row with
      | true =>
        rw [apart column row now] at later
        cases later
      | false => simpa [now] using first.pixels column row
    rw [Bool.or_eq_true, first.collision, second.collision]
    constructor
    · rintro (⟨column, row, covered, lit⟩ | ⟨column, row, covered, lit⟩)
      · exact ⟨column, row, by simp [covered], lit⟩
      · exact ⟨column, row, by simp [covered], same column row covered ▸ lit⟩
    · rintro ⟨column, row, covered, lit⟩
      cases now : hit column row with
      | true => exact .inl ⟨column, row, now, lit⟩
      | false =>
        have later : hit' column row = true := by simpa [now] using covered
        exact .inr ⟨column, row, later, (same column row later).symm ▸ lit⟩

theorem drawBits (d : Display) (y : Fin 32) (x : Nat) (bits : List Bool) :
    Flips d (fun column row => decide (row = y) && itemAt false x bits column)
      (d.drawBits y x bits) := by
  induction bits generalizing d x with
  | nil => exact (nothing d).of_same (by simp [itemAt_nil])
  | cons bit bits ih =>
    rw [Display.drawBits]
    split
    · next inside =>
      have here : Flips d (fun column row => decide (column = ⟨x, inside⟩ ∧ row = y) && bit)
          (if bit then d.flip ⟨x, inside⟩ y else (d, false)) := by
        cases bit with
        | true => exact (flip d ⟨x, inside⟩ y).of_same (by simp)
        | false => exact (nothing d).of_same (by simp)
      refine (here.andThen (ih _ (x + 1)) ?_).of_same ?_
      · intro column row now
        simp only [Bool.and_eq_true, decide_eq_true_eq] at now
        obtain ⟨⟨rfl, -⟩, -⟩ := now
        rw [itemAt_before (Nat.lt_succ_self x), Bool.and_false]
      · intro column row
        rw [itemAt_cons]
        by_cases first : (column : Nat) = x
        · obtain rfl : column = ⟨x, inside⟩ := Fin.ext first
          simp [itemAt_before]
        · have : column ≠ ⟨x, inside⟩ := fun same => first (congrArg Fin.val same)
          simp [this, first]
    · next outside =>
      refine (nothing d).of_same fun column row => ?_
      have left : (column : Nat) < x := Nat.lt_of_lt_of_le column.isLt (Nat.not_lt.mp outside)
      rw [itemAt_before left, Bool.and_false]

theorem drawRows (d : Display) (x y : Nat) (rows : List Byte) :
    Flips d (fun column row => itemAt false x (bitsOf (itemAt 0 y rows row)) column)
      (d.drawRows x y rows) := by
  induction rows generalizing d y with
  | nil => exact (nothing d).of_same (by simp [itemAt_nil, itemAt_bitsOf])
  | cons top rows ih =>
    rw [Display.drawRows]
    split
    · next inside =>
      refine ((drawBits d ⟨y, inside⟩ x (bitsOf top)).andThen (ih _ (y + 1)) ?_).of_same ?_
      · intro column row now
        simp only [Bool.and_eq_true, decide_eq_true_eq] at now
        obtain ⟨rfl, -⟩ := now
        rw [itemAt_before (Nat.lt_succ_self y), itemAt_bitsOf]
        simp
      · intro column row
        rw [itemAt_cons]
        by_cases first : (row : Nat) = y
        · obtain rfl : row = ⟨y, inside⟩ := Fin.ext first
          simp [itemAt_before, itemAt_bitsOf]
        · have : row ≠ ⟨y, inside⟩ := fun same => first (congrArg Fin.val same)
          simp [this, first]
    · next outside =>
      refine (nothing d).of_same fun column row => ?_
      have below : (row : Nat) < y := Nat.lt_of_lt_of_le row.isLt (Nat.not_lt.mp outside)
      have none : itemAt 0 y (top :: rows) row = 0 := itemAt_before below
      rw [none, itemAt_bitsOf]
      simp

theorem draw (d : Display) (x y : Nat) (sprite : List Byte) :
    Flips d (covers x y sprite) (d.draw x y sprite) := by
  refine (drawRows d (x % width) (y % height) sprite).of_same fun column row => ?_
  rw [covers, itemAt_bitsOf]
  by_cases top : y % height ≤ row
  · rw [itemAt, if_pos top]
    simp [top, Bool.and_assoc]
  · simp [itemAt_before (Nat.not_le.mp top), top]

end Flips
end Display
end ChipEight
