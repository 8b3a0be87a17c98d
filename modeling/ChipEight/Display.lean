import ChipEight.Bits

/-
  The picture: 32 rows of 64 pixels, each an entry of a palette whose entry 0 is the background.
  A sprite starts at coordinates taken modulo the size of the picture, flips the pixels under its
  set bits, and is cut off at the right and at the lower edge.
-/
namespace ChipEight

abbrev Grid := Vector (Vector Byte 64) 32

@[ext] structure Display where
  grid : Grid
  foreground : Byte
  deriving DecidableEq

namespace Display

def width : Nat := 64
def height : Nat := 32
def background : Byte := 0

def blankGrid : Grid := Vector.replicate 32 (Vector.replicate 64 background)
def blank (foreground : Byte) : Display := ⟨blankGrid, foreground⟩
def clear (d : Display) : Display := { d with grid := blankGrid }

def pixel (d : Display) (x : Fin 64) (y : Fin 32) : Byte := d.grid[y][x]

def setPixel (d : Display) (x : Fin 64) (y : Fin 32) (entry : Byte) : Display :=
  { d with grid := d.grid.set y (d.grid[y].set x entry) }

def get? (d : Display) (x y : Nat) : Option Byte :=
  if h : x < width ∧ y < height then some (d.pixel ⟨x, h.1⟩ ⟨y, h.2⟩) else none

def set? (d : Display) (x y : Nat) (entry : Byte) : Option Display :=
  if h : x < width ∧ y < height then some (d.setPixel ⟨x, h.1⟩ ⟨y, h.2⟩ entry) else none

def isLit? (d : Display) (x y : Nat) : Option Bool := (d.get? x y).map (· != background)

/-- A lit pixel goes out, a dark one lights up. The answer is whether one went out. -/
def flip (d : Display) (x : Fin 64) (y : Fin 32) : Display × Bool :=
  if d.pixel x y = background then (d.setPixel x y d.foreground, false)
  else (d.setPixel x y background, true)

/-- Flips the pixels of a row under the set bits from column `x` on. -/
def drawBits (d : Display) (y : Fin 32) (x : Nat) : List Bool → Display × Bool
  | [] => (d, false)
  | bit :: bits =>
    if h : x < 64 then
      let here := if bit then d.flip ⟨x, h⟩ y else (d, false)
      let after := here.1.drawBits y (x + 1) bits
      (after.1, here.2 || after.2)
    else (d, false)

def drawRows (d : Display) (x y : Nat) : List Byte → Display × Bool
  | [] => (d, false)
  | row :: rows =>
    if h : y < 32 then
      let here := d.drawBits ⟨y, h⟩ x (bitsOf row)
      let below := here.1.drawRows x (y + 1) rows
      (below.1, here.2 || below.2)
    else (d, false)

/-- The picture with the sprite drawn, and whether a lit pixel went out. -/
def draw (d : Display) (x y : Nat) (sprite : List Byte) : Display × Bool :=
  d.drawRows (x % width) (y % height) sprite

/-- How many of the rows of a sprite that starts at row `y` lie on the screen. -/
def visibleRows (y rows : Nat) : Nat := min rows (height - y % height)

theorem pixel_setPixel (d : Display) (x x' : Fin 64) (y y' : Fin 32) (entry : Byte) :
    (d.setPixel x y entry).pixel x' y' = if x = x' ∧ y = y' then entry else d.pixel x' y' := by
  by_cases row : y = y'
  · subst row
    by_cases column : x = x'
    · simp [pixel, setPixel, column]
    · have : (x : Nat) ≠ x' := fun h => column (Fin.ext h)
      simp [pixel, setPixel, column, Vector.getElem_set_ne _ _ this]
  · have : (y : Nat) ≠ y' := fun h => row (Fin.ext h)
    simp [pixel, setPixel, row, Vector.getElem_set_ne _ _ this]

theorem foreground_flip (d : Display) (x : Fin 64) (y : Fin 32) :
    (d.flip x y).1.foreground = d.foreground := by
  unfold flip
  split <;> rfl

end Display
end ChipEight
