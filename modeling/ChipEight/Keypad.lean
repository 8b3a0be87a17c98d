import ChipEight.Bits

/-
  The sixteen keys. A number above fifteen names no key: it is never pressed, and changing it
  has no effect.
-/
namespace ChipEight

@[ext] structure Keypad where
  keys : Vector Bool 16
  deriving DecidableEq

namespace Keypad

/-- Where the keys lie, row by row. -/
def layout : List (List Nat) :=
  [[0x1, 0x2, 0x3, 0xC], [0x4, 0x5, 0x6, 0xD], [0x7, 0x8, 0x9, 0xE], [0xA, 0x0, 0xB, 0xF]]

def released : Keypad := ⟨Vector.replicate 16 false⟩

def isPressed (k : Keypad) (key : Byte) : Bool := k.keys[key.toNat]?.getD false
def set (k : Keypad) (key : Byte) (pressed : Bool) : Keypad :=
  ⟨k.keys.setIfInBounds key.toNat pressed⟩
def toggle (k : Keypad) (key : Byte) : Keypad := k.set key (!k.isPressed key)

/-- The lowest key that is held down. -/
def firstPressed (k : Keypad) : Option (Fin 16) := k.keys.findFinIdx? id

theorem isPressed_set (k : Keypad) (key other : Byte) (pressed : Bool) :
    (k.set key pressed).isPressed other =
      if key = other ∧ key.toNat < 16 then pressed else k.isPressed other := by
  simp only [isPressed, set, Vector.getElem?_setIfInBounds, BitVec.toNat_inj]
  by_cases same : key = other
  · subst same
    by_cases inside : key.toNat < 16 <;> simp [inside]
  · simp [same]

end Keypad
end ChipEight
