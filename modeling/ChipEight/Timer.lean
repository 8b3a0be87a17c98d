import ChipEight.Bits

/-
  A counter that falls by one with every tick and stays at zero. The delay timer and the sound
  timer are of this kind; neither keeps time itself.
-/
namespace ChipEight

structure Timer where
  value : Byte
  deriving DecidableEq, Repr

namespace Timer

def stopped : Timer := ⟨0⟩
def tick (t : Timer) : Timer := if t.value = 0 then t else ⟨t.value - 1⟩
def isRunning (t : Timer) : Bool := t.value != 0

theorem value_tick_toNat (t : Timer) : t.tick.value.toNat = t.value.toNat - 1 := by
  unfold tick
  split
  · simp_all
  · rename_i nonzero
    have : t.value.toNat ≠ 0 := fun h => nonzero (BitVec.eq_of_toNat_eq h)
    have := t.value.isLt
    rw [BitVec.toNat_sub]
    simp
    omega

end Timer
end ChipEight
