import ChipEight.Clock
import ChipEight.Display

/-
  What is fixed when a machine is made: the dialect of the instruction set, the speed, the seed
  of the random numbers and the palette entry of lit pixels.
-/
namespace ChipEight

/-- The points on which interpreters of the instruction set disagree. -/
structure Dialect where
  /-- Shifts take register `y` and not register `x`. -/
  shiftReadsY : Bool := false
  /-- A jump with offset adds register `x` and not register 0. -/
  jumpAddsX : Bool := false
  /-- Storing registers moves the index register past the last byte. -/
  storeMovesIndex : Bool := false
  /-- Key skips take `x` itself as the key and not the value of register `x`. -/
  keyIsOperand : Bool := false
  deriving DecidableEq, Repr

def Dialect.legacy : Dialect where
  shiftReadsY := true
  storeMovesIndex := true

structure Config where
  dialect : Dialect := {}
  cyclesPerSecond : Nat := 500
  /-- How many cycles may run in one call of `advance`. -/
  maxCycles : Nat := 64
  seed : Option (BitVec 64) := none
  foreground : Byte := 1
  deriving DecidableEq, Repr

/-- The time that one cycle takes. A rate of zero counts as one cycle per second; a rate above
one per nanosecond leaves no time at all. -/
def Config.cycleInterval (c : Config) : Nanoseconds := Clock.second / max c.cyclesPerSecond 1

end ChipEight
