import ChipEight.Bits

/-
  Where the program counter goes after an instruction. It has already been moved past the
  instruction, and it wraps at 16 bits.
-/
namespace ChipEight

inductive CounterStep where
  | next
  | skip
  /-- Back onto the instruction that just ran. -/
  | again
  | jump (target : Word)
  deriving DecidableEq, Repr

namespace CounterStep

def skipIf (condition : Bool) : CounterStep := if condition then .skip else .next

def apply : CounterStep → Word → Word
  | .next, counter => counter
  | .skip, counter => counter + 2
  | .again, counter => counter - 2
  | .jump target, _ => target

theorem apply_skipIf (condition : Bool) (counter : Word) :
    (skipIf condition).apply counter = if condition then counter + 2 else counter := by
  cases condition <;> rfl

end CounterStep
end ChipEight
