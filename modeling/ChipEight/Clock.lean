/-
  Time in whole nanoseconds. A span is below 2^64 seconds; a sum that is not has no value.
-/
namespace ChipEight

abbrev Nanoseconds := Nat

namespace Clock

def second : Nanoseconds := 1000000000
/-- The first number of nanoseconds that is no span of time. -/
def limit : Nanoseconds := 18446744073709551616 * second

def timerRate : Nat := 60
def timerInterval : Nanoseconds := second / timerRate

def add (a b : Nanoseconds) : Option Nanoseconds := if a + b < limit then some (a + b) else none

theorem timerInterval_eq : timerInterval = 16666666 := rfl

theorem add_eq_some_iff {a b c : Nanoseconds} :
    add a b = some c ↔ a + b = c ∧ c < limit := by
  unfold add
  split <;> grind

end Clock
end ChipEight
