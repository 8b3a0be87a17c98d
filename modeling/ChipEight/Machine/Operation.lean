import ChipEight.Machine.Advance

/-
  The operations of the machine as data, so that a history of a machine is a list of them.
-/
namespace ChipEight

inductive Operation where
  | load (program : Program)
  | reset
  | fetch
  | cycle
  | advance (elapsed : Nanoseconds)
  | tickTimers (elapsed : Nanoseconds)
  | setKey (key : Byte) (pressed : Bool)
  | toggleKey (key : Byte)
  | setKeypad (keys : Keypad)

inductive Answer where
  | nothing
  | word (w : Word)
  | signal (s : Signal)
  | report (r : Report)
  | ticked (yes : Bool)
  | stopped (why : Stop)
  deriving DecidableEq, Repr

def Answer.ofExcept {α : Type} (answer : α → Answer) : Except Fault α → Answer
  | .ok a => answer a
  | .error f => .stopped (.fault f)

namespace Machine

def perform (m : Machine) : Operation → Machine × Answer
  | .load program => (m.load program).map id (.ofExcept fun _ => .nothing)
  | .reset => (m.reset, .nothing)
  | .fetch => m.fetch.map id (.ofExcept .word)
  | .cycle => m.cycle.map id (.ofExcept .signal)
  | .advance elapsed =>
    match m.advance elapsed with
    | (m, .ok report) => (m, .report report)
    | (m, .error why) => (m, .stopped why)
  | .tickTimers elapsed =>
    match m.tickTimers elapsed with
    | some (m, ticked) => (m, .ticked ticked)
    | none => (m, .stopped .timeOverflow)
  | .setKey key pressed => (m.setKey key pressed, .nothing)
  | .toggleKey key => (m.toggleKey key, .nothing)
  | .setKeypad keys => (m.setKeypad keys, .nothing)

/-- The state after a history, and the answers in order. -/
def run (m : Machine) : List Operation → Machine × List Answer
  | [] => (m, [])
  | op :: ops =>
    let (m, answer) := m.perform op
    let (m, answers) := m.run ops
    (m, answer :: answers)

theorem run_append (m : Machine) (first second : List Operation) :
    (m.run (first ++ second)).1 = ((m.run first).1.run second).1 := by
  induction first generalizing m with
  | nil => rfl
  | cons op ops ih => simp [run, ih]

end Machine
end ChipEight
