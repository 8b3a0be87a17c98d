import ChipEight.CallStack
import ChipEight.Config
import ChipEight.Instruction
import ChipEight.Keypad
import ChipEight.Random.Source
import ChipEight.Timer

/-
  The state of the machine, and what happens to it from outside a cycle: power on, reset, loading
  a program, the keys, and the ticking of the timers. An operation that can fail gives back a
  state in either case; the statements here and in the modules beside this one say which.
-/
namespace ChipEight

structure Program where
  name : String
  bytes : List Byte
  deriving DecidableEq

@[ext] structure Machine where
  config : Config
  name : String
  lastWord : Word
  memory : Memory
  registers : Registers
  stack : CallStack
  delay : Timer
  sound : Timer
  display : Display
  keypad : Keypad
  random : RandomSource
  /-- The time since the timers ticked. -/
  sinceTick : Nanoseconds
  /-- The time that no cycle has used up. -/
  sinceCycle : Nanoseconds

namespace Machine

def powerOn (config : Config) (random : RandomSource) : Machine where
  config := config
  name := ""
  lastWord := 0
  memory := .initial
  registers := .initial
  stack := .empty
  delay := .stopped
  sound := .stopped
  display := .blank config.foreground
  keypad := .released
  random := random
  sinceTick := 0
  sinceCycle := 0

/-- A machine whose random bytes come from the seed; without one they are taken from the
entropy of its surroundings. -/
def ofConfig (config : Config) (entropy : RandomSource) : Machine :=
  powerOn config (config.seed.elim entropy .seeded)

/-- Puts every component back; the configuration and the random source stay. -/
def reset (m : Machine) : Machine :=
  { m with
    name := ""
    lastWord := 0
    memory := .initial
    registers := .initial
    stack := .empty
    delay := .stopped
    sound := .stopped
    display := m.display.clear
    keypad := .released
    sinceTick := 0
    sinceCycle := 0 }

/-- Resets the machine and puts a program into memory. One that is too large changes nothing. -/
def load (m : Machine) (program : Program) : Machine × Except Fault Unit :=
  match Memory.initial.place program.bytes with
  | .ok memory => ({ m.reset with memory := memory, name := program.name }, .ok ())
  | .error cause => (m, .error (.memory cause))

def counter (m : Machine) : Word := m.registers.counter
def index (m : Machine) : Word := m.registers.index
def reg (m : Machine) (x : Reg) : Byte := m.registers.get x

def setReg (m : Machine) (x : Reg) (b : Byte) : Machine :=
  { m with registers := m.registers.set x b }

def setCounter (m : Machine) (address : Word) : Machine :=
  { m with registers := m.registers.setCounter address }

def fetch (m : Machine) : Machine × Except Fault Word :=
  match m.memory.word m.counter.toNat with
  | .ok word => ({ m with lastWord := word }.setCounter (m.counter + 2), .ok word)
  | .error cause => (m, .error (.memory cause))

def setKeypad (m : Machine) (keys : Keypad) : Machine := { m with keypad := keys }
def setKey (m : Machine) (key : Byte) (pressed : Bool) : Machine :=
  { m with keypad := m.keypad.set key pressed }
def toggleKey (m : Machine) (key : Byte) : Machine :=
  { m with keypad := m.keypad.toggle key }

/-- Counts both timers down once if a full interval has passed, and says whether it did. Of the
time left over at most one interval less a nanosecond is kept. There is no answer when the times
add up to no span of time. -/
def tickTimers (m : Machine) (elapsed : Nanoseconds) : Option (Machine × Bool) :=
  (Clock.add m.sinceTick elapsed).map fun passed =>
    if passed < Clock.timerInterval then ({ m with sinceTick := passed }, false)
    else
      ({ m with
        sinceTick := min (passed - Clock.timerInterval) (Clock.timerInterval - 1)
        delay := m.delay.tick
        sound := m.sound.tick }, true)

/-- A call on the timers adds its time to the carry, or lets both of them tick. -/
theorem tickTimers_cases {m after : Machine} {elapsed : Nanoseconds} {ticked : Bool}
    (ticks : m.tickTimers elapsed = some (after, ticked)) :
    (m.sinceTick + elapsed < Clock.timerInterval ∧ ticked = false ∧
        after = { m with sinceTick := m.sinceTick + elapsed }) ∨
      (Clock.timerInterval ≤ m.sinceTick + elapsed ∧ ticked = true ∧
        after = { m with
          sinceTick := min (m.sinceTick + elapsed - Clock.timerInterval) (Clock.timerInterval - 1)
          delay := m.delay.tick
          sound := m.sound.tick }) := by
  unfold tickTimers at ticks
  obtain ⟨passed, sum, same⟩ := Option.map_eq_some_iff.mp ticks
  obtain ⟨rfl, -⟩ := Clock.add_eq_some_iff.mp sum
  by_cases early : m.sinceTick + elapsed < Clock.timerInterval
  · rw [if_pos early] at same
    cases same
    exact .inl ⟨early, rfl, rfl⟩
  · rw [if_neg early] at same
    cases same
    exact .inr ⟨Nat.not_lt.mp early, rfl, rfl⟩

theorem load_eq (m : Machine) (p : Program) : m.load p =
    if p.bytes.length ≤ Memory.programCapacity then
      ({ m.reset with
        memory := ⟨putFrom Memory.initial.bytes Memory.programStart p.bytes⟩
        name := p.name }, .ok ())
    else (m, .error (.memory (.programTooLarge p.bytes.length Memory.programCapacity))) := by
  unfold load Memory.place
  by_cases fits : p.bytes.length ≤ Memory.programCapacity <;> simp [fits]

theorem fetch_error {m : Machine} {f : Fault} (h : m.fetch.2 = .error f) : m.fetch.1 = m := by
  revert h
  unfold fetch
  split <;> simp

end Machine
end ChipEight
