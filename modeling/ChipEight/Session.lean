import ChipEight.Machine.Advance

/-
  A machine and the devices around it, frame by frame. What the devices are asked and told is a
  list of events; the keys that they answer are handed in.
-/
namespace ChipEight

inductive Event where
  | keysRead
  | shown (grid : Grid)
  | blanked
  | beeped (on : Bool)
  deriving DecidableEq

@[ext] structure Session where
  machine : Machine
  /-- Cycles run on request only. -/
  singleStep : Bool := false
  stepRequested : Bool := false

namespace Session

def setSingleStep (s : Session) (on : Bool) : Session := { s with singleStep := on }

def requestStep (s : Session) : Session := { s with stepRequested := true }

def reset (s : Session) : Session × List Event :=
  ({ s with machine := s.machine.reset, stepRequested := false }, [.blanked])

/-- Lets the timers see some time, and then runs one cycle. -/
def stepAfter (m : Machine) (elapsed : Nanoseconds) : Machine × Except Stop Report :=
  match m.tickTimers elapsed with
  | none => (m, .error .timeOverflow)
  | some (m, ticked) =>
    match m.cycle with
    | (m, .error f) => (m, .error (.fault f))
    | (m, .ok signal) =>
      (m, .ok ⟨1, ticked, decide (signal = .redraw), decide (signal = .waiting)⟩)

/-- A single step: one tick of the timers and one cycle. -/
def stepMachine (m : Machine) : Machine × Except Stop Report := stepAfter m Clock.timerInterval

def stepIfRequested (s : Session) : Session × Except Stop Report :=
  if s.stepRequested then
    let (machine, result) := stepMachine s.machine
    ({ s with machine := machine, stepRequested := false }, result)
  else (s, .ok {})

def pass (s : Session) (elapsed : Nanoseconds) : Session × Except Stop Report :=
  if s.singleStep then s.stepIfRequested
  else
    let (machine, result) := s.machine.advance elapsed
    ({ s with machine := machine }, result)

/-- What the devices are told at the end of a frame. After a fault the picture is shown because
cycles before it may have drawn. -/
def closing (m : Machine) : Except Stop Report → List Event
  | .ok report =>
    (if report.redraw then [.shown m.display.grid] else []) ++ [.beeped m.sound.isRunning]
  | .error (.fault _) => [.shown m.display.grid]
  | .error .timeOverflow => []

/-- Hands the keys to the machine, lets it run, and tells the devices. -/
def frame (s : Session) (elapsed : Nanoseconds) (keys : Keypad) :
    Session × List Event × Except Stop Report :=
  let (s, result) := { s with machine := s.machine.setKeypad keys }.pass elapsed
  (s, .keysRead :: closing s.machine result, result)

inductive Command where
  | frame (elapsed : Nanoseconds) (keys : Keypad)
  | requestStep
  | setSingleStep (on : Bool)
  | reset

/-- Only frames have a result. -/
def perform (s : Session) : Command → Session × List Event × Option (Except Stop Report)
  | .frame elapsed keys =>
    let (s, events, result) := s.frame elapsed keys
    (s, events, some result)
  | .requestStep => (s.requestStep, [], none)
  | .setSingleStep on => (s.setSingleStep on, [], none)
  | .reset =>
    let (s, events) := s.reset
    (s, events, none)

def run (s : Session) : List Command → Session × List Event
  | [] => (s, [])
  | command :: commands =>
    let (s, events, _) := s.perform command
    let (s, more) := s.run commands
    (s, events ++ more)

end Session
end ChipEight
