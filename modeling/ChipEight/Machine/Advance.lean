import ChipEight.Machine.Cycle

/-
  The passing of time: the timers first, then as many cycles as fit into the time at the
  configured rate. The cycles end early at the configured cap, at a wait for a key and at a fault.
-/
namespace ChipEight

/-- What happened while time passed. -/
structure Report where
  cycles : Nat := 0
  ticked : Bool := false
  redraw : Bool := false
  waiting : Bool := false
  deriving DecidableEq, Repr

/-- Why time could not pass as asked. -/
inductive Stop where
  | fault (f : Fault)
  /-- The times add up to no span of time. -/
  | timeOverflow
  deriving DecidableEq, Repr

namespace Machine

def spend (m : Machine) (interval : Nanoseconds) : Machine :=
  { m with sinceCycle := m.sinceCycle - interval }

/-- Keeps at most one interval of the time that is left. -/
def capDebt (m : Machine) (interval : Nanoseconds) : Machine :=
  { m with sinceCycle := min m.sinceCycle interval }

/-- Runs cycles while there is time for one, and at most as many as the first argument says.
The report is the one of the cycles before. -/
def runCycles (interval : Nanoseconds) : Nat → Machine → Report → Machine × Except Fault Report
  | 0, m, report => (m, .ok report)
  | cap + 1, m, report =>
    if m.sinceCycle < interval then (m, .ok report)
    else
      match (m.spend interval).cycle with
      | (m, .error f) => (m, .error f)
      | (m, .ok signal) =>
        let report := { report with cycles := report.cycles + 1 }
        match signal with
        | .waiting => (m, .ok { report with waiting := true })
        | .redraw => runCycles interval cap m { report with redraw := true }
        | .quiet | .returnDropped => runCycles interval cap m report

/-- Lets time pass. A fault keeps the effect of the cycles before it. -/
def advance (m : Machine) (elapsed : Nanoseconds) : Machine × Except Stop Report :=
  match m.tickTimers elapsed with
  | none => (m, .error .timeOverflow)
  | some (m, ticked) =>
    match Clock.add m.sinceCycle elapsed with
    | none => (m, .error .timeOverflow)
    | some time =>
      let interval := m.config.cycleInterval
      match runCycles interval m.config.maxCycles { m with sinceCycle := time }
          { ticked := ticked } with
      | (m, .ok report) => (m.capDebt interval, .ok report)
      | (m, .error f) => (m, .error (.fault f))

end Machine
end ChipEight
