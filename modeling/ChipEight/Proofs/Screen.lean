import ChipEight.Proofs.CarriedTime
import ChipEight.Session

/-
  What the devices are told. The picture changes in a cycle that asks for a redraw and in no
  other, a call that lets time pass keeps such a request until it ends, and a call that fails
  shows the picture in any case. So the screen never falls behind the machine.
-/
namespace ChipEight

/-- The picture on the screen after an event. -/
def Event.screen (before : Grid) : Event → Grid
  | .shown grid => grid
  | .blanked => Display.blankGrid
  | .keysRead => before
  | .beeped _ => before

/-- The picture on a screen that was blank before the events. -/
def screenAfter (events : List Event) : Grid := events.foldl Event.screen Display.blankGrid

/-- The picture is shown after a report of a redraw and after a fault. -/
def Shows : Except Stop Report → Prop
  | .ok report => report.redraw = true
  | .error (.fault _) => True
  | .error .timeOverflow => False

theorem Timer.isRunning_eq (t : Timer) : t.isRunning = decide (t.value ≠ 0) := by
  rw [Bool.eq_iff_iff]
  simp [isRunning]

/-- The events that a frame may consist of, given the machine at its end and its result. -/
inductive FrameEvents (m : Machine) : List Event → Except Stop Report → Prop where
  | drawn {report : Report} (redraw : report.redraw = true) :
      FrameEvents m
        [.keysRead, .shown m.display.grid, .beeped (decide (m.sound.value ≠ 0))] (.ok report)
  | undrawn {report : Report} (still : report.redraw = false) :
      FrameEvents m [.keysRead, .beeped (decide (m.sound.value ≠ 0))] (.ok report)
  | failed (f : Fault) : FrameEvents m [.keysRead, .shown m.display.grid] (.error (.fault f))

namespace Machine
variable {m : Machine}

theorem display_after (m : Machine) {i : Instruction} (quiet : m.signalOf i ≠ .redraw) :
    (m.after i).display = m.display := by
  cases i with
  | clearScreen => exact absurd rfl quiet
  | draw x y rows => exact absurd rfl quiet
  | _ => rfl

/-- A cycle that does not ask for a redraw leaves the picture alone. -/
theorem display_cycle (m : Machine) (quiet : m.cycle.2 ≠ .ok .redraw) :
    m.cycle.1.display = m.display := by
  rcases m.cycle_cases with ⟨f, -, done⟩ | ⟨w, i, -, -, -, -, done⟩
  · rw [done]
  · rw [done] at quiet ⊢
    have silent : (m.fetched w).signalOf i ≠ .redraw := fun same => quiet (by rw [same])
    exact (m.fetched w).display_after silent

theorem Cycles.display {signals : List Signal} {final : Machine}
    (steps : m.Cycles signals final) (quiet : .redraw ∉ signals) :
    final.display = m.display := by
  induction signals generalizing m with
  | nil =>
    cases steps
    rfl
  | cons signal signals ih =>
    obtain ⟨next, cycled, rest⟩ := steps.uncons
    simp only [List.mem_cons, not_or] at quiet
    have here := m.display_cycle (by rw [cycled]; simpa using Ne.symm quiet.1)
    rw [cycled] at here
    exact (ih rest quiet.2).trans here

theorem display_tickTimers {elapsed : Nanoseconds} {after : Machine} {ticked : Bool}
    (ticks : m.tickTimers elapsed = some (after, ticked)) : after.display = m.display := by
  obtain ⟨delay, sound, sinceTick, rfl⟩ := sameButTimers_of_ticks ticks
  rfl

/-- A call that lets time pass forgets no redraw before it ends. -/
theorem display_advance (m : Machine) {elapsed : Nanoseconds}
    (quiet : ¬ Shows (m.advance elapsed).2) : (m.advance elapsed).1.display = m.display := by
  by_cases fits : m.sinceTick + elapsed < Clock.limit ∧ m.sinceCycle + elapsed < Clock.limit
  · obtain ⟨start, ticked, signals, final, ticks, steps, -, ends⟩ :=
      advance_runs_cycles fits.1 fits.2
    rcases ends with ⟨-, -, -, done⟩ | ⟨-, -, -, f, -, done⟩
    · rw [done] at quiet ⊢
      have none : .redraw ∉ signals := by simpa [Shows, Report.count_all] using quiet
      exact (steps.display none).trans (display_tickTimers ticks)
    · rw [done] at quiet
      exact absurd trivial quiet
  · obtain ⟨-, same | ⟨ticked, ticks⟩⟩ := advance_overflows fits
    · rw [same]
    · exact display_tickTimers ticks

theorem advance_fits {elapsed : Nanoseconds}
    (fits : m.sinceTick + elapsed < Clock.limit ∧ m.sinceCycle + elapsed < Clock.limit) :
    (m.advance elapsed).2 ≠ .error .timeOverflow := by
  obtain ⟨start, ticked, signals, final, -, -, -, ends⟩ := advance_runs_cycles fits.1 fits.2
  rcases ends with ⟨-, -, -, done⟩ | ⟨-, -, -, f, -, done⟩
  · simp [done]
  · simp [done]

end Machine

namespace Session
variable (s : Session)

/-- What a step answers, given whether the timers ticked and the answer of its cycle. -/
def answerOf (ticked : Bool) : Except Fault Signal → Except Stop Report
  | .ok signal => .ok ⟨1, ticked, decide (signal = .redraw), decide (signal = .waiting)⟩
  | .error f => .error (.fault f)

/-- A step overflows, or it is a call on the timers and a cycle. -/
theorem stepAfter_cases (m : Machine) (elapsed : Nanoseconds) :
    (m.tickTimers elapsed = none ∧ stepAfter m elapsed = (m, .error .timeOverflow)) ∨
      ∃ start ticked, m.tickTimers elapsed = some (start, ticked) ∧
        stepAfter m elapsed = (start.cycle.1, answerOf ticked start.cycle.2) := by
  unfold stepAfter
  cases ticks : m.tickTimers elapsed with
  | none => exact .inl ⟨rfl, rfl⟩
  | some answer =>
    obtain ⟨start, ticked⟩ := answer
    refine .inr ⟨start, ticked, rfl, ?_⟩
    cases done : start.cycle with
    | mk next answer => cases answer <;> simp only [done, answerOf]

theorem display_stepAfter (m : Machine) (elapsed : Nanoseconds)
    (quiet : ¬ Shows (stepAfter m elapsed).2) :
    (stepAfter m elapsed).1.display = m.display := by
  rcases stepAfter_cases m elapsed with ⟨-, done⟩ | ⟨start, ticked, ticks, done⟩
  · rw [done]
  · rw [done] at quiet ⊢
    refine (start.display_cycle ?_).trans (Machine.display_tickTimers ticks)
    intro redraws
    rw [redraws] at quiet
    exact quiet rfl

theorem display_stepMachine (m : Machine) (quiet : ¬ Shows (stepMachine m).2) :
    (stepMachine m).1.display = m.display := by
  rw [stepMachine] at quiet ⊢
  exact display_stepAfter m _ quiet

theorem stepAfter_fits {m : Machine} {elapsed : Nanoseconds}
    (fits : m.sinceTick + elapsed < Clock.limit) :
    (stepAfter m elapsed).2 ≠ .error .timeOverflow := by
  rcases stepAfter_cases m elapsed with ⟨overflow, -⟩ | ⟨start, ticked, -, done⟩
  · obtain ⟨start, ticked, ticks, -, -⟩ := Machine.tickTimers_of_fits fits
    rw [overflow] at ticks
    cases ticks
  · rw [done]
    cases start.cycle.2 with
    | error f => simp [answerOf]
    | ok signal => simp [answerOf]

theorem stepMachine_fits {m : Machine}
    (fits : m.sinceTick + Clock.timerInterval < Clock.limit) :
    (stepMachine m).2 ≠ .error .timeOverflow := by
  rw [stepMachine]
  exact stepAfter_fits fits

/-- What a requested step does, with its parts named: nothing may look into the step itself, because
the interval in it is too large a numeral to compute with. -/
theorem stepIfRequested_eq (requested : s.stepRequested = true) :
    ∃ machine result, stepMachine s.machine = (machine, result) ∧
      s.stepIfRequested = ({ s with machine := machine, stepRequested := false }, result) := by
  cases done : stepMachine s.machine with
  | mk machine result =>
    refine ⟨machine, result, rfl, ?_⟩
    unfold stepIfRequested
    rw [if_pos requested, done]

theorem stepIfRequested_idle (idle : ¬ s.stepRequested = true) :
    s.stepIfRequested = (s, .ok {}) := by
  unfold stepIfRequested
  rw [if_neg idle]

theorem pass_single (single : s.singleStep = true) (elapsed : Nanoseconds) :
    s.pass elapsed = s.stepIfRequested := by
  unfold pass
  rw [if_pos single]

theorem pass_running (running : ¬ s.singleStep = true) (elapsed : Nanoseconds) :
    s.pass elapsed =
      ({ s with machine := (s.machine.advance elapsed).1 }, (s.machine.advance elapsed).2) := by
  unfold pass
  rw [if_neg running]

/-- In both modes a frame whose result does not show the picture has not changed it. -/
theorem display_pass (elapsed : Nanoseconds) (quiet : ¬ Shows (s.pass elapsed).2) :
    (s.pass elapsed).1.machine.display = s.machine.display := by
  by_cases single : s.singleStep = true
  · rw [s.pass_single single] at quiet ⊢
    by_cases requested : s.stepRequested = true
    · obtain ⟨machine, result, stepped, done⟩ := s.stepIfRequested_eq requested
      have kept := display_stepMachine s.machine
      rw [stepped] at kept
      rw [done] at quiet ⊢
      exact kept quiet
    · rw [s.stepIfRequested_idle requested]
  · rw [s.pass_running single] at quiet ⊢
    exact s.machine.display_advance quiet

/-- No sum of times overflows in a frame. In single-step mode only a step adds times up. -/
structure TimeFits (elapsed : Nanoseconds) : Prop where
  running : s.singleStep = false →
    s.machine.sinceTick + elapsed < Clock.limit ∧ s.machine.sinceCycle + elapsed < Clock.limit
  stepping : s.singleStep = true → s.stepRequested = true →
    s.machine.sinceTick + Clock.timerInterval < Clock.limit

theorem pass_fits {elapsed : Nanoseconds} (fits : s.TimeFits elapsed) :
    (s.pass elapsed).2 ≠ .error .timeOverflow := by
  by_cases single : s.singleStep = true
  · rw [s.pass_single single]
    by_cases requested : s.stepRequested = true
    · obtain ⟨machine, result, stepped, done⟩ := s.stepIfRequested_eq requested
      have known := stepMachine_fits (fits.stepping single requested)
      rw [stepped] at known
      rw [done]
      exact known
    · rw [s.stepIfRequested_idle requested]
      simp
  · rw [s.pass_running single]
    exact Machine.advance_fits (fits.running (by simpa using single))

/-- The screen after the events of a frame, whatever it showed before. -/
theorem screen_closing (before : Grid) (m : Machine) (result : Except Stop Report)
    (kept : ¬ Shows result → before = m.display.grid) :
    (Event.keysRead :: closing m result).foldl Event.screen before = m.display.grid := by
  cases result with
  | error why =>
    cases why with
    | fault f => rfl
    | timeOverflow => exact kept id
  | ok report =>
    by_cases redraw : report.redraw = true
    · simp [closing, redraw, Event.screen]
    · simp [closing, redraw, Event.screen, kept redraw]

/-- Every command brings a screen that is up to date up to date again. -/
theorem screen_perform (command : Command) :
    (s.perform command).2.1.foldl Event.screen s.machine.display.grid =
      (s.perform command).1.machine.display.grid := by
  cases command with
  | frame elapsed keys =>
    have passed := ({ s with machine := s.machine.setKeypad keys } : Session).display_pass elapsed
    refine screen_closing _ _ _ fun quiet => ?_
    exact (congrArg Display.grid (passed quiet)).symm
  | requestStep => rfl
  | setSingleStep on => rfl
  | reset => rfl

theorem screen_run (commands : List Command) :
    (s.run commands).2.foldl Event.screen s.machine.display.grid =
      (s.run commands).1.machine.display.grid := by
  induction commands generalizing s with
  | nil => rfl
  | cons command commands ih =>
    have first := s.screen_perform command
    simp only [run, List.foldl_append]
    rw [first]
    exact ih _

theorem frame_events {elapsed : Nanoseconds} (fits : s.TimeFits elapsed) (keys : Keypad) :
    FrameEvents (s.frame elapsed keys).1.machine (s.frame elapsed keys).2.1
      (s.frame elapsed keys).2.2 := by
  have known := pass_fits { s with machine := s.machine.setKeypad keys }
    ⟨fits.running, fits.stepping⟩
  unfold frame
  generalize ({ s with machine := s.machine.setKeypad keys } : Session).pass elapsed = done
    at known
  obtain ⟨next, result⟩ := done
  cases result with
  | ok report =>
    simp only [closing, Timer.isRunning_eq]
    cases redraw : report.redraw with
    | true => exact .drawn redraw
    | false => exact .undrawn redraw
  | error why =>
    cases why with
    | fault f => exact .failed f
    | timeOverflow => exact absurd rfl known

/-- However a session goes on from a blank picture and a blank screen, the screen shows the picture
of the machine. A frame reads the keys; if it succeeds it shows the picture exactly when its report
asks for that, and then tells the beeper whether the sound timer runs; if it fails it shows the
picture and tells the beeper nothing. A reset blanks the screen, and nothing else says anything. -/
theorem screen_shows_the_picture {s : Session}
    (blank : s.machine.display.grid = Display.blankGrid) (commands : List Command) :
    let now := (s.run commands).1
    screenAfter (s.run commands).2 = now.machine.display.grid ∧
      (∀ elapsed keys, now.TimeFits elapsed →
        FrameEvents (now.frame elapsed keys).1.machine (now.frame elapsed keys).2.1
          (now.frame elapsed keys).2.2) ∧
      now.reset.2 = [.blanked] ∧ (now.perform .requestStep).2.1 = [] ∧
      ∀ on, (now.perform (.setSingleStep on)).2.1 = [] := by
  intro now
  have current := s.screen_run commands
  rw [blank] at current
  refine ⟨current, ?_, rfl, rfl, fun on => rfl⟩
  intro elapsed keys fits
  exact now.frame_events fits keys

/-- A machine that draws in every cycle. -/
def painter : Session := { machine := Machine.uniform 0xD1 0 }

/-- A frame at full speed, and the preparation of a single step. -/
def drawThenStep : List Command :=
  [.frame 4000000 Keypad.released, .setSingleStep true, .requestStep]

theorem painter_shows_the_picture :
    painter.machine.display.grid = Display.blankGrid ∧
      (painter.run drawThenStep).1.TimeFits 0 ∧
      screenAfter (painter.run drawThenStep).2 =
        (painter.run drawThenStep).1.machine.display.grid ∧
      FrameEvents ((painter.run drawThenStep).1.frame 0 Keypad.released).1.machine
        ((painter.run drawThenStep).1.frame 0 Keypad.released).2.1
        ((painter.run drawThenStep).1.frame 0 Keypad.released).2.2 := by
  have blank : painter.machine.display.grid = Display.blankGrid := rfl
  have fits : (painter.run drawThenStep).1.TimeFits 0 := {
    running := by decide +kernel
    stepping := by decide +kernel }
  obtain ⟨current, frames, -, -, -⟩ :=
    screen_shows_the_picture (s := painter) blank drawThenStep
  exact ⟨blank, fits, current, frames 0 Keypad.released fits⟩

end Session
end ChipEight
