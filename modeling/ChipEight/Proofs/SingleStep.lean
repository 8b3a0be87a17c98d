import Mathlib.Data.List.Basic
import Mathlib.Data.List.Induction
import ChipEight.Proofs.Screen
import ChipEight.Proofs.TimerTicks

/-
  Single-step mode. A request waits for the next frame in this mode, over frames at full speed and
  changes of the mode, and any number of requests are one. The step that it buys is a tick of the
  timers and a cycle, and no duration has a part in it.
-/
namespace ChipEight

namespace Session

/-- The mode after a command. -/
def Command.modeAfter (mode : Bool) : Command → Bool
  | .setSingleStep on => on
  | .frame _ _ | .requestStep | .reset => mode

/-- Whether cycles run on request only after the commands. At first they do not. -/
def singleMode (commands : List Command) : Bool := commands.foldl Command.modeAfter false

/-- A step was requested after the last reset and after the last frame in single-step mode. -/
def Pending (commands : List Command) : Prop :=
  ∃ before later, commands = before ++ .requestStep :: later ∧ .reset ∉ later ∧
    ∀ first elapsed keys rest, later = first ++ .frame elapsed keys :: rest →
      singleMode (before ++ .requestStep :: first) = false

/-- The commands with no durations in their single-step frames. -/
def untimed : Bool → List Command → List Command
  | _, [] => []
  | mode, .frame elapsed keys :: commands =>
    .frame (if mode then 0 else elapsed) keys :: untimed mode commands
  | mode, command :: commands => command :: untimed (command.modeAfter mode) commands

/-- State, events and result after each of the commands. -/
def trace (s : Session) :
    List Command → List (Session × List Event × Option (Except Stop Report))
  | [] => []
  | command :: commands => s.perform command :: (s.perform command).1.trace commands

section Commands
variable (commands : List Command) (command : Command)

theorem singleMode_concat :
    singleMode (commands ++ [command]) = command.modeAfter (singleMode commands) := by
  rw [singleMode, List.foldl_append]
  rfl

theorem not_pending_nil : ¬ Pending [] := by
  rintro ⟨before, later, same, -⟩
  cases before <;> cases same

/-- The last command makes a request, or leaves an earlier one. -/
theorem pending_concat : Pending (commands ++ [command]) ↔
    command = .requestStep ∨ Pending commands ∧ command ≠ .reset ∧
      ∀ elapsed keys, command = .frame elapsed keys → singleMode commands = false := by
  constructor
  · rintro ⟨before, later, same, noReset, running⟩
    rcases List.eq_nil_or_concat' later with rfl | ⟨earlier, last, rfl⟩
    · obtain ⟨-, same⟩ := List.append_inj' same rfl
      exact .inl (List.singleton_inj.mp same)
    · have split : commands ++ [command] = (before ++ .requestStep :: earlier) ++ [last] := by
        simpa using same
      obtain ⟨rfl, same⟩ := List.append_inj' split rfl
      obtain rfl : command = last := by simpa using same
      right
      refine ⟨⟨before, earlier, rfl, fun mem => noReset (List.mem_append_left _ mem), ?_⟩, ?_, ?_⟩
      · intro first elapsed keys rest place
        exact running first elapsed keys (rest ++ [command]) (by simp [place])
      · intro reset
        exact noReset (by simp [reset])
      · intro elapsed keys frame
        exact running earlier elapsed keys [] (by simp [frame])
  · rintro (rfl | ⟨⟨before, later, rfl, noReset, running⟩, kept, still⟩)
    · refine ⟨commands, [], rfl, List.not_mem_nil, ?_⟩
      intro first elapsed keys rest none
      cases first <;> cases none
    · refine ⟨before, later ++ [command], by simp, by simp [noReset, Ne.symm kept], ?_⟩
      intro first elapsed keys rest place
      rcases List.eq_nil_or_concat' rest with rfl | ⟨earlier, last, rfl⟩
      · obtain ⟨rfl, same⟩ := List.append_inj' place rfl
        exact still elapsed keys (by simpa using same)
      · have split : later ++ [command] = (first ++ .frame elapsed keys :: earlier) ++ [last] := by
          simpa using place
        obtain ⟨rfl, -⟩ := List.append_inj' split rfl
        exact running first elapsed keys earlier rfl

end Commands

section Frames
variable (s : Session)

/-- A frame keeps the mode, and uses a request up in single-step mode only. -/
theorem modes_pass (elapsed : Nanoseconds) :
    (s.pass elapsed).1.singleStep = s.singleStep ∧
      (s.pass elapsed).1.stepRequested = (s.stepRequested && !s.singleStep) := by
  by_cases single : s.singleStep = true
  · rw [s.pass_single single]
    by_cases requested : s.stepRequested = true
    · obtain ⟨machine, result, -, done⟩ := s.stepIfRequested_eq requested
      rw [done]
      exact ⟨rfl, by simp [single]⟩
    · rw [s.stepIfRequested_idle requested]
      exact ⟨rfl, by simp [requested]⟩
  · rw [s.pass_running single]
    exact ⟨rfl, by simp [single]⟩

theorem singleStep_perform (command : Command) :
    (s.perform command).1.singleStep = command.modeAfter s.singleStep := by
  cases command with
  | frame elapsed keys => exact (modes_pass _ elapsed).1
  | requestStep => rfl
  | setSingleStep on => rfl
  | reset => rfl

theorem stepRequested_perform (command : Command) :
    (s.perform command).1.stepRequested = true ↔
      command = .requestStep ∨ s.stepRequested = true ∧ command ≠ .reset ∧
        ∀ elapsed keys, command = .frame elapsed keys → s.singleStep = false := by
  cases command with
  | frame elapsed keys =>
    have used : (s.perform (.frame elapsed keys)).1.stepRequested =
        (s.stepRequested && !s.singleStep) :=
      (modes_pass { s with machine := s.machine.setKeypad keys } elapsed).2
    rw [used]
    simp
  | requestStep => simp [perform, requestStep]
  | setSingleStep on => simp [perform, setSingleStep]
  | reset => simp [perform, reset]

variable {config : Config}

theorem bounded_stepAfter {m : Machine} (h : m.Bounded config) (elapsed : Nanoseconds) :
    (stepAfter m elapsed).1.Bounded config := by
  rcases stepAfter_cases m elapsed with ⟨-, done⟩ | ⟨start, ticked, ticks, done⟩
  · rw [done]
    exact h
  · rw [done]
    exact (h.tickTimers ticks).cycle

theorem bounded_pass (h : s.machine.Bounded config) (elapsed : Nanoseconds) :
    (s.pass elapsed).1.machine.Bounded config := by
  by_cases single : s.singleStep = true
  · rw [s.pass_single single]
    by_cases requested : s.stepRequested = true
    · obtain ⟨machine, result, stepped, done⟩ := s.stepIfRequested_eq requested
      have bounded := bounded_stepAfter h Clock.timerInterval
      rw [← stepMachine, stepped] at bounded
      rw [done]
      exact bounded
    · rw [s.stepIfRequested_idle requested]
      exact h
  · rw [s.pass_running single]
    exact h.advance elapsed

theorem bounded_perform (h : s.machine.Bounded config) (command : Command) :
    (s.perform command).1.machine.Bounded config := by
  cases command with
  | frame elapsed keys => exact bounded_pass _ (h.setKeypad keys) elapsed
  | requestStep => exact h
  | setSingleStep on => exact h
  | reset => exact h.reset

/-- The step that a request buys, on a machine whose carry is below an interval. -/
theorem stepMachine_eq {m : Machine} (early : m.sinceTick < Clock.timerInterval) :
    stepMachine m = (m.ticked.cycle.1, answerOf true m.ticked.cycle.2) := by
  have ready := Machine.tickTimers_interval early
  rw [stepMachine]
  rcases stepAfter_cases m Clock.timerInterval with ⟨overflow, -⟩ | ⟨start, ticked, ticks, done⟩
  · rw [overflow] at ready
    cases ready
  · obtain ⟨rfl, rfl⟩ := Prod.mk.inj (Option.some.inj (ticks.symm.trans ready))
    exact done

/-- In single-step mode the duration of a frame is not looked at. -/
theorem frame_single (single : s.singleStep = true) (elapsed : Nanoseconds) (keys : Keypad) :
    s.frame elapsed keys =
      let done := ({ s with machine := s.machine.setKeypad keys } : Session).stepIfRequested
      (done.1, .keysRead :: closing done.1.machine done.2, done.2) := by
  have passed := pass_single { s with machine := s.machine.setKeypad keys } single elapsed
  rw [frame, passed]

theorem frame_steps (single : s.singleStep = true) (requested : s.stepRequested = true)
    (early : s.machine.sinceTick < Clock.timerInterval) (elapsed : Nanoseconds) (keys : Keypad) :
    let ready := (s.machine.setKeypad keys).ticked
    (s.frame elapsed keys).1 = { s with machine := ready.cycle.1, stepRequested := false } ∧
      (s.frame elapsed keys).2.2 = answerOf true ready.cycle.2 := by
  intro ready
  obtain ⟨machine, result, stepped, done⟩ := stepIfRequested_eq
    { s with machine := s.machine.setKeypad keys } requested
  have step := stepMachine_eq (m := s.machine.setKeypad keys) early
  obtain ⟨rfl, rfl⟩ := Prod.mk.inj (stepped.symm.trans step)
  rw [s.frame_single single, done]
  exact ⟨rfl, rfl⟩

theorem frame_idles (single : s.singleStep = true) (idle : ¬ s.stepRequested = true)
    (elapsed : Nanoseconds) (keys : Keypad) :
    (s.frame elapsed keys).1 = { s with machine := s.machine.setKeypad keys } ∧
      (s.frame elapsed keys).2.2 = .ok {} := by
  have done := stepIfRequested_idle { s with machine := s.machine.setKeypad keys } idle
  rw [s.frame_single single, done]
  exact ⟨rfl, rfl⟩

end Frames

section Runs
variable (s : Session) (commands : List Command)

theorem run_concat (command : Command) : (s.run (commands ++ [command])).1 =
    ((s.run commands).1.perform command).1 := by
  induction commands generalizing s with
  | nil => rfl
  | cons first commands ih => exact ih (s.perform first).1

theorem bounded_run {config : Config} (h : s.machine.Bounded config) :
    (s.run commands).1.machine.Bounded config := by
  induction commands generalizing s with
  | nil => exact h
  | cons command commands ih => exact ih (s.perform command).1 (s.bounded_perform h command)

theorem singleStep_run (running : s.singleStep = false) :
    (s.run commands).1.singleStep = singleMode commands := by
  induction commands using List.reverseRecOn with
  | nil => exact running
  | append_singleton commands command ih =>
    rw [run_concat, singleStep_perform, ih, singleMode_concat]

/-- The session remembers a request for as long as the commands say that it is pending. -/
theorem stepRequested_run (running : s.singleStep = false) (idle : ¬ s.stepRequested = true) :
    (s.run commands).1.stepRequested = true ↔ Pending commands := by
  induction commands using List.reverseRecOn with
  | nil => exact iff_of_false idle not_pending_nil
  | append_singleton commands command ih =>
    rw [run_concat, stepRequested_perform, pending_concat, ih, s.singleStep_run commands running]

theorem trace_untimed : s.trace (untimed s.singleStep commands) = s.trace commands := by
  induction commands generalizing s with
  | nil => rfl
  | cons command commands ih =>
    have mode := s.singleStep_perform command
    have rest := ih (s.perform command).1
    rw [mode] at rest
    cases command with
    | frame elapsed keys =>
      have same : s.perform (.frame (if s.singleStep then 0 else elapsed) keys) =
          s.perform (.frame elapsed keys) := by
        by_cases single : s.singleStep = true
        · rw [if_pos single, perform, perform, s.frame_single single, s.frame_single single]
        · rw [if_neg single]
      rw [untimed, trace, trace, same]
      exact congrArg (_ :: ·) rest
    | requestStep => exact congrArg (_ :: ·) rest
    | setSingleStep on => exact congrArg (_ :: ·) rest
    | reset => exact congrArg (_ :: ·) rest

end Runs

/-- A frame in single-step mode runs one cycle if a step is pending, and no cycle otherwise. The
cycle follows one tick of both timers, and neither moves the time that is carried over, whether it
succeeds or fails. Durations of such frames have no part in any later state, event or result. -/
theorem single_step_is_exact (config : Config) (random : RandomSource) (ops : List Operation)
    (commands : List Command) :
    let start : Session := { machine := ((Machine.powerOn config random).run ops).1 }
    let now := (start.run commands).1
    (singleMode commands = true → ∀ elapsed keys,
      (Pending commands →
        let ready := (now.machine.setKeypad keys).ticked
        (now.machine.setKeypad keys).tickTimers Clock.timerInterval = some (ready, true) ∧
        (ready.delay.value.toNat = now.machine.delay.value.toNat - 1 ∧
          ready.sound.value.toNat = now.machine.sound.value.toNat - 1) ∧
        (now.frame elapsed keys).1 =
          { now with machine := ready.cycle.1, stepRequested := false } ∧
        (now.frame elapsed keys).2.2 = answerOf true ready.cycle.2 ∧
        (now.frame elapsed keys).1.machine.sinceTick = now.machine.sinceTick ∧
        (now.frame elapsed keys).1.machine.sinceCycle = now.machine.sinceCycle) ∧
      (¬ Pending commands →
        (now.frame elapsed keys).1 = { now with machine := now.machine.setKeypad keys } ∧
        (now.frame elapsed keys).2.2 = .ok {})) ∧
    ∀ later later', untimed (singleMode commands) later = untimed (singleMode commands) later' →
      now.trace later = now.trace later' := by
  intro start now
  have mode : now.singleStep = singleMode commands := start.singleStep_run commands rfl
  have requested : now.stepRequested = true ↔ Pending commands :=
    start.stepRequested_run commands rfl (by simp [start])
  have initial : start.machine.Bounded config := (Machine.Bounded.powerOn config random).run ops
  have early := (start.bounded_run commands initial).sinceTick
  constructor
  · intro single elapsed keys
    rw [← mode] at single
    constructor
    · intro pending ready
      obtain ⟨state, answer⟩ := now.frame_steps single (requested.mpr pending) early elapsed keys
      refine ⟨Machine.tickTimers_interval early, ?_, state, answer, ?_, ?_⟩
      · exact ⟨Timer.value_tick_toNat _, Timer.value_tick_toNat _⟩
      · rw [state]
        exact Machine.sinceTick_cycle _
      · rw [state]
        exact Machine.sinceCycle_cycle _
    · intro settled
      exact now.frame_idles single (fun h => settled (requested.mp h)) elapsed keys
  · intro later later' same
    rw [← now.trace_untimed later, ← now.trace_untimed later', mode, same]

/-- Two instructions that start the delay timer, and a word that is none. -/
def delayThenFault : List Operation :=
  [.load ⟨"", [0x60, 0x05, 0xF0, 0x15, 0xFF, 0xFF]⟩, .cycle, .cycle, .tickTimers 5]

def twoRequests : List Command :=
  [.frame 1000 Keypad.released, .setSingleStep true, .requestStep, .requestStep]

/-- The first frame steps, with a fault, and the second one is idle. -/
theorem two_requests_are_one_step :
    let start : Session :=
      { machine := ((Machine.powerOn {} (.cyclic #[0])).run delayThenFault).1 }
    let now := (start.run twoRequests).1
    let next := (start.run (twoRequests ++ [.frame 7 Keypad.released])).1
    (singleMode twoRequests = true ∧ Pending twoRequests ∧
        (now.frame 7 Keypad.released).1.machine.sinceTick = now.machine.sinceTick) ∧
      (singleMode (twoRequests ++ [.frame 7 Keypad.released]) = true ∧
        ¬ Pending (twoRequests ++ [.frame 7 Keypad.released]) ∧
        (next.frame 9 Keypad.released).2.2 = .ok {}) ∧
      untimed true [.frame 1 Keypad.released, .requestStep, .frame 2 Keypad.released] =
        untimed true [.frame 3 Keypad.released, .requestStep, .frame 0 Keypad.released] ∧
      now.trace [.frame 1 Keypad.released, .requestStep, .frame 2 Keypad.released] =
        now.trace [.frame 3 Keypad.released, .requestStep, .frame 0 Keypad.released] := by
  have pending : Pending twoRequests :=
    (pending_concat (twoRequests.take 3) .requestStep).mpr (.inl rfl)
  have settled : ¬ Pending (twoRequests ++ [.frame 7 Keypad.released]) := by
    rw [pending_concat]
    rintro (request | ⟨-, -, running⟩)
    · cases request
    · cases running 7 Keypad.released rfl
  obtain ⟨frames, blind⟩ := single_step_is_exact {} (.cyclic #[0]) delayThenFault twoRequests
  obtain ⟨idleFrames, -⟩ := single_step_is_exact {} (.cyclic #[0]) delayThenFault
    (twoRequests ++ [.frame 7 Keypad.released])
  obtain ⟨-, -, -, -, carry, -⟩ := (frames rfl 7 Keypad.released).1 pending
  exact ⟨⟨rfl, pending, carry⟩, ⟨rfl, settled, ((idleFrames rfl 9 Keypad.released).2 settled).2⟩,
    rfl, blind _ _ rfl⟩

end Session
end ChipEight
