import Mathlib.Logic.Function.Iterate
import ChipEight.Proofs.Pacing

/-
  Where the time of the timers goes. Calls on the timers stand in a history between cycles, fetches
  and changes of keys that set no timer. Every nanosecond of such a call is in a tick, in the carry,
  or dropped by the cap on the carry, and a call of at most one interval drops none.
-/
namespace ChipEight

/-- The time for which an operation calls on the timers, if it does. -/
def Operation.timerTimes : Operation → List Nanoseconds
  | .tickTimers elapsed => [elapsed]
  | _ => []

namespace Machine
variable (m : Machine)

/-- Every operation of a history meets a condition on it and on the machine that performs it. -/
def Throughout (condition : Machine → Operation → Prop) (m : Machine) : List Operation → Prop
  | [] => True
  | op :: ops => condition m op ∧ (m.perform op).1.Throughout condition ops

/-- The operation does nothing to the timers but let them tick, and then the times add up. -/
def OnlyTicks : Operation → Prop
  | .tickTimers elapsed => m.sinceTick + elapsed < Clock.limit
  | .cycle => ∀ x, m.current ≠ .ok (.setDelay x) ∧ m.current ≠ .ok (.setSound x)
  | .load program => Memory.programCapacity < program.bytes.length
  | .reset => False
  | .advance _ => False
  | .fetch | .setKey _ _ | .toggleKey _ | .setKeypad _ => True

instance Throughout.decidable {condition : Machine → Operation → Prop}
    [each : ∀ m op, Decidable (condition m op)] (m : Machine) :
    (ops : List Operation) → Decidable (m.Throughout condition ops)
  | [] => .isTrue trivial
  | op :: ops =>
    have later : Decidable ((m.perform op).1.Throughout condition ops) :=
      Throughout.decidable (m.perform op).1 ops
    @instDecidableAnd _ _ (each m op) later

instance OnlyTicks.decidable (m : Machine) : (op : Operation) → Decidable (m.OnlyTicks op)
  | .tickTimers _ => inferInstanceAs (Decidable (_ < _))
  | .cycle => inferInstanceAs (Decidable (∀ _, _))
  | .load _ => inferInstanceAs (Decidable (_ < _))
  | .reset | .advance _ => .isFalse id
  | .fetch | .setKey _ _ | .toggleKey _ | .setKeypad _ => .isTrue trivial

/-- What the timers of a machine have become after calls for these times, of which so many have let
them tick. -/
structure Accounts (now : Machine) (times : List Nanoseconds) (ticks : Nat) : Prop where
  early : now.sinceTick < Clock.timerInterval
  covered : ticks * Clock.timerInterval + now.sinceTick ≤ m.sinceTick + times.sum
  exact : (∀ time ∈ times, time ≤ Clock.timerInterval) →
    ticks * Clock.timerInterval + now.sinceTick = m.sinceTick + times.sum
  delay : now.delay = Timer.tick^[ticks] m.delay
  sound : now.sound = Timer.tick^[ticks] m.sound

variable {m}

theorem Accounts.of_same {now : Machine} (early : m.sinceTick < Clock.timerInterval)
    (sinceTick : now.sinceTick = m.sinceTick) (delay : now.delay = m.delay)
    (sound : now.sound = m.sound) : m.Accounts now [] 0 where
  early := by rwa [sinceTick]
  covered := by simp [sinceTick]
  exact := by simp [sinceTick]
  delay := delay
  sound := sound

theorem Accounts.trans {mid now : Machine} {first second : List Nanoseconds} {k n : Nat}
    (before : m.Accounts mid first k) (after : mid.Accounts now second n) :
    m.Accounts now (first ++ second) (n + k) where
  early := after.early
  covered := by
    have left := before.covered
    have right := after.covered
    rw [List.sum_append, Nat.add_mul]
    omega
  exact := by
    intro short
    have left := before.exact fun time mem => short time (List.mem_append_left second mem)
    have right := after.exact fun time mem => short time (List.mem_append_right first mem)
    rw [List.sum_append, Nat.add_mul]
    omega
  delay := by rw [after.delay, before.delay, Function.iterate_add_apply]
  sound := by rw [after.sound, before.sound, Function.iterate_add_apply]

/-- What is left of a time that is at least one interval, with the cap on what is kept. -/
theorem carry_of_tick {interval passed : Nat} (full : interval ≤ passed) (positive : 0 < interval) :
    min (passed - interval) (interval - 1) < interval ∧
      interval + min (passed - interval) (interval - 1) ≤ passed ∧
      (passed < 2 * interval → interval + min (passed - interval) (interval - 1) = passed) := by
  omega

/-- One call. The carry is below an interval, so a call of at most one interval does not fill two,
and the cap takes nothing away. -/
theorem accounts_tickTimers {after : Machine} {elapsed : Nanoseconds} {ticked : Bool}
    (early : m.sinceTick < Clock.timerInterval)
    (ticks : m.tickTimers elapsed = some (after, ticked)) :
    m.Accounts after [elapsed] ticked.toNat := by
  rcases tickTimers_cases ticks with ⟨few, rfl, rfl⟩ | ⟨full, rfl, rfl⟩
  · exact {
      early := few
      covered := by simp
      exact := by simp
      delay := rfl
      sound := rfl }
  · obtain ⟨below, atMost, whole⟩ := carry_of_tick full (by decide)
    exact {
      early := below
      covered := by simpa using atMost
      exact := by
        intro short
        have one : elapsed ≤ Clock.timerInterval := short elapsed List.mem_cons_self
        have few := Nat.add_lt_add_of_lt_of_le early one
        rw [← Nat.two_mul] at few
        simpa using whole few
      delay := rfl
      sound := rfl }

/-- What stands between the calls leaves the clocks of the timers as they are, and does not answer
that they have ticked. -/
theorem kept_between_calls {op : Operation} (only : m.OnlyTicks op)
    (other : ∀ elapsed, op ≠ .tickTimers elapsed) :
    (m.perform op).1.sinceTick = m.sinceTick ∧ (m.perform op).1.delay = m.delay ∧
      (m.perform op).1.sound = m.sound ∧ (m.perform op).2 ≠ .ticked true := by
  cases op with
  | load program =>
    have tooLarge : ¬ program.bytes.length ≤ Memory.programCapacity := Nat.not_le.mpr only
    rw [perform, load_eq, if_neg tooLarge]
    exact ⟨rfl, rfl, rfl, by rintro ⟨⟩⟩
  | fetch =>
    rw [perform, fetch_eq]
    cases m.memory.word m.counter.toNat with
    | ok w => exact ⟨rfl, rfl, rfl, by rintro ⟨⟩⟩
    | error cause => exact ⟨rfl, rfl, rfl, by rintro ⟨⟩⟩
  | cycle =>
    rw [perform]
    rcases m.cycle_cases with ⟨f, -, done⟩ | ⟨w, i, word, read, -, -, done⟩
    · rw [done]
      exact ⟨rfl, rfl, rfl, by rintro ⟨⟩⟩
    · have runs : m.current = .ok i := (m.current_eq_ok_iff).mpr ⟨w, word, read⟩
      rw [done]
      refine ⟨rfl, ?_, ?_, by rintro ⟨⟩⟩
      · show (m.fetched w).delayAfter i = m.delay
        cases i with
        | setDelay x => exact absurd runs (only x).1
        | _ => rfl
      · show (m.fetched w).soundAfter i = m.sound
        cases i with
        | setSound x => exact absurd runs (only x).2
        | _ => rfl
  | tickTimers elapsed => exact absurd rfl (other elapsed)
  | reset => exact absurd only id
  | advance elapsed => exact absurd only id
  | setKey key pressed => exact ⟨rfl, rfl, rfl, by rintro ⟨⟩⟩
  | toggleKey key => exact ⟨rfl, rfl, rfl, by rintro ⟨⟩⟩
  | setKeypad keys => exact ⟨rfl, rfl, rfl, by rintro ⟨⟩⟩

/-- An operation calls on the timers, or it does nothing to them. -/
theorem onlyTicks_cases {op : Operation} (only : m.OnlyTicks op) :
    (∃ elapsed ticked, op = .tickTimers elapsed ∧
        m.tickTimers elapsed = some ((m.perform op).1, ticked) ∧
        [(m.perform op).2].count (.ticked true) = ticked.toNat) ∨
      (op.timerTimes = [] ∧ [(m.perform op).2].count (.ticked true) = 0 ∧
        (m.perform op).1.sinceTick = m.sinceTick ∧ (m.perform op).1.delay = m.delay ∧
        (m.perform op).1.sound = m.sound) := by
  by_cases calls : ∃ elapsed, op = .tickTimers elapsed
  · obtain ⟨elapsed, rfl⟩ := calls
    obtain ⟨after, ticked, ticks, -, -⟩ := tickTimers_of_fits only
    rw [perform, ticks]
    refine .inl ⟨elapsed, ticked, rfl, ticks, ?_⟩
    cases ticked <;> rfl
  · have other : ∀ elapsed, op ≠ .tickTimers elapsed := fun elapsed same => calls ⟨elapsed, same⟩
    obtain ⟨sinceTick, delay, sound, silent⟩ := kept_between_calls only other
    refine .inr ⟨?_, List.count_eq_zero.mpr (by simpa using silent.symm), sinceTick, delay, sound⟩
    cases op with
    | tickTimers elapsed => exact absurd rfl (other elapsed)
    | _ => rfl

theorem accounts_perform {op : Operation} (early : m.sinceTick < Clock.timerInterval)
    (only : m.OnlyTicks op) :
    m.Accounts (m.perform op).1 op.timerTimes ([(m.perform op).2].count (.ticked true)) := by
  rcases onlyTicks_cases only with ⟨elapsed, ticked, rfl, ticks, count⟩ |
    ⟨none, silent, sinceTick, delay, sound⟩
  · rw [count]
    exact accounts_tickTimers early ticks
  · rw [none, silent]
    exact .of_same early sinceTick delay sound

theorem count_ticked_cons (op : Operation) (ops : List Operation) :
    (m.run (op :: ops)).2.count (.ticked true) =
      ((m.perform op).1.run ops).2.count (.ticked true) +
        [(m.perform op).2].count (.ticked true) := by
  simp only [run, List.count_cons, List.count_nil, Nat.zero_add]

theorem accounts_run {ops : List Operation} (early : m.sinceTick < Clock.timerInterval)
    (only : m.Throughout OnlyTicks ops) :
    m.Accounts (m.run ops).1 (ops.flatMap Operation.timerTimes)
      ((m.run ops).2.count (.ticked true)) := by
  induction ops generalizing m with
  | nil => exact .of_same early rfl rfl rfl
  | cons op ops ih =>
    have first := accounts_perform early only.1
    have rest := ih first.early only.2
    rw [count_ticked_cons, List.flatMap_cons]
    exact first.trans rest

theorem value_of_ticks (n : Nat) (t : Timer) :
    (Timer.tick^[n] t).value.toNat = t.value.toNat - n := by
  induction n generalizing t with
  | zero => rfl
  | succ n ih =>
    rw [Function.iterate_succ_apply, ih, Timer.value_tick_toNat]
    omega

/-- A call for no time leaves a machine alone whose carry is below an interval. -/
theorem tickTimers_zero (early : m.sinceTick < Clock.timerInterval) :
    m.tickTimers 0 = some (m, false) := by
  have fits : m.sinceTick + 0 < Clock.limit := Nat.lt_trans early (by decide)
  obtain ⟨after, ticked, ticks, -, -⟩ := tickTimers_of_fits fits
  rcases tickTimers_cases ticks with ⟨-, rfl, rfl⟩ | ⟨full, -, -⟩
  · exact ticks
  · exact absurd full (Nat.not_le.mpr early)

/-- The machine with both timers counted down once and all its clocks as they were. -/
def ticked (m : Machine) : Machine :=
  { m with delay := m.delay.tick, sound := m.sound.tick }

/-- A call for one interval is a tick. The interval is added to the carry and taken away again, and
the cap does not cut the carry down. -/
theorem tickTimers_interval (early : m.sinceTick < Clock.timerInterval) :
    m.tickTimers Clock.timerInterval = some (m.ticked, true) := by
  have fits : m.sinceTick + Clock.timerInterval < Clock.limit :=
    Nat.lt_trans (Nat.add_lt_add_right early _) (by decide)
  obtain ⟨after, ticked, ticks, -, -⟩ := tickTimers_of_fits fits
  rcases tickTimers_cases ticks with ⟨few, -, -⟩ | ⟨full, rfl, rfl⟩
  · exact absurd few (Nat.not_lt.mpr (Nat.le_add_left _ _))
  · obtain ⟨-, -, whole⟩ := carry_of_tick full (by decide)
    have kept := whole (Nat.two_mul _ ▸ Nat.add_lt_add_right early _)
    rw [ticks, Nat.add_left_cancel (kept.trans (Nat.add_comm _ _))]
    rfl

/-- Time is not lost on the timers, and not made up. After any history in which the timers are only
called on, both have been counted down once for each call that says so, and stop at zero. The ticks
and the carry stand for no more time than there was, and for exactly that time if no call was for
more than one interval. A further call for no time does nothing. -/
theorem ticks_account_for_time {m : Machine} {ops : List Operation}
    (early : m.sinceTick < Clock.timerInterval) (only : m.Throughout OnlyTicks ops) :
    let now := (m.run ops).1
    let times := ops.flatMap Operation.timerTimes
    let ticks := (m.run ops).2.count (.ticked true)
    now.sinceTick < Clock.timerInterval ∧
      ticks * Clock.timerInterval + now.sinceTick ≤ m.sinceTick + times.sum ∧
      ((∀ time ∈ times, time ≤ Clock.timerInterval) →
        ticks * Clock.timerInterval + now.sinceTick = m.sinceTick + times.sum ∧
          ticks = (m.sinceTick + times.sum) / Clock.timerInterval) ∧
      (now.delay = Timer.tick^[ticks] m.delay ∧ now.sound = Timer.tick^[ticks] m.sound) ∧
      (now.delay.value.toNat = m.delay.value.toNat - ticks ∧
        now.sound.value.toNat = m.sound.value.toNat - ticks) ∧
      now.tickTimers 0 = some (now, false) := by
  intro now times ticks
  have accounts : m.Accounts now times ticks := accounts_run early only
  refine ⟨accounts.early, accounts.covered, ?_, ⟨accounts.delay, accounts.sound⟩, ?_,
    tickTimers_zero accounts.early⟩
  · intro short
    have whole := accounts.exact short
    refine ⟨whole, ?_⟩
    rw [← whole]
    symm
    apply Nat.div_eq_of_lt_le
    · exact Nat.le_add_right _ _
    · rw [Nat.add_one_mul]
      exact Nat.add_lt_add_left accounts.early _
  · rw [accounts.delay, accounts.sound]
    exact ⟨value_of_ticks ticks m.delay, value_of_ticks ticks m.sound⟩

/-- A machine that loops, with a carry of one interval less a nanosecond. -/
def nearlyDue : Machine :=
  { uniform 0x12 0 with delay := ⟨3⟩, sound := ⟨1⟩, sinceTick := Clock.timerInterval - 1 }

/-- A whole interval, a nanosecond and almost an interval, between cycles and keys. -/
def shortCalls : List Operation :=
  [.tickTimers Clock.timerInterval, .cycle, .tickTimers 1, .setKey 3 true, .fetch,
    .tickTimers (Clock.timerInterval - 1)]

theorem short_calls_lose_no_time :
    let now := (nearlyDue.run shortCalls).1
    let times := shortCalls.flatMap Operation.timerTimes
    let ticks := (nearlyDue.run shortCalls).2.count (.ticked true)
    nearlyDue.sinceTick < Clock.timerInterval ∧ nearlyDue.Throughout OnlyTicks shortCalls ∧
      (∀ time ∈ times, time ≤ Clock.timerInterval) ∧
      ticks = (nearlyDue.sinceTick + times.sum) / Clock.timerInterval ∧
      now.delay.value.toNat = nearlyDue.delay.value.toNat - ticks ∧
      now.sound.value.toNat = nearlyDue.sound.value.toNat - ticks ∧
      now.tickTimers 0 = some (now, false) := by
  have early : nearlyDue.sinceTick < Clock.timerInterval := by decide
  have only : nearlyDue.Throughout OnlyTicks shortCalls := by decide +kernel
  have short : ∀ time ∈ shortCalls.flatMap Operation.timerTimes, time ≤ Clock.timerInterval := by
    decide
  obtain ⟨-, -, whole, -, values, again⟩ := ticks_account_for_time early only
  exact ⟨early, only, short, (whole short).2, values.1, values.2, again⟩

end Machine
end ChipEight
