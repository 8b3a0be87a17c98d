import ChipEight.Proofs.Pacing
import ChipEight.Proofs.ProgramFetch

/-
  How many cycles run in the long run. A cycle takes a whole number of nanoseconds. Where the rate
  does not divide a second, that number is rounded down and each cycle comes a little early. The
  machine is never a cycle behind its rate, but it gets ahead of it without a bound.
-/
namespace ChipEight

/-- So many cycles are the elapsed time times the rate, up to less than one cycle. -/
def OnRate (rate : Nat) (elapsed : Nanoseconds) (count : Nat) : Prop :=
  (((count * Clock.second : Nat) : Int) - (elapsed * rate : Nat)).natAbs < Clock.second

instance (rate : Nat) (elapsed : Nanoseconds) (count : Nat) :
    Decidable (OnRate rate elapsed count) :=
  inferInstanceAs (Decidable (_ < _))

def totalCycles (reports : List Report) : Nat := (reports.map Report.cycles).sum

namespace Machine

/-- Calls that all complete, none of them cut off by the cap or ended by a wait. -/
inductive Unhindered : Machine → List Nanoseconds → List Report → Machine → Prop where
  | done (m : Machine) : Unhindered m [] [] m
  | call {m next final : Machine} {elapsed : Nanoseconds} {times : List Nanoseconds}
      {report : Report} {reports : List Report}
      (called : m.advance elapsed = (next, .ok report)) (goesOn : report.waiting = false)
      (uncapped : (m.sinceCycle + elapsed) / m.config.cycleInterval ≤ m.config.maxCycles)
      (rest : Unhindered next times reports final) :
      Unhindered m (elapsed :: times) (report :: reports) final

section Counting
variable {m final : Machine}

theorem Cycles.config {signals : List Signal} (steps : m.Cycles signals final) :
    final.config = m.config := by
  induction signals generalizing m with
  | nil =>
    cases steps
    rfl
  | cons signal signals ih =>
    obtain ⟨next, cycled, rest⟩ := steps.uncons
    have here := m.config_cycle
    rw [cycled] at here
    exact (ih rest).trans here

/-- What one such call counts and leaves. -/
theorem count_of_call {next : Machine} {elapsed : Nanoseconds} {report : Report}
    (positive : 0 < m.config.cycleInterval) (called : m.advance elapsed = (next, .ok report))
    (goesOn : report.waiting = false)
    (uncapped : (m.sinceCycle + elapsed) / m.config.cycleInterval ≤ m.config.maxCycles) :
    report.cycles = (m.sinceCycle + elapsed) / m.config.cycleInterval ∧
      next.sinceCycle = (m.sinceCycle + elapsed) % m.config.cycleInterval ∧
      next.config = m.config := by
  obtain ⟨start, ticked, signals, ended, ticks, steps, -, count, rfl, advanced⟩ :=
    uncapped_advance positive (congrArg Prod.snd called) goesOn uncapped
  simp only [called] at advanced
  subst advanced
  refine ⟨?_, rfl, ?_⟩
  · rw [Report.count_all, ← count]
    exact Nat.zero_add _
  · obtain ⟨delay, sound, sinceTick, rfl⟩ := sameButTimers_of_ticks ticks
    exact steps.config

/-- The calls of a run count the intervals in the whole of their time, and leave the remainder. -/
theorem Unhindered.counts {times : List Nanoseconds} {reports : List Report}
    (calls : m.Unhindered times reports final) (positive : 0 < m.config.cycleInterval)
    (late : m.sinceCycle < m.config.cycleInterval) :
    totalCycles reports = (m.sinceCycle + times.sum) / m.config.cycleInterval ∧
      final.sinceCycle = (m.sinceCycle + times.sum) % m.config.cycleInterval := by
  induction calls with
  | done m =>
    rw [List.sum_nil, Nat.add_zero, Nat.div_eq_of_lt late, Nat.mod_eq_of_lt late]
    exact ⟨rfl, rfl⟩
  | @call m next final elapsed times report reports called goesOn uncapped rest ih =>
    obtain ⟨here, left, config⟩ := count_of_call positive called goesOn uncapped
    rw [config, left] at ih
    obtain ⟨later, ends⟩ := ih positive (Nat.mod_lt _ positive)
    rw [List.sum_cons, ← Nat.add_assoc]
    constructor
    · rw [div_add_of_pieces positive, ← here, ← later]
      simp [totalCycles]
    · rw [ends]
      exact Nat.mod_add_mod _ _ _

end Counting

section Drift
variable {rate count carried : Nat}

/-- The time that `count` cycles take at an interval that is rounded down, and what is left of it,
in units of a second divided by the rate. -/
theorem drift_of_rounding (rate count carried : Nat) :
    ((count * Clock.second : Nat) : Int) -
        ((count * (Clock.second / rate) + carried) * rate : Nat) =
      (count * (Clock.second % rate) : Nat) - (carried * rate : Nat) := by
  have whole : count * Clock.second =
      count * (Clock.second / rate) * rate + count * (Clock.second % rate) := by
    rw [Nat.mul_assoc, ← Nat.mul_add, Nat.div_add_mod']
  rw [Nat.add_mul]
  omega

/-- A machine that has lost no time since the start is on its rate until the rounding has won it a
whole cycle. It is never a cycle behind. -/
theorem onRate_iff (late : carried < Clock.second / rate) :
    OnRate rate (count * (Clock.second / rate) + carried) count ↔
      count * (Clock.second % rate) < Clock.second + carried * rate := by
  have less : carried * rate < Clock.second := by
    rcases Nat.eq_zero_or_pos rate with rfl | positive
    · exact (by decide : 0 < Clock.second)
    · exact Nat.lt_of_lt_of_le (Nat.mul_lt_mul_of_pos_right late positive) (Nat.div_mul_le_self _ _)
  rw [OnRate, drift_of_rounding]
  omega

end Drift

section Loops
variable {m : Machine}

/-- A machine in front of its program, which is a jump to itself. -/
def Loops (m : Machine) : Prop :=
  m.memory = .holding [0x12, 0x00] ∧ m.counter = 0x200

theorem Loops.cycle (h : m.Loops) :
    m.readsDelay = false ∧ ∃ next, m.cycle = (next, .ok .quiet) ∧ next.Loops := by
  have start : (0x200 : Word).toNat = 0x200 + 2 * 0 := rfl
  have word : m.memory.word m.counter.toNat = .ok 0x1200 := by
    rw [h.1, h.2, start, Memory.word_holding _ (by decide)]
    rfl
  have read : Instruction.ofWord? 0x1200 = some (.jump 0x200) := by decide
  constructor
  · have runs : m.current = .ok (.jump 0x200) := m.current_eq_ok_iff.mpr ⟨_, word, read⟩
    rw [readsDelay, runs]
  · exact ⟨_, m.cycle_of_granted word read rfl, h.1, rfl⟩

theorem Loops.steady (h : m.Loops) (n : Nat) :
    ∃ final, m.Steady (List.replicate n .quiet) final := by
  induction n generalizing m with
  | zero => exact ⟨m, .done m⟩
  | succ n ih =>
    obtain ⟨blind, next, cycled, again⟩ := h.cycle
    obtain ⟨final, rest⟩ := ih again
    exact ⟨final, .step cycled nofun blind rest⟩

/-- A call on such a machine that the cap lets run to its end runs all cycles that fit. -/
theorem Loops.unhindered (h : m.Loops) (elapsed : Nanoseconds)
    (positive : 0 < m.config.cycleInterval)
    (uncapped : (m.sinceCycle + elapsed) / m.config.cycleInterval ≤ m.config.maxCycles)
    (tickFits : m.sinceTick + elapsed < Clock.limit)
    (cycleFits : m.sinceCycle + elapsed < Clock.limit) :
    ∃ report final, m.Unhindered [elapsed] [report] final := by
  obtain ⟨start, ticked, ticks, -, -⟩ := tickTimers_of_fits tickFits
  have again : start.Loops := by
    obtain ⟨delay, sound, sinceTick, rfl⟩ := sameButTimers_of_ticks ticks
    exact h
  obtain ⟨final, steps⟩ := again.steady ((m.sinceCycle + elapsed) / m.config.cycleInterval)
  have paid : (List.replicate ((m.sinceCycle + elapsed) / m.config.cycleInterval)
      Signal.quiet).length = (m.sinceCycle + elapsed) / m.config.cycleInterval :=
    List.length_replicate
  have few := Nat.le_trans (Nat.le_of_eq paid) uncapped
  have advanced := steps.advance ticks positive few paid cycleFits
  refine ⟨_, _, .call advanced ?_ uncapped (.done _)⟩
  rw [Report.count_all]
  simp

end Loops

section Rates
variable {rate : Nat}

theorem cycleInterval_of_rate {m : Machine} (atRate : m.config.cyclesPerSecond = rate)
    (slow : 1 ≤ rate) : m.config.cycleInterval = Clock.second / rate := by
  rw [Config.cycleInterval, atRate, Nat.max_eq_left slow]

/-- How far the cycles of a run are from its rate. -/
theorem Unhindered.drift {m final : Machine} {times : List Nanoseconds} {reports : List Report}
    (calls : m.Unhindered times reports final) (slow : 1 ≤ rate) (fast : rate ≤ Clock.second)
    (atRate : m.config.cyclesPerSecond = rate) (fresh : m.sinceCycle = 0) :
    totalCycles reports = times.sum / (Clock.second / rate) ∧
      times.sum * rate < (totalCycles reports + 1) * Clock.second ∧
      (OnRate rate times.sum (totalCycles reports) ↔
        totalCycles reports * (Clock.second % rate) <
          Clock.second + final.sinceCycle * rate) := by
  have interval := cycleInterval_of_rate atRate slow
  have positive : 0 < Clock.second / rate := Nat.div_pos fast slow
  have counted := calls.counts
  rw [interval, fresh, Nat.zero_add] at counted
  obtain ⟨count, left⟩ := counted positive positive
  have late : final.sinceCycle < Clock.second / rate := by
    rw [left]
    exact Nat.mod_lt _ positive
  have split : times.sum =
      totalCycles reports * (Clock.second / rate) + final.sinceCycle := by
    rw [count, left, Nat.div_add_mod']
  refine ⟨count, ?_, ?_⟩
  · have whole : totalCycles reports * (Clock.second / rate) + final.sinceCycle <
        (totalCycles reports + 1) * (Clock.second / rate) := by
      rw [Nat.add_one_mul]
      exact Nat.add_lt_add_left late _
    calc
      times.sum * rate < (totalCycles reports + 1) * (Clock.second / rate) * rate := by
        rw [split]
        exact Nat.mul_lt_mul_of_pos_right whole slow
      _ = (totalCycles reports + 1) * (Clock.second / rate * rate) := Nat.mul_assoc _ _ _
      _ ≤ (totalCycles reports + 1) * Clock.second :=
        Nat.mul_le_mul_left _ (Nat.div_mul_le_self _ _)
  · rw [split]
    exact onRate_iff late

theorem Unhindered.onRate_of_divides {m final : Machine} {times : List Nanoseconds}
    {reports : List Report} (calls : m.Unhindered times reports final) (slow : 1 ≤ rate)
    (fast : rate ≤ Clock.second) (atRate : m.config.cyclesPerSecond = rate)
    (fresh : m.sinceCycle = 0) (even : rate ∣ Clock.second) :
    OnRate rate times.sum (totalCycles reports) := by
  obtain ⟨-, -, ahead⟩ := calls.drift slow fast atRate fresh
  rw [ahead, Nat.mod_eq_zero_of_dvd even, Nat.mul_zero]
  exact Nat.add_pos_left (by decide) _

/-- A fresh machine with a jump to itself as its program. -/
def loopWith (config : Config) : Machine :=
  ((powerOn config (.cyclic #[0])).load ⟨"", [0x12, 0x00]⟩).1

theorem loopWith_eq (config : Config) : loopWith config =
    { powerOn config (.cyclic #[0]) with memory := .holding [0x12, 0x00], name := "" } := by
  rw [loopWith, load_powerOn, if_pos (by decide)]

theorem loops_loopWith (config : Config) : (loopWith config).Loops := by
  rw [loopWith_eq]
  exact ⟨rfl, rfl⟩

/-- The loop at a rate, with a cap that leaves room for a run of many cycles. -/
def loopAt (rate : Nat) : Machine :=
  loopWith { cyclesPerSecond := rate, maxCycles := Clock.second }

/-- Of as many cycles as a second has nanoseconds, each is early by a part of a nanosecond. -/
theorem loopAt_gets_ahead (slow : 1 ≤ rate) (fast : rate ≤ Clock.second)
    (rounds : Clock.second % rate ≠ 0) :
    ∃ times reports final, (loopAt rate).Unhindered times reports final ∧
      ¬ OnRate rate times.sum (totalCycles reports) := by
  have loops : (loopAt rate).Loops := loops_loopWith _
  have interval : (loopAt rate).config.cycleInterval = Clock.second / rate :=
    cycleInterval_of_rate rfl slow
  have positive : 0 < Clock.second / rate := Nat.div_pos fast slow
  have fits : 0 + Clock.second * (Clock.second / rate) < Clock.limit := by
    rw [Nat.zero_add]
    exact Nat.lt_of_le_of_lt (Nat.mul_le_mul_left _ (Nat.div_le_self _ _)) (by decide)
  have count : (0 + Clock.second * (Clock.second / rate)) / (Clock.second / rate) =
      Clock.second := by
    rw [Nat.zero_add, Nat.mul_div_cancel _ positive]
  obtain ⟨report, final, calls⟩ := loops.unhindered _ (interval ▸ positive)
    (by rw [interval]; exact Nat.le_of_eq count) fits fits
  obtain ⟨total, -, ahead⟩ := calls.drift slow fast rfl rfl
  obtain ⟨-, left⟩ := calls.counts (interval ▸ positive) (interval ▸ positive)
  have whole : [Clock.second * (Clock.second / rate)].sum =
      Clock.second * (Clock.second / rate) := List.sum_singleton
  have nothingLeft : final.sinceCycle = 0 := by
    rw [left, whole, interval]
    exact (congrArg (· % _) (Nat.zero_add _)).trans (Nat.mul_mod_left _ _)
  refine ⟨_, _, _, calls, ?_⟩
  rw [ahead, total, whole, Nat.mul_div_cancel _ positive, nothingLeft, Nat.zero_mul, Nat.add_zero,
    Nat.not_lt]
  exact Nat.le_mul_of_pos_right _ (Nat.pos_of_ne_zero rounds)

theorem divides_of_loop_onRate (slow : 1 ≤ rate) (fast : rate ≤ Clock.second)
    (onRate : ∀ final times reports, (loopAt rate).Unhindered times reports final →
      OnRate rate times.sum (totalCycles reports)) : rate ∣ Clock.second := by
  apply Classical.byContradiction
  intro uneven
  have rounds : Clock.second % rate ≠ 0 := fun none => uneven (Nat.dvd_of_mod_eq_zero none)
  obtain ⟨times, reports, final, calls, ahead⟩ := loopAt_gets_ahead slow fast rounds
  exact ahead (onRate final times reports calls)

/-- In every run whose calls are neither capped nor ended by a wait, the cycles are the intervals in
its time, and the machine is never a cycle behind its rate. It is on its rate until the rounding of
the interval has won it a whole cycle. So all runs at a rate are on it exactly when that rate
divides a second, and so are all runs of machines with a history from power on. -/
theorem runs_on_rate_iff_divides {rate : Nat} (slow : 1 ≤ rate) (fast : rate ≤ Clock.second) :
    (∀ (m final : Machine) times reports, m.config.cyclesPerSecond = rate → m.sinceCycle = 0 →
      m.Unhindered times reports final →
        totalCycles reports = times.sum / (Clock.second / rate) ∧
          times.sum * rate < (totalCycles reports + 1) * Clock.second ∧
          (OnRate rate times.sum (totalCycles reports) ↔
            totalCycles reports * (Clock.second % rate) <
              Clock.second + final.sinceCycle * rate)) ∧
      ((∀ (m final : Machine) times reports, m.config.cyclesPerSecond = rate → m.sinceCycle = 0 →
        m.Unhindered times reports final → OnRate rate times.sum (totalCycles reports)) ↔
          rate ∣ Clock.second) ∧
      ((∀ config random ops (final : Machine) times reports,
        let m := ((powerOn config random).run ops).1
        m.config.cyclesPerSecond = rate → m.sinceCycle = 0 →
          m.Unhindered times reports final → OnRate rate times.sum (totalCycles reports)) ↔
            rate ∣ Clock.second) := by
  refine ⟨?_, ⟨?_, ?_⟩, ⟨?_, ?_⟩⟩
  · intro m final times reports atRate fresh calls
    exact calls.drift slow fast atRate fresh
  · intro onRate
    apply divides_of_loop_onRate slow fast
    intro final times reports calls
    exact onRate (loopAt rate) final times reports rfl rfl calls
  · intro even m final times reports atRate fresh calls
    exact calls.onRate_of_divides slow fast atRate fresh even
  · intro onRate
    apply divides_of_loop_onRate slow fast
    intro final times reports calls
    exact onRate _ _ [.load ⟨"", [0x12, 0x00]⟩] final times reports rfl rfl calls
  · intro even config random ops final times reports m atRate fresh calls
    exact calls.onRate_of_divides slow fast atRate fresh even

theorem advance_of_answer {m : Machine} {elapsed : Nanoseconds} {report : Report}
    (answer : (m.perform (.advance elapsed)).2 = .report report) :
    m.advance elapsed = ((m.advance elapsed).1, .ok report) :=
  Prod.ext rfl (report_of_answer answer)

/-- The loop at a rate of six cycles in ten nanoseconds. -/
def fastLoop : Machine := loopWith { cyclesPerSecond := 600000000 }

/-- Its interval is one nanosecond, so in ten of them it runs ten cycles. -/
theorem fast_loop_runs_ahead :
    (1 ≤ fastLoop.config.cyclesPerSecond ∧ fastLoop.config.cyclesPerSecond ≤ Clock.second ∧
      fastLoop.sinceCycle = 0) ∧
      ∃ final, fastLoop.Unhindered [10] [{ cycles := 10 }] final ∧
        ¬ OnRate fastLoop.config.cyclesPerSecond 10 10 := by
  have answer : (fastLoop.perform (.advance 10)).2 = .report { cycles := 10 } := by
    decide +kernel
  have called := advance_of_answer answer
  have slow : 1 ≤ fastLoop.config.cyclesPerSecond := by decide +kernel
  have fast : fastLoop.config.cyclesPerSecond ≤ Clock.second := by decide +kernel
  have fresh : fastLoop.sinceCycle = 0 := by decide +kernel
  have uncapped : (fastLoop.sinceCycle + 10) / fastLoop.config.cycleInterval ≤
      fastLoop.config.maxCycles := by decide +kernel
  have ahead : ¬ OnRate fastLoop.config.cyclesPerSecond 10 10 := by decide +kernel
  exact ⟨⟨slow, fast, fresh⟩, _, .call called rfl uncapped (.done _), ahead⟩

/-- At three cycles per second the first second is on the rate, and some other run is not. -/
theorem thirds_of_a_second_drift :
    1 ≤ 3 ∧ 3 ≤ Clock.second ∧ (loopAt 3).config.cyclesPerSecond = 3 ∧
      (loopAt 3).sinceCycle = 0 ∧
      (∃ report final, (loopAt 3).Unhindered [Clock.second] [report] final ∧
        totalCycles [report] = 3 ∧ OnRate 3 Clock.second (totalCycles [report])) ∧
      ¬ ∀ (m final : Machine) times reports, m.config.cyclesPerSecond = 3 → m.sinceCycle = 0 →
        m.Unhindered times reports final → OnRate 3 times.sum (totalCycles reports) := by
  have slow : 1 ≤ 3 := by decide
  have fast : 3 ≤ Clock.second := by decide
  have loops : (loopAt 3).Loops := loops_loopWith _
  obtain ⟨each, all, -⟩ := runs_on_rate_iff_divides slow fast
  obtain ⟨report, final, calls⟩ := loops.unhindered Clock.second
    (by decide) (by decide) (by decide) (by decide)
  obtain ⟨total, -, ahead⟩ := each _ _ _ _ rfl rfl calls
  have three : totalCycles [report] = 3 := total
  refine ⟨slow, fast, rfl, rfl, ⟨report, final, calls, three, ?_⟩, ?_⟩
  · rw [three]
    decide
  · rw [all]
    decide

end Rates

end Machine
end ChipEight
