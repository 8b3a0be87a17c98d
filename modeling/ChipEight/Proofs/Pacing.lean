import Mathlib.Algebra.Ring.Nat
import ChipEight.Proofs.CarriedTime

/-
  Passing time at once and passing it in pieces. The clocks of a machine are its two timers and
  the times since a tick and since a cycle. Only one instruction reads a clock, so without it two
  machines that differ in nothing else go through the same cycles, and what one call runs is what
  the calls for the pieces run one after the other.
-/
namespace ChipEight

/-- Machines with different clocks. -/
def Difference.clocks : Difference where
  delay := anything
  sound := anything
  sinceTick := anything
  sinceCycle := anything

theorem Difference.hidden_clocks : clocks.Hidden fun i => ∀ x, i ≠ .readDelay x :=
  .of_core ⟨rfl, rfl, rfl⟩ ⟨fun _ => rfl, fun _ => trivial, fun _ => trivial⟩
    (fun same _ _ => same) fun _ blind => absurd rfl (blind _)

namespace Machine
variable (m : Machine)

/-- The machine with its timers stopped and no time passed. -/
def unclocked : Machine :=
  { m with delay := .stopped, sound := .stopped, sinceTick := 0, sinceCycle := 0 }

/-- Whether the next cycle copies the delay timer into a register. -/
def readsDelay : Bool :=
  match m.current with
  | .ok (.readDelay _) => true
  | _ => false

section Clocks

theorem alike_clocks_iff {m other : Machine} :
    m.Alike .clocks other ↔ m.unclocked = other.unclocked := by
  constructor
  · intro same
    exact Machine.ext same.config same.name same.lastWord same.memory same.registers same.stack rfl
      rfl same.display same.keypad same.random rfl rfl
  · intro same
    simp only [unclocked, Machine.mk.injEq] at same
    obtain ⟨config, name, lastWord, memory, registers, stack, -, -, display, keypad, random, -⟩ := same
    exact ⟨memory, registers, stack, config, name, lastWord, trivial, trivial, display, keypad,
      random, trivial, trivial⟩

/-- Two machines that differ in their clocks only go on doing so, unless the cycle reads one. -/
theorem cycle_of_same_unclocked {m other : Machine} (same : m.unclocked = other.unclocked)
    (blind : m.readsDelay = false) :
    m.cycle.1.unclocked = other.cycle.1.unclocked ∧ m.cycle.2 = other.cycle.2 := by
  have neutral : ∀ i ∈ m.executed, ∀ x, i ≠ .readDelay x := by
    rintro i runs x rfl
    rw [readsDelay, m.current_of_executed runs] at blind
    cases blind
  obtain ⟨next, answer⟩ := (alike_clocks_iff.mpr same).cycle Difference.hidden_clocks neutral
  exact ⟨alike_clocks_iff.mp next, answer⟩

/-- A tick changes clocks only, and time does not appear from nowhere. -/
theorem tickTimers_clocks {m start : Machine} {elapsed : Nanoseconds} {ticked : Bool}
    (ticks : m.tickTimers elapsed = some (start, ticked)) :
    start.unclocked = m.unclocked ∧ start.sinceTick ≤ m.sinceTick + elapsed := by
  rcases tickTimers_cases ticks with ⟨-, -, rfl⟩ | ⟨-, -, rfl⟩
  · exact ⟨rfl, Nat.le_refl _⟩
  · exact ⟨rfl, Nat.le_trans (Nat.min_le_left _ _) (Nat.sub_le _ _)⟩

end Clocks

/-- Cycles that succeed without a wait and without a look at the delay timer. -/
inductive Steady : Machine → List Signal → Machine → Prop where
  | done (m : Machine) : Steady m [] m
  | step {m next final : Machine} {signal : Signal} {signals : List Signal}
      (cycled : m.cycle = (next, .ok signal)) (goesOn : signal ≠ .waiting)
      (blind : m.readsDelay = false) (rest : Steady next signals final) :
      Steady m (signal :: signals) final

theorem div_add_of_pieces {interval : Nat} (positive : 0 < interval) (first second : Nat) :
    (first + second) / interval =
      first / interval + (first % interval + second) / interval := by
  calc
    (first + second) / interval
        = (interval * (first / interval) + first % interval + second) / interval := by
      rw [Nat.div_add_mod]
    _ = (interval * (first / interval) + (first % interval + second)) / interval := by
      rw [Nat.add_assoc]
    _ = first / interval + (first % interval + second) / interval :=
      Nat.mul_add_div positive _ _

section Runs
variable {m}

theorem Cycles.steady {signals : List Signal} {final : Machine} (steps : m.Cycles signals final)
    (goesOn : .waiting ∉ signals)
    (blind : ∀ j < signals.length, (m.run (List.replicate j .cycle)).1.readsDelay = false) :
    m.Steady signals final := by
  induction signals generalizing m with
  | nil =>
    cases steps
    exact .done _
  | cons signal signals ih =>
    obtain ⟨next, cycled, rest⟩ := steps.uncons
    simp only [List.mem_cons, not_or] at goesOn
    refine .step cycled (Ne.symm goesOn.1) (blind 0 (Nat.succ_pos _)) (ih rest goesOn.2 ?_)
    intro j inside
    have later := blind (j + 1) (Nat.succ_lt_succ inside)
    rw [List.replicate_succ, run, perform, cycled] at later
    exact later

namespace Steady
variable {signals : List Signal} {final : Machine}

theorem split {first second : List Signal} (steps : m.Steady (first ++ second) final) :
    ∃ mid, m.Steady first mid ∧ mid.Steady second final := by
  induction first generalizing m with
  | nil => exact ⟨m, .done m, steps⟩
  | cons signal first ih =>
    cases steps with
    | step cycled goesOn blind rest =>
      obtain ⟨mid, before, after⟩ := ih rest
      exact ⟨mid, .step cycled goesOn blind before, after⟩

theorem of_same_unclocked (steps : m.Steady signals final) {other : Machine}
    (same : m.unclocked = other.unclocked) :
    ∃ last, other.Steady signals last ∧ last.unclocked = final.unclocked := by
  induction steps generalizing other with
  | done m => exact ⟨other, .done other, same.symm⟩
  | @step m next final signal signals cycled goesOn blind rest ih =>
    obtain ⟨left, right⟩ := cycle_of_same_unclocked same blind
    rw [cycled] at left right
    obtain ⟨last, steps, ends⟩ := ih left
    have otherBlind : other.readsDelay = false :=
      (congrArg readsDelay same).symm.trans blind
    exact ⟨last, .step (Prod.ext rfl right.symm) goesOn otherBlind steps, ends⟩

theorem frame (steps : m.Steady signals final) :
    final.sinceTick = m.sinceTick ∧ final.config = m.config := by
  induction steps with
  | done m => exact ⟨rfl, rfl⟩
  | @step m next final signal signals cycled goesOn blind rest ih =>
    have tick := m.sinceTick_cycle
    have config := m.config_cycle
    rw [cycled] at tick config
    exact ⟨ih.1.trans tick, ih.2.trans config⟩

theorem no_wait (steps : m.Steady signals final) : .waiting ∉ signals := by
  induction steps with
  | done m => exact nofun
  | step cycled goesOn blind rest ih => simp [ih, Ne.symm goesOn]

/-- With time for exactly these cycles the loop runs them and leaves the remainder. -/
theorem runCycles (steps : m.Steady signals final) {interval cap time : Nat}
    (positive : 0 < interval) (few : signals.length ≤ cap)
    (paid : signals.length = time / interval) (report : Report) :
    (m.withTime time).runCycles interval cap report =
      (final.withTime (time % interval), .ok (signals.foldl .count report)) := by
  induction steps generalizing cap time report with
  | done m =>
    have late : time < interval := by
      rcases Nat.div_eq_zero_iff.mp paid.symm with none | late
      · omega
      · exact late
    rw [runCycles_late (m := m.withTime time) late, Nat.mod_eq_of_lt late]
    rfl
  | @step m next final signal signals cycled goesOn blind rest ih =>
    have due : interval ≤ time := by
      rw [List.length_cons] at paid
      exact (Nat.div_pos_iff.mp (by omega)).2
    obtain ⟨cap, rfl⟩ := Nat.exists_eq_succ_of_ne_zero (n := cap) (by
      rw [List.length_cons] at few
      omega)
    have spent : ((m.withTime time).spend interval).cycle =
        (next.withTime (time - interval), .ok signal) := by
      have same := m.cycle_withTime (time - interval)
      rw [cycled] at same
      exact same
    have rest : signals.length = (time - interval) / interval := by
      rw [List.length_cons, Nat.div_eq_sub_div positive due] at paid
      exact Nat.succ.inj paid
    rw [Nat.succ_eq_add_one, runCycles_due (m := m.withTime time) due, spent]
    simp only [if_neg goesOn]
    rw [ih (by simpa using few) rest, List.foldl_cons, ← Nat.mod_eq_sub_mod due]

/-- A call whose time is enough for exactly these cycles. -/
theorem advance {start : Machine} {elapsed : Nanoseconds} {ticked : Bool}
    (ticks : m.tickTimers elapsed = some (start, ticked)) (steps : start.Steady signals final)
    (positive : 0 < m.config.cycleInterval) (few : signals.length ≤ m.config.maxCycles)
    (paid : signals.length = (m.sinceCycle + elapsed) / m.config.cycleInterval)
    (fits : m.sinceCycle + elapsed < Clock.limit) :
    m.advance elapsed =
      (final.withTime ((m.sinceCycle + elapsed) % m.config.cycleInterval),
        .ok (signals.foldl .count { ticked := ticked })) := by
  have sameTime := sinceCycle_tickTimers ticks
  have sameConfig : start.unclocked.config = m.unclocked.config :=
    congrArg Machine.config (tickTimers_clocks ticks).1
  have advanced := advance_of_ticks ticks (sameTime ▸ fits)
  change start.config = m.config at sameConfig
  rw [sameTime, sameConfig, steps.runCycles positive few paid] at advanced
  have remainder : (m.sinceCycle + elapsed) % m.config.cycleInterval ≤ m.config.cycleInterval :=
    Nat.le_of_lt (Nat.mod_lt _ positive)
  simp only [advanced, capDebt, withTime, Nat.min_eq_left remainder]

end Steady

/-- Calls for pieces of time that run these cycles between them, and end in this state if the clocks
are left aside. -/
structure InPieces (m : Machine) (ds : List Nanoseconds) (signals : List Signal) (final : Machine)
    (reports : List Report) : Prop where
  answers : (m.run (ds.map .advance)).2 = reports.map .report
  goesOn : ∀ r ∈ reports, r.waiting = false
  cycles : (reports.map Report.cycles).sum = signals.length
  redraw : (∃ r ∈ reports, r.redraw = true) ↔ .redraw ∈ signals
  ends : (m.run (ds.map .advance)).1.unclocked = final.unclocked

theorem InPieces.none (m : Machine) : m.InPieces [] [] m [] where
  answers := rfl
  goesOn := nofun
  cycles := rfl
  redraw := by simp
  ends := rfl

theorem InPieces.after_call {ds : List Nanoseconds} {first second : List Signal}
    {next last final : Machine} {reports : List Report} {d : Nanoseconds} {ticked : Bool}
    (rest : next.InPieces ds second last reports)
    (called : m.advance d = (next, .ok (first.foldl .count { ticked := ticked })))
    (quiet : .waiting ∉ first) (sameEnd : last.unclocked = final.unclocked) :
    m.InPieces (d :: ds) (first ++ second) final
      (first.foldl .count { ticked := ticked } :: reports) where
  answers := by
    rw [List.map_cons, run, perform_advance, called]
    simp only [rest.answers, List.map_cons]
  goesOn := by
    intro r mem
    rcases List.mem_cons.mp mem with rfl | mem
    · simp [Report.count_all, quiet]
    · exact rest.goesOn r mem
  cycles := by simp [Report.count_all, rest.cycles]
  redraw := by simp [Report.count_all, rest.redraw]
  ends := by
    rw [List.map_cons, run, perform_advance, called]
    exact rest.ends.trans sameEnd

namespace Steady
variable {signals : List Signal} {final : Machine}

/-- The first piece of a longer time: a call for it runs the cycles that fit, and the machine after
it can run the others. -/
theorem first_piece {first second : List Signal} {d : Nanoseconds}
    (steps : m.Steady (first ++ second) final) (positive : 0 < m.config.cycleInterval)
    (few : first.length ≤ m.config.maxCycles)
    (paid : first.length = (m.sinceCycle + d) / m.config.cycleInterval)
    (tickFits : m.sinceTick + d < Clock.limit) (cycleFits : m.sinceCycle + d < Clock.limit) :
    ∃ next last ticked,
      m.advance d = (next, .ok (first.foldl .count { ticked := ticked })) ∧
      next.Steady second last ∧ last.unclocked = final.unclocked ∧
      next.config = m.config ∧ next.sinceTick ≤ m.sinceTick + d ∧
      next.sinceCycle = (m.sinceCycle + d) % m.config.cycleInterval := by
  obtain ⟨start, ticked, ticks, -, config⟩ := tickTimers_of_fits tickFits
  obtain ⟨clocks, later⟩ := tickTimers_clocks ticks
  obtain ⟨last, moved, sameEnd⟩ := steps.of_same_unclocked clocks.symm
  obtain ⟨mid, before, after⟩ := moved.split
  obtain ⟨sameTick, sameConfig⟩ := before.frame
  -- the call puts its own remainder of time on the clock, which no cycle reads
  have resumed : mid.unclocked =
      (mid.withTime ((m.sinceCycle + d) % m.config.cycleInterval)).unclocked := rfl
  obtain ⟨other, rest, otherEnd⟩ := after.of_same_unclocked resumed
  exact ⟨_, other, ticked, before.advance ticks positive few paid cycleFits, rest,
    otherEnd.trans sameEnd, sameConfig.trans config,
    Nat.le_trans (Nat.le_of_eq sameTick) later, rfl⟩

/-- The cycles of a whole call, run by calls for the pieces of its time. -/
theorem pieces {ds : List Nanoseconds} (steps : m.Steady signals final)
    (positive : 0 < m.config.cycleInterval) (few : signals.length ≤ m.config.maxCycles)
    (paid : signals.length = (m.sinceCycle + ds.sum) / m.config.cycleInterval)
    (calls : ds ≠ [] ∨ m.sinceCycle < m.config.cycleInterval)
    (tickFits : m.sinceTick + ds.sum < Clock.limit)
    (cycleFits : m.sinceCycle + ds.sum < Clock.limit) :
    ∃ reports : List Report, m.InPieces ds signals final reports ∧
      (m.run (ds.map .advance)).1.sinceCycle =
        (m.sinceCycle + ds.sum) % m.config.cycleInterval := by
  induction ds generalizing m signals final with
  | nil =>
    have late : m.sinceCycle < m.config.cycleInterval := by simpa using calls
    rw [List.sum_nil, Nat.add_zero, Nat.div_eq_of_lt late, List.length_eq_zero_iff] at paid
    subst paid
    cases steps
    refine ⟨[], .none m, ?_⟩
    rw [List.sum_nil, Nat.add_zero, Nat.mod_eq_of_lt late]
    rfl
  | cons d ds ih =>
    rw [List.sum_cons, ← Nat.add_assoc] at paid tickFits cycleFits ⊢
    rw [div_add_of_pieces positive] at paid
    -- the signals of the first call, and those of the calls after it
    obtain ⟨first, second, rfl, here⟩ : ∃ first second, signals = first ++ second ∧
        first.length = (m.sinceCycle + d) / m.config.cycleInterval := by
      refine ⟨_, _, (List.take_append_drop _ signals).symm, List.length_take_of_le ?_⟩
      rw [paid]
      exact Nat.le_add_right _ _
    rw [List.length_append] at paid few
    obtain ⟨next, last, ticked, called, rest, sameEnd, config, tick, time⟩ :=
      steps.first_piece positive (Nat.le_of_add_right_le few) here
        (Nat.lt_of_le_of_lt (Nat.le_add_right _ _) tickFits)
        (Nat.lt_of_le_of_lt (Nat.le_add_right _ _) cycleFits)
    have others := ih rest
    rw [config, time] at others
    obtain ⟨reports, inPieces, left⟩ := others positive
      (Nat.le_of_add_left_le few) (by omega) (.inr (Nat.mod_lt _ positive))
      (Nat.lt_of_le_of_lt (Nat.add_le_add_right tick _) tickFits)
      (Nat.lt_of_le_of_lt (Nat.add_le_add_right (Nat.mod_le _ _) _) cycleFits)
    have quiet : .waiting ∉ first := fun waits =>
      steps.no_wait (List.mem_append_left second waits)
    refine ⟨_, inPieces.after_call called quiet sameEnd, ?_⟩
    rw [List.map_cons, run, perform_advance, called]
    exact left.trans (Nat.mod_add_mod _ _ _)

end Steady

theorem fits_of_report {elapsed : Nanoseconds} {report : Report}
    (done : (m.advance elapsed).2 = .ok report) :
    m.sinceTick + elapsed < Clock.limit ∧ m.sinceCycle + elapsed < Clock.limit := by
  apply Classical.byContradiction
  intro tooLong
  rw [(advance_overflows tooLong).1] at done
  cases done

/-- As many cycles as fit, when neither the cap nor a wait ends them early. -/
theorem count_eq_div {count cap interval time : Nat} (positive : 0 < interval)
    (paid : count * interval ≤ time) (uncapped : time / interval ≤ cap)
    (stops : count = cap ∨ time < (count + 1) * interval) : count = time / interval := by
  have few : count ≤ time / interval := (Nat.le_div_iff_mul_le positive).mpr paid
  rcases stops with full | late
  · omega
  · have := (Nat.div_lt_iff_lt_mul positive).mpr late
    omega

/-- A call that completes, is not cut off by its cap, and does not wait runs the cycles that fit into
its time, and leaves the remainder. -/
theorem uncapped_advance {elapsed : Nanoseconds} {report : Report}
    (positive : 0 < m.config.cycleInterval) (done : (m.advance elapsed).2 = .ok report)
    (goesOn : report.waiting = false)
    (uncapped : (m.sinceCycle + elapsed) / m.config.cycleInterval ≤ m.config.maxCycles) :
    ∃ start ticked signals final, m.tickTimers elapsed = some (start, ticked) ∧
      start.Cycles signals final ∧ .waiting ∉ signals ∧
      signals.length = (m.sinceCycle + elapsed) / m.config.cycleInterval ∧
      report = signals.foldl .count { ticked := ticked } ∧
      (m.advance elapsed).1 =
        final.withTime ((m.sinceCycle + elapsed) % m.config.cycleInterval) := by
  obtain ⟨tickFits, cycleFits⟩ := fits_of_report done
  obtain ⟨start, ticked, signals, final, ticks, steps, -, ends⟩ :=
    advance_runs_cycles tickFits cycleFits
  rcases ends with ⟨-, paid, stops, advanced⟩ | ⟨-, -, -, f, -, advanced⟩
  · rw [advanced] at done ⊢
    cases done
    rw [Report.count_all] at goesOn
    simp only [Bool.false_or, decide_eq_false_iff_not] at goesOn
    have count : signals.length = (m.sinceCycle + elapsed) / m.config.cycleInterval := by
      refine count_eq_div positive paid uncapped ?_
      simpa only [goesOn, or_false] using stops
    have remainder : m.sinceCycle + elapsed - signals.length * m.config.cycleInterval =
        (m.sinceCycle + elapsed) % m.config.cycleInterval := by
      rw [count, Nat.mul_comm, Nat.mod_eq_sub_mul_div]
    have kept := Nat.min_eq_left (Nat.le_of_lt (Nat.mod_lt (m.sinceCycle + elapsed) positive))
    refine ⟨start, ticked, signals, final, ticks, steps, goesOn, count, rfl, ?_⟩
    rw [remainder, kept]
  · rw [advanced] at done
    cases done

/-- If no such cycle reads the delay timer, they are steady from the machine before the call on. -/
theorem steady_of_advance {elapsed : Nanoseconds} {report : Report}
    (positive : 0 < m.config.cycleInterval) (done : (m.advance elapsed).2 = .ok report)
    (goesOn : report.waiting = false)
    (uncapped : (m.sinceCycle + elapsed) / m.config.cycleInterval ≤ m.config.maxCycles)
    (blind : ∀ j < report.cycles,
      (m.run (.tickTimers elapsed :: List.replicate j .cycle)).1.readsDelay = false) :
    ∃ signals final, m.Steady signals final ∧
      signals.length = (m.sinceCycle + elapsed) / m.config.cycleInterval ∧
      report.cycles = signals.length ∧ (report.redraw = true ↔ .redraw ∈ signals) ∧
      (m.advance elapsed).1.unclocked = final.unclocked ∧
      (m.advance elapsed).1.sinceCycle =
        (m.sinceCycle + elapsed) % m.config.cycleInterval := by
  obtain ⟨start, ticked, signals, final, ticks, steps, noWait, count, rfl, advanced⟩ :=
    uncapped_advance positive done goesOn uncapped
  rw [Report.count_all] at blind ⊢
  simp only [Bool.false_or, Nat.zero_add, decide_eq_true_eq] at blind ⊢
  have steady : start.Steady signals final := by
    refine steps.steady noWait ?_
    intro j inside
    have here := blind j inside
    rwa [run_tickTimers ticks] at here
  obtain ⟨last, moved, sameEnd⟩ := steady.of_same_unclocked (tickTimers_clocks ticks).1
  refine ⟨signals, last, moved, count, rfl, Iff.rfl, ?_, ?_⟩
  · rw [advanced]
    exact sameEnd.symm
  · rw [advanced]
    rfl

theorem sameButTimers_of_unclocked {other : Machine} (same : m.unclocked = other.unclocked)
    (time : m.sinceCycle = other.sinceCycle) : m.SameButTimers other := by
  refine ⟨m.delay, m.sound, m.sinceTick, ?_⟩
  calc
    m = { m.unclocked with
          delay := m.delay, sound := m.sound, sinceTick := m.sinceTick,
          sinceCycle := m.sinceCycle } := rfl
    _ = { other.unclocked with
          delay := m.delay, sound := m.sound, sinceTick := m.sinceTick,
          sinceCycle := other.sinceCycle } := by rw [same, time]

/-- Passing time in pieces is passing it at once, up to the timers: if one call for the whole time
completes without a wait and without being cut off by the cap, and no cycle of it reads the delay
timer, then the calls for the pieces run the same cycles and end in the same state. -/
theorem pieces_of_time_run_as_one {m : Machine} {ds : List Nanoseconds} {report : Report}
    (nonempty : ds ≠ []) (positive : 0 < m.config.cycleInterval)
    (whole : (m.advance ds.sum).2 = .ok report) (goesOn : report.waiting = false)
    (uncapped : (m.sinceCycle + ds.sum) / m.config.cycleInterval ≤ m.config.maxCycles)
    (blind : ∀ j < report.cycles,
      (m.run (.tickTimers ds.sum :: List.replicate j .cycle)).1.readsDelay = false) :
    ∃ reports : List Report, (m.run (ds.map .advance)).2 = reports.map .report ∧
      (∀ r ∈ reports, r.waiting = false) ∧ (reports.map Report.cycles).sum = report.cycles ∧
      ((∃ r ∈ reports, r.redraw = true) ↔ report.redraw = true) ∧
      (m.run (ds.map .advance)).1.SameButTimers (m.advance ds.sum).1 := by
  obtain ⟨tickFits, cycleFits⟩ := fits_of_report whole
  obtain ⟨signals, final, steps, paid, count, redraw, ends, left⟩ :=
    steady_of_advance positive whole goesOn uncapped blind
  obtain ⟨reports, inPieces, pieceLeft⟩ :=
    steps.pieces positive (paid ▸ uncapped) paid (.inl nonempty) tickFits cycleFits
  refine ⟨reports, inPieces.answers, inPieces.goesOn, inPieces.cycles.trans count.symm,
    inPieces.redraw.trans redraw.symm, ?_⟩
  exact sameButTimers_of_unclocked (inPieces.ends.trans ends.symm) (pieceLeft.trans left.symm)

/-- A machine at a hundred cycles per second whose every word draws one row of eight pixels. -/
def slowPainter : Machine := { uniform 0xD1 0 with config := { cyclesPerSecond := 100 } }

theorem report_of_answer {m : Machine} {elapsed : Nanoseconds} {report : Report}
    (answer : (m.perform (.advance elapsed)).2 = .report report) :
    (m.advance elapsed).2 = .ok report := by
  rw [perform_advance] at answer
  split at answer
  · cases answer
    assumption
  · cases answer

/-- The whole time lets the timers tick once, the pieces let them tick twice. -/
theorem painting_in_pieces :
    let ds : List Nanoseconds := [17000000, 0, 17000000]
    let report : Report := { cycles := 3, ticked := true, redraw := true }
    ds ≠ [] ∧ 0 < slowPainter.config.cycleInterval ∧ (slowPainter.advance ds.sum).2 = .ok report ∧
      report.waiting = false ∧
      (slowPainter.sinceCycle + ds.sum) / slowPainter.config.cycleInterval ≤
        slowPainter.config.maxCycles ∧
      (∀ j < report.cycles,
        (slowPainter.run (.tickTimers ds.sum :: List.replicate j .cycle)).1.readsDelay = false) ∧
      ∃ reports : List Report, (slowPainter.run (ds.map .advance)).2 = reports.map .report ∧
        (∀ r ∈ reports, r.waiting = false) ∧ (reports.map Report.cycles).sum = report.cycles ∧
        ((∃ r ∈ reports, r.redraw = true) ↔ report.redraw = true) ∧
        (slowPainter.run (ds.map .advance)).1.SameButTimers (slowPainter.advance ds.sum).1 := by
  intro ds report
  have positive : 0 < slowPainter.config.cycleInterval := by decide
  have whole : (slowPainter.advance ds.sum).2 = .ok report :=
    report_of_answer (by decide +kernel)
  have uncapped : (slowPainter.sinceCycle + ds.sum) / slowPainter.config.cycleInterval ≤
      slowPainter.config.maxCycles := by decide
  have blind : ∀ j < report.cycles,
      (slowPainter.run (.tickTimers ds.sum :: List.replicate j .cycle)).1.readsDelay = false := by
    decide +kernel
  exact ⟨nofun, positive, whole, rfl, uncapped, blind,
    pieces_of_time_run_as_one nofun positive whole rfl uncapped blind⟩

end Runs

end Machine
end ChipEight
