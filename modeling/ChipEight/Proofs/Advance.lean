import ChipEight.Machine.Operation
import ChipEight.Proofs.Difference

/-
  Passing time as single steps. The cycles of one call are a run of single cycles that stops after
  a wait and before a fault; they neither read nor write the time that is left, so the machine of
  the call and the one of the single steps differ in nothing else.
-/
namespace ChipEight

def Report.count (report : Report) (signal : Signal) : Report :=
  { report with
    cycles := report.cycles + 1
    redraw := report.redraw || decide (signal = .redraw)
    waiting := report.waiting || decide (signal = .waiting) }

theorem Report.count_all (report : Report) (signals : List Signal) :
    signals.foldl count report =
      { report with
        cycles := report.cycles + signals.length
        redraw := report.redraw || decide (.redraw ∈ signals)
        waiting := report.waiting || decide (.waiting ∈ signals) } := by
  induction signals generalizing report with
  | nil => simp
  | cons signal signals ih =>
    rw [List.foldl_cons, ih]
    simp [count, Bool.or_assoc, Nat.add_comm, Nat.add_left_comm, eq_comm]

/-- Machines with different amounts of time that no cycle has used up. -/
def Difference.carriedTime : Difference where
  sinceCycle := anything

theorem Difference.hidden_carriedTime : carriedTime.Hidden fun _ => True :=
  .of_core ⟨rfl, rfl, rfl⟩ ⟨fun _ => rfl, fun _ => rfl, fun _ => rfl⟩ (fun same _ _ => same)
    fun same _ => same

namespace Machine
variable (m : Machine)

/-- The machine with another amount of time that no cycle has used up. -/
def withTime (time : Nanoseconds) : Machine := { m with sinceCycle := time }

/-- Everything is the same, except for the two timers and the time since they ticked. -/
def SameButTimers (other : Machine) : Prop :=
  ∃ delay sound sinceTick,
    m = { other with delay := delay, sound := sound, sinceTick := sinceTick }

theorem Alike.eq_withTime {m m' : Machine} (same : m.Alike .carriedTime m') :
    m = m'.withTime m.sinceCycle :=
  Machine.ext same.config same.name same.lastWord same.memory same.registers same.stack same.delay
    same.sound same.display same.keypad same.random same.sinceTick rfl

theorem cycle_withTime (time : Nanoseconds) :
    (m.withTime time).cycle = (m.cycle.1.withTime time, m.cycle.2) := by
  have same : (m.withTime time).Alike .carriedTime m := by
    constructor
    all_goals first | rfl | trivial
  obtain ⟨next, answer⟩ := same.cycle Difference.hidden_carriedTime fun _ _ => trivial
  have done := next.eq_withTime
  rw [sinceCycle_cycle] at done
  exact Prod.ext done answer

section Loop

/-- Cycles that all succeed, with what they tell their surroundings. -/
def Cycles (signals : List Signal) (final : Machine) : Prop :=
  m.run (List.replicate signals.length .cycle) = (final, signals.map .signal)

variable {m}

theorem Cycles.cons {next final : Machine} {signal : Signal} {signals : List Signal}
    (first : m.cycle = (next, .ok signal)) (rest : next.Cycles signals final) :
    m.Cycles (signal :: signals) final := by
  unfold Cycles at rest ⊢
  rw [List.length_cons, List.replicate_succ, run, perform, first]
  simp only [Prod.map, id_eq, Answer.ofExcept, rest, List.map_cons]

theorem Cycles.uncons {signal : Signal} {signals : List Signal} {final : Machine}
    (steps : m.Cycles (signal :: signals) final) :
    ∃ next, m.cycle = (next, .ok signal) ∧ next.Cycles signals final := by
  unfold Cycles at steps ⊢
  rw [List.length_cons, List.replicate_succ, run, perform] at steps
  cases done : m.cycle with
  | mk next answer =>
    rw [done] at steps
    cases answer with
    | error f => simp [Prod.map, Answer.ofExcept] at steps
    | ok first =>
      simp only [Prod.map, id_eq, Answer.ofExcept, List.map_cons, Prod.mk.injEq,
        List.cons.injEq, Answer.signal.injEq] at steps
      obtain ⟨last, rfl, rest⟩ := steps
      exact ⟨next, rfl, Prod.ext last rest⟩

theorem runCycles_late {interval : Nanoseconds} (late : m.sinceCycle < interval) (cap : Nat)
    (report : Report) : m.runCycles interval cap report = (m, .ok report) := by
  cases cap with
  | zero => rfl
  | succ cap => rw [runCycles, if_pos late]

theorem runCycles_due {interval : Nanoseconds} (due : interval ≤ m.sinceCycle) (cap : Nat)
    (report : Report) : m.runCycles interval (cap + 1) report =
      match (m.spend interval).cycle with
      | (next, .error f) => (next, .error f)
      | (next, .ok signal) =>
        if signal = .waiting then (next, .ok (report.count signal))
        else next.runCycles interval cap (report.count signal) := by
  rw [runCycles, if_neg (Nat.not_lt.mpr due)]
  obtain ⟨next, answer⟩ := (m.spend interval).cycle
  cases answer with
  | error f => rfl
  | ok signal => cases signal <;> simp [Report.count]

theorem not_waiting_dropLast_cons {signal : Signal} {signals : List Signal}
    (first : signal ≠ .waiting) (rest : .waiting ∉ signals.dropLast) :
    .waiting ∉ (signal :: signals).dropLast := by
  cases signals with
  | nil => simp
  | cons second signals => simpa [List.dropLast_cons_cons, first.symm] using rest

/-- The loop is a run of single cycles: it ends with the last of them or with the one after. It
goes on for as long as it may and as there is time, unless a cycle waits. -/
theorem runCycles_stepwise (interval cap time : Nat) (report : Report) :
    ∃ signals final, m.Cycles signals final ∧
      ((.waiting ∉ signals.dropLast ∧ signals.length ≤ cap ∧ signals.length * interval ≤ time ∧
          (signals.length = cap ∨ time < (signals.length + 1) * interval ∨ .waiting ∈ signals) ∧
          (m.withTime time).runCycles interval cap report =
            (final.withTime (time - signals.length * interval),
              .ok (signals.foldl .count report))) ∨
        (.waiting ∉ signals ∧ signals.length + 1 ≤ cap ∧
          (signals.length + 1) * interval ≤ time ∧ ∃ f, final.cycle = (final, .error f) ∧
          (m.withTime time).runCycles interval cap report =
            (final.withTime (time - (signals.length + 1) * interval), .error f))) := by
  -- The loop pays for every cycle, the single steps do not: the two machines differ in the time
  -- from the start, and the induction has to hold for whatever the difference has become.
  induction cap generalizing m time report with
  | zero => exact ⟨[], m, rfl, .inl ⟨nofun, by simp, by simp, .inl rfl, by simp [runCycles]⟩⟩
  | succ cap ih =>
    by_cases late : time < interval
    · refine ⟨[], m, rfl, .inl ⟨nofun, by simp, by simp, .inr (.inl (by simpa using late)), ?_⟩⟩
      rw [runCycles_late late]
      simp
    · have due : interval ≤ (m.withTime time).sinceCycle := Nat.not_lt.mp late
      have enough : interval ≤ time := due
      have spent : ((m.withTime time).spend interval).cycle =
          (m.cycle.1.withTime (time - interval), m.cycle.2) := m.cycle_withTime _
      rw [runCycles_due due, spent]
      rcases m.cycle_cases with ⟨f, -, done⟩ | ⟨w, i, -, -, -, -, done⟩
      · rw [done]
        refine ⟨[], m, rfl, .inr ⟨nofun, by simp, by simpa using enough, f, done, ?_⟩⟩
        simp
      · generalize m.ran w i = next at done
        generalize (m.fetched w).signalOf i = signal at done
        rw [done]
        simp only
        by_cases waits : signal = .waiting
        · rw [if_pos waits]
          refine ⟨[signal], next, .cons done rfl,
            .inl ⟨nofun, by simp, by simpa using enough, .inr (.inr (by simp [waits])), ?_⟩⟩
          simp
        · rw [if_neg waits]
          obtain ⟨signals, final, steps, ends⟩ :=
            ih (m := next) (time - interval) (report.count signal)
          have one (n : Nat) : (n + 1) * interval = n * interval + interval := Nat.succ_mul _ _
          refine ⟨signal :: signals, final, .cons done steps, ?_⟩
          rw [List.length_cons]
          simp only [one] at ends ⊢
          rcases ends with ⟨goesOn, few, paid, stops, same⟩ | ⟨goesOn, few, paid, f, failed, same⟩
          · left
            refine ⟨not_waiting_dropLast_cons waits goesOn, by omega, by omega, ?_, ?_⟩
            · rcases stops with capped | late | last
              · exact .inl (by omega)
              · exact .inr (.inl (by omega))
              · exact .inr (.inr (List.mem_cons_of_mem _ last))
            · rw [same, List.foldl_cons, Nat.sub_sub, Nat.add_comm interval]
          · right
            refine ⟨by simp [goesOn, Ne.symm waits], by omega, by omega, f, failed, ?_⟩
            rw [same, Nat.sub_sub, Nat.add_comm interval]

theorem tickTimers_of_fits {elapsed : Nanoseconds} (fits : m.sinceTick + elapsed < Clock.limit) :
    ∃ after ticked, m.tickTimers elapsed = some (after, ticked) ∧
      after.sinceCycle = m.sinceCycle ∧ after.config = m.config := by
  unfold tickTimers
  rw [Clock.add, if_pos fits, Option.map_some]
  by_cases early : m.sinceTick + elapsed < Clock.timerInterval
  · rw [if_pos early]
    exact ⟨_, false, rfl, rfl, rfl⟩
  · rw [if_neg early]
    exact ⟨_, true, rfl, rfl, rfl⟩

theorem sameButTimers_of_ticks {elapsed : Nanoseconds} {after : Machine} {ticked : Bool}
    (ticks : m.tickTimers elapsed = some (after, ticked)) : after.SameButTimers m := by
  rcases tickTimers_cases ticks with ⟨-, -, rfl⟩ | ⟨-, -, rfl⟩
  · exact ⟨_, _, _, rfl⟩
  · exact ⟨_, _, _, rfl⟩

theorem advance_of_ticks {elapsed : Nanoseconds} {after : Machine} {ticked : Bool}
    (ticks : m.tickTimers elapsed = some (after, ticked))
    (fits : after.sinceCycle + elapsed < Clock.limit) :
    m.advance elapsed =
      match (after.withTime (after.sinceCycle + elapsed)).runCycles after.config.cycleInterval
          after.config.maxCycles { ticked := ticked } with
      | (final, .ok report) => (final.capDebt after.config.cycleInterval, .ok report)
      | (final, .error f) => (final, .error (.fault f)) := by
  unfold advance
  simp only [ticks, Clock.add, fits, ↓reduceIte]
  rfl

/-- A call whose times add up to spans of time is a tick of the timers and then the loop. -/
theorem advance_of_fits {elapsed : Nanoseconds}
    (tickFits : m.sinceTick + elapsed < Clock.limit)
    (cycleFits : m.sinceCycle + elapsed < Clock.limit) :
    ∃ start ticked, m.tickTimers elapsed = some (start, ticked) ∧ m.advance elapsed =
      match (start.withTime (m.sinceCycle + elapsed)).runCycles m.config.cycleInterval
          m.config.maxCycles { ticked := ticked } with
      | (final, .ok report) => (final.capDebt m.config.cycleInterval, .ok report)
      | (final, .error f) => (final, .error (.fault f)) := by
  obtain ⟨start, ticked, ticks, sameTime, sameConfig⟩ := tickTimers_of_fits tickFits
  have advanced := advance_of_ticks ticks (sameTime ▸ cycleFits)
  rw [sameTime, sameConfig] at advanced
  exact ⟨start, ticked, ticks, advanced⟩

/-- A call in terms of the cycles that it runs and of the time that it leaves. -/
theorem advance_runs_cycles {elapsed : Nanoseconds}
    (tickFits : m.sinceTick + elapsed < Clock.limit)
    (cycleFits : m.sinceCycle + elapsed < Clock.limit) :
    ∃ start ticked signals final, m.tickTimers elapsed = some (start, ticked) ∧
      start.Cycles signals final ∧ .waiting ∉ signals.dropLast ∧
      ((signals.length ≤ m.config.maxCycles ∧
          signals.length * m.config.cycleInterval ≤ m.sinceCycle + elapsed ∧
          (signals.length = m.config.maxCycles ∨
            m.sinceCycle + elapsed < (signals.length + 1) * m.config.cycleInterval ∨
            .waiting ∈ signals) ∧
          m.advance elapsed =
            (final.withTime (min (m.sinceCycle + elapsed -
                signals.length * m.config.cycleInterval) m.config.cycleInterval),
              .ok (signals.foldl .count { ticked := ticked }))) ∨
        (.waiting ∉ signals ∧ signals.length + 1 ≤ m.config.maxCycles ∧
          (signals.length + 1) * m.config.cycleInterval ≤ m.sinceCycle + elapsed ∧
          ∃ f, final.cycle = (final, .error f) ∧
            m.advance elapsed =
              (final.withTime (m.sinceCycle + elapsed -
                (signals.length + 1) * m.config.cycleInterval), .error (.fault f)))) := by
  obtain ⟨start, ticked, ticks, advanced⟩ := advance_of_fits tickFits cycleFits
  obtain ⟨signals, final, steps, ends⟩ := runCycles_stepwise (m := start)
    m.config.cycleInterval m.config.maxCycles (m.sinceCycle + elapsed) { ticked := ticked }
  refine ⟨start, ticked, signals, final, ticks, steps, ?_⟩
  rcases ends with ⟨goesOn, few, paid, stops, looped⟩ | ⟨goesOn, few, paid, f, failed, looped⟩
  · rw [looped] at advanced
    exact ⟨goesOn, .inl ⟨few, paid, stops, advanced⟩⟩
  · rw [looped] at advanced
    have early : .waiting ∉ signals.dropLast := fun mem => goesOn (List.dropLast_subset _ mem)
    exact ⟨early, .inr ⟨goesOn, few, paid, f, failed, advanced⟩⟩

end Loop

section Histories
variable {m}

theorem run_answers_append (first second : List Operation) :
    (m.run (first ++ second)).2 = (m.run first).2 ++ ((m.run first).1.run second).2 := by
  induction first generalizing m with
  | nil => rfl
  | cons op first ih => simp [run, ih]

theorem Cycles.then_fault {signals : List Signal} {final : Machine} {f : Fault}
    (steps : m.Cycles signals final) (failed : final.cycle = (final, .error f)) :
    m.run (List.replicate (signals.length + 1) .cycle) =
      (final, signals.map .signal ++ [.stopped (.fault f)]) := by
  have one : final.run [.cycle] = (final, [.stopped (.fault f)]) := by
    rw [run, perform, failed]
    rfl
  rw [List.replicate_succ']
  apply Prod.ext
  · rw [run_append, steps, one]
  · rw [run_answers_append, steps, one]

theorem waiting_mem_iff_last {signals : List Signal} (goesOn : .waiting ∉ signals.dropLast) :
    .waiting ∈ signals ↔ signals.getLast? = some .waiting := by
  constructor
  · intro mem
    have nonempty : signals ≠ [] := List.ne_nil_of_mem mem
    rw [← List.dropLast_concat_getLast nonempty, List.mem_append, List.mem_singleton] at mem
    rcases mem with early | last
    · exact absurd early goesOn
    · rw [List.getLast?_eq_some_getLast nonempty, last]
  · exact List.mem_of_getLast?

end Histories

end Machine

/-- What a report says about the timers and about the answers to the cycles it stands for. -/
structure Report.Summarises (report : Report) (timers : Bool) (answers : List Answer) : Prop where
  succeeded : ∀ a ∈ answers, ∃ s, a = .signal s
  cycles : report.cycles = answers.length
  ticked : report.ticked = timers
  redraw : report.redraw = true ↔ .signal .redraw ∈ answers
  waiting : report.waiting = true ↔ answers.getLast? = some (.signal .waiting)

theorem Report.count_all_summarises {signals : List Signal} (timers : Bool)
    (goesOn : .waiting ∉ signals.dropLast) :
    (signals.foldl Report.count { ticked := timers }).Summarises timers
      (signals.map .signal) := by
  rw [Report.count_all]
  exact {
    succeeded := by
      intro a mem
      obtain ⟨s, -, rfl⟩ := List.mem_map.mp mem
      exact ⟨s, rfl⟩
    cycles := by simp
    ticked := rfl
    redraw := by simp
    waiting := by simp [Machine.waiting_mem_iff_last goesOn] }

namespace Machine

/-- The single steps that a call stands for which lets time pass: a tick of the timers and then
so many cycles, with these answers. -/
structure Stepwise (m : Machine) (elapsed : Nanoseconds) (k : Nat) (after : Machine)
    (ticked : Bool) (answers : List Answer) : Prop where
  run : m.run (.tickTimers elapsed :: List.replicate k .cycle) = (after, .ticked ticked :: answers)
  state : ∃ left, (m.advance elapsed).1 = after.withTime left
  goesOn : ∀ a ∈ answers.dropLast, ∃ s, a = .signal s ∧ s ≠ .waiting
  capped : k ≤ m.config.maxCycles
  paid : k * m.config.cycleInterval ≤ m.sinceCycle + elapsed
  completed : ∀ report, (m.advance elapsed).2 = .ok report →
    report.cycles = k ∧ report.Summarises ticked answers ∧
      (k = m.config.maxCycles ∨ m.sinceCycle + elapsed < (k + 1) * m.config.cycleInterval ∨
        report.waiting = true)
  stopped : ∀ why, (m.advance elapsed).2 = .error why →
    1 ≤ k ∧ (∃ f, why = .fault f ∧ answers.getLast? = some (.stopped (.fault f))) ∧
      ∃ left, (m.advance elapsed).1 =
        (m.run (.tickTimers elapsed :: List.replicate (k - 1) .cycle)).1.withTime left

theorem run_tickTimers {m after : Machine} {elapsed : Nanoseconds} {ticked : Bool}
    (ticks : m.tickTimers elapsed = some (after, ticked)) (ops : List Operation) :
    m.run (.tickTimers elapsed :: ops) =
      ((after.run ops).1, .ticked ticked :: (after.run ops).2) := by
  rw [Machine.run, perform, ticks]

theorem answers_go_on {signals : List Signal} (goesOn : .waiting ∉ signals) :
    ∀ a ∈ signals.map Answer.signal, ∃ s, a = .signal s ∧ s ≠ .waiting := by
  intro a mem
  obtain ⟨s, listed, rfl⟩ := List.mem_map.mp mem
  exact ⟨s, rfl, fun waits => goesOn (waits ▸ listed)⟩

/-- Passing time has the effect of a tick of the timers and single cycles, up to the time that
is left; its report says what the cycles told, and its fault is the one of the last cycle. -/
theorem advance_refines_single_cycles {m : Machine} {elapsed : Nanoseconds}
    (tickFits : m.sinceTick + elapsed < Clock.limit)
    (cycleFits : m.sinceCycle + elapsed < Clock.limit) :
    ∃ k after ticked answers, m.Stepwise elapsed k after ticked answers := by
  obtain ⟨start, ticked, ticks, sameTime, sameConfig⟩ := tickTimers_of_fits tickFits
  have advanced := advance_of_ticks ticks (sameTime ▸ cycleFits)
  rw [sameTime, sameConfig] at advanced
  obtain ⟨signals, final, steps, ends⟩ := runCycles_stepwise (m := start)
    m.config.cycleInterval m.config.maxCycles (m.sinceCycle + elapsed) { ticked := ticked }
  rcases ends with ⟨goesOn, capped, paid, stops, looped⟩ | ⟨goesOn, capped, paid, f, failed, looped⟩
  · rw [looped] at advanced
    have summary := Report.count_all_summarises ticked goesOn
    refine ⟨signals.length, final, ticked, signals.map .signal, ?_⟩
    exact {
      run := by rw [run_tickTimers ticks, steps]
      state := by
        rw [advanced]
        exact ⟨_, rfl⟩
      goesOn := by
        rw [← List.map_dropLast]
        exact answers_go_on goesOn
      capped := capped
      paid := paid
      completed := by
        intro report done
        rw [advanced] at done
        cases done
        refine ⟨by rw [summary.cycles, List.length_map], summary, ?_⟩
        rcases stops with full | late | waits
        · exact .inl full
        · exact .inr (.inl late)
        · rw [waiting_mem_iff_last goesOn] at waits
          exact .inr (.inr (summary.waiting.mpr (by simp [waits])))
      stopped := by
        intro why done
        rw [advanced] at done
        cases done }
  · rw [looped] at advanced
    refine ⟨signals.length + 1, final, ticked, signals.map .signal ++ [.stopped (.fault f)], ?_⟩
    exact {
      run := by rw [run_tickTimers ticks, steps.then_fault failed]
      state := by
        rw [advanced]
        exact ⟨_, rfl⟩
      goesOn := by
        rw [List.dropLast_concat]
        exact answers_go_on goesOn
      capped := capped
      paid := paid
      completed := by
        intro report done
        rw [advanced] at done
        cases done
      stopped := by
        intro why done
        rw [advanced] at done ⊢
        cases done
        have before : (m.run (.tickTimers elapsed :: List.replicate (signals.length + 1 - 1)
            .cycle)).1 = final := by
          rw [Nat.add_sub_cancel, run_tickTimers ticks, steps]
        rw [before]
        exact ⟨Nat.succ_pos _, ⟨f, rfl, List.getLast?_concat⟩, _, rfl⟩ }

/-- One second of a program that draws past the end of memory. -/
theorem failing_second_is_single_cycles :
    (uniform 0xD3 0xFFE).sinceTick + Clock.second < Clock.limit ∧
      (uniform 0xD3 0xFFE).sinceCycle + Clock.second < Clock.limit ∧
      ∃ k after ticked answers,
        (uniform 0xD3 0xFFE).Stepwise Clock.second k after ticked answers := by
  have fits : 0 + Clock.second < Clock.limit := by decide
  exact ⟨fits, fits, advance_refines_single_cycles fits fits⟩

end Machine
end ChipEight
