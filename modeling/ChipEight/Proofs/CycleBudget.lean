import ChipEight.Proofs.CycleTrace

/-
  How many cycles a call runs that lets time pass. The loop ends with the time, at the cap, at a
  wait or at a fault. Unless a cycle waits or fails, the number of cycles is the budget in closed
  form, also where a cycle takes no time and the cap alone ends the loop; all cycles that run, the
  one that waits or fails included, are inside of it.
-/
namespace ChipEight

/-- How many cycles fit into a time, at most `cap`. Any number fits if a cycle takes no time. -/
def cycleBudget (interval cap time : Nat) : Nat :=
  if interval = 0 then cap else min cap (time / interval)

section Budget
variable {interval cap time : Nat}

theorem le_cycleBudget_iff {k : Nat} :
    k ≤ cycleBudget interval cap time ↔ k ≤ cap ∧ k * interval ≤ time := by
  unfold cycleBudget
  by_cases free : interval = 0
  · simp [free]
  · rw [if_neg free, Nat.le_min, Nat.le_div_iff_mul_le (Nat.pos_of_ne_zero free)]

theorem cycleBudget_le_cap : cycleBudget interval cap time ≤ cap :=
  (le_cycleBudget_iff.mp (Nat.le_refl _)).1

theorem cycleBudget_late (late : time < interval) : cycleBudget interval cap time = 0 := by
  apply Nat.eq_zero_of_not_pos
  intro one
  have paid := (le_cycleBudget_iff.mp one).2
  omega

theorem cycleBudget_zero : cycleBudget interval 0 time = 0 := by
  apply Nat.eq_zero_of_le_zero
  exact cycleBudget_le_cap

/-- The budget goes down with every cycle in the way the loop does. -/
theorem cycleBudget_due (due : interval ≤ time) :
    cycleBudget interval (cap + 1) time = cycleBudget interval cap (time - interval) + 1 := by
  have next (k : Nat) : k + 1 ≤ cycleBudget interval (cap + 1) time ↔
      k ≤ cycleBudget interval cap (time - interval) := by
    rw [le_cycleBudget_iff, le_cycleBudget_iff, Nat.add_one_mul]
    omega
  apply Nat.le_antisymm
  · cases whole : cycleBudget interval (cap + 1) time with
    | zero => exact Nat.zero_le _
    | succ k => exact Nat.succ_le_succ ((next k).mp (Nat.le_of_eq whole.symm))
  · exact (next _).mpr (Nat.le_refl _)

end Budget

namespace Machine

/-- The next cycle succeeds and does not wait. -/
def GoesOn (m : Machine) : Prop := ∃ signal, m.cycle.2 = .ok signal ∧ signal ≠ .waiting

/-- What the loop of a call keeps to, with the cycles `starts` that it starts. -/
structure KeepsBudget (m : Machine) (interval cap : Nat) (report : Report) (starts : List Machine)
    (ended : Machine × Except Fault Report) : Prop where
  few : starts.length ≤ cycleBudget interval cap m.sinceCycle
  left : ended.1.sinceCycle = m.sinceCycle - starts.length * interval
  earlier : ∀ s ∈ starts.dropLast, s.GoesOn
  completed : ∀ last, ended.2 = .ok last →
    (last.waiting = report.waiting ∧ starts.length = cycleBudget interval cap m.sinceCycle ∧
        ∀ s ∈ starts, s.GoesOn) ∨
      (last.waiting = true ∧ ∃ s, starts.getLast? = some s ∧ s.cycle.2 = .ok .waiting)
  failed : ∀ f, ended.2 = .error f → ∃ s, starts.getLast? = some s ∧ s.cycle.2 = .error f

namespace KeepsBudget
variable {m : Machine} {interval cap : Nat} {report : Report}

theorem idle (none : cycleBudget interval cap m.sinceCycle = 0) :
    m.KeepsBudget interval cap report [] (m, .ok report) where
  few := Nat.zero_le _
  left := by simp
  earlier := List.forall_mem_nil _
  completed := by
    intro last same
    cases same
    exact .inl ⟨rfl, none.symm, List.forall_mem_nil _⟩
  failed := nofun

/-- The first cycle ends the loop: it fails, or it waits. -/
theorem one {spent next : Machine} {result : Except Fault Signal} {answer : Except Fault Report}
    (due : interval ≤ m.sinceCycle) (cycled : spent.cycle = (next, result))
    (left : next.sinceCycle = m.sinceCycle - interval)
    (ends : (∃ f, result = .error f ∧ answer = .error f) ∨
      (result = .ok .waiting ∧ ∃ last, answer = .ok last ∧ last.waiting = true)) :
    m.KeepsBudget interval (cap + 1) report [spent] (next, answer) where
  few := by
    rw [cycleBudget_due due]
    exact Nat.succ_le_succ (Nat.zero_le _)
  left := by simpa using left
  earlier := List.forall_mem_nil _
  completed := by
    intro last told
    rcases ends with ⟨f, -, rfl⟩ | ⟨waits, report, rfl, waiting⟩
    · cases told
    · cases told
      exact .inr ⟨waiting, spent, rfl, by rw [cycled, waits]⟩
  failed := by
    intro f told
    rcases ends with ⟨g, fails, rfl⟩ | ⟨-, report, rfl, -⟩
    · cases told
      exact ⟨spent, rfl, by rw [cycled, fails]⟩
    · cases told

/-- The first cycle goes on, and the loop begins again with what it has left. -/
theorem cons {spent next : Machine} {signal : Signal} {starts : List Machine}
    {ended : Machine × Except Fault Report} (due : interval ≤ m.sinceCycle)
    (cycled : spent.cycle = (next, .ok signal)) (goesOn : signal ≠ .waiting)
    (left : next.sinceCycle = m.sinceCycle - interval)
    (rest : next.KeepsBudget interval cap (report.count signal) starts ended) :
    m.KeepsBudget interval (cap + 1) report (spent :: starts) ended := by
  have first : spent.GoesOn := ⟨signal, by rw [cycled], goesOn⟩
  have budget : cycleBudget interval (cap + 1) m.sinceCycle =
      cycleBudget interval cap next.sinceCycle + 1 := by
    rw [left]
    exact cycleBudget_due due
  exact {
    few := by
      rw [budget]
      exact Nat.succ_le_succ rest.few
    left := by
      rw [rest.left, left, List.length_cons, Nat.add_one_mul, Nat.sub_sub, Nat.add_comm interval]
    earlier := by
      intro s mem
      cases starts with
      | nil => cases mem
      | cons second starts =>
        rw [List.dropLast_cons_cons] at mem
        rcases List.mem_cons.mp mem with rfl | later
        · exact first
        · exact rest.earlier s later
    completed := by
      intro last told
      rcases rest.completed last told with ⟨same, count, all⟩ | ⟨waiting, s, ends, waits⟩
      · refine .inl ⟨?_, ?_, List.forall_mem_cons.mpr ⟨first, all⟩⟩
        · simpa [Report.count, goesOn] using same
        · rw [List.length_cons, count, budget]
      · refine .inr ⟨waiting, s, ?_, waits⟩
        rw [List.getLast?_cons, ends]
        rfl
    failed := by
      intro f told
      obtain ⟨s, ends, fails⟩ := rest.failed f told
      refine ⟨s, ?_, fails⟩
      rw [List.getLast?_cons, ends]
      rfl }

theorem loop (m : Machine) (interval cap : Nat) (report : Report) :
    m.KeepsBudget interval cap report (startsInLoop interval cap m)
      (m.runCycles interval cap report) := by
  induction cap generalizing m report with
  | zero => exact idle cycleBudget_zero
  | succ cap ih =>
    rw [startsInLoop]
    by_cases late : m.sinceCycle < interval
    · rw [if_pos late, runCycles_late late]
      exact idle (cycleBudget_late late)
    · have due : interval ≤ m.sinceCycle := Nat.not_lt.mp late
      have left : (m.spend interval).cycle.1.sinceCycle = m.sinceCycle - interval :=
        sinceCycle_cycle _
      rw [if_neg late, runCycles_due due]
      cases cycled : (m.spend interval).cycle with
      | mk next answer =>
        rw [cycled] at left
        cases answer with
        | error f => exact one due cycled left (.inl ⟨f, rfl, rfl⟩)
        | ok signal =>
          by_cases waits : signal = .waiting
          · simp only [if_pos waits]
            subst waits
            exact one due cycled left (.inr ⟨rfl, _, rfl, by simp [Report.count]⟩)
          · simp only [if_neg waits]
            exact cons due cycled waits left (ih next _)

section Exits
variable {starts : List Machine} {ended : Machine × Except Fault Report} {last : Report}

theorem all_of_quiet (kept : m.KeepsBudget interval cap report starts ended)
    (told : ended.2 = .ok last) (quiet : last.waiting = false) :
    starts.length = cycleBudget interval cap m.sinceCycle ∧ ∀ s ∈ starts, s.GoesOn := by
  rcases kept.completed last told with ⟨-, all, goOn⟩ | ⟨waiting, -⟩
  · exact ⟨all, goOn⟩
  · rw [quiet] at waiting
    cases waiting

theorem last_of_waiting (kept : m.KeepsBudget interval cap report starts ended)
    (told : ended.2 = .ok last) (silent : report.waiting = false) (waiting : last.waiting = true) :
    1 ≤ starts.length ∧ ∃ s, starts.getLast? = some s ∧ s.cycle.2 = .ok .waiting := by
  rcases kept.completed last told with ⟨same, -, -⟩ | ⟨-, s, ends, waits⟩
  · rw [same, silent] at waiting
    cases waiting
  · exact ⟨List.length_pos_of_mem (List.mem_of_getLast? ends), s, ends, waits⟩

theorem last_of_fault {f : Fault} (kept : m.KeepsBudget interval cap report starts ended)
    (told : ended.2 = .error f) :
    1 ≤ starts.length ∧ ∃ s, starts.getLast? = some s ∧ s.cycle.2 = .error f := by
  obtain ⟨s, ends, fails⟩ := kept.failed f told
  exact ⟨List.length_pos_of_mem (List.mem_of_getLast? ends), s, ends, fails⟩

end Exits

end KeepsBudget

section Calls
variable {m : Machine} {elapsed : Nanoseconds}

theorem startsOf_advance_of_ticks {start : Machine} {ticked : Bool}
    (ticks : m.tickTimers elapsed = some (start, ticked))
    (fits : m.sinceCycle + elapsed < Clock.limit) :
    m.startsOf (.advance elapsed) = startsInLoop m.config.cycleInterval m.config.maxCycles
      (start.withTime (m.sinceCycle + elapsed)) := by
  obtain ⟨delay, sound, sinceTick, rfl⟩ := sameButTimers_of_ticks ticks
  simp only [startsOf, ticks, Clock.add, fits, ↓reduceIte]

/-- A call keeps to its budget: the cycles that fit into the time carried and elapsed, at most as
many as the cap says. It runs one cycle after the other, and they all go on, except that the last
one may wait or fail. A call that completes without a wait has run its budget, and one that a wait
or a fault has ended has run no more. A completed call carries on what its cycles have left, up to
one interval. -/
theorem advance_keeps_budget (tickFits : m.sinceTick + elapsed < Clock.limit)
    (cycleFits : m.sinceCycle + elapsed < Clock.limit) :
    let interval := m.config.cycleInterval
    let time := m.sinceCycle + elapsed
    let budget := cycleBudget interval m.config.maxCycles time
    let starts := m.startsOf (.advance elapsed)
    let now := (m.advance elapsed).1
    m.Unfolds starts now ∧ starts.length ≤ m.config.maxCycles ∧ starts.length ≤ budget ∧
      (∀ s ∈ starts.dropLast, s.GoesOn) ∧
      (∀ report, (m.advance elapsed).2 = .ok report →
        report.cycles = starts.length ∧
        now.sinceCycle = min (time - report.cycles * interval) interval ∧
        (report.waiting = false → report.cycles = budget ∧ ∀ s ∈ starts, s.GoesOn) ∧
        (report.waiting = true → 1 ≤ report.cycles ∧
          ∃ s, starts.getLast? = some s ∧ s.cycle.2 = .ok .waiting)) ∧
      ∀ why, (m.advance elapsed).2 = .error why → 1 ≤ starts.length ∧
        ∃ f, why = .fault f ∧ ∃ s, starts.getLast? = some s ∧ s.cycle.2 = .error f := by
  intro interval time budget starts now
  obtain ⟨start, ticked, ticks, advanced⟩ := advance_of_fits tickFits cycleFits
  have kept := KeepsBudget.loop (start.withTime time) interval m.config.maxCycles
    { ticked := ticked }
  rw [← startsOf_advance_of_ticks ticks cycleFits] at kept
  refine ⟨.advance m elapsed, Nat.le_trans kept.few cycleBudget_le_cap, kept.few, kept.earlier, ?_⟩
  generalize (start.withTime time).runCycles _ _ _ = ended at advanced kept
  obtain ⟨final, answer⟩ := ended
  cases answer with
  | error f =>
    obtain ⟨nonempty, ends⟩ := kept.last_of_fault rfl
    simp only [advanced]
    refine ⟨nofun, ?_⟩
    intro why told
    cases told
    exact ⟨nonempty, f, rfl, ends⟩
  | ok last =>
    have count : last.cycles = starts.length := length_startsOf_advance (by rw [advanced])
    have left : now.sinceCycle = min (time - last.cycles * interval) interval := by
      have capped : now = final.capDebt interval := congrArg Prod.fst advanced
      rw [capped, count]
      exact congrArg (min · interval) kept.left
    simp only [advanced]
    refine ⟨?_, nofun⟩
    intro report told
    cases told
    refine ⟨count, left, ?_, ?_⟩
    · intro quiet
      obtain ⟨all, goOn⟩ := kept.all_of_quiet rfl quiet
      exact ⟨count.trans all, goOn⟩
    · intro waiting
      rw [count]
      exact kept.last_of_waiting rfl rfl waiting

/-- A machine that loops at two cycles per nanosecond, so that a cycle takes no time. -/
def timelessLoop : Machine :=
  { uniform 0x12 0 with config := { cyclesPerSecond := 2000000000, maxCycles := 3 } }

/-- Without any time, such a machine runs up to its cap. -/
theorem timeless_loop_runs_to_its_cap :
    timelessLoop.sinceTick + 0 < Clock.limit ∧ timelessLoop.sinceCycle + 0 < Clock.limit ∧
      timelessLoop.config.cycleInterval = 0 ∧
      (timelessLoop.advance 0).2 = .ok { cycles := 3 } ∧
      (timelessLoop.startsOf (.advance 0)).length = 3 ∧
      (∀ s ∈ timelessLoop.startsOf (.advance 0), s.GoesOn) ∧
      (timelessLoop.advance 0).1.sinceCycle = 0 := by
  have tickFits : timelessLoop.sinceTick + 0 < Clock.limit := by decide
  have cycleFits : timelessLoop.sinceCycle + 0 < Clock.limit := by decide
  have free : timelessLoop.config.cycleInterval = 0 := by decide
  have told : (timelessLoop.advance 0).2 = .ok { cycles := 3 } := by decide +kernel
  obtain ⟨-, -, -, -, completed, -⟩ := advance_keeps_budget tickFits cycleFits
  obtain ⟨count, left, runs, -⟩ := completed _ told
  rw [free, Nat.min_zero] at left
  exact ⟨tickFits, cycleFits, free, told, count.symm, (runs rfl).2, left⟩

end Calls

end Machine
end ChipEight
