import ChipEight.Proofs.Bounds

/-
  The time that one call leaves to the next. A call that completes leaves at most the time of one
  cycle. A call that stops at a fault leaves whatever its cycles have not used up, and nothing
  else makes a machine carry more.
-/
namespace ChipEight

/-- Whether an operation sets the carried time anew. The passing of time does unless the times
add up to no span of time; a reset does, and so does a load that succeeds. -/
def Operation.SetsTime : Operation → Answer → Prop
  | .advance _, answer => answer ≠ .stopped .timeOverflow
  | .reset, _ => True
  | .load _, answer => answer = .nothing
  | _, _ => False

namespace Machine
variable (m : Machine)

/-- No operation of a history sets the carried time. -/
def KeepsTime (ops : List Operation) : Prop :=
  ∀ done ∈ ops.zip (m.run ops).2, ¬ done.1.SetsTime done.2

/-- The call stops at a fault, and the cycle that fails is the one with this number. -/
def FaultsInCycle (elapsed : Nanoseconds) (k : Nat) : Prop :=
  ∃ f, (m.advance elapsed).2 = .error (.fault f) ∧ ∃ ticked, ∃ signals : List Signal,
    (m.run (.tickTimers elapsed :: List.replicate k .cycle)).2 =
      .ticked ticked :: (signals.map .signal ++ [.stopped (.fault f)])

/-- A fault stops the call when there is time left for more than one cycle. -/
def StopsShort (elapsed : Nanoseconds) : Prop :=
  ∃ k, m.FaultsInCycle elapsed k ∧ (k + 1) * m.config.cycleInterval < m.sinceCycle + elapsed

/-- The last operation of a history that sets the carried time is a call that stops short. -/
def EndsShort (ops : List Operation) : Prop :=
  ∃ before elapsed later, ops = before ++ .advance elapsed :: later ∧
    (m.run before).1.StopsShort elapsed ∧
    (m.run (before ++ [.advance elapsed])).1.KeepsTime later

section Calls
variable {m}

theorem length_answers (m : Machine) (ops : List Operation) :
    (m.run ops).2.length = ops.length := by
  induction ops generalizing m with
  | nil => rfl
  | cons op ops ih => simp [run, ih]

theorem answers_prefix (m : Machine) (first second : List Operation) :
    (m.run first).2 <+: (m.run (first ++ second)).2 := by
  rw [run_answers_append]
  exact List.prefix_append _ _

theorem same_length_of_stopped_prefix {first second : List Signal} {why other : Stop}
    (h : first.map Answer.signal ++ [.stopped why] <+: second.map .signal ++ [.stopped other]) :
    first.length = second.length := by
  rcases List.prefix_concat_iff.mp h with same | earlier
  · have lengths := congrArg List.length same
    simpa using lengths
  · have mem : Answer.stopped why ∈ second.map .signal := earlier.subset (by simp)
    simp at mem

theorem earlier_fault_is_same {k n : Nat} {first second : List Signal} {why other : Stop}
    (earlier : k ≤ n)
    (left : (m.run (List.replicate k .cycle)).2 = first.map .signal ++ [.stopped why])
    (right : (m.run (List.replicate n .cycle)).2 = second.map .signal ++ [.stopped other]) :
    k = n := by
  have leftLength : k = first.length + 1 := by
    simpa [length_answers] using congrArg List.length left
  have rightLength : n = second.length + 1 := by
    simpa [length_answers] using congrArg List.length right
  have ordered := m.answers_prefix (List.replicate k .cycle) (List.replicate (n - k) .cycle)
  rw [List.replicate_append_replicate, Nat.add_sub_cancel' earlier, left, right] at ordered
  rw [leftLength, rightLength, same_length_of_stopped_prefix ordered]

/-- The number of cycles up to the first fault does not depend on how it was found. -/
theorem faulting_cycle_unique {k n : Nat} {first second : List Signal} {why other : Stop}
    (left : (m.run (List.replicate k .cycle)).2 = first.map .signal ++ [.stopped why])
    (right : (m.run (List.replicate n .cycle)).2 = second.map .signal ++ [.stopped other]) :
    k = n := by
  rcases Nat.le_total k n with earlier | earlier
  · exact earlier_fault_is_same earlier left right
  · exact (earlier_fault_is_same earlier right left).symm

theorem FaultsInCycle.unique {elapsed : Nanoseconds} {k n : Nat}
    (left : m.FaultsInCycle elapsed k) (right : m.FaultsInCycle elapsed n) : k = n := by
  obtain ⟨f, -, ticked, first, left⟩ := left
  obtain ⟨g, -, other, second, right⟩ := right
  rw [run] at left right
  simp only [List.cons.injEq] at left right
  exact faulting_cycle_unique left.2 right.2

theorem advance_overflows {elapsed : Nanoseconds}
    (tooLong : ¬ (m.sinceTick + elapsed < Clock.limit ∧ m.sinceCycle + elapsed < Clock.limit)) :
    (m.advance elapsed).2 = .error .timeOverflow ∧
      ((m.advance elapsed).1 = m ∨
        ∃ ticked, m.tickTimers elapsed = some ((m.advance elapsed).1, ticked)) := by
  by_cases tickFits : m.sinceTick + elapsed < Clock.limit
  · obtain ⟨start, ticked, ticks, sameTime, -⟩ := tickTimers_of_fits tickFits
    have cycleOver : ¬ start.sinceCycle + elapsed < Clock.limit := by
      rw [sameTime]
      exact fun cycleFits => tooLong ⟨tickFits, cycleFits⟩
    simp only [advance, ticks, Clock.add, if_neg cycleOver]
    exact ⟨trivial, .inr ⟨ticked, rfl⟩⟩
  · have none : m.tickTimers elapsed = none := by
      rw [tickTimers, Clock.add, if_neg tickFits, Option.map_none]
    simp only [advance, none]
    exact ⟨trivial, .inl trivial⟩

theorem sinceCycle_tickTimers {elapsed : Nanoseconds} {after : Machine} {ticked : Bool}
    (ticks : m.tickTimers elapsed = some (after, ticked)) :
    after.sinceCycle = m.sinceCycle := by
  obtain ⟨delay, sound, sinceTick, rfl⟩ := sameButTimers_of_ticks ticks
  rfl

theorem sinceCycle_fetch (m : Machine) : m.fetch.1.sinceCycle = m.sinceCycle := by
  rw [fetch_eq]
  split <;> rfl

/-- The time that a call leaves, by the way in which it ends. -/
theorem carry_after_advance (m : Machine) (elapsed : Nanoseconds) :
    ((m.advance elapsed).2 = .error .timeOverflow ∧
        (m.advance elapsed).1.sinceCycle = m.sinceCycle) ∨
      (∃ report, (m.advance elapsed).2 = .ok report ∧
        (m.advance elapsed).1.sinceCycle ≤ m.config.cycleInterval) ∨
      ∃ k, m.FaultsInCycle elapsed k ∧
        (m.advance elapsed).1.sinceCycle =
          m.sinceCycle + elapsed - k * m.config.cycleInterval := by
  by_cases fits : m.sinceTick + elapsed < Clock.limit ∧ m.sinceCycle + elapsed < Clock.limit
  · obtain ⟨start, ticked, signals, final, ticks, steps, -, ends⟩ :=
      advance_runs_cycles fits.1 fits.2
    rcases ends with ⟨-, -, -, done⟩ | ⟨-, -, -, f, failed, done⟩
    · rw [done]
      exact .inr (.inl ⟨_, rfl, Nat.min_le_right _ _⟩)
    · have answers := congrArg Prod.snd (steps.then_fault failed)
      refine .inr (.inr ⟨signals.length + 1, ⟨f, by rw [done], ticked, signals, ?_⟩, ?_⟩)
      · rw [run_tickTimers ticks, answers]
      · rw [done]
        rfl
  · obtain ⟨stopped, same | ⟨ticked, ticks⟩⟩ := advance_overflows fits
    · exact .inl ⟨stopped, by rw [same]⟩
    · exact .inl ⟨stopped, sinceCycle_tickTimers ticks⟩

/-- A call that completes or overflows stops short of nothing. -/
theorem not_stopsShort {elapsed : Nanoseconds}
    (runs : ∀ f, (m.advance elapsed).2 ≠ .error (.fault f)) : ¬ m.StopsShort elapsed := by
  rintro ⟨k, ⟨f, stopped, -⟩, -⟩
  exact runs f stopped

theorem exceeds_advance_iff (m : Machine) (elapsed : Nanoseconds) :
    m.config.cycleInterval < (m.advance elapsed).1.sinceCycle ↔
      (m.config.cycleInterval < m.sinceCycle ∧
          (m.advance elapsed).2 = .error .timeOverflow) ∨ m.StopsShort elapsed := by
  rcases m.carry_after_advance elapsed with ⟨stopped, same⟩ | ⟨report, done, few⟩ | ⟨k, faults, left⟩
  · have complete : ¬ m.StopsShort elapsed := not_stopsShort fun f => by simp [stopped]
    simp [same, stopped, complete]
  · have complete : ¬ m.StopsShort elapsed := not_stopsShort fun f => by simp [done]
    simp [done, complete, few]
  · have stopped : (m.advance elapsed).2 ≠ .error .timeOverflow := by
      obtain ⟨f, stopped, -⟩ := faults
      simp [stopped]
    have short : m.StopsShort elapsed ↔
        (k + 1) * m.config.cycleInterval < m.sinceCycle + elapsed := by
      constructor
      · rintro ⟨n, other, more⟩
        rw [faults.unique other]
        exact more
      · intro more
        exact ⟨k, faults, more⟩
    rw [left, short, Nat.add_one_mul, Nat.lt_sub_iff_add_lt, Nat.add_comm]
    simp only [stopped, and_false, false_or]

theorem perform_advance (m : Machine) (elapsed : Nanoseconds) :
    m.perform (.advance elapsed) =
      ((m.advance elapsed).1, match (m.advance elapsed).2 with
        | .ok report => .report report
        | .error why => .stopped why) := by
  rw [perform]
  split <;> rename_i done <;> rw [done]

theorem setsTime_advance_iff (m : Machine) (elapsed : Nanoseconds) :
    Operation.SetsTime (.advance elapsed) (m.perform (.advance elapsed)).2 ↔
      (m.advance elapsed).2 ≠ .error .timeOverflow := by
  rw [perform_advance]
  cases (m.advance elapsed).2 <;> simp [Operation.SetsTime]

/-- Apart from the passing of time, an operation leaves the carried time alone or clears it. -/
theorem carry_after_perform (m : Machine) {op : Operation}
    (other : ∀ elapsed, op ≠ .advance elapsed) :
    (¬ op.SetsTime (m.perform op).2 ∧ (m.perform op).1.sinceCycle = m.sinceCycle) ∨
      (op.SetsTime (m.perform op).2 ∧ (m.perform op).1.sinceCycle = 0) := by
  cases op with
  | load program =>
    rw [perform, load_eq]
    split
    · exact .inr ⟨rfl, rfl⟩
    · exact .inl ⟨by simp [Answer.ofExcept, Operation.SetsTime], rfl⟩
  | reset => exact .inr ⟨trivial, rfl⟩
  | fetch => exact .inl ⟨id, sinceCycle_fetch m⟩
  | cycle => exact .inl ⟨id, sinceCycle_cycle m⟩
  | advance elapsed => exact absurd rfl (other elapsed)
  | tickTimers elapsed =>
    refine .inl ⟨id, ?_⟩
    rw [perform]
    cases ticks : m.tickTimers elapsed with
    | none => rfl
    | some answer => exact sinceCycle_tickTimers ticks
  | setKey key pressed => exact .inl ⟨id, rfl⟩
  | toggleKey key => exact .inl ⟨id, rfl⟩
  | setKeypad keys => exact .inl ⟨id, rfl⟩

theorem exceeds_perform_iff {config : Config} (h : m.Bounded config) (op : Operation) :
    config.cycleInterval < (m.perform op).1.sinceCycle ↔
      (config.cycleInterval < m.sinceCycle ∧ ¬ op.SetsTime (m.perform op).2) ∨
        ∃ elapsed, op = .advance elapsed ∧ m.StopsShort elapsed := by
  by_cases passes : ∃ elapsed, op = .advance elapsed
  · obtain ⟨elapsed, rfl⟩ := passes
    have called := m.exceeds_advance_iff elapsed
    rw [h.configured] at called
    rw [setsTime_advance_iff, Classical.not_not, perform_advance, called]
    simp
  · have other : ∀ elapsed, op ≠ .advance elapsed := fun elapsed same => passes ⟨elapsed, same⟩
    have none : ¬ ∃ elapsed, op = .advance elapsed ∧ m.StopsShort elapsed :=
      fun ⟨elapsed, same, _⟩ => other elapsed same
    rcases m.carry_after_perform other with ⟨keeps, same⟩ | ⟨sets, cleared⟩
    · simp only [same, keeps, none, not_false_eq_true, and_true, or_false]
    · simp only [cleared, sets, none, not_true_eq_false, and_false, or_false, Nat.not_lt_zero]

end Calls

section Histories
variable {m} {config : Config}

theorem keepsTime_cons (op : Operation) (ops : List Operation) :
    m.KeepsTime (op :: ops) ↔
      ¬ op.SetsTime (m.perform op).2 ∧ (m.perform op).1.KeepsTime ops := by
  simp [KeepsTime, run]

theorem endsShort_cons (op : Operation) (ops : List Operation) :
    m.EndsShort (op :: ops) ↔
      (∃ elapsed, op = .advance elapsed ∧ m.StopsShort elapsed ∧
        (m.perform op).1.KeepsTime ops) ∨ (m.perform op).1.EndsShort ops := by
  constructor
  · rintro ⟨before, elapsed, later, split, short, keeps⟩
    cases before with
    | nil =>
      cases split
      exact .inl ⟨elapsed, rfl, short, keeps⟩
    | cons first before =>
      cases split
      exact .inr ⟨before, elapsed, later, rfl, short, keeps⟩
  · rintro (⟨elapsed, rfl, short, keeps⟩ | ⟨before, elapsed, later, rfl, short, keeps⟩)
    · exact ⟨[], elapsed, ops, rfl, short, keeps⟩
    · exact ⟨op :: before, elapsed, later, rfl, short, keeps⟩

/-- Whatever a machine carries beyond one cycle it carried from the start, or a call that stopped
short has left it. -/
theorem exceeds_run_iff (h : m.Bounded config) (ops : List Operation) :
    config.cycleInterval < (m.run ops).1.sinceCycle ↔
      (config.cycleInterval < m.sinceCycle ∧ m.KeepsTime ops) ∨ m.EndsShort ops := by
  induction ops generalizing m with
  | nil => simp [run, KeepsTime, EndsShort]
  | cons op ops ih =>
    have first := exceeds_perform_iff h op
    have rest := ih (h.perform op)
    rw [keepsTime_cons, endsShort_cons]
    change config.cycleInterval < ((m.perform op).1.run ops).1.sinceCycle ↔ _
    rw [rest, first]
    constructor
    · rintro (⟨⟨exceeds, sets⟩ | ⟨elapsed, rfl, short⟩, keeps⟩ | ends)
      · exact .inl ⟨exceeds, sets, keeps⟩
      · exact .inr (.inl ⟨elapsed, rfl, short, keeps⟩)
      · exact .inr (.inr ends)
    · rintro (⟨exceeds, sets, keeps⟩ | ⟨elapsed, rfl, short, keeps⟩ | ends)
      · exact .inl ⟨.inl ⟨exceeds, sets⟩, keeps⟩
      · exact .inl ⟨.inr ⟨elapsed, rfl, short⟩, keeps⟩
      · exact .inr ends

theorem sinceCycle_run_reset (m : Machine) (ops : List Operation) :
    (m.run (ops ++ [.reset])).1.sinceCycle = 0 := by
  rw [run_append]
  rfl

theorem cycleInterval_le (config : Config) : config.cycleInterval ≤ Clock.second :=
  Nat.div_le_self _ _

/-- With at most the time of one cycle left, a call for no time runs at most one cycle. -/
theorem advance_zero_runs_at_most_one (h : m.Bounded config)
    (few : m.sinceCycle ≤ config.cycleInterval) (positive : 0 < config.cycleInterval) :
    ∃ k ≤ 1,
      (m.advance 0).1 = (m.run (.tickTimers 0 :: List.replicate k .cycle)).1.withTime
          (m.advance 0).1.sinceCycle ∧
        ∀ report, (m.advance 0).2 = .ok report → report.cycles = k := by
  have tickFits : m.sinceTick + 0 < Clock.limit := Nat.lt_trans h.sinceTick (by decide)
  have cycleFits : m.sinceCycle + 0 < Clock.limit :=
    Nat.lt_of_le_of_lt (Nat.le_trans few (cycleInterval_le config)) (by decide)
  obtain ⟨start, ticked, signals, final, ticks, steps, -, ends⟩ :=
    advance_runs_cycles tickFits cycleFits
  rw [h.configured] at ends
  have one {k : Nat} (paid : k * config.cycleInterval ≤ m.sinceCycle + 0) : k ≤ 1 := by
    refine Nat.le_of_mul_le_mul_right ?_ positive
    rw [Nat.one_mul]
    exact Nat.le_trans paid few
  rcases ends with ⟨-, paid, -, done⟩ | ⟨-, -, paid, f, failed, done⟩
  · refine ⟨signals.length, one paid, ?_, ?_⟩
    · rw [done, run_tickTimers ticks, steps]
      rfl
    · intro report reported
      rw [done] at reported
      cases reported
      rw [Report.count_all, Nat.zero_add]
  · refine ⟨signals.length + 1, one paid, ?_, ?_⟩
    · rw [done, run_tickTimers ticks, steps.then_fault failed]
      rfl
    · intro report reported
      rw [done] at reported
      cases reported

/-- From power on, a machine carries more than the time of one cycle exactly when the last
operation that sets this time is a call that a fault has stopped short. In all other cases a call
for no time runs at most one cycle. -/
theorem carried_time_exceeds_iff_ends_short (config : Config) (random : RandomSource)
    (ops : List Operation) :
    let start := Machine.powerOn config random
    let m := (start.run ops).1
    (config.cycleInterval < m.sinceCycle ↔ start.EndsShort ops) ∧
      (¬ start.EndsShort ops → 0 < config.cycleInterval → ∃ k ≤ 1,
        (m.advance 0).1 = (m.run (.tickTimers 0 :: List.replicate k .cycle)).1.withTime
            (m.advance 0).1.sinceCycle ∧
          ∀ report, (m.advance 0).2 = .ok report → report.cycles = k) := by
  intro start m
  have initial : start.Bounded config := .powerOn config random
  have exceeds : config.cycleInterval < m.sinceCycle ↔ start.EndsShort ops := by
    rw [exceeds_run_iff initial]
    simp [start, Machine.powerOn]
  refine ⟨exceeds, ?_⟩
  intro complete positive
  have few : m.sinceCycle ≤ config.cycleInterval := by
    rw [← Nat.not_lt, exceeds]
    exact complete
  exact advance_zero_runs_at_most_one (initial.run ops) few positive

/-- A program that fails at its first word and loops at its second one. It is left alone for a
second, and then a fetch moves it past the failure. -/
def movedPastFault : List Operation :=
  [.load ⟨"", [0x00, 0x00, 0x12, 0x02]⟩, .advance Clock.second, .fetch]

/-- The bound of one interval does not hold after every history: the call that has failed leaves
almost all of its second, and a call for no time then runs as many cycles as it may. -/
theorem carried_time_exceeds_after_fault :
    let start := powerOn { maxCycles := 2 } (.cyclic #[0])
    start.config.cycleInterval < (start.run movedPastFault).1.sinceCycle ∧
      (start.run (movedPastFault ++ [.advance 0])).2.getLast? = some (.report { cycles := 2 }) := by
  decide +kernel

/-- A reset settles what the failed call has left. -/
theorem reset_settles_carried_time :
    ¬ (powerOn {} (.cyclic #[0])).EndsShort (movedPastFault ++ [.reset]) ∧
      0 < Config.cycleInterval {} ∧ ∃ k ≤ 1,
        let m := ((powerOn {} (.cyclic #[0])).run (movedPastFault ++ [.reset])).1
        (m.advance 0).1 = (m.run (.tickTimers 0 :: List.replicate k .cycle)).1.withTime
            (m.advance 0).1.sinceCycle ∧
          ∀ report, (m.advance 0).2 = .ok report → report.cycles = k := by
  obtain ⟨exceeds, one⟩ :=
    carried_time_exceeds_iff_ends_short {} (.cyclic #[0]) (movedPastFault ++ [.reset])
  have complete : ¬ (powerOn {} (.cyclic #[0])).EndsShort (movedPastFault ++ [.reset]) := by
    rw [← exceeds, sinceCycle_run_reset]
    exact Nat.not_lt_zero _
  have positive : 0 < Config.cycleInterval {} := by decide
  exact ⟨complete, positive, one complete positive⟩

end Histories

end Machine
end ChipEight
