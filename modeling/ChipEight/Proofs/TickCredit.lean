import ChipEight.Proofs.TimerTicks

/-
  The timers are credited with time: the ticks they have taken, an interval each, and the carry. A
  call credits its time, but nothing beyond the interval behind the one in which it begins. Later
  calls find that bound further on, so the same time in more calls is credited at least as much.
-/
namespace ChipEight

/-- The last nanosecond up to which one call can be credited. -/
def creditBound (credit : Nat) : Nat :=
  (credit / Clock.timerInterval + 2) * Clock.timerInterval - 1

def credited (credit elapsed : Nat) : Nat :=
  min (credit + elapsed) (creditBound credit)

section Credits
variable {credit more elapsed : Nat}

theorem creditBound_mono (less : credit ≤ more) : creditBound credit ≤ creditBound more := by
  have interval : credit / Clock.timerInterval ≤ more / Clock.timerInterval :=
    Nat.div_le_div_right less
  exact Nat.sub_le_sub_right (Nat.mul_le_mul_right _ (Nat.add_le_add_right interval 2)) 1

theorem le_creditBound (credit : Nat) : credit ≤ creditBound credit := by
  have inside : credit < (credit / Clock.timerInterval + 1) * Clock.timerInterval := by
    rw [Nat.mul_comm]
    exact Nat.lt_mul_div_succ credit (by decide)
  have further : (credit / Clock.timerInterval + 1) * Clock.timerInterval ≤
      (credit / Clock.timerInterval + 2) * Clock.timerInterval :=
    Nat.mul_le_mul_right _ (Nat.le_succ _)
  unfold creditBound
  omega

theorem credited_mono (less : credit ≤ more) : credited credit elapsed ≤ credited more elapsed := by
  have bound := creditBound_mono less
  unfold credited
  omega

theorem le_credited (credit elapsed : Nat) : credit ≤ credited credit elapsed := by
  have bound := le_creditBound credit
  unfold credited
  omega

/-- The second of two calls has its bound further on, and what the first one has lost at its own
bound is lost by the one call as well. -/
theorem credited_split (credit first second : Nat) :
    credited credit (first + second) ≤ credited (credited credit first) second := by
  have further := creditBound_mono (le_credited credit first)
  unfold credited at further ⊢
  omega

theorem credited_pieces (credit : Nat) (pieces : List Nat) :
    credited credit pieces.sum ≤ pieces.foldl credited credit := by
  induction pieces generalizing credit with
  | nil => exact Nat.min_le_left _ _
  | cons piece pieces ih =>
    calc
      credited credit (piece + pieces.sum) ≤ credited (credited credit piece) pieces.sum :=
        credited_split credit piece pieces.sum
      _ ≤ pieces.foldl credited (credited credit piece) := ih _

/-- Time after time, the pieces are credited at least what the whole times are. -/
theorem credited_refined (less : credit ≤ more) (pieces : List (List Nat)) :
    (pieces.map List.sum).foldl credited credit ≤ pieces.flatten.foldl credited more := by
  induction pieces generalizing credit more with
  | nil => exact less
  | cons piece pieces ih =>
    rw [List.map_cons, List.foldl_cons, List.flatten_cons, List.foldl_append]
    exact ih (Nat.le_trans (credited_mono less) (credited_pieces more piece))

theorem credited_intervals (n credit elapsed : Nat) :
    credited (n * Clock.timerInterval + credit) elapsed =
      n * Clock.timerInterval + credited credit elapsed := by
  have count : (n * Clock.timerInterval + credit) / Clock.timerInterval =
      n + credit / Clock.timerInterval := by
    rw [Nat.add_comm, Nat.add_mul_div_right _ _ (by decide), Nat.add_comm]
  have bound : creditBound (n * Clock.timerInterval + credit) =
      n * Clock.timerInterval + creditBound credit := by
    have positive : 0 < Clock.timerInterval := by decide
    unfold creditBound
    rw [count, Nat.add_assoc, Nat.add_mul, Nat.add_sub_assoc]
    exact Nat.mul_pos (Nat.succ_pos _) positive
  rw [credited, credited, bound, Nat.add_assoc, Nat.add_min_add_left]

theorem credited_all_intervals (n credit : Nat) (times : List Nat) :
    times.foldl credited (n * Clock.timerInterval + credit) =
      n * Clock.timerInterval + times.foldl credited credit := by
  induction times generalizing credit with
  | nil => rfl
  | cons time times ih => rw [List.foldl_cons, List.foldl_cons, credited_intervals, ih]

end Credits

namespace Machine
variable {m : Machine}

/-- What is credited from a carry below an interval, which is a time that fills no second one. -/
theorem credited_of_early {carry elapsed : Nat} (early : carry < Clock.timerInterval) :
    credited carry elapsed = min (carry + elapsed) (2 * Clock.timerInterval - 1) := by
  rw [credited, creditBound, Nat.div_eq_of_lt early, Nat.zero_add]

/-- An interval and the capped rest of a time are that time, below two intervals. -/
theorem capped_tick {interval passed : Nat} (full : interval ≤ passed) (positive : 0 < interval) :
    interval + min (passed - interval) (interval - 1) = min passed (2 * interval - 1) := by
  omega

/-- One call. The cap on the carry is the bound on the credit. -/
theorem credited_tickTimers {after : Machine} {elapsed : Nanoseconds} {ticked : Bool}
    (early : m.sinceTick < Clock.timerInterval)
    (ticks : m.tickTimers elapsed = some (after, ticked)) :
    ticked.toNat * Clock.timerInterval + after.sinceTick = credited m.sinceTick elapsed := by
  rw [credited_of_early early]
  rcases tickTimers_cases ticks with ⟨few, rfl, rfl⟩ | ⟨full, rfl, rfl⟩
  · have inside : m.sinceTick + elapsed ≤ 2 * Clock.timerInterval - 1 :=
      Nat.le_trans (Nat.le_of_lt few) (by decide)
    rw [Bool.toNat_false, Nat.zero_mul, Nat.zero_add, Nat.min_eq_left inside]
  · rw [Bool.toNat_true, Nat.one_mul, ← capped_tick full (by decide)]

theorem credited_perform {op : Operation} (early : m.sinceTick < Clock.timerInterval)
    (only : m.OnlyTicks op) :
    [(m.perform op).2].count (.ticked true) * Clock.timerInterval + (m.perform op).1.sinceTick =
      op.timerTimes.foldl credited m.sinceTick := by
  rcases onlyTicks_cases only with ⟨elapsed, ticked, rfl, ticks, count⟩ |
    ⟨none, silent, sinceTick, -, -⟩
  · rw [count]
    exact credited_tickTimers early ticks
  · rw [none, silent, sinceTick, Nat.zero_mul]
    exact Nat.zero_add _

/-- The ticks and the carry of a run are the credit that its times have brought. -/
theorem credited_run {ops : List Operation} (early : m.sinceTick < Clock.timerInterval)
    (only : m.Throughout OnlyTicks ops) :
    (m.run ops).2.count (.ticked true) * Clock.timerInterval + (m.run ops).1.sinceTick =
      (ops.flatMap Operation.timerTimes).foldl credited m.sinceTick := by
  induction ops generalizing m with
  | nil => simp [run]
  | cons op ops ih =>
    have first := credited_perform early only.1
    have rest := ih (accounts_perform early only.1).early only.2
    have final : (m.run (op :: ops)).1 = ((m.perform op).1.run ops).1 := rfl
    rw [List.flatMap_cons, List.foldl_append, ← first, credited_all_intervals, ← rest,
      count_ticked_cons, final, Nat.add_mul, Nat.add_comm (_ * _), Nat.add_assoc]

/-- Of two carries below an interval, the one that makes up for fewer ticks does not make up for one
of them. -/
theorem ticks_le_of_credit {interval ticks more carry left : Nat} (early : left < interval)
    (less : ticks * interval + carry ≤ more * interval + left) : ticks ≤ more := by
  have below : ticks * interval < (more + 1) * interval := by
    rw [Nat.add_one_mul]
    omega
  exact Nat.le_of_lt_succ (Nat.lt_of_mul_lt_mul_right below)

/-- Time in pieces loses no tick. Two histories call on the timers, the second one for pieces of the
times of the first one, and whatever else they do writes no timer. Then the second history ticks at
least as often and is credited at least as much, so both of its timers end no higher. -/
theorem pieces_of_time_lose_no_tick {m : Machine} {coarse fine : List Operation}
    {pieces : List (List Nanoseconds)} (early : m.sinceTick < Clock.timerInterval)
    (onlyCoarse : m.Throughout OnlyTicks coarse) (onlyFine : m.Throughout OnlyTicks fine)
    (whole : coarse.flatMap Operation.timerTimes = pieces.map List.sum)
    (cut : fine.flatMap Operation.timerTimes = pieces.flatten) :
    let ticks (ops : List Operation) := (m.run ops).2.count (.ticked true)
    let carry (ops : List Operation) := (m.run ops).1.sinceTick
    ticks coarse ≤ ticks fine ∧
      ticks coarse * Clock.timerInterval + carry coarse ≤
        ticks fine * Clock.timerInterval + carry fine ∧
      (m.run fine).1.delay.value.toNat ≤ (m.run coarse).1.delay.value.toNat ∧
      (m.run fine).1.sound.value.toNat ≤ (m.run coarse).1.sound.value.toNat := by
  intro ticks carry
  have few := accounts_run early onlyCoarse
  have many := accounts_run early onlyFine
  have credit : ticks coarse * Clock.timerInterval + carry coarse ≤
      ticks fine * Clock.timerInterval + carry fine := by
    rw [credited_run early onlyCoarse, credited_run early onlyFine, whole, cut]
    exact credited_refined (Nat.le_refl _) pieces
  have number : ticks coarse ≤ ticks fine := ticks_le_of_credit many.early credit
  refine ⟨number, credit, ?_, ?_⟩
  · rw [few.delay, many.delay, value_of_ticks, value_of_ticks]
    exact Nat.sub_le_sub_left number _
  · rw [few.sound, many.sound, value_of_ticks, value_of_ticks]
    exact Nat.sub_le_sub_left number _

/-- Four intervals in one call, and a nanosecond. -/
def longCall : List Operation :=
  [.tickTimers (4 * Clock.timerInterval), .cycle, .tickTimers 1]

/-- The same time, the four intervals in four calls and one of these for no time. -/
def longCallInPieces : List Operation :=
  [.tickTimers Clock.timerInterval, .tickTimers 0, .cycle, .tickTimers Clock.timerInterval,
    .setKey 3 true, .tickTimers (2 * Clock.timerInterval), .fetch, .tickTimers 1]

theorem long_call_in_pieces_ticks_more :
    let pieces := [[Clock.timerInterval, 0, Clock.timerInterval, 2 * Clock.timerInterval], [1]]
    nearlyDue.sinceTick < Clock.timerInterval ∧ nearlyDue.Throughout OnlyTicks longCall ∧
      nearlyDue.Throughout OnlyTicks longCallInPieces ∧
      longCall.flatMap Operation.timerTimes = pieces.map List.sum ∧
      longCallInPieces.flatMap Operation.timerTimes = pieces.flatten ∧
      (nearlyDue.run longCall).2.count (.ticked true) = 2 ∧
      2 ≤ (nearlyDue.run longCallInPieces).2.count (.ticked true) ∧
      (nearlyDue.run longCallInPieces).1.delay.value.toNat ≤
        (nearlyDue.run longCall).1.delay.value.toNat ∧
      (nearlyDue.run longCallInPieces).1.sound.value.toNat ≤
        (nearlyDue.run longCall).1.sound.value.toNat := by
  intro pieces
  have early : nearlyDue.sinceTick < Clock.timerInterval := by decide
  have onlyCoarse : nearlyDue.Throughout OnlyTicks longCall := by decide +kernel
  have onlyFine : nearlyDue.Throughout OnlyTicks longCallInPieces := by decide +kernel
  have whole : longCall.flatMap Operation.timerTimes = pieces.map List.sum := by decide
  have cut : longCallInPieces.flatMap Operation.timerTimes = pieces.flatten := by decide
  have two : (nearlyDue.run longCall).2.count (.ticked true) = 2 := by decide +kernel
  obtain ⟨ticks, -, delay, sound⟩ :=
    pieces_of_time_lose_no_tick early onlyCoarse onlyFine whole cut
  have more := Nat.le_trans (Nat.le_of_eq two.symm) ticks
  exact ⟨early, onlyCoarse, onlyFine, whole, cut, two, more, delay, sound⟩

end Machine
end ChipEight
