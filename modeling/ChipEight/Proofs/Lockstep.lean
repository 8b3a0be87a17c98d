import Mathlib.Data.List.Forall2
import ChipEight.Proofs.CycleTrace
import ChipEight.Proofs.Difference

/-
  Two machines that go through one history side by side. A difference that no operation sees, and
  that none turns into another kind, is there after each of them, and the answers are the same.
-/
namespace ChipEight

/-- No operation sees the difference, and all of them leave it one of its kind, as long as the cycles
run allowed instructions only. -/
structure Difference.Unseen (D : Difference) (allowed : Instruction → Prop) : Prop
    extends D.Hidden allowed where
  pace : ∀ {c c'}, D.config c c' → c.cycleInterval = c'.cycleInterval ∧ c.maxCycles = c'.maxCycles
  name : ∀ n, D.name n n
  tick : ∀ {t t'}, D.sound t t' → D.sound t.tick t'.tick
  /-- The keys and the clocks are the same, the sound timer apart. -/
  outside : D.delay = Eq ∧ D.keypad = Eq ∧ D.sinceTick = Eq ∧ D.sinceCycle = Eq

namespace Machine

/-- State and answer after each operation of a history. -/
def trace (m : Machine) : List Operation → List (Machine × Answer)
  | [] => []
  | op :: ops => m.perform op :: (m.perform op).1.trace ops

namespace Alike
variable {D : Difference} {allowed : Instruction → Prop} {m m' : Machine}
variable (same : m.Alike D m') (unseen : D.Unseen allowed)
include same unseen

theorem sameKeypad : m.keypad = m'.keypad := by
  have keys := same.keypad
  rwa [unseen.outside.2.1] at keys

theorem sameDelay : m.delay = m'.delay := by
  have delay := same.delay
  rwa [unseen.outside.1] at delay

theorem sameSinceTick : m.sinceTick = m'.sinceTick := by
  have time := same.sinceTick
  rwa [unseen.outside.2.2.1] at time

theorem sameSinceCycle : m.sinceCycle = m'.sinceCycle := by
  have time := same.sinceCycle
  rwa [unseen.outside.2.2.2] at time

theorem setKeypad (keys : Keypad) : (m.setKeypad keys).Alike D (m'.setKeypad keys) :=
  { same with keypad := by rw [unseen.outside.2.1]; rfl }

theorem withTime (time : Nanoseconds) : (m.withTime time).Alike D (m'.withTime time) :=
  { same with sinceCycle := by rw [unseen.outside.2.2.2]; rfl }

theorem reset : m.reset.Alike D m'.reset where
  memory := rfl
  registers := rfl
  stack := rfl
  config := same.config
  name := unseen.name _
  lastWord := unseen.lastWord _
  delay := unseen.delay _
  sound := unseen.sound _
  display := unseen.clear same.display
  keypad := by rw [unseen.outside.2.1]; rfl
  random := same.random
  sinceTick := by rw [unseen.outside.2.2.1]; rfl
  sinceCycle := by rw [unseen.outside.2.2.2]; rfl

theorem load (program : Program) :
    (m.load program).1.Alike D (m'.load program).1 ∧ (m.load program).2 = (m'.load program).2 := by
  rw [load_eq, load_eq]
  split
  · exact ⟨{ same.reset unseen with memory := rfl, name := unseen.name _ }, rfl⟩
  · exact ⟨same, rfl⟩

theorem fetch : m.fetch.1.Alike D m'.fetch.1 ∧ m.fetch.2 = m'.fetch.2 := by
  rw [fetch_eq, fetch_eq, same.word]
  cases m'.memory.word m'.counter.toNat with
  | error cause => exact ⟨same, rfl⟩
  | ok w => exact ⟨same.fetched unseen.toHidden w, rfl⟩

theorem tickTimers (elapsed : Nanoseconds) :
    (m.tickTimers elapsed = none ∧ m'.tickTimers elapsed = none) ∨
      ∃ after after' ticked, m.tickTimers elapsed = some (after, ticked) ∧
        m'.tickTimers elapsed = some (after', ticked) ∧ after.Alike D after' := by
  unfold Machine.tickTimers
  rw [same.sameSinceTick unseen]
  cases Clock.add m'.sinceTick elapsed with
  | none => exact .inl ⟨rfl, rfl⟩
  | some passed =>
    right
    simp only [Option.map_some]
    by_cases early : passed < Clock.timerInterval
    · simp only [if_pos early]
      exact ⟨_, _, _, rfl, rfl, { same with sinceTick := by rw [unseen.outside.2.2.1] }⟩
    · simp only [if_neg early]
      exact ⟨_, _, _, rfl, rfl, { same with
        sinceTick := by rw [unseen.outside.2.2.1]
        delay := by rw [unseen.outside.1, same.sameDelay unseen]
        sound := unseen.tick same.sound }⟩

theorem runCycles {interval : Nanoseconds} {cap : Nat} (report : Report)
    (neutral : ∀ s ∈ startsInLoop interval cap m, ∀ i ∈ s.executed, allowed i) :
    (m.runCycles interval cap report).1.Alike D (m'.runCycles interval cap report).1 ∧
      (m.runCycles interval cap report).2 = (m'.runCycles interval cap report).2 := by
  induction cap generalizing m m' report with
  | zero => exact ⟨same, rfl⟩
  | succ cap ih =>
    have time := same.sameSinceCycle unseen
    rw [startsInLoop] at neutral
    by_cases late : m.sinceCycle < interval
    · rw [runCycles_late late, runCycles_late (time ▸ late)]
      exact ⟨same, rfl⟩
    · rw [if_neg late] at neutral
      have spent : (m.spend interval).Alike D (m'.spend interval) := by
        rw [spend, spend, time]
        exact same.withTime unseen _
      obtain ⟨next, answer⟩ := spent.cycle unseen.toHidden (neutral _ List.mem_cons_self)
      have due : interval ≤ m'.sinceCycle := time ▸ Nat.not_lt.mp late
      rw [runCycles_due (Nat.not_lt.mp late), runCycles_due due]
      have rest := fun s mem => neutral s (List.mem_cons_of_mem _ mem)
      generalize (m.spend interval).cycle = cycled at next answer rest
      generalize (m'.spend interval).cycle = cycled' at next answer
      obtain ⟨ended, result⟩ := cycled
      obtain ⟨ended', result'⟩ := cycled'
      obtain rfl : result = result' := answer
      cases result with
      | error f => exact ⟨next, rfl⟩
      | ok signal =>
        by_cases waits : signal = .waiting
        · simp only [if_pos waits]
          exact ⟨next, trivial⟩
        · simp only [if_neg waits] at rest ⊢
          exact ih next _ rest

theorem capDebt (interval : Nanoseconds) :
    (m.capDebt interval).Alike D (m'.capDebt interval) := by
  rw [Machine.capDebt, Machine.capDebt, same.sameSinceCycle unseen]
  exact same.withTime unseen _

theorem advance {elapsed : Nanoseconds}
    (neutral : ∀ s ∈ m.startsOf (.advance elapsed), ∀ i ∈ s.executed, allowed i) :
    (m.advance elapsed).1.Alike D (m'.advance elapsed).1 ∧
      (m.advance elapsed).2 = (m'.advance elapsed).2 := by
  rw [startsOf] at neutral
  rw [Machine.advance, Machine.advance]
  rcases same.tickTimers unseen elapsed with
    ⟨none, none'⟩ | ⟨start, start', ticked, ticks, ticks', begun⟩
  · rw [none, none']
    exact ⟨same, rfl⟩
  · obtain ⟨interval, cap⟩ := unseen.pace begun.config
    simp only [ticks, ticks', ← begun.sameSinceCycle unseen, ← interval, ← cap] at neutral ⊢
    cases total : Clock.add start.sinceCycle elapsed with
    | none => exact ⟨begun, rfl⟩
    | some time =>
      simp only [total] at neutral ⊢
      obtain ⟨ended, answer⟩ :=
        (begun.withTime unseen time).runCycles unseen { ticked := ticked } neutral
      simp only [Machine.withTime] at ended answer
      generalize Machine.runCycles _ _ { start with sinceCycle := time } _ = looped at ended answer ⊢
      generalize Machine.runCycles _ _ _ _ = looped' at ended answer ⊢
      obtain ⟨final, result⟩ := looped
      obtain ⟨final', result'⟩ := looped'
      obtain rfl : result = result' := answer
      cases result with
      | error f => exact ⟨ended, rfl⟩
      | ok report => exact ⟨ended.capDebt unseen _, rfl⟩

theorem perform {op : Operation}
    (neutral : ∀ s ∈ m.startsOf op, ∀ i ∈ s.executed, allowed i) :
    (m.perform op).1.Alike D (m'.perform op).1 ∧ (m.perform op).2 = (m'.perform op).2 := by
  cases op with
  | load program =>
    obtain ⟨loaded, answer⟩ := same.load unseen program
    exact ⟨loaded, congrArg (Answer.ofExcept _) answer⟩
  | reset => exact ⟨same.reset unseen, rfl⟩
  | fetch =>
    obtain ⟨fetched, answer⟩ := same.fetch unseen
    exact ⟨fetched, congrArg (Answer.ofExcept _) answer⟩
  | cycle =>
    obtain ⟨next, answer⟩ := same.cycle unseen.toHidden (neutral m List.mem_cons_self)
    exact ⟨next, congrArg (Answer.ofExcept _) answer⟩
  | advance elapsed =>
    obtain ⟨ended, answer⟩ := same.advance unseen neutral
    rw [perform_advance, perform_advance, answer]
    exact ⟨ended, rfl⟩
  | tickTimers elapsed =>
    rw [Machine.perform, Machine.perform]
    rcases same.tickTimers unseen elapsed with ⟨none, none'⟩ | ⟨_, _, _, ticks, ticks', after⟩
    · rw [none, none']
      exact ⟨same, rfl⟩
    · rw [ticks, ticks']
      exact ⟨after, rfl⟩
  | setKey key pressed =>
    have keys := same.sameKeypad unseen
    rw [Machine.perform, Machine.perform, setKey, setKey, keys]
    exact ⟨same.setKeypad unseen _, rfl⟩
  | toggleKey key =>
    have keys := same.sameKeypad unseen
    rw [Machine.perform, Machine.perform, toggleKey, toggleKey, keys]
    exact ⟨same.setKeypad unseen _, rfl⟩
  | setKeypad keys => exact ⟨same.setKeypad unseen keys, rfl⟩

/-- Side by side the machines stay alike and give the same answers. That the cycles run allowed
instructions only has to be known of one of the two. -/
theorem trace {ops : List Operation}
    (neutral : ∀ s ∈ m.starts ops, ∀ i ∈ s.executed, allowed i) :
    List.Forall₂ (fun now now' => now.1.Alike D now'.1 ∧ now.2 = now'.2)
      (m.trace ops) (m'.trace ops) := by
  induction ops generalizing m m' with
  | nil => exact .nil
  | cons op ops ih =>
    have now := same.perform unseen fun s mem => neutral s (List.mem_append_left _ mem)
    exact .cons now (ih now.1 fun s mem => neutral s (List.mem_append_right _ mem))

end Alike

end Machine
end ChipEight
