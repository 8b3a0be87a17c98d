import Mathlib.Data.List.DropRight
import ChipEight.Proofs.CycleTrace

/-
  The books of the call stack. Whatever has happened to a machine, its stack is as deep as the calls
  that found room outnumber the returns, and it has dropped one address for each call that found it
  full. A reset and a loaded program open new books; nothing but a cycle writes to them.
-/
namespace ChipEight

/-- A reset empties the stack, and so does a program that fits; one that is too large is refused. -/
def Operation.emptiesStack : Operation → Bool
  | .reset => true
  | .load program => decide (program.bytes.length ≤ Memory.programCapacity)
  | _ => false

namespace CallStack
variable (s : CallStack)

theorem depth_push (address : Word) :
    (s.push address).1.depth = s.depth + if s.depth < 16 then 1 else 0 := by
  by_cases room : s.depth < 16
  · have free : s.newestFirst.length < capacity := room
    rw [if_pos room]
    simp [push, depth, free]
  · have full : ¬ s.newestFirst.length < capacity := room
    rw [if_neg room]
    simp [push, depth, full]

theorem dropped_push (address : Word) :
    (s.push address).1.dropped = s.dropped + if s.depth < 16 then 0 else 1 := by
  by_cases room : s.depth < 16
  · have free : s.newestFirst.length < capacity := room
    rw [if_pos room]
    simp [push, free]
  · have full : ¬ s.newestFirst.length < capacity := room
    rw [if_neg room]
    simp [push, full]

theorem depth_pop (nonempty : s.depth ≠ 0) : s.pop.1.depth + 1 = s.depth := by
  have popped := congrArg List.length (entries_pop (congrArg Prod.snd (pop_of_nonempty nonempty)))
  simpa [entries, depth] using popped.symm

theorem dropped_pop : s.pop.1.dropped = s.dropped := by
  unfold pop
  split <;> rfl

end CallStack

namespace Machine

/-- Whether the next cycle executes a call. -/
def calls (m : Machine) : Bool :=
  match m.executed with
  | some (.call _) => true
  | _ => false

/-- Whether the next cycle executes a call whose return address finds room. -/
def savesReturn (m : Machine) : Bool := m.calls && decide (m.stack.depth < 16)

/-- Whether the next cycle executes a call whose return address is dropped. -/
def dropsReturn (m : Machine) : Bool := m.calls && decide (m.stack.depth = 16)

/-- Whether the next cycle executes a return. -/
def returns (m : Machine) : Bool := decide (m.executed = some .ret)

/-- What some cycles have made of a stack. -/
structure Tally (before : CallStack) (cycles : List Machine) (after : CallStack) : Prop where
  depth : after.depth + cycles.countP returns = before.depth + cycles.countP savesReturn
  dropped : after.dropped = before.dropped + cycles.countP dropsReturn

namespace Tally
variable {before mid after : CallStack} {cycles first second : List Machine}

theorem none (s : CallStack) : Tally s [] s where
  depth := rfl
  dropped := rfl

theorem append (early : Tally before first mid) (late : Tally mid second after) :
    Tally before (first ++ second) after where
  depth := by
    have left := early.depth
    have right := late.depth
    rw [List.countP_append, List.countP_append]
    omega
  dropped := by rw [late.dropped, early.dropped, List.countP_append, Nat.add_assoc]

theorem of_other {m : Machine} (call : m.calls = false) (ret : m.returns = false) :
    Tally m.stack [m] m.stack where
  depth := by simp [savesReturn, call, ret]
  dropped := by simp [dropsReturn, call]

theorem cycle (m : Machine) : Tally m.stack [m] m.cycle.1.stack := by
  rcases m.cycle_cases with ⟨f, -, done⟩ | ⟨w, i, word, read, granted, -, done⟩
  · have fails : m.executed = Option.none := by
      rw [executed, done]
      cases m.current <;> rfl
    rw [done]
    exact of_other (by simp [calls, fails]) (by simp [returns, fails])
  · have runs : m.executed = some i := m.executed_of_granted word read granted
    rw [done]
    change Tally m.stack [m] ((m.fetched w).stackAfter i)
    cases i with
    | call target =>
      have call : m.calls = true := by simp [calls, runs]
      have other : m.returns = false := by simp [returns, runs]
      change Tally m.stack [m] (m.stack.push _).1
      constructor
      · rw [CallStack.depth_push]
        simp [savesReturn, call, other, List.countP_cons]
      · have bounded : m.stack.depth ≤ 16 := m.stack.bounded
        rw [CallStack.dropped_push]
        by_cases room : m.stack.depth < 16
        · have notFull : m.stack.depth ≠ 16 := Nat.ne_of_lt room
          simp [dropsReturn, call, room, notFull]
        · have full : m.stack.depth = 16 := Nat.le_antisymm bounded (Nat.not_lt.mp room)
          simp [dropsReturn, call, full]
    | ret =>
      have other : m.calls = false := by simp [calls, runs]
      have ret : m.returns = true := by simp [returns, runs]
      have nonempty : m.stack.depth ≠ 0 := by
        intro empty
        rw [refusal, if_pos ⟨rfl, empty⟩] at granted
        cases granted
      change Tally m.stack [m] m.stack.pop.1
      constructor
      · rw [← CallStack.depth_pop m.stack nonempty]
        simp [savesReturn, other, ret]
      · rw [CallStack.dropped_pop]
        simp [dropsReturn, other]
    | _ => exact of_other (by simp [calls, runs]) (by simp [returns, runs])

theorem of_unfolds {m final : Machine} (trace : m.Unfolds cycles final) :
    Tally m.stack cycles final.stack := by
  induction trace with
  | done same =>
    obtain ⟨-, -, -, -, -, stack, -, -⟩ := parts_of_isolated same
    rw [stack]
    exact none _
  | @step m start final later same _ ih =>
    obtain ⟨-, -, -, -, -, stack, -, -⟩ := parts_of_isolated same
    rw [← stack]
    exact (cycle start).append ih

/-- As long as nothing empties the stack, only the cycles of an operation change it. -/
theorem perform (m : Machine) {op : Operation} (keeps : op.emptiesStack = false) :
    Tally m.stack (m.startsOf op) (m.perform op).1.stack := by
  cases op with
  | load program =>
    have tooLarge : ¬ program.bytes.length ≤ Memory.programCapacity := of_decide_eq_false keeps
    rw [Machine.perform, load_eq, if_neg tooLarge]
    exact none _
  | reset => cases keeps
  | fetch =>
    rw [Machine.perform, fetch_eq]
    cases m.memory.word m.counter.toNat <;> exact none _
  | _ => exact of_unfolds (.perform m rfl)

theorem run (m : Machine) {ops : List Operation} (keeps : ∀ op ∈ ops, op.emptiesStack = false) :
    Tally m.stack (m.starts ops) (m.run ops).1.stack := by
  induction ops generalizing m with
  | nil => exact none _
  | cons op ops ih =>
    have first := perform m (keeps op List.mem_cons_self)
    exact first.append (ih _ fun other mem => keeps other (List.mem_cons_of_mem _ mem))

end Tally

section Histories

theorem stack_of_empties (m : Machine) {op : Operation} (empties : op.emptiesStack = true) :
    (m.perform op).1.stack = .empty := by
  cases op with
  | load program =>
    have fits : program.bytes.length ≤ Memory.programCapacity := of_decide_eq_true empties
    rw [perform, load_eq, if_pos fits]
    rfl
  | reset => rfl
  | _ => cases empties

/-- The cycles that a history starts behind the last operation that empties the stack, on their own
or inside of a call that lets time pass. -/
def openCycles (start : Machine) (ops : List Operation) : List Machine :=
  (start.run (ops.rdropWhile fun op => !op.emptiesStack)).1.starts
    (ops.rtakeWhile fun op => !op.emptiesStack)

theorem stack_before_openCycles {start : Machine} (fresh : start.stack = .empty)
    (ops : List Operation) :
    (start.run (ops.rdropWhile fun op => !op.emptiesStack)).1.stack = .empty := by
  generalize before : ops.rdropWhile (fun op => !op.emptiesStack) = earlier
  by_cases none : earlier = []
  · rw [none]
    exact fresh
  · subst before
    have empties := List.rdropWhile_last_not _ ops none
    rw [← List.dropLast_concat_getLast none, run_append]
    exact stack_of_empties _ (by simpa using empties)

theorem tally_openCycles {start : Machine} (fresh : start.stack = .empty) (ops : List Operation) :
    Tally .empty (start.openCycles ops) (start.run ops).1.stack := by
  have keeps : ∀ op ∈ ops.rtakeWhile fun op => !op.emptiesStack, op.emptiesStack = false := by
    intro op mem
    simpa using List.mem_rtakeWhile_imp mem
  have tally := Tally.run (start.run (ops.rdropWhile fun op => !op.emptiesStack)).1 keeps
  rw [stack_before_openCycles fresh, ← run_append, List.rdropWhile_append_rtakeWhile] at tally
  exact tally

theorem cycle_of_call {m : Machine} {target : Address} (runs : m.executed = some (.call target)) :
    m.cycle.2 = .ok (if m.stack.depth < 16 then .quiet else .returnDropped) ∧
      m.cycle.1.counter = target.setWidth 16 ∧
      m.cycle.1.stack = (m.stack.push (m.counter + 2)).1 := by
  rcases m.executed_cases with ⟨none, -⟩ | ⟨w, i, called, done⟩
  · rw [none] at runs
    cases runs
  · rw [called] at runs
    cases runs
    rw [done]
    exact ⟨rfl, rfl, rfl⟩

theorem call_of_returnDropped {m : Machine} {i : Instruction}
    (told : m.signalOf i = .returnDropped) :
    (∃ target, i = .call target) ∧ 16 ≤ m.stack.depth := by
  cases i with
  | call target =>
    refine ⟨⟨target, rfl⟩, ?_⟩
    by_contra room
    rw [signalOf, if_pos (Nat.not_le.mp room)] at told
    cases told
  | awaitKey x =>
    simp only [signalOf] at told
    split at told <;> cases told
  | _ => cases told

theorem returnDropped_iff (m : Machine) : m.cycle.2 = .ok .returnDropped ↔
    (∃ target, m.executed = some (.call target)) ∧ m.stack.depth = 16 := by
  have bounded : m.stack.depth ≤ 16 := m.stack.bounded
  constructor
  · intro told
    rcases m.cycle_cases with ⟨f, -, done⟩ | ⟨w, i, word, read, granted, -, done⟩
    · rw [done] at told
      cases told
    · have runs := m.executed_of_granted word read granted
      rw [done] at told
      obtain ⟨⟨target, rfl⟩, full⟩ := call_of_returnDropped (Except.ok.inj told)
      exact ⟨⟨target, runs⟩, Nat.le_antisymm bounded full⟩
  · rintro ⟨⟨target, runs⟩, full⟩
    rw [(cycle_of_call runs).1, if_neg (by omega)]

/-- The stack and its count of dropped addresses are an exact account of the calls and the returns
since power on, or since a reset or a loaded program has emptied the stack. Cycles that run while
time passes count like all others. A call that finds the stack full is the one thing that drops an
address and is told apart; it jumps all the same, and no entry changes. -/
theorem stack_accounts_for_calls (config : Config) (random : RandomSource)
    (ops : List Operation) :
    let start := powerOn config random
    let now := (start.run ops).1
    let cycles := start.openCycles ops
    now.stack.depth + cycles.countP returns = cycles.countP savesReturn ∧
      now.stack.depth ≤ 16 ∧
      now.stack.dropped = cycles.countP dropsReturn ∧
      now.stack.dropped ≤ cycles.length ∧
      ∀ m : Machine,
        (m.cycle.2 = .ok .returnDropped ↔
          (∃ target, m.executed = some (.call target)) ∧ m.stack.depth = 16) ∧
        (∀ target, m.executed = some (.call target) → m.cycle.1.counter = target.setWidth 16 ∧
          (m.stack.depth = 16 → m.cycle.1.stack.entries = m.stack.entries)) ∧
        ∀ elapsed report, (m.advance elapsed).2 = .ok report →
          (m.startsOf (.advance elapsed)).length = report.cycles := by
  intro start now cycles
  have tally : Tally .empty cycles now.stack := tally_openCycles rfl ops
  have depth : now.stack.depth + cycles.countP returns = cycles.countP savesReturn :=
    tally.depth.trans (Nat.zero_add _)
  have dropped : now.stack.dropped = cycles.countP dropsReturn :=
    tally.dropped.trans (Nat.zero_add _)
  refine ⟨depth, now.stack.bounded, dropped, ?_, ?_⟩
  · rw [dropped]
    exact List.countP_le_length
  · intro m
    refine ⟨m.returnDropped_iff, ?_, fun _ _ done => (length_startsOf_advance done).symm⟩
    intro target runs
    obtain ⟨-, counter, stack⟩ := cycle_of_call runs
    refine ⟨counter, ?_⟩
    intro full
    rw [stack]
    exact CallStack.entries_push_full full _

/-- A subroutine that calls another one, which returns at once. -/
def callsWithin : Program := ⟨"", [0x22, 0x04, 0x12, 0x02, 0x22, 0x08, 0x00, 0xEE, 0x00, 0xEE]⟩

/-- A call that the second load forgets, and then two calls and one return in a call for 6 ms. -/
def callsInTime : List Operation :=
  [.load callsWithin, .cycle, .load callsWithin, .setKey 3 true, .advance 6000000]

/-- A machine that is about to call 0x222 with sixteen return addresses on its stack. -/
def deepInCalls : Machine :=
  { uniform 0x22 0 with stack := ⟨List.replicate 16 0x202, 0, by decide⟩ }

theorem calls_in_time_are_counted :
    ((powerOn {} (.cyclic #[0])).run callsInTime).1.stack.depth = 1 ∧
      ((powerOn {} (.cyclic #[0])).run callsInTime).1.stack.dropped = 0 ∧
      deepInCalls.executed = some (.call 0x222) ∧ deepInCalls.cycle.2 = .ok .returnDropped ∧
      deepInCalls.cycle.1.counter = 0x222 ∧
      deepInCalls.cycle.1.stack.entries = deepInCalls.stack.entries := by
  obtain ⟨depth, -, dropped, -, each⟩ := stack_accounts_for_calls {} (.cyclic #[0]) callsInTime
  obtain ⟨saved, taken, lost⟩ :
      ((powerOn {} (.cyclic #[0])).openCycles callsInTime).countP savesReturn = 2 ∧
      ((powerOn {} (.cyclic #[0])).openCycles callsInTime).countP returns = 1 ∧
      ((powerOn {} (.cyclic #[0])).openCycles callsInTime).countP dropsReturn = 0 := by
    decide +kernel
  have word : deepInCalls.memory.word deepInCalls.counter.toNat = .ok 0x2222 :=
    word_uniform 0x22 0 (by decide)
  have runs : deepInCalls.executed = some (.call 0x222) :=
    deepInCalls.executed_of_granted word (by decide) rfl
  obtain ⟨told, jumps, -⟩ := each deepInCalls
  obtain ⟨counter, entries⟩ := jumps 0x222 runs
  rw [saved, taken] at depth
  exact ⟨by omega, dropped.trans lost, runs, told.mpr ⟨⟨_, runs⟩, rfl⟩, counter,
    entries rfl⟩

end Histories

end Machine
end ChipEight
