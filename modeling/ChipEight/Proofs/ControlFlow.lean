import ChipEight.Proofs.Standstill

/-
  Where the program goes. The counter after a cycle is told from the word at the counter, and where
  the word is not enough from the registers, the keys, the stack and the dialect before the cycle.
  Over a run of cycles the counter is the fold of that table over the words that have run.
-/
namespace ChipEight

/-- Where a step leads from an instruction at an address. -/
def CounterStep.landsAt (address : Nat) : CounterStep → Nat
  | .next => address + 2
  | .skip => address + 4
  | .again => address
  | .jump target => target.toNat

theorem CounterStep.apply_toNat {counter : Word} (inside : counter.toNat + 1 < 4096)
    (step : CounterStep) : (step.apply (counter + 2)).toNat = step.landsAt counter.toNat := by
  have two : (2 : Word).toNat = 2 := rfl
  cases step with
  | next =>
    rw [apply, landsAt, BitVec.toNat_add, two]
    omega
  | skip =>
    rw [apply, landsAt, BitVec.toNat_add, BitVec.toNat_add, two]
    omega
  | again => rw [apply, BitVec.add_sub_cancel, landsAt]
  | jump target => rfl

theorem CounterStep.skipIf_eq_skip_iff {condition : Bool} :
    skipIf condition = .skip ↔ condition = true := by
  cases condition <;> simp [skipIf]

theorem CounterStep.landsAt_next (address : Nat) : next.landsAt address = address + 2 := rfl

theorem CounterStep.landsAt_skipIf (address : Nat) (condition : Bool) :
    (skipIf condition).landsAt address = if condition then address + 4 else address + 2 := by
  cases condition <;> rfl

/-- A key is held down. A number above fifteen names no key. -/
def Keypad.Holds (k : Keypad) (key : Nat) : Prop := ∃ inside : key < 16, k.keys[key] = true

instance (k : Keypad) (key : Nat) : Decidable (k.Holds key) :=
  inferInstanceAs (Decidable (∃ inside : key < 16, k.keys[key] = true))

theorem Keypad.isPressed_iff (k : Keypad) (key : Byte) :
    k.isPressed key = true ↔ k.Holds key.toNat := by
  by_cases inside : key.toNat < 16
  · rw [isPressed_eq k inside, Holds]
    exact ⟨fun held => ⟨inside, held⟩, fun ⟨_, held⟩ => held⟩
  · simp [isPressed, Holds, inside]

theorem CallStack.getLast?_entries (s : CallStack) :
    s.entries.getLast? = s.newestFirst.head? := List.getLast?_reverse

theorem Word.toNat_ofAddress (a : Address) : (a.setWidth 16 : Word).toNat = a.toNat := by
  have := a.isLt
  rw [BitVec.toNat_setWidth]
  omega

namespace Machine
variable (m : Machine)

/-- The key that a conditional skip of a word asks for. -/
def keyOf (w : Word) : Nat := if m.config.dialect.keyIsOperand then w.x else (m.reg w.x).toNat

/-- The word is a conditional skip whose condition holds. -/
def Skips (w : Word) : Prop :=
  (w.Fits "3XNN" ∧ m.reg w.x = w.nn) ∨ (w.Fits "4XNN" ∧ m.reg w.x ≠ w.nn) ∨
    (w.Fits "5XY0" ∧ m.reg w.x = m.reg w.y) ∨ (w.Fits "9XY0" ∧ m.reg w.x ≠ m.reg w.y) ∨
    (w.Fits "EX9E" ∧ m.keypad.Holds (m.keyOf w)) ∨ (w.Fits "EXA1" ∧ ¬ m.keypad.Holds (m.keyOf w))

instance (w : Word) : Decidable (m.Skips w) := inferInstanceAs (Decidable (_ ∨ _))

/-- The counter behind the word at an address. -/
def leadsTo (w : Word) (address : Nat) : Nat :=
  if w.Fits "1NNN" ∨ w.Fits "2NNN" then w.nnn.toNat
  else if w.Fits "00EE" then (m.stack.entries.getLastD 0).toNat
  else if w.Fits "BNNN" then
    let x := if m.config.dialect.jumpAddsX then w.x else ⟨0, w.x.pos⟩
    (w.nnn.toNat + (m.reg x).toNat) % 4096
  else if w.Fits "FX0A" ∧ m.keypad = .released then address
  else if m.Skips w then address + 4
  else address + 2

theorem stepOf_fetched (w : Word) (i : Instruction) : (m.fetched w).stepOf i = m.stepOf i := by
  cases i with
  | skipKey state x => cases state <;> rfl
  | _ => rfl

variable {m} {w : Word} {i : Instruction}

theorem offsetTarget_toNat (w : Word) : (m.offsetTarget w.nnn).toNat =
    (w.nnn.toNat + (m.reg (if m.config.dialect.jumpAddsX then w.x else ⟨0, by decide⟩)).toNat) %
      4096 := by
  have digit : Word.x (w.nnn.setWidth 16) = w.x := by
    have := w.nnn.isLt
    apply Fin.ext
    rw [Word.x_val, Word.x_val, BitVec.toNat_setWidth, w.nnn_toNat]
    omega
  generalize named : (if m.config.dialect.jumpAddsX then w.x else ⟨0, by decide⟩ : Reg) = x
  have := (m.reg x).isLt
  have := w.nnn.isLt
  have masked : ∀ address : Word, (address &&& Registers.addressMask).toNat =
      address.toNat % 4096 := m.registers.index_setIndex_toNat
  rw [offsetTarget, digit, named, masked, BitVec.toNat_add, BitVec.toNat_setWidth,
    BitVec.toNat_setWidth]
  omega

theorem skipKeyOf_iff (w : Word) :
    m.keypad.isPressed (m.skipKeyOf w.x) = true ↔ m.keypad.Holds (m.keyOf w) := by
  have key : (m.skipKeyOf w.x).toNat = m.keyOf w := by
    unfold skipKeyOf keyOf
    split
    · rw [BitVec.toNat_ofNat]
      omega
    · rfl
  rw [Keypad.isPressed_iff, key]

theorem skips_iff (read : Instruction.ofWord? w = some i) :
    m.Skips w ↔ m.stepOf i = .skip := by
  obtain ⟨p, row, -, fits⟩ := Instruction.readAs read
  simp only [Skips, fits "3XNN" (by simp [patterns]), fits "4XNN" (by simp [patterns]),
    fits "5XY0" (by simp [patterns]), fits "9XY0" (by simp [patterns]),
    fits "EX9E" (by simp [patterns]), fits "EXA1" (by simp [patterns])]
  cases row with
  | skipEqualImmediate => simp [stepOf, CounterStep.skipIf_eq_skip_iff, Comparison.holds]
  | skipDifferentImmediate => simp [stepOf, CounterStep.skipIf_eq_skip_iff, Comparison.holds]
  | skipEqualRegister => simp [stepOf, CounterStep.skipIf_eq_skip_iff, Comparison.holds]
  | skipDifferentRegister => simp [stepOf, CounterStep.skipIf_eq_skip_iff, Comparison.holds]
  | skipPressed => simp [stepOf, CounterStep.skipIf_eq_skip_iff, skipKeyOf_iff]
  | skipReleased =>
    rw [stepOf, CounterStep.skipIf_eq_skip_iff, Bool.not_eq_true', ← Bool.not_eq_true,
      skipKeyOf_iff]
    simp
  | awaitKey =>
    rw [stepOf]
    split <;> simp
  | _ => simp [stepOf]

/-- The table is the step that the instruction takes. -/
theorem leadsTo_eq (read : Instruction.ofWord? w = some i) (address : Nat) :
    m.leadsTo w address = (m.stepOf i).landsAt address := by
  obtain ⟨p, row, -, fits⟩ := Instruction.readAs read
  simp only [leadsTo, skips_iff read, fits "1NNN" (by simp [patterns]),
    fits "2NNN" (by simp [patterns]), fits "00EE" (by simp [patterns]),
    fits "BNNN" (by simp [patterns]), fits "FX0A" (by simp [patterns])]
  cases row with
  | jump =>
    rw [stepOf, CounterStep.landsAt, Word.toNat_ofAddress]
    simp
  | call =>
    rw [stepOf, CounterStep.landsAt, Word.toNat_ofAddress]
    simp
  | ret => simp [stepOf, CounterStep.landsAt, CallStack.getLast?_entries]
  | jumpOffset =>
    rw [stepOf, CounterStep.landsAt, offsetTarget_toNat]
    simp
  | awaitKey =>
    simp only [stepOf, Keypad.firstPressed_eq_none_iff]
    by_cases idle : m.keypad = .released
    · simp [CounterStep.landsAt, idle]
    · simp [CounterStep.landsAt, idle]
  | _ =>
    simp [stepOf, CounterStep.landsAt_next, CounterStep.landsAt_skipIf,
      CounterStep.skipIf_eq_skip_iff]

theorem counter_cycle {m : Machine} {signal : Signal} (done : m.cycle.2 = .ok signal) :
    m.cycle.1.counter.toNat = m.leadsTo m.nextWord m.counter.toNat := by
  obtain ⟨inside, i, read, ran, -⟩ := runs_nextWord done
  have counter : m.cycle.1.counter =
      ((m.fetched m.nextWord).stepOf i).apply (m.counter + 2) := by
    rw [ran]
    exact congrArg ((m.fetched m.nextWord).stepOf i).apply
      ((m.fetched m.nextWord).counter_after i)
  rw [counter, stepOf_fetched, CounterStep.apply_toNat inside, leadsTo_eq read]

/-- Two conditional skips with the same operands and opposite conditions. -/
def Opposite (w w' : Word) : Prop :=
  (w.Fits "3XNN" ∧ w'.Fits "4XNN" ∧ w.x = w'.x ∧ w.nn = w'.nn) ∨
    (w.Fits "5XY0" ∧ w'.Fits "9XY0" ∧ w.x = w'.x ∧ w.y = w'.y) ∨
    (w.Fits "EX9E" ∧ w'.Fits "EXA1" ∧ w.x = w'.x)

/-- The next cycle runs and goes on to the next word or, if the condition holds, past it. -/
def Branches (m : Machine) (condition : Bool) : Prop :=
  m.cycle.2 = .ok .quiet ∧
    m.cycle.1.counter.toNat = m.counter.toNat + if condition then 4 else 2

theorem Branches.of_read {condition : Bool} (word : m.memory.word m.counter.toNat = .ok w)
    (read : Instruction.ofWord? w = some i)
    (effect : (m.fetched w).execute i = (m.fetched w).branch condition) : m.Branches condition := by
  have inside := Memory.inside_of_word word
  have counter := CounterStep.apply_toNat inside (.skipIf condition)
  rw [Branches, m.cycle_of_read word read, effect]
  refine ⟨rfl, counter.trans ?_⟩
  rw [CounterStep.landsAt_skipIf]
  split <;> rfl

theorem branches_of_opposite {w' : Word} {memory : Memory} (opposite : Opposite w w')
    (word : m.memory.word m.counter.toNat = .ok w) (word' : memory.word m.counter.toNat = .ok w') :
    ∃ condition, m.Branches condition ∧ { m with memory := memory }.Branches (!condition) := by
  rcases opposite with ⟨equal, different, x, nn⟩ | ⟨equal, different, x, y⟩ |
    ⟨pressed, released, x⟩
  · refine ⟨m.reg w.x == w.nn, .of_read word (Word.ReadAs.skipEqualImmediate.ofWord? equal) rfl, ?_⟩
    rw [x, nn]
    exact .of_read word' (Word.ReadAs.skipDifferentImmediate.ofWord? different) rfl
  · refine ⟨m.reg w.x == m.reg w.y,
      .of_read word (Word.ReadAs.skipEqualRegister.ofWord? equal) rfl, ?_⟩
    rw [x, y]
    exact .of_read word' (Word.ReadAs.skipDifferentRegister.ofWord? different) rfl
  · refine ⟨m.keypad.isPressed (m.skipKeyOf w.x),
      .of_read word (Word.ReadAs.skipPressed.ofWord? pressed) rfl, ?_⟩
    rw [x]
    exact .of_read word' (Word.ReadAs.skipReleased.ofWord? released) rfl

theorem counter_of_unfolds {final : Machine} {starts : List Machine}
    (trace : m.Unfolds starts final) (succeed : ∀ s ∈ starts, ∃ signal, s.cycle.2 = .ok signal) :
    final.counter.toNat =
      starts.foldl (fun address s => s.leadsTo s.nextWord address) m.counter.toNat := by
  induction trace with
  | done same =>
    obtain ⟨-, -, -, -, registers, -, -, -⟩ := parts_of_isolated same
    rw [counter, counter, registers, List.foldl_nil]
  | @step m start final later same _ ih =>
    obtain ⟨-, -, -, -, registers, -, -, -⟩ := parts_of_isolated same
    obtain ⟨signal, done⟩ := succeed start List.mem_cons_self
    have begun : start.counter = m.counter := congrArg Registers.counter registers
    rw [ih fun s mem => succeed s (List.mem_cons_of_mem _ mem), counter_cycle done, begun,
      List.foldl_cons]

/-- The counter follows the table, in a cycle and over every run of cycles that succeed. Of two
opposite skips in the same place exactly one skips. -/
theorem counter_follows_the_words :
    (∀ (m : Machine) (signal : Signal), m.cycle.2 = .ok signal →
      m.cycle.1.counter.toNat = m.leadsTo m.nextWord m.counter.toNat) ∧
    (∀ (m : Machine) (memory : Memory) (w w' : Word), Opposite w w' →
      m.memory.word m.counter.toNat = .ok w → memory.word m.counter.toNat = .ok w' →
        let other := { m with memory := memory }
        let address := m.counter.toNat
        (m.cycle.1.counter.toNat = address + 4 ∧ other.cycle.1.counter.toNat = address + 2) ∨
          (m.cycle.1.counter.toNat = address + 2 ∧ other.cycle.1.counter.toNat = address + 4)) ∧
    ∀ (m : Machine) (ops : List Operation), (∀ op ∈ ops, op.intervenes = false) →
      (∀ s ∈ m.starts ops, ∃ signal, s.cycle.2 = .ok signal) →
        (m.run ops).1.counter.toNat =
          (m.starts ops).foldl (fun address s => s.leadsTo s.nextWord address) m.counter.toNat := by
  refine ⟨fun m signal => counter_cycle, ?_,
    fun m ops follows => counter_of_unfolds (.run m follows)⟩
  intro m memory w w' opposite word word' other address
  obtain ⟨condition, ⟨-, first⟩, ⟨-, second⟩⟩ := branches_of_opposite opposite word word'
  cases condition with
  | true => exact .inl ⟨first, second⟩
  | false => exact .inr ⟨first, second⟩

/-- A call, its return, a skip, and a wait for a key behind it. -/
def skipThenWait : Machine := holding [0x22, 0x08, 0x30, 0x00, 0x00, 0x00, 0xF0, 0x0A, 0x00, 0xEE]

/-- The call, three cycles in one call for six milliseconds, and a key that ends the wait. -/
def waitForFive : List Operation := [.cycle, .advance 6000000, .setKey 5 true, .cycle]

theorem skipped_to_a_wait :
    (∀ op ∈ waitForFive, op.intervenes = false) ∧
      (∀ s ∈ skipThenWait.starts waitForFive, ∃ signal, s.cycle.2 = .ok signal) ∧
      (skipThenWait.run waitForFive).1.counter.toNat = 0x208 ∧
      Opposite 0x30AA 0x40AA ∧
      (holding [0x30, 0xAA]).cycle.1.counter.toNat = 0x202 ∧
      (holding [0x40, 0xAA]).cycle.1.counter.toNat = 0x204 := by
  obtain ⟨counters, opposites, runs⟩ := counter_follows_the_words
  have follows : ∀ op ∈ waitForFive, op.intervenes = false := by decide
  have fine : ∀ s ∈ skipThenWait.starts waitForFive, s.cycle.2.toBool = true := by decide +kernel
  have succeed : ∀ s ∈ skipThenWait.starts waitForFive, ∃ signal, s.cycle.2 = .ok signal := by
    intro s mem
    have done := fine s mem
    cases answer : s.cycle.2 with
    | ok signal => exact ⟨signal, rfl⟩
    | error f =>
      rw [answer] at done
      cases done
  have opposite : Opposite 0x30AA 0x40AA := .inl (by decide)
  have branches := opposites (holding [0x30, 0xAA]) (holding [0x40, 0xAA]).memory 0x30AA 0x40AA
    opposite (word_holding _ _ _) (word_holding _ _ _)
  have quiet : (holding [0x30, 0xAA]).cycle.2 = .ok .quiet := by decide +kernel
  have stays : (holding [0x30, 0xAA]).cycle.1.counter.toNat = 0x202 := by
    rw [counters _ _ quiet]
    decide +kernel
  refine ⟨follows, succeed, ?_, opposite, stays, ?_⟩
  · rw [runs _ _ follows succeed]
    decide +kernel
  · rcases branches with ⟨skips, -⟩ | ⟨-, skips⟩
    · exact absurd (stays.symm.trans skips) (by decide)
    · exact skips

end Machine
end ChipEight
