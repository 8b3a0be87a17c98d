import ChipEight.Proofs.Components

/-
  A cycle fails in the fetch, in the decoder or in the instruction, and then the machine is the
  one before it. Otherwise it runs one instruction on the fetched machine.
-/
namespace ChipEight.Machine
variable (m : Machine)

def fetched (w : Word) : Machine := { m with lastWord := w }.setCounter (m.counter + 2)

theorem fetch_eq : m.fetch =
    match m.memory.word m.counter.toNat with
    | .ok w => (m.fetched w, .ok w)
    | .error cause => (m, .error (.memory cause)) := rfl

def wordRefusal (w : Word) : Option Fault :=
  match Instruction.ofWord? w with
  | none => some (.decode (.unknownWord w))
  | some i => m.refusal i

/-- Why the next cycle fails, if it does. -/
def cycleRefusal : Option Fault :=
  match m.memory.word m.counter.toNat with
  | .error cause => some (.memory cause)
  | .ok w => m.wordRefusal w

def ran (w : Word) (i : Instruction) : Machine :=
  ((m.fetched w).after i).setCounter
    (((m.fetched w).stepOf i).apply ((m.fetched w).after i).counter)

@[simp] theorem refusal_fetched (w : Word) (i : Instruction) :
    (m.fetched w).refusal i = m.refusal i := by
  cases i <;> rfl

theorem cycle_of_fetch_error {cause : MemoryFault}
    (h : m.memory.word m.counter.toNat = .error cause) :
    m.cycle = (m, .error (.memory cause)) := by
  simp only [cycle, fetch_eq, h]

/-- The end of a cycle: the step of the counter, or the fetch undone. -/
def settle (before : Machine) : Outcome → Machine × Except Fault Signal
  | (done, .ok (step, signal)) => (done.setCounter (step.apply done.counter), .ok signal)
  | (failed, .error f) => (failed.unfetch before, .error f)

/-- After an instruction that was refused, undoing the fetch gives the machine back. -/
theorem settle_error (w : Word) (f : Fault) : m.settle (m.fetched w, .error f) = (m, .error f) :=
  rfl

theorem cycle_of_word {w : Word} (h : m.memory.word m.counter.toNat = .ok w) :
    m.cycle = m.settle ((m.fetched w).executeWord w) := by
  simp only [cycle, fetch_eq, h]
  rfl

theorem cycle_of_read {w : Word} {i : Instruction}
    (word : m.memory.word m.counter.toNat = .ok w) (read : Instruction.ofWord? w = some i) :
    m.cycle = m.settle ((m.fetched w).execute i) := by
  rw [m.cycle_of_word word, executeWord, Instruction.decode, read]

/-- A cycle is refused as a whole or runs the instruction at the counter. -/
theorem cycle_cases :
    (∃ f, m.cycleRefusal = some f ∧ m.cycle = (m, .error f)) ∨
      ∃ w i, m.memory.word m.counter.toNat = .ok w ∧ Instruction.ofWord? w = some i ∧
        m.refusal i = none ∧ m.cycleRefusal = none ∧
        m.cycle = (m.ran w i, .ok ((m.fetched w).signalOf i)) := by
  cases word : m.memory.word m.counter.toNat with
  | error cause =>
    left
    exact ⟨.memory cause, by simp only [cycleRefusal, word], m.cycle_of_fetch_error word⟩
  | ok w =>
    rw [m.cycle_of_word word]
    simp only [cycleRefusal, word, wordRefusal, executeWord, Instruction.decode]
    cases instruction : Instruction.ofWord? w with
    | none => exact .inl ⟨_, rfl, m.settle_error w _⟩
    | some i =>
      simp only [execute_eq, refusal_fetched]
      cases refused : m.refusal i with
      | some f => exact .inl ⟨f, rfl, m.settle_error w _⟩
      | none => exact .inr ⟨w, i, rfl, instruction, refused, rfl, rfl⟩

theorem current_eq_ok_iff {i : Instruction} : m.current = .ok i ↔
    ∃ w, m.memory.word m.counter.toNat = .ok w ∧ Instruction.ofWord? w = some i := by
  unfold current Instruction.decode
  cases m.memory.word m.counter.toNat with
  | error cause => simp
  | ok w => cases read : Instruction.ofWord? w <;> simp [read]

/-- An instruction that is not refused runs. -/
theorem cycle_of_granted {w : Word} {i : Instruction}
    (word : m.memory.word m.counter.toNat = .ok w) (read : Instruction.ofWord? w = some i)
    (granted : m.refusal i = none) :
    m.cycle = (m.ran w i, .ok ((m.fetched w).signalOf i)) := by
  rw [m.cycle_of_read word read, execute_eq, refusal_fetched, granted]
  rfl

theorem refusal_of_inside {i : Instruction} {length : Nat} (demand : m.demand i = some length)
    (inside : m.index.toNat + length ≤ 4096) : m.refusal i = none := by
  have noReturn : ¬ (i = .ret ∧ m.stack.depth = 0) := by
    rintro ⟨rfl, -⟩
    cases demand
  rw [refusal, if_neg noReturn, demand]
  exact if_pos inside

/-- An instruction runs when the bytes that it asks for lie in the address space. -/
theorem cycle_of_inside {w : Word} {i : Instruction} {length : Nat}
    (word : m.memory.word m.counter.toNat = .ok w) (read : Instruction.ofWord? w = some i)
    (demand : m.demand i = some length) (inside : m.index.toNat + length ≤ 4096) :
    m.cycle = (m.ran w i, .ok ((m.fetched w).signalOf i)) :=
  m.cycle_of_granted word read (m.refusal_of_inside demand inside)

/-- The instruction that the next cycle runs, unless the cycle fails. -/
def executed : Option Instruction :=
  match m.current, m.cycle.2 with
  | .ok i, .ok _ => some i
  | _, _ => none

theorem executed_of_granted {w : Word} {i : Instruction}
    (word : m.memory.word m.counter.toNat = .ok w) (read : Instruction.ofWord? w = some i)
    (granted : m.refusal i = none) : m.executed = some i := by
  rw [executed, m.current_eq_ok_iff.mpr ⟨w, word, read⟩, m.cycle_of_granted word read granted]

theorem current_of_executed {i : Instruction} (runs : m.executed = some i) : m.current = .ok i := by
  unfold executed at runs
  split at runs
  · rename_i here _
    cases runs
    exact here
  · cases runs

/-- A cycle leaves the machine alone or runs the instruction that it executes. -/
theorem executed_cases : (m.executed = none ∧ m.cycle.1 = m) ∨
    ∃ w i, m.executed = some i ∧ m.cycle = (m.ran w i, .ok ((m.fetched w).signalOf i)) := by
  rcases m.cycle_cases with ⟨f, -, done⟩ | ⟨w, i, word, read, granted, -, done⟩
  · rw [executed, done]
    cases m.current <;> exact .inl ⟨rfl, rfl⟩
  · exact .inr ⟨w, i, m.executed_of_granted word read granted, done⟩

/-- What no cycle changes. -/
theorem cycle_keeps : m.cycle.1.config = m.config ∧ m.cycle.1.name = m.name ∧
    m.cycle.1.keypad = m.keypad ∧ m.cycle.1.sinceTick = m.sinceTick ∧
    m.cycle.1.sinceCycle = m.sinceCycle := by
  rcases m.executed_cases with ⟨-, same⟩ | ⟨w, i, -, done⟩
  · rw [same]
    exact ⟨rfl, rfl, rfl, rfl, rfl⟩
  · rw [done]
    exact ⟨rfl, rfl, rfl, rfl, rfl⟩

theorem config_cycle : m.cycle.1.config = m.config := m.cycle_keeps.1

theorem keypad_cycle : m.cycle.1.keypad = m.keypad := m.cycle_keeps.2.2.1

theorem sinceTick_cycle : m.cycle.1.sinceTick = m.sinceTick := m.cycle_keeps.2.2.2.1

theorem sinceCycle_cycle : m.cycle.1.sinceCycle = m.sinceCycle := m.cycle_keeps.2.2.2.2

theorem cycle_error_iff (f : Fault) : m.cycle.2 = .error f ↔ m.cycleRefusal = some f := by
  rcases m.cycle_cases with ⟨g, refused, done⟩ | ⟨w, i, -, -, -, granted, done⟩
  · rw [refused, done]
    constructor
    · intro same
      cases same
      rfl
    · intro same
      cases same
      rfl
  · rw [granted, done]
    exact ⟨nofun, nofun⟩

theorem cycle_of_refusal {m : Machine} {f : Fault} (refused : m.cycleRefusal = some f) :
    m.cycle = (m, .error f) := by
  rcases m.cycle_cases with ⟨g, other, done⟩ | ⟨w, i, -, -, -, granted, -⟩
  · rw [refused] at other
    cases other
    exact done
  · rw [refused] at granted
    cases granted

def uniform (b : Byte) (index : Word) : Machine :=
  { powerOn {} (.cyclic #[0]) with
    memory := ⟨Vector.replicate 4096 b⟩
    registers := { Registers.initial with index := index } }

theorem word_uniform (b : Byte) (index : Word) {a : Nat} (inside : a + 1 < 4096) :
    (uniform b index).memory.word a = .ok (joinBytes b b) := by
  rw [Memory.word_eq, dif_pos inside]
  simp [uniform]

/-- A machine with some bytes from its counter on and zeros elsewhere. -/
def holding (bytes : List Byte) : Machine :=
  { powerOn {} (.cyclic #[0]) with
    memory := ⟨putFrom (Vector.replicate 4096 0) Memory.programStart bytes⟩ }

theorem word_holding (high low : Byte) (bytes : List Byte) :
    (holding (high :: low :: bytes)).memory.word 0x200 = .ok (joinBytes high low) := by
  have second : 513 < 512 + (bytes.length + 1 + 1) := by omega
  rw [Memory.word_eq, dif_pos (by decide)]
  simp [holding, getElem_putFrom, Memory.programStart, second]

/-- A failed cycle is atomic: nothing of the machine has changed. -/
theorem failed_cycle_changes_nothing {m : Machine} {f : Fault} (failed : m.cycle.2 = .error f) :
    m.cycle.1 = m := by
  rcases m.cycle_cases with ⟨g, -, done⟩ | ⟨w, i, -, -, -, -, done⟩
  · rw [done]
  · rw [done] at failed
    cases failed

/-- Three rows that start at the last but one byte of memory are not drawn. -/
theorem sprite_past_the_end_changes_nothing :
    (uniform 0xD3 0xFFE).cycle.2 = .error (.memory (.outsideMemory 0xFFE 3)) ∧
      (uniform 0xD3 0xFFE).cycle.1 = uniform 0xD3 0xFFE := by
  have failed : (uniform 0xD3 0xFFE).cycle.2 = .error (.memory (.outsideMemory 0xFFE 3)) := by
    rw [cycle_error_iff, cycleRefusal, word_uniform _ _ (by decide)]
    decide
  exact ⟨failed, failed_cycle_changes_nothing failed⟩

end ChipEight.Machine
