import ChipEight.Machine.Cycle

/-
  An instruction component by component: when it is refused, what it does to each part of the
  machine, where the program counter goes, and what the surroundings are told. A table that
  falls through to the old value says which instructions leave that part alone.
-/
namespace ChipEight

section Blocks
variable {n a : Nat} {v : Vector Byte n} {bs : List Byte}

theorem getElem?_putFrom_inside {k : Nat} (fits : a + bs.length ≤ n) (inside : k < bs.length) :
    (putFrom v a bs)[a + k]? = bs[k]? := by
  have there : a + k < n := by omega
  have written : a ≤ a + k ∧ a + k < a + bs.length := by omega
  have place : a + k - a = k := by omega
  rw [Vector.getElem?_eq_getElem there, getElem_putFrom, dif_pos written,
    List.getElem?_eq_getElem inside]
  simp only [place]

theorem getElem?_putFrom_outside {i : Nat} (outside : i < a ∨ a + bs.length ≤ i) :
    (putFrom v a bs)[i]? = v[i]? := by
  by_cases there : i < n
  · have untouched : ¬ (a ≤ i ∧ i < a + bs.length) := by omega
    rw [Vector.getElem?_eq_getElem there, Vector.getElem?_eq_getElem there, getElem_putFrom,
      dif_neg untouched]
  · have behind : n ≤ i := by omega
    rw [Vector.getElem?_eq_none behind, Vector.getElem?_eq_none behind]

end Blocks

/-- The bytes from an address on, as many as there are up to the given length. -/
def Memory.window (m : Memory) (address length : Nat) : List Byte :=
  (m.bytes.toList.drop address).take length

theorem Memory.getElem?_window (m : Memory) {address length k : Nat} (inside : k < length) :
    (m.window address length)[k]? = m.bytes[address + k]? := by
  rw [window, List.getElem?_take_of_lt inside, List.getElem?_drop, Vector.getElem?_toList]

theorem Memory.slice_eq (m : Memory) (address length : Nat) :
    m.slice address length =
      if address + length ≤ 4096 then .ok (m.window address length)
      else .error (.outsideMemory address length) := by
  unfold slice
  by_cases inside : address + length ≤ size
  · rw [dif_pos inside, if_pos (by simpa [size] using inside)]
    congr 1
    apply List.ext_getElem
    · simp [window, size] at inside ⊢
      omega
    · intro i hi hj
      simp [window, Vector.get]
  · rw [dif_neg inside, if_neg (by simpa [size] using inside)]

theorem Memory.inside_of_word {m : Memory} {address : Nat} {w : Word}
    (h : m.word address = .ok w) : address + 1 < 4096 := by
  rw [word_eq] at h
  split at h
  · assumption
  · cases h

theorem Memory.store_eq (m : Memory) (address : Nat) (bs : List Byte) :
    m.store address bs =
      if address + bs.length ≤ 4096 then .ok ⟨putFrom m.bytes address bs⟩
      else .error (.outsideMemory address bs.length) := rfl

namespace CallStack

theorem pop_of_empty {s : CallStack} (empty : s.depth = 0) : s.pop = (s, .error .empty) := by
  have none : s.newestFirst = [] := List.length_eq_zero_iff.mp empty
  unfold pop
  split
  · rfl
  · simp_all

theorem pop_of_nonempty {s : CallStack} (nonempty : s.depth ≠ 0) :
    s.pop = (s.pop.1, .ok (s.newestFirst.headD 0)) := by
  have some : s.newestFirst ≠ [] := fun h => nonempty (by simp [depth, h])
  unfold pop
  split
  · contradiction
  · simp_all

theorem push_answer (s : CallStack) (address : Word) :
    (s.push address).2 = if s.depth < 16 then .ok () else .error .full := by
  by_cases room : s.depth < 16
  · have : s.newestFirst.length < capacity := room
    simp [push, this, room]
  · have : ¬ s.newestFirst.length < capacity := room
    simp [push, this, room]

end CallStack

namespace Machine
variable (m : Machine)

/-- How many bytes from the index register on an instruction reads or writes. -/
def demand : Instruction → Option Nat
  | .draw _ y rows => some (Display.visibleRows (m.reg y).toNat rows)
  | .storeDecimal _ => some 3
  | .storeRegisters x => some (x + 1)
  | .loadRegisters x => some (x + 1)
  | _ => none

/-- Why an instruction fails, if it does: it returns without a call, or it needs bytes that lie
outside of the memory. -/
def refusal (i : Instruction) : Option Fault :=
  if i = .ret ∧ m.stack.depth = 0 then some (.stack .empty)
  else match m.demand i with
    | some length =>
      if m.index.toNat + length ≤ 4096 then none
      else some (.memory (.outsideMemory m.index.toNat length))
    | none => none

/-- The picture after the visible rows of a sprite, and whether a lit pixel went out. -/
def drawn (x y : Reg) (rows : Nat) : Display × Bool :=
  m.display.draw (m.reg x).toNat (m.reg y).toNat
    (m.memory.window m.index.toNat (Display.visibleRows (m.reg y).toNat rows))

def memoryAfter : Instruction → Memory
  | .storeDecimal x => ⟨putFrom m.memory.bytes m.index.toNat (decimalDigits (m.reg x))⟩
  | .storeRegisters x => ⟨putFrom m.memory.bytes m.index.toNat (m.registers.upTo x)⟩
  | _ => m.memory

def registersAfter : Instruction → Registers
  | .setImmediate x value => m.registers.set x value
  | .addImmediate x value => m.registers.set x (m.reg x + value)
  | .copy x y => m.registers.set x (m.reg y)
  | .bitwise op x y => m.registers.set x (op.apply (m.reg x) (m.reg y))
  | .add x y =>
    (m.registers.set x (m.reg x + m.reg y)).setFlag ((m.reg x).uaddOverflow (m.reg y))
  | .subtract .x x y => (m.subtract x (m.reg x) (m.reg y)).registers
  | .subtract .y x y => (m.subtract x (m.reg y) (m.reg x)).registers
  | .shift towards x y => (m.shift towards x y).registers
  | .setIndex address => m.registers.setIndex (address.setWidth 16)
  | .random x mask => m.registers.set x (mask &&& m.random.take.1)
  | .draw x y rows => m.registers.setFlag (m.drawn x y rows).2
  | .readDelay x => m.registers.set x m.delay.value
  | .awaitKey x => match m.keypad.firstPressed with
    | some key => m.registers.set x (BitVec.ofNat 8 key)
    | none => m.registers
  | .addToIndex x => (m.addToIndex x).registers
  | .glyphAddress x => m.registers.setIndex (m.glyphAddress x)
  | .storeRegisters x =>
    if m.config.dialect.storeMovesIndex then
      m.registers.setIndex (m.index + BitVec.ofNat 16 (x + 1))
    else m.registers
  | .loadRegisters x => m.registers.setFromZero (m.memory.window m.index.toNat (x + 1))
  | _ => m.registers

def stackAfter : Instruction → CallStack
  | .call _ => (m.stack.push m.counter).1
  | .ret => m.stack.pop.1
  | _ => m.stack

def delayAfter : Instruction → Timer
  | .setDelay x => ⟨m.reg x⟩
  | _ => m.delay

def soundAfter : Instruction → Timer
  | .setSound x => ⟨m.reg x⟩
  | _ => m.sound

def displayAfter : Instruction → Display
  | .clearScreen => m.display.clear
  | .draw x y rows => (m.drawn x y rows).1
  | _ => m.display

def randomAfter : Instruction → RandomSource
  | .random _ _ => m.random.take.2
  | _ => m.random

def after (i : Instruction) : Machine :=
  { m with
    memory := m.memoryAfter i
    registers := m.registersAfter i
    stack := m.stackAfter i
    delay := m.delayAfter i
    sound := m.soundAfter i
    display := m.displayAfter i
    random := m.randomAfter i }

def stepOf : Instruction → CounterStep
  | .ret => .jump (m.stack.newestFirst.headD 0)
  | .jump target => .jump (target.setWidth 16)
  | .call target => .jump (target.setWidth 16)
  | .skipImmediate c x value => .skipIf (c.holds (m.reg x) value)
  | .skipRegister c x y => .skipIf (c.holds (m.reg x) (m.reg y))
  | .jumpOffset base => .jump (m.offsetTarget base)
  | .skipKey .pressed x => .skipIf (m.keypad.isPressed (m.skipKeyOf x))
  | .skipKey .released x => .skipIf (!m.keypad.isPressed (m.skipKeyOf x))
  | .awaitKey _ => if m.keypad.firstPressed = none then .again else .next
  | _ => .next

def signalOf : Instruction → Signal
  | .clearScreen => .redraw
  | .draw _ _ _ => .redraw
  | .call _ => if m.stack.depth < 16 then .quiet else .returnDropped
  | .awaitKey _ => if m.keypad.firstPressed = none then .waiting else .quiet
  | _ => .quiet

def granted (i : Instruction) : Outcome := (m.after i, .ok (m.stepOf i, m.signalOf i))

section Instructions

theorem ret_eq : m.ret =
    if m.stack.depth = 0 then (m, .error (.stack .empty)) else m.granted .ret := by
  unfold ret
  by_cases empty : m.stack.depth = 0
  · rw [if_pos empty, CallStack.pop_of_empty empty]
  · rw [if_neg empty, CallStack.pop_of_nonempty empty]
    rfl

theorem call_eq (target : Address) :
    m.call (target.setWidth 16) = m.granted (.call target) := by
  unfold call granted signalOf
  rw [← Prod.eta (m.stack.push m.counter), CallStack.push_answer]
  by_cases room : m.stack.depth < 16
  · rw [if_pos room, if_pos room]
    rfl
  · rw [if_neg room, if_neg room]
    rfl

theorem draw_eq (x y : Reg) (rows : Fin 16) : m.draw x y rows =
    if m.index.toNat + Display.visibleRows (m.reg y).toNat rows ≤ 4096 then
      m.granted (.draw x y rows)
    else (m, .error (.memory (.outsideMemory m.index.toNat
      (Display.visibleRows (m.reg y).toNat rows)))) := by
  simp only [draw, Memory.slice_eq]
  by_cases inside : m.index.toNat + Display.visibleRows (m.reg y).toNat rows ≤ 4096
  · rw [if_pos inside, if_pos inside]
    rfl
  · rw [if_neg inside, if_neg inside]

theorem storeAtIndex_eq (bs : List Byte) : m.storeAtIndex bs =
    if m.index.toNat + bs.length ≤ 4096 then
      ({ m with memory := ⟨putFrom m.memory.bytes m.index.toNat bs⟩ }, .ok ())
    else (m, .error (.memory (.outsideMemory m.index.toNat bs.length))) := by
  unfold storeAtIndex
  rw [Memory.store_eq]
  by_cases inside : m.index.toNat + bs.length ≤ 4096
  · rw [if_pos inside, if_pos inside]
  · rw [if_neg inside, if_neg inside]

theorem storeDecimal_eq (x : Reg) : m.storeDecimal x =
    if m.index.toNat + 3 ≤ 4096 then m.granted (.storeDecimal x)
    else (m, .error (.memory (.outsideMemory m.index.toNat 3))) := by
  unfold storeDecimal
  rw [storeAtIndex_eq]
  have size : (decimalDigits (m.reg x)).length = 3 := rfl
  by_cases inside : m.index.toNat + 3 ≤ 4096
  · rw [size, if_pos inside, if_pos inside]
    rfl
  · rw [size, if_neg inside, if_neg inside]

theorem storeRegisters_eq (x : Reg) : m.storeRegisters x =
    if m.index.toNat + (x + 1) ≤ 4096 then m.granted (.storeRegisters x)
    else (m, .error (.memory (.outsideMemory m.index.toNat (x + 1)))) := by
  unfold storeRegisters
  rw [storeAtIndex_eq, Registers.upTo_length]
  by_cases inside : m.index.toNat + (x + 1) ≤ 4096
  · rw [if_pos inside, if_pos inside]
    simp only [granted, after, registersAfter]
    split <;> rfl
  · rw [if_neg inside, if_neg inside]

theorem loadRegisters_eq (x : Reg) : m.loadRegisters x =
    if m.index.toNat + (x + 1) ≤ 4096 then m.granted (.loadRegisters x)
    else (m, .error (.memory (.outsideMemory m.index.toNat (x + 1)))) := by
  unfold loadRegisters
  rw [Memory.slice_eq]
  by_cases inside : m.index.toNat + (x + 1) ≤ 4096
  · rw [if_pos inside, if_pos inside]
    rfl
  · rw [if_neg inside, if_neg inside]

theorem awaitKey_eq (x : Reg) : m.awaitKey x = m.granted (.awaitKey x) := by
  simp only [awaitKey, granted, after, registersAfter, stepOf, signalOf]
  cases m.keypad.firstPressed with
  | none => rfl
  | some key => rfl

/-- Every instruction is refused or does what the tables say. -/
theorem execute_eq (i : Instruction) : m.execute i =
    match m.refusal i with
    | some f => (m, .error f)
    | none => m.granted i := by
  cases i with
  | ret =>
    simp only [execute, refusal, demand, ret_eq, true_and]
    split <;> rfl
  | call target => exact m.call_eq target
  | draw x y rows =>
    simp only [execute, refusal, demand, draw_eq]
    split <;> rfl
  | storeDecimal x =>
    simp only [execute, refusal, demand, storeDecimal_eq]
    split <;> rfl
  | storeRegisters x =>
    simp only [execute, refusal, demand, storeRegisters_eq]
    split <;> rfl
  | loadRegisters x =>
    simp only [execute, refusal, demand, loadRegisters_eq]
    split <;> rfl
  | awaitKey x => exact m.awaitKey_eq x
  | subtract minuend x y => cases minuend <;> rfl
  | shift towards x y => cases towards <;> rfl
  | skipKey state x => cases state <;> rfl
  | _ => rfl

/-- No instruction moves the program counter; the step does, afterwards. -/
theorem counter_after (i : Instruction) : (m.after i).counter = m.counter := by
  cases i with
  | subtract minuend x y => cases minuend <;> rfl
  | shift towards x y => cases towards <;> rfl
  | awaitKey x =>
    show (m.registersAfter (.awaitKey x)).counter = m.counter
    simp only [registersAfter]
    split <;> rfl
  | addToIndex x =>
    show (m.addToIndex x).counter = m.counter
    simp only [addToIndex, counter, Registers.setIndex]
    split <;> rfl
  | storeRegisters x =>
    show (m.registersAfter (.storeRegisters x)).counter = m.counter
    simp only [registersAfter]
    split <;> rfl
  | _ => rfl

theorem counter_execute (i : Instruction) : (m.execute i).1.counter = m.counter := by
  rw [execute_eq]
  cases m.refusal i with
  | some f => rfl
  | none => exact m.counter_after i

end Instructions

end Machine
end ChipEight
