import ChipEight.Proofs.Cycle

/-
  Two machines that are alike up to a difference, and the cycles that do not bring it out. A
  difference is a relation for each component that a program cannot read at any time; memory,
  registers and stack are the same. A cycle works on such machines in one way if the instruction in
  it does not look at what differs.
-/
namespace ChipEight

/-- What a dialect chooses for an instruction. For a shift of a register onto itself and for a jump
whose base names register 0 there is nothing to choose. -/
def Dialect.choice (d : Dialect) : Instruction → Bool
  | .shift _ x y => d.shiftReadsY && x != y
  | .jumpOffset base => d.jumpAddsX && (Word.x (base.setWidth 16)).val != 0
  | .storeRegisters _ => d.storeMovesIndex
  | .skipKey _ _ => d.keyIsOperand
  | _ => false

/-- Whether an instruction looks at the keys. -/
def Instruction.readsKeys : Instruction → Bool
  | .skipKey _ _ | .awaitKey _ => true
  | _ => false

/-- The sources will give the same bytes, whatever they have given before. -/
def RandomSource.SameBytes (r r' : RandomSource) : Prop :=
  ∀ k, r.stream (r.taken + k) = r'.stream (r'.taken + k)

theorem RandomSource.SameBytes.take {r r' : RandomSource} (same : r.SameBytes r') :
    r.take.1 = r'.take.1 ∧ r.take.2.SameBytes r'.take.2 := by
  refine ⟨same 0, fun k => ?_⟩
  have later := same (1 + k)
  rw [← Nat.add_assoc, ← Nat.add_assoc] at later
  exact later

/-- How a second machine may differ from a first one, component by component. -/
structure Difference where
  config : Config → Config → Prop := Eq
  name : String → String → Prop := Eq
  lastWord : Word → Word → Prop := Eq
  delay : Timer → Timer → Prop := Eq
  sound : Timer → Timer → Prop := Eq
  display : Display → Display → Prop := Eq
  keypad : Keypad → Keypad → Prop := Eq
  random : RandomSource → RandomSource → Prop := Eq
  sinceTick : Nanoseconds → Nanoseconds → Prop := Eq
  sinceCycle : Nanoseconds → Nanoseconds → Prop := Eq

/-- Two values of which nothing is said. -/
def Difference.anything {α : Type} (_ _ : α) : Prop := True

/-- No allowed instruction sees the difference, and all of them leave it one of its kind. -/
structure Difference.Hidden (D : Difference) (allowed : Instruction → Prop) : Prop where
  dialect : ∀ {c c' i}, D.config c c' → allowed i → c.dialect.choice i = c'.dialect.choice i
  keys : ∀ {k k' i}, D.keypad k k' → allowed i → i.readsKeys = true → k = k'
  time : ∀ {t t' x}, D.delay t t' → allowed (.readDelay x) → t = t'
  lastWord : ∀ w, D.lastWord w w
  delay : ∀ t, D.delay t t
  sound : ∀ t, D.sound t t
  clear : ∀ {d d'}, D.display d d' → D.display d.clear d'.clear
  draw : ∀ {d d'} x y sprite, D.display d d' →
    D.display (d.draw x y sprite).1 (d'.draw x y sprite).1 ∧
      (d.draw x y sprite).2 = (d'.draw x y sprite).2
  take : ∀ {r r'}, D.random r r' → r.take.1 = r'.take.1 ∧ D.random r.take.2 r'.take.2

/-- Between machines of one configuration, with one picture and the same random bytes, only the keys
and the delay timer can tell. -/
theorem Difference.Hidden.of_core {D : Difference} {allowed : Instruction → Prop}
    (core : D.config = Eq ∧ D.display = Eq ∧ D.random = Eq)
    (same : (∀ w, D.lastWord w w) ∧ (∀ t, D.delay t t) ∧ ∀ t, D.sound t t)
    (keys : ∀ {k k' i}, D.keypad k k' → allowed i → i.readsKeys = true → k = k')
    (time : ∀ {t t' x}, D.delay t t' → allowed (.readDelay x) → t = t') : D.Hidden allowed where
  dialect config _ := by
    rw [core.1] at config
    rw [config]
  keys := keys
  time := time
  lastWord := same.1
  delay := same.2.1
  sound := same.2.2
  clear display := by
    rw [core.2.1] at display ⊢
    rw [display]
  draw x y sprite display := by
    rw [core.2.1] at display ⊢
    rw [display]
    exact ⟨rfl, rfl⟩
  take random := by
    rw [core.2.2] at random ⊢
    rw [random]
    exact ⟨rfl, rfl⟩

namespace Machine

/-- The machines are the same up to the difference. -/
structure Alike (D : Difference) (m m' : Machine) : Prop where
  memory : m.memory = m'.memory
  registers : m.registers = m'.registers
  stack : m.stack = m'.stack
  config : D.config m.config m'.config
  name : D.name m.name m'.name
  lastWord : D.lastWord m.lastWord m'.lastWord
  delay : D.delay m.delay m'.delay
  sound : D.sound m.sound m'.sound
  display : D.display m.display m'.display
  keypad : D.keypad m.keypad m'.keypad
  random : D.random m.random m'.random
  sinceTick : D.sinceTick m.sinceTick m'.sinceTick
  sinceCycle : D.sinceCycle m.sinceCycle m'.sinceCycle

namespace Alike
variable {D : Difference} {allowed : Instruction → Prop} {m m' : Machine} {i : Instruction}

section Instructions
variable (same : m.Alike D m')
include same

theorem reg (x : Reg) : m.reg x = m'.reg x := congrArg (·.get x) same.registers

theorem index : m.index = m'.index := congrArg Registers.index same.registers

theorem counter : m.counter = m'.counter := congrArg Registers.counter same.registers

theorem demand (i : Instruction) : m.demand i = m'.demand i := by
  cases i with
  | draw x y rows => simp only [Machine.demand, same.reg]
  | _ => rfl

theorem refusal (i : Instruction) : m.refusal i = m'.refusal i := by
  simp only [Machine.refusal, same.demand, same.stack, same.index]

theorem cycleRefusal : m.cycleRefusal = m'.cycleRefusal := by
  simp only [Machine.cycleRefusal, wordRefusal, same.memory, same.counter, same.refusal]

theorem memoryAfter (i : Instruction) : m.memoryAfter i = m'.memoryAfter i := by
  cases i <;> simp only [Machine.memoryAfter, same.memory, same.registers, same.index, same.reg]

theorem stackAfter (i : Instruction) : m.stackAfter i = m'.stackAfter i := by
  cases i <;> simp only [Machine.stackAfter, same.stack, same.counter]

/-- The counter of both machines stands at one word, which both of them fetch. -/
theorem word : m.memory.word m.counter.toNat = m'.memory.word m'.counter.toNat := by
  rw [same.memory, same.counter]

theorem shiftSource {towards : Direction} {x y : Reg}
    (agree : m.config.dialect.choice (.shift towards x y) =
      m'.config.dialect.choice (.shift towards x y)) :
    m.reg (if m.config.dialect.shiftReadsY then y else x) =
      m'.reg (if m'.config.dialect.shiftReadsY then y else x) := by
  by_cases one : x = y
  · simp only [one, ite_self, same.reg]
  · have apart : (x != y) = true := bne_iff_ne.mpr one
    have reads : m.config.dialect.shiftReadsY = m'.config.dialect.shiftReadsY := by
      simpa only [Dialect.choice, apart, Bool.and_true] using agree
    rw [reads, same.reg]

theorem offsetTarget {base : Address}
    (agree : m.config.dialect.choice (.jumpOffset base) =
      m'.config.dialect.choice (.jumpOffset base)) :
    m.offsetTarget base = m'.offsetTarget base := by
  by_cases zero : (Word.x (base.setWidth 16)).val = 0
  · have first : Word.x (base.setWidth 16) = ⟨0, by decide⟩ := Fin.ext zero
    simp only [Machine.offsetTarget, first, ite_self, same.reg]
  · have named : ((Word.x (base.setWidth 16)).val != 0) = true := bne_iff_ne.mpr zero
    have adds : m.config.dialect.jumpAddsX = m'.config.dialect.jumpAddsX := by
      simpa only [Dialect.choice, named, Bool.and_true] using agree
    simp only [Machine.offsetTarget, adds, same.reg]

theorem setCounter (address : Word) : (m.setCounter address).Alike D (m'.setCounter address) :=
  { same with registers := congrArg (·.setCounter address) same.registers }

end Instructions

section Hidden
variable (same : m.Alike D m') (hidden : D.Hidden allowed)
include same hidden

theorem drawn (x y : Reg) (rows : Nat) :
    D.display (m.drawn x y rows).1 (m'.drawn x y rows).1 ∧
      (m.drawn x y rows).2 = (m'.drawn x y rows).2 := by
  simp only [Machine.drawn, same.reg, same.memory, same.index]
  exact hidden.draw _ _ _ same.display

theorem delayAfter (i : Instruction) : D.delay (m.delayAfter i) (m'.delayAfter i) := by
  cases i with
  | setDelay x =>
    simp only [Machine.delayAfter, same.reg]
    exact hidden.delay _
  | _ => exact same.delay

theorem soundAfter (i : Instruction) : D.sound (m.soundAfter i) (m'.soundAfter i) := by
  cases i with
  | setSound x =>
    simp only [Machine.soundAfter, same.reg]
    exact hidden.sound _
  | _ => exact same.sound

theorem displayAfter (i : Instruction) : D.display (m.displayAfter i) (m'.displayAfter i) := by
  cases i with
  | clearScreen => exact hidden.clear same.display
  | draw x y rows => exact (same.drawn hidden x y rows).1
  | _ => exact same.display

theorem randomAfter (i : Instruction) : D.random (m.randomAfter i) (m'.randomAfter i) := by
  cases i with
  | random x mask => exact (hidden.take same.random).2
  | _ => exact same.random

variable (ok : allowed i)
include ok

theorem registersAfter : m.registersAfter i = m'.registersAfter i := by
  have agree := hidden.dialect same.config ok
  cases i with
  | shift towards x y =>
    have source := same.shiftSource agree
    cases towards <;>
      simp only [Machine.registersAfter, Machine.shift, setWithFlag, source, same.registers]
  | subtract minuend x y =>
    cases minuend <;>
      simp only [Machine.registersAfter, subtract, setWithFlag, same.reg, same.registers]
  | random x mask => simp only [Machine.registersAfter, same.registers, (hidden.take same.random).1]
  | draw x y rows => simp only [Machine.registersAfter, same.registers, (same.drawn hidden x y rows).2]
  | readDelay x =>
    have time := hidden.time same.delay ok
    simp only [Machine.registersAfter, same.registers, time]
  | awaitKey x =>
    have keys := hidden.keys same.keypad ok rfl
    simp only [Machine.registersAfter, same.registers, keys]
  | addToIndex x => simp only [Machine.registersAfter, addToIndex, same.registers, same.reg, same.index]
  | glyphAddress x => simp only [Machine.registersAfter, glyphAddress, same.registers, same.reg]
  | storeRegisters x =>
    have moves : m.config.dialect.storeMovesIndex = m'.config.dialect.storeMovesIndex := agree
    simp only [Machine.registersAfter, moves, same.registers, same.index]
  | loadRegisters x => simp only [Machine.registersAfter, same.registers, same.memory, same.index]
  | _ => simp only [Machine.registersAfter, same.registers, same.reg]

theorem stepOf : m.stepOf i = m'.stepOf i := by
  have agree := hidden.dialect same.config ok
  cases i with
  | jumpOffset base =>
    have target := same.offsetTarget agree
    simp only [Machine.stepOf, target]
  | skipKey state x =>
    have keys := hidden.keys same.keypad ok rfl
    have operand : m.config.dialect.keyIsOperand = m'.config.dialect.keyIsOperand := agree
    cases state <;> simp only [Machine.stepOf, skipKeyOf, operand, keys, same.reg]
  | awaitKey x =>
    have keys := hidden.keys same.keypad ok rfl
    simp only [Machine.stepOf, keys]
  | _ => simp only [Machine.stepOf, same.stack, same.reg]

theorem signalOf : m.signalOf i = m'.signalOf i := by
  cases i with
  | awaitKey x =>
    have keys := hidden.keys same.keypad ok rfl
    simp only [Machine.signalOf, keys]
  | _ => simp only [Machine.signalOf, same.stack]

/-- An instruction that does not see the difference leaves a difference of that kind. -/
theorem after : (m.after i).Alike D (m'.after i) :=
  { same with
    memory := same.memoryAfter i
    registers := same.registersAfter hidden ok
    stack := same.stackAfter i
    delay := same.delayAfter hidden i
    sound := same.soundAfter hidden i
    display := same.displayAfter hidden i
    random := same.randomAfter hidden i }

omit ok in
theorem fetched (w : Word) : (m.fetched w).Alike D (m'.fetched w) := by
  have read : Alike D { m with lastWord := w } { m' with lastWord := w } :=
    { same with lastWord := hidden.lastWord w }
  rw [Machine.fetched, Machine.fetched, same.counter]
  exact read.setCounter _

theorem ran (w : Word) : (m.ran w i).Alike D (m'.ran w i) := by
  have fetched := same.fetched hidden w
  have after := fetched.after hidden ok
  rw [Machine.ran, Machine.ran, fetched.stepOf hidden ok, after.counter]
  exact after.setCounter _

omit ok in
/-- A cycle that runs an allowed instruction, or fails, keeps the difference and answers alike. -/
theorem cycle (neutral : ∀ i ∈ m.executed, allowed i) :
    m.cycle.1.Alike D m'.cycle.1 ∧ m.cycle.2 = m'.cycle.2 := by
  rcases m.cycle_cases with ⟨f, refused, done⟩ | ⟨w, i, here, read, granted, -, done⟩
  · have done' := cycle_of_refusal (same.cycleRefusal ▸ refused)
    rw [done, done']
    exact ⟨same, rfl⟩
  · have ok := neutral i (m.executed_of_granted here read granted)
    have done' := m'.cycle_of_granted (same.word ▸ here) read (same.refusal i ▸ granted)
    rw [done, done', (same.fetched hidden w).signalOf hidden ok]
    exact ⟨same.ran hidden ok w, rfl⟩

end Hidden

end Alike

end Machine
end ChipEight
