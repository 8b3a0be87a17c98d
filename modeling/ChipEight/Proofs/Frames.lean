import ChipEight.Proofs.Sprite
import ChipEight.Proofs.Standstill

/-
  What an instruction leaves alone. For each part of the machine there is a short list of words
  that may change it, and in memory and among the registers only some places of it. Which of the
  words tell the surroundings something is a list of the same kind.
-/
namespace ChipEight

theorem putFrom_changes {n a i : Nat} {v : Vector Byte n} {bs : List Byte} (inside : i < n)
    (changed : (putFrom v a bs)[i] ≠ v[i]) : a ≤ i ∧ i < a + bs.length := by
  by_contra outside
  rw [getElem_putFrom, dif_neg outside] at changed
  exact changed rfl

namespace Registers
variable {r : Registers} {x y : Reg} {b : Byte}

theorem changed_of_set (changed : (r.set x b).get y ≠ r.get y) : y = x := by
  by_contra other
  rw [get_set, if_neg (Ne.symm other)] at changed
  exact changed rfl

end Registers

namespace Word

/-- The words that write to their first register. -/
def writesX : List String :=
  ["6XNN", "7XNN", "8XY0", "8XY1", "8XY2", "8XY3", "8XY4", "8XY5", "8XY6", "8XY7", "8XYE", "CXNN",
   "FX07", "FX0A"]

/-- The words that write to the flag register, some of them after their first register. -/
def writesFlag : List String := ["8XY4", "8XY5", "8XY6", "8XY7", "8XYE", "DXYN", "FX1E"]

/-- The instruction of the word may write to the register. -/
def MayWrite (w : Word) (r : Reg) : Prop :=
  (r = w.x ∧ ∃ p ∈ writesX, w.Fits p) ∨ (r = Registers.flagReg ∧ ∃ p ∈ writesFlag, w.Fits p) ∨
    (r ≤ w.x ∧ w.Fits "FX65")

instance (w : Word) (r : Reg) : Decidable (w.MayWrite r) := inferInstanceAs (Decidable (_ ∨ _))

namespace MayWrite
variable {w : Word} {r : Reg} {registers : Registers} {b : Byte} {on : Bool} (p : String)

theorem of_set (listed : p ∈ writesX) (fits : w.Fits p)
    (changed : (registers.set w.x b).get r ≠ registers.get r) : w.MayWrite r :=
  .inl ⟨Registers.changed_of_set changed, p, listed, fits⟩

theorem of_setFlag (listed : p ∈ writesFlag) (fits : w.Fits p)
    (changed : (registers.setFlag on).get r ≠ registers.get r) : w.MayWrite r :=
  .inr (.inl ⟨Registers.changed_of_set changed, p, listed, fits⟩)

theorem of_setWithFlag (both : p ∈ writesX ∧ p ∈ writesFlag) (fits : w.Fits p)
    (changed : ((registers.set w.x b).setFlag on).get r ≠ registers.get r) : w.MayWrite r := by
  by_cases flag : ((registers.set w.x b).setFlag on).get r = (registers.set w.x b).get r
  · rw [flag] at changed
    exact .of_set p both.1 fits changed
  · exact .of_setFlag p both.2 fits flag

end MayWrite
end Word

namespace Machine

/-- What may differ after a cycle that runs a word. The counter and the last word always may. -/
structure Framed (m : Machine) (w : Word) (after : Machine) : Prop where
  memory : ∀ a (_ : a < 4096), after.memory.bytes[a] ≠ m.memory.bytes[a] →
    (w.Fits "FX33" ∧ m.index.toNat ≤ a ∧ a ≤ m.index.toNat + 2) ∨
      (w.Fits "FX55" ∧ m.index.toNat ≤ a ∧ a ≤ m.index.toNat + w.x)
  grid : after.display.grid ≠ m.display.grid → w.Fits "00E0" ∨ w.Fits "DXYN"
  foreground : after.display.foreground = m.display.foreground
  stack : after.stack ≠ m.stack → w.Fits "2NNN" ∨ w.Fits "00EE"
  delay : after.delay ≠ m.delay → w.Fits "FX15"
  sound : after.sound ≠ m.sound → w.Fits "FX18"
  random : after.random ≠ m.random → w.Fits "CXNN"
  index : after.index ≠ m.index → w.Fits "ANNN" ∨ w.Fits "FX1E" ∨ w.Fits "FX29" ∨
    (m.config.dialect.storeMovesIndex = true ∧ w.Fits "FX55")
  registers : ∀ r, after.reg r ≠ m.reg r → w.MayWrite r
  config : after.config = m.config
  name : after.name = m.name
  keypad : after.keypad = m.keypad
  sinceTick : after.sinceTick = m.sinceTick
  sinceCycle : after.sinceCycle = m.sinceCycle

/-- What a word tells the surroundings. -/
structure Tells (m : Machine) (w : Word) (signal : Signal) : Prop where
  redraw : signal = .redraw ↔ w.Fits "00E0" ∨ w.Fits "DXYN"
  waiting : signal = .waiting ↔ w.Fits "FX0A" ∧ m.keypad = .released
  returnDropped : signal = .returnDropped ↔ w.Fits "2NNN" ∧ m.stack.depth = 16
  otherwise : ¬ (w.Fits "00E0" ∨ w.Fits "DXYN") → ¬ (w.Fits "FX0A" ∧ m.keypad = .released) →
    ¬ (w.Fits "2NNN" ∧ m.stack.depth = 16) → signal = .quiet

section Parts
variable {m : Machine} {w : Word} {i : Instruction} (read : Instruction.ofWord? w = some i)
include read

theorem memory_frame {a : Nat} (inside : a < 4096)
    (changed : (m.memoryAfter i).bytes[a] ≠ m.memory.bytes[a]) :
    (w.Fits "FX33" ∧ m.index.toNat ≤ a ∧ a ≤ m.index.toNat + 2) ∨
      (w.Fits "FX55" ∧ m.index.toNat ≤ a ∧ a ≤ m.index.toNat + w.x) := by
  obtain ⟨p, row, fits, -⟩ := Instruction.readAs read
  cases row with
  | storeDecimal =>
    obtain ⟨above, below⟩ := putFrom_changes inside changed
    exact .inl ⟨fits, above, Nat.le_of_lt_succ below⟩
  | storeRegisters =>
    obtain ⟨above, below⟩ := putFrom_changes inside changed
    rw [Registers.upTo_length] at below
    exact .inr ⟨fits, above, Nat.le_of_lt_succ below⟩
  | _ => exact absurd rfl changed

theorem grid_frame (changed : (m.displayAfter i).grid ≠ m.display.grid) :
    w.Fits "00E0" ∨ w.Fits "DXYN" := by
  obtain ⟨p, row, fits, -⟩ := Instruction.readAs read
  cases row with
  | clearScreen => exact .inl fits
  | draw => exact .inr fits
  | _ => exact absurd rfl changed

theorem stack_frame (changed : m.stackAfter i ≠ m.stack) : w.Fits "2NNN" ∨ w.Fits "00EE" := by
  obtain ⟨p, row, fits, -⟩ := Instruction.readAs read
  cases row with
  | call => exact .inl fits
  | ret => exact .inr fits
  | _ => exact absurd rfl changed

theorem delay_frame (changed : m.delayAfter i ≠ m.delay) : w.Fits "FX15" := by
  obtain ⟨p, row, fits, -⟩ := Instruction.readAs read
  cases row with
  | setDelay => exact fits
  | _ => exact absurd rfl changed

theorem sound_frame (changed : m.soundAfter i ≠ m.sound) : w.Fits "FX18" := by
  obtain ⟨p, row, fits, -⟩ := Instruction.readAs read
  cases row with
  | setSound => exact fits
  | _ => exact absurd rfl changed

theorem random_frame (changed : m.randomAfter i ≠ m.random) : w.Fits "CXNN" := by
  obtain ⟨p, row, fits, -⟩ := Instruction.readAs read
  cases row with
  | random => exact fits
  | _ => exact absurd rfl changed

theorem index_frame (changed : (m.registersAfter i).index ≠ m.index) :
    w.Fits "ANNN" ∨ w.Fits "FX1E" ∨ w.Fits "FX29" ∨
      (m.config.dialect.storeMovesIndex = true ∧ w.Fits "FX55") := by
  obtain ⟨p, row, fits, -⟩ := Instruction.readAs read
  cases row with
  | setIndex => exact .inl fits
  | addToIndex => exact .inr (.inl fits)
  | glyphAddress => exact .inr (.inr (.inl fits))
  | storeRegisters =>
    by_cases moves : m.config.dialect.storeMovesIndex = true
    · exact .inr (.inr (.inr ⟨moves, fits⟩))
    · rw [registersAfter, if_neg moves] at changed
      exact absurd rfl changed
  | awaitKey =>
    rw [registersAfter] at changed
    split at changed <;> exact absurd rfl changed
  | _ => exact absurd rfl changed

theorem registers_frame {r : Reg} (changed : (m.registersAfter i).get r ≠ m.reg r) :
    w.MayWrite r := by
  obtain ⟨p, row, fits, -⟩ := Instruction.readAs read
  cases row with
  | setImmediate => exact .of_set "6XNN" (by decide) fits changed
  | addImmediate => exact .of_set "7XNN" (by decide) fits changed
  | copy => exact .of_set "8XY0" (by decide) fits changed
  | bitwiseOr => exact .of_set "8XY1" (by decide) fits changed
  | bitwiseAnd => exact .of_set "8XY2" (by decide) fits changed
  | bitwiseXor => exact .of_set "8XY3" (by decide) fits changed
  | add => exact .of_setWithFlag "8XY4" (by decide) fits changed
  | subtract => exact .of_setWithFlag "8XY5" (by decide) fits changed
  | shiftRight => exact .of_setWithFlag "8XY6" (by decide) fits changed
  | subtractFrom => exact .of_setWithFlag "8XY7" (by decide) fits changed
  | shiftLeft => exact .of_setWithFlag "8XYE" (by decide) fits changed
  | random => exact .of_set "CXNN" (by decide) fits changed
  | draw => exact .of_setFlag "DXYN" (by decide) fits changed
  | readDelay => exact .of_set "FX07" (by decide) fits changed
  | awaitKey =>
    rw [registersAfter] at changed
    split at changed
    · exact .of_set "FX0A" (by decide) fits changed
    · exact absurd rfl changed
  | addToIndex =>
    simp only [registersAfter, addToIndex] at changed
    split at changed
    · exact .of_setFlag "FX1E" (by decide) fits changed
    · exact absurd rfl changed
  | storeRegisters =>
    rw [registersAfter] at changed
    split at changed <;> exact absurd rfl changed
  | loadRegisters =>
    obtain ⟨-, below⟩ := putFrom_changes r.isLt changed
    have short : (m.memory.window m.index.toNat (w.x + 1)).length ≤ w.x + 1 :=
      List.length_take_le _ _
    have upTo : r.val ≤ w.x.val := by omega
    exact .inr (.inr ⟨upTo, fits⟩)
  | _ => exact absurd rfl changed

theorem tells_signalOf : m.Tells w (m.signalOf i) := by
  obtain ⟨p, row, -, only⟩ := Instruction.readAs read
  have full : m.stack.depth = 16 ↔ ¬ m.stack.depth < 16 := by
    have bounded : m.stack.depth ≤ 16 := m.stack.bounded
    omega
  -- what each field asks about the word is asked about the pattern of its row
  constructor
  all_goals
    simp only [only "00E0" (by simp [patterns]), only "DXYN" (by simp [patterns]),
      only "FX0A" (by simp [patterns]), only "2NNN" (by simp [patterns])]
    cases row with
    | call => by_cases room : m.stack.depth < 16 <;> simp [signalOf, full, room]
    | awaitKey =>
      by_cases idle : m.keypad = .released <;>
        simp [signalOf, Keypad.firstPressed_eq_none_iff, idle]
    | _ => simp [signalOf]

end Parts

theorem foreground_after (m : Machine) (i : Instruction) :
    (m.displayAfter i).foreground = m.display.foreground := by
  cases i with
  | draw x y rows => exact (Display.Flips.draw _ _ _ _).foreground
  | _ => rfl

/-- An instruction touches nothing outside of its frame, and only some words tell anything. -/
theorem instructions_keep_their_frames {m : Machine} {signal : Signal}
    (done : m.cycle.2 = .ok signal) :
    m.Framed m.nextWord m.cycle.1 ∧ m.Tells m.nextWord signal := by
  obtain ⟨-, i, read, ran, rfl⟩ := runs_nextWord done
  -- no frame and no signal is about what the fetch has changed
  let fetched := m.fetched m.nextWord
  have told := fetched.tells_signalOf read
  rw [ran]
  constructor
  · constructor
    case memory => exact fun a inside => fetched.memory_frame read inside
    case grid => exact fetched.grid_frame read
    case foreground => exact fetched.foreground_after i
    case stack => exact fetched.stack_frame read
    case delay => exact fetched.delay_frame read
    case sound => exact fetched.sound_frame read
    case random => exact fetched.random_frame read
    case index => exact fetched.index_frame read
    case registers => exact fun r => fetched.registers_frame read
    all_goals rfl
  · exact ⟨told.redraw, told.waiting, told.returnDropped, told.otherwise⟩

/-- A machine that is about to store all registers at the end of memory. -/
def storingAll : Machine :=
  { holding [0xFF, 0x55] with
    registers := { Registers.initial.set Registers.flagReg 7 with index := 0xFF0 } }

theorem sixteen_registers_are_stored :
    storingAll.cycle.2 = .ok .quiet ∧
      (∀ a (_ : a < 0xFF0), storingAll.cycle.1.memory.bytes[a] = storingAll.memory.bytes[a]) ∧
      storingAll.cycle.1.display.grid = storingAll.display.grid ∧
      storingAll.cycle.1.stack = storingAll.stack ∧
      storingAll.cycle.1.index = storingAll.index ∧
      ∀ r, storingAll.cycle.1.reg r = storingAll.reg r := by
  have done : storingAll.cycle.2 = .ok .quiet := by decide +kernel
  have word : storingAll.nextWord = 0xFF55 := by decide +kernel
  obtain ⟨framed, -⟩ := instructions_keep_their_frames done
  rw [word] at framed
  refine ⟨done, ?_, ?_, ?_, ?_, ?_⟩
  · intro a below
    by_contra changed
    rcases framed.memory a (Nat.lt_trans below (by decide)) changed with
      ⟨decimal, -⟩ | ⟨-, above, -⟩
    · exact absurd decimal (by decide)
    · exact absurd below (Nat.not_lt.mpr above)
  · by_contra changed
    exact absurd (framed.grid changed) (by decide)
  · by_contra changed
    exact absurd (framed.stack changed) (by decide)
  · by_contra changed
    exact absurd (framed.index changed) (by decide)
  · have none : ∀ r, ¬ Word.MayWrite 0xFF55 r := by decide
    intro r
    by_contra changed
    exact none r (framed.registers r changed)

end Machine
end ChipEight
