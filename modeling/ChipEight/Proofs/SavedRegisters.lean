import ChipEight.Proofs.FaultTable

/-
  Registers that are put aside in memory and taken back. A store writes the first registers to the
  bytes from the index on, and in one dialect moves the index behind them; a load of as many reads
  them back and never moves it. The decimal digits of a register are stored in the same way.
-/
namespace ChipEight

namespace Registers
variable (r : Registers)

theorem getElem?_upTo {x y : Reg} (within : y ≤ x) : (r.upTo x)[y.val]? = some (r.get y) := by
  have inside : y.val < x + 1 := Nat.lt_succ_of_le within
  rw [upTo, List.getElem?_take_of_lt inside, Vector.getElem?_toList]
  exact Vector.getElem?_eq_getElem y.isLt

theorem get_setFromZero_of_getElem? {bs : List Byte} {y : Reg} {b : Byte}
    (there : bs[y.val]? = some b) : (r.setFromZero bs).get y = b := by
  obtain ⟨inside, value⟩ := List.getElem?_eq_some_iff.mp there
  have written : 0 ≤ y.val ∧ y.val < 0 + bs.length := by omega
  rw [← value]
  exact (getElem_putFrom r.data 0 bs y y.isLt).trans (dif_pos written)

theorem get_setFromZero_of_length_le {bs : List Byte} {y : Reg} (behind : bs.length ≤ y.val) :
    (r.setFromZero bs).get y = r.get y := by
  have untouched : ¬ (0 ≤ y.val ∧ y.val < 0 + bs.length) := by omega
  exact (getElem_putFrom r.data 0 bs y y.isLt).trans (dif_neg untouched)

end Registers

namespace Machine

theorem decimalDigits_spec (b : Byte) : ∃ hundreds tens ones : Byte,
    decimalDigits b = [hundreds, tens, ones] ∧
      hundreds.toNat < 10 ∧ tens.toNat < 10 ∧ ones.toNat < 10 ∧
      100 * hundreds.toNat + 10 * tens.toNat + ones.toNat = b.toNat := by
  have := b.isLt
  have hundreds : (b / 100).toNat = b.toNat / 100 := BitVec.toNat_udiv
  have tens : (b / 10 % 10).toNat = b.toNat / 10 % 10 := by
    rw [BitVec.toNat_umod, BitVec.toNat_udiv]
    rfl
  have ones : (b % 10).toNat = b.toNat % 10 := BitVec.toNat_umod
  refine ⟨b / 100, b / 10 % 10, b % 10, rfl, ?_⟩
  rw [hundreds, tens, ones]
  omega

/-- The next cycle may write to as many bytes from the index on, and to the index. Beside them only
the counter and the last word change. -/
structure Stores (m : Machine) (w : Word) (length : Nat) : Prop where
  runs : m.cycle.2 = .ok .quiet
  outside : ∀ i, i < m.index.toNat ∨ m.index.toNat + length ≤ i →
    m.cycle.1.memory.bytes[i]? = m.memory.bytes[i]?
  registers : ∀ r, m.cycle.1.reg r = m.reg r
  rest : m.cycle.1 =
    { m with
      lastWord := w
      memory := m.cycle.1.memory
      registers := ⟨m.cycle.1.registers.data, m.cycle.1.index, m.counter + 2⟩ }

/-- The next cycle gives the registers up to the one that the word names new values. Beside them
only the counter and the last word change. -/
structure Restores (m : Machine) (w : Word) (saved : Reg → Byte) : Prop where
  runs : m.cycle.2 = .ok .quiet
  restored : ∀ r ≤ w.x, m.cycle.1.reg r = saved r
  others : ∀ r, w.x < r → m.cycle.1.reg r = m.reg r
  rest : m.cycle.1 =
    { m with
      lastWord := w
      registers := ⟨m.cycle.1.registers.data, m.index, m.counter + 2⟩ }

section Cycles
variable {m : Machine} {w : Word} {i : Instruction}

/-- What there is to say of both words that store bytes. -/
theorem Stores.of_bytes {bs : List Byte} {index : Word}
    (word : m.memory.word m.counter.toNat = .ok w) (read : Instruction.ofWord? w = some i)
    (demand : m.demand i = some bs.length) (inside : m.index.toNat + bs.length ≤ 4096)
    (quiet : (m.fetched w).signalOf i = .quiet)
    (effect : m.ran w i =
      { m with
        lastWord := w
        memory := ⟨putFrom m.memory.bytes m.index.toNat bs⟩
        registers := ⟨m.registers.data, index, m.counter + 2⟩ }) :
    m.Stores w bs.length ∧ m.cycle.1.index = index ∧
      ∀ k < bs.length, m.cycle.1.memory.bytes[m.index.toNat + k]? = bs[k]? := by
  have cycled := m.cycle_of_inside word read demand inside
  rw [effect, quiet] at cycled
  refine ⟨?_, by rw [cycled]; rfl, ?_⟩
  · constructor
    case runs => rw [cycled]
    case outside =>
      intro i outside
      rw [cycled]
      exact getElem?_putFrom_outside outside
    case registers =>
      intro r
      rw [cycled]
      rfl
    case rest =>
      rw [cycled]
      rfl
  · intro k within
    rw [cycled]
    exact getElem?_putFrom_inside inside within

/-- The index behind a store of the registers up to one of them. -/
def indexBehind (m : Machine) (x : Reg) : Word :=
  if m.config.dialect.storeMovesIndex then
    (m.index + BitVec.ofNat 16 (x + 1)) &&& Registers.addressMask
  else m.index

theorem indexBehind_toNat (m : Machine) (x : Reg) : (m.indexBehind x).toNat =
      if m.config.dialect.storeMovesIndex then (m.index.toNat + x + 1) % 4096
      else m.index.toNat := by
  by_cases moves : m.config.dialect.storeMovesIndex = true
  · have masked := m.registers.index_setIndex_toNat (m.index + BitVec.ofNat 16 (x + 1))
    rw [BitVec.toNat_add, BitVec.toNat_ofNat] at masked
    rw [indexBehind, if_pos moves, if_pos moves]
    refine masked.trans ?_
    omega
  · rw [indexBehind, if_neg moves, if_neg moves]

theorem ran_storeRegisters (m : Machine) (w : Word) (x : Reg) : m.ran w (.storeRegisters x) =
    { m with
      lastWord := w
      memory := ⟨putFrom m.memory.bytes m.index.toNat (m.registers.upTo x)⟩
      registers := ⟨m.registers.data, m.indexBehind x, m.counter + 2⟩ } := by
  by_cases moves : m.config.dialect.storeMovesIndex = true
  · have registers : (m.fetched w).registersAfter (.storeRegisters x) =
        (m.fetched w).registers.setIndex (m.index + BitVec.ofNat 16 (x + 1)) := if_pos moves
    rw [ran, after, registers, indexBehind, if_pos moves]
    rfl
  · have registers : (m.fetched w).registersAfter (.storeRegisters x) =
        (m.fetched w).registers := if_neg moves
    rw [ran, after, registers, indexBehind, if_neg moves]
    rfl

theorem stores_registers (word : m.memory.word m.counter.toNat = .ok w) (fits : w.Fits "FX55")
    (inside : m.index.toNat + w.x < 4096) :
    m.Stores w (w.x + 1) ∧ m.cycle.1.index = m.indexBehind w.x ∧
      ∀ r ≤ w.x, m.cycle.1.memory.bytes[m.index.toNat + r.val]? = some (m.reg r) := by
  have length := m.registers.upTo_length w.x
  have demand : m.demand (.storeRegisters w.x) = some (m.registers.upTo w.x).length := by
    rw [length, Machine.demand]
  obtain ⟨stores, index, bytes⟩ := Stores.of_bytes word (Word.ReadAs.storeRegisters.ofWord? fits)
    demand (by omega) rfl (ran_storeRegisters m w w.x)
  rw [length] at stores bytes
  refine ⟨stores, index, ?_⟩
  intro r within
  rw [bytes r (Nat.lt_succ_of_le within)]
  exact m.registers.getElem?_upTo within

theorem stores_digits (word : m.memory.word m.counter.toNat = .ok w) (fits : w.Fits "FX33")
    (inside : m.index.toNat ≤ 4093) :
    m.Stores w 3 ∧ m.cycle.1.index = m.index ∧
      ∀ k < 3, m.cycle.1.memory.bytes[m.index.toNat + k]? = (decimalDigits (m.reg w.x))[k]? := by
  have behind : m.index.toNat + (decimalDigits (m.reg w.x)).length ≤ 4096 :=
    Nat.add_le_add_right inside 3
  exact Stores.of_bytes word (Word.ReadAs.storeDecimal.ofWord? fits) rfl behind rfl rfl

theorem Restores.of_bytes {saved : Reg → Byte} (word : m.memory.word m.counter.toNat = .ok w)
    (fits : w.Fits "FX65") (inside : m.index.toNat + w.x < 4096)
    (bytes : ∀ r ≤ w.x, m.memory.bytes[m.index.toNat + r.val]? = some (saved r)) :
    m.Restores w saved := by
  have cycled := m.cycle_of_inside word (Word.ReadAs.loadRegisters.ofWord? fits) rfl inside
  have registers : m.cycle.1.reg =
      (m.registers.setFromZero (m.memory.window m.index.toNat (w.x + 1))).get := by
    rw [cycled]
    rfl
  constructor
  case runs => rw [cycled]; rfl
  case restored =>
    intro r within
    rw [registers]
    apply Registers.get_setFromZero_of_getElem?
    rw [m.memory.getElem?_window (Nat.lt_succ_of_le within)]
    exact bytes r within
  case others =>
    intro r behind
    have short : (m.memory.window m.index.toNat (w.x + 1)).length ≤ w.x + 1 :=
      List.length_take_le _ _
    rw [registers]
    exact Registers.get_setFromZero_of_length_le _ (Nat.le_trans short behind)
  case rest =>
    rw [cycled]
    rfl

end Cycles

/-- What a cycle saves, a later one restores, whatever has happened to the registers in between, as
long as the bytes and the index are there; only a store may move the index. The three bytes that
stand for a register are its decimal digits. -/
theorem saved_registers_are_restored {m : Machine} {w : Word}
    (word : m.memory.word m.counter.toNat = .ok w) :
    let a := m.index.toNat
    let bytes := m.cycle.1.memory.bytes
    (w.Fits "FX55" → a + w.x < 4096 →
      m.Stores w (w.x + 1) ∧ (∀ r ≤ w.x, bytes[a + r.val]? = some (m.reg r)) ∧
        m.cycle.1.index.toNat =
          (if m.config.dialect.storeMovesIndex then (a + w.x + 1) % 4096 else a) ∧
        ∀ (later : Machine) (v : Word), later.memory.word later.counter.toNat = .ok v →
          v.Fits "FX65" → v.x = w.x → later.index = m.index →
          (∀ r ≤ w.x, later.memory.bytes[a + r.val]? = bytes[a + r.val]?) →
            later.Restores v m.reg) ∧
    (w.Fits "FX33" → a ≤ 4093 →
      m.Stores w 3 ∧ m.cycle.1.index = m.index ∧
        ∃ hundreds tens ones : Byte, bytes[a]? = some hundreds ∧ bytes[a + 1]? = some tens ∧
          bytes[a + 2]? = some ones ∧
          hundreds.toNat < 10 ∧ tens.toNat < 10 ∧ ones.toNat < 10 ∧
          100 * hundreds.toNat + 10 * tens.toNat + ones.toNat = (m.reg w.x).toNat) := by
  intro a bytes
  constructor
  · intro fits inside
    obtain ⟨stores, index, saved⟩ := stores_registers word fits inside
    refine ⟨stores, saved, ?_, ?_⟩
    · rw [index, indexBehind_toNat]
    · intro later v laterWord loads sameX sameIndex kept
      have place : later.index.toNat = a := congrArg BitVec.toNat sameIndex
      refine Restores.of_bytes laterWord loads (by rw [place, sameX]; exact inside) ?_
      intro r within
      rw [sameX] at within
      rw [place, kept r within]
      exact saved r within
  · intro fits inside
    obtain ⟨stores, index, stored⟩ := stores_digits word fits inside
    obtain ⟨hundreds, tens, ones, digits, values⟩ := decimalDigits_spec (m.reg w.x)
    rw [digits] at stored
    exact ⟨stores, index, hundreds, tens, ones, stored 0 (by decide), stored 1 (by decide),
      stored 2 (by decide), values⟩

/-- A machine that is about to store all registers in the last bytes of memory. -/
def savingAll : Machine :=
  { holding [0xFF, 0x55, 0xFF, 0x65] with
    config := { dialect := .legacy }
    registers := { Registers.initial.set Registers.flagReg 7 with index := 0xFF0 } }

/-- A machine of the other dialect, with other registers and the index at the bytes again. -/
def restoringAll (memory : Memory) : Machine :=
  { powerOn {} (.cyclic #[0]) with
    memory := memory
    registers := { Registers.initial.set Registers.flagReg 9 with index := 0xFF0, counter := 0x202 } }

/-- A machine that is about to store the digits of 254 in the last bytes of memory. -/
def storingDigits : Machine :=
  { holding [0xFF, 0x33] with
    registers := { Registers.initial.set Registers.flagReg 254 with index := 0xFFD } }

theorem sixteen_registers_come_back :
    let saved := savingAll.cycle.1
    saved.index.toNat = 0 ∧
      (∀ r, (restoringAll saved.memory).cycle.1.reg r = savingAll.reg r) ∧
      (restoringAll saved.memory).cycle.1.index = 0xFF0 ∧
      storingDigits.Stores 0xFF33 3 := by
  intro saved
  have saveWord : savingAll.memory.word savingAll.counter.toNat = .ok 0xFF55 :=
    word_holding _ _ _
  obtain ⟨stores, -, moved, restores⟩ :=
    (saved_registers_are_restored saveWord).1 (by decide) (by decide)
  have memory : ∀ memory, (restoringAll memory).memory = memory := fun _ => rfl
  have counter : ∀ memory, (restoringAll memory).counter.toNat = 0x202 := fun _ => rfl
  have loadWord : (restoringAll saved.memory).memory.word
      (restoringAll saved.memory).counter.toNat = .ok 0xFF65 := by
    -- the store leaves the program alone
    rw [memory, counter, Memory.word_of_inside (by decide), Memory.pairAt,
      stores.outside 0x202 (by decide), stores.outside 0x203 (by decide)]
    exact congrArg Except.ok (by decide +kernel)
  have sameX : Word.x 0xFF65 = Word.x 0xFF55 := by decide
  have restored := restores (restoringAll saved.memory) 0xFF65 loadWord (by decide) sameX rfl
    fun r _ => by rw [memory]
  have digitsWord : storingDigits.memory.word storingDigits.counter.toNat = .ok 0xFF33 :=
    word_holding _ _ _
  have digits := ((saved_registers_are_restored digitsWord).2 (by decide) (by decide)).1
  refine ⟨moved, ?_, ?_, digits⟩
  · intro r
    exact restored.restored r (Nat.le_of_lt_succ r.isLt)
  · rw [restored.rest]
    rfl

end Machine
end ChipEight
