import ChipEight.Instruction.Encoding
import ChipEight.Proofs.Checked

/-
  Which cycles fail and how, told from the word in memory alone. The instruction set is written
  as a list of patterns of four hexadecimal digits; the decoder accepts the words that fit one.
-/
namespace ChipEight

/-- A character that is no digit has no value and stands for any digit in a pattern. -/
def digitValue (c : Char) : Option Nat :=
  if '0' ≤ c ∧ c ≤ '9' then some (c.toNat - '0'.toNat)
  else if 'A' ≤ c ∧ c ≤ 'F' then some (c.toNat - 'A'.toNat + 10)
  else none

def patterns : List String :=
  ["00E0", "00EE", "1NNN", "2NNN", "3XNN", "4XNN", "5XY0", "6XNN", "7XNN", "8XY0", "8XY1",
   "8XY2", "8XY3", "8XY4", "8XY5", "8XY6", "8XY7", "8XYE", "9XY0", "ANNN", "BNNN", "CXNN",
   "DXYN", "EX9E", "EXA1", "FX07", "FX0A", "FX15", "FX18", "FX1E", "FX29", "FX33", "FX55",
   "FX65"]

namespace Word

def digits (w : Word) : List Nat := [w.family, w.x, w.y, w.n]

def Fits (w : Word) (pattern : String) : Prop :=
  ∀ cell ∈ pattern.toList.zip w.digits, digitValue cell.1 ∈ [none, some cell.2]

instance (w : Word) (pattern : String) : Decidable (w.Fits pattern) :=
  inferInstanceAs (Decidable (∀ cell ∈ pattern.toList.zip w.digits, _))

theorem digits_eq_iff {w : Word} {a b c d : Nat} :
    w.digits = [a, b, c, d] ↔ (a < 16 ∧ b < 16 ∧ c < 16 ∧ d < 16) ∧
      w.toNat = 4096 * a + 256 * b + 16 * c + d := by
  have := w.isLt
  simp only [digits, w.family_eq, w.x_val, w.y_val, w.n_val, List.cons.injEq, and_true]
  omega

theorem toNat_digits (w : Word) :
    w.toNat = 4096 * w.family + 256 * w.x + 16 * w.y + w.n := (digits_eq_iff.mp rfl).2

theorem nn_digits (w : Word) : w.nn.toNat = 16 * w.y + w.n := by
  rw [w.nn_toNat, w.y_val, w.n_val]
  omega

end Word

section Encoding
variable {family : Nat} (known : family < 16)
include known

theorem digits_wordOfAddress (nnn : Address) : (wordOfAddress family nnn).digits =
    [family, nnn.toNat / 256, nnn.toNat / 16 % 16, nnn.toNat % 16] := by
  have := nnn.isLt
  rw [Word.digits_eq_iff, wordOfAddress_toNat known]
  omega

theorem digits_wordOfByte (x : Reg) (nn : Byte) : (wordOfByte family x nn).digits =
    [family, x, nn.toNat / 16, nn.toNat % 16] := by
  have := nn.isLt
  rw [Word.digits_eq_iff, wordOfByte_toNat known]
  omega

theorem digits_wordOfNibbles {n : Nat} (short : n < 16) (x y : Reg) :
    (wordOfNibbles family x y n).digits = [family, x, y, n] := by
  rw [Word.digits_eq_iff, wordOfNibbles_toNat known short]
  omega

end Encoding

namespace Instruction

def pattern : Instruction → String
  | .clearScreen => "00E0"
  | .ret => "00EE"
  | .jump _ => "1NNN"
  | .call _ => "2NNN"
  | .skipImmediate .equal _ _ => "3XNN"
  | .skipImmediate .different _ _ => "4XNN"
  | .skipRegister .equal _ _ => "5XY0"
  | .setImmediate _ _ => "6XNN"
  | .addImmediate _ _ => "7XNN"
  | .copy _ _ => "8XY0"
  | .bitwise .or _ _ => "8XY1"
  | .bitwise .and _ _ => "8XY2"
  | .bitwise .xor _ _ => "8XY3"
  | .add _ _ => "8XY4"
  | .subtract .x _ _ => "8XY5"
  | .shift .right _ _ => "8XY6"
  | .subtract .y _ _ => "8XY7"
  | .shift .left _ _ => "8XYE"
  | .skipRegister .different _ _ => "9XY0"
  | .setIndex _ => "ANNN"
  | .jumpOffset _ => "BNNN"
  | .random _ _ => "CXNN"
  | .draw _ _ _ => "DXYN"
  | .skipKey .pressed _ => "EX9E"
  | .skipKey .released _ => "EXA1"
  | .readDelay _ => "FX07"
  | .awaitKey _ => "FX0A"
  | .setDelay _ => "FX15"
  | .setSound _ => "FX18"
  | .addToIndex _ => "FX1E"
  | .glyphAddress _ => "FX29"
  | .storeDecimal _ => "FX33"
  | .storeRegisters _ => "FX55"
  | .loadRegisters _ => "FX65"

theorem pattern_mem (i : Instruction) : i.pattern ∈ patterns := by
  cases i with
  | skipImmediate c x value => cases c <;> simp [pattern, patterns]
  | skipRegister c x y => cases c <;> simp [pattern, patterns]
  | bitwise op x y => cases op <;> simp [pattern, patterns]
  | subtract minuend x y => cases minuend <;> simp [pattern, patterns]
  | shift towards x y => cases towards <;> simp [pattern, patterns]
  | skipKey state x => cases state <;> simp [pattern, patterns]
  | _ => simp [pattern, patterns]

theorem encode_fits_pattern (i : Instruction) : i.encode.Fits i.pattern := by
  rcases i with _ | _ | _ | _ | ⟨_ | _, _, _⟩ | ⟨_ | _, _, _⟩ | _ | _ | _ |
    ⟨_ | _ | _, _, _⟩ | _ | ⟨_ | _, _, _⟩ | ⟨_ | _, _, _⟩ | _ | _ | _ | _ | ⟨_ | _, _⟩ |
    _ | _ | _ | _ | _ | _ | _ | _ | _
  case clearScreen => decide
  case ret => decide
  all_goals
    simp [encode, pattern, Word.Fits, digits_wordOfAddress, digits_wordOfByte,
      digits_wordOfNibbles, digitValue]

end Instruction

/-- The rows of the instruction set. Read by a pattern, a word is this instruction with these of its
fields. -/
inductive Word.ReadAs (w : Word) : String → Instruction → Prop
  | clearScreen : w.ReadAs "00E0" .clearScreen
  | ret : w.ReadAs "00EE" .ret
  | jump : w.ReadAs "1NNN" (.jump w.nnn)
  | call : w.ReadAs "2NNN" (.call w.nnn)
  | skipEqualImmediate : w.ReadAs "3XNN" (.skipImmediate .equal w.x w.nn)
  | skipDifferentImmediate : w.ReadAs "4XNN" (.skipImmediate .different w.x w.nn)
  | skipEqualRegister : w.ReadAs "5XY0" (.skipRegister .equal w.x w.y)
  | setImmediate : w.ReadAs "6XNN" (.setImmediate w.x w.nn)
  | addImmediate : w.ReadAs "7XNN" (.addImmediate w.x w.nn)
  | copy : w.ReadAs "8XY0" (.copy w.x w.y)
  | bitwiseOr : w.ReadAs "8XY1" (.bitwise .or w.x w.y)
  | bitwiseAnd : w.ReadAs "8XY2" (.bitwise .and w.x w.y)
  | bitwiseXor : w.ReadAs "8XY3" (.bitwise .xor w.x w.y)
  | add : w.ReadAs "8XY4" (.add w.x w.y)
  | subtract : w.ReadAs "8XY5" (.subtract .x w.x w.y)
  | shiftRight : w.ReadAs "8XY6" (.shift .right w.x w.y)
  | subtractFrom : w.ReadAs "8XY7" (.subtract .y w.x w.y)
  | shiftLeft : w.ReadAs "8XYE" (.shift .left w.x w.y)
  | skipDifferentRegister : w.ReadAs "9XY0" (.skipRegister .different w.x w.y)
  | setIndex : w.ReadAs "ANNN" (.setIndex w.nnn)
  | jumpOffset : w.ReadAs "BNNN" (.jumpOffset w.nnn)
  | random : w.ReadAs "CXNN" (.random w.x w.nn)
  | draw : w.ReadAs "DXYN" (.draw w.x w.y w.n)
  | skipPressed : w.ReadAs "EX9E" (.skipKey .pressed w.x)
  | skipReleased : w.ReadAs "EXA1" (.skipKey .released w.x)
  | readDelay : w.ReadAs "FX07" (.readDelay w.x)
  | awaitKey : w.ReadAs "FX0A" (.awaitKey w.x)
  | setDelay : w.ReadAs "FX15" (.setDelay w.x)
  | setSound : w.ReadAs "FX18" (.setSound w.x)
  | addToIndex : w.ReadAs "FX1E" (.addToIndex w.x)
  | glyphAddress : w.ReadAs "FX29" (.glyphAddress w.x)
  | storeDecimal : w.ReadAs "FX33" (.storeDecimal w.x)
  | storeRegisters : w.ReadAs "FX55" (.storeRegisters w.x)
  | loadRegisters : w.ReadAs "FX65" (.loadRegisters w.x)

namespace Word.ReadAs
variable {w : Word} {p : String} {i : Instruction}

theorem pattern (row : w.ReadAs p i) : i.pattern = p := by
  cases row <;> rfl

theorem ofWord? (row : w.ReadAs p i) (fits : w.Fits p) : Instruction.ofWord? w = some i := by
  have word := w.toNat_digits
  have nn := w.nn_digits
  cases row
  all_goals
    simp [Word.Fits, Word.digits, digitValue] at fits
    simp [Instruction.ofWord?, Instruction.decodeRegisterPair, Instruction.decodeSingleRegister,
      word, nn, ← fits]

theorem of_mem (w : Word) (listed : p ∈ patterns) : ∃ i, w.ReadAs p i := by
  simp only [patterns, List.mem_cons, List.not_mem_nil, or_false] at listed
  rcases listed with rfl | rfl | rfl | rfl | rfl | rfl | rfl | rfl | rfl | rfl | rfl | rfl | rfl |
    rfl | rfl | rfl | rfl | rfl | rfl | rfl | rfl | rfl | rfl | rfl | rfl | rfl | rfl | rfl | rfl |
    rfl | rfl | rfl | rfl | rfl
  all_goals exact ⟨_, by constructor⟩

end Word.ReadAs

namespace Instruction

theorem ofWord?_of_fits {w : Word} {p : String} (listed : p ∈ patterns) (fits : w.Fits p) :
    ∃ i, ofWord? w = some i ∧ i.pattern = p := by
  obtain ⟨i, row⟩ := Word.ReadAs.of_mem w listed
  exact ⟨i, row.ofWord? fits, row.pattern⟩

theorem fits_iff {w : Word} {p : String} (listed : p ∈ patterns) :
    w.Fits p ↔ ∃ i, ofWord? w = some i ∧ i.pattern = p := by
  constructor
  · exact ofWord?_of_fits listed
  · rintro ⟨i, read, rfl⟩
    rw [ofWord?_eq_some_iff] at read
    rw [read]
    exact i.encode_fits_pattern

/-- A word is read by the one pattern that it fits. -/
theorem readAs {w : Word} {i : Instruction} (read : ofWord? w = some i) :
    ∃ p, w.ReadAs p i ∧ w.Fits p ∧ ∀ q ∈ patterns, w.Fits q ↔ p = q := by
  have only : ∀ q ∈ patterns, w.Fits q ↔ i.pattern = q := by
    intro q listed
    rw [fits_iff listed, read]
    simp
  have fits := (only i.pattern i.pattern_mem).mpr rfl
  -- the row of the pattern is the one of the instruction, since the decoder gives only one
  obtain ⟨j, row⟩ := Word.ReadAs.of_mem w i.pattern_mem
  have same : some i = some j := read.symm.trans (row.ofWord? fits)
  rw [← Option.some.inj same] at row
  exact ⟨i.pattern, row, fits, only⟩

end Instruction

/-- The byte at an address and the one after it, as one word. -/
def Memory.pairAt (m : Memory) (address : Nat) : Word :=
  joinBytes (m.bytes[address]?.getD 0) (m.bytes[address + 1]?.getD 0)

theorem Memory.word_of_inside {m : Memory} {address : Nat} (inside : address + 1 < 4096) :
    m.word address = .ok (m.pairAt address) := by
  have here : address < 4096 := by omega
  simp [word_eq, pairAt, inside, here]

namespace Machine
variable (m : Machine)

/-- The word that the next cycle fetches, if there is one. -/
def nextWord : Word := m.memory.pairAt m.counter.toNat

/-- A cycle that succeeds has run the instruction of the word at the counter. -/
theorem runs_nextWord {m : Machine} {signal : Signal} (done : m.cycle.2 = .ok signal) :
    m.counter.toNat + 1 < 4096 ∧ ∃ i, Instruction.ofWord? m.nextWord = some i ∧
      m.cycle.1 = m.ran m.nextWord i ∧ signal = (m.fetched m.nextWord).signalOf i := by
  rcases m.cycle_cases with ⟨f, -, failed⟩ | ⟨w, i, word, read, -, -, ran⟩
  · rw [failed] at done
    cases done
  · have inside := Memory.inside_of_word word
    have fetched : m.nextWord = w := by
      rw [Memory.word_of_inside inside] at word
      exact Except.ok.inj word
    rw [ran] at done
    rw [fetched, ran]
    exact ⟨inside, i, read, rfl, (Except.ok.inj done).symm⟩

/-- How many bytes from the index register on the instruction of a word reads or writes. -/
def reach (w : Word) : Option Nat :=
  if w.Fits "DXYN" then some (min w.n (32 - (m.reg w.y).toNat % 32))
  else if w.Fits "FX33" then some 3
  else if w.Fits "FX55" ∨ w.Fits "FX65" then some (w.x + 1)
  else none

/-- The first check of the next cycle that fails, in the order in which they are made. -/
def firstFault : Option Fault :=
  let counter := m.counter.toNat
  if 0xFFF ≤ counter then some (.memory (.outsideMemory counter 2))
  else
    let w := m.memory.pairAt counter
    if ¬ ∃ p ∈ patterns, w.Fits p then some (.decode (.unknownWord w))
    else if w = 0x00EE ∧ m.stack.depth = 0 then some (.stack .empty)
    else match m.reach w with
      | some length =>
        if 4096 < m.index.toNat + length then
          some (.memory (.outsideMemory m.index.toNat length))
        else none
      | none => none

theorem reach_eq_demand {w : Word} {i : Instruction} (read : Instruction.ofWord? w = some i) :
    m.reach w = m.demand i := by
  obtain ⟨p, row, -, fits⟩ := Instruction.readAs read
  simp only [reach, fits "DXYN" (by simp [patterns]), fits "FX33" (by simp [patterns]),
    fits "FX55" (by simp [patterns]), fits "FX65" (by simp [patterns])]
  cases row with
  | draw => simp [demand, Display.visibleRows, Display.height]
  | _ => simp [demand]

theorem exists_fits_iff {w : Word} :
    (∃ p ∈ patterns, w.Fits p) ↔ ∃ i, Instruction.ofWord? w = some i := by
  constructor
  · rintro ⟨p, listed, fits⟩
    obtain ⟨i, read, -⟩ := Instruction.ofWord?_of_fits listed fits
    exact ⟨i, read⟩
  · rintro ⟨i, read⟩
    exact ⟨i.pattern, i.pattern_mem, (Instruction.fits_iff i.pattern_mem).mpr ⟨i, read, rfl⟩⟩

theorem firstFault_eq : m.firstFault = m.cycleRefusal := by
  unfold firstFault cycleRefusal
  by_cases outside : 0xFFF ≤ m.counter.toNat
  · rw [if_pos outside, Memory.word_eq, dif_neg (by omega)]
    rfl
  · rw [if_neg outside, Memory.word_of_inside (by omega)]
    generalize m.memory.pairAt m.counter.toNat = w
    cases read : Instruction.ofWord? w with
    | none =>
      have unknown : ¬ ∃ p ∈ patterns, w.Fits p := by
        rw [exists_fits_iff, read]
        rintro ⟨i, h⟩
        cases h
      simp only [wordRefusal, read]
      rw [if_pos unknown]
    | some i =>
      have known : ∃ p ∈ patterns, w.Fits p := exists_fits_iff.mpr ⟨i, read⟩
      have isReturn : w = 0x00EE ↔ i = .ret := by
        have encoded := Instruction.ofWord?_eq_some_iff (w := w) (i := .ret)
        rw [read, Option.some.injEq] at encoded
        exact encoded.symm
      simp only [wordRefusal, read, refusal, m.reach_eq_demand read]
      rw [if_neg fun unknown => unknown known]
      by_cases empty : i = .ret ∧ m.stack.depth = 0
      · rw [if_pos empty, if_pos ⟨isReturn.mpr empty.1, empty.2⟩]
      · rw [if_neg empty, if_neg fun h => empty ⟨isReturn.mp h.1, h.2⟩]
        cases m.demand i with
        | none => rfl
        | some length =>
          by_cases inside : m.index.toNat + length ≤ 4096
          · simp only [if_pos inside, if_neg (Nat.not_lt.mpr inside)]
          · simp only [if_neg inside, if_pos (Nat.not_le.mp inside)]

theorem firstFault_kinds {f : Fault} (h : m.firstFault = some f) :
    (∃ address length, f = .memory (.outsideMemory address length)) ∨
      (∃ w, f = .decode (.unknownWord w)) ∨ f = .stack .empty := by
  simp only [firstFault] at h
  split at h
  · cases h
    exact .inl ⟨_, _, rfl⟩
  · split at h
    · cases h
      exact .inr (.inl ⟨_, rfl⟩)
    · split at h
      · cases h
        exact .inr (.inr rfl)
      · split at h
        · split at h
          · cases h
            exact .inl ⟨_, _, rfl⟩
          · cases h
        · cases h

theorem cycle_fails_iff (f : Fault) : m.cycle.2 = .error f ↔ m.firstFault = some f := by
  rw [firstFault_eq]
  exact m.cycle_error_iff f

/-- A cycle fails exactly as the table says, whatever the counter, the memory and the stack are.
With the index register inside the address space nothing else goes wrong: no access is out of
range, and the faults of other operations do not arise. -/
theorem cycle_fails_by_table (m : Machine) (inside : m.index.toNat ≤ 0xFFF) :
    (∀ f, m.cycle.2 = .error f ↔ m.firstFault = some f) ∧
      ((∃ signal, m.cycle.2 = .ok signal) ↔ m.firstFault = none) ∧
      m.cycle.2 ≠ .error (.stack .full) ∧
      (∀ size capacity, m.cycle.2 ≠ .error (.memory (.programTooLarge size capacity))) ∧
      Checked.cycle m = some m.cycle := by
  refine ⟨m.cycle_fails_iff, ?_, ?_, ?_, Checked.cycle_eq inside⟩
  · rw [firstFault_eq]
    rcases m.cycle_cases with ⟨f, refused, done⟩ | ⟨w, i, -, -, -, granted, done⟩
    · simp [refused, done]
    · simp [granted, done]
  · intro full
    have := m.firstFault_kinds ((m.cycle_fails_iff _).mp full)
    simp at this
  · intro size capacity tooLarge
    have := m.firstFault_kinds ((m.cycle_fails_iff _).mp tooLarge)
    simp at this

/-- Fifteen rows do not fit into the six bytes from 0xFFA on. -/
theorem tall_sprite_fails_by_table :
    (uniform 0xDF 0xFFA).index.toNat ≤ 0xFFF ∧
      (uniform 0xDF 0xFFA).cycle.2 = .error (.memory (.outsideMemory 0xFFA 15)) ∧
      Checked.cycle (uniform 0xDF 0xFFA) = some (uniform 0xDF 0xFFA).cycle := by
  have inside : (uniform 0xDF 0xFFA).index.toNat ≤ 0xFFF := by decide
  have fault : (uniform 0xDF 0xFFA).firstFault = some (.memory (.outsideMemory 0xFFA 15)) := by
    rw [firstFault_eq, cycleRefusal, word_uniform _ _ (by decide)]
    decide
  obtain ⟨fails, -, -, -, checked⟩ := cycle_fails_by_table _ inside
  exact ⟨inside, (fails _).mpr fault, checked⟩

end Machine
end ChipEight
