import ChipEight.Proofs.FaultTable

/-
  The arithmetic of the registers, as numbers. A result goes to register `x` and then the flag to
  the last register, so that the flag is what stays where both are one register; the operands are
  read before either is written.
-/
namespace ChipEight

theorem bitAt_toNat {n : Nat} (v : BitVec (n + 1)) (i : Nat) :
    (bitAt .unsigned v i).toNat = (v.toNat >>> i) % 2 := by
  have mask : (1#(n + 1)).toNat = 1 := BitVec.toNat_one (Nat.succ_pos n)
  have bit : (v >>> i &&& 1#(n + 1)).toNat = (v.toNat >>> i) % 2 := by
    rw [BitVec.toNat_and, BitVec.toNat_ushiftRight, mask]
    exact Nat.and_one_is_mod _
  have set : bitAt .unsigned v i = decide ((v.toNat >>> i) % 2 = 1) := by
    rw [bitAt, Signedness.shiftRight, ← bit, Bool.eq_iff_iff, beq_iff_eq, decide_eq_true_eq,
      ← BitVec.toNat_inj, mask]
  rcases Nat.mod_two_eq_zero_or_one (v.toNat >>> i) with zero | one
  · rw [set, zero]
    rfl
  · rw [set, one]
    rfl

section Bytes
variable (a b : Byte)

theorem carry_toNat : (a.uaddOverflow b).toNat = (a.toNat + b.toNat) / 256 := by
  have := a.isLt
  have := b.isLt
  by_cases carries : 256 ≤ a.toNat + b.toNat
  · have : a.uaddOverflow b = true := by simp [BitVec.uaddOverflow, carries]
    rw [this, Bool.toNat_true]
    omega
  · have : a.uaddOverflow b = false := by
      simp only [BitVec.uaddOverflow, decide_eq_false_iff_not]
      omega
    rw [this, Bool.toNat_false]
    omega

theorem difference_toNat : ((a - b).toNat : Int) = ((a.toNat : Int) - b.toNat) % 256 := by
  have := a.isLt
  have := b.isLt
  rw [BitVec.toNat_sub]
  omega

theorem larger_toNat : (decide (b < a)).toNat = if a.toNat > b.toNat then 1 else 0 := by
  by_cases larger : b < a
  · rw [decide_eq_true larger, if_pos (BitVec.lt_def.mp larger), Bool.toNat_true]
  · rw [decide_eq_false larger, if_neg fun less => larger (BitVec.lt_def.mpr less),
      Bool.toNat_false]

theorem half_toNat : (a >>> 1).toNat = a.toNat / 2 := by
  rw [BitVec.toNat_ushiftRight, Nat.shiftRight_eq_div_pow]

theorem double_toNat : (a <<< 1).toNat = 2 * a.toNat % 256 := by
  rw [BitVec.toNat_shiftLeft, Nat.shiftLeft_eq]
  omega

theorem lowest_bit_toNat : (bitAt .unsigned a 0).toNat = a.toNat % 2 := by
  rw [bitAt_toNat, Nat.shiftRight_zero]

theorem highest_bit_toNat : (bitAt .unsigned a 7).toNat = a.toNat / 128 := by
  have := a.isLt
  rw [bitAt_toNat, Nat.shiftRight_eq_div_pow]
  omega

end Bytes

namespace Machine

/-- The next cycle writes a number to register `x` and then, if there is one, another number to the
flag register. Beside them only the counter and the last word change. -/
structure Computes (m : Machine) (w : Word) (result : Int) (flag : Option Nat) : Prop where
  runs : m.cycle.2 = .ok .quiet
  target : w.x ≠ Registers.flagReg ∨ flag = none → ((m.cycle.1.reg w.x).toNat : Int) = result
  last : ∀ f ∈ flag, (m.cycle.1.reg Registers.flagReg).toNat = f
  others : ∀ r, r ≠ w.x → r ≠ Registers.flagReg ∨ flag = none → m.cycle.1.reg r = m.reg r
  rest : m.cycle.1 =
    { m with
      lastWord := w
      registers := ⟨m.cycle.1.registers.data, m.index, m.counter + 2⟩ }

section Cycles
variable {m : Machine} {w : Word} {i : Instruction}

/-- An instruction that goes on to the next one leaves the machine as it has made it. -/
theorem cycle_of_proceed {after : Machine} (word : m.memory.word m.counter.toNat = .ok w)
    (read : Instruction.ofWord? w = some i) (effect : (m.fetched w).execute i = after.proceed) :
    m.cycle = (after, .ok .quiet) := by
  rw [m.cycle_of_read word read, effect]
  rfl

theorem Computes.of_setReg {b : Byte} {result : Int}
    (word : m.memory.word m.counter.toNat = .ok w) (read : Instruction.ofWord? w = some i)
    (effect : (m.fetched w).execute i = ((m.fetched w).setReg w.x b).proceed)
    (value : (b.toNat : Int) = result) : m.Computes w result none := by
  have cycled := cycle_of_proceed word read effect
  have registers : ∀ r, m.cycle.1.reg r = if w.x = r then b else m.reg r := by
    intro r
    rw [cycled]
    exact Registers.get_set _ _ _ _
  constructor
  · rw [cycled]
  · intro _
    rw [registers, if_pos rfl, value]
  · intro f none
    cases none
  · intro r other _
    rw [registers, if_neg other.symm]
  · rw [cycled]
    rfl

theorem Computes.of_setWithFlag {b : Byte} {on : Bool} {result : Int} {flag : Nat}
    (word : m.memory.word m.counter.toNat = .ok w) (read : Instruction.ofWord? w = some i)
    (effect : (m.fetched w).execute i = ((m.fetched w).setWithFlag w.x b on).proceed)
    (value : (b.toNat : Int) = result) (set : on.toNat = flag) :
    m.Computes w result (some flag) := by
  have cycled := cycle_of_proceed word read effect
  have registers : ∀ r, m.cycle.1.reg r =
      if Registers.flagReg = r then (if on then 1 else 0) else if w.x = r then b else m.reg r := by
    intro r
    rw [cycled]
    exact (Registers.get_set _ _ _ _).trans (congrArg _ (Registers.get_set _ _ _ _))
  constructor
  · rw [cycled]
  · rintro (other | none)
    · rw [registers, if_neg other.symm, if_pos rfl, value]
    · cases none
  · intro f same
    cases same
    rw [registers, if_pos rfl, ← set]
    cases on <;> rfl
  · rintro r other (apart | none)
    · rw [registers, if_neg apart.symm, if_neg other.symm]
    · cases none
  · rw [cycled]
    rfl

end Cycles

/-- The arithmetic of the registers, whichever of them are operands and targets: the flag register
may be both operands and the target at once. -/
theorem arithmetic_holds_for_every_aliasing {m : Machine} {w : Word}
    (word : m.memory.word m.counter.toNat = .ok w) :
    let vx := (m.reg w.x).toNat
    let vy := (m.reg w.y).toNat
    let s := if m.config.dialect.shiftReadsY then vy else vx
    (w.Fits "7XNN" → m.Computes w ((vx + w.nn.toNat) % 256) none) ∧
      (w.Fits "8XY0" → m.Computes w vy none) ∧
      (w.Fits "8XY1" → m.Computes w ↑(vx ||| vy) none) ∧
      (w.Fits "8XY2" → m.Computes w ↑(vx &&& vy) none) ∧
      (w.Fits "8XY3" → m.Computes w ↑(vx ^^^ vy) none) ∧
      (w.Fits "8XY4" → m.Computes w ((vx + vy) % 256) (some ((vx + vy) / 256))) ∧
      (w.Fits "8XY5" → m.Computes w ((vx - vy) % 256) (some (if vx > vy then 1 else 0))) ∧
      (w.Fits "8XY7" → m.Computes w ((vy - vx) % 256) (some (if vy > vx then 1 else 0))) ∧
      (w.Fits "8XY6" → m.Computes w (s / 2) (some (s % 2))) ∧
      (w.Fits "8XYE" → m.Computes w (2 * s % 256) (some (s / 128))) := by
  intro vx vy s
  have source : (m.reg (if m.config.dialect.shiftReadsY then w.y else w.x)).toNat = s := by
    simp only [s]
    split <;> rfl
  refine ⟨?_, ?_, ?_, ?_, ?_, ?_, ?_, ?_, ?_, ?_⟩
  · intro fits
    refine .of_setReg word (Word.ReadAs.addImmediate.ofWord? fits) rfl ?_
    exact congrArg _ (BitVec.toNat_add (m.reg w.x) w.nn)
  · intro fits
    exact .of_setReg word (Word.ReadAs.copy.ofWord? fits) rfl rfl
  · intro fits
    refine .of_setReg word (Word.ReadAs.bitwiseOr.ofWord? fits) rfl ?_
    exact congrArg _ (BitVec.toNat_or (m.reg w.x) (m.reg w.y))
  · intro fits
    refine .of_setReg word (Word.ReadAs.bitwiseAnd.ofWord? fits) rfl ?_
    exact congrArg _ (BitVec.toNat_and (m.reg w.x) (m.reg w.y))
  · intro fits
    refine .of_setReg word (Word.ReadAs.bitwiseXor.ofWord? fits) rfl ?_
    exact congrArg _ (BitVec.toNat_xor (m.reg w.x) (m.reg w.y))
  · intro fits
    refine .of_setWithFlag word (Word.ReadAs.add.ofWord? fits) rfl ?_
      (carry_toNat (m.reg w.x) (m.reg w.y))
    exact congrArg _ (BitVec.toNat_add (m.reg w.x) (m.reg w.y))
  · intro fits
    exact .of_setWithFlag word (Word.ReadAs.subtract.ofWord? fits) rfl
      (difference_toNat (m.reg w.x) (m.reg w.y)) (larger_toNat (m.reg w.x) (m.reg w.y))
  · intro fits
    exact .of_setWithFlag word (Word.ReadAs.subtractFrom.ofWord? fits) rfl
      (difference_toNat (m.reg w.y) (m.reg w.x)) (larger_toNat (m.reg w.y) (m.reg w.x))
  · intro fits
    rw [← source]
    exact .of_setWithFlag word (Word.ReadAs.shiftRight.ofWord? fits) rfl
      (congrArg _ (half_toNat _)) (lowest_bit_toNat _)
  · intro fits
    rw [← source]
    exact .of_setWithFlag word (Word.ReadAs.shiftLeft.ofWord? fits) rfl
      (congrArg _ (double_toNat _)) (highest_bit_toNat _)

/-- A machine that is about to add its flag register to itself. -/
def doublingFlag : Machine :=
  { holding [0x8F, 0xF4] with registers := Registers.initial.set Registers.flagReg 200 }

theorem doubled_flag_is_the_carry :
    doublingFlag.memory.word doublingFlag.counter.toNat = .ok 0x8FF4 ∧
      Word.Fits 0x8FF4 "8XY4" ∧ doublingFlag.cycle.2 = .ok .quiet ∧
      (doublingFlag.cycle.1.reg Registers.flagReg).toNat = 1 ∧
      ∀ r, r ≠ Registers.flagReg → doublingFlag.cycle.1.reg r = doublingFlag.reg r := by
  have word : doublingFlag.memory.word doublingFlag.counter.toNat = .ok 0x8FF4 :=
    word_holding 0x8F 0xF4 []
  have adds : Word.Fits 0x8FF4 "8XY4" := by decide
  obtain ⟨-, -, -, -, -, add, -⟩ := arithmetic_holds_for_every_aliasing word
  have carry := (add adds).last 1 rfl
  exact ⟨word, adds, (add adds).runs, carry, fun r other => (add adds).others r other (.inl other)⟩

end Machine
end ChipEight
