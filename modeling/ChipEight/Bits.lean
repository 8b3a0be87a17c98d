/-
  Nibbles, bytes and single bits of fixed-width words, by shifting and masking. Positions count
  from the low end. The `toNat` statements say what the pieces are as numbers.
-/
namespace ChipEight

abbrev Byte := BitVec 8
abbrev Word := BitVec 16

/-- What a shift to the right brings in from the left: zeros, or copies of the top bit. -/
inductive Signedness where
  | unsigned
  | signed
  deriving DecidableEq, Repr

variable {w : Nat}

def Signedness.shiftRight (s : Signedness) (v : BitVec w) (i : Nat) : BitVec w :=
  match s with
  | .unsigned => v >>> i
  | .signed => v.sshiftRight i

/-- The four bits from position `4 * i` on, as a word of the same width. -/
def nibbleAt (s : Signedness) (v : BitVec w) (i : Nat) : BitVec w :=
  s.shiftRight v (4 * i) &&& ~~~(BitVec.allOnes w <<< 4)

def bitAt (s : Signedness) (v : BitVec w) (i : Nat) : Bool :=
  (s.shiftRight v i &&& 1#w) == 1#w

def withBit (v : BitVec w) (i : Nat) : BitVec w := v ||| (1#w <<< i)
def withoutBit (v : BitVec w) (i : Nat) : BitVec w := v &&& ~~~(1#w <<< i)

/-- Two bytes as one word, the high byte first. -/
def joinBytes (high low : Byte) : Word := high ++ low
def lowByte (v : Word) : Byte := v.setWidth 8
def highByte (v : Word) : Byte := (v >>> 8).setWidth 8

/-- The bits of a byte from the most to the least significant one. -/
def bitsOf (b : Byte) : List Bool := List.ofFn fun i : Fin 8 => b.getLsbD (7 - i)

theorem joinBytes_toNat (high low : Byte) :
    (joinBytes high low).toNat = 256 * high.toNat + low.toNat := by
  rw [joinBytes, BitVec.toNat_append, ← Nat.shiftLeft_add_eq_or_of_lt low.isLt,
    Nat.shiftLeft_eq, Nat.mul_comm]

theorem highByte_toNat (v : Word) : (highByte v).toNat = v.toNat / 256 := by
  have := v.isLt
  simp [highByte, Nat.shiftRight_eq_div_pow]
  omega

theorem lowByte_toNat (v : Word) : (lowByte v).toNat = v.toNat % 256 := by
  simp [lowByte]

/-- Below its top nibble a word does not show how it was shifted. -/
theorem nibbleAt_unsigned_toNat (v : Word) (i : Nat) :
    (nibbleAt .unsigned v i).toNat = (v.toNat >>> (4 * i)) % 16 := by
  have mask : (~~~(BitVec.allOnes 16 <<< 4)).toNat = 15 := by decide
  rw [nibbleAt, Signedness.shiftRight, BitVec.toNat_and, mask, BitVec.toNat_ushiftRight]
  exact Nat.and_two_pow_sub_one_eq_mod _ 4

end ChipEight
