import ChipEight.Registers

/-
  The instruction set, and the reading of a word as an instruction. A word is four nibbles:
  the family, the register numbers `x` and `y`, and `n`; its last byte is `nn` and its last
  twelve bits are the address `nnn`.
-/
namespace ChipEight

/-- An address inside an instruction. -/
abbrev Address := BitVec 12

namespace Word

def family (w : Word) : Nat := (nibbleAt .unsigned w 3).toNat
def nibble (w : Word) (i : Nat) : Fin 16 :=
  ⟨(nibbleAt .unsigned w i).toNat, by
    rw [nibbleAt_unsigned_toNat]
    exact Nat.mod_lt _ (by decide)⟩
def x (w : Word) : Reg := w.nibble 2
def y (w : Word) : Reg := w.nibble 1
def n (w : Word) : Fin 16 := w.nibble 0
def nn (w : Word) : Byte := lowByte w
def nnn (w : Word) : Address := w.setWidth 12

theorem family_eq (w : Word) : w.family = w.toNat / 4096 := by
  have := w.isLt
  rw [family, nibbleAt_unsigned_toNat, Nat.shiftRight_eq_div_pow]
  omega

theorem nibble_val (w : Word) (i : Nat) : (w.nibble i).val = (w.toNat >>> (4 * i)) % 16 :=
  nibbleAt_unsigned_toNat w i

theorem x_val (w : Word) : w.x.val = w.toNat / 256 % 16 := by
  rw [x, nibble_val, Nat.shiftRight_eq_div_pow]

theorem y_val (w : Word) : w.y.val = w.toNat / 16 % 16 := by
  rw [y, nibble_val, Nat.shiftRight_eq_div_pow]

theorem n_val (w : Word) : w.n.val = w.toNat % 16 := by
  rw [n, nibble_val, Nat.mul_zero, Nat.shiftRight_zero]

theorem nn_toNat (w : Word) : w.nn.toNat = w.toNat % 256 := lowByte_toNat w

theorem nnn_toNat (w : Word) : w.nnn.toNat = w.toNat % 4096 := by
  simp [nnn]

end Word

inductive Comparison where
  | equal
  | different
  deriving DecidableEq, Repr

def Comparison.holds (c : Comparison) (a b : Byte) : Bool :=
  match c with
  | .equal => a == b
  | .different => a != b

inductive BitwiseOp where
  | or
  | and
  | xor
  deriving DecidableEq, Repr

def BitwiseOp.apply (op : BitwiseOp) (a b : Byte) : Byte :=
  match op with
  | .or => a ||| b
  | .and => a &&& b
  | .xor => a ^^^ b

/-- Which register of a subtraction is taken from which. -/
inductive Minuend where
  | x
  | y
  deriving DecidableEq, Repr

inductive Direction where
  | right
  | left
  deriving DecidableEq, Repr

inductive KeyState where
  | pressed
  | released
  deriving DecidableEq, Repr

inductive Instruction where
  | clearScreen
  | ret
  | jump (target : Address)
  | call (target : Address)
  | skipImmediate (c : Comparison) (x : Reg) (value : Byte)
  | skipRegister (c : Comparison) (x y : Reg)
  | setImmediate (x : Reg) (value : Byte)
  | addImmediate (x : Reg) (value : Byte)
  | copy (x y : Reg)
  | bitwise (op : BitwiseOp) (x y : Reg)
  | add (x y : Reg)
  | subtract (minuend : Minuend) (x y : Reg)
  | shift (towards : Direction) (x y : Reg)
  | setIndex (address : Address)
  | jumpOffset (base : Address)
  | random (x : Reg) (mask : Byte)
  | draw (x y : Reg) (rows : Fin 16)
  | skipKey (state : KeyState) (x : Reg)
  | readDelay (x : Reg)
  | awaitKey (x : Reg)
  | setDelay (x : Reg)
  | setSound (x : Reg)
  | addToIndex (x : Reg)
  | glyphAddress (x : Reg)
  | storeDecimal (x : Reg)
  | storeRegisters (x : Reg)
  | loadRegisters (x : Reg)
  deriving DecidableEq, Repr

namespace Instruction

/-- Family 8: two registers, the operation is chosen by the last nibble. -/
def decodeRegisterPair (w : Word) : Option Instruction :=
  match w.n.val with
  | 0x0 => some (.copy w.x w.y)
  | 0x1 => some (.bitwise .or w.x w.y)
  | 0x2 => some (.bitwise .and w.x w.y)
  | 0x3 => some (.bitwise .xor w.x w.y)
  | 0x4 => some (.add w.x w.y)
  | 0x5 => some (.subtract .x w.x w.y)
  | 0x6 => some (.shift .right w.x w.y)
  | 0x7 => some (.subtract .y w.x w.y)
  | 0xE => some (.shift .left w.x w.y)
  | _ => none

/-- Family F: one register, the operation is chosen by the last byte. -/
def decodeSingleRegister (w : Word) : Option Instruction :=
  match w.nn.toNat with
  | 0x07 => some (.readDelay w.x)
  | 0x0A => some (.awaitKey w.x)
  | 0x15 => some (.setDelay w.x)
  | 0x18 => some (.setSound w.x)
  | 0x1E => some (.addToIndex w.x)
  | 0x29 => some (.glyphAddress w.x)
  | 0x33 => some (.storeDecimal w.x)
  | 0x55 => some (.storeRegisters w.x)
  | 0x65 => some (.loadRegisters w.x)
  | _ => none

def ofWord? (w : Word) : Option Instruction :=
  match w.family with
  | 0x0 =>
    match w.toNat with
    | 0x00E0 => some .clearScreen
    | 0x00EE => some .ret
    | _ => none
  | 0x1 => some (.jump w.nnn)
  | 0x2 => some (.call w.nnn)
  | 0x3 => some (.skipImmediate .equal w.x w.nn)
  | 0x4 => some (.skipImmediate .different w.x w.nn)
  | 0x5 => if w.n.val = 0 then some (.skipRegister .equal w.x w.y) else none
  | 0x6 => some (.setImmediate w.x w.nn)
  | 0x7 => some (.addImmediate w.x w.nn)
  | 0x8 => decodeRegisterPair w
  | 0x9 => if w.n.val = 0 then some (.skipRegister .different w.x w.y) else none
  | 0xA => some (.setIndex w.nnn)
  | 0xB => some (.jumpOffset w.nnn)
  | 0xC => some (.random w.x w.nn)
  | 0xD => some (.draw w.x w.y w.n)
  | 0xE =>
    match w.nn.toNat with
    | 0x9E => some (.skipKey .pressed w.x)
    | 0xA1 => some (.skipKey .released w.x)
    | _ => none
  | 0xF => decodeSingleRegister w
  | _ => none

def decode (w : Word) : Except DecodeFault Instruction :=
  match ofWord? w with
  | some i => .ok i
  | none => .error (.unknownWord w)

end Instruction
end ChipEight
