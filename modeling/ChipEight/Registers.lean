import ChipEight.Memory

/-
  The sixteen data registers, the index register and the program counter. The last data
  register doubles as the flag of additions, subtractions, shifts and drawing.
-/
namespace ChipEight

abbrev Reg := Fin 16

@[ext] structure Registers where
  data : Vector Byte 16
  index : Word
  counter : Word
  deriving DecidableEq

namespace Registers

def flagReg : Reg := ⟨15, by decide⟩
/-- The bits of an address that the index register keeps. -/
def addressMask : Word := 0x0FFF

def initial : Registers :=
  ⟨Vector.replicate 16 0, 0, BitVec.ofNat 16 Memory.programStart⟩

def get (r : Registers) (x : Reg) : Byte := r.data[x]
def set (r : Registers) (x : Reg) (b : Byte) : Registers := { r with data := r.data.set x b }
def flag (r : Registers) : Byte := r.get flagReg
def setFlag (r : Registers) (on : Bool) : Registers := r.set flagReg (if on then 1 else 0)
def setIndex (r : Registers) (address : Word) : Registers :=
  { r with index := address &&& addressMask }
def setCounter (r : Registers) (address : Word) : Registers := { r with counter := address }

/-- Register `0` up to and including register `x`, in order. -/
def upTo (r : Registers) (x : Reg) : List Byte := r.data.toList.take (x + 1)

/-- Overwrites as many registers from `0` on as there are bytes. -/
def setFromZero (r : Registers) (bs : List Byte) : Registers :=
  { r with data := putFrom r.data 0 bs }

@[simp] theorem get_set (r : Registers) (x y : Reg) (b : Byte) :
    (r.set x b).get y = if x = y then b else r.get y := by
  simp [get, set, Vector.getElem_set, Fin.ext_iff]

@[simp] theorem index_set (r : Registers) (x : Reg) (b : Byte) :
    (r.set x b).index = r.index := rfl

@[simp] theorem counter_set (r : Registers) (x : Reg) (b : Byte) :
    (r.set x b).counter = r.counter := rfl

theorem index_setIndex_toNat (r : Registers) (address : Word) :
    (r.setIndex address).index.toNat = address.toNat % 4096 := by
  rw [setIndex, BitVec.toNat_and]
  exact Nat.and_two_pow_sub_one_eq_mod _ 12

theorem upTo_length (r : Registers) (x : Reg) : (r.upTo x).length = x + 1 := by
  have := x.isLt
  rw [upTo, List.length_take, Vector.length_toList]
  omega

end Registers
end ChipEight
