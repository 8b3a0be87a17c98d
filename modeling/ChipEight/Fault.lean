import ChipEight.Bits
import ChipEight.Hex

/-
  Why an operation of the machine can fail, and the sentence that reports it.
-/
namespace ChipEight

inductive MemoryFault where
  | programTooLarge (size capacity : Nat)
  | outsideMemory (address length : Nat)
  deriving DecidableEq, Repr

inductive StackFault where
  | full
  | empty
  deriving DecidableEq, Repr

inductive DecodeFault where
  | unknownWord (word : Word)
  deriving DecidableEq, Repr

inductive Fault where
  | decode (cause : DecodeFault)
  | stack (cause : StackFault)
  | memory (cause : MemoryFault)
  deriving DecidableEq, Repr

def MemoryFault.message : MemoryFault → String
  | .programTooLarge size capacity =>
    s!"The program is {size} bytes long, but only {capacity} bytes are available."
  | .outsideMemory address length =>
    s!"Access of {length} byte(s) at {Hex.text address} is outside of the address space."

def StackFault.message : StackFault → String
  | .full => "Stack is full!"
  | .empty => "Stack is empty!"

def DecodeFault.message : DecodeFault → String
  | .unknownWord word => s!"An unsupported opcode was used {Hex.text word.toNat}."

def Fault.cause : Fault → String
  | .decode c => c.message
  | .stack c => c.message
  | .memory c => c.message

/-- The cause, quoted, after the part of the machine that it came from. -/
def Fault.message (f : Fault) : String :=
  match f with
  | .decode _ => s!"Invalid opcode state '{f.cause}'."
  | .stack _ => s!"Invalid stack state '{f.cause}'."
  | .memory _ => s!"Invalid memory access '{f.cause}'."

end ChipEight
