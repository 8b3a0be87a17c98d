import ChipEight.CounterStep
import ChipEight.Machine.Basic

/-
  What each instruction does to the machine, how the program counter moves on, and what the
  surroundings are told. Every check comes before the first change, so an instruction that fails
  has changed nothing.
-/
namespace ChipEight

/-- What an instruction tells the surroundings of the machine. -/
inductive Signal where
  | quiet
  /-- No key was pressed, the instruction runs again. -/
  | waiting
  | redraw
  /-- A call found the stack full; it has no return address. -/
  | returnDropped
  deriving DecidableEq, Repr

namespace Machine

abbrev Outcome := Machine × Except Fault (CounterStep × Signal)

def proceed (m : Machine) : Outcome := (m, .ok (.next, .quiet))
def branch (m : Machine) (condition : Bool) : Outcome := (m, .ok (.skipIf condition, .quiet))
def jumpTo (m : Machine) (target : Word) (signal : Signal) : Outcome :=
  (m, .ok (.jump target, signal))

/-- Writes a result and then the flag, so that the flag wins where both go to one register. -/
def setWithFlag (m : Machine) (x : Reg) (result : Byte) (flag : Bool) : Machine :=
  { m with registers := (m.registers.set x result).setFlag flag }

/-- The return address is the counter, which is already past the call. On a full stack it is
dropped and the jump still happens. -/
def call (m : Machine) (target : Word) : Outcome :=
  match m.stack.push m.counter with
  | (stack, .ok _) => { m with stack := stack }.jumpTo target .quiet
  | (stack, .error _) => { m with stack := stack }.jumpTo target .returnDropped

def ret (m : Machine) : Outcome :=
  match m.stack.pop with
  | (stack, .ok address) => { m with stack := stack }.jumpTo address .quiet
  | (_, .error cause) => (m, .error (.stack cause))

/-- The flag says that the minuend is larger; it stays clear when both are equal. -/
def subtract (m : Machine) (x : Reg) (minuend subtrahend : Byte) : Machine :=
  m.setWithFlag x (minuend - subtrahend) (subtrahend < minuend)

def shift (m : Machine) (towards : Direction) (x y : Reg) : Machine :=
  let source := m.reg (if m.config.dialect.shiftReadsY then y else x)
  match towards with
  | .right => m.setWithFlag x (source >>> 1) (bitAt .unsigned source 0)
  | .left => m.setWithFlag x (source <<< 1) (bitAt .unsigned source 7)

/-- The base, in whose top nibble the register of one dialect is named, plus a register. -/
def offsetTarget (m : Machine) (base : Address) : Word :=
  let base : Word := base.setWidth 16
  let x := if m.config.dialect.jumpAddsX then base.x else ⟨0, by decide⟩
  (base + (m.reg x).setWidth 16) &&& Registers.addressMask

def setRandom (m : Machine) (x : Reg) (mask : Byte) : Machine :=
  let (byte, rest) := m.random.take
  { m with random := rest }.setReg x (mask &&& byte)

/-- Rows below the screen are not read from memory. -/
def draw (m : Machine) (x y : Reg) (rows : Nat) : Outcome :=
  let column := (m.reg x).toNat
  let row := (m.reg y).toNat
  match m.memory.slice m.index.toNat (Display.visibleRows row rows) with
  | .error cause => (m, .error (.memory cause))
  | .ok sprite =>
    let (display, collision) := m.display.draw column row sprite
    ({ m with display := display, registers := m.registers.setFlag collision },
      .ok (.next, .redraw))

def skipKeyOf (m : Machine) (x : Reg) : Byte :=
  if m.config.dialect.keyIsOperand then BitVec.ofNat 8 x else m.reg x

def awaitKey (m : Machine) (x : Reg) : Outcome :=
  match m.keypad.firstPressed with
  | some key => (m.setReg x (BitVec.ofNat 8 key)).proceed
  | none => (m, .ok (.again, .waiting))

/-- The flag is set when the sum leaves the address space; otherwise it is left alone. -/
def addToIndex (m : Machine) (x : Reg) : Machine :=
  let sum := m.index + (m.reg x).setWidth 16
  let registers := if bitAt .unsigned sum 12 then m.registers.setFlag true else m.registers
  { m with registers := registers.setIndex sum }

def glyphAddress (m : Machine) (x : Reg) : Word :=
  BitVec.ofNat 16 (Font.address + (m.reg x).toNat * Font.glyphSize)

def decimalDigits (b : Byte) : List Byte := [b / 100, b / 10 % 10, b % 10]

def storeAtIndex (m : Machine) (bs : List Byte) : Machine × Except Fault Unit :=
  match m.memory.store m.index.toNat bs with
  | .ok memory => ({ m with memory := memory }, .ok ())
  | .error cause => (m, .error (.memory cause))

def storeDecimal (m : Machine) (x : Reg) : Outcome :=
  match m.storeAtIndex (decimalDigits (m.reg x)) with
  | (m, .ok _) => m.proceed
  | (m, .error f) => (m, .error f)

def storeRegisters (m : Machine) (x : Reg) : Outcome :=
  match m.storeAtIndex (m.registers.upTo x) with
  | (m, .error f) => (m, .error f)
  | (m, .ok _) =>
    if m.config.dialect.storeMovesIndex then
      { m with
        registers := m.registers.setIndex (m.index + BitVec.ofNat 16 (x + 1)) }.proceed
    else m.proceed

def loadRegisters (m : Machine) (x : Reg) : Outcome :=
  match m.memory.slice m.index.toNat (x + 1) with
  | .error cause => (m, .error (.memory cause))
  | .ok bs => { m with registers := m.registers.setFromZero bs }.proceed

/-- Runs one instruction; the program counter is already past it. -/
def execute (m : Machine) : Instruction → Outcome
  | .clearScreen => ({ m with display := m.display.clear }, .ok (.next, .redraw))
  | .ret => m.ret
  | .jump target => m.jumpTo (target.setWidth 16) .quiet
  | .call target => m.call (target.setWidth 16)
  | .skipImmediate c x value => m.branch (c.holds (m.reg x) value)
  | .skipRegister c x y => m.branch (c.holds (m.reg x) (m.reg y))
  | .setImmediate x value => (m.setReg x value).proceed
  | .addImmediate x value => (m.setReg x (m.reg x + value)).proceed
  | .copy x y => (m.setReg x (m.reg y)).proceed
  | .bitwise op x y => (m.setReg x (op.apply (m.reg x) (m.reg y))).proceed
  | .add x y =>
    (m.setWithFlag x (m.reg x + m.reg y) ((m.reg x).uaddOverflow (m.reg y))).proceed
  | .subtract .x x y => (m.subtract x (m.reg x) (m.reg y)).proceed
  | .subtract .y x y => (m.subtract x (m.reg y) (m.reg x)).proceed
  | .shift towards x y => (m.shift towards x y).proceed
  | .setIndex address =>
    { m with registers := m.registers.setIndex (address.setWidth 16) }.proceed
  | .jumpOffset base => m.jumpTo (m.offsetTarget base) .quiet
  | .random x mask => (m.setRandom x mask).proceed
  | .draw x y rows => m.draw x y rows
  | .skipKey .pressed x => m.branch (m.keypad.isPressed (m.skipKeyOf x))
  | .skipKey .released x => m.branch (!m.keypad.isPressed (m.skipKeyOf x))
  | .readDelay x => (m.setReg x m.delay.value).proceed
  | .awaitKey x => m.awaitKey x
  | .setDelay x => { m with delay := ⟨m.reg x⟩ }.proceed
  | .setSound x => { m with sound := ⟨m.reg x⟩ }.proceed
  | .addToIndex x => (m.addToIndex x).proceed
  | .glyphAddress x => { m with registers := m.registers.setIndex (m.glyphAddress x) }.proceed
  | .storeDecimal x => m.storeDecimal x
  | .storeRegisters x => m.storeRegisters x
  | .loadRegisters x => m.loadRegisters x

end Machine
end ChipEight
