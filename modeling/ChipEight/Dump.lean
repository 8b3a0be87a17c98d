import ChipEight.Dump.Span
import ChipEight.Machine.Basic

/-
  The state of the machine as text, one titled section for each component. Sixteen entries make
  two rows of eight cells; every row is labelled with the first and the last index it covers.
-/
namespace ChipEight

namespace Dump

abbrev Line := List Char

def indent : Line := ['\t', '\t']

/-- Without the blanks at its end. -/
def trimmed (line : Line) : Line := (line.reverse.dropWhile (· == ' ')).reverse

def label (first last : Nat) : Line :=
  indent ++ Hex.chars first ++ " - ".toList ++ Hex.chars last ++ " :".toList

def row (first last : Nat) (cells : List Line) : Line :=
  trimmed (label first last ++ cells.flatMap (' ' :: ·))

def table (cells : List Line) : List Line :=
  [row 0 7 (cells.take 8), row 8 15 (cells.drop 8)]

/-- Stands for the eight cells of a row of zeros and is as wide. -/
def foldedCells : Line :=
  let gap := List.replicate 20 ' '
  Hex.chars 0 ++ gap ++ "...".toList ++ gap ++ Hex.chars 0

def Span.line : Span → Line
  | .words first last cells => row first last (cells.map fun w => Hex.chars w.toNat)
  | .zeros first last => label first last ++ ' ' :: foldedCells

def keyCell (pressed : Bool) : Line := if pressed then "true  ".toList else "false ".toList

def title (name : String) : Line := '\t' :: name.toList ++ " :".toList

def single (name : String) (value : Nat) : List Line := [title name, indent ++ Hex.chars value]

/-- The return addresses, oldest first, with zeros in the unused places. -/
def stackCells (s : CallStack) : List Word :=
  s.entries ++ List.replicate (CallStack.capacity - s.depth) 0

def lines (m : Machine) : List Line :=
  ["Chipset \x7b".toList, title "Program Name", indent ++ m.name.toList] ++
  single "Opcode" m.lastWord.toNat ++
  single "Program Counter" m.counter.toNat ++
  single "Index Register" m.index.toNat ++
  single "Delay Timer" m.delay.value.toNat ++
  single "Sound Timer" m.sound.value.toNat ++
  title "Memory" :: (spansOf m.memory).map Span.line ++
  title "Keyboard" :: table (m.keypad.keys.toList.map keyCell) ++
  title "Stack" :: table ((stackCells m.stack).map fun w => Hex.chars w.toNat) ++
  title "Register" :: table (m.registers.data.toList.map fun b => Hex.chars b.toNat) ++
  ["\x7d".toList]

/-- Lines one below the other; the last one is not closed. -/
def joined : List Line → List Char
  | [] => []
  | [line] => line
  | line :: more => line ++ '\n' :: joined more

end Dump

def Machine.dump (m : Machine) : String := String.ofList (Dump.joined (Dump.lines m))

end ChipEight
