import ChipEight.Memory

/-
  Memory as it is listed: rows of eight big-endian words, where neighbouring rows of zeros are
  folded into one span.
-/
namespace ChipEight.Dump

/-- The big-endian words of a run of bytes; a last odd byte is left out. -/
def wordsOf : List Byte → List Word
  | high :: low :: rest => joinBytes high low :: wordsOf rest
  | _ => []

/-- The first rows of eight cells. -/
def rowsOf {α : Type} : Nat → List α → List (List α)
  | 0, _ => []
  | count + 1, cells => cells.take 8 :: rowsOf count (cells.drop 8)

def rowSize : Nat := 16

/-- A part of the listing with the addresses of its first and last byte. -/
inductive Span where
  | words (first last : Nat) (cells : List Word)
  | zeros (first last : Nat)
  deriving DecidableEq, Repr

def Span.first : Span → Nat
  | .words first _ _ => first
  | .zeros first _ => first

def Span.last : Span → Nat
  | .words _ last _ => last
  | .zeros _ last => last

def Span.contents : Span → List Word
  | .words _ _ cells => cells
  | .zeros first last => List.replicate ((last + 1 - first) / 2) 0

def spansFrom (first : Nat) : List (List Word) → List Span
  | [] => []
  | row :: rows =>
    let last := first + rowSize - 1
    if row.all (· == 0) then
      match spansFrom (first + rowSize) rows with
      | .zeros _ last :: spans => .zeros first last :: spans
      | spans => .zeros first last :: spans
    else .words first last row :: spansFrom (first + rowSize) rows

def spansOf (m : Memory) : List Span :=
  spansFrom 0 (rowsOf (Memory.size / rowSize) (wordsOf m.bytes.toList))

end ChipEight.Dump
