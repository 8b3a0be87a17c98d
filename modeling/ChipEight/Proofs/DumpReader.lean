import ChipEight.Proofs.DumpMemory
import ChipEight.Proofs.FaultTable

/-
  A reader for the lines of the memory listing. It goes by position: a label gives the addresses of
  the first and the last byte, and behind it stand eight numerals or the text for folded rows.
-/
namespace ChipEight

namespace Hex

theorem digitValue_digit {d : Nat} (h : d < 16) : digitValue (digit d) = some d := by
  have table : ∀ d : Fin 16, digitValue (digit d) = some d.val := by decide
  exact table ⟨d, h⟩

def read? : List Char → Option Nat
  | '0' :: 'x' :: digits => digits.foldlM (fun n c => (digitValue c).map (16 * n + ·)) 0
  | _ => none

theorem read?_chars {n : Nat} (h : n < 65536) : read? (chars n) = some n := by
  have value : ∀ k, digitValue (digit (k % 16)) = some (k % 16) := by
    intro k
    exact digitValue_digit (Nat.mod_lt k (by decide))
  rw [chars_eq h]
  simp only [read?, digits, List.nil_append, List.cons_append, List.foldlM_cons, List.foldlM_nil,
    value, Option.map_some, Option.bind_eq_bind, Option.bind_some, Option.pure_def,
    Option.some.injEq]
  omega

end Hex

namespace Dump

/-- As many words as asked for, each behind a blank, and nothing after them. -/
def readCells : Nat → Line → Option (List Word)
  | 0, line => if line = [] then some [] else none
  | count + 1, line => do
    let n ← Hex.read? ((line.drop 1).take 6)
    let words ← readCells count (line.drop 7)
    some (BitVec.ofNat 16 n :: words)

theorem readCells_numerals (words : List Word) :
    readCells words.length ((words.map fun w => Hex.chars w.toNat).flatMap (' ' :: ·)) =
      some words := by
  induction words with
  | nil => rfl
  | cons w words ih =>
    have width : (Hex.chars w.toNat).length = 6 := (IsCell.chars w.isLt).width
    have value : BitVec.ofNat 16 w.toNat = w := by rw [BitVec.ofNat_toNat, BitVec.setWidth_eq]
    rw [List.map_cons, List.flatMap_cons, List.length_cons, readCells, List.cons_append,
      List.drop_succ_cons, List.drop_zero, List.drop_succ_cons, List.take_left' width,
      List.drop_left' width, ih, Hex.read?_chars w.isLt]
    simp [value]

theorem trimmed_concat {c : Char} (visible : c ≠ ' ') (line : Line) :
    trimmed (line ++ [c]) = line ++ [c] := by
  simp [trimmed, visible]

/-- A row that ends with a numeral has no blanks to trim. -/
theorem row_numerals (first last : Nat) {words : List Word} (some : words ≠ []) :
    row first last (words.map fun w => Hex.chars w.toNat) =
      label first last ++ (words.map fun w => Hex.chars w.toNat).flatMap (' ' :: ·) := by
  obtain ⟨front, w, rfl⟩ := (List.eq_nil_or_concat words).resolve_left some
  have ends : Hex.chars w.toNat =
      '0' :: 'x' :: Hex.digits 3 (w.toNat / 16) ++ [Hex.digit (w.toNat % 16)] := by
    rw [Hex.chars_eq w.isLt]
    rfl
  have visible : Hex.digit (w.toNat % 16) ≠ ' ' := by
    intro blank
    have value := Hex.digitValue_digit (Nat.mod_lt w.toNat (by decide : 16 > 0))
    rw [blank] at value
    cases value
  rw [row, List.concat_eq_append, List.map_append, List.flatMap_append, List.map_singleton,
    List.flatMap_singleton, ends, ← List.cons_append, ← List.append_assoc, ← List.append_assoc]
  exact trimmed_concat visible _

def Span.read? (line : Line) : Option Span := do
  let first ← Hex.read? ((line.drop 2).take 6)
  let last ← Hex.read? ((line.drop 11).take 6)
  let cells := line.drop 19
  if cells = ' ' :: foldedCells then some (.zeros first last)
  else (readCells 8 cells).map (.words first last)

section Labels
variable {first last : Nat} (hf : first < 65536) (rest : Line)
include hf

theorem read?_first (last : Nat) :
    Hex.read? (((label first last ++ rest).drop 2).take 6) = some first := by
  have width : (Hex.chars first).length = 6 := (IsCell.chars hf).width
  simp only [label, indent, List.append_assoc, List.cons_append, List.nil_append,
    List.drop_succ_cons, List.drop_zero]
  rw [List.take_left' width, Hex.read?_chars hf]

theorem read?_last (hl : last < 65536) :
    Hex.read? (((label first last ++ rest).drop 11).take 6) = some last := by
  have front : (indent ++ Hex.chars first ++ " - ".toList).length = 11 := by
    simp [indent, (IsCell.chars hf).width]
  rw [label, List.append_assoc, List.append_assoc, List.drop_left' front,
    List.take_left' (IsCell.chars hl).width, Hex.read?_chars hl]

end Labels

/-- A line of the listing is read as what it was written for. -/
theorem Span.read?_line {s : Span} (fits : s.Fits) : Span.read? s.line = some s := by
  cases s with
  | zeros first last =>
    have hf : first < 65536 := fits.first
    have hl : last < 65536 := fits.last
    simp [line, Span.read?, read?_first hf, read?_last hf _ hl,
      List.drop_left' (length_label hf hl)]
  | words first last cells =>
    have hf : first < 65536 := fits.first
    have hl : last < 65536 := fits.last
    have eight : cells.length = 8 := fits.row rfl
    have some : cells ≠ [] := by
      rintro rfl
      cases eight
    have text : (words first last cells).line =
        label first last ++ (cells.map fun w => Hex.chars w.toNat).flatMap (' ' :: ·) :=
      row_numerals first last some
    have listed : (cells.map fun w => Hex.chars w.toNat).flatMap (' ' :: ·) ≠
        ' ' :: foldedCells := by
      intro same
      rw [same] at text
      exact line_words_ne_zeros fits text
    have read := readCells_numerals cells
    rw [eight] at read
    simp [text, Span.read?, read?_first hf, read?_last hf _ hl,
      List.drop_left' (length_label hf hl), listed, read]

/-- The bytes that the lines of a listing stand for. -/
def readBack (lines : List Line) : Option (List Byte) :=
  (lines.mapM Span.read?).map fun spans => bytesOf (spans.flatMap Span.contents)

end Dump
end ChipEight
