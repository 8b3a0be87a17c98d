import ChipEight.Proofs.BigEndian
import ChipEight.Proofs.DumpLines
import ChipEight.Proofs.DumpSpans

/-
  Memory read back from its listing. The spans of all rows have all words of the address space as
  their contents, however the rows of zeros were folded, and no two spans have the same line.
-/
namespace ChipEight

namespace Memory

def rows (m : Memory) : List (List Word) :=
  Dump.rowsOf (size / Dump.rowSize) (Dump.wordsOf m.bytes.toList)

theorem length_rows (m : Memory) : m.rows.length = 256 := Dump.length_rowsOf _ _

end Memory

namespace Dump

theorem wordsOf_inj {xs ys : List Byte} (long : xs.length = ys.length) (even : xs.length % 2 = 0)
    (same : wordsOf xs = wordsOf ys) : xs = ys := by
  have bytes := congrArg bytesOf same
  rwa [bytesOf_wordsOf even, bytesOf_wordsOf (long ▸ even)] at bytes

theorem length_wordsOf : ∀ bytes : List Byte, (wordsOf bytes).length = bytes.length / 2
  | [] => rfl
  | [odd] => by simp [wordsOf]
  | high :: low :: rest => by
    simp only [wordsOf, List.length_cons, length_wordsOf rest]
    omega

namespace Span

/-- Both addresses have a numeral of four digits, and listed words fill a row. -/
structure Fits (s : Span) : Prop where
  first : s.first < 65536
  last : s.last < 65536
  row : ∀ {first last cells}, s = .words first last cells → cells.length = 8

theorem line_words_subset {first last : Nat} {cells : List Word}
    (fits : (words first last cells).Fits) : (words first last cells).line ⊆ alphabet :=
  row_subset fits.first fits.last (.numerals (by decide) cells)

theorem line_zeros_dots (first last : Nat) : '.' ∈ (zeros first last).line :=
  List.mem_append_right _ (by decide)

theorem line_words_ne_zeros {first last first' last' : Nat} {cells : List Word}
    (fits : (words first last cells).Fits) :
    (words first last cells).line ≠ (zeros first' last').line := by
  intro same
  have dot := line_zeros_dots first' last'
  rw [← same] at dot
  exact absurd (line_words_subset fits dot) (by decide)

theorem line_inj {s t : Span} (hs : s.Fits) (ht : t.Fits) (same : s.line = t.line) : s = t := by
  cases s with
  | words first last cells =>
    cases t with
    | words first' last' cells' =>
      have parts : first = first' ∧ last = last' ∧ _ := row_inj hs.first hs.last ht.first ht.last
        (.numerals (by decide) cells) (.numerals (by decide) cells')
        (by rw [List.length_map, List.length_map, hs.row rfl, ht.row rfl]) same
      obtain ⟨rfl, rfl, texts⟩ := parts
      rw [Hex.map_chars_inj (by decide) texts]
    | zeros first' last' => exact absurd same (line_words_ne_zeros hs)
  | zeros first last =>
    cases t with
    | words first' last' cells' => exact absurd same.symm (line_words_ne_zeros ht)
    | zeros first' last' =>
      have labels := List.append_cancel_right same
      obtain ⟨rfl, rfl⟩ := label_inj hs.first hs.last ht.first ht.last labels
      rfl

theorem lines_inj {spans spans' : List Span} (hs : ∀ s ∈ spans, s.Fits)
    (ht : ∀ s ∈ spans', s.Fits) (same : spans.map line = spans'.map line) : spans = spans' := by
  induction spans generalizing spans' with
  | nil => exact (List.map_eq_nil_iff.mp same.symm).symm
  | cons s spans ih =>
    cases spans' with
    | nil => cases same
    | cons t spans' =>
      obtain ⟨here, rest⟩ := List.cons_eq_cons.mp same
      obtain ⟨fitsS, othersS⟩ := List.forall_mem_cons.mp hs
      obtain ⟨fitsT, othersT⟩ := List.forall_mem_cons.mp ht
      rw [line_inj fitsS fitsT here, ih othersS othersT rest]

end Span

/-- What is listed of rows that have addresses of four digits fits its line. -/
theorem StandsFor.fits {rows : List (List Word)} {i k : Nat} {s : Span}
    (stands : StandsFor rows i k s) (long : ∀ row ∈ rows, row.length = 8)
    (room : 16 * rows.length ≤ 65536) : s.Fits := by
  have inside := stands.inside
  have first := stands.first
  have last := stands.last
  have more := stands.lt
  refine ⟨by omega, by omega, ?_⟩
  rintro first last cells rfl
  cases stands with
  | row here nonzero => exact long cells (List.mem_of_getElem? here)

section Memory
variable (m : Memory)

theorem length_words : (wordsOf m.bytes.toList).length = 8 * (Memory.size / rowSize) := by
  rw [length_wordsOf, Vector.length_toList]
  rfl

theorem length_of_mem_rows : ∀ row ∈ m.rows, row.length = 8 :=
  length_of_mem_rowsOf (length_words m)

theorem listed_spansOf : Listed m.rows 0 (spansOf m) :=
  listed_spansFrom (length_of_mem_rows m) (Nat.zero_le _)

theorem contents_spansOf : (spansOf m).flatMap Span.contents = wordsOf m.bytes.toList := by
  rw [(listed_spansOf m).contents, List.drop_zero, Memory.rows, flatten_rowsOf (length_words m)]

theorem fits_spansOf : ∀ s ∈ spansOf m, s.Fits := by
  intro s listed
  obtain ⟨i, k, -, stands, -⟩ := (listed_spansOf m).exists_standsFor s listed
  exact stands.fits (length_of_mem_rows m) (by rw [m.length_rows]; decide)

end Memory

/-- The listing of memory leaves out none of its bytes. -/
theorem memory_inj {m m' : Memory}
    (same : (spansOf m).map Span.line = (spansOf m').map Span.line) : m = m' := by
  have spans := Span.lines_inj (fits_spansOf m) (fits_spansOf m') same
  have words : wordsOf m.bytes.toList = wordsOf m'.bytes.toList := by
    rw [← contents_spansOf, ← contents_spansOf, spans]
  have bytes : m.bytes.toList = m'.bytes.toList := by
    refine wordsOf_inj ?_ ?_ words
    · rw [Vector.length_toList, Vector.length_toList]
    · rw [Vector.length_toList]
  exact Memory.ext (Vector.toList_inj.mp bytes)

end Dump
end ChipEight
