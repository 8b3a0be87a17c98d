import Mathlib.Data.List.Nodup
import ChipEight.Proofs.DumpReader
import ChipEight.Proofs.DumpSpans

/-
  What the listing of memory says about the bytes. Rows and runs of rows are told from the memory
  itself, and the lines from a reader, so that the two meet in the spans.
-/
namespace ChipEight

namespace Memory
variable (m : Memory)

/-- All sixteen bytes of a row are there and zero; behind the memory there is no such row. -/
def ZeroRow (k : Nat) : Prop := ∀ i < 16, m.bytes[16 * k + i]? = some 0

/-- The eight big-endian words of a row. -/
def rowWords (k : Nat) : List Word := (List.range 8).map fun i => m.pairAt (16 * k + 2 * i)

theorem paddedWord_bytes (k : Nat) : paddedWord m.bytes.toList k = m.pairAt (2 * k) := by
  rw [paddedWord, pairAt, Vector.getElem?_toList, Vector.getElem?_toList]

theorem getElem?_rows {k : Nat} (inside : k < 256) : m.rows[k]? = some (m.rowWords k) := by
  have count : k < size / Dump.rowSize := inside
  rw [rows, Dump.getElem?_rowsOf _ count]
  congr 1
  apply List.ext_getElem?
  intro i
  rw [List.getElem?_take, List.getElem?_drop, rowWords, List.getElem?_map]
  by_cases column : i < 8
  · have last : 2 * (8 * k + i) + 1 < m.bytes.toList.length := by
      rw [Vector.length_toList]
      omega
    have place : 2 * (8 * k + i) = 16 * k + 2 * i := by omega
    rw [if_pos column, getElem?_wordsOf _ _ last, paddedWord_bytes, place,
      List.getElem?_range column, Option.map_some]
  · rw [if_neg column, List.getElem?_eq_none (by rw [List.length_range]; omega), Option.map_none]

theorem pairAt_eq_zero_iff {a : Nat} (inside : a + 1 < 4096) :
    m.pairAt a = 0 ↔ m.bytes[a]? = some 0 ∧ m.bytes[a + 1]? = some 0 := by
  have here : a < 4096 := by omega
  have high := highByte_joinBytes m.bytes[a] m.bytes[a + 1]
  have low := lowByte_joinBytes m.bytes[a] m.bytes[a + 1]
  rw [pairAt, Vector.getElem?_eq_getElem here, Vector.getElem?_eq_getElem inside, Option.getD_some,
    Option.getD_some, Option.some.injEq, Option.some.injEq]
  constructor
  · intro zero
    rw [zero] at high low
    exact ⟨high.symm, low.symm⟩
  · rintro ⟨first, second⟩
    rw [first, second]
    rfl

theorem rowWords_eq_zeroRow_iff {k : Nat} (inside : k < 256) :
    m.rowWords k = Dump.zeroRow ↔ m.ZeroRow k := by
  have words : m.rowWords k = Dump.zeroRow ↔ ∀ i < 8, m.pairAt (16 * k + 2 * i) = 0 := by
    rw [rowWords, Dump.zeroRow, List.eq_replicate_iff]
    simp
  rw [words]
  constructor
  · intro zero i column
    have pair := (m.pairAt_eq_zero_iff (by omega)).mp (zero (i / 2) (by omega))
    rcases Nat.mod_two_eq_zero_or_one i with even | odd
    · have place : 16 * k + i = 16 * k + 2 * (i / 2) := by omega
      rw [place]
      exact pair.1
    · have place : 16 * k + i = 16 * k + 2 * (i / 2) + 1 := by omega
      rw [place]
      exact pair.2
  · intro zero i column
    exact (m.pairAt_eq_zero_iff (by omega)).mpr
      ⟨zero (2 * i) (by omega), zero (2 * i + 1) (by omega)⟩

theorem rows_zero_iff (k : Nat) : m.rows[k]? = some Dump.zeroRow ↔ m.ZeroRow k := by
  by_cases inside : k < 256
  · rw [m.getElem?_rows inside, Option.some.injEq, m.rowWords_eq_zeroRow_iff inside]
  · have none : m.rows[k]? = none := List.getElem?_eq_none (by rw [length_rows]; omega)
    have behind : m.bytes[16 * k + 0]? = .none := Vector.getElem?_eq_none (by omega)
    rw [none]
    constructor
    · exact nofun
    · intro zero
      have byte := zero 0 (by decide)
      rw [behind] at byte
      cases byte

end Memory

namespace Dump

/-- What the lines of a listing say, once they have been read: where they begin and end, that
nothing lies between two of them, which rows and which runs of rows they are for, and that none is
there twice. -/
structure Describes (lines : List Line) (spans : List Span) (m : Memory) : Prop where
  read : lines.mapM Span.read? = some spans
  starts : spans.head?.map Span.first = some 0
  stops : spans.getLast?.map Span.last = some 0xFFF
  ascending : ∀ s ∈ spans, s.first < s.last
  contiguous : spans.IsChain fun s t => t.first = s.last + 1
  rows : ∀ first last cells, .words first last cells ∈ spans ↔
    ∃ k < 256, ¬ m.ZeroRow k ∧ first = 16 * k ∧ last = 16 * k + 15 ∧ cells = m.rowWords k
  runs : ∀ first last, .zeros first last ∈ spans ↔
    ∃ j k, LongestRun m.ZeroRow j k ∧ first = 16 * j ∧ last + 1 = 16 * k
  apart : spans.IsChain fun s t => ¬ (s.IsFolded ∧ t.IsFolded)
  once : lines.Nodup

section Memory
variable (m : Memory)

theorem mapM_read? {spans : List Span} (fits : ∀ s ∈ spans, s.Fits) :
    (spans.map Span.line).mapM Span.read? = some spans := by
  induction spans with
  | nil => rfl
  | cons s spans ih =>
    obtain ⟨here, others⟩ := List.forall_mem_cons.mp fits
    rw [List.map_cons, List.mapM_cons, Span.read?_line here, ih others]
    rfl

theorem rows_spansOf (first last : Nat) (cells : List Word) :
    .words first last cells ∈ spansOf m ↔
      ∃ k < 256, ¬ m.ZeroRow k ∧ first = 16 * k ∧ last = 16 * k + 15 ∧ cells = m.rowWords k := by
  rw [(listed_spansOf m).words_mem_iff]
  constructor
  · rintro ⟨k, here, nonzero, places⟩
    have inside : k < 256 := by
      rw [← m.length_rows]
      exact (List.getElem?_eq_some_iff.mp here).1
    rw [m.getElem?_rows inside, Option.some.injEq] at here
    rw [← here, Ne, m.rowWords_eq_zeroRow_iff inside] at nonzero
    exact ⟨k, inside, nonzero, places.1, places.2, here.symm⟩
  · rintro ⟨k, inside, nonzero, first, last, rfl⟩
    rw [← m.rowWords_eq_zeroRow_iff inside] at nonzero
    exact ⟨k, m.getElem?_rows inside, nonzero, first, last⟩

theorem runs_spansOf (first last : Nat) :
    .zeros first last ∈ spansOf m ↔
      ∃ j k, LongestRun m.ZeroRow j k ∧ first = 16 * j ∧ last + 1 = 16 * k := by
  have zero : (fun r => m.rows[r]? = some zeroRow) = m.ZeroRow := by
    funext r
    exact propext (m.rows_zero_iff r)
  rw [(listed_spansOf m).zeros_mem_iff, zero]

theorem starts_spansOf : (spansOf m).head?.map Span.first = some 0 := by
  have listed := listed_spansOf m
  cases spans : spansOf m with
  | nil =>
    rw [spans] at listed
    cases listed with
    | done stop =>
      rw [m.length_rows] at stop
      cases stop
  | cons s rest =>
    rw [spans] at listed
    cases listed with
    | cons first _ => exact congrArg some first.first

theorem stops_spansOf : (spansOf m).getLast?.map Span.last = some 0xFFF := by
  have stop := (listed_spansOf m).ends_with_rows
  rw [m.length_rows] at stop
  cases last : (spansOf m).getLast? with
  | none =>
    rw [last] at stop
    cases stop
  | some s =>
    rw [last] at stop
    exact congrArg some (Nat.succ.inj stop)

end Memory

/-- The listing of any memory covers it from its first to its last byte, with a line for each row
that is not of zeros and one for each longest run of rows of zeros, and the bytes can be read back
from the lines. A single pass with one open span writes the same lines. -/
theorem memory_is_listed_in_full (m : Memory) :
    let lines := (spansOf m).map Span.line
    Describes lines (spansOf m) m ∧ readBack lines = some m.bytes.toList ∧
      (onePass 0 none m.rows).map Span.line = lines := by
  intro lines
  have listed := listed_spansOf m
  have read : lines.mapM Span.read? = some (spansOf m) := mapM_read? (fits_spansOf m)
  refine ⟨⟨read, starts_spansOf m, stops_spansOf m, listed.first_lt_last, listed.contiguous,
    rows_spansOf m, runs_spansOf m, listed.apart, ?_⟩, ?_, ?_⟩
  · refine List.Nodup.map_on ?_ listed.nodup
    intro s here t there same
    exact Span.line_inj (fits_spansOf m s here) (fits_spansOf m t there) same
  · rw [readBack, read, Option.map_some, contents_spansOf, bytesOf_wordsOf]
    rw [Vector.length_toList]
  · rw [(onePass_eq m.rows 0).1]
    rfl

end Dump
end ChipEight
