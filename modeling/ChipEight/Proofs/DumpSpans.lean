import Mathlib.Data.List.Chain
import ChipEight.Dump.Span

/-
  How rows are folded. The spans of a listing lie one behind the other; a row that is not of zeros
  has a span of its own, and a longest run of rows of zeros has one, wherever the run begins and
  however long it is. So the words of the spans are those of the rows. One pass over the rows that
  keeps an open span writes the same spans.
-/
namespace ChipEight

/-- The longest run of numbers with a property that goes from `j` up to but not including `k`. -/
structure LongestRun (p : Nat → Prop) (j k : Nat) : Prop where
  some : j < k
  within : ∀ r, j ≤ r → r < k → p r
  begins : ∀ r, r + 1 = j → ¬ p r
  ends : ¬ p k

namespace LongestRun
variable {p : Nat → Prop} {j k : Nat}

theorem first (run : LongestRun p j k) : p j := run.within j (Nat.le_refl j) run.some

/-- A run begins where the numbers before it have the property up to some place that it reaches. -/
theorem begin_unique {i : Nat} (run : LongestRun p j k) (late : i ≤ j)
    (before : ∀ r, i ≤ r → r < j → p r) : j = i := by
  by_contra other
  have last : j - 1 + 1 = j := by omega
  exact run.begins (j - 1) last (before (j - 1) (by omega) (by omega))

theorem end_unique {k' : Nat} (run : LongestRun p j k) (within : ∀ r, j ≤ r → r < k' → p r)
    (ends : ¬ p k') (late : j ≤ k') : k = k' := by
  have := run.some
  by_contra other
  by_cases shorter : k < k'
  · exact run.ends (within k (by omega) shorter)
  · exact ends (run.within k' late (by omega))

end LongestRun

namespace Dump

section Rows
variable {α : Type} {count : Nat} {cells : List α}

theorem length_rowsOf (count : Nat) (cells : List α) : (rowsOf count cells).length = count := by
  induction count generalizing cells with
  | zero => rfl
  | succ count ih => rw [rowsOf, List.length_cons, ih]

theorem flatten_rowsOf (full : cells.length = 8 * count) :
    (rowsOf count cells).flatten = cells := by
  induction count generalizing cells with
  | zero => exact (List.length_eq_zero_iff.mp full).symm
  | succ count ih =>
    rw [rowsOf, List.flatten_cons, ih (by rw [List.length_drop]; omega), List.take_append_drop]

theorem length_of_mem_rowsOf (full : cells.length = 8 * count) :
    ∀ row ∈ rowsOf count cells, row.length = 8 := by
  induction count generalizing cells with
  | zero => exact nofun
  | succ count ih =>
    refine List.forall_mem_cons.mpr ⟨?_, ih (by rw [List.length_drop]; omega)⟩
    rw [List.length_take]
    omega

theorem getElem?_rowsOf {r : Nat} (cells : List α) (inside : r < count) :
    (rowsOf count cells)[r]? = some ((cells.drop (8 * r)).take 8) := by
  induction count generalizing cells r with
  | zero => omega
  | succ count ih =>
    cases r with
    | zero => rfl
    | succ r =>
      have skipped : 8 * (r + 1) = 8 + 8 * r := by omega
      rw [rowsOf, List.getElem?_cons_succ, ih _ (by omega), List.drop_drop, skipped]

end Rows

def zeroRow : List Word := List.replicate 8 0

theorem eq_zeroRow {row : List Word} (long : row.length = 8) (zero : row.all (· == 0) = true) :
    row = zeroRow := by
  rw [List.all_eq_true] at zero
  exact List.eq_replicate_iff.mpr ⟨long, fun w mem => by simpa using zero w mem⟩

/-- Puts a folded span in front, or folds it into the one that is there. -/
def foldInto (first last : Nat) : List Span → List Span
  | .zeros _ last :: spans => .zeros first last :: spans
  | spans => .zeros first last :: spans

theorem spansFrom_zero {row : List Word} (zero : row.all (· == 0) = true) (first : Nat)
    (rows : List (List Word)) : spansFrom first (row :: rows) =
      foldInto first (first + rowSize - 1) (spansFrom (first + rowSize) rows) := by
  rw [spansFrom, if_pos zero]
  generalize spansFrom (first + rowSize) rows = spans
  cases spans with
  | nil => rfl
  | cons s spans => cases s <;> rfl

theorem foldInto_foldInto (first last first' last' : Nat) (spans : List Span) :
    foldInto first last (foldInto first' last' spans) = foldInto first last' spans := by
  cases spans with
  | nil => rfl
  | cons s spans => cases s <;> rfl

def Span.IsFolded : Span → Prop
  | .words _ _ _ => False
  | .zeros _ _ => True

/-- A span stands for the rows from number `i` up to but not including number `k`: for a row that is
not of zeros, or for all rows of zeros up to one that is not. -/
inductive StandsFor (rows : List (List Word)) (i : Nat) : Nat → Span → Prop where
  | row {cells : List Word} (here : rows[i]? = some cells) (nonzero : cells ≠ zeroRow) :
      StandsFor rows i (i + 1) (.words (16 * i) (16 * i + 15) cells)
  | folded {k : Nat} (more : i < k) (within : ∀ r, i ≤ r → r < k → rows[r]? = some zeroRow)
      (ends : rows[k]? ≠ some zeroRow) : StandsFor rows i k (.zeros (16 * i) (16 * k - 1))

/-- The spans of the rows from number `i` on. -/
inductive Listed (rows : List (List Word)) : Nat → List Span → Prop where
  | done {i : Nat} (stop : i = rows.length) : Listed rows i []
  | cons {i k : Nat} {s : Span} {spans : List Span} (first : StandsFor rows i k s)
      (rest : Listed rows k spans) : Listed rows i (s :: spans)

variable {rows : List (List Word)} {i k : Nat} {s : Span} {spans : List Span}

theorem drop_of_zeros (more : i ≤ k) (within : ∀ r, i ≤ r → r < k → rows[r]? = some zeroRow) :
    rows.drop i = List.replicate (k - i) zeroRow ++ rows.drop k := by
  apply List.ext_getElem?
  intro r
  rw [List.getElem?_drop, List.getElem?_append, List.length_replicate]
  by_cases run : r < k - i
  · rw [if_pos run, List.getElem?_replicate, if_pos run]
    exact within (i + r) (by omega) (by omega)
  · have behind : k + (r - (k - i)) = i + r := by omega
    rw [if_neg run, List.getElem?_drop, behind]

namespace StandsFor

theorem first (stands : StandsFor rows i k s) : s.first = 16 * i := by
  cases stands <;> rfl

theorem last (stands : StandsFor rows i k s) : s.last + 1 = 16 * k := by
  cases stands with
  | row here nonzero =>
    rw [Span.last]
    omega
  | folded more within ends =>
    rw [Span.last]
    omega

theorem lt (stands : StandsFor rows i k s) : i < k := by
  cases stands with
  | row here nonzero => exact Nat.lt_succ_self i
  | folded more within ends => exact more

theorem inside (stands : StandsFor rows i k s) : k ≤ rows.length := by
  cases stands with
  | row here nonzero => exact (List.getElem?_eq_some_iff.mp here).1
  | folded more within ends =>
    have final := (List.getElem?_eq_some_iff.mp (within (k - 1) (by omega) (by omega))).1
    omega

/-- The words of a span are those of its rows. -/
theorem flatten_drop (stands : StandsFor rows i k s) :
    (rows.drop i).flatten = s.contents ++ (rows.drop k).flatten := by
  cases stands with
  | row here nonzero =>
    rw [List.drop_eq_getElem?_toList_append, here]
    rfl
  | folded more within ends =>
    have size : (16 * k - 1 + 1 - 16 * i) / 2 = (k - i) * 8 := by omega
    rw [drop_of_zeros (Nat.le_of_lt more) within, List.flatten_append, Span.contents, size, zeroRow,
      List.flatten_replicate_replicate]

theorem zero_of_folded (stands : StandsFor rows i k s) (folded : s.IsFolded) :
    rows[i]? = some zeroRow := by
  cases stands with
  | row here nonzero => cases folded
  | folded more within ends => exact within i (Nat.le_refl i) more

theorem ends_of_folded (stands : StandsFor rows i k s) (folded : s.IsFolded) :
    rows[k]? ≠ some zeroRow := by
  cases stands with
  | row here nonzero => cases folded
  | folded more within ends => exact ends

theorem cut (stands : StandsFor rows i k s) (zero : rows[k - 1]? = some zeroRow) :
    rows[k]? ≠ some zeroRow := by
  cases stands with
  | row here nonzero =>
    rw [Nat.add_sub_cancel] at zero
    exact absurd (Option.some.inj (here.symm.trans zero)) nonzero
  | folded more within ends => exact ends

end StandsFor

namespace Listed

theorem nonzero_of_unfolded (listed : Listed rows i spans)
    (unfolded : ∀ s ∈ spans.head?, ¬ s.IsFolded) : rows[i]? ≠ some zeroRow := by
  cases listed with
  | done stop => simp [stop]
  | cons first rest =>
    cases first with
    | row here nonzero =>
      intro zero
      exact nonzero (Option.some.inj (here.symm.trans zero))
    | folded more within ends => exact absurd trivial (unfolded _ rfl)

/-- A row of zeros in front of a folded span is folded into it. -/
theorem extend {first last : Nat} (listed : Listed rows (i + 1) (.zeros first last :: spans))
    (zero : rows[i]? = some zeroRow) : Listed rows i (.zeros (16 * i) last :: spans) := by
  cases listed with
  | cons next rest =>
    cases next with
    | folded more within ends =>
      refine .cons (.folded (by omega) ?_ ends) rest
      intro r above below
      by_cases here : r = i
      · rw [here, zero]
      · exact within r (by omega) below

theorem oneRow (listed : Listed rows (i + 1) spans) (zero : rows[i]? = some zeroRow)
    (unfolded : ∀ s ∈ spans.head?, ¬ s.IsFolded) :
    Listed rows i (.zeros (16 * i) (16 * i + 15) :: spans) := by
  have last : 16 * i + 15 = 16 * (i + 1) - 1 := by omega
  rw [last]
  refine .cons (.folded (by omega) ?_ (listed.nonzero_of_unfolded unfolded)) listed
  intro r above below
  have same : r = i := by omega
  rw [same, zero]

theorem fold (listed : Listed rows (i + 1) spans) (zero : rows[i]? = some zeroRow) :
    Listed rows i (foldInto (16 * i) (16 * i + 15) spans) := by
  cases spans with
  | nil => exact listed.oneRow zero nofun
  | cons s spans =>
    cases s with
    | zeros first last => exact listed.extend zero
    | words first last cells =>
      refine listed.oneRow zero ?_
      intro s next
      cases next
      exact id

end Listed

theorem listed_spansFrom (long : ∀ row ∈ rows, row.length = 8) (inside : i ≤ rows.length) :
    Listed rows i (spansFrom (16 * i) (rows.drop i)) := by
  induction later : rows.drop i generalizing i with
  | nil =>
    have := List.drop_eq_nil_iff.mp later
    exact .done (by omega)
  | cons row rest ih =>
    have here : rows[i]? = some row := by rw [← List.head?_drop, later, List.head?_cons]
    have behind : rows.drop (i + 1) = rest := by rw [← List.tail_drop, later, List.tail_cons]
    have more : i < rows.length := (List.getElem?_eq_some_iff.mp here).1
    have next : Listed rows (i + 1) (spansFrom (16 * i + rowSize) rest) := ih more behind
    by_cases zero : row.all (· == 0) = true
    · have same : row = zeroRow := eq_zeroRow (long row (List.mem_of_getElem? here)) zero
      rw [same] at here
      rw [spansFrom_zero zero]
      exact next.fold here
    · rw [spansFrom, if_neg zero]
      refine .cons (.row here ?_) next
      rintro rfl
      exact zero (by decide)

namespace Listed

/-- Every span stands for some rows, and zeros do not go on to it from the row before. -/
theorem exists_standsFor (listed : Listed rows i spans) :
    ∀ s ∈ spans, ∃ j k, i ≤ j ∧ StandsFor rows j k s ∧
      (i < j → rows[j - 1]? = some zeroRow → rows[j]? ≠ some zeroRow) := by
  induction listed with
  | done stop => exact nofun
  | @cons i k s spans first rest ih =>
    have more := first.lt
    refine List.forall_mem_cons.mpr ⟨⟨i, k, Nat.le_refl i, first, ?_⟩, ?_⟩
    · intro before
      exact absurd before (Nat.lt_irrefl i)
    · intro t later
      obtain ⟨j, k', late, stands, cut⟩ := ih t later
      refine ⟨j, k', by omega, stands, ?_⟩
      intro _
      by_cases behind : k < j
      · exact cut behind
      · have meets : j = k := by omega
        rw [meets]
        exact first.cut

/-- Every row has a span that stands for it. -/
theorem exists_span (listed : Listed rows i spans) {r : Nat} (late : i ≤ r)
    (inside : r < rows.length) : ∃ s ∈ spans, ∃ j k, StandsFor rows j k s ∧ j ≤ r ∧ r < k := by
  induction listed with
  | done stop => omega
  | @cons i k s spans first rest ih =>
    by_cases here : r < k
    · exact ⟨s, List.mem_cons_self, i, k, first, late, here⟩
    · obtain ⟨t, later, stands⟩ := ih (Nat.not_lt.mp here)
      exact ⟨t, List.mem_cons_of_mem s later, stands⟩

/-- However the rows of zeros are folded, the words of the spans are those of the rows. -/
theorem contents (listed : Listed rows i spans) :
    spans.flatMap Span.contents = (rows.drop i).flatten := by
  induction listed with
  | done stop =>
    rw [stop, List.drop_length]
    rfl
  | cons first rest ih => rw [List.flatMap_cons, ih, first.flatten_drop]

/-- What holds of spans whenever the one begins where the other stops. -/
theorem isChain {related : Span → Span → Prop} (listed : Listed rows i spans)
    (meets : ∀ {i j k s t}, StandsFor rows i j s → StandsFor rows j k t → related s t) :
    spans.IsChain related := by
  induction listed with
  | done stop => exact .nil
  | cons first rest ih =>
    refine List.isChain_cons.mpr ⟨?_, ih⟩
    intro t next
    cases rest with
    | done stop => cases next
    | cons second rest =>
      cases next
      exact meets first second

theorem contiguous (listed : Listed rows i spans) :
    spans.IsChain fun s t => t.first = s.last + 1 := by
  apply listed.isChain
  intro i j k s t first second
  rw [first.last, second.first]

theorem apart (listed : Listed rows i spans) :
    spans.IsChain fun s t => ¬ (s.IsFolded ∧ t.IsFolded) := by
  apply listed.isChain
  intro i j k s t first second both
  exact first.ends_of_folded both.1 (second.zero_of_folded both.2)

theorem first_lt_last (listed : Listed rows i spans) : ∀ s ∈ spans, s.first < s.last := by
  intro s here
  obtain ⟨j, k, -, stands, -⟩ := listed.exists_standsFor s here
  have := stands.first
  have := stands.last
  have := stands.lt
  omega

/-- The end of the last span, or the start if there is none. -/
theorem ends_with_rows (listed : Listed rows i spans) :
    (spans.getLast?.map fun s => s.last + 1).getD (16 * i) = 16 * rows.length := by
  induction listed with
  | done stop => rw [stop]; rfl
  | cons first rest ih =>
    rw [← first.last] at ih
    rw [List.getLast?_cons, ← ih]
    cases List.getLast? _ <;> rfl

theorem nodup (listed : Listed rows i spans) : spans.Nodup := by
  induction listed with
  | done stop => exact List.nodup_nil
  | cons first rest ih =>
    refine List.nodup_cons.mpr ⟨?_, ih⟩
    intro again
    obtain ⟨j, _, late, stands, -⟩ := rest.exists_standsFor _ again
    have same := first.first.symm.trans stands.first
    have := first.lt
    omega

theorem words_mem_iff (listed : Listed rows 0 spans) {first last : Nat} {cells : List Word} :
    .words first last cells ∈ spans ↔ ∃ k, rows[k]? = some cells ∧ cells ≠ zeroRow ∧
      first = 16 * k ∧ last = 16 * k + 15 := by
  constructor
  · intro mem
    obtain ⟨j, k, -, stands, -⟩ := listed.exists_standsFor _ mem
    cases stands with
    | row here nonzero => exact ⟨j, here, nonzero, rfl, rfl⟩
  · rintro ⟨r, here, nonzero, rfl, rfl⟩
    have inside : r < rows.length := (List.getElem?_eq_some_iff.mp here).1
    obtain ⟨s, mem, j, k, stands, above, below⟩ := listed.exists_span (Nat.zero_le r) inside
    cases stands with
    | row other _ =>
      have same : j = r := by omega
      rw [same] at other mem
      rwa [Option.some.inj (here.symm.trans other)]
    | folded _ within _ =>
      have zero := within r above below
      exact absurd (Option.some.inj (here.symm.trans zero)) nonzero

/-- The folded spans are the longest runs. -/
theorem zeros_mem_iff (listed : Listed rows 0 spans) {first last : Nat} :
    .zeros first last ∈ spans ↔ ∃ j k, LongestRun (fun r => rows[r]? = some zeroRow) j k ∧
      first = 16 * j ∧ last + 1 = 16 * k := by
  constructor
  · intro mem
    obtain ⟨j, k, -, stands, cut⟩ := listed.exists_standsFor _ mem
    cases stands with
    | folded more within ends =>
      refine ⟨j, k, ⟨more, within, ?_, ends⟩, rfl, by omega⟩
      intro r before zero
      have place : r = j - 1 := by omega
      rw [place] at zero
      exact cut (by omega) zero (within j (Nat.le_refl j) more)
  · rintro ⟨j, k, run, rfl, upTo⟩
    have inside : j < rows.length := (List.getElem?_eq_some_iff.mp run.first).1
    obtain ⟨s, mem, i, k', stands, above, below⟩ := listed.exists_span (Nat.zero_le j) inside
    cases stands with
    | row here nonzero =>
      have same : j = i := by omega
      have zero := run.first
      rw [same] at zero
      exact absurd (Option.some.inj (here.symm.trans zero)) nonzero
    | folded more within ends =>
      -- the run and the span begin with the same row, and then they end with the same one
      have begins : j = i := by
        refine run.begin_unique above ?_
        intro r late early
        exact within r late (by omega)
      rw [begins] at run ⊢
      have stops : k = k' := run.end_unique within ends (by omega)
      have same : last = 16 * k' - 1 := by omega
      rwa [same]

end Listed

section Pass

/-- One pass over the rows. It keeps the addresses of the span of zeros that is open, if there is
one, and lists it in front of the next other row and at the end. -/
def onePass (first : Nat) (pending : Option (Nat × Nat)) : List (List Word) → List Span
  | [] => (pending.map fun range => .zeros range.1 range.2).toList
  | row :: rows =>
    let last := first + rowSize - 1
    if row.all (· == 0) then
      onePass (first + rowSize) (some ((pending.map Prod.fst).getD first, last)) rows
    else
      (pending.map fun range => .zeros range.1 range.2).toList ++
        .words first last row :: onePass (first + rowSize) none rows

/-- What the pass has open when it comes to a row is folded into the spans from there on. -/
theorem onePass_eq (rows : List (List Word)) (first : Nat) :
    onePass first none rows = spansFrom first rows ∧
      ∀ start last, onePass first (some (start, last)) rows =
        foldInto start last (spansFrom first rows) := by
  induction rows generalizing first with
  | nil => exact ⟨rfl, fun start last => rfl⟩
  | cons row rows ih =>
    obtain ⟨closed, opened⟩ := ih (first + rowSize)
    by_cases zero : row.all (· == 0) = true
    · rw [spansFrom_zero zero]
      constructor
      · rw [onePass, if_pos zero]
        exact opened first _
      · intro start last
        rw [onePass, if_pos zero, foldInto_foldInto]
        exact opened start _
    · rw [spansFrom, if_neg zero, ← closed]
      constructor
      · rw [onePass, if_neg zero]
        rfl
      · intro start last
        rw [onePass, if_neg zero]
        rfl

end Pass

end Dump
end ChipEight
