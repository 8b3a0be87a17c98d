import ChipEight.Dump

/-
  What a line of the dump gives away. Every numeral in it has four digits and every cell six
  characters, so a line is read by position; blanks that were cut off at the end of a row are
  put back by counting its cells. The spans of memory give back its words in order.
-/
namespace ChipEight

namespace Dump

/-- The characters that labels and cells are made of. -/
def alphabet : List Char := "\t -:x0123456789ABCDEFtruefals".toList

end Dump

namespace Hex

theorem digit_mem {d : Nat} (h : d < 16) : digit d ∈ Dump.alphabet := by
  have table : ∀ d : Fin 16, digit d ∈ Dump.alphabet := by decide
  exact table ⟨d, h⟩

theorem digit_inj {a b : Nat} (ha : a < 16) (hb : b < 16) (same : digit a = digit b) :
    a = b := by
  have table : ∀ a b : Fin 16, digit a = digit b → a = b := by decide
  exact congrArg Fin.val (table ⟨a, ha⟩ ⟨b, hb⟩ same)

theorem digits_subset (count n : Nat) : digits count n ⊆ Dump.alphabet := by
  induction count generalizing n with
  | zero => exact List.nil_subset _
  | succ count ih =>
    have last : digit (n % 16) ∈ Dump.alphabet := digit_mem (Nat.mod_lt n (by decide))
    exact List.append_subset.mpr ⟨ih _, by simpa using last⟩

theorem digit_mod_inj {a b : Nat} (same : digit (a % 16) = digit (b % 16)) : a % 16 = b % 16 :=
  digit_inj (Nat.mod_lt a (by decide)) (Nat.mod_lt b (by decide)) same

theorem digits_inj {a b : Nat} (ha : a < 65536) (hb : b < 65536)
    (same : digits 4 a = digits 4 b) : a = b := by
  simp only [digits, List.nil_append, List.cons_append, List.cons.injEq, and_true] at same
  obtain ⟨fourth, third, second, lowest⟩ := same
  have := digit_mod_inj fourth
  have := digit_mod_inj third
  have := digit_mod_inj second
  have := digit_mod_inj lowest
  omega

theorem chars_eq {n : Nat} (h : n < 65536) : chars n = '0' :: 'x' :: digits 4 n := by
  rw [chars, width_eq_four h]

theorem chars_inj {a b : Nat} (ha : a < 65536) (hb : b < 65536) (same : chars a = chars b) :
    a = b := by
  rw [chars_eq ha, chars_eq hb] at same
  exact digits_inj ha hb (List.tail_eq_of_cons_eq (List.tail_eq_of_cons_eq same))

section Narrow
variable {w : Nat}

theorem toNat_lt (narrow : w ≤ 16) (v : BitVec w) : v.toNat < 65536 :=
  Nat.lt_of_lt_of_le v.isLt (Nat.pow_le_pow_right (by decide) narrow)

theorem chars_toNat_inj (narrow : w ≤ 16) {a b : BitVec w}
    (same : chars a.toNat = chars b.toNat) : a = b :=
  BitVec.eq_of_toNat_eq (chars_inj (toNat_lt narrow a) (toNat_lt narrow b) same)

theorem map_chars_inj (narrow : w ≤ 16) {xs ys : List (BitVec w)}
    (same : (xs.map fun v => chars v.toNat) = ys.map fun v => chars v.toNat) : xs = ys :=
  (List.map_inj_right fun _ _ => chars_toNat_inj narrow).mp same

end Narrow
end Hex

namespace Dump

/-- What stands in a column of a row. -/
structure IsCell (cell : Line) : Prop where
  width : cell.length = 6
  known : cell ⊆ alphabet

theorem IsCell.chars {n : Nat} (h : n < 65536) : IsCell (Hex.chars n) := by
  rw [Hex.chars_eq h]
  refine ⟨by simp [Hex.digits_length], ?_⟩
  exact List.cons_subset.mpr ⟨by decide, List.cons_subset.mpr ⟨by decide, Hex.digits_subset 4 n⟩⟩

theorem IsCell.numerals {w : Nat} (narrow : w ≤ 16) (values : List (BitVec w)) :
    ∀ cell ∈ values.map fun v => Hex.chars v.toNat, IsCell cell := by
  intro cell mem
  obtain ⟨v, -, rfl⟩ := List.mem_map.mp mem
  exact .chars (Hex.toNat_lt narrow v)

theorem IsCell.key (pressed : Bool) : IsCell (keyCell pressed) := by
  cases pressed with
  | false => exact ⟨by decide, by decide⟩
  | true => exact ⟨by decide, by decide⟩

theorem keyCell_inj {a b : Bool} (same : keyCell a = keyCell b) : a = b := by
  revert a b
  decide

theorem trimmed_subset (line : Line) : trimmed line ⊆ line := by
  intro c mem
  rw [trimmed, List.mem_reverse] at mem
  exact List.mem_reverse.mp ((List.dropWhile_suffix _).subset mem)

theorem trimmed_append_blanks (line : Line) :
    trimmed line ++ List.replicate (line.length - (trimmed line).length) ' ' = line := by
  let blanks := (line.reverse.takeWhile (· == ' ')).reverse
  have parts : trimmed line ++ blanks = line := by
    rw [trimmed, ← List.reverse_append, List.takeWhile_append_dropWhile, List.reverse_reverse]
  have blank : ∀ c ∈ blanks, c = ' ' := by
    intro c mem
    have := List.all_takeWhile (l := line.reverse) (p := (· == ' '))
    rw [List.all_eq_true] at this
    simpa using this c (List.mem_reverse.mp mem)
  have count : blanks.length = line.length - (trimmed line).length := by
    have := congrArg List.length parts
    rw [List.length_append] at this
    omega
  rw [← count, ← List.eq_replicate_iff.mpr ⟨rfl, blank⟩]
  exact parts

theorem trimmed_inj {l r : Line} (long : l.length = r.length) (same : trimmed l = trimmed r) :
    l = r := by
  rw [← trimmed_append_blanks l, ← trimmed_append_blanks r, same, long]

section Rows
variable {first last first' last' : Nat} {xs ys : List Line}

theorem length_label (hf : first < 65536) (hl : last < 65536) :
    (label first last).length = 19 := by
  simp [label, indent, (IsCell.chars hf).width, (IsCell.chars hl).width]

theorem label_subset (hf : first < 65536) (hl : last < 65536) : label first last ⊆ alphabet := by
  have gap : indent ⊆ alphabet := by decide
  have dash : " - ".toList ⊆ alphabet := by decide
  have colon : " :".toList ⊆ alphabet := by decide
  simp only [label, List.append_subset]
  exact ⟨⟨⟨⟨gap, (IsCell.chars hf).known⟩, dash⟩, (IsCell.chars hl).known⟩, colon⟩

theorem label_inj (hf : first < 65536) (hl : last < 65536) (hf' : first' < 65536)
    (hl' : last' < 65536) (same : label first last = label first' last') :
    first = first' ∧ last = last' := by
  have width : (Hex.chars last).length = (Hex.chars last').length :=
    (IsCell.chars hl).width.trans (IsCell.chars hl').width.symm
  obtain ⟨upToLast, -⟩ := List.append_inj' same rfl
  obtain ⟨upToDash, lasts⟩ := List.append_inj' upToLast width
  obtain ⟨firsts, -⟩ := List.append_inj' upToDash rfl
  exact ⟨Hex.chars_inj hf hf' (List.append_cancel_left firsts), Hex.chars_inj hl hl' lasts⟩

theorem length_cells (cells : ∀ c ∈ xs, IsCell c) :
    (xs.flatMap (' ' :: ·)).length = 7 * xs.length := by
  induction xs with
  | nil => rfl
  | cons x xs ih =>
    obtain ⟨here, others⟩ := List.forall_mem_cons.mp cells
    simp only [List.flatMap_cons, List.length_append, List.length_cons, here.width, ih others]
    omega

theorem cells_inj (hx : ∀ c ∈ xs, IsCell c) (hy : ∀ c ∈ ys, IsCell c)
    (same : xs.flatMap (' ' :: ·) = ys.flatMap (' ' :: ·)) : xs = ys := by
  induction xs generalizing ys with
  | nil =>
    cases ys with
    | nil => rfl
    | cons y ys => cases same
  | cons x xs ih =>
    cases ys with
    | nil => cases same
    | cons y ys =>
      obtain ⟨cellX, othersX⟩ := List.forall_mem_cons.mp hx
      obtain ⟨cellY, othersY⟩ := List.forall_mem_cons.mp hy
      have parts : x ++ xs.flatMap (' ' :: ·) = y ++ ys.flatMap (' ' :: ·) :=
        List.tail_eq_of_cons_eq same
      obtain ⟨here, rest⟩ := List.append_inj parts (cellX.width.trans cellY.width.symm)
      rw [here, ih othersX othersY rest]

theorem row_subset (hf : first < 65536) (hl : last < 65536) (hx : ∀ c ∈ xs, IsCell c) :
    row first last xs ⊆ alphabet := by
  refine List.Subset.trans (trimmed_subset _) (List.append_subset.mpr ⟨label_subset hf hl, ?_⟩)
  intro c mem
  obtain ⟨cell, among, inside⟩ := List.mem_flatMap.mp mem
  rcases List.mem_cons.mp inside with rfl | inside
  · decide
  · exact (hx cell among).known inside

theorem row_inj (hf : first < 65536) (hl : last < 65536) (hf' : first' < 65536)
    (hl' : last' < 65536) (hx : ∀ c ∈ xs, IsCell c) (hy : ∀ c ∈ ys, IsCell c)
    (long : xs.length = ys.length) (same : row first last xs = row first' last' ys) :
    first = first' ∧ last = last' ∧ xs = ys := by
  have labels : (label first last).length = (label first' last').length := by
    rw [length_label hf hl, length_label hf' hl']
  have whole := trimmed_inj
    (by rw [List.length_append, List.length_append, labels, length_cells hx, length_cells hy,
      long]) same
  obtain ⟨sameLabel, sameCells⟩ := List.append_inj whole labels
  obtain ⟨firsts, lasts⟩ := label_inj hf hl hf' hl' sameLabel
  exact ⟨firsts, lasts, cells_inj hx hy sameCells⟩

theorem table_inj (hx : ∀ c ∈ xs, IsCell c) (hy : ∀ c ∈ ys, IsCell c)
    (long : xs.length = ys.length) (same : table xs = table ys) : xs = ys := by
  injection same with upper lower
  injection lower with lower
  have zero : 0 < 65536 := by decide
  obtain ⟨-, -, front⟩ := row_inj zero (by decide) zero (by decide)
    (fun c mem => hx c (List.mem_of_mem_take mem)) (fun c mem => hy c (List.mem_of_mem_take mem))
    (by rw [List.length_take, List.length_take, long]) upper
  obtain ⟨-, -, back⟩ := row_inj (by decide) (by decide) (by decide) (by decide)
    (fun c mem => hx c (List.mem_of_mem_drop mem)) (fun c mem => hy c (List.mem_of_mem_drop mem))
    (by rw [List.length_drop, List.length_drop, long]) lower
  rw [← List.take_append_drop 8 xs, ← List.take_append_drop 8 ys, front, back]

end Rows
end Dump
end ChipEight
