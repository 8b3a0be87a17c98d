/-
  Hexadecimal numerals: `0x`, then upper-case digits, at least four of them.
-/
namespace ChipEight.Hex

def digit (d : Nat) : Char :=
  if d < 10 then Char.ofNat (48 + d) else Char.ofNat (55 + d)

/-- The lowest `count` digits of `n`, the most significant one first. -/
def digits : Nat → Nat → List Char
  | 0, _ => []
  | count + 1, n => digits count (n / 16) ++ [digit (n % 16)]

def width (n : Nat) : Nat := max 4 (n.log2 / 4 + 1)

def chars (n : Nat) : List Char := '0' :: 'x' :: digits (width n) n

def text (n : Nat) : String := String.ofList (chars n)

theorem digits_length (count n : Nat) : (digits count n).length = count := by
  induction count generalizing n with
  | zero => rfl
  | succ count ih => simp [digits, ih]

theorem width_eq_four {n : Nat} (h : n < 65536) : width n = 4 := by
  have : n.log2 < 16 := by
    by_cases zero : n = 0
    · simp [zero]
    · exact (Nat.log2_lt zero).2 h
  simp only [width]
  omega

end ChipEight.Hex
