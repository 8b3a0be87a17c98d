import ChipEight.Dump.Span

/-
  Words as pairs of bytes, the high byte first. Splitting words and joining bytes undo each other;
  bytes that a run does not have are read as zeros.
-/
namespace ChipEight

section Halves
variable (high low : Byte)

theorem highByte_joinBytes : highByte (joinBytes high low) = high := by
  have := low.isLt
  apply BitVec.eq_of_toNat_eq
  rw [highByte_toNat, joinBytes_toNat]
  omega

theorem lowByte_joinBytes : lowByte (joinBytes high low) = low := by
  have := low.isLt
  apply BitVec.eq_of_toNat_eq
  rw [lowByte_toNat, joinBytes_toNat]
  omega

theorem joinBytes_halves (w : Word) : joinBytes (highByte w) (lowByte w) = w := by
  apply BitVec.eq_of_toNat_eq
  rw [joinBytes_toNat, highByte_toNat, lowByte_toNat]
  omega

end Halves

def bytesOf (words : List Word) : List Byte := words.flatMap fun w => [highByte w, lowByte w]

theorem bytesOf_cons (w : Word) (words : List Word) :
    bytesOf (w :: words) = highByte w :: lowByte w :: bytesOf words := rfl

theorem length_bytesOf (words : List Word) : (bytesOf words).length = 2 * words.length := by
  induction words with
  | nil => rfl
  | cons w words ih =>
    simp only [bytesOf_cons, List.length_cons, ih]
    omega

theorem bytesOf_wordsOf : ∀ {bytes : List Byte}, bytes.length % 2 = 0 →
    bytesOf (Dump.wordsOf bytes) = bytes
  | [], _ => rfl
  | [_], even => absurd even (by simp)
  | high :: low :: rest, even => by
    have fewer : rest.length % 2 = 0 := by
      simp only [List.length_cons] at even
      omega
    rw [Dump.wordsOf, bytesOf_cons, highByte_joinBytes, lowByte_joinBytes, bytesOf_wordsOf fewer]

/-- The word number `k` of a run of bytes that is followed by zeros. -/
def paddedWord (bytes : List Byte) (k : Nat) : Word :=
  joinBytes (bytes[2 * k]?.getD 0) (bytes[2 * k + 1]?.getD 0)

theorem paddedWord_bytesOf {words : List Word} {k : Nat} {w : Word} (there : words[k]? = some w) :
    paddedWord (bytesOf words) k = w := by
  induction words generalizing k with
  | nil => cases there
  | cons v words ih =>
    cases k with
    | zero =>
      cases there
      exact joinBytes_halves w
    | succ k => exact ih there

theorem getElem?_wordsOf : ∀ (bytes : List Byte) (k : Nat), 2 * k + 1 < bytes.length →
    (Dump.wordsOf bytes)[k]? = some (paddedWord bytes k)
  | [], _, inside => absurd inside (by simp)
  | [_], _, inside => absurd inside (by simp)
  | _ :: _ :: _, 0, _ => rfl
  | _ :: _ :: rest, k + 1, inside => by
    have later : 2 * k + 1 < rest.length := by
      simp only [List.length_cons] at inside
      omega
    exact getElem?_wordsOf rest k later

end ChipEight
