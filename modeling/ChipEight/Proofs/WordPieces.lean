import Mathlib.Algebra.BigOperators.Ring.Finset
import ChipEight.Proofs.BigEndian

/-
  Words of any width as their bits, their nibbles and their bytes. A shift to the right that copies
  the top bit and one that brings in zeros differ only in what they bring in; a piece that lies
  inside of the word is shifted down without it, so both kinds of words obey the same laws.
-/
namespace ChipEight

variable {w : Nat}

/-- The number that a word stands for. -/
def Signedness.value (s : Signedness) (v : BitVec w) : Int :=
  match s with
  | .unsigned => v.toNat
  | .signed => v.toInt

theorem getLsbD_shiftRight (s : Signedness) (v : BitVec w) {i j : Nat} (inside : i + j < w) :
    (s.shiftRight v i).getLsbD j = v.getLsbD (i + j) := by
  cases s with
  | unsigned => exact BitVec.getLsbD_ushiftRight v i j
  | signed =>
    have below : ¬ w ≤ j := by omega
    rw [Signedness.shiftRight, BitVec.getLsbD_sshiftRight, if_pos inside, decide_eq_false below,
      Bool.not_false, Bool.true_and]

section Bits
variable (s : Signedness) (v : BitVec w) {i j : Nat}

theorem bitAt_eq (inside : i < w) : bitAt s v i = v.getLsbD i := by
  have lowest : (s.shiftRight v i).getLsbD 0 = v.getLsbD i := getLsbD_shiftRight s v inside
  rw [bitAt, BitVec.and_one_eq_setWidth_ofBool_getLsbD, lowest]
  cases v.getLsbD i with
  | false =>
    have nonempty : w ≠ 0 := by omega
    simp [nonempty]
  | true =>
    have one : BitVec.setWidth w 1#1 = 1#w :=
      BitVec.setWidth_ofNat_one_eq_ofNat_one_of_lt Nat.one_pos
    simp [one]

/-- In a signed word the mask of the top bit is the lowest of all numbers. -/
theorem getLsbD_mask (here : i < w) : (1#w <<< i).getLsbD j = decide (i = j) := by
  rw [← BitVec.twoPow_eq, BitVec.getLsbD_twoPow, decide_eq_true here, Bool.true_and]

theorem bitAt_withBit (here : i < w) (inside : j < w) :
    bitAt s (withBit v i) j = (decide (i = j) || bitAt s v j) := by
  rw [bitAt_eq s _ inside, bitAt_eq s v inside, withBit, BitVec.getLsbD_or, getLsbD_mask here,
    Bool.or_comm]

theorem bitAt_withoutBit (here : i < w) (inside : j < w) :
    bitAt s (withoutBit v i) j = (decide (i ≠ j) && bitAt s v j) := by
  rw [bitAt_eq s _ inside, bitAt_eq s v inside, withoutBit, BitVec.getLsbD_and,
    BitVec.getLsbD_not, getLsbD_mask here, decide_eq_true inside, Bool.true_and, ← decide_not,
    Bool.and_comm]

theorem eq_of_bitAt {u v : BitVec w} (same : ∀ j < w, bitAt s u j = bitAt s v j) : u = v := by
  apply BitVec.eq_of_getLsbD_eq
  intro j inside
  rw [← bitAt_eq s u inside, ← bitAt_eq s v inside]
  exact same j inside

end Bits

section Nibbles
variable (s : Signedness) (v : BitVec w) {k : Nat}

theorem getLsbD_nibbleMask (j : Nat) :
    (~~~(BitVec.allOnes w <<< 4)).getLsbD j = decide (j < w ∧ j < 4) := by
  rw [BitVec.getLsbD_not, BitVec.getLsbD_shiftLeft, BitVec.getLsbD_allOnes]
  by_cases inside : j < w
  · have : j - 4 < w := by omega
    simp [inside, this]
  · simp [inside]

theorem nibbleAt_eq (inside : 4 * k + 4 ≤ w) :
    nibbleAt s v k = (v.extractLsb' (4 * k) 4).setWidth w := by
  apply BitVec.eq_of_getLsbD_eq
  intro j within
  rw [nibbleAt, BitVec.getLsbD_and, getLsbD_nibbleMask, BitVec.getLsbD_setWidth,
    BitVec.getLsbD_extractLsb']
  by_cases low : j < 4
  · rw [getLsbD_shiftRight s v (by omega)]
    simp [within, low]
  · simp [low]

theorem nibbleAt_toNat (inside : 4 * k + 4 ≤ w) :
    (nibbleAt s v k).toNat = v.toNat / 16 ^ k % 16 := by
  have place : 2 ^ (4 * k) = 16 ^ k := Nat.pow_mul 2 4 k
  have wide : 16 ≤ 2 ^ w := Nat.pow_le_pow_right (Nat.succ_pos 1) (by omega : 4 ≤ w)
  have small : v.toNat / 16 ^ k % 16 < 2 ^ w :=
    Nat.lt_of_lt_of_le (Nat.mod_lt _ (Nat.succ_pos 15)) wide
  rw [nibbleAt_eq s v inside, BitVec.toNat_setWidth, BitVec.extractLsb'_toNat,
    Nat.shiftRight_eq_div_pow, place]
  exact Nat.mod_eq_of_lt small

/-- The lowest nibbles of a word, each with the weight of its place, make up its lowest digits. -/
theorem sum_nibbleAt {count : Nat} (inside : 4 * count ≤ w) :
    ∑ k ∈ Finset.range count, (nibbleAt s v k).toNat * 16 ^ k = v.toNat % 16 ^ count := by
  induction count with
  | zero => simp [Nat.mod_one]
  | succ count ih =>
    rw [Finset.sum_range_succ, ih (by omega), nibbleAt_toNat s v (by omega), Nat.mod_pow_succ,
      Nat.mul_comm (16 ^ count)]

/-- From two nibbles on a nibble leaves the sign bit clear. -/
theorem value_nibbleAt (wide : 8 ≤ w) (inside : 4 * k + 4 ≤ w) :
    s.value (nibbleAt s v k) = ↑(v.toNat / 16 ^ k % 16) := by
  have digit := nibbleAt_toNat s v inside
  cases s with
  | unsigned => rw [Signedness.value, digit]
  | signed =>
    have room : 256 ≤ 2 ^ w := Nat.pow_le_pow_right (Nat.succ_pos 1) wide
    have small : 2 * (nibbleAt .signed v k).toNat < 2 ^ w := by omega
    rw [Signedness.value, BitVec.toInt_eq_toNat_of_lt small, digit]

theorem value_mod : s.value v % 2 ^ w = v.toNat := by
  have inside : (v.toNat : Int) % (2 ^ w : Nat) = v.toNat :=
    Int.emod_eq_of_lt (Int.natCast_nonneg _) (Int.ofNat_lt.mpr v.isLt)
  rw [← Nat.cast_ofNat, ← Nat.cast_pow]
  cases s with
  | unsigned => exact inside
  | signed =>
    rw [Signedness.value, BitVec.toInt_eq_toNat_bmod, Int.bmod_emod]
    exact inside

/-- All nibbles of a word make it up, whatever the sign bit says. -/
theorem sum_value_nibbleAt (wide : 8 ≤ w) (whole : 4 ∣ w) :
    ∑ k ∈ Finset.range (w / 4), s.value (nibbleAt s v k) * 16 ^ k = s.value v % 2 ^ w := by
  have count : 4 * (w / 4) = w := Nat.mul_div_cancel' whole
  have size : 16 ^ (w / 4) = 2 ^ w := by rw [← Nat.pow_mul 2 4, count]
  have digits : ∀ k ∈ Finset.range (w / 4), s.value (nibbleAt s v k) * 16 ^ k =
      ↑((nibbleAt s v k).toNat * 16 ^ k) := by
    intro k below
    have inside : 4 * k + 4 ≤ w := by
      have := Finset.mem_range.mp below
      omega
    rw [value_nibbleAt s v wide inside, nibbleAt_toNat s v inside, Nat.cast_mul, Nat.cast_pow,
      Nat.cast_ofNat]
  rw [Finset.sum_congr rfl digits, ← Nat.cast_sum, sum_nibbleAt s v count.le, size,
    Nat.mod_eq_of_lt v.isLt, value_mod]

end Nibbles

/-- For words of either kind and any width: a bit that is set or cleared is the only one to change;
the bits determine the word; the nibbles are digits of base sixteen, and those of a word of two
nibbles or more make it up. Halves of words and bytes that are joined give back each other. -/
theorem pieces_make_up_words (s : Signedness) (w : Nat) :
    (∀ (v : BitVec w) (i j : Nat), i < w → j < w →
      bitAt s (withBit v i) j = (decide (i = j) || bitAt s v j) ∧
        bitAt s (withoutBit v i) j = (decide (i ≠ j) && bitAt s v j)) ∧
      (∀ u v : BitVec w, (∀ j < w, bitAt s u j = bitAt s v j) → u = v) ∧
      (8 ≤ w → 4 ∣ w → ∀ v : BitVec w,
        (∀ k < w / 4, 0 ≤ s.value (nibbleAt s v k) ∧ s.value (nibbleAt s v k) ≤ 15) ∧
          ∑ k ∈ Finset.range (w / 4), s.value (nibbleAt s v k) * 16 ^ k = s.value v % 2 ^ w) ∧
      (∀ x : Word, joinBytes (highByte x) (lowByte x) = x) ∧
      ∀ high low : Byte,
        highByte (joinBytes high low) = high ∧ lowByte (joinBytes high low) = low := by
  refine ⟨?_, ?_, ?_, joinBytes_halves, ?_⟩
  · intro v i j here inside
    exact ⟨bitAt_withBit s v here inside, bitAt_withoutBit s v here inside⟩
  · intro u v same
    exact eq_of_bitAt s same
  · intro wide whole v
    refine ⟨?_, sum_value_nibbleAt s v wide whole⟩
    intro k below
    have digit := value_nibbleAt s v wide (by omega : 4 * k + 4 ≤ w)
    omega
  · intro high low
    exact ⟨highByte_joinBytes high low, lowByte_joinBytes high low⟩

theorem sign_bit_is_like_the_others :
    let lowest := BitVec.intMin 64
    Signedness.signed.value lowest = -9223372036854775808 ∧
      bitAt .signed (withBit 0#64 63) 63 = true ∧ bitAt .signed (withBit 0#64 63) 62 = false ∧
      withoutBit lowest 63 = 0#64 ∧
      ∑ k ∈ Finset.range 16, Signedness.signed.value (nibbleAt .signed lowest k) * 16 ^ k =
        9223372036854775808 ∧
      Signedness.signed.value (nibbleAt .signed lowest 15) ≤ 15 := by
  intro lowest
  obtain ⟨bits, determined, nibbles, -⟩ := pieces_make_up_words .signed 64
  obtain ⟨digits, total⟩ := nibbles (by decide) (by decide) lowest
  refine ⟨by decide, ?_, ?_, ?_, ?_, (digits 15 (by decide)).2⟩
  · exact (bits 0#64 63 63 (by decide) (by decide)).1
  · exact (bits 0#64 63 62 (by decide) (by decide)).1
  · apply determined
    intro j inside
    rw [(bits lowest 63 j (by decide) inside).2]
    have cleared : ∀ j < 64,
        (decide (63 ≠ j) && bitAt .signed lowest j) = bitAt .signed 0#64 j := by decide
    exact cleared j inside
  · exact total.trans (by decide)

end ChipEight
