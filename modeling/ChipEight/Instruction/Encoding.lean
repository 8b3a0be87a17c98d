import ChipEight.Instruction

/-
  The one word that stands for an instruction. Reading a word gives an instruction exactly when
  the word is the encoding of it, so no word has two readings and no instruction two encodings.
-/
namespace ChipEight

/-- A word of a family and its last twelve bits. -/
def wordOfAddress (family : Nat) (nnn : Address) : Word :=
  BitVec.ofNat 16 (4096 * family + nnn.toNat)

def wordOfByte (family : Nat) (x : Reg) (nn : Byte) : Word :=
  BitVec.ofNat 16 (4096 * family + 256 * x + nn.toNat)

def wordOfNibbles (family : Nat) (x y : Reg) (n : Nat) : Word :=
  BitVec.ofNat 16 (4096 * family + 256 * x + 16 * y + n)

namespace Instruction

def encode : Instruction → Word
  | .clearScreen => 0x00E0
  | .ret => 0x00EE
  | .jump target => wordOfAddress 0x1 target
  | .call target => wordOfAddress 0x2 target
  | .skipImmediate .equal x value => wordOfByte 0x3 x value
  | .skipImmediate .different x value => wordOfByte 0x4 x value
  | .skipRegister .equal x y => wordOfNibbles 0x5 x y 0x0
  | .setImmediate x value => wordOfByte 0x6 x value
  | .addImmediate x value => wordOfByte 0x7 x value
  | .copy x y => wordOfNibbles 0x8 x y 0x0
  | .bitwise .or x y => wordOfNibbles 0x8 x y 0x1
  | .bitwise .and x y => wordOfNibbles 0x8 x y 0x2
  | .bitwise .xor x y => wordOfNibbles 0x8 x y 0x3
  | .add x y => wordOfNibbles 0x8 x y 0x4
  | .subtract .x x y => wordOfNibbles 0x8 x y 0x5
  | .shift .right x y => wordOfNibbles 0x8 x y 0x6
  | .subtract .y x y => wordOfNibbles 0x8 x y 0x7
  | .shift .left x y => wordOfNibbles 0x8 x y 0xE
  | .skipRegister .different x y => wordOfNibbles 0x9 x y 0x0
  | .setIndex address => wordOfAddress 0xA address
  | .jumpOffset base => wordOfAddress 0xB base
  | .random x mask => wordOfByte 0xC x mask
  | .draw x y rows => wordOfNibbles 0xD x y rows
  | .skipKey .pressed x => wordOfByte 0xE x 0x9E
  | .skipKey .released x => wordOfByte 0xE x 0xA1
  | .readDelay x => wordOfByte 0xF x 0x07
  | .awaitKey x => wordOfByte 0xF x 0x0A
  | .setDelay x => wordOfByte 0xF x 0x15
  | .setSound x => wordOfByte 0xF x 0x18
  | .addToIndex x => wordOfByte 0xF x 0x1E
  | .glyphAddress x => wordOfByte 0xF x 0x29
  | .storeDecimal x => wordOfByte 0xF x 0x33
  | .storeRegisters x => wordOfByte 0xF x 0x55
  | .loadRegisters x => wordOfByte 0xF x 0x65

end Instruction

section Fields

theorem wordOfAddress_toNat {family : Nat} (h : family < 16) (nnn : Address) :
    (wordOfAddress family nnn).toNat = 4096 * family + nnn.toNat := by
  have := nnn.isLt
  simp [wordOfAddress]
  omega

theorem wordOfByte_toNat {family : Nat} (h : family < 16) (x : Reg) (nn : Byte) :
    (wordOfByte family x nn).toNat = 4096 * family + 256 * x + nn.toNat := by
  have := nn.isLt
  simp [wordOfByte]
  omega

theorem wordOfNibbles_toNat {family n : Nat} (h : family < 16) (hn : n < 16) (x y : Reg) :
    (wordOfNibbles family x y n).toNat = 4096 * family + 256 * x + 16 * y + n := by
  simp [wordOfNibbles]
  omega

theorem wordOfAddress_fields (w : Word) : wordOfAddress w.family w.nnn = w := by
  apply BitVec.eq_of_toNat_eq
  have := w.isLt
  rw [wordOfAddress_toNat] <;> rw [w.family_eq]
  · rw [w.nnn_toNat]; omega
  · omega

theorem wordOfByte_fields (w : Word) : wordOfByte w.family w.x w.nn = w := by
  apply BitVec.eq_of_toNat_eq
  have := w.isLt
  rw [wordOfByte_toNat] <;> rw [w.family_eq]
  · rw [w.x_val, w.nn_toNat]; omega
  · omega

theorem wordOfNibbles_fields (w : Word) : wordOfNibbles w.family w.x w.y w.n = w := by
  apply BitVec.eq_of_toNat_eq
  have := w.isLt
  rw [wordOfNibbles_toNat (by rw [w.family_eq]; omega) w.n.isLt]
  rw [w.family_eq, w.x_val, w.y_val, w.n_val]
  omega

theorem fields_wordOfAddress {family : Nat} (h : family < 16) (nnn : Address) :
    (wordOfAddress family nnn).family = family ∧ (wordOfAddress family nnn).nnn = nnn := by
  have := nnn.isLt
  refine ⟨?_, BitVec.eq_of_toNat_eq ?_⟩
  · rw [Word.family_eq, wordOfAddress_toNat h]; omega
  · rw [Word.nnn_toNat, wordOfAddress_toNat h]; omega

theorem fields_wordOfByte {family : Nat} (h : family < 16) (x : Reg) (nn : Byte) :
    (wordOfByte family x nn).family = family ∧ (wordOfByte family x nn).x = x ∧
      (wordOfByte family x nn).nn = nn := by
  have := nn.isLt
  refine ⟨?_, Fin.ext ?_, BitVec.eq_of_toNat_eq ?_⟩
  · rw [Word.family_eq, wordOfByte_toNat h]; omega
  · rw [Word.x_val, wordOfByte_toNat h]; omega
  · rw [Word.nn_toNat, wordOfByte_toNat h]; omega

theorem fields_wordOfNibbles {family n : Nat} (h : family < 16) (hn : n < 16) (x y : Reg) :
    (wordOfNibbles family x y n).family = family ∧ (wordOfNibbles family x y n).x = x ∧
      (wordOfNibbles family x y n).y = y ∧ (wordOfNibbles family x y n).n.val = n := by
  refine ⟨?_, Fin.ext ?_, Fin.ext ?_, ?_⟩
  · rw [Word.family_eq, wordOfNibbles_toNat h hn]; omega
  · rw [Word.x_val, wordOfNibbles_toNat h hn]; omega
  · rw [Word.y_val, wordOfNibbles_toNat h hn]; omega
  · rw [Word.n_val, wordOfNibbles_toNat h hn]; omega

end Fields

namespace Instruction

theorem ofWord?_encode (i : Instruction) : ofWord? i.encode = some i := by
  rcases i with _ | _ | _ | _ | ⟨_ | _, _, _⟩ | ⟨_ | _, _, _⟩ | _ | _ | _ |
    ⟨_ | _ | _, _, _⟩ | _ | ⟨_ | _, _, _⟩ | ⟨_ | _, _, _⟩ | _ | _ | _ | _ | ⟨_ | _, _⟩ |
    _ | _ | _ | _ | _ | _ | _ | _ | _
  all_goals
    simp [encode, ofWord?, decodeRegisterPair, decodeSingleRegister, fields_wordOfAddress,
      fields_wordOfByte, fields_wordOfNibbles]
  case draw x y rows =>
    exact Fin.ext (fields_wordOfNibbles (by decide) rows.isLt x y).2.2.2
  all_goals rfl

theorem encode_decodeRegisterPair {w : Word} {i : Instruction} (family : w.family = 0x8)
    (h : decodeRegisterPair w = some i) : i.encode = w := by
  have fields := wordOfNibbles_fields w
  have nibble (k : Nat) (hk : w.n.val = k) : wordOfNibbles 0x8 w.x w.y k = w := by
    rw [← hk, ← family, fields]
  unfold decodeRegisterPair at h
  split at h <;> cases h <;> exact nibble _ ‹_›

theorem encode_decodeSingleRegister {w : Word} {i : Instruction} (family : w.family = 0xF)
    (h : decodeSingleRegister w = some i) : i.encode = w := by
  have fields := wordOfByte_fields w
  have byte (k : Byte) (hk : w.nn.toNat = k.toNat) : wordOfByte 0xF w.x k = w := by
    rw [← BitVec.eq_of_toNat_eq hk, ← family, fields]
  unfold decodeSingleRegister at h
  split at h <;> cases h <;> exact byte _ ‹_›

theorem encode_ofWord? {w : Word} {i : Instruction} (h : ofWord? w = some i) :
    i.encode = w := by
  have address := wordOfAddress_fields w
  have byte := wordOfByte_fields w
  have nibbles := wordOfNibbles_fields w
  unfold ofWord? at h
  split at h
  case h_1 =>
    split at h <;> cases h <;> exact (BitVec.eq_of_toNat_eq ‹_›).symm
  case h_9 family => exact encode_decodeRegisterPair family h
  case h_15 family =>
    have key (k : Byte) (hk : w.nn.toNat = k.toNat) : wordOfByte 0xE w.x k = w := by
      rw [← BitVec.eq_of_toNat_eq hk, ← family, byte]
    split at h <;> cases h <;> exact key _ ‹_›
  case h_16 family => exact encode_decodeSingleRegister family h
  all_goals grind [encode]

/-- Reading and encoding undo each other. -/
theorem ofWord?_eq_some_iff {w : Word} {i : Instruction} : ofWord? w = some i ↔ w = i.encode :=
  ⟨fun h => (encode_ofWord? h).symm, fun h => h ▸ ofWord?_encode i⟩

end Instruction
end ChipEight
