import ChipEight.Fault
import ChipEight.Font

/-
  The 4096 bytes of the address space. The font lies in the first 512 bytes, programs start
  after them. Addresses and lengths are unbounded here: whatever does not lie inside is refused.
-/
namespace ChipEight

/-- Writes the bytes from position `a` on; what lies past the end of `v` is dropped. -/
def putFrom {n : Nat} (v : Vector Byte n) (a : Nat) : List Byte → Vector Byte n
  | [] => v
  | b :: bs => putFrom (v.setIfInBounds a b) (a + 1) bs

theorem getElem_putFrom {n : Nat} (v : Vector Byte n) (a : Nat) (bs : List Byte) (i : Nat)
    (hi : i < n) : (putFrom v a bs)[i] =
      if h : a ≤ i ∧ i < a + bs.length then bs[i - a] else v[i] := by
  induction bs generalizing v a with
  | nil => rw [putFrom, dif_neg (by simp only [List.length_nil]; omega)]
  | cons b bs ih =>
    rw [putFrom, ih]
    by_cases here : i = a
    · subst here
      rw [dif_neg (by omega)]
      simp
    · by_cases inside : a ≤ i ∧ i < a + (bs.length + 1)
      · have : i - a = (i - (a + 1)) + 1 := by omega
        rw [dif_pos (by omega), dif_pos (by simpa using inside)]
        simp [this]
      · rw [dif_neg (by omega), dif_neg (by simpa using inside),
          Vector.getElem_setIfInBounds_ne _ (by omega)]

def Memory.wordSize : Nat := 2

/-- The big-endian word at a position of a run of bytes. -/
def wordAt (bytes : Array Byte) (address : Nat) : Except MemoryFault Word :=
  if h : address + 1 < bytes.size then .ok (joinBytes bytes[address] bytes[address + 1])
  else .error (.outsideMemory address Memory.wordSize)

@[ext] structure Memory where
  bytes : Vector Byte 4096
  deriving DecidableEq

namespace Memory

def size : Nat := 4096
def programStart : Nat := 0x200
def programCapacity : Nat := size - programStart

def initial : Memory := ⟨putFrom (Vector.replicate 4096 0) Font.address Font.glyphs⟩

def word (m : Memory) (address : Nat) : Except MemoryFault Word :=
  wordAt m.bytes.toArray address

def read (m : Memory) (address : Nat) : Except MemoryFault Byte :=
  if h : address < size then .ok (m.bytes.get ⟨address, h⟩)
  else .error (.outsideMemory address 1)

def write (m : Memory) (address : Nat) (b : Byte) : Except MemoryFault Memory :=
  if h : address < size then .ok ⟨m.bytes.set address b h⟩
  else .error (.outsideMemory address 1)

def slice (m : Memory) (address length : Nat) : Except MemoryFault (List Byte) :=
  if h : address + length ≤ size then
    .ok (List.ofFn fun i : Fin length =>
      m.bytes.get ⟨address + i, by have := i.isLt; simp only [size] at h; omega⟩)
  else .error (.outsideMemory address length)

/-- Overwrites as many bytes from `address` on as there are in `bs`, or none. -/
def store (m : Memory) (address : Nat) (bs : List Byte) : Except MemoryFault Memory :=
  if address + bs.length ≤ size then .ok ⟨putFrom m.bytes address bs⟩
  else .error (.outsideMemory address bs.length)

/-- Overwrites `length` bytes from `address` on with one value. -/
def fill (m : Memory) (address length : Nat) (b : Byte) : Except MemoryFault Memory :=
  if address + length ≤ size then m.store address (List.replicate length b)
  else .error (.outsideMemory address length)

/-- Writes a program to its place and keeps all other bytes. One that does not fit is refused
as a whole. -/
def place (m : Memory) (program : List Byte) : Except MemoryFault Memory :=
  if program.length ≤ programCapacity then .ok ⟨putFrom m.bytes programStart program⟩
  else .error (.programTooLarge program.length programCapacity)

theorem word_eq (m : Memory) (a : Nat) : m.word a =
    if h : a + 1 < 4096 then .ok (joinBytes m.bytes[a] m.bytes[a + 1])
    else .error (.outsideMemory a wordSize) := by
  simp [word, wordAt]

theorem store_eq_error_iff (m : Memory) (a : Nat) (bs : List Byte) (e : MemoryFault) :
    m.store a bs = .error e ↔ size < a + bs.length ∧ e = .outsideMemory a bs.length := by
  unfold store
  by_cases fits : a + bs.length ≤ size
  · rw [if_pos fits]
    exact ⟨nofun, fun h => absurd h.1 (by omega)⟩
  · rw [if_neg fits]
    exact ⟨fun h => by cases h; exact ⟨by omega, rfl⟩, fun h => by rw [h.2]⟩

end Memory
end ChipEight
