import ChipEight.Proofs.Checked

/-
  The address space under addresses and lengths of 64 bits. Reads, writes and programs are checked
  against it in different ways: by a sum that may overflow, by looking the byte up, by the address
  of the byte behind, by the length alone. As long as sums do not wrap all of them mean the same
  4096 bytes, and each of these holds what the newest change that covers it has put there.
-/
namespace ChipEight

/-- An address or a length. -/
abbrev Size := BitVec 64

/-- Something to be done to the bytes of a memory. -/
inductive MemoryChange where
  | place (program : List Byte)
  | write (address : Size) (b : Byte)
  | fill (address length : Size) (b : Byte)

namespace MemoryChange

/-- The change lies inside of the part of memory that is open to it. -/
def Fits : MemoryChange → Prop
  | .place program => program.length ≤ 3584
  | .write address _ => address.toNat < 4096
  | .fill address length _ => address.toNat + length.toNat ≤ 4096

instance (c : MemoryChange) : Decidable c.Fits :=
  match c with
  | .place program => inferInstanceAs (Decidable (program.length ≤ 3584))
  | .write address _ => inferInstanceAs (Decidable (address.toNat < 4096))
  | .fill address length _ => inferInstanceAs (Decidable (address.toNat + length.toNat ≤ 4096))

/-- What is answered to a change that does not fit. -/
def fault : MemoryChange → MemoryFault
  | .place program => .programTooLarge program.length 3584
  | .write address _ => .outsideMemory address.toNat 1
  | .fill address length _ => .outsideMemory address.toNat length.toNat

/-- The address of the first byte that is set. -/
def start : MemoryChange → Nat
  | .place _ => 0x200
  | .write address _ => address.toNat
  | .fill address _ _ => address.toNat

def bytes : MemoryChange → List Byte
  | .place program => program
  | .write _ b => [b]
  | .fill _ length b => List.replicate length.toNat b

/-- What the change sets a byte to, if it fits and covers the byte. -/
def valueAt (c : MemoryChange) (i : Nat) : Option Byte :=
  if c.Fits ∧ c.start ≤ i then c.bytes[i - c.start]? else none

end MemoryChange

namespace Memory

def changed? (m : Memory) : MemoryChange → Except MemoryFault Memory
  | .place program => m.place program
  | .write address b => m.write address.toNat b
  | .fill address length b => m.fill address.toNat length.toNat b

/-- Without a new memory the old one stays. -/
def perform (m : Memory) (c : MemoryChange) : Memory × Except MemoryFault Unit :=
  match m.changed? c with
  | .ok after => (after, .ok ())
  | .error cause => (m, .error cause)

def performAll (m : Memory) (changes : List MemoryChange) : Memory :=
  changes.foldl (fun m c => (m.perform c).1) m

end Memory

/-
  The same operations computed with 64-bit words and in place. Sums wrap unless they are checked;
  what would touch a byte outside of the memory, or bytes that end before they start, has no answer.
-/
namespace Wrapping
variable (m : Memory)

def limit : Size := BitVec.ofNat 64 Memory.size
def programStart : Size := BitVec.ofNat 64 Memory.programStart

def sum? (a b : Size) : Option Size := if a.uaddOverflow b then none else some (a + b)

def check (address length : Size) : Except MemoryFault Unit :=
  if (sum? address length).any (· ≤ limit) then .ok ()
  else .error (.outsideMemory address.toNat length.toNat)

/-- The bytes from one address up to another. -/
def range (start stop : Size) : Option (List Byte) :=
  if start ≤ stop ∧ stop ≤ limit then
    Checked.readFrom m.bytes start.toNat (stop - start).toNat
  else none

/-- Overwrites the bytes from one address up to another with as many others. -/
def overwrite (start stop : Size) (bs : List Byte) :
    Option (Memory × Except MemoryFault Unit) :=
  if start ≤ stop ∧ stop ≤ limit ∧ (stop - start).toNat = bs.length then
    (Checked.writeFrom m.bytes start.toNat bs).map fun bytes => (⟨bytes⟩, .ok ())
  else none

def read (address : Size) : Except MemoryFault Byte :=
  match m.bytes[address.toNat]? with
  | some b => .ok b
  | none => .error (.outsideMemory address.toNat 1)

def slice (address length : Size) : Option (Except MemoryFault (List Byte)) :=
  match check address length with
  | .ok () => (range m address (address + length)).map .ok
  | .error cause => some (.error cause)

def word (address : Size) : Option (Except MemoryFault Word) :=
  if address + 1 < limit then do
    let high ← m.bytes[address.toNat]?
    let low ← m.bytes[(address + 1).toNat]?
    some (.ok (joinBytes high low))
  else some (.error (.outsideMemory address.toNat Memory.wordSize))

def perform : MemoryChange → Option (Memory × Except MemoryFault Unit)
  | .place program =>
    if Memory.programCapacity < program.length then
      some (m, .error (.programTooLarge program.length Memory.programCapacity))
    else overwrite m programStart (programStart + BitVec.ofNat 64 program.length) program
  | .write address b =>
    match m.bytes[address.toNat]? with
    | some _ => some (⟨m.bytes.setIfInBounds address.toNat b⟩, .ok ())
    | none => some (m, .error (.outsideMemory address.toNat 1))
  | .fill address length b =>
    match check address length with
    | .ok () => overwrite m address (address + length) (List.replicate length.toNat b)
    | .error cause => some (m, .error cause)

end Wrapping

section Changes
variable (m : Memory) {c : MemoryChange}

theorem MemoryChange.inside_of_fits (fits : c.Fits) : c.start + c.bytes.length ≤ 4096 := by
  cases c with
  | place program => exact Nat.add_le_add_left fits 0x200
  | write a b => exact fits
  | fill a n b =>
    rw [bytes, List.length_replicate]
    exact fits

namespace Memory

theorem perform_of_fits (fits : c.Fits) :
    m.perform c = (⟨putFrom m.bytes c.start c.bytes⟩, .ok ()) := by
  have changed : m.changed? c = .ok ⟨putFrom m.bytes c.start c.bytes⟩ := by
    cases c with
    | place program => exact if_pos fits
    | write a b =>
      have inside : a.toNat < 4096 := fits
      have written : m.write a.toNat b = .ok ⟨m.bytes.set a.toNat b inside⟩ := dif_pos inside
      rw [Checked.set_eq_setIfInBounds] at written
      exact written
    | fill a n b =>
      have inside : a.toNat + n.toNat ≤ 4096 := fits
      have stored := m.store_eq a.toNat (List.replicate n.toNat b)
      rw [List.length_replicate, if_pos inside] at stored
      exact (if_pos inside).trans stored
  rw [perform, changed]

theorem perform_of_not_fits (outside : ¬ c.Fits) : m.perform c = (m, .error c.fault) := by
  have refused : m.changed? c = .error c.fault := by
    cases c with
    | place program => exact if_neg outside
    | write a b => exact dif_neg outside
    | fill a n b => exact if_neg outside
  rw [perform, refused]

/-- A byte after a change is what the change sets it to, or what it was before. -/
theorem getElem?_perform (c : MemoryChange) (i : Nat) :
    (m.perform c).1.bytes[i]? = (c.valueAt i).or m.bytes[i]? := by
  by_cases fits : c.Fits
  · rw [m.perform_of_fits fits]
    by_cases late : c.start ≤ i
    · rw [MemoryChange.valueAt, if_pos ⟨fits, late⟩]
      by_cases within : i - c.start < c.bytes.length
      · have written : (putFrom m.bytes c.start c.bytes)[c.start + (i - c.start)]? = _ :=
          getElem?_putFrom_inside (MemoryChange.inside_of_fits fits) within
        rw [Nat.add_sub_cancel' late] at written
        rw [written, List.getElem?_eq_getElem within]
        rfl
      · have behind : c.start + c.bytes.length ≤ i := by omega
        rw [getElem?_putFrom_outside (.inr behind), List.getElem?_eq_none (Nat.not_lt.mp within)]
        rfl
    · rw [getElem?_putFrom_outside (.inl (Nat.not_le.mp late)), MemoryChange.valueAt,
        if_neg fun both => late both.2]
      rfl
  · rw [m.perform_of_not_fits fits, MemoryChange.valueAt, if_neg fun both => fits both.1]
    rfl

/-- After a history of changes a byte is what the newest change that covers it sets it to. -/
theorem getElem?_performAll (changes : List MemoryChange) (i : Nat) :
    (m.performAll changes).bytes[i]? =
      (changes.reverse.findSome? fun c => c.valueAt i).or m.bytes[i]? := by
  induction changes generalizing m with
  | nil => rfl
  | cons c changes ih =>
    have first : m.performAll (c :: changes) = (m.perform c).1.performAll changes := rfl
    have last : [c].findSome? (fun c => c.valueAt i) = c.valueAt i := by
      cases value : c.valueAt i <;> simp [value]
    rw [first, ih, getElem?_perform, List.reverse_cons, List.findSome?_append, last,
      Option.or_assoc]

end Memory
end Changes

namespace Wrapping

section Blocks
variable {a n : Size}

theorem limit_toNat : limit.toNat = 4096 := rfl

theorem check_eq (a n : Size) : check a n =
    if a.toNat + n.toNat ≤ 4096 then .ok () else .error (.outsideMemory a.toNat n.toNat) := by
  by_cases fits : a.toNat + n.toNat < 18446744073709551616
  · have sum : sum? a n = some (a + n) := by
      rw [sum?, BitVec.uaddOverflow, decide_eq_false (Nat.not_le.mpr fits)]
      rfl
    have stop : (a + n).toNat = a.toNat + n.toNat := BitVec.toNat_add_of_lt fits
    simp only [check, sum, Option.any_some, BitVec.le_def, stop, limit_toNat, decide_eq_true_eq]
  · have overflows : sum? a n = none := by
      rw [sum?, BitVec.uaddOverflow, decide_eq_true (Nat.not_lt.mp fits)]
      rfl
    have outside : ¬ a.toNat + n.toNat ≤ 4096 := by omega
    rw [check, overflows, if_neg outside]
    rfl

/-- The bounds of a block that lies inside are in order, and apart by its length. -/
theorem bounds (inside : a.toNat + n.toNat ≤ 4096) :
    a ≤ a + n ∧ a + n ≤ limit ∧ (a + n - a).toNat = n.toNat := by
  have stop : (a + n).toNat = a.toNat + n.toNat := BitVec.toNat_add_of_lt (by omega)
  refine ⟨?_, ?_, ?_⟩
  · rw [BitVec.le_def, stop]
    exact Nat.le_add_right _ _
  · rw [BitVec.le_def, stop, limit_toNat]
    exact inside
  · rw [BitVec.add_comm, BitVec.add_sub_cancel]

theorem range_eq (m : Memory) (inside : a.toNat + n.toNat ≤ 4096) :
    range m a (a + n) = some (m.window a.toNat n.toNat) := by
  obtain ⟨ordered, below, apart⟩ := bounds inside
  rw [range, if_pos ⟨ordered, below⟩, apart]
  exact Checked.readFrom_eq _ inside

theorem overwrite_eq (m : Memory) {bs : List Byte} (length : n.toNat = bs.length)
    (inside : a.toNat + bs.length ≤ 4096) :
    overwrite m a (a + n) bs = some (⟨putFrom m.bytes a.toNat bs⟩, .ok ()) := by
  rw [← length] at inside
  obtain ⟨ordered, below, apart⟩ := bounds inside
  rw [length] at inside apart
  rw [overwrite, if_pos ⟨ordered, below, apart⟩, Checked.writeFrom_eq _ inside]
  rfl

end Blocks

variable (m : Memory)

theorem read_eq (a : Size) : read m a = m.read a.toNat := by
  by_cases inside : a.toNat < 4096
  · have found : m.read a.toNat = .ok m.bytes[a.toNat] := dif_pos inside
    rw [read, Vector.getElem?_eq_getElem inside, found]
  · have refused : m.read a.toNat = .error (.outsideMemory a.toNat 1) := dif_neg inside
    rw [read, Vector.getElem?_eq_none (Nat.not_lt.mp inside), refused]

theorem slice_eq (a n : Size) : slice m a n = some (m.slice a.toNat n.toNat) := by
  rw [slice, check_eq, m.slice_eq]
  by_cases inside : a.toNat + n.toNat ≤ 4096
  · rw [if_pos inside, if_pos inside, range_eq m inside]
    rfl
  · rw [if_neg inside, if_neg inside]

theorem word_eq {a : Size} (room : a.toNat < 18446744073709551615) :
    word m a = some (m.word a.toNat) := by
  have next : (a + 1).toNat = a.toNat + 1 := BitVec.toNat_add_of_lt (Nat.succ_lt_succ room)
  have bound : a + 1 < limit ↔ a.toNat + 1 < 4096 := by
    rw [BitVec.lt_def, next, limit_toNat]
  rw [word, m.word_eq]
  by_cases inside : a.toNat + 1 < 4096
  · rw [if_pos (bound.mpr inside), dif_pos inside, next, Vector.getElem?_eq_getElem inside,
      Vector.getElem?_eq_getElem (Nat.lt_of_succ_lt inside)]
    rfl
  · rw [if_neg fun below => inside (bound.mp below), dif_neg inside]

/-- At the last address of 64 bits the address of the second byte wraps and passes the check. -/
theorem word_at_last {a : Size} (last : ¬ a.toNat < 18446744073709551615) : word m a = none := by
  have top : a = BitVec.allOnes 64 := by
    apply BitVec.eq_of_toNat_eq
    have := a.isLt
    rw [BitVec.toNat_allOnes]
    omega
  have missing : m.bytes[a.toNat]? = none := Vector.getElem?_eq_none (by omega)
  have passes : a + 1 < limit := by
    rw [top]
    decide
  rw [word, if_pos passes, missing]
  rfl

theorem word_eq_iff (a : Size) :
    word m a = some (m.word a.toNat) ↔ a.toNat < 18446744073709551615 := by
  by_cases room : a.toNat < 18446744073709551615
  · exact iff_of_true (word_eq m room) room
  · rw [word_at_last m room]
    exact iff_of_false nofun room

theorem perform_eq (c : MemoryChange) : perform m c = some (m.perform c) := by
  by_cases fits : c.Fits
  · rw [m.perform_of_fits fits]
    cases c with
    | place program =>
      have small : program.length ≤ 3584 := fits
      have length : (BitVec.ofNat 64 program.length).toNat = program.length := by
        rw [BitVec.toNat_ofNat]
        omega
      have room : ¬ Memory.programCapacity < program.length := Nat.not_lt.mpr small
      rw [perform, if_neg room]
      exact overwrite_eq m length (MemoryChange.inside_of_fits fits)
    | write a b =>
      have found : m.bytes[a.toNat]? = some m.bytes[a.toNat] := Vector.getElem?_eq_getElem fits
      rw [perform, found]
      rfl
    | fill a n b =>
      have granted : check a n = .ok () := (check_eq a n).trans (if_pos fits)
      rw [perform, granted]
      exact overwrite_eq m List.length_replicate.symm (MemoryChange.inside_of_fits fits)
  · rw [m.perform_of_not_fits fits]
    cases c with
    | place program => exact if_pos (Nat.not_le.mp fits)
    | write a b =>
      have missing : m.bytes[a.toNat]? = none := Vector.getElem?_eq_none (Nat.not_lt.mp fits)
      rw [perform, missing]
      rfl
    | fill a n b =>
      have refused : check a n = .error (.outsideMemory a.toNat n.toNat) :=
        (check_eq a n).trans (if_neg fits)
      rw [perform, refused]
      rfl

end Wrapping

/-- There is a value where the condition holds and only there; elsewhere there is the fault. -/
def AnsweredWhere {α : Type} (answer : Except MemoryFault α) (inside : Prop)
    (fault : MemoryFault) : Prop :=
  ((∃ value, answer = .ok value) ↔ inside) ∧ (¬ inside → answer = .error fault)

theorem AnsweredWhere.intro {α : Type} {answer : Except MemoryFault α} {inside : Prop}
    {fault : MemoryFault} [Decidable inside] (granted : inside → ∃ value, answer = .ok value)
    (refused : ¬ inside → answer = .error fault) : AnsweredWhere answer inside fault := by
  refine ⟨⟨?_, granted⟩, refused⟩
  rintro ⟨value, answered⟩
  by_cases here : inside
  · exact here
  · rw [refused here] at answered
    cases answered

namespace Memory

/-- The accessors at an address, with a length where they take one: computed with 64-bit words they
are the unbounded ones, they are granted inside of the address space, and they read its bytes. -/
structure SeenAlike (m : Memory) (a n : Size) : Prop where
  read_unwrapped : Wrapping.read m a = m.read a.toNat
  slice_unwrapped : Wrapping.slice m a n = some (m.slice a.toNat n.toNat)
  word_unwrapped : Wrapping.word m a = some (m.word a.toNat) ↔ a.toNat < 18446744073709551615
  read_inside : AnsweredWhere (m.read a.toNat) (a.toNat < 4096) (.outsideMemory a.toNat 1)
  slice_inside : AnsweredWhere (m.slice a.toNat n.toNat) (a.toNat + n.toNat ≤ 4096)
    (.outsideMemory a.toNat n.toNat)
  word_inside : AnsweredWhere (m.word a.toNat) (a.toNat + 1 < 4096) (.outsideMemory a.toNat 2)
  read_byte : ∀ b, m.read a.toNat = .ok b ↔ m.bytes[a.toNat]? = some b
  slice_bytes : ∀ bs, m.slice a.toNat n.toNat = .ok bs → bs.length = n.toNat ∧
    ∀ j < n.toNat, ∃ b, bs[j]? = some b ∧ m.read (a.toNat + j) = .ok b
  word_bytes : ∀ w, m.word a.toNat = .ok w → ∃ high low, m.read a.toNat = .ok high ∧
    m.read (a.toNat + 1) = .ok low ∧ w.toNat = 256 * high.toNat + low.toNat

/-- A change computed with 64-bit words and in place is the unbounded one. It is granted where it
fits, and sets the bytes that it covers and no others; elsewhere it changes nothing. -/
structure Takes (m : Memory) (c : MemoryChange) : Prop where
  unwrapped : Wrapping.perform m c = some (m.perform c)
  answered : AnsweredWhere (m.perform c).2 c.Fits c.fault
  refused : ¬ c.Fits → (m.perform c).1 = m
  covered : c.Fits → ∀ k < c.bytes.length, (m.perform c).1.bytes[c.start + k]? = c.bytes[k]?
  others : ∀ i, i < c.start ∨ c.start + c.bytes.length ≤ i →
    (m.perform c).1.bytes[i]? = m.bytes[i]?

section Accessors
variable (m : Memory) (a n : Nat)

theorem read_answered : AnsweredWhere (m.read a) (a < 4096) (.outsideMemory a 1) :=
  .intro (fun inside => ⟨m.bytes[a], dif_pos inside⟩) fun outside => dif_neg outside

theorem slice_answered :
    AnsweredWhere (m.slice a n) (a + n ≤ 4096) (.outsideMemory a n) := by
  rw [m.slice_eq]
  exact .intro (fun inside => ⟨_, if_pos inside⟩) fun outside => if_neg outside

theorem word_answered : AnsweredWhere (m.word a) (a + 1 < 4096) (.outsideMemory a 2) := by
  rw [m.word_eq]
  exact .intro (fun inside => ⟨_, dif_pos inside⟩) fun outside => dif_neg outside

theorem read_eq_ok_iff (b : Byte) : m.read a = .ok b ↔ m.bytes[a]? = some b := by
  by_cases inside : a < 4096
  · have found : m.read a = .ok m.bytes[a] := dif_pos inside
    rw [found, Vector.getElem?_eq_getElem inside, Except.ok.injEq, Option.some.injEq]
  · have missing : m.bytes[a]? = none := Vector.getElem?_eq_none (Nat.not_lt.mp inside)
    rw [(m.read_answered a).2 inside, missing]
    exact iff_of_false nofun nofun

theorem bytes_of_slice {bs : List Byte} (sliced : m.slice a n = .ok bs) :
    bs.length = n ∧ ∀ j < n, ∃ b, bs[j]? = some b ∧ m.read (a + j) = .ok b := by
  have inside : a + n ≤ 4096 := (m.slice_answered a n).1.mp ⟨bs, sliced⟩
  rw [m.slice_eq, if_pos inside] at sliced
  cases sliced
  constructor
  · rw [window, List.length_take, List.length_drop, Vector.length_toList]
    omega
  · intro j within
    have there : a + j < 4096 := by omega
    refine ⟨m.bytes[a + j], ?_, dif_pos there⟩
    rw [m.getElem?_window within, Vector.getElem?_eq_getElem there]

theorem bytes_of_word {w : Word} (read : m.word a = .ok w) : ∃ high low,
    m.read a = .ok high ∧ m.read (a + 1) = .ok low ∧
      w.toNat = 256 * high.toNat + low.toNat := by
  have inside : a + 1 < 4096 := inside_of_word read
  rw [m.word_eq, dif_pos inside] at read
  cases read
  exact ⟨_, _, dif_pos (Nat.lt_of_succ_lt inside), dif_pos inside, joinBytes_toNat _ _⟩

end Accessors

theorem seenAlike (m : Memory) (a n : Size) : m.SeenAlike a n := by
  constructor
  case read_unwrapped => exact Wrapping.read_eq m a
  case slice_unwrapped => exact Wrapping.slice_eq m a n
  case word_unwrapped => exact Wrapping.word_eq_iff m a
  case read_inside => exact m.read_answered _
  case slice_inside => exact m.slice_answered _ _
  case word_inside => exact m.word_answered _
  case read_byte => exact m.read_eq_ok_iff _
  case slice_bytes => exact fun _ sliced => m.bytes_of_slice _ _ sliced
  case word_bytes => exact fun _ read => m.bytes_of_word _ read

theorem takes (m : Memory) (c : MemoryChange) : m.Takes c := by
  constructor
  case unwrapped => exact Wrapping.perform_eq m c
  case answered =>
    refine .intro (fun fits => ⟨(), ?_⟩) fun outside => ?_
    · rw [m.perform_of_fits fits]
    · rw [m.perform_of_not_fits outside]
  case refused =>
    intro outside
    rw [m.perform_of_not_fits outside]
  case covered =>
    intro fits k within
    rw [m.perform_of_fits fits]
    exact getElem?_putFrom_inside (MemoryChange.inside_of_fits fits) within
  case others =>
    intro i outside
    by_cases fits : c.Fits
    · rw [m.perform_of_fits fits]
      exact getElem?_putFrom_outside outside
    · rw [m.perform_of_not_fits fits]

/-- After any history of changes to a fresh memory, granted or refused, all accessors describe the
same 4096 bytes at every address and length of 64 bits, every change is taken in the same way, and
each byte holds what the newest change that covers it has put there. -/
theorem accessors_share_one_address_space (changes : List MemoryChange) :
    let m := initial.performAll changes
    (∀ a n : Size, m.SeenAlike a n) ∧ (∀ c : MemoryChange, m.Takes c) ∧
      ∀ i, m.bytes[i]? =
        (changes.reverse.findSome? fun c => c.valueAt i).or initial.bytes[i]? := by
  intro m
  exact ⟨m.seenAlike, m.takes, initial.getElem?_performAll changes⟩

theorem both_ends_are_guarded :
    let last : Size := 18446744073709551615
    let m := initial.performAll
      [.fill 0xFFE 2 5, .write last 9, .fill last 2 9, .place [], .write 0xFFF 6]
    m.read 0xFFE = .ok 5 ∧ m.read 0xFFF = .ok 6 ∧
      (∃ w, m.word 0xFFE = .ok w ∧ w.toNat = 0x506) ∧
      m.slice 4096 0 = .ok [] ∧
      Wrapping.slice m last 2 = some (.error (.outsideMemory 18446744073709551615 2)) ∧
      (m.perform (.fill last 2 9)).1 = m ∧
      (m.perform (.fill 0x200 3 7)).1.bytes[0x202]? = some 7 := by
  intro last m
  obtain ⟨seen, takes, newest⟩ := accessors_share_one_address_space
    [.fill 0xFFE 2 5, .write last 9, .fill last 2 9, .place [], .write 0xFFF 6]
  have high : m.read 0xFFE = .ok 5 := ((seen 0xFFE 0).read_byte 5).mpr (newest 0xFFE)
  have low : m.read 0xFFF = .ok 6 := ((seen 0xFFF 0).read_byte 6).mpr (newest 0xFFF)
  refine ⟨high, low, ?_, ?_, ?_, ?_, ?_⟩
  · obtain ⟨w, read⟩ := (seen 0xFFE 0).word_inside.1.mpr (by decide)
    obtain ⟨h, l, readHigh, readLow, value⟩ := (seen 0xFFE 0).word_bytes w read
    cases high.symm.trans readHigh
    cases low.symm.trans readLow
    exact ⟨w, read, value⟩
  · obtain ⟨bs, sliced⟩ := (seen 4096 0).slice_inside.1.mpr (by decide)
    have empty := ((seen 4096 0).slice_bytes bs sliced).1
    rw [List.length_eq_zero_iff.mp empty] at sliced
    exact sliced
  · exact (seen last 2).slice_unwrapped.trans
      (congrArg some ((seen last 2).slice_inside.2 (by decide)))
  · exact (takes (.fill last 2 9)).refused (by decide)
  · exact (takes (.fill 0x200 3 7)).covered (by decide) 2 (by decide)

end Memory

end ChipEight
