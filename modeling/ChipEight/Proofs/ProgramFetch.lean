import ChipEight.Proofs.BigEndian
import ChipEight.Proofs.FaultTable
import ChipEight.Proofs.FreshStart

/-
  A program read back by fetching. Behind a load the counter stands at the first byte of the
  program; each fetch reads two bytes and moves on by two, so a program that ends with a single byte
  is read as if a zero stood behind it. The last word of memory is the last one to be fetched.
-/
namespace ChipEight

namespace Memory

theorem getElem?_holding (program : List Byte) {i : Nat} (inside : i < 3584) :
    (holding program).bytes[0x200 + i]? = some (program[i]?.getD 0) := by
  have there : 0x200 + i < 4096 := by omega
  have late : 0x200 ≤ 0x200 + i := Nat.le_add_right _ _
  have place : 0x200 + i - 0x200 = i := Nat.add_sub_cancel_left _ _
  rw [Vector.getElem?_eq_getElem there, holding, Vector.getElem_ofFn]
  simp only [if_pos late, place]

theorem word_holding (program : List Byte) {k : Nat} (inside : k < 1792) :
    (holding program).word (0x200 + 2 * k) = .ok (paddedWord program k) := by
  rw [word_of_inside (by omega), pairAt, paddedWord, Nat.add_assoc,
    getElem?_holding program (by omega), getElem?_holding program (by omega), Option.getD_some,
    Option.getD_some]

end Memory

namespace Machine

/-- The counter at word `k` of a program. -/
def wordCounter (k : Nat) : Word := BitVec.ofNat 16 (0x200 + 2 * k)

theorem wordCounter_toNat {k : Nat} (inside : k ≤ 1792) :
    (wordCounter k).toNat = 0x200 + 2 * k := by
  rw [wordCounter, BitVec.toNat_ofNat]
  omega

theorem wordCounter_add_two (k : Nat) : wordCounter k + 2 = wordCounter (k + 1) := by
  apply BitVec.eq_of_toNat_eq
  simp [wordCounter]
  omega

/-- The machine with its counter at word `k` of the program, behind a fetch of some word. -/
def readUpTo (loaded : Machine) (last : Word) (k : Nat) : Machine :=
  { loaded with lastWord := last }.setCounter (wordCounter k)

/-- The machine after as many fetches. -/
def afterFetches (m : Machine) (count : Nat) : Machine :=
  (m.run (List.replicate count .fetch)).1

theorem afterFetches_succ (m : Machine) (count : Nat) :
    m.afterFetches (count + 1) = (m.afterFetches count).fetch.1 := by
  rw [afterFetches, List.replicate_succ', run_append]
  rfl

theorem answers_succ (m : Machine) (count : Nat) :
    (m.run (List.replicate (count + 1) .fetch)).2 =
      (m.run (List.replicate count .fetch)).2 ++
        [.ofExcept .word (m.afterFetches count).fetch.2] := by
  rw [List.replicate_succ', run_answers_append]
  rfl

theorem fetch_of_word {m : Machine} {w : Word} (word : m.memory.word m.counter.toNat = .ok w) :
    m.fetch = (m.fetched w, .ok w) := by
  rw [fetch_eq, word]

theorem fetch_of_outside {m : Machine} (outside : 4096 ≤ m.counter.toNat + 1) :
    m.fetch = (m, .error (.memory (.outsideMemory m.counter.toNat 2))) := by
  rw [fetch_eq, Memory.word_eq, dif_neg (Nat.not_lt.mpr outside)]
  rfl

section Loaded
variable {loaded : Machine} {program : List Byte} (memory : loaded.memory = .holding program)
  (start : loaded.counter = wordCounter 0)

theorem readUpTo_zero (start : loaded.counter = wordCounter 0) :
    loaded.readUpTo loaded.lastWord 0 = loaded := by
  rw [readUpTo, ← start]
  rfl

include memory

theorem fetch_readUpTo {k : Nat} (inside : k < 1792) (last : Word) :
    (loaded.readUpTo last k).fetch =
      (loaded.readUpTo (paddedWord program k) (k + 1), .ok (paddedWord program k)) := by
  have word : (loaded.readUpTo last k).memory.word (loaded.readUpTo last k).counter.toNat =
      .ok (paddedWord program k) := by
    show loaded.memory.word (wordCounter k).toNat = _
    rw [memory, wordCounter_toNat (by omega), Memory.word_holding program inside]
  have next : loaded.readUpTo (paddedWord program k) (k + 1) =
      (loaded.readUpTo last k).fetched (paddedWord program k) := by
    rw [readUpTo, ← wordCounter_add_two]
    rfl
  rw [fetch_of_word word, next]

include start

/-- Whatever was fetched last, the fetches so far have moved nothing but the counter. -/
theorem afterFetches_eq {count : Nat} (inside : count ≤ 1792) :
    ∃ last, loaded.afterFetches count = loaded.readUpTo last count := by
  induction count with
  | zero => exact ⟨loaded.lastWord, (readUpTo_zero start).symm⟩
  | succ k ih =>
    obtain ⟨last, before⟩ := ih (by omega)
    refine ⟨paddedWord program k, ?_⟩
    rw [afterFetches_succ, before, fetch_readUpTo memory (by omega)]

theorem fetch_within {k : Nat} (inside : k < 1792) :
    (loaded.afterFetches k).fetch =
      (loaded.readUpTo (paddedWord program k) (k + 1), .ok (paddedWord program k)) := by
  obtain ⟨last, before⟩ := afterFetches_eq memory start (Nat.le_of_lt inside)
  rw [before, fetch_readUpTo memory inside]

theorem counter_at_end {count : Nat} (late : 1792 ≤ count) :
    (loaded.afterFetches count).counter.toNat = 0x1000 := by
  obtain ⟨more, rfl⟩ := Nat.exists_eq_add_of_le late
  induction more with
  | zero =>
    obtain ⟨last, before⟩ := afterFetches_eq memory start (Nat.le_refl 1792)
    rw [Nat.add_zero, before]
    rfl
  | succ more ih =>
    have behind := ih (Nat.le_add_right 1792 more)
    rw [← Nat.add_assoc, afterFetches_succ, fetch_of_outside (by omega)]
    exact behind

theorem fetch_behind {k : Nat} (late : 1792 ≤ k) :
    (loaded.afterFetches k).fetch =
      (loaded.afterFetches k, .error (.memory (.outsideMemory 0x1000 2))) := by
  have counter := counter_at_end memory start late
  rw [fetch_of_outside (by omega), counter]

theorem answers_eq {count : Nat} (inside : count ≤ 1792) :
    (loaded.run (List.replicate count .fetch)).2 =
      (List.range count).map fun k => .word (paddedWord program k) := by
  induction count with
  | zero => rfl
  | succ k ih =>
    rw [answers_succ, ih (by omega), fetch_within memory start (by omega), List.range_succ,
      List.map_append]
    rfl

end Loaded

theorem load_of_fits (m : Machine) (program : Program) (fits : program.bytes.length ≤ 3584) :
    m.load program =
      ({ m.reset with memory := .holding program.bytes, name := program.name }, .ok ()) := by
  rw [load_eq_holding, if_pos fits]

theorem paddedWords_bytesOf (words : List Word) :
    (List.range words.length).map (fun k => Answer.word (paddedWord (bytesOf words) k)) =
      words.map .word := by
  apply List.ext_getElem
  · simp
  · intro k below inside
    have there : k < words.length := by simpa using inside
    simp [paddedWord_bytesOf (List.getElem?_eq_getElem there)]

/-- After a load into any machine, each fetch gives the next big-endian word of the program, which
is padded with zeros, and changes nothing but the counter and the last word. Behind the last word
of memory every fetch fails and changes nothing. So words that are loaded are fetched in order. -/
theorem program_is_fetched_back (m : Machine) (name : String) :
    (∀ data : List Byte, data.length ≤ 3584 →
      let loaded := (m.load ⟨name, data⟩).1
      (m.load ⟨name, data⟩).2 = .ok () ∧
        (∀ k, 0x200 + 2 * k ≤ 0xFFE →
          (loaded.afterFetches k).fetch =
            ({ loaded with lastWord := paddedWord data k }.setCounter
              (BitVec.ofNat 16 (0x202 + 2 * k)), .ok (paddedWord data k))) ∧
        ∀ k, 1792 ≤ k →
          (loaded.afterFetches k).fetch =
            (loaded.afterFetches k, .error (.memory (.outsideMemory 0x1000 2)))) ∧
      ∀ words : List Word, words.length ≤ 1792 →
        let loaded := (m.load ⟨name, bytesOf words⟩).1
        (m.load ⟨name, bytesOf words⟩).2 = .ok () ∧
          (loaded.run (List.replicate words.length .fetch)).2 = words.map .word := by
  constructor
  · intro data fits loaded
    have load := m.load_of_fits ⟨name, data⟩ fits
    have memory : loaded.memory = .holding data := congrArg (fun r => r.1.memory) load
    have start : loaded.counter = wordCounter 0 := congrArg (fun r => r.1.counter) load
    refine ⟨by rw [load], ?_, fun k => fetch_behind memory start⟩
    intro k inside
    have next : 0x200 + 2 * (k + 1) = 0x202 + 2 * k := by omega
    rw [fetch_within memory start (by omega), readUpTo, wordCounter, next]
  · intro words fits loaded
    have short : (bytesOf words).length ≤ 3584 := by
      rw [length_bytesOf]
      omega
    have load := m.load_of_fits ⟨name, bytesOf words⟩ short
    have memory : loaded.memory = .holding (bytesOf words) := congrArg (fun r => r.1.memory) load
    have start : loaded.counter = wordCounter 0 := congrArg (fun r => r.1.counter) load
    refine ⟨by rw [load], ?_⟩
    rw [answers_eq memory start fits, paddedWords_bytesOf]

theorem odd_program_is_fetched_with_a_zero :
    let off := powerOn {} (.cyclic #[0])
    let odd := (off.load ⟨"odd", [0x12, 0x34, 0x56]⟩).1
    let even := (off.load ⟨"even", bytesOf [0x00E0, 0x1200]⟩).1
    (odd.afterFetches 1).fetch =
        ({ odd with lastWord := 0x5600 }.setCounter 0x204, .ok 0x5600) ∧
      (odd.afterFetches 1792).fetch =
        (odd.afterFetches 1792, .error (.memory (.outsideMemory 0x1000 2))) ∧
      (even.run (List.replicate 2 .fetch)).2 = [.word 0x00E0, .word 0x1200] := by
  intro off odd even
  have oddFetches := ((off.program_is_fetched_back "odd").1 [0x12, 0x34, 0x56] (by decide)).2
  have evenFetches := (off.program_is_fetched_back "even").2 [0x00E0, 0x1200] (by decide)
  exact ⟨oddFetches.1 1 (by decide), oddFetches.2 1792 (by decide), evenFetches.2⟩

end Machine
end ChipEight
