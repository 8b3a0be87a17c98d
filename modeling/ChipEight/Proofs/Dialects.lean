import ChipEight.Proofs.Lockstep

/-
  What the dialect of a machine has a part in. Machines of two dialects that are the same otherwise
  go through a history alike for as long as no instruction runs that the dialects read differently.
-/
namespace ChipEight

/-- Machines of two dialects. Their random bytes may come from two sources that give the same. -/
def Difference.dialects (d d' : Dialect) : Difference where
  config c c' := c.dialect = d ∧ c' = { c with dialect := d' }
  random := RandomSource.SameBytes

/-- Beside the instructions that the dialects read differently nothing sees which one it is. -/
theorem Difference.unseen_dialects (d d' : Dialect) :
    (dialects d d').Unseen fun i => d.choice i = d'.choice i where
  dialect := by
    rintro c _ i ⟨rfl, rfl⟩ agree
    exact agree
  keys := fun same _ _ => same
  time := fun same _ => same
  lastWord := fun _ => rfl
  delay := fun _ => rfl
  sound := fun _ => rfl
  clear := congrArg Display.clear
  draw := by
    rintro d _ x y sprite rfl
    exact ⟨rfl, rfl⟩
  take := RandomSource.SameBytes.take
  pace := by
    rintro c _ ⟨-, rfl⟩
    exact ⟨rfl, rfl⟩
  name := fun _ => rfl
  tick := congrArg Timer.tick
  outside := ⟨rfl, rfl, rfl, rfl⟩

namespace Machine

/-- Machines that differ in their dialects answer alike and stay the same otherwise, after every
operation of a history in which no instruction runs for which the dialects choose differently. -/
theorem dialects_part_at_their_own_instructions {d d' : Dialect} {m m' : Machine}
    {ops : List Operation} (same : m.Alike (.dialects d d') m')
    (neutral : ∀ s ∈ m.starts ops, ∀ i ∈ s.executed, d.choice i = d'.choice i) :
    List.Forall₂ (fun now now' => now.1.Alike (.dialects d d') now'.1 ∧ now.2 = now'.2)
      (m.trace ops) (m'.trace ops) :=
  same.trace (Difference.unseen_dialects d d') neutral

/-- Two dialects that agree on storing registers and on key skips. -/
def shifting : Dialect := { shiftReadsY := true, jumpAddsX := true, storeMovesIndex := true }
def storing : Dialect := { storeMovesIndex := true }

/-- A shift of register 1 onto itself, registers stored, a key skip, a random byte, and a jump from
a base that names register 0 to a word that is no instruction. -/
def neutralProgram : Program :=
  ⟨"", [0x61, 0x05, 0x81, 0x16, 0xF1, 0x55, 0xE1, 0x9E, 0xC2, 0xFF, 0xB0, 0x10]⟩

def neutralHistory : List Operation :=
  [.load neutralProgram, .cycle, .advance 8000000, .setKey 3 true, .cycle, .cycle]

theorem neutral_program_runs_alike :
    let m := powerOn { dialect := shifting } (.cyclic #[0x42, 0x24])
    let m' := powerOn { dialect := storing } (.cyclic #[0x42, 0x24])
    m.Alike (.dialects shifting storing) m' ∧
      (∀ s ∈ m.starts neutralHistory, ∀ i ∈ s.executed, shifting.choice i = storing.choice i) ∧
      List.Forall₂ (fun now now' => now.1.Alike (.dialects shifting storing) now'.1 ∧
        now.2 = now'.2) (m.trace neutralHistory) (m'.trace neutralHistory) := by
  intro m m'
  have same : m.Alike (.dialects shifting storing) m' := by
    constructor
    all_goals first | rfl | exact ⟨rfl, rfl⟩ | exact fun _ => rfl
  have neutral : ∀ s ∈ m.starts neutralHistory, ∀ i ∈ s.executed,
      shifting.choice i = storing.choice i := by decide +kernel
  exact ⟨same, neutral, dialects_part_at_their_own_instructions same neutral⟩

end Machine
end ChipEight
