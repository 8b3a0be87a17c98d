import ChipEight.Proofs.CycleTrace

/-
  How the random bytes are given out. They go to the instructions that draw one, in order and one to
  each; nothing else in a history takes a byte, and nothing gives one back.
-/
namespace ChipEight

namespace RandomSource

/-- The source behind its next bytes. -/
def skip (r : RandomSource) (n : Nat) : RandomSource := { r with taken := r.taken + n }

theorem skip_skip (r : RandomSource) (n k : Nat) : (r.skip n).skip k = r.skip (n + k) := by
  simp only [skip, Nat.add_assoc]

end RandomSource

namespace Machine

/-- Whether the next cycle runs an instruction that draws a random byte. -/
def drawsByte (m : Machine) : Bool :=
  match m.executed with
  | some (.random _ _) => true
  | _ => false

theorem random_cycle (m : Machine) : m.cycle.1.random = m.random.skip m.drawsByte.toNat := by
  rcases m.executed_cases with ⟨none, same⟩ | ⟨w, i, runs, done⟩
  · rw [drawsByte, none, same]
    rfl
  · rw [drawsByte, runs, done]
    cases i <;> rfl

theorem skip_after_cycle (m : Machine) (later : List Machine) :
    m.cycle.1.random.skip (later.countP drawsByte) =
      m.random.skip ((m :: later).countP drawsByte) := by
  rw [m.random_cycle, RandomSource.skip_skip, List.countP_cons, Nat.add_comm]
  cases m.drawsByte <;> rfl

/-- What an instruction that draws a byte does with it. -/
theorem cycle_of_draw {m : Machine} {x : Reg} {mask : Byte}
    (draws : m.executed = some (.random x mask)) : m.cycle.2 = .ok .quiet ∧
      m.cycle.1.reg x = mask &&& m.random.stream m.random.taken := by
  rcases m.executed_cases with ⟨none, -⟩ | ⟨w, i, runs, done⟩
  · rw [none] at draws
    cases draws
  · rw [runs] at draws
    cases draws
    rw [done]
    have set : (m.ran w (.random x mask)).reg x =
        (m.registers.set x (mask &&& m.random.stream m.random.taken)).get x := rfl
    rw [set, Registers.get_set, if_pos rfl]
    exact ⟨rfl, rfl⟩

end Machine

/-- One cycle after the other, each with the source that the one before it has left. -/
inductive Serves : RandomSource → List Machine → RandomSource → Prop where
  | done (r : RandomSource) : Serves r [] r
  | step {start : Machine} {later : List Machine} {left : RandomSource}
      (rest : Serves start.cycle.1.random later left) : Serves start.random (start :: later) left

namespace Serves
variable {r mid left : RandomSource} {starts first second : List Machine}

theorem append (before : Serves r first mid) (after : Serves mid second left) :
    Serves r (first ++ second) left := by
  induction before with
  | done => exact after
  | step _ ih => exact .step (ih after)

theorem of_unfolds {m final : Machine} (trace : m.Unfolds starts final) :
    Serves m.random starts final.random := by
  induction trace with
  | done same =>
    obtain ⟨-, -, -, -, -, -, -, random⟩ := Machine.parts_of_isolated same
    rw [random]
    exact .done _
  | step same _ ih =>
    obtain ⟨-, -, -, -, -, -, -, random⟩ := Machine.parts_of_isolated same
    rw [← random]
    exact .step ih

theorem perform (m : Machine) (op : Operation) :
    Serves m.random (m.startsOf op) (m.perform op).1.random := by
  cases op with
  | load program =>
    rw [Machine.perform, Machine.load_eq]
    split <;> exact .done _
  | reset => exact .done _
  | fetch =>
    rw [Machine.perform, Machine.fetch_eq]
    cases m.memory.word m.counter.toNat <;> exact .done _
  | _ => exact of_unfolds (.perform m rfl)

theorem run (m : Machine) (ops : List Operation) :
    Serves m.random (m.starts ops) (m.run ops).1.random := by
  induction ops generalizing m with
  | nil => exact .done _
  | cons op ops ih => exact (perform m op).append (ih (m.perform op).1)

/-- As many bytes are gone as there were cycles that drew one. -/
theorem left_eq (serves : Serves r starts left) :
    left = r.skip (starts.countP Machine.drawsByte) := by
  induction serves with
  | done => rfl
  | @step start later left rest ih => rw [ih, start.skip_after_cycle]

/-- A cycle finds the source behind the bytes of the cycles before it. -/
theorem turn {before after : List Machine} {start : Machine}
    (serves : Serves r (before ++ start :: after) left) :
    start.random = r.skip (before.countP Machine.drawsByte) := by
  induction before generalizing r with
  | nil =>
    cases serves with
    | step _ => rfl
  | cons head before ih =>
    cases serves with
    | step rest => rw [ih rest, head.skip_after_cycle]

end Serves

namespace Machine

/-- A cycle that draws a byte gets the one behind the bytes of the draws since power on. -/
theorem random_bytes_in_order (config : Config) (random : RandomSource) (ops : List Operation) :
    let m := powerOn config random
    (m.run ops).1.random = random.skip ((m.starts ops).countP drawsByte) ∧
    (∀ (now : Machine) (op : Operation),
      (now.perform op).1.random = now.random.skip ((now.startsOf op).countP drawsByte)) ∧
    ∀ before start after, m.starts ops = before ++ start :: after →
      let k := before.countP drawsByte
      start.random = random.skip k ∧
      (start.drawsByte = false → start.cycle.1.random = random.skip k) ∧
      ∀ x mask, start.executed = some (.random x mask) → start.cycle.2 = .ok .quiet ∧
        start.cycle.1.reg x = mask &&& random.stream (random.taken + k) ∧
        start.cycle.1.random = random.skip (k + 1) := by
  intro m
  refine ⟨(Serves.run m ops).left_eq, fun now op => (Serves.perform now op).left_eq, ?_⟩
  intro before start after split k
  have serves := Serves.run m ops
  rw [split] at serves
  have turn : start.random = random.skip k := serves.turn
  refine ⟨turn, ?_, ?_⟩
  · intro other
    rw [start.random_cycle, other, turn]
    rfl
  · intro x mask runs
    have draws : start.drawsByte = true := by rw [drawsByte, runs]
    obtain ⟨answer, drawn⟩ := cycle_of_draw runs
    rw [turn] at drawn
    refine ⟨answer, drawn, ?_⟩
    rw [start.random_cycle, draws, turn]
    rfl

/-- Two draws, and the empty word behind them. -/
def twoDraws : Program := ⟨"", [0xC1, 0xFF, 0xC2, 0x0F]⟩

/-- One draw, a cycle that fails in the empty memory, and two draws in one call. -/
def drawHistory : List Operation :=
  [.load twoDraws, .cycle, .reset, .cycle, .load twoDraws, .setKey 1 true, .advance 4000000, .cycle]

def threeBytes : RandomSource := .cyclic #[0x11, 0x22, 0x35]

theorem third_byte_behind_a_reset :
    ∃ before start after, (powerOn {} threeBytes).starts drawHistory = before ++ start :: after ∧
      before.countP drawsByte = 2 ∧ start.executed = some (.random 2 0x0F) ∧
      start.cycle.1.reg 2 = 0x05 ∧
      ((powerOn {} threeBytes).run drawHistory).1.random = threeBytes.skip 3 := by
  obtain ⟨total, -, turns⟩ := random_bytes_in_order {} threeBytes drawHistory
  obtain ⟨count, earlier, fourth⟩ :
      ((powerOn {} threeBytes).starts drawHistory).countP drawsByte = 3 ∧
      (((powerOn {} threeBytes).starts drawHistory).take 3).countP drawsByte = 2 ∧
      ((powerOn {} threeBytes).starts drawHistory)[3]?.bind executed = some (.random 2 0x0F) := by
    decide +kernel
  obtain ⟨start, fourth, runs⟩ := Option.bind_eq_some_iff.mp fourth
  obtain ⟨inside, rfl⟩ := List.getElem?_eq_some_iff.mp fourth
  have split := List.take_append_drop 3 ((powerOn {} threeBytes).starts drawHistory)
  rw [List.drop_eq_getElem_cons inside] at split
  have drawn := ((turns _ _ _ split.symm).2.2 2 0x0F runs).2.1
  rw [earlier] at drawn
  rw [count] at total
  exact ⟨_, _, _, split.symm, earlier, runs, drawn.trans (by decide), total⟩

end Machine
end ChipEight
