import ChipEight.Proofs.Lockstep

/-
  Where inputs are observed. Machines with other keys and other timers go from cycle to cycle alike,
  however their keys and timers change between the cycles, until an instruction asks for them. What
  no instruction asks for, the sound timer, the name and the last word, is not observed at all.
-/
namespace ChipEight

/-- The operations by which keys and timers change. -/
def Operation.isInput : Operation → Bool
  | .tickTimers _ | .setKey _ _ | .toggleKey _ | .setKeypad _ => true
  | _ => false

def Operation.isCycle : Operation → Bool
  | .cycle => true
  | _ => false

/-- Whether an instruction looks at the keys or at the delay timer. -/
def Instruction.readsInput : Instruction → Bool
  | .skipKey _ _ | .awaitKey _ | .readDelay _ => true
  | _ => false

namespace Difference

/-- Machines that differ in their inputs, and in what no instruction asks for. -/
def inputs : Difference where
  name := anything
  lastWord := anything
  delay := anything
  sound := anything
  keypad := anything
  sinceTick := anything

/-- Machines that differ in what no instruction asks for. -/
def labels : Difference where
  name := anything
  lastWord := anything
  sound := anything

theorem hidden_inputs : inputs.Hidden fun i => i.readsInput = false := by
  refine .of_core ⟨rfl, rfl, rfl⟩ ⟨fun _ => trivial, fun _ => trivial, fun _ => trivial⟩ ?_ nofun
  intro _ _ i _ blind keys
  cases i with
  | skipKey state x => cases blind
  | awaitKey x => cases blind
  | _ => cases keys

theorem unseen_labels : labels.Unseen fun _ => True where
  toHidden := .of_core ⟨rfl, rfl, rfl⟩ ⟨fun _ => trivial, fun _ => rfl, fun _ => trivial⟩
    (fun same _ _ => same) fun same _ => same
  pace := by
    rintro c _ rfl
    exact ⟨rfl, rfl⟩
  name := fun _ => trivial
  tick := fun _ => trivial
  outside := ⟨rfl, rfl, rfl, rfl⟩

end Difference

/-- Two histories of as many cycles, with inputs of any number and kind between them. -/
inductive SameRounds : List Operation → List Operation → Prop where
  | done : SameRounds [] []
  | cycle {ops ops' : List Operation} (rest : SameRounds ops ops') :
      SameRounds (.cycle :: ops) (.cycle :: ops')
  | left {op : Operation} {ops ops' : List Operation} (input : op.isInput = true)
      (rest : SameRounds ops ops') : SameRounds (op :: ops) ops'
  | right {op : Operation} {ops ops' : List Operation} (input : op.isInput = true)
      (rest : SameRounds ops ops') : SameRounds ops (op :: ops')

namespace SameRounds

theorem count_input {op : Operation} (input : op.isInput = true) (ops : List Operation) :
    (op :: ops).countP Operation.isCycle = ops.countP Operation.isCycle := by
  cases op <;> first | rfl | cases input

/-- Nothing more is asked of two such histories than that they have as many cycles. -/
theorem of_count {ops ops' : List Operation}
    (rounds : ∀ op ∈ ops, op.isCycle = true ∨ op.isInput = true)
    (rounds' : ∀ op ∈ ops', op.isCycle = true ∨ op.isInput = true)
    (number : ops.countP Operation.isCycle = ops'.countP Operation.isCycle) :
    SameRounds ops ops' := by
  induction ops generalizing ops' with
  | nil =>
    induction ops' with
    | nil => exact .done
    | cons op' ops' ih =>
      obtain ⟨kind', later'⟩ := List.forall_mem_cons.mp rounds'
      rcases kind' with cycle' | input'
      · simp [cycle'] at number
      · rw [count_input input'] at number
        exact .right input' (ih later' number)
  | cons op ops ih =>
    obtain ⟨kind, later⟩ := List.forall_mem_cons.mp rounds
    rcases kind with cycle | input
    · -- the second history reaches a cycle of its own behind some inputs
      induction ops' with
      | nil => simp [cycle] at number
      | cons op' ops' ih' =>
        obtain ⟨kind', later'⟩ := List.forall_mem_cons.mp rounds'
        rcases kind' with cycle' | input'
        · rw [List.countP_cons_of_pos cycle, List.countP_cons_of_pos cycle'] at number
          cases op <;> cases cycle
          cases op' <;> cases cycle'
          exact .cycle (ih later later' (Nat.succ.inj number))
        · rw [count_input input'] at number
          exact .right input' (ih' later' number)
    · rw [count_input input] at number
      exact .left input (ih later rounds' number)

end SameRounds

namespace Machine

variable {m m' : Machine} {op : Operation}

theorem startsOf_input (input : op.isInput = true) : m.startsOf op = [] := by
  cases op <;> first | rfl | cases input

theorem perform_input (input : op.isInput = true) : ∃ delay sound keypad sinceTick,
    (m.perform op).1 =
      { m with delay := delay, sound := sound, keypad := keypad, sinceTick := sinceTick } := by
  cases op with
  | tickTimers elapsed =>
    rw [Machine.perform]
    cases ticks : m.tickTimers elapsed with
    | none => exact ⟨_, _, _, _, rfl⟩
    | some answer =>
      obtain ⟨delay, sound, sinceTick, same⟩ := sameButTimers_of_ticks ticks
      exact ⟨delay, sound, _, sinceTick, same⟩
  | setKey key pressed => exact ⟨_, _, _, _, rfl⟩
  | toggleKey key => exact ⟨_, _, _, _, rfl⟩
  | setKeypad keys => exact ⟨_, _, _, _, rfl⟩
  | _ => cases input

namespace Alike
variable (same : m.Alike .inputs m')
include same

theorem input_left (input : op.isInput = true) : (m.perform op).1.Alike .inputs m' := by
  obtain ⟨delay, sound, keypad, sinceTick, changed⟩ := m.perform_input input
  rw [changed]
  exact { same with delay := trivial, sound := trivial, keypad := trivial, sinceTick := trivial }

theorem input_right (input : op.isInput = true) : m.Alike .inputs (m'.perform op).1 := by
  obtain ⟨delay, sound, keypad, sinceTick, changed⟩ := m'.perform_input input
  rw [changed]
  exact { same with delay := trivial, sound := trivial, keypad := trivial, sinceTick := trivial }

/-- Cycle for cycle, machines with different inputs do the same. -/
theorem rounds {ops ops' : List Operation} (rounds : SameRounds ops ops')
    (blind : ∀ s ∈ m.starts ops, ∀ i ∈ s.executed, i.readsInput = false) :
    List.Forall₂ (fun s s' => s.Alike .inputs s' ∧ s.cycle.2 = s'.cycle.2 ∧
        s.cycle.1.Alike .inputs s'.cycle.1) (m.starts ops) (m'.starts ops') ∧
      (m.run ops).1.Alike .inputs (m'.run ops').1 := by
  induction rounds generalizing m m' with
  | done => exact ⟨.nil, same⟩
  | cycle rest ih =>
    obtain ⟨next, answer⟩ := same.cycle Difference.hidden_inputs (blind m List.mem_cons_self)
    obtain ⟨pairs, final⟩ := ih next fun s mem => blind s (List.mem_cons_of_mem _ mem)
    exact ⟨.cons ⟨same, answer, next⟩ pairs, final⟩
  | left input rest ih =>
    rw [starts, startsOf_input input, List.nil_append] at blind ⊢
    exact ih (same.input_left input) blind
  | right input rest ih =>
    rw [starts, startsOf_input input, List.nil_append]
    exact ih (same.input_right input) blind

end Alike

/-- Keys and timers reach the program through the instructions that ask for them, and the sound
timer, the name and the last word do not reach it. -/
theorem inputs_reach_who_asks (m m' : Machine) :
    (m.Alike .inputs m' → ∀ ops ops' : List Operation,
      (∀ op ∈ ops, op.isCycle = true ∨ op.isInput = true) →
      (∀ op ∈ ops', op.isCycle = true ∨ op.isInput = true) →
      ops.countP Operation.isCycle = ops'.countP Operation.isCycle →
      (∀ s ∈ m.starts ops, ∀ i ∈ s.executed, i.readsInput = false) →
      List.Forall₂ (fun s s' => s.Alike .inputs s' ∧ s.cycle.2 = s'.cycle.2 ∧
          s.cycle.1.Alike .inputs s'.cycle.1) (m.starts ops) (m'.starts ops') ∧
        (m.run ops).1.Alike .inputs (m'.run ops').1) ∧
    (m.Alike .labels m' → ∀ ops : List Operation,
      List.Forall₂ (fun now now' => now.1.Alike .labels now'.1 ∧ now.2 = now'.2)
        (m.trace ops) (m'.trace ops)) := by
  constructor
  · intro same ops ops' rounds rounds' number blind
    exact same.rounds (.of_count rounds rounds' number) blind
  · intro same ops
    exact same.trace Difference.unseen_labels fun _ _ _ _ => trivial

/-- Four instructions that do not ask for inputs, and three that do. -/
def asking : Program :=
  ⟨"", [0xC1, 0xFF, 0xF1, 0x18, 0xF1, 0x15, 0xD1, 0x25, 0xF2, 0x07, 0xE2, 0x9E, 0xF3, 0x0A]⟩

theorem asking_program_before_it_asks :
    let m := ((powerOn {} (.cyclic #[0x42])).load asking).1
    let pressed : Machine :=
      { m with delay := ⟨9⟩, keypad := m.keypad.set 3 true, sinceTick := 5, lastWord := 0x1234 }
    let named : Machine := { m with name := "other", lastWord := 0xFFFF, sound := ⟨7⟩ }
    let ops : List Operation := [.cycle, .tickTimers 20000000, .cycle, .cycle, .setKey 1 true, .cycle]
    let ops' : List Operation := [.toggleKey 3, .cycle, .cycle, .cycle, .cycle, .tickTimers 1]
    let whole : List Operation := ops ++ [.advance 4000000, .cycle, .tickTimers 20000000]
    m.Alike .inputs pressed ∧ (∀ s ∈ m.starts ops, ∀ i ∈ s.executed, i.readsInput = false) ∧
      (m.run ops).1.Alike .inputs (pressed.run ops').1 ∧ m.Alike .labels named ∧
      List.Forall₂ (fun now now' => now.1.Alike .labels now'.1 ∧ now.2 = now'.2)
        (m.trace whole) (named.trace whole) := by
  intro m pressed named ops ops' whole
  have same : m.Alike .inputs pressed := by
    constructor
    all_goals first | rfl | trivial
  have unlabelled : m.Alike .labels named := by
    constructor
    all_goals first | rfl | trivial
  have blind : ∀ s ∈ m.starts ops, ∀ i ∈ s.executed, i.readsInput = false := by decide +kernel
  have alike := (inputs_reach_who_asks m pressed).1 same ops ops' (by decide) (by decide)
    (by decide) blind
  exact ⟨same, blind, alike.2, unlabelled, (inputs_reach_who_asks m named).2 unlabelled whole⟩

end Machine
end ChipEight
