import ChipEight.Machine.Execute

/-
  One cycle: fetch, decode, execute, and the step of the program counter.
-/
namespace ChipEight.Machine

/-- The instruction that the next cycle runs, or why there is none. -/
def current (m : Machine) : Except Fault Instruction :=
  match m.memory.word m.counter.toNat with
  | .error cause => .error (.memory cause)
  | .ok word =>
    match Instruction.decode word with
    | .error cause => .error (.decode cause)
    | .ok instruction => .ok instruction

def executeWord (m : Machine) (word : Word) : Outcome :=
  match Instruction.decode word with
  | .error cause => (m, .error (.decode cause))
  | .ok instruction => m.execute instruction

/-- Puts back what a fetch has changed. -/
def unfetch (m before : Machine) : Machine :=
  { m with lastWord := before.lastWord }.setCounter before.counter

/-- Fetches and executes one instruction. After a fault the counter and the last word are put
back; nothing else has changed by then. -/
def cycle (m : Machine) : Machine × Except Fault Signal :=
  match m.fetch with
  | (fetched, .error f) => (fetched, .error f)
  | (fetched, .ok word) =>
    match fetched.executeWord word with
    | (done, .ok (step, signal)) => (done.setCounter (step.apply done.counter), .ok signal)
    | (failed, .error f) => (failed.unfetch m, .error f)

end ChipEight.Machine
