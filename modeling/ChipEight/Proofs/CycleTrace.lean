import ChipEight.Proofs.Pacing

/-
  The cycles of a history, one by one. A cycle is asked for on its own or runs inside a call that
  lets time pass; the trace lists the machines at which one starts, whichever way. As long as
  nobody loads, resets or fetches, only clocks and keys change between one cycle and the next.
-/
namespace ChipEight

/-- Loading, resetting and fetching move the program counter without running an instruction. -/
def Operation.intervenes : Operation → Bool
  | .load _ | .reset | .fetch => true
  | _ => false

namespace Machine
variable (m : Machine)

/-- The machine without what reaches it from outside: no time passed, no timer runs, and no key is
pressed. -/
def isolated : Machine := { m.unclocked with keypad := .released }

theorem isolated_of_ticks {m ticked : Machine} {elapsed : Nanoseconds} {yes : Bool}
    (ticks : m.tickTimers elapsed = some (ticked, yes)) : ticked.isolated = m.isolated :=
  congrArg (fun n => n.setKeypad .released) (tickTimers_clocks ticks).1

/-- What the clocks and the keys are not part of. -/
theorem parts_of_isolated {m other : Machine} (same : other.isolated = m.isolated) :
    other.config = m.config ∧ other.name = m.name ∧ other.lastWord = m.lastWord ∧
      other.memory = m.memory ∧ other.registers = m.registers ∧ other.stack = m.stack ∧
      other.display = m.display ∧ other.random = m.random := by
  simp only [isolated, unclocked, Machine.mk.injEq] at same
  obtain ⟨config, name, lastWord, memory, registers, stack, -, -, display, -, random, -, -⟩ := same
  exact ⟨config, name, lastWord, memory, registers, stack, display, random⟩

/-- The machines at which the loop of a call starts a cycle, in order. -/
def startsInLoop (interval : Nanoseconds) : Nat → Machine → List Machine
  | 0, _ => []
  | cap + 1, m =>
    if m.sinceCycle < interval then []
    else
      m.spend interval ::
        match (m.spend interval).cycle with
        | (_, .error _) => []
        | (next, .ok signal) =>
          if signal = .waiting then [] else startsInLoop interval cap next

def startsOf (m : Machine) : Operation → List Machine
  | .cycle => [m]
  | .advance elapsed =>
    match m.tickTimers elapsed with
    | none => []
    | some (ticked, _) =>
      match Clock.add ticked.sinceCycle elapsed with
      | none => []
      | some time =>
        startsInLoop ticked.config.cycleInterval ticked.config.maxCycles (ticked.withTime time)
  | _ => []

/-- The machines at which a history starts a cycle, in order. -/
def starts (m : Machine) : List Operation → List Machine
  | [] => []
  | op :: ops => m.startsOf op ++ (m.perform op).1.starts ops

/-- One cycle after the other, from machine to machine: a cycle starts where the one before it has
ended, and so does the end, up to the clocks and the keys. -/
inductive Unfolds : Machine → List Machine → Machine → Prop where
  | done {m final : Machine} (same : final.isolated = m.isolated) : Unfolds m [] final
  | step {m start final : Machine} {later : List Machine} (same : start.isolated = m.isolated)
      (rest : Unfolds start.cycle.1 later final) : Unfolds m (start :: later) final

namespace Unfolds
variable {m final : Machine}

theorem append {mid : Machine} {first second : List Machine} (before : Unfolds m first mid)
    (after : Unfolds mid second final) : Unfolds m (first ++ second) final := by
  induction before with
  | done same =>
    cases after with
    | done next => exact .done (next.trans same)
    | step next rest => exact .step (next.trans same) rest
  | step same _ ih => exact .step same (ih after)

theorem up_to {mid : Machine} {listed : List Machine} (trace : Unfolds m listed mid)
    (same : final.isolated = mid.isolated) : Unfolds m listed final := by
  simpa using trace.append (.done same)

/-- Behind a cycle the trace goes on from where that cycle has ended. -/
theorem behind {first later : List Machine} {start : Machine}
    (trace : Unfolds m (first ++ start :: later) final) :
    Unfolds start.cycle.1 later final := by
  induction first generalizing m with
  | nil =>
    cases trace with
    | step _ rest => exact rest
  | cons head first ih =>
    cases trace with
    | step _ rest => exact ih rest

theorem loop (m : Machine) (interval : Nanoseconds) (cap : Nat) (report : Report) :
    Unfolds m (startsInLoop interval cap m) (m.runCycles interval cap report).1 := by
  induction cap generalizing m report with
  | zero => exact .done rfl
  | succ cap ih =>
    rw [startsInLoop]
    by_cases late : m.sinceCycle < interval
    · rw [if_pos late, runCycles_late late]
      exact .done rfl
    · rw [if_neg late, runCycles_due (Nat.not_lt.mp late)]
      refine .step rfl ?_
      generalize (m.spend interval).cycle = ended
      obtain ⟨next, answer⟩ := ended
      cases answer with
      | error f => exact .done rfl
      | ok signal =>
        by_cases waits : signal = .waiting
        · simp only [if_pos waits]
          exact .done rfl
        · simp only [if_neg waits]
          exact ih next _

theorem advance (m : Machine) (elapsed : Nanoseconds) :
    Unfolds m (m.startsOf (.advance elapsed)) (m.advance elapsed).1 := by
  rw [startsOf, Machine.advance]
  cases ticks : m.tickTimers elapsed with
  | none => exact .done rfl
  | some answer =>
    obtain ⟨ticked, yes⟩ := answer
    have clocks := isolated_of_ticks ticks
    cases total : Clock.add ticked.sinceCycle elapsed with
    | none =>
      simp only [total]
      exact .done clocks
    | some time =>
      have looped := Unfolds.loop (ticked.withTime time) ticked.config.cycleInterval
        ticked.config.maxCycles { ticked := yes }
      have begun : Unfolds m [] (ticked.withTime time) := .done clocks
      have whole := begun.append looped
      simp only [total]
      -- the end of the call caps the time that is left, and nothing else
      split
      · rename_i done
        rw [withTime, done] at whole
        exact whole.up_to rfl
      · rename_i done
        rw [withTime, done] at whole
        exact whole

theorem perform {op : Operation} (m : Machine) (follows : op.intervenes = false) :
    Unfolds m (m.startsOf op) (m.perform op).1 := by
  cases op with
  | load program => cases follows
  | reset => cases follows
  | fetch => cases follows
  | cycle => exact .step rfl (.done rfl)
  | advance elapsed =>
    rw [perform_advance]
    exact Unfolds.advance m elapsed
  | tickTimers elapsed =>
    rw [Machine.perform]
    cases ticks : m.tickTimers elapsed with
    | none => exact .done rfl
    | some answer =>
      obtain ⟨ticked, yes⟩ := answer
      exact .done (isolated_of_ticks ticks)
  | setKey key pressed => exact .done rfl
  | toggleKey key => exact .done rfl
  | setKeypad keys => exact .done rfl

theorem run {ops : List Operation} (m : Machine)
    (follows : ∀ op ∈ ops, op.intervenes = false) : Unfolds m (m.starts ops) (m.run ops).1 := by
  induction ops generalizing m with
  | nil => exact .done rfl
  | cons op ops ih =>
    have first := Unfolds.perform m (follows op List.mem_cons_self)
    exact first.append (ih _ fun other mem => follows other (List.mem_cons_of_mem _ mem))

end Unfolds

section Keys
variable {m}

theorem keypad_startsInLoop {interval : Nanoseconds} {cap : Nat} {start : Machine}
    (mem : start ∈ startsInLoop interval cap m) : start.keypad = m.keypad := by
  induction cap generalizing m with
  | zero => cases mem
  | succ cap ih =>
    rw [startsInLoop] at mem
    by_cases late : m.sinceCycle < interval
    · rw [if_pos late] at mem
      cases mem
    · rw [if_neg late] at mem
      have kept := (m.spend interval).keypad_cycle
      rcases List.mem_cons.mp mem with rfl | later
      · rfl
      · generalize (m.spend interval).cycle = cycled at later kept
        obtain ⟨next, answer⟩ := cycled
        cases answer with
        | error f => cases later
        | ok signal =>
          by_cases waits : signal = .waiting
          · simp only [if_pos waits] at later
            cases later
          · simp only [if_neg waits] at later
            exact (ih later).trans kept

theorem keypad_startsOf {op : Operation} {start : Machine} (mem : start ∈ m.startsOf op) :
    start.keypad = m.keypad := by
  cases op with
  | cycle =>
    rw [startsOf, List.mem_singleton] at mem
    rw [mem]
  | advance elapsed =>
    unfold startsOf at mem
    cases ticks : m.tickTimers elapsed with
    | none => simp [ticks] at mem
    | some answer =>
      obtain ⟨ticked, yes⟩ := answer
      obtain ⟨delay, sound, sinceTick, rfl⟩ := sameButTimers_of_ticks ticks
      cases total : Clock.add m.sinceCycle elapsed with
      | none => simp [ticks, total] at mem
      | some time =>
        simp only [ticks, total] at mem
        have kept := keypad_startsInLoop mem
        exact kept
  | _ => cases mem

/-- The keys that a cycle finds are the ones that the history has left before the operation in which
the cycle runs. -/
theorem keypad_starts {ops : List Operation} {start : Machine} (mem : start ∈ m.starts ops) :
    ∃ before, before <+: ops ∧ start.keypad = (m.run before).1.keypad := by
  induction ops generalizing m with
  | nil => cases mem
  | cons op ops ih =>
    rw [starts, List.mem_append] at mem
    rcases mem with here | later
    · exact ⟨[], List.nil_prefix, keypad_startsOf here⟩
    · obtain ⟨before, earlier, same⟩ := ih later
      exact ⟨op :: before, List.cons_prefix_cons.mpr ⟨rfl, earlier⟩, same⟩

end Keys

section Reports
variable {m}

theorem length_startsInLoop {interval : Nanoseconds} {cap : Nat} {report ended : Report}
    {final : Machine} (done : m.runCycles interval cap report = (final, .ok ended)) :
    ended.cycles = report.cycles + (startsInLoop interval cap m).length := by
  induction cap generalizing m report with
  | zero =>
    cases done
    rfl
  | succ cap ih =>
    rw [startsInLoop]
    by_cases late : m.sinceCycle < interval
    · rw [runCycles_late late] at done
      cases done
      rw [if_pos late]
      rfl
    · rw [runCycles_due (Nat.not_lt.mp late)] at done
      rw [if_neg late, List.length_cons]
      generalize (m.spend interval).cycle = cycled at done ⊢
      obtain ⟨next, answer⟩ := cycled
      cases answer with
      | error f => cases done
      | ok signal =>
        by_cases waits : signal = .waiting
        · simp only [if_pos waits] at done ⊢
          cases done
          rfl
        · simp only [if_neg waits] at done ⊢
          have counted : (report.count signal).cycles = report.cycles + 1 := rfl
          rw [ih done, counted]
          omega

/-- A report counts the cycles of its call that the trace lists. -/
theorem length_startsOf_advance {elapsed : Nanoseconds} {report : Report}
    (done : (m.advance elapsed).2 = .ok report) :
    report.cycles = (m.startsOf (.advance elapsed)).length := by
  unfold advance at done
  unfold startsOf
  cases ticks : m.tickTimers elapsed with
  | none => simp [ticks] at done
  | some answer =>
    obtain ⟨ticked, yes⟩ := answer
    cases total : Clock.add ticked.sinceCycle elapsed with
    | none => simp [ticks, total] at done
    | some time =>
      simp only [ticks, total] at done ⊢
      generalize looped : Machine.runCycles _ _ _ _ = ended at done
      obtain ⟨final, answer⟩ := ended
      cases answer with
      | error f => cases done
      | ok last =>
        cases done
        rw [length_startsInLoop looped, Nat.zero_add]
        rfl

end Reports

end Machine
end ChipEight
