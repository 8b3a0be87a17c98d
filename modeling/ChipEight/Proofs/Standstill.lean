import ChipEight.Proofs.CycleTrace
import ChipEight.Proofs.FaultTable

/-
  Machines that do not get on. What makes a cycle fail lies inside the machine, so neither time nor
  keys help it, and a failed cycle leaves no trace: the machine fails for good. A machine that waits
  for a key steps back onto the word that it has just read, and only a key gets it on.
-/
namespace ChipEight

namespace Keypad

/-- The lowest key that is held down. -/
def Lowest (k : Keypad) (key : Byte) : Prop :=
  k.isPressed key = true ∧ ∀ other < key, k.isPressed other = false

theorem firstPressed_eq_none_iff (k : Keypad) : k.firstPressed = none ↔ k = released := by
  rw [firstPressed, Vector.findFinIdx?_eq_none_iff, Keypad.ext_iff, released]
  constructor
  · intro none
    apply Vector.ext
    intro i inside
    rw [Vector.getElem_replicate]
    exact Bool.eq_false_iff.mpr (none _ (Vector.getElem_mem inside))
  · intro same x mem
    rw [same] at mem
    simp [Vector.eq_of_mem_replicate mem]

theorem isPressed_eq (k : Keypad) {key : Byte} (inside : key.toNat < 16) :
    k.isPressed key = k.keys[key.toNat] := by
  simp [isPressed, inside]

theorem lowest_of_firstPressed {k : Keypad} {key : Fin 16} (first : k.firstPressed = some key) :
    k.Lowest (BitVec.ofNat 8 key) := by
  have value : (BitVec.ofNat 8 key.val).toNat = key := by
    rw [BitVec.toNat_ofNat]
    exact Nat.mod_eq_of_lt (by omega)
  obtain ⟨i, found, rfl⟩ := Option.map_eq_some_iff.mp first
  obtain ⟨held, below⟩ := Array.findFinIdx?_eq_some_iff.mp found
  constructor
  · rw [isPressed_eq k (by omega)]
    simp only [value]
    simpa using held
  · intro other lower
    rw [BitVec.lt_def, value] at lower
    have inside : other.toNat < i.val := lower
    rw [isPressed_eq k (by omega)]
    simpa using below ⟨other.toNat, Nat.lt_trans inside i.isLt⟩ inside

end Keypad

namespace Machine
variable (m : Machine)

/-- The times of a call add up to spans of time. -/
def TimeFits (elapsed : Nanoseconds) : Prop :=
  m.sinceTick + elapsed < Clock.limit ∧ m.sinceCycle + elapsed < Clock.limit

/-- A call runs a cycle: it may run one, and there is time for one. -/
def Due (elapsed : Nanoseconds) : Prop :=
  0 < m.config.maxCycles ∧ m.config.cycleInterval ≤ m.sinceCycle + elapsed

instance (elapsed : Nanoseconds) : Decidable (m.Due elapsed) :=
  inferInstanceAs (Decidable (_ ∧ _))

section Calls
variable {m} {elapsed : Nanoseconds}

theorem advance_not_due (fits : m.TimeFits elapsed) (idle : ¬ m.Due elapsed) :
    ∃ ticked, (m.advance elapsed).2 = .ok { ticked := ticked } := by
  obtain ⟨start, ticked, -, advanced⟩ := advance_of_fits fits.1 fits.2
  refine ⟨ticked, ?_⟩
  rw [advanced]
  by_cases few : 0 < m.config.maxCycles
  · have late : m.sinceCycle + elapsed < m.config.cycleInterval :=
      Nat.not_le.mp fun paid => idle ⟨few, paid⟩
    rw [runCycles_late late]
  · rw [Nat.eq_zero_of_not_pos few]
    rfl

/-- Where a cycle is due and the first one fails or waits, the call ends with it. -/
theorem advance_due (fits : m.TimeFits elapsed) (due : m.Due elapsed) :
    ∃ start ticked, m.tickTimers elapsed = some (start, ticked) ∧
      (∀ f, start.cycle.2 = .error f → (m.advance elapsed).2 = .error (.fault f)) ∧
      (start.cycle.2 = .ok .waiting →
        (m.advance elapsed).2 = .ok { cycles := 1, ticked := ticked, waiting := true }) := by
  obtain ⟨start, ticked, ticks, advanced⟩ := advance_of_fits fits.1 fits.2
  obtain ⟨cap, more⟩ := Nat.exists_eq_succ_of_ne_zero (Nat.ne_of_gt due.1)
  have spent : ((start.withTime (m.sinceCycle + elapsed)).spend m.config.cycleInterval).cycle =
      (start.cycle.1.withTime (m.sinceCycle + elapsed - m.config.cycleInterval), start.cycle.2) :=
    start.cycle_withTime _
  rw [more, Nat.succ_eq_add_one, runCycles_due due.2, spent] at advanced
  refine ⟨start, ticked, ticks, ?_, ?_⟩
  · intro f failed
    rw [advanced, failed]
  · intro waits
    rw [advanced, waits]
    rfl

end Calls

section Failing
variable {m}

theorem refusal_isolated (m : Machine) (i : Instruction) : m.isolated.refusal i = m.refusal i := by
  cases i <;> rfl

theorem cycleRefusal_isolated (m : Machine) : m.isolated.cycleRefusal = m.cycleRefusal := by
  have word : m.isolated.memory.word m.isolated.counter.toNat = m.memory.word m.counter.toNat := rfl
  unfold cycleRefusal wordRefusal
  simp only [word, refusal_isolated]

theorem cycleRefusal_of_isolated {other : Machine} (same : other.isolated = m.isolated) :
    other.cycleRefusal = m.cycleRefusal := by
  rw [← cycleRefusal_isolated other, same, cycleRefusal_isolated]

/-- A trace that starts with a failing cycle consists of failing cycles and leads nowhere. -/
theorem Unfolds.of_refusal {listed : List Machine} {final : Machine} {f : Fault}
    (trace : Unfolds m listed final) (refused : m.cycleRefusal = some f) :
    final.isolated = m.isolated := by
  induction trace with
  | done same => exact same
  | step same rest ih =>
    have again := (cycleRefusal_of_isolated same).trans refused
    rw [cycle_of_refusal again] at ih
    exact (ih again).trans same

/-- A call on a machine that fails runs no cycle or stops at the fault. -/
theorem advance_of_refusal {f : Fault} {elapsed : Nanoseconds} (refused : m.cycleRefusal = some f)
    (fits : m.TimeFits elapsed) :
    ∃ ticked, (m.advance elapsed).2 =
      if m.Due elapsed then .error (.fault f) else .ok { ticked := ticked } := by
  by_cases due : m.Due elapsed
  · obtain ⟨start, ticked, ticks, stops, -⟩ := advance_due fits due
    have same := cycleRefusal_of_isolated (isolated_of_ticks ticks)
    have fails := congrArg Prod.snd (cycle_of_refusal (same.trans refused))
    refine ⟨ticked, ?_⟩
    rw [if_pos due]
    exact stops f fails
  · obtain ⟨ticked, done⟩ := advance_not_due fits due
    refine ⟨ticked, ?_⟩
    rw [if_neg due]
    exact done

/-- A machine whose next cycle fails does so for good. At every moment of a history in which nobody
loads, resets or fetches, the next cycle fails with the same fault, a call for some time runs no
cycle or stops at that fault, and nothing has changed but clocks and keys. -/
theorem failed_machine_stays_failed {ops : List Operation} {f : Fault}
    (failed : m.cycle.2 = .error f) (follows : ∀ op ∈ ops, op.intervenes = false) :
    let now := (m.run ops).1
    now.cycle = (now, .error f) ∧
      (∀ elapsed, now.TimeFits elapsed → ∃ ticked, (now.advance elapsed).2 =
        if now.Due elapsed then .error (.fault f) else .ok { ticked := ticked }) ∧
      now.name = m.name ∧ now.lastWord = m.lastWord ∧ now.registers = m.registers ∧
      now.memory = m.memory ∧ now.stack = m.stack ∧ now.display = m.display ∧
      now.random = m.random := by
  intro now
  have refused := (m.cycle_error_iff f).mp failed
  have same : now.isolated = m.isolated := (Unfolds.run m follows).of_refusal refused
  have still := (cycleRefusal_of_isolated same).trans refused
  obtain ⟨-, name, lastWord, memory, registers, stack, display, random⟩ :=
    parts_of_isolated same
  exact ⟨cycle_of_refusal still, fun elapsed fits => advance_of_refusal still fits, name, lastWord,
    registers, memory, stack, display, random⟩

/-- Cycles, time and keys. -/
def meddling : List Operation :=
  [.cycle, .setKey 5 true, .tickTimers Clock.timerInterval, .advance Clock.second, .toggleKey 0xE]

/-- Three rows that start at the last but one byte of memory are not drawn at the second attempt
either, and a whole second does not help. -/
theorem sprite_past_the_end_fails_for_good :
    let m := uniform 0xD3 0xFFE
    let f : Fault := .memory (.outsideMemory 0xFFE 3)
    let now := (m.run meddling).1
    m.cycle.2 = .error f ∧ (∀ op ∈ meddling, op.intervenes = false) ∧
      now.TimeFits Clock.second ∧ now.cycle = (now, .error f) ∧
      (now.advance Clock.second).2 = .error (.fault f) ∧ now.registers = m.registers := by
  intro m f now
  have failed : m.cycle.2 = .error f := by
    rw [cycle_error_iff, cycleRefusal, word_uniform _ _ (by decide)]
    decide
  have follows : ∀ op ∈ meddling, op.intervenes = false := by decide
  have fits : now.TimeFits Clock.second := by
    unfold TimeFits
    decide +kernel
  have due : now.Due Clock.second := by decide +kernel
  obtain ⟨again, calls, -, -, registers, -⟩ := failed_machine_stays_failed failed follows
  obtain ⟨ticked, stopped⟩ := calls Clock.second fits
  rw [if_pos due] at stopped
  exact ⟨failed, follows, fits, again, stopped, registers⟩

end Failing

section Waiting
variable {m} {w : Word} {x : Reg}

theorem ofWord?_of_awaitKey {w : Word} (fits : w.Fits "FX0A") :
    Instruction.ofWord? w = some (.awaitKey w.x) :=
  Word.ReadAs.awaitKey.ofWord? fits

/-- With no key pressed the counter steps back, and the word read is all that remains of a cycle. -/
theorem cycle_of_wait (word : m.memory.word m.counter.toNat = .ok w)
    (read : Instruction.ofWord? w = some (.awaitKey x)) (idle : m.keypad = .released) :
    m.cycle = ({ m with lastWord := w }, .ok .waiting) := by
  have none : (m.fetched w).keypad.firstPressed = none :=
    (Keypad.firstPressed_eq_none_iff _).mpr idle
  have same : (m.fetched w).after (.awaitKey x) = m.fetched w := by
    simp only [after, registersAfter, none]
    rfl
  have step : (m.fetched w).stepOf (.awaitKey x) = .again := if_pos none
  have signal : (m.fetched w).signalOf (.awaitKey x) = .waiting := if_pos none
  have back : CounterStep.again.apply (m.fetched w).counter = m.counter :=
    BitVec.add_sub_cancel _ _
  rw [m.cycle_of_granted word read rfl, ran, same, step, signal, back]
  rfl

theorem cycle_of_key {key : Fin 16} (word : m.memory.word m.counter.toNat = .ok w)
    (read : Instruction.ofWord? w = some (.awaitKey x))
    (pressed : m.keypad.firstPressed = some key) :
    m.cycle = ({ m with
      lastWord := w
      registers := (m.registers.set x (BitVec.ofNat 8 key)).setCounter (m.counter + 2) },
      .ok .quiet) := by
  have some : (m.fetched w).keypad.firstPressed = some key := pressed
  have step : (m.fetched w).stepOf (.awaitKey x) = .next := by simp [stepOf, some]
  have signal : (m.fetched w).signalOf (.awaitKey x) = .quiet := by simp [signalOf, some]
  rw [m.cycle_of_granted word read rfl, ran, step, signal]
  simp only [after, registersAfter, some]
  rfl

theorem word_of_isolated {other : Machine} (same : other.isolated = m.isolated) :
    other.memory.word other.counter.toNat = m.memory.word m.counter.toNat :=
  congrArg (fun n => n.memory.word n.counter.toNat) same

/-- A trace that starts at a wait for a key and finds no key pressed changes the last word only. -/
theorem Unfolds.of_wait {listed : List Machine} {final : Machine}
    (trace : Unfolds m listed final) (word : m.memory.word m.counter.toNat = .ok w)
    (read : Instruction.ofWord? w = some (.awaitKey x))
    (idle : ∀ s ∈ listed, s.keypad = .released) :
    ∃ v, final.isolated = { m with lastWord := v }.isolated := by
  induction trace with
  | @done m final same => exact ⟨m.lastWord, same⟩
  | @step m start final later same rest ih =>
    have here := (word_of_isolated same).trans word
    rw [cycle_of_wait here read (idle start List.mem_cons_self)] at ih
    obtain ⟨v, ends⟩ := ih here fun s mem => idle s (List.mem_cons_of_mem _ mem)
    exact ⟨v, ends.trans (congrArg (fun n => { n with lastWord := v }) same)⟩

/-- A call on a machine that waits for a key runs no cycle, or one that waits. -/
theorem advance_of_wait {elapsed : Nanoseconds} (word : m.memory.word m.counter.toNat = .ok w)
    (read : Instruction.ofWord? w = some (.awaitKey x)) (idle : m.keypad = .released)
    (fits : m.TimeFits elapsed) :
    ∃ report, (m.advance elapsed).2 = .ok report ∧
      report.cycles = (if m.Due elapsed then 1 else 0) ∧
      report.waiting = decide (report.cycles = 1) := by
  by_cases due : m.Due elapsed
  · obtain ⟨start, ticked, ticks, -, ends⟩ := advance_due fits due
    have here := (word_of_isolated (isolated_of_ticks ticks)).trans word
    have idleStart : start.keypad = .released := by
      obtain ⟨delay, sound, sinceTick, rfl⟩ := sameButTimers_of_ticks ticks
      exact idle
    have waits := congrArg Prod.snd (cycle_of_wait here read idleStart)
    rw [if_pos due]
    exact ⟨_, ends waits, rfl, rfl⟩
  · obtain ⟨ticked, done⟩ := advance_not_due fits due
    rw [if_neg due]
    exact ⟨_, done, rfl, rfl⟩

/-- A machine whose counter stands at a wait for a key stalls. At every moment of a history that
leaves all keys released, the next cycle waits, a call for some time runs no cycle or one that
waits, and the program has got nowhere. If the next cycle after that finds keys pressed, it writes
the lowest of them to the register of the word and moves on. -/
theorem waiting_for_a_key_is_a_stall {ops : List Operation} (inside : m.counter.toNat ≤ 0xFFE)
    (waits : (m.memory.pairAt m.counter.toNat).Fits "FX0A")
    (follows : ∀ op ∈ ops, op.intervenes = false)
    (released : ∀ before, before <+: ops → (m.run before).1.keypad = .released) :
    let now := (m.run ops).1
    let word := m.memory.pairAt m.counter.toNat
    now.cycle.2 = .ok .waiting ∧
      (∀ elapsed, now.TimeFits elapsed → ∃ report, (now.advance elapsed).2 = .ok report ∧
        report.cycles = (if now.Due elapsed then 1 else 0) ∧
        report.waiting = decide (report.cycles = 1)) ∧
      (now.registers = m.registers ∧ now.stack = m.stack ∧ now.memory = m.memory ∧
        now.display = m.display ∧ now.random = m.random) ∧
      ∀ later start rest, (∀ op ∈ later, op.intervenes = false) →
        now.starts later = start :: rest → start.keypad ≠ .released →
        ∃ key, start.keypad.Lowest key ∧
          start.cycle = ({ start with
            lastWord := word
            registers := (start.registers.set word.x key).setCounter (start.counter + 2) },
            .ok .quiet) := by
  intro now word
  have here : m.memory.word m.counter.toNat = .ok word :=
    Memory.word_of_inside (Nat.lt_succ_of_le (Nat.succ_le_succ inside))
  have read := ofWord?_of_awaitKey waits
  have idle : ∀ s ∈ m.starts ops, s.keypad = .released := by
    intro s mem
    obtain ⟨before, earlier, same⟩ := keypad_starts mem
    rw [same]
    exact released before earlier
  obtain ⟨v, same⟩ := (Unfolds.run m follows).of_wait here read idle
  have nowHere : now.memory.word now.counter.toNat = .ok word := (word_of_isolated same).trans here
  have nowIdle : now.keypad = .released := released ops (List.prefix_refl ops)
  refine ⟨?_, fun elapsed fits => advance_of_wait nowHere read nowIdle fits, ?_, ?_⟩
  · rw [cycle_of_wait nowHere read nowIdle]
  · obtain ⟨-, -, -, memory, registers, stack, display, random⟩ := parts_of_isolated same
    exact ⟨registers, stack, memory, display, random⟩
  · intro later start rest laterFollows first pressed
    have trace := Unfolds.run now laterFollows
    rw [first] at trace
    cases trace with
    | step startSame _ =>
      have startHere := (word_of_isolated startSame).trans nowHere
      cases found : start.keypad.firstPressed with
      | none => exact absurd ((Keypad.firstPressed_eq_none_iff _).mp found) pressed
      | some key =>
        exact ⟨_, Keypad.lowest_of_firstPressed found, cycle_of_key startHere read found⟩

/-- Cycles, time, and changes that leave every key released: numbers above fifteen name no key. -/
def idling : List Operation :=
  [.cycle, .setKey 16 true, .advance 4000000, .toggleKey 200, .tickTimers Clock.timerInterval,
    .setKey 7 false]

/-- A program that waits for a key and puts it into register 3 is left alone for a while, and then
keys 12 and 7 go down. -/
theorem idling_is_a_stall :
    let m := ((powerOn {} (.cyclic #[0])).run [.load ⟨"", [0xF3, 0x0A]⟩]).1
    let now := (m.run idling).1
    let pressed := (now.run [.toggleKey 12, .setKey 7 true]).1
    let word := m.memory.pairAt m.counter.toNat
    m.counter.toNat ≤ 0xFFE ∧ word.Fits "FX0A" ∧ (∀ op ∈ idling, op.intervenes = false) ∧
      (∀ before, before <+: idling → (m.run before).1.keypad = .released) ∧
      now.TimeFits 4000000 ∧ pressed.keypad ≠ .released ∧
      now.cycle.2 = .ok .waiting ∧
      (∃ report, (now.advance 4000000).2 = .ok report ∧ report.cycles = 1 ∧
        report.waiting = true) ∧
      now.registers = m.registers ∧
      ∃ key, pressed.keypad.Lowest key ∧
        pressed.cycle = ({ pressed with
          lastWord := word
          registers := (pressed.registers.set word.x key).setCounter (pressed.counter + 2) },
          .ok .quiet) := by
  intro m now pressed word
  obtain ⟨inside, waits, listed, fits, due, down⟩ : m.counter.toNat ≤ 0xFFE ∧
      word.Fits "FX0A" ∧
      (∀ k < 7, (m.run (idling.take k)).1.keypad = .released) ∧
      (now.sinceTick + 4000000 < Clock.limit ∧ now.sinceCycle + 4000000 < Clock.limit) ∧
      now.Due 4000000 ∧ pressed.keypad ≠ .released := by
    decide +kernel
  have follows : ∀ op ∈ idling, op.intervenes = false := by decide
  have released : ∀ before, before <+: idling → (m.run before).1.keypad = .released := by
    intro before earlier
    rw [List.prefix_iff_eq_take.mp earlier]
    exact listed _ (Nat.lt_succ_of_le earlier.length_le)
  obtain ⟨again, calls, ⟨registers, -⟩, wakes⟩ :=
    waiting_for_a_key_is_a_stall inside waits follows released
  obtain ⟨report, done, cycles, waiting⟩ := calls 4000000 fits
  rw [if_pos due] at cycles
  have pressing : ∀ op ∈ [Operation.toggleKey 12, .setKey 7 true, .cycle],
      op.intervenes = false := by decide
  exact ⟨inside, waits, follows, released, fits, down, again,
    ⟨report, done, cycles, by rw [waiting, cycles]; rfl⟩, registers,
    wakes _ pressed [] pressing rfl down⟩

end Waiting

end Machine
end ChipEight
