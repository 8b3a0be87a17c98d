import ChipEight.Proofs.Advance
import ChipEight.Proofs.Checked
import ChipEight.Proofs.Sprite

/-
  The ranges that every history of a machine stays in. The bound on the counter needs the one on
  the return addresses, and that one needs the counter right after a fetch, so all of them are
  one invariant. A machine inside of it computes no address that wraps.
-/
namespace ChipEight

/-- Every pixel is dark or has the colour that is drawn with. -/
structure Display.InColour (foreground : Byte) (d : Display) : Prop where
  drawnWith : d.foreground = foreground
  pixels : ∀ x y, d.pixel x y = Display.background ∨ d.pixel x y = foreground

namespace Display.InColour
variable {foreground : Byte} {d : Display}

theorem blankGrid (h : d.foreground = foreground) :
    InColour foreground { d with grid := Display.blankGrid } where
  drawnWith := h
  pixels x y := by
    left
    simp [pixel, Display.blankGrid]

theorem draw (h : InColour foreground d) (x y : Nat) (sprite : List Byte) :
    InColour foreground (d.draw x y sprite).1 where
  drawnWith := (Flips.draw d x y sprite).foreground.trans h.drawnWith
  pixels column row := by
    rw [(Flips.draw d x y sprite).pixels]
    split
    · unfold toggled
      split
      · exact .inr h.drawnWith
      · exact .inl rfl
    · exact h.pixels column row

end Display.InColour

theorem Registers.masked_le (address : Word) : (address &&& addressMask).toNat ≤ 0xFFF := by
  rw [BitVec.toNat_and]
  exact Nat.and_le_right

namespace Machine

structure Bounded (config : Config) (m : Machine) : Prop where
  configured : m.config = config
  counter : m.counter.toNat ≤ 0x1002
  index : m.index.toNat ≤ 0xFFF
  entries : ∀ a ∈ m.stack.entries, 2 ≤ a.toNat ∧ a.toNat ≤ 0x1000
  picture : m.display.InColour config.foreground
  sinceTick : m.sinceTick < Clock.timerInterval

section Instructions
variable (m : Machine)

theorem index_after (i : Instruction) :
    (m.after i).index = m.index ∨
      ∃ address : Word, (m.after i).index = address &&& Registers.addressMask := by
  cases i with
  | setIndex address => exact .inr ⟨_, rfl⟩
  | addToIndex x => exact .inr ⟨_, rfl⟩
  | glyphAddress x => exact .inr ⟨_, rfl⟩
  | storeRegisters x =>
    by_cases moves : m.config.dialect.storeMovesIndex = true
    · right
      refine ⟨m.index + BitVec.ofNat 16 (x + 1), ?_⟩
      simp [after, index, registersAfter, moves, Registers.setIndex]
    · left
      simp [after, index, registersAfter, moves]
  | awaitKey x =>
    left
    show (m.registersAfter (.awaitKey x)).index = m.index
    simp only [registersAfter]
    split <;> rfl
  | subtract minuend x y => cases minuend <;> exact .inl rfl
  | shift towards x y => cases towards <;> exact .inl rfl
  | _ => exact .inl rfl

theorem entries_after (i : Instruction) :
    ∀ a ∈ (m.after i).stack.entries, a ∈ m.stack.entries ∨ a = m.counter := by
  intro a mem
  cases i with
  | call target =>
    change a ∈ (m.stack.push m.counter).1.entries at mem
    by_cases room : m.stack.depth < CallStack.capacity
    · rw [CallStack.entries_push room] at mem
      simpa using mem
    · -- the return address is dropped, and no new entry appears
      have full : m.stack.depth = CallStack.capacity :=
        Nat.le_antisymm m.stack.bounded (Nat.not_lt.mp room)
      rw [CallStack.entries_push_full full] at mem
      exact .inl mem
  | ret =>
    change a ∈ m.stack.pop.1.entries at mem
    left
    by_cases empty : m.stack.depth = 0
    · rw [CallStack.pop_of_empty empty] at mem
      exact mem
    · have popped := congrArg Prod.snd (CallStack.pop_of_nonempty empty)
      rw [CallStack.entries_pop popped]
      exact List.mem_append_left _ mem
  | _ => exact .inl mem

theorem skipIf_ne_jump (condition : Bool) (target : Word) :
    CounterStep.skipIf condition ≠ .jump target := by
  cases condition <;> exact nofun

theorem jump_target (i : Instruction) {target : Word} (jumps : m.stepOf i = .jump target) :
    target.toNat ≤ 0xFFF ∨ target ∈ m.stack.entries := by
  cases i with
  | ret =>
    cases jumps
    cases h : m.stack.newestFirst with
    | nil => exact .inl (by simp)
    | cons address older => exact .inr (by simp [CallStack.entries, h])
  | jump nnn =>
    cases jumps
    have := nnn.isLt
    exact .inl (by simp; omega)
  | call nnn =>
    cases jumps
    have := nnn.isLt
    exact .inl (by simp; omega)
  | jumpOffset base =>
    cases jumps
    exact .inl (Registers.masked_le _)
  | skipImmediate c x value => exact absurd jumps (skipIf_ne_jump _ _)
  | skipRegister c x y => exact absurd jumps (skipIf_ne_jump _ _)
  | skipKey state x => cases state <;> exact absurd jumps (skipIf_ne_jump _ _)
  | awaitKey x =>
    simp only [stepOf] at jumps
    split at jumps <;> cases jumps
  | _ => cases jumps

end Instructions

namespace Bounded
variable {config : Config} {m : Machine}

theorem powerOn (config : Config) (random : RandomSource) :
    Bounded config (Machine.powerOn config random) where
  configured := rfl
  counter := (by decide : Registers.initial.counter.toNat ≤ 0x1002)
  index := (by decide : Registers.initial.index.toNat ≤ 0xFFF)
  entries := nofun
  picture := Display.InColour.blankGrid (d := .blank config.foreground) rfl
  sinceTick := (by decide : 0 < Clock.timerInterval)

theorem reset (h : m.Bounded config) : m.reset.Bounded config where
  configured := h.configured
  counter := (by decide : Registers.initial.counter.toNat ≤ 0x1002)
  index := (by decide : Registers.initial.index.toNat ≤ 0xFFF)
  entries := nofun
  picture := Display.InColour.blankGrid h.picture.drawnWith
  sinceTick := (by decide : 0 < Clock.timerInterval)

theorem load (h : m.Bounded config) (program : Program) :
    (m.load program).1.Bounded config := by
  rw [load_eq]
  split
  · exact { h.reset with }
  · exact h

theorem fetched (h : m.Bounded config) {w : Word} (fits : m.counter.toNat + 1 < 4096) :
    (m.fetched w).Bounded config :=
  { h with counter := Nat.le_trans (Checked.counter_fetched_bounds fits).2 (by decide) }

theorem fetch (h : m.Bounded config) : m.fetch.1.Bounded config := by
  rw [fetch_eq, Memory.word_eq]
  by_cases fits : m.counter.toNat + 1 < 4096
  · rw [dif_pos fits]
    exact h.fetched fits
  · rw [dif_neg fits]
    exact h

/-- Where an instruction sends the counter: next to the fetched one, to an address of the address
space, or to a return address. -/
theorem counter_step (h : m.Bounded config) (low : 2 ≤ m.counter.toNat)
    (high : m.counter.toNat ≤ 0x1000) (i : Instruction) :
    ((m.stepOf i).apply m.counter).toNat ≤ 0x1002 := by
  cases step : m.stepOf i with
  | next =>
    rw [CounterStep.apply]
    omega
  | skip =>
    simp [CounterStep.apply]
    omega
  | again =>
    simp [CounterStep.apply, BitVec.toNat_sub]
    omega
  | jump target =>
    rw [CounterStep.apply]
    -- a return address was a counter after a fetch once, so it is below the bound as well
    rcases m.jump_target i step with near | returns
    · omega
    · have := (h.entries target returns).2
      omega

theorem after (h : m.Bounded config) (low : 2 ≤ m.counter.toNat)
    (high : m.counter.toNat ≤ 0x1000) (i : Instruction) : (m.after i).Bounded config where
  configured := h.configured
  counter := by
    rw [counter_after]
    exact h.counter
  index := by
    rcases m.index_after i with same | ⟨address, masked⟩
    · rw [same]
      exact h.index
    · rw [masked]
      exact Registers.masked_le address
  entries := by
    intro a mem
    rcases m.entries_after i a mem with old | rfl
    · exact h.entries a old
    · exact ⟨low, high⟩
  picture := by
    cases i with
    | clearScreen => exact .blankGrid h.picture.drawnWith
    | draw x y rows => exact h.picture.draw _ _ _
    | _ => exact h.picture
  sinceTick := h.sinceTick

theorem setCounter (h : m.Bounded config) {address : Word} (near : address.toNat ≤ 0x1002) :
    (m.setCounter address).Bounded config :=
  { h with counter := near }

theorem cycle (h : m.Bounded config) : m.cycle.1.Bounded config := by
  rcases m.cycle_cases with ⟨f, -, done⟩ | ⟨w, i, word, -, -, -, done⟩
  · rw [done]
    exact h
  · have fits := Memory.inside_of_word word
    obtain ⟨low, high⟩ := Checked.counter_fetched_bounds (w := w) fits
    rw [done]
    refine ((h.fetched fits).after low high i).setCounter ?_
    rw [counter_after]
    exact (h.fetched fits).counter_step low high i

theorem setTime (h : m.Bounded config) (time : Nanoseconds) :
    ({ m with sinceCycle := time } : Machine).Bounded config :=
  { h with }

theorem setKeypad (h : m.Bounded config) (keys : Keypad) : (m.setKeypad keys).Bounded config :=
  { h with }

theorem tickTimers (h : m.Bounded config) {elapsed : Nanoseconds} {ticked : Bool}
    {after : Machine} (ticks : m.tickTimers elapsed = some (after, ticked)) :
    after.Bounded config := by
  rcases tickTimers_cases ticks with ⟨early, -, rfl⟩ | ⟨-, -, rfl⟩
  · exact { h with sinceTick := early }
  · refine { h with sinceTick := ?_ }
    have positive : 0 < Clock.timerInterval := by decide
    exact Nat.lt_of_le_of_lt (Nat.min_le_right _ _) (Nat.sub_lt positive Nat.one_pos)

theorem runCycles (h : m.Bounded config) (interval : Nanoseconds) (cap : Nat) (report : Report) :
    (m.runCycles interval cap report).1.Bounded config := by
  induction cap generalizing m report with
  | zero => exact h
  | succ cap ih =>
    by_cases late : m.sinceCycle < interval
    · rw [runCycles_late late]
      exact h
    · have next : (m.spend interval).cycle.1.Bounded config := (h.setTime _).cycle
      rw [runCycles_due (Nat.not_lt.mp late)]
      generalize (m.spend interval).cycle = done at next
      obtain ⟨after, answer⟩ := done
      cases answer with
      | error f => exact next
      | ok signal =>
        by_cases waits : signal = .waiting
        · simp only [if_pos waits]
          exact next
        · simp only [if_neg waits]
          exact ih next _

theorem advance (h : m.Bounded config) (elapsed : Nanoseconds) :
    (m.advance elapsed).1.Bounded config := by
  unfold Machine.advance
  cases ticks : m.tickTimers elapsed with
  | none => exact h
  | some answer =>
    obtain ⟨ticked, yes⟩ := answer
    have started := h.tickTimers ticks
    cases total : Clock.add ticked.sinceCycle elapsed with
    | none =>
      simp only [total]
      exact started
    | some time =>
      have ended := (started.setTime time).runCycles ticked.config.cycleInterval
        ticked.config.maxCycles { ticked := yes }
      simp only [total]
      split
      · rename_i done
        rw [done] at ended
        exact ended.setTime _
      · rename_i done
        rw [done] at ended
        exact ended

theorem perform (h : m.Bounded config) (op : Operation) :
    (m.perform op).1.Bounded config := by
  cases op with
  | load program => exact h.load program
  | reset => exact h.reset
  | fetch => exact h.fetch
  | cycle => exact h.cycle
  | advance elapsed =>
    have advanced := h.advance elapsed
    rw [Machine.perform]
    split
    · rename_i done
      rw [done] at advanced
      exact advanced
    · rename_i done
      rw [done] at advanced
      exact advanced
  | tickTimers elapsed =>
    rw [Machine.perform]
    cases ticks : m.tickTimers elapsed with
    | none => exact h
    | some answer =>
      obtain ⟨after, yes⟩ := answer
      exact h.tickTimers ticks
  | setKey key pressed => exact h.setKeypad _
  | toggleKey key => exact h.setKeypad _
  | setKeypad keys => exact h.setKeypad keys

theorem run (h : m.Bounded config) (ops : List Operation) : (m.run ops).1.Bounded config := by
  induction ops generalizing m with
  | nil => exact h
  | cons op ops ih => exact ih (h.perform op)

section Checked

theorem checked_cycle (h : m.Bounded config) : Checked.cycle m = some m.cycle :=
  Checked.cycle_eq h.index

theorem checked_runCycles (h : m.Bounded config) (interval : Nanoseconds) (cap : Nat)
    (report : Report) :
    Checked.runCycles interval cap m report = some (m.runCycles interval cap report) := by
  induction cap generalizing m report with
  | zero => rfl
  | succ cap ih =>
    rw [Checked.runCycles, Machine.runCycles]
    by_cases late : m.sinceCycle < interval
    · rw [if_pos late, if_pos late]
    · have spent : (m.spend interval).Bounded config := h.setTime _
      have next := spent.cycle
      rw [if_neg late, if_neg late, spent.checked_cycle]
      cases done : (m.spend interval).cycle with
      | mk after answer =>
        rw [done] at next
        cases answer with
        | error f => rfl
        | ok signal =>
          cases signal with
          | waiting => rfl
          | redraw => exact ih next _
          | quiet => exact ih next _
          | returnDropped => exact ih next _

theorem checked_advance (h : m.Bounded config) (elapsed : Nanoseconds) :
    Checked.advance m elapsed = some (m.advance elapsed) := by
  unfold Checked.advance Machine.advance
  cases ticks : m.tickTimers elapsed with
  | none => rfl
  | some answer =>
    obtain ⟨ticked, yes⟩ := answer
    cases total : Clock.add ticked.sinceCycle elapsed with
    | none => simp only [total]
    | some time =>
      have started := (h.tickTimers ticks).setTime time
      simp only [total, started.checked_runCycles, Option.bind_eq_bind, Option.bind_some]
      generalize Machine.runCycles _ _ _ _ = ended
      obtain ⟨after, answer⟩ := ended
      cases answer <;> rfl

theorem checked_perform (h : m.Bounded config) (op : Operation) :
    Checked.perform m op = some (m.perform op) := by
  cases op with
  | fetch => simp only [Checked.perform, Checked.fetch_eq, Option.map_some, Machine.perform]
  | cycle => simp only [Checked.perform, h.checked_cycle, Option.map_some, Machine.perform]
  | advance elapsed =>
    simp only [Checked.perform, h.checked_advance, Machine.perform, Option.bind_eq_bind,
      Option.bind_some]
    obtain ⟨after, answer⟩ := m.advance elapsed
    cases answer <;> rfl
  | _ => rfl

theorem checked_run (h : m.Bounded config) (ops : List Operation) :
    Checked.run m ops = some (m.run ops) := by
  induction ops generalizing m with
  | nil => rfl
  | cons op ops ih =>
    have rest := ih (h.perform op)
    simp only [Checked.run, h.checked_perform, rest, Machine.run, Option.bind_eq_bind,
      Option.bind_some]

end Checked

end Bounded

/-- Every history from power on keeps these ranges, and the machine that checks every access and
every address computation goes through the same history: no address in it wraps. -/
theorem history_stays_bounded (config : Config) (random : RandomSource) (ops : List Operation) :
    let start := Machine.powerOn config random
    let m := (start.run ops).1
    m.counter.toNat ≤ 0x1002 ∧
      m.index.toNat ≤ 0xFFF ∧
      (m.stack.entries.length ≤ 16 ∧ ∀ a ∈ m.stack.entries, 2 ≤ a.toNat ∧ a.toNat ≤ 0x1000) ∧
      (∀ x y, m.display.pixel x y = 0 ∨ m.display.pixel x y = config.foreground) ∧
      m.sinceTick < Clock.timerInterval ∧
      Checked.run start ops = some (start.run ops) := by
  intro start m
  have initial : start.Bounded config := .powerOn config random
  have bounded : m.Bounded config := initial.run ops
  have depth : m.stack.entries.length ≤ 16 := by
    rw [CallStack.entries, List.length_reverse]
    exact m.stack.bounded
  exact ⟨bounded.counter, bounded.index, ⟨depth, bounded.entries⟩, bounded.picture.pixels,
    bounded.sinceTick, initial.checked_run ops⟩

end Machine
end ChipEight
