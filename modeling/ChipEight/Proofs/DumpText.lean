import ChipEight.Proofs.Bounds
import ChipEight.Proofs.DumpMemory

/-
  The dump as a whole. A program may have any name, also one that reads like lines of a dump, so
  the name is found from the end of the text: after it the title of the opcode stands once. The
  unused places of the stack are shown as zeros, and no return address of a machine that was
  switched on is zero, so its depth is shown as well.
-/
namespace ChipEight

namespace Dump

theorem joined_eq (lines : List Line) : joined lines = ['\n'].intercalate lines := by
  induction lines with
  | nil => rfl
  | cons line lines ih =>
    cases lines with
    | nil => exact List.intercalate_singleton.symm
    | cons next more =>
      have step : joined (line :: next :: more) = line ++ '\n' :: joined (next :: more) := rfl
      rw [step, ih, List.intercalate_cons_cons, List.append_assoc]
      rfl

theorem joined_append {front back : List Line} (some : front ≠ []) (more : back ≠ []) :
    joined (front ++ back) = joined front ++ '\n' :: joined back := by
  induction front with
  | nil => contradiction
  | cons line front ih =>
    cases front with
    | nil =>
      obtain ⟨next, rest, rfl⟩ := List.exists_cons_of_ne_nil more
      rfl
    | cons next front =>
      have rest := ih (List.cons_ne_nil next front)
      simp only [List.cons_append, joined, List.append_assoc] at rest ⊢
      rw [rest]

/-- Two lists are cut at the same place if it is the last place of one line in both. -/
theorem last_inj {mark : Line} {front back front' back' : List Line} (once : mark ∉ back)
    (once' : mark ∉ back') (same : front ++ mark :: back = front' ++ mark :: back') :
    front = front' ∧ back = back' := by
  rcases List.append_eq_append_iff.mp same with ⟨between, rfl, rest⟩ | ⟨between, rfl, rest⟩
  · cases between with
    | nil => exact ⟨(List.append_nil front).symm, List.tail_eq_of_cons_eq rest⟩
    | cons line between =>
      -- the later place of the line lies behind the earlier one
      have later : back = between ++ mark :: back' := List.tail_eq_of_cons_eq rest
      exact absurd (later ▸ List.mem_append_right between List.mem_cons_self) once
  · cases between with
    | nil => exact ⟨List.append_nil front', (List.tail_eq_of_cons_eq rest).symm⟩
    | cons line between =>
      have later : back' = between ++ mark :: back := List.tail_eq_of_cons_eq rest
      exact absurd (later ▸ List.mem_append_right between List.mem_cons_self) once'

/-- A line without a line break in it that is not the title of the opcode: that one has an `O`. -/
abbrev Plain (line : Line) : Prop := '\n' ∉ line ∧ 'O' ∉ line

theorem Plain.of_subset {line : Line} (known : line ⊆ alphabet) : Plain line :=
  ⟨fun mem => absurd (known mem) (by decide), fun mem => absurd (known mem) (by decide)⟩

theorem Plain.append {front back : Line} (hf : Plain front) (hb : Plain back) :
    Plain (front ++ back) :=
  ⟨fun mem => (List.mem_append.mp mem).elim hf.1 hb.1,
    fun mem => (List.mem_append.mp mem).elim hf.2 hb.2⟩

theorem opcode_not_plain : ¬ Plain (title "Opcode") := by decide

theorem splitOn_joined {front back : List Line} (some : front ≠ [])
    (plain : ∀ line ∈ back, Plain line) :
    (joined (front ++ title "Opcode" :: back)).splitOn '\n' =
      (joined front).splitOn '\n' ++ title "Opcode" :: back := by
  have unbroken : ∀ line ∈ title "Opcode" :: back, '\n' ∉ line :=
    List.forall_mem_cons.mpr ⟨by decide, fun line mem => (plain line mem).1⟩
  rw [joined_append some (List.cons_ne_nil _ _), List.splitOn_append_cons_self,
    joined_eq (title "Opcode" :: back),
    List.splitOn_intercalate '\n' unbroken (List.cons_ne_nil _ _)]

/-- A text is cut at the last title of the opcode: what stands in front of it is known as a text,
and what stands behind it as lines. -/
theorem joined_inj {front front' back back' : List Line} (hf : front ≠ []) (hf' : front' ≠ [])
    (plain : ∀ line ∈ back, Plain line) (plain' : ∀ line ∈ back', Plain line)
    (same : joined (front ++ title "Opcode" :: back) =
      joined (front' ++ title "Opcode" :: back')) :
    joined front = joined front' ∧ back = back' := by
  have pieces := congrArg (List.splitOn '\n') same
  rw [splitOn_joined hf plain, splitOn_joined hf' plain'] at pieces
  obtain ⟨fronts, backs⟩ := last_inj (fun mem => opcode_not_plain (plain _ mem))
    (fun mem => opcode_not_plain (plain' _ mem)) pieces
  have texts := congrArg (List.intercalate ['\n']) fronts
  rw [List.intercalate_splitOn, List.intercalate_splitOn] at texts
  exact ⟨texts, backs⟩

section
variable (m : Machine)

/-- The lines up to the name; line breaks in the name are not looked at. -/
def heading (name : String) : List Line :=
  ["Chipset \x7b".toList, title "Program Name", indent ++ name.toList]

/-- The lines between the title of the opcode and the memory. -/
def values : List Line :=
  (indent ++ Hex.chars m.lastWord.toNat) ::
  single "Program Counter" m.counter.toNat ++
  single "Index Register" m.index.toNat ++
  single "Delay Timer" m.delay.value.toNat ++
  single "Sound Timer" m.sound.value.toNat ++
  [title "Memory"]

/-- The lines after the memory. -/
def tables : List Line :=
  title "Keyboard" :: table (m.keypad.keys.toList.map keyCell) ++
  title "Stack" :: table ((stackCells m.stack).map fun w => Hex.chars w.toNat) ++
  title "Register" :: table (m.registers.data.toList.map fun b => Hex.chars b.toNat) ++
  ["\x7d".toList]

theorem lines_eq : lines m = heading m.name ++ title "Opcode" ::
    (values m ++ (spansOf m.memory).map Span.line ++ tables m) := by
  simp [lines, heading, values, tables, single]

theorem plain_value {w : Nat} (narrow : w ≤ 16) (v : BitVec w) :
    Plain (indent ++ Hex.chars v.toNat) :=
  .append (by decide) (.of_subset (IsCell.chars (Hex.toNat_lt narrow v)).known)

theorem plain_values : ∀ line ∈ values m, Plain line := by
  simp only [values, single, List.cons_append, List.nil_append, List.forall_mem_cons]
  have word : ∀ v : Word, Plain (indent ++ Hex.chars v.toNat) := plain_value (by decide)
  have byte : ∀ v : Byte, Plain (indent ++ Hex.chars v.toNat) := plain_value (by decide)
  exact ⟨word _, by decide, word _, by decide, word _, by decide, byte _, by decide, byte _,
    by decide, nofun⟩

theorem plain_table {cells : List Line} (known : ∀ c ∈ cells, IsCell c) :
    ∀ line ∈ table cells, Plain line := by
  refine List.forall_mem_cons.mpr ⟨?_, List.forall_mem_cons.mpr ⟨?_, nofun⟩⟩
  · exact .of_subset (row_subset (by decide) (by decide)
      fun c mem => known c (List.mem_of_mem_take mem))
  · exact .of_subset (row_subset (by decide) (by decide)
      fun c mem => known c (List.mem_of_mem_drop mem))

theorem cells_keys : ∀ c ∈ m.keypad.keys.toList.map keyCell, IsCell c := by
  intro c mem
  obtain ⟨pressed, -, rfl⟩ := List.mem_map.mp mem
  exact .key pressed

theorem plain_tables : ∀ line ∈ tables m, Plain line := by
  simp only [tables, List.cons_append, List.append_assoc, List.forall_mem_cons,
    List.forall_mem_append]
  exact ⟨by decide, plain_table (cells_keys m), by decide,
    plain_table (.numerals (by decide) _), by decide, plain_table (.numerals (by decide) _),
    by decide, nofun⟩

theorem plain_span {s : Span} (fits : s.Fits) : Plain s.line := by
  cases s with
  | words first last cells => exact .of_subset (Span.line_words_subset fits)
  | zeros first last => exact .append (.of_subset (label_subset fits.first fits.last)) (by decide)

theorem plain_rest :
    ∀ line ∈ values m ++ (spansOf m.memory).map Span.line ++ tables m, Plain line := by
  have spans : ∀ line ∈ (spansOf m.memory).map Span.line, Plain line := by
    intro line mem
    obtain ⟨s, among, rfl⟩ := List.mem_map.mp mem
    exact plain_span (fits_spansOf m.memory s among)
  intro line mem
  rcases List.mem_append.mp mem with mem | mem
  · exact (List.mem_append.mp mem).elim (plain_values m line) (spans line)
  · exact plain_tables m line mem

end

theorem heading_inj {name name' : String} (same : joined (heading name) = joined (heading name')) :
    name = name' := by
  have texts : indent ++ name.toList = indent ++ name'.toList := by
    simpa [heading, joined] using same
  exact String.toList_inj.mp (List.append_cancel_left texts)

theorem length_stackCells (s : CallStack) : (stackCells s).length = 16 := by
  have bounded : s.depth ≤ 16 := s.bounded
  have depth : s.entries.length = s.depth := List.length_reverse
  rw [stackCells, List.length_append, List.length_replicate, depth, CallStack.capacity]
  omega

theorem takeWhile_stackCells {s : CallStack} (nonzero : ∀ a ∈ s.entries, a ≠ 0) :
    (stackCells s).takeWhile (· != 0) = s.entries := by
  rw [stackCells, List.takeWhile_append_of_pos (by simpa using nonzero)]
  simp

/-- What a dump shows of a machine. -/
structure Shown where
  name : String
  lastWord : Word
  counter : Word
  index : Word
  delay : Byte
  sound : Byte
  memory : Memory
  keys : Vector Bool 16
  /-- The return addresses in use, oldest first. -/
  entries : List Word
  data : Vector Byte 16
  deriving DecidableEq

end Dump

namespace Machine
open Dump

def shown (m : Machine) : Shown where
  name := m.name
  lastWord := m.lastWord
  counter := m.counter
  index := m.index
  delay := m.delay.value
  sound := m.sound.value
  memory := m.memory
  keys := m.keypad.keys
  entries := m.stack.entries
  data := m.registers.data

variable {a b : Machine}

theorem values_inj (same : values a = values b) :
    a.lastWord = b.lastWord ∧ a.counter = b.counter ∧ a.index = b.index ∧
      a.delay.value = b.delay.value ∧ a.sound.value = b.sound.value := by
  simp only [values, single, List.cons_append, List.nil_append, List.cons.injEq,
    List.append_cancel_left_eq, true_and, and_true] at same
  obtain ⟨lastWord, counter, index, delay, sound⟩ := same
  have word : ∀ {v v' : Word}, Hex.chars v.toNat = Hex.chars v'.toNat → v = v' :=
    Hex.chars_toNat_inj (by decide)
  have byte : ∀ {v v' : Byte}, Hex.chars v.toNat = Hex.chars v'.toNat → v = v' :=
    Hex.chars_toNat_inj (by decide)
  exact ⟨word lastWord, word counter, word index, byte delay, byte sound⟩

theorem tables_inj (same : tables a = tables b) :
    a.keypad.keys = b.keypad.keys ∧ stackCells a.stack = stackCells b.stack ∧
      a.registers.data = b.registers.data := by
  obtain ⟨upToRegisters, -⟩ := List.append_inj' same rfl
  obtain ⟨upToStack, registers⟩ := List.append_inj' upToRegisters rfl
  obtain ⟨keyboard, stack⟩ := List.append_inj' upToStack rfl
  have keys := table_inj (cells_keys a) (cells_keys b) (by simp) (List.tail_eq_of_cons_eq keyboard)
  have cells := table_inj (.numerals (by decide) _) (.numerals (by decide) _)
    (by simp only [List.length_map, length_stackCells]) (List.tail_eq_of_cons_eq stack)
  have data := table_inj (.numerals (by decide) _) (.numerals (by decide) _) (by simp)
    (List.tail_eq_of_cons_eq registers)
  exact ⟨Vector.toList_inj.mp ((List.map_inj_right fun _ _ => keyCell_inj).mp keys),
    Hex.map_chars_inj (by decide) cells,
    Vector.toList_inj.mp (Hex.map_chars_inj (by decide) data)⟩

theorem shown_of_dump (nonzero : ∀ e ∈ a.stack.entries, e ≠ 0)
    (nonzero' : ∀ e ∈ b.stack.entries, e ≠ 0) (same : a.dump = b.dump) : a.shown = b.shown := by
  have text : joined (lines a) = joined (lines b) := String.ofList_inj.mp same
  rw [lines_eq, lines_eq] at text
  obtain ⟨front, back⟩ := joined_inj (List.cons_ne_nil _ _) (List.cons_ne_nil _ _) (plain_rest a)
    (plain_rest b) text
  have name := heading_inj front
  obtain ⟨upToMemory, behind⟩ := List.append_inj' back rfl
  obtain ⟨before, spans⟩ := List.append_inj upToMemory rfl
  obtain ⟨lastWord, counter, index, delay, sound⟩ := values_inj before
  have memory := memory_inj spans
  obtain ⟨keys, stack, data⟩ := tables_inj behind
  have entries : a.stack.entries = b.stack.entries := by
    rw [← takeWhile_stackCells nonzero, stack, takeWhile_stackCells nonzero']
  simp only [shown, name, lastWord, counter, index, delay, sound, memory, keys, entries, data]

theorem dump_of_shown (same : a.shown = b.shown) : a.dump = b.dump := by
  simp only [shown, Shown.mk.injEq] at same
  obtain ⟨name, lastWord, counter, index, delay, sound, memory, keys, entries, data⟩ := same
  have depth : a.stack.depth = b.stack.depth := by
    simpa [CallStack.entries, CallStack.depth] using congrArg List.length entries
  unfold dump lines stackCells
  rw [name, lastWord, counter, index, delay, sound, memory, keys, entries, depth, data]

theorem Bounded.nonzero {config : Config} {m : Machine} (h : m.Bounded config) :
    ∀ e ∈ m.stack.entries, e ≠ 0 := by
  rintro e mem rfl
  exact absurd (h.entries 0 mem).1 (by decide)

/-- Two histories end with the same dump if and only if the machines agree in everything a dump
shows, whatever the names of their programs. -/
theorem dump_eq_iff (config config' : Config) (random random' : RandomSource)
    (ops ops' : List Operation) :
    let a := ((powerOn config random).run ops).1
    let b := ((powerOn config' random').run ops').1
    a.dump = b.dump ↔ a.shown = b.shown := by
  intro a b
  have left : a.Bounded config := (Bounded.powerOn config random).run ops
  have right : b.Bounded config' := (Bounded.powerOn config' random').run ops'
  exact ⟨shown_of_dump left.nonzero right.nonzero, dump_of_shown⟩

end Machine
end ChipEight
