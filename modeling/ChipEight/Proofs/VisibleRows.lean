import ChipEight.Proofs.FaultTable
import ChipEight.Proofs.Sprite

/-
  Reading less of a sprite than its height says. The rows that a drawing would cut off at the lower
  edge are not read from memory, so a sprite may run off the end of the memory where it runs off the
  screen. The picture and the flag are the ones of the whole sprite, whatever its other rows are.
-/
namespace ChipEight

namespace Display

theorem drawRows_take (d : Display) (x y : Nat) (rows : List Byte) :
    d.drawRows x y (rows.take (32 - y)) = d.drawRows x y rows := by
  induction rows generalizing d y with
  | nil => rw [List.take_nil]
  | cons row rows ih =>
    by_cases inside : y < 32
    · have more : 32 - y = (32 - (y + 1)) + 1 := by omega
      rw [more, List.take_succ_cons, drawRows, drawRows]
      simp only [dif_pos inside, ih]
    · have none : 32 - y = 0 := by omega
      rw [none, List.take_zero, drawRows, drawRows, dif_neg inside]

/-- The rows that are counted as visible before a drawing are the ones that it draws. -/
theorem draw_take (d : Display) (x y : Nat) (sprite : List Byte) :
    d.draw x y (sprite.take (visibleRows y sprite.length)) = d.draw x y sprite := by
  have cut : sprite.take (visibleRows y sprite.length) = sprite.take (32 - y % height) := by
    rw [visibleRows, List.take_eq_take_iff]
    simp only [height]
    omega
  rw [cut, draw, draw]
  exact drawRows_take d _ _ _

end Display

theorem Memory.window_eq_take {m : Memory} {address length : Nat} {bs : List Byte}
    (agree : ∀ i < length, bs[i]? = m.bytes[address + i]?) :
    m.window address length = bs.take length := by
  apply List.ext_getElem?
  intro i
  by_cases inside : i < length
  · rw [m.getElem?_window inside, List.getElem?_take_of_lt inside, agree i inside]
  · rw [window, List.getElem?_take, List.getElem?_take, if_neg inside, if_neg inside]

namespace Machine

/-- A list of bytes that begins like the sprite at the index register draws the same. -/
theorem drawn_eq_draw {m : Machine} {x y : Reg} {rows : Nat} {sprite : List Byte}
    (length : sprite.length = rows)
    (agree : ∀ i < Display.visibleRows (m.reg y).toNat rows,
      sprite[i]? = m.memory.bytes[m.index.toNat + i]?) :
    m.drawn x y rows = m.display.draw (m.reg x).toNat (m.reg y).toNat sprite := by
  rw [drawn, Memory.window_eq_take agree, ← length, Display.draw_take]

theorem read_of_draw {w : Word} (draws : w.Fits "DXYN") :
    Instruction.ofWord? w = some (.draw w.x w.y w.n) :=
  Word.ReadAs.draw.ofWord? draws

section Words
variable {m : Machine} {w : Word} (word : m.memory.word m.counter.toNat = .ok w)
  (draws : w.Fits "DXYN")
include word draws

theorem cycle_of_readable_sprite
    (inside : m.index.toNat + Display.visibleRows (m.reg w.y).toNat w.n ≤ 4096) :
    m.cycle =
      ({ m with
        lastWord := w
        display := { m.display with grid := (m.drawn w.x w.y w.n).1.grid }
        registers := (m.registers.setFlag (m.drawn w.x w.y w.n).2).setCounter (m.counter + 2) },
        .ok .redraw) := by
  have painted : (m.drawn w.x w.y w.n).1 =
      { m.display with grid := (m.drawn w.x w.y w.n).1.grid } :=
    Display.ext rfl (Display.Flips.draw _ _ _ _).foreground
  rw [m.cycle_of_inside word (read_of_draw draws) rfl inside, ← painted]
  rfl

theorem cycle_of_unreadable_sprite
    (outside : ¬ m.index.toNat + Display.visibleRows (m.reg w.y).toNat w.n ≤ 4096) :
    m.cycle = (m, .error (.memory (.outsideMemory m.index.toNat
      (Display.visibleRows (m.reg w.y).toNat w.n)))) := by
  apply cycle_of_refusal
  simp [cycleRefusal, word, wordRefusal, read_of_draw draws, refusal, demand,
    outside]

end Words

/-- A drawing runs when the rows of its sprite that lie on the screen can be read, and then it does
what it would do with the whole sprite, whatever the rows are that lie below. The coordinates are
the ones before the flag is written, and beside the picture, the flag, the counter and the last word
nothing changes. -/
theorem drawing_reads_visible_rows_only {m : Machine} {w : Word}
    (word : m.memory.word m.counter.toNat = .ok w) (draws : w.Fits "DXYN") :
    let column := (m.reg w.x).toNat
    let row := (m.reg w.y).toNat
    let visible := min w.n.val (32 - row % 32)
    ((∃ signal, m.cycle.2 = .ok signal) ↔ m.index.toNat + visible ≤ 4096) ∧
      (m.index.toNat + visible ≤ 4096 → ∃ grid flag,
        m.cycle =
          ({ m with
            lastWord := w
            display := { m.display with grid := grid }
            registers := (m.registers.set Registers.flagReg flag).setCounter (m.counter + 2) },
            .ok .redraw) ∧
        (flag = 0 ∨ flag = 1) ∧
        ∀ sprite : List Byte, sprite.length = w.n →
          (∀ i < visible, sprite[i]? = m.memory.bytes[m.index.toNat + i]?) →
            let drawn := m.display.draw column row sprite
            grid = drawn.1.grid ∧ flag = if drawn.2 then 1 else 0) := by
  intro column row visible
  by_cases inside : m.index.toNat + visible ≤ 4096
  · have cycled := cycle_of_readable_sprite word draws inside
    refine ⟨iff_of_true ⟨_, by rw [cycled]⟩ inside, fun _ => ⟨_, _, cycled, ?_, ?_⟩⟩
    · cases (m.drawn w.x w.y w.n).2
      · exact .inl rfl
      · exact .inr rfl
    · intro sprite length agree
      rw [drawn_eq_draw length agree]
      exact ⟨rfl, rfl⟩
  · have cycled := cycle_of_unreadable_sprite word draws inside
    refine ⟨iff_of_false ?_ inside, fun fits => absurd fits inside⟩
    rintro ⟨signal, done⟩
    rw [cycled] at done
    cases done

/-- A sprite of fifteen rows at the last two bytes of memory, for a place two rows above the lower
edge. Its column is in the flag register. -/
def atBothEnds : Machine :=
  let m := uniform 0xDF 0xFFE
  { m with registers := (m.registers.set Registers.flagReg 62).set ⟨13, by decide⟩ 30 }

theorem two_rows_of_fifteen_are_read :
    atBothEnds.memory.word atBothEnds.counter.toNat = .ok 0xDFDF ∧
      Word.Fits 0xDFDF "DXYN" ∧ atBothEnds.cycle.2 = .ok .redraw ∧
      ∀ hidden : List Byte, hidden.length = 13 →
        let drawn := atBothEnds.display.draw 62 30 ([0xDF, 0xDF] ++ hidden)
        atBothEnds.cycle.1.display.grid = drawn.1.grid ∧
          atBothEnds.cycle.1.registers.flag = if drawn.2 then 1 else 0 := by
  have word : atBothEnds.memory.word atBothEnds.counter.toNat = .ok 0xDFDF :=
    word_uniform 0xDF 0xFFE (by decide)
  have draws : Word.Fits 0xDFDF "DXYN" := by decide
  obtain ⟨-, succeeds⟩ := drawing_reads_visible_rows_only word draws
  obtain ⟨grid, flag, cycled, -, whole⟩ := succeeds (by decide)
  refine ⟨word, draws, by rw [cycled], ?_⟩
  intro hidden length drawn
  have agree : ∀ i < 2, ([0xDF, 0xDF] ++ hidden)[i]? =
      atBothEnds.memory.bytes[atBothEnds.index.toNat + i]? := by
    intro i row
    have inside : 0xFFE + i < 4096 := by omega
    have same : atBothEnds.memory.bytes[atBothEnds.index.toNat + i]? = some 0xDF := by
      change (Vector.replicate 4096 (0xDF : Byte))[0xFFE + i]? = some 0xDF
      rw [Vector.getElem?_replicate, if_pos inside]
    have first : i = 0 ∨ i = 1 := by omega
    rcases first with rfl | rfl
    · exact same.symm
    · exact same.symm
  obtain ⟨picture, set⟩ := whole ([0xDF, 0xDF] ++ hidden) (by simp [length]; decide) agree
  rw [cycled]
  exact ⟨picture, set⟩

end Machine
end ChipEight
