import ChipEight.Proofs.Lockstep
import ChipEight.Proofs.Sprite

/-
  What the palette has a part in. Machines that light pixels in two colours show the same shapes: a
  drawing asks of a pixel only whether it is lit, and tells the program only whether one went out.
-/
namespace ChipEight

namespace Display

/-- Pictures in two colours with the same pixels lit. -/
structure SameShape (f f' : Byte) (d d' : Display) : Prop where
  foreground : d.foreground = f
  foreground' : d'.foreground = f'
  lit : ∀ column row, d.pixel column row ≠ background ↔ d'.pixel column row ≠ background

theorem pixel_clear (d : Display) (column : Fin 64) (row : Fin 32) :
    d.clear.pixel column row = background := by
  simp [clear, pixel, blankGrid]

/-- A pixel is lit after a drawing if it was dark and the sprite covers it, or lit and it does not. -/
theorem lit_draw {d : Display} (coloured : d.foreground ≠ background) (x y : Nat)
    (sprite : List Byte) (column : Fin 64) (row : Fin 32) :
    (d.draw x y sprite).1.pixel column row ≠ background ↔
      (covers x y sprite column row = true ↔ ¬ d.pixel column row ≠ background) := by
  rw [(Flips.draw d x y sprite).pixels, toggled]
  cases covers x y sprite column row with
  | false => simp
  | true => by_cases dark : d.pixel column row = background <;> simp [dark, coloured]

namespace SameShape
variable {f f' : Byte} {d d' : Display}

theorem clear (same : SameShape f f' d d') : SameShape f f' d.clear d'.clear where
  foreground := same.foreground
  foreground' := same.foreground'
  lit column row := by rw [pixel_clear, pixel_clear]

/-- Both pictures change their shape in one way, and a lit pixel goes out in both or in none. -/
theorem draw (same : SameShape f f' d d') (coloured : f ≠ background) (coloured' : f' ≠ background)
    (x y : Nat) (sprite : List Byte) :
    SameShape f f' (d.draw x y sprite).1 (d'.draw x y sprite).1 ∧
      (d.draw x y sprite).2 = (d'.draw x y sprite).2 := by
  have flips := Flips.draw d x y sprite
  have flips' := Flips.draw d' x y sprite
  constructor
  · refine ⟨flips.foreground.trans same.foreground, flips'.foreground.trans same.foreground', ?_⟩
    intro column row
    rw [lit_draw (same.foreground ▸ coloured), lit_draw (same.foreground' ▸ coloured'),
      same.lit column row]
  · rw [Bool.eq_iff_iff, flips.collision, flips'.collision]
    simp only [same.lit]

end SameShape
end Display

/-- Machines that light pixels in two colours. Their random bytes may come from two sources that
give the same. -/
def Difference.colours (f f' : Byte) : Difference where
  config c c' := c.foreground = f ∧ c' = { c with foreground := f' }
  display := Display.SameShape f f'
  random := RandomSource.SameBytes

/-- No instruction sees the colour, not even the one that draws. -/
theorem Difference.unseen_colours {f f' : Byte} (coloured : f ≠ Display.background)
    (coloured' : f' ≠ Display.background) : (colours f f').Unseen fun _ => True where
  dialect := by
    rintro c c' i ⟨-, rfl⟩ -
    rfl
  keys := fun same _ _ => same
  time := fun same _ => same
  lastWord := fun _ => rfl
  delay := fun _ => rfl
  sound := fun _ => rfl
  clear := Display.SameShape.clear
  draw := fun x y sprite same => same.draw coloured coloured' x y sprite
  take := RandomSource.SameBytes.take
  pace := by
    rintro c c' ⟨-, rfl⟩
    exact ⟨rfl, rfl⟩
  name := fun _ => rfl
  tick := congrArg Timer.tick
  outside := ⟨rfl, rfl, rfl, rfl⟩

namespace Machine

theorem alike_powerOn {config : Config} {foreground' : Byte} {random random' : RandomSource}
    (bytes : random.SameBytes random') :
    (powerOn config random).Alike (.colours config.foreground foreground')
      (powerOn { config with foreground := foreground' } random') where
  memory := rfl
  registers := rfl
  stack := rfl
  config := ⟨rfl, rfl⟩
  name := rfl
  lastWord := rfl
  delay := rfl
  sound := rfl
  display := ⟨rfl, rfl, fun _ _ => Iff.rfl⟩
  keypad := rfl
  random := bytes
  sinceTick := rfl
  sinceCycle := rfl

/-- Two new machines whose colours are both different from the background go through every history
alike. -/
theorem colour_changes_no_answer (config : Config) {foreground' : Byte}
    {random random' : RandomSource} (ops : List Operation)
    (coloured : config.foreground ≠ Display.background)
    (coloured' : foreground' ≠ Display.background) (bytes : random.SameBytes random') :
    List.Forall₂
      (fun now now' => now.1.Alike (.colours config.foreground foreground') now'.1 ∧
        now.2 = now'.2)
      ((powerOn config random).trace ops)
      ((powerOn { config with foreground := foreground' } random').trace ops) :=
  (alike_powerOn bytes).trace (Difference.unseen_colours coloured coloured') fun _ _ _ _ => trivial

/-- Draws its own first byte twice and goes on past the empty word if the second drawing hits. -/
def drawnTwice : Program :=
  ⟨"", [0xA2, 0x00, 0xD0, 0x01, 0xD0, 0x01, 0x3F, 0x01, 0x00, 0x00, 0xC1, 0xFF, 0xD1, 0x05]⟩

def drawnTwiceHistory : List Operation :=
  [.load drawnTwice, .cycle, .advance 5000000, .cycle, .cycle, .setKey 2 true, .cycle, .cycle]

theorem drawn_twice_in_two_colours :
    let m := powerOn {} (.cyclic #[0x42])
    let m' := powerOn { foreground := 7 } { RandomSource.cyclic #[0x42] with taken := 3 }
    (1 : Byte) ≠ Display.background ∧ (7 : Byte) ≠ Display.background ∧
      m.random.SameBytes m'.random ∧
      List.Forall₂ (fun now now' => now.1.Alike (.colours 1 7) now'.1 ∧ now.2 = now'.2)
        (m.trace drawnTwiceHistory) (m'.trace drawnTwiceHistory) ∧
      (m.run drawnTwiceHistory).1.counter = 0x20E ∧
      (m.run drawnTwiceHistory).1.display.pixel 2 2 = 1 := by
  intro m m'
  have bytes : m.random.SameBytes m'.random := by
    intro k
    simp [m, m', powerOn, RandomSource.cyclic, Nat.mod_one]
  have alike := colour_changes_no_answer {} drawnTwiceHistory (by decide)
    (show (7 : Byte) ≠ Display.background by decide) bytes
  exact ⟨by decide, by decide, bytes, alike, by decide +kernel⟩

end Machine
end ChipEight
