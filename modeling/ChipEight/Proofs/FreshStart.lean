import ChipEight.Proofs.Bounds

/-
  Reset and load after any history. A reset puts back every component one by one and keeps the
  configuration, the random source, and the colour of the display. The colour is the configured
  one in every history, so nothing of the history is left.
-/
namespace ChipEight

namespace Memory

/-- The memory of a machine that has been loaded: the font, then the program, and zeros. -/
def holding (program : List Byte) : Memory where
  bytes := Vector.ofFn fun a =>
    if 0x200 ≤ a.val then program[a.val - 0x200]?.getD 0
    else if 0x50 ≤ a.val ∧ a.val ≤ 0x9F then Font.glyphs[a.val - 0x50]?.getD 0
    else 0

theorem getElem_initial (a : Nat) (inside : a < 4096) :
    initial.bytes[a] = if 0x50 ≤ a ∧ a ≤ 0x9F then Font.glyphs[a - 0x50]?.getD 0 else 0 := by
  have size : Font.address + Font.glyphs.length = 0xA0 := rfl
  rw [initial, getElem_putFrom]
  by_cases font : 0x50 ≤ a ∧ a ≤ 0x9F
  · have within : Font.address ≤ a ∧ a < Font.address + Font.glyphs.length := by
      rw [size]
      exact ⟨font.1, Nat.lt_succ_of_le font.2⟩
    have inGlyphs : a - 0x50 < Font.glyphs.length := Nat.sub_lt_left_of_lt_add font.1 within.2
    rw [if_pos font, dif_pos within, List.getElem?_eq_getElem inGlyphs]
    rfl
  · have outside : ¬ (Font.address ≤ a ∧ a < Font.address + Font.glyphs.length) := by
      rw [size]
      exact fun within => font ⟨within.1, Nat.le_of_lt_succ within.2⟩
    rw [if_neg font, dif_neg outside, Vector.getElem_replicate]

/-- What a program does not cover is what the memory held before: zeros, behind the font. -/
theorem putFrom_initial (program : List Byte) :
    (⟨putFrom initial.bytes programStart program⟩ : Memory) = holding program := by
  apply Memory.ext
  apply Vector.ext
  intro a inside
  rw [holding, Vector.getElem_ofFn, getElem_putFrom, getElem_initial]
  by_cases late : 0x200 ≤ a
  · rw [if_pos late]
    by_cases covered : a < 0x200 + program.length
    · have here : a - 0x200 < program.length := Nat.sub_lt_left_of_lt_add late covered
      rw [dif_pos ⟨late, covered⟩, List.getElem?_eq_getElem here]
      rfl
    · have beyond : program.length ≤ a - 0x200 := by omega
      rw [dif_neg fun h => covered h.2, if_neg (by omega), List.getElem?_eq_none beyond]
      rfl
  · rw [dif_neg fun h => late h.1, if_neg late]

end Memory

namespace Machine
variable {config : Config} {m : Machine}

/-- A reset leaves nothing behind but the configuration and the random source. -/
theorem reset_eq_powerOn (h : m.Bounded config) : m.reset = powerOn config m.random := by
  rw [← h.configured]
  unfold reset powerOn Display.clear Display.blank
  rw [h.picture.drawnWith, h.configured]

theorem load_eq_holding (m : Machine) (program : Program) : m.load program =
    if program.bytes.length ≤ 3584 then
      ({ m.reset with memory := .holding program.bytes, name := program.name }, .ok ())
    else (m, .error (.memory (.programTooLarge program.bytes.length 3584))) := by
  rw [load_eq, Memory.putFrom_initial]
  rfl

theorem load_powerOn (config : Config) (random : RandomSource) (program : Program) :
    (powerOn config random).load program =
      if program.bytes.length ≤ 3584 then
        ({ powerOn config random with
          memory := .holding program.bytes
          name := program.name }, .ok ())
      else (powerOn config random,
        .error (.memory (.programTooLarge program.bytes.length 3584))) :=
  load_eq_holding _ program

theorem load_eq_load_powerOn (h : m.Bounded config) (program : Program) :
    m.load program =
      if program.bytes.length ≤ 3584 then (powerOn config m.random).load program
      else (m, .error (.memory (.programTooLarge program.bytes.length 3584))) := by
  rw [load_powerOn, load_eq_holding, reset_eq_powerOn h]
  by_cases fits : program.bytes.length ≤ 3584
  · rw [if_pos fits, if_pos fits, if_pos fits]
  · rw [if_neg fits, if_neg fits]

/-- After any history from power on, a reset gives a fresh machine with the same configuration and
the random source as it is by then. A program that fits is loaded as into that fresh machine, and
then only the memory and the name are not as at power on; one that does not fit changes nothing. -/
theorem reset_and_load_forget_history (config : Config) (random : RandomSource)
    (ops : List Operation) (program : Program) :
    let m := ((powerOn config random).run ops).1
    let fresh := powerOn m.config m.random
    m.config = config ∧ m.reset = fresh ∧
      m.load program =
        (if program.bytes.length ≤ 3584 then fresh.load program
        else (m, .error (.memory (.programTooLarge program.bytes.length 3584)))) ∧
      fresh.load program =
        if program.bytes.length ≤ 3584 then
          ({ fresh with memory := .holding program.bytes, name := program.name }, .ok ())
        else (fresh, .error (.memory (.programTooLarge program.bytes.length 3584))) := by
  intro m fresh
  have bounded : m.Bounded config := (Bounded.powerOn config random).run ops
  have same : fresh = powerOn config m.random := by rw [← bounded.configured]
  refine ⟨bounded.configured, ?_, ?_, load_powerOn _ _ program⟩
  · rw [same]
    exact reset_eq_powerOn bounded
  · rw [same]
    exact load_eq_load_powerOn bounded program

end Machine
end ChipEight
