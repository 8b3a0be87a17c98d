import ChipEight.Proofs.Arithmetic
import ChipEight.Proofs.CycleTrace

/-
  Registers that are added to the index one after the other. An addition leaves the address space
  at most once, sets the flag when it does, and never clears it. So in the end the flag tells
  whether the whole sum lies outside, and the index is what remains of it.
-/
namespace ChipEight

theorem bit_twelve_iff (address : Word) (below : address.toNat < 8192) :
    bitAt .unsigned address 12 = true ↔ 4096 ≤ address.toNat := by
  have bit : (bitAt .unsigned address 12).toNat = address.toNat / 4096 % 2 := by
    rw [bitAt_toNat, Nat.shiftRight_eq_div_pow]
  cases set : bitAt .unsigned address 12 with
  | true =>
    rw [set, Bool.toNat_true] at bit
    simp only [true_iff]
    omega
  | false =>
    rw [set, Bool.toNat_false] at bit
    simp only [Bool.false_eq_true, false_iff]
    omega

namespace Registers

/-- The registers when the index has come to a total, which may lie outside of the address space. -/
structure Totals (r : Registers) (total : Nat) (after : Registers) : Prop where
  index : after.index.toNat = total % 4096
  flag : after.flag = if 4096 ≤ total then 1 else r.flag
  others : ∀ x, x ≠ flagReg → after.get x = r.get x

namespace Totals
variable {r mid after : Registers} {total added : Nat}

theorem start (inside : r.index.toNat ≤ 0xFFF) : r.Totals r.index.toNat r where
  index := (Nat.mod_eq_of_lt (Nat.lt_succ_of_le inside)).symm
  flag := (if_neg (Nat.not_le.mpr (Nat.lt_succ_of_le inside))).symm
  others _ _ := rfl

theorem inside (before : r.Totals total after) : after.index.toNat ≤ 0xFFF := by
  have := before.index
  omega

theorem trans (before : r.Totals total mid)
    (next : mid.Totals (mid.index.toNat + added) after) : r.Totals (total + added) after := by
  have place := before.index
  constructor
  · rw [next.index, place]
    omega
  · rw [next.flag, before.flag, place]
    by_cases already : 4096 ≤ total
    · have still : 4096 ≤ total + added := by omega
      rw [if_pos already, if_pos still]
      split <;> rfl
    · have small : total % 4096 = total := Nat.mod_eq_of_lt (Nat.not_le.mp already)
      rw [if_neg already, small]
  · intro x other
    rw [next.others x other, before.others x other]

end Totals
end Registers

namespace Machine
variable {m : Machine} {w : Word}

theorem totals_addToIndex (x : Reg) (inside : m.index.toNat ≤ 0xFFF) :
    m.registers.Totals (m.index.toNat + (m.reg x).toNat) (m.addToIndex x).registers := by
  have byte := (m.reg x).isLt
  let sum := m.index + (m.reg x).setWidth 16
  have value : sum.toNat = m.index.toNat + (m.reg x).toNat := by
    rw [BitVec.toNat_add, BitVec.toNat_setWidth]
    omega
  have leaves := bit_twelve_iff sum (by omega)
  rw [value] at leaves
  have index : (m.addToIndex x).index.toNat = (m.index.toNat + (m.reg x).toNat) % 4096 := by
    rw [← value]
    exact Registers.index_setIndex_toNat _ sum
  by_cases outside : 4096 ≤ m.index.toNat + (m.reg x).toNat
  · have registers : (m.addToIndex x).registers = (m.registers.setFlag true).setIndex sum :=
      congrArg (fun r : Registers => r.setIndex sum) (if_pos (leaves.mpr outside))
    refine ⟨index, ?_, ?_⟩
    · rw [if_pos outside, registers]
      exact m.registers.get_set Registers.flagReg Registers.flagReg 1
    · intro y other
      rw [registers]
      exact (m.registers.get_set _ y 1).trans (if_neg other.symm)
  · have registers : (m.addToIndex x).registers = m.registers.setIndex sum :=
      congrArg (fun r : Registers => r.setIndex sum) (if_neg fun set => outside (leaves.mp set))
    refine ⟨index, ?_, ?_⟩
    · rw [if_neg outside, registers]
      rfl
    · intro y _
      rw [registers]
      rfl

theorem totals_cycle (word : m.memory.word m.counter.toNat = .ok w) (fits : w.Fits "FX1E")
    (inside : m.index.toNat ≤ 0xFFF) :
    m.cycle.2 = .ok .quiet ∧
      m.registers.Totals (m.index.toNat + (m.reg w.x).toNat) m.cycle.1.registers := by
  have effect : (m.fetched w).execute (.addToIndex w.x) =
      ((m.fetched w).addToIndex w.x).proceed := rfl
  have totals := totals_addToIndex (m := m.fetched w) w.x inside
  rw [cycle_of_proceed word (Word.ReadAs.addToIndex.ofWord? fits) effect]
  exact ⟨rfl, totals.index, totals.flag, totals.others⟩

section Sequences
variable {r : Registers} {total : Nat}

/-- One more register, which is not the flag and so is as it was at the start. -/
theorem totals_next {x : Reg} {after : Registers} (before : r.Totals total m.registers)
    (next : m.registers.Totals (m.index.toNat + (m.reg x).toNat) after)
    (apart : x ≠ Registers.flagReg) : r.Totals (total + (r.get x).toNat) after := by
  have same : m.reg x = r.get x := before.others x apart
  rw [same] at next
  exact before.trans next

theorem totals_foldl {xs : List Reg} (before : r.Totals total m.registers)
    (apart : ∀ x ∈ xs, x ≠ Registers.flagReg) :
    r.Totals (total + (xs.map fun x => (r.get x).toNat).sum)
      (xs.foldl (fun m x => (m.execute (.addToIndex x)).1) m).registers := by
  induction xs generalizing m total with
  | nil => exact before
  | cons x xs ih =>
    have next := totals_next before (totals_addToIndex x before.inside) (apart x List.mem_cons_self)
    rw [List.map_cons, List.sum_cons, ← Nat.add_assoc]
    exact ih next fun y mem => apart y (List.mem_cons_of_mem x mem)

theorem totals_of_unfolds {final : Machine} {starts : List Machine} {ws : List Word}
    (trace : m.Unfolds starts final) (before : r.Totals total m.registers)
    (words : starts.map (fun s => s.memory.word s.counter.toNat) = ws.map .ok)
    (adds : ∀ w ∈ ws, w.Fits "FX1E" ∧ w.x ≠ Registers.flagReg) :
    (∀ s ∈ starts, s.cycle.2 = .ok .quiet) ∧
      r.Totals (total + (ws.map fun w => (r.get w.x).toNat).sum) final.registers := by
  induction trace generalizing total ws with
  | done same =>
    obtain ⟨-, -, -, -, registers, -⟩ := parts_of_isolated same
    have none : ws = [] := List.map_eq_nil_iff.mp words.symm
    rw [none, registers]
    exact ⟨nofun, before⟩
  | @step m start final later same _ ih =>
    obtain ⟨-, -, -, -, registers, -⟩ := parts_of_isolated same
    cases ws with
    | nil => cases words
    | cons w ws =>
      simp only [List.map_cons, List.cons.injEq] at words
      obtain ⟨fits, apart⟩ := adds w List.mem_cons_self
      rw [← registers] at before
      obtain ⟨quiet, added⟩ := totals_cycle words.1 fits before.inside
      have next := totals_next before added apart
      obtain ⟨others, ended⟩ := ih next words.2 fun v mem => adds v (List.mem_cons_of_mem w mem)
      rw [List.map_cons, List.sum_cons, ← Nat.add_assoc]
      exact ⟨List.forall_mem_cons.mpr ⟨quiet, others⟩, ended⟩

end Sequences

/-- Whichever registers but the flag are added to the index, and however often, the index is their
sum without what lies above the address space, and the flag is set if anything does. An addition of
the flag itself adds what it was before. -/
theorem index_totals_the_registers :
    (∀ (m : Machine) (xs : List Reg), m.index.toNat ≤ 0xFFF →
      (∀ x ∈ xs, x ≠ Registers.flagReg) →
        m.registers.Totals (m.index.toNat + (xs.map fun x => (m.reg x).toNat).sum)
          (xs.foldl (fun m x => (m.execute (.addToIndex x)).1) m).registers) ∧
    (∀ (m : Machine) (ops : List Operation) (ws : List Word), m.index.toNat ≤ 0xFFF →
      (∀ op ∈ ops, op.intervenes = false) →
      (m.starts ops).map (fun s => s.memory.word s.counter.toNat) = ws.map .ok →
      (∀ w ∈ ws, w.Fits "FX1E" ∧ w.x ≠ Registers.flagReg) →
        (∀ s ∈ m.starts ops, s.cycle.2 = .ok .quiet) ∧
        m.registers.Totals (m.index.toNat + (ws.map fun w => (m.reg w.x).toNat).sum)
          (m.run ops).1.registers) ∧
    ∀ (m : Machine) (w : Word), m.index.toNat ≤ 0xFFF →
      m.memory.word m.counter.toNat = .ok w → w.Fits "FX1E" →
        m.cycle.2 = .ok .quiet ∧
          m.registers.Totals (m.index.toNat + (m.reg w.x).toNat) m.cycle.1.registers := by
  refine ⟨?_, ?_, fun m w inside word fits => totals_cycle word fits inside⟩
  · intro m xs inside apart
    exact totals_foldl (.start inside) apart
  · intro m ops ws inside follows words adds
    exact totals_of_unfolds (.run m follows) (.start inside) words adds

/-- A machine that is about to add its first two registers to an index near the end of memory. -/
def addingTwice : Machine :=
  { holding [0xF0, 0x1E, 0xF1, 0x1E] with
    registers :=
      { (Registers.initial.set (Word.x 0xF01E) 0xFF).set (Word.x 0xF11E) 2 with index := 0xFF0 } }

/-- A machine that is about to add its flag register. -/
def addingFlag : Machine :=
  { holding [0xFF, 0x1E] with
    registers := { Registers.initial.set Registers.flagReg 200 with index := 0x100 } }

theorem sums_leave_the_address_space :
    let v0 := Word.x 0xF01E
    let v1 := Word.x 0xF11E
    (addingTwice.run [.cycle, .cycle]).1.index.toNat = 0x0F1 ∧
      (addingTwice.run [.cycle, .cycle]).1.registers.flag = 1 ∧
      ([v0, v1, v0].foldl (fun m x => (m.execute (.addToIndex x)).1) addingTwice).index.toNat =
        0x1F0 ∧
      addingFlag.cycle.1.index.toNat = 0x1C8 ∧ addingFlag.cycle.1.registers.flag = 200 := by
  intro v0 v1
  obtain ⟨folds, runs, cycles⟩ := index_totals_the_registers
  have words : (addingTwice.starts [.cycle, .cycle]).map (fun s => s.memory.word s.counter.toNat) =
      [0xF01E, 0xF11E].map .ok := by decide +kernel
  have adds : ∀ w ∈ [0xF01E, 0xF11E], Word.Fits w "FX1E" ∧ w.x ≠ Registers.flagReg := by
    rw [List.forall_mem_cons, List.forall_mem_singleton]
    decide
  have totals := (runs addingTwice _ _ (by decide) (by decide) words adds).2
  have folded := folds addingTwice [v0, v1, v0] (by decide) (by decide)
  have word : addingFlag.memory.word addingFlag.counter.toNat = .ok 0xFF1E := word_holding _ _ _
  have flagged := (cycles addingFlag 0xFF1E (by decide) word (by decide)).2
  refine ⟨?_, ?_, ?_, ?_, ?_⟩
  · exact totals.index.trans (by decide +kernel)
  · exact totals.flag.trans (by decide +kernel)
  · exact folded.index.trans (by decide +kernel)
  · exact flagged.index.trans (by decide +kernel)
  · exact flagged.flag.trans (by decide +kernel)

end Machine
end ChipEight
