import ChipEight.Fault

/-
  Return addresses, at most sixteen. A push onto a full stack is dropped and counted.
-/
namespace ChipEight

def CallStack.capacity : Nat := 16

@[ext] structure CallStack where
  /-- The newest return address comes first. -/
  newestFirst : List Word
  dropped : Nat
  bounded : newestFirst.length ≤ CallStack.capacity := by decide
  deriving DecidableEq

namespace CallStack

def empty : CallStack := ⟨[], 0, by decide⟩

def depth (s : CallStack) : Nat := s.newestFirst.length
/-- The return addresses in the order of their calls. -/
def entries (s : CallStack) : List Word := s.newestFirst.reverse

/-- The pushed stack; on a full stack the count of dropped pushes grows instead. -/
def push (s : CallStack) (address : Word) : CallStack × Except StackFault Unit :=
  if h : s.newestFirst.length < capacity then
    (⟨address :: s.newestFirst, s.dropped, h⟩, .ok ())
  else ({ s with dropped := s.dropped + 1 }, .error .full)

def pop (s : CallStack) : CallStack × Except StackFault Word :=
  match h : s.newestFirst with
  | [] => (s, .error .empty)
  | address :: older =>
    (⟨older, s.dropped, by have := s.bounded; simp [h] at this; omega⟩, .ok address)

theorem entries_empty : empty.entries = [] := rfl

theorem entries_push {s : CallStack} (room : s.depth < capacity) (address : Word) :
    (s.push address).1.entries = s.entries ++ [address] := by
  simp only [depth] at room
  simp [push, entries, room]

theorem entries_push_full {s : CallStack} (full : s.depth = capacity) (address : Word) :
    (s.push address).1.entries = s.entries := by
  simp only [depth] at full
  simp [push, entries, full]

theorem entries_pop {s : CallStack} {address : Word} (h : s.pop.2 = .ok address) :
    s.entries = s.pop.1.entries ++ [address] := by
  revert h
  unfold pop entries
  split <;> simp_all

theorem pop_eq_empty_iff (s : CallStack) : s.pop.2 = .error .empty ↔ s.depth = 0 := by
  unfold pop depth
  split <;> simp_all

end CallStack
end ChipEight
