import ChipEight.Proofs.CycleTrace

/-
  Calls and the returns that match them. A cycle adds one return address at most, takes one away
  at most, and never touches the ones below. So the addresses that a call has found, and the one
  that it adds, stay where they are until the stack is as low as they are.
-/
namespace ChipEight.Machine

section Cycles
variable (m : Machine)

/-- Of the return addresses before and after a cycle one list begins with the other. -/
theorem entries_cycle : m.stack.entries <+: m.cycle.1.stack.entries ∨
    m.cycle.1.stack.entries <+: m.stack.entries := by
  rcases m.cycle_cases with ⟨f, -, done⟩ | ⟨w, i, -, -, -, -, done⟩
  · rw [done]
    exact .inl (List.prefix_refl _)
  · rw [done]
    change m.stack.entries <+: ((m.fetched w).stackAfter i).entries ∨
      ((m.fetched w).stackAfter i).entries <+: m.stack.entries
    cases i with
    | call target =>
      left
      by_cases room : m.stack.depth < CallStack.capacity
      · exact ⟨_, (CallStack.entries_push room _).symm⟩
      · have full : m.stack.depth = CallStack.capacity :=
          Nat.le_antisymm m.stack.bounded (Nat.not_lt.mp room)
        exact ⟨[], (List.append_nil _).trans (CallStack.entries_push_full full _).symm⟩
    | ret =>
      right
      change m.stack.pop.1.entries <+: m.stack.entries
      by_cases empty : m.stack.depth = 0
      · exact ⟨[], by rw [CallStack.pop_of_empty empty, List.append_nil]⟩
      · have popped := congrArg Prod.snd (CallStack.pop_of_nonempty empty)
        exact ⟨_, (CallStack.entries_pop popped).symm⟩
    | _ => exact .inl (List.prefix_refl _)

theorem length_entries : m.stack.entries.length = m.stack.depth := List.length_reverse

/-- A call that finds room puts the address behind it on top of the stack. -/
theorem entries_cycle_call {target : Address} (calls : m.current = .ok (.call target))
    (room : m.stack.depth < 16) :
    m.cycle.1.stack.entries = m.stack.entries ++ [m.counter + 2] := by
  obtain ⟨w, word, read⟩ := m.current_eq_ok_iff.mp calls
  rw [m.cycle_of_granted word read rfl]
  exact CallStack.entries_push room _

/-- A return takes the topmost address off the stack and goes there. -/
theorem cycle_return {older : List Word} {address : Word} (returns : m.current = .ok .ret)
    (top : m.stack.entries = older ++ [address]) :
    m.cycle.2 = .ok .quiet ∧ m.cycle.1.counter = address ∧ m.cycle.1.stack.entries = older := by
  obtain ⟨w, word, read⟩ := m.current_eq_ok_iff.mp returns
  have nonempty : m.stack.depth ≠ 0 := by
    rw [← length_entries, top, List.length_append]
    exact Nat.succ_ne_zero _
  have granted : m.refusal .ret = none := by
    rw [refusal, if_neg fun h => nonempty h.2]
    rfl
  have popped := CallStack.entries_pop (congrArg Prod.snd (CallStack.pop_of_nonempty nonempty))
  rw [top] at popped
  obtain ⟨sameOlder, sameAddress⟩ := List.append_inj' popped rfl
  rw [m.cycle_of_granted word read granted]
  exact ⟨rfl, (List.cons.inj sameAddress).1.symm, sameOlder.symm⟩

end Cycles

section Histories
variable {m : Machine}

/-- The lower part of the stack is in place at every cycle up to the first one at which the stack is
lower than that. -/
theorem Unfolds.keeps_lower {lower : List Word} {body later : List Machine}
    {start final : Machine} (trace : Unfolds m (body ++ start :: later) final)
    (here : lower.length ≤ m.stack.depth → lower <+: m.stack.entries)
    (deep : ∀ s ∈ body, lower.length ≤ s.stack.depth)
    (last : lower.length ≤ start.stack.depth) : lower <+: start.stack.entries := by
  -- what a cycle leaves is as deep as what the next one finds, so the depth is known one step late
  induction body generalizing m with
  | nil =>
    cases trace with
    | step same _ =>
      obtain ⟨-, -, -, -, -, stack, -, -⟩ := parts_of_isolated same
      rw [stack] at last ⊢
      exact here last
  | cons head body ih =>
    cases trace with
    | step same rest =>
      obtain ⟨-, -, -, -, -, stack, -, -⟩ := parts_of_isolated same
      have headDeep := deep head List.mem_cons_self
      have before : lower <+: head.stack.entries := by
        rw [stack] at headDeep ⊢
        exact here headDeep
      refine ih rest ?_ fun s mem => deep s (List.mem_cons_of_mem _ mem)
      intro after
      rcases head.entries_cycle with grown | shrunk
      · exact before.trans grown
      · rw [← length_entries] at after
        exact List.prefix_of_prefix_length_le before shrunk after

/-- A call that finds room and the return that matches it, which is the first one at the depth that
the call has left: the return succeeds, the counter goes to the word behind the call, and the
return addresses are the ones that the call has found. What runs between the two is arbitrary, as
long as nobody loads, resets or fetches. -/
theorem return_matches_call {ops : List Operation} {before body after : List Machine}
    {call ret : Machine} {target : Address}
    (follows : ∀ op ∈ ops, op.intervenes = false)
    (cycles : m.starts ops = before ++ call :: (body ++ ret :: after))
    (calls : call.current = .ok (.call target)) (room : call.stack.depth < 16)
    (inside : ∀ s ∈ body, call.stack.depth + 1 ≤ s.stack.depth)
    (returns : ret.current = .ok .ret) (level : ret.stack.depth = call.stack.depth + 1) :
    ret.cycle.2 = .ok .quiet ∧ ret.cycle.1.counter.toNat = call.counter.toNat + 2 ∧
      ret.cycle.1.stack.entries = call.stack.entries := by
  have trace := Unfolds.run m follows
  rw [cycles] at trace
  have pushed := call.entries_cycle_call calls room
  have size : (call.stack.entries ++ [call.counter + 2]).length = call.stack.depth + 1 := by
    rw [List.length_append, length_entries]
    rfl
  have lower : call.stack.entries ++ [call.counter + 2] <+: ret.stack.entries := by
    refine trace.behind.keeps_lower ?_ ?_ ?_
    · intro _
      exact ⟨[], by rw [pushed, List.append_nil]⟩
    · rw [size]
      exact inside
    · rw [size, level]
  have top : ret.stack.entries = call.stack.entries ++ [call.counter + 2] := by
    refine (lower.eq_of_length ?_).symm
    rw [size, length_entries, level]
  obtain ⟨w, word, -⟩ := call.current_eq_ok_iff.mp calls
  have fits := Memory.inside_of_word word
  obtain ⟨done, counter, entries⟩ := ret.cycle_return returns top
  refine ⟨done, ?_, entries⟩
  rw [counter, BitVec.toNat_add]
  exact Nat.mod_eq_of_lt (by simp; omega)

/-- A subroutine at 0x206 that calls another one, at 0x20A, and does nothing else. -/
def nestedCalls : Program :=
  ⟨"", [0x22, 0x06, 0x12, 0x02, 0x00, 0x00, 0x22, 0x0A, 0x00, 0xEE, 0x00, 0xEE]⟩

/-- The outer call, both inner cycles in one call for four milliseconds, and the outer return. -/
def visit : List Operation :=
  [.cycle, .setKey 3 true, .advance 4000000, .tickTimers Clock.timerInterval, .cycle]

/-- The outer call at 0x200 is matched by the return at 0x208 and not by the one before it. -/
theorem outer_return_matches_outer_call :
    let m := ((powerOn {} (.cyclic #[0])).run [.load nestedCalls]).1
    (∀ op ∈ visit, op.intervenes = false) ∧
      ∃ call first second ret,
        m.starts visit = [] ++ call :: ([first, second] ++ ret :: []) ∧
          call.current = .ok (.call 0x206) ∧ call.stack.depth < 16 ∧
          (∀ s ∈ [first, second], call.stack.depth + 1 ≤ s.stack.depth) ∧
          ret.current = .ok .ret ∧ ret.stack.depth = call.stack.depth + 1 ∧
          ret.cycle.2 = .ok .quiet ∧ ret.cycle.1.counter.toNat = call.counter.toNat + 2 ∧
          ret.cycle.1.stack.entries = call.stack.entries := by
  intro m
  have follows : ∀ op ∈ visit, op.intervenes = false := by decide
  have outline : (m.starts visit).map (fun s => (s.current, s.stack.depth)) =
      [(.ok (.call 0x206), 0), (.ok (.call 0x20A), 1), (.ok .ret, 2), (.ok .ret, 1)] := by
    decide +kernel
  simp only [List.map_eq_cons_iff, List.map_eq_nil_iff, Prod.mk.injEq] at outline
  obtain ⟨call, _, cycles, ⟨calls, empty⟩, first, _, rfl, ⟨-, one⟩, second, _, rfl, ⟨-, two⟩,
    ret, _, rfl, ⟨returns, level⟩, rfl⟩ := outline
  have parts : m.starts visit = [] ++ call :: ([first, second] ++ ret :: []) := cycles
  have room : call.stack.depth < 16 := by omega
  have inside : ∀ s ∈ [first, second], call.stack.depth + 1 ≤ s.stack.depth := by
    simp [empty, one, two]
  have same : ret.stack.depth = call.stack.depth + 1 := by omega
  exact ⟨follows, call, first, second, ret, parts, calls, room, inside, returns, same,
    return_matches_call follows parts calls room inside returns same⟩

end Histories

end ChipEight.Machine
