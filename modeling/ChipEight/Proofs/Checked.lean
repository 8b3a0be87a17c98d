import ChipEight.Machine.Operation
import ChipEight.Proofs.Cycle

/-
  The machine once more, with every access and every address computation checked. Memory,
  registers and pixels are reached by plain numbers, and a number outside of them has no answer;
  a sum or difference of addresses has an answer only where it needs no wrapping at 16 bits. As
  long as the index register lies in the address space there is always an answer, and it is the
  one of the machine.
-/
namespace ChipEight.Checked

/-- The number as a 16-bit word, if it is one. -/
def word? (n : Nat) : Option Word := if n < 65536 then some (BitVec.ofNat 16 n) else none

def register? (w : Word) (digit : Nat) : Option Reg :=
  let number := (nibbleAt .unsigned w digit).toNat
  if h : number < 16 then some ⟨number, h⟩ else none

def readFrom {n : Nat} (v : Vector Byte n) (start : Nat) : Nat → Option (List Byte)
  | 0 => some []
  | length + 1 => do
    let b ← v[start]?
    let bs ← readFrom v (start + 1) length
    some (b :: bs)

def writeFrom {n : Nat} (v : Vector Byte n) (start : Nat) : List Byte → Option (Vector Byte n)
  | [] => some v
  | b :: bs => if h : start < n then writeFrom (v.set start b) (start + 1) bs else none

section Drawing

def flip (d : Display) (x y : Nat) : Option (Display × Bool) := do
  let lit ← d.isLit? x y
  let after ← d.set? x y (if lit then Display.background else d.foreground)
  some (after, lit)

def drawBits (d : Display) (y x : Nat) : List Bool → Option (Display × Bool)
  | [] => some (d, false)
  | bit :: bits =>
    if Display.width ≤ x then some (d, false)
    else do
      let here ← if bit then flip d x y else some (d, false)
      let after ← drawBits here.1 y (x + 1) bits
      some (after.1, here.2 || after.2)

def drawRows (d : Display) (x y : Nat) : List Byte → Option (Display × Bool)
  | [] => some (d, false)
  | row :: rows =>
    if Display.height ≤ y then some (d, false)
    else do
      let here ← drawBits d y x (bitsOf row)
      let below ← drawRows here.1 x (y + 1) rows
      some (below.1, here.2 || below.2)

def draw (d : Display) (x y : Nat) (sprite : List Byte) : Option (Display × Bool) :=
  drawRows d (x % Display.width) (y % Display.height) sprite

end Drawing

section Execution
variable (m : Machine)

def loadAtIndex (length : Nat) : Option (Except Fault (List Byte)) :=
  if m.index.toNat + length ≤ Memory.size then
    (readFrom m.memory.bytes m.index.toNat length).map .ok
  else some (.error (.memory (.outsideMemory m.index.toNat length)))

def storeAtIndex (bs : List Byte) : Option (Machine × Except Fault Unit) :=
  if m.index.toNat + bs.length ≤ Memory.size then
    (writeFrom m.memory.bytes m.index.toNat bs).map fun bytes =>
      ({ m with memory := ⟨bytes⟩ }, .ok ())
  else some (m, .error (.memory (.outsideMemory m.index.toNat bs.length)))

/-- The instructions that are not listed touch single registers only. -/
def execute : Instruction → Option Machine.Outcome
  | .jumpOffset base => do
    let x := if m.config.dialect.jumpAddsX then Word.x (base.setWidth 16) else ⟨0, Nat.zero_lt_succ 15⟩
    let target ← word? (base.toNat + (m.reg x).toNat)
    some (m.jumpTo (target &&& Registers.addressMask) .quiet)
  | .draw x y rows => do
    match ← loadAtIndex m (Display.visibleRows (m.reg y).toNat rows) with
    | .error f => some (m, .error f)
    | .ok sprite =>
      let drawn ← draw m.display (m.reg x).toNat (m.reg y).toNat sprite
      some ({ m with display := drawn.1, registers := m.registers.setFlag drawn.2 },
        .ok (.next, .redraw))
  | .addToIndex x => do
    let sum ← word? (m.index.toNat + (m.reg x).toNat)
    let registers := if bitAt .unsigned sum 12 then m.registers.setFlag true else m.registers
    some { m with registers := registers.setIndex sum }.proceed
  | .glyphAddress x => do
    let address ← word? (Font.address + (m.reg x).toNat * Font.glyphSize)
    some { m with registers := m.registers.setIndex address }.proceed
  | .storeDecimal x => do
    match ← storeAtIndex m (Machine.decimalDigits (m.reg x)) with
    | (m, .ok _) => some m.proceed
    | (m, .error f) => some (m, .error f)
  | .storeRegisters x => do
    let bs ← readFrom m.registers.data 0 (x + 1)
    match ← storeAtIndex m bs with
    | (m, .error f) => some (m, .error f)
    | (m, .ok _) =>
      if m.config.dialect.storeMovesIndex then do
        let index ← word? (m.index.toNat + (x + 1))
        some { m with registers := m.registers.setIndex index }.proceed
      else some m.proceed
  | .loadRegisters x => do
    match ← loadAtIndex m (x + 1) with
    | .error f => some (m, .error f)
    | .ok bs =>
      let data ← writeFrom m.registers.data 0 bs
      some { m with registers := { m.registers with data := data } }.proceed
  | i => some (m.execute i)

def fetch : Option (Machine × Except Fault Word) :=
  let counter := m.counter.toNat
  if counter + 1 < Memory.size then do
    let high ← m.memory.bytes[counter]?
    let low ← m.memory.bytes[counter + 1]?
    let next ← word? (counter + 2)
    some ({ m with lastWord := joinBytes high low }.setCounter next, .ok (joinBytes high low))
  else some (m, .error (.memory (.outsideMemory counter Memory.wordSize)))

def applyStep : CounterStep → Word → Option Word
  | .next, counter => some counter
  | .skip, counter => word? (counter.toNat + 2)
  | .again, counter => if 2 ≤ counter.toNat then word? (counter.toNat - 2) else none
  | .jump target, _ => some target

def cycle : Option (Machine × Except Fault Signal) := do
  match ← fetch m with
  | (fetched, .error f) => some (fetched, .error f)
  | (fetched, .ok word) =>
    let _ ← register? word 2
    let _ ← register? word 1
    match Instruction.decode word with
    | .error cause => some (fetched.unfetch m, .error (.decode cause))
    | .ok instruction =>
      match ← execute fetched instruction with
      | (failed, .error f) => some (failed.unfetch m, .error f)
      | (done, .ok (step, signal)) =>
        let counter ← applyStep step done.counter
        some (done.setCounter counter, .ok signal)

end Execution

section Histories

def runCycles (interval : Nanoseconds) :
    Nat → Machine → Report → Option (Machine × Except Fault Report)
  | 0, m, report => some (m, .ok report)
  | cap + 1, m, report =>
    if m.sinceCycle < interval then some (m, .ok report)
    else do
      match ← cycle (m.spend interval) with
      | (m, .error f) => some (m, .error f)
      | (m, .ok signal) =>
        let report := { report with cycles := report.cycles + 1 }
        match signal with
        | .waiting => some (m, .ok { report with waiting := true })
        | .redraw => runCycles interval cap m { report with redraw := true }
        | .quiet | .returnDropped => runCycles interval cap m report

def advance (m : Machine) (elapsed : Nanoseconds) : Option (Machine × Except Stop Report) :=
  match m.tickTimers elapsed with
  | none => some (m, .error .timeOverflow)
  | some (m, ticked) =>
    match Clock.add m.sinceCycle elapsed with
    | none => some (m, .error .timeOverflow)
    | some time => do
      let interval := m.config.cycleInterval
      match ← runCycles interval m.config.maxCycles { m with sinceCycle := time }
          { ticked := ticked } with
      | (m, .ok report) => some (m.capDebt interval, .ok report)
      | (m, .error f) => some (m, .error (.fault f))

/-- Only fetches and cycles compute addresses. -/
def perform (m : Machine) : Operation → Option (Machine × Answer)
  | .fetch => (fetch m).map (Prod.map id (.ofExcept .word))
  | .cycle => (cycle m).map (Prod.map id (.ofExcept .signal))
  | .advance elapsed => do
    match ← advance m elapsed with
    | (m, .ok report) => some (m, .report report)
    | (m, .error why) => some (m, .stopped why)
  | op => some (m.perform op)

def run (m : Machine) : List Operation → Option (Machine × List Answer)
  | [] => some (m, [])
  | op :: ops => do
    let (m, answer) ← perform m op
    let (m, answers) ← run m ops
    some (m, answer :: answers)

end Histories

section Agreement

theorem word?_toNat {w : Word} {n : Nat} (h : w.toNat = n) : word? n = some w := by
  subst h
  rw [word?, if_pos w.isLt, BitVec.ofNat_toNat, BitVec.setWidth_eq]

theorem readFrom_eq {n : Nat} (v : Vector Byte n) {start length : Nat}
    (inside : start + length ≤ n) :
    readFrom v start length = some ((v.toList.drop start).take length) := by
  induction length generalizing start with
  | zero => simp [readFrom]
  | succ length ih =>
    have here : start < n := by omega
    have rest : (v.toList.drop start) = v[start] :: v.toList.drop (start + 1) := by
      rw [List.drop_eq_getElem_cons (by simpa using here), Vector.getElem_toList]
    rw [readFrom, ih (by omega), rest, List.take_succ_cons]
    simp [here]

theorem set_eq_setIfInBounds {n i : Nat} (v : Vector Byte n) (inside : i < n) (b : Byte) :
    v.set i b inside = v.setIfInBounds i b := by
  apply Vector.ext
  intro j there
  simp [Vector.getElem_set, Vector.getElem_setIfInBounds]

theorem writeFrom_eq {n : Nat} (v : Vector Byte n) {start : Nat} {bs : List Byte}
    (inside : start + bs.length ≤ n) : writeFrom v start bs = some (putFrom v start bs) := by
  induction bs generalizing v start with
  | nil => rfl
  | cons b bs ih =>
    simp only [List.length_cons] at inside
    have here : start < n := by omega
    rw [writeFrom, dif_pos here, putFrom, set_eq_setIfInBounds, ih _ (by omega)]

theorem flip_eq (d : Display) (x : Fin 64) (y : Fin 32) : flip d x y = some (d.flip x y) := by
  have inside : (x : Nat) < Display.width ∧ (y : Nat) < Display.height := ⟨x.isLt, y.isLt⟩
  unfold flip Display.flip Display.isLit? Display.get? Display.set?
  simp only [dif_pos inside]
  by_cases dark : d.pixel x y = Display.background
  · simp [dark]
  · simp [dark]

theorem drawBits_eq (d : Display) (y : Fin 32) (x : Nat) (bits : List Bool) :
    drawBits d y x bits = some (d.drawBits y x bits) := by
  induction bits generalizing d x with
  | nil => rfl
  | cons bit bits ih =>
    rw [drawBits, Display.drawBits]
    by_cases inside : x < 64
    · rw [if_neg (by simp only [Display.width]; omega), dif_pos inside]
      cases bit with
      | false => simp [ih]
      | true =>
        have lit := flip_eq d ⟨x, inside⟩ y
        simp only at lit
        simp [lit, ih]
    · rw [if_pos (by simp only [Display.width]; omega), dif_neg inside]

theorem drawRows_eq (d : Display) (x y : Nat) (rows : List Byte) :
    drawRows d x y rows = some (d.drawRows x y rows) := by
  induction rows generalizing d y with
  | nil => rfl
  | cons row rows ih =>
    rw [drawRows, Display.drawRows]
    by_cases inside : y < 32
    · rw [if_neg (by simp only [Display.height]; omega), dif_pos inside]
      have line := drawBits_eq d ⟨y, inside⟩ x (bitsOf row)
      simp only at line
      simp [line, ih]
    · rw [if_pos (by simp only [Display.height]; omega), dif_neg inside]

variable {m : Machine}

theorem loadAtIndex_eq (length : Nat) : loadAtIndex m length =
    some (if m.index.toNat + length ≤ 4096 then .ok (m.memory.window m.index.toNat length)
      else .error (.memory (.outsideMemory m.index.toNat length))) := by
  unfold loadAtIndex
  by_cases inside : m.index.toNat + length ≤ 4096
  · rw [if_pos (by simpa [Memory.size] using inside), if_pos inside, readFrom_eq _ inside]
    rfl
  · rw [if_neg (by simpa [Memory.size] using inside), if_neg inside]

theorem storeAtIndex_eq (bs : List Byte) : storeAtIndex m bs = some (m.storeAtIndex bs) := by
  rw [Machine.storeAtIndex_eq]
  unfold storeAtIndex
  by_cases inside : m.index.toNat + bs.length ≤ 4096
  · rw [if_pos (by simpa [Memory.size] using inside), if_pos inside, writeFrom_eq _ inside]
    rfl
  · rw [if_neg (by simpa [Memory.size] using inside), if_neg inside]

/-- A byte added to an address of the address space stays far below the limit of 16 bits. -/
theorem word?_index_add (inside : m.index.toNat ≤ 0xFFF) (b : Byte) :
    word? (m.index.toNat + b.toNat) = some (m.index + b.setWidth 16) := by
  have := b.isLt
  apply word?_toNat
  simp
  omega

theorem word?_base_add (base : Address) (b : Byte) :
    word? (base.toNat + b.toNat) = some (base.setWidth 16 + b.setWidth 16) := by
  have := base.isLt
  have := b.isLt
  apply word?_toNat
  simp
  omega

theorem execute_eq (inside : m.index.toNat ≤ 0xFFF) (i : Instruction) :
    execute m i = some (m.execute i) := by
  cases i with
  | jumpOffset base =>
    simp only [execute, Machine.execute, Machine.offsetTarget]
    rw [word?_base_add]
    rfl
  | draw x y rows =>
    simp only [execute, Machine.execute, Machine.draw, loadAtIndex_eq, Memory.slice_eq]
    by_cases fits : m.index.toNat + Display.visibleRows (m.reg y).toNat rows ≤ 4096
    · simp [fits, draw, drawRows_eq, Display.draw]
    · simp [fits]
  | addToIndex x =>
    simp [execute, Machine.execute, Machine.addToIndex, word?_index_add inside]
  | glyphAddress x =>
    have := (m.reg x).isLt
    have address : word? (Font.address + (m.reg x).toNat * Font.glyphSize) =
        some (m.glyphAddress x) := by
      apply word?_toNat
      simp [Machine.glyphAddress, Font.address, Font.glyphSize]
      omega
    simp only [execute, address]
    rfl
  | storeDecimal x =>
    simp only [execute, Machine.execute, Machine.storeDecimal, storeAtIndex_eq]
    cases m.storeAtIndex (Machine.decimalDigits (m.reg x)) with
    | mk after answer => cases answer <;> rfl
  | storeRegisters x =>
    have registers : readFrom m.registers.data 0 (x + 1) = some (m.registers.upTo x) := by
      rw [readFrom_eq _ (by omega)]
      rfl
    have stored := m.storeAtIndex_eq (m.registers.upTo x)
    rw [Registers.upTo_length] at stored
    simp only [execute, Machine.execute, Machine.storeRegisters, registers, storeAtIndex_eq]
    by_cases fits : m.index.toNat + (x + 1) ≤ 4096
    · -- the index register is read again after the store, which has not changed it
      obtain ⟨after, done, same⟩ : ∃ after : Machine,
          m.storeAtIndex (m.registers.upTo x) = (after, .ok ()) ∧ after.index = m.index := by
        rw [stored, if_pos fits]
        exact ⟨_, rfl, rfl⟩
      have moved : word? (after.index.toNat + (x + 1)) =
          some (after.index + BitVec.ofNat 16 (x + 1)) := by
        apply word?_toNat
        simp [same]
        omega
      simp only [done, moved, Option.bind_eq_bind, Option.bind_some]
      split <;> rfl
    · rw [if_neg fits] at stored
      simp only [stored, Option.bind_eq_bind, Option.bind_some]
  | loadRegisters x =>
    simp only [execute, Machine.execute, Machine.loadRegisters, loadAtIndex_eq, Memory.slice_eq]
    by_cases fits : m.index.toNat + (x + 1) ≤ 4096
    · have short : (m.memory.window m.index.toNat (x + 1)).length ≤ x + 1 := by
        rw [Memory.window, List.length_take]
        exact Nat.min_le_left _ _
      have written : writeFrom m.registers.data 0 (m.memory.window m.index.toNat (x + 1)) =
          some (putFrom m.registers.data 0 (m.memory.window m.index.toNat (x + 1))) :=
        writeFrom_eq _ (by omega)
      simp [fits, written, Registers.setFromZero]
    · simp [fits]
  | _ => rfl

theorem register?_eq (w : Word) (digit : Nat) : register? w digit = some (w.nibble digit) := by
  rw [register?, dif_pos (by rw [nibbleAt_unsigned_toNat]; exact Nat.mod_lt _ (by decide))]
  rfl

/-- A fetch leaves the counter where two more steps fit in front of it and one behind it. -/
theorem counter_fetched_bounds {w : Word} (fits : m.counter.toNat + 1 < 4096) :
    2 ≤ (m.fetched w).counter.toNat ∧ (m.fetched w).counter.toNat ≤ 0x1000 := by
  have moved : (m.fetched w).counter = m.counter + 2 := rfl
  rw [moved, BitVec.toNat_add]
  simp
  omega

theorem fetch_eq : fetch m = some m.fetch := by
  rw [Machine.fetch_eq, Memory.word_eq]
  unfold fetch
  by_cases fits : m.counter.toNat + 1 < 4096
  · have next : word? (m.counter.toNat + 2) = some (m.counter + 2) := by
      apply word?_toNat
      simp
      omega
    have here : m.counter.toNat < 4096 := by omega
    simp [Memory.size, fits, next, here, Machine.fetched]
  · simp [Memory.size, fits]

theorem applyStep_eq (step : CounterStep) {counter : Word} (low : 2 ≤ counter.toNat)
    (high : counter.toNat ≤ 0x1000) : applyStep step counter = some (step.apply counter) := by
  cases step with
  | next => rfl
  | jump target => rfl
  | skip =>
    apply word?_toNat
    simp [CounterStep.apply]
    omega
  | again =>
    rw [applyStep, if_pos low]
    apply word?_toNat
    simp [CounterStep.apply, BitVec.toNat_sub]
    omega

/-- Nothing goes out of range in a cycle, and no address wraps. -/
theorem cycle_eq (inside : m.index.toNat ≤ 0xFFF) : cycle m = some m.cycle := by
  unfold cycle Machine.cycle
  rw [fetch_eq, Machine.fetch_eq, Memory.word_eq]
  by_cases fits : m.counter.toNat + 1 < 4096
  · simp only [dif_pos fits, Option.bind_eq_bind, Option.bind_some, register?_eq,
      Machine.executeWord]
    generalize joinBytes m.memory.bytes[m.counter.toNat] m.memory.bytes[m.counter.toNat + 1] = w
    obtain ⟨low, high⟩ := counter_fetched_bounds (w := w) fits
    cases Instruction.decode w with
    | error cause => rfl
    | ok i =>
      -- the step starts from the counter of the fetch, so the bounds above are the ones it needs
      have sameCounter := Machine.counter_execute (m.fetched w) i
      have checked := execute_eq (m := m.fetched w) inside i
      simp only [checked, Option.bind_some]
      cases answer : (m.fetched w).execute i with
      | mk done result =>
        rw [answer] at sameCounter
        cases result with
        | error f => rfl
        | ok result =>
          obtain ⟨step, signal⟩ := result
          simp only at sameCounter
          have moved : applyStep step done.counter = some (step.apply done.counter) :=
            applyStep_eq step (by rw [sameCounter]; exact low) (by rw [sameCounter]; exact high)
          simp only [moved, Option.bind_some]
  · simp only [dif_neg fits, Option.bind_eq_bind, Option.bind_some]

end Agreement

end ChipEight.Checked
