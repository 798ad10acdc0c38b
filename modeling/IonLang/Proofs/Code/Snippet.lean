import IonLang.Proofs.Evaluation
import IonLang.Proofs.Machine.Layout

/-!
# Execution of snippets

`At image state pc stack m` says that the machine `m` runs the loaded unit `image`, stands at `pc`
and agrees with the state of an evaluation. Every snippet leads from such a machine to one that
agrees with the state after the operation.
-/

namespace IonLang

open Machine Evaluation

/-- The address of a variable: quadwords stand in order behind the character cell. -/
def cellAddress (var : VarId) : Nat := 1 + 8 * var.index

/-- A machine in the middle of a snippet: everything agrees but the registers and flags. -/
structure Frame (image : Machine) (store : VarId → UInt64) (output : Array UInt8) (pc : Nat)
    (stack : List Nat) (m : Machine) : Prop where
  code : m.code = image.code
  labels : m.labels = image.labels
  symbols : m.symbols = image.symbols
  size : m.data.size = image.data.size
  cells : ∀ var, cellAddress var + 8 ≤ image.data.size →
    m.readMemory (cellAddress var) 8 = .ok (store var)
  output : m.output = output
  pc : m.pc = pc
  stack : m.stack = stack
  exit : m.exit = none

/-- A machine that agrees with the state of an evaluation. -/
structure At (image : Machine) (state : State) (pc : Nat) (stack : List Nat) (m : Machine) : Prop
    extends Frame image state.store state.output pc stack m where
  acc : m.get .rax = state.acc

def HasCell (image : Machine) (var : VarId) : Prop :=
  image.symbols.get? var.label = some (cellAddress var) ∧ cellAddress var + 8 ≤ image.data.size

variable {image : Machine} {store : VarId → UInt64} {output : Array UInt8} {pc : Nat}
  {stack : List Nat} {m : Machine} {state : State}

/-! ### Conditions -/

theorem sub_beq_zero (a b : UInt64) : (a - b == 0) = (a == b) := by
  rw [Bool.eq_iff_iff, beq_iff_eq, beq_iff_eq]
  constructor
  · intro zero
    have restored := congrArg (· + b) zero
    simpa using restored
  · rintro rfl
    exact UInt64.sub_self _

def Condition.compares : Condition → UInt64 → UInt64 → Bool
  | e, x, y => x == y
  | ne, x, y => x != y
  | b, x, y => x < y
  | a, x, y => x > y
  | be, x, y => x ≤ y
  | ae, x, y => x ≥ y

/-- The flags that a comparison leaves tell the order of its operands. -/
theorem Condition.holds_compared (cond : Condition) (x y : UInt64) :
    cond.holds (x - y == 0) (x < y) = cond.compares x y := by
  have equal : x = y ↔ x.toNat = y.toNat := UInt64.toNat_inj.symm
  rw [sub_beq_zero]
  cases cond with
  | e | ne | b => rfl
  | a | be | ae =>
    rw [Bool.eq_iff_iff]
    simp only [Condition.holds, Condition.compares, UInt64.lt_iff_toNat_lt, UInt64.le_iff_toNat_le,
      Bool.and_eq_true, Bool.or_eq_true, Bool.not_eq_true', beq_eq_false_iff_ne, beq_iff_eq,
      decide_eq_true_eq, decide_eq_false_iff_not, ne_eq, equal, GT.gt, GE.ge]
    omega

namespace Frame

/-! ### What changes a frame -/

theorem set (frame : Frame image store output pc stack m) (reg : Register) (value : UInt64) :
    Frame image store output pc stack (m.set reg value) :=
  ⟨frame.code, frame.labels, frame.symbols, frame.size, frame.cells, frame.output, frame.pc,
    frame.stack, frame.exit⟩

theorem flagged (frame : Frame image store output pc stack m) (result : UInt64) (carry : Bool) :
    Frame image store output pc stack (m.flagged result carry) :=
  ⟨frame.code, frame.labels, frame.symbols, frame.size, frame.cells, frame.output, frame.pc,
    frame.stack, frame.exit⟩

theorem jump (frame : Frame image store output pc stack m) (place : Nat) :
    Frame image store output place stack { m with pc := place } :=
  ⟨frame.code, frame.labels, frame.symbols, frame.size, frame.cells, frame.output, rfl,
    frame.stack, frame.exit⟩

theorem advance (frame : Frame image store output pc stack m) :
    Frame image store output (pc + 1) stack m.advance := by
  rw [← frame.pc]
  exact frame.jump (m.pc + 1)

theorem restack (frame : Frame image store output pc stack m) (entries : List Nat) :
    Frame image store output pc entries { m with stack := entries } :=
  ⟨frame.code, frame.labels, frame.symbols, frame.size, frame.cells, frame.output, frame.pc, rfl,
    frame.exit⟩

theorem print (frame : Frame image store output pc stack m) (bytes : List UInt8) :
    Frame image store (output ++ bytes) pc stack
      { m with output := m.output ++ bytes, pending := m.pending ++ bytes } :=
  ⟨frame.code, frame.labels, frame.symbols, frame.size, frame.cells, by rw [frame.output],
    frame.pc, frame.stack, frame.exit⟩

theorem write (frame : Frame image store output pc stack m) {address size : Nat} {value : UInt64}
    {after : VarId → UInt64}
    (cells : ∀ var, cellAddress var + 8 ≤ image.data.size →
      (m.written address size value).readMemory (cellAddress var) 8 = .ok (after var)) :
    Frame image after output pc stack (m.written address size value) where
  code := frame.code
  labels := frame.labels
  symbols := frame.symbols
  size := (size_written value).trans frame.size
  cells := cells
  output := frame.output
  pc := frame.pc
  stack := frame.stack
  exit := frame.exit

theorem write_cell (frame : Frame image store output pc stack m) {var : VarId}
    (cell : HasCell image var) (value : UInt64) :
    Frame image (fun other => if other = var then value else store other) output pc stack
      (m.written (cellAddress var) 8 value) := by
  have fits : cellAddress var + 8 ≤ m.data.size := by
    rw [frame.size]
    exact cell.2
  apply frame.write
  intro other inside
  by_cases same : other = var
  · subst same
    rw [readMemory_written fits, wordOfBytes_bytesOfWord, if_pos rfl]
  · have indices : other.index ≠ var.index := fun h => same (by cases other; cases var; cases h; rfl)
    have apart : cellAddress other + 8 ≤ cellAddress var ∨ cellAddress var + 8 ≤ cellAddress other := by
      unfold cellAddress
      omega
    rw [readMemory_apart apart, if_neg same]
    exact frame.cells other inside

/-- The character cell lies in front of the variables. -/
theorem write_char (frame : Frame image store output pc stack m) (value : UInt64) :
    Frame image store output pc stack (m.written 0 1 value) := by
  apply frame.write
  intro var inside
  have behind : 0 + 1 ≤ cellAddress var := by
    unfold cellAddress
    omega
  rw [readMemory_apart (.inr behind)]
  exact frame.cells var inside

/-! ### Single instructions -/

theorem step (frame : Frame image store output pc stack m) {i : Instruction} {m' : Machine}
    (fetched : image.code[pc]? = some i) (effect : execute pc i m.advance = .ok () m') :
    Reaches 1 m m' := by
  have here : m.code[m.pc]? = some i := by
    rw [frame.code, frame.pc]
    exact fetched
  have taken : execute m.pc i m.advance = .ok () m' := by
    rw [frame.pc]
    exact effect
  exact .step frame.exit here taken (.refl m')

theorem read_cell (frame : Frame image store output pc stack m) {var : VarId}
    (cell : HasCell image var) : read 8 (Snippet.cell var) m = .ok (store var) m :=
  read_mem (by rw [frame.symbols]; exact cell.1) (frame.cells var cell.2)

theorem write_cell_ok (frame : Frame image store output pc stack m) {var : VarId}
    (cell : HasCell image var) (value : UInt64) :
    Machine.write 8 value (Snippet.cell var) m = .ok () (m.written (cellAddress var) 8 value) :=
  write_mem (by rw [frame.symbols]; exact cell.1) (by rw [frame.size]; exact cell.2) value

/-- Loads a variable. -/
theorem load (frame : Frame image store output pc stack m) {var : VarId}
    (cell : HasCell image var) (placed : image.Placed pc [Snippet.load var]) :
    ∃ m', Reaches 1 m m' ∧ Frame image store output (pc + 1) stack m' ∧
      m'.get .rax = store var := by
  refine ⟨m.advance.set .rax (store var), frame.step placed.1 ?_, frame.advance.set _ _, ?_⟩
  · exact execute_mov (frame.advance.read_cell cell) (write_reg _ _)
  · exact get_set_self _ rfl _

/-- Leaves 1 if a condition holds and 0 if it does not. -/
theorem flag (frame : Frame image store output pc stack m) {cond : Condition}
    (placed : image.Placed pc (Snippet.flag cond)) :
    ∃ m', Reaches 2 m m' ∧ Frame image store output (pc + 2) stack m' ∧
      m'.get .rax = flagWord (cond.holds m.zero m.carry) := by
  obtain ⟨setHere, movzxHere, _⟩ := placed
  let value := flagWord (cond.holds m.zero m.carry)
  let m₁ := m.advance.set .al value
  let m₂ := m₁.advance.set .rax (m₁.advance.get .al)
  have first : Reaches 1 m m₁ := frame.step setHere (execute_set _ _)
  have frame₁ : Frame image store output (pc + 1) stack m₁ := frame.advance.set _ _
  have second : Reaches 1 m₁ m₂ := frame₁.step movzxHere (execute_movzx _ _)
  refine ⟨m₂, first.trans second, frame₁.advance.set _ _, ?_⟩
  have low : m₁.advance.get .al = value &&& 0xFF := get_al_set_al m.advance value
  have small : value &&& 0xFF = value := by
    rcases Bool.eq_false_or_eq_true (cond.holds m.zero m.carry) with holds | fails
    · simp only [value, holds]; rfl
    · simp only [value, fails]; rfl
  rw [show m₂.get .rax = m₁.advance.get .al from get_set_self _ rfl _, low, small]

/-- Compares both operands, and leaves whether a condition holds. -/
theorem compare (frame : Frame image store output pc stack m) {a b : UInt64}
    (left : m.get .rax = a) (right : m.get .rbx = b) {cond : Condition}
    (placed : image.Placed pc (Snippet.compare cond)) :
    ∃ m', Reaches 3 m m' ∧ Frame image store output (pc + 3) stack m' ∧
      m'.get .rax = flagWord (cond.compares a b) := by
  obtain ⟨cmpHere, flagHere⟩ := placed
  let m₁ := m.advance.flagged (a - b) (a < b)
  have first : Reaches 1 m m₁ := by
    refine frame.step cmpHere (execute_cmp ?_ ?_)
    · exact left ▸ read_reg .rax
    · exact right ▸ read_reg .rbx
  have frame₁ : Frame image store output (pc + 1) stack m₁ := frame.advance.flagged _ _
  obtain ⟨m₂, second, frame₂, value⟩ := frame₁.flag flagHere
  refine ⟨m₂, first.trans second, frame₂, ?_⟩
  rw [value, ← Condition.holds_compared]
  rfl

end Frame

namespace At

theorem literal (here : At image state pc stack m) {text : String} {word : UInt64}
    (placed : image.Placed pc [Snippet.mov Snippet.rax (.imm text)])
    (denotes : Text.wordOf? text = some word) :
    ∃ m', Reaches 1 m m' ∧ At image { state with acc := word } (pc + 1) stack m' := by
  refine ⟨m.advance.set .rax word, here.step placed.1 ?_, here.advance.set _ _, ?_⟩
  · exact execute_mov (read_imm denotes) (write_reg _ _)
  · exact get_set_self _ rfl _

theorem unary (here : At image state pc stack m) {op : UnaryOp}
    (placed : image.Placed pc (Snippet.unary op)) :
    ∃ n m', Reaches n m m' ∧
      At image { state with acc := op.apply state.acc } (pc + codeSize (Snippet.unary op)) stack m' := by
  cases op with
  | neg =>
    let m₁ := m.advance.flagged (0 - m.get .rax) (m.get .rax != 0)
    refine ⟨1, m₁.set .rax (0 - m.get .rax), here.step placed.1 (execute_neg _),
      (here.advance.flagged _ _).set _ _, ?_⟩
    rw [← here.acc]
    exact get_set_self _ rfl _
  | not =>
    obtain ⟨cmpHere, flagHere⟩ := placed
    let m₁ := m.advance.flagged (state.acc - 0) (state.acc < 0)
    have first : Reaches 1 m m₁ :=
      here.step cmpHere (execute_cmp (here.acc ▸ read_reg .rax) (read_imm rfl))
    have frame₁ : Frame image state.store state.output (pc + 1) stack m₁ := here.advance.flagged _ _
    obtain ⟨m₂, second, frame₂, value⟩ := frame₁.flag flagHere
    refine ⟨3, m₂, first.trans second, frame₂, ?_⟩
    rw [value]
    exact congrArg flagWord (sub_beq_zero _ _)

/-- Saves the value on the stack. -/
theorem push (here : At image state pc stack m) (placed : image.code[pc]? = some (.push .rax)) :
    ∃ m', Reaches 1 m m' ∧ At image state (pc + 1) (state.acc.toNat :: stack) m' := by
  refine ⟨{ m.advance with stack := (m.advance.get .rax).toNat :: m.advance.stack },
    here.step placed (execute_push _), ?_, here.acc⟩
  have entries : (m.advance.get .rax).toNat :: m.advance.stack = state.acc.toNat :: stack :=
    congrArg₂ (fun a b => UInt64.toNat a :: b) here.acc here.stack
  rw [entries]
  exact here.advance.restack _

/-- Takes the left operand from the stack, with the right one in `rbx`. -/
theorem operands {left : UInt64} (here : At image state pc (left.toNat :: stack) m)
    (placed : image.Placed pc [Snippet.mov Snippet.rbx Snippet.rax, .inst (.pop .rax)]) :
    ∃ m', Reaches 2 m m' ∧ Frame image state.store state.output (pc + 2) stack m' ∧
      m'.get .rax = left ∧ m'.get .rbx = state.acc := by
  obtain ⟨movHere, popHere, _⟩ := placed
  let m₁ := m.advance.set .rbx (m.advance.get .rax)
  let m₂ := Machine.set { m₁.advance with stack := stack } .rax (UInt64.ofNat left.toNat)
  have frame₁ : Frame image state.store state.output (pc + 1) (left.toNat :: stack) m₁ :=
    here.advance.set _ _
  have first : Reaches 1 m m₁ := here.step movHere (execute_mov (read_reg _) (write_reg _ _))
  have second : Reaches 1 m₁ m₂ := frame₁.step popHere (execute_pop frame₁.advance.stack)
  refine ⟨m₂, first.trans second, (frame₁.advance.restack stack).set _ _, ?_, ?_⟩
  · rw [show m₂.get .rax = UInt64.ofNat left.toNat from get_set_self _ rfl _, UInt64.ofNat_toNat]
  · have kept : m₂.get .rbx = m₁.get .rbx := get_set_of_slot_ne _ (by decide) _
    rw [kept, show m₁.get .rbx = m.get .rax from get_set_self _ rfl _, here.acc]

end At

theorem Frame.combine (frame : Frame image store output pc stack m) {a b : UInt64}
    (left : m.get .rax = a) (right : m.get .rbx = b) {op : BinaryOp}
    (placed : image.Placed pc (Snippet.binary op)) :
    ∃ n m', Reaches n m m' ∧
      Frame image store output (pc + codeSize (Snippet.binary op)) stack m' ∧
      m'.get .rax = op.apply a b := by
  have readLeft : read 8 Snippet.rax m.advance = .ok a m.advance := left ▸ read_reg .rax
  have readRight : read 8 Snippet.rbx m.advance = .ok b m.advance := right ▸ read_reg .rbx
  cases op with
  | add =>
    exact ⟨1, _, frame.step placed.1 (execute_add readLeft readRight (write_reg _ _)),
      (frame.advance.flagged _ _).set _ _, get_set_self _ rfl _⟩
  | sub =>
    exact ⟨1, _, frame.step placed.1 (execute_sub readLeft readRight (write_reg _ _)),
      (frame.advance.flagged _ _).set _ _, get_set_self _ rfl _⟩
  | mul =>
    refine ⟨1, _, frame.step placed.1 (execute_imul readRight), frame.advance.set _ _, ?_⟩
    rw [get_set_self _ rfl, ← left]
    rfl
  | eq | ne | lt | gt | le | ge =>
    obtain ⟨m', reaches, frame', value⟩ := frame.compare left right placed
    exact ⟨3, m', reaches, frame', value⟩

namespace At

theorem binary {left : UInt64} (here : At image state pc (left.toNat :: stack) m) {op : BinaryOp}
    (placed : image.Placed pc
      ([Snippet.mov Snippet.rbx Snippet.rax, .inst (.pop .rax)] ++ Snippet.binary op)) :
    ∃ n m', Reaches n m m' ∧
      At image { state with acc := op.apply left state.acc }
        (pc + codeSize ([Snippet.mov Snippet.rbx Snippet.rax, .inst (.pop .rax)] ++ Snippet.binary op))
        stack m' := by
  obtain ⟨front, back⟩ := placed_append.mp placed
  obtain ⟨m₁, first, frame₁, leftValue, rightValue⟩ := here.operands front
  obtain ⟨n, m₂, second, frame₂, value⟩ := frame₁.combine leftValue rightValue back
  rw [codeSize_append, ← Nat.add_assoc]
  exact ⟨2 + n, m₂, first.trans second, frame₂, value⟩

theorem load (here : At image state pc stack m) {var : VarId} (cell : HasCell image var)
    (placed : image.Placed pc [Snippet.load var]) :
    ∃ m', Reaches 1 m m' ∧ At image { state with acc := state.store var } (pc + 1) stack m' := by
  obtain ⟨m', reaches, frame, value⟩ := here.toFrame.load cell placed
  exact ⟨m', reaches, frame, value⟩

end At

/-- A changed cell is loaded with its new value. -/
theorem Frame.reload {m₁ : Machine} {var : VarId} (cell : HasCell image var) {value : UInt64}
    (frame : Frame image store output pc stack m₁)
    (placed : image.Placed pc [Snippet.load var]) :
    ∃ m', Reaches 1 (m₁.written (cellAddress var) 8 value) m' ∧
      Frame image (fun other => if other = var then value else store other) output (pc + 1) stack m' ∧
      m'.get .rax = value := by
  obtain ⟨m', reaches, frame', loaded⟩ := (frame.write_cell cell value).load cell placed
  rw [if_pos rfl] at loaded
  exact ⟨m', reaches, frame', loaded⟩

namespace At

theorem assign (here : At image state pc stack m) {var : VarId} (cell : HasCell image var)
    {op : AssignOp} (placed : image.Placed pc (Snippet.assign var op)) :
    ∃ n m', Reaches n m m' ∧
      At image (state.assign var (op.apply (state.store var) state.acc))
        (pc + codeSize (Snippet.assign var op)) stack m' := by
  have old := here.advance.read_cell cell
  have new : read 8 Snippet.rax m.advance = .ok state.acc m.advance := here.acc ▸ read_reg .rax
  cases op with
  | set =>
    let m₁ := m.advance.written (cellAddress var) 8 state.acc
    have effect : execute pc (.mov (Snippet.cell var) Snippet.rax) m.advance = .ok () m₁ :=
      execute_mov new (here.advance.write_cell_ok cell _)
    have kept : m₁.get .rax = m.get .rax := get_written ..
    exact ⟨1, m₁, here.step placed.1 effect, here.advance.write_cell cell _, kept.trans here.acc⟩
  | add =>
    obtain ⟨addHere, loadHere⟩ := placed
    let value := state.store var + state.acc
    have frame₁ := here.advance.flagged value (value < state.store var)
    have first := here.step addHere (execute_add old new (frame₁.write_cell_ok cell _))
    obtain ⟨m₂, second, frame₂, loaded⟩ := frame₁.reload cell loadHere
    exact ⟨2, m₂, first.trans second, frame₂, loaded⟩
  | sub =>
    obtain ⟨subHere, loadHere⟩ := placed
    let value := state.store var - state.acc
    have frame₁ := here.advance.flagged value (state.store var < state.acc)
    have first := here.step subHere (execute_sub old new (frame₁.write_cell_ok cell _))
    obtain ⟨m₂, second, frame₂, loaded⟩ := frame₁.reload cell loadHere
    exact ⟨2, m₂, first.trans second, frame₂, loaded⟩
  | mul =>
    obtain ⟨mulHere, movHere, _⟩ := placed
    let value := state.store var * state.acc
    let m₁ := m.advance.set .rax (m.advance.get .rax * state.store var)
    have frame₁ : Frame image state.store state.output (pc + 1) stack m₁ := here.advance.set _ _
    have first : Reaches 1 m m₁ := here.step mulHere (execute_imul old)
    have product : m₁.get .rax = value := by
      rw [show m₁.get .rax = m.get .rax * state.store var from get_set_self _ rfl _, here.acc,
        UInt64.mul_comm]
    have stored : read 8 Snippet.rax m₁.advance = .ok value m₁.advance := product ▸ read_reg .rax
    have second := frame₁.step movHere (execute_mov stored (frame₁.advance.write_cell_ok cell _))
    exact ⟨2, _, first.trans second, frame₁.advance.write_cell cell _,
      (get_written ..).trans product⟩

end At

/-- Counts a variable up or down. -/
theorem Frame.count (frame : Frame image store output pc stack m) {var : VarId}
    (cell : HasCell image var) {direction : Direction}
    (placed : image.Placed pc [Snippet.count var direction]) :
    ∃ m₁, Reaches 1 m (m₁.written (cellAddress var) 8 (direction.apply (store var))) ∧
      Frame image store output (pc + 1) stack m₁ ∧ m₁.get .rax = m.get .rax := by
  have old := frame.advance.read_cell cell
  cases direction with
  | up =>
    have frame₁ := frame.advance.flagged (store var + 1) m.advance.carry
    exact ⟨_, frame.step placed.1 (execute_inc old (frame₁.write_cell_ok cell _)), frame₁, rfl⟩
  | down =>
    have frame₁ := frame.advance.flagged (store var - 1) m.advance.carry
    exact ⟨_, frame.step placed.1 (execute_dec old (frame₁.write_cell_ok cell _)), frame₁, rfl⟩

namespace At

theorem count (here : At image state pc stack m) {var : VarId} (cell : HasCell image var)
    {direction : Direction} {timing : Timing}
    (placed : image.Placed pc (Snippet.step direction var timing)) :
    ∃ m', Reaches 2 m m' ∧
      At image (state.count direction var timing) (pc + codeSize (Snippet.step direction var timing))
        stack m' := by
  have single : codeSize [Snippet.count var direction] = 1 := by cases direction <;> rfl
  have both : codeSize (Snippet.step direction var timing) = 2 := by
    cases timing <;> cases direction <;> rfl
  rw [both]
  cases timing with
  | before =>
    have both : image.Placed pc ([Snippet.count var direction] ++ [Snippet.load var]) := placed
    obtain ⟨countHere, loadHere⟩ := placed_append.mp both
    rw [single] at loadHere
    obtain ⟨m₁, first, frame₁, _⟩ := here.toFrame.count cell countHere
    obtain ⟨m₂, second, frame₂, loaded⟩ := frame₁.reload cell loadHere
    exact ⟨m₂, first.trans second, frame₂, loaded⟩
  | after =>
    have both : image.Placed pc ([Snippet.load var] ++ [Snippet.count var direction]) := placed
    obtain ⟨loadHere, countHere⟩ := placed_append.mp both
    obtain ⟨m₁, first, frame₁, loaded⟩ := here.toFrame.load cell loadHere
    obtain ⟨m₂, second, frame₂, kept⟩ := frame₁.count cell countHere
    exact ⟨_, first.trans second, frame₂.write_cell cell _, (get_written ..).trans (kept.trans loaded)⟩

/-- Prints the low byte of the value. -/
theorem putChar (here : At image state pc stack m) (buffer : image.symbols.get? charCell = some 0)
    (room : 1 ≤ image.data.size) (placed : image.Placed pc Snippet.putChar) :
    ∃ m', Reaches 6 m m' ∧
      At image { state with output := state.output.push state.acc.toUInt8, acc := 1 } (pc + 6) stack
        m' := by
  obtain ⟨storeHere, raxHere, rdiHere, rsiHere, rdxHere, callHere, _⟩ := placed
  let m₁ := m.advance.written 0 1 (m.advance.get .al)
  let m₂ := m₁.advance.set .rax 1
  let m₃ := m₂.advance.set .rdi 1
  let m₄ := m₃.advance.set .rsi 0
  let m₅ := m₄.advance.set .rdx 1
  have fits : 0 + 1 ≤ m.advance.data.size := by
    rw [here.advance.size]
    exact room
  have store : execute pc (.mov (.mem charCell) (.reg .al)) m.advance = .ok () m₁ :=
    execute_mov (read_reg _) (write_mem (by rw [here.advance.symbols]; exact buffer) fits _)
  have frame₁ : Frame image state.store state.output (pc + 1) stack m₁ := here.advance.write_char _
  have frame₂ : Frame image state.store state.output (pc + 2) stack m₂ := frame₁.advance.set _ _
  have frame₃ : Frame image state.store state.output (pc + 3) stack m₃ := frame₂.advance.set _ _
  have frame₄ : Frame image state.store state.output (pc + 4) stack m₄ := frame₃.advance.set _ _
  have frame₅ : Frame image state.store state.output (pc + 5) stack m₅ := frame₄.advance.set _ _
  have address : read 8 (.addr charCell) m₃.advance = .ok 0 m₃.advance :=
    read_addr (by rw [frame₃.advance.symbols]; exact buffer)
  have ready : Reaches 5 m m₅ :=
    ((((here.step storeHere store).trans
      (frame₁.step raxHere (execute_mov (read_imm rfl) (write_reg _ _)))).trans
      (frame₂.step rdiHere (execute_mov (read_imm rfl) (write_reg _ _)))).trans
      (frame₃.step rsiHere (execute_mov address (write_reg _ _)))).trans
      (frame₄.step rdxHere (execute_mov (read_imm rfl) (write_reg _ _)))
  have rax : m₅.get .rax = 1 := calc
    m₅.get .rax = m₄.get .rax := get_set_of_slot_ne _ (by decide) _
    _ = m₃.get .rax := get_set_of_slot_ne _ (by decide) _
    _ = m₂.get .rax := get_set_of_slot_ne _ (by decide) _
    _ = 1 := get_set_self _ rfl _
  have rsi : m₅.get .rsi = 0 := (get_set_of_slot_ne _ (by decide) _).trans (get_set_self _ rfl _)
  have rdx : m₅.get .rdx = 1 := get_set_self _ rfl _
  have stored : m₅.advance.readMemory 0 1 = .ok (wordOfBytes (bytesOfWord (m.advance.get .al) 1)) :=
    (readMemory_congr rfl 0 1).trans (readMemory_written fits _)
  have low : (m.advance.get .al).toUInt8 = state.acc.toUInt8 := by
    rw [get_al, toUInt8_and_mask, show m.advance.get .rax = state.acc from here.acc]
  have bytes : m₅.advance.readBuffer (m₅.advance.get .rsi) (m₅.advance.get .rdx).toNat =
      .ok [state.acc.toUInt8] := by
    rw [show m₅.advance.get .rsi = 0 from rsi, show m₅.advance.get .rdx = 1 from rdx]
    change readBuffer m₅.advance 0 (0 + 1) = _
    simp only [readBuffer, UInt64.toNat_zero, stored, bind, Except.bind, toUInt8_wordOfBytes, low]
  have printed := frame₅.step callHere (execute_write rax bytes)
  refine ⟨_, ready.trans printed, ?_, ?_⟩
  · have appended : state.output ++ [state.acc.toUInt8] = state.output.push state.acc.toUInt8 := by simp
    have frame₆ := (frame₅.advance.print [state.acc.toUInt8]).set .rax (m₅.advance.get .rdx)
    rw [appended] at frame₆
    exact frame₆
  · rw [get_set_self _ rfl]
    exact rdx

/-- Jumps if a comparison of the value with zero holds. -/
theorem branch (here : At image state pc stack m) {cond : Condition} {label : String} {place : Nat}
    (placed : image.Placed pc [Snippet.testZero, .inst (.jcc cond label)])
    (known : image.labels.get? label = some place) :
    ∃ m', Reaches 2 m m' ∧
      At image state (if cond.compares state.acc 0 then place else pc + 2) stack m' := by
  obtain ⟨cmpHere, jumpHere, _⟩ := placed
  let m₁ := m.advance.flagged (state.acc - 0) (state.acc < 0)
  have frame₁ : Frame image state.store state.output (pc + 1) stack m₁ := here.advance.flagged _ _
  have first : Reaches 1 m m₁ :=
    here.step cmpHere (execute_cmp (here.acc ▸ read_reg .rax) (read_imm rfl))
  have target : m₁.advance.labels.get? label = some place := by
    rw [frame₁.advance.labels]
    exact known
  have second := frame₁.step jumpHere (execute_jcc target)
  refine ⟨_, first.trans second, ?_⟩
  have taken : cond.holds m₁.advance.zero m₁.advance.carry = cond.compares state.acc 0 :=
    cond.holds_compared state.acc 0
  rw [taken]
  split
  · exact ⟨frame₁.advance.jump place, here.acc⟩
  · exact ⟨frame₁.advance, here.acc⟩

theorem jumpIfZero (here : At image state pc stack m) {label : String} {place : Nat}
    (placed : image.Placed pc [Snippet.testZero, .inst (.jcc .e label)])
    (known : image.labels.get? label = some place) :
    ∃ m', Reaches 2 m m' ∧ At image state (if state.acc = 0 then place else pc + 2) stack m' := by
  simpa [Condition.compares] using here.branch placed known

theorem jumpUnlessZero (here : At image state pc stack m) {label : String} {place : Nat}
    (placed : image.Placed pc [Snippet.testZero, .inst (.jcc .ne label)])
    (known : image.labels.get? label = some place) :
    ∃ m', Reaches 2 m m' ∧ At image state (if state.acc = 0 then pc + 2 else place) stack m' := by
  simpa [Condition.compares] using here.branch placed known

theorem jump (here : At image state pc stack m) {label : String} {place : Nat}
    (placed : image.code[pc]? = some (.jmp label)) (known : image.labels.get? label = some place) :
    ∃ m', Reaches 1 m m' ∧ At image state place stack m' := by
  have target : m.advance.labels.get? label = some place := by
    rw [here.advance.labels]
    exact known
  exact ⟨_, here.step placed (execute_jmp target), here.advance.jump place, here.acc⟩

theorem call (here : At image state pc stack m) {label : String} {place : Nat}
    (placed : image.code[pc]? = some (.call label)) (known : image.labels.get? label = some place) :
    ∃ m', Reaches 1 m m' ∧ At image state place ((pc + 1) :: stack) m' := by
  have target : m.advance.labels.get? label = some place := by
    rw [here.advance.labels]
    exact known
  refine ⟨_, here.step placed (execute_call target), ?_, here.acc⟩
  rw [here.advance.pc, here.advance.stack]
  exact (here.advance.restack _).jump place

theorem ret {back : Nat} (here : At image state pc (back :: stack) m)
    (placed : image.code[pc]? = some .ret) :
    ∃ m', Reaches 1 m m' ∧ At image state back stack m' :=
  ⟨_, here.step placed (execute_ret here.advance.stack), (here.advance.restack _).jump back, here.acc⟩

/-- Compares the value of a switch with that of a case. -/
theorem caseTest {value : UInt64} (here : At image state pc (value.toNat :: stack) m) {label : String}
    {place : Nat}
    (placed : image.Placed pc
      [.inst (.pop .rbx), .inst (.cmp Snippet.rax Snippet.rbx), .inst (.jcc .ne label)])
    (known : image.labels.get? label = some place) :
    ∃ m', Reaches 3 m m' ∧
      At image state (if value = state.acc then pc + 3 else place) stack m' := by
  obtain ⟨popHere, cmpHere, jumpHere, _⟩ := placed
  let m₁ := Machine.set { m.advance with stack := stack } .rbx (UInt64.ofNat value.toNat)
  let m₂ := m₁.advance.flagged (state.acc - value) (state.acc < value)
  have frame₁ : Frame image state.store state.output (pc + 1) stack m₁ :=
    (here.advance.restack stack).set _ _
  have frame₂ : Frame image state.store state.output (pc + 2) stack m₂ := frame₁.advance.flagged _ _
  have acc : m₁.get .rax = state.acc := (get_set_of_slot_ne _ (by decide) _).trans here.acc
  have saved : m₁.get .rbx = value := (get_set_self _ rfl _).trans UInt64.ofNat_toNat
  have first : Reaches 1 m m₁ := here.step popHere (execute_pop here.advance.stack)
  have second : Reaches 1 m₁ m₂ :=
    frame₁.step cmpHere (execute_cmp (acc ▸ read_reg .rax) (saved ▸ read_reg .rbx))
  have target : m₂.advance.labels.get? label = some place := by
    rw [frame₂.advance.labels]
    exact known
  have third := frame₂.step jumpHere (execute_jcc target)
  refine ⟨_, (first.trans second).trans third, ?_⟩
  have taken : Condition.ne.holds m₂.advance.zero m₂.advance.carry = (state.acc != value) :=
    Condition.ne.holds_compared state.acc value
  rw [taken]
  by_cases same : value = state.acc
  · rw [if_pos same, if_neg (by simp [same])]
    exact ⟨frame₂.advance, acc⟩
  · rw [if_neg same, if_pos (by simpa using Ne.symm same)]
    exact ⟨frame₂.advance.jump place, acc⟩

end At

end IonLang
