import IonLang.Proofs.Machine.Execution
import IonLang.Proofs.Sequence

/-!
# Failing instructions

An instruction that fails leaves the machine as it was, but for the program counter, which has moved
on, and for the flags, which four instructions set before they store their result. Such a store
fails only if the destination is a constant, for a cell that could be read can be written
(`constant_of_write_error`).
-/

namespace IonLang

/-- Nothing can be stored into the operand. -/
def Operand.isConstant : Operand → Bool
  | imm _ | addr _ => true
  | reg _ | mem _ => false

/-- The instruction sets the flags and then stores its result into a constant. -/
def Instruction.storesIntoConstant : Instruction → Bool
  | add dst _ | sub dst _ | inc dst | dec dst => dst.isConstant
  | _ => false

namespace Machine

def Fault.isOutOfCode : Fault → Bool
  | outOfCode _ => true
  | _ => false

variable {α β : Type} {m m' : Machine} {fault : Fault} {label : String}

/-! ### Faults of look-ups -/

theorem inCode_target (failed : m.target label = .error fault) : fault.isOutOfCode = false := by
  unfold Machine.target at failed
  split at failed
  · cases failed
  · cases failed
    rfl

theorem inCode_address {f : Nat → Except Fault α}
    (later : ∀ address fault, f address = .error fault → fault.isOutOfCode = false)
    (failed : (m.address label >>= f) = .error fault) : fault.isOutOfCode = false := by
  unfold Machine.address at failed
  cases known : m.symbols.get? label with
  | some address =>
    rw [known] at failed
    exact later address fault failed
  | none =>
    rw [known] at failed
    cases failed
    rfl

theorem inCode_readMemory {address size : Nat} (failed : m.readMemory address size = .error fault) :
    fault.isOutOfCode = false := by
  unfold readMemory at failed
  split at failed
  · cases failed
  · cases failed
    rfl

theorem inCode_writeMemory {address size : Nat} {value : UInt64}
    (failed : m.writeMemory address size value = .error fault) : fault.isOutOfCode = false := by
  unfold writeMemory at failed
  split at failed
  · cases failed
  · cases failed
    rfl

theorem inCode_readBuffer {address : UInt64} {length : Nat}
    (failed : m.readBuffer address length = .error fault) : fault.isOutOfCode = false := by
  induction length generalizing address with
  | zero => cases failed
  | succ length ih =>
    simp only [readBuffer, Bind.bind, Except.bind] at failed
    split at failed
    · next unread =>
      cases failed
      exact inCode_readMemory unread
    · split at failed
      · next unread =>
        cases failed
        exact ih unread
      · cases failed

/-! ### Effects that fail -/

/-- The effect leaves the state alone, whether it fails or not. -/
def Looks (effect : Effect α) : Prop :=
  ∀ m, (∃ a, effect m = .ok a m) ∨ ∃ fault, effect m = .error fault m ∧ fault.isOutOfCode = false

def Atomic (effect : Effect α) : Prop :=
  ∀ m fault m', effect m = .error fault m' → m' = m ∧ fault.isOutOfCode = false

def Succeeds (effect : Effect α) : Prop := ∀ m, ∃ a m', effect m = .ok a m'

namespace Looks

theorem of_ok {effect : Effect α} {a : α} (looks : Looks effect) (done : effect m = .ok a m') :
    m' = m := by
  rcases looks m with ⟨a, same⟩ | ⟨fault, same, _⟩
  · cases same.symm.trans done
    rfl
  · cases same.symm.trans done

theorem atomic {effect : Effect α} (looks : Looks effect) : Atomic effect := by
  intro m fault m' failed
  rcases looks m with ⟨a, same⟩ | ⟨fault, same, inCode⟩
  · cases same.symm.trans failed
  · cases same.symm.trans failed
    exact ⟨rfl, inCode⟩

-- A sequence that begins with a look fails there, or behind it and in the same state.
theorem bind_error {first : Effect α} {next : α → Effect β} (looks : Looks first)
    (failed : (first >>= next) m = .error fault m') :
    (m' = m ∧ fault.isOutOfCode = false) ∨
      ∃ a, first m = .ok a m ∧ next a m = .error fault m' := by
  rcases IonLang.bind_error failed with stopped | ⟨a, m₁, done, later⟩
  · exact .inl (looks.atomic m fault m' stopped)
  · obtain rfl := looks.of_ok done
    exact .inr ⟨a, done, later⟩

theorem observe (f : Machine → α) : Looks (Machine.observe f) := fun m => .inl ⟨f m, rfl⟩

theorem query {f : Machine → Except Fault α}
    (inCode : ∀ m fault, f m = .error fault → fault.isOutOfCode = false) :
    Looks (Machine.query f) := by
  intro m
  unfold Machine.query
  cases found : f m with
  | ok value => exact .inl ⟨value, rfl⟩
  | error fault => exact .inr ⟨fault, rfl, inCode m fault found⟩

theorem target (label : String) : Looks (Machine.query fun m => m.target label) :=
  query fun _ _ => inCode_target

theorem read (size : Nat) (op : Operand) : Looks (Machine.read size op) := by
  cases op with
  | reg reg => exact observe _
  | mem label => exact query fun _ _ => inCode_address fun _ _ => inCode_readMemory
  | addr label => exact query fun _ _ => inCode_address fun _ _ failed => by cases failed
  | imm text =>
    intro m
    cases denotes : Text.wordOf? text with
    | some word => exact .inl ⟨word, read_imm denotes⟩
    | none => exact .inr ⟨_, read_imm_error denotes, rfl⟩

end Looks

theorem Succeeds.update (f : Machine → Machine) : Succeeds (Machine.update f) :=
  fun m => ⟨(), f m, rfl⟩

namespace Atomic

theorem succeeds {effect : Effect α} (sure : Succeeds effect) : Atomic effect := by
  intro m fault m' failed
  obtain ⟨a, m₁, done⟩ := sure m
  cases done.symm.trans failed

theorem after {first : Effect α} {next : α → Effect β} (looks : Looks first)
    (rest : ∀ a, Atomic (next a)) : Atomic (first >>= next) := by
  intro m fault m' failed
  rcases looks.bind_error failed with same | ⟨a, _, later⟩
  · exact same
  · exact rest a m fault m' later

theorem before {first : Effect α} {next : α → Effect β} (atomic : Atomic first)
    (rest : ∀ a, Succeeds (next a)) : Atomic (first >>= next) := by
  intro m fault m' failed
  rcases bind_error failed with stopped | ⟨a, m₁, done, later⟩
  · exact atomic m fault m' stopped
  · obtain ⟨b, m₂, same⟩ := rest a m₁
    cases same.symm.trans later

theorem update (f : Machine → Machine) : Atomic (Machine.update f) := succeeds (.update f)

theorem throw {fault : Fault} (inCode : fault.isOutOfCode = false) :
    Atomic (MonadExcept.throw fault : Effect α) := by
  intro m other m' failed
  cases failed
  exact ⟨rfl, inCode⟩

theorem popEntry (pc : Nat) : Atomic (Machine.popEntry pc) := by
  intro m fault m' failed
  unfold Machine.popEntry at failed
  split at failed
  · cases failed
    exact ⟨rfl, rfl⟩
  · cases failed

theorem write (size : Nat) (value : UInt64) (op : Operand) : Atomic (Machine.write size value op) := by
  cases op with
  | reg reg => exact update _
  | imm text | addr text => exact throw rfl
  | mem label =>
    intro m fault m' failed
    simp only [Machine.write, attempt] at failed
    split at failed
    · cases failed
    · next refused =>
      cases failed
      exact ⟨rfl, inCode_address (fun _ _ => inCode_writeMemory) refused⟩

theorem systemCall : Atomic Machine.systemCall := by
  refine after (.observe _) fun number => ?_
  split
  · exact after (.observe _) fun length => after (.query fun _ _ => inCode_readBuffer) fun bytes =>
      before (update _) fun _ => .update _
  · split
    · exact update _
    · exact throw rfl

end Atomic

/-! ### Instructions that fail -/

theorem fits_of_read {size : Nat} {a : UInt64} (done : read size (.mem label) m = .ok a m') :
    ∃ address, m.symbols.get? label = some address ∧ address + size ≤ m.data.size := by
  simp only [read, query, Machine.address, Bind.bind, Except.bind] at done
  cases known : m.symbols.get? label with
  | none =>
    rw [known] at done
    cases done
  | some address =>
    refine ⟨address, rfl, ?_⟩
    by_cases fits : address + size ≤ m.data.size
    · exact fits
    · simp [known, readMemory, bytesAt?, fits] at done

theorem constant_of_write_error {dst : Operand} {a value result : UInt64} {carry : Bool}
    (reads : read 8 dst m = .ok a m)
    (failed : write 8 value dst (m.flagged result carry) = .error fault m') :
    dst.isConstant = true := by
  cases dst with
  | imm text | addr text => rfl
  | reg reg => cases failed
  | mem label =>
    obtain ⟨address, known, fits⟩ := fits_of_read reads
    have writes := write_mem (m := m.flagged result carry) known fits value
    cases writes.symm.trans failed

/-- What is left of the machine: its state from before, or with other flags if the instruction
stores into a constant. -/
def Spared (m : Machine) (i : Instruction) (fault : Fault) (m' : Machine) : Prop :=
  (m' = m ∨ i.storesIntoConstant = true ∧ ∃ result carry, m' = m.flagged result carry) ∧
    fault.isOutOfCode = false

theorem Spared.unchanged {i : Instruction} (same : m' = m ∧ fault.isOutOfCode = false) :
    m.Spared i fault m' :=
  ⟨.inl same.1, same.2⟩

theorem Atomic.spared {pc : Nat} {i : Instruction} (atomic : Atomic (execute pc i))
    (failed : execute pc i m = .error fault m') : m.Spared i fault m' :=
  .unchanged (atomic m fault m' failed)

theorem spared_store {i : Instruction} {dst : Operand} {a value result : UInt64} {carry : Bool}
    (reads : read 8 dst m = .ok a m) (stores : i.storesIntoConstant = dst.isConstant)
    (failed : write 8 value dst (m.flagged result carry) = .error fault m') :
    m.Spared i fault m' := by
  obtain ⟨same, inCode⟩ := Atomic.write 8 value dst _ _ _ failed
  exact ⟨.inr ⟨stores.trans (constant_of_write_error reads failed), result, carry, same⟩, inCode⟩

theorem spared_execute {pc : Nat} {i : Instruction} (failed : execute pc i m = .error fault m') :
    m.Spared i fault m' := by
  cases i with
  | mov dst src => exact Atomic.spared (.after (.read _ src) fun _ => .write _ _ dst) failed
  | movzx dst src => exact Atomic.spared (.update _) failed
  | add dst src | sub dst src =>
    rcases (Looks.read 8 dst).bind_error failed with same | ⟨a, first, later⟩
    · exact .unchanged same
    · rcases (Looks.read 8 src).bind_error later with same | ⟨b, _, last⟩
      · exact .unchanged same
      · exact spared_store first rfl last
  | imul dst src =>
    exact Atomic.spared (.after (.observe _) fun _ => .after (.read 8 src) fun _ => .update _) failed
  | neg reg =>
    exact Atomic.spared (.after (.observe _) fun _ => .before (.update _) fun _ => .update _) failed
  | inc op | dec op =>
    rcases (Looks.read 8 op).bind_error failed with same | ⟨a, first, last⟩
    · exact .unchanged same
    · exact spared_store first rfl last
  | cmp lhs rhs =>
    exact Atomic.spared (.after (.read 8 lhs) fun _ => .after (.read 8 rhs) fun _ => .update _) failed
  | set cond reg => exact Atomic.spared (.update _) failed
  | push reg => exact Atomic.spared (.after (.observe _) fun _ => .update _) failed
  | pop reg => exact Atomic.spared (.before (.popEntry pc) fun _ => .update _) failed
  | jmp label => exact Atomic.spared (.after (.target label) fun _ => .update _) failed
  | jcc cond label =>
    refine Atomic.spared (.after (.observe _) fun taken => ?_) failed
    split
    · exact .after (.target label) fun _ => .update _
    · exact .succeeds fun m => ⟨(), m, rfl⟩
  | call label =>
    exact Atomic.spared (.after (.target label) fun _ => .after (.observe _) fun _ =>
      .before (.update _) fun _ => .update _) failed
  | ret => exact Atomic.spared (.before (.popEntry pc) fun _ => .update _) failed
  | syscall => exact Atomic.spared (execute_syscall pc ▸ .systemCall) failed

theorem step_error (failed : step m = .error fault m') :
    (m.code[m.pc]? = none ∧ fault = .outOfCode m.pc ∧ m' = m) ∨
      ∃ i, m.code[m.pc]? = some i ∧ execute m.pc i m.advance = .error fault m' := by
  cases fetched : m.code[m.pc]? with
  | none =>
    simp only [step, bind, EStateM.bind, observe, fetched] at failed
    cases failed
    exact .inl ⟨rfl, rfl, rfl⟩
  | some i =>
    refine .inr ⟨i, rfl, ?_⟩
    cases effect : execute m.pc i m.advance with
    | ok done m₁ => cases (step_of_execute fetched effect).symm.trans failed
    | error other m₁ =>
      cases (step_of_execute_error fetched effect).symm.trans failed
      rfl

/-- A failing instruction changes nothing but the program counter and the flags, and the flags only
if it is an arithmetic instruction that stores into a constant. -/
theorem step_error_intact (m m' : Machine) (fault : Fault) (failed : step m = .error fault m') :
    m' = { m with pc := m'.pc, zero := m'.zero, carry := m'.carry } ∧
      m'.pc = (if fault.isOutOfCode then m.pc else m.pc + 1) ∧
      ((∀ i, m.code[m.pc]? = some i → i.storesIntoConstant = false) →
        m'.zero = m.zero ∧ m'.carry = m.carry) := by
  rcases step_error failed with ⟨_, rfl, rfl⟩ | ⟨i, fetched, effect⟩
  · exact ⟨rfl, rfl, fun _ => ⟨rfl, rfl⟩⟩
  · obtain ⟨left, inCode⟩ := spared_execute effect
    rw [inCode]
    rcases left with rfl | ⟨constant, result, carry, rfl⟩
    · exact ⟨rfl, rfl, fun _ => ⟨rfl, rfl⟩⟩
    · refine ⟨rfl, rfl, fun plain => ?_⟩
      rw [plain i fetched] at constant
      cases constant

/-- A write of two bytes from a memory of one fails at the second, and prints nothing. -/
theorem step_error_intact_buffer :
    let m : Machine :=
      { registers := #v[1, 0, 0, 2, 0, 0], zero := true, data := #[72], code := #[.syscall] }
    ∃ m', step m = .error (.badAddress 1) m' ∧
      m' = { m with pc := m'.pc, zero := m'.zero, carry := m'.carry } ∧ m'.pc = 1 ∧
      m'.zero = true ∧ m'.carry = false := by
  intro m
  have failed : step m = .error (.badAddress 1) m.advance := rfl
  obtain ⟨same, pc, flags⟩ := step_error_intact m m.advance _ failed
  have plain : ∀ i, m.code[m.pc]? = some i → i.storesIntoConstant = false := by
    intro i fetched
    cases fetched
    rfl
  exact ⟨m.advance, failed, same, pc, flags plain⟩

-- An addition to a constant is refused after the flags are set.
example : ∃ m', step { code := #[.add (.imm "0") (.imm "0")] } = .error (.badImmediate "0") m' ∧
    m'.zero = true :=
  ⟨_, rfl, rfl⟩

end Machine

end IonLang
