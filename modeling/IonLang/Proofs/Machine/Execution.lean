import IonLang.Machine.Step
import IonLang.Proofs.Machine.Memory

/-!
# Runs of the machine

One lemma for each instruction says what the instruction does when its operands can be read and
written. `Reaches n m m'` says that `n` instructions lead from one state to another, and
`runFrom_of_reaches` that a run passes through the states that are reached.
-/

namespace IonLang.Machine

/-! ### Registers -/

theorem get_set_self (m : Machine) {reg : Register} (word : reg.isByte = false) (value : UInt64) :
    (m.set reg value).get reg = value := by
  simp [get, set, merge, word]

theorem get_set_of_slot_ne (m : Machine) {reg other : Register} (apart : reg.slot ≠ other.slot)
    (value : UInt64) : (m.set reg value).get other = m.get other := by
  have slots : (reg.slot : Nat) ≠ other.slot := fun same => apart (Fin.ext same)
  simp [get, set, slots]

theorem get_al (m : Machine) : m.get .al = m.get .rax &&& 0xFF := rfl

theorem toUInt8_and_mask (word : UInt64) : (word &&& 0xFF).toUInt8 = word.toUInt8 := by
  rw [UInt64.toUInt8_and]
  exact UInt8.and_neg_one

theorem get_written (m : Machine) (address size : Nat) (value : UInt64) (reg : Register) :
    (m.written address size value).get reg = m.get reg := by
  simp only [get, written]

/-- A byte that is merged into a word can be read back. -/
theorem merged_low_byte (old value mask : UInt64) :
    ((old &&& ~~~mask) ||| (value &&& mask)) &&& mask = value &&& mask := by
  apply UInt64.toBitVec_inj.mp
  apply BitVec.eq_of_getLsbD_eq
  intro i small
  simp only [UInt64.toBitVec_and, UInt64.toBitVec_or, UInt64.toBitVec_not, BitVec.getLsbD_and,
    BitVec.getLsbD_or, BitVec.getLsbD_not]
  cases mask.toBitVec.getLsbD i <;> simp

theorem get_al_set_al (m : Machine) (value : UInt64) :
    (m.set .al value).get .al = value &&& 0xFF := by
  have merged := merged_low_byte (m.get .rax) value 0xFF
  simpa [get, set, merge, Register.isByte, Register.slot] using merged

/-! ### Operands -/

/-- The state in which an instruction takes effect. -/
def advance (m : Machine) : Machine := { m with pc := m.pc + 1 }

variable {m m' : Machine} {size pc : Nat}

theorem read_reg (reg : Register) : read size (.reg reg) m = .ok (m.get reg) m := rfl

theorem read_imm {text : String} {word : UInt64} (denotes : Text.wordOf? text = some word) :
    read size (.imm text) m = .ok word m := by
  rw [read, denotes]
  rfl

theorem read_imm_error {text : String} (denotes : Text.wordOf? text = none) :
    read size (.imm text) m = .error (.badImmediate text) m := by
  rw [read, denotes]
  rfl

theorem address_eq {label : String} {address : Nat} (known : m.symbols.get? label = some address) :
    m.address label = .ok address := by
  rw [Machine.address, known]

theorem read_mem {label : String} {address : Nat} {value : UInt64}
    (known : m.symbols.get? label = some address) (stored : m.readMemory address size = .ok value) :
    read size (.mem label) m = .ok value m := by
  simp only [read, query, address_eq known, bind, Except.bind, stored]

theorem read_addr {label : String} {address : Nat} (known : m.symbols.get? label = some address) :
    read size (.addr label) m = .ok (UInt64.ofNat address) m := by
  simp only [read, query, address_eq known, bind, Except.bind]

theorem write_reg (reg : Register) (value : UInt64) :
    write size value (.reg reg) m = .ok () (m.set reg value) := rfl

theorem write_mem {label : String} {address : Nat} (known : m.symbols.get? label = some address)
    (fits : address + size ≤ m.data.size) (value : UInt64) :
    write size value (.mem label) m = .ok () (m.written address size value) := by
  simp only [write, attempt, address_eq known, bind, Except.bind, writeMemory_eq fits]

theorem target_eq {label : String} {place : Nat} (known : m.labels.get? label = some place) :
    m.target label = .ok place := by
  rw [Machine.target, known]

/-! ### Instructions -/

def flagged (m : Machine) (result : UInt64) (carry : Bool) : Machine :=
  { m with zero := result == 0, carry }

theorem execute_mov {dst src : Operand} {value : UInt64}
    (reads : read (moveSize dst src) src m = .ok value m)
    (writes : write (moveSize dst src) value dst m = .ok () m') :
    execute pc (.mov dst src) m = .ok () m' := by
  simp only [execute, bind, EStateM.bind, reads, writes]

theorem execute_mov_error {dst src : Operand} {fault : Fault}
    (reads : read (moveSize dst src) src m = .error fault m) :
    execute pc (.mov dst src) m = .error fault m := by
  simp only [execute, bind, EStateM.bind, reads]

theorem execute_add {dst src : Operand} {a b : UInt64} (first : read 8 dst m = .ok a m)
    (second : read 8 src m = .ok b m)
    (writes : write 8 (a + b) dst (m.flagged (a + b) (a + b < a)) = .ok () m') :
    execute pc (.add dst src) m = .ok () m' := by
  simp only [execute, bind, EStateM.bind, first, second]
  exact writes

theorem execute_sub {dst src : Operand} {a b : UInt64} (first : read 8 dst m = .ok a m)
    (second : read 8 src m = .ok b m)
    (writes : write 8 (a - b) dst (m.flagged (a - b) (a < b)) = .ok () m') :
    execute pc (.sub dst src) m = .ok () m' := by
  simp only [execute, bind, EStateM.bind, first, second]
  exact writes

theorem execute_imul {dst : Register} {src : Operand} {b : UInt64} (reads : read 8 src m = .ok b m) :
    execute pc (.imul dst src) m = .ok () (m.set dst (m.get dst * b)) := by
  simp only [execute, bind, EStateM.bind, observe, reads]
  rfl

theorem execute_neg (reg : Register) :
    execute pc (.neg reg) m =
      .ok () ((m.flagged (0 - m.get reg) (m.get reg != 0)).set reg (0 - m.get reg)) := rfl

theorem execute_inc {op : Operand} {a : UInt64} (reads : read 8 op m = .ok a m)
    (writes : write 8 (a + 1) op (m.flagged (a + 1) m.carry) = .ok () m') :
    execute pc (.inc op) m = .ok () m' := by
  simp only [execute, bind, EStateM.bind, reads]
  exact writes

theorem execute_dec {op : Operand} {a : UInt64} (reads : read 8 op m = .ok a m)
    (writes : write 8 (a - 1) op (m.flagged (a - 1) m.carry) = .ok () m') :
    execute pc (.dec op) m = .ok () m' := by
  simp only [execute, bind, EStateM.bind, reads]
  exact writes

theorem execute_cmp {lhs rhs : Operand} {a b : UInt64} (first : read 8 lhs m = .ok a m)
    (second : read 8 rhs m = .ok b m) :
    execute pc (.cmp lhs rhs) m = .ok () (m.flagged (a - b) (a < b)) := by
  simp only [execute, bind, EStateM.bind, first, second]
  rfl

theorem execute_set (cond : Condition) (reg : Register) :
    execute pc (.set cond reg) m =
      .ok () (m.set reg (if cond.holds m.zero m.carry then 1 else 0)) := rfl

theorem execute_movzx (dst src : Register) :
    execute pc (.movzx dst src) m = .ok () (m.set dst (m.get src)) := rfl

theorem execute_push (reg : Register) :
    execute pc (.push reg) m = .ok () { m with stack := (m.get reg).toNat :: m.stack } := rfl

theorem execute_pop {reg : Register} {entry : Nat} {rest : List Nat}
    (top : m.stack = entry :: rest) :
    execute pc (.pop reg) m = .ok () (set { m with stack := rest } reg (UInt64.ofNat entry)) := by
  simp only [execute, bind, EStateM.bind, popEntry, top]
  rfl

theorem execute_jmp {label : String} {place : Nat} (known : m.labels.get? label = some place) :
    execute pc (.jmp label) m = .ok () { m with pc := place } := by
  simp only [execute, bind, EStateM.bind, query, target_eq known]
  rfl

theorem execute_jcc {cond : Condition} {label : String} {place : Nat}
    (known : m.labels.get? label = some place) :
    execute pc (.jcc cond label) m =
      .ok () (if cond.holds m.zero m.carry then { m with pc := place } else m) := by
  by_cases taken : cond.holds m.zero m.carry = true
  · simp only [execute, bind, EStateM.bind, observe, taken, ↓reduceIte, query, target_eq known]
    rfl
  · simp only [execute, bind, EStateM.bind, observe, taken]
    rfl

theorem execute_call {label : String} {place : Nat} (known : m.labels.get? label = some place) :
    execute pc (.call label) m = .ok () { m with stack := m.pc :: m.stack, pc := place } := by
  simp only [execute, bind, EStateM.bind, query, target_eq known]
  rfl

theorem execute_ret {entry : Nat} {rest : List Nat} (top : m.stack = entry :: rest) :
    execute pc .ret m = .ok () { m with stack := rest, pc := entry } := by
  simp only [execute, bind, EStateM.bind, popEntry, top]
  rfl

theorem execute_write {bytes : List UInt8} (number : m.get .rax = writeCall)
    (buffer : m.readBuffer (m.get .rsi) (m.get .rdx).toNat = .ok bytes) :
    execute pc .syscall m =
      .ok () (set { m with output := m.output ++ bytes, pending := m.pending ++ bytes } .rax
        (m.get .rdx)) := by
  simp only [execute_syscall, systemCall, bind, EStateM.bind, observe, number, beq_self_eq_true,
    ↓reduceIte, query, buffer]
  rfl

theorem execute_exit (number : m.get .rax = exitCall) :
    execute pc .syscall m = .ok () { m with exit := some (m.get .rdi) } := by
  simp only [execute_syscall, systemCall, bind, EStateM.bind, observe, number]
  rfl

/-! ### Steps in sequence -/

/-- A number of instructions leads from one state to another, and the program has not exited
before the last of them. -/
inductive Reaches : Nat → Machine → Machine → Prop where
  | refl (m : Machine) : Reaches 0 m m
  | step {n : Nat} {m m₁ m' : Machine} {i : Instruction} (running : m.exit = none)
    (fetched : m.code[m.pc]? = some i) (effect : execute m.pc i m.advance = .ok () m₁)
    (rest : Reaches n m₁ m') : Reaches (n + 1) m m'

theorem Reaches.trans {a b : Nat} {m₁ m₂ m₃ : Machine} (first : Reaches a m₁ m₂)
    (second : Reaches b m₂ m₃) : Reaches (a + b) m₁ m₃ := by
  induction first with
  | refl m => rwa [Nat.zero_add]
  | step running fetched effect rest ih =>
    rw [Nat.add_right_comm]
    exact .step running fetched effect (ih second)

theorem step_of_execute {i : Instruction} (fetched : m.code[m.pc]? = some i)
    (effect : execute m.pc i m.advance = .ok () m') : Machine.step m = .ok (m.pc, i) m' := by
  have result : execute m.pc i { m with pc := m.pc + 1 } = .ok () m' := effect
  simp only [Machine.step, bind, EStateM.bind, observe, fetched, jump, update, result]
  rfl

theorem step_of_execute_error {i : Instruction} {fault : Fault} (fetched : m.code[m.pc]? = some i)
    (effect : execute m.pc i m.advance = .error fault m') : Machine.step m = .error fault m' := by
  have result : execute m.pc i { m with pc := m.pc + 1 } = .error fault m' := effect
  simp only [Machine.step, bind, EStateM.bind, observe, fetched, jump, update, result]

/-- A run passes through the states that are reached. -/
theorem runFrom_of_reaches {n : Nat} (reaches : Reaches n m m') (steps limit : Nat) :
    runFrom steps m (n + limit) = runFrom (steps + n) m' limit := by
  induction reaches generalizing steps with
  | refl m => rw [Nat.zero_add, Nat.add_zero]
  | @step n m m₁ m' i running fetched effect rest ih =>
    have going : m.isTerminated = false := by rw [isTerminated, running]; rfl
    have more : n + 1 + limit = n + limit + 1 := by omega
    rw [more, runFrom, going, step_of_execute fetched effect]
    simp only [Bool.false_eq_true, ↓reduceIte, ih]
    rw [Nat.add_right_comm, Nat.add_assoc]

/-- Before the last of the states that are reached, a run is still going. -/
theorem runFrom_within {n limit : Nat} (reaches : Reaches n m m') (steps : Nat) (within : limit < n) :
    ∃ m₁, runFrom steps m limit = ⟨steps + limit, none, m₁⟩ ∧ m₁.exit = none := by
  induction reaches generalizing steps limit with
  | refl m => omega
  | @step n m m₁ m' i running fetched effect rest ih =>
    cases limit with
    | zero => exact ⟨m, rfl, running⟩
    | succ limit =>
      have going : m.isTerminated = false := by rw [isTerminated, running]; rfl
      obtain ⟨m₂, run, still⟩ := ih (steps + 1) (by omega : limit < n)
      refine ⟨m₂, ?_, still⟩
      rw [runFrom, going, step_of_execute fetched effect]
      simp only [Bool.false_eq_true, ↓reduceIte, run]
      rw [Nat.add_right_comm, Nat.add_assoc]

theorem runFrom_terminated {status : UInt64} (exited : m.exit = some status) (steps limit : Nat) :
    runFrom steps m limit = ⟨steps, none, m⟩ := by
  cases limit with
  | zero => rfl
  | succ limit => rw [runFrom, isTerminated, exited]; rfl

theorem runFrom_fault {fault : Fault} (running : m.exit = none) (failed : Machine.step m = .error fault m')
    (steps limit : Nat) : runFrom steps m (limit + 1) = ⟨steps, some fault, m'⟩ := by
  rw [runFrom, isTerminated, running, failed]
  rfl

theorem run_eq {unit : Assembly} {limit : Nat} {result : Run} (loaded : load unit = .ok m)
    (ran : runFrom 0 m limit = result) :
    run unit limit = match result.fault with
      | none => .ok result.machine
      | some fault => .error fault := by
  subst ran
  unfold run
  rw [loaded]
  rfl

end IonLang.Machine
