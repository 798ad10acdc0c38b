import IonLang.Machine

/-!
# Execution

One instruction at a time. The program counter moves on before the instruction takes effect, and a
fault leaves everything else that the instruction had not changed yet as it was.
-/

namespace IonLang.Machine

/-- An effect on the machine that may fail; a fault keeps the state reached so far. -/
abbrev Effect := EStateM Fault Machine

def observe {α : Type} (f : Machine → α) : Effect α := fun m => .ok (f m) m

def update (f : Machine → Machine) : Effect Unit := fun m => .ok () (f m)

def query {α : Type} (f : Machine → Except Fault α) : Effect α := fun m =>
  match f m with
  | .ok value => .ok value m
  | .error fault => .error fault m

def attempt (f : Machine → Except Fault Machine) : Effect Unit := fun m =>
  match f m with
  | .ok m => .ok () m
  | .error fault => .error fault m

/-- The size of a move in bytes: a byte register on either side makes it a byte. -/
def moveSize : Operand → Operand → Nat
  | .reg dst, .reg src => if dst.isByte || src.isByte then 1 else 8
  | .reg reg, _ | _, .reg reg => if reg.isByte then 1 else 8
  | _, _ => 8

/-- The value of an operand, of which a memory cell gives `size` bytes. -/
def read (size : Nat) : Operand → Effect UInt64
  | .reg reg => observe fun m => m.get reg
  | .imm text =>
    match Text.wordOf? text with
    | some word => pure word
    | none => throw (.badImmediate text)
  | .mem label => query fun m => do m.readMemory (← m.address label) size
  | .addr label => query fun m => do .ok (UInt64.ofNat (← m.address label))

def write (size : Nat) (value : UInt64) : Operand → Effect Unit
  | .reg reg => update fun m => m.set reg value
  | .mem label => attempt fun m => do m.writeMemory (← m.address label) size value
  | .imm text | .addr text => throw (.badImmediate text)

def setFlags (result : UInt64) (carry : Bool) : Effect Unit :=
  update fun m => { m with zero := result == 0, carry }

def setZero (result : UInt64) : Effect Unit :=
  update fun m => { m with zero := result == 0 }

def jump (place : Nat) : Effect Unit := update fun m => { m with pc := place }

def pushEntry (entry : Nat) : Effect Unit :=
  update fun m => { m with stack := entry :: m.stack }

def popEntry (pc : Nat) : Effect Nat := fun m =>
  match m.stack with
  | [] => .error (.stackUnderflow pc) m
  | entry :: rest => .ok entry { m with stack := rest }

/-- The bytes in memory from an address on; the first address without one is reported. -/
def readBuffer (m : Machine) (address : UInt64) : Nat → Except Fault (List UInt8)
  | 0 => .ok []
  | length + 1 => do
    let byte ← m.readMemory address.toNat 1
    let rest ← readBuffer m (address + 1) length
    .ok (byte.toUInt8 :: rest)

def writeCall : UInt64 := 1

def exitCall : UInt64 := 60

/-- The system call whose number is in `rax`. -/
def systemCall : Effect Unit := do
  let number ← observe fun m => m.get .rax
  if number == writeCall then
    let length ← observe fun m => m.get .rdx
    let bytes ← query fun m => m.readBuffer (m.get .rsi) length.toNat
    update fun m =>
      { m with
        output := m.output ++ bytes
        pending := m.pending ++ bytes }
    update fun m => m.set .rax length
  else if number == exitCall then update fun m => { m with exit := some (m.get .rdi) }
  else throw (.unsupportedSyscall number)

/-- The effect of the instruction at `pc`, after the program counter has moved on. -/
def execute (pc : Nat) : Instruction → Effect Unit
  | .mov dst src => do
    let size := moveSize dst src
    let value ← read size src
    write size value dst
  | .movzx dst src => update fun m => m.set dst (m.get src)
  | .add dst src => do
    let a ← read 8 dst
    let b ← read 8 src
    setFlags (a + b) (a + b < a)
    write 8 (a + b) dst
  | .sub dst src => do
    let a ← read 8 dst
    let b ← read 8 src
    setFlags (a - b) (a < b)
    write 8 (a - b) dst
  | .imul dst src => do
    let a ← observe fun m => m.get dst
    let b ← read 8 src
    update fun m => m.set dst (a * b)
  | .neg reg => do
    let a ← observe fun m => m.get reg
    setFlags (0 - a) (a != 0)
    update fun m => m.set reg (0 - a)
  | .inc op => do
    let a ← read 8 op
    setZero (a + 1)
    write 8 (a + 1) op
  | .dec op => do
    let a ← read 8 op
    setZero (a - 1)
    write 8 (a - 1) op
  | .cmp lhs rhs => do
    let a ← read 8 lhs
    let b ← read 8 rhs
    setFlags (a - b) (a < b)
  | .set cond reg =>
    update fun m => m.set reg (if cond.holds m.zero m.carry then 1 else 0)
  | .push reg => do pushEntry (← observe fun m => (m.get reg).toNat)
  | .pop reg => do
    let entry ← popEntry pc
    update fun m => m.set reg (UInt64.ofNat entry)
  | .jmp label => do jump (← query fun m => m.target label)
  | .jcc cond label => do
    if ← observe fun m => cond.holds m.zero m.carry then
      jump (← query fun m => m.target label)
  | .call label => do
    let place ← query fun m => m.target label
    pushEntry (← observe Machine.pc)
    jump place
  | .ret => do jump (← popEntry pc)
  | .syscall => systemCall

theorem execute_syscall (pc : Nat) : execute pc .syscall = systemCall := by
  rw [execute]

def step : Effect (Nat × Instruction) := do
  let pc ← observe Machine.pc
  match ← observe fun m => m.code[pc]? with
  | none => throw (.outOfCode pc)
  | some inst =>
    jump (pc + 1)
    execute pc inst
    pure (pc, inst)

/-- How far a run came: the number of instructions that were executed, the fault that ended the
run if one did, and the state at the end. -/
structure Run where
  steps : Nat
  fault : Option Fault
  machine : Machine

/-- Executes instructions until the program exits, an instruction faults or the limit is reached,
and counts on from `steps`. -/
def runFrom (steps : Nat) (m : Machine) : Nat → Run
  | 0 => ⟨steps, none, m⟩
  | limit + 1 =>
    if m.isTerminated then ⟨steps, none, m⟩
    else
      match step m with
      | .ok _ m => runFrom (steps + 1) m limit
      | .error fault m => ⟨steps, some fault, m⟩

def run (unit : Assembly) (limit : Nat) : Except Fault Machine := do
  let result := runFrom 0 (← load unit) limit
  match result.fault with
  | none => .ok result.machine
  | some fault => .error fault

end IonLang.Machine
