import IonLang.Proofs.Code.LabelHygiene
import IonLang.Proofs.Code.Simulation
import IonLang.Proofs.Token.Numeral

/-!
# Compiled programs

A compiled program prints and stores what the evaluation of its entry function prints and stores,
and exits with status 0 just when that evaluation finishes (`run_compiled_eq_eval`). No run of it
ends in a fault, except at a literal of the source that is no machine word (`run_compiled_safe`).
-/

namespace IonLang

open Machine Evaluation

/-! ### Loading an assembled program -/

namespace Machine

theorem laid_of_laid_append {image : Machine} {address : Nat} {front back : List Line}
    (laid : image.Laid address (front ++ back)) : image.Laid address front := by
  induction front generalizing address with
  | nil => trivial
  | cons line rest ih =>
    cases line with
    | reserve name width count => exact ⟨laid.1, ih laid.2⟩
    | directive | inst | label => exact ih laid

theorem storageSize_append (front back : List Line) :
    storageSize (front ++ back) = storageSize front + storageSize back := by
  induction front with
  | nil => simp [storageSize]
  | cons line rest ih =>
    cases line with
    | reserve name width count =>
      rw [List.cons_append, storageSize, storageSize, ih]
      omega
    | directive | inst | label => exact ih

theorem readMemory_zeros {m : Machine} {total address size : Nat}
    (zeros : m.data = Array.replicate total 0) (fits : address + size ≤ total) :
    m.readMemory address size = .ok 0 := by
  have bytes : m.bytesAt? address size = some (List.replicate size 0) := by
    rw [bytesAt?, zeros, Array.size_replicate, if_pos fits]
    simp [Array.extract_replicate, Nat.min_eq_left fits]
  rw [readMemory, bytes]
  exact congrArg _ (wordOfBytes_zeros size)

end Machine

namespace Program

theorem laid_vars {image : Machine} {vars : List Variable} {address : Nat}
    (laid : image.Laid address (vars.map fun var => .reserve var.id.label .qword 1)) {i : Nat}
    {var : Variable} (found : vars[i]? = some var) :
    image.symbols.get? var.id.label = some (address + 8 * i) := by
  induction vars generalizing address i with
  | nil => cases found
  | cons first rest ih =>
    obtain ⟨here, others⟩ := laid
    cases i with
    | zero =>
      cases found
      exact here
    | succ i =>
      have next := ih others found
      rw [next]
      simp only [Width.bytes]
      congr 1
      omega

theorem storageSize_vars (vars : List Variable) :
    storageSize (vars.map fun var => .reserve var.id.label .qword 1) = 8 * vars.length := by
  induction vars with
  | nil => rfl
  | cons first rest ih =>
    rw [List.map_cons, storageSize, ih, List.length_cons, Width.bytes]
    omega

theorem exists_placed_function {image : Machine} {functions : List Function} {pc : Nat}
    (placed : image.Placed pc (functions.flatMap functionLines)) {func : Function}
    (member : func ∈ functions) : ∃ place, image.labels.get? func.id.label = some place ∧
      image.Placed place (Node.linesOption func.body ++ [.inst .ret]) := by
  induction functions generalizing pc with
  | nil => cases member
  | cons first rest ih =>
    obtain ⟨here, others⟩ := placed_append.mp placed
    rcases List.mem_cons.mp member with rfl | later
    · rw [functionLines, List.append_assoc] at here
      exact ⟨pc, here.1, here.2⟩
    · exact ih others later

variable {tokens : List Token} {program : Program} {code : Assembly}

/-- The unit in memory, before the machine has been set to its start. -/
def image (code : Assembly) : Machine := code.lines.foldl place {}

theorem data_image (code : Assembly) :
    (image code).data = Array.replicate (storageSize code.lines) 0 := by
  rw [image, data_foldl code.lines {}, Array.empty_append]

/-- Storage, functions and start code of an assembled program are where they belong. -/
theorem linked_image (wellFormed : program.WellFormed tokens)
    (assembled : program.assemble = .ok code) :
    ∃ entry start, program.findFunction? entryName = some entry ∧ Linked program (image code) ∧
      (image code).Placed start (startCode entry.id) := by
  obtain ⟨entry, found, lines⟩ := assemble_eq_ok assembled
  have distinct := distinct_names wellFormed assembled
  have placed : (image code).Placed 0 code.lines := placed_foldl distinct {}
  have laid : (image code).Laid 0 code.lines := laid_foldl distinct {}
  have room : 1 + 8 * program.vars.length ≤ (image code).data.size := by
    rw [data_image, Array.size_replicate, lines]
    simp only [storageSize_append, storage, storageSize, storageSize_vars, Width.bytes]
    omega
  rw [lines] at placed laid
  obtain ⟨placed, startHere⟩ := placed_append.mp placed
  obtain ⟨_, functionsHere⟩ := placed_append.mp placed
  obtain ⟨bufferAt, varsAt⟩ : (image code).Laid 0 program.storage :=
    laid_of_laid_append (laid_of_laid_append (laid_of_laid_append laid))
  refine ⟨entry, _, found, ⟨bufferAt, by omega, fun var member => ?_, fun func member => ?_⟩, startHere⟩
  · have inside : program.vars[var.id.index]? = some var :=
      Symbols.getElem?_number wellFormed.numbered.vars member
    have small : var.id.index < program.vars.length := (List.getElem?_eq_some_iff.mp inside).1
    refine ⟨laid_vars varsAt inside, ?_⟩
    unfold cellAddress
    omega
  · exact exists_placed_function functionsHere member

/-- A loaded unit stands at its start in the first state of an evaluation. -/
theorem load_eq {start : Nat} (startAt : (image code).labels.get? startLabel = some start) :
    ∃ m, load code = .ok m ∧ At (image code) {} start [] m := by
  obtain ⟨symbols, data, labels, instructions, rest⟩ := foldl_place_rest code.lines {}
  refine ⟨{ image code with pc := start }, ?_, ?_⟩
  · have found : (code.lines.foldl place {}).labels.get? startLabel = some start := startAt
    simp only [load, found, image]
  · have zeros := data_image code
    have size : (image code).data.size = storageSize code.lines := by rw [zeros, Array.size_replicate]
    have whole : image code = { symbols, data, labels, code := instructions } := rest
    refine ⟨⟨rfl, rfl, rfl, rfl, fun var inside => ?_, ?_, rfl, ?_, ?_⟩, ?_⟩
    · rw [size] at inside
      exact readMemory_zeros zeros inside
    · rw [whole]
    · rw [whole]
    · rw [whole]
    · rw [whole]
      rfl

/-! ### The whole run -/

structure Shows (program : Program) (state : State) (m : Machine) : Prop where
  output : m.output = state.output
  vars : ∀ var ∈ program.vars, m.quadword? var.id.label = some (state.store var.id)

theorem Shows.of_frame {image m : Machine} (linked : Linked program image) {state : State} {pc : Nat}
    {stack : List Nat} (frame : Frame image state.store state.output pc stack m) :
    program.Shows state m := by
  refine ⟨frame.output, fun var member => ?_⟩
  obtain ⟨known, inside⟩ := linked.cell var member
  have address : m.address var.id.label = .ok (cellAddress var.id) :=
    address_eq (by rw [frame.symbols]; exact known)
  rw [quadword?, address]
  simp only [frame.cells var.id inside]
  rfl

/-- The end of the start code: the program exits. -/
theorem exits {image m : Machine} {state : State} {pc : Nat} {stack : List Nat}
    (linked : Linked program image) (here : At image state pc stack m)
    (placed : image.Placed pc [Snippet.mov (.reg .rax) (.imm "60"),
      Snippet.mov (.reg .rdi) (.imm "0"), .inst .syscall]) :
    ∃ m', Reaches 3 m m' ∧ m'.exit = some 0 ∧ program.Shows state m' := by
  obtain ⟨raxHere, rdiHere, callHere, _⟩ := placed
  let m₁ := m.advance.set .rax 60
  let m₂ := m₁.advance.set .rdi 0
  have frame₁ : Frame image state.store state.output (pc + 1) stack m₁ := here.advance.set _ _
  have frame₂ : Frame image state.store state.output (pc + 2) stack m₂ := frame₁.advance.set _ _
  have first : Reaches 1 m m₁ := here.step raxHere (execute_mov (read_imm rfl) (write_reg _ _))
  have second : Reaches 1 m₁ m₂ := frame₁.step rdiHere (execute_mov (read_imm rfl) (write_reg _ _))
  have number : m₂.advance.get .rax = exitCall :=
    (get_set_of_slot_ne _ (by decide) _).trans (get_set_self _ rfl _)
  have status : m₂.advance.get .rdi = 0 := get_set_self _ rfl _
  have third := frame₂.step callHere (execute_exit number)
  have shows : program.Shows state m₂.advance := .of_frame linked frame₂.advance
  exact ⟨_, (first.trans second).trans third, congrArg some status, shows.output, shows.vars⟩

/-- How the run of a unit follows the evaluation of its program with some fuel. -/
def Follows (bad : String → Prop) (program : Program) (fuel : Nat) (m : Machine) : Outcome → Prop
  | .finished state => ∃ n m', Reaches n m m' ∧ m'.exit = some 0 ∧ program.Shows state m'
  | .stuck text _ => bad text ∧ ∃ n m' m'', Reaches n m m' ∧ m'.exit = none ∧
    Machine.step m' = .error (.badImmediate text) m''
  | .pending state => ∃ n m', fuel ≤ n ∧ Reaches n m m' ∧ m'.exit = none ∧ program.Shows state m'

theorem run_follows {bad : String → Prop} (wellFormed : program.WellFormed tokens)
    (assembled : program.assemble = .ok code)
    (grounded : ∀ n ∈ Node.forest program.bodies, n.Grounded bad program) :
    ∃ entry m, program.findFunction? entryName = some entry ∧ load code = .ok m ∧
      ∀ fuel, program.Follows bad fuel m (program.evalCall fuel entry.id {}) := by
  obtain ⟨entry, start, found, linked, startAt, callHere, _, exitHere⟩ :=
    linked_image wellFormed assembled
  obtain ⟨m, loaded, here⟩ := load_eq startAt
  have member : entry ∈ program.functions := List.mem_of_find?_eq_some found
  obtain ⟨place, functionAt, _⟩ := linked.function entry member
  obtain ⟨m₁, called, there⟩ := here.call callHere functionAt
  refine ⟨entry, m, found, loaded, fun fuel => ?_⟩
  have simulates := evalCall_simulates linked wellFormed.numbered grounded fuel entry member place
    functionAt _ [] {} m₁ there
  have whole := (Simulates.after called simulates).weaken (show fuel ≤ 1 + (fuel - 1) by omega)
  revert whole
  cases program.evalCall fuel entry.id {} with
  | finished state =>
    rintro ⟨n, m₂, reaches, back⟩
    obtain ⟨m₃, more, exited, shows⟩ := exits linked back exitHere
    exact ⟨n + 3, m₃, reaches.trans more, exited, shows⟩
  | stuck text state => exact id
  | pending state =>
    rintro ⟨n, m₂, pc, stack, enough, reaches, there⟩
    exact ⟨n, m₂, enough, reaches, there.exit, .of_frame linked there.toFrame⟩

/-! ### Runs with a limit -/

theorem run_within {n limit : Nat} {m m' : Machine} (loaded : load code = .ok m)
    (reaches : Reaches n m m') (within : limit < n) :
    ∃ m₁, run code limit = .ok m₁ ∧ m₁.exit = none := by
  obtain ⟨m₁, ran, running⟩ := runFrom_within reaches 0 within
  exact ⟨m₁, run_eq loaded ran, running⟩

theorem run_reached {n : Nat} {m m' : Machine} (loaded : load code = .ok m)
    (reaches : Reaches n m m') : run code n = .ok m' :=
  run_eq loaded (runFrom_of_reaches reaches 0 0)

theorem run_exited {n limit : Nat} {m m' : Machine} {status : UInt64} (loaded : load code = .ok m)
    (reaches : Reaches n m m') (exited : m'.exit = some status) (enough : n ≤ limit) :
    run code limit = .ok m' := by
  obtain ⟨more, rfl⟩ := Nat.exists_eq_add_of_le enough
  have ran := runFrom_of_reaches reaches 0 more
  rw [runFrom_terminated exited] at ran
  exact run_eq loaded ran

theorem run_fault {n limit : Nat} {m m' m'' : Machine} {fault : Fault} (loaded : load code = .ok m)
    (reaches : Reaches n m m') (running : m'.exit = none)
    (failed : Machine.step m' = .error fault m'') (enough : n < limit) :
    run code limit = .error fault := by
  obtain ⟨more, rfl⟩ := Nat.exists_eq_add_of_lt enough
  have ran := runFrom_of_reaches reaches 0 (more + 1)
  rw [runFrom_fault running failed] at ran
  exact run_eq loaded ran

/-- Every run is cut off, exits with what a finished evaluation leaves, or stops at a bad literal. -/
theorem run_cases {bad : String → Prop} {m : Machine} {main : FuncId} (loaded : load code = .ok m)
    (follows : ∀ fuel, program.Follows bad fuel m (program.evalCall fuel main {})) (limit : Nat) :
    (∃ m', run code limit = .ok m' ∧ (m'.exit = none ∨ ∃ fuel state,
      program.evalCall fuel main {} = .finished state ∧ m'.exit = some 0 ∧ program.Shows state m')) ∨
    ∃ text, bad text ∧ run code limit = .error (.badImmediate text) := by
  -- A pending evaluation with more fuel than the limit leaves the run no time to end.
  have outcome := follows (limit + 1)
  cases evaluated : program.evalCall (limit + 1) main {} with
  | finished state =>
    rw [evaluated] at outcome
    obtain ⟨n, m', reaches, exited, shows⟩ := outcome
    rcases Nat.lt_or_ge limit n with within | enough
    · obtain ⟨m₁, ran, running⟩ := run_within loaded reaches within
      exact .inl ⟨m₁, ran, .inl running⟩
    · exact .inl ⟨m', run_exited loaded reaches exited enough,
        .inr ⟨limit + 1, state, evaluated, exited, shows⟩⟩
  | stuck text state =>
    rw [evaluated] at outcome
    obtain ⟨isBad, n, m', m'', reaches, running, failed⟩ := outcome
    rcases Nat.lt_trichotomy limit n with within | rfl | enough
    · obtain ⟨m₁, ran, running⟩ := run_within loaded reaches within
      exact .inl ⟨m₁, ran, .inl running⟩
    · exact .inl ⟨m', run_reached loaded reaches, .inl running⟩
    · exact .inr ⟨text, isBad, run_fault loaded reaches running failed enough⟩
  | pending state =>
    rw [evaluated] at outcome
    obtain ⟨n, m', enough, reaches, _⟩ := outcome
    obtain ⟨m₁, ran, running⟩ := run_within loaded reaches (by omega : limit < n)
    exact .inl ⟨m₁, ran, .inl running⟩

/-! ### Compiled sources -/

def Oversized (tokens : List Token) (text : String) : Prop :=
  text ∈ Token.integers tokens ∧ UInt64.size ≤ Text.decimalFrom 0 text.toList

theorem grounded_of_scan {file source : String}
    (wellFormed : program.WellFormed (Token.scan file source).tokens) :
    ∀ n ∈ Node.forest program.bodies,
      n.Grounded (Oversized (Token.scan file source).tokens) program := by
  refine fun n member => ⟨wellFormed.resolved n member, ?_⟩
  rintro id text rfl fails
  rcases wellFormed.literal id text member with rfl | scanned
  · exact absurd fails (by decide)
  · have integer := Token.mem_integers.mpr scanned
    exact ⟨integer, Text.size_le_of_wordOf?_eq_none (Token.isNumeral_of_mem_scan integer) fails⟩

theorem run_compiled_follows {file source : String} (compiled : compile file source = .ok code) :
    ∃ program main m, ofSource file source = (some program, []) ∧
      program.findFunction? entryName = some main ∧ load code = .ok m ∧
      ∀ fuel, program.Follows (Oversized (Token.scan file source).tokens) fuel m
        (program.evalCall fuel main.id {}) := by
  obtain ⟨program, parsed, assembled⟩ := compile_eq_ok compiled
  have read : (ofTokens (Token.scan file source).tokens).1 = some program :=
    congrArg Prod.fst parsed
  have wellFormed := ofTokens_wellFormed (Prod.ext read rfl)
  obtain ⟨main, m, found, loaded, follows⟩ :=
    run_follows wellFormed assembled (grounded_of_scan wellFormed)
  exact ⟨program, main, m, parsed, found, loaded, follows⟩

/-- No run of compiled code goes wrong, however long it is, but at an integer that is too large. -/
theorem run_compiled_safe (file source : String) (code : Assembly) (limit : Nat)
    (compiled : compile file source = .ok code) :
    (∃ m, run code limit = .ok m ∧ (m.exit = none ∨ m.exit = some 0)) ∨
    ∃ text ∈ Token.integers (Token.scan file source).tokens,
      UInt64.size ≤ Text.decimalFrom 0 text.toList ∧ run code limit = .error (.badImmediate text) := by
  obtain ⟨program, main, m, _, _, loaded, follows⟩ := run_compiled_follows compiled
  rcases run_cases loaded follows limit with ⟨m', ran, ending⟩ | ⟨text, ⟨integer, large⟩, ran⟩
  · refine .inl ⟨m', ran, ending.imp_right ?_⟩
    rintro ⟨_, _, _, exited, _⟩
    exact exited
  · exact .inr ⟨text, integer, large, ran⟩

/-- A program that calls itself, with an integer that is one too large. -/
theorem run_compiled_safe_recursive :
    let source := "uint64 x; void main() " ++ Text.braced "if (x++ < 9) main(); 18446744073709551616;"
    ∃ code, compile "f" source = .ok code ∧ ∀ limit,
      (∃ m, run code limit = .ok m ∧ (m.exit = none ∨ m.exit = some 0)) ∨
      ∃ text ∈ Token.integers (Token.scan "f" source).tokens,
        UInt64.size ≤ Text.decimalFrom 0 text.toList ∧ run code limit = .error (.badImmediate text) := by
  intro source
  have isOk : (compile "f" source).isOk = true := by decide +kernel
  obtain ⟨code, compiled⟩ := exists_code isOk
  exact ⟨code, compiled, fun limit => run_compiled_safe "f" _ code limit compiled⟩

/-- What runs of code have to do for an outcome of the evaluation with some fuel. -/
def Agrees (program : Program) (code : Assembly) (fuel : Nat) : Outcome → Prop
  | .finished state => ∃ n, ∀ limit, n ≤ limit →
    ∃ m, run code limit = .ok m ∧ m.exit = some 0 ∧ program.Shows state m
  | .stuck _ _ => False
  | .pending state => ∃ limit m, fuel ≤ limit ∧ run code limit = .ok m ∧ m.exit = none ∧
    program.Shows state m

/-- Compiled code does what the evaluation of the entry function does: it exits exactly if the
evaluation finishes, with the output and the variables that the evaluation leaves, and otherwise it
passes through the states in which the evaluation stands when its fuel is used up. -/
theorem run_compiled_eq_eval (file source : String) (code : Assembly)
    (compiled : compile file source = .ok code)
    (small : ∀ text ∈ Token.integers (Token.scan file source).tokens,
      Text.decimalFrom 0 text.toList < UInt64.size) :
    ∃ program main, ofSource file source = (some program, []) ∧
      program.findFunction? entryName = some main ∧
      (∀ fuel, program.Agrees code fuel (program.evalCall fuel main.id {})) ∧
      ∀ limit, ∃ m, run code limit = .ok m ∧ (m.exit = none ∨ ∃ fuel state,
        program.evalCall fuel main.id {} = .finished state ∧ m.exit = some 0 ∧
          program.Shows state m) := by
  have noneBad : ∀ text, ¬Oversized (Token.scan file source).tokens text := by
    rintro text ⟨integer, large⟩
    exact Nat.not_lt.mpr large (small text integer)
  obtain ⟨program, main, m, parsed, found, loaded, follows⟩ := run_compiled_follows compiled
  refine ⟨program, main, parsed, found, fun fuel => ?_, fun limit => ?_⟩
  · have outcome := follows fuel
    revert outcome
    cases program.evalCall fuel main.id {} with
    | finished state =>
      rintro ⟨n, m', reaches, exited, shows⟩
      exact ⟨n, fun limit enough => ⟨m', run_exited loaded reaches exited enough, exited, shows⟩⟩
    | stuck text state => exact fun outcome => noneBad text outcome.1
    | pending state =>
      rintro ⟨n, m', enough, reaches, running, shows⟩
      exact ⟨n, m', enough, run_reached loaded reaches, running, shows⟩
  · rcases run_cases loaded follows limit with ending | ⟨text, isBad, _⟩
    · exact ending
    · exact absurd isBad (noneBad text)

/-- A loop that prints three letters. -/
theorem run_compiled_eq_eval_loop :
    let source := "uint64 x; void main() " ++ Text.braced "while (x < 3) putc(65 + x++);"
    ∃ code, compile "f" source = .ok code ∧
      (∀ text ∈ Token.integers (Token.scan "f" source).tokens,
        Text.decimalFrom 0 text.toList < UInt64.size) ∧
      ∃ program main, ofSource "f" source = (some program, []) ∧
        program.findFunction? entryName = some main ∧
        (∀ fuel, program.Agrees code fuel (program.evalCall fuel main.id {})) ∧
        ∀ limit, ∃ m, run code limit = .ok m ∧ (m.exit = none ∨ ∃ fuel state,
          program.evalCall fuel main.id {} = .finished state ∧ m.exit = some 0 ∧
            program.Shows state m) := by
  intro source
  have isOk : (compile "f" source).isOk = true := by decide +kernel
  have integers : Token.integers (Token.scan "f" source).tokens = ["3", "65"] := by decide +kernel
  have small : ∀ text ∈ Token.integers (Token.scan "f" source).tokens,
      Text.decimalFrom 0 text.toList < UInt64.size := by
    rw [integers]
    decide
  obtain ⟨code, compiled⟩ := exists_code isOk
  exact ⟨code, compiled, small, run_compiled_eq_eval "f" source code compiled small⟩

end Program

end IonLang
