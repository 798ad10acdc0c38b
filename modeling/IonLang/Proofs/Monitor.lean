import IonLang.Monitor.Session
import IonLang.Proofs.Machine.Layout
import IonLang.Proofs.Machine.Output

/-!
# Monitored runs

Between two instructions a session prints, copies bytes to a file and collects the pending bytes of
the machine. The machine does not notice: it passes through the states of the plain run, with no
bytes pending, and the chunks that are collected make up its output. `run_follows_run` says so.
-/

namespace IonLang.Monitor

open Machine (Run withPending)

/-- An instruction of a monitored run, and the machine before its bytes are collected. -/
structure Round where
  time : Nat
  pc : Nat
  inst : Instruction
  machine : Machine

def Round.chunk (round : Round) : Array UInt8 := round.machine.takePending.1

def Round.text (watch : Watch) (serial : Serial) (round : Round) : String :=
  watch.report round.time round.pc round.inst round.machine ++ serial.text round.chunk

namespace Session

def roundsFrom (time : Nat) (s : Session) : Nat → List Round
  | 0 => []
  | limit + 1 =>
    match Machine.step s.machine with
    | .error _ _ => []
    | .ok (pc, inst) machine =>
      let after := { s with machine }.observe time pc inst
      ⟨time, pc, inst, machine⟩ ::
        if after.machine.isTerminated then [] else roundsFrom (time + 1) after limit

def rounds (s : Session) (limit : Nat) : List Round := roundsFrom 0 s limit

variable (s : Session)

/-! ### What collecting changes -/

theorem copy_frame (chunk : Array UInt8) :
    (s.copy chunk).machine = s.machine ∧ (s.copy chunk).watch = s.watch ∧
      (s.copy chunk).serial.styled = s.serial.styled ∧ (s.copy chunk).stdout = s.stdout := by
  unfold copy
  split
  · exact ⟨rfl, rfl, rfl, rfl⟩
  · split
    · exact ⟨rfl, rfl, rfl, rfl⟩
    · exact ⟨rfl, rfl, rfl, rfl⟩

theorem observe_frame (time pc : Nat) (inst : Instruction) :
    (s.observe time pc inst).machine = s.machine.withPending #[] ∧
      (s.observe time pc inst).watch = s.watch ∧
      (s.observe time pc inst).serial.styled = s.serial.styled ∧
      (s.observe time pc inst).stdout =
        s.stdout ++ Round.text s.watch s.serial ⟨time, pc, inst, s.machine⟩ := by
  unfold observe collect
  obtain ⟨machine, watch, styled, stdout⟩ := copy_frame
    { s with
      machine := s.machine.takePending.2
      stdout := s.stdout ++ s.watch.report time pc inst s.machine ++
        s.serial.text s.machine.takePending.1 } s.machine.takePending.1
  refine ⟨machine, watch, styled, stdout.trans ?_⟩
  exact String.append_assoc

theorem text_congr {watch : Watch} {serial serial' : Serial} (same : serial'.styled = serial.styled) :
    Round.text watch serial' = Round.text watch serial := by
  funext round
  simp only [Round.text, Serial.text, same]

/-! ### The run -/

/-- One round: the session's machine goes where the plain machine goes, and what was written is
collected. -/
theorem round_follows {m m₁ : Machine} {pc : Nat} {inst : Instruction} (time : Nat)
    (same : s.machine = m.withPending #[]) (done : Machine.step m = .ok (pc, inst) m₁) :
    ∃ machine after, Machine.step s.machine = .ok (pc, inst) machine ∧
      { s with machine }.observe time pc inst = after ∧
      after.machine = m₁.withPending #[] ∧
      after.machine.output.toList = s.machine.output.toList ++ machine.pending.toList ∧
      after.watch = s.watch ∧ after.serial.styled = s.serial.styled ∧
      after.stdout = s.stdout ++ Round.text s.watch s.serial ⟨time, pc, inst, machine⟩ := by
  have stepped := Machine.writes_step m #[]
  rw [done, ← same] at stepped
  obtain ⟨bytes, _, output, _, again⟩ := stepped
  refine ⟨_, _, again, rfl, ?_⟩
  obtain ⟨machine, watch, styled, stdout⟩ :=
    observe_frame { s with machine := m₁.withPending ((#[] : Array UInt8) ++ bytes) } time pc inst
  refine ⟨machine, ?_, watch, styled, stdout⟩
  rw [machine, same]
  simp [withPending, output]

/-- A session that went through the rounds has ended as the plain run did, and it has collected and
printed all that was written. -/
structure Follows (rounds : List Round) (run : Run)
    (result : Session × Option (Nat × Machine.Fault)) : Prop where
  machine : result.1.machine = run.machine.withPending #[]
  fault : result.2 = run.fault.map fun fault => (run.steps, fault)
  output : result.1.machine.output.toList =
    s.machine.output.toList ++ rounds.flatMap fun round => round.chunk.toList
  stdout : result.1.stdout = s.stdout ++ String.join (rounds.map (Round.text s.watch s.serial))

/-- A session that has nothing pending follows the plain run of any machine that differs from its
own in the pending bytes at most. -/
theorem runFrom_follows (limit time : Nat) (m : Machine) (running : m.exit = none)
    (same : s.machine = m.withPending #[]) :
    s.Follows (s.roundsFrom time limit) (Machine.runFrom time m limit) (s.runFrom time limit) := by
  induction limit generalizing time m s with
  | zero => exact ⟨same, rfl, by simp [roundsFrom, runFrom], by simp [roundsFrom, runFrom]⟩
  | succ limit ih =>
    unfold roundsFrom runFrom Machine.runFrom
    simp only [Machine.isTerminated, running, Option.isSome_none, Bool.false_eq_true, ↓reduceIte]
    cases done : Machine.step m with
    | error fault m₁ =>
      have stepped := Machine.writes_step m #[]
      rw [done, ← same] at stepped
      obtain ⟨output, _, again⟩ := stepped
      have kept : (m₁.withPending #[]).output = s.machine.output := by
        rw [same]
        exact output
      simp only [again]
      exact ⟨rfl, rfl, by simp [kept], by simp⟩
    | ok executed m₁ =>
      obtain ⟨pc, inst⟩ := executed
      obtain ⟨machine, after, again, observed, follows, output, watch, styled, stdout⟩ :=
        s.round_follows time same done
      have exit : after.machine.exit = m₁.exit := by
        rw [follows]
        rfl
      simp only [again, observed, exit]
      -- The plain run asks before the next instruction whether the program has exited.
      cases ended : m₁.exit with
      | some status =>
        rw [Machine.runFrom_terminated ended]
        refine ⟨follows, rfl, ?_, ?_⟩
        · simp [output, Round.chunk, Machine.takePending]
        · simp [stdout]
      | none =>
        have rest := ih after (time + 1) m₁ ended follows
        refine ⟨rest.machine, rest.fault, ?_, ?_⟩
        · simp [rest.output, output, Round.chunk, Machine.takePending]
        · simp [rest.stdout, stdout, watch, text_congr styled, String.append_assoc]

/-- A session goes through the states of the plain run. It ends without a fault where that does, in
the same state with nothing pending, or with the same fault. The chunks that it collects are, one
after the other, the whole output, and they are printed in this order. -/
theorem run_follows_run (unit : Assembly) (loaded : Machine.load unit = .ok s.machine) (limit : Nat) :
    (match Machine.run unit limit with
      | .ok m => (s.run limit).2 = none ∧ (s.run limit).1.machine = m.withPending #[]
      | .error fault => ∃ time, (s.run limit).2 = some (time, fault) ∧
        (s.run limit).1.machine = (Machine.runFrom 0 s.machine limit).machine.withPending #[]) ∧
    ((s.rounds limit).flatMap fun round => round.chunk.toList) =
      (s.run limit).1.machine.output.toList ∧
    (s.run limit).1.stdout =
      s.stdout ++ String.join ((s.rounds limit).map (Round.text s.watch s.serial)) := by
  obtain ⟨silent, collected, running⟩ := Machine.load_fresh loaded
  have same : s.machine = s.machine.withPending #[] := by
    rw [withPending, ← collected]
  have follows := s.runFrom_follows limit 0 s.machine running same
  refine ⟨?_, ?_, follows.stdout⟩
  · have fault : (s.run limit).2 = _ := follows.fault
    have machine : (s.run limit).1.machine = _ := follows.machine
    rw [Machine.run_eq loaded rfl]
    cases ended : (Machine.runFrom 0 s.machine limit).fault with
    | none =>
      rw [ended] at fault
      exact ⟨fault, machine⟩
    | some cause =>
      rw [ended] at fault
      exact ⟨_, fault, machine⟩
  · have output := follows.output
    rw [silent] at output
    exact output.symm

/-- A byte that is written twice before the stack runs out. -/
theorem run_follows_run_underflow :
    let unit : Assembly :=
      ⟨[.reserve "x" .qword 1, .label "_start" none, .inst (.mov (.mem "x") (.imm "65")),
        .inst (.mov (.reg .rax) (.imm "1")), .inst (.mov (.reg .rsi) (.addr "x")),
        .inst (.mov (.reg .rdx) (.imm "1")), .inst .syscall, .inst .syscall, .inst .ret]⟩
    ∃ s : Session, s.watch.all = true ∧ Machine.load unit = .ok s.machine ∧
      (∃ time, (s.run 20).2 = some (time, .stackUnderflow 6)) ∧
      ((s.rounds 20).flatMap fun round => round.chunk.toList) = [65, 65] := by
  intro unit
  have facts : ((Machine.load unit).toOption.map fun m =>
      ((Machine.runFrom 0 m 20).fault, (Machine.runFrom 0 m 20).machine.output.toList)) =
      some (some (.stackUnderflow 6), [65, 65]) := by decide +kernel
  cases loaded : Machine.load unit with
  | error fault => simp [loaded, Except.toOption] at facts
  | ok m =>
    simp only [loaded, Except.toOption, Option.map_some, Option.some.injEq, Prod.mk.injEq] at facts
    obtain ⟨failed, output⟩ := facts
    have follows := run_follows_run { machine := m, watch := { all := true } } unit loaded 20
    rw [Machine.run_eq loaded rfl, failed] at follows
    obtain ⟨⟨time, fault, machine⟩, chunks, _⟩ := follows
    refine ⟨_, rfl, rfl, ⟨time, fault⟩, chunks.trans ?_⟩
    rw [machine]
    exact output

end Session

end IonLang.Monitor
