import IonLang.Proofs.Machine.Execution

/-!
# What instructions write

An instruction does the same whatever bytes are pending. The bytes that it writes go to the output
and to the pending ones alike, and a fault comes before anything is written: `writes_step`.
-/

namespace IonLang.Machine

def withPending (m : Machine) (bytes : Array UInt8) : Machine := { m with pending := bytes }

variable {α β : Type} {permitted : List UInt8 → Prop}

/-- The effect does not see the pending bytes, and adds to them what it adds to the output, which is
permitted. If it fails, it has not written anything. -/
def Writes (permitted : List UInt8 → Prop) (effect : Effect α) : Prop :=
  ∀ m waiting, match effect m with
    | .ok a m' => ∃ bytes, permitted bytes ∧ m'.output = m.output ++ bytes ∧
      m'.pending = m.pending ++ bytes ∧
      effect (m.withPending waiting) = .ok a (m'.withPending (waiting ++ bytes))
    | .error fault m' => m'.output = m.output ∧ m'.pending = m.pending ∧
      effect (m.withPending waiting) = .error fault (m'.withPending waiting)

abbrev Silent (effect : Effect α) : Prop := Writes (· = []) effect

namespace Writes

theorem mono {effect : Effect α} (writes : Writes permitted effect) {other : List UInt8 → Prop}
    (wider : ∀ bytes, permitted bytes → other bytes) : Writes other effect := by
  intro m waiting
  have before := writes m waiting
  cases done : effect m with
  | ok a m₁ =>
    rw [done] at before
    obtain ⟨bytes, allowed, same⟩ := before
    exact ⟨bytes, wider bytes allowed, same⟩
  | error fault m₁ =>
    rw [done] at before
    exact before

theorem after {first : Effect α} {next : α → Effect β} (silent : Silent first)
    (rest : ∀ a, Writes permitted (next a)) : Writes permitted (first >>= next) := by
  intro m waiting
  have before := silent m waiting
  simp only [Bind.bind, EStateM.bind]
  cases done : first m with
  | ok a m₁ =>
    rw [done] at before
    obtain ⟨_, rfl, output, pending, again⟩ := before
    rw [Array.appendList_nil] at output pending again
    have behind := rest a m₁ waiting
    rw [output, pending] at behind
    simpa only [again] using behind
  | error fault m₁ =>
    rw [done] at before
    obtain ⟨output, pending, again⟩ := before
    exact ⟨output, pending, by simp only [again]⟩

theorem returning {effect : Effect Unit} (writes : Writes permitted effect) (value : α) :
    Writes permitted (effect >>= fun _ => pure value) := by
  intro m waiting
  have before := writes m waiting
  simp only [Bind.bind, EStateM.bind]
  cases done : effect m with
  | ok a m₁ =>
    rw [done] at before
    obtain ⟨bytes, allowed, output, pending, again⟩ := before
    exact ⟨bytes, allowed, output, pending, by simp only [again]; rfl⟩
  | error fault m₁ =>
    rw [done] at before
    obtain ⟨output, pending, again⟩ := before
    exact ⟨output, pending, by simp only [again]⟩

end Writes

namespace Silent

theorem pure (a : α) : Silent (Pure.pure a : Effect α) := fun _ _ => ⟨[], rfl, rfl, rfl, rfl⟩

theorem throw (fault : Fault) : Silent (MonadExcept.throw fault : Effect α) :=
  fun _ _ => ⟨rfl, rfl, rfl⟩

theorem observe {f : Machine → α} (blind : ∀ m waiting, f (m.withPending waiting) = f m) :
    Silent (Machine.observe f) := by
  intro m waiting
  refine ⟨[], rfl, rfl, rfl, ?_⟩
  rw [Machine.observe, blind]
  rfl

theorem update {f : Machine → Machine} (output : ∀ m, (f m).output = m.output)
    (pending : ∀ m, (f m).pending = m.pending)
    (blind : ∀ m waiting, f (m.withPending waiting) = (f m).withPending waiting) :
    Silent (Machine.update f) := by
  intro m waiting
  refine ⟨[], rfl, output m, pending m, ?_⟩
  rw [Machine.update, blind]
  rfl

theorem query {f : Machine → Except Fault α} (blind : ∀ m waiting, f (m.withPending waiting) = f m) :
    Silent (Machine.query f) := by
  intro m waiting
  simp only [Machine.query, blind]
  cases f m with
  | ok value => exact ⟨[], rfl, rfl, rfl, rfl⟩
  | error fault => exact ⟨rfl, rfl, rfl⟩

theorem popEntry (pc : Nat) : Silent (Machine.popEntry pc) := by
  intro m waiting
  obtain ⟨registers, zero, carry, data, symbols, code, labels, pc, stack, output, pending, exit⟩ := m
  cases stack with
  | nil => exact ⟨rfl, rfl, rfl⟩
  | cons entry rest => exact ⟨[], rfl, rfl, rfl, rfl⟩

theorem set (reg : Register) (value : Machine → UInt64)
    (blind : ∀ m waiting, value (m.withPending waiting) = value m) :
    Silent (Machine.update fun m => m.set reg (value m)) := by
  refine update (fun _ => rfl) (fun _ => rfl) fun m waiting => ?_
  rw [blind]
  rfl

theorem jump (place : Nat) : Silent (Machine.jump place) :=
  update (fun _ => rfl) (fun _ => rfl) fun _ _ => rfl

theorem pushEntry (entry : Nat) : Silent (Machine.pushEntry entry) :=
  update (fun _ => rfl) (fun _ => rfl) fun _ _ => rfl

theorem setFlags (result : UInt64) (carry : Bool) : Silent (Machine.setFlags result carry) :=
  update (fun _ => rfl) (fun _ => rfl) fun _ _ => rfl

theorem setZero (result : UInt64) : Silent (Machine.setZero result) :=
  update (fun _ => rfl) (fun _ => rfl) fun _ _ => rfl

theorem read (size : Nat) (op : Operand) : Silent (Machine.read size op) := by
  cases op with
  | reg reg => exact observe fun _ _ => rfl
  | imm text =>
    intro m waiting
    cases denotes : Text.wordOf? text with
    | some word =>
      rw [read_imm denotes, read_imm denotes]
      exact ⟨[], rfl, rfl, rfl, rfl⟩
    | none =>
      rw [read_imm_error denotes, read_imm_error denotes]
      exact ⟨rfl, rfl, rfl⟩
  | mem label => exact query fun _ _ => rfl
  | addr label => exact query fun _ _ => rfl

theorem write (size : Nat) (value : UInt64) (op : Operand) :
    Silent (Machine.write size value op) := by
  cases op with
  | reg reg => exact set reg (fun _ => value) fun _ _ => rfl
  | imm text => exact throw _
  | addr text => exact throw _
  | mem label =>
    intro m waiting
    have same : (m.withPending waiting).address label = m.address label := rfl
    simp only [Machine.write, attempt, same, Bind.bind, Except.bind]
    cases m.address label with
    | error fault => exact ⟨rfl, rfl, rfl⟩
    | ok address =>
      have size' : (m.withPending waiting).data.size = m.data.size := rfl
      simp only [writeMemory, size']
      by_cases fits : address + size ≤ m.data.size
      · simp only [if_pos fits]
        exact ⟨[], rfl, rfl, rfl, rfl⟩
      · simp only [if_neg fits, and_self]

theorem execute (pc : Nat) (i : Instruction) (plain : i ≠ .syscall) :
    Silent (Machine.execute pc i) := by
  cases i with
  | mov dst src => exact .after (read _ src) fun _ => write _ _ dst
  | movzx dst src => exact set dst (fun m => m.get src) fun _ _ => rfl
  | add dst src | sub dst src =>
    exact .after (read 8 dst) fun _ => .after (read 8 src) fun _ => .after (setFlags _ _) fun _ =>
      write 8 _ dst
  | imul dst src =>
    exact .after (observe fun _ _ => rfl) fun _ => .after (read 8 src) fun _ =>
      set dst (fun _ => _) fun _ _ => rfl
  | neg reg =>
    exact .after (observe fun _ _ => rfl) fun _ => .after (setFlags _ _) fun _ =>
      set reg (fun _ => _) fun _ _ => rfl
  | inc op | dec op =>
    exact .after (read 8 op) fun _ => .after (setZero _) fun _ => write 8 _ op
  | cmp lhs rhs => exact .after (read 8 lhs) fun _ => .after (read 8 rhs) fun _ => setFlags _ _
  | set cond reg =>
    exact set reg (fun m => if cond.holds m.zero m.carry then 1 else 0) fun _ _ => rfl
  | push reg => exact .after (observe fun _ _ => rfl) fun _ => pushEntry _
  | pop reg => exact .after (popEntry pc) fun _ => set reg (fun _ => _) fun _ _ => rfl
  | jmp label => exact .after (query fun _ _ => rfl) fun _ => jump _
  | jcc cond label =>
    refine .after (observe fun _ _ => rfl) fun taken => ?_
    split
    · exact .after (query fun _ _ => rfl) fun _ => jump _
    · exact pure _
  | call label =>
    exact .after (query fun _ _ => rfl) fun _ => .after (observe fun _ _ => rfl) fun _ =>
      .after (pushEntry _) fun _ => jump _
  | ret => exact .after (popEntry pc) fun _ => jump _
  | syscall => exact absurd rfl plain

end Silent

theorem readBuffer_withPending (m : Machine) (waiting : Array UInt8) (address : UInt64)
    (length : Nat) :
    (m.withPending waiting).readBuffer address length = m.readBuffer address length := by
  induction length generalizing address with
  | zero => rfl
  | succ length ih =>
    unfold readBuffer
    rw [ih]
    rfl

theorem writes_systemCall : Writes (fun _ => True) systemCall := by
  refine .after (.observe fun _ _ => rfl) fun number => ?_
  split
  · refine .after (.observe fun _ _ => rfl) fun length => ?_
    refine .after (.query fun m waiting => readBuffer_withPending m waiting _ _) fun bytes => ?_
    -- Nothing can fail any more, so the bytes are written.
    exact fun m waiting => ⟨bytes, trivial, rfl, rfl, rfl⟩
  · split
    · have silent : Silent (update fun m => { m with exit := some (m.get .rdi) }) :=
        .update (fun _ => rfl) (fun _ => rfl) fun _ _ => rfl
      exact silent.mono fun _ _ => trivial
    · exact (Silent.throw _).mono fun _ _ => trivial

/-- An instruction does not see the pending bytes, and adds to them what it adds to the output. -/
theorem writes_step : Writes (fun _ => True) step := by
  refine .after (.observe fun _ _ => rfl) fun pc => .after (.observe fun _ _ => rfl) fun fetched => ?_
  cases fetched with
  | none => exact (Silent.throw _).mono fun _ _ => trivial
  | some i =>
    refine .after (.jump _) fun _ => .returning ?_ _
    by_cases plain : i = .syscall
    · rw [plain, execute_syscall]
      exact writes_systemCall
    · exact (Silent.execute pc i plain).mono fun _ _ => trivial

end IonLang.Machine
