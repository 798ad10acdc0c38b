import IonLang.Grammar.Definition
import IonLang.Proofs.Sequence

/-!
# Runs of parse steps

Lemmas that take a run of a rule apart: `bind_ok` opens a sequence and `repeatUntilDone_ok` a loop,
and the rest say what the single steps return and where they leave the state.
-/

namespace IonLang.Grammar

variable {α β : Type} {s s' : State}

/-! ### Loops -/

/-- What holds before a loop and is kept by its rounds gives what its last round gives. -/
theorem iterate_ok {step : β → Parser (ForInStep β)} {I Q : β → State → Prop}
    (again : ∀ v s₁ w s₂, I v s₁ → step v s₁ = .ok (.yield w) s₂ → I w s₂)
    (last : ∀ v s₁ w s₂, I v s₁ → step v s₁ = .ok (.done w) s₂ → Q w s₂)
    {rounds : Nat} {v w : β} (start : I v s) (h : iterate step rounds v s = .ok w s') : Q w s' := by
  induction rounds generalizing v s with
  | zero => cases h
  | succ rounds ih =>
    simp only [iterate] at h
    split at h
    · next round => cases h; exact last _ _ _ _ start round
    · next round => exact ih (again _ _ _ _ start round) h
    · cases h

theorem repeatUntilDone_ok {step : β → Parser (ForInStep β)} {I Q : β → State → Prop}
    (again : ∀ v s₁ w s₂, I v s₁ → step v s₁ = .ok (.yield w) s₂ → I w s₂)
    (last : ∀ v s₁ w s₂, I v s₁ → step v s₁ = .ok (.done w) s₂ → Q w s₂)
    {v w : β} (start : I v s) (h : repeatUntilDone step v s = .ok w s') : Q w s' :=
  iterate_ok again last start h

/-! ### Steps that look at the state -/

@[simp] theorem observe_bind (g : State → α) (f : α → Parser β) :
    (observe g >>= f) s = f (g s) s := rfl

@[simp] theorem peekKind_bind (f : Token.Kind → Parser β) : (peekKind >>= f) s = f s.kind s := rfl

@[simp] theorem position_bind (f : Position → Parser β) : (position >>= f) s = f s.position s := rfl

@[simp] theorem current_bind (f : Token → Parser β) : (current >>= f) s = f s.current s := rfl

@[simp] theorem skip_bind (f : Unit → Parser β) : (skip >>= f) s = f () s.next.2 := rfl

/-- Names the next kind, for the rules that decide by it. -/
theorem peekKind_ok {f : Token.Kind → Parser β} {b : β} (h : (peekKind >>= f) s = .ok b s') :
    ∃ kind, s.kind = kind ∧ f kind s = .ok b s' :=
  ⟨s.kind, rfl, h⟩

theorem unexpected_ne_ok {expected : String} {a : α} :
    (unexpected expected : Parser α) s ≠ .ok a s' := nofun

/-- A kind other than the end of the file is that of an unread token. -/
theorem unread_of_kind {kind : Token.Kind} (h : s.kind = kind) (real : kind ≠ .eof) :
    ∃ token rest, s.unread = token :: rest ∧ token.kind = kind := by
  cases tokens : s.unread with
  | nil =>
    simp only [State.kind, State.current, tokens, List.head?_nil, Option.getD_none] at h
    exact absurd h.symm real
  | cons token rest =>
    simp only [State.kind, State.current, tokens, List.head?_cons, Option.getD_some] at h
    exact ⟨token, rest, rfl, h⟩

/-- Consuming a token changes what is unread and the position that was passed last. -/
theorem next_frame (s : State) :
    s.next.2.errors = s.errors ∧ s.next.2.nodes = s.nodes ∧ s.next.2.symbols = s.symbols ∧
      s.next.2.types = s.types := by
  unfold State.next
  repeat' split
  all_goals exact ⟨rfl, rfl, rfl, rfl⟩

/-! ### Names -/

theorem name_ok {found : String × Position} (h : name s = .ok found s') :
    s.kind = .ident found.1 ∧ s' = s.next.2 := by
  unfold name at h
  rw [position_bind] at h
  obtain ⟨kind, next, h⟩ := peekKind_ok h
  split at h
  · cases h; exact ⟨next, rfl⟩
  · exact absurd h unexpected_ne_ok

theorem rejectTypeName_ok {text : String} {pos : Position} {rejected : Bool}
    (h : rejectTypeName text pos s = .ok rejected s') :
    rejected = s.types.contains text ∧
      s' = if s.types.contains text then s.record (.typeNotAllowed text pos) else s := by
  simp only [rejectTypeName, isTypeName, observe_bind] at h
  split at h
  · next known => cases h; simp [known]
  · next unknown => cases h; simp [unknown]

theorem recover_ok {result : Except Diagnostic α} {found : Option α}
    (h : recover result s = .ok found s') :
    (∃ value, result = .ok value ∧ found = some value ∧ s' = s) ∨
      (∃ diagnostic, result = .error diagnostic ∧ found = none ∧ s' = s.record diagnostic) := by
  cases result with
  | ok value => cases h; exact .inl ⟨value, rfl, rfl, rfl⟩
  | error diagnostic => cases h; exact .inr ⟨diagnostic, rfl, rfl, rfl⟩

theorem lookupVariable_ok {text : String} {pos : Position} {var : Option VarId}
    (h : lookupVariable text pos s = .ok var s') :
    var = s.symbols.findVariable? text ∧
      s' = if var.isSome then s else s.record (.unknownVariable text pos) := by
  simp only [lookupVariable, observe_bind, Symbols.lookupVariable] at h
  cases found : s.symbols.findVariable? text with
  | none => rw [found] at h; cases h; exact ⟨rfl, rfl⟩
  | some id => rw [found] at h; cases h; exact ⟨rfl, rfl⟩

theorem lookupFunction_ok {text : String} {pos : Position} {func : Option FuncId}
    (h : lookupFunction text pos s = .ok func s') :
    func = s.symbols.findFunction? text ∧
      s' = if func.isSome then s else s.record (.unknownFunction text pos) := by
  simp only [lookupFunction, observe_bind, Symbols.lookupFunction] at h
  cases found : s.symbols.findFunction? text with
  | none => rw [found] at h; cases h; exact ⟨rfl, rfl⟩
  | some id => rw [found] at h; cases h; exact ⟨rfl, rfl⟩

/-- A declaration either enters its symbol or is reported. -/
theorem declare_ok {declaration : Symbols → Except Diagnostic (α × Symbols)} {value : Option α}
    (h : declare declaration s = .ok value s') :
    (∃ a symbols, declaration s.symbols = .ok (a, symbols) ∧ value = some a ∧
        s' = { s with symbols }) ∨
      (∃ diagnostic, declaration s.symbols = .error diagnostic ∧ value = none ∧
        s' = s.record diagnostic) := by
  simp only [declare] at h
  split at h
  · next a symbols declared => cases h; exact .inl ⟨a, symbols, declared, rfl, rfl⟩
  · next diagnostic failed => cases h; exact .inr ⟨diagnostic, failed, rfl, rfl⟩

theorem declareVariable_ok {text : String} {type : DataType} {pos : Position}
    {var : Option VarId} (h : declareVariable text type pos s = .ok var s') :
    declare (fun symbols => symbols.declareVariable text type pos)
      (if type.isVoid then s.record (.typeNotAllowed type.render pos) else s) = .ok var s' := by
  unfold declareVariable at h
  split at h
  · next void => rw [if_pos void]; exact h
  · next solid => rw [if_neg solid]; exact h

/-! ### Definitions -/

/-- The last round leaves the state alone, at the end of the file. -/
theorem definitionRound_done {a b : Unit} (h : definitionRound a s = .ok (.done b) s') :
    s' = s ∧ s.kind = .eof := by
  obtain ⟨kind, next, h⟩ := peekKind_ok h
  split at h
  · cases h
    exact ⟨rfl, next⟩
  · obtain ⟨_, s₁, read, finish⟩ := bind_ok h
    cases finish
  · obtain ⟨_, s₁, read, finish⟩ := bind_ok h
    cases finish
  · obtain ⟨_, s₁, read, finish⟩ := bind_ok h
    cases finish
  · exact absurd h unexpected_ne_ok

end IonLang.Grammar
