import IonLang.Proofs.Grammar.Forest
import IonLang.Proofs.Grammar.Spelling

/-!
# Every rule consumes tokens and comes to an end

The rounds of a loop and the depth of a descent are bounded by the number of unread tokens. A rule
that returns has consumed a token, and so has every round of a loop but the last, so the bounds are
never met: a parse returns, or it stops with a fatal diagnostic. `Ends` says so of one run, and
`Ends.definitions` of a whole parse.
-/

namespace IonLang.Grammar

variable {α β : Type} {s : State}

/-- A run that begins with `length` unread tokens returns with `used` of them consumed, or it stops
with a fatal diagnostic. -/
def Ends (length : Nat) (used : α → Nat) : EStateM.Result Stop State α → Prop
  | .ok a s => s.unread.length + used a ≤ length
  | .error stop _ => ∃ diagnostic, stop = .fatal diagnostic ∧ diagnostic.isFatal = true

/-- The parser consumes a token whenever fewer than `limit` tokens are unread. -/
def Consumes (limit : Nat) (p : Parser α) : Prop :=
  ∀ s, s.unread.length < limit → Ends s.unread.length (fun _ => 1) (p s)

theorem length_next_le (s : State) : s.next.2.unread.length ≤ s.unread.length :=
  (next_unread s).length_le

theorem length_next_lt (real : s.kind ≠ .eof) : s.next.2.unread.length + 1 ≤ s.unread.length := by
  obtain ⟨token, rest, unread, same⟩ := unread_of_kind rfl real
  rw [next_eq unread (same ▸ real), unread, List.length_cons]

theorem kind_congr {s' : State} (same : s'.unread = s.unread) (real : s.kind ≠ .eof) :
    s'.kind = s.kind := by
  obtain ⟨token, rest, unread, _⟩ := unread_of_kind rfl real
  rw [kind_eq unread, kind_eq (same.trans unread)]

theorem length_expectOr_le (accept : Token.Kind → Bool) (complaint : Token → Diagnostic) (s : State) :
    (s.expectOr accept complaint).2.unread.length ≤ s.unread.length := by
  unfold State.expectOr
  rcases consumeIf_cases s accept with ⟨_, consumed, _⟩ | kept
  · rw [consumed]
    exact length_next_le s
  · rw [kept]
    exact length_next_le (s.record (complaint s.current))

-- A mismatch is skipped, so the token goes either way.
theorem length_expectOr_lt {accept : Token.Kind → Bool} {complaint : Token → Diagnostic}
    (real : s.kind ≠ .eof) :
    (s.expectOr accept complaint).2.unread.length + 1 ≤ s.unread.length := by
  unfold State.expectOr
  rcases consumeIf_cases s accept with ⟨_, consumed, _⟩ | kept
  · rw [consumed]
    exact length_next_lt real
  · rw [kept]
    exact length_next_lt (s := s.record (complaint s.current)) real

namespace Ends

variable {length other limit : Nat} {used later : α → Nat}

/-! ### Sequences and loops -/

theorem weaken {result : EStateM.Result Stop State α} (ends : Ends length used result)
    (enough : ∀ a, later a + length ≤ used a + other) : Ends other later result := by
  cases result with
  | ok a s =>
    have consumed : s.unread.length + used a ≤ length := ends
    have := enough a
    show s.unread.length + later a ≤ other
    omega
  | error stop s => exact ends

theorem ne_exhausted {run : EStateM.Result Stop State α} (ends : Ends length used run) (s : State) :
    run ≠ .error .exhausted s := by
  rintro rfl
  obtain ⟨diagnostic, unmet, _⟩ := ends
  cases unmet

theorem pure {a : α} (consumed : s.unread.length + used a ≤ length) :
    Ends length used ((Pure.pure a : Parser α) s) := consumed

theorem bind {p : Parser α} {f : α → Parser β} {last : β → Nat} (first : Ends length used (p s))
    (rest : ∀ a s₁, s₁.unread.length + used a ≤ length → Ends other last (f a s₁)) :
    Ends other last ((p >>= f) s) := by
  simp only [Bind.bind, EStateM.bind]
  cases run : p s with
  | ok a s₁ =>
    rw [run] at first
    exact rest a s₁ first
  | error stop s₁ =>
    rw [run] at first
    exact first

theorem map {p : Parser α} {f : α → β} (ends : Ends length (fun _ => 1) (p s)) :
    Ends length (fun _ => 1) ((f <$> p) s) := by
  simp only [Functor.map, EStateM.map]
  cases run : p s with
  | ok a s₁ => rw [run] at ends; exact ends
  | error stop s₁ => rw [run] at ends; exact ends

theorem peekKind {f : Token.Kind → Parser β} {last : β → Nat}
    (rest : ∀ kind, s.kind = kind → Ends other last (f kind s)) :
    Ends other last ((Grammar.peekKind >>= f) s) := rest s.kind rfl

theorem stop {diagnostic : Diagnostic} (fatal : diagnostic.isFatal = true) :
    Ends length used ((Grammar.stop diagnostic : Parser α) s) :=
  ⟨diagnostic, rfl, fatal⟩

theorem unexpected (expected : String) :
    Ends length used ((Grammar.unexpected expected : Parser α) s) :=
  ⟨_, rfl, rfl⟩

def ofRound : ForInStep β → Nat
  | .done _ => 0
  | .yield _ => 1

theorem iterate {step : β → Parser (ForInStep β)}
    (round : ∀ value s, s.unread.length < limit → Ends s.unread.length ofRound (step value s))
    (rounds : Nat) (value : β) (s : State) (enough : s.unread.length < rounds)
    (within : s.unread.length < limit) :
    Ends s.unread.length (fun _ => 0) (Grammar.iterate step rounds value s) := by
  induction rounds generalizing value s with
  | zero => exact absurd enough (Nat.not_lt_zero _)
  | succ rounds ih =>
    have ends := round value s within
    unfold Grammar.iterate
    cases run : step value s with
    | error stop s₁ => rw [run] at ends; exact ends
    | ok result s₁ =>
      rw [run] at ends
      cases result with
      | done value => exact ends
      | yield value =>
        have shorter : s₁.unread.length + 1 ≤ s.unread.length := ends
        exact (ih value s₁ (by omega) (by omega)).weaken fun _ => by omega

theorem repeatUntilDone {step : β → Parser (ForInStep β)} (value : β)
    (round : ∀ value s, s.unread.length < limit → Ends s.unread.length ofRound (step value s))
    (within : s.unread.length < limit) :
    Ends s.unread.length (fun _ => 0) (Grammar.repeatUntilDone step value s) :=
  iterate round (s.unread.length + 1) value s (Nat.lt_succ_self _) within

/-! ### Steps over tokens -/

theorem accept (kind : Token.Kind) (s : State) :
    Ends s.unread.length Bool.toNat (Grammar.accept kind s) := by
  unfold Grammar.accept Grammar.lift
  rcases consumeIf_cases s (· == kind) with ⟨token, consumed, next, real, _⟩ | kept
  · simp only [consumed]
    exact length_next_lt (next ▸ real)
  · simp only [kept]
    exact Nat.le_refl _

theorem expect (mark : Mark) (s : State) :
    Ends s.unread.length (fun _ => 0) (Grammar.expect mark s) := length_expectOr_le _ _ s

theorem expectWord (keyword : Keyword) (s : State) :
    Ends s.unread.length (fun _ => 0) (Grammar.expectWord keyword s) := length_expectOr_le _ _ s

theorem expectWord_real (keyword : Keyword) (real : s.kind ≠ .eof) :
    Ends s.unread.length (fun _ => 1) (Grammar.expectWord keyword s) := length_expectOr_lt real

theorem record (diagnostic : Diagnostic) (s : State) :
    Ends s.unread.length (fun _ => 0) (Grammar.record diagnostic s) := Nat.le_refl _

theorem recover (result : Except Diagnostic α) (s : State) :
    Ends s.unread.length (fun _ => 0) (Grammar.recover result s) := by
  cases result <;> exact Nat.le_refl _

theorem build (node : Nat → Node) (s : State) :
    Ends s.unread.length (fun _ => 0) (Grammar.build node s) := Nat.le_refl _

theorem numbers {p : Parser Node} (numbers : Numbers p) (s : State) :
    Ends s.unread.length (fun _ => 0) (p s) := by
  obtain ⟨node, n, run⟩ := numbers s
  rw [run]
  exact Nat.le_refl _

/-! ### Names and types -/

theorem name (s : State) : Ends s.unread.length (fun _ => 1) (Grammar.name s) := by
  unfold Grammar.name
  rw [position_bind]
  apply peekKind
  intro kind next
  split
  · rw [skip_bind]
    exact pure (length_next_lt (by simp [next]))
  · exact unexpected _

theorem rejectTypeName (text : String) (pos : Position) (s : State) :
    Ends s.unread.length (fun _ => 0) (Grammar.rejectTypeName text pos s) := by
  simp only [Grammar.rejectTypeName, isTypeName, observe_bind]
  split
  · exact Nat.le_refl _
  · exact Nat.le_refl _

theorem ident (s : State) : Ends s.unread.length (fun _ => 1) (Grammar.ident s) := by
  apply bind (name s)
  intro found s₁ named
  apply bind (rejectTypeName _ _ s₁)
  intro _ s₂ checked
  exact pure (by omega)

theorem stars (s : State) : Ends s.unread.length (fun _ => 0) (Grammar.stars s) := by
  refine repeatUntilDone 0 (fun depth s _ => ?_) (Nat.lt_succ_self _)
  apply bind (accept (.mark .star) s)
  intro found s₁ consumed
  cases found with
  | true => exact pure consumed
  | false => exact pure consumed

theorem typeName (s : State) : Ends s.unread.length (fun _ => 1) (Grammar.typeName s) := by
  apply bind (name s)
  rintro ⟨text, pos⟩ s₁ named
  dsimp only
  rw [observe_bind]
  apply bind (recover _ s₁)
  intro base s₂ resolved
  apply bind (stars s₂)
  intro depth s₃ starred
  exact pure (by omega)

theorem declare (declaration : Symbols → Except Diagnostic (α × Symbols)) (s : State) :
    Ends s.unread.length (fun _ => 0) (Grammar.declare declaration s) := by
  unfold Grammar.declare
  cases declaration s.symbols with
  | ok entered => exact Nat.le_refl _
  | error diagnostic => exact Nat.le_refl _

theorem declareVariable (text : String) (type : DataType) (pos : Position) (s : State) :
    Ends s.unread.length (fun _ => 0) (Grammar.declareVariable text type pos s) := by
  unfold Grammar.declareVariable
  split
  · exact bind (record _ s) fun _ s₁ recorded => (declare _ s₁).weaken fun _ => by omega
  · exact declare _ s

theorem lookupVariable (text : String) (pos : Position) (s : State) :
    Ends s.unread.length (fun _ => 0) (Grammar.lookupVariable text pos s) := recover _ s

theorem lookupFunction (text : String) (pos : Position) (s : State) :
    Ends s.unread.length (fun _ => 0) (Grammar.lookupFunction text pos s) := recover _ s

/-! ### Expressions -/

theorem operatorOr {find : Token.Kind → Option α} (noEof : find .eof = none) (refused : Mark)
    (construct : String) (s : State) :
    Ends s.unread.length (fun op => op.isSome.toNat) (Grammar.operatorOr find refused construct s) := by
  unfold Grammar.operatorOr
  rw [peekKind_bind]
  cases isOp : find s.kind with
  | some op =>
    have real : s.kind ≠ .eof := by
      intro atEnd
      rw [atEnd, noEof] at isOp
      cases isOp
    exact length_next_lt real
  | none =>
    dsimp only
    split
    · exact stop rfl
    · exact Nat.le_refl _

theorem binaryOperator (s : State) :
    Ends s.unread.length (fun op => op.isSome.toNat) (Grammar.binaryOperator s) :=
  operatorOr rfl _ _ s

theorem assignOperator (s : State) :
    Ends s.unread.length (fun op => op.isSome.toNat) (Grammar.assignOperator s) :=
  operatorOr rfl _ _ s

theorem operatorTail {primary : Parser Node} (operand : Consumes limit primary)
    (within : s.unread.length < limit) :
    Ends s.unread.length (fun _ => 0) (Grammar.operatorTail primary s) := by
  refine repeatUntilDone [] (fun pairs s within => ?_) within
  apply bind (binaryOperator s)
  intro op s₁ read
  cases op with
  | some op =>
    have shorter : s₁.unread.length + 1 ≤ s.unread.length := read
    apply bind (operand s₁ (by omega))
    intro node s₂ consumed
    show s₂.unread.length + 1 ≤ s.unread.length
    omega
  | none => exact pure read

theorem expressionOf {primary : Parser Node} (operand : Consumes limit primary) :
    Consumes limit (Grammar.expressionOf primary) := by
  intro s within
  apply bind (operand s within)
  intro first s₁ consumed
  apply bind (operatorTail operand (by omega))
  intro rest s₂ tail
  exact (numbers (.buildTree _) s₂).weaken fun _ => by omega

section Expression

variable {expression primary : Parser Node} (wide : Consumes limit expression)
  (narrow : Consumes limit primary)

include wide

theorem assignmentOf (var : Option VarId) (within : s.unread.length < limit) :
    Ends s.unread.length (fun _ => 0) (Grammar.assignmentOf expression var s) := by
  apply bind (assignOperator s)
  intro op s₁ read
  cases op with
  | some op =>
    have shorter : s₁.unread.length + 1 ≤ s.unread.length := read
    apply bind (wide s₁ (by omega))
    intro value s₂ consumed
    exact (numbers (.assignNode _ _ _) s₂).weaken fun _ => by omega
  | none => exact (numbers (.accessNode var) s₁).weaken fun _ => Nat.add_le_add_left read 0

theorem declarationOf (within : s.unread.length < limit + 1) :
    Ends s.unread.length (fun _ => 1) (Grammar.declarationOf expression s) := by
  apply bind (typeName s)
  intro type s₁ typed
  apply bind (ident s₁)
  intro found s₂ named
  apply bind (declareVariable _ _ _ s₂)
  intro var s₃ declared
  exact (assignmentOf wide var (by omega)).weaken fun _ => by omega

theorem nameOf (within : s.unread.length < limit + 1) :
    Ends s.unread.length (fun _ => 1) (Grammar.nameOf expression s) := by
  apply bind (name s)
  rintro ⟨text, pos⟩ s₁ named
  apply bind (rejectTypeName text pos s₁)
  intro rejected s₂ checked
  have value : Ends s.unread.length (fun _ => 1)
      ((Grammar.lookupVariable text pos >>= Grammar.assignmentOf expression) s₂) := by
    apply bind (lookupVariable _ _ s₂)
    intro var s₃ looked
    exact (assignmentOf wide var (by omega)).weaken fun _ => by omega
  split
  · exact (build _ s₂).weaken fun _ => by omega
  · have skipped := length_next_le s₂
    apply peekKind
    intro kind next
    split
    · rw [skip_bind]
      apply bind (expect _ s₂.next.2)
      intro _ s₃ closed
      apply bind (lookupFunction _ _ s₃)
      intro func s₄ looked
      split
      · exact (build _ s₄).weaken fun _ => by omega
      · exact (build _ s₄).weaken fun _ => by omega
    · cases direction? kind with
      | some direction =>
        dsimp only
        rw [skip_bind]
        apply bind (lookupVariable _ _ s₂.next.2)
        intro var s₃ looked
        exact (numbers (.stepNode _ _ _) s₃).weaken fun _ => by omega
      | none => exact value

omit wide

theorem steppedVariable (s : State) :
    Ends s.unread.length (fun _ => 1) (Grammar.steppedVariable s) := by
  apply bind (name s)
  rintro ⟨text, pos⟩ s₁ named
  apply bind (rejectTypeName text pos s₁)
  intro rejected s₂ checked
  split
  · exact pure (by omega)
  · exact (lookupVariable _ _ s₂).weaken fun _ => by omega

theorem steppedNode (direction : Direction) (s : State) :
    Ends s.unread.length (fun _ => 1)
      ((Grammar.skip >>= fun _ => Grammar.steppedVariable >>= Grammar.stepNode direction .before) s) := by
  have skipped := length_next_le s
  rw [skip_bind]
  apply bind (steppedVariable s.next.2)
  intro var s₁ named
  exact (numbers (.stepNode _ _ var) s₁).weaken fun _ => by omega

include narrow

theorem unaryOf (op : UnaryOp) (real : s.kind ≠ .eof) (within : s.unread.length < limit + 1) :
    Ends s.unread.length (fun _ => 1) (Grammar.unaryOf op primary s) := by
  have skipped := length_next_lt real
  unfold Grammar.unaryOf
  rw [skip_bind]
  apply bind (narrow s.next.2 (by omega))
  intro operand s₁ consumed
  exact (build _ s₁).weaken fun _ => by omega

include wide

-- Every form begins with a token of its own, so its parts are read with one token less.
theorem primaryOf : Consumes (limit + 1) (Grammar.primaryOf expression primary) := by
  intro s within
  apply peekKind
  intro kind next
  split
  · have skipped := length_next_lt (s := s) (by simp [next])
    rw [skip_bind]
    apply bind (wide s.next.2 (by omega))
    intro inner s₁ consumed
    apply bind (expect _ s₁)
    intro _ s₂ closed
    exact pure (by omega)
  · exact unaryOf narrow _ (by simp [next]) within
  · exact unaryOf narrow _ (by simp [next]) within
  · exact steppedNode _ s
  · exact steppedNode _ s
  · exact length_next_lt (by simp [next])
  · exact length_next_lt (by simp [next])
  · rw [observe_bind]
    split
    · exact declarationOf wide within
    · exact nameOf wide within
  · exact unexpected _

end Expression

theorem primary (depth : Nat) : Consumes depth (Grammar.primary depth) := by
  induction depth with
  | zero => exact fun s within => absurd within (Nat.not_lt_zero _)
  | succ depth ih => exact fun s within => primaryOf (expressionOf ih) ih s within

theorem expression (s : State) : Ends s.unread.length (fun _ => 1) (Grammar.expression s) :=
  expressionOf (primary (s.unread.length + 1)) s (Nat.lt_succ_self _)

/-! ### Statements -/

theorem missingBrace (s : State) :
    Ends s.unread.length (fun _ => 0) (Grammar.missingBrace s) := Nat.le_refl _

theorem parenthesized (s : State) :
    Ends s.unread.length (fun _ => 1) (Grammar.parenthesized s) := by
  apply bind (expect _ s)
  intro _ s₁ opened
  apply bind (expression s₁)
  intro inner s₂ consumed
  apply bind (expect _ s₂)
  intro _ s₃ closed
  exact pure (by omega)

theorem putc (s : State) : Ends s.unread.length (fun _ => 1) (Grammar.putc s) := by
  have skipped := length_next_le s
  unfold Grammar.putc
  rw [skip_bind]
  apply bind (parenthesized s.next.2)
  intro value s₁ consumed
  apply bind (expect _ s₁)
  intro _ s₂ closed
  exact (build _ s₂).weaken fun _ => by omega

-- A report leaves the tokens alone, so the keyword that it is about is still in front.
theorem reportAfterDefault_bind (cases : Cases) (s : State) :
    ∃ s₁, s₁.unread = s.unread ∧ ∀ f : Unit → Parser β,
      (Grammar.reportAfterDefault cases >>= f) s = f () s₁ := by
  unfold Grammar.reportAfterDefault
  split
  · exact ⟨s.record (.expectedWord Mark.rcurly.spelling s.current), rfl, fun _ => rfl⟩
  · exact ⟨s, rfl, fun _ => rfl⟩

section Statement

variable {statement : Parser (Option Node)} (inner : Consumes limit statement)

include inner

theorem statementRound (body : List Node) (within : s.unread.length < limit) :
    Ends s.unread.length ofRound (Grammar.statementRound statement body s) := by
  apply peekKind
  intro kind next
  split
  · rw [skip_bind]
    exact pure (length_next_le s)
  · exact bind (missingBrace s) fun _ s₁ recorded => pure recorded
  · exact bind (inner s within) fun node s₁ consumed => pure consumed

theorem bracedBody (within : s.unread.length < limit) :
    Ends s.unread.length (fun _ => 0) (Grammar.bracedBody statement s) :=
  repeatUntilDone [] (fun body _ within => statementRound inner body within) within

-- An opening brace is a token of its own, so what it opens is read with one token less.
theorem bracedBlock (opened : s.kind = .mark .lcurly) (within : s.unread.length < limit + 1) :
    Ends s.unread.length (fun _ => 1) (Grammar.blockOf statement s) := by
  have skipped := length_next_lt (s := s) (by simp [opened])
  unfold Grammar.blockOf
  rw [bind_run (accept_of_kind opened (by simp)), if_pos rfl]
  apply bind (bracedBody inner (by omega))
  intro body s₁ closed
  exact (build _ s₁).weaken fun _ => by omega

theorem blockOf : Consumes limit (Grammar.blockOf statement) := by
  intro s within
  by_cases opened : s.kind = .mark .lcurly
  · exact bracedBlock inner opened (by omega)
  · unfold Grammar.blockOf
    rw [bind_run (accept_other opened), if_neg (by simp)]
    apply bind (inner s within)
    intro node s₁ consumed
    split
    · exact pure (by omega)
    · exact (build _ s₁).weaken fun _ => by omega

theorem ifOf (within : s.unread.length < limit + 1) :
    Ends s.unread.length (fun _ => 1) (Grammar.ifOf statement s) := by
  have skipped := length_next_le s
  unfold Grammar.ifOf
  rw [skip_bind]
  apply bind (parenthesized s.next.2)
  intro cond s₁ tested
  apply bind (blockOf inner s₁ (by omega))
  intro thenPart s₂ consumed
  apply bind (accept _ s₂)
  intro other s₃ read
  have shorter : s₃.unread.length ≤ s₂.unread.length := Nat.le_of_add_right_le read
  split
  · apply bind (blockOf inner s₃ (by omega))
    intro elsePart s₄ consumed
    exact (build _ s₄).weaken fun _ => by omega
  · exact (build _ s₃).weaken fun _ => by omega

theorem whileOf (within : s.unread.length < limit + 1) :
    Ends s.unread.length (fun _ => 1) (Grammar.whileOf statement s) := by
  have skipped := length_next_le s
  unfold Grammar.whileOf
  rw [skip_bind]
  apply bind (parenthesized s.next.2)
  intro cond s₁ tested
  apply bind (blockOf inner s₁ (by omega))
  intro body s₂ consumed
  exact (build _ s₂).weaken fun _ => by omega

theorem doOf (within : s.next.2.unread.length < limit) :
    Ends s.unread.length (fun _ => 1) (Grammar.doOf statement s) := by
  have skipped := length_next_le s
  unfold Grammar.doOf
  rw [skip_bind]
  apply bind (blockOf inner s.next.2 within)
  intro body s₁ consumed
  apply bind (expectWord _ s₁)
  intro _ s₂ worded
  apply bind (parenthesized s₂)
  intro cond s₃ tested
  apply bind (expect _ s₃)
  intro _ s₄ closed
  exact (build _ s₄).weaken fun _ => by omega

theorem caseRound (body : List Node) (within : s.unread.length < limit) :
    Ends s.unread.length ofRound (Grammar.caseRound statement body s) := by
  rw [Grammar.caseRound, observe_bind]
  split
  · exact pure (Nat.le_refl _)
  · exact bind (inner s within) fun node s₁ consumed => pure consumed

theorem caseBody (within : s.unread.length < limit) :
    Ends s.unread.length (fun _ => 0) (Grammar.caseBody statement s) :=
  bind (repeatUntilDone [] (fun body _ within => caseRound inner body within) within)
    fun _ s₁ _ => (build _ s₁).weaken fun _ => by omega

theorem switchRound (cases : Cases) (within : s.unread.length < limit) :
    Ends s.unread.length ofRound (Grammar.switchRound statement cases s) := by
  apply peekKind
  intro kind next
  split
  · obtain ⟨s₁, same, run⟩ := reportAfterDefault_bind cases s
    have skipped := length_next_le s₁
    rw [run, skip_bind]
    apply bind (expression s₁.next.2)
    intro value s₂ consumed
    apply bind (expect _ s₂)
    intro _ s₃ marked
    apply bind (caseBody inner (by rw [same] at skipped; omega))
    intro body s₄ read
    show s₄.unread.length + 1 ≤ s.unread.length
    rw [same] at skipped
    omega
  · obtain ⟨s₁, same, run⟩ := reportAfterDefault_bind cases s
    have skipped := length_next_lt (s := s₁) (by rw [kind_congr same] <;> simp [next])
    rw [run, skip_bind]
    rw [same] at skipped
    apply bind (expect _ s₁.next.2)
    intro _ s₂ marked
    apply bind (caseBody inner (by omega))
    intro body s₃ read
    show s₃.unread.length + 1 ≤ s.unread.length
    omega
  · rw [skip_bind]
    exact pure (length_next_le s)
  · exact bind (missingBrace s) fun _ s₁ recorded => pure recorded
  · next notEof => exact bind (expectWord_real _ (next ▸ notEof)) fun _ s₁ skipped => pure skipped

theorem switchOf (within : s.unread.length < limit + 1) :
    Ends s.unread.length (fun _ => 1) (Grammar.switchOf statement s) := by
  have skipped := length_next_le s
  unfold Grammar.switchOf
  rw [skip_bind]
  apply bind (parenthesized s.next.2)
  intro subject s₁ tested
  apply bind (expect _ s₁)
  intro _ s₂ opened
  apply bind (repeatUntilDone {} (fun cases s within => switchRound inner cases within) (by omega))
  intro cases s₃ closed
  exact (build _ s₃).weaken fun _ => by omega

theorem statementOf : Consumes (limit + 1) (Grammar.statementOf statement) := by
  intro s within
  apply peekKind
  intro kind next
  split
  · rw [skip_bind]
    exact pure (length_next_lt (by simp [next]))
  · exact map (bracedBlock inner next within)
  · exact map (ifOf inner within)
  · exact map (whileOf inner within)
  · have skipped := length_next_lt (s := s) (by simp [next])
    exact map (doOf inner (by omega))
  · exact map (switchOf inner within)
  · exact map (putc s)
  · apply bind (expression s)
    intro value s₁ consumed
    apply bind (expect _ s₁)
    intro _ s₂ closed
    exact pure (by omega)

end Statement

theorem statement (depth : Nat) : Consumes depth (Grammar.statement depth) := by
  induction depth with
  | zero => exact fun s within => absurd within (Nat.not_lt_zero _)
  | succ depth ih => exact fun s within => statementOf ih s within

theorem block (s : State) : Ends s.unread.length (fun _ => 1) (Grammar.block s) :=
  blockOf (statement (s.unread.length + 1)) s (Nat.lt_succ_self _)

/-! ### Definitions -/

theorem addField (fields : List (String × DataType)) (text : String) (pos : Position)
    (type : DataType) (s : State) :
    Ends s.unread.length (fun _ => 0) (Grammar.addField fields text pos type s) := by
  unfold Grammar.addField
  split
  · exact Nat.le_refl _
  · exact Nat.le_refl _

theorem fieldRound (fields : List (String × DataType)) (s : State) :
    Ends s.unread.length ofRound (Grammar.fieldRound fields s) := by
  apply peekKind
  intro kind next
  split
  · rw [skip_bind]
    exact pure (length_next_le s)
  · exact bind (missingBrace s) fun _ s₁ recorded => pure recorded
  · apply bind (typeName s)
    intro type s₁ typed
    apply bind (ident s₁)
    rintro ⟨text, pos⟩ s₂ named
    apply bind (expect _ s₂)
    intro _ s₃ closed
    apply bind (addField fields text pos type s₃)
    intro fields s₄ added
    show s₄.unread.length + 1 ≤ s.unread.length
    omega

theorem structFields (s : State) :
    Ends s.unread.length (fun _ => 0) (Grammar.structFields s) :=
  repeatUntilDone [] (fun fields s _ => fieldRound fields s) (Nat.lt_succ_self _)

theorem structDefinition (s : State) :
    Ends s.unread.length (fun _ => 1) (Grammar.structDefinition s) := by
  have skipped := length_next_le s
  unfold Grammar.structDefinition
  rw [skip_bind]
  apply bind (name s.next.2)
  rintro ⟨text, pos⟩ s₁ named
  apply bind (expect _ s₁)
  intro _ s₂ opened
  apply bind (structFields s₂)
  intro fields s₃ closed
  apply bind (accept _ s₃)
  intro _ s₄ read
  show s₄.unread.length + 1 ≤ s.unread.length
  omega

theorem classDefinition (s : State) :
    Ends s.unread.length (fun _ => 1) (Grammar.classDefinition s) := by
  have skipped := length_next_le s
  unfold Grammar.classDefinition
  rw [skip_bind]
  apply bind (name s.next.2)
  rintro ⟨text, pos⟩ s₁ named
  apply bind (expect _ s₁)
  intro _ s₂ closed
  show s₂.unread.length + 1 ≤ s.unread.length
  omega

theorem globalDefinition (s : State) :
    Ends s.unread.length (fun _ => 1) (Grammar.globalDefinition s) := by
  apply bind (typeName s)
  intro type s₁ typed
  apply bind (ident s₁)
  rintro ⟨text, pos⟩ s₂ named
  have skipped := length_next_le s₂
  apply peekKind
  intro kind next
  split
  · rw [skip_bind]
    apply bind (expect _ s₂.next.2)
    intro _ s₃ closed
    apply bind (declare _ s₃)
    intro func s₄ declared
    apply bind (block s₄)
    intro body s₅ consumed
    split
    · show s₅.unread.length + 1 ≤ s.unread.length
      omega
    · exact pure (by omega)
  · rw [skip_bind]
    apply bind (declareVariable text type pos s₂.next.2)
    intro _ s₃ declared
    exact pure (by omega)
  · exact unexpected _

theorem definitionRound (s : State) :
    Ends s.unread.length ofRound (Grammar.definitionRound () s) := by
  apply peekKind
  intro kind next
  split
  · exact pure (Nat.le_refl _)
  · exact bind (structDefinition s) fun _ s₁ consumed => pure consumed
  · exact bind (classDefinition s) fun _ s₁ consumed => pure consumed
  · exact bind (globalDefinition s) fun _ s₁ consumed => pure consumed
  · exact unexpected _

theorem definitions (s : State) : Ends s.unread.length (fun _ => 0) (Grammar.definitions s) :=
  repeatUntilDone () (fun _ s _ => definitionRound s) (Nat.lt_succ_self _)

end Ends

end IonLang.Grammar
