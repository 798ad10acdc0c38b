import IonLang.Proofs.Relabeling

/-!
# Rules of the grammar on relabeled states

A rule decides by the kinds of tokens and by what the tables know of a name, and never by the
spelling of a name or by a position. On a relabeled state it therefore does what it does on the
state itself, and returns the same trees: `Follows` says so of one rule, and the lemmas follow the
rules one by one up to `Follows.definitions`.
-/

namespace IonLang.Grammar

variable {f : Relabeling} {α β γ δ : Type}

/-! ### States and results -/

def State.relabel (f : Relabeling) (s : State) : State where
  unread := s.unread.map (Token.relabel f)
  last := f.position s.last
  errors := s.errors.map (Diagnostic.relabel f)
  nodes := s.nodes
  types := s.types.rename f.name
  symbols := s.symbols.rename f.name

def Stop.relabel (f : Relabeling) : Stop → Stop
  | fatal diagnostic => fatal (diagnostic.relabel f)
  | exhausted => exhausted

def relabelResult (f : Relabeling) (g : α → β) :
    EStateM.Result Stop State α → EStateM.Result Stop State β
  | .ok a s => .ok (g a) (s.relabel f)
  | .error stop s => .error (stop.relabel f) (s.relabel f)

/-- `q` does on relabeled states what `p` does on the states themselves. -/
def Follows (f : Relabeling) (g : α → β) (p : Parser α) (q : Parser β) : Prop :=
  ∀ s, q (s.relabel f) = relabelResult f g (p s)

namespace State

theorem current_relabel (s : State) : (s.relabel f).current = s.current.relabel f := by
  unfold current relabel
  dsimp only
  rw [List.head?_map]
  cases s.unread.head? <;> rfl

theorem kind_relabel (s : State) : (s.relabel f).kind = s.kind.relabel f := by
  rw [kind, current_relabel]
  rfl

theorem position_relabel (s : State) : (s.relabel f).position = f.position s.position := by
  rw [position, current_relabel]
  rfl

theorem next_relabel (s : State) :
    (s.relabel f).next = (s.next.1.map (Token.relabel f), s.next.2.relabel f) := by
  obtain ⟨unread, last, errors, nodes, types, symbols⟩ := s
  cases unread with
  | nil => rfl
  | cons token rest =>
    have eof : (token.relabel f).kind = .eof ↔ token.kind = .eof :=
      Token.Kind.relabel_eq_iff f nofun
    simp only [next, relabel, List.map_cons, eof]
    by_cases isEof : token.kind = .eof
    · simp [isEof]
    · simp only [isEof, if_false]
      rfl

theorem record_relabel (s : State) (diagnostic : Diagnostic) :
    (s.relabel f).record (diagnostic.relabel f) = (s.record diagnostic).relabel f := by
  simp [record, relabel]

/-- A test that does not look at the spelling of names. -/
def Nameless (f : Relabeling) (accept : Token.Kind → Bool) : Prop :=
  ∀ kind, accept (kind.relabel f) = accept kind

theorem Nameless.beq (kind : Token.Kind) (notName : ∀ name, kind ≠ .ident name) :
    Nameless f (· == kind) := by
  intro other
  rw [Bool.eq_iff_iff, beq_iff_eq, beq_iff_eq, Token.Kind.relabel_eq_iff f notName]

theorem check_relabel {accept : Token.Kind → Bool} (nameless : Nameless f accept) (s : State) :
    (s.relabel f).check accept = s.check accept := by
  obtain ⟨unread, last, errors, nodes, types, symbols⟩ := s
  cases unread with
  | nil => rfl
  | cons token rest => exact nameless token.kind

theorem consumeIf_relabel {accept : Token.Kind → Bool} (nameless : Nameless f accept) (s : State) :
    (s.relabel f).consumeIf accept =
      ((s.consumeIf accept).1.map (Token.relabel f), (s.consumeIf accept).2.relabel f) := by
  have real : Nameless f fun kind => kind != .eof && accept kind := by
    intro kind
    have eof := Nameless.beq (f := f) .eof nofun kind
    dsimp only at eof ⊢
    rw [nameless kind, bne, bne, eof]
  unfold consumeIf
  rw [check_relabel real]
  split
  · exact next_relabel s
  · rfl

theorem expectOr_relabel {accept : Token.Kind → Bool} {complaint : Token → Diagnostic}
    (nameless : Nameless f accept)
    (alike : ∀ token, complaint (token.relabel f) = (complaint token).relabel f) (s : State) :
    (s.relabel f).expectOr accept complaint =
      ((s.expectOr accept complaint).1.map (Token.relabel f),
        (s.expectOr accept complaint).2.relabel f) := by
  unfold expectOr
  rw [consumeIf_relabel nameless]
  obtain ⟨token, s₁⟩ := s.consumeIf accept
  cases token with
  | some token => rfl
  | none =>
    simp only [Option.map_none]
    rw [current_relabel, alike, record_relabel, next_relabel]

theorem atDeclaration_relabel (s : State) : (s.relabel f).atDeclaration = s.atDeclaration := by
  obtain ⟨unread, last, errors, nodes, types, symbols⟩ := s
  cases unread with
  | nil => rfl
  | cons first rest =>
    obtain ⟨kind, pos⟩ := first
    cases rest with
    | nil => cases kind <;> rfl
    | cons second rest =>
      obtain ⟨next, pos⟩ := second
      cases kind with
      | ident name =>
        have known := types.contains_rename f name
        cases next with
        | mark m => cases m <;> first | rfl | exact known
        | _ => rfl
      | _ => rfl

theorem ofTokens_relabel (tokens : List Token) :
    State.ofTokens (tokens.map (Token.relabel f)) = (State.ofTokens tokens).relabel f := by
  have comments : (fun token : Token => !(token.relabel f).kind.isComment) =
      fun token => !token.kind.isComment := by
    funext token
    exact congrArg not (token.kind.isComment_relabel f)
  have origin := f.origin.symm
  simp only [ofTokens, relabel, List.filter_map, Function.comp_def, comments]
  rw [← origin]
  rfl

end State

namespace Follows

/-! ### Sequences and loops -/

theorem pure (g : α → β) (a : α) : Follows f g (Pure.pure a) (Pure.pure (g a)) := fun _ => rfl

theorem bind {g : α → β} {h : γ → δ} {p : Parser α} {q : Parser β} {k : α → Parser γ}
    {l : β → Parser δ} (first : Follows f g p q) (rest : ∀ a, Follows f h (k a) (l (g a))) :
    Follows f h (p >>= k) (q >>= l) := by
  intro s
  simp only [Bind.bind, EStateM.bind, first s]
  cases p s with
  | ok a s' => exact rest a s'
  | error stop s' => rfl

theorem map {p q : Parser α} (g : α → β) (follows : Follows f id p q) :
    Follows f id (g <$> p) (g <$> q) := by
  intro s
  simp only [Functor.map, EStateM.map, follows s]
  cases p s <;> rfl

theorem observe {g : α → β} {look : State → α} {look' : State → β}
    (alike : ∀ s, look' (s.relabel f) = g (look s)) :
    Follows f g (Grammar.observe look) (Grammar.observe look') := by
  intro s
  simp only [Grammar.observe, relabelResult, alike]

theorem observeSame {look : State → α} (alike : ∀ s, look (s.relabel f) = look s) :
    Follows f id (Grammar.observe look) (Grammar.observe look) :=
  observe alike

theorem lift {g : α → β} {step : State → α × State} {step' : State → β × State}
    (alike : ∀ s, step' (s.relabel f) = (g (step s).1, (step s).2.relabel f)) :
    Follows f g (Grammar.lift step) (Grammar.lift step') := by
  intro s
  simp only [Grammar.lift, relabelResult, alike]

theorem stop (g : α → β) (diagnostic : Diagnostic) :
    Follows f g (Grammar.stop diagnostic) (Grammar.stop (diagnostic.relabel f)) := fun _ => rfl

theorem exhausted (g : α → β) : Follows f g (throw .exhausted) (throw .exhausted) := fun _ => rfl

def relabelStep (g : β → β) : ForInStep β → ForInStep β
  | .done value => .done (g value)
  | .yield value => .yield (g value)

theorem iterate {g : β → β} {step : β → Parser (ForInStep β)}
    (rounds : ∀ value, Follows f (relabelStep g) (step value) (step (g value))) (limit : Nat)
    (value : β) : Follows f g (Grammar.iterate step limit value) (Grammar.iterate step limit (g value)) := by
  induction limit generalizing value with
  | zero => exact exhausted g
  | succ limit ih =>
    intro s
    simp only [Grammar.iterate, rounds value s]
    cases step value s with
    | error stop s' => rfl
    | ok result s' =>
      cases result with
      | done value => rfl
      | yield value => exact ih value s'

theorem repeatUntilDone {g : β → β} {step : β → Parser (ForInStep β)}
    (rounds : ∀ value, Follows f (relabelStep g) (step value) (step (g value))) (value : β) :
    Follows f g (Grammar.repeatUntilDone step value) (Grammar.repeatUntilDone step (g value)) := by
  intro s
  have same : (s.relabel f).unread.length = s.unread.length := List.length_map _
  simp only [Grammar.repeatUntilDone, same]
  exact iterate rounds _ value s

/-! ### Steps over tokens -/

theorem peekKind : Follows f (Token.Kind.relabel f) Grammar.peekKind Grammar.peekKind :=
  observe State.kind_relabel

/-- A rule that decides by the next kind: all kinds but names stay as they are. -/
theorem bindKind {h : γ → δ} {k : Token.Kind → Parser γ} {l : Token.Kind → Parser δ}
    (name : ∀ text, Follows f h (k (.ident text)) (l (.ident (f.name text))))
    (other : ∀ kind, (∀ text, kind ≠ .ident text) → Follows f h (k kind) (l kind)) :
    Follows f h (Grammar.peekKind >>= k) (Grammar.peekKind >>= l) := by
  refine bind peekKind fun kind => ?_
  by_cases isName : ∃ text, kind = .ident text
  · obtain ⟨text, rfl⟩ := isName
    exact name text
  · have notName : ∀ text, kind ≠ .ident text := fun text same => isName ⟨text, same⟩
    rw [Token.Kind.relabel_of_not_ident f notName]
    exact other kind notName

theorem position : Follows f f.position Grammar.position Grammar.position :=
  observe State.position_relabel

theorem current : Follows f (Token.relabel f) Grammar.current Grammar.current :=
  observe State.current_relabel

theorem skip : Follows f id Grammar.skip Grammar.skip :=
  lift fun s => by rw [State.next_relabel, id]

theorem accept (kind : Token.Kind) (notName : ∀ name, kind ≠ .ident name) :
    Follows f id (Grammar.accept kind) (Grammar.accept kind) :=
  lift fun s => by
    rw [State.consumeIf_relabel (.beq kind notName)]
    simp

theorem expect (mark : Mark) : Follows f id (Grammar.expect mark) (Grammar.expect mark) :=
  lift fun s => by rw [State.expectOr_relabel (.beq (.mark mark) nofun) fun _ => rfl, id]

theorem expectWord (keyword : Keyword) :
    Follows f id (Grammar.expectWord keyword) (Grammar.expectWord keyword) :=
  lift fun s => by rw [State.expectOr_relabel (.beq (.keyword keyword) nofun) fun _ => rfl, id]

theorem record (diagnostic : Diagnostic) :
    Follows f id (Grammar.record diagnostic) (Grammar.record (diagnostic.relabel f)) :=
  lift fun s => by rw [State.record_relabel, id]

theorem recover (g : α → β) (result : Except Diagnostic α) :
    Follows f (Option.map g) (Grammar.recover result)
      (Grammar.recover (relabelExcept f g result)) := by
  cases result with
  | ok value => exact pure (Option.map g) (some value)
  | error diagnostic => exact bind (record diagnostic) fun _ => pure (Option.map g) none

theorem unexpected (g : α → β) (expected : String) :
    Follows f g (Grammar.unexpected expected) (Grammar.unexpected expected) :=
  bind current fun token => stop g (.unexpectedToken token expected)

theorem build (node : Nat → Node) : Follows f id (Grammar.build node) (Grammar.build node) :=
  fun _ => rfl

theorem placeholder : Follows f id Grammar.placeholder Grammar.placeholder := build _

/-! ### Names and types -/

theorem name : Follows f (Prod.map f.name f.position) Grammar.name Grammar.name := by
  refine bind position fun pos => bindKind (fun text => ?_) fun kind notName => ?_
  · exact bind skip fun _ => pure _ (text, pos)
  · split
    · exact absurd rfl (notName _)
    · exact unexpected _ _

theorem isTypeName (text : String) :
    Follows f id (Grammar.isTypeName text) (Grammar.isTypeName (f.name text)) :=
  observe fun s => s.types.contains_rename f text

theorem rejectTypeName (text : String) (pos : Position) :
    Follows f id (Grammar.rejectTypeName text pos)
      (Grammar.rejectTypeName (f.name text) (f.position pos)) := by
  refine bind (isTypeName text) fun known => ?_
  cases known with
  | true => exact bind (record (.typeNotAllowed text pos)) fun _ => pure id true
  | false => exact pure id false

theorem ident : Follows f (Prod.map f.name f.position) Grammar.ident Grammar.ident :=
  bind name fun (text, pos) => bind (rejectTypeName text pos) fun _ => pure _ (text, pos)

theorem stars : Follows f id Grammar.stars Grammar.stars := by
  refine repeatUntilDone (fun depth => bind (accept (.mark .star) nofun) fun found => ?_) 0
  cases found with
  | true => exact pure (relabelStep id) (.yield (depth + 1))
  | false => exact pure (relabelStep id) (.done depth)

theorem typeName : Follows f (DataType.rename f.name) Grammar.typeName Grammar.typeName := by
  refine bind name fun (text, pos) => bind (observe fun s => s.types.resolve_rename f text pos)
    fun resolved => bind (recover (DataType.rename f.name) resolved) fun base => bind stars fun depth => ?_
  have same : (((base.map (DataType.rename f.name)).getD .uint64).pointTo depth) =
      ((base.getD .uint64).pointTo depth).rename f.name := by
    rw [DataType.rename_pointTo]
    cases base <;> rfl
  dsimp only [id]
  rw [same]
  exact pure _ _

theorem declare {declaration declaration' : Symbols → Except Diagnostic (α × Symbols)}
    (alike : ∀ symbols, declaration' (symbols.rename f.name) =
      relabelExcept f (Prod.map id (Symbols.rename f.name)) (declaration symbols)) :
    Follows f id (Grammar.declare declaration) (Grammar.declare declaration') := by
  intro s
  unfold Grammar.declare
  simp only [State.relabel, alike]
  cases declaration s.symbols with
  | ok found => rfl
  | error diagnostic => exact congrArg _ (State.record_relabel s diagnostic)

theorem declareVariable (text : String) (type : DataType) (pos : Position) :
    Follows f id (Grammar.declareVariable text type pos)
      (Grammar.declareVariable (f.name text) (type.rename f.name) (f.position pos)) := by
  have enters : Follows f id (Grammar.declare fun symbols => symbols.declareVariable text type pos)
      (Grammar.declare fun symbols =>
        symbols.declareVariable (f.name text) (type.rename f.name) (f.position pos)) :=
    declare fun symbols => symbols.declareVariable_rename f text type pos
  unfold Grammar.declareVariable
  rw [DataType.isVoid_rename]
  split
  · next isVoid =>
    -- Only the type `void` itself is reported, and its name is reserved.
    have void : type = .void := by cases type <;> first | rfl | cases isVoid
    subst void
    have reported : Follows f id (Grammar.record (.typeNotAllowed "void" pos))
        (Grammar.record (.typeNotAllowed "void" (f.position pos))) := by
      have report := record (f := f) (.typeNotAllowed "void" pos)
      rw [Diagnostic.relabel, f.reserved "void" (by decide)] at report
      exact report
    exact bind reported fun _ => enters
  · exact enters

theorem declareFunction (text : String) (pos : Position) :
    Follows f id (Grammar.declareFunction text pos)
      (Grammar.declareFunction (f.name text) (f.position pos)) :=
  declare fun symbols => symbols.declareFunction_rename f text pos

theorem lookupVariable (text : String) (pos : Position) :
    Follows f id (Grammar.lookupVariable text pos)
      (Grammar.lookupVariable (f.name text) (f.position pos)) := by
  refine bind (observe fun s => s.symbols.lookupVariable_rename f text pos) fun found => ?_
  have recovered := recover (f := f) id found
  rwa [Option.map_id] at recovered

theorem lookupFunction (text : String) (pos : Position) :
    Follows f id (Grammar.lookupFunction text pos)
      (Grammar.lookupFunction (f.name text) (f.position pos)) := by
  refine bind (observe fun s => s.symbols.lookupFunction_rename f text pos) fun found => ?_
  have recovered := recover (f := f) id found
  rwa [Option.map_id] at recovered

/-! ### Expressions -/

theorem operatorOr {find : Token.Kind → Option α} (noName : ∀ text, find (.ident text) = none)
    (refused : Mark) (construct : String) :
    Follows f id (Grammar.operatorOr find refused construct)
      (Grammar.operatorOr find refused construct) := by
  refine bindKind (fun text => ?_) fun kind notName => ?_
  · rw [noName, noName]
    exact pure id none
  · cases find kind with
    | some op => exact bind skip fun _ => pure id (some op)
    | none =>
      dsimp only
      split
      · exact bind position fun pos => stop id (.notImplemented construct pos)
      · exact pure id none

theorem binaryOperator : Follows f id Grammar.binaryOperator Grammar.binaryOperator :=
  operatorOr (fun _ => rfl) _ _

theorem assignOperator : Follows f id Grammar.assignOperator Grammar.assignOperator :=
  operatorOr (fun _ => rfl) _ _

theorem buildTree (tree : OperatorTree Node) :
    Follows f id (Grammar.buildTree tree) (Grammar.buildTree tree) := by
  induction tree with
  | leaf node => exact pure id node
  | branch op lhs rhs left right => exact bind left fun _ => bind right fun _ => build _

theorem operatorTail {primary : Parser Node} (operand : Follows f id primary primary) :
    Follows f id (Grammar.operatorTail primary) (Grammar.operatorTail primary) := by
  refine repeatUntilDone (fun pairs => bind binaryOperator fun op => ?_) []
  cases op with
  | some op => exact bind operand fun node => pure (relabelStep id) (.yield (pairs ++ [(op, node)]))
  | none => exact pure (relabelStep id) (.done pairs)

theorem expressionOf {primary : Parser Node} (operand : Follows f id primary primary) :
    Follows f id (Grammar.expressionOf primary) (Grammar.expressionOf primary) :=
  bind operand fun _ => bind (operatorTail operand) fun _ => buildTree _

theorem accessNode (var : Option VarId) :
    Follows f id (Grammar.accessNode var) (Grammar.accessNode var) := by
  cases var with
  | none => exact placeholder
  | some var => exact build (.access · var)

theorem assignNode (op : AssignOp) (value : Node) (var : Option VarId) :
    Follows f id (Grammar.assignNode op value var) (Grammar.assignNode op value var) := by
  cases var with
  | none => exact pure id value
  | some var => exact build (.assign · var op value)

theorem stepNode (direction : Direction) (timing : Timing) (var : Option VarId) :
    Follows f id (Grammar.stepNode direction timing var) (Grammar.stepNode direction timing var) := by
  cases var with
  | none => exact placeholder
  | some var => exact build (.step · direction var timing)

section Expression

variable {expression primary : Parser Node} (wide : Follows f id expression expression)
  (narrow : Follows f id primary primary)

include wide

theorem assignmentOf (var : Option VarId) :
    Follows f id (Grammar.assignmentOf expression var) (Grammar.assignmentOf expression var) := by
  refine bind assignOperator fun op => ?_
  cases op with
  | some op => exact bind wide fun value => assignNode op value var
  | none => exact accessNode var

theorem declarationOf :
    Follows f id (Grammar.declarationOf expression) (Grammar.declarationOf expression) :=
  bind typeName fun type => bind ident fun (text, pos) =>
    bind (declareVariable text type pos) fun var => assignmentOf wide var

theorem nameOf : Follows f id (Grammar.nameOf expression) (Grammar.nameOf expression) := by
  refine bind name fun (text, pos) => bind (rejectTypeName text pos) fun rejected => ?_
  have value : Follows f id
      (Grammar.lookupVariable text pos >>= Grammar.assignmentOf expression)
      (Grammar.lookupVariable (f.name text) (f.position pos) >>= Grammar.assignmentOf expression) :=
    bind (lookupVariable text pos) fun var => assignmentOf wide var
  cases rejected with
  | true => exact placeholder
  | false =>
    refine bindKind (fun _ => value) fun kind notName => ?_
    split
    · refine bind skip fun _ => bind (expect _) fun _ => bind (lookupFunction text pos) fun func => ?_
      cases func with
      | some func => exact build (.call · func)
      | none => exact placeholder
    · cases direction? kind with
      | some direction =>
        exact bind skip fun _ => bind (lookupVariable text pos) fun var =>
          stepNode direction .after var
      | none => exact value

omit wide

theorem steppedVariable : Follows f id Grammar.steppedVariable Grammar.steppedVariable := by
  refine bind name fun (text, pos) => bind (rejectTypeName text pos) fun rejected => ?_
  cases rejected with
  | true => exact pure id none
  | false => exact lookupVariable text pos

include narrow

theorem unaryOf (op : UnaryOp) :
    Follows f id (Grammar.unaryOf op primary) (Grammar.unaryOf op primary) :=
  bind skip fun _ => bind narrow fun _ => build _

include wide

theorem primaryOf :
    Follows f id (Grammar.primaryOf expression primary) (Grammar.primaryOf expression primary) := by
  refine bindKind (fun text => ?_) fun kind notName => ?_
  · refine bind (observeSame State.atDeclaration_relabel) fun declares => ?_
    cases declares with
    | true => exact declarationOf wide
    | false => exact nameOf wide
  · split
    · exact bind skip fun _ => bind wide fun node => bind (expect _) fun _ => pure id node
    · exact unaryOf narrow _
    · exact unaryOf narrow _
    · exact bind skip fun _ => bind steppedVariable fun _ => stepNode _ _ _
    · exact bind skip fun _ => bind steppedVariable fun _ => stepNode _ _ _
    · exact bind skip fun _ => build _
    · exact bind skip fun _ => build _
    · exact absurd rfl (notName _)
    · exact unexpected id _

end Expression

theorem primary (depth : Nat) : Follows f id (Grammar.primary depth) (Grammar.primary depth) := by
  induction depth with
  | zero => exact exhausted id
  | succ depth ih => exact fun s => primaryOf (expressionOf ih) ih s

theorem expression : Follows f id Grammar.expression Grammar.expression := by
  intro s
  have same : (s.relabel f).unread.length = s.unread.length := List.length_map _
  simp only [Grammar.expression, same]
  exact expressionOf (primary _) s

/-! ### Statements -/

theorem missingBrace : Follows f id Grammar.missingBrace Grammar.missingBrace :=
  bind position fun pos => record (.missingCharacter '}' pos)

theorem parenthesized : Follows f id Grammar.parenthesized Grammar.parenthesized :=
  bind (expect _) fun _ => bind expression fun node => bind (expect _) fun _ => pure id node

theorem putc : Follows f id Grammar.putc Grammar.putc :=
  bind skip fun _ => bind parenthesized fun _ => bind (expect _) fun _ => build _

theorem reportAfterDefault (cases : Cases) :
    Follows f id (Grammar.reportAfterDefault cases) (Grammar.reportAfterDefault cases) := by
  unfold Grammar.reportAfterDefault
  split
  · exact bind current fun token => record (.expectedWord _ token)
  · exact pure id ()

theorem nameless_endsCase : State.Nameless f endsCase := by
  intro kind
  cases kind <;> rfl

section Statement

variable {statement : Parser (Option Node)} (inner : Follows f id statement statement)

include inner

theorem bracedBody :
    Follows f id (Grammar.bracedBody statement) (Grammar.bracedBody statement) := by
  refine repeatUntilDone (fun body => ?_) []
  have another : Follows f (relabelStep id)
      (statement >>= fun node => Pure.pure (.yield (addStatement body node)))
      (statement >>= fun node => Pure.pure (.yield (addStatement body node))) :=
    bind inner fun node => pure (relabelStep id) (.yield (addStatement body node))
  refine bindKind (fun _ => another) fun kind notName => ?_
  split
  · exact bind skip fun _ => pure (relabelStep id) (.done body)
  · exact bind missingBrace fun _ => pure (relabelStep id) (.done body)
  · exact another

theorem blockOf : Follows f id (Grammar.blockOf statement) (Grammar.blockOf statement) := by
  refine bind (accept (.mark .lcurly) nofun) fun braced => ?_
  cases braced with
  | true => exact bind (bracedBody inner) fun _ => build _
  | false =>
    refine bind inner fun node => ?_
    cases node with
    | some node => exact pure id node
    | none => exact build _

theorem ifOf : Follows f id (Grammar.ifOf statement) (Grammar.ifOf statement) := by
  refine bind skip fun _ => bind parenthesized fun cond => bind (blockOf inner) fun thenPart =>
    bind (accept (.keyword .elseWord) nofun) fun other => ?_
  cases other with
  | true => exact bind (blockOf inner) fun elsePart => build (.ifElse · cond thenPart (some elsePart))
  | false => exact build (.ifElse · cond thenPart none)

theorem whileOf : Follows f id (Grammar.whileOf statement) (Grammar.whileOf statement) :=
  bind skip fun _ => bind parenthesized fun _ => bind (blockOf inner) fun _ => build _

theorem doOf : Follows f id (Grammar.doOf statement) (Grammar.doOf statement) :=
  bind skip fun _ => bind (blockOf inner) fun _ => bind (expectWord _) fun _ =>
    bind parenthesized fun _ => bind (expect _) fun _ => build _

theorem caseBody : Follows f id (Grammar.caseBody statement) (Grammar.caseBody statement) := by
  refine bind (repeatUntilDone (fun body => ?_) []) fun _ => build _
  refine bind (observeSame (State.check_relabel nameless_endsCase)) fun ends => ?_
  cases ends with
  | true => exact pure (relabelStep id) (.done body)
  | false => exact bind inner fun node => pure (relabelStep id) (.yield (addStatement body node))

theorem switchRound (cases : Cases) :
    Follows f (relabelStep id) (Grammar.switchRound statement cases)
      (Grammar.switchRound statement cases) := by
  have stray : Follows f (relabelStep id)
      (Grammar.expectWord .caseWord >>= fun _ => Pure.pure (.yield cases))
      (Grammar.expectWord .caseWord >>= fun _ => Pure.pure (.yield cases)) :=
    bind (expectWord _) fun _ => pure (relabelStep id) (.yield cases)
  refine bindKind (fun _ => stray) fun kind notName => ?_
  split
  · exact bind (reportAfterDefault cases) fun _ => bind skip fun _ => bind expression fun value =>
      bind (expect _) fun _ => bind (caseBody inner) fun body =>
        pure (relabelStep id) (.yield { cases with cases := cases.cases ++ [(value, body)] })
  · exact bind (reportAfterDefault cases) fun _ => bind skip fun _ => bind (expect _) fun _ =>
      bind (caseBody inner) fun body =>
        pure (relabelStep id) (.yield { cases with fallback := some body })
  · exact bind skip fun _ => pure (relabelStep id) (.done cases)
  · exact bind missingBrace fun _ => pure (relabelStep id) (.done cases)
  · exact stray

theorem switchOf : Follows f id (Grammar.switchOf statement) (Grammar.switchOf statement) :=
  bind skip fun _ => bind parenthesized fun _ => bind (expect _) fun _ =>
    bind (repeatUntilDone (switchRound inner) {}) fun _ => build _

theorem statementOf :
    Follows f id (Grammar.statementOf statement) (Grammar.statementOf statement) := by
  have value : Follows f id
      (Grammar.expression >>= fun node => Grammar.expect .semicolon >>= fun _ => Pure.pure (some node))
      (Grammar.expression >>= fun node => Grammar.expect .semicolon >>= fun _ => Pure.pure (some node)) :=
    bind expression fun node => bind (expect _) fun _ => pure id (some node)
  refine bindKind (fun _ => value) fun kind notName => ?_
  split
  · exact bind skip fun _ => pure id none
  · exact map some (blockOf inner)
  · exact map some (ifOf inner)
  · exact map some (whileOf inner)
  · exact map some (doOf inner)
  · exact map some (switchOf inner)
  · exact map some putc
  · exact value

end Statement

theorem statement (depth : Nat) :
    Follows f id (Grammar.statement depth) (Grammar.statement depth) := by
  induction depth with
  | zero => exact exhausted id
  | succ depth ih => exact fun s => statementOf ih s

theorem block : Follows f id Grammar.block Grammar.block := by
  intro s
  have same : (s.relabel f).unread.length = s.unread.length := List.length_map _
  simp only [Grammar.block, same]
  exact blockOf (statement _) s

/-! ### Definitions -/

theorem addField (fields : List (String × DataType)) (text : String) (pos : Position)
    (type : DataType) :
    Follows f (DataType.renameFields f.name) (Grammar.addField fields text pos type)
      (Grammar.addField (DataType.renameFields f.name fields) (f.name text) (f.position pos)
        (type.rename f.name)) := by
  unfold Grammar.addField
  rw [DataType.any_renameFields]
  split
  · exact bind (record (.variableRedeclared text pos)) fun _ => pure _ fields
  · have added := pure (f := f) (DataType.renameFields f.name) (fields ++ [(text, type)])
    rw [DataType.renameFields_append] at added
    exact added

theorem structFields :
    Follows f (DataType.renameFields f.name) Grammar.structFields Grammar.structFields := by
  refine repeatUntilDone (fun fields => ?_) []
  have another : Follows f (relabelStep (DataType.renameFields f.name))
      (do
        let type ← Grammar.typeName
        let found ← Grammar.ident
        Grammar.expect .semicolon
        Pure.pure (.yield (← Grammar.addField fields found.1 found.2 type)))
      (do
        let type ← Grammar.typeName
        let found ← Grammar.ident
        Grammar.expect .semicolon
        Pure.pure (.yield
          (← Grammar.addField (DataType.renameFields f.name fields) found.1 found.2 type))) :=
    bind typeName fun type => bind ident fun found => bind (expect _) fun _ =>
      bind (addField fields found.1 found.2 type) fun fields => pure (relabelStep _) (.yield fields)
  refine bindKind (fun _ => another) fun kind notName => ?_
  split
  · exact bind skip fun _ => pure (relabelStep _) (.done fields)
  · exact bind missingBrace fun _ => pure (relabelStep _) (.done fields)
  · exact another

theorem registerType (type : DataType) :
    Follows f id (Grammar.registerType type) (Grammar.registerType (type.rename f.name)) :=
  lift fun s => by
    simp only [State.relabel, TypeTable.register_rename, id]

theorem structDefinition : Follows f id Grammar.structDefinition Grammar.structDefinition :=
  bind skip fun _ => bind name fun (text, _) => bind (expect _) fun _ => bind structFields fun fields =>
    bind (accept (.mark .semicolon) nofun) fun _ => registerType (.structType text fields)

theorem classDefinition : Follows f id Grammar.classDefinition Grammar.classDefinition :=
  bind skip fun _ => bind name fun (text, _) => bind (expect _) fun _ =>
    registerType (.classType text)

theorem defineFunction (func : FuncId) (body : Node) :
    Follows f id (Grammar.defineFunction func body) (Grammar.defineFunction func body) :=
  lift fun s => by
    simp only [State.relabel, Symbols.defineFunction_rename, id]

theorem globalDefinition : Follows f id Grammar.globalDefinition Grammar.globalDefinition := by
  refine bind typeName fun type => bind ident fun (text, pos) =>
    bindKind (fun _ => unexpected id _) fun kind notName => ?_
  split
  · refine bind skip fun _ => bind (expect _) fun _ => bind (declareFunction text pos) fun func =>
      bind block fun body => ?_
    cases func with
    | some func => exact defineFunction func body
    | none => exact pure id ()
  · exact bind skip fun _ => bind (declareVariable text type pos) fun _ => pure id ()
  · exact unexpected id _

theorem definitionRound :
    Follows f (relabelStep id) (Grammar.definitionRound ()) (Grammar.definitionRound ()) := by
  refine bindKind (fun _ => ?_) fun kind notName => ?_
  · exact bind globalDefinition fun _ => pure (relabelStep id) (.yield ())
  · split
    · exact pure (relabelStep id) (.done ())
    · exact bind structDefinition fun _ => pure (relabelStep id) (.yield ())
    · exact bind classDefinition fun _ => pure (relabelStep id) (.yield ())
    · exact absurd rfl (notName _)
    · exact unexpected _ _

theorem definitions : Follows f id Grammar.definitions Grammar.definitions :=
  repeatUntilDone (fun _ => definitionRound) ()

end Follows

end IonLang.Grammar
