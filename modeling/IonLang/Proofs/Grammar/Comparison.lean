import IonLang.Proofs.Grammar.Progress

/-!
# Two parses side by side

A rule looks at the tokens in front of it and at nothing else, so two parses whose unread tokens
begin alike take the same steps until they come to where the tokens differ. A `Comparison` says
which unread tokens are alike, and what has come apart once they no longer are. `Comparison.Tracks`
says of a rule that it goes the same way in both parses or comes apart; the lemmas follow the rules
one by one. The two parses may have different bounds on rounds and depth, and a parse that meets
its bound is compared with nothing.
-/

namespace IonLang.Grammar

variable {α β : Type} {s t : State}

def finalState : EStateM.Result Stop State α → State
  | .ok _ s => s
  | .error _ s => s

theorem Keeps.final {R : State → State → Prop} {p : Parser α} (kept : Keeps R p) (s : State) :
    R s (finalState (p s)) := by
  cases run : p s with
  | ok a s' => exact kept.of_ok run
  | error stop s' => exact kept.of_error run

theorem errors_relation : DefinitionRelation fun s s' => s.errors <+: s'.errors :=
  .of_reading List.IsPrefix.trans (fun s => next_errors s ▸ List.prefix_refl _)
    (fun _ _ _ => List.prefix_append _ _) fun _ _ _ errors => errors ▸ List.prefix_refl _

theorem iterate_succ (step : β → Parser (ForInStep β)) (rounds : Nat) (value : β) :
    iterate step (rounds + 1) value = step value >>= fun
      | .done value => pure value
      | .yield value => iterate step rounds value := by
  funext s
  simp only [iterate, Bind.bind, EStateM.bind]
  cases step value s with
  | ok again s' => cases again <;> rfl
  | error stop s' => rfl

theorem next_of_eof (atEnd : s.kind = .eof) : s.next.2 = s := by
  unfold State.next
  split
  · rfl
  · next token rest unread => rw [if_pos ((kind_eq unread).symm.trans atEnd)]

theorem consumeIf_eq (s : State) (accept : Token.Kind → Bool) :
    s.consumeIf accept = if s.kind != .eof && accept s.kind then s.next else (none, s) := by
  unfold State.consumeIf State.check
  cases unread : s.unread with
  | nil =>
    have atEnd : s.kind = .eof := by simp [State.kind, State.current, unread]
    rw [atEnd]
    rfl
  | cons token rest => rw [kind_eq unread]

theorem isSome_next (real : s.kind ≠ .eof) : s.next.1.isSome = true := by
  obtain ⟨token, rest, unread, same⟩ := unread_of_kind rfl real
  unfold State.next
  rw [unread]
  dsimp only
  rw [if_neg (same ▸ real)]
  rfl

theorem expectOr_eq (s : State) (accept : Token.Kind → Bool) (complaint : Token → Diagnostic) :
    (s.expectOr accept complaint).2 =
      if s.kind != .eof && accept s.kind then s.next.2
      else (s.record (complaint s.current)).next.2 := by
  unfold State.expectOr
  rw [consumeIf_eq]
  by_cases wanted : (s.kind != .eof && accept s.kind) = true
  · have real : s.kind ≠ .eof := by simpa using (Bool.and_eq_true_iff.mp wanted).1
    obtain ⟨token, consumed⟩ := Option.isSome_iff_exists.mp (isSome_next real)
    rw [if_pos wanted, if_pos wanted, show s.next = (some token, s.next.2) from Prod.ext consumed rfl]
  · rw [if_neg wanted, if_neg wanted]

theorem atDeclaration_of_not_ident (other : ∀ text, s.kind ≠ .ident text) :
    s.atDeclaration = false := by
  unfold State.atDeclaration
  split
  · next unread => exact absurd (kind_eq unread) (other _)
  · rfl

theorem atDeclaration_congr {token : Token} {rest others : List Token} {pos : Position}
    (unread : s.unread = token :: rest) (unread' : t.unread = token :: others)
    (types : t.types = s.types)
    (second : rest.head?.getD ⟨.eof, pos⟩ = others.head?.getD ⟨.eof, pos⟩) :
    t.atDeclaration = s.atDeclaration := by
  unfold State.atDeclaration
  rw [unread, unread', types]
  obtain ⟨kind, place⟩ := token
  cases kind with
  | ident name =>
    -- A second token that is missing is read like the end of the file.
    cases rest with
    | nil =>
      cases others with
      | nil => rfl
      | cons other others => obtain rfl := second; rfl
    | cons token rest =>
      cases others with
      | nil => obtain rfl := second; rfl
      | cons other others => obtain rfl := second; rfl
  | _ => cases rest <;> cases others <;> rfl

structure Comparison where
  /-- The unread tokens of the parses are alike, where the last token was consumed at a position. -/
  Match : Position → List Token → List Token → Prop
  /-- The first parse is in a state in which it has come apart from the second. -/
  Apart : State → Prop
  /-- What every step of the first parse keeps. -/
  Stays : State → State → Prop
  current : ∀ {pos unread others}, Match pos unread others →
    unread.head?.getD ⟨.eof, pos⟩ = others.head?.getD ⟨.eof, pos⟩
  next : ∀ {pos token unread others}, Match pos (token :: unread) (token :: others) →
    token.kind ≠ .eof → Match token.pos unread others ∨
      ∀ s : State, s.unread = unread → Apart s
  steps : DefinitionRelation Stays
  apart : ∀ {s s'}, Stays s s' → Apart s → Apart s'

namespace Comparison

variable {c : Comparison}

/-- The states differ in alike tokens only. -/
structure Alike (c : Comparison) (s t : State) : Prop where
  same : t = { s with unread := t.unread }
  unread : c.Match s.last s.unread t.unread

/-- Two runs end alike, or one of them meets its bound, or they come apart. -/
inductive Agree (c : Comparison) :
    EStateM.Result Stop State α → EStateM.Result Stop State α → Prop where
  | returned {a : α} {s t : State} (alike : c.Alike s t) : Agree c (.ok a s) (.ok a t)
  | stopped {stop : Stop} {s t : State} (alike : c.Alike s t) :
    Agree c (.error stop s) (.error stop t)
  | exhausted {s : State} {second : EStateM.Result Stop State α} :
    Agree c (.error .exhausted s) second
  | exhausted' {first : EStateM.Result Stop State α} {t : State} :
    Agree c first (.error .exhausted t)
  | apart {first second : EStateM.Result Stop State α}
    (apart : c.Apart (finalState first)) : Agree c first second

/-- The rules go the same way from states that are alike. -/
structure Tracks (c : Comparison) (p q : Parser α) : Prop where
  keeps : Keeps c.Stays p
  agree : ∀ s t, c.Alike s t → c.Agree (p s) (q t)

namespace Alike

theorem current (alike : c.Alike s t) : t.current = s.current := by
  have last : t.last = s.last := by rw [alike.same]
  unfold State.current
  rw [last]
  exact (c.current alike.unread).symm

theorem kind (alike : c.Alike s t) : t.kind = s.kind := by
  unfold State.kind
  rw [alike.current]

theorem position (alike : c.Alike s t) : t.position = s.position := by
  unfold State.position
  rw [alike.current]

theorem types (alike : c.Alike s t) : t.types = s.types := by rw [alike.same]

theorem symbols (alike : c.Alike s t) : t.symbols = s.symbols := by rw [alike.same]

theorem errors (alike : c.Alike s t) : t.errors = s.errors := by rw [alike.same]

theorem change (alike : c.Alike s t) (f : State → State)
    (unread : ∀ s, (f s).unread = s.unread) (last : ∀ s, (f s).last = s.last)
    (frame : ∀ s tokens, f { s with unread := tokens } = { f s with unread := tokens }) :
    c.Alike (f s) (f t) := by
  refine ⟨?_, ?_⟩
  · rw [unread t, ← frame s t.unread, ← alike.same]
  · rw [unread s, unread t, last s]
    exact alike.unread

theorem record (alike : c.Alike s t) (diagnostic : Diagnostic) :
    c.Alike (s.record diagnostic) (t.record diagnostic) :=
  alike.change (·.record diagnostic) (fun _ => rfl) (fun _ => rfl) fun _ _ => rfl

-- The first token is the same in both, or there is none that could be consumed in either.
theorem cases (alike : c.Alike s t) :
    s.kind = .eof ∧ t.kind = .eof ∨
      ∃ token rest others, token.kind ≠ .eof ∧ s.unread = token :: rest ∧ t.unread = token :: others := by
  by_cases atEnd : s.kind = .eof
  · exact .inl ⟨atEnd, alike.kind.trans atEnd⟩
  · obtain ⟨token, rest, unread, kind⟩ := unread_of_kind rfl atEnd
    obtain ⟨other, others, unread', _⟩ := unread_of_kind alike.kind atEnd
    have same := alike.current
    unfold State.current at same
    rw [unread, unread'] at same
    obtain rfl : other = token := same
    exact .inr ⟨other, rest, others, kind ▸ atEnd, unread, unread'⟩

theorem next (alike : c.Alike s t) :
    c.Alike s.next.2 t.next.2 ∨ c.Apart s.next.2 := by
  rcases alike.cases with ⟨atEnd, atEnd'⟩ | ⟨token, rest, others, real, unread, unread'⟩
  · rw [next_of_eof atEnd, next_of_eof atEnd']
    exact .inl alike
  · have tokens := alike.unread
    rw [unread, unread'] at tokens
    rw [next_eq unread real, next_eq unread' real]
    rcases c.next tokens real with go | left
    · refine .inl ⟨?_, go⟩
      rw [alike.same]
    · exact .inr (left _ rfl)

-- One token more than usual is looked at here. If it differs, then the parses come apart with the
-- token in front of it, which is consumed next.
theorem atDeclaration (alike : c.Alike s t) :
    t.atDeclaration = s.atDeclaration ∨
      (∃ text, s.kind = .ident text) ∧ c.Apart s.next.2 := by
  by_cases named : ∃ text, s.kind = .ident text
  · have name : s.kind ≠ .eof := by
      obtain ⟨text, name⟩ := named
      rw [name]
      simp
    rcases alike.cases with ⟨atEnd, _⟩ | ⟨token, rest, others, real, unread, unread'⟩
    · exact absurd atEnd name
    · have tokens := alike.unread
      rw [unread, unread'] at tokens
      rcases c.next tokens real with go | left
      · exact .inl (atDeclaration_congr unread unread' alike.types (c.current go))
      · rw [next_eq unread real]
        exact .inr ⟨named, left _ rfl⟩
  · have other : ∀ text, s.kind ≠ .ident text := fun text name => named ⟨text, name⟩
    rw [atDeclaration_of_not_ident other, atDeclaration_of_not_ident (alike.kind ▸ other)]
    exact .inl rfl

theorem consumeIf (alike : c.Alike s t) (accept : Token.Kind → Bool) :
    (t.consumeIf accept).1.isSome = (s.consumeIf accept).1.isSome ∧
        c.Alike (s.consumeIf accept).2 (t.consumeIf accept).2 ∨
      c.Apart (s.consumeIf accept).2 := by
  rw [consumeIf_eq, consumeIf_eq, alike.kind]
  split
  · next wanted =>
    have real : s.kind ≠ .eof := by simpa using (Bool.and_eq_true_iff.mp wanted).1
    rcases alike.next with go | left
    · refine .inl ⟨?_, go⟩
      rw [isSome_next (alike.kind ▸ real), isSome_next real]
    · exact .inr left
  · exact .inl ⟨rfl, alike⟩

theorem expectOr (alike : c.Alike s t) (accept : Token.Kind → Bool)
    (complaint : Token → Diagnostic) :
    c.Alike (s.expectOr accept complaint).2 (t.expectOr accept complaint).2 ∨
      c.Apart (s.expectOr accept complaint).2 := by
  rw [expectOr_eq, expectOr_eq, alike.kind, alike.current]
  split
  · exact alike.next
  · exact (alike.record _).next

end Alike

/-! ### Sequences and loops -/

theorem Agree.bind {p q : Parser α} {f g : α → Parser β} (agree : c.Agree (p s) (q t))
    (keeps : ∀ a, Keeps c.Stays (f a)) (rest : ∀ a s t, c.Alike s t → c.Agree (f a s) (g a t)) :
    c.Agree ((p >>= f) s) ((q >>= g) t) := by
  simp only [Bind.bind, EStateM.bind]
  generalize p s = run at agree
  generalize q t = run' at agree
  cases agree with
  | returned alike => exact rest _ _ _ alike
  | stopped alike => exact .stopped alike
  | exhausted => exact .exhausted
  | exhausted' => exact .exhausted'
  | apart apart =>
    refine .apart ?_
    cases run with
    | ok a s₁ => exact c.apart ((keeps a).final s₁) apart
    | error stop s₁ => exact apart

namespace Tracks

theorem pure (a : α) : c.Tracks (Pure.pure a : Parser α) (Pure.pure a) :=
  ⟨c.steps.pure a, fun _ _ alike => .returned alike⟩

theorem bind {p q : Parser α} {f g : α → Parser β} (first : c.Tracks p q)
    (rest : ∀ a, c.Tracks (f a) (g a)) : c.Tracks (p >>= f) (q >>= g) :=
  ⟨c.steps.bind first.keeps fun a => (rest a).keeps, fun s t alike =>
    (first.agree s t alike).bind (fun a => (rest a).keeps) fun a => (rest a).agree⟩

theorem map {p q : Parser α} (f : α → β) (tracks : c.Tracks p q) : c.Tracks (f <$> p) (f <$> q) := by
  refine ⟨Keeps.map f tracks.keeps, fun s t alike => ?_⟩
  have agree := tracks.agree s t alike
  simp only [Functor.map, EStateM.map]
  generalize p s = run at agree
  generalize q t = run' at agree
  cases agree with
  | returned alike => exact .returned alike
  | stopped alike => exact .stopped alike
  | exhausted => exact .exhausted
  | exhausted' => exact .exhausted'
  | apart apart => cases run <;> exact .apart apart

theorem observe {look : State → α} (same : ∀ s t, c.Alike s t → look t = look s) :
    c.Tracks (Grammar.observe look) (Grammar.observe look) := by
  refine ⟨c.steps.observe look, fun s t alike => ?_⟩
  unfold Grammar.observe
  rw [same s t alike]
  exact .returned alike

theorem lift {step : State → α × State} (keeps : Keeps c.Stays (Grammar.lift step))
    (same : ∀ s t, c.Alike s t → (step t).1 = (step s).1 ∧ c.Alike (step s).2 (step t).2 ∨
      c.Apart (step s).2) :
    c.Tracks (Grammar.lift step) (Grammar.lift step) := by
  refine ⟨keeps, fun s t alike => ?_⟩
  unfold Grammar.lift
  rcases same s t alike with ⟨value, alike⟩ | left
  · rw [value]
    exact .returned alike
  · exact .apart left

theorem stop (diagnostic : Diagnostic) :
    c.Tracks (Grammar.stop diagnostic : Parser α) (Grammar.stop diagnostic) :=
  ⟨c.steps.throw _, fun _ _ alike => .stopped alike⟩

theorem exhausted {p : Parser α} (keeps : Keeps c.Stays p) :
    c.Tracks p (throw .exhausted : Parser α) :=
  ⟨keeps, fun _ _ _ => .exhausted'⟩

theorem iterate {step step' : β → Parser (ForInStep β)}
    (rounds : ∀ value, c.Tracks (step value) (step' value)) (limit limit' : Nat) (value : β) :
    c.Tracks (Grammar.iterate step limit value) (Grammar.iterate step' limit' value) := by
  induction limit generalizing limit' value with
  | zero => exact ⟨c.steps.throw _, fun _ _ _ => .exhausted⟩
  | succ limit ih =>
    cases limit' with
    | zero => exact exhausted (c.steps.iterate (fun value => (rounds value).keeps) _ _)
    | succ limit' =>
      rw [iterate_succ, iterate_succ]
      refine (rounds value).bind fun again => ?_
      cases again with
      | done value => exact pure value
      | yield value => exact ih limit' value

theorem repeatUntilDone {step step' : β → Parser (ForInStep β)}
    (rounds : ∀ value, c.Tracks (step value) (step' value)) (value : β) :
    c.Tracks (Grammar.repeatUntilDone step value) (Grammar.repeatUntilDone step' value) :=
  ⟨c.steps.repeatUntilDone (fun value => (rounds value).keeps) value,
    fun s t alike => (iterate rounds (s.unread.length + 1) (t.unread.length + 1) value).agree s t alike⟩

/-! ### Steps over tokens -/

theorem peekKind : c.Tracks Grammar.peekKind Grammar.peekKind := observe fun _ _ alike => alike.kind

theorem position : c.Tracks Grammar.position Grammar.position :=
  observe fun _ _ alike => alike.position

theorem current : c.Tracks Grammar.current Grammar.current := observe fun _ _ alike => alike.current

theorem skip : c.Tracks Grammar.skip Grammar.skip :=
  lift c.steps.skip fun _ _ alike => alike.next.imp_left fun go => ⟨rfl, go⟩

theorem accept (kind : Token.Kind) : c.Tracks (Grammar.accept kind) (Grammar.accept kind) :=
  lift (c.steps.accept kind) fun _ _ alike => alike.consumeIf _

theorem expect (mark : Mark) : c.Tracks (Grammar.expect mark) (Grammar.expect mark) :=
  lift (c.steps.expect mark) fun _ _ alike => (alike.expectOr _ _).imp_left fun go => ⟨rfl, go⟩

theorem expectWord (keyword : Keyword) :
    c.Tracks (Grammar.expectWord keyword) (Grammar.expectWord keyword) :=
  lift (c.steps.expectWord keyword) fun _ _ alike =>
    (alike.expectOr _ _).imp_left fun go => ⟨rfl, go⟩

theorem record {diagnostic : Diagnostic} (mild : diagnostic.isFatal = false) :
    c.Tracks (Grammar.record diagnostic) (Grammar.record diagnostic) :=
  lift (c.steps.record mild) fun _ _ alike => .inl ⟨rfl, alike.record diagnostic⟩

theorem recover {result : Except Diagnostic α}
    (mild : ∀ diagnostic, result = .error diagnostic → diagnostic.isFatal = false) :
    c.Tracks (Grammar.recover result) (Grammar.recover result) := by
  cases result with
  | ok value => exact pure _
  | error diagnostic => exact (record (mild diagnostic rfl)).bind fun _ => pure _

theorem unexpected (expected : String) :
    c.Tracks (Grammar.unexpected expected : Parser α) (Grammar.unexpected expected) :=
  current.bind fun _ => stop _

theorem build (node : Nat → Node) : c.Tracks (Grammar.build node) (Grammar.build node) := by
  refine lift (c.steps.build node) fun s t alike => .inl ⟨?_, ?_⟩
  · rw [alike.same]
  · exact alike.change (fun s => { s with nodes := s.nodes + 1 }) (fun _ => rfl) (fun _ => rfl)
      fun _ _ => rfl

theorem placeholder : c.Tracks Grammar.placeholder Grammar.placeholder := build _

/-! ### Names and types -/

theorem name : c.Tracks Grammar.name Grammar.name := by
  refine position.bind fun pos => peekKind.bind fun kind => ?_
  split
  · exact skip.bind fun _ => pure _
  · exact unexpected _

theorem rejectTypeName (name : String) (pos : Position) :
    c.Tracks (Grammar.rejectTypeName name pos) (Grammar.rejectTypeName name pos) := by
  refine (observe fun s t alike => by rw [alike.types]).bind fun known => ?_
  split
  · exact (record rfl).bind fun _ => pure _
  · exact pure _

theorem ident : c.Tracks Grammar.ident Grammar.ident :=
  name.bind fun _ => (rejectTypeName _ _).bind fun _ => pure _

theorem stars : c.Tracks Grammar.stars Grammar.stars := by
  refine repeatUntilDone (fun depth => (accept _).bind fun found => ?_) 0
  split
  · exact pure _
  · exact pure _

-- What is looked up in alike states is the same and comes from one of them.
theorem look {f : State → α} {g g' : α → Parser β} (same : ∀ s t, c.Alike s t → f t = f s)
    (rest : ∀ s, c.Tracks (g (f s)) (g' (f s))) :
    c.Tracks (Grammar.observe f >>= g) (Grammar.observe f >>= g') := by
  refine ⟨Keeps.look fun s => (rest s).keeps, fun s t alike => ?_⟩
  rw [observe_bind, observe_bind, same s t alike]
  exact (rest s).agree s t alike

theorem typeName : c.Tracks Grammar.typeName Grammar.typeName :=
  name.bind fun _ => look (fun s t alike => by rw [alike.types]) fun _ =>
    (recover fun _ => TypeTable.resolve_mild).bind fun _ => stars.bind fun _ => pure _

theorem declare {declaration : Symbols → Except Diagnostic (α × Symbols)}
    (keeps : Keeps c.Stays (Grammar.declare declaration)) :
    c.Tracks (Grammar.declare declaration) (Grammar.declare declaration) := by
  refine ⟨keeps, fun s t alike => ?_⟩
  unfold Grammar.declare
  rw [alike.symbols]
  split
  · next value symbols _ =>
    exact .returned (alike.change (fun s => { s with symbols }) (fun _ => rfl) (fun _ => rfl)
      fun _ _ => rfl)
  · exact .returned (alike.record _)

theorem declareVariable (name : String) (type : DataType) (pos : Position) :
    c.Tracks (Grammar.declareVariable name type pos) (Grammar.declareVariable name type pos) := by
  have enters := declare (c.steps.enterVariable name type pos)
  unfold Grammar.declareVariable
  dsimp only
  split
  · exact (record rfl).bind fun _ => enters
  · exact enters

theorem lookupVariable (name : String) (pos : Position) :
    c.Tracks (Grammar.lookupVariable name pos) (Grammar.lookupVariable name pos) :=
  look (fun s t alike => by rw [alike.symbols]) fun _ => recover fun _ => Symbols.lookupVariable_mild

theorem lookupFunction (name : String) (pos : Position) :
    c.Tracks (Grammar.lookupFunction name pos) (Grammar.lookupFunction name pos) :=
  look (fun s t alike => by rw [alike.symbols]) fun _ => recover fun _ => Symbols.lookupFunction_mild

/-! ### Expressions -/

theorem operatorOr (find : Token.Kind → Option α) (refused : Mark) (construct : String) :
    c.Tracks (Grammar.operatorOr find refused construct)
      (Grammar.operatorOr find refused construct) := by
  refine peekKind.bind fun kind => ?_
  split
  · exact skip.bind fun _ => pure _
  · split
    · exact position.bind fun _ => stop _
    · exact pure _

theorem buildTree (tree : OperatorTree Node) :
    c.Tracks (Grammar.buildTree tree) (Grammar.buildTree tree) := by
  induction tree with
  | leaf node => exact pure node
  | branch op lhs rhs left right => exact left.bind fun _ => right.bind fun _ => build _

theorem accessNode (var : Option VarId) :
    c.Tracks (Grammar.accessNode var) (Grammar.accessNode var) := by
  cases var with
  | none => exact placeholder
  | some var => exact build (.access · var)

theorem assignNode (op : AssignOp) (value : Node) (var : Option VarId) :
    c.Tracks (Grammar.assignNode op value var) (Grammar.assignNode op value var) := by
  cases var with
  | none => exact pure value
  | some var => exact build (.assign · var op value)

theorem stepNode (direction : Direction) (timing : Timing) (var : Option VarId) :
    c.Tracks (Grammar.stepNode direction timing var) (Grammar.stepNode direction timing var) := by
  cases var with
  | none => exact placeholder
  | some var => exact build (.step · direction var timing)

section

variable {inner inner' : Parser Node} (tracks : c.Tracks inner inner')

include tracks

theorem operatorTail : c.Tracks (Grammar.operatorTail inner) (Grammar.operatorTail inner') := by
  refine repeatUntilDone (fun pairs => (operatorOr _ _ _).bind fun op => ?_) []
  split
  · exact tracks.bind fun _ => pure _
  · exact pure _

theorem expressionOf : c.Tracks (Grammar.expressionOf inner) (Grammar.expressionOf inner') :=
  tracks.bind fun _ => (operatorTail tracks).bind fun _ => buildTree _

theorem assignmentOf (var : Option VarId) :
    c.Tracks (Grammar.assignmentOf inner var) (Grammar.assignmentOf inner' var) := by
  refine (operatorOr _ _ _).bind fun op => ?_
  split
  · exact tracks.bind fun _ => assignNode _ _ _
  · exact accessNode _

theorem declarationOf : c.Tracks (Grammar.declarationOf inner) (Grammar.declarationOf inner') :=
  typeName.bind fun _ => ident.bind fun _ => (declareVariable _ _ _).bind fun _ =>
    assignmentOf tracks _

theorem nameOf : c.Tracks (Grammar.nameOf inner) (Grammar.nameOf inner') := by
  refine name.bind fun found => (rejectTypeName _ _).bind fun rejected => ?_
  split
  · exact placeholder
  · refine peekKind.bind fun kind => ?_
    split
    · refine skip.bind fun _ => (expect _).bind fun _ => (lookupFunction _ _).bind fun func => ?_
      split
      · exact build _
      · exact placeholder
    · split
      · exact skip.bind fun _ => (lookupVariable _ _).bind fun _ => stepNode _ _ _
      · exact (lookupVariable _ _).bind fun _ => assignmentOf tracks _

theorem unaryOf (op : UnaryOp) : c.Tracks (Grammar.unaryOf op inner) (Grammar.unaryOf op inner') :=
  skip.bind fun _ => tracks.bind fun _ => build _

end

theorem steppedVariable : c.Tracks Grammar.steppedVariable Grammar.steppedVariable := by
  refine name.bind fun found => (rejectTypeName _ _).bind fun rejected => ?_
  split
  · exact pure _
  · exact lookupVariable _ _

end Tracks

-- A rule that begins with a name leaves the parses apart if they come apart with that name.
theorem apart_bind {p : Parser α} {f : α → Parser β} (rest : ∀ a, Keeps c.Stays (f a))
    (apart : c.Apart (finalState (p s))) : c.Apart (finalState ((p >>= f) s)) := by
  simp only [Bind.bind, EStateM.bind]
  cases run : p s with
  | ok a s₁ =>
    rw [run] at apart
    exact c.apart ((rest a).final s₁) apart
  | error stop s₁ =>
    rw [run] at apart
    exact apart

theorem apart_name {text : String} (next : s.kind = .ident text)
    (apart : c.Apart s.next.2) : c.Apart (finalState (name s)) := by
  rw [name_of_kind next]
  exact apart

namespace Tracks

theorem declarationOrName {inner inner' : Parser Node} (tracks : c.Tracks inner inner') :
    c.Tracks
      (Grammar.observe State.atDeclaration >>= fun declared =>
        if declared then Grammar.declarationOf inner else Grammar.nameOf inner)
      (Grammar.observe State.atDeclaration >>= fun declared =>
        if declared then Grammar.declarationOf inner' else Grammar.nameOf inner') := by
  have rel := c.steps
  refine ⟨rel.bind (rel.observe _) fun declared => ?_, fun s t alike => ?_⟩
  · split
    · exact rel.declarationOf tracks.keeps
    · exact rel.nameOf tracks.keeps
  · rw [observe_bind, observe_bind]
    rcases alike.atDeclaration with same | ⟨⟨text, next⟩, left⟩
    · rw [same]
      split
      · exact (declarationOf tracks).agree s t alike
      · exact (nameOf tracks).agree s t alike
    · refine .apart ?_
      have named := apart_name next left
      split
      · refine apart_bind (fun _ => ?_) (apart_bind (fun _ => ?_) named)
        · exact rel.bind rel.ident fun _ => rel.bind (rel.declareVariable _ _ _) fun _ =>
            rel.assignmentOf tracks.keeps _
        · exact Keeps.look fun _ => rel.bind (rel.recover fun _ => TypeTable.resolve_mild)
            fun _ => rel.bind rel.stars fun _ => rel.pure _
      · obtain ⟨rest, same, keeps⟩ := rel.nameOf_rest tracks.keeps
        rw [same]
        exact apart_bind keeps named

theorem primaryOf {wide wide' narrow narrow' : Parser Node} (wider : c.Tracks wide wide')
    (narrower : c.Tracks narrow narrow') :
    c.Tracks (Grammar.primaryOf wide narrow) (Grammar.primaryOf wide' narrow') := by
  refine peekKind.bind fun kind => ?_
  split
  · exact skip.bind fun _ => wider.bind fun _ => (expect _).bind fun _ => pure _
  · exact unaryOf narrower _
  · exact unaryOf narrower _
  · exact skip.bind fun _ => steppedVariable.bind fun _ => stepNode _ _ _
  · exact skip.bind fun _ => steppedVariable.bind fun _ => stepNode _ _ _
  · exact skip.bind fun _ => build _
  · exact skip.bind fun _ => build _
  · exact declarationOrName wider
  · exact unexpected _

theorem primary (depth depth' : Nat) :
    c.Tracks (Grammar.primary depth) (Grammar.primary depth') := by
  induction depth generalizing depth' with
  | zero => exact ⟨c.steps.throw _, fun _ _ _ => .exhausted⟩
  | succ depth ih =>
    cases depth' with
    | zero => exact exhausted (c.steps.primary _)
    | succ depth' => exact primaryOf (expressionOf (ih depth')) (ih depth')

theorem expression : c.Tracks Grammar.expression Grammar.expression :=
  ⟨c.steps.expression, fun s t alike => (expressionOf (primary _ _)).agree s t alike⟩

/-! ### Statements -/

theorem missingBrace : c.Tracks Grammar.missingBrace Grammar.missingBrace :=
  position.bind fun _ => record rfl

theorem parenthesized : c.Tracks Grammar.parenthesized Grammar.parenthesized :=
  (expect _).bind fun _ => expression.bind fun _ => (expect _).bind fun _ => pure _

theorem putc : c.Tracks Grammar.putc Grammar.putc :=
  skip.bind fun _ => parenthesized.bind fun _ => (expect _).bind fun _ => build _

theorem reportAfterDefault (cases : Cases) :
    c.Tracks (Grammar.reportAfterDefault cases) (Grammar.reportAfterDefault cases) := by
  unfold Grammar.reportAfterDefault
  split
  · exact current.bind fun _ => record rfl
  · exact pure _

section

variable {inner inner' : Parser (Option Node)} (tracks : c.Tracks inner inner')

include tracks

theorem statementRound (body : List Node) :
    c.Tracks (Grammar.statementRound inner body) (Grammar.statementRound inner' body) := by
  refine peekKind.bind fun kind => ?_
  split
  · exact skip.bind fun _ => pure _
  · exact missingBrace.bind fun _ => pure _
  · exact tracks.bind fun _ => pure _

theorem bracedBody : c.Tracks (Grammar.bracedBody inner) (Grammar.bracedBody inner') :=
  repeatUntilDone (statementRound tracks) []

theorem blockOf : c.Tracks (Grammar.blockOf inner) (Grammar.blockOf inner') := by
  refine (accept _).bind fun braced => ?_
  split
  · exact (bracedBody tracks).bind fun _ => build _
  · refine tracks.bind fun node => ?_
    split
    · exact pure _
    · exact build _

theorem ifOf : c.Tracks (Grammar.ifOf inner) (Grammar.ifOf inner') := by
  refine skip.bind fun _ => parenthesized.bind fun _ => (blockOf tracks).bind fun _ =>
    (accept _).bind fun other => ?_
  split
  · exact (blockOf tracks).bind fun _ => build _
  · exact build _

theorem whileOf : c.Tracks (Grammar.whileOf inner) (Grammar.whileOf inner') :=
  skip.bind fun _ => parenthesized.bind fun _ => (blockOf tracks).bind fun _ => build _

theorem doOf : c.Tracks (Grammar.doOf inner) (Grammar.doOf inner') :=
  skip.bind fun _ => (blockOf tracks).bind fun _ => (expectWord _).bind fun _ =>
    parenthesized.bind fun _ => (expect _).bind fun _ => build _

-- This is where a used up list of tokens differs from one with an end of the file.
theorem caseRound (ends : ∀ s t, c.Alike s t → t.check endsCase = s.check endsCase)
    (body : List Node) : c.Tracks (Grammar.caseRound inner body) (Grammar.caseRound inner' body) := by
  refine (observe ends).bind fun ended => ?_
  split
  · exact pure _
  · exact tracks.bind fun _ => pure _

theorem caseBody (ends : ∀ s t, c.Alike s t → t.check endsCase = s.check endsCase) :
    c.Tracks (Grammar.caseBody inner) (Grammar.caseBody inner') :=
  (repeatUntilDone (caseRound tracks ends) []).bind fun _ => build _

theorem statementOf (switch : c.Tracks (Grammar.switchOf inner) (Grammar.switchOf inner')) :
    c.Tracks (Grammar.statementOf inner) (Grammar.statementOf inner') := by
  refine peekKind.bind fun kind => ?_
  split
  · exact skip.bind fun _ => pure _
  · exact map _ (blockOf tracks)
  · exact map _ (ifOf tracks)
  · exact map _ (whileOf tracks)
  · exact map _ (doOf tracks)
  · exact map _ switch
  · exact map _ putc
  · exact expression.bind fun _ => (expect _).bind fun _ => pure _

end

theorem switchRound {inner inner' : Parser (Option Node)}
    (body : c.Tracks (Grammar.caseBody inner) (Grammar.caseBody inner')) (cases : Cases) :
    c.Tracks (Grammar.switchRound inner cases) (Grammar.switchRound inner' cases) := by
  refine peekKind.bind fun kind => ?_
  split
  · exact (reportAfterDefault _).bind fun _ => skip.bind fun _ => expression.bind fun _ =>
      (expect _).bind fun _ => body.bind fun _ => pure _
  · exact (reportAfterDefault _).bind fun _ => skip.bind fun _ => (expect _).bind fun _ =>
      body.bind fun _ => pure _
  · exact skip.bind fun _ => pure _
  · exact missingBrace.bind fun _ => pure _
  · exact (expectWord _).bind fun _ => pure _

theorem switchOf {inner inner' : Parser (Option Node)}
    (rounds : c.Tracks (Grammar.repeatUntilDone (Grammar.switchRound inner) {})
      (Grammar.repeatUntilDone (Grammar.switchRound inner') {})) :
    c.Tracks (Grammar.switchOf inner) (Grammar.switchOf inner') :=
  skip.bind fun _ => parenthesized.bind fun _ => (expect _).bind fun _ =>
    rounds.bind fun _ => build _

theorem statement
    (switch : ∀ depth depth', c.Tracks (Grammar.statement depth) (Grammar.statement depth') →
      c.Tracks (Grammar.switchOf (Grammar.statement depth))
        (Grammar.switchOf (Grammar.statement depth')))
    (depth depth' : Nat) : c.Tracks (Grammar.statement depth) (Grammar.statement depth') := by
  induction depth generalizing depth' with
  | zero => exact ⟨c.steps.throw _, fun _ _ _ => .exhausted⟩
  | succ depth ih =>
    cases depth' with
    | zero => exact exhausted (c.steps.statement _)
    | succ depth' => exact statementOf (ih depth') (switch depth depth' (ih depth'))

/-! ### Definitions -/

theorem addField (fields : List (String × DataType)) (name : String) (pos : Position)
    (type : DataType) :
    c.Tracks (Grammar.addField fields name pos type) (Grammar.addField fields name pos type) := by
  unfold Grammar.addField
  split
  · exact (record rfl).bind fun _ => pure _
  · exact pure _

theorem structFields : c.Tracks Grammar.structFields Grammar.structFields := by
  refine repeatUntilDone (fun fields => peekKind.bind fun kind => ?_) []
  split
  · exact skip.bind fun _ => pure _
  · exact missingBrace.bind fun _ => pure _
  · exact typeName.bind fun _ => ident.bind fun _ => (expect _).bind fun _ =>
      (addField _ _ _ _).bind fun _ => pure _

theorem registerType (type : DataType) :
    c.Tracks (Grammar.registerType type) (Grammar.registerType type) := by
  refine lift (Keeps.lift fun s => c.steps.enterType s type) fun s t alike => .inl ⟨rfl, ?_⟩
  exact alike.change (fun s => { s with types := s.types.register type }) (fun _ => rfl)
    (fun _ => rfl) fun _ _ => rfl

theorem structDefinition : c.Tracks Grammar.structDefinition Grammar.structDefinition :=
  skip.bind fun _ => name.bind fun _ => (expect _).bind fun _ => structFields.bind fun _ =>
    (accept _).bind fun _ => registerType _

theorem classDefinition : c.Tracks Grammar.classDefinition Grammar.classDefinition :=
  skip.bind fun _ => name.bind fun _ => (expect _).bind fun _ => registerType _

theorem defineFunction (func : FuncId) (body : Node) :
    c.Tracks (Grammar.defineFunction func body) (Grammar.defineFunction func body) := by
  refine lift (Keeps.lift fun s => c.steps.define s func body)
    fun s t alike => .inl ⟨rfl, ?_⟩
  exact alike.change (fun s => { s with symbols := s.symbols.defineFunction func body })
    (fun _ => rfl) (fun _ => rfl) fun _ _ => rfl

section

variable (statements : ∀ depth depth',
  c.Tracks (Grammar.statement depth) (Grammar.statement depth'))

include statements

theorem block : c.Tracks Grammar.block Grammar.block :=
  ⟨c.steps.block, fun s t alike => (blockOf (statements _ _)).agree s t alike⟩

theorem globalDefinition : c.Tracks Grammar.globalDefinition Grammar.globalDefinition := by
  refine typeName.bind fun _ => ident.bind fun _ => peekKind.bind fun kind => ?_
  split
  · refine skip.bind fun _ => (expect _).bind fun _ =>
      (declare (c.steps.declareFunction _ _)).bind fun func => (block statements).bind fun body => ?_
    split
    · exact defineFunction _ _
    · exact pure _
  · exact skip.bind fun _ => (declareVariable _ _ _).bind fun _ => pure _
  · exact unexpected _

theorem definitionRound (value : Unit) :
    c.Tracks (Grammar.definitionRound value) (Grammar.definitionRound value) := by
  refine peekKind.bind fun kind => ?_
  split
  · exact pure _
  · exact structDefinition.bind fun _ => pure _
  · exact classDefinition.bind fun _ => pure _
  · exact (globalDefinition statements).bind fun _ => pure _
  · exact unexpected _

theorem definitions : c.Tracks Grammar.definitions Grammar.definitions :=
  repeatUntilDone (definitionRound statements) ()

end

end Tracks

/-- Whole parses give the same answer or come apart. -/
theorem Agree.parse (agree : c.Agree (definitions s) (definitions t)) :
    t.parse = s.parse ∨ c.Apart (finalState (definitions s)) := by
  have ends := Ends.definitions s
  have ends' := Ends.definitions t
  unfold State.parse
  generalize definitions s = run at agree ends
  generalize definitions t = run' at agree ends'
  cases agree with
  | returned alike =>
    dsimp only
    rw [alike.symbols, alike.errors]
    exact .inl rfl
  | @stopped stop s₁ t₁ alike =>
    obtain ⟨diagnostic, rfl, _⟩ := ends
    dsimp only
    rw [alike.errors]
    exact .inl rfl
  | exhausted => exact absurd rfl (Ends.ne_exhausted ends _)
  | exhausted' => exact absurd rfl (Ends.ne_exhausted ends' _)
  | apart apart => exact .inr apart

end Comparison

end IonLang.Grammar
