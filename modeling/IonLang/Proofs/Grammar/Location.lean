import IonLang.Proofs.Grammar.Acceptance
import IonLang.Proofs.Grammar.WellFormed
import IonLang.Proofs.Token.Coverage
import Mathlib.Data.List.Pairwise

/-!
# What diagnostics point at

A parse holds on to positions while it reads on, so it is not clear from a single rule that a
diagnostic stands at the token it speaks of. `Traces tokens p` says that a step of a parse over
`tokens` records only diagnostics that do, and stops only with one that does. The unread tokens close
with the end of the file, so a position is never made up at the end of the input.
-/

namespace IonLang

namespace Diagnostic

def reported? : Diagnostic → Option Token.Kind
  | expectedToken _ found | expectedWord _ found | unexpectedToken found _ => some found.kind
  | unknownFunction name _ | unknownVariable name _ | unknownType name _
  | variableRedeclared name _ | functionRedeclared name _ => some (.ident name)
  | fileAccess _ | settingsAccess _ | invalidSettings | strayCharacter .. | extraDot _
  | missingCharacter .. | typeNotAllowed .. | notImplemented .. | missingEntryPoint
  | unsupported _ => none

def isStray : Diagnostic → Bool
  | strayCharacter .. => true
  | _ => false

/-- A diagnostic stands at a token, which is of the kind that is reported. -/
structure PointsAt (d : Diagnostic) (token : Token) : Prop where
  stands : d.position? = some token.pos
  kind : ∀ kind, d.reported? = some kind → token.kind = kind
  lexed : d.isStray = false

def PointsInto (tokens : List Token) (d : Diagnostic) : Prop := ∃ token ∈ tokens, d.PointsAt token

variable {tokens : List Token} {d : Diagnostic} {token : Token}

theorem pointsInto_token (member : token ∈ tokens) (stands : d.position? = some token.pos)
    (kind : d.reported? = some token.kind) : d.PointsInto tokens := by
  refine ⟨token, member, stands, fun other same => ?_, ?_⟩
  · rw [kind] at same
    exact Option.some.inj same
  · cases d with
    | strayCharacter c pos => cases kind
    | _ => rfl

theorem pointsInto_place (member : token ∈ tokens) (stands : d.position? = some token.pos)
    (silent : d.reported? = none) (lexed : d.isStray = false) : d.PointsInto tokens := by
  refine ⟨token, member, stands, fun other same => ?_, lexed⟩
  rw [silent] at same
  cases same

end Diagnostic

def Symbols.NamedBy (tokens : List Token) (symbols : Symbols) : Prop :=
  ∀ func ∈ symbols.functions, ∃ token ∈ tokens, token.kind = .ident func.name

namespace Grammar

open Diagnostic (PointsInto pointsInto_token pointsInto_place)

/-! ### States -/

structure State.Traced (tokens : List Token) (s : State) : Prop where
  unread : s.unread ⊆ tokens
  terminated : s.Terminated
  errors : ∀ d ∈ s.errors, PointsInto tokens d
  named : s.symbols.NamedBy tokens

variable {tokens : List Token} {s : State}

theorem State.Traced.current (traced : s.Traced tokens) : s.current ∈ tokens := by
  obtain ⟨front, eof, unread, _⟩ := traced.terminated
  apply traced.unread
  cases front with
  | nil => simp [State.current, unread]
  | cons token front => simp [State.current, unread]

theorem State.Traced.next (traced : s.Traced tokens) : s.next.2.Traced tokens := by
  obtain ⟨errors, _, symbols, _⟩ := next_frame s
  refine ⟨fun token member => traced.unread ?_, traced.terminated.next, ?_, ?_⟩
  · unfold State.next at member
    split at member
    · exact member
    · next first rest unread =>
      split at member
      · exact member
      · exact unread ▸ List.mem_cons_of_mem first member
  · rw [errors]
    exact traced.errors
  · rw [symbols]
    exact traced.named

theorem State.Traced.record {d : Diagnostic} (traced : s.Traced tokens) (points : d.PointsInto tokens) :
    (s.record d).Traced tokens := by
  refine ⟨traced.unread, traced.terminated, fun other member => ?_, traced.named⟩
  rcases List.mem_append.mp member with earlier | new
  · exact traced.errors other earlier
  · rw [List.mem_singleton.mp new]
    exact points

theorem State.Traced.enter {symbols : Symbols} (traced : s.Traced tokens)
    (named : symbols.NamedBy tokens) : State.Traced tokens { s with symbols } :=
  ⟨traced.unread, traced.terminated, traced.errors, named⟩

theorem State.Traced.consumeIf (traced : s.Traced tokens) (accept : Token.Kind → Bool) :
    (s.consumeIf accept).2.Traced tokens := by
  unfold State.consumeIf
  split
  · exact traced.next
  · exact traced

theorem State.Traced.expectOr {complaint : Token → Diagnostic} (traced : s.Traced tokens)
    (accept : Token.Kind → Bool) (points : ∀ token ∈ tokens, (complaint token).PointsInto tokens) :
    (s.expectOr accept complaint).2.Traced tokens := by
  have consumed := traced.consumeIf accept
  unfold State.expectOr
  split
  · next found => rwa [found] at consumed
  · next s₁ missing =>
    rw [missing] at consumed
    exact (consumed.record (points _ consumed.current)).next

/-! ### Sequences and loops -/

/-- From a traced state, the step leads to a traced state and stops only with a diagnostic that points
at a token. -/
def Traces (tokens : List Token) {α : Type} (p : Parser α) : Prop :=
  ∀ s : State, s.Traced tokens →
    match p s with
    | .ok _ s' => s'.Traced tokens
    | .error stop s' => s'.Traced tokens ∧ ∀ d, stop = .fatal d → PointsInto tokens d

namespace Traces

variable {α β : Type}

theorem pure (a : α) : Traces tokens (Pure.pure a : Parser α) := fun _ traced => traced

theorem bind {p : Parser α} {f : α → Parser β} (first : Traces tokens p)
    (rest : ∀ a, Traces tokens (f a)) : Traces tokens (p >>= f) := by
  intro s traced
  have before := first s traced
  simp only [Bind.bind, EStateM.bind]
  split at before
  · next a s₁ read =>
    simp only [read]
    exact rest a s₁ before
  · next stopped => simpa only [stopped] using before

theorem map (f : α → β) {p : Parser α} (traces : Traces tokens p) : Traces tokens (f <$> p) := by
  intro s traced
  have := traces s traced
  simp only [Functor.map, EStateM.map]
  split at this
  · next read => simpa only [read] using this
  · next stopped => simpa only [stopped] using this

theorem exhausted : Traces tokens (throw .exhausted : Parser α) :=
  fun _ traced => ⟨traced, fun _ same => by cases same⟩

theorem stop {d : Diagnostic} (points : d.PointsInto tokens) :
    Traces tokens (Grammar.stop d : Parser α) :=
  fun _ traced => ⟨traced, fun _ same => by cases same; exact points⟩

theorem lift {f : State → α × State} (kept : ∀ s, s.Traced tokens → (f s).2.Traced tokens) :
    Traces tokens (Grammar.lift f) :=
  fun s traced => kept s traced

theorem look {f : State → α} {g : α → Parser β} (rest : ∀ s, Traces tokens (g (f s))) :
    Traces tokens (Grammar.observe f >>= g) :=
  fun s traced => rest s s traced

/-- Whatever a step does with the next token, it is one of the tokens. -/
theorem bindCurrent {f : Token → Parser α} (rest : ∀ token ∈ tokens, Traces tokens (f token)) :
    Traces tokens (Grammar.current >>= f) :=
  fun s traced => rest s.current traced.current s traced

theorem bindPosition {f : Position → Parser α}
    (rest : ∀ token ∈ tokens, Traces tokens (f token.pos)) :
    Traces tokens (Grammar.position >>= f) :=
  fun s traced => rest s.current traced.current s traced

theorem bindKind {f : Token.Kind → Parser α} (rest : ∀ kind, Traces tokens (f kind)) :
    Traces tokens (Grammar.peekKind >>= f) :=
  fun s traced => rest s.kind s traced

theorem iterate {step : β → Parser (ForInStep β)} (kept : ∀ value, Traces tokens (step value))
    (rounds : Nat) (value : β) : Traces tokens (Grammar.iterate step rounds value) := by
  induction rounds generalizing value with
  | zero => exact exhausted
  | succ rounds ih =>
    intro s traced
    have before := kept value s traced
    simp only [Grammar.iterate]
    split at before
    · next again s₁ round =>
      cases again with
      | done value => simpa only [round] using before
      | yield value =>
        simp only [round]
        exact ih value s₁ before
    · next stopped => simpa only [stopped] using before

theorem repeatUntilDone {step : β → Parser (ForInStep β)} (kept : ∀ value, Traces tokens (step value))
    (value : β) : Traces tokens (Grammar.repeatUntilDone step value) :=
  fun s traced => iterate kept (s.unread.length + 1) value s traced

/-! ### Steps over tokens -/

theorem skip : Traces tokens Grammar.skip := lift fun _ traced => traced.next

theorem accept (kind : Token.Kind) : Traces tokens (Grammar.accept kind) :=
  lift fun _ traced => traced.consumeIf _

theorem expect (mark : Mark) : Traces tokens (Grammar.expect mark) :=
  lift fun _ traced => traced.expectOr _ fun _ member => pointsInto_token member rfl rfl

theorem expectWord (keyword : Keyword) : Traces tokens (Grammar.expectWord keyword) :=
  lift fun _ traced => traced.expectOr _ fun _ member => pointsInto_token member rfl rfl

theorem record {d : Diagnostic} (points : d.PointsInto tokens) :
    Traces tokens (Grammar.record d) :=
  lift fun _ traced => traced.record points

theorem recover {result : Except Diagnostic α}
    (points : ∀ d, result = .error d → d.PointsInto tokens) :
    Traces tokens (Grammar.recover result) := by
  cases result with
  | ok value => exact pure _
  | error d => exact bind (record (points d rfl)) fun _ => pure _

theorem unexpected (expected : String) : Traces tokens (Grammar.unexpected expected : Parser α) :=
  bindCurrent fun _ member => stop (pointsInto_token member rfl rfl)

theorem build (node : Nat → Node) : Traces tokens (Grammar.build node) :=
  lift fun _ traced => ⟨traced.unread, traced.terminated, traced.errors, traced.named⟩

theorem placeholder : Traces tokens Grammar.placeholder := build _

/-! ### Names and types -/

/-- A name that was read is an identifier among the tokens, at the position that was kept. -/
theorem bindName {f : String × Position → Parser α}
    (rest : ∀ name pos, ⟨.ident name, pos⟩ ∈ tokens → Traces tokens (f (name, pos))) :
    Traces tokens (Grammar.name >>= f) := by
  intro s traced
  cases next : s.kind with
  | ident name =>
    have member : ⟨.ident name, s.position⟩ ∈ tokens := next ▸ traced.current
    have read : Grammar.name s = .ok (name, s.position) s.next.2 := by
      simp only [Grammar.name, position_bind, peekKind_bind, next, skip_bind]
      rfl
    rw [bind_run read]
    exact rest name s.position member s.next.2 traced.next
  | _ =>
    have stopped : Grammar.name s = Grammar.unexpected "identifier" s := by
      simp only [Grammar.name, position_bind, peekKind_bind, next]
    have refused := unexpected (α := String × Position) "identifier" s traced
    rw [← stopped] at refused
    simp only [Bind.bind, EStateM.bind]
    split at refused
    · next a s₁ read => exact absurd (stopped.symm.trans read) unexpected_ne_ok
    · next failed => simpa only [failed] using refused

theorem rejectTypeName {name : String} {pos : Position} (member : ⟨.ident name, pos⟩ ∈ tokens) :
    Traces tokens (Grammar.rejectTypeName name pos) := by
  refine look fun s => ?_
  split
  · exact bind (record (pointsInto_place member rfl rfl rfl)) fun _ => pure _
  · exact pure _

theorem bindIdent {f : String × Position → Parser α}
    (rest : ∀ name pos, ⟨.ident name, pos⟩ ∈ tokens → Traces tokens (f (name, pos))) :
    Traces tokens (Grammar.ident >>= f) := by
  have same : (Grammar.ident >>= f) = Grammar.name >>= fun found =>
      Grammar.rejectTypeName found.1 found.2 >>= fun _ => f found := by
    rw [Grammar.ident]
    simp only [bind_assoc, pure_bind]
  rw [same]
  exact bindName fun name pos member => bind (rejectTypeName member) fun _ => rest name pos member

theorem stars : Traces tokens Grammar.stars := by
  refine repeatUntilDone (fun depth => bind (accept _) fun found => ?_) 0
  split
  · exact pure _
  · exact pure _

theorem typeName : Traces tokens Grammar.typeName := by
  refine bindName fun name pos member => look fun s => bind (recover fun d failed => ?_) fun _ =>
    bind stars fun _ => pure _
  unfold TypeTable.resolve at failed
  split at failed
  · cases failed
  · cases failed
    exact pointsInto_token member rfl rfl

theorem declare {declaration : Symbols → Except Diagnostic (α × Symbols)}
    (entered : ∀ symbols value symbols', declaration symbols = .ok (value, symbols') →
      symbols.NamedBy tokens → symbols'.NamedBy tokens)
    (failed : ∀ symbols d, declaration symbols = .error d → d.PointsInto tokens) :
    Traces tokens (Grammar.declare declaration) := by
  intro s traced
  cases declared : declaration s.symbols with
  | ok result =>
    simp only [Grammar.declare, declared]
    exact traced.enter (entered _ _ _ declared traced.named)
  | error d =>
    simp only [Grammar.declare, declared]
    exact traced.record (failed _ _ declared)

theorem declareVariable {name : String} {pos : Position} (type : DataType)
    (member : ⟨.ident name, pos⟩ ∈ tokens) :
    Traces tokens (Grammar.declareVariable name type pos) := by
  have enters : Traces tokens
      (Grammar.declare fun symbols => symbols.declareVariable name type pos) := by
    refine declare (fun symbols var symbols' declared named => ?_) fun symbols d failed => ?_
    · obtain ⟨_, _, rfl⟩ := declareVariable_eq_ok declared
      exact named
    · unfold Symbols.declareVariable at failed
      split at failed
      · cases failed
        exact pointsInto_token member rfl rfl
      · cases failed
  unfold Grammar.declareVariable
  dsimp only
  split
  · exact bind (record (pointsInto_place member rfl rfl rfl)) fun _ => enters
  · exact enters

theorem declareFunction {name : String} {pos : Position} (member : ⟨.ident name, pos⟩ ∈ tokens) :
    Traces tokens (Grammar.declareFunction name pos) := by
  refine declare (fun symbols func symbols' declared named => ?_) fun symbols d failed => ?_
  · obtain ⟨_, _, rfl⟩ := declareFunction_eq_ok declared
    intro other found
    rcases List.mem_append.mp found with earlier | new
    · exact named other earlier
    · rw [List.mem_singleton.mp new]
      exact ⟨_, member, rfl⟩
  · unfold Symbols.declareFunction at failed
    split at failed
    · cases failed
      exact pointsInto_token member rfl rfl
    · cases failed

theorem lookupVariable {name : String} {pos : Position} (member : ⟨.ident name, pos⟩ ∈ tokens) :
    Traces tokens (Grammar.lookupVariable name pos) := by
  refine look fun s => recover fun d failed => ?_
  unfold Symbols.lookupVariable at failed
  split at failed
  · cases failed
  · cases failed
    exact pointsInto_token member rfl rfl

theorem lookupFunction {name : String} {pos : Position} (member : ⟨.ident name, pos⟩ ∈ tokens) :
    Traces tokens (Grammar.lookupFunction name pos) := by
  refine look fun s => recover fun d failed => ?_
  unfold Symbols.lookupFunction at failed
  split at failed
  · cases failed
  · cases failed
    exact pointsInto_token member rfl rfl

/-! ### Expressions -/

theorem operatorOr (find : Token.Kind → Option α) (refused : Mark) (construct : String) :
    Traces tokens (Grammar.operatorOr find refused construct) := by
  refine bindKind fun kind => ?_
  split
  · exact bind skip fun _ => pure _
  · split
    · exact bindPosition fun _ member => stop (pointsInto_place member rfl rfl rfl)
    · exact pure _

theorem buildTree (tree : OperatorTree Node) : Traces tokens (Grammar.buildTree tree) := by
  induction tree with
  | leaf node => exact pure node
  | branch op lhs rhs left right => exact bind left fun _ => bind right fun _ => build _

theorem operatorTail {primary : Parser Node} (traces : Traces tokens primary) :
    Traces tokens (Grammar.operatorTail primary) := by
  refine repeatUntilDone (fun pairs => bind (operatorOr _ _ _) fun op => ?_) []
  split
  · exact bind traces fun _ => pure _
  · exact pure _

theorem expressionOf {primary : Parser Node} (traces : Traces tokens primary) :
    Traces tokens (Grammar.expressionOf primary) :=
  bind traces fun _ => bind (operatorTail traces) fun _ => buildTree _

theorem accessNode (var : Option VarId) : Traces tokens (Grammar.accessNode var) := by
  cases var with
  | none => exact placeholder
  | some var => exact build (.access · var)

theorem assignNode (op : AssignOp) (value : Node) (var : Option VarId) :
    Traces tokens (Grammar.assignNode op value var) := by
  cases var with
  | none => exact pure value
  | some var => exact build (.assign · var op value)

theorem stepNode (direction : Direction) (timing : Timing) (var : Option VarId) :
    Traces tokens (Grammar.stepNode direction timing var) := by
  cases var with
  | none => exact placeholder
  | some var => exact build (.step · direction var timing)

theorem assignmentOf {expression : Parser Node} (traces : Traces tokens expression)
    (var : Option VarId) : Traces tokens (Grammar.assignmentOf expression var) := by
  refine bind (operatorOr _ _ _) fun op => ?_
  split
  · exact bind traces fun _ => assignNode _ _ _
  · exact accessNode _

theorem declarationOf {expression : Parser Node} (traces : Traces tokens expression) :
    Traces tokens (Grammar.declarationOf expression) :=
  bind typeName fun _ => bindIdent fun _ _ member => bind (declareVariable _ member) fun _ =>
    assignmentOf traces _

theorem nameOf {expression : Parser Node} (traces : Traces tokens expression) :
    Traces tokens (Grammar.nameOf expression) := by
  refine bindName fun name pos member => bind (rejectTypeName member) fun rejected => ?_
  split
  · exact placeholder
  · refine bindKind fun kind => ?_
    split
    · -- The name is looked up after the parentheses, and reported where it stands.
      refine bind skip fun _ => bind (expect _) fun _ => bind (lookupFunction member) fun func => ?_
      split
      · exact build _
      · exact placeholder
    · split
      · exact bind skip fun _ => bind (lookupVariable member) fun _ => stepNode _ _ _
      · exact bind (lookupVariable member) fun _ => assignmentOf traces _

theorem steppedVariable : Traces tokens Grammar.steppedVariable := by
  refine bindName fun name pos member => bind (rejectTypeName member) fun rejected => ?_
  split
  · exact pure _
  · exact lookupVariable member

theorem unaryOf (op : UnaryOp) {primary : Parser Node} (traces : Traces tokens primary) :
    Traces tokens (Grammar.unaryOf op primary) :=
  bind skip fun _ => bind traces fun _ => build _

theorem primaryOf {expression primary : Parser Node} (wide : Traces tokens expression)
    (narrow : Traces tokens primary) : Traces tokens (Grammar.primaryOf expression primary) := by
  refine bindKind fun kind => ?_
  split
  · exact bind skip fun _ => bind wide fun _ => bind (expect _) fun _ => pure _
  · exact unaryOf _ narrow
  · exact unaryOf _ narrow
  · exact bind skip fun _ => bind steppedVariable fun _ => stepNode _ _ _
  · exact bind skip fun _ => bind steppedVariable fun _ => stepNode _ _ _
  · exact bind skip fun _ => build _
  · exact bind skip fun _ => build _
  · refine look fun s => ?_
    split
    · exact declarationOf wide
    · exact nameOf wide
  · exact unexpected _

theorem primary (depth : Nat) : Traces tokens (Grammar.primary depth) := by
  induction depth with
  | zero => exact exhausted
  | succ depth ih => exact fun s traced => primaryOf (expressionOf ih) ih s traced

theorem expression : Traces tokens Grammar.expression :=
  fun s traced => expressionOf (primary (s.unread.length + 1)) s traced

/-! ### Statements -/

theorem missingBrace : Traces tokens Grammar.missingBrace :=
  bindPosition fun _ member => record (pointsInto_place member rfl rfl rfl)

theorem statementRound {statement : Parser (Option Node)} (traces : Traces tokens statement)
    (body : List Node) : Traces tokens (Grammar.statementRound statement body) := by
  refine bindKind fun kind => ?_
  split
  · exact bind skip fun _ => pure _
  · exact bind missingBrace fun _ => pure _
  · exact bind traces fun _ => pure _

theorem blockOf {statement : Parser (Option Node)} (traces : Traces tokens statement) :
    Traces tokens (Grammar.blockOf statement) := by
  refine bind (accept _) fun braced => ?_
  split
  · exact bind (repeatUntilDone (statementRound traces) []) fun _ => build _
  · refine bind traces fun node => ?_
    split
    · exact pure _
    · exact build _

theorem parenthesized : Traces tokens Grammar.parenthesized :=
  bind (expect _) fun _ => bind expression fun _ => bind (expect _) fun _ => pure _

theorem ifOf {statement : Parser (Option Node)} (traces : Traces tokens statement) :
    Traces tokens (Grammar.ifOf statement) := by
  refine bind skip fun _ => bind parenthesized fun _ => bind (blockOf traces) fun _ =>
    bind (accept _) fun other => ?_
  split
  · exact bind (blockOf traces) fun _ => build _
  · exact build _

theorem whileOf {statement : Parser (Option Node)} (traces : Traces tokens statement) :
    Traces tokens (Grammar.whileOf statement) :=
  bind skip fun _ => bind parenthesized fun _ => bind (blockOf traces) fun _ => build _

theorem doOf {statement : Parser (Option Node)} (traces : Traces tokens statement) :
    Traces tokens (Grammar.doOf statement) :=
  bind skip fun _ => bind (blockOf traces) fun _ => bind (expectWord _) fun _ =>
    bind parenthesized fun _ => bind (expect _) fun _ => build _

theorem caseRound {statement : Parser (Option Node)} (traces : Traces tokens statement)
    (body : List Node) : Traces tokens (Grammar.caseRound statement body) := by
  refine look fun s => ?_
  split
  · exact pure _
  · exact bind traces fun _ => pure _

theorem caseBody {statement : Parser (Option Node)} (traces : Traces tokens statement) :
    Traces tokens (Grammar.caseBody statement) :=
  bind (repeatUntilDone (caseRound traces) []) fun _ => build _

theorem reportAfterDefault (cases : Cases) : Traces tokens (Grammar.reportAfterDefault cases) := by
  unfold Grammar.reportAfterDefault
  split
  · exact bindCurrent fun _ member => record (pointsInto_token member rfl rfl)
  · exact pure _

theorem switchRound {statement : Parser (Option Node)} (traces : Traces tokens statement)
    (cases : Cases) : Traces tokens (Grammar.switchRound statement cases) := by
  refine bindKind fun kind => ?_
  split
  · exact bind (reportAfterDefault _) fun _ => bind skip fun _ => bind expression fun _ =>
      bind (expect _) fun _ => bind (caseBody traces) fun _ => pure _
  · exact bind (reportAfterDefault _) fun _ => bind skip fun _ => bind (expect _) fun _ =>
      bind (caseBody traces) fun _ => pure _
  · exact bind skip fun _ => pure _
  · exact bind missingBrace fun _ => pure _
  · exact bind (expectWord _) fun _ => pure _

theorem switchOf {statement : Parser (Option Node)} (traces : Traces tokens statement) :
    Traces tokens (Grammar.switchOf statement) :=
  bind skip fun _ => bind parenthesized fun _ => bind (expect _) fun _ =>
    bind (repeatUntilDone (switchRound traces) {}) fun _ => build _

theorem putc : Traces tokens Grammar.putc :=
  bind skip fun _ => bind parenthesized fun _ => bind (expect _) fun _ => build _

theorem statementOf {statement : Parser (Option Node)} (traces : Traces tokens statement) :
    Traces tokens (Grammar.statementOf statement) := by
  refine bindKind fun kind => ?_
  split
  · exact bind skip fun _ => pure _
  · exact map _ (blockOf traces)
  · exact map _ (ifOf traces)
  · exact map _ (whileOf traces)
  · exact map _ (doOf traces)
  · exact map _ (switchOf traces)
  · exact map _ putc
  · exact bind expression fun _ => bind (expect _) fun _ => pure _

theorem statement (depth : Nat) : Traces tokens (Grammar.statement depth) := by
  induction depth with
  | zero => exact exhausted
  | succ depth ih => exact fun s traced => statementOf ih s traced

theorem block : Traces tokens Grammar.block :=
  fun s traced => blockOf (statement (s.unread.length + 1)) s traced

/-! ### Definitions -/

theorem addField {name : String} {pos : Position} (fields : List (String × DataType))
    (type : DataType) (member : ⟨.ident name, pos⟩ ∈ tokens) :
    Traces tokens (Grammar.addField fields name pos type) := by
  unfold Grammar.addField
  split
  · exact bind (record (pointsInto_token member rfl rfl)) fun _ => pure _
  · exact pure _

theorem fieldRound (fields : List (String × DataType)) :
    Traces tokens (Grammar.fieldRound fields) := by
  refine bindKind fun kind => ?_
  split
  · exact bind skip fun _ => pure _
  · exact bind missingBrace fun _ => pure _
  · exact bind typeName fun _ => bindIdent fun _ _ member => bind (expect _) fun _ =>
      bind (addField _ _ member) fun _ => pure _

theorem registerType (type : DataType) : Traces tokens (Grammar.registerType type) :=
  lift fun _ traced => ⟨traced.unread, traced.terminated, traced.errors, traced.named⟩

theorem structDefinition : Traces tokens Grammar.structDefinition :=
  bind skip fun _ => bindName fun _ _ _ => bind (expect _) fun _ =>
    bind (repeatUntilDone fieldRound []) fun _ => bind (accept _) fun _ => registerType _

theorem classDefinition : Traces tokens Grammar.classDefinition :=
  bind skip fun _ => bindName fun _ _ _ => bind (expect _) fun _ => registerType _

theorem defineFunction (func : FuncId) (body : Node) :
    Traces tokens (Grammar.defineFunction func body) := by
  refine lift fun s traced => traced.enter fun other member => ?_
  obtain ⟨i, found⟩ := List.mem_iff_getElem?.mp member
  rw [Symbols.defineFunction, List.getElem?_modify] at found
  obtain ⟨old, known, rfl⟩ := Option.map_eq_some_iff.mp found
  have named := traced.named old (List.mem_of_getElem? known)
  split
  · exact named
  · exact named

theorem globalDefinition : Traces tokens Grammar.globalDefinition := by
  refine bind typeName fun _ => bindIdent fun name pos member => bindKind fun kind => ?_
  split
  · refine bind skip fun _ => bind (expect _) fun _ => bind (declareFunction member) fun func =>
      bind block fun body => ?_
    split
    · exact defineFunction _ _
    · exact pure _
  · exact bind skip fun _ => bind (declareVariable _ member) fun _ => pure _
  · exact unexpected _

theorem definitionRound (value : Unit) : Traces tokens (Grammar.definitionRound value) := by
  refine bindKind fun kind => ?_
  split
  · exact pure _
  · exact bind structDefinition fun _ => pure _
  · exact bind classDefinition fun _ => pure _
  · exact bind globalDefinition fun _ => pure _
  · exact unexpected _

theorem definitions : Traces tokens Grammar.definitions := repeatUntilDone definitionRound ()

end Traces

theorem traced_ofTokens {front : List Token} {eof : Token} (closed : tokens = front ++ [eof])
    (isEof : eof.kind = .eof) (solid : ∀ token ∈ front, token.kind ≠ .eof) :
    (State.ofTokens tokens).Traced tokens where
  unread := List.filter_subset_self _
  terminated := by
    refine ⟨front.filter fun token => !token.kind.isComment, eof, ?_, isEof, fun token member => ?_⟩
    · simp [State.ofTokens, closed, isEof, Token.Kind.isComment]
    · exact solid token (List.mem_of_mem_filter member)
  errors d member := by cases member
  named func member := by cases member

end Grammar

/-! ### Source texts -/

namespace Token

variable {file source : String}

theorem traced_scan (file source : String) :
    (Grammar.State.ofTokens (scan file source).tokens).Traced (scan file source).tokens := by
  obtain ⟨front, closed, solid⟩ := @scanLines_closed file (Text.lines source) 1 ⟨file, 1, 1⟩
  exact Grammar.traced_ofTokens closed rfl solid

theorem file_of_mem_scan {token : Token} (member : token ∈ (scan file source).tokens) :
    token.pos.file = file := by
  by_cases last : token.kind = .eof
  · rw [pos_eq_endOfFile member last, endOfFile]
    split
    · rfl
    · rfl
  · obtain ⟨i, line, _, found⟩ := exists_scanLine_of_mem token member last
    obtain ⟨before, lexeme, after, stands⟩ := (scanned_scanLine file (1 + i) line).stands token found
    rw [stands.pos]
    rfl

-- Positions grow from token to token, so they tell tokens apart.
theorem eq_of_pos_eq {token other : Token} (member : token ∈ (scan file source).tokens)
    (found : other ∈ (scan file source).tokens) (same : other.pos = token.pos) : other = token := by
  have symmetric : Std.Symm fun a b : Token => a.pos ≠ b.pos := ⟨fun _ _ => Ne.symm⟩
  have distinct : (scan file source).tokens.Pairwise fun a b => a.pos ≠ b.pos := by
    refine (scanLines_ordered 1 ⟨file, 1, 1⟩).imp fun {a b} before equal => ?_
    rw [Position.Before, equal] at before
    omega
  by_contra apart
  exact distinct.forall found member apart same

end Token

namespace Diagnostic

/-- What a diagnostic reports stands at a position of a source text: a stray character in the line and
behind as many bytes as the position says, and everything else at a token, the only one there. -/
def Located (file source : String) (pos : Position) : Diagnostic → Prop
  | strayCharacter c _ => ∃ i line front back, (Text.lines source)[i]? = some line ∧
      line.toList = front ++ c :: back ∧ pos.line = i + 1 ∧ pos.column = Token.byteSize front + 1
  | d => ∃ token ∈ (Token.scan file source).tokens, token.pos = pos ∧
      (∀ other ∈ (Token.scan file source).tokens, other.pos = pos → other = token) ∧
      ∀ kind, d.reported? = some kind → token.kind = kind

variable {file source : String} {d : Diagnostic}

theorem PointsInto.located (points : d.PointsInto (Token.scan file source).tokens) :
    ∃ pos, d.position? = some pos ∧ pos.file = file ∧ d.Located file source pos := by
  obtain ⟨token, member, stands, kind, lexed⟩ := points
  refine ⟨token.pos, stands, Token.file_of_mem_scan member, ?_⟩
  cases d with
  | strayCharacter c pos => cases lexed
  | _ => exact ⟨token, member, rfl, fun _ found same => Token.eq_of_pos_eq member found same, kind⟩

theorem located_of_mem_scan (reported : d ∈ (Token.scan file source).errors) :
    ∃ pos, d.position? = some pos ∧ pos.file = file ∧ d.Located file source pos := by
  rcases Token.reports_scan reported with ⟨i, line, located, stray⟩ | ⟨token, member, text, _, rfl⟩
  · obtain ⟨front, c, back, whole, _, rfl⟩ := stray
    exact ⟨_, rfl, rfl, i, line, front, back, located, whole, rfl, Nat.add_comm 1 _⟩
  · exact PointsInto.located (pointsInto_place member rfl rfl rfl)

end Diagnostic

namespace Program

open Grammar (State Traces)

theorem pointsInto_of_mem_ofTokens {tokens : List Token} {d : Diagnostic}
    (traced : (State.ofTokens tokens).Traced tokens) (reported : d ∈ (ofTokens tokens).2) :
    d.PointsInto tokens := by
  have traces := Traces.definitions (State.ofTokens tokens) traced
  unfold ofTokens State.parse at reported
  split at traces
  · next run =>
    rw [run] at reported
    exact traces.errors d reported
  · next stop s run =>
    rw [run] at reported
    cases stop with
    | exhausted => exact traces.1.errors d reported
    | fatal fatal =>
      rcases List.mem_append.mp reported with earlier | last
      · exact traces.1.errors d earlier
      · rw [List.mem_singleton.mp last]
        exact traces.2 fatal rfl

theorem named_ofTokens {tokens : List Token} {program : Program} {errors : List Diagnostic}
    (traced : (State.ofTokens tokens).Traced tokens)
    (parsed : ofTokens tokens = (some program, errors)) : program.symbols.NamedBy tokens := by
  obtain ⟨s, read, _, rfl⟩ := definitions_of_ofTokens parsed
  have traces := Traces.definitions (State.ofTokens tokens) traced
  rw [read] at traces
  exact traces.named

/-- Every diagnostic of a source text has a position in the file. A stray character stands there, and
any other diagnostic is at the start of a token, which is the one it names. -/
theorem ofSource_errors_located (file source : String) (d : Diagnostic)
    (reported : d ∈ (ofSource file source).2) :
    ∃ pos, d.position? = some pos ∧ pos.file = file ∧ d.Located file source pos := by
  rcases List.mem_append.mp reported with scanned | parsed
  · exact Diagnostic.located_of_mem_scan scanned
  · exact (pointsInto_of_mem_ofTokens (Token.traced_scan file source) parsed).located

/-- A stray character behind another one of two bytes, a name that is looked up after the parentheses
behind it, and a brace that is missing at the end of the file. -/
theorem ofSource_errors_located_call :
    let source := "void main() " ++ Mark.lcurly.spelling ++ "\n f ( ) ; é@"
    (ofSource "a" source).2 = [.strayCharacter 'é' ⟨"a", 2, 10⟩, .strayCharacter '@' ⟨"a", 2, 12⟩,
        .unknownFunction "f" ⟨"a", 2, 2⟩, .missingCharacter '}' ⟨"a", 2, 13⟩] ∧
      Diagnostic.Located "a" source ⟨"a", 2, 12⟩ (.strayCharacter '@' ⟨"a", 2, 12⟩) ∧
      Diagnostic.Located "a" source ⟨"a", 2, 2⟩ (.unknownFunction "f" ⟨"a", 2, 2⟩) ∧
      Diagnostic.Located "a" source ⟨"a", 2, 13⟩ (.missingCharacter '}' ⟨"a", 2, 13⟩) := by
  intro source
  have reported : (ofSource "a" source).2 = [.strayCharacter 'é' ⟨"a", 2, 10⟩,
      .strayCharacter '@' ⟨"a", 2, 12⟩, .unknownFunction "f" ⟨"a", 2, 2⟩,
      .missingCharacter '}' ⟨"a", 2, 13⟩] := by
    decide +kernel
  have located (d : Diagnostic) (pos : Position) (member : d ∈ (ofSource "a" source).2)
      (stands : d.position? = some pos) : d.Located "a" source pos := by
    obtain ⟨place, same, _, located⟩ := ofSource_errors_located "a" source d member
    cases stands.symm.trans same
    exact located
  refine ⟨reported, located _ _ ?_ rfl, located _ _ ?_ rfl, located _ _ ?_ rfl⟩
  all_goals simp [reported]

end Program

end IonLang
