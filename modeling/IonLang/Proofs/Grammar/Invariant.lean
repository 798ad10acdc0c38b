import IonLang.Proofs.Grammar.Run
import Mathlib.Data.List.Nodup

/-!
# What every rule of the grammar keeps

A rule changes the state only by consuming a token, recording a diagnostic that is not fatal,
numbering a node and entering a symbol or a type. A relation between states that is reflexive,
transitive and holds of each of these changes therefore holds between the states before and after
every rule, whether the rule returns or stops. `StatementRelation.block` and
`ProgramRelation.definitions` say so, with what is known of a name and a type when they are entered.
Relations for which this does not matter are given by `StepRelation` and `DefinitionRelation`.
-/

namespace IonLang

/-! ### Diagnostics of failed look-ups -/

theorem TypeTable.resolve_mild {table : TypeTable} {name : String} {pos : Position}
    {diagnostic : Diagnostic} (failed : table.resolve name pos = .error diagnostic) :
    diagnostic.isFatal = false := by
  unfold resolve at failed
  split at failed
  · cases failed
  · cases failed; rfl

namespace Symbols

variable {symbols : Symbols} {name : String} {type : DataType} {pos : Position}
  {diagnostic : Diagnostic}

theorem lookupVariable_mild (failed : symbols.lookupVariable name pos = .error diagnostic) :
    diagnostic.isFatal = false := by
  unfold lookupVariable at failed
  split at failed
  · cases failed
  · cases failed; rfl

theorem lookupFunction_mild (failed : symbols.lookupFunction name pos = .error diagnostic) :
    diagnostic.isFatal = false := by
  unfold lookupFunction at failed
  split at failed
  · cases failed
  · cases failed; rfl

theorem declareVariable_mild (failed : symbols.declareVariable name type pos = .error diagnostic) :
    diagnostic.isFatal = false := by
  unfold declareVariable at failed
  split at failed
  · cases failed; rfl
  · cases failed

theorem declareFunction_mild (failed : symbols.declareFunction name pos = .error diagnostic) :
    diagnostic.isFatal = false := by
  unfold declareFunction at failed
  split at failed
  · cases failed; rfl
  · cases failed

end Symbols

namespace TypeTable

/-- A type can be written as a name with stars. An unknown name stands for `uint64`. -/
def Yields (table : TypeTable) (type : DataType) : Prop :=
  ∃ base depth, (base = .uint64 ∨ ∃ name, table.find? name = some base) ∧ type = base.pointTo depth

/-- A type can be defined: a struct has fields of different names, with types that can be written. -/
inductive Defines (table : TypeTable) : DataType → Prop where
  | structType {name : String} {fields : List (String × DataType)}
    (distinct : (fields.map Prod.fst).Nodup) (written : ∀ field ∈ fields, table.Yields field.2) :
    Defines table (.structType name fields)
  | classType (name : String) : Defines table (.classType name)

end TypeTable

namespace Grammar

/-- `R` holds between `s` and the state after a step from there, however the step ends. -/
def KeepsFrom (R : State → State → Prop) {α : Type} (p : Parser α) (s : State) : Prop :=
  match p s with
  | .ok _ s' => R s s'
  | .error _ s' => R s s'

def Keeps (R : State → State → Prop) {α : Type} (p : Parser α) : Prop := ∀ s, KeepsFrom R p s

namespace Keeps

variable {R : State → State → Prop} {α β : Type} {p : Parser α} {s s' : State}

theorem of_ok {a : α} (kept : Keeps R p) (h : p s = .ok a s') : R s s' := by
  have := kept s
  unfold KeepsFrom at this
  rwa [h] at this

theorem of_error {stop : Stop} (kept : Keeps R p) (h : p s = .error stop s') : R s s' := by
  have := kept s
  unfold KeepsFrom at this
  rwa [h] at this

theorem map (f : α → β) (kept : Keeps R p) : Keeps R (f <$> p) := by
  intro s
  have := kept s
  simp only [KeepsFrom, Functor.map, EStateM.map] at this ⊢
  split at this
  · next read => simpa only [read] using this
  · next stopped => simpa only [stopped] using this

-- What is looked up is known to come from some state.
theorem look {f : State → α} {g : α → Parser β} (rest : ∀ s, Keeps R (g (f s))) :
    Keeps R (Grammar.observe f >>= g) :=
  fun s => rest s s

theorem lift {f : State → α × State} (kept : ∀ s, R s (f s).2) : Keeps R (Grammar.lift f) :=
  fun s => kept s

end Keeps

/-! ### What is known when something is entered -/

/-- A type name that stands where a new name is expected has been reported. -/
def State.AdmitsName (s : State) (name : String) : Prop :=
  s.types.contains name = true → s.errors ≠ []

/-- A variable can be declared: its type can be written, and its name was checked. -/
structure State.Admits (s : State) (name : String) (type : DataType) : Prop where
  type : s.types.Yields type
  name : s.AdmitsName name

/-- A relation that holds of every change that is made where nothing is entered. -/
structure ReadingRelation (R : State → State → Prop) : Prop where
  refl : ∀ s, R s s
  trans : ∀ {s₁ s₂ s₃}, R s₁ s₂ → R s₂ s₃ → R s₁ s₃
  next : ∀ s, R s s.next.2
  report : ∀ s diagnostic, diagnostic.isFatal = false → R s (s.record diagnostic)

structure StatementRelation (R : State → State → Prop) : Prop extends ReadingRelation R where
  number : ∀ s, R s { s with nodes := s.nodes + 1 }
  admitVariable : ∀ s name type pos var symbols, s.Admits name type →
    s.symbols.declareVariable name type pos = .ok (var, symbols) → R s { s with symbols }

/-- A relation that holds of every such change, whatever name and type are entered. -/
structure StepRelation (R : State → State → Prop) : Prop extends StatementRelation R where
  enter : ∀ s name type pos var symbols,
    s.symbols.declareVariable name type pos = .ok (var, symbols) → R s { s with symbols }
  admitVariable := fun s name type pos var symbols _ => enter s name type pos var symbols

namespace ReadingRelation

variable {R : State → State → Prop} {α β : Type}

/-! ### Sequences and loops -/

theorem pure (rel : ReadingRelation R) (a : α) : Keeps R (Pure.pure a : Parser α) :=
  fun s => rel.refl s

/-- What follows a step starts from where the step leads to, with the value that it returns. -/
theorem bindFrom (rel : ReadingRelation R) {p : Parser α} {f : α → Parser β} {s : State}
    (first : KeepsFrom R p s) (rest : ∀ a s₁, p s = .ok a s₁ → KeepsFrom R (f a) s₁) :
    KeepsFrom R (p >>= f) s := by
  simp only [KeepsFrom, Bind.bind, EStateM.bind] at first rest ⊢
  split at first
  · next a s₁ read =>
    have after := rest a s₁ read
    simp only [read]
    split
    · next done => exact rel.trans first (by rwa [done] at after)
    · next stopped => exact rel.trans first (by rwa [stopped] at after)
  · next stopped => simpa only [stopped] using first

theorem bind (rel : ReadingRelation R) {p : Parser α} {f : α → Parser β} (first : Keeps R p)
    (rest : ∀ a, Keeps R (f a)) : Keeps R (p >>= f) :=
  fun s => rel.bindFrom (first s) fun a s₁ _ => rest a s₁

theorem throw (rel : ReadingRelation R) (stop : Stop) :
    Keeps R (MonadExcept.throw stop : Parser α) :=
  fun s => rel.refl s

theorem observe (rel : ReadingRelation R) (f : State → α) : Keeps R (Grammar.observe f) :=
  fun s => rel.refl s

theorem iterate (rel : ReadingRelation R) {step : β → Parser (ForInStep β)}
    (kept : ∀ value, Keeps R (step value)) (rounds : Nat) (value : β) :
    Keeps R (Grammar.iterate step rounds value) := by
  induction rounds generalizing value with
  | zero => exact fun s => rel.refl s
  | succ rounds ih =>
    intro s
    have before := kept value s
    simp only [KeepsFrom, Grammar.iterate] at before ⊢
    split at before
    · next again s₁ round =>
      cases again with
      | done value => simpa only [round] using before
      | yield value =>
        have after := ih value s₁
        simp only [KeepsFrom] at after
        simp only [round]
        split
        · next done => exact rel.trans before (by rwa [done] at after)
        · next stopped => exact rel.trans before (by rwa [stopped] at after)
    · next stopped => simpa only [stopped] using before

theorem repeatUntilDone (rel : ReadingRelation R) {step : β → Parser (ForInStep β)}
    (kept : ∀ value, Keeps R (step value)) (value : β) :
    Keeps R (Grammar.repeatUntilDone step value) :=
  fun s => rel.iterate kept (s.unread.length + 1) value s

/-! ### Steps over tokens -/

theorem consumeIf (rel : ReadingRelation R) (accept : Token.Kind → Bool) (s : State) :
    R s (s.consumeIf accept).2 := by
  unfold State.consumeIf
  split
  · exact rel.next s
  · exact rel.refl s

theorem expectOr (rel : ReadingRelation R) (accept : Token.Kind → Bool)
    {complaint : Token → Diagnostic} (mild : ∀ token, (complaint token).isFatal = false)
    (s : State) : R s (s.expectOr accept complaint).2 := by
  have consumed := rel.consumeIf accept s
  unfold State.expectOr
  split
  · next found => rwa [found] at consumed
  · next s₁ missing =>
    rw [missing] at consumed
    exact rel.trans consumed (rel.trans (rel.report s₁ _ (mild _)) (rel.next _))

theorem peekKind (rel : ReadingRelation R) : Keeps R Grammar.peekKind := rel.observe _

theorem position (rel : ReadingRelation R) : Keeps R Grammar.position := rel.observe _

theorem skip (rel : ReadingRelation R) : Keeps R Grammar.skip := Keeps.lift rel.next

theorem accept (rel : ReadingRelation R) (kind : Token.Kind) : Keeps R (Grammar.accept kind) :=
  Keeps.lift fun s => rel.consumeIf _ s

theorem expect (rel : ReadingRelation R) (mark : Mark) : Keeps R (Grammar.expect mark) :=
  Keeps.lift fun s => rel.expectOr _ (fun _ => rfl) s

theorem expectWord (rel : ReadingRelation R) (keyword : Keyword) :
    Keeps R (Grammar.expectWord keyword) :=
  Keeps.lift fun s => rel.expectOr _ (fun _ => rfl) s

theorem record (rel : ReadingRelation R) {diagnostic : Diagnostic} (mild : diagnostic.isFatal = false) :
    Keeps R (Grammar.record diagnostic) :=
  Keeps.lift fun s => rel.report s diagnostic mild

theorem recover (rel : ReadingRelation R) {result : Except Diagnostic α}
    (mild : ∀ diagnostic, result = .error diagnostic → diagnostic.isFatal = false) :
    Keeps R (Grammar.recover result) := by
  cases result with
  | ok value => exact rel.pure _
  | error diagnostic => exact rel.bind (rel.record (mild diagnostic rfl)) fun _ => rel.pure _

theorem unexpected (rel : ReadingRelation R) (expected : String) :
    Keeps R (Grammar.unexpected expected : Parser α) :=
  rel.bind (rel.observe _) fun _ => rel.throw _

/-! ### Names and types -/

theorem name (rel : ReadingRelation R) : Keeps R Grammar.name := by
  refine rel.bind rel.position fun pos => rel.bind rel.peekKind fun kind => ?_
  split
  · exact rel.bind rel.skip fun _ => rel.pure _
  · exact rel.unexpected _

theorem rejectTypeName (rel : ReadingRelation R) (name : String) (pos : Position) :
    Keeps R (Grammar.rejectTypeName name pos) := by
  refine rel.bind (rel.observe _) fun known => ?_
  split
  · exact rel.bind (rel.record rfl) fun _ => rel.pure _
  · exact rel.pure _

theorem ident (rel : ReadingRelation R) : Keeps R Grammar.ident :=
  rel.bind rel.name fun _ => rel.bind (rel.rejectTypeName _ _) fun _ => rel.pure _

theorem stars (rel : ReadingRelation R) : Keeps R Grammar.stars := by
  refine rel.repeatUntilDone (fun depth => rel.bind (rel.accept _) fun found => ?_) 0
  split
  · exact rel.pure _
  · exact rel.pure _

theorem typeName (rel : ReadingRelation R) : Keeps R Grammar.typeName :=
  rel.bind rel.name fun _ => Keeps.look fun _ =>
    rel.bind (rel.recover fun _ => TypeTable.resolve_mild) fun _ => rel.bind rel.stars fun _ => rel.pure _

/-! ### Fields of structs -/

theorem missingBrace (rel : ReadingRelation R) : Keeps R Grammar.missingBrace :=
  rel.bind rel.position fun _ => rel.record rfl

theorem addField (rel : ReadingRelation R) (fields : List (String × DataType)) (name : String)
    (pos : Position) (type : DataType) : Keeps R (Grammar.addField fields name pos type) := by
  unfold Grammar.addField
  split
  · exact rel.bind (rel.record rfl) fun _ => rel.pure _
  · exact rel.pure _

theorem fieldRound (rel : ReadingRelation R) (fields : List (String × DataType)) :
    Keeps R (Grammar.fieldRound fields) := by
  refine rel.bind rel.peekKind fun kind => ?_
  split
  · exact rel.bind rel.skip fun _ => rel.pure _
  · exact rel.bind rel.missingBrace fun _ => rel.pure _
  · exact rel.bind rel.typeName fun _ => rel.bind rel.ident fun _ => rel.bind (rel.expect _) fun _ =>
      rel.bind (rel.addField _ _ _ _) fun _ => rel.pure _

theorem structFields (rel : ReadingRelation R) : Keeps R Grammar.structFields :=
  rel.repeatUntilDone rel.fieldRound []

end ReadingRelation

/-- Statements leave the types alone, and diagnostics stay recorded. -/
theorem types_relation :
    StatementRelation fun s s' => s'.types = s.types ∧ (s'.errors = [] → s.errors = []) where
  refl _ := ⟨rfl, id⟩
  trans first second := ⟨second.1.trans first.1, first.2 ∘ second.2⟩
  next s := by
    obtain ⟨errors, _, _, types⟩ := next_frame s
    exact ⟨types, fun quiet => errors ▸ quiet⟩
  report s diagnostic _ := ⟨rfl, fun quiet => (List.append_eq_nil_iff.mp quiet).1⟩
  number _ := ⟨rfl, id⟩
  admitVariable _ _ _ _ _ _ _ _ := ⟨rfl, id⟩

theorem State.AdmitsName.mono {s s' : State} {name : String} (admitted : s.AdmitsName name)
    (types : s'.types = s.types ∧ (s'.errors = [] → s.errors = [])) : s'.AdmitsName name := by
  intro known quiet
  rw [types.1] at known
  exact admitted known (types.2 quiet)

theorem State.Admits.mono {s s' : State} {name : String} {type : DataType}
    (admitted : s.Admits name type)
    (types : s'.types = s.types ∧ (s'.errors = [] → s.errors = [])) : s'.Admits name type :=
  ⟨types.1 ▸ admitted.type, admitted.name.mono types⟩

theorem typeName_yields {s s' : State} {type : DataType} (h : typeName s = .ok type s') :
    s.types.Yields type := by
  obtain ⟨⟨text, pos⟩, s₁, nameRead, h⟩ := bind_ok h
  have types : s₁.types = s.types := (types_relation.name.of_ok nameRead).1
  obtain ⟨_, _, looked, h⟩ := bind_ok h
  cases looked
  obtain ⟨base, s₂, resolved, h⟩ := bind_ok h
  obtain ⟨depth, s₃, _, h⟩ := bind_ok h
  cases h
  refine ⟨base.getD .uint64, depth, ?_, rfl⟩
  rcases recover_ok resolved with ⟨value, success, rfl, _⟩ | ⟨_, _, rfl, _⟩
  · simp only [types, TypeTable.resolve] at success
    split at success
    · next known => cases success; exact .inr ⟨_, known⟩
    · cases success
  · exact .inl rfl

theorem ident_admits {s s' : State} {found : String × Position} (h : ident s = .ok found s') :
    s'.AdmitsName found.1 := by
  obtain ⟨_, s₁, _, h⟩ := bind_ok h
  obtain ⟨_, s₂, checked, h⟩ := bind_ok h
  cases h
  obtain ⟨_, rfl⟩ := rejectTypeName_ok checked
  split
  · exact fun _ => List.append_ne_nil_of_right_ne_nil _ (List.cons_ne_nil _ _)
  · next unknown => exact fun known => absurd known unknown

theorem admits_of_read {s s₁ s₂ : State} {type : DataType} {found : String × Position}
    (typeRead : typeName s = .ok type s₁) (nameRead : ident s₁ = .ok found s₂) :
    s₂.Admits found.1 type := by
  have types := (types_relation.trans (types_relation.typeName.of_ok typeRead)
    (types_relation.ident.of_ok nameRead)).1
  exact ⟨types ▸ typeName_yields typeRead, ident_admits nameRead⟩

namespace StatementRelation

theorem build (rel : StatementRelation R) (node : Nat → Node) : Keeps R (Grammar.build node) :=
  Keeps.lift rel.number

theorem placeholder (rel : StatementRelation R) : Keeps R Grammar.placeholder := rel.build _

theorem declareFrom (rel : StatementRelation R)
    {declaration : Symbols → Except Diagnostic (α × Symbols)} {s : State}
    (entered : ∀ value symbols, declaration s.symbols = .ok (value, symbols) → R s { s with symbols })
    (mild : ∀ diagnostic, declaration s.symbols = .error diagnostic → diagnostic.isFatal = false) :
    KeepsFrom R (Grammar.declare declaration) s := by
  unfold KeepsFrom Grammar.declare
  cases declared : declaration s.symbols with
  | ok result => exact entered _ _ declared
  | error diagnostic => exact rel.report s _ (mild _ declared)

theorem declareAdmitted (rel : StatementRelation R) {name : String} {type : DataType} {s : State}
    (admitted : s.Admits name type) (pos : Position) :
    KeepsFrom R (Grammar.declareVariable name type pos) s := by
  have enters (s : State) (admitted : s.Admits name type) :
      KeepsFrom R (Grammar.declare fun symbols => symbols.declareVariable name type pos) s :=
    rel.declareFrom (fun _ _ => rel.admitVariable s _ _ _ _ _ admitted)
      fun _ => Symbols.declareVariable_mild
  unfold Grammar.declareVariable
  dsimp only
  split
  · refine rel.bindFrom (rel.record rfl s) fun _ s₁ recorded => ?_
    cases recorded
    exact enters _ (admitted.mono (types_relation.report s _ rfl))
  · exact enters s admitted

theorem lookupVariable (rel : StatementRelation R) (name : String) (pos : Position) :
    Keeps R (Grammar.lookupVariable name pos) :=
  Keeps.look fun _ => rel.recover fun _ => Symbols.lookupVariable_mild

theorem lookupFunction (rel : StatementRelation R) (name : String) (pos : Position) :
    Keeps R (Grammar.lookupFunction name pos) :=
  Keeps.look fun _ => rel.recover fun _ => Symbols.lookupFunction_mild

/-! ### Expressions -/

theorem operatorOr (rel : StatementRelation R) (find : Token.Kind → Option α) (refused : Mark)
    (construct : String) : Keeps R (Grammar.operatorOr find refused construct) := by
  refine rel.bind rel.peekKind fun kind => ?_
  split
  · exact rel.bind rel.skip fun _ => rel.pure _
  · split
    · exact rel.bind rel.position fun _ => rel.throw _
    · exact rel.pure _

theorem buildTree (rel : StatementRelation R) (tree : OperatorTree Node) :
    Keeps R (Grammar.buildTree tree) := by
  induction tree with
  | leaf node => exact rel.pure node
  | branch op lhs rhs left right =>
    exact rel.bind left fun _ => rel.bind right fun _ => rel.build _

theorem operatorTail (rel : StatementRelation R) {primary : Parser Node} (kept : Keeps R primary) :
    Keeps R (Grammar.operatorTail primary) := by
  refine rel.repeatUntilDone (fun pairs => rel.bind (rel.operatorOr _ _ _) fun op => ?_) []
  split
  · exact rel.bind kept fun _ => rel.pure _
  · exact rel.pure _

theorem expressionOf (rel : StatementRelation R) {primary : Parser Node} (kept : Keeps R primary) :
    Keeps R (Grammar.expressionOf primary) :=
  rel.bind kept fun _ => rel.bind (rel.operatorTail kept) fun _ => rel.buildTree _

theorem accessNode (rel : StatementRelation R) (var : Option VarId) :
    Keeps R (Grammar.accessNode var) := by
  cases var with
  | none => exact rel.placeholder
  | some var => exact rel.build (.access · var)

theorem assignNode (rel : StatementRelation R) (op : AssignOp) (value : Node) (var : Option VarId) :
    Keeps R (Grammar.assignNode op value var) := by
  cases var with
  | none => exact rel.pure value
  | some var => exact rel.build (.assign · var op value)

theorem stepNode (rel : StatementRelation R) (direction : Direction) (timing : Timing)
    (var : Option VarId) : Keeps R (Grammar.stepNode direction timing var) := by
  cases var with
  | none => exact rel.placeholder
  | some var => exact rel.build (.step · direction var timing)

theorem assignmentOf (rel : StatementRelation R) {expression : Parser Node}
    (kept : Keeps R expression) (var : Option VarId) :
    Keeps R (Grammar.assignmentOf expression var) := by
  refine rel.bind (rel.operatorOr _ _ _) fun op => ?_
  split
  · exact rel.bind kept fun _ => rel.assignNode _ _ _
  · exact rel.accessNode _

theorem declarationOf (rel : StatementRelation R) {expression : Parser Node}
    (kept : Keeps R expression) : Keeps R (Grammar.declarationOf expression) := by
  intro s
  refine rel.bindFrom (rel.typeName s) fun type s₁ typeRead =>
    rel.bindFrom (rel.ident s₁) fun found s₂ nameRead => ?_
  exact rel.bindFrom (rel.declareAdmitted (admits_of_read typeRead nameRead) found.2)
    fun var s₃ _ => rel.assignmentOf kept var s₃

-- The name in front is apart, for the places where it is known what it leads to.
theorem nameOf_rest (rel : StatementRelation R) {expression : Parser Node} (kept : Keeps R expression) :
    ∃ rest, Grammar.nameOf expression = Grammar.name >>= rest ∧ ∀ found, Keeps R (rest found) := by
  refine ⟨_, rfl, fun found => rel.bind (rel.rejectTypeName _ _) fun rejected => ?_⟩
  split
  · exact rel.placeholder
  · refine rel.bind rel.peekKind fun kind => ?_
    split
    · refine rel.bind rel.skip fun _ => rel.bind (rel.expect _) fun _ =>
        rel.bind (rel.lookupFunction _ _) fun func => ?_
      split
      · exact rel.build _
      · exact rel.placeholder
    · split
      · exact rel.bind rel.skip fun _ => rel.bind (rel.lookupVariable _ _) fun _ =>
          rel.stepNode _ _ _
      · exact rel.bind (rel.lookupVariable _ _) fun _ => rel.assignmentOf kept _

theorem nameOf (rel : StatementRelation R) {expression : Parser Node} (kept : Keeps R expression) :
    Keeps R (Grammar.nameOf expression) := by
  obtain ⟨rest, same, keeps⟩ := rel.nameOf_rest kept
  rw [same]
  exact rel.bind rel.name keeps

theorem steppedVariable (rel : StatementRelation R) : Keeps R Grammar.steppedVariable := by
  refine rel.bind rel.name fun found => rel.bind (rel.rejectTypeName _ _) fun rejected => ?_
  split
  · exact rel.pure _
  · exact rel.lookupVariable _ _

theorem unaryOf (rel : StatementRelation R) (op : UnaryOp) {primary : Parser Node}
    (kept : Keeps R primary) : Keeps R (Grammar.unaryOf op primary) :=
  rel.bind rel.skip fun _ => rel.bind kept fun _ => rel.build _

theorem primaryOf (rel : StatementRelation R) {expression primary : Parser Node}
    (wide : Keeps R expression) (narrow : Keeps R primary) :
    Keeps R (Grammar.primaryOf expression primary) := by
  refine rel.bind rel.peekKind fun kind => ?_
  split
  · exact rel.bind rel.skip fun _ => rel.bind wide fun _ => rel.bind (rel.expect _) fun _ =>
      rel.pure _
  · exact rel.unaryOf _ narrow
  · exact rel.unaryOf _ narrow
  · exact rel.bind rel.skip fun _ => rel.bind rel.steppedVariable fun _ => rel.stepNode _ _ _
  · exact rel.bind rel.skip fun _ => rel.bind rel.steppedVariable fun _ => rel.stepNode _ _ _
  · exact rel.bind rel.skip fun _ => rel.build _
  · exact rel.bind rel.skip fun _ => rel.build _
  · refine rel.bind (rel.observe _) fun declared => ?_
    split
    · exact rel.declarationOf wide
    · exact rel.nameOf wide
  · exact rel.unexpected _

theorem primary (rel : StatementRelation R) (depth : Nat) : Keeps R (Grammar.primary depth) := by
  induction depth with
  | zero => exact rel.throw _
  | succ depth ih => exact fun s => rel.primaryOf (rel.expressionOf ih) ih s

theorem expression (rel : StatementRelation R) : Keeps R Grammar.expression :=
  fun s => rel.expressionOf (rel.primary (s.unread.length + 1)) s

/-! ### Statements -/

theorem statementRound (rel : StatementRelation R) {statement : Parser (Option Node)}
    (kept : Keeps R statement) (body : List Node) :
    Keeps R (Grammar.statementRound statement body) := by
  refine rel.bind rel.peekKind fun kind => ?_
  split
  · exact rel.bind rel.skip fun _ => rel.pure _
  · exact rel.bind rel.missingBrace fun _ => rel.pure _
  · exact rel.bind kept fun _ => rel.pure _

theorem bracedBody (rel : StatementRelation R) {statement : Parser (Option Node)}
    (kept : Keeps R statement) : Keeps R (Grammar.bracedBody statement) :=
  rel.repeatUntilDone (rel.statementRound kept) []

theorem blockOf (rel : StatementRelation R) {statement : Parser (Option Node)}
    (kept : Keeps R statement) : Keeps R (Grammar.blockOf statement) := by
  refine rel.bind (rel.accept _) fun braced => ?_
  split
  · exact rel.bind (rel.bracedBody kept) fun _ => rel.build _
  · refine rel.bind kept fun node => ?_
    split
    · exact rel.pure _
    · exact rel.build _

theorem parenthesized (rel : StatementRelation R) : Keeps R Grammar.parenthesized :=
  rel.bind (rel.expect _) fun _ => rel.bind rel.expression fun _ => rel.bind (rel.expect _) fun _ =>
    rel.pure _

theorem ifOf (rel : StatementRelation R) {statement : Parser (Option Node)}
    (kept : Keeps R statement) : Keeps R (Grammar.ifOf statement) := by
  refine rel.bind rel.skip fun _ => rel.bind rel.parenthesized fun _ =>
    rel.bind (rel.blockOf kept) fun _ => rel.bind (rel.accept _) fun other => ?_
  split
  · exact rel.bind (rel.blockOf kept) fun _ => rel.build _
  · exact rel.build _

theorem whileOf (rel : StatementRelation R) {statement : Parser (Option Node)}
    (kept : Keeps R statement) : Keeps R (Grammar.whileOf statement) :=
  rel.bind rel.skip fun _ => rel.bind rel.parenthesized fun _ =>
    rel.bind (rel.blockOf kept) fun _ => rel.build _

theorem doOf (rel : StatementRelation R) {statement : Parser (Option Node)}
    (kept : Keeps R statement) : Keeps R (Grammar.doOf statement) :=
  rel.bind rel.skip fun _ => rel.bind (rel.blockOf kept) fun _ =>
    rel.bind (rel.expectWord _) fun _ => rel.bind rel.parenthesized fun _ =>
      rel.bind (rel.expect _) fun _ => rel.build _

theorem caseRound (rel : StatementRelation R) {statement : Parser (Option Node)}
    (kept : Keeps R statement) (body : List Node) :
    Keeps R (Grammar.caseRound statement body) := by
  refine rel.bind (rel.observe _) fun ends => ?_
  split
  · exact rel.pure _
  · exact rel.bind kept fun _ => rel.pure _

theorem caseBody (rel : StatementRelation R) {statement : Parser (Option Node)}
    (kept : Keeps R statement) : Keeps R (Grammar.caseBody statement) :=
  rel.bind (rel.repeatUntilDone (rel.caseRound kept) []) fun _ => rel.build _

theorem reportAfterDefault (rel : StatementRelation R) (cases : Cases) :
    Keeps R (Grammar.reportAfterDefault cases) := by
  unfold Grammar.reportAfterDefault
  split
  · exact rel.bind (rel.observe _) fun _ => rel.record rfl
  · exact rel.pure _

theorem switchRound (rel : StatementRelation R) {statement : Parser (Option Node)}
    (kept : Keeps R statement) (cases : Cases) : Keeps R (Grammar.switchRound statement cases) := by
  refine rel.bind rel.peekKind fun kind => ?_
  split
  · exact rel.bind (rel.reportAfterDefault _) fun _ => rel.bind rel.skip fun _ =>
      rel.bind rel.expression fun _ => rel.bind (rel.expect _) fun _ =>
        rel.bind (rel.caseBody kept) fun _ => rel.pure _
  · exact rel.bind (rel.reportAfterDefault _) fun _ => rel.bind rel.skip fun _ =>
      rel.bind (rel.expect _) fun _ => rel.bind (rel.caseBody kept) fun _ => rel.pure _
  · exact rel.bind rel.skip fun _ => rel.pure _
  · exact rel.bind rel.missingBrace fun _ => rel.pure _
  · exact rel.bind (rel.expectWord _) fun _ => rel.pure _

theorem switchOf (rel : StatementRelation R) {statement : Parser (Option Node)}
    (kept : Keeps R statement) : Keeps R (Grammar.switchOf statement) :=
  rel.bind rel.skip fun _ => rel.bind rel.parenthesized fun _ => rel.bind (rel.expect _) fun _ =>
    rel.bind (rel.repeatUntilDone (rel.switchRound kept) {}) fun _ => rel.build _

theorem putc (rel : StatementRelation R) : Keeps R Grammar.putc :=
  rel.bind rel.skip fun _ => rel.bind rel.parenthesized fun _ => rel.bind (rel.expect _) fun _ =>
    rel.build _

theorem statementOf (rel : StatementRelation R) {statement : Parser (Option Node)}
    (kept : Keeps R statement) : Keeps R (Grammar.statementOf statement) := by
  refine rel.bind rel.peekKind fun kind => ?_
  split
  · exact rel.bind rel.skip fun _ => rel.pure _
  · exact Keeps.map _ (rel.blockOf kept)
  · exact Keeps.map _ (rel.ifOf kept)
  · exact Keeps.map _ (rel.whileOf kept)
  · exact Keeps.map _ (rel.doOf kept)
  · exact Keeps.map _ (rel.switchOf kept)
  · exact Keeps.map _ rel.putc
  · exact rel.bind rel.expression fun _ => rel.bind (rel.expect _) fun _ => rel.pure _

theorem statement (rel : StatementRelation R) (depth : Nat) : Keeps R (Grammar.statement depth) := by
  induction depth with
  | zero => exact rel.throw _
  | succ depth ih => exact fun s => rel.statementOf ih s

theorem block (rel : StatementRelation R) : Keeps R Grammar.block :=
  fun s => rel.blockOf (rel.statement (s.unread.length + 1)) s

end StatementRelation

theorem addField_ok {s s' : State} {fields fields' : List (String × DataType)} {name : String}
    {pos : Position} {type : DataType} (h : addField fields name pos type s = .ok fields' s') :
    fields' = fields ∨ name ∉ fields.map Prod.fst ∧ fields' = fields ++ [(name, type)] := by
  unfold addField at h
  split at h
  · cases h; exact .inl rfl
  · next new => cases h; exact .inr ⟨by simpa using new, rfl⟩

/-- The fields of a struct have different names and types that can be written. -/
theorem structFields_defines {s s' : State} {fields : List (String × DataType)} (name : String)
    (h : structFields s = .ok fields s') : s.types.Defines (.structType name fields) := by
  have start : s.types.Defines (.structType name []) := .structType List.nodup_nil (by simp)
  refine repeatUntilDone_ok
    (I := fun fields s' => s'.types = s.types ∧ s.types.Defines (.structType name fields))
    (Q := fun fields _ => s.types.Defines (.structType name fields)) ?_ ?_ ⟨rfl, start⟩ h
  · intro fields s₁ fields' s₂ ⟨types, defined⟩ round
    refine ⟨((types_relation.fieldRound fields).of_ok round).1.trans types, ?_⟩
    obtain ⟨kind, _, round⟩ := peekKind_ok round
    split at round
    · cases round
    · cases round
    · obtain ⟨type, s₃, typeRead, round⟩ := bind_ok round
      obtain ⟨found, s₄, _, round⟩ := bind_ok round
      obtain ⟨_, s₅, _, round⟩ := bind_ok round
      obtain ⟨added, s₆, add, round⟩ := bind_ok round
      cases round
      rcases addField_ok add with rfl | ⟨new, rfl⟩
      · exact defined
      · cases defined with
        | structType distinct written =>
          refine .structType ?_ fun field member => ?_
          · rw [List.map_append]
            exact List.concat_eq_append ▸ distinct.concat new
          · rcases List.mem_append.mp member with old | last
            · exact written field old
            · rw [List.mem_singleton.mp last, ← types]
              exact typeName_yields typeRead
  · intro fields s₁ fields' s₂ ⟨_, defined⟩ round
    obtain ⟨kind, _, round⟩ := peekKind_ok round
    split at round
    · cases round; exact defined
    · cases round; exact defined
    · obtain ⟨_, _, _, round⟩ := bind_ok round
      obtain ⟨_, _, _, round⟩ := bind_ok round
      obtain ⟨_, _, _, round⟩ := bind_ok round
      obtain ⟨_, _, _, round⟩ := bind_ok round
      cases round

variable {R : State → State → Prop}

namespace ReadingRelation

theorem structDefinition (rel : ReadingRelation R)
    (admitType : ∀ s type, s.types.Defines type → R s { s with types := s.types.register type }) :
    Keeps R Grammar.structDefinition := by
  refine rel.bind rel.skip fun _ => rel.bind rel.name fun found => rel.bind (rel.expect _) fun _ s => ?_
  refine rel.bindFrom (rel.structFields s) fun fields s₁ fieldsRead =>
    rel.bindFrom (rel.accept _ s₁) fun _ s₂ accepted => admitType s₂ _ ?_
  have types := (types_relation.trans (types_relation.structFields.of_ok fieldsRead)
    ((types_relation.accept _).of_ok accepted)).1
  exact types ▸ structFields_defines found.1 fieldsRead

theorem classDefinition (rel : ReadingRelation R)
    (admitType : ∀ s type, s.types.Defines type → R s { s with types := s.types.register type }) :
    Keeps R Grammar.classDefinition :=
  rel.bind rel.skip fun _ => rel.bind rel.name fun _ => rel.bind (rel.expect _) fun _ =>
    Keeps.lift fun s => admitType s _ (.classType _)

end ReadingRelation

/-! ### Definitions -/

structure GlobalRelation (R : State → State → Prop) : Prop extends StatementRelation R where
  admitFunction : ∀ s name pos func symbols, s.AdmitsName name →
    s.symbols.declareFunction name pos = .ok (func, symbols) → R s { s with symbols }
  define : ∀ s func body, R s { s with symbols := s.symbols.defineFunction func body }

structure ProgramRelation (R : State → State → Prop) : Prop extends GlobalRelation R where
  admitType : ∀ s type, s.types.Defines type → R s { s with types := s.types.register type }

theorem GlobalRelation.globalDefinition (rel : GlobalRelation R) :
    Keeps R Grammar.globalDefinition := by
  intro s
  refine rel.bindFrom (rel.typeName s) fun type s₁ typeRead =>
    rel.bindFrom (rel.ident s₁) fun found s₂ nameRead => ?_
  have admitted := admits_of_read typeRead nameRead
  refine rel.bindFrom (rel.peekKind s₂) fun kind s₃ peeked => ?_
  cases peeked
  split
  · refine rel.bindFrom (rel.skip s₂) fun _ s₃ skipped =>
      rel.bindFrom (rel.expect _ s₃) fun _ s₄ closed => ?_
    have named := admitted.name.mono (types_relation.trans (types_relation.skip.of_ok skipped)
      ((types_relation.expect _).of_ok closed))
    refine rel.bindFrom (rel.declareFrom (fun _ _ => rel.admitFunction s₄ _ _ _ _ named)
      fun _ => Symbols.declareFunction_mild) fun func s₅ _ => ?_
    refine rel.bind rel.block (fun body => ?_) s₅
    split
    · exact Keeps.lift fun s => rel.define s _ body
    · exact rel.pure _
  · refine rel.bindFrom (rel.skip s₂) fun _ s₃ skipped => ?_
    exact rel.bindFrom (rel.declareAdmitted (admitted.mono (types_relation.skip.of_ok skipped)) _)
      fun _ s₄ _ => rel.pure _ s₄
  · exact rel.unexpected _ s₂

namespace ProgramRelation

theorem definitionRound (rel : ProgramRelation R) (value : Unit) :
    Keeps R (Grammar.definitionRound value) := by
  refine rel.bind rel.peekKind fun kind => ?_
  split
  · exact rel.pure _
  · exact rel.bind (rel.structDefinition rel.admitType) fun _ => rel.pure _
  · exact rel.bind (rel.classDefinition rel.admitType) fun _ => rel.pure _
  · exact rel.bind rel.globalDefinition fun _ => rel.pure _
  · exact rel.unexpected _

theorem definitions (rel : ProgramRelation R) : Keeps R Grammar.definitions :=
  rel.repeatUntilDone rel.definitionRound ()

end ProgramRelation

/-! ### Relations for which it does not matter what is entered -/

namespace StepRelation

theorem enterVariable (rel : StepRelation R) (name : String) (type : DataType) (pos : Position) :
    Keeps R (Grammar.declare fun symbols => symbols.declareVariable name type pos) :=
  fun s => rel.declareFrom (fun _ _ => rel.enter s _ _ _ _ _) fun _ => Symbols.declareVariable_mild

theorem declareVariable (rel : StepRelation R) (name : String) (type : DataType)
    (pos : Position) : Keeps R (Grammar.declareVariable name type pos) := by
  have enters := rel.enterVariable name type pos
  unfold Grammar.declareVariable
  dsimp only
  split
  · exact rel.bind (rel.record rfl) fun _ => enters
  · exact enters

end StepRelation

structure TypeRelation (R : State → State → Prop) : Prop extends StepRelation R where
  enterType : ∀ s type, R s { s with types := s.types.register type }

/-- A relation that holds of every change a definition can make, whatever is entered. -/
structure DefinitionRelation (R : State → State → Prop) : Prop extends TypeRelation R where
  enterFunction : ∀ s name pos func symbols,
    s.symbols.declareFunction name pos = .ok (func, symbols) → R s { s with symbols }
  define : ∀ s func body, R s { s with symbols := s.symbols.defineFunction func body }

-- Only two kinds of step change the unread tokens and the diagnostics.
theorem DefinitionRelation.of_reading (trans : ∀ {s₁ s₂ s₃}, R s₁ s₂ → R s₂ s₃ → R s₁ s₃)
    (next : ∀ s, R s s.next.2)
    (report : ∀ s diagnostic, diagnostic.isFatal = false → R s (s.record diagnostic))
    (frame : ∀ s s', s'.unread = s.unread → s'.errors = s.errors → R s s') :
    DefinitionRelation R where
  refl s := frame s s rfl rfl
  trans := trans
  next := next
  report := report
  number s := frame s _ rfl rfl
  enter s _ _ _ _ _ _ := frame s _ rfl rfl
  enterType s _ := frame s _ rfl rfl
  enterFunction s _ _ _ _ _ := frame s _ rfl rfl
  define s _ _ := frame s _ rfl rfl

theorem TypeRelation.structDefinition (rel : TypeRelation R) : Keeps R Grammar.structDefinition :=
  rel.toStatementRelation.structDefinition fun s type _ => rel.enterType s type

theorem TypeRelation.classDefinition (rel : TypeRelation R) : Keeps R Grammar.classDefinition :=
  rel.toStatementRelation.classDefinition fun s type _ => rel.enterType s type

namespace DefinitionRelation

theorem declareFunction (rel : DefinitionRelation R) (name : String) (pos : Position) :
    Keeps R (Grammar.declareFunction name pos) :=
  fun s => rel.declareFrom (fun _ _ => rel.enterFunction s _ _ _ _)
    fun _ => Symbols.declareFunction_mild

theorem program (rel : DefinitionRelation R) : ProgramRelation R where
  toStatementRelation := rel.toStatementRelation
  admitFunction s name pos func symbols _ := rel.enterFunction s name pos func symbols
  define := rel.define
  admitType s type _ := rel.enterType s type

theorem globalDefinition (rel : DefinitionRelation R) : Keeps R Grammar.globalDefinition :=
  rel.program.globalDefinition

theorem definitionRound (rel : DefinitionRelation R) (value : Unit) :
    Keeps R (Grammar.definitionRound value) :=
  rel.program.definitionRound value

theorem definitions (rel : DefinitionRelation R) : Keeps R Grammar.definitions :=
  rel.program.definitions

end DefinitionRelation

end Grammar

end IonLang
