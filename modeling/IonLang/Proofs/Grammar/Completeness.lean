import IonLang.Proofs.Grammar.Lookahead
import IonLang.Proofs.Grammar.Spelling

/-!
# Every derivation is found

Where a phrase in front of a stack spells what is unread, the parser of the phrase returns, reports
nothing and leaves a state that the stack spells. Every parser that is entered again has consumed a
token before, so neither the depth of the descent nor the number of rounds runs out.
-/

namespace IonLang

/-! ### The type `void` in the table of types -/

/-- No type but `void` is the type `void`. -/
def TypeTable.Named (table : TypeTable) : Prop :=
  ∀ ⦃name type⦄, table.find? name = some type → type.isVoid = true → name = "void"

namespace TypeTable.Named

theorem initial : TypeTable.Named {} := by
  intro name type found isVoid
  unfold TypeTable.find? DataType.primitive? at found
  split at found
  · rfl
  · cases found
    cases isVoid
  · cases found
    cases isVoid
  · cases found

theorem find?_register {table : TypeTable} {type found : DataType} {name : String}
    (h : (table.register type).find? name = some found) :
    found = type ∧ type.isVoid = false ∨ table.find? name = some found := by
  unfold TypeTable.find? at h ⊢
  generalize DataType.primitive? name = primitive at h ⊢
  cases primitive with
  | some primitive => exact .inr h
  | none =>
    cases type with
    | structType key fields =>
      simp only [TypeTable.register, Dictionary.get?_insert, Option.none_or] at h ⊢
      split at h
      · cases h
        exact .inl ⟨rfl, rfl⟩
      · exact .inr h
    | classType key =>
      simp only [TypeTable.register, Dictionary.get?_insert, Option.none_or] at h ⊢
      generalize table.structs.get? name = known at h ⊢
      cases known with
      | some known => exact .inr h
      | none =>
        simp only [Option.none_or] at h ⊢
        split at h
        · cases h
          exact .inl ⟨rfl, rfl⟩
        · exact .inr h
    | void | bool | uint64 | pointer => exact .inr h

theorem register {table : TypeTable} (named : table.Named) (type : DataType) :
    (table.register type).Named := by
  intro name found h isVoid
  rcases find?_register h with ⟨rfl, solid⟩ | known
  · rw [solid] at isVoid
    cases isVoid
  · exact named known isVoid

end TypeTable.Named

namespace Grammar

/-- The stack spells what is unread, and the table of types is in order. -/
structure State.Ready (s : State) (stack : List Symbol) : Prop extends State.Spells s stack where
  named : s.types.Named

variable {α β : Type} {s s' : State} {stack : List Symbol}

/-- The parser returns, and the stack spells what is then unread, which is less than before. -/
def Reads (p : Parser α) (s : State) (stack : List Symbol) : Prop :=
  ∃ a s', p s = .ok a s' ∧ s'.Ready stack ∧ s'.unread.length < s.unread.length

def ReadsAll (p : Parser α) (phrase : Phrase) (After : List Symbol → Prop) (limit : Nat) : Prop :=
  ∀ ⦃s stack⦄, After stack → s.Ready (.phrase phrase :: stack) → s.unread.length < limit →
    Reads p s stack

/-! ### Steps over tokens -/

/-- A loop whose rounds consume something ends. -/
theorem iterate_run {step : β → Parser (ForInStep β)} {I Q : β → State → Prop}
    (round : ∀ v s, I v s → (∃ w s', step v s = .ok (.done w) s' ∧ Q w s') ∨
      ∃ w s', step v s = .ok (.yield w) s' ∧ I w s' ∧ s'.unread.length < s.unread.length)
    {rounds : Nat} {v : β} (start : I v s) (enough : s.unread.length < rounds) :
    ∃ w s', iterate step rounds v s = .ok w s' ∧ Q w s' := by
  induction rounds generalizing v s with
  | zero => omega
  | succ rounds ih =>
    rcases round v s start with ⟨w, s', ran, finish⟩ | ⟨w, s', ran, again, shorter⟩
    · exact ⟨w, s', by simp only [iterate, ran], finish⟩
    · obtain ⟨x, s'', looped, finish⟩ := ih again (by omega : s'.unread.length < rounds)
      exact ⟨x, s'', by simp only [iterate, ran, looped], finish⟩

namespace State.Ready

theorem of_phrase {phrase : Phrase} (ready : s.Ready (.phrase phrase :: stack)) :
    ∃ form, Production phrase form ∧ s.Ready (form ++ stack) := by
  obtain ⟨form, production, derives⟩ := ready.derives.of_phrase
  exact ⟨form, production, ⟨ready.quiet, derives⟩, ready.named⟩

theorem produce {phrase : Phrase} {form : List Symbol} (ready : s.Ready (form ++ stack))
    (production : Production phrase form) : s.Ready (.phrase phrase :: stack) :=
  ⟨ready.toSpells.produce production, ready.named⟩

theorem of_rule {rule : NameRule} (ready : s.Ready (.rule rule :: stack))
    (same : rule.after s.names = s.names) : rule.Permits s.names ∧ s.Ready stack := by
  obtain ⟨permitted, derives⟩ := ready.derives.of_rule
  rw [same] at derives
  exact ⟨permitted, ⟨ready.quiet, derives⟩, ready.named⟩

theorem unread {kind : Token.Kind} (ready : s.Ready (.token kind :: stack)) :
    ∃ token rest, s.unread = token :: rest ∧ token.kind = kind ∧
      Derives stack s.names (rest.map Token.kind) := by
  obtain ⟨kinds, spelled, derives⟩ := ready.derives.of_token
  obtain ⟨token, rest, unread, same, rfl⟩ := unread_of_kinds spelled
  exact ⟨token, rest, unread, same, derives⟩

theorem kind {kind : Token.Kind} (ready : s.Ready (.token kind :: stack)) : s.kind = kind := by
  obtain ⟨token, rest, unread, rfl, _⟩ := ready.unread
  exact kind_eq unread

theorem next {kind : Token.Kind} (ready : s.Ready (.token kind :: stack)) (real : kind ≠ .eof) :
    s.next.2.Ready stack ∧ s.next.2.unread.length < s.unread.length := by
  obtain ⟨token, rest, unread, rfl, derives⟩ := ready.unread
  rw [next_eq unread real]
  refine ⟨⟨⟨ready.quiet, derives⟩, ready.named⟩, ?_⟩
  rw [unread]
  exact Nat.lt_succ_self _

end State.Ready

theorem expect_run {mark : Mark} (ready : s.Ready (.mark mark :: stack)) :
    expect mark s = .ok () s.next.2 :=
  expect_of_kind ready.kind

theorem expectWord_run {keyword : Keyword} (ready : s.Ready (.word keyword :: stack)) :
    expectWord keyword s = .ok () s.next.2 :=
  expectWord_of_kind ready.kind

theorem accept_run {kind : Token.Kind} (ready : s.Ready (.token kind :: stack))
    (real : kind ≠ .eof) : accept kind s = .ok true s.next.2 :=
  accept_of_kind ready.kind real

theorem Numbers.run {p : Parser Node} (numbers : Numbers p) (ready : s.Ready stack) :
    ∃ node s', p s = .ok node s' ∧ s'.Ready stack ∧ s'.unread = s.unread := by
  obtain ⟨node, n, ran⟩ := numbers s
  exact ⟨node, _, ran, ⟨ready.toSpells.congr rfl rfl rfl, ready.named⟩, rfl⟩

/-- A parser that has read its phrase and then builds a node. -/
theorem Numbers.reads {p q : Parser Node} (numbers : Numbers p) (ready : s'.Ready stack)
    (less : s'.unread.length < s.unread.length) (same : q s = p s') : Reads q s stack := by
  obtain ⟨node, s₁, ran, finish, unread⟩ := numbers.run ready
  rw [← unread] at less
  exact ⟨node, s₁, same.trans ran, finish, less⟩

theorem Reads.congr {p q : Parser α} (reads : Reads p s stack) (same : q s = p s) :
    Reads q s stack := by
  obtain ⟨a, s', ran, finish⟩ := reads
  exact ⟨a, s', same.trans ran, finish⟩

/-! ### Names and types -/

theorem name_run {n : String} (ready : s.Ready (.name n :: stack)) :
    name s = .ok (n, s.position) s.next.2 :=
  name_of_kind ready.kind

theorem rejectTypeName_run {n : String} {pos : Position} (free : n ∉ s.names.types) :
    rejectTypeName n pos s = .ok false s := by
  simp only [rejectTypeName, isTypeName, observe_bind, not_mem_types.mp free, Bool.false_eq_true,
    ↓reduceIte]
  rfl

theorem ident_run {n : String} (ready : s.Ready (.name n :: stack)) (free : n ∉ s.names.types) :
    ident s = .ok (n, s.position) s.next.2 := by
  rw [← next_names s] at free
  unfold ident
  rw [bind_run (name_run ready)]
  dsimp only
  rw [bind_run (rejectTypeName_run free)]
  rfl

theorem stars_run {n : String} (ready : s.Ready (.phrase .stars :: .name n :: stack)) :
    ∃ count s', stars s = .ok count s' ∧ s'.Ready (.name n :: stack) ∧
      s'.unread.length ≤ s.unread.length ∧
      if s.kind = .mark .star then 0 < count else count = 0 := by
  let I (count : Nat) (s₁ : State) : Prop :=
    s₁.Ready (.phrase .stars :: .name n :: stack) ∧ s₁.unread.length ≤ s.unread.length ∧
      (count = 0 ∧ s₁ = s ∨ 0 < count ∧ s.kind = .mark .star)
  let Q (count : Nat) (s₁ : State) : Prop :=
    s₁.Ready (.name n :: stack) ∧ s₁.unread.length ≤ s.unread.length ∧
      if s.kind = .mark .star then 0 < count else count = 0
  have start : I 0 s := ⟨ready, Nat.le_refl _, .inl ⟨rfl, rfl⟩⟩
  refine iterate_run (I := I) (Q := Q) ?_ start (Nat.lt_succ_self _)
  rintro count s₁ ⟨ready, length, counted⟩
  obtain ⟨form, production, ready⟩ := ready.of_phrase
  cases production with
  | noStar =>
    have ending : s₁.Ready (.name n :: stack) := ready
    have other : s₁.kind ≠ .mark .star := by simp [ending.kind]
    refine .inl ⟨count, s₁, by rw [bind_run (accept_other other)]; rfl, ending, length, ?_⟩
    rcases counted with ⟨rfl, rfl⟩ | ⟨positive, starred⟩
    · rw [if_neg other]
    · rwa [if_pos starred]
  | star =>
    have starred : s₁.Ready (.mark .star :: .phrase .stars :: .name n :: stack) := ready
    obtain ⟨behind, shorter⟩ := starred.next nofun
    refine .inr ⟨count + 1, s₁.next.2, ?_, ⟨behind, by omega, .inr ⟨Nat.succ_pos _, ?_⟩⟩, shorter⟩
    · rw [bind_run (accept_run starred nofun)]
      rfl
    · rcases counted with ⟨_, rfl⟩ | ⟨_, first⟩
      · exact starred.kind
      · exact first

/-- A known type name, with stars behind it. -/
theorem starredType_run {text n : String} {rest : List Symbol} (ready : s.Ready (.name text :: rest))
    (known : text ∈ s.next.2.names.types)
    (behind : s.next.2.Ready (.phrase .stars :: .name n :: stack)) :
    ∃ base depth s', s.next.2.types.find? text = some base ∧
      typeName s = .ok (base.pointTo depth) s' ∧ s'.Ready (.name n :: stack) ∧
      s'.unread.length < s.unread.length ∧
      if s.next.2.kind = .mark .star then 0 < depth else depth = 0 := by
  have shorter := (ready.next nofun).2
  rw [mem_types, TypeTable.contains] at known
  obtain ⟨base, found⟩ := Option.isSome_iff_exists.mp known
  obtain ⟨depth, s', starsRead, finish, length, counted⟩ := stars_run behind
  have resolved : s.next.2.types.resolve text s.position = .ok base := by
    rw [TypeTable.resolve, found]
  refine ⟨base, depth, s', found, ?_, finish, by omega, counted⟩
  have recovered : recover (.ok base) s.next.2 = .ok (some base) s.next.2 := rfl
  unfold typeName
  rw [bind_run (name_run ready)]
  simp only [observe_bind, resolved]
  rw [bind_run recovered, bind_run (show stars s.next.2 = _ from starsRead)]
  rfl

theorem plainType_run {text n : String}
    (ready : s.Ready (.name text :: .rule (.knownType text) :: .name n :: stack)) :
    ∃ base s', s.next.2.types.find? text = some base ∧ typeName s = .ok base s' ∧
      s'.Ready (.name n :: stack) ∧ s'.unread.length < s.unread.length := by
  obtain ⟨known, behind⟩ := (ready.next nofun).1.of_rule rfl
  have noStar : s.next.2.kind ≠ .mark .star := by
    rw [behind.kind]
    nofun
  obtain ⟨base, depth, s', found, ran, finish, shorter, counted⟩ :=
    starredType_run ready known (State.Ready.produce behind .noStar)
  rw [if_neg noStar] at counted
  subst counted
  exact ⟨base, s', found, ran, finish, shorter⟩

theorem typeName_run {isVoid : Bool} {n : String}
    (ready : s.Ready (.phrase (.type isVoid) :: .name n :: stack)) :
    ∃ type s', typeName s = .ok type s' ∧ type.isVoid = isVoid ∧ s'.Ready (.name n :: stack) ∧
      s'.unread.length < s.unread.length := by
  obtain ⟨form, production, ready⟩ := ready.of_phrase
  cases production with
  | void =>
    obtain ⟨base, s', found, ran, finish, shorter⟩ := plainType_run ready
    cases found
    exact ⟨.void, s', ran, rfl, finish, shorter⟩
  | plainType text solid =>
    obtain ⟨base, s', found, ran, finish, shorter⟩ := plainType_run ready
    refine ⟨base, s', ran, ?_, finish, shorter⟩
    by_contra isVoid
    rw [Bool.not_eq_false] at isVoid
    exact solid ((ready.next nofun).1.named found isVoid)
  | pointer text =>
    obtain ⟨known, behind⟩ := (ready.next nofun).1.of_rule rfl
    obtain ⟨base, depth, s', found, ran, finish, shorter, counted⟩ :=
      starredType_run ready known (behind.produce .star)
    rw [if_pos behind.kind] at counted
    exact ⟨base.pointTo depth, s', ran, DataType.isVoid_pointTo counted, finish, shorter⟩

theorem declareVariable_run {n : String} {type : DataType} (pos : Position)
    (solid : type.isVoid = false) (ready : s.Ready (.rule (.newVariable n) :: stack)) :
    ∃ var s', declareVariable n type pos s = .ok var s' ∧ s'.Ready stack ∧ s'.unread = s.unread := by
  obtain ⟨⟨_, undeclared⟩, derives⟩ := ready.derives.of_rule
  rw [not_declared_iff] at undeclared
  obtain ⟨var, symbols, declared⟩ :
      ∃ var symbols, s.symbols.declareVariable n type pos = .ok (var, symbols) := by
    unfold Symbols.declareVariable
    rw [if_neg (by simp [undeclared])]
    exact ⟨_, _, rfl⟩
  rw [← names_declareVariable declared] at derives
  refine ⟨some var, { s with symbols }, ?_, ⟨⟨ready.quiet, derives⟩, ready.named⟩, rfl⟩
  simp only [declareVariable, solid, Bool.false_eq_true, ↓reduceIte, declare, declared]

theorem declareFunction_run {n : String} (pos : Position)
    (ready : s.Ready (.rule (.newFunction n) :: stack)) :
    ∃ func s', declareFunction n pos s = .ok (some func) s' ∧ s'.Ready stack ∧
      s'.unread = s.unread := by
  obtain ⟨⟨_, undeclared⟩, derives⟩ := ready.derives.of_rule
  rw [not_declared_iff] at undeclared
  obtain ⟨func, symbols, declared⟩ :
      ∃ func symbols, s.symbols.declareFunction n pos = .ok (func, symbols) := by
    unfold Symbols.declareFunction
    rw [if_neg (by simp [undeclared])]
    exact ⟨_, _, rfl⟩
  rw [← names_declareFunction declared] at derives
  refine ⟨func, { s with symbols }, ?_, ⟨⟨ready.quiet, derives⟩, ready.named⟩, rfl⟩
  simp only [declareFunction, declare, declared]

theorem lookupVariable_run {n : String} (pos : Position) (known : n ∈ s.names.vars) :
    ∃ var, lookupVariable n pos s = .ok var s := by
  obtain ⟨var, found⟩ := Option.isSome_iff_exists.mp (mem_vars.mp known)
  refine ⟨some var, ?_⟩
  simp only [lookupVariable, observe_bind, Symbols.lookupVariable, found]
  rfl

theorem lookupFunction_run {n : String} (pos : Position) (known : n ∈ s.names.functions) :
    ∃ func, lookupFunction n pos s = .ok (some func) s := by
  obtain ⟨func, found⟩ := Option.isSome_iff_exists.mp (mem_functions.mp known)
  refine ⟨func, ?_⟩
  simp only [lookupFunction, observe_bind, Symbols.lookupFunction, found]
  rfl

/-! ### Expressions -/

theorem operatorOr_run {find : Token.Kind → Option α} {refused : Mark} {construct : String} {op : α}
    (isOp : find s.kind = some op) :
    operatorOr find refused construct s = .ok (some op) s.next.2 := by
  unfold operatorOr
  rw [peekKind_bind, isOp]
  rfl

theorem operatorOr_other {find : Token.Kind → Option α} {refused : Mark} {construct : String}
    (noOp : find s.kind = none) (other : s.kind ≠ .mark refused) :
    operatorOr find refused construct s = .ok none s := by
  unfold operatorOr
  rw [peekKind_bind, noOp]
  dsimp only
  rw [if_neg other]
  rfl

theorem binaryOp?_of_mem : ∀ m ∈ operators, (binaryOp? (.mark m)).isSome = true := by decide

theorem binaryOp?_of_closer :
    ∀ m ∈ closers, binaryOp? (.mark m) = none ∧ m ≠ .slash := by decide

theorem assignOp?_of_mem : ∀ m ∈ assignments, (assignOp? (.mark m)).isSome = true := by decide

theorem assignOp?_of_follow : ∀ m, m ∈ operators ∨ m ∈ closers →
    assignOp? (.mark m) = none ∧ m ≠ .slashEqual := by
  rintro m (operator | closer)
  · revert m
    decide
  · revert m
    decide

theorem notParen_of_follow : ∀ m, (m ∈ operators ∨ m ∈ closers) ∨ m ∈ assignments →
    m ≠ .lparen ∧ direction? (.mark m) = none := by
  rintro m ((operator | closer) | assignment)
  · revert m
    decide
  · revert m
    decide
  · revert m
    decide

theorem direction?_of_mem : ∀ m ∈ steps, (direction? (.mark m)).isSome = true := by decide

/-- The next mark behind an expression. -/
theorem AfterExpression.kind (after : AfterExpression stack) (ready : s.Ready stack) :
    ∃ m, s.kind = .mark m ∧ (m ∈ operators ∨ m ∈ closers) := by
  obtain ⟨m, rest, kinds, follows⟩ := after.head ready.derives
  exact ⟨m, kind_of_kinds kinds, follows⟩

/-- The next mark behind a variable. -/
theorem AfterExpression.kind_assignment (after : AfterExpression stack)
    (ready : s.Ready (.phrase .assignmentOption :: stack)) :
    ∃ m, s.kind = .mark m ∧ ((m ∈ operators ∨ m ∈ closers) ∨ m ∈ assignments) := by
  obtain ⟨form, production, ready⟩ := ready.of_phrase
  cases production with
  | noAssignment =>
    obtain ⟨m, next, follows⟩ := after.kind ready
    exact ⟨m, next, .inl follows⟩
  | assignment m assignment => exact ⟨m, State.Ready.kind ready, .inr assignment⟩

section Expression

variable {expression primary : Parser Node} {limit : Nat}

theorem operatorTail_run (operand : ReadsAll primary .primary AfterExpression limit)
    (after : AfterExpression stack) (ready : s.Ready (.phrase .operations :: stack))
    (small : s.unread.length < limit) :
    ∃ pairs s', operatorTail primary s = .ok pairs s' ∧ s'.Ready stack ∧
      s'.unread.length ≤ s.unread.length := by
  let I (_ : List (BinaryOp × Node)) (s₁ : State) : Prop :=
    s₁.Ready (.phrase .operations :: stack) ∧ s₁.unread.length ≤ s.unread.length
  let Q (_ : List (BinaryOp × Node)) (s₁ : State) : Prop :=
    s₁.Ready stack ∧ s₁.unread.length ≤ s.unread.length
  refine iterate_run (I := I) (Q := Q) ?_ ⟨ready, Nat.le_refl _⟩ (Nat.lt_succ_self _)
  rintro pairs s₁ ⟨ready, length⟩
  obtain ⟨m, rest, kinds, follows⟩ := after.operations.head ready.derives
  have next := kind_of_kinds kinds
  have derives := ready.derives
  rw [kinds] at derives
  by_cases operator : m ∈ operators
  · refine .inr ?_
    obtain ⟨op, isOp⟩ := Option.isSome_iff_exists.mp (binaryOp?_of_mem m operator)
    have taken : s₁.Ready (.mark m :: .phrase .primary :: .phrase .operations :: stack) :=
      ⟨⟨ready.quiet, kinds ▸ .token _ (after.operation operator derives)⟩, ready.named⟩
    obtain ⟨behind, shorter⟩ := taken.next nofun
    obtain ⟨node, s₂, read, finish, less⟩ := operand after.operations behind (by omega)
    refine ⟨pairs ++ [(op, node)], s₂, ?_, ⟨finish, by omega⟩, by omega⟩
    have opRead : binaryOperator s₁ = .ok (some op) s₁.next.2 :=
      operatorOr_run (by rw [next]; exact isOp)
    rw [bind_run opRead]
    dsimp only
    rw [bind_run read]
    rfl
  · refine .inl ⟨pairs, s₁, ?_, ?_, length⟩
    · obtain ⟨noOp, notSlash⟩ := binaryOp?_of_closer m (follows.resolve_left operator)
      have opRead : binaryOperator s₁ = .ok none s₁ :=
        operatorOr_other (by rw [next]; exact noOp) (by rw [next]; simpa using notSlash)
      rw [bind_run opRead]
      rfl
    · exact ⟨⟨ready.quiet, kinds ▸ AfterExpression.noOperation operator derives⟩, ready.named⟩

theorem readsAll_expressionOf (operand : ReadsAll primary .primary AfterExpression limit) :
    ReadsAll (expressionOf primary) .expression AfterExpression limit := by
  intro s stack after ready small
  obtain ⟨form, production, ready⟩ := ready.of_phrase
  cases production with
  | expression =>
    obtain ⟨first, s₁, firstRead, ready, shorter⟩ := operand after.operations ready small
    obtain ⟨rest, s₂, restRead, ready, length⟩ := operatorTail_run operand after ready (by omega)
    refine (Numbers.buildTree (.ofChain first rest)).reads ready (by omega) ?_
    rw [expressionOf, bind_run firstRead, bind_run restRead]

theorem assignmentOf_run (inner : ReadsAll expression .expression AfterExpression limit)
    (after : AfterExpression stack) (ready : s.Ready (.phrase .assignmentOption :: stack))
    (small : s.unread.length ≤ limit) (var : Option VarId) :
    ∃ node s', assignmentOf expression var s = .ok node s' ∧ s'.Ready stack ∧
      s'.unread.length ≤ s.unread.length := by
  obtain ⟨form, production, ready⟩ := ready.of_phrase
  cases production with
  | noAssignment =>
    have ready : s.Ready stack := ready
    obtain ⟨m, next, follows⟩ := after.kind ready
    obtain ⟨noOp, notSlash⟩ := assignOp?_of_follow m follows
    obtain ⟨node, s', ran, ready, same⟩ := (Numbers.accessNode var).run ready
    refine ⟨node, s', ?_, ready, by rw [same]⟩
    have opRead : assignOperator s = .ok none s :=
      operatorOr_other (by rw [next]; exact noOp) (by rw [next]; simpa using notSlash)
    rw [assignmentOf, bind_run opRead]
    exact ran
  | assignment m assignment =>
    obtain ⟨op, isOp⟩ := Option.isSome_iff_exists.mp (assignOp?_of_mem m assignment)
    obtain ⟨behind, shorter⟩ := State.Ready.next ready nofun
    obtain ⟨value, s₁, read, ready', less⟩ := inner after behind (by omega)
    obtain ⟨node, s', ran, ready', same⟩ := (Numbers.assignNode op value var).run ready'
    refine ⟨node, s', ?_, ready', by rw [same]; omega⟩
    have next : s.kind = .mark m := State.Ready.kind ready
    have opRead : assignOperator s = .ok (some op) s.next.2 :=
      operatorOr_run (by rw [next]; exact isOp)
    rw [assignmentOf, bind_run opRead]
    dsimp only
    rw [bind_run read]
    exact ran

theorem declarationOf_run (inner : ReadsAll expression .expression AfterExpression limit)
    (after : AfterExpression stack) (ready : s.Ready (.phrase .declaration :: stack))
    (small : s.unread.length ≤ limit) : Reads (declarationOf expression) s stack := by
  obtain ⟨form, production, ready⟩ := ready.of_phrase
  cases production with
  | declaration n =>
    obtain ⟨type, s₁, typeRead, solid, named, shorter⟩ := typeName_run ready
    obtain ⟨behind, less⟩ := named.next nofun
    have free : n ∉ s₁.names.types := next_names s₁ ▸ behind.derives.of_rule.1.1
    obtain ⟨var, s₂, declared, ready, same⟩ := declareVariable_run s₁.position solid behind
    obtain ⟨node, s₃, assigned, ready, length⟩ :=
      assignmentOf_run inner after ready (by rw [same]; omega) var
    rw [same] at length
    refine ⟨node, s₃, ?_, ready, by omega⟩
    rw [declarationOf, bind_run typeRead, bind_run (ident_run named free)]
    dsimp only
    rw [bind_run declared]
    exact assigned

theorem nameOf_call {n : String} (ready : s.Ready
      (.name n :: .rule (.knownFunction n) :: .mark .lparen :: .mark .rparen :: stack)) :
    Reads (nameOf expression) s stack := by
  obtain ⟨behind, shorter⟩ := ready.next nofun
  obtain ⟨⟨free, known⟩, parens⟩ := behind.of_rule rfl
  obtain ⟨inside, less⟩ := parens.next nofun
  obtain ⟨finish, least⟩ := inside.next nofun
  rw [← next_names s.next.2, ← next_names s.next.2.next.2] at known
  obtain ⟨func, looked⟩ := lookupFunction_run s.position known
  refine (Numbers.build (.call · func)).reads finish (by omega) ?_
  unfold nameOf
  rw [bind_run (name_run ready)]
  dsimp only
  rw [bind_run (rejectTypeName_run free)]
  simp only [Bool.false_eq_true, ↓reduceIte, peekKind_bind, parens.kind, skip_bind]
  rw [bind_run (expect_run inside), bind_run looked]

theorem nameOf_step {m : Mark} {n : String} (step : m ∈ steps)
    (ready : s.Ready (.name n :: .rule (.knownVariable n) :: .mark m :: stack)) :
    Reads (nameOf expression) s stack := by
  obtain ⟨behind, shorter⟩ := ready.next nofun
  obtain ⟨⟨free, known⟩, stepped⟩ := behind.of_rule rfl
  obtain ⟨finish, less⟩ := stepped.next nofun
  rw [← next_names s.next.2] at known
  obtain ⟨var, looked⟩ := lookupVariable_run s.position known
  obtain ⟨direction, isStep⟩ := Option.isSome_iff_exists.mp (direction?_of_mem m step)
  have notParen : m ≠ .lparen := by
    rintro rfl
    cases isStep
  refine (Numbers.stepNode direction .after var).reads finish (by omega) ?_
  unfold nameOf
  rw [bind_run (name_run ready)]
  dsimp only
  rw [bind_run (rejectTypeName_run free)]
  simp only [Bool.false_eq_true, ↓reduceIte, peekKind_bind]
  have next := stepped.kind
  generalize s.next.2.kind = kind at next ⊢
  split
  · exact absurd (Token.Kind.mark.inj next).symm notParen
  · rw [next, isStep]
    dsimp only
    rw [skip_bind, bind_run looked]

theorem nameOf_variable {n : String} {rest : List Symbol}
    (inner : ReadsAll expression .expression AfterExpression limit) (after : AfterExpression stack)
    (small : s.unread.length ≤ limit) (ready : s.Ready (.name n :: rest))
    (permitted : (NameRule.knownVariable n).Permits s.next.2.names)
    (behind : s.next.2.Ready (.phrase .assignmentOption :: stack)) :
    Reads (nameOf expression) s stack := by
  obtain ⟨free, known⟩ := permitted
  have shorter := (ready.next nofun).2
  obtain ⟨var, looked⟩ := lookupVariable_run s.position known
  obtain ⟨node, s', assigned, finish, length⟩ := assignmentOf_run inner after behind (by omega) var
  obtain ⟨m, next, follows⟩ := after.kind_assignment behind
  obtain ⟨notParen, noStep⟩ := notParen_of_follow m follows
  refine ⟨node, s', ?_, finish, by omega⟩
  unfold nameOf
  rw [bind_run (name_run ready)]
  dsimp only
  rw [bind_run (rejectTypeName_run free)]
  simp only [Bool.false_eq_true, ↓reduceIte, peekKind_bind]
  generalize s.next.2.kind = kind at next ⊢
  split
  · exact absurd (Token.Kind.mark.inj next).symm notParen
  · rw [next, noStep]
    dsimp only
    rw [bind_run looked]
    exact assigned

theorem steppedVariable_run {n : String}
    (ready : s.Ready (.name n :: .rule (.knownVariable n) :: stack)) :
    ∃ var s', steppedVariable s = .ok var s' ∧ s'.Ready stack ∧
      s'.unread.length < s.unread.length := by
  obtain ⟨behind, shorter⟩ := ready.next nofun
  obtain ⟨⟨free, known⟩, finish⟩ := behind.of_rule rfl
  obtain ⟨var, looked⟩ := lookupVariable_run s.position known
  refine ⟨var, _, ?_, finish, shorter⟩
  unfold steppedVariable
  rw [bind_run (name_run ready)]
  dsimp only
  rw [bind_run (rejectTypeName_run free)]
  exact looked

theorem unaryOf_run (narrow : ReadsAll primary .primary AfterExpression limit)
    (after : AfterExpression stack) {m : Mark} (ready : s.Ready (.mark m :: .phrase .primary :: stack))
    (small : s.unread.length ≤ limit) (op : UnaryOp) : Reads (unaryOf op primary) s stack := by
  obtain ⟨behind, shorter⟩ := ready.next nofun
  obtain ⟨operand, s₁, read, finish, less⟩ := narrow after behind (by omega)
  refine (Numbers.build (.unary · op operand)).reads finish (by omega) ?_
  rw [unaryOf, skip_bind, bind_run read]

/-! A declaration is told from other names by its first two tokens. -/

theorem atDeclaration_ident {first second : String} {rest : List Token.Kind}
    (kinds : s.kinds = .ident first :: .ident second :: rest) : s.atDeclaration = true := by
  obtain ⟨⟨kind, pos⟩, tail, unread, rfl, kinds⟩ := unread_of_kinds kinds
  obtain ⟨token, tail, rfl, same, _⟩ := List.map_eq_cons_iff.mp kinds
  simp only [State.atDeclaration, unread, same]

theorem atDeclaration_mark {first : String} {m : Mark} {rest : List Token.Kind}
    (kinds : s.kinds = .ident first :: .mark m :: rest) :
    s.atDeclaration = (m == .star && s.types.contains first) := by
  obtain ⟨⟨kind, pos⟩, tail, unread, rfl, kinds⟩ := unread_of_kinds kinds
  obtain ⟨token, tail, rfl, same, _⟩ := List.map_eq_cons_iff.mp kinds
  simp only [State.atDeclaration, unread, same]
  cases m <;> rfl

/-- A declaration begins with two names, or with a type name and a star. -/
theorem atDeclaration_of_declaration (ready : s.Ready (.phrase .declaration :: stack)) :
    s.atDeclaration = true := by
  obtain ⟨form, production, derives⟩ := ready.derives.of_phrase
  cases production with
  | declaration n =>
    obtain ⟨form, production, derives⟩ := derives.of_phrase
    cases production with
    | plainType text solid =>
      obtain ⟨rest, kinds, derives⟩ := derives.of_token
      obtain ⟨_, rfl, _⟩ := derives.of_rule.2.of_token
      exact atDeclaration_ident kinds
    | pointer text =>
      obtain ⟨rest, kinds, derives⟩ := derives.of_token
      obtain ⟨known, derives⟩ := derives.of_rule
      obtain ⟨_, rfl, _⟩ := derives.of_token
      rw [atDeclaration_mark kinds]
      exact mem_types.mp known

theorem ident_of_declaration (ready : s.Ready (.phrase .declaration :: stack)) :
    ∃ n, s.kind = .ident n := by
  obtain ⟨form, production, derives⟩ := ready.derives.of_phrase
  cases production with
  | declaration n =>
    obtain ⟨text, rest, kinds⟩ := head_type derives
    exact ⟨text, kind_of_kinds kinds⟩

/-- A name with a mark behind it that is no type name begins no declaration. -/
theorem not_atDeclaration {n : String} (ready : s.Ready (.name n :: stack)) (free : n ∉ s.names.types)
    {m : Mark} (next : s.next.2.kind = .mark m) : s.atDeclaration = false := by
  obtain ⟨token, rest, unread, same, _⟩ := ready.unread
  have real : token.kind ≠ .eof := by
    rw [same]
    nofun
  rw [next_eq unread real] at next
  obtain ⟨second, tail, behind, isMark⟩ := unread_of_kind next nofun
  have kinds : s.kinds = .ident n :: .mark m :: tail.map Token.kind := by
    rw [State.kinds, unread, show rest = second :: tail from behind, List.map_cons, List.map_cons,
      same, isMark]
  rw [atDeclaration_mark kinds, not_mem_types.mp free, Bool.and_false]

theorem readsAll_primaryOf (wide : ReadsAll expression .expression AfterExpression limit)
    (narrow : ReadsAll primary .primary AfterExpression limit) :
    ReadsAll (primaryOf expression primary) .primary AfterExpression (limit + 1) := by
  intro s stack after ready small
  have small : s.unread.length ≤ limit := by omega
  -- A name that begins no declaration is left to `nameOf`.
  have asName {n : String} {rest : List Symbol} {rule : NameRule} {m : Mark}
      (ready : s.Ready (.name n :: .rule rule :: rest)) (free : n ∉ s.names.types)
      (next : s.next.2.kind = .mark m) (reads : Reads (nameOf expression) s stack) :
      Reads (primaryOf expression primary) s stack := by
    refine reads.congr ?_
    rw [primaryOf, peekKind_bind, ready.kind]
    dsimp only
    rw [observe_bind, not_atDeclaration ready free next]
    rfl
  obtain ⟨form, production, ready⟩ := ready.of_phrase
  cases production with
  | parenthesized =>
    have ready : s.Ready (.mark .lparen :: .phrase .expression :: .mark .rparen :: stack) := ready
    obtain ⟨behind, shorter⟩ := ready.next nofun
    obtain ⟨inner, s₁, read, closing, less⟩ :=
      wide (.closer (by decide)) behind (by omega)
    obtain ⟨finish, least⟩ := closing.next nofun
    refine ⟨inner, _, ?_, finish, by omega⟩
    rw [primaryOf, peekKind_bind, ready.kind]
    dsimp only
    rw [skip_bind, bind_run read, bind_run (expect_run closing)]
    rfl
  | negation =>
    refine (unaryOf_run narrow after ready small .neg).congr ?_
    rw [primaryOf, peekKind_bind, State.Ready.kind ready]
  | not =>
    refine (unaryOf_run narrow after ready small .not).congr ?_
    rw [primaryOf, peekKind_bind, State.Ready.kind ready]
  | stepBefore m n step =>
    have ready : s.Ready (.mark m :: .name n :: .rule (.knownVariable n) :: stack) := ready
    obtain ⟨behind, shorter⟩ := ready.next nofun
    obtain ⟨var, s₁, read, finish, less⟩ := steppedVariable_run behind
    have directions : m = .plusPlus ∨ m = .minusMinus := by simpa [steps] using step
    rcases directions with rfl | rfl
    · refine (Numbers.stepNode .up .before var).reads finish (by omega) ?_
      rw [primaryOf, peekKind_bind, ready.kind]
      dsimp only
      rw [skip_bind, bind_run read]
    · refine (Numbers.stepNode .down .before var).reads finish (by omega) ?_
      rw [primaryOf, peekKind_bind, ready.kind]
      dsimp only
      rw [skip_bind, bind_run read]
  | integer text =>
    have ready : s.Ready (.token (.integer text) :: stack) := ready
    obtain ⟨finish, shorter⟩ := ready.next nofun
    refine (Numbers.build (.integer · text)).reads finish shorter ?_
    rw [primaryOf, peekKind_bind, ready.kind]
    dsimp only
    rw [skip_bind]
  | float text =>
    have ready : s.Ready (.token (.float text) :: stack) := ready
    obtain ⟨finish, shorter⟩ := ready.next nofun
    refine (Numbers.build (.float · text)).reads finish shorter ?_
    rw [primaryOf, peekKind_bind, ready.kind]
    dsimp only
    rw [skip_bind]
  | declared =>
    obtain ⟨n, next⟩ := ident_of_declaration ready
    refine (declarationOf_run wide after ready small).congr ?_
    rw [primaryOf, peekKind_bind, next]
    dsimp only
    rw [observe_bind, atDeclaration_of_declaration ready]
    rfl
  | call n =>
    have behind := (State.Ready.next ready nofun).1.of_rule rfl
    exact asName ready (next_names s ▸ behind.1.1) behind.2.kind (nameOf_call ready)
  | assigned m n assignment =>
    have behind := (State.Ready.next ready nofun).1.of_rule rfl
    exact asName ready (next_names s ▸ behind.1.1) behind.2.kind
      (nameOf_variable wide after small ready behind.1 (behind.2.produce (.assignment m assignment)))
  | stepAfter m n step =>
    have behind := (State.Ready.next ready nofun).1.of_rule rfl
    exact asName ready (next_names s ▸ behind.1.1) behind.2.kind (nameOf_step step ready)
  | access n =>
    have behind := (State.Ready.next ready nofun).1.of_rule rfl
    have rest : s.next.2.Ready stack := behind.2
    obtain ⟨m, next, _⟩ := after.kind rest
    exact asName ready (next_names s ▸ behind.1.1) next
      (nameOf_variable wide after small ready behind.1 (rest.produce .noAssignment))

end Expression

theorem readsAll_primary (depth : Nat) : ReadsAll (primary depth) .primary AfterExpression depth := by
  induction depth with
  | zero => exact fun s stack _ _ small => absurd small (Nat.not_lt_zero _)
  | succ depth ih =>
    exact fun s stack after ready small =>
      readsAll_primaryOf (readsAll_expressionOf ih) ih after ready small

theorem expression_run (after : AfterExpression stack) (ready : s.Ready (.phrase .expression :: stack)) :
    Reads expression s stack := by
  have inner := readsAll_primary (s.unread.length + 1)
  obtain ⟨node, s', ran, finish⟩ := readsAll_expressionOf inner after ready (Nat.lt_succ_self _)
  exact ⟨node, s', ran, finish⟩

/-! ### Statements -/

theorem parenthesized_run
    (ready : s.Ready (.mark .lparen :: .phrase .expression :: .mark .rparen :: stack)) :
    Reads parenthesized s stack := by
  obtain ⟨behind, shorter⟩ := ready.next nofun
  obtain ⟨inner, s₁, read, closing, less⟩ := expression_run (.closer (by decide)) behind
  obtain ⟨finish, least⟩ := closing.next nofun
  refine ⟨inner, _, ?_, finish, by omega⟩
  rw [parenthesized, bind_run (expect_run ready), bind_run read, bind_run (expect_run closing)]
  rfl

section Statement

variable {statement : Parser (Option Node)} {limit : Nat}

theorem bracedBody_run (inner : ReadsAll statement .statement AfterStatement limit)
    (ready : s.Ready (.phrase .statements :: .mark .rcurly :: stack))
    (small : s.unread.length < limit) :
    ∃ body s', bracedBody statement s = .ok body s' ∧ s'.Ready stack ∧
      s'.unread.length < s.unread.length := by
  let I (_ : List Node) (s₁ : State) : Prop :=
    s₁.Ready (.phrase .statements :: .mark .rcurly :: stack) ∧
      s₁.unread.length ≤ s.unread.length
  let Q (_ : List Node) (s₁ : State) : Prop :=
    s₁.Ready stack ∧ s₁.unread.length < s.unread.length
  refine iterate_run (I := I) (Q := Q) ?_ ⟨ready, Nat.le_refl _⟩ (Nat.lt_succ_self _)
  rintro body s₁ ⟨ready, length⟩
  obtain ⟨kind, rest, kinds, _⟩ := head_statements .brace ready.derives
  have next := kind_of_kinds kinds
  have derives := ready.derives
  rw [kinds] at derives
  cases ends : endsCase kind with
  | true =>
    refine .inl ?_
    have closing : s₁.Ready (.mark .rcurly :: stack) :=
      ⟨⟨ready.quiet, kinds ▸ statements_end derives ends⟩, ready.named⟩
    obtain ⟨finish, shorter⟩ := closing.next nofun
    refine ⟨body, _, ?_, finish, by omega⟩
    rw [statementRound, peekKind_bind, closing.kind]
    rfl
  | false =>
    refine .inr ?_
    have more : s₁.Ready (.phrase .statement :: .phrase .statements :: .mark .rcurly :: stack) :=
      ⟨⟨ready.quiet, kinds ▸ statements_more .brace derives ends⟩, ready.named⟩
    obtain ⟨node, s₂, read, finish, less⟩ := inner (.statements .brace) more (by omega)
    refine ⟨addStatement body node, s₂, ?_, ⟨finish, by omega⟩, less⟩
    rw [statementRound, peekKind_bind, next]
    split
    · cases ends
    · cases ends
    · rw [bind_run read]
      rfl

theorem bracedBlock_run (inner : ReadsAll statement .statement AfterStatement limit)
    (ready : s.Ready (.mark .lcurly :: .phrase .statements :: .mark .rcurly :: stack))
    (small : s.unread.length ≤ limit) : Reads (blockOf statement) s stack := by
  obtain ⟨behind, shorter⟩ := ready.next nofun
  obtain ⟨body, s₁, read, finish, less⟩ := bracedBody_run inner behind (by omega)
  refine (Numbers.build (.block · body)).reads finish (by omega) ?_
  rw [blockOf, bind_run (accept_run ready nofun)]
  simp only [↓reduceIte]
  rw [bind_run read]

theorem readsAll_blockOf (inner : ReadsAll statement .statement AfterStatement limit) :
    ReadsAll (blockOf statement) .block AfterStatement limit := by
  intro s stack after ready small
  rcases statement_cases ready.derives (.inr rfl) with braced | ⟨form, production, notBlock, derives⟩
  · exact bracedBlock_run inner ⟨⟨ready.quiet, braced⟩, ready.named⟩ (by omega)
  · have single : s.Ready (.phrase .statement :: stack) :=
      ⟨⟨ready.quiet, .phrase production derives⟩, ready.named⟩
    have noBrace : s.kind ≠ .mark .lcurly := by
      obtain ⟨kind, rest, kinds, _, other⟩ := head_form production notBlock derives
      rwa [kind_of_kinds kinds]
    obtain ⟨found, s₁, read, finish, less⟩ := inner after single small
    cases found with
    | some node =>
      refine ⟨node, s₁, ?_, finish, less⟩
      rw [blockOf, bind_run (accept_other noBrace)]
      simp only [Bool.false_eq_true, ↓reduceIte]
      rw [bind_run read]
      rfl
    | none =>
      refine (Numbers.build (.block · [])).reads finish less ?_
      rw [blockOf, bind_run (accept_other noBrace)]
      simp only [Bool.false_eq_true, ↓reduceIte]
      rw [bind_run read]

theorem ifOf_run (inner : ReadsAll statement .statement AfterStatement limit)
    (after : AfterStatement stack) (ready : s.Ready (.phrase .ifStatement :: stack))
    (small : s.unread.length ≤ limit) : Reads (ifOf statement) s stack := by
  obtain ⟨form, production, ready⟩ := ready.of_phrase
  cases production with
  | ifStatement =>
    obtain ⟨behind, shorter⟩ := State.Ready.next ready nofun
    obtain ⟨cond, s₁, condRead, ready, less⟩ := parenthesized_run behind
    obtain ⟨thenPart, s₂, thenRead, ready, least⟩ :=
      readsAll_blockOf inner after.elseOption ready (by omega)
    by_cases isElse : ∃ rest, s₂.kinds = .keyword .elseWord :: rest
    · obtain ⟨rest, kinds⟩ := isElse
      have derives := ready.derives
      rw [kinds] at derives
      have taken : s₂.Ready (.word .elseWord :: .phrase .block :: stack) :=
        ⟨⟨ready.quiet, kinds ▸ .token _ (after.elsePart derives)⟩, ready.named⟩
      obtain ⟨behind, fewer⟩ := taken.next nofun
      obtain ⟨elsePart, s₃, elseRead, ready, fewest⟩ := readsAll_blockOf inner after behind (by omega)
      refine (Numbers.build (.ifElse · cond thenPart (some elsePart))).reads ready (by omega) ?_
      rw [ifOf, skip_bind, bind_run condRead, bind_run thenRead, bind_run (accept_run taken nofun)]
      simp only [↓reduceIte]
      rw [bind_run elseRead]
    · rw [not_exists] at isElse
      have rest : s₂.Ready stack :=
        ⟨⟨ready.quiet, AfterStatement.noElse ready.derives isElse⟩, ready.named⟩
      have other : s₂.kind ≠ .keyword .elseWord := by
        intro next
        obtain ⟨token, tail, unread, same⟩ := unread_of_kind next nofun
        exact isElse (tail.map Token.kind) (by rw [State.kinds, unread, List.map_cons, same])
      refine (Numbers.build (.ifElse · cond thenPart none)).reads rest (by omega) ?_
      rw [ifOf, skip_bind, bind_run condRead, bind_run thenRead, bind_run (accept_other other)]
      rfl

theorem whileOf_run (inner : ReadsAll statement .statement AfterStatement limit)
    (after : AfterStatement stack) (ready : s.Ready (.phrase .whileStatement :: stack))
    (small : s.unread.length ≤ limit) : Reads (whileOf statement) s stack := by
  obtain ⟨form, production, ready⟩ := ready.of_phrase
  cases production with
  | whileStatement =>
    obtain ⟨behind, shorter⟩ := State.Ready.next ready nofun
    obtain ⟨cond, s₁, condRead, ready, less⟩ := parenthesized_run behind
    obtain ⟨body, s₂, bodyRead, ready, least⟩ := readsAll_blockOf inner after ready (by omega)
    refine (Numbers.build (.whileLoop · cond body)).reads ready (by omega) ?_
    rw [whileOf, skip_bind, bind_run condRead, bind_run bodyRead]

theorem doOf_run (inner : ReadsAll statement .statement AfterStatement limit)
    (ready : s.Ready (.phrase .doStatement :: stack)) (small : s.unread.length ≤ limit) :
    Reads (doOf statement) s stack := by
  obtain ⟨form, production, ready⟩ := ready.of_phrase
  cases production with
  | doStatement =>
    obtain ⟨behind, shorter⟩ := State.Ready.next ready nofun
    have after : AfterStatement (.word .whileWord :: .mark .lparen :: .phrase .expression ::
        .mark .rparen :: .mark .semicolon :: stack) := .word (by decide)
    obtain ⟨body, s₁, bodyRead, word, less⟩ := readsAll_blockOf inner after behind (by omega)
    obtain ⟨behind, fewer⟩ := word.next nofun
    obtain ⟨cond, s₂, condRead, ending, least⟩ := parenthesized_run behind
    obtain ⟨finish, fewest⟩ := ending.next nofun
    refine (Numbers.build (.doWhile · body cond)).reads finish (by omega) ?_
    rw [doOf, skip_bind, bind_run bodyRead, bind_run (expectWord_run word), bind_run condRead,
      bind_run (expect_run ending)]

theorem putc_run (ready : s.Ready (.phrase .putcStatement :: stack)) : Reads putc s stack := by
  obtain ⟨form, production, ready⟩ := ready.of_phrase
  cases production with
  | putcStatement =>
    obtain ⟨behind, shorter⟩ := State.Ready.next ready nofun
    obtain ⟨value, s₁, valueRead, ending, less⟩ := parenthesized_run behind
    obtain ⟨finish, least⟩ := ending.next nofun
    refine (Numbers.build (.putChar · value)).reads finish (by omega) ?_
    rw [putc, skip_bind, bind_run valueRead, bind_run (expect_run ending)]

theorem caseBody_run (inner : ReadsAll statement .statement AfterStatement limit)
    (after : AfterStatements stack) (ready : s.Ready (.phrase .statements :: stack))
    (small : s.unread.length < limit) :
    ∃ node s', caseBody statement s = .ok node s' ∧ s'.Ready stack ∧
      s'.unread.length ≤ s.unread.length := by
  let I (_ : List Node) (s₁ : State) : Prop :=
    s₁.Ready (.phrase .statements :: stack) ∧ s₁.unread.length ≤ s.unread.length
  let Q (_ : List Node) (s₁ : State) : Prop :=
    s₁.Ready stack ∧ s₁.unread.length ≤ s.unread.length
  have looped : ∃ body s', repeatUntilDone (caseRound statement) [] s = .ok body s' ∧ Q body s' := by
    refine iterate_run (I := I) (Q := Q) ?_ ⟨ready, Nat.le_refl _⟩ (Nat.lt_succ_self _)
    rintro body s₁ ⟨ready, length⟩
    obtain ⟨kind, rest, kinds, _⟩ := head_statements after ready.derives
    obtain ⟨token, tail, unread, isKind, _⟩ := unread_of_kinds kinds
    have derives := ready.derives
    rw [kinds] at derives
    have check : s₁.check endsCase = endsCase kind := by
      simp only [State.check, unread, isKind]
    cases ends : endsCase kind with
    | true =>
      refine .inl ⟨body, s₁, ?_, ?_, length⟩
      · rw [caseRound, observe_bind, check, ends]
        rfl
      · exact ⟨⟨ready.quiet, kinds ▸ statements_end derives ends⟩, ready.named⟩
    | false =>
      refine .inr ?_
      have more : s₁.Ready (.phrase .statement :: .phrase .statements :: stack) :=
        ⟨⟨ready.quiet, kinds ▸ statements_more after derives ends⟩, ready.named⟩
      obtain ⟨node, s₂, read, finish, less⟩ := inner (.statements after) more (by omega)
      refine ⟨addStatement body node, s₂, ?_, ⟨finish, by omega⟩, less⟩
      rw [caseRound, observe_bind, check, ends]
      simp only [Bool.false_eq_true, ↓reduceIte]
      rw [bind_run read]
      rfl
  obtain ⟨body, s₁, ran, finish, length⟩ := looped
  obtain ⟨node, s', built, finish, same⟩ := (Numbers.build (.block · body)).run finish
  refine ⟨node, s', ?_, finish, by rw [same]; exact length⟩
  rw [caseBody, bind_run ran]
  exact built

theorem reportAfterDefault_run {cases : Cases} (first : cases.fallback = none) :
    reportAfterDefault cases s = .ok () s := by
  unfold reportAfterDefault
  rw [first]
  rfl

theorem afterStatements_remaining (cases : Cases) : AfterStatements (remaining cases stack) := by
  unfold remaining
  split
  · exact .brace
  · exact .cases

/-- One case, or the default. -/
theorem switchRound_case (inner : ReadsAll statement .statement AfterStatement limit) {cases : Cases}
    (first : cases.fallback = none) (small : s.unread.length ≤ limit)
    (ready : s.Ready (.word .caseWord :: .phrase .expression :: .mark .colon ::
      .phrase .statements :: remaining cases stack)) :
    ∃ result s', switchRound statement cases s = .ok (.yield result) s' ∧
      s'.Ready (remaining result stack) ∧ s'.unread.length < s.unread.length := by
  obtain ⟨behind, shorter⟩ := ready.next nofun
  obtain ⟨value, s₁, valueRead, colon, less⟩ := expression_run (.closer (by decide)) behind
  obtain ⟨behind, fewer⟩ := colon.next nofun
  obtain ⟨body, s₂, bodyRead, finish, least⟩ :=
    caseBody_run inner (afterStatements_remaining cases) behind (by omega)
  refine ⟨{ cases with cases := cases.cases ++ [(value, body)] }, s₂, ?_, finish, by omega⟩
  rw [switchRound, peekKind_bind, ready.kind]
  dsimp only
  rw [bind_run (reportAfterDefault_run first), skip_bind, bind_run valueRead,
    bind_run (expect_run colon), bind_run bodyRead]
  rfl

theorem switchRound_default (inner : ReadsAll statement .statement AfterStatement limit)
    {cases : Cases} (first : cases.fallback = none) (small : s.unread.length ≤ limit)
    (ready : s.Ready (.word .defaultWord :: .mark .colon :: .phrase .statements ::
      .mark .rcurly :: stack)) :
    ∃ result s', switchRound statement cases s = .ok (.yield result) s' ∧
      s'.Ready (remaining result stack) ∧ s'.unread.length < s.unread.length := by
  obtain ⟨colon, shorter⟩ := ready.next nofun
  obtain ⟨behind, less⟩ := colon.next nofun
  obtain ⟨body, s₁, bodyRead, finish, least⟩ := caseBody_run inner .brace behind (by omega)
  refine ⟨{ cases with fallback := some body }, s₁, ?_, finish, by omega⟩
  rw [switchRound, peekKind_bind, ready.kind]
  dsimp only
  rw [bind_run (reportAfterDefault_run first), skip_bind, bind_run (expect_run colon),
    bind_run bodyRead]
  rfl

theorem switchRound_end {cases : Cases} (ready : s.Ready (.mark .rcurly :: stack)) :
    ∃ result s', switchRound statement cases s = .ok (.done result) s' ∧ s'.Ready stack ∧
      s'.unread.length < s.unread.length := by
  refine ⟨cases, s.next.2, ?_, ready.next nofun⟩
  rw [switchRound, peekKind_bind, ready.kind]
  rfl

theorem switchRound_run (inner : ReadsAll statement .statement AfterStatement limit) {cases : Cases}
    (ready : s.Ready (remaining cases stack)) (small : s.unread.length ≤ limit) :
    (∃ result s', switchRound statement cases s = .ok (.done result) s' ∧ s'.Ready stack ∧
      s'.unread.length < s.unread.length) ∨
    ∃ result s', switchRound statement cases s = .ok (.yield result) s' ∧
      s'.Ready (remaining result stack) ∧ s'.unread.length < s.unread.length := by
  by_cases first : cases.fallback = none
  · have unfolded : remaining cases stack =
        .phrase .cases :: .phrase .defaultOption :: .mark .rcurly :: stack := by
      simp only [remaining, first, Option.isSome_none, Bool.false_eq_true, ↓reduceIte]
    obtain ⟨form, production, some⟩ := State.Ready.of_phrase (unfolded ▸ ready)
    cases production with
    | caseFirst =>
      refine .inr (switchRound_case inner first small ?_)
      rw [unfolded]
      exact some
    | noCase =>
      obtain ⟨form, production, rest⟩ := State.Ready.of_phrase some
      cases production with
      | noDefault => exact .inl (switchRound_end rest)
      | defaultPart => exact .inr (switchRound_default inner first small rest)
  · have unfolded : remaining cases stack = .mark .rcurly :: stack := by
      rw [remaining, if_pos (Option.isSome_iff_ne_none.mpr first)]
    exact .inl (switchRound_end (unfolded ▸ ready))

theorem switchOf_run (inner : ReadsAll statement .statement AfterStatement limit)
    (ready : s.Ready (.phrase .switchStatement :: stack)) (small : s.unread.length ≤ limit) :
    Reads (switchOf statement) s stack := by
  obtain ⟨form, production, ready⟩ := ready.of_phrase
  cases production with
  | switchStatement =>
    obtain ⟨behind, shorter⟩ := State.Ready.next ready nofun
    obtain ⟨subject, s₁, subjectRead, opening, less⟩ := parenthesized_run behind
    obtain ⟨start, fewer⟩ := opening.next nofun
    let I (cases : Cases) (s₂ : State) : Prop :=
      s₂.Ready (remaining cases stack) ∧ s₂.unread.length < s.unread.length
    let Q (_ : Cases) (s₂ : State) : Prop :=
      s₂.Ready stack ∧ s₂.unread.length < s.unread.length
    have looped : ∃ cases s', repeatUntilDone (switchRound statement) {} s₁.next.2 = .ok cases s' ∧
        Q cases s' := by
      refine iterate_run (I := I) (Q := Q) ?_ ⟨start, by omega⟩ (Nat.lt_succ_self _)
      rintro cases s₂ ⟨ready, length⟩
      rcases switchRound_run inner ready (by omega) with ⟨w, s', ran, finish, least⟩ |
        ⟨w, s', ran, again, least⟩
      · exact .inl ⟨w, s', ran, finish, by omega⟩
      · exact .inr ⟨w, s', ran, ⟨again, by omega⟩, least⟩
    obtain ⟨cases, s', ran, finish, length⟩ := looped
    refine (Numbers.build (.switch · subject cases.cases cases.fallback)).reads finish length ?_
    rw [switchOf, skip_bind, bind_run subjectRead, bind_run (expect_run opening), bind_run ran]

/-- A phrase all of whose forms begin with one token. -/
theorem kind_of_forms {phrase : Phrase} {kind : Token.Kind} (ready : s.Ready (.phrase phrase :: stack))
    (forms : ∀ form, Production phrase form → form.head? = some (.token kind)) : s.kind = kind := by
  obtain ⟨form, production, ready⟩ := ready.of_phrase
  obtain ⟨rest, rfl⟩ := List.head?_eq_some_iff.mp (forms form production)
  exact State.Ready.kind ready

theorem readsAll_statementOf (inner : ReadsAll statement .statement AfterStatement limit) :
    ReadsAll (statementOf statement) .statement AfterStatement (limit + 1) := by
  intro s stack after ready small
  have small : s.unread.length ≤ limit := by omega
  have wrap {p : Parser Node} (same : statementOf statement s = (some <$> p) s)
      (reads : Reads p s stack) : Reads (statementOf statement) s stack := by
    obtain ⟨node, s', ran, finish⟩ := reads
    exact ⟨some node, s', same.trans (map_run ran), finish⟩
  rcases statement_cases ready.derives (.inl rfl) with braced | ⟨form, production, notBlock, derives⟩
  · have ready : s.Ready (.mark .lcurly :: .phrase .statements :: .mark .rcurly :: stack) :=
      ⟨⟨ready.quiet, braced⟩, ready.named⟩
    refine wrap ?_ (bracedBlock_run inner ready small)
    rw [statementOf, peekKind_bind, ready.kind]
  · have ready : s.Ready (form ++ stack) := ⟨⟨ready.quiet, derives⟩, ready.named⟩
    cases production with
    | empty =>
      have ready : s.Ready (.mark .semicolon :: stack) := ready
      refine ⟨none, s.next.2, ?_, ready.next nofun⟩
      rw [statementOf, peekKind_bind, ready.kind]
      rfl
    | block => exact absurd rfl notBlock
    | ifForm =>
      refine wrap ?_ (ifOf_run inner after ready small)
      rw [statementOf, peekKind_bind, kind_of_forms ready (by rintro _ ⟨⟩; rfl)]
    | whileForm =>
      refine wrap ?_ (whileOf_run inner after ready small)
      rw [statementOf, peekKind_bind, kind_of_forms ready (by rintro _ ⟨⟩; rfl)]
    | doForm =>
      refine wrap ?_ (doOf_run inner ready small)
      rw [statementOf, peekKind_bind, kind_of_forms ready (by rintro _ ⟨⟩; rfl)]
    | switchForm =>
      refine wrap ?_ (switchOf_run inner ready small)
      rw [statementOf, peekKind_bind, kind_of_forms ready (by rintro _ ⟨⟩; rfl)]
    | putcForm =>
      refine wrap ?_ (putc_run ready)
      rw [statementOf, peekKind_bind, kind_of_forms ready (by rintro _ ⟨⟩; rfl)]
    | value =>
      obtain ⟨kind, rest, kinds, starts⟩ := head_expression ready.derives
      obtain ⟨value, s₁, read, ending, less⟩ := expression_run (.closer (by decide)) ready
      obtain ⟨finish, least⟩ := ending.next nofun
      refine ⟨some value, _, ?_, finish, by omega⟩
      rw [statementOf, peekKind_bind, kind_of_kinds kinds]
      -- No other form of a statement begins like an expression.
      split
      · cases starts
      · cases starts
      · cases starts
      · cases starts
      · cases starts
      · cases starts
      · cases starts
      · rw [bind_run read, bind_run (expect_run ending)]
        rfl

end Statement

theorem readsAll_statement (depth : Nat) :
    ReadsAll (statement depth) .statement AfterStatement depth := by
  induction depth with
  | zero => exact fun s stack _ _ small => absurd small (Nat.not_lt_zero _)
  | succ depth ih =>
    exact fun s stack after ready small => readsAll_statementOf ih after ready small

theorem block_run (after : AfterStatement stack) (ready : s.Ready (.phrase .block :: stack)) :
    Reads block s stack := by
  have inner := readsAll_statement (s.unread.length + 1)
  obtain ⟨node, s', ran, finish⟩ := readsAll_blockOf inner after ready (Nat.lt_succ_self _)
  exact ⟨node, s', ran, finish⟩

/-! ### Definitions -/

theorem addField_run {fields : List (String × DataType)} {n : String}
    (fresh : n ∉ fields.map Prod.fst) (pos : Position) (type : DataType) :
    addField fields n pos type s = .ok (fields ++ [(n, type)]) s := by
  have unknown : ¬(fields.any fun field => field.1 == n) = true := by
    intro known
    obtain ⟨field, member, same⟩ := List.any_eq_true.mp known
    exact fresh (List.mem_map.mpr ⟨field, member, eq_of_beq same⟩)
  unfold addField
  rw [if_neg unknown]
  rfl

theorem structFields_run (ready : s.Ready (.phrase (.fields []) :: .mark .rcurly :: stack)) :
    ∃ fields s', structFields s = .ok fields s' ∧ s'.Ready stack ∧
      s'.unread.length < s.unread.length := by
  let I (fields : List (String × DataType)) (s₁ : State) : Prop :=
    s₁.Ready (.phrase (.fields (fields.map Prod.fst)) :: .mark .rcurly :: stack) ∧
      s₁.unread.length ≤ s.unread.length
  let Q (_ : List (String × DataType)) (s₁ : State) : Prop :=
    s₁.Ready stack ∧ s₁.unread.length < s.unread.length
  refine iterate_run (I := I) (Q := Q) ?_ ⟨ready, Nat.le_refl _⟩ (Nat.lt_succ_self _)
  rintro fields s₁ ⟨ready, length⟩
  obtain ⟨form, production, ready⟩ := ready.of_phrase
  cases production with
  | noField =>
    have closing : s₁.Ready (.mark .rcurly :: stack) := ready
    obtain ⟨finish, shorter⟩ := closing.next nofun
    refine .inl ⟨fields, _, ?_, finish, by omega⟩
    rw [fieldRound, peekKind_bind, closing.kind]
    rfl
  | field _ isVoid n fresh =>
    refine .inr ?_
    obtain ⟨text, rest, kinds⟩ := head_type ready.derives
    obtain ⟨type, s₂, typeRead, _, named, shorter⟩ := typeName_run ready
    obtain ⟨behind, less⟩ := named.next nofun
    obtain ⟨free, ending⟩ := behind.of_rule rfl
    rw [NameRule.Permits, next_names] at free
    obtain ⟨finish, least⟩ := ending.next nofun
    refine ⟨fields ++ [(n, type)], s₂.next.2.next.2, ?_, ⟨?_, by omega⟩, by omega⟩
    · rw [fieldRound, peekKind_bind, kind_of_kinds kinds]
      dsimp only
      rw [bind_run typeRead, bind_run (ident_run named free)]
      dsimp only
      rw [bind_run (expect_run ending), bind_run (addField_run fresh s₂.position type)]
      rfl
    · rw [List.map_append]
      exact finish

theorem registerType_run {type : DataType} {n : String}
    (names : State.names { s with types := s.types.register type } =
      (NameRule.newType n).after s.names)
    (ready : s.Ready (.rule (.newType n) :: stack)) :
    ∃ s', registerType type s = .ok () s' ∧ s'.Ready stack ∧ s'.unread = s.unread := by
  obtain ⟨_, derives⟩ := ready.derives.of_rule
  rw [← names] at derives
  exact ⟨_, rfl, ⟨⟨ready.quiet, derives⟩, ready.named.register type⟩, rfl⟩

/-- The semicolon behind a struct is read greedily: no definition begins with one. -/
theorem semicolonOption_run {n : String}
    (ready : s.Ready (.phrase .semicolonOption :: .rule (.newType n) ::
      [.phrase .definitions, .token .eof])) :
    ∃ found s', accept (.mark .semicolon) s = .ok found s' ∧
      s'.Ready (.rule (.newType n) :: [.phrase .definitions, .token .eof]) ∧
      s'.unread.length ≤ s.unread.length := by
  obtain ⟨form, production, ready⟩ := ready.of_phrase
  cases production with
  | noSemicolon =>
    refine ⟨false, s, accept_other ?_, ready, Nat.le_refl _⟩
    obtain ⟨_, derives⟩ := Derives.of_rule ready.derives
    obtain ⟨kind, rest, kinds, first⟩ := head_definitions derives
    rw [kind_of_kinds kinds]
    rintro rfl
    rcases first with ends | starts
    · cases ends
    · cases starts
  | semicolon =>
    obtain ⟨behind, shorter⟩ := State.Ready.next ready nofun
    exact ⟨true, s.next.2, accept_run ready nofun, behind, by omega⟩

theorem structDefinition_run
    (ready : s.Ready [.phrase .structDefinition, .phrase .definitions, .token .eof]) :
    Reads structDefinition s [.phrase .definitions, .token .eof] := by
  obtain ⟨form, production, ready⟩ := ready.of_phrase
  cases production with
  | structDefinition n =>
    obtain ⟨named, shorter⟩ := State.Ready.next ready nofun
    obtain ⟨opening, less⟩ := named.next nofun
    obtain ⟨inside, fewer⟩ := opening.next nofun
    obtain ⟨fields, s₁, fieldsRead, option, least⟩ := structFields_run inside
    obtain ⟨found, s₂, accepted, registered, length⟩ := semicolonOption_run option
    obtain ⟨s', ran, finish, same⟩ :=
      registerType_run (names_registerStruct s₂ n fields) registered
    refine ⟨(), s', ?_, finish, by rw [same]; omega⟩
    rw [structDefinition, skip_bind, bind_run (name_run named)]
    dsimp only
    rw [bind_run (expect_run opening), bind_run fieldsRead, bind_run accepted]
    exact ran

theorem classDefinition_run (ready : s.Ready (.phrase .classDefinition :: stack)) :
    Reads classDefinition s stack := by
  obtain ⟨form, production, ready⟩ := ready.of_phrase
  cases production with
  | classDefinition n =>
    obtain ⟨named, shorter⟩ := State.Ready.next ready nofun
    obtain ⟨ending, less⟩ := named.next nofun
    obtain ⟨registered, least⟩ := ending.next nofun
    obtain ⟨s', ran, finish, same⟩ := registerType_run (names_registerClass _ n) registered
    refine ⟨(), s', ?_, finish, by rw [same]; omega⟩
    rw [classDefinition, skip_bind, bind_run (name_run named)]
    dsimp only
    rw [bind_run (expect_run ending)]
    exact ran

theorem globalDefinition_run (after : AfterStatement stack)
    (ready : s.Ready (.phrase .global :: stack)) : Reads globalDefinition s stack := by
  obtain ⟨form, production, ready⟩ := ready.of_phrase
  cases production with
  | globalFunction isVoid n =>
    obtain ⟨type, s₁, typeRead, _, named, shorter⟩ := typeName_run ready
    obtain ⟨opening, less⟩ := named.next nofun
    obtain ⟨closing, fewer⟩ := opening.next nofun
    obtain ⟨entering, least⟩ := closing.next nofun
    have free : n ∉ s₁.names.types := by
      have fresh := entering.derives.of_rule.1.1
      rwa [next_names, next_names, next_names] at fresh
    obtain ⟨func, s₂, declared, body, same⟩ := declareFunction_run s₁.position entering
    obtain ⟨node, s₃, bodyRead, finish, fewest⟩ := block_run after body
    rw [same] at fewest
    let s' : State := { s₃ with symbols := s₃.symbols.defineFunction func node }
    have names : s'.names = s₃.names := names_defineFunction s₃ func node
    refine ⟨(), s', ?_, ⟨finish.toSpells.congr rfl rfl names, finish.named⟩, ?_⟩
    · rw [globalDefinition, bind_run typeRead, bind_run (ident_run named free)]
      dsimp only
      rw [peekKind_bind, opening.kind]
      dsimp only
      rw [skip_bind, bind_run (expect_run closing), bind_run declared, bind_run bodyRead]
      rfl
    · have length : s'.unread.length = s₃.unread.length := rfl
      omega
  | globalVariable n =>
    obtain ⟨type, s₁, typeRead, solid, named, shorter⟩ := typeName_run ready
    obtain ⟨ending, less⟩ := named.next nofun
    obtain ⟨entering, least⟩ := ending.next nofun
    have free : n ∉ s₁.names.types := by
      have fresh := entering.derives.of_rule.1.1
      rwa [next_names, next_names] at fresh
    obtain ⟨var, s', declared, finish, same⟩ := declareVariable_run s₁.position solid entering
    refine ⟨(), s', ?_, finish, by rw [same]; omega⟩
    rw [globalDefinition, bind_run typeRead, bind_run (ident_run named free)]
    dsimp only
    rw [peekKind_bind, ending.kind]
    dsimp only
    rw [skip_bind, bind_run declared]
    rfl

theorem definitionRound_run (ready : s.Ready [.phrase .definitions, .token .eof]) :
    (definitionRound () s = .ok (.done ()) s ∧ s.Ready [.token .eof]) ∨
      ∃ s', definitionRound () s = .ok (.yield ()) s' ∧
        s'.Ready [.phrase .definitions, .token .eof] ∧ s'.unread.length < s.unread.length := by
  obtain ⟨form, production, ready⟩ := ready.of_phrase
  have wrap {p : Parser Unit} (same : definitionRound () s = (p >>= fun _ => pure (.yield ())) s)
      (reads : Reads p s [.phrase .definitions, .token .eof]) :
      ∃ s', definitionRound () s = .ok (.yield ()) s' ∧
        s'.Ready [.phrase .definitions, .token .eof] ∧ s'.unread.length < s.unread.length := by
    obtain ⟨a, s', ran, finish⟩ := reads
    exact ⟨s', same.trans (bind_run ran), finish⟩
  cases production with
  | noDefinition =>
    have ending : s.Ready [.token .eof] := ready
    refine .inl ⟨?_, ending⟩
    rw [definitionRound, peekKind_bind, ending.kind]
    rfl
  | structFirst =>
    refine .inr (wrap ?_ (structDefinition_run ready))
    rw [definitionRound, peekKind_bind, kind_of_forms ready (by rintro _ ⟨⟩; rfl)]
  | classFirst =>
    refine .inr (wrap ?_ (classDefinition_run ready))
    rw [definitionRound, peekKind_bind, kind_of_forms ready (by rintro _ ⟨⟩; rfl)]
  | globalFirst =>
    refine .inr (wrap ?_ (globalDefinition_run .definitions ready))
    obtain ⟨name, rest, kinds⟩ := head_global ready.derives
    rw [definitionRound, peekKind_bind, kind_of_kinds kinds]

/-- A program of the grammar is read to its end. -/
theorem definitions_run (ready : s.Ready [.phrase .definitions, .token .eof]) :
    ∃ s', definitions s = .ok () s' ∧ s'.Ready [.token .eof] := by
  let I (_ : Unit) (s : State) : Prop := s.Ready [.phrase .definitions, .token .eof]
  let Q (_ : Unit) (s : State) : Prop := s.Ready [.token .eof]
  have round (v : Unit) (s : State) (ready : I v s) :
      (∃ w s', definitionRound v s = .ok (.done w) s' ∧ Q w s') ∨
        ∃ w s', definitionRound v s = .ok (.yield w) s' ∧ I w s' ∧
          s'.unread.length < s.unread.length := by
    rcases definitionRound_run ready with ⟨ran, ending⟩ | ⟨s', ran, again⟩
    · exact .inl ⟨(), s, ran, ending⟩
    · exact .inr ⟨(), s', ran, again⟩
  obtain ⟨_, s', ran, ending⟩ := iterate_run (I := I) (Q := Q) round ready (Nat.lt_succ_self _)
  exact ⟨s', ran, ending⟩

end Grammar

end IonLang
