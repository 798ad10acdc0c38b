import IonLang.Proofs.Grammar.Derivation
import IonLang.Proofs.Grammar.Run

/-!
# Derivations of what is unread

`s.Spells stack` says of a state of a parse that nothing has been reported and that what is unread
can be derived from a stack of symbols. The lemmas here say how the names in use change with the
state, and what one token or one rule about names does to `Spells`.
-/

namespace IonLang

/-! ### Names in the tables -/

theorem DataType.isSome_primitive? (name : String) :
    (primitive? name).isSome = true ↔ name ∈ Grammar.Names.initial.types := by
  simp only [Grammar.Names.initial, Set.mem_insert_iff, Set.mem_singleton_iff]
  unfold primitive?
  split
  · simp
  · simp
  · simp
  · next noVoid noBool noWord =>
    refine iff_of_false (by simp) ?_
    rintro (same | same | same)
    · exact noVoid same
    · exact noBool same
    · exact noWord same

theorem DataType.isVoid_pointTo {type : DataType} {depth : Nat} (pointer : 0 < depth) :
    (type.pointTo depth).isVoid = false := by
  cases depth with
  | zero => cases pointer
  | succ depth => cases type <;> rfl

theorem TypeTable.contains_iff (table : TypeTable) (name : String) :
    table.contains name = true ↔ (DataType.primitive? name).isSome = true ∨
      (table.structs.get? name).isSome = true ∨ (table.classes.get? name).isSome = true := by
  simp [contains, find?, Option.isSome_or]

theorem TypeTable.contains_registerStruct (table : TypeTable) (name other : String)
    (fields : List (String × DataType)) :
    (table.register (.structType name fields)).contains other = true ↔
      other = name ∨ table.contains other = true := by
  simp only [contains_iff, register, Dictionary.get?_insert]
  split
  · next same => simp [same]
  · next different => simp [different]

theorem TypeTable.contains_registerClass (table : TypeTable) (name other : String) :
    (table.register (.classType name)).contains other = true ↔
      other = name ∨ table.contains other = true := by
  simp only [contains_iff, register, Dictionary.get?_insert]
  split
  · next same => simp [same]
  · next different => simp [different]

namespace Symbols

theorem find?_of_nodup {α : Type} {name : α → String} {entries : List α} {entry : α}
    (distinct : (entries.map name).Nodup) (member : entry ∈ entries) :
    entries.find? (fun other => name other == name entry) = some entry := by
  induction entries with
  | nil => cases member
  | cons first others ih =>
    rw [List.map_cons, List.nodup_cons] at distinct
    rcases List.mem_cons.mp member with rfl | inside
    · exact List.find?_cons_of_pos (beq_self_eq_true _)
    · have different : name first ≠ name entry := fun same =>
        distinct.1 (same ▸ List.mem_map_of_mem inside)
      rw [List.find?_cons_of_neg (by simpa using different), ih distinct.2 inside]

theorem isSome_findVariable? (symbols : Symbols) (name : String) :
    (symbols.findVariable? name).isSome = true ↔ name ∈ symbols.vars.map Variable.name := by
  simp [findVariable?]

theorem isSome_findFunction? (symbols : Symbols) (name : String) :
    (symbols.findFunction? name).isSome = true ↔ name ∈ symbols.functions.map Function.name := by
  simp [findFunction?]

theorem isDeclared_eq_false_iff (symbols : Symbols) (name : String) :
    symbols.isDeclared name = false ↔
      name ∉ symbols.vars.map Variable.name ∧ name ∉ symbols.functions.map Function.name := by
  rw [← isSome_findVariable?, ← isSome_findFunction?, isDeclared]
  simp

/-- A definition changes nothing but a body. -/
theorem map_defineFunction {β : Type} {view : Function → β}
    (bodiless : ∀ f body, view { f with body } = view f) (symbols : Symbols) (func : FuncId)
    (body : Node) :
    (symbols.defineFunction func body).functions.map view = symbols.functions.map view := by
  rw [defineFunction]
  apply List.ext_getElem?
  intro i
  simp only [List.getElem?_map, List.getElem?_modify]
  split
  · simp [Function.comp_def, bodiless]
  · simp

theorem map_name_defineFunction (symbols : Symbols) (func : FuncId) (body : Node) :
    (symbols.defineFunction func body).functions.map Function.name =
      symbols.functions.map Function.name :=
  map_defineFunction (fun _ _ => rfl) symbols func body

end Symbols

namespace Grammar

def State.kinds (s : State) : List Token.Kind := s.unread.map Token.kind

def State.names (s : State) : Names where
  types := { name | s.types.contains name = true }
  vars := { name | name ∈ s.symbols.vars.map Variable.name }
  functions := { name | name ∈ s.symbols.functions.map Function.name }

/-- Nothing has been reported, and the stack spells what is unread. -/
structure State.Spells (s : State) (stack : List Symbol) : Prop where
  quiet : s.errors = []
  derives : Derives stack s.names s.kinds

variable {s s' : State} {stack : List Symbol}

/-! ### Names in a state -/

theorem mem_types {name : String} : name ∈ s.names.types ↔ s.types.contains name = true := Iff.rfl

theorem not_mem_types {name : String} :
    name ∉ s.names.types ↔ s.types.contains name = false := by
  rw [mem_types, Bool.not_eq_true]

theorem mem_vars {name : String} :
    name ∈ s.names.vars ↔ (s.symbols.findVariable? name).isSome = true :=
  (s.symbols.isSome_findVariable? name).symm

theorem mem_functions {name : String} :
    name ∈ s.names.functions ↔ (s.symbols.findFunction? name).isSome = true :=
  (s.symbols.isSome_findFunction? name).symm

theorem not_declared_iff {name : String} :
    name ∉ s.names.vars ∧ name ∉ s.names.functions ↔ s.symbols.isDeclared name = false :=
  (s.symbols.isDeclared_eq_false_iff name).symm

theorem names_declareVariable {name : String} {type : DataType} {pos : Position} {var : VarId}
    {symbols : Symbols} (declared : s.symbols.declareVariable name type pos = .ok (var, symbols)) :
    State.names { s with symbols } = (NameRule.newVariable name).after s.names := by
  unfold Symbols.declareVariable at declared
  split at declared
  · cases declared
  · cases declared
    simp only [State.names, NameRule.after, Names.mk.injEq, true_and, and_true]
    ext other
    simp [or_comm]

theorem names_declareFunction {name : String} {pos : Position} {func : FuncId} {symbols : Symbols}
    (declared : s.symbols.declareFunction name pos = .ok (func, symbols)) :
    State.names { s with symbols } = (NameRule.newFunction name).after s.names := by
  unfold Symbols.declareFunction at declared
  split at declared
  · cases declared
  · cases declared
    simp only [State.names, NameRule.after, Names.mk.injEq, true_and]
    ext other
    simp [or_comm]

theorem names_defineFunction (s : State) (func : FuncId) (body : Node) :
    State.names { s with symbols := s.symbols.defineFunction func body } = s.names := by
  simp only [State.names, Symbols.map_name_defineFunction]
  rfl

theorem names_registerStruct (s : State) (name : String) (fields : List (String × DataType)) :
    State.names { s with types := s.types.register (.structType name fields) } =
      (NameRule.newType name).after s.names := by
  simp only [State.names, NameRule.after, Names.mk.injEq, and_true]
  ext other
  exact s.types.contains_registerStruct name other fields

theorem names_registerClass (s : State) (name : String) :
    State.names { s with types := s.types.register (.classType name) } =
      (NameRule.newType name).after s.names := by
  simp only [State.names, NameRule.after, Names.mk.injEq, and_true]
  ext other
  exact s.types.contains_registerClass name other

theorem names_ofTokens (tokens : List Token) : (State.ofTokens tokens).names = Names.initial := by
  have types : ∀ name, (State.ofTokens tokens).types.contains name = true ↔
      name ∈ Names.initial.types := by
    intro name
    rw [TypeTable.contains_iff, DataType.isSome_primitive?]
    exact or_iff_left (by rintro (found | found) <;> cases found)
  rw [Names.initial] at types ⊢
  simp only [State.names, Names.mk.injEq]
  refine ⟨Set.ext types, ?_, ?_⟩
  · exact Set.eq_empty_of_forall_notMem fun name found => by cases found
  · exact Set.eq_empty_of_forall_notMem fun name found => by cases found

/-! ### Tokens -/

theorem next_eq {token : Token} {rest : List Token} (unread : s.unread = token :: rest)
    (real : token.kind ≠ .eof) : s.next.2 = { s with unread := rest, last := token.pos } := by
  simp only [State.next, unread, if_neg real]

theorem kind_eq {token : Token} {rest : List Token} (unread : s.unread = token :: rest) :
    s.kind = token.kind := by
  simp only [State.kind, State.current, unread, List.head?_cons, Option.getD_some]

theorem unread_of_kinds {kind : Token.Kind} {kinds : List Token.Kind} (h : s.kinds = kind :: kinds) :
    ∃ token rest, s.unread = token :: rest ∧ token.kind = kind ∧ rest.map Token.kind = kinds :=
  List.map_eq_cons_iff.mp h

theorem kind_of_kinds {kind : Token.Kind} {kinds : List Token.Kind} (h : s.kinds = kind :: kinds) :
    s.kind = kind := by
  obtain ⟨token, rest, unread, rfl, _⟩ := unread_of_kinds h
  exact kind_eq unread

theorem consumeIf_accepted {token : Token} {rest : List Token} {accept : Token.Kind → Bool}
    (unread : s.unread = token :: rest) (real : token.kind ≠ .eof) (accepted : accept token.kind = true) :
    s.consumeIf accept = (some token, s.next.2) := by
  simp [State.consumeIf, State.check, State.next, unread, real, accepted]

/-- A token is consumed if it is accepted, and nothing changes if not. -/
theorem consumeIf_cases (s : State) (accept : Token.Kind → Bool) :
    (∃ token, s.consumeIf accept = (some token, s.next.2) ∧ s.kind = token.kind ∧
      token.kind ≠ .eof ∧ accept token.kind = true) ∨
    s.consumeIf accept = (none, s) := by
  cases unread : s.unread with
  | nil => exact .inr (by simp [State.consumeIf, State.check, unread])
  | cons token rest =>
    by_cases wanted : token.kind ≠ .eof ∧ accept token.kind = true
    · exact .inl ⟨token, consumeIf_accepted unread wanted.1 wanted.2, kind_eq unread, wanted⟩
    · refine .inr ?_
      have refused : (token.kind != .eof && accept token.kind) = false := by simpa using wanted
      simp [State.consumeIf, State.check, unread, refused]

theorem consumeIf_of_kind {kind : Token.Kind} (next : s.kind = kind) (real : kind ≠ .eof) :
    ∃ token, s.consumeIf (· == kind) = (some token, s.next.2) := by
  obtain ⟨token, rest, unread, rfl⟩ := unread_of_kind next real
  exact ⟨token, consumeIf_accepted unread real (beq_self_eq_true _)⟩

theorem expect_of_kind {mark : Mark} (next : s.kind = .mark mark) :
    expect mark s = .ok () s.next.2 := by
  obtain ⟨token, consumed⟩ := consumeIf_of_kind next nofun
  simp only [expect, lift, State.expectOr, consumed]

theorem expectWord_of_kind {keyword : Keyword} (next : s.kind = .keyword keyword) :
    expectWord keyword s = .ok () s.next.2 := by
  obtain ⟨token, consumed⟩ := consumeIf_of_kind next nofun
  simp only [expectWord, lift, State.expectOr, consumed]

theorem accept_of_kind {kind : Token.Kind} (next : s.kind = kind) (real : kind ≠ .eof) :
    accept kind s = .ok true s.next.2 := by
  obtain ⟨token, consumed⟩ := consumeIf_of_kind next real
  simp only [accept, lift, consumed, Option.isSome_some]

theorem accept_other {kind : Token.Kind} (other : s.kind ≠ kind) : accept kind s = .ok false s := by
  rcases consumeIf_cases s (· == kind) with ⟨token, _, next, _, accepted⟩ | missing
  · exact absurd (next.trans (eq_of_beq accepted)) other
  · simp only [accept, lift, missing, Option.isSome_none]

theorem name_of_kind {n : String} (next : s.kind = .ident n) :
    name s = .ok (n, s.position) s.next.2 := by
  unfold name
  rw [position_bind, peekKind_bind, next]
  rfl

theorem next_errors (s : State) : s.next.2.errors = s.errors := by
  unfold State.next
  split
  · rfl
  · split <;> rfl

theorem next_names (s : State) : s.next.2.names = s.names := by
  unfold State.next
  split
  · rfl
  · split <;> rfl

namespace State.Spells

theorem rule {rule : NameRule} (permitted : rule.Permits s.names) (same : rule.after s.names = s.names)
    (spells : s.Spells stack) : s.Spells (.rule rule :: stack) :=
  ⟨spells.quiet, .rule permitted (same.symm ▸ spells.derives)⟩

theorem produce {phrase : Phrase} {form : List Symbol} (spells : s.Spells (form ++ stack))
    (production : Production phrase form) : s.Spells (.phrase phrase :: stack) :=
  ⟨spells.quiet, .phrase production spells.derives⟩

/-- A change of the state that leaves tokens, diagnostics and names alone. -/
theorem congr (spells : s.Spells stack) (errors : s'.errors = s.errors)
    (unread : s'.unread = s.unread) (names : s'.names = s.names) : s'.Spells stack := by
  refine ⟨errors.trans spells.quiet, ?_⟩
  rw [names, State.kinds, unread]
  exact spells.derives

end State.Spells

/-! ### Steps that only number nodes -/

/-- The step returns a node and changes nothing but the numbers given to nodes. -/
def Numbers (p : Parser Node) : Prop := ∀ s, ∃ node n, p s = .ok node { s with nodes := n }

namespace Numbers

theorem spells {p : Parser Node} (numbers : Numbers p) {node : Node} (h : p s = .ok node s')
    (spells : s'.Spells stack) : s.Spells stack := by
  obtain ⟨node, n, result⟩ := numbers s
  rw [result] at h
  cases h
  exact spells.congr rfl rfl rfl

theorem build (node : Nat → Node) : Numbers (Grammar.build node) :=
  fun s => ⟨node s.nodes, s.nodes + 1, rfl⟩

theorem accessNode (var : Option VarId) : Numbers (Grammar.accessNode var) := by
  cases var with
  | none => exact .build (.integer · "0")
  | some var => exact .build (.access · var)

theorem assignNode (op : AssignOp) (value : Node) (var : Option VarId) :
    Numbers (Grammar.assignNode op value var) := by
  cases var with
  | none => exact fun s => ⟨value, s.nodes, rfl⟩
  | some var => exact .build (.assign · var op value)

theorem stepNode (direction : Direction) (timing : Timing) (var : Option VarId) :
    Numbers (Grammar.stepNode direction timing var) := by
  cases var with
  | none => exact .build (.integer · "0")
  | some var => exact .build (.step · direction var timing)

theorem buildTree (tree : OperatorTree Node) : Numbers (Grammar.buildTree tree) := by
  induction tree with
  | leaf node => exact fun s => ⟨node, s.nodes, rfl⟩
  | branch op lhs rhs left right =>
    intro s
    obtain ⟨a, n, first⟩ := left s
    obtain ⟨b, k, second⟩ := right { s with nodes := n }
    refine ⟨.binary k op a b, k + 1, ?_⟩
    simp only [Grammar.buildTree, Bind.bind, EStateM.bind, first, second]
    rfl

end Numbers

end Grammar

end IonLang
