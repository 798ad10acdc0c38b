import IonLang.Proofs.Grammar.Forest

/-!
# Programs that a parse returns

`Consistent tokens s` holds between the definitions of a program that was read from `tokens`:
symbols are numbered by their places, every function has a body, and the nodes of all bodies are
numbered apart, refer to declared symbols and hold integers of the source.
`Program.ofTokens_wellFormed` gives it for the program at the end, whatever was reported on the way.
-/

namespace IonLang

namespace Symbols

def bodies (symbols : Symbols) : List Node := symbols.functions.filterMap Function.body

structure Numbered (symbols : Symbols) : Prop where
  vars : symbols.vars.map (fun var => var.id.index) = List.range symbols.vars.length
  functions : symbols.functions.map (fun func => func.id.index) =
    List.range symbols.functions.length

theorem number_eq {α : Type} {number : α → Nat} {entries : List α}
    (numbered : entries.map number = List.range entries.length) {i : Nat} {entry : α}
    (found : entries[i]? = some entry) : number entry = i := by
  obtain ⟨inside, rfl⟩ := List.getElem?_eq_some_iff.mp found
  have numbers := congrArg (fun l => l[i]?) numbered
  simpa [inside] using numbers

/-- An entry of a list that is numbered by place stands at its number. -/
theorem getElem?_number {α : Type} {number : α → Nat} {entries : List α}
    (numbered : entries.map number = List.range entries.length) {entry : α} (member : entry ∈ entries) :
    entries[number entry]? = some entry := by
  obtain ⟨i, found⟩ := List.mem_iff_getElem?.mp member
  rw [number_eq numbered found, found]

theorem Numbered.declareVariable {symbols symbols' : Symbols} {name : String} {type : DataType}
    {pos : Position} {var : VarId} (numbered : symbols.Numbered)
    (h : symbols.declareVariable name type pos = .ok (var, symbols')) : symbols'.Numbered := by
  obtain ⟨_, rfl, rfl⟩ := Grammar.declareVariable_eq_ok h
  exact ⟨by simp [numbered.vars, List.range_succ], numbered.functions⟩

/-- The function at the end gets its body. -/
theorem defineFunction_last {symbols : Symbols} {known : List Function} {func : Function}
    (functions : symbols.functions = known ++ [func]) (place : func.id.index = known.length)
    (body : Node) :
    symbols.defineFunction func.id body =
      { symbols with functions := known ++ [{ func with body := some body }] } := by
  have last : ∀ f, (known ++ [func]).modify known.length f = known ++ [f func] := fun f =>
    List.modifyTailIdx_add (List.modifyHead f) 0 known [func]
  simp only [defineFunction, functions, place, last]

end Symbols

namespace Grammar

open Node (forest)

theorem declareFunction_eq_ok {symbols symbols' : Symbols} {name : String} {pos : Position}
    {func : FuncId} (h : symbols.declareFunction name pos = .ok (func, symbols')) :
    symbols.isDeclared name = false ∧ func = ⟨symbols.functions.length⟩ ∧
      symbols' = { symbols with functions := symbols.functions ++ [⟨func, name, none⟩] } := by
  unfold Symbols.declareFunction at h
  split at h
  · cases h
  · next free => cases h; exact ⟨by simpa using free, rfl, rfl⟩

theorem numbered_declareFunction {symbols symbols' : Symbols} {name : String} {pos : Position}
    {func : FuncId} (numbered : symbols.Numbered)
    (h : symbols.declareFunction name pos = .ok (func, symbols')) : symbols'.Numbered := by
  obtain ⟨_, rfl, rfl⟩ := declareFunction_eq_ok h
  exact ⟨numbered.vars, by simp [numbered.functions, List.range_succ]⟩

/-! ### Invariants between definitions -/

/-- A property that every step but the definition of a function keeps one by one, and that a
function keeps once it has been declared, read and defined. -/
structure DefinitionInvariant (I : State → Prop) : Prop where
  steps : TypeRelation fun s s' => I s → I s'
  function : ∀ {s s' : State} {name : String} {pos : Position} {func : FuncId} {symbols : Symbols}
    {body : Node}, I s → s.symbols.declareFunction name pos = .ok (func, symbols) →
    block { s with symbols } = .ok body s' →
    I { s' with symbols := s'.symbols.defineFunction func body }

namespace DefinitionInvariant

variable {I : State → Prop} {s s' : State}

theorem globalDefinition (inv : DefinitionInvariant I) (holds : I s)
    (h : Grammar.globalDefinition s = .ok () s') : I s' := by
  have rel := inv.steps
  obtain ⟨type, s₁, typeRead, h⟩ := bind_ok h
  obtain ⟨found, s₂, nameRead, h⟩ := bind_ok h
  obtain ⟨kind, _, h⟩ := peekKind_ok h
  have holds := rel.ident.of_ok nameRead (rel.typeName.of_ok typeRead holds)
  split at h
  · -- A function.
    obtain ⟨_, s₃, skipped, h⟩ := bind_ok h
    obtain ⟨_, s₄, closed, h⟩ := bind_ok h
    obtain ⟨func, s₅, declared, h⟩ := bind_ok h
    obtain ⟨body, s₆, bodyRead, finish⟩ := bind_ok h
    have holds := (rel.expect _).of_ok closed (rel.skip.of_ok skipped holds)
    rcases declare_ok declared with ⟨id, symbols, entered, rfl, rfl⟩ | ⟨_, failed, rfl, rfl⟩
    · cases finish
      exact inv.function holds entered bodyRead
    · cases finish
      exact rel.block.of_ok bodyRead (rel.report _ _ (Symbols.declareFunction_mild failed) holds)
  · -- A variable.
    obtain ⟨_, s₃, skipped, h⟩ := bind_ok h
    obtain ⟨var, s₄, declared, h⟩ := bind_ok h
    cases h
    exact (rel.declareVariable _ _ _).of_ok declared (rel.skip.of_ok skipped holds)
  · exact absurd h unexpected_ne_ok

theorem definitionRound (inv : DefinitionInvariant I) {result : ForInStep Unit} (holds : I s)
    (h : Grammar.definitionRound () s = .ok result s') : I s' := by
  have rel := inv.steps
  obtain ⟨kind, _, h⟩ := peekKind_ok h
  split at h
  · cases h; exact holds
  · obtain ⟨_, s₁, read, h⟩ := bind_ok h
    cases h
    exact rel.structDefinition.of_ok read holds
  · obtain ⟨_, s₁, read, h⟩ := bind_ok h
    cases h
    exact rel.classDefinition.of_ok read holds
  · obtain ⟨_, s₁, read, h⟩ := bind_ok h
    cases h
    exact inv.globalDefinition holds read
  · exact absurd h unexpected_ne_ok

theorem definitions (inv : DefinitionInvariant I) (holds : I s)
    (h : Grammar.definitions s = .ok () s') : I s' :=
  repeatUntilDone_ok (I := fun _ => I) (Q := fun _ => I)
    (fun _ _ _ _ holds round => inv.definitionRound holds round)
    (fun _ _ _ _ holds round => inv.definitionRound holds round) holds h

end DefinitionInvariant

/-! ### Consistent states -/

/-- What holds between two definitions of a program that is read from `tokens`. -/
structure Consistent (tokens : List Token) (s : State) : Prop where
  unread : s.unread ⊆ tokens
  numbered : s.symbols.Numbered
  defined : ∀ func ∈ s.symbols.functions, func.body.isSome
  distinct : ((forest s.symbols.bodies).map Node.id).Nodup
  below : ∀ n ∈ forest s.symbols.bodies, n.id < s.nodes
  ordered : ∀ n ∈ forest s.symbols.bodies, ∀ inner ∈ forest n.children, inner.id < n.id
  resolved : ∀ n ∈ forest s.symbols.bodies, n.Scoped s.symbols
  shaped : ∀ n ∈ forest s.symbols.bodies, n.Shaped
  literal : ∀ id text, .integer id text ∈ forest s.symbols.bodies →
    text = "0" ∨ ∃ token ∈ tokens, token.kind = .integer text

namespace Consistent

variable {tokens : List Token} {s s' : State}

theorem grow (consistent : Consistent tokens s) (growth : Grows s s')
    (numbered : s'.symbols.Numbered) : Consistent tokens s' := by
  have bodies : s'.symbols.bodies = s.symbols.bodies := by
    rw [Symbols.bodies, Symbols.bodies, growth.functions]
  constructor
  · exact fun _ member => consistent.unread (growth.unread.subset member)
  · exact numbered
  · rw [growth.functions]; exact consistent.defined
  · rw [bodies]; exact consistent.distinct
  · rw [bodies]
    exact fun n member => Nat.lt_of_lt_of_le (consistent.below n member) growth.nodes
  · rw [bodies]; exact consistent.ordered
  · rw [bodies]; exact fun n member => Scoped.grow growth (consistent.resolved n member)
  · rw [bodies]; exact consistent.shaped
  · rw [bodies]; exact consistent.literal

/-- Statements keep the consistency of the definitions in front of them. -/
theorem relation (tokens : List Token) :
    TypeRelation fun s s' => Consistent tokens s → Consistent tokens s' where
  refl _ := id
  trans first second := second ∘ first
  next s consistent := consistent.grow (grows.next s) (by
    rw [(next_frame s).2.2.1]; exact consistent.numbered)
  report s diagnostic mild consistent :=
    consistent.grow (grows.report s diagnostic mild) consistent.numbered
  number s consistent := consistent.grow (grows.number s) consistent.numbered
  enter s name type pos var symbols declared consistent :=
    consistent.grow (grows.enter s _ _ _ _ _ declared) (consistent.numbered.declareVariable declared)
  enterType s type consistent :=
    ⟨consistent.unread, consistent.numbered, consistent.defined, consistent.distinct,
      consistent.below, consistent.ordered, consistent.resolved, consistent.shaped,
      consistent.literal⟩

/-- A function that is declared, read and defined. -/
theorem addFunction {s₁ s₃ : State} {name : String} {pos : Position} {func : FuncId}
    {symbols : Symbols} {body : Node} (consistent : Consistent tokens s₁)
    (declared : s₁.symbols.declareFunction name pos = .ok (func, symbols))
    (built : Built { s₁ with symbols } s₃ [body]) (numbered : s₃.symbols.Numbered) :
    Consistent tokens { s₃ with symbols := s₃.symbols.defineFunction func body } := by
  obtain ⟨_, rfl, rfl⟩ := declareFunction_eq_ok declared
  let known := s₁.symbols.functions
  have functions : s₃.symbols.functions = known ++ [⟨⟨known.length⟩, name, none⟩] :=
    built.growth.functions
  have after := Symbols.defineFunction_last functions rfl body
  dsimp only at after
  rw [after]
  have nodes : s₁.nodes ≤ s₃.nodes := built.growth.nodes
  have vars : s₁.symbols.vars <+: s₃.symbols.vars := built.growth.vars
  have trees : Node.forest (Symbols.bodies { s₃.symbols with
      functions := known ++ [⟨⟨known.length⟩, name, some body⟩] }) =
      forest s₁.symbols.bodies ++ forest [body] := by
    rw [Symbols.bodies, List.filterMap_append, Node.forest_append]
    rfl
  constructor
  · exact fun _ member => consistent.unread (built.growth.unread.subset member)
  · refine ⟨numbered.vars, ?_⟩
    have ids := numbered.functions
    rw [functions] at ids
    simpa using ids
  · intro other member
    rcases List.mem_append.mp member with old | new
    · exact consistent.defined other old
    · rw [List.mem_singleton.mp new]; rfl
  · rw [trees, List.map_append, List.nodup_append]
    refine ⟨consistent.distinct, built.distinct, ?_⟩
    intro a inOld b inNew
    obtain ⟨n, old, rfl⟩ := List.mem_map.mp inOld
    obtain ⟨k, new, rfl⟩ := List.mem_map.mp inNew
    have := consistent.below n old
    have : s₁.nodes ≤ k.id := (built.range k new).1
    omega
  · rw [trees]
    intro n member
    rcases List.mem_append.mp member with old | new
    · exact Nat.lt_of_lt_of_le (consistent.below n old) nodes
    · exact (built.range n new).2
  · rw [trees]
    intro n member
    exact (List.mem_append.mp member).elim (consistent.ordered n) (built.ordered n)
  · rw [trees]
    intro n member
    rcases List.mem_append.mp member with old | new
    · exact (consistent.resolved n old).mono (fun var found => ⟨var, vars.subset found, rfl⟩)
        (fun other found => ⟨other, List.mem_append_left _ found, rfl⟩)
    · refine (built.resolved n new).mono (fun var found => ⟨var, found, rfl⟩) ?_
      intro other found
      rw [functions] at found
      rcases List.mem_append.mp found with old | last
      · exact ⟨other, List.mem_append_left _ old, rfl⟩
      · rw [List.mem_singleton.mp last]
        exact ⟨_, List.mem_append_right _ List.mem_cons_self, rfl⟩
  · rw [trees]
    intro n member
    exact (List.mem_append.mp member).elim (consistent.shaped n) (built.shaped n)
  · rw [trees]
    intro id text member
    rcases List.mem_append.mp member with old | new
    · exact consistent.literal id text old
    · refine (built.literal id text new).imp_right ?_
      rintro ⟨token, unread, kind⟩
      exact ⟨token, consistent.unread unread, kind⟩

end Consistent

/-- Numbering by place survives everything that a statement does. -/
theorem numbered_relation :
    StepRelation fun s s' => s.symbols.Numbered → s'.symbols.Numbered where
  refl _ := id
  trans first second := second ∘ first
  next s numbered := by rw [(next_frame s).2.2.1]; exact numbered
  report _ _ _ numbered := numbered
  number _ numbered := numbered
  enter _ _ _ _ _ _ declared numbered := numbered.declareVariable declared

theorem Consistent.invariant (tokens : List Token) : DefinitionInvariant (Consistent tokens) where
  steps := relation tokens
  function consistent declared bodyRead :=
    consistent.addFunction declared (block_built _ _ _ bodyRead)
      (numbered_relation.block.of_ok bodyRead (numbered_declareFunction consistent.numbered declared))

theorem consistent_start (tokens : List Token) : Consistent tokens (State.ofTokens tokens) where
  unread := List.filter_subset_self _
  numbered := ⟨rfl, rfl⟩
  defined := nofun
  distinct := List.nodup_nil
  below := nofun
  ordered := nofun
  resolved := nofun
  shaped := nofun
  literal := nofun

end Grammar

namespace Program

open Node (forest)

def symbols (program : Program) : Symbols := ⟨program.vars, program.functions⟩

def bodies (program : Program) : List Node := program.functions.filterMap Function.body

/-- What holds of every program that was read from `tokens`. -/
structure WellFormed (tokens : List Token) (program : Program) : Prop where
  numbered : program.symbols.Numbered
  defined : ∀ func ∈ program.functions, func.body.isSome
  distinct : ((forest program.bodies).map Node.id).Nodup
  ordered : ∀ n ∈ forest program.bodies, ∀ inner ∈ forest n.children, inner.id < n.id
  resolved : ∀ n ∈ forest program.bodies, n.Scoped program.symbols
  shaped : ∀ n ∈ forest program.bodies, n.Shaped
  literal : ∀ id text, .integer id text ∈ forest program.bodies →
    text = "0" ∨ ∃ token ∈ tokens, token.kind = .integer text

theorem definitions_of_ofTokens {tokens : List Token} {program : Program} {errors : List Diagnostic}
    (parsed : ofTokens tokens = (some program, errors)) :
    ∃ s, Grammar.definitions (Grammar.State.ofTokens tokens) = .ok () s ∧ s.errors = errors ∧
      program = ⟨s.symbols.functions, s.symbols.vars⟩ := by
  unfold ofTokens Grammar.State.parse at parsed
  split at parsed
  · next s read =>
    cases parsed
    exact ⟨s, read, rfl, rfl⟩
  · cases parsed
  · cases parsed

/-- Every program that a parse returns is well formed, whatever was reported. -/
theorem ofTokens_wellFormed {tokens : List Token} {program : Program} {errors : List Diagnostic}
    (h : ofTokens tokens = (some program, errors)) : program.WellFormed tokens := by
  obtain ⟨s, read, _, rfl⟩ := definitions_of_ofTokens h
  have consistent := (Grammar.Consistent.invariant tokens).definitions
    (Grammar.consistent_start tokens) read
  exact ⟨consistent.numbered, consistent.defined, consistent.distinct, consistent.ordered,
    consistent.resolved, consistent.shaped, consistent.literal⟩

/-- No two nodes of a program have one number, and a node is numbered behind all that is below it. -/
theorem ofTokens_numbers_ascend (tokens : List Token) (program : Program) (errors : List Diagnostic)
    (parsed : ofTokens tokens = (some program, errors)) :
    ((forest program.bodies).map Node.id).Nodup ∧
      ∀ n ∈ forest program.bodies, ∀ inner : Node, inner.Descends n → inner.id < n.id := by
  have wellFormed := ofTokens_wellFormed parsed
  refine ⟨wellFormed.distinct, ?_⟩
  intro n member inner descends
  exact wellFormed.ordered n member inner descends.mem_forest

/-- The numbers of a default block that is given up, of an unknown target and of the body of a
function that is declared twice are skipped. -/
theorem ofTokens_numbers_ascend_recovered :
    let source := "void f() 1 + 2 * 3; void f() 4; void main() switch (5) " ++
      Text.braced "default: 6; default: y = 7;"
    ∃ program errors,
      ofTokens (Token.scan "f" source).tokens = (some program, errors) ∧ errors.length = 3 ∧
        (forest program.bodies).map Node.id = [4, 0, 3, 1, 2, 11, 6, 10, 9] ∧
        ((forest program.bodies).map Node.id).Nodup ∧
          ∀ n ∈ forest program.bodies, ∀ inner : Node, inner.Descends n → inner.id < n.id := by
  intro source
  let result := ofTokens (Token.scan "f" source).tokens
  have facts : (result.1.map fun program => (forest program.bodies).map Node.id) =
      some [4, 0, 3, 1, 2, 11, 6, 10, 9] ∧ result.2.length = 3 := by decide +kernel
  obtain ⟨program, found, numbers⟩ := Option.map_eq_some_iff.mp facts.1
  exact ⟨program, result.2, Prod.ext found rfl, facts.2, numbers,
    ofTokens_numbers_ascend _ _ _ (Prod.ext found rfl)⟩

end Program

end IonLang
