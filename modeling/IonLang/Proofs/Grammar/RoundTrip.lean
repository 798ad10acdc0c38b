import IonLang.Proofs.Grammar.ReadBack

/-!
# Parsing undoes printing

Between two definitions of a printed program, the symbols in the tables are those in front of the
definition that is read next, up to the numbers of nodes. So the names in a body are found, and at
the end of the file the whole program has been read back.
-/

namespace IonLang

namespace Symbols

theorem name_not_mem_front {α : Type} {name : α → String} {front back : List α} {entry : α}
    (distinct : ((front ++ entry :: back).map name).Nodup) : name entry ∉ front.map name := by
  rw [List.map_append, List.nodup_append] at distinct
  intro declared
  exact distinct.2.2 _ declared _ List.mem_cons_self rfl

/-- Functions are found by number and name, whatever their bodies are. -/
theorem findFunction?_of_nodup {vars : List Variable} {functions listed : List Function}
    {func : Function}
    (same : functions.map (fun f => (f.name, f.id)) = listed.map (fun f => (f.name, f.id)))
    (distinct : (listed.map Function.name).Nodup) (member : func ∈ listed) :
    (Symbols.mk vars functions).findFunction? func.name = some func.id := by
  have names : functions.map Function.name = listed.map Function.name := by
    have firsts := congrArg (List.map Prod.fst) same
    rwa [List.map_map, List.map_map] at firsts
  have listedPair : (func.name, func.id) ∈ functions.map fun f => (f.name, f.id) := by
    rw [same]
    exact List.mem_map_of_mem member
  obtain ⟨entry, inside, pair⟩ := List.mem_map.mp listedPair
  obtain ⟨sameName, sameId⟩ := Prod.mk.inj pair
  rw [findFunction?, ← sameName, find?_of_nodup (names ▸ distinct) inside, ← sameId]
  rfl

end Symbols

namespace Program.Printable

variable {program : Program}

theorem nodup_vars (printable : program.Printable) : (program.vars.map Variable.name).Nodup :=
  (List.nodup_append.mp printable.distinct).2.1

theorem nodup_functions (printable : program.Printable) :
    (program.functions.map Function.name).Nodup :=
  (List.nodup_append.mp printable.distinct).1

theorem primitive?_var (printable : program.Printable) {var : Variable} (member : var ∈ program.vars) :
    DataType.primitive? var.name = none :=
  printable.noTypes _ (List.mem_append_right _ (List.mem_map_of_mem member))

theorem primitive?_function (printable : program.Printable) {func : Function}
    (member : func ∈ program.functions) : DataType.primitive? func.name = none :=
  printable.noTypes _ (List.mem_append_left _ (List.mem_map_of_mem member))

theorem findVariable?_naming (printable : program.Printable) (functions : List Function) {var : VarId}
    (bound : var.index < program.vars.length) :
    DataType.primitive? (program.naming.var var) = none ∧
      (Symbols.mk program.vars functions).findVariable? (program.naming.var var) = some var := by
  obtain ⟨entry, listed⟩ : ∃ entry, program.vars[var.index]? = some entry :=
    ⟨_, List.getElem?_eq_getElem bound⟩
  have member := List.mem_of_getElem? listed
  have name : program.naming.var var = entry.name := by simp [naming, listed]
  have number : entry.id = var := by
    cases var
    cases entryId : entry.id
    simpa [entryId] using Symbols.number_eq printable.numbered.vars listed
  rw [name]
  refine ⟨printable.primitive?_var member, ?_⟩
  rw [Symbols.findVariable?, Symbols.find?_of_nodup printable.nodup_vars member, ← number]
  rfl

/-- The functions in front of others are found in tables that list them up to the numbers of nodes. -/
theorem findFunction?_naming (printable : program.Printable) {front back found : List Function}
    (split : program.functions = front ++ back)
    (same : found.map (fun f => (f.name, f.id)) = front.map (fun f => (f.name, f.id)))
    {callee : FuncId} (bound : callee.index < front.length) :
    DataType.primitive? (program.naming.func callee) = none ∧
      (Symbols.mk program.vars found).findFunction? (program.naming.func callee) = some callee := by
  obtain ⟨entry, early⟩ : ∃ entry, front[callee.index]? = some entry :=
    ⟨_, List.getElem?_eq_getElem bound⟩
  have listed : program.functions[callee.index]? = some entry := by
    rw [split, List.getElem?_append_left bound, early]
  have name : program.naming.func callee = entry.name := by simp [naming, listed]
  have number : entry.id = callee := by
    cases callee
    cases entryId : entry.id
    simpa [entryId] using Symbols.number_eq printable.numbered.functions listed
  have distinct := printable.nodup_functions
  rw [split, List.map_append] at distinct
  rw [name, ← number]
  exact ⟨printable.primitive?_function (List.mem_of_getElem? listed),
    Symbols.findFunction?_of_nodup same distinct.of_append_left (List.mem_of_getElem? early)⟩

/-- In the body of a function, the variables and the functions up to it are found by their names. -/
theorem readable (printable : program.Printable) {front back found : List Function} {func : Function}
    (split : program.functions = front ++ func :: back)
    (same : found.map Function.unnumbered = front.map Function.unnumbered) :
    ∃ body, func.body = some body ∧ ∀ n ∈ body.preorder, Grammar.Readable program.naming
      ⟨program.vars, found ++ [{ func with body := none }]⟩ n := by
  obtain ⟨body, defined, nodes⟩ := printable.bodies func (by simp [split])
  have place : program.functions[front.length]? = some func := by simp [split]
  have number := Symbols.number_eq printable.numbered.functions place
  have keys := congrArg (List.map fun f => (f.name, f.id)) same
  rw [List.map_map, List.map_map] at keys
  refine ⟨body, defined, fun n inside => ?_⟩
  obtain ⟨shaped, delimited, vars, calls⟩ := nodes n inside
  refine ⟨shaped, delimited, fun var used => printable.findVariable?_naming _ (vars var used), ?_⟩
  intro callee called
  have whole : program.functions = (front ++ [func]) ++ back := by simp [split]
  refine printable.findFunction?_naming whole ?_ (by simpa [number] using calls callee called)
  rw [List.map_append, List.map_append]
  exact congrArg (· ++ [(func.name, func.id)]) keys

end Program.Printable

namespace Grammar

open Node

variable {s s' : State} {symbols : Symbols} {rest more : List Token.Kind}

theorem State.At.shorter {others : Symbols} {phrase : List Token.Kind} (finish : s'.At others rest)
    (start : s.At symbols (phrase ++ rest)) (real : phrase ≠ []) :
    s'.unread.length < s.unread.length := by
  have consumed := List.length_pos_iff.mpr real
  rw [finish.length, start.length, List.length_append]
  omega

/-! ### One definition -/

theorem parses_typeName {text n : String} {type : DataType}
    (known : DataType.primitive? text = some type) :
    Parses symbols typeName [.ident text] (.ident n :: rest) (· = type) := by
  have resolved (pos : Position) : Parses symbols (observe fun s => s.types.resolve text pos) []
      (.ident n :: rest) (· = .ok type) := by
    intro s here
    refine ⟨_, s, rfl, ?_, here⟩
    show s.types.resolve text pos = .ok type
    rw [here.types, TypeTable.resolve, TypeTable.find?, known]
    rfl
  have count : Parses symbols stars [] (.ident n :: rest) (· = 0) :=
    Loops.parses (Loops.done (Parses.refuse_bind rfl (by simp) (Parses.pure ⟨0, rfl, rfl⟩)))
  refine Parses.name_bind fun pos => (resolved pos).bind_first ?_
  exact Parses.bind_first (a := some type) (Parses.pure rfl) (count.bind_first (Parses.pure rfl))

/-- A type and a name are read as what they are. -/
theorem typedName_run {text n : String} {type : DataType}
    (known : DataType.primitive? text = some type) (free : DataType.primitive? n = none)
    (here : s.At symbols (.ident text :: .ident n :: rest)) :
    ∃ s₁ s₂ pos, typeName s = .ok type s₁ ∧ ident s₁ = .ok (n, pos) s₂ ∧ s₂.At symbols rest := by
  obtain ⟨_, s₁, typeRead, rfl, named⟩ := parses_typeName known here
  have identified : Parses symbols ident [.ident n] rest fun found => found.1 = n :=
    Parses.name_bind fun _ => Parses.rejectTypeName_bind free (Parses.pure rfl)
  obtain ⟨⟨_, pos⟩, s₂, nameRead, rfl, finish⟩ := identified named
  exact ⟨s₁, s₂, pos, typeRead, nameRead, finish⟩

theorem definitionRound_global {text : String} (next : s.kind = .ident text)
    (ran : globalDefinition s = .ok () s') : definitionRound () s = .ok (.yield ()) s' := by
  rw [definitionRound, peekKind_bind, next]
  dsimp only
  rw [bind_run ran]
  rfl

theorem variable_run {known : List Variable} {var : Variable} (number : var.id.index = known.length)
    (type : var.type = .uint64) (free : DataType.primitive? var.name = none)
    (new : var.name ∉ known.map Variable.name)
    (here : s.At ⟨known, []⟩ (Program.variableKinds var ++ rest)) :
    ∃ s', definitionRound () s = .ok (.yield ()) s' ∧ s'.At ⟨known ++ [var], []⟩ rest := by
  obtain ⟨⟨_⟩, name, _⟩ := var
  cases type
  cases number
  obtain ⟨s₁, s₂, pos, typeRead, nameRead, ending⟩ := typedName_run rfl free here
  have finish := ending.next (by simp)
  have undeclared : (Symbols.mk known []).isDeclared name = false :=
    (Symbols.isDeclared_eq_false_iff _ _).mpr ⟨new, List.not_mem_nil⟩
  let symbols : Symbols := ⟨known ++ [⟨⟨known.length⟩, name, .uint64⟩], []⟩
  refine ⟨{ s₂.next.2 with symbols }, definitionRound_global here.kind ?_,
    finish.kinds, finish.quiet, finish.types, rfl⟩
  have declared : declareVariable name .uint64 pos s₂.next.2 =
      .ok (some ⟨known.length⟩) { s₂.next.2 with symbols } := by
    show declare (fun symbols => symbols.declareVariable name .uint64 pos) s₂.next.2 = _
    simp [declare, Symbols.declareVariable, undeclared, finish.symbols, symbols]
  rw [globalDefinition, bind_run typeRead, bind_run nameRead]
  dsimp only
  rw [peekKind_bind, ending.kind]
  dsimp only
  rw [skip_bind, bind_run declared]
  rfl

theorem function_run {names : Naming} {vars : List Variable} {known : List Function} {func : Function}
    {body : Node} (number : func.id.index = known.length) (free : DataType.primitive? func.name = none)
    (new : func.name ∉ vars.map Variable.name ∧ func.name ∉ known.map Function.name)
    (defined : func.body = some body)
    (readable : ∀ n ∈ body.preorder, Readable names ⟨vars, known ++ [{ func with body := none }]⟩ n)
    (behind : Behind body rest)
    (here : s.At ⟨vars, known⟩ (Program.functionKinds names func ++ rest)) :
    ∃ s' found, definitionRound () s = .ok (.yield ()) s' ∧ Like body found ∧
      s'.At ⟨vars, known ++ [{ func with body := some found }]⟩ rest := by
  obtain ⟨⟨_⟩, name, _⟩ := func
  cases defined
  cases number
  obtain ⟨s₁, s₂, pos, typeRead, nameRead, opening⟩ := typedName_run rfl free here
  have closing := opening.next (by simp)
  obtain ⟨s₃, closed, inside⟩ : ∃ s₃, expect .rparen s₂.next.2 = .ok () s₃ ∧
      s₃.At ⟨vars, known⟩ (body.statementKinds names ++ rest) :=
    ⟨_, expect_of_kind closing.kind, closing.next (by simp)⟩
  have undeclared : (Symbols.mk vars known).isDeclared name = false :=
    (Symbols.isDeclared_eq_false_iff _ _).mpr new
  let symbols : Symbols := ⟨vars, known ++ [⟨⟨known.length⟩, name, none⟩]⟩
  have declared : declareFunction name pos s₃ = .ok (some ⟨known.length⟩) { s₃ with symbols } := by
    simp [declareFunction, declare, Symbols.declareFunction, undeclared, inside.symbols, symbols]
  have start : State.At { s₃ with symbols } symbols (body.statementKinds names ++ rest) :=
    ⟨inside.kinds, inside.quiet, inside.types, rfl⟩
  obtain ⟨found, s₄, bodyRead, same, finish⟩ := parses_block readable behind start
  let defined : Symbols := ⟨vars, known ++ [⟨⟨known.length⟩, name, some found⟩]⟩
  have define : s₄.symbols.defineFunction ⟨known.length⟩ found = defined := by
    have last : symbols.functions = known ++ [⟨⟨known.length⟩, name, none⟩] := rfl
    rw [finish.symbols]
    exact Symbols.defineFunction_last last rfl found
  refine ⟨{ s₄ with symbols := defined }, found, definitionRound_global here.kind ?_, same,
    finish.kinds, finish.quiet, finish.types, rfl⟩
  rw [globalDefinition, bind_run typeRead, bind_run nameRead]
  dsimp only
  rw [peekKind_bind, opening.kind]
  dsimp only
  rw [skip_bind, bind_run closed, bind_run declared, bind_run bodyRead]
  show EStateM.Result.ok () { s₄ with symbols := s₄.symbols.defineFunction ⟨known.length⟩ found } = _
  rw [define]

/-! ### The whole program -/

open Program (variableKinds functionKinds)

/-- The definitions in front of the state have been read back, and the others are unread. -/
inductive State.Between (program : Program) (s : State) : Prop
  | atVariable (front back : List Variable) (split : program.vars = front ++ back)
      (here : s.At ⟨front, []⟩ (back.flatMap variableKinds ++
        (program.functions.flatMap (functionKinds program.naming) ++ [.eof])))
  | atFunction (front back found : List Function) (split : program.functions = front ++ back)
      (same : found.map Function.unnumbered = front.map Function.unnumbered)
      (here : s.At ⟨program.vars, found⟩
        (back.flatMap (functionKinds program.naming) ++ [.eof]))

def State.Finished (program : Program) (s : State) : Prop :=
  s.errors = [] ∧ (Program.mk s.symbols.functions s.symbols.vars).unnumbered = program.unnumbered

theorem functions_run {program : Program} (printable : program.Printable)
    {front back found : List Function} (split : program.functions = front ++ back)
    (same : found.map Function.unnumbered = front.map Function.unnumbered)
    (here : s.At ⟨program.vars, found⟩ (back.flatMap (functionKinds program.naming) ++ [.eof])) :
    (definitionRound () s = .ok (.done ()) s ∧ s.Finished program) ∨
      ∃ s', definitionRound () s = .ok (.yield ()) s' ∧ s'.Between program ∧
        s'.unread.length < s.unread.length := by
  cases back with
  | nil =>
    refine .inl ⟨?_, here.quiet, ?_⟩
    · rw [definitionRound, peekKind_bind, here.kind]
      rfl
    · rw [here.symbols, Program.unnumbered, Program.unnumbered, split, List.append_nil, same]
  | cons func back =>
    have member : func ∈ program.functions := by simp [split]
    have length : found.length = front.length := by simpa using congrArg List.length same
    have place : program.functions[front.length]? = some func := by simp [split]
    obtain ⟨body, defined, readable⟩ := printable.readable split same
    have names : found.map Function.name = front.map Function.name := by
      have names := congrArg (List.map Function.name) same
      rwa [List.map_map, List.map_map] at names
    have new : func.name ∉ program.vars.map Variable.name ∧ func.name ∉ found.map Function.name := by
      refine ⟨fun declared => ?_, names ▸ Symbols.name_not_mem_front (split ▸ printable.nodup_functions)⟩
      exact (List.nodup_append.mp printable.distinct).2.2 _ (List.mem_map_of_mem member) _ declared rfl
    have behind : Behind body (back.flatMap (functionKinds program.naming) ++ [.eof]) := by
      cases back with
      | nil => exact ⟨_, _, rfl, fun _ => by simp⟩
      | cons => exact ⟨_, _, rfl, fun _ => by simp⟩
    rw [List.flatMap_cons, List.append_assoc] at here
    have number : func.id.index = found.length := by
      rw [length]
      exact Symbols.number_eq printable.numbered.functions place
    obtain ⟨s', tree, ran, isBody, finish⟩ := function_run number (printable.primitive?_function member)
      new defined readable behind here
    refine .inr ⟨s', ran, .atFunction (front ++ [func]) back _ (by simp [split]) ?_ finish, ?_⟩
    · rw [List.map_append, List.map_append, same]
      simp [Function.unnumbered, defined, show tree.unnumbered = body.unnumbered from isBody]
    · exact finish.shorter here (List.cons_ne_nil _ _)

theorem definitionRound_between {program : Program} (printable : program.Printable)
    (between : s.Between program) :
    (definitionRound () s = .ok (.done ()) s ∧ s.Finished program) ∨
      ∃ s', definitionRound () s = .ok (.yield ()) s' ∧ s'.Between program ∧
        s'.unread.length < s.unread.length := by
  cases between with
  | atFunction front back found split same here => exact functions_run printable split same here
  | atVariable front back split here =>
    cases back with
    | nil =>
      rw [List.append_nil] at split
      rw [← split] at here
      exact functions_run printable (List.nil_append _).symm rfl here
    | cons var back =>
      have member : var ∈ program.vars := by simp [split]
      have place : program.vars[front.length]? = some var := by simp [split]
      have new : var.name ∉ front.map Variable.name :=
        Symbols.name_not_mem_front (split ▸ printable.nodup_vars)
      rw [List.flatMap_cons, List.append_assoc] at here
      obtain ⟨s', ran, finish⟩ := variable_run (Symbols.number_eq printable.numbered.vars place)
        (printable.types var member) (printable.primitive?_var member) new here
      exact .inr ⟨s', ran, .atVariable (front ++ [var]) back (by simp [split]) finish,
        finish.shorter here (List.cons_ne_nil _ _)⟩

theorem definitions_finish {program : Program} (printable : program.Printable)
    (between : s.Between program) : ∃ s', definitions s = .ok () s' ∧ s'.Finished program := by
  have round (v : Unit) (s : State) (between : s.Between program) :
      (∃ w s', definitionRound v s = .ok (.done w) s' ∧ s'.Finished program) ∨
        ∃ w s', definitionRound v s = .ok (.yield w) s' ∧ s'.Between program ∧
          s'.unread.length < s.unread.length := by
    rcases definitionRound_between printable between with ⟨ran, finished⟩ | ⟨s', ran, again⟩
    · exact .inl ⟨(), s, ran, finished⟩
    · exact .inr ⟨(), s', ran, again⟩
  obtain ⟨_, s', ran, finished⟩ := iterate_run (I := fun _ s => s.Between program)
    (Q := fun _ s => s.Finished program) round between (Nat.lt_succ_self _)
  exact ⟨s', ran, finished⟩

end Grammar

namespace Program

/-- Parsing undoes printing: the tokens of a program are read without a report, as the program
itself up to the numbers of its nodes. -/
theorem ofTokens_kinds (program : Program) (printable : program.Printable) (tokens : List Token)
    (written : tokens.map Token.kind = program.kinds ++ [.eof]) :
    ∃ parsed, ofTokens tokens = (some parsed, []) ∧ parsed.unnumbered = program.unnumbered := by
  have plain : ∀ token ∈ tokens, token.kind.isComment = false := by
    intro token member
    have kind : token.kind ∈ program.kinds ++ [.eof] := written ▸ List.mem_map_of_mem member
    rcases List.mem_append.mp kind with inside | last
    · exact program.plain_kinds _ inside
    · rw [List.mem_singleton.mp last]
      rfl
  have unread : (Grammar.State.ofTokens tokens).kinds = program.kinds ++ [.eof] := by
    rw [← written]
    have same : tokens.filter (fun token => !token.kind.isComment) = tokens :=
      List.filter_eq_self.mpr fun token member => by simp [plain token member]
    exact congrArg (List.map Token.kind) same
  have start : (Grammar.State.ofTokens tokens).Between program :=
    .atVariable [] program.vars rfl ⟨by rw [unread, kinds, List.append_assoc], rfl, rfl, rfl⟩
  obtain ⟨s', ran, quiet, same⟩ := Grammar.definitions_finish printable start
  refine ⟨⟨s'.symbols.functions, s'.symbols.vars⟩, ?_, same⟩
  simp only [ofTokens, Grammar.State.parse, ran, quiet]

/-- A program with every kind of node: an `if` without `else` stands in front of a `while`, of the end
of a case and of the end of a function, and behind an `else`. -/
def nested : Program where
  vars := [⟨⟨0⟩, "x", .uint64⟩, ⟨⟨1⟩, "y", .uint64⟩]
  functions := [
    ⟨⟨0⟩, "f", some (.ifElse 0
      (.binary 0 .sub (.unary 0 .neg (.binary 0 .mul (.access 0 ⟨0⟩) (.float 0 "1.5")))
        (.assign 0 ⟨1⟩ .add (.assign 0 ⟨0⟩ .set (.call 0 ⟨0⟩))))
      (.step 0 .up ⟨0⟩ .before) none)⟩,
    ⟨⟨1⟩, "main", some (.block 0 [
      .ifElse 0 (.access 0 ⟨0⟩) (.block 0 []) (some (.ifElse 0 (.access 0 ⟨1⟩) (.call 0 ⟨0⟩) none)),
      .doWhile 0
        (.whileLoop 0 (.access 0 ⟨0⟩) (.ifElse 0 (.access 0 ⟨1⟩) (.step 0 .down ⟨1⟩ .after) none))
        (.unary 0 .not (.access 0 ⟨0⟩)),
      .switch 0 (.access 0 ⟨0⟩)
        [(.integer 0 "1", .block 0 [.ifElse 0 (.access 0 ⟨1⟩) (.call 0 ⟨1⟩) none]),
          (.integer 0 "2", .block 0 [.block 0 [.putChar 0 (.integer 0 "65")]])]
        (some (.block 0 []))])⟩]

theorem ofTokens_kinds_nested :
    nested.Printable ∧
      ∃ parsed, ofTokens ((nested.kinds ++ [Token.Kind.eof]).map fun kind => ⟨kind, ⟨"", 1, 1⟩⟩) =
        (some parsed, []) ∧ parsed.unnumbered = nested.unnumbered := by
  have printable : nested.Printable := by
    refine ⟨⟨rfl, rfl⟩, ?_, by decide, by decide, ?_⟩
    · intro var member
      simp only [nested, List.mem_cons, List.not_mem_nil, or_false] at member
      rcases member with rfl | rfl <;> rfl
    · intro func member
      simp only [nested, List.mem_cons, List.not_mem_nil, or_false] at member
      rcases member with rfl | rfl <;> exact ⟨_, rfl, by decide +kernel⟩
  exact ⟨printable, ofTokens_kinds nested printable _ (by simp [Function.comp_def])⟩

end Program

end IonLang
