import IonLang.Proofs.Grammar.Spelling
import IonLang.Proofs.Grammar.WellFormed
import Mathlib.Data.List.Nodup
import Mathlib.Logic.Relation

/-!
# Names and calls of a program

A declaration is refused under a name in use, so all symbols of a program have names of their own.
A function is known to its own body and to what follows it, so calls only go back in the order of
the functions. Both hold of every program that a parse returns, and `Program.InOrder` collects them
with what is known of numbers, bodies and expressions.
-/

namespace IonLang

namespace Symbols

def names (symbols : Symbols) : List String :=
  symbols.functions.map Function.name ++ symbols.vars.map Variable.name

theorem mem_names {symbols : Symbols} {name : String} : name ∈ symbols.names ↔
    name ∈ symbols.vars.map Variable.name ∨ name ∈ symbols.functions.map Function.name := by
  rw [names, List.mem_append]
  exact or_comm

theorem isDeclared_iff {symbols : Symbols} {name : String} :
    symbols.isDeclared name = true ↔ name ∈ symbols.names := by
  rw [mem_names, ← Bool.not_eq_false, isDeclared_eq_false_iff]
  tauto

section

variable {symbols symbols' : Symbols} {name : String} {type : DataType} {pos : Position}
  {var : VarId} {func : FuncId}

/-- A variable is entered under a name that was not in use. -/
theorem names_of_declareVariable (h : symbols.declareVariable name type pos = .ok (var, symbols')) :
    name ∉ symbols.names ∧ symbols'.names.Perm (name :: symbols.names) := by
  obtain ⟨free, _, rfl⟩ := Grammar.declareVariable_eq_ok h
  refine ⟨fun used => absurd (isDeclared_iff.mpr used) (by simp [free]), ?_⟩
  simp only [names, List.map_append, ← List.append_assoc]
  exact List.perm_append_singleton _ _

/-- A function is entered under a name that was not in use. -/
theorem names_of_declareFunction (h : symbols.declareFunction name pos = .ok (func, symbols')) :
    name ∉ symbols.names ∧ symbols'.names.Perm (name :: symbols.names) := by
  obtain ⟨free, _, rfl⟩ := Grammar.declareFunction_eq_ok h
  refine ⟨fun used => absurd (isDeclared_iff.mpr used) (by simp [free]), ?_⟩
  simp only [names, List.map_append, List.append_assoc]
  exact List.perm_middle

theorem nodup_names_declareVariable (distinct : symbols.names.Nodup)
    (h : symbols.declareVariable name type pos = .ok (var, symbols')) : symbols'.names.Nodup := by
  obtain ⟨new, entered⟩ := names_of_declareVariable h
  exact entered.nodup_iff.mpr (List.nodup_cons.mpr ⟨new, distinct⟩)

theorem nodup_names_declareFunction (distinct : symbols.names.Nodup)
    (h : symbols.declareFunction name pos = .ok (func, symbols')) : symbols'.names.Nodup := by
  obtain ⟨new, entered⟩ := names_of_declareFunction h
  exact entered.nodup_iff.mpr (List.nodup_cons.mpr ⟨new, distinct⟩)

end

theorem index_lt {α : Type} {number : α → Nat} {entries : List α}
    (numbered : entries.map number = List.range entries.length) {entry : α}
    (member : entry ∈ entries) : number entry < entries.length :=
  (List.getElem?_eq_some_iff.mp (getElem?_number numbered member)).1

/-- Symbols are numbered by place, and a function calls itself and functions in front of it. -/
structure CallsBack (symbols : Symbols) : Prop where
  numbered : symbols.Numbered
  backward : ∀ func ∈ symbols.functions, ∀ body ∈ func.body, ∀ id callee,
    .call id callee ∈ body.preorder → callee.index ≤ func.id.index

end Symbols

namespace Grammar

theorem distinct_relation :
    DefinitionRelation fun s s' => s.symbols.names.Nodup → s'.symbols.names.Nodup where
  refl _ := id
  trans first second := second ∘ first
  next s distinct := by rw [(next_frame s).2.2.1]; exact distinct
  report _ _ _ := id
  number _ := id
  enter _ _ _ _ _ _ declared distinct := Symbols.nodup_names_declareVariable distinct declared
  enterType _ _ := id
  enterFunction _ _ _ _ _ declared distinct := Symbols.nodup_names_declareFunction distinct declared
  define s func body distinct := by
    rw [Symbols.names, Symbols.map_name_defineFunction]
    exact distinct

theorem callsBack_steps : TypeRelation fun s s' => s.symbols.CallsBack → s'.symbols.CallsBack where
  refl _ := id
  trans first second := second ∘ first
  next s back := by rw [(next_frame s).2.2.1]; exact back
  report _ _ _ := id
  number _ := id
  enter s name type pos var symbols declared back := by
    refine ⟨back.numbered.declareVariable declared, ?_⟩
    obtain ⟨_, _, rfl⟩ := declareVariable_eq_ok declared
    exact back.backward
  enterType _ _ := id

theorem callsBack_invariant : DefinitionInvariant fun s => s.symbols.CallsBack where
  steps := callsBack_steps
  function {s s' name pos func symbols body} back declared bodyRead := by
    have built := block_built _ _ _ bodyRead
    have numbered := numbered_relation.block.of_ok bodyRead
      (numbered_declareFunction back.numbered declared)
    obtain ⟨_, rfl, rfl⟩ := declareFunction_eq_ok declared
    let known := s.symbols.functions
    have functions : s'.symbols.functions = known ++ [⟨⟨known.length⟩, name, none⟩] :=
      built.growth.functions
    have after := Symbols.defineFunction_last functions rfl body
    dsimp only at after ⊢
    rw [after]
    have ids := numbered.functions
    refine ⟨⟨numbered.vars, by simpa [functions] using ids⟩, ?_⟩
    intro other member found same id callee called
    rcases List.mem_append.mp member with old | new
    · exact back.backward other old found same id callee called
    · -- The new function can call what was known when its body was read, itself included.
      rw [List.mem_singleton.mp new] at same ⊢
      cases same
      obtain ⟨target, inside, rfl⟩ :=
        built.resolved _ (Node.mem_forest.mpr ⟨body, List.mem_cons_self, called⟩)
      have bound := Symbols.index_lt ids inside
      rw [functions, List.length_append, List.length_singleton] at bound
      exact Nat.le_of_lt_succ bound

end Grammar

namespace Node

def usedVariable? : Node → Option VarId
  | assign _ var _ _ | access _ var | step _ _ var _ => some var
  | _ => none

def callee? : Node → Option FuncId
  | call _ func => some func
  | _ => none

theorem Scoped.exists_used {symbols : Symbols} {node : Node} {var : VarId}
    (resolved : node.Scoped symbols) (used : node.usedVariable? = some var) :
    ∃ known ∈ symbols.vars, known.id = var := by
  cases node with
  | assign | access | step => cases used; exact resolved
  | _ => cases used

end Node

namespace Program

def Calls (program : Program) (caller callee : Nat) : Prop :=
  ∃ func body id, program.functions[caller]? = some func ∧ func.body = some body ∧
    .call id ⟨callee⟩ ∈ body.preorder

/-- What holds of every program that is read from tokens, whatever was reported. -/
structure InOrder (program : Program) : Prop where
  functionNumbers : ∀ (i : Nat) (func : Function), program.functions[i]? = some func → func.id.index = i
  variableNumbers : ∀ (i : Nat) (var : Variable), program.vars[i]? = some var → var.id.index = i
  names : (program.functions.map Function.name ++ program.vars.map Variable.name).Nodup
  defined : ∀ func ∈ program.functions, ∃ body, func.body = some body
  declared : ∀ func ∈ program.functions, ∀ body ∈ func.body, ∀ n ∈ body.preorder,
    ∀ var, n.usedVariable? = some var → var.index < program.vars.length
  calls : ∀ caller callee, program.Calls caller callee → callee ≤ caller
  /-- No function is on a cycle of calls with another one. -/
  acyclic : ∀ caller callee, Relation.TransGen program.Calls caller callee →
    Relation.TransGen program.Calls callee caller → caller = callee
  values : ∀ func ∈ program.functions, ∀ body ∈ func.body, ∀ n ∈ body.preorder, n.Shaped

theorem le_of_transGen_calls {program : Program}
    (calls : ∀ caller callee, program.Calls caller callee → callee ≤ caller) {caller callee : Nat}
    (chain : Relation.TransGen program.Calls caller callee) : callee ≤ caller := by
  induction chain with
  | single called => exact calls _ _ called
  | tail _ called below => exact Nat.le_trans (calls _ _ called) below

/-- Whatever a parse reports, a program that it returns is in order. -/
theorem ofTokens_inOrder (tokens : List Token) (program : Program) (errors : List Diagnostic)
    (parsed : ofTokens tokens = (some program, errors)) : program.InOrder := by
  have wellFormed := ofTokens_wellFormed parsed
  have inForest {func body n} (member : func ∈ program.functions) (same : body ∈ func.body)
      (inside : n ∈ body.preorder) : n ∈ Node.forest program.bodies :=
    Node.mem_forest.mpr ⟨body, List.mem_filterMap.mpr ⟨func, member, same⟩, inside⟩
  obtain ⟨distinct, back⟩ : program.symbols.names.Nodup ∧ program.symbols.CallsBack := by
    unfold ofTokens Grammar.State.parse at parsed
    split at parsed
    · next s' read =>
      cases parsed
      exact ⟨Grammar.distinct_relation.definitions.of_ok read List.nodup_nil,
        Grammar.callsBack_invariant.definitions ⟨⟨rfl, rfl⟩, fun _ member => by cases member⟩ read⟩
    · cases parsed
    · cases parsed
  have numbers : ∀ (i : Nat) (func : Function), program.functions[i]? = some func →
      func.id.index = i := fun _ _ => Symbols.number_eq wellFormed.numbered.functions
  have calls : ∀ caller callee, program.Calls caller callee → callee ≤ caller := by
    rintro caller callee ⟨func, body, id, found, same, called⟩
    rw [← numbers caller func found]
    exact back.backward func (List.mem_of_getElem? found) body same id ⟨callee⟩ called
  refine ⟨numbers, fun _ _ => Symbols.number_eq wellFormed.numbered.vars, distinct,
    fun func member => Option.isSome_iff_exists.mp (wellFormed.defined func member), ?_, calls, ?_, ?_⟩
  · intro func member body same n inside var used
    obtain ⟨known, declared, rfl⟩ :=
      (wellFormed.resolved n (inForest member same inside)).exists_used used
    exact Symbols.index_lt wellFormed.numbered.vars declared
  · intro caller callee there back
    exact Nat.le_antisymm (le_of_transGen_calls calls back) (le_of_transGen_calls calls there)
  · intro func member body same n inside
    exact wellFormed.shaped n (inForest member same inside)

/-- A function that is declared twice, an unknown variable and a missing brace are reported, and
the program that is left is in order. -/
theorem ofTokens_inOrder_recovered :
    let source := "uint64 x; void f() " ++ Text.braced "x = f();" ++ "void f() x = 1; void main() " ++
      Mark.lcurly.spelling ++ "y = f(); main();"
    ∃ program errors, ofTokens (Token.scan "f" source).tokens = (some program, errors) ∧
      errors.length = 3 ∧ program.InOrder := by
  intro source
  let result := ofTokens (Token.scan "f" source).tokens
  have some : result.1.isSome = true := by decide +kernel
  have three : result.2.length = 3 := by decide +kernel
  obtain ⟨program, found⟩ := Option.isSome_iff_exists.mp some
  exact ⟨program, result.2, Prod.ext found rfl, three, ofTokens_inOrder _ _ _ (Prod.ext found rfl)⟩

end Program

end IonLang
