import IonLang.Machine
import IonLang.Proofs.Code.LabelHygiene
import IonLang.Proofs.Grammar.Scope
import IonLang.Proofs.Independence
import IonLang.SymbolMap

/-!
# The symbol map of a program and its code

A symbol map goes by names, and code goes by numbers. No two symbols of a parsed program share a
name, so no entry of the map replaces another one. The labels in the map are then those that the
code defines, in the same order: `Program.symbolMap_describes`.
-/

namespace IonLang

/-! ### Dictionaries of distinct keys -/

namespace Dictionary

variable {α : Type}

theorem entries_foldl_insert (dict : Dictionary α) {pairs : List (String × α)}
    (distinct : (dict.keys ++ pairs.map Prod.fst).Nodup) :
    (pairs.foldl (fun dict pair => dict.insert pair.1 pair.2) dict).entries =
      dict.entries ++ pairs := by
  induction pairs generalizing dict with
  | nil => simp
  | cons pair rest ih =>
    rw [List.map_cons, List.nodup_middle, List.nodup_cons, List.mem_append, not_or] at distinct
    obtain ⟨⟨new, apart⟩, others⟩ := distinct
    have added : (dict.insert pair.1 pair.2).entries = dict.entries ++ [pair] :=
      put_of_not_mem new pair.2
    have keys : (dict.insert pair.1 pair.2).keys = dict.keys ++ [pair.1] := by
      rw [keys_insert, if_neg new]
    rw [List.foldl_cons, ih, added, List.append_assoc, List.singleton_append]
    rw [keys, List.append_assoc, List.singleton_append, List.nodup_middle, List.nodup_cons,
      List.mem_append, not_or]
    exact ⟨⟨new, apart⟩, others⟩

/-- No entry replaces another one if all keys are different. -/
theorem entries_ofList {pairs : List (String × α)} (distinct : (pairs.map Prod.fst).Nodup) :
    (ofList pairs).entries = pairs :=
  entries_foldl_insert {} distinct

end Dictionary

/-! ### What lines define -/

namespace Line

def commented? : Line → Option (String × String)
  | label name (some comment) => some (name, comment)
  | label _ none | directive _ | reserve .. | inst _ => none

end Line

/-- A map gives the names and labels of the functions in the code, the labels of its storage behind
the character cell, and the label of the function that is called at the start. -/
structure SymbolMap.Describes (map : SymbolMap) (code : Assembly) : Prop where
  functions : code.lines.filterMap Line.commented? =
    map.functions.entries.map fun entry => (entry.2, entry.1)
  storage : code.lines.filterMap Line.reservation? =
    (charCell, .byte, 1) :: map.vars.entries.map fun entry => (entry.2.label, .qword, 1)
  start : ∃ front label back, map.functions.get? Program.entryName = some label ∧
    code.lines = front ++ .plainLabel Machine.startLabel :: .inst (.call label) :: back ∧
    Machine.startLabel ∉ definedNames (front ++ back)

-- A comment would be changed by some renaming.
theorem Node.Uncommented.filterMap_commented? {lines : List Line}
    (uncommented : ∀ r, Node.Uncommented r lines) : lines.filterMap Line.commented? = [] := by
  rw [List.filterMap_eq_nil_iff]
  intro line member
  have fixed : line.rename (· ++ "'") = line :=
    List.map_inj_left.mp ((uncommented _).trans (List.map_id lines).symm) line member
  cases line with
  | label name comment =>
    cases comment with
    | none => rfl
    | some comment => simp [Line.rename] at fixed
  | _ => rfl

namespace Program

variable {tokens : List Token} {program : Program} {errors : List Diagnostic} {code : Assembly}

theorem commented_functionLines (func : Function) :
    (functionLines func).filterMap Line.commented? = [(func.id.label, func.name)] := by
  have body : (Node.linesOption func.body).filterMap Line.commented? = [] :=
    Node.Uncommented.filterMap_commented? fun _ =>
      Node.uncommented_linesOption fun n _ => n.uncommented_lines
  rw [functionLines, List.filterMap_append, List.filterMap_append, body]
  rfl

theorem commented_functionsLines (functions : List Function) :
    (functions.flatMap functionLines).filterMap Line.commented? =
      functions.map fun func => (func.id.label, func.name) := by
  induction functions with
  | nil => rfl
  | cons func rest ih =>
    rw [List.flatMap_cons, List.filterMap_append, commented_functionLines, ih]
    rfl

theorem reserved_functionsLines (wellFormed : program.WellFormed tokens) :
    (program.functions.flatMap functionLines).filterMap Line.reservation? = [] := by
  rw [List.filterMap_eq_nil_iff]
  intro line member
  have closed := allClosed_functionLines wellFormed line member
  cases line with
  | reserve name width count => exact closed.elim
  | _ => rfl

theorem nodup_names (parsed : ofTokens tokens = (some program, errors)) :
    program.symbols.names.Nodup := by
  obtain ⟨s, read, _, rfl⟩ := definitions_of_ofTokens parsed
  exact Grammar.distinct_relation.definitions.of_ok read List.nodup_nil

theorem entries_functions (distinct : program.symbols.names.Nodup) :
    (SymbolMap.ofProgram program).functions.entries =
      program.functions.map fun func => (func.name, func.id.label) := by
  refine Dictionary.entries_ofList ?_
  rw [List.map_map]
  exact (List.nodup_append.mp distinct).1

theorem entries_vars (distinct : program.symbols.names.Nodup) :
    (SymbolMap.ofProgram program).vars.entries =
      program.vars.map fun var => (var.name, ⟨var.id.label, var.type.render⟩) := by
  refine Dictionary.entries_ofList ?_
  rw [List.map_map]
  exact (List.nodup_append.mp distinct).2.1

theorem label_entry (distinct : program.symbols.names.Nodup) (name : String) :
    (SymbolMap.ofProgram program).functions.get? name =
      (program.findFunction? name).map fun func => func.id.label := by
  rw [Dictionary.get?, entries_functions distinct]
  exact Dictionary.lookup_map_find? ..

theorem commented_storage (program : Program) : program.storage.filterMap Line.commented? = [] := by
  rw [List.filterMap_eq_nil_iff]
  simp [storage, Line.commented?]

theorem reserved_storage (program : Program) :
    program.storage.filterMap Line.reservation? =
      (charCell, .byte, 1) :: program.vars.map fun var => (var.id.label, .qword, 1) := by
  rw [storage, List.filterMap_cons, List.filterMap_map]
  exact congrArg (List.cons _) (congrFun List.filterMap_eq_map' program.vars)

theorem describes_of_assemble (parsed : ofTokens tokens = (some program, errors))
    (assembled : program.assemble = .ok code) : (SymbolMap.ofProgram program).Describes code := by
  have wellFormed := ofTokens_wellFormed parsed
  have distinct := nodup_names parsed
  obtain ⟨entry, found, lines⟩ := assemble_eq_ok assembled
  constructor
  · have ending : (startCode entry.id).filterMap Line.commented? = [] := rfl
    simp [lines, List.filterMap_cons, Line.commented?, commented_storage, commented_functionsLines,
      ending, entries_functions distinct]
  · have ending : (startCode entry.id).filterMap Line.reservation? = [] := rfl
    simp [lines, List.filterMap_cons, Line.reservation?, reserved_storage,
      reserved_functionsLines wellFormed, ending, entries_vars distinct]
  · have names := distinct_names wellFormed assembled
    let front := [.directive "BITS 64", .directive "segment .bss"] ++ program.storage ++
      [.directive "segment .text"] ++ program.functions.flatMap functionLines ++
      [.directive "global _start"]
    have split : code.lines = front ++ .plainLabel Machine.startLabel ::
        .inst (.call entry.id.label) :: (startCode entry.id).drop 3 := by
      rw [lines]
      exact (List.append_assoc _ [Line.directive "global _start"] _).symm
    refine ⟨front, entry.id.label, _, by rw [label_entry distinct, found]; rfl, split, ?_⟩
    rw [split, definedNames_append, definedNames_plainLabel, definedNames_inst, List.nodup_middle,
      List.nodup_cons, ← definedNames_append] at names
    exact names.1

/-- The symbol map of a parsed program has one entry for each function and each variable, in the order
of declaration and under names of their own, and it describes the code of the program. -/
theorem symbolMap_describes (tokens : List Token) (program : Program) (errors : List Diagnostic)
    (parsed : ofTokens tokens = (some program, errors)) :
    let map := SymbolMap.ofProgram program
    map.functions.entries = program.functions.map (fun func => (func.name, func.id.label)) ∧
      map.vars.entries =
        program.vars.map (fun var => (var.name, ⟨var.id.label, var.type.render⟩)) ∧
      (map.functions.keys ++ map.vars.keys).Nodup ∧
      ∀ code, program.assemble = .ok code → map.Describes code := by
  have distinct := nodup_names parsed
  refine ⟨entries_functions distinct, entries_vars distinct, ?_, fun _ => describes_of_assemble parsed⟩
  rw [Dictionary.keys, Dictionary.keys, entries_functions distinct, entries_vars distinct,
    List.map_map, List.map_map]
  exact distinct

/-- A function and a variable that are declared again under the names of others, and a body that is
given up. -/
theorem symbolMap_describes_redeclared :
    let source := "uint64* x; void f() 1; bool f; void x() 2; void main() " ++
      Text.braced "uint64 y; bool x; f();"
    ∃ program errors code, ofTokens (Token.scan "f" source).tokens = (some program, errors) ∧
      errors.length = 3 ∧ program.assemble = .ok code ∧
      (SymbolMap.ofProgram program).functions.entries =
        [("f", "function_0"), ("main", "function_1")] ∧
      (SymbolMap.ofProgram program).vars.entries =
        [("x", ⟨"var_0", "uint64*"⟩), ("y", ⟨"var_1", "uint64"⟩)] ∧
      (SymbolMap.ofProgram program).Describes code := by
  intro source
  let tokens := (Token.scan "f" source).tokens
  obtain ⟨program, code, parsed, assembled⟩ : ∃ program code,
      ofTokens tokens = (some program, (ofTokens tokens).2) ∧ program.assemble = .ok code :=
    exists_assembled rfl (by decide +kernel)
  have facts : ((ofTokens tokens).2.length, (ofTokens tokens).1.map fun program =>
      (program.functions.map fun func => (func.name, func.id.label),
        program.vars.map fun var => (var.name, VariableEntry.mk var.id.label var.type.render))) =
      (3, some ([("f", "function_0"), ("main", "function_1")],
        [("x", ⟨"var_0", "uint64*"⟩), ("y", ⟨"var_1", "uint64"⟩)])) := by decide +kernel
  obtain ⟨three, lists⟩ := Prod.mk.inj facts
  rw [parsed] at lists
  obtain ⟨functionList, variableList⟩ := Prod.mk.inj (Option.some.inj lists)
  obtain ⟨functions, vars, _, describes⟩ := symbolMap_describes tokens program _ parsed
  exact ⟨program, _, code, parsed, three, assembled, functions.trans functionList,
    vars.trans variableList, describes code assembled⟩

end Program

end IonLang
