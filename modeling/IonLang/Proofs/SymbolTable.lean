import IonLang.Proofs.Grammar.Scope
import IonLang.Symbols.Indexed

/-!
# Tables of symbols

Variables and functions stand in two lists and share one space of names. A table is only changed by
declarations under new names, which go to the end, and by definitions, which change a body and nothing
else. So a number is a place for good, and a name leads to one symbol at most.

A table with indexes by name goes through the same lists, and its indexes are at every moment those of
the lists: `Indexed.afterAll_indexed`. With that a look-up in an index finds what stands in the lists,
and what was answered once is answered in the same way by every later table: `Indexed.sound_afterAll`.
-/

namespace IonLang.Symbols

/-! ### Runs -/

inductive Request where
  | declareVariable (name : String) (type : DataType) (pos : Position)
  | declareFunction (name : String) (pos : Position)
  | defineFunction (func : FuncId) (body : Node)
  | lookupVariable (name : String) (pos : Position)
  | lookupFunction (name : String) (pos : Position)

/-- The table behind a declaration, which is the old one if the declaration fails. -/
def declared {α : Type} (symbols : Symbols) : Except Diagnostic (α × Symbols) → Symbols
  | .ok (_, symbols') => symbols'
  | .error _ => symbols

def after (symbols : Symbols) : Request → Symbols
  | .declareVariable name type pos => symbols.declared (symbols.declareVariable name type pos)
  | .declareFunction name pos => symbols.declared (symbols.declareFunction name pos)
  | .defineFunction func body => symbols.defineFunction func body
  | .lookupVariable .. | .lookupFunction .. => symbols

def afterAll (symbols : Symbols) (requests : List Request) : Symbols := requests.foldl after symbols

variable {symbols later : Symbols} {name : String} {type : DataType} {pos : Position}

theorem declareVariable_of_new (new : name ∉ symbols.names) :
    symbols.declareVariable name type pos = .ok (⟨symbols.vars.length⟩,
      { symbols with vars := symbols.vars ++ [⟨⟨symbols.vars.length⟩, name, type⟩] }) := by
  unfold declareVariable
  rw [if_neg (mt isDeclared_iff.mp new)]

theorem declareVariable_of_used (used : name ∈ symbols.names) :
    symbols.declareVariable name type pos = .error (.variableRedeclared name pos) := by
  unfold declareVariable
  rw [if_pos (isDeclared_iff.mpr used)]

theorem declareFunction_of_new (new : name ∉ symbols.names) :
    symbols.declareFunction name pos = .ok (⟨symbols.functions.length⟩,
      { symbols with
        functions := symbols.functions ++ [⟨⟨symbols.functions.length⟩, name, none⟩] }) := by
  unfold declareFunction
  rw [if_neg (mt isDeclared_iff.mp new)]

theorem declareFunction_of_used (used : name ∈ symbols.names) :
    symbols.declareFunction name pos = .error (.functionRedeclared name pos) := by
  unfold declareFunction
  rw [if_pos (isDeclared_iff.mpr used)]

theorem functionAt?_defineFunction (symbols : Symbols) (func other : FuncId) (body : Node) :
    (symbols.defineFunction func body).functionAt? other =
      (symbols.functionAt? other).map fun f => if other = func then { f with body := some body } else f := by
  unfold functionAt?
  rw [defineFunction, List.getElem?_modify]
  by_cases here : other = func
  · simp [here]
  · have apart : func.index ≠ other.index := by
      intro same
      apply here
      cases other; cases func; cases same; rfl
    simp [here, apart]

/-! ### One request -/

/-- Everything that a request can do to a table. -/
inductive Change (symbols : Symbols) : Symbols → Prop where
  | nothing : Change symbols symbols
  | newVariable (name : String) (type : DataType) (new : name ∉ symbols.names) :
    Change symbols { symbols with vars := symbols.vars ++ [⟨⟨symbols.vars.length⟩, name, type⟩] }
  | newFunction (name : String) (new : name ∉ symbols.names) :
    Change symbols { symbols with
      functions := symbols.functions ++ [⟨⟨symbols.functions.length⟩, name, none⟩] }
  | newBody (func : FuncId) (body : Node) : Change symbols (symbols.defineFunction func body)

theorem change_after (symbols : Symbols) (request : Request) :
    Change symbols (symbols.after request) := by
  cases request with
  | declareVariable name type pos =>
    by_cases used : name ∈ symbols.names
    · rw [after, declareVariable_of_used used]
      exact .nothing
    · rw [after, declareVariable_of_new used]
      exact .newVariable name type used
  | declareFunction name pos =>
    by_cases used : name ∈ symbols.names
    · rw [after, declareFunction_of_used used]
      exact .nothing
    · rw [after, declareFunction_of_new used]
      exact .newFunction name used
  | defineFunction func body => exact .newBody func body
  | lookupVariable | lookupFunction => exact .nothing

/-- Symbols are numbered by place, and no two of them have one name. -/
structure Orderly (symbols : Symbols) : Prop where
  numbered : symbols.Numbered
  distinct : symbols.names.Nodup

theorem Orderly.change (orderly : symbols.Orderly) (change : Change symbols later) :
    later.Orderly := by
  cases change with
  | nothing => exact orderly
  | newVariable name type new =>
    have entered : symbols.declareVariable name type ⟨"", 1, 1⟩ = _ := declareVariable_of_new new
    exact ⟨orderly.numbered.declareVariable entered,
      nodup_names_declareVariable orderly.distinct entered⟩
  | newFunction name new =>
    have entered : symbols.declareFunction name ⟨"", 1, 1⟩ = _ := declareFunction_of_new new
    exact ⟨Grammar.numbered_declareFunction orderly.numbered entered,
      nodup_names_declareFunction orderly.distinct entered⟩
  | newBody func body =>
    have numbers : (symbols.defineFunction func body).functions.map (fun f => f.id.index) =
        symbols.functions.map fun f => f.id.index :=
      map_defineFunction (fun _ _ => rfl) symbols func body
    have count := congrArg List.length numbers
    rw [List.length_map, List.length_map] at count
    refine ⟨⟨orderly.numbered.vars, ?_⟩, ?_⟩
    · rw [numbers, count]
      exact orderly.numbered.functions
    · rw [names, map_name_defineFunction]
      exact orderly.distinct

/-- What was entered stays where it is, with its number and name. -/
structure GrowsTo (symbols later : Symbols) : Prop where
  vars : symbols.vars <+: later.vars
  functions : (symbols.functions.map fun f => (f.id, f.name)) <+:
    later.functions.map fun f => (f.id, f.name)

theorem Change.growsTo (change : Change symbols later) : symbols.GrowsTo later := by
  cases change with
  | nothing => exact ⟨List.prefix_refl _, List.prefix_refl _⟩
  | newVariable name type new => exact ⟨List.prefix_append _ _, List.prefix_refl _⟩
  | newFunction name new =>
    refine ⟨List.prefix_refl _, ?_⟩
    rw [List.map_append]
    exact List.prefix_append _ _
  | newBody func body =>
    have named : (symbols.defineFunction func body).functions.map (fun f => (f.id, f.name)) = _ :=
      map_defineFunction (fun _ _ => rfl) symbols func body
    exact ⟨List.prefix_refl _, named ▸ List.prefix_refl _⟩

/-! ### Sequences of requests -/

theorem orderly_empty : ({} : Symbols).Orderly := ⟨⟨rfl, rfl⟩, List.nodup_nil⟩

theorem Orderly.afterAll (orderly : symbols.Orderly) (requests : List Request) :
    (symbols.afterAll requests).Orderly := by
  induction requests generalizing symbols with
  | nil => exact orderly
  | cons request rest ih => exact ih (orderly.change (change_after symbols request))

theorem growsTo_afterAll (symbols : Symbols) (requests : List Request) :
    symbols.GrowsTo (symbols.afterAll requests) := by
  induction requests generalizing symbols with
  | nil => exact ⟨List.prefix_refl _, List.prefix_refl _⟩
  | cons request rest ih =>
    have first := (change_after symbols request).growsTo
    have others := ih (symbols.after request)
    exact ⟨first.vars.trans others.vars, first.functions.trans others.functions⟩

theorem getElem?_of_prefix {α : Type} {front whole : List α} (grown : front <+: whole) {i : Nat}
    {entry : α} (stands : front[i]? = some entry) : whole[i]? = some entry := by
  obtain ⟨inside, rfl⟩ := List.getElem?_eq_some_iff.mp stands
  exact List.prefix_iff_getElem?.mp grown i inside

theorem GrowsTo.variableAt? (grown : symbols.GrowsTo later) {var : VarId} {entry : Variable}
    (stands : symbols.variableAt? var = some entry) : later.variableAt? var = some entry :=
  getElem?_of_prefix grown.vars stands

theorem GrowsTo.functionAt? (grown : symbols.GrowsTo later) {func : FuncId} {entry : Function}
    (stands : symbols.functionAt? func = some entry) :
    ∃ body, later.functionAt? func = some { entry with body } := by
  have listed : (symbols.functions.map fun f => (f.id, f.name))[func.index]? =
      some (entry.id, entry.name) := by
    rw [List.getElem?_map, show symbols.functions[func.index]? = some entry from stands]
    rfl
  have found := getElem?_of_prefix grown.functions listed
  rw [List.getElem?_map, Option.map_eq_some_iff] at found
  obtain ⟨⟨id, name, body⟩, stands', same⟩ := found
  cases same
  exact ⟨body, stands'⟩

/-! ### Look-ups -/

/-- In a list that is numbered by place, with names that differ, a name leads to a place exactly if it
stands there. -/
theorem find?_place_iff {α : Type} {key : α → String} {number : α → Nat} {entries : List α}
    (numbered : entries.map number = List.range entries.length) (distinct : (entries.map key).Nodup)
    {i : Nat} :
    (∃ entry, (entries.find? fun other => key other == name) = some entry ∧ number entry = i) ↔
      ∃ entry, entries[i]? = some entry ∧ key entry = name := by
  constructor
  · rintro ⟨entry, found, rfl⟩
    have named : key entry = name := by simpa using List.find?_some found
    exact ⟨entry, getElem?_number numbered (List.mem_of_find?_eq_some found), named⟩
  · rintro ⟨entry, stands, rfl⟩
    exact ⟨entry, find?_of_nodup distinct (List.mem_of_getElem? stands), number_eq numbered stands⟩

namespace Orderly

variable (orderly : symbols.Orderly)

include orderly

theorem lookupVariable_iff {var : VarId} :
    symbols.lookupVariable name pos = .ok var ↔
      ∃ entry, symbols.variableAt? var = some entry ∧ entry.name = name := by
  have distinct : (symbols.vars.map Variable.name).Nodup := (List.nodup_append.mp orderly.distinct).2.1
  have found : symbols.lookupVariable name pos = .ok var ↔ symbols.findVariable? name = some var := by
    unfold lookupVariable
    cases symbols.findVariable? name <;> simp
  obtain ⟨i⟩ := var
  rw [found, variableAt?, ← find?_place_iff orderly.numbered.vars distinct, findVariable?,
    Option.map_eq_some_iff]
  simp only [← VarId.mk.injEq]

theorem lookupFunction_iff {func : FuncId} :
    symbols.lookupFunction name pos = .ok func ↔
      ∃ entry, symbols.functionAt? func = some entry ∧ entry.name = name := by
  have distinct : (symbols.functions.map Function.name).Nodup :=
    (List.nodup_append.mp orderly.distinct).1
  have found : symbols.lookupFunction name pos = .ok func ↔ symbols.findFunction? name = some func := by
    unfold lookupFunction
    cases symbols.findFunction? name <;> simp
  obtain ⟨i⟩ := func
  rw [found, functionAt?, ← find?_place_iff orderly.numbered.functions distinct, findFunction?,
    Option.map_eq_some_iff]
  simp only [← FuncId.mk.injEq]

end Orderly

/-! ### Indexes by name -/

def variableIndex (symbols : Symbols) : Dictionary VarId :=
  ⟨symbols.vars.map fun var => (var.name, var.id)⟩

def functionIndex (symbols : Symbols) : Dictionary FuncId :=
  ⟨symbols.functions.map fun func => (func.name, func.id)⟩

theorem findVariable?_eq_get? (symbols : Symbols) (name : String) :
    symbols.findVariable? name = symbols.variableIndex.get? name :=
  (Dictionary.lookup_map_find? _ _ _ _).symm

theorem findFunction?_eq_get? (symbols : Symbols) (name : String) :
    symbols.findFunction? name = symbols.functionIndex.get? name :=
  (Dictionary.lookup_map_find? _ _ _ _).symm

theorem variableIndex_after_of_new (new : name ∉ symbols.names) :
    (symbols.after (.declareVariable name type pos)).variableIndex =
      symbols.variableIndex.insert name ⟨symbols.vars.length⟩ := by
  rw [after, declareVariable_of_new new, declared, variableIndex, variableIndex, Dictionary.insert,
    Dictionary.put_of_not_mem, List.map_append]
  · rfl
  · rw [List.map_map]
    exact fun listed => new (mem_names.mpr (.inl listed))

theorem functionIndex_after_of_new (new : name ∉ symbols.names) :
    (symbols.after (.declareFunction name pos)).functionIndex =
      symbols.functionIndex.insert name ⟨symbols.functions.length⟩ := by
  rw [after, declareFunction_of_new new, declared, functionIndex, functionIndex, Dictionary.insert,
    Dictionary.put_of_not_mem, List.map_append]
  · rfl
  · rw [List.map_map]
    exact fun listed => new (mem_names.mpr (.inr listed))

theorem functionIndex_defineFunction (symbols : Symbols) (func : FuncId) (body : Node) :
    (symbols.defineFunction func body).functionIndex = symbols.functionIndex := by
  rw [functionIndex, map_defineFunction (fun _ _ => rfl), functionIndex]

def indexed (symbols : Symbols) : Indexed :=
  { symbols with
    variableNames := symbols.variableIndex
    functionNames := symbols.functionIndex }

namespace Indexed

def after (table : Indexed) : Request → Indexed
  | .declareVariable name type pos => (table.declareVariable name type pos).2
  | .declareFunction name pos => (table.declareFunction name pos).2
  | .defineFunction func body => table.defineFunction func body
  | .lookupVariable .. | .lookupFunction .. => table

def afterAll (table : Indexed) (requests : List Request) : Indexed := requests.foldl after table

theorem isDeclared_indexed (symbols : Symbols) (name : String) :
    symbols.indexed.isDeclared name = symbols.isDeclared name := by
  unfold isDeclared Symbols.isDeclared Dictionary.contains
  rw [findVariable?_eq_get?, findFunction?_eq_get?]
  rfl

theorem declareVariable_of_used (used : name ∈ symbols.names) :
    symbols.indexed.declareVariable name type pos =
      (.error (.variableRedeclared name pos), symbols.indexed) := by
  unfold declareVariable
  rw [if_pos (by rw [isDeclared_indexed]; exact isDeclared_iff.mpr used)]

theorem declareFunction_of_used (used : name ∈ symbols.names) :
    symbols.indexed.declareFunction name pos =
      (.error (.functionRedeclared name pos), symbols.indexed) := by
  unfold declareFunction
  rw [if_pos (by rw [isDeclared_indexed]; exact isDeclared_iff.mpr used)]

theorem declareVariable_of_new (new : name ∉ symbols.names) :
    symbols.indexed.declareVariable name type pos = (.ok ⟨symbols.vars.length⟩,
      { symbols.indexed with
        vars := symbols.vars ++ [⟨⟨symbols.vars.length⟩, name, type⟩]
        variableNames := symbols.variableIndex.insert name ⟨symbols.vars.length⟩ }) := by
  unfold declareVariable
  rw [if_neg (by rw [isDeclared_indexed]; exact mt isDeclared_iff.mp new)]
  rfl

theorem declareFunction_of_new (new : name ∉ symbols.names) :
    symbols.indexed.declareFunction name pos = (.ok ⟨symbols.functions.length⟩,
      { symbols.indexed with
        functions := symbols.functions ++ [⟨⟨symbols.functions.length⟩, name, none⟩]
        functionNames := symbols.functionIndex.insert name ⟨symbols.functions.length⟩ }) := by
  unfold declareFunction
  rw [if_neg (by rw [isDeclared_indexed]; exact mt isDeclared_iff.mp new)]
  rfl

theorem lookupVariable_indexed (symbols : Symbols) (name : String) (pos : Position) :
    symbols.indexed.lookupVariable name pos = symbols.lookupVariable name pos := by
  unfold lookupVariable Symbols.lookupVariable
  rw [findVariable?_eq_get?]
  rfl

theorem lookupFunction_indexed (symbols : Symbols) (name : String) (pos : Position) :
    symbols.indexed.lookupFunction name pos = symbols.lookupFunction name pos := by
  unfold lookupFunction Symbols.lookupFunction
  rw [findFunction?_eq_get?]
  rfl

/-- A request that is met in the indexes leads to the same lists as one that is met in the lists, and
the indexes are again those of the lists. -/
theorem after_indexed (symbols : Symbols) (request : Request) :
    symbols.indexed.after request = (symbols.after request).indexed := by
  cases request with
  | declareVariable name type pos =>
    by_cases used : name ∈ symbols.names
    · rw [after, declareVariable_of_used used, Symbols.after, Symbols.declareVariable_of_used used,
        declared]
    · have index : (symbols.after (.declareVariable name type pos)).variableIndex = _ :=
        variableIndex_after_of_new used
      rw [after, declareVariable_of_new used, ← index, Symbols.after,
        Symbols.declareVariable_of_new used]
      rfl
  | declareFunction name pos =>
    by_cases used : name ∈ symbols.names
    · rw [after, declareFunction_of_used used, Symbols.after, Symbols.declareFunction_of_used used,
        declared]
    · have index : (symbols.after (.declareFunction name pos)).functionIndex = _ :=
        functionIndex_after_of_new used
      rw [after, declareFunction_of_new used, ← index, Symbols.after,
        Symbols.declareFunction_of_new used]
      rfl
  | defineFunction func body =>
    have index := functionIndex_defineFunction symbols func body
    exact congrArg (mk (symbols.defineFunction func body) symbols.variableIndex) index.symm
  | lookupVariable | lookupFunction => rfl

theorem afterAll_indexed (symbols : Symbols) (requests : List Request) :
    symbols.indexed.afterAll requests = (symbols.afterAll requests).indexed := by
  induction requests generalizing symbols with
  | nil => rfl
  | cons request rest ih =>
    show (symbols.indexed.after request).afterAll rest = _
    rw [after_indexed, ih]
    rfl

/-- What can be relied on in a table, whatever is asked of it from now on. -/
structure Sound (table : Indexed) : Prop where
  id_variable : ∀ var entry, table.variableAt? var = some entry → entry.id = var
  id_function : ∀ func entry, table.functionAt? func = some entry → entry.id = func
  /-- The indexes hold the declared names, in the order of the lists. -/
  keys : table.variableNames.keys = table.vars.map Variable.name ∧
    table.functionNames.keys = table.functions.map Function.name
  distinct : (table.functions.map Function.name ++ table.vars.map Variable.name).Nodup
  lookup_variable : ∀ name pos var, table.lookupVariable name pos = .ok var ↔
    ∃ entry, table.variableAt? var = some entry ∧ entry.name = name
  lookup_function : ∀ name pos func, table.lookupFunction name pos = .ok func ↔
    ∃ entry, table.functionAt? func = some entry ∧ entry.name = name
  /-- A name in use is refused as a variable and as a function, and the table stays as it is. -/
  refused : ∀ name ∈ table.names, ∀ type pos,
    table.declareVariable name type pos = (.error (.variableRedeclared name pos), table) ∧
    table.declareFunction name pos = (.error (.functionRedeclared name pos), table)
  /-- A new name gets the next number, and nothing else is touched. -/
  entered : ∀ name ∉ table.names, ∀ type pos,
    table.declareVariable name type pos = (.ok ⟨table.vars.length⟩, { table with
      vars := table.vars ++ [⟨⟨table.vars.length⟩, name, type⟩]
      variableNames := table.variableNames.insert name ⟨table.vars.length⟩ }) ∧
    table.declareFunction name pos = (.ok ⟨table.functions.length⟩, { table with
      functions := table.functions ++ [⟨⟨table.functions.length⟩, name, none⟩]
      functionNames := table.functionNames.insert name ⟨table.functions.length⟩ })
  /-- A definition changes the body of its function, if there is one. -/
  defined : ∀ func body, (table.defineFunction func body).vars = table.vars ∧
    (table.defineFunction func body).variableNames = table.variableNames ∧
    (table.defineFunction func body).functionNames = table.functionNames ∧
    ∀ other, (table.defineFunction func body).functionAt? other =
      (table.functionAt? other).map fun f => if other = func then { f with body := some body } else f
  variable_stays : ∀ requests var entry, table.variableAt? var = some entry →
    (table.afterAll requests).variableAt? var = some entry
  function_stays : ∀ requests func entry, table.functionAt? func = some entry →
    ∃ body, (table.afterAll requests).functionAt? func = some { entry with body }
  variable_answer_stays : ∀ requests name pos var, table.lookupVariable name pos = .ok var →
    (table.afterAll requests).lookupVariable name pos = .ok var
  function_answer_stays : ∀ requests name pos func, table.lookupFunction name pos = .ok func →
    (table.afterAll requests).lookupFunction name pos = .ok func

end Indexed

theorem Orderly.lookupVariable_afterAll (orderly : symbols.Orderly) (requests : List Request)
    {var : VarId} (answer : symbols.lookupVariable name pos = .ok var) :
    (symbols.afterAll requests).lookupVariable name pos = .ok var := by
  obtain ⟨entry, stands, named⟩ := orderly.lookupVariable_iff.mp answer
  have stays := (growsTo_afterAll symbols requests).variableAt? stands
  exact (orderly.afterAll requests).lookupVariable_iff.mpr ⟨entry, stays, named⟩

theorem Orderly.lookupFunction_afterAll (orderly : symbols.Orderly) (requests : List Request)
    {func : FuncId} (answer : symbols.lookupFunction name pos = .ok func) :
    (symbols.afterAll requests).lookupFunction name pos = .ok func := by
  obtain ⟨entry, stands, named⟩ := orderly.lookupFunction_iff.mp answer
  obtain ⟨body, stays⟩ := (growsTo_afterAll symbols requests).functionAt? stands
  exact (orderly.afterAll requests).lookupFunction_iff.mpr ⟨{ entry with body }, stays, named⟩

theorem Orderly.sound (orderly : symbols.Orderly) : symbols.indexed.Sound where
  id_variable var entry stands := by
    have place : entry.id.index = var.index := number_eq orderly.numbered.vars stands
    exact congrArg VarId.mk place
  id_function func entry stands := by
    have place : entry.id.index = func.index := number_eq orderly.numbered.functions stands
    exact congrArg FuncId.mk place
  keys := ⟨List.map_map, List.map_map⟩
  distinct := orderly.distinct
  lookup_variable name pos var := by
    rw [Indexed.lookupVariable_indexed]
    exact orderly.lookupVariable_iff
  lookup_function name pos func := by
    rw [Indexed.lookupFunction_indexed]
    exact orderly.lookupFunction_iff
  refused _ used _ _ := ⟨Indexed.declareVariable_of_used used, Indexed.declareFunction_of_used used⟩
  entered _ new _ _ := ⟨Indexed.declareVariable_of_new new, Indexed.declareFunction_of_new new⟩
  defined func body :=
    ⟨rfl, rfl, rfl, fun other => functionAt?_defineFunction symbols func other body⟩
  variable_stays requests var entry stands := by
    rw [Indexed.afterAll_indexed]
    exact (growsTo_afterAll symbols requests).variableAt? stands
  function_stays requests func entry stands := by
    rw [Indexed.afterAll_indexed]
    exact (growsTo_afterAll symbols requests).functionAt? stands
  variable_answer_stays requests name pos var answer := by
    rw [Indexed.lookupVariable_indexed] at answer
    rw [Indexed.afterAll_indexed, Indexed.lookupVariable_indexed]
    exact orderly.lookupVariable_afterAll requests answer
  function_answer_stays requests name pos func answer := by
    rw [Indexed.lookupFunction_indexed] at answer
    rw [Indexed.afterAll_indexed, Indexed.lookupFunction_indexed]
    exact orderly.lookupFunction_afterAll requests answer

/-- Every table that requests lead to from the empty one is sound. -/
theorem Indexed.sound_afterAll (requests : List Request) :
    (({} : Indexed).afterAll requests).Sound := by
  have run := Indexed.afterAll_indexed {} requests
  rw [show ({} : Indexed) = ({} : Symbols).indexed from rfl, run]
  exact (orderly_empty.afterAll requests).sound

-- The second declaration and the definition of a function that is not there change nothing.
example : (({} : Indexed).afterAll [.declareVariable "count" .void ⟨"", 1, 1⟩,
    .declareFunction "count" ⟨"", 2, 1⟩, .declareFunction "main" ⟨"", 3, 1⟩,
    .defineFunction ⟨5⟩ (.block 0 [])]).names = ["main", "count"] := by
  decide

end IonLang.Symbols
