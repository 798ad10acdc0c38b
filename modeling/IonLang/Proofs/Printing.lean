import IonLang.Proofs.Grammar.Lookahead
import IonLang.Proofs.Grammar.Scope

/-!
# Programs as tokens

`Program.kinds` writes a program as the kinds of its tokens: variables first, then functions. Inside
an expression, operations and assignments stand in parentheses; blocks stand in braces, but for the
body of a case. `Program.Printable` says which programs can be written so that nothing is lost, and
`unnumbered` forgets the numbers of nodes, which are not written.
-/

namespace IonLang

open Grammar (binaryOp? assignOp? startsExpression startsStatement)

/-! ### Marks of operators -/

def BinaryOp.mark : BinaryOp → Mark
  | add => .plus
  | sub => .minus
  | mul => .star
  | eq => .equalEqual
  | ne => .bangEqual
  | lt => .langle
  | gt => .rangle
  | le => .langleEqual
  | ge => .rangleEqual

def AssignOp.mark : AssignOp → Mark
  | set => .equal
  | add => .plusEqual
  | sub => .minusEqual
  | mul => .starEqual

def UnaryOp.mark : UnaryOp → Mark
  | neg => .minus
  | not => .bang

def Direction.mark : Direction → Mark
  | up => .plusPlus
  | down => .minusMinus

theorem binaryOp?_mark (op : BinaryOp) : binaryOp? (.mark op.mark) = some op := by
  cases op <;> rfl

theorem assignOp?_mark (op : AssignOp) : assignOp? (.mark op.mark) = some op := by
  cases op <;> rfl

structure Naming where
  var : VarId → String
  func : FuncId → String

namespace Node

def isBlock : Node → Bool
  | block .. => true
  | _ => false

/-! ### Expressions -/

def isCompound : Node → Bool
  | assign .. | binary .. => true
  | _ => false

def inParens (kinds : List Token.Kind) : List Token.Kind :=
  .mark .lparen :: (kinds ++ [.mark .rparen])

def asOperand (node : Node) (kinds : List Token.Kind) : List Token.Kind :=
  if node.isCompound then inParens kinds else kinds

def expressionKinds (names : Naming) : Node → List Token.Kind
  | assign _ var op value =>
    .ident (names.var var) :: .mark op.mark :: value.asOperand (value.expressionKinds names)
  | access _ var => [.ident (names.var var)]
  | integer _ text => [.integer text]
  | float _ text => [.float text]
  | unary _ op operand => .mark op.mark :: operand.asOperand (operand.expressionKinds names)
  | binary _ op lhs rhs =>
    lhs.asOperand (lhs.expressionKinds names) ++
      .mark op.mark :: rhs.asOperand (rhs.expressionKinds names)
  | step _ direction var .before => [.mark direction.mark, .ident (names.var var)]
  | step _ direction var .after => [.ident (names.var var), .mark direction.mark]
  | call _ func => [.ident (names.func func), .mark .lparen, .mark .rparen]
  | block .. | ifElse .. | whileLoop .. | doWhile .. | switch .. | putChar .. => []

def operandKinds (names : Naming) (node : Node) : List Token.Kind :=
  node.asOperand (node.expressionKinds names)

theorem head_asOperand (node : Node) {kinds : List Token.Kind}
    (head : ∃ kind rest, kinds = kind :: rest ∧ startsExpression kind = true) :
    ∃ kind rest, node.asOperand kinds = kind :: rest ∧ startsExpression kind = true := by
  unfold asOperand
  split
  · exact ⟨_, _, rfl, rfl⟩
  · exact head

theorem head_expressionKinds (names : Naming) (node : Node) :
    node.IsExpression →
    ∃ kind rest, node.expressionKinds names = kind :: rest ∧ startsExpression kind = true := by
  induction node using inductionOn with
  | block | ifElse | whileLoop | doWhile | switch | putChar =>
    intro expression
    cases expression _ (mem_preorder_self _)
  | binary id op lhs rhs ofLhs ofRhs =>
    intro expression
    have left : lhs.IsExpression := forall_child expression (by simp [children])
    obtain ⟨kind, rest, same, starts⟩ := head_asOperand lhs (ofLhs left)
    exact ⟨kind, _, by rw [expressionKinds, same, List.cons_append], starts⟩
  | unary id op operand ofOperand =>
    intro _
    cases op <;> exact ⟨_, _, rfl, rfl⟩
  | step id direction var timing =>
    intro _
    cases timing <;> cases direction <;> exact ⟨_, _, rfl, rfl⟩
  | assign | access | integer | float | call => exact fun _ => ⟨_, _, rfl, rfl⟩

/-! ### Statements -/

mutual

def statementKinds (names : Naming) : Node → List Token.Kind
  | block _ body => .mark .lcurly :: (statementsKinds names body ++ [.mark .rcurly])
  | ifElse _ cond thenPart elsePart =>
    .keyword .ifWord :: (inParens (cond.expressionKinds names) ++
      (thenPart.statementKinds names ++ elseKinds names elsePart))
  | whileLoop _ cond body =>
    .keyword .whileWord :: (inParens (cond.expressionKinds names) ++ body.statementKinds names)
  | doWhile _ body cond =>
    .keyword .doWord :: (body.statementKinds names ++
      .keyword .whileWord :: (inParens (cond.expressionKinds names) ++ [.mark .semicolon]))
  | switch _ subject cases fallback =>
    .keyword .switchWord :: (inParens (subject.expressionKinds names) ++
      .mark .lcurly :: (casesKinds names cases ++ (defaultKinds names fallback ++ [.mark .rcurly])))
  | putChar _ value =>
    .keyword .putcWord :: (inParens (value.expressionKinds names) ++ [.mark .semicolon])
  | node => node.expressionKinds names ++ [.mark .semicolon]

def statementsKinds (names : Naming) : List Node → List Token.Kind
  | [] => []
  | node :: rest => node.statementKinds names ++ statementsKinds names rest

def innerKinds (names : Naming) : Node → List Token.Kind
  | block _ body => statementsKinds names body
  | _ => []

def elseKinds (names : Naming) : Option Node → List Token.Kind
  | none => []
  | some node => .keyword .elseWord :: node.statementKinds names

def casesKinds (names : Naming) : List (Node × Node) → List Token.Kind
  | [] => []
  | (value, body) :: rest =>
    .keyword .caseWord :: (value.expressionKinds names ++
      .mark .colon :: (innerKinds names body ++ casesKinds names rest))

def defaultKinds (names : Naming) : Option Node → List Token.Kind
  | none => []
  | some body => .keyword .defaultWord :: .mark .colon :: innerKinds names body

end

theorem statementKinds_expression (names : Naming) {node : Node} (value : node.isExpression = true) :
    node.statementKinds names = node.expressionKinds names ++ [.mark .semicolon] := by
  cases node with
  | block | ifElse | whileLoop | doWhile | switch | putChar => cases value
  | _ => rfl

/-- What a node needs to be a statement of its own. -/
theorem isExpression_of_shaped {node : Node} (value : node.isExpression = true)
    (shaped : node.Shaped) : node.IsExpression := by
  apply isExpression_of_children value
  intro child member
  cases node with
  | block | ifElse | whileLoop | doWhile | switch | putChar => cases value
  | assign | unary =>
    obtain rfl := List.mem_singleton.mp member
    exact shaped
  | binary id op lhs rhs =>
    rcases List.mem_pair.mp member with rfl | rfl
    · exact shaped.1
    · exact shaped.2
  | access | integer | float | step | call => cases member

theorem head_statementKinds (names : Naming) {node : Node} (shaped : node.Shaped) :
    ∃ kind rest, node.statementKinds names = kind :: rest ∧ startsStatement kind = true ∧
      (kind = .mark .lcurly → node.isBlock = true) := by
  cases value : node.isExpression with
  | true =>
    obtain ⟨kind, rest, same, starts⟩ :=
      head_expressionKinds names node (isExpression_of_shaped value shaped)
    refine ⟨kind, _, by rw [statementKinds_expression names value, same, List.cons_append],
      Grammar.startsStatement_of_startsExpression starts, ?_⟩
    rintro rfl
    cases starts
  | false =>
    cases node with
    | block => exact ⟨_, _, rfl, rfl, fun _ => rfl⟩
    | ifElse | whileLoop | doWhile | switch | putChar => exact ⟨_, _, rfl, rfl, by simp⟩
    | _ => cases value

/-! ### Trees without numbers -/

mutual

def unnumbered : Node → Node
  | block _ body => block 0 (unnumberedAll body)
  | ifElse _ cond thenPart elsePart =>
    ifElse 0 cond.unnumbered thenPart.unnumbered (unnumberedOption elsePart)
  | whileLoop _ cond body => whileLoop 0 cond.unnumbered body.unnumbered
  | doWhile _ body cond => doWhile 0 body.unnumbered cond.unnumbered
  | switch _ subject cases fallback =>
    switch 0 subject.unnumbered (unnumberedCases cases) (unnumberedOption fallback)
  | assign _ var op value => assign 0 var op value.unnumbered
  | access _ var => access 0 var
  | integer _ text => integer 0 text
  | float _ text => float 0 text
  | unary _ op operand => unary 0 op operand.unnumbered
  | binary _ op lhs rhs => binary 0 op lhs.unnumbered rhs.unnumbered
  | step _ direction var timing => step 0 direction var timing
  | call _ func => call 0 func
  | putChar _ value => putChar 0 value.unnumbered

def unnumberedAll : List Node → List Node
  | [] => []
  | node :: rest => node.unnumbered :: unnumberedAll rest

def unnumberedCases : List (Node × Node) → List (Node × Node)
  | [] => []
  | (value, body) :: rest => (value.unnumbered, body.unnumbered) :: unnumberedCases rest

def unnumberedOption : Option Node → Option Node
  | none => none
  | some node => some node.unnumbered

end

theorem unnumberedAll_eq (body : List Node) : unnumberedAll body = body.map unnumbered := by
  induction body with
  | nil => rfl
  | cons node rest ih => rw [unnumberedAll, ih, List.map_cons]

theorem unnumberedCases_eq (cases : List (Node × Node)) :
    unnumberedCases cases = cases.map fun entry => (entry.1.unnumbered, entry.2.unnumbered) := by
  induction cases with
  | nil => rfl
  | cons entry rest ih => rw [unnumberedCases, ih, List.map_cons]

/-! ### No comments are written -/

def Plain (kinds : List Token.Kind) : Prop := ∀ kind ∈ kinds, kind.isComment = false

@[simp] theorem plain_nil : Plain [] := List.forall_mem_nil _

@[simp] theorem plain_cons {kind : Token.Kind} {kinds : List Token.Kind} :
    Plain (kind :: kinds) ↔ kind.isComment = false ∧ Plain kinds := List.forall_mem_cons

@[simp] theorem plain_append {front back : List Token.Kind} :
    Plain (front ++ back) ↔ Plain front ∧ Plain back := List.forall_mem_append

@[simp] theorem plain_inParens {kinds : List Token.Kind} : Plain (inParens kinds) ↔ Plain kinds := by
  simp [inParens, Token.Kind.isComment]

@[simp] theorem plain_asOperand {node : Node} {kinds : List Token.Kind} :
    Plain (node.asOperand kinds) ↔ Plain kinds := by
  unfold asOperand
  split
  · exact plain_inParens
  · exact Iff.rfl

theorem plain_expressionKinds (names : Naming) (node : Node) : Plain (node.expressionKinds names) := by
  induction node using inductionOn with
  | step id direction var timing => cases timing <;> simp [expressionKinds, Token.Kind.isComment]
  | _ => simp_all [expressionKinds, Token.Kind.isComment]

theorem plain_statementsKinds (names : Naming) {body : List Node}
    (inner : ∀ n ∈ body, Plain (n.statementKinds names)) : Plain (statementsKinds names body) := by
  induction body with
  | nil => exact plain_nil
  | cons node rest ih =>
    rw [statementsKinds, plain_append]
    exact ⟨inner _ List.mem_cons_self, ih fun n member => inner n (List.mem_cons_of_mem _ member)⟩

theorem plain_innerKinds (names : Naming) {node : Node} (whole : Plain (node.statementKinds names)) :
    Plain (innerKinds names node) := by
  cases node with
  | block id body =>
    rw [statementKinds, plain_cons, plain_append] at whole
    exact whole.2.1
  | _ => exact plain_nil

theorem plain_casesKinds (names : Naming) {cases : List (Node × Node)}
    (inner : ∀ entry ∈ cases, Plain (entry.2.statementKinds names)) :
    Plain (casesKinds names cases) := by
  induction cases with
  | nil => exact plain_nil
  | cons entry rest ih =>
    obtain ⟨value, body⟩ := entry
    have first := plain_innerKinds names (inner _ List.mem_cons_self)
    have others := ih fun entry member => inner entry (List.mem_cons_of_mem _ member)
    simp [casesKinds, Token.Kind.isComment, plain_expressionKinds, first, others]

theorem plain_statementKinds (names : Naming) (node : Node) : Plain (node.statementKinds names) := by
  induction node using inductionOn with
  | block id body inner =>
    simp [statementKinds, Token.Kind.isComment, plain_statementsKinds names inner]
  | ifElse id cond thenPart elsePart _ ofThen ofElse =>
    cases elsePart with
    | none => simp [statementKinds, elseKinds, Token.Kind.isComment, plain_expressionKinds, ofThen]
    | some node =>
      have last := ofElse node rfl
      simp [statementKinds, elseKinds, Token.Kind.isComment, plain_expressionKinds, ofThen, last]
  | whileLoop id cond body _ ofBody =>
    simp [statementKinds, Token.Kind.isComment, plain_expressionKinds, ofBody]
  | doWhile id body cond ofBody _ =>
    simp [statementKinds, Token.Kind.isComment, plain_expressionKinds, ofBody]
  | switch id subject cases fallback _ ofCases ofFallback =>
    have entries := plain_casesKinds names fun entry member => (ofCases entry member).2
    cases fallback with
    | none =>
      simp [statementKinds, defaultKinds, Token.Kind.isComment, plain_expressionKinds, entries]
    | some body =>
      have last := plain_innerKinds names (ofFallback body rfl)
      simp [statementKinds, defaultKinds, Token.Kind.isComment, plain_expressionKinds, entries, last]
  | putChar id value _ => simp [statementKinds, Token.Kind.isComment, plain_expressionKinds]
  | _ =>
    rw [statementKinds_expression names rfl, plain_append]
    exact ⟨plain_expressionKinds names _, by simp [Token.Kind.isComment]⟩

/-! ### What can be written -/

mutual

/-- Whether a statement ends in an `if` that an `else` behind it would belong to. -/
def endsOpen : Node → Bool
  | ifElse _ _ _ elsePart => endsOpenElse elsePart
  | whileLoop _ _ body => body.endsOpen
  | _ => false

def endsOpenElse : Option Node → Bool
  | none => true
  | some node => node.endsOpen

end

/-- Bodies of cases are blocks, and no `else` can be taken for that of another `if`. -/
def Delimited : Node → Prop
  | ifElse _ _ thenPart (some _) => thenPart.endsOpen = false
  | switch _ _ cases fallback =>
    (∀ entry ∈ cases, entry.2.isBlock = true) ∧ ∀ body ∈ fallback, body.isBlock = true
  | _ => True

/-- A node that can be written where so many variables and functions are known. -/
structure Printable (vars functions : Nat) (node : Node) : Prop where
  shaped : node.Shaped
  delimited : node.Delimited
  declared : ∀ var ∈ node.usedVariable?, var.index < vars
  defined : ∀ func ∈ node.callee?, func.index < functions

instance (node : Node) : Decidable node.IsExpression :=
  inferInstanceAs (Decidable (∀ n ∈ node.preorder, n.isExpression = true))

instance : (node : Node) → Decidable node.Shaped
  | ifElse _ cond _ _ | whileLoop _ cond _ | doWhile _ _ cond =>
    inferInstanceAs (Decidable cond.IsExpression)
  | switch _ subject cases _ =>
    inferInstanceAs (Decidable (subject.IsExpression ∧ ∀ entry ∈ cases, entry.1.IsExpression))
  | assign _ _ _ value | putChar _ value => inferInstanceAs (Decidable value.IsExpression)
  | unary _ _ operand => inferInstanceAs (Decidable operand.IsExpression)
  | binary _ _ lhs rhs => inferInstanceAs (Decidable (lhs.IsExpression ∧ rhs.IsExpression))
  | block .. | access .. | integer .. | float .. | step .. | call .. => .isTrue trivial

instance : (node : Node) → Decidable node.Delimited
  | ifElse _ _ thenPart (some _) => inferInstanceAs (Decidable (thenPart.endsOpen = false))
  | ifElse _ _ _ none => .isTrue trivial
  | switch _ _ cases fallback =>
    inferInstanceAs (Decidable ((∀ entry ∈ cases, entry.2.isBlock = true) ∧
      ∀ body ∈ fallback, body.isBlock = true))
  | block .. | whileLoop .. | doWhile .. | assign .. | access .. | integer .. | float .. | unary ..
  | binary .. | step .. | call .. | putChar .. => .isTrue trivial

instance (vars functions : Nat) (node : Node) : Decidable (node.Printable vars functions) :=
  decidable_of_iff (node.Shaped ∧ node.Delimited ∧ (∀ var ∈ node.usedVariable?, var.index < vars) ∧
      ∀ func ∈ node.callee?, func.index < functions)
    ⟨fun ⟨a, b, c, d⟩ => ⟨a, b, c, d⟩, fun ⟨a, b, c, d⟩ => ⟨a, b, c, d⟩⟩

end Node

def Function.unnumbered (func : Function) : Function :=
  { func with body := func.body.map Node.unnumbered }

namespace Program

def naming (program : Program) : Naming where
  var id := (program.vars[id.index]?.map Variable.name).getD ""
  func id := (program.functions[id.index]?.map Function.name).getD ""

def variableKinds (var : Variable) : List Token.Kind :=
  [.ident "uint64", .ident var.name, .mark .semicolon]

def functionKinds (names : Naming) (func : Function) : List Token.Kind :=
  .ident "void" :: .ident func.name :: .mark .lparen :: .mark .rparen ::
    (func.body.map (Node.statementKinds names)).getD []

def kinds (program : Program) : List Token.Kind :=
  program.vars.flatMap variableKinds ++ program.functions.flatMap (functionKinds program.naming)

theorem plain_kinds (program : Program) : Node.Plain program.kinds := by
  rw [kinds, Node.plain_append]
  constructor
  · intro kind member
    obtain ⟨var, _, found⟩ := List.mem_flatMap.mp member
    have plain : Node.Plain (variableKinds var) := by simp [variableKinds, Token.Kind.isComment]
    exact plain kind found
  · intro kind member
    obtain ⟨func, _, found⟩ := List.mem_flatMap.mp member
    have plain : Node.Plain (functionKinds program.naming func) := by
      cases body : func.body with
      | none => simp [functionKinds, Token.Kind.isComment, body]
      | some node =>
        simp [functionKinds, Token.Kind.isComment, body, Node.plain_statementKinds]
    exact plain kind found

/-- A program whose tokens say all about it but the numbers of its nodes. -/
structure Printable (program : Program) : Prop where
  numbered : program.symbols.Numbered
  types : ∀ var ∈ program.vars, var.type = .uint64
  distinct : program.symbols.names.Nodup
  noTypes : ∀ name ∈ program.symbols.names, DataType.primitive? name = none
  /-- A function can call itself and the functions in front of it. -/
  bodies : ∀ func ∈ program.functions, ∃ body, func.body = some body ∧
    ∀ node ∈ body.preorder, node.Printable program.vars.length (func.id.index + 1)

def unnumbered (program : Program) : Program :=
  { program with functions := program.functions.map Function.unnumbered }

end Program

end IonLang
