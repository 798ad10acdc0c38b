import IonLang.Proofs.Grammar.Parsing
import IonLang.Proofs.Printing

/-!
# Trees are read back

The parser of each form reads what `Printing` writes for it and returns the tree that was written, up
to the numbers of its nodes. Nothing is said of the end of the file: a phrase is read in front of
whatever cannot be taken for a part of it.
-/

namespace IonLang.Grammar

open Node

variable {symbols : Symbols} {token : Token.Kind} {phrase rest more : List Token.Kind}

/-! ### Expressions -/

def Like (node found : Node) : Prop := found.unnumbered = node.unnumbered

def Closes (rest : List Token.Kind) : Prop := ∃ m ∈ closers, ∃ more, rest = .mark m :: more

def Continues (rest : List Token.Kind) : Prop :=
  ∃ m, (m ∈ operators ∨ m ∈ closers) ∧ ∃ more, rest = .mark m :: more

theorem Closes.continues (closes : Closes rest) : Continues rest := by
  obtain ⟨m, closer, more, rfl⟩ := closes
  exact ⟨m, .inr closer, more, rfl⟩

theorem continues_operator (op : BinaryOp) : Continues (.mark op.mark :: rest) := by
  refine ⟨op.mark, .inl ?_, rest, rfl⟩
  cases op <;> decide

theorem closes_cons {m : Mark} (closer : m ∈ closers) : Closes (.mark m :: rest) :=
  ⟨m, closer, rest, rfl⟩

/-- A node whose symbols are found under their names. -/
structure Readable (names : Naming) (symbols : Symbols) (node : Node) : Prop where
  shaped : node.Shaped
  delimited : node.Delimited
  vars : ∀ var, node.usedVariable? = some var →
    DataType.primitive? (names.var var) = none ∧ symbols.findVariable? (names.var var) = some var
  calls : ∀ func, node.callee? = some func →
    DataType.primitive? (names.func func) = none ∧ symbols.findFunction? (names.func func) = some func

section Expression

variable {names : Naming} {node : Node} {primary expression : Parser Node}

theorem parses_noOperator (closes : Closes rest) :
    Parses symbols (operatorTail primary) [] rest (· = []) := by
  obtain ⟨m, closer, more, rfl⟩ := closes
  obtain ⟨noOp, other⟩ := binaryOp?_of_closer m closer
  refine Loops.parses (Loops.done ?_)
  exact Parses.noOperator_bind rfl noOp (by simpa using other) (Parses.pure ⟨[], rfl, rfl⟩)

theorem parses_operator {op : BinaryOp} {Q : Node → Prop} (closes : Closes rest)
    (operand : Parses symbols primary phrase rest Q) :
    Parses symbols (operatorTail primary) (.mark op.mark :: phrase) rest
      fun pairs => ∃ node, pairs = [(op, node)] ∧ Q node := by
  obtain ⟨m, closer, more, rfl⟩ := closes
  obtain ⟨noOp, other⟩ := binaryOp?_of_closer m closer
  refine Loops.parses ?_
  rw [← List.append_nil (_ :: phrase)]
  refine Loops.again (List.cons_ne_nil _ _) ?_
  refine Parses.operator_bind (by simp) (binaryOp?_mark op) ?_
  refine operand.bind_last fun node holds => Parses.pure ⟨[(op, node)], rfl, ?_⟩
  refine Loops.done ?_
  exact Parses.noOperator_bind rfl noOp (by simpa using other)
    (Parses.pure ⟨_, rfl, node, rfl, holds⟩)

theorem parses_single {Q : Node → Prop} (closes : Closes rest)
    (only : Parses symbols primary phrase rest Q) :
    Parses symbols (expressionOf primary) phrase rest Q := by
  refine only.bind_last fun node holds => ?_
  refine (parses_noOperator closes).bind_last fun pairs nil => ?_
  subst nil
  exact Parses.pure holds

theorem parses_binary {id : Nat} {op : BinaryOp} {lhs rhs : Node}
    {left right : List Token.Kind} (closes : Closes rest)
    (first : Parses symbols primary left (.mark op.mark :: right ++ rest) (Like lhs))
    (second : Parses symbols primary right rest (Like rhs)) :
    Parses symbols (expressionOf primary) (left ++ .mark op.mark :: right) rest
      (Like (.binary id op lhs rhs)) := by
  refine first.bind fun a isLhs => ?_
  refine (parses_operator closes second).bind_last ?_
  rintro _ ⟨b, rfl, isRhs⟩
  have tree : OperatorTree.ofChain a [(op, b)] = .branch op (.leaf a) (.leaf b) := by
    simp [OperatorTree.ofChain, OperatorTree.extend, OperatorTree.close]
  rw [tree]
  show Parses symbols (build (.binary · op a b)) [] rest _
  refine Parses.build fun n => ?_
  rw [Like, unnumbered, unnumbered, isLhs, isRhs]

theorem parses_parens {Q : Node → Prop}
    (inner : Parses symbols expression phrase (.mark .rparen :: rest) Q) :
    Parses symbols (primaryOf expression primary) (inParens phrase) rest Q := by
  refine Parses.peekKind_bind rfl (Parses.skip_bind (by simp) ?_)
  refine inner.bind fun node holds => ?_
  exact Parses.expect_bind (Parses.pure holds)

theorem parses_unary {id : Nat} {op : UnaryOp} {operand : Node}
    (inner : Parses symbols primary phrase rest (Like operand)) :
    Parses symbols (primaryOf expression primary) (.mark op.mark :: phrase) rest
      (Like (.unary id op operand)) := by
  have unary : Parses symbols (unaryOf op primary) (.mark op.mark :: phrase) rest
      (Like (.unary id op operand)) := by
    refine Parses.skip_bind (by simp) (inner.bind_last fun node same => Parses.build fun n => ?_)
    rw [Like, unnumbered, unnumbered, same]
  cases op with
  | neg => exact Parses.peekKind_bind rfl unary
  | not => exact Parses.peekKind_bind rfl unary

/-- A name with a mark behind it begins no declaration. -/
theorem parses_name {n : String} {m : Mark} {Q : Node → Prop} (free : DataType.primitive? n = none)
    (head : phrase ++ rest = .mark m :: more)
    (next : Parses symbols (nameOf expression) (.ident n :: phrase) rest Q) :
    Parses symbols (primaryOf expression primary) (.ident n :: phrase) rest Q := by
  intro s here
  have kinds : s.kinds = .ident n :: .mark m :: more := by rw [here.kinds, List.cons_append, head]
  have noDeclaration : s.atDeclaration = false := by
    rw [atDeclaration_mark kinds, here.noType free, Bool.and_false]
  rw [primaryOf, peekKind_bind, here.kind]
  dsimp only
  rw [observe_bind, noDeclaration]
  exact next here

theorem parses_stepNode {id : Nat} {direction : Direction} {var : VarId} {timing : Timing} :
    Parses symbols (stepNode direction timing (some var)) [] rest
      (Like (.step id direction var timing)) := by
  show Parses symbols (build (.step · direction var timing)) [] rest _
  exact Parses.build fun n => rfl

theorem parses_call {id : Nat} {func : FuncId} {n : String} (free : DataType.primitive? n = none)
    (found : symbols.findFunction? n = some func) :
    Parses symbols (nameOf expression) [.ident n, .mark .lparen, .mark .rparen] rest
      (Like (.call id func)) := by
  refine Parses.name_bind fun pos => Parses.rejectTypeName_bind free ?_
  refine Parses.peekKind_bind rfl (Parses.skip_bind (by simp) (Parses.expect_bind ?_))
  exact (Parses.lookupFunction found).bind_first (Parses.build fun n => rfl)

theorem parses_stepAfter {id : Nat} {direction : Direction} {var : VarId} {n : String}
    (free : DataType.primitive? n = none) (found : symbols.findVariable? n = some var) :
    Parses symbols (nameOf expression) [.ident n, .mark direction.mark] rest
      (Like (.step id direction var .after)) := by
  refine Parses.name_bind fun pos => Parses.rejectTypeName_bind free ?_
  have last : Parses symbols (lookupVariable n pos >>= stepNode direction .after) [] rest
      (Like (.step id direction var .after)) :=
    (Parses.lookupVariable found).bind_first parses_stepNode
  cases direction with
  | up => exact Parses.peekKind_bind rfl (Parses.skip_bind (by simp) last)
  | down => exact Parses.peekKind_bind rfl (Parses.skip_bind (by simp) last)

theorem parses_stepBefore {id : Nat} {direction : Direction} {var : VarId} {n : String}
    (free : DataType.primitive? n = none) (found : symbols.findVariable? n = some var) :
    Parses symbols (primaryOf expression primary) [.mark direction.mark, .ident n] rest
      (Like (.step id direction var .before)) := by
  have stepped : Parses symbols (steppedVariable >>= stepNode direction .before) [.ident n] rest
      (Like (.step id direction var .before)) := by
    have looked : Parses symbols steppedVariable [.ident n] rest (· = some var) :=
      Parses.name_bind fun pos => Parses.rejectTypeName_bind free (Parses.lookupVariable found)
    refine looked.bind_last fun a same => ?_
    subst same
    exact parses_stepNode
  cases direction with
  | up => exact Parses.peekKind_bind rfl (Parses.skip_bind (by simp) stepped)
  | down => exact Parses.peekKind_bind rfl (Parses.skip_bind (by simp) stepped)

/-- A variable and what follows it. -/
theorem parses_variable {var : VarId} {n : String} {m : Mark} {Q : Node → Prop}
    (free : DataType.primitive? n = none) (found : symbols.findVariable? n = some var)
    (head : phrase ++ rest = .mark m :: more)
    (follows : (m ∈ operators ∨ m ∈ closers) ∨ m ∈ assignments)
    (next : Parses symbols (assignmentOf expression (some var)) phrase rest Q) :
    Parses symbols (nameOf expression) (.ident n :: phrase) rest Q := by
  obtain ⟨notParen, noStep⟩ := notParen_of_follow m follows
  refine Parses.name_bind fun pos => Parses.rejectTypeName_bind free ?_
  refine Parses.peekKind_bind head ?_
  split
  · next same => exact absurd (Token.Kind.mark.inj same) notParen
  · rw [noStep]
    exact (Parses.lookupVariable found).bind_first next

theorem parses_access {id : Nat} {var : VarId} (continues : Continues rest) :
    Parses symbols (assignmentOf expression (some var)) [] rest (Like (.access id var)) := by
  obtain ⟨m, follows, more, rfl⟩ := continues
  obtain ⟨noOp, other⟩ := assignOp?_of_follow m follows
  refine Parses.noOperator_bind rfl noOp (by simpa using other) ?_
  show Parses symbols (build (.access · var)) [] _ _
  exact Parses.build fun n => rfl

theorem parses_assign {id : Nat} {var : VarId} {op : AssignOp} {value : Node}
    (inner : Parses symbols expression phrase rest (Like value)) :
    Parses symbols (assignmentOf expression (some var)) (.mark op.mark :: phrase) rest
      (Like (.assign id var op value)) := by
  refine Parses.operator_bind (by simp) (assignOp?_mark op) ?_
  refine inner.bind_last fun node same => ?_
  show Parses symbols (build (.assign · var op node)) [] _ _
  refine Parses.build fun n => ?_
  rw [Like, unnumbered, unnumbered, same]

end Expression

section Trees

variable {names : Naming} {node : Node}

/-- What is written for an expression is read back, as a whole and as a part of another one. -/
structure ParsesBack (names : Naming) (symbols : Symbols) (node : Node) : Prop where
  whole : ∀ {depth rest}, (node.expressionKinds names).length ≤ depth → Closes rest →
    Parses symbols (expressionOf (primary depth)) (node.expressionKinds names) rest (Like node)
  part : ∀ {depth rest}, (node.operandKinds names).length ≤ depth → Continues rest →
    Parses symbols (primary depth) (node.operandKinds names) rest (Like node)

/-- An expression that needs no parentheses. -/
theorem ParsesBack.simple (single : node.isCompound = false) {first : Token.Kind}
    (kinds : node.expressionKinds names = first :: more)
    (reads : ∀ {depth rest}, (node.expressionKinds names).length ≤ depth + 1 → Continues rest →
      Parses symbols (primaryOf (expressionOf (primary depth)) (primary depth))
        (node.expressionKinds names) rest (Like node)) : ParsesBack names symbols node := by
  have part : ∀ {depth rest}, (node.expressionKinds names).length ≤ depth → Continues rest →
      Parses symbols (primary depth) (node.expressionKinds names) rest (Like node) := by
    intro depth rest enough continues
    cases depth with
    | zero =>
      rw [kinds] at enough
      cases enough
    | succ depth => exact reads enough continues
  refine ⟨fun enough closes => parses_single closes (part enough closes.continues), ?_⟩
  rw [operandKinds, asOperand, single]
  exact part

/-- An expression that stands in parentheses when it is a part. -/
theorem ParsesBack.compound (grouped : node.isCompound = true)
    (whole : ∀ {depth rest}, (node.expressionKinds names).length ≤ depth → Closes rest →
      Parses symbols (expressionOf (primary depth)) (node.expressionKinds names) rest (Like node)) :
    ParsesBack names symbols node := by
  refine ⟨whole, ?_⟩
  rw [operandKinds, asOperand, grouped]
  intro depth rest enough continues
  have length : (node.expressionKinds names).length + 2 ≤ depth := by
    simp only [if_true, inParens, List.length_cons, List.length_append, List.length_nil] at enough
    omega
  obtain ⟨depth, rfl⟩ : ∃ d, depth = d + 1 := Nat.exists_eq_succ_of_ne_zero (by omega)
  exact parses_parens (whole (by omega) (closes_cons (by decide)))

theorem parsesBack (node : Node) :
    node.IsExpression → (∀ n ∈ node.preorder, Readable names symbols n) →
    ParsesBack names symbols node := by
  induction node using inductionOn with
  | block | ifElse | whileLoop | doWhile | switch | putChar =>
    intro expression _
    cases expression _ (mem_preorder_self _)
  | integer id text =>
    intro _ _
    refine .simple rfl rfl fun _ _ => ?_
    exact Parses.peekKind_bind rfl (Parses.skip_bind (by simp) (Parses.build fun n => rfl))
  | float id text =>
    intro _ _
    refine .simple rfl rfl fun _ _ => ?_
    exact Parses.peekKind_bind rfl (Parses.skip_bind (by simp) (Parses.build fun n => rfl))
  | access id var =>
    intro _ readable
    obtain ⟨free, found⟩ := (readable _ (mem_preorder_self _)).vars var rfl
    refine .simple rfl rfl fun _ continues => ?_
    have ⟨m, follows, more, next⟩ := continues
    exact parses_name free next
      (parses_variable free found next (.inl follows) (parses_access continues))
  | call id func =>
    intro _ readable
    obtain ⟨free, found⟩ := (readable _ (mem_preorder_self _)).calls func rfl
    refine .simple rfl rfl fun _ _ => ?_
    exact parses_name free rfl (parses_call free found)
  | step id direction var timing =>
    intro _ readable
    obtain ⟨free, found⟩ := (readable _ (mem_preorder_self _)).vars var rfl
    cases timing with
    | before => exact .simple rfl rfl fun _ _ => parses_stepBefore free found
    | after => exact .simple rfl rfl fun _ _ => parses_name free rfl (parses_stepAfter free found)
  | unary id op operand ofOperand =>
    intro expression readable
    have inner := ofOperand (forall_child expression (by simp [children]))
      (forall_child readable (by simp [children]))
    refine .simple rfl rfl fun enough continues => ?_
    exact parses_unary (inner.part (Nat.le_of_succ_le_succ enough) continues)
  | assign id var op value ofValue =>
    intro expression readable
    obtain ⟨free, found⟩ := (readable _ (mem_preorder_self _)).vars var rfl
    have inner := ofValue (forall_child expression (by simp [children]))
      (forall_child readable (by simp [children]))
    have assignment : op.mark ∈ assignments := by cases op <;> decide
    -- An assignment takes all operators behind its value, so only a closing mark may follow it.
    refine .compound rfl fun {depth rest} enough closes => parses_single closes ?_
    rw [expressionKinds, List.length_cons, List.length_cons] at enough
    obtain ⟨depth, rfl⟩ : ∃ d, depth = d + 1 := Nat.exists_eq_succ_of_ne_zero (by omega)
    have length : (value.operandKinds names).length ≤ depth := by
      unfold operandKinds
      omega
    have last := parses_single closes (inner.part length closes.continues)
    exact parses_name free rfl (parses_variable free found rfl (.inr assignment) (parses_assign last))
  | binary id op lhs rhs ofLhs ofRhs =>
    intro expression readable
    have left := ofLhs (forall_child expression (by simp [children]))
      (forall_child readable (by simp [children]))
    have right := ofRhs (forall_child expression (by simp [children]))
      (forall_child readable (by simp [children]))
    refine .compound rfl fun enough closes => ?_
    rw [expressionKinds, List.length_append, List.length_cons] at enough
    refine parses_binary closes (left.part ?_ (continues_operator op)) (right.part ?_ closes.continues)
    · unfold operandKinds
      omega
    · unfold operandKinds
      omega

theorem parses_expression (value : node.IsExpression)
    (readable : ∀ n ∈ node.preorder, Readable names symbols n) (closes : Closes rest) :
    Parses symbols expression (node.expressionKinds names) rest (Like node) := by
  intro s here
  have enough : (node.expressionKinds names).length ≤ s.unread.length + 1 := by
    rw [here.length, List.length_append]
    omega
  exact (parsesBack node value readable).whole enough closes here

end Trees

/-! ### Statements -/

section Statements

variable {names : Naming} {node : Node} {statement : Parser (Option Node)}

/-- What follows a statement is not read as a part of it. -/
def Behind (node : Node) (rest : List Token.Kind) : Prop :=
  ∃ token more, rest = token :: more ∧ (node.endsOpen = true → token ≠ .keyword .elseWord)

def LikeSome (node : Node) (found : Option Node) : Prop := ∃ tree, found = some tree ∧ Like node tree

theorem behind_statements {last : List Token.Kind} {body : List Node} (shaped : ∀ n ∈ body, n.Shaped)
    (ends : ∃ token more, last = token :: more ∧ token ≠ .keyword .elseWord) :
    Behind node (statementsKinds names body ++ last) := by
  cases body with
  | nil =>
    obtain ⟨token, more, rfl, other⟩ := ends
    exact ⟨token, more, rfl, fun _ => other⟩
  | cons first others =>
    obtain ⟨token, more, same, starts, _⟩ := head_statementKinds names (shaped first List.mem_cons_self)
    refine ⟨token, _, by rw [statementsKinds, same, List.cons_append, List.cons_append], fun _ => ?_⟩
    rintro rfl
    cases starts

/-- A loop whose rounds read one statement each, up to the tokens that end it. -/
theorem loops_statements {step : List Node → Parser (ForInStep (List Node))} {last : List Token.Kind}
    {body : List Node} (shaped : ∀ n ∈ body, n.Shaped)
    (reads : ∀ n ∈ body, ∀ acc rest, Behind n rest →
      Parses symbols (step acc) (n.statementKinds names) rest fun round =>
        ∃ tree, round = .yield (acc ++ [tree]) ∧ Like n tree)
    (ends : ∃ token more, last ++ rest = token :: more ∧ token ≠ .keyword .elseWord)
    (stops : ∀ acc, Parses symbols (step acc) last rest (· = .done acc)) (acc : List Node) :
    Loops symbols step acc (statementsKinds names body ++ last) rest
      fun found => found.map unnumbered = acc.map unnumbered ++ body.map unnumbered := by
  induction body generalizing acc with
  | nil =>
    refine Loops.done ((stops acc).weaken ?_)
    rintro _ rfl
    exact ⟨acc, rfl, by simp⟩
  | cons first others ih =>
    have shapedOthers : ∀ n ∈ others, n.Shaped := fun n member =>
      shaped n (List.mem_cons_of_mem _ member)
    obtain ⟨token, more, head, _⟩ := head_statementKinds names (shaped first List.mem_cons_self)
    have behind : Behind first ((statementsKinds names others ++ last) ++ rest) := by
      rw [List.append_assoc]
      exact behind_statements shapedOthers ends
    rw [statementsKinds, List.append_assoc]
    refine Loops.again (by simp [head]) ((reads first List.mem_cons_self acc _ behind).weaken ?_)
    rintro _ ⟨tree, rfl, same⟩
    have looped := ih shapedOthers (fun n member => reads n (List.mem_cons_of_mem _ member))
      (acc ++ [tree])
    rw [List.map_append, List.map_singleton, same, List.append_assoc] at looped
    exact ⟨_, rfl, looped⟩

theorem parses_bracedBody {body : List Node} (shaped : ∀ n ∈ body, n.Shaped)
    (reads : ∀ n ∈ body, ∀ rest, Behind n rest →
      Parses symbols statement (n.statementKinds names) rest (LikeSome n)) :
    Parses symbols (bracedBody statement) (statementsKinds names body ++ [.mark .rcurly]) rest
      fun found => found.map unnumbered = body.map unnumbered := by
  refine Loops.parses (loops_statements shaped ?_ ⟨.mark .rcurly, rest, rfl, by simp⟩ ?_ [])
  · intro n member acc rest behind
    obtain ⟨token, more, head, starts, _⟩ := head_statementKinds names (shaped n member)
    refine Parses.peekKind_bind (by rw [head, List.cons_append]) ?_
    split
    · cases starts
    · cases starts
    · refine (reads n member rest behind).bind_last ?_
      rintro _ ⟨tree, rfl, same⟩
      exact Parses.pure ⟨tree, rfl, same⟩
  · intro acc
    exact Parses.peekKind_bind rfl (Parses.skip_bind (by simp) (Parses.pure rfl))

theorem parses_braces {id : Nat} {body : List Node} (shaped : ∀ n ∈ body, n.Shaped)
    (reads : ∀ n ∈ body, ∀ rest, Behind n rest →
      Parses symbols statement (n.statementKinds names) rest (LikeSome n)) :
    Parses symbols (blockOf statement) ((Node.block id body).statementKinds names) rest
      (Like (.block id body)) := by
  refine Parses.accept_bind (by simp) ((parses_bracedBody shaped reads).bind_last fun found same => ?_)
  refine Parses.build fun n => ?_
  rw [Like, unnumbered, unnumbered, unnumberedAll_eq, unnumberedAll_eq, same]

theorem parses_noBraces (shaped : node.Shaped) (single : node.isBlock = false)
    (reads : Parses symbols statement (node.statementKinds names) rest (LikeSome node)) :
    Parses symbols (blockOf statement) (node.statementKinds names) rest (Like node) := by
  obtain ⟨token, more, head, _, braced⟩ := head_statementKinds names shaped
  have noBrace : token ≠ .mark .lcurly := fun brace => by
    rw [braced brace] at single
    cases single
  refine Parses.refuse_bind (by rw [head, List.cons_append]) noBrace ?_
  refine reads.bind_last ?_
  rintro _ ⟨tree, rfl, same⟩
  exact Parses.pure same

/-- The statements of a case are read up to the next case or the closing brace. -/
theorem parses_caseBody {body : Node} (isBlock : body.isBlock = true)
    (shaped : ∀ n ∈ body.children, n.Shaped)
    (ends : ∃ token more, rest = token :: more ∧ endsCase token = true)
    (reads : ∀ n ∈ body.children, ∀ rest, Behind n rest →
      Parses symbols statement (n.statementKinds names) rest (LikeSome n)) :
    Parses symbols (caseBody statement) (innerKinds names body) rest (Like body) := by
  cases body with
  | block id body =>
    obtain ⟨token, more, next, stops⟩ := ends
    have ends : ∃ token more, [] ++ rest = token :: more ∧ token ≠ .keyword .elseWord := by
      refine ⟨token, more, next, ?_⟩
      rintro rfl
      cases stops
    refine Parses.bind_last (Q := fun found => found.map unnumbered = body.map unnumbered) ?_
      fun found same => Parses.build fun n => ?_
    · rw [innerKinds, ← List.append_nil (statementsKinds names body)]
      refine Loops.parses (loops_statements shaped ?_ ends ?_ [])
      · intro n member acc rest behind
        obtain ⟨first, others, head, starts, _⟩ := head_statementKinds names (shaped n member)
        have goesOn : endsCase first = false := by
          by_contra ending
          rw [not_startsStatement_of_endsCase (by simpa using ending)] at starts
          cases starts
        refine Parses.check_bind (by rw [head, List.cons_append]) ?_
        rw [goesOn]
        refine (reads n member rest behind).bind_last ?_
        rintro _ ⟨tree, rfl, same⟩
        exact Parses.pure ⟨tree, rfl, same⟩
      · intro acc
        refine Parses.check_bind next ?_
        rw [stops]
        exact Parses.pure rfl
    · rw [Like, unnumbered, unnumbered, unnumberedAll_eq, unnumberedAll_eq, same]
  | _ => cases isBlock

theorem parses_parenthesized {cond : Node} (value : cond.IsExpression)
    (readable : ∀ n ∈ cond.preorder, Readable names symbols n) :
    Parses symbols parenthesized (inParens (cond.expressionKinds names)) rest (Like cond) := by
  refine Parses.expect_bind ((parses_expression value readable (closes_cons (by decide))).bind ?_)
  exact fun inner same => Parses.expect_bind (Parses.pure same)

theorem parses_ifElse {id : Nat} {cond thenPart elsePart : Node} (value : cond.IsExpression)
    (readable : ∀ n ∈ cond.preorder, Readable names symbols n)
    (first : Parses symbols (blockOf statement) (thenPart.statementKinds names)
      (.keyword .elseWord :: elsePart.statementKinds names ++ rest) (Like thenPart))
    (second : Parses symbols (blockOf statement) (elsePart.statementKinds names) rest (Like elsePart)) :
    Parses symbols (ifOf statement) ((Node.ifElse id cond thenPart (some elsePart)).statementKinds names)
      rest (Like (.ifElse id cond thenPart (some elsePart))) := by
  refine Parses.skip_bind (by simp) ((parses_parenthesized value readable).bind fun c isCond => ?_)
  refine first.bind fun t isThen => Parses.accept_bind (by simp) ?_
  refine second.bind_last fun e isElse => Parses.build fun n => ?_
  simp only [Like, unnumbered, unnumberedOption] at isCond isThen isElse ⊢
  rw [isCond, isThen, isElse]

theorem parses_if {id : Nat} {cond thenPart : Node} (value : cond.IsExpression)
    (readable : ∀ n ∈ cond.preorder, Readable names symbols n)
    (first : Parses symbols (blockOf statement) (thenPart.statementKinds names) rest (Like thenPart))
    (next : rest = token :: more) (other : token ≠ .keyword .elseWord) :
    Parses symbols (ifOf statement) ((Node.ifElse id cond thenPart none).statementKinds names)
      rest (Like (.ifElse id cond thenPart none)) := by
  refine Parses.skip_bind (by simp) ((parses_parenthesized value readable).bind fun c isCond => ?_)
  refine first.bind fun t isThen => Parses.refuse_bind next other ?_
  show Parses symbols (build (.ifElse · c t none)) [] rest _
  refine Parses.build fun n => ?_
  simp only [Like, unnumbered, unnumberedOption] at isCond isThen ⊢
  rw [isCond, isThen]

theorem parses_while {id : Nat} {cond body : Node} (value : cond.IsExpression)
    (readable : ∀ n ∈ cond.preorder, Readable names symbols n)
    (inner : Parses symbols (blockOf statement) (body.statementKinds names) rest (Like body)) :
    Parses symbols (whileOf statement) ((Node.whileLoop id cond body).statementKinds names) rest
      (Like (.whileLoop id cond body)) := by
  refine Parses.skip_bind (by simp) ((parses_parenthesized value readable).bind fun c isCond => ?_)
  refine inner.bind_last fun b isBody => Parses.build fun n => ?_
  simp only [Like, unnumbered] at isCond isBody ⊢
  rw [isCond, isBody]

theorem parses_do {id : Nat} {body cond : Node} (value : cond.IsExpression)
    (readable : ∀ n ∈ cond.preorder, Readable names symbols n)
    (inner : Parses symbols (blockOf statement) (body.statementKinds names)
      (.keyword .whileWord :: (inParens (cond.expressionKinds names) ++ [.mark .semicolon]) ++ rest)
      (Like body)) :
    Parses symbols (doOf statement) ((Node.doWhile id body cond).statementKinds names) rest
      (Like (.doWhile id body cond)) := by
  refine Parses.skip_bind (by simp) (inner.bind fun b isBody => Parses.expectWord_bind ?_)
  refine (parses_parenthesized value readable).bind fun c isCond => Parses.expect_bind ?_
  refine Parses.build fun n => ?_
  simp only [Like, unnumbered] at isCond isBody ⊢
  rw [isCond, isBody]

theorem parses_putc {id : Nat} {value : Node} (isValue : value.IsExpression)
    (readable : ∀ n ∈ value.preorder, Readable names symbols n) :
    Parses symbols putc ((Node.putChar id value).statementKinds names) rest
      (Like (.putChar id value)) := by
  refine Parses.skip_bind (by simp) ((parses_parenthesized isValue readable).bind fun v same => ?_)
  refine Parses.expect_bind (Parses.build fun n => ?_)
  simp only [Like, unnumbered] at same ⊢
  rw [same]

def ReadsCase (names : Naming) (symbols : Symbols) (statement : Parser (Option Node)) (body : Node) :
    Prop :=
  ∀ rest, (∃ token more, rest = token :: more ∧ endsCase token = true) →
    Parses symbols (caseBody statement) (innerKinds names body) rest (Like body)

def LikeCases (cases : List (Node × Node)) (fallback : Option Node) (found : Cases) : Prop :=
  unnumberedCases found.cases = unnumberedCases cases ∧
    unnumberedOption found.fallback = unnumberedOption fallback

theorem loops_fallback {fallback : Option Node} (acc : List (Node × Node))
    (inner : ∀ body ∈ fallback, ReadsCase names symbols statement body) :
    Loops symbols (switchRound statement) ⟨acc, none⟩ (defaultKinds names fallback ++ [.mark .rcurly])
      rest (LikeCases acc fallback) := by
  cases fallback with
  | none =>
    refine Loops.done (Parses.peekKind_bind rfl (Parses.skip_bind (by simp) (Parses.pure ?_)))
    exact ⟨_, rfl, rfl, rfl⟩
  | some body =>
    refine Loops.again (List.cons_ne_nil _ _) ?_
    refine Parses.peekKind_bind rfl ?_
    refine Parses.bind_first (a := ()) (Parses.pure rfl) (Parses.skip_bind (by simp) (Parses.expect_bind ?_))
    refine (inner body rfl _ ⟨_, _, rfl, rfl⟩).bind_last fun b same => Parses.pure ⟨_, rfl, ?_⟩
    refine Loops.done (Parses.peekKind_bind rfl (Parses.skip_bind (by simp) (Parses.pure ?_)))
    refine ⟨_, rfl, rfl, ?_⟩
    simp only [unnumberedOption, Option.some.injEq]
    exact same

theorem loops_cases {cases : List (Node × Node)} {fallback : Option Node}
    (values : ∀ entry ∈ cases, entry.1.IsExpression)
    (readable : ∀ entry ∈ cases, ∀ n ∈ entry.1.preorder, Readable names symbols n)
    (bodies : ∀ entry ∈ cases, ReadsCase names symbols statement entry.2)
    (last : ∀ body ∈ fallback, ReadsCase names symbols statement body) (acc : List (Node × Node)) :
    Loops symbols (switchRound statement) ⟨acc, none⟩
      (casesKinds names cases ++ (defaultKinds names fallback ++ [.mark .rcurly])) rest
      (LikeCases (acc ++ cases) fallback) := by
  induction cases generalizing acc with
  | nil =>
    rw [List.append_nil]
    exact loops_fallback acc last
  | cons entry others ih =>
    obtain ⟨value, body⟩ := entry
    let tail := casesKinds names others ++ (defaultKinds names fallback ++ [.mark .rcurly])
    -- Behind the body of a case stands another case, the default or the closing brace.
    have ends : ∃ token more, tail ++ rest = token :: more ∧ endsCase token = true := by
      cases others with
      | cons => exact ⟨_, _, rfl, rfl⟩
      | nil =>
        cases fallback with
        | none => exact ⟨_, _, rfl, rfl⟩
        | some => exact ⟨_, _, rfl, rfl⟩
    have split : casesKinds names ((value, body) :: others) ++
        (defaultKinds names fallback ++ [.mark .rcurly]) =
          (.keyword .caseWord ::
            (value.expressionKinds names ++ .mark .colon :: innerKinds names body)) ++ tail := by
      simp [casesKinds, tail]
    rw [split]
    refine Loops.again (List.cons_ne_nil _ _) (Parses.peekKind_bind rfl ?_)
    refine Parses.bind_first (a := ()) (Parses.pure rfl) (Parses.skip_bind (by simp) ?_)
    refine (parses_expression (values _ List.mem_cons_self) (readable _ List.mem_cons_self)
      (closes_cons (by decide))).bind fun v isValue => Parses.expect_bind ?_
    refine (bodies _ List.mem_cons_self _ ends).bind_last fun b isBody => Parses.pure ⟨_, rfl, ?_⟩
    have looped := ih (fun entry member => values entry (List.mem_cons_of_mem _ member))
      (fun entry member => readable entry (List.mem_cons_of_mem _ member))
      (fun entry member => bodies entry (List.mem_cons_of_mem _ member)) (acc ++ [(v, b)])
    refine looped.weaken fun found same => ⟨same.1.trans ?_, same.2⟩
    simp only [Like] at isValue isBody
    simp [unnumberedCases_eq, isValue, isBody]

theorem parses_switch {id : Nat} {subject : Node} {cases : List (Node × Node)} {fallback : Option Node}
    (shaped : (Node.switch id subject cases fallback).Shaped)
    (readable : ∀ n ∈ (Node.switch id subject cases fallback).preorder, Readable names symbols n)
    (bodies : ∀ entry ∈ cases, ReadsCase names symbols statement entry.2)
    (last : ∀ body ∈ fallback, ReadsCase names symbols statement body) :
    Parses symbols (switchOf statement)
      ((Node.switch id subject cases fallback).statementKinds names) rest
      (Like (.switch id subject cases fallback)) := by
  have ofSubject : ∀ n ∈ subject.preorder, Readable names symbols n :=
    forall_child readable (by simp [children])
  refine Parses.skip_bind (by simp) ((parses_parenthesized shaped.1 ofSubject).bind fun sub isSubject => ?_)
  refine Parses.expect_bind ?_
  refine Parses.bind_last (Q := LikeCases cases fallback) ?_ fun found same => Parses.build fun n => ?_
  · refine Loops.parses (loops_cases shaped.2 ?_ bodies last [])
    exact fun entry member => forall_child readable (fst_mem_children member)
  · rw [Like, unnumbered, unnumbered, isSubject, same.1, same.2]

/-- What is written for a statement is read back: as a statement, as a block, and as a case. -/
structure StatementBack (names : Naming) (symbols : Symbols) (node : Node) : Prop where
  single : ∀ {depth rest}, (node.statementKinds names).length ≤ depth → Behind node rest →
    Parses symbols (Grammar.statement depth) (node.statementKinds names) rest (LikeSome node)
  grouped : ∀ {depth rest}, (node.statementKinds names).length ≤ depth → Behind node rest →
    Parses symbols (blockOf (Grammar.statement depth)) (node.statementKinds names) rest (Like node)
  bare : ∀ {depth}, node.isBlock = true → (innerKinds names node).length ≤ depth →
    ReadsCase names symbols (Grammar.statement depth) node

theorem StatementBack.of_form (shaped : node.Shaped) (single : node.isBlock = false)
    (reads : ∀ {depth rest}, (node.statementKinds names).length ≤ depth + 1 → Behind node rest →
      Parses symbols (statementOf (Grammar.statement depth)) (node.statementKinds names) rest
        (LikeSome node)) : StatementBack names symbols node := by
  have alone : ∀ {depth rest}, (node.statementKinds names).length ≤ depth → Behind node rest →
      Parses symbols (Grammar.statement depth) (node.statementKinds names) rest (LikeSome node) := by
    intro depth rest enough behind
    obtain ⟨token, more, head, _⟩ := head_statementKinds names shaped
    cases depth with
    | zero =>
      rw [head] at enough
      cases enough
    | succ depth => exact reads enough behind
  refine ⟨alone, fun enough behind => parses_noBraces shaped single (alone enough behind), ?_⟩
  intro depth isBlock
  rw [single] at isBlock
  cases isBlock

theorem length_le_statementsKinds {body : List Node} (member : node ∈ body) :
    (node.statementKinds names).length ≤ (statementsKinds names body).length := by
  induction body with
  | nil => cases member
  | cons first others ih =>
    rw [statementsKinds, List.length_append]
    rcases List.mem_cons.mp member with rfl | inside
    · omega
    · have := ih inside
      omega

theorem length_le_casesKinds {cases : List (Node × Node)} {entry : Node × Node}
    (member : entry ∈ cases) :
    (innerKinds names entry.2).length ≤ (casesKinds names cases).length := by
  induction cases with
  | nil => cases member
  | cons first others ih =>
    obtain ⟨value, body⟩ := first
    simp only [casesKinds, List.length_cons, List.length_append]
    rcases List.mem_cons.mp member with rfl | inside
    · show (innerKinds names body).length ≤ _
      omega
    · have := ih inside
      omega

theorem StatementBack.of_expression (value : node.isExpression = true)
    (readable : ∀ n ∈ node.preorder, Readable names symbols n) : StatementBack names symbols node := by
  have shaped := (readable node (mem_preorder_self node)).shaped
  have isExpression := isExpression_of_shaped value shaped
  have single : node.isBlock = false := by
    cases node with
    | block => cases value
    | _ => rfl
  refine .of_form shaped single fun {depth rest} _ _ => ?_
  obtain ⟨token, more, head, starts⟩ := head_expressionKinds names node isExpression
  rw [statementKinds_expression names value]
  refine Parses.peekKind_bind (by rw [head, List.cons_append, List.cons_append]) ?_
  -- No other form of a statement begins like an expression.
  split
  · cases starts
  · cases starts
  · cases starts
  · cases starts
  · cases starts
  · cases starts
  · cases starts
  · refine (parses_expression isExpression readable (closes_cons (by decide))).bind ?_
    exact fun tree same => Parses.expect_bind (Parses.pure ⟨tree, rfl, same⟩)

theorem statementBack (node : Node) :
    (∀ n ∈ node.preorder, Readable names symbols n) → StatementBack names symbols node := by
  induction node using inductionOn with
  | assign | access | integer | float | unary | binary | step | call =>
    exact fun readable => .of_expression rfl readable
  | block id body inner =>
    intro readable
    have shaped : ∀ n ∈ body, n.Shaped := fun n member =>
      (readable n (mem_preorder_of_child member (mem_preorder_self n))).shaped
    have reads {depth} (enough : (statementsKinds names body).length ≤ depth) : ∀ n ∈ body, ∀ rest,
        Behind n rest →
          Parses symbols (Grammar.statement depth) (n.statementKinds names) rest (LikeSome n) := by
      intro n member rest behind
      have length := Nat.le_trans (length_le_statementsKinds member) enough
      exact (inner n member (forall_child readable member)).single length behind
    refine ⟨fun {depth rest} enough _ => ?_, fun {depth rest} enough _ => ?_, ?_⟩
    · simp only [statementKinds, List.length_cons, List.length_append] at enough
      obtain ⟨depth, rfl⟩ : ∃ d, depth = d + 1 := Nat.exists_eq_succ_of_ne_zero (by omega)
      refine Parses.peekKind_bind rfl ((parses_braces shaped (reads (by omega))).map ?_)
      exact fun tree same => ⟨tree, rfl, same⟩
    · simp only [statementKinds, List.length_cons, List.length_append] at enough
      exact parses_braces shaped (reads (by omega))
    · exact fun isBlock enough rest ends => parses_caseBody isBlock shaped ends (reads enough)
  | ifElse id cond thenPart elsePart _ ofThen ofElse =>
    intro readable
    obtain ⟨shaped, delimited, _, _⟩ := readable _ (mem_preorder_self _)
    have ofCond : ∀ n ∈ cond.preorder, Readable names symbols n :=
      forall_child readable (by simp [children])
    have first := ofThen (forall_child readable (by simp [children]))
    refine .of_form shaped rfl fun {depth rest} enough behind => ?_
    obtain ⟨token, more, next, other⟩ := behind
    simp only [statementKinds, List.length_cons, List.length_append] at enough
    refine Parses.peekKind_bind rfl (Parses.map ?_ fun tree same => ⟨tree, rfl, same⟩)
    cases elsePart with
    | none =>
      have behind : Behind thenPart rest := ⟨token, more, next, fun _ => other rfl⟩
      exact parses_if shaped ofCond (first.grouped (by omega) behind) next (other rfl)
    | some elsePart =>
      -- The `else` behind the first part is not taken by an `if` in it, which would have to be open.
      have second := ofElse elsePart rfl (forall_child readable (by simp [children]))
      simp only [elseKinds, List.length_cons] at enough
      refine parses_ifElse shaped ofCond (first.grouped (by omega) ?_) (second.grouped (by omega) ?_)
      · refine ⟨_, _, rfl, fun opens => ?_⟩
        rw [show thenPart.endsOpen = false from delimited] at opens
        cases opens
      · exact ⟨token, more, next, other⟩
  | whileLoop id cond body _ ofBody =>
    intro readable
    have shaped := (readable _ (mem_preorder_self _)).shaped
    have inner := ofBody (forall_child readable (by simp [children]))
    refine .of_form shaped rfl fun {depth rest} enough behind => ?_
    simp only [statementKinds, List.length_cons, List.length_append] at enough
    refine Parses.peekKind_bind rfl (Parses.map ?_ fun tree same => ⟨tree, rfl, same⟩)
    exact parses_while shaped (forall_child readable (by simp [children]))
      (inner.grouped (by omega) behind)
  | doWhile id body cond ofBody _ =>
    intro readable
    have shaped := (readable _ (mem_preorder_self _)).shaped
    have inner := ofBody (forall_child readable (by simp [children]))
    refine .of_form shaped rfl fun {depth rest} enough behind => ?_
    simp only [statementKinds, List.length_cons, List.length_append] at enough
    refine Parses.peekKind_bind rfl (Parses.map ?_ fun tree same => ⟨tree, rfl, same⟩)
    exact parses_do shaped (forall_child readable (by simp [children]))
      (inner.grouped (by omega) ⟨_, _, rfl, fun _ => by simp⟩)
  | switch id subject cases fallback _ ofCases ofFallback =>
    intro readable
    obtain ⟨shaped, delimited, _, _⟩ := readable _ (mem_preorder_self _)
    refine .of_form shaped rfl fun {depth rest} enough behind => ?_
    simp only [statementKinds, List.length_cons, List.length_append] at enough
    refine Parses.peekKind_bind rfl (Parses.map ?_ fun tree same => ⟨tree, rfl, same⟩)
    refine parses_switch shaped readable ?_ ?_
    · intro entry member
      have length : (innerKinds names entry.2).length ≤ (casesKinds names cases).length :=
        length_le_casesKinds member
      exact ((ofCases entry member).2 (forall_child readable (snd_mem_children member))).bare
        (delimited.1 entry member) (by omega)
    · intro body member
      have length : (innerKinds names body).length ≤ (defaultKinds names fallback).length := by
        rw [member]
        exact Nat.le_add_right _ 2
      have child : body ∈ (Node.switch id subject cases fallback).children := by
        simp [children, Option.mem_def.mp member]
      exact (ofFallback body member (forall_child readable child)).bare (delimited.2 body member)
        (by omega)
  | putChar id value _ =>
    intro readable
    have shaped := (readable _ (mem_preorder_self _)).shaped
    refine .of_form shaped rfl fun {depth rest} enough behind => ?_
    refine Parses.peekKind_bind rfl (Parses.map ?_ fun tree same => ⟨tree, rfl, same⟩)
    exact parses_putc shaped (forall_child readable (by simp [children]))

theorem parses_block (readable : ∀ n ∈ node.preorder, Readable names symbols n)
    (behind : Behind node rest) :
    Parses symbols block (node.statementKinds names) rest (Like node) := by
  intro s here
  have enough : (node.statementKinds names).length ≤ s.unread.length + 1 := by
    rw [here.length, List.length_append]
    omega
  exact (statementBack node readable).grouped enough behind here

end Statements

end IonLang.Grammar
