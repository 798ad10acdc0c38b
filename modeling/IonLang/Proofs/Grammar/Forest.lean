import IonLang.Proofs.Grammar.Invariant
import IonLang.Proofs.Grammar.Run
import IonLang.Proofs.Node.Precedence
import IonLang.Proofs.SyntaxTree
import Mathlib.Data.List.Flatten
import Mathlib.Data.List.Perm.Subperm

/-!
# The trees that the rules build

`Built s s' trees` says of trees that were built between two states of a parse that their nodes
have numbers of their own, that every symbol they refer to has been declared, that expressions
stand where expressions belong, and that their integers were read from the tokens. `block_built`
shows it of every block, whatever was reported on the way.
-/

namespace IonLang

namespace Node

def isExpression : Node → Bool
  | assign .. | access .. | integer .. | float .. | unary .. | binary .. | step .. | call .. => true
  | block .. | ifElse .. | whileLoop .. | doWhile .. | switch .. | putChar .. => false

def IsExpression (node : Node) : Prop := ∀ n ∈ node.preorder, n.isExpression = true

/-- The symbol that a node refers to has been declared. -/
def Scoped (symbols : Symbols) : Node → Prop
  | assign _ var _ _ | access _ var | step _ _ var _ => ∃ known ∈ symbols.vars, known.id = var
  | call _ func => ∃ known ∈ symbols.functions, known.id = func
  | _ => True

theorem Scoped.mono {symbols others : Symbols} {node : Node} (resolved : node.Scoped symbols)
    (vars : ∀ known ∈ symbols.vars, ∃ other ∈ others.vars, other.id = known.id)
    (functions : ∀ known ∈ symbols.functions, ∃ other ∈ others.functions, other.id = known.id) :
    node.Scoped others := by
  have var : ∀ id, (∃ known ∈ symbols.vars, known.id = id) → ∃ other ∈ others.vars, other.id = id := by
    rintro id ⟨known, member, rfl⟩
    exact vars known member
  cases node with
  | assign id target op value => exact var target resolved
  | access id target => exact var target resolved
  | step id direction target timing => exact var target resolved
  | call id func =>
    obtain ⟨known, member, same⟩ := resolved
    exact same ▸ functions known member
  | _ => trivial

/-- The parts of a node from which a value is taken are expressions. -/
def Shaped : Node → Prop
  | ifElse _ cond _ _ | whileLoop _ cond _ | doWhile _ _ cond => cond.IsExpression
  | switch _ subject cases _ => subject.IsExpression ∧ ∀ entry ∈ cases, entry.1.IsExpression
  | assign _ _ _ value | putChar _ value => value.IsExpression
  | unary _ _ operand => operand.IsExpression
  | binary _ _ lhs rhs => lhs.IsExpression ∧ rhs.IsExpression
  | block .. | access .. | integer .. | float .. | step .. | call .. => True

theorem isExpression_of_children {node : Node} (here : node.isExpression = true)
    (below : ∀ child ∈ node.children, child.IsExpression) : node.IsExpression := by
  intro n member
  rw [preorder_eq] at member
  rcases List.mem_cons.mp member with rfl | inside
  · exact here
  · obtain ⟨child, found, inside⟩ := mem_forest.mp inside
    exact below child found n inside

end Node

namespace OperatorTree

variable {α : Type}

def leaves : OperatorTree α → List α
  | leaf operand => [operand]
  | branch _ lhs rhs => lhs.leaves ++ rhs.leaves

theorem leaves_eq (tree : OperatorTree α) :
    tree.leaves = tree.reading.1 :: tree.reading.2.map Prod.snd := by
  induction tree with
  | leaf operand => rfl
  | branch op lhs rhs left right => simp [leaves, reading, Chain.join, left, right]

/-- The tree of a sequence has the operands of the sequence, in order. -/
theorem leaves_ofChain (first : α) (rest : List (BinaryOp × α)) :
    (ofChain first rest).leaves = first :: rest.map Prod.snd := by
  rw [leaves_eq, reading_ofChain]

end OperatorTree

namespace Grammar

open Node (forest)

/-! ### Growth of the state inside a function -/

/-- What statements leave alone and what they only add to. -/
structure Grows (s s' : State) : Prop where
  unread : s'.unread <:+ s.unread
  errors : s.errors <+: s'.errors
  nodes : s.nodes ≤ s'.nodes
  vars : s.symbols.vars <+: s'.symbols.vars
  functions : s'.symbols.functions = s.symbols.functions
  types : s'.types = s.types

theorem next_unread (s : State) : s.next.2.unread <:+ s.unread := by
  unfold State.next
  split
  · exact List.suffix_refl _
  · next token rest tokens =>
    split
    · exact List.suffix_refl _
    · rw [tokens]; exact List.suffix_cons token rest

theorem declareVariable_eq_ok {symbols symbols' : Symbols} {name : String} {type : DataType}
    {pos : Position} {var : VarId}
    (h : symbols.declareVariable name type pos = .ok (var, symbols')) :
    symbols.isDeclared name = false ∧ var = ⟨symbols.vars.length⟩ ∧
      symbols' = { symbols with vars := symbols.vars ++ [⟨var, name, type⟩] } := by
  unfold Symbols.declareVariable at h
  split at h
  · cases h
  · next free => cases h; exact ⟨by simpa using free, rfl, rfl⟩

theorem grows : StepRelation Grows where
  refl s := ⟨List.suffix_refl _, List.prefix_refl _, Nat.le_refl _, List.prefix_refl _, rfl, rfl⟩
  trans first second :=
    ⟨second.unread.trans first.unread, first.errors.trans second.errors,
      Nat.le_trans first.nodes second.nodes, first.vars.trans second.vars,
      second.functions.trans first.functions, second.types.trans first.types⟩
  next s := by
    obtain ⟨errors, nodes, symbols, types⟩ := next_frame s
    exact ⟨next_unread s, errors ▸ List.prefix_refl _, nodes ▸ Nat.le_refl _,
      symbols ▸ List.prefix_refl _, by rw [symbols], types⟩
  report s diagnostic _ :=
    ⟨List.suffix_refl _, List.prefix_append _ _, Nat.le_refl _, List.prefix_refl _, rfl, rfl⟩
  number s :=
    ⟨List.suffix_refl _, List.prefix_refl _, Nat.le_succ _, List.prefix_refl _, rfl, rfl⟩
  enter s name type pos var symbols declared := by
    obtain ⟨_, _, rfl⟩ := declareVariable_eq_ok declared
    exact ⟨List.suffix_refl _, List.prefix_refl _, Nat.le_refl _, List.prefix_append _ _, rfl, rfl⟩

theorem Scoped.grow {s s' : State} (growth : Grows s s') {node : Node}
    (resolved : node.Scoped s.symbols) : node.Scoped s'.symbols :=
  resolved.mono (fun known member => ⟨known, growth.vars.subset member, rfl⟩)
    (fun known member => ⟨known, growth.functions ▸ member, rfl⟩)

/-! ### Trees built between two states -/

/-- Trees that were built between the states `s` and `s'`. -/
structure Built (s s' : State) (trees : List Node) : Prop where
  growth : Grows s s'
  distinct : ((forest trees).map Node.id).Nodup
  range : ∀ n ∈ forest trees, s.nodes ≤ n.id ∧ n.id < s'.nodes
  ordered : ∀ n ∈ forest trees, ∀ inner ∈ forest n.children, inner.id < n.id
  resolved : ∀ n ∈ forest trees, n.Scoped s'.symbols
  shaped : ∀ n ∈ forest trees, n.Shaped
  literal : ∀ id text, .integer id text ∈ forest trees →
    text = "0" ∨ ∃ token ∈ s.unread, token.kind = .integer text

namespace Built

variable {s s₁ s₂ : State} {trees front back : List Node}

theorem nil (growth : Grows s s₁) : Built s s₁ [] where
  growth := growth
  distinct := by simp
  range := by simp
  ordered := by simp
  resolved := by simp
  shaped := by simp
  literal := by simp

theorem append (first : Built s s₁ front) (second : Built s₁ s₂ back) :
    Built s s₂ (front ++ back) where
  growth := grows.trans first.growth second.growth
  distinct := by
    rw [Node.forest_append, List.map_append, List.nodup_append]
    refine ⟨first.distinct, second.distinct, ?_⟩
    -- The numbers of the first trees lie below those of the second ones.
    intro a inFront b inBack
    obtain ⟨n, member, rfl⟩ := List.mem_map.mp inFront
    obtain ⟨k, other, rfl⟩ := List.mem_map.mp inBack
    have := (first.range n member).2
    have := (second.range k other).1
    omega
  range n member := by
    have := first.growth.nodes
    have := second.growth.nodes
    rw [Node.forest_append] at member
    rcases List.mem_append.mp member with early | late
    · have := first.range n early
      omega
    · have := second.range n late
      omega
  ordered n member := by
    rw [Node.forest_append] at member
    exact (List.mem_append.mp member).elim (first.ordered n) (second.ordered n)
  resolved n member := by
    rw [Node.forest_append] at member
    exact (List.mem_append.mp member).elim
      (fun early => Scoped.grow second.growth (first.resolved n early)) (second.resolved n)
  shaped n member := by
    rw [Node.forest_append] at member
    exact (List.mem_append.mp member).elim (first.shaped n) (second.shaped n)
  literal id text member := by
    rw [Node.forest_append] at member
    rcases List.mem_append.mp member with early | late
    · exact first.literal id text early
    · refine (second.literal id text late).imp_right ?_
      rintro ⟨token, unread, kind⟩
      exact ⟨token, first.growth.unread.subset unread, kind⟩

theorem after (growth : Grows s s₁) (built : Built s₁ s₂ trees) : Built s s₂ trees :=
  (nil growth).append built

theorem before (built : Built s s₁ trees) (growth : Grows s₁ s₂) : Built s s₂ trees := by
  simpa using built.append (nil growth)

/-- Trees may be left out and reordered. -/
theorem subperm (built : Built s s₁ trees) {kept : List Node} (part : kept.Subperm trees) :
    Built s s₁ kept := by
  obtain ⟨order, same, inside⟩ := part
  have nodes : (forest kept).Perm (forest order) := (same.flatMap_right _).symm
  have sub : (forest order).Sublist (forest trees) := by
    simp only [forest, List.flatMap_def]
    exact (inside.map Node.preorder).flatten
  have subset : ∀ {n}, n ∈ forest kept → n ∈ forest trees := fun member =>
    sub.subset (nodes.mem_iff.mp member)
  exact {
    growth := built.growth
    distinct := (nodes.map Node.id).nodup_iff.mpr (built.distinct.sublist (sub.map Node.id))
    range := fun n member => built.range n (subset member)
    ordered := fun n member => built.ordered n (subset member)
    resolved := fun n member => built.resolved n (subset member)
    shaped := fun n member => built.shaped n (subset member)
    literal := fun id text member => built.literal id text (subset member) }

/-- A new node over trees that stand side by side takes their place. -/
theorem group (front : List Node) {parts : List Node} (back : List Node)
    (built : Built s s₁ (front ++ parts ++ back)) (node : Node)
    (number : node.id = s₁.nodes) (children : node.children = parts)
    (resolved : node.Scoped s₁.symbols) (shaped : node.Shaped)
    (literal : ∀ id text, node ≠ .integer id text) :
    Built s { s₁ with nodes := s₁.nodes + 1 } (front ++ [node] ++ back) := by
  have nodes : (forest (front ++ [node] ++ back)).Perm
      (node :: forest (front ++ parts ++ back)) := by
    simp only [Node.forest_append, Node.forest_cons, Node.preorder_eq node, children,
      Node.forest_nil, List.append_assoc, List.cons_append]
    exact List.perm_middle
  have cases : ∀ {n}, n ∈ forest (front ++ [node] ++ back) →
      n = node ∨ n ∈ forest (front ++ parts ++ back) := fun member =>
    List.mem_cons.mp (nodes.mem_iff.mp member)
  have below : ∀ n ∈ forest (front ++ parts ++ back), n.id < node.id := fun n member => by
    rw [number]
    exact (built.range n member).2
  constructor
  · exact grows.trans built.growth (grows.number s₁)
  · refine (nodes.map Node.id).nodup_iff.mpr (List.nodup_cons.mpr ⟨?_, built.distinct⟩)
    intro again
    obtain ⟨n, member, same⟩ := List.mem_map.mp again
    exact absurd same (Nat.ne_of_lt (below n member))
  · intro n member
    show s.nodes ≤ n.id ∧ n.id < s₁.nodes + 1
    rcases cases member with rfl | old
    · have := built.growth.nodes
      omega
    · have := built.range n old
      omega
  · intro n member inner inside
    rcases cases member with rfl | old
    · rw [children] at inside
      exact below inner (by simp [inside])
    · exact built.ordered n old inner inside
  · intro n member
    rcases cases member with rfl | old
    · exact resolved
    · exact built.resolved n old
  · intro n member
    rcases cases member with rfl | old
    · exact shaped
    · exact built.shaped n old
  · intro id text member
    rcases cases member with same | old
    · exact absurd same.symm (literal id text)
    · exact built.literal id text old

/-- A new node over all trees. -/
theorem build (built : Built s s₁ trees) {make : Nat → Node} {node : Node}
    (h : Grammar.build make s₁ = .ok node s₂) (number : (make s₁.nodes).id = s₁.nodes)
    (children : (make s₁.nodes).children = trees) (resolved : (make s₁.nodes).Scoped s₁.symbols)
    (shaped : (make s₁.nodes).Shaped) (literal : ∀ id text, make s₁.nodes ≠ .integer id text) :
    Built s s₂ [node] := by
  cases h
  simpa using group [] [] (by simpa using built) (make s₁.nodes) number children resolved shaped
    literal

/-- A new integer whose text comes from a token or is that of the placeholder. -/
theorem integer {text : String} {node : Node} (growth : Grows s s₁)
    (h : Grammar.build (.integer · text) s₁ = .ok node s₂)
    (source : text = "0" ∨ ∃ token ∈ s.unread, token.kind = .integer text) :
    Built s s₂ [node] ∧ node.IsExpression := by
  cases h
  refine ⟨⟨grows.trans growth (grows.number s₁), ?_, ?_, ?_, ?_, ?_, ?_⟩, ?_⟩
  all_goals simp [Node.forest, Node.preorder, Node.id, Node.children, Node.Scoped, Node.Shaped,
    Node.IsExpression, Node.isExpression]
  · exact growth.nodes
  · exact source

end Built

/-! ### Expressions -/

theorem placeholder_built {s s' : State} {node : Node} (h : placeholder s = .ok node s') :
    Built s s' [node] ∧ node.IsExpression :=
  Built.integer (grows.refl s) h (.inl rfl)

theorem findVariable?_mem {symbols : Symbols} {name : String} {var : VarId}
    (found : symbols.findVariable? name = some var) : ∃ known ∈ symbols.vars, known.id = var := by
  obtain ⟨known, first, same⟩ := Option.map_eq_some_iff.mp found
  exact ⟨known, List.mem_of_find?_eq_some first, same⟩

theorem findFunction?_mem {symbols : Symbols} {name : String} {func : FuncId}
    (found : symbols.findFunction? name = some func) :
    ∃ known ∈ symbols.functions, known.id = func := by
  obtain ⟨known, first, same⟩ := Option.map_eq_some_iff.mp found
  exact ⟨known, List.mem_of_find?_eq_some first, same⟩

def Known (s : State) (var : Option VarId) : Prop :=
  ∀ id, var = some id → ∃ known ∈ s.symbols.vars, known.id = id

theorem lookupVariable_known {s s' : State} {name : String} {pos : Position} {var : Option VarId}
    (h : lookupVariable name pos s = .ok var s') : Known s' var := by
  rintro id rfl
  obtain ⟨found, rfl⟩ := lookupVariable_ok h
  exact findVariable?_mem found.symm

theorem lookupFunction_known {s s' : State} {name : String} {pos : Position} {func : FuncId}
    (h : lookupFunction name pos s = .ok (some func) s') :
    ∃ known ∈ s'.symbols.functions, known.id = func := by
  obtain ⟨found, rfl⟩ := lookupFunction_ok h
  exact findFunction?_mem found.symm

theorem declareVariable_known {s s' : State} {name : String} {type : DataType} {pos : Position}
    {var : Option VarId} (h : declareVariable name type pos s = .ok var s') : Known s' var := by
  rintro id rfl
  rcases declare_ok (declareVariable_ok h) with ⟨found, symbols, declared, same, rfl⟩ | ⟨_, _, no, _⟩
  · cases same
    obtain ⟨_, _, rfl⟩ := declareVariable_eq_ok declared
    exact ⟨_, List.mem_append_right _ List.mem_cons_self, rfl⟩
  · cases no

theorem steppedVariable_known {s s' : State} {var : Option VarId}
    (h : steppedVariable s = .ok var s') : Known s' var := by
  obtain ⟨found, s₁, _, h⟩ := bind_ok h
  obtain ⟨rejected, s₂, _, h⟩ := bind_ok h
  split at h
  · rintro id rfl; cases h
  · exact lookupVariable_known h

theorem accessNode_built {s s' : State} {var : Option VarId} {node : Node} (known : Known s var)
    (h : accessNode var s = .ok node s') : Built s s' [node] ∧ node.IsExpression := by
  cases var with
  | none => exact placeholder_built h
  | some id =>
    change build (.access · id) s = .ok node s' at h
    refine ⟨(Built.nil (grows.refl s)).build h rfl rfl (known id rfl) trivial nofun, ?_⟩
    cases h
    exact Node.isExpression_of_children rfl nofun

theorem stepNode_built {s s' : State} {direction : Direction} {timing : Timing}
    {var : Option VarId} {node : Node} (known : Known s var)
    (h : stepNode direction timing var s = .ok node s') : Built s s' [node] ∧ node.IsExpression := by
  cases var with
  | none => exact placeholder_built h
  | some id =>
    change build (.step · direction id timing) s = .ok node s' at h
    refine ⟨(Built.nil (grows.refl s)).build h rfl rfl (known id rfl) trivial nofun, ?_⟩
    cases h
    exact Node.isExpression_of_children rfl nofun

theorem assignNode_built {s s₁ s' : State} {op : AssignOp} {value node : Node}
    {var : Option VarId} (known : Known s₁ var) (built : Built s s₁ [value])
    (expr : value.IsExpression) (h : assignNode op value var s₁ = .ok node s') :
    Built s s' [node] ∧ node.IsExpression := by
  cases var with
  | none => cases h; exact ⟨built, expr⟩
  | some id =>
    change build (.assign · id op value) s₁ = .ok node s' at h
    refine ⟨built.build h rfl rfl (known id rfl) expr nofun, ?_⟩
    cases h
    exact Node.isExpression_of_children rfl (by simpa [Node.children] using expr)

def BuildsExpression (p : Parser Node) : Prop :=
  ∀ s node s', p s = .ok node s' → Built s s' [node] ∧ node.IsExpression

theorem Known.mono {s s' : State} {var : Option VarId} (known : Known s var) (growth : Grows s s') :
    Known s' var := by
  intro id same
  obtain ⟨found, member, number⟩ := known id same
  exact ⟨found, growth.vars.subset member, number⟩

theorem assignmentOf_built {expression : Parser Node} (builds : BuildsExpression expression)
    {s s' : State} {var : Option VarId} {node : Node} (known : Known s var)
    (h : assignmentOf expression var s = .ok node s') : Built s s' [node] ∧ node.IsExpression := by
  obtain ⟨op, s₁, read, h⟩ := bind_ok h
  have growth := (grows.operatorOr _ _ _).of_ok read
  split at h
  · obtain ⟨value, s₂, valueRead, h⟩ := bind_ok h
    obtain ⟨built, expr⟩ := builds _ _ _ valueRead
    exact assignNode_built (known.mono (grows.trans growth built.growth)) (built.after growth) expr h
  · obtain ⟨built, expr⟩ := accessNode_built (known.mono growth) h
    exact ⟨built.after growth, expr⟩

theorem declarationOf_built {expression : Parser Node} (builds : BuildsExpression expression) :
    BuildsExpression (declarationOf expression) := by
  intro s node s' h
  obtain ⟨type, s₁, typeRead, h⟩ := bind_ok h
  obtain ⟨found, s₂, nameRead, h⟩ := bind_ok h
  obtain ⟨var, s₃, declared, h⟩ := bind_ok h
  have growth := grows.trans (grows.typeName.of_ok typeRead)
    (grows.trans (grows.ident.of_ok nameRead) ((grows.declareVariable _ _ _).of_ok declared))
  obtain ⟨built, expr⟩ := assignmentOf_built builds (declareVariable_known declared) h
  exact ⟨built.after growth, expr⟩

theorem nameOf_built {expression : Parser Node} (builds : BuildsExpression expression) :
    BuildsExpression (nameOf expression) := by
  intro s node s' h
  obtain ⟨found, s₁, nameRead, h⟩ := bind_ok h
  obtain ⟨rejected, s₂, checked, h⟩ := bind_ok h
  have growth := grows.trans (grows.name.of_ok nameRead)
    ((grows.rejectTypeName _ _).of_ok checked)
  split at h
  · obtain ⟨built, expr⟩ := placeholder_built h
    exact ⟨built.after growth, expr⟩
  obtain ⟨kind, next, h⟩ := peekKind_ok h
  split at h
  · -- A call.
    obtain ⟨_, s₃, skipped, h⟩ := bind_ok h
    obtain ⟨_, s₄, closed, h⟩ := bind_ok h
    obtain ⟨func, s₅, looked, h⟩ := bind_ok h
    have growth := grows.trans growth (grows.trans (grows.skip.of_ok skipped)
      (grows.trans ((grows.expect _).of_ok closed) ((grows.lookupFunction _ _).of_ok looked)))
    cases func with
    | none =>
      obtain ⟨built, expr⟩ := placeholder_built h
      exact ⟨built.after growth, expr⟩
    | some id =>
      refine ⟨(Built.nil growth).build h rfl rfl (lookupFunction_known looked) trivial nofun, ?_⟩
      cases h
      exact Node.isExpression_of_children rfl nofun
  · generalize direction? kind = direction at h
    split at h
    · -- A step behind the name.
      obtain ⟨_, s₃, skipped, h⟩ := bind_ok h
      obtain ⟨var, s₄, looked, h⟩ := bind_ok h
      have growth := grows.trans growth (grows.trans (grows.skip.of_ok skipped)
        ((grows.lookupVariable _ _).of_ok looked))
      obtain ⟨built, expr⟩ := stepNode_built (lookupVariable_known looked) h
      exact ⟨built.after growth, expr⟩
    · obtain ⟨var, s₃, looked, h⟩ := bind_ok h
      have growth := grows.trans growth ((grows.lookupVariable _ _).of_ok looked)
      obtain ⟨built, expr⟩ := assignmentOf_built builds (lookupVariable_known looked) h
      exact ⟨built.after growth, expr⟩

theorem unaryOf_built {op : UnaryOp} {primary : Parser Node} (builds : BuildsExpression primary) :
    BuildsExpression (unaryOf op primary) := by
  intro s node s' h
  obtain ⟨_, s₁, skipped, h⟩ := bind_ok h
  obtain ⟨operand, s₂, read, h⟩ := bind_ok h
  obtain ⟨built, expr⟩ := builds _ _ _ read
  refine ⟨(built.after (grows.skip.of_ok skipped)).build h rfl rfl trivial expr nofun, ?_⟩
  cases h
  exact Node.isExpression_of_children rfl (by simpa [Node.children] using expr)

/-- A step in front of its name. -/
theorem leadingStep_built {direction : Direction} :
    BuildsExpression (do skip; stepNode direction .before (← steppedVariable)) := by
  intro s node s' h
  obtain ⟨_, s₁, skipped, h⟩ := bind_ok h
  obtain ⟨var, s₂, read, h⟩ := bind_ok h
  obtain ⟨built, expr⟩ := stepNode_built (steppedVariable_known read) h
  exact ⟨built.after (grows.trans (grows.skip.of_ok skipped) (grows.steppedVariable.of_ok read)), expr⟩

theorem primaryOf_built {expression primary : Parser Node} (wide : BuildsExpression expression)
    (narrow : BuildsExpression primary) : BuildsExpression (primaryOf expression primary) := by
  intro s node s' h
  obtain ⟨kind, next, h⟩ := peekKind_ok h
  split at h
  · -- An expression in parentheses.
    obtain ⟨_, s₁, skipped, h⟩ := bind_ok h
    obtain ⟨inner, s₂, read, h⟩ := bind_ok h
    obtain ⟨_, s₃, closed, h⟩ := bind_ok h
    obtain ⟨built, expr⟩ := wide _ _ _ read
    cases h
    exact ⟨(built.after (grows.skip.of_ok skipped)).before ((grows.expect _).of_ok closed), expr⟩
  · exact unaryOf_built narrow _ _ _ h
  · exact unaryOf_built narrow _ _ _ h
  · exact leadingStep_built _ _ _ h
  · exact leadingStep_built _ _ _ h
  · obtain ⟨token, rest, tokens, kind⟩ := unread_of_kind next nofun
    obtain ⟨_, s₁, skipped, h⟩ := bind_ok h
    exact Built.integer (grows.skip.of_ok skipped) h (.inr ⟨token, by simp [tokens], kind⟩)
  · obtain ⟨_, s₁, skipped, h⟩ := bind_ok h
    refine ⟨(Built.nil (grows.skip.of_ok skipped)).build h rfl rfl trivial trivial nofun, ?_⟩
    cases h
    exact Node.isExpression_of_children rfl nofun
  · rw [observe_bind] at h
    split at h
    · exact declarationOf_built wide _ _ _ h
    · exact nameOf_built wide _ _ _ h
  · exact absurd h unexpected_ne_ok

/-- The operators of a tree are numbered behind its operands, whatever stands beside it. -/
theorem buildTree_built (tree : OperatorTree Node) {s s₁ s' : State} (front back : List Node)
    {node : Node} (built : Built s s₁ (front ++ tree.leaves ++ back))
    (exprs : ∀ operand ∈ tree.leaves, operand.IsExpression) (h : buildTree tree s₁ = .ok node s') :
    Built s s' (front ++ [node] ++ back) ∧ node.IsExpression := by
  induction tree generalizing s₁ s' front back node with
  | leaf operand => cases h; exact ⟨built, exprs _ List.mem_cons_self⟩
  | branch op lhs rhs left right =>
    obtain ⟨first, s₂, leftBuilt, h⟩ := bind_ok h
    obtain ⟨second, s₃, rightBuilt, h⟩ := bind_ok h
    obtain ⟨built, leftExpr⟩ := left front (rhs.leaves ++ back)
      (by simpa [OperatorTree.leaves] using built)
      (fun operand member => exprs operand (List.mem_append_left _ member)) leftBuilt
    obtain ⟨built, rightExpr⟩ := right (front ++ [first]) back (by simpa using built)
      (fun operand member => exprs operand (List.mem_append_right _ member)) rightBuilt
    have pair : Built s s₃ (front ++ [first, second] ++ back) := by simpa using built
    cases h
    exact ⟨Built.group front back pair (.binary s₃.nodes op first second) rfl rfl trivial
        ⟨leftExpr, rightExpr⟩ nofun,
      Node.isExpression_of_children rfl (by simp [Node.children, leftExpr, rightExpr])⟩

theorem operatorTail_built {primary : Parser Node} (builds : BuildsExpression primary)
    {s s' : State} {pairs : List (BinaryOp × Node)} (h : operatorTail primary s = .ok pairs s') :
    Built s s' (pairs.map Prod.snd) ∧ ∀ pair ∈ pairs, pair.2.IsExpression := by
  let I (pairs : List (BinaryOp × Node)) (s₁ : State) : Prop :=
    Built s s₁ (pairs.map Prod.snd) ∧ ∀ pair ∈ pairs, pair.2.IsExpression
  have start : I [] s := ⟨Built.nil (grows.refl s), nofun⟩
  refine repeatUntilDone_ok (I := I) (Q := I) ?_ ?_ start h
  · rintro pairs s₁ next s₂ ⟨built, exprs⟩ round
    obtain ⟨op, s₃, read, round⟩ := bind_ok round
    have growth := (grows.operatorOr _ _ _).of_ok read
    cases op with
    | none => cases round
    | some op =>
      obtain ⟨operand, s₄, operandRead, round⟩ := bind_ok round
      obtain ⟨more, expr⟩ := builds _ _ _ operandRead
      cases round
      refine ⟨by simpa using built.append (more.after growth), ?_⟩
      intro pair member
      rcases List.mem_append.mp member with old | new
      · exact exprs pair old
      · rw [List.mem_singleton.mp new]; exact expr
  · rintro pairs s₁ last s₂ ⟨built, exprs⟩ round
    obtain ⟨op, s₃, read, round⟩ := bind_ok round
    have growth := (grows.operatorOr _ _ _).of_ok read
    cases op with
    | none => cases round; exact ⟨built.before growth, exprs⟩
    | some op =>
      obtain ⟨operand, s₄, operandRead, round⟩ := bind_ok round
      cases round

theorem expressionOf_built {primary : Parser Node} (builds : BuildsExpression primary) :
    BuildsExpression (expressionOf primary) := by
  intro s node s' h
  obtain ⟨first, s₁, read, h⟩ := bind_ok h
  obtain ⟨rest, s₂, restRead, h⟩ := bind_ok h
  obtain ⟨built, expr⟩ := builds _ _ _ read
  obtain ⟨more, exprs⟩ := operatorTail_built builds restRead
  have operands := built.append more
  have leaves := OperatorTree.leaves_ofChain first rest
  simpa using buildTree_built _ [] [] (by simpa [leaves] using operands)
    (by simpa [leaves] using ⟨expr, fun node op member => exprs (op, node) member⟩) h

theorem primary_built (depth : Nat) : BuildsExpression (primary depth) := by
  induction depth with
  | zero => exact fun _ _ _ h => nomatch h
  | succ depth ih => exact fun s node s' h => primaryOf_built (expressionOf_built ih) ih s node s' h

theorem expression_built : BuildsExpression expression :=
  fun s node s' h => expressionOf_built (primary_built (s.unread.length + 1)) s node s' h

/-! ### Statements -/

def BuildsNode (p : Parser Node) : Prop := ∀ s node s', p s = .ok node s' → Built s s' [node]

def BuildsStatement (p : Parser (Option Node)) : Prop :=
  ∀ s node s', p s = .ok node s' → Built s s' node.toList

theorem addStatement_eq (body : List Node) (node : Option Node) :
    addStatement body node = body ++ node.toList := by
  cases node with
  | none => simp [addStatement]
  | some node => rfl

theorem bracedBody_built {statement : Parser (Option Node)} (builds : BuildsStatement statement)
    {s s' : State} {body : List Node} (h : bracedBody statement s = .ok body s') :
    Built s s' body := by
  let I (body : List Node) (s₁ : State) : Prop := Built s s₁ body
  refine repeatUntilDone_ok (I := I) (Q := I) ?_ ?_ (Built.nil (grows.refl s)) h
  · intro body s₁ next s₂ built round
    obtain ⟨kind, _, round⟩ := peekKind_ok round
    split at round
    · cases round
    · cases round
    · obtain ⟨node, s₃, read, round⟩ := bind_ok round
      cases round
      rw [addStatement_eq]
      exact built.append (builds _ _ _ read)
  · intro body s₁ last s₂ built round
    obtain ⟨kind, _, round⟩ := peekKind_ok round
    split at round
    · obtain ⟨_, s₃, skipped, round⟩ := bind_ok round
      cases round
      exact built.before (grows.skip.of_ok skipped)
    · obtain ⟨_, s₃, reported, round⟩ := bind_ok round
      cases round
      exact built.before (grows.missingBrace.of_ok reported)
    · obtain ⟨node, s₃, read, round⟩ := bind_ok round
      cases round

theorem blockOf_built {statement : Parser (Option Node)} (builds : BuildsStatement statement) :
    BuildsNode (blockOf statement) := by
  intro s node s' h
  obtain ⟨braced, s₁, accepted, h⟩ := bind_ok h
  have growth := (grows.accept _).of_ok accepted
  split at h
  · obtain ⟨body, s₂, read, h⟩ := bind_ok h
    exact ((bracedBody_built builds read).after growth).build h rfl rfl trivial trivial nofun
  · obtain ⟨inner, s₂, read, h⟩ := bind_ok h
    have built := (builds _ _ _ read).after growth
    cases inner with
    | some inner => cases h; exact built
    | none => exact built.build h rfl rfl trivial trivial nofun

theorem parenthesized_built : BuildsExpression parenthesized := by
  intro s node s' h
  obtain ⟨_, s₁, opened, h⟩ := bind_ok h
  obtain ⟨inner, s₂, read, h⟩ := bind_ok h
  obtain ⟨_, s₃, closed, h⟩ := bind_ok h
  obtain ⟨built, expr⟩ := expression_built _ _ _ read
  cases h
  exact ⟨(built.after ((grows.expect _).of_ok opened)).before ((grows.expect _).of_ok closed), expr⟩

theorem ifOf_built {statement : Parser (Option Node)} (builds : BuildsStatement statement) :
    BuildsNode (ifOf statement) := by
  intro s node s' h
  obtain ⟨_, s₁, skipped, h⟩ := bind_ok h
  obtain ⟨cond, s₂, condRead, h⟩ := bind_ok h
  obtain ⟨thenPart, s₃, thenRead, h⟩ := bind_ok h
  obtain ⟨other, s₄, accepted, h⟩ := bind_ok h
  obtain ⟨condBuilt, expr⟩ := parenthesized_built _ _ _ condRead
  have built := ((condBuilt.after (grows.skip.of_ok skipped)).append
    (blockOf_built builds _ _ _ thenRead)).before ((grows.accept _).of_ok accepted)
  split at h
  · obtain ⟨elsePart, s₅, elseRead, h⟩ := bind_ok h
    exact (built.append (blockOf_built builds _ _ _ elseRead)).build h rfl rfl trivial expr nofun
  · exact built.build h rfl rfl trivial expr nofun

theorem whileOf_built {statement : Parser (Option Node)} (builds : BuildsStatement statement) :
    BuildsNode (whileOf statement) := by
  intro s node s' h
  obtain ⟨_, s₁, skipped, h⟩ := bind_ok h
  obtain ⟨cond, s₂, condRead, h⟩ := bind_ok h
  obtain ⟨body, s₃, bodyRead, h⟩ := bind_ok h
  obtain ⟨condBuilt, expr⟩ := parenthesized_built _ _ _ condRead
  exact ((condBuilt.after (grows.skip.of_ok skipped)).append
    (blockOf_built builds _ _ _ bodyRead)).build h rfl rfl trivial expr nofun

theorem doOf_built {statement : Parser (Option Node)} (builds : BuildsStatement statement) :
    BuildsNode (doOf statement) := by
  intro s node s' h
  obtain ⟨_, s₁, skipped, h⟩ := bind_ok h
  obtain ⟨body, s₂, bodyRead, h⟩ := bind_ok h
  obtain ⟨_, s₃, found, h⟩ := bind_ok h
  obtain ⟨cond, s₄, condRead, h⟩ := bind_ok h
  obtain ⟨_, s₅, closed, h⟩ := bind_ok h
  obtain ⟨condBuilt, expr⟩ := parenthesized_built _ _ _ condRead
  have bodyBuilt := (blockOf_built builds _ _ _ bodyRead).after (grows.skip.of_ok skipped)
  exact ((bodyBuilt.append (condBuilt.after ((grows.expectWord _).of_ok found))).before
    ((grows.expect _).of_ok closed)).build h rfl rfl trivial expr nofun

theorem caseBody_built {statement : Parser (Option Node)} (builds : BuildsStatement statement) :
    BuildsNode (caseBody statement) := by
  intro s node s' h
  obtain ⟨body, s₁, read, h⟩ := bind_ok h
  let I (body : List Node) (s₁ : State) : Prop := Built s s₁ body
  have built : I body s₁ := by
    refine repeatUntilDone_ok (I := I) (Q := I) ?_ ?_ (Built.nil (grows.refl s)) read
    · intro body s₁ next s₂ built round
      rw [caseRound, observe_bind] at round
      split at round
      · cases round
      · obtain ⟨node, s₃, read, round⟩ := bind_ok round
        cases round
        rw [addStatement_eq]
        exact Built.append built (builds _ _ _ read)
    · intro body s₁ last s₂ built round
      rw [caseRound, observe_bind] at round
      split at round
      · cases round; exact built
      · obtain ⟨node, s₃, read, round⟩ := bind_ok round
        cases round
  exact Built.build built h rfl rfl trivial trivial nofun

def Cases.trees (cases : Cases) : List Node :=
  (cases.cases.flatMap fun entry => [entry.1, entry.2]) ++ cases.fallback.toList

/-- The cases read so far are built, and their values are expressions. -/
def Cases.Sound (s s₁ : State) (cases : Cases) : Prop :=
  Built s s₁ cases.trees ∧ ∀ entry ∈ cases.cases, entry.1.IsExpression

theorem Cases.Sound.addCase {s s₁ s₂ : State} {cases : Cases} {value body : Node}
    (sound : cases.Sound s s₁) (built : Built s₁ s₂ [value, body]) (expr : value.IsExpression) :
    Cases.Sound s s₂ { cases with cases := cases.cases ++ [(value, body)] } := by
  refine ⟨(sound.1.append built).subperm (List.Perm.subperm ?_), ?_⟩
  · simp only [trees, List.flatMap_append, List.flatMap_cons, List.flatMap_nil, List.append_nil,
      List.append_assoc]
    exact List.perm_append_comm.append_left _
  · intro entry member
    rcases List.mem_append.mp member with old | new
    · exact sound.2 entry old
    · rw [List.mem_singleton.mp new]; exact expr

/-- A new default block takes the place of an older one. -/
theorem Cases.Sound.setFallback {s s₁ s₂ : State} {cases : Cases} {body : Node}
    (sound : cases.Sound s s₁) (built : Built s₁ s₂ [body]) :
    Cases.Sound s s₂ { cases with fallback := some body } := by
  refine ⟨(sound.1.append built).subperm (List.Sublist.subperm ?_), sound.2⟩
  simp only [trees, Option.toList_some, List.append_assoc]
  exact (List.sublist_append_right _ _).append_left _

theorem switchRound_sound {statement : Parser (Option Node)} (builds : BuildsStatement statement)
    {s s₁ s₂ : State} {cases : Cases} {result : ForInStep Cases} (sound : cases.Sound s s₁)
    (h : switchRound statement cases s₁ = .ok result s₂) :
    (∃ next, result = .yield next ∧ next.Sound s s₂) ∨
      (∃ last, result = .done last ∧ last.Sound s s₂) := by
  obtain ⟨kind, _, h⟩ := peekKind_ok h
  split at h
  · obtain ⟨_, s₃, reported, h⟩ := bind_ok h
    obtain ⟨_, s₄, skipped, h⟩ := bind_ok h
    obtain ⟨value, s₅, valueRead, h⟩ := bind_ok h
    obtain ⟨_, s₆, colon, h⟩ := bind_ok h
    obtain ⟨body, s₇, bodyRead, h⟩ := bind_ok h
    obtain ⟨valueBuilt, expr⟩ := expression_built _ _ _ valueRead
    have growth := grows.trans ((grows.reportAfterDefault _).of_ok reported)
      (grows.skip.of_ok skipped)
    have built := ((valueBuilt.after growth).before ((grows.expect _).of_ok colon)).append
      (caseBody_built builds _ _ _ bodyRead)
    cases h
    exact .inl ⟨_, rfl, sound.addCase built expr⟩
  · obtain ⟨_, s₃, reported, h⟩ := bind_ok h
    obtain ⟨_, s₄, skipped, h⟩ := bind_ok h
    obtain ⟨_, s₅, colon, h⟩ := bind_ok h
    obtain ⟨body, s₆, bodyRead, h⟩ := bind_ok h
    have growth := grows.trans ((grows.reportAfterDefault _).of_ok reported)
      (grows.trans (grows.skip.of_ok skipped) ((grows.expect _).of_ok colon))
    cases h
    exact .inl ⟨_, rfl, sound.setFallback ((caseBody_built builds _ _ _ bodyRead).after growth)⟩
  · obtain ⟨_, s₃, skipped, h⟩ := bind_ok h
    cases h
    exact .inr ⟨_, rfl, sound.1.before (grows.skip.of_ok skipped), sound.2⟩
  · obtain ⟨_, s₃, reported, h⟩ := bind_ok h
    cases h
    exact .inr ⟨_, rfl, sound.1.before (grows.missingBrace.of_ok reported), sound.2⟩
  · obtain ⟨_, s₃, skipped, h⟩ := bind_ok h
    cases h
    exact .inl ⟨_, rfl, sound.1.before ((grows.expectWord _).of_ok skipped), sound.2⟩

theorem switchOf_built {statement : Parser (Option Node)} (builds : BuildsStatement statement) :
    BuildsNode (switchOf statement) := by
  intro s node s' h
  obtain ⟨_, s₁, skipped, h⟩ := bind_ok h
  obtain ⟨subject, s₂, subjectRead, h⟩ := bind_ok h
  obtain ⟨_, s₃, opened, h⟩ := bind_ok h
  obtain ⟨cases, s₄, read, h⟩ := bind_ok h
  obtain ⟨subjectBuilt, expr⟩ := parenthesized_built _ _ _ subjectRead
  let I (cases : Cases) (s₁ : State) : Prop := cases.Sound s₃ s₁
  have sound : I cases s₄ := by
    refine repeatUntilDone_ok (I := I) (Q := I) ?_ ?_ ⟨Built.nil (grows.refl s₃), by simp⟩ read
    · intro cases s₁ next s₂ sound round
      rcases switchRound_sound builds sound round with ⟨_, same, kept⟩ | ⟨_, same, _⟩
      · cases same; exact kept
      · cases same
    · intro cases s₁ last s₂ sound round
      rcases switchRound_sound builds sound round with ⟨_, same, _⟩ | ⟨_, same, kept⟩
      · cases same
      · cases same; exact kept
  have built := ((subjectBuilt.after (grows.skip.of_ok skipped)).before
    ((grows.expect _).of_ok opened)).append sound.1
  exact built.build h rfl rfl trivial ⟨expr, sound.2⟩ nofun

theorem putc_built : BuildsNode putc := by
  intro s node s' h
  obtain ⟨_, s₁, skipped, h⟩ := bind_ok h
  obtain ⟨value, s₂, read, h⟩ := bind_ok h
  obtain ⟨_, s₃, closed, h⟩ := bind_ok h
  obtain ⟨built, expr⟩ := parenthesized_built _ _ _ read
  exact ((built.after (grows.skip.of_ok skipped)).before ((grows.expect _).of_ok closed)).build h
    rfl rfl trivial expr nofun

theorem BuildsNode.map_some {p : Parser Node} (builds : BuildsNode p) :
    BuildsStatement (some <$> p) := by
  intro s node s' h
  obtain ⟨inner, read, rfl⟩ := map_ok h
  exact builds _ _ _ read

theorem statementOf_built {statement : Parser (Option Node)} (builds : BuildsStatement statement) :
    BuildsStatement (statementOf statement) := by
  intro s node s' h
  obtain ⟨kind, _, h⟩ := peekKind_ok h
  split at h
  · obtain ⟨_, s₁, skipped, h⟩ := bind_ok h
    cases h
    exact Built.nil (grows.skip.of_ok skipped)
  · exact (blockOf_built builds).map_some _ _ _ h
  · exact (ifOf_built builds).map_some _ _ _ h
  · exact (whileOf_built builds).map_some _ _ _ h
  · exact (doOf_built builds).map_some _ _ _ h
  · exact (switchOf_built builds).map_some _ _ _ h
  · exact putc_built.map_some _ _ _ h
  · obtain ⟨value, s₁, read, h⟩ := bind_ok h
    obtain ⟨_, s₂, closed, h⟩ := bind_ok h
    cases h
    exact (expression_built _ _ _ read).1.before ((grows.expect _).of_ok closed)

theorem statement_built (depth : Nat) : BuildsStatement (statement depth) := by
  induction depth with
  | zero => exact fun _ _ _ h => nomatch h
  | succ depth ih => exact fun s node s' h => statementOf_built ih s node s' h

theorem block_built : BuildsNode block :=
  fun s node s' h => blockOf_built (statement_built (s.unread.length + 1)) s node s' h

end Grammar

end IonLang
