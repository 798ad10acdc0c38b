import IonLang.Node

/-!
# Induction over syntax trees

`Node.inductionOn` has one case for each kind of node, with the statement for all of its children.
`Node.preorder_eq` reads the nodes of a tree off its children, and `Node.forest` collects the nodes
of several trees. `Node.Descends` relates a node to everything above it.
-/

namespace IonLang.Node

/-- The parts of a node, in the order of `preorder`. -/
def children : Node → List Node
  | block _ body => body
  | ifElse _ cond thenPart elsePart => cond :: thenPart :: elsePart.toList
  | whileLoop _ cond body => [cond, body]
  | doWhile _ body cond => [body, cond]
  | switch _ subject cases fallback =>
    subject :: (cases.flatMap fun entry => [entry.1, entry.2]) ++ fallback.toList
  | assign _ _ _ value => [value]
  | access .. | integer .. | float .. | step .. | call .. => []
  | unary _ _ operand => [operand]
  | binary _ _ lhs rhs => [lhs, rhs]
  | putChar _ value => [value]

theorem sizeOf_lt_of_mem_children {node child : Node} (member : child ∈ node.children) :
    sizeOf child < sizeOf node := by
  cases node with
  | block id body =>
    have := List.sizeOf_lt_of_mem (show child ∈ body from member)
    simp only [block.sizeOf_spec]
    omega
  | ifElse id cond thenPart elsePart =>
    simp only [children, List.mem_cons, Option.mem_toList] at member
    simp only [ifElse.sizeOf_spec]
    rcases member with rfl | rfl | found
    · omega
    · omega
    · cases found
      simp only [Option.some.sizeOf_spec]
      omega
  | switch id subject cases fallback =>
    simp only [children, List.cons_append, List.mem_cons, List.mem_append, List.mem_flatMap,
      Option.mem_toList, List.not_mem_nil, or_false] at member
    simp only [switch.sizeOf_spec]
    rcases member with rfl | ⟨entry, inside, found⟩ | found
    · omega
    · have := List.sizeOf_lt_of_mem inside
      obtain ⟨value, body⟩ := entry
      simp only [Prod.mk.sizeOf_spec] at this
      rcases found with rfl | rfl <;> omega
    · cases found
      simp only [Option.some.sizeOf_spec]
      omega
  | _ => grind [children]

theorem fst_mem_children {id : Nat} {subject : Node} {cases : List (Node × Node)}
    {fallback : Option Node} {entry : Node × Node} (member : entry ∈ cases) :
    entry.1 ∈ (switch id subject cases fallback).children := by
  simp only [children, List.cons_append, List.mem_cons, List.mem_append, List.mem_flatMap]
  exact .inr (.inl ⟨entry, member, .inl rfl⟩)

theorem snd_mem_children {id : Nat} {subject : Node} {cases : List (Node × Node)}
    {fallback : Option Node} {entry : Node × Node} (member : entry ∈ cases) :
    entry.2 ∈ (switch id subject cases fallback).children := by
  simp only [children, List.cons_append, List.mem_cons, List.mem_append, List.mem_flatMap]
  exact .inr (.inl ⟨entry, member, .inr (.inl rfl)⟩)

/-- Induction over trees, with the statement for all children of a node. -/
@[elab_as_elim]
theorem inductionOn {motive : Node → Prop} (node : Node)
    (block : ∀ id body, (∀ n ∈ body, motive n) → motive (.block id body))
    (ifElse : ∀ id cond thenPart elsePart, motive cond → motive thenPart →
      (∀ n ∈ elsePart, motive n) → motive (.ifElse id cond thenPart elsePart))
    (whileLoop : ∀ id cond body, motive cond → motive body → motive (.whileLoop id cond body))
    (doWhile : ∀ id body cond, motive body → motive cond → motive (.doWhile id body cond))
    (switch : ∀ id subject cases fallback, motive subject →
      (∀ entry ∈ cases, motive entry.1 ∧ motive entry.2) → (∀ n ∈ fallback, motive n) →
      motive (.switch id subject cases fallback))
    (assign : ∀ id var op value, motive value → motive (.assign id var op value))
    (access : ∀ id var, motive (.access id var))
    (integer : ∀ id text, motive (.integer id text))
    (float : ∀ id text, motive (.float id text))
    (unary : ∀ id op operand, motive operand → motive (.unary id op operand))
    (binary : ∀ id op lhs rhs, motive lhs → motive rhs → motive (.binary id op lhs rhs))
    (step : ∀ id direction var timing, motive (.step id direction var timing))
    (call : ∀ id func, motive (.call id func))
    (putChar : ∀ id value, motive value → motive (.putChar id value)) : motive node := by
  induction size : sizeOf node using Nat.strongRecOn generalizing node with
  | ind size below =>
    subst size
    have inner : ∀ child ∈ node.children, motive child := fun child member =>
      below _ (sizeOf_lt_of_mem_children member) child rfl
    cases node with
    | block id body => exact block id body inner
    | ifElse id cond thenPart elsePart =>
      exact ifElse _ _ _ _ (inner _ (by simp [children])) (inner _ (by simp [children]))
        fun n member => inner _ (by simp [children, Option.mem_def.mp member])
    | whileLoop id cond body =>
      exact whileLoop _ _ _ (inner _ (by simp [children])) (inner _ (by simp [children]))
    | doWhile id body cond =>
      exact doWhile _ _ _ (inner _ (by simp [children])) (inner _ (by simp [children]))
    | switch id subject cases fallback =>
      exact switch _ _ _ _ (inner _ (by simp [children]))
        (fun entry member => ⟨inner _ (fst_mem_children member), inner _ (snd_mem_children member)⟩)
        fun n member => inner _ (by simp [children, Option.mem_def.mp member])
    | assign id var op value => exact assign _ _ _ _ (inner _ (by simp [children]))
    | access id var => exact access _ _
    | integer id text => exact integer _ _
    | float id text => exact float _ _
    | unary id op operand => exact unary _ _ _ (inner _ (by simp [children]))
    | binary id op lhs rhs =>
      exact binary _ _ _ _ (inner _ (by simp [children])) (inner _ (by simp [children]))
    | step id direction var timing => exact step _ _ _ _
    | call id func => exact call _ _
    | putChar id value => exact putChar _ _ (inner _ (by simp [children]))

/-! ### The nodes of several trees -/

def forest (trees : List Node) : List Node := trees.flatMap preorder

@[simp] theorem forest_nil : forest [] = [] := rfl

@[simp] theorem forest_cons (node : Node) (rest : List Node) :
    forest (node :: rest) = node.preorder ++ forest rest := rfl

@[simp] theorem forest_append (front back : List Node) :
    forest (front ++ back) = forest front ++ forest back :=
  List.flatMap_append ..

theorem mem_forest {node : Node} {trees : List Node} :
    node ∈ forest trees ↔ ∃ tree ∈ trees, node ∈ tree.preorder :=
  List.mem_flatMap

theorem preorderAll_eq_forest (body : List Node) : preorderAll body = forest body := by
  induction body with
  | nil => rfl
  | cons node rest ih => rw [preorderAll, ih, forest_cons]

theorem preorderCases_eq_forest (cases : List (Node × Node)) :
    preorderCases cases = forest (cases.flatMap fun entry => [entry.1, entry.2]) := by
  induction cases with
  | nil => rfl
  | cons entry rest ih =>
    obtain ⟨value, body⟩ := entry
    simp [preorderCases, ih]

theorem preorderOption_eq_forest (node : Option Node) :
    preorderOption node = forest node.toList := by
  cases node with
  | none => rfl
  | some node => simp [preorderOption]

theorem preorder_eq (node : Node) : node.preorder = node :: forest node.children := by
  cases node <;>
    simp [preorder, children, preorderAll_eq_forest, preorderCases_eq_forest,
      preorderOption_eq_forest]

theorem mem_preorder_self (node : Node) : node ∈ node.preorder := by
  rw [preorder_eq]
  exact List.mem_cons_self

theorem mem_preorder_of_child {node child inner : Node} (member : child ∈ node.children)
    (found : inner ∈ child.preorder) : inner ∈ node.preorder := by
  rw [preorder_eq]
  exact List.mem_cons_of_mem _ (mem_forest.mpr ⟨child, member, found⟩)

def Descends : Node → Node → Prop := Relation.TransGen fun child node => child ∈ node.children

theorem Descends.mem_forest {inner node : Node} (descends : inner.Descends node) :
    inner ∈ forest node.children := by
  induction descends with
  | single member => exact Node.mem_forest.mpr ⟨inner, member, mem_preorder_self inner⟩
  | @tail between node _ member inside =>
    have found : inner ∈ between.preorder := by
      rw [preorder_eq]
      exact List.mem_cons_of_mem _ inside
    exact Node.mem_forest.mpr ⟨between, member, found⟩

/-- What holds of all nodes of a tree holds of all nodes of its parts. -/
theorem forall_child {p : Node → Prop} {node child : Node} (all : ∀ n ∈ node.preorder, p n)
    (member : child ∈ node.children) : ∀ n ∈ child.preorder, p n :=
  fun n found => all n (mem_preorder_of_child member found)

end IonLang.Node
