import IonLang.Node.Precedence

/-!
# Operator precedence is unambiguous

Reading a tree from left to right gives back a flat sequence of operands and operators. A tree is
grouped if tighter operators lie deeper and operators of one level group to the left. Every sequence
is the reading of exactly one grouped tree, which is `ofChain`. It is also the only tree that the
layered grammar of comparisons, sums and products derives for the sequence, and the only outcome of
folding the sequence run by run.
-/

namespace IonLang

/-- A flat sequence: an operand, then operators with their right operands. -/
abbrev Chain (α : Type) := α × List (BinaryOp × α)

namespace BinaryOp

def comparisons : List BinaryOp := [eq, ne, lt, gt, le, ge]

def sums : List BinaryOp := [add, sub]

theorem one_le_level (op : BinaryOp) : 1 ≤ op.level := by
  cases op <;> decide

theorem level_of_mem_comparisons {op : BinaryOp} (member : op ∈ comparisons) : op.level = 1 := by
  revert member
  cases op <;> decide

theorem level_of_mem_sums {op : BinaryOp} (member : op ∈ sums) : op.level = 2 := by
  revert member
  cases op <;> decide

theorem layer_cases (op : BinaryOp) : op ∈ comparisons ∨ op ∈ sums ∨ op = mul := by
  cases op <;> decide

end BinaryOp

namespace Chain

variable {α : Type}

def join (front : Chain α) (op : BinaryOp) (back : Chain α) : Chain α :=
  (front.1, front.2 ++ (op, back.1) :: back.2)

theorem join_assoc (front middle back : Chain α) (op next : BinaryOp) :
    join (join front op middle) next back = join front op (join middle next back) := by
  simp [join]

end Chain

namespace OperatorTree

open Chain (join)

variable {α : Type}

def reading : OperatorTree α → Chain α
  | leaf operand => (operand, [])
  | branch op lhs rhs => join lhs.reading op rhs.reading

/-- The tree is a leaf, or its operator binds at least as tightly as `level`. -/
def BindsAt (level : Nat) : OperatorTree α → Prop
  | leaf _ => True
  | branch op _ _ => level ≤ op.level

/-- On the left of an operator stand a leaf or an operator that binds at least as tightly, on its
right a leaf or one that binds more tightly. -/
def Grouped : OperatorTree α → Prop
  | leaf _ => True
  | branch op lhs rhs =>
    lhs.BindsAt op.level ∧ rhs.BindsAt (op.level + 1) ∧ lhs.Grouped ∧ rhs.Grouped

variable {tree : OperatorTree α} {waiting : Waiting α}

theorem BindsAt.mono {level lower : Nat} (binds : tree.BindsAt level) (le : lower ≤ level) :
    tree.BindsAt lower := by
  cases tree with
  | leaf operand => trivial
  | branch op lhs rhs => exact Nat.le_trans le binds

/-! ### The operators that wait -/

theorem close_of_le {level : Nat} {lhs : OperatorTree α} {op : BinaryOp} (le : level ≤ op.level) :
    close level tree ((lhs, op) :: waiting) = close level (branch op lhs tree) waiting := by
  rw [close, if_pos le]

theorem close_of_lt {level : Nat} (looser : ∀ entry ∈ waiting.head?, entry.2.level < level) :
    close level tree waiting = (tree, waiting) := by
  cases waiting with
  | nil => rfl
  | cons entry waiting =>
    have less : entry.2.level < level := looser entry rfl
    rw [close, if_neg (Nat.not_le_of_lt less)]

-- Closing in two steps is closing at once.
theorem close_zero_close (level : Nat) (tree : OperatorTree α) (waiting : Waiting α) :
    close 0 (close level tree waiting).1 (close level tree waiting).2 = close 0 tree waiting := by
  induction waiting generalizing tree with
  | nil => rfl
  | cons entry waiting ih =>
    obtain ⟨lhs, op⟩ := entry
    rw [close]
    split
    · rw [ih, close_of_le (Nat.zero_le _)]
    · rfl

theorem reading_close_branch (op : BinaryOp) (lhs rhs : OperatorTree α) (waiting : Waiting α) :
    (close 0 (branch op lhs rhs) waiting).1.reading =
      join (close 0 lhs waiting).1.reading op rhs.reading := by
  induction waiting generalizing op lhs rhs with
  | nil => rfl
  | cons entry waiting ih =>
    obtain ⟨outer, before⟩ := entry
    rw [close_of_le (Nat.zero_le _), close_of_le (Nat.zero_le _), ih, ih, reading, Chain.join_assoc]

/-- What has been read so far is followed by what is left. -/
theorem reading_extend (waiting : Waiting α) (tree : OperatorTree α) (rest : List (BinaryOp × α)) :
    (extend waiting tree rest).reading =
      ((close 0 tree waiting).1.reading.1, (close 0 tree waiting).1.reading.2 ++ rest) := by
  induction rest generalizing waiting tree with
  | nil => rw [extend, List.append_nil]
  | cons pair rest ih =>
    obtain ⟨op, operand⟩ := pair
    rw [extend, ih, close_of_le (Nat.zero_le _), reading_close_branch, close_zero_close]
    simp [join, reading]

theorem reading_ofChain (first : α) (rest : List (BinaryOp × α)) :
    (ofChain first rest).reading = (first, rest) :=
  reading_extend [] (leaf first) rest

/-! ### The tree of a sequence is grouped -/

/-- The waiting operators bind more tightly from the outermost to the innermost, and each fits its
left operand. -/
def Ordered : Waiting α → Prop
  | [] => True
  | (lhs, op) :: waiting => lhs.Grouped ∧ lhs.BindsAt op.level ∧
      (∀ entry ∈ waiting.head?, entry.2.level < op.level) ∧ Ordered waiting

structure Fits (waiting : Waiting α) (tree : OperatorTree α) : Prop where
  ordered : Ordered waiting
  grouped : tree.Grouped
  binds : ∀ entry ∈ waiting.head?, tree.BindsAt (entry.2.level + 1)

theorem Fits.branch {lhs : OperatorTree α} {op : BinaryOp} (fits : Fits ((lhs, op) :: waiting) tree) :
    Fits waiting (branch op lhs tree) := by
  obtain ⟨left, binds, looser, ordered⟩ := fits.ordered
  exact ⟨ordered, ⟨binds, fits.binds _ rfl, left, fits.grouped⟩, looser⟩

theorem Fits.close {level : Nat} (fits : Fits waiting tree) (binds : tree.BindsAt level) :
    Fits (close level tree waiting).2 (close level tree waiting).1 ∧
      (close level tree waiting).1.BindsAt level ∧
      ∀ entry ∈ (close level tree waiting).2.head?, entry.2.level < level := by
  induction waiting generalizing tree with
  | nil => exact ⟨fits, binds, fun entry member => by cases member⟩
  | cons entry waiting ih =>
    obtain ⟨lhs, op⟩ := entry
    by_cases le : level ≤ op.level
    · rw [close_of_le le]
      exact ih fits.branch le
    · have looser : ∀ entry ∈ ((lhs, op) :: waiting).head?, entry.2.level < level := by
        rintro entry ⟨⟩
        exact Nat.lt_of_not_le le
      rw [close_of_lt looser]
      exact ⟨fits, binds, looser⟩

theorem Fits.extend (fits : Fits waiting tree) (isLeaf : ∀ level, tree.BindsAt level)
    (rest : List (BinaryOp × α)) : (extend waiting tree rest).Grouped := by
  induction rest generalizing waiting tree with
  | nil => exact (fits.close (isLeaf 0)).1.grouped
  | cons pair rest ih =>
    obtain ⟨op, operand⟩ := pair
    obtain ⟨closed, binds, looser⟩ := fits.close (isLeaf op.level)
    exact ih ⟨⟨closed.grouped, binds, looser, closed.ordered⟩, trivial, fun _ _ => trivial⟩
      fun _ => trivial

theorem grouped_ofChain (first : α) (rest : List (BinaryOp × α)) :
    (ofChain first rest).Grouped := by
  have fits : Fits [] (leaf first) := ⟨trivial, trivial, fun _ _ => trivial⟩
  exact fits.extend (fun _ => trivial) rest

/-! ### A grouped tree is the tree of its reading -/

-- The next operator completes the innermost one, or there is none and everything is completed.
theorem extend_branch {op : BinaryOp} {lhs rhs : OperatorTree α} {rest : List (BinaryOp × α)}
    (looser : ∀ pair ∈ rest.head?, pair.1.level ≤ op.level) :
    extend ((lhs, op) :: waiting) rhs rest = extend waiting (branch op lhs rhs) rest := by
  cases rest with
  | nil => rw [extend, extend, close_of_le (Nat.zero_le _)]
  | cons pair rest =>
    obtain ⟨next, operand⟩ := pair
    rw [extend, extend, close_of_le (looser _ rfl)]

/-- Reading a grouped tree operator by operator builds the tree, if what waits is looser and what
follows is no tighter. -/
theorem extend_reading (tree : OperatorTree α) (grouped : tree.Grouped) (waiting : Waiting α)
    (rest : List (BinaryOp × α)) (outer : ∀ entry ∈ waiting.head?, tree.BindsAt (entry.2.level + 1))
    (next : ∀ pair ∈ rest.head?, tree.BindsAt pair.1.level) :
    extend waiting (leaf tree.reading.1) (tree.reading.2 ++ rest) = extend waiting tree rest := by
  induction tree generalizing waiting rest with
  | leaf operand => rfl
  | branch op lhs rhs left right =>
    obtain ⟨leftBinds, rightBinds, leftGrouped, rightGrouped⟩ := grouped
    have looser : ∀ entry ∈ waiting.head?, entry.2.level < op.level := outer
    calc extend waiting (leaf lhs.reading.1)
          ((lhs.reading.2 ++ (op, rhs.reading.1) :: rhs.reading.2) ++ rest)
      _ = extend waiting (leaf lhs.reading.1)
          (lhs.reading.2 ++ ((op, rhs.reading.1) :: (rhs.reading.2 ++ rest))) := by simp
      _ = extend waiting lhs ((op, rhs.reading.1) :: (rhs.reading.2 ++ rest)) := by
          refine left leftGrouped waiting _ (fun entry member => ?_) ?_
          · exact leftBinds.mono (looser entry member)
          · rintro pair ⟨⟩
            exact leftBinds
      _ = extend ((lhs, op) :: waiting) (leaf rhs.reading.1) (rhs.reading.2 ++ rest) := by
          rw [extend, close_of_lt looser]
      _ = extend ((lhs, op) :: waiting) rhs rest := by
          refine right rightGrouped _ _ ?_ fun pair member => ?_
          · rintro entry ⟨⟩
            exact rightBinds
          · have le : pair.1.level ≤ op.level := next pair member
            exact rightBinds.mono (Nat.le_succ_of_le le)
      _ = extend waiting (branch op lhs rhs) rest := extend_branch next

theorem ofChain_reading (tree : OperatorTree α) (grouped : tree.Grouped) :
    ofChain tree.reading.1 tree.reading.2 = tree := by
  have built := extend_reading tree grouped [] [] (fun _ member => by cases member)
    fun _ member => by cases member
  rwa [List.append_nil] at built

theorem grouped_reading_iff {first : α} {rest : List (BinaryOp × α)} :
    tree.reading = (first, rest) ∧ tree.Grouped ↔ tree = ofChain first rest := by
  constructor
  · rintro ⟨read, grouped⟩
    have built := ofChain_reading tree grouped
    rw [read] at built
    exact built.symm
  · rintro rfl
    exact ⟨reading_ofChain first rest, grouped_ofChain first rest⟩

/-! ### The layered grammar -/

/-- The categories of the layered grammar, from the loosest to the tightest.

    comparison = sum | comparison ( "==" | "!=" | "<" | ">" | "<=" | ">=" ) sum
    sum        = product | sum ( "+" | "-" ) product
    product    = operand | product "*" operand
-/
inductive Layer where
  | comparison | sum | product | operand

/-- The grammar derives the sequence in a category, with the tree as its syntax tree. -/
inductive Layered : Layer → Chain α → OperatorTree α → Prop where
  | operand (operand : α) : Layered .operand (operand, []) (leaf operand)
  | ofOperand {chain : Chain α} {tree : OperatorTree α} (inner : Layered .operand chain tree) :
    Layered .product chain tree
  | ofProduct {chain : Chain α} {tree : OperatorTree α} (inner : Layered .product chain tree) :
    Layered .sum chain tree
  | ofSum {chain : Chain α} {tree : OperatorTree α} (inner : Layered .sum chain tree) :
    Layered .comparison chain tree
  | product {front back : Chain α} {lhs rhs : OperatorTree α} (left : Layered .product front lhs)
    (right : Layered .operand back rhs) :
    Layered .product (join front .mul back) (branch .mul lhs rhs)
  | sum {op : BinaryOp} {front back : Chain α} {lhs rhs : OperatorTree α}
    (isSum : op ∈ BinaryOp.sums) (left : Layered .sum front lhs) (right : Layered .product back rhs) :
    Layered .sum (join front op back) (branch op lhs rhs)
  | comparison {op : BinaryOp} {front back : Chain α} {lhs rhs : OperatorTree α}
    (isComparison : op ∈ BinaryOp.comparisons) (left : Layered .comparison front lhs)
    (right : Layered .sum back rhs) :
    Layered .comparison (join front op back) (branch op lhs rhs)

def Layer.level : Layer → Nat
  | comparison => 1
  | sum => 2
  | product => 3
  | operand => 4

theorem Layered.grouped {layer : Layer} {chain : Chain α} (derived : Layered layer chain tree) :
    tree.reading = chain ∧ tree.Grouped ∧ tree.BindsAt layer.level := by
  induction derived with
  | operand operand => exact ⟨rfl, trivial, trivial⟩
  | ofOperand inner ih => exact ⟨ih.1, ih.2.1, ih.2.2.mono (by decide)⟩
  | ofProduct inner ih => exact ⟨ih.1, ih.2.1, ih.2.2.mono (by decide)⟩
  | ofSum inner ih => exact ⟨ih.1, ih.2.1, ih.2.2.mono (by decide)⟩
  | product left right ihLeft ihRight =>
    exact ⟨by rw [reading, ihLeft.1, ihRight.1],
      ⟨ihLeft.2.2, ihRight.2.2, ihLeft.2.1, ihRight.2.1⟩, Nat.le_refl 3⟩
  | sum isSum left right ihLeft ihRight =>
    have level := BinaryOp.level_of_mem_sums isSum
    refine ⟨by rw [reading, ihLeft.1, ihRight.1], ⟨?_, ?_, ihLeft.2.1, ihRight.2.1⟩, ?_⟩
    · rw [level]; exact ihLeft.2.2
    · rw [level]; exact ihRight.2.2
    · exact Nat.le_of_eq level.symm
  | comparison isComparison left right ihLeft ihRight =>
    have level := BinaryOp.level_of_mem_comparisons isComparison
    refine ⟨by rw [reading, ihLeft.1, ihRight.1], ⟨?_, ?_, ihLeft.2.1, ihRight.2.1⟩, ?_⟩
    · rw [level]; exact ihLeft.2.2
    · rw [level]; exact ihRight.2.2
    · exact Nat.le_of_eq level.symm

theorem Layered.widen {layer outer : Layer} {chain : Chain α} (derived : Layered layer chain tree)
    (le : outer.level ≤ layer.level) : Layered outer chain tree := by
  cases layer with
  | comparison =>
    cases outer with
    | comparison => exact derived
    | _ => exact absurd le (by decide)
  | sum =>
    cases outer with
    | comparison => exact .ofSum derived
    | sum => exact derived
    | _ => exact absurd le (by decide)
  | product =>
    cases outer with
    | comparison => exact .ofSum (.ofProduct derived)
    | sum => exact .ofProduct derived
    | product => exact derived
    | operand => exact absurd le (by decide)
  | operand =>
    cases outer with
    | comparison => exact .ofSum (.ofProduct (.ofOperand derived))
    | sum => exact .ofProduct (.ofOperand derived)
    | product => exact .ofOperand derived
    | operand => exact derived

theorem layered_reading (tree : OperatorTree α) (grouped : tree.Grouped) (layer : Layer)
    (binds : tree.BindsAt layer.level) : Layered layer tree.reading tree := by
  induction tree generalizing layer with
  | leaf operand => exact (Layered.operand operand).widen (by cases layer <;> decide)
  | branch op lhs rhs left right =>
    obtain ⟨leftBinds, rightBinds, leftGrouped, rightGrouped⟩ := grouped
    have within : layer.level ≤ op.level := binds
    -- The operator decides in which category the tree is built; from there it is widened.
    rcases op.layer_cases with isComparison | isSum | rfl
    · have level := BinaryOp.level_of_mem_comparisons isComparison
      rw [level] at leftBinds rightBinds within
      exact (Layered.comparison isComparison (left leftGrouped .comparison leftBinds)
        (right rightGrouped .sum rightBinds)).widen within
    · have level := BinaryOp.level_of_mem_sums isSum
      rw [level] at leftBinds rightBinds within
      exact (Layered.sum isSum (left leftGrouped .sum leftBinds)
        (right rightGrouped .product rightBinds)).widen within
    · exact (Layered.product (left leftGrouped .product leftBinds)
        (right rightGrouped .operand rightBinds)).widen within

theorem layered_iff {chain : Chain α} :
    Layered .comparison chain tree ↔ tree.reading = chain ∧ tree.Grouped := by
  constructor
  · intro derived
    exact ⟨derived.grouped.1, derived.grouped.2.1⟩
  · rintro ⟨rfl, grouped⟩
    refine layered_reading tree grouped .comparison ?_
    cases tree with
    | leaf operand => trivial
    | branch op lhs rhs => exact op.one_le_level

/-! ### Folding run by run -/

inductive Pass where
  /-- Folds the operators at or above a floor, from left to right. -/
  | fold (floor : Nat)
  /-- Reduces the runs behind an operator that bind more tightly than its level. -/
  | runs (level : Nat)

def Pass.bound : Pass → Nat
  | fold floor => floor
  | runs level => level + 1

/-- A loop starts with a tree in front of a sequence, and ends with a tree in front of what is left
of the sequence. Before an operator is folded, the runs behind its right operand that bind more
tightly are reduced one after the other, each with the level of its first operator as the floor. -/
inductive Folds : Pass → OperatorTree α → List (BinaryOp × α) → OperatorTree α →
    List (BinaryOp × α) → Prop where
  | done {pass : Pass} {tree : OperatorTree α} {rest : List (BinaryOp × α)}
    (stops : ∀ pair ∈ rest.head?, pair.1.level < pass.bound) : Folds pass tree rest tree rest
  | fold {floor : Nat} {op : BinaryOp} {operand : α} {lhs rhs tree : OperatorTree α}
    {rest behind left : List (BinaryOp × α)} (takes : floor ≤ op.level)
    (right : Folds (.runs op.level) (leaf operand) rest rhs behind)
    (again : Folds (.fold floor) (branch op lhs rhs) behind tree left) :
    Folds (.fold floor) lhs ((op, operand) :: rest) tree left
  | run {level : Nat} {op : BinaryOp} {operand : α} {rhs reduced tree : OperatorTree α}
    {rest behind left : List (BinaryOp × α)} (takes : level < op.level)
    (inner : Folds (.fold op.level) rhs ((op, operand) :: rest) reduced behind)
    (again : Folds (.runs level) reduced behind tree left) :
    Folds (.runs level) rhs ((op, operand) :: rest) tree left

namespace Folds

variable {pass : Pass} {result : OperatorTree α} {rest left : List (BinaryOp × α)}

theorem suffix (folds : Folds pass tree rest result left) : left <:+ rest := by
  induction folds with
  | done stops => exact List.suffix_refl _
  | fold takes right again ihRight ihAgain =>
    exact (ihAgain.trans ihRight).trans (List.suffix_cons _ _)
  | run takes inner again ihInner ihAgain => exact ihAgain.trans ihInner

theorem shorter {floor : Nat} {op : BinaryOp} {operand : α} (takes : floor ≤ op.level)
    (folds : Folds (.fold floor) tree ((op, operand) :: rest) result left) :
    left.length ≤ rest.length := by
  cases folds with
  | done stops => exact absurd (stops _ rfl) (Nat.not_lt_of_le takes)
  | fold _ right again => exact (again.suffix.trans right.suffix).length_le

/-- The tree binds tightly enough for the loop, and for the operator that the loop goes on with. -/
structure Ready (pass : Pass) (tree : OperatorTree α) (rest : List (BinaryOp × α)) : Prop where
  grouped : tree.Grouped
  binds : tree.BindsAt pass.bound
  next : ∀ pair ∈ rest.head?, pass.bound ≤ pair.1.level → tree.BindsAt pair.1.level

theorem ready_leaf (operand : α) : Ready pass (leaf operand) rest :=
  ⟨trivial, trivial, fun _ _ _ => trivial⟩

/-- A loop leaves a grouped tree, stops in front of an operator that is too loose, and has read what
it took. -/
theorem grouped (folds : Folds pass tree rest result left) (ready : Ready pass tree rest) :
    result.Grouped ∧ result.BindsAt pass.bound ∧
      (∀ pair ∈ left.head?, pair.1.level < pass.bound) ∧
      ∃ taken, rest = taken ++ left ∧ result.reading = (tree.reading.1, tree.reading.2 ++ taken) := by
  induction folds with
  | done stops => exact ⟨ready.grouped, ready.binds, stops, [], rfl, by rw [List.append_nil]⟩
  | @fold floor op operand lhs rhs tree rest behind left takes right again ihRight ihAgain =>
    obtain ⟨rightGrouped, rightBinds, stops, taken, rfl, rightRead⟩ := ihRight (ready_leaf operand)
    have folded : (branch op lhs rhs).Grouped :=
      ⟨ready.next _ rfl takes, rightBinds, ready.grouped, rightGrouped⟩
    obtain ⟨grouped, binds, ends, more, rfl, read⟩ := ihAgain
      ⟨folded, takes, fun pair member _ => Nat.le_of_lt_succ (stops pair member)⟩
    refine ⟨grouped, binds, ends, (op, operand) :: taken ++ more, by simp, ?_⟩
    rw [read]
    simp [reading, join, rightRead]
  | @run level op operand rhs reduced tree rest behind left takes inner again ihInner ihAgain =>
    have tighter := ready.next _ rfl takes
    obtain ⟨innerGrouped, innerBinds, stops, taken, whole, innerRead⟩ := ihInner
      ⟨ready.grouped, tighter, fun pair member _ => by cases member; exact tighter⟩
    obtain ⟨grouped, binds, ends, more, rfl, read⟩ := ihAgain
      ⟨innerGrouped, innerBinds.mono takes, fun pair member _ =>
        innerBinds.mono (Nat.le_of_lt (stops pair member))⟩
    refine ⟨grouped, binds, ends, taken ++ more, by rw [whole, List.append_assoc], ?_⟩
    rw [read]
    simp [innerRead]

-- A loop goes on with less than it had, so it comes to an end. A run is reduced by a fold of the same
-- sequence, so folds come first.
theorem exists_folds (length : Nat) : ∀ rest : List (BinaryOp × α), rest.length ≤ length →
    ∀ (pass : Pass) (tree : OperatorTree α), ∃ result left, Folds pass tree rest result left := by
  induction length with
  | zero =>
    intro rest short pass tree
    obtain rfl := List.length_eq_zero_iff.mp (Nat.le_zero.mp short)
    exact ⟨tree, [], .done fun _ member => by cases member⟩
  | succ length ih =>
    intro rest short pass tree
    have stop : (∀ pair ∈ rest.head?, pair.1.level < pass.bound) →
        ∃ result left, Folds pass tree rest result left := fun stops => ⟨tree, rest, .done stops⟩
    cases rest with
    | nil => exact stop fun _ member => by cases member
    | cons pair rest =>
      obtain ⟨op, operand⟩ := pair
      have short : rest.length ≤ length := Nat.le_of_succ_le_succ short
      have fold : ∀ floor ≤ op.level, ∀ tree : OperatorTree α,
          ∃ result left, Folds (.fold floor) tree ((op, operand) :: rest) result left := by
        intro floor takes tree
        obtain ⟨rhs, behind, right⟩ := ih rest short (.runs op.level) (leaf operand)
        obtain ⟨result, left, again⟩ := ih behind (Nat.le_trans right.suffix.length_le short)
          (.fold floor) (branch op tree rhs)
        exact ⟨result, left, .fold takes right again⟩
      by_cases takes : pass.bound ≤ op.level
      · cases pass with
        | fold floor => exact fold floor takes tree
        | runs level =>
          obtain ⟨reduced, behind, inner⟩ := fold op.level (Nat.le_refl _) tree
          obtain ⟨result, left, again⟩ := ih behind
            (Nat.le_trans (inner.shorter (Nat.le_refl _)) short) (.runs level) reduced
          exact ⟨result, left, .run takes inner again⟩
      · exact stop fun pair member => by cases member; exact Nat.lt_of_not_le takes

end Folds

theorem folds_iff {first : α} {rest left : List (BinaryOp × α)} :
    Folds (.fold 0) (leaf first) rest tree left ↔ tree = ofChain first rest ∧ left = [] := by
  have outcome : ∀ {tree left}, Folds (.fold 0) (leaf first) rest tree left →
      tree = ofChain first rest ∧ left = [] := by
    intro tree left folds
    obtain ⟨grouped, -, stops, taken, whole, read⟩ := folds.grouped (Folds.ready_leaf first)
    have used : left = [] := by
      cases left with
      | nil => rfl
      | cons pair left => exact absurd (stops pair rfl) (Nat.not_lt_zero _)
    rw [used, List.append_nil] at whole
    exact ⟨grouped_reading_iff.mp ⟨whole ▸ read, grouped⟩, used⟩
  refine ⟨outcome, ?_⟩
  rintro ⟨rfl, rfl⟩
  obtain ⟨tree, left, folds⟩ := Folds.exists_folds _ rest (Nat.le_refl _) (.fold 0) (leaf first)
  obtain ⟨rfl, rfl⟩ := outcome folds
  exact folds

/-- The tree of a sequence is what folding the sequence from the lowest floor gives, with nothing left
over. It is the only grouped tree that reads as the sequence, and the only tree that the layered
grammar derives for it. -/
theorem ofChain_unique (first : α) (rest : List (BinaryOp × α)) :
    (∀ tree left, Folds (.fold 0) (leaf first) rest tree left ↔
      tree = ofChain first rest ∧ left = []) ∧
    (∀ tree : OperatorTree α, tree.reading = (first, rest) ∧ tree.Grouped ↔
      tree = ofChain first rest) ∧
    ∀ tree, Layered .comparison (first, rest) tree ↔ tree = ofChain first rest :=
  ⟨fun _ _ => folds_iff, fun _ => grouped_reading_iff,
    fun _ => layered_iff.trans grouped_reading_iff⟩

-- Runs that climb by two levels and come down one at a time: `a == b * c + d - e < f`.
example : (ofChain 'a' [(.eq, 'b'), (.mul, 'c'), (.add, 'd'), (.sub, 'e'), (.lt, 'f')]) =
    branch .lt (branch .eq (leaf 'a') (branch .sub (branch .add (branch .mul (leaf 'b') (leaf 'c'))
      (leaf 'd')) (leaf 'e'))) (leaf 'f') := rfl

end OperatorTree

end IonLang
