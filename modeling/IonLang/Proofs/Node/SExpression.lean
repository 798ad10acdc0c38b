import IonLang.Proofs.Assembly.Reading
import IonLang.Proofs.Printing
import IonLang.Proofs.Token.Lexeme

/-!
# Reading s-expressions

A reader goes through the text of a tree character by character. A word is complete at a blank or at
a bracket, and a list at its closing bracket; both then stand for something by themselves, whatever
encloses them. `Node.tree?_render` says that a tree is read back but for the numbers of its nodes, so
two trees with one text differ in these numbers at most.
-/

namespace IonLang

namespace SExpression

open Text (avoids avoids_append)

/-! ### Words and lists -/

inductive HeadWord where
  | block | ifElse | whileLoop | doWhile | switch | case | fallback | call | putChar
  | unary (op : UnaryOp)
  | binary (op : BinaryOp)
  | assign (op : AssignOp)
  | step (direction : Direction)
  deriving DecidableEq

namespace HeadWord

def spelling : HeadWord → String
  | block => "block"
  | ifElse => "if"
  | whileLoop => "while"
  | doWhile => "do"
  | switch => "switch"
  | case => "case"
  | fallback => "default"
  | call => "call"
  | putChar => "putc"
  | unary op => op.name
  | binary op => op.spelling
  | assign op => op.spelling
  | step direction => direction.spelling

def all : List HeadWord :=
  [block, ifElse, whileLoop, doWhile, switch, case, fallback, call, putChar] ++
    [.neg, .not].map unary ++ [.add, .sub, .mul, .eq, .ne, .lt, .gt, .le, .ge].map binary ++
    [.set, .add, .sub, .mul].map assign ++ [.up, .down].map step

def ofWord? (word : List Char) : Option HeadWord :=
  all.find? fun head => head.spelling.toList == word

theorem ofWord?_spelling (head : HeadWord) : ofWord? head.spelling.toList = some head := by
  cases head with
  | unary op | binary op | assign op => cases op <;> rfl
  | step direction => cases direction <;> rfl
  | _ => rfl

/-- A word is no head word if no head word begins as it does. -/
theorem ofWord?_eq_none {word : List Char} {c : Char} {p : Char → Bool} (first : word.head? = some c)
    (begins : p c = true) (other : (all.any fun head => head.spelling.toList.head?.any p) = false) :
    ofWord? word = none := by
  refine List.find?_eq_none.mpr fun head member spelled => ?_
  have different := List.any_eq_false.mp other head member
  rw [beq_iff_eq.mp spelled, first, Option.any_some] at different
  exact different begins

end HeadWord

inductive Phrase where
  | head (word : HeadWord)
  | func (id : FuncId)
  | node (tree : Node)
  | case (value body : Node)
  | fallback (body : Node)

namespace Phrase

def node? : Phrase → Option Node
  | node tree => some tree
  | _ => none

def case? : Phrase → Option (Node × Node)
  | case value body => some (value, body)
  | _ => none

def fallback? : Phrase → Option Node
  | fallback body => some body
  | _ => none

/-- The meaning of a word. The first letter tells labels from literals, and a dot tells floating
point literals from integers. -/
def ofWord (word : List Char) : Phrase :=
  match HeadWord.ofWord? word with
  | some found => head found
  | none =>
    if word.head? = some 'v' then node (.access 0 ⟨Nat.ofDigitChars 10 (word.drop 4) 0⟩)
    else if word.head? = some 'f' then func ⟨Nat.ofDigitChars 10 (word.drop 9) 0⟩
    else if word.contains '.' then node (.float 0 (String.ofList word))
    else node (.integer 0 (String.ofList word))

/-- The meaning of a list. A list of another form than that of a tree counts as an empty block. -/
def ofList : List Phrase → Phrase
  | head .block :: body => node (.block 0 (body.filterMap node?))
  | [head .ifElse, node cond, node thenPart] => node (.ifElse 0 cond thenPart none)
  | [head .ifElse, node cond, node thenPart, node elsePart] =>
    node (.ifElse 0 cond thenPart (some elsePart))
  | [head .whileLoop, node cond, node body] => node (.whileLoop 0 cond body)
  | [head .doWhile, node body, node cond] => node (.doWhile 0 body cond)
  | head .switch :: node subject :: entries =>
    node (.switch 0 subject (entries.filterMap case?) (entries.findSome? fallback?))
  | [head .case, node value, node body] => case value body
  | [head .fallback, node body] => fallback body
  | [head (.assign op), node (.access _ var), node value] => node (.assign 0 var op value)
  | [head (.unary op), node operand] => node (.unary 0 op operand)
  | [head (.binary op), node lhs, node rhs] => node (.binary 0 op lhs rhs)
  | [head (.step direction), node (.access _ var)] => node (.step 0 direction var .before)
  | [node (.access _ var), head (.step direction)] => node (.step 0 direction var .after)
  | [head .call, func id] => node (.call 0 id)
  | [head .putChar, node value] => node (.putChar 0 value)
  | _ => node (.block 0 [])

theorem ofList_block (body : List Node) :
    ofList (head .block :: body.map node) = node (.block 0 body) := by
  simp [ofList, List.filterMap_map, Function.comp_def, node?]

theorem ofList_switch (subject : Node) (cases : List (Node × Node)) (default : Option Node) :
    ofList (head .switch :: node subject ::
      ((cases.map fun entry => case entry.1 entry.2) ++ default.toList.map fallback)) =
      node (.switch 0 subject cases default) := by
  have behind : ((cases.map fun entry => case entry.1 entry.2) ++
      default.toList.map fallback).findSome? fallback? = default := by
    induction cases with
    | nil => cases default <;> rfl
    | cons entry rest ih => exact ih
  have found : ((cases.map fun entry => case entry.1 entry.2) ++
      default.toList.map fallback).filterMap case? = cases := by
    cases default <;>
      simp [List.filterMap_append, List.filterMap_map, List.filterMap_cons, Function.comp_def, case?]
  rw [ofList, found, behind]

end Phrase

/-! ### The reader -/

/-- How far a text has been read: the letters of the last word, what the innermost open list holds,
and what the lists around it hold. -/
structure Reader where
  word : List Char := []
  items : List Phrase := []
  outer : List (List Phrase) := []

namespace Reader

def add (r : Reader) (phrases : List Phrase) : Reader := { r with items := r.items ++ phrases }

def flush (r : Reader) : Reader :=
  if r.word.isEmpty then r else { r with word := [] }.add [Phrase.ofWord r.word]

def close (r : Reader) : Reader :=
  match r.outer with
  | [] => r
  | items :: outer => { r with items, outer }.add [Phrase.ofList r.items]

def step (r : Reader) (c : Char) : Reader :=
  if c = ' ' then r.flush
  else if c = '(' then { r with items := [], outer := r.items :: r.outer }
  else if c = ')' then r.flush.close
  else { r with word := r.word ++ [c] }

theorem word_flush (r : Reader) : r.flush.word = [] := by
  unfold flush
  split
  · next empty => exact List.isEmpty_iff.mp empty
  · rfl

theorem flush_eq_self {r : Reader} (between : r.word = []) : r.flush = r := by
  rw [flush, if_pos (List.isEmpty_iff.mpr between)]

end Reader

open Reader (step)

/-- The tree that a text describes, if it describes a single one. -/
def tree? (text : List Char) : Option Node :=
  match (text.foldl step {}).flush.items with
  | [.node node] => some node
  | _ => none

/-- Between two words, the text is read as a phrase. -/
def ReadsAs (text : List Char) (phrase : Phrase) : Prop :=
  ∀ r : Reader, r.word = [] → (text.foldl step r).flush = r.add [phrase]

def Continues (text : List Char) (phrases : List Phrase) : Prop :=
  ∀ r : Reader, (text.foldl step r).flush = r.flush.add phrases

def delimiters : List Char := [' ', '(', ')']

theorem foldl_word {word : List Char} (solid : avoids delimiters word = true) (r : Reader) :
    word.foldl step r = { r with word := r.word ++ word } := by
  induction word generalizing r with
  | nil => simp
  | cons c rest ih =>
    have parts := Bool.and_eq_true_iff.mp solid
    have plain : c ≠ ' ' ∧ c ≠ '(' ∧ c ≠ ')' := by simpa [delimiters] using parts.1
    have here : step r c = { r with word := r.word ++ [c] } := by
      simp [step, plain]
    rw [List.foldl_cons, here, ih parts.2]
    simp

theorem readsAs_word {word : List Char} (solid : avoids delimiters word = true)
    (letters : word ≠ []) : ReadsAs word (Phrase.ofWord word) := by
  intro r between
  rw [foldl_word solid, between, List.nil_append, Reader.flush, if_neg (by simpa using letters)]
  rw [Reader.add, Reader.add, between]

theorem continues_nil : Continues [] [] := by
  intro r
  simp [Reader.add]

theorem ReadsAs.continues {text : List Char} {phrase : Phrase} (reads : ReadsAs text phrase) :
    Continues (' ' :: text) [phrase] := fun r => reads r.flush r.word_flush

theorem Continues.append {front back : List Char} {phrases others : List Phrase}
    (first : Continues front phrases) (second : Continues back others) :
    Continues (front ++ back) (phrases ++ others) := by
  intro r
  rw [List.foldl_append, second, first, Reader.add, Reader.add, Reader.add, List.append_assoc]

/-- A list in brackets is read as what its items stand for. -/
theorem ReadsAs.list {front back : List Char} {first : Phrase} {phrases : List Phrase}
    (head : ReadsAs front first) (rest : Continues back phrases) :
    ReadsAs ('(' :: front ++ back ++ [')']) (Phrase.ofList (first :: phrases)) := by
  intro r between
  let opened : Reader := { r with items := [], outer := r.items :: r.outer }
  have start : ('(' :: front ++ back).foldl step r = back.foldl step (front.foldl step opened) := by
    rw [List.cons_append, List.foldl_cons, List.foldl_append]
    rfl
  have behind : ('(' :: front ++ back ++ [')']).foldl step r =
      ((opened.add [first]).add phrases).close := by
    rw [List.foldl_append, start, ← head opened between, ← rest]
    rfl
  rw [behind]
  exact Reader.flush_eq_self between

/-! ### Words of trees -/

theorem readsAs_head (head : HeadWord) : ReadsAs head.spelling.toList (.head head) := by
  have solid : (avoids delimiters head.spelling.toList && !head.spelling.toList.isEmpty) = true := by
    cases head with
    | unary op | binary op | assign op => cases op <;> rfl
    | step direction => cases direction <;> rfl
    | _ => rfl
  have parts := Bool.and_eq_true_iff.mp solid
  have reads := readsAs_word parts.1 (by simpa using parts.2)
  rwa [Phrase.ofWord, HeadWord.ofWord?_spelling] at reads

/-- A label is a word, and it is told from the head words by its first letter. -/
theorem readsAs_label {label stem : List Char} {c : Char} {n : Nat}
    (letters : label = c :: stem ++ (toString n).toList) (solid : avoids delimiters (c :: stem) = true)
    (other : (HeadWord.all.any fun head => head.spelling.toList.head?.any (· == c)) = false) :
    ReadsAs label (Phrase.ofWord label) ∧ HeadWord.ofWord? label = none := by
  have digits : avoids delimiters (toString n).toList = true := by
    refine Text.avoids_of_all (p := Char.isDigit) rfl fun d member => ?_
    rw [toList_toString] at member
    exact Nat.isDigit_of_mem_toDigits (by omega) (by omega) member
  subst letters
  refine ⟨readsAs_word ?_ (by simp),
    HeadWord.ofWord?_eq_none (p := (· == c)) rfl (beq_self_eq_true c) other⟩
  rw [avoids_append, solid, digits]
  rfl

theorem readsAs_var (var : VarId) : ReadsAs var.label.toList (.node (.access 0 var)) := by
  have letters : var.label.toList = 'v' :: ['a', 'r', '_'] ++ (toString var.index).toList := by
    simp [VarId.label]
  obtain ⟨reads, unknown⟩ := readsAs_label letters rfl rfl
  rw [Phrase.ofWord, unknown] at reads
  simpa [letters, toList_toString, Nat.ofDigitChars_ten_toDigits] using reads

theorem readsAs_func (func : FuncId) : ReadsAs func.label.toList (.func func) := by
  have letters : func.label.toList =
      'f' :: ['u', 'n', 'c', 't', 'i', 'o', 'n', '_'] ++ (toString func.index).toList := by
    simp [FuncId.label]
  obtain ⟨reads, unknown⟩ := readsAs_label letters rfl rfl
  rw [Phrase.ofWord, unknown] at reads
  simpa [letters, toList_toString, Nat.ofDigitChars_ten_toDigits] using reads

theorem readsAs_number {word : List Char} (number : Token.IsNumber word) :
    ReadsAs word (.node (if word.contains '.' then .float 0 (String.ofList word)
      else .integer 0 (String.ofList word))) := by
  cases word with
  | nil => cases number
  | cons c rest =>
    obtain ⟨digit, others⟩ := number
    have chars : ∀ d ∈ c :: rest, Token.isNumberChar d = true := by
      refine List.forall_mem_cons.mpr ⟨?_, others⟩
      rw [Token.isNumberChar, digit, Bool.true_or]
    have reads := readsAs_word (Text.avoids_of_all rfl chars) (List.cons_ne_nil c rest)
    have notV : c ≠ 'v' := by
      rintro rfl
      cases digit
    have notF : c ≠ 'f' := by
      rintro rfl
      cases digit
    rw [Phrase.ofWord, HeadWord.ofWord?_eq_none (p := Text.isDigit) rfl digit rfl] at reads
    simp only [List.head?_cons, Option.some.injEq, notV, notF, if_false] at reads
    split at reads
    · next dotted => rwa [if_pos dotted]
    · next plain => rwa [if_neg plain]

end SExpression

/-! ### Trees -/

namespace Node

open SExpression

def Spelled : Node → Prop
  | integer _ text => Text.IsNumeral text.toList
  | float _ text => Token.IsNumber text.toList ∧ '.' ∈ text.toList
  | _ => True

def Readable (node : Node) : Prop := ReadsAs node.render.toList (.node node.unnumbered)

theorem continues_renderAll {body : List Node} (inner : ∀ n ∈ body, n.Readable) :
    Continues (renderAll body).toList ((unnumberedAll body).map .node) := by
  induction body with
  | nil => simpa [renderAll, unnumberedAll] using continues_nil
  | cons node rest ih =>
    obtain ⟨first, inner⟩ := List.forall_mem_cons.mp inner
    simpa [renderAll, unnumberedAll] using first.continues.append (ih inner)

theorem continues_renderElse {elsePart : Option Node} (inner : ∀ n ∈ elsePart, n.Readable) :
    Continues (renderElse elsePart).toList ((unnumberedOption elsePart).toList.map .node) := by
  cases elsePart with
  | none => simpa [renderElse, unnumberedOption] using continues_nil
  | some node => simpa [renderElse, unnumberedOption] using (inner node rfl).continues

theorem continues_renderDefault {fallback : Option Node} (inner : ∀ n ∈ fallback, n.Readable) :
    Continues (renderDefault fallback).toList
      ((unnumberedOption fallback).toList.map .fallback) := by
  cases fallback with
  | none => simpa [renderDefault, unnumberedOption] using continues_nil
  | some node =>
    have list := (readsAs_head .fallback).list (inner node rfl).continues
    simpa [renderDefault, unnumberedOption, HeadWord.spelling, Phrase.ofList] using list.continues

theorem continues_renderCases {cases : List (Node × Node)}
    (inner : ∀ entry ∈ cases, entry.1.Readable ∧ entry.2.Readable) :
    Continues (renderCases cases).toList
      ((unnumberedCases cases).map fun entry => .case entry.1 entry.2) := by
  induction cases with
  | nil => simpa [renderCases, unnumberedCases] using continues_nil
  | cons entry rest ih =>
    obtain ⟨⟨value, body⟩, inner⟩ := List.forall_mem_cons.mp inner
    have list := (readsAs_head .case).list (value.continues.append body.continues)
    simpa [renderCases, unnumberedCases, HeadWord.spelling, Phrase.ofList] using
      list.continues.append (ih inner)

theorem readable (node : Node) (spelled : ∀ n ∈ node.preorder, n.Spelled) : node.Readable := by
  unfold Readable
  induction node using inductionOn with
  | block id body inner =>
    have parts := continues_renderAll fun n member => inner n member (forall_child spelled member)
    have list := (readsAs_head .block).list parts
    rw [Phrase.ofList_block] at list
    simpa [render, unnumbered, HeadWord.spelling] using list
  | ifElse id cond thenPart elsePart condReads thenReads elseReads =>
    have condReads := condReads (forall_child spelled (by simp [children]))
    have thenReads := thenReads (forall_child spelled (by simp [children]))
    have elseReads := continues_renderElse fun n member =>
      elseReads n member (forall_child spelled (by simp [children, Option.mem_def.mp member]))
    have list := (readsAs_head .ifElse).list
      ((condReads.continues.append thenReads.continues).append elseReads)
    cases elsePart <;>
      simpa [render, unnumbered, unnumberedOption, HeadWord.spelling, Phrase.ofList] using list
  | whileLoop id cond body condReads bodyReads =>
    have condReads := condReads (forall_child spelled (by simp [children]))
    have bodyReads := bodyReads (forall_child spelled (by simp [children]))
    have list := (readsAs_head .whileLoop).list (condReads.continues.append bodyReads.continues)
    simpa [render, unnumbered, HeadWord.spelling, Phrase.ofList] using list
  | doWhile id body cond bodyReads condReads =>
    have bodyReads := bodyReads (forall_child spelled (by simp [children]))
    have condReads := condReads (forall_child spelled (by simp [children]))
    have list := (readsAs_head .doWhile).list (bodyReads.continues.append condReads.continues)
    simpa [render, unnumbered, HeadWord.spelling, Phrase.ofList] using list
  | switch id subject cases fallback subjectReads casesRead fallbackReads =>
    have subjectReads := subjectReads (forall_child spelled (by simp [children]))
    have casesRead := continues_renderCases fun entry member =>
      ⟨(casesRead entry member).1 (forall_child spelled (fst_mem_children member)),
        (casesRead entry member).2 (forall_child spelled (snd_mem_children member))⟩
    have fallbackReads := continues_renderDefault fun n member =>
      fallbackReads n member (forall_child spelled (by simp [children, Option.mem_def.mp member]))
    have list := (readsAs_head .switch).list
      (subjectReads.continues.append (casesRead.append fallbackReads))
    rw [List.singleton_append, Phrase.ofList_switch] at list
    simpa [render, unnumbered, HeadWord.spelling] using list
  | assign id var op value valueReads =>
    have valueReads := valueReads (forall_child spelled (by simp [children]))
    have list := (readsAs_head (.assign op)).list
      ((readsAs_var var).continues.append valueReads.continues)
    simpa [render, unnumbered, HeadWord.spelling, Phrase.ofList] using list
  | access id var =>
    rw [render, unnumbered]
    exact readsAs_var var
  | integer id text =>
    have numeral : Text.IsNumeral text.toList := spelled _ (mem_preorder_self _)
    have plain : ¬text.toList.contains '.' = true := by
      rw [List.contains_iff_mem]
      intro member
      cases numeral.2 '.' member
    have reads := readsAs_number (Token.isNumber_of_isNumeral numeral)
    rw [if_neg plain, String.ofList_toList] at reads
    simpa [render, unnumbered] using reads
  | float id text =>
    obtain ⟨number, dotted⟩ : Token.IsNumber text.toList ∧ '.' ∈ text.toList :=
      spelled _ (mem_preorder_self _)
    have reads := readsAs_number number
    rw [if_pos (List.contains_iff_mem.mpr dotted), String.ofList_toList] at reads
    simpa [render, unnumbered] using reads
  | unary id op operand operandReads =>
    have operandReads := operandReads (forall_child spelled (by simp [children]))
    have list := (readsAs_head (.unary op)).list operandReads.continues
    simpa [render, unnumbered, HeadWord.spelling, Phrase.ofList] using list
  | binary id op lhs rhs lhsReads rhsReads =>
    have lhsReads := lhsReads (forall_child spelled (by simp [children]))
    have rhsReads := rhsReads (forall_child spelled (by simp [children]))
    have list := (readsAs_head (.binary op)).list (lhsReads.continues.append rhsReads.continues)
    simpa [render, unnumbered, HeadWord.spelling, Phrase.ofList] using list
  | step id direction var timing =>
    have sign := readsAs_head (.step direction)
    cases timing with
    | before =>
      simpa [render, renderStep, unnumbered, HeadWord.spelling, Phrase.ofList] using
        sign.list (readsAs_var var).continues
    | after =>
      simpa [render, renderStep, unnumbered, HeadWord.spelling, Phrase.ofList] using
        (readsAs_var var).list sign.continues
  | call id func =>
    have list := (readsAs_head .call).list (readsAs_func func).continues
    simpa [render, unnumbered, HeadWord.spelling, Phrase.ofList] using list
  | putChar id value valueReads =>
    have valueReads := valueReads (forall_child spelled (by simp [children]))
    have list := (readsAs_head .putChar).list valueReads.continues
    simpa [render, unnumbered, HeadWord.spelling, Phrase.ofList] using list

theorem tree?_render (node : Node) (spelled : ∀ n ∈ node.preorder, n.Spelled) :
    tree? node.render.toList = some node.unnumbered := by
  rw [tree?, node.readable spelled {} rfl]
  rfl

/-! ### Numbers are not written -/

theorem render_unnumbered (node : Node) : node.unnumbered.render = node.render := by
  induction node using inductionOn with
  | block id body inner =>
    have bodies : renderAll (unnumberedAll body) = renderAll body := by
      induction body with
      | nil => rw [unnumberedAll]
      | cons node rest ih =>
        obtain ⟨first, inner⟩ := List.forall_mem_cons.mp inner
        rw [unnumberedAll, renderAll, renderAll, first, ih inner]
    rw [unnumbered, render, render, bodies]
  | ifElse id cond thenPart elsePart condSame thenSame elseSame =>
    have other : renderElse (unnumberedOption elsePart) = renderElse elsePart := by
      cases elsePart with
      | none => rw [unnumberedOption]
      | some node => rw [unnumberedOption, renderElse, renderElse, elseSame node rfl]
    rw [unnumbered, render, render, condSame, thenSame, other]
  | switch id subject cases fallback subjectSame casesSame fallbackSame =>
    have entries : renderCases (unnumberedCases cases) = renderCases cases := by
      induction cases with
      | nil => rw [unnumberedCases]
      | cons entry rest ih =>
        obtain ⟨⟨value, body⟩, inner⟩ := List.forall_mem_cons.mp casesSame
        rw [unnumberedCases, renderCases, renderCases, value, body, ih inner]
    have default : renderDefault (unnumberedOption fallback) = renderDefault fallback := by
      cases fallback with
      | none => rw [unnumberedOption]
      | some node => rw [unnumberedOption, renderDefault, renderDefault, fallbackSame node rfl]
    rw [unnumbered, render, render, subjectSame, entries, default]
  | whileLoop id first second firstSame secondSame | doWhile id first second firstSame secondSame
  | binary id op first second firstSame secondSame =>
    rw [unnumbered, render, render, firstSame, secondSame]
  | assign id _ _ part partSame | unary id _ part partSame | putChar id part partSame =>
    rw [unnumbered, render, render, partSame]
  | access | integer | float | step | call => rw [unnumbered, render, render]

/-- Two trees have one text exactly if they differ in the numbers of their nodes at most. -/
theorem render_eq_iff (a b : Node) (spelled : ∀ n ∈ a.preorder, n.Spelled)
    (spelled' : ∀ n ∈ b.preorder, n.Spelled) :
    a.render = b.render ↔ a.unnumbered = b.unnumbered := by
  constructor
  · intro same
    have trees := tree?_render a spelled
    rw [same, tree?_render b spelled'] at trees
    exact (Option.some.inj trees).symm
  · intro same
    rw [← render_unnumbered a, same, render_unnumbered b]

/-- A switch with a case of one block and a default block that is a choice, numbered in two ways. -/
theorem render_eq_iff_switch :
    let tree (number : Nat → Nat) : Node :=
      .switch (number 9) (.unary (number 1) .neg (.integer (number 0) "12"))
        [(.float (number 2) "1.5", .block (number 4) [.step (number 3) .down ⟨10⟩ .after])]
        (some (.ifElse (number 8) (.access (number 5) ⟨10⟩) (.call (number 6) ⟨2⟩)
          (some (.block (number 7) []))))
    (∀ number, ∀ n ∈ (tree number).preorder, n.Spelled) ∧
      (tree (· + 1)).render = (tree (2 * ·)).render ∧
      (tree (· + 1)).unnumbered = (tree (2 * ·)).unnumbered := by
  intro tree
  have spelled : ∀ number, ∀ n ∈ (tree number).preorder, n.Spelled := by
    intro number n member
    simp only [tree, preorder, preorderCases, preorderOption, preorderAll, List.cons_append,
      List.nil_append, List.append_nil, List.mem_cons, List.not_mem_nil, or_false] at member
    rcases member with rfl | rfl | rfl | rfl | rfl | rfl | rfl | rfl | rfl | rfl
    all_goals try exact True.intro
    · exact ⟨by decide, List.all_eq_true.mp rfl⟩
    · exact ⟨⟨rfl, List.all_eq_true.mp rfl⟩, by decide⟩
  have same : (tree (· + 1)).render = (tree (2 * ·)).render := by decide +kernel
  exact ⟨spelled, same, (render_eq_iff _ _ (spelled _) (spelled _)).mp same⟩

end Node

end IonLang
