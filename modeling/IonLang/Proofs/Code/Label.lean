import IonLang.Node.Code
import Mathlib.Data.List.Basic

/-!
# Names of labels

A unit names its labels after the symbol or the node that they belong to. `LabelName` is such a
name before it is written, and `LabelName.text_injective` says that two names are never written
alike: the stem before a number tells the kind of the owner, and what follows the number tells the
role of the label. `definedNames` collects the names that lines define.
-/

namespace IonLang

/-! ### Numbers inside a text -/

/-- A text that cannot be read as the end of a number. -/
def EndsNumber (text : List Char) : Prop := text.head?.any Char.isDigit = false

theorem toList_toString (n : Nat) : (toString n).toList = Nat.toDigits 10 n := by
  rw [Nat.toString_eq_repr, Nat.toList_repr]

theorem takeWhile_isDigit_number (n : Nat) {rest : List Char} (ends : EndsNumber rest) :
    ((toString n).toList ++ rest).takeWhile Char.isDigit = (toString n).toList := by
  have digits : ∀ c ∈ (toString n).toList, c.isDigit = true := by
    intro c member
    rw [toList_toString] at member
    exact Nat.isDigit_of_mem_toDigits (by omega) (by omega) member
  rw [List.takeWhile_append_of_pos digits]
  cases rest with
  | nil => simp
  | cons c rest =>
    have stop : c.isDigit = false := ends
    simp [stop]

/-- A number and the text behind it can be read back. -/
theorem number_append_inj {n m : Nat} {rest rest' : List Char} (ends : EndsNumber rest)
    (ends' : EndsNumber rest')
    (same : (toString n).toList ++ rest = (toString m).toList ++ rest') : n = m ∧ rest = rest' := by
  have digits : (toString n).toList = (toString m).toList := by
    rw [← takeWhile_isDigit_number n ends, same, takeWhile_isDigit_number m ends']
  refine ⟨?_, ?_⟩
  · have values := congrArg (fun text => Nat.ofDigitChars 10 text 0) digits
    simpa only [toList_toString, Nat.ofDigitChars_ten_toDigits] using values
  · rw [digits] at same
    exact List.append_cancel_left same

theorem number_inj {n m : Nat} (same : (toString n).toList = (toString m).toList) : n = m := by
  have behind : (toString n).toList ++ [] = (toString m).toList ++ [] := by rw [same]
  exact (number_append_inj (by rfl) (by rfl) behind).1

/-! ### Labels of control structures -/

/-- What a label marks inside the code of a control structure. -/
inductive LabelRole where
  | ifElse | ifEnd
  | whileCondition | whileEnd
  | doStart | doCondition | doEnd
  | switchCase (k : Nat) | switchCode (k : Nat) | switchDefault | switchEnd
  deriving DecidableEq

namespace LabelRole

def label (id : Nat) : LabelRole → String
  | ifElse => CodeLabel.ifElse id
  | ifEnd => CodeLabel.ifEnd id
  | whileCondition => CodeLabel.whileCondition id
  | whileEnd => CodeLabel.whileEnd id
  | doStart => CodeLabel.doStart id
  | doCondition => CodeLabel.doCondition id
  | doEnd => CodeLabel.doEnd id
  | switchCase k => CodeLabel.switchCase id k
  | switchCode k => CodeLabel.switchCode id k
  | switchDefault => CodeLabel.switchDefault id
  | switchEnd => CodeLabel.switchEnd id

def stem : LabelRole → List Char
  | ifElse | ifEnd => ['i', 'f', '_']
  | whileCondition | whileEnd => ['w', 'h', 'i', 'l', 'e', '_']
  | doStart | doCondition | doEnd => ['d', 'o', 'w', 'h', 'i', 'l', 'e', '_']
  | switchCase _ | switchCode _ | switchDefault | switchEnd => ['s', 'w', 'i', 't', 'c', 'h', '_']

def ending : LabelRole → List Char
  | ifElse => ['_', 'e', 'l', 's', 'e']
  | whileCondition | doCondition => ['_', 'c', 'o', 'n', 'd', 'i', 't', 'i', 'o', 'n']
  | doStart => ['_', 's', 't', 'a', 'r', 't']
  | ifEnd | whileEnd | doEnd | switchEnd => ['_', 'e', 'n', 'd']
  | switchCase k => ['_', 'c', 'a', 's', 'e', '_'] ++ (toString k).toList
  | switchCode k => ['_', 'c', 'a', 's', 'e', '_'] ++ ((toString k).toList ++ ['_', 'c', 'o', 'd', 'e'])
  | switchDefault => ['_', 'd', 'e', 'f', 'a', 'u', 'l', 't']

theorem toList_label (id : Nat) (role : LabelRole) :
    (role.label id).toList = role.stem ++ ((toString id).toList ++ role.ending) := by
  cases role <;>
    simp [label, stem, ending, CodeLabel.ifElse, CodeLabel.ifEnd, CodeLabel.whileCondition,
      CodeLabel.whileEnd, CodeLabel.doStart, CodeLabel.doCondition, CodeLabel.doEnd,
      CodeLabel.switchCase, CodeLabel.switchCode, CodeLabel.switchDefault, CodeLabel.switchEnd]

theorem endsNumber_ending (role : LabelRole) : EndsNumber role.ending := by
  cases role <;> simp [EndsNumber, ending]

theorem stem_eq_of_append_eq {a b : LabelRole} {x y : List Char}
    (same : a.stem ++ x = b.stem ++ y) : a.stem = b.stem := by
  cases a <;> cases b <;> first | rfl | cases same

theorem eq_of_stem_of_ending {a b : LabelRole} (stems : a.stem = b.stem)
    (endings : a.ending = b.ending) : a = b := by
  -- Only the cases of a switch have a number in the ending.
  cases a with
  | switchCase k =>
    cases b with
    | switchCase k' => rw [number_inj (List.append_cancel_left endings)]
    | switchCode k' =>
      have numbers : (toString k).toList ++ [] = (toString k').toList ++ ['_', 'c', 'o', 'd', 'e'] := by
        rw [List.append_nil]
        exact List.append_cancel_left endings
      cases (number_append_inj (by rfl) (by rfl) numbers).2
    | switchDefault | switchEnd => simp [ending] at endings
    | _ => cases stems
  | switchCode k =>
    cases b with
    | switchCase k' =>
      have numbers : (toString k).toList ++ ['_', 'c', 'o', 'd', 'e'] = (toString k').toList ++ [] := by
        rw [List.append_nil]
        exact List.append_cancel_left endings
      cases (number_append_inj (by rfl) (by rfl) numbers).2
    | switchCode k' =>
      rw [(number_append_inj (by rfl) (by rfl) (List.append_cancel_left endings)).1]
    | switchDefault | switchEnd => simp [ending] at endings
    | _ => cases stems
  | _ => cases b <;> simp_all [stem, ending]

theorem label_inj {id id' : Nat} {a b : LabelRole} (same : a.label id = b.label id') :
    id = id' ∧ a = b := by
  have texts := congrArg String.toList same
  rw [toList_label, toList_label] at texts
  have stems := stem_eq_of_append_eq texts
  rw [stems] at texts
  obtain ⟨ids, endings⟩ := number_append_inj (endsNumber_ending a) (endsNumber_ending b)
    (List.append_cancel_left texts)
  exact ⟨ids, eq_of_stem_of_ending stems endings⟩

end LabelRole

/-! ### All labels -/

inductive LabelName where
  | charCell
  | start
  | exit
  | var (id : VarId)
  | function (id : FuncId)
  | control (id : Nat) (role : LabelRole)
  deriving DecidableEq

namespace LabelName

def text : LabelName → String
  | charCell => IonLang.charCell
  | start => "_start"
  | exit => "exit"
  | var id => id.label
  | function id => id.label
  | control id role => role.label id

def initial : LabelName → Char
  | charCell => 'c'
  | start => '_'
  | exit => 'e'
  | var _ => 'v'
  | function _ => 'f'
  | control _ role => role.stem.headD 'c'

theorem head?_text (name : LabelName) : name.text.toList.head? = some name.initial := by
  cases name with
  | control id role =>
    simp only [text, initial, LabelRole.toList_label]
    cases role <;> rfl
  | var id => simp [text, initial, VarId.label]
  | function id => simp [text, initial, FuncId.label]
  | _ => rfl

theorem text_injective : Function.Injective text := by
  intro a b same
  have initials : a.initial = b.initial := by
    have heads := congrArg (fun text => text.toList.head?) same
    simpa only [head?_text, Option.some.injEq] using heads
  -- The first characters leave only names of one kind.
  cases a with
  | var id =>
    cases b with
    | var id' =>
      have texts := congrArg String.toList same
      simp only [text, VarId.label, String.toList_append, List.append_cancel_left_eq] at texts
      exact congrArg (fun n => var ⟨n⟩) (number_inj texts)
    | control id' role => cases role <;> cases initials
    | _ => cases initials
  | function id =>
    cases b with
    | function id' =>
      have texts := congrArg String.toList same
      simp only [text, FuncId.label, String.toList_append, List.append_cancel_left_eq] at texts
      exact congrArg (fun n => function ⟨n⟩) (number_inj texts)
    | control id' role => cases role <;> cases initials
    | _ => cases initials
  | control id role =>
    cases b with
    | control id' role' =>
      obtain ⟨rfl, rfl⟩ := LabelRole.label_inj same
      rfl
    | _ => cases role <;> cases initials
  | charCell | start | exit =>
    cases b with
    | control id' role => cases role <;> cases initials
    | _ => first | rfl | cases initials

end LabelName

/-! ### Names that lines define -/

def definedNames (lines : List Line) : List String := lines.filterMap Line.defines?

@[simp] theorem definedNames_nil : definedNames [] = [] := rfl

@[simp] theorem definedNames_append (front back : List Line) :
    definedNames (front ++ back) = definedNames front ++ definedNames back :=
  List.filterMap_append

@[simp] theorem definedNames_inst (i : Instruction) (rest : List Line) :
    definedNames (.inst i :: rest) = definedNames rest := rfl

@[simp] theorem definedNames_directive (text : String) (rest : List Line) :
    definedNames (.directive text :: rest) = definedNames rest := rfl

@[simp] theorem definedNames_label (name : String) (comment : Option String) (rest : List Line) :
    definedNames (.label name comment :: rest) = name :: definedNames rest := rfl

@[simp] theorem definedNames_plainLabel (name : String) (rest : List Line) :
    definedNames (.plainLabel name :: rest) = name :: definedNames rest := rfl

@[simp] theorem definedNames_reserve (name : String) (width : Width) (count : Nat)
    (rest : List Line) : definedNames (.reserve name width count :: rest) = name :: definedNames rest :=
  rfl

/-! ### Storage that lines reserve -/

def Line.reservation? : Line → Option (String × Width × Nat)
  | reserve name width count => some (name, width, count)
  | directive _ | label .. | inst _ => none

def Line.reserved? (line : Line) : Option (String × Nat) :=
  line.reservation?.map fun cell => (cell.1, cell.2.1.bytes * cell.2.2)

def reservations (lines : List Line) : List (String × Nat) := lines.filterMap Line.reserved?

def cellNames (lines : List Line) : List String := (reservations lines).map Prod.fst

theorem cellNames_reserve (name : String) (width : Width) (count : Nat) (rest : List Line) :
    cellNames (.reserve name width count :: rest) = name :: cellNames rest :=
  rfl

theorem cellNames_subset (lines : List Line) : cellNames lines ⊆ definedNames lines := by
  induction lines with
  | nil => exact List.Subset.refl _
  | cons line rest ih =>
    cases line with
    | reserve name width count => exact List.cons_subset_cons name ih
    | label name comment => exact List.subset_cons_of_subset name ih
    | directive | inst => exact ih

namespace Snippet

@[simp] theorem definedNames_mov (dst src : Operand) (rest : List Line) :
    definedNames (mov dst src :: rest) = definedNames rest := rfl

@[simp] theorem definedNames_testZero (rest : List Line) :
    definedNames (testZero :: rest) = definedNames rest := rfl

@[simp] theorem definedNames_unary (op : UnaryOp) : definedNames (unary op) = [] := by
  cases op <;> rfl

@[simp] theorem definedNames_binary (op : BinaryOp) : definedNames (binary op) = [] := by
  cases op <;> rfl

@[simp] theorem definedNames_assign (var : VarId) (op : AssignOp) :
    definedNames (assign var op) = [] := by
  cases op <;> rfl

@[simp] theorem definedNames_step (direction : Direction) (var : VarId) (timing : Timing) :
    definedNames (step direction var timing) = [] := by
  cases timing <;> cases direction <;> rfl

end Snippet

end IonLang
