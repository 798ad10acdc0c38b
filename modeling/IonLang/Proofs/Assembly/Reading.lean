import IonLang.Assembly.Line
import IonLang.Proofs.Code.Label
import IonLang.Text.Decimal
import Mathlib.Data.List.TakeWhile

/-!
# Reading assembly text

The text of a line can be read back (`Line.ofText_render`): indentation and a colon tell the kinds of
lines apart, a mnemonic ends at the first space and an operand at a comma, and an operand is in
brackets, a register, a numeral or a name. So two units are written alike only if they are equal.
This is not so for arbitrary lines, whose texts may hold what divides the parts of a line, but it is
for plain ones.
-/

namespace IonLang

namespace Text

/-- The parts of a text before and behind the first occurrence of a character. -/
def cut (c : Char) (text : List Char) : List Char × List Char :=
  (text.takeWhile (· != c), (text.dropWhile (· != c)).drop 1)

theorem bne_of_not_mem {c : Char} {text : List Char} (free : c ∉ text) :
    ∀ d ∈ text, (d != c) = true := by
  intro d member
  have apart : d ≠ c := fun same => free (same ▸ member)
  simpa using apart

theorem cut_append {c : Char} {front : List Char} (free : c ∉ front) (back : List Char) :
    cut c (front ++ c :: back) = (front, back) := by
  have run := bne_of_not_mem free
  rw [cut, List.takeWhile_append_of_pos run, List.dropWhile_append_of_pos run]
  simp

theorem cut_of_not_mem {c : Char} {text : List Char} (free : c ∉ text) : cut c text = (text, []) := by
  have run := bne_of_not_mem free
  rw [cut, List.takeWhile_eq_self_iff.mpr run, List.dropWhile_eq_nil_iff.mpr run, List.drop_nil]

/-- Lines that are each ended by a line feed can be told apart. -/
theorem terminated_inj {lines lines' : List (List Char)} (free : ∀ line ∈ lines, '\n' ∉ line)
    (free' : ∀ line ∈ lines', '\n' ∉ line)
    (same : lines.flatMap (· ++ ['\n']) = lines'.flatMap (· ++ ['\n'])) : lines = lines' := by
  induction lines generalizing lines' with
  | nil =>
    cases lines' with
    | nil => rfl
    | cons line rest => simp at same
  | cons line rest ih =>
    cases lines' with
    | nil => simp at same
    | cons line' rest' =>
      obtain ⟨solid, free⟩ := List.forall_mem_cons.mp free
      obtain ⟨solid', free'⟩ := List.forall_mem_cons.mp free'
      simp only [List.flatMap_cons, List.append_assoc, List.singleton_append] at same
      have parts := congrArg (cut '\n') same
      rw [cut_append solid, cut_append solid', Prod.mk.injEq] at parts
      rw [parts.1, ih free free' parts.2]

def avoids (chars text : List Char) : Bool := text.all fun c => !chars.contains c

def lineSeparators : List Char := [':', '\n']

def separators : List Char := ' ' :: ',' :: lineSeparators

theorem not_mem_of_avoids {chars text : List Char} {c : Char} (avoiding : avoids chars text = true)
    (separates : chars.contains c = true) : c ∉ text := by
  intro member
  have free := List.all_eq_true.mp avoiding c member
  rw [separates] at free
  cases free

theorem avoids_append (chars front back : List Char) :
    avoids chars (front ++ back) = (avoids chars front && avoids chars back) := List.all_append

theorem avoids_of_all {p : Char → Bool} {chars text : List Char} (apart : chars.any p = false)
    (all : ∀ c ∈ text, p c = true) : avoids chars text = true := by
  refine List.all_eq_true.mpr fun c member => ?_
  cases found : chars.contains c with
  | false => rfl
  | true =>
    have other := List.any_eq_false.mp apart c (List.contains_iff_mem.mp found)
    exact absurd (all c member) other

theorem avoids_number (n : Nat) : avoids separators (toString n).toList = true := by
  refine avoids_of_all (p := Char.isDigit) rfl fun c member => ?_
  rw [toList_toString] at member
  exact Nat.isDigit_of_mem_toDigits (by omega) (by omega) member

theorem avoids_of_cons {c : Char} {chars text : List Char} (avoiding : avoids (c :: chars) text = true) :
    avoids chars text = true := by
  refine List.all_eq_true.mpr fun d member => ?_
  have free := List.all_eq_true.mp avoiding d member
  rw [List.contains_cons, Bool.not_or] at free
  exact (Bool.and_eq_true_iff.mp free).2

end Text

open Text (avoids separators lineSeparators avoids_append avoids_of_cons not_mem_of_avoids)

/-! ### Operands -/

theorem Register.ofName?_of_digit {text : String} {c : Char} (first : text.toList.head? = some c)
    (digit : Text.isDigit c = true) : ofName? text = none := by
  cases found : ofName? text with
  | none => rfl
  | some reg =>
    have named : reg.name = text := by simpa using List.find?_some found
    rw [← named] at first
    have letter : reg.name.toList.head?.any Text.isDigit = false := by cases reg <;> rfl
    rw [first] at letter
    exact absurd digit (by simpa using letter)

namespace Operand

/-- Whether an operand is written so that its kind shows. -/
def isPlain : Operand → Bool
  | reg _ => true
  | imm text => text.toList.head?.isSome && text.toList.all Text.isDigit
  | mem label => avoids separators label.toList
  | addr label => avoids separators label.toList && (Register.ofName? label).isNone &&
      label.toList.head?.any fun c => c != '[' && !Text.isDigit c

def ofText (text : List Char) : Operand :=
  if text.head? = some '[' then .mem (String.ofList (text.drop 1).dropLast)
  else
    match Register.ofName? (String.ofList text) with
    | some found => .reg found
    | none =>
      if text.all Text.isDigit then .imm (String.ofList text) else .addr (String.ofList text)

def ofSizedText (text : List Char) : Operand :=
  ofText (if text.contains ' ' then (Text.cut ' ' text).2 else text)

variable {op : Operand}

theorem avoids_render (plain : op.isPlain = true) : avoids separators op.render.toList = true := by
  cases op with
  | reg reg => cases reg <;> rfl
  | imm text =>
    have digits := (Bool.and_eq_true_iff.mp plain).2
    exact Text.avoids_of_all rfl (List.all_eq_true.mp digits)
  | mem label =>
    have solid : avoids separators label.toList = true := plain
    have text : (mem label).render.toList = ['['] ++ label.toList ++ [']'] := by simp [render]
    rw [text, avoids_append, avoids_append, solid]
    rfl
  | addr label =>
    simp only [isPlain, Bool.and_eq_true] at plain
    exact plain.1.1

theorem ofText_unnamed {text : String} (bare : text.toList.head? ≠ some '[')
    (unnamed : Register.ofName? text = none) :
    ofText text.toList = if text.toList.all Text.isDigit then .imm text else .addr text := by
  rw [ofText, if_neg bare, String.ofList_toList, unnamed]

theorem ofText_render (plain : op.isPlain = true) : ofText op.render.toList = op := by
  cases op with
  | reg reg => cases reg <;> rfl
  | mem label => simp [ofText, render]
  | imm text =>
    obtain ⟨nonempty, digits⟩ := Bool.and_eq_true_iff.mp plain
    obtain ⟨c, first⟩ := Option.isSome_iff_exists.mp nonempty
    have digit := List.all_eq_true.mp digits c (List.mem_of_head? first)
    have bare : text.toList.head? ≠ some '[' := by
      rw [first]
      rintro same
      cases same
      cases digit
    rw [render, ofText_unnamed bare (Register.ofName?_of_digit first digit), if_pos digits]
  | addr label =>
    simp only [isPlain, Bool.and_eq_true, Option.isNone_iff_eq_none] at plain
    obtain ⟨⟨_, unnamed⟩, initial⟩ := plain
    obtain ⟨c, first, letter⟩ := (Option.any_eq_true ..).mp initial
    obtain ⟨notBracket, notDigit⟩ := Bool.and_eq_true_iff.mp letter
    have bare : label.toList.head? ≠ some '[' := by
      rw [first]
      simpa using notBracket
    have word : ¬label.toList.all Text.isDigit = true := by
      intro digits
      have digit := List.all_eq_true.mp digits c (List.mem_of_head? first)
      rw [digit] at notDigit
      cases notDigit
    rw [render, ofText_unnamed bare unnamed, if_neg word]

theorem ofSizedText_render (plain : op.isPlain = true) : ofSizedText op.render.toList = op := by
  have solid := avoids_render plain
  have free := not_mem_of_avoids solid (c := ' ') rfl
  rw [ofSizedText, if_neg (by simpa using free), ofText_render plain]

theorem ofSizedText_renderSized (plain : op.isPlain = true) :
    ofSizedText op.renderSized.toList = op := by
  cases op with
  | mem label =>
    have text : (mem label).renderSized.toList =
        ['q', 'w', 'o', 'r', 'd'] ++ ' ' :: (mem label).render.toList := by simp [renderSized]
    rw [ofSizedText, text, if_pos (by simp), Text.cut_append (by simp), ofText_render plain]
  | _ => exact ofSizedText_render plain

theorem avoids_renderSized (plain : op.isPlain = true) :
    avoids (',' :: lineSeparators) op.renderSized.toList = true := by
  have solid := avoids_of_cons (avoids_render plain)
  cases op with
  | mem label =>
    rw [renderSized, String.toList_append, avoids_append, solid]
    rfl
  | _ => exact solid

/-- Two operands are written as two texts, of which the first may state a width. -/
theorem renderPair_eq {dst : Operand} (plain : dst.isPlain = true) (src : Operand) :
    ∃ text : String, dst.renderPair src = [text, src.render] ∧ ofSizedText text.toList = dst ∧
      avoids (',' :: lineSeparators) text.toList = true := by
  by_cases sized : dst.renderPair src = [dst.renderSized, src.render]
  · exact ⟨_, sized, ofSizedText_renderSized plain, avoids_renderSized plain⟩
  · refine ⟨dst.render, ?_, ofSizedText_render plain, avoids_of_cons (avoids_render plain)⟩
    cases dst <;> cases src <;> first | rfl | exact absurd rfl sized

end Operand

/-! ### Instructions -/

namespace Instruction

def isPlain : Instruction → Bool
  | mov dst src | add dst src | sub dst src | cmp dst src => dst.isPlain && src.isPlain
  | imul _ op | inc op | dec op => op.isPlain
  | jmp label | jcc _ label | call label => avoids separators label.toList
  | movzx .. | neg _ | set .. | push _ | pop _ | ret | syscall => true

def readRegister (text : List Char) : Register :=
  (Register.ofName? (String.ofList text)).getD .rax

def readPair {α β : Type} (first : List Char → α) (second : List Char → β)
    (make : α → β → Instruction) (text : List Char) : Instruction :=
  make (first (Text.cut ',' text).1) (second ((Text.cut ',' text).2.drop 1))

def readOperands : (Operand → Operand → Instruction) → List Char → Instruction :=
  readPair .ofSizedText .ofText

def readers : List (String × (List Char → Instruction)) :=
  [("mov", readOperands mov), ("add", readOperands add), ("sub", readOperands sub),
    ("cmp", readOperands cmp), ("movzx", readPair readRegister readRegister movzx),
    ("imul", readPair readRegister .ofText imul), ("neg", neg ∘ readRegister),
    ("push", push ∘ readRegister), ("pop", pop ∘ readRegister), ("inc", inc ∘ .ofSizedText),
    ("dec", dec ∘ .ofSizedText), ("jmp", jmp ∘ String.ofList), ("call", call ∘ String.ofList),
    ("ret", fun _ => ret), ("syscall", fun _ => syscall)] ++
  Condition.all.flatMap fun cond =>
    [("set" ++ cond.name, set cond ∘ readRegister), ("j" ++ cond.name, jcc cond ∘ String.ofList)]

def ofText (text : List Char) : Option Instruction :=
  (readers.lookup (String.ofList (Text.cut ' ' text).1)).map fun read => read (Text.cut ' ' text).2

theorem readRegister_name (reg : Register) : readRegister reg.name.toList = reg := by
  cases reg <;> rfl

variable {i : Instruction}

theorem avoids_mnemonic (i : Instruction) : avoids separators i.mnemonic.toList = true := by
  cases i with
  | set cond _ | jcc cond _ =>
    rw [mnemonic]
    cases cond <;> rfl
  | _ =>
    rw [mnemonic]
    rfl

theorem cut_render (i : Instruction) :
    Text.cut ' ' i.render.toList = (i.mnemonic.toList, i.operandText.toList) := by
  have free := not_mem_of_avoids (avoids_mnemonic i) (c := ' ') rfl
  unfold render
  split
  · next none =>
    rw [Text.cut_of_not_mem free, operandText, List.isEmpty_iff.mp none]
    rfl
  · have text : (i.mnemonic ++ " " ++ i.operandText).toList =
        i.mnemonic.toList ++ ' ' :: i.operandText.toList := by simp
    rw [text, Text.cut_append free]

theorem ofText_of_reader {read : List Char → Instruction} (found : readers.lookup i.mnemonic = some read)
    (reads : read i.operandText.toList = i) : ofText i.render.toList = some i := by
  rw [ofText, cut_render, String.ofList_toList, found, Option.map_some, reads]

theorem toList_pair (first second : String) : (", ".intercalate [first, second]).toList =
    first.toList ++ ',' :: ' ' :: second.toList := by
  have joined : ", ".intercalate [first, second] = first ++ ", " ++ second := rfl
  simp [joined]

theorem readPair_intercalate {α β : Type} {first : List Char → α} {second : List Char → β}
    {text text' : String} (free : ',' ∉ text.toList) (make : α → β → Instruction) :
    readPair first second make (", ".intercalate [text, text']).toList =
      make (first text.toList) (second text'.toList) := by
  rw [readPair, toList_pair, Text.cut_append free, List.drop_one, List.tail_cons]

theorem readOperands_renderPair (make : Operand → Operand → Instruction) {dst src : Operand}
    (plain : (dst.isPlain && src.isPlain) = true) :
    readOperands make (", ".intercalate (dst.renderPair src)).toList = make dst src := by
  obtain ⟨dstPlain, srcPlain⟩ := Bool.and_eq_true_iff.mp plain
  obtain ⟨text, pair, reads, avoiding⟩ := Operand.renderPair_eq dstPlain src
  have free := not_mem_of_avoids avoiding (c := ',') rfl
  rw [pair, readOperands, readPair_intercalate free, reads, Operand.ofText_render srcPlain]

theorem comma_not_mem_name (reg : Register) : ',' ∉ reg.name.toList := by
  cases reg <;> decide

/-- An instruction is the only one with its text. -/
theorem ofText_render (plain : i.isPlain = true) : ofText i.render.toList = some i := by
  cases i with
  | mov dst src | add dst src | sub dst src | cmp dst src =>
    exact ofText_of_reader rfl (readOperands_renderPair _ plain)
  | movzx dst src =>
    refine ofText_of_reader rfl ((readPair_intercalate (comma_not_mem_name dst) _).trans ?_)
    rw [readRegister_name, readRegister_name]
  | imul dst src =>
    refine ofText_of_reader rfl ((readPair_intercalate (comma_not_mem_name dst) _).trans ?_)
    rw [readRegister_name, Operand.ofText_render plain]
  | neg reg | push reg | pop reg =>
    exact ofText_of_reader rfl (congrArg _ (readRegister_name reg))
  | inc op | dec op => exact ofText_of_reader rfl (congrArg _ (Operand.ofSizedText_renderSized plain))
  | set cond reg =>
    have found : readers.lookup (set cond reg).mnemonic = some (set cond ∘ readRegister) := by
      cases cond <;> rfl
    exact ofText_of_reader found (congrArg _ (readRegister_name reg))
  | jmp label | call label => exact ofText_of_reader rfl (congrArg _ String.ofList_toList)
  | jcc cond label =>
    have found : readers.lookup (jcc cond label).mnemonic = some (jcc cond ∘ String.ofList) := by
      cases cond <;> rfl
    exact ofText_of_reader found (congrArg _ String.ofList_toList)
  | ret | syscall => exact ofText_of_reader rfl rfl

theorem avoids_name (reg : Register) : avoids lineSeparators reg.name.toList = true := by
  cases reg <;> rfl

theorem avoids_pair {first second : String} (left : avoids lineSeparators first.toList = true)
    (right : avoids lineSeparators second.toList = true) :
    avoids lineSeparators (", ".intercalate [first, second]).toList = true := by
  have text : first.toList ++ ',' :: ' ' :: second.toList =
      first.toList ++ ([',', ' '] ++ second.toList) := rfl
  rw [toList_pair, text, avoids_append, avoids_append, left, right]
  rfl

theorem avoids_operandText (plain : i.isPlain = true) :
    avoids lineSeparators i.operandText.toList = true := by
  have inner {op : Operand} (plain : op.isPlain = true) :
      avoids lineSeparators op.render.toList = true :=
    avoids_of_cons (avoids_of_cons (Operand.avoids_render plain))
  cases i with
  | mov dst src | add dst src | sub dst src | cmp dst src =>
    obtain ⟨dstPlain, srcPlain⟩ := Bool.and_eq_true_iff.mp plain
    obtain ⟨text, pair, _, avoiding⟩ := Operand.renderPair_eq dstPlain src
    rw [operandText, operands, pair]
    exact avoids_pair (avoids_of_cons avoiding) (inner srcPlain)
  | movzx dst src => exact avoids_pair (avoids_name dst) (avoids_name src)
  | imul dst src => exact avoids_pair (avoids_name dst) (inner plain)
  | neg reg | push reg | pop reg | set _ reg => exact avoids_name reg
  | inc op | dec op => exact avoids_of_cons (Operand.avoids_renderSized plain)
  | jmp label | jcc _ label | call label => exact avoids_of_cons (avoids_of_cons plain)
  | ret | syscall => rfl

theorem avoids_render (plain : i.isPlain = true) :
    avoids lineSeparators i.render.toList = true := by
  have mnemonic := avoids_of_cons (avoids_of_cons (avoids_mnemonic i))
  unfold render
  split
  · exact mnemonic
  · rw [String.toList_append, String.toList_append, avoids_append, avoids_append, mnemonic,
      avoids_operandText plain]
    rfl

end Instruction

/-! ### Lines -/

namespace Line

/-- Whether the parts of a line can be told apart in its text. -/
def isPlain : Line → Bool
  | directive text => avoids lineSeparators text.toList && text.toList.head? != some ' '
  | reserve name _ _ => avoids separators name.toList
  | label name comment => avoids separators name.toList &&
      comment.all fun text => avoids ['\n'] text.toList
  | inst i => i.isPlain

def readReservation (name text : List Char) : Line :=
  .reserve (String.ofList name) (if text.take 5 = [' ', 'r', 'e', 's', 'b'] then .byte else .qword)
    (Nat.ofDigitChars 10 (text.drop 6) 0)

def readLabel (name text : List Char) : Line :=
  .label (String.ofList name) (if text.isEmpty then none else some (String.ofList (text.drop 4)))

def ofText (text : List Char) : Option Line :=
  if text.contains ':' then
    if text.head? = some ' ' then
      some (readReservation ((Text.cut ':' text).1.drop 4) (Text.cut ':' text).2)
    else some (readLabel (Text.cut ':' text).1 (Text.cut ':' text).2)
  else if text.head? = some ' ' then (Instruction.ofText (text.drop 4)).map .inst
  else some (.directive (String.ofList text))

theorem readReservation_tail (name : String) (width : Width) (count : Nat) :
    readReservation name.toList (reservation width count).toList.tail = .reserve name width count := by
  cases width <;> simp [readReservation, reservation, Width.directive]

/-- A line is the only one with its text. -/
theorem ofText_render {line : Line} (plain : line.isPlain = true) :
    ofText line.render.toList = some line := by
  cases line with
  | directive text =>
    obtain ⟨avoiding, initial⟩ := Bool.and_eq_true_iff.mp plain
    have free := not_mem_of_avoids avoiding (c := ':') rfl
    have flush : text.toList.head? ≠ some ' ' := by simpa using initial
    simp [render, ofText, free, flush]
  | reserve name width count =>
    have free : ':' ∉ [' ', ' ', ' ', ' '] ++ name.toList := by
      simpa using not_mem_of_avoids plain (c := ':') rfl
    have text : (reserve name width count).render.toList =
        ([' ', ' ', ' ', ' '] ++ name.toList) ++ ':' :: (reservation width count).toList.tail := by
      simp [render, reservation]
    rw [text, ofText, if_pos (by simp), if_pos (by simp), Text.cut_append free]
    exact congrArg some (readReservation_tail name width count)
  | label name comment =>
    obtain ⟨solid, _⟩ := Bool.and_eq_true_iff.mp plain
    have free := not_mem_of_avoids solid (c := ':') rfl
    have flush (back : List Char) : (name.toList ++ ':' :: back).head? ≠ some ' ' := by
      have := not_mem_of_avoids solid (c := ' ') rfl
      cases chars : name.toList with
      | nil => simp
      | cons c rest =>
        rw [chars] at this
        intro same
        cases same
        exact this List.mem_cons_self
    obtain ⟨back, text, read⟩ : ∃ back, (label name comment).render.toList = name.toList ++ ':' :: back ∧
        readLabel name.toList back = label name comment := by
      cases comment with
      | none => exact ⟨[], by simp [render], by simp [readLabel]⟩
      | some comment =>
        exact ⟨[' ', ';', ';', ' '] ++ comment.toList, by simp [render], by simp [readLabel]⟩
    rw [text, ofText, if_pos (by simp), if_neg (flush back), Text.cut_append free]
    exact congrArg some read
  | inst i =>
    have free := not_mem_of_avoids (Instruction.avoids_render plain) (c := ':') rfl
    have text : (inst i).render.toList = [' ', ' ', ' ', ' '] ++ i.render.toList := by simp [render]
    have read := Instruction.ofText_render plain
    simp [text, ofText, free, read]

theorem newline_not_mem_render {line : Line} (plain : line.isPlain = true) :
    '\n' ∉ line.render.toList := by
  cases line with
  | directive text =>
    exact not_mem_of_avoids (Bool.and_eq_true_iff.mp plain).1 rfl
  | reserve name width count =>
    have free := not_mem_of_avoids plain (c := '\n') rfl
    have number := not_mem_of_avoids (Text.avoids_number count) (c := '\n') rfl
    rw [toList_toString] at number
    cases width <;> simp [render, reservation, Width.directive, free, number]
  | label name comment =>
    obtain ⟨solid, text⟩ := Bool.and_eq_true_iff.mp plain
    have free := not_mem_of_avoids solid (c := '\n') rfl
    cases comment with
    | none => simp [render, free]
    | some comment =>
      have := not_mem_of_avoids text (c := '\n') rfl
      simp [render, free, this]
  | inst i =>
    have free := not_mem_of_avoids (Instruction.avoids_render plain) (c := '\n') rfl
    simp [render, free]

end Line

/-! ### Units -/

namespace Assembly

theorem toList_render (code : Assembly) :
    code.render.toList = (code.lines.map fun line => line.render.toList).flatMap (· ++ ['\n']) := by
  simp [render, List.flatMap_map]

/-- Units of plain lines are written alike only if they are equal. -/
theorem lines_eq_of_render_eq {code code' : Assembly}
    (plain : ∀ line ∈ code.lines, line.isPlain = true)
    (plain' : ∀ line ∈ code'.lines, line.isPlain = true) (same : code.render = code'.render) :
    code.lines = code'.lines := by
  have free {code : Assembly} (plain : ∀ line ∈ code.lines, line.isPlain = true) :
      ∀ text ∈ code.lines.map fun line => line.render.toList, '\n' ∉ text := by
    intro text member
    obtain ⟨line, inside, rfl⟩ := List.mem_map.mp member
    exact Line.newline_not_mem_render (plain line inside)
  have read {code : Assembly} (plain : ∀ line ∈ code.lines, line.isPlain = true) :
      (code.lines.map fun line => line.render.toList).map Line.ofText = code.lines.map some := by
    rw [List.map_map]
    exact List.map_congr_left fun line member => Line.ofText_render (plain line member)
  have texts := congrArg String.toList same
  rw [toList_render, toList_render] at texts
  have lines := congrArg (List.map Line.ofText) (Text.terminated_inj (free plain) (free plain') texts)
  rw [read plain, read plain'] at lines
  exact (List.map_inj_right fun _ _ => Option.some.inj).mp lines

-- A directive that is not plain can be taken for a label.
example : Assembly.render ⟨[.directive "exit:"]⟩ = Assembly.render ⟨[.label "exit" none]⟩ := by decide

end Assembly

end IonLang
