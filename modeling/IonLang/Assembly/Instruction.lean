import IonLang.Assembly.Register
import IonLang.Text.Layout
import IonLang.Text.Style

/-!
# Instructions

The instruction set with its assembly text. A memory operand whose width no register fixes is
written with an explicit `qword`.
-/

namespace IonLang

inductive Operand where
  | reg (reg : Register)
  /-- An integer literal, as written in the source. -/
  | imm (text : String)
  /-- The memory cell at a data label. -/
  | mem (label : String)
  /-- The address of a data label. -/
  | addr (label : String)
  deriving DecidableEq, Repr

namespace Operand

def render : Operand → String
  | reg r => r.name
  | imm text => text
  | mem label => "[" ++ label ++ "]"
  | addr label => label

/-- The text of an operand that states the width of a memory cell. -/
def renderSized : Operand → String
  | mem label => "qword " ++ (mem label).render
  | op => op.render

def renderPair : Operand → Operand → List String
  | mem label, imm text => [(mem label).renderSized, text]
  | dst, src => [dst.render, src.render]

end Operand

inductive Instruction where
  | mov (dst src : Operand)
  | movzx (dst src : Register)
  | add (dst src : Operand)
  | sub (dst src : Operand)
  | imul (dst : Register) (src : Operand)
  | neg (reg : Register)
  | inc (op : Operand)
  | dec (op : Operand)
  | cmp (lhs rhs : Operand)
  | set (cond : Condition) (reg : Register)
  | push (reg : Register)
  | pop (reg : Register)
  | jmp (label : String)
  | jcc (cond : Condition) (label : String)
  | call (label : String)
  | ret
  | syscall
  deriving DecidableEq, Repr

namespace Instruction

def mnemonic : Instruction → String
  | mov .. => "mov"
  | movzx .. => "movzx"
  | add .. => "add"
  | sub .. => "sub"
  | imul .. => "imul"
  | neg _ => "neg"
  | inc _ => "inc"
  | dec _ => "dec"
  | cmp .. => "cmp"
  | set cond _ => "set" ++ cond.name
  | push _ => "push"
  | pop _ => "pop"
  | jmp _ => "jmp"
  | jcc cond _ => "j" ++ cond.name
  | call _ => "call"
  | ret => "ret"
  | syscall => "syscall"

def operands : Instruction → List String
  | mov dst src | add dst src | sub dst src | cmp dst src => dst.renderPair src
  | movzx dst src => [dst.name, src.name]
  | imul dst src => [dst.name, src.render]
  | neg reg | push reg | pop reg | set _ reg => [reg.name]
  | inc op | dec op => [op.renderSized]
  | jmp label | jcc _ label | call label => [label]
  | ret | syscall => []

/-- Whether an instruction names a code label. -/
def isJump : Instruction → Bool
  | jmp _ | jcc .. | call _ => true
  | _ => false

def operandText (inst : Instruction) : String := ", ".intercalate inst.operands

def render (inst : Instruction) : String :=
  if inst.operands.isEmpty then inst.mnemonic else inst.mnemonic ++ " " ++ inst.operandText

/-- The text of an instruction in colours, with the operands in a column of their own. -/
def renderStyled (inst : Instruction) : String :=
  let operandColour : Text.Colour := if inst.isJump then .green else .blue
  Text.Colour.red.on ++ Text.padEnd 8 inst.mnemonic ++ Text.paint operandColour inst.operandText

end Instruction

end IonLang
