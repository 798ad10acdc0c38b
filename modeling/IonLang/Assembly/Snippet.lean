import IonLang.Assembly.Line
import IonLang.Node

/-!
# Code snippets

The instructions for the operators of the language. A value is in `rax`, and a second operand is
in `rbx`.
-/

namespace IonLang

/-- The data label of the byte through which characters are printed. -/
def charCell : String := "cbuf"

def Line.plainLabel (name : String) : Line := .label name none

namespace Snippet

def mov (dst src : Operand) : Line := .inst (.mov dst src)

def rax : Operand := .reg .rax

def rbx : Operand := .reg .rbx

def cell (var : VarId) : Operand := .mem var.label

def load (var : VarId) : Line := mov rax (cell var)

def testZero : Line := .inst (.cmp rax (.imm "0"))

/-- Turns a condition into 0 or 1. -/
def flag (cond : Condition) : List Line :=
  [.inst (.set cond .al), .inst (.movzx .rax .al)]

def compare (cond : Condition) : List Line := .inst (.cmp rax rbx) :: flag cond

def binary : BinaryOp → List Line
  | .add => [.inst (.add rax rbx)]
  | .sub => [.inst (.sub rax rbx)]
  | .mul => [.inst (.imul .rax rbx)]
  | .eq => compare .e
  | .ne => compare .ne
  | .lt => compare .b
  | .gt => compare .a
  | .le => compare .be
  | .ge => compare .ae

def unary : UnaryOp → List Line
  | .neg => [.inst (.neg .rax)]
  | .not => testZero :: flag .e

/-- Stores the value into a variable and leaves the variable's new value. -/
def assign (var : VarId) : AssignOp → List Line
  | .set => [mov (cell var) rax]
  | .add => [.inst (.add (cell var) rax), load var]
  | .sub => [.inst (.sub (cell var) rax), load var]
  | .mul => [.inst (.imul .rax (cell var)), mov (cell var) rax]

def count (var : VarId) : Direction → Line
  | .up => .inst (.inc (cell var))
  | .down => .inst (.dec (cell var))

/-- Counts a variable and leaves its value from before or after. -/
def step (direction : Direction) (var : VarId) : Timing → List Line
  | .before => [count var direction, load var]
  | .after => [load var, count var direction]

/-- Prints the low byte of the value. -/
def putChar : List Line :=
  [mov (.mem charCell) (.reg .al), mov rax (.imm "1"), mov (.reg .rdi) (.imm "1"),
    mov (.reg .rsi) (.addr charCell), mov (.reg .rdx) (.imm "1"), .inst .syscall]

end Snippet

end IonLang
