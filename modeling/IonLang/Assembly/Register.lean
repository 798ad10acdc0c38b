/-!
# Registers and conditions

The registers of the machine and the condition codes of its conditional instructions. `al` is the
low byte of `rax` and shares its slot in the register file.
-/

namespace IonLang

inductive Register where
  | rax | rbx | rcx | rdx | rsi | rdi | al
  deriving DecidableEq, Repr, Inhabited

namespace Register

def all : List Register := [rax, rbx, rcx, rdx, rsi, rdi, al]

def name : Register → String
  | rax => "rax"
  | rbx => "rbx"
  | rcx => "rcx"
  | rdx => "rdx"
  | rsi => "rsi"
  | rdi => "rdi"
  | al => "al"

/-- The register with a given lower-case name. -/
def ofName? (name : String) : Option Register :=
  all.find? fun reg => reg.name == name

/-- A name as the user writes it, in any mix of ASCII letter cases. -/
def parse? (text : String) : Option Register :=
  ofName? (String.ofList (text.toList.map Char.toLower))

def unknownMessage (text : String) : String := "Unknown reg name: " ++ text

def index : Register → Nat
  | rax => 0
  | rbx => 1
  | rcx => 2
  | rdx => 3
  | rsi => 4
  | rdi => 5
  | al => 6

/-- The register of a number; numbers without a register stand for `rax`. -/
def ofIndex (n : Nat) : Register := all[n]?.getD rax

def slot : Register → Fin 6
  | rax | al => 0
  | rbx => 1
  | rcx => 2
  | rdx => 3
  | rsi => 4
  | rdi => 5

def isByte : Register → Bool
  | al => true
  | _ => false

end Register

/-- Condition codes; comparisons are unsigned. -/
inductive Condition where
  | e | ne | b | a | be | ae
  deriving DecidableEq, Repr

namespace Condition

def all : List Condition := [e, ne, b, a, be, ae]

def name : Condition → String
  | e => "e"
  | ne => "ne"
  | b => "b"
  | a => "a"
  | be => "be"
  | ae => "ae"

def ofName? (name : String) : Option Condition :=
  all.find? fun cond => cond.name == name

/-- Whether a condition holds under the zero and carry flags that a comparison left. -/
def holds (zero carry : Bool) : Condition → Bool
  | e => zero
  | ne => !zero
  | b => carry
  | a => !carry && !zero
  | be => carry || zero
  | ae => !carry

end Condition

end IonLang
