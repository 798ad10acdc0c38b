import IonLang.Assembly.Line
import IonLang.Dictionary
import IonLang.Text.Decimal
import IonLang.Text.Layout

/-!
# Machine states

The machine runs an assembly unit. Data memory is laid out by the reservations of the unit in
order, code memory holds its instructions, and labels are looked up by name. The stack is apart
from data memory.
-/

namespace IonLang

namespace Machine

inductive Fault where
  | unknownLabel (label : String)
  | badImmediate (text : String)
  | stackUnderflow (pc : Nat)
  | badAddress (address : UInt64)
  | unsupportedSyscall (number : UInt64)
  | outOfCode (pc : Nat)
  deriving DecidableEq, Repr

def Fault.message : Fault → String
  | .unknownLabel label => "Unknown label: '" ++ label ++ "'"
  | .badImmediate text => "Invalid immediate: '" ++ text ++ "'"
  | .stackUnderflow pc => "Stack underflow at pc=" ++ toString pc
  | .badAddress address => "Memory access out of range: 0x" ++ Text.hexLower address.toNat
  | .unsupportedSyscall number => "Unsupported syscall: " ++ toString number.toNat
  | .outOfCode pc => "Program counter out of code: pc=" ++ toString pc

end Machine

structure Machine where
  registers : Vector UInt64 6 := Vector.replicate 6 0
  zero : Bool := false
  carry : Bool := false
  data : Array UInt8 := #[]
  /-- The addresses of data labels. -/
  symbols : Dictionary Nat := {}
  code : Array Instruction := #[]
  /-- The places of code labels. -/
  labels : Dictionary Nat := {}
  pc : Nat := 0
  /-- The stack, with the top first: values of registers, and places to which calls return. -/
  stack : List Nat := []
  /-- All bytes that have been written. -/
  output : Array UInt8 := #[]
  /-- Bytes that have been written and not been collected. -/
  pending : Array UInt8 := #[]
  exit : Option UInt64 := none

namespace Machine

def startLabel : String := "_start"

def place (m : Machine) : Line → Machine
  | .directive _ => m
  | .reserve name width count =>
    { m with
      symbols := m.symbols.insert name m.data.size
      data := m.data ++ Array.replicate (width.bytes * count) 0 }
  | .label name _ => { m with labels := m.labels.insert name m.code.size }
  | .inst i => { m with code := m.code.push i }

def load (unit : Assembly) : Except Fault Machine :=
  let m := unit.lines.foldl place {}
  match m.labels.get? startLabel with
  | some pc => .ok { m with pc }
  | none => .error (.unknownLabel startLabel)

/-- The value of a register; a byte register shows the low byte. -/
def get (m : Machine) (reg : Register) : UInt64 :=
  let word := m.registers[reg.slot]
  if reg.isByte then word &&& 0xFF else word

/-- The word in a slot after a write to one of its registers: a byte register leaves the upper
bytes alone. -/
def merge (old value : UInt64) (reg : Register) : UInt64 :=
  if reg.isByte then (old &&& ~~~0xFF) ||| (value &&& 0xFF) else value

def set (m : Machine) (reg : Register) (value : UInt64) : Machine :=
  let word := merge m.registers[reg.slot] value reg
  { m with registers := m.registers.set reg.slot word reg.slot.isLt }

/-- The bytes of data memory from an address on, if all of them are there. -/
def bytesAt? (m : Machine) (address size : Nat) : Option (List UInt8) :=
  if address + size ≤ m.data.size then some (m.data.extract address (address + size)).toList
  else none

/-- The word whose bytes, the lowest first, are given. -/
def wordOfBytes : List UInt8 → UInt64
  | [] => 0
  | byte :: rest => byte.toUInt64 ||| (wordOfBytes rest <<< 8)

/-- The lowest `size` bytes of a word, the lowest first. -/
def bytesOfWord (word : UInt64) : Nat → List UInt8
  | 0 => []
  | size + 1 => word.toUInt8 :: bytesOfWord (word >>> 8) size

def readMemory (m : Machine) (address size : Nat) : Except Fault UInt64 :=
  match m.bytesAt? address size with
  | some bytes => .ok (wordOfBytes bytes)
  | none => .error (.badAddress (UInt64.ofNat address))

def overwrite (data : Array UInt8) (place : Nat) : List UInt8 → Array UInt8
  | [] => data
  | byte :: rest => overwrite (data.setIfInBounds place byte) (place + 1) rest

def writeMemory (m : Machine) (address size : Nat) (value : UInt64) : Except Fault Machine :=
  if address + size ≤ m.data.size then
    .ok { m with data := overwrite m.data address (bytesOfWord value size) }
  else .error (.badAddress (UInt64.ofNat address))

def address (m : Machine) (label : String) : Except Fault Nat :=
  match m.symbols.get? label with
  | some address => .ok address
  | none => .error (.unknownLabel label)

def target (m : Machine) (label : String) : Except Fault Nat :=
  match m.labels.get? label with
  | some place => .ok place
  | none => .error (.unknownLabel label)

def quadword? (m : Machine) (label : String) : Option UInt64 :=
  match m.address label with
  | .ok address => (m.readMemory address 8).toOption
  | .error _ => none

/-- The code labels at a place, in the order in which they were defined. -/
def labelsAt (m : Machine) (place : Nat) : List String :=
  (m.labels.entries.filter fun entry => entry.2 == place).map Prod.fst

def isTerminated (m : Machine) : Bool := m.exit.isSome

/-- Collects the bytes written since the last time. -/
def takePending (m : Machine) : Array UInt8 × Machine := (m.pending, { m with pending := #[] })

end Machine

end IonLang
