/-!
# Decimal numerals of machine words

A word is written with ASCII digits, at least one, after at most one plus sign. Leading zeros are
allowed, and a value of 2^64 or more is no word.
-/

namespace IonLang.Text

def isDigit (c : Char) : Bool := '0' ≤ c && c ≤ '9'

/-- The value of a digit string, read from the left onto `value`. -/
def decimalFrom (value : Nat) : List Char → Nat
  | [] => value
  | c :: rest => decimalFrom (10 * value + (c.toNat - '0'.toNat)) rest

/-- The digits of a numeral: what follows an optional plus sign. -/
def numeralDigits : List Char → List Char
  | '+' :: digits => digits
  | digits => digits

def wordOf? (text : String) : Option UInt64 :=
  let digits := numeralDigits text.toList
  if digits.isEmpty || !digits.all isDigit then none
  else
    let value := decimalFrom 0 digits
    if value < UInt64.size then some (UInt64.ofNat value) else none

end IonLang.Text
