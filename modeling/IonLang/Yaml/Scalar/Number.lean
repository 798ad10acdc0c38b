import IonLang.Yaml.Cursor

/-!
# Texts that read as numbers

The spellings of integers and of floating-point numbers. An integer fits in 128 bits and may be
written to the base two, eight, ten or sixteen. A floating-point number is a decimal that rounds to
a finite number of double precision, or names an infinity or what is not a number.
-/

namespace IonLang.Yaml

/-- The value of digits to a base; there is at least one. -/
def digits? (base : Nat) (text : List Char) : Option Nat := do
  let digits ← text.mapM hexDigit?
  if text.isEmpty || digits.any (base ≤ ·) then none
  else some (digits.foldl (fun value digit => base * value + digit) 0)

/-- The value of digits to a base that their first two characters name, ten if they name none. -/
def basedDigits? : List Char → Option Nat
  | '0' :: 'x' :: rest => digits? 16 rest
  | '0' :: 'o' :: rest => digits? 8 rest
  | '0' :: 'b' :: rest => digits? 2 rest
  | text => digits? 10 text

def dropSign : List Char → List Char
  | '+' :: rest => rest
  | '-' :: rest => rest
  | text => text

/-- Whether a text is a row of several decimal digits with a needless nought in front. -/
def hasLeadingZero (text : List Char) : Bool :=
  match dropSign text with
  | '0' :: c :: rest => (c :: rest).all isDigit
  | _ => false

def isInteger (text : List Char) : Bool :=
  !hasLeadingZero text &&
    match text with
    | '-' :: rest => (basedDigits? rest).any (· ≤ Nat.pow 2 127)
    | '+' :: rest => (basedDigits? rest).any (· < Nat.pow 2 128)
    | _ => (basedDigits? text).any (· < Nat.pow 2 128)

/-! ### Decimals -/

/-- The exponent behind a decimal, if there is one and all of it is read. -/
def exponent? : List Char → Option Int
  | [] => some 0
  | 'e' :: rest | 'E' :: rest =>
    match rest with
    | '-' :: rest => (digits? 10 rest).map fun value => -(value : Int)
    | '+' :: rest => (digits? 10 rest).map fun value => (value : Int)
    | _ => (digits? 10 rest).map fun value => (value : Int)
  | _ => none

/-- A decimal without a sign, as a whole number and the power of ten to multiply it by. -/
def decimal? (text : List Char) : Option (Nat × Int) := do
  let whole := text.takeWhile isDigit
  let rest := text.dropWhile isDigit
  let (fraction, rest) :=
    match rest with
    | '.' :: rest => (rest.takeWhile isDigit, rest.dropWhile isDigit)
    | _ => ([], rest)
  let value ← digits? 10 (whole ++ fraction)
  some (value, (← exponent? rest) - fraction.length)

/-- The least number that is too great for double precision. -/
def firstInfinite : Nat := Nat.pow 2 1024 - Nat.pow 2 970

/-- Whether a decimal rounds to a finite number. Only if it has as many digits as the greatest
finite number are the two compared. -/
def isFinite (value : Nat) (power : Int) : Bool :=
  let size : Int := (Nat.toDigits 10 value).length + power
  let limit : Int := (Nat.toDigits 10 firstInfinite).length
  value == 0 || size < limit ||
    (size == limit &&
      if 0 ≤ power then value * Nat.pow 10 power.toNat < firstInfinite
      else value < firstInfinite * Nat.pow 10 (-power).toNat)

def namedFloats : List String :=
  [".inf", ".Inf", ".INF", "+.inf", "+.Inf", "+.INF", "-.inf", "-.Inf", "-.INF", ".nan", ".NaN",
    ".NAN"]

def isFloat (text : List Char) : Bool :=
  namedFloats.contains (String.ofList text) ||
    (decimal? (dropSign text)).any fun decimal => isFinite decimal.1 decimal.2

/-- Whether a text reads as a number or only just does not. -/
def isNumeric (text : String) : Bool :=
  isInteger text.toList || hasLeadingZero text.toList || isFloat text.toList

end IonLang.Yaml
