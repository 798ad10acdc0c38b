/-!
# Layout of text

Padding to a width counted in characters, hexadecimal numerals, and braces. A text longer than the
width is left as it is.
-/

namespace IonLang.Text

def fill (count : Nat) (c : Char) : String := String.ofList (List.replicate count c)

/-- Pads in front, so that the text ends at the column `width`. -/
def padStart (width : Nat) (c : Char) (text : String) : String :=
  fill (width - text.length) c ++ text

/-- Pads behind with spaces, so that the text takes at least `width` columns. -/
def padEnd (width : Nat) (text : String) : String :=
  text ++ fill (width - text.length) ' '

def hexLower (n : Nat) : String := String.ofList (Nat.toDigits 16 n)

/-- Upper-case hexadecimal numeral, with zeros in front up to `width` digits. -/
def hexUpper (width : Nat) (n : Nat) : String :=
  padStart width '0' (String.ofList ((Nat.toDigits 16 n).map Char.toUpper))

def braced (text : String) : String := String.singleton '{' ++ text ++ String.singleton '}'

end IonLang.Text
