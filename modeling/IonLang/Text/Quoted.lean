import IonLang.Text.GraphemeExtend
import IonLang.Text.Layout
import IonLang.Text.Unprintable

/-!
# Quoted text

A text in double quotes in which quotes, backslashes, and all characters that would not show on
their own are escaped.
-/

namespace IonLang.Text

def quoteChar (c : Char) : String :=
  match c with
  | '"' => "\\\""
  | '\\' => "\\\\"
  | '\n' => "\\n"
  | '\r' => "\\r"
  | '\t' => "\\t"
  | '\x00' => "\\0"
  | _ =>
    if isGraphemeExtend c || isUnprintable c then "\\u" ++ braced (hexLower c.toNat)
    else String.singleton c

def quote (text : String) : String :=
  "\"" ++ String.join (text.toList.map quoteChar) ++ "\""

end IonLang.Text
