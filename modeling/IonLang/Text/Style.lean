/-!
# Terminal styles

Escape sequences for coloured, bold and underlined text. Styled text is never interpreted: only
the codes around it are added.
-/

namespace IonLang.Text

inductive Colour where
  | red | green | yellow | blue | magenta | cyan
  deriving DecidableEq, Repr

def rendition (code : String) : String := "\x1b[" ++ code ++ "m"

def Colour.on : Colour → String
  | .red => rendition "31"
  | .green => rendition "32"
  | .yellow => rendition "33"
  | .blue => rendition "34"
  | .magenta => rendition "35"
  | .cyan => rendition "36"

def colourOff : String := rendition "39"

def paint (colour : Colour) (text : String) : String := colour.on ++ text ++ colourOff

/-- Text in bold red, the style of error headings and carets. -/
def alarm (text : String) : String :=
  Colour.red.on ++ rendition "1" ++ text ++ colourOff ++ rendition "22"

def underline (text : String) : String := rendition "4" ++ text ++ rendition "24"

end IonLang.Text
