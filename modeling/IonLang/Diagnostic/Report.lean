import IonLang.Diagnostic
import IonLang.Text.Layout
import IonLang.Text.Lines
import IonLang.Text.Style

/-!
# Reports

A diagnostic as it is shown to the user: the message, and for a diagnostic with a position the
source line with a caret below it. The caret stands as many columns to the right as the position's
column says, and a line that is not at hand is shown as an empty one.
-/

namespace IonLang

/-- The lines of the source files at hand, by file name. -/
abbrev SourceLines := Dictionary (List String)

def SourceLines.ofFile (file source : String) : SourceLines :=
  Dictionary.ofList [(file, Text.lines source)]

/-- The line a position lies in, or the empty line. -/
def SourceLines.lineAt (sources : SourceLines) (pos : Position) : String :=
  (((sources.get? pos.file).getD [])[pos.line - 1]?).getD ""

namespace Diagnostic

def excerpt (sources : SourceLines) (pos : Position) : String :=
  let bar := "      " ++ Text.paint .blue "|"
  "     " ++ Text.paint .blue "-->" ++ " " ++ Text.underline pos.render ++ "\n" ++
  bar ++ "\n" ++
  " " ++ Text.paint .blue (Text.padStart 4 ' ' (toString pos.line) ++ " |") ++ " " ++
    sources.lineAt pos ++ "\n" ++
  bar ++ " " ++ Text.fill (pos.column - 1) ' ' ++ Text.alarm "^" ++ "\n"

def report (sources : SourceLines) (diagnostic : Diagnostic) : String :=
  Text.alarm "error" ++ ": " ++ diagnostic.message ++ "\n" ++
    match diagnostic.position? with
    | some pos => excerpt sources pos
    | none => ""

end Diagnostic

end IonLang
