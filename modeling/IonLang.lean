import IonLang.Assembly.Instruction
import IonLang.Assembly.Line
import IonLang.Assembly.Register
import IonLang.Assembly.Snippet
import IonLang.Command.Arguments
import IonLang.Command.Compiler
import IonLang.Command.Console
import IonLang.Command.Emulator
import IonLang.DataType
import IonLang.Diagnostic
import IonLang.Diagnostic.Report
import IonLang.Dictionary
import IonLang.Directory
import IonLang.Grammar.Cursor
import IonLang.Grammar.Definition
import IonLang.Grammar.Expression
import IonLang.Grammar.Name
import IonLang.Grammar.Statement
import IonLang.Machine
import IonLang.Machine.Step
import IonLang.Main
import IonLang.Monitor.Serial
import IonLang.Monitor.Session
import IonLang.Monitor.Watch
import IonLang.Node
import IonLang.Node.Code
import IonLang.Node.Precedence
import IonLang.Position
import IonLang.Program
import IonLang.Program.Assemble
import IonLang.Program.Listing
import IonLang.Settings
import IonLang.SymbolMap
import IonLang.Symbols
import IonLang.Symbols.Indexed
import IonLang.Text.Blank
import IonLang.Text.Decimal
import IonLang.Text.GraphemeExtend
import IonLang.Text.Layout
import IonLang.Text.Lines
import IonLang.Text.Quoted
import IonLang.Text.Style
import IonLang.Text.Unprintable
import IonLang.Token
import IonLang.Token.Scan
import IonLang.Yaml
import IonLang.Yaml.Cursor
import IonLang.Yaml.Decode
import IonLang.Yaml.Document
import IonLang.Yaml.Scalar.Block
import IonLang.Yaml.Scalar.Flow
import IonLang.Yaml.Scalar.Number
import IonLang.Yaml.Scalar.Written
import IonLang.Yaml.Tag
import IonLang.Yaml.Token
import IonLang.Yaml.Token.Scan
import IonLang.Proofs.Node.Precedence
import IonLang.Proofs.Grammar.Invariant
import IonLang.Proofs.Grammar.Forest
import IonLang.Proofs.Grammar.WellFormed
import IonLang.Proofs.Code.Label
import IonLang.Proofs.Code.LabelHygiene
import IonLang.Proofs.Machine.Execution
import IonLang.Proofs.Machine.Fault
import IonLang.Proofs.Machine.Layout
import IonLang.Proofs.Code.Snippet
import IonLang.Proofs.Code.Simulation
import IonLang.Proofs.Code.Correctness
import IonLang.Proofs.Code.Termination
import IonLang.Proofs.Grammar.Derivation
import IonLang.Proofs.Grammar.Spelling
import IonLang.Proofs.Grammar.Soundness
import IonLang.Proofs.Grammar.Lookahead
import IonLang.Proofs.Grammar.Completeness
import IonLang.Proofs.Grammar.Acceptance
import IonLang.Proofs.Grammar.Scope
import IonLang.Proofs.Grammar.Equivariance
import IonLang.Proofs.Independence
import IonLang.Proofs.Printing
import IonLang.Proofs.Grammar.Parsing
import IonLang.Proofs.Grammar.ReadBack
import IonLang.Proofs.Grammar.RoundTrip
import IonLang.Proofs.Grammar.Progress
import IonLang.Proofs.Reporting
import IonLang.Proofs.Grammar.Comparison
import IonLang.Proofs.Grammar.Locality
import IonLang.Proofs.Grammar.EndOfInput
import IonLang.Proofs.Grammar.Extension
import IonLang.Proofs.Machine.Output
import IonLang.Proofs.Monitor
import IonLang.Proofs.Directory
import IonLang.Proofs.Command
import IonLang.Proofs.Grammar.Termination
import IonLang.Proofs.Token.Lexeme
import IonLang.Proofs.Token.Coverage
import IonLang.Proofs.Token.Respelling
import IonLang.Proofs.Machine.Storage
import IonLang.Proofs.Assembly.Reading
import IonLang.Proofs.Grammar.Location
import IonLang.Proofs.Code.Emission
import IonLang.Proofs.Node.SExpression
import IonLang.Proofs.SymbolMap
import IonLang.Proofs.Serial
import IonLang.Proofs.Code.Rejection
import IonLang.Proofs.Excerpt
import IonLang.Proofs.Grammar.TypeForm
import IonLang.Proofs.SymbolTable
import IonLang.Proofs.Grammar.Shadowing
