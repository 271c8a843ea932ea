import Narrowing.Bound
import Narrowing.Comparator
import Narrowing.Operator
import Narrowing.Fault
import Narrowing.Interval
import Narrowing.Frame
import Narrowing.Text.Blank
import Narrowing.Text.Name
import Narrowing.Text.Numeral
import Narrowing.Text.Decimal
import Narrowing.Text.Date
import Narrowing.Text.Printable
import Narrowing.Text.Quoted
import Narrowing.Text.Columns
import Narrowing.Text.Path
import Narrowing.Text.Utf8
import Narrowing.Text.Base64
import Narrowing.Ty
import Narrowing.Ty.Reader
import Narrowing.Kind
import Narrowing.Constant
import Narrowing.Code
import Narrowing.Assembly.Printer
import Narrowing.Assembly.Reader
import Narrowing.Flow
import Narrowing.Tree
import Narrowing.Tree.Visit
import Narrowing.Decl
import Narrowing.Check
import Narrowing.Analysis.Transfer
import Narrowing.Analysis.Walk
import Narrowing.Analysis.Result
import Narrowing.Emit.Basic
import Narrowing.Emit.Expr
import Narrowing.Emit.Stmt
import Narrowing.Emit.Function
import Narrowing.Emit.File
import Narrowing.Yaml.Spot
import Narrowing.Yaml.Tag
import Narrowing.Yaml.Scalar
import Narrowing.Yaml.Token
import Narrowing.Yaml.Comment
import Narrowing.Yaml.Property
import Narrowing.Yaml.Token.Lexer
import Narrowing.Yaml.Node
import Narrowing.Yaml.Node.Reader
import Narrowing.Container.Schema
import Narrowing.Container.Body
import Narrowing.Container.Reader
import Narrowing.Compile
import Narrowing.Toml.Literal
import Narrowing.Toml.Reader
import Narrowing.Toml.Document
import Narrowing.Settings
import Narrowing.Settings.File
import Narrowing.Version
import Narrowing.Command.Files
import Narrowing.Command.Flags
import Narrowing.Command.Run
import Narrowing.Main
import Narrowing.Proofs.Interval
import Narrowing.Proofs.Frame
import Narrowing.Proofs.Flow
import Narrowing.Proofs.Transfer
import Narrowing.Proofs.Walk
import Narrowing.Proofs.Solution
import Narrowing.Proofs.Execution
import Narrowing.Proofs.Soundness
import Narrowing.Proofs.Effort
import Narrowing.Proofs.DeclaredKind
import Narrowing.Proofs.Check
import Narrowing.Proofs.Safety
import Narrowing.Proofs.Text
import Narrowing.Proofs.Assembly.Block
import Narrowing.Proofs.Compile
import Narrowing.Proofs.Emission
import Narrowing.Proofs.Split
import Narrowing.Proofs.WordName
import Narrowing.Proofs.Occurrence
import Narrowing.Proofs.TypeText
import Narrowing.Proofs.WellFormed
import Narrowing.Proofs.Selection
import Narrowing.Proofs.Output
import Narrowing.Proofs.CTerm
import Narrowing.Proofs.Unambiguous
import Narrowing.Proofs.Shape
import Narrowing.Proofs.Writer
import Narrowing.Proofs.Reach
import Narrowing.Proofs.Precondition
import Narrowing.Proofs.Forward
import Narrowing.Proofs.Assembly.Compose
import Narrowing.Proofs.Assembly.Grammar
import Narrowing.Proofs.Assembly.Rejection
import Narrowing.Proofs.Enumeration
import Narrowing.Proofs.Monotone
import Narrowing.Proofs.Settings
import Narrowing.Proofs.Footprint
import Narrowing.Proofs.Lattice
