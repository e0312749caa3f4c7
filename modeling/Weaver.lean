import Weaver.Anno.Catalog
import Weaver.Anno.Reading
import Weaver.Anno.Value
import Weaver.Code.Basic
import Weaver.Code.Lift
import Weaver.Code.Lower
import Weaver.Code.Outline
import Weaver.Code.Relocate
import Weaver.Command.FileSystem
import Weaver.Command.Glob
import Weaver.Command.Help
import Weaver.Command.Input
import Weaver.Command.Option
import Weaver.Command.Process
import Weaver.Command.Record
import Weaver.Command.Row
import Weaver.Command.Run
import Weaver.Command.Scalar
import Weaver.Command.Search
import Weaver.Command.Setting
import Weaver.Diff.Unified
import Weaver.Generator.Compile
import Weaver.Generator.Element
import Weaver.Generator.Jump
import Weaver.Generator.Machine
import Weaver.Handler.Basic
import Weaver.Handler.Builder
import Weaver.Handler.Check
import Weaver.Handler.Function
import Weaver.Handler.Generator
import Weaver.Handler.Lock
import Weaver.Handler.Rethrow
import Weaver.Handler.Setter
import Weaver.Handler.Standard
import Weaver.Handler.Thread
import Weaver.Handler.Type
import Weaver.Main
import Weaver.Number.Floating
import Weaver.Number.Reader
import Weaver.Number.Shortest
import Weaver.Parse.Basic
import Weaver.Parse.Expression
import Weaver.Parse.Statement
import Weaver.Parse.Type
import Weaver.Parse.Unit
import Weaver.Processing.Config
import Weaver.Processing.Diagnostic
import Weaver.Processing.Process
import Weaver.Processing.Weave
import Weaver.Proofs.Generator.Equivalence
import Weaver.Source.Escape
import Weaver.Source.Fault
import Weaver.Source.Lexer
import Weaver.Source.Literal
import Weaver.Source.Position
import Weaver.Source.Scanner
import Weaver.Source.Token
import Weaver.SourceUnit.Basic
import Weaver.SourceUnit.Edit
import Weaver.SourceUnit.Registry
import Weaver.Syntax.Declaration
import Weaver.Syntax.Flags
import Weaver.Syntax.Hole
import Weaver.Syntax.Operator
import Weaver.Syntax.Outline
import Weaver.Syntax.Print
import Weaver.Syntax.Traverse
import Weaver.Syntax.Tree
import Weaver.Template
import Weaver.Text.Case
import Weaver.Text.Glyph
import Weaver.Text.Letter
import Weaver.Text.Name
import Weaver.Text.Printable
import Weaver.Text.Quoted
import Weaver.Text.Ranges
import Weaver.Yaml.Cursor
import Weaver.Yaml.Document
import Weaver.Yaml.Node
import Weaver.Yaml.Property
import Weaver.Yaml.Scalar
import Weaver.Yaml.Scanner
import Weaver.Yaml.Show
import Weaver.Yaml.Timestamp
import Weaver.Yaml.Value
import Weaver.Proofs.Parse.Steps
import Weaver.Proofs.Generator.Laziness
import Weaver.Proofs.Processing.Service
import Weaver.Proofs.Code.RoundTrip
import Weaver.Proofs.Syntax.Legible
import Weaver.Proofs.Generator.WellFormed
import Weaver.Proofs.Source.Fuel
import Weaver.Proofs.Parse.Total
import Weaver.Proofs.Handler.Moved
import Weaver.Proofs.SourceUnit.Edits
import Weaver.Proofs.SourceUnit.Evolve
import Weaver.Proofs.Handler.Confined
import Weaver.Proofs.Handler.Gaining
import Weaver.Proofs.Handler.Layers
import Weaver.Proofs.Processing.Conditions
import Weaver.Proofs.Processing.Disabled
import Weaver.Proofs.Processing.Suppression
import Weaver.Proofs.Syntax.Traversal
import Weaver.Proofs.Parse.TypeForm
import Weaver.Proofs.Code.TypeRestore
import Weaver.Proofs.Code.Qualified
import Weaver.Proofs.Code.Strays
import Weaver.Proofs.Code.Renamed
import Weaver.Proofs.Generator.Contribution
import Weaver.Proofs.Generator.YieldCount
import Weaver.Proofs.Generator.FieldNames
import Weaver.Proofs.Generator.Capture
import Weaver.Proofs.Source.Denotation
import Weaver.Proofs.Source.Integer
import Weaver.Proofs.Source.Decimal
import Weaver.Proofs.Parse.Constant
import Weaver.Proofs.Code.Fragments
import Weaver.Proofs.Code.Maker
import Weaver.Proofs.Code.Making
import Weaver.Proofs.Code.Attribution
import Weaver.Proofs.SourceUnit.Arrangement
import Weaver.Proofs.Handler.Coverage
import Weaver.Proofs.Handler.Distinct
import Weaver.Proofs.Handler.Message
import Weaver.Proofs.Processing.Conversion
import Weaver.Proofs.Generator.Leaving
import Weaver.Proofs.Processing.Nested
import Weaver.Proofs.Parse.TypeReturn
import Weaver.Proofs.Handler.Reached
import Weaver.Proofs.Code.Defaults
import Weaver.Proofs.Source.Faithful
