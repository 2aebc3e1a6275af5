import SymbolIndex.Bytewise.Calls
import SymbolIndex.Bytewise.Extraction
import SymbolIndex.Bytewise.LineIndex
import SymbolIndex.Bytewise.Queries
import SymbolIndex.Bytewise.Scan
import SymbolIndex.Bytewise.Wildcard
import SymbolIndex.Call
import SymbolIndex.Conformance
import SymbolIndex.Container
import SymbolIndex.Definition
import SymbolIndex.Diagnostic
import SymbolIndex.Document
import SymbolIndex.Files.Exclusion
import SymbolIndex.Files.Glob
import SymbolIndex.Files.Path
import SymbolIndex.Files.Source
import SymbolIndex.Files.Tree
import SymbolIndex.Kind
import SymbolIndex.Lexical
import SymbolIndex.Lexical.Comment
import SymbolIndex.Main
import SymbolIndex.Model
import SymbolIndex.Options
import SymbolIndex.Outline
import SymbolIndex.Pattern
import SymbolIndex.Position
import SymbolIndex.Program
import SymbolIndex.Proofs.Balances
import SymbolIndex.Proofs.Bindings
import SymbolIndex.Proofs.BlockComments
import SymbolIndex.Proofs.BlockEnds
import SymbolIndex.Proofs.Braces
import SymbolIndex.Proofs.ByteQueries
import SymbolIndex.Proofs.ByteReading
import SymbolIndex.Proofs.ByteScan
import SymbolIndex.Proofs.Bytes
import SymbolIndex.Proofs.CallFrames
import SymbolIndex.Proofs.CallHelp
import SymbolIndex.Proofs.Classification
import SymbolIndex.Proofs.Clauses
import SymbolIndex.Proofs.CommandLines
import SymbolIndex.Proofs.Concatenation
import SymbolIndex.Proofs.Correspondence
import SymbolIndex.Proofs.Cursors
import SymbolIndex.Proofs.Declarations
import SymbolIndex.Proofs.Definitions
import SymbolIndex.Proofs.Depths
import SymbolIndex.Proofs.FileByFile
import SymbolIndex.Proofs.FileSearch
import SymbolIndex.Proofs.FileSelection
import SymbolIndex.Proofs.FunctionForms
import SymbolIndex.Proofs.Headings
import SymbolIndex.Proofs.Indentation
import SymbolIndex.Proofs.ItemReading
import SymbolIndex.Proofs.JsonGrammar
import SymbolIndex.Proofs.JsonReading
import SymbolIndex.Proofs.JsonRoundTrip
import SymbolIndex.Proofs.LineBalances
import SymbolIndex.Proofs.LineStarts
import SymbolIndex.Proofs.Lines
import SymbolIndex.Proofs.MemberLists
import SymbolIndex.Proofs.MessageReading
import SymbolIndex.Proofs.MessageTexts
import SymbolIndex.Proofs.Occurrence
import SymbolIndex.Proofs.Offsets
import SymbolIndex.Proofs.OneLineForms
import SymbolIndex.Proofs.OpaqueTokens
import SymbolIndex.Proofs.Patterns
import SymbolIndex.Proofs.Places
import SymbolIndex.Proofs.PlainLines
import SymbolIndex.Proofs.ReadBack
import SymbolIndex.Proofs.Reading
import SymbolIndex.Proofs.Recovery
import SymbolIndex.Proofs.RelativePaths
import SymbolIndex.Proofs.Remarks
import SymbolIndex.Proofs.ScalarReading
import SymbolIndex.Proofs.Scalars
import SymbolIndex.Proofs.Selections
import SymbolIndex.Proofs.Shapes
import SymbolIndex.Proofs.Sites
import SymbolIndex.Proofs.SourceOrder
import SymbolIndex.Proofs.Terminators
import SymbolIndex.Proofs.Totality
import SymbolIndex.Proofs.TrailingComments
import SymbolIndex.Proofs.Trimming
import SymbolIndex.Proofs.Violations
import SymbolIndex.Proofs.WellFormed
import SymbolIndex.Proofs.WholeWords
import SymbolIndex.Proofs.Wildcards
import SymbolIndex.Proofs.Words
import SymbolIndex.Proofs.WrappedParameters
import SymbolIndex.Proofs.Writing
import SymbolIndex.Proofs.YamlEntries
import SymbolIndex.Proofs.YamlLayout
import SymbolIndex.Proofs.YamlReports
import SymbolIndex.Record
import SymbolIndex.Reference
import SymbolIndex.Report
import SymbolIndex.Report.Json
import SymbolIndex.Report.Scalar
import SymbolIndex.Report.Yaml
import SymbolIndex.Shape.Callable
import SymbolIndex.Shape.Container
import SymbolIndex.Shape.Line
import SymbolIndex.Shape.Value
import SymbolIndex.Signature
import SymbolIndex.Site
import SymbolIndex.Symbol
import SymbolIndex.Table
import SymbolIndex.Text.Alphabetic
import SymbolIndex.Text.Basic
import SymbolIndex.Text.CharClass
import SymbolIndex.Text.Mark
import SymbolIndex.Text.Number
import SymbolIndex.Text.Numeric
import SymbolIndex.Text.Uppercase
import SymbolIndex.Text.Utf8
