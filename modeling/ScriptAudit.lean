import ScriptAudit.Text.Basic
import ScriptAudit.Text.Blank
import ScriptAudit.Text.Digit
import ScriptAudit.Text.Printable
import ScriptAudit.Text.Quoted
import ScriptAudit.Tree.Operator
import ScriptAudit.Tree.Form
import ScriptAudit.Tree.Node
import ScriptAudit.Grammar.Lexeme
import ScriptAudit.Grammar.Cursor
import ScriptAudit.Grammar.Peg
import ScriptAudit.Grammar.Settled
import ScriptAudit.Grammar.Packrat
import ScriptAudit.Number.Decimal
import ScriptAudit.Number.Shortest
import ScriptAudit.Number.Fixed
import ScriptAudit.Number.Amount
import ScriptAudit.Tree.Token
import ScriptAudit.Grammar.Rule
import ScriptAudit.Grammar.Script
import ScriptAudit.Json.Basic
import ScriptAudit.Json.Reader
import ScriptAudit.Json.Writer
import ScriptAudit.Source.Position
import ScriptAudit.Report.AuditError
import ScriptAudit.Script.Program
import ScriptAudit.Tree.Fold
import ScriptAudit.Tree.Sexp
import ScriptAudit.Tree.Display
import ScriptAudit.Tree.Visitor
import ScriptAudit.Script.Loops
import ScriptAudit.Script.Names
import ScriptAudit.Script.Imports
import ScriptAudit.Table
import ScriptAudit.Report.Noted
import ScriptAudit.Number.Whole
import ScriptAudit.Report.Diagnostic
import ScriptAudit.Cost.Player
import ScriptAudit.Cost.Price
import ScriptAudit.Cost.Catalog
import ScriptAudit.Cost.Breakdown
import ScriptAudit.Cost.Document
import ScriptAudit.Text.Utf8
import ScriptAudit.Files.Path
import ScriptAudit.Files.Tree
import ScriptAudit.Cost.Load
import ScriptAudit.Command.Notice
import ScriptAudit.Command.Manual
import ScriptAudit.Command.Arguments
import ScriptAudit.Command.Task
import ScriptAudit.Command.Run
import ScriptAudit.Main
import ScriptAudit.Proofs.Lexeme
import ScriptAudit.Proofs.Account
import ScriptAudit.Proofs.Preorder
import ScriptAudit.Proofs.Layout
import ScriptAudit.Proofs.Parts
import ScriptAudit.Proofs.ScriptLayout
import ScriptAudit.Proofs.SourceOrder
import ScriptAudit.Proofs.Matcher
import ScriptAudit.Proofs.TreeLayout
import ScriptAudit.Proofs.LoopCheck
import ScriptAudit.Proofs.BreadthFirst
import ScriptAudit.Proofs.ImportClosure
import ScriptAudit.Proofs.WholePrices
import ScriptAudit.Proofs.CostOfImports
import ScriptAudit.Proofs.PlayerPrices
import ScriptAudit.Proofs.Normalisation
import ScriptAudit.Proofs.Foresight
import ScriptAudit.Proofs.OperatorTree
import ScriptAudit.Proofs.Reading
import ScriptAudit.Proofs.OperatorLadder
import ScriptAudit.Proofs.OperatorReading
import ScriptAudit.Proofs.SpanInvariant
import ScriptAudit.Proofs.NameOrder
import ScriptAudit.Proofs.ParseOutcome
import ScriptAudit.Proofs.LeadingTrivia
import ScriptAudit.Proofs.DocumentOrder
import ScriptAudit.Proofs.Nesting
import ScriptAudit.Proofs.Outcomes
import ScriptAudit.Proofs.MalformedPrices
import ScriptAudit.Proofs.DistinctLines
import ScriptAudit.Proofs.Traversal
import ScriptAudit.Proofs.JsonWriting
import ScriptAudit.Proofs.DiskScripts
import ScriptAudit.Proofs.WholeOutput
import ScriptAudit.Proofs.CheckCommand
import ScriptAudit.Proofs.ChargedNames
import ScriptAudit.Proofs.BinaryRange
import ScriptAudit.Proofs.SumRange
import ScriptAudit.Proofs.AddedFile
import ScriptAudit.Proofs.UnrelatedFiles
import ScriptAudit.Proofs.AcceptedDocuments
import ScriptAudit.Proofs.SyntaxErrors
import ScriptAudit.Proofs.NumberShape
import ScriptAudit.Proofs.NumberTokens
import ScriptAudit.Proofs.EscapedText
import ScriptAudit.Proofs.ExpressionReading
import ScriptAudit.Proofs.LiteralReading
import ScriptAudit.Proofs.LinesAndColumns
import ScriptAudit.Proofs.LineContinuation
import ScriptAudit.Proofs.SexpReading
import ScriptAudit.Proofs.SexpTree
import ScriptAudit.Proofs.ModulePaths
import ScriptAudit.Proofs.PlayerFlags
import ScriptAudit.Proofs.ErrorLines
import ScriptAudit.Proofs.ReservedNames
import ScriptAudit.Proofs.NodeTexts
