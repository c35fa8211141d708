import Wireframe.Cell.Column
import Wireframe.Cell.Fault
import Wireframe.Cell.Range
import Wireframe.Cell.Reference
import Wireframe.Command.Arguments
import Wireframe.Command.Basic
import Wireframe.Command.Outcome
import Wireframe.Command.Switch
import Wireframe.Compile
import Wireframe.Config
import Wireframe.Disk.Action
import Wireframe.Disk.Fault
import Wireframe.Disk.Path
import Wireframe.Disk.Tree
import Wireframe.Document.Basic
import Wireframe.Document.Color
import Wireframe.Document.Component
import Wireframe.Document.Draft
import Wireframe.Document.Issue
import Wireframe.Document.Settings
import Wireframe.Drawing
import Wireframe.Field
import Wireframe.Image
import Wireframe.Keyed
import Wireframe.Layout.Canvas
import Wireframe.Layout.Fault
import Wireframe.Layout.Plan
import Wireframe.Layout.Track
import Wireframe.Log.Level
import Wireframe.Log.Note
import Wireframe.Log.Record
import Wireframe.Main
import Wireframe.Number.Binary64
import Wireframe.Number.Capacity
import Wireframe.Number.Decimal
import Wireframe.Number.Hundredths
import Wireframe.Number.Length
import Wireframe.Number.Numeral
import Wireframe.Number.Rounding
import Wireframe.Number.Scalar
import Wireframe.Number.Shortest
import Wireframe.Proofs.CanvasExact
import Wireframe.Proofs.CellRoundTrip
import Wireframe.Proofs.CellSets
import Wireframe.Proofs.CellText
import Wireframe.Proofs.ColumnOrder
import Wireframe.Proofs.CommandAgreement
import Wireframe.Proofs.CommandEnds
import Wireframe.Proofs.CommandExits
import Wireframe.Proofs.CommandOutput
import Wireframe.Proofs.ComponentEntries
import Wireframe.Proofs.ComponentPhrases
import Wireframe.Proofs.DiskWrites
import Wireframe.Proofs.DocumentExtension
import Wireframe.Proofs.DocumentGrowth
import Wireframe.Proofs.DocumentIssues
import Wireframe.Proofs.DocumentPhrases
import Wireframe.Proofs.DocumentRoundTrip
import Wireframe.Proofs.DocumentSwap
import Wireframe.Proofs.DocumentText
import Wireframe.Proofs.DraftColors
import Wireframe.Proofs.DraftHistory
import Wireframe.Proofs.DraftLayout
import Wireframe.Proofs.DraftOrder
import Wireframe.Proofs.DraftRelocation
import Wireframe.Proofs.DraftRules
import Wireframe.Proofs.DraftRun
import Wireframe.Proofs.DraftStep
import Wireframe.Proofs.DrawingImages
import Wireframe.Proofs.DrawingMarkup
import Wireframe.Proofs.DrawingPlacement
import Wireframe.Proofs.DrawingText
import Wireframe.Proofs.DrawingTotal
import Wireframe.Proofs.EscapedTexts
import Wireframe.Proofs.FitFirst
import Wireframe.Proofs.FitLoop
import Wireframe.Proofs.FitMonotone
import Wireframe.Proofs.FloatArithmetic
import Wireframe.Proofs.FloatMonotone
import Wireframe.Proofs.FloatOrder
import Wireframe.Proofs.FloatPacking
import Wireframe.Proofs.FloatQuotients
import Wireframe.Proofs.FloatRatio
import Wireframe.Proofs.FloatRounding
import Wireframe.Proofs.FloatSigns
import Wireframe.Proofs.FloatUnits
import Wireframe.Proofs.ImagePaths
import Wireframe.Proofs.KeyedEntries
import Wireframe.Proofs.LayoutApart
import Wireframe.Proofs.LayoutDrawable
import Wireframe.Proofs.LayoutSpans
import Wireframe.Proofs.LayoutTotal
import Wireframe.Proofs.LexemeExtension
import Wireframe.Proofs.LexemeScan
import Wireframe.Proofs.MarkupGrammar
import Wireframe.Proofs.NumberTexts
import Wireframe.Proofs.PhraseReaders
import Wireframe.Proofs.Phrases
import Wireframe.Proofs.QuotedLexemes
import Wireframe.Proofs.ReaderOutcome
import Wireframe.Proofs.ReaderPlaces
import Wireframe.Proofs.ReaderReach
import Wireframe.Proofs.ReaderRelocation
import Wireframe.Proofs.ReaderStages
import Wireframe.Proofs.ReportExcerpts
import Wireframe.Proofs.Results
import Wireframe.Proofs.SettingsRules
import Wireframe.Proofs.ShapeReaders
import Wireframe.Proofs.StatementMeaning
import Wireframe.Proofs.StatementRules
import Wireframe.Proofs.StatementTexts
import Wireframe.Proofs.TextSplit
import Wireframe.Proofs.TokenLines
import Wireframe.Proofs.TokenLocations
import Wireframe.Proofs.TokenShape
import Wireframe.Proofs.TokenTiles
import Wireframe.Proofs.TokenTrivia
import Wireframe.Proofs.WrapAgain
import Wireframe.Proofs.WrapBlanks
import Wireframe.Proofs.WrapContent
import Wireframe.Proofs.WrapPieces
import Wireframe.Source.Location
import Wireframe.Source.Report
import Wireframe.Statement.Basic
import Wireframe.Statement.Failure
import Wireframe.Statement.Grammar
import Wireframe.Statement.Reader
import Wireframe.Svg.Attribute
import Wireframe.Svg.Element
import Wireframe.Text.Base64
import Wireframe.Text.Blank
import Wireframe.Text.Case
import Wireframe.Text.CaseTable
import Wireframe.Text.Digit
import Wireframe.Text.PrintableTable
import Wireframe.Text.Quoted
import Wireframe.Text.Ranges
import Wireframe.Text.Split
import Wireframe.Text.Utf8
import Wireframe.Theme
import Wireframe.Token.Basic
import Wireframe.Token.Kind
import Wireframe.Token.Lexeme
import Wireframe.Typeset.Fit
import Wireframe.Typeset.Glyph
import Wireframe.Typeset.Wrap
