import CssTemplate.Block.Piece
import CssTemplate.Block.Place
import CssTemplate.Block.Split
import CssTemplate.Call
import CssTemplate.CommandLine.Arguments
import CssTemplate.CommandLine.Help
import CssTemplate.CommandLine.Report
import CssTemplate.CommandLine.Run
import CssTemplate.CommandLine.Terminal
import CssTemplate.Compilation
import CssTemplate.Config
import CssTemplate.Css.Component
import CssTemplate.Css.Delimited
import CssTemplate.Css.Fault
import CssTemplate.Css.FlatRule
import CssTemplate.Css.Flatten
import CssTemplate.Css.Item
import CssTemplate.Css.Lexer
import CssTemplate.Css.Minified
import CssTemplate.Css.Name
import CssTemplate.Css.NestedRule
import CssTemplate.Css.Numeral
import CssTemplate.Css.Printer
import CssTemplate.Css.Selector
import CssTemplate.Css.Statement
import CssTemplate.Css.Vendor
import CssTemplate.CssProcessor
import CssTemplate.Fault
import CssTemplate.Main
import CssTemplate.Marker.Encoding
import CssTemplate.Marker.Markers
import CssTemplate.Output.Build
import CssTemplate.Output.Script
import CssTemplate.Output.Shape
import CssTemplate.Output.Slots
import CssTemplate.Output.Term
import CssTemplate.Proofs.Block.Split
import CssTemplate.Proofs.Css.Recoloring
import CssTemplate.Proofs.Css.Reading
import CssTemplate.Proofs.Except
import CssTemplate.Proofs.Marker.Meaning
import CssTemplate.Proofs.Marker.RoundTrip
import CssTemplate.Proofs.Output.Interpretation
import CssTemplate.Proofs.Output.Shape
import CssTemplate.Proofs.Output.Slots
import CssTemplate.Proofs.Output.Terms
import CssTemplate.Proofs.Source.Grammar
import CssTemplate.Proofs.Source.Reader
import CssTemplate.Proofs.Source.Step
import CssTemplate.Proofs.Source.Tagged
import CssTemplate.Source.Reader
import CssTemplate.Source.Tagged
import CssTemplate.Source.Tree
import CssTemplate.Tag
import CssTemplate.Template.Expression
import CssTemplate.Template.Foreign
import CssTemplate.Template.Node
import CssTemplate.Template.Segment
import CssTemplate.Text.Alphanumeric
import CssTemplate.Text.Blank
import CssTemplate.Text.Decimal
import CssTemplate.Text.Identifier
import CssTemplate.Text.Numeral
import CssTemplate.Text.Printable
import CssTemplate.Text.Quoted
import CssTemplate.Text.Ranges
import CssTemplate.Text.Similarity
import CssTemplate.Text.Split
import CssTemplate.Text.StringLiteral
import CssTemplate.Proofs.Css.RecoloredTokens
import CssTemplate.Proofs.Css.RecoloredItems
import CssTemplate.Proofs.Css.RecoloredText
import CssTemplate.Proofs.Css.Origin
import CssTemplate.Proofs.Css.Grouping
import CssTemplate.Proofs.Css.Heads
import CssTemplate.Proofs.Css.Context
import CssTemplate.Proofs.Marker.Rebase
import CssTemplate.Proofs.Css.Hereditary
import CssTemplate.Proofs.Output.Rebased
import CssTemplate.Proofs.Css.Plain
import CssTemplate.Proofs.Css.Tame
import CssTemplate.Proofs.Compilation
import CssTemplate.Proofs.Block.Braces
import CssTemplate.Proofs.Css.Blocks
import CssTemplate.Proofs.Css.AnimationName
import CssTemplate.Proofs.Call
import CssTemplate.Proofs.Containment
import CssTemplate.Proofs.Block.Place
import CssTemplate.Proofs.Css.Values
import CssTemplate.Proofs.Output.Inlined
import CssTemplate.Proofs.Source.Printed
import CssTemplate.Proofs.Block.Refused
import CssTemplate.Proofs.Css.NestedAtRules
import CssTemplate.Proofs.Block.StyleRules
import CssTemplate.Proofs.Output.Keyframes
import CssTemplate.Proofs.Css.Enclosing
import CssTemplate.Proofs.Css.Tidy
import CssTemplate.Proofs.Css.TidyRules
import CssTemplate.Proofs.Css.Canonical
import CssTemplate.Proofs.Css.Reread
import CssTemplate.Proofs.Css.Unprefixed
import CssTemplate.Proofs.Css.RuleBlocks
import CssTemplate.Proofs.Block.Primitive
import CssTemplate.Proofs.Template.Refill
import CssTemplate.Proofs.Source.Blank
import CssTemplate.Proofs.Output.SlotRuns
import CssTemplate.Proofs.Text.Characters
import CssTemplate.Proofs.Text.Trimmed
import CssTemplate.Proofs.Tag
import CssTemplate.Proofs.Css.ScopedSelectors
import CssTemplate.Proofs.Css.EmptySelectors
import CssTemplate.Proofs.Css.Spelling
import CssTemplate.Proofs.Css.Digits
import CssTemplate.Proofs.Css.TokenText
import CssTemplate.Proofs.Css.ReadBack
import CssTemplate.Proofs.Css.TokenForm
import CssTemplate.Proofs.Css.Lexemes
import CssTemplate.Proofs.Css.Faithful
import CssTemplate.Proofs.Css.BlockValues
import CssTemplate.Proofs.Css.RereadDeclarations
import CssTemplate.Proofs.Css.Statements
import CssTemplate.Proofs.Text.Identifier
import CssTemplate.Proofs.Config
import CssTemplate.Proofs.Text.StringLiteral
import CssTemplate.Proofs.Output.HostPlace
import CssTemplate.Proofs.Output.Script
import CssTemplate.Proofs.Source.Settled
import CssTemplate.Proofs.Output.Layout
import CssTemplate.Proofs.Output.Comments
import CssTemplate.Proofs.Marker.MarkerRuns
import CssTemplate.Proofs.Marker.Reserved
import CssTemplate.Proofs.Block.Pieces
