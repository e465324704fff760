import MathMarkup.Color.History
import MathMarkup.Expr.Alike
import MathMarkup.Expr.Source
import MathMarkup.Expr.Visitor
import MathMarkup.Format
import MathMarkup.Formula
import MathMarkup.Latex.Command
import MathMarkup.Symbol.History
import MathMarkup.Symbol.Spelling
import MathMarkup.Token.Cursor
import MathMarkup.Proofs.Derivation
import MathMarkup.Proofs.Completeness
import MathMarkup.Proofs.Matrix
import MathMarkup.Proofs.Shape
import MathMarkup.Proofs.Leaves
import MathMarkup.Proofs.Regrouping
import MathMarkup.Proofs.RoundTrip
import MathMarkup.Proofs.Failure
import MathMarkup.Proofs.Faultless
import MathMarkup.Proofs.Rendering
import MathMarkup.Proofs.Delimiters
import MathMarkup.Proofs.Nesting
import MathMarkup.Proofs.MarkupReader
import MathMarkup.Proofs.ElementTrees
import MathMarkup.Proofs.LayoutParts
import MathMarkup.Proofs.WellFormed
import MathMarkup.Proofs.Arity
import MathMarkup.Proofs.SameContent
import MathMarkup.Proofs.Fences
import MathMarkup.Proofs.Lossless
import MathMarkup.Proofs.LongestMatch
import MathMarkup.Proofs.LatexLexemes
import MathMarkup.Proofs.LatexPieces
import MathMarkup.Proofs.LatexTypeset
import MathMarkup.Proofs.LatexNesting
import MathMarkup.Proofs.Respacing
import MathMarkup.Proofs.Juxtaposition
import MathMarkup.Proofs.ColorNames
import MathMarkup.Proofs.Grid
import MathMarkup.Proofs.References
import MathMarkup.Proofs.HexColors
import MathMarkup.Proofs.ColorRange
import MathMarkup.Proofs.LatexArguments
import MathMarkup.Proofs.LatexBrackets
import MathMarkup.Proofs.RootIndex
import MathMarkup.Proofs.LatexText
import MathMarkup.Proofs.Registrations
import MathMarkup.Proofs.ColorHistory
import MathMarkup.Proofs.Pushback
import MathMarkup.Proofs.Sessions
import MathMarkup.Proofs.Progress
