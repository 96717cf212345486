import Docblock.Main
import Docblock.Proofs.Comment.Conservation
import Docblock.Proofs.TypeExpr.Acceptance
import Docblock.Proofs.TypeExpr.RoundTrip
import Docblock.Proofs.Comment.Reading
import Docblock.Proofs.Comment.Strictness
import Docblock.Proofs.Comment.Appending
import Docblock.Proofs.Comment.Displacement
import Docblock.Proofs.Comment.Wrapping
import Docblock.Proofs.Tag.TypeBraces
import Docblock.Proofs.TypeExpr.Height
import Docblock.Proofs.TypeExpr.Delimiters
import Docblock.Proofs.Comment.Options
import Docblock.Proofs.Comment.Placement
import Docblock.Proofs.Report.ExampleLines
import Docblock.Proofs.Report.Accounting
import Docblock.Proofs.Files.Subdirectory
import Docblock.Proofs.TypeExpr.Serialized
import Docblock.Proofs.Files.Excluding
import Docblock.Proofs.Syntax.Extraction
import Docblock.Proofs.Tag.Written
import Docblock.Proofs.TypeExpr.Tiling
import Docblock.Proofs.TypeExpr.ArraySugar
import Docblock.Proofs.TypeExpr.Located
import Docblock.Proofs.TypeExpr.Placement
import Docblock.Proofs.TypeExpr.Composition
import Docblock.Proofs.Comment.Ranges
import Docblock.Proofs.Comment.Values
import Docblock.Proofs.Comment.LeadingParagraph
import Docblock.Proofs.Comment.Handlebars
import Docblock.Proofs.Comment.BlankComment
import Docblock.Proofs.TypeExpr.WholeNumber
import Docblock.Proofs.TypeExpr.FirstToken
import Docblock.Proofs.TypeExpr.ScannedNumber
