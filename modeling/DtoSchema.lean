import DtoSchema.Main
import DtoSchema.Proofs.Source.Name
import DtoSchema.Proofs.Schema.TypeTree
import DtoSchema.Proofs.Declaration.Keyword
import DtoSchema.Proofs.Source.Code
import DtoSchema.Proofs.Declaration.Lexicon
import DtoSchema.Proofs.Declaration.MarkSyntax
import DtoSchema.Proofs.Declaration.Java.Class
import DtoSchema.Proofs.Declaration.Kotlin.Property
import DtoSchema.Proofs.Declaration.Kotlin.Body
import DtoSchema.Proofs.Declaration.Kotlin.Class
import DtoSchema.Proofs.Dialect.Detection
import DtoSchema.Proofs.Dialect.Dto
import DtoSchema.Proofs.Dialect.Agreement
import DtoSchema.Proofs.Declaration.Enumeration
import DtoSchema.Proofs.Schema.References
import DtoSchema.Proofs.Schema.Reports
import DtoSchema.Proofs.Text.WhiteSpace
import DtoSchema.Proofs.Source.Elision
import DtoSchema.Proofs.Source.ElidedScan
import DtoSchema.Proofs.Source.Normalization
import DtoSchema.Proofs.Declaration.ElidedMarks
import DtoSchema.Proofs.Declaration.ElidedHeaders
import DtoSchema.Proofs.Declaration.Java.Elided
import DtoSchema.Proofs.Declaration.Kotlin.Elided
import DtoSchema.Proofs.Dialect.Rewording
import DtoSchema.Proofs.Declaration.Fields
import DtoSchema.Proofs.Declaration.WellFormed
import DtoSchema.Proofs.Schema.Constants
import DtoSchema.Proofs.Naming.Ranking
import DtoSchema.Proofs.Naming.EditDistance
import DtoSchema.Proofs.Schema.NameOrder
import DtoSchema.Proofs.Schema.OptionalCall
import DtoSchema.Proofs.Schema.OptionalType
import DtoSchema.Proofs.Batch.Invariant
import DtoSchema.Proofs.Batch.Schedule
import DtoSchema.Proofs.File.Path
import DtoSchema.Proofs.File.Tree
import DtoSchema.Proofs.Command.Debouncing
import DtoSchema.Proofs.Command.Outputs
import DtoSchema.Proofs.Command.Rejection
import DtoSchema.Proofs.Declaration.Java.DataClass
import DtoSchema.Proofs.Schema.DeclarationOrder
import DtoSchema.Proofs.Schema.Wrappers
import DtoSchema.Proofs.Declaration.Supertypes
import DtoSchema.Proofs.Schema.RegexLiteral
import DtoSchema.Proofs.Source.Parts
import DtoSchema.Proofs.Text.Ends
import DtoSchema.Proofs.Declaration.Tails
import DtoSchema.Proofs.Declaration.Kotlin.PropertyTail
import DtoSchema.Proofs.Declaration.NestedBlocks
import DtoSchema.Proofs.Declaration.Initializers
import DtoSchema.Proofs.Declaration.Kotlin.Bodiless
import DtoSchema.Proofs.Mark.Merge
import DtoSchema.Proofs.Mark.StringLiteral
import DtoSchema.Proofs.Source.Balance
import DtoSchema.Proofs.Mark.Written
import DtoSchema.Proofs.Mark.Targets
import DtoSchema.Proofs.Mark.Order
import DtoSchema.Proofs.Source.Tokens
import DtoSchema.Proofs.Source.Blocks
import DtoSchema.Proofs.Source.Separators
import DtoSchema.Proofs.Text.Numeral
import DtoSchema.Proofs.Mark.IntegerBounds
import DtoSchema.Proofs.Declaration.Grouping
import DtoSchema.Proofs.Schema.QuotedKeys
import DtoSchema.Proofs.File.Directory
import DtoSchema.Proofs.Command.OutputFiles
import DtoSchema.Proofs.Cut.Checked
import DtoSchema.Proofs.Cut.Scan
import DtoSchema.Proofs.Cut.Declarations
import DtoSchema.Proofs.Cut.Schema
import DtoSchema.Proofs.Cut.Conversion
import DtoSchema.Proofs.Source.Blanking
import DtoSchema.Proofs.Naming.Words
