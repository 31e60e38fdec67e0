import TreeLint.Main
import TreeLint.Proofs.Outcome
import TreeLint.Proofs.Order
import TreeLint.Proofs.Shape
import TreeLint.Proofs.ExportShape
import TreeLint.Proofs.Declared
import TreeLint.Proofs.Exclusion
import TreeLint.Proofs.AnswerHistory
import TreeLint.Proofs.OccurrencePath
import TreeLint.Proofs.Uses
import TreeLint.Proofs.ExportVerdict
import TreeLint.Proofs.Interchange
import TreeLint.Proofs.CommentLexing
import TreeLint.Proofs.SwallowedCatch
import TreeLint.Proofs.Independence
import TreeLint.Proofs.Nesting
import TreeLint.Proofs.Likeness.Basic
import TreeLint.Proofs.Likeness.Tests
import TreeLint.Proofs.Likeness.Declarations
import TreeLint.Proofs.Likeness.Occurrences
import TreeLint.Proofs.Likeness.Verdicts
import TreeLint.Proofs.Likeness.Rules
import TreeLint.Proofs.TypeEdits
import TreeLint.Proofs.Renaming
import TreeLint.Proofs.RenamedRun
import TreeLint.Proofs.Rebuild
import TreeLint.Proofs.Linking
import TreeLint.Proofs.Objects
import TreeLint.Proofs.LinkLoop
import TreeLint.Proofs.ParentFields
import TreeLint.Proofs.Traversal
import TreeLint.Proofs.Locality
import TreeLint.Proofs.Estree
import TreeLint.Proofs.Faultless
import TreeLint.Proofs.Reports
import TreeLint.Proofs.ReportOrder
import TreeLint.Proofs.GuardClause
import TreeLint.Proofs.ExportedWrapper
import TreeLint.Proofs.Numerals
import TreeLint.Proofs.Loading
import TreeLint.Proofs.Forwarding
import TreeLint.Proofs.Monotonicity
import TreeLint.Proofs.Pattern
import TreeLint.Proofs.PatternRoles
import TreeLint.Proofs.PatternBindings
import TreeLint.Proofs.Lines
import TreeLint.Proofs.ElementTags
import TreeLint.Proofs.FlagPlacement
import TreeLint.Proofs.SourceRoutes
import TreeLint.Proofs.FirstSeen
import TreeLint.Proofs.Grouping
import TreeLint.Proofs.AtomicReports
import TreeLint.Proofs.Tally
