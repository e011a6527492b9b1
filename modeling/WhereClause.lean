import WhereClause.Main
import WhereClause.Command.Folder
import WhereClause.Proofs.Pairing
import WhereClause.Proofs.Noninterference
import WhereClause.Proofs.Meaning
import WhereClause.Proofs.Reading
import WhereClause.Proofs.Preservation
import WhereClause.Proofs.Binding
import WhereClause.Proofs.Acceptance
import WhereClause.Proofs.Placeholder
import WhereClause.Proofs.Skeleton
import WhereClause.Proofs.Documents
import WhereClause.Proofs.Composition
import WhereClause.Proofs.Parentheses
import WhereClause.Proofs.Strictness
import WhereClause.Proofs.Confinement
import WhereClause.Proofs.Columns
import WhereClause.Proofs.Placement
import WhereClause.Proofs.Resolution
import WhereClause.Proofs.Violations
import WhereClause.Proofs.NullComparisons
import WhereClause.Proofs.Verbosity
import WhereClause.Proofs.Wrappers
import WhereClause.Proofs.Restating
import WhereClause.Proofs.Segments
import WhereClause.Proofs.Membership
import WhereClause.Proofs.ByteOrder
import WhereClause.Proofs.Captures
import WhereClause.Proofs.Registrations
import WhereClause.Proofs.Configurations
import WhereClause.Proofs.Reports
import WhereClause.Proofs.LogLines
import WhereClause.Proofs.NotBlank
import WhereClause.Proofs.PascalCase
import WhereClause.Proofs.Rearranging
