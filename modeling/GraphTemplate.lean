import GraphTemplate.Engine
import GraphTemplate.Proofs.Expansion.Budget
import GraphTemplate.Proofs.Expansion.Enclosure
import GraphTemplate.Proofs.Expansion.Faults
import GraphTemplate.Proofs.Expansion.Grouping
import GraphTemplate.Proofs.Expansion.HeldRelations
import GraphTemplate.Proofs.Expansion.LineEnds
import GraphTemplate.Proofs.Expansion.Memory
import GraphTemplate.Proofs.Expansion.Rearrangement
import GraphTemplate.Proofs.Expansion.Replacement
import GraphTemplate.Proofs.Relation.Walks
import GraphTemplate.Proofs.Schema.Completion
import GraphTemplate.Proofs.Template.Lexer
import GraphTemplate.Proofs.Tree.Coverage
import GraphTemplate.Proofs.Tree.Relations
import GraphTemplate.Proofs.Tree.Rows
import GraphTemplate.Tree
import GraphTemplate.Proofs.Tree.Order
import GraphTemplate.Proofs.Schema.Merge
import GraphTemplate.Proofs.Datum.Calls
import GraphTemplate.Proofs.Datum.Intake
import GraphTemplate.Proofs.Object.Conversion
import GraphTemplate.Proofs.Error.Excerpt
import GraphTemplate.Proofs.Value.Sameness
import GraphTemplate.Proofs.Expansion.Orderly
