import DocumentBase.Cache
import DocumentBase.Cache.Registry
import DocumentBase.Calendar
import DocumentBase.Calendar.Reading
import DocumentBase.Collections
import DocumentBase.Config
import DocumentBase.Criteria
import DocumentBase.Error
import DocumentBase.Filter
import DocumentBase.Grouping
import DocumentBase.Hook
import DocumentBase.Hook.Ready
import DocumentBase.Identity
import DocumentBase.Item
import DocumentBase.Join
import DocumentBase.Json
import DocumentBase.Json.Extended
import DocumentBase.Json.Reader
import DocumentBase.Number.Decimal128
import DocumentBase.Number.Double
import DocumentBase.Number.Notation
import DocumentBase.Number.Reading
import DocumentBase.Number.Shortest
import DocumentBase.Number.Width
import DocumentBase.Options
import DocumentBase.Page
import DocumentBase.Pattern
import DocumentBase.Pattern.Matching
import DocumentBase.Pattern.Parser
import DocumentBase.Pipeline.Assembler
import DocumentBase.Pipeline.Execution
import DocumentBase.Predicate
import DocumentBase.Predicate.Evaluation
import DocumentBase.Predicate.Rendering
import DocumentBase.Proofs.Action.Agreement
import DocumentBase.Proofs.Action.Contract
import DocumentBase.Proofs.Action.Invariance
import DocumentBase.Proofs.Action.Reading
import DocumentBase.Proofs.Action.Showing
import DocumentBase.Proofs.Cache.Entries
import DocumentBase.Proofs.Cache.Keys
import DocumentBase.Proofs.Filter.Repetition
import DocumentBase.Proofs.Grouping
import DocumentBase.Proofs.Join
import DocumentBase.Proofs.Json.Parts
import DocumentBase.Proofs.Number.Amount
import DocumentBase.Proofs.Number.Double
import DocumentBase.Proofs.Outcome
import DocumentBase.Proofs.Pipeline.Arrangement
import DocumentBase.Proofs.Pipeline.Locality
import DocumentBase.Proofs.Pipeline.Running
import DocumentBase.Proofs.Predicate.Combining
import DocumentBase.Proofs.Predicate.Reading
import DocumentBase.Proofs.Predicate.Selection
import DocumentBase.Proofs.Projection
import DocumentBase.Proofs.Query.Agreement
import DocumentBase.Proofs.Query.Paging
import DocumentBase.Proofs.Query.RowCount
import DocumentBase.Proofs.Query.Stages
import DocumentBase.Proofs.Query.Targets
import DocumentBase.Proofs.Query.Totals
import DocumentBase.Proofs.Sorting
import DocumentBase.Proofs.Sorting.Keys
import DocumentBase.Proofs.Store.Amendments
import DocumentBase.Proofs.Store.Atomicity
import DocumentBase.Proofs.Store.Caching
import DocumentBase.Proofs.Store.Cleanliness
import DocumentBase.Proofs.Store.Edits
import DocumentBase.Proofs.Store.Histories
import DocumentBase.Proofs.Store.Identities
import DocumentBase.Proofs.Store.Interleaving
import DocumentBase.Proofs.Store.Lookup
import DocumentBase.Proofs.Store.Ownership
import DocumentBase.Proofs.Store.Pages
import DocumentBase.Proofs.Store.Persistence
import DocumentBase.Proofs.Store.Questions
import DocumentBase.Proofs.Store.Saving
import DocumentBase.Proofs.Store.Scripts
import DocumentBase.Proofs.Store.Serialization
import DocumentBase.Proofs.Store.Sessions
import DocumentBase.Proofs.Store.Sharing
import DocumentBase.Proofs.Store.Steps
import DocumentBase.Proofs.Store.Transitions
import DocumentBase.Proofs.Store.Walk
import DocumentBase.Proofs.Update.Protection
import DocumentBase.Proofs.Value.Exactness
import DocumentBase.Proofs.Value.Likeness
import DocumentBase.Proofs.Value.NormalForm
import DocumentBase.Proofs.Value.Order
import DocumentBase.Proofs.Value.Path
import DocumentBase.Proofs.Value.Sameness
import DocumentBase.Proofs.Value.Storable
import DocumentBase.Query
import DocumentBase.Query.Request
import DocumentBase.Query.Spec
import DocumentBase.Record
import DocumentBase.Sorting
import DocumentBase.Stage
import DocumentBase.Store
import DocumentBase.Store.Action
import DocumentBase.Store.Reading
import DocumentBase.Store.Writing
import DocumentBase.Text.Base64
import DocumentBase.Text.Blank
import DocumentBase.Text.Printable
import DocumentBase.Text.Quoted
import DocumentBase.Update
import DocumentBase.Update.Application
import DocumentBase.Update.Typed
import DocumentBase.Value
import DocumentBase.Value.Clean
import DocumentBase.Value.Comparison
import DocumentBase.Value.Label
import DocumentBase.Value.Path
import DocumentBase.Value.Typed
import DocumentBase.Proofs.Filter.Building
import DocumentBase.Proofs.Query.Calls
import DocumentBase.Proofs.Query.Assembly
import DocumentBase.Proofs.Cache.Live
import DocumentBase.Proofs.Cache.Histories
import DocumentBase.Proofs.Distinct
import DocumentBase.Proofs.Store.Distinct
import DocumentBase.Proofs.Filter.Narrowing
import DocumentBase.Proofs.Query.Failures
import DocumentBase.Proofs.Value.Selfsame
import DocumentBase.Proofs.Grouping.Outputs
import DocumentBase.Proofs.Grouping.Partition
import DocumentBase.Proofs.Grouping.Sums
import DocumentBase.Proofs.Grouping.Calls
import DocumentBase.Proofs.Query.GroupRows
import DocumentBase.Proofs.Query.GroupCalls
import DocumentBase.Proofs.Query.GroupOutputs
import DocumentBase.Proofs.Query.GroupOrder
import DocumentBase.Proofs.Update.Reach
import DocumentBase.Proofs.Query.GroupConditions
import DocumentBase.Proofs.Store.Requests
import DocumentBase.Proofs.Store.ShownFields
import DocumentBase.Proofs.Store.WrittenRows
import DocumentBase.Proofs.Sorting.Lexicographic
import DocumentBase.Proofs.Join.Attachment
import DocumentBase.Proofs.Store.Merging
import DocumentBase.Proofs.Update.Increments
import DocumentBase.Proofs.Page
import DocumentBase.Proofs.Value.Reach
import DocumentBase.Proofs.Value.Cleaning
