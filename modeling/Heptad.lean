import Heptad.Json.OfValue
import Heptad.Main
import Heptad.Proofs.Derivation.Refusal
import Heptad.Proofs.Field.Synchronization
import Heptad.Proofs.Guard
import Heptad.Proofs.Reflex.AgentState
import Heptad.Proofs.Reflex.Recording
import Heptad.Proofs.Stack.Bookkeeping
import Heptad.Proofs.Stack.Factorial
import Heptad.Proofs.Stack.Inline
import Heptad.Proofs.Stack.Limit
import Heptad.Proofs.Stack.Linear
import Heptad.Proofs.Stack.Postfix
import Heptad.Proofs.Stack.Reapply
import Heptad.Proofs.Stack.Unchosen
import Heptad.Proofs.Transparency
import Heptad.Table.Cells
import Heptad.Proofs.Field.Acceptance
import Heptad.Proofs.Stack.Closed
import Heptad.Proofs.Stack.Dry
import Heptad.Proofs.Sorting.Merge
import Heptad.Proofs.Sorting.Runs
import Heptad.Proofs.Sorting.Sort
import Heptad.Proofs.Value.Keys
import Heptad.Proofs.Value.Shuffled
import Heptad.Proofs.Json.Tight
import Heptad.Proofs.Value.Canonical
import Heptad.Proofs.Stack.Numbering
import Heptad.Proofs.Field.Trace
import Heptad.Proofs.Table.Cells
import Heptad.Proofs.Table.LastWriter
import Heptad.Proofs.Signature
import Heptad.Proofs.Table.Address
import Heptad.Proofs.Table.Layout
import Heptad.Proofs.Table.Construction
import Heptad.Proofs.Table.Views
