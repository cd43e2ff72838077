import ScopedFilter.Console.Directory
import ScopedFilter.Console.Session
import ScopedFilter.Filter.Meaning
import ScopedFilter.Filter.Occurrence
import ScopedFilter.Main
import ScopedFilter.Proofs.Acceptance
import ScopedFilter.Proofs.Composition
import ScopedFilter.Proofs.ConfigRoundTrip
import ScopedFilter.Proofs.Confinement
import ScopedFilter.Proofs.Covering
import ScopedFilter.Proofs.DeclaredNames
import ScopedFilter.Proofs.EventTests
import ScopedFilter.Proofs.Executable
import ScopedFilter.Proofs.Expected
import ScopedFilter.Proofs.FieldGroup
import ScopedFilter.Proofs.ImplicitAnd
import ScopedFilter.Proofs.NormalForm
import ScopedFilter.Proofs.Partition
import ScopedFilter.Proofs.Polarity
import ScopedFilter.Proofs.Renaming
import ScopedFilter.Proofs.Resumption
import ScopedFilter.Proofs.RoundTrip
import ScopedFilter.Proofs.Separable
import ScopedFilter.Proofs.Snapshot
import ScopedFilter.Proofs.SpelledToken
import ScopedFilter.Proofs.StoreQuery
import ScopedFilter.Proofs.Surroundings
import ScopedFilter.Proofs.FaultOffset
import ScopedFilter.Filter.Height
import ScopedFilter.Filter.Pass
import ScopedFilter.Proofs.BoundedHeight
import ScopedFilter.Proofs.Rewording
import ScopedFilter.Proofs.Trimming
import ScopedFilter.Proofs.Wildcards
