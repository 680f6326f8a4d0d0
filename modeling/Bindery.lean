import Bindery.Main
import Bindery.Proofs.Code.Aliases
import Bindery.Proofs.Code.Bounds
import Bindery.Proofs.Code.Completion
import Bindery.Proofs.Code.Presence
import Bindery.Proofs.Code.RecordedNames
import Bindery.Proofs.Code.Tags
import Bindery.Proofs.Dialect.NamedSchemas
import Bindery.Proofs.Dialect.Nullability
import Bindery.Proofs.Dialect.ParameterReferences
import Bindery.Proofs.Location.Addresses
import Bindery.Proofs.Naming.FirstVacant
import Bindery.Proofs.Operation.Overrides
import Bindery.Proofs.Operation.Remaining
import Bindery.Proofs.Operation.ResponseSlots
import Bindery.Proofs.Operation.Retargeting
import Bindery.Proofs.Operation.SecurityHeaders
import Bindery.Proofs.Operation.Signature
import Bindery.Proofs.Package.BoundNames
import Bindery.Proofs.Package.Installation
import Bindery.Proofs.Package.Paths
import Bindery.Proofs.Resolution.Chains
import Bindery.Proofs.Resolution.ComponentEntries
import Bindery.Proofs.Resolution.Deferral
import Bindery.Proofs.Resolution.Sessions
import Bindery.Proofs.Resolution.SharedCache
import Bindery.Proofs.Schema.Answers
import Bindery.Proofs.Schema.Compositions
