import RecordGate.Main
import RecordGate.Proofs.DecisionTable
import RecordGate.Proofs.OwnerIsolation
import RecordGate.Proofs.Unauthenticated
import RecordGate.Proofs.WriteTarget
import RecordGate.Service.EnvFile
import RecordGate.Service.Http
import RecordGate.Proofs.StorageCalls
import RecordGate.Proofs.Frame
import RecordGate.Proofs.Whitelist
import RecordGate.Proofs.Lockstep
import RecordGate.Proofs.HiddenFields
import RecordGate.Proofs.WriteOnce
import RecordGate.Proofs.LastingPermission
import RecordGate.Proofs.Removal
import RecordGate.Proofs.Interchange
import RecordGate.Proofs.StoredForm
import RecordGate.Proofs.TypedWrites
import RecordGate.Proofs.KeyedAuthentication
import RecordGate.Proofs.Layout
import RecordGate.Proofs.Mounting
import RecordGate.Proofs.EndpointTable
import RecordGate.Proofs.Lookup
import RecordGate.Proofs.RowUpdate
import RecordGate.Proofs.Routing
import RecordGate.Proofs.Dispatch
import RecordGate.Proofs.Comparison
import RecordGate.Proofs.PermissionGrammar
import RecordGate.Proofs.RouteAcceptance
import RecordGate.Proofs.SchemaInvariant
import RecordGate.Proofs.Resolution
import RecordGate.Proofs.ValueEquality
import RecordGate.Proofs.IdentifierText
import RecordGate.Proofs.CallerIndependence
import RecordGate.Proofs.Ownership
import RecordGate.Proofs.Shaping
import RecordGate.Proofs.NumberText
import RecordGate.Proofs.FieldNotation
import RecordGate.Proofs.PlainTokens
import RecordGate.Proofs.KeyTexts
import RecordGate.Proofs.FreshIdentifiers
import RecordGate.Proofs.ClaimsText
import RecordGate.Proofs.StoredDocuments
