import ExecutionFinality.Interop.CanonicalizerAgreement
import ExecutionFinality.Interop.ConformanceVerdicts
import ExecutionFinality.Interop.GeneratedVectors
import ExecutionFinality.Interop.GoCanonical
import ExecutionFinality.Interop.GoIdentity
import ExecutionFinality.Interop.GoVerifier
import ExecutionFinality.Interop.IssuedBundles
import ExecutionFinality.Interop.IssuedFiles
import ExecutionFinality.Interop.JsonDumps
import ExecutionFinality.Interop.JsonTexts
import ExecutionFinality.Interop.NodeCanonical
import ExecutionFinality.Interop.NodePortability
import ExecutionFinality.Interop.NodeRuntime
import ExecutionFinality.Interop.NodeVerifier
import ExecutionFinality.Interop.ParsedDocuments
import ExecutionFinality.Interop.PortableBundles
import ExecutionFinality.Interop.PortableVerdicts
import ExecutionFinality.Interop.StructDecoding
import ExecutionFinality.Interop.TextAgreement
import ExecutionFinality.Interop.VectorRunners
import ExecutionFinality.Interop.VectorVerdicts
import ExecutionFinality.Interop.VerifierAgreement
import ExecutionFinality.Interop.WrittenTexts
import ExecutionFinality.Library.AssignedEntries
import ExecutionFinality.Library.Binary64
import ExecutionFinality.Library.CheckChains
import ExecutionFinality.Library.JsonData
import ExecutionFinality.Library.JsonGrammar
import ExecutionFinality.Library.JsonLayout
import ExecutionFinality.Library.JsonReader
import ExecutionFinality.Library.JsonReadings
import ExecutionFinality.Library.JsonText
import ExecutionFinality.Library.JsonTrees
import ExecutionFinality.Library.JsonUnambiguous
import ExecutionFinality.Library.KeyedEntries
import ExecutionFinality.Library.Meters
import ExecutionFinality.Library.PointUpdates
import ExecutionFinality.Library.Repeats
import ExecutionFinality.Library.Runs
import ExecutionFinality.Library.SingleWriter
import ExecutionFinality.Library.TokenLedger
import ExecutionFinality.Library.Utf16
import ExecutionFinality.Library.Utf8
import ExecutionFinality.Reference.Anticipation
import ExecutionFinality.Reference.Authority
import ExecutionFinality.Reference.AuthorizeOutcomes
import ExecutionFinality.Reference.Canonical
import ExecutionFinality.Reference.CanonicalIdentity
import ExecutionFinality.Reference.Crypto
import ExecutionFinality.Reference.DeploymentSurface
import ExecutionFinality.Reference.DurableSystem
import ExecutionFinality.Reference.EffectLimits
import ExecutionFinality.Reference.EffectReceipts
import ExecutionFinality.Reference.Effectors
import ExecutionFinality.Reference.Issuance
import ExecutionFinality.Reference.Models
import ExecutionFinality.Reference.NonceReuse
import ExecutionFinality.Reference.OutstandingCapabilities
import ExecutionFinality.Reference.PolicyEnforcement
import ExecutionFinality.Reference.ProtectedRuns
import ExecutionFinality.Reference.PythonValues
import ExecutionFinality.Reference.ReceiptProofs
import ExecutionFinality.Reference.Records
import ExecutionFinality.Reference.Refusals
import ExecutionFinality.Reference.SequentialRuns
import ExecutionFinality.Reference.SequentialSystem
import ExecutionFinality.Reference.Serializability
import ExecutionFinality.Reference.SignedForms
import ExecutionFinality.Reference.SingleUse
import ExecutionFinality.Reference.Sink
import ExecutionFinality.Reference.SourceLimits
import ExecutionFinality.Reference.SourceVersions
import ExecutionFinality.Reference.SqliteClaims
import ExecutionFinality.Reference.State
import ExecutionFinality.Reference.StrictPresentation
import ExecutionFinality.Reference.System
import ExecutionFinality.Reference.SystemInvariants
import ExecutionFinality.Reference.SystemSteps
import ExecutionFinality.Reference.TransitionBinding
import ExecutionFinality.Reference.TransitionUse
import ExecutionFinality.Reference.VolatileStores
