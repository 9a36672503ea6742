import CallResolution.Fingerprint.Xxh64
import CallResolution.Fingerprint.Basic
import CallResolution.Fingerprint.Scalar
import CallResolution.Rank
import CallResolution.Operator
import CallResolution.Signature.Parameter
import CallResolution.Signature.Basic
import CallResolution.Scope.Basic
import CallResolution.Scope.Closure
import CallResolution.Scope.Query
import CallResolution.Scope.Render
import CallResolution.Scope.Lookup
import CallResolution.Scope.Registration
import CallResolution.Scope.Command
import CallResolution.Conversion.Table
import CallResolution.Conversion.Route
import CallResolution.Conversion.Binding
import CallResolution.Call.Collect
import CallResolution.Call.Candidate
import CallResolution.Call.Ranking
import CallResolution.Call.Resolution
import CallResolution.Call.Batch
import CallResolution.Call.Report
import CallResolution.Toml.Value
import CallResolution.Toml.Reader
import CallResolution.Toml.Quoted
import CallResolution.Toml.Bare
import CallResolution.Toml.Table
import CallResolution.Toml.Document
import CallResolution.Disk
import CallResolution.Settings.Rules
import CallResolution.Settings.Document
import CallResolution.Settings.File
import CallResolution.Proofs.Traversal
import CallResolution.Proofs.Call.Dominance
import CallResolution.Proofs.Call.Matching
import CallResolution.Proofs.Call.BestViable
import CallResolution.Proofs.Call.Interleaving
import CallResolution.Proofs.Call.CrewInvariant
import CallResolution.Proofs.Call.SequentialBatch
import CallResolution.Proofs.KeyedSet
import CallResolution.Proofs.Scope.Effects
import CallResolution.Proofs.Scope.Growth
import CallResolution.Proofs.Scope.Storage
import CallResolution.Proofs.Scope.Hierarchy
import CallResolution.Proofs.Scope.Walk
import CallResolution.Proofs.Scope.Visibility
import CallResolution.Proofs.Scope.Settling
import CallResolution.Proofs.Scope.Hiding
import CallResolution.Proofs.Scope.Rearrangement
import CallResolution.Proofs.Scope.Additions
import CallResolution.Proofs.Call.Collection
import CallResolution.Proofs.Call.OrderIndependence
import CallResolution.Proofs.Closure
import CallResolution.Proofs.Scope.Derivation
import CallResolution.Proofs.Conversion.Building
import CallResolution.Proofs.Conversion.Preset
import CallResolution.Proofs.Scope.Exhaustion
import CallResolution.Proofs.Scope.Frame
import CallResolution.Proofs.Scope.Keeping
import CallResolution.Proofs.Scope.FreeLookup
import CallResolution.Proofs.Call.MemberOperators
import CallResolution.Proofs.Scope.Indexing
import CallResolution.Proofs.Scope.AppendOnly
import CallResolution.Proofs.Scope.Refusal
import CallResolution.Proofs.Call.Cancellation
import CallResolution.Proofs.Call.Faults
import CallResolution.Proofs.Conversion.BestConversion
import CallResolution.Proofs.Conversion.RuleSets
import CallResolution.Proofs.Signature.Form
import CallResolution.Proofs.Call.ExactMatching
import CallResolution.Proofs.Scope.Outwards
import CallResolution.Proofs.Scope.Completeness
import CallResolution.Proofs.Scope.Confinement
import CallResolution.Proofs.Call.NonInterference
import CallResolution.Proofs.Call.ReceiverBinding
import CallResolution.Proofs.Call.OperatorSources
import CallResolution.Proofs.Signature.Words
import CallResolution.Proofs.Scope.Duplicates
import CallResolution.Proofs.Call.Irrelevance
import CallResolution.Proofs.Scope.Namesakes
import CallResolution.Proofs.Scope.Paths
import CallResolution.Proofs.Signature.Offenders
import CallResolution.Proofs.Signature.Arity
import CallResolution.Proofs.Signature.Mixing
import CallResolution.Proofs.Scope.Distinction
import CallResolution.Proofs.Scope.Termination
