import Verdicts.Text
import Verdicts.Library.Version
import Verdicts.Library.Family
import Verdicts.Library.Reference
import Verdicts.Json.Basic
import Verdicts.Json.Reader
import Verdicts.TypeExpr.Basic
import Verdicts.TypeExpr.Reader
import Verdicts.Types.Kind
import Verdicts.Types.Table
import Verdicts.Types.Supertypes
import Verdicts.Types.Assignability
import Verdicts.Types.Conversion
import Verdicts.Types.Display
import Verdicts.Types.CoreLibrary
import Verdicts.Program.Basic
import Verdicts.Program.Surface
import Verdicts.Capability.WellKnown
import Verdicts.Capability.Flag
import Verdicts.Capability.Activation
import Verdicts.Capability.Capabilities
import Verdicts.Judgement.Convertible
import Verdicts.Judgement.Unwinding
import Verdicts.Judgement.Serializability
import Verdicts.Judgement.Reliability
import Verdicts.Judgement.Event
import Verdicts.Manifest.Basic
import Verdicts.Manifest.Codec
import Verdicts.Manifest.Naming
import Verdicts.Manifest.Loading
import Verdicts.CommandLine.LogFormat
import Verdicts.CommandLine.Arguments
import Verdicts.CommandLine.Report
import Verdicts.CommandLine.Run
import Verdicts.Main
import Verdicts.Proofs.Lists
import Verdicts.Proofs.Transition
import Verdicts.Proofs.Types.Lookup
import Verdicts.Proofs.Types.Interning
import Verdicts.Proofs.Types.Intern
import Verdicts.Proofs.Types.WellFormed
import Verdicts.Proofs.Types.Walk
import Verdicts.Proofs.Types.Storing
import Verdicts.Proofs.Types.Declaring
import Verdicts.Proofs.Types.Persistence
import Verdicts.Proofs.Libraries.Families
import Verdicts.Proofs.Libraries.Declared
import Verdicts.Proofs.Judgement.Slots
import Verdicts.Proofs.Judgement.Trails
import Verdicts.Proofs.Judgement.Interning
import Verdicts.Proofs.Correspondence.Table
import Verdicts.Proofs.Correspondence.Libraries
import Verdicts.Proofs.Libraries.Order
import Verdicts.Proofs.Loading.References
import Verdicts.Proofs.Libraries.Reordering
import Verdicts.Proofs.Correspondence.Transition
import Verdicts.Proofs.Correspondence.Types
import Verdicts.Proofs.Correspondence.Assignability
import Verdicts.Proofs.Correspondence.Declaring
import Verdicts.Proofs.Correspondence.Conversion
import Verdicts.Proofs.Correspondence.Naming
import Verdicts.Proofs.Types.CoreLibrary
import Verdicts.Proofs.Correspondence.Inquiry
import Verdicts.Proofs.Correspondence.Loading
import Verdicts.Proofs.Correspondence.Unwinding
import Verdicts.Proofs.Correspondence.Judgement
import Verdicts.Proofs.Correspondence.Query
import Verdicts.Proofs.Types.Reachable
import Verdicts.Proofs.Types.Enriching
import Verdicts.Proofs.Types.Canonical
import Verdicts.Proofs.Judgement.Stability
import Verdicts.Proofs.Judgement.Lookups
import Verdicts.Proofs.Judgement.Convertible
import Verdicts.Proofs.Judgement.Layers
import Verdicts.Proofs.Naming.Substitution
import Verdicts.Proofs.Naming.Names
import Verdicts.Proofs.Naming.Instances
import Verdicts.Proofs.Naming.Divergence
import Verdicts.Proofs.Naming.Supertypes
import Verdicts.Proofs.Loading.Declaring
import Verdicts.Proofs.Loading.Connecting
import Verdicts.Proofs.Loading.Programs
import Verdicts.Proofs.Loading.GenericTypes
import Verdicts.Proofs.Subtyping.Term
import Verdicts.Proofs.Subtyping.Below
import Verdicts.Proofs.Subtyping.Denotation
import Verdicts.Proofs.Subtyping.Reading
import Verdicts.Proofs.Subtyping.Walk
import Verdicts.Proofs.Subtyping.Extension
import Verdicts.Proofs.Subtyping.CoreLibrary
import Verdicts.Proofs.Loading.Transitivity
import Verdicts.Proofs.Judgement.Tiers
import Verdicts.Proofs.Libraries.Features
import Verdicts.Proofs.Libraries.Activation
import Verdicts.Proofs.Judgement.Learning
import Verdicts.Proofs.Libraries.Exposure
import Verdicts.Proofs.Judgement.Resolution
import Verdicts.Proofs.TypeExpr.Parsing
import Verdicts.Proofs.Manifest.RoundTrip
import Verdicts.Proofs.Loading.Display
import Verdicts.Proofs.Loading.TypeOrder
import Verdicts.Proofs.Judgement.Use
import Verdicts.Proofs.Judgement.Interference
import Verdicts.Proofs.Libraries.Pins
import Verdicts.Proofs.CommandLine.Precedence
import Verdicts.Proofs.Subtyping.Derivation
import Verdicts.Proofs.Subtyping.Covariance
import Verdicts.Proofs.Judgement.Classification
import Verdicts.Proofs.Judgement.Containment
import Verdicts.Proofs.Judgement.Registration
import Verdicts.Proofs.Judgement.Snapshots
import Verdicts.Proofs.Subtyping.Values
import Verdicts.Proofs.Judgement.Lifting
import Verdicts.Proofs.TypeExpr.Faults
import Verdicts.Proofs.Judgement.Cycles
import Verdicts.Proofs.CommandLine.Batches
