import Tenancy.Main
import Tenancy.Proofs.Contract.Lookup
import Tenancy.Proofs.Contract.Regularity
import Tenancy.Proofs.Record.Reading
import Tenancy.Proofs.Service.Refinement
import Tenancy.Proofs.Shape.RoundTrip
import Tenancy.Proofs.Store.Isolation
import Tenancy.Proofs.Record.RoundTrip
import Tenancy.Proofs.Shape.Undeclared
import Tenancy.Proofs.Store.Growth
import Tenancy.Proofs.Record.Agreement
import Tenancy.Proofs.Json.Place
import Tenancy.Proofs.Shape.Projection
import Tenancy.Proofs.Json.Meaning
import Tenancy.Proofs.Shape.Conformance
import Tenancy.Proofs.Shape.Refusal
import Tenancy.Proofs.Contract.Grammar
import Tenancy.Proofs.Contract.Parsing
import Tenancy.Proofs.Contract.Prebuilding
import Tenancy.Proofs.Record.Mirror
import Tenancy.Proofs.Json.Document
import Tenancy.Proofs.Record.Rewriting
import Tenancy.Proofs.Service.DryRun
import Tenancy.Proofs.CommandLine
import Tenancy.Proofs.Store.Race
import Tenancy.Proofs.Contract.Naming
import Tenancy.Proofs.Service.Misapplication
import Tenancy.Proofs.Shape.Container
import Tenancy.Proofs.Shape.Intersection
import Tenancy.Proofs.Json.Denotation
import Tenancy.Proofs.Shape.Enumeration
import Tenancy.Proofs.Contract.Faults
import Tenancy.Proofs.Shape.Verbosity
import Tenancy.Proofs.Shape.Nesting
import Tenancy.Proofs.Shape.Placement
import Tenancy.Proofs.Service.Configuration
import Tenancy.Proofs.Service.Readiness
import Tenancy.Proofs.Contract.Trailing
import Tenancy.Proofs.Shape.Declaration
