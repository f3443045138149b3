import CrateScope.Binding
import CrateScope.Build
import CrateScope.BuildError
import CrateScope.Collection
import CrateScope.Collection.GlobSources
import CrateScope.Collection.Propagation
import CrateScope.Collection.Settlement
import CrateScope.Command
import CrateScope.Command.Line
import CrateScope.Command.Run
import CrateScope.CrateMap
import CrateScope.CrateMap.Dump
import CrateScope.Description
import CrateScope.Description.Decode
import CrateScope.Description.Encode
import CrateScope.Diagnostic
import CrateScope.Edition
import CrateScope.Graph
import CrateScope.Graph.Order
import CrateScope.Import
import CrateScope.ItemTree
import CrateScope.ItemTree.Visibility
import CrateScope.Listing
import CrateScope.Location
import CrateScope.Log
import CrateScope.Main
import CrateScope.ModuleTree
import CrateScope.Outline
import CrateScope.Path
import CrateScope.Report
import CrateScope.Resolution
import CrateScope.Settings
import CrateScope.Text.Blank
import CrateScope.Text.Separated
import CrateScope.Toml.Document
import CrateScope.Toml.Reader
import CrateScope.Toml.Scalar
import CrateScope.Toml.Table
import CrateScope.Visibility
import CrateScope.Workspace
import CrateScope.Proofs.Placement
import CrateScope.Proofs.Provenance
import CrateScope.Proofs.Course
import CrateScope.Proofs.Forwarding
import CrateScope.Proofs.Change
import CrateScope.Proofs.Growth
import CrateScope.Proofs.Overlooking
import CrateScope.Proofs.Declarations
import CrateScope.Proofs.Opening
import CrateScope.Proofs.Lookup
import CrateScope.Proofs.Runs
import CrateScope.Proofs.Privacy
import CrateScope.Proofs.GlobDepth
import CrateScope.Proofs.Delivery
import CrateScope.Proofs.Precedence
import CrateScope.Proofs.Permanence
import CrateScope.Proofs.Readings
import CrateScope.Proofs.Staleness
import CrateScope.Proofs.Layout
import CrateScope.Proofs.Linkage
import CrateScope.Proofs.Heredity
import CrateScope.Proofs.References
import CrateScope.Proofs.Exposure
import CrateScope.Proofs.History
import CrateScope.Proofs.Traversal
import CrateScope.Proofs.Accounting
import CrateScope.Proofs.Reordering
import CrateScope.Proofs.Agreement
import CrateScope.Proofs.Exchange
import CrateScope.Proofs.Discretion
import CrateScope.Proofs.Confidentiality
import CrateScope.Proofs.Reachability
import CrateScope.Proofs.BuildOrder
import CrateScope.Proofs.Completion
import CrateScope.Proofs.Clashes
import CrateScope.Proofs.Arena
import CrateScope.Proofs.Restriction
import CrateScope.Proofs.Duplicates
import CrateScope.Proofs.Resending
import CrateScope.Proofs.Comparison
import CrateScope.Proofs.Composition
import CrateScope.Proofs.CanonicalPaths
import CrateScope.Proofs.ModuleExposure
import CrateScope.Proofs.Spelling
import CrateScope.Proofs.Writing
import CrateScope.Proofs.Sources
