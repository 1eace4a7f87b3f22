import Ripple.Engine.Events
import Ripple.Engine.Timed
import Ripple.Main
import Ripple.Outline.Faulty
import Ripple.Proofs.Cache.Publishing
import Ripple.Proofs.Cache.Single
import Ripple.Proofs.Cache.Transparency
import Ripple.Proofs.Engine.Impact
import Ripple.Proofs.Engine.Panics
import Ripple.Proofs.Fingerprint.Injective
import Ripple.Record.Edit
import Ripple.Store.Memory
import Ripple.Text.Quoted
import Ripple.Proofs.Cache.Failures
import Ripple.Proofs.Engine.Departure
import Ripple.Proofs.Cache.Radius
import Ripple.Proofs.Engine.Partial
import Ripple.Proofs.Outline.Visibility
import Ripple.Proofs.Engine.Representation
import Ripple.Proofs.Engine.Rollback
import Ripple.Proofs.Engine.Drift
import Ripple.Proofs.Engine.Isolation
import Ripple.Proofs.Store.Disk
import Ripple.Proofs.Diagnostic.Delta
import Ripple.Proofs.Edit.Acceptance
import Ripple.Proofs.Edit.Substitution
import Ripple.Proofs.Graph.Search
import Ripple.Proofs.Engine.Layers
import Ripple.Proofs.Engine.Stacking
import Ripple.Proofs.Graph.Breadth
import Ripple.Proofs.Outline.Grammar
import Ripple.Proofs.Outline.Recovery
import Ripple.Proofs.Outline.Severity
import Ripple.Proofs.Engine.Exposure
import Ripple.Proofs.Cache.Ages
import Ripple.Proofs.Engine.Events
import Ripple.Proofs.Graph.Groups
import Ripple.Proofs.Graph.Components
import Ripple.Proofs.Graph.Cycles
import Ripple.Proofs.Engine.Summary
import Ripple.Proofs.Cache.Capacity
import Ripple.Proofs.Cache.Ledger
import Ripple.Proofs.Cache.Rebuilding
import Ripple.Proofs.Graph.Drawing
import Ripple.Proofs.Engine.Refusals
import Ripple.Proofs.Outline.Duplicates
import Ripple.Proofs.Outline.Analyzers
import Ripple.Proofs.Store.Atomic
