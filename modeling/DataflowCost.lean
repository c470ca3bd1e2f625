import DataflowCost.Config.Environment
import DataflowCost.Estimate.Profile
import DataflowCost.Journal.Reports
import DataflowCost.Proofs.Dependency
import DataflowCost.Proofs.Schedule
import DataflowCost.Proofs.Emission
import DataflowCost.Proofs.Links
import DataflowCost.Proofs.Reachable
import DataflowCost.Proofs.Acyclicity
import DataflowCost.Proofs.Evaluation
import DataflowCost.Proofs.TopologicalOrder
import DataflowCost.Proofs.Contract
import DataflowCost.Proofs.Families.Pointwise
import DataflowCost.Proofs.Families.Product
import DataflowCost.Proofs.Families.Window
import DataflowCost.Proofs.Families.Normalization
import DataflowCost.Proofs.Families.Layout
import DataflowCost.Proofs.Families.Range
import DataflowCost.Proofs.Families.Selection
import DataflowCost.Proofs.Families.Collective
import DataflowCost.Proofs.Operators
import DataflowCost.Proofs.InPlace
import DataflowCost.Proofs.Growth
import DataflowCost.Proofs.Inferred
import DataflowCost.Proofs.Faults
import DataflowCost.Proofs.Registration
import DataflowCost.Proofs.Guids
import DataflowCost.Proofs.Constants
import DataflowCost.Proofs.Exact
import DataflowCost.Proofs.Keys.Basic
import DataflowCost.Proofs.Keys.Pointwise
import DataflowCost.Proofs.Keys.Product
import DataflowCost.Proofs.Keys.Window
import DataflowCost.Proofs.Keys.Normalization
import DataflowCost.Proofs.Keys.Layout
import DataflowCost.Proofs.Keys.Range
import DataflowCost.Proofs.Keys.Selection
import DataflowCost.Proofs.Keys.Collective
import DataflowCost.Proofs.Keys.Operators
import DataflowCost.Proofs.SharedKeys
import DataflowCost.Proofs.Broadcast
import DataflowCost.Proofs.Keys.Decoding
import DataflowCost.Proofs.Appended
import DataflowCost.Proofs.Valued
import DataflowCost.Proofs.Activation
import DataflowCost.Proofs.Decision
import DataflowCost.Proofs.FusedActivation
import DataflowCost.Proofs.Monotone.Basic
import DataflowCost.Proofs.Monotone.Pointwise
import DataflowCost.Proofs.Monotone.Product
import DataflowCost.Proofs.Monotone.Window
import DataflowCost.Proofs.Monotone.Normalization
import DataflowCost.Proofs.Monotone.Operators
import DataflowCost.Proofs.Totals
import DataflowCost.Proofs.Accounts
import DataflowCost.Proofs.NonNegative.Operators
import DataflowCost.Proofs.Units.Operators
import DataflowCost.Proofs.Preference
import DataflowCost.Proofs.HostIndependence
import DataflowCost.Proofs.History
import DataflowCost.Proofs.Resolution.Operators
import DataflowCost.Proofs.Slicing
import DataflowCost.Proofs.Concatenation
import DataflowCost.Proofs.Reshaping
import DataflowCost.Proofs.UnitAxes
import DataflowCost.Proofs.Permutations
import DataflowCost.Proofs.TransposedProduct
import DataflowCost.Proofs.Conservation
import DataflowCost.Proofs.TransposedConvolution
import DataflowCost.Proofs.SamePadding
import DataflowCost.Proofs.PooledWindows
import DataflowCost.Proofs.ChannelLayouts
import DataflowCost.Proofs.AxisSets
import DataflowCost.Proofs.Unpadding
import DataflowCost.Proofs.Reductions
import DataflowCost.Proofs.FreeLayouts
import DataflowCost.Proofs.AvoidedCopies
import DataflowCost.Proofs.ResizedAxes
import DataflowCost.Proofs.ResizeParameters
import DataflowCost.Proofs.RequestedSizes
import DataflowCost.Proofs.SortedAxes
import DataflowCost.Proofs.Fingerprints
import DataflowCost.Proofs.Documents
