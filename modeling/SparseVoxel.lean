import SparseVoxel.Affine.Basic
import SparseVoxel.Affine.Input
import SparseVoxel.Affine.Parts
import SparseVoxel.Affine.PivotMap
import SparseVoxel.Box.Basic
import SparseVoxel.Box.Blocks
import SparseVoxel.Box.Halving
import SparseVoxel.Box.Input
import SparseVoxel.Datum
import SparseVoxel.Decimal.Column
import SparseVoxel.Decimal.Dyadic
import SparseVoxel.Decimal.Scientific
import SparseVoxel.Decimal.Shortest
import SparseVoxel.Fault
import SparseVoxel.Grid.Active
import SparseVoxel.Grid.Basic
import SparseVoxel.Grid.Block
import SparseVoxel.Grid.Checked
import SparseVoxel.Grid.Lemmas
import SparseVoxel.Grid.Prune
import SparseVoxel.Grid.Uniform
import SparseVoxel.Grid.Window
import SparseVoxel.Holding
import SparseVoxel.Machine
import SparseVoxel.Matrix.Elimination
import SparseVoxel.Matrix.Four
import SparseVoxel.Matrix.Three
import SparseVoxel.Nested.Basic
import SparseVoxel.Nested.Broadcast
import SparseVoxel.Nested.Determinant
import SparseVoxel.Nested.Lines
import SparseVoxel.Nested.Product
import SparseVoxel.Nested.Reading
import SparseVoxel.Number
import SparseVoxel.Placement
import SparseVoxel.Proofs.Affine.Choice
import SparseVoxel.Proofs.Affine.Decompose
import SparseVoxel.Proofs.Affine.Extended
import SparseVoxel.Proofs.Affine.Image
import SparseVoxel.Proofs.Affine.Inverse
import SparseVoxel.Proofs.Affine.Parts
import SparseVoxel.Proofs.Affine.PivotMap
import SparseVoxel.Proofs.Affine.Rebuild
import SparseVoxel.Proofs.Affine.Tight
import SparseVoxel.Proofs.Box.Addresses
import SparseVoxel.Proofs.Box.Enumeration
import SparseVoxel.Proofs.Box.Halving
import SparseVoxel.Proofs.Euler
import SparseVoxel.Proofs.Euler.Angles
import SparseVoxel.Proofs.Grid.Active
import SparseVoxel.Proofs.Grid.ActiveQueries
import SparseVoxel.Proofs.Grid.Batch
import SparseVoxel.Proofs.Grid.Blocks
import SparseVoxel.Proofs.Grid.Calls
import SparseVoxel.Proofs.Grid.Canonical
import SparseVoxel.Proofs.Grid.Collapse
import SparseVoxel.Proofs.Grid.Count
import SparseVoxel.Proofs.Grid.Filling
import SparseVoxel.Proofs.Grid.Invariant
import SparseVoxel.Proofs.Grid.Probe
import SparseVoxel.Proofs.Grid.Prune
import SparseVoxel.Proofs.Grid.Refused
import SparseVoxel.Proofs.Grid.Search
import SparseVoxel.Proofs.Grid.Stored
import SparseVoxel.Proofs.Grid.Tidy
import SparseVoxel.Proofs.Grid.Uniform
import SparseVoxel.Proofs.Grid.Window
import SparseVoxel.Proofs.Grid.Writes
import SparseVoxel.Proofs.Lists
import SparseVoxel.Proofs.Matrix.Columns
import SparseVoxel.Proofs.Matrix.Elimination
import SparseVoxel.Proofs.Matrix.Four
import SparseVoxel.Proofs.Matrix.Lattice
import SparseVoxel.Proofs.Matrix.Strict
import SparseVoxel.Proofs.Matrix.Three
import SparseVoxel.Proofs.Placement
import SparseVoxel.Proofs.Placement.Copies
import SparseVoxel.Proofs.Placement.Operations
import SparseVoxel.Proofs.Resampler.Alignment
import SparseVoxel.Proofs.Resampler.Bounds
import SparseVoxel.Proofs.Resampler.Coverage
import SparseVoxel.Proofs.Resampler.Exact
import SparseVoxel.Proofs.Resampler.Inherited
import SparseVoxel.Proofs.Resampler.Lattice
import SparseVoxel.Proofs.Resampler.Order
import SparseVoxel.Proofs.Resampler.Pass
import SparseVoxel.Proofs.Resampler.Plan
import SparseVoxel.Proofs.Resampler.Reach
import SparseVoxel.Proofs.Resampler.Settled
import SparseVoxel.Proofs.Resampler.Split
import SparseVoxel.Proofs.Resampler.Storage
import SparseVoxel.Proofs.Resampler.Tiles
import SparseVoxel.Proofs.Resampler.Windows
import SparseVoxel.Proofs.Rotation
import SparseVoxel.Proofs.Sampler.Blend
import SparseVoxel.Proofs.Sampler.Bounds
import SparseVoxel.Proofs.Sampler.Component
import SparseVoxel.Proofs.Sampler.Lattice
import SparseVoxel.Proofs.Sampler.Polynomial
import SparseVoxel.Proofs.Sampler.Reading
import SparseVoxel.Proofs.Sampler.Reference
import SparseVoxel.Proofs.Sampler.Uniform
import SparseVoxel.Proofs.Scalar.Binary64
import SparseVoxel.Proofs.Scalar.Exact
import SparseVoxel.Proofs.Scalar.Extended
import SparseVoxel.Proofs.Scalar.Propagation
import SparseVoxel.Proofs.Scalar.QuarterTurns
import SparseVoxel.Proofs.Scalar.Real
import SparseVoxel.Proofs.Scalar.Rounding
import SparseVoxel.Proofs.Scalar.Strict
import SparseVoxel.Resampler.Alignment
import SparseVoxel.Resampler.Basic
import SparseVoxel.Resampler.Options
import SparseVoxel.Resampler.Region
import SparseVoxel.Resampler.Traversal
import SparseVoxel.Rotation
import SparseVoxel.Sampler.Basic
import SparseVoxel.Sampler.Blend
import SparseVoxel.Sampler.Input
import SparseVoxel.Scalar.Basic
import SparseVoxel.Scalar.Binary64
import SparseVoxel.Scalar.Hypotenuse
import SparseVoxel.Scene.AnyGrid
import SparseVoxel.Scene.Basic
import SparseVoxel.Settings
import SparseVoxel.Text.Cased
import SparseVoxel.Text.Lowercase
import SparseVoxel.Value.Basic
import SparseVoxel.Value.Component
import SparseVoxel.Value.Kind
import SparseVoxel.Value.Transfer
import SparseVoxel.Vec3
import SparseVoxel.Voxel
import SparseVoxel.Word
import SparseVoxel.Proofs.Grid.TwoMaps
