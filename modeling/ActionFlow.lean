import ActionFlow.Command
import ActionFlow.Main
import ActionFlow.Proofs.Clauses
import ActionFlow.Proofs.Emission
import ActionFlow.Proofs.Framing
import ActionFlow.Proofs.Layout
import ActionFlow.Proofs.Plan
import ActionFlow.Proofs.Resolution
import ActionFlow.Proofs.LinearReading
import ActionFlow.Proofs.Tiling
import ActionFlow.Proofs.Embedding
import ActionFlow.Proofs.Placement
import ActionFlow.Proofs.ControlFlow
import ActionFlow.Proofs.LabelTable
import ActionFlow.Proofs.Patching
import ActionFlow.Proofs.Faults
import ActionFlow.Proofs.References
import ActionFlow.Proofs.Renaming
import ActionFlow.Proofs.Mirroring
import ActionFlow.Proofs.Suppression
import ActionFlow.Proofs.Grammar
import ActionFlow.Proofs.BranchDistance
import ActionFlow.Proofs.Decoding
import ActionFlow.Proofs.Json.Scalars
import ActionFlow.Proofs.Json.Values
import ActionFlow.Proofs.Json.Decoders
import ActionFlow.Proofs.RoundTrip
import ActionFlow.Proofs.Splicing
import ActionFlow.Proofs.Composition
import ActionFlow.Proofs.OptionEffects
import ActionFlow.Proofs.Operands
import ActionFlow.Proofs.Reach
import ActionFlow.Proofs.Malformed
import ActionFlow.Proofs.Writing
import ActionFlow.Proofs.ZeroCharacters
import ActionFlow.Proofs.Departure
import ActionFlow.Proofs.FileNames
import ActionFlow.Proofs.Batch
