import StateTree.Binary64.Shortest
import StateTree.Compile
import StateTree.Fields
import StateTree.Inspect
import StateTree.Json.Reader
import StateTree.Json.Writer
import StateTree.Path
import StateTree.Proofs.Compile.Containers
import StateTree.Proofs.Compile.Wiring
import StateTree.Schema.Same
import StateTree.Schema.Text
import StateTree.Settings.Reader
import StateTree.Store.Liveness
import StateTree.Store.Update
import StateTree.Typing
import StateTree.Value.Same
import StateTree.Proofs.Binary64.Units
import StateTree.Proofs.Number.Order
import StateTree.Proofs.Compile.Spelling
import StateTree.Proofs.Compile.Typed
import StateTree.Proofs.Binary64.Decimals
import StateTree.Proofs.Json.Numerals
import StateTree.Proofs.Json.Scanning
import StateTree.Proofs.Value.Document
import StateTree.Proofs.Json.Reading
import StateTree.Proofs.Program
import StateTree.Proofs.Compile.Targets
import StateTree.Proofs.Compile.Frame
import StateTree.Proofs.Schema.Sound
import StateTree.Proofs.Schema.Union
import StateTree.Proofs.Schema.Wrapped
import StateTree.Proofs.Compile.Slots
import StateTree.Proofs.Refinement
import StateTree.Proofs.Store.Indexing
import StateTree.Proofs.Compile.Setting
import StateTree.Proofs.Compile.Resetting
import StateTree.Proofs.Schema.Options
import StateTree.Proofs.Store.Finding
import StateTree.Proofs.Compile.Positions
import StateTree.Proofs.Store.Recording
import StateTree.Proofs.Value.Canonical
import StateTree.Proofs.Compile.Descent
import StateTree.Proofs.Schema.Skeleton
