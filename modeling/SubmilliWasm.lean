import SubmilliWasm.Compile.Streams
import SubmilliWasm.Debug.FuncTable
import SubmilliWasm.Debug.LineTable
import SubmilliWasm.Exec.Backtraces
import SubmilliWasm.Exec.Budget
import SubmilliWasm.Exec.Cadence
import SubmilliWasm.Exec.Framed
import SubmilliWasm.Exec.Grow
import SubmilliWasm.Exec.HandleSpace
import SubmilliWasm.Exec.Metering
import SubmilliWasm.Exec.Packed
import SubmilliWasm.Exec.Progress
import SubmilliWasm.Exec.Segments
import SubmilliWasm.Exec.Serving
import SubmilliWasm.Exec.Simd
import SubmilliWasm.Exec.Throws
import SubmilliWasm.Exec.Ungated
import SubmilliWasm.Module.Artifact
import SubmilliWasm.Store.Conversions
import SubmilliWasm.Store.Definitions
import SubmilliWasm.Store.Engines
import SubmilliWasm.Store.Marks
import SubmilliWasm.Store.Tiling
