import OffloadAlgebra.Backoff
import OffloadAlgebra.Binary
import OffloadAlgebra.Scalar
import OffloadAlgebra.Config
import OffloadAlgebra.Decimal.Fixed
import OffloadAlgebra.Decimal.Layout
import OffloadAlgebra.Decimal.Read
import OffloadAlgebra.Decimal.Shortest
import OffloadAlgebra.Device.Buffer
import OffloadAlgebra.Device.Context
import OffloadAlgebra.Device.HostQueue
import OffloadAlgebra.Device.HostSession
import OffloadAlgebra.Device.Invoke
import OffloadAlgebra.Device.Ops
import OffloadAlgebra.Device.Queue
import OffloadAlgebra.Device.Session
import OffloadAlgebra.Dispatch
import OffloadAlgebra.Error
import OffloadAlgebra.Kernel.Arg
import OffloadAlgebra.Kernel.Builtin
import OffloadAlgebra.Kernel.Launch
import OffloadAlgebra.Kernel.Program
import OffloadAlgebra.Kernel.Sample
import OffloadAlgebra.Kernel.Standard
import OffloadAlgebra.Matrix
import OffloadAlgebra.Matrix.Dense
import OffloadAlgebra.Options
import OffloadAlgebra.Proofs.HostQueue.Basic
import OffloadAlgebra.Proofs.HostQueue.Layout
import OffloadAlgebra.Proofs.HostQueue.Outcome
import OffloadAlgebra.Proofs.HostQueue.Progress
import OffloadAlgebra.Proofs.Session.Drain
import OffloadAlgebra.Proofs.Session.Footprint
import OffloadAlgebra.Proofs.Session.Memory
import OffloadAlgebra.Proofs.Source.Delimiters
import OffloadAlgebra.Proofs.Source.Encoding
import OffloadAlgebra.Proofs.Source.FrontEnd
import OffloadAlgebra.Proofs.Source.Lexing
import OffloadAlgebra.Proofs.Source.ScanOrder
import OffloadAlgebra.Proofs.Source.Scanner
import OffloadAlgebra.Range
import OffloadAlgebra.Shape
import OffloadAlgebra.SharedContext
import OffloadAlgebra.Source.Build
import OffloadAlgebra.Source.Flags
import OffloadAlgebra.Source.Scan
import OffloadAlgebra.Source.Token
import OffloadAlgebra.Telemetry.Export
import OffloadAlgebra.Telemetry.Histogram
import OffloadAlgebra.Telemetry.Metrics
import OffloadAlgebra.Text.Blank
import OffloadAlgebra.Text.Identifier
import OffloadAlgebra.Text.Integer
import OffloadAlgebra.Text.Printable
import OffloadAlgebra.Text.Quoted
import OffloadAlgebra.Word
import OffloadAlgebra.Proofs.Session.Lists
import OffloadAlgebra.Proofs.Session.Sequential
import OffloadAlgebra.Proofs.Session.Coupling
import OffloadAlgebra.Proofs.Session.Calls
import OffloadAlgebra.Proofs.Session.Refinement
import OffloadAlgebra.Proofs.Session.Accesses
import OffloadAlgebra.Proofs.Session.ProgramOrder
import OffloadAlgebra.Proofs.Options.Map
import OffloadAlgebra.Proofs.Options.SquareRoot
import OffloadAlgebra.Proofs.Options.Build
import OffloadAlgebra.Proofs.Options.Flags
import OffloadAlgebra.Proofs.Exact.Product
import OffloadAlgebra.Proofs.Kernels.Standard
import OffloadAlgebra.Proofs.Dispatch.DevicePath
import OffloadAlgebra.Proofs.Dispatch.Counting
import OffloadAlgebra.Proofs.Dispatch.Multiply
import OffloadAlgebra.Proofs.Kernels.Table
import OffloadAlgebra.Proofs.Kernels.Launch
import OffloadAlgebra.SharedSlot
import OffloadAlgebra.Proofs.Runtime.SharedSlot
import OffloadAlgebra.Device.MatrixEvents
import OffloadAlgebra.Proofs.Events.MatrixLists
import OffloadAlgebra.Proofs.Exact.Triangular
import OffloadAlgebra.Proofs.Exact.HostAlgebra
import OffloadAlgebra.Proofs.Dispatch.Triangular
import OffloadAlgebra.Proofs.Kernels.InPlace
import OffloadAlgebra.Proofs.Kernels.BuiltinLaunch
import OffloadAlgebra.Proofs.Session.RoundTrip
import OffloadAlgebra.Proofs.Dispatch.Tiles
import OffloadAlgebra.Proofs.Options.Meet
import OffloadAlgebra.Proofs.Source.Passes
import OffloadAlgebra.Proofs.Source.KernelNames
