import KernelEventsTrace.Driver.Std.MapSpec
import KernelEventsTrace.Proofs.Map.Moved
import KernelEventsTrace.Proofs.Map.Range
import KernelEventsTrace.Proofs.Set.Agreement
import KernelEventsTrace.Proofs.Set.Construct
import KernelEventsTrace.Proofs.SelfDefense.Files
import KernelEventsTrace.Proofs.SelfDefense.GracePeriod
import KernelEventsTrace.Proofs.SelfDefense.Handles
import KernelEventsTrace.Proofs.SelfDefense.ProcessMap
import KernelEventsTrace.Proofs.Etw.Attribution
import KernelEventsTrace.Proofs.Etw.ArraySize
import KernelEventsTrace.Proofs.Etw.Initialised
import KernelEventsTrace.Proofs.Etw.OffsetCache
import KernelEventsTrace.Proofs.Etw.FailedDecode
import KernelEventsTrace.Proofs.Vector.Bounds
import KernelEventsTrace.Proofs.SelfDefense.Inheritance
import KernelEventsTrace.Proofs.SelfDefense.ProtectedDir
import KernelEventsTrace.Proofs.SelfDefense.Interleaving
import KernelEventsTrace.Proofs.MiniFs.Dispatch
import KernelEventsTrace.Proofs.FileInfoShort
import KernelEventsTrace.Driver.Std.StringObj
import KernelEventsTrace.Proofs.String.Terminated
import KernelEventsTrace.Proofs.Manager.Process
import KernelEventsTrace.Proofs.Manager.Accounting
import KernelEventsTrace.Proofs.Manager.TridAlignment
import KernelEventsTrace.Proofs.String.Find
import KernelEventsTrace.Proofs.String.FailureTable
import KernelEventsTrace.Proofs.String.Compare
import KernelEventsTrace.Proofs.Vector.Refinement
import KernelEventsTrace.Proofs.Vector.Assignment
import KernelEventsTrace.Proofs.Resize
import KernelEventsTrace.Proofs.ArrayIteration
import KernelEventsTrace.Proofs.SharedPtr.Runs
import KernelEventsTrace.Proofs.String.Narrow
import KernelEventsTrace.Proofs.SelfDefense.NormalizePath
import KernelEventsTrace.Proofs.SelfDefense.FailedLookup
import KernelEventsTrace.Proofs.Manager.RoundTrip
import KernelEventsTrace.Proofs.Manager.ProcessTable
import KernelEventsTrace.Proofs.Manager.TridBatches
import KernelEventsTrace.Proofs.Manager.TridDocument
import KernelEventsTrace.Proofs.Text.Utf8
import KernelEventsTrace.Proofs.Text.Evidence
import KernelEventsTrace.Proofs.Manager.Selection
import KernelEventsTrace.Proofs.Manager.Tally
import KernelEventsTrace.Proofs.Manager.ReportedAlerts
import KernelEventsTrace.Proofs.MiniFs.Lifecycle
import KernelEventsTrace.Proofs.MiniFs.FileRun
import KernelEventsTrace.Proofs.Set.Iterators
import KernelEventsTrace.Proofs.String.Refinement
import KernelEventsTrace.Proofs.Etw.Decoding
import KernelEventsTrace.Proofs.Etw.EventClasses
import KernelEventsTrace.Proofs.ExecCommand
import KernelEventsTrace.Proofs.SelfDefense.Sections
