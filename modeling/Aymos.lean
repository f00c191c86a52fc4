import Aymos.ByteMem
import Aymos.Tiling
import Aymos.FreeRuns
import Aymos.Words
import Aymos.Allocator
import Aymos.HeapRepr
import Aymos.HeapBlocks
import Aymos.HeapOps
import Aymos.HeapCalls
import Aymos.Coalescing
import Aymos.HeapRun
import Aymos.HeapUndo
import Aymos.HeapSweep
import Aymos.HeapStats
import Aymos.HeapTotals
import Aymos.HeapSearch
import Aymos.HeapFree
import Aymos.HeapValidate
import Aymos.HeapTamper
import Aymos.LeastSearch
import Aymos.Demand
import Aymos.BitFields
import Aymos.Scheduler
import Aymos.TimeRange
import Aymos.CircularBuffer
import Aymos.Trace
import Aymos.RingHistory
import Aymos.OverflowReports
import Aymos.LittleEndian
import Aymos.Crc
import Aymos.Wire
import Aymos.Decoder
import Aymos.RoundTrip
import Aymos.Footer
import Aymos.Validate
import Aymos.Canonical
import Aymos.Exceptions
import Aymos.Damage
import Aymos.WordMem
import Aymos.Kernel
import Aymos.Machine
import Aymos.Select
import Aymos.Handlers
import Aymos.Frames
import Aymos.Services
import Aymos.Switch
import Aymos.Control
import Aymos.ControlSim
import Aymos.Slots
import Aymos.ControlInv
import Aymos.Boot
import Aymos.Ownership
import Aymos.Sites
import Aymos.EmissionLog
import Aymos.Stacks
import Aymos.Safety
import Aymos.Startup
import Aymos.Contexts
import Aymos.RunSafety
import Aymos.Creation
import Aymos.Dispatch
import Aymos.SlotSteps
import Aymos.Timing
import Aymos.SlotRecords
import Aymos.Scenario
import Aymos.Script
import Aymos.Acceptance
import Aymos.Snapshot
import Aymos.Replay
import Aymos.Selections
import Aymos.MemoryTrace
import Aymos.Lifecycle
import Aymos.Occupancy
import Aymos.Cadence
import Aymos.JobLedger
import Aymos.Outcomes
import Aymos.Optimality
import Aymos.Timeline
import Aymos.FoldAlong
import Aymos.HostStates
import Aymos.HostRuns
import Aymos.Accounting
import Aymos.Causes
import Aymos.SelectionOrder
import Aymos.FirQ15
import Aymos.FirAgreement
import Aymos.FirMemory
import Aymos.StopPoints
import Aymos.Evidence
import Aymos.EvidenceStops
import Aymos.EvidenceLock
import Aymos.FaultPlan
import Aymos.ReportRemoval
import Aymos.StreamCode
import Aymos.ExecutionTrace
import Aymos.KernelHeap
import Aymos.RecordRange
import Aymos.TraceVerdict
import Aymos.Pipeline
import Aymos.Correlation
import Aymos.Exactness
import Aymos.Flush
import Aymos.SignalCapture
import Aymos.SignalLab
import Aymos.ReportRetention
import Aymos.Schedulability
import Aymos.Explanation
