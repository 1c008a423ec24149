import Pandio.Heap.Links
import Pandio.Queue.History
import Pandio.Unix.WriteOrder
import Pandio.Unix.TimerOverflow
import Pandio.Unix.LoopPhases
import Pandio.Unix.ClosedStream
import Pandio.Unix.StreamDrain
import Pandio.Unix.Kqueue
import Pandio.Unix.Listener
import Pandio.Unix.RefCount
import Pandio.Unix.Inflow
import Pandio.Unix.TimerPhase
import Pandio.Unix.TimerTies
import Pandio.Unix.Opening
import Pandio.Unix.Random
import Pandio.Unix.Interrupts
import Pandio.Unix.ReadLedger
import Pandio.Unix.TornWrites
import Pandio.Pool.Completion
import Pandio.Pool.Shutdown
import Pandio.Pool.Lifetime
import Pandio.Pool.SingleWorker
import Pandio.Pool.FsRequests
import Pandio.Iocp.Closing
import Pandio.Iocp.Reading
import Pandio.Iocp.Status
import Pandio.Iocp.AcceptSlots
import Pandio.Heap.Cost
import Pandio.Heap.Drain
import Pandio.Pool.Service
import Pandio.Pool.Overtaking
import Pandio.Unix.TaskService
import Pandio.Unix.Release
import Pandio.Unix.Link
import Pandio.Unix.Faults
import Pandio.Unix.FreedOps
