import VehicleCanCore.Automata.Acceptor
import VehicleCanCore.Automata.Accumulator
import VehicleCanCore.Automata.BoundedQueue
import VehicleCanCore.Automata.CircularWindow
import VehicleCanCore.Automata.Conveyor
import VehicleCanCore.Automata.LastWriter
import VehicleCanCore.Automata.Machine
import VehicleCanCore.Automata.Semaphore
import VehicleCanCore.CanBus.Acquisition
import VehicleCanCore.CanBus.Calls
import VehicleCanCore.CanBus.Cleanup
import VehicleCanCore.CanBus.DriverCounters
import VehicleCanCore.CanBus.DriverProtocol
import VehicleCanCore.CanBus.FrameAccounting
import VehicleCanCore.CanBus.FrameQueue
import VehicleCanCore.CanBus.FrameRing
import VehicleCanCore.CanBus.FrameRingFifo
import VehicleCanCore.CanBus.Lifecycle
import VehicleCanCore.CanBus.Parties
import VehicleCanCore.CanBus.Progress
import VehicleCanCore.CanBus.RingDepth
import VehicleCanCore.CanBus.RunningState
import VehicleCanCore.CanBus.SequentialRing
import VehicleCanCore.CanBus.TaskExclusivity
import VehicleCanCore.CanBus.Wakeup
import VehicleCanCore.CanBus.Watermark
import VehicleCanCore.Core.Frame
import VehicleCanCore.Core.Signal
import VehicleCanCore.Core.SignalAvailability
import VehicleCanCore.Telemetry.Agreement
import VehicleCanCore.Telemetry.Boundary
import VehicleCanCore.Telemetry.CanBusSource
import VehicleCanCore.Telemetry.Cancellation
import VehicleCanCore.Telemetry.CleanupFailure
import VehicleCanCore.Telemetry.Completion
import VehicleCanCore.Telemetry.Delivery
import VehicleCanCore.Telemetry.FaultLatch
import VehicleCanCore.Telemetry.FaultReports
import VehicleCanCore.Telemetry.LifecycleViews
import VehicleCanCore.Telemetry.OpenInterval
import VehicleCanCore.Telemetry.Pipeline
import VehicleCanCore.Telemetry.ProcessingOrder
import VehicleCanCore.Telemetry.Progress
import VehicleCanCore.Telemetry.RejectedStart
import VehicleCanCore.Telemetry.Runtime
import VehicleCanCore.Telemetry.RuntimeParties
import VehicleCanCore.Telemetry.Runtimes
import VehicleCanCore.Telemetry.SoleWorker
import VehicleCanCore.Telemetry.SourceProtocol
import VehicleCanCore.Telemetry.StatisticsCache
import VehicleCanCore.Telemetry.StatisticsRefresh
import VehicleCanCore.Telemetry.Tidings
import VehicleCanCore.Telemetry.TransportSilence
import VehicleCanCore.Telemetry.WorkBudgetLaw
import VehicleCanCore.Telemetry.WorkerLaw
