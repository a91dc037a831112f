import EdgeIpc.Lib.Run
import EdgeIpc.Lib.Buffer
import EdgeIpc.Ats.Frame
import EdgeIpc.Ats.Wire
import EdgeIpc.Ats.Proofs.Codec
import EdgeIpc.Ats.Proofs.Framing
import EdgeIpc.Daemon.StateManager
import EdgeIpc.Daemon.Proofs.Shutdown
import EdgeIpc.Lib.Fifo
import EdgeIpc.Daemon.TelemetryReceiver
import EdgeIpc.Daemon.Proofs.Receiver
import EdgeIpc.Lib.Threads
import EdgeIpc.Ats.Pool
import EdgeIpc.Ats.Proofs.Pool
import EdgeIpc.Ats.Session
import EdgeIpc.Ats.Proofs.SessionShape
import EdgeIpc.Ats.Proofs.SessionSafety
import EdgeIpc.Ats.Proofs.SessionAcks
import EdgeIpc.Lib.Loop
import EdgeIpc.Lib.Packed
import EdgeIpc.Vsc.LuSolver
import EdgeIpc.Vsc.Network
import EdgeIpc.Vsc.Proofs.Lu
import EdgeIpc.Vsc.Proofs.Nodal
import EdgeIpc.Vsc.Proofs.Trapezoidal
import EdgeIpc.Daemon.Proofs.Moves
import EdgeIpc.Daemon.Proofs.Books
import EdgeIpc.Daemon.Proofs.Transitions
import EdgeIpc.Daemon.Proofs.Notifications
import EdgeIpc.Daemon.DataProcessor
import EdgeIpc.Daemon.Proofs.Processor
import EdgeIpc.Daemon.Main
import EdgeIpc.Daemon.Proofs.MainLoop
import EdgeIpc.Daemon.Proofs.Faults
import EdgeIpc.Sdn.Proofs.Stream
import EdgeIpc.Sdn.TelemetryNode
import EdgeIpc.Sdn.Proofs.Producer
import EdgeIpc.Sdn.Proofs.Life
import EdgeIpc.Sdn.Proofs.Snapshots
import EdgeIpc.Lib.Assoc
import EdgeIpc.Sdn.Coordinator
import EdgeIpc.Sdn.Proofs.Health
import EdgeIpc.Ats.Client
import EdgeIpc.Ats.Proofs.ClientServer
import EdgeIpc.Vsc.HlsSolver
import EdgeIpc.Vsc.Proofs.Hls
import EdgeIpc.Ats.Proofs.Crc
import EdgeIpc.Ats.Proofs.Grammar
import EdgeIpc.Vsc.HilModel
import EdgeIpc.Vsc.Proofs.Energy
import EdgeIpc.Vsc.Proofs.Hil
import EdgeIpc.Opcua.DataSource
import EdgeIpc.Opcua.Proofs.DataSource
import EdgeIpc.Daemon.DaemonBus
import EdgeIpc.Daemon.Proofs.Diagnostics
import EdgeIpc.Lib.Fixed
import EdgeIpc.Vsc.HlsSynth
import EdgeIpc.Vsc.Proofs.HlsSynth
import EdgeIpc.Ats.Proofs.Store
import EdgeIpc.Vsc.Proofs.HlsPivots
import EdgeIpc.Vsc.Proofs.HlsClock
import EdgeIpc.Vsc.Controller
import EdgeIpc.Vsc.Proofs.Modulator
import EdgeIpc.Daemon.Proofs.Filters
import EdgeIpc.Sdn.Proofs.StreamOrder
import EdgeIpc.Daemon.FileSource
import EdgeIpc.Daemon.Proofs.FileSource
import EdgeIpc.Lib.CrcWeight
import EdgeIpc.Ats.Proofs.Scatter
import EdgeIpc.Vsc.Analysis
import EdgeIpc.Vsc.Proofs.Analysis
import EdgeIpc.Vsc.Proofs.Cache
import EdgeIpc.Lib.Samples
import EdgeIpc.Vsc.Proofs.Duty
import EdgeIpc.Ats.Proofs.PoolProgress
import EdgeIpc.Ats.Proofs.Server
import EdgeIpc.Ats.Proofs.Chunking
import EdgeIpc.Lib.Clamp
import EdgeIpc.Vsc.ClosedLoop
import EdgeIpc.Vsc.Proofs.Balance
import EdgeIpc.Vsc.Proofs.Linear
import EdgeIpc.Vsc.Proofs.Pi
import EdgeIpc.Lib.Ladder
import EdgeIpc.Vsc.Proofs.Bounded
import EdgeIpc.Lib.Atomic
import EdgeIpc.Daemon.Proofs.Linearizable
import EdgeIpc.Daemon.Proofs.Delivery
import EdgeIpc.Lib.Fair
import EdgeIpc.Daemon.Proofs.Progress
import EdgeIpc.Daemon.Proofs.Exit
import EdgeIpc.Lib.Coherent
import EdgeIpc.Opcua.TelemetrySim
import EdgeIpc.Opcua.UpdateLoop
import EdgeIpc.Opcua.Proofs.UpdateLoop
import EdgeIpc.Opcua.Proofs.UpdateStop
import EdgeIpc.Lib.Marked
import EdgeIpc.Sdn.Proofs.Status
import EdgeIpc.Sdn.Cluster
import EdgeIpc.Sdn.Proofs.Polling
import EdgeIpc.Sdn.Proofs.Report
