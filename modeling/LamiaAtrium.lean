import LamiaAtrium.Machine
import LamiaAtrium.Pte
import LamiaAtrium.Kernel
import LamiaAtrium.Mapping
import LamiaAtrium.Memmap
import LamiaAtrium.Libmem
import LamiaAtrium.Queue
import LamiaAtrium.Sched
import LamiaAtrium.Cpu
import LamiaAtrium.System
import LamiaAtrium.Library.Ownership
import LamiaAtrium.Proofs.FrameOwnership
import LamiaAtrium.Proofs.Paging
import LamiaAtrium.Proofs.Fetching
import LamiaAtrium.Proofs.FlatMemory
import LamiaAtrium.Proofs.RamMapping
import LamiaAtrium.Library.Run
import LamiaAtrium.Library.Tally
import LamiaAtrium.Proofs.FrameSafety
import LamiaAtrium.Proofs.Growth
import LamiaAtrium.Library.Allocation
import LamiaAtrium.Proofs.Regions
import LamiaAtrium.Proofs.RegionRuns
import LamiaAtrium.Proofs.Scheduler
import LamiaAtrium.Proofs.Threads
import LamiaAtrium.Proofs.Processes
import LamiaAtrium.Proofs.Callers
import LamiaAtrium.Library.RoundRobin
import LamiaAtrium.Proofs.Rotation
import LamiaAtrium.Proofs.LevelOrder
import LamiaAtrium.Proofs.Barrier
import LamiaAtrium.Proofs.Bounds
import LamiaAtrium.Proofs.Access
import LamiaAtrium.Proofs.ReadBack
import LamiaAtrium.Proofs.Shutdown
import LamiaAtrium.Slots
import LamiaAtrium.Proofs.Placement
import LamiaAtrium.Proofs.LockStep
import LamiaAtrium.Proofs.Completion
import LamiaAtrium.Proofs.Rollback
import LamiaAtrium.Proofs.Release
import LamiaAtrium.Proofs.Delivery
import LamiaAtrium.Proofs.Instructions
import LamiaAtrium.Proofs.SharedKernel
import LamiaAtrium.Proofs.AddressSpace
import LamiaAtrium.Library.Memory
import LamiaAtrium.TableHeap
import LamiaAtrium.Interleaved
import LamiaAtrium.Proofs.TableHeap
import LamiaAtrium.Proofs.LockDiscipline
import LamiaAtrium.Proofs.Alone
import LamiaAtrium.Proofs.PageMoves
import LamiaAtrium.Proofs.Reach
import LamiaAtrium.Proofs.ReadResult
import LamiaAtrium.Proofs.Interference
import LamiaAtrium.Proofs.Isolation
import LamiaAtrium.Proofs.Conservation
import LamiaAtrium.Proofs.FirstFit
import LamiaAtrium.Library.LinkedList
import LamiaAtrium.NodeHeap
import LamiaAtrium.Proofs.Addressable
import LamiaAtrium.Proofs.Encoding
import LamiaAtrium.Proofs.FrameList
import LamiaAtrium.Proofs.InitialMm
import LamiaAtrium.Proofs.Areas
import LamiaAtrium.Scanf
import LamiaAtrium.ReadConfig
import LamiaAtrium.Proofs.Levels
import LamiaAtrium.CpuRoutine
import LamiaAtrium.Proofs.Quantum
import LamiaAtrium.Proofs.SymbolTable
import LamiaAtrium.Proofs.AccessModes
import LamiaAtrium.Library.StableQueue
import LamiaAtrium.Proofs.ProcessQueue
import LamiaAtrium.Proofs.PageReplacement
import LamiaAtrium.Loader
import LamiaAtrium.Proofs.LoadedProgram
import LamiaAtrium.Proofs.ProcessFiles
import LamiaAtrium.QueueArray
import LamiaAtrium.Library.Atomicity
import LamiaAtrium.Proofs.Atomicity
import LamiaAtrium.Proofs.Timeline
import LamiaAtrium.Proofs.TimeGoesOn
import LamiaAtrium.Proofs.Fairness
import LamiaAtrium.Dispatching
import LamiaAtrium.Proofs.QueueLock
import LamiaAtrium.Proofs.FileFormats
import LamiaAtrium.Proofs.ConfigFiles
import LamiaAtrium.Proofs.Unmapped
import LamiaAtrium.Proofs.NodeLists
import LamiaAtrium.Proofs.PagedRuns
import LamiaAtrium.Proofs.Faults
import LamiaAtrium.Proofs.AsIfAlone
import LamiaAtrium.Proofs.TimeLimit
