import Zeos.Lib.Links
import Zeos.Lib.Knot
import Zeos.Lib.Run
import Zeos.Lib.Simulation
import Zeos.Lib.Loop
import Zeos.Lib.Reversal
import Zeos.Lib.Rings
import Zeos.Lib.Fifo
import Zeos.Lib.Turns
import Zeos.Impl.List
import Zeos.Impl.CirBuffer
import Zeos.Impl.Utils
import Zeos.Impl.Libc
import Zeos.Impl.Kernel
import Zeos.Spec.Queues
import Zeos.Spec.Model
import Zeos.Spec.Live
import Zeos.Spec.Memory
import Zeos.Lemmas.CirBuffer
import Zeos.Lemmas.Entry
import Zeos.Lemmas.Utils
import Zeos.Lemmas.Write
import Zeos.Lemmas.List
import Zeos.Lemmas.Kernel
import Zeos.Lemmas.Placed
import Zeos.Lemmas.Refine
import Zeos.Lemmas.Frame
import Zeos.Lemmas.Step
import Zeos.Lemmas.Mm
import Zeos.Lemmas.CopyPage
import Zeos.Lemmas.Boot
import Zeos.Lemmas.Places
import Zeos.Lemmas.UserMemory
import Zeos.Lemmas.Population
import Zeos.Lemmas.FreeQueue
import Zeos.Lemmas.Directories
import Zeos.Lemmas.Memories
import Zeos.Lemmas.GetStats
import Zeos.Lemmas.Times
import Zeos.Spec.Quantum
import Zeos.Lemmas.TimeSlices
import Zeos.Spec.Accounts
import Zeos.Lemmas.Accounts
import Zeos.Lemmas.Quantums
import Zeos.Lemmas.RoundRobin
import Zeos.Spec.Heap
import Zeos.Lemmas.Heap
import Zeos.Spec.Idle
import Zeos.Lemmas.Idle
import Zeos.Spec.Readers
import Zeos.Spec.ReadCalls
import Zeos.Lemmas.NullPage
import Zeos.Lemmas.Readers
import Zeos.Lemmas.WakeUps
import Zeos.Lib.Turnstile
import Zeos.Spec.Semaphores
import Zeos.Lemmas.Semaphores
import Zeos.Spec.SharedHeap
import Zeos.Lemmas.SharedHeap
import Zeos.Spec.Deliveries
import Zeos.Lemmas.Deliveries
import Zeos.Spec.Access
import Zeos.Lemmas.Access
import Zeos.Lemmas.Sbrk
import Zeos.Lemmas.Shrink
import Zeos.Spec.SemTable
import Zeos.Lemmas.Calls
import Zeos.Lemmas.SemTable
import Zeos.Spec.NoMemory
import Zeos.Lemmas.NoMemory
import Zeos.Spec.Window
import Zeos.Lemmas.Window
import Zeos.Lemmas.Drain
import Zeos.Spec.Owners
import Zeos.Lemmas.Owners
import Zeos.Spec.SemCalls
import Zeos.Lemmas.SemCalls
import Zeos.Lemmas.Break
import Zeos.Lemmas.Pool
import Zeos.Lemmas.Accesses
import Zeos.Lemmas.Exit
import Zeos.Lemmas.Console
import Zeos.Lemmas.Stores
import Zeos.Lemmas.Child
import Zeos.Lemmas.Tlb
import Zeos.Lemmas.Switch
import Zeos.Lemmas.Trap
import Zeos.Lemmas.Copy
import Zeos.Lemmas.Rings
import Zeos.Lemmas.Libc
import Zeos.Lib.File
import Zeos.Impl.Build
import Zeos.Lib.Block
import Zeos.Impl.Bootsect
import Zeos.Spec.Bootsect
import Zeos.Lemmas.Bootsect
import Zeos.Spec.Image
import Zeos.Lemmas.Build
import Zeos.Impl.System
import Zeos.Lemmas.Unaliased
import Zeos.Lemmas.BootPages
import Zeos.Spec.Load
import Zeos.Lemmas.Load
import Zeos.Lib.Roll
import Zeos.Impl.Io
import Zeos.Spec.Io
import Zeos.Lemmas.Io
import Zeos.Impl.Wrappers
import Zeos.Spec.Wrappers
import Zeos.Lemmas.Wrappers
import Zeos.Impl.Ticks
import Zeos.Lemmas.Ticks
import Zeos.Impl.Handlers
import Zeos.Spec.Handlers
import Zeos.Lemmas.Handlers
import Zeos.Lib.Words
import Zeos.Impl.Paging
import Zeos.Spec.Paging
import Zeos.Lemmas.Paging
