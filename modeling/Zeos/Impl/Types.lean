import Mathlib.Algebra.GroupWithZero.Nat

/-!
The constants and data types of the kernel: `mm_address.h`, `types.h`, `sched.h`, `stats.h`,
`semaphores.h`, `cirBuffer.h` and the error codes of `errno.h` that the system calls return.
-/

namespace Zeos

abbrev Byte := BitVec 8

abbrev Addr := BitVec 32

abbrev Ticks := BitVec 32

section Constants

abbrev nrTasks : Nat := 15

abbrev nrSemaphores : Nat := 20

abbrev totalPages : Nat := 1024

abbrev numPagKernel : Nat := 256

abbrev pagLogInitCode : Nat := 256

abbrev numPagCode : Nat := 8

abbrev pagLogInitData : Nat := pagLogInitCode + numPagCode

abbrev numPagData : Nat := 20

abbrev pagLogInitHeap : Nat := pagLogInitData + numPagData

abbrev pageSize : Nat := 4096

abbrev heapStart : Nat := pagLogInitHeap * pageSize

abbrev cirBufferSize : Nat := 16

abbrev defaultQuantum : Int := 15

abbrev tamWrite : Int := 4

abbrev ePERM : Int := 1
abbrev eSRCH : Int := 3
abbrev eBADF : Int := 9
abbrev eNOMEM : Int := 12
abbrev eACCES : Int := 13
abbrev eFAULT : Int := 14
abbrev eBUSY : Int := 16
abbrev eINVAL : Int := 22
abbrev eNOSYS : Int := 38

end Constants

/-- An index into `task`; the PCB at that index stands for its own address. -/
abbrev Slot := Fin nrTasks

abbrev DirIx := Fin nrTasks

abbrev SemIx := Fin nrSemaphores

instance : NeZero nrTasks :=
  ⟨by decide⟩

instance : LawfulBEq Slot :=
  inferInstance

inductive Estado
  | stRun
  | stReady
  | stBlocked
  deriving DecidableEq, Repr, Inhabited

structure Stats where
  userTicks : Ticks
  systemTicks : Ticks
  blockedTicks : Ticks
  readyTicks : Ticks
  elapsedTotalTicks : Ticks
  totalTrans : Ticks
  remainingTicks : Ticks
  deriving DecidableEq, Repr

/--
`struct task_struct` without the node `list`, which lives in the heap of list nodes, and without
`kernel_esp`, for which `Cont` stands.
-/
structure TaskStruct where
  pid : Int
  dirPagesBaseAddr : DirIx
  estado : Estado
  estadisticas : Stats
  nDirectorio : DirIx
  semRet : Int
  quantum : Int
  readKeys : Int
  requiredKeys : Int
  processBreak : Nat
  deriving DecidableEq, Repr

inductive StateSem
  | freeSem
  | usedSem
  deriving DecidableEq, Repr

/-- `struct semaphore` without the list head `blockedQueue`. -/
structure Semaphore where
  state : StateSem
  nSem : Int
  owner : Int
  counter : Int
  deriving DecidableEq, Repr

/-- `struct cirBuffer`; a cell past the end of `buffer` is a cell of the memory that follows it. -/
structure CirBuffer where
  writePos : Int
  readPos : Int
  full : Nat
  buffer : Nat → Byte

inductive Queue
  | freequeue
  | readyqueue
  | keyboardqueue
  | blockedQueue (i : SemIx)
  deriving DecidableEq, Repr

/-- The address of a `struct list_head`: a head, or the field `list` of a PCB. -/
inductive ListHead
  | head (q : Queue)
  | list (t : Slot)
  deriving DecidableEq, Repr

structure PageTableEntry where
  present : Bool
  rw : Bool
  user : Bool
  pbaseAddr : Nat
  deriving DecidableEq, Repr

inductive Frame
  | freeFrame
  | usedFrame
  deriving DecidableEq, Repr

/--
What a suspended task does when it gets the CPU again, in place of its kernel stack.
-/
inductive Cont
  /-- It returns from its system call or interrupt. -/
  | user
  /-- The idle task enters `cpu_idle` for the first time. -/
  | cpuIdle
  /-- It is past `sched_next_rr` in `sys_sem_wait`. -/
  | semWait
  /-- It is at the top of the `while` of `sys_read_keyboard`. -/
  | readKeyboard (buff : Addr)
  deriving DecidableEq, Repr

/--
A call `copy_to_user(key, buff++, 1)` made for `task` that came back: its first two arguments, and the
byte it copied.
-/
structure UserCopy where
  task : Slot
  start : Addr
  dest : Addr
  byte : Byte
  deriving DecidableEq, Repr

end Zeos
