import Zeos.Impl.Sched

/-!
`entry.S` and `sys_call_table.S`: the two ways into a system call.
-/

namespace Zeos

inductive Routine
  | sysNiSyscall
  | sysExit
  | sysFork
  | sysWrite
  | sysGettime
  | sysClone
  | sysGetpid
  | sysSemInit
  | sysSemWait
  | sysSemSignal
  | sysSemDestroy
  | sysRead
  | sysSbrk
  | sysGetStats
  deriving DecidableEq, Repr

open Routine in
def sysCallTable : List Routine :=
  [sysNiSyscall, sysExit, sysFork, sysNiSyscall, sysWrite, sysNiSyscall, sysNiSyscall, sysNiSyscall,
   sysNiSyscall, sysNiSyscall, sysGettime, sysNiSyscall, sysNiSyscall, sysNiSyscall, sysNiSyscall,
   sysNiSyscall, sysNiSyscall, sysNiSyscall, sysNiSyscall, sysClone, sysGetpid, sysSemInit, sysSemWait,
   sysSemSignal, sysSemDestroy, sysNiSyscall, sysNiSyscall, sysNiSyscall, sysNiSyscall, sysNiSyscall,
   sysRead, sysSbrk, sysNiSyscall, sysNiSyscall, sysNiSyscall, sysGetStats]

def maxSyscall : Int :=
  sysCallTable.length

structure Regs where
  eax : BitVec 32
  ebx : BitVec 32
  ecx : BitVec 32
  edx : BitVec 32
  esi : BitVec 32
  edi : BitVec 32
  ebp : BitVec 32
  deriving DecidableEq, Repr

/--
What happens between `SAVE_ALL` and `RESTORE_ALL`: the index of the word of `sys_call_table` the handler
calls through, if it does, the `%eax` it saves for user mode, and the kernel it leaves.
-/
structure Handled where
  called : Option Int
  eax : BitVec 32
  kernel : Kernel

def notImplemented : BitVec 32 :=
  BitVec.ofInt 32 (-eNOSYS)

section Handlers

-- `call *sys_call_table(, %eax, 4)` through the word of this index, also where that is no entry
variable (call : Int → Regs → Kernel → BitVec 32 × Kernel)

-- The branch of `err` is behind the call of `statsLeaveSys`.
def systemCallHandler (regs : Regs) (k : Kernel) : Handled :=
  let k := k.statsEntrySys
  let index := regs.eax.toInt
  if index < 0 then { called := none, eax := notImplemented, kernel := k }
  else if index > maxSyscall then { called := none, eax := notImplemented, kernel := k }
  else
    let (eax, k) := call index regs k
    { called := some index, eax := eax, kernel := k.statsLeaveSys }

def syscallHandlerSysenter (regs : Regs) (k : Kernel) : Handled :=
  let k := k.statsEntrySys
  let index := regs.eax.toInt
  let (called, eax, k) :=
    if index < 0 then (none, notImplemented, k)
    else if index > maxSyscall then (none, notImplemented, k)
    else
      let (eax, k) := call index regs k
      (some index, eax, k)
  { called := called, eax := eax, kernel := k.statsLeaveSys }

end Handlers

end Zeos
