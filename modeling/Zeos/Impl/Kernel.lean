import Zeos.Impl.Interrupt

/-!
The kernel as a whole: `main` of `system.c`, which leads to user mode, and the steps the machine can
take from there.
-/

namespace Zeos

/--
What happens next: a system call, an interrupt, a store of a user process, or the return of the kernel
to the task it has switched to.
-/
inductive Event
  | fork
  | clone (function stack : Addr)
  | exit
  | semInit (nSem : Int) (value : BitVec 32)
  | semWait (nSem : Int)
  | semSignal (nSem : Int)
  | semDestroy (nSem : Int)
  | read (fd : Int) (buf : Addr) (count : Int)
  | sbrk (incr : Int)
  | clock
  | keyboard (entrada beyond : Byte)
  | store (a : Addr) (v : Byte)
  /-- The current task goes on from where it was in the kernel. -/
  | resume
  deriving DecidableEq, Repr

structure Input where
  event : Event
  readings : Readings
  deriving DecidableEq, Repr

namespace Kernel

@[simps!]
def enter (k : Kernel) : Kernel :=
  { k.statsEntrySys with inKernel := true }

@[simps!]
def leave (k : Kernel) : Kernel :=
  { k.statsLeaveSys with inKernel := false }

/--
The state in which the routine of an event starts. A system call or a store needs a user process, which
the idle task is not, and interrupts are off in the kernel.
-/
def enterFor (i : Input) (k : Kernel) : Option Kernel :=
  let k := { k with readings := i.readings }
  match i.event with
  | .clock | .keyboard _ _ =>
    if k.inKernel then none else some (k.enter.setCont k.current .user)
  | .store _ _ => if k.inKernel ∨ k.current = k.idleTask then none else some k
  | .resume => if k.inKernel then some k else none
  | _ => if k.inKernel ∨ k.current = k.idleTask then none else some k.enter

/-- A machine that has stopped takes no step. -/
def entry (i : Input) (k : Kernel) : Option Kernel :=
  if k.stopped then none else k.enterFor i

def userStore (a : Addr) (v : Byte) (k : Kernel) : Option Kernel :=
  (k.mm.userStore (Mm.getPT k.cr3) a v).map fun mm => { k with mm := mm }

end Kernel

namespace Sys

def result (x : Int × Sys) : Sys :=
  x.2.ret x.1

/-- What follows when the current task gets the CPU in the kernel. -/
def resume (s : Sys) : Option Sys :=
  match s.cont s.current with
  | .user => some (s.mapKernel Kernel.leave)
  | .cpuIdle => some (s.mapKernel fun k => { k with inKernel := false })
  | .semWait => some (s.ret (s.task s.current).semRet)
  | .readKeyboard buff => readKeyboardBody buff s

def routine (event : Event) (s : Sys) : Option Sys :=
  match event with
  | .fork => s.sysFork.map result
  | .clone function stack => (s.sysClone function stack).map result
  | .exit => s.sysExit
  | .semInit nSem value => (s.sysSemInit nSem value).map result
  | .semWait nSem => s.sysSemWait nSem
  | .semSignal nSem => (s.sysSemSignal nSem).map result
  | .semDestroy nSem => (s.sysSemDestroy nSem).map result
  | .read fd buf count => s.sysRead fd buf count
  | .sbrk incr => some (result ((s.sysSbrk incr).1, { s with toKernel := (s.sysSbrk incr).2 }))
  | .clock => s.clockRutine
  | .keyboard entrada beyond => s.keyboardRutine entrada beyond
  | .store a v => (s.userStore a v).map fun k => { s with toKernel := k }
  | .resume => s.resume

def step (i : Input) (s : Sys) : Option Sys :=
  (s.entry i).bind fun k => routine i.event { s with toKernel := k }

end Sys

section Boot

/-- The static variables before `main`; what is in memory is not known. -/
def Sys.zero (frames : Nat → Nat → Byte) : Sys where
  task _ :=
    { pid := 0, dirPagesBaseAddr := 0, estado := .stRun, estadisticas := initStats, nDirectorio := 0,
      semRet := 0, quantum := 0, readKeys := 0, requiredKeys := 0, processBreak := 0 }
  cont _ := .user
  eax _ := 0
  current := 3
  inKernel := true
  idleTask := 0
  cr3 := 0
  qLeft := 0
  zeosTicks := 0
  incrementalPID := 2
  refsDIR _ := 0
  semaphores _ := { state := .freeSem, nSem := 0, owner := 0, counter := 0 }
  keyboardBuff := .zero
  copies := []
  stopped := false
  faultsStop := true
  mm :=
    { physMem := fun _ => .freeFrame, pagusrTable := fun _ => .zero, frames := frames }
  readings := .zero
  links := zeroLinks

def Kernel.initMm (k : Kernel) : Kernel :=
  let k := { k with mm := k.mm.initTablePages.initFrames }
  let k := (k.allocateDIR 0).getD k
  { k with cr3 := k.getDIR 0 }

def Kernel.enterUser (k : Kernel) : Kernel :=
  { k with inKernel := false }

/-- `main`, up to user mode. -/
def boot (frames : Nat → Nat → Byte) : Option Sys := do
  let s ← ((Sys.zero frames).mapKernel Kernel.initMm).initSched
  let s ← s.initIdle
  let s ← s.initTask1
  some (s.mapKernel Kernel.enterUser)

end Boot

end Zeos
