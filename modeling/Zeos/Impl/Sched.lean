import Mathlib.Tactic.Simps.Basic
import Zeos.Impl.List
import Zeos.Impl.CirBuffer
import Zeos.Impl.Utils

/-!
`sched.c`: the state of the kernel, the scheduler, and the creation of the first two tasks.

A function that changes the state takes it as its last argument. It is `none` where the C code would
access memory it must not.
-/

namespace Zeos

/--
What `get_ticks` returns to each of the routines that call it, during one step of the kernel. Each of
them calls it in pairs.
-/
structure Readings where
  statsEntrySys : Ticks × Ticks
  exitRunCurrent : Ticks × Ticks
  schedNextRrSystem : Ticks × Ticks
  schedNextRrReady : Ticks × Ticks
  statsLeaveSys : Ticks × Ticks
  deriving DecidableEq, Repr

def Readings.zero : Readings :=
  { statsEntrySys := (0, 0), exitRunCurrent := (0, 0), schedNextRrSystem := (0, 0),
    schedNextRrReady := (0, 0), statsLeaveSys := (0, 0) }

/--
The global variables, the kernel stacks (`cont`, and `eax` for the saved `%eax`), the registers that
select a task (`current` for `%esp`, `cr3`) and whether the kernel runs with interrupts disabled.

`page_fault_routine` never comes back: a page fault of `sys_read_keyboard` leaves the machine `stopped`,
provided that `faultsStop`. `main` starts with that set; without it such a copy is skipped.
-/
structure Kernel where
  task : Slot → TaskStruct
  cont : Slot → Cont
  eax : Slot → Int
  current : Slot
  inKernel : Bool
  idleTask : Slot
  cr3 : DirIx
  qLeft : Int
  zeosTicks : Int
  incrementalPID : Int
  refsDIR : DirIx → Int
  semaphores : SemIx → Semaphore
  keyboardBuff : CirBuffer
  copies : List UserCopy
  stopped : Bool
  faultsStop : Bool
  mm : Mm
  readings : Readings

/-- The kernel together with its lists. -/
structure Sys extends Kernel where
  links : Links ListHead

def initStats : Stats :=
  { userTicks := 0, systemTicks := 0, blockedTicks := 0, readyTicks := 0, elapsedTotalTicks := 0,
    totalTrans := 0, remainingTicks := 0 }

namespace Stats

def addUser (st : Stats) (now : Ticks × Ticks) : Stats :=
  { st with userTicks := st.userTicks + (now.1 - st.elapsedTotalTicks), elapsedTotalTicks := now.2 }

def addSystem (st : Stats) (now : Ticks × Ticks) : Stats :=
  { st with
    systemTicks := st.systemTicks + (now.1 - st.elapsedTotalTicks), elapsedTotalTicks := now.2 }

def addReady (st : Stats) (now : Ticks × Ticks) : Stats :=
  { st with
    readyTicks := st.readyTicks + (now.1 - st.elapsedTotalTicks), elapsedTotalTicks := now.2 }

def addTrans (st : Stats) : Stats :=
  { st with totalTrans := st.totalTrans + 1 }

end Stats

namespace Kernel

@[simps!]
def setTask (k : Kernel) (t : Slot) (f : TaskStruct → TaskStruct) : Kernel :=
  { k with task := fun u => if u = t then f (k.task u) else k.task u }

@[simps!]
def setStats (k : Kernel) (t : Slot) (f : Stats → Stats) : Kernel :=
  k.setTask t fun ts => { ts with estadisticas := f ts.estadisticas }

@[simps!]
def setCont (k : Kernel) (t : Slot) (c : Cont) : Kernel :=
  { k with cont := fun u => if u = t then c else k.cont u }

@[simps!]
def setEax (k : Kernel) (t : Slot) (v : Int) : Kernel :=
  { k with eax := fun u => if u = t then v else k.eax u }

@[simps!]
def setRefs (k : Kernel) (d : DirIx) (n : Int) : Kernel :=
  { k with refsDIR := fun e => if e = d then n else k.refsDIR e }

@[simps!]
def setSem (k : Kernel) (i : SemIx) (f : Semaphore → Semaphore) : Kernel :=
  { k with semaphores := fun j => if j = i then f (k.semaphores j) else k.semaphores j }

def getDIR (k : Kernel) (t : Slot) : DirIx :=
  (k.task t).dirPagesBaseAddr

def getPT (k : Kernel) (t : Slot) : Nat :=
  Mm.getPT (k.getDIR t)

def getDIRPosition (k : Kernel) (t : Slot) : DirIx :=
  (k.task t).nDirectorio

/-- `allocate_DIR`; `none` is -1. -/
def allocateDIR (p : Slot) (k : Kernel) : Option Kernel :=
  ((List.finRange nrTasks).find? fun i => k.refsDIR i = 0).map fun i =>
    (k.setTask p fun ts => { ts with dirPagesBaseAddr := i, nDirectorio := i }).setRefs i
      (k.refsDIR i + 1)

-- The argument is not used, in neither of the two.
def getQuantum (_t : Slot) (k : Kernel) : Int :=
  (k.task k.current).quantum

@[simps!]
def setQuantum (_t : Slot) (q : Int) (k : Kernel) : Kernel :=
  k.setTask k.current fun ts => { ts with quantum := q }

@[simps!]
def statsEntrySys (k : Kernel) : Kernel :=
  k.setStats k.current fun st => st.addUser k.readings.statsEntrySys

@[simps!]
def statsLeaveSys (k : Kernel) : Kernel :=
  k.setStats k.current fun st => st.addSystem k.readings.statsLeaveSys

@[simps!]
def updateSchedDataRr (k : Kernel) : Kernel :=
  { k with qLeft := k.qLeft - 1 }

/-- The statistics of `exitRunCurrent` -/
@[simps!]
def exitRunData (k : Kernel) : Kernel :=
  k.setStats k.current fun st => st.addSystem k.readings.exitRunCurrent

-- Both blocks of the source work on the statistics of `nextt`.
/-- What `sched_next_rr` does to the quantum and to the statistics before it dispatches `nextt`. -/
@[simps!]
def schedData (nextt : Slot) (k : Kernel) : Kernel :=
  let k := { k with qLeft := k.getQuantum nextt }
  k.setStats nextt fun st =>
    ((st.addSystem k.readings.schedNextRrSystem).addReady k.readings.schedNextRrReady).addTrans

/--
`task_switch` up to the point where `t` runs: its directory is loaded, and its kernel stack becomes the
current one.
-/
@[simps!]
def taskSwitch (t : Slot) (k : Kernel) : Kernel :=
  { k with cr3 := k.getDIR t, current := t }

section Init

/-- `allocate_DIR`, whose result the two functions below ignore, then one more reference. -/
def allocateFirstDIR (t : Slot) (k : Kernel) : Kernel :=
  let k := (k.allocateDIR t).getD k
  k.setRefs (k.getDIRPosition t) (k.refsDIR (k.getDIRPosition t) + 1)

def initIdle (ts : Slot) (k : Kernel) : Kernel :=
  let k := k.setTask ts fun p =>
    { p with pid := 0, quantum := defaultQuantum, estadisticas := initStats }
  let k := allocateFirstDIR ts k
  let k := k.setCont ts .cpuIdle
  let k := k.setTask ts fun p => { p with processBreak := heapStart }
  { k with idleTask := ts }

def initTask1 (ts : Slot) (k : Kernel) : Kernel :=
  let k := k.setTask ts fun p =>
    { p with pid := 1, quantum := defaultQuantum, estado := .stRun, processBreak := heapStart,
             estadisticas := initStats }
  let k := { k with qLeft := (k.task ts).quantum }
  let k := allocateFirstDIR ts k
  { k with mm := k.mm.setUserPages (k.getPT ts), cr3 := k.getDIR ts, current := ts }

def initPid (i : Slot) (k : Kernel) : Kernel :=
  k.setTask i fun ts => { ts with pid := -1 }

def initTables (k : Kernel) : Kernel :=
  { k with
    refsDIR := fun _ => 0
    semaphores := fun i => { k.semaphores i with counter := 0, state := .freeSem } }

end Init

end Kernel

namespace Sys

def mapKernel (f : Kernel → Kernel) (s : Sys) : Sys :=
  { s with toKernel := f s.toKernel }

def mapLinks (f : Links ListHead → Option (Links ListHead)) (s : Sys) : Option Sys :=
  (f s.links).map fun links => { s with links := links }

def needsSchedRr (s : Sys) : Bool × Sys :=
  let pWaiting := !listEmpty (.head .readyqueue) s.links
  if pWaiting && s.qLeft = 0 then
    (true, s)
  else if !pWaiting && s.qLeft = 0 then
    (false, s.mapKernel fun k =>
      let k := k.setStats k.current Stats.addTrans
      { k with qLeft := k.getQuantum k.current })
  else
    (false, s)

def updateProcessStateRr (t : Slot) (dstQueue : Option Queue) (s : Sys) : Option Sys := do
  let s ← (if (s.task t).estado ≠ .stRun then s.mapLinks (listDel (.list t)) else some s)
  match dstQueue with
  | none => some (s.mapKernel fun k => k.setTask t fun ts => { ts with estado := .stRun })
  | some q => do
    let s ← s.mapLinks (listAddTail (.list t) (.head q))
    let estado := if q = .readyqueue then .stReady else .stBlocked
    some (s.mapKernel fun k => k.setTask t fun ts => { ts with estado := estado })

def schedNextRr (s : Sys) : Option Sys :=
  if !listEmpty (.head .readyqueue) s.links then do
    let nextt ← firstTask .readyqueue s.links
    let s ← updateProcessStateRr nextt none (s.mapKernel (Kernel.schedData nextt))
    some (s.mapKernel (Kernel.taskSwitch nextt))
  else
    some (s.mapKernel fun k => k.taskSwitch k.idleTask)

def exitRunCurrent (nextListCurrent : Queue) (s : Sys) : Option Sys :=
  updateProcessStateRr s.current (some nextListCurrent) (s.mapKernel Kernel.exitRunData)

def schedule (s : Sys) : Option Sys :=
  let s := s.mapKernel Kernel.updateSchedDataRr
  let (needs, s) := needsSchedRr s
  if needs then do
    let s ← exitRunCurrent .readyqueue s
    schedNextRr s
  else
    some s

/-- The list operations of `init_idle` and `init_task1`: the first free PCB, taken out. -/
def takeFree (s : Sys) : Option (Slot × Sys) := do
  let t ← firstTask .freequeue s.links
  let s ← s.mapLinks (listDel (.list t))
  some (t, s)

def initIdle (s : Sys) : Option Sys := do
  let (ts, s) ← takeFree s
  some (s.mapKernel (Kernel.initIdle ts))

def initTask1 (s : Sys) : Option Sys := do
  let (ts, s) ← takeFree s
  some (s.mapKernel (Kernel.initTask1 ts))

def initFreequeue (is : List Slot) (s : Sys) : Option Sys :=
  is.foldlM (fun s i =>
    mapLinks (listAdd (.list i) (.head .freequeue)) (s.mapKernel (Kernel.initPid i))) s

def initSched (s : Sys) : Option Sys := do
  let s ← s.mapLinks fun h => some (initListHead (.head .keyboardqueue) h)
  let s ← s.mapLinks fun h => some (initListHead (.head .freequeue) h)
  let s ← initFreequeue (List.finRange nrTasks) s
  let s ← s.mapLinks fun h => some (initListHead (.head .readyqueue) h)
  some (s.mapKernel Kernel.initTables)

end Sys

end Zeos
