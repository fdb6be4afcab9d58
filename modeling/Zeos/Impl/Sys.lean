import Mathlib.Algebra.Group.Int.Defs
import Zeos.Impl.Sched

/-!
`sys.c`: the system calls.

A call that always comes back gives its result with the new state. A call that may leave the task
suspended stores the result with `Sys.ret` when there is one.
-/

namespace Zeos

inductive Permissions
  | lectura
  | escriptura
  deriving DecidableEq, Repr

def checkFd (fd : Int) (permissions : Permissions) : Int :=
  if fd ≠ 1 ∧ fd ≠ 0 then -eBADF
  else if permissions ≠ .escriptura ∧ fd = 1 then -eACCES
  else if permissions ≠ .lectura ∧ fd = 0 then -eACCES
  else 0

section Write

def sysWriteConsole (m : Space) (buffer : Addr) (size : Nat) : List Byte :=
  (List.range size).filterMap fun i => ByteMem.load m (buffer + BitVec.ofNat 32 i)

/--
What `sys_write` prints and returns; it returns nothing after a page fault. `done` are the bytes
printed so far.
-/
structure Written where
  console : List Byte
  ret : Option Int
  deriving DecidableEq, Repr

/-- The loop of `sys_write` and what follows it; `buff` is its array on the kernel stack. -/
def writeChunks (buff : Addr) (fuel : Nat) (buffer : Addr) (size ret : Int) (console : List Byte)
    (m : Space) : Written :=
  match fuel with
  | 0 => { console := console, ret := none }
  | fuel + 1 =>
    if size ≥ tamWrite then
      match copyFromUser buffer buff tamWrite m with
      | none => { console := console, ret := none }
      | some m =>
        writeChunks buff fuel (buffer + 4) (size - tamWrite) (ret + tamWrite)
          (console ++ sysWriteConsole m buff 4) m
    else
      match copyFromUser buffer buff size m with
      | none => { console := console, ret := none }
      | some m =>
        { console := console ++ sysWriteConsole m buff size.toNat, ret := some (ret + size) }

/-- `sys_write`. The loop runs at most `size` times, which bounds the fuel. -/
def sysWrite (buff : Addr) (fd : Int) (buffer : Addr) (size : Int) (m : Space) : Written :=
  if checkFd fd .escriptura ≠ 0 then { console := [], ret := some (checkFd fd .escriptura) }
  else if buffer = 0 then { console := [], ret := some (-eFAULT) }
  else if size < 0 then { console := [], ret := some (-eINVAL) }
  else if size = 0 then { console := [], ret := some 0 }
  else writeChunks buff (size.toNat + 1) buffer size 0 [] m

end Write

namespace Kernel

@[simps!]
def copyTask (new : Slot) (k : Kernel) : Kernel :=
  (k.setTask new fun _ => k.task k.current).setEax new (k.eax k.current)

/-- What makes a copied PCB a process of its own. -/
@[simps!]
def newProcess (new : Slot) (k : Kernel) : Kernel :=
  let k' := k.setTask new fun ts =>
    { ts with pid := k.incrementalPID, estado := .stReady, estadisticas := initStats }
  { k' with incrementalPID := k.incrementalPID + 1 }

section Fork

/-- The two loops of `sys_fork` that copy entries for the system and the user code. -/
def inheritCode (pageNew pageParent : Nat) (mm : Mm) : Mm :=
  let mm := (List.range numPagKernel).foldl (fun mm i =>
    mm.setEntry (pageNew + (1 + i)) (mm.pagusrTable (pageParent + (1 + i)))) mm
  (List.range numPagCode).foldl (fun mm i =>
    mm.setEntry (pageNew + (pagLogInitCode + i))
      (mm.pagusrTable (pageParent + (pagLogInitCode + i)))) mm

/--
The last `n` rounds of the loop of `sys_fork` over the data pages; `framesNew` has the latest frame
first. `pt` is the page table that is loaded. The result is whether there was memory enough.
-/
def inheritData (pt pageNew pageParent : Nat) (n : Nat) (framesNew : List Nat) (mm : Mm)
    : Option (Bool × Mm) :=
  match n with
  | 0 => some (true, mm)
  | n + 1 =>
    let i := numPagData - (n + 1)
    match mm.allocFrame with
    | (none, mm) => some (false, framesNew.foldl Mm.freeFrame mm)
    | (some frame, mm) =>
      let mm := mm.setSsPag pageNew (pagLogInitData + i) frame
      let mm := mm.setSsPag pageParent (pagLogInitData + numPagData + i) frame
      let start := BitVec.ofNat 32 ((pagLogInitData + i) * pageSize)
      let dest := BitVec.ofNat 32 ((pagLogInitData + numPagData + i) * pageSize)
      (copyData start dest pageSize { mm := mm, pt := pt : Space }).bind fun m =>
        inheritData pt pageNew pageParent n (frame :: framesNew)
          (m.mm.delSsPag pageParent (pagLogInitData + numPagData + i))

/-- The page table of `new` in `sys_fork`, and whether there was memory enough for it. -/
def inheritPages (new : Slot) (k : Kernel) : Option (Bool × Kernel) :=
  let pageNew := k.getPT new
  let pageParent := k.getPT k.current
  let mm := inheritCode pageNew pageParent k.mm
  (inheritData (Mm.getPT k.cr3) pageNew pageParent numPagData [] mm).map fun (enough, mm) =>
    (enough, { k with mm := mm })

/-- `set_cr3`, and the stack of `new`, which first runs `ret_from_fork` to return 0. -/
@[simps!]
def forkContext (new : Slot) (k : Kernel) : Kernel :=
  ({ k with cr3 := k.getDIR k.current }.setEax new 0).setCont new .user

/-- The reference to the directory, and the stack of `new`, which goes to `function` in user mode. -/
@[simps!]
def cloneContext (new : Slot) (k : Kernel) : Kernel :=
  let d := k.getDIRPosition k.current
  (k.setRefs d (k.refsDIR d + 1)).setCont new .user

end Fork

section Semaphores

/-- `cerca_sem_lliure`; `none` is -1. -/
def cercaSemLliure (k : Kernel) : Option SemIx :=
  (List.finRange nrSemaphores).find? fun i => (k.semaphores i).state = .freeSem

/-- `cerca_sem`; `none` is -1. -/
def cercaSem (nSem : Int) (k : Kernel) : Option SemIx :=
  (List.finRange nrSemaphores).find? fun i =>
    (k.semaphores i).nSem = nSem ∧ (k.semaphores i).state = .usedSem

@[simps!]
def openSem (i : SemIx) (nSem : Int) (value : BitVec 32) (k : Kernel) : Kernel :=
  k.setSem i fun _ =>
    { nSem := nSem, state := .usedSem, counter := value.toInt, owner := (k.task k.current).pid }

@[simps!]
def closeSem (i : SemIx) (k : Kernel) : Kernel :=
  k.setSem i fun sem => { sem with state := .freeSem, nSem := -1, owner := 0 }

@[simps!]
def addCounter (i : SemIx) (n : Int) (k : Kernel) : Kernel :=
  k.setSem i fun sem => { sem with counter := sem.counter + n }

@[simps!]
def setSemRet (t : Slot) (r : Int) (k : Kernel) : Kernel :=
  k.setTask t fun ts => { ts with semRet := r }

end Semaphores

@[simps!]
def clearPid (k : Kernel) : Kernel :=
  k.setTask k.current fun ts => { ts with pid := -1 }

def freeUserPages (pt : Nat) (mm : Mm) : Mm :=
  (List.range numPagData).foldl (fun mm p =>
    (mm.freeFrame (mm.getFrame pt (pagLogInitData + p))).delSsPag pt (pagLogInitData + p)) mm

/-- The reference of `sys_exit` to the directory of its process, whose pages go with the last one. -/
def releaseDIR (k : Kernel) : Kernel :=
  let d := k.getDIRPosition k.current
  let k := k.setRefs d (k.refsDIR d - 1)
  if k.refsDIR d = 0 then { k with mm := freeUserPages (k.getPT k.current) k.mm } else k

section GetStats

def wordBytes (w : BitVec 32) : List Byte :=
  [w.extractLsb' 0 8, w.extractLsb' 8 8, w.extractLsb' 16 8, w.extractLsb' 24 8]

def statsBytes (st : Stats) : List Byte :=
  [st.userTicks, st.systemTicks, st.blockedTicks, st.readyTicks, st.elapsedTotalTicks, st.totalTrans,
    st.remainingTicks].flatMap wordBytes

def sizeofStats : BitVec 32 :=
  28

/-- The bytes `bs` are written from `dest` on, as `copy_to_user` does with those of a kernel variable. -/
def storeBytes (dest : Addr) (bs : List Byte) (m : Space) : Option Space :=
  match bs with
  | [] => some m
  | b :: bs => (ByteMem.store m dest b).bind (storeBytes (dest + 1) bs)

/-- `sys_get_stats`. It is `none` after a page fault. -/
def sysGetStats (pid : Int) (st : Addr) (k : Kernel) : Option (Int × Kernel) :=
  if pid < 0 then some (-eINVAL, k)
  else if !accessOk .verifyWrite st sizeofStats then some (-eFAULT, k)
  else
    match (List.finRange nrTasks).find? fun i => (k.task i).pid = pid with
    | none => some (-eSRCH, k)
    | some i => do
      let m ← storeBytes st (statsBytes (k.task i).estadisticas) { mm := k.mm, pt := Mm.getPT k.cr3 }
      let m ← storeBytes (st + 24) (wordBytes (BitVec.ofInt 32 k.qLeft)) m
      some (0, { k with mm := m.mm })

end GetStats

section Sbrk

def addUnsigned (a : Nat) (incr : Int) : Nat :=
  ((a + incr) % 2 ^ 32).toNat

/-- The loop of `sys_sbrk` that frees what a growing call has mapped: `j` goes down to `last`. -/
def sbrkRevert (tp : Nat) (last j : Int) (fuel : Nat) (mm : Mm) : Mm :=
  match fuel with
  | 0 => mm
  | fuel + 1 =>
    if j > last then
      sbrkRevert tp last (j - 1) fuel ((mm.freeFrame (mm.getFrame tp j.toNat)).delSsPag tp j.toNat)
    else
      mm

/-- The first loop of `sys_sbrk`, over the `n` pages from `i` on; whether there was memory enough. -/
def sbrkGrow (tp : Nat) (iPage aux : Int) (n i : Nat) (mm : Mm) : Bool × Mm :=
  match n with
  | 0 => (true, mm)
  | n + 1 =>
    if (mm.pagusrTable (tp + i)).present then
      match mm.allocFrame with
      | (some pagF, mm) => sbrkGrow tp iPage aux n (i + 1) (mm.setSsPag tp i pagF)
      | (none, mm) => (false, sbrkRevert tp (iPage + aux) i (i + 1) mm)
    else
      sbrkGrow tp iPage aux n (i + 1) mm

/-- The second loop of `sys_sbrk`, down from page `i` to `last`; whether it stays in the heap. -/
def sbrkShrink (tp : Nat) (last : Int) (fuel i : Nat) (mm : Mm) : Bool × Mm :=
  match fuel with
  | 0 => (true, mm)
  | fuel + 1 =>
    if (i : Int) > last then
      if i < pagLogInitHeap then (false, mm)
      else sbrkShrink tp last fuel (i - 1) ((mm.freeFrame (mm.getFrame tp i)).delSsPag tp i)
    else
      (true, mm)

def clampIncr (processBreak : Nat) (incr : Int) : Int :=
  if addUnsigned processBreak incr < heapStart then (heapStart - processBreak : Int).bmod (2 ^ 32)
  else incr

def sysSbrk (incr : Int) (k : Kernel) : Int × Kernel :=
  let processBreak := (k.task k.current).processBreak
  let tp := k.getPT k.current
  let incr := clampIncr processBreak incr
  let newBreak := addUnsigned processBreak incr
  let iPage := processBreak / pageSize
  let fPage := newBreak / pageSize
  let setBreak (b : Nat) (k : Kernel) : Kernel :=
    k.setTask k.current fun ts => { ts with processBreak := b }
  if fPage > totalPages then (-eNOMEM, k)
  else
    let aux : Nat := if newBreak % pageSize = 0 then 0 else 1
    if incr > 0 then
      match sbrkGrow tp iPage aux (fPage + aux - iPage) iPage k.mm with
      | (true, mm) => (processBreak, setBreak newBreak { k with mm := mm })
      | (false, mm) => (-eNOMEM, { k with mm := mm })
    else if incr < 0 then
      let (inHeap, mm) := sbrkShrink tp (fPage + aux) (iPage + 1) iPage k.mm
      let k := { k with mm := mm, cr3 := k.getDIR k.current }
      if inHeap then (processBreak, setBreak newBreak k)
      else (-eFAULT, setBreak heapStart k)
    else
      (processBreak, k)

end Sbrk

end Kernel

namespace Sys

def ret (r : Int) (s : Sys) : Sys :=
  s.mapKernel fun k => (k.setEax k.current r).setCont k.current .user

def copyTask (new : Slot) (s : Sys) : Sys :=
  { s with toKernel := s.toKernel.copyTask new, links := copyList s.current new s.links }

section Fork

/-- The end of `sys_fork` and of `sys_clone`: `new` becomes a ready process. -/
def makeReady (new : Slot) (s : Sys) : Option (Int × Sys) := do
  let s ← (s.mapKernel (Kernel.newProcess new)).mapLinks (listAddTail (.list new) (.head .readyqueue))
  some ((s.task new).pid, s)

def sysFork (s : Sys) : Option (Int × Sys) :=
  if listEmpty (.head .freequeue) s.links then some (-eNOMEM, s)
  else do
    let (new, s) ← takeFree s
    let s := copyTask new s
    match s.allocateDIR new with
    | none => some (-eNOMEM, s)
    | some k =>
      let (enough, k) ← k.inheritPages new
      let s := { s with toKernel := k }
      if enough then makeReady new (s.mapKernel (Kernel.forkContext new))
      else some (-eNOMEM, s)

def sysClone (function stack : Addr) (s : Sys) : Option (Int × Sys) :=
  if !accessOk .verifyWrite stack 4 || !accessOk .verifyRead function 4 then some (-eFAULT, s)
  else if listEmpty (.head .freequeue) s.links then some (-eNOMEM, s)
  else do
    let (new, s) ← takeFree s
    makeReady new ((copyTask new s).mapKernel (Kernel.cloneContext new))

end Fork

section Semaphores

/-- `sys_sem_init`. When the table is full it writes to `semaphores[-1]`. -/
def sysSemInit (nSem : Int) (value : BitVec 32) (s : Sys) : Option (Int × Sys) :=
  if (s.cercaSem nSem).isSome then some (-eBUSY, s)
  else do
    let i ← s.cercaSemLliure
    let s := s.mapKernel (Kernel.openSem i nSem value)
    let s ← s.mapLinks fun h => some (initListHead (.head (.blockedQueue i)) h)
    some (0, s)

/--
The loop of `sys_sem_destroy`; without fuel it is still running.
-/
def unblockAll (i : SemIx) (fuel : Nat) (s : Sys) : Option Sys :=
  match fuel with
  | 0 => none
  | fuel + 1 =>
    if listEmpty (.head (.blockedQueue i)) s.links then some s
    else do
      let tsUnblock ← firstTask (.blockedQueue i) s.links
      let s := s.mapKernel (Kernel.setSemRet tsUnblock (-1))
      let s ← updateProcessStateRr tsUnblock (some .readyqueue) s
      unblockAll i fuel s

def sysSemDestroy (nSem : Int) (s : Sys) : Option (Int × Sys) :=
  match s.cercaSem nSem with
  | none => some (-eINVAL, s)
  | some i =>
    if (s.semaphores i).state = .freeSem then some (-eINVAL, s)
    else if (s.semaphores i).owner ≠ (s.task s.current).pid then some (-ePERM, s)
    else do
      let s ← unblockAll i (nrTasks + 1) s
      some (0, s.mapKernel (Kernel.closeSem i))

def sysSemSignal (nSem : Int) (s : Sys) : Option (Int × Sys) :=
  match s.cercaSem nSem with
  | none => some (-eINVAL, s)
  | some i =>
    if (s.semaphores i).state = .freeSem then some (-eINVAL, s)
    else if listEmpty (.head (.blockedQueue i)) s.links then
      some (0, s.mapKernel (Kernel.addCounter i 1))
    else do
      let t ← firstTask (.blockedQueue i) s.links
      let s ← updateProcessStateRr t (some .readyqueue) s
      some (0, s)

def sysSemWait (nSem : Int) (s : Sys) : Option Sys :=
  match s.cercaSem nSem with
  | none => some (s.ret (-eINVAL))
  | some i =>
    if (s.semaphores i).state = .freeSem then some (s.ret (-eINVAL))
    else
      let s := s.mapKernel (Kernel.setSemRet s.current 0)
      if (s.semaphores i).counter ≤ 0 then do
        let s ← exitRunCurrent (.blockedQueue i) s
        schedNextRr (s.mapKernel fun k => k.setCont k.current .semWait)
      else
        some (ret 0 (s.mapKernel (Kernel.addCounter i (-1))))

end Semaphores

/-- The loop of `sys_exit` over the semaphores. -/
def destroyOwned (s : Sys) : Option Sys :=
  (List.finRange nrSemaphores).foldlM (fun s i =>
    if (s.semaphores i).owner = (s.task s.current).pid then
      (sysSemDestroy (s.semaphores i).nSem s).map Prod.snd
    else
      some s) s

def sysExit (s : Sys) : Option Sys := do
  let s ← (s.mapKernel Kernel.releaseDIR).mapLinks (listAddTail (.list s.current) (.head .freequeue))
  let s ← destroyOwned s
  let s := s.mapKernel Kernel.clearPid
  let s ← updateProcessStateRr s.current (some .freequeue) s
  schedNextRr (s.mapKernel fun k => k.setCont k.current .user)

end Sys

end Zeos
