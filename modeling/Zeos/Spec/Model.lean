import Zeos.Spec.Queues
import Zeos.Impl.Kernel

/-!
The kernel over sequences instead of linked nodes. Taking a task off its list, putting it on another one
and picking the first one are functions here that cannot fail.
-/

namespace Zeos

structure Model extends Kernel where
  queues : Queues

namespace Model

def mapKernel (f : Kernel → Kernel) (m : Model) : Model :=
  { m with toKernel := f m.toKernel }

def mapQueues (f : Queues → Queues) (m : Model) : Model :=
  { m with queues := f m.queues }

def seq (m : Model) (q : Queue) : List Slot :=
  m.queues.seq q

def updateProcessState (t : Slot) (dst : Option Queue) (m : Model) : Model :=
  match dst with
  | none =>
    (m.mapQueues (Queues.remove t)).mapKernel fun k =>
      k.setTask t fun ts => { ts with estado := .stRun }
  | some q =>
    (m.mapQueues fun Q => (Q.remove t).append t q).mapKernel fun k =>
      k.setTask t fun ts => { ts with estado := if q = .readyqueue then .stReady else .stBlocked }

def schedNext (m : Model) : Model :=
  match m.seq .readyqueue with
  | [] => m.mapKernel fun k => k.taskSwitch k.idleTask
  | t :: _ => ((m.mapKernel (Kernel.schedData t)).updateProcessState t none).mapKernel
      (Kernel.taskSwitch t)

def exitRunCurrent (q : Queue) (m : Model) : Model :=
  (m.mapKernel Kernel.exitRunData).updateProcessState m.current (some q)

def needsSched (m : Model) : Bool × Model :=
  if m.seq .readyqueue ≠ [] ∧ m.qLeft = 0 then (true, m)
  else if m.seq .readyqueue = [] ∧ m.qLeft = 0 then
    (false, m.mapKernel fun k =>
      let k := k.setStats k.current Stats.addTrans
      { k with qLeft := k.getQuantum k.current })
  else (false, m)

def schedule (m : Model) : Model :=
  let (needs, m) := (m.mapKernel Kernel.updateSchedDataRr).needsSched
  if needs then (m.exitRunCurrent .readyqueue).schedNext else m

def ret (r : Int) (m : Model) : Model :=
  m.mapKernel fun k => (k.setEax k.current r).setCont k.current .user

section Fork

def makeReady (new : Slot) (m : Model) : Int × Model :=
  let m := (m.mapKernel (Kernel.newProcess new)).mapQueues (Queues.append new .readyqueue)
  ((m.task new).pid, m)

def takeCopy (new : Slot) (m : Model) : Model :=
  (m.mapQueues (Queues.remove new)).mapKernel (Kernel.copyTask new)

/-- A free PCB can be put back. -/
def FreeOpen (m : Model) : Prop :=
  m.queues.shape .freequeue = .ring ∨ ∃ anchored, m.queues.shape .freequeue = .knot false anchored

/-- The first free PCB can be taken out of its list. -/
def Takeable (m : Model) : Prop :=
  m.queues.shape .freequeue = .ring ∨
    (m.queues.shape .freequeue = .knot false true ∧ 1 < (m.seq .freequeue).length)

def fork (m : Model) : Option (Int × Model) :=
  match m.seq .freequeue with
  | [] => some (-eNOMEM, m)
  | new :: _ =>
    let m := m.takeCopy new
    match m.allocateDIR new with
    | none => some (-eNOMEM, m)
    | some k =>
      (k.inheritPages new).map fun (enough, k) =>
        let m := { m with toKernel := k }
        if enough then makeReady new (m.mapKernel (Kernel.forkContext new)) else (-eNOMEM, m)

def clone (function stack : Addr) (m : Model) : Int × Model :=
  if !accessOk .verifyWrite stack 4 || !accessOk .verifyRead function 4 then (-eFAULT, m)
  else
    match m.seq .freequeue with
    | [] => (-eNOMEM, m)
    | new :: _ => makeReady new ((m.takeCopy new).mapKernel (Kernel.cloneContext new))

end Fork

section Semaphores

def semInit (nSem : Int) (value : BitVec 32) (m : Model) : Option (Int × Model) :=
  if (m.cercaSem nSem).isSome then some (-eBUSY, m)
  else m.cercaSemLliure.map fun i =>
    (0, (m.mapKernel (Kernel.openSem i nSem value)).mapQueues (Queues.init (.blockedQueue i)))

def unblock (ts : List Slot) (m : Model) : Model :=
  ts.foldl (fun m t => (m.mapKernel (Kernel.setSemRet t (-1))).updateProcessState t (some .readyqueue)) m

def semDestroy (nSem : Int) (m : Model) : Int × Model :=
  match m.cercaSem nSem with
  | none => (-eINVAL, m)
  | some i =>
    if (m.semaphores i).owner ≠ (m.task m.current).pid then (-ePERM, m)
    else (0, (m.unblock (m.seq (.blockedQueue i))).mapKernel (Kernel.closeSem i))

def semSignal (nSem : Int) (m : Model) : Int × Model :=
  match m.cercaSem nSem with
  | none => (-eINVAL, m)
  | some i =>
    match m.seq (.blockedQueue i) with
    | [] => (0, m.mapKernel (Kernel.addCounter i 1))
    | t :: _ => (0, m.updateProcessState t (some .readyqueue))

def semWait (nSem : Int) (m : Model) : Model :=
  match m.cercaSem nSem with
  | none => m.ret (-eINVAL)
  | some i =>
    let m := m.mapKernel (Kernel.setSemRet m.current 0)
    if (m.semaphores i).counter ≤ 0 then
      ((m.exitRunCurrent (.blockedQueue i)).mapKernel fun k => k.setCont k.current .semWait).schedNext
    else
      (m.mapKernel (Kernel.addCounter i (-1))).ret 0

end Semaphores

section Exit

def destroyOwned (m : Model) : Model :=
  (List.finRange nrSemaphores).foldl (fun m i =>
    if (m.semaphores i).owner = (m.task m.current).pid then (m.semDestroy (m.semaphores i).nSem).2
    else m) m

/-- The PCB of the current task goes to the free ones. -/
def retired (m : Model) : Model :=
  (m.mapKernel Kernel.releaseDIR).mapQueues (Queues.append m.current .freequeue)

/-- At the end it is put there a second time. -/
def exited (m : Model) : Model :=
  let m := m.retired.destroyOwned.mapKernel Kernel.clearPid
  (m.mapQueues (Queues.again .freequeue)).mapKernel fun k =>
    (k.setTask k.current fun ts => { ts with estado := .stBlocked }).setCont k.current .user

def exit (m : Model) : Model :=
  m.exited.schedNext

end Exit

section Keyboard

def waitKeyboard (buff : Addr) (m : Model) : Model :=
  ((m.mapQueues (Queues.push m.current .keyboardqueue)).mapKernel
    (Kernel.blockReading buff)).schedNext

def readKeyboardBody (buff : Addr) (m : Model) : Model :=
  let ts := m.task m.current
  let requiredKeys := ts.requiredKeys - ts.readKeys
  if m.keyboardBuff.cirBuffLenght ≥ requiredKeys then
    let k := (m.readKeysLoop ts.requiredKeys.toNat buff).2
    if k.stopped then { m with toKernel := k }
    else
      let k := k.addReadKeys requiredKeys
      ret (k.task k.current).readKeys { m with toKernel := k }
  else if m.keyboardBuff.cirBuffFull ≠ 0 then
    let (buff, k) := m.readKeysLoop cirBufferSize buff
    if k.stopped then { m with toKernel := k }
    else waitKeyboard buff { m with toKernel := k.addReadKeys cirBufferSize }
  else
    waitKeyboard buff m

def readKeyboard (buff : Addr) (size : Int) (m : Model) : Model :=
  let m := m.mapKernel (Kernel.requireKeys size)
  if m.seq .keyboardqueue ≠ [] then
    ((m.updateProcessState m.current (some .keyboardqueue)).mapKernel fun k =>
      k.setCont k.current (.readKeyboard buff)).schedNext
  else
    readKeyboardBody buff m

def read (fd : Int) (buf : Addr) (count : Int) (m : Model) : Model :=
  if buf = 0 then m.ret (-eFAULT)
  else if count < 0 then m.ret (-eINVAL)
  else if checkFd fd .lectura < 0 then m.ret (-eBADF)
  else if !accessOk .verifyWrite buf (BitVec.ofInt 32 count) then m.ret (-eFAULT)
  else m.readKeyboard buf count

def keyboardRutine (entrada beyond : Byte) (m : Model) : Model :=
  if entrada >>> 7 = 0 then
    let m := m.mapKernel (Kernel.keyPressed entrada beyond)
    match m.seq .keyboardqueue with
    | [] => m
    | ts :: _ =>
      if m.keyboardBuff.cirBuffFull ≠ 0
          ∨ m.keyboardBuff.cirBuffLenght ≥ (m.task ts).requiredKeys - (m.task ts).readKeys then
        m.updateProcessState ts (some .readyqueue)
      else m
  else m

end Keyboard

def clockRutine (m : Model) : Model :=
  (m.mapKernel fun k => { k with zeosTicks := k.zeosTicks + 1 }).schedule

section Step

def result (x : Int × Model) : Model :=
  x.2.ret x.1

def resume (m : Model) : Model :=
  match m.cont m.current with
  | .user => m.mapKernel Kernel.leave
  | .cpuIdle => m.mapKernel fun k => { k with inKernel := false }
  | .semWait => m.ret (m.task m.current).semRet
  | .readKeyboard buff => m.readKeyboardBody buff

def routine (event : Event) (m : Model) : Option Model :=
  match event with
  | .fork => m.fork.map result
  | .clone function stack => some (result (m.clone function stack))
  | .exit => some m.exit
  | .semInit nSem value => (m.semInit nSem value).map result
  | .semWait nSem => some (m.semWait nSem)
  | .semSignal nSem => some (result (m.semSignal nSem))
  | .semDestroy nSem => some (result (m.semDestroy nSem))
  | .read fd buf count => some (m.read fd buf count)
  | .sbrk incr => some (result ((m.sysSbrk incr).1, { m with toKernel := (m.sysSbrk incr).2 }))
  | .clock => some m.clockRutine
  | .keyboard entrada beyond => some (m.keyboardRutine entrada beyond)
  | .store a v => (m.userStore a v).map fun k => { m with toKernel := k }
  | .resume => some m.resume

def step (i : Input) (m : Model) : Option Model :=
  (m.entry i).bind fun k => routine i.event { m with toKernel := k }

end Step

section Boot

def zero (frames : Nat → Nat → Byte) : Model :=
  { toKernel := (Sys.zero frames).toKernel, queues := .zero }

def initFreequeue (is : List Slot) (m : Model) : Model :=
  is.foldl (fun m i => (m.mapKernel (Kernel.initPid i)).mapQueues (Queues.push i .freequeue)) m

def initSched (m : Model) : Model :=
  let m := (m.mapQueues (Queues.init .keyboardqueue)).mapQueues (Queues.init .freequeue)
  ((m.initFreequeue (List.finRange nrTasks)).mapQueues (Queues.init .readyqueue)).mapKernel
    Kernel.initTables

def boot (frames : Nat → Nat → Byte) : Model :=
  let m := ((zero frames).mapKernel Kernel.initMm).initSched
  let m := (m.mapQueues (Queues.remove 14)).mapKernel (Kernel.initIdle 14)
  let m := (m.mapQueues (Queues.remove 13)).mapKernel (Kernel.initTask1 13)
  m.mapKernel Kernel.enterUser

end Boot

end Model

end Zeos
