import Zeos.Impl.Kernel

/-!
What the kernel keeps of time: who runs, for how long, and the statistics.
-/

namespace Zeos

@[ext]
structure Times where
  current : Slot
  qLeft : Int
  quantum : Slot → Int
  stats : Slot → Stats
  readings : Readings
  incrementalPID : Int

def Kernel.times (k : Kernel) : Times where
  current := k.current
  qLeft := k.qLeft
  quantum t := (k.task t).quantum
  stats t := (k.task t).estadisticas
  readings := k.readings
  incrementalPID := k.incrementalPID

namespace Times

def setStats (x : Times) (t : Slot) (f : Stats → Stats) : Times :=
  { x with stats := fun u => if u = t then f (x.stats u) else x.stats u }

def enter (x : Times) : Times :=
  x.setStats x.current fun st => st.addUser x.readings.statsEntrySys

def leave (x : Times) : Times :=
  x.setStats x.current fun st => st.addSystem x.readings.statsLeaveSys

def suspend (x : Times) : Times :=
  x.setStats x.current fun st => st.addSystem x.readings.exitRunCurrent

def switch (t : Slot) (x : Times) : Times :=
  { x with current := t }

def dispatch (t : Slot) (x : Times) : Times :=
  switch t { x.setStats t fun st =>
    ((st.addSystem x.readings.schedNextRrSystem).addReady x.readings.schedNextRrReady).addTrans with
    qLeft := x.quantum x.current }

def tick (x : Times) : Times :=
  { x with qLeft := x.qLeft - 1 }

def renew (x : Times) : Times :=
  { x.setStats x.current Stats.addTrans with qLeft := x.quantum x.current }

def copy (new : Slot) (x : Times) : Times :=
  { x with
    quantum := fun u => if u = new then x.quantum x.current else x.quantum u
    stats := fun u => if u = new then x.stats x.current else x.stats u }

def create (new : Slot) (x : Times) : Times :=
  { x.setStats new fun _ => initStats with incrementalPID := x.incrementalPID + 1 }

/-- What `sched_next_rr` does. -/
inductive Switched (x : Times) : Times → Prop
  | dispatched (t : Slot) : Switched x (x.dispatch t)
  | idle (t : Slot) : Switched x (x.switch t)

/-- What a routine does, where `free` is the first free PCB. -/
inductive Step (free : Option Slot) (x : Times) : Times → Prop
  | same : Step free x x
  | left : Step free x x.leave
  | copied (new : Slot) (hfree : free = some new) : Step free x (x.copy new)
  | created (new : Slot) (hfree : free = some new) : Step free x ((x.copy new).create new)
  | switched {y : Times} (h : Switched x y) : Step free x y
  | blocked {y : Times} (h : Switched x.suspend y) : Step free x y
  | ticked (hleft : x.qLeft ≠ 1) : Step free x x.tick
  | renewed (hleft : x.qLeft = 1) : Step free x x.tick.renew
  | preempted (hleft : x.qLeft = 1) (t : Slot) : Step free x (x.tick.suspend.dispatch t)

inductive Entered (r : Readings) (x : Times) : Times → Prop
  | read : Entered r x { x with readings := r }
  | entered : Entered r x (enter { x with readings := r })

end Times

end Zeos
