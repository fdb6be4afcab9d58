import Zeos.Spec.Live

/-!
What the statistics of a task should say, and a record of the time that each process waits.
-/

namespace Zeos

/-- Consecutive readings of the clock in one routine are equal. -/
def Readings.Steady (r : Readings) : Prop :=
  r.statsEntrySys.1 = r.statsEntrySys.2 ∧ r.exitRunCurrent.1 = r.exitRunCurrent.2 ∧
    r.schedNextRrSystem.1 = r.schedNextRrSystem.2 ∧ r.schedNextRrReady.1 = r.schedNextRrReady.2 ∧
    r.statsLeaveSys.1 = r.statsLeaveSys.2

instance : DecidablePred Readings.Steady :=
  fun _ => inferInstanceAs (Decidable (_ ∧ _))

def Readings.constant (now : Nat) : Readings :=
  let now := BitVec.ofNat 32 now
  { statsEntrySys := (now, now), exitRunCurrent := (now, now), schedNextRrSystem := (now, now),
    schedNextRrReady := (now, now), statsLeaveSys := (now, now) }

def Input.at (e : Event × Nat) : Input :=
  { event := e.1, readings := .constant e.2 }

/-- All the time up to the last reading is accounted for. -/
def Stats.Balanced (st : Stats) : Prop :=
  st.userTicks + st.systemTicks + st.blockedTicks + st.readyTicks = st.elapsedTotalTicks

def membersFrom (h : Links ListHead) : Nat → Option ListHead → List Slot
  | n + 1, some (.list t) => t :: membersFrom h n (h.next (.list t))
  | _, _ => []

/-- The processes that have been created, and how many ticks each of them has waited since then. -/
structure WaitTicks where
  created : Finset Slot
  clock : Nat
  ready : Slot → Nat
  blocked : Slot → Nat

namespace Sys

def members (q : Queue) (s : Sys) : List Slot :=
  membersFrom s.links nrTasks (s.links.next (.head q))

def IsReady (s : Sys) (t : Slot) : Prop :=
  t ∈ s.members .readyqueue

def IsBlocked (s : Sys) (t : Slot) : Prop :=
  t ∈ s.members .keyboardqueue ∨ ∃ i, t ∈ s.members (.blockedQueue i)

instance (s : Sys) : DecidablePred s.IsReady :=
  fun t => inferInstanceAs (Decidable (t ∈ s.members .readyqueue))

instance (s : Sys) : DecidablePred s.IsBlocked :=
  fun t => inferInstanceAs
    (Decidable (t ∈ s.members .keyboardqueue ∨ ∃ i, t ∈ s.members (.blockedQueue i)))

end Sys

namespace WaitTicks

def boot : WaitTicks :=
  { created := ∅, clock := 0, ready := fun _ => 0, blocked := fun _ => 0 }

def elapse (s : Sys) (now : Nat) (w : WaitTicks) : WaitTicks :=
  { w with
    clock := now
    ready := fun t => w.ready t + if s.IsReady t then now - w.clock else 0
    blocked := fun t => w.blocked t + if s.IsBlocked t then now - w.clock else 0 }

def create (new : Slot) (w : WaitTicks) : WaitTicks :=
  { w with
    created := insert new w.created
    ready := fun t => if t = new then 0 else w.ready t
    blocked := fun t => if t = new then 0 else w.blocked t }

/-- The record after a step from `s` to `s'` at time `now`. -/
def after (event : Event) (now : Nat) (s s' : Sys) (w : WaitTicks) : WaitTicks :=
  let w := w.elapse s now
  if event = .exit then { w with created := w.created.erase s.current }
  else (createdBy event s.toKernel s'.toKernel (firstTask .freequeue s.links)).elim w fun new =>
    w.create new

end WaitTicks

def Sys.stepAt (e : Event × Nat) (s : Sys) : Option Sys :=
  s.step (.at e)

def Sys.stepWaits : Event × Nat → Sys × WaitTicks → Option (Sys × WaitTicks) :=
  Run.ghost stepAt fun e => WaitTicks.after e.1 e.2

def RunsCreated (x : Sys × WaitTicks) (t : Slot) : Prop :=
  t ∈ x.2.created ∧ x.1.current = t ∧ x.1.inKernel = false

/-- The counters of `t` are the times it has waited. -/
def ChargesWaiting (x : Sys × WaitTicks) (t : Slot) : Prop :=
  (x.1.task t).estadisticas.readyTicks.toNat = x.2.ready t ∧
    (x.1.task t).estadisticas.blockedTicks.toNat = x.2.blocked t

/-- No tick has passed while `t` was ready or blocked. -/
def NeverWaited (x : Sys × WaitTicks) (t : Slot) : Prop :=
  x.2.ready t = 0 ∧ x.2.blocked t = 0

instance (x : Sys × WaitTicks) : DecidablePred (RunsCreated x) :=
  fun _ => inferInstanceAs (Decidable (_ ∧ _ ∧ _))

instance (x : Sys × WaitTicks) : DecidablePred (ChargesWaiting x) :=
  fun _ => inferInstanceAs (Decidable (_ ∧ _))

end Zeos
