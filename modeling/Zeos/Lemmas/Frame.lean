import Zeos.Lemmas.Placed

/-!
What the routines leave alone: the lists they do not name, and the data that the scheduler has no
business with.
-/

namespace Zeos

open Model

structure Kept (q : Queue) (m m' : Model) : Prop where
  seq : m'.seq q = m.seq q
  shape : m'.queues.shape q = m.queues.shape q

structure Rescheduled (k k' : Kernel) : Prop where
  task : ∀ t, ∃ estado estadisticas,
    k'.task t = { k.task t with estado := estado, estadisticas := estadisticas }
  cont : k'.cont = k.cont
  idleTask : k'.idleTask = k.idleTask
  incrementalPID : k'.incrementalPID = k.incrementalPID
  refsDIR : k'.refsDIR = k.refsDIR
  semaphores : k'.semaphores = k.semaphores
  keyboardBuff : k'.keyboardBuff = k.keyboardBuff
  copies : k'.copies = k.copies
  mm : k'.mm = k.mm

namespace Kept

variable {m m' m'' : Model} {live : Finset Slot} {run : Option Slot} {q dst : Queue} {t : Slot}

theorem refl (q : Queue) (m : Model) : Kept q m m :=
  ⟨rfl, rfl⟩

theorem trans (h : Kept q m m') (h' : Kept q m' m'') : Kept q m m'' :=
  ⟨h'.seq.trans h.seq, h'.shape.trans h.shape⟩

theorem mapKernel (f : Kernel → Kernel) : Kept q m (m.mapKernel f) :=
  ⟨rfl, rfl⟩

theorem result (x : Int × Model) : Kept q x.2 (Model.result x) :=
  ⟨rfl, rfl⟩

theorem append (h : q ≠ dst) : Kept q m (m.mapQueues (Queues.append t dst)) := by
  constructor
  . rw [seq_mapQueues, Queues.seq_append, if_neg h]
    rfl
  . rw [queues_mapQueues, Queues.shape_append, if_neg h]

theorem push (h : q ≠ dst) : Kept q m (m.mapQueues (Queues.push t dst)) := by
  constructor
  . rw [seq_mapQueues, Queues.seq_push, if_neg h]
    rfl
  . rw [queues_mapQueues, Queues.shape_push]

theorem remove (h : t ∉ m.seq q) : Kept q m (m.mapQueues (Queues.remove t)) := by
  constructor
  . rw [seq_mapQueues, Queues.seq_remove]
    exact List.erase_of_not_mem h
  . rfl

theorem updateProcessState (h : t ∉ m.seq q) {dst : Option Queue} (hdst : dst ≠ some q)
    : Kept q m (m.updateProcessState t dst) := by
  cases dst with
  | none => exact ⟨(remove h).seq, rfl⟩
  | some dst =>
    have hne : q ≠ dst := fun heq => hdst (by rw [heq])
    have hmoved : Kept q m ((m.mapQueues (Queues.remove t)).mapQueues (Queues.append t dst)) :=
      (remove h).trans (append hne)
    exact ⟨hmoved.seq, hmoved.shape⟩

theorem schedNext (hp : Placed m live none) (hq : q ≠ .readyqueue) : Kept q m m.schedNext := by
  unfold Model.schedNext
  split
  next => exact mapKernel _
  next t ts hcons =>
    have ht : t ∉ (m.mapKernel (Kernel.schedData t)).seq q :=
      fun h => hq (hp.disjoint _ _ t h (by rw [hcons]; simp))
    apply (mapKernel _).trans
    exact (updateProcessState ht (by simp)).trans (mapKernel _)

theorem exitRunCurrent (h : ¬m.queues.Linked m.current) (hq : q ≠ dst)
    : Kept q m (m.exitRunCurrent dst) := by
  apply (mapKernel Kernel.exitRunData).trans
  apply updateProcessState
  . exact fun hmem => h ⟨q, hmem⟩
  . simpa using Ne.symm hq

theorem needsSched : Kept q m m.needsSched.2 := by
  unfold Model.needsSched
  split
  next => exact refl q m
  next =>
    split
    next => exact ⟨rfl, rfl⟩
    next => exact refl q m

theorem schedule (h : Settled m live) (hq : q ≠ .readyqueue) : Kept q m m.schedule := by
  have hneeds := h.updateSchedDataRr.needsSched
  have hkept : Kept q m (m.mapKernel Kernel.updateSchedDataRr).needsSched.2 :=
    (mapKernel _).trans needsSched
  unfold Model.schedule
  dsimp only
  split
  next =>
    apply hkept.trans
    apply (exitRunCurrent hneeds.not_linked hq).trans
    exact schedNext (hneeds.placed.exitRunCurrent hneeds.live (.inl rfl)) hq
  next => exact hkept

theorem clockRutine (h : Settled m live) (hq : q ≠ .readyqueue) : Kept q m m.clockRutine :=
  (mapKernel _).trans (schedule h.tick hq)

theorem wake {q' : Queue} (hp : Placed m live run) (ht : t ∈ m.seq q') (hq' : q ≠ q')
    (hq : q ≠ .readyqueue) : Kept q m (m.updateProcessState t (some .readyqueue)) := by
  apply updateProcessState
  . exact fun h => hq' (hp.disjoint _ _ t h ht)
  . simpa using Ne.symm hq

section Keyboard

theorem keyboardRutine (h : Settled m live) (entrada beyond : Byte) (hq : q ≠ .readyqueue)
    (hq' : q ≠ .keyboardqueue) : Kept q m (m.keyboardRutine entrada beyond) := by
  have hkey := h.keyPressed entrada beyond
  unfold Model.keyboardRutine
  split
  next =>
    dsimp only
    split
    next => exact mapKernel _
    next ts rest hcons =>
      split
      next => exact (mapKernel _).trans (wake hkey.placed (by rw [hcons]; simp) hq' hq)
      next => exact mapKernel _
  next => exact refl q m

theorem waitKeyboard (h : Settled m live) (hidle : m.current ≠ m.idleTask) (buff : Addr)
    (hq : q ≠ .readyqueue) (hq' : q ≠ .keyboardqueue) : Kept q m (m.waitKeyboard buff) := by
  apply (push hq').trans
  apply (mapKernel _).trans
  exact schedNext (h.blockReading hidle buff) hq

theorem readKeyboardBody (h : Settled m live) (hidle : m.current ≠ m.idleTask) (buff : Addr)
    (hq : q ≠ .readyqueue) (hq' : q ≠ .keyboardqueue) : Kept q m (m.readKeyboardBody buff) := by
  unfold Model.readKeyboardBody
  dsimp only
  split
  next =>
    split
    next => exact ⟨rfl, rfl⟩
    next => exact ⟨rfl, rfl⟩
  next =>
    split
    next =>
      split
      next => exact ⟨rfl, rfl⟩
      next =>
        have hwait := waitKeyboard (h.readKeys cirBufferSize buff cirBufferSize)
          (Settled.readKeys_ne_idle hidle _ _ _) (m.readKeysLoop cirBufferSize buff).1 hq hq'
        exact ⟨hwait.seq, hwait.shape⟩
    next => exact waitKeyboard h hidle buff hq hq'

theorem read (h : Settled m live) (hidle : m.current ≠ m.idleTask) (fd : Int) (buf : Addr) (count : Int)
    (hq : q ≠ .readyqueue) (hq' : q ≠ .keyboardqueue) : Kept q m (m.read fd buf count) := by
  have hrequire := h.requireKeys count
  have hrequired := mapKernel (q := q) (m := m) (Kernel.requireKeys count)
  rcases m.read_cases fd buf count with ⟨r, heq⟩ | heq | heq
  . rw [heq]
    exact mapKernel _
  . rw [heq]
    have hdst : some Queue.keyboardqueue ≠ some q := by simpa using Ne.symm hq'
    apply hrequired.trans
    apply (updateProcessState (hrequire.current_not_mem q) hdst).trans
    apply (mapKernel _).trans
    exact schedNext (hrequire.queueReading hidle buf) hq
  . rw [heq]
    exact hrequired.trans (readKeyboardBody hrequire hidle buf hq hq')

end Keyboard

section Semaphores

theorem semInit {nSem : Int} {value : BitVec 32} {x : Int × Model} (hinit : m.semInit nSem value = some x)
    (hq : ∀ i, (m.semaphores i).state = .freeSem → q ≠ .blockedQueue i) : Kept q m x.2 := by
  unfold Model.semInit at hinit
  split at hinit
  next =>
    cases hinit
    exact refl q m
  next =>
    obtain ⟨i, hi, rfl⟩ := Option.map_eq_some_iff.mp hinit
    have hne := hq i (Kernel.cercaSemLliure_eq_some hi)
    constructor
    . rw [seq_mapQueues, Queues.seq_init, if_neg hne]
      rfl
    . rw [queues_mapQueues, Queues.shape_init, if_neg hne]
      rfl

theorem semWait (h : Settled m live) (hidle : m.current ≠ m.idleTask) (nSem : Int)
    (hq : q ≠ .readyqueue) (hq' : ∀ i, m.cercaSem nSem = some i → q ≠ .blockedQueue i)
    : Kept q m (m.semWait nSem) := by
  have hclear := h.setSemRet m.current 0
  unfold Model.semWait
  split
  next => exact mapKernel _
  next i hi =>
    dsimp only
    split
    next =>
      apply (mapKernel (Kernel.setSemRet m.current 0)).trans
      apply (exitRunCurrent hclear.not_linked (hq' i hi)).trans
      apply (mapKernel _).trans
      exact schedNext (hclear.queueWaiting hidle (Settled.waits_of_cercaSem hi)) hq
    next => exact ⟨rfl, rfl⟩

theorem semSignal (h : Settled m live) (nSem : Int) (hq : q ≠ .readyqueue)
    (hq' : ∀ i, m.cercaSem nSem = some i → q ≠ .blockedQueue i) : Kept q m (m.semSignal nSem).2 := by
  unfold Model.semSignal
  split
  next => exact refl q m
  next i hi =>
    split
    next => exact mapKernel _
    next t ts hcons => exact wake h.placed (by rw [hcons]; simp) (hq' i hi) hq

theorem semDestroy (hp : Placed m live run) (nSem : Int) (hq : q ≠ .readyqueue)
    (hq' : ∀ i, m.cercaSem nSem = some i → q ≠ .blockedQueue i)
    : Kept q m (m.semDestroy nSem).2 := by
  unfold Model.semDestroy
  split
  next => exact refl q m
  next i hi =>
    split
    next => exact refl q m
    next =>
      obtain ⟨-, -, hrest⟩ := hp.unblock (q := .blockedQueue i) (by simp) (by simp) rfl
      exact ⟨hrest.seq q (hq' i hi) hq, hrest.shape q (hq' i hi) hq⟩

end Semaphores

theorem resume (h : Settled m live) (hq : q ≠ .readyqueue) (hq' : q ≠ .keyboardqueue)
    : Kept q m m.resume := by
  unfold Model.resume
  split
  next => exact mapKernel _
  next => exact mapKernel _
  next => exact mapKernel _
  next buff hbuff =>
    apply readKeyboardBody h ?_ buff hq hq'
    intro heq
    rw [heq] at hbuff
    exact h.placed.idle_not_reading buff hbuff

end Kept

namespace Rescheduled

variable {m : Model} {k k' k'' : Kernel} {q : Queue} {t : Slot}

theorem refl (k : Kernel) : Rescheduled k k where
  task t := ⟨(k.task t).estado, (k.task t).estadisticas, rfl⟩
  cont := rfl
  idleTask := rfl
  incrementalPID := rfl
  refsDIR := rfl
  semaphores := rfl
  keyboardBuff := rfl
  copies := rfl
  mm := rfl

theorem trans (h : Rescheduled k k') (h' : Rescheduled k' k'') : Rescheduled k k'' where
  task t := by
    obtain ⟨_, _, ht⟩ := h.task t
    obtain ⟨estado, estadisticas, ht'⟩ := h'.task t
    exact ⟨estado, estadisticas, by rw [ht', ht]⟩
  cont := h'.cont.trans h.cont
  idleTask := h'.idleTask.trans h.idleTask
  incrementalPID := h'.incrementalPID.trans h.incrementalPID
  refsDIR := h'.refsDIR.trans h.refsDIR
  semaphores := h'.semaphores.trans h.semaphores
  keyboardBuff := h'.keyboardBuff.trans h.keyboardBuff
  copies := h'.copies.trans h.copies
  mm := h'.mm.trans h.mm

theorem setTask (t : Slot) (f : TaskStruct → TaskStruct)
    (hf : ∀ ts, ∃ estado estadisticas, f ts = { ts with estado := estado, estadisticas := estadisticas })
    : Rescheduled k (k.setTask t f) where
  __ := refl k
  task u := by
    rw [Kernel.setTask_task]
    split
    next => exact hf _
    next => exact (refl k).task u

theorem setStats (t : Slot) (f : Stats → Stats) : Rescheduled k (k.setStats t f) :=
  setTask t _ fun ts => ⟨ts.estado, _, rfl⟩

theorem updateProcessState (t : Slot) (dst : Option Queue)
    : Rescheduled m.toKernel (m.updateProcessState t dst).toKernel := by
  cases dst with
  | none => exact setTask t _ fun ts => ⟨_, ts.estadisticas, rfl⟩
  | some q => exact setTask t _ fun ts => ⟨_, ts.estadisticas, rfl⟩

theorem schedData (t : Slot) : Rescheduled k (k.schedData t) := by
  have hquantum : Rescheduled k { k with qLeft := k.getQuantum t } := { refl k with }
  unfold Kernel.schedData
  apply hquantum.trans
  apply setStats

theorem exitRunData : Rescheduled k k.exitRunData := by
  unfold Kernel.exitRunData
  apply setStats

theorem schedNext : Rescheduled m.toKernel m.schedNext.toKernel := by
  unfold Model.schedNext
  split
  next => exact { refl m.toKernel with }
  next t ts _ =>
    have hdata : Rescheduled m.toKernel (m.mapKernel (Kernel.schedData t)).toKernel := schedData t
    have hmoved := hdata.trans (updateProcessState t none)
    exact { hmoved with }

theorem exitRunCurrent : Rescheduled m.toKernel (m.exitRunCurrent q).toKernel := by
  have hdata : Rescheduled m.toKernel (m.mapKernel Kernel.exitRunData).toKernel := exitRunData
  exact hdata.trans (updateProcessState _ _)

theorem needsSched : Rescheduled m.toKernel m.needsSched.2.toKernel := by
  unfold Model.needsSched
  split
  next => exact refl _
  next =>
    split
    next =>
      have htrans : Rescheduled m.toKernel (m.setStats m.current Stats.addTrans) := setStats _ _
      exact { htrans with }
    next => exact refl _

theorem schedule : Rescheduled m.toKernel m.schedule.toKernel := by
  have hneeds : Rescheduled m.toKernel
      (m.mapKernel Kernel.updateSchedDataRr).needsSched.2.toKernel :=
    { needsSched (m := m.mapKernel Kernel.updateSchedDataRr) with }
  unfold Model.schedule
  dsimp only
  split
  next => exact hneeds.trans (exitRunCurrent.trans schedNext)
  next => exact hneeds

theorem clockRutine : Rescheduled m.toKernel m.clockRutine.toKernel :=
  { schedule (m := m.mapKernel fun k => { k with zeosTicks := k.zeosTicks + 1 }) with }

end Rescheduled

section Cr3

variable {m : Model}

def Kernel.Cr3Current (k : Kernel) : Prop :=
  k.cr3 = k.getDIR k.current

theorem cr3Current_schedNext : m.schedNext.Cr3Current := by
  unfold Model.schedNext
  split
  next => rfl
  next => rfl

theorem cr3Current_schedule (h : m.Cr3Current) : m.schedule.Cr3Current := by
  have hneeds : (m.mapKernel Kernel.updateSchedDataRr).needsSched.2.Cr3Current := by
    unfold Model.needsSched
    split
    next => exact h
    next =>
      split
      next =>
        unfold Kernel.Cr3Current at *
        simp [Kernel.getDIR] at *
        exact h
      next => exact h
  unfold Model.schedule
  dsimp only
  split
  next => exact cr3Current_schedNext
  next => exact hneeds

end Cr3

end Zeos
