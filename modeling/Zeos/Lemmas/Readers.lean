import Zeos.Spec.Readers
import Zeos.Lemmas.Idle
import Zeos.Lemmas.NullPage

/-!
The readers of the kernel behave as the abstract ones: only the keyboard and their own calls make a
difference to them, and the first key that one of them takes stops the machine.
-/

namespace Zeos

open Model

structure SameReading (k k' : Kernel) : Prop where
  reading : ∀ t, k'.isReading t = k.isReading t
  reader : ∀ t, k'.reader t = k.reader t
  buff : k'.keyboardBuff = k.keyboardBuff
  stopped : k'.stopped = k.stopped
  current : k'.current = k.current
  inKernel : k'.inKernel = k.inKernel

namespace SameReading

variable {k k' k'' : Kernel} {t : Slot}

theorem refl (k : Kernel) : SameReading k k :=
  ⟨fun _ => rfl, fun _ => rfl, rfl, rfl, rfl, rfl⟩

theorem trans (h : SameReading k k') (h' : SameReading k' k'') : SameReading k k'' where
  reading t := (h'.reading t).trans (h.reading t)
  reader t := (h'.reader t).trans (h.reader t)
  buff := h'.buff.trans h.buff
  stopped := h'.stopped.trans h.stopped
  current := h'.current.trans h.current
  inKernel := h'.inKernel.trans h.inKernel

theorem of_task (hrequired : ∀ t, (k'.task t).requiredKeys = (k.task t).requiredKeys)
    (hgot : ∀ t, (k'.task t).readKeys = (k.task t).readKeys) (hcont : k'.cont = k.cont)
    (hbuff : k'.keyboardBuff = k.keyboardBuff) (hstopped : k'.stopped = k.stopped)
    (hcurrent : k'.current = k.current) (hkernel : k'.inKernel = k.inKernel) : SameReading k k' where
  reading t := by
    unfold Kernel.isReading
    rw [hcont]
  reader t := by
    unfold Kernel.reader
    rw [hrequired, hgot]
  buff := hbuff
  stopped := hstopped
  current := hcurrent
  inKernel := hkernel

theorem isReading_setCont {c : Cont} (u : Slot)
    : (k.setCont t c).isReading u = if u = t then c.isReading else k.isReading u := by
  unfold Kernel.isReading
  rw [Kernel.setCont_cont, apply_ite Cont.isReading]

theorem setCont (ht : k.isReading t = false) {c : Cont} (hc : c.isReading = false)
    : SameReading k (k.setCont t c) where
  __ := refl k
  reading u := by
    rw [isReading_setCont]
    split
    next heq => rw [heq, ht, hc]
    next => rfl

theorem readers (h : SameReading k k') (runs keyboard : List Slot)
    : k'.readers runs keyboard = k.readers runs keyboard := by
  have hreading : k'.isReading = k.isReading := funext h.reading
  have hreader : k'.reader = k.reader := funext h.reader
  unfold Kernel.readers
  rw [hreading, hreader, h.buff, h.stopped]

end SameReading

structure ReadersKnown (m : Model) : Prop where
  waiting : ∀ t ∈ m.seq .keyboardqueue, m.isReading t = true
  blocked : ∀ i, ∀ t ∈ m.seq (.blockedQueue i), m.isReading t = false

def Model.switching (m : Model) : Readers :=
  m.toKernel.readers (m.seq .readyqueue) (m.seq .keyboardqueue)

theorem readers_of_not_reading {m : Model} (h : m.isReading m.current = false)
    : m.readers = m.switching := by
  unfold Model.readers Model.switching Kernel.readers
  rw [List.filter_cons_of_neg (by simp [h])]

theorem readers_of_reading {m : Model} (h : m.isReading m.current = true)
    : m.readers =
        { m.switching with pending := m.reader m.current :: m.switching.pending } := by
  unfold Model.readers Model.switching Kernel.readers
  rw [List.filter_cons_of_pos h, List.map_cons]

theorem switching_of_unlinked {m : Model} (hk : ReadersKnown m) {t : Slot}
    (hnot : ∀ q ≠ .freequeue, t ∉ m.seq q) {k : Kernel}
    (hreading : ∀ u ≠ t, k.isReading u = m.isReading u)
    (hreader : ∀ u ≠ t, k.reader u = m.reader u)
    : ({ m with toKernel := k } : Model).switching =
          { m.switching with buff := k.keyboardBuff, stopped := k.stopped } ∧
        ReadersKnown { m with toKernel := k } := by
  have hne : ∀ q ≠ .freequeue, ∀ u ∈ m.seq q, u ≠ t := by
    intro q hq u hu heq
    rw [heq] at hu
    exact hnot q hq hu
  have hpending : (m.seq .readyqueue).filter k.isReading = (m.seq .readyqueue).filter m.isReading :=
    List.filter_congr fun u hu => hreading u (hne _ (by simp) u hu)
  have hready : ((m.seq .readyqueue).filter m.isReading).map k.reader =
      ((m.seq .readyqueue).filter m.isReading).map m.reader :=
    List.map_congr_left fun u hu => hreader u (hne _ (by simp) u (List.mem_of_mem_filter hu))
  have hwaiting : (m.seq .keyboardqueue).map k.reader = (m.seq .keyboardqueue).map m.reader :=
    List.map_congr_left fun u hu => hreader u (hne _ (by simp) u hu)
  constructor
  . show k.readers (m.seq .readyqueue) (m.seq .keyboardqueue) = _
    unfold Model.switching Kernel.readers
    rw [hpending, hready, hwaiting]
  . constructor
    . intro u hu
      exact (hreading u (hne _ (by simp) u hu)).trans (hk.waiting u hu)
    . intro i u hu
      exact (hreading u (hne _ (by simp) u hu)).trans (hk.blocked i u hu)

structure Unnoticed (m m' : Model) : Prop where
  switching : m'.switching = m.switching
  known : ReadersKnown m'
  current : m'.current = m.current
  reading : m'.isReading m.current = m.isReading m.current
  inKernel : m'.inKernel = m.inKernel

namespace Unnoticed

variable {m m' m'' : Model} {live : Finset Slot} {run : Option Slot} {t : Slot} {q : Queue}

theorem refl (hk : ReadersKnown m) : Unnoticed m m :=
  ⟨rfl, hk, rfl, rfl, rfl⟩

theorem trans (h : Unnoticed m m') (h' : Unnoticed m' m'') : Unnoticed m m'' where
  switching := h'.switching.trans h.switching
  known := h'.known
  current := h'.current.trans h.current
  reading := by
    have hreading := h'.reading
    rw [h.current] at hreading
    exact hreading.trans h.reading
  inKernel := h'.inKernel.trans h.inKernel

theorem sameReading (hk : ReadersKnown m) {k : Kernel} (h : SameReading m.toKernel k)
    : Unnoticed m { m with toKernel := k } where
  switching := h.readers _ _
  known := {
    waiting := fun t ht => (h.reading t).trans (hk.waiting t ht)
    blocked := fun i t ht => (h.reading t).trans (hk.blocked i t ht) }
  current := h.current
  reading := h.reading _
  inKernel := h.inKernel

theorem mapKernel (hk : ReadersKnown m) {f : Kernel → Kernel}
    (h : SameReading m.toKernel (f m.toKernel)) : Unnoticed m (m.mapKernel f) :=
  sameReading hk h

theorem mapQueues (hk : ReadersKnown m) {f : Queues → Queues}
    (hready : ((f m.queues).seq .readyqueue).filter m.isReading =
      (m.seq .readyqueue).filter m.isReading)
    (hkeyboard : (f m.queues).seq .keyboardqueue = m.seq .keyboardqueue)
    (hblocked : ∀ i, ∀ t ∈ (f m.queues).seq (.blockedQueue i), m.isReading t = false)
    : Unnoticed m (m.mapQueues f) where
  switching := by
    unfold Model.switching Kernel.readers
    rw [toKernel_mapQueues, seq_mapQueues, seq_mapQueues, hready, hkeyboard]
  known := {
    waiting := by
      intro t ht
      rw [seq_mapQueues, hkeyboard] at ht
      exact hk.waiting t ht
    blocked := hblocked }
  current := rfl
  reading := rfl
  inKernel := rfl

theorem remove (hk : ReadersKnown m) (ht : m.isReading t = false)
    : Unnoticed m (m.mapQueues (Queues.remove t)) := by
  have hnot : t ∉ m.seq .keyboardqueue := by
    intro hmem
    rw [hk.waiting t hmem] at ht
    cases ht
  apply mapQueues hk
  . rw [Queues.seq_remove, ← List.erase_filter]
    apply List.erase_of_not_mem
    intro hmem
    rw [(List.mem_filter.mp hmem).2] at ht
    cases ht
  . rw [Queues.seq_remove]
    exact List.erase_of_not_mem hnot
  . intro i u hu
    rw [Queues.seq_remove] at hu
    exact hk.blocked i u (List.mem_of_mem_erase hu)

theorem append (hk : ReadersKnown m) (ht : m.isReading t = false) (hq : q ≠ .keyboardqueue)
    : Unnoticed m (m.mapQueues (Queues.append t q)) := by
  apply mapQueues hk
  . rw [Queues.seq_append]
    split
    next heq =>
      rw [List.filter_append, List.filter_cons_of_neg (by simp [ht]), List.filter_nil, List.append_nil,
        ← heq]
      rfl
    next => rfl
  . rw [Queues.seq_append, if_neg (Ne.symm hq)]
    rfl
  . intro i u hu
    rw [Queues.seq_append] at hu
    split at hu
    next heq =>
      rcases List.mem_append.mp hu with hu | hu
      . rw [← heq] at hu
        exact hk.blocked i u hu
      . rw [List.mem_singleton.mp hu]
        exact ht
    next => exact hk.blocked i u hu

theorem updateProcessState (hk : ReadersKnown m) (ht : m.isReading t = false)
    (hq : q ≠ .keyboardqueue) : Unnoticed m (m.updateProcessState t (some q)) := by
  have hremoved := remove hk ht
  have happended := append (q := q) hremoved.known ht hq
  have hmoved := hremoved.trans happended
  have hest : SameReading m.toKernel (m.updateProcessState t (some q)).toKernel := by
    apply SameReading.of_task
    . simp [Model.updateProcessState]
    . simp [Model.updateProcessState]
    all_goals rfl
  exact hmoved.trans (sameReading hmoved.known hest)

theorem exitRunCurrent (hk : ReadersKnown m) (hcurrent : m.isReading m.current = false)
    (hq : q ≠ .keyboardqueue) : Unnoticed m (m.exitRunCurrent q) := by
  have hdata : Unnoticed m (m.mapKernel Kernel.exitRunData) := by
    apply mapKernel hk
    apply SameReading.of_task
    . simp
    . simp
    all_goals rfl
  have hmoved : Unnoticed (m.mapKernel Kernel.exitRunData) (m.exitRunCurrent q) :=
    updateProcessState hdata.known (hdata.reading.trans hcurrent) hq
  exact hdata.trans hmoved

theorem needsSched (hk : ReadersKnown m) : Unnoticed m m.needsSched.2 := by
  unfold Model.needsSched
  split
  next => exact refl hk
  next =>
    split
    next =>
      dsimp only
      apply mapKernel hk
      apply SameReading.of_task
      . simp
      . simp
      all_goals rfl
    next => exact refl hk

theorem ret (hk : ReadersKnown m) (hcurrent : m.isReading m.current = false) (r : Int)
    : Unnoticed m (m.ret r) := by
  apply mapKernel hk
  have hcurrent' : (m.setEax m.current r).isReading m.current = false := hcurrent
  exact { SameReading.setCont hcurrent' (c := .user) rfl with }

section Semaphores

theorem setSemRet (hk : ReadersKnown m) (t : Slot) (r : Int)
    : Unnoticed m (m.mapKernel (Kernel.setSemRet t r)) := by
  apply mapKernel hk
  apply SameReading.of_task
  . simp
  . simp
  all_goals rfl

theorem semInit (hk : ReadersKnown m) {nSem : Int} {value : BitVec 32} {x : Int × Model}
    (hinit : m.semInit nSem value = some x) : Unnoticed m x.2 := by
  unfold Model.semInit at hinit
  split at hinit
  next =>
    cases hinit
    exact refl hk
  next =>
    obtain ⟨i, -, rfl⟩ := Option.map_eq_some_iff.mp hinit
    have hopen : Unnoticed m (m.mapKernel (Kernel.openSem i nSem value)) :=
      mapKernel hk { SameReading.refl m.toKernel with }
    apply hopen.trans
    apply mapQueues hopen.known
    . rw [Queues.seq_init, if_neg (by simp)]
      rfl
    . rw [Queues.seq_init, if_neg (by simp)]
      rfl
    . intro j t ht
      rw [Queues.seq_init] at ht
      split at ht
      next => cases ht
      next => exact hopen.known.blocked j t ht

theorem semSignal (hk : ReadersKnown m) (nSem : Int) : Unnoticed m (m.semSignal nSem).2 := by
  unfold Model.semSignal
  split
  next => exact refl hk
  next i hi =>
    split
    next => exact mapKernel hk { SameReading.refl m.toKernel with }
    next t ts hcons =>
      apply updateProcessState hk _ (by simp)
      apply hk.blocked i
      rw [hcons]
      exact List.mem_cons_self

theorem unblock (hk : ReadersKnown m) {ts : List Slot} (hts : ∀ t ∈ ts, m.isReading t = false)
    : Unnoticed m (m.unblock ts) := by
  induction ts generalizing m with
  | nil => exact refl hk
  | cons t ts ih =>
    have hret := setSemRet hk t (-1)
    have hmoved := hret.trans
      (updateProcessState (q := .readyqueue) hret.known (hts t List.mem_cons_self) (by simp))
    apply hmoved.trans
    apply ih hmoved.known
    intro u hu
    exact hts u (List.mem_cons_of_mem _ hu)

theorem semDestroy (hk : ReadersKnown m) (nSem : Int) : Unnoticed m (m.semDestroy nSem).2 := by
  unfold Model.semDestroy
  split
  next => exact refl hk
  next i hi =>
    split
    next => exact refl hk
    next =>
      have hmoved := unblock hk (hk.blocked i)
      apply hmoved.trans
      exact mapKernel hmoved.known { SameReading.refl (m.unblock _).toKernel with }

theorem destroyOwned (hk : ReadersKnown m) : Unnoticed m m.destroyOwned := by
  unfold Model.destroyOwned
  induction List.finRange nrSemaphores generalizing m with
  | nil => exact refl hk
  | cons i is ih =>
    rw [List.foldl_cons]
    split
    next =>
      have hdestroyed := semDestroy hk (m.semaphores i).nSem
      exact hdestroyed.trans (ih hdestroyed.known)
    next => exact ih hk

end Semaphores

section Exit

theorem retired (hk : ReadersKnown m) (hcurrent : m.isReading m.current = false)
    : Unnoticed m m.retired := by
  have hrelease : Unnoticed m (m.mapKernel Kernel.releaseDIR) := by
    obtain ⟨refs, mm, heq⟩ := Kernel.releaseDIR_eq m.toKernel
    apply mapKernel hk
    rw [heq]
    exact { SameReading.refl m.toKernel with }
  exact hrelease.trans (append hrelease.known (hrelease.reading.trans hcurrent) (by simp))

theorem exited (hk : ReadersKnown m) (hcurrent : m.isReading m.current = false)
    : Unnoticed m m.exited := by
  have hretired := retired hk hcurrent
  have hdestroyed := hretired.trans (destroyOwned hretired.known)
  have hagain : Unnoticed m.retired.destroyOwned
      (m.retired.destroyOwned.mapQueues (Queues.again .freequeue)) := by
    have hseq : ∀ q, (m.retired.destroyOwned.queues.again .freequeue).seq q =
        m.retired.destroyOwned.seq q := fun q => Queues.seq_again
    apply mapQueues hdestroyed.known
    . rw [hseq]
    . exact hseq _
    . intro i t ht
      rw [hseq] at ht
      exact hdestroyed.known.blocked i t ht
  have hplaced := hdestroyed.trans hagain
  have hreading : m.retired.destroyOwned.isReading m.retired.destroyOwned.current = false := by
    rw [hdestroyed.current, hdestroyed.reading]
    exact hcurrent
  apply hplaced.trans
  apply sameReading hplaced.known
  have htask : SameReading m.retired.destroyOwned.toKernel
      (m.retired.destroyOwned.clearPid.setTask m.retired.destroyOwned.current fun ts =>
        { ts with estado := .stBlocked }) := by
    apply SameReading.of_task
    . simp
    . simp
    all_goals rfl
  exact htask.trans (.setCont ((htask.reading _).trans hreading) rfl)

end Exit

section Fork

theorem unlinked (hk : ReadersKnown m) (hnot : ∀ q ≠ .freequeue, t ∉ m.seq q) (ht : m.current ≠ t)
    {k : Kernel} (hreading : ∀ u ≠ t, k.isReading u = m.isReading u)
    (hreader : ∀ u ≠ t, k.reader u = m.reader u) (hbuff : k.keyboardBuff = m.keyboardBuff)
    (hstopped : k.stopped = m.stopped) (hcurrent : k.current = m.current)
    (hkernel : k.inKernel = m.inKernel) : Unnoticed m { m with toKernel := k } := by
  obtain ⟨hswitching, hknown⟩ := switching_of_unlinked hk hnot hreading hreader
  rw [hbuff, hstopped] at hswitching
  exact ⟨hswitching, hknown, hcurrent, hreading _ ht, hkernel⟩

theorem takeCopy (h : Settled m live) (hk : ReadersKnown m) (ht : t ∈ m.seq .freequeue)
    : Unnoticed m (m.takeCopy t) := by
  have hlive := h.placed.not_live_of_free t ht
  have hnot : ∀ q ≠ .freequeue, t ∉ m.seq q :=
    fun q hq hmem => hlive (h.placed.live_of_mem q hq t hmem)
  have hseq : ∀ q ≠ .freequeue, (m.queues.remove t).seq q = m.seq q :=
    fun q hq => List.erase_of_not_mem (hnot q hq)
  have hremoved : Unnoticed m (m.mapQueues (Queues.remove t)) := by
    apply mapQueues hk
    . rw [hseq _ (by simp)]
    . exact hseq _ (by simp)
    . intro i u hu
      rw [hseq _ (by simp)] at hu
      exact hk.blocked i u hu
  apply hremoved.trans
  apply unlinked hremoved.known
  . intro q hq
    rw [seq_mapQueues, hseq q hq]
    exact hnot q hq
  . intro heq
    apply hlive
    rw [← heq]
    exact h.live
  . intro u hu
    rfl
  . intro u hu
    unfold Kernel.reader
    simp [hu]
  all_goals rfl

theorem setContext (h : Settled.Taken m live t) (hk : ReadersKnown m) {k : Kernel}
    (hreading : ∀ u ≠ t, k.isReading u = m.isReading u)
    (hreader : ∀ u ≠ t, k.reader u = m.reader u) (hbuff : k.keyboardBuff = m.keyboardBuff)
    (hstopped : k.stopped = m.stopped) (hcurrent : k.current = m.current)
    (hkernel : k.inKernel = m.inKernel) : Unnoticed m { m with toKernel := k } := by
  apply unlinked hk _ _ hreading hreader hbuff hstopped hcurrent hkernel
  . intro q _ hmem
    exact h.not_linked ⟨q, hmem⟩
  . intro heq
    apply h.not_live
    rw [← heq]
    exact h.settled.live

theorem makeReady (hk : ReadersKnown m) (ht : m.isReading t = false)
    : Unnoticed m (Model.makeReady t m).2 := by
  have hprocess : Unnoticed m (m.mapKernel (Kernel.newProcess t)) := by
    apply mapKernel hk
    apply SameReading.of_task
    . simp
    . simp
    all_goals rfl
  exact hprocess.trans (append hprocess.known ht (by simp))

theorem fork (h : Settled m live) (hk : ReadersKnown m) {x : Int × Model} (hfork : m.fork = some x)
    : Unnoticed m x.2 := by
  unfold Model.fork at hfork
  split at hfork
  next =>
    cases hfork
    exact refl hk
  next new rest hcons =>
    have hnew : new ∈ m.seq .freequeue := by
      rw [hcons]
      exact List.mem_cons_self
    have htaken := h.takeCopy hnew
    have hcopied := takeCopy h hk hnew
    dsimp only at hfork
    split at hfork
    next =>
      cases hfork
      exact hcopied
    next k hk' =>
      obtain ⟨⟨enough, k'⟩, hpages, rfl⟩ := Option.map_eq_some_iff.mp hfork
      have htaken' := htaken.inheritPages hk' hpages
      have hpaged : Unnoticed (m.takeCopy new) { m.takeCopy new with toKernel := k' } := by
        obtain ⟨d, -, rfl⟩ := Kernel.allocateDIR_eq_some hk'
        obtain ⟨mm, rfl⟩ := Kernel.inheritPages_eq_some hpages
        apply sameReading hcopied.known
        apply SameReading.of_task
        . simp
        . simp
        all_goals rfl
      have hpaged := hcopied.trans hpaged
      dsimp only
      split
      next =>
        have hcontext := setContext htaken' hpaged.known (k := k'.forkContext new)
          (fun u hu => by rw [Kernel.forkContext, SameReading.isReading_setCont, if_neg hu]; rfl)
          (fun _ _ => rfl) rfl rfl rfl rfl
        have hcontext := hpaged.trans hcontext
        apply hcontext.trans
        apply makeReady hcontext.known
        show (k'.forkContext new).isReading new = false
        rw [Kernel.forkContext, SameReading.isReading_setCont, if_pos rfl]
        rfl
      next => exact hpaged

theorem clone (h : Settled m live) (hk : ReadersKnown m) (function stack : Addr)
    : Unnoticed m (m.clone function stack).2 := by
  unfold Model.clone
  split
  next => exact refl hk
  next =>
    split
    next => exact refl hk
    next new rest hcons =>
      have hnew : new ∈ m.seq .freequeue := by
        rw [hcons]
        exact List.mem_cons_self
      have hcopied := takeCopy h hk hnew
      have hcontext := setContext (h.takeCopy hnew) hcopied.known
        (k := (m.takeCopy new).cloneContext new)
        (fun u hu => by rw [Kernel.cloneContext, SameReading.isReading_setCont, if_neg hu]; rfl)
        (fun _ _ => rfl) rfl rfl rfl rfl
      have hcontext := hcopied.trans hcontext
      apply hcontext.trans
      apply makeReady hcontext.known
      show ((m.takeCopy new).cloneContext new).isReading new = false
      rw [Kernel.cloneContext, SameReading.isReading_setCont, if_pos rfl]
      rfl

end Fork

end Unnoticed

/--
A call or an interrupt has come to its end, and the readers have not noticed it.
-/
structure Overlooked (m m' : Model) : Prop where
  readers : m'.readers = m.switching
  known : ReadersKnown m'
  user : m.inKernel = true → m'.isReading m'.current = true → m'.inKernel = true

namespace Overlooked

variable {m m' m'' : Model} {live : Finset Slot} {run : Option Slot} {t : Slot} {q : Queue}

theorem trans (h : Unnoticed m m') (h' : Overlooked m' m'') : Overlooked m m'' where
  readers := h'.readers.trans h.switching
  known := h'.known
  user hkernel := h'.user (h.inKernel.trans hkernel)

theorem of_unnoticed (h : Unnoticed m m') (hcurrent : m.isReading m.current = false)
    : Overlooked m m' := by
  have hcurrent' : m'.isReading m'.current = false := by
    rw [h.current, h.reading]
    exact hcurrent
  constructor
  . rw [readers_of_not_reading hcurrent']
    exact h.switching
  . exact h.known
  . intro _ hreading
    rw [hcurrent'] at hreading
    cases hreading

theorem schedNext (h : Placed m live none) (hk : ReadersKnown m) : Overlooked m m.schedNext := by
  have hkept : ∀ q ≠ .readyqueue, m.schedNext.seq q = m.seq q := fun q hq => (Kept.schedNext h hq).seq
  cases hcons : m.seq .readyqueue with
  | nil =>
    have hnext : m.schedNext = m.mapKernel fun k => k.taskSwitch k.idleTask := by
      unfold Model.schedNext
      rw [hcons]
    have hidle : m.isReading m.idleTask = false := by
      unfold Kernel.isReading
      cases hcont : m.cont m.idleTask with
      | readKeyboard buff => exact absurd hcont (h.idle_not_reading buff)
      | _ => rfl
    rw [hnext]
    constructor
    . exact readers_of_not_reading hidle
    . exact ⟨hk.waiting, hk.blocked⟩
    . intro hkernel _
      exact hkernel
  | cons t ts =>
    have hnext : m.schedNext = ((m.mapKernel (Kernel.schedData t)).updateProcessState t none).mapKernel
        (Kernel.taskSwitch t) := by
      unfold Model.schedNext
      rw [hcons]
    have hsame : SameReading m.toKernel
        ((m.mapKernel (Kernel.schedData t)).updateProcessState t none).toKernel := by
      apply SameReading.of_task
      . simp [updateProcessState]
      . simp [updateProcessState]
      all_goals rfl
    have hready : m.schedNext.seq .readyqueue = ts := by
      rw [hnext]
      show (m.seq .readyqueue).erase t = ts
      rw [hcons, List.erase_cons_head]
    have hreading : ∀ u, m.schedNext.isReading u = m.isReading u := by
      intro u
      rw [hnext]
      exact hsame.reading u
    constructor
    . unfold Model.readers Model.switching
      rw [hready, hkept _ (by simp), hcons, hnext]
      exact hsame.readers _ _
    . constructor
      . intro u hu
        rw [hkept _ (by simp)] at hu
        exact (hreading u).trans (hk.waiting u hu)
      . intro i u hu
        rw [hkept _ (by simp)] at hu
        exact (hreading u).trans (hk.blocked i u hu)
    . intro hkernel _
      rw [hnext]
      exact hsame.inKernel.trans hkernel

theorem schedule (h : Settled m live) (hk : ReadersKnown m) (hcurrent : m.isReading m.current = false)
    : Overlooked m m.schedule := by
  have hdata : Unnoticed m (m.mapKernel Kernel.updateSchedDataRr) :=
    .mapKernel hk { SameReading.refl m.toKernel with }
  have hneeds := hdata.trans (.needsSched hdata.known)
  have hcurrent' := hneeds.reading.trans hcurrent
  rw [← hneeds.current] at hcurrent'
  have hsettled := h.updateSchedDataRr.needsSched
  unfold Model.schedule
  dsimp only
  split
  next =>
    have hleft := Unnoticed.exitRunCurrent hneeds.known hcurrent' (q := .readyqueue) (by simp)
    apply trans (hneeds.trans hleft)
    exact schedNext (hsettled.placed.exitRunCurrent hsettled.live (.inl rfl)) hleft.known
  next => exact of_unnoticed hneeds hcurrent

theorem clockRutine (h : Settled m live) (hk : ReadersKnown m)
    (hcurrent : m.isReading m.current = false) : Overlooked m m.clockRutine := by
  have htick : Unnoticed m (m.mapKernel fun k => { k with zeosTicks := k.zeosTicks + 1 }) :=
    .mapKernel hk { SameReading.refl m.toKernel with }
  exact trans htick (schedule h.tick htick.known hcurrent)

theorem semWait (h : Settled m live) (hk : ReadersKnown m) (hidle : m.current ≠ m.idleTask)
    (hcurrent : m.isReading m.current = false) (nSem : Int) : Overlooked m (m.semWait nSem) := by
  have hclear := Unnoticed.setSemRet hk m.current 0
  have hclear' := hclear.reading.trans hcurrent
  unfold Model.semWait
  split
  next => exact of_unnoticed (.ret hk hcurrent _) hcurrent
  next i hi =>
    dsimp only
    split
    next =>
      have hleft := hclear.trans
        (Unnoticed.exitRunCurrent hclear.known hclear' (q := .blockedQueue i) (by simp))
      have hwait : Unnoticed ((m.mapKernel (Kernel.setSemRet m.current 0)).exitRunCurrent
          (.blockedQueue i)) (((m.mapKernel (Kernel.setSemRet m.current 0)).exitRunCurrent
          (.blockedQueue i)).mapKernel fun k => k.setCont k.current .semWait) :=
        .mapKernel hleft.known (.setCont (hleft.reading.trans hcurrent) rfl)
      have hwait := hleft.trans hwait
      have hplaced := (h.setSemRet m.current 0).queueWaiting hidle (Settled.waits_of_cercaSem hi)
      exact trans hwait (schedNext hplaced hwait.known)
    next =>
      have hcounted : Unnoticed (m.mapKernel (Kernel.setSemRet m.current 0))
          ((m.mapKernel (Kernel.setSemRet m.current 0)).mapKernel (Kernel.addCounter i (-1))) :=
        .mapKernel hclear.known { SameReading.refl (m.setSemRet m.current 0) with }
      have hcounted := hclear.trans hcounted
      exact of_unnoticed (hcounted.trans (.ret hcounted.known hclear' 0)) hcurrent

theorem exit (h : Settled m live) (hk : ReadersKnown m) (hidle : m.current ≠ m.idleTask)
    (hcurrent : m.isReading m.current = false) : Overlooked m m.exit := by
  have hexited := Unnoticed.exited hk hcurrent
  exact trans hexited (schedNext (h.exited hidle) hexited.known)

theorem result (hcurrent : m.isReading m.current = false) {x : Int × Model} (h : Unnoticed m x.2)
    : Overlooked m (Model.result x) := by
  have hcurrent' : x.2.isReading x.2.current = false := by
    rw [h.current, h.reading]
    exact hcurrent
  exact of_unnoticed (h.trans (.ret h.known hcurrent' _)) hcurrent

end Overlooked

namespace Model

variable {m : Model} {entrada beyond : Byte}

theorem keyboardRutine_of_break (hbreak : ¬entrada >>> 7 = 0)
    : m.keyboardRutine entrada beyond = m := by
  unfold keyboardRutine
  rw [if_neg hbreak]

theorem keyboardRutine_of_nil (hmake : entrada >>> 7 = 0)
    (hnil : (m.mapKernel (Kernel.keyPressed entrada beyond)).seq .keyboardqueue = [])
    : m.keyboardRutine entrada beyond = m.mapKernel (Kernel.keyPressed entrada beyond) := by
  unfold keyboardRutine
  rw [if_pos hmake]
  dsimp only
  rw [hnil]

theorem keyboardRutine_of_cons {t : Slot} {ts : List Slot} (hmake : entrada >>> 7 = 0)
    (hcons : (m.mapKernel (Kernel.keyPressed entrada beyond)).seq .keyboardqueue = t :: ts)
    : m.keyboardRutine entrada beyond =
        let m := m.mapKernel (Kernel.keyPressed entrada beyond)
        if m.keyboardBuff.cirBuffFull ≠ 0
            ∨ m.keyboardBuff.cirBuffLenght ≥ (m.task t).requiredKeys - (m.task t).readKeys then
          m.updateProcessState t (some .readyqueue)
        else m := by
  unfold keyboardRutine
  rw [if_pos hmake]
  dsimp only
  rw [hcons]

end Model

section Keyboard

variable {m m' : Model} {live : Finset Slot}

theorem stopped_readKeysLoop {k : Kernel} (hfault : k.KeysFault) (hrun : k.stopped = false) (n : Nat)
    (buff : Addr) : (k.readKeysLoop n buff).2.stopped = true ↔ 0 < n := by
  cases n with
  | zero => simp [Kernel.readKeysLoop, hrun]
  | succ n =>
    rw [hfault.readKeysLoop_eq n.succ_pos buff]
    simp

structure ReadersTo (m m' : Model) (r : Readers) : Prop where
  readers : m.KeysFault → m.stopped = false → m'.readers = r
  known : ReadersKnown m'
  user : m.inKernel = true → m'.isReading m'.current = true → m'.inKernel = true

theorem Overlooked.readersTo (h : Overlooked m m') : ReadersTo m m' m.switching :=
  ⟨fun _ _ => h.readers, h.known, h.user⟩

namespace ReadersTo

theorem stopped (hk : ReadersKnown m) {n : Nat} {buff : Addr}
    (hstopped : (m.readKeysLoop n buff).2.stopped = true)
    : ReadersTo m { m with toKernel := (m.readKeysLoop n buff).2 } m.readers.stop := by
  refine ⟨?_, ?_, ?_⟩
  . intro hfault hrun
    rw [hfault.readKeysLoop_eq ((stopped_readKeysLoop hfault hrun n buff).mp hstopped)]
    rfl
  all_goals
    obtain ⟨mm, keyboardBuff, copies, stopped, heq⟩ := Kernel.readKeysLoop_eq n buff m.toKernel
    rw [heq]
  . exact ⟨hk.waiting, hk.blocked⟩
  . exact fun hkernel _ => hkernel

theorem readKeys (h : Settled m live) (hk : ReadersKnown m) (n : Nat) (buff : Addr) (r : Int)
    : let k := (m.readKeysLoop n buff).2
      ({ m with toKernel := k.addReadKeys r } : Model).switching =
          { m.switching with buff := k.keyboardBuff, stopped := k.stopped } ∧
        ReadersKnown { m with toKernel := k.addReadKeys r } ∧
        (k.addReadKeys r).current = m.current ∧ (k.addReadKeys r).inKernel = m.inKernel := by
  obtain ⟨mm, keyboardBuff, copies, stopped, heq⟩ := Kernel.readKeysLoop_eq n buff m.toKernel
  dsimp only
  rw [heq]
  have hunlinked := switching_of_unlinked hk (t := m.current) (fun q _ => h.current_not_mem q)
    (k := Kernel.addReadKeys r
      { m.toKernel with mm := mm, keyboardBuff := keyboardBuff, copies := copies, stopped := stopped })
    (fun _ _ => rfl)
    (by
      intro u hu
      unfold Kernel.reader
      simp [hu])
  exact ⟨hunlinked.1, hunlinked.2, rfl, rfl⟩

theorem enqueue (hk : ReadersKnown m) (hcurrent : m.isReading m.current = true) {f : Queues → Queues}
    (hready : (f m.queues).seq .readyqueue = m.seq .readyqueue)
    (hkeyboard : ∀ t ∈ (f m.queues).seq .keyboardqueue, t = m.current ∨ t ∈ m.seq .keyboardqueue)
    (hblocked : ∀ i, (f m.queues).seq (.blockedQueue i) = m.seq (.blockedQueue i))
    : (m.mapQueues f).switching =
          { m.switching with waiting := ((f m.queues).seq .keyboardqueue).map m.reader } ∧
        ReadersKnown (m.mapQueues f) := by
  constructor
  . show m.toKernel.readers ((f m.queues).seq .readyqueue) _ = _
    rw [hready]
    rfl
  . constructor
    . intro t ht
      rcases hkeyboard t ht with rfl | ht
      . exact hcurrent
      . exact hk.waiting t ht
    . intro i t ht
      apply hk.blocked i
      rw [← hblocked i]
      exact ht

theorem waitKeyboard (h : Settled m live) (hk : ReadersKnown m) (hidle : m.current ≠ m.idleTask)
    (buff : Addr)
    : ReadersTo m (m.waitKeyboard buff)
        { m.switching with waiting := m.reader m.current :: m.switching.waiting } := by
  have hreader : (m.blockReading buff).reader = m.reader := by
    funext u
    unfold Kernel.reader
    simp
  obtain ⟨hswitching, hknown⟩ := switching_of_unlinked hk (t := m.current)
    (fun q _ => h.current_not_mem q) (k := m.blockReading buff)
    (fun u hu => by rw [Kernel.blockReading, SameReading.isReading_setCont, if_neg hu]; rfl)
    (fun u _ => congrFun hreader u)
  have hreading : (m.blockReading buff).isReading m.current = true := by
    rw [Kernel.blockReading, SameReading.isReading_setCont, if_pos rfl]
    rfl
  have henqueue := enqueue (f := Queues.push m.current .keyboardqueue) hknown hreading
    (by rw [Queues.seq_push, if_neg (by simp)]; rfl)
    (by
      intro t ht
      rw [Queues.seq_push, if_pos rfl] at ht
      exact List.mem_cons.mp ht)
    (by intro i; rw [Queues.seq_push, if_neg (by simp)]; rfl)
  obtain ⟨hpushed, hknown⟩ := henqueue
  have hnext := Overlooked.schedNext (h.blockReading hidle buff) hknown
  constructor
  . intro _ _
    apply hnext.readers.trans
    apply hpushed.trans
    rw [hswitching, Queues.seq_push, if_pos rfl, List.map_cons]
    dsimp only
    rw [hreader]
    rfl
  . exact hnext.known
  . exact hnext.user

theorem queueReading (h : Settled m live) (hk : ReadersKnown m) (hidle : m.current ≠ m.idleTask)
    (buff : Addr)
    : ReadersTo m ((m.updateProcessState m.current (some .keyboardqueue)).mapKernel fun k =>
          k.setCont k.current (.readKeyboard buff)).schedNext
        { m.switching with waiting := m.switching.waiting ++ [m.reader m.current] } := by
  let k := (m.setTask m.current fun ts => { ts with estado := .stBlocked }).setCont m.current
    (.readKeyboard buff)
  have hreader : k.reader = m.reader := by
    funext u
    unfold Kernel.reader
    simp [k]
  obtain ⟨hswitching, hknown⟩ := switching_of_unlinked hk (t := m.current)
    (fun q _ => h.current_not_mem q) (k := k)
    (fun u hu => by rw [SameReading.isReading_setCont, if_neg hu]; rfl)
    (fun u _ => congrFun hreader u)
  have hreading : k.isReading m.current = true := by
    rw [SameReading.isReading_setCont, if_pos rfl]
    rfl
  have hremove : ∀ q, (m.queues.remove m.current).seq q = m.seq q :=
    fun q => List.erase_of_not_mem (h.current_not_mem q)
  have henqueue := enqueue
    (f := fun Q => (Q.remove m.current).append m.current .keyboardqueue) hknown hreading
    (by rw [Queues.seq_append, if_neg (by simp)]; exact hremove _)
    (by
      intro t ht
      rw [Queues.seq_append, if_pos rfl, List.mem_append, List.mem_singleton] at ht
      rcases ht with ht | ht
      . exact .inr (List.mem_of_mem_erase ht)
      . exact .inl ht)
    (by intro i; rw [Queues.seq_append, if_neg (by simp)]; exact hremove _)
  obtain ⟨hqueued, hknown⟩ := henqueue
  have hnext := Overlooked.schedNext (h.queueReading hidle buff) hknown
  constructor
  . intro _ _
    apply hnext.readers.trans
    apply hqueued.trans
    rw [hswitching, Queues.seq_append, if_pos rfl]
    dsimp only
    rw [hreader, hremove, List.map_append]
    rfl
  . exact hnext.known
  . exact hnext.user

theorem ret (h : Settled m live) (hk : ReadersKnown m) (r : Int)
    : ReadersTo m (m.ret r) m.switching := by
  obtain ⟨hswitching, hknown⟩ := switching_of_unlinked hk (t := m.current)
    (fun q _ => h.current_not_mem q) (k := (m.setEax m.current r).setCont m.current .user)
    (fun u hu => by rw [SameReading.isReading_setCont, if_neg hu]; rfl) (fun _ _ => rfl)
  have hreading : (m.ret r).isReading m.current = false := by
    unfold Model.ret
    rw [toKernel_mapKernel, SameReading.isReading_setCont, if_pos rfl]
    rfl
  constructor
  . exact fun _ _ => (readers_of_not_reading hreading).trans hswitching
  . exact hknown
  . intro _ hnot
    rw [show (m.ret r).current = m.current from rfl, hreading] at hnot
    cases hnot

theorem served (h : Settled m live) (hk : ReadersKnown m) (n : Nat) (buff : Addr) (r v : Int)
    (hrun : ¬(m.readKeysLoop n buff).2.stopped = true)
    : ReadersTo m (Model.ret v { m with toKernel := (m.readKeysLoop n buff).2.addReadKeys r })
        (if 0 < n then m.readers.stop else m.switching) := by
  obtain ⟨hswitching, hknown, hcurrent, hkernel⟩ := readKeys h hk n buff r
  have hret := ret (h.readKeys n buff r) hknown v
  refine ⟨?_, hret.known, fun hinside => hret.user (hkernel.trans hinside)⟩
  intro hfault hrunning
  have hzero : n = 0 := by
    rw [stopped_readKeysLoop hfault hrunning] at hrun
    omega
  subst hzero
  rw [if_neg (lt_irrefl 0)]
  exact (hret.readers ⟨hfault.stops, hfault.null⟩ hrunning).trans hswitching

theorem drained (h : Settled m live) (hk : ReadersKnown m) (hidle : m.current ≠ m.idleTask) {n : Nat}
    (hn : 0 < n) (buff buff' : Addr) (r : Int) (hrun : ¬(m.readKeysLoop n buff).2.stopped = true)
    : ReadersTo m (Model.waitKeyboard buff' { m with toKernel := (m.readKeysLoop n buff).2.addReadKeys r })
        m.readers.stop := by
  obtain ⟨hswitching, hknown, hcurrent, hkernel⟩ := readKeys h hk n buff r
  have hwait := waitKeyboard (h.readKeys n buff r) hknown (Settled.readKeys_ne_idle hidle n buff r) buff'
  refine ⟨?_, hwait.known, fun hinside => hwait.user (hkernel.trans hinside)⟩
  intro hfault hrunning
  exact absurd ((stopped_readKeysLoop hfault hrunning n buff).mpr hn) hrun

theorem readKeyboardBody (h : Settled m live) (hk : ReadersKnown m) (hidle : m.current ≠ m.idleTask)
    (buff : Addr)
    : ReadersTo m (m.readKeyboardBody buff)
        (if m.switching.Hands (m.reader m.current) then m.readers.stop
          else m.switching.attend (m.reader m.current)) := by
  unfold Model.readKeyboardBody Readers.attend Readers.Hands
  by_cases henough : m.switching.Enough (m.reader m.current)
  . have hlenght : m.keyboardBuff.cirBuffLenght ≥
      (m.task m.current).requiredKeys - (m.task m.current).readKeys := henough
    have hrequired : 0 < (m.task m.current).requiredKeys.toNat ↔ 0 < (m.reader m.current).required :=
      Int.lt_toNat
    simp only [if_pos henough, if_pos hlenght, ← hrequired]
    split
    next hstopped =>
      have hloop := stopped hk hstopped
      refine ⟨?_, hloop.known, hloop.user⟩
      intro hfault hrun
      rw [if_pos ((stopped_readKeysLoop hfault hrun _ buff).mp hstopped)]
      exact hloop.readers hfault hrun
    next hrun => exact served h hk _ buff _ _ hrun
  . have hlenght : ¬m.keyboardBuff.cirBuffLenght ≥
      (m.task m.current).requiredKeys - (m.task m.current).readKeys := henough
    simp only [if_neg henough, if_neg hlenght]
    by_cases hfull : m.keyboardBuff.cirBuffFull ≠ 0
    . have hfull' : m.switching.buff.cirBuffFull ≠ 0 := hfull
      rw [if_pos hfull, if_pos hfull']
      split
      next hstopped => exact stopped hk hstopped
      next hrun => exact drained h hk hidle (by decide) buff _ _ hrun
    . have hfull' : ¬m.switching.buff.cirBuffFull ≠ 0 := hfull
      rw [if_neg hfull, if_neg hfull']
      exact waitKeyboard h hk hidle buff

theorem read (h : Settled m live) (hk : ReadersKnown m) (hidle : m.current ≠ m.idleTask)
    (hcurrent : m.isReading m.current = false) (fd : Int) (buf : Addr) (count : Int)
    : ReadersTo m (m.read fd buf count)
        (if ReadAccepted fd buf count then m.switching.call m.current count else m.switching) := by
  unfold Model.read
  split
  next hbuf =>
    rw [if_neg fun hok : ReadAccepted fd buf count => hok.1 hbuf]
    exact ret h hk _
  split
  next hcount =>
    rw [if_neg fun hok : ReadAccepted fd buf count => absurd hok.2.1 (by omega)]
    exact ret h hk _
  split
  next hfd =>
    rw [if_neg fun hok : ReadAccepted fd buf count => absurd hok.2.2.1 (by omega)]
    exact ret h hk _
  split
  next haccess =>
    rw [if_neg fun hok : ReadAccepted fd buf count => by simp [hok.2.2.2] at haccess]
    exact ret h hk _
  next hbuf hcount hfd haccess =>
    have hok : ReadAccepted fd buf count := ⟨hbuf, by omega, by omega, by simpa using haccess⟩
    rw [if_pos hok]
    have hsettled := h.requireKeys count
    have hreader : (m.requireKeys count).reader m.current =
        { task := m.current, required := count, got := 0 } := by
      unfold Kernel.reader
      simp
    have hunlinked := switching_of_unlinked hk (t := m.current) (fun q _ => h.current_not_mem q)
      (k := m.requireKeys count) (fun _ _ => rfl)
      (by
        intro u hu
        unfold Kernel.reader
        simp [hu])
    obtain ⟨hswitching, hknown⟩ := hunlinked
    have hswitching : (m.mapKernel (Kernel.requireKeys count)).switching = m.switching := hswitching
    have hwaiting : m.switching.waiting ≠ [] ↔ m.seq .keyboardqueue ≠ [] := by
      unfold Model.switching Kernel.readers
      simp
    unfold Model.readKeyboard Readers.call
    dsimp only
    by_cases hempty : m.seq .keyboardqueue ≠ []
    . rw [if_pos (show (m.mapKernel (Kernel.requireKeys count)).seq .keyboardqueue ≠ [] from hempty),
        if_pos (hwaiting.mpr hempty), ← hswitching, ← hreader]
      have hqueued := queueReading hsettled hknown hidle buf
      exact ⟨fun hfault => hqueued.readers ⟨hfault.stops, hfault.null⟩, hqueued.known, hqueued.user⟩
    . rw [if_neg (show ¬(m.mapKernel (Kernel.requireKeys count)).seq .keyboardqueue ≠ [] from hempty),
        if_neg (fun hne => hempty (hwaiting.mp hne)), ← hswitching, ← hreader]
      have hbody := readKeyboardBody hsettled hknown hidle buf
      have hreaders : (m.mapKernel (Kernel.requireKeys count)).readers =
          (m.mapKernel (Kernel.requireKeys count)).switching := readers_of_not_reading hcurrent
      rw [hreaders] at hbody
      exact ⟨fun hfault => hbody.readers ⟨hfault.stops, hfault.null⟩, hbody.known, hbody.user⟩

theorem wake (h : Settled m live) (hk : ReadersKnown m) (hcurrent : m.isReading m.current = false)
    {t : Slot} {ts : List Slot} (hcons : m.seq .keyboardqueue = t :: ts)
    : ReadersTo m (m.updateProcessState t (some .readyqueue))
        { m.switching with
          pending := m.switching.pending ++ [m.reader t]
          waiting := ts.map m.reader } := by
  have ht : t ∈ m.seq .keyboardqueue := by
    rw [hcons]
    exact List.mem_cons_self
  have hsame : SameReading m.toKernel (m.updateProcessState t (some .readyqueue)).toKernel := by
    apply SameReading.of_task
    . simp [updateProcessState]
    . simp [updateProcessState]
    all_goals rfl
  have hready : (m.updateProcessState t (some .readyqueue)).seq .readyqueue =
      m.seq .readyqueue ++ [t] := by
    have hnot : t ∉ m.seq .readyqueue := by
      intro hmem
      cases h.placed.disjoint _ _ t ht hmem
    show (m.seq .readyqueue).erase t ++ [t] = _
    rw [List.erase_of_not_mem hnot]
  have hkeyboard := Placed.seq_wake (by simp) hcons
  have hblocked : ∀ i, (m.updateProcessState t (some .readyqueue)).seq (.blockedQueue i) =
      m.seq (.blockedQueue i) := fun i => (h.placed.queues_wake ht (by simp) (by simp)).1
  have hcurrent' : (m.updateProcessState t (some .readyqueue)).isReading m.current = false :=
    (hsame.reading _).trans hcurrent
  constructor
  . intro _ _
    rw [readers_of_not_reading hcurrent']
    unfold Model.switching
    rw [hsame.readers, hready, hkeyboard]
    unfold Kernel.readers
    rw [List.filter_append, List.filter_cons_of_pos (hk.waiting t ht), List.filter_nil,
      List.map_append]
    rfl
  . constructor
    . intro u hu
      rw [hkeyboard] at hu
      apply (hsame.reading u).trans
      apply hk.waiting u
      rw [hcons]
      exact List.mem_cons_of_mem _ hu
    . intro i u hu
      rw [hblocked] at hu
      exact (hsame.reading u).trans (hk.blocked i u hu)
  . intro _ hreading
    cases hcurrent'.symm.trans hreading

theorem keyboardRutine (h : Settled m live) (hk : ReadersKnown m)
    (hcurrent : m.isReading m.current = false) (entrada beyond : Byte)
    : ReadersTo m (m.keyboardRutine entrada beyond)
        (if entrada >>> 7 = 0 then
          m.switching.press (charMap.getD (entrada &&& 0x7f).toNat beyond)
        else m.switching) := by
  split
  next hmake =>
    let m₁ := m.mapKernel (Kernel.keyPressed entrada beyond)
    have hkey : Settled m₁ live := h.keyPressed entrada beyond
    have hknown : ReadersKnown m₁ := ⟨hk.waiting, hk.blocked⟩
    have hcurrent₁ : m₁.isReading m₁.current = false := hcurrent
    have hpress : ReadersTo m m₁ m₁.switching := by
      constructor
      . exact fun _ _ => readers_of_not_reading hcurrent₁
      . exact hknown
      . intro hkernel _
        exact hkernel
    have hwaiting : m₁.switching.waiting = (m₁.seq .keyboardqueue).map m₁.reader := rfl
    show ReadersTo m _ m₁.switching.wake
    unfold Readers.wake
    rw [hwaiting]
    cases hcons : m₁.seq .keyboardqueue with
    | nil =>
      rw [keyboardRutine_of_nil hmake hcons]
      exact hpress
    | cons t ts =>
      rw [keyboardRutine_of_cons hmake hcons, List.map_cons]
      show ReadersTo m (if m₁.switching.buff.cirBuffFull ≠ 0 ∨
        m₁.switching.Enough (m₁.reader t) then _ else m₁) _
      dsimp only
      split
      next =>
        have hwoken := wake hkey hknown hcurrent₁ hcons
        exact ⟨fun hfault => hwoken.readers ⟨hfault.stops, hfault.null⟩, hwoken.known, hwoken.user⟩
      next => exact hpress
  next hbreak =>
    rw [keyboardRutine_of_break hbreak]
    exact (Overlooked.of_unnoticed (.refl hk) hcurrent).readersTo

theorem goesOn (h : Settled m live) (hk : ReadersKnown m) (hcurrent : m.isReading m.current = false)
    {k : Kernel} (hcont : k.cont = m.cont) (hreader : ∀ t, k.reader t = m.reader t)
    (hbuff : k.keyboardBuff = m.keyboardBuff) (hstopped : k.stopped = m.stopped)
    (hcur : k.current = m.current) : ReadersTo m { m with toKernel := k } m.switching := by
  have hreading : ∀ t, k.isReading t = m.isReading t := by
    intro t
    unfold Kernel.isReading
    rw [hcont]
  have hcurrent' : k.isReading k.current = false := by
    rw [hreading, hcur]
    exact hcurrent
  obtain ⟨hswitching, hknown⟩ := switching_of_unlinked hk (fun q _ => h.current_not_mem q)
    (fun t _ => hreading t) (fun t _ => hreader t)
  rw [hbuff, hstopped] at hswitching
  constructor
  . exact fun _ _ => (readers_of_not_reading hcurrent').trans hswitching
  . exact hknown
  . intro _ hnot
    cases hcurrent'.symm.trans hnot

theorem resume (h : Settled m live) (hk : ReadersKnown m)
    : ReadersTo m m.resume (m.readers.resume m.current) := by
  by_cases hreading : m.isReading m.current = true
  . have hbody : ∃ buff, m.resume = m.readKeyboardBody buff ∧ m.current ≠ m.idleTask := by
      unfold Kernel.isReading at hreading
      cases hcont : m.cont m.current with
      | readKeyboard buff =>
        refine ⟨buff, ?_, ?_⟩
        . unfold Model.resume
          rw [hcont]
        . intro heq
          rw [heq] at hcont
          exact h.placed.idle_not_reading buff hcont
      | _ =>
        rw [hcont] at hreading
        cases hreading
    obtain ⟨buff, hresume, hidle⟩ := hbody
    have hattend : m.readers.resume m.current =
        if m.switching.Hands (m.reader m.current) then m.readers.stop
        else m.switching.attend (m.reader m.current) := by
      rw [readers_of_reading hreading]
      exact if_pos rfl
    rw [hresume, hattend]
    exact readKeyboardBody h hk hidle buff
  . have hcurrent : m.isReading m.current = false := by simpa using hreading
    have hother : m.readers.resume m.current = m.switching := by
      rw [readers_of_not_reading hcurrent]
      unfold Readers.resume
      split
      next => rfl
      next a rest hcons =>
        have hmem : a ∈ m.switching.pending := by
          rw [hcons]
          exact List.mem_cons_self
        obtain ⟨t, ht, rfl⟩ := List.mem_map.mp hmem
        rw [if_neg]
        intro heq
        apply h.current_not_mem .readyqueue
        rw [← heq]
        exact List.mem_of_mem_filter ht
    rw [hother]
    unfold Model.resume
    split
    next =>
      apply goesOn h hk hcurrent
      . rfl
      . intro t
        unfold Kernel.reader
        simp
      all_goals rfl
    next => exact goesOn h hk hcurrent rfl (fun _ => rfl) rfl rfl rfl
    next => exact ret h hk _
    next buff hcont =>
      unfold Kernel.isReading at hcurrent
      rw [hcont] at hcurrent
      cases hcurrent

theorem routine (h : Settled m live) (hk : ReadersKnown m) {event : Event}
    (hcurrent : event ≠ .resume → m.isReading m.current = false)
    (hidle : event.OfProcess → m.current ≠ m.idleTask) (hm' : Model.routine event m = some m')
    : ReadersTo m m' (m.readers.after event m.current) := by
  have hsame : ∀ event' ≠ Event.resume, event = event' → m.readers = m.switching := by
    rintro _ hne rfl
    exact readers_of_not_reading (hcurrent hne)
  cases event with
  | fork =>
    obtain ⟨x, hx, rfl⟩ := Option.map_eq_some_iff.mp hm'
    rw [hsame .fork (by simp) rfl]
    exact (Overlooked.result (hcurrent (by simp)) (.fork h hk hx)).readersTo
  | clone function stack =>
    cases hm'
    rw [hsame (.clone function stack) (by simp) rfl]
    exact (Overlooked.result (hcurrent (by simp)) (.clone h hk function stack)).readersTo
  | exit =>
    cases hm'
    rw [hsame .exit (by simp) rfl]
    exact (Overlooked.exit h hk (hidle (by simp [Event.OfProcess])) (hcurrent (by simp))).readersTo
  | semInit nSem value =>
    obtain ⟨x, hx, rfl⟩ := Option.map_eq_some_iff.mp hm'
    rw [hsame (.semInit nSem value) (by simp) rfl]
    exact (Overlooked.result (hcurrent (by simp)) (.semInit hk hx)).readersTo
  | semWait nSem =>
    cases hm'
    rw [hsame (.semWait nSem) (by simp) rfl]
    exact (Overlooked.semWait h hk (hidle (by simp [Event.OfProcess])) (hcurrent (by simp))
      nSem).readersTo
  | semSignal nSem =>
    cases hm'
    rw [hsame (.semSignal nSem) (by simp) rfl]
    exact (Overlooked.result (hcurrent (by simp)) (.semSignal hk nSem)).readersTo
  | semDestroy nSem =>
    cases hm'
    rw [hsame (.semDestroy nSem) (by simp) rfl]
    exact (Overlooked.result (hcurrent (by simp)) (.semDestroy hk nSem)).readersTo
  | read fd buf count =>
    cases hm'
    rw [hsame (.read fd buf count) (by simp) rfl]
    exact read h hk (hidle (by simp [Event.OfProcess])) (hcurrent (by simp)) fd buf count
  | sbrk incr =>
    cases hm'
    rw [hsame (.sbrk incr) (by simp) rfl]
    have hsbrk : Unnoticed m { m with toKernel := (m.sysSbrk incr).2 } := by
      obtain ⟨task, mm, cr3, heq, htask⟩ := Kernel.sysSbrk_eq incr m.toKernel
      rw [heq]
      apply Unnoticed.sameReading hk
      apply SameReading.of_task
      . intro t
        obtain ⟨b, hb⟩ := htask t
        have hrequired := congrArg TaskStruct.requiredKeys hb
        exact hrequired
      . intro t
        obtain ⟨b, hb⟩ := htask t
        have hgot := congrArg TaskStruct.readKeys hb
        exact hgot
      all_goals rfl
    exact (Overlooked.result (x := ((m.sysSbrk incr).1, { m with toKernel := (m.sysSbrk incr).2 }))
      (hcurrent (by simp)) hsbrk).readersTo
  | clock =>
    cases hm'
    rw [hsame .clock (by simp) rfl]
    exact (Overlooked.clockRutine h hk (hcurrent (by simp))).readersTo
  | keyboard entrada beyond =>
    cases hm'
    rw [hsame (.keyboard entrada beyond) (by simp) rfl]
    exact keyboardRutine h hk (hcurrent (by simp)) entrada beyond
  | store a v =>
    obtain ⟨k, hk', rfl⟩ := Option.map_eq_some_iff.mp hm'
    obtain ⟨mm, rfl⟩ := Kernel.userStore_eq_some hk'
    rw [hsame (.store a v) (by simp) rfl]
    exact goesOn h hk (hcurrent (by simp)) rfl (fun _ => rfl) rfl rfl rfl
  | resume =>
    cases hm'
    exact resume h hk

end ReadersTo

/--
What the keyboard relies on between two steps: nobody reads in user mode.
-/
structure AtKeyboard (m : Model) : Prop where
  known : ReadersKnown m
  inside : m.isReading m.current = true → m.inKernel = true

namespace AtKeyboard

theorem not_reading_of_entry {k k' : Kernel} {i : Input} (hk : k.entry i = some k')
    (hinside : k.isReading k.current = true → k.inKernel = true) (hne : i.event ≠ .resume)
    : k.isReading k.current = false := by
  by_contra hreading
  have hkernel := hinside (by simpa using hreading)
  rw [Kernel.inKernel_of_entry hk hne] at hkernel
  cases hkernel

theorem isReading_of_entry {k k' : Kernel} {i : Input} (hk : k.entry i = some k')
    (hinside : k.isReading k.current = true → k.inKernel = true) (t : Slot)
    : k'.isReading t = k.isReading t := by
  have hcurrent := not_reading_of_entry hk hinside
  obtain ⟨-, hk⟩ := Kernel.entry_eq_some.mp hk
  obtain ⟨event, readings⟩ := i
  cases event with
  | clock =>
    obtain ⟨-, ⟨⟩⟩ := Option.ite_none_left_eq_some.mp hk
    have hsame := (SameReading.setCont (k := k) (hcurrent (by simp)) (c := .user) rfl).reading t
    exact hsame
  | keyboard entrada beyond =>
    obtain ⟨-, ⟨⟩⟩ := Option.ite_none_left_eq_some.mp hk
    have hsame := (SameReading.setCont (k := k) (hcurrent (by simp)) (c := .user) rfl).reading t
    exact hsame
  | resume =>
    obtain ⟨-, ⟨⟩⟩ := Option.ite_none_right_eq_some.mp hk
    rfl
  | _ =>
    obtain ⟨-, ⟨⟩⟩ := Option.ite_none_left_eq_some.mp hk
    rfl

theorem inKernel_entry {k k' : Kernel} {i : Input} (hk : k.entry i = some k')
    (hstore : ∀ a v, i.event ≠ .store a v) : k'.inKernel = true := by
  obtain ⟨-, hk⟩ := Kernel.entry_eq_some.mp hk
  obtain ⟨event, readings⟩ := i
  cases event with
  | store a v => exact absurd rfl (hstore a v)
  | resume =>
    obtain ⟨hkernel, ⟨⟩⟩ := Option.ite_none_right_eq_some.mp hk
    exact hkernel
  | _ =>
    obtain ⟨-, ⟨⟩⟩ := Option.ite_none_left_eq_some.mp hk
    rfl

theorem step (h : Settled m live) (hk : AtKeyboard m) {i : Input} (hstep : m.step i = some m')
    : (m.KeysFault → m'.readers = m.readers.after i.event m.current) ∧ AtKeyboard m' := by
  obtain ⟨k, hentry, hm'⟩ := step_eq_some hstep
  have hentered := Kernel.entered_of_entry hentry
  have hreading := isReading_of_entry hentry hk.inside
  have hreader : k.reader = m.reader := by
    funext t
    obtain ⟨_, ht⟩ := hentered.task t
    unfold Kernel.reader
    rw [ht]
  have hreaders : ({ m with toKernel := k } : Model).readers = m.readers := by
    show k.readers (k.current :: m.seq .readyqueue) (m.seq .keyboardqueue) = _
    unfold Model.readers Kernel.readers
    rw [hentered.current, hentered.keyboardBuff, hentered.stopped, hreader, funext hreading]
  have hknown : ReadersKnown { m with toKernel := k } := by
    constructor
    . intro t ht
      exact (hreading t).trans (hk.known.waiting t ht)
    . intro i t ht
      exact (hreading t).trans (hk.known.blocked i t ht)
  have hcurrent : i.event ≠ .resume → k.isReading k.current = false := by
    intro hne
    rw [hentered.current, hreading]
    exact not_reading_of_entry hentry hk.inside hne
  have hto := ReadersTo.routine (h.entry hentry) hknown hcurrent (idle_of_entry hentry) hm'
  constructor
  . intro hfault
    have hrun := hentered.stopped.trans (Kernel.entry_eq_some.mp hentry).1
    rw [hto.readers (hfault.undelivered (.of_undisturbed (.entered hentry))) hrun, hreaders, hentered.current]
  . refine ⟨hto.known, ?_⟩
    intro hnot
    by_cases hstore : ∃ a v, i.event = .store a v
    . obtain ⟨a, v, hstore⟩ := hstore
      rw [hstore] at hm'
      obtain ⟨k', hk', rfl⟩ := Option.map_eq_some_iff.mp hm'
      obtain ⟨mm, rfl⟩ := Kernel.userStore_eq_some hk'
      cases (hcurrent (by simp [hstore])).symm.trans hnot
    . have hinside := inKernel_entry hentry (by simpa using hstore)
      exact hto.user hinside hnot

theorem boot (frames : Nat → Nat → Byte) : AtKeyboard (.boot frames) := by
  constructor
  . constructor
    . intro t ht
      rw [seq_boot, if_neg (by simp)] at ht
      cases ht
    . intro i t ht
      rw [seq_boot, if_neg (by simp)] at ht
      cases ht
  . intro hreading
    cases hreading

end AtKeyboard

theorem readers_boot (frames : Nat → Nat → Byte)
    : (Model.boot frames).readers =
        { pending := [], waiting := [], buff := .zero, stopped := false } := by
  rfl

end Keyboard

structure Reading (x : Sys × Finset Slot) (m : Model) : Prop where
  follows : Follows x m
  atKeyboard : AtKeyboard m
  fault : m.KeysFault

namespace Reading

variable {x y : Sys × Finset Slot} {m : Model}

theorem readers_eq (h : Reading x m) : x.1.readers = m.readers := by
  have hplaced := h.follows.settled.placed
  have hrefines := h.follows.refines
  unfold Sys.readers Model.readers
  rw [hrefines.members_eq hplaced.ready, hrefines.members_eq hplaced.keyboard, hrefines.kernel]

theorem step (h : Reading x m) {i : Input} (hsound : Sys.TakesSound i x)
    (hstep : Sys.stepLive i x = some y)
    : y.1.readers = x.1.readers.after i.event x.1.current ∧
        ∃ m', m.step i = some m' ∧ Reading y m' := by
  obtain ⟨m', hm', hfollows⟩ := h.follows.step hsound hstep
  obtain ⟨hreaders, hkeyboard⟩ := h.atKeyboard.step h.follows.settled hm'
  have hkernel : x.1.toKernel = m.toKernel := h.follows.refines.kernel
  have hkernel' : y.1.toKernel = m'.toKernel := hfollows.refines.kernel
  have hfault : m'.KeysFault := by
    obtain ⟨hrun, -⟩ := Run.ghost_eq_some.mp hstep
    have hkept := Sys.undelivered_step (hkernel ▸ h.fault) hrun
    rw [hkernel, hkernel'] at hkept
    exact h.fault.undelivered hkept
  have hy : Reading y m' := ⟨hfollows, hkeyboard, hfault⟩
  refine ⟨?_, m', hm', hy⟩
  rw [hy.readers_eq, h.readers_eq, hreaders h.fault, h.follows.refines.kernel]

theorem current_not_waiting (h : Reading x m) : m.current ∉ m.readers.waiting.map Reader.task := by
  intro hmem
  obtain ⟨a, ha, htask⟩ := List.mem_map.mp hmem
  obtain ⟨t, ht, rfl⟩ := List.mem_map.mp ha
  have htask : t = m.current := htask
  apply h.follows.settled.current_not_mem .keyboardqueue
  rw [← htask]
  exact ht

theorem not_mem_tasks (h : Reading x m) (hcurrent : m.isReading m.current = false)
    : m.current ∉ m.readers.tasks := by
  rw [readers_of_not_reading hcurrent]
  unfold Readers.tasks Model.switching Kernel.readers
  intro hmem
  rcases List.mem_append.mp (List.map_append ▸ hmem) with hmem | hmem
  . obtain ⟨a, ha, htask⟩ := List.mem_map.mp hmem
    obtain ⟨t, ht, rfl⟩ := List.mem_map.mp ha
    have htask : t = m.current := htask
    apply h.follows.settled.current_not_mem .readyqueue
    rw [← htask]
    exact List.mem_of_mem_filter ht
  . exact h.current_not_waiting hmem

theorem boot {frames : Nat → Nat → Byte} {s : Sys} (hs : Zeos.boot frames = some s)
    : Reading (s, liveBoot) (.boot frames) :=
  ⟨.boot hs, .boot frames, keysFault_boot frames⟩

end Reading

end Zeos
