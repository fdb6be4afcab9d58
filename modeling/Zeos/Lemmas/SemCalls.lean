import Zeos.Spec.SemCalls
import Zeos.Lemmas.Drain
import Zeos.Lemmas.Readers

/-!
The calls of `sys_sem_wait` that block: each of them comes back with the result that fits its end, and
none of them is lost with its entry.
-/

namespace Zeos

open Model

section Inside

variable {m m' : Model}

theorem inside_fork {x : Int × Model} (hfork : m.fork = some x)
    : x.2.current = m.current ∧ x.2.inKernel = m.inKernel := by
  unfold Model.fork at hfork
  split at hfork
  next =>
    cases hfork
    exact ⟨rfl, rfl⟩
  next =>
    dsimp only at hfork
    split at hfork
    next =>
      cases hfork
      exact ⟨rfl, rfl⟩
    next k hk =>
      obtain ⟨⟨enough, k'⟩, hpages, rfl⟩ := Option.map_eq_some_iff.mp hfork
      obtain ⟨d, -, rfl⟩ := Kernel.allocateDIR_eq_some hk
      obtain ⟨mm, rfl⟩ := Kernel.inheritPages_eq_some hpages
      dsimp only
      split
      next => exact ⟨rfl, rfl⟩
      next => exact ⟨rfl, rfl⟩

theorem inside_clone (function stack : Addr)
    : (m.clone function stack).2.current = m.current ∧
        (m.clone function stack).2.inKernel = m.inKernel := by
  unfold Model.clone
  split
  next => exact ⟨rfl, rfl⟩
  next =>
    split
    next => exact ⟨rfl, rfl⟩
    next => exact ⟨rfl, rfl⟩

theorem inKernel_schedNext : m.schedNext.inKernel = m.inKernel := by
  unfold Model.schedNext
  split
  next => rfl
  next => rfl

theorem inKernel_readKeyboardBody (buff : Addr) : (m.readKeyboardBody buff).inKernel = m.inKernel := by
  unfold Model.readKeyboardBody Model.waitKeyboard
  dsimp only
  split
  next =>
    obtain ⟨mm, keyboardBuff, copies, stopped, heq⟩ :=
      m.readKeysLoop_eq (m.task m.current).requiredKeys.toNat buff
    rw [heq]
    split
    next => rfl
    next => rfl
  next =>
    split
    next =>
      obtain ⟨mm, keyboardBuff, copies, stopped, heq⟩ := m.readKeysLoop_eq cirBufferSize buff
      rw [heq]
      split
      next => rfl
      next =>
        rw [inKernel_schedNext]
        rfl
    next =>
      rw [inKernel_schedNext]
      rfl

theorem inKernel_schedule : m.schedule.inKernel = m.inKernel := by
  have hneeds : ∀ m : Model, m.needsSched.2.inKernel = m.inKernel := by
    intro m
    unfold Model.needsSched
    split
    next => rfl
    next =>
      split
      next => rfl
      next => rfl
  unfold Model.schedule
  dsimp only
  split
  next =>
    rw [inKernel_schedNext]
    exact hneeds _
  next => exact hneeds _

theorem inKernel_semInit {n : Int} {value : BitVec 32} {x : Int × Model}
    (hinit : m.semInit n value = some x) : x.2.inKernel = m.inKernel := by
  unfold Model.semInit at hinit
  split at hinit
  next =>
    cases hinit
    rfl
  next =>
    obtain ⟨i, -, rfl⟩ := Option.map_eq_some_iff.mp hinit
    rfl

theorem inKernel_semWait (n : Int) : (m.semWait n).inKernel = m.inKernel := by
  unfold Model.semWait
  split
  next => rfl
  next =>
    dsimp only
    split
    next =>
      rw [inKernel_schedNext]
      rfl
    next => rfl

theorem inKernel_semSignal (n : Int) : (m.semSignal n).2.inKernel = m.inKernel := by
  unfold Model.semSignal
  split
  next => rfl
  next =>
    split
    next => rfl
    next => rfl

theorem inKernel_semDestroy (n : Int) : (m.semDestroy n).2.inKernel = m.inKernel := by
  unfold Model.semDestroy
  split
  next => rfl
  next =>
    split
    next => rfl
    next => exact (unblock_cont _ _).2

theorem inKernel_read (fd : Int) (buf : Addr) (count : Int)
    : (m.read fd buf count).inKernel = m.inKernel := by
  rcases m.read_cases fd buf count with ⟨r, heq⟩ | heq | heq
  . rw [heq]
    rfl
  . rw [heq, inKernel_schedNext]
    rfl
  . rw [heq, inKernel_readKeyboardBody]
    rfl

theorem inKernel_keyboardRutine (entrada beyond : Byte)
    : (m.keyboardRutine entrada beyond).inKernel = m.inKernel := by
  unfold Model.keyboardRutine
  split
  next =>
    dsimp only
    split
    next => rfl
    next =>
      split
      next => rfl
      next => rfl
  next => rfl

theorem inKernel_routine {event : Event} (hexit : event ≠ .exit) (hresume : event ≠ .resume)
    (hm' : Model.routine event m = some m') : m'.inKernel = m.inKernel := by
  cases event with
  | fork =>
    obtain ⟨x, hx, rfl⟩ := Option.map_eq_some_iff.mp hm'
    exact (inside_fork hx).2
  | clone function stack =>
    cases hm'
    exact (inside_clone function stack).2
  | exit => exact absurd rfl hexit
  | semInit n value =>
    obtain ⟨x, hx, rfl⟩ := Option.map_eq_some_iff.mp hm'
    exact inKernel_semInit hx
  | semWait n =>
    cases hm'
    exact inKernel_semWait n
  | semSignal n =>
    cases hm'
    exact inKernel_semSignal n
  | semDestroy n =>
    cases hm'
    exact inKernel_semDestroy n
  | read fd buf count =>
    cases hm'
    exact inKernel_read fd buf count
  | sbrk incr =>
    cases hm'
    obtain ⟨task, mm, cr3, heq, -⟩ := Kernel.sysSbrk_eq incr m.toKernel
    show (m.sysSbrk incr).2.inKernel = _
    rw [heq]
  | clock =>
    cases hm'
    exact inKernel_schedule
  | keyboard entrada beyond =>
    cases hm'
    exact inKernel_keyboardRutine entrada beyond
  | store a v =>
    obtain ⟨k, hk, rfl⟩ := Option.map_eq_some_iff.mp hm'
    obtain ⟨mm, rfl⟩ := Kernel.userStore_eq_some hk
    rfl
  | resume => exact absurd rfl hresume

end Inside

structure SameWaits (k k' : Kernel) : Prop where
  cont : ∀ t, k'.cont t = .semWait ↔ k.cont t = .semWait
  semRet : ∀ t, k.cont t = .semWait → (k'.task t).semRet = (k.task t).semRet

namespace SameWaits

variable {k k' k'' : Kernel} {m m' : Model} {t : Slot} {c : Cont}

theorem refl (k : Kernel) : SameWaits k k :=
  ⟨fun _ => Iff.rfl, fun _ _ => rfl⟩

theorem trans (h : SameWaits k k') (h' : SameWaits k' k'') : SameWaits k k'' where
  cont t := (h'.cont t).trans (h.cont t)
  semRet t ht := (h'.semRet t ((h.cont t).mpr ht)).trans (h.semRet t ht)

theorem of_task (hcont : k'.cont = k.cont) (htask : ∀ t, (k'.task t).semRet = (k.task t).semRet)
    : SameWaits k k' where
  cont t := by rw [hcont]
  semRet t _ := htask t

theorem setTask {f : TaskStruct → TaskStruct}
    (hf : k.cont t = .semWait → (f (k.task t)).semRet = (k.task t).semRet)
    : SameWaits k (k.setTask t f) where
  cont _ := Iff.rfl
  semRet u hu := by
    rw [Kernel.setTask_task]
    split
    next heq =>
      rw [heq] at hu ⊢
      exact hf hu
    next => rfl

theorem setCont (ht : k.cont t ≠ .semWait) (hc : c ≠ .semWait) : SameWaits k (k.setCont t c) where
  cont u := by
    rw [Kernel.setCont_cont]
    split
    next heq =>
      rw [heq]
      exact ⟨fun h => absurd h hc, fun h => absurd h ht⟩
    next => exact Iff.rfl
  semRet _ _ := rfl

theorem setSem {i : SemIx} {f : Semaphore → Semaphore} : SameWaits k (k.setSem i f) :=
  of_task rfl fun _ => rfl

theorem of_rescheduled (h : Rescheduled k k') : SameWaits k k' := by
  apply of_task h.cont
  intro t
  obtain ⟨_, _, ht⟩ := h.task t
  rw [ht]

theorem setEax (r : Int) : SameWaits k (k.setEax t r) :=
  of_task rfl fun _ => rfl

theorem ret (hcurrent : m.cont m.current ≠ .semWait) (r : Int)
    : SameWaits m.toKernel (m.ret r).toKernel :=
  (setEax r).trans (setCont (c := .user) hcurrent (by simp))

section Fork

theorem takeCopy (ht : m.cont t ≠ .semWait) : SameWaits m.toKernel (m.takeCopy t).toKernel := by
  have hcopied : SameWaits m.toKernel (m.setTask t fun _ => m.task m.current) :=
    setTask fun h => absurd h ht
  exact hcopied.trans (setEax _)

theorem makeReady (t : Slot) : SameWaits m.toKernel (makeReady t m).2.toKernel := by
  apply of_task
  . rfl
  . intro u
    show ((m.newProcess t).task u).semRet = _
    rw [Kernel.newProcess_task]
    split
    next heq => rw [heq]
    next => rfl

theorem fork (hfree : ∀ t ∈ m.seq .freequeue, m.cont t ≠ .semWait) {x : Int × Model}
    (hfork : m.fork = some x) : SameWaits m.toKernel x.2.toKernel := by
  unfold Model.fork at hfork
  split at hfork
  next =>
    cases hfork
    exact refl _
  next new rest hcons =>
    have hnew := hfree new (by simp [hcons])
    have hcopied := takeCopy hnew
    dsimp only at hfork
    split at hfork
    next =>
      cases hfork
      exact hcopied
    next k hk =>
      obtain ⟨⟨enough, k'⟩, hpages, rfl⟩ := Option.map_eq_some_iff.mp hfork
      have hpaged : SameWaits (m.takeCopy new).toKernel k' := by
        obtain ⟨d, -, rfl⟩ := Kernel.allocateDIR_eq_some hk
        obtain ⟨mm, rfl⟩ := Kernel.inheritPages_eq_some hpages
        apply of_task
        . rfl
        . intro u
          simp only [Kernel.setRefs_task, Kernel.setTask_task]
          split
          next heq => rw [heq]
          next => rfl
      have hpaged := hcopied.trans hpaged
      dsimp only
      split
      next =>
        have hcontext : SameWaits k' (k'.forkContext new) := by
          have hloaded : SameWaits k' ({ k' with cr3 := k'.getDIR k'.current }.setEax new 0) :=
            of_task rfl fun _ => rfl
          apply hloaded.trans
          exact setCont (c := .user) (fun h => hnew ((hpaged.cont new).mp h)) (by simp)
        apply (hpaged.trans hcontext).trans
        exact makeReady (m := ({ m.takeCopy new with toKernel := k' } : Model).mapKernel
          (Kernel.forkContext new)) new
      next => exact hpaged

theorem clone (hfree : ∀ t ∈ m.seq .freequeue, m.cont t ≠ .semWait) (function stack : Addr)
    : SameWaits m.toKernel (m.clone function stack).2.toKernel := by
  unfold Model.clone
  split
  next => exact refl _
  next =>
    split
    next => exact refl _
    next new rest hcons =>
      have hnew := hfree new (by simp [hcons])
      have hcopied := takeCopy hnew
      have hcontext : SameWaits (m.takeCopy new).toKernel
          ((m.takeCopy new).mapKernel (Kernel.cloneContext new)).toKernel := by
        have hshared : SameWaits (m.takeCopy new).toKernel ((m.takeCopy new).setRefs
            ((m.takeCopy new).getDIRPosition m.current)
            ((m.takeCopy new).refsDIR ((m.takeCopy new).getDIRPosition m.current) + 1)) :=
          of_task rfl fun _ => rfl
        exact hshared.trans (setCont (c := .user) hnew (by simp))
      exact (hcopied.trans hcontext).trans (makeReady new)

end Fork

section Keyboard

variable {live : Finset Slot}

theorem schedNext : SameWaits m.toKernel m.schedNext.toKernel :=
  of_rescheduled .schedNext

theorem waitKeyboard (hcurrent : m.cont m.current ≠ .semWait) (buff : Addr)
    : SameWaits m.toKernel (m.waitKeyboard buff).toKernel := by
  have hblocked : SameWaits m.toKernel (m.blockReading buff) := by
    unfold Kernel.blockReading
    have hestado : SameWaits m.toKernel
        (m.setTask m.current fun ts => { ts with estado := .stBlocked }) :=
      setTask fun _ => rfl
    exact hestado.trans (setCont hcurrent (by simp))
  apply hblocked.trans
  exact schedNext (m := (m.mapQueues (Queues.push m.current .keyboardqueue)).mapKernel
    (Kernel.blockReading buff))

theorem readKeysLoop (n : Nat) (buff : Addr) : SameWaits k (k.readKeysLoop n buff).2 := by
  obtain ⟨mm, keyboardBuff, copies, stopped, heq⟩ := Kernel.readKeysLoop_eq n buff k
  rw [heq]
  exact of_task rfl fun _ => rfl

theorem readKeys (hcurrent : k.cont k.current ≠ .semWait) (n : Nat) (buff : Addr) (r : Int)
    : let k' := (k.readKeysLoop n buff).2.addReadKeys r
      SameWaits k k' ∧ k'.cont k'.current ≠ .semWait := by
  obtain ⟨mm, keyboardBuff, copies, stopped, heq⟩ := Kernel.readKeysLoop_eq n buff k
  dsimp only
  rw [heq]
  refine ⟨?_, hcurrent⟩
  apply of_task
  . rfl
  . intro t
    rw [Kernel.addReadKeys_task]
    split
    next h => rw [h]
    next => rfl

theorem readKeyboardBody (hcurrent : m.cont m.current ≠ .semWait) (buff : Addr)
    : SameWaits m.toKernel (m.readKeyboardBody buff).toKernel := by
  unfold Model.readKeyboardBody
  dsimp only
  split
  next =>
    split
    next => exact readKeysLoop _ buff
    next =>
      obtain ⟨hread, hcurrent'⟩ := readKeys hcurrent (m.task m.current).requiredKeys.toNat buff
        ((m.task m.current).requiredKeys - (m.task m.current).readKeys)
      exact hread.trans (ret (m := { m with toKernel := _ }) hcurrent' _)
  next =>
    split
    next =>
      split
      next => exact readKeysLoop _ buff
      next =>
        obtain ⟨hread, hcurrent'⟩ := readKeys hcurrent cirBufferSize buff cirBufferSize
        exact hread.trans (waitKeyboard (m := { m with toKernel := _ }) hcurrent' _)
    next => exact waitKeyboard hcurrent buff

theorem read (hcurrent : m.cont m.current ≠ .semWait) (fd : Int) (buf : Addr) (count : Int)
    : SameWaits m.toKernel (m.read fd buf count).toKernel := by
  have hrequired : SameWaits m.toKernel (m.requireKeys count) := setTask fun _ => rfl
  rcases m.read_cases fd buf count with ⟨r, heq⟩ | heq | heq
  . rw [heq]
    exact ret hcurrent r
  . rw [heq]
    apply hrequired.trans
    let moved := (m.mapKernel (Kernel.requireKeys count)).updateProcessState m.current
      (some .keyboardqueue)
    have hmoved : SameWaits (m.requireKeys count) moved.toKernel :=
      of_rescheduled (Rescheduled.updateProcessState (m := m.mapKernel (Kernel.requireKeys count)) _ _)
    have hreading : SameWaits moved.toKernel (moved.setCont moved.current (.readKeyboard buf)) :=
      setCont hcurrent (by simp)
    apply (hmoved.trans hreading).trans
    exact schedNext (m := moved.mapKernel fun k => k.setCont k.current (.readKeyboard buf))
  . rw [heq]
    exact hrequired.trans (readKeyboardBody (m := m.mapKernel (Kernel.requireKeys count)) hcurrent buf)

theorem keyboardRutine (entrada beyond : Byte)
    : SameWaits m.toKernel (m.keyboardRutine entrada beyond).toKernel := by
  have hpressed : SameWaits m.toKernel (m.mapKernel (Kernel.keyPressed entrada beyond)).toKernel :=
    of_task rfl fun _ => rfl
  unfold Model.keyboardRutine
  split
  next =>
    dsimp only
    split
    next => exact hpressed
    next ts _ _ =>
      split
      next => exact hpressed.trans (of_rescheduled (.updateProcessState ts (some .readyqueue)))
      next => exact hpressed
  next => exact refl _

theorem sbrk (incr : Int) : SameWaits k (k.sysSbrk incr).2 := by
  obtain ⟨task, mm, cr3, heq, htask⟩ := Kernel.sysSbrk_eq incr k
  rw [heq]
  apply of_task
  . rfl
  . intro t
    obtain ⟨b, hb⟩ := htask t
    have hsame := congrArg TaskStruct.semRet hb
    exact hsame

end Keyboard

theorem routine {event : Event} (hfree : ∀ t ∈ m.seq .freequeue, m.cont t ≠ .semWait)
    (hcurrent : m.cont m.current ≠ .semWait) (hevent : ¬event.ChangesTable)
    (hm' : Model.routine event m = some m') : SameWaits m.toKernel m'.toKernel := by
  have hret : ∀ x : Int × Model, SameWaits m.toKernel x.2.toKernel → x.2.current = m.current →
      SameWaits m.toKernel (Model.result x).toKernel := by
    intro x hx hsame
    apply hx.trans (ret _ _)
    rw [hsame]
    exact fun h => hcurrent ((hx.cont _).mp h)
  cases event with
  | fork =>
    obtain ⟨x, hx, rfl⟩ := Option.map_eq_some_iff.mp hm'
    exact hret x (fork hfree hx) (inside_fork hx).1
  | clone function stack =>
    cases hm'
    exact hret _ (clone hfree function stack) (inside_clone function stack).1
  | exit => exact absurd (.inl rfl) hevent
  | semInit n value => exact absurd (.inr (.inl ⟨n, value, rfl⟩)) hevent
  | semWait n => exact absurd (.inr (.inr (.inl ⟨n, rfl⟩))) hevent
  | semSignal n => exact absurd (.inr (.inr (.inr (.inl ⟨n, rfl⟩)))) hevent
  | semDestroy n => exact absurd (.inr (.inr (.inr (.inr ⟨n, rfl⟩)))) hevent
  | read fd buf count =>
    cases hm'
    exact read hcurrent fd buf count
  | sbrk incr =>
    cases hm'
    apply hret ((m.sysSbrk incr).1, { m with toKernel := (m.sysSbrk incr).2 }) (sbrk incr)
    obtain ⟨task, mm, cr3, heq, -⟩ := Kernel.sysSbrk_eq incr m.toKernel
    show (m.sysSbrk incr).2.current = _
    rw [heq]
  | clock =>
    cases hm'
    exact of_rescheduled .clockRutine
  | keyboard entrada beyond =>
    cases hm'
    exact keyboardRutine entrada beyond
  | store a v =>
    obtain ⟨k, hk, rfl⟩ := Option.map_eq_some_iff.mp hm'
    obtain ⟨mm, rfl⟩ := Kernel.userStore_eq_some hk
    exact of_task rfl fun _ => rfl
  | resume =>
    cases hm'
    unfold Model.resume
    split
    next =>
      apply of_task
      . rfl
      . intro t
        exact apply_ite TaskStruct.semRet _ _ _ |>.trans (by simp)
    next => exact of_task rfl fun _ => rfl
    next hcont => exact absurd hcont hcurrent
    next buff _ => exact readKeyboardBody hcurrent buff

end SameWaits

structure OnRecord (m : Model) (live : Finset Slot) (x : SemCalls) : Prop where
  right : ∀ a ∈ x.answers, a.Right
  recorded : ∀ t, m.cont t = .semWait ↔ x.calls t ≠ none
  live : ∀ t, m.cont t = .semWait → t ∈ live
  order : ∀ i, (m.semaphores i).state = .usedSem → m.seq (.blockedQueue i) = x.queue i
  waiting : ∀ t on, x.calls t = some { on := on, release := none } →
    (m.semaphores on.entry).state = .usedSem ∧ x.current on.entry = on ∧ t ∈ x.queue on.entry ∧
      (m.task t).semRet = 0
  blocked : ∀ i, (m.semaphores i).state = .usedSem → ∀ t ∈ x.queue i,
    x.calls t = some { on := x.current i, release := none }
  released : ∀ t on outcome on', x.calls t = some { on := on, release := some (outcome, on') } →
    on' = on ∧ (m.task t).semRet = outcome.value

namespace OnRecord

variable {m m' : Model} {live live' : Finset Slot} {x : SemCalls} {i : SemIx} {t : Slot}

theorem cont_of_calls (h : OnRecord m live x) {c : WaitCall} (hc : x.calls t = some c)
    : m.cont t = .semWait := by
  rw [h.recorded, hc]
  simp

theorem kept (h : OnRecord m live x) (hlive : live ⊆ live')
    (hsame : SameWaits m.toKernel m'.toKernel)
    (hkept : ∀ i, (m'.semaphores i).state = (m.semaphores i).state ∧
      m'.seq (.blockedQueue i) = m.seq (.blockedQueue i)) : OnRecord m' live' x where
  right := h.right
  recorded t := (hsame.cont t).trans (h.recorded t)
  live t ht := hlive (h.live t ((hsame.cont t).mp ht))
  order i hi := by
    rw [(hkept i).1] at hi
    rw [(hkept i).2, h.order i hi]
  waiting t on ht := by
    obtain ⟨hused, hcurrent, hqueue, hret⟩ := h.waiting t on ht
    have hcont := h.cont_of_calls ht
    exact ⟨by rw [(hkept _).1, hused], hcurrent, hqueue, by rw [hsame.semRet t hcont, hret]⟩
  blocked i hi := by
    rw [(hkept i).1] at hi
    exact h.blocked i hi
  released t on outcome on' ht := by
    obtain ⟨hon, hret⟩ := h.released t on outcome on' ht
    have hcont := h.cont_of_calls ht
    exact ⟨hon, by rw [hsame.semRet t hcont, hret]⟩

theorem opened (h : OnRecord m live x) (hsame : SameWaits m.toKernel m'.toKernel)
    (hfree : (m.semaphores i).state = .freeSem)
    (hstate : ∀ j ≠ i, (m'.semaphores j).state = (m.semaphores j).state)
    (hempty : m'.seq (.blockedQueue i) = [])
    (hseq : ∀ j ≠ i, m'.seq (.blockedQueue j) = m.seq (.blockedQueue j))
    : OnRecord m' live (x.opened i) where
  right := h.right
  recorded t := (hsame.cont t).trans (h.recorded t)
  live t ht := h.live t ((hsame.cont t).mp ht)
  order j hj := by
    by_cases hji : j = i
    . simp [SemCalls.opened, hji, hempty]
    . rw [hstate j hji] at hj
      simp [SemCalls.opened, hji, hseq j hji, h.order j hj]
  waiting t on ht := by
    obtain ⟨hon, hcurrent, hqueue, hret⟩ := h.waiting t on ht
    have hne : on.entry ≠ i := by
      intro heq
      rw [heq, hfree] at hon
      cases hon
    have hcont := h.cont_of_calls (t := t) ht
    refine ⟨by rw [hstate _ hne, hon], ?_, ?_, by rw [hsame.semRet t hcont, hret]⟩
    . rw [← hcurrent]
      simp [SemCalls.opened, SemCalls.current, hne]
    . simpa [SemCalls.opened, hne] using hqueue
  blocked j hj t ht := by
    by_cases hji : j = i
    . simp [SemCalls.opened, hji] at ht
    . rw [hstate j hji] at hj
      have hmem : t ∈ x.queue j := by simpa [SemCalls.opened, hji] using ht
      have hcall := h.blocked j hj t hmem
      simpa [SemCalls.opened, SemCalls.current, hji] using hcall
  released t on outcome on' ht := by
    obtain ⟨hon, hret⟩ := h.released t on outcome on' ht
    have hcont := h.cont_of_calls (t := t) ht
    exact ⟨hon, by rw [hsame.semRet t hcont, hret]⟩

theorem blocks (h : OnRecord m live x) (ht : t ∈ live) (hnot : m.cont t ≠ .semWait)
    (hused : (m.semaphores i).state = .usedSem)
    (hstate : ∀ j, (m'.semaphores j).state = (m.semaphores j).state)
    (hblocked : m'.seq (.blockedQueue i) = m.seq (.blockedQueue i) ++ [t])
    (hseq : ∀ j ≠ i, m'.seq (.blockedQueue j) = m.seq (.blockedQueue j))
    (hcont : m'.cont t = .semWait) (hret : (m'.task t).semRet = 0)
    (hother : ∀ u ≠ t, m'.cont u = m.cont u ∧ (m'.task u).semRet = (m.task u).semRet)
    : OnRecord m' live (x.blocked i t) := by
  have hnone : x.calls t = none := by
    by_contra hsome
    exact hnot ((h.recorded t).mpr hsome)
  have hcalls : ∀ u ≠ t, (x.blocked i t).calls u = x.calls u := by
    intro u hu
    simp [SemCalls.blocked, hu]
  constructor
  . exact h.right
  . intro u
    by_cases hu : u = t
    . simp [hu, hcont, SemCalls.blocked]
    . rw [(hother u hu).1, hcalls u hu, h.recorded u]
  . intro u hu'
    by_cases hu : u = t
    . rwa [hu]
    . exact h.live u ((hother u hu).1 ▸ hu')
  . intro j hj
    rw [hstate j] at hj
    by_cases hji : j = i
    . rw [hji, hblocked, h.order i hused]
      simp [SemCalls.blocked]
    . rw [hseq j hji, h.order j hj]
      simp [SemCalls.blocked, hji]
  . intro u on hcall
    by_cases hu : u = t
    . rw [hu] at hcall ⊢
      have hon : x.current i = on := by simpa [SemCalls.blocked] using hcall
      rw [← hon]
      refine ⟨(hstate i).trans hused, rfl, ?_, hret⟩
      simp [SemCalls.blocked, SemCalls.current]
    . rw [hcalls u hu] at hcall
      obtain ⟨hon, hcurrent, hqueue, hzero⟩ := h.waiting u on hcall
      refine ⟨(hstate _).trans hon, hcurrent, ?_, (hother u hu).2.trans hzero⟩
      by_cases hji : on.entry = i
      . rw [hji] at hqueue
        simp [SemCalls.blocked, hji, hqueue]
      . simpa [SemCalls.blocked, hji] using hqueue
  . intro j hj u hmem
    rw [hstate j] at hj
    by_cases hu : u = t
    . rw [hu] at hmem ⊢
      by_cases hji : j = i
      . rw [hji]
        simp [SemCalls.blocked, SemCalls.current]
      . have hqueue : t ∈ x.queue j := by simpa [SemCalls.blocked, hji] using hmem
        rw [h.blocked j hj t hqueue] at hnone
        cases hnone
    . rw [hcalls u hu]
      apply h.blocked j hj u
      by_cases hji : j = i
      . rw [hji] at hmem ⊢
        simpa [SemCalls.blocked, hu] using hmem
      . simpa [SemCalls.blocked, hji] using hmem
  . intro u on outcome on' hcall
    by_cases hu : u = t
    . rw [hu] at hcall
      simp [SemCalls.blocked] at hcall
    . rw [hcalls u hu] at hcall
      obtain ⟨hon, hvalue⟩ := h.released u on outcome on' hcall
      exact ⟨hon, (hother u hu).2.trans hvalue⟩

theorem letsGo (h : OnRecord m live x) (hused : (m.semaphores i).state = .usedSem)
    (outcome : Outcome) (stay : List Slot) (hcont : m'.cont = m.cont)
    (hstate : ∀ j ≠ i, (m'.semaphores j).state = (m.semaphores j).state)
    (hseq : ∀ j ≠ i, m'.seq (.blockedQueue j) = m.seq (.blockedQueue j))
    (hstay : (m'.semaphores i).state = .usedSem →
      m'.seq (.blockedQueue i) = (x.queue i).filter fun t => t ∈ stay)
    (hend : (m'.semaphores i).state = .usedSem ∨ stay = [])
    (hret : ∀ t, (m'.task t).semRet =
      if t ∈ x.queue i ∧ t ∉ stay then outcome.value else (m.task t).semRet)
    : OnRecord m' live (x.released i outcome stay) := by
  have hcalls : ∀ t, ¬(t ∈ x.queue i ∧ t ∉ stay) →
      (x.released i outcome stay).calls t = x.calls t := fun t ht => if_neg ht
  have hgone : ∀ t, t ∈ x.queue i ∧ t ∉ stay → (x.released i outcome stay).calls t =
      some { on := x.current i, release := some (outcome, x.current i) } := by
    intro t ht
    apply (if_pos ht).trans
    rw [h.blocked i hused t ht.1]
    rfl
  constructor
  . exact h.right
  . intro t
    rw [hcont, h.recorded t]
    by_cases ht : t ∈ x.queue i ∧ t ∉ stay
    . rw [hgone t ht, h.blocked i hused t ht.1]
      simp
    . rw [hcalls t ht]
  . intro t ht
    rw [hcont] at ht
    exact h.live t ht
  . intro j hj
    by_cases hji : j = i
    . rw [hji] at hj ⊢
      rw [hstay hj]
      simp [SemCalls.released]
    . rw [hstate j hji] at hj
      rw [hseq j hji, h.order j hj]
      simp [SemCalls.released, hji]
  . intro t on hcall
    by_cases ht : t ∈ x.queue i ∧ t ∉ stay
    . rw [hgone t ht] at hcall
      simp at hcall
    . rw [hcalls t ht] at hcall
      obtain ⟨hon, hcurrent, hqueue, hzero⟩ := h.waiting t on hcall
      rw [hret, if_neg ht]
      by_cases hji : on.entry = i
      . rw [hji] at hqueue ⊢
        have hmem : t ∈ stay := by
          by_contra hnot
          exact ht ⟨hqueue, hnot⟩
        refine ⟨?_, hji ▸ hcurrent, ?_, hzero⟩
        . apply hend.resolve_right
          rintro rfl
          cases hmem
        . simp [SemCalls.released, hqueue, hmem]
      . refine ⟨(hstate _ hji).trans hon, hcurrent, ?_, hzero⟩
        simpa [SemCalls.released, hji] using hqueue
  . intro j hj t hmem
    by_cases hji : j = i
    . rw [hji] at hmem ⊢
      obtain ⟨hqueue, hstays⟩ : t ∈ x.queue i ∧ t ∈ stay := by
        simpa [SemCalls.released] using hmem
      rw [hcalls t fun hnot => hnot.2 hstays]
      exact h.blocked i hused t hqueue
    . rw [hstate j hji] at hj
      have hqueue : t ∈ x.queue j := by simpa [SemCalls.released, hji] using hmem
      have hcall := h.blocked j hj t hqueue
      rw [hcalls t]
      . exact hcall
      . intro hnot
        -- A task is blocked on one entry only.
        rw [h.blocked i hused t hnot.1] at hcall
        simp [SemCalls.current, Ne.symm hji] at hcall
  . intro t on outcome' on' hcall
    by_cases ht : t ∈ x.queue i ∧ t ∉ stay
    . rw [hgone t ht] at hcall
      cases hcall
      rw [hret, if_pos ht]
      exact ⟨rfl, rfl⟩
    . rw [hcalls t ht] at hcall
      rw [hret, if_neg ht]
      exact h.released t on outcome' on' hcall

theorem returns (h : OnRecord m live x) (hs : Settled m live) (hcont : m.cont m.current = .semWait)
    : OnRecord (m.ret (m.task m.current).semRet) live
        (x.returned m.current (m.task m.current).semRet) := by
  have hcalls : ∀ t ≠ m.current, (x.returned m.current (m.task m.current).semRet).calls t =
      x.calls t := by
    intro t ht
    simp [SemCalls.returned, ht]
  have hcurrent : (x.returned m.current (m.task m.current).semRet).calls m.current = none := by
    simp [SemCalls.returned]
  have hother : ∀ t ≠ m.current, (m.ret (m.task m.current).semRet).cont t = m.cont t := by
    intro t ht
    exact if_neg ht
  have hright : Answer.Right
      { call := x.calls m.current, ret := (m.task m.current).semRet } := by
    cases hcall : x.calls m.current with
    | none => exact absurd hcall ((h.recorded _).mp hcont)
    | some c =>
      obtain ⟨on, release⟩ := c
      cases release with
      | none =>
        obtain ⟨hused, -, hqueue, -⟩ := h.waiting _ on hcall
        rw [← h.order _ hused] at hqueue
        exact absurd hqueue (hs.current_not_mem _)
      | some r =>
        obtain ⟨outcome, on'⟩ := r
        obtain ⟨rfl, hvalue⟩ := h.released _ on outcome on' hcall
        exact ⟨on', outcome, rfl, hvalue⟩
  constructor
  . intro a ha
    rcases List.mem_append.mp ha with ha | ha
    . exact h.right a ha
    . rw [List.mem_singleton.mp ha]
      exact hright
  . intro t
    by_cases ht : t = m.current
    . rw [ht, hcurrent]
      simp [Model.ret]
    . rw [hother t ht, hcalls t ht, h.recorded t]
  . intro t ht
    by_cases heq : t = m.current
    . rw [heq]
      exact hs.live
    . rw [hother t heq] at ht
      exact h.live t ht
  . exact h.order
  . intro t on hcall
    by_cases ht : t = m.current
    . rw [ht, hcurrent] at hcall
      cases hcall
    . rw [hcalls t ht] at hcall
      exact h.waiting t on hcall
  . intro i hi t hmem
    have hne : t ≠ m.current := by
      rintro rfl
      have hqueue : m.current ∈ x.queue i := hmem
      rw [← h.order i hi] at hqueue
      exact hs.current_not_mem _ hqueue
    rw [hcalls t hne]
    exact h.blocked i hi t hmem
  . intro t on outcome on' hcall
    by_cases ht : t = m.current
    . rw [ht, hcurrent] at hcall
      cases hcall
    . rw [hcalls t ht] at hcall
      exact h.released t on outcome on' hcall

section Events

variable {n : Int} {value : BitVec 32} {k : Kernel} {waiters : SemIx → List Slot}

theorem ret (h : OnRecord m live x) (hcurrent : m.cont m.current ≠ .semWait) (r : Int)
    : OnRecord (m.ret r) live x :=
  h.kept (fun _ ht => ht) (.ret hcurrent r) fun _ => ⟨rfl, rfl⟩

theorem semInit (h : OnRecord m live x) (hcurrent : m.cont m.current ≠ .semWait) {y : Int × Model}
    (hy : m.semInit n value = some y)
    : OnRecord (Model.result y) live (x.after (.semInit n value) m.toKernel k waiters) := by
  unfold Model.semInit at hy
  unfold SemCalls.after
  dsimp only
  split at hy
  next hsome =>
    cases hy
    rw [if_pos hsome]
    exact h.ret hcurrent _
  next hnone =>
    obtain ⟨i, hi, rfl⟩ := Option.map_eq_some_iff.mp hy
    rw [if_neg hnone, hi]
    have hfree := Kernel.cercaSemLliure_eq_some hi
    let m' := (m.mapKernel (Kernel.openSem i n value)).mapQueues (Queues.init (.blockedQueue i))
    have hsame : SameWaits m.toKernel (m.openSem i n value) := SameWaits.setSem
    have hopened : OnRecord m' live (x.opened i) := by
      apply h.opened hsame hfree
      . intro j hj
        simp [m', hj]
      . exact (Queues.seq_init ..).trans (if_pos rfl)
      . intro j hj
        exact (Queues.seq_init ..).trans (if_neg (by simpa using hj))
    exact hopened.ret hcurrent _

theorem semWait (h : OnRecord m live x) (hs : Settled m live) (hidle : m.current ≠ m.idleTask)
    (hcurrent : m.cont m.current ≠ .semWait)
    : OnRecord (m.semWait n) live
        (x.after (.semWait n) m.toKernel (m.semWait n).toKernel waiters) := by
  have hclear := hs.setSemRet m.current 0
  unfold SemCalls.after
  dsimp only
  cases hi : m.cercaSem n with
  | none =>
    rw [semWait_of_none hi]
    exact h.ret hcurrent _
  | some i =>
    have hused := (Kernel.cercaSem_eq_some hi).2
    let m₀ := m.mapKernel (Kernel.setSemRet m.current 0)
    have hclear' : SameWaits m.toKernel (m.setSemRet m.current 0) :=
      SameWaits.setTask fun hcont => absurd hcont hcurrent
    have hrecord : OnRecord m₀ live x := h.kept (fun _ ht => ht) hclear' fun _ => ⟨rfl, rfl⟩
    show OnRecord _ live (if (m.semWait n).cont m.current = .semWait then x.blocked i m.current else x)
    by_cases hcounter : (m.semaphores i).counter ≤ 0
    . let m₁ := (m₀.exitRunCurrent (.blockedQueue i)).mapKernel fun k => k.setCont k.current .semWait
      have hblock : m.semWait n = m₁.schedNext := semWait_of_nonpos hi hcounter
      have hrescheduled : Rescheduled m₁.toKernel m₁.schedNext.toKernel := .schedNext
      have hmoved : Rescheduled m₀.toKernel (m₀.exitRunCurrent (.blockedQueue i)).toKernel :=
        .exitRunCurrent
      have hcont : ∀ u, (m.semWait n).cont u = if u = m.current then .semWait else m.cont u := by
        intro u
        rw [hblock, hrescheduled.cont]
        rfl
      have hret : ∀ u, ((m.semWait n).task u).semRet = (m₀.task u).semRet := by
        intro u
        obtain ⟨_, _, hu⟩ := hrescheduled.task u
        obtain ⟨_, _, hu'⟩ := hmoved.task u
        rw [hblock, hu]
        show ((m₀.exitRunCurrent _).task u).semRet = _
        rw [hu']
      have hqueue := semaphore_semWait hs hidle hi
      rw [if_pos ((hcont _).trans (if_pos rfl))]
      apply h.blocks hs.live hcurrent hused
      . intro j
        rw [hblock, hrescheduled.semaphores]
        rfl
      . have hseq := congrArg Turnstile.State.queue hqueue.1
        unfold Turnstile.State.wait at hseq
        rw [if_pos (show (m.semaphore i).counter ≤ 0 from hcounter)] at hseq
        exact hseq
      . intro j hj
        apply (Kept.semWait hs hidle n (by simp) _).seq
        rintro j' hj' ⟨⟩
        rw [hi] at hj'
        cases hj'
        exact hj rfl
      . exact (hcont _).trans (if_pos rfl)
      . rw [hret]
        simp [m₀]
      . intro u hu
        refine ⟨(hcont u).trans (if_neg hu), (hret u).trans ?_⟩
        simp [m₀, hu]
    . have hpass : m.semWait n = (m₀.mapKernel (Kernel.addCounter i (-1))).ret 0 :=
        semWait_of_pos hi hcounter
      have hcounted : OnRecord (m₀.mapKernel (Kernel.addCounter i (-1))) live x := by
        have hsame : SameWaits m₀.toKernel (m₀.addCounter i (-1)) := SameWaits.setSem
        apply hrecord.kept (fun _ ht => ht) hsame
        intro j
        refine ⟨?_, rfl⟩
        show ((m₀.addCounter i (-1)).semaphores j).state = _
        rw [Kernel.addCounter_semaphores]
        split <;> rfl
      have hreturned : (m.semWait n).cont m.current = .user := by
        rw [hpass]
        exact if_pos rfl
      rw [hreturned, if_neg (by simp), hpass]
      exact hcounted.ret hcurrent 0

theorem semSignal (h : OnRecord m live x) (hs : Settled m live) (hcurrent : m.cont m.current ≠ .semWait)
    (hwaiters : ∀ i, ((m.semSignal n).2.semaphores i).state = .usedSem →
      waiters i = (m.semSignal n).2.seq (.blockedQueue i))
    : OnRecord (Model.result (m.semSignal n)) live
        (x.after (.semSignal n) m.toKernel k waiters) := by
  unfold SemCalls.after
  dsimp only
  cases hi : m.cercaSem n with
  | none =>
    rw [semSignal_of_none hi]
    exact h.ret hcurrent _
  | some i =>
    have hused := (Kernel.cercaSem_eq_some hi).2
    have hused' := (Kernel.cercaSem_eq_some (semaphore_semSignal hs hi).2.1).2
    show OnRecord _ live (x.released i .signalled (waiters i))
    rw [hwaiters i hused']
    have horder := h.order i hused
    suffices hlets : OnRecord (m.semSignal n).2 live
        (x.released i .signalled ((m.semSignal n).2.seq (.blockedQueue i))) by
      apply hlets.ret
      have hkept : (m.semSignal n).2.cont (m.semSignal n).2.current = m.cont m.current := by
        unfold Model.semSignal
        rw [hi]
        dsimp only
        split <;> rfl
      rw [hkept]
      exact hcurrent
    cases hseq : m.seq (.blockedQueue i) with
    | nil =>
      rw [hseq] at horder
      rw [semSignal_of_nil hi hseq]
      have hstate : ∀ j, ((m.addCounter i 1).semaphores j).state = (m.semaphores j).state := by
        intro j
        rw [Kernel.addCounter_semaphores]
        split <;> rfl
      apply h.letsGo hused .signalled
      . rfl
      . exact fun j _ => hstate j
      . exact fun _ _ => rfl
      . intro _
        show m.seq _ = _
        rw [hseq, ← horder]
        rfl
      . exact .inl ((hstate i).trans hused)
      . intro t
        rw [if_neg (by simp [← horder])]
        rfl
    | cons t ts =>
      have hrest : (m.updateProcessState t (some .readyqueue)).seq (.blockedQueue i) = ts :=
        Placed.seq_wake (by simp) hseq
      have hnodup := hs.placed.nodup (.blockedQueue i)
      rw [hseq, List.nodup_cons] at hnodup
      rw [hseq] at horder
      rw [semSignal_of_cons hi hseq]
      show OnRecord (m.updateProcessState t (some .readyqueue)) live (x.released i .signalled
        ((m.updateProcessState t (some .readyqueue)).seq (.blockedQueue i)))
      rw [hrest]
      apply h.letsGo hused .signalled
      . rfl
      . exact fun _ _ => rfl
      . intro j hj
        have hkept : Kept (.blockedQueue j) m (m.updateProcessState t (some .readyqueue)) := by
          have ht : t ∈ m.seq (.blockedQueue i) := by
            rw [hseq]
            exact List.mem_cons_self
          exact Kept.wake hs.placed ht (by simpa using hj) (by simp)
        exact hkept.seq
      . intro _
        rw [hrest, ← horder, List.filter_cons_of_neg (by simpa using hnodup.1), eq_comm,
          List.filter_eq_self]
        simp
      . exact .inl hused
      . intro u
        obtain ⟨_, _, hu⟩ := (Rescheduled.updateProcessState (m := m) t (some .readyqueue)).task u
        rw [hu]
        split
        next hgone =>
          -- The result of `sys_sem_wait` has been 0 since the call.
          exact (h.waiting u _ (h.blocked i hused u hgone.1)).2.2.2
        next => rfl

theorem semDestroy (h : OnRecord m live x) (hs : Settled m live) (hcurrent : m.cont m.current ≠ .semWait)
    : OnRecord (Model.result (m.semDestroy n)) live
        (x.after (.semDestroy n) m.toKernel (Model.result (m.semDestroy n)).toKernel waiters) := by
  unfold SemCalls.after
  dsimp only
  cases hi : m.cercaSem n with
  | none =>
    rw [semDestroy_of_none hi]
    exact h.ret hcurrent _
  | some i =>
    have hused := (Kernel.cercaSem_eq_some hi).2
    show OnRecord _ live (if ((m.semDestroy n).2.semaphores i).state = .freeSem then
      x.released i .destroyed [] else x)
    by_cases howner : (m.semaphores i).owner = (m.task m.current).pid
    . obtain ⟨-, hdrained⟩ := drained_semDestroy hs.placed hi howner
      have hfree : ((m.semDestroy n).2.semaphores i).state = .freeSem := by
        rw [hdrained.semaphores]
        simp
      rw [if_pos hfree]
      suffices hlets : OnRecord (m.semDestroy n).2 live (x.released i .destroyed []) by
        apply hlets.ret
        rw [hdrained.cont, hdrained.current]
        exact hcurrent
      apply h.letsGo hused .destroyed [] hdrained.cont
      . intro j hj
        rw [hdrained.semaphores, Kernel.closeSem_semaphores, if_neg hj]
      . intro j hj
        exact hdrained.seq _ (by simpa using hj) (by simp)
      . intro hstill
        rw [hfree] at hstill
        cases hstill
      . exact .inr rfl
      . intro t
        rw [hdrained.semRet, h.order i hused]
        simp [Outcome.value]
    . rw [semDestroy_of_not_owner hi howner, if_neg (by simp [hused])]
      exact h.ret hcurrent _

theorem resume (h : OnRecord m live x) (hs : Settled m live)
    : OnRecord m.resume live (x.after .resume m.toKernel m.resume.toKernel waiters) := by
  unfold SemCalls.after
  dsimp only
  by_cases hcont : m.cont m.current = .semWait
  . have hresume : m.resume = m.ret (m.task m.current).semRet := by
      unfold Model.resume
      rw [hcont]
    rw [if_pos hcont, hresume]
    have heax : (m.ret (m.task m.current).semRet).eax m.current = (m.task m.current).semRet :=
      if_pos rfl
    rw [heax]
    exact h.returns hs hcont
  . rw [if_neg hcont]
    have hsame : SameWaits m.toKernel m.resume.toKernel := by
      have hfree : ∀ t ∈ m.seq .freequeue, m.cont t ≠ .semWait :=
        fun t ht hwait => hs.placed.not_live_of_free t ht (h.live t hwait)
      have hroutine : Model.routine .resume m = some m.resume := rfl
      exact SameWaits.routine hfree hcont (by simp [Event.ChangesTable]) hroutine
    apply h.kept (fun _ ht => ht) hsame
    intro i
    have hkept : SemKept 0 i m m.resume := .resume hs
    exact ⟨by rw [hkept.entry], hkept.seq⟩

theorem mono (h : OnRecord m live x) (hlive : live ⊆ live') : OnRecord m live' x :=
  h.kept hlive (.refl _) fun _ => ⟨rfl, rfl⟩

theorem routine (h : OnRecord m live x) (hs : Settled m live) {event : Event} (hexit : event ≠ .exit)
    (hcurrent : event ≠ .resume → m.cont m.current ≠ .semWait)
    (hidle : event.OfProcess → m.current ≠ m.idleTask) (hm' : Model.routine event m = some m')
    (hwaiters : ∀ i, (m'.semaphores i).state = .usedSem → waiters i = m'.seq (.blockedQueue i))
    : OnRecord m' live (x.after event m.toKernel m'.toKernel waiters) := by
  cases event with
  | exit => exact absurd rfl hexit
  | semInit n value =>
    obtain ⟨y, hy, rfl⟩ := Option.map_eq_some_iff.mp hm'
    exact h.semInit (hcurrent (by simp)) hy
  | semWait n =>
    cases hm'
    exact h.semWait hs (hidle (by simp [Event.OfProcess])) (hcurrent (by simp))
  | semSignal n =>
    cases hm'
    exact h.semSignal hs (hcurrent (by simp)) hwaiters
  | semDestroy n =>
    cases hm'
    exact h.semDestroy hs (hcurrent (by simp))
  | resume =>
    cases hm'
    exact h.resume hs
  | _ =>
    have hfree : ∀ t ∈ m.seq .freequeue, m.cont t ≠ .semWait :=
      fun t ht hwait => hs.placed.not_live_of_free t ht (h.live t hwait)
    apply h.kept (fun _ ht => ht)
    . exact SameWaits.routine hfree (hcurrent (by simp)) (by simp [Event.ChangesTable]) hm'
    . intro i
      have hkept : SemKept 0 i m m' :=
        SemKept.routine_of_not hs hidle (by simp [Event.ChangesTable]) hm'
      exact ⟨by rw [hkept.entry], hkept.seq⟩

end Events

section Entry

variable {k k' : Kernel} {e : Input} {waiters : SemIx → List Slot}

theorem sameWaits_of_entry (hentry : k.entry e = some k')
    (hcurrent : e.event ≠ .resume → k.cont k.current ≠ .semWait) : SameWaits k k' := by
  have hentered := Kernel.entered_of_entry hentry
  have hsemRet : ∀ t, (k'.task t).semRet = (k.task t).semRet := by
    intro t
    obtain ⟨_, ht⟩ := hentered.task t
    rw [ht]
  refine ⟨?_, fun t _ => hsemRet t⟩
  intro t
  obtain ⟨-, hentry⟩ := Kernel.entry_eq_some.mp hentry
  obtain ⟨event, readings⟩ := e
  cases event with
  | clock =>
    obtain ⟨-, ⟨⟩⟩ := Option.ite_none_left_eq_some.mp hentry
    exact (SameWaits.setCont (c := .user) (hcurrent (by simp)) (by simp)).cont t
  | keyboard entrada beyond =>
    obtain ⟨-, ⟨⟩⟩ := Option.ite_none_left_eq_some.mp hentry
    exact (SameWaits.setCont (c := .user) (hcurrent (by simp)) (by simp)).cont t
  | resume =>
    obtain ⟨-, ⟨⟩⟩ := Option.ite_none_right_eq_some.mp hentry
    exact Iff.rfl
  | _ =>
    obtain ⟨-, ⟨⟩⟩ := Option.ite_none_left_eq_some.mp hentry
    exact Iff.rfl

theorem after_entry (hentry : k.entry e = some k') (k'' : Kernel) (x : SemCalls)
    : x.after e.event k' k'' waiters = x.after e.event k k'' waiters := by
  have hentered := Kernel.entered_of_entry hentry
  have hfound : ∀ n, k'.cercaSem n = k.cercaSem n :=
    fun n => Kernel.cercaSem_of_semaphores hentered.semaphores
  have hfree : k'.cercaSemLliure = k.cercaSemLliure := by
    unfold Kernel.cercaSemLliure
    rw [hentered.semaphores]
  obtain ⟨-, hentry⟩ := Kernel.entry_eq_some.mp hentry
  obtain ⟨event, readings⟩ := e
  unfold SemCalls.after
  dsimp only
  rw [hentered.current, hfree]
  cases event with
  | resume =>
    obtain ⟨-, ⟨⟩⟩ := Option.ite_none_right_eq_some.mp hentry
    rfl
  | _ => simp only [hfound]

end Entry

end OnRecord

structure Recording (x : Sys × SemCalls) (live : Finset Slot) (m : Model) : Prop where
  follows : Follows (x.1, live) m
  ring : m.queues.shape .freequeue = .ring
  record : OnRecord m live x.2
  inside : m.cont m.current = .semWait → m.inKernel = true
  keyboard : AtKeyboard m

namespace Recording

variable {x y : Sys × SemCalls} {live : Finset Slot} {m m' : Model}

theorem inside_resume (hkernel : m.inKernel = true)
    : m.resume.cont m.resume.current = .semWait → m.resume.inKernel = true := by
  intro hwait
  unfold Model.resume at hwait ⊢
  split
  next hcont =>
    rw [hcont] at hwait
    exact absurd (hcont.symm.trans hwait) (by simp)
  next hcont =>
    rw [hcont] at hwait
    exact absurd (hcont.symm.trans hwait) (by simp)
  next hcont => exact hkernel
  next buff _ => exact (inKernel_readKeyboardBody buff).trans hkernel

theorem inside_step (h : Recording x live m) {e : Input} (hexit : e.event ≠ .exit)
    (hm' : m.step e = some m') (hwait : m'.cont m'.current = .semWait) : m'.inKernel = true := by
  obtain ⟨k, hentry, hroutine⟩ := step_eq_some hm'
  by_cases hresume : e.event = .resume
  . rw [hresume] at hroutine
    cases hroutine
    have hkernel : k.inKernel = true :=
      AtKeyboard.inKernel_entry hentry (by simp [hresume])
    exact inside_resume (m := { m with toKernel := k }) hkernel hwait
  . by_cases hstore : ∃ a v, e.event = .store a v
    . obtain ⟨a, v, hstore⟩ := hstore
      -- A store does not enter the kernel, and the process does not wait.
      obtain ⟨event, readings⟩ := e
      cases hstore
      obtain ⟨-, hentry⟩ := Kernel.entry_eq_some.mp hentry
      obtain ⟨hnot, ⟨⟩⟩ := Option.ite_none_left_eq_some.mp hentry
      obtain ⟨k', hk', rfl⟩ := Option.map_eq_some_iff.mp hroutine
      obtain ⟨mm, rfl⟩ := Kernel.userStore_eq_some hk'
      exact h.inside hwait
    . apply (inKernel_routine hexit hresume hroutine).trans
      exact AtKeyboard.inKernel_entry hentry (by simpa using hstore)

theorem step (h : Recording x live m) {e : Input} (hexit : e.event ≠ .exit)
    (hstep : Sys.stepSems e x = some y) : ∃ live' m', Recording y live' m' := by
  obtain ⟨hsys, hrecord⟩ := Run.ghost_eq_some.mp hstep
  obtain ⟨live', hlive⟩ := Sys.exists_stepLive live hsys
  obtain ⟨m', hm', hfollows, hring⟩ := h.follows.step_ring h.ring hexit hlive
  have hsettled := h.follows.settled
  have hmono : live ⊆ live' := by
    obtain ⟨-, heq⟩ := Run.ghost_eq_some.mp hlive
    dsimp only at heq
    rw [heq, liveAfter_eq, if_neg hexit]
    cases createdBy e.event x.1.toKernel y.1.toKernel (firstTask .freequeue x.1.links) with
    | none => exact fun _ ht => ht
    | some t => exact Finset.subset_insert t live
  refine ⟨live', m', hfollows, hring, ?_, h.inside_step hexit hm', (h.keyboard.step hsettled hm').2⟩
  obtain ⟨k, hentry, hroutine⟩ := step_eq_some hm'
  have hcurrent : e.event ≠ .resume → m.cont m.current ≠ .semWait := by
    intro hresume hwait
    have hkernel := h.inside hwait
    rw [Kernel.inKernel_of_entry hentry hresume] at hkernel
    cases hkernel
  have hsame := OnRecord.sameWaits_of_entry hentry hcurrent
  have hentered := Kernel.entered_of_entry hentry
  have hbefore : OnRecord { m with toKernel := k } live x.2 := by
    apply h.record.kept (fun _ ht => ht) hsame
    exact fun i => ⟨congrArg Semaphore.state (congrFun hentered.semaphores i), rfl⟩
  have hwaiters : ∀ i, (m'.semaphores i).state = .usedSem →
      y.1.members (.blockedQueue i) = m'.seq (.blockedQueue i) := by
    intro i hi
    exact hfollows.refines.members_eq (hfollows.settled.placed.sem i hi)
  have hafter := hbefore.routine (hsettled.entry hentry) hexit
    (fun hresume hwait => hcurrent hresume ((hsame.cont _).mp (by rwa [← hentered.current])))
    (idle_of_entry hentry) hroutine hwaiters
  rw [OnRecord.after_entry hentry] at hafter
  rw [hrecord, h.follows.refines.kernel, hfollows.refines.kernel]
  exact hafter.mono hmono

theorem boot {frames : Nat → Nat → Byte} {s : Sys} (hs : Zeos.boot frames = some s)
    : Recording (s, .boot) liveBoot (.boot frames) where
  follows := .boot hs
  ring := rfl
  record := by
    have hcont : ∀ t, (Model.boot frames).cont t ≠ .semWait := by
      intro t hwait
      fin_cases t <;> cases hwait
    constructor
    . rintro a ⟨⟩
    . exact fun t => ⟨fun hwait => absurd hwait (hcont t), fun hne => absurd rfl hne⟩
    . exact fun t hwait => absurd hwait (hcont t)
    . rintro i ⟨⟩
    . rintro t on ⟨⟩
    . rintro i ⟨⟩
    . rintro t on outcome on' ⟨⟩
  inside := by
    intro h
    cases h
  keyboard := .boot frames

theorem callsAnswered (h : Recording x live m) : Sys.CallsAnswered x := by
  have hplaced := h.follows.settled.placed
  have hrefines := h.follows.refines
  have hmembers : ∀ i, (m.semaphores i).state = .usedSem →
      x.1.members (.blockedQueue i) = x.2.queue i := by
    intro i hi
    rw [hrefines.members_eq (hplaced.sem i hi), h.record.order i hi]
  constructor
  . exact h.record.right
  . rw [hrefines.kernel]
    exact h.record.recorded
  . intro t on hcall
    obtain ⟨hused, hcurrent, hqueue, -⟩ := h.record.waiting t on hcall
    rw [hrefines.kernel, hmembers _ hused]
    exact ⟨hused, hcurrent, hqueue⟩
  . rw [hrefines.kernel]
    exact hmembers
  . rw [hrefines.kernel]
    intro t hcont hestado
    obtain ⟨q, hwaits, hq⟩ := hplaced.of_stBlocked t (h.record.live t hcont) hestado
    rcases hwaits with rfl | ⟨i, rfl, hi⟩
    . have hreading := h.keyboard.known.waiting t hq
      unfold Kernel.isReading at hreading
      rw [hcont] at hreading
      cases hreading
    . rw [h.record.order i hi] at hq
      exact ⟨i, hi, by rw [hmembers i hi]; exact hq⟩

theorem canDestroy (h : Recording x live m) : Sys.CanDestroy x := by
  intro e n i hevent hentry hi howner
  have hrefines := h.follows.refines
  have hsettled := h.follows.settled
  obtain ⟨k, hk⟩ := Option.isSome_iff_exists.mp hentry
  rw [hrefines.kernel] at hi howner hk
  have hentered := Kernel.entered_of_entry hk
  have hm' : m.step e = some (Model.result (({ m with toKernel := k } : Model).semDestroy n)) := by
    unfold Model.step
    rw [hk, hevent]
    rfl
  have hused := (Kernel.cercaSem_eq_some hi).2
  have hi' : k.cercaSem n = some i :=
    (Kernel.cercaSem_of_semaphores hentered.semaphores).trans hi
  have howner' : (k.semaphores i).owner = (k.task k.current).pid := by
    obtain ⟨_, ht⟩ := hentered.task m.current
    rw [hentered.semaphores, hentered.current, ht]
    exact howner
  obtain ⟨hzero, hdrained⟩ :=
    drained_semDestroy (m := { m with toKernel := k }) (hsettled.entry hk).placed hi' howner'
  have hrel := hrefines.step hsettled e h.follows.free_open (by simp [Event.Creates, hevent])
  rw [hm'] at hrel
  cases hs' : x.1.step e with
  | none =>
    rw [hs'] at hrel
    cases hrel
  | some s' =>
    rw [hs'] at hrel
    obtain ⟨hr'⟩ := hrel
    have hring : (Model.result (({ m with toKernel := k } : Model).semDestroy n)).queues.shape
        (.blockedQueue i) = .ring := hdrained.shape.trans (hsettled.placed.sem i hused)
    have hready : (Model.result (({ m with toKernel := k } : Model).semDestroy n)).queues.shape
        .readyqueue = .ring := (hsettled.step hm').placed.ready
    refine ⟨s', rfl, ?_, ?_, ?_, ?_⟩
    . rw [hr'.kernel, hrefines.kernel]
      have hcurrent : (({ m with toKernel := k } : Model).semDestroy n).2.current = m.current :=
        hdrained.current.trans hentered.current
      exact (if_pos hcurrent.symm).trans hzero
    . rw [hr'.kernel]
      show ((({ m with toKernel := k } : Model).semDestroy n).2.semaphores i).state = _
      rw [hdrained.semaphores]
      simp
    . rw [hr'.members_eq hring]
      exact hdrained.empty
    . rw [hr'.members_eq hready, hrefines.members_eq hsettled.placed.ready, ← h.record.order i hused]
      exact hdrained.ready

end Recording

/--
From boot on, whatever the events are, as long as no process exits: each call that comes back has been let
go by the semaphore it was blocked on, and returns what that calls for.
-/
theorem always_callsAnswered {frames : Nat → Nat → Byte} {s : Sys} (hs : boot frames = some s)
    {es : List Input} (hexit : ∀ e ∈ es, e.event ≠ .exit)
    : Run.Always Sys.stepSems (fun x => Sys.CallsAnswered x ∧ Sys.CanDestroy x) es (s, .boot) := by
  have hinv : Run.Always Sys.stepSems (fun x => ∃ live m, Recording x live m) es (s, .boot) := by
    have hok : Run.Allowed Sys.stepSems (fun e _ => e.event ≠ .exit) es (s, .boot) :=
      Run.allowed_of_forall fun e he _ => hexit e he
    apply Run.always_of_step _ _ hok
    . rintro e x y ⟨live, m, h⟩ hexit hstep
      exact h.step hexit hstep
    . exact ⟨_, _, .boot hs⟩
  apply hinv.mono
  rintro x ⟨live, m, h⟩
  exact ⟨h.callsAnswered, h.canDestroy⟩

/--
A thread waits for a semaphore, which is destroyed and opened again before the thread goes on; then the
first process waits for the new one, and the thread signals.
-/
theorem always_callsAnswered_of_reopened
    : ∃ s x, boot (fun _ _ => 0) = some s ∧
        Run.run Sys.stepSems
          (atRest (resumed ([cloneThread, .semInit 7 0] ++ List.replicate 15 .clock ++
              [.semWait 7, .semDestroy 7, .semInit 7 0, .semWait 7]) ++
            .resume :: resumed (.semSignal 7 :: List.replicate 15 .clock))) (s, .boot) = some x ∧
        x.2.answers =
          [{ call := some { on := ⟨0, 1⟩, release := some (.destroyed, ⟨0, 1⟩) }, ret := -1 },
           { call := some { on := ⟨0, 2⟩, release := some (.signalled, ⟨0, 2⟩) }, ret := 0 }] ∧
        Run.Always Sys.stepSems (fun x => Sys.CallsAnswered x ∧ Sys.CanDestroy x)
          (atRest (resumed ([cloneThread, .semInit 7 0] ++ List.replicate 15 .clock ++
              [.semWait 7, .semDestroy 7, .semInit 7 0, .semWait 7]) ++
            .resume :: resumed (.semSignal 7 :: List.replicate 15 .clock))) (s, .boot) := by
  have hrun : ∀ s ∈ boot fun _ _ => 0, ∃ x ∈ Run.run Sys.stepSems
      (atRest (resumed ([cloneThread, .semInit 7 0] ++ List.replicate 15 .clock ++
          [.semWait 7, .semDestroy 7, .semInit 7 0, .semWait 7]) ++
        .resume :: resumed (.semSignal 7 :: List.replicate 15 .clock))) (s, .boot),
      x.2.answers =
        [{ call := some { on := ⟨0, 1⟩, release := some (.destroyed, ⟨0, 1⟩) }, ret := -1 },
         { call := some { on := ⟨0, 2⟩, release := some (.signalled, ⟨0, 2⟩) }, ret := 0 }] := by
    decide +kernel
  obtain ⟨s, hs⟩ := exists_boot fun _ _ => 0
  obtain ⟨x, hx, hanswers⟩ := hrun s hs
  exact ⟨s, x, hs, hx, hanswers, always_callsAnswered hs (by decide)⟩

end Zeos
