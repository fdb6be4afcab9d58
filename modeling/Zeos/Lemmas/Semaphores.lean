import Zeos.Spec.Semaphores
import Zeos.Lemmas.Idle

/-!
Every semaphore counts, and keeps the order of those that wait for it.
-/

namespace Zeos

open Model Turnstile

structure SemKept (n : Int) (i : SemIx) (m m' : Model) : Prop extends
    Kept (.blockedQueue i) m m' where
  entry : m'.semaphores i = m.semaphores i
  found : m'.cercaSem n = m.cercaSem n

namespace Kernel

theorem cercaSem_congr {n : Int} {k k' : Kernel}
    (h : ∀ j, ((k'.semaphores j).nSem = n ∧ (k'.semaphores j).state = .usedSem) ↔
      ((k.semaphores j).nSem = n ∧ (k.semaphores j).state = .usedSem))
    : k'.cercaSem n = k.cercaSem n := by
  unfold cercaSem
  congr 1
  funext j
  exact decide_eq_decide.mpr (h j)

theorem cercaSem_of_semaphores {n : Int} {k k' : Kernel} (h : k'.semaphores = k.semaphores)
    : k'.cercaSem n = k.cercaSem n := by
  apply cercaSem_congr
  intro j
  rw [h]

theorem cercaSem_addCounter {n c : Int} {i : SemIx} {k : Kernel}
    : (k.addCounter i c).cercaSem n = k.cercaSem n := by
  apply cercaSem_congr
  intro j
  rw [addCounter_semaphores]
  split <;> rfl

theorem cercaSem_openSem {n : Int} {i : SemIx} {value : BitVec 32} {k : Kernel}
    (hnone : k.cercaSem n = none) : (k.openSem i n value).cercaSem n = some i := by
  have hnot : ∀ j, ¬((k.semaphores j).nSem = n ∧ (k.semaphores j).state = .usedSem) := by
    intro j
    simpa using List.find?_eq_none.mp hnone j (List.mem_finRange j)
  cases hj : (k.openSem i n value).cercaSem n with
  | none =>
    have hi := List.find?_eq_none.mp hj i (List.mem_finRange i)
    simp at hi
  | some j =>
    have hfound := cercaSem_eq_some hj
    rw [openSem_semaphores] at hfound
    split at hfound
    next heq => rw [heq]
    next => exact absurd hfound (hnot j)

end Kernel

namespace Model

variable {m : Model} {n : Int} {i : SemIx}

theorem semWait_of_none (hi : m.cercaSem n = none) : m.semWait n = m.ret (-eINVAL) := by
  unfold semWait
  rw [hi]

theorem semWait_of_nonpos (hi : m.cercaSem n = some i) (hcounter : (m.semaphores i).counter ≤ 0)
    : m.semWait n = (((m.mapKernel (Kernel.setSemRet m.current 0)).exitRunCurrent
        (.blockedQueue i)).mapKernel fun k => k.setCont k.current .semWait).schedNext := by
  unfold semWait
  rw [hi]
  exact if_pos hcounter

theorem semWait_of_pos (hi : m.cercaSem n = some i) (hcounter : ¬(m.semaphores i).counter ≤ 0)
    : m.semWait n = ((m.mapKernel (Kernel.setSemRet m.current 0)).mapKernel
        (Kernel.addCounter i (-1))).ret 0 := by
  unfold semWait
  rw [hi]
  exact if_neg hcounter

theorem semSignal_of_none (hi : m.cercaSem n = none) : m.semSignal n = (-eINVAL, m) := by
  unfold semSignal
  rw [hi]

theorem semSignal_of_nil (hi : m.cercaSem n = some i) (hseq : m.seq (.blockedQueue i) = [])
    : m.semSignal n = (0, m.mapKernel (Kernel.addCounter i 1)) := by
  unfold semSignal
  rw [hi]
  dsimp only
  rw [hseq]

theorem semSignal_of_cons {t : Slot} {ts : List Slot} (hi : m.cercaSem n = some i)
    (hseq : m.seq (.blockedQueue i) = t :: ts)
    : m.semSignal n = (0, m.updateProcessState t (some .readyqueue)) := by
  unfold semSignal
  rw [hi]
  dsimp only
  rw [hseq]

theorem semDestroy_of_none (hi : m.cercaSem n = none) : m.semDestroy n = (-eINVAL, m) := by
  unfold semDestroy
  rw [hi]

theorem semDestroy_of_owner (hi : m.cercaSem n = some i)
    (howner : (m.semaphores i).owner = (m.task m.current).pid)
    : m.semDestroy n = (0, (m.unblock (m.seq (.blockedQueue i))).mapKernel (Kernel.closeSem i)) := by
  unfold semDestroy
  rw [hi]
  exact if_neg (not_not_intro howner)

theorem semDestroy_of_not_owner (hi : m.cercaSem n = some i)
    (howner : (m.semaphores i).owner ≠ (m.task m.current).pid) : m.semDestroy n = (-ePERM, m) := by
  unfold semDestroy
  rw [hi]
  exact if_pos howner

end Model

namespace SemKept

variable {m m' m'' : Model} {live : Finset Slot} {n : Int} {i : SemIx} {t : Slot}

theorem refl (n : Int) (i : SemIx) (m : Model) : SemKept n i m m :=
  ⟨.refl _ m, rfl, rfl⟩

theorem trans (h : SemKept n i m m') (h' : SemKept n i m' m'') : SemKept n i m m'' :=
  ⟨h.toKept.trans h'.toKept, h'.entry.trans h.entry, h'.found.trans h.found⟩

theorem of_semaphores (h : Kept (.blockedQueue i) m m') (hsem : m'.semaphores = m.semaphores)
    : SemKept n i m m' where
  toKept := h
  entry := by rw [hsem]
  found := Kernel.cercaSem_of_semaphores hsem

theorem result (x : Int × Model) : SemKept n i x.2 (Model.result x) :=
  of_semaphores (.result x) rfl

section Fork

theorem takeCopy (h : Settled m live) (ht : t ∈ m.seq .freequeue) : SemKept n i m (m.takeCopy t) := by
  have hkept : Kept (.blockedQueue i) m (m.mapQueues (Queues.remove t)) := by
    apply Kept.remove
    intro hmem
    cases h.placed.disjoint _ _ t ht hmem
  exact of_semaphores ⟨hkept.seq, hkept.shape⟩ rfl

theorem makeReady (t : Slot) : SemKept n i m (makeReady t m).2 := by
  have hkept : Kept (.blockedQueue i) (m.mapKernel (Kernel.newProcess t))
      ((m.mapKernel (Kernel.newProcess t)).mapQueues (Queues.append t .readyqueue)) :=
    Kept.append (by simp)
  exact of_semaphores ⟨hkept.seq, hkept.shape⟩ rfl

theorem fork (h : Settled m live) {x : Int × Model} (hfork : m.fork = some x) : SemKept n i m x.2 := by
  unfold Model.fork at hfork
  split at hfork
  next =>
    cases hfork
    exact refl n i m
  next new rest hcons =>
    have hcopied : SemKept n i m (m.takeCopy new) := takeCopy h (by simp [hcons])
    dsimp only at hfork
    split at hfork
    next =>
      cases hfork
      exact hcopied
    next k hk =>
      obtain ⟨⟨enough, k'⟩, hpages, rfl⟩ := Option.map_eq_some_iff.mp hfork
      have hpaged : SemKept n i (m.takeCopy new) { m.takeCopy new with toKernel := k' } := by
        obtain ⟨d, -, rfl⟩ := Kernel.allocateDIR_eq_some hk
        obtain ⟨mm, rfl⟩ := Kernel.inheritPages_eq_some hpages
        exact of_semaphores ⟨rfl, rfl⟩ rfl
      have hpaged := hcopied.trans hpaged
      dsimp only
      split
      next =>
        apply hpaged.trans
        have hready := makeReady (n := n) (i := i)
          (m := ({ m.takeCopy new with toKernel := k' } : Model).mapKernel (Kernel.forkContext new)) new
        exact ⟨⟨hready.seq, hready.shape⟩, hready.entry, hready.found⟩
      next => exact hpaged

theorem clone (h : Settled m live) (function stack : Addr)
    : SemKept n i m (m.clone function stack).2 := by
  unfold Model.clone
  split
  next => exact refl n i m
  next =>
    split
    next => exact refl n i m
    next new rest hcons =>
      have hcopied : SemKept n i m (m.takeCopy new) := takeCopy h (by simp [hcons])
      apply hcopied.trans
      have hready := makeReady (n := n) (i := i)
        (m := (m.takeCopy new).mapKernel (Kernel.cloneContext new)) new
      exact ⟨⟨hready.seq, hready.shape⟩, hready.entry, hready.found⟩

end Fork

section Keyboard

theorem schedNext_semaphores : m.schedNext.semaphores = m.semaphores :=
  Rescheduled.schedNext.semaphores

theorem waitKeyboard_semaphores (buff : Addr) : (m.waitKeyboard buff).semaphores = m.semaphores := by
  unfold Model.waitKeyboard
  rw [schedNext_semaphores]
  rfl

theorem readKeyboardBody_semaphores (buff : Addr)
    : (m.readKeyboardBody buff).semaphores = m.semaphores := by
  unfold Model.readKeyboardBody
  dsimp only
  split
  next =>
    obtain ⟨mm, keyboardBuff, copies, stopped, heq⟩ :=
      m.readKeysLoop_eq (m.task m.current).requiredKeys.toNat buff
    rw [heq]
    split
    next => rfl
    next => rfl
  next =>
    split
    next =>
      obtain ⟨mm, keyboardBuff, copies, stopped, heq⟩ := m.readKeysLoop_eq cirBufferSize buff
      rw [heq]
      split
      next => rfl
      next =>
        rw [waitKeyboard_semaphores]
        rfl
    next => exact waitKeyboard_semaphores buff

theorem read (h : Settled m live) (hidle : m.current ≠ m.idleTask) (fd : Int) (buf : Addr) (count : Int)
    : SemKept n i m (m.read fd buf count) := by
  apply of_semaphores (Kept.read h hidle fd buf count (by simp) (by simp))
  rcases m.read_cases fd buf count with ⟨r, heq⟩ | heq | heq
  . rw [heq]
    rfl
  . rw [heq, schedNext_semaphores]
    rfl
  . rw [heq]
    exact readKeyboardBody_semaphores buf

theorem keyboardRutine (h : Settled m live) (entrada beyond : Byte)
    : SemKept n i m (m.keyboardRutine entrada beyond) := by
  apply of_semaphores (Kept.keyboardRutine h entrada beyond (by simp) (by simp))
  unfold Model.keyboardRutine
  split
  next =>
    dsimp only
    split
    next => rfl
    next =>
      split
      next => rfl
      next => rfl
  next => rfl

theorem resume (h : Settled m live) : SemKept n i m m.resume := by
  apply of_semaphores (Kept.resume h (by simp) (by simp))
  unfold Model.resume
  split
  next => rfl
  next => rfl
  next => rfl
  next => exact readKeyboardBody_semaphores _

end Keyboard

section Others

variable {nSem : Int} {j : SemIx}

theorem ne_of_cercaSem (hi : m.cercaSem n = some i) (hne : nSem ≠ n) (hj : m.cercaSem nSem = some j)
    : i ≠ j := by
  rintro rfl
  apply hne
  rw [← (Kernel.cercaSem_eq_some hj).1, (Kernel.cercaSem_eq_some hi).1]

theorem setSem {k k' : Kernel} {f : Semaphore → Semaphore} (hij : i ≠ j)
    (hk : k'.semaphores = (k.setSem j f).semaphores)
    (hbefore : ¬((k.semaphores j).nSem = n ∧ (k.semaphores j).state = .usedSem))
    (hafter : ¬((f (k.semaphores j)).nSem = n ∧ (f (k.semaphores j)).state = .usedSem))
    : k'.semaphores i = k.semaphores i ∧ k'.cercaSem n = k.cercaSem n := by
  constructor
  . rw [hk, Kernel.setSem_semaphores, if_neg hij]
  . apply Kernel.cercaSem_congr
    intro l
    rw [hk, Kernel.setSem_semaphores]
    split
    next heq =>
      rw [heq]
      exact ⟨fun h => absurd h hafter, fun h => absurd h hbefore⟩
    next => exact Iff.rfl

theorem semInit (hi : m.cercaSem n = some i) {value : BitVec 32} {x : Int × Model}
    (hinit : m.semInit nSem value = some x) : SemKept n i m x.2 := by
  have hused := (Kernel.cercaSem_eq_some hi).2
  have hkept : Kept (.blockedQueue i) m x.2 := by
    apply Kept.semInit hinit
    rintro j hj ⟨⟩
    rw [hused] at hj
    cases hj
  unfold Model.semInit at hinit
  split at hinit
  next =>
    cases hinit
    exact refl n i m
  next hnone =>
    obtain ⟨j, hj, rfl⟩ := Option.map_eq_some_iff.mp hinit
    have hfree := Kernel.cercaSemLliure_eq_some hj
    have hij : i ≠ j := by
      rintro rfl
      rw [hused] at hfree
      cases hfree
    have hne : nSem ≠ n := by
      rintro rfl
      rw [hi] at hnone
      exact hnone rfl
    have hopened : (m.toKernel.openSem j nSem value).semaphores i = m.semaphores i ∧
        (m.toKernel.openSem j nSem value).cercaSem n = m.cercaSem n :=
      setSem hij rfl (by simp [hfree]) (by simp [hne])
    obtain ⟨hentry, hfound⟩ := hopened
    exact ⟨hkept, hentry, hfound⟩

theorem addCounter (hi : m.cercaSem n = some i) (hne : nSem ≠ n) (hj : m.cercaSem nSem = some j)
    {k : Kernel} {c : Int} (hk : k.semaphores = (m.toKernel.addCounter j c).semaphores)
    : k.semaphores i = m.semaphores i ∧ k.cercaSem n = m.cercaSem n := by
  have hother : (m.semaphores j).nSem ≠ n := by
    rw [(Kernel.cercaSem_eq_some hj).1]
    exact hne
  exact setSem (ne_of_cercaSem hi hne hj) hk (fun h => hother h.1) (fun h => hother h.1)

theorem semWait (h : Settled m live) (hidle : m.current ≠ m.idleTask) (hi : m.cercaSem n = some i)
    (hne : nSem ≠ n) : SemKept n i m (m.semWait nSem) := by
  have hkept : Kept (.blockedQueue i) m (m.semWait nSem) := by
    apply Kept.semWait h hidle nSem (by simp)
    rintro j hj ⟨⟩
    exact ne_of_cercaSem hi hne hj rfl
  cases hj : m.cercaSem nSem with
  | none =>
    apply of_semaphores hkept
    rw [semWait_of_none hj]
    rfl
  | some j =>
    by_cases hcounter : (m.semaphores j).counter ≤ 0
    . apply of_semaphores hkept
      rw [semWait_of_nonpos hj hcounter, schedNext_semaphores]
      rfl
    . have hsem : (m.semWait nSem).semaphores = (m.toKernel.addCounter j (-1)).semaphores := by
        rw [semWait_of_pos hj hcounter]
        rfl
      obtain ⟨hentry, hfound⟩ := addCounter hi hne hj hsem
      exact ⟨hkept, hentry, hfound⟩

theorem semSignal (h : Settled m live) (hi : m.cercaSem n = some i) (hne : nSem ≠ n)
    : SemKept n i m (m.semSignal nSem).2 := by
  have hkept : Kept (.blockedQueue i) m (m.semSignal nSem).2 := by
    apply Kept.semSignal h nSem (by simp)
    rintro j hj ⟨⟩
    exact ne_of_cercaSem hi hne hj rfl
  cases hj : m.cercaSem nSem with
  | none =>
    apply of_semaphores hkept
    rw [semSignal_of_none hj]
  | some j =>
    cases hseq : m.seq (.blockedQueue j) with
    | nil =>
      have hsem : (m.semSignal nSem).2.semaphores = (m.toKernel.addCounter j 1).semaphores := by
        rw [semSignal_of_nil hj hseq]
        rfl
      obtain ⟨hentry, hfound⟩ := addCounter hi hne hj hsem
      exact ⟨hkept, hentry, hfound⟩
    | cons t ts =>
      apply of_semaphores hkept
      rw [semSignal_of_cons hj hseq]
      rfl

theorem unblock_semaphores (ts : List Slot) : (m.unblock ts).semaphores = m.semaphores := by
  induction ts generalizing m with
  | nil => rfl
  | cons t ts ih =>
    apply Eq.trans ih
    rfl

theorem semDestroy (h : Settled m live) (hi : m.cercaSem n = some i) (hne : nSem ≠ n)
    : SemKept n i m (m.semDestroy nSem).2 := by
  have hkept : Kept (.blockedQueue i) m (m.semDestroy nSem).2 := by
    apply Kept.semDestroy h.placed nSem (by simp)
    rintro j hj ⟨⟩
    exact ne_of_cercaSem hi hne hj rfl
  cases hj : m.cercaSem nSem with
  | none =>
    apply of_semaphores hkept
    rw [semDestroy_of_none hj]
  | some j =>
    by_cases howner : (m.semaphores j).owner = (m.task m.current).pid
    . have hsem : (m.semDestroy nSem).2.semaphores = (m.toKernel.closeSem j).semaphores := by
        rw [semDestroy_of_owner hj howner]
        funext l
        show ((m.unblock _).toKernel.closeSem j).semaphores l = _
        rw [Kernel.closeSem_semaphores, Kernel.closeSem_semaphores, unblock_semaphores]
      have hother : (m.semaphores j).nSem ≠ n := by
        rw [(Kernel.cercaSem_eq_some hj).1]
        exact hne
      obtain ⟨hentry, hfound⟩ := setSem (n := n) (ne_of_cercaSem hi hne hj) hsem
        (fun h => hother h.1) (by simp)
      exact ⟨hkept, hentry, hfound⟩
    . apply of_semaphores hkept
      rw [semDestroy_of_not_owner hj howner]

end Others

theorem routine_of_not (h : Settled m live) {event : Event}
    (hidle : event.OfProcess → m.current ≠ m.idleTask) (hevent : ¬event.ChangesTable)
    (hm' : Model.routine event m = some m') : SemKept n i m m' := by
  cases event with
  | fork =>
    obtain ⟨x, hx, rfl⟩ := Option.map_eq_some_iff.mp hm'
    exact (fork h hx).trans (result x)
  | clone function stack =>
    cases hm'
    exact (clone h function stack).trans (result _)
  | exit => exact absurd (.inl rfl) hevent
  | semInit n value => exact absurd (.inr (.inl ⟨n, value, rfl⟩)) hevent
  | semWait n => exact absurd (.inr (.inr (.inl ⟨n, rfl⟩))) hevent
  | semSignal n => exact absurd (.inr (.inr (.inr (.inl ⟨n, rfl⟩)))) hevent
  | semDestroy n => exact absurd (.inr (.inr (.inr (.inr ⟨n, rfl⟩)))) hevent
  | read fd buf count =>
    cases hm'
    exact read h (hidle (by simp [Event.OfProcess])) fd buf count
  | sbrk incr =>
    cases hm'
    obtain ⟨task, mm, cr3, heq, -⟩ := Kernel.sysSbrk_eq incr m.toKernel
    have hsem : (m.sysSbrk incr).2.semaphores = m.semaphores := by
      rw [heq]
    exact of_semaphores ⟨rfl, rfl⟩ hsem
  | clock =>
    cases hm'
    exact of_semaphores (Kept.clockRutine h (by simp)) Rescheduled.clockRutine.semaphores
  | keyboard entrada beyond =>
    cases hm'
    exact keyboardRutine h entrada beyond
  | store a v =>
    obtain ⟨k, hk, rfl⟩ := Option.map_eq_some_iff.mp hm'
    obtain ⟨mm, rfl⟩ := Kernel.userStore_eq_some hk
    exact of_semaphores ⟨rfl, rfl⟩ rfl
  | resume =>
    cases hm'
    exact resume h

theorem routine (h : Settled m live) (hi : m.cercaSem n = some i) {event : Event}
    (hidle : event.OfProcess → m.current ≠ m.idleTask) (hexit : event ≠ .exit)
    (hwait : event ≠ .semWait n) (hsignal : event ≠ .semSignal n) (hdestroy : event ≠ .semDestroy n)
    (hm' : Model.routine event m = some m') : SemKept n i m m' := by
  cases event with
  | exit => exact absurd rfl hexit
  | semInit nSem value =>
    obtain ⟨x, hx, rfl⟩ := Option.map_eq_some_iff.mp hm'
    exact (semInit hi hx).trans (result x)
  | semWait nSem =>
    cases hm'
    exact semWait h (hidle (by simp [Event.OfProcess])) hi (by simpa using hwait)
  | semSignal nSem =>
    cases hm'
    exact (semSignal h hi (by simpa using hsignal)).trans (result _)
  | semDestroy nSem =>
    cases hm'
    exact (semDestroy h hi (by simpa using hdestroy)).trans (result _)
  | _ => exact routine_of_not h hidle (by simp [Event.ChangesTable]) hm'

end SemKept

def Model.semaphore (i : SemIx) (m : Model) : Turnstile.State Slot :=
  { counter := (m.semaphores i).counter, queue := m.seq (.blockedQueue i) }

section Calls

variable {m m' : Model} {live : Finset Slot} {n : Int} {i : SemIx}

theorem semaphore_semWait (h : Settled m live) (hidle : m.current ≠ m.idleTask)
    (hi : m.cercaSem n = some i)
    : (m.semWait n).semaphore i = (m.semaphore i).wait m.current ∧
        (m.semWait n).cercaSem n = some i ∧
        ((m.semWait n).current = m.current ∧ (m.semWait n).eax m.current = 0 ↔
          0 < (m.semaphore i).counter) := by
  have hclear := h.setSemRet m.current 0
  have hsettled := h.semWait hidle n
  by_cases hcounter : (m.semaphores i).counter ≤ 0
  . have hblock := semWait_of_nonpos hi hcounter
    have hsem : (m.semWait n).semaphores = m.semaphores := by
      rw [hblock, SemKept.schedNext_semaphores]
      rfl
    have hseq : (m.semWait n).seq (.blockedQueue i) = m.seq (.blockedQueue i) ++ [m.current] := by
      have hkept : Kept (.blockedQueue i) _ _ :=
        Kept.schedNext (hclear.queueWaiting hidle (Settled.waits_of_cercaSem hi)) (by simp)
      rw [hblock, hkept.seq]
      show (if Queue.blockedQueue i = .blockedQueue i then
        (m.seq (.blockedQueue i)).erase m.current ++ [m.current] else _) = _
      rw [if_pos rfl, List.erase_of_not_mem (h.current_not_mem _)]
    refine ⟨?_, ?_, ?_⟩
    . unfold Model.semaphore State.wait
      rw [if_pos hcounter, hsem, hseq]
    . exact (Kernel.cercaSem_of_semaphores hsem).trans hi
    . constructor
      . rintro ⟨hsame, -⟩
        have hnot := hsettled.current_not_mem (.blockedQueue i)
        rw [hsame, hseq] at hnot
        exact absurd (by simp) hnot
      . intro hpos
        exact absurd hcounter (not_le.mpr hpos)
  . have hpass := semWait_of_pos hi hcounter
    refine ⟨?_, ?_, ?_⟩
    . rw [hpass]
      unfold Model.semaphore State.wait
      rw [if_neg hcounter]
      simp [ret, Int.sub_eq_add_neg]
    . rw [hpass]
      exact Kernel.cercaSem_addCounter.trans hi
    . rw [hpass]
      have hpos : 0 < (m.semaphores i).counter := not_le.mp hcounter
      simp [ret, Model.semaphore, hpos]

theorem semaphore_semSignal (h : Settled m live) (hi : m.cercaSem n = some i)
    : (m.semSignal n).2.semaphore i = (m.semaphore i).signal ∧
        (m.semSignal n).2.cercaSem n = some i ∧
        (∀ t ∈ (m.seq (.blockedQueue i)).head?, t ∈ (m.semSignal n).2.seq .readyqueue) ∧
        ∀ t ∈ (m.seq (.blockedQueue i)).tail, t ∉ (m.semSignal n).2.seq .readyqueue := by
  have hsettled := h.semSignal n
  cases hseq : m.seq (.blockedQueue i) with
  | nil =>
    rw [semSignal_of_nil hi hseq]
    refine ⟨?_, ?_, ?_, ?_⟩
    . unfold Model.semaphore State.signal
      dsimp only
      rw [hseq]
      simp [hseq]
    . exact Kernel.cercaSem_addCounter.trans hi
    . rintro t ⟨⟩
    . rintro t ⟨⟩
  | cons t ts =>
    have hwake := semSignal_of_cons hi hseq
    have hrest : (m.semSignal n).2.seq (.blockedQueue i) = ts := by
      rw [hwake]
      exact Placed.seq_wake (by simp) hseq
    refine ⟨?_, ?_, ?_, ?_⟩
    . unfold Model.semaphore State.signal
      dsimp only
      rw [hseq, hrest, hwake]
      rfl
    . rw [hwake]
      exact hi
    . rintro u ⟨⟩
      rw [hwake]
      show t ∈ (m.seq .readyqueue).erase t ++ [t]
      simp
    . intro u hu hready
      rw [List.tail_cons, ← hrest] at hu
      cases hsettled.placed.disjoint _ _ u hu hready

end Calls

structure Passing (n : Int) (v : Nat) (i : SemIx) (x : Sys × Passage Slot) (m : Model) : Prop where
  follows : ∃ live, Follows (x.1, live) m
  ring : m.queues.shape .freequeue = .ring
  found : m.cercaSem n = some i
  meets : x.2.Meets v (m.semaphore i)

namespace Passing

variable {x y : Sys × Passage Slot} {m : Model} {n : Int} {v : Nat} {i : SemIx}

theorem members_readyqueue {z : Sys × Finset Slot} (h : Follows z m)
    : z.1.members .readyqueue = m.seq .readyqueue :=
  h.refines.members_eq h.settled.placed.ready

theorem passageAfter_of_ne {event : Event} {s s' : Sys} {p : Passage Slot}
    (hwait : event ≠ .semWait n) (hsignal : event ≠ .semSignal n) : passageAfter n event s s' p = p := by
  cases event with
  | semWait nSem => exact if_neg (by simpa using hwait)
  | semSignal nSem => exact if_neg (by simpa using hsignal)
  | _ => rfl

theorem step (h : Passing n v i x m) {e : Input} (hexit : e.event ≠ .exit)
    (hdestroy : e.event ≠ .semDestroy n) (hstep : Sys.stepPassage n e x = some y)
    : ∃ m', Passing n v i y m' := by
  obtain ⟨live, hfollows⟩ := h.follows
  obtain ⟨hsys, hrecord⟩ := Run.ghost_eq_some.mp hstep
  obtain ⟨live', hlive⟩ := Sys.exists_stepLive live hsys
  obtain ⟨m', hm', hfollows', hring⟩ := hfollows.step_ring h.ring hexit hlive
  obtain ⟨k, hentry, hroutine⟩ := Model.step_eq_some hm'
  have hsettled := hfollows.settled.entry hentry
  have hentered := Kernel.entered_of_entry hentry
  have hidle := idle_of_entry hentry
  have hkernel' : y.1.toKernel = m'.toKernel := hfollows'.refines.kernel
  have hcurrent : x.1.current = k.current := by
    rw [hentered.current, hfollows.refines.kernel]
  have hfound : ({ m with toKernel := k } : Model).cercaSem n = some i :=
    (Kernel.cercaSem_of_semaphores hentered.semaphores).trans h.found
  have hmeets : x.2.Meets v (({ m with toKernel := k } : Model).semaphore i) := by
    unfold Model.semaphore
    rw [hentered.semaphores]
    exact h.meets
  suffices m'.cercaSem n = some i ∧ y.2.Meets v (m'.semaphore i) from
    ⟨m', ⟨_, hfollows'⟩, hring, this.1, this.2⟩
  rw [hrecord]
  by_cases hwait : e.event = .semWait n
  . rw [hwait] at hroutine hidle ⊢
    obtain rfl := Option.some.inj hroutine
    obtain ⟨hsem, hcerca, hpass⟩ :=
      semaphore_semWait hsettled (hidle (by simp [Event.OfProcess])) hfound
    refine ⟨hcerca, ?_⟩
    have hafter : passageAfter n (.semWait n) x.1 y.1 x.2 =
        x.2.wait k.current (0 < (({ m with toKernel := k } : Model).semaphore i).counter) := by
      unfold passageAfter
      dsimp only
      rw [if_pos rfl, hcurrent, hkernel']
      congr 1
      exact decide_eq_decide.mpr hpass
    rw [hafter, hsem]
    exact hmeets.wait
  . by_cases hsignal : e.event = .semSignal n
    . rw [hsignal] at hroutine ⊢
      obtain rfl := Option.some.inj hroutine
      obtain ⟨hsem, hcerca, hfirst, hrest⟩ := semaphore_semSignal hsettled hfound
      refine ⟨hcerca, ?_⟩
      have hafter : passageAfter n (.semSignal n) x.1 y.1 x.2 =
          x.2.signal fun t => t ∈ (Model.semSignal n { m with toKernel := k }).2.seq .readyqueue := by
        unfold passageAfter
        dsimp only
        rw [if_pos rfl, members_readyqueue hfollows']
        rfl
      have hsem' : (Model.result (Model.semSignal n { m with toKernel := k })).semaphore i =
          (({ m with toKernel := k } : Model).semaphore i).signal := hsem
      rw [hafter, hsem']
      apply hmeets.signal
      . intro t ht
        simpa using hfirst t ht
      . intro t ht
        simpa using hrest t ht
    . have hkept := SemKept.routine hsettled hfound hidle hexit hwait hsignal hdestroy hroutine
      refine ⟨hkept.found.trans hfound, ?_⟩
      rw [passageAfter_of_ne hwait hsignal]
      unfold Model.semaphore
      rw [hkept.entry, hkept.seq]
      exact hmeets

theorem start {z w : Sys × Finset Slot} {m : Model} (h : Follows z m)
    (hring : m.queues.shape .freequeue = .ring) {e : Input} {value : BitVec 32}
    (hevent : e.event = .semInit n value) (hvalue : value.toNat < 2 ^ 31)
    (hstep : Sys.stepLive e z = some w) (hcreated : w.1.eax z.1.current = 0)
    : ∃ i m', Passing n value.toNat i (w.1, .start) m' := by
  obtain ⟨m', hm', hfollows', hring'⟩ := h.step_ring hring (by simp [hevent]) hstep
  obtain ⟨k, hentry, hroutine⟩ := Model.step_eq_some hm'
  have hentered := Kernel.entered_of_entry hentry
  have hcurrent : z.1.current = k.current := by
    rw [hentered.current, h.refines.kernel]
  rw [hevent] at hroutine
  obtain ⟨x, hx, rfl⟩ := Option.map_eq_some_iff.mp hroutine
  have hresult : x.1 = 0 ∨ x.2.current ≠ k.current := by
    by_cases hsame : x.2.current = k.current
    . left
      rw [hcurrent, hfollows'.refines.kernel] at hcreated
      simpa [Model.result, ret, hsame] using hcreated
    . exact .inr hsame
  unfold Model.semInit at hx
  split at hx
  next =>
    cases hx
    simp [eBUSY] at hresult
  next hnone =>
    obtain ⟨i, hi, rfl⟩ := Option.map_eq_some_iff.mp hx
    refine ⟨i, _, ⟨_, hfollows'⟩, hring', ?_, ?_⟩
    . exact Kernel.cercaSem_openSem (by simpa using hnone)
    . have hvalue : value.toInt = value.toNat := by
        rw [BitVec.toInt_eq_toNat_of_lt]
        omega
      have hsem : (Model.result ((0 : Int), (({ m with toKernel := k } : Model).mapKernel
          (Kernel.openSem i n value)).mapQueues (Queues.init (.blockedQueue i)))).semaphore i =
          { counter := value.toNat, queue := [] } := by
        unfold Model.semaphore
        rw [← hvalue]
        simp [Model.result, ret]
      rw [hsem]
      exact .start _

end Passing

end Zeos
