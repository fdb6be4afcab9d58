import Zeos.Spec.SharedHeap
import Zeos.Lemmas.Sbrk
import Zeos.Lemmas.Places
import Zeos.Lemmas.Quantums

/-!
Tasks that share an address space do not get the same addresses from `sys_sbrk`, as long as the one with
the highest break is the only one that moves it.
-/

namespace Zeos

open Model

namespace Kernel

section Call

variable {k : Kernel} {incr : Int}

theorem mapsPage_sysSbrk {p : Nat} (hbefore : p * pageSize < k.currentBreak)
    (hafter : p * pageSize < k.breakAfter incr) (hpresent : k.MapsPage (k.getDIR k.current) p)
    : (k.sysSbrk incr).2.MapsPage (k.getDIR k.current) p := by
  have hbreak : (k.task k.current).processBreak = k.currentBreak := rfl
  have hfirst : p ≤ k.currentBreak / pageSize :=
    (Nat.le_div_iff_mul_le (by decide)).mpr (le_of_lt hbefore)
  have hlast : p ≤ k.breakAfter incr / pageSize :=
    (Nat.le_div_iff_mul_le (by decide)).mpr (le_of_lt hafter)
  unfold MapsPage at *
  unfold sysSbrk
  simp only [hbreak]
  unfold breakAfter at hlast
  generalize addUnsigned k.currentBreak (clampIncr k.currentBreak incr) = newBreak at hlast ⊢
  generalize (if newBreak % pageSize = 0 then 0 else 1 : Nat) = aux
  split
  next => exact hpresent
  next =>
    split
    next =>
      have hgrow : ∀ n, ((sbrkGrow (k.getPT k.current) (k.currentBreak / pageSize : Nat) aux n
          (k.currentBreak / pageSize) k.mm).2.pagusrTable (k.getPT k.current + p)).present = true := by
        intro n
        apply sbrkGrow_present
        . omega
        . exact hpresent
      split
      next mm heq =>
        have hsame : (sbrkGrow _ _ _ _ _ _).2 = mm := congrArg Prod.snd heq
        rw [← hsame]
        exact hgrow _
      next mm heq =>
        have hsame : (sbrkGrow _ _ _ _ _ _).2 = mm := congrArg Prod.snd heq
        rw [← hsame]
        exact hgrow _
    next =>
      split
      next =>
        have hshrink : ((sbrkShrink (k.getPT k.current) ((newBreak / pageSize : Nat) + aux)
            (k.currentBreak / pageSize + 1) (k.currentBreak / pageSize) k.mm).2.pagusrTable
              (k.getPT k.current + p)).present = true := by
          rw [sbrkShrink_table]
          . exact hpresent
          . omega
        split
        next => exact hshrink
        next => exact hshrink
      next => exact hpresent

end Call

def space (k : Kernel) (t : Slot) : Nat × DirIx :=
  (k.processBreak t, k.getDIR t)

theorem space_of_task {k k' : Kernel}
    (hbreak : ∀ t, (k'.task t).processBreak = (k.task t).processBreak)
    (hdir : ∀ t, (k'.task t).dirPagesBaseAddr = (k.task t).dirPagesBaseAddr)
    : k'.space = k.space := by
  funext t
  unfold space processBreak getDIR
  rw [hbreak, hdir]

theorem space_congr {k k' : Kernel} {t : Slot} (h : k'.task t = k.task t) : k'.space t = k.space t := by
  unfold space processBreak getDIR
  rw [h]

theorem space_rescheduled {k k' : Kernel} (h : Rescheduled k k') : k'.space = k.space := by
  funext t
  obtain ⟨_, _, ht⟩ := h.task t
  unfold space processBreak getDIR
  rw [ht]

theorem space_entered {k k' : Kernel} (h : Entered k k') : k'.space = k.space := by
  funext t
  obtain ⟨_, ht⟩ := h.task t
  unfold space processBreak getDIR
  rw [ht]

theorem space_readKeysLoop {k : Kernel} (n : Nat) (buff : Addr)
    : (k.readKeysLoop n buff).2.space = k.space := by
  obtain ⟨mm, keyboardBuff, copies, stopped, heq⟩ := k.readKeysLoop_eq n buff
  rw [heq]
  exact space_of_task (fun _ => rfl) fun _ => rfl

theorem space_readKeys {k : Kernel} (n : Nat) (buff : Addr) (r : Int)
    : ((k.readKeysLoop n buff).2.addReadKeys r).space = k.space := by
  refine Eq.trans ?_ (space_readKeysLoop n buff)
  apply space_of_task
  . simp
  . simp

end Kernel

section Spaces

variable {m m' : Model} {t : Slot}

theorem space_schedNext : m.schedNext.space = m.space :=
  Kernel.space_rescheduled .schedNext

theorem space_exitRunCurrent (q : Queue) : (m.exitRunCurrent q).space = m.space :=
  Kernel.space_rescheduled .exitRunCurrent

theorem space_updateProcessState (t : Slot) (dst : Option Queue)
    : (m.updateProcessState t dst).space = m.space :=
  Kernel.space_rescheduled (.updateProcessState t dst)

theorem space_setSemRet (t : Slot) (r : Int)
    : (m.mapKernel (Kernel.setSemRet t r)).space = m.space := by
  apply Kernel.space_of_task
  . simp
  . simp

theorem space_waitKeyboard (buff : Addr) : (m.waitKeyboard buff).space = m.space := by
  unfold Model.waitKeyboard
  rw [space_schedNext]
  apply Kernel.space_of_task
  . simp
  . simp

theorem space_readKeyboardBody (buff : Addr) : (m.readKeyboardBody buff).space = m.space := by
  unfold Model.readKeyboardBody
  dsimp only
  split
  next =>
    split
    next => exact Kernel.space_readKeysLoop _ _
    next => exact Kernel.space_readKeys _ _ _
  next =>
    split
    next =>
      split
      next => exact Kernel.space_readKeysLoop _ _
      next =>
        rw [space_waitKeyboard]
        exact Kernel.space_readKeys _ _ _
    next => exact space_waitKeyboard buff

theorem space_read (fd : Int) (buf : Addr) (count : Int) : (m.read fd buf count).space = m.space := by
  have hrequire : (m.mapKernel (Kernel.requireKeys count)).space = m.space := by
    apply Kernel.space_of_task
    . simp
    . simp
  rcases m.read_cases fd buf count with ⟨r, heq⟩ | heq | heq
  . rw [heq]
    rfl
  . rw [heq, space_schedNext]
    have hmoved := (space_updateProcessState m.current (some .keyboardqueue)).trans hrequire
    exact hmoved
  . rw [heq]
    exact (space_readKeyboardBody buf).trans hrequire

theorem space_semWait (nSem : Int) : (m.semWait nSem).space = m.space := by
  have hclear := space_setSemRet (m := m) m.current 0
  unfold Model.semWait
  split
  next => rfl
  next =>
    dsimp only
    split
    next =>
      rw [space_schedNext]
      exact (space_exitRunCurrent _).trans hclear
    next => exact hclear

theorem space_semSignal (nSem : Int) : (m.semSignal nSem).2.space = m.space := by
  unfold Model.semSignal
  split
  next => rfl
  next =>
    split
    next => rfl
    next => exact space_updateProcessState _ _

theorem space_unblock (ts : List Slot) : (m.unblock ts).space = m.space := by
  induction ts generalizing m with
  | nil => rfl
  | cons t ts ih =>
    apply Eq.trans ih
    exact (space_updateProcessState _ _).trans (space_setSemRet _ _)

theorem space_semDestroy (nSem : Int) : (m.semDestroy nSem).2.space = m.space := by
  unfold Model.semDestroy
  split
  next => rfl
  next =>
    split
    next => rfl
    next => exact space_unblock _

theorem space_keyboardRutine (entrada beyond : Byte)
    : (m.keyboardRutine entrada beyond).space = m.space := by
  unfold Model.keyboardRutine
  split
  next =>
    dsimp only
    split
    next => rfl
    next =>
      split
      next => exact space_updateProcessState _ _
      next => rfl
  next => rfl

theorem space_resume : m.resume.space = m.space := by
  unfold Model.resume
  split
  next =>
    apply Kernel.space_of_task
    . simp
    . simp
  next => rfl
  next => rfl
  next => exact space_readKeyboardBody _

theorem space_makeReady {new : Slot} : (makeReady new m).2.space = m.space := by
  apply Kernel.space_of_task
  . simp [makeReady]
  . simp [makeReady]

theorem space_fork {x : Int × Model} (hfork : m.fork = some x)
    : (∀ t ∉ m.seq .freequeue, x.2.space t = m.space t) ∧
        (x.2.incrementalPID ≠ m.incrementalPID → ∀ new ∈ (m.seq .freequeue).head?,
          x.2.processBreak new = m.processBreak m.current) := by
  unfold Model.fork at hfork
  split at hfork
  next =>
    cases hfork
    exact ⟨fun _ _ => rfl, fun hpid => absurd rfl hpid⟩
  next new rest hcons =>
    have hcopied : ∀ t ∉ m.seq .freequeue, (m.takeCopy new).space t = m.space t := by
      intro t ht
      rw [hcons] at ht
      apply Kernel.space_congr
      simp [Model.takeCopy, List.ne_of_not_mem_cons ht]
    dsimp only at hfork
    split at hfork
    next =>
      cases hfork
      exact ⟨hcopied, fun hpid => absurd rfl hpid⟩
    next k hk =>
      obtain ⟨⟨enough, k'⟩, hpages, rfl⟩ := Option.map_eq_some_iff.mp hfork
      obtain ⟨d, -, rfl⟩ := Kernel.allocateDIR_eq_some hk
      obtain ⟨mm, rfl⟩ := Kernel.inheritPages_eq_some hpages
      have hpaged : ∀ t ∉ m.seq .freequeue, ((((m.takeCopy new).setTask new fun ts =>
          { ts with dirPagesBaseAddr := d, nDirectorio := d }).setRefs d 1).space t) =
            m.space t := by
        intro t ht
        rw [← hcopied t ht]
        rw [hcons] at ht
        apply Kernel.space_congr
        simp [List.ne_of_not_mem_cons ht]
      dsimp only
      split
      next =>
        constructor
        . intro t ht
          rw [space_makeReady]
          exact hpaged t ht
        . rintro - u hu
          rw [hcons] at hu
          cases hu
          simp [Kernel.processBreak, makeReady, Model.takeCopy, Kernel.forkContext]
      next => exact ⟨hpaged, fun hpid => absurd rfl hpid⟩

theorem space_clone (function stack : Addr)
    : (∀ t ∉ m.seq .freequeue, (m.clone function stack).2.space t = m.space t) ∧
        ((m.clone function stack).2.incrementalPID ≠ m.incrementalPID →
          ∀ new ∈ (m.seq .freequeue).head?,
            (m.clone function stack).2.processBreak new = m.processBreak m.current) := by
  unfold Model.clone
  split
  next => exact ⟨fun _ _ => rfl, fun hpid => absurd rfl hpid⟩
  next =>
    split
    next => exact ⟨fun _ _ => rfl, fun hpid => absurd rfl hpid⟩
    next new rest hcons =>
      constructor
      . intro t ht
        rw [hcons] at ht
        rw [space_makeReady]
        apply Kernel.space_congr
        simp [Model.takeCopy, Kernel.cloneContext, List.ne_of_not_mem_cons ht]
      . rintro - u hu
        rw [hcons] at hu
        cases hu
        simp [Kernel.processBreak, makeReady, Model.takeCopy, Kernel.cloneContext]

theorem space_routine {event : Event} (hexit : event ≠ .exit) (hsbrk : ∀ incr, event ≠ .sbrk incr)
    (hm' : Model.routine event m = some m') (ht : t ∉ m.seq .freequeue) : m'.space t = m.space t := by
  cases event with
  | fork =>
    obtain ⟨x, hx, rfl⟩ := Option.map_eq_some_iff.mp hm'
    exact (space_fork hx).1 t ht
  | clone function stack =>
    cases hm'
    exact (space_clone function stack).1 t ht
  | exit => exact absurd rfl hexit
  | semInit nSem value =>
    obtain ⟨x, hx, rfl⟩ := Option.map_eq_some_iff.mp hm'
    unfold Model.semInit at hx
    split at hx
    next =>
      cases hx
      rfl
    next =>
      obtain ⟨i, -, rfl⟩ := Option.map_eq_some_iff.mp hx
      rfl
  | semWait nSem =>
    cases hm'
    rw [space_semWait]
  | semSignal nSem =>
    cases hm'
    exact congrFun (space_semSignal nSem) t
  | semDestroy nSem =>
    cases hm'
    exact congrFun (space_semDestroy nSem) t
  | read fd buf count =>
    cases hm'
    rw [space_read]
  | sbrk incr => exact absurd rfl (hsbrk incr)
  | clock =>
    cases hm'
    rw [Kernel.space_rescheduled .clockRutine]
  | keyboard entrada beyond =>
    cases hm'
    rw [space_keyboardRutine]
  | store a v =>
    obtain ⟨k, hk, rfl⟩ := Option.map_eq_some_iff.mp hm'
    obtain ⟨mm, rfl⟩ := Kernel.userStore_eq_some hk
    rfl
  | resume =>
    cases hm'
    rw [space_resume]

theorem processBreak_created {event : Event} (hm' : Model.routine event m = some m') {new : Slot}
    (hnew : createdBy event m.toKernel m'.toKernel (m.seq .freequeue).head? = some new)
    : m'.processBreak new = m.processBreak m.current := by
  obtain ⟨hpid, hfree⟩ := createdBy_eq_some hnew
  cases event with
  | fork =>
    obtain ⟨x, hx, rfl⟩ := Option.map_eq_some_iff.mp hm'
    exact (space_fork hx).2 hpid new hfree
  | clone function stack =>
    cases hm'
    exact (space_clone function stack).2 hpid new hfree
  | _ => cases hnew

end Spaces

namespace HeapRange

variable {a c : HeapRange} {t : Slot} {b : Nat}

@[simp]
theorem task_cut : (a.cut t b).task = a.task := by
  unfold cut
  split <;> rfl

@[simp]
theorem dir_cut : (a.cut t b).dir = a.dir := by
  unfold cut
  split <;> rfl

@[simp]
theorem start_cut : (a.cut t b).start = a.start := by
  unfold cut
  split <;> rfl

theorem stop_cut_le : (a.cut t b).stop ≤ a.stop := by
  unfold cut
  split
  next => exact min_le_left _ _
  next => exact le_refl _

theorem stop_cut_of_task (ht : a.task = t) : (a.cut t b).stop ≤ b := by
  unfold cut
  rw [if_pos ht]
  exact min_le_right _ _

theorem Apart.cut (h : a.Apart c) : (a.cut t b).Apart (c.cut t b) := by
  intro hdir
  rw [dir_cut, dir_cut] at hdir
  rw [start_cut, start_cut]
  have ha : (a.cut t b).stop ≤ a.stop := stop_cut_le
  have hc : (c.cut t b).stop ≤ c.stop := stop_cut_le
  rcases h hdir with hle | hle <;> omega

end HeapRange

theorem Kernel.pagesLost_eq_nil {k k' : Kernel} {t : Slot} {held : List HeapRange}
    (h : ∀ a ∈ held, a.task ≠ t → a.dir = k.getDIR t → ∀ p, p * pageSize < a.stop →
      k.MapsPage a.dir p → k'.MapsPage a.dir p) : k.pagesLost t k' held = [] := by
  unfold pagesLost
  rw [List.flatMap_eq_nil_iff]
  intro a ha
  obtain ⟨ha, hother⟩ := List.mem_filter.mp ha
  obtain ⟨htask, hdir⟩ := of_decide_eq_true hother
  rw [List.filter_eq_nil_iff]
  intro p hp
  have hstop := (of_decide_eq_true (List.mem_filter.mp hp).2).2
  intro hlost
  obtain ⟨hmaps, hnot⟩ := of_decide_eq_true hlost
  exact hnot (h a ha htask hdir p hstop hmaps)

theorem Kernel.pagesLost_congr {k₀ k k' : Kernel} (hdir : k.getDIR = k₀.getDIR) (hmm : k.mm = k₀.mm)
    (t : Slot) (held : List HeapRange) : k.pagesLost t k' held = k₀.pagesLost t k' held := by
  unfold pagesLost
  rw [hdir]
  congr 1
  funext a
  apply List.filter_congr
  intro p _
  apply decide_eq_decide.mpr
  unfold MapsPage
  rw [hmm]

theorem Handed.after_congr {event : Event} {k₀ k k' : Kernel} {x : Handed}
    (hcurrent : k.current = k₀.current) (hdir : k.getDIR = k₀.getDIR) (hmm : k.mm = k₀.mm)
    : x.after event k k' = x.after event k₀ k' := by
  unfold Handed.after
  split
  next =>
    dsimp only
    rw [hcurrent, hdir, Kernel.pagesLost_congr hdir hmm]
  next => rfl

theorem Handed.after_of_ne {event : Event} (hsbrk : ∀ incr, event ≠ .sbrk incr) {k k' : Kernel}
    {x : Handed} : x.after event k k' = x := by
  cases event with
  | sbrk incr => exact absurd rfl (hsbrk incr)
  | _ => rfl

structure Kernel.Keeps (k : Kernel) (live : Finset Slot) (held : List HeapRange) : Prop where
  range : ∀ t ∈ live, heapStart ≤ k.processBreak t ∧ k.processBreak t < (totalPages + 1) * pageSize
  below : ∀ a ∈ held, a.task ∈ live ∧ a.dir = k.getDIR a.task ∧ a.stop ≤ k.processBreak a.task

namespace Kernel

variable {k k' : Kernel} {live : Finset Slot} {x : Handed} {incr : Int}

def Highest (k : Kernel) (live : Finset Slot) (incr : Int) : Prop :=
  ∀ u ∈ live, u ≠ k.current → k.getDIR u = k.getDIR k.current →
    k.processBreak u ≤ k.currentBreak ∧ k.processBreak u ≤ k.breakAfter incr

theorem pagesLost_sysSbrk (h : k.Keeps live x.held) (hlive : k.current ∈ live)
    (hhighest : incr ≠ 0 → k.Highest live incr) (hmm : k'.mm = (k.sysSbrk incr).2.mm)
    : k.pagesLost k.current k' x.held = [] := by
  apply pagesLost_eq_nil
  intro a ha htask hdir p hp hmaps
  obtain ⟨hmem, howner, hstop⟩ := h.below a ha
  have hsame : k'.MapsPage a.dir p ↔ (k.sysSbrk incr).2.MapsPage a.dir p := by
    unfold MapsPage
    rw [hmm]
  rw [hsame]
  by_cases hzero : incr = 0
  . have hrange : k.BreakInRange := h.range _ hlive
    rw [hzero, sysSbrk_zero hrange]
    exact hmaps
  . obtain ⟨hbefore, hafter⟩ := hhighest hzero a.task hmem htask (howner.symm.trans hdir)
    rw [hdir] at hmaps ⊢
    exact mapsPage_sysSbrk (by omega) (by omega) hmaps

theorem Keeps.move (h : k.Keeps live x.held) (hlive : k.current ∈ live) {held : List HeapRange} {b : Nat}
    (htask : k'.task = (k.setTask k.current fun ts => { ts with processBreak := b }).task)
    (hrange : heapStart ≤ b ∧ b < (totalPages + 1) * pageSize)
    (hheld : ∀ a ∈ held, a.task = k.current ∧ a.dir = k.getDIR k.current ∧ a.stop ≤ b ∨
      a.task ≠ k.current ∧ a ∈ x.held)
    : k'.Keeps live held := by
  have hbreak : ∀ t, k'.processBreak t = if t = k.current then b else k.processBreak t := by
    intro t
    unfold processBreak
    rw [htask, setTask_task, processBreak_ite]
  have hdir : ∀ t, k'.getDIR t = k.getDIR t := by
    intro t
    unfold getDIR
    rw [htask, setTask_task, dirPagesBaseAddr_ite]
    split <;> rfl
  constructor
  . intro t ht
    rw [hbreak]
    split
    next => exact hrange
    next => exact h.range t ht
  . intro a ha
    rw [hbreak, hdir]
    rcases hheld a ha with ⟨hcurrent, hd, hstop⟩ | ⟨hother, hmem⟩
    . rw [if_pos hcurrent, hcurrent]
      exact ⟨hlive, hd, hstop⟩
    . rw [if_neg hother]
      exact h.below a hmem

section Moved

variable {b : Nat} (h : k.Keeps live x.held) (hsound : x.Sound) (hlive : k.current ∈ live)
  (htask : k'.task = (k.setTask k.current fun ts => { ts with processBreak := b }).task)
  (hrange : heapStart ≤ b ∧ b < (totalPages + 1) * pageSize)
include h hsound hlive htask hrange

theorem Keeps.grown (hgrows : k.currentBreak ≤ b)
    (hhighest : ∀ u ∈ live, u ≠ k.current → k.getDIR u = k.getDIR k.current →
      k.processBreak u ≤ k.currentBreak)
    {c : HeapRange} (hc : c = ⟨k.current, k.getDIR k.current, k.currentBreak, b⟩)
    : k'.Keeps live (x.held ++ [c]) ∧ (x.held ++ [c]).Pairwise HeapRange.Apart := by
  have hbelow : ∀ a ∈ x.held, a.dir = k.getDIR k.current → a.stop ≤ k.currentBreak := by
    intro a ha hdir
    obtain ⟨hmem, howner, hstop⟩ := h.below a ha
    by_cases hcurrent : a.task = k.current
    . rw [hcurrent] at hstop
      exact hstop
    . have := hhighest a.task hmem hcurrent (howner.symm.trans hdir)
      omega
  subst hc
  constructor
  . apply h.move hlive htask hrange
    intro a ha
    rcases List.mem_append.mp ha with ha | ha
    . by_cases hcurrent : a.task = k.current
      . obtain ⟨-, howner, -⟩ := h.below a ha
        rw [hcurrent] at howner
        have := hbelow a ha howner
        exact .inl ⟨hcurrent, howner, by omega⟩
      . exact .inr ⟨hcurrent, ha⟩
    . rw [List.mem_singleton.mp ha]
      exact .inl ⟨rfl, rfl, le_refl _⟩
  . rw [List.pairwise_append]
    refine ⟨hsound.apart, List.pairwise_singleton _ _, ?_⟩
    intro a ha c hc hdir
    rw [List.mem_singleton.mp hc] at hdir ⊢
    exact .inl (hbelow a ha hdir)

theorem Keeps.cut {held : List HeapRange}
    (hheld : held = (x.held.map (HeapRange.cut k.current b)).filter fun a => a.start < a.stop)
    : k'.Keeps live held ∧ held.Pairwise HeapRange.Apart := by
  subst hheld
  constructor
  . apply h.move hlive htask hrange
    intro c hc
    obtain ⟨a, ha, rfl⟩ := List.mem_map.mp (List.mem_filter.mp hc).1
    by_cases hcurrent : a.task = k.current
    . left
      rw [HeapRange.task_cut, HeapRange.dir_cut]
      obtain ⟨-, howner, -⟩ := h.below a ha
      rw [hcurrent] at howner
      exact ⟨hcurrent, howner, HeapRange.stop_cut_of_task hcurrent⟩
    . right
      have hsame : a.cut k.current b = a := if_neg hcurrent
      rw [hsame]
      exact ⟨hcurrent, ha⟩
  . apply List.Pairwise.filter
    apply List.Pairwise.map _ _ hsound.apart
    intro a c hac
    exact hac.cut

end Moved

/--
A call by the task with the highest break hands out what nobody holds.
-/
theorem Keeps.sbrk (h : k.Keeps live x.held) (hsound : x.Sound) (hlive : k.current ∈ live)
    (hint : incr < 2 ^ 31) (hhighest : incr ≠ 0 → k.Highest live incr)
    (htask : k'.task = (k.sysSbrk incr).2.task) (hmm : k'.mm = (k.sysSbrk incr).2.mm)
    (heax : k'.eax k.current = (k.sysSbrk incr).1)
    : k'.Keeps live (x.after (.sbrk incr) k k').held ∧ (x.after (.sbrk incr) k k').Sound := by
  have hrange : k.BreakInRange := h.range _ hlive
  have hlost := pagesLost_sysSbrk h hlive hhighest hmm
  have hmapped : (x.after (.sbrk incr) k k').unmapped = [] := by
    show x.unmapped ++ k.pagesLost k.current k' x.held = []
    rw [hsound.mapped, hlost]
    rfl
  suffices hkeeps : k'.Keeps live (x.after (.sbrk incr) k k').held ∧
      (x.after (.sbrk incr) k k').held.Pairwise HeapRange.Apart from
    ⟨hkeeps.1, ⟨hkeeps.2, hmapped⟩⟩
  rcases sysSbrk_break hrange incr with ⟨hfail, hsame⟩ | ⟨hret, hmoved⟩
  . have hheld : (x.after (.sbrk incr) k k').held = x.held := by
      apply if_pos
      rw [heax]
      exact hfail
    have hbreak : k'.processBreak = k.processBreak := by
      funext t
      unfold processBreak
      rw [htask, hsame]
    have hdir : k'.getDIR = k.getDIR := by
      funext t
      unfold getDIR
      rw [htask, hsame]
    rw [hheld]
    refine ⟨⟨?_, ?_⟩, hsound.apart⟩
    . rw [hbreak]
      exact h.range
    . rw [hbreak, hdir]
      exact h.below
  . rw [← htask] at hmoved
    have hafter : heapStart ≤ k.breakAfter incr ∧
        k.breakAfter incr < (totalPages + 1) * pageSize := by
      have hbreak : (k.sysSbrk incr).2.currentBreak = k.breakAfter incr := by
        unfold currentBreak
        rw [current_sysSbrk, ← htask, hmoved]
        simp
      rw [← hbreak]
      exact breakInRange_sysSbrk hrange incr
    have hnot : ¬k'.eax k.current < 0 := by
      rw [heax, hret]
      omega
    by_cases hpos : 0 < incr
    . have hheld : (x.after (.sbrk incr) k k').held = x.held ++
          [{ task := k.current, dir := k.getDIR k.current, start := k.currentBreak,
             stop := k.breakAfter incr }] := by
        unfold Handed.after
        dsimp only
        rw [if_neg hnot, if_pos hpos, heax, hret, Int.toNat_natCast, breakAfter_of_pos hrange hpos hint]
      have hgrows : k.currentBreak ≤ k.breakAfter incr := by
        rw [breakAfter_of_pos hrange hpos hint]
        omega
      rw [hheld]
      apply h.grown hsound hlive hmoved hafter hgrows _ rfl
      intro u hu hne hdir
      exact (hhighest (by omega) u hu hne hdir).1
    . have hbreak : k'.processBreak k.current = k.breakAfter incr := by
        unfold processBreak
        rw [hmoved]
        simp
      apply h.cut hsound hlive hmoved hafter
      unfold Handed.after
      dsimp only
      rw [if_neg hnot, if_neg hpos, hbreak]

end Kernel

structure Holding (x : Sys × Finset Slot × Handed) (m : Model) : Prop where
  follows : Follows (x.1, x.2.1) m
  ring : m.queues.shape .freequeue = .ring
  keeps : m.Keeps x.2.1 x.2.2.held
  sound : x.2.2.Sound

namespace Holding

variable {x y : Sys × Finset Slot × Handed} {m : Model}

theorem step_of_ne (h : Holding x m) {i : Input} (hexit : i.event ≠ .exit)
    (hsbrk : ∀ incr, i.event ≠ .sbrk incr) (hstep : Sys.stepHanded i x = some y)
    : ∃ m', Holding y m' := by
  have hlive : Sys.stepLive i (x.1, x.2.1) = some (y.1, y.2.1) :=
    Run.ghost_map Prod.fst (fun _ _ _ _ => rfl) hstep
  obtain ⟨-, hrecord⟩ := Run.ghost_eq_some.mp hstep
  have hlive' : y.2.1 = liveAfter i.event x.1.toKernel y.1.toKernel (firstTask .freequeue x.1.links)
      x.2.1 := (Run.ghost_eq_some.mp hlive).2
  obtain ⟨m', hm', hfollows, hring⟩ := h.follows.step_ring h.ring hexit hlive
  obtain ⟨k, hentry, hroutine⟩ := Model.step_eq_some hm'
  have hentered := Kernel.entered_of_entry hentry
  have hheld : y.2.2 = x.2.2 := by
    rw [hrecord]
    exact Handed.after_of_ne hsbrk
  have hspace : ∀ t ∈ x.2.1, m'.space t = m.space t := by
    intro t ht
    rw [space_routine hexit hsbrk hroutine, Kernel.space_entered hentered]
    intro hfree
    exact h.follows.settled.placed.not_live_of_free t hfree ht
  have hbreak : ∀ t ∈ x.2.1, m'.processBreak t = m.processBreak t :=
    fun t ht => congrArg Prod.fst (hspace t ht)
  have hdir : ∀ t ∈ x.2.1, m'.getDIR t = m.getDIR t :=
    fun t ht => congrArg Prod.snd (hspace t ht)
  have hset : m.queues.shape .freequeue ≠ .unset := by simp [h.ring]
  rw [h.follows.refines.firstTask_eq hset, h.follows.refines.kernel, hfollows.refines.kernel] at hlive'
  refine ⟨m', hfollows, hring, ⟨?_, ?_⟩, ?_⟩
  . intro t ht
    rw [hlive'] at ht
    rcases mem_of_mem_liveAfter ht with ht | hcreated
    . rw [hbreak t ht]
      exact h.keeps.range t ht
    . have hcreated' : createdBy i.event k m'.toKernel (m.seq .freequeue).head? = some t := by
        rw [← hcreated]
        unfold createdBy
        rw [hentered.incrementalPID]
      rw [processBreak_created hroutine hcreated']
      have hcurrent : k.processBreak k.current = m.processBreak m.current := by
        rw [hentered.current]
        exact congrArg Prod.fst (congrFun (Kernel.space_entered hentered) m.current)
      show heapStart ≤ k.processBreak k.current ∧ _
      rw [hcurrent]
      exact h.keeps.range _ h.follows.settled.live
  . intro a ha
    rw [hheld] at ha
    obtain ⟨htask, hd, hstop⟩ := h.keeps.below a ha
    rw [hbreak _ htask, hdir _ htask, hlive']
    exact ⟨mem_liveAfter_of_mem hexit htask, hd, hstop⟩
  . rw [hheld]
    exact h.sound

theorem step_of_sbrk (h : Holding x m) {i : Input} {incr : Int} (hsbrk : i.event = .sbrk incr)
    (hint : incr < 2 ^ 31) (hmoves : Sys.MovesHighest i (x.1, x.2.1))
    (hstep : Sys.stepHanded i x = some y) : ∃ m', Holding y m' := by
  have hlive : Sys.stepLive i (x.1, x.2.1) = some (y.1, y.2.1) :=
    Run.ghost_map Prod.fst (fun _ _ _ _ => rfl) hstep
  obtain ⟨-, hrecord⟩ := Run.ghost_eq_some.mp hstep
  have hlive' : y.2.1 = x.2.1 := by
    rw [hrecord, hsbrk]
    rfl
  obtain ⟨m', hm', hfollows, hring⟩ := h.follows.step_ring h.ring (by simp [hsbrk]) hlive
  obtain ⟨k, hentry, hroutine⟩ := Model.step_eq_some hm'
  have hentered := Kernel.entered_of_entry hentry
  have hspace := Kernel.space_entered hentered
  have hbreak : k.processBreak = m.processBreak :=
    funext fun t => congrArg Prod.fst (congrFun hspace t)
  have hdir : k.getDIR = m.getDIR := funext fun t => congrArg Prod.snd (congrFun hspace t)
  have hkeeps : k.Keeps x.2.1 x.2.2.held := by
    constructor
    . rw [hbreak]
      exact h.keeps.range
    . rw [hbreak, hdir]
      exact h.keeps.below
  have hlive_current : k.current ∈ x.2.1 := by
    rw [hentered.current]
    exact h.follows.settled.live
  have hkernel : x.1.toKernel = m.toKernel := h.follows.refines.kernel
  have hhighest : incr ≠ 0 → k.Highest x.2.1 incr := by
    intro hne u hu hother hshared
    have hmoved : incr ∈ i.event.moves := by
      rw [hsbrk]
      exact if_neg hne
    rw [hentered.current] at hother
    rw [hdir, hentered.current] at hshared
    have hcurrent : k.currentBreak = m.processBreak m.current := by
      show k.processBreak k.current = _
      rw [hbreak, hentered.current]
    have hle := hmoves incr hmoved u hu
    rw [hkernel] at hle
    unfold Kernel.breakAfter
    rw [hbreak, hcurrent]
    exact hle hother hshared
  rw [hsbrk] at hroutine
  obtain rfl := Option.some.inj hroutine
  have heax : (Model.result ((k.sysSbrk incr).1, { m with toKernel := (k.sysSbrk incr).2 })).eax
      k.current = (k.sysSbrk incr).1 := by
    simp [Model.result, ret, Kernel.current_sysSbrk]
  let k' := (Model.result ((k.sysSbrk incr).1, { m with toKernel := (k.sysSbrk incr).2 })).toKernel
  have htask : k'.task = (k.sysSbrk incr).2.task := rfl
  obtain ⟨hkept, hsound⟩ := hkeeps.sbrk h.sound hlive_current hint hhighest htask rfl heax
  have hafter : y.2.2 = x.2.2.after (.sbrk incr) k
      (Model.result ((k.sysSbrk incr).1, { m with toKernel := (k.sysSbrk incr).2 })).toKernel := by
    have hafter : y.2.2 = x.2.2.after i.event x.1.toKernel y.1.toKernel := congrArg Prod.snd hrecord
    rw [hafter, hsbrk, hkernel, hfollows.refines.kernel]
    exact (Handed.after_congr hentered.current hdir hentered.mm).symm
  refine ⟨_, hfollows, hring, ?_, ?_⟩
  . rw [hlive', hafter]
    exact hkept
  . rw [hafter]
    exact hsound

theorem boot {frames : Nat → Nat → Byte} {s : Sys} (hs : Zeos.boot frames = some s)
    : Holding (s, liveBoot, .none) (.boot frames) := by
  refine ⟨.boot hs, rfl, ⟨?_, ?_⟩, ⟨.nil, rfl⟩⟩
  . have hfirst : ∀ t ∈ liveBoot, t = 13 ∨ t = 14 := by decide
    intro t ht
    have hbreak : (Model.boot frames).processBreak t = heapStart := by
      rcases hfirst t ht with rfl | rfl <;> rfl
    rw [hbreak]
    decide
  . rintro a ⟨⟩

end Holding

/--
In every run without an exit, as long as the task that moves its break is the one of its address space
with the highest break.
-/
theorem always_sound_of_movesHighest {frames : Nat → Nat → Byte} {s : Sys}
    (hs : Zeos.boot frames = some s) {es : List Input} (hexit : ∀ i ∈ es, i.event ≠ .exit)
    (hint : ∀ i ∈ es, ∀ incr, i.event = .sbrk incr → incr < 2 ^ 31)
    (hok : Run.Allowed Sys.stepHanded (fun i x => Sys.MovesHighest i (x.1, x.2.1)) es
      (s, liveBoot, .none))
    : Run.Always Sys.stepHanded (fun x => x.2.2.Sound) es (s, liveBoot, .none) := by
  have hinv : Run.Always Sys.stepHanded (fun x => ∃ m, Holding x m) es (s, liveBoot, .none) := by
    have hevents : Run.Allowed Sys.stepHanded
        (fun i _ => i.event ≠ .exit ∧ ∀ incr, i.event = .sbrk incr → incr < 2 ^ 31) es
        (s, liveBoot, .none) :=
      Run.allowed_of_forall fun i hi _ => ⟨hexit i hi, hint i hi⟩
    apply Run.always_of_step _ _ (hevents.and hok)
    . rintro i x y ⟨m, hm⟩ ⟨⟨hexit, hint⟩, hmoves⟩ hstep
      by_cases hsbrk : ∃ incr, i.event = .sbrk incr
      . obtain ⟨incr, hsbrk⟩ := hsbrk
        exact hm.step_of_sbrk hsbrk (hint incr hsbrk) hmoves hstep
      . exact hm.step_of_ne hexit (not_exists.mp hsbrk) hstep
    . exact ⟨_, .boot hs⟩
  apply hinv.mono
  rintro x ⟨m, hm⟩
  exact hm.sound

theorem always_sound_of_thread
    : ∃ s, Zeos.boot (fun _ _ => 0) = some s ∧
        Run.Always Sys.stepHanded (fun x => x.2.2.Sound)
          (atRest (resumed [.sbrk 10, cloneThread, .read 0 0x108000 1, .sbrk 20, .sbrk (-5)]))
          (s, liveBoot, .none) := by
  have hok : ∀ s ∈ Zeos.boot fun _ _ => 0, Run.Allowed Sys.stepHanded
      (fun i x => Sys.MovesHighest i (x.1, x.2.1))
      (atRest (resumed [.sbrk 10, cloneThread, .read 0 0x108000 1, .sbrk 20, .sbrk (-5)]))
      (s, liveBoot, .none) := by
    decide +kernel
  obtain ⟨s, hs⟩ := exists_boot fun _ _ => 0
  refine ⟨s, hs, always_sound_of_movesHighest hs ?_ ?_ (hok s hs)⟩
  . decide
  . simp [atRest, resumed, cloneThread]

/--
Both tasks start with the same break, and get the same addresses.
-/
theorem not_sound_of_thread
    : ∃ s, Zeos.boot (fun _ _ => 0) = some s ∧
        ¬Run.Always Sys.stepHanded (fun x => x.2.2.Sound)
          (atRest (resumed [cloneThread, .sbrk 10, .read 0 0x108000 1, .sbrk 10]))
          (s, liveBoot, .none) := by
  have hnot : ∀ s ∈ Zeos.boot fun _ _ => 0, ¬Run.Always Sys.stepHanded (fun x => x.2.2.Sound)
      (atRest (resumed [cloneThread, .sbrk 10, .read 0 0x108000 1, .sbrk 10]))
      (s, liveBoot, .none) := by
    decide +kernel
  obtain ⟨s, hs⟩ := exists_boot fun _ _ => 0
  exact ⟨s, hs, hnot s hs⟩

end Zeos
