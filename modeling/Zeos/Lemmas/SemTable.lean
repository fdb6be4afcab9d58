import Zeos.Spec.SemTable
import Zeos.Lemmas.Semaphores
import Zeos.Lemmas.Calls

/-!
The table of the semaphores, whatever the lists look like: which calls change an entry, and what
`sys_sem_init` makes of the initial value.
-/

namespace Zeos

namespace Kernel

theorem cercaSem_isSome_iff {n : Int} {k : Kernel}
    : (k.cercaSem n).isSome ↔ ∃ i, (k.semaphores i).nSem = n ∧ (k.semaphores i).state = .usedSem := by
  unfold cercaSem
  rw [List.find?_isSome]
  simp

theorem cercaSemLliure_isSome_iff {k : Kernel}
    : (k.cercaSemLliure).isSome ↔ ∃ i, (k.semaphores i).state = .freeSem := by
  unfold cercaSemLliure
  rw [List.find?_isSome]
  simp

end Kernel

namespace Sys

variable {s s' : Sys} {n nSem : Int} {value : BitVec 32}

section Init

theorem openSem_eq (i : SemIx) (n : Int) (value : BitVec 32) (k : Kernel)
    : k.openSem i n value =
        { k with semaphores := Function.update k.semaphores i
                   { nSem := n, state := .usedSem, counter := value.toInt,
                     owner := (k.task k.current).pid } } := by
  unfold Kernel.openSem Kernel.setSem
  congr 1
  funext j
  exact (Function.update_apply _ _ _ j).symm

theorem occupiesOnly_openSem (n : Int) (value : BitVec 32) {i : SemIx}
    (hfree : (s.semaphores i).state = .freeSem) (hkernel : s'.toKernel = s.openSem i n value)
    (hlinks : s'.links = initListHead (.head (.blockedQueue i)) s.links) : OccupiesOnly i s s' where
  free := hfree
  used := by
    rw [hkernel]
    simp
  kernel := by
    have hentry : s'.semaphores i = (s.openSem i n value).semaphores i := by rw [hkernel]
    rw [hentry, hkernel, openSem_eq]
    simp
  links := by
    intro z hz
    rw [hlinks]
    simp [initListHead, hz]

/--
The call stays within the table unless all entries are in use, and then as long as the id is one of
theirs.
-/
theorem initsInTable_iff
    : s.InitsInTable n value ↔ (∃ i, (s.semaphores i).state = .freeSem) ∨
        ∃ i, (s.semaphores i).nSem = n ∧ (s.semaphores i).state = .usedSem := by
  rw [← Kernel.cercaSem_isSome_iff, ← Kernel.cercaSemLliure_isSome_iff]
  constructor
  . rintro ⟨r, s', hinit, -⟩
    unfold sysSemInit at hinit
    split at hinit
    next hsome => exact .inr hsome
    next =>
      obtain ⟨i, hi, -⟩ := Option.bind_eq_some_iff.mp hinit
      left
      rw [hi]
      rfl
  . intro hok
    by_cases hsome : (s.cercaSem n).isSome
    . refine ⟨-eBUSY, s, ?_, .inl ⟨by decide, rfl⟩⟩
      unfold sysSemInit
      rw [if_pos hsome]
    . obtain ⟨i, hi⟩ := Option.isSome_iff_exists.mp (hok.resolve_right hsome)
      have hfree := Kernel.cercaSemLliure_eq_some hi
      let opened : Sys :=
        { toKernel := s.openSem i n value, links := initListHead (.head (.blockedQueue i)) s.links }
      have hopened : OccupiesOnly i s opened := occupiesOnly_openSem n value hfree rfl rfl
      refine ⟨0, opened, ?_, .inr ⟨i, hopened⟩⟩
      unfold sysSemInit
      rw [if_neg hsome, hi]
      rfl

theorem not_initsInTable_full
    : ∃ s x, boot (fun _ _ => 0) = some s ∧
        Run.run step (atRest (resumed ((List.range 20).map fun n => .semInit n 1))) s = some x ∧
        ¬x.InitsInTable 20 1 := by
  have hfull : ∀ s ∈ boot fun _ _ => 0,
      ∃ x ∈ Run.run step (atRest (resumed ((List.range 20).map fun n => .semInit n 1))) s,
        ∀ i, (x.semaphores i).state = .usedSem ∧ (x.semaphores i).nSem ≠ 20 := by
    decide +kernel
  obtain ⟨s, hs⟩ := exists_boot fun _ _ => 0
  obtain ⟨x, hx, hused⟩ := hfull s hs
  refine ⟨s, x, hs, hx, ?_⟩
  rintro ⟨r, s', hinit, -⟩
  have hid : ¬(x.cercaSem 20).isSome := by
    rw [Kernel.cercaSem_isSome_iff]
    rintro ⟨i, hi, -⟩
    exact (hused i).2 hi
  unfold sysSemInit at hinit
  rw [if_neg hid] at hinit
  obtain ⟨i, hi, -⟩ := Option.bind_eq_some_iff.mp hinit
  have hfree := Kernel.cercaSemLliure_eq_some hi
  rw [(hused i).1] at hfree
  cases hfree

end Init

section Frame

theorem toKernel_updateProcessStateRr {t : Slot} {dst : Option Queue}
    (h : updateProcessStateRr t dst s = some s')
    : ∃ estado, s'.toKernel = s.toKernel.setTask t fun ts => { ts with estado := estado } := by
  obtain ⟨s₁, hs₁, h⟩ := Option.bind_eq_some_iff.mp h
  have hkernel : s₁.toKernel = s.toKernel := by
    split at hs₁
    next => exact toKernel_mapLinks hs₁
    next =>
      cases hs₁
      rfl
  split at h
  next =>
    cases h
    exact ⟨.stRun, by rw [← hkernel]; rfl⟩
  next q =>
    obtain ⟨s₂, hs₂, h⟩ := Option.bind_eq_some_iff.mp h
    cases h
    exact ⟨_, by rw [← hkernel, ← toKernel_mapLinks hs₂]; rfl⟩

theorem semaphores_schedNextRr (h : schedNextRr s = some s')
    : s'.semaphores = s.semaphores ∧ s'.cont = s.cont := by
  unfold schedNextRr at h
  split at h
  next =>
    obtain ⟨t, -, h⟩ := Option.bind_eq_some_iff.mp h
    obtain ⟨s₁, hs₁, h⟩ := Option.bind_eq_some_iff.mp h
    obtain ⟨estado, hkernel⟩ := toKernel_updateProcessStateRr hs₁
    cases h
    show s₁.semaphores = _ ∧ s₁.cont = _
    rw [hkernel]
    exact ⟨rfl, rfl⟩
  next =>
    cases h
    exact ⟨rfl, rfl⟩

theorem semaphores_exitRunCurrent {q : Queue} (h : exitRunCurrent q s = some s')
    : s'.semaphores = s.semaphores := by
  obtain ⟨estado, hkernel⟩ := toKernel_updateProcessStateRr h
  rw [hkernel]
  rfl

theorem semaphores_schedule (h : schedule s = some s') : s'.semaphores = s.semaphores := by
  have hneeds : ∀ s : Sys, (needsSchedRr s).2.semaphores = s.semaphores := by
    intro s
    unfold needsSchedRr
    dsimp only
    split
    next => rfl
    split
    next => rfl
    next => rfl
  unfold schedule at h
  dsimp only at h
  split at h
  next =>
    obtain ⟨s₁, hs₁, h⟩ := Option.bind_eq_some_iff.mp h
    rw [(semaphores_schedNextRr h).1, semaphores_exitRunCurrent hs₁, hneeds]
    rfl
  next =>
    cases h
    rw [hneeds]
    rfl

section Fork

theorem semaphores_makeReady {t : Slot} {r : Int} (h : makeReady t s = some (r, s'))
    : s'.semaphores = s.semaphores := by
  rw [toKernel_makeReady h]
  rfl

theorem semaphores_copyTask {t : Slot} (h : takeFree s = some (t, s'))
    : (s'.copyTask t).semaphores = s.semaphores := by
  rw [← (takeFree_eq_some h).2]
  rfl

theorem semaphores_inheritPages {t : Slot} {k k' k'' : Kernel} {enough : Bool}
    (hdir : k.allocateDIR t = some k') (hpages : k'.inheritPages t = some (enough, k''))
    : k''.semaphores = k.semaphores := by
  obtain ⟨d, -, rfl⟩ := Kernel.allocateDIR_eq_some hdir
  obtain ⟨mm, rfl⟩ := Kernel.inheritPages_eq_some hpages
  rfl

theorem semaphores_sysFork {r : Int} (h : s.sysFork = some (r, s')) : s'.semaphores = s.semaphores := by
  cases sysFork_end h with
  | noSlot => rfl
  | noDIR htake => exact semaphores_copyTask htake
  | noFrame htake hdir hpages =>
    exact (semaphores_inheritPages hdir hpages).trans (semaphores_copyTask htake)
  | created htake hdir hpages hready =>
    rw [semaphores_makeReady hready]
    exact (semaphores_inheritPages hdir hpages).trans (semaphores_copyTask htake)

theorem semaphores_sysClone {function stack : Addr} {r : Int}
    (h : s.sysClone function stack = some (r, s')) : s'.semaphores = s.semaphores := by
  rcases sysClone_eq_some h with rfl | ⟨new, s₁, htake, hready⟩
  . rfl
  . have hcopied := semaphores_copyTask htake
    rw [semaphores_makeReady hready]
    exact hcopied

end Fork

section Keyboard

theorem semaphores_waitKeyboard {buff : Addr} (h : waitKeyboard buff s = some s')
    : s'.semaphores = s.semaphores := by
  obtain ⟨s₁, hs₁, h⟩ := Option.bind_eq_some_iff.mp h
  rw [(semaphores_schedNextRr h).1, ← toKernel_mapLinks hs₁]
  rfl

theorem semaphores_readKeyboardBody {buff : Addr} (h : readKeyboardBody buff s = some s')
    : s'.semaphores = s.semaphores := by
  unfold readKeyboardBody at h
  dsimp only at h
  split at h
  next =>
    obtain ⟨mm, keyboardBuff, copies, stopped, heq⟩ :=
      Kernel.readKeysLoop_eq (s.task s.current).requiredKeys.toNat buff s.toKernel
    rw [heq] at h
    split at h
    next =>
      cases h
      rfl
    next =>
      cases h
      rfl
  split at h
  next =>
    obtain ⟨mm, keyboardBuff, copies, stopped, heq⟩ := Kernel.readKeysLoop_eq cirBufferSize buff s.toKernel
    rw [heq] at h
    split at h
    next =>
      cases h
      rfl
    next =>
      rw [semaphores_waitKeyboard h]
      rfl
  next => exact semaphores_waitKeyboard h

theorem semaphores_sysRead {fd : Int} {buf : Addr} {count : Int} (h : s.sysRead fd buf count = some s')
    : s'.semaphores = s.semaphores := by
  cases sysRead_end h with
  | refused r => rfl
  | queued hok hmoved hnext =>
    obtain ⟨estado, hkernel⟩ := toKernel_updateProcessStateRr hmoved
    rw [(semaphores_schedNextRr hnext).1, toKernel_mapKernel, hkernel]
    rfl
  | served hok hempty hbody =>
    rw [semaphores_readKeyboardBody hbody]
    rfl

theorem semaphores_keyboardRutine {entrada beyond : Byte} (h : s.keyboardRutine entrada beyond = some s')
    : s'.semaphores = s.semaphores := by
  unfold keyboardRutine at h
  dsimp only at h
  split at h
  next =>
    split at h
    next =>
      obtain ⟨t, -, h⟩ := Option.bind_eq_some_iff.mp h
      split at h
      next =>
        obtain ⟨estado, hkernel⟩ := toKernel_updateProcessStateRr h
        rw [hkernel]
        rfl
      next =>
        cases h
        rfl
    next =>
      cases h
      rfl
  next =>
    cases h
    rfl

theorem semaphores_resume (h : s.resume = some s') : s'.semaphores = s.semaphores := by
  unfold resume at h
  split at h
  next =>
    cases h
    rfl
  next =>
    cases h
    rfl
  next =>
    cases h
    rfl
  next => exact semaphores_readKeyboardBody h

end Keyboard

theorem semaphores_routine {event : Event} (hevent : ¬event.ChangesTable)
    (h : routine event s = some s') : s'.semaphores = s.semaphores := by
  cases event with
  | fork =>
    obtain ⟨⟨r, s₁⟩, hs₁, rfl⟩ := Option.map_eq_some_iff.mp h
    have hfork : s₁.semaphores = s.semaphores := semaphores_sysFork hs₁
    exact hfork
  | clone function stack =>
    obtain ⟨⟨r, s₁⟩, hs₁, rfl⟩ := Option.map_eq_some_iff.mp h
    have hclone : s₁.semaphores = s.semaphores := semaphores_sysClone hs₁
    exact hclone
  | exit => exact absurd (.inl rfl) hevent
  | semInit n value => exact absurd (.inr (.inl ⟨n, value, rfl⟩)) hevent
  | semWait n => exact absurd (.inr (.inr (.inl ⟨n, rfl⟩))) hevent
  | semSignal n => exact absurd (.inr (.inr (.inr (.inl ⟨n, rfl⟩)))) hevent
  | semDestroy n => exact absurd (.inr (.inr (.inr (.inr ⟨n, rfl⟩)))) hevent
  | read fd buf count => exact semaphores_sysRead h
  | sbrk incr =>
    cases h
    obtain ⟨task, mm, cr3, heq, -⟩ := Kernel.sysSbrk_eq incr s.toKernel
    show (s.sysSbrk incr).2.semaphores = _
    rw [heq]
  | clock =>
    have hclock := semaphores_schedule h
    exact hclock
  | keyboard entrada beyond => exact semaphores_keyboardRutine h
  | store a v =>
    obtain ⟨k, hk, rfl⟩ := Option.map_eq_some_iff.mp h
    obtain ⟨mm, rfl⟩ := Kernel.userStore_eq_some hk
    rfl
  | resume => exact semaphores_resume h

end Frame

structure EntryKept (n : Int) (i : SemIx) (k k' : Kernel) : Prop where
  entry : k'.semaphores i = k.semaphores i
  found : k'.cercaSem n = k.cercaSem n

namespace EntryKept

variable {k k' k'' : Kernel} {i j : SemIx}

theorem refl (n : Int) (i : SemIx) (k : Kernel) : EntryKept n i k k :=
  ⟨rfl, rfl⟩

theorem trans (h : EntryKept n i k k') (h' : EntryKept n i k' k'') : EntryKept n i k k'' :=
  ⟨h'.entry.trans h.entry, h'.found.trans h.found⟩

theorem of_semaphores (h : k'.semaphores = k.semaphores) : EntryKept n i k k' where
  entry := by rw [h]
  found := Kernel.cercaSem_of_semaphores h

theorem of_setSem {f : Semaphore → Semaphore} (hij : i ≠ j)
    (hk : k'.semaphores = (k.setSem j f).semaphores)
    (hbefore : ¬((k.semaphores j).nSem = n ∧ (k.semaphores j).state = .usedSem))
    (hafter : ¬((f (k.semaphores j)).nSem = n ∧ (f (k.semaphores j)).state = .usedSem))
    : EntryKept n i k k' := by
  obtain ⟨hentry, hfound⟩ := SemKept.setSem hij hk hbefore hafter
  exact ⟨hentry, hfound⟩

theorem ne_of_cercaSem (hi : k.cercaSem n = some i) (hne : nSem ≠ n) (hj : k.cercaSem nSem = some j)
    : i ≠ j := by
  rintro rfl
  apply hne
  rw [← (Kernel.cercaSem_eq_some hj).1, (Kernel.cercaSem_eq_some hi).1]

theorem of_addCounter {c : Int} (hi : k.cercaSem n = some i) (hne : nSem ≠ n)
    (hj : k.cercaSem nSem = some j) (hk : k'.semaphores = (k.addCounter j c).semaphores)
    : EntryKept n i k k' := by
  have hother : (k.semaphores j).nSem ≠ n := by
    rw [(Kernel.cercaSem_eq_some hj).1]
    exact hne
  exact of_setSem (ne_of_cercaSem hi hne hj) hk (fun h => hother h.1) (fun h => hother h.1)

theorem sysSemInit (hi : s.cercaSem n = some i) {r : Int} (h : s.sysSemInit nSem value = some (r, s'))
    : EntryKept n i s.toKernel s'.toKernel := by
  unfold Sys.sysSemInit at h
  split at h
  next =>
    cases h
    exact refl n i s.toKernel
  next hnone =>
    obtain ⟨j, hj, h⟩ := Option.bind_eq_some_iff.mp h
    obtain ⟨s₁, hs₁, h⟩ := Option.bind_eq_some_iff.mp h
    cases h
    have hfree := Kernel.cercaSemLliure_eq_some hj
    have hij : i ≠ j := by
      rintro rfl
      rw [(Kernel.cercaSem_eq_some hi).2] at hfree
      cases hfree
    have hne : nSem ≠ n := by
      rintro rfl
      rw [hi] at hnone
      exact hnone rfl
    rw [toKernel_mapLinks hs₁]
    exact of_setSem hij rfl (by simp [hfree]) (by simp [hne])

theorem sysSemWait (hi : s.cercaSem n = some i) (hne : nSem ≠ n) (h : s.sysSemWait nSem = some s')
    : EntryKept n i s.toKernel s'.toKernel := by
  unfold Sys.sysSemWait at h
  split at h
  next =>
    cases h
    exact of_semaphores rfl
  next j hj =>
    split at h
    next =>
      cases h
      exact of_semaphores rfl
    dsimp only at h
    split at h
    next =>
      obtain ⟨s₁, hs₁, h⟩ := Option.bind_eq_some_iff.mp h
      have hleft := semaphores_exitRunCurrent hs₁
      apply of_semaphores
      rw [(semaphores_schedNextRr h).1]
      exact hleft
    next =>
      cases h
      exact of_addCounter hi hne hj rfl

theorem sysSemSignal (hi : s.cercaSem n = some i) (hne : nSem ≠ n) {r : Int}
    (h : s.sysSemSignal nSem = some (r, s')) : EntryKept n i s.toKernel s'.toKernel := by
  unfold Sys.sysSemSignal at h
  split at h
  next =>
    cases h
    exact refl n i s.toKernel
  next j hj =>
    split at h
    next =>
      cases h
      exact refl n i s.toKernel
    split at h
    next =>
      cases h
      exact of_addCounter hi hne hj rfl
    next =>
      obtain ⟨t, -, h⟩ := Option.bind_eq_some_iff.mp h
      obtain ⟨s₁, hs₁, h⟩ := Option.bind_eq_some_iff.mp h
      cases h
      obtain ⟨estado, hkernel⟩ := toKernel_updateProcessStateRr hs₁
      rw [hkernel]
      exact of_semaphores rfl

end EntryKept

section Destroy

/--
The tasks get another `estado` and another `sem_ret`, and that is all.
-/
structure Released (k k' : Kernel) : Prop where
  semaphores : k'.semaphores = k.semaphores
  current : k'.current = k.current
  pid : ∀ t, (k'.task t).pid = (k.task t).pid

theorem released_unblockAll {i : SemIx} {fuel : Nat} (h : unblockAll i fuel s = some s')
    : Released s.toKernel s'.toKernel := by
  induction fuel generalizing s with
  | zero => cases h
  | succ fuel ih =>
    unfold unblockAll at h
    split at h
    next =>
      cases h
      exact ⟨rfl, rfl, fun _ => rfl⟩
    next =>
      obtain ⟨t, -, h⟩ := Option.bind_eq_some_iff.mp h
      obtain ⟨s₁, hs₁, h⟩ := Option.bind_eq_some_iff.mp h
      obtain ⟨estado, hkernel⟩ := toKernel_updateProcessStateRr hs₁
      have hrest := ih h
      rw [hkernel] at hrest
      constructor
      . exact hrest.semaphores
      . exact hrest.current
      . intro u
        rw [hrest.pid]
        simp [mapKernel, apply_ite TaskStruct.pid]

theorem kept_sysSemDestroy {i : SemIx} (hi : s.cercaSem n = some i)
    (hother : nSem ≠ n ∨ (s.semaphores i).owner ≠ (s.task s.current).pid) {r : Int}
    (h : s.sysSemDestroy nSem = some (r, s'))
    : EntryKept n i s.toKernel s'.toKernel ∧ s'.current = s.current ∧
        ∀ t, (s'.task t).pid = (s.task t).pid := by
  unfold sysSemDestroy at h
  split at h
  next =>
    cases h
    exact ⟨.refl n i _, rfl, fun _ => rfl⟩
  next j hj =>
    split at h
    next =>
      cases h
      exact ⟨.refl n i _, rfl, fun _ => rfl⟩
    split at h
    next =>
      cases h
      exact ⟨.refl n i _, rfl, fun _ => rfl⟩
    next howner =>
      obtain ⟨s₁, hs₁, h⟩ := Option.bind_eq_some_iff.mp h
      cases h
      have hreleased := released_unblockAll hs₁
      have hne : nSem ≠ n := by
        rintro rfl
        rw [hi] at hj
        cases hj
        exact howner (hother.resolve_left fun hne => hne rfl)
      have hid : (s.semaphores j).nSem ≠ n := by
        rw [(Kernel.cercaSem_eq_some hj).1]
        exact hne
      have hclosed : (s₁.toKernel.closeSem j).semaphores = (s.toKernel.closeSem j).semaphores := by
        funext l
        rw [Kernel.closeSem_semaphores, Kernel.closeSem_semaphores, hreleased.semaphores]
      exact ⟨.of_setSem (EntryKept.ne_of_cercaSem hi hne hj) hclosed (fun h => hid h.1) (by simp),
        hreleased.current, hreleased.pid⟩

theorem kept_destroyOwned {i : SemIx} (hi : s.cercaSem n = some i)
    (hother : (s.semaphores i).owner ≠ (s.task s.current).pid) (h : s.destroyOwned = some s')
    : EntryKept n i s.toKernel s'.toKernel := by
  unfold destroyOwned at h
  generalize List.finRange nrSemaphores = is at h
  induction is generalizing s with
  | nil =>
    cases h
    exact .refl n i _
  | cons j is ih =>
    rw [List.foldlM_cons] at h
    obtain ⟨s₁, hs₁, h⟩ := Option.bind_eq_some_iff.mp h
    split at hs₁
    next =>
      obtain ⟨⟨r, s₂⟩, hs₂, rfl⟩ := Option.map_eq_some_iff.mp hs₁
      obtain ⟨hkept, hcurrent, hpid⟩ := kept_sysSemDestroy hi (.inr hother) hs₂
      have hrest := ih (s := s₂) (hkept.found.trans hi)
        (by rw [hkept.entry, hcurrent, hpid]; exact hother) h
      exact hkept.trans hrest
    next =>
      cases hs₁
      exact ih hi hother h

theorem kept_sysExit {i : SemIx} (hi : s.cercaSem n = some i)
    (hother : (s.semaphores i).owner ≠ (s.task s.current).pid) (h : s.sysExit = some s')
    : EntryKept n i s.toKernel s'.toKernel := by
  obtain ⟨s₁, hs₁, h⟩ := Option.bind_eq_some_iff.mp h
  obtain ⟨s₂, hs₂, h⟩ := Option.bind_eq_some_iff.mp h
  obtain ⟨s₃, hs₃, h⟩ := Option.bind_eq_some_iff.mp h
  have hrelease : s₁.toKernel = s.releaseDIR := toKernel_mapLinks hs₁
  have hdestroyed : EntryKept n i s.toKernel s₂.toKernel := by
    obtain ⟨refs, mm, heq⟩ := Kernel.releaseDIR_eq s.toKernel
    rw [heq] at hrelease
    have hkept : EntryKept n i s.toKernel s₁.toKernel := .of_semaphores (by rw [hrelease])
    apply hkept.trans
    apply kept_destroyOwned _ _ hs₂
    . exact hkept.found.trans hi
    . rw [hrelease]
      exact hother
  apply hdestroyed.trans
  apply EntryKept.of_semaphores
  obtain ⟨estado, hkernel⟩ := toKernel_updateProcessStateRr hs₃
  rw [(semaphores_schedNextRr h).1]
  show s₃.semaphores = _
  rw [hkernel]
  rfl

end Destroy

theorem kept_routine {i : SemIx} (hi : s.cercaSem n = some i) {e : Input}
    (hwait : e.event ≠ .semWait n) (hdisturbs : ¬Disturbs n e s) (h : routine e.event s = some s')
    : EntryKept n i s.toKernel s'.toKernel := by
  unfold Disturbs at hdisturbs
  obtain ⟨event, readings⟩ := e
  cases event with
  | exit =>
    apply kept_sysExit hi _ h
    intro howner
    exact hdisturbs (.inr (.inr ⟨rfl, i, hi, howner⟩))
  | semInit nSem value =>
    obtain ⟨⟨r, s₁⟩, hs₁, rfl⟩ := Option.map_eq_some_iff.mp h
    exact (EntryKept.sysSemInit hi hs₁).trans (.of_semaphores rfl)
  | semWait nSem => exact EntryKept.sysSemWait hi (by simpa using hwait) h
  | semSignal nSem =>
    obtain ⟨⟨r, s₁⟩, hs₁, rfl⟩ := Option.map_eq_some_iff.mp h
    have hne : nSem ≠ n := by
      rintro rfl
      exact hdisturbs (.inl rfl)
    exact (EntryKept.sysSemSignal hi hne hs₁).trans (.of_semaphores rfl)
  | semDestroy nSem =>
    obtain ⟨⟨r, s₁⟩, hs₁, rfl⟩ := Option.map_eq_some_iff.mp h
    have hne : nSem ≠ n := by
      rintro rfl
      exact hdisturbs (.inr (.inl rfl))
    exact (kept_sysSemDestroy hi (.inl hne) hs₁).1.trans (.of_semaphores rfl)
  | _ => exact .of_semaphores (semaphores_routine (by simp [Event.ChangesTable]) h)

section Wait

variable {i : SemIx}

theorem sysSemWait_of_pos (hi : s.cercaSem n = some i) (hpos : 0 < (s.semaphores i).counter)
    : s.sysSemWait n =
        some (ret 0 ((s.mapKernel (Kernel.setSemRet s.current 0)).mapKernel
          (Kernel.addCounter i (-1)))) := by
  unfold sysSemWait
  rw [hi]
  dsimp only
  rw [if_neg (by simp [(Kernel.cercaSem_eq_some hi).2]), if_neg]
  simpa [mapKernel] using hpos

theorem sysSemWait_of_nonpos (hi : s.cercaSem n = some i) (hle : (s.semaphores i).counter ≤ 0)
    (h : s.sysSemWait n = some s') : s'.semaphores = s.semaphores ∧ s'.cont s.current = .semWait := by
  unfold sysSemWait at h
  rw [hi] at h
  dsimp only at h
  rw [if_neg (by simp [(Kernel.cercaSem_eq_some hi).2]),
    if_pos (show ((s.mapKernel (Kernel.setSemRet s.current 0)).semaphores i).counter ≤ 0 from hle)] at h
  obtain ⟨s₁, hs₁, h⟩ := Option.bind_eq_some_iff.mp h
  obtain ⟨hsem, hcont⟩ := semaphores_schedNextRr h
  have hleft := semaphores_exitRunCurrent hs₁
  have hcurrent : s₁.current = s.current := by
    obtain ⟨estado, hkernel⟩ := toKernel_updateProcessStateRr hs₁
    rw [hkernel]
    rfl
  constructor
  . exact hsem.trans hleft
  . rw [hcont]
    simp [mapKernel, hcurrent]

end Wait

end Sys

section Grants

open Sys

variable {x y : Sys × Grants} {n : Int} {value : BitVec 32} {i : SemIx} {e : Input} {s s₁ : Sys}

theorem Grants.after_of_ne {event : Event} {s s' : Sys} {g : Grants} (h : event ≠ .semWait n)
    : g.after n event s s' = g := by
  cases event with
  | semWait nSem => exact if_neg (by simpa using h)
  | _ => rfl

theorem kept_stepGrants (hi : x.1.cercaSem n = some i) (hwait : e.event ≠ .semWait n)
    (hdisturbs : ¬Disturbs n e x.1) (hstep : stepGrants n e x = some y)
    : EntryKept n i x.1.toKernel y.1.toKernel ∧ y.2 = x.2 := by
  obtain ⟨hsys, hrecord⟩ := Run.ghost_eq_some.mp hstep
  obtain ⟨k, hentry, hroutine⟩ := Option.bind_eq_some_iff.mp hsys
  have hentered := Kernel.entered_of_entry hentry
  have hbefore : EntryKept n i x.1.toKernel k := .of_semaphores hentered.semaphores
  have hdisturbs' : ¬Disturbs n e { x.1 with toKernel := k } := by
    intro hnot
    apply hdisturbs
    unfold Disturbs at hnot ⊢
    obtain ⟨_, htask⟩ := hentered.task x.1.current
    rcases hnot with hnot | hnot | ⟨hevent, j, hj, howner⟩
    . exact .inl hnot
    . exact .inr (.inl hnot)
    . refine .inr (.inr ⟨hevent, j, hbefore.found.symm.trans hj, ?_⟩)
      rw [hentered.semaphores, hentered.current, htask] at howner
      exact howner
  constructor
  . apply hbefore.trans
    exact kept_routine (s := { x.1 with toKernel := k }) (hbefore.found.trans hi) hwait hdisturbs'
      hroutine
  . exact hrecord.trans (Grants.after_of_ne hwait)

theorem wait_stepGrants (hi : x.1.cercaSem n = some i) (hwait : e.event = .semWait n)
    (hstep : stepGrants n e x = some y)
    : y.1.cercaSem n = some i ∧ y.2.waits = x.2.waits + 1 ∧
        (0 < (x.1.semaphores i).counter ∧
            (y.1.semaphores i).counter = (x.1.semaphores i).counter - 1 ∧
            y.2.refused = x.2.refused ∨
          (x.1.semaphores i).counter ≤ 0 ∧ (y.1.semaphores i).counter = (x.1.semaphores i).counter ∧
            y.2.refused = x.2.refused ++ [x.2.waits + 1]) := by
  obtain ⟨hsys, hrecord⟩ := Run.ghost_eq_some.mp hstep
  obtain ⟨k, hentry, hroutine⟩ := Option.bind_eq_some_iff.mp hsys
  have hentered := Kernel.entered_of_entry hentry
  have hfound : ({ x.1 with toKernel := k } : Sys).cercaSem n = some i :=
    (Kernel.cercaSem_of_semaphores hentered.semaphores).trans hi
  have hcounter : ({ x.1 with toKernel := k } : Sys).semaphores i = x.1.semaphores i := by
    rw [← hentered.semaphores]
  rw [hwait] at hroutine hrecord
  have hroutine : sysSemWait n { x.1 with toKernel := k } = some y.1 := hroutine
  have hafter : y.2 = { waits := x.2.waits + 1
                        refused :=
                          if y.1.current = x.1.current ∧ y.1.eax x.1.current = 0 ∧
                              y.1.cont x.1.current = .user then x.2.refused
                          else x.2.refused ++ [x.2.waits + 1] } := by
    rw [hrecord]
    exact if_pos rfl
  rw [hafter, ← hentered.current]
  by_cases hpos : 0 < (x.1.semaphores i).counter
  . rw [sysSemWait_of_pos hfound (by rw [hcounter]; exact hpos)] at hroutine
    rw [← Option.some.inj hroutine]
    refine ⟨Kernel.cercaSem_addCounter.trans hfound, rfl, .inl ⟨hpos, ?_, ?_⟩⟩
    . rw [← hcounter]
      simp [ret, mapKernel, Int.sub_eq_add_neg]
    . simp [ret, mapKernel]
  . have hle := not_lt.mp hpos
    obtain ⟨hsem, hcont⟩ := sysSemWait_of_nonpos hfound (by rw [hcounter]; exact hle) hroutine
    refine ⟨(Kernel.cercaSem_of_semaphores hsem).trans hfound, rfl, .inr ⟨hle, ?_, ?_⟩⟩
    . rw [hsem, hcounter]
    . have hcont : y.1.cont k.current = .semWait := hcont
      simp [hcont]

theorem found_semInit (hinit : e.event = .semInit n value) (hstep : s.step e = some s₁)
    (hcreated : s₁.eax s.current = 0)
    : ∃ i, s₁.cercaSem n = some i ∧ (s₁.semaphores i).counter = value.toInt := by
  obtain ⟨k, hentry, hroutine⟩ := Option.bind_eq_some_iff.mp hstep
  have hentered := Kernel.entered_of_entry hentry
  rw [hinit] at hroutine
  obtain ⟨⟨r, s₂⟩, hs₂, rfl⟩ := Option.map_eq_some_iff.mp hroutine
  rw [← hentered.current] at hcreated
  unfold sysSemInit at hs₂
  split at hs₂
  next =>
    cases hs₂
    simp [result, ret, mapKernel, eBUSY] at hcreated
  next hnone =>
    obtain ⟨i, hi, hs₂⟩ := Option.bind_eq_some_iff.mp hs₂
    obtain ⟨s₃, hs₃, hs₂⟩ := Option.bind_eq_some_iff.mp hs₂
    cases hs₂
    have hkernel := toKernel_mapLinks hs₃
    have hopened : s₂.cercaSem n = some i := by
      rw [hkernel]
      exact Kernel.cercaSem_openSem (by simpa using hnone)
    refine ⟨i, hopened, ?_⟩
    show (s₂.semaphores i).counter = _
    rw [hkernel]
    simp [mapKernel]

/--
The counter goes down with each call that it lets through, as long as these are no more than the initial
value.
-/
structure CountsDown (n : Int) (v : Nat) (x : Sys × Grants) : Prop where
  found : ∃ i, x.1.cercaSem n = some i ∧
    (x.2.waits ≤ v → (x.1.semaphores i).counter = (v : Int) - x.2.waits)
  granted : x.2.AtLeast v

theorem CountsDown.step {v : Nat} (h : CountsDown n v x) (hdisturbs : ¬Disturbs n e x.1)
    (hstep : stepGrants n e x = some y) : CountsDown n v y := by
  obtain ⟨i, hi, hcounter⟩ := h.found
  by_cases hwait : e.event = .semWait n
  . obtain ⟨hfound, hwaits, ⟨hpos, hless, hrefused⟩ | ⟨hle, -, hrefused⟩⟩ :=
      wait_stepGrants hi hwait hstep
    . constructor
      . refine ⟨i, hfound, ?_⟩
        intro hlast
        have := hcounter (by omega)
        omega
      . intro k hk
        rw [hrefused] at hk
        exact h.granted k hk
    . have hlast : v < x.2.waits + 1 := by
        by_contra hnot
        have := hcounter (by omega)
        omega
      constructor
      . exact ⟨i, hfound, fun hnot => absurd hnot (by omega)⟩
      . intro k hk
        rw [hrefused] at hk
        rcases List.mem_append.mp hk with hk | hk
        . exact h.granted k hk
        . rw [List.mem_singleton.mp hk]
          exact hlast
  . obtain ⟨hkept, hsame⟩ := kept_stepGrants hi hwait hdisturbs hstep
    constructor
    . exact ⟨i, hkept.found.trans hi, by rw [hkept.entry, hsame]; exact hcounter⟩
    . rw [hsame]
      exact h.granted

structure RefusesAll (n : Int) (x : Sys × Grants) : Prop where
  found : ∃ i, x.1.cercaSem n = some i ∧ (x.1.semaphores i).counter < 0
  refused : x.2.waits = 0 ∨ 1 ∈ x.2.refused

theorem RefusesAll.step (h : RefusesAll n x) (hdisturbs : ¬Disturbs n e x.1)
    (hstep : stepGrants n e x = some y) : RefusesAll n y := by
  obtain ⟨i, hi, hneg⟩ := h.found
  by_cases hwait : e.event = .semWait n
  . obtain ⟨hfound, -, ⟨hpos, -⟩ | ⟨-, hsame, hrefused⟩⟩ := wait_stepGrants hi hwait hstep
    . omega
    . constructor
      . exact ⟨i, hfound, by rw [hsame]; exact hneg⟩
      . right
        rw [hrefused]
        rcases h.refused with hnone | hfirst
        . simp [hnone]
        . exact List.mem_append_left _ hfirst
  . obtain ⟨hkept, hsame⟩ := kept_stepGrants hi hwait hdisturbs hstep
    constructor
    . exact ⟨i, hkept.found.trans hi, by rw [hkept.entry]; exact hneg⟩
    . rw [hsame]
      exact h.refused

/--
In a run in which somebody waits, and nobody signals, as many calls as the initial value says return 0 at
once just if that is no negative number for the counter.
-/
theorem always_atLeast_iff (hinit : e.event = .semInit n value) (hstep : s.step e = some s₁)
    (hcreated : s₁.eax s.current = 0) {es : List Input}
    (hok : Run.Allowed (stepGrants n) (fun e x => ¬Disturbs n e x.1) es (s₁, .none))
    (hrun : Run.run (stepGrants n) es (s₁, .none) = some x) (hwaits : 0 < x.2.waits)
    : Run.Always (stepGrants n) (fun x => x.2.AtLeast value.toNat) es (s₁, .none) ↔
        value.toNat < 2 ^ 31 := by
  obtain ⟨i, hi, hcounter⟩ := found_semInit hinit hstep hcreated
  have hvalue := value.isLt
  constructor
  . intro halways
    by_contra hlarge
    have hneg : value.toInt < 0 := by
      rw [BitVec.toInt_eq_toNat_cond]
      split <;> omega
    have hinv : Run.Always (stepGrants n) (RefusesAll n) es (s₁, .none) := by
      apply Run.always_of_step _ _ hok
      . intro e x y h hdisturbs hstep
        exact h.step hdisturbs hstep
      . exact ⟨⟨i, hi, by rw [hcounter]; exact hneg⟩, .inl rfl⟩
    have hlast := halways.last hrun
    rcases (hinv.last hrun).refused with hnone | hfirst
    . omega
    . have := hlast 1 hfirst
      omega
  . intro hsmall
    have hpos : value.toInt = value.toNat := by
      rw [BitVec.toInt_eq_toNat_of_lt]
      omega
    have hinv : Run.Always (stepGrants n) (CountsDown n value.toNat) es (s₁, .none) := by
      apply Run.always_of_step _ _ hok
      . intro e x y h hdisturbs hstep
        exact h.step hdisturbs hstep
      . constructor
        . refine ⟨i, hi, ?_⟩
          intro _
          rw [hcounter, hpos]
          simp [Grants.none]
        . intro k hk
          cases hk
    apply hinv.mono
    intro x hx
    exact hx.granted

theorem always_atLeast_iff_of_two
    : ∃ s s₁, boot (fun _ _ => 0) = some s ∧ s.step (.at (.semInit 7 2, 0)) = some s₁ ∧
        (Run.Always (stepGrants 7) (fun x => x.2.AtLeast (2 : BitVec 32).toNat)
            (atRest (.resume :: resumed [.semWait 7, .semWait 7])) (s₁, .none) ↔
          (2 : BitVec 32).toNat < 2 ^ 31) := by
  have hrun : ∀ s ∈ boot fun _ _ => 0, ∃ s₁ ∈ s.step (.at (.semInit 7 2, 0)),
      s₁.eax s.current = 0 ∧
      Run.Allowed (stepGrants 7) (fun e x => ¬Disturbs 7 e x.1)
        (atRest (.resume :: resumed [.semWait 7, .semWait 7])) (s₁, .none) ∧
      ∃ x ∈ Run.run (stepGrants 7) (atRest (.resume :: resumed [.semWait 7, .semWait 7])) (s₁, .none),
        0 < x.2.waits := by
    decide +kernel
  obtain ⟨s, hs⟩ := exists_boot fun _ _ => 0
  obtain ⟨s₁, hs₁, hcreated, hok, x, hx, hwaits⟩ := hrun s hs
  exact ⟨s, s₁, hs, hs₁, always_atLeast_iff rfl hs₁ hcreated hok hx hwaits⟩

/--
A semaphore that should be 2 ^ 31 at first lets nobody through.
-/
theorem not_atLeast_of_large
    : ∃ s s₁, boot (fun _ _ => 0) = some s ∧
        s.step (.at (.semInit 7 0x80000000, 0)) = some s₁ ∧ s₁.eax s.current = 0 ∧
        ¬Run.Always (stepGrants 7) (fun x => x.2.AtLeast (0x80000000 : BitVec 32).toNat)
          (atRest [.resume, .semWait 7]) (s₁, .none) := by
  have hrun : ∀ s ∈ boot fun _ _ => 0, ∃ s₁ ∈ s.step (.at (.semInit 7 0x80000000, 0)),
      s₁.eax s.current = 0 ∧
      ¬Run.Always (stepGrants 7) (fun x => x.2.AtLeast (0x80000000 : BitVec 32).toNat)
        (atRest [.resume, .semWait 7]) (s₁, .none) := by
    decide +kernel
  obtain ⟨s, hs⟩ := exists_boot fun _ _ => 0
  obtain ⟨s₁, hs₁, hcreated, hnot⟩ := hrun s hs
  exact ⟨s, s₁, hs, hs₁, hcreated, hnot⟩

end Grants

end Zeos
