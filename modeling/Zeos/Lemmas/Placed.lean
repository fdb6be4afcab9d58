import Mathlib.Data.Finset.Basic
import Zeos.Lemmas.Kernel
import Zeos.Spec.Model

/-!
Where the processes are. Every routine of the scheduler keeps the live processes in one place each, and
`estado` true about it.
-/

namespace Zeos

namespace Model

@[simp]
theorem toKernel_mapKernel (m : Model) (f : Kernel → Kernel)
    : (m.mapKernel f).toKernel = f m.toKernel := by
  rfl

@[simp]
theorem queues_mapKernel (m : Model) (f : Kernel → Kernel) : (m.mapKernel f).queues = m.queues := by
  rfl

@[simp]
theorem seq_mapKernel (m : Model) (f : Kernel → Kernel) (q : Queue)
    : (m.mapKernel f).seq q = m.seq q := by
  rfl

@[simp]
theorem toKernel_mapQueues (m : Model) (f : Queues → Queues)
    : (m.mapQueues f).toKernel = m.toKernel := by
  rfl

@[simp]
theorem queues_mapQueues (m : Model) (f : Queues → Queues) : (m.mapQueues f).queues = f m.queues := by
  rfl

@[simp]
theorem seq_mapQueues (m : Model) (f : Queues → Queues) (q : Queue)
    : (m.mapQueues f).seq q = (f m.queues).seq q := by
  rfl

def estado (m : Model) (t : Slot) : Estado :=
  (m.task t).estado

def Waits (m : Model) (q : Queue) : Prop :=
  q = .keyboardqueue ∨ ∃ i, q = .blockedQueue i ∧ (m.semaphores i).state = .usedSem

theorem read_cases (m : Model) (fd : Int) (buf : Addr) (count : Int)
    : (∃ r, m.read fd buf count = m.ret r) ∨
      m.read fd buf count = (((m.mapKernel (Kernel.requireKeys count)).updateProcessState m.current
        (some .keyboardqueue)).mapKernel fun k => k.setCont k.current (.readKeyboard buf)).schedNext ∨
      m.read fd buf count = (m.mapKernel (Kernel.requireKeys count)).readKeyboardBody buf := by
  unfold read
  split
  next => exact .inl ⟨_, rfl⟩
  split
  next => exact .inl ⟨_, rfl⟩
  split
  next => exact .inl ⟨_, rfl⟩
  split
  next => exact .inl ⟨_, rfl⟩
  unfold readKeyboard
  dsimp only
  split
  next => exact .inr (.inl rfl)
  next => exact .inr (.inr rfl)

end Model

def SameIdle (k k' : Kernel) : Prop :=
  k'.idleTask = k.idleTask ∧
    (k'.cont k.idleTask = k.cont k.idleTask ∨ k'.cont k.idleTask = .user)

theorem sameIdle_setCont_user (k : Kernel) (t : Slot) : SameIdle k (k.setCont t .user) := by
  refine ⟨rfl, ?_⟩
  rw [Kernel.setCont_cont]
  split
  next => exact .inr rfl
  next => exact .inl rfl

theorem sameIdle_setCont {k : Kernel} {t : Slot} (ht : t ≠ k.idleTask) (c : Cont)
    : SameIdle k (k.setCont t c) := by
  refine ⟨rfl, .inl ?_⟩
  rw [Kernel.setCont_cont, if_neg (Ne.symm ht)]

/--
Each live process is in the one place its `estado` says, where `run` is the process that has the CPU.
-/
structure Placed (m : Model) (live : Finset Slot) (run : Option Slot) : Prop where
  nodup : ∀ q, (m.seq q).Nodup
  disjoint : ∀ q q' t, t ∈ m.seq q → t ∈ m.seq q' → q = q'
  ready : m.queues.shape .readyqueue = .ring
  keyboard : m.queues.shape .keyboardqueue = .ring
  sem : ∀ i, (m.semaphores i).state = .usedSem → m.queues.shape (.blockedQueue i) = .ring
  idle_live : m.idleTask ∈ live
  idle_not_blocked : m.estado m.idleTask ≠ .stBlocked
  idle_not_reading : ∀ buff, m.cont m.idleTask ≠ .readKeyboard buff
  of_stRun : ∀ t ∈ live, m.estado t = .stRun →
    ¬m.queues.Linked t ∧ (t = m.idleTask ∨ run = some t)
  of_stReady : ∀ t ∈ live, m.estado t = .stReady → t ∈ m.seq .readyqueue
  of_stBlocked : ∀ t ∈ live, m.estado t = .stBlocked → ∃ q, m.Waits q ∧ t ∈ m.seq q
  live_of_mem : ∀ q ≠ .freequeue, ∀ t ∈ m.seq q, t ∈ live
  not_live_of_free : ∀ t ∈ m.seq .freequeue, t ∉ live

namespace Placed

open Model

variable {m m' : Model} {live : Finset Slot} {run run' : Option Slot} {t u : Slot} {q : Queue}

theorem seq_eq (m : Model) (q : Queue) : m.queues.seq q = m.seq q := by
  rfl

theorem linked_iff (h : Placed m live run) (ht : t ∈ live)
    : m.queues.Linked t ↔ m.estado t ≠ .stRun := by
  constructor
  . intro hlinked hrun
    exact (h.of_stRun t ht hrun).1 hlinked
  . intro hne
    cases hest : m.estado t with
    | stRun => exact absurd hest hne
    | stReady => exact ⟨_, h.of_stReady t ht hest⟩
    | stBlocked =>
      obtain ⟨q, -, hq⟩ := h.of_stBlocked t ht hest
      exact ⟨q, hq⟩

theorem estado_of_mem_ready (h : Placed m live run) (ht : t ∈ m.seq .readyqueue)
    : t ∈ live ∧ m.estado t = .stReady := by
  have hlive := h.live_of_mem _ (by simp) t ht
  refine ⟨hlive, ?_⟩
  cases hest : m.estado t with
  | stRun => exact absurd ⟨_, ht⟩ (h.of_stRun t hlive hest).1
  | stReady => rfl
  | stBlocked =>
    obtain ⟨q, hw, hq⟩ := h.of_stBlocked t hlive hest
    have := h.disjoint _ _ t ht hq
    subst this
    rcases hw with hw | ⟨i, hw, -⟩ <;> cases hw

theorem estado_of_mem_waits (h : Placed m live run) (hq : q ≠ .freequeue) (hne : q ≠ .readyqueue)
    (ht : t ∈ m.seq q) : t ∈ live ∧ m.estado t = .stBlocked ∧ m.Waits q ∧ t ≠ m.idleTask := by
  have hlive := h.live_of_mem _ hq t ht
  cases hest : m.estado t with
  | stRun => exact absurd ⟨_, ht⟩ (h.of_stRun t hlive hest).1
  | stReady => exact absurd (h.disjoint _ _ t ht (h.of_stReady t hlive hest)) hne
  | stBlocked =>
    obtain ⟨q', hw, hq'⟩ := h.of_stBlocked t hlive hest
    have := h.disjoint _ _ t ht hq'
    subst this
    refine ⟨hlive, rfl, hw, ?_⟩
    rintro rfl
    exact h.idle_not_blocked hest

theorem seq_blockedQueue_eq_nil (h : Placed m live run) {i : SemIx}
    (hi : (m.semaphores i).state = .freeSem) : m.seq (.blockedQueue i) = [] := by
  apply List.eq_nil_iff_forall_not_mem.mpr
  intro t ht
  obtain ⟨-, -, hw, -⟩ := h.estado_of_mem_waits (by simp) (by simp) ht
  rcases hw with hw | ⟨j, hw, hj⟩
  . cases hw
  . cases hw
    rw [hi] at hj
    cases hj

theorem mono (h : Placed m live run) (hrun : ∀ t ∈ run, t ∈ run') : Placed m live run' where
  __ := h
  of_stRun t ht hest := by
    obtain ⟨hnot, hwhere⟩ := h.of_stRun t ht hest
    exact ⟨hnot, hwhere.imp_right (fun ht => hrun t ht)⟩

theorem congr (h : Placed m live run) (hseq : ∀ q, m'.seq q = m.seq q)
    (hshape : ∀ q ≠ .freequeue, m.queues.shape q = .ring → m'.queues.shape q = .ring)
    (hsem : ∀ i, (m'.semaphores i).state = .usedSem → m'.queues.shape (.blockedQueue i) = .ring)
    (hest : ∀ t ∈ live, m'.estado t = m.estado t) (hidle : SameIdle m.toKernel m'.toKernel)
    (hwaits : ∀ q, ∀ t ∈ m.seq q, m.Waits q → m'.Waits q) : Placed m' live run := by
  have hlinked : ∀ t, m'.queues.Linked t ↔ m.queues.Linked t := by
    intro t
    simp only [Queues.Linked, seq_eq, hseq]
  constructor
  . intro q
    rw [hseq]
    exact h.nodup q
  . intro q q' t
    rw [hseq, hseq]
    exact h.disjoint q q' t
  . exact hshape _ (by simp) h.ready
  . exact hshape _ (by simp) h.keyboard
  . exact hsem
  . rw [hidle.1]
    exact h.idle_live
  . rw [hidle.1, hest _ h.idle_live]
    exact h.idle_not_blocked
  . rw [hidle.1]
    rcases hidle.2 with hcont | hcont
    . rw [hcont]
      exact h.idle_not_reading
    . rw [hcont]
      simp
  . intro t ht he
    rw [hest t ht] at he
    rw [hidle.1, hlinked]
    exact h.of_stRun t ht he
  . intro t ht he
    rw [hest t ht] at he
    rw [hseq]
    exact h.of_stReady t ht he
  . intro t ht he
    rw [hest t ht] at he
    obtain ⟨q, hw, hq⟩ := h.of_stBlocked t ht he
    exact ⟨q, hwaits q t hq hw, by rw [hseq]; exact hq⟩
  . intro q hq
    rw [hseq]
    exact h.live_of_mem q hq
  . rw [hseq]
    exact h.not_live_of_free

theorem mapKernel (h : Placed m live run) {f : Kernel → Kernel}
    (hest : ∀ t ∈ live, ((f m.toKernel).task t).estado = m.estado t)
    (hidle : SameIdle m.toKernel (f m.toKernel))
    (hsem : ∀ i, ((f m.toKernel).semaphores i).state = (m.semaphores i).state)
    : Placed (m.mapKernel f) live run := by
  apply h.congr
  . intro q
    rfl
  . intro q _ hring
    exact hring
  . intro i hi
    rw [toKernel_mapKernel, hsem] at hi
    exact h.sem i hi
  . exact hest
  . exact hidle
  . intro q t _ hw
    simpa only [Waits, toKernel_mapKernel, hsem] using hw

theorem openSem (h : Placed m live run) {i : SemIx} (hi : (m.semaphores i).state = .freeSem) (nSem : Int)
    (value : BitVec 32)
    : Placed ((m.mapKernel (Kernel.openSem i nSem value)).mapQueues (Queues.init (.blockedQueue i)))
        live run := by
  have hempty := h.seq_blockedQueue_eq_nil hi
  apply h.congr
  . intro q
    rw [seq_mapQueues, Queues.seq_init]
    split
    next heq => rw [heq, hempty]
    next => rfl
  . intro q _ hring
    rw [queues_mapQueues, Queues.shape_init]
    split
    next => rfl
    next => exact hring
  . intro j hj
    rw [queues_mapQueues, Queues.shape_init]
    split
    next => rfl
    next hne =>
      have : j ≠ i := fun heq => hne (by rw [heq])
      apply h.sem
      simpa [this] using hj
  . intro t _
    rfl
  . exact ⟨rfl, .inl rfl⟩
  . rintro q t _ (hw | ⟨j, rfl, hj⟩)
    . exact .inl hw
    . refine .inr ⟨j, rfl, ?_⟩
      have : j ≠ i := by
        rintro rfl
        rw [hi] at hj
        cases hj
      simpa [this] using hj

theorem closeSem (h : Placed m live run) {i : SemIx} (hempty : m.seq (.blockedQueue i) = [])
    : Placed (m.mapKernel (Kernel.closeSem i)) live run := by
  have hused : ∀ j, ((m.mapKernel (Kernel.closeSem i)).semaphores j).state = .usedSem ↔
      j ≠ i ∧ (m.semaphores j).state = .usedSem := by
    intro j
    by_cases hji : j = i <;> simp [hji]
  apply h.congr
  . intro q
    rfl
  . intro q _ hring
    exact hring
  . intro j hj
    exact h.sem j ((hused j).mp hj).2
  . intro t _
    rfl
  . exact ⟨rfl, .inl rfl⟩
  . rintro q t ht (hw | ⟨j, rfl, hj⟩)
    . exact .inl hw
    . refine .inr ⟨j, rfl, (hused j).mpr ⟨?_, hj⟩⟩
      rintro rfl
      rw [hempty] at ht
      cases ht

def Arrives (m : Model) (live : Finset Slot) (run : Option Slot) (t : Slot) (estado : Estado)
    (dst : Option Queue) : Prop :=
  if t ∈ live then
    match dst with
    | none => estado = .stRun ∧ (t = m.idleTask ∨ run = some t)
    | some .readyqueue => estado = .stReady
    | some q => estado = .stBlocked ∧ m.Waits q ∧ t ≠ m.idleTask
  else
    (dst = none ∨ dst = some .freequeue) ∧ t ≠ m.idleTask

section Arrives

variable {dst : Option Queue}

theorem Arrives.of_stRun (h : Arrives m live run t .stRun dst) (ht : t ∈ live)
    : dst = none ∧ (t = m.idleTask ∨ run = some t) := by
  unfold Arrives at h
  rw [if_pos ht] at h
  rcases dst with _ | _ | _ | _ | _ <;> simp_all

theorem Arrives.of_stReady (h : Arrives m live run t .stReady dst) (ht : t ∈ live)
    : dst = some .readyqueue := by
  unfold Arrives at h
  rw [if_pos ht] at h
  rcases dst with _ | _ | _ | _ | _ <;> simp_all

theorem Arrives.of_stBlocked (h : Arrives m live run t .stBlocked dst) (ht : t ∈ live)
    : ∃ q, dst = some q ∧ m.Waits q := by
  unfold Arrives at h
  rw [if_pos ht] at h
  split at h
  next => cases h.1
  next => cases h
  next q _ => exact ⟨q, rfl, h.2.1⟩

theorem Arrives.of_not_live {estado : Estado} (h : Arrives m live run t estado dst) (ht : t ∉ live)
    : (dst = none ∨ dst = some .freequeue) ∧ t ≠ m.idleTask := by
  unfold Arrives at h
  rw [if_neg ht] at h
  exact h

theorem Arrives.not_freequeue {estado : Estado} (ht : t ∈ live)
    : ¬Arrives m live run t estado (some .freequeue) := by
  unfold Arrives
  rw [if_pos ht]
  rintro ⟨-, hw | ⟨i, hw, -⟩, -⟩ <;> cases hw

theorem Arrives.idle {estado : Estado} (h : Arrives m live run m.idleTask estado dst)
    : m.idleTask ∈ live ∧ estado ≠ .stBlocked := by
  unfold Arrives at h
  split at h
  next hlive =>
    refine ⟨hlive, ?_⟩
    split at h
    next => rw [h.1]; simp
    next => rw [h]; simp
    next => exact absurd rfl h.2.2
  next => exact absurd rfl h.2

end Arrives

/--
One task `t` leaves its list, if it is on one, and arrives on the list `dst`, if there is one. Everything
else stays in its place.
-/
theorem move (h : Placed m live run) (t : Slot) (dst : Option Queue) {live' : Finset Slot}
    (hmem : ∀ q u, u ∈ m'.seq q ↔ (u ≠ t ∧ u ∈ m.seq q) ∨ (u = t ∧ dst = some q))
    (hnodup : ∀ q, (m'.seq q).Nodup)
    (hshape : ∀ q ≠ .freequeue, m.queues.shape q = .ring → m'.queues.shape q = .ring)
    (hest : ∀ u ∈ live, u ≠ t → m'.estado u = m.estado u) (hidle : SameIdle m.toKernel m'.toKernel)
    (hsem : ∀ i, (m'.semaphores i).state = (m.semaphores i).state)
    (hlive : ∀ u ≠ t, u ∈ live' ↔ u ∈ live)
    (ht : Arrives m live' run' t (m'.estado t) dst) (hrun : ∀ u ∈ run, u ≠ t → u ∈ run')
    : Placed m' live' run' := by
  have hwaits : ∀ q, m'.Waits q ↔ m.Waits q := by
    intro q
    simp only [Waits, hsem]
  have hlinked : ∀ u ≠ t, ¬m.queues.Linked u → ¬m'.queues.Linked u := by
    rintro u hu hnot ⟨q, hq⟩
    rcases (hmem q u).mp hq with hq | hq
    . exact hnot ⟨q, hq.2⟩
    . exact hu hq.1
  have hstay : ∀ u ≠ t, ∀ q, u ∈ m.seq q → u ∈ m'.seq q :=
    fun u hu q hq => (hmem q u).mpr (.inl ⟨hu, hq⟩)
  constructor
  . exact hnodup
  . intro q₁ q₂ u h₁ h₂
    rcases (hmem q₁ u).mp h₁ with ⟨hu, h₁⟩ | ⟨rfl, h₁⟩
    . rcases (hmem q₂ u).mp h₂ with ⟨-, h₂⟩ | ⟨rfl, -⟩
      . exact h.disjoint _ _ u h₁ h₂
      . exact absurd rfl hu
    . rcases (hmem q₂ u).mp h₂ with ⟨hu, -⟩ | ⟨-, h₂⟩
      . exact absurd rfl hu
      . exact Option.some.inj (h₁.symm.trans h₂)
  . exact hshape _ (by simp) h.ready
  . exact hshape _ (by simp) h.keyboard
  . intro i hi
    exact hshape _ (by simp) (h.sem i (by rw [← hsem]; exact hi))
  . rw [hidle.1]
    by_cases heq : t = m.idleTask
    . subst heq
      exact ht.idle.1
    . exact (hlive _ (Ne.symm heq)).mpr h.idle_live
  . rw [hidle.1]
    by_cases heq : t = m.idleTask
    . subst heq
      exact ht.idle.2
    . rw [hest _ h.idle_live (Ne.symm heq)]
      exact h.idle_not_blocked
  . rw [hidle.1]
    rcases hidle.2 with hcont | hcont
    . rw [hcont]
      exact h.idle_not_reading
    . rw [hcont]
      simp
  . intro u hu he
    rw [hidle.1]
    by_cases hut : u = t
    . subst hut
      rw [he] at ht
      obtain ⟨rfl, hwhere⟩ := ht.of_stRun hu
      refine ⟨?_, hwhere⟩
      rintro ⟨q, hq⟩
      rcases (hmem q u).mp hq with hq | hq
      . exact hq.1 rfl
      . cases hq.2
    . rw [hest u ((hlive u hut).mp hu) hut] at he
      obtain ⟨hnot, hwhere⟩ := h.of_stRun u ((hlive u hut).mp hu) he
      exact ⟨hlinked u hut hnot, hwhere.imp_right (fun hu => hrun u hu hut)⟩
  . intro u hu he
    by_cases hut : u = t
    . subst hut
      rw [he] at ht
      exact (hmem _ u).mpr (.inr ⟨rfl, ht.of_stReady hu⟩)
    . rw [hest u ((hlive u hut).mp hu) hut] at he
      exact hstay u hut _ (h.of_stReady u ((hlive u hut).mp hu) he)
  . intro u hu he
    by_cases hut : u = t
    . subst hut
      rw [he] at ht
      obtain ⟨q, hq, hw⟩ := ht.of_stBlocked hu
      exact ⟨q, (hwaits q).mpr hw, (hmem _ u).mpr (.inr ⟨rfl, hq⟩)⟩
    . rw [hest u ((hlive u hut).mp hu) hut] at he
      obtain ⟨q, hw, hq⟩ := h.of_stBlocked u ((hlive u hut).mp hu) he
      exact ⟨q, (hwaits q).mpr hw, hstay u hut _ hq⟩
  . intro q hq u hu
    rcases (hmem q u).mp hu with ⟨hut, hu⟩ | ⟨rfl, hdst⟩
    . exact (hlive u hut).mpr (h.live_of_mem q hq u hu)
    . by_contra hnot
      rcases (ht.of_not_live hnot).1 with hdst' | hdst'
      . cases hdst.symm.trans hdst'
      . exact hq (Option.some.inj (hdst.symm.trans hdst'))
  . intro u hu hul
    rcases (hmem _ u).mp hu with ⟨hut, hu⟩ | ⟨rfl, hdst⟩
    . exact h.not_live_of_free u hu ((hlive u hut).mp hul)
    . rw [hdst] at ht
      exact Arrives.not_freequeue hul ht

theorem mem_remove (h : Placed m live run)
    : u ∈ (m.queues.remove t).seq q ↔ u ≠ t ∧ u ∈ m.seq q := by
  rw [Queues.seq_remove]
  exact (h.nodup q).mem_erase_iff

theorem mem_move (h : Placed m live run) {q' : Queue}
    : u ∈ ((m.queues.remove t).append t q).seq q' ↔
        (u ≠ t ∧ u ∈ m.seq q') ∨ (u = t ∧ q = q') := by
  rw [Queues.seq_append]
  split
  next heq =>
    subst heq
    rw [List.mem_append, h.mem_remove, List.mem_singleton]
    simp
  next hne =>
    rw [h.mem_remove]
    simp [Ne.symm hne]

theorem nodup_move (h : Placed m live run) (q' : Queue)
    : (((m.queues.remove t).append t q).seq q').Nodup := by
  rw [Queues.seq_append]
  split
  next heq =>
    subst heq
    apply ((h.nodup _).erase t).append (List.nodup_singleton t)
    rw [List.disjoint_singleton]
    exact (h.nodup _).not_mem_erase
  next hne => exact (h.nodup q').erase t

theorem updateProcessState_some (h : Placed m live run) (ht : t ∈ live)
    (hq : q = .readyqueue ∨ (m.Waits q ∧ t ≠ m.idleTask)) (hrun : ∀ u ∈ run, u ≠ t → u ∈ run')
    : Placed (m.updateProcessState t (some q)) live run' := by
  apply h.move t (some q)
  . intro q' u
    exact h.mem_move.trans (by rw [Option.some.injEq])
  . exact h.nodup_move
  . intro q' _ hring
    simp only [updateProcessState, queues_mapKernel, queues_mapQueues, Queues.shape_append,
      Queues.shape_remove]
    split
    next heq =>
      subst heq
      rw [hring]
      rfl
    next => exact hring
  . intro u _ hu
    simp [updateProcessState, estado, hu]
  . exact ⟨rfl, .inl rfl⟩
  . intro i
    rfl
  . intro u _
    exact Iff.rfl
  . unfold Arrives
    rw [if_pos ht]
    rcases hq with rfl | ⟨hw, hidle⟩
    . simp [updateProcessState, estado]
    . rcases hw with rfl | ⟨i, rfl, hi⟩
      . simp [updateProcessState, estado, Waits, hidle]
      . simp [updateProcessState, estado, Waits, hidle, hi]
  . exact hrun

theorem updateProcessState_none (h : Placed m live none) (ht : t ∈ live)
    : Placed (m.updateProcessState t none) live (some t) := by
  apply h.move t none
  . intro q' u
    exact h.mem_remove.trans (by simp)
  . intro q
    exact (h.nodup q).erase t
  . intro q' _ hring
    exact hring
  . intro u _ hu
    simp [updateProcessState, estado, hu]
  . exact ⟨rfl, .inl rfl⟩
  . intro i
    rfl
  . intro u _
    exact Iff.rfl
  . unfold Arrives
    rw [if_pos ht]
    simp [updateProcessState, estado]
  . intro u hu
    cases hu

theorem mem_append (h : Placed m live run) (hfree : ¬m.queues.Linked t) {q' : Queue}
    : u ∈ (m.queues.append t q).seq q' ↔ (u ≠ t ∧ u ∈ m.seq q') ∨ (u = t ∧ q = q') := by
  rw [← h.mem_move, Queues.remove_of_not_linked hfree]

theorem nodup_append (h : Placed m live run) (hfree : ¬m.queues.Linked t) (q' : Queue)
    : ((m.queues.append t q).seq q').Nodup := by
  rw [← Queues.remove_of_not_linked hfree]
  exact h.nodup_move q'

theorem enroll (h : Placed m live run) (hfree : ¬m.queues.Linked t) {f : Kernel → Kernel}
    (hready : ((f m.toKernel).task t).estado = .stReady)
    (hest : ∀ u ≠ t, ((f m.toKernel).task u).estado = m.estado u)
    (hidle : SameIdle m.toKernel (f m.toKernel))
    (hsem : ∀ i, ((f m.toKernel).semaphores i).state = (m.semaphores i).state)
    : Placed ((m.mapKernel f).mapQueues (Queues.append t .readyqueue)) (insert t live) run := by
  apply h.move t (some .readyqueue)
  . intro q u
    exact (h.mem_append hfree).trans (by rw [Option.some.injEq])
  . exact h.nodup_append hfree
  . intro q _ hring
    rw [queues_mapQueues, Queues.shape_append]
    split
    next heq =>
      subst heq
      rw [queues_mapKernel, hring]
      rfl
    next => exact hring
  . intro u _ hu
    exact hest u hu
  . exact hidle
  . exact hsem
  . intro u hu
    simp [hu]
  . unfold Arrives
    rw [if_pos (Finset.mem_insert_self t live)]
    exact hready
  . intro u hu _
    exact hu

theorem retire (h : Placed m live (some t)) (hidle : t ≠ m.idleTask) (hfree : ¬m.queues.Linked t)
    : Placed (m.mapQueues (Queues.append t .freequeue)) (live.erase t) none := by
  apply h.move t (some .freequeue)
  . intro q u
    exact (h.mem_append hfree).trans (by rw [Option.some.injEq])
  . exact h.nodup_append hfree
  . intro q hq hring
    rw [queues_mapQueues, Queues.shape_append, if_neg hq]
    exact hring
  . intro u _ _
    rfl
  . exact ⟨rfl, .inl rfl⟩
  . intro i
    rfl
  . intro u hu
    simp [hu]
  . unfold Arrives
    rw [if_neg (Finset.notMem_erase t live)]
    exact ⟨.inr rfl, hidle⟩
  . rintro u hu hne
    exact absurd (Option.some.inj hu).symm hne

theorem take (h : Placed m live run) (ht : t ∈ m.seq .freequeue) {f : Kernel → Kernel}
    (hest : ∀ u ≠ t, ((f m.toKernel).task u).estado = m.estado u)
    (hidle : SameIdle m.toKernel (f m.toKernel))
    (hsem : ∀ i, ((f m.toKernel).semaphores i).state = (m.semaphores i).state)
    : Placed ((m.mapQueues (Queues.remove t)).mapKernel f) live run := by
  have hlive := h.not_live_of_free t ht
  apply h.move t none
  . intro q u
    exact h.mem_remove.trans (by simp)
  . intro q
    exact (h.nodup q).erase t
  . intro q _ hring
    exact hring
  . intro u _ hu
    exact hest u hu
  . exact hidle
  . exact hsem
  . intro u _
    exact Iff.rfl
  . unfold Arrives
    rw [if_neg hlive]
    refine ⟨.inl rfl, ?_⟩
    rintro rfl
    exact hlive h.idle_live
  . intro u hu _
    exact hu

theorem block (h : Placed m live (some t)) (ht : t ∈ live) (hidle : t ≠ m.idleTask)
    (hfree : ¬m.queues.Linked t) {f : Kernel → Kernel}
    (hblocked : ((f m.toKernel).task t).estado = .stBlocked)
    (hest : ∀ u ≠ t, ((f m.toKernel).task u).estado = m.estado u)
    (hidle' : SameIdle m.toKernel (f m.toKernel))
    (hsem : ∀ i, ((f m.toKernel).semaphores i).state = (m.semaphores i).state)
    : Placed ((m.mapQueues (Queues.push t .keyboardqueue)).mapKernel f) live none := by
  have hnot : ∀ q, t ∉ m.seq q := fun q hq => hfree ⟨q, hq⟩
  apply h.move t (some .keyboardqueue)
  . intro q u
    have hne : u ∈ m.seq q → u ≠ t := fun hq heq => hnot q (heq ▸ hq)
    simp only [seq_mapKernel, seq_mapQueues, Queues.seq_push, seq_eq, Option.some.injEq]
    split
    next heq =>
      subst heq
      simp only [List.mem_cons]
      tauto
    next hq =>
      have := Ne.symm hq
      tauto
  . intro q
    simp only [seq_mapKernel, seq_mapQueues, Queues.seq_push]
    split
    next => exact List.nodup_cons.mpr ⟨hnot _, h.nodup _⟩
    next => exact h.nodup q
  . intro q _ hring
    rw [queues_mapKernel, queues_mapQueues, Queues.shape_push]
    exact hring
  . intro u _ hu
    exact hest u hu
  . exact hidle'
  . exact hsem
  . intro u _
    exact Iff.rfl
  . unfold Arrives
    rw [if_pos ht]
    exact ⟨hblocked, .inl rfl, hidle⟩
  . rintro u hu hne
    exact absurd (Option.some.inj hu).symm hne

end Placed

/--
What holds when the kernel is done with a step: besides, the current task has the CPU.
-/
structure Settled (m : Model) (live : Finset Slot) : Prop where
  placed : Placed m live (some m.current)
  live : m.current ∈ live
  running : m.estado m.current = .stRun

namespace Placed

open Model

variable {m m' : Model} {live : Finset Slot} {run run' : Option Slot} {t u : Slot} {q : Queue}

theorem schedData (h : Placed m live run) (t : Slot)
    : Placed (m.mapKernel (Kernel.schedData t)) live run := by
  apply h.mapKernel
  . intro u _
    simp [estado]
  . exact ⟨rfl, .inl rfl⟩
  . intro i
    rfl

theorem schedNext (h : Placed m live none) : Settled m.schedNext live := by
  unfold Model.schedNext
  split
  next hnil =>
    have hidle : m.estado m.idleTask = .stRun := by
      cases hest : m.estado m.idleTask with
      | stRun => rfl
      | stReady =>
        have := h.of_stReady _ h.idle_live hest
        rw [hnil] at this
        cases this
      | stBlocked => exact absurd hest h.idle_not_blocked
    have hplaced : Placed m live (some m.idleTask) := h.mono (by simp)
    exact ⟨hplaced.mapKernel (fun _ _ => rfl) ⟨rfl, .inl rfl⟩ (fun _ => rfl), h.idle_live, hidle⟩
  next t ts hcons =>
    have ht : t ∈ m.seq .readyqueue := by simp [hcons]
    have hlive := (h.estado_of_mem_ready ht).1
    constructor
    . apply ((h.schedData t).updateProcessState_none hlive).mapKernel
      . intro u _
        rfl
      . exact ⟨rfl, .inl rfl⟩
      . intro i
        rfl
    . exact hlive
    . simp [estado, updateProcessState]

theorem exitRunData (h : Placed m live run) : Placed (m.mapKernel Kernel.exitRunData) live run := by
  apply h.mapKernel
  . intro u _
    simp [estado]
  . exact ⟨rfl, .inl rfl⟩
  . intro i
    rfl

theorem exitRunCurrent (h : Placed m live (some m.current)) (ht : m.current ∈ live)
    (hq : q = .readyqueue ∨ (m.Waits q ∧ m.current ≠ m.idleTask))
    : Placed (m.exitRunCurrent q) live none := by
  apply h.exitRunData.updateProcessState_some ht hq
  rintro u hu hne
  exact absurd (Option.some.inj hu).symm hne

theorem wake (h : Placed m live run) (hq : q ≠ .freequeue) (hne : q ≠ .readyqueue) (ht : t ∈ m.seq q)
    : Placed (m.updateProcessState t (some .readyqueue)) live run := by
  obtain ⟨hlive, -, -, -⟩ := h.estado_of_mem_waits hq hne ht
  exact h.updateProcessState_some hlive (.inl rfl) (fun u hu _ => hu)

theorem queues_wake (h : Placed m live run) (ht : t ∈ m.seq q) {q' : Queue} (hq' : q' ≠ q)
    (hne : q' ≠ .readyqueue)
    : (m.updateProcessState t (some .readyqueue)).seq q' = m.seq q' ∧
        (m.updateProcessState t (some .readyqueue)).queues.shape q' = m.queues.shape q' := by
  have hnot : t ∉ m.seq q' := fun ht' => hq' (h.disjoint _ _ t ht' ht)
  constructor
  . change ((m.queues.remove t).append t .readyqueue).seq q' = m.seq q'
    rw [Queues.seq_append, if_neg hne]
    exact List.erase_of_not_mem hnot
  . change ((m.queues.remove t).append t .readyqueue).shape q' = m.queues.shape q'
    rw [Queues.shape_append, if_neg hne]
    rfl

theorem seq_wake {ts : List Slot} (hne : q ≠ .readyqueue) (hcons : m.seq q = t :: ts)
    : (m.updateProcessState t (some .readyqueue)).seq q = ts := by
  change ((m.queues.remove t).append t .readyqueue).seq q = ts
  rw [Queues.seq_append, if_neg hne, Queues.seq_remove, seq_eq, hcons, List.erase_cons_head]

theorem setSemRet (h : Placed m live run) (t : Slot) (r : Int)
    : Placed (m.mapKernel (Kernel.setSemRet t r)) live run := by
  apply h.mapKernel
  . intro u _
    simp [estado]
  . exact ⟨rfl, .inl rfl⟩
  . intro i
    rfl

section SemDestroy

structure Unblocked (m m' : Model) (q : Queue) : Prop where
  current : m'.current = m.current
  idle : m'.idleTask = m.idleTask
  semaphores : m'.semaphores = m.semaphores
  pid : ∀ t, (m'.task t).pid = (m.task t).pid
  estado : ∀ t, t ∉ m.seq q → m'.estado t = m.estado t
  seq : ∀ q' ≠ q, q' ≠ .readyqueue → m'.seq q' = m.seq q'
  shape : ∀ q' ≠ q, q' ≠ .readyqueue → m'.queues.shape q' = m.queues.shape q'

theorem unblock (h : Placed m live run) {ts : List Slot} (hq : q ≠ .freequeue) (hne : q ≠ .readyqueue)
    (hts : m.seq q = ts)
    : Placed (m.unblock ts) live run ∧ (m.unblock ts).seq q = [] ∧ Unblocked m (m.unblock ts) q := by
  induction ts generalizing m with
  | nil => exact ⟨h, hts, rfl, rfl, rfl, fun _ => rfl, fun _ _ => rfl, fun _ _ _ => rfl, fun _ _ _ => rfl⟩
  | cons t ts ih =>
    have hret := h.setSemRet t (-1)
    have hts' : (m.mapKernel (Kernel.setSemRet t (-1))).seq q = t :: ts := hts
    have ht : t ∈ (m.mapKernel (Kernel.setSemRet t (-1))).seq q := by
      rw [hts']
      exact List.mem_cons_self
    obtain ⟨hplaced, hnil, hrest⟩ := ih (hret.wake hq hne ht) (seq_wake hne hts')
    refine ⟨hplaced, hnil, ?_⟩
    constructor
    . exact hrest.current
    . exact hrest.idle
    . exact hrest.semaphores
    . intro u
      apply (hrest.pid u).trans
      simp [updateProcessState]
    . intro u hu
      rw [hts, List.mem_cons, not_or] at hu
      apply (hrest.estado u (by rw [seq_wake hne hts']; exact hu.2)).trans
      simp [updateProcessState, estado, hu.1]
    . intro q' hq' hne'
      exact (hrest.seq q' hq' hne').trans (hret.queues_wake ht hq' hne').1
    . intro q' hq' hne'
      exact (hrest.shape q' hq' hne').trans (hret.queues_wake ht hq' hne').2

theorem semDestroy (h : Placed m live run) (nSem : Int) : Placed (m.semDestroy nSem).2 live run := by
  unfold Model.semDestroy
  split
  next => exact h
  next i _ =>
    split
    next => exact h
    next =>
      obtain ⟨hplaced, hnil, -⟩ := h.unblock (q := .blockedQueue i) (by simp) (by simp) rfl
      exact hplaced.closeSem hnil

structure Destroyed (m m' : Model) : Prop where
  current : m'.current = m.current
  idle : m'.idleTask = m.idleTask
  pid : ∀ t, (m'.task t).pid = (m.task t).pid
  estado : ∀ t, (∀ i, t ∉ m.seq (.blockedQueue i)) → m'.estado t = m.estado t
  blocked : ∀ i t, t ∈ m'.seq (.blockedQueue i) → t ∈ m.seq (.blockedQueue i)
  freequeue : m'.seq .freequeue = m.seq .freequeue
  shape : m'.queues.shape .freequeue = m.queues.shape .freequeue

theorem Destroyed.refl (m : Model) : Destroyed m m :=
  ⟨rfl, rfl, fun _ => rfl, fun _ _ => rfl, fun _ _ h => h, rfl, rfl⟩

theorem Destroyed.trans {m'' : Model} (h : Destroyed m m') (h' : Destroyed m' m'')
    : Destroyed m m'' := by
  constructor
  . exact h'.current.trans h.current
  . exact h'.idle.trans h.idle
  . intro t
    exact (h'.pid t).trans (h.pid t)
  . intro t ht
    exact (h'.estado t (fun i hi => ht i (h.blocked i t hi))).trans (h.estado t ht)
  . intro i t ht
    exact h.blocked i t (h'.blocked i t ht)
  . exact h'.freequeue.trans h.freequeue
  . exact h'.shape.trans h.shape

theorem destroyed_semDestroy (h : Placed m live run) (nSem : Int)
    : Destroyed m (m.semDestroy nSem).2 := by
  unfold Model.semDestroy
  split
  next => exact .refl m
  next i _ =>
    split
    next => exact .refl m
    next =>
      obtain ⟨-, hnil, hrest⟩ := h.unblock (q := .blockedQueue i) (by simp) (by simp) rfl
      constructor
      . exact hrest.current
      . exact hrest.idle
      . exact hrest.pid
      . intro t ht
        exact hrest.estado t (ht i)
      . intro j t ht
        rw [seq_mapKernel] at ht
        by_cases hji : j = i
        . rw [hji, hnil] at ht
          cases ht
        . rwa [hrest.seq _ (by simpa using hji) (by simp)] at ht
      . exact hrest.seq _ (by simp) (by simp)
      . exact hrest.shape _ (by simp) (by simp)

theorem destroyOwned (h : Placed m live run)
    : Placed m.destroyOwned live run ∧ Destroyed m m.destroyOwned := by
  unfold Model.destroyOwned
  induction List.finRange nrSemaphores generalizing m with
  | nil => exact ⟨h, .refl m⟩
  | cons i is ih =>
    rw [List.foldl_cons]
    split
    next =>
      obtain ⟨hplaced, hrest⟩ := ih (h.semDestroy _)
      exact ⟨hplaced, (h.destroyed_semDestroy _).trans hrest⟩
    next => exact ih h

end SemDestroy

end Placed

namespace Settled

open Model

variable {m : Model} {live : Finset Slot} {t : Slot} {q : Queue}

theorem not_linked (h : Settled m live) : ¬m.queues.Linked m.current :=
  (h.placed.of_stRun _ h.live h.running).1

theorem mapKernel (h : Settled m live) {f : Kernel → Kernel}
    (hest : ∀ t ∈ live, ((f m.toKernel).task t).estado = m.estado t)
    (hidle : SameIdle m.toKernel (f m.toKernel))
    (hcurrent : (f m.toKernel).current = m.current)
    (hsem : ∀ i, ((f m.toKernel).semaphores i).state = (m.semaphores i).state)
    : Settled (m.mapKernel f) live := by
  constructor
  . rw [toKernel_mapKernel, hcurrent]
    exact h.placed.mapKernel hest hidle hsem
  . rw [toKernel_mapKernel, hcurrent]
    exact h.live
  . unfold estado
    rw [toKernel_mapKernel, hcurrent, hest _ h.live]
    exact h.running

theorem needsSched (h : Settled m live) : Settled m.needsSched.2 live := by
  unfold Model.needsSched
  split
  next => exact h
  next =>
    split
    next =>
      dsimp only
      apply h.mapKernel
      . intro t _
        simp [estado]
      . exact ⟨rfl, .inl rfl⟩
      . rfl
      . intro i
        rfl
    next => exact h

theorem updateSchedDataRr (h : Settled m live)
    : Settled (m.mapKernel Kernel.updateSchedDataRr) live :=
  h.mapKernel (fun _ _ => rfl) ⟨rfl, .inl rfl⟩ rfl (fun _ => rfl)

theorem schedule (h : Settled m live) : Settled m.schedule live := by
  have hneeds := h.updateSchedDataRr.needsSched
  unfold Model.schedule
  dsimp only
  split
  next => exact (hneeds.placed.exitRunCurrent hneeds.live (.inl rfl)).schedNext
  next => exact hneeds

theorem ret (h : Settled m live) (r : Int) : Settled (m.ret r) live := by
  apply h.mapKernel
  . intro t _
    rfl
  . exact sameIdle_setCont_user _ _
  . rfl
  . intro i
    rfl

theorem tick (h : Settled m live)
    : Settled (m.mapKernel fun k => { k with zeosTicks := k.zeosTicks + 1 }) live :=
  h.mapKernel (fun _ _ => rfl) ⟨rfl, .inl rfl⟩ rfl (fun _ => rfl)

theorem clockRutine (h : Settled m live) : Settled m.clockRutine live :=
  h.tick.schedule

theorem current_not_mem (h : Settled m live) (q : Queue) : m.current ∉ m.seq q :=
  fun hq => h.not_linked ⟨q, hq⟩

theorem wake (h : Settled m live) (hq : q ≠ .freequeue) (hne : q ≠ .readyqueue) (ht : t ∈ m.seq q)
    : Settled (m.updateProcessState t (some .readyqueue)) live := by
  have hcurrent : m.current ≠ t := by
    rintro rfl
    exact h.current_not_mem q ht
  constructor
  . exact h.placed.wake hq hne ht
  . exact h.live
  . have := h.running
    simpa [updateProcessState, estado, hcurrent] using this

theorem keyPressed (h : Settled m live) (entrada beyond : Byte)
    : Settled (m.mapKernel (Kernel.keyPressed entrada beyond)) live :=
  h.mapKernel (fun _ _ => rfl) ⟨rfl, .inl rfl⟩ rfl (fun _ => rfl)

theorem keyboardRutine (h : Settled m live) (entrada beyond : Byte)
    : Settled (m.keyboardRutine entrada beyond) live := by
  have hkey := h.keyPressed entrada beyond
  unfold Model.keyboardRutine
  split
  next =>
    dsimp only
    split
    next => exact hkey
    next ts rest hcons =>
      split
      next => exact hkey.wake (q := .keyboardqueue) (by simp) (by simp) (by rw [hcons]; simp)
      next => exact hkey
  next => exact h

section Keyboard

theorem blockReading (h : Settled m live) (hidle : m.current ≠ m.idleTask) (buff : Addr)
    : Placed ((m.mapQueues (Queues.push m.current .keyboardqueue)).mapKernel
        (Kernel.blockReading buff)) live none := by
  apply h.placed.block h.live hidle h.not_linked
  . simp
  . intro u hu
    simp [hu, estado]
  . exact sameIdle_setCont hidle _
  . intro i
    rfl

theorem waitKeyboard (h : Settled m live) (hidle : m.current ≠ m.idleTask) (buff : Addr)
    : Settled (m.waitKeyboard buff) live :=
  (h.blockReading hidle buff).schedNext

theorem readKeysLoop (h : Settled m live) (n : Nat) (buff : Addr)
    : Settled { m with toKernel := (m.readKeysLoop n buff).2 } live := by
  obtain ⟨mm, keyboardBuff, copies, stopped, heq⟩ := Kernel.readKeysLoop_eq n buff m.toKernel
  apply h.mapKernel (f := fun k => (k.readKeysLoop n buff).2)
  . rw [heq]
    exact fun _ _ => rfl
  . rw [heq]
    exact ⟨rfl, .inl rfl⟩
  . rw [heq]
  . intro i
    rw [heq]

theorem readKeys (h : Settled m live) (n : Nat) (buff : Addr) (r : Int)
    : Settled { m with toKernel := (m.readKeysLoop n buff).2.addReadKeys r } live := by
  apply (h.readKeysLoop n buff).mapKernel (f := Kernel.addReadKeys r)
  . simp [estado]
  . exact ⟨rfl, .inl rfl⟩
  . rfl
  . intro i
    rfl

theorem readKeys_ne_idle (hidle : m.current ≠ m.idleTask) (n : Nat) (buff : Addr) (r : Int)
    : ((m.readKeysLoop n buff).2.addReadKeys r).current ≠
        ((m.readKeysLoop n buff).2.addReadKeys r).idleTask := by
  obtain ⟨mm, keyboardBuff, copies, stopped, heq⟩ := Kernel.readKeysLoop_eq n buff m.toKernel
  rw [heq]
  exact hidle

theorem readKeyboardBody (h : Settled m live) (hidle : m.current ≠ m.idleTask) (buff : Addr)
    : Settled (m.readKeyboardBody buff) live := by
  unfold Model.readKeyboardBody
  dsimp only
  split
  next =>
    split
    next => exact h.readKeysLoop _ _
    next => exact (h.readKeys _ _ _).ret _
  next =>
    split
    next =>
      split
      next => exact h.readKeysLoop _ _
      next => exact (h.readKeys _ _ _).waitKeyboard (readKeys_ne_idle hidle _ _ _) _
    next => exact h.waitKeyboard hidle buff

theorem requireKeys (h : Settled m live) (count : Int)
    : Settled (m.mapKernel (Kernel.requireKeys count)) live := by
  apply h.mapKernel
  . intro t _
    simp [estado]
  . exact ⟨rfl, .inl rfl⟩
  . rfl
  . intro i
    rfl

theorem queueReading (h : Settled m live) (hidle : m.current ≠ m.idleTask) (buff : Addr)
    : Placed ((m.updateProcessState m.current (some .keyboardqueue)).mapKernel fun k =>
        k.setCont k.current (.readKeyboard buff)) live none := by
  apply Placed.mapKernel
  . exact h.placed.updateProcessState_some h.live (.inr ⟨.inl rfl, hidle⟩)
      (fun u hu hne => absurd (Option.some.inj hu).symm hne)
  . intro t _
    rfl
  . exact sameIdle_setCont hidle _
  . intro i
    rfl

theorem read (h : Settled m live) (hidle : m.current ≠ m.idleTask) (fd : Int) (buf : Addr) (count : Int)
    : Settled (m.read fd buf count) live := by
  have hrequire := h.requireKeys count
  rcases m.read_cases fd buf count with ⟨r, heq⟩ | heq | heq
  . rw [heq]
    exact h.ret r
  . rw [heq]
    exact (hrequire.queueReading hidle buf).schedNext
  . rw [heq]
    exact hrequire.readKeyboardBody hidle buf

end Keyboard

section Semaphores

theorem semInit (h : Settled m live) {nSem : Int} {value : BitVec 32} {x : Int × Model}
    (hinit : m.semInit nSem value = some x) : Settled x.2 live := by
  unfold Model.semInit at hinit
  split at hinit
  next =>
    cases hinit
    exact h
  next =>
    obtain ⟨i, hi, rfl⟩ := Option.map_eq_some_iff.mp hinit
    have hfree : (m.semaphores i).state = .freeSem := by
      simpa using List.find?_some hi
    exact ⟨h.placed.openSem hfree nSem value, h.live, h.running⟩

theorem waits_of_cercaSem {nSem : Int} {i : SemIx} (hi : m.cercaSem nSem = some i)
    : m.Waits (.blockedQueue i) :=
  .inr ⟨i, rfl, (Kernel.cercaSem_eq_some hi).2⟩

theorem setSemRet (h : Settled m live) (t : Slot) (r : Int)
    : Settled (m.mapKernel (Kernel.setSemRet t r)) live := by
  apply h.mapKernel
  . intro t _
    simp [estado]
  . exact ⟨rfl, .inl rfl⟩
  . rfl
  . intro i
    rfl

theorem queueWaiting (h : Settled m live) (hidle : m.current ≠ m.idleTask) (hq : m.Waits q)
    : Placed ((m.exitRunCurrent q).mapKernel fun k => k.setCont k.current .semWait) live none := by
  apply (h.placed.exitRunCurrent h.live (.inr ⟨hq, hidle⟩)).mapKernel
  . intro t _
    rfl
  . exact sameIdle_setCont hidle _
  . intro j
    rfl

theorem semWait (h : Settled m live) (hidle : m.current ≠ m.idleTask) (nSem : Int)
    : Settled (m.semWait nSem) live := by
  have hclear := h.setSemRet m.current 0
  unfold Model.semWait
  split
  next => exact h.ret _
  next i hi =>
    dsimp only
    split
    next => exact (hclear.queueWaiting hidle (waits_of_cercaSem hi)).schedNext
    next =>
      apply Settled.ret
      apply hclear.mapKernel
      . intro t _
        rfl
      . exact ⟨rfl, .inl rfl⟩
      . rfl
      . intro j
        simp

theorem semSignal (h : Settled m live) (nSem : Int) : Settled (m.semSignal nSem).2 live := by
  unfold Model.semSignal
  split
  next => exact h
  next i hi =>
    split
    next =>
      apply h.mapKernel
      . intro t _
        rfl
      . exact ⟨rfl, .inl rfl⟩
      . rfl
      . intro j
        simp
    next t ts hcons =>
      exact h.wake (q := .blockedQueue i) (by simp) (by simp) (by rw [hcons]; simp)

theorem semDestroy (h : Settled m live) (nSem : Int) : Settled (m.semDestroy nSem).2 live := by
  have hrest := h.placed.destroyed_semDestroy nSem
  constructor
  . rw [hrest.current]
    exact h.placed.semDestroy nSem
  . rw [hrest.current]
    exact h.live
  . rw [hrest.current, hrest.estado _ (fun i => h.current_not_mem _)]
    exact h.running

end Semaphores

section Fork

structure Taken (m : Model) (live : Finset Slot) (new : Slot) : Prop where
  settled : Settled m live
  not_live : new ∉ live
  not_linked : ¬m.queues.Linked new

theorem takeCopy (h : Settled m live) (ht : t ∈ m.seq .freequeue) : Taken (m.takeCopy t) live t := by
  have hlive := h.placed.not_live_of_free t ht
  have hcurrent : m.current ≠ t := fun heq => hlive (heq ▸ h.live)
  have hplaced : Placed (m.takeCopy t) live (some m.current) := by
    apply h.placed.take ht
    . intro u hu
      simp [hu, estado]
    . exact ⟨rfl, .inl rfl⟩
    . intro i
      rfl
  refine ⟨⟨hplaced, h.live, ?_⟩, hlive, ?_⟩
  . have := h.running
    simpa [Model.takeCopy, estado, hcurrent] using this
  . rintro ⟨q, hq⟩
    exact (h.placed.mem_remove.mp hq).1 rfl

theorem Taken.mapKernel (h : Taken m live t) {f : Kernel → Kernel}
    (hest : ∀ u ≠ t, ((f m.toKernel).task u).estado = m.estado u)
    (hidle : SameIdle m.toKernel (f m.toKernel))
    (hcurrent : (f m.toKernel).current = m.current)
    (hsem : ∀ i, ((f m.toKernel).semaphores i).state = (m.semaphores i).state)
    : Taken (m.mapKernel f) live t := by
  refine ⟨h.settled.mapKernel ?_ hidle hcurrent hsem, h.not_live, h.not_linked⟩
  intro u hu
  exact hest u (fun heq => h.not_live (heq ▸ hu))

theorem Taken.makeReady (h : Taken m live t) : Settled (makeReady t m).2 (insert t live) := by
  have hcurrent : m.current ≠ t := fun heq => h.not_live (heq ▸ h.settled.live)
  have hplaced : Placed (Model.makeReady t m).2 (insert t live) (some m.current) := by
    apply h.settled.placed.enroll h.not_linked
    . simp
    . intro u hu
      simp [hu, estado]
    . exact ⟨rfl, .inl rfl⟩
    . intro i
      rfl
  refine ⟨hplaced, Finset.mem_insert_of_mem h.settled.live, ?_⟩
  have := h.settled.running
  simpa [Model.makeReady, estado, hcurrent] using this

theorem Taken.forkContext (h : Taken m live t)
    : Taken (m.mapKernel (Kernel.forkContext t)) live t := by
  apply h.mapKernel
  . intro u _
    rfl
  . exact sameIdle_setCont_user _ t
  . rfl
  . intro i
    rfl

theorem Taken.cloneContext (h : Taken m live t)
    : Taken (m.mapKernel (Kernel.cloneContext t)) live t := by
  apply h.mapKernel
  . intro u _
    rfl
  . exact sameIdle_setCont_user _ t
  . rfl
  . intro i
    rfl

theorem Taken.inheritPages (h : Taken m live t) {k k' : Kernel} (hk : m.allocateDIR t = some k)
    {enough : Bool} (hpages : k.inheritPages t = some (enough, k'))
    : Taken { m with toKernel := k' } live t := by
  obtain ⟨d, -, rfl⟩ := Kernel.allocateDIR_eq_some hk
  obtain ⟨mm, rfl⟩ := Kernel.inheritPages_eq_some hpages
  apply h.mapKernel (f := fun k => { (k.setTask t fun ts =>
    { ts with dirPagesBaseAddr := d, nDirectorio := d }).setRefs d 1 with mm := mm })
  . intro u hu
    simp [estado, hu]
  . exact ⟨rfl, .inl rfl⟩
  . rfl
  . intro i
    rfl

theorem fork (h : Settled m live) {x : Int × Model} (hfork : m.fork = some x)
    : (x.2.incrementalPID = m.incrementalPID ∧ Settled x.2 live) ∨
        (x.2.incrementalPID = m.incrementalPID + 1 ∧
          ∃ new ∈ (m.seq .freequeue).head?, Settled x.2 (insert new live)) := by
  unfold Model.fork at hfork
  split at hfork
  next =>
    cases hfork
    exact .inl ⟨rfl, h⟩
  next new rest hcons =>
    have htaken := h.takeCopy (t := new) (by rw [hcons]; simp)
    dsimp only at hfork
    split at hfork
    next =>
      cases hfork
      exact .inl ⟨rfl, htaken.settled⟩
    next k hk =>
      obtain ⟨⟨enough, k'⟩, hpages, rfl⟩ := Option.map_eq_some_iff.mp hfork
      have htaken' := htaken.inheritPages hk hpages
      have hpid : k'.incrementalPID = m.incrementalPID := by
        obtain ⟨d, -, rfl⟩ := Kernel.allocateDIR_eq_some hk
        obtain ⟨mm, rfl⟩ := Kernel.inheritPages_eq_some hpages
        rfl
      dsimp only
      split
      next =>
        refine .inr ⟨?_, new, by rw [hcons]; rfl, htaken'.forkContext.makeReady⟩
        simp [Model.makeReady, hpid]
      next => exact .inl ⟨hpid, htaken'.settled⟩

theorem clone (h : Settled m live) (function stack : Addr)
    : ((m.clone function stack).2.incrementalPID = m.incrementalPID ∧
          Settled (m.clone function stack).2 live) ∨
        ((m.clone function stack).2.incrementalPID = m.incrementalPID + 1 ∧
          ∃ new ∈ (m.seq .freequeue).head?, Settled (m.clone function stack).2 (insert new live)) := by
  unfold Model.clone
  split
  next => exact .inl ⟨rfl, h⟩
  next =>
    split
    next => exact .inl ⟨rfl, h⟩
    next new rest hcons =>
      have htaken := h.takeCopy (t := new) (by rw [hcons]; simp)
      refine .inr ⟨?_, new, by rw [hcons]; rfl, htaken.cloneContext.makeReady⟩
      simp [Model.makeReady, Model.takeCopy]

end Fork

section Exit

theorem releaseDIR (h : Settled m live) : Settled (m.mapKernel Kernel.releaseDIR) live := by
  apply h.mapKernel
  . simp [estado]
  . simp [SameIdle]
  . simp
  . simp

theorem retired (h : Settled m live) (hidle : m.current ≠ m.idleTask)
    : Placed m.retired (live.erase m.current) none := by
  have hplaced := h.releaseDIR.placed
  rw [toKernel_mapKernel, Kernel.current_releaseDIR] at hplaced
  apply hplaced.retire
  . simpa using hidle
  . exact h.not_linked

theorem destroyOwned_retired (h : Settled m live) (hidle : m.current ≠ m.idleTask)
    : m.retired.destroyOwned.current = m.current ∧
        m.retired.destroyOwned.estado m.current = .stRun ∧
        m.retired.destroyOwned.seq .freequeue = m.seq .freequeue ++ [m.current] ∧
        m.retired.destroyOwned.queues.shape .freequeue = (m.queues.shape .freequeue).append := by
  obtain ⟨-, hrest⟩ := (h.retired hidle).destroyOwned
  have hest := hrest.estado m.current fun i hi => h.current_not_mem (.blockedQueue i) hi
  refine ⟨?_, ?_, hrest.freequeue, hrest.shape⟩
  . rw [hrest.current]
    simp [Model.retired]
  . rw [hest, ← h.running]
    simp [Model.retired, estado]

theorem exited (h : Settled m live) (hidle : m.current ≠ m.idleTask)
    : Placed m.exited (live.erase m.current) none := by
  obtain ⟨hplaced, -⟩ := (h.retired hidle).destroyOwned
  obtain ⟨hcurrent, -, -, -⟩ := h.destroyOwned_retired hidle
  apply hplaced.congr
  . intro q
    exact Queues.seq_again
  . intro q hq hring
    simp only [Model.exited, queues_mapKernel, queues_mapQueues, Queues.shape_again, if_neg hq]
    exact hring
  . intro i hi
    simp only [Model.exited, queues_mapKernel, queues_mapQueues, Queues.shape_again, reduceCtorEq,
      if_false]
    exact hplaced.sem i hi
  . intro t ht
    have hne : t ≠ m.retired.destroyOwned.current := by
      rw [hcurrent]
      exact Finset.ne_of_mem_erase ht
    simp [Model.exited, estado, hne]
  . exact sameIdle_setCont_user _ _
  . intro q t _ hw
    exact hw

theorem exit (h : Settled m live) (hidle : m.current ≠ m.idleTask)
    : Settled m.exit (live.erase m.current) :=
  (h.exited hidle).schedNext

end Exit

theorem resume (h : Settled m live) : Settled m.resume live := by
  unfold Model.resume
  split
  next =>
    apply h.mapKernel
    . intro t _
      simp [estado]
    . exact ⟨rfl, .inl rfl⟩
    . rfl
    . intro i
      rfl
  next => exact h.mapKernel (fun _ _ => rfl) ⟨rfl, .inl rfl⟩ rfl (fun _ => rfl)
  next => exact h.ret _
  next buff hbuff =>
    apply h.readKeyboardBody
    intro heq
    rw [heq] at hbuff
    exact h.placed.idle_not_reading buff hbuff

end Settled

end Zeos
