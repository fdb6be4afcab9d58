import Zeos.Spec.Owners
import Zeos.Lemmas.Drain
import Zeos.Lemmas.SemTable

/-!
`sys_exit` destroys the semaphores of its process, and no others, since ids are distinct.
-/

namespace Zeos

open Model

namespace Kernel

variable {k k' : Kernel} {i : SemIx}

theorem DistinctIds.cercaSem (h : k.DistinctIds) (hi : (k.semaphores i).state = .usedSem)
    : k.cercaSem (k.semaphores i).nSem = some i := by
  cases hj : k.cercaSem (k.semaphores i).nSem with
  | none => simpa [hi] using List.find?_eq_none.mp hj i (List.mem_finRange i)
  | some j =>
    obtain ⟨hid, hused⟩ := cercaSem_eq_some hj
    rw [h j i hused hi hid]

end Kernel

structure Closes (pid : Int) (m m' : Model) : Prop where
  current : m'.current = m.current
  pids : ∀ t, (m'.task t).pid = (m.task t).pid
  entry : ∀ i, (m'.semaphores i = m.semaphores i ∧
      m'.seq (.blockedQueue i) = m.seq (.blockedQueue i)) ∨
    (m.Owns pid i ∧ (m'.semaphores i).state = .freeSem ∧
      ∀ t ∈ m.seq (.blockedQueue i), t ∈ m'.seq .readyqueue ∧ (m'.task t).semRet = -1)
  ready : m.seq .readyqueue <+: m'.seq .readyqueue
  semRet : ∀ t, (m.task t).semRet = -1 → (m'.task t).semRet = -1

namespace Closes

variable {m m' m'' : Model} {live : Finset Slot} {run : Option Slot} {pid n : Int} {i : SemIx}

theorem refl (pid : Int) (m : Model) : Closes pid m m where
  current := rfl
  pids _ := rfl
  entry _ := .inl ⟨rfl, rfl⟩
  ready := List.prefix_refl _
  semRet _ h := h

theorem trans (h : Closes pid m m') (h' : Closes pid m' m'') : Closes pid m m'' where
  current := h'.current.trans h.current
  pids t := (h'.pids t).trans (h.pids t)
  entry i := by
    rcases h.entry i with ⟨hsem, hseq⟩ | ⟨howns, hfree, hwaiters⟩
    . rcases h'.entry i with ⟨hsem', hseq'⟩ | ⟨howns', hfree', hwaiters'⟩
      . exact .inl ⟨hsem'.trans hsem, hseq'.trans hseq⟩
      . right
        unfold Kernel.Owns at howns' ⊢
        rw [hsem] at howns'
        rw [hseq] at hwaiters'
        exact ⟨howns', hfree', hwaiters'⟩
    . right
      refine ⟨howns, ?_, ?_⟩
      . rcases h'.entry i with ⟨hsem', -⟩ | ⟨-, hfree', -⟩
        . rw [hsem', hfree]
        . exact hfree'
      . intro t ht
        obtain ⟨hready, hret⟩ := hwaiters t ht
        exact ⟨h'.ready.subset hready, h'.semRet t hret⟩
  ready := h.ready.trans h'.ready
  semRet t ht := h'.semRet t (h.semRet t ht)

theorem currentPid (h : Closes pid m m') : m'.currentPid = m.currentPid := by
  unfold Kernel.currentPid
  rw [h.current, h.pids]

theorem not_owns (h : Closes pid m m') (hnot : ¬m.Owns pid i) : ¬m'.Owns pid i := by
  rcases h.entry i with ⟨hsem, -⟩ | ⟨howns, -⟩
  . unfold Kernel.Owns at hnot ⊢
    rwa [hsem]
  . exact absurd howns hnot

theorem distinctIds (h : Closes pid m m') (hids : m.DistinctIds) : m'.DistinctIds := by
  have hsame : ∀ i, (m'.semaphores i).state = .usedSem → m'.semaphores i = m.semaphores i := by
    intro i hused
    rcases h.entry i with ⟨hsem, -⟩ | ⟨-, hfree, -⟩
    . exact hsem
    . rw [hused] at hfree
      cases hfree
  intro i j hi hj hid
  rw [hsame i hi, hsame j hj] at hid
  rw [hsame i hi] at hi
  rw [hsame j hj] at hj
  exact hids i j hi hj hid

theorem of_drained (h : Drained i m m') (howns : m.Owns pid i) : Closes pid m m' where
  current := h.current
  pids := h.pid
  entry j := by
    by_cases hji : j = i
    . right
      rw [hji]
      refine ⟨howns, ?_, ?_⟩
      . rw [h.semaphores, Kernel.closeSem_semaphores, if_pos rfl]
      . intro t ht
        rw [h.ready, h.semRet, if_pos ht]
        exact ⟨List.mem_append_right _ ht, rfl⟩
    . left
      rw [h.semaphores, Kernel.closeSem_semaphores, if_neg hji]
      exact ⟨rfl, h.seq _ (by simpa using hji) (by simp)⟩
  ready := by
    rw [h.ready]
    exact List.prefix_append _ _
  semRet t ht := by
    rw [h.semRet]
    split
    next => rfl
    next => exact ht

theorem semDestroy (h : Placed m live run) (n : Int)
    : Closes m.currentPid m (m.semDestroy n).2 := by
  by_cases howner : ∃ i, m.cercaSem n = some i ∧ (m.semaphores i).owner = (m.task m.current).pid
  . obtain ⟨i, hi, howner⟩ := howner
    exact of_drained (drained_semDestroy h hi howner).2 ⟨(Kernel.cercaSem_eq_some hi).2, howner⟩
  . rw [(semDestroy_of_not_mine fun i hi heq => howner ⟨i, hi, heq⟩).2]
    exact refl _ m

theorem destroyOwned_round (h : Placed m live run) (hids : m.DistinctIds) (i : SemIx)
    : let m' := if (m.semaphores i).owner = (m.task m.current).pid then
        (m.semDestroy (m.semaphores i).nSem).2 else m
      Placed m' live run ∧ Closes m.currentPid m m' ∧ ¬m'.Owns m.currentPid i := by
  dsimp only
  split
  next howner =>
    have hcloses := semDestroy h (m.semaphores i).nSem
    refine ⟨h.semDestroy _, hcloses, ?_⟩
    by_cases hused : (m.semaphores i).state = .usedSem
    . have hdrained := (drained_semDestroy h (hids.cercaSem hused) howner).2
      unfold Kernel.Owns
      rw [hdrained.semaphores, Kernel.closeSem_semaphores, if_pos rfl]
      simp
    . apply hcloses.not_owns
      exact fun howns => hused howns.1
  next hnot => exact ⟨h, refl _ m, fun howns => hnot howns.2⟩

theorem destroyOwned (h : Placed m live run) (hids : m.DistinctIds)
    : Closes m.currentPid m m.destroyOwned ∧ ∀ i, ¬m.destroyOwned.Owns m.currentPid i := by
  have hloop : ∀ is : List SemIx, ∀ m : Model, Placed m live run → m.DistinctIds →
      let m' := is.foldl (fun m i =>
        if (m.semaphores i).owner = (m.task m.current).pid then
          (m.semDestroy (m.semaphores i).nSem).2
        else m) m
      Closes m.currentPid m m' ∧ ∀ i ∈ is, ¬m'.Owns m.currentPid i := by
    intro is
    induction is with
    | nil =>
      intro m _ _
      exact ⟨refl _ m, by simp⟩
    | cons i is ih =>
      intro m h hids
      obtain ⟨hplaced, hcloses, hnot⟩ := destroyOwned_round h hids i
      have hrest := ih _ hplaced (hcloses.distinctIds hids)
      rw [hcloses.currentPid] at hrest
      refine ⟨hcloses.trans hrest.1, ?_⟩
      intro j hj
      rcases List.mem_cons.mp hj with rfl | hj
      . exact hrest.1.not_owns hnot
      . exact hrest.2 j hj
  obtain ⟨hcloses, hnot⟩ := hloop (List.finRange nrSemaphores) m h hids
  exact ⟨hcloses, fun i => hnot i (List.mem_finRange i)⟩

end Closes

section Exit

variable {m : Model} {live : Finset Slot}

end Exit

section Table

inductive TableStep (k k' : Kernel) : Prop
  | same (h : k'.semaphores = k.semaphores)
  | opened (i : SemIx) (n : Int) (value : BitVec 32) (hnone : k.cercaSem n = none)
      (h : k'.semaphores = (k.openSem i n value).semaphores)
  | counted (i : SemIx) (c : Int) (h : k'.semaphores = (k.addCounter i c).semaphores)
  | closed (i : SemIx) (h : k'.semaphores = (k.closeSem i).semaphores)

variable {s s' : Sys} {n : Int} {value : BitVec 32} {r : Int}

theorem TableStep.distinctIds {k k' : Kernel} (h : TableStep k k') (hids : k.DistinctIds)
    : k'.DistinctIds := by
  unfold Kernel.DistinctIds at hids ⊢
  cases h with
  | same h =>
    rw [h]
    exact hids
  | opened i n value hnone h =>
    have hnew : ∀ j, (k.semaphores j).state = .usedSem → (k.semaphores j).nSem ≠ n := by
      intro j hused hid
      have hsome := Kernel.cercaSem_isSome_iff.mpr ⟨j, hid, hused⟩
      rw [hnone] at hsome
      cases hsome
    intro j l
    rw [h, Kernel.openSem_semaphores, Kernel.openSem_semaphores]
    grind
  | counted i c h =>
    intro j l
    rw [h, Kernel.addCounter_semaphores, Kernel.addCounter_semaphores]
    grind
  | closed i h =>
    intro j l
    rw [h, Kernel.closeSem_semaphores, Kernel.closeSem_semaphores]
    grind

end Table

section Threads

variable {s x : Sys} {events : List Event}

end Threads

end Zeos
