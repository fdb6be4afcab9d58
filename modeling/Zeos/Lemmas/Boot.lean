import Mathlib.Tactic.FinCases
import Zeos.Lemmas.Step

/-!
The state in which `main` leaves the kernel.
-/

namespace Zeos

open Simulation

namespace Refines

variable {s : Sys} {m : Model} {q : Queue}

theorem initListHead (hr : Refines s m) (hempty : m.seq q = [])
    : Option.Rel Refines (s.mapLinks fun h => some (initListHead (.head q) h))
        (some (m.mapQueues (Queues.init q))) := by
  apply hr.mapLinks
  exact ⟨_, rfl, hr.links.initListHead hempty⟩

theorem initFreequeue (hr : Refines s m) {is : List Slot} (hnodup : is.Nodup)
    (hfree : ∀ t ∈ is, ¬m.queues.Linked t) (hring : m.queues.shape .freequeue = .ring)
    : Option.Rel Refines (s.initFreequeue is) (some (m.initFreequeue is)) := by
  unfold Sys.initFreequeue Model.initFreequeue
  induction is generalizing s m with
  | nil => exact .some hr
  | cons i is ih =>
    rw [List.nodup_cons] at hnodup
    rw [List.foldlM_cons, List.foldl_cons]
    have hpush : Option.Rel Refines
        ((s.mapKernel (Kernel.initPid i)).mapLinks (listAdd (.list i) (.head .freequeue)))
        (some ((m.mapKernel (Kernel.initPid i)).mapQueues (Queues.push i .freequeue))) := by
      apply (hr.mapKernel _).mapLinks
      exact hr.links.listAdd (hfree i (by simp)) hring
    apply rel_bind_some hpush
    intro s' hr'
    apply ih hr' hnodup.2
    . rintro t ht ⟨q, hq⟩
      rw [Model.queues_mapQueues, Queues.seq_push] at hq
      split at hq
      next =>
        rcases List.mem_cons.mp hq with rfl | hq
        . exact hnodup.1 ht
        . exact hfree t (by simp [ht]) ⟨_, hq⟩
      next => exact hfree t (by simp [ht]) ⟨_, hq⟩
    . rw [Model.queues_mapQueues, Queues.shape_push]
      exact hring

theorem initSched (hr : Refines s m) (hempty : m.queues = .zero)
    : Option.Rel Refines s.initSched (some m.initSched) := by
  obtain ⟨k, Q⟩ := m
  subst hempty
  unfold Sys.initSched Model.initSched
  apply rel_bind_some (hr.initListHead rfl)
  intro s₁ hr₁
  apply rel_bind_some (hr₁.initListHead rfl)
  intro s₂ hr₂
  apply rel_bind_some (hr₂.initFreequeue (List.nodup_finRange nrTasks) ?_ rfl)
  . intro s₃ hr₃
    apply rel_bind_some (hr₃.initListHead rfl)
    intro s₄ hr₄
    exact .some (hr₄.mapKernel _)
  . rintro t - ⟨q, hq⟩
    simp [Queues.zero] at hq

theorem initIdle (hr : Refines s m) {t : Slot} {ts : List Slot} (hcons : m.seq .freequeue = t :: ts)
    (hring : m.queues.shape .freequeue = .ring)
    : Option.Rel Refines s.initIdle
        (some ((m.mapQueues (Queues.remove t)).mapKernel (Kernel.initIdle t))) := by
  apply rel_bind_some (hr.takeFree hcons (.inl hring))
  rintro ⟨_, s'⟩ ⟨rfl, hr'⟩
  exact .some (hr'.mapKernel _)

theorem initTask1 (hr : Refines s m) {t : Slot} {ts : List Slot}
    (hcons : m.seq .freequeue = t :: ts) (hring : m.queues.shape .freequeue = .ring)
    : Option.Rel Refines s.initTask1
        (some ((m.mapQueues (Queues.remove t)).mapKernel (Kernel.initTask1 t))) := by
  apply rel_bind_some (hr.takeFree hcons (.inl hring))
  rintro ⟨_, s'⟩ ⟨rfl, hr'⟩
  exact .some (hr'.mapKernel _)

end Refines

section Boot

variable (frames : Nat → Nat → Byte)

theorem refines_zero : Refines (Sys.zero frames) (.zero frames) :=
  ⟨rfl, represents_zero⟩

theorem refines_boot : Option.Rel Refines (boot frames) (some (.boot frames)) := by
  unfold boot Model.boot
  apply rel_bind_some (((refines_zero frames).mapKernel Kernel.initMm).initSched rfl)
  intro s₁ hr₁
  apply rel_bind_some (hr₁.initIdle rfl rfl)
  intro s₂ hr₂
  apply rel_bind_some (hr₂.initTask1 rfl rfl)
  intro s₃ hr₃
  exact .some (hr₃.mapKernel _)

theorem seq_boot (q : Queue)
    : (Model.boot frames).seq q =
        if q = .freequeue then [12, 11, 10, 9, 8, 7, 6, 5, 4, 3, 2, 1, 0] else [] := by
  cases q <;> rfl

theorem estado_boot (t : Slot) : (Model.boot frames).estado t = .stRun := by
  fin_cases t <;> rfl

theorem settled_boot : Settled (.boot frames) liveBoot := by
  constructor
  . constructor
    . intro q
      rw [seq_boot]
      split
      next => decide
      next => exact .nil
    . intro q q' t h h'
      rw [seq_boot] at h h'
      split at h
      next hq =>
        split at h'
        next hq' => rw [hq, hq']
        next => cases h'
      next => cases h
    . rfl
    . rfl
    . intro i hi
      cases hi
    . show (14 : Slot) ∈ liveBoot
      decide
    . rw [estado_boot]
      simp
    . intro buff h
      cases h
    . intro t ht _
      refine ⟨?_, ?_⟩
      . rintro ⟨q, hq⟩
        rw [Placed.seq_eq, seq_boot] at hq
        split at hq
        next =>
          have : ∀ t ∈ [12, 11, 10, 9, 8, 7, 6, 5, 4, 3, 2, 1, 0], t ∉ liveBoot := by decide
          exact this t hq ht
        next => cases hq
      . have : ∀ t ∈ liveBoot, t = (14 : Slot) ∨ some (13 : Slot) = some t := by decide
        exact this t ht
    . intro t _ h
      rw [estado_boot] at h
      cases h
    . intro t _ h
      rw [estado_boot] at h
      cases h
    . intro q hq t ht
      rw [seq_boot, if_neg hq] at ht
      cases ht
    . rw [seq_boot, if_pos rfl]
      decide
  . show (13 : Slot) ∈ liveBoot
    decide
  . exact estado_boot frames _

theorem exists_boot : ∃ s, boot frames = some s := by
  have hrel := refines_boot frames
  cases hs : boot frames with
  | none =>
    rw [hs] at hrel
    cases hrel
  | some s => exact ⟨s, rfl⟩

end Boot

def atRest (es : List Event) : List Input :=
  es.map fun event => { event := event, readings := .zero }

def resumed (events : List Event) : List Event :=
  events.flatMap fun event => [event, .resume]

def cloneThread : Event :=
  .clone 0x100000 0x108000

end Zeos
