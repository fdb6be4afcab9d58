import Zeos.Spec.Places
import Zeos.Lemmas.Boot

/-!
Without `sys_exit`, each live process is in exactly one place, and its `estado` says in which.
-/

namespace Zeos

theorem Refines.lists {s : Sys} {m : Model} (hr : Refines s m) {q : Queue}
    (hring : m.queues.shape q = .ring) : s.Lists q (m.seq q) := by
  have hshaped := hr.links.shaped q
  rw [hring] at hshaped
  exact hshaped

namespace Follows

open Model

variable {x : Sys × Finset Slot} {m : Model} {t : Slot} {q : Queue}

theorem lists (h : Follows x m) (hfree : m.queues.shape .freequeue = .ring) (hq : x.1.InUse q)
    : x.1.Lists q (m.seq q) := by
  have hring : m.queues.shape q = .ring := by
    cases q with
    | freequeue => exact hfree
    | readyqueue => exact h.settled.placed.ready
    | keyboardqueue => exact h.settled.placed.keyboard
    | blockedQueue i =>
      apply h.settled.placed.sem
      rw [← h.refines.kernel]
      exact hq i rfl
  exact h.refines.lists hring

theorem onNone (h : Follows x m) (hfree : m.queues.shape .freequeue = .ring)
    (ht : ¬m.queues.Linked t) : x.1.OnNone t :=
  fun q hq => ⟨m.seq q, h.lists hfree hq, fun hmem => ht ⟨q, hmem⟩⟩

theorem onOnly (h : Follows x m) (hfree : m.queues.shape .freequeue = .ring) (hq : x.1.InUse q)
    (ht : t ∈ m.seq q) : x.1.OnOnly q t := by
  refine ⟨⟨hq, m.seq q, h.lists hfree hq, ?_⟩, ?_⟩
  . exact List.count_eq_one_of_mem (h.settled.placed.nodup q) ht
  . intro q' hne hq'
    exact ⟨m.seq q', h.lists hfree hq', fun ht' => hne (h.settled.placed.disjoint q' q t ht' ht)⟩

theorem inUse_of_waits (h : Follows x m) (hq : m.Waits q) : x.1.InUse q := by
  rintro i rfl
  rcases hq with hq | ⟨j, hq, hj⟩
  . cases hq
  . cases hq
    rw [h.refines.kernel]
    exact hj

theorem inPlace (h : Follows x m) (hfree : m.queues.shape .freequeue = .ring) (ht : t ∈ x.2)
    : x.1.InPlace t := by
  have hplaced := h.settled.placed
  have hkernel := h.refines.kernel
  have hest : (x.1.task t).estado = m.estado t := by rw [hkernel]; rfl
  cases hcase : m.estado t with
  | stRun =>
    obtain ⟨hnot, hwhere⟩ := hplaced.of_stRun t ht hcase
    rcases hwhere with hidle | hcurrent
    . exact .parked (by rw [hkernel]; exact hidle) (hest.trans hcase) (h.onNone hfree hnot)
    . apply Sys.InPlace.running ?_ (hest.trans hcase) (h.onNone hfree hnot)
      rw [hkernel]
      exact (Option.some.inj hcurrent).symm
  | stReady =>
    apply Sys.InPlace.ready (hest.trans hcase)
    exact h.onOnly hfree (fun i hi => by cases hi) (hplaced.of_stReady t ht hcase)
  | stBlocked =>
    obtain ⟨q, hw, hq⟩ := hplaced.of_stBlocked t ht hcase
    apply Sys.InPlace.blocked q ?_ (hest.trans hcase)
    . exact h.onOnly hfree (h.inUse_of_waits hw) hq
    . exact hw.imp_right fun ⟨i, hi, _⟩ => ⟨i, hi⟩

theorem inPlaces (h : Follows x m) (hfree : m.queues.shape .freequeue = .ring) : InPlaces x where
  current := by
    rw [h.refines.kernel]
    exact h.settled.live
  place _ ht := h.inPlace hfree ht
  only q hq huse := ⟨m.seq q, h.lists hfree huse, h.settled.placed.live_of_mem q hq⟩

theorem step_ring (h : Follows x m) (hfree : m.queues.shape .freequeue = .ring) {i : Input}
    (hexit : i.event ≠ .exit) {y : Sys × Finset Slot} (hstep : Sys.stepLive i x = some y)
    : ∃ m', m.step i = some m' ∧ Follows y m' ∧ m'.queues.shape .freequeue = .ring := by
  obtain ⟨m', hm', hy⟩ := h.step (fun _ => h.refines.firstFreeSound_of_ring hfree) hstep
  obtain ⟨hshape, -⟩ := h.settled.freequeue_step hexit hm'
  exact ⟨m', hm', hy, hshape.trans hfree⟩

theorem boot {frames : Nat → Nat → Byte} {s : Sys} (hs : Zeos.boot frames = some s)
    : Follows (s, liveBoot) (.boot frames) := by
  have hrel := refines_boot frames
  rw [hs] at hrel
  obtain ⟨hr⟩ := hrel
  exact ⟨hr, settled_boot frames, .inl rfl⟩

end Follows

theorem Follows.setFaultsStop {x : Sys × Finset Slot} {m : Model} (h : Follows x m) (b : Bool)
    : Follows ({ x.1 with faultsStop := b }, x.2) (m.mapKernel fun k => { k with faultsStop := b }) where
  refines := h.refines.mapKernel fun k => { k with faultsStop := b }
  settled := h.settled.mapKernel (fun _ _ => rfl) ⟨rfl, .inl rfl⟩ rfl fun _ => rfl
  free_open := h.free_open

theorem Sys.exists_stepLive {s s' : Sys} (live : Finset Slot) {e : Input} (hstep : s.step e = some s')
    : ∃ live', Sys.stepLive e (s, live) = some (s', live') :=
  ⟨liveAfter e.event s.toKernel s'.toKernel (firstTask .freequeue s.links) live,
    Run.ghost_eq_some.mpr ⟨hstep, rfl⟩⟩

/--
From boot on, whatever the events are, as long as no process exits. A copy of a key to its reader that ends in
a page fault may stop the machine, or be skipped.
-/
theorem inPlaces_of_no_exit {frames : Nat → Nat → Byte} {s : Sys} (hs : boot frames = some s)
    (faultsStop : Bool) {es : List Input} (hexit : ∀ i ∈ es, i.event ≠ .exit)
    : Run.Always Sys.stepLive InPlaces es ({ s with faultsStop := faultsStop }, liveBoot) := by
  have hinv : Run.Always Sys.stepLive (fun x => ∃ m, Follows x m ∧ m.queues.shape .freequeue = .ring) es
      ({ s with faultsStop := faultsStop }, liveBoot) := by
    have hok : Run.Allowed Sys.stepLive (fun i _ => i.event ≠ .exit) es
        ({ s with faultsStop := faultsStop }, liveBoot) :=
      Run.allowed_of_forall (fun i hi _ => hexit i hi)
    apply Run.always_of_step _ _ hok
    . rintro i x y ⟨m, hm, hfree⟩ hi hstep
      obtain ⟨m', -, hy, hfree'⟩ := hm.step_ring hfree hi hstep
      exact ⟨m', hy, hfree'⟩
    . exact ⟨_, (Follows.boot hs).setFaultsStop faultsStop, rfl⟩
  apply hinv.mono
  rintro x ⟨m, hm, hfree⟩
  exact hm.inPlaces hfree

theorem inPlaces_of_fork
    : ∃ s, boot (fun _ _ => 0) = some s ∧
        Run.Always Sys.stepLive InPlaces
          (atRest (resumed ([.semInit 7 0, .fork, .read 0 0x108000 1, .semWait 7, .keyboard 0x1E 0]
            ++ List.replicate 15 .clock) ++ .resume :: resumed [.semSignal 7, .clock]))
          ({ s with faultsStop := false }, liveBoot) := by
  obtain ⟨s, hs⟩ := exists_boot fun _ _ => 0
  exact ⟨s, hs, inPlaces_of_no_exit hs false (by decide)⟩

end Zeos
