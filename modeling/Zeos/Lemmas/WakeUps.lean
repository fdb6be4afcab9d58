import Zeos.Spec.ReadCalls
import Zeos.Lemmas.CirBuffer
import Zeos.Lemmas.Readers

/-!
No wake-up is lost. The first woken reader stops the machine when it runs, and until then the buffer is only
written to, so that the readers that wait are looked at whenever there is more for them.
-/

namespace Zeos

namespace Readers

variable {r : Readers} {a : Reader} {t : Slot} {count : Int} {event : Event} {c : Byte}

/--
No key has been taken from the buffer. The first woken reader will take one, and whoever waits first has not
got keys enough unless there is one.
-/
structure Untaken (r : Readers) : Prop where
  buff : ∃ q, r.buff.Holds q
  got : ∀ a ∈ r.waiting, a.got = 0
  first : ∀ a ∈ r.pending.head?, r.Hands a
  waits : r.NoneLost

def UntilStop (r : Readers) : Prop :=
  r.Untaken ∨ r.stopped = true ∧ r.NoneLost

namespace UntilStop

theorem noneLost (h : UntilStop r) : r.NoneLost := by
  rcases h with h | ⟨-, h⟩
  . exact h.waits
  . exact h

theorem untaken (h : UntilStop r) (hrun : r.stopped = false) : r.Untaken := by
  rcases h with h | ⟨hstopped, -⟩
  . exact h
  . rw [hrun] at hstopped
    cases hstopped

end UntilStop

theorem Hands.write {q : List Byte} (hq : r.buff.Holds q) (h : r.Hands a)
    : Hands { r with buff := r.buff.cirBuffWrite c } a := by
  have hwritten := hq.cirBuffWrite (c := c)
  have hle : r.buff.cirBuffLenght ≤ (r.buff.cirBuffWrite c).cirBuffLenght := by
    rw [hq.cirBuffLenght_eq, hwritten.cirBuffLenght_eq]
    unfold Fifo.push
    split <;> simp
  have hkept : r.buff.cirBuffFull ≠ 0 → r.buff.cirBuffWrite c = r.buff := fun hfull => if_pos hfull
  by_cases hfull : r.buff.cirBuffFull ≠ 0
  . rw [hkept hfull]
    exact h
  . have henough : r.Enough a := by
      by_contra hless
      exact hfull (by rwa [Hands, if_neg hless] at h)
    rw [Hands, if_pos henough] at h
    have henough' : Enough { r with buff := r.buff.cirBuffWrite c } a := le_trans henough hle
    rw [Hands, if_pos henough']
    exact h

namespace Untaken

theorem attend (h : Untaken r) (hgot : a.got = 0) (hempty : r.waiting = []) : Untaken (r.attend a) := by
  unfold Readers.attend
  split
  next => exact h
  next hless =>
    refine ⟨h.buff, ?_, h.first, ?_⟩
    . intro b hb
      rw [hempty, List.mem_singleton] at hb
      rw [hb]
      exact hgot
    . rintro - b ⟨⟩
      exact not_le.mp hless

theorem call (h : Untaken r) : UntilStop (r.call t count) := by
  unfold Readers.call
  dsimp only
  split
  next hwaiting =>
    refine .inl ⟨h.buff, ?_, h.first, ?_⟩
    . intro b hb
      rcases List.mem_append.mp hb with hb | hb
      . exact h.got b hb
      . rw [List.mem_singleton.mp hb]
    . intro hpending b hb
      apply h.waits hpending b
      rwa [List.head?_append_of_ne_nil _ hwaiting] at hb
  next hempty =>
    have hempty := not_not.mp hempty
    split
    next =>
      refine .inr ⟨rfl, ?_⟩
      intro _ a ha
      have ha : a ∈ r.waiting.head? := ha
      rw [hempty] at ha
      cases ha
    next => exact .inl (h.attend rfl hempty)

theorem resume (h : Untaken r) : UntilStop (r.resume t) := by
  unfold Readers.resume
  split
  next hnone => exact .inl h
  next a rest hcons =>
    split
    next =>
      rw [if_pos (h.first a (by rw [hcons]; rfl))]
      refine .inr ⟨rfl, ?_⟩
      intro hpending
      cases hcons.symm.trans hpending
    next => exact .inl h

theorem press (h : Untaken r) : Untaken (r.press c) := by
  obtain ⟨q, hq⟩ := h.buff
  have hfirst : ∀ a ∈ r.pending.head?, Hands { r with buff := r.buff.cirBuffWrite c } a :=
    fun a ha => (h.first a ha).write hq
  have hbuff : ∃ q, (r.buff.cirBuffWrite c).Holds q := ⟨_, hq.cirBuffWrite⟩
  unfold Readers.press Readers.wake
  dsimp only
  split
  next hnil =>
    refine ⟨hbuff, h.got, hfirst, ?_⟩
    intro _ a ha
    rw [hnil] at ha
    cases ha
  next a rest hcons =>
    have hmem : a ∈ r.waiting := by
      rw [hcons]
      exact List.mem_cons_self
    split
    next hwake =>
      refine ⟨hbuff, ?_, ?_, ?_⟩
      . intro b hb
        apply h.got b
        rw [hcons]
        exact List.mem_cons_of_mem _ hb
      . intro b hb
        cases hpending : r.pending with
        | nil =>
          rw [hpending] at hb
          cases hb
          -- There were not keys enough before, so the reader has asked for some.
          have hless := h.waits hpending a (by rw [hcons]; rfl)
          rw [hq.cirBuffLenght_eq] at hless
          unfold Reader.need at hless
          have hgot := h.got a hmem
          unfold Hands
          split
          next => omega
          next hless' => exact hwake.resolve_right hless'
        | cons d rest' =>
          rw [hpending] at hb
          exact hfirst b (by rw [hpending]; exact hb)
      . intro hpending
        simp at hpending
    next hsleep =>
      refine ⟨hbuff, h.got, hfirst, ?_⟩
      intro _ b hb
      rw [hcons] at hb
      cases hb
      exact not_le.mp (not_or.mp hsleep).2

theorem after (h : Untaken r) : UntilStop (r.after event t) := by
  cases event with
  | read fd buf count =>
    unfold Readers.after
    dsimp only
    split
    next => exact h.call
    next => exact .inl h
  | keyboard entrada beyond =>
    unfold Readers.after
    dsimp only
    split
    next => exact .inl h.press
    next => exact .inl h
  | resume => exact h.resume
  | _ => exact .inl h

theorem zero : Untaken { pending := [], waiting := [], buff := .zero, stopped := false } := by
  refine ⟨⟨[], CirBuffer.zero_holds⟩, ?_, ?_, ?_⟩
  . rintro a ⟨⟩
  . rintro a ⟨⟩
  . rintro - a ⟨⟩

end Untaken

end Readers

/--
In every run in which no process exits, for any calls of `sys_read` and any keys.
-/
theorem always_noneLost {frames : Nat → Nat → Byte} {s : Sys} (hs : boot frames = some s)
    {es : List Input} (hexit : ∀ i ∈ es, i.event ≠ .exit)
    : Run.Always Sys.stepLive (fun x => x.1.readers.NoneLost) es (s, liveBoot) := by
  have hinv : Run.Always Sys.stepLive (fun x => x.1.readers.UntilStop ∧
      ∃ m, Reading x m ∧ m.queues.shape .freequeue = .ring) es (s, liveBoot) := by
    have hok : Run.Allowed Sys.stepLive (fun i _ => i.event ≠ .exit) es (s, liveBoot) :=
      Run.allowed_of_forall (fun i hi _ => hexit i hi)
    apply Run.always_of_step _ _ hok
    . rintro i x y ⟨huntil, m, hm, hring⟩ hi hstep
      have hsound := hm.follows.refines.firstFreeSound_of_ring hring
      obtain ⟨hreaders, m', hm', hy⟩ := hm.step (fun _ => hsound) hstep
      refine ⟨?_, m', hy, (hm.follows.settled.freequeue_step hi hm').1.trans hring⟩
      have hrun : x.1.readers.stopped = false := Sys.stopped_of_step (Run.ghost_eq_some.mp hstep).1
      rw [hreaders]
      exact (huntil.untaken hrun).after
    . have hboot := Reading.boot hs
      refine ⟨?_, _, hboot, rfl⟩
      rw [hboot.readers_eq, readers_boot]
      exact .inl .zero
  exact hinv.mono fun x hx => hx.1.noneLost

/--
Two threads read: one key for the first, two for the second, that waits behind the first.
-/
theorem always_noneLost_of_two
    : ∃ s, boot (fun _ _ => 0) = some s ∧
        Run.Always Sys.stepLive (fun x => x.1.readers.NoneLost)
          (atRest (resumed ([cloneThread, .read 0 0x108000 1, .read 0 0x108000 2, .keyboard 0x1E 0] ++
            List.replicate 15 .clock)))
          (s, liveBoot) := by
  obtain ⟨s, hs⟩ := exists_boot fun _ _ => 0
  exact ⟨s, hs, always_noneLost hs (by decide)⟩

end Zeos
