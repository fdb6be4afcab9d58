import Zeos.Spec.Deliveries
import Zeos.Lemmas.CirBuffer
import Zeos.Lemmas.Readers

/-!
A call of `sys_read` returns what it has been asked for, as long as it takes no key.
-/

namespace Zeos

open Model

namespace CirBuffer

variable {b : CirBuffer} {q : List Byte}

theorem Holds.unread_eq (h : b.Holds q) : b.unread = q := by
  unfold unread
  rw [h.cirBuffLenght_eq, Int.toNat_natCast]
  exact h.cells.symm

def pressed (event : Event) (b : CirBuffer) : CirBuffer :=
  match event with
  | .keyboard entrada beyond =>
    if entrada >>> 7 = 0 then b.cirBuffWrite (charMap.getD (entrada &&& 0x7f).toNat beyond) else b
  | _ => b

theorem Holds.pressed {x : Deliveries} (h : b.Holds x.accepted) (event : Event)
    : (b.pressed event).Holds (x.press event b).accepted := by
  unfold CirBuffer.pressed Deliveries.press
  cases event with
  | keyboard entrada beyond =>
    dsimp only
    by_cases hmake : entrada >>> 7 = 0
    . rw [if_pos hmake]
      have hwritten := h.cirBuffWrite (c := charMap.getD (entrada &&& 0x7f).toNat beyond)
      unfold Fifo.push at hwritten
      have hroom : b.cirBuffFull = 0 ↔ x.accepted.length < cirBufferSize := by
        have hfull := h.cirBuffFull_ne_zero_iff
        have hle := h.length_le
        omega
      by_cases hfull : b.cirBuffFull = 0
      . rw [if_pos (hroom.mp hfull)] at hwritten
        rwa [if_pos ⟨hmake, hfull⟩]
      . rw [if_neg (hroom.not.mp hfull)] at hwritten
        rwa [if_neg fun hboth => hfull hboth.2]
    . rw [if_neg hmake, if_neg fun hboth => hmake hboth.1]
      exact h
  | _ => exact h

end CirBuffer

namespace Readers

variable {r r' : Readers} {a : Reader} {t : Slot} {count : Int} {event : Event}

theorem attend_of_not_hands (h : ¬r.Hands a)
    : (r.Enough a ∧ a.required ≤ 0 ∧ r.attend a = r) ∨
        (¬r.Enough a ∧ r.attend a = { r with waiting := a :: r.waiting }) := by
  unfold Hands at h
  unfold attend
  split at h
  next henough => exact .inl ⟨henough, not_lt.mp h, if_pos henough⟩
  next hless => exact .inr ⟨hless, if_neg hless⟩

structure Quiet (event : Event) (t : Slot) (r r' : Readers) : Prop where
  buff : r'.buff = r.buff.pressed event
  members : ∀ a ∈ r'.pending ++ r'.waiting, a ∈ r.pending ++ r.waiting ∨
    ∃ count ∈ event.keysAsked, a = { task := t, required := count, got := 0 }
  called : ∀ count ∈ event.keysAsked, t ∉ r'.waiting.map Reader.task →
    r.waiting = [] ∧ r.Enough { task := t, required := count, got := 0 } ∧ count ≤ 0
  resumed : event = .resume → ∀ a ∈ r.pending.head?, a.task = t → t ∉ r'.waiting.map Reader.task →
    r.Enough a ∧ a.required ≤ 0

namespace Quiet

theorem of_not_reads (hasked : event.keysAsked = none)
    (hresume : event = .resume → ∀ a ∈ r.pending.head?, a.task ≠ t)
    (hbuff : r'.buff = r.buff.pressed event)
    (hmembers : ∀ a ∈ r'.pending ++ r'.waiting, a ∈ r.pending ++ r.waiting) : Quiet event t r r' where
  buff := hbuff
  members a ha := .inl (hmembers a ha)
  called count hcount := by
    rw [hasked] at hcount
    cases hcount
  resumed hevent a ha hat := absurd hat (hresume hevent a ha)

theorem call {fd : Int} {buf : Addr} (hok : ReadAccepted fd buf count)
    (hnot : ¬(r.waiting = [] ∧ r.Hands { task := t, required := count, got := 0 }))
    : Quiet (.read fd buf count) t r (r.call t count) := by
  have hasked : (Event.read fd buf count).keysAsked = some count := if_pos hok
  unfold Readers.call
  dsimp only
  split
  next hwaiting =>
    constructor
    . rfl
    . intro a ha
      rw [← List.append_assoc] at ha
      rcases List.mem_append.mp ha with ha | ha
      . exact .inl ha
      . exact .inr ⟨count, hasked, List.mem_singleton.mp ha⟩
    . intro _ _ hgone
      simp at hgone
    . nofun
  next hempty =>
    have hempty := not_not.mp hempty
    have hhands : ¬r.Hands { task := t, required := count, got := 0 } := fun hands => hnot ⟨hempty, hands⟩
    rw [if_neg hhands]
    rcases attend_of_not_hands hhands with ⟨henough, hnone, heq⟩ | ⟨-, heq⟩
    . rw [heq]
      constructor
      . rfl
      . exact fun a ha => .inl ha
      . intro n hn _
        rw [hasked] at hn
        cases hn
        exact ⟨hempty, henough, hnone⟩
      . nofun
    . rw [heq]
      constructor
      . rfl
      . intro a ha
        rcases List.mem_append.mp ha with ha | ha
        . exact .inl (List.mem_append_left _ ha)
        . rcases List.mem_cons.mp ha with ha | ha
          . exact .inr ⟨count, hasked, ha⟩
          . exact .inl (List.mem_append_right _ ha)
      . intro _ _ hgone
        simp at hgone
      . nofun

theorem resume (hnot : ∀ a ∈ r.pending.head?, a.task = t → ¬r.Hands a)
    : Quiet .resume t r (r.resume t) := by
  unfold Readers.resume
  split
  next hnone =>
    apply of_not_reads rfl
    . intro _ a ha
      rw [hnone] at ha
      cases ha
    . rfl
    . exact fun _ ha => ha
  next a rest hcons =>
    have hmem : ∀ x ∈ rest ++ r.waiting, x ∈ r.pending ++ r.waiting := by
      intro x hx
      rw [hcons]
      exact List.mem_cons_of_mem _ hx
    split
    next htask =>
      have hhands : ¬Hands { r with pending := rest } a := hnot a (by rw [hcons]; rfl) htask
      rw [if_neg (hnot a (by rw [hcons]; rfl) htask)]
      rcases attend_of_not_hands hhands with ⟨henough, hnone, heq⟩ | ⟨-, heq⟩
      . rw [heq]
        constructor
        . rfl
        . exact fun x hx => .inl (hmem x hx)
        . rintro n ⟨⟩
        . intro _ x hx _ _
          rw [hcons] at hx
          cases hx
          exact ⟨henough, hnone⟩
      . rw [heq]
        constructor
        . rfl
        . intro x hx
          left
          rcases List.mem_append.mp hx with hx | hx
          . exact hmem x (List.mem_append_left _ hx)
          . rcases List.mem_cons.mp hx with rfl | hx
            . rw [hcons]
              exact List.mem_cons_self
            . exact hmem x (List.mem_append_right _ hx)
        . rintro n ⟨⟩
        . intro _ x hx hxt hgone
          simp [htask] at hgone
    next hother =>
      apply of_not_reads rfl
      . intro _ x hx
        rw [hcons] at hx
        cases hx
        exact hother
      . rfl
      . exact fun _ hx => hx

theorem press {c : Byte} (hbuff : r.buff.cirBuffWrite c = r.buff.pressed event)
    (hasked : event.keysAsked = none)
    (hresume : event ≠ .resume) : Quiet event t r (r.press c) := by
  unfold Readers.press Readers.wake
  dsimp only
  split
  next => exact of_not_reads hasked (fun heq => absurd heq hresume) hbuff fun _ ha => ha
  next a rest hcons =>
    split
    next =>
      refine of_not_reads hasked (fun heq => absurd heq hresume) hbuff ?_
      intro x hx
      rw [hcons]
      simpa [List.append_assoc] using hx
    next => exact of_not_reads hasked (fun heq => absurd heq hresume) hbuff fun _ ha => ha

theorem after
    (hcall : ∀ count ∈ event.keysAsked,
      ¬(r.waiting = [] ∧ r.Hands { task := t, required := count, got := 0 }))
    (hresume : event = .resume → ∀ a ∈ r.pending.head?, a.task = t → ¬r.Hands a)
    : Quiet event t r (r.after event t) := by
  cases event with
  | read fd buf count =>
    unfold Readers.after
    dsimp only
    split
    next hok => exact call hok (hcall count (if_pos hok))
    next hnot => exact of_not_reads (if_neg hnot) (by simp) rfl fun _ ha => ha
  | keyboard entrada beyond =>
    unfold Readers.after
    dsimp only
    split
    next hmake =>
      apply press _ rfl (by simp)
      unfold CirBuffer.pressed
      exact (if_pos hmake).symm
    next hbreak =>
      refine of_not_reads rfl (by simp) ?_ fun _ ha => ha
      unfold CirBuffer.pressed
      exact (if_neg hbreak).symm
  | resume => exact resume (hresume rfl)
  | _ => exact of_not_reads rfl (by simp) rfl fun _ ha => ha

end Quiet

end Readers

section Results

variable {m m' : Model} {i : Input} {count : Int}

theorem eax_readKeyboardBody (m : Model) (buff : Addr)
    (henough : m.keyboardBuff.cirBuffLenght ≥
      (m.task m.current).requiredKeys - (m.task m.current).readKeys)
    (hrun : (m.readKeyboardBody buff).stopped = false)
    : (m.readKeyboardBody buff).eax m.current = (m.task m.current).requiredKeys := by
  unfold Model.readKeyboardBody at *
  simp only [if_pos henough] at *
  obtain ⟨mm, keyboardBuff, copies, stopped, heq⟩ :=
    m.readKeysLoop_eq (m.task m.current).requiredKeys.toNat buff
  rw [heq] at hrun ⊢
  split
  next hstopped =>
    rw [if_pos hstopped] at hrun
    cases hstopped.symm.trans hrun
  next => simp [ret]

theorem eax_read_of_accepted {fd : Int} {buf : Addr} (hok : ReadAccepted fd buf count)
    (hempty : m.seq .keyboardqueue = []) (henough : m.keyboardBuff.cirBuffLenght ≥ count)
    (hrun : (m.read fd buf count).stopped = false) : (m.read fd buf count).eax m.current = count := by
  obtain ⟨hbuf, hcount, hfd, haccess⟩ := hok
  have hserved : m.read fd buf count = (m.mapKernel (Kernel.requireKeys count)).readKeyboardBody buf := by
    unfold Model.read
    rw [if_neg hbuf, if_neg (by omega), if_neg (by omega), if_neg (by simp [haccess])]
    exact if_neg (by simpa using hempty)
  rw [hserved] at hrun ⊢
  have hbody := eax_readKeyboardBody (m.mapKernel (Kernel.requireKeys count)) buf
    (by simpa using henough) hrun
  simpa using hbody

theorem eax_read_of_not_accepted {fd : Int} {buf : Addr} (hok : ¬ReadAccepted fd buf count)
    : (m.read fd buf count).eax m.current < 0 := by
  have hret : ∀ r < 0, (m.ret r).eax m.current < 0 := by
    intro r hr
    simpa [ret] using hr
  unfold Model.read
  split
  next => exact hret _ (by decide)
  split
  next => exact hret _ (by decide)
  split
  next => exact hret _ (by decide)
  split
  next => exact hret _ (by decide)
  next hbuf hcount hfd haccess =>
    exact absurd ⟨hbuf, by omega, by omega, by simpa using haccess⟩ hok

theorem eax_of_refused (hstep : m.step i = some m') {fd : Int} {buf : Addr}
    (hevent : i.event = .read fd buf count) (hok : ¬ReadAccepted fd buf count)
    : m'.eax m.current < 0 := by
  obtain ⟨k, hentry, hm'⟩ := step_eq_some hstep
  rw [hevent] at hm'
  cases hm'
  rw [← (Kernel.entered_of_entry hentry).current]
  exact eax_read_of_not_accepted hok

theorem eax_of_called (hstep : m.step i = some m') {fd : Int} {buf : Addr}
    (hevent : i.event = .read fd buf count) (hok : ReadAccepted fd buf count)
    (hempty : m.readers.waiting = [])
    (henough : m.readers.Enough { task := m.current, required := count, got := 0 })
    (hrun : m'.stopped = false) : m'.eax m.current = count := by
  obtain ⟨k, hentry, hm'⟩ := step_eq_some hstep
  have hentered := Kernel.entered_of_entry hentry
  rw [hevent] at hm'
  cases hm'
  rw [← hentered.current]
  refine eax_read_of_accepted hok ?_ ?_ hrun
  . exact List.map_eq_nil_iff.mp hempty
  . have henough : m.keyboardBuff.cirBuffLenght ≥ count - 0 := henough
    rw [hentered.keyboardBuff]
    omega

theorem eax_of_resumed (hstep : m.step i = some m') (hevent : i.event = .resume)
    (hreading : m.isReading m.current = true) (henough : m.readers.Enough (m.reader m.current))
    (hrun : m'.stopped = false) : m'.eax m.current = (m.reader m.current).required := by
  obtain ⟨k, hentry, hm'⟩ := step_eq_some hstep
  have hentered := Kernel.entered_of_entry hentry
  rw [hevent] at hm'
  cases hm'
  have hcont : k.cont k.current = m.cont m.current := by
    rw [hentered.current]
    obtain ⟨-, hentry⟩ := Kernel.entry_eq_some.mp hentry
    obtain ⟨event, readings⟩ := i
    cases hevent
    obtain ⟨-, ⟨⟩⟩ := Option.ite_none_right_eq_some.mp hentry
    rfl
  obtain ⟨_, htask⟩ := hentered.task m.current
  unfold Kernel.isReading at hreading
  unfold Model.resume at *
  rw [hcont] at hrun ⊢
  cases hbuff : m.cont m.current with
  | readKeyboard buff =>
    rw [hbuff] at hrun
    have hbody := eax_readKeyboardBody { m with toKernel := k } buff
    dsimp only at hbody hrun ⊢
    rw [hentered.current, htask, hentered.keyboardBuff] at hbody
    exact hbody henough hrun
  | _ =>
    rw [hbuff] at hreading
    cases hreading

end Results

/--
Nobody has got a key, and every call that has come back has not asked for one.
-/
structure Silent (r : Readers) (x : Deliveries) : Prop where
  asked : ∀ a ∈ r.pending ++ r.waiting,
    x.asked a.task = a.required ∧ 0 ≤ a.required ∧ x.stored a.task = 0
  complete : ∀ result ∈ x.results, result.Complete
  delivered : x.delivered = []

namespace Silent

variable {r r' : Readers} {x : Deliveries} {event : Event} {t : Slot}

theorem faithful (h : Silent r x) {buff : CirBuffer} (hbuff : buff.Holds x.accepted) : x.Faithful buff where
  complete := h.complete
  inOrder := by
    rw [h.delivered, hbuff.unread_eq]
    rfl

theorem press (h : Silent r x) (event : Event) (buff : CirBuffer) : Silent r (x.press event buff) := by
  unfold Deliveries.press
  split
  next =>
    split
    next => exact ⟨h.asked, h.complete, h.delivered⟩
    next => exact h
  next => exact h

theorem store (h : Silent r x) : Silent r (x.store t []) := by
  constructor
  . intro a ha
    obtain ⟨hasked, hrequired, hstored⟩ := h.asked a ha
    refine ⟨hasked, hrequired, ?_⟩
    by_cases heq : a.task = t
    . simpa [Deliveries.store, heq] using hstored
    . simpa [Deliveries.store, heq] using hstored
  . exact h.complete
  . simpa [Deliveries.store] using h.delivered

theorem ret (h : Silent r x) {value : Int}
    (hvalue : ({ count := x.asked t, value := value, stored := x.stored t } : ReadResult).Complete)
    : Silent r (x.ret t value) := by
  constructor
  . exact h.asked
  . intro result hresult
    rcases List.mem_append.mp hresult with hresult | hresult
    . exact h.complete result hresult
    . rw [List.mem_singleton.mp hresult]
      exact hvalue
  . exact h.delivered

theorem call (h : Silent r x) (hquiet : Readers.Quiet event t r r')
    (hnew : event ≠ .resume → t ∉ r.tasks) : Silent r' (x.call event t) := by
  have hold : ∀ a ∈ r.pending ++ r.waiting, (x.call event t).asked a.task = x.asked a.task ∧
      (x.call event t).stored a.task = x.stored a.task := by
    intro a ha
    unfold Deliveries.call
    split
    next =>
      have hne : a.task ≠ t := by
        rintro rfl
        exact hnew (by simp) (List.mem_map_of_mem ha)
      simp [hne]
    next => exact ⟨rfl, rfl⟩
  constructor
  . intro a ha
    rcases hquiet.members a ha with ha | ⟨count, hcount, rfl⟩
    . rw [(hold a ha).1, (hold a ha).2]
      exact h.asked a ha
    . cases event with
      | read fd buf n =>
        obtain ⟨hok, heq⟩ := Option.ite_none_right_eq_some.mp hcount
        cases heq
        simp [Deliveries.call, hok.2.1]
      | _ => cases hcount
  . unfold Deliveries.call
    split <;> exact h.complete
  . unfold Deliveries.call
    split <;> exact h.delivered

theorem after (h : Silent r x) (hquiet : Readers.Quiet event t r r')
    (hnew : event ≠ .resume → t ∉ r.tasks) {k k' : Kernel} (hcurrent : k.current = t)
    (hcopies : k.copiesSince k' = []) (hret : k.Reads event t → k'.stopped = false → k'.current = t →
      ({ count := (x.call event t).asked t, value := k'.eax t,
         stored := (x.call event t).stored t } : ReadResult).Complete)
    : Silent r' (x.after event k k') := by
  have hsilent := ((h.call hquiet hnew).store (t := t)).press event k.keyboardBuff
  have hasked : (((x.call event t).store t []).press event k.keyboardBuff).asked =
      (x.call event t).asked := by
    unfold Deliveries.press
    split
    next => split <;> rfl
    next => rfl
  have hstored : (((x.call event t).store t []).press event k.keyboardBuff).stored t =
      (x.call event t).stored t := by
    unfold Deliveries.press
    split
    next => split <;> simp [Deliveries.store]
    next => simp [Deliveries.store]
  unfold Deliveries.after
  rw [hcurrent, hcopies]
  dsimp only [List.map_nil]
  split
  next hreturns =>
    apply hsilent.ret
    rw [hasked, hstored]
    exact hret hreturns.1 hreturns.2.1 hreturns.2.2.1
  next => exact hsilent

theorem accepted_after (event : Event) (k k' : Kernel) (x : Deliveries)
    : (x.after event k k').accepted = (x.press event k.keyboardBuff).accepted := by
  have hpress : ∀ y : Deliveries, y.accepted = x.accepted →
      (y.press event k.keyboardBuff).accepted = (x.press event k.keyboardBuff).accepted := by
    intro y hy
    unfold Deliveries.press
    cases event with
    | keyboard entrada beyond =>
      dsimp only
      split
      next => rw [hy]
      next => exact hy
    | _ => exact hy
  have hcall : ∀ t, (x.call event t).accepted = x.accepted := by
    intro t
    unfold Deliveries.call
    split <;> rfl
  unfold Deliveries.after
  dsimp only
  split
  next => exact hpress _ (hcall _)
  next => exact hpress _ (hcall _)

end Silent

section Step

variable {x y : Sys × Finset Slot × Deliveries} {m m' : Model} {i : Input}

theorem Reading.quiet_step {x y : Sys × Finset Slot} (h : Reading x m) (hsound : Sys.TakesSound i x)
    (hhands : ¬Sys.HandsKeys i x.1) (hstep : Sys.stepLive i x = some y)
    : Readers.Quiet i.event x.1.current x.1.readers y.1.readers := by
  obtain ⟨hreaders, -⟩ := h.step hsound hstep
  have hcall : ∀ count ∈ i.event.keysAsked, ¬(x.1.readers.waiting = [] ∧
      x.1.readers.Hands { task := x.1.current, required := count, got := 0 }) := by
    intro count hcount hnot
    exact hhands (.inl ⟨count, hcount, hnot⟩)
  -- Only the task that has the CPU can be the first of the woken readers and be told to go on.
  have hfirst : ∀ a ∈ x.1.readers.pending.head?, a.task = x.1.current →
      x.1.isReading x.1.current = true ∧ a = x.1.reader x.1.current := by
    intro a ha htask
    obtain ⟨t, ht, rfl⟩ := List.mem_map.mp (List.mem_of_mem_head? ha)
    have htask : t = x.1.current := htask
    rw [← htask]
    exact ⟨(List.mem_filter.mp ht).2, rfl⟩
  rw [hreaders]
  apply Readers.Quiet.after hcall
  intro hresume a ha htask hands
  obtain ⟨hreading, rfl⟩ := hfirst a ha htask
  exact hhands (.inr ⟨hresume, hreading, hands⟩)

section Returns

variable (hstep : m.step i = some m')
  (hquiet : Readers.Quiet i.event m.current m.readers m'.readers)
  (hgone : m.current ∉ m'.readers.waiting.map Reader.task) (hrun : m'.stopped = false)

include hstep hquiet hgone hrun

theorem complete_of_read {fd : Int} {buf : Addr} {count : Int} (hevent : i.event = .read fd buf count)
    : (ReadResult.mk count (m'.eax m.current) 0).Complete := by
  by_cases hok : ReadAccepted fd buf count
  . have hcount : i.event.keysAsked = some count := by
      rw [hevent]
      exact if_pos hok
    obtain ⟨hempty, henough, hle⟩ := hquiet.called count hcount hgone
    have hzero : count = 0 := le_antisymm hle hok.2.1
    rw [eax_of_called hstep hevent hok hempty henough hrun]
    intro _
    exact ⟨rfl, hzero.symm⟩
  . have hneg := eax_of_refused hstep hevent hok
    intro hpos
    dsimp only at hpos
    omega

theorem complete_of_resume (hevent : i.event = .resume) (hreading : m.isReading m.current = true)
    (hpos : 0 ≤ (m.reader m.current).required)
    : (ReadResult.mk (m.reader m.current).required (m'.eax m.current) 0).Complete := by
  have hhead : m.reader m.current ∈ m.readers.pending.head? := by
    rw [readers_of_reading hreading]
    rfl
  obtain ⟨henough, hle⟩ := hquiet.resumed hevent _ hhead rfl hgone
  have hzero : (m.reader m.current).required = 0 := le_antisymm hle hpos
  rw [eax_of_resumed hstep hevent hreading henough hrun]
  intro _
  exact ⟨rfl, hzero.symm⟩

end Returns

theorem Silent.step (h : Silent x.1.readers x.2.2) (hbuff : x.1.keyboardBuff.Holds x.2.2.accepted)
    (hm : Reading (x.1, x.2.1) m) (hsound : Sys.TakesSound i (x.1, x.2.1)) (hhands : ¬Sys.HandsKeys i x.1)
    (hstep : Sys.stepDeliveries i x = some y)
    : y.1.keyboardBuff.Holds y.2.2.accepted ∧ Silent y.1.readers y.2.2 ∧
        ∃ m', Reading (y.1, y.2.1) m' := by
  have hlive : Sys.stepLive i (x.1, x.2.1) = some (y.1, y.2.1) :=
    Run.ghost_map Prod.fst (fun _ _ _ _ => rfl) hstep
  obtain ⟨-, hrecord⟩ := Run.ghost_eq_some.mp hstep
  have hdeliveries : y.2.2 = x.2.2.after i.event x.1.toKernel y.1.toKernel := by
    rw [hrecord]
  obtain ⟨-, m', hm', hy⟩ := hm.step hsound hlive
  have hkernel : x.1.toKernel = m.toKernel := hm.follows.refines.kernel
  have hkernel' : y.1.toKernel = m'.toKernel := hy.follows.refines.kernel
  have hreaders : x.1.readers = m.readers := hm.readers_eq
  have hreaders' : y.1.readers = m'.readers := hy.readers_eq
  have hquiet := hm.quiet_step hsound hhands hlive
  have hkept : Kernel.Undelivered x.1.toKernel y.1.toKernel :=
    Sys.undelivered_step (hkernel ▸ hm.fault) (Run.ghost_eq_some.mp hlive).1
  have hcurrent : x.1.current = m.current := congrArg Kernel.current hkernel
  rw [hdeliveries]
  refine ⟨?_, ?_, m', hy⟩
  . rw [Silent.accepted_after]
    have hbuff' : y.1.keyboardBuff = x.1.keyboardBuff.pressed i.event := hquiet.buff
    rw [hbuff']
    exact hbuff.pressed i.event
  have hnew : i.event ≠ .resume → x.1.current ∉ x.1.readers.tasks := by
    intro hne
    obtain ⟨k, hentry, -⟩ := Model.step_eq_some hm'
    rw [hreaders, hcurrent]
    exact hm.not_mem_tasks (AtKeyboard.not_reading_of_entry hentry hm.atKeyboard.inside hne)
  apply h.after hquiet hnew rfl hkept.copiesSince
  intro hreads hrun hstays
  rw [hkernel'] at hrun hstays ⊢
  rw [hkernel] at hreads
  rw [hreaders] at h
  rw [hcurrent] at hstays hquiet ⊢
  rw [hreaders, hreaders'] at hquiet
  have hgone : m.current ∉ m'.readers.waiting.map Reader.task := by
    rw [← hstays]
    exact hy.current_not_waiting
  rcases hreads with ⟨fd, buf, count, hevent⟩ | ⟨hevent, hreading⟩
  . have hcomplete := complete_of_read hm' hquiet hgone hrun hevent
    rw [hevent]
    simpa [Deliveries.call] using hcomplete
  . have hhead : m.reader m.current ∈ m.readers.pending := by
      rw [readers_of_reading hreading]
      exact List.mem_cons_self
    obtain ⟨hasked, hpos, hstored⟩ := h.asked _ (List.mem_append_left _ hhead)
    have hcomplete := complete_of_resume hm' hquiet hgone hrun hevent hreading hpos
    rw [hevent]
    show (ReadResult.mk (x.2.2.asked m.current) _ (x.2.2.stored m.current)).Complete
    rw [show x.2.2.asked m.current = _ from hasked, show x.2.2.stored m.current = 0 from hstored]
    exact hcomplete

theorem Silent.boot {frames : Nat → Nat → Byte} {s : Sys} (hs : Zeos.boot frames = some s)
    : Silent s.readers .none := by
  have hreaders := (Reading.boot hs).readers_eq
  rw [readers_boot] at hreaders
  have hreaders : s.readers = _ := hreaders
  rw [hreaders]
  constructor
  . intro a ha
    cases ha
  . intro result hresult
    cases hresult
  . rfl

end Step

/--
In every run in which no call takes a key, and no fork or clone takes a PCB that is linked to itself.
-/
theorem always_faithful {frames : Nat → Nat → Byte} {s : Sys} (hs : boot frames = some s)
    {es : List Input}
    (hok : Run.Allowed Sys.stepDeliveries
      (fun i x => Sys.TakesSound i (x.1, x.2.1) ∧ ¬Sys.HandsKeys i x.1) es (s, liveBoot, .none))
    : Run.Always Sys.stepDeliveries (fun x => x.2.2.Faithful x.1.keyboardBuff) es (s, liveBoot, .none) := by
  have hinv : Run.Always Sys.stepDeliveries
      (fun x => x.1.keyboardBuff.Holds x.2.2.accepted ∧ Silent x.1.readers x.2.2 ∧
        ∃ m, Reading (x.1, x.2.1) m) es (s, liveBoot, .none) := by
    apply Run.always_of_step _ _ hok
    . rintro i x y ⟨hbuff, hsilent, m, hm⟩ ⟨hsound, hhands⟩ hstep
      exact hsilent.step hbuff hm hsound hhands hstep
    . refine ⟨?_, .boot hs, _, .boot hs⟩
      have hbuff : s.keyboardBuff = .zero := congrArg Readers.buff (Reading.boot hs).readers_eq
      rw [hbuff]
      exact CirBuffer.zero_holds
  apply hinv.mono
  intro x hx
  exact hx.2.1.faithful hx.1

theorem always_faithful_of_zero
    : ∃ s, boot (fun _ _ => 0) = some s ∧
        Run.Always Sys.stepDeliveries (fun x => x.2.2.Faithful x.1.keyboardBuff)
          (atRest (resumed [.keyboard 0x1E 0, .read 0 0x108000 0])) (s, liveBoot, .none) := by
  have hok : ∀ s ∈ boot fun _ _ => 0, Run.Allowed Sys.stepDeliveries
      (fun i x => Sys.TakesSound i (x.1, x.2.1) ∧ ¬Sys.HandsKeys i x.1)
      (atRest (resumed [.keyboard 0x1E 0, .read 0 0x108000 0])) (s, liveBoot, .none) := by
    decide +kernel
  obtain ⟨s, hs⟩ := exists_boot fun _ _ => 0
  exact ⟨s, hs, always_faithful hs (hok s hs)⟩

/--
The process asks for the key, which is then the address that `copy_to_user` reads from.
-/
theorem not_faithful_of_key
    : ∃ s, boot (fun _ _ => 0) = some s ∧
        ¬Run.Always Sys.stepDeliveries (fun x => x.2.2.Faithful x.1.keyboardBuff)
          (atRest (resumed [.keyboard 0x1E 0, .read 0 0x108000 1])) (s, liveBoot, .none) := by
  have hnot : ∀ s ∈ boot fun _ _ => 0, ¬Run.Always Sys.stepDeliveries (fun x => x.2.2.Faithful x.1.keyboardBuff)
      (atRest (resumed [.keyboard 0x1E 0, .read 0 0x108000 1])) (s, liveBoot, .none) := by
    decide +kernel
  obtain ⟨s, hs⟩ := exists_boot fun _ _ => 0
  exact ⟨s, hs, hnot s hs⟩

end Zeos
