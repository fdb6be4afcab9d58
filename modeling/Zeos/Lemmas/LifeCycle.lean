import Zeos.Lemmas.BootMemory
import Zeos.Lemmas.Places

/-!
What each step of a run of `sys_fork`, `sys_clone`, `sys_exit`, clock ticks and stores can do.
-/

namespace Zeos

open Model

structure Created (m m' : Model) (new : Slot) (d : DirIx) : Prop where
  free : (m.seq .freequeue).head? = some new
  dir : ∀ t ≠ new, (m'.task t).nDirectorio = (m.task t).nDirectorio
  new_dir : (m'.task new).nDirectorio = d
  pid : ∀ t ≠ new, (m'.task t).pid = (m.task t).pid
  new_pid : (m'.task new).pid = m.incrementalPID
  incrementalPID : m'.incrementalPID = m.incrementalPID + 1
  pages : Mm.SamePages (Owned m.toKernel) m.mm m'.mm

inductive LifeStep (m m' : Model) (live : Finset Slot) : Event → Finset Slot → Prop
  | same {event : Event} (hdir : ∀ t, (m'.task t).nDirectorio = (m.task t).nDirectorio)
    (hpid : ∀ t, (m'.task t).pid = (m.task t).pid) (hnext : m'.incrementalPID = m.incrementalPID)
    (hmm : m'.mm = m.mm) (hevent : ∀ a v, event ≠ .store a v) (hexit : event ≠ .exit)
    : LifeStep m m' live event live
  | forked {new : Slot} {d : DirIx} (hnew : Created m m' new d) (hd : m.refsDIR d = 0)
    (hdata : ∀ a, DataAddr a → m'.mm.dataAt d a = m.mm.dataAt (m.task m.current).nDirectorio a)
    (hidle : m.current ≠ m.idleTask) : LifeStep m m' live .fork (insert new live)
  | cloned {new : Slot} {function stack : Addr}
    (hnew : Created m m' new (m.task m.current).nDirectorio) (hidle : m.current ≠ m.idleTask)
    : LifeStep m m' live (.clone function stack) (insert new live)
  | exited (hdir : ∀ t, (m'.task t).nDirectorio = (m.task t).nDirectorio)
    (hpid : ∀ t ≠ m.current, (m'.task t).pid = (m.task t).pid)
    (hgone : (m'.task m.current).pid = -1) (hnext : m'.incrementalPID = m.incrementalPID)
    (hpages : Mm.SamePages (fun e _ => (m.task m.current).nDirectorio = e → m.refsDIR e ≠ 1)
      m.mm m'.mm) (hidle : m.current ≠ m.idleTask)
    : LifeStep m m' live .exit (live.erase m.current)
  | stored {a : Addr} {v : Byte} (hdir : ∀ t, (m'.task t).nDirectorio = (m.task t).nDirectorio)
    (hpid : ∀ t, (m'.task t).pid = (m.task t).pid)
    (hnext : m'.incrementalPID = m.incrementalPID) (ha : DataAddr a)
    (hmm : m'.mm = m.mm.setByte (m.mm.dataEntry (m.task m.current).nDirectorio
      (Mm.dataPage a)).pbaseAddr (a.toNat % pageSize) v) (hidle : m.current ≠ m.idleTask)
    : LifeStep m m' live (.store a v) live

namespace Created

variable {m m' : Model} {new : Slot} {d : DirIx}

theorem ret (h : Created m m' new d) (r : Int) : Created m (m'.ret r) new d := by
  exact { h with }

end Created

namespace LifeStep

variable {m m' : Model} {live live' : Finset Slot} {event : Event}

theorem of_entered {k : Kernel} (hk : Kernel.Entered m.toKernel k)
    (h : LifeStep { m with toKernel := k } m' live event live') : LifeStep m m' live event live' := by
  have hdir : ∀ t, (k.task t).nDirectorio = (m.task t).nDirectorio := by
    intro t
    obtain ⟨_, ht⟩ := hk.task t
    rw [ht]
  have hpid : ∀ t, (k.task t).pid = (m.task t).pid := by
    intro t
    obtain ⟨_, ht⟩ := hk.task t
    rw [ht]
  have hcreated : ∀ {new d}, Created { m with toKernel := k } m' new d → Created m m' new d := by
    intro new d h
    refine ⟨h.free, ?_, h.new_dir, ?_, ?_, ?_, ?_⟩
    . intro t ht
      rw [h.dir t ht, hdir]
    . intro t ht
      rw [h.pid t ht, hpid]
    . rw [h.new_pid, hk.incrementalPID]
    . rw [h.incrementalPID, hk.incrementalPID]
    . have := h.pages
      unfold Owned at *
      rw [hk.refsDIR, hk.mm] at this
      exact this
  have hidle' : k.current ≠ k.idleTask → m.current ≠ m.idleTask := by
    rw [hk.current, hk.idleTask]
    exact id
  cases h with
  | same hdir' hpid' hnext hmm hevent hexit =>
    apply LifeStep.same ?_ ?_ (hnext.trans hk.incrementalPID) (hmm.trans hk.mm) hevent hexit
    . intro t
      rw [hdir', hdir]
    . intro t
      rw [hpid', hpid]
  | forked hnew hd hdata hidle =>
    apply LifeStep.forked (hcreated hnew) ?_ ?_ (hidle' hidle)
    . rw [← hk.refsDIR]
      exact hd
    . rw [← hk.current, ← hdir, ← hk.mm]
      exact hdata
  | cloned hnew hidle =>
    apply LifeStep.cloned ?_ (hidle' hidle)
    rw [← hk.current, ← hdir]
    exact hcreated hnew
  | exited hdir' hpid' hgone hnext hpages hidle =>
    have hcurrent : ({ m with toKernel := k } : Model).current = m.current := hk.current
    rw [hcurrent] at hpid' hgone hpages ⊢
    apply LifeStep.exited ?_ ?_ hgone (hnext.trans hk.incrementalPID) ?_ (hidle' hidle)
    . intro t
      rw [hdir', hdir]
    . intro t ht
      rw [hpid' t ht, hpid]
    . rw [← hdir, ← hk.refsDIR, ← hk.mm]
      exact hpages
  | stored hdir' hpid' hnext ha hmm hidle =>
    apply LifeStep.stored ?_ ?_ (hnext.trans hk.incrementalPID) ha ?_ (hidle' hidle)
    . intro t
      rw [hdir', hdir]
    . intro t
      rw [hpid', hpid]
    . rw [← hk.current, ← hdir, ← hk.mm]
      exact hmm

theorem ret (h : LifeStep m m' live event live') (hevent : event ≠ .exit) (r : Int)
    : LifeStep m (m'.ret r) live event live' := by
  cases h with
  | same hdir hpid hnext hmm hstore hexit => exact .same hdir hpid hnext hmm hstore hexit
  | forked hnew hd hdata hidle => exact .forked (hnew.ret r) hd hdata hidle
  | cloned hnew hidle => exact .cloned (hnew.ret r) hidle
  | exited => exact absurd rfl hevent
  | stored hdir hpid hnext ha hmm hidle => exact .stored hdir hpid hnext ha hmm hidle

end LifeStep

namespace Population

variable {m m' : Model} {live : Finset Slot}

theorem fork_step (h : Population m live) (hs : Settled m live) (hidle : m.current ≠ m.idleTask)
    (htake : m.seq .freequeue = [] ∨ m.Takeable) {x : Int × Model} (hfork : m.fork = some x)
    : (m.seq .freequeue = [] ∧ x = (-eNOMEM, m)) ∨
        ∃ new, (m.seq .freequeue).head? = some new ∧ Population x.2 (insert new live) ∧
          x.2.incrementalPID = m.incrementalPID + 1 ∧
          LifeStep m x.2 live .fork (insert new live) := by
  cases hseq : m.seq .freequeue with
  | nil =>
    unfold Model.fork at hfork
    rw [hseq] at hfork
    cases hfork
    exact .inl ⟨rfl, rfl⟩
  | cons new ts =>
    have hnew : new ∈ m.seq .freequeue := by simp [hseq]
    obtain ⟨d, mm, hd, ⟨r, heq⟩, hspaces, hcode, hsame, hbytes⟩ :=
      h.fork_eq hs hidle hseq (htake.resolve_left (by simp [hseq]))
    rw [heq] at hfork
    cases hfork
    have hadmits := h.admits_forked hs.live hnew hd mm
    have hne : d ≠ 0 := by
      rintro rfl
      exact h.refs_pos (.inl rfl) hd
    refine .inr ⟨new, rfl, ?_, rfl, ?_⟩
    . exact h.enroll (hs.placed.nodup _) hnew hadmits hne hs.placed.idle_live hspaces hcode
    . apply LifeStep.forked ?_ hd ?_ hidle
      . refine ⟨by rw [hseq]; rfl, fun t ht => (hadmits.dirs t ht).2, hadmits.new_dirs.2, ?_, ?_, rfl,
          hsame⟩
        . intro t ht
          simp [forked, makeReady, takeCopy, ht]
        . simp [forked, makeReady, takeCopy]
      . intro a ha
        exact hbytes _ (Mm.dataPage_lt ha) _ (Nat.mod_lt _ (by unfold pageSize; omega))

theorem clone_step (h : Population m live) (hs : Settled m live) (hidle : m.current ≠ m.idleTask)
    (function stack : Addr)
    : (m.clone function stack).2 = m ∨
        ∃ new, (m.seq .freequeue).head? = some new ∧
          Population (m.clone function stack).2 (insert new live) ∧
          (m.clone function stack).2.incrementalPID = m.incrementalPID + 1 ∧
          LifeStep m (m.clone function stack).2 live (.clone function stack) (insert new live) := by
  unfold Model.clone
  split
  next => exact .inl rfl
  next =>
    split
    next => exact .inl rfl
    next new ts hseq =>
      have hnew : new ∈ m.seq .freequeue := by simp [hseq]
      have hadmits := h.admits_cloned hs.live hnew
      have howned := h.owned_of_live hs.live hidle
      refine .inr ⟨new, by rw [hseq]; rfl, ?_, rfl, ?_⟩
      . refine h.enroll (hs.placed.nodup _) hnew hadmits (howned 0).1 hs.placed.idle_live ?_ ?_
        rotate_left
        . rintro e (he | rfl)
          . exact h.code e he
          . exact h.code _ (howned 0)
        apply h.spaces.congr
        . intro e p _
          constructor
          . rintro (hown | rfl)
            . exact hown
            . exact howned p
          . exact .inl
        . intro _ _ _
          rfl
        . rfl
        . exact h.spaces.guarded
      . apply LifeStep.cloned ?_ hidle
        refine ⟨by rw [hseq]; rfl, fun t ht => (hadmits.dirs t ht).2, hadmits.new_dirs.2, ?_, ?_, rfl,
          .refl _ _⟩
        . intro t ht
          simp [makeReady, takeCopy, ht]
        . simp [makeReady, takeCopy]

theorem exit_step (h : Population m live) (hs : Settled m live) (hidle : m.current ≠ m.idleTask)
    : LifeStep m m.exit live .exit (live.erase m.current) := by
  have hsame : SameSpaces (m.mapKernel Kernel.releaseDIR).toKernel m.exit.toKernel := .exit
  obtain ⟨hcurrent, -, -, -⟩ := hs.destroyOwned_retired hidle
  obtain ⟨-, hdestroyed⟩ := (hs.retired hidle).destroyOwned
  have hpid : ∀ t, (m.exit.task t).pid = (m.exited.task t).pid := by
    intro t
    obtain ⟨_, _, ht⟩ := (Rescheduled.schedNext (m := m.exited)).task t
    rw [Model.exit, ht]
  have hpid' : ∀ t, (m.retired.destroyOwned.task t).pid = (m.task t).pid := by
    intro t
    apply (hdestroyed.pid t).trans
    simp [retired]
  refine LifeStep.exited ?_ ?_ ?_ ?_ ?_ hidle
  . intro t
    have := (hsame.dirs t).2
    rwa [toKernel_mapKernel, Kernel.task_releaseDIR] at this
  . intro t ht
    rw [hpid, ← hpid']
    simp [exited, hcurrent, ht]
  . rw [hpid]
    simp [exited, hcurrent]
  . rw [hsame.incrementalPID, toKernel_mapKernel]
    obtain ⟨refs, mm, heq⟩ := Kernel.releaseDIR_eq m.toKernel
    rw [heq]
  . rw [hsame.mm, (h.releaseDIR_fields hs.live).2]
    split
    next hone =>
      intro e p hp hne
      apply Mm.samePages_freeUserPages e p hp
      rintro rfl
      exact hne rfl hone
    next => exact .refl _ _

section Routine

variable {event : Event}

theorem routine (h : Population m live) (hs : Settled m live) (hlife : event.lifeCycle)
    (hidle : event.OfProcess → m.current ≠ m.idleTask)
    (htake : event.Creates → m.seq .freequeue = [] ∨ m.Takeable)
    (hm' : Model.routine event m = some m')
    : ∃ live', liveAfter event m.toKernel m'.toKernel (m.seq .freequeue).head? live = live' ∧
        Population m' live' ∧ LifeStep m m' live event live' := by
  cases event with
  | fork =>
    obtain ⟨x, hx, rfl⟩ := Option.map_eq_some_iff.mp hm'
    rcases h.fork_step hs (hidle (by simp [Event.OfProcess])) (htake (.inl rfl)) hx with
      ⟨-, rfl⟩ | ⟨new, hnew, hpop, hpid, hstep⟩
    . refine ⟨live, if_pos rfl, h.ret _, ?_⟩
      exact (LifeStep.same (fun _ => rfl) (fun _ => rfl) rfl rfl (by simp) (by simp)).ret (by simp) _
    . refine ⟨insert new live, ?_, hpop.ret _, hstep.ret (by simp) _⟩
      have hne : (Model.result x).incrementalPID ≠ m.incrementalPID := by
        have : (Model.result x).incrementalPID = x.2.incrementalPID := rfl
        omega
      exact (if_neg hne).trans (by rw [hnew]; rfl)
  | clone function stack =>
    cases hm'
    rcases h.clone_step hs (hidle (by simp [Event.OfProcess])) function stack with
      heq | ⟨new, hnew, hpop, hpid, hstep⟩
    . refine ⟨live, if_pos ?_, ?_, ?_⟩
      . unfold result
        rw [heq]
        rfl
      . unfold result
        rw [heq]
        exact h.ret _
      . unfold result
        rw [heq]
        exact (LifeStep.same (fun _ => rfl) (fun _ => rfl) rfl rfl (by simp) (by simp)).ret
          (by simp) _
    . refine ⟨insert new live, ?_, hpop.ret _, hstep.ret (by simp) _⟩
      have hne : (Model.result (m.clone function stack)).incrementalPID ≠ m.incrementalPID := by
        have : (Model.result (m.clone function stack)).incrementalPID =
          (m.clone function stack).2.incrementalPID := rfl
        omega
      exact (if_neg hne).trans (by rw [hnew]; rfl)
  | exit =>
    cases hm'
    have hne := hidle (by simp [Event.OfProcess])
    exact ⟨_, rfl, h.exit hs hne, h.exit_step hs hne⟩
  | clock =>
    cases hm'
    refine ⟨live, rfl, h.clockRutine hs, ?_⟩
    have hsame : Rescheduled m.toKernel m.clockRutine.toKernel := .clockRutine
    apply LifeStep.same ?_ ?_ hsame.incrementalPID hsame.mm (by simp) (by simp)
    . intro t
      obtain ⟨_, _, ht⟩ := hsame.task t
      rw [ht]
    . intro t
      obtain ⟨_, _, ht⟩ := hsame.task t
      rw [ht]
  | store a v =>
    obtain ⟨k, hk, rfl⟩ := Option.map_eq_some_iff.mp hm'
    refine ⟨live, rfl, h.userStore hs hk, ?_⟩
    obtain ⟨mm, hmm, rfl⟩ := Option.map_eq_some_iff.mp hk
    rw [h.getPT_cr3 hs.live] at hmm
    obtain ⟨ha, rfl⟩ := h.spaces.userStore_eq_some hmm
    exact .stored (fun _ => rfl) (fun _ => rfl) rfl ha rfl (hidle (by simp [Event.OfProcess]))
  | resume =>
    cases hm'
    refine ⟨live, rfl, h.resume hs, ?_⟩
    unfold Model.resume
    rcases h.cont _ hs.live with hcont | hcont
    . rw [hcont]
      dsimp only
      refine LifeStep.same ?_ ?_ rfl rfl (by simp) (by simp)
      . intro t
        simp
      . intro t
        simp
    . rw [hcont]
      dsimp only
      exact .same (fun _ => rfl) (fun _ => rfl) rfl rfl (by simp) (by simp)
  | _ => cases hlife

end Routine

theorem step (h : Population m live) (hs : Settled m live) {i : Input} (hlife : i.event.lifeCycle)
    (htake : i.event.Creates → m.seq .freequeue = [] ∨ m.Takeable) (hstep : m.step i = some m')
    : ∃ live', liveAfter i.event m.toKernel m'.toKernel (m.seq .freequeue).head? live = live' ∧
        Population m' live' ∧ LifeStep m m' live i.event live' := by
  obtain ⟨k, hk, hm'⟩ := step_eq_some hstep
  obtain ⟨live', heq, hpop, hlife'⟩ := (h.entry hk).routine (hs.entry hk) hlife (idle_of_entry hk)
    htake hm'
  exact ⟨live', (Settled.liveAfter_entry hk).symm.trans heq, hpop,
    hlife'.of_entered (Kernel.entered_of_entry hk)⟩

end Population

/--
The abstract kernel follows the machine, and the live processes are the ones in its tables.
-/
structure Populated (x : Sys × Finset Slot) (m : Model) : Prop extends Follows x m where
  population : Population m x.2

namespace Populated

variable {x y : Sys × Finset Slot} {m : Model}

theorem step (h : Populated x m) {i : Input} (hlife : i.event.lifeCycle)
    (hsound : Sys.TakesSound i x) (hstep : Sys.stepLive i x = some y)
    : ∃ m', m.step i = some m' ∧ Populated y m' ∧ LifeStep m m' x.2 i.event y.2 := by
  obtain ⟨m', hm', hy⟩ := h.toFollows.step hsound hstep
  obtain ⟨hstep, hlive⟩ := Run.ghost_eq_some.mp hstep
  obtain ⟨live', heq, hpop, hlife'⟩ := h.population.step h.settled hlife
    (fun hcreates => h.refines.takeable_of_firstFreeSound h.free_open (hsound hcreates)) hm'
  have hset : m.queues.shape .freequeue ≠ .unset := by
    rcases h.free_open with hopen | ⟨_, hopen⟩ <;> simp [hopen]
  rw [h.refines.firstTask_eq hset, h.refines.kernel, hy.refines.kernel, heq] at hlive
  rw [← hlive] at hpop hlife'
  exact ⟨m', hm', ⟨hy, hpop⟩, hlife'⟩

end Populated

theorem Populated.always {x : Sys × Finset Slot} {m : Model} (h : Populated x m) {es : List Input}
    (hlife : ∀ i ∈ es, i.event.lifeCycle)
    (hsound : Run.Allowed Sys.stepLive Sys.TakesSound es x)
    : Run.Always Sys.stepLive (fun x => ∃ m, Populated x m) es x := by
  apply Run.always_of_step (fun i x y hx hok hstep => ?_) ⟨m, h⟩
    ((Run.allowed_of_forall fun i hi _ => hlife i hi).and hsound)
  obtain ⟨m, hm⟩ := hx
  obtain ⟨m', -, hm', -⟩ := hm.step hok.1 hok.2 hstep
  exact ⟨m', hm'⟩

theorem Populated.boot {frames : Nat → Nat → Byte} {s : Sys} (hs : Zeos.boot frames = some s)
    : Populated (s, liveBoot) (.boot frames) :=
  ⟨.boot hs, population_boot frames⟩

end Zeos
