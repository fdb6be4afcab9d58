import Zeos.Lemmas.Kernel
import Zeos.Spec.Readers

/-!
Where the calls that make a process can end, and the calls of `sys_read`.
-/

namespace Zeos

namespace Sys

variable {s s' : Sys} {new : Slot} {r : Int}

theorem toKernel_mapLinks {f : Links ListHead → Option (Links ListHead)} (h : s.mapLinks f = some s')
    : s'.toKernel = s.toKernel := by
  obtain ⟨links, -, rfl⟩ := Option.map_eq_some_iff.mp h
  rfl

@[simp]
theorem toKernel_mapKernel (f : Kernel → Kernel) : (s.mapKernel f).toKernel = f s.toKernel := by
  rfl

theorem takeFree_eq_some (h : s.takeFree = some (new, s'))
    : firstTask .freequeue s.links = some new ∧ s'.toKernel = s.toKernel := by
  obtain ⟨u, hu, h⟩ := Option.bind_eq_some_iff.mp h
  obtain ⟨s₁, h₁, h⟩ := Option.bind_eq_some_iff.mp h
  cases h
  exact ⟨hu, toKernel_mapLinks h₁⟩

theorem listEmpty_of_takeFree (h : s.takeFree = some (new, s'))
    : listEmpty (.head .freequeue) s.links = false := by
  obtain ⟨hfirst, -⟩ := takeFree_eq_some h
  unfold firstTask listFirst at hfirst
  unfold listEmpty
  rw [decide_eq_false_iff_not]
  intro hempty
  rw [hempty] at hfirst
  cases hfirst

theorem toKernel_makeReady (h : s.makeReady new = some (r, s'))
    : s'.toKernel = s.newProcess new := by
  obtain ⟨s₁, h₁, h⟩ := Option.bind_eq_some_iff.mp h
  cases h
  exact toKernel_mapLinks h₁

inductive ForkEnd (s : Sys) : Int → Sys → Prop
  | noSlot (hempty : listEmpty (.head .freequeue) s.links = true) : ForkEnd s (-eNOMEM) s
  | noDIR {new : Slot} {s₁ : Sys} (htake : s.takeFree = some (new, s₁))
      (hdir : (s₁.copyTask new).allocateDIR new = none) : ForkEnd s (-eNOMEM) (s₁.copyTask new)
  | noFrame {new : Slot} {s₁ : Sys} {k k' : Kernel} (htake : s.takeFree = some (new, s₁))
      (hdir : (s₁.copyTask new).allocateDIR new = some k)
      (hpages : k.inheritPages new = some (false, k'))
      : ForkEnd s (-eNOMEM) { s₁.copyTask new with toKernel := k' }
  | created {new : Slot} {s₁ : Sys} {k k' : Kernel} {r : Int} {s' : Sys}
      (htake : s.takeFree = some (new, s₁))
      (hdir : (s₁.copyTask new).allocateDIR new = some k)
      (hpages : k.inheritPages new = some (true, k'))
      (hready : ({ s₁.copyTask new with toKernel := k'.forkContext new } : Sys).makeReady new =
        some (r, s'))
      : ForkEnd s r s'

theorem sysFork_end (h : s.sysFork = some (r, s')) : ForkEnd s r s' := by
  unfold sysFork at h
  split at h
  next hempty =>
    cases h
    exact .noSlot hempty
  next =>
    obtain ⟨⟨new, s₁⟩, htake, h⟩ := Option.bind_eq_some_iff.mp h
    dsimp only at h
    split at h
    next hdir =>
      cases h
      exact .noDIR htake hdir
    next k hdir =>
      obtain ⟨⟨enough, k'⟩, hpages, h⟩ := Option.bind_eq_some_iff.mp h
      cases enough with
      | true => exact .created htake hdir hpages h
      | false =>
        cases h
        exact .noFrame htake hdir hpages

theorem sysClone_eq_some {function stack : Addr} (h : s.sysClone function stack = some (r, s'))
    : s' = s ∨ ∃ new s₁, s.takeFree = some (new, s₁) ∧
        ((s₁.copyTask new).mapKernel (Kernel.cloneContext new)).makeReady new = some (r, s') := by
  unfold sysClone at h
  split at h
  next =>
    cases h
    exact .inl rfl
  split at h
  next =>
    cases h
    exact .inl rfl
  next =>
    obtain ⟨⟨new, s₁⟩, htake, h⟩ := Option.bind_eq_some_iff.mp h
    exact .inr ⟨new, s₁, htake, h⟩

/-- The ends of `sys_read`: refused, queued behind other readers, or served. -/
inductive ReadEnd (fd : Int) (buf : Addr) (count : Int) (s : Sys) : Sys → Prop
  | refused (r : Int) (hnot : ¬ReadAccepted fd buf count) : ReadEnd fd buf count s (s.ret r)
  | queued {s₁ s' : Sys} (hok : ReadAccepted fd buf count)
    (hmoved : updateProcessStateRr s.current (some .keyboardqueue) (s.mapKernel (Kernel.requireKeys count)) =
      some s₁)
    (hnext : schedNextRr (s₁.mapKernel fun k => k.setCont k.current (.readKeyboard buf)) = some s')
    : ReadEnd fd buf count s s'
  | served {s' : Sys} (hok : ReadAccepted fd buf count)
    (hempty : listEmpty (.head .keyboardqueue) s.links = true)
    (hbody : readKeyboardBody buf (s.mapKernel (Kernel.requireKeys count)) = some s')
    : ReadEnd fd buf count s s'

theorem sysRead_end {fd : Int} {buf : Addr} {count : Int} (h : s.sysRead fd buf count = some s')
    : ReadEnd fd buf count s s' := by
  unfold sysRead at h
  split at h
  next hbuf =>
    cases h
    exact .refused _ fun hok => hok.1 hbuf
  split at h
  next hcount =>
    cases h
    exact .refused _ fun hok => absurd hok.2.1 (by omega)
  split at h
  next hfd =>
    cases h
    exact .refused _ fun hok => absurd hok.2.2.1 (by omega)
  split at h
  next haccess =>
    cases h
    exact .refused _ fun hok => by simp [hok.2.2.2] at haccess
  next hbuf hcount hfd haccess =>
    have hok : ReadAccepted fd buf count := ⟨hbuf, by omega, by omega, by simpa using haccess⟩
    unfold sysReadKeyboard at h
    dsimp only at h
    split at h
    next =>
      obtain ⟨s₁, hmoved, hnext⟩ := Option.bind_eq_some_iff.mp h
      exact .queued hok hmoved hnext
    next hempty => exact .served hok (by simpa [mapKernel] using hempty) h

end Sys

end Zeos
