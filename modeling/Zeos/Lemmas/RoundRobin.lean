import Zeos.Spec.RoundRobin
import Zeos.Lemmas.Boot
import Zeos.Lemmas.Times

/-!
While nothing but ticks happens, the tasks that are ready take turns.
-/

namespace Zeos

open Links

namespace Sys

variable {s : Sys} {Q left : Nat} {c t : Slot} {rs : List Slot} {r : Readings}

theorem listEmpty_of_lists (h : s.Lists .readyqueue rs) (hne : rs ≠ [])
    : listEmpty (.head .readyqueue) s.links = false := by
  unfold listEmpty
  rw [decide_eq_false_iff_not, Ring.next_head_eq_self_iff h, List.map_eq_nil_iff]
  exact hne

theorem firstTask_of_lists (h : s.Lists .readyqueue (t :: rs))
    : firstTask .readyqueue s.links = some t := by
  unfold firstTask listFirst
  rw [Ring.next_head h]
  rfl

theorem exitRunCurrent_of_lists (h : s.Lists .readyqueue rs) (hrun : (s.task s.current).estado = .stRun)
    (hnot : s.current ∉ rs)
    : ∃ s', s.exitRunCurrent .readyqueue = some s' ∧ s'.Lists .readyqueue (rs ++ [s.current]) ∧
        s'.toKernel = s.exitRunData.setTask s.current fun ts => { ts with estado := .stReady } := by
  have hnode : ListHead.list s.current ∉ .head .readyqueue :: rs.map .list := by
    simpa using hnot
  have hshaped : s.links.Shaped (.head .readyqueue) (rs.map .list) .ring := h
  obtain ⟨links, hadd, hring, -⟩ := listAddTail_shaped hshaped hnode (.inl rfl)
  have hest : ((s.mapKernel Kernel.exitRunData).task s.current).estado = .stRun := by
    simpa using hrun
  refine ⟨{ s with
    toKernel := s.exitRunData.setTask s.current fun ts => { ts with estado := .stReady }
    links := links }, ?_, ?_, rfl⟩
  . unfold exitRunCurrent updateProcessStateRr mapLinks
    rw [if_neg (by rw [hest]; simp)]
    simp only [Option.bind_eq_bind, Option.bind_some]
    have hlinks : (s.mapKernel Kernel.exitRunData).links = s.links := rfl
    rw [hlinks, hadd]
    rfl
  . have hmap : (rs ++ [s.current]).map ListHead.list = rs.map .list ++ [.list s.current] := by simp
    unfold Lists
    rw [hmap]
    exact hring

theorem schedNextRr_of_lists (h : s.Lists .readyqueue (t :: rs)) (hready : (s.task t).estado ≠ .stRun)
    : ∃ s', s.schedNextRr = some s' ∧ s'.Lists .readyqueue rs ∧
        s'.toKernel =
          ((s.schedData t).setTask t fun ts => { ts with estado := .stRun }).taskSwitch t := by
  have hring : s.links.Ring (.head .readyqueue) ([] ++ .list t :: rs.map .list) := h
  obtain ⟨links, hdel, hring', -⟩ := listDel_ring hring
  have hest : ((s.mapKernel (Kernel.schedData t)).task t).estado ≠ .stRun := by
    simpa using hready
  refine ⟨{ s with
    toKernel := ((s.schedData t).setTask t fun ts => { ts with estado := .stRun }).taskSwitch t
    links := links }, ?_, hring', rfl⟩
  unfold schedNextRr updateProcessStateRr mapLinks
  rw [listEmpty_of_lists h (by simp), firstTask_of_lists h]
  simp only [Bool.not_false, if_true, Option.bind_eq_bind, Option.bind_some]
  rw [if_pos hest]
  have hlinks : (s.mapKernel (Kernel.schedData t)).links = s.links := rfl
  rw [hlinks, hdel]
  rfl

def ticked (r : Readings) (s : Sys) : Sys :=
  { s with readings := r, zeosTicks := s.zeosTicks + 1, qLeft := s.qLeft - 1 }

theorem tick_of_not_needs {s' : Sys} (h : (s.ticked r).needsSchedRr = (false, s'))
    : s.tick r = some s' := by
  have heq : s.tick r = (fun x : Bool × Sys =>
      if x.1 then (exitRunCurrent .readyqueue x.2).bind schedNextRr else some x.2)
        (s.ticked r).needsSchedRr := rfl
  rw [heq, h]
  rfl

theorem tick_of_needs (h : (s.ticked r).needsSchedRr = (true, s.ticked r))
    : s.tick r = ((s.ticked r).exitRunCurrent .readyqueue).bind schedNextRr := by
  have heq : s.tick r = (fun x : Bool × Sys =>
      if x.1 then (exitRunCurrent .readyqueue x.2).bind schedNextRr else some x.2)
        (s.ticked r).needsSchedRr := rfl
  rw [heq, h]
  rfl

namespace Runs

theorem not_mem (h : s.Runs Q c rs left) : c ∉ rs := by
  intro hc
  have := h.estado c hc
  rw [h.running] at this
  cases this

theorem tick_of_ne (h : s.Runs Q c rs (left + 2)) (r : Readings)
    : ∃ s', s.tick r = some s' ∧ s'.Runs Q c rs (left + 1) := by
  have hleft : (s.ticked r).qLeft = left + 1 := by
    have := h.left
    simp only [ticked]
    omega
  refine ⟨s.ticked r, tick_of_not_needs (needsSchedRr_of_ne (by omega)), ?_⟩
  exact { h with left := hleft }

theorem tick_of_eq (h : s.Runs Q c (t :: rs) 1) (r : Readings)
    : ∃ s', s.tick r = some s' ∧ s'.Runs Q t (rs ++ [c]) Q := by
  have hcurrent := h.current
  have hzero : (s.ticked r).qLeft = 0 := by
    have := h.left
    simp only [ticked]
    omega
  have hready : (s.ticked r).Lists .readyqueue (t :: rs) := h.ready
  have hneeds := needsSchedRr_of_waiting hzero (listEmpty_of_lists hready (by simp))
  have hrun : ((s.ticked r).task (s.ticked r).current).estado = .stRun := by
    rw [← h.running, ← hcurrent]
    rfl
  have hnot : (s.ticked r).current ∉ t :: rs := by
    rw [← hcurrent] at h
    exact h.not_mem
  obtain ⟨s₁, hs₁, hlists₁, hk₁⟩ := exitRunCurrent_of_lists hready hrun hnot
  have hcurrent₁ : (s.ticked r).current = c := hcurrent
  have hest₁ : ∀ u, (s₁.task u).estado = if u = c then .stReady else (s.task u).estado := by
    intro u
    rw [hk₁, hcurrent₁, Kernel.setTask_task]
    split
    next => rfl
    next => simp [ticked]
  have hquantum₁ : ∀ u, (s₁.task u).quantum = (s.task u).quantum := by
    intro u
    rw [hk₁, hcurrent₁, Kernel.setTask_task]
    split
    next => simp [ticked]
    next => simp [ticked]
  have hne : t ≠ c := by
    intro heq
    exact h.not_mem (by simp [heq])
  have hready₁ : (s₁.task t).estado ≠ .stRun := by
    rw [hest₁, if_neg hne, h.estado t (by simp)]
    simp
  obtain ⟨s₂, hs₂, hlists₂, hk₂⟩ := schedNextRr_of_lists hlists₁ hready₁
  have hest₂ : ∀ u, (s₂.task u).estado = if u = t then .stRun else (s₁.task u).estado := by
    intro u
    rw [hk₂]
    simp only [Kernel.taskSwitch_task, Kernel.setTask_task]
    split
    next => rfl
    next => simp
  have hquantum₂ : ∀ u, (s₂.task u).quantum = (s.task u).quantum := by
    intro u
    rw [hk₂, ← hquantum₁]
    simp only [Kernel.taskSwitch_task, Kernel.setTask_task]
    split
    next => simp
    next => simp
  refine ⟨s₂, by rw [tick_of_needs hneeds, hs₁]; exact hs₂, ?_⟩
  constructor
  . rw [hk₂]
    rfl
  . rw [hest₂, if_pos rfl]
  . rw [hcurrent₁] at hlists₂
    exact hlists₂
  . intro u hu
    have hut : u ≠ t := by
      rintro rfl
      have hnodup : (u :: rs).Nodup := List.Nodup.of_map _ (Ring.nodup h.ready)
      have hmem : u ∈ rs := by simpa [hne] using hu
      exact (List.nodup_cons.mp hnodup).1 hmem
    rw [hest₂, if_neg hut, hest₁]
    split
    next => rfl
    next huc =>
      have hmem : u ∈ rs := by simpa [huc] using hu
      exact h.estado u (by simp [hmem])
  . intro u hu
    rw [hquantum₂]
    apply h.quantum
    simp only [List.mem_cons, List.mem_append, List.not_mem_nil, or_false] at hu ⊢
    tauto
  . have hcur : s₁.current = c := by
      rw [hk₁]
      exact hcurrent
    rw [hk₂]
    simp only [Kernel.taskSwitch_qLeft, Kernel.setTask_qLeft, Kernel.schedData_qLeft]
    unfold Kernel.getQuantum
    rw [hcur, hquantum₁]
    exact h.quantum c (by simp)

theorem ticks (h : s.Runs Q c rs left) (hne : rs ≠ []) (hleft : 1 ≤ left) (hQ : left ≤ Q)
    (r : Nat → Readings) (n : Nat)
    : ∃ s' c' rs', s.ticks r n = some s' ∧ (c :: rs).rotate (Turns.switches Q left n) = c' :: rs' ∧
        s'.Runs Q c' rs' (Turns.remaining Q left n) := by
  induction n with
  | zero =>
    refine ⟨s, c, rs, rfl, ?_, ?_⟩
    . rw [Turns.switches_zero hleft hQ, List.rotate_zero]
    . rw [Turns.remaining_zero hleft hQ]
      exact h
  | succ n ih =>
    obtain ⟨s', c', rs', hs', hrotate, hruns⟩ := ih
    have hpos : 1 ≤ Turns.remaining Q left n := Turns.remaining_pos (by omega)
    by_cases hone : Turns.remaining Q left n = 1
    . obtain ⟨hswitches, hremaining⟩ := Turns.succ_of_remaining_eq_one (by omega) hone
      cases rs' with
      | nil =>
        have hlength := congrArg List.length hrotate
        simp at hlength
        exact absurd hlength hne
      | cons t rs' =>
        rw [hone] at hruns
        obtain ⟨s'', htick, hruns'⟩ := hruns.tick_of_eq (r n)
        refine ⟨s'', t, rs' ++ [c'], ?_, ?_, ?_⟩
        . rw [Sys.ticks, hs']
          exact htick
        . rw [hswitches, Turns.rotate_succ hrotate]
          rfl
        . rw [hremaining]
          exact hruns'
    . obtain ⟨hswitches, hremaining⟩ := Turns.succ_of_remaining_ne_one (by omega) hone
      obtain ⟨k, hk⟩ : ∃ k, Turns.remaining Q left n = k + 2 := ⟨Turns.remaining Q left n - 2, by omega⟩
      rw [hk] at hruns hremaining
      obtain ⟨s'', htick, hruns'⟩ := hruns.tick_of_ne (r n)
      refine ⟨s'', c', rs', ?_, ?_, ?_⟩
      . rw [Sys.ticks, hs']
        exact htick
      . rw [hswitches, hrotate]
      . rw [Nat.add_right_cancel hremaining]
        exact hruns'

end Runs

end Sys

open Turns

/--
Whatever the clock shows, any number of ticks makes a round robin over the running task and the ready ones.
-/
theorem roundRobin_of_runs {s : Sys} {Q left : Nat} {c : Slot} {rs : List Slot}
    (h : s.Runs Q c rs left) (hne : rs ≠ []) (hleft : 1 ≤ left) (hQ : left ≤ Q)
    (r : Nat → Readings)
    : ∃ f : Nat → Sys, (∀ n, s.ticks r n = some (f n)) ∧ RoundRobin Q left (c :: rs) f := by
  choose f c' rs' hf hrotate hruns using h.ticks hne hleft hQ r
  have hinTurn : ∀ n, (f n).InTurn ((c :: rs).rotate (switches Q left n)) := by
    intro n
    refine ⟨rs' n, ?_, (hruns n).ready⟩
    rw [hrotate, (hruns n).current]
  have hhead : ∀ n, ((c :: rs).rotate (switches Q left n)).head? = some (f n).current := by
    intro n
    rw [hrotate, (hruns n).current]
    rfl
  have hnodup : (c :: rs).Nodup :=
    List.nodup_cons.mpr ⟨h.not_mem, List.Nodup.of_map _ (Ring.nodup h.ready)⟩
  refine ⟨f, hf, ?_, ?_, ?_, ?_⟩
  . intro n hn
    have := hinTurn n
    rwa [switches_of_lt hQ hn, List.rotate_zero] at this
  . intro i n hle hlt
    have := hinTurn n
    rwa [switches_eq hQ hle hlt] at this
  . intro n
    rw [← remaining_eq_one_iff hleft hQ]
    by_cases hone : remaining Q left n = 1
    . have hlength : 1 < (c :: rs).length := by
        have := List.length_pos_iff.mpr hne
        rw [List.length_cons]
        omega
      have hother := head?_rotate_succ_ne hnodup hlength (switches Q left n)
      rw [← (succ_of_remaining_eq_one (by omega) hone).1, hhead, hhead, ne_eq,
        Option.some.injEq] at hother
      simp [hone, hother]
    . have hsame := hhead (n + 1)
      rw [(succ_of_remaining_ne_one (by omega) hone).1, hhead, Option.some.injEq] at hsame
      simp [hone, hsame]
  . intro t ht m
    obtain ⟨j, hj, rfl⟩ := List.mem_iff_getElem.mp ht
    have hcurrent : ∀ n, (f n).current = (c :: rs)[j] ↔ switches Q left n % (c :: rs).length = j := by
      intro n
      rw [← head?_rotate_eq_some_iff hnodup hj, hhead, Option.some.injEq]
    simp only [hcurrent]
    exact card_turn hj (by omega) m

theorem roundRobin_of_threads
    : ∃ s f, boot (fun _ _ => 0) = some s ∧
        (∀ n, (Run.run Sys.step (atRest (resumed [cloneThread, cloneThread, .clock, .clock, .clock,
          .clock])) s).bind (Sys.ticks (fun _ => .zero) n) = some (f n)) ∧
        RoundRobin 15 11 [13, 12, 11] f := by
  have hruns : ∀ s ∈ boot fun _ _ => 0,
      ∀ s' ∈ Run.run Sys.step (atRest (resumed [cloneThread, cloneThread, .clock, .clock, .clock,
        .clock])) s, s'.Runs 15 13 [12, 11] 11 := by
    decide +kernel
  have hsome : ∀ s ∈ boot fun _ _ => 0,
      (Run.run Sys.step (atRest (resumed [cloneThread, cloneThread, .clock, .clock, .clock,
        .clock])) s).isSome := by
    decide +kernel
  obtain ⟨s, hs⟩ := exists_boot fun _ _ => 0
  obtain ⟨s', hs'⟩ := Option.isSome_iff_exists.mp (hsome s hs)
  obtain ⟨f, hf, hrobin⟩ := roundRobin_of_runs (hruns s hs s' hs') (by simp) (by decide) (by decide)
    fun _ => .zero
  refine ⟨s, f, hs, ?_, hrobin⟩
  intro n
  rw [hs']
  exact hf n

end Zeos
