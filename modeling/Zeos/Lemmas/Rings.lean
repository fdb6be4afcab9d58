import Zeos.Lemmas.List
import Zeos.Spec.Rings

/-!
The calls of `list.c` and `update_process_state_rr` refine operations on sequences, over any run and with
any number of queues.
-/

namespace Zeos

open Links

section Operations

variable {κ α : Type} {h : Links α} {head : κ → α} {Q : Sequences κ α} {n : α} {q : κ}

theorem free_of_not_member (hhead : ∀ q, head q ≠ n) (hn : ¬Q.Member n) : Q.Free head n := by
  intro q hmem
  rcases List.mem_cons.mp hmem with rfl | hmem
  . exact hhead q rfl
  . exact hn ⟨q, hmem⟩

variable [DecidableEq α]

theorem remove_of_not_member (hn : ¬Q.Member n) : Q.remove n = Q := by
  funext q
  exact List.erase_of_not_mem fun hmem => hn ⟨q, hmem⟩

theorem free_remove (hR : h.Rings head Q) (hn : n ∈ Q q) : (Q.remove n).Free head n := by
  intro q' hmem
  rcases List.mem_cons.mp hmem with rfl | hmem
  . exact hR.head_not_mem hn
  . exact (hR.ring q').nodup.not_mem_erase hmem

variable [DecidableEq κ]

theorem listAdd_rings (hR : h.Rings head Q) (hn : Q.Free head n) (q : κ)
    : ∃ h', listAdd n (head q) h = some h' ∧ h'.Rings head (Q.pushFront q n) ∧
        ∀ q' ≠ q, EqOn (head q' :: Q q') h h' := by
  obtain ⟨h', hadd, hring, heq⟩ := listAdd_ring (hR.ring q) (hn q)
  refine ⟨h', hadd, hR.edit hring ?_ (heq.mono ?_)⟩
  . intro y hy
    rcases List.mem_cons.mp hy with rfl | hy
    . exact .inr hn
    . exact .inl hy
  . intro z hz
    simp only [List.mem_cons, List.mem_append] at hz ⊢
    tauto

theorem listAddTail_rings (hR : h.Rings head Q) (hn : Q.Free head n) (q : κ)
    : ∃ h', listAddTail n (head q) h = some h' ∧ h'.Rings head (Q.pushBack q n) ∧
        ∀ q' ≠ q, EqOn (head q' :: Q q') h h' := by
  have hs : h.Shaped (head q) (Q q) .ring := hR.ring q
  obtain ⟨h', hadd, hring, heq⟩ := listAddTail_shaped hs (hn q) (.inl rfl)
  refine ⟨h', hadd, hR.edit hring ?_ (heq.mono ?_)⟩
  . intro y hy
    rcases List.mem_append.mp hy with hy | hy
    . exact .inl hy
    . rw [List.mem_singleton] at hy
      subst hy
      exact .inr hn
  . intro z hz
    simp only [List.mem_cons, List.mem_append] at hz ⊢
    tauto

theorem remove_eq_update (hR : h.Rings head Q) (hn : n ∈ Q q)
    : Q.remove n = Function.update Q q ((Q q).erase n) := by
  funext q'
  by_cases hq : q' = q
  . subst hq
    rw [Function.update_self]
    rfl
  . rw [Function.update_of_ne hq]
    exact List.erase_of_not_mem fun hn' => hq (hR.eq_of_mem hn' hn)

theorem listDel_rings (hR : h.Rings head Q) (hn : n ∈ Q q)
    : ∃ h', listDel n h = some h' ∧ h'.Rings head (Q.remove n) ∧
        ∀ q' ≠ q, EqOn (head q' :: Q q') h h' := by
  obtain ⟨us, vs, hsplit⟩ := List.append_of_mem hn
  have hring := hR.ring q
  have herase : (Q q).erase n = us ++ vs := by
    have hnodup := hring.nodup
    rw [hsplit] at hnodup ⊢
    exact erase_append_cons hnodup
  rw [hsplit] at hring
  obtain ⟨h', hdel, hring', heq⟩ := listDel_ring hring
  refine ⟨h', hdel, ?_⟩
  rw [remove_eq_update hR hn, herase]
  refine hR.edit hring' ?_ (heq.mono ?_)
  . intro y hy
    rw [hsplit]
    simp only [List.mem_append, List.mem_cons] at hy ⊢
    tauto
  . intro z hz
    rw [hsplit]
    simp only [List.mem_cons, List.mem_append] at hz ⊢
    tauto

end Operations

section Calls

variable {κ τ α : Type} [DecidableEq α] {L : NodeLayout κ τ α} {readyqueue : κ} {s : Lists τ α}
  {Q : Sequences κ α}

theorem readsAs_of_rings (hR : s.links.Rings L.head Q) : ReadsAs L (s, Q) := by
  constructor
  . exact hR
  . exact fun q fuel hfuel => (hR.ring q).walk_next hfuel
  . exact fun q fuel hfuel => (hR.ring q).walk_prev hfuel
  . exact fun q => (hR.ring q).next_head
  . intro q
    show decide (s.links.next (L.head q) = some (L.head q)) = (Q q).isEmpty
    rw [Bool.eq_iff_iff, decide_eq_true_iff, (hR.ring q).next_head_eq_self_iff, List.isEmpty_iff]

variable [DecidableEq κ]

theorem apply_of_not_touches {c : ListCall κ τ α} {q : κ} (h : ¬c.Touches L Q q)
    : Q.apply L c q = Q q := by
  cases c with
  | updateProcessStateRr t dstQueue =>
    have hnot : L.list t ∉ Q q := fun hmem => h (.inr hmem)
    have hsame : Q.remove (L.list t) q = Q q := List.erase_of_not_mem hnot
    cases dstQueue with
    | none => exact hsame
    | some q' =>
      have hne : q ≠ q' := fun heq => h (.inl (by rw [heq]))
      exact (Function.update_of_ne hne _ _).trans hsame
  | listAdd new q' => exact Function.update_of_ne h _ _
  | listAddTail new q' => exact Function.update_of_ne h _ _
  | listDel entry => exact List.erase_of_not_mem h
  | listFirst q' => rfl
  | setEstado t e => rfl

theorem leave_rings (hR : s.links.Rings L.head Q) {t : τ}
    (hestado : s.estado t ≠ .stRun ↔ Q.Member (L.list t))
    : ∃ h', (if s.estado t ≠ .stRun then listDel (L.list t) s.links else some s.links) = some h' ∧
        h'.Rings L.head (Q.remove (L.list t)) ∧ (Q.remove (L.list t)).Free L.head (L.list t) ∧
        ∀ q, L.list t ∉ Q q → EqOn (L.head q :: Q q) s.links h' := by
  by_cases hrun : s.estado t ≠ .stRun
  . obtain ⟨q, hq⟩ := hestado.mp hrun
    obtain ⟨h', hdel, hR', hothers⟩ := listDel_rings hR hq
    rw [if_pos hrun]
    refine ⟨h', hdel, hR', free_remove hR hq, ?_⟩
    intro q' hq'
    exact hothers q' fun heq => hq' (heq ▸ hq)
  . have hnot : ¬Q.Member (L.list t) := fun hmem => hrun (hestado.mpr hmem)
    rw [if_neg hrun, remove_of_not_member hnot]
    exact ⟨s.links, rfl, hR, free_of_not_member (fun q => L.head_ne_list q t) hnot,
      fun q _ => EqOn.refl⟩

theorem member_apply_self {t : τ} {dstQueue : Option κ} (hR : s.links.Rings L.head Q)
    : (Q.apply L (.updateProcessStateRr t dstQueue)).Member (L.list t) ↔ dstQueue.isSome := by
  have hgone : ∀ q, L.list t ∉ Q.remove (L.list t) q := fun q =>
    (hR.ring q).nodup.not_mem_erase
  cases dstQueue with
  | none =>
    simp only [Option.isSome_none, Bool.false_eq_true, iff_false]
    intro ⟨q, hq⟩
    exact hgone q hq
  | some q =>
    simp only [Option.isSome_some, iff_true]
    refine ⟨q, ?_⟩
    show L.list t ∈ (Q.remove (L.list t)).pushBack q (L.list t) q
    unfold Sequences.pushBack
    rw [Function.update_self]
    simp

theorem member_apply_of_ne {t u : τ} {dstQueue : Option κ} (hne : u ≠ t)
    : (Q.apply L (.updateProcessStateRr t dstQueue)).Member (L.list u) ↔ Q.Member (L.list u) := by
  have hlist : L.list u ≠ L.list t := fun h => hne (L.list_injective h)
  have hremove : ∀ q, L.list u ∈ Q.remove (L.list t) q ↔ L.list u ∈ Q q := fun q =>
    List.mem_erase_of_ne hlist
  cases dstQueue with
  | none => exact exists_congr hremove
  | some q =>
    refine exists_congr fun q' => ?_
    rw [← hremove q']
    show L.list u ∈ (Q.remove (L.list t)).pushBack q (L.list t) q' ↔ _
    unfold Sequences.pushBack
    by_cases hq : q' = q
    . subst hq
      rw [Function.update_self]
      simp [hlist]
    . rw [Function.update_of_ne hq]

variable [DecidableEq τ]

theorem updateProcessStateRr_rings (hR : s.links.Rings L.head Q) {t : τ}
    (hestado : s.estado t ≠ .stRun ↔ Q.Member (L.list t)) (dstQueue : Option κ)
    : ∃ s', s.updateProcessStateRr L readyqueue t dstQueue = some s' ∧
        s'.links.Rings L.head (Q.apply L (.updateProcessStateRr t dstQueue)) ∧
        ∀ q, ¬(ListCall.updateProcessStateRr t dstQueue).Touches L Q q →
          EqOn (L.head q :: Q q) s.links s'.links := by
  obtain ⟨h₁, hleave, hR₁, hfree, hothers⟩ := leave_rings hR hestado
  unfold Lists.updateProcessStateRr
  rw [hleave]
  cases dstQueue with
  | none => exact ⟨_, rfl, hR₁, fun q hq => hothers q (fun hmem => hq (.inr hmem))⟩
  | some q =>
    obtain ⟨h₂, hadd, hR₂, hothers₂⟩ := listAddTail_rings hR₁ hfree q
    refine ⟨Lists.setEstado t (if q = readyqueue then .stReady else .stBlocked) ⟨h₂, s.estado⟩,
      by simp [hadd], hR₂, ?_⟩
    intro q' hq'
    have hne : q' ≠ q := fun heq => hq' (.inl (by rw [heq]))
    have hnot : L.list t ∉ Q q' := fun hmem => hq' (.inr hmem)
    have hsame : Q.remove (L.list t) q' = Q q' := List.erase_of_not_mem hnot
    have hkept := hothers₂ q' hne
    rw [hsame] at hkept
    exact (hothers q' hnot).trans hkept

theorem step_rings (readyqueue : κ) {c : ListCall κ τ α} (hR : s.links.Rings L.head Q)
    (hfits : c.Fits L (s, Q))
    : ∃ s', s.step L readyqueue c = some s' ∧ s'.links.Rings L.head (Q.apply L c) ∧
        ∀ q, ¬c.Touches L Q q → EqOn (L.head q :: Q q) s.links s'.links := by
  cases c with
  | updateProcessStateRr t dstQueue => exact updateProcessStateRr_rings hR hfits dstQueue
  | listAdd new q =>
    obtain ⟨h', hadd, hR', hothers⟩ := listAdd_rings hR hfits q
    exact ⟨{ s with links := h' }, by simp [Lists.step, hadd], hR', hothers⟩
  | listAddTail new q =>
    obtain ⟨h', hadd, hR', hothers⟩ := listAddTail_rings hR hfits q
    exact ⟨{ s with links := h' }, by simp [Lists.step, hadd], hR', hothers⟩
  | listDel entry =>
    obtain ⟨q, hq⟩ := hfits
    obtain ⟨h', hdel, hR', hothers⟩ := listDel_rings hR hq
    refine ⟨{ s with links := h' }, by simp [Lists.step, hdel], hR', ?_⟩
    intro q' hq'
    exact hothers q' fun heq => hq' (heq ▸ hq)
  | listFirst q => exact ⟨s, rfl, hR, fun _ _ => EqOn.refl⟩
  | setEstado t e => exact ⟨s.setEstado t e, rfl, hR, fun _ _ => EqOn.refl⟩

theorem listStep_rings {c : ListCall κ τ α} {x y : ListState κ τ α} (hR : x.1.links.Rings L.head x.2)
    (hfits : c.Fits L x) (hstep : listStep L readyqueue c x = some y)
    : y.1.links.Rings L.head y.2 := by
  obtain ⟨s', hs', hR', -⟩ := step_rings readyqueue hR hfits
  obtain ⟨hs, hQ⟩ := Run.ghost_eq_some.mp hstep
  obtain rfl : s' = y.1 := Option.some.inj (hs'.symm.trans hs)
  rw [hQ]
  exact hR'

theorem sparesOthers_of_rings {c : ListCall κ τ α} {x : ListState κ τ α}
    (hR : x.1.links.Rings L.head x.2) (hfits : c.Fits L x) : c.SparesOthers L readyqueue x := by
  obtain ⟨s', hs', -, hothers⟩ := step_rings readyqueue hR hfits
  refine ⟨(s', x.2.apply L c), Run.ghost_eq_some.mpr ⟨hs', rfl⟩, ?_⟩
  intro q hq
  exact ⟨apply_of_not_touches hq, hothers q hq⟩

/--
From any heap of disjoint rings on, every call of a run returns and spares the rings it does not touch, and
at any time the rings are well formed and read as the sequences, which the calls change as their names say.
-/
theorem lists_refine (L : NodeLayout κ τ α) (readyqueue : κ) {s : Lists τ α} {Q : Sequences κ α}
    (hR : s.links.Rings L.head Q) {cs : List (ListCall κ τ α)}
    (hok : Run.Allowed (listStep L readyqueue) (ListCall.Fits L) cs (s, Q))
    : Run.Allowed (listStep L readyqueue) (ListCall.SparesOthers L readyqueue) cs (s, Q) ∧
        Run.Always (listStep L readyqueue) (ReadsAs L) cs (s, Q) := by
  have hrings : Run.Always (listStep L readyqueue) (fun x => x.1.links.Rings L.head x.2) cs (s, Q) :=
    Run.always_of_step (fun c x y hR hfits hstep => listStep_rings hR hfits hstep) hR hok
  refine ⟨(hrings.allowed.and hok).mono ?_, hrings.mono fun x hR => readsAs_of_rings hR⟩
  intro c x h
  exact sparesOthers_of_rings h.1 h.2

theorem estado_of_updateProcessStateRr {t : τ} {dstQueue : Option κ} {s' : Lists τ α}
    (h : s.updateProcessStateRr L readyqueue t dstQueue = some s')
    : (s'.estado t ≠ .stRun ↔ dstQueue.isSome) ∧ ∀ u ≠ t, s'.estado u = s.estado u := by
  unfold Lists.updateProcessStateRr at h
  obtain ⟨h₁, -, h⟩ := Option.bind_eq_some_iff.mp h
  cases dstQueue with
  | none =>
    cases h
    simp +contextual [Lists.setEstado]
  | some q =>
    obtain ⟨h₂, -, h⟩ := Option.bind_eq_some_iff.mp h
    cases h
    by_cases hq : q = readyqueue
    . simp +contextual [Lists.setEstado, hq]
    . simp +contextual [Lists.setEstado, hq]

theorem Exact.update {t : τ} {dstQueue : Option κ} {x y : ListState κ τ α} (h : Exact L x)
    (hR : x.1.links.Rings L.head x.2)
    (hstep : listStep L readyqueue (.updateProcessStateRr t dstQueue) x = some y) : Exact L y := by
  obtain ⟨hs, hQ⟩ := Run.ghost_eq_some.mp hstep
  obtain ⟨hself, hothers⟩ := estado_of_updateProcessStateRr hs
  intro u
  rw [hQ]
  by_cases hu : u = t
  . subst hu
    rw [hself, member_apply_self hR]
  . rw [hothers u hu, h u, member_apply_of_ne hu]

theorem allowed_of_exact {cs : List (ListCall κ τ α)} {x : ListState κ τ α}
    (hcs : ∀ c ∈ cs, ∃ t dstQueue, c = .updateProcessStateRr t dstQueue) (h : Exact L x)
    (hR : x.1.links.Rings L.head x.2)
    : Run.Allowed (listStep L readyqueue) (ListCall.Fits L) cs x := by
  induction cs generalizing x with
  | nil => trivial
  | cons c cs ih =>
    obtain ⟨t, dstQueue, rfl⟩ := hcs c (by simp)
    have hfits : (ListCall.updateProcessStateRr t dstQueue).Fits L x := h t
    refine ⟨hfits, ?_⟩
    intro y hy
    exact ih (fun c hc => hcs c (by simp [hc])) (h.update hR hy) (listStep_rings hR hfits hy)

end Calls

section Kernel

variable {s : Sys} {Q : Queues}

theorem Sys.lists_setEstado (s : Sys) (t : Slot) (e : Estado)
    : (s.mapKernel fun k => k.setTask t fun ts => { ts with estado := e }).lists =
        s.lists.setEstado t e := by
  have hestado : ∀ u, ((s.toKernel.setTask t fun ts => { ts with estado := e }).task u).estado =
      Function.update (fun u => (s.task u).estado) t e u := by
    intro u
    by_cases hu : u = t
    . subst hu
      simp [Kernel.setTask]
    . simp [Kernel.setTask, hu]
  unfold Sys.lists Lists.setEstado
  simp only [Lists.mk.injEq]
  exact ⟨rfl, funext hestado⟩

/--
On the nodes of the kernel it is the function of `sched.c`.
-/
theorem Sys.lists_updateProcessStateRr (t : Slot) (dstQueue : Option Queue)
    : (s.updateProcessStateRr t dstQueue).map Sys.lists =
        s.lists.updateProcessStateRr kernelLayout .readyqueue t dstQueue := by
  have hleave : (if (s.task t).estado ≠ .stRun then s.mapLinks (listDel (.list t)) else some s) =
      (if (s.task t).estado ≠ .stRun then listDel (.list t) s.links else some s.links).map
        fun links => { s with links := links } := by
    split
    . rfl
    . rfl
  unfold Sys.updateProcessStateRr Lists.updateProcessStateRr
  rw [hleave]
  show _ = Option.bind (if (s.task t).estado ≠ .stRun then listDel (.list t) s.links
    else some s.links) _
  generalize (if (s.task t).estado ≠ .stRun then listDel (.list t) s.links else some s.links) = left
  cases left with
  | none => rfl
  | some h₁ =>
    cases dstQueue with
    | none => exact congrArg some (lists_setEstado _ t _)
    | some q =>
      simp only [Option.map_some, Option.bind_eq_bind, Option.bind_some, Sys.mapLinks]
      show Option.map _ (Option.bind (Option.map _ (listAddTail (.list t) (.head q) h₁)) _) =
        Option.bind (listAddTail (.list t) (.head q) h₁) _
      cases listAddTail (.list t) (.head q) h₁ with
      | none => rfl
      | some h₂ => exact congrArg some (lists_setEstado _ t _)

/--
The lists of the kernel are rings on its nodes, as long as none has been broken up.
-/
theorem Represents.rings (hQ : Represents s.links Q) (hring : ∀ q, Q.shape q = .ring)
    : s.lists.links.Rings kernelLayout.head fun q => (Q.seq q).map .list := by
  constructor
  . intro q
    have hs := hQ.shaped q
    rw [hring q] at hs
    exact hs
  . intro q q' hne z hz hz'
    rcases List.mem_cons.mp hz with rfl | hz
    . rcases List.mem_cons.mp hz' with heq | hz'
      . exact hne (ListHead.head.inj heq)
      . obtain ⟨t, -, ht⟩ := List.mem_map.mp hz'
        cases ht
    . obtain ⟨t, ht, rfl⟩ := List.mem_map.mp hz
      rcases List.mem_cons.mp hz' with heq | hz'
      . cases heq
      . exact hne (hQ.disjoint q q' t ht (map_list_mem.mp hz'))

def emptyLists : Lists Slot ListHead where
  links :=
    { next := fun z => match z with
        | .head q => some (.head q)
        | .list _ => none
      prev := fun z => match z with
        | .head q => some (.head q)
        | .list _ => none }
  estado _ := .stRun

theorem emptyLists_rings : emptyLists.links.Rings kernelLayout.head fun _ => [] := by
  constructor
  . intro q
    exact Ring.nil_iff.mpr ⟨rfl, rfl⟩
  . intro q q' hne z hz hz'
    rw [List.mem_singleton] at hz hz'
    exact hne (ListHead.head.inj (hz.symm.trans hz'))

/--
A run with every call, which ends with task 4 at the head of the ready queue and task 5 behind it.
-/
theorem lists_refine_kernel
    : ∃ cs, Run.Always (listStep kernelLayout .readyqueue) (ReadsAs kernelLayout) cs
          (emptyLists, fun _ => []) ∧
        (Run.run (listStep kernelLayout .readyqueue) cs (emptyLists, fun _ => [])).map
          (fun x => x.2 .readyqueue) = some [.list 4, .list 5] := by
  refine ⟨[.listAdd (.list 4) .freequeue, .listAddTail (.list 5) .freequeue, .listDel (.list 4),
    .listFirst .freequeue, .updateProcessStateRr 4 (some .readyqueue), .setEstado 5 .stReady,
    .updateProcessStateRr 5 (some .readyqueue)], ?_, rfl⟩
  refine (lists_refine kernelLayout .readyqueue emptyLists_rings ?_).2
  decide

end Kernel

end Zeos
