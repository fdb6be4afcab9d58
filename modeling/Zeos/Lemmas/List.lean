import Zeos.Spec.Queues

/-!
`list.c` does on the heap what its names say on sequences: each operation takes a heap that represents
some sequences to one that represents the changed ones.
-/

namespace Zeos

open Links

section Generic

variable {α : Type} [DecidableEq α] {h : Links α} {hd n : α} {xs ys : List α}

theorem initListHead_ring : (initListHead hd h).Ring hd [] := by
  simp [Ring.nil_iff, initListHead]

theorem initListHead_eqOff : EqOff [hd] h (initListHead hd h) := by
  intro z hz
  have : z ≠ hd := by simpa using hz
  simp [initListHead, this]

theorem listAddBetween_eq (p x : α)
    : listAddBetween n (some p) (some x) h =
        some ((((h.setPrev x n).setNext n x).setPrev n p).setNext p n) := by
  rfl

theorem insert_eqOff (p x : α)
    : EqOff [p, n, x] h ((((h.setPrev x n).setNext n x).setPrev n p).setNext p n) := by
  intro z hz
  simp only [List.mem_cons, List.not_mem_nil, or_false, not_or] at hz
  simp [hz]

theorem listAddTail_shaped {shape : Shape} (hs : h.Shaped hd xs shape) (hn : n ∉ hd :: xs)
    (hshape : shape = .ring ∨ ∃ anchored, shape = .knot false anchored)
    : ∃ h', listAddTail n hd h = some h' ∧ h'.Shaped hd (xs ++ [n]) shape.append ∧
        EqOff (hd :: n :: xs) h h' := by
  obtain ⟨p, hp, hmem⟩ : ∃ p, h.prev hd = some p ∧ p ∈ hd :: xs := by
    rcases hshape with rfl | ⟨anchored, rfl⟩
    . refine ⟨_, Ring.prev_head hs, ?_⟩
      rcases List.eq_nil_or_concat xs with rfl | ⟨ys, y, rfl⟩ <;> simp
    . obtain ⟨us, l, rfl, hk⟩ := hs
      exact ⟨l, hk.prev_head, by simp⟩
  unfold listAddTail
  rw [hp, listAddBetween_eq]
  refine ⟨_, rfl, ?_, ?_⟩
  . rcases hshape with rfl | ⟨anchored, rfl⟩
    . have hr : h.Ring hd (xs ++ []) := by
        rw [List.append_nil]
        exact hs
      refine Ring.insert hr (by simpa using hn) ?_ rfl
      rw [Ring.prev_head hs, Option.some.injEq] at hp
      rcases List.eq_nil_or_concat xs with rfl | ⟨ys, y, rfl⟩
      . simpa using hp
      . simp only [List.concat_eq_append, List.getLast?_concat, Option.getD_some] at hp
        subst hp
        rw [List.concat_eq_append, ← List.cons_append, List.getLast?_concat]
    . obtain ⟨us, l, rfl, hk⟩ := hs
      rw [hk.prev_head, Option.some.injEq] at hp
      subst hp
      exact ⟨us ++ [l], n, rfl, hk.append hn⟩
  . intro z hz
    refine insert_eqOff p hd z ?_
    simp only [List.mem_cons, not_or, List.not_mem_nil, or_false] at hz hmem ⊢
    refine ⟨?_, hz.2.1, hz.1⟩
    rintro rfl
    rcases hmem with rfl | hmem
    . exact hz.1 rfl
    . exact hz.2.2 hmem

theorem listAddTail_again {shape : Shape} (hs : h.Shaped hd (xs ++ [n]) shape)
    (hshape : shape = .ring ∨ ∃ anchored, shape = .knot true anchored)
    : ∃ h', listAddTail n hd h = some h' ∧
        h'.Shaped hd (xs ++ [n]) (shape.again (xs ++ [n]).length) ∧
        EqOff (hd :: xs ++ [n]) h h' := by
  have hp : h.prev hd = some n := by
    rcases hshape with rfl | ⟨anchored, rfl⟩
    . simpa using Ring.prev_head hs
    . obtain ⟨us, l, heq, hk⟩ := hs
      obtain ⟨rfl, rfl⟩ := List.append_inj' heq rfl |>.imp id List.singleton_inj.mp
      exact hk.prev_head
  unfold listAddTail
  rw [hp, listAddBetween_eq]
  refine ⟨_, rfl, ?_, ?_⟩
  . rcases hshape with rfl | ⟨anchored, rfl⟩
    . exact ⟨xs, n, rfl, Knot.of_ring hs⟩
    . obtain ⟨us, l, heq, hk⟩ := hs
      obtain ⟨rfl, rfl⟩ := List.append_inj' heq rfl |>.imp id List.singleton_inj.mp
      exact ⟨xs, n, rfl, hk.reinsert⟩
  . intro z hz
    refine insert_eqOff n hd z ?_
    simp only [List.cons_append, List.mem_cons, List.mem_append, List.not_mem_nil, or_false,
      not_or] at hz ⊢
    exact ⟨hz.2.2, hz.2.2, hz.1⟩

theorem listAdd_ring (hr : h.Ring hd xs) (hn : n ∉ hd :: xs)
    : ∃ h', listAdd n hd h = some h' ∧ h'.Ring hd (n :: xs) ∧ EqOff (hd :: n :: xs) h h' := by
  unfold listAdd
  rw [hr.next_head, listAddBetween_eq]
  refine ⟨_, rfl, ?_, ?_⟩
  . have hr' : h.Ring hd ([] ++ xs) := hr
    refine Ring.insert hr' (by simpa using hn) rfl ?_
    cases xs <;> rfl
  . intro z hz
    refine insert_eqOff hd _ z ?_
    simp only [List.mem_cons, List.not_mem_nil, or_false, not_or] at hz ⊢
    refine ⟨hz.1, hz.2.1, ?_⟩
    cases xs with
    | nil => exact hz.1
    | cons x xs =>
      rintro rfl
      simp at hz

theorem listDel_eq {p x : α} (hp : h.prev n = some p) (hx : h.next n = some x)
    : listDel n h = some ((((h.setPrev x p).setNext p x).setNext n none).setPrev n none) := by
  unfold listDel
  rw [hp, hx]
  rfl

theorem erase_eqOff (p x : α)
    : EqOff [p, x, n] h ((((h.setPrev x p).setNext p x).setNext n none).setPrev n none) := by
  intro z hz
  simp only [List.mem_cons, List.not_mem_nil, or_false, not_or] at hz
  simp [hz]

theorem listDel_ring (hr : h.Ring hd (xs ++ n :: ys))
    : ∃ h', listDel n h = some h' ∧ h'.Ring hd (xs ++ ys) ∧ EqOff (hd :: (xs ++ n :: ys)) h h' := by
  obtain ⟨us, p, hus⟩ := (List.eq_nil_or_concat (hd :: xs)).resolve_left (by simp)
  obtain ⟨x, vs, hvs⟩ := List.exists_cons_of_ne_nil (l := ys ++ [hd]) (by simp)
  have hp : (hd :: xs).getLast? = some p := by simp [hus]
  have hx : (ys ++ [hd]).head? = some x := by simp [hvs]
  have hpmem : p ∈ hd :: xs := List.mem_of_getLast? hp
  have hxmem : x ∈ ys ++ [hd] := List.mem_of_head? hx
  refine ⟨_, listDel_eq (hr.prev_mem.trans hp) (hr.next_mem.trans hx), ?_, ?_⟩
  . have hn : n ∉ hd :: (xs ++ ys) := by
      have := hr.2
      grind
    refine Ring.congr (hr.erase hp hx) ?_ ?_
    . intro z hz
      have : z ≠ n := fun heq => hn (heq ▸ hz)
      simp [this]
    . intro z hz
      have : z ≠ n := fun heq => hn (heq ▸ hz)
      simp [this]
  . intro z hz
    refine erase_eqOff p x z ?_
    grind

theorem erase_append_cons (hnodup : (xs ++ n :: ys).Nodup) : (xs ++ n :: ys).erase n = xs ++ ys := by
  have hn : n ∉ xs := by grind
  rw [List.erase_append_right _ hn, List.erase_cons_head]

theorem listDel_knot {us : List α} {l : α} (hk : h.Knot hd (n :: us) l false true)
    : ∃ h', listDel n h = some h' ∧ h'.Knot hd us l false true ∧
        EqOff (hd :: (n :: us ++ [l])) h h' := by
  have hp : h.prev n = some hd := hk.prev_first
  have hx : h.next n = some (us.head?.getD l) := by
    have hchain := hk.chain
    cases us with
    | nil => simp_all
    | cons u us => simp_all
  have hxmem : us.head?.getD l ∈ us ++ [l] := by cases us <;> simp
  refine ⟨_, listDel_eq hp hx, ?_, ?_⟩
  . have hn : n ∉ hd :: us ++ [l] := by
      have := hk.nodup
      grind
    refine hk.erase_first.congr ?_ ?_
    . intro z hz
      have : z ≠ n := fun heq => hn (heq ▸ hz)
      simp [this]
    . intro z hz
      have : z ≠ n := fun heq => hn (heq ▸ hz)
      simp [this]
  . intro z hz
    refine erase_eqOff hd _ z ?_
    grind

theorem prev_head_of_listDel {h' : Links α} (hne : n ≠ hd) (hdel : listDel n h = some h')
    (hempty : listEmpty hd h = false) (hhead : h'.next hd = some hd) : h'.prev hd = some hd := by
  unfold listDel listDelBetween at hdel
  obtain ⟨h₁, hbetween, rfl⟩ := Option.map_eq_some_iff.mp hdel
  obtain ⟨x, hx, hbetween⟩ := Option.bind_eq_some_iff.mp hbetween
  obtain ⟨p, hp, rfl⟩ := Option.map_eq_some_iff.mp hbetween
  have hne' : ¬hd = n := fun heq => hne heq.symm
  simp only [next_setPrev, next_setNext, prev_setPrev, prev_setNext, if_neg hne'] at hhead ⊢
  simp only [listEmpty, decide_eq_false_iff_not] at hempty
  split at hhead
  next heq =>
    have hx' : hd = x := (Option.some.inj hhead).symm
    rw [if_pos hx', hp, heq]
  next => contradiction

theorem listEmpty_listAddTail {h' : Links α} (hne : n ≠ hd) (hadd : listAddTail n hd h = some h')
    (hhead : h.next hd = some hd → h.prev hd = some hd) : listEmpty hd h' = false := by
  unfold listAddTail listAddBetween at hadd
  obtain ⟨p, hp, rfl⟩ := Option.map_eq_some_iff.mp hadd
  have hne' : ¬hd = n := fun heq => hne heq.symm
  simp only [listEmpty, next_setPrev, next_setNext, if_neg hne', decide_eq_false_iff_not]
  split
  next => simpa using hne
  next hp' =>
    intro hnext
    rw [hhead hnext] at hp
    exact hp' (Option.some.inj hp)

end Generic

section Represents

variable {h h' : Links ListHead} {Q : Queues} {q q' : Queue} {t u : Slot}

theorem map_list_mem {ts : List Slot} : ListHead.list t ∈ ts.map ListHead.list ↔ t ∈ ts := by
  simp

namespace Represents

theorem nodup (hQ : Represents h Q) : (Q.seq q).Nodup :=
  List.Nodup.of_map _ (hQ.shaped q).nodup

theorem set (hQ : Represents h Q) {ts : List Slot} {shape : Shape}
    (hs : h'.Shaped (.head q) (ts.map .list) shape)
    (heq : EqOff (.head q :: (ts ++ Q.seq q).map .list) h h')
    (hts : ∀ t ∈ ts, t ∈ Q.seq q ∨ ¬Q.Linked t) : Represents h' (Q.set q ts shape) := by
  have hother : ∀ q' ≠ q, ∀ t ∈ Q.seq q', t ∉ ts ++ Q.seq q := by
    intro q' hne t ht hmem
    rcases List.mem_append.mp hmem with hmem | hmem
    . rcases hts t hmem with hin | hnot
      . exact hne (hQ.disjoint q' q t ht hin)
      . exact hnot ⟨q', ht⟩
    . exact hne (hQ.disjoint q' q t ht hmem)
  constructor
  . intro q'
    simp only [Queues.seq_set, Queues.shape_set]
    split
    next h =>
      subst h
      exact hs
    next hne =>
      have hoff : ∀ z ∈ ListHead.head q' :: (Q.seq q').map .list,
          z ∉ ListHead.head q :: (ts ++ Q.seq q).map .list := by
        intro z hz hmem
        rcases List.mem_cons.mp hz with rfl | hz
        . simp [hne] at hmem
        . obtain ⟨t, ht, rfl⟩ := List.mem_map.mp hz
          rcases List.mem_cons.mp hmem with hmem | hmem
          . cases hmem
          . exact hother q' hne t ht (map_list_mem.mp hmem)
      exact (hQ.shaped q').congr (fun z hz => (heq z (hoff z hz)).1)
        (fun z hz => (heq z (hoff z hz)).2)
  . intro q₁ q₂ t h₁ h₂
    simp only [Queues.seq_set] at h₁ h₂
    by_cases hq₁ : q₁ = q <;> by_cases hq₂ : q₂ = q
    . rw [hq₁, hq₂]
    . rw [if_pos hq₁] at h₁
      rw [if_neg hq₂] at h₂
      exact absurd (List.mem_append_left _ h₁) (hother q₂ hq₂ t h₂)
    . rw [if_neg hq₁] at h₁
      rw [if_pos hq₂] at h₂
      exact absurd (List.mem_append_left _ h₂) (hother q₁ hq₁ t h₁)
    . rw [if_neg hq₁] at h₁
      rw [if_neg hq₂] at h₂
      exact hQ.disjoint q₁ q₂ t h₁ h₂

theorem initListHead (hQ : Represents h Q) (hempty : Q.seq q = [])
    : Represents (Zeos.initListHead (.head q) h) (Q.init q) := by
  refine hQ.set initListHead_ring ?_ (by simp)
  intro z hz
  rw [hempty] at hz
  exact initListHead_eqOff z (by simpa using hz)

theorem listEmpty_iff (hQ : Represents h Q) (hset : Q.shape q ≠ .unset)
    : listEmpty (.head q) h = true ↔ Q.seq q = [] := by
  unfold listEmpty
  rw [decide_eq_true_iff, (hQ.shaped q).next_head_eq_self_iff hset, List.map_eq_nil_iff]

theorem firstTask_eq (hQ : Represents h Q) (hset : Q.shape q ≠ .unset)
    : firstTask q h = (Q.seq q).head? := by
  unfold firstTask listFirst
  rw [(hQ.shaped q).next_head hset]
  cases Q.seq q <;> rfl

theorem not_mem_map (hfree : ¬Q.Linked t)
    : ListHead.list t ∉ ListHead.head q :: (Q.seq q).map ListHead.list := by
  simp only [List.mem_cons, reduceCtorEq, map_list_mem, false_or]
  exact fun hmem => hfree ⟨q, hmem⟩

theorem listAddTail (hQ : Represents h Q) (hfree : ¬Q.Linked t)
    (hshape : Q.shape q = .ring ∨ ∃ anchored, Q.shape q = .knot false anchored)
    : ∃ h', Zeos.listAddTail (.list t) (.head q) h = some h' ∧ Represents h' (Q.append t q) := by
  obtain ⟨h', hadd, hs, heq⟩ := listAddTail_shaped (hQ.shaped q) (not_mem_map hfree) hshape
  refine ⟨h', hadd, hQ.set (by simpa using hs) ?_ ?_⟩
  . intro z hz
    refine heq z ?_
    simp only [List.mem_cons, List.map_append, List.mem_append, List.map_cons, List.map_nil,
      List.not_mem_nil, or_false, not_or] at hz ⊢
    exact ⟨hz.1, hz.2.1.2, hz.2.2⟩
  . intro u hu
    rcases List.mem_append.mp hu with hu | hu
    . exact .inl hu
    . rw [List.mem_singleton] at hu
      subst hu
      exact .inr hfree

theorem listAddTail_again (hQ : Represents h Q) {ts : List Slot} (hlast : Q.seq q = ts ++ [t])
    (hshape : Q.shape q = .ring ∨ ∃ anchored, Q.shape q = .knot true anchored)
    : ∃ h', Zeos.listAddTail (.list t) (.head q) h = some h' ∧ Represents h' (Q.again q) := by
  have hs := hQ.shaped q
  rw [hlast, List.map_append, List.map_singleton] at hs
  obtain ⟨h', hadd, hs, heq⟩ := Zeos.listAddTail_again hs hshape
  refine ⟨h', hadd, hQ.set ?_ ?_ (fun t ht => .inl ht)⟩
  . rw [hlast]
    simpa using hs
  . intro z hz
    refine heq z ?_
    rw [hlast] at hz
    simp only [List.mem_cons, List.map_append, List.mem_append, List.map_cons, List.map_nil,
      List.not_mem_nil, or_false, not_or, List.cons_append] at hz ⊢
    exact ⟨hz.1, hz.2.2⟩

theorem listAdd (hQ : Represents h Q) (hfree : ¬Q.Linked t) (hshape : Q.shape q = .ring)
    : ∃ h', Zeos.listAdd (.list t) (.head q) h = some h' ∧ Represents h' (Q.push t q) := by
  have hs := hQ.shaped q
  rw [hshape] at hs
  obtain ⟨h', hadd, hs, heq⟩ := listAdd_ring hs (not_mem_map hfree)
  refine ⟨h', hadd, hQ.set ?_ ?_ ?_⟩
  . rw [hshape]
    exact hs
  . intro z hz
    refine heq z ?_
    simp only [List.mem_cons, List.map_append, List.mem_append, List.map_cons, not_or] at hz ⊢
    exact ⟨hz.1, hz.2.1.1, hz.2.2⟩
  . intro u hu
    rcases List.mem_cons.mp hu with rfl | hu
    . exact .inr hfree
    . exact .inl hu

/--
The member of one list is no member of another, so taking it out of one takes it out of all.
-/
theorem remove_eq_set (hQ : Represents h Q) (ht : t ∈ Q.seq q)
    : Q.remove t = Q.set q ((Q.seq q).erase t) (Q.shape q) := by
  have hseq : (fun q' => (Q.seq q').erase t) = fun q' => if q' = q then (Q.seq q).erase t else Q.seq q' := by
    funext q'
    split
    next h => rw [h]
    next hne => exact List.erase_of_not_mem (fun ht' => hne (hQ.disjoint q' q t ht' ht))
  have hshape : Q.shape = fun q' => if q' = q then Q.shape q else Q.shape q' := by
    funext q'
    split
    next h => rw [h]
    next => rfl
  simp only [Queues.remove, Queues.set, hseq, ← hshape]

theorem listDel (hQ : Represents h Q) (ht : t ∈ Q.seq q) (hshape : Q.shape q = .ring)
    : ∃ h', Zeos.listDel (.list t) h = some h' ∧ Represents h' (Q.remove t) := by
  obtain ⟨us, vs, hts⟩ := List.append_of_mem ht
  have hs := hQ.shaped q
  rw [hshape, hts, List.map_append, List.map_cons] at hs
  obtain ⟨h', hdel, hs, heq⟩ := listDel_ring hs
  have herase : (Q.seq q).erase t = us ++ vs := by
    have hnodup := hQ.nodup (q := q)
    rw [hts] at hnodup ⊢
    exact erase_append_cons hnodup
  refine ⟨h', hdel, ?_⟩
  rw [hQ.remove_eq_set ht, herase, hshape]
  refine hQ.set ?_ ?_ ?_
  . rw [List.map_append]
    exact hs
  . intro z hz
    refine heq z ?_
    rw [hts] at hz
    simp only [List.mem_cons, List.map_append, List.mem_append, List.map_cons, not_or] at hz ⊢
    exact ⟨hz.1, hz.2.2⟩
  . intro u hu
    rw [hts]
    simp only [List.mem_append, List.mem_cons] at hu ⊢
    tauto

theorem listDel_first (hQ : Represents h Q) {ts : List Slot} (hts : Q.seq q = t :: ts)
    (hne : ts ≠ []) (hshape : Q.shape q = .knot false true)
    : ∃ h', Zeos.listDel (.list t) h = some h' ∧ Represents h' (Q.remove t) := by
  have hs := hQ.shaped q
  rw [hshape, hts] at hs
  obtain ⟨us, l, hmap, hk⟩ := hs
  obtain ⟨us, rfl⟩ : ∃ us', us = ListHead.list t :: us' := by
    cases us with
    | nil => simp_all
    | cons u us =>
      simp only [List.map_cons, List.cons_append, List.cons.injEq] at hmap
      exact ⟨us, by rw [hmap.1]⟩
  simp only [List.map_cons, List.cons_append, List.cons.injEq, true_and] at hmap
  obtain ⟨h', hdel, hk, heq⟩ := listDel_knot hk
  refine ⟨h', hdel, ?_⟩
  rw [hQ.remove_eq_set (q := q) (by rw [hts]; simp), hshape]
  refine hQ.set ?_ ?_ ?_
  . rw [hts, List.erase_cons_head]
    exact ⟨us, l, hmap, hk⟩
  . intro z hz
    refine heq z ?_
    rw [hts] at hz
    simp only [List.erase_cons_head, List.map_append, hmap, List.map_cons] at hz
    grind
  . intro u hu
    exact .inl (List.mem_of_mem_erase hu)

theorem copyList (hQ : Represents h Q) (hfree : ¬Q.Linked t)
    : Represents (Zeos.copyList u t h) Q := by
  constructor
  . intro q
    have hne : ∀ z ∈ ListHead.head q :: (Q.seq q).map .list, z ≠ .list t := by
      rintro z hz rfl
      exact not_mem_map hfree hz
    refine (hQ.shaped q).congr ?_ ?_
    . intro z hz
      simp [Zeos.copyList, hne z hz]
    . intro z hz
      simp [Zeos.copyList, hne z hz]
  . exact hQ.disjoint

end Represents

theorem represents_zero : Represents zeroLinks .zero where
  shaped _ := rfl
  disjoint _ _ _ h _ := by cases h

end Represents

end Zeos
