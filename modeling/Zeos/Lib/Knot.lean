import Zeos.Lib.Links

/-!
What becomes of a ring when its last member is inserted at the tail a second time: the last link
closes on itself instead of on the head. The list can still be read forwards, and members can still
be taken from its front and put at its back, but it is no ring anymore.
-/

namespace Links

variable {α : Type}

/--
The members `us ++ [l]` are linked forwards from `hd`, but the last link only leads back to `hd` if
`closed`, else to `l` itself. Backwards nothing is promised, except for the first member, which
points to `hd` if `anchored` and to itself otherwise.
-/
structure Knot (h : Links α) (hd : α) (us : List α) (l : α) (closed anchored : Bool) : Prop where
  chain : (hd :: us ++ [l]).IsChain (fun x y => h.next x = some y)
  nodup : (hd :: us ++ [l]).Nodup
  next_last : h.next l = some (if closed then hd else l)
  prev_head : h.prev hd = some l
  prev_first : h.prev (us.head?.getD l) = some (if anchored then hd else us.head?.getD l)

namespace Knot

theorem isChain_next_of_forall {h h' : Links α} {l : List α}
    (H : ∀ a ∈ l.dropLast, h'.next a = h.next a)
    (hc : l.IsChain (fun x y => h.next x = some y)) : l.IsChain (fun x y => h'.next x = some y) := by
  induction hc with
  | nil => exact .nil
  | singleton => exact .singleton _
  | @cons_cons a b l hr _ ih =>
    refine .cons_cons (by rw [H a (by simp)]; exact hr) (ih ?_)
    intro z hz
    exact H z (by simp [hz])

variable {h h' : Links α} {hd n f l : α} {us : List α} {closed anchored : Bool}

theorem next_head (hk : h.Knot hd us l closed anchored) : h.next hd = some (us.head?.getD l) := by
  have hchain := hk.chain
  cases us with
  | nil => simpa using hchain
  | cons u us =>
    simp only [List.cons_append, List.isChain_cons_cons] at hchain
    exact hchain.1

theorem next_head_ne (hk : h.Knot hd us l closed anchored) : h.next hd ≠ some hd := by
  have := hk.nodup
  rw [hk.next_head]
  cases us <;> grind

theorem not_ring (hk : h.Knot hd us l false anchored) (xs : List α) : ¬h.Ring hd xs := by
  intro hr
  have key : ∀ (us : List α) (z : α) (xs : List α),
      (z :: us ++ [l]).IsChain (fun x y => h.next x = some y) → (z :: xs ++ [hd]).IsChain h.Linked →
      hd ∉ us ++ [l] → hd ∉ xs → l ∈ xs := by
    intro us
    induction us with
    | nil =>
      intro z xs hu hx hhd _
      cases xs with
      | nil =>
        simp only [List.cons_append, List.nil_append, List.isChain_cons_cons] at hu hx
        have := hu.1.symm.trans hx.1.1
        simp_all
      | cons x xs =>
        simp only [List.cons_append, List.nil_append, List.isChain_cons_cons] at hu hx
        have := hu.1.symm.trans hx.1.1
        simp_all
    | cons u us ih =>
      intro z xs hu hx hhd hxs
      cases xs with
      | nil =>
        simp only [List.cons_append, List.nil_append, List.isChain_cons_cons] at hu hx
        have := hu.1.symm.trans hx.1.1
        simp_all
      | cons x xs =>
        simp only [List.cons_append, List.isChain_cons_cons] at hu hx
        have heq : u = x := Option.some.inj (hu.1.symm.trans hx.1.1)
        subst heq
        simp only [List.cons_append, List.mem_cons, not_or] at hhd hxs ⊢
        exact .inr (ih u xs hu.2 hx.2 hhd.2 hxs.2)
  have hmem : l ∈ xs := by
    refine key us hd xs hk.chain hr.1 ?_ hr.head_not_mem
    have := hk.nodup
    grind
  obtain ⟨ys, zs, rfl⟩ := List.append_of_mem hmem
  have hnext := hr.next_mem
  have hnodup := hr.2
  rw [hk.next_last] at hnext
  cases zs <;> grind

theorem congr (hk : h.Knot hd us l closed anchored)
    (hnext : ∀ z ∈ hd :: us ++ [l], h'.next z = h.next z)
    (hprev : ∀ z ∈ hd :: us ++ [l], h'.prev z = h.prev z) : h'.Knot hd us l closed anchored := by
  constructor
  . refine isChain_next_of_forall ?_ hk.chain
    intro a ha
    exact hnext a (List.dropLast_subset _ ha)
  . exact hk.nodup
  . rw [hnext l (by simp)]
    exact hk.next_last
  . rw [hprev hd (by simp)]
    exact hk.prev_head
  . rw [hprev _ (by cases us <;> simp)]
    exact hk.prev_first

section Edits

variable [DecidableEq α]

theorem append (hk : h.Knot hd us l false anchored) (hn : n ∉ hd :: us ++ [l])
    : ((((h.setPrev hd n).setNext n hd).setPrev n l).setNext l n).Knot hd (us ++ [l]) n true
        anchored := by
  have hnodup := hk.nodup
  have hnl : n ≠ l := by grind
  have hhd : hd ≠ l ∧ hd ≠ n := by grind
  constructor
  . rw [show hd :: (us ++ [l]) ++ [n] = (hd :: us) ++ l :: n :: [] by simp,
      List.isChain_append_cons_cons]
    refine ⟨?_, by simp, by simp⟩
    refine isChain_next_of_forall ?_ hk.chain
    intro a ha
    have : a ≠ l ∧ a ≠ n := by grind
    simp [this]
  . grind
  . simp [hnl]
  . simp [hhd]
  . have := hk.prev_first
    cases us with
    | nil => simp_all [Ne.symm hnl, Ne.symm hhd.1]
    | cons u us =>
      have : u ≠ n ∧ u ≠ hd := by grind
      simp_all

theorem of_ring (hr : h.Ring hd (us ++ [l]))
    : ((((h.setPrev hd l).setNext l hd).setPrev l l).setNext l l).Knot hd us l false
        (1 < (us ++ [l]).length) := by
  have hnodup := hr.2
  have hhd : hd ≠ l := by grind
  constructor
  . refine isChain_next_of_forall (h := h) ?_ ?_
    . intro a ha
      have : a ≠ l := by grind
      simp [this]
    . have := hr.1
      rw [List.isChain_append] at this
      exact this.1.imp (fun _ _ h => h.1)
  . exact hr.2
  . simp
  . simp [hhd]
  . cases us with
    | nil => simp
    | cons u us =>
      have : u ≠ l ∧ u ≠ hd := by grind
      have hchain := hr.1
      simp only [List.cons_append, List.isChain_cons_cons] at hchain
      simp [this, hchain.1.2]

/--
The second insertion of the last member of a list that was no ring before.
-/
theorem reinsert (hk : h.Knot hd us l true anchored)
    : ((((h.setPrev hd l).setNext l hd).setPrev l l).setNext l l).Knot hd us l false
        (anchored && 1 < (us ++ [l]).length) := by
  have hnodup := hk.nodup
  have hhd : hd ≠ l := by grind
  constructor
  . refine isChain_next_of_forall ?_ hk.chain
    intro a ha
    have : a ≠ l := by grind
    simp [this]
  . exact hk.nodup
  . simp
  . simp [hhd]
  . cases us with
    | nil => simp
    | cons u us =>
      have : u ≠ l ∧ u ≠ hd := by grind
      have := hk.prev_first
      simp_all

theorem erase_first (hk : h.Knot hd (f :: us) l false true)
    : ((h.setPrev (us.head?.getD l) hd).setNext hd (us.head?.getD l)).Knot hd us l false true := by
  have hnodup := hk.nodup
  have hchain := hk.chain
  have hhd : hd ≠ l := by grind
  constructor
  . cases us with
    | nil => simp
    | cons u us =>
      simp only [List.cons_append, List.isChain_cons_cons] at hchain ⊢
      refine ⟨by simp, isChain_next_of_forall ?_ hchain.2.2⟩
      intro a ha
      have : a ≠ hd := by grind
      simp [this]
  . grind
  . simp [Ne.symm hhd, hk.next_last]
  . have : hd ≠ us.head?.getD l := by cases us <;> grind
    simp [this, hk.prev_head]
  . simp

end Edits

end Knot

/-- How the members of a list are linked. -/
inductive Shape
  /-- The head has not been initialised. -/
  | unset
  | ring
  | knot (closed anchored : Bool)
  deriving DecidableEq, Repr

namespace Shape

def append : Shape → Shape
  | .unset => .unset
  | .ring => .ring
  | .knot _ anchored => .knot true anchored

/-- The last one of `n` members is inserted at the tail once more. -/
def again (n : Nat) : Shape → Shape
  | .unset => .unset
  | .ring => .knot false (1 < n)
  | .knot _ anchored => .knot false (anchored && 1 < n)

end Shape

def Shaped (h : Links α) (hd : α) (xs : List α) : Shape → Prop
  | .unset => xs = []
  | .ring => h.Ring hd xs
  | .knot closed anchored => ∃ us l, xs = us ++ [l] ∧ h.Knot hd us l closed anchored

def EqOff (zs : List α) (h h' : Links α) : Prop :=
  ∀ z ∉ zs, h'.next z = h.next z ∧ h'.prev z = h.prev z

namespace Shaped

variable {h h' : Links α} {hd : α} {xs : List α} {shape : Shape}

theorem nodup (hs : h.Shaped hd xs shape) : xs.Nodup := by
  cases shape with
  | unset => rw [show xs = [] from hs]; exact .nil
  | ring => exact Ring.nodup hs
  | knot closed anchored =>
    obtain ⟨us, l, rfl, hk⟩ := hs
    exact (List.nodup_cons.mp hk.nodup).2

theorem congr (hs : h.Shaped hd xs shape) (hnext : ∀ z ∈ hd :: xs, h'.next z = h.next z)
    (hprev : ∀ z ∈ hd :: xs, h'.prev z = h.prev z) : h'.Shaped hd xs shape := by
  cases shape with
  | unset => exact hs
  | ring => exact Ring.congr hs hnext hprev
  | knot closed anchored =>
    obtain ⟨us, l, rfl, hk⟩ := hs
    exact ⟨us, l, rfl, hk.congr hnext hprev⟩

theorem next_head (hs : h.Shaped hd xs shape) (hset : shape ≠ .unset)
    : h.next hd = some (xs.head?.getD hd) := by
  cases shape with
  | unset => exact absurd rfl hset
  | ring => exact Ring.next_head hs
  | knot closed anchored =>
    obtain ⟨us, l, rfl, hk⟩ := hs
    rw [hk.next_head]
    cases us <;> simp

theorem next_head_eq_self_iff (hs : h.Shaped hd xs shape) (hset : shape ≠ .unset)
    : h.next hd = some hd ↔ xs = [] := by
  cases shape with
  | unset => exact absurd rfl hset
  | ring => exact Ring.next_head_eq_self_iff hs
  | knot closed anchored =>
    obtain ⟨us, l, rfl, hk⟩ := hs
    simp [hk.next_head_ne]

theorem of_first_ne_self {n : α} {anchored : Bool} (hs : h.Shaped hd (n :: xs) (.knot false anchored))
    (hnext : h.next n ≠ some n) (hprev : h.prev n ≠ some n) : anchored = true ∧ xs ≠ [] := by
  obtain ⟨us, l, heq, hk⟩ := hs
  cases us with
  | nil =>
    rw [List.nil_append, List.cons_eq_cons] at heq
    obtain ⟨rfl, rfl⟩ := heq
    exact absurd hk.next_last hnext
  | cons u us =>
    rw [List.cons_append, List.cons_eq_cons] at heq
    obtain ⟨rfl, rfl⟩ := heq
    cases anchored with
    | true => exact ⟨rfl, by simp⟩
    | false => exact absurd hk.prev_first hprev

end Shaped

end Links
