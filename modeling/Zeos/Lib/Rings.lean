import Mathlib.Logic.Function.Basic
import Zeos.Lib.Knot

/-!
Several rings in one heap, and the sequence that is read off when one follows the pointers of a ring.
-/

namespace Links

variable {α κ : Type} {h h' : Links α} {hd n x : α} {xs ys : List α}

section Walk

variable [DecidableEq α]

/--
The nodes that are met from `x` on along `ptr`, until `hd` is. The pointers are followed `fuel` times at most.
-/
def walk (ptr : α → Option α) (hd : α) (fuel : Nat) (x : α) : Option (List α) :=
  match fuel with
  | 0 => none
  | fuel + 1 => (ptr x).bind fun y => if y = hd then some [] else (walk ptr hd fuel y).map (y :: ·)

theorem walk_of_isChain {ptr : α → Option α} {fuel : Nat}
    (hc : (x :: xs ++ [hd]).IsChain fun a b => ptr a = some b) (hd' : hd ∉ xs)
    (hfuel : xs.length < fuel) : walk ptr hd fuel x = some xs := by
  induction xs generalizing x fuel with
  | nil =>
    obtain ⟨fuel, rfl⟩ : ∃ k, fuel = k + 1 := ⟨fuel - 1, by omega⟩
    have hx : ptr x = some hd := by simpa using hc
    unfold walk
    rw [hx, Option.bind_some, if_pos rfl]
  | cons y ys ih =>
    obtain ⟨fuel, rfl⟩ : ∃ k, fuel = k + 1 := ⟨fuel - 1, by omega⟩
    rw [List.length_cons] at hfuel
    rw [List.mem_cons, not_or] at hd'
    simp only [List.cons_append, List.isChain_cons_cons] at hc
    unfold walk
    rw [hc.1, Option.bind_some, if_neg (Ne.symm hd'.1), ih hc.2 hd'.2 (by omega), Option.map_some]

end Walk

def flip (h : Links α) : Links α :=
  { next := h.prev, prev := h.next }

namespace Ring

theorem flip (hr : h.Ring hd xs) : h.flip.Ring hd xs.reverse := by
  constructor
  . have hreverse : hd :: xs.reverse ++ [hd] = (hd :: xs ++ [hd]).reverse := by simp
    rw [hreverse, List.isChain_reverse]
    exact hr.1.imp fun a b hab => ⟨hab.2, hab.1⟩
  . rw [List.nodup_cons, List.mem_reverse, List.nodup_reverse]
    exact List.nodup_cons.mp hr.2

variable [DecidableEq α]

theorem walk_next (hr : h.Ring hd xs) {fuel : Nat} (hfuel : xs.length < fuel)
    : walk h.next hd fuel hd = some xs := by
  exact walk_of_isChain (hr.1.imp fun a b hab => hab.1) hr.head_not_mem hfuel

theorem walk_prev (hr : h.Ring hd xs) {fuel : Nat} (hfuel : xs.length < fuel)
    : walk h.prev hd fuel hd = some xs.reverse := by
  exact hr.flip.walk_next (by rwa [List.length_reverse])

end Ring

/--
There is a ring on every head, and no node is part of two of them.
-/
structure Rings (h : Links α) (head : κ → α) (seq : κ → List α) : Prop where
  ring : ∀ k, h.Ring (head k) (seq k)
  disjoint : ∀ k k', k ≠ k' → ∀ z ∈ head k :: seq k, z ∉ head k' :: seq k'

theorem EqOff.mono {zs zs' : List α} (heq : EqOff zs h h') (hsub : ∀ z ∈ zs, z ∈ zs')
    : EqOff zs' h h' := by
  intro z hz
  exact heq z (fun hmem => hz (hsub z hmem))

def EqOn (zs : List α) (h h' : Links α) : Prop :=
  ∀ z ∈ zs, h'.next z = h.next z ∧ h'.prev z = h.prev z

theorem EqOn.refl {zs : List α} : EqOn zs h h := by
  intro z hz
  exact ⟨rfl, rfl⟩

theorem EqOn.trans {zs : List α} {h'' : Links α} (h₁ : EqOn zs h h') (h₂ : EqOn zs h' h'')
    : EqOn zs h h'' := by
  intro z hz
  exact ⟨(h₂ z hz).1.trans (h₁ z hz).1, (h₂ z hz).2.trans (h₁ z hz).2⟩

namespace Rings

variable {head : κ → α} {seq : κ → List α} {k k' : κ}

theorem eq_of_mem (hR : h.Rings head seq) (hn : n ∈ seq k) (hn' : n ∈ seq k') : k = k' := by
  by_contra hne
  exact hR.disjoint k k' hne n (List.mem_cons_of_mem _ hn) (List.mem_cons_of_mem _ hn')

theorem head_not_mem (hR : h.Rings head seq) : head k ∉ seq k' := by
  intro hmem
  by_cases hkk : k = k'
  . subst hkk
    exact (hR.ring k).head_not_mem hmem
  . exact hR.disjoint k k' hkk (head k) List.mem_cons_self (List.mem_cons_of_mem _ hmem)

variable [DecidableEq κ]

/--
The frame rule: an edit of one ring, which may take in nodes that are in no ring, leaves the others as they
are.
-/
theorem edit (hR : h.Rings head seq) (hring : h'.Ring (head k) ys)
    (hfresh : ∀ y ∈ ys, y ∈ seq k ∨ ∀ k', y ∉ head k' :: seq k')
    (heq : EqOff (head k :: (ys ++ seq k)) h h')
    : h'.Rings head (Function.update seq k ys) ∧ ∀ k' ≠ k, EqOn (head k' :: seq k') h h' := by
  have hapart : ∀ k' ≠ k, ∀ z ∈ head k' :: seq k', z ∉ head k :: (ys ++ seq k) := by
    intro k' hne z hz hmem
    have hz' := hR.disjoint k' k hne z hz
    rw [List.mem_cons, not_or] at hz'
    rw [List.mem_cons, List.mem_append] at hmem
    rcases hmem with hmem | hmem | hmem
    . exact hz'.1 hmem
    . rcases hfresh z hmem with hin | hout
      . exact hz'.2 hin
      . exact hout k' hz
    . exact hz'.2 hmem
  have hothers : ∀ k' ≠ k, EqOn (head k' :: seq k') h h' := by
    intro k' hne z hz
    exact heq z (hapart k' hne z hz)
  refine ⟨⟨?_, ?_⟩, hothers⟩
  . intro k'
    by_cases hk : k' = k
    . subst hk
      rw [Function.update_self]
      exact hring
    . rw [Function.update_of_ne hk]
      exact (hR.ring k').congr (fun z hz => (hothers k' hk z hz).1)
        (fun z hz => (hothers k' hk z hz).2)
  . have hys : ∀ z ∈ head k :: ys, z ∈ head k :: (ys ++ seq k) := by
      intro z hz
      rw [List.mem_cons] at hz ⊢
      exact hz.imp id (List.mem_append_left _)
    intro k₁ k₂ hne z h₁ h₂
    by_cases hk₁ : k₁ = k
    . subst hk₁
      rw [Function.update_self] at h₁
      rw [Function.update_of_ne (Ne.symm hne)] at h₂
      exact hapart k₂ (Ne.symm hne) z h₂ (hys z h₁)
    . rw [Function.update_of_ne hk₁] at h₁
      by_cases hk₂ : k₂ = k
      . subst hk₂
        rw [Function.update_self] at h₂
        exact hapart k₁ hne z h₁ (hys z h₂)
      . rw [Function.update_of_ne hk₂] at h₂
        exact hR.disjoint k₁ k₂ hne z h₁ h₂

end Rings

end Links
