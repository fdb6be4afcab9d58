import Mathlib.Data.Option.Basic

/-!
`while` loops whose bodies may fault, and the rules to show that they are left and with what.
-/

namespace Loop

variable {σ τ : Type}

/--
After `n` rounds the condition fails, and the loop is left in `s'`.
-/
inductive Exits (cond : σ → Prop) (body : σ → Option σ) : Nat → σ → σ → Prop
  | done {s : σ} (h : ¬cond s) : Exits cond body 0 s s
  | again {n : Nat} {s s₁ s' : σ} (h : cond s) (hbody : body s = some s₁)
      (hrest : Exits cond body n s₁ s') : Exits cond body (n + 1) s s'

/--
The loop, which is given up as a fault when it is not left after `fuel` rounds.
-/
def run (cond : σ → Prop) [DecidablePred cond] (body : σ → Option σ) (fuel : Nat) (s : σ)
    : Option σ :=
  match fuel with
  | 0 => if cond s then none else some s
  | fuel + 1 => if cond s then (body s).bind (run cond body fuel) else some s

variable {cond : σ → Prop} {body : σ → Option σ} {n : Nat} {s s' : σ}

theorem Exits.not_cond (h : Exits cond body n s s') : ¬cond s' := by
  induction h with
  | done h => exact h
  | again h hbody hrest ih => exact ih

/--
A loop whose rounds keep `I` and make the measure `f` smaller is left, with `I` true.
-/
theorem exits_of_invariant {I : σ → Prop} (f : σ → Nat)
    (hbody : ∀ s, I s → cond s → ∃ s₁, body s = some s₁ ∧ I s₁ ∧ f s₁ < f s) (h : I s)
    : ∃ n ≤ f s, ∃ s', Exits cond body n s s' ∧ I s' := by
  induction hf : f s using Nat.strongRecOn generalizing s with
  | _ k ih =>
    subst hf
    by_cases hs : cond s
    . obtain ⟨s₁, hs₁, hI, hlt⟩ := hbody s h hs
      obtain ⟨n, hn, s', hexits, hI'⟩ := ih (f s₁) hlt hI rfl
      exact ⟨n + 1, by omega, s', .again hs hs₁ hexits, hI'⟩
    . exact ⟨0, by omega, s, .done hs, h⟩

theorem Exits.rounds_le (f : σ → Nat) (hbody : ∀ s s₁, cond s → body s = some s₁ → f s₁ < f s)
    (h : Exits cond body n s s') : n ≤ f s := by
  induction h with
  | done hs => omega
  | again hs hs₁ hrest ih =>
    have := hbody _ _ hs hs₁
    omega

theorem Exits.map {cond' : τ → Prop} {body' : τ → Option τ} (g : σ → τ)
    (hcond : ∀ s, cond' (g s) ↔ cond s)
    (hbody : ∀ s s₁, body s = some s₁ → body' (g s) = some (g s₁)) (h : Exits cond body n s s')
    : Exits cond' body' n (g s) (g s') := by
  induction h with
  | done hs => exact .done ((hcond _).not.mpr hs)
  | again hs hs₁ hrest ih => exact .again ((hcond _).mpr hs) (hbody _ _ hs₁) ih

theorem run_eq_some_iff [DecidablePred cond] {fuel : Nat}
    : run cond body fuel s = some s' ↔ ∃ n ≤ fuel, Exits cond body n s s' := by
  induction fuel generalizing s with
  | zero =>
    unfold run
    constructor
    . intro h
      split at h
      next hs => cases h
      next hs =>
        cases h
        exact ⟨0, by omega, .done hs⟩
    . intro ⟨n, hn, h⟩
      cases h with
      | done hs => exact if_neg hs
      | again => omega
  | succ fuel ih =>
    unfold run
    constructor
    . intro h
      split at h
      next hs =>
        obtain ⟨s₁, hs₁, h⟩ := Option.bind_eq_some_iff.mp h
        obtain ⟨n, hn, h⟩ := ih.mp h
        exact ⟨n + 1, by omega, .again hs hs₁ h⟩
      next hs =>
        cases h
        exact ⟨0, by omega, .done hs⟩
    . intro ⟨n, hn, h⟩
      cases h with
      | done hs => exact if_neg hs
      | again hs hs₁ hrest =>
        rw [if_pos hs, hs₁, Option.bind_some]
        exact ih.mpr ⟨_, by omega, hrest⟩

theorem run_map [DecidablePred cond] {cond' : τ → Prop} [DecidablePred cond'] {body' : τ → Option τ}
    {fuel : Nat} (g : σ → τ) (hcond : ∀ s, cond' (g s) ↔ cond s)
    (hbody : ∀ s s₁, body s = some s₁ → body' (g s) = some (g s₁))
    (h : run cond body fuel s = some s') : run cond' body' fuel (g s) = some (g s') := by
  obtain ⟨n, hn, hexits⟩ := run_eq_some_iff.mp h
  exact run_eq_some_iff.mpr ⟨n, hn, hexits.map g hcond hbody⟩

end Loop
