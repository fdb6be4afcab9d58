import Mathlib.Data.List.Basic

/-!
Runs of a partial, deterministic step function over a list of events, and the rules that carry a
property of single steps to a whole run.
-/

namespace Run

variable {ε σ : Type} (step : ε → σ → Option σ)

def run : List ε → σ → Option σ
  | [], s => some s
  | e :: es, s => (step e s).bind (run es)

/--
`P` holds in every state the run passes through, the first and the last one included.
-/
def Always (P : σ → Prop) : List ε → σ → Prop
  | [], s => P s
  | e :: es, s => P s ∧ ∀ s', step e s = some s' → Always P es s'

/--
Every event of the run meets `ok` in the state it is taken in.
-/
def Allowed (ok : ε → σ → Prop) : List ε → σ → Prop
  | [], _ => True
  | e :: es, s => ok e s ∧ ∀ s', step e s = some s' → Allowed ok es s'

/--
The same steps, while `upd` keeps a record of them.
-/
def ghost {γ : Type} (upd : ε → σ → σ → γ → γ) (e : ε) (x : σ × γ) : Option (σ × γ) :=
  (step e x.1).map fun s => (s, upd e x.1 s x.2)

section Decidable

variable {step} {P : σ → Prop} {ok : ε → σ → Prop}

instance decidableAlways [DecidablePred P] : ∀ es s, Decidable (Always step P es s)
  | [], s => inferInstanceAs (Decidable (P s))
  | e :: es, s =>
    have : DecidablePred (Always step P es) := decidableAlways es
    inferInstanceAs (Decidable (P s ∧ ∀ s' ∈ step e s, Always step P es s'))

instance decidableAllowed [∀ e s, Decidable (ok e s)] : ∀ es s, Decidable (Allowed step ok es s)
  | [], _ => isTrue trivial
  | e :: es, s =>
    have : DecidablePred (Allowed step ok es) := decidableAllowed es
    inferInstanceAs (Decidable (ok e s ∧ ∀ s' ∈ step e s, Allowed step ok es s'))

end Decidable

variable {step} {P Q : σ → Prop} {ok ok' : ε → σ → Prop} {es : List ε} {s s' : σ}

@[simp]
theorem run_cons {e : ε} : run step (e :: es) s = (step e s).bind (run step es) := by
  rfl

theorem ghost_eq_some {γ : Type} {upd : ε → σ → σ → γ → γ} {e : ε} {x y : σ × γ}
    : ghost step upd e x = some y ↔ step e x.1 = some y.1 ∧ y.2 = upd e x.1 y.1 x.2 := by
  simp only [ghost, Option.map_eq_some_iff]
  constructor
  . rintro ⟨s, hs, rfl⟩
    exact ⟨hs, rfl⟩
  . rintro ⟨hs, hy⟩
    exact ⟨y.1, hs, by rw [← hy]⟩

theorem ghost_map {γ δ : Type} {upd : ε → σ → σ → γ → γ} {upd' : ε → σ → σ → δ → δ} (f : γ → δ)
    (hf : ∀ e s s' g, f (upd e s s' g) = upd' e s s' (f g)) {e : ε} {x y : σ × γ}
    (h : ghost step upd e x = some y) : ghost step upd' e (x.1, f x.2) = some (y.1, f y.2) := by
  obtain ⟨hstep, hrecord⟩ := ghost_eq_some.mp h
  rw [ghost_eq_some]
  exact ⟨hstep, by rw [hrecord, hf]⟩

theorem map_fst_run_ghost {γ : Type} {upd : ε → σ → σ → γ → γ} {x : σ × γ}
    : (run (ghost step upd) es x).map Prod.fst = run step es x.1 := by
  induction es generalizing x with
  | nil => rfl
  | cons e es ih =>
    rw [run_cons, run_cons, ghost]
    cases step e x.1 with
    | none => rfl
    | some s => exact ih

theorem Always.head (h : Always step P es s) : P s := by
  cases es with
  | nil => exact h
  | cons e es => exact h.1

theorem Always.last (h : Always step P es s) (hrun : run step es s = some s') : P s' := by
  induction es generalizing s with
  | nil =>
    cases hrun
    exact h
  | cons e es ih =>
    obtain ⟨t, ht, hrun⟩ := Option.bind_eq_some_iff.mp hrun
    exact ih (h.2 t ht) hrun

theorem Always.mono (hPQ : ∀ s, P s → Q s) (h : Always step P es s) : Always step Q es s := by
  induction es generalizing s with
  | nil => exact hPQ s h
  | cons e es ih => exact ⟨hPQ s h.1, fun t ht => ih (h.2 t ht)⟩

theorem allowed_of_forall (h : ∀ e ∈ es, ∀ s, ok e s) : Allowed step ok es s := by
  induction es generalizing s with
  | nil => trivial
  | cons e es ih =>
    exact ⟨h e (by simp) s, fun t _ => ih (fun e' he' => h e' (by simp [he']))⟩

theorem Allowed.mono (hok : ∀ e s, ok e s → ok' e s) (h : Allowed step ok es s)
    : Allowed step ok' es s := by
  induction es generalizing s with
  | nil => trivial
  | cons e es ih => exact ⟨hok e s h.1, fun t ht => ih (h.2 t ht)⟩

theorem Allowed.and (h : Allowed step ok es s) (h' : Allowed step ok' es s)
    : Allowed step (fun e s => ok e s ∧ ok' e s) es s := by
  induction es generalizing s with
  | nil => trivial
  | cons e es ih => exact ⟨⟨h.1, h'.1⟩, fun t ht => ih (h.2 t ht) (h'.2 t ht)⟩

theorem allowed_iff_allowed {I : σ → Prop} (hiff : ∀ e s, I s → (ok e s ↔ ok' e s))
    (hstep : ∀ e s s', I s → ok' e s → step e s = some s' → I s') (h : I s)
    : Allowed step ok es s ↔ Allowed step ok' es s := by
  induction es generalizing s with
  | nil => exact Iff.rfl
  | cons e es ih =>
    constructor
    . rintro ⟨hok, hrest⟩
      have hok' := (hiff e s h).mp hok
      exact ⟨hok', fun t ht => (ih (hstep e s t h hok' ht)).mp (hrest t ht)⟩
    . rintro ⟨hok', hrest⟩
      exact ⟨(hiff e s h).mpr hok', fun t ht => (ih (hstep e s t h hok' ht)).mpr (hrest t ht)⟩

theorem Always.allowed (h : Always step P es s) : Allowed step (fun _ s => P s) es s := by
  induction es generalizing s with
  | nil => trivial
  | cons e es ih => exact ⟨h.1, fun t ht => ih (h.2 t ht)⟩

/--
What every allowed step preserves holds all along an allowed run.
-/
theorem always_of_step (hstep : ∀ e s s', P s → ok e s → step e s = some s' → P s')
    (h : P s) (hok : Allowed step ok es s) : Always step P es s := by
  induction es generalizing s with
  | nil => exact h
  | cons e es ih => exact ⟨h, fun t ht => ih (hstep e s t h hok.1 ht) (hok.2 t ht)⟩

/--
Along a run that is taken to its end, `P` holds all the time just if no event of it is one that breaks
`P`.
-/
theorem always_iff_forall {I : σ → Prop} {ok : ε → Prop} (hP : ∀ s, I s → P s)
    (hstep : ∀ e ∈ es, ∀ s s', I s → ok e → step e s = some s' → I s')
    (hbad : ∀ e ∈ es, ∀ s s', I s → ¬ok e → step e s = some s' → ¬P s') (h : I s)
    (hrun : (run step es s).isSome) : Always step P es s ↔ ∀ e ∈ es, ok e := by
  induction es generalizing s with
  | nil => simpa [Always] using hP s h
  | cons e es ih =>
    obtain ⟨t, hrun⟩ := Option.isSome_iff_exists.mp hrun
    obtain ⟨s', hs', hrun⟩ := Option.bind_eq_some_iff.mp hrun
    have htail : I s' → (Always step P es s' ↔ ∀ e ∈ es, ok e) := by
      intro h'
      apply ih
      . exact fun e he => hstep e (by simp [he])
      . exact fun e he => hbad e (by simp [he])
      . exact h'
      . simp [hrun]
    constructor
    . intro halways
      have hok : ok e := by
        by_contra hok
        exact hbad e (by simp) s s' h hok hs' (halways.2 s' hs').head
      have hrest := (htail (hstep e (by simp) s s' h hok hs')).mp (halways.2 s' hs')
      intro e' he'
      rcases List.mem_cons.mp he' with rfl | he'
      . exact hok
      . exact hrest e' he'
    . intro hok
      refine ⟨hP s h, ?_⟩
      intro u hu
      rw [hs'] at hu
      cases hu
      exact (htail (hstep e (by simp) s s' h (hok e (by simp)) hs')).mpr
        (fun e' he' => hok e' (by simp [he']))

/--
If an event that is not allowed breaks `P` at once, the runs along which `P` holds are the allowed ones.
-/
theorem always_iff_allowed {I : σ → Prop} (hP : ∀ s, I s → P s)
    (hstep : ∀ e s s', I s → ok e s → step e s = some s' → I s')
    (hbad : ∀ e s, I s → ¬ok e s → ∃ s', step e s = some s' ∧ ¬P s') (h : I s)
    : Always step P es s ↔ Allowed step ok es s := by
  constructor
  . intro halways
    induction es generalizing s with
    | nil => trivial
    | cons e es ih =>
      have hok : ok e s := by
        by_contra hok
        obtain ⟨s', hs', hP'⟩ := hbad e s h hok
        exact hP' (halways.2 s' hs').head
      exact ⟨hok, fun t ht => ih (hstep e s t h hok ht) (halways.2 t ht)⟩
  . intro hok
    exact (always_of_step hstep h hok).mono hP

end Run
