import Estuary.Engine.Retry

/-!
# Engine — two executions side by side

A property of two runs ("what differs does not show") is proved by going through both programs
together. `Rel p R x y` says that the executions `x` and `y` log the same among the actions that
`p` lets through, and end alike, what they return being related by `R`.

* **`rel_pure`**, **`Rel.bind`**, **`rel_bind_same`**, **`rel_ite`** — the rules for programs of the
  same shape;
* **`rel_of_silent`** — what only one of the two does, as long as it does not show;
* **`rel_retryLoop`** — loops that try again.
-/

namespace Engine

namespace Exec

variable {ε δ α β γ κ : Type}

/-- Two outcomes alike, up to a relation on the values that are returned. -/
inductive OutcomeRel (R : α → β → Prop) : Outcome δ α → Outcome δ β → Prop where
  | done {a : α} {b : β} (h : R a b) : OutcomeRel R (.done a) (.done b)
  | dead (d : δ) : OutcomeRel R (.dead d) (.dead d)
  | pending : OutcomeRel R .pending .pending

/-- The executions show the same and end alike. -/
structure Rel (p : ε → Bool) (R : α → β → Prop) (x : Exec ε δ α) (y : Exec ε δ β) : Prop where
  log : x.log.filter p = y.log.filter p
  out : OutcomeRel R x.out y.out

variable {p : ε → Bool}

theorem rel_pure {R : α → β → Prop} {a : α} {b : β} (h : R a b) :
    Rel p R (pure a : Exec ε δ α) (pure b : Exec ε δ β) :=
  ⟨rfl, .done h⟩

/-- An execution is like itself. -/
theorem rel_refl (x : Exec ε δ α) : Rel p Eq x x := by
  refine ⟨rfl, ?_⟩
  cases x.out with
  | done a => exact .done rfl
  | dead d => exact .dead d
  | pending => exact .pending

/-- The sequencing rule. -/
theorem Rel.bind {R : α → β → Prop} {S : γ → κ → Prop} {x : Exec ε δ α} {y : Exec ε δ β}
    {f : α → Exec ε δ γ} {g : β → Exec ε δ κ} (h : Rel p R x y)
    (hf : ∀ a b, R a b → Rel p S (f a) (g b)) : Rel p S (x >>= f) (y >>= g) := by
  obtain ⟨hlog, hout⟩ := h
  generalize hx : x.out = ox at hout
  generalize hy : y.out = oy at hout
  cases hout with
  | done hR =>
    have hrest := hf _ _ hR
    rw [bind_of_done hx, bind_of_done hy]
    refine ⟨?_, hrest.out⟩
    rw [List.filter_append, List.filter_append, hlog, hrest.log]
  | dead d =>
    rw [bind_of_dead hx, bind_of_dead hy]
    exact ⟨hlog, .dead d⟩
  | pending =>
    rw [bind_of_pending hx, bind_of_pending hy]
    exact ⟨hlog, .pending⟩

/-- Sequencing after a first half that both have in common. -/
theorem rel_bind_same {S : γ → κ → Prop} {x : Exec ε δ α} {f : α → Exec ε δ γ}
    {g : α → Exec ε δ κ} (hf : ∀ a, x.out = .done a → Rel p S (f a) (g a)) :
    Rel p S (x >>= f) (x >>= g) := by
  cases hx : x.out with
  | done a =>
    rw [bind_of_done hx, bind_of_done hx]
    refine ⟨?_, (hf a hx).out⟩
    rw [List.filter_append, List.filter_append, (hf a hx).log]
  | dead d =>
    rw [bind_of_dead hx, bind_of_dead hx]
    exact ⟨rfl, .dead d⟩
  | pending =>
    rw [bind_of_pending hx, bind_of_pending hx]
    exact ⟨rfl, .pending⟩

/-- A test that comes out the same on both sides. -/
theorem rel_ite {R : α → β → Prop} {c : Prop} [Decidable c] {x x' : Exec ε δ α}
    {y y' : Exec ε δ β} (h : Rel p R x y) (h' : Rel p R x' y') :
    Rel p R (if c then x else x') (if c then y else y') := by
  split
  · exact h
  · exact h'

/-- Executions that show nothing and return. -/
theorem rel_of_silent {R : α → β → Prop} {x : Exec ε δ α} {y : Exec ε δ β} {a : α} {b : β}
    (hx : x.Logs fun e => p e = false) (hxout : x.out = .done a)
    (hy : y.Logs fun e => p e = false) (hyout : y.out = .done b) (h : R a b) : Rel p R x y := by
  have hxlog : x.log.filter p = [] := List.filter_eq_nil_iff.mpr fun e he => by simp [hx e he]
  have hylog : y.log.filter p = [] := List.filter_eq_nil_iff.mpr fun e he => by simp [hy e he]
  refine ⟨by rw [hxlog, hylog], ?_⟩
  rw [hxout, hyout]
  exact .done h

/-- Two loops whose attempts are alike, and that try again in the same cases. -/
theorem rel_retryLoop {σ τ : Type} {R : σ → τ → Prop} {round : Nat → σ → Exec ε δ σ}
    {round' : Nat → τ → Exec ε δ τ} {again : σ → Bool} {again' : τ → Bool}
    (hround : ∀ i s t, R s t → Rel p R (round i s) (round' i t))
    (hagain : ∀ s t, R s t → again s = again' t) (budget i : Nat) {s : σ} {t : τ} (h : R s t) :
    Rel p R (retryLoop round again budget i s) (retryLoop round' again' budget i t) := by
  induction budget generalizing i s t with
  | zero => exact hround i s t h
  | succ budget ih =>
    refine (hround i s t h).bind fun s' t' h' => ?_
    rw [hagain s' t' h']
    exact rel_ite (ih (i + 1) h') (rel_pure h')

end Exec

end Engine
