import Estuary.Engine.Exec

/-!
# Engine — loops that try again

`retryLoop round again` makes round after round on a state it passes along, `again` deciding from
the state a round leaves whether there is another one, `budget` of them at most. A round says
itself what it carries over and what it resets, so the interesting question is always the same:
in which state is the next attempt made?

* **`Retried i s l j t`** — the rounds from `i` up to `j` were all followed by another attempt, they
  lead from state `s` to state `t`, and `l` is their log;
* **`Retried.invariant`** — what every round keeps holds before every attempt;
* **`mem_retryLoop_log`** — whatever the loop does it does in an attempt made in such a state;
* **`retryLoop_last`** — a loop that returned made its last round in such a state;
* **`retryLoop_of_retried`** — and every such state within the budget is one the loop gets to.
-/

namespace Engine

open Exec

variable {ε δ σ : Type} (round : Nat → σ → Exec ε δ σ) (again : σ → Bool)

/-- Round `i` on `s`, and further rounds while `again` asks for them and the budget allows it. -/
def retryLoop : Nat → Nat → σ → Exec ε δ σ
  | 0, i, s => round i s
  | budget + 1, i, s => do
    let t ← round i s
    if again t then retryLoop budget (i + 1) t else pure t

/-- Attempt `j` is made on `t`, after attempts `i` to `j - 1` that began with `s` and logged `l`. -/
inductive Retried : Nat → σ → List ε → Nat → σ → Prop where
  | refl (i : Nat) (s : σ) : Retried i s [] i s
  | step {i j : Nat} {s t u : σ} {l : List ε} (hround : (round i s).out = .done t)
      (hagain : again t = true) (rest : Retried (i + 1) t l j u) :
      Retried i s ((round i s).log ++ l) j u

variable {round again}

namespace Retried

/-- One attempt that is followed by another one. -/
theorem one {i : Nat} {s t : σ} {l : List ε} (h : round i s = ⟨l, .done t⟩)
    (hagain : again t = true) : Retried round again i s l (i + 1) t := by
  have hstep : Retried round again i s ((round i s).log ++ []) (i + 1) t :=
    .step (by rw [h]) hagain (.refl _ _)
  rwa [h, List.append_nil] at hstep

theorem le {i j : Nat} {s t : σ} {l : List ε} (h : Retried round again i s l j t) : i ≤ j := by
  induction h with
  | refl i s => exact Nat.le_refl i
  | step _ _ _ ih => omega

/-- What every round that is followed by another one keeps, of the number of the attempt, the log
so far and the state, holds before every attempt. -/
theorem invariant {I : Nat → List ε → σ → Prop}
    (hI : ∀ i l s t, I i l s → (round i s).out = .done t → again t = true →
      I (i + 1) (l ++ (round i s).log) t)
    {i j : Nat} {s t : σ} {l k : List ε} (h : Retried round again i s l j t) (hs : I i k s) :
    I j (k ++ l) t := by
  induction h generalizing k with
  | refl i s => rwa [List.append_nil]
  | step hround hagain _ ih =>
    rw [← List.append_assoc]
    exact ih (hI _ _ _ _ hs hround hagain)

end Retried

/-- **The last round** of a loop that returned. -/
theorem retryLoop_last {budget i : Nat} {s u : σ}
    (h : (retryLoop round again budget i s).out = .done u) :
    ∃ j t l, Retried round again i s l j t ∧ j ≤ i + budget ∧ (round j t).out = .done u
      ∧ (retryLoop round again budget i s).log = l ++ (round j t).log := by
  induction budget generalizing i s with
  | zero => exact ⟨i, s, [], .refl i s, Nat.le_refl i, h, rfl⟩
  | succ budget ih =>
    rw [retryLoop] at h ⊢
    obtain ⟨t, ht, hrest⟩ := bind_out_done.mp h
    rw [bind_log_of_done ht]
    by_cases hagain : again t = true
    · rw [if_pos hagain] at hrest ⊢
      obtain ⟨j, v, l, hretried, hj, hround, hlog⟩ := ih hrest
      refine ⟨j, v, (round i s).log ++ l, .step ht hagain hretried, by omega, hround, ?_⟩
      rw [hlog, List.append_assoc]
    · rw [if_neg hagain] at hrest ⊢
      cases hrest
      exact ⟨i, s, [], .refl i s, by omega, ht, by simp⟩

/-- What every attempt keeps holds of what the loop returns. -/
theorem retryLoop_keeps {I : σ → Prop}
    (hI : ∀ i s t, I s → (round i s).out = .done t → I t) {budget i : Nat} {s u : σ} (hs : I s)
    (h : (retryLoop round again budget i s).out = .done u) : I u := by
  obtain ⟨j, t, l, hretried, -, hround, -⟩ := retryLoop_last h
  have ht : I t := hretried.invariant (I := fun _ _ s => I s) (k := [])
    (fun _ _ _ _ hs hround _ => hI _ _ _ hs hround) hs
  exact hI j t u ht hround

/-- What every attempt logs. -/
theorem logs_retryLoop {p : ε → Prop} (h : ∀ i s, (round i s).Logs p) (budget i : Nat) (s : σ) :
    (retryLoop round again budget i s).Logs p := by
  induction budget generalizing i s with
  | zero => exact h i s
  | succ budget ih => exact (h i s).bind fun t _ => logs_ite (ih (i + 1) t) (logs_pure t p)

/-- A loop all of whose attempts return returns. -/
theorem retryLoop_returns (h : ∀ i s, (round i s).Returns) (budget i : Nat) (s : σ) :
    (retryLoop round again budget i s).Returns := by
  induction budget generalizing i s with
  | zero => exact h i s
  | succ budget ih =>
    exact returns_bind.mpr ⟨h i s, fun t _ => returns_ite (ih (i + 1) t) (returns_pure t)⟩

/-- **The loop gets to every retried state** within its budget. -/
theorem retryLoop_of_retried {i j : Nat} {s t : σ} {l : List ε}
    (h : Retried round again i s l j t) {budget : Nat} (hj : j ≤ i + budget) :
    retryLoop round again budget i s
      = ⟨l ++ (retryLoop round again (i + budget - j) j t).log,
        (retryLoop round again (i + budget - j) j t).out⟩ := by
  induction h generalizing budget with
  | refl i s =>
    rw [Nat.add_sub_cancel_left]
    rfl
  | @step i j s t u l hround hagain rest ih =>
    have hle := rest.le
    obtain ⟨budget, rfl⟩ : ∃ b, budget = b + 1 := ⟨budget - 1, by omega⟩
    rw [retryLoop, bind_of_done hround, if_pos hagain, ih (by omega),
      show i + 1 + budget - j = i + (budget + 1) - j from by omega, List.append_assoc]

end Engine
