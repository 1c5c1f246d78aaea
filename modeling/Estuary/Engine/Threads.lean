import Mathlib.Algebra.GroupWithZero.Nat
import Mathlib.Algebra.Order.BigOperators.Group.List
import Mathlib.Algebra.Order.Group.Nat

/-!
# Engine — a list of threads

The threads of a program are a list of local states, and a step of one of them replaces its entry.
What the threads hold together is a sum over the list.

* **`sum_map_set`** — a step changes the sum by what the thread that moves changes;
* **`le_sum_map`** — no thread holds more than all of them;
* **`sum_map_eq_zero`** — together they hold nothing exactly when each of them holds nothing.
-/

namespace Engine

variable {τ : Type} {f : τ → Nat} {ts : List τ} {i : Nat} {t : τ}

theorem sum_map_set (h : ts[i]? = some t) (u : τ) :
    ((ts.set i u).map f).sum + f t = (ts.map f).sum + f u := by
  induction ts generalizing i with
  | nil => simp at h
  | cons v ts ih =>
    cases i with
    | zero =>
      simp only [List.getElem?_cons_zero, Option.some.injEq] at h
      subst h
      simp only [List.set_cons_zero, List.map_cons, List.sum_cons]
      omega
    | succ i =>
      simp only [List.getElem?_cons_succ] at h
      have := ih h
      simp only [List.set_cons_succ, List.map_cons, List.sum_cons]
      omega

theorem le_sum_map (h : ts[i]? = some t) : f t ≤ (ts.map f).sum :=
  List.le_sum_of_mem (List.mem_map_of_mem (List.mem_of_getElem? h))

theorem sum_map_eq_zero : (ts.map f).sum = 0 ↔ ∀ (i : Nat) (t : τ), ts[i]? = some t → f t = 0 := by
  rw [List.sum_eq_zero_iff_forall_eq_nat]
  constructor
  · intro h i t hget
    exact h _ (List.mem_map_of_mem (List.mem_of_getElem? hget))
  · intro h n hn
    obtain ⟨t, ht, rfl⟩ := List.mem_map.mp hn
    obtain ⟨i, hget⟩ := List.mem_iff_getElem?.mp ht
    exact h i t hget

end Engine
