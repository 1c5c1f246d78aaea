import Estuary.Engine.Exec

/-!
# Engine — loops that ask, and go on with the answer

A client loop asks its environment for something, looks at the answer, and either asks again in a
new state or leaves. `answered step l s` is such a loop on the answers `l`, one for each time round,
`step` being the body; out of answers, it waits. Whether the loop ends at all is then a question
about a whole schedule of answers, and it is settled by what the loop carries from one time round
to the next:

* **`Turned l s log t`** — the loop asks again after each of the answers `l`, which lead from state
  `s` to state `t`, and `log` is what it did;
* **`Turned.invariant`** — what every time round keeps holds whenever the loop asks;
* **`answered_pending_iff`** — a body that does not wait itself leaves the loop waiting exactly in
  such states, and **`answered_append`** — a loop that is over looks at no further answer;
* **`exists_calls`** — if the loop never asks for answer number `bound`, it ends, after a number of
  calls that the schedule determines.
-/

namespace Engine

open Exec

variable {α β ε δ σ : Type} (step : α → σ → Exec ε δ (σ ⊕ β))

/-- Go round with one answer after the other, until the body leaves with a result. -/
def answered : List α → σ → Exec ε δ β
  | [], _ => wait
  | a :: as, s => do
    match ← step a s with
    | .inl t => answered as t
    | .inr b => pure b

/-- Every one of these answers makes the loop ask again; it goes from the first state to the second
and logs this. -/
inductive Turned : List α → σ → List ε → σ → Prop where
  | refl (s : σ) : Turned [] s [] s
  | turn {a : α} {as : List α} {s t u : σ} {log : List ε}
      (hstep : (step a s).out = .done (.inl t)) (rest : Turned as t log u) :
      Turned (a :: as) s ((step a s).log ++ log) u

variable {step}

/-! ## Once round -/

theorem answered_again {a : α} {as : List α} {s t : σ} (h : (step a s).out = .done (.inl t)) :
    answered step (a :: as) s
      = ⟨(step a s).log ++ (answered step as t).log, (answered step as t).out⟩ := by
  rw [answered, bind_of_done h]

theorem answered_leave {a : α} {as : List α} {s : σ} {b : β}
    (h : (step a s).out = .done (.inr b)) :
    answered step (a :: as) s = ⟨(step a s).log, .done b⟩ := by
  rw [answered, bind_of_done h]
  simp only [pure_log, pure_out, List.append_nil]

/-- A loop that returned has got an answer to its first question. -/
theorem first_of_answered {a : α} {as : List α} {s : σ} {b : β}
    (h : (answered step (a :: as) s).out = .done b) : ∃ r, (step a s).out = .done r := by
  rw [answered] at h
  obtain ⟨r, hr, -⟩ := bind_out_done.mp h
  exact ⟨r, hr⟩

/-! ## From one question to the next -/

namespace Turned

/-- What every time round that is followed by another one keeps, of the answers so far, the log so
far and the state, holds whenever the loop asks. -/
theorem invariant {I : List α → List ε → σ → Prop}
    (hI : ∀ as a log s t, I as log s → (step a s).out = .done (.inl t) →
      I (as ++ [a]) (log ++ (step a s).log) t)
    {l before : List α} {log done : List ε} {s t : σ} (h : Turned step l s log t)
    (hs : I before done s) : I (before ++ l) (done ++ log) t := by
  induction h generalizing before done with
  | refl s => rwa [List.append_nil, List.append_nil]
  | @turn a as s t u log hstep _ ih =>
    have hnext := ih (hI before a done s t hs hstep)
    rwa [List.append_assoc, List.append_assoc, List.singleton_append] at hnext

/-- Entries of which every time round logs exactly one count the answers. -/
theorem countP {p : ε → Bool}
    (hone : ∀ a s r, (step a s).out = .done r → (step a s).log.countP p = 1)
    {l : List α} {log : List ε} {s t : σ} (h : Turned step l s log t) :
    log.countP p = l.length := by
  have hround : ∀ as a log s t, log.countP p = as.length → (step a s).out = .done (.inl t) →
      (log ++ (step a s).log).countP p = (as ++ [a]).length := by
    intro as a log s t hs hstep
    rw [List.countP_append, hs, hone a s _ hstep, List.length_append, List.length_singleton]
  exact @invariant _ _ _ _ _ step (fun as log _ => log.countP p = as.length) hround l [] log [] s t
    h rfl

/-- The loop goes on from the state in which it asks. -/
theorem goes_on {l : List α} {log : List ε} {s t : σ} (h : Turned step l s log t)
    (more : List α) :
    answered step (l ++ more) s
      = ⟨log ++ (answered step more t).log, (answered step more t).out⟩ := by
  induction h with
  | refl s => rfl
  | turn hstep _ ih => rw [List.cons_append, answered_again hstep, ih, List.append_assoc]

end Turned

/-! ## Waiting, and being over -/

/-- **The loop waits** exactly where it asks again after every answer there is. -/
theorem answered_pending_iff (hstep : ∀ a s, (step a s).out ≠ .pending) {l : List α} {s : σ} :
    (answered step l s).out = .pending ↔ ∃ log t, Turned step l s log t := by
  constructor
  · intro h
    induction l generalizing s with
    | nil => exact ⟨[], s, .refl s⟩
    | cons a l ih =>
      cases hout : (step a s).out with
      | done r =>
        cases r with
        | inl t =>
          rw [answered_again hout] at h
          obtain ⟨log, u, hrest⟩ := ih h
          exact ⟨_, u, .turn hout hrest⟩
        | inr b =>
          rw [answered_leave hout] at h
          cases h
      | dead d =>
        rw [answered, bind_of_dead hout] at h
        cases h
      | pending => exact absurd hout (hstep a s)
  · rintro ⟨log, t, h⟩
    have hgo := h.goes_on []
    rw [List.append_nil] at hgo
    rw [hgo]
    rfl

/-- **A loop that is over** looks at no further answer. -/
theorem answered_append {l : List α} {s : σ} (h : (answered step l s).out ≠ .pending)
    (more : List α) : answered step (l ++ more) s = answered step l s := by
  induction l generalizing s with
  | nil => exact absurd rfl h
  | cons a l ih =>
    rw [List.cons_append]
    cases hout : (step a s).out with
    | done r =>
      cases r with
      | inl t =>
        rw [answered_again hout] at h
        rw [answered_again hout, answered_again hout, ih h]
      | inr b => rw [answered_leave hout, answered_leave hout]
    | dead d => rw [answered, answered, bind_of_dead hout, bind_of_dead hout]
    | pending => rw [answered, answered, bind_of_pending hout, bind_of_pending hout]

/-- A loop whose body always returns has returned when it is over. -/
theorem answered_returns {l : List α} {s : σ} (hstep : ∀ a ∈ l, ∀ s, (step a s).Returns)
    (h : (answered step l s).out ≠ .pending) : (answered step l s).Returns := by
  induction l generalizing s with
  | nil => exact absurd rfl h
  | cons a l ih =>
    obtain ⟨r, hout⟩ := hstep a (List.mem_cons_self ..) s
    cases r with
    | inl t =>
      rw [answered_again hout] at h ⊢
      exact ih (fun a' ha' => hstep a' (List.mem_cons_of_mem _ ha')) h
    | inr b =>
      rw [answered_leave hout]
      exact returns_of_done rfl

/-- The log of a loop that returned on its last answer counts its calls. -/
theorem answered_countP {p : ε → Bool} (hstep : ∀ a s, (step a s).out ≠ .pending)
    (hone : ∀ a s r, (step a s).out = .done r → (step a s).log.countP p = 1)
    {l : List α} {a : α} {s : σ} (hpending : (answered step l s).out = .pending)
    (hreturns : (answered step (l ++ [a]) s).Returns) :
    (answered step (l ++ [a]) s).log.countP p = l.length + 1 := by
  obtain ⟨log, t, hturned⟩ := (answered_pending_iff hstep).mp hpending
  rw [hturned.goes_on [a]] at hreturns ⊢
  obtain ⟨b, hb⟩ := hreturns
  obtain ⟨r, hr, hleft⟩ := bind_out_done.mp hb
  rw [List.countP_append, hturned.countP hone, answered, bind_log_of_done hr, List.countP_append,
    hone a t r hr]
  cases r with
  | inl u => cases hleft
  | inr b' => rfl

/-! ## A schedule of answers -/

/-- The first `k` answers of a schedule. -/
def upTo (answers : Nat → α) (k : Nat) : List α := (List.range k).map answers

@[simp] theorem upTo_length (answers : Nat → α) (k : Nat) : (upTo answers k).length = k := by
  rw [upTo, List.length_map, List.length_range]

theorem upTo_succ (answers : Nat → α) (k : Nat) :
    upTo answers (k + 1) = upTo answers k ++ [answers k] := by
  rw [upTo, List.range_succ, List.map_append]
  rfl

theorem upTo_add (answers : Nat → α) (j k : Nat) :
    upTo answers (j + k) = upTo answers j ++ upTo (fun i => answers (j + i)) k := by
  rw [upTo, List.range_add, List.map_append, List.map_map]
  rfl

theorem mem_upTo {answers : Nat → α} {k : Nat} {a : α} (h : a ∈ upTo answers k) :
    ∃ i < k, answers i = a := by
  obtain ⟨i, hi, ha⟩ := List.mem_map.mp h
  exact ⟨i, List.mem_range.mp hi, ha⟩

/-- From where the loop is over, its run is the same for every longer part of the schedule. -/
theorem answered_upTo {answers : Nat → α} {s : σ} {j k : Nat} (hle : j ≤ k)
    (h : (answered step (upTo answers j) s).out ≠ .pending) :
    answered step (upTo answers k) s = answered step (upTo answers j) s := by
  obtain ⟨i, rfl⟩ := Nat.exists_eq_add_of_le hle
  rw [upTo_add, answered_append h]

/-- **A loop that never asks for answer number `bound` ends**: from some number of calls on, at most
`bound`, it is over, and before that it asks. -/
theorem exists_calls {answers : Nat → α} {s : σ} {bound : Nat}
    (h : ∀ k, (answered step (upTo answers k) s).out = .pending → k < bound) :
    ∃ calls ≤ bound, (∀ k < calls, (answered step (upTo answers k) s).out = .pending)
      ∧ ∀ k ≥ calls, (answered step (upTo answers k) s).out ≠ .pending
        ∧ answered step (upTo answers k) s = answered step (upTo answers calls) s := by
  induction bound with
  | zero => exact absurd (h 0 rfl) (Nat.lt_irrefl 0)
  | succ bound ih =>
    by_cases hlast : (answered step (upTo answers bound) s).out = .pending
    · -- it asks for the last answer it may ask for, and so for all answers before
      have hover : (answered step (upTo answers (bound + 1)) s).out ≠ .pending :=
        fun hp => Nat.lt_irrefl _ (h _ hp)
      refine ⟨bound + 1, Nat.le_refl _, fun k hk => ?_, fun k hk => ?_⟩
      · by_contra hend
        rw [answered_upTo (Nat.le_of_lt_succ hk) hend] at hlast
        exact hend hlast
      · have hsame := answered_upTo hk hover
        exact ⟨hsame ▸ hover, hsame⟩
    · obtain ⟨calls, hle, hcalls⟩ := ih fun k hk => by
        have hlt := h k hk
        have hne : k ≠ bound := fun heq => hlast (heq ▸ hk)
        omega
      exact ⟨calls, Nat.le_succ_of_le hle, hcalls⟩

end Engine
