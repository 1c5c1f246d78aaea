import Mathlib.Data.List.Basic

/-!
# Engine — guarded runs of a partial transition function

A system is a partial transition function `step : σ → α → Option σ`: `none` means that the
action is not possible in that state. A run is a list of actions taken one after the other.

* **`Run step G s as s'`** — the actions `as` lead from `s` to `s'`, and every one of them
  was taken in a state that meets the guard `G`;
* **`Run.invariant`** — an invariant that holds at the start and is kept by every guarded
  step holds wherever a guarded run ends; since every prefix of a run is a run, that is
  every state the run passes through;
* **`exec_iff_run`** — the executable counterpart: folding `step` over the actions;
* **`exec_progress`** — an invariant under which every action is possible: nothing gets stuck;
* **`run_of_exec`** — an execution whose actions all meet the guard is a guarded run;
* **`Run.strengthen`** — what an invariant adds to the guard;
* **`Run.simulates`** — a forward simulation: when every guarded step is matched by steps of
  another system, so is every guarded run;
* **`Run.project`** — what a run does to a part of the state, when each step takes one action there or
  none;
* **`Run.ranked`** — a rank that the actions of one kind lower, and no other one raises: how many of
  them there can be before it is 0.
-/

namespace Engine

variable {σ α : Type}

/-- `as` leads from the first state to the last one, every step meeting the guard `G`. -/
inductive Run (step : σ → α → Option σ) (G : σ → α → Prop) : σ → List α → σ → Prop where
  | nil (s : σ) : Run step G s [] s
  | cons {s t u : σ} {a : α} {as : List α} (hstep : step s a = some t) (hguard : G s a)
      (rest : Run step G t as u) : Run step G s (a :: as) u

/-- The invariant rule. -/
theorem Run.invariant {step : σ → α → Option σ} {G : σ → α → Prop} {I : σ → Prop}
    (hI : ∀ s a t, I s → G s a → step s a = some t → I t)
    {s u : σ} {as : List α} (hrun : Run step G s as u) (hs : I s) : I u := by
  induction hrun with
  | nil _ => exact hs
  | cons hstep hguard _ ih => exact ih (hI _ _ _ hs hguard hstep)

/-- Take the actions one after the other; `none` when one of them is not possible. -/
def exec (step : σ → α → Option σ) : σ → List α → Option σ
  | s, [] => some s
  | s, a :: as => (step s a).bind fun t => exec step t as

/-- Executing a list of actions is the unguarded run. -/
theorem exec_iff_run {step : σ → α → Option σ} {s u : σ} {as : List α} :
    exec step s as = some u ↔ Run step (fun _ _ => True) s as u := by
  induction as generalizing s with
  | nil =>
    constructor
    · intro h
      cases h
      exact .nil _
    · intro h
      cases h
      rfl
  | cons a as ih =>
    constructor
    · intro h
      obtain ⟨t, ht, hrest⟩ := Option.bind_eq_some_iff.mp h
      exact .cons ht trivial (ih.mp hrest)
    · intro h
      cases h with
      | cons hstep _ rest => exact Option.bind_eq_some_iff.mpr ⟨_, hstep, ih.mpr rest⟩

/-- A step that an invariant makes possible, and that keeps it. -/
theorem exec_progress {step : σ → α → Option σ} {I : σ → Prop}
    (hI : ∀ s a, I s → ∃ t, step s a = some t ∧ I t) {s : σ} (hs : I s) (as : List α) :
    ∃ u, exec step s as = some u ∧ I u := by
  induction as generalizing s with
  | nil => exact ⟨s, rfl, hs⟩
  | cons a as ih =>
    obtain ⟨t, ht, hIt⟩ := hI s a hs
    obtain ⟨u, hu, hIu⟩ := ih hIt
    exact ⟨u, by rw [exec, ht, Option.bind_some, hu], hIu⟩

/-- A guard that the actions meet in every state. -/
theorem run_of_exec {step : σ → α → Option σ} {G : σ → α → Prop} {s u : σ} {as : List α}
    (h : exec step s as = some u) (hG : ∀ a ∈ as, ∀ s, G s a) : Run step G s as u := by
  induction as generalizing s with
  | nil =>
    cases h
    exact .nil _
  | cons a as ih =>
    obtain ⟨t, ht, hrest⟩ := Option.bind_eq_some_iff.mp h
    exact .cons ht (hG a (List.mem_cons_self ..) s)
      (ih hrest fun a' ha' => hG a' (List.mem_cons_of_mem _ ha'))

theorem exec_append {step : σ → α → Option σ} {s t u : σ} {as bs : List α}
    (has : exec step s as = some t) (hbs : exec step t bs = some u) :
    exec step s (as ++ bs) = some u := by
  induction as generalizing s with
  | nil =>
    cases has
    exact hbs
  | cons a as ih =>
    obtain ⟨t', ht', hrest⟩ := Option.bind_eq_some_iff.mp has
    exact Option.bind_eq_some_iff.mpr ⟨t', ht', ih hrest⟩

/-- Steps that start where an invariant holds meet the guard it implies. -/
theorem Run.strengthen {step : σ → α → Option σ} {G G' : σ → α → Prop} {I : σ → Prop}
    (hI : ∀ s a t, I s → G s a → step s a = some t → I t) (hG : ∀ s a, I s → G s a → G' s a)
    {s u : σ} {as : List α} (hrun : Run step G s as u) (hs : I s) : Run step G' s as u := by
  induction hrun with
  | nil _ => exact .nil _
  | cons hstep hguard _ ih =>
    exact .cons hstep (hG _ _ hs hguard) (ih (hI _ _ _ hs hguard hstep))

/-- The simulation rule. -/
theorem Run.simulates {τ β : Type} {step : σ → α → Option σ} {G : σ → α → Prop}
    {step' : τ → β → Option τ} {R : σ → τ → Prop}
    (hsim : ∀ s a t c, R s c → G s a → step s a = some t →
      ∃ bs d, exec step' c bs = some d ∧ R t d)
    {s u : σ} {as : List α} (hrun : Run step G s as u) {c : τ} (hR : R s c) :
    ∃ bs d, exec step' c bs = some d ∧ R u d := by
  induction hrun generalizing c with
  | nil _ => exact ⟨[], c, rfl, hR⟩
  | cons hstep hguard _ ih =>
    obtain ⟨bs, d, hd, hRd⟩ := hsim _ _ _ _ hR hguard hstep
    obtain ⟨bs', d', hd', hRd'⟩ := ih hRd
    exact ⟨bs ++ bs', d', exec_append hd hd', hRd'⟩

/-- The projection rule, for the part `p` of the state and the actions `f` on it. -/
theorem Run.project {τ β : Type} {step : σ → α → Option σ} {G : σ → α → Prop}
    {step' : τ → β → Option τ} {G' : τ → β → Prop} {p : σ → τ} {f : α → Option β}
    (hnone : ∀ s a t, f a = none → step s a = some t → p t = p s)
    (hsome : ∀ s a t b, f a = some b → G s a → step s a = some t →
      step' (p s) b = some (p t) ∧ G' (p s) b)
    {s u : σ} {as : List α} (hrun : Run step G s as u) :
    Run step' G' (p s) (as.filterMap f) (p u) := by
  induction hrun with
  | nil _ => exact .nil _
  | @cons s t u a as hstep hguard _ ih =>
    cases hact : f a with
    | none =>
      rw [List.filterMap_cons_none hact, ← hnone s a t hact hstep]
      exact ih
    | some b =>
      obtain ⟨hstep', hguard'⟩ := hsome s a t b hact hguard hstep
      rw [List.filterMap_cons_some hact]
      exact .cons hstep' hguard' ih

/-- The ranking rule: `R s r` says that the rank of `s` is at most `r`. -/
theorem Run.ranked {step : σ → α → Option σ} {G : σ → α → Prop} {R : σ → Nat → Prop} {p : α → Bool}
    (hR : ∀ s a t r, R s r → G s a → step s a = some t → R t (if p a then r - 1 else r))
    {s u : σ} {as : List α} (hrun : Run step G s as u) {r : Nat} (hs : R s r) :
    R u (r - as.countP p) := by
  induction hrun generalizing r with
  | nil _ => exact hs
  | @cons s t u a as hstep hguard _ ih =>
    have ht := ih (hR _ _ _ _ hs hguard hstep)
    rw [List.countP_cons]
    split at ht
    · next hp => rwa [if_pos hp, Nat.add_comm, ← Nat.sub_sub]
    · next hp => rwa [if_neg hp]

end Engine
