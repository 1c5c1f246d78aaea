import Mathlib.Data.List.Basic

/-!
# Engine — logged executions that may die

A sequential piece of a program, seen from outside, does three things: it performs
observable actions one after the other, and it then either returns a value, takes the
whole process down, or is still waiting for an answer of its environment. `Exec ε δ α`
records exactly that:

* `log` — the actions (of type `ε`) performed so far, oldest first;
* `out` — `done a` (returned `a`), `dead d` (the process died, for the reason `d`), or
  `pending` (waiting for an answer that has not arrived).

`Exec ε δ` is a monad: sequencing appends the logs and stops at the first part that does
not return. The module gives the rules the proofs about such programs use:

* **inversion** — `bind_out_done`, `mem_bind_log`, `bind_log_of_done`: what a sequence that
  returned (or that performed an action) says about its two halves;
* **`Returns`** — the process neither dies nor waits; `returns_bind` splits it exactly at a
  sequencing point;
* **`Logs`** — every action of the log satisfies a predicate, with its sequencing rule;
* **`effect`** — the actions, carried out one after the other on a state of the environment;
  `effect_bind_of_done` sequences, and `effect_of_logs` is the frame rule.

Nothing here depends on what the actions are.
-/

namespace Engine

/-- How a piece of a program ends: it returned, the process died, or it still waits. -/
inductive Outcome (δ α : Type) where
  | done (a : α)
  | dead (d : δ)
  | pending
  deriving DecidableEq, Repr

/-- An execution: the actions performed, oldest first, and how it ended. -/
structure Exec (ε δ α : Type) where
  log : List ε
  out : Outcome δ α
  deriving DecidableEq, Repr

namespace Exec

variable {ε δ α β : Type}

/-- Run `f` on what `x` returned, after `x`'s own actions. -/
def andThen (x : Exec ε δ α) (f : α → Exec ε δ β) : Exec ε δ β :=
  match x.out with
  | .done a => ⟨x.log ++ (f a).log, (f a).out⟩
  | .dead d => ⟨x.log, .dead d⟩
  | .pending => ⟨x.log, .pending⟩

instance : Monad (Exec ε δ) where
  pure a := ⟨[], .done a⟩
  bind := andThen

/-- Perform one action. -/
def emit (e : ε) : Exec ε δ Unit := ⟨[e], .done ()⟩

/-- Take the process down. -/
def die (d : δ) : Exec ε δ α := ⟨[], .dead d⟩

/-- Wait for an answer that never arrives in this execution. -/
def wait : Exec ε δ α := ⟨[], .pending⟩

/-! ## The primitives, field by field -/

@[simp] theorem pure_log (a : α) : (pure a : Exec ε δ α).log = [] := rfl
@[simp] theorem pure_out (a : α) : (pure a : Exec ε δ α).out = .done a := rfl
@[simp] theorem emit_log (e : ε) : (emit e : Exec ε δ Unit).log = [e] := rfl
@[simp] theorem emit_out (e : ε) : (emit e : Exec ε δ Unit).out = .done () := rfl
@[simp] theorem die_log (d : δ) : (die d : Exec ε δ α).log = [] := rfl
@[simp] theorem die_out (d : δ) : (die d : Exec ε δ α).out = .dead d := rfl
@[simp] theorem wait_log : (wait : Exec ε δ α).log = [] := rfl
@[simp] theorem wait_out : (wait : Exec ε δ α).out = .pending := rfl

@[simp] theorem pure_bind (a : α) (f : α → Exec ε δ β) : (pure a >>= f) = f a := by
  show andThen (pure a) f = f a
  simp [andThen]

@[simp] theorem die_bind (d : δ) (f : α → Exec ε δ β) : (die d >>= f) = die d := rfl

@[simp] theorem wait_bind (f : α → Exec ε δ β) : (wait >>= f) = wait := rfl

@[simp] theorem emit_bind (e : ε) (f : Unit → Exec ε δ β) :
    (emit e >>= f) = ⟨e :: (f ()).log, (f ()).out⟩ := rfl

theorem bind_pure (x : Exec ε δ α) : (x >>= fun a => pure a) = x := by
  obtain ⟨log, out⟩ := x
  show andThen _ _ = _
  cases out with
  | done a => simp [andThen]
  | dead d => rfl
  | pending => rfl

/-! ## Inversion of a sequence -/

theorem bind_of_done {x : Exec ε δ α} {a : α} (h : x.out = .done a) (f : α → Exec ε δ β) :
    (x >>= f) = ⟨x.log ++ (f a).log, (f a).out⟩ := by
  show andThen x f = _
  simp [andThen, h]

theorem bind_log_of_done {x : Exec ε δ α} {a : α} (h : x.out = .done a)
    (f : α → Exec ε δ β) : (x >>= f).log = x.log ++ (f a).log := by
  rw [bind_of_done h]

theorem bind_out_of_done {x : Exec ε δ α} {a : α} (h : x.out = .done a)
    (f : α → Exec ε δ β) : (x >>= f).out = (f a).out := by
  rw [bind_of_done h]

theorem bind_of_dead {x : Exec ε δ α} {d : δ} (h : x.out = .dead d) (f : α → Exec ε δ β) :
    (x >>= f) = ⟨x.log, .dead d⟩ := by
  show andThen x f = _
  simp [andThen, h]

theorem bind_of_pending {x : Exec ε δ α} (h : x.out = .pending) (f : α → Exec ε δ β) :
    (x >>= f) = ⟨x.log, .pending⟩ := by
  show andThen x f = _
  simp [andThen, h]

/-- A second half that does nothing adds nothing to the log. -/
theorem bind_log_of_quiet {x : Exec ε δ α} {f : α → Exec ε δ β} (h : ∀ a, (f a).log = []) :
    (x >>= f).log = x.log := by
  cases hout : x.out with
  | done a => rw [bind_log_of_done hout, h a, List.append_nil]
  | dead d => rw [bind_of_dead hout]
  | pending => rw [bind_of_pending hout]

/-- Actions in front of the first half are actions in front of the sequence. -/
theorem prepend_bind (l : List ε) (x : Exec ε δ α) (f : α → Exec ε δ β) :
    ((⟨l ++ x.log, x.out⟩ : Exec ε δ α) >>= f) = ⟨l ++ (x >>= f).log, (x >>= f).out⟩ := by
  show andThen _ f = ⟨l ++ (andThen x f).log, (andThen x f).out⟩
  cases h : x.out with
  | done a => simp [andThen, h]
  | dead d => simp [andThen, h]
  | pending => simp [andThen, h]

theorem bind_assoc {γ : Type} (x : Exec ε δ α) (f : α → Exec ε δ β) (g : β → Exec ε δ γ) :
    (x >>= f >>= g) = x >>= fun a => f a >>= g := by
  obtain ⟨log, out⟩ := x
  cases out with
  | done a => exact prepend_bind log (f a) g
  | dead d => rfl
  | pending => rfl

/-- A sequence returned iff both halves did. -/
theorem bind_out_done {x : Exec ε δ α} {f : α → Exec ε δ β} {b : β} :
    (x >>= f).out = .done b ↔ ∃ a, x.out = .done a ∧ (f a).out = .done b := by
  cases h : x.out with
  | done a => simp [bind_out_of_done h]
  | dead d => simp [bind_of_dead h]
  | pending => simp [bind_of_pending h]

/-- An action of a sequence belongs to its first half, or to the second half run on what
the first one returned. -/
theorem mem_bind_log {x : Exec ε δ α} {f : α → Exec ε δ β} {e : ε} :
    e ∈ (x >>= f).log ↔ e ∈ x.log ∨ ∃ a, x.out = .done a ∧ e ∈ (f a).log := by
  cases h : x.out with
  | done a => simp [bind_log_of_done h]
  | dead d => simp [bind_of_dead h]
  | pending => simp [bind_of_pending h]

/-! ## Coming to an end -/

/-- The execution returns: it neither dies nor waits. -/
def Returns (x : Exec ε δ α) : Prop := ∃ a, x.out = .done a

@[simp] theorem returns_pure (a : α) : (pure a : Exec ε δ α).Returns := ⟨a, rfl⟩

@[simp] theorem returns_emit (e : ε) : (emit e : Exec ε δ Unit).Returns := ⟨(), rfl⟩

@[simp] theorem not_returns_wait : ¬ (wait : Exec ε δ α).Returns := by
  rintro ⟨a, h⟩
  cases h

@[simp] theorem not_returns_die (d : δ) : ¬ (die d : Exec ε δ α).Returns := by
  rintro ⟨a, h⟩
  cases h

theorem returns_of_done {x : Exec ε δ α} {a : α} (h : x.out = .done a) : x.Returns := ⟨a, h⟩

theorem Returns.alive {x : Exec ε δ α} (h : x.Returns) (d : δ) : x.out ≠ .dead d := by
  obtain ⟨a, ha⟩ := h
  intro hd
  rw [ha] at hd
  cases hd

/-- A sequence returns iff its first half does and the second half does on what that returned. -/
theorem returns_bind {x : Exec ε δ α} {f : α → Exec ε δ β} :
    (x >>= f).Returns ↔ x.Returns ∧ ∀ a, x.out = .done a → (f a).Returns := by
  cases h : x.out with
  | done a => simp [Returns, bind_out_of_done h, h]
  | dead d => simp [Returns, bind_of_dead h, h]
  | pending => simp [Returns, bind_of_pending h, h]

/-- A second half that returns leaves the sequence waiting only where the first half does. -/
theorem bind_out_pending {x : Exec ε δ α} {f : α → Exec ε δ β} (hf : ∀ a, (f a).Returns) :
    (x >>= f).out = .pending ↔ x.out = .pending := by
  cases h : x.out with
  | done a =>
    obtain ⟨b, hb⟩ := hf a
    rw [bind_out_of_done h, hb]
    exact iff_of_false nofun nofun
  | dead d => simp [bind_of_dead h]
  | pending => simp [bind_of_pending h]

theorem returns_ite {c : Prop} [Decidable c] {x y : Exec ε δ α} (hx : x.Returns)
    (hy : y.Returns) : (if c then x else y).Returns := by
  split
  · exact hx
  · exact hy

/-! ## Predicates on every action -/

/-- Every action of the log satisfies `p`. -/
def Logs (x : Exec ε δ α) (p : ε → Prop) : Prop := ∀ e ∈ x.log, p e

theorem logs_pure (a : α) (p : ε → Prop) : (pure a : Exec ε δ α).Logs p := by
  simp [Logs]

theorem logs_die (d : δ) (p : ε → Prop) : (die d : Exec ε δ α).Logs p := by
  simp [Logs]

theorem logs_wait (p : ε → Prop) : (wait : Exec ε δ α).Logs p := by
  simp [Logs]

theorem logs_emit {e : ε} {p : ε → Prop} (h : p e) : (emit e : Exec ε δ Unit).Logs p := by
  simp [Logs, h]

theorem logs_ite {c : Prop} [Decidable c] {x y : Exec ε δ α} {p : ε → Prop} (hx : x.Logs p)
    (hy : y.Logs p) : (if c then x else y).Logs p := by
  split
  · exact hx
  · exact hy

theorem Logs.mono {x : Exec ε δ α} {p q : ε → Prop} (h : x.Logs p) (hpq : ∀ e, p e → q e) :
    x.Logs q :=
  fun e he => hpq e (h e he)

theorem Logs.bind {x : Exec ε δ α} {f : α → Exec ε δ β} {p : ε → Prop} (hx : x.Logs p)
    (hf : ∀ a, x.out = .done a → (f a).Logs p) : (x >>= f).Logs p := by
  intro e he
  rcases mem_bind_log.mp he with h | ⟨a, ha, h⟩
  · exact hx e h
  · exact hf a ha e h

theorem logs_bind_of_done {x : Exec ε δ α} {a : α} (h : x.out = .done a)
    {f : α → Exec ε δ β} {p : ε → Prop} : (x >>= f).Logs p ↔ x.Logs p ∧ (f a).Logs p := by
  rw [Logs, bind_log_of_done h]
  exact List.forall_mem_append

/-! ## Effects on the environment -/

section Effect

variable {σ : Type} (act : σ → ε → σ)

/-- What the actions of an execution make of the state `s`, `act` being what one of them does. -/
def effect (x : Exec ε δ α) (s : σ) : σ := x.log.foldl act s

@[simp] theorem effect_pure (a : α) (s : σ) : (pure a : Exec ε δ α).effect act s = s := rfl

theorem effect_bind_of_done {x : Exec ε δ α} {a : α} (h : x.out = .done a)
    (f : α → Exec ε δ β) (s : σ) :
    (x >>= f).effect act s = (f a).effect act (x.effect act s) := by
  simp only [effect, bind_log_of_done h, List.foldl_append]

theorem foldl_of_frame {l : List ε} (h : ∀ e ∈ l, ∀ s, act s e = s) (s : σ) :
    l.foldl act s = s := by
  induction l generalizing s with
  | nil => rfl
  | cons e l ih =>
    rw [List.foldl_cons, h e (List.mem_cons_self ..) s]
    exact ih (fun e' he' => h e' (List.mem_cons_of_mem _ he')) s

/-- Actions that leave every state as it is have no effect together either. -/
theorem effect_of_logs {x : Exec ε δ α} (h : x.Logs fun e => ∀ s, act s e = s) (s : σ) :
    x.effect act s = s :=
  foldl_of_frame act h s

/-- A second half that leaves every state as it is has no effect. -/
theorem effect_bind_of_frame {x : Exec ε δ α} {f : α → Exec ε δ β}
    (h : ∀ a, (f a).Logs fun e => ∀ s, act s e = s) (s : σ) :
    (x >>= f).effect act s = x.effect act s := by
  cases hout : x.out with
  | done a => rw [effect_bind_of_done act hout, effect_of_logs act (h a)]
  | dead d => rw [bind_of_dead hout]; rfl
  | pending => rw [bind_of_pending hout]; rfl

/-- An invariant that every action of the log keeps holds at the end. -/
theorem effect_invariant {x : Exec ε δ α} {I : σ → Prop}
    (h : x.Logs fun e => ∀ s, I s → I (act s e)) {s : σ} (hs : I s) : I (x.effect act s) := by
  unfold effect
  have hl : ∀ e ∈ x.log, ∀ s, I s → I (act s e) := h
  generalize x.log = l at hl
  induction l generalizing s with
  | nil => exact hs
  | cons e l ih =>
    exact ih (hl e (List.mem_cons_self ..) s hs) fun e' he' => hl e' (List.mem_cons_of_mem _ he')

end Effect

end Exec

end Engine
