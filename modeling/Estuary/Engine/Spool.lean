import Estuary.Engine.Run
import Mathlib.Data.List.Perm.Basic

/-!
# Engine — spools

A spool keeps a stream in dated segments. The last of its staged segments grows; the first one is
archived; and of the archived ones it evicts an oldest one. A segment of time 0 has no date.

* **`Spool.Whole.moves`** — the archived and the staged segments, in order, are the stream;
* **`Spool.Balanced.moves`** — what was archived is kept as it was, or evicted, and never both;
* **`Spool.Dated.moves`** — what was evicted is no newer than anything that is left.
-/

namespace Engine

variable {α : Type}

structure Segment (α : Type) where
  time : Nat
  text : List α
  deriving DecidableEq, Repr

/-- `archived`, `evicted` and `written` are history. -/
structure Spool (α : Type) where
  clock : Nat
  staged : List (Segment α)
  kept : List (Segment α)
  archived : List (Segment α)
  evicted : List (Segment α)
  written : List α

inductive SpoolAct (α : Type) where
  | tick
  | start
  | extend (bytes : List α)
  | archive
  | evict (seg : Segment α)

/-- No kept segment is older, as far as they all have dates. -/
def Spool.Oldest (s : Spool α) (seg : Segment α) : Prop :=
  (∀ other ∈ s.kept, other.time ≠ 0) → ∀ other ∈ s.kept, seg.time ≤ other.time

instance (s : Spool α) (seg : Segment α) : Decidable (s.Oldest seg) := by
  unfold Spool.Oldest
  infer_instance

def spoolStep [DecidableEq α] (s : Spool α) : SpoolAct α → Option (Spool α)
  | .tick => some { s with clock := s.clock + 1 }
  | .start => some { s with staged := s.staged ++ [⟨s.clock, []⟩] }
  | .extend bytes =>
    s.staged.getLast?.map fun seg =>
      { s with
        staged := s.staged.dropLast ++ [⟨s.clock, seg.text ++ bytes⟩]
        written := s.written ++ bytes }
  | .archive =>
    match s.staged with
    | [] => none
    | seg :: rest =>
      some { s with staged := rest, kept := s.kept ++ [seg], archived := s.archived ++ [seg] }
  | .evict seg =>
    if seg ∈ s.kept ∧ s.Oldest seg then
      some { s with kept := s.kept.erase seg, evicted := s.evicted ++ [seg] }
    else none

/-- The text of segments that follow each other. -/
def textOf (segs : List (Segment α)) : List α := segs.flatMap Segment.text

theorem textOf_append (l l' : List (Segment α)) : textOf (l ++ l') = textOf l ++ textOf l' :=
  List.flatMap_append

variable [DecidableEq α]

/-- What a step can do. -/
inductive Spool.Moves (s : Spool α) : Spool α → Prop where
  | tick : s.Moves { s with clock := s.clock + 1 }
  | start : s.Moves { s with staged := s.staged ++ [⟨s.clock, []⟩] }
  | extend (bytes : List α) {pre : List (Segment α)} {seg : Segment α}
      (hstaged : s.staged = pre ++ [seg]) :
      s.Moves { s with
        staged := pre ++ [⟨s.clock, seg.text ++ bytes⟩]
        written := s.written ++ bytes }
  | archive {seg : Segment α} {rest : List (Segment α)} (hstaged : s.staged = seg :: rest) :
      s.Moves { s with staged := rest, kept := s.kept ++ [seg], archived := s.archived ++ [seg] }
  | evict {seg : Segment α} (hmem : seg ∈ s.kept) (holdest : s.Oldest seg) :
      s.Moves { s with kept := s.kept.erase seg, evicted := s.evicted ++ [seg] }

theorem spoolStep_moves {s t : Spool α} {a : SpoolAct α} (h : spoolStep s a = some t) : s.Moves t := by
  cases a with
  | tick =>
    cases h
    exact .tick
  | start =>
    cases h
    exact .start
  | extend bytes =>
    obtain ⟨seg, hlast, rfl⟩ := Option.map_eq_some_iff.mp h
    exact .extend bytes (List.dropLast_append_getLast? seg hlast).symm
  | archive =>
    cases hstaged : s.staged with
    | nil =>
      simp only [spoolStep, hstaged] at h
      cases h
    | cons seg rest =>
      simp only [spoolStep, hstaged] at h
      cases h
      exact .archive hstaged
  | evict seg =>
    simp only [spoolStep] at h
    split at h <;> cases h
    next hkept => exact .evict hkept.1 hkept.2

section Invariants

variable {s t : Spool α} {first : List α} {before : List (Segment α)}

/-- The segments are the stream, which began with `first`. -/
def Spool.Whole (first : List α) (s : Spool α) : Prop :=
  textOf (s.archived ++ s.staged) = first ++ s.written

theorem Spool.Whole.moves (h : s.Whole first) (hmoves : s.Moves t) : t.Whole first := by
  unfold Spool.Whole at h ⊢
  cases hmoves with
  | tick => exact h
  | start =>
    rw [← List.append_assoc, textOf_append, h]
    exact List.append_nil _
  | @extend bytes pre seg hstaged =>
    rw [hstaged, ← List.append_assoc, textOf_append] at h
    rw [← List.append_assoc, textOf_append, ← List.append_assoc first, ← h, List.append_assoc]
    simp [textOf]
  | archive hstaged =>
    rw [List.append_assoc, List.singleton_append, ← hstaged]
    exact h
  | evict => exact h

/-- What was archived, or kept at first, is kept or evicted. -/
def Spool.Balanced (before : List (Segment α)) (s : Spool α) : Prop :=
  (s.evicted ++ s.kept).Perm (before ++ s.archived)

theorem Spool.Balanced.moves (h : s.Balanced before) (hmoves : s.Moves t) : t.Balanced before := by
  unfold Spool.Balanced at h ⊢
  cases hmoves with
  | tick => exact h
  | start => exact h
  | extend => exact h
  | @archive seg rest hstaged =>
    rw [← List.append_assoc, ← List.append_assoc]
    exact h.append_right [seg]
  | @evict seg hmem holdest =>
    rw [List.append_assoc, List.singleton_append]
    exact ((List.perm_cons_erase hmem).symm.append_left s.evicted).trans h

/-- Time goes up from the evicted segments to the kept ones, from both to the staged ones, and to the
clock. -/
structure Spool.Dated (s : Spool α) : Prop where
  clock : s.clock ≠ 0
  dates : ∀ seg ∈ s.kept ++ s.staged, seg.time ≠ 0
  past : ∀ seg ∈ s.evicted ++ s.kept ++ s.staged, seg.time ≤ s.clock
  staged : s.staged.Pairwise fun seg next => seg.time ≤ next.time
  before : ∀ seg ∈ s.evicted ++ s.kept, ∀ next ∈ s.staged, seg.time ≤ next.time
  evicted : ∀ seg ∈ s.evicted, ∀ other ∈ s.kept, seg.time ≤ other.time

theorem Spool.Dated.moves (h : s.Dated) (hmoves : s.Moves t) : t.Dated := by
  obtain ⟨hclock, hdates, hpast, hstaged, hbefore, hevicted⟩ := h
  simp only [List.mem_append] at hdates hpast hbefore
  cases hmoves with
  | tick =>
    refine ⟨Nat.succ_ne_zero _, ?_, ?_, hstaged, ?_, hevicted⟩ <;> simp only [List.mem_append]
    · exact hdates
    · exact fun seg hseg => Nat.le_succ_of_le (hpast seg hseg)
    · exact hbefore
  | start =>
    refine ⟨hclock, ?_, ?_, ?_, ?_, hevicted⟩ <;>
      simp only [List.mem_append, List.mem_singleton, List.pairwise_append]
    · rintro seg (hseg | hseg | rfl)
      · exact hdates seg (Or.inl hseg)
      · exact hdates seg (Or.inr hseg)
      · exact hclock
    · rintro seg (hseg | hseg | rfl)
      · exact hpast seg (Or.inl hseg)
      · exact hpast seg (Or.inr hseg)
      · exact Nat.le_refl _
    · refine ⟨hstaged, List.pairwise_singleton .., ?_⟩
      rintro seg hseg _ rfl
      exact hpast seg (Or.inr hseg)
    · rintro seg hseg next (hnext | rfl)
      · exact hbefore seg hseg next hnext
      · exact hpast seg (Or.inl hseg)
  | @extend bytes pre seg hlast =>
    rw [hlast] at hdates hpast hstaged hbefore
    simp only [List.mem_append, List.mem_singleton, List.pairwise_append] at hdates hpast hstaged hbefore
    refine ⟨hclock, ?_, ?_, ?_, ?_, hevicted⟩ <;>
      simp only [List.mem_append, List.mem_singleton, List.pairwise_append]
    · rintro seg' (hseg | hseg | rfl)
      · exact hdates seg' (Or.inl hseg)
      · exact hdates seg' (Or.inr (Or.inl hseg))
      · exact hclock
    · rintro seg' (hseg | hseg | rfl)
      · exact hpast seg' (Or.inl hseg)
      · exact hpast seg' (Or.inr (Or.inl hseg))
      · exact Nat.le_refl _
    · refine ⟨hstaged.1, List.pairwise_singleton .., ?_⟩
      rintro seg' hseg _ rfl
      exact hpast seg' (Or.inr (Or.inl hseg))
    · rintro seg' hseg next (hnext | rfl)
      · exact hbefore seg' hseg next (Or.inl hnext)
      · exact hpast seg' (Or.inl hseg)
  | @archive seg rest hfirst =>
    rw [hfirst] at hdates hpast hstaged hbefore
    simp only [List.mem_cons, List.pairwise_cons] at hdates hpast hstaged hbefore
    refine ⟨hclock, ?_, ?_, hstaged.2, ?_, ?_⟩ <;> simp only [List.mem_append, List.mem_singleton]
    · rintro seg' ((hseg | rfl) | hseg)
      · exact hdates seg' (Or.inl hseg)
      · exact hdates seg' (Or.inr (Or.inl rfl))
      · exact hdates seg' (Or.inr (Or.inr hseg))
    · rintro seg' ((hseg | hseg | rfl) | hseg)
      · exact hpast seg' (Or.inl (Or.inl hseg))
      · exact hpast seg' (Or.inl (Or.inr hseg))
      · exact hpast seg' (Or.inr (Or.inl rfl))
      · exact hpast seg' (Or.inr (Or.inr hseg))
    · rintro seg' (hseg | hseg | rfl) next hnext
      · exact hbefore seg' (Or.inl hseg) next (Or.inr hnext)
      · exact hbefore seg' (Or.inr hseg) next (Or.inr hnext)
      · exact hstaged.1 next hnext
    · rintro seg' hseg other (hother | rfl)
      · exact hevicted seg' hseg other hother
      · exact hbefore seg' (Or.inl hseg) other (Or.inl rfl)
  | @evict seg hmem holdest =>
    have hmin := holdest fun other hother => hdates other (Or.inl hother)
    refine ⟨hclock, ?_, ?_, hstaged, ?_, ?_⟩ <;> simp only [List.mem_append, List.mem_singleton]
    · rintro seg' (hseg | hseg)
      · exact hdates seg' (Or.inl (List.mem_of_mem_erase hseg))
      · exact hdates seg' (Or.inr hseg)
    · rintro seg' (((hseg | rfl) | hseg) | hseg)
      · exact hpast seg' (Or.inl (Or.inl hseg))
      · exact hpast seg' (Or.inl (Or.inr hmem))
      · exact hpast seg' (Or.inl (Or.inr (List.mem_of_mem_erase hseg)))
      · exact hpast seg' (Or.inr hseg)
    · rintro seg' ((hseg | rfl) | hseg) next hnext
      · exact hbefore seg' (Or.inl hseg) next hnext
      · exact hbefore seg' (Or.inr hmem) next hnext
      · exact hbefore seg' (Or.inr (List.mem_of_mem_erase hseg)) next hnext
    · rintro seg' (hseg | rfl) other hother
      · exact hevicted seg' hseg other (List.mem_of_mem_erase hother)
      · exact hmin other (List.mem_of_mem_erase hother)

/-- What every move keeps, a run keeps. -/
theorem Spool.of_exec {I : Spool α → Prop} (hI : ∀ s t, I s → s.Moves t → I t) {acts : List (SpoolAct α)}
    (hexec : exec spoolStep s acts = some t) (hs : I s) : I t :=
  (exec_iff_run.mp hexec).invariant (fun s _ t h _ hstep => hI s t h (spoolStep_moves hstep)) hs

end Invariants

end Engine
