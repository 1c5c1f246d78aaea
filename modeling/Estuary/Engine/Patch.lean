import Mathlib.Data.List.Basic

/-!
# Engine — files that are written at positions, and files that are cut into pieces

A file is the list of its elements. `patch` is a positional write: it overwrites, extends, and
fills the gap in front of a write behind the end with `hole`; a write of nothing changes
nothing. `slice` is one of the pieces of equal length a file is cut into.

* **`Placed`**, **`Placed.patch`** — elements that are where a source has them, and writes that
  keep a file so;
* **`flatMap_slice`** — the pieces, in order, make up the file.
-/

namespace Engine

variable {α : Type}

/-! ## Positional writes -/

/-- Write `bytes` at position `pos`. -/
def patch (hole : α) (f : List α) (pos : Nat) (bytes : List α) : List α :=
  match bytes with
  | [] => f
  | b :: bs =>
    f.take pos ++ List.replicate (pos - f.length) hole ++ (b :: bs) ++ f.drop (pos + (bs.length + 1))

theorem patch_length (hole : α) {f bytes : List α} {pos : Nat} (hpos : pos ≤ f.length) :
    (patch hole f pos bytes).length = max f.length (pos + bytes.length) := by
  cases bytes with
  | nil =>
    rw [List.length_nil, Nat.add_zero, Nat.max_eq_left hpos]
    rfl
  | cons b bs =>
    rw [patch]
    simp only [List.length_append, List.length_take, List.length_replicate, List.length_cons,
      List.length_drop]
    omega

/-- A write at the end. -/
theorem patch_end (hole : α) (f bytes : List α) :
    patch hole f f.length bytes = f ++ bytes := by
  cases bytes with
  | nil => rw [patch, List.append_nil]
  | cons b bs => simp [patch]

/-! ## Where elements come from -/

/-- Every element of `bytes`, put down at `pos`, is one that `source` has for its position. -/
def Placed (source : Nat → α → Prop) (pos : Nat) (bytes : List α) : Prop :=
  ∀ (j : Nat) (b : α), bytes[j]? = some b → source (pos + j) b

namespace Placed

variable {source : Nat → α → Prop} {pos : Nat} {bytes bytes' : List α}

theorem nil (source : Nat → α → Prop) (pos : Nat) : Placed source pos [] :=
  fun _ _ h => nomatch h

theorem append_iff :
    Placed source pos (bytes ++ bytes')
      ↔ Placed source pos bytes ∧ Placed source (pos + bytes.length) bytes' := by
  constructor
  · intro h
    refine ⟨fun j b hj => ?_, fun j b hj => ?_⟩
    · have hlt : j < bytes.length := (List.getElem?_eq_some_iff.mp hj).1
      exact h j b (by rw [List.getElem?_append_left hlt, hj])
    · rw [Nat.add_assoc]
      refine h (bytes.length + j) b ?_
      rw [List.getElem?_append_right (Nat.le_add_right _ _), Nat.add_sub_cancel_left, hj]
  · rintro ⟨h, h'⟩ j b hj
    rcases Nat.lt_or_ge j bytes.length with hlt | hge
    · rw [List.getElem?_append_left hlt] at hj
      exact h j b hj
    · rw [List.getElem?_append_right hge] at hj
      have := h' (j - bytes.length) b hj
      rwa [show pos + bytes.length + (j - bytes.length) = pos + j from by omega] at this

theorem of_prefix (h : Placed source pos bytes) (hle : bytes' <+: bytes) :
    Placed source pos bytes' := by
  obtain ⟨rest, rfl⟩ := hle
  exact (append_iff.mp h).1

theorem drop (h : Placed source 0 bytes) (n : Nat) : Placed source n (bytes.drop n) := by
  intro j b hj
  rw [List.getElem?_drop] at hj
  have := h (n + j) b hj
  rwa [Nat.zero_add] at this

/-- **A positional write** without a gap in front of it keeps a file to its source. -/
theorem patch (hole : α) {f : List α} (h : Placed source 0 f) (hpos : pos ≤ f.length)
    (hbytes : Placed source pos bytes) : Placed source 0 (patch hole f pos bytes) := by
  cases bytes with
  | nil => exact h
  | cons b bs =>
    have hgap : pos - f.length = 0 := by omega
    have hfront : (f.take pos).length = pos := List.length_take_of_le hpos
    rw [Engine.patch, hgap, List.replicate_zero, List.append_nil, List.append_assoc]
    refine append_iff.mpr ⟨h.of_prefix (List.take_prefix _ _), ?_⟩
    rw [hfront, Nat.zero_add]
    exact append_iff.mpr ⟨hbytes, h.drop _⟩

end Placed

/-- Elements that come from one file are an initial segment of it. -/
theorem placed_iff_initial {obj bytes : List α} :
    Placed (fun i b => obj[i]? = some b) 0 bytes ↔ bytes <+: obj := by
  rw [List.prefix_iff_getElem?]
  constructor
  · intro h i hi
    have := h i bytes[i] (List.getElem?_eq_getElem hi)
    rwa [Nat.zero_add] at this
  · intro h j b hj
    obtain ⟨hlt, rfl⟩ := List.getElem?_eq_some_iff.mp hj
    rw [Nat.zero_add]
    exact h j hlt

/-! ## Pieces of equal length -/

/-- Piece `i`, counted from 0, of the pieces of length `chunk`. -/
def slice (l : List α) (chunk i : Nat) : List α := (l.drop (i * chunk)).take chunk

theorem slice_length (l : List α) (chunk i : Nat) :
    (slice l chunk i).length = min chunk (l.length - i * chunk) := by
  rw [slice, List.length_take, List.length_drop]

/-- A piece that ends with the file is as long as what is left. -/
theorem slice_eq_take (l : List α) (chunk i : Nat) :
    slice l chunk i = (l.drop (i * chunk)).take (min chunk (l.length - i * chunk)) := by
  rw [slice, ← List.length_drop, List.take_eq_take_min]

theorem flatMap_slice_take (l : List α) (chunk n : Nat) :
    (List.range n).flatMap (slice l chunk) = l.take (n * chunk) := by
  induction n with
  | zero => simp
  | succ n ih =>
    rw [List.range_succ, List.flatMap_append, ih, Nat.succ_mul, List.take_add]
    simp [slice]

theorem flatMap_slice {l : List α} {chunk n : Nat} (hcover : l.length ≤ n * chunk) :
    (List.range n).flatMap (slice l chunk) = l := by
  rw [flatMap_slice_take, List.take_of_length_le hcover]

end Engine
