import Estuary.Engine.Patch

/-!
# Engine — stretches of a memory block

A block of memory is the list of its cells. `stretch l a b` is what stands in it from position `a`
up to position `b`. Producers and consumers that share a block each own stretches of it, and what
they rely on is that a write (`patch`) into one stretch leaves the others alone.

* **`stretch_append`**, **`stretch_take`**, **`stretch_drop`**, **`stretch_split`** — how stretches
  compose;
* **`stretch_patch_self`** — a write is what its own stretch then holds;
* **`stretch_patch_below`**, **`stretch_patch_above`** — the frame rules of a write;
* **`stretch_patch_end`** — a write behind a stretch makes it longer.
-/

namespace Engine

variable {α : Type}

/-- The cells of `l` from position `a` up to position `b`. -/
def stretch (l : List α) (a b : Nat) : List α := (l.drop a).take (b - a)

variable {l bytes : List α} {a b c pos : Nat}

theorem stretch_length (h : b ≤ l.length) : (stretch l a b).length = b - a := by
  rw [stretch, List.length_take, List.length_drop]
  omega

theorem stretch_of_le (h : b ≤ a) : stretch l a b = [] := by
  rw [stretch, Nat.sub_eq_zero_of_le h, List.take_zero]

@[simp] theorem stretch_self (l : List α) (a : Nat) : stretch l a a = [] :=
  stretch_of_le (Nat.le_refl a)

theorem stretch_append (hab : a ≤ b) (hbc : b ≤ c) :
    stretch l a b ++ stretch l b c = stretch l a c := by
  have hlen : c - a = (b - a) + (c - b) := by omega
  have hdrop : l.drop b = (l.drop a).drop (b - a) := by
    rw [List.drop_drop, Nat.add_sub_cancel' hab]
  rw [stretch, stretch, stretch, hlen, List.take_add, hdrop]

theorem stretch_take (hab : a ≤ b) (hbc : b ≤ c) (hc : c ≤ l.length) :
    (stretch l a c).take (b - a) = stretch l a b := by
  have hlen : (stretch l a b).length = b - a := stretch_length (Nat.le_trans hbc hc)
  rw [← stretch_append hab hbc, ← hlen, List.take_left]

theorem stretch_drop (hab : a ≤ b) (hbc : b ≤ c) (hc : c ≤ l.length) :
    (stretch l a c).drop (b - a) = stretch l b c := by
  have hlen : (stretch l a b).length = b - a := stretch_length (Nat.le_trans hbc hc)
  rw [← stretch_append hab hbc, ← hlen, List.drop_left]

/-- Where a stretch is cut. -/
theorem stretch_split {x y : List α} (h : stretch l a b = x ++ y) (hb : b ≤ l.length) :
    stretch l a (a + x.length) = x ∧ stretch l (a + x.length) b = y := by
  have hlen : (x ++ y).length = b - a := by rw [← h, stretch_length hb]
  rw [List.length_append] at hlen
  by_cases hab : a ≤ b
  · have hmid : a + x.length ≤ b := by omega
    have htake := stretch_take (Nat.le_add_right a x.length) hmid hb
    have hdrop := stretch_drop (Nat.le_add_right a x.length) hmid hb
    rw [h, Nat.add_sub_cancel_left] at htake hdrop
    rw [List.take_left] at htake
    rw [List.drop_left] at hdrop
    exact ⟨htake.symm, hdrop.symm⟩
  · have hx : x = [] := List.length_eq_zero_iff.mp (by omega)
    have hy : y = [] := List.length_eq_zero_iff.mp (by omega)
    subst hx hy
    exact ⟨stretch_self l a, stretch_of_le (by rw [List.length_nil]; omega)⟩

/-! ## Writes -/

section Writes

variable (hole : α)

theorem patch_eq (hpos : pos ≤ l.length) :
    patch hole l pos bytes = l.take pos ++ bytes ++ l.drop (pos + bytes.length) := by
  cases bytes with
  | nil => rw [patch, List.append_nil, List.length_nil, Nat.add_zero, List.take_append_drop]
  | cons b bs =>
    rw [patch, Nat.sub_eq_zero_of_le hpos, List.replicate_zero, List.append_nil, List.length_cons]

/-- A write inside the block does not change its size. -/
theorem patch_length_of_fits (h : pos + bytes.length ≤ l.length) :
    (patch hole l pos bytes).length = l.length := by
  rw [patch_length hole (by omega)]
  omega

/-- A write leaves the stretches below it alone. -/
theorem stretch_patch_below (hb : b ≤ pos) (hpos : pos ≤ l.length) :
    stretch (patch hole l pos bytes) a b = stretch l a b := by
  by_cases hab : a ≤ b
  swap
  · rw [stretch_of_le (by omega), stretch_of_le (by omega)]
  have hfront : (l.take pos).length = pos := List.length_take_of_le hpos
  have htake : ∀ l' : List α, ((l'.drop a).take (b - a)) = (l'.take b).drop a := fun l' => by
    rw [List.drop_take]
  rw [patch_eq hole hpos, stretch, stretch, htake, htake, List.append_assoc,
    List.take_append_of_le_length (by omega), List.take_take, Nat.min_eq_left hb]

/-- A write leaves the stretches above it alone. -/
theorem stretch_patch_above (ha : pos + bytes.length ≤ a) (hpos : pos ≤ l.length) :
    stretch (patch hole l pos bytes) a b = stretch l a b := by
  have hfront : (l.take pos ++ bytes).length = pos + bytes.length := by
    rw [List.length_append, List.length_take_of_le hpos]
  rw [patch_eq hole hpos, stretch, stretch, List.drop_append, List.drop_eq_nil_of_le (by omega),
    List.nil_append, List.drop_drop, hfront, Nat.add_sub_cancel' ha]

/-- A write is what its stretch holds. -/
theorem stretch_patch_self (hpos : pos ≤ l.length) :
    stretch (patch hole l pos bytes) pos (pos + bytes.length) = bytes := by
  have hfront : (l.take pos).length = pos := List.length_take_of_le hpos
  rw [patch_eq hole hpos, stretch, List.append_assoc, List.drop_append, hfront, Nat.sub_self,
    List.drop_zero, List.drop_eq_nil_of_le (by omega), List.nil_append, Nat.add_sub_cancel_left,
    List.take_left]

/-- A write behind a stretch makes it longer. -/
theorem stretch_patch_end (ha : a ≤ pos) (hpos : pos ≤ l.length) :
    stretch (patch hole l pos bytes) a (pos + bytes.length) = stretch l a pos ++ bytes := by
  rw [← stretch_append ha (Nat.le_add_right pos bytes.length),
    stretch_patch_below hole (Nat.le_refl pos) hpos, stretch_patch_self hole hpos]

end Writes

end Engine
