import Estuary.Spec.ActionList
import Mathlib.Data.List.Nodup
import Mathlib.Logic.Function.Iterate
import Mathlib.Order.Monotone.Basic

/-!
# Estuary — the walk over a message

`ct_run` tests where a record starts, not where it ends: a record may straddle the end of the
message, or start right at it, and is handed over all the same. And a record of length 0 is its
own successor. Of a message for another filesystem nothing is handed over.

* **`recordAt`** — the offsets of the records one behind the other;
* **`Reached`** — which of them the walk gets to;
* **`getElem?_ctRunItems`** — the walk hands over these, in order;
* **`walk_sound_iff`** — when all of them lie in the message, none is repeated, and none is missing.
-/

namespace Estuary

section Walk

variable (headerSize : Nat) (fsName : CString) (hal : ActionList) (aborts : Nat → Bool)

/-- The offset of the `k`-th record. -/
def recordAt (k : Nat) : Nat := (haiNext hal)^[k] (haiFirst headerSize hal)

/-- The record at `off` ends inside the message. -/
def Inside (off : Nat) : Prop := off + (hal.haiLen off).toNat ≤ hal.msgsize

/-- The walk gets to the `k`-th record: the message is for this filesystem, there is such a record,
it starts inside the message, and the abort test has let the walk go on. -/
structure Reached (k : Nat) : Prop where
  served : hal.halFsname = fsName
  counted : k < hal.halCount.toNat
  starts : recordAt headerSize hal k ≤ hal.msgsize
  goesOn : ∀ j < k, aborts j = false

/-- The walk is as it should be: what is handed over lies inside the message; it is the first
records, in order; no record is handed over twice; and without a record that overruns the message
all of them are handed over. -/
structure WalkSound (handed : List Nat) : Prop where
  inside : ∀ off ∈ handed, Inside hal off
  consecutive : handed = (List.range handed.length).map (recordAt headerSize hal)
  distinct : handed.Nodup
  complete : (∀ k < hal.halCount.toNat, Inside hal (recordAt headerSize hal k)) →
    handed.length = hal.halCount.toNat

/-! ## The records -/

theorem recordAt_succ (k : Nat) :
    recordAt headerSize hal (k + 1) = haiNext hal (recordAt headerSize hal k) :=
  Function.iterate_succ_apply' _ _ _

theorem roundUp8_eq_zero {n : Nat} : roundUp8 n = 0 ↔ n = 0 := by
  unfold roundUp8
  omega

/-- A record starts behind the one before it, or where that one does. -/
theorem recordAt_mono : Monotone (recordAt headerSize hal) := by
  refine monotone_nat_of_le_succ fun k => ?_
  rw [recordAt_succ]
  exact Nat.le_add_right _ _

variable {headerSize fsName hal aborts}

/-- What is before a reached record is reached. -/
theorem Reached.of_le {j k : Nat} (h : Reached headerSize fsName hal aborts k) (hjk : j ≤ k) :
    Reached headerSize fsName hal aborts j := by
  obtain ⟨hserved, hcount, hstart, habort⟩ := h
  exact ⟨hserved, by omega, Nat.le_trans (recordAt_mono headerSize hal hjk) hstart,
    fun i hi => habort i (by omega)⟩

/-- The next record starts where this one does exactly if its length is 0. -/
theorem recordAt_lt_succ {k : Nat} :
    recordAt headerSize hal k < recordAt headerSize hal (k + 1)
      ↔ hal.haiLen (recordAt headerSize hal k) ≠ 0 := by
  rw [recordAt_succ, haiNext, Nat.lt_add_right_iff_pos, Nat.pos_iff_ne_zero, Ne, roundUp8_eq_zero]
  exact not_congr ⟨fun h => UInt32.toNat_inj.mp h, fun h => by rw [h]; rfl⟩

/-! ## The walk -/

/-- **The walk from the `i`-th record on.** Induction on the rounds that are left. -/
theorem getElem?_handItems {left i : Nat} (k : Nat) (off : Nat) :
    (handItems hal aborts left i (recordAt headerSize hal i))[k]? = some off
      ↔ (k < left ∧ recordAt headerSize hal (i + k) ≤ hal.msgsize
          ∧ ∀ j < k, aborts (i + j) = false) ∧ recordAt headerSize hal (i + k) = off := by
  -- the `k`-th record from `i` on is the `(k - 1)`-th from `i + 1` on
  induction left generalizing i k with
  | zero =>
    rw [handItems]
    simp
  | succ left ih =>
    rw [handItems, ← recordAt_succ]
    by_cases hpast : recordAt headerSize hal i > hal.msgsize
    · -- a record behind the message: so are all that follow
      rw [if_pos hpast]
      have hmono : recordAt headerSize hal i ≤ recordAt headerSize hal (i + k) :=
        recordAt_mono headerSize hal (Nat.le_add_right i k)
      exact iff_of_false (by simp) fun h => by omega
    rw [if_neg hpast]
    cases k with
    | zero => simp [Nat.not_lt.mp hpast]
    | succ k =>
      rw [List.getElem?_cons_succ]
      cases habort : aborts i with
      | true =>
        rw [if_pos rfl]
        refine iff_of_false (by simp) fun h => ?_
        have := h.1.2.2 0 (Nat.succ_pos k)
        rw [Nat.add_zero, habort] at this
        cases this
      | false =>
        rw [if_neg Bool.false_ne_true, ih, show i + 1 + k = i + (k + 1) from by omega]
        have hshift : (∀ j < k, aborts (i + 1 + j) = false)
            ↔ ∀ j < k + 1, aborts (i + j) = false := by
          constructor
          · intro h j hj
            cases j with
            | zero => exact habort
            | succ j =>
              rw [show i + (j + 1) = i + 1 + j from by omega]
              exact h j (by omega)
          · intro h j hj
            rw [show i + 1 + j = i + (j + 1) from by omega]
            exact h (j + 1) (by omega)
        rw [hshift, Nat.succ_lt_succ_iff]

/-- **The records handed over** are the reached ones, in order. -/
theorem getElem?_ctRunItems (k : Nat) (off : Nat) :
    (ctRunItems headerSize fsName hal aborts)[k]? = some off
      ↔ Reached headerSize fsName hal aborts k ∧ recordAt headerSize hal k = off := by
  unfold ctRunItems
  by_cases hserved : hal.halFsname = fsName
  swap
  · -- of a foreign message nothing is reached
    rw [if_pos hserved]
    exact iff_of_false (by simp) fun h => hserved h.1.served
  rw [if_neg (not_not_intro hserved)]
  have h := @getElem?_handItems headerSize hal aborts hal.halCount.toNat 0 k off
  simp only [Nat.zero_add] at h
  exact h.trans (and_congr_left' ⟨fun ⟨hcount, hstart, habort⟩ => ⟨hserved, hcount, hstart, habort⟩,
    fun h => ⟨h.counted, h.starts, h.goesOn⟩⟩)

theorem lt_length_iff {k : Nat} :
    k < (ctRunItems headerSize fsName hal aborts).length ↔ Reached headerSize fsName hal aborts k := by
  constructor
  · exact fun h => ((getElem?_ctRunItems k _).mp (List.getElem?_eq_getElem h)).1
  · intro h
    exact (List.getElem?_eq_some_iff.mp ((getElem?_ctRunItems k _).mpr ⟨h, rfl⟩)).1

theorem mem_ctRunItems {off : Nat} :
    off ∈ ctRunItems headerSize fsName hal aborts
      ↔ ∃ k, Reached headerSize fsName hal aborts k ∧ recordAt headerSize hal k = off := by
  rw [List.mem_iff_getElem?]
  exact exists_congr fun k => getElem?_ctRunItems k off

/-- What is handed over is the first records, in order, whatever the lengths are. -/
theorem ctRunItems_consecutive :
    ctRunItems headerSize fsName hal aborts
      = (List.range (ctRunItems headerSize fsName hal aborts).length).map (recordAt headerSize hal) := by
  refine List.ext_getElem? fun k => ?_
  rcases Nat.lt_or_ge k (ctRunItems headerSize fsName hal aborts).length with hlt | hge
  · rw [List.getElem?_map, List.getElem?_range hlt, Option.map_some]
    exact (getElem?_ctRunItems k _).mpr ⟨lt_length_iff.mp hlt, rfl⟩
  · rw [List.getElem?_eq_none hge, List.getElem?_eq_none (by simpa using hge)]

/-- No record is handed over twice exactly when none that another one follows has length 0. -/
theorem nodup_ctRunItems_iff :
    (ctRunItems headerSize fsName hal aborts).Nodup
      ↔ ∀ k, Reached headerSize fsName hal aborts (k + 1) →
        hal.haiLen (recordAt headerSize hal k) ≠ 0 := by
  have hat : ∀ {k}, Reached headerSize fsName hal aborts k →
      (ctRunItems headerSize fsName hal aborts)[k]? = some (recordAt headerSize hal k) := fun h =>
    (getElem?_ctRunItems _ _).mpr ⟨h, rfl⟩
  rw [List.nodup_iff_getElem?_ne_getElem?]
  constructor
  · intro h k hk hzero
    -- a record of length 0 is its own successor
    have hne := h k (k + 1) (Nat.lt_succ_self k) (lt_length_iff.mpr hk)
    rw [hat hk, hat (hk.of_le (Nat.le_succ k))] at hne
    have hstay : ¬ recordAt headerSize hal k < recordAt headerSize hal (k + 1) := fun hlt =>
      recordAt_lt_succ.mp hlt hzero
    have hle := recordAt_mono headerSize hal (Nat.le_succ k)
    exact hne (congrArg some (Nat.le_antisymm hle (Nat.not_lt.mp hstay)))
  · intro h i j hij hj
    have hreached := lt_length_iff.mp hj
    rw [hat hreached, hat (hreached.of_le (Nat.le_of_lt hij))]
    -- from the `i`-th record on every step goes forward, so the `j`-th lies behind it
    have hfirst := recordAt_lt_succ.mpr (h i (hreached.of_le hij))
    have hrest : recordAt headerSize hal (i + 1) ≤ recordAt headerSize hal j :=
      recordAt_mono headerSize hal hij
    intro heq
    have := Option.some.inj heq
    omega

/-- All items are handed over exactly when the last one is reached. -/
theorem length_ctRunItems_eq_iff :
    (ctRunItems headerSize fsName hal aborts).length = hal.halCount.toNat
      ↔ ∀ k < hal.halCount.toNat, Reached headerSize fsName hal aborts k := by
  constructor
  · intro h k hk
    exact lt_length_iff.mp (h ▸ hk)
  · intro h
    refine Nat.le_antisymm (Nat.le_of_not_lt fun hlt => ?_) (Nat.le_of_not_lt fun hlt => ?_)
    · exact absurd (lt_length_iff.mp hlt).counted (Nat.lt_irrefl _)
    · exact absurd (lt_length_iff.mpr (h _ hlt)) (Nat.lt_irrefl _)

end Walk

/-- The condition on a message, the filesystem served and the abort test. -/
structure WellFramed (headerSize : Nat) (fsName : CString) (hal : ActionList) (aborts : Nat → Bool) :
    Prop where
  /-- a record that starts inside the message, or right at its end, also ends inside it -/
  ends : ∀ k, Reached headerSize fsName hal aborts k → Inside hal (recordAt headerSize hal k)
  /-- a record that another one follows is not of length 0 -/
  moves : ∀ k, Reached headerSize fsName hal aborts (k + 1) →
    hal.haiLen (recordAt headerSize hal k) ≠ 0
  /-- a message with items and without an overrun is for the filesystem served -/
  served : (∀ k < hal.halCount.toNat, Inside hal (recordAt headerSize hal k)) →
    hal.halCount ≠ 0 → hal.halFsname = fsName
  /-- such a message is not given up before its last item -/
  goesOn : (∀ k < hal.halCount.toNat, Inside hal (recordAt headerSize hal k)) →
    ∀ k, k + 1 < hal.halCount.toNat → aborts k = false

/-- **The walk stays inside the message**, repeats nothing and leaves nothing out exactly when the
records that are reached end inside the message, those that others follow are not of length 0, and
a faultless message is for the filesystem served and the abort test does not end the walk over it
early. -/
theorem walk_sound_iff (headerSize : Nat) (fsName : CString) (hal : ActionList)
    (aborts : Nat → Bool) :
    WalkSound headerSize hal (ctRunItems headerSize fsName hal aborts)
      ↔ WellFramed headerSize fsName hal aborts := by
  constructor
  · rintro ⟨hinside, -, hdistinct, hcomplete⟩
    refine ⟨fun k hk => hinside _ (mem_ctRunItems.mpr ⟨k, hk, rfl⟩),
      nodup_ctRunItems_iff.mp hdistinct, fun hall hsome => ?_, fun hall k hk => ?_⟩
    · have hpos : 0 < hal.halCount.toNat :=
        Nat.pos_of_ne_zero fun h => hsome (UInt32.toNat_inj.mp h)
      exact (length_ctRunItems_eq_iff.mp (hcomplete hall) 0 hpos).served
    · exact (length_ctRunItems_eq_iff.mp (hcomplete hall) (k + 1) hk).goesOn k (Nat.lt_succ_self k)
  · rintro ⟨hends, hmoves, hserved, hgoesOn⟩
    refine ⟨fun off hoff => ?_, ctRunItems_consecutive, nodup_ctRunItems_iff.mpr hmoves,
      fun hall => length_ctRunItems_eq_iff.mpr fun k hk => ⟨?_, hk, ?_, fun j hj => ?_⟩⟩
    · obtain ⟨k, hk, rfl⟩ := mem_ctRunItems.mp hoff
      exact hends k hk
    · exact hserved hall fun hzero => by rw [hzero] at hk; exact Nat.not_lt_zero k hk
    · exact Nat.le_trans (Nat.le_add_right _ _) (hall k hk)
    · exact hgoesOn hall j (by omega)

/-- A message for the filesystem `l` with two items, behind a header of 32 bytes: the first one is
complete, the second one begins in the last 8 bytes of the message and says that it has 80. -/
def straddling : ActionList where
  msgsize := 128
  halCount := 2
  halFsname := cstr ['l']
  haiLen := fun _ => 80

theorem straddling_not_sound :
    ctRunItems 32 (cstr ['l']) straddling (fun _ => false) = [40, 120]
      ∧ ¬ WalkSound 32 straddling (ctRunItems 32 (cstr ['l']) straddling fun _ => false) := by
  have hitems : ctRunItems 32 (cstr ['l']) straddling (fun _ => false) = [40, 120] := by
    decide +kernel
  refine ⟨hitems, fun h => ?_⟩
  have hin := h.inside 120 (by rw [hitems]; decide)
  exact absurd (show 120 + 80 ≤ 128 from hin) (by decide)

end Estuary
