import Mathlib.Data.List.Perm.Subperm
import Mathlib.Data.List.Nodup

/-!
# Engine — directories

A directory lists entries under distinct names, in an order that nobody controls. What a program that
names, renames and removes files in it relies on is what each operation does to one name (`find_*`) and
to the entries of one kind (`filter_*`).

* **`find_iff`** — what is found under a name is listed under it;
* **`filter_remove`**, **`filter_put`** — the entries of one kind after an operation;
* **`exists_free`** — among one more names than there are entries, one is free.
-/

namespace Engine

/-- Entries under distinct names. -/
structure Dir (ν φ : Type) where
  entries : List (ν × φ)
  distinct : (entries.map Prod.fst).Nodup

variable {ν φ : Type} [DecidableEq ν] {d : Dir ν φ} {name other : ν} {file : φ}

def Dir.find (d : Dir ν φ) (name : ν) : Option φ := d.entries.lookup name

/-- `unlink`. -/
def Dir.remove (d : Dir ν φ) (name : ν) : Dir ν φ where
  entries := d.entries.filter (·.1 ≠ name)
  distinct := (List.filter_sublist.map Prod.fst).nodup d.distinct

/-- The file under this name, in place of any other. -/
def Dir.put (d : Dir ν φ) (name : ν) (file : φ) : Dir ν φ where
  entries := (d.remove name).entries ++ [(name, file)]
  distinct := by
    rw [List.map_append, List.map_singleton, List.nodup_append]
    refine ⟨(d.remove name).distinct, List.nodup_singleton name, fun a ha b hb => ?_⟩
    rw [List.mem_singleton.mp hb]
    obtain ⟨e, he, rfl⟩ := List.mem_map.mp ha
    simpa using (List.mem_filter.mp he).2

/-! ## What is found -/

theorem find_iff : d.find name = some file ↔ (name, file) ∈ d.entries := by
  obtain ⟨entries, hdistinct⟩ := d
  show entries.lookup name = some file ↔ (name, file) ∈ entries
  induction entries with
  | nil => simp
  | cons e entries ih =>
    rw [List.map_cons, List.nodup_cons] at hdistinct
    rw [List.lookup_cons, List.mem_cons]
    by_cases hname : name = e.1
    · have hrest : (name, file) ∉ entries := fun h =>
        hdistinct.1 (List.mem_map.mpr ⟨_, h, hname⟩)
      rw [beq_iff_eq.mpr hname, or_iff_left hrest]
      simp [Prod.ext_iff, hname, eq_comm]
    · rw [beq_eq_false_iff_ne.mpr hname]
      simp [ih hdistinct.2, Prod.ext_iff, hname]

theorem find_eq_none_iff : d.find name = none ↔ ∀ e ∈ d.entries, e.1 ≠ name := by
  constructor
  · rintro h e he rfl
    rw [find_iff.mpr he] at h
    cases h
  · intro h
    cases hfind : d.find name with
    | none => rfl
    | some file => exact absurd rfl (h _ (find_iff.mp hfind))

theorem mem_remove {e : ν × φ} : e ∈ (d.remove name).entries ↔ e ∈ d.entries ∧ e.1 ≠ name := by
  simp [Dir.remove]

@[simp] theorem find_remove_self (d : Dir ν φ) (name : ν) : (d.remove name).find name = none :=
  find_eq_none_iff.mpr fun _ he => (mem_remove.mp he).2

theorem find_remove_of_ne (h : name ≠ other) : (d.remove other).find name = d.find name := by
  refine Option.ext fun file => ?_
  rw [find_iff, find_iff, mem_remove]
  exact and_iff_left h

@[simp] theorem find_put_self (d : Dir ν φ) (name : ν) (file : φ) :
    (d.put name file).find name = some file :=
  find_iff.mpr (List.mem_append_right _ (List.mem_singleton_self _))

theorem find_put_of_ne (h : name ≠ other) : (d.put other file).find name = d.find name := by
  rw [← find_remove_of_ne (d := d) h]
  refine Option.ext fun file' => ?_
  rw [find_iff, find_iff, Dir.put, List.mem_append, List.mem_singleton]
  exact or_iff_left fun heq => h (congrArg Prod.fst heq)

/-- The order of the entries decides nothing. -/
theorem find_of_perm {d' : Dir ν φ} (h : d'.entries.Perm d.entries) (name : ν) :
    d'.find name = d.find name :=
  Option.ext fun _ => by rw [find_iff, find_iff, h.mem_iff]

/-! ## The entries of one kind -/

section Kind

variable {p : ν × φ → Bool}

theorem filter_remove_of_not (h : ∀ file, d.find name = some file → p (name, file) = false) :
    (d.remove name).entries.filter p = d.entries.filter p := by
  show (d.entries.filter _).filter p = _
  rw [List.filter_filter]
  refine List.filter_congr fun e he => ?_
  by_cases hname : e.1 = name
  · have hfind : d.find name = some e.2 := find_iff.mpr (hname ▸ he)
    have hp := h _ hfind
    rw [← hname] at hp
    simp [hp]
  · simp [hname]

/-- Without the entry of a name, one less. -/
theorem filter_remove (hfind : d.find name = some file) (hp : p (name, file) = true) :
    (d.entries.filter p).Perm ((name, file) :: (d.remove name).entries.filter p) := by
  have hnodup : (d.entries.filter p).Nodup := (List.Nodup.of_map _ d.distinct).filter _
  have hmem : (name, file) ∈ d.entries.filter p := List.mem_filter.mpr ⟨find_iff.mp hfind, hp⟩
  refine (List.perm_ext_iff_of_nodup hnodup ?_).mpr fun e => ?_
  · refine List.nodup_cons.mpr ⟨fun h => ?_, ?_⟩
    · exact (mem_remove.mp (List.mem_filter.mp h).1).2 rfl
    · exact (List.Nodup.of_map _ (d.remove name).distinct).filter _
  rw [List.mem_cons, List.mem_filter, List.mem_filter, mem_remove]
  constructor
  · rintro ⟨he, hpe⟩
    by_cases hname : e.1 = name
    · have hfile : d.find name = some e.2 := find_iff.mpr (hname ▸ he)
      rw [hfind] at hfile
      exact Or.inl (Prod.ext hname (Option.some.inj hfile).symm)
    · exact Or.inr ⟨⟨he, hname⟩, hpe⟩
  · rintro (rfl | ⟨⟨he, -⟩, hpe⟩)
    · exact List.mem_filter.mp hmem
    · exact ⟨he, hpe⟩

theorem filter_put :
    (d.put name file).entries.filter p
      = (d.remove name).entries.filter p ++ [(name, file)].filter p :=
  List.filter_append ..

end Kind

/-! ## Free names -/

/-- **A free name**, among one more than there are entries. -/
theorem exists_free (d : Dir ν φ) {names : Nat → ν} (hinj : ∀ i j, names i = names j → i = j) :
    ∃ i ≤ d.entries.length, d.find (names i) = none := by
  by_contra hnone
  have htaken : (List.range (d.entries.length + 1)).map names ⊆ d.entries.map Prod.fst := by
    intro a ha
    obtain ⟨i, hi, rfl⟩ := List.mem_map.mp ha
    cases hfind : d.find (names i) with
    | none => exact absurd ⟨i, Nat.lt_succ_iff.mp (List.mem_range.mp hi), hfind⟩ hnone
    | some file => exact List.mem_map.mpr ⟨_, find_iff.mp hfind, rfl⟩
  have hnodup : ((List.range (d.entries.length + 1)).map names).Nodup :=
    List.nodup_range.map fun i j => hinj i j
  have hle := (hnodup.subperm htaken).length_le
  rw [List.length_map, List.length_map, List.length_range] at hle
  omega

/-- The first free name from `i` on, within the budget. -/
def Dir.firstFree (d : Dir ν φ) (names : Nat → ν) : Nat → Nat → ν
  | 0, i => names i
  | budget + 1, i => if (d.find (names i)).isSome then d.firstFree names budget (i + 1) else names i

theorem firstFree_eq (d : Dir ν φ) (names : Nat → ν) (budget i : Nat) :
    ∃ j, d.firstFree names budget i = names j := by
  induction budget generalizing i with
  | zero => exact ⟨i, rfl⟩
  | succ budget ih =>
    unfold Dir.firstFree
    split
    · exact ih (i + 1)
    · exact ⟨i, rfl⟩

/-- The search ends with a free name. -/
theorem firstFree_free (d : Dir ν φ) {names : Nat → ν} (hinj : ∀ i j, names i = names j → i = j) :
    d.find (d.firstFree names d.entries.length 0) = none := by
  obtain ⟨k, hk, hfree⟩ := exists_free d hinj
  have hsearch : ∀ budget i, i ≤ k → k ≤ i + budget →
      d.find (d.firstFree names budget i) = none := by
    intro budget
    induction budget with
    | zero =>
      intro i hi hbudget
      rw [show i = k by omega]
      exact hfree
    | succ budget ih =>
      intro i hi hbudget
      unfold Dir.firstFree
      split
      · next htaken =>
        have hne : i ≠ k := by
          rintro rfl
          rw [hfree] at htaken
          cases htaken
        exact ih (i + 1) (by omega) (by omega)
      · next hfind => exact Option.not_isSome_iff_eq_none.mp hfind
  exact hsearch _ 0 (Nat.zero_le k) (by omega)

end Engine
