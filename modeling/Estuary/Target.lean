import Estuary.Spec.Target
import Mathlib.Data.Set.Insert

/-!
# Estuary — which object name a path gets

`ct_target` is meant to be the 1:1 mapping between files below `path_prefix` and objects of the
bucket: `path_prefix/rel` becomes `rel`. The code tests only that the path starts with the text
of `path_prefix` and then skips one more character, whatever it is.

* **`strstr_eq_zero_iff`** — the prefix test of the code is the prefix relation;
* **`targetName_below`** — on `path_prefix/rel` the name is `rel`;
* **`targetName_isSome_iff`** — the code accepts every path that starts with `path_prefix`;
* **`namesExact_iff`** — so the mapping is as meant on a set of paths exactly when every path of
  the set is either not accepted or of the form `path_prefix/rel` with `rel` non-empty.
-/

namespace Estuary

/-- The object name of a full path, `stack` being the memory behind its terminator. -/
def targetName (pathPrefix : CString) (stack : List Char) (fullPath : CString) :
    Option CString :=
  (ctTarget pathPrefix fullPath).map (nameAt fullPath stack)

/-- `fullPath` is `pathPrefix/rel` with `rel` non-empty. -/
def Below (pathPrefix fullPath rel : CString) : Prop :=
  rel.chars ≠ [] ∧ fullPath.chars = pathPrefix.chars ++ '/' :: rel.chars

/-! ## The prefix test -/

theorem strstr_eq_zero_iff (needle hay : List Char) :
    strstr needle hay = some 0 ↔ needle <+: hay := by
  cases hay with
  | nil =>
    rw [strstr]
    by_cases h : needle.isPrefixOf ([] : List Char) = true
    · simp only [h, if_true, true_iff]
      exact List.isPrefixOf_iff_prefix.mp h
    · simp only [h, Bool.false_eq_true, if_false, reduceCtorEq, false_iff]
      exact fun hp => h (List.isPrefixOf_iff_prefix.mpr hp)
  | cons c rest =>
    rw [strstr]
    by_cases h : needle.isPrefixOf (c :: rest) = true
    · simp only [h, if_true, true_iff]
      exact List.isPrefixOf_iff_prefix.mp h
    · -- a later occurrence is at a positive position
      simp only [h, Bool.false_eq_true, if_false]
      constructor
      · intro hs
        obtain ⟨n, _, hn⟩ := Option.map_eq_some_iff.mp hs
        omega
      · exact fun hp => absurd (List.isPrefixOf_iff_prefix.mpr hp) h

theorem ctTarget_of_starts {pathPrefix fullPath : CString}
    (h : pathPrefix.chars <+: fullPath.chars) :
    ctTarget pathPrefix fullPath = some (pathPrefix.chars.length + 1) := by
  simp only [ctTarget, (strstr_eq_zero_iff _ _).mpr h]

theorem ctTarget_of_not_starts {pathPrefix fullPath : CString}
    (h : ¬ pathPrefix.chars <+: fullPath.chars) : ctTarget pathPrefix fullPath = none := by
  have hne : strstr pathPrefix.chars fullPath.chars ≠ some 0 :=
    fun hs => h ((strstr_eq_zero_iff _ _).mp hs)
  unfold ctTarget
  split
  · next hs => exact absurd hs hne
  · rfl

/-- The code accepts exactly the paths that start with the text of `path_prefix`. -/
theorem targetName_isSome_iff (pathPrefix : CString) (stack : List Char) (fullPath : CString) :
    (targetName pathPrefix stack fullPath).isSome ↔ pathPrefix.chars <+: fullPath.chars := by
  by_cases h : pathPrefix.chars <+: fullPath.chars
  · simp [targetName, ctTarget_of_starts h, h]
  · simp [targetName, ctTarget_of_not_starts h, h]

theorem Below.starts {pathPrefix fullPath rel : CString} (h : Below pathPrefix fullPath rel) :
    pathPrefix.chars <+: fullPath.chars :=
  ⟨'/' :: rel.chars, h.2.symm⟩

/-! ## Paths below the prefix -/

/-- Below the prefix the name is the rest of the path. -/
theorem targetName_below {pathPrefix fullPath rel : CString} (stack : List Char)
    (h : Below pathPrefix fullPath rel) : targetName pathPrefix stack fullPath = some rel := by
  have hdrop : (fullPath.chars ++ nul :: stack).drop (pathPrefix.chars.length + 1)
      = rel.chars ++ nul :: stack := by
    rw [h.2, show pathPrefix.chars ++ '/' :: rel.chars ++ nul :: stack
          = (pathPrefix.chars ++ ['/']) ++ (rel.chars ++ nul :: stack) from by simp]
    exact List.drop_left' (by simp)
  rw [targetName, ctTarget_of_starts h.starts, Option.map_some, nameAt, hdrop, cstr_terminated]

theorem Below.injective {pathPrefix p q rel : CString} (hp : Below pathPrefix p rel)
    (hq : Below pathPrefix q rel) : p = q := by
  obtain ⟨p, hpf⟩ := p
  obtain ⟨q, hqf⟩ := q
  have : p = q := hp.2.trans hq.2.symm
  subst this
  rfl

/-! ## The mapping as it is meant -/

/-- What `ct_target` is for, on one path: the name is `rel` on `pathPrefix/rel`, and every other
path is refused. -/
def TargetExact (pathPrefix : CString) (stack : List Char) (fullPath : CString) : Prop :=
  ((targetName pathPrefix stack fullPath).isSome ↔ ∃ rel, Below pathPrefix fullPath rel)
    ∧ ∀ rel, Below pathPrefix fullPath rel → targetName pathPrefix stack fullPath = some rel

/-- The mapping on a set of paths: each path is treated as meant, and no two of them share an
object. `stack p` is the memory behind the terminator when `p` is looked up. -/
def NamesExact (pathPrefix : CString) (stack : CString → List Char) (paths : Set CString) :
    Prop :=
  (∀ p ∈ paths, TargetExact pathPrefix (stack p) p)
    ∧ ∀ p ∈ paths, ∀ q ∈ paths, p ≠ q → ∀ np nq,
        targetName pathPrefix (stack p) p = some np →
        targetName pathPrefix (stack q) q = some nq → np ≠ nq

theorem targetExact_iff (pathPrefix : CString) (stack : List Char) (fullPath : CString) :
    TargetExact pathPrefix stack fullPath ↔
      (pathPrefix.chars <+: fullPath.chars → ∃ rel, Below pathPrefix fullPath rel) := by
  constructor
  · rintro ⟨hiff, _⟩ hpre
    exact hiff.mp ((targetName_isSome_iff _ _ _).mpr hpre)
  · intro hbelow
    refine ⟨?_, fun rel hrel => targetName_below stack hrel⟩
    rw [targetName_isSome_iff]
    exact ⟨hbelow, fun ⟨_, hrel⟩ => hrel.starts⟩

/-- **Object names do not collide, exactly when.** On every set of paths the mapping is as meant
iff every path that starts with the text of `path_prefix` goes on with `/` and at least one
more character. -/
theorem namesExact_iff (pathPrefix : CString) (stack : CString → List Char)
    (paths : Set CString) :
    NamesExact pathPrefix stack paths ↔
      ∀ p ∈ paths, pathPrefix.chars <+: p.chars → ∃ rel, Below pathPrefix p rel := by
  constructor
  · rintro ⟨hexact, _⟩ p hp
    exact (targetExact_iff _ _ _).mp (hexact p hp)
  · intro hbelow
    refine ⟨fun p hp => (targetExact_iff _ _ _).mpr (hbelow p hp), ?_⟩
    intro p hp q hq hne np nq hnp hnq heq
    -- both paths are accepted, so both are below the prefix, with the name as the rest
    obtain ⟨rp, hrp⟩ := hbelow p hp
      ((targetName_isSome_iff _ _ _).mp (by rw [hnp]; rfl))
    obtain ⟨rq, hrq⟩ := hbelow q hq
      ((targetName_isSome_iff _ _ _).mp (by rw [hnq]; rfl))
    rw [targetName_below _ hrp] at hnp
    rw [targetName_below _ hrq] at hnq
    cases hnp
    cases hnq
    subst heq
    exact hne (hrp.injective hrq)

/-- With the prefix `/l/`, the files `/l/af` and `/l/bf` share the object `f`. -/
theorem sibling_paths_collide :
    targetName (cstr ['/', 'l', '/']) [] (cstr ['/', 'l', '/', 'a', 'f'])
        = some (cstr ['f'])
      ∧ targetName (cstr ['/', 'l', '/']) [] (cstr ['/', 'l', '/', 'b', 'f'])
        = some (cstr ['f'])
      ∧ ¬ NamesExact (cstr ['/', 'l', '/']) (fun _ => [])
          {cstr ['/', 'l', '/', 'a', 'f'], cstr ['/', 'l', '/', 'b', 'f']} := by
  refine ⟨by decide, by decide, ?_⟩
  rintro ⟨_, hdistinct⟩
  exact hdistinct _ (Set.mem_insert _ _) _ (Set.mem_insert_of_mem _ rfl) (by decide) (cstr ['f'])
    (cstr ['f']) (by decide) (by decide) rfl

end Estuary
