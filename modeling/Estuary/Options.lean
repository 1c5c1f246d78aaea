import Estuary.Spec.Options

/-!
# Estuary — what `ct_parseopts` stores

`ct_parseopts` bounds the value of every archive number but not how many there are, and it copies
every string of the config file with the size of the array as the limit, so that a string which
fills the array leaves no room for the terminator. Neither is rejected. The module says when a
command line and a config file that are accepted are stored as they were given.

* **`ctParseopts_ends`** — every rejection is `-EINVAL` or `-E2BIG`, and the only other way out is
  the `exit` of `usage`.
* **`parseBody_ok`** — what an accepted command line has stored, and that every number it leaves
  behind is in its range.
* **`options_stored_iff`** — an accepted command line is stored faithfully if and only if its
  archive numbers fit the array and every string leaves room for its terminator.
-/

namespace Estuary

/-! ## Sequences that may end early -/

section Sequence

variable {ε σ α β : Type} {x : EStateM ε σ α} {f : α → EStateM ε σ β} {s s' : σ}

theorem bind_ok_iff {b : β} :
    (x >>= f) s = .ok b s' ↔ ∃ a s₁, x s = .ok a s₁ ∧ f a s₁ = .ok b s' := by
  show EStateM.bind x f s = .ok b s' ↔ _
  unfold EStateM.bind
  cases x s with
  | ok a s₁ => simp [and_assoc]
  | error e s₁ => simp

theorem bind_error_iff {e : ε} :
    (x >>= f) s = .error e s' ↔
      x s = .error e s' ∨ ∃ a s₁, x s = .ok a s₁ ∧ f a s₁ = .error e s' := by
  show EStateM.bind x f s = .error e s' ↔ _
  unfold EStateM.bind
  cases x s with
  | ok a s₁ => simp [and_assoc]
  | error e s₁ => simp

end Sequence

theorem throw_apply {α : Type} (e : ParseEnd) (o : Options) :
    (throw e : Parse α) o = .error e o := rfl

/-! ## How a parse ends -/

/-- The ends of `ct_parseopts` other than `return 0`. -/
def Rejection (e : ParseEnd) : Prop :=
  e = .returned (-einval) ∨ e = .returned (-e2big) ∨ e = .exited 0

/-- Where a part of the parse is the last one, it ends in one of these ways. -/
def Rejects {α : Type} (x : Parse α) : Prop := ∀ o e o', x o = .error e o' → Rejection e

theorem rejects_throw {α : Type} {e : ParseEnd} (he : Rejection e) :
    Rejects (throw e : Parse α) := by
  intro o e' o' h
  rw [throw_apply] at h
  cases h
  exact he

theorem rejects_modify (g : Options → Options) : Rejects (modify g : Parse Unit) := by
  intro o e o' h
  cases h

theorem rejects_pure {α : Type} (a : α) : Rejects (pure a : Parse α) := by
  intro o e o' h
  cases h

theorem rejects_bind {α β : Type} {x : Parse α} {f : α → Parse β} (hx : Rejects x)
    (hf : ∀ a, Rejects (f a)) : Rejects (x >>= f) := by
  intro o e o' h
  rcases bind_error_iff.mp h with hfirst | ⟨a, o₁, -, hsecond⟩
  · exact hx o e o' hfirst
  · exact hf a o₁ e o' hsecond

theorem rejects_einval {α : Type} : Rejects (throw (.returned (-einval)) : Parse α) :=
  rejects_throw (.inl rfl)

theorem rejects_parseOption (r : OptRet) : Rejects (parseOption r) := by
  unfold parseOption
  split
  -- -A
  · split
    · exact rejects_throw (.inr (.inl rfl))
    · exact rejects_modify _
  · exact rejects_modify _
  · exact rejects_modify _
  -- -h
  · exact rejects_throw (.inr (.inr rfl))
  · exact rejects_modify _
  -- -u, which is stored before it is tested
  · apply rejects_bind (rejects_modify _)
    intro _
    split
    · exact rejects_einval
    · exact rejects_pure _
  · exact rejects_modify _
  · exact rejects_modify _
  · exact rejects_einval

theorem rejects_parseOptions (opts : List OptRet) : Rejects (parseOptions opts) := by
  induction opts with
  | nil => exact rejects_pure _
  | cons r rest ih => exact rejects_bind (rejects_parseOption r) fun _ => ih

theorem rejects_parseMount (operands : List CString) : Rejects (parseMount operands) := by
  unfold parseMount
  split
  · exact rejects_modify _
  · exact rejects_einval

theorem rejects_readConfig (configs : CString → Option ConfigFile) :
    Rejects (readConfig configs) := by
  apply rejects_bind
  · intro o e o' h
    cases h
  · intro o
    split
    · exact rejects_pure _
    · exact rejects_einval

theorem rejects_lookupString (entry : Option CString) (size : Nat)
    (copy : List Char → Options → Options) : Rejects (lookupString entry size copy) := by
  unfold lookupString
  split
  · exact rejects_modify _
  · exact rejects_einval

theorem rejects_lookupSsl (ssl : Option Bool) : Rejects (lookupSsl ssl) := by
  unfold lookupSsl
  split
  · exact rejects_modify _
  · exact rejects_modify _
  · exact rejects_einval

theorem rejects_lookupMaxRequests (entry : Option Int) : Rejects (lookupMaxRequests entry) := by
  unfold lookupMaxRequests
  split
  · apply rejects_bind (rejects_modify _)
    intro _
    split
    · exact rejects_einval
    · exact rejects_pure _
  · exact rejects_modify _

theorem rejects_parseBody (sizes : Sizes) (configs : CString → Option ConfigFile)
    (opts : List OptRet) (operands : List CString) :
    Rejects (parseBody sizes configs opts operands) := by
  apply rejects_bind (rejects_parseOptions opts)
  intro _
  apply rejects_bind (rejects_parseMount operands)
  intro _
  apply rejects_bind (rejects_readConfig configs)
  intro file
  -- the entries of the config file, in the order they are looked up
  iterate 5 refine rejects_bind (rejects_lookupString _ _ _) fun _ => ?_
  exact rejects_bind (rejects_lookupSsl _) fun _ => rejects_lookupMaxRequests _

/-- A command line is accepted, or the parse ends with `-EINVAL`, with `-E2BIG` or in `usage`. -/
theorem ctParseopts_ends (sizes : Sizes) (posixlyCorrect : Bool)
    (configs : CString → Option ConfigFile) (argv : List CString) :
    (ctParseopts sizes posixlyCorrect configs argv).1 = .returned 0 ∨
      Rejection (ctParseopts sizes posixlyCorrect configs argv).1 := by
  unfold ctParseopts
  simp only
  split
  next => exact .inl rfl
  next hparse => exact .inr (rejects_parseBody _ _ _ _ _ _ _ hparse)

theorem not_rejection_zero : ¬ Rejection (.returned 0) := by
  unfold Rejection
  decide

/-- A command line is accepted where the body runs to its end. -/
theorem ctParseopts_ok {sizes : Sizes} {posixlyCorrect : Bool}
    {configs : CString → Option ConfigFile} {argv : List CString}
    (h : (ctParseopts sizes posixlyCorrect configs argv).1 = .returned 0) :
    parseBody sizes configs (getopts posixlyCorrect none argv.tail).1
        (getopts posixlyCorrect none argv.tail).2 (Options.initial sizes) =
      .ok () (ctParseopts sizes posixlyCorrect configs argv).2 := by
  unfold ctParseopts at h ⊢
  simp only at h ⊢
  split at h
  next o hparse => rw [hparse]
  next e o hparse =>
    have hreject := rejects_parseBody _ _ _ _ _ _ _ hparse
    simp only at h
    exact absurd (h ▸ hreject) not_rejection_zero

/-! ## The options of a command line -/

/-- The number that an -A option gives. -/
def OptRet.archive : OptRet → Option Int
  | .arg 'A' optarg => some (atol optarg)
  | _ => none

/-- The file that a -b or -c option names. -/
def OptRet.config : OptRet → Option CString
  | .arg 'b' optarg => some optarg
  | .arg 'c' optarg => some optarg
  | _ => none

/-- The numbers of the -A options, in order. -/
def archiveNumbers (opts : List OptRet) : List Int := opts.filterMap OptRet.archive

/-- The config file that a command line asks for: the last one it names, else the default. -/
def configName (opts : List OptRet) : CString :=
  (opts.filterMap OptRet.config).getLast?.getD (cstr "config.cfg".toList)

/-- A number that `parseOption` lets pass is an `int`, so `atoi` stores it unchanged. -/
theorem atoi_eq_atol {s : CString} (hpos : 0 < atol s) (hmax : atol s ≤ intMax) :
    atoi s = atol s := by
  unfold atoi
  unfold intMax at hmax
  rw [Int.bmod_eq_of_le] <;> omega

/-- What an option that the `switch` lets pass does: it stores its archive number and its config
file if it has one, and it keeps the report interval from being negative. -/
structure OptionDone (r : OptRet) (o o' : Options) : Prop where
  archives : o'.archives = r.archive.elim o.archives o.archives.store
  config : o'.oConfig = r.config.getD o.oConfig
  number : ∀ n, r.archive = some n → 0 < n ∧ n ≤ intMax
  reportInt : 0 ≤ o.oReportInt → 0 ≤ o'.oReportInt

theorem parseOption_ok {r : OptRet} {o o' : Options} (h : parseOption r o = .ok () o') :
    OptionDone r o o' := by
  unfold parseOption at h
  split at h
  -- -A
  next optarg =>
    split at h
    next => cases h
    next hgood =>
      rw [not_or] at hgood
      have hpos : 0 < atol optarg := by omega
      have hmax : atol optarg ≤ intMax := by omega
      cases h
      constructor
      · show o.archives.store (atoi optarg) = o.archives.store (atol optarg)
        rw [atoi_eq_atol hpos hmax]
      · rfl
      · intro n hn
        cases hn
        exact ⟨hpos, hmax⟩
      · exact id
  -- -b and -c
  next optarg => cases h; exact ⟨rfl, rfl, nofun, id⟩
  next optarg => cases h; exact ⟨rfl, rfl, nofun, id⟩
  -- -h and -q
  next => cases h
  next => cases h; exact ⟨rfl, rfl, nofun, id⟩
  -- -u: what is stored has passed the test
  next optarg =>
    obtain ⟨_, o₁, hset, htest⟩ := bind_ok_iff.mp h
    cases hset
    split at htest
    next => cases htest
    next hnonneg =>
      cases htest
      exact ⟨rfl, rfl, nofun, fun _ => Int.not_lt.mp hnonneg⟩
  -- -v, a flag, and everything else
  next => cases h; exact ⟨rfl, rfl, nofun, id⟩
  next f =>
    cases h
    cases f <;> exact ⟨rfl, rfl, nofun, id⟩
  next => cases h

/-- What the loop does: it stores the archive numbers one after the other, and keeps the last
config file named. -/
structure OptionsDone (opts : List OptRet) (o o' : Options) : Prop where
  archives : o'.archives = (archiveNumbers opts).foldl Archives.store o.archives
  config : o'.oConfig = (opts.filterMap OptRet.config).getLast?.getD o.oConfig
  numbers : ∀ n ∈ archiveNumbers opts, 0 < n ∧ n ≤ intMax
  reportInt : 0 ≤ o.oReportInt → 0 ≤ o'.oReportInt

theorem parseOptions_ok {opts : List OptRet} {o o' : Options}
    (h : parseOptions opts o = .ok () o') : OptionsDone opts o o' := by
  induction opts generalizing o with
  | nil =>
    cases h
    exact ⟨rfl, rfl, nofun, id⟩
  | cons r rest ih =>
    obtain ⟨_, o₁, hone, hrest⟩ := bind_ok_iff.mp h
    have hone := parseOption_ok hone
    have hrest := ih hrest
    constructor
    · rw [hrest.archives, hone.archives]
      cases hr : r.archive with
      | none => simp [archiveNumbers, hr]
      | some n => simp [archiveNumbers, hr]
    · rw [hrest.config, hone.config]
      cases hr : r.config with
      | none => simp [hr]
      | some c => simp [hr, List.getLast?_cons]
    · intro n hn
      obtain ⟨r', hmem, hr'⟩ := List.mem_filterMap.mp hn
      rcases List.mem_cons.mp hmem with rfl | hlater
      · exact hone.number n hr'
      · exact hrest.numbers n (List.mem_filterMap.mpr ⟨r', hlater, hr'⟩)
    · exact fun hnonneg => hrest.reportInt (hone.reportInt hnonneg)

/-! ## The archive numbers in their array -/

/-- `o_archive_cnt` is the number of archive numbers and within the array, nothing was written
past the array, and the array begins with the numbers in order. -/
structure Archives.Hold (capacity : Nat) (a : Archives) (numbers : List Int) : Prop where
  count : a.oArchiveCnt = numbers.length
  fits : a.oArchiveCnt ≤ capacity
  inArray : a.pastArray = []
  values : a.oArchiveId.take a.oArchiveCnt = numbers

/-- One more number in an array that has room for it. -/
theorem Archives.Hold.store {capacity : Nat} {a : Archives} {numbers : List Int}
    (h : a.Hold capacity numbers) (hlen : a.oArchiveId.length = capacity) (id : Int)
    (hroom : numbers.length < capacity) : (a.store id).Hold capacity (numbers ++ [id]) where
  count := by simp [Archives.store, h.count]
  fits := by
    show a.oArchiveCnt + 1 ≤ capacity
    rw [h.count]
    exact hroom
  inArray := by simp [Archives.store, h.count, hlen, hroom, h.inArray]
  values := by
    show (a.oArchiveId.set a.oArchiveCnt id).take (a.oArchiveCnt + 1) = numbers ++ [id]
    have hin : a.oArchiveCnt < a.oArchiveId.length := by rw [h.count, hlen]; exact hroom
    rw [List.take_add_one, List.take_set_of_le (Nat.le_refl _), h.values]
    simp [hin]

/-- Numbers stored one after the other, as long as the array has room for all of them. -/
theorem Archives.Hold.store_all {capacity : Nat} {a : Archives} {done numbers : List Int}
    (h : a.Hold capacity done) (hlen : a.oArchiveId.length = capacity)
    (hroom : done.length + numbers.length ≤ capacity) :
    (numbers.foldl Archives.store a).Hold capacity (done ++ numbers) := by
  induction numbers generalizing a done with
  | nil =>
    rw [List.append_nil]
    exact h
  | cons n rest ih =>
    rw [List.length_cons] at hroom
    have hone := h.store hlen n (by omega)
    have hlen' : (a.store n).oArchiveId.length = capacity := by
      rw [Archives.store, List.length_set, hlen]
    have hall := ih hone hlen' (by rw [List.length_append, List.length_singleton]; omega)
    rw [List.append_assoc] at hall
    exact hall

theorem Archives.store_all_count (a : Archives) (numbers : List Int) :
    (numbers.foldl store a).oArchiveCnt = a.oArchiveCnt + numbers.length := by
  induction numbers generalizing a with
  | nil => rfl
  | cons n rest ih =>
    rw [List.foldl_cons, ih, List.length_cons]
    show a.oArchiveCnt + 1 + rest.length = a.oArchiveCnt + (rest.length + 1)
    omega

/-- Storing numbers in an empty array is faithful exactly if the array has room for all: the
count runs on past the end. -/
theorem archives_hold_iff (capacity : Nat) (numbers : List Int) :
    (numbers.foldl Archives.store ⟨0, List.replicate capacity 0, []⟩).Hold capacity numbers ↔
      numbers.length ≤ capacity := by
  constructor
  · intro h
    have hfits := h.fits
    rw [Archives.store_all_count] at hfits
    omega
  · intro hroom
    have hempty : Archives.Hold capacity ⟨0, List.replicate capacity 0, []⟩ [] :=
      ⟨rfl, Nat.zero_le _, rfl, rfl⟩
    apply hempty.store_all List.length_replicate
    rw [List.length_nil]
    omega

/-! ## A string in its array -/

/-- What `strncpy` leaves is the string, read within its array, exactly if the array is longer
than the string: `strncpy` writes no terminator behind a string that fills it. -/
theorem asString_strncpy_iff (s : CString) (n : Nat) :
    asString (strncpy s n) = some s ↔ s.chars.length < n := by
  unfold asString
  constructor
  · intro h
    split at h
    next hnul =>
      rcases List.mem_append.mp hnul with hin | hpad
      · exact absurd (List.mem_of_mem_take hin) s.nulFree
      · have := List.ne_nil_of_mem hpad
        simp only [ne_eq, List.replicate_eq_nil_iff] at this
        omega
    next => cases h
  · intro hlt
    have hcopy : strncpy s n = s.chars ++ nul :: List.replicate (n - s.chars.length - 1) nul := by
      unfold strncpy
      rw [List.take_of_length_le (by omega), ← List.replicate_succ]
      congr 2
      omega
    rw [hcopy, cstr_terminated]
    simp

/-! ## The config file -/

theorem lookupString_ok {entry : Option CString} {size : Nat}
    {copy : List Char → Options → Options} {o o' : Options}
    (h : lookupString entry size copy o = .ok () o') :
    ∃ s, entry = some s ∧ o' = copy (strncpy s size) o := by
  unfold lookupString at h
  split at h
  next s => cases h; exact ⟨s, rfl, rfl⟩
  next => cases h

theorem lookupSsl_ok {ssl : Option Bool} {o o' : Options} (h : lookupSsl ssl o = .ok () o') :
    ∃ p, o' = { o with protocol := p } := by
  unfold lookupSsl at h
  split at h
  next => cases h; exact ⟨.https, rfl⟩
  next => cases h; exact ⟨.http, rfl⟩
  next => cases h

theorem lookupMaxRequests_ok {entry : Option Int} {o o' : Options}
    (h : lookupMaxRequests entry o = .ok () o') :
    ∃ n, 0 < n ∧ o' = { o with maxRequests := n } := by
  unfold lookupMaxRequests at h
  split at h
  next n =>
    obtain ⟨_, o₁, hset, htest⟩ := bind_ok_iff.mp h
    cases hset
    split at htest
    next => cases htest
    next hpos =>
      cases htest
      exact ⟨n, by omega, rfl⟩
  next => cases h; exact ⟨maxHsmRequests, by decide, rfl⟩

/-- The character arrays hold the strings of the config file. -/
structure ArraysHold (file : ConfigFile) (o : Options) : Prop where
  accessKey : asString o.accessKey = file.accessKey
  secretKey : asString o.secretKey = file.secretKey
  host : asString o.host = file.host
  bucketName : asString o.bucketName = file.bucketName
  pathPrefix : asString o.pathPrefix = file.pathPrefix

/-- Every string of the config file is shorter than its array. -/
structure FileFits (sizes : Sizes) (file : ConfigFile) : Prop where
  accessKey : ∀ s, file.accessKey = some s → s.chars.length < sizes.keySize
  secretKey : ∀ s, file.secretKey = some s → s.chars.length < sizes.keySize
  host : ∀ s, file.host = some s → s.chars.length < sizes.hostnameSize
  bucketName : ∀ s, file.bucketName = some s → s.chars.length < sizes.bucketNameSize
  pathPrefix : ∀ s, file.pathPrefix = some s → s.chars.length < sizes.pathMax

/-- The array has what `strncpy` makes of the entry. -/
def Copied (entry : Option CString) (size : Nat) (array : List Char) : Prop :=
  ∃ s, entry = some s ∧ array = strncpy s size

theorem Copied.asString_iff {entry : Option CString} {size : Nat} {array : List Char}
    (h : Copied entry size array) :
    asString array = entry ↔ ∀ s, entry = some s → s.chars.length < size := by
  obtain ⟨s, rfl, rfl⟩ := h
  rw [asString_strncpy_iff]
  constructor
  · intro hlt s' hs'
    cases hs'
    exact hlt
  · intro hall
    exact hall s rfl

/-- An accepted config file has every entry, and each string is copied to its array. -/
structure FileCopied (sizes : Sizes) (file : ConfigFile) (o : Options) : Prop where
  accessKey : Copied file.accessKey sizes.keySize o.accessKey
  secretKey : Copied file.secretKey sizes.keySize o.secretKey
  host : Copied file.host sizes.hostnameSize o.host
  bucketName : Copied file.bucketName sizes.bucketNameSize o.bucketName
  pathPrefix : Copied file.pathPrefix sizes.pathMax o.pathPrefix

theorem FileCopied.hold_iff {sizes : Sizes} {file : ConfigFile} {o : Options}
    (h : FileCopied sizes file o) : ArraysHold file o ↔ FileFits sizes file := by
  constructor
  · intro hold
    exact
      { accessKey := h.accessKey.asString_iff.mp hold.accessKey
        secretKey := h.secretKey.asString_iff.mp hold.secretKey
        host := h.host.asString_iff.mp hold.host
        bucketName := h.bucketName.asString_iff.mp hold.bucketName
        pathPrefix := h.pathPrefix.asString_iff.mp hold.pathPrefix }
  · intro hfits
    exact
      { accessKey := h.accessKey.asString_iff.mpr hfits.accessKey
        secretKey := h.secretKey.asString_iff.mpr hfits.secretKey
        host := h.host.asString_iff.mpr hfits.host
        bucketName := h.bucketName.asString_iff.mpr hfits.bucketName
        pathPrefix := h.pathPrefix.asString_iff.mpr hfits.pathPrefix }

theorem parseConfig_ok {sizes : Sizes} {file : ConfigFile} {o o' : Options}
    (h : parseConfig sizes file o = .ok () o') :
    o'.archives = o.archives ∧ o'.oReportInt = o.oReportInt ∧ o'.oMnt = o.oMnt ∧
      0 < o'.maxRequests ∧ FileCopied sizes file o' := by
  obtain ⟨_, o₁, h₁, h⟩ := bind_ok_iff.mp h
  obtain ⟨_, o₂, h₂, h⟩ := bind_ok_iff.mp h
  obtain ⟨_, o₃, h₃, h⟩ := bind_ok_iff.mp h
  obtain ⟨_, o₄, h₄, h⟩ := bind_ok_iff.mp h
  obtain ⟨_, o₅, h₅, h⟩ := bind_ok_iff.mp h
  obtain ⟨_, o₆, h₆, h₇⟩ := bind_ok_iff.mp h
  -- every copy goes to an array of its own, so the later ones leave it alone
  obtain ⟨accessKey, haccess, rfl⟩ := lookupString_ok h₁
  obtain ⟨secretKey, hsecret, rfl⟩ := lookupString_ok h₂
  obtain ⟨host, hhost, rfl⟩ := lookupString_ok h₃
  obtain ⟨bucketName, hbucket, rfl⟩ := lookupString_ok h₄
  obtain ⟨pathPrefix, hpath, rfl⟩ := lookupString_ok h₅
  obtain ⟨protocol, rfl⟩ := lookupSsl_ok h₆
  obtain ⟨maxRequests, hpos, rfl⟩ := lookupMaxRequests_ok h₇
  exact ⟨rfl, rfl, rfl, hpos, ⟨accessKey, haccess, rfl⟩, ⟨secretKey, hsecret, rfl⟩, ⟨host, hhost, rfl⟩,
    ⟨bucketName, hbucket, rfl⟩, ⟨pathPrefix, hpath, rfl⟩⟩

theorem readConfig_ok {configs : CString → Option ConfigFile} {o o' : Options}
    {file : ConfigFile} (h : readConfig configs o = .ok file o') :
    configs o.oConfig = some file ∧ o' = o := by
  obtain ⟨o₁, _, hget, h⟩ := bind_ok_iff.mp h
  cases hget
  cases hfile : configs o.oConfig with
  | some file' =>
    simp only [hfile] at h
    cases h
    exact ⟨rfl, rfl⟩
  | none =>
    simp only [hfile] at h
    cases h

theorem parseMount_ok {operands : List CString} {o o' : Options}
    (h : parseMount operands o = .ok () o') :
    ∃ mnt, operands = [mnt] ∧ o' = { o with oMnt := some mnt, oMntFd := -1 } := by
  unfold parseMount at h
  split at h
  next mnt => cases h; exact ⟨mnt, rfl, rfl⟩
  next => cases h

/-- What an accepted command line has stored, before it is asked whether it fitted. -/
structure Accepted (sizes : Sizes) (configs : CString → Option ConfigFile) (opts : List OptRet)
    (operands : List CString) (o : Options) : Prop where
  archives : o.archives =
    (archiveNumbers opts).foldl Archives.store ⟨0, List.replicate sizes.maxArchive 0, []⟩
  file : ∃ file, configs (configName opts) = some file ∧ FileCopied sizes file o
  mount : ∃ mnt, operands = [mnt] ∧ o.oMnt = some mnt
  numbers : ∀ n ∈ archiveNumbers opts, 0 < n ∧ n ≤ intMax
  reportInt : 0 ≤ o.oReportInt
  maxRequests : 0 < o.maxRequests

theorem parseBody_ok {sizes : Sizes} {configs : CString → Option ConfigFile}
    {opts : List OptRet} {operands : List CString} {o : Options}
    (h : parseBody sizes configs opts operands (Options.initial sizes) = .ok () o) :
    Accepted sizes configs opts operands o := by
  obtain ⟨_, o₁, hopts, h⟩ := bind_ok_iff.mp h
  have hdone := parseOptions_ok hopts
  obtain ⟨_, o₂, hmount, h⟩ := bind_ok_iff.mp h
  obtain ⟨mnt, hoperands, rfl⟩ := parseMount_ok hmount
  obtain ⟨file, o₃, hread, h⟩ := bind_ok_iff.mp h
  obtain ⟨hfile, rfl⟩ := readConfig_ok hread
  obtain ⟨harchives, hreport, hmnt, hmax, hcopied⟩ := parseConfig_ok h
  -- the mount point and the config file leave what the loop has stored alone
  have hname : o₁.oConfig = configName opts := hdone.config
  exact
    { archives := by rw [harchives]; exact hdone.archives
      file := ⟨file, by rw [← hname]; exact hfile, hcopied⟩
      mount := ⟨mnt, hoperands, hmnt⟩
      numbers := hdone.numbers
      reportInt := by rw [hreport]; exact hdone.reportInt (show (0 : Int) ≤ 30 by decide)
      maxRequests := hmax }

/-! ## What is stored -/

/-- The options are stored faithfully: the archive numbers in their array, and the strings of the
config file that the command line asks for in theirs. -/
structure Stored (sizes : Sizes) (configs : CString → Option ConfigFile) (opts : List OptRet)
    (o : Options) : Prop where
  archives : o.archives.Hold sizes.maxArchive (archiveNumbers opts)
  arrays : ∃ file, configs (configName opts) = some file ∧ ArraysHold file o

/-- There is room for the archive numbers, and for the strings with their terminators. -/
structure Fits (sizes : Sizes) (configs : CString → Option ConfigFile)
    (opts : List OptRet) : Prop where
  archives : (archiveNumbers opts).length ≤ sizes.maxArchive
  file : ∀ file, configs (configName opts) = some file → FileFits sizes file

/-- **An accepted command line is stored faithfully if and only if everything fits.** The code
rejects neither a number of -A options beyond the array nor a string that fills its array. -/
theorem options_stored_iff (sizes : Sizes) (posixlyCorrect : Bool)
    (configs : CString → Option ConfigFile) (argv : List CString)
    (hret : (ctParseopts sizes posixlyCorrect configs argv).1 = .returned 0) :
    Stored sizes configs (getopts posixlyCorrect none argv.tail).1
        (ctParseopts sizes posixlyCorrect configs argv).2 ↔
      Fits sizes configs (getopts posixlyCorrect none argv.tail).1 := by
  have haccepted := parseBody_ok (ctParseopts_ok hret)
  obtain ⟨file, hfile, hcopied⟩ := haccepted.file
  have hnumbers := archives_hold_iff sizes.maxArchive
    (archiveNumbers (getopts posixlyCorrect none argv.tail).1)
  rw [← haccepted.archives] at hnumbers
  constructor
  · intro hstored
    obtain ⟨file', hfile', hhold⟩ := hstored.arrays
    rw [hfile] at hfile'
    cases hfile'
    refine ⟨hnumbers.mp hstored.archives, fun file' hfile' => ?_⟩
    rw [hfile] at hfile'
    cases hfile'
    exact hcopied.hold_iff.mp hhold
  · intro hfits
    exact ⟨hnumbers.mpr hfits.archives, file, hfile, hcopied.hold_iff.mpr (hfits.file file hfile)⟩

/-- A config file with short strings. -/
def sampleConfig : ConfigFile where
  accessKey := some (cstr "AKID".toList)
  secretKey := some (cstr "secret".toList)
  host := some (cstr "s3".toList)
  bucketName := some (cstr "hsm".toList)
  pathPrefix := some (cstr "/fs".toList)
  ssl := some true
  maxRequests := none

/-- A command line with two archive numbers. -/
theorem options_stored_two :
    (ctParseopts Sizes.upstream false (fun _ => some sampleConfig)
        (["s3", "-A1", "/mnt", "--archive=2"].map fun a => cstr a.toList)).1 = .returned 0 ∧
      (Stored Sizes.upstream (fun _ => some sampleConfig)
          (getopts false none (["-A1", "/mnt", "--archive=2"].map fun a => cstr a.toList)).1
          (ctParseopts Sizes.upstream false (fun _ => some sampleConfig)
            (["s3", "-A1", "/mnt", "--archive=2"].map fun a => cstr a.toList)).2 ↔
        Fits Sizes.upstream (fun _ => some sampleConfig)
          (getopts false none (["-A1", "/mnt", "--archive=2"].map fun a => cstr a.toList)).1) :=
  have hret : (ctParseopts Sizes.upstream false (fun _ => some sampleConfig)
      (["s3", "-A1", "/mnt", "--archive=2"].map fun a => cstr a.toList)).1 = .returned 0 := by
    decide +kernel
  ⟨hret, options_stored_iff _ _ _ _ hret⟩

/-- 33 archive numbers, one more than the array has room for: the command line is accepted, and
the last number is written past the array. -/
theorem archive_past_array :
    (ctParseopts Sizes.upstream false (fun _ => some sampleConfig)
        (cstr "s3".toList :: cstr "/mnt".toList :: List.replicate 33 (cstr "-A1".toList))).1 =
      .returned 0 ∧
      ¬ Stored Sizes.upstream (fun _ => some sampleConfig)
        (getopts false none (cstr "/mnt".toList :: List.replicate 33 (cstr "-A1".toList))).1
        (ctParseopts Sizes.upstream false (fun _ => some sampleConfig)
          (cstr "s3".toList :: cstr "/mnt".toList :: List.replicate 33 (cstr "-A1".toList))).2 := by
  constructor
  · decide +kernel
  · intro hstored
    exact absurd hstored.archives.inArray (by decide +kernel)

end Estuary
