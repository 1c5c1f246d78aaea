import Mathlib.Data.List.Induction
import Estuary.Spec.LogFile

/-!
# Estuary — the log's files are a spool

Whatever the system calls answer and whenever `gzip` ends, the log's directory is a spool of dated
segments: the archived files, and the ones still to be archived.

* **`firstFree_archive`** — an archived file gets a name that nothing has, and that is taken for one;
* **`oldest_spec`** — the listing finds an oldest archived file;
* **`fileStep_follows`** — every step of the log is a run of the spool.
-/

namespace Estuary

open Engine

variable {conf : LogFileConf}

/-! ## Names -/

theorem strstr_append (needle : List Char) (l : List Char) : (strstr needle (l ++ needle)).isSome := by
  induction l with
  | nil =>
    rw [List.nil_append]
    cases needle with
    | nil => rfl
    | cons c needle =>
      have hself : (c :: needle).isPrefixOf (c :: needle) = true :=
        List.isPrefixOf_iff_prefix.mpr (List.prefix_refl _)
      rw [strstr, if_pos hself]
      rfl
  | cons c l ih =>
    rw [List.cons_append, strstr]
    split
    · rfl
    · rw [Option.isSome_map]
      exact ih

theorem archiveFile_inj (mtime i j : Nat) (h : conf.archiveFile mtime i = conf.archiveFile mtime j) :
    i = j := by
  have hnumber := List.append_cancel_left (List.append_cancel_right h)
  split at hnumber <;> split at hnumber
  · next hi hj => rw [hi, hj]
  · cases hnumber
  · cases hnumber
  · have hdigits := congrArg (Nat.ofDigitChars 10 · 0) (List.cons.inj hnumber).2
    simp only [Nat.ofDigitChars_toDigits (by decide : 1 < 10) (by decide : 10 ≤ 10)] at hdigits
    exact hdigits

theorem isArchive_archiveFile (mtime i : Nat) (file : LogFile) :
    conf.isArchive (conf.archiveFile mtime i, file) = true := by
  unfold LogFileConf.isArchive LogFileConf.archiveFile
  rw [Bool.and_eq_true]
  refine ⟨strstr_append _ _, List.isPrefixOf_iff_prefix.mpr ?_⟩
  simp [List.append_assoc]

theorem ne_nil_of_archive {name : List Char} {file : LogFile} (h : conf.isArchive (name, file) = true) :
    name ≠ [] := by
  rintro rfl
  rw [LogFileConf.isArchive, Bool.and_eq_true] at h
  have hnil := List.prefix_nil.mp (List.isPrefixOf_iff_prefix.mp h.2)
  exact absurd (List.append_eq_nil_iff.mp hnil).2 (by decide)

/-- The names of files that have not been archived. -/
def LogFileConf.Live (conf : LogFileConf) (name : List Char) : Prop :=
  name = conf.logname ∨ name = conf.pendingFile ∨ name = conf.gzipFile

theorem LogFileConf.Live.not_archive {name : List Char} (h : conf.Live name) (file : LogFile) :
    conf.isArchive (name, file) = false := by
  have hnot : ¬ conf.logname ++ ['-'] <+: name := by
    intro hdash
    rcases h with rfl | rfl | rfl
    · have := hdash.length_le
      rw [List.length_append, List.length_singleton] at this
      omega
    · have := List.prefix_append_right_inj conf.logname |>.mp hdash
      exact absurd this (by decide)
    · have := List.prefix_append_right_inj conf.logname |>.mp hdash
      exact absurd this (by decide)
  rw [LogFileConf.isArchive, Bool.and_eq_false_iff]
  exact Or.inr (Bool.eq_false_iff.mpr fun hdash => hnot (List.isPrefixOf_iff_prefix.mp hdash))

theorem LogFileConf.Live.ne_of_archive {name other : List Char} {file : LogFile} (h : conf.Live name)
    (hother : conf.isArchive (other, file) = true) : name ≠ other := by
  rintro rfl
  rw [h.not_archive] at hother
  cases hother

theorem pending_ne_logname : conf.pendingFile ≠ conf.logname :=
  fun h => absurd (List.append_right_eq_self.mp h) (by decide)

theorem gzip_ne_logname : conf.gzipFile ≠ conf.logname :=
  fun h => absurd (List.append_right_eq_self.mp h) (by decide)

theorem gzip_ne_pending : conf.gzipFile ≠ conf.pendingFile :=
  fun h => absurd (List.append_cancel_left h) (by decide)

/-- **The archived file's name** is free, and one of an archived file. -/
theorem firstFree_archive (conf : LogFileConf) (dir : LogDir) (mtime : Nat) :
    dir.find (dir.firstFree (conf.archiveFile mtime) dir.entries.length 0) = none
      ∧ ∀ file, conf.isArchive
        (dir.firstFree (conf.archiveFile mtime) dir.entries.length 0, file) = true := by
  refine ⟨firstFree_free dir (archiveFile_inj mtime), fun file => ?_⟩
  obtain ⟨i, hi⟩ := firstFree_eq dir (conf.archiveFile mtime) dir.entries.length 0
  rw [hi]
  exact isArchive_archiveFile mtime i file

/-! ## The oldest file -/

/-- The listing found nothing, or a file that is as old as the others that it takes for archived ones. -/
theorem oldest_spec (conf : LogFileConf) (entries : List (List Char × LogFile)) :
    (entries.foldl (tlogGetOldestCallback conf) (0, []) = (0, [])
        ∧ ∀ e ∈ entries, conf.isArchive e = false)
      ∨ ∃ name file, entries.foldl (tlogGetOldestCallback conf) (0, []) = (file.time, name)
        ∧ (name, file) ∈ entries ∧ conf.isArchive (name, file) = true
        ∧ ((∀ e ∈ entries, conf.isArchive e = true → e.2.time ≠ 0) →
            ∀ e ∈ entries, conf.isArchive e = true → file.time ≤ e.2.time) := by
  induction entries using List.reverseRec with
  | nil => exact Or.inl ⟨rfl, fun _ he => absurd he List.not_mem_nil⟩
  | append_singleton entries e ih =>
    simp only [List.foldl_append, List.foldl_cons, List.foldl_nil, List.mem_append, List.mem_singleton]
    have hmem : ∀ {e'}, e' ∈ entries → e' ∈ entries ∨ e' = e := Or.inl
    cases harch : conf.isArchive e with
    | false =>
      -- the entry is passed over
      have hskip : ∀ oldest, tlogGetOldestCallback conf oldest e = oldest := fun oldest =>
        if_pos harch
      rw [hskip]
      rcases ih with ⟨hnone, hall⟩ | ⟨name, file, heq, hin, hname, hmin⟩
      · refine Or.inl ⟨hnone, ?_⟩
        rintro e' (he | rfl)
        · exact hall e' he
        · exact harch
      · refine Or.inr ⟨name, file, heq, hmem hin, hname, ?_⟩
        rintro hdates e' (he | rfl) hkind
        · exact hmin (fun e'' he'' => hdates e'' (hmem he'')) e' he hkind
        · rw [harch] at hkind
          cases hkind
    | true =>
      have htake : ∀ oldest, tlogGetOldestCallback conf oldest e
          = if oldest.1 = 0 ∨ oldest.1 > e.2.time then (e.2.time, e.1) else oldest := fun oldest =>
        if_neg (by rw [harch]; decide)
      rw [htake]
      rcases ih with ⟨hnone, hall⟩ | ⟨name, file, heq, hin, hname, hmin⟩
      · rw [hnone, if_pos (Or.inl rfl)]
        refine Or.inr ⟨e.1, e.2, rfl, Or.inr rfl, harch, ?_⟩
        rintro - e' (he | rfl) hkind
        · rw [hall e' he] at hkind
          cases hkind
        · exact Nat.le_refl _
      · rw [heq]
        split
        · next hnewer =>
          refine Or.inr ⟨e.1, e.2, rfl, Or.inr rfl, harch, ?_⟩
          rintro hdates e' (he | rfl) hkind
          · have hle := hmin (fun e'' he'' => hdates e'' (hmem he'')) e' he hkind
            have hdate := hdates _ (hmem hin) hname
            exact Nat.le_trans (Nat.le_of_lt (hnewer.resolve_left hdate)) hle
          · exact Nat.le_refl _
        · next hnewer =>
          refine Or.inr ⟨name, file, rfl, hmem hin, hname, ?_⟩
          rintro hdates e' (he | rfl) hkind
          · exact hmin (fun e'' he'' => hdates e'' (hmem he'')) e' he hkind
          · exact Nat.le_of_not_lt fun hlt => hnewer (Or.inr hlt)

/-! ## The spool -/

/-- The files that have not been archived, in the order in which they were begun. -/
def TlogFile.staged (conf : LogFileConf) (s : TlogFile) : List LogFile :=
  (if s.nocompress then [] else (s.dir.find conf.gzipFile).toList)
    ++ (s.dir.find conf.pendingFile).toList ++ (s.dir.find conf.logname).toList

/-- The archived files. -/
def TlogFile.archives (conf : LogFileConf) (s : TlogFile) : List LogFile :=
  (s.dir.entries.filter conf.isArchive).map Prod.snd

def TlogFile.spool (conf : LogFileConf) (s : TlogFile) : Spool UInt8 :=
  ⟨s.clock, s.staged conf, s.archives conf, s.archived, s.removed, s.written⟩

/-- The log's files are those of the spool. -/
structure Spools (conf : LogFileConf) (s : TlogFile) (c : Spool UInt8) : Prop where
  clock : c.clock = s.clock
  staged : c.staged = s.staged conf
  kept : c.kept.Perm (s.archives conf)
  archived : c.archived = s.archived
  evicted : c.evicted = s.removed
  written : c.written = s.written

theorem spools_spool (s : TlogFile) : Spools conf s (s.spool conf) :=
  ⟨rfl, rfl, List.Perm.refl _, rfl, rfl, rfl⟩

/-- What the log does from the one state to the other, the spool does. -/
def Follows (conf : LogFileConf) (s t : TlogFile) : Prop :=
  ∀ c, Spools conf s c → ∃ acts d, exec spoolStep c acts = some d ∧ Spools conf t d

section Follows

variable {s t u : TlogFile}

theorem Follows.of_spools (h : ∀ c, Spools conf s c → Spools conf t c) : Follows conf s t :=
  fun c hc => ⟨[], c, rfl, h c hc⟩

theorem Follows.refl (s : TlogFile) : Follows conf s s := .of_spools fun _ h => h

theorem Follows.trans (hst : Follows conf s t) (htu : Follows conf t u) : Follows conf s u := by
  intro c hc
  obtain ⟨acts, d, hacts, hd⟩ := hst c hc
  obtain ⟨acts', d', hacts', hd'⟩ := htu d hd
  exact ⟨acts ++ acts', d', exec_append hacts hacts', hd'⟩

/-- One step of the spool. -/
theorem Follows.single (a : SpoolAct UInt8)
    (h : ∀ c, Spools conf s c → ∃ d, spoolStep c a = some d ∧ Spools conf t d) : Follows conf s t := by
  intro c hc
  obtain ⟨d, hd, hspools⟩ := h c hc
  exact ⟨[a], d, by rw [exec, hd]; rfl, hspools⟩

end Follows

/-! ## Archiving -/

/-- The log's invariant. -/
structure TlogFile.Sound (conf : LogFileConf) (s : TlogFile) : Prop where
  opened : s.fd = true → ∃ file, s.dir.find conf.logname = some file ∧ file.text.length = s.filesize
  zip : s.zipPid ≠ .none → s.nocompress = true → s.dir.find conf.gzipFile = none
  running : s.zipPid = .running → s.nocompress = false

/-- What is done to the archived files, and to the one that becomes an archived file. -/
structure Tidies (conf : LogFileConf) (s : TlogFile) (logFile : List Char) (t : TlogFile) : Prop where
  same : t = { s with dir := t.dir, archived := t.archived, removed := t.removed }
  live : ∀ name, conf.Live name → name ≠ logFile → t.dir.find name = s.dir.find name
  left : t.dir.find logFile = none ∨ t.dir.find logFile = s.dir.find logFile
  follows : Follows conf s t

/-- The first of the files that have not been archived. -/
def Front (conf : LogFileConf) (s : TlogFile) (logFile : List Char) : Prop :=
  (logFile = conf.gzipFile ∧ s.nocompress = false) ∨ (logFile = conf.pendingFile ∧ s.nocompress = true)

section Archiving

variable {s t u : TlogFile} {logFile : List Char}

theorem live_logname : conf.Live conf.logname := Or.inl rfl

theorem live_pending : conf.Live conf.pendingFile := Or.inr (Or.inl rfl)

theorem live_gzip : conf.Live conf.gzipFile := Or.inr (Or.inr rfl)

theorem Front.live (h : Front conf s logFile) : conf.Live logFile := by
  obtain ⟨rfl, -⟩ | ⟨rfl, -⟩ := h
  · exact live_gzip
  · exact live_pending

theorem Front.ne_logname (h : Front conf s logFile) : conf.logname ≠ logFile := by
  obtain ⟨rfl, -⟩ | ⟨rfl, -⟩ := h
  · exact gzip_ne_logname.symm
  · exact pending_ne_logname.symm

theorem staged_congr (hnocompress : t.nocompress = s.nocompress)
    (hlive : ∀ name, conf.Live name → t.dir.find name = s.dir.find name) :
    t.staged conf = s.staged conf := by
  unfold TlogFile.staged
  rw [hnocompress, hlive _ live_gzip, hlive _ live_pending, hlive _ live_logname]

/-- The file in front, and the others. -/
theorem Front.staged {file : LogFile} (h : Front conf s logFile) (hfind : s.dir.find logFile = some file)
    (hnocompress : t.nocompress = s.nocompress) (hgone : t.dir.find logFile = none)
    (hlive : ∀ name, conf.Live name → name ≠ logFile → t.dir.find name = s.dir.find name) :
    s.staged conf = file :: t.staged conf := by
  unfold TlogFile.staged
  rw [hnocompress, hlive _ live_logname h.ne_logname]
  obtain ⟨rfl, hn⟩ | ⟨rfl, hn⟩ := h
  · rw [hn, hfind, hgone, hlive _ live_pending gzip_ne_pending.symm]
    rfl
  · rw [hn, hfind, hgone]
    rfl

theorem Tidies.refl (s : TlogFile) (logFile : List Char) : Tidies conf s logFile s :=
  ⟨rfl, fun _ _ _ => rfl, Or.inr rfl, .refl s⟩

theorem Tidies.trans (hst : Tidies conf s logFile t) (htu : Tidies conf t logFile u) :
    Tidies conf s logFile u where
  same := by
    rw [htu.same, hst.same]
  live name hname hne := (htu.live name hname hne).trans (hst.live name hname hne)
  left := by
    rcases htu.left with hgone | hkept
    · exact Or.inl hgone
    · rw [hkept]
      exact hst.left
  follows := hst.follows.trans htu.follows

theorem TlogFile.Sound.tidies (h : s.Sound conf) (htidies : Tidies conf s logFile t)
    (hne : conf.logname ≠ logFile) : t.Sound conf where
  opened hfd := by
    rw [congrArg TlogFile.fd htidies.same] at hfd
    rw [htidies.live _ live_logname hne, congrArg TlogFile.filesize htidies.same]
    exact h.opened hfd
  zip hzip hnocompress := by
    rw [congrArg TlogFile.zipPid htidies.same] at hzip
    rw [congrArg TlogFile.nocompress htidies.same] at hnocompress
    have hnone := h.zip hzip hnocompress
    by_cases hgzip : conf.gzipFile = logFile
    · subst hgzip
      rcases htidies.left with hgone | hkept
      · exact hgone
      · rw [hkept, hnone]
    · rw [htidies.live _ live_gzip hgzip, hnone]
  running hzip := by
    rw [congrArg TlogFile.zipPid htidies.same] at hzip
    rw [congrArg TlogFile.nocompress htidies.same]
    exact h.running hzip

/-- A file is renamed to a free name of an archived file, or nothing happens. -/
theorem tlogRenameLogfile_cases (conf : LogFileConf) (s : TlogFile) (logFile : List Char)
    (ans : RenameAnswers) :
    (tlogRenameLogfile conf s logFile ans = (s, false)
        ∧ (s.dir.find logFile = none ∨ ans.stat = false ∨ ans.rename = false))
      ∨ ∃ file name, s.dir.find logFile = some file ∧ s.dir.find name = none
        ∧ (∀ file, conf.isArchive (name, file) = true)
        ∧ tlogRenameLogfile conf s logFile ans =
          ({ s with
            dir := (s.dir.remove logFile).put name file
            archived := s.archived ++ [file] }, true) := by
  unfold tlogRenameLogfile
  cases hfind : s.dir.find logFile with
  | none => exact Or.inl ⟨rfl, Or.inl rfl⟩
  | some file =>
    dsimp only
    split
    · next hstat => exact Or.inl ⟨rfl, Or.inr (Or.inl hstat)⟩
    split
    · obtain ⟨hfree, hkind⟩ := firstFree_archive conf s.dir file.time
      exact Or.inr ⟨file, _, rfl, hfree, hkind, rfl⟩
    · next hrename => exact Or.inl ⟨rfl, Or.inr (Or.inr (Bool.not_eq_true _ ▸ hrename))⟩

/-- The new name was free, and the old one was not that of an archived file. -/
theorem filter_rename {name : List Char} {file : LogFile} (hlive : conf.Live logFile)
    (hfree : s.dir.find name = none) (hkind : ∀ file, conf.isArchive (name, file) = true) :
    ((s.dir.remove logFile).put name file).entries.filter conf.isArchive
      = s.dir.entries.filter conf.isArchive ++ [(name, file)] := by
  rw [filter_put, filter_remove_of_not, filter_remove_of_not]
  · simp [hkind file]
  · exact fun file' _ => hlive.not_archive file'
  · intro file' hname
    rw [find_remove_of_ne (hlive.ne_of_archive (hkind file)).symm, hfree] at hname
    cases hname

/-- A file that is renamed is archived, unless nothing happens. -/
theorem tlogRenameLogfile_tidies (hfront : Front conf s logFile) (ans : RenameAnswers) :
    tlogRenameLogfile conf s logFile ans = (s, false)
      ∨ (tlogRenameLogfile conf s logFile ans).2 = true
        ∧ (tlogRenameLogfile conf s logFile ans).1.dir.find logFile = none
        ∧ Tidies conf s logFile (tlogRenameLogfile conf s logFile ans).1 := by
  rcases tlogRenameLogfile_cases conf s logFile ans with ⟨heq, -⟩ | ⟨file, name, hfind, hfree, hkind, heq⟩
  · exact Or.inl heq
  rw [heq]
  have hlive : ∀ other, conf.Live other → other ≠ logFile →
      ((s.dir.remove logFile).put name file).find other = s.dir.find other := fun other hother hne =>
    (find_put_of_ne (hother.ne_of_archive (hkind file))).trans (find_remove_of_ne hne)
  have hgone : ((s.dir.remove logFile).put name file).find logFile = none :=
    (find_put_of_ne (hfront.live.ne_of_archive (hkind file))).trans (find_remove_self ..)
  refine Or.inr ⟨rfl, hgone, rfl, hlive, Or.inl hgone, .single .archive fun c hc => ?_⟩
  have hstaged : s.staged conf = file ::
      TlogFile.staged conf { s with dir := (s.dir.remove logFile).put name file } :=
    hfront.staged hfind rfl hgone hlive
  refine ⟨{ c with
    staged := TlogFile.staged conf { s with dir := (s.dir.remove logFile).put name file }
    kept := c.kept ++ [file]
    archived := c.archived ++ [file] }, ?_, hc.clock, rfl, ?_, ?_, hc.evicted, hc.written⟩
  · rw [spoolStep, hc.staged, hstaged]
  · unfold TlogFile.archives
    rw [filter_rename hfront.live hfree hkind, List.map_append]
    exact hc.kept.append_right _
  · exact congrArg (· ++ [file]) hc.archived

/-- An oldest file is removed, unless nothing happens. -/
theorem tlogRemoveOldestlog_tidies (s : TlogFile) (logFile : List Char) (list unlink : Bool) :
    Tidies conf s logFile (tlogRemoveOldestlog conf s list unlink) := by
  unfold tlogRemoveOldestlog
  split
  · exact .refl s logFile
  dsimp only
  split
  · exact .refl s logFile
  next hname =>
    rcases oldest_spec conf s.dir.entries with ⟨hnone, -⟩ | ⟨name, file, heq, hin, hkind, hmin⟩
    · exact absurd (Or.inl (by rw [hnone])) hname
    · rw [heq]
      dsimp only
      rw [find_iff.mpr hin]
      show Tidies conf s logFile
        { s with dir := s.dir.remove name, removed := s.removed ++ [file] }
      have hlive : ∀ other, conf.Live other → (s.dir.remove name).find other = s.dir.find other :=
        fun other hother => find_remove_of_ne (hother.ne_of_archive hkind)
      have hkept : (s.archives conf).Perm
          (file :: TlogFile.archives conf { s with dir := s.dir.remove name }) :=
        (filter_remove (find_iff.mpr hin) hkind).map Prod.snd
      refine ⟨rfl, fun other hother _ => hlive other hother, ?_, .single (.evict file) fun c hc => ?_⟩
      · by_cases hne : logFile = name
        · rw [hne]
          exact Or.inl (find_remove_self ..)
        · exact Or.inr (find_remove_of_ne hne)
      · have hc' := hc.kept.trans hkept
        have hall : ∀ other, other ∈ c.kept ↔ ∃ e ∈ s.dir.entries, conf.isArchive e = true ∧ e.2 = other :=
          fun other => by
            rw [hc.kept.mem_iff, TlogFile.archives, List.mem_map]
            simp only [List.mem_filter, and_assoc]
        have hmem : file ∈ c.kept := (hall file).mpr ⟨_, hin, hkind, rfl⟩
        have holdest : c.Oldest file := by
          intro hdates other hother
          obtain ⟨e, he, hekind, rfl⟩ := (hall other).mp hother
          exact hmin (fun e' he' hkind' => hdates _ ((hall _).mpr ⟨e', he', hkind', rfl⟩)) e he hekind
        refine ⟨{ c with kept := c.kept.erase file, evicted := c.evicted ++ [file] },
          if_pos ⟨hmem, holdest⟩, hc.clock, ?_, ?_, hc.archived, ?_, hc.written⟩
        · have hstaged : TlogFile.staged conf { s with dir := s.dir.remove name } = s.staged conf :=
            staged_congr rfl hlive
          exact hc.staged.trans hstaged.symm
        · have herase := hc'.erase file
          rwa [List.erase_cons_head] at herase
        · exact congrArg (· ++ [file]) hc.evicted

theorem tlogRemoveOldlog_tidies (conf : LogFileConf) (s : TlogFile) (logFile : List Char)
    (ans : RemoveAnswers) : Tidies conf s logFile (tlogRemoveOldlog conf s ans) := by
  unfold tlogRemoveOldlog
  split
  · exact .refl s logFile
  · generalize List.range _ = is
    induction is generalizing s with
    | nil => exact .refl s logFile
    | cons i is ih => exact (tlogRemoveOldestlog_tidies s logFile _ _).trans (ih _)

theorem tidy_tidies (hfront : Front conf s logFile) (ans : TidyAnswers) :
    Tidies conf s logFile (tidy conf s logFile ans) := by
  unfold tidy
  rcases tlogRenameLogfile_tidies hfront ans.rename with heq | ⟨hdone, -, htidies⟩
  · rw [heq]
    exact .refl s logFile
  · dsimp only
    rw [if_pos hdone]
    exact htidies.trans (tlogRemoveOldlog_tidies conf _ logFile ans.remove)

end Archiving

section Steps

variable {s t : TlogFile} {d : LogDir} {name : List Char}

theorem filter_remove_live (hname : conf.Live name) :
    (d.remove name).entries.filter conf.isArchive = d.entries.filter conf.isArchive :=
  filter_remove_of_not fun file _ => hname.not_archive file

theorem filter_put_live (hname : conf.Live name) (file : LogFile) :
    (d.put name file).entries.filter conf.isArchive = d.entries.filter conf.isArchive := by
  rw [filter_put, filter_remove_live hname]
  simp [hname.not_archive file]

/-- Other files that have not been archived, in the place of the ones there were. -/
theorem Spools.restage {c : Spool UInt8} (hc : Spools conf s c) (hclock : t.clock = s.clock)
    (hstaged : t.staged conf = s.staged conf)
    (hentries : t.dir.entries.filter conf.isArchive = s.dir.entries.filter conf.isArchive)
    (harchived : t.archived = s.archived) (hremoved : t.removed = s.removed)
    (hwritten : t.written = s.written) : Spools conf t c where
  clock := hc.clock.trans hclock.symm
  staged := hc.staged.trans hstaged.symm
  kept := by
    rw [TlogFile.archives, hentries]
    exact hc.kept
  archived := hc.archived.trans harchived.symm
  evicted := hc.evicted.trans hremoved.symm
  written := hc.written.trans hwritten.symm

/-- The log file becomes the pending one. -/
theorem toPending_keeps (conf : LogFileConf) (s : TlogFile) (rename : Bool) :
    (toPending conf s rename).1 = { s with dir := (toPending conf s rename).1.dir }
      ∧ (toPending conf s rename).1.dir.find conf.gzipFile = s.dir.find conf.gzipFile
      ∧ (toPending conf s rename).1.archives conf = s.archives conf
      ∧ Follows conf s (toPending conf s rename).1 := by
  unfold toPending
  split
  · exact ⟨rfl, rfl, rfl, .refl s⟩
  next hpending =>
    have hnone := Option.not_isSome_iff_eq_none.mp hpending
    cases hfind : s.dir.find conf.logname with
    | none => exact ⟨rfl, rfl, rfl, .refl s⟩
    | some file =>
      dsimp only
      split
      · have hgzip : ((s.dir.remove conf.logname).put conf.pendingFile file).find conf.gzipFile
            = s.dir.find conf.gzipFile :=
          (find_put_of_ne gzip_ne_pending).trans (find_remove_of_ne gzip_ne_logname)
        have hentries : ((s.dir.remove conf.logname).put conf.pendingFile file).entries.filter
            conf.isArchive = s.dir.entries.filter conf.isArchive := by
          rw [filter_put_live live_pending, filter_remove_live live_logname]
        refine ⟨rfl, hgzip, congrArg (List.map Prod.snd) hentries,
          .of_spools fun c hc => hc.restage rfl ?_ hentries rfl rfl rfl⟩
        unfold TlogFile.staged
        dsimp only
        rw [hgzip, find_put_self, find_put_of_ne pending_ne_logname.symm, find_remove_self, hnone, hfind]
        simp
      · exact ⟨rfl, rfl, rfl, .refl s⟩

/-- A state in which the log file is not open. -/
theorem TlogFile.Sound.closed (hfd : t.fd = false)
    (hzip : t.zipPid ≠ .none → t.nocompress = true → t.dir.find conf.gzipFile = none)
    (hrunning : t.zipPid = .running → t.nocompress = false) : t.Sound conf :=
  ⟨fun h => absurd (hfd.symm.trans h) (by decide), hzip, hrunning⟩

theorem startGzip_keeps (hsound : s.Sound conf) (hzip : s.zipPid = .none) (hn : s.nocompress = false)
    (hgzip : s.dir.find conf.gzipFile = none) (fork : ForkAnswer) :
    (startGzip s fork).Sound conf ∧ Follows conf s (startGzip s fork) := by
  have hstaged : TlogFile.staged conf { s with nocompress := true } = s.staged conf := by
    unfold TlogFile.staged
    dsimp only
    rw [hn, hgzip]
    rfl
  cases fork with
  | started =>
    exact ⟨⟨hsound.opened, fun _ _ => hgzip, fun _ => hn⟩,
      .of_spools fun c hc => hc.restage rfl rfl rfl rfl rfl rfl⟩
  | noExec =>
    exact ⟨⟨hsound.opened, fun _ _ => hgzip, fun h => by cases h⟩,
      .of_spools fun c hc => hc.restage rfl hstaged rfl rfl rfl rfl⟩
  | denied =>
    refine ⟨⟨hsound.opened, fun _ _ => hgzip, fun h => ?_⟩,
      .of_spools fun c hc => hc.restage rfl hstaged rfl rfl rfl rfl⟩
    have hrunning : s.zipPid = .running := h
    rw [hzip] at hrunning
    cases hrunning
  | failed => exact ⟨hsound, .refl s⟩

theorem tlogArchiveLog_keeps (hsound : s.Sound conf) (hfd : s.fd = false) (hzip : s.zipPid = .none)
    (ans : ArchiveAnswers) :
    (tlogArchiveLog conf s ans).Sound conf ∧ Follows conf s (tlogArchiveLog conf s ans) := by
  unfold tlogArchiveLog
  cases hn : s.nocompress with
  | true =>
    rw [if_pos rfl, tlogArchiveLogNocompress]
    obtain ⟨hsame, -, -, hfollows⟩ := toPending_keeps conf s ans.rename
    generalize toPending conf s ans.rename = r at hsame hfollows
    have hr : r.1.Sound conf := by
      rw [hsame]
      exact .closed hfd (fun h => absurd hzip h) fun h => by rw [hzip] at h; cases h
    split
    · have hfront : Front conf r.1 conf.pendingFile :=
        Or.inr ⟨rfl, (congrArg TlogFile.nocompress hsame).trans hn⟩
      have htidies := tidy_tidies hfront ans.tidy
      exact ⟨hr.tidies htidies hfront.ne_logname, hfollows.trans htidies.follows⟩
    · exact ⟨hr, hfollows⟩
  | false =>
    rw [if_neg (by decide), tlogArchiveLogCompressed]
    -- a compressed file that was left over
    have hleftover : ∃ r : TlogFile × Bool, (if (s.dir.find conf.gzipFile).isSome then
          tlogRenameLogfile conf s conf.gzipFile ans.leftover else (s, true)) = r
        ∧ Tidies conf s conf.gzipFile r.1 ∧ (r.2 = true → r.1.dir.find conf.gzipFile = none) := by
      refine ⟨_, rfl, ?_⟩
      split
      · rcases tlogRenameLogfile_tidies (Or.inl ⟨rfl, hn⟩) ans.leftover with heq | ⟨-, hgone, htidies⟩
        · rw [heq]
          exact ⟨.refl s _, fun h => by cases h⟩
        · exact ⟨htidies, fun _ => hgone⟩
      · next hnone => exact ⟨.refl s _, fun _ => Option.not_isSome_iff_eq_none.mp hnone⟩
    obtain ⟨r, heq, htidies, hgone⟩ := hleftover
    rw [heq]
    have hr := hsound.tidies htidies gzip_ne_logname.symm
    have hrfd : r.1.fd = false := (congrArg TlogFile.fd htidies.same).trans hfd
    dsimp only
    split
    · exact ⟨hr, htidies.follows⟩
    next hrenamed =>
      have hgzip := hgone (Bool.not_eq_false _ ▸ hrenamed)
      obtain ⟨hsame, hgzip', -, hfollows⟩ := toPending_keeps conf r.1 ans.rename
      generalize toPending conf r.1 ans.rename = r' at hsame hgzip' hfollows
      have hn' : r'.1.nocompress = false :=
        (congrArg TlogFile.nocompress hsame).trans ((congrArg TlogFile.nocompress htidies.same).trans hn)
      have hr' : r'.1.Sound conf := .closed ((congrArg TlogFile.fd hsame).trans hrfd)
        (fun _ _ => hgzip'.trans hgzip) (fun _ => hn')
      split
      · exact ⟨hr', htidies.follows.trans hfollows⟩
      split
      · next hpid =>
        have hstart := startGzip_keeps hr' hpid hn' (hgzip'.trans hgzip) ans.fork
        exact ⟨hstart.1, (htidies.follows.trans hfollows).trans hstart.2⟩
      · exact ⟨hr', htidies.follows.trans hfollows⟩

theorem tlogWaitPid_keeps (hsound : s.Sound conf) (ans : TidyAnswers) :
    (tlogWaitPid conf s ans).Sound conf ∧ Follows conf s (tlogWaitPid conf s ans) := by
  unfold tlogWaitPid
  split
  · next hended =>
    have hcleared : TlogFile.Sound conf { s with zipPid := .none } :=
      ⟨hsound.opened, fun h => absurd rfl h, fun h => by cases h⟩
    have hfollows : Follows conf s { s with zipPid := .none } :=
      .of_spools fun c hc => hc.restage rfl rfl rfl rfl rfl rfl
    rcases Bool.eq_false_or_eq_true s.nocompress with hn | hn
    · -- there is no compressed file, and nothing to rename
      have hnone : s.dir.find conf.gzipFile = none :=
        hsound.zip (by rw [hended]; decide) hn
      have htidy : tidy conf { s with zipPid := .none } conf.gzipFile ans = { s with zipPid := .none } := by
        unfold tidy tlogRenameLogfile
        dsimp only
        rw [hnone]
        rfl
      rw [htidy]
      exact ⟨hcleared, hfollows⟩
    · have hfront : Front conf { s with zipPid := .none } conf.gzipFile := Or.inl ⟨rfl, hn⟩
      have htidies := tidy_tidies hfront ans
      exact ⟨hcleared.tidies htidies hfront.ne_logname, hfollows.trans htidies.follows⟩
  · exact ⟨hsound, .refl s⟩

/-! ## Writing -/

/-- The log file is opened, or only counters and flags change. -/
theorem openLogfile_cases (conf : LogFileConf) (s : TlogFile) (mkdir : MkdirAnswer) (opened : Bool) :
    (∃ filesize logcount lastTry printErrmsg logscreen, logcount ≤ s.logcount
        ∧ openLogfile conf s mkdir opened = ({ s with
          filesize := filesize, logcount := logcount, lastTry := lastTry
          printErrmsg := printErrmsg, logscreen := logscreen }, false))
      ∨ openLogfile conf s mkdir opened =
        ({ s with
          dir := if (s.dir.find conf.logname).isSome then s.dir
            else s.dir.put conf.logname ⟨s.clock, []⟩
          fd := true, lastTry := 0, printErrmsg := true, filesize := s.seekEnd conf }, true) := by
  unfold openLogfile
  split
  · exact Or.inl ⟨_, _, _, _, _, Nat.le_refl _, rfl⟩
  cases mkdir with
  | made =>
    dsimp only
    split
    · exact Or.inl ⟨_, _, _, _, _, Nat.le_refl _, rfl⟩
    · exact Or.inr rfl
  | denied =>
    dsimp only
    split
    · exact Or.inl ⟨_, _, _, _, _, Nat.zero_le _, rfl⟩
    · exact Or.inl ⟨_, _, _, _, _, Nat.le_refl _, rfl⟩
  | failed => exact Or.inl ⟨_, _, _, _, _, Nat.le_refl _, rfl⟩

theorem openLogfile_keeps (hsound : s.Sound conf) (hfd : s.fd = false) (mkdir : MkdirAnswer)
    (opened : Bool) :
    (openLogfile conf s mkdir opened).1.Sound conf
      ∧ Follows conf s (openLogfile conf s mkdir opened).1 := by
  rcases openLogfile_cases conf s mkdir opened with ⟨_, _, _, _, _, -, heq⟩ | heq
  · rw [heq]
    exact ⟨.closed hfd hsound.zip hsound.running,
      .of_spools fun c hc => hc.restage rfl rfl rfl rfl rfl rfl⟩
  rw [heq]
  cases hfind : s.dir.find conf.logname with
  | some file =>
    have hsize : s.seekEnd conf = file.text.length := by
      rw [TlogFile.seekEnd, hfind]
      rfl
    exact ⟨⟨fun _ => ⟨file, hfind, hsize.symm⟩, hsound.zip, hsound.running⟩,
      .of_spools fun c hc => hc.restage rfl rfl rfl rfl rfl rfl⟩
  | none =>
    -- a new file is begun
    simp only [Option.isSome_none, Bool.false_eq_true, if_false]
    have hsize : s.seekEnd conf = 0 := by
      rw [TlogFile.seekEnd, hfind]
      rfl
    have hgzip : (s.dir.put conf.logname ⟨s.clock, []⟩).find conf.gzipFile = s.dir.find conf.gzipFile :=
      find_put_of_ne gzip_ne_logname
    refine ⟨⟨fun _ => ⟨_, find_put_self .., hsize.symm⟩, fun hzip hn => ?_, hsound.running⟩,
      .single .start fun c hc => ?_⟩
    · exact hgzip.trans (hsound.zip hzip hn)
    · refine ⟨{ c with staged := c.staged ++ [⟨c.clock, []⟩] }, rfl, hc.clock, ?_, ?_, hc.archived,
        hc.evicted, hc.written⟩
      · unfold TlogFile.staged
        dsimp only
        rw [hgzip, find_put_of_ne pending_ne_logname, find_put_self, hc.staged, TlogFile.staged, hfind,
          hc.clock]
        simp
      · unfold TlogFile.archives
        dsimp only
        rw [filter_put_live live_logname]
        exact hc.kept

/-- What is written goes to the end of the last file. -/
theorem writeLogfile_keeps (hsound : s.Sound conf) (hfd : s.fd = true) (buff : List UInt8)
    (ans : WriteAnswer) :
    (writeLogfile conf s buff ans).1.Sound conf ∧ Follows conf s (writeLogfile conf s buff ans).1 := by
  cases ans with
  | noSpace =>
    exact ⟨.closed rfl hsound.zip hsound.running,
      .of_spools fun c hc => hc.restage rfl rfl rfl rfl rfl rfl⟩
  | failed => exact ⟨hsound, .refl s⟩
  | wrote n =>
    obtain ⟨file, hfind, hsize⟩ := hsound.opened hfd
    generalize hbytes : buff.take (n + 1) = bytes
    rw [writeLogfile, hfind, hbytes]
    dsimp only
    refine ⟨⟨fun _ => ⟨_, find_put_self .., ?_⟩, fun hzip hn => ?_, hsound.running⟩,
      .single (.extend bytes) fun c hc => ?_⟩
    · rw [List.length_append, hsize]
    · exact (find_put_of_ne gzip_ne_logname).trans (hsound.zip hzip hn)
    · have hlast : c.staged = ((if s.nocompress then [] else (s.dir.find conf.gzipFile).toList)
          ++ (s.dir.find conf.pendingFile).toList) ++ [file] := by
        rw [hc.staged, TlogFile.staged, hfind]
        rfl
      refine ⟨{ c with
        staged := c.staged.dropLast ++ [⟨c.clock, file.text ++ bytes⟩]
        written := c.written ++ bytes }, ?_, hc.clock, ?_, ?_, hc.archived, hc.evicted, ?_⟩
      · rw [spoolStep, hlast, List.getLast?_concat]
        rfl
      · unfold TlogFile.staged
        dsimp only
        rw [hlast, List.dropLast_concat, find_put_of_ne gzip_ne_logname, find_put_of_ne pending_ne_logname,
          find_put_self, hc.clock]
        rfl
      · unfold TlogFile.archives
        dsimp only
        rw [filter_put_live live_logname]
        exact hc.kept
      · exact congrArg (· ++ bytes) hc.written

theorem zipPid_of_full (h : s.full conf = true) : s.zipPid = .none := by
  rw [TlogFile.full, Bool.and_eq_true] at h
  exact eq_of_beq h.2

/-- The log file is closed and archived. -/
theorem archiveClosed_keeps (hsound : s.Sound conf) (hzip : s.zipPid = .none) (ans : ArchiveAnswers) :
    (tlogArchiveLog conf { s with fd := false, filesize := 0 } ans).Sound conf
      ∧ Follows conf s (tlogArchiveLog conf { s with fd := false, filesize := 0 } ans) := by
  have hclosed : TlogFile.Sound conf { s with fd := false, filesize := 0 } :=
    .closed rfl hsound.zip hsound.running
  have hfollows : Follows conf s { s with fd := false, filesize := 0 } :=
    .of_spools fun c hc => hc.restage rfl rfl rfl rfl rfl rfl
  have hkeeps := tlogArchiveLog_keeps hclosed rfl hzip ans
  exact ⟨hkeeps.1, hfollows.trans hkeeps.2⟩

/-- The open file is as long as the log takes it to be. -/
theorem TlogFile.Sound.not_multi (hsound : s.Sound conf) :
    ¬ (s.full conf ∧ s.fd ∧ s.filesize < s.seekEnd conf) := by
  rintro ⟨-, hfd, hlt⟩
  obtain ⟨file, hfind, hsize⟩ := hsound.opened hfd
  rw [TlogFile.seekEnd, hfind, ← hsize] at hlt
  exact Nat.lt_irrefl _ hlt

/-- A write archives the log file or not, opens it or not, and writes or not. -/
theorem tlogWriteExt_steps {P : TlogFile → Prop} {buff : List UInt8} {ans : WriteAnswers}
    {r : TlogFile × Int} (h : tlogWriteExt conf s buff ans = some r) (hs : P s)
    (harchive : s.zipPid = .none →
      P (tlogArchiveLog conf { s with fd := false, filesize := 0 } ans.archive))
    (hopen : ∀ s', P s' → s'.fd = false → P (openLogfile conf s' ans.mkdir ans.opened).1)
    (hwrite : ∀ s', P s' → s'.fd = true → P (writeLogfile conf s' buff ans.write).1) : P r.1 := by
  unfold tlogWriteExt at h
  split at h
  · cases h
    exact hs
  split at h
  · cases h
    exact hs
  split at h
  · cases h
  have harchived : P (if s.full conf then
      tlogArchiveLog conf { s with fd := false, filesize := 0 } ans.archive else s) := by
    split
    · next hfull => exact harchive (zipPid_of_full hfull)
    · exact hs
  generalize (if s.full conf then
      tlogArchiveLog conf { s with fd := false, filesize := 0 } ans.archive else s) = s' at h harchived
  have hopened : ∃ r', (if s'.fd then (s', true) else openLogfile conf s' ans.mkdir ans.opened) = r'
      ∧ P r'.1 ∧ (r'.2 = true → r'.1.fd = true) := by
    refine ⟨_, rfl, ?_⟩
    split
    · next hfd => exact ⟨harchived, fun _ => hfd⟩
    · next hfd =>
      refine ⟨hopen s' harchived (Bool.not_eq_true _ ▸ hfd), ?_⟩
      rcases openLogfile_cases conf s' ans.mkdir ans.opened with ⟨_, _, _, _, _, -, heq⟩ | heq
      · rw [heq]
        exact fun hdone => by cases hdone
      · rw [heq]
        exact fun _ => rfl
  obtain ⟨r', heq, hr', hfd⟩ := hopened
  dsimp only at h
  rw [heq] at h
  split at h <;> cases h
  · next hdone => exact hwrite r'.1 hr' (hfd hdone)
  · exact hr'

/-- **A write goes through.** The mode for several processes is never turned on. -/
theorem TlogFile.Sound.write_some (hsound : s.Sound conf) (buff : List UInt8) (ans : WriteAnswers) :
    ∃ r, tlogWriteExt conf s buff ans = some r := by
  unfold tlogWriteExt
  split
  · exact ⟨_, rfl⟩
  split
  · exact ⟨_, rfl⟩
  rw [if_neg hsound.not_multi]
  exact ⟨_, (apply_ite some _ _ _).symm⟩

theorem tlogWriteExt_keeps {buff : List UInt8} {ans : WriteAnswers} {r : TlogFile × Int}
    (hsound : s.Sound conf) (h : tlogWriteExt conf s buff ans = some r) :
    r.1.Sound conf ∧ Follows conf s r.1 := by
  refine tlogWriteExt_steps (P := fun t => t.Sound conf ∧ Follows conf s t) h ⟨hsound, .refl s⟩
    (fun hzip => archiveClosed_keeps hsound hzip ans.archive) ?_ ?_
  · rintro s' ⟨hs', hfollows⟩ hfd
    have hkeeps := openLogfile_keeps hs' hfd ans.mkdir ans.opened
    exact ⟨hkeeps.1, hfollows.trans hkeeps.2⟩
  · rintro s' ⟨hs', hfollows⟩ hfd
    have hkeeps := writeLogfile_keeps hs' hfd buff ans.write
    exact ⟨hkeeps.1, hfollows.trans hkeeps.2⟩

/-! ## Steps -/

/-- The compressed file has the pending one's place. -/
theorem endGzip_keeps (hsound : s.Sound conf) (hzip : s.zipPid = .running) (ok : Bool) :
    (endGzip conf s ok).Sound conf ∧ Follows conf s (endGzip conf s ok) := by
  have hn := hsound.running hzip
  unfold endGzip
  split
  · next file hpending hgzip =>
    refine ⟨⟨fun hfd => ?_, fun _ h => ?_, fun h => by cases h⟩,
      .of_spools fun c hc => hc.restage rfl ?_ ?_ rfl rfl rfl⟩
    · obtain ⟨file', hfind, hsize⟩ := hsound.opened hfd
      refine ⟨file', ?_, hsize⟩
      rw [find_put_of_ne gzip_ne_logname.symm, find_remove_of_ne pending_ne_logname.symm, hfind]
    · rw [hn] at h
      cases h
    · unfold TlogFile.staged
      dsimp only
      rw [hn, find_put_self, find_put_of_ne gzip_ne_pending.symm, find_remove_self,
        find_put_of_ne gzip_ne_logname.symm, find_remove_of_ne pending_ne_logname.symm, hpending, hgzip]
      rfl
    · rw [filter_put_live live_gzip, filter_remove_live live_pending]
  · exact ⟨⟨hsound.opened, fun _ h => absurd (hn.symm.trans h) (by decide), fun h => by cases h⟩,
      .of_spools fun c hc => hc.restage rfl rfl rfl rfl rfl rfl⟩

/-- **Every step of the log is a run of the spool.** -/
theorem fileStep_follows {a : FileAct} (hsound : s.Sound conf) (h : fileStep conf s a = some t) :
    t.Sound conf ∧ Follows conf s t := by
  cases a with
  | tick =>
    cases h
    exact ⟨⟨hsound.opened, hsound.zip, hsound.running⟩, .single .tick fun c hc =>
      ⟨_, rfl, congrArg (· + 1) hc.clock, hc.staged, hc.kept, hc.archived, hc.evicted, hc.written⟩⟩
  | write buff ans =>
    obtain ⟨r, heq, rfl⟩ := Option.map_eq_some_iff.mp h
    exact tlogWriteExt_keeps hsound heq
  | waitPid ans =>
    cases h
    exact tlogWaitPid_keeps hsound ans
  | gzip ok =>
    rw [fileStep] at h
    split at h <;> cases h
    next hzip => exact endGzip_keeps hsound hzip ok
  | list dir =>
    rw [fileStep] at h
    split at h <;> cases h
    next hperm =>
      have hfind := find_of_perm hperm
      have hstaged : TlogFile.staged conf { s with dir := dir } = s.staged conf :=
        staged_congr rfl fun name _ => hfind name
      refine ⟨⟨fun hfd => ?_, fun hzip hn => ?_, hsound.running⟩, .of_spools fun c hc => ?_⟩
      · rw [hfind]
        exact hsound.opened hfd
      · rw [hfind]
        exact hsound.zip hzip hn
      · exact ⟨hc.clock, hc.staged.trans hstaged.symm,
          hc.kept.trans ((hperm.filter _).map _).symm, hc.archived, hc.evicted, hc.written⟩

end Steps

end Estuary
