import Estuary.LogFile

/-!
# Estuary — what becomes of the log's files

* **`log_files_whole`** — the files, one after the other, are what was written, and none is lost or kept
  twice but for those that were removed;
* **`removed_oldest`** — nothing that is left is older than what was removed;
* **`multi_log_stays_off`** — a log that one process writes never turns to the mode for several ones;
* **`log_files_complete`** — when the log file can be opened and written, all that was handed to the log
  is in its files, whatever becomes of the archiving;
* **`archives_bounded`** — when files can be renamed and removed, there are at most as many archived
  files as may be kept, but for a compressed one that was left over at first.
-/

namespace Estuary

open Engine

section Runs

variable {conf : LogFileConf} {s t : TlogFile}

/-- **The log follows a spool**, over every run. -/
theorem file_simulates {acts : List FileAct} (hsound : s.Sound conf)
    (hrun : exec (fileStep conf) s acts = some t) : t.Sound conf ∧ Follows conf s t := by
  refine ⟨(exec_iff_run.mp hrun).invariant (fun _ _ _ h _ hstep => (fileStep_follows h hstep).1) hsound,
    fun c hc => ?_⟩
  have hsim : ∀ (s : TlogFile) (a : FileAct) (t : TlogFile) (c : Spool UInt8),
      s.Sound conf ∧ Spools conf s c → True → fileStep conf s a = some t →
      ∃ acts d, exec spoolStep c acts = some d ∧ t.Sound conf ∧ Spools conf t d := by
    rintro s a t c ⟨hsound, hc⟩ - hstep
    obtain ⟨hsound', hfollows⟩ := fileStep_follows hsound hstep
    obtain ⟨acts, d, hacts, hd⟩ := hfollows c hc
    exact ⟨acts, d, hacts, hsound', hd⟩
  obtain ⟨acts, d, hacts, -, hd⟩ := (exec_iff_run.mp hrun).simulates hsim ⟨hsound, hc⟩
  exact ⟨acts, d, hacts, hd⟩

theorem Follows.whole {first : List UInt8} (h : Follows conf s t)
    (hs : textOf (s.archived ++ s.staged conf) = first ++ s.written) :
    textOf (t.archived ++ t.staged conf) = first ++ t.written := by
  obtain ⟨bs, d, hbs, hd⟩ := h _ (spools_spool s)
  have hwhole : d.Whole first := Spool.of_exec (fun _ _ h hmoves => h.moves hmoves) hbs hs
  rwa [Spool.Whole, hd.archived, hd.staged, hd.written] at hwhole

theorem init_sound (conf : LogFileConf) (maxlogcount : Int) (nocompress logscreen : Bool) (dir : LogDir)
    (clock : Nat) : (TlogFile.init maxlogcount nocompress logscreen dir clock).Sound conf :=
  .closed rfl (fun h => absurd rfl h) fun h => by cases h

end Runs

/-! ## A log that is compressed -/

/-- Log files of more than one byte are compressed and archived, and one of those is kept. -/
def zipLog : LogFileConf := tlogOpen ['l'] (Nat.toDigits 10) 1 false

def emptyDir : LogDir := ⟨[], List.nodup_nil⟩

/-- No system call fails. -/
def allGood : WriteAnswers where
  archive := ⟨⟨true, true⟩, true, ⟨⟨true, true⟩, ⟨true, fun _ => true, fun _ => true⟩⟩, .started⟩
  mkdir := .made
  opened := true
  write := .wrote 1

/-- Two files are handed to `gzip` and archived, and the first one of them is removed. -/
def thrice : List FileAct :=
  [.write [1, 2] allGood, .tick,
    .write [3, 4] allGood, .gzip true, .waitPid allGood.archive.tidy, .tick,
    .write [5, 6] allGood, .gzip true, .waitPid allGood.archive.tidy]

/-- The state after that. -/
def rotated : TlogFile where
  dir := ⟨[(['l'], ⟨3, [5, 6]⟩), (['l', '-', '2', '.', 'g', 'z'], ⟨2, [3, 4]⟩)], by decide⟩
  clock := 3
  fd := true
  filesize := 2
  logcount := 1
  nocompress := false
  zipPid := .none
  lastTry := 0
  printErrmsg := true
  logscreen := false
  written := [1, 2, 3, 4, 5, 6]
  archived := [⟨1, [1, 2]⟩, ⟨2, [3, 4]⟩]
  removed := [⟨1, [1, 2]⟩]

theorem run_thrice : exec (fileStep zipLog) (.init 1 false false emptyDir 1) thrice = some rotated := rfl

/-! ## What the files hold -/

section Files

variable (conf : LogFileConf) {maxlogcount : Int} {nocompress logscreen : Bool} {dir : LogDir}
  {clock : Nat} {acts : List FileAct} {s : TlogFile}

/-- **The files are what was written**, in order, behind what they held at first; and of the archived
ones, each is there as it was archived, or was removed. -/
theorem log_files_whole
    (hrun : exec (fileStep conf) (.init maxlogcount nocompress logscreen dir clock) acts = some s) :
    textOf (s.archived ++ s.staged conf)
        = textOf ((TlogFile.init maxlogcount nocompress logscreen dir clock).staged conf) ++ s.written
      ∧ (s.removed ++ s.archives conf).Perm
        ((TlogFile.init maxlogcount nocompress logscreen dir clock).archives conf ++ s.archived) := by
  obtain ⟨-, hfollows⟩ := file_simulates (init_sound conf ..) hrun
  refine ⟨hfollows.whole (List.append_nil _).symm, ?_⟩
  obtain ⟨bs, d, hbs, hd⟩ := hfollows _ (spools_spool _)
  have hbalanced : d.Balanced
      ((TlogFile.init maxlogcount nocompress logscreen dir clock).archives conf) := by
    refine Spool.of_exec (fun _ _ h hmoves => h.moves hmoves) hbs ?_
    show ([] ++ TlogFile.archives conf _).Perm (TlogFile.archives conf _ ++ [])
    rw [List.append_nil]
    exact List.Perm.refl _
  rw [Spool.Balanced, hd.evicted, hd.archived] at hbalanced
  exact (hd.kept.symm.append_left _).trans hbalanced

/-- The three files, of which the first one has been removed. -/
theorem log_files_whole_thrice :
    exec (fileStep zipLog) (.init 1 false false emptyDir 1) thrice = some rotated
      ∧ textOf (rotated.archived ++ rotated.staged zipLog) = [1, 2, 3, 4, 5, 6]
      ∧ (rotated.removed ++ rotated.archives zipLog).Perm rotated.archived :=
  ⟨run_thrice, log_files_whole zipLog run_thrice⟩

/-- **The oldest go first.** Where the files' times go up from the archived ones to the log file, nothing
that is left is older than what was removed. -/
theorem removed_oldest
    (hdated : ((TlogFile.init maxlogcount nocompress logscreen dir clock).spool conf).Dated)
    (hrun : exec (fileStep conf) (.init maxlogcount nocompress logscreen dir clock) acts = some s) :
    ∀ file ∈ s.removed, ∀ other ∈ s.archives conf ++ s.staged conf, file.time ≤ other.time := by
  obtain ⟨-, hfollows⟩ := file_simulates (init_sound conf ..) hrun
  obtain ⟨bs, d, hbs, hd⟩ := hfollows _ (spools_spool _)
  have hdates : d.Dated := Spool.of_exec (fun _ _ h hmoves => h.moves hmoves) hbs hdated
  intro file hfile other hother
  rw [← hd.evicted] at hfile
  rcases List.mem_append.mp hother with hkept | hstaged
  · exact hdates.evicted file hfile other (hd.kept.mem_iff.mpr hkept)
  · exact hdates.before file (List.mem_append_left _ hfile) other (hd.staged ▸ hstaged)

/-- In an empty directory. -/
theorem removed_oldest_thrice :
    (⟨1, [1, 2]⟩ : LogFile) ∈ rotated.removed
      ∧ ∀ other ∈ rotated.archives zipLog ++ rotated.staged zipLog, 1 ≤ other.time := by
  have hdated : ((TlogFile.init 1 false false emptyDir 1).spool zipLog).Dated :=
    ⟨by decide, by decide, by decide, by decide, by decide, by decide⟩
  have hfirst : (⟨1, [1, 2]⟩ : LogFile) ∈ rotated.removed := by decide
  exact ⟨hfirst, removed_oldest zipLog hdated run_thrice _ hfirst⟩

/-- **The mode for several processes stays off.** Whatever happened before, a write goes through. -/
theorem multi_log_stays_off
    (hrun : exec (fileStep conf) (.init maxlogcount nocompress logscreen dir clock) acts = some s)
    (buff : List UInt8) (ans : WriteAnswers) : (tlogWriteExt conf s buff ans).isSome := by
  obtain ⟨hsound, -⟩ := file_simulates (init_sound conf ..) hrun
  obtain ⟨r, heq⟩ := hsound.write_some buff ans
  rw [heq]
  rfl

/-- After the three files. -/
theorem multi_log_stays_off_thrice : (tlogWriteExt zipLog rotated [7] allGood).isSome :=
  multi_log_stays_off zipLog run_thrice [7] allGood

end Files

/-! ## A log file that can be written -/

/-- The bytes that the step is handed. -/
def FileAct.bytes : FileAct → List UInt8
  | .write buff _ => buff
  | _ => []

/-- The log file can be opened, and all of the bytes can be written. -/
def FileAct.Written : FileAct → Prop
  | .write buff ans => ans.mkdir = .made ∧ ans.opened = true ∧ ∃ n, ans.write = .wrote n ∧ buff.length ≤ n + 1
  | _ => True

/-- The log writes, and may open its file. -/
structure TlogFile.Ready (conf : LogFileConf) (s : TlogFile) : Prop where
  sound : s.Sound conf
  logcount : s.logcount ≠ 0
  clock : s.clock ≠ 0
  lastTry : s.lastTry = 0

/-- What decides about writing, and what was written. -/
structure SameWrites (s t : TlogFile) : Prop where
  logcount : t.logcount = s.logcount
  clock : t.clock = s.clock
  lastTry : t.lastTry = s.lastTry
  written : t.written = s.written

section Written

variable {conf : LogFileConf} {s t u : TlogFile}

theorem SameWrites.refl (s : TlogFile) : SameWrites s s := ⟨rfl, rfl, rfl, rfl⟩

theorem SameWrites.trans (hst : SameWrites s t) (htu : SameWrites t u) : SameWrites s u where
  logcount := htu.logcount.trans hst.logcount
  clock := htu.clock.trans hst.clock
  lastTry := htu.lastTry.trans hst.lastTry
  written := htu.written.trans hst.written

theorem toPending_writes (conf : LogFileConf) (s : TlogFile) (rename : Bool) :
    SameWrites s (toPending conf s rename).1 := by
  obtain ⟨hsame, -⟩ := toPending_keeps conf s rename
  rw [hsame]
  exact ⟨rfl, rfl, rfl, rfl⟩

theorem tlogRenameLogfile_writes (conf : LogFileConf) (s : TlogFile) (logFile : List Char)
    (ans : RenameAnswers) : SameWrites s (tlogRenameLogfile conf s logFile ans).1 := by
  rcases tlogRenameLogfile_cases conf s logFile ans with ⟨heq, -⟩ | ⟨_, _, -, -, -, heq⟩
  · rw [heq]
    exact .refl s
  · rw [heq]
    exact ⟨rfl, rfl, rfl, rfl⟩

theorem tidy_writes (conf : LogFileConf) (s : TlogFile) (logFile : List Char) (ans : TidyAnswers) :
    SameWrites s (tidy conf s logFile ans) := by
  have hrename := tlogRenameLogfile_writes conf s logFile ans.rename
  unfold tidy
  dsimp only
  split
  · refine hrename.trans ?_
    rw [(tlogRemoveOldlog_tidies conf _ logFile ans.remove).same]
    exact ⟨rfl, rfl, rfl, rfl⟩
  · exact hrename

theorem startGzip_writes (s : TlogFile) (fork : ForkAnswer) : SameWrites s (startGzip s fork) := by
  cases fork <;> exact ⟨rfl, rfl, rfl, rfl⟩

/-- Archiving leaves alone what decides about writing. -/
theorem tlogArchiveLog_writes (s : TlogFile) (ans : ArchiveAnswers) :
    SameWrites s (tlogArchiveLog conf s ans) := by
  unfold tlogArchiveLog
  split
  · have hpending := toPending_writes conf s ans.rename
    unfold tlogArchiveLogNocompress
    dsimp only
    split
    · exact hpending.trans (tidy_writes ..)
    · exact hpending
  · unfold tlogArchiveLogCompressed
    have hleftover : ∃ r : TlogFile × Bool, (if (s.dir.find conf.gzipFile).isSome then
        tlogRenameLogfile conf s conf.gzipFile ans.leftover else (s, true)) = r ∧ SameWrites s r.1 := by
      refine ⟨_, rfl, ?_⟩
      split
      · exact tlogRenameLogfile_writes ..
      · exact .refl s
    obtain ⟨r, heq, hr⟩ := hleftover
    rw [heq]
    dsimp only
    split
    · exact hr
    have hpending := hr.trans (toPending_writes conf r.1 ans.rename)
    split
    · exact hpending
    split
    · exact hpending.trans (startGzip_writes ..)
    · exact hpending

/-- A log file that can be opened is open. -/
theorem TlogFile.Ready.openLogfile (h : s.Ready conf) (hfd : s.fd = false) :
    ∃ t, openLogfile conf s .made true = (t, true) ∧ t.Ready conf ∧ t.fd = true
      ∧ t.written = s.written := by
  have hkeeps := (openLogfile_keeps h.sound hfd .made true).1
  have hnow : s.clock ≠ s.lastTry := by
    rw [h.lastTry]
    exact h.clock
  unfold Estuary.openLogfile at hkeeps ⊢
  rw [if_neg hnow] at hkeeps ⊢
  exact ⟨_, rfl, ⟨hkeeps, h.logcount, h.clock, rfl⟩, rfl, rfl⟩

/-- All of the bytes are written. -/
theorem TlogFile.Ready.write {buff : List UInt8} {ans : WriteAnswers} (h : s.Ready conf)
    (hwritten : (FileAct.write buff ans).Written) :
    ∃ r, tlogWriteExt conf s buff ans = some r ∧ r.1.Ready conf ∧ r.1.written = s.written ++ buff := by
  obtain ⟨hmkdir, hopened, n, hwrite, hlength⟩ := hwritten
  unfold tlogWriteExt
  split
  · next hnil =>
    rw [hnil, List.append_nil]
    exact ⟨_, rfl, h, rfl⟩
  rw [if_neg h.logcount, if_neg h.sound.not_multi]
  have harchive : ∃ s', (if s.full conf then
        tlogArchiveLog conf { s with fd := false, filesize := 0 } ans.archive else s) = s'
      ∧ s'.Sound conf ∧ SameWrites s s' := by
    refine ⟨_, rfl, ?_⟩
    split
    · next hfull =>
      have hclosed : SameWrites s { s with fd := false, filesize := 0 } := ⟨rfl, rfl, rfl, rfl⟩
      exact ⟨(archiveClosed_keeps h.sound (zipPid_of_full hfull) ans.archive).1,
        hclosed.trans (tlogArchiveLog_writes ..)⟩
    · exact ⟨h.sound, .refl s⟩
  obtain ⟨s', heq, hsound, hsame⟩ := harchive
  rw [heq]
  have hs' : s'.Ready conf ∧ s'.written = s.written :=
    ⟨⟨hsound, hsame.logcount ▸ h.logcount, hsame.clock ▸ h.clock, hsame.lastTry.trans h.lastTry⟩,
      hsame.written⟩
  have hopen : ∃ t : TlogFile, (if s'.fd then (s', true) else
        Estuary.openLogfile conf s' ans.mkdir ans.opened) = (t, true)
      ∧ t.Ready conf ∧ t.fd = true ∧ t.written = s.written := by
    split
    · next hfd => exact ⟨s', rfl, hs'.1, hfd, hs'.2⟩
    · next hfd =>
      rw [hmkdir, hopened]
      obtain ⟨t, ht, hready, htfd, hsame⟩ := hs'.1.openLogfile (Bool.not_eq_true _ ▸ hfd)
      exact ⟨t, ht, hready, htfd, hsame.trans hs'.2⟩
  obtain ⟨t, ht, hready, hfd, hsame⟩ := hopen
  dsimp only
  rw [ht, if_pos rfl, hwrite]
  have hkeeps := (writeLogfile_keeps hready.sound hfd buff (.wrote n)).1
  obtain ⟨file, hfind, -⟩ := hready.sound.opened hfd
  unfold writeLogfile at hkeeps ⊢
  rw [hfind] at hkeeps ⊢
  refine ⟨_, rfl, ⟨hkeeps, hready.logcount, hready.clock, hready.lastTry⟩, ?_⟩
  dsimp only
  rw [hsame, List.take_of_length_le hlength]

theorem TlogFile.Ready.step {a : FileAct} (h : s.Ready conf) (hwritten : a.Written)
    (hstep : fileStep conf s a = some t) : t.Ready conf ∧ t.written = s.written ++ a.bytes := by
  have hsound := (fileStep_follows h.sound hstep).1
  have hsame : SameWrites s t → t.Ready conf ∧ t.written = s.written ++ [] := fun hsame =>
    ⟨⟨hsound, hsame.logcount ▸ h.logcount, hsame.clock ▸ h.clock, hsame.lastTry.trans h.lastTry⟩,
      hsame.written.trans (List.append_nil _).symm⟩
  cases a with
  | tick =>
    cases hstep
    exact ⟨⟨hsound, h.logcount, Nat.succ_ne_zero _, h.lastTry⟩, (List.append_nil _).symm⟩
  | write buff ans =>
    obtain ⟨r, heq, hready, hbytes⟩ := h.write hwritten
    rw [fileStep, heq] at hstep
    cases hstep
    exact ⟨hready, hbytes⟩
  | waitPid ans =>
    cases hstep
    refine hsame ?_
    unfold tlogWaitPid
    split
    · have hcleared : SameWrites s { s with zipPid := .none } := ⟨rfl, rfl, rfl, rfl⟩
      exact hcleared.trans (tidy_writes ..)
    · exact .refl s
  | gzip ok =>
    rw [fileStep] at hstep
    split at hstep <;> cases hstep
    refine hsame ?_
    unfold endGzip
    split <;> exact ⟨rfl, rfl, rfl, rfl⟩
  | list dir =>
    rw [fileStep] at hstep
    split at hstep <;> cases hstep
    exact hsame ⟨rfl, rfl, rfl, rfl⟩

theorem TlogFile.Ready.run {acts : List FileAct} (h : s.Ready conf) (hwritten : ∀ a ∈ acts, a.Written)
    (hrun : exec (fileStep conf) s acts = some t) :
    t.Ready conf ∧ t.written = s.written ++ acts.flatMap FileAct.bytes := by
  induction acts generalizing s with
  | nil =>
    cases hrun
    exact ⟨h, (List.append_nil _).symm⟩
  | cons a acts ih =>
    obtain ⟨u, hu, hrest⟩ := Option.bind_eq_some_iff.mp hrun
    obtain ⟨hready, hbytes⟩ := h.step (hwritten a (List.mem_cons_self ..)) hu
    obtain ⟨hready', hbytes'⟩ := ih hready (fun a' ha' => hwritten a' (List.mem_cons_of_mem _ ha')) hrest
    refine ⟨hready', ?_⟩
    rw [hbytes', hbytes, List.flatMap_cons, List.append_assoc]

end Written

/-- **All of the log is in its files.** When the log file can be opened and written, they hold what was
handed to the log, whatever becomes of the archiving. -/
theorem log_files_complete (conf : LogFileConf) {maxlogcount : Int} {nocompress logscreen : Bool}
    {dir : LogDir} {clock : Nat} {acts : List FileAct} {s : TlogFile} (hcount : 0 < maxlogcount)
    (hclock : clock ≠ 0) (hwritten : ∀ a ∈ acts, a.Written)
    (hrun : exec (fileStep conf) (.init maxlogcount nocompress logscreen dir clock) acts = some s) :
    textOf (s.archived ++ s.staged conf)
      = textOf ((TlogFile.init maxlogcount nocompress logscreen dir clock).staged conf)
        ++ acts.flatMap FileAct.bytes := by
  have hsound := init_sound conf maxlogcount nocompress logscreen dir clock
  have hready : (TlogFile.init maxlogcount nocompress logscreen dir clock).Ready conf :=
    ⟨hsound, by show maxlogcount.toNat ≠ 0; omega, hclock, rfl⟩
  obtain ⟨-, hbytes⟩ := hready.run hwritten hrun
  obtain ⟨-, hfollows⟩ := file_simulates hsound hrun
  have hwhole := hfollows.whole (List.append_nil _).symm
  rwa [hbytes] at hwhole

/-- The three files. -/
theorem log_files_complete_thrice :
    textOf (rotated.archived ++ rotated.staged zipLog) = thrice.flatMap FileAct.bytes := by
  have hwritten : ∀ a ∈ thrice, a.Written := by
    simp only [thrice, List.mem_cons, List.not_mem_nil, or_false]
    rintro a (rfl | rfl | rfl | rfl | rfl | rfl | rfl | rfl | rfl) <;>
      first | trivial | exact ⟨rfl, rfl, 1, rfl, by decide⟩
  exact log_files_complete zipLog (by decide) (by decide) hwritten run_thrice

/-! ## How many archived files there are -/

def RenameAnswers.Good (ans : RenameAnswers) : Prop := ans.stat = true ∧ ans.rename = true

def RemoveAnswers.Good (ans : RemoveAnswers) : Prop :=
  ans.count = true ∧ (∀ i, ans.list i = true) ∧ ∀ i, ans.unlink i = true

def TidyAnswers.Good (ans : TidyAnswers) : Prop := ans.rename.Good ∧ ans.remove.Good

/-- Files can be archived, listed and removed. -/
def FileAct.Tidied : FileAct → Prop
  | .write _ ans => ans.archive.tidy.Good
  | .waitPid ans => ans.Good
  | _ => True

/-- There are at most `most` archived files, and one more if a compressed file was left over that has
been archived. -/
structure TlogFile.Few (conf : LogFileConf) (most : Nat) (left : Bool) (s : TlogFile) : Prop where
  logcount : s.logcount ≤ most
  archives : (s.archives conf).length ≤ most + left.toNat
  leftover : s.zipPid = .none → s.nocompress = false → (s.dir.find conf.gzipFile).isSome →
    left = true ∧ (s.archives conf).length ≤ most

section Few

variable {conf : LogFileConf} {s t : TlogFile} {most : Nat} {left : Bool} {logFile : List Char}

theorem tlogRemoveOldestlog_archives (s : TlogFile) :
    ((tlogRemoveOldestlog conf s true true).archives conf).length = (s.archives conf).length - 1 := by
  unfold tlogRemoveOldestlog
  rw [if_neg (by decide)]
  dsimp only
  rcases oldest_spec conf s.dir.entries with ⟨hnone, hall⟩ | ⟨name, file, heq, hin, hkind, -⟩
  · have hempty : s.archives conf = [] := by
      rw [TlogFile.archives, List.filter_eq_nil_iff.mpr fun e he => by rw [hall e he]; decide]
      rfl
    rw [hnone, if_pos (Or.inl rfl), hempty]
    rfl
  · rw [heq]
    dsimp only
    rw [if_neg (by simp [ne_nil_of_archive hkind]), find_iff.mpr hin]
    have hkept : (s.archives conf).Perm
        (file :: TlogFile.archives conf { s with dir := s.dir.remove name }) :=
      (filter_remove (find_iff.mpr hin) hkind).map Prod.snd
    rw [hkept.length_eq]
    rfl

/-- As many are removed as there are too many. -/
theorem tlogRemoveOldlog_archives (s : TlogFile) {ans : RemoveAnswers} (hgood : ans.Good) :
    ((tlogRemoveOldlog conf s ans).archives conf).length ≤ s.logcount := by
  have hrounds : ∀ (is : List Nat) (s : TlogFile),
      ((is.foldl (fun s i => tlogRemoveOldestlog conf s (ans.list i) (ans.unlink i)) s).archives
        conf).length = (s.archives conf).length - is.length := by
    intro is
    induction is with
    | nil => exact fun _ => rfl
    | cons i is ih =>
      intro s
      rw [List.foldl_cons, ih, hgood.2.1, hgood.2.2, tlogRemoveOldestlog_archives, List.length_cons]
      omega
  have hlognum : s.lognum conf = (s.archives conf).length := by
    rw [TlogFile.lognum, TlogFile.archives, List.length_map, List.countP_eq_length_filter]
  unfold tlogRemoveOldlog
  rw [hgood.1, if_neg (by decide), hrounds, List.length_range, hlognum]
  omega

theorem tidy_archives (conf : LogFileConf) (s : TlogFile) (hlive : conf.Live logFile)
    {ans : TidyAnswers} (hgood : ans.Good) :
    (s.dir.find logFile = none ∧ tidy conf s logFile ans = s)
      ∨ (((tidy conf s logFile ans).archives conf).length ≤ s.logcount
        ∧ (tidy conf s logFile ans).dir.find logFile = none) := by
  unfold tidy
  rcases tlogRenameLogfile_cases conf s logFile ans.rename with
    ⟨heq, hfailed⟩ | ⟨file, name, hfind, hfree, hkind, heq⟩
  · rw [heq]
    refine Or.inl ⟨hfailed.resolve_right fun hbad => ?_, rfl⟩
    rw [hgood.1.1, hgood.1.2] at hbad
    exact absurd hbad (by decide)
  · rw [heq]
    dsimp only
    rw [if_pos rfl]
    refine Or.inr ⟨tlogRemoveOldlog_archives _ hgood.2, ?_⟩
    have hgone : ((s.dir.remove logFile).put name file).find logFile = none :=
      (find_put_of_ne (hlive.ne_of_archive (hkind file))).trans (find_remove_self ..)
    rcases (tlogRemoveOldlog_tidies conf _ logFile ans.remove).left with hnone | hkept
    · exact hnone
    · exact hkept.trans hgone

/-- A state with the same archived files. -/
theorem TlogFile.Few.of_archives (h : s.Few conf most left) (hcount : t.logcount ≤ s.logcount)
    (harchives : t.archives conf = s.archives conf)
    (hleftover : t.zipPid = .none → t.nocompress = false → (t.dir.find conf.gzipFile).isSome →
      s.zipPid = .none ∧ s.nocompress = false ∧ (s.dir.find conf.gzipFile).isSome) :
    t.Few conf most left where
  logcount := Nat.le_trans hcount h.logcount
  archives := harchives ▸ h.archives
  leftover hzip hn hgzip := by
    obtain ⟨hzip', hn', hgzip'⟩ := hleftover hzip hn hgzip
    rw [harchives]
    exact h.leftover hzip' hn' hgzip'

/-- Without compression, no compressed file counts as left over. -/
theorem TlogFile.Few.tidy_pending (h : s.Few conf most left) (hn : s.nocompress = true)
    {ans : TidyAnswers} (hgood : ans.Good) :
    (tidy conf s conf.pendingFile ans).Few conf most left := by
  rcases tidy_archives conf s live_pending hgood with ⟨-, heq⟩ | ⟨hfew, -⟩
  · rw [heq]
    exact h
  · have hfront : Front conf s conf.pendingFile := Or.inr ⟨rfl, hn⟩
    have htidies := tidy_tidies hfront ans
    have hcount := (tidy_writes conf s conf.pendingFile ans).logcount
    refine ⟨Nat.le_trans (Nat.le_of_eq hcount) h.logcount,
      Nat.le_add_right_of_le (Nat.le_trans hfew h.logcount), fun _ hn' => ?_⟩
    rw [congrArg TlogFile.nocompress htidies.same] at hn'
    exact absurd (hn.symm.trans hn') (by decide)

theorem TlogFile.Few.waitPid (h : s.Few conf most left) {ans : TidyAnswers} (hgood : ans.Good) :
    (tlogWaitPid conf s ans).Few conf most left := by
  unfold tlogWaitPid
  split
  · have hgone : ∀ {d : LogDir} {p : Prop}, d.find conf.gzipFile = none →
        (d.find conf.gzipFile).isSome → p := fun hnone hsome => by
      rw [hnone] at hsome
      cases hsome
    rcases tidy_archives conf { s with zipPid := .none } live_gzip hgood with
      ⟨hnone, heq⟩ | ⟨hfew, hnone⟩
    · rw [heq]
      exact ⟨h.logcount, h.archives, fun _ _ => hgone hnone⟩
    · have hcount := (tidy_writes conf { s with zipPid := .none } conf.gzipFile ans).logcount
      exact ⟨Nat.le_trans (Nat.le_of_eq hcount) h.logcount,
        Nat.le_add_right_of_le (Nat.le_trans hfew h.logcount), fun _ _ => hgone hnone⟩
  · exact h

theorem TlogFile.Few.toPending (h : s.Few conf most left) (rename : Bool) :
    (toPending conf s rename).1.Few conf most left := by
  obtain ⟨hsame, hgzip, harchives, -⟩ := toPending_keeps conf s rename
  generalize Estuary.toPending conf s rename = r at hsame hgzip harchives
  refine h.of_archives (by rw [hsame]) harchives fun hzip hn hsome => ?_
  rw [hsame] at hzip hn
  exact ⟨hzip, hn, hgzip ▸ hsome⟩

/-- A leftover compressed file is the one that may be too many. -/
theorem TlogFile.Few.leftover_renamed (h : s.Few conf most left) (hzip : s.zipPid = .none)
    (hn : s.nocompress = false) (ans : RenameAnswers) :
    (tlogRenameLogfile conf s conf.gzipFile ans).1.Few conf most left := by
  rcases tlogRenameLogfile_cases conf s conf.gzipFile ans with
    ⟨heq, -⟩ | ⟨file, name, hfind, hfree, hkind, heq⟩
  · rw [heq]
    exact h
  · rw [heq]
    have hgone : ((s.dir.remove conf.gzipFile).put name file).find conf.gzipFile = none :=
      (find_put_of_ne (live_gzip.ne_of_archive (hkind file))).trans (find_remove_self ..)
    refine ⟨h.logcount, ?_, fun _ _ hgzip => ?_⟩
    · obtain ⟨hleft, hmost⟩ := h.leftover hzip hn (by rw [hfind]; rfl)
      unfold TlogFile.archives at hmost ⊢
      rw [filter_rename live_gzip hfree hkind, List.map_append, List.length_append, hleft]
      exact Nat.succ_le_succ hmost
    · rw [show Dir.find _ conf.gzipFile = none from hgone] at hgzip
      cases hgzip

theorem TlogFile.Few.startGzip (h : s.Few conf most left) (fork : ForkAnswer) :
    (startGzip s fork).Few conf most left := by
  cases fork with
  | started => exact ⟨h.logcount, h.archives, fun hzip => by cases hzip⟩
  | noExec => exact ⟨h.logcount, h.archives, fun hzip => by cases hzip⟩
  | denied => exact ⟨h.logcount, h.archives, fun _ hn => by cases hn⟩
  | failed => exact h

theorem TlogFile.Few.archiveLog (h : s.Few conf most left) (hzip : s.zipPid = .none) {ans : ArchiveAnswers}
    (hgood : ans.tidy.Good) : (tlogArchiveLog conf s ans).Few conf most left := by
  unfold tlogArchiveLog
  cases hn : s.nocompress with
  | true =>
    rw [if_pos rfl, tlogArchiveLogNocompress]
    split
    · have hsame := (toPending_keeps conf s ans.rename).1
      exact (h.toPending ans.rename).tidy_pending ((congrArg TlogFile.nocompress hsame).trans hn) hgood
    · exact h.toPending ans.rename
  | false =>
    rw [if_neg (by decide), tlogArchiveLogCompressed]
    have hleftover : ∃ r : TlogFile × Bool, (if (s.dir.find conf.gzipFile).isSome then
        tlogRenameLogfile conf s conf.gzipFile ans.leftover else (s, true)) = r
          ∧ r.1.Few conf most left := by
      refine ⟨_, rfl, ?_⟩
      split
      · exact h.leftover_renamed hzip hn ans.leftover
      · exact h
    obtain ⟨r, heq, hr⟩ := hleftover
    rw [heq]
    dsimp only
    split
    · exact hr
    split
    · exact hr.toPending ans.rename
    split
    · exact (hr.toPending ans.rename).startGzip ans.fork
    · exact hr.toPending ans.rename

/-- Opening and writing the log file leave the archived files alone. -/
theorem TlogFile.Few.openLogfile (h : s.Few conf most left) (mkdir : MkdirAnswer) (opened : Bool) :
    (openLogfile conf s mkdir opened).1.Few conf most left := by
  rcases openLogfile_cases conf s mkdir opened with ⟨_, _, _, _, _, hcount, heq⟩ | heq
  · rw [heq]
    exact h.of_archives hcount rfl fun hzip hn hgzip => ⟨hzip, hn, hgzip⟩
  · rw [heq]
    dsimp only
    split
    · exact h.of_archives (Nat.le_refl _) rfl fun hzip hn hgzip => ⟨hzip, hn, hgzip⟩
    · refine h.of_archives (Nat.le_refl _) (congrArg (List.map Prod.snd) (filter_put_live live_logname _))
        fun hzip hn hgzip => ⟨hzip, hn, ?_⟩
      rwa [find_put_of_ne gzip_ne_logname] at hgzip

theorem TlogFile.Few.writeLogfile (h : s.Few conf most left) (buff : List UInt8) (ans : WriteAnswer) :
    (writeLogfile conf s buff ans).1.Few conf most left := by
  cases ans with
  | noSpace => exact h.of_archives (Nat.le_refl _) rfl fun hzip hn hgzip => ⟨hzip, hn, hgzip⟩
  | failed => exact h
  | wrote n =>
    unfold Estuary.writeLogfile
    cases s.dir.find conf.logname with
    | none => exact h
    | some file =>
      dsimp only
      refine h.of_archives (Nat.le_refl _) (congrArg (List.map Prod.snd) (filter_put_live live_logname _))
        fun hzip hn hgzip => ⟨hzip, hn, ?_⟩
      rwa [find_put_of_ne gzip_ne_logname] at hgzip

theorem TlogFile.Few.write {buff : List UInt8} {ans : WriteAnswers} {r : TlogFile × Int}
    (h : s.Few conf most left) (hgood : ans.archive.tidy.Good)
    (heq : tlogWriteExt conf s buff ans = some r) : r.1.Few conf most left := by
  have hclosed : TlogFile.Few conf most left { s with fd := false, filesize := 0 } :=
    h.of_archives (Nat.le_refl _) rfl fun hzip hn hgzip => ⟨hzip, hn, hgzip⟩
  exact tlogWriteExt_steps heq h (fun hzip => hclosed.archiveLog hzip hgood)
    (fun s' hs' _ => hs'.openLogfile ans.mkdir ans.opened)
    fun s' hs' _ => hs'.writeLogfile buff ans.write

theorem TlogFile.Few.step {a : FileAct} (h : s.Few conf most left) (hgood : a.Tidied)
    (hstep : fileStep conf s a = some t) : t.Few conf most left := by
  cases a with
  | tick =>
    cases hstep
    exact h.of_archives (Nat.le_refl _) rfl fun hzip hn hgzip => ⟨hzip, hn, hgzip⟩
  | write buff ans =>
    obtain ⟨r, heq, rfl⟩ := Option.map_eq_some_iff.mp hstep
    exact h.write hgood heq
  | waitPid ans =>
    cases hstep
    exact h.waitPid hgood
  | gzip ok =>
    rw [fileStep] at hstep
    split at hstep <;> cases hstep
    unfold endGzip
    split
    · exact ⟨h.logcount, by
        unfold TlogFile.archives
        rw [filter_put_live live_gzip, filter_remove_live live_pending]
        exact h.archives, fun hzip => by cases hzip⟩
    · exact ⟨h.logcount, h.archives, fun hzip => by cases hzip⟩
  | list dir =>
    rw [fileStep] at hstep
    split at hstep <;> cases hstep
    next hperm =>
      have hlength := ((hperm.filter conf.isArchive).map Prod.snd).length_eq
      refine ⟨h.logcount, hlength ▸ h.archives, fun hzip hn hgzip => ?_⟩
      rw [find_of_perm hperm] at hgzip
      exact hlength ▸ h.leftover hzip hn hgzip

end Few

/-- **The archived files are bounded.** When files can be renamed, listed and removed, there are never
more than may be kept, but for a compressed one that was left over at first. -/
theorem archives_bounded (conf : LogFileConf) {maxlogcount : Int} {nocompress logscreen : Bool}
    {dir : LogDir} {clock : Nat} {acts : List FileAct} {s : TlogFile}
    (hfew : ((TlogFile.init maxlogcount nocompress logscreen dir clock).archives conf).length
      ≤ maxlogcount.toNat)
    (hgood : ∀ a ∈ acts, a.Tidied)
    (hrun : exec (fileStep conf) (.init maxlogcount nocompress logscreen dir clock) acts = some s) :
    (s.archives conf).length ≤ maxlogcount.toNat
      + (if nocompress = false ∧ (dir.find conf.gzipFile).isSome then 1 else 0) := by
  have hstart : (TlogFile.init maxlogcount nocompress logscreen dir clock).Few conf maxlogcount.toNat
      (nocompress = false ∧ (dir.find conf.gzipFile).isSome) :=
    ⟨Nat.le_refl _, Nat.le_add_right_of_le hfew, fun _ hn hgzip => ⟨decide_eq_true ⟨hn, hgzip⟩, hfew⟩⟩
  have hguarded := run_of_exec (G := fun _ a => a.Tidied) hrun fun a ha _ => hgood a ha
  have hrest := (hguarded.invariant (fun _ _ _ h hgood hstep => h.step hgood hstep) hstart).archives
  split
  · next hleft =>
    rw [decide_eq_true hleft] at hrest
    exact hrest
  · next hleft =>
    rw [decide_eq_false hleft] at hrest
    exact hrest

/-- The three files. -/
theorem archives_bounded_thrice : (rotated.archives zipLog).length ≤ 1 := by
  have hgood : ∀ a ∈ thrice, a.Tidied := by
    simp only [thrice, List.mem_cons, List.not_mem_nil, or_false]
    rintro a (rfl | rfl | rfl | rfl | rfl | rfl | rfl | rfl | rfl) <;>
      first | trivial | exact ⟨⟨rfl, rfl⟩, rfl, fun _ => rfl, fun _ => rfl⟩
  exact archives_bounded zipLog (by decide) hgood run_thrice

end Estuary
