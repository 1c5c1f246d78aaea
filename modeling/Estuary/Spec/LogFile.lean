import Estuary.Engine.Dir
import Estuary.Engine.Spool
import Estuary.Spec.Target

/-!
# Estuary — the log's files (`_tlog_write_ext`, `_tlog_archive_log`)

What the log's thread hands out goes into a file. When that has grown too large it is renamed to a
pending name, compressed by a `gzip` process or left as it is, and renamed again to a name with its
date; and the oldest files with such names are removed.

* The directory is that of the log, and names are those in it, which the `snprintf` of their paths do
  not cut. A file is its time of modification and its text; that of a compressed file is what was
  compressed. `stamp` is the local time of such a time, as the names have it.
* The `gzip` process ends at some moment. By then it has replaced the pending file by a compressed one
  of the same date, or it has left everything as it was.
* One process writes the log, so `multi_log` is 0 and there is no lock file. The test that would set it
  is there, and where it succeeds the model ends (`none`).
* The answers of the system calls come with the actions. `written`, `archived` and `removed` are
  history.
-/

namespace Estuary

open Engine

/-! ## Names -/

/-- A file, with its `st_mtime`. -/
abbrev LogFile : Type := Segment UInt8

abbrev LogDir : Type := Dir (List Char) LogFile

/-- The fields of `struct tlog_log` that do not change. -/
structure LogFileConf where
  logname : List Char
  suffix : List Char
  logsize : Nat
  stamp : Nat → List Char

/-- `TLOG_LOG_SIZE`. -/
def tlogLogSize : Nat := 1024 * 1024 * 50

/-- `tlog_open`. -/
def tlogOpen (logname : List Char) (stamp : Nat → List Char) (maxlogsize : Int) (nocompress : Bool) :
    LogFileConf where
  logname := logname
  suffix := if nocompress then [] else ".gz".toList
  logsize := if maxlogsize ≥ 0 then maxlogsize.toNat else tlogLogSize
  stamp := stamp

def LogFileConf.pendingFile (conf : LogFileConf) : List Char := conf.logname ++ ".pending".toList

def LogFileConf.gzipFile (conf : LogFileConf) : List Char := conf.logname ++ ".pending.gz".toList

/-- The names that `_tlog_rename_logfile` tries. -/
def LogFileConf.archiveFile (conf : LogFileConf) (mtime i : Nat) : List Char :=
  conf.logname ++ '-' :: conf.stamp mtime ++ (if i = 0 then [] else '-' :: Nat.toDigits 10 i)
    ++ conf.suffix

/-- What the callbacks of `_tlog_list_dir` take for an archived log. -/
def LogFileConf.isArchive (conf : LogFileConf) (entry : List Char × LogFile) : Bool :=
  (strstr conf.suffix entry.1).isSome && (conf.logname ++ ['-']).isPrefixOf entry.1

/-! ## The log, and what it calls -/

/-- `zip_pid`: not above 0, a process that runs, or one that has ended. -/
inductive ZipPid where
  | none
  | running
  | ended
  deriving DecidableEq, Repr

structure TlogFile where
  dir : LogDir
  clock : Nat
  fd : Bool                      -- above 0
  filesize : Nat
  logcount : Nat
  nocompress : Bool
  zipPid : ZipPid
  lastTry : Nat
  printErrmsg : Bool
  logscreen : Bool
  written : List UInt8
  archived : List LogFile
  removed : List LogFile

/-- The log after `tlog_open`. -/
def TlogFile.init (maxlogcount : Int) (nocompress logscreen : Bool) (dir : LogDir) (clock : Nat) :
    TlogFile :=
  ⟨dir, clock, false, 0, maxlogcount.toNat, nocompress, .none, 0, true, logscreen, [], [], []⟩

/-- Whether `stat` (with `localtime`) and `rename` succeed. -/
structure RenameAnswers where
  stat : Bool
  rename : Bool

/-- Whether the listing that counts succeeds, and those that look for the oldest file (with their
`stat`), and `unlink`. -/
structure RemoveAnswers where
  count : Bool
  list : Nat → Bool
  unlink : Nat → Bool

structure TidyAnswers where
  rename : RenameAnswers
  remove : RemoveAnswers

/-- `vfork`, and `execl` in the new process. -/
inductive ForkAnswer where
  | started
  | noExec
  | denied        -- `EPERM` or `EACCES`
  | failed
  deriving DecidableEq, Repr

structure ArchiveAnswers where
  leftover : RenameAnswers       -- of a compressed file that is still there
  rename : Bool                  -- of the log file
  tidy : TidyAnswers
  fork : ForkAnswer

inductive MkdirAnswer where
  | made
  | denied        -- `EACCES`
  | failed
  deriving DecidableEq, Repr

inductive WriteAnswer where
  | wrote (n : Nat)              -- `n + 1` bytes, if there are as many
  | noSpace
  | failed
  deriving DecidableEq, Repr

structure WriteAnswers where
  archive : ArchiveAnswers
  mkdir : MkdirAnswer
  opened : Bool
  write : WriteAnswer

section Functions

variable (conf : LogFileConf)

/-! ## Archiving -/

/-- `_tlog_rename_logfile`. -/
def tlogRenameLogfile (s : TlogFile) (logFile : List Char) (ans : RenameAnswers) : TlogFile × Bool :=
  match s.dir.find logFile with
  | none => (s, false)
  | some file =>
    if ans.stat = false then (s, false)
    else
      let archiveFile := s.dir.firstFree (conf.archiveFile file.time) s.dir.entries.length 0
      if ans.rename then
        ({ s with
          dir := (s.dir.remove logFile).put archiveFile file
          archived := s.archived ++ [file] }, true)
      else (s, false)

/-- `_tlog_get_oldest_callback`. -/
def tlogGetOldestCallback (oldest : Nat × List Char) (entry : List Char × LogFile) :
    Nat × List Char :=
  if conf.isArchive entry = false then oldest
  else if oldest.1 = 0 ∨ oldest.1 > entry.2.time then (entry.2.time, entry.1)
  else oldest

/-- `_tlog_remove_oldestlog`. -/
def tlogRemoveOldestlog (s : TlogFile) (list unlink : Bool) : TlogFile :=
  if list = false then s
  else
    let oldest := s.dir.entries.foldl (tlogGetOldestCallback conf) (0, [])
    -- without a name, `unlink` is called for the directory
    if oldest.2 = [] ∨ unlink = false then s
    else
      match s.dir.find oldest.2 with
      | none => s
      | some file => { s with dir := s.dir.remove oldest.2, removed := s.removed ++ [file] }

/-- `lognum`, as `_tlog_count_log_callback` counts it. -/
def TlogFile.lognum (s : TlogFile) : Nat := s.dir.entries.countP conf.isArchive

/-- `_tlog_remove_oldlog`. -/
def tlogRemoveOldlog (s : TlogFile) (ans : RemoveAnswers) : TlogFile :=
  if ans.count = false then s
  else (List.range (s.lognum conf - s.logcount)).foldl
    (fun s i => tlogRemoveOldestlog conf s (ans.list i) (ans.unlink i)) s

/-- The file gets its final name, and the oldest ones are removed. -/
def tidy (s : TlogFile) (logFile : List Char) (ans : TidyAnswers) : TlogFile :=
  let r := tlogRenameLogfile conf s logFile ans.rename
  if r.2 then tlogRemoveOldlog conf r.1 ans.remove else r.1

/-- "rename current log file to pending", unless there is a pending one. -/
def toPending (s : TlogFile) (rename : Bool) : TlogFile × Bool :=
  if (s.dir.find conf.pendingFile).isSome then (s, true)
  else
    match s.dir.find conf.logname with
    | none => (s, false)
    | some file =>
      if rename then
        ({ s with dir := (s.dir.remove conf.logname).put conf.pendingFile file }, true)
      else (s, false)

/-- "start gzip process to compress log file". The new process shares the memory until `execl`. -/
def startGzip (s : TlogFile) : ForkAnswer → TlogFile
  | .started => { s with zipPid := .running }
  | .noExec => { s with zipPid := .ended, nocompress := true }
  | .denied => { s with nocompress := true }
  | .failed => s

/-- `_tlog_archive_log_nocompress`. -/
def tlogArchiveLogNocompress (s : TlogFile) (ans : ArchiveAnswers) : TlogFile :=
  let r := toPending conf s ans.rename
  if r.2 then tidy conf r.1 conf.pendingFile ans.tidy else r.1

/-- `_tlog_archive_log_compressed`. -/
def tlogArchiveLogCompressed (s : TlogFile) (ans : ArchiveAnswers) : TlogFile :=
  let r := if (s.dir.find conf.gzipFile).isSome then
      tlogRenameLogfile conf s conf.gzipFile ans.leftover
    else (s, true)
  if r.2 = false then r.1
  else
    let r := toPending conf r.1 ans.rename
    if r.2 = false then r.1
    else if r.1.zipPid = .none then startGzip r.1 ans.fork
    else r.1

/-- `_tlog_archive_log`. -/
def tlogArchiveLog (s : TlogFile) (ans : ArchiveAnswers) : TlogFile :=
  if s.nocompress then tlogArchiveLogNocompress conf s ans else tlogArchiveLogCompressed conf s ans

/-- `_tlog_wait_pid`, without waiting. -/
def tlogWaitPid (s : TlogFile) (ans : TidyAnswers) : TlogFile :=
  if s.zipPid = .ended then tidy conf { s with zipPid := .none } conf.gzipFile ans else s

/-! ## Writing -/

/-- The length of the open file. -/
def TlogFile.seekEnd (s : TlogFile) : Nat :=
  ((s.dir.find conf.logname).map (·.text.length)).getD 0

/-- "open a new log file to write". -/
def openLogfile (s : TlogFile) (mkdir : MkdirAnswer) (opened : Bool) : TlogFile × Bool :=
  if s.clock = s.lastTry then (s, false)
  else
    match mkdir with
    | .made =>
      if opened = false then
        ({ s with lastTry := s.clock, filesize := 0, printErrmsg := false }, false)
      else
        ({ s with
          dir := if (s.dir.find conf.logname).isSome then s.dir
            else s.dir.put conf.logname ⟨s.clock, []⟩
          fd := true
          lastTry := 0
          printErrmsg := true
          filesize := s.seekEnd conf }, true)
    | .denied =>
      if s.printErrmsg ∧ s.logscreen = false then
        ({ s with lastTry := s.clock, printErrmsg := false, logscreen := true, logcount := 0 }, false)
      else ({ s with lastTry := s.clock, printErrmsg := false }, false)
    | .failed => ({ s with lastTry := s.clock, printErrmsg := false }, false)

/-- "write log to file". -/
def writeLogfile (s : TlogFile) (buff : List UInt8) : WriteAnswer → TlogFile × Int
  | .wrote n =>
    match s.dir.find conf.logname with
    | none => (s, 0)
    | some file =>
      ({ s with
        dir := s.dir.put conf.logname ⟨s.clock, file.text ++ buff.take (n + 1)⟩
        filesize := s.filesize + (buff.take (n + 1)).length
        written := s.written ++ buff.take (n + 1) }, (buff.take (n + 1)).length)
  | .noSpace => ({ s with fd := false }, -1)
  | .failed => (s, -1)

/-- The log file is too large, and no `gzip` process is there. -/
def TlogFile.full (s : TlogFile) : Bool := s.filesize > conf.logsize && s.zipPid == .none

/-- `_tlog_write_ext`. -/
def tlogWriteExt (s : TlogFile) (buff : List UInt8) (ans : WriteAnswers) : Option (TlogFile × Int) :=
  if buff = [] then some (s, 0)
  else if s.logcount = 0 then some (s, 0)
  else if s.full conf ∧ s.fd ∧ s.filesize < s.seekEnd conf then none
  else
    let s := if s.full conf then
        tlogArchiveLog conf { s with fd := false, filesize := 0 } ans.archive
      else s
    let r := if s.fd then (s, true) else openLogfile conf s ans.mkdir ans.opened
    if r.2 then some (writeLogfile conf r.1 buff ans.write) else some (r.1, -1)

/-! ## Runs -/

/-- The `gzip` process ends, having done all or nothing (an assumption: `gzip` is not part of the
source). When it succeeds, the compressed file is there, with the date of the pending one, and that is
gone; when it fails, or the compressed file is there already, both are as they were. -/
def endGzip (s : TlogFile) (ok : Bool) : TlogFile :=
  match ok, s.dir.find conf.pendingFile, s.dir.find conf.gzipFile with
  | true, some file, none =>
    { s with
      dir := (s.dir.remove conf.pendingFile).put conf.gzipFile file
      zipPid := .ended }
  | _, _, _ => { s with zipPid := .ended }

inductive FileAct where
  | tick                                              -- a second passes
  | write (buff : List UInt8) (ans : WriteAnswers)
  | waitPid (ans : TidyAnswers)
  | gzip (ok : Bool)
  | list (dir : LogDir)                               -- from now on it is listed in this order

def fileStep (s : TlogFile) : FileAct → Option TlogFile
  | .tick => some { s with clock := s.clock + 1 }
  | .write buff ans => (tlogWriteExt conf s buff ans).map Prod.fst
  | .waitPid ans => some (tlogWaitPid conf s ans)
  | .gzip ok => if s.zipPid = .running then some (endGzip conf s ok) else none
  | .list dir => if dir.entries.Perm s.dir.entries then some { s with dir := dir } else none

end Functions

end Estuary
