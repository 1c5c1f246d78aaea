import Estuary.Engine.Stretch
import Estuary.Spec.LogLine
import Mathlib.Algebra.GroupWithZero.Nat

/-!
# Estuary — the log's buffer and its threads (`_tlog_vprintf`, `_tlog_work`)

Threads that log put their lines into one block of memory; the log's own thread takes them out and
hands them to the output function. The model has any number of threads, at the granularity of the
critical sections under `tlog.lock` and `log->lock` and of the unlocked accesses between them.

* Lines stand in the block from `start` up to `end`. When less than a line's room is left behind
  `end`, it goes back to the beginning of the block, and `ext_end` marks where it was.
* The log's thread notes under the lock which stretches it will hand out (`Snapshot`), hands them
  out without the lock, and gives them back under the lock.
* A thread that finds no room drops its line, or gives up `tlog.lock`, takes `log->lock` and waits
  there to be woken by the log's thread after a release.
* There is one log, the root: `_tlog_next_log` alternates between it and the end of the list. Its
  output function is called with what the entries of `output` list; `accepted`, `output` and
  `refused` are history.
* The process is the one that called `tlog_init`: `main` asks for no at-fork handlers, so the child of
  `daemon()` has no thread for its log. No signal handler logs inside a critical section, and the
  `exit(0)` of `handler` is where a run may stop.
-/

namespace Estuary

open Engine

/-! ## The log's parameters -/

/-- `TLOG_BUFF_SIZE` and `TLOG_MAX_LINE_LEN`. -/
def tlogBuffSize : Nat := 1024 * 128
def tlogMaxLineLen : Nat := 1024

/-- The fields of `struct tlog_log` that do not change while the log is in use. -/
structure LogConf where
  buffsize : Nat
  maxLineSize : Nat
  block : Bool
  segmentLog : Bool
  logcount : Nat
  logscreen : Bool
  buffsize_min : maxLineSizeSet * 2 ≤ buffsize
  line_min : minLineSize ≤ maxLineSize
  line_max : maxLineSize ≤ maxLineSizeSet

/-- `tlog_init`, and `tlog_open` for the root log. -/
def tlogInit (maxlogcount buffsize : Int) (flag : Nat) (isatty : Bool) : Option LogConf :=
  if h : 0 < buffsize ∧ buffsize < maxLineSizeSet * 2 then none
  else
    let logscreenColor := flag.testBit 6 && isatty
    some {
      buffsize := if 0 < buffsize then buffsize.toNat else tlogBuffSize
      maxLineSize := tlogMaxLineLen
      block := !flag.testBit 3
      segmentLog := flag.testBit 1 || logscreenColor
      logcount := maxlogcount.toNat
      logscreen := flag.testBit 4 || logscreenColor
      buffsize_min := by
        split
        · omega
        · decide
      line_min := by decide
      line_max := by decide }

/-- The log that `main` starts: no flags, ten archived files, a block of the default size. -/
def mainLog : LogConf := (tlogInit 10 0 0 false).get rfl

/-- `tlog_set_maxline_size`. -/
def tlogSetMaxlineSize (conf : LogConf) (size : Int) : LogConf :=
  { conf with
    maxLineSize :=
      if size < minLineSize then minLineSize
      else if size > maxLineSizeSet then maxLineSizeSet
      else size.toNat
    line_min := by
      split
      · exact Nat.le_refl _
      · split
        · decide
        · omega
    line_max := by
      split
      · decide
      · split
        · exact Nat.le_refl _
        · omega }

/-! ## The block of memory -/

structure TlogLog where
  buff : List UInt8
  start : Nat
  end_ : Nat
  extEnd : Nat
  dropped : Nat
  waiters : Nat
  deriving DecidableEq, Repr

/-- `TLOG_SEGMENT_MAGIC`, as it lies in memory. -/
def segmentMagic : List UInt8 := [0x54, 0x61, 0x44, 0xff]

/-- `sizeof(struct tlog_segment_head)`, packed. -/
def segmentHeadSize : Nat := 6

/-- What a line is in the block: itself, or a segment with head and terminator. -/
def LogConf.entry (conf : LogConf) (line : List UInt8) : List UInt8 :=
  if conf.segmentLog then segmentMagic ++ u16 (line.length + 1) ++ line ++ [0] else line

/-- The room behind `end`; `maxlen` is what the variable was before. -/
def TlogLog.maxlen (conf : LogConf) (log : TlogLog) (maxlen : Nat) : Nat :=
  if log.end_ = log.start then
    if log.extEnd = 0 then conf.buffsize - log.end_ else maxlen
  else if log.end_ > log.start then conf.buffsize - log.end_
  else log.start - log.end_

/-- The line goes behind `end`, and `end` moves. -/
def TlogLog.put (conf : LogConf) (log : TlogLog) (line : List UInt8) : TlogLog :=
  let buff := patch 0 log.buff log.end_ (conf.entry line)
  let end_ := log.end_ + (conf.entry line).length
  if end_ > conf.buffsize - conf.maxLineSize then
    { log with buff := buff, extEnd := end_, end_ := 0 }
  else { log with buff := buff, end_ := end_ }

/-- `_tlog_has_data`. -/
def TlogLog.hasData (log : TlogLog) : Bool := log.end_ != log.start || log.extEnd != 0

/-- What `_tlog_work` notes under the lock. -/
structure Snapshot where
  logLen : Nat
  logExtlen : Nat
  logEnd : Nat
  logExtend : Nat
  logDropped : Nat
  deriving DecidableEq, Repr

def TlogLog.snapshot (log : TlogLog) : Snapshot where
  logLen :=
    if log.end_ > log.start then log.end_ - log.start
    else if log.extEnd > 0 then log.extEnd - log.start
    else 0
  logExtlen := if log.end_ < log.start then log.end_ else 0
  logEnd := log.end_
  logExtend := log.extEnd
  logDropped := log.dropped

/-- "release finished buffer". -/
def TlogLog.release (log : TlogLog) (snap : Snapshot) : TlogLog :=
  { log with
    start := snap.logEnd
    extEnd := if snap.logExtend > 0 then 0 else log.extEnd }

/-! ## What is handed out -/

/-- `_tlog_write_one_segment_log`: the data of the segments, until one has no magic number. Every
round moves on by a head at least, so the length of the stretch bounds the rounds. -/
def segmentsOf : Nat → List UInt8 → List (List UInt8)
  | 0, _ => []
  | budget + 1, buff =>
    if buff = [] then []
    else if buff.take 4 ≠ segmentMagic then []
    else
      let len := (buff.getD 4 0).toNat + 256 * (buff.getD 5 0).toNat
      (buff.drop segmentHeadSize).take (len - 1) :: segmentsOf budget (buff.drop (len + segmentHeadSize))

/-- A call of the output function: with bytes of the log, or with the note about dropped lines and
the number it gives. -/
inductive LogOut where
  | text (bytes : List UInt8)
  | dropNote (number : Option Nat)
  deriving DecidableEq, Repr

/-- The number that the note about `n` dropped lines gives: outside segment mode the `snprintf` of the
note gets 0 for its size (`msg - dropmsg`), and writes none. -/
def LogConf.noteNumber (conf : LogConf) (n : Nat) : Option Nat :=
  if conf.segmentLog then some n else none

/-- The calls for one stretch. -/
def LogConf.handOut (conf : LogConf) (bytes : List UInt8) : List LogOut :=
  if conf.segmentLog then (segmentsOf bytes.length bytes).map .text else [.text bytes]

/-- The bytes of a list of calls, without the notes. -/
def textBytes (output : List LogOut) : List UInt8 :=
  output.flatMap fun
    | .text bytes => bytes
    | .dropNote _ => []

/-- The numbers that the notes give. -/
def dropNotes (output : List LogOut) : List (Option Nat) :=
  output.filterMap fun
    | .text _ => none
    | .dropNote number => some number

/-! ## The threads -/

/-- Where a thread is in `_tlog_vprintf`; `maxlen` is its variable of that name. -/
inductive PrintPc where
  | idle
  | entered (out : PrintOut)                        -- in front of `_tlog_need_drop`
  | ready (line : List UInt8) (maxlen : Nat)        -- about to take `tlog.lock`
  | full (line : List UInt8) (maxlen : Nat)         -- gave it up, about to take `log->lock`
  | sleeping (line : List UInt8) (maxlen : Nat)     -- in `pthread_cond_wait`
  | woken (line : List UInt8) (maxlen : Nat)        -- about to take `log->lock` again
  deriving DecidableEq, Repr

/-- Where the log's thread is in `_tlog_work`; `log` says that its variable is not NULL. -/
inductive WorkPc where
  | top (log : Bool)          -- `if (tlog.run == 0)`
  | lastCheck (log : Bool)    -- `_tlog_any_has_data` behind it
  | next (log : Bool)         -- about to take `tlog.lock`
  | asleep                    -- in `_tlog_wait_log_locked`
  | awake                     -- about to take `tlog.lock` again
  | paused                    -- `sleep(1)`
  | upper (snap : Snapshot)   -- the first stretch to come
  | lower (snap : Snapshot)   -- the stretch at the beginning of the block to come
  | note (snap : Snapshot)    -- the note about dropped lines to come
  | release (snap : Snapshot)
  | wakeup                    -- `_tlog_wakeup_waiters`
  | ended
  deriving DecidableEq, Repr

/-- Where `tlog_exit` is. -/
inductive ExitPc where
  | before
  | stopped       -- behind `tlog.run = 0`
  | joining       -- behind `pthread_cond_signal`
  deriving DecidableEq, Repr

structure Tlog where
  log : TlogLog
  run : Bool
  isWait : Bool
  notifyLog : Bool
  worker : WorkPc
  printers : List PrintPc
  exit : ExitPc
  accepted : List (Nat × List UInt8)
  output : List LogOut
  refused : Nat
  deriving DecidableEq, Repr

inductive LogAct where
  | print (i : Nat) (out : PrintOut)    -- thread `i` logs, and its callback will leave this
  | printer (i : Nat)                   -- the next step of thread `i`
  | rouse (i : Nat)                     -- its wait ends without a broadcast
  | work                                -- the next step of the log's thread
  | rouseWork                           -- its wait ends without a signal
  | exit                                -- the next step of `tlog_exit`
  deriving DecidableEq, Repr

/-- What `malloc` returns for the block. -/
abbrev LogConf.Block (conf : LogConf) : Type :=
  { memory : List UInt8 // memory.length = conf.buffsize }

/-- The state after `tlog_init`, with `n` threads around. -/
def Tlog.init {conf : LogConf} (n : Nat) (block : conf.Block) : Tlog :=
  ⟨⟨block.val, 0, 0, 0, 0, 0⟩, true, false, false, .top false, List.replicate n .idle, .before, [], [], 0⟩

/-- `pthread_cond_signal(&tlog.cond)`: only the log's thread waits there. -/
def Tlog.signal (s : Tlog) : Tlog :=
  { s with worker := if s.worker = .asleep then .awake else s.worker }

/-- `tlog.notify_log = log`, and the signal. -/
def Tlog.notify (s : Tlog) : Tlog := { s.signal with notifyLog := true }

def Tlog.move (s : Tlog) (i : Nat) (pc : PrintPc) : Tlog :=
  { s with printers := s.printers.set i pc }

/-- "drop message, increase statistics and return". -/
def Tlog.drop (s : Tlog) (i : Nat) : Tlog :=
  { s.move i .idle with
    log := { s.log with dropped := s.log.dropped + 1 }
    refused := s.refused + 1 }

/-- `_tlog_need_drop`, and the callback. -/
def enterStep (conf : LogConf) (s : Tlog) (i : Nat) (out : PrintOut) : Tlog :=
  if conf.block = false ∧ s.log.maxlen conf 0 < conf.maxLineSize then s.drop i
  else
    match tlogLine conf.maxLineSize out with
    | none => s.move i .idle
    | some line => s.move i (.ready line 0)

/-- The critical section of `_tlog_vprintf`. -/
def lockStep (conf : LogConf) (s : Tlog) (i : Nat) (line : List UInt8) (maxlen : Nat) : Tlog :=
  let maxlen := s.log.maxlen conf maxlen
  if maxlen < conf.maxLineSize then
    let s := if s.log.end_ ≠ s.log.start then s.notify else s
    if conf.block then s.move i (.full line maxlen) else s.drop i
  else
    let s := { s.move i .idle with
      log := s.log.put conf line
      accepted := s.accepted ++ [(i, line)] }
    if s.isWait then s.notify else s

/-- A step of a thread that logs. -/
def printerStep (conf : LogConf) (s : Tlog) (i : Nat) : PrintPc → Option Tlog
  | .entered out => some (enterStep conf s i out)
  | .ready line maxlen => some (lockStep conf s i line maxlen)
  | .full line maxlen =>
    some { s.move i (.sleeping line maxlen) with log := { s.log with waiters := s.log.waiters + 1 } }
  | .woken line maxlen =>
    some { s.move i (.ready line maxlen) with log := { s.log with waiters := s.log.waiters - 1 } }
  | _ => none

/-- `pthread_cond_broadcast(&log->client_cond)`. -/
def PrintPc.broadcast : PrintPc → PrintPc
  | .sleeping line maxlen => .woken line maxlen
  | pc => pc

/-- The log is not NULL, and `tlog.lock` is taken: give up an empty log, or note what to do. -/
def Tlog.begin (s : Tlog) : Tlog :=
  if s.log.hasData then
    { s with worker := .upper s.log.snapshot, log := { s.log with dropped := 0 } }
  else { s with worker := .top true }

/-- A step of the log's thread. -/
def workStep (conf : LogConf) (s : Tlog) : WorkPc → Option Tlog
  | .top log => some { s with worker := if s.run then .next log else .lastCheck log }
  | .lastCheck log => some { s with worker := if s.log.hasData then .next log else .ended }
  | .next true => some { s with worker := .top false }
  | .next false =>
    some (if s.log.hasData = false ∧ s.run then { s with worker := .asleep, isWait := true }
      else s.begin)
  | .awake =>
    some (if s.notifyLog then { s with isWait := false, notifyLog := false }.begin
      else { s with isWait := false, worker := .paused })
  | .paused => some { s with worker := .top false }
  | .upper snap =>
    some { s with
      worker := .lower snap
      output := s.output
        ++ conf.handOut (stretch s.log.buff s.log.start (s.log.start + snap.logLen)) }
  | .lower snap =>
    some { s with
      worker := .note snap
      output := if snap.logExtlen > 0 then s.output ++ conf.handOut (stretch s.log.buff 0 snap.logExtlen)
        else s.output }
  | .note snap =>
    some { s with
      worker := .release snap
      output := if snap.logDropped > 0 then s.output ++ [.dropNote (conf.noteNumber snap.logDropped)]
        else s.output }
  | .release snap => some { s with worker := .wakeup, log := s.log.release snap }
  | .wakeup =>
    some { s with
      worker := .top true
      printers := if s.log.waiters > 0 then s.printers.map PrintPc.broadcast else s.printers }
  | .asleep => none
  | .ended => none

/-- One step of the threads. -/
def logStep (conf : LogConf) (s : Tlog) : LogAct → Option Tlog
  | .print i out =>
    match s.printers[i]? with
    -- without a place to log to, the call returns 0
    | some .idle =>
      some (if conf.logcount = 0 ∧ conf.logscreen = false then s else s.move i (.entered out))
    | _ => none
  | .printer i =>
    match s.printers[i]? with
    | some pc => printerStep conf s i pc
    | none => none
  | .rouse i =>
    match s.printers[i]? with
    | some (.sleeping line maxlen) => some (s.move i (.woken line maxlen))
    | _ => none
  | .work => workStep conf s s.worker
  | .rouseWork => if s.worker = .asleep then some { s with worker := .awake } else none
  | .exit =>
    match s.exit with
    | .before => some { s with run := false, exit := .stopped }
    | .stopped => some { s.signal with exit := .joining }
    | .joining => none

end Estuary
