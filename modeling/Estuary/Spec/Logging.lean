import Estuary.Spec.Log
import Estuary.Spec.LogFile

/-!
# Estuary — the root log with its files (`_tlog_work_write`, `_tlog_root_write_log`)

What the log's thread hands out goes to `_tlog_write`, one call after the other. Here the model of the
log's threads and that of its files are put together.

* The log is not in segment mode, and `tlog.output_func` is NULL: a call is handed on as it is.
* `calls` are those that have been handed out and not been made; the log's thread goes on when there are
  none. Meanwhile other threads log, `gzip` ends and time passes; `_tlog_wait_pids` may look for that end
  at any moment.
* The log's parameters stay what they were, so the model is for a directory that can be made: else
  `_tlog_write_ext` turns the log to the screen.
* Outside segment mode the `snprintf` of the note about dropped lines gets 0 for its size, so what is
  written there is what the array held: the bytes come with the call.
-/

namespace Estuary

structure Logging where
  log : Tlog
  calls : List LogOut
  files : TlogFile

inductive LoggingAct where
  | log (a : LogAct)
  | call (note : List UInt8) (ans : WriteAnswers)   -- the next call of `_tlog_write`
  | file (a : FileAct)                              -- but for a write

/-- After `tlog_init`, with `n` threads around. -/
def Logging.init {conf : LogConf} (n : Nat) (block : conf.Block) (nocompress : Bool) (dir : LogDir)
    (clock : Nat) : Logging :=
  ⟨.init n block, [], .init conf.logcount nocompress conf.logscreen dir clock⟩

/-- What a call writes. -/
def LogOut.bytes (note : List UInt8) : LogOut → List UInt8
  | .text bytes => bytes
  | .dropNote _ => note

def FileAct.isWrite : FileAct → Bool
  | .write _ _ => true
  | _ => false

def loggingStep (conf : LogConf) (files : LogFileConf) (s : Logging) : LoggingAct → Option Logging
  | .log a =>
    if a = .work ∧ s.calls ≠ [] then none
    else
      (logStep conf s.log a).map fun t =>
        { s with log := t, calls := s.calls ++ t.output.drop s.log.output.length }
  | .call note ans =>
    match s.calls with
    | [] => none
    | out :: rest =>
      (tlogWriteExt files s.files (out.bytes note) ans).map fun r =>
        { s with calls := rest, files := r.1 }
  | .file a =>
    if a.isWrite then none else (fileStep files s.files a).map fun t => { s with files := t }

end Estuary
