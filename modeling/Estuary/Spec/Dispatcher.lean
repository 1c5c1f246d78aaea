import Mathlib.Data.List.Count

/-!
# Estuary — dispatcher, workers and signal handler (`ct_run`)

The threads of the daemon, at the granularity of their accesses to shared memory: the semaphore
`hsm_req_sem`, the flag `stop_it`, the counter `err_major`, and the creation and end of worker
threads. The state starts right after `sem_init`.

* `Pc` is the position of `ct_run`'s thread, inside `ct_request_ctl` as well. `left` is the
  number of items of the current action list behind the current one.
* A worker is running from its creation until the `sem_post` at its end, `finished` after it.
* `handler` never returns: a thread that gets the signal sets `stop_it` and then polls the
  semaphore until it may `exit(0)`. `inHandler` marks a thread that is in there.
* `exited` is set by the handler's `exit(0)`, and by `ct_run` when it destroys the semaphore on
  its way back to `main`. A process that has exited takes no further step.

An action names the thread that moves; for `ct_run`'s thread it also carries the answer of the
call it makes there.
-/

namespace Estuary

inductive Pc where
  | recv                              -- `llapi_hsm_copytool_recv`
  | itemTest (items : Nat)            -- `while (++i <= hal->hal_count)`
  | ctlEntry (left : Nat)             -- `ct_request_ctl`: `if (stop_it) return;`
  | ctlWait (left : Nat)              -- `sem_timedwait`
  | ctlGot (left : Nat)               -- it took a permit: `!rc_sem && !stop_it`
  | ctlTimedOut (left : Nat)          -- it took none: `if (stop_it)`
  | ctlRepost (left : Nat)            -- `sem_post` before the value is checked
  | ctlCheck (left : Nat)             -- `working_threads < max_requests`
  | async (left : Nat) (permit : Bool)        -- `ct_process_item_async`
  | asyncFailed (left : Nat) (permit : Bool)  -- `sem_post` after its failure
  | itemEnd (left : Nat)              -- the abort test, and `hai_next`
  | listEnd                           -- `if (stop_it) break;` and the abort test
  | leave                             -- behind the loop: `sem_destroy`
  deriving DecidableEq, Repr

structure Worker where
  finished : Bool
  inHandler : Bool
  deriving DecidableEq, Repr

structure Daemon where
  sem : Nat
  stopIt : Bool
  errMajor : Nat
  pc : Pc
  inHandler : Bool
  workers : List Worker
  exited : Bool
  deriving DecidableEq, Repr

/-- The answer of the call `ct_run`'s thread makes in a step; `ok` where there is no choice. -/
inductive Answer where
  | ok
  | shutdown                                  -- `-ESHUTDOWN`
  | recvError                                 -- any other negative result
  | message (fsname : Bool) (count : Nat)     -- a list, with the expected fsname or not
  | pastEnd                                   -- the item lies behind the message
  | timeout                                   -- `sem_timedwait` failed
  | failed                                    -- `ct_process_item_async` failed
  deriving DecidableEq, Repr

inductive Act where
  | disp (answer : Answer)
  | majorError (i : Nat)      -- worker `i` executes `err_major++`
  | finish (i : Nat)          -- worker `i` has processed its item: `sem_post`
  | signalDisp                -- the signal arrives on `ct_run`'s thread
  | signalWorker (i : Nat)
  | pollDisp                  -- one round of the handler's loop on `ct_run`'s thread
  | pollWorker (i : Nat)
  deriving DecidableEq, Repr

/-- The state after `sem_init(&hsm_req_sem, 0, max_requests)`. -/
def Daemon.init (maxRequests : Nat) : Daemon :=
  ⟨maxRequests, false, 0, .recv, false, [], false⟩

/-- After an error that `--abort-on-error` turns into the end of the loop. -/
def afterMajor (abortOnError : Bool) (s : Daemon) : Daemon :=
  { s with errMajor := s.errMajor + 1, pc := if abortOnError then .leave else .recv }

/-- One step of `ct_run`'s thread. -/
def dispStep (maxRequests : Nat) (abortOnError : Bool) (s : Daemon) (answer : Answer) :
    Option Daemon :=
  match s.pc, answer with
  | .recv, .shutdown => some { s with pc := .leave }
  | .recv, .recvError => some (afterMajor abortOnError s)
  | .recv, .message fsname count =>
    some (if fsname then { s with pc := .itemTest count } else afterMajor abortOnError s)
  | .itemTest 0, .ok => some { s with pc := .listEnd }
  | .itemTest (left + 1), .ok => some { s with pc := .ctlEntry left }
  | .itemTest (_ + 1), .pastEnd => some { s with errMajor := s.errMajor + 1, pc := .listEnd }
  | .ctlEntry left, .ok => some { s with pc := if s.stopIt then .async left false else .ctlWait left }
  | .ctlWait left, .ok =>
    if s.sem = 0 then none else some { s with sem := s.sem - 1, pc := .ctlGot left }
  | .ctlWait left, .timeout => some { s with pc := .ctlTimedOut left }
  | .ctlGot left, .ok => some { s with pc := if s.stopIt then .ctlRepost left else .async left true }
  | .ctlTimedOut left, .ok => some { s with pc := if s.stopIt then .ctlCheck left else .ctlWait left }
  | .ctlRepost left, .ok => some { s with sem := s.sem + 1, pc := .ctlCheck left }
  | .ctlCheck left, .ok =>
    some { s with pc := if s.sem < maxRequests then .ctlWait left else .async left false }
  | .async left _, .ok =>
    some { s with pc := .itemEnd left, workers := s.workers ++ [⟨false, false⟩] }
  | .async left permit, .failed => some { s with pc := .asyncFailed left permit }
  | .asyncFailed left _, .ok => some { s with sem := s.sem + 1, pc := .itemEnd left }
  | .itemEnd left, .ok =>
    some { s with pc := if abortOnError && s.errMajor != 0 then .listEnd else .itemTest left }
  | .listEnd, .ok =>
    some { s with pc := if s.stopIt || (abortOnError && s.errMajor != 0) then .leave else .recv }
  | .leave, .ok => some { s with exited := true }
  | _, _ => none

/-- One step of the daemon. -/
def daemonStep (maxRequests : Nat) (abortOnError : Bool) (s : Daemon) (a : Act) :
    Option Daemon :=
  if s.exited then none
  else
    match a with
    | .disp answer => if s.inHandler then none else dispStep maxRequests abortOnError s answer
    | .majorError i =>
      match s.workers[i]? with
      | some ⟨false, false⟩ => some { s with errMajor := s.errMajor + 1 }
      | _ => none
    | .finish i =>
      match s.workers[i]? with
      | some ⟨false, false⟩ =>
        some { s with sem := s.sem + 1, workers := s.workers.set i ⟨true, false⟩ }
      | _ => none
    | .signalDisp => some { s with stopIt := true, inHandler := true }
    | .signalWorker i =>
      match s.workers[i]? with
      | some w => some { s with stopIt := true, workers := s.workers.set i ⟨w.finished, true⟩ }
      | none => none
    | .pollDisp =>
      if s.inHandler then some (if s.sem < maxRequests then s else { s with exited := true })
      else none
    | .pollWorker i =>
      match s.workers[i]? with
      | some ⟨_, true⟩ => some (if s.sem < maxRequests then s else { s with exited := true })
      | _ => none

/-- The workers that have been created and have not yet finished their item. -/
def Daemon.running (s : Daemon) : Nat := s.workers.countP fun w => !w.finished

/-- The permits `ct_run`'s thread holds between `sem_timedwait` and the creation of a worker. -/
def Daemon.held (s : Daemon) : Nat :=
  match s.pc with
  | .ctlGot _ => 1
  | .ctlRepost _ => 1
  | .async _ true => 1
  | .asyncFailed _ true => 1
  | _ => 0

end Estuary
