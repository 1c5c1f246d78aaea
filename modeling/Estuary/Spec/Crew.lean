import Estuary.Spec.Dispatcher
import Estuary.Spec.Item

/-!
# Estuary — the daemon with its items

`Estuary.Spec.Dispatcher` leaves open what the workers do; `Estuary.Spec.Item` leaves open when they
do it. Here the two are put together: the worker that is created as number `i` processes `jobs i`,
one action of its log after the other, and only `err_major++` and its end touch what the threads
share. Everything in between interleaves freely with the other threads.
-/

namespace Estuary

open Engine

/-- The item a worker is started for, with the answers to the calls made for it. -/
structure Job where
  env : ItemEnv
  hai : HsmActionItem

/-- What the worker does for its item. -/
def Job.process (cfg : Config) (lib : LibS3) (job : Job) : Proc Int :=
  ctProcessItem cfg lib job.env job.hai

/-- The daemon, and what each worker has carried out for its item. -/
structure Crew where
  daemon : Daemon
  logs : List (List Event)
  deriving DecidableEq, Repr

inductive CrewAct where
  | work (i : Nat)        -- worker `i` carries out its next action, or ends
  | other (a : Act)       -- any other step of the daemon
  deriving DecidableEq, Repr

def Crew.init (maxRequests : Nat) : Crew := ⟨.init maxRequests, []⟩

/-- A worker that has just been created has carried out nothing. -/
def hire (logs : List (List Event)) (d : Daemon) : Crew :=
  ⟨d, logs ++ List.replicate (d.workers.length - logs.length) []⟩

/-- Worker `i` has been created, is neither at its end nor in the signal handler, and the process
is alive. -/
def Daemon.active (s : Daemon) (i : Nat) : Bool :=
  !s.exited && s.workers[i]? == some ⟨false, false⟩

/-- One step of the daemon with its items. -/
def crewStep (cfg : Config) (lib : LibS3) (jobs : Nat → Job) (maxRequests : Nat) (s : Crew) :
    CrewAct → Option Crew
  | .work i =>
    match s.logs[i]? with
    | none => none
    | some l =>
      match ((jobs i).process cfg lib).log[l.length]? with
      | some e =>
        if e = .errMajor then
          (daemonStep maxRequests cfg.oAbortOnError s.daemon (.majorError i)).map fun d =>
            ⟨d, s.logs.set i (l ++ [e])⟩
        else if s.daemon.active i then some ⟨s.daemon, s.logs.set i (l ++ [e])⟩
        else none
      | none =>
        match ((jobs i).process cfg lib).out with
        | .done _ =>
          (daemonStep maxRequests cfg.oAbortOnError s.daemon (.finish i)).map fun d => ⟨d, s.logs⟩
        | .dead _ =>
          -- the worker takes the process down
          if s.daemon.active i then some ⟨{ s.daemon with exited := true }, s.logs⟩ else none
        | .pending => none
  | .other (.majorError _) => none
  | .other (.finish _) => none
  | .other a => (daemonStep maxRequests cfg.oAbortOnError s.daemon a).map (hire s.logs)

end Estuary
