import Estuary.Spec.Event

/-!
# Estuary — talking to the HSM coordinator (`ct_common.c`)

The begin, progress and end-of-action calls, each with its `msg_resend` loop. The answers are
given as a stream of error numbers, `rcs 0` for the first call made at that place, `rcs 1` for
the first resend, and so on; the C functions return the negated error number.

`llapi_hsm_action_begin` sets `*phcp` exactly when it returns 0, so "the handle is set" is the
Boolean `hcp` here.
-/

namespace Estuary

open Engine

/-- A `msg_resend` loop: call, and call again while the answer asks for it and `retrys >= 0`.
`budget` is `retrys + 1`, so `max_retry = 5` allows six resends. -/
def msgResend (report : Nat → Event) (again : Nat → Bool) (rcs : Nat → Nat) :
    Nat → Nat → Proc Nat
  | 0, i => do
    Exec.emit (report (rcs i))
    pure (rcs i)
  | budget + 1, i => do
    Exec.emit (report (rcs i))
    if again (rcs i) then msgResend report again rcs budget (i + 1) else pure (rcs i)

/-- `max_retry + 1`, the number of resends. -/
def maxResend : Nat := 6

/-- `llapi_hsm_action_begin_ex`. -/
def llapiHsmActionBeginEx (isError : Bool) (rcs : Nat → Nat) : Proc Nat :=
  msgResend (.actionBegin isError) (fun rc => rc != 0) rcs maxResend 0

/-- `llapi_hsm_action_progress_ex`. -/
def llapiHsmActionProgressEx (offset length total : Nat) (rcs : Nat → Nat) : Proc Nat :=
  msgResend (.actionProgress offset length total) (fun rc => rc != 0) rcs maxResend 0

/-- `ct_is_retryable`. -/
def ctIsRetryable (err : Int) : Bool := err == -(etimedout : Int)

/-- `ct_begin_restore`, and `ct_begin` with its default arguments: the error number, 0 when the
handle was set. -/
def ctBeginRestore (rcs : Nat → Nat) : Proc Nat := llapiHsmActionBeginEx false rcs

/-- The answers to the calls of one `ct_action_done`. -/
structure DoneEnv where
  beginRcs : Nat → Nat
  endRcs : Nat → Nat

/-- The handle `ct_action_done` works with: without one, a begin call marked as error opens
it. -/
def openHandle (env : DoneEnv) (hcp : Bool) : Proc Nat :=
  if hcp then pure 0 else llapiHsmActionBeginEx true env.beginRcs

/-- `ct_action_done`. -/
def ctActionDone (env : DoneEnv) (hcp : Bool) (retry : Bool) (ctRc : Int) : Proc Int := do
  Exec.emit (.actionDone ctRc)
  let err ← openHandle env hcp
  if err ≠ 0 then pure (-(err : Int))
  else do
    -- a canceled action is not resent
    let rc ← msgResend (.actionEnd retry ctRc.natAbs) (fun rc => rc != 0 && rc != ecanceled)
      env.endRcs maxResend 0
    pure (-(rc : Int))

/-! ## The handle across the end calls

Above, the answers to the end calls are any stream. Where they come from: `llapi_hsm_action_end`
passes one request on to the coordinator, frees the handle and sets `*phcp` to `NULL`, whatever the
answer; without a handle it returns `-EINVAL` and the coordinator sees nothing. -/

/-- Whether `*phcp` is set, how many end-of-action requests the coordinator has been sent, and the
error values of those it accepted. -/
structure EndCalls where
  handle : Bool
  asked : Nat
  received : List Nat
  deriving DecidableEq, Repr

/-- One `llapi_hsm_action_end`, `outcomes` being what the coordinator says to the requests it gets,
one after the other. -/
def llapiHsmActionEnd (outcomes : Nat → Nat) (errval : Nat) (c : EndCalls) : Nat × EndCalls :=
  if c.handle then
    (outcomes c.asked,
      ⟨false, c.asked + 1, if outcomes c.asked = 0 then c.received ++ [errval] else c.received⟩)
  else (einval, c)

/-- The `msg_resend` loop of `ct_action_done`, with the handle. -/
def endResend (outcomes : Nat → Nat) (retry : Bool) (errval : Nat) :
    Nat → EndCalls → Proc (Nat × EndCalls)
  | 0, c => do
    let r := llapiHsmActionEnd outcomes errval c
    Exec.emit (.actionEnd retry errval r.1)
    pure r
  | budget + 1, c => do
    let r := llapiHsmActionEnd outcomes errval c
    Exec.emit (.actionEnd retry errval r.1)
    if r.1 != 0 && r.1 != ecanceled then endResend outcomes retry errval budget r.2 else pure r

/-- `ct_action_done`, with the handle. -/
def ctActionDoneHandle (beginRcs outcomes : Nat → Nat) (hcp retry : Bool) (ctRc : Int) :
    Proc (Int × EndCalls) := do
  Exec.emit (.actionDone ctRc)
  let err ← openHandle ⟨beginRcs, outcomes⟩ hcp
  if err ≠ 0 then pure (-(err : Int), ⟨false, 0, []⟩)
  else do
    let r ← endResend outcomes retry ctRc.natAbs maxResend ⟨true, 0, []⟩
    pure (-(r.1 : Int), r.2)

end Estuary
