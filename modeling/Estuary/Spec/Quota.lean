import Mathlib.Algebra.GroupWithZero.Nat
import Mathlib.Data.List.Basic

/-!
# Estuary — the memory quota (`mem_quota.c`)

Workers that archive small files take their buffer from a common quota: `quota_mem_alloc` waits on
a condition variable until enough of it is left, `quota_mem_free` gives it back and may signal. The
model has any number of threads, at the granularity of the critical sections under `quota_mutex`
and of the calls made outside it.

* `pthread_cond_wait` gives the mutex up and sleeps in one step. A thread that was woken takes the
  mutex again, counts itself off and goes back to `retry`; in between, any thread may move.
* A signal wakes one sleeping thread, whichever; without one it has no effect. A sleeping thread may
  also wake up by itself, as the standard allows.
* As in `ct_archive_data`, a buffer is freed once, with the size it was allocated with.
-/

namespace Estuary

/-- Where a thread is. -/
inductive QuotaPc where
  | idle                                    -- in neither function, without a buffer
  | retry (size : UInt64) (again : Bool)    -- in front of the test; `again`: by `goto retry`
  | granted (size : UInt64)                 -- it took its share, `malloc` to come
  | refund (size : UInt64)                  -- `malloc` failed, "return quota" to come
  | sleeping (size : UInt64)                -- in `pthread_cond_wait`
  | woken (size : UInt64)                   -- about to take the mutex again
  | live (size : UInt64)                    -- with a buffer, `quota_mem_free` to come
  | released (notify : Bool)                -- behind its critical section, `free` to come
  | signaling                               -- `pthread_cond_signal` to come
  deriving DecidableEq, Repr

structure Quota where
  quotaTotal : UInt64
  quotaLeft : UInt64
  quotaWaiters : Nat
  threads : List QuotaPc
  deriving DecidableEq, Repr

/-- A step of one thread, with the answer it gets. -/
inductive QuotaOp where
  | call (size : UInt64)        -- `quota_mem_alloc(size)` is called
  | test                        -- the critical section at `retry`
  | malloc (ok : Bool)
  | returnQuota                 -- the critical section after a failed `malloc`
  | release                     -- the critical section of `quota_mem_free`
  | free
  | wakeUp                      -- `pthread_cond_wait` returns without a signal
  | reacquire                   -- it gets the mutex again
  deriving DecidableEq, Repr

inductive QuotaAct where
  | op (i : Nat) (op : QuotaOp)
  | signal (i : Nat) (sleeper : Option Nat)   -- `pthread_cond_signal`, and whom it wakes
  deriving DecidableEq, Repr

/-- `quota_mem_init`, with `n` threads around. -/
def quotaMemInit (quotaSize : UInt64) (n : Nat) : Quota :=
  ⟨quotaSize, quotaSize, 0, List.replicate n .idle⟩

/-- What a step makes of `quota_left`, `quota_waiters` and the position of the thread. -/
def opStep (left : UInt64) (waiters : Nat) : QuotaPc → QuotaOp → Option (UInt64 × Nat × QuotaPc)
  | .idle, .call size => some (left, waiters, .retry size false)
  | .retry size _, .test =>
    if size ≤ left then some (left - size, waiters, .granted size)
    else some (left, waiters + 1, .sleeping size)
  | .granted size, .malloc ok => some (left, waiters, if ok then .live size else .refund size)
  -- `quota_mem_alloc` returns NULL, and nobody is told
  | .refund size, .returnQuota => some (left + size, waiters, .idle)
  | .live size, .release => some (left + size, waiters, .released (waiters != 0))
  | .released notify, .free => some (left, waiters, if notify then .signaling else .idle)
  | .sleeping size, .wakeUp => some (left, waiters, .woken size)
  | .woken size, .reacquire => some (left, waiters - 1, .retry size true)
  | _, _ => none

def QuotaPc.isSleeping : QuotaPc → Bool
  | .sleeping _ => true
  | _ => false

/-- One step of the threads. -/
def quotaStep (s : Quota) : QuotaAct → Option Quota
  | .op i op =>
    match s.threads[i]? with
    | none => none
    | some pc =>
      (opStep s.quotaLeft s.quotaWaiters pc op).map fun (left, waiters, pc) =>
        { s with quotaLeft := left, quotaWaiters := waiters, threads := s.threads.set i pc }
  | .signal i none =>
    if s.threads[i]? = some .signaling ∧ s.threads.any QuotaPc.isSleeping = false then
      some { s with threads := s.threads.set i .idle }
    else none
  | .signal i (some j) =>
    match s.threads[i]?, s.threads[j]? with
    | some .signaling, some (.sleeping size) =>
      some { s with threads := (s.threads.set i .idle).set j (.woken size) }
    | _, _ => none

/-- The quota a thread holds: with its buffer, before the `malloc` for it, or before the refund. -/
def QuotaPc.held : QuotaPc → Nat
  | .granted size => size.toNat
  | .refund size => size.toNat
  | .live size => size.toNat
  | _ => 0

/-- The size of the buffer a thread has. -/
def QuotaPc.buffer : QuotaPc → Nat
  | .live size => size.toNat
  | _ => 0

def Quota.held (s : Quota) : Nat := (s.threads.map QuotaPc.held).sum

def Quota.buffers (s : Quota) : Nat := (s.threads.map QuotaPc.buffer).sum

end Estuary
