import Estuary.Restored

/-!
# Estuary — how many requests a download makes

Nothing in the loop of `get_s3_object` counts its requests. What ends it is that a request either
takes the next full range, of which the object has finitely many, or uses up one unit of the one
retry budget, or is the last. The budget must not run past zero for this: `should_retry` answers
with the count before its decrement, and would say yes again at `-1`.

* **`getStep_again`** — what a time round that is followed by another one has done to `startByte`
  and `retry_count`;
* **`accounts_of_turned`** — both of them at every request, by the answers so far;
* **`download_ends`** — the number of requests.
-/

namespace Estuary

open Engine

/-! ## Once round the loop -/

section Body

variable {lib : LibS3} {name : CString} {attempt : GetAttempt} {s : GetState}

theorem getStep_ne_pending : (getStep lib name attempt s).out ≠ .pending := by
  by_cases h : Announces s.data.contentLength attempt
  · obtain ⟨next, hout, -⟩ := @getStep_round lib name attempt s h
    rw [hout]
    exact nofun
  · rw [getStep_dead h]
    exact nofun

/-- The loop asks again after a full range, with the budget as it was, or after a failure, for the
same range and with one retry less. -/
theorem getStep_again {t : GetState} (h : (getStep lib name attempt s).out = .done (.inl t)) :
    (attempt.outcome lib = s3StatusOK ∧ announced s.data.contentLength attempt = chunkSize
        ∧ t.startByte = s.startByte + chunkSize ∧ t.retry_count = s.retry_count)
      ∨ (attempt.outcome lib ≠ s3StatusOK ∧ s.retry_count ≠ 0
        ∧ t.startByte = s.startByte ∧ t.retry_count = s.retry_count - 1) := by
  cases getStep_cases h with
  | full hok hfull => exact .inl ⟨hok, hfull, rfl, rfl⟩
  | again hfail _ _ hshould => exact .inr ⟨hfail, bne_iff_ne.mp hshould, rfl, rfl⟩

/-- Whether an entry is a request for a range. -/
def Event.isGetObject : Event → Bool
  | .getObject _ _ _ _ => true
  | _ => false

/-- A time round that comes to its end has logged one request. -/
theorem getStep_countP {r : GetState ⊕ GetObjectCallbackData}
    (h : (getStep lib name attempt s).out = .done r) :
    (getStep lib name attempt s).log.countP Event.isGetObject = 1 := by
  obtain ⟨data, hget, -⟩ := Exec.bind_out_done.mp h
  obtain ⟨accepted, hpieces, -⟩ := Exec.bind_out_done.mp hget
  have hquiet : (getPieces (getProperties s.data attempt.properties).contentLength attempt.pieces
      s.startByte).Logs fun e => ¬ e.isGetObject = true :=
    logs_getPieces (fun _ _ => nofun) _ _ _
  rw [getStep_log, s3GetObject]
  simp only [Exec.bind_log_of_done hpieces, List.countP_append, List.countP_eq_zero.mpr hquiet]
  rfl

end Body

/-! ## The accounts of a download -/

/-- The answers that made the loop ask for another range. -/
def succeeded (lib : LibS3) (attempts : List GetAttempt) : Nat :=
  attempts.countP fun attempt => decide (attempt.outcome lib = s3StatusOK)

/-- The answers that did not. -/
def failed (lib : LibS3) (attempts : List GetAttempt) : Nat :=
  attempts.countP fun attempt => decide (attempt.outcome lib ≠ s3StatusOK)

theorem length_eq_succeeded_add_failed (lib : LibS3) (attempts : List GetAttempt) :
    attempts.length = succeeded lib attempts + failed lib attempts := by
  rw [List.length_eq_countP_add_countP fun attempt => decide (attempt.outcome lib = s3StatusOK)]
  simp only [succeeded, failed, decide_not, decide_eq_true_eq]

theorem servedAcross_append {lib : LibS3} {version : Nat → List UInt8}
    {attempts more : List GetAttempt} {i start : Nat} :
    ServedAcross lib version (attempts ++ more) i start
      ↔ ServedAcross lib version attempts i start
        ∧ ServedAcross lib version more (i + attempts.length)
            (start + chunkSize * succeeded lib attempts) := by
  induction attempts generalizing i start with
  | nil => simp [ServedAcross, succeeded]
  | cons attempt attempts ih =>
    rw [List.cons_append, ServedAcross, ServedAcross, ih, and_assoc, List.length_cons]
    have hcount : (if attempt.outcome lib = s3StatusOK then start + chunkSize else start)
          + chunkSize * succeeded lib attempts
        = start + chunkSize * succeeded lib (attempt :: attempts) := by
      by_cases hok : attempt.outcome lib = s3StatusOK
      · simp only [succeeded, List.countP_cons, hok, decide_true, if_true, Nat.mul_succ]
        omega
      · simp only [succeeded, List.countP_cons, hok, decide_false, if_false, Bool.false_eq_true,
          Nat.add_zero]
    rw [hcount, show i + 1 + attempts.length = i + (attempts.length + 1) from by omega]

/-- Where a download of an object stands when it makes a request, after these answers: it has full
ranges behind it, all of them inside the object, and every failure, of whichever range, is paid
from the one budget, which is not overdrawn. -/
structure Accounts (lib : LibS3) (obj : List UInt8) (attempts : List GetAttempt) (s : GetState) :
    Prop where
  ranges : s.startByte = chunkSize * succeeded lib attempts
  inside : s.startByte ≤ obj.length
  budget : s.retry_count = (retryCount : Int) - failed lib attempts
  solvent : 0 ≤ s.retry_count

/-- One request and its answer keep the accounts. -/
theorem Accounts.step {lib : LibS3} {name : CString} {obj : List UInt8}
    {attempts : List GetAttempt} {attempt : GetAttempt} {s t : GetState}
    (h : Accounts lib obj attempts s) (hhonest : HonestGet lib obj s.startByte attempt)
    (hstep : (getStep lib name attempt s).out = .done (.inl t)) :
    Accounts lib obj (attempts ++ [attempt]) t := by
  obtain ⟨hranges, hinside, hbudget, hsolvent⟩ := h
  rcases getStep_again hstep with ⟨hok, hfull, hstart, hretry⟩ | ⟨hfail, hne, hstart, hretry⟩
  · -- a full range was delivered, so the object has one there
    have hrange := rangeOf_length obj s.startByte
    rw [hhonest.length (status_of_outcome hok lib.abortedByCallback_ne_ok).1] at hfull
    have hgt := chunkSize_gt
    refine ⟨?_, by omega, ?_, by omega⟩
    · simp [succeeded, hok, hstart, hranges, Nat.mul_succ]
    · simp [failed, hok, hretry, hbudget]
  · refine ⟨?_, by omega, ?_, by omega⟩
    · simp [succeeded, hfail, hstart, hranges]
    · simp [failed, hfail, hretry, hbudget]
      omega

/-- **The accounts at every request** of a download that is answered as S3 specifies. -/
theorem accounts_of_turned {lib : LibS3} {name : CString} {obj : List UInt8}
    {attempts : List GetAttempt} {log : List Event} {s : GetState}
    (h : Turned (getStep lib name) attempts .first log s) (hserved : ServedFrom lib obj attempts 0) :
    Accounts lib obj attempts s := by
  have hround : ∀ as attempt (before : List Event) s t,
      (ServedFrom lib obj as 0 → Accounts lib obj as s) →
      (getStep lib name attempt s).out = .done (.inl t) →
      ServedFrom lib obj (as ++ [attempt]) 0 → Accounts lib obj (as ++ [attempt]) t := by
    intro as attempt before s t haccounts hstep hserved
    obtain ⟨hbefore, hhonest, -⟩ := servedAcross_append.mp hserved
    have hs := haccounts hbefore
    rw [Nat.zero_add (chunkSize * _), ← hs.ranges] at hhonest
    exact hs.step hhonest hstep
  have hfirst : ServedFrom lib obj [] 0 → Accounts lib obj [] .first :=
    fun _ => ⟨rfl, Nat.zero_le _, rfl, Int.natCast_nonneg retryCount⟩
  exact @Turned.invariant _ _ _ _ _ (getStep lib name)
    (fun as _ s => ServedFrom lib obj as 0 → Accounts lib obj as s) hround attempts [] log [] _ s
    h hfirst hserved

/-- The accounts bound the number of requests made before. -/
theorem Accounts.length_lt {lib : LibS3} {obj : List UInt8} {attempts : List GetAttempt}
    {s : GetState} (h : Accounts lib obj attempts s) :
    attempts.length < obj.length / chunkSize + 1 + retryCount := by
  obtain ⟨hranges, hinside, hbudget, hsolvent⟩ := h
  have hfull : succeeded lib attempts ≤ obj.length / chunkSize := by
    rw [Nat.le_div_iff_mul_le (Nat.lt_of_succ_lt chunkSize_gt), Nat.mul_comm, ← hranges]
    exact hinside
  have hlength := length_eq_succeeded_add_failed lib attempts
  omega

/-! ## The requests of a download -/

section Download

variable {lib : LibS3} {name : CString}

theorem getS3Object_pending {attempts : List GetAttempt} :
    (getS3Object lib name attempts).out = .pending
      ↔ (answered (getStep lib name) attempts .first).out = .pending := by
  rw [getS3Object_eq]
  exact Exec.bind_out_pending fun _ => Exec.returns_ite (Exec.returns_pure _) (Exec.returns_pure _)

/-- A download that is over makes no further request. -/
theorem getS3Object_append {attempts : List GetAttempt}
    (h : (getS3Object lib name attempts).out ≠ .pending) (more : List GetAttempt) :
    getS3Object lib name (attempts ++ more) = getS3Object lib name attempts := by
  have hloop := answered_append (fun hp => h (getS3Object_pending.mpr hp)) more
  rw [getS3Object_eq, getS3Object_eq, hloop]

/-- Every request that is made is answered as S3 specifies; answers that nobody asks for may be
anything. -/
def AnsweredFrom (lib : LibS3) (name : CString) (obj : List UInt8) (answers : Nat → GetAttempt) :
    Prop :=
  ∀ k, (getS3Object lib name (upTo answers k)).out = .pending →
    ServedFrom lib obj (upTo answers (k + 1)) 0

/-- The accounts when the loop makes request `k`. -/
theorem AnsweredFrom.accounts {obj : List UInt8} {answers : Nat → GetAttempt}
    (h : AnsweredFrom lib name obj answers) {k : Nat}
    (hk : (getS3Object lib name (upTo answers k)).out = .pending) :
    ∃ log s, Turned (getStep lib name) (upTo answers k) .first log s
      ∧ Accounts lib obj (upTo answers k) s := by
  obtain ⟨log, s, hturned⟩ :=
    (answered_pending_iff fun _ _ => getStep_ne_pending).mp (getS3Object_pending.mp hk)
  have hserved := h k hk
  rw [upTo_succ] at hserved
  exact ⟨log, s, hturned, accounts_of_turned hturned (servedAcross_append.mp hserved).1⟩

/-- **The download ends** after at most one request for every full range of the object, one for
every unit of the retry budget, and a last one. The budget is one for all ranges: at every request
it has paid for every failure so far, and it is not overdrawn, so that `should_retry` never gets to
say yes on a count behind zero. If the data of the answers follows their headers, the download does
not die either, and its log shows the requests. -/
theorem download_ends {obj : List UInt8} {answers : Nat → GetAttempt}
    (hanswers : AnsweredFrom lib name obj answers) :
    ∃ calls ≤ obj.length / chunkSize + 1 + retryCount,
      (∀ k < calls, (getS3Object lib name (upTo answers k)).out = .pending
        ∧ ∃ log s, Turned (getStep lib name) (upTo answers k) .first log s
          ∧ Accounts lib obj (upTo answers k) s)
      ∧ (∀ k ≥ calls, (getS3Object lib name (upTo answers k)).out ≠ .pending
        ∧ getS3Object lib name (upTo answers k) = getS3Object lib name (upTo answers calls))
      ∧ ((∀ k < calls, ∀ len, Announces len (answers k)) →
        (getS3Object lib name (upTo answers calls)).Returns
          ∧ (getS3Object lib name (upTo answers calls)).log.countP Event.isGetObject = calls) := by
  have hbound : ∀ k, (answered (getStep lib name) (upTo answers k) .first).out = .pending →
      k < obj.length / chunkSize + 1 + retryCount := by
    intro k hk
    obtain ⟨log, s, -, haccounts⟩ := hanswers.accounts (getS3Object_pending.mpr hk)
    have hlt := haccounts.length_lt
    rwa [upTo_length] at hlt
  obtain ⟨calls, hcalls, hasks, hover⟩ := exists_calls hbound
  refine ⟨calls, hcalls, fun k hk => ?_, fun k hk => ?_, fun hann => ?_⟩
  · have hpending := getS3Object_pending.mpr (hasks k hk)
    exact ⟨hpending, hanswers.accounts hpending⟩
  · obtain ⟨hne, hsame⟩ := hover k hk
    refine ⟨fun hp => hne (getS3Object_pending.mp hp), ?_⟩
    rw [getS3Object_eq, getS3Object_eq, hsame]
  -- the last request is number `calls - 1`: without an answer the loop waits
  obtain ⟨last, rfl⟩ : ∃ last, calls = last + 1 := by
    cases calls with
    | zero => exact absurd rfl (hover 0 (Nat.le_refl 0)).1
    | succ last => exact ⟨last, rfl⟩
  have hreturns : (answered (getStep lib name) (upTo answers (last + 1)) .first).Returns := by
    refine answered_returns (fun attempt hmem s => ?_) (hover _ (Nat.le_refl _)).1
    obtain ⟨i, hi, rfl⟩ := mem_upTo hmem
    obtain ⟨next, hout, -⟩ := @getStep_round lib name (answers i) s (hann i hi _)
    exact Exec.returns_of_done hout
  have hjudge : ∀ data : GetObjectCallbackData, (if data.status ≠ s3StatusOK then
      pure (-(eio : Int), data) else pure (0, data) : Proc (Int × GetObjectCallbackData)).Returns :=
    fun data => Exec.returns_ite (Exec.returns_pure _) (Exec.returns_pure _)
  refine ⟨?_, ?_⟩
  · rw [getS3Object_eq]
    exact Exec.returns_bind.mpr ⟨hreturns, fun data _ => hjudge data⟩
  rw [getS3Object_log]
  rw [upTo_succ] at hreturns ⊢
  rw [answered_countP (fun _ _ => getStep_ne_pending) (fun _ _ _ => getStep_countP)
    (hasks last (Nat.lt_succ_self last)) hreturns, upTo_length]

end Download

/-- The download that breaks off once; nobody asks for the answers behind its two. -/
def brokenOffAnswers (k : Nat) : GetAttempt := brokenOff.getD k (.smooth [])

/-- It takes two requests. -/
theorem download_ends_brokenOff :
    AnsweredFrom .upstream (cstr ['f']) [1, 2] brokenOffAnswers
      ∧ (getS3Object .upstream (cstr ['f']) brokenOff).log.countP Event.isGetObject = 2 := by
  have hover : (getS3Object .upstream (cstr ['f']) (upTo brokenOffAnswers 2)).out ≠ .pending := by
    decide +kernel
  have hpending : ∀ k, (getS3Object .upstream (cstr ['f']) (upTo brokenOffAnswers k)).out
      = .pending → k < 2 := by
    intro k hk
    by_contra hle
    obtain ⟨j, rfl⟩ := Nat.exists_eq_add_of_le (Nat.not_lt.mp hle)
    rw [upTo_add, getS3Object_append hover] at hk
    exact hover hk
  have hanswers : AnsweredFrom .upstream (cstr ['f']) [1, 2] brokenOffAnswers := by
    intro k hk
    match k, hpending k hk with
    | 0, _ => exact ⟨servedFrom_brokenOff.1, trivial⟩
    | 1, _ => exact servedFrom_brokenOff
  obtain ⟨calls, -, hasks, hends, hreturns⟩ := download_ends hanswers
  have hcalls : calls = 2 := by
    have hone : (getS3Object .upstream (cstr ['f']) (upTo brokenOffAnswers 1)).out = .pending := by
      decide +kernel
    have hgt : 1 < calls := by
      by_contra hle
      exact (hends 1 (Nat.not_lt.mp hle)).1 hone
    have hle : calls ≤ 2 := by
      by_contra hgt
      exact hover (hasks 2 (Nat.not_le.mp hgt)).1
    omega
  subst hcalls
  refine ⟨hanswers, (hreturns fun k hk len => ?_).2⟩
  match k, hk with
  | 0, _ => exact fun _ => Nat.succ_ne_zero 1
  | 1, _ => exact fun _ => Nat.succ_ne_zero 1

end Estuary
