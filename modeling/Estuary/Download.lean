import Estuary.Report
import Estuary.Engine.Loop

/-!
# Estuary — the download loop (`get_s3_object`)

The loop asks for one 16 MiB range after the other and asks again for a range that failed, until
a response is shorter than a range or the store answers that the range lies behind the end. What
a response does depends on three things: the content length in force when its data arrives, the
pieces the destination file accepted, and the status.

* **`getPieces_out`**, **`s3GetObject_out`** — one response, by what it announces and delivers;
* **`getLoop_eq`** — the loop, as a body that is `answered`;
* **`getStep_round`** — the five ways from one request to the next, or out of the loop;
* **`getLoop_returns_iff`** — the loop returns exactly when every request it makes is answered,
  and none with data while the content length in force is 0.
-/

namespace Estuary

open Engine

/-! ## One response -/

/-- The destination file took the whole piece. -/
def Piece.accepted (piece : Piece) : Bool :=
  match sysWrite piece.buffer piece.fault with
  | none => false
  | some wrote => !decide (wrote.length < piece.buffer.length)

/-- The content length in force for the data of a response, `len` being the previous one. -/
def announced (len : Nat) (attempt : GetAttempt) : Nat :=
  match attempt.properties with
  | some properties => properties.contentLength
  | none => len

/-- The status a request ends with: a piece the file refused aborts it. -/
def GetAttempt.outcome (lib : LibS3) (attempt : GetAttempt) : Nat :=
  if attempt.pieces.all Piece.accepted then attempt.status else lib.abortedByCallback

theorem getPieces_out {len : Nat} {pieces : List Piece} (hlen : pieces ≠ [] → len ≠ 0)
    (pos : Nat) : (getPieces len pieces pos).out = .done (pieces.all Piece.accepted) := by
  induction pieces generalizing pos with
  | nil => rfl
  | cons piece pieces ih =>
    have hne : len ≠ 0 := hlen (List.cons_ne_nil _ _)
    rw [getPieces, if_neg hne, List.all_cons]
    cases hw : sysWrite piece.buffer piece.fault with
    | none =>
      have hacc : piece.accepted = false := by simp only [Piece.accepted, hw]
      rw [hacc, Bool.false_and]
      rfl
    | some wrote =>
      by_cases hshort : wrote.length < piece.buffer.length
      · have hacc : piece.accepted = false := by simp [Piece.accepted, hw, hshort]
        rw [hacc, Bool.false_and]
        simp only [Exec.emit_bind, hshort, if_true, Exec.pure_out]
      · have hacc : piece.accepted = true := by simp [Piece.accepted, hw, hshort]
        rw [hacc, Bool.true_and]
        simp only [Exec.emit_bind, hshort, if_false]
        exact ih (fun _ => hne) _

/-- Data without a content length in force ends the process. -/
theorem getPieces_dead {pieces : List Piece} (hne : pieces ≠ []) (pos : Nat) :
    getPieces 0 pieces pos = Exec.die .abortCalled := by
  cases pieces with
  | nil => exact absurd rfl hne
  | cons piece pieces => rw [getPieces, if_pos rfl]

/-- The response does not deliver data while the content length in force is 0. -/
def Announces (len : Nat) (attempt : GetAttempt) : Prop :=
  attempt.pieces ≠ [] → announced len attempt ≠ 0

section OneRequest

variable {lib : LibS3} {name : CString} {startByte byteCount : Nat} {attempt : GetAttempt}
  {data : GetObjectCallbackData}

theorem getProperties_contentLength :
    (getProperties data attempt.properties).contentLength
      = announced data.contentLength attempt := by
  unfold announced
  cases attempt.properties <;> rfl

theorem getProperties_totalLength :
    (getProperties data attempt.properties).totalLength = data.totalLength := by
  cases attempt.properties <;> rfl

theorem s3GetObject_out (h : Announces data.contentLength attempt) :
    ∃ data', (s3GetObject lib name startByte byteCount attempt data).out = .done data'
      ∧ data'.contentLength = announced data.contentLength attempt
      ∧ data'.totalLength = data.totalLength
      ∧ data'.status = attempt.outcome lib := by
  have hpieces := getPieces_out
    (show attempt.pieces ≠ [] → (getProperties data attempt.properties).contentLength ≠ 0 from
      getProperties_contentLength ▸ h) startByte
  exact ⟨{ getProperties data attempt.properties with status := attempt.outcome lib },
    Exec.bind_out_of_done hpieces _, getProperties_contentLength, getProperties_totalLength, rfl⟩

theorem s3GetObject_dead (h : ¬ Announces data.contentLength attempt) :
    s3GetObject lib name startByte byteCount attempt data = Exec.die .abortCalled := by
  obtain ⟨hne, hzero⟩ : attempt.pieces ≠ [] ∧ announced data.contentLength attempt = 0 := by
    simpa [Announces] using h
  rw [s3GetObject]
  simp only [getProperties_contentLength, hzero, getPieces_dead hne, Exec.die_bind]

end OneRequest

/-! ## Once round the loop -/

/-- What `get_s3_object` carries from one request to the next. -/
structure GetState where
  startByte : Nat
  retry_count : Int
  data : GetObjectCallbackData
  deriving DecidableEq, Repr

/-- The state of the first request. -/
def GetState.first : GetState := ⟨0, retryCount, ⟨0, 0, 0, []⟩⟩

/-- The body of the `do … while (true)` loop behind the request: the state to ask again in, or the
callback data to leave with. -/
def getNext (lib : LibS3) (s : GetState) (data : GetObjectCallbackData) :
    GetState ⊕ GetObjectCallbackData :=
  if data.status = s3StatusOK then
    let data := { data with totalLength := data.totalLength + data.contentLength }
    if chunkSize ≠ data.contentLength then .inr data
    else .inl ⟨s.startByte + chunkSize, s.retry_count, data⟩
  else if data.status = lib.errorInvalidRange then .inr { data with status := s3StatusOK }
  else if lib.statusIsRetryable data.status then
    if (shouldRetry s.retry_count).1 then .inl ⟨s.startByte, (shouldRetry s.retry_count).2, data⟩
    else .inr data
  else .inr data

/-- The body of the loop. -/
def getStep (lib : LibS3) (name : CString) (attempt : GetAttempt) (s : GetState) :
    Proc (GetState ⊕ GetObjectCallbackData) := do
  let data ← s3GetObject lib name s.startByte chunkSize attempt s.data
  pure (getNext lib s data)

/-- **The loop** goes round with its body. -/
theorem getLoop_eq (lib : LibS3) (name : CString) (attempts : List GetAttempt) (s : GetState) :
    getLoop lib name attempts s.startByte s.retry_count s.data
      = answered (getStep lib name) attempts s := by
  induction attempts generalizing s with
  | nil => rfl
  | cons attempt attempts ih =>
    rw [getLoop, answered, getStep, Exec.bind_assoc]
    refine congrArg _ (funext fun data => ?_)
    rw [Exec.pure_bind, getNext]
    by_cases hok : data.status = s3StatusOK
    · simp only [hok, if_true]
      by_cases hshort : chunkSize ≠ data.contentLength
      · simp only [if_pos hshort]
      · simp only [if_neg hshort]
        exact ih ⟨_, _, _⟩
    simp only [hok, if_false]
    by_cases hrange : data.status = lib.errorInvalidRange
    · simp only [hrange, if_true]
    simp only [hrange, if_false]
    by_cases hretry : lib.statusIsRetryable data.status = true
    · simp only [hretry, if_true]
      by_cases hshould : (shouldRetry s.retry_count).1 = true
      · simp only [hshould, if_true]
        exact ih ⟨s.startByte, (shouldRetry s.retry_count).2, data⟩
      · simp only [hshould, Bool.false_eq_true, if_false]
    · simp only [hretry, Bool.false_eq_true, if_false]

/-- The five ways a request can go: the next range, a last short one, a range behind the end, the
same range again, and no further attempt. -/
inductive GetRound (lib : LibS3) (attempt : GetAttempt) (s : GetState) :
    GetState ⊕ GetObjectCallbackData → Prop where
  | full {data : GetObjectCallbackData} (hok : attempt.outcome lib = s3StatusOK)
      (hfull : announced s.data.contentLength attempt = chunkSize)
      (hlen : data.contentLength = announced s.data.contentLength attempt)
      (htotal : data.totalLength = s.data.totalLength + announced s.data.contentLength attempt) :
      GetRound lib attempt s (.inl ⟨s.startByte + chunkSize, s.retry_count, data⟩)
  | short {data : GetObjectCallbackData} (hok : attempt.outcome lib = s3StatusOK)
      (hshort : announced s.data.contentLength attempt ≠ chunkSize)
      (hlen : data.contentLength = announced s.data.contentLength attempt)
      (htotal : data.totalLength = s.data.totalLength + announced s.data.contentLength attempt) :
      GetRound lib attempt s (.inr data)
  | behind {data : GetObjectCallbackData} (hrange : attempt.outcome lib = lib.errorInvalidRange)
      (hlen : data.contentLength = announced s.data.contentLength attempt)
      (htotal : data.totalLength = s.data.totalLength) : GetRound lib attempt s (.inr data)
  | again {data : GetObjectCallbackData} (hfail : attempt.outcome lib ≠ s3StatusOK)
      (hrange : attempt.outcome lib ≠ lib.errorInvalidRange)
      (hretry : lib.statusIsRetryable (attempt.outcome lib) = true)
      (hshould : (shouldRetry s.retry_count).1 = true)
      (hlen : data.contentLength = announced s.data.contentLength attempt)
      (htotal : data.totalLength = s.data.totalLength) :
      GetRound lib attempt s (.inl ⟨s.startByte, (shouldRetry s.retry_count).2, data⟩)
  | gaveUp {data : GetObjectCallbackData} (hfail : attempt.outcome lib ≠ s3StatusOK)
      (hrange : attempt.outcome lib ≠ lib.errorInvalidRange)
      (hover : ¬ (lib.statusIsRetryable (attempt.outcome lib) = true
        ∧ (shouldRetry s.retry_count).1 = true))
      (hstatus : data.status = attempt.outcome lib) : GetRound lib attempt s (.inr data)

/-- The branches of the body, by the data its request left. -/
theorem getNext_round {lib : LibS3} {attempt : GetAttempt} {s : GetState}
    {data : GetObjectCallbackData}
    (hlen : data.contentLength = announced s.data.contentLength attempt)
    (htotal : data.totalLength = s.data.totalLength)
    (hstatus : data.status = attempt.outcome lib) :
    GetRound lib attempt s (getNext lib s data) := by
  rw [getNext, hstatus]
  by_cases hok : attempt.outcome lib = s3StatusOK
  · rw [if_pos hok]
    by_cases hshort : chunkSize ≠ data.contentLength
    · rw [if_pos hshort]
      exact .short hok (fun h => hshort (hlen.trans h).symm) hlen (by rw [htotal, hlen])
    · rw [if_neg hshort]
      exact .full hok (hlen.symm.trans (not_not.mp hshort).symm) hlen (by rw [htotal, hlen])
  rw [if_neg hok]
  by_cases hrange : attempt.outcome lib = lib.errorInvalidRange
  · rw [if_pos hrange]
    exact .behind hrange hlen htotal
  rw [if_neg hrange]
  by_cases hretry : lib.statusIsRetryable (attempt.outcome lib) = true
  · rw [if_pos hretry]
    by_cases hshould : (shouldRetry s.retry_count).1 = true
    · rw [if_pos hshould]
      exact .again hok hrange hretry hshould hlen htotal
    · rw [if_neg hshould]
      exact .gaveUp hok hrange (fun h => hshould h.2) hstatus
  · rw [if_neg hretry]
    exact .gaveUp hok hrange (fun h => hretry h.1) hstatus

section Body

variable {lib : LibS3} {name : CString} {attempt : GetAttempt} {s : GetState}

theorem getStep_log : (getStep lib name attempt s).log
    = (s3GetObject lib name s.startByte chunkSize attempt s.data).log :=
  Exec.bind_log_of_quiet fun _ => rfl

theorem getStep_dead (h : ¬ Announces s.data.contentLength attempt) :
    getStep lib name attempt s = Exec.die .abortCalled := by
  rw [getStep, s3GetObject_dead h, Exec.die_bind]

/-- **Once round the loop.** -/
theorem getStep_round (h : Announces s.data.contentLength attempt) :
    ∃ next, (getStep lib name attempt s).out = .done next ∧ GetRound lib attempt s next := by
  obtain ⟨data, hout, hlen, htotal, hstatus⟩ :=
    @s3GetObject_out lib name s.startByte chunkSize attempt s.data h
  exact ⟨_, Exec.bind_out_of_done hout _, getNext_round hlen htotal hstatus⟩

/-- The inversion of `getStep`. -/
theorem getStep_cases {next : GetState ⊕ GetObjectCallbackData}
    (h : (getStep lib name attempt s).out = .done next) : GetRound lib attempt s next := by
  by_cases hann : Announces s.data.contentLength attempt
  · obtain ⟨next', hout, hround⟩ := @getStep_round lib name attempt s hann
    cases hout.symm.trans h
    exact hround
  · rw [getStep_dead hann] at h
    cases h

end Body

/-! ## The requests of a download -/

/-- The requests a download makes, each with the content length that was in force before it, and
whether it came to an end within the answers that are there. -/
def requested (lib : LibS3) : List GetAttempt → Int → Nat → List (GetAttempt × Nat) × Bool
  | [], _, _ => ([], false)
  | attempt :: attempts, retry_count, len =>
    let rest :=
      if attempt.outcome lib = s3StatusOK then
        if chunkSize ≠ announced len attempt then ([], true)
        else requested lib attempts retry_count (announced len attempt)
      else if attempt.outcome lib = lib.errorInvalidRange then ([], true)
      else if lib.statusIsRetryable (attempt.outcome lib) then
        if (shouldRetry retry_count).1 then
          requested lib attempts (shouldRetry retry_count).2 (announced len attempt)
        else ([], true)
      else ([], true)
    ((attempt, len) :: rest.1, rest.2)

/-- Every request of a download is answered, and none with data while the content length in force
is 0. -/
def Tolerable (lib : LibS3) (attempts : List GetAttempt) (retry_count : Int) (len : Nat) : Prop :=
  (requested lib attempts retry_count len).2 = true
    ∧ ∀ r ∈ (requested lib attempts retry_count len).1, Announces r.2 r.1

/-- **The loop returns** exactly when its answers are tolerable. -/
theorem getLoop_returns_iff (lib : LibS3) (name : CString) (attempts : List GetAttempt)
    (s : GetState) :
    (answered (getStep lib name) attempts s).Returns
      ↔ Tolerable lib attempts s.retry_count s.data.contentLength := by
  induction attempts generalizing s with
  | nil => simp [answered, Tolerable, requested]
  | cons attempt attempts ih =>
    rw [Tolerable, requested, List.forall_mem_cons]
    -- a response that does not announce its length dies in the assert, whatever follows
    by_cases h : Announces s.data.contentLength attempt
    swap
    · rw [answered, getStep_dead h, Exec.die_bind]
      exact iff_of_false (Exec.not_returns_die _) fun hs => h hs.2.1
    obtain ⟨next, hout, hround⟩ := @getStep_round lib name attempt s h
    cases hround with
    | full hok hfull hlen =>
      rw [answered_again hout]
      simp only [hok, hfull, if_true, ne_eq, not_true, if_false, h, true_and]
      exact (ih _).trans (by rw [hlen, hfull]; rfl)
    | short hok hshort =>
      rw [answered_leave hout]
      simp [hok, hshort.symm, h, Exec.Returns]
    | behind hrange =>
      rw [answered_leave hout]
      simp [hrange, lib.invalidRange_ne_ok, h, Exec.Returns]
    | again hfail hrange hretry hshould hlen =>
      rw [answered_again hout]
      simp only [hfail, hrange, hretry, hshould, if_true, if_false, h, true_and]
      exact (ih _).trans (by rw [hlen]; rfl)
    | gaveUp hfail hrange hover =>
      rw [answered_leave hout]
      by_cases hretry : lib.statusIsRetryable (attempt.outcome lib) = true
      · have hno : ¬ (shouldRetry s.retry_count).1 = true := fun hs => hover ⟨hretry, hs⟩
        simp [hfail, hrange, hretry, if_neg hno, h, Exec.Returns]
      · simp [hfail, hrange, hretry, h, Exec.Returns]

theorem getS3Object_eq (lib : LibS3) (name : CString) (attempts : List GetAttempt) :
    getS3Object lib name attempts = (do
      let data ← answered (getStep lib name) attempts .first
      if data.status ≠ s3StatusOK then pure (-(eio : Int), data) else pure (0, data)) := by
  rw [← getLoop_eq]
  rfl

theorem getS3Object_returns_iff (lib : LibS3) (name : CString) (attempts : List GetAttempt) :
    (getS3Object lib name attempts).Returns ↔ Tolerable lib attempts retryCount 0 := by
  rw [getS3Object_eq, Exec.returns_bind, getLoop_returns_iff]
  exact and_iff_left_of_imp fun _ data _ =>
    Exec.returns_ite (Exec.returns_pure _) (Exec.returns_pure _)

end Estuary
