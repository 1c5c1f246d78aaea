import Estuary.Engine.Patch
import Estuary.Upload

/-!
# Estuary — what a retry offers

Before a retry, the part loop moves the descriptor back to the start of the part, and the put loop
keeps the whole buffer. Neither resets the counters the body callbacks count down: what an earlier
attempt pulled is not offered again, while the request still declares the full length.

As retry loops, both make their attempts in the states that `Retried` names.

* **`pullPut_covers`**, **`pullPart_covers`** — what an attempt offers when it is pulled to the end;
* **`put_replays_iff`**, **`part_replays_iff`** — which is the whole body exactly when no earlier
  attempt pulled a byte;
* **`ctArchiveData_of_putRetry`**, **`ctArchiveDataBig_of_partRetry`** — and `ct_archive_data` and
  `ct_archive_data_big` go through these attempts.
-/

namespace Estuary

open Engine

/-- The bytes of a request body that an entry of the log records. -/
def Event.sent : Event → List UInt8
  | .putObject _ _ body _ _ => body
  | .uploadPart _ _ _ _ body _ _ => body
  | _ => []

/-- The bytes pulled in the attempts of a log. -/
def pulled (log : List Event) : List UInt8 := log.flatMap Event.sent

theorem pulled_append (l l' : List Event) : pulled (l ++ l') = pulled l ++ pulled l' :=
  List.flatMap_append

/-! ## Small files -/

/-- The pulls of an attempt, from any state in which offset and counter fit the buffer. -/
theorem pullPut_spec (pulls : List Nat) {data : PutObjectCallbackData}
    (hfit : data.bufferOffset + data.contentLength = data.buffer.length) :
    (pullPut pulls data).2
        = (data.buffer.drop data.bufferOffset).take (pullPut pulls data).2.length
      ∧ (pullPut pulls data).1.bufferOffset
        = data.bufferOffset + (pullPut pulls data).2.length
      ∧ (pullPut pulls data).1.contentLength + (pullPut pulls data).2.length
        = data.contentLength
      ∧ (pullPut pulls data).1.buffer = data.buffer := by
  induction pulls generalizing data with
  | nil => exact ⟨rfl, rfl, rfl, rfl⟩
  | cons bufferSize pulls ih =>
    rw [pullPut]
    simp only [putObjectdataCallback]
    generalize hsize : (if data.contentLength ≠ 0 then
      if data.contentLength > bufferSize then bufferSize else data.contentLength else 0) = size
    have hle : size ≤ data.contentLength := by
      rw [← hsize]
      split
      · split <;> omega
      · exact Nat.zero_le _
    -- the buffer still has the bytes that are counted as left
    have hpiece : ((data.buffer.drop data.bufferOffset).take size).length = size := by
      rw [List.length_take, List.length_drop]
      omega
    obtain ⟨hbody, hoff, hlen, hbuf⟩ := @ih { data with
      bufferOffset := data.bufferOffset + size
      contentLength := data.contentLength - size } (by simp only; omega)
    simp only at hbody hoff hlen hbuf
    rw [List.length_append, hpiece]
    refine ⟨?_, by omega, by omega, hbuf⟩
    rw [List.take_add, List.drop_drop, ← hbody]

/-- **Pulled to the end**, an attempt offers what lies behind the offset. -/
theorem pullPut_covers {pulls : List Nat} {data : PutObjectCallbackData}
    (hfit : data.bufferOffset + data.contentLength = data.buffer.length)
    (hpos : ∀ n ∈ pulls, 0 < n) (hsum : data.contentLength ≤ pulls.sum) :
    (pullPut pulls data).2 = data.buffer.drop data.bufferOffset := by
  induction pulls generalizing data with
  | nil =>
    rw [List.sum_nil] at hsum
    rw [List.drop_eq_nil_of_le (by omega)]
    rfl
  | cons bufferSize pulls ih =>
    rw [List.sum_cons] at hsum
    rw [pullPut]
    simp only [putObjectdataCallback]
    generalize hsize : (if data.contentLength ≠ 0 then
      if data.contentLength > bufferSize then bufferSize else data.contentLength else 0) = size
    have hmin : size = min bufferSize data.contentLength := by
      rw [← hsize]
      split
      · split <;> omega
      · omega
    rw [@ih { data with
        bufferOffset := data.bufferOffset + size
        contentLength := data.contentLength - size } (by simp only; omega)
      (fun n hn => hpos n (List.mem_cons_of_mem _ hn)) (by simp only; omega)]
    simp only
    rw [← List.drop_drop, List.take_append_drop]

/-- Before every attempt, offset and counter tell what has been pulled so far. -/
structure PutCounts (bytes : List UInt8) (log : List Event) (data : PutObjectCallbackData) :
    Prop where
  buffer : data.buffer = bytes
  offset : data.bufferOffset = (pulled log).length
  left : data.bufferOffset + data.contentLength = bytes.length

theorem PutCounts.next {bytes : List UInt8} {log : List Event} {data data' : PutObjectCallbackData}
    {name : CString} {length : Nat} {attempt : PutAttempt} (h : PutCounts bytes log data)
    (hround : (s3PutObject name length attempt data).out = .done data') :
    PutCounts bytes (log ++ (s3PutObject name length attempt data).log) data' := by
  have hlog : pulled (s3PutObject name length attempt data).log
      = (pullPut attempt.pulls data).2 := by
    simp [s3PutObject, pulled, Event.sent]
  obtain ⟨-, hoff, hlen, hbuf⟩ := @pullPut_spec attempt.pulls data (h.buffer ▸ h.left)
  cases hround
  refine ⟨hbuf.trans h.buffer, ?_, ?_⟩
  · rw [pulled_append, List.length_append, hlog, ← h.offset]
    exact hoff
  · have hleft := h.left
    simp only
    omega

section Put

variable {lib : LibS3} {env : ArchiveDataEnv} {name : CString} {content : List UInt8} {stSize : Nat}
  {hai : HsmActionItem} {bytes : List UInt8} {log : List Event} {j : Nat}
  {data : PutObjectCallbackData}

/-- `ct_archive_data` has read `bytes` and makes its put attempt `j` in the state `data`; the
attempts before it have logged `log`. -/
structure PutRetry (lib : LibS3) (env : ArchiveDataEnv) (name : CString) (content : List UInt8)
    (stSize : Nat) (hai : HsmActionItem) (bytes : List UInt8) (log : List Event) (j : Nat)
    (data : PutObjectCallbackData) : Prop where
  striped : env.stripeErr = 0
  allocated : env.dbuf = true
  read : sysRead content 0 (extentLength stSize hai) env.readFault = some bytes
  whole : bytes.length = extentLength stSize hai
  retried : Retried (fun i => s3PutObject name (extentLength stSize hai) (env.puts i))
    (putAgain lib) 0
    { PutObjectCallbackData.zero with
      buffer := bytes
      contentLength := extentLength stSize hai } log j data
  budget : j ≤ retryCount

theorem PutRetry.counts (h : PutRetry lib env name content stSize hai bytes log j data) :
    PutCounts bytes log data := by
  refine h.retried.invariant (I := fun _ => PutCounts bytes) (k := [])
    (fun i l s t hs hround _ => hs.next hround) ⟨rfl, rfl, ?_⟩
  exact (Nat.zero_add _).trans h.whole.symm

/-- The put loop from attempt `j` on, and how its end is judged. -/
def putFrom (lib : LibS3) (env : ArchiveDataEnv) (name : CString) (length j : Nat)
    (data : PutObjectCallbackData) : Proc Int := do
  let data ← putLoop lib name length env.puts (retryCount - j) j data
  if data.status ≠ s3StatusOK then pure (-(eio : Int)) else pure 0

theorem ctArchiveData_of_read (hstripe : env.stripeErr = 0) (hdbuf : env.dbuf = true)
    (hread : sysRead content 0 (extentLength stSize hai) env.readFault = some bytes)
    (hwhole : bytes.length = extentLength stSize hai) :
    ctArchiveData lib env name content stSize hai = (do
      let _ ← llapiHsmActionProgressEx 0 0 (extentLength stSize hai) env.progressRcs
      putFrom lib env name (extentLength stSize hai) 0
        { PutObjectCallbackData.zero with
          buffer := bytes
          contentLength := extentLength stSize hai }) := by
  unfold ctArchiveData
  rw [if_neg (not_not_intro hstripe)]
  unfold extentLength at hread hwhole ⊢
  simp only [hdbuf, hread, hwhole, ne_eq, not_true, Bool.true_eq_false, if_false]
  rfl

/-- `ct_archive_data` goes through these states: from each of them it goes on with the put loop,
attempt `j` being the next one. -/
theorem ctArchiveData_of_putRetry
    (h : PutRetry lib env name content stSize hai bytes log j data) :
    ∃ before, ctArchiveData lib env name content stSize hai
      = ⟨before ++ (log ++ (putFrom lib env name (extentLength stSize hai) j data).log),
        (putFrom lib env name (extentLength stSize hai) j data).out⟩ := by
  have hout : (llapiHsmActionProgressEx 0 0 (extentLength stSize hai) env.progressRcs).out
      = .done _ := msgResend_out _ _ _ _ _
  have hloop := retryLoop_of_retried h.retried (show j ≤ 0 + retryCount by simpa using h.budget)
  rw [Nat.zero_add, ← putLoop_eq_retryLoop, ← putLoop_eq_retryLoop] at hloop
  refine ⟨(llapiHsmActionProgressEx 0 0 (extentLength stSize hai) env.progressRcs).log, ?_⟩
  rw [ctArchiveData_of_read h.striped h.allocated h.read h.whole, Exec.bind_of_done hout]
  unfold putFrom
  rw [Nat.sub_zero, hloop, Exec.prepend_bind]

/-- Pulled to the end, the attempt offers the whole buffer from its beginning. -/
def OffersBuffer (bytes : List UInt8) (data : PutObjectCallbackData) : Prop :=
  ∀ pulls : List Nat, (∀ n ∈ pulls, 0 < n) → data.contentLength ≤ pulls.sum →
    (pullPut pulls data).2 = bytes

theorem PutCounts.offersBuffer_iff (h : PutCounts bytes log data) :
    OffersBuffer bytes data ↔ pulled log = [] := by
  have hfit : data.bufferOffset + data.contentLength = data.buffer.length := h.buffer ▸ h.left
  have hleft := h.left
  constructor
  · intro hoffers
    -- one pull of everything that is left, or none if nothing is
    have hall : (pullPut [data.contentLength + 1] data).2 = bytes :=
      hoffers _ (by simp) (by simp)
    rw [pullPut_covers hfit (by simp) (by simp), h.buffer] at hall
    have hlen := congrArg List.length hall
    rw [List.length_drop, h.offset] at hlen
    rw [h.offset] at hleft
    exact List.length_eq_zero_iff.mp (by omega)
  · intro hnone pulls hpos hsum
    rw [pullPut_covers hfit hpos hsum, h.buffer, h.offset, hnone]
    rfl

end Put

/-- **Which put retries replay the body.** -/
theorem put_replays_iff {lib : LibS3} {env : ArchiveDataEnv} {name : CString}
    {content : List UInt8} {stSize : Nat} {hai : HsmActionItem} {bytes : List UInt8}
    {log : List Event} {j : Nat} {data : PutObjectCallbackData}
    (h : PutRetry lib env name content stSize hai bytes log j data) :
    OffersBuffer bytes data ↔ pulled log = [] :=
  h.counts.offersBuffer_iff

/-- The first put attempt of a two-byte file fails with an internal error after one byte. -/
def ArchiveDataEnv.interrupted : ArchiveDataEnv :=
  { ArchiveDataEnv.smooth [1, 2] with
    puts := fun _ => ⟨[1], LibS3.upstream.errorInternalError, false⟩ }

/-- The state of the second attempt: offset and counter stand behind the first byte. -/
def PutObjectCallbackData.interrupted : PutObjectCallbackData :=
  { PutObjectCallbackData.zero with
    bufferOffset := 1
    status := 65
    buffer := [1, 2]
    contentLength := 1 }

theorem putRetry_interrupted :
    PutRetry .upstream .interrupted (cstr ['f']) [1, 2] 2 ⟨.archive, ⟨1, 2, 0⟩, .whole⟩ [1, 2]
      [.putObject (cstr ['f']) 2 [1] 65 false] 1 .interrupted := by
  have hlen : extentLength 2 ⟨.archive, ⟨1, 2, 0⟩, .whole⟩ = 2 := by decide +kernel
  refine ⟨rfl, rfl, by rw [hlen]; rfl, by rw [hlen]; rfl, ?_, by decide⟩
  rw [hlen]
  exact .step rfl rfl (.refl _ _)

theorem put_replays_after_one_byte :
    OffersBuffer [1, 2] .interrupted ↔ pulled [.putObject (cstr ['f']) 2 [1] 65 false] = [] :=
  put_replays_iff putRetry_interrupted

/-- The retry declares two bytes and offers one. -/
theorem put_retry_offers_rest :
    PutRetry .upstream .interrupted (cstr ['f']) [1, 2] 2 ⟨.archive, ⟨1, 2, 0⟩, .whole⟩ [1, 2]
        [.putObject (cstr ['f']) 2 [1] 65 false] 1 .interrupted
      ∧ ¬ OffersBuffer [1, 2] .interrupted := by
  refine ⟨putRetry_interrupted, fun h => ?_⟩
  exact absurd (h [2] (by decide) (by decide)) (by decide)

/-! ## Parts -/

/-- Pulls that take `n` bytes: no buffer is empty, no read fails. -/
structure Covers (pulls : List Pull) (n : Nat) : Prop where
  sound : ∀ p ∈ pulls, 0 < p.bufferSize ∧ p.fault = .none
  enough : n ≤ (pulls.map Pull.bufferSize).sum

/-- **Pulled to the end**, an attempt offers the file from the seek position on, as far as the
counter goes. -/
theorem pullPart_covers {content : List UInt8} {pulls : List Pull} {data : PutObjectCallbackData}
    {pos : Nat} (hfd : data.fd ≠ 0) (hroom : pos + data.contentLength ≤ content.length)
    (h : Covers pulls data.contentLength) :
    ∃ data' pos', pullPart content pulls data pos
      = pure (data', pos', (content.drop pos).take data.contentLength) := by
  induction pulls generalizing data pos with
  | nil =>
    have hzero : data.contentLength = 0 := by simpa using h.enough
    rw [hzero]
    exact ⟨data, pos, rfl⟩
  | cons pull pulls ih =>
    rw [pullPart, multipartPutObjectdataCallback]
    by_cases hzero : data.contentLength = 0
    · simp only [hzero, ne_eq, not_true, if_false, Exec.pure_bind]
      exact ⟨data, pos, rfl⟩
    obtain ⟨hpos, hfault⟩ := h.sound pull (List.mem_cons_self ..)
    have henough := h.enough
    rw [List.map_cons, List.sum_cons] at henough
    simp only [hzero, hfd, ne_eq, not_false_iff, if_true, hfault, sysRead]
    have hmin : (if data.contentLength > pull.bufferSize then pull.bufferSize
        else data.contentLength) = min pull.bufferSize data.contentLength := by
      split <;> omega
    rw [hmin]
    generalize htoRead : min pull.bufferSize data.contentLength = toRead
    have hlen : ((content.drop pos).take toRead).length = toRead := by
      rw [List.length_take, List.length_drop]
      omega
    -- the file has the bytes, so the read is neither short nor empty
    have hne : ((content.drop pos).take toRead).isEmpty = false := by
      rw [← Bool.not_eq_true, List.isEmpty_iff]
      intro heq
      rw [heq, List.length_nil] at hlen
      omega
    rw [hlen]
    simp only [not_true, if_false, Exec.pure_bind, hne, Bool.false_eq_true]
    obtain ⟨data', pos', hrest⟩ := @ih { data with
      contentLength := data.contentLength - toRead
      totalContentLength := data.totalContentLength - toRead } (pos + toRead) hfd
      (by simp only; omega)
      ⟨fun p hp => h.sound p (List.mem_cons_of_mem _ hp), by simp only; omega⟩
    refine ⟨data', pos', ?_⟩
    rw [hrest, Exec.pure_bind, ← List.drop_drop, ← List.take_add,
      show toRead + (data.contentLength - toRead) = data.contentLength from by omega]

/-- The state with which the loop over the parts enters a part, `left` bytes of the file being left
before it. -/
def partStart (fd : Int) (stSize chunk left : Nat) (manager : UploadManager)
    (lastReportTime : Nat) : PartState :=
  ⟨{ PutObjectCallbackData.zero with
      fd := fd
      contentLength := sizeT (cInt (if left > chunk then chunk else left))
      originalContentLength := sizeT (cInt (if left > chunk then chunk else left))
      totalContentLength := left
      totalOriginalContentLength := stSize },
    manager, lastReportTime⟩

theorem partStart_contentLength (fd : Int) (stSize : Nat) {chunk : Nat} (hmax : chunk ≤ 2 ^ 30)
    (left : Nat) (manager : UploadManager) (lastReportTime : Nat) :
    (partStart fd stSize chunk left manager lastReportTime).data.contentLength
      = min chunk left := by
  rw [← partLength_eq hmax left, partStart]

/-- Before every attempt the counter tells what has been pulled so far; from descriptor 0 nothing
is pulled. -/
structure PartCounts (fd : Int) (partLength : Nat) (log : List Event) (st : PartState) : Prop where
  source : st.data.fd = fd
  left : st.data.contentLength + (pulled log).length = partLength
  zero : fd = 0 → pulled log = []

/-- The first attempt of a part starts with everything still to be pulled. -/
theorem partCounts_start (fd : Int) (stSize : Nat) {chunk : Nat} (hmax : chunk ≤ 2 ^ 30)
    (left : Nat) (manager : UploadManager) (lastReportTime : Nat) :
    PartCounts fd (min chunk left) [] (partStart fd stSize chunk left manager lastReportTime) := by
  refine ⟨rfl, ?_, fun _ => rfl⟩
  rw [partStart_contentLength _ _ hmax]
  rfl

theorem pulled_progress {log : List Event} (h : ∀ e ∈ log, e.isProgress) : pulled log = [] := by
  refine List.flatMap_eq_nil_iff.mpr fun e he => ?_
  have hprogress := h e he
  cases e with
  | actionProgress => rfl
  | _ => cases hprogress

section Part

variable {cfg : Config} {lib : LibS3} {name uploadId : CString} {content : List UInt8}
  {etagsAllocated : Bool} {length chunk seq : Nat} {partContentLength : Int}
  {attempt : PartAttempt} {fd : Int} {partLength : Nat} {log : List Event} {st st' : PartState}

/-- An attempt from a counted state that returned is tame. -/
theorem PartCounts.tame (h : PartCounts fd partLength log st) (hpos : 0 < partLength)
    (hround : (partRound cfg lib name uploadId content etagsAllocated length chunk seq
      partContentLength attempt st).out = .done st') : Tame fd etagsAllocated attempt := by
  by_contra htame
  refine partRound_dead h.source (fun hzero => ?_) htame (Exec.returns_of_done hround)
  have hleft := h.left
  rw [h.zero hzero, List.length_nil] at hleft
  omega

theorem PartCounts.next (h : PartCounts fd partLength log st) (hpos : 0 < partLength)
    (hround : (partRound cfg lib name uploadId content etagsAllocated length chunk seq
      partContentLength attempt st).out = .done st') :
    PartCounts fd partLength (log ++ (partRound cfg lib name uploadId content etagsAllocated length
      chunk seq partContentLength attempt st).log) st' := by
  obtain ⟨st'', body, reports, heq, hreports, -, hlen, hfd, hzero, -, -⟩ :=
    @partRound_done cfg lib name uploadId content etagsAllocated length chunk seq
      partContentLength attempt st fd (decide (st.manager.nextEtagsPos = seq)) h.source
      (h.tame hpos hround) (by simp)
  rw [heq] at hround ⊢
  cases hround
  have hsent : pulled (log ++ .uploadPart name uploadId seq (sizeT partContentLength) body
      attempt.status attempt.stored :: reports) = pulled log ++ body := by
    rw [pulled_append]
    show pulled log ++ (body ++ pulled reports) = _
    rw [pulled_progress hreports, List.append_nil]
  have hleft := h.left
  refine ⟨hfd, ?_, fun hz => ?_⟩
  · rw [hsent, List.length_append]
    omega
  · rw [hsent, h.zero hz, hzero hz]
    rfl

/-- Pulled to the end, the attempt offers the whole part. -/
def OffersPart (content : List UInt8) (chunk seq : Nat) (st : PartState) : Prop :=
  ∀ pulls, Covers pulls st.data.contentLength →
    ∃ data' pos', (pullPart content pulls { st.data with status := 0 } ((seq - 1) * chunk)).out
      = .done (data', pos', slice content chunk (seq - 1))

theorem PartCounts.offersPart_iff (h : PartCounts fd partLength log st) (hpos : 0 < partLength)
    (hpart : partLength = min chunk (content.length - (seq - 1) * chunk)) :
    OffersPart content chunk seq st ↔ fd ≠ 0 ∧ pulled log = [] := by
  have hleft := h.left
  have hroom : (seq - 1) * chunk + st.data.contentLength ≤ content.length := by omega
  -- one pull with room for everything will do as the test
  have hone : Covers [⟨st.data.contentLength + 1, .none⟩] st.data.contentLength :=
    ⟨by simp, by simp⟩
  by_cases hzero : fd = 0
  · -- the first pull aborts
    refine iff_of_false (fun hoffers => ?_) fun hcond => hcond.1 hzero
    obtain ⟨data', pos', hout⟩ := hoffers _ hone
    have hne : st.data.contentLength ≠ 0 := by
      rw [h.zero hzero, List.length_nil] at hleft
      omega
    rw [@pullPart_zero { st.data with status := 0 } content _ ((seq - 1) * chunk)
      (h.source.trans hzero) hne (List.cons_ne_nil _ _)] at hout
    cases hout
  have hoffer : ∀ pulls, Covers pulls st.data.contentLength → ∃ data' pos',
      (pullPart content pulls { st.data with status := 0 } ((seq - 1) * chunk)).out
        = .done (data', pos', (content.drop ((seq - 1) * chunk)).take st.data.contentLength) := by
    intro pulls hcovers
    obtain ⟨data', pos', heq⟩ := @pullPart_covers content pulls { st.data with status := 0 }
      ((seq - 1) * chunk) (fun hfd => hzero (h.source.symm.trans hfd)) hroom hcovers
    exact ⟨data', pos', by rw [heq]; rfl⟩
  refine ⟨fun hoffers => ⟨hzero, ?_⟩, ?_⟩
  · obtain ⟨data', pos', hout⟩ := hoffers _ hone
    obtain ⟨data'', pos'', hout'⟩ := hoffer _ hone
    rw [hout'] at hout
    simp only [Outcome.done.injEq, Prod.mk.injEq] at hout
    -- what is offered is the whole part, so nothing can have been pulled before
    have hlen := congrArg List.length hout.2.2
    rw [slice_length, List.length_take, List.length_drop] at hlen
    exact List.length_eq_zero_iff.mp (by omega)
  · rintro ⟨-, hnone⟩ pulls hcovers
    obtain ⟨data', pos', hout⟩ := hoffer pulls hcovers
    refine ⟨data', pos', ?_⟩
    rw [hnone, List.length_nil, Nat.add_zero] at hleft
    rw [hout, hleft, hpart, ← slice_eq_take]

end Part

/-- Attempt `i` at part `seq` of the file. -/
def partAttempt (cfg : Config) (lib : LibS3) (env : ArchiveDataBigEnv) (name uploadId : CString)
    (content : List UInt8) (hai : HsmActionItem) (chunk seq i : Nat) : PartState → Proc PartState :=
  partRound cfg lib name uploadId content env.etagsAllocated (extentLength content.length hai) chunk
    seq (cInt (if content.length - (seq - 1) * chunk > chunk then chunk
      else content.length - (seq - 1) * chunk)) (env.parts seq i)

/-- `ct_archive_data_big` makes attempt `j` at part `seq` of the file in the state `st`; the attempts
at the part before it have logged `log`. -/
structure PartRetry (cfg : Config) (lib : LibS3) (env : ArchiveDataBigEnv) (name uploadId : CString)
    (content : List UInt8) (fd : Int) (hai : HsmActionItem) (chunk totalSeq seq : Nat)
    (manager : UploadManager) (lastReportTime : Nat) (log : List Event) (j : Nat)
    (st : PartState) : Prop where
  small : content.length ≤ maxFileSize
  plan : ctGetChunksize content.length = some (chunk, totalSeq)
  first : 1 ≤ seq
  last : seq ≤ totalSeq
  retried : Retried (partAttempt cfg lib env name uploadId content hai chunk seq) (partAgain lib) 0
    (partStart fd content.length chunk (content.length - (seq - 1) * chunk) manager
      lastReportTime) log j st
  budget : j ≤ retryCount

/-- The loop over the parts enters each part with `partStart`, and the next one with what is left
behind it. -/
theorem partsLoop_succ (cfg : Config) (lib : LibS3) (name uploadId : CString)
    (content : List UInt8) (etagsAllocated : Bool) (fd : Int) (stSize length : Nat) {chunk : Nat}
    (hmax : chunk ≤ 2 ^ 30) (parts : Nat → Nat → PartAttempt) (rounds : Nat) {seq : Nat}
    (hseq : 1 ≤ seq) (manager : UploadManager) (lastReportTime : Nat) :
    partsLoop cfg lib name uploadId content etagsAllocated fd stSize length chunk parts (rounds + 1)
        seq (content.length - (seq - 1) * chunk) manager lastReportTime
      = (do
        let st ← partLoop cfg lib name uploadId content etagsAllocated length chunk seq
          (cInt (if content.length - (seq - 1) * chunk > chunk then chunk
            else content.length - (seq - 1) * chunk)) (parts seq) retryCount 0
          (partStart fd stSize chunk (content.length - (seq - 1) * chunk) manager lastReportTime)
        if st.data.status ≠ s3StatusOK then pure none
        else
          partsLoop cfg lib name uploadId content etagsAllocated fd stSize length chunk parts rounds
            (seq + 1) (content.length - (seq + 1 - 1) * chunk) st.manager st.lastReportTime) := by
  have hnext : content.length - (seq - 1) * chunk - min chunk (content.length - (seq - 1) * chunk)
      = content.length - (seq + 1 - 1) * chunk := by
    rw [show seq + 1 - 1 = seq - 1 + 1 from by omega, Nat.succ_mul]
    omega
  rw [← hnext, ← partLength_eq hmax (content.length - (seq - 1) * chunk)]
  rfl

section PartRetry

variable {cfg : Config} {lib : LibS3} {env : ArchiveDataBigEnv} {name uploadId : CString}
  {content : List UInt8} {fd : Int} {hai : HsmActionItem} {chunk totalSeq seq : Nat}
  {manager : UploadManager} {lastReportTime : Nat} {log : List Event} {j : Nat} {st : PartState}

/-- Every part of the plan has a byte. -/
theorem part_pos (hsize : content.length ≤ maxFileSize)
    (hplan : ctGetChunksize content.length = some (chunk, totalSeq)) (hfirst : 1 ≤ seq)
    (hlast : seq ≤ totalSeq) :
    0 < chunk ∧ chunk ≤ 2 ^ 30 ∧ (seq - 1) * chunk < content.length := by
  have hpos : 0 < content.length := by
    by_contra hzero
    have hnone : ctGetChunksize 0 = some (2 ^ 24, 0) := by decide +kernel
    rw [show content.length = 0 from by omega, hnone] at hplan
    cases hplan
    omega
  obtain ⟨chunk', totalSeq', hplan', hchunk, hmax, -, hcover, -⟩ := ctGetChunksize_spec hpos hsize
  rw [hplan] at hplan'
  cases hplan'
  have hmono : (seq - 1) * chunk ≤ (totalSeq - 1) * chunk := Nat.mul_le_mul_right _ (by omega)
  exact ⟨hchunk, hmax, by omega⟩

/-- The attempts at part `seq`, from attempt `j` on. -/
def partFrom (cfg : Config) (lib : LibS3) (env : ArchiveDataBigEnv) (name uploadId : CString)
    (content : List UInt8) (hai : HsmActionItem) (chunk seq j : Nat) : PartState → Proc PartState :=
  partLoop cfg lib name uploadId content env.etagsAllocated (extentLength content.length hai) chunk
    seq (cInt (if content.length - (seq - 1) * chunk > chunk then chunk
      else content.length - (seq - 1) * chunk)) (env.parts seq) (retryCount - j) j

/-- The loop over the parts enters part `seq` with this manager and this time of the last report; the
parts before it went through, and have logged `log`. -/
inductive PartsEntered (cfg : Config) (lib : LibS3) (env : ArchiveDataBigEnv)
    (name uploadId : CString) (content : List UInt8) (fd : Int) (hai : HsmActionItem) (chunk : Nat) :
    Nat → UploadManager → Nat → List Event → Prop
  | first : PartsEntered cfg lib env name uploadId content fd hai chunk 1
      ⟨some uploadId, fun _ => none, 0, [], 0⟩ env.tStart []
  | next {seq : Nat} {manager : UploadManager} {lastReportTime : Nat} {log : List Event}
      {st : PartState}
      (before : PartsEntered cfg lib env name uploadId content fd hai chunk seq manager
        lastReportTime log)
      (hsent : (partFrom cfg lib env name uploadId content hai chunk seq 0
        (partStart fd content.length chunk (content.length - (seq - 1) * chunk) manager
          lastReportTime)).out = .done st)
      (hok : st.data.status = s3StatusOK) :
      PartsEntered cfg lib env name uploadId content fd hai chunk (seq + 1) st.manager
        st.lastReportTime
        (log ++ (partFrom cfg lib env name uploadId content hai chunk seq 0
          (partStart fd content.length chunk (content.length - (seq - 1) * chunk) manager
            lastReportTime)).log)

/-- What `ct_archive_data_big` does with the manager the loop over the parts leaves. -/
def concludeUpload (lib : LibS3) (env : ArchiveDataBigEnv) (name uploadId : CString)
    (totalSeq : Nat) : Option UploadManager → Proc Int
  | none => pure (-(eio : Int))
  | some manager => commitPhase lib env name uploadId totalSeq manager

/-- `ct_archive_data_big` from attempt `j` at part `seq` on. -/
def archiveFrom (cfg : Config) (lib : LibS3) (env : ArchiveDataBigEnv) (name uploadId : CString)
    (content : List UInt8) (fd : Int) (hai : HsmActionItem) (chunk totalSeq seq j : Nat)
    (st : PartState) : Proc Int := do
  let st ← partFrom cfg lib env name uploadId content hai chunk seq j st
  let manager ← (if st.data.status ≠ s3StatusOK then pure none
    else
      partsLoop cfg lib name uploadId content env.etagsAllocated fd content.length
        (extentLength content.length hai) chunk env.parts (totalSeq - seq) (seq + 1)
        (content.length - (seq + 1 - 1) * chunk) st.manager st.lastReportTime)
  concludeUpload lib env name uploadId totalSeq manager

/-- The loop over the parts gets to every part that is entered. -/
theorem partsLoop_of_entered (hmax : chunk ≤ 2 ^ 30) {entered : List Event}
    (h : PartsEntered cfg lib env name uploadId content fd hai chunk seq manager lastReportTime
      entered) :
    1 ≤ seq ∧ ∀ rounds, partsLoop cfg lib name uploadId content env.etagsAllocated fd
        content.length (extentLength content.length hai) chunk env.parts (seq - 1 + rounds) 1
        content.length ⟨some uploadId, fun _ => none, 0, [], 0⟩ env.tStart
      = ⟨entered ++ (partsLoop cfg lib name uploadId content env.etagsAllocated fd content.length
            (extentLength content.length hai) chunk env.parts rounds seq
            (content.length - (seq - 1) * chunk) manager lastReportTime).log,
          (partsLoop cfg lib name uploadId content env.etagsAllocated fd content.length
            (extentLength content.length hai) chunk env.parts rounds seq
            (content.length - (seq - 1) * chunk) manager lastReportTime).out⟩ := by
  induction h with
  | first =>
    refine ⟨Nat.le_refl 1, fun rounds => ?_⟩
    rw [Nat.sub_self, Nat.zero_mul, Nat.sub_zero, Nat.zero_add, List.nil_append]
  | @next seq manager lastReportTime entered st before hsent hok ih =>
    obtain ⟨hseq, ih⟩ := ih
    refine ⟨Nat.le_add_left 1 seq, fun rounds => ?_⟩
    rw [show seq + 1 - 1 + rounds = seq - 1 + (rounds + 1) from by omega, ih,
      partsLoop_succ cfg lib name uploadId content env.etagsAllocated fd _ _ hmax env.parts rounds
        hseq]
    have hsent' := hsent
    rw [partFrom, Nat.sub_zero] at hsent'
    rw [Exec.bind_of_done hsent', if_neg (not_not_intro hok), List.append_assoc]
    rfl

/-- With an upload id, `ct_archive_data_big` is its loop over the parts and what follows it. -/
theorem ctArchiveDataBig_of_initiated (hstripe : env.stripeErr = 0)
    (hplan : ctGetChunksize content.length = some (chunk, totalSeq))
    (hid : (initLoop lib name env.inits retryCount 0).out = .done (some uploadId)) :
    ∃ before, ctArchiveDataBig cfg lib env name content fd content.length hai
      = ⟨before ++ (partsLoop cfg lib name uploadId content env.etagsAllocated fd content.length
            (extentLength content.length hai) chunk env.parts totalSeq 1 content.length
            ⟨some uploadId, fun _ => none, 0, [], 0⟩ env.tStart
          >>= concludeUpload lib env name uploadId totalSeq).log,
        (partsLoop cfg lib name uploadId content env.etagsAllocated fd content.length
            (extentLength content.length hai) chunk env.parts totalSeq 1 content.length
            ⟨some uploadId, fun _ => none, 0, [], 0⟩ env.tStart
          >>= concludeUpload lib env name uploadId totalSeq).out⟩ := by
  have hprogress : (llapiHsmActionProgressEx hai.extent.offset 0 (extentLength content.length hai)
      env.progressRcs).out = .done _ := msgResend_out _ _ _ _ _
  refine ⟨(llapiHsmActionProgressEx hai.extent.offset 0 (extentLength content.length hai)
    env.progressRcs).log ++ (initLoop lib name env.inits retryCount 0).log, ?_⟩
  unfold ctArchiveDataBig uploadPhase
  rw [if_neg (not_not_intro hstripe), hplan]
  show (llapiHsmActionProgressEx _ _ (extentLength content.length hai) _ >>= fun _ =>
    (initLoop lib name env.inits retryCount 0 >>= _) >>= _) = _
  rw [Exec.bind_of_done hprogress, Exec.bind_assoc, Exec.bind_of_done hid]
  simp only [Exec.bind_assoc, Exec.pure_bind, ← List.append_assoc]
  -- what follows the loop is the same, by its result
  have hconclude : ∀ {f g : Option UploadManager → Proc Int} (before : List Event)
      (parts : Proc (Option UploadManager)), (∀ manager, f manager = g manager) →
      (⟨before ++ (parts >>= f).log, (parts >>= f).out⟩ : Proc Int)
        = ⟨before ++ (parts >>= g).log, (parts >>= g).out⟩ := by
    intro f g before parts h
    rw [funext h]
  unfold extentLength
  refine hconclude _ _ fun manager => ?_
  cases manager <;> rfl

/-- `ct_archive_data_big` goes through the states of `PartRetry`: where it enters a part, it goes on
from each of them, attempt `j` being the next one. -/
theorem ctArchiveDataBig_of_partRetry (hstripe : env.stripeErr = 0)
    (hid : (initLoop lib name env.inits retryCount 0).out = .done (some uploadId))
    {entered : List Event}
    (hentered : PartsEntered cfg lib env name uploadId content fd hai chunk seq manager
      lastReportTime entered)
    (h : PartRetry cfg lib env name uploadId content fd hai chunk totalSeq seq manager
      lastReportTime log j st) :
    ∃ before, ctArchiveDataBig cfg lib env name content fd content.length hai
      = ⟨before ++ (entered ++ (log ++ (archiveFrom cfg lib env name uploadId content fd hai chunk
            totalSeq seq j st).log)),
          (archiveFrom cfg lib env name uploadId content fd hai chunk totalSeq seq j st).out⟩ := by
  obtain ⟨-, hmax, -⟩ := part_pos h.small h.plan h.first h.last
  obtain ⟨before, hbig⟩ := @ctArchiveDataBig_of_initiated cfg lib env name uploadId content fd hai
    chunk totalSeq hstripe h.plan hid
  have hrounds : seq - 1 + (totalSeq - seq + 1) = totalSeq := by
    have := h.first
    have := h.last
    omega
  have hloop := (partsLoop_of_entered hmax hentered).2 (totalSeq - seq + 1)
  rw [hrounds, partsLoop_succ cfg lib name uploadId content env.etagsAllocated fd _ _ hmax env.parts
    _ h.first] at hloop
  -- within the part, the loop gets to attempt `j`
  have hpart := retryLoop_of_retried h.retried (show j ≤ 0 + retryCount by simpa using h.budget)
  unfold partAttempt at hpart
  rw [Nat.zero_add, ← partLoop_eq_retryLoop, ← partLoop_eq_retryLoop] at hpart
  rw [hpart, Exec.prepend_bind] at hloop
  refine ⟨before, ?_⟩
  rw [hbig, hloop, Exec.prepend_bind, Exec.prepend_bind, Exec.bind_assoc]
  rfl

theorem PartRetry.counts (h : PartRetry cfg lib env name uploadId content fd hai chunk totalSeq seq
    manager lastReportTime log j st) :
    PartCounts fd (min chunk (content.length - (seq - 1) * chunk)) log st := by
  obtain ⟨hchunk, hmax, hpos⟩ := part_pos h.small h.plan h.first h.last
  refine h.retried.invariant
    (I := fun _ => PartCounts fd (min chunk (content.length - (seq - 1) * chunk))) (k := [])
    (fun i l s t hs hround _ => hs.next (by omega) hround) ?_
  exact partCounts_start fd _ hmax _ manager lastReportTime

theorem PartRetry.offersPart_iff (h : PartRetry cfg lib env name uploadId content fd hai chunk
    totalSeq seq manager lastReportTime log j st) :
    OffersPart content chunk seq st ↔ fd ≠ 0 ∧ pulled log = [] := by
  obtain ⟨hchunk, hmax, hpos⟩ := part_pos h.small h.plan h.first h.last
  exact h.counts.offersPart_iff (by omega) rfl

end PartRetry

/-- **Which part retries replay the part.** -/
theorem part_replays_iff {cfg : Config} {lib : LibS3} {env : ArchiveDataBigEnv}
    {name uploadId : CString} {content : List UInt8} {fd : Int} {hai : HsmActionItem}
    {chunk totalSeq seq : Nat} {manager : UploadManager} {lastReportTime : Nat} {log : List Event}
    {j : Nat} {st : PartState}
    (h : PartRetry cfg lib env name uploadId content fd hai chunk totalSeq seq manager
      lastReportTime log j st) :
    OffersPart content chunk seq st ↔ fd ≠ 0 ∧ pulled log = [] :=
  h.offersPart_iff

/-- One pull of one byte. -/
theorem pullPart_one {content rest : List UInt8} {b : UInt8} {data : PutObjectCallbackData}
    {pos : Nat} (hfd : data.fd ≠ 0) (hlen : 1 < data.contentLength)
    (hbyte : content.drop pos = b :: rest) :
    pullPart content [⟨1, .none⟩] data pos
      = pure ({ data with
          contentLength := data.contentLength - 1
          totalContentLength := data.totalContentLength - 1 }, pos + 1, [b]) := by
  have hne : data.contentLength ≠ 0 := by omega
  rw [pullPart, multipartPutObjectdataCallback, if_pos hne]
  simp only [if_pos hlen, hfd, ne_eq, not_false_iff, if_true, sysRead, hbyte]
  rfl

/-- Every attempt at a part fails with an internal error after one byte. -/
def ArchiveDataBigEnv.interrupted (content : List UInt8) : ArchiveDataBigEnv :=
  { ArchiveDataBigEnv.smooth content with
    parts := fun _ _ => ⟨[⟨1, .none⟩], none, true, LibS3.upstream.errorInternalError, false, 0,
      fun _ => 0, 0⟩ }

/-- What such an attempt does, when it is made in a state in which nothing is recorded. -/
theorem partAttempt_interrupted {content rest : List UInt8} {b : UInt8}
    (hcons : content = b :: rest) (cfg : Config) (name uploadId : CString) (hai : HsmActionItem)
    (chunk i : Nat) {st : PartState} (hfd : st.data.fd ≠ 0) (hleft : 1 < st.data.contentLength)
    (hnext : st.manager.nextEtagsPos = 0) :
    ∃ length st', partAttempt cfg .upstream (.interrupted content) name uploadId content hai chunk 1
        i st = ⟨[.uploadPart name uploadId 1 length [b] 65 false], .done st'⟩
      ∧ partAgain .upstream st' = true := by
  have hbyte : content.drop ((1 - 1) * chunk) = b :: rest := by
    rw [Nat.sub_self, Nat.zero_mul, List.drop_zero, hcons]
  have hpull := @pullPart_one content rest b { st.data with status := 0 } ((1 - 1) * chunk) hfd
    hleft hbyte
  have hparts : (ArchiveDataBigEnv.interrupted content).parts 1 i
      = ⟨[⟨1, .none⟩], none, true, 65, false, 0, fun _ => 0, 0⟩ := rfl
  rw [partAttempt, hparts, partRound, hpull]
  simp only [Exec.pure_bind, partProperties, hnext]
  exact ⟨_, _, rfl, rfl⟩

/-- The second attempt at the first part of a file of 256 MiB. -/
theorem partRetry_interrupted :
    ∃ log st, PartRetry (.setup (cstr ['/', 'l']) (cstr ['/', 'l'])) .upstream
        (.interrupted (List.replicate (2 ^ 28) 0)) (cstr ['f']) (cstr ['i', 'd'])
        (List.replicate (2 ^ 28) 0) 3 ⟨.archive, ⟨1, 2, 0⟩, .whole⟩ (2 ^ 24) 16 1
        ⟨some (cstr ['i', 'd']), fun _ => none, 0, [], 0⟩ 0 log 1 st
      ∧ pulled log ≠ [] := by
  have hlen : (List.replicate (2 ^ 28) 0 : List UInt8).length = 2 ^ 28 := List.length_replicate
  generalize (List.replicate (2 ^ 28) 0 : List UInt8) = content at hlen ⊢
  obtain ⟨b, rest, hcons⟩ := List.exists_cons_of_length_pos (show 0 < content.length by omega)
  have hstart := partStart_contentLength 3 content.length (show 2 ^ 24 ≤ 2 ^ 30 by decide)
    (content.length - (1 - 1) * 2 ^ 24) ⟨some (cstr ['i', 'd']), fun _ => none, 0, [], 0⟩ 0
  have hfd : (3 : Int) ≠ 0 := by decide
  obtain ⟨length, st, hround, hagain⟩ := partAttempt_interrupted hcons
    (.setup (cstr ['/', 'l']) (cstr ['/', 'l'])) (cstr ['f']) (cstr ['i', 'd'])
    ⟨.archive, ⟨1, 2, 0⟩, .whole⟩ (2 ^ 24) 0
    (show (partStart 3 content.length (2 ^ 24) (content.length - (1 - 1) * 2 ^ 24)
      ⟨some (cstr ['i', 'd']), fun _ => none, 0, [], 0⟩ 0).data.fd ≠ 0 from hfd)
    (by rw [hstart, hlen]; decide) rfl
  refine ⟨_, st, ⟨by rw [hlen]; decide +kernel, by rw [hlen]; decide +kernel, Nat.le_refl 1,
    by decide, .one hround hagain, by decide⟩, ?_⟩
  show ([b] : List UInt8) ≠ []
  simp

theorem part_replays_after_one_byte :
    ∃ log st, PartRetry (.setup (cstr ['/', 'l']) (cstr ['/', 'l'])) .upstream
        (.interrupted (List.replicate (2 ^ 28) 0)) (cstr ['f']) (cstr ['i', 'd'])
        (List.replicate (2 ^ 28) 0) 3 ⟨.archive, ⟨1, 2, 0⟩, .whole⟩ (2 ^ 24) 16 1
        ⟨some (cstr ['i', 'd']), fun _ => none, 0, [], 0⟩ 0 log 1 st
      ∧ (OffersPart (List.replicate (2 ^ 28) 0) (2 ^ 24) 1 st ↔ (3 : Int) ≠ 0 ∧ pulled log = []) := by
  obtain ⟨log, st, h, -⟩ := partRetry_interrupted
  exact ⟨log, st, h, part_replays_iff h⟩

/-- The retry declares 16 MiB and offers one byte less. -/
theorem part_retry_offers_rest :
    ∃ log st, PartRetry (.setup (cstr ['/', 'l']) (cstr ['/', 'l'])) .upstream
        (.interrupted (List.replicate (2 ^ 28) 0)) (cstr ['f']) (cstr ['i', 'd'])
        (List.replicate (2 ^ 28) 0) 3 ⟨.archive, ⟨1, 2, 0⟩, .whole⟩ (2 ^ 24) 16 1
        ⟨some (cstr ['i', 'd']), fun _ => none, 0, [], 0⟩ 0 log 1 st
      ∧ ¬ OffersPart (List.replicate (2 ^ 28) 0) (2 ^ 24) 1 st := by
  obtain ⟨log, st, h, hpulled⟩ := partRetry_interrupted
  refine ⟨log, st, h, fun hoffers => ?_⟩
  exact hpulled (h.offersPart_iff.mp hoffers).2

end Estuary
