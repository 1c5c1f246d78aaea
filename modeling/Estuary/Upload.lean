import Estuary.Chunk
import Estuary.Report

/-!
# Estuary — the attempts of a multipart upload

One attempt of a part is a seek, a number of pulls through the body callback, the callback with
the response headers, and a status. `partRound_done` says all an attempt can do when it survives,
`partRound_dead` when it does not; everything about the loops over attempts and parts is derived
from these two.

* **`pullPart_fd`** — whatever the pulls, the body is the file from the seek position on, no
  longer than what the counter still allows;
* **`Tame`** — the attempts the process survives;
* **`partTries`**, **`partsTries`** — which attempts are made, read off the answers alone;
* **`partsLoop_returns_iff`** — the loop over the parts returns exactly when every attempt made is
  tame.
-/

namespace Estuary

open Engine

/-- The length an archive takes an item's extent for: no further than the end of the file. -/
def extentLength (stSize : Nat) (hai : HsmActionItem) : Nat :=
  if hai.extent.length > u64Sub stSize hai.extent.offset then u64Sub stSize hai.extent.offset
  else hai.extent.length

/-! ## The body of an attempt -/

/-- A pull through `multipart_put_objectdata_callback` offers the next bytes of the file. -/
theorem callback_fd {data : PutObjectCallbackData} (content : List UInt8) (pull : Pull)
    (pos : Nat) (hfd : data.fd ≠ 0) :
    ∃ data' pos' piece,
      multipartPutObjectdataCallback content pull data pos = pure (data', pos', piece)
        ∧ piece = (content.drop pos).take piece.length
        ∧ data'.contentLength + piece.length = data.contentLength
        ∧ data'.fd = data.fd
        ∧ (piece ≠ [] → pos' = pos + piece.length) := by
  unfold multipartPutObjectdataCallback
  by_cases hzero : data.contentLength = 0
  · simp only [hzero, ne_eq, not_true, if_false]
    exact ⟨data, pos, [], rfl, rfl, hzero, rfl, fun h => absurd rfl h⟩
  have hread : ∀ n, (if data.contentLength > pull.bufferSize then pull.bufferSize
      else data.contentLength) = n → n ≤ data.contentLength := by
    rintro n rfl
    split <;> omega
  revert hread
  simp only [hzero, hfd, ne_eq, not_false_iff, if_true]
  generalize (if data.contentLength > pull.bufferSize then pull.bufferSize
    else data.contentLength) = toRead
  intro hread
  have hle := hread _ rfl
  cases hsys : sysRead content pos toRead pull.fault with
  | none => exact ⟨data, pos, [], rfl, rfl, rfl, rfl, fun h => absurd rfl h⟩
  | some bytes =>
    by_cases hshort : bytes.length = toRead
    swap
    · simp only [hshort, not_false_iff, if_true]
      exact ⟨data, _, [], rfl, rfl, rfl, rfl, fun h => absurd rfl h⟩
    -- a full read is the file's own bytes, with or without a fault
    have hbytes : bytes = (content.drop pos).take bytes.length := by
      cases hfault : pull.fault with
      | none =>
        rw [hfault] at hsys
        injection hsys with hsys
        rw [hshort, hsys]
      | short k =>
        rw [hfault] at hsys
        injection hsys with hsys
        have hk : toRead ≤ k := by
          have := congrArg List.length hsys
          rw [List.length_take] at this
          omega
        have hfull : ((content.drop pos).take toRead).length ≤ k := by
          rw [List.length_take]
          omega
        rw [hshort, ← hsys, List.take_of_length_le hfull]
      | error =>
        rw [hfault] at hsys
        cases hsys
    simp only [hshort, not_true, if_false]
    exact ⟨_, _, bytes, rfl, hbytes, by simp only; omega, rfl, fun _ => by rw [hshort]⟩

/-- **The body of an attempt**, as far as it is pulled. -/
theorem pullPart_fd {data : PutObjectCallbackData} (content : List UInt8) (pulls : List Pull)
    (pos : Nat) (hfd : data.fd ≠ 0) :
    ∃ data' pos' body, pullPart content pulls data pos = pure (data', pos', body)
      ∧ body = (content.drop pos).take body.length
      ∧ data'.contentLength + body.length = data.contentLength
      ∧ data'.fd = data.fd := by
  induction pulls generalizing data pos with
  | nil => exact ⟨data, pos, [], rfl, rfl, rfl, rfl⟩
  | cons pull pulls ih =>
    obtain ⟨data₁, pos₁, piece, hcall, hpiece, hlen, hfd₁, hpos⟩ :=
      callback_fd content pull pos hfd
    rw [pullPart, hcall, Exec.pure_bind]
    -- an empty piece ends the transfer: libs3 asks no further
    by_cases hempty : piece = []
    · subst hempty
      exact ⟨data₁, pos₁, [], rfl, rfl, hlen, hfd₁⟩
    have hisEmpty : piece.isEmpty = false := by simpa using hempty
    obtain ⟨data₂, pos₂, body, hrest, hbody, hlen₂, hfd₂⟩ := ih pos₁ (hfd₁ ▸ hfd)
    simp only [hisEmpty, Bool.false_eq_true, if_false, hrest, Exec.pure_bind]
    refine ⟨data₂, pos₂, piece ++ body, rfl, ?_, ?_, hfd₂.trans hfd₁⟩
    · rw [List.length_append, List.take_add, ← hpiece, List.drop_drop, ← hpos hempty, ← hbody]
    · rw [List.length_append]
      omega

/-- Without a descriptor the first pull aborts. -/
theorem pullPart_zero {data : PutObjectCallbackData} (content : List UInt8) {pulls : List Pull}
    (pos : Nat) (hfd : data.fd = 0) (hlen : data.contentLength ≠ 0) (hne : pulls ≠ []) :
    pullPart content pulls data pos = Exec.die .abortCalled := by
  cases pulls with
  | nil => exact absurd rfl hne
  | cons pull pulls =>
    rw [pullPart, multipartPutObjectdataCallback, if_pos hlen, if_neg (by simpa using hfd)]
    rfl

/-! ## One attempt -/

/-- The attempts that leave the process alive: the body is not pulled from descriptor 0, and
response headers carry an ETag, for which there is an entry. -/
def Tame (fd : Int) (etagsAllocated : Bool) (attempt : PartAttempt) : Prop :=
  (fd = 0 → attempt.pulls = [])
    ∧ ∀ eTag, attempt.properties = some eTag → eTag ≠ none ∧ etagsAllocated = true

/-- The manager after the response headers of a tame attempt. -/
def recordETag (seq : Nat) (manager : UploadManager) (attempt : PartAttempt) : UploadManager :=
  match attempt.properties with
  | some (some eTag) =>
    { manager with
      etags := Function.update manager.etags (seq - 1) (if attempt.strdup then some eTag else none)
      nextEtagsPos := seq }
  | _ => manager

/-- The status the loop sees: an attempt without recorded ETag counts as timed out. -/
def partStatus (lib : LibS3) (seen : Bool) (attempt : PartAttempt) : Nat :=
  if seen then attempt.status else lib.errorRequestTimeout

theorem partProperties_tame {fd : Int} {etagsAllocated : Bool} {attempt : PartAttempt}
    (h : Tame fd etagsAllocated attempt) (seq : Nat) (manager : UploadManager) :
    partProperties etagsAllocated seq manager attempt
      = pure (recordETag seq manager attempt) := by
  unfold partProperties recordETag
  cases hprop : attempt.properties with
  | none => rfl
  | some eTag =>
    obtain ⟨hne, halloc⟩ := h.2 eTag hprop
    cases eTag with
    | none => exact absurd rfl hne
    | some eTag => simp only [multipartPutPartResponsePropertiesCallback, halloc, if_true]

theorem recordETag_seen {fd : Int} {etagsAllocated : Bool} {attempt : PartAttempt}
    (h : Tame fd etagsAllocated attempt) {seq : Nat} {manager : UploadManager} {seen : Bool}
    (hseen : manager.nextEtagsPos = seq ↔ seen = true) :
    (recordETag seq manager attempt).nextEtagsPos = seq
      ↔ (seen || attempt.properties.isSome) = true := by
  unfold recordETag
  cases hprop : attempt.properties with
  | none => simpa using hseen
  | some eTag =>
    cases eTag with
    | none => exact absurd rfl (h.2 none hprop).1
    | some eTag => simp

/-- An entry of a progress report. -/
def Event.isProgress : Event → Prop
  | .actionProgress _ _ _ _ => True
  | _ => False

theorem progress_logs (offset length total : Nat) (rcs : Nat → Nat) :
    (llapiHsmActionProgressEx offset length total rcs).Logs Event.isProgress := by
  intro e he
  obtain ⟨_, _, _, rfl⟩ := (mem_msgResend_log _ _ _).mp he
  trivial

section Attempt

variable {cfg : Config} {lib : LibS3} {name uploadId : CString} {content : List UInt8}
  {etagsAllocated : Bool} {length chunk seq : Nat} {partContentLength : Int}
  {attempt : PartAttempt} {st : PartState} {fd : Int} {seen : Bool}

/-- **An attempt that survives**: the body it sent, and what it left behind. -/
theorem partRound_done (hfd : st.data.fd = fd) (htame : Tame fd etagsAllocated attempt)
    (hseen : st.manager.nextEtagsPos = seq ↔ seen = true) :
    ∃ st' body reports,
      partRound cfg lib name uploadId content etagsAllocated length chunk seq partContentLength
          attempt st
        = ⟨.uploadPart name uploadId seq (sizeT partContentLength) body attempt.status
            attempt.stored :: reports, .done st'⟩
        ∧ (∀ e ∈ reports, e.isProgress)
        ∧ body = (content.drop ((seq - 1) * chunk)).take body.length
        ∧ st'.data.contentLength + body.length = st.data.contentLength
        ∧ st'.data.fd = fd
        ∧ (fd = 0 → body = [])
        ∧ st'.manager = recordETag seq st.manager attempt
        ∧ st'.data.status = partStatus lib (seen || attempt.properties.isSome) attempt := by
  -- the pulls, with or without a descriptor
  have hpull : ∃ data pos body,
      pullPart content attempt.pulls { st.data with status := 0 } ((seq - 1) * chunk)
          = pure (data, pos, body)
        ∧ body = (content.drop ((seq - 1) * chunk)).take body.length
        ∧ data.contentLength + body.length = st.data.contentLength
        ∧ data.fd = fd ∧ (fd = 0 → body = []) := by
    by_cases hzero : fd = 0
    · rw [htame.1 hzero]
      exact ⟨_, _, [], rfl, rfl, rfl, hfd, fun _ => rfl⟩
    · obtain ⟨data, pos, body, heq, hbody, hlen, hfd'⟩ :=
        @pullPart_fd { st.data with status := 0 } content attempt.pulls ((seq - 1) * chunk)
          (by rw [show ({ st.data with status := 0 } : PutObjectCallbackData).fd = fd from hfd]
              exact hzero)
      exact ⟨data, pos, body, heq, hbody, hlen, hfd'.trans hfd, fun h => absurd h hzero⟩
  obtain ⟨data, pos, body, hpull, hbody, hlen, hfd', hzero⟩ := hpull
  have hrecorded := @recordETag_seen _ _ _ htame _ _ _ hseen
  rw [partRound, hpull, Exec.pure_bind]
  simp only [partProperties_tame htame, Exec.pure_bind]
  generalize recordETag seq st.manager attempt = manager at hrecorded ⊢
  by_cases hpos : manager.nextEtagsPos = seq
  swap
  · have hnot : (seen || attempt.properties.isSome) = false := by
      simpa using fun h => hpos (hrecorded.mpr h)
    simp only [hpos, ne_eq, not_false_iff, if_true, hnot]
    exact ⟨_, body, [], rfl, by simp, hbody, hlen, hfd', hzero, rfl, rfl⟩
  rw [hrecorded.mp hpos]
  simp only [hpos, ne_eq, not_true, if_false]
  by_cases hreport : (attempt.tEnd : Int) - st.lastReportTime ≥ cfg.oReportInt
  · simp only [hreport, if_true]
    have hout : (llapiHsmActionProgressEx ((seq - 1) * chunk) (sizeT partContentLength) length
        attempt.progressRcs).out = .done _ := msgResend_out _ _ _ _ _
    rw [Exec.bind_of_done hout, Exec.emit_bind]
    exact ⟨_, body, _, rfl, fun e he => progress_logs _ _ _ _ e (by simpa using he), hbody, hlen,
      hfd', hzero, rfl, rfl⟩
  · simp only [hreport, if_false]
    exact ⟨_, body, [], rfl, by simp, hbody, hlen, hfd', hzero, rfl, rfl⟩

/-- A surviving attempt leaves a state of which the same can be said. -/
theorem partRound_next (hfd : st.data.fd = fd) (hlen : fd = 0 → st.data.contentLength ≠ 0)
    (htame : Tame fd etagsAllocated attempt)
    (hseen : st.manager.nextEtagsPos = seq ↔ seen = true) :
    ∃ st', (partRound cfg lib name uploadId content etagsAllocated length chunk seq
          partContentLength attempt st).out = .done st'
      ∧ st'.data.fd = fd ∧ (fd = 0 → st'.data.contentLength ≠ 0)
      ∧ (st'.manager.nextEtagsPos = seq ↔ (seen || attempt.properties.isSome) = true)
      ∧ st'.data.status = partStatus lib (seen || attempt.properties.isSome) attempt := by
  obtain ⟨st', body, reports, heq, -, -, hlen', hfd', hzero, hmanager, hstatus⟩ :=
    @partRound_done cfg lib name uploadId content etagsAllocated length chunk seq
      partContentLength attempt st fd seen hfd htame hseen
  refine ⟨st', by rw [heq], hfd', fun h => ?_, ?_, hstatus⟩
  · rw [hzero h, List.length_nil, Nat.add_zero] at hlen'
    rw [hlen']
    exact hlen h
  · rw [hmanager]
    exact recordETag_seen htame hseen

theorem partRound_dead (hfd : st.data.fd = fd) (hlen : fd = 0 → st.data.contentLength ≠ 0)
    (htame : ¬ Tame fd etagsAllocated attempt) :
    ¬ (partRound cfg lib name uploadId content etagsAllocated length chunk seq partContentLength
      attempt st).Returns := by
  rw [partRound, Exec.returns_bind]
  rintro ⟨hpull, hrest⟩
  by_cases hpulls : fd = 0 → attempt.pulls = []
  swap
  · obtain ⟨hzero, hne⟩ : fd = 0 ∧ attempt.pulls ≠ [] := by simpa using hpulls
    have hdead := @pullPart_zero { st.data with status := 0 } content _ ((seq - 1) * chunk)
      (hfd.trans hzero) (hlen hzero) hne
    exact Exec.not_returns_die _ (hdead ▸ hpull)
  -- the body went out, the headers cannot be recorded
  have hout : ∃ r, (pullPart content attempt.pulls { st.data with status := 0 }
      ((seq - 1) * chunk)).out = .done r := by
    by_cases hzero : fd = 0
    · rw [hpulls hzero]
      exact ⟨_, rfl⟩
    · obtain ⟨data, pos, body, heq, -⟩ :=
        @pullPart_fd { st.data with status := 0 } content attempt.pulls ((seq - 1) * chunk)
          (by rw [show ({ st.data with status := 0 } : PutObjectCallbackData).fd = fd from hfd]
              exact hzero)
      exact ⟨_, by rw [heq]; rfl⟩
  obtain ⟨r, hr⟩ := hout
  have hreturns := (Exec.returns_bind.mp (hrest r hr)).1
  apply htame
  refine ⟨hpulls, fun eTag hprop => ?_⟩
  simp only [partProperties, hprop] at hreturns
  cases eTag with
  | none => exact absurd hreturns (Exec.not_returns_die _)
  | some eTag =>
    refine ⟨by simp, ?_⟩
    by_contra halloc
    rw [multipartPutPartResponsePropertiesCallback, if_neg halloc] at hreturns
    exact Exec.not_returns_die _ hreturns

end Attempt

/-! ## The attempts of a part, and the parts of a file -/

/-- The attempts made for a part, and whether the part succeeded. `seen` tells whether an ETag of
the part has been recorded before attempt `i`. -/
def partTries (lib : LibS3) (attempts : Nat → PartAttempt) :
    Nat → Nat → Bool → List PartAttempt × Bool
  | 0, i, seen =>
    ([attempts i],
      partStatus lib (seen || (attempts i).properties.isSome) (attempts i) == s3StatusOK)
  | budget + 1, i, seen =>
    if lib.statusIsRetryable
        (partStatus lib (seen || (attempts i).properties.isSome) (attempts i)) then
      (attempts i :: (partTries lib attempts budget (i + 1)
          (seen || (attempts i).properties.isSome)).1,
        (partTries lib attempts budget (i + 1) (seen || (attempts i).properties.isSome)).2)
    else
      ([attempts i],
        partStatus lib (seen || (attempts i).properties.isSome) (attempts i) == s3StatusOK)

/-- The attempts made for the parts from `seq` on: after a part that failed no other is tried. -/
def partsTries (lib : LibS3) (parts : Nat → Nat → PartAttempt) : Nat → Nat → List PartAttempt
  | 0, _ => []
  | rounds + 1, seq =>
    (partTries lib (parts seq) retryCount 0 false).1
      ++ if (partTries lib (parts seq) retryCount 0 false).2 then partsTries lib parts rounds (seq + 1)
        else []

theorem seen_of_partStatus_ok {lib : LibS3} {seen : Bool} {attempt : PartAttempt}
    (h : partStatus lib seen attempt = s3StatusOK) : seen = true := by
  cases seen with
  | true => rfl
  | false => exact absurd h lib.requestTimeout_ne_ok

section Loop

variable (cfg : Config) (lib : LibS3) (name uploadId : CString) (content : List UInt8)
  (etagsAllocated : Bool) (length chunk seq : Nat) (partContentLength : Int)
  (attempts : Nat → PartAttempt) (fd : Int)

/-- The attempt at hand is made in any case. -/
theorem mem_partTries (lib : LibS3) (attempts : Nat → PartAttempt) (budget i : Nat) (seen : Bool) :
    attempts i ∈ (partTries lib attempts budget i seen).1 := by
  cases budget with
  | zero => exact List.mem_singleton_self _
  | succ budget =>
    rw [partTries]
    split
    · exact List.mem_cons_self ..
    · exact List.mem_singleton_self _

/-- If it is not tame, the loop does not return. -/
theorem partLoop_dead (budget : Nat) {i : Nat} {st : PartState} (hfd : st.data.fd = fd)
    (hlen : fd = 0 → st.data.contentLength ≠ 0) (htame : ¬ Tame fd etagsAllocated (attempts i)) :
    ¬ (partLoop cfg lib name uploadId content etagsAllocated length chunk seq partContentLength
      attempts budget i st).Returns := by
  intro hreturns
  unfold partLoop at hreturns
  exact @partRound_dead cfg lib name uploadId content etagsAllocated length chunk seq
    partContentLength (attempts i) st fd hfd hlen htame (Exec.returns_bind.mp hreturns).1

/-- **The attempts of a part.** The loop returns exactly when every attempt made is tame; it
then ends with `S3StatusOK` exactly when the part succeeded, with the part's ETag recorded. -/
theorem partLoop_spec (budget i : Nat) (st : PartState) (seen : Bool) (hfd : st.data.fd = fd)
    (hlen : fd = 0 → st.data.contentLength ≠ 0)
    (hseen : st.manager.nextEtagsPos = seq ↔ seen = true) :
    ((partLoop cfg lib name uploadId content etagsAllocated length chunk seq partContentLength
        attempts budget i st).Returns
      ↔ ∀ a ∈ (partTries lib attempts budget i seen).1, Tame fd etagsAllocated a)
    ∧ ((∀ a ∈ (partTries lib attempts budget i seen).1, Tame fd etagsAllocated a) →
      ∃ st', (partLoop cfg lib name uploadId content etagsAllocated length chunk seq
          partContentLength attempts budget i st).out = .done st'
        ∧ (st'.data.status = s3StatusOK ↔ (partTries lib attempts budget i seen).2 = true)
        ∧ (st'.data.status = s3StatusOK → st'.manager.nextEtagsPos = seq)) := by
  induction budget generalizing i st seen with
  | zero =>
    by_cases htame : Tame fd etagsAllocated (attempts i)
    swap
    · have hmade := mem_partTries lib attempts 0 i seen
      exact ⟨iff_of_false (partLoop_dead _ _ _ _ _ _ _ _ _ _ _ _ 0 hfd hlen htame)
        fun h => htame (h _ hmade), fun h => absurd (h _ hmade) htame⟩
    rw [partLoop, partTries]
    obtain ⟨st₁, hout, hfd₁, -, hseen₁, hstatus⟩ :=
      @partRound_next cfg lib name uploadId content etagsAllocated length chunk seq
        partContentLength (attempts i) st fd seen hfd hlen htame hseen
    rw [Exec.returns_bind, Exec.bind_out_of_done hout]
    simp only [Exec.returns_of_done hout, hout, Outcome.done.injEq, forall_eq', ite_self,
      Exec.returns_pure, true_and, List.forall_mem_singleton, htame, Exec.pure_out, true_implies]
    refine ⟨st₁, rfl, by rw [hstatus, beq_iff_eq], fun hok => ?_⟩
    exact hseen₁.mpr (seen_of_partStatus_ok (hstatus ▸ hok))
  | succ budget ih =>
    by_cases htame : Tame fd etagsAllocated (attempts i)
    swap
    · have hmade := mem_partTries lib attempts (budget + 1) i seen
      exact ⟨iff_of_false (partLoop_dead _ _ _ _ _ _ _ _ _ _ _ _ (budget + 1) hfd hlen htame)
        fun h => htame (h _ hmade), fun h => absurd (h _ hmade) htame⟩
    rw [partLoop, partTries]
    obtain ⟨st₁, hout, hfd₁, hlen₁, hseen₁, hstatus⟩ :=
      @partRound_next cfg lib name uploadId content etagsAllocated length chunk seq
        partContentLength (attempts i) st fd seen hfd hlen htame hseen
    rw [Exec.returns_bind, Exec.bind_out_of_done hout]
    simp only [Exec.returns_of_done hout, true_and, hout, Outcome.done.injEq, forall_eq', hstatus]
    by_cases hretry : lib.statusIsRetryable
        (partStatus lib (seen || (attempts i).properties.isSome) (attempts i)) = true
    · simp only [hretry, if_true, List.forall_mem_cons, htame, true_and]
      exact ih (i + 1) st₁ _ hfd₁ hlen₁ hseen₁
    · simp only [hretry, Bool.false_eq_true, if_false, Exec.returns_pure,
        List.forall_mem_singleton, htame, Exec.pure_out, true_and, true_implies]
      refine ⟨st₁, rfl, by rw [hstatus, beq_iff_eq], fun hok => ?_⟩
      exact hseen₁.mpr (seen_of_partStatus_ok (hstatus ▸ hok))

end Loop

/-- What is left of the file before each part: more than the later parts can take. -/
theorem left_after_part {rounds chunk left : Nat} (hleft : rounds * chunk < left) (hne : rounds ≠ 0) :
    (rounds - 1) * chunk < left - min chunk left := by
  obtain ⟨r, rfl⟩ := Nat.exists_eq_succ_of_ne_zero hne
  rw [Nat.succ_mul] at hleft
  rw [Nat.succ_sub_one, Nat.min_eq_left (by omega)]
  omega

/-- **The parts of a file.** The loop over the parts returns exactly when every attempt made is
tame. -/
theorem partsLoop_returns_iff (cfg : Config) (lib : LibS3) (name uploadId : CString)
    (content : List UInt8) (etagsAllocated : Bool) (fd : Int) (stSize length : Nat) {chunk : Nat}
    (parts : Nat → Nat → PartAttempt) (hchunk : 0 < chunk) (hmax : chunk ≤ 2 ^ 30)
    (rounds seq left : Nat) (manager : UploadManager) (lastReportTime : Nat)
    (hseq : manager.nextEtagsPos < seq) (hleft : rounds ≠ 0 → (rounds - 1) * chunk < left) :
    (partsLoop cfg lib name uploadId content etagsAllocated fd stSize length chunk parts rounds
        seq left manager lastReportTime).Returns
      ↔ ∀ a ∈ partsTries lib parts rounds seq, Tame fd etagsAllocated a := by
  induction rounds generalizing seq left manager lastReportTime with
  | zero => simp [partsLoop, partsTries]
  | succ rounds ih =>
    have hpos : rounds * chunk < left := by simpa using hleft (Nat.succ_ne_zero _)
    rw [partsLoop, partsTries, Exec.returns_bind, List.forall_mem_append]
    rw [partLength_eq hmax]
    have hmin : min chunk left ≠ 0 := by omega
    obtain ⟨hreturns, hend⟩ := partLoop_spec cfg lib name uploadId content etagsAllocated length chunk
      seq (cInt (if left > chunk then chunk else left)) (parts seq) fd retryCount 0
      ⟨{ PutObjectCallbackData.zero with
          fd := fd
          contentLength := min chunk left
          originalContentLength := min chunk left
          totalContentLength := left
          totalOriginalContentLength := stSize },
        manager, lastReportTime⟩ false rfl (fun _ => hmin)
      ⟨fun h => absurd h (by simp only; omega), fun h => by cases h⟩
    rw [hreturns]
    -- the part's own attempts are tame; whether others follow depends on its status
    refine and_congr_right fun htame => ?_
    obtain ⟨st, hout, hok, hrecorded⟩ := hend htame
    rw [hout]
    simp only [Outcome.done.injEq, forall_eq']
    by_cases hstatus : st.data.status = s3StatusOK
    · simp only [hstatus, ne_eq, not_true, if_false, hok.mp hstatus, if_true]
      -- the part's ETag is recorded, so the next part finds the position behind its own
      refine ih (seq + 1) _ st.manager st.lastReportTime ?_ (left_after_part hpos)
      rw [hrecorded hstatus]
      omega
    · have hfail : (partTries lib (parts seq) retryCount 0 false).2 = false := by
        simpa using fun h => hstatus (hok.mpr h)
      simp [hstatus, hfail]

/-! ## What the upload leaves for the commit -/

section Manager

variable {cfg : Config} {lib : LibS3} {name uploadId : CString} {content : List UInt8}
  {etagsAllocated : Bool} {length chunk : Nat} {I : UploadManager → Prop}

/-- What recording an ETag of the part keeps, the loop over its attempts keeps. -/
theorem partLoop_manager {seq : Nat} {partContentLength : Int} {attempts : Nat → PartAttempt}
    (hstep : ∀ i manager, I manager → I (recordETag seq manager (attempts i)))
    (budget i : Nat) {st st' : PartState} (hlen : st.data.fd = 0 → st.data.contentLength ≠ 0)
    (hI : I st.manager)
    (hout : (partLoop cfg lib name uploadId content etagsAllocated length chunk seq
      partContentLength attempts budget i st).out = .done st') : I st'.manager := by
  rw [partLoop_eq_retryLoop] at hout
  refine (retryLoop_keeps
    (I := fun st => I st.manager ∧ (st.data.fd = 0 → st.data.contentLength ≠ 0)) ?_ ⟨hI, hlen⟩
    hout).1
  rintro i st st₁ ⟨hI, hlen⟩ hst₁
  -- the attempt survived, so it is tame and its effect on the manager is known
  have htame : Tame st.data.fd etagsAllocated (attempts i) := by
    by_contra h
    exact partRound_dead rfl hlen h (Exec.returns_of_done hst₁)
  obtain ⟨st₂, body, reports, heq, -, -, hlen₂, hfd₂, hzero, hmanager, -⟩ :=
    @partRound_done cfg lib name uploadId content etagsAllocated length chunk seq
      partContentLength (attempts i) st st.data.fd (decide (st.manager.nextEtagsPos = seq)) rfl
      htame (by simp)
  rw [heq] at hst₁
  cases hst₁
  refine ⟨hmanager ▸ hstep i _ hI, fun h => ?_⟩
  have hfd : st.data.fd = 0 := hfd₂ ▸ h
  rw [hzero hfd, List.length_nil, Nat.add_zero] at hlen₂
  rw [hlen₂]
  exact hlen hfd

theorem partsLoop_manager {parts : Nat → Nat → PartAttempt} {fd : Int} {stSize : Nat}
    (hchunk : 0 < chunk) (hmax : chunk ≤ 2 ^ 30)
    (hstep : ∀ seq i manager, I manager → I (recordETag seq manager (parts seq i)))
    (rounds seq left : Nat) {manager manager' : UploadManager} (lastReportTime : Nat)
    (hleft : rounds ≠ 0 → (rounds - 1) * chunk < left) (hI : I manager)
    (hout : (partsLoop cfg lib name uploadId content etagsAllocated fd stSize length chunk parts
      rounds seq left manager lastReportTime).out = .done (some manager')) : I manager' := by
  induction rounds generalizing seq left manager lastReportTime with
  | zero =>
    cases hout
    exact hI
  | succ rounds ih =>
    have hpos : rounds * chunk < left := by simpa using hleft (Nat.succ_ne_zero _)
    rw [partsLoop, partLength_eq hmax] at hout
    obtain ⟨st, hst, hout⟩ := Exec.bind_out_done.mp hout
    have hI' : I st.manager := by
      refine partLoop_manager (hstep seq) _ _ (fun _ => ?_) hI hst
      simp only
      omega
    split at hout
    · cases hout
    · exact ih (seq + 1) _ st.lastReportTime (left_after_part hpos) hI' hout

/-- The parts all succeed: the commit phase is reached. -/
theorem partsLoop_some {parts : Nat → Nat → PartAttempt} {fd : Int} {stSize : Nat}
    (hchunk : 0 < chunk) (hmax : chunk ≤ 2 ^ 30) (rounds seq left : Nat)
    {manager : UploadManager} (lastReportTime : Nat) (hseq : manager.nextEtagsPos < seq)
    (hleft : rounds ≠ 0 → (rounds - 1) * chunk < left)
    (hall : ∀ s, (∀ a ∈ (partTries lib (parts s) retryCount 0 false).1, Tame fd etagsAllocated a)
      ∧ (partTries lib (parts s) retryCount 0 false).2 = true) :
    ∃ manager', (partsLoop cfg lib name uploadId content etagsAllocated fd stSize length chunk
      parts rounds seq left manager lastReportTime).out = .done (some manager') := by
  induction rounds generalizing seq left manager lastReportTime with
  | zero => exact ⟨manager, rfl⟩
  | succ rounds ih =>
    have hpos : rounds * chunk < left := by simpa using hleft (Nat.succ_ne_zero _)
    have hmin : min chunk left ≠ 0 := by omega
    obtain ⟨-, hend⟩ := partLoop_spec cfg lib name uploadId content etagsAllocated length chunk
      seq (cInt (if left > chunk then chunk else left)) (parts seq) fd retryCount 0
      ⟨{ PutObjectCallbackData.zero with
          fd := fd
          contentLength := min chunk left
          originalContentLength := min chunk left
          totalContentLength := left
          totalOriginalContentLength := stSize },
        manager, lastReportTime⟩ false rfl (fun _ => hmin)
      ⟨fun h => absurd h (by simp only; omega), fun h => by cases h⟩
    obtain ⟨st, hout, hok, hrecorded⟩ := hend (hall seq).1
    have hstatus := hok.mpr (hall seq).2
    obtain ⟨manager', hrest⟩ := ih (seq + 1) (left - min chunk left) st.lastReportTime
      (by rw [hrecorded hstatus]; omega) (left_after_part hpos)
    refine ⟨manager', ?_⟩
    rw [partsLoop, partLength_eq hmax, Exec.bind_out_of_done hout, if_neg (not_not_intro hstatus)]
    exact hrest

end Manager

end Estuary
