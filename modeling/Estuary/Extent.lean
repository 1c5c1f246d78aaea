import Estuary.Restored

/-!
# Estuary — the extent a restore reports at its end

When the download is over, `ct_restore_data` sends a last progress report if one is due, with
`data.contentLength` as extent length and total. This is the length of the last response, while
the sum over the responses is in `data.totalLength`; they differ as soon as the object does not fit
into one range.

* **`AnnouncedFrom`** — the headers of the answers: libs3 hands them over for successful responses
  only, and these announce the range they deliver;
* **`getLoop_contentLength`** — when the loop ends well, `contentLength` is the object's size exactly
  if the object fits into one range;
* **`restored_extent_iff`** — and so the report is true exactly then, or when none is due.
-/

namespace Estuary

open Engine

/-! ## The headers of the answers -/

/-- Headers arrive for a range inside the object, and announce its length. -/
def HonestHeaders (obj : List UInt8) (start : Nat) (attempt : GetAttempt) : Prop :=
  ∀ properties, attempt.properties = some properties →
    start < obj.length ∧ properties.contentLength = (rangeOf obj start).length

/-- The headers of the answers to a download, from the range at `start` on. -/
def AnnouncedFrom (lib : LibS3) (obj : List UInt8) : List GetAttempt → Nat → Prop
  | [], _ => True
  | attempt :: attempts, start =>
    HonestHeaders obj start attempt
      ∧ AnnouncedFrom lib obj attempts
          (if attempt.outcome lib = s3StatusOK then start + chunkSize else start)

/-- The content length in force before a request at `start`: none yet, that of the full range
before, or that of a failed response to this very request. -/
def InForce (obj : List UInt8) (start len : Nat) : Prop :=
  (start = 0 ∧ len = 0) ∨ (chunkSize ≤ start ∧ len = chunkSize)
    ∨ (start < obj.length ∧ len = (rangeOf obj start).length)

theorem announced_inForce {obj : List UInt8} {start len : Nat} {attempt : GetAttempt}
    (h : HonestHeaders obj start attempt) (hlen : InForce obj start len) :
    InForce obj start (announced len attempt) := by
  unfold announced
  cases hp : attempt.properties with
  | none => exact hlen
  | some properties => exact .inr (.inr (h properties hp))

/-! ## The loop -/

/-- **The content length at the end of the loop** is the object's size exactly when the object fits
into one range. -/
theorem getLoop_contentLength {lib : LibS3} {obj : List UInt8} (name : CString)
    {attempts : List GetAttempt} {i : Nat} {s : GetState}
    (hserved : ServedAcross lib (fun _ => obj) attempts i s.startByte)
    (hheaders : AnnouncedFrom lib obj attempts s.startByte) (hle : s.startByte ≤ obj.length)
    (hstart : s.startByte = 0 ∨ chunkSize ≤ s.startByte)
    (hlen : InForce obj s.startByte s.data.contentLength) {data : GetObjectCallbackData}
    (hout : (answered (getStep lib name) attempts s).out = .done data)
    (hok : data.status = s3StatusOK) :
    data.contentLength = obj.length ↔ obj.length ≤ chunkSize := by
  induction attempts generalizing i s with
  | nil => cases hout
  | cons attempt attempts ih =>
    obtain ⟨(hhonest : HonestGet lib obj s.startByte attempt), hrest⟩ := hserved
    obtain ⟨hhead, hheads⟩ := hheaders
    have hgt := chunkSize_gt
    have hrange := rangeOf_length obj s.startByte
    have hforce := announced_inForce hhead hlen
    obtain ⟨next, hnext⟩ := first_of_answered hout
    cases getStep_cases hnext with
    | @full data₁ hsuccess hfull hlen₁ =>
      rw [answered_again hnext] at hout
      rw [if_pos hsuccess] at hrest hheads
      have hlength := hhonest.length
        (status_of_outcome hsuccess lib.abortedByCallback_ne_ok).1 s.data.contentLength
      have hle' : s.startByte + chunkSize ≤ obj.length := by omega
      exact @ih (i + 1) ⟨s.startByte + chunkSize, s.retry_count, data₁⟩ hrest hheads hle'
        (.inr (Nat.le_add_left _ _)) (.inr (.inl ⟨Nat.le_add_left _ _, hlen₁.trans hfull⟩)) hout
    | short hsuccess hshort hlen₁ =>
      -- a short range ends the object: it is all of it if it is the first
      rw [answered_leave hnext] at hout
      cases hout
      obtain ⟨hattempt, -⟩ := status_of_outcome hsuccess lib.abortedByCallback_ne_ok
      have hlength := hhonest.length hattempt s.data.contentLength
      have hinside := hhonest.inside hattempt
      omega
    | behind hinvalid hlen₁ =>
      -- the object ended with the range before
      rw [answered_leave hnext] at hout
      cases hout
      have hbehind :=
        hhonest.behind (status_of_outcome hinvalid lib.abortedByCallback_ne_invalidRange).1
      rw [hlen₁]
      rcases hforce with ⟨hzero, hforce⟩ | ⟨hfull, hforce⟩ | ⟨hinside, -⟩
      · omega
      · omega
      · omega
    | @again data₁ hfail hinvalid hretry hshould hlen₁ =>
      -- the same range again
      rw [answered_again hnext] at hout
      rw [if_neg hfail] at hrest hheads
      rw [← hlen₁] at hforce
      exact @ih (i + 1) ⟨s.startByte, (shouldRetry s.retry_count).2, data₁⟩ hrest hheads hle hstart
        hforce hout
    | gaveUp hfail hinvalid hover hstatus =>
      rw [answered_leave hnext] at hout
      cases hout
      exact absurd (hstatus.symm.trans hok) hfail

theorem getS3Object_contentLength {lib : LibS3} {obj : List UInt8} {name : CString}
    {attempts : List GetAttempt} (hserved : ServedFrom lib obj attempts 0)
    (hheaders : AnnouncedFrom lib obj attempts 0) {data : GetObjectCallbackData}
    (hout : (getS3Object lib name attempts).out = .done (0, data)) :
    data.contentLength = obj.length ↔ obj.length ≤ chunkSize := by
  obtain ⟨hloop, hok⟩ := getS3Object_zero hout
  exact @getLoop_contentLength lib obj name attempts 0 .first hserved hheaders (Nat.zero_le _)
    (.inl rfl) (.inl ⟨rfl, rfl⟩) data hloop hok

/-! ## The final report -/

/-- `get_s3_object` returned. -/
def Event.endsDownload : Event → Bool
  | .getS3Object _ _ => true
  | _ => false

/-- The entries of a log since the download returned, the last one first. -/
def sinceDownload (log : List Event) : List Event :=
  log.reverse.takeWhile fun e => !e.endsDownload

/-- Every progress report since the download gives `size` as the extent's length and as the
total. -/
def ReportsTruthful (size : Nat) (log : List Event) : Prop :=
  ∀ offset length total err, .actionProgress offset length total err ∈ sinceDownload log →
    length = size ∧ total = size

theorem mem_sinceDownload {before after : List Event} {name : CString} {rc : Int} {e : Event}
    (hafter : ∀ e ∈ after, e.endsDownload = false) :
    e ∈ sinceDownload (before ++ .getS3Object name rc :: after) ↔ e ∈ after := by
  have hall : ∀ e ∈ after.reverse, (!e.endsDownload) = true := fun e he => by
    rw [hafter e (List.mem_reverse.mp he)]
    rfl
  rw [sinceDownload, List.reverse_append, List.reverse_cons, List.append_assoc,
    List.takeWhile_append_of_pos hall]
  simp [Event.endsDownload]

/-- Whether the final report is due. -/
def ReportDue (cfg : Config) (env : RestoreDataEnv) : Prop := env.tNow ≥ env.tStart + cfg.oReportInt

instance (cfg : Config) (env : RestoreDataEnv) : Decidable (ReportDue cfg env) :=
  inferInstanceAs (Decidable (_ ≥ _))

theorem getS3Object_log_continues (lib : LibS3) (name : CString) (attempts : List GetAttempt) :
    (getS3Object lib name attempts).Logs fun e => e.endsDownload = false :=
  (logs_getLoop (fun _ _ => rfl) (fun _ _ _ _ => rfl) _ _ _ _ _ _).bind fun _ _ =>
    Exec.logs_ite (Exec.logs_pure _ _) (Exec.logs_pure _ _)

theorem progress_log_continues (offset length total : Nat) (rcs : Nat → Nat) :
    (llapiHsmActionProgressEx offset length total rcs).Logs fun e => e.endsDownload = false :=
  logs_progress _ _ _ _ fun _ => rfl

/-- The log of a data phase whose download returned 0. -/
theorem ctRestoreData_restored {cfg : Config} {lib : LibS3} {env : RestoreDataEnv}
    {hai : HsmActionItem} {filePath name : CString}
    (hname : objectName cfg env.stack filePath = some name)
    (hrestored : .getS3Object name 0 ∈ (ctRestoreData cfg lib env hai filePath).log) :
    ∃ data before, (getS3Object lib name env.gets).out = .done (0, data)
      ∧ (ctRestoreData cfg lib env hai filePath).log
        = before ++ .getS3Object name 0 :: (if ReportDue cfg env then
            (llapiHsmActionProgressEx hai.extent.offset data.contentLength data.contentLength
              env.reportRcs).log
          else []) := by
  unfold ctRestoreData at hrestored ⊢
  by_cases hstat : env.fstat.err ≠ 0
  · rw [if_pos hstat] at hrestored
    exact absurd hrestored List.not_mem_nil
  rw [if_neg hstat] at hrestored ⊢
  by_cases hreg : env.fstat.isReg = false
  · rw [if_pos hreg] at hrestored
    exact absurd hrestored List.not_mem_nil
  rw [if_neg hreg] at hrestored ⊢
  -- the entry is not one of the first report: it comes from what follows
  rcases Exec.mem_bind_log.mp hrestored with hfirst | ⟨r, hr, hrestored⟩
  · cases progress_log_continues _ _ _ _ _ hfirst
  rw [Exec.bind_log_of_done hr]
  by_cases hfits : FitsFullPath cfg filePath
  swap
  · rw [fullPathTarget_of_long _ hfits] at hrestored
    exact absurd hrestored List.not_mem_nil
  simp only [fullPathTarget_of_fits _ hfits, Exec.pure_bind, hname] at hrestored ⊢
  by_cases hlen : hai.extent.length = u64Max
  swap
  · rw [if_neg hlen] at hrestored
    exact absurd hrestored List.not_mem_nil
  by_cases hoff : hai.extent.offset = 0
  swap
  · rw [if_pos hlen, if_neg hoff] at hrestored
    exact absurd hrestored List.not_mem_nil
  rw [if_pos hlen, if_pos hoff] at hrestored ⊢
  -- nor is it one of the requests inside the download
  rcases Exec.mem_bind_log.mp hrestored with hdownload | ⟨⟨rc, data⟩, hget, hrestored⟩
  · cases getS3Object_log_continues _ _ _ _ hdownload
  rw [Exec.bind_log_of_done hget]
  simp only [Exec.emit_bind] at hrestored ⊢
  rcases getS3Object_ret hget with rfl | rfl
  swap
  · simp [eio] at hrestored
  refine ⟨data, (llapiHsmActionProgressEx hai.extent.offset 0 hai.extent.length
    env.progressRcs).log ++ (getS3Object lib name env.gets).log, hget, ?_⟩
  rw [List.append_assoc, if_neg (Int.lt_irrefl 0)]
  -- behind the download there is the last report, or nothing
  by_cases hdue : env.tNow ≥ env.tStart + cfg.oReportInt
  · rw [if_pos hdue, if_pos (show ReportDue cfg env from hdue)]
    rw [Exec.bind_log_of_quiet fun _ => Exec.pure_log _]
  · rw [if_neg hdue, if_neg (show ¬ ReportDue cfg env from hdue), Exec.pure_log]

/-- A report that gives one length twice is true when this is the size; its first call is made in
any case. -/
theorem reportsTruthful_iff {before : List Event} {name : CString} {offset len size : Nat}
    {rcs : Nat → Nat} {due : Prop} [Decidable due] :
    ReportsTruthful size (before ++ .getS3Object name 0 ::
        (if due then (llapiHsmActionProgressEx offset len len rcs).log else []))
      ↔ ¬ due ∨ len = size := by
  by_cases hdue : due
  swap
  · rw [if_neg hdue]
    refine iff_of_true (fun _ _ _ _ h => ?_) (.inl hdue)
    rw [mem_sinceDownload fun _ h => absurd h List.not_mem_nil] at h
    exact absurd h List.not_mem_nil
  rw [if_pos hdue, or_iff_right (not_not_intro hdue)]
  have hmem : ∀ {e : Event}, e ∈ sinceDownload (before ++ .getS3Object name 0 ::
      (llapiHsmActionProgressEx offset len len rcs).log)
        ↔ e ∈ (llapiHsmActionProgressEx offset len len rcs).log :=
    mem_sinceDownload (progress_log_continues _ _ _ _)
  constructor
  -- the first call of the loop is in the log whatever it is answered, and carries `len`
  · intro htruthful
    exact (htruthful _ _ _ _ (hmem.mpr (first_mem_msgResend_log _ _ _ _ _))).1
  · intro hsize offset length total err h
    obtain ⟨j, -, -, hj⟩ := (mem_msgResend_log _ _ _).mp (hmem.mp h)
    cases hj
    exact ⟨hsize, hsize⟩

/-- **The restored extent.** After a download that returned 0, what `ct_restore_data` reports is the
object's size exactly when no final report is due or the object fits into one range. -/
theorem restored_extent_iff {cfg : Config} {lib : LibS3} {env : RestoreDataEnv}
    {hai : HsmActionItem} {filePath name : CString} {obj : List UInt8}
    (hname : objectName cfg env.stack filePath = some name)
    (hserved : ServedFrom lib obj env.gets 0) (hheaders : AnnouncedFrom lib obj env.gets 0)
    (hrestored : .getS3Object name 0 ∈ (ctRestoreData cfg lib env hai filePath).log) :
    ReportsTruthful obj.length (ctRestoreData cfg lib env hai filePath).log
      ↔ ¬ ReportDue cfg env ∨ obj.length ≤ chunkSize := by
  obtain ⟨data, before, hget, hlog⟩ := ctRestoreData_restored hname hrestored
  rw [hlog, reportsTruthful_iff, getS3Object_contentLength hserved hheaders hget]

/-- A restore of these ranges that takes an hour. -/
def slowRestore (gets : List GetAttempt) : RestoreDataEnv :=
  ⟨⟨0, true, 0⟩, fun _ => 0, 0, [], gets, 3600, fun _ => 0⟩

section Slow

variable {gets : List GetAttempt}

theorem objectName_slow : objectName (.setup (cstr ['/', 'l']) (cstr ['/', 'l']))
    (slowRestore gets).stack (cstr ['f']) = some (cstr ['f']) := by
  rw [show (slowRestore gets).stack = [] from rfl]
  decide +kernel

theorem fits_slow : FitsFullPath (.setup (cstr ['/', 'l']) (cstr ['/', 'l'])) (cstr ['f']) := by
  decide

/-- With a download that returns 0, the slow restore reports. -/
theorem slowRestore_restored {data : GetObjectCallbackData}
    (hget : (getS3Object .upstream (cstr ['f']) gets).out = .done (0, data)) :
    .getS3Object (cstr ['f']) 0 ∈ (ctRestoreData (.setup (cstr ['/', 'l']) (cstr ['/', 'l']))
      .upstream (slowRestore gets) ⟨.restore, ⟨1, 2, 0⟩, .whole⟩ (cstr ['f'])).log := by
  unfold ctRestoreData
  rw [if_neg (show ¬ (slowRestore gets).fstat.err ≠ 0 from not_not_intro rfl),
    if_neg (show ¬ (slowRestore gets).fstat.isReg = false from Bool.noConfusion)]
  refine Exec.mem_bind_log.mpr (.inr ⟨0, rfl, ?_⟩)
  simp only [fullPathTarget_of_fits _ fits_slow, Exec.pure_bind, objectName_slow]
  rw [if_pos (show HsmExtent.whole.length = u64Max from rfl),
    if_pos (show HsmExtent.whole.offset = 0 from rfl)]
  refine Exec.mem_bind_log.mpr (.inr ⟨(0, data), hget, ?_⟩)
  simp only [Exec.emit_bind]
  exact List.mem_cons_self ..

/-- Two bytes. -/
theorem restored_extent_small :
    ReportsTruthful 2 (ctRestoreData (.setup (cstr ['/', 'l']) (cstr ['/', 'l'])) .upstream
      (slowRestore [.smooth [1, 2]]) ⟨.restore, ⟨1, 2, 0⟩, .whole⟩ (cstr ['f'])).log := by
  have hget : (getS3Object .upstream (cstr ['f']) [.smooth [1, 2]]).out
      = .done (0, ⟨2, 2, 0, []⟩) := by
    decide +kernel
  have hfits : [(1 : UInt8), 2].length ≤ chunkSize := chunkSize_gt
  have hserved : ServedFrom .upstream [1, 2] [.smooth [1, 2]] 0 :=
    ⟨honestGet_smooth _ (List.cons_ne_nil _ _) hfits, trivial⟩
  have hheaders : AnnouncedFrom .upstream [1, 2] [.smooth [1, 2]] 0 := by
    refine ⟨fun properties h => ?_, trivial⟩
    cases h
    refine ⟨Nat.zero_lt_two, ?_⟩
    rw [rangeOf_length, Nat.sub_zero, Nat.min_eq_right hfits]
  exact (restored_extent_iff objectName_slow hserved hheaders (slowRestore_restored hget)).mpr
    (.inr hfits)

variable {front : List UInt8} {last : UInt8}

/-- The two ranges of one object that is a byte longer than a range. -/
theorem served_tornGets (h : front.length = chunkSize) :
    ServedFrom .upstream (front ++ [last]) (tornGets front front last last) 0
      ∧ AnnouncedFrom .upstream (front ++ [last]) (tornGets front front last last) 0 := by
  have hlen : (front ++ [last]).length = chunkSize + 1 := by
    rw [List.length_append, List.length_singleton, h]
  have hfirst : 0 < (front ++ [last]).length := by omega
  have hsecond : chunkSize < (front ++ [last]).length := by omega
  have hheaders : ∀ start eTag, start < (front ++ [last]).length →
      HonestHeaders (front ++ [last]) start (.ranged (front ++ [last]) start eTag) := by
    intro start eTag hstart properties hproperties
    cases hproperties
    exact ⟨hstart, rfl⟩
  constructor
  · refine ⟨honestGet_ranged hfirst, ?_, trivial⟩
    rw [if_pos outcome_ranged]
    show HonestGet _ (front ++ [last]) (0 + chunkSize) _
    rw [Nat.zero_add]
    exact honestGet_ranged hsecond
  · refine ⟨hheaders _ _ hfirst, ?_, trivial⟩
    rw [if_pos outcome_ranged, Nat.zero_add]
    exact hheaders _ _ hsecond

end Slow

/-- An object of 16 MiB and one byte, restored in two requests: the report gives 1 byte of 1. -/
theorem large_restore_misreported :
    ServedFrom .upstream (List.replicate chunkSize 1 ++ [1])
        (tornGets (List.replicate chunkSize 1) (List.replicate chunkSize 1) 1 1) 0
      ∧ .getS3Object (cstr ['f']) 0 ∈ (ctRestoreData
          (.setup (cstr ['/', 'l']) (cstr ['/', 'l'])) .upstream
          (slowRestore (tornGets (List.replicate chunkSize 1) (List.replicate chunkSize 1) 1 1))
          ⟨.restore, ⟨1, 2, 0⟩, .whole⟩ (cstr ['f'])).log
      ∧ ¬ ReportsTruthful (List.replicate chunkSize (1 : UInt8) ++ [1]).length (ctRestoreData
          (.setup (cstr ['/', 'l']) (cstr ['/', 'l'])) .upstream
          (slowRestore (tornGets (List.replicate chunkSize 1) (List.replicate chunkSize 1) 1 1))
          ⟨.restore, ⟨1, 2, 0⟩, .whole⟩ (cstr ['f'])).log := by
  have h : (List.replicate chunkSize (1 : UInt8)).length = chunkSize := List.length_replicate
  generalize List.replicate chunkSize (1 : UInt8) = front at h ⊢
  obtain ⟨hserved, hheaders⟩ := @served_tornGets front 1 h
  obtain ⟨⟨data, hget⟩, -⟩ := @getS3Object_torn front front 1 1 (cstr ['f']) h h
  have hrestored := slowRestore_restored hget
  refine ⟨hserved, hrestored, ?_⟩
  obtain ⟨data', before, hget', hlog⟩ := ctRestoreData_restored objectName_slow hrestored
  rw [hlog, reportsTruthful_iff, getS3Object_contentLength hserved hheaders hget']
  rintro (hdue | hfits)
  · exact hdue (show 3600 ≥ 0 + 30 by decide)
  · rw [List.length_append, List.length_singleton] at hfits
    omega

end Estuary
