import Estuary.Engine.Relate
import Estuary.Survive
import Estuary.Verbosity

/-!
# Estuary — progress reports and outcomes

A progress report is meant to inform the coordinator and nothing else. The three transfer functions
keep its result in the variable they also keep the transfer's result in; in `ct_archive_data` and
`ct_archive_data_big` it is overwritten before it is used, in `ct_restore_data` the result of the
final report is what is returned.

Two runs that differ only in reports and clock are compared through the run in which every report
succeeds at once: `quiet` is the environment of that run.

* **`rel_ctArchive`** — an archive shows the same in its quiet run;
* **`visible_ctRestore`** — a restore that gets to its final report hands the result of the report
  to `ct_action_done`;
* **`progress_neutral_iff`** — so restores that differ in reports only show the same exactly when
  they do not get there, or their final reports end alike.
-/

namespace Estuary

open Engine Exec

/-- What an item shows of itself: the S3 requests, the writes to the restored file, and the error
value it reports. -/
def Event.isVisible : Event → Bool
  | .write _ _ => true
  | e => e.isObserved

/-- What an execution shows. -/
def visible {α : Type} (x : Proc α) : List Event := x.log.filter Event.isVisible

/-! ## Environments without their reports -/

def PartAttempt.quiet (attempt : PartAttempt) : PartAttempt :=
  { attempt with tEnd := 0, progressRcs := fun _ => 0, tReport := 0 }

def ArchiveDataEnv.quiet (env : ArchiveDataEnv) : ArchiveDataEnv :=
  { env with progressRcs := fun _ => 0 }

def ArchiveDataBigEnv.quiet (env : ArchiveDataBigEnv) : ArchiveDataBigEnv :=
  { env with
    tStart := 0
    progressRcs := fun _ => 0
    parts := fun seq i => (env.parts seq i).quiet }

/-- The answers to everything but progress reports, the clock standing still. -/
def ArchiveEnv.quiet (env : ArchiveEnv) : ArchiveEnv :=
  { env with data := env.data.quiet, dataBig := env.dataBig.quiet }

def RestoreDataEnv.quiet (env : RestoreDataEnv) : RestoreDataEnv :=
  { env with progressRcs := fun _ => 0, tStart := 0, tNow := 0, reportRcs := fun _ => 0 }

/-- The answers to everything but progress reports, the clock standing still. -/
def RestoreEnv.quiet (env : RestoreEnv) : RestoreEnv := { env with data := env.data.quiet }

/-! ## Archives -/

theorem silent_progress (offset length total : Nat) (rcs : Nat → Nat) :
    (llapiHsmActionProgressEx offset length total rcs).Logs fun e => e.isVisible = false :=
  logs_progress _ _ _ _ fun _ => rfl

/-- Reports on both sides. -/
theorem rel_progress (offset length total : Nat) (rcs rcs' : Nat → Nat) :
    Rel Event.isVisible (fun _ _ => True) (llapiHsmActionProgressEx offset length total rcs)
      (llapiHsmActionProgressEx offset length total rcs') :=
  rel_of_silent (silent_progress _ _ _ _) (msgResend_out _ _ _ _ _) (silent_progress _ _ _ _)
    (msgResend_out _ _ _ _ _) trivial

/-- The states of the part loop, up to the time of the last report. -/
def PartState.Alike (st st' : PartState) : Prop := st.data = st'.data ∧ st.manager = st'.manager

section Parts

variable (cfg : Config) (lib : LibS3) (name uploadId : CString) (content : List UInt8)
  (etagsAllocated : Bool) (length chunk : Nat)

/-- A round that went on to its report, due or not, ends in the same state up to the time. -/
theorem silent_partReport (seq : Nat) (partContentLength : Int) (attempt : PartAttempt)
    (last : Nat) (data : PutObjectCallbackData) (manager : UploadManager) :
    ∃ t, (if (attempt.tEnd : Int) - last ≥ cfg.oReportInt then do
          let rc ← llapiHsmActionProgressEx ((seq - 1) * chunk) (sizeT partContentLength) length
            attempt.progressRcs
          pure ⟨data, manager, if rc ≠ 0 then last else attempt.tReport⟩
        else pure ⟨data, manager, last⟩ : Proc PartState).Logs (fun e => e.isVisible = false)
      ∧ (if (attempt.tEnd : Int) - last ≥ cfg.oReportInt then do
          let rc ← llapiHsmActionProgressEx ((seq - 1) * chunk) (sizeT partContentLength) length
            attempt.progressRcs
          pure ⟨data, manager, if rc ≠ 0 then last else attempt.tReport⟩
        else pure ⟨data, manager, last⟩ : Proc PartState).out = .done ⟨data, manager, t⟩ := by
  by_cases hdue : (attempt.tEnd : Int) - last ≥ cfg.oReportInt
  · simp only [hdue, if_true]
    exact ⟨_, (silent_progress _ _ _ _).bind fun _ _ => logs_pure _ _,
      bind_out_of_done (msgResend_out _ _ _ _ _) _⟩
  · simp only [hdue, if_false]
    exact ⟨last, logs_pure _ _, rfl⟩

theorem rel_partRound (seq : Nat) (partContentLength : Int) (attempt : PartAttempt)
    {st st' : PartState} (h : st.Alike st') :
    Rel Event.isVisible PartState.Alike
      (partRound cfg lib name uploadId content etagsAllocated length chunk seq partContentLength
        attempt st)
      (partRound cfg lib name uploadId content etagsAllocated length chunk seq partContentLength
        attempt.quiet st') := by
  obtain ⟨data, manager, last⟩ := st
  obtain ⟨data', manager', last'⟩ := st'
  obtain ⟨rfl, rfl⟩ : data = data' ∧ manager = manager' := h
  unfold partRound
  refine rel_bind_same fun ⟨data, pos, body⟩ _ => ?_
  refine rel_bind_same fun manager _ => ?_
  refine rel_bind_same fun _ _ => ?_
  refine rel_ite (rel_pure ⟨rfl, rfl⟩) ?_
  obtain ⟨t, hlogs, hout⟩ := silent_partReport cfg length chunk seq partContentLength attempt last
    { data with status := attempt.status } manager
  obtain ⟨t', hlogs', hout'⟩ := silent_partReport cfg length chunk seq partContentLength
    attempt.quiet last' { data with status := attempt.status } manager
  exact rel_of_silent hlogs hout hlogs' hout' ⟨rfl, rfl⟩

theorem rel_partLoop (seq : Nat) (partContentLength : Int) (attempts : Nat → PartAttempt)
    (budget i : Nat) {st st' : PartState} (h : st.Alike st') :
    Rel Event.isVisible PartState.Alike
      (partLoop cfg lib name uploadId content etagsAllocated length chunk seq partContentLength
        attempts budget i st)
      (partLoop cfg lib name uploadId content etagsAllocated length chunk seq partContentLength
        (fun i => (attempts i).quiet) budget i st') := by
  rw [partLoop_eq_retryLoop, partLoop_eq_retryLoop]
  refine rel_retryLoop (fun i st st' h => ?_) (fun st st' h => ?_) budget i h
  · exact rel_partRound cfg lib name uploadId content etagsAllocated length chunk seq
      partContentLength (attempts i) h
  · rw [partAgain, partAgain, h.1]

theorem rel_partsLoop (fd : Int) (stSize : Nat) (parts : Nat → Nat → PartAttempt)
    (rounds seq contentLength : Nat) (manager : UploadManager) (last last' : Nat) :
    Rel Event.isVisible Eq
      (partsLoop cfg lib name uploadId content etagsAllocated fd stSize length chunk parts rounds
        seq contentLength manager last)
      (partsLoop cfg lib name uploadId content etagsAllocated fd stSize length chunk
        (fun seq i => (parts seq i).quiet) rounds seq contentLength manager last') := by
  induction rounds generalizing seq contentLength manager last last' with
  | zero => exact rel_pure rfl
  | succ rounds ih =>
    rw [partsLoop, partsLoop]
    refine Rel.bind (rel_partLoop cfg lib name uploadId content etagsAllocated length chunk seq _
      (parts seq) retryCount 0 ?_) fun st st' h => ?_
    · exact ⟨rfl, rfl⟩
    · rw [h.1, h.2]
      exact rel_ite (rel_pure rfl) (ih ..)

end Parts

section Archive

variable (cfg : Config) (lib : LibS3) (hai : HsmActionItem)

theorem rel_uploadPhase (env : ArchiveDataBigEnv) (name : CString) (content : List UInt8)
    (fd : Int) (stSize length : Nat) :
    Rel Event.isVisible Eq (uploadPhase cfg lib env name content fd stSize length)
      (uploadPhase cfg lib env.quiet name content fd stSize length) := by
  unfold uploadPhase
  cases ctGetChunksize stSize with
  | none => exact rel_refl _
  | some sizes =>
    obtain ⟨chunk, totalSeq⟩ := sizes
    refine rel_bind_same fun uploadId _ => ?_
    cases uploadId with
    | none => exact rel_refl _
    | some uploadId =>
      refine (rel_partsLoop cfg lib name uploadId content env.etagsAllocated length chunk fd stSize
        env.parts totalSeq 1 stSize _ env.tStart 0).bind ?_
      rintro manager _ rfl
      exact rel_refl _

theorem rel_ctArchiveDataBig (env : ArchiveDataBigEnv) (name : CString) (content : List UInt8)
    (fd : Int) (stSize : Nat) :
    Rel Event.isVisible Eq (ctArchiveDataBig cfg lib env name content fd stSize hai)
      (ctArchiveDataBig cfg lib env.quiet name content fd stSize hai) := by
  unfold ctArchiveDataBig
  refine rel_ite (rel_pure rfl) ?_
  refine (rel_progress _ _ _ _ _).bind fun _ _ _ => ?_
  refine (rel_uploadPhase cfg lib env name content fd stSize _).bind ?_
  rintro res _ rfl
  exact rel_refl _

theorem rel_ctArchiveData (env : ArchiveDataEnv) (name : CString) (content : List UInt8)
    (stSize : Nat) :
    Rel Event.isVisible Eq (ctArchiveData lib env name content stSize hai)
      (ctArchiveData lib env.quiet name content stSize hai) := by
  unfold ctArchiveData
  refine rel_ite (rel_pure rfl) ?_
  exact (rel_progress _ _ _ _ _).bind fun _ _ _ => rel_refl _

/-- **An archive shows the same in its quiet run**, and returns the same. -/
theorem rel_ctArchive (env : ArchiveEnv) (filePath : CString) :
    Rel Event.isVisible Eq (ctArchive cfg lib env hai filePath)
      (ctArchive cfg lib env.quiet hai filePath) := by
  have hbody : ∀ err, Rel Event.isVisible Eq (ctArchiveBody cfg lib env hai filePath err)
      (ctArchiveBody cfg lib env.quiet hai filePath err) := by
    intro err
    unfold ctArchiveBody
    refine rel_ite (rel_pure rfl) (rel_ite (rel_pure rfl) (rel_ite (rel_pure rfl) ?_))
    -- neither run's checks nor its object name depend on the reports
    refine rel_bind_same fun checked _ => rel_ite (rel_pure rfl) (rel_ite (rel_pure rfl) ?_)
    refine rel_bind_same fun target _ => ?_
    cases target with
    | none => exact rel_pure rfl
    | some name =>
      refine rel_ite ?_ ?_
      · refine (rel_ctArchiveDataBig cfg lib hai env.dataBig name env.content env.srcFd
          env.fstat.size).bind ?_
        rintro rc _ rfl
        exact rel_refl _
      · refine (rel_ctArchiveData lib hai env.data name env.content env.fstat.size).bind ?_
        rintro rc _ rfl
        exact rel_refl _
  refine rel_bind_same fun err _ => (hbody err).bind ?_
  rintro rc _ rfl
  exact rel_refl _

end Archive

/-! ## Restores -/

/-- How the final report of a restore ends; one that is not due is as good as a success. -/
def finalReport (cfg : Config) (env : RestoreDataEnv) : Nat :=
  if env.tNow ≥ env.tStart + cfg.oReportInt then
    env.reportRcs (resends (fun rc => rc != 0) env.reportRcs maxResend 0)
  else 0

/-- The end of `ct_restore_data` after a download: nothing shows, and the report's result is
returned. -/
theorem silent_finalReport (cfg : Config) (env : RestoreDataEnv) (offset length total : Nat) :
    (if env.tNow ≥ env.tStart + cfg.oReportInt then do
        let err ← llapiHsmActionProgressEx offset length total env.reportRcs
        pure (-(err : Int))
      else pure 0 : Proc Int).Logs (fun e => e.isVisible = false)
    ∧ (if env.tNow ≥ env.tStart + cfg.oReportInt then do
        let err ← llapiHsmActionProgressEx offset length total env.reportRcs
        pure (-(err : Int))
      else pure 0 : Proc Int).out = .done (-(finalReport cfg env : Int)) := by
  unfold finalReport
  by_cases hdue : env.tNow ≥ env.tStart + cfg.oReportInt
  · simp only [hdue, if_true]
    refine ⟨(silent_progress _ _ _ _).bind fun _ _ => logs_pure _ _, ?_⟩
    rw [llapiHsmActionProgressEx, bind_out_of_done (msgResend_out _ _ _ _ _), Nat.zero_add]
    rfl
  · simp only [hdue, if_false]
    exact ⟨logs_pure _ _, rfl⟩

theorem finalReport_quiet (cfg : Config) (env : RestoreDataEnv) : finalReport cfg env.quiet = 0 := by
  unfold finalReport
  split
  · rfl
  · rfl

/-- `ct_restore_data` gets past a successful download. -/
structure RestoreDataEnv.Reports (cfg : Config) (lib : LibS3) (hai : HsmActionItem)
    (filePath : CString) (env : RestoreDataEnv) : Prop where
  stat : env.fstat.err = 0
  regular : env.fstat.isReg = true
  whole : hai.extent.length = u64Max
  start : hai.extent.offset = 0
  fits : FitsFullPath cfg filePath
  downloaded : ∃ name data, objectName cfg env.stack filePath = some name
    ∧ (getS3Object lib name env.gets).out = .done (0, data)

/-- The restore gets to its final progress report, due or not. -/
structure RestoreEnv.Reports (cfg : Config) (lib : LibS3) (hai : HsmActionItem)
    (filePath : CString) (env : RestoreEnv) : Prop where
  reaches : ReachesDownload cfg env filePath
  data : env.data.Reports cfg lib hai filePath

section Restore

variable (cfg : Config) (lib : LibS3) (hai : HsmActionItem) (filePath : CString)

/-- The results of `ct_restore_data` with and without its reports: the final one decides. -/
def RestoreDataEnv.Results (env : RestoreDataEnv) (rc rc' : Int) : Prop :=
  (env.Reports cfg lib hai filePath → rc = -(finalReport cfg env : Int) ∧ rc' = 0)
    ∧ (¬ env.Reports cfg lib hai filePath → rc = rc')

theorem rel_ctRestoreData (env : RestoreDataEnv) :
    Rel Event.isVisible (env.Results cfg lib hai filePath) (ctRestoreData cfg lib env hai filePath)
      (ctRestoreData cfg lib env.quiet hai filePath) := by
  have hsame : ∀ {rc : Int}, ¬ env.Reports cfg lib hai filePath →
      Rel Event.isVisible (env.Results cfg lib hai filePath) (pure rc : Proc Int) (pure rc) :=
    fun h => rel_pure ⟨fun h' => absurd h' h, fun _ => rfl⟩
  unfold ctRestoreData
  by_cases hstat : env.fstat.err = 0
  swap
  · simp only [RestoreDataEnv.quiet, hstat, ne_eq, not_false_eq_true, if_true]
    exact hsame fun h => hstat h.stat
  by_cases hreg : env.fstat.isReg = true
  swap
  · simp only [RestoreDataEnv.quiet, hstat, ne_eq, not_true, if_false,
      Bool.eq_false_iff.mpr hreg, if_true]
    exact hsame fun h => hreg h.regular
  simp only [RestoreDataEnv.quiet, hstat, ne_eq, not_true, if_false, hreg, Bool.true_eq_false]
  refine (rel_progress _ _ _ _ _).bind fun _ _ _ => ?_
  by_cases hfits : FitsFullPath cfg filePath
  swap
  · rw [fullPathTarget_of_long _ hfits]
    exact ⟨rfl, .dead _⟩
  simp only [fullPathTarget_of_fits _ hfits, Exec.pure_bind]
  cases hname : objectName cfg env.stack filePath with
  | none =>
    refine hsame fun h => ?_
    obtain ⟨_, _, hsome, -⟩ := h.downloaded
    rw [hname] at hsome
    cases hsome
  | some name =>
    by_cases hwhole : hai.extent.length = u64Max
    swap
    · simp only [hwhole, if_false]
      exact ⟨rfl, .dead _⟩
    by_cases hstart : hai.extent.offset = 0
    swap
    · simp only [hwhole, hstart, if_true, if_false]
      exact ⟨rfl, .dead _⟩
    simp only [hwhole, hstart, if_true]
    -- the download and its entry are the same in both; only the last report differs
    refine rel_bind_same fun ⟨rc, data⟩ hget => rel_bind_same fun _ _ => ?_
    rcases getS3Object_ret hget with rfl | rfl
    swap
    · -- a failed download is returned before any report
      have hneg : -(eio : Int) < 0 := by decide
      simp only [hneg, if_true]
      refine hsame fun h => ?_
      obtain ⟨_, _, hsome, hok⟩ := h.downloaded
      rw [hname] at hsome
      cases hsome
      rw [hget] at hok
      cases hok
    have hreports : env.Reports cfg lib hai filePath :=
      ⟨hstat, hreg, hwhole, hstart, hfits, name, data, hname, hget⟩
    obtain ⟨hlogs, hout⟩ := silent_finalReport cfg env 0 data.contentLength data.contentLength
    obtain ⟨hlogs', hout'⟩ := silent_finalReport cfg env.quiet 0 data.contentLength
      data.contentLength
    rw [finalReport_quiet] at hout'
    simp only [Int.lt_irrefl, if_false]
    exact rel_of_silent hlogs hout hlogs' hout' ⟨fun _ => ⟨rfl, rfl⟩, fun h => absurd hreports h⟩

/-- The results of `ct_restore` up to `ct_action_done`, likewise. -/
def RestoreEnv.Results (env : RestoreEnv) (r r' : Int × Bool) : Prop :=
  (env.Reports cfg lib hai filePath → r.1 = -(finalReport cfg env.data : Int) ∧ r'.1 = 0)
    ∧ (¬ env.Reports cfg lib hai filePath → r = r')

/-- The end of `ct_restore` before `ct_action_done`: a failure is counted. -/
theorem silent_count (rc : Int) :
    (if rc < 0 then do
        Exec.emit .errMajor
        pure (rc, true)
      else pure (rc, false) : Proc (Int × Bool)).Logs (fun e => e.isVisible = false)
    ∧ (if rc < 0 then do
        Exec.emit .errMajor
        pure (rc, true)
      else pure (rc, false) : Proc (Int × Bool)).out = .done (rc, decide (rc < 0)) := by
  have hmajor : (Exec.emit .errMajor : Proc Unit).Logs fun e => e.isVisible = false :=
    logs_emit rfl
  by_cases hneg : rc < 0
  · simp only [hneg, if_true]
    exact ⟨hmajor.bind fun _ _ => logs_pure _ _, by simp⟩
  · simp only [hneg, if_false]
    exact ⟨logs_pure _ _, by simp⟩

theorem rel_ctRestoreBody (env : RestoreEnv) (hmdt : env.mdtIndexErr = 0) :
    Rel Event.isVisible (env.Results cfg lib hai filePath)
      (ctRestoreBody cfg lib env hai filePath (beginErr env.beginRcs))
      (ctRestoreBody cfg lib env.quiet hai filePath (beginErr env.beginRcs)) := by
  have hsame : ∀ {r : Int × Bool}, ¬ env.Reports cfg lib hai filePath →
      Rel Event.isVisible (env.Results cfg lib hai filePath) (pure r : Proc (Int × Bool))
        (pure r) :=
    fun h => rel_pure ⟨fun h' => absurd h' h, fun _ => rfl⟩
  unfold ctRestoreBody
  by_cases hbegun : beginErr env.beginRcs = 0
  swap
  · simp only [hbegun, ne_eq, not_false_eq_true, if_true]
    exact hsame fun h => hbegun ((beginErr_eq_zero_iff _).mpr h.reaches.begins)
  by_cases hdfid : env.dfidErr = 0
  swap
  · simp only [RestoreEnv.quiet, hbegun, hdfid, ne_eq, not_true, not_false_eq_true, if_true,
      if_false]
    exact hsame fun h => hdfid h.reaches.identified
  by_cases hdry : cfg.oDryRun = true
  · simp only [RestoreEnv.quiet, hbegun, hdfid, hdry, ne_eq, not_true, if_true, if_false]
    refine hsame fun h => ?_
    have hwet := h.reaches.wet
    rw [hdry] at hwet
    cases hwet
  by_cases hfd : env.dstFd < 0
  · simp only [RestoreEnv.quiet, hbegun, hdfid, hdry, hfd, ne_eq, not_true, if_true, if_false]
    exact hsame fun h => absurd h.reaches.opened (by omega)
  simp only [RestoreEnv.quiet, hbegun, hdfid, hdry, hfd, ne_eq, not_true, if_false]
  have hreports : env.Reports cfg lib hai filePath ↔ env.data.Reports cfg lib hai filePath := by
    refine ⟨fun h => h.data, fun h => ⟨⟨⟨hmdt, (beginErr_eq_zero_iff _).mp hbegun, hdfid,
      Bool.eq_false_iff.mpr hdry, by omega, h.stat, h.regular⟩, ?_⟩, h⟩⟩
    obtain ⟨name, _, hname, -⟩ := h.downloaded
    by_contra hinitial
    rw [(objectName_eq_none_iff cfg env.data.stack filePath).mpr hinitial] at hname
    cases hname
  refine (rel_ctRestoreData cfg lib hai filePath env.data).bind fun rc rc' h => ?_
  -- whether the result counts as a major error does not show
  obtain ⟨hlogs, hout⟩ := silent_count rc
  obtain ⟨hlogs', hout'⟩ := silent_count rc'
  refine rel_of_silent hlogs hout hlogs' hout' ⟨fun hr => h.1 (hreports.mp hr), fun hr => ?_⟩
  rw [h.2 fun hr' => hr (hreports.mpr hr')]

theorem visible_begin (rcs : Nat → Nat) : visible (ctBeginRestore rcs) = [] := by
  refine List.filter_eq_nil_iff.mpr fun e he => ?_
  obtain ⟨err, rfl⟩ := beginEx_log_cases he
  exact Bool.false_ne_true

theorem visible_ctActionDone (env : DoneEnv) (hcp retry : Bool) (ctRc : Int) :
    visible (ctActionDone env hcp retry ctRc) = [.actionDone ctRc] := by
  have hopen : (openHandle env hcp).Logs fun e => e.isVisible = false := by
    cases hcp with
    | true => exact logs_pure _ _
    | false =>
      intro e he
      obtain ⟨err, rfl⟩ := beginEx_log_cases he
      rfl
  have hend : (msgResend (.actionEnd retry ctRc.natAbs) (fun rc => rc != 0 && rc != ecanceled)
      env.endRcs maxResend 0).Logs fun e => e.isVisible = false := by
    intro e he
    obtain ⟨_, _, _, rfl⟩ := (mem_msgResend_log _ _ _).mp he
    rfl
  unfold visible
  rw [ctActionDone, emit_bind, List.filter_cons_of_pos (by rfl)]
  refine congrArg _ (List.filter_eq_nil_iff.mpr fun e he => ?_)
  have hsilent : e.isVisible = false := by
    refine hopen.bind (fun err _ => logs_ite (logs_pure _ _) ?_) e he
    exact hend.bind fun rc _ => logs_pure _ _
  rw [hsilent]
  exact Bool.false_ne_true

/-- **What a restore shows** whose operation came to an end. -/
theorem visible_ctRestore {env : RestoreEnv} {rc : Int} {failed : Bool}
    (hmdt : env.mdtIndexErr = 0)
    (h : (ctRestoreBody cfg lib env hai filePath (beginErr env.beginRcs)).out
      = .done (rc, failed)) :
    visible (ctRestore cfg lib env hai filePath)
      = visible (ctRestoreBody cfg lib env hai filePath (beginErr env.beginRcs))
        ++ [.actionDone rc] := by
  have hbegin := visible_begin env.beginRcs
  have hdone := visible_ctActionDone env.done (beginErr env.beginRcs == 0)
    (failed && ctIsRetryable rc) rc
  unfold visible at hbegin hdone ⊢
  rw [ctRestore_eq_of_body hmdt h, List.filter_append, List.filter_append, hbegin, hdone,
    List.nil_append]

/-- A restore that gets to its final report reports how that ended. -/
theorem visible_of_reports {env : RestoreEnv} (h : env.Reports cfg lib hai filePath) :
    visible (ctRestore cfg lib env hai filePath)
      = visible (ctRestoreBody cfg lib env.quiet hai filePath (beginErr env.quiet.beginRcs))
        ++ [.actionDone (-(finalReport cfg env.data : Int))] := by
  have hrel := rel_ctRestoreBody cfg lib hai filePath env h.reaches.indexed
  obtain ⟨name, data, hname, hget⟩ := h.data.downloaded
  have htame : DownloadTame lib env hai :=
    ⟨⟨h.data.start, h.data.whole⟩, (getS3Object_returns_iff lib name _).mp ⟨_, hget⟩⟩
  obtain ⟨⟨rc, failed⟩, hbody⟩ :=
    (ctRestoreBody_returns_iff cfg lib env hai filePath h.reaches.indexed).mpr
      ⟨fun _ => h.data.fits, fun _ => htame⟩
  have hresults := hrel.out
  generalize (ctRestoreBody cfg lib env.quiet hai filePath (beginErr env.beginRcs)).out = out
    at hresults
  rw [hbody] at hresults
  cases hresults with
  | done hresults =>
    have hrc : rc = -(finalReport cfg env.data : Int) := (hresults.1 h).1
    rw [visible_ctRestore cfg lib hai filePath h.reaches.indexed hbody, hrc]
    exact congrArg (· ++ _) hrel.log

/-- One that does not shows what it shows in its quiet run. -/
theorem visible_of_not_reports {env : RestoreEnv} (h : ¬ env.Reports cfg lib hai filePath) :
    visible (ctRestore cfg lib env hai filePath)
      = visible (ctRestore cfg lib env.quiet hai filePath) := by
  have hrel : Rel Event.isVisible Eq (ctRestore cfg lib env hai filePath)
      (ctRestore cfg lib env.quiet hai filePath) := by
    unfold ctRestore
    by_cases hmdt : env.mdtIndexErr = 0
    swap
    · simp only [RestoreEnv.quiet, hmdt, ne_eq, not_false_eq_true, if_true]
      exact rel_pure rfl
    have hbegin : (ctBeginRestore env.beginRcs).out = .done (beginErr env.beginRcs) :=
      beginEx_out false _
    have hmdt' : env.quiet.mdtIndexErr = 0 := hmdt
    simp only [hmdt, hmdt', ne_eq, not_true, if_false]
    refine rel_bind_same fun err herr => ?_
    obtain rfl : beginErr env.beginRcs = err := by
      rw [hbegin] at herr
      cases herr
      rfl
    refine (rel_ctRestoreBody cfg lib hai filePath env hmdt).bind fun r r' hresults => ?_
    -- no report is due, so the data phase returned the same in both
    rw [hresults.2 h]
    exact rel_refl _
  exact hrel.log

end Restore

/-- **When progress reports do not matter.** Archives, and restores, that differ in reports and
clock only: the archives show the same; the restores do unless they get to their final report and
it ends differently. -/
theorem progress_neutral_iff (cfg : Config) (lib : LibS3) (hai : HsmActionItem)
    (filePath : CString) :
    (∀ env env' : ArchiveEnv, env.quiet = env'.quiet →
        visible (ctArchive cfg lib env hai filePath)
          = visible (ctArchive cfg lib env' hai filePath))
      ∧ ∀ env env' : RestoreEnv, env.quiet = env'.quiet →
        (visible (ctRestore cfg lib env hai filePath)
            = visible (ctRestore cfg lib env' hai filePath)
          ↔ (env.Reports cfg lib hai filePath →
            finalReport cfg env.data = finalReport cfg env'.data)) := by
  constructor
  · intro env env' heq
    have h := (rel_ctArchive cfg lib hai env filePath).log
    rw [heq] at h
    exact h.trans (rel_ctArchive cfg lib hai env' filePath).log.symm
  · intro env env' heq
    -- getting to the report depends on nothing that is quieted
    have hreports : env.Reports cfg lib hai filePath ↔ env'.Reports cfg lib hai filePath := by
      have hquiet : ∀ env : RestoreEnv,
          env.Reports cfg lib hai filePath ↔ env.quiet.Reports cfg lib hai filePath :=
        fun env => ⟨fun ⟨⟨⟨h1, h2, h3, h4, h5, h6, h7⟩, h8⟩, ⟨_, _, h9, h10, h11, h12⟩⟩ =>
            ⟨⟨⟨h1, h2, h3, h4, h5, h6, h7⟩, h8⟩, ⟨h6, h7, h9, h10, h11, h12⟩⟩,
          fun ⟨⟨⟨h1, h2, h3, h4, h5, h6, h7⟩, h8⟩, ⟨_, _, h9, h10, h11, h12⟩⟩ =>
            ⟨⟨⟨h1, h2, h3, h4, h5, h6, h7⟩, h8⟩, ⟨h6, h7, h9, h10, h11, h12⟩⟩⟩
      rw [hquiet env, hquiet env', heq]
    by_cases h : env.Reports cfg lib hai filePath
    · rw [visible_of_reports cfg lib hai filePath h,
        visible_of_reports cfg lib hai filePath (hreports.mp h), heq]
      simp only [List.append_cancel_left_eq, List.cons.injEq, and_true, Event.actionDone.injEq, h,
        true_implies]
      omega
    · rw [visible_of_not_reports cfg lib hai filePath h,
        visible_of_not_reports cfg lib hai filePath fun h' => h (hreports.mpr h'), heq]
      simp [h]

/-- A restore of two bytes whose final report is due after `t` seconds and answered by `rc`. -/
def reportedRestore (t rc : Nat) : RestoreEnv :=
  { RestoreEnv.smooth [1, 2] with
    data := { (RestoreEnv.smooth [1, 2]).data with tNow := t, reportRcs := fun _ => rc } }

/-- Reports that fail are without consequence in an archive, and in a restore whose final one is
not due. -/
theorem reports_without_consequence :
    visible (ctArchive (.setup (cstr ['/', 'l']) (cstr ['/', 'l'])) .upstream
        { ArchiveEnv.smooth [1, 2] with
          data := { ArchiveDataEnv.smooth [1, 2] with progressRcs := fun _ => 5 } }
        ⟨.archive, ⟨1, 1, 0⟩, .whole⟩ (cstr ['f']))
      = visible (ctArchive (.setup (cstr ['/', 'l']) (cstr ['/', 'l'])) .upstream (.smooth [1, 2])
        ⟨.archive, ⟨1, 1, 0⟩, .whole⟩ (cstr ['f']))
    ∧ visible (ctRestore (.setup (cstr ['/', 'l']) (cstr ['/', 'l'])) .upstream
        (reportedRestore 29 5) ⟨.restore, ⟨1, 1, 0⟩, .whole⟩ (cstr ['f']))
      = visible (ctRestore (.setup (cstr ['/', 'l']) (cstr ['/', 'l'])) .upstream
        (reportedRestore 30 0) ⟨.restore, ⟨1, 1, 0⟩, .whole⟩ (cstr ['f'])) := by
  refine ⟨(progress_neutral_iff _ _ _ _).1 _ _ rfl, ?_⟩
  have h := (progress_neutral_iff (.setup (cstr ['/', 'l']) (cstr ['/', 'l'])) .upstream
    ⟨.restore, ⟨1, 1, 0⟩, .whole⟩ (cstr ['f'])).2 (reportedRestore 29 5) (reportedRestore 30 0) rfl
  exact h.mpr fun _ => by decide

/-- A restore whose final report fails with `EIO` is reported as failed, its data in place. -/
theorem report_fails_restore :
    (reportedRestore 30 5).quiet = (reportedRestore 30 0).quiet
      ∧ visible (ctRestore (.setup (cstr ['/', 'l']) (cstr ['/', 'l'])) .upstream
          (reportedRestore 30 5) ⟨.restore, ⟨1, 1, 0⟩, .whole⟩ (cstr ['f']))
        = [.write 0 [1, 2], .getObject (cstr ['f']) 0 chunkSize s3StatusOK, .actionDone (-5)]
      ∧ visible (ctRestore (.setup (cstr ['/', 'l']) (cstr ['/', 'l'])) .upstream
          (reportedRestore 30 5) ⟨.restore, ⟨1, 1, 0⟩, .whole⟩ (cstr ['f']))
        ≠ visible (ctRestore (.setup (cstr ['/', 'l']) (cstr ['/', 'l'])) .upstream
          (reportedRestore 30 0) ⟨.restore, ⟨1, 1, 0⟩, .whole⟩ (cstr ['f'])) :=
  ⟨rfl, by decide +kernel, by decide +kernel⟩

end Estuary
