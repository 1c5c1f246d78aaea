import Estuary.Attempts
import Estuary.Spec.Item

/-!
# Estuary — the data-transfer functions stay out of the protocol

Between the begin and the end of an action the copytool only moves data: it reports progress,
makes S3 requests, and writes the destination file. `Event.isTransfer` picks these entries of
the log, and every function below `ct_archive` and `ct_restore` logs nothing else. The
reporting properties rest on this frame fact: a begin, a `ct_action_done` or an end call of an
item is made by the operation itself.
-/

namespace Estuary

open Engine

/-- Entries that the data transfer of an item may log. -/
def Event.isTransfer : Event → Bool
  | .fid2path _ => false
  | .handed _ _ => false
  | .actionBegin _ _ => false
  | .actionDone _ => false
  | .actionEnd _ _ _ => false
  | _ => true

/-- Only transfer entries are logged. -/
abbrev Moves {α : Type} (x : Proc α) : Prop := x.Logs fun e => e.isTransfer = true

/-- Entries of the first phase of a multipart upload: it initiates the upload, sends parts and
reports progress. -/
def Event.isUpload : Event → Bool
  | .initiateMultipart _ _ => true
  | .uploadPart _ _ _ _ _ _ _ => true
  | .actionProgress _ _ _ _ => true
  | _ => false

/-- Only entries of the first phase of a multipart upload are logged. -/
abbrev Uploads {α : Type} (x : Proc α) : Prop := x.Logs fun e => e.isUpload = true

/-- Entries of the first phase of a multipart upload of the object `name`. -/
def Event.UploadOf (name : CString) : Event → Prop
  | .initiateMultipart object _ => object = name
  | .uploadPart object _ _ _ _ _ _ => object = name
  | .actionProgress _ _ _ _ => True
  | _ => False

/-- Entries of an archive's data phase for the object `name`. -/
def Event.ArchiveOf (name : CString) : Event → Prop
  | .putObject object _ _ _ _ => object = name
  | .completeMultipart object _ _ _ _ _ => object = name
  | e => e.UploadOf name

/-- Entries of a restore's data phase. -/
def Event.isDownload : Event → Bool
  | .getObject _ _ _ _ => true
  | .write _ _ => true
  | .getS3Object _ _ => true
  | .actionProgress _ _ _ _ => true
  | .errMajor => true
  | _ => false

/-- Only entries of a restore's data phase are logged. -/
abbrev Downloads {α : Type} (x : Proc α) : Prop := x.Logs fun e => e.isDownload = true

theorem Event.UploadOf.isUpload {name : CString} {e : Event} (h : e.UploadOf name) :
    e.isUpload = true := by
  cases e with
  | initiateMultipart | uploadPart | actionProgress => rfl
  | _ => cases h

theorem Event.UploadOf.archiveOf {name : CString} {e : Event} (h : e.UploadOf name) :
    e.ArchiveOf name := by
  cases e with
  | initiateMultipart | uploadPart | actionProgress => exact h
  | _ => cases h

theorem Event.ArchiveOf.isTransfer {name : CString} {e : Event} (h : e.ArchiveOf name) :
    e.isTransfer = true := by
  cases e with
  | initiateMultipart | uploadPart | actionProgress | putObject | completeMultipart => rfl
  | _ => cases h

theorem isTransfer_of_isDownload {e : Event} (h : e.isDownload = true) : e.isTransfer = true := by
  cases e with
  | getObject | write | getS3Object | actionProgress | errMajor => rfl
  | _ => cases h

theorem logs_msgResend {report : Nat → Event} {p : Event → Prop} (again : Nat → Bool)
    (rcs : Nat → Nat) (h : ∀ rc, p (report rc)) (budget i : Nat) :
    (msgResend report again rcs budget i).Logs p := by
  induction budget generalizing i with
  | zero => exact (Exec.logs_emit (h _)).bind fun _ _ => Exec.logs_pure _ _
  | succ budget ih =>
    exact (Exec.logs_emit (h _)).bind fun _ _ => Exec.logs_ite (ih _) (Exec.logs_pure _ _)

theorem logs_progress {p : Event → Prop} (offset length total : Nat) (rcs : Nat → Nat)
    (h : ∀ rc, p (.actionProgress offset length total rc)) :
    (llapiHsmActionProgressEx offset length total rcs).Logs p :=
  logs_msgResend _ _ h _ _

/-! ## Archive -/

section Archive

variable {name : CString}

theorem uploadOf_progress (offset length total : Nat) (rcs : Nat → Nat) :
    (llapiHsmActionProgressEx offset length total rcs).Logs (Event.UploadOf name) :=
  logs_progress _ _ _ _ fun _ => trivial

theorem archiveOf_put {length : Nat} (attempt : PutAttempt) (data : PutObjectCallbackData) :
    (s3PutObject name length attempt data).Logs (Event.ArchiveOf name) :=
  (Exec.logs_emit (show Event.ArchiveOf name (.putObject name _ _ _ _) from rfl)).bind fun _ _ =>
    Exec.logs_pure _ _

theorem archiveOf_putLoop (lib : LibS3) (length : Nat) (puts : Nat → PutAttempt)
    (budget i : Nat) (data : PutObjectCallbackData) :
    (putLoop lib name length puts budget i data).Logs (Event.ArchiveOf name) := by
  rw [putLoop_eq_retryLoop]
  exact logs_retryLoop (fun _ _ => archiveOf_put _ _) _ _ _

theorem archiveOf_ctArchiveData (lib : LibS3) (env : ArchiveDataEnv) (content : List UInt8)
    (stSize : Nat) (hai : HsmActionItem) :
    (ctArchiveData lib env name content stSize hai).Logs (Event.ArchiveOf name) := by
  unfold ctArchiveData
  refine Exec.logs_ite (Exec.logs_pure _ _) ?_
  refine ((uploadOf_progress _ _ _ _).mono fun _ h => h.archiveOf).bind fun _ _ =>
    Exec.logs_ite (Exec.logs_pure _ _) ?_
  split
  · exact Exec.logs_pure _ _
  · refine Exec.logs_ite (Exec.logs_pure _ _) ((archiveOf_putLoop _ _ _ _ _ _).bind fun _ _ => ?_)
    exact Exec.logs_ite (Exec.logs_pure _ _) (Exec.logs_pure _ _)

end Archive

section Part

variable {p : Event → Prop}

/-- The pulls of a part log nothing. -/
theorem logs_callback (content : List UInt8) (pull : Pull) (data : PutObjectCallbackData)
    (pos : Nat) : (multipartPutObjectdataCallback content pull data pos).Logs p := by
  unfold multipartPutObjectdataCallback
  refine Exec.logs_ite (Exec.logs_ite ?_ (Exec.logs_die _ _)) (Exec.logs_pure _ _)
  split
  · exact Exec.logs_ite (Exec.logs_pure _ _) (Exec.logs_pure _ _)
  · exact Exec.logs_pure _ _

theorem logs_pullPart (content : List UInt8) (pulls : List Pull) (data : PutObjectCallbackData)
    (pos : Nat) : (pullPart content pulls data pos).Logs p := by
  induction pulls generalizing data pos with
  | nil => exact Exec.logs_pure _ _
  | cons pull pulls ih =>
    refine (logs_callback _ _ _ _).bind fun _ _ => Exec.logs_ite (Exec.logs_pure _ _) ?_
    exact (ih _ _).bind fun _ _ => Exec.logs_pure _ _

theorem logs_partProperties (etagsAllocated : Bool) (seq : Nat) (manager : UploadManager)
    (attempt : PartAttempt) : (partProperties etagsAllocated seq manager attempt).Logs p := by
  unfold partProperties
  split
  · exact Exec.logs_pure _ _
  · unfold multipartPutPartResponsePropertiesCallback
    split
    · exact Exec.logs_die _ _
    · exact Exec.logs_ite (Exec.logs_pure _ _) (Exec.logs_die _ _)

/-- An attempt at a part logs its request and progress reports. -/
theorem logs_partRound {cfg : Config} {lib : LibS3} {name uploadId : CString}
    {content : List UInt8} {etagsAllocated : Bool} {length chunk seq : Nat}
    {partContentLength : Int} (attempt : PartAttempt) (st : PartState)
    (hprogress : ∀ offset length total err, p (.actionProgress offset length total err))
    (hpart : ∀ body status stored,
      p (.uploadPart name uploadId seq (sizeT partContentLength) body status stored)) :
    (partRound cfg lib name uploadId content etagsAllocated length chunk seq partContentLength
      attempt st).Logs p := by
  unfold partRound
  refine (logs_pullPart _ _ _ _).bind fun _ _ => (logs_partProperties _ _ _ _).bind fun _ _ => ?_
  refine (Exec.logs_emit (hpart _ _ _)).bind fun _ _ => ?_
  refine Exec.logs_ite (Exec.logs_pure _ _) (Exec.logs_ite ?_ (Exec.logs_pure _ _))
  exact (logs_progress _ _ _ _ (hprogress _ _ _)).bind fun _ _ => Exec.logs_pure _ _

theorem logs_partLoop {cfg : Config} {lib : LibS3} {name uploadId : CString}
    {content : List UInt8} {etagsAllocated : Bool} {length chunk seq : Nat}
    {partContentLength : Int} (attempts : Nat → PartAttempt) (budget i : Nat) (st : PartState)
    (hprogress : ∀ offset length total err, p (.actionProgress offset length total err))
    (hpart : ∀ body status stored,
      p (.uploadPart name uploadId seq (sizeT partContentLength) body status stored)) :
    (partLoop cfg lib name uploadId content etagsAllocated length chunk seq partContentLength
      attempts budget i st).Logs p := by
  rw [partLoop_eq_retryLoop]
  exact logs_retryLoop (fun _ _ => logs_partRound _ _ hprogress hpart) _ _ _

/-- The loop over the parts logs requests for its own parts. -/
theorem logs_partsLoop {cfg : Config} {lib : LibS3} {name uploadId : CString}
    {content : List UInt8} {etagsAllocated : Bool} {fd : Int} {stSize length chunk : Nat}
    {parts : Nat → Nat → PartAttempt} (rounds seq left : Nat) (manager : UploadManager)
    (lastReportTime : Nat)
    (hprogress : ∀ offset length total err, p (.actionProgress offset length total err))
    (hpart : ∀ s length body status stored, seq ≤ s → s < seq + rounds →
      p (.uploadPart name uploadId s length body status stored)) :
    (partsLoop cfg lib name uploadId content etagsAllocated fd stSize length chunk parts rounds seq
      left manager lastReportTime).Logs p := by
  induction rounds generalizing seq left manager lastReportTime with
  | zero => exact Exec.logs_pure _ _
  | succ rounds ih =>
    refine (logs_partLoop _ _ _ _ hprogress fun _ _ _ =>
      hpart _ _ _ _ _ (Nat.le_refl _) (by omega)).bind fun _ _ => ?_
    refine Exec.logs_ite (Exec.logs_pure _ _) (ih _ _ _ _ ?_)
    exact fun s _ _ _ _ hle hlt => hpart s _ _ _ _ (by omega) (by omega)

end Part

section Archive

variable {name : CString}

theorem logs_initLoop {p : Event → Prop} (lib : LibS3) (inits : Nat → Option CString)
    (budget i : Nat) (h : ∀ uploadId, p (.initiateMultipart name uploadId)) :
    (initLoop lib name inits budget i).Logs p := by
  rw [initLoop_eq_retryLoop lib name inits budget i none]
  exact logs_retryLoop (fun _ _ => (Exec.logs_emit (h _)).bind fun _ _ => Exec.logs_pure _ _) _ _ _

theorem uploadOf_uploadPhase (cfg : Config) (lib : LibS3) (env : ArchiveDataBigEnv)
    (content : List UInt8) (fd : Int) (stSize length : Nat) :
    (uploadPhase cfg lib env name content fd stSize length).Logs (Event.UploadOf name) := by
  unfold uploadPhase
  cases ctGetChunksize stSize with
  | none => exact Exec.logs_die _ _
  | some plan =>
    refine (logs_initLoop _ _ _ _ fun _ => rfl).bind fun uploadId _ => ?_
    cases uploadId with
    | none => exact Exec.logs_pure _ _
    | some uploadId =>
      refine (logs_partsLoop _ _ _ _ _ (fun _ _ _ _ => trivial) ?_).bind fun _ _ =>
        Exec.logs_pure _ _
      exact fun _ _ _ _ _ _ _ => rfl

theorem archiveOf_commitLoop (lib : LibS3) (uploadId : CString) (commits : Nat → CommitAttempt)
    (budget i : Nat) (manager : UploadManager) :
    (commitLoop lib name uploadId commits budget i manager).Logs (Event.ArchiveOf name) := by
  rw [commitLoop_eq_retryLoop]
  refine logs_retryLoop (fun _ _ => ?_) _ _ _
  exact (Exec.logs_emit
    (show Event.ArchiveOf name (.completeMultipart name _ _ _ _ _) from rfl)).bind fun _ _ =>
      Exec.logs_pure _ _

theorem archiveOf_ctArchiveDataBig (cfg : Config) (lib : LibS3) (env : ArchiveDataBigEnv)
    (content : List UInt8) (fd : Int) (stSize : Nat) (hai : HsmActionItem) :
    (ctArchiveDataBig cfg lib env name content fd stSize hai).Logs (Event.ArchiveOf name) := by
  unfold ctArchiveDataBig
  refine Exec.logs_ite (Exec.logs_pure _ _) ?_
  refine ((uploadOf_progress _ _ _ _).mono fun _ h => h.archiveOf).bind fun _ _ =>
    ((uploadOf_uploadPhase _ _ _ _ _ _ _).mono fun _ h => h.archiveOf).bind fun _ _ => ?_
  split
  · exact Exec.logs_pure _ _
  · refine (archiveOf_commitLoop _ _ _ _ _ _).bind fun _ _ => ?_
    exact Exec.logs_ite (Exec.logs_pure _ _) (Exec.logs_pure _ _)

end Archive

theorem uploads_progress (offset length total : Nat) (rcs : Nat → Nat) :
    Uploads (llapiHsmActionProgressEx offset length total rcs) :=
  logs_progress _ _ _ _ fun _ => rfl

theorem uploads_uploadPhase (cfg : Config) (lib : LibS3) (env : ArchiveDataBigEnv)
    (name : CString) (content : List UInt8) (fd : Int) (stSize length : Nat) :
    Uploads (uploadPhase cfg lib env name content fd stSize length) :=
  (uploadOf_uploadPhase _ _ _ _ _ _ _).mono fun _ h => h.isUpload

/-! ## The checks before a transfer -/

/-- What `ct_archive_check` tests of a file it could stat. -/
def Archivable (hai : HsmActionItem) (st : StatRes) : Prop :=
  st.isReg = true ∧ hai.extent.offset ≤ st.size

theorem ctArchiveCheck_cases (hai : HsmActionItem) (st : StatRes) :
    (st.err ≠ 0 ∧ ctArchiveCheck hai st = Exec.die .missingArgument)
      ∨ (st.err = 0 ∧ Archivable hai st ∧ ctArchiveCheck hai st = pure true)
      ∨ (st.err = 0 ∧ ¬ Archivable hai st ∧ ctArchiveCheck hai st = pure false) := by
  unfold ctArchiveCheck Archivable
  by_cases herr : st.err = 0
  swap
  · exact Or.inl ⟨herr, if_pos herr⟩
  rw [if_neg (not_not_intro herr)]
  right
  by_cases hreg : st.isReg = true
  swap
  · rw [if_pos (Bool.eq_false_iff.mpr hreg)]
    exact Or.inr ⟨herr, fun h => hreg h.1, rfl⟩
  rw [if_neg (by simp [hreg])]
  by_cases hoffset : hai.extent.offset > st.size
  · rw [if_pos hoffset]
    exact Or.inr ⟨herr, fun h => absurd h.2 (Nat.not_le_of_lt hoffset), rfl⟩
  · rw [if_neg hoffset]
    exact Or.inl ⟨herr, ⟨hreg, Nat.le_of_not_lt hoffset⟩, rfl⟩

theorem logs_ctArchiveCheck (hai : HsmActionItem) (st : StatRes) (p : Event → Prop) :
    (ctArchiveCheck hai st).Logs p := by
  rcases ctArchiveCheck_cases hai st with ⟨-, h⟩ | ⟨-, -, h⟩ | ⟨-, -, h⟩ <;> rw [h]
  · exact Exec.logs_die _ _
  · exact Exec.logs_pure _ _
  · exact Exec.logs_pure _ _

theorem fullPathTarget_of_fits {cfg : Config} (stack : List Char) {filePath : CString}
    (h : FitsFullPath cfg filePath) :
    fullPathTarget cfg stack filePath = pure (objectName cfg stack filePath) := if_pos h

theorem fullPathTarget_of_long {cfg : Config} (stack : List Char) {filePath : CString}
    (h : ¬ FitsFullPath cfg filePath) :
    fullPathTarget cfg stack filePath = Exec.die .bufferOverflow := if_neg h

/-- A target that was found is the object name. -/
theorem fullPathTarget_done {cfg : Config} {stack : List Char} {filePath : CString}
    {target : Option CString} (h : (fullPathTarget cfg stack filePath).out = .done target) :
    FitsFullPath cfg filePath ∧ objectName cfg stack filePath = target := by
  by_cases hfits : FitsFullPath cfg filePath
  · rw [fullPathTarget_of_fits stack hfits, Exec.pure_out, Outcome.done.injEq] at h
    exact ⟨hfits, h⟩
  · rw [fullPathTarget_of_long stack hfits] at h
    cases h

theorem logs_fullPathTarget (cfg : Config) (stack : List Char) (filePath : CString)
    (p : Event → Prop) : (fullPathTarget cfg stack filePath).Logs p :=
  Exec.logs_ite (Exec.logs_pure _ _) (Exec.logs_die _ _)

/-- What holds of the entries of an archive's data phase and of its result. -/
theorem logs_ctArchiveBody {p : Event → Prop} (hdata : ∀ name e, Event.ArchiveOf name e → p e)
    (hbig : ∀ name rc, p (.archiveDataBig name rc)) (hsmall : ∀ name rc, p (.archiveData name rc))
    (cfg : Config) (lib : LibS3) (env : ArchiveEnv) (hai : HsmActionItem) (filePath : CString)
    (err : Nat) : (ctArchiveBody cfg lib env hai filePath err).Logs p := by
  unfold ctArchiveBody
  refine Exec.logs_ite (Exec.logs_pure _ _) ?_
  refine Exec.logs_ite (Exec.logs_pure _ _) (Exec.logs_ite (Exec.logs_pure _ _) ?_)
  refine (logs_ctArchiveCheck _ _ _).bind fun _ _ => ?_
  refine Exec.logs_ite (Exec.logs_pure _ _) (Exec.logs_ite (Exec.logs_pure _ _) ?_)
  refine (logs_fullPathTarget _ _ _ _).bind fun _ _ => ?_
  split
  · exact Exec.logs_pure _ _
  · refine Exec.logs_ite ?_ ?_
    · refine ((archiveOf_ctArchiveDataBig _ _ _ _ _ _ _).mono (hdata _)).bind fun _ _ => ?_
      exact (Exec.logs_emit (hbig _ _)).bind fun _ _ => Exec.logs_pure _ _
    · refine ((archiveOf_ctArchiveData _ _ _ _ _).mono (hdata _)).bind fun _ _ => ?_
      exact (Exec.logs_emit (hsmall _ _)).bind fun _ _ => Exec.logs_pure _ _

theorem moves_ctArchiveBody (cfg : Config) (lib : LibS3) (env : ArchiveEnv)
    (hai : HsmActionItem) (filePath : CString) (err : Nat) :
    Moves (ctArchiveBody cfg lib env hai filePath err) :=
  logs_ctArchiveBody (fun _ _ h => h.isTransfer) (fun _ _ => rfl) (fun _ _ => rfl) _ _ _ _ _ _

/-! ## Restore -/

section Download

variable {p : Event → Prop} (hwrite : ∀ pos bytes, p (.write pos bytes))
  (hget : ∀ name startByte byteCount status, p (.getObject name startByte byteCount status))

include hwrite in
theorem logs_getPieces (contentLength : Nat) (pieces : List Piece) (pos : Nat) :
    (getPieces contentLength pieces pos).Logs p := by
  induction pieces generalizing pos with
  | nil => exact Exec.logs_pure _ _
  | cons piece pieces ih =>
    rw [getPieces]
    refine Exec.logs_ite (Exec.logs_die _ _) ?_
    split
    · exact Exec.logs_pure _ _
    · exact (Exec.logs_emit (hwrite _ _)).bind fun _ _ =>
        Exec.logs_ite (Exec.logs_pure _ _) (ih _)

include hwrite hget

theorem logs_s3GetObject (lib : LibS3) (name : CString) (startByte byteCount : Nat)
    (attempt : GetAttempt) (data : GetObjectCallbackData) :
    (s3GetObject lib name startByte byteCount attempt data).Logs p :=
  (logs_getPieces hwrite _ _ _).bind fun _ _ => (Exec.logs_emit (hget _ _ _ _)).bind fun _ _ =>
    Exec.logs_pure _ _

theorem logs_getLoop (lib : LibS3) (name : CString) (attempts : List GetAttempt)
    (startByte : Nat) (retry_count : Int) (data : GetObjectCallbackData) :
    (getLoop lib name attempts startByte retry_count data).Logs p := by
  induction attempts generalizing startByte retry_count data with
  | nil => exact Exec.logs_wait _
  | cons attempt attempts ih =>
    rw [getLoop]
    refine (logs_s3GetObject hwrite hget _ _ _ _ _ _).bind fun _ _ => ?_
    refine Exec.logs_ite (Exec.logs_ite (Exec.logs_pure _ _) (ih _ _ _)) ?_
    refine Exec.logs_ite (Exec.logs_pure _ _) ?_
    exact Exec.logs_ite (Exec.logs_ite (ih _ _ _) (Exec.logs_pure _ _)) (Exec.logs_pure _ _)

/-- What holds of the entries of a download and of progress reports. -/
theorem logs_ctRestoreData (hrc : ∀ name rc, p (.getS3Object name rc))
    (hreport : ∀ offset length total err, p (.actionProgress offset length total err))
    (cfg : Config) (lib : LibS3) (env : RestoreDataEnv) (hai : HsmActionItem) (filePath : CString) :
    (ctRestoreData cfg lib env hai filePath).Logs p := by
  have hprogress : ∀ offset length total rcs,
      (llapiHsmActionProgressEx offset length total rcs).Logs p :=
    fun _ _ _ _ => logs_progress _ _ _ _ (hreport _ _ _)
  unfold ctRestoreData
  refine Exec.logs_ite (Exec.logs_pure _ _) (Exec.logs_ite (Exec.logs_pure _ _) ?_)
  refine (hprogress _ _ _ _).bind fun _ _ => (logs_fullPathTarget _ _ _ _).bind fun _ _ => ?_
  split
  · exact Exec.logs_pure _ _
  · refine Exec.logs_ite (Exec.logs_ite ?_ (Exec.logs_die _ _)) (Exec.logs_die _ _)
    refine ((logs_getLoop hwrite hget _ _ _ _ _ _).bind fun _ _ => Exec.logs_ite (Exec.logs_pure _ _)
      (Exec.logs_pure _ _)).bind fun _ _ => (Exec.logs_emit (hrc _ _)).bind fun _ _ => ?_
    refine Exec.logs_ite (Exec.logs_pure _ _) (Exec.logs_ite ?_ (Exec.logs_pure _ _))
    exact (hprogress _ _ _ _).bind fun _ _ => Exec.logs_pure _ _

end Download

theorem downloads_ctRestoreBody (cfg : Config) (lib : LibS3) (env : RestoreEnv)
    (hai : HsmActionItem) (filePath : CString) (err : Nat) :
    Downloads (ctRestoreBody cfg lib env hai filePath err) := by
  unfold ctRestoreBody
  refine Exec.logs_ite (Exec.logs_pure _ _) ?_
  refine Exec.logs_ite (Exec.logs_pure _ _) (Exec.logs_ite (Exec.logs_pure _ _) ?_)
  refine Exec.logs_ite (Exec.logs_pure _ _) ?_
  have hdata : Downloads (ctRestoreData cfg lib env.data hai filePath) :=
    logs_ctRestoreData (fun _ _ => rfl) (fun _ _ _ _ => rfl) (fun _ _ => rfl) (fun _ _ _ _ => rfl)
      _ _ _ _ _
  have hmajor : Downloads (Exec.emit .errMajor : Proc Unit) := Exec.logs_emit rfl
  refine hdata.bind fun _ _ => Exec.logs_ite ?_ (Exec.logs_pure _ _)
  exact hmajor.bind fun _ _ => Exec.logs_pure _ _

theorem moves_ctRestoreBody (cfg : Config) (lib : LibS3) (env : RestoreEnv)
    (hai : HsmActionItem) (filePath : CString) (err : Nat) :
    Moves (ctRestoreBody cfg lib env hai filePath err) :=
  (downloads_ctRestoreBody _ _ _ _ _ _).mono fun _ h => isTransfer_of_isDownload h

end Estuary
