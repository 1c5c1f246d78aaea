import Estuary.Archived
import Estuary.Restored
import Estuary.Target

/-!
# Estuary — the round trip of a file

An archive leaves the file's content under the name of its path, archives at other paths leave it
there, and a restore that ends well brings it back. The three algorithms on the way (a put from a
buffer, an upload in parts, a download in ranges) each have their own retries; they meet in the
bucket and nowhere else.

* **`archiveDataPhase`**, **`ctArchive_effect`** — the data phase of `ct_archive`, and that the rest
  of it does nothing to the bucket;
* **`archiveDataPhase_stores`** — a data phase that returns 0 stores the file;
* **`ctRestoreData_file`** — a restore's data phase that returns 0 is a download that did;
* **`round_trip`** — so what was archived is what is restored.
-/

namespace Estuary

open Engine

/-! ## The archive -/

/-- The data phase of `ct_archive`. -/
def archiveDataPhase (cfg : Config) (lib : LibS3) (env : ArchiveEnv) (hai : HsmActionItem)
    (filePath : CString) : Proc Int := do
  match ← fullPathTarget cfg env.stack filePath with
  | none => pure 0
  | some name =>
    if env.fstat.size ≥ maxObjSizeLevel then
      ctArchiveDataBig cfg lib env.dataBig name env.content env.srcFd env.fstat.size hai
    else ctArchiveData lib env.data name env.content env.fstat.size hai

section Archive

variable {cfg : Config} {lib : LibS3} {env : ArchiveEnv} {hai : HsmActionItem}
  {filePath name : CString} {listed : List Char → List Nat}

/-- **The operation and its data phase**: `ct_archive` does nothing to the bucket, or what its data
phase does. -/
theorem ctArchive_effect (store : Store) :
    (ctArchive cfg lib env hai filePath).effect (Store.act listed) store = store
      ∨ (ctArchive cfg lib env hai filePath).effect (Store.act listed) store
        = (archiveDataPhase cfg lib env hai filePath).effect (Store.act listed) store := by
  have hbegin : (ctBeginRestore env.beginRcs).out = .done _ := msgResend_out _ _ _ _ _
  have hframe : (ctBeginRestore env.beginRcs).Logs fun e =>
      ∀ store : Store, store.act listed e = store :=
    logs_msgResend _ _ (fun _ _ => rfl) _ _
  have hdone : ∀ rc hcp retry, (ctActionDone env.done hcp retry rc).Logs fun e =>
      ∀ store : Store, store.act listed e = store := by
    intro rc hcp retry
    refine (Exec.logs_emit fun _ => rfl).bind fun _ _ => ?_
    refine Exec.Logs.bind ?_ fun _ _ => Exec.logs_ite (Exec.logs_pure _ _) ?_
    · exact Exec.logs_ite (Exec.logs_pure _ _) (logs_msgResend _ _ (fun _ _ => rfl) _ _)
    · exact (logs_msgResend _ _ (fun _ _ => rfl) _ _).bind fun _ _ => Exec.logs_pure _ _
  -- what comes behind the data phase only talks to the coordinator
  have hrest : ∀ err (rc : Int), ((do
      Exec.emit .errMajor
      let rcDone ← ctActionDone env.done (err == 0) (rc != 0 && ctIsRetryable rc) rc
      pure (cOr rc rcDone)) : Proc Int).Logs fun e => ∀ store : Store, store.act listed e = store :=
    fun err rc => (Exec.logs_emit fun _ => rfl).bind fun _ _ =>
      (hdone _ _ _).bind fun _ _ => Exec.logs_pure _ _
  unfold ctArchive
  rw [Exec.effect_bind_of_done _ hbegin, Exec.effect_of_logs _ hframe,
    Exec.effect_bind_of_frame _ (hrest _)]
  -- five early returns, none of which gets to the data phase
  unfold ctArchiveBody archiveDataPhase
  split
  · exact Or.inl rfl
  split
  · exact Or.inl rfl
  split
  · exact Or.inl rfl
  rcases ctArchiveCheck_cases hai env.fstat with ⟨-, hcheck⟩ | ⟨-, -, hcheck⟩ | ⟨-, -, hcheck⟩
  · rw [hcheck]
    exact Or.inl rfl
  swap
  · rw [hcheck]
    exact Or.inl rfl
  simp only [hcheck, Exec.pure_bind, Bool.true_eq_false, if_false]
  split
  · exact Or.inl rfl
  right
  by_cases hfits : FitsFullPath cfg filePath
  swap
  · rw [fullPathTarget_of_long _ hfits]
    rfl
  simp only [fullPathTarget_of_fits _ hfits, Exec.pure_bind]
  cases objectName cfg env.stack filePath with
  | none => rfl
  | some name =>
    have hlast : ∀ (e : Event) (rc : Int), (∀ store : Store, store.act listed e = store) →
        ((do
          Exec.emit e
          pure rc) : Proc Int).Logs fun e => ∀ store : Store, store.act listed e = store :=
      fun e rc he => (Exec.logs_emit he).bind fun _ _ => Exec.logs_pure _ _
    simp only
    split
    · exact Exec.effect_bind_of_frame _ (fun rc => hlast _ rc fun _ => rfl) _
    · exact Exec.effect_bind_of_frame _ (fun rc => hlast _ rc fun _ => rfl) _

/-- The data phase logs requests for the object of the file's own name. -/
theorem archiveOf_archiveDataPhase (hname : objectName cfg env.stack filePath = some name) :
    (archiveDataPhase cfg lib env hai filePath).Logs (Event.ArchiveOf name) := by
  refine (logs_fullPathTarget _ _ _ _).bind fun target htarget => ?_
  rw [← (fullPathTarget_done htarget).2, hname]
  exact Exec.logs_ite (archiveOf_ctArchiveDataBig _ _ _ _ _ _ _) (archiveOf_ctArchiveData _ _ _ _ _)

/-- The data phase of a file with a name whose full path fits is one of the two uploads. -/
theorem archiveDataPhase_of_fits (hfits : FitsFullPath cfg filePath)
    (hname : objectName cfg env.stack filePath = some name) :
    archiveDataPhase cfg lib env hai filePath
      = if env.fstat.size ≥ maxObjSizeLevel then
          ctArchiveDataBig cfg lib env.dataBig name env.content env.srcFd env.fstat.size hai
        else ctArchiveData lib env.data name env.content env.fstat.size hai := by
  rw [archiveDataPhase, fullPathTarget_of_fits _ hfits, Exec.pure_bind, hname]

/-- Only that object is touched. -/
theorem archiveDataPhase_other (hname : objectName cfg env.stack filePath = some name)
    {other : CString} (hne : other ≠ name) (store : Store) :
    ((archiveDataPhase cfg lib env hai filePath).effect (Store.act listed) store).objects other
      = store.objects other := by
  refine Exec.effect_invariant (Store.act listed)
    (I := fun store' => store'.objects other = store.objects other) ?_ rfl
  intro e he store' hstore'
  rw [Store.act_of_archiveOf (archiveOf_archiveDataPhase hname e he) hne]
  exact hstore'

theorem ctArchive_other (hname : objectName cfg env.stack filePath = some name)
    {other : CString} (hne : other ≠ name) (store : Store) :
    ((ctArchive cfg lib env hai filePath).effect (Store.act listed) store).objects other
      = store.objects other := by
  rcases @ctArchive_effect cfg lib env hai filePath listed store with h | h
  · rw [h]
  · rw [h, archiveDataPhase_other hname hne]

end Archive

/-- What is assumed of an archive: the file is one that `ct_archive` admits and does not change
meanwhile, and S3 keeps its promises. -/
structure SoundArchive (cfg : Config) (lib : LibS3) (env : ArchiveEnv) (hai : HsmActionItem)
    (filePath : CString) : Prop where
  whole : hai.extent = .whole
  small : env.content.length ≤ maxFileSize
  unchanged : env.fstat.size = env.content.length
  honest : (archiveDataPhase cfg lib env hai filePath).Logs Event.Honest
  benign : maxObjSizeLevel ≤ env.content.length → env.dataBig.Benign

/-- **The archive** of a whole file stores it. -/
theorem archiveDataPhase_stores {cfg : Config} {lib : LibS3} {env : ArchiveEnv}
    {hai : HsmActionItem} {filePath name : CString} (server : S3Server)
    (hname : objectName cfg env.stack filePath = some name)
    (hsound : SoundArchive cfg lib env hai filePath)
    (hzero : (archiveDataPhase cfg lib env hai filePath).out = .done 0) (store : Store) :
    ((archiveDataPhase cfg lib env hai filePath).effect (Store.act server.listed) store).objects
      name = some env.content := by
  obtain ⟨hwhole, hsize, hstat, hhonest, hbenign⟩ := hsound
  have hoffset : hai.extent.offset = 0 := by rw [hwhole]; rfl
  have hlength : env.content.length ≤ hai.extent.length := by
    rw [hwhole]
    refine Nat.le_trans hsize ?_
    decide +kernel
  have hfits : FitsFullPath cfg filePath := by
    obtain ⟨target, htarget, -⟩ := Exec.bind_out_done.mp hzero
    exact (fullPathTarget_done htarget).1
  simp only [archiveDataPhase_of_fits hfits hname, hstat] at hhonest hzero ⊢
  by_cases hlarge : env.content.length ≥ maxObjSizeLevel
  · simp only [if_pos hlarge] at hhonest hzero ⊢
    exact ctArchiveDataBig_stores server hsize (hbenign hlarge) hzero hhonest store
  · simp only [if_neg hlarge] at hhonest hzero ⊢
    rw [ctArchiveData_stores server.listed hzero hhonest,
      extentLength_eq hsize (by rw [hoffset]; exact Nat.zero_le _), hoffset, Nat.sub_zero,
      Nat.min_eq_right hlength, List.take_length]

/-! ## The restore -/

/-- **The restore's data phase**: when it returns 0 for a file with a name, it is a download that
did, and nothing else writes to the file. -/
theorem ctRestoreData_file {cfg : Config} {lib : LibS3} {env : RestoreDataEnv}
    {hai : HsmActionItem} {filePath name : CString}
    (hname : objectName cfg env.stack filePath = some name)
    (h : (ctRestoreData cfg lib env hai filePath).out = .done 0) :
    (∃ data, (getS3Object lib name env.gets).out = .done (0, data))
      ∧ (ctRestoreData cfg lib env hai filePath).effect fileAct []
        = (getS3Object lib name env.gets).effect fileAct [] := by
  obtain ⟨data, before, after, hget, hlog, hreports⟩ := ctRestoreData_done hname h
  have hframe : ∀ e ∈ before ++ after, ∀ file, fileAct file e = file := by
    intro e he file
    obtain ⟨_, _, _, _, rfl⟩ := hreports e he
    rfl
  refine ⟨⟨data, hget⟩, ?_⟩
  rw [Exec.effect, hlog, List.foldl_append, List.foldl_append, List.foldl_cons,
    Exec.foldl_of_frame fileAct fun e he => hframe e (List.mem_append_left _ he)]
  exact Exec.foldl_of_frame fileAct (fun e he => hframe e (List.mem_append_right _ he)) _

/-! ## There and back -/

theorem joinPath_injective {mnt p q : CString} (h : joinPath mnt p = joinPath mnt q) : p = q := by
  obtain ⟨p, hp⟩ := p
  obtain ⟨q, hq⟩ := q
  have hchars := congrArg CString.chars h
  have : p = q := by simpa [joinPath] using hchars
  subst this
  rfl

theorem objectName_below {cfg : Config} (stack : List Char) {filePath rel : CString}
    (h : Below cfg.pathPrefix (joinPath cfg.oMnt filePath) rel) :
    objectName cfg stack filePath = some rel :=
  targetName_below stack h

/-- One run of `ct_archive`. -/
structure ArchiveRun where
  env : ArchiveEnv
  hai : HsmActionItem
  filePath : CString

/-- What archives, one after the other, make of the bucket. -/
def archivesEffect (cfg : Config) (lib : LibS3) (server : S3Server) (runs : List ArchiveRun)
    (store : Store) : Store :=
  runs.foldl (fun store run =>
    (ctArchive cfg lib run.env run.hai run.filePath).effect (Store.act server.listed) store) store

/-- Archives at other paths leave an object alone. -/
theorem archivesEffect_other {cfg : Config} {lib : LibS3} {server : S3Server}
    {runs : List ArchiveRun} {filePath rel : CString}
    (hbelow : Below cfg.pathPrefix (joinPath cfg.oMnt filePath) rel)
    (hruns : ∀ run ∈ runs, run.filePath ≠ filePath
      ∧ ∃ rel', Below cfg.pathPrefix (joinPath cfg.oMnt run.filePath) rel') (store : Store) :
    (archivesEffect cfg lib server runs store).objects rel = store.objects rel := by
  induction runs generalizing store with
  | nil => rfl
  | cons run runs ih =>
    obtain ⟨hne, rel', hbelow'⟩ := hruns run (List.mem_cons_self ..)
    have hnames : rel ≠ rel' := by
      rintro rfl
      exact hne (joinPath_injective (hbelow'.injective hbelow))
    rw [archivesEffect, List.foldl_cons, ← archivesEffect,
      ih fun run' hrun' => hruns run' (List.mem_cons_of_mem _ hrun'),
      ctArchive_other (objectName_below _ hbelow') hnames]

/-- **The round trip.** A file below the prefix is archived whole, files at other paths are archived
after it, and it is restored into an empty file: when both data phases return 0, the file is what
it was. -/
theorem round_trip (cfg : Config) (lib : LibS3) (server : S3Server) (store : Store)
    {filePath rel : CString} (hbelow : Below cfg.pathPrefix (joinPath cfg.oMnt filePath) rel)
    {env : ArchiveEnv} {hai : HsmActionItem} (hsound : SoundArchive cfg lib env hai filePath)
    (harchived : (archiveDataPhase cfg lib env hai filePath).out = .done 0)
    {runs : List ArchiveRun}
    (hruns : ∀ run ∈ runs, run.filePath ≠ filePath
      ∧ ∃ rel', Below cfg.pathPrefix (joinPath cfg.oMnt run.filePath) rel')
    {renv : RestoreDataEnv} {rhai : HsmActionItem}
    (hserved : ∀ obj, (archivesEffect cfg lib server runs ((archiveDataPhase cfg lib env hai
      filePath).effect (Store.act server.listed) store)).objects rel = some obj →
        ServedFrom lib obj renv.gets 0)
    (hrestored : (ctRestoreData cfg lib renv rhai filePath).out = .done 0) :
    (ctRestoreData cfg lib renv rhai filePath).effect fileAct [] = env.content := by
  have hobject : (archivesEffect cfg lib server runs ((archiveDataPhase cfg lib env hai
      filePath).effect (Store.act server.listed) store)).objects rel = some env.content := by
    rw [archivesEffect_other hbelow hruns]
    exact archiveDataPhase_stores server (objectName_below _ hbelow) hsound harchived store
  obtain ⟨⟨data, hget⟩, hfile⟩ := ctRestoreData_file (objectName_below _ hbelow) hrestored
  rw [hfile]
  exact ((restore_correct rel (hserved env.content hobject)).2 data hget).1

/-! ## A round trip without incidents -/

section Smooth

variable {filePath rel : CString} {content : List UInt8} (fid : LuFid)

theorem extentLength_whole (hsize : content.length ≤ maxFileSize) :
    extentLength content.length ⟨.archive, fid, .whole⟩ = content.length := by
  rw [extentLength_eq hsize (Nat.zero_le _)]
  show min u64Max (content.length - 0) = content.length
  rw [Nat.sub_zero]
  refine Nat.min_eq_right (Nat.le_trans hsize ?_)
  decide +kernel

/-- A body that is pulled at once. -/
theorem pullPut_smooth {data : PutObjectCallbackData} (hbuffer : data.buffer = content)
    (hoffset : data.bufferOffset = 0) (hlength : data.contentLength = content.length) :
    (pullPut [content.length] data).2 = content := by
  have hsize : (if content.length ≠ 0 then
      if content.length > content.length then content.length else content.length else 0)
        = content.length := by
    by_cases h : content.length = 0
    · rw [if_neg (not_not_intro h), h]
    · rw [if_pos h, if_neg (Nat.lt_irrefl _)]
  simp only [pullPut, putObjectdataCallback, hlength, hsize, hbuffer, hoffset]
  rw [List.append_nil, List.drop_zero, List.take_length]

theorem putFrom_smooth (name : CString) {data : PutObjectCallbackData}
    (hbuffer : data.buffer = content) (hoffset : data.bufferOffset = 0)
    (hlength : data.contentLength = content.length) :
    putFrom .upstream (.smooth content) name content.length 0 data
      = ⟨[.putObject name content.length content s3StatusOK true], .done 0⟩ := by
  have hround : s3PutObject name content.length ⟨[content.length], s3StatusOK, true⟩ data
      = ⟨[.putObject name content.length (pullPut [content.length] data).2 s3StatusOK true],
        .done { (pullPut [content.length] data).1 with status := s3StatusOK }⟩ := rfl
  rw [pullPut_smooth hbuffer hoffset hlength] at hround
  rw [putFrom, putLoop.eq_def]
  show ((s3PutObject name content.length ⟨[content.length], s3StatusOK, true⟩ data >>= _) >>= _) = _
  rw [hround]
  rfl

/-- A put that is pulled at once and acknowledged. -/
theorem ctArchiveData_smooth (name : CString) (hsize : content.length ≤ maxFileSize) :
    ctArchiveData .upstream (.smooth content) name content content.length
        ⟨.archive, fid, .whole⟩
      = ⟨[.actionProgress 0 0 content.length 0,
          .putObject name content.length content s3StatusOK true], .done 0⟩ := by
  have hlen := extentLength_whole fid hsize
  have hread : sysRead content 0 content.length .none = some content := by
    rw [sysRead, List.drop_zero, List.take_length]
  rw [@ctArchiveData_of_read .upstream (.smooth content) name content _ _ content rfl rfl
    (by rw [hlen]; exact hread) hlen.symm, hlen, @putFrom_smooth content name _ rfl rfl rfl]
  rfl

/-- The archive of such a file. -/
theorem soundArchive_smooth
    (hbelow : Below (cstr ['/', 'l']) (joinPath (cstr ['/', 'l']) filePath) rel)
    (hfits : FitsFullPath (.setup (cstr ['/', 'l']) (cstr ['/', 'l'])) filePath)
    (hlen : content.length < maxObjSizeLevel) :
    SoundArchive (.setup (cstr ['/', 'l']) (cstr ['/', 'l'])) .upstream (.smooth content)
        ⟨.archive, fid, .whole⟩ filePath
      ∧ (archiveDataPhase (.setup (cstr ['/', 'l']) (cstr ['/', 'l'])) .upstream (.smooth content)
        ⟨.archive, fid, .whole⟩ filePath).out = .done 0 := by
  have hsize : content.length ≤ maxFileSize := by
    unfold maxObjSizeLevel at hlen
    unfold maxFileSize
    omega
  have hphase : archiveDataPhase (.setup (cstr ['/', 'l']) (cstr ['/', 'l'])) .upstream
      (.smooth content) ⟨.archive, fid, .whole⟩ filePath
        = ctArchiveData .upstream (.smooth content) rel content content.length
          ⟨.archive, fid, .whole⟩ := by
    rw [archiveDataPhase_of_fits hfits (objectName_below _ hbelow)]
    exact if_neg (Nat.not_le_of_lt hlen)
  refine ⟨⟨rfl, hsize, rfl, ?_, fun h => absurd h (Nat.not_le_of_lt hlen)⟩, ?_⟩
  · rw [hphase, ctArchiveData_smooth fid rel hsize]
    intro e he
    simp only [List.mem_cons, List.not_mem_nil, or_false] at he
    rcases he with rfl | rfl
    · trivial
    · exact fun _ => ⟨rfl, rfl⟩
  · rw [hphase, ctArchiveData_smooth fid rel hsize]

/-- An archive of 256 MiB. -/
def ArchiveEnv.kept (content : List UInt8) : ArchiveEnv :=
  { ArchiveEnv.smooth content with dataBig := .kept content }

theorem soundArchive_kept
    (hbelow : Below (cstr ['/', 'l']) (joinPath (cstr ['/', 'l']) filePath) rel)
    (hfits : FitsFullPath (.setup (cstr ['/', 'l']) (cstr ['/', 'l'])) filePath)
    (hlen : content.length = 2 ^ 28) :
    SoundArchive (.setup (cstr ['/', 'l']) (cstr ['/', 'l'])) .upstream (.kept content)
        ⟨.archive, fid, .whole⟩ filePath
      ∧ (archiveDataPhase (.setup (cstr ['/', 'l']) (cstr ['/', 'l'])) .upstream (.kept content)
        ⟨.archive, fid, .whole⟩ filePath).out = .done 0 := by
  have hsize : content.length ≤ maxFileSize := by
    rw [hlen]
    decide +kernel
  have hlarge : content.length ≥ maxObjSizeLevel := by
    unfold maxObjSizeLevel
    omega
  have hphase : archiveDataPhase (.setup (cstr ['/', 'l']) (cstr ['/', 'l'])) .upstream
      (.kept content) ⟨.archive, fid, .whole⟩ filePath
        = ctArchiveDataBig (.setup (cstr ['/', 'l']) (cstr ['/', 'l'])) .upstream (.kept content) rel
          content 3 content.length ⟨.archive, fid, .whole⟩ := by
    rw [archiveDataPhase_of_fits hfits (objectName_below _ hbelow)]
    exact if_pos hlarge
  obtain ⟨hzero, hhonest, hbenign, -⟩ := storesBig_kept
    (.setup (cstr ['/', 'l']) (cstr ['/', 'l'])) .reader .empty rel hlen ⟨.archive, fid, .whole⟩
  rw [← hphase] at hzero hhonest
  exact ⟨⟨rfl, hsize, rfl, hhonest, fun _ => hbenign⟩, hzero⟩

/-- A restore to which nothing happens, with these answers to its download. -/
def RestoreDataEnv.served (gets : List GetAttempt) : RestoreDataEnv :=
  { (RestoreEnv.smooth []).data with gets := gets }

/-- A restore whose download goes through. -/
theorem ctRestoreData_served {gets : List GetAttempt} {data : GetObjectCallbackData}
    (hbelow : Below (cstr ['/', 'l']) (joinPath (cstr ['/', 'l']) filePath) rel)
    (hfits : FitsFullPath (.setup (cstr ['/', 'l']) (cstr ['/', 'l'])) filePath)
    (hget : (getS3Object .upstream rel gets).out = .done (0, data)) :
    (ctRestoreData (.setup (cstr ['/', 'l']) (cstr ['/', 'l'])) .upstream (.served gets)
      ⟨.restore, fid, .whole⟩ filePath).out = .done 0 := by
  have hname : objectName (.setup (cstr ['/', 'l']) (cstr ['/', 'l'])) [] filePath = some rel :=
    objectName_below _ hbelow
  have hprogress : (llapiHsmActionProgressEx 0 0 u64Max fun _ => 0).out = .done 0 := rfl
  unfold ctRestoreData
  show (llapiHsmActionProgressEx 0 0 u64Max (fun _ => 0) >>= _).out = _
  rw [Exec.bind_out_of_done hprogress]
  simp only [show (RestoreDataEnv.served gets).stack = [] from rfl,
    fullPathTarget_of_fits _ hfits, Exec.pure_bind, hname]
  rw [if_pos (show HsmExtent.whole.length = u64Max from rfl),
    if_pos (show HsmExtent.whole.offset = 0 from rfl)]
  show (getS3Object .upstream rel gets >>= _).out = _
  rw [Exec.bind_out_of_done hget]
  rfl

/-- A download in one range. -/
theorem getS3Object_smooth (name : CString) (hne : content ≠ [])
    (hlen : content.length < chunkSize) :
    ∃ data, (getS3Object .upstream name [.smooth content]).out = .done (0, data) := by
  have hannounced : announced 0 (.smooth content) = content.length := rfl
  have hok : (GetAttempt.smooth content).outcome .upstream = s3StatusOK := by
    simp [GetAttempt.outcome, GetAttempt.smooth, Piece.accepted, sysWrite]
  obtain ⟨data', hout, hlength, -, hstatus⟩ := @s3GetObject_out .upstream name 0 chunkSize
    (.smooth content) ⟨0, 0, 0, []⟩ fun _ => by
      rw [hannounced]
      exact Nat.ne_of_gt (List.length_pos_iff.mpr hne)
  rw [hok] at hstatus
  rw [show announced _ (GetAttempt.smooth content) = content.length from rfl] at hlength
  -- a response shorter than a range ends the loop
  have hloop : (getLoop .upstream name [.smooth content] 0 retryCount ⟨0, 0, 0, []⟩).out
      = .done { data' with totalLength := data'.totalLength + data'.contentLength } := by
    rw [getLoop, Exec.bind_out_of_done hout]
    simp only [hstatus, if_true, if_pos (show chunkSize ≠ data'.contentLength by omega),
      Exec.pure_out]
  refine ⟨{ data' with totalLength := data'.totalLength + data'.contentLength }, ?_⟩
  rw [getS3Object, Exec.bind_out_of_done hloop, if_neg (not_not_intro hstatus)]
  rfl

theorem ctRestoreData_smooth
    (hbelow : Below (cstr ['/', 'l']) (joinPath (cstr ['/', 'l']) filePath) rel)
    (hfits : FitsFullPath (.setup (cstr ['/', 'l']) (cstr ['/', 'l'])) filePath)
    (hne : content ≠ []) (hlen : content.length < chunkSize) :
    (ctRestoreData (.setup (cstr ['/', 'l']) (cstr ['/', 'l'])) .upstream
      (RestoreEnv.smooth content).data ⟨.restore, fid, .whole⟩ filePath).out = .done 0 := by
  obtain ⟨data, hget⟩ := getS3Object_smooth rel hne hlen
  exact ctRestoreData_served fid hbelow hfits hget

end Smooth

/-- The file at `/l/f` is archived and restored, and it is what it was. -/
def ThereAndBack (env : ArchiveEnv) (renv : RestoreDataEnv) : Prop :=
  (archiveDataPhase (.setup (cstr ['/', 'l']) (cstr ['/', 'l'])) .upstream env
      ⟨.archive, ⟨1, 2, 0⟩, .whole⟩ (cstr ['f'])).out = .done 0
    ∧ (ctRestoreData (.setup (cstr ['/', 'l']) (cstr ['/', 'l'])) .upstream renv
      ⟨.restore, ⟨1, 2, 0⟩, .whole⟩ (cstr ['f'])).out = .done 0
    ∧ (ctRestoreData (.setup (cstr ['/', 'l']) (cstr ['/', 'l'])) .upstream renv
      ⟨.restore, ⟨1, 2, 0⟩, .whole⟩ (cstr ['f'])).effect fileAct [] = env.content

/-- Two bytes, and 256 MiB that go to S3 in sixteen parts and come back in sixteen ranges; another
file is archived at `/l/g` before they are restored. -/
theorem round_trip_smooth :
    ThereAndBack (.smooth [1, 2]) (.served [.smooth [1, 2]])
      ∧ ThereAndBack (.kept (List.replicate (2 ^ 28) 1))
        (.served (fullGets .upstream (List.replicate (2 ^ 28) 1) 0 16)) := by
  have hf : Below (cstr ['/', 'l']) (joinPath (cstr ['/', 'l']) (cstr ['f'])) (cstr ['f']) := by
    exact ⟨by decide, by decide⟩
  have hg : Below (cstr ['/', 'l']) (joinPath (cstr ['/', 'l']) (cstr ['g'])) (cstr ['g']) := by
    exact ⟨by decide, by decide⟩
  have hfits : FitsFullPath (.setup (cstr ['/', 'l']) (cstr ['/', 'l'])) (cstr ['f']) := by decide
  have hruns : ∀ run ∈ [(⟨.smooth [3], ⟨.archive, ⟨1, 3, 0⟩, .whole⟩, cstr ['g']⟩ : ArchiveRun)],
      run.filePath ≠ cstr ['f'] ∧ ∃ rel', Below (cstr ['/', 'l'])
        (joinPath (cstr ['/', 'l']) run.filePath) rel' := by
    intro run hrun
    rw [List.mem_singleton.mp hrun]
    exact ⟨by decide, cstr ['g'], hg⟩
  -- what was archived at `/l/f` is there when the ranges are asked for
  have hback : ∀ {env : ArchiveEnv} {gets : List GetAttempt},
      SoundArchive (.setup (cstr ['/', 'l']) (cstr ['/', 'l'])) .upstream env
          ⟨.archive, ⟨1, 2, 0⟩, .whole⟩ (cstr ['f'])
        ∧ (archiveDataPhase (.setup (cstr ['/', 'l']) (cstr ['/', 'l'])) .upstream env
          ⟨.archive, ⟨1, 2, 0⟩, .whole⟩ (cstr ['f'])).out = .done 0 →
      ServedFrom .upstream env.content gets 0 →
      (∃ data, (getS3Object .upstream (cstr ['f']) gets).out = .done (0, data)) →
      ThereAndBack env (.served gets) := by
    rintro env gets ⟨hsound, hzero⟩ hserved ⟨data, hget⟩
    have hrestored := ctRestoreData_served ⟨1, 2, 0⟩ hf hfits hget
    refine ⟨hzero, hrestored, ?_⟩
    refine round_trip _ _ .reader .empty hf hsound hzero hruns (fun obj hobj => ?_) hrestored
    rw [archivesEffect_other hf hruns,
      archiveDataPhase_stores .reader (objectName_below _ hf) hsound hzero] at hobj
    cases hobj
    exact hserved
  constructor
  · have hsmall : [(1 : UInt8), 2].length < maxObjSizeLevel := by
      unfold maxObjSizeLevel
      decide
    exact hback (soundArchive_smooth ⟨1, 2, 0⟩ hf hfits hsmall)
      ⟨honestGet_smooth _ (List.cons_ne_nil _ _) chunkSize_gt, trivial⟩
      (getS3Object_smooth (cstr ['f']) (List.cons_ne_nil _ _) (by unfold chunkSize; decide))
  · have hlen : (List.replicate (2 ^ 28) (1 : UInt8)).length = 2 ^ 28 := List.length_replicate
    generalize List.replicate (2 ^ 28) (1 : UInt8) = content at hlen ⊢
    have hranges : content.length = 16 * chunkSize := by
      rw [hlen]
      unfold chunkSize
      decide
    exact hback (soundArchive_kept ⟨1, 2, 0⟩ hf hfits hlen)
      (servedAcross_fullGets (hranges.trans (Nat.zero_add _).symm) 0)
      (getS3Object_fullGets (cstr ['f']) hranges)

end Estuary
