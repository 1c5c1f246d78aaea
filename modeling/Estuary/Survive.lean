import Estuary.Download
import Estuary.Upload

/-!
# Estuary — which items the daemon survives

A worker that reaches an `assert(0)`, an `abort()` or undefined behaviour takes the daemon down with
every other item in flight. Five places can do so: the message of `ct_archive_check` for a file that
cannot be `fstat`ed, the `full_path` of an archive or a restore, the extent checks of
`ct_restore_data`, the data callback of the download, and the callbacks of the multipart upload. A
worker whose download is never answered, or never ends, is stuck. This module says exactly for which
answers of Lustre and S3 an item ends with a return code.

* **`ctArchive_returns_iff`** — an archive returns unless its `fstat` fails, its full path does not
  fit, or it gets to the parts of a large file and makes an attempt that is not tame;
* **`ctRestore_returns_iff`** — a restore returns unless its full path does not fit, or it gets to
  the download and has another extent than the whole file, or answers that are not tolerable;
* **`ctProcessItem_returns_iff`** — the two together, for an item of any action.
-/

namespace Estuary

open Engine

/-! ## The steps before the transfer -/

theorem last_answer_eq_zero_iff (rcs : Nat → Nat) (budget i : Nat) :
    rcs (i + resends (fun rc => rc != 0) rcs budget i) = 0
      ↔ ∃ j, i ≤ j ∧ j ≤ i + budget ∧ rcs j = 0 := by
  induction budget generalizing i with
  | zero =>
    rw [resends, Nat.add_zero]
    refine ⟨fun h => ⟨i, le_refl i, le_refl i, h⟩, ?_⟩
    rintro ⟨j, hij, hji, h⟩
    rwa [show i = j from by omega]
  | succ budget ih =>
    rw [resends]
    by_cases h : rcs i = 0
    · rw [if_neg (by simp [h]), Nat.add_zero]
      exact ⟨fun _ => ⟨i, le_refl i, by omega, h⟩, fun _ => h⟩
    · rw [if_pos (by simp [h])]
      rw [show i + (resends (fun rc => rc != 0) rcs budget (i + 1) + 1)
          = i + 1 + resends (fun rc => rc != 0) rcs budget (i + 1) from by omega, ih (i + 1)]
      constructor
      · rintro ⟨j, hij, hji, hj⟩
        exact ⟨j, by omega, by omega, hj⟩
      -- the acceptance is not answer `i`, so it is one of the resends'
      · rintro ⟨j, hij, hji, hj⟩
        have hne : j ≠ i := fun heq => h (heq ▸ hj)
        exact ⟨j, by omega, by omega, hj⟩

/-- A begin succeeds iff one of its calls does. -/
theorem beginErr_eq_zero_iff (rcs : Nat → Nat) :
    beginErr rcs = 0 ↔ ∃ j ≤ maxResend, rcs j = 0 := by
  have h := last_answer_eq_zero_iff rcs maxResend 0
  rw [Nat.zero_add] at h
  rw [beginErr, h]
  constructor
  · rintro ⟨j, -, hj, hz⟩
    exact ⟨j, by omega, hz⟩
  · rintro ⟨j, hj, hz⟩
    exact ⟨j, by omega, by omega, hz⟩

/-- The upload id the initiate loop ends with: the first one that arrives. -/
def firstId (inits : Nat → Option CString) : Nat → Nat → Option CString
  | 0, i => initialMultipartResponseCallback (inits i)
  | budget + 1, i =>
    (initialMultipartResponseCallback (inits i)).or (firstId inits budget (i + 1))

theorem initLoop_out (lib : LibS3) (name : CString) (inits : Nat → Option CString)
    (budget i : Nat) :
    (initLoop lib name inits budget i).out = .done (firstId inits budget i) := by
  induction budget generalizing i with
  | zero =>
    rw [initLoop, firstId]
    simp only [ite_self, Exec.emit_bind, Exec.pure_out]
  | succ budget ih =>
    rw [initLoop, firstId]
    cases h : initialMultipartResponseCallback (inits i) with
    | none =>
      simp only [if_true, lib.internalError_retryable, Exec.emit_bind, Option.none_or]
      exact ih (i + 1)
    | some uploadId =>
      have hok : lib.statusIsRetryable 0 = false := lib.ok_not_retryable
      simp only [reduceCtorEq, if_false, hok, Bool.false_eq_true, Exec.emit_bind, Exec.pure_out,
        Option.some_or]

theorem firstId_isSome_iff (inits : Nat → Option CString) (budget i : Nat) :
    firstId inits budget i ≠ none
      ↔ ∃ j, i ≤ j ∧ j ≤ i + budget ∧ initialMultipartResponseCallback (inits j) ≠ none := by
  induction budget generalizing i with
  | zero =>
    rw [firstId]
    refine ⟨fun h => ⟨i, le_refl i, le_refl i, h⟩, ?_⟩
    rintro ⟨j, hij, hji, h⟩
    rwa [show i = j from by omega]
  | succ budget ih =>
    rw [firstId]
    cases h : initialMultipartResponseCallback (inits i) with
    | none =>
      rw [Option.none_or, ih (i + 1)]
      constructor
      · rintro ⟨j, hij, hji, hj⟩
        exact ⟨j, by omega, by omega, hj⟩
      · rintro ⟨j, hij, hji, hj⟩
        have hne : j ≠ i := fun heq => hj (heq ▸ h)
        exact ⟨j, by omega, by omega, hj⟩
    | some uploadId =>
      simp only [Option.some_or, ne_eq, reduceCtorEq, not_false_iff, true_iff]
      exact ⟨i, le_refl i, by omega, by rw [h]; simp⟩

theorem begin_returns (rcs : Nat → Nat) : (ctBeginRestore rcs).Returns :=
  Exec.returns_of_done (beginEx_out false rcs)

theorem ctActionDone_returns (env : DoneEnv) (hcp retry : Bool) (ctRc : Int) :
    (ctActionDone env hcp retry ctRc).Returns :=
  Exec.returns_of_done (ctActionDone_out env hcp retry ctRc)

theorem progress_out (offset length total : Nat) (rcs : Nat → Nat) :
    ∃ err, (llapiHsmActionProgressEx offset length total rcs).out = .done err :=
  ⟨_, msgResend_out _ _ _ _ _⟩

theorem objectName_eq_none_iff (cfg : Config) (stack : List Char) (filePath : CString) :
    objectName cfg stack filePath = none
      ↔ ¬ cfg.pathPrefix.chars <+: (joinPath cfg.oMnt filePath).chars := by
  rw [← targetName_isSome_iff cfg.pathPrefix stack, targetName, ← objectName]
  simp

/-! ## Archive -/

/-- The archive gets to its `fstat`: every step before it succeeds. -/
structure ReachesStat (cfg : Config) (env : ArchiveEnv) : Prop where
  begins : ∃ j ≤ maxResend, env.beginRcs j = 0
  wet : cfg.oDryRun = false
  opened : 0 ≤ env.srcFd

/-- The archive gets to the full path of the file. -/
structure ReachesPath (cfg : Config) (env : ArchiveEnv) (hai : HsmActionItem) : Prop extends
    ReachesStat cfg env where
  stated : env.fstat.err = 0
  archivable : Archivable hai env.fstat
  admitted : env.fstat.size ≤ maxFileSize

/-- The archive gets to the part loop: the file is large, and an upload id arrives. -/
structure ReachesParts (cfg : Config) (env : ArchiveEnv) (hai : HsmActionItem)
    (filePath : CString) : Prop extends ReachesPath cfg env hai where
  large : maxObjSizeLevel ≤ env.fstat.size
  named : cfg.pathPrefix.chars <+: (joinPath cfg.oMnt filePath).chars
  striped : env.dataBig.stripeErr = 0
  initiated : ∃ j ≤ retryCount, initialMultipartResponseCallback (env.dataBig.inits j) ≠ none

/-- Every attempt an archive makes at a part is tame. -/
def PartsTame (lib : LibS3) (env : ArchiveEnv) : Prop :=
  ∀ chunk totalSeq, ctGetChunksize env.fstat.size = some (chunk, totalSeq) →
    ∀ a ∈ partsTries lib env.dataBig.parts totalSeq 1, Tame env.srcFd env.dataBig.etagsAllocated a

/-- What an archive needs to return: an `fstat` that succeeds, room for the full path, and tame
attempts at the parts of a large file, each only where the archive gets that far. -/
structure ArchiveTame (cfg : Config) (lib : LibS3) (env : ArchiveEnv) (hai : HsmActionItem)
    (filePath : CString) : Prop where
  stat : ReachesStat cfg env → env.fstat.err = 0
  path : ReachesPath cfg env hai → FitsFullPath cfg filePath
  parts : ReachesParts cfg env hai filePath → PartsTame lib env

theorem putLoop_returns (lib : LibS3) (name : CString) (length : Nat) (puts : Nat → PutAttempt)
    (budget i : Nat) (data : PutObjectCallbackData) :
    (putLoop lib name length puts budget i data).Returns := by
  rw [putLoop_eq_retryLoop]
  refine retryLoop_returns (fun _ _ => ?_) _ _ _
  exact Exec.returns_bind.mpr ⟨Exec.returns_emit _, fun _ _ => Exec.returns_pure _⟩

theorem commitLoop_returns (lib : LibS3) (name uploadId : CString)
    (commits : Nat → CommitAttempt) (budget i : Nat) (manager : UploadManager) :
    (commitLoop lib name uploadId commits budget i manager).Returns := by
  rw [commitLoop_eq_retryLoop]
  refine retryLoop_returns (fun _ _ => ?_) _ _ _
  exact Exec.returns_bind.mpr ⟨Exec.returns_emit _, fun _ _ => Exec.returns_pure _⟩

theorem progress_returns (offset length total : Nat) (rcs : Nat → Nat) :
    (llapiHsmActionProgressEx offset length total rcs).Returns :=
  Exec.returns_of_done (msgResend_out _ _ _ _ _)

theorem ctArchiveData_returns (lib : LibS3) (env : ArchiveDataEnv) (name : CString)
    (content : List UInt8) (stSize : Nat) (hai : HsmActionItem) :
    (ctArchiveData lib env name content stSize hai).Returns := by
  unfold ctArchiveData
  refine Exec.returns_ite (Exec.returns_pure _) (Exec.returns_bind.mpr ⟨progress_returns _ _ _ _, ?_⟩)
  refine fun _ _ => Exec.returns_ite (Exec.returns_pure _) ?_
  split
  · exact Exec.returns_pure _
  · refine Exec.returns_ite (Exec.returns_pure _) ?_
    refine Exec.returns_bind.mpr ⟨putLoop_returns _ _ _ _ _ _ _, ?_⟩
    exact fun _ _ => Exec.returns_ite (Exec.returns_pure _) (Exec.returns_pure _)

/-- The upload of an admitted file returns iff no upload id arrives or every attempt at a part is
tame. -/
theorem uploadPhase_returns_iff {cfg : Config} {lib : LibS3} {env : ArchiveDataBigEnv}
    {name : CString} {content : List UInt8} {fd : Int} {stSize chunk totalSeq : Nat} (length : Nat)
    (hpos : 0 < stSize) (hsize : stSize ≤ maxFileSize)
    (hplan : ctGetChunksize stSize = some (chunk, totalSeq)) :
    (uploadPhase cfg lib env name content fd stSize length).Returns
      ↔ ((∃ j ≤ retryCount, initialMultipartResponseCallback (env.inits j) ≠ none) →
          ∀ a ∈ partsTries lib env.parts totalSeq 1, Tame fd env.etagsAllocated a) := by
  obtain ⟨chunk', totalSeq', hplan', hchunk, hmax, -, hlast, -⟩ := ctGetChunksize_spec hpos hsize
  obtain ⟨rfl, rfl⟩ : chunk' = chunk ∧ totalSeq' = totalSeq := by
    rw [hplan] at hplan'
    cases hplan'
    exact ⟨rfl, rfl⟩
  have hinit := initLoop_out lib name env.inits retryCount 0
  have hsome : (∃ j ≤ retryCount, initialMultipartResponseCallback (env.inits j) ≠ none)
      ↔ firstId env.inits retryCount 0 ≠ none := by
    rw [firstId_isSome_iff]
    simp
  -- the parts are uploaded only under an upload id
  rw [hsome]
  simp only [uploadPhase, hplan]
  rw [Exec.returns_bind]
  simp only [Exec.returns_of_done hinit, true_and, hinit, Outcome.done.injEq, forall_eq']
  cases firstId env.inits retryCount 0 with
  | none => simp
  | some uploadId =>
    simp only [ne_eq, reduceCtorEq, not_false_iff, true_implies]
    rw [Exec.returns_bind, partsLoop_returns_iff cfg lib name uploadId content env.etagsAllocated fd
      stSize length env.parts hchunk hmax _ _ _ _ _ (by simp) (fun _ => hlast)]
    exact and_iff_left_of_imp fun _ _ _ => Exec.returns_pure _

theorem ctArchiveDataBig_returns_iff {cfg : Config} {lib : LibS3} {env : ArchiveDataBigEnv}
    {name : CString} {content : List UInt8} {fd : Int} {stSize chunk totalSeq : Nat}
    (hai : HsmActionItem) (hpos : 0 < stSize) (hsize : stSize ≤ maxFileSize)
    (hplan : ctGetChunksize stSize = some (chunk, totalSeq)) :
    (ctArchiveDataBig cfg lib env name content fd stSize hai).Returns
      ↔ (env.stripeErr = 0 →
          (∃ j ≤ retryCount, initialMultipartResponseCallback (env.inits j) ≠ none) →
          ∀ a ∈ partsTries lib env.parts totalSeq 1, Tame fd env.etagsAllocated a) := by
  unfold ctArchiveDataBig
  by_cases hstripe : env.stripeErr = 0
  swap
  · simp [hstripe]
  simp only [hstripe, ne_eq, not_true, if_false, true_implies]
  rw [Exec.returns_bind]
  obtain ⟨err, hout⟩ := progress_out hai.extent.offset 0
    (if hai.extent.length > u64Sub stSize hai.extent.offset then u64Sub stSize hai.extent.offset
      else hai.extent.length) env.progressRcs
  simp only [Exec.returns_of_done hout, true_and, hout, Outcome.done.injEq, forall_eq']
  rw [Exec.returns_bind, uploadPhase_returns_iff _ hpos hsize hplan]
  refine and_iff_left_of_imp fun _ r _ => ?_
  split
  · exact Exec.returns_pure _
  · refine Exec.returns_bind.mpr ⟨commitLoop_returns _ _ _ _ _ _ _, fun _ _ => ?_⟩
    exact Exec.returns_ite (Exec.returns_pure _) (Exec.returns_pure _)

section Tame

variable {cfg : Config} {lib : LibS3} {env : ArchiveEnv} {hai : HsmActionItem} {filePath : CString}

/-- An archive that does not get to its `fstat` needs nothing. -/
theorem ArchiveTame.of_not_stat (h : ¬ ReachesStat cfg env) :
    ArchiveTame cfg lib env hai filePath :=
  ⟨fun hstat => absurd hstat h, fun hpath => absurd hpath.toReachesStat h,
    fun hparts => absurd hparts.toReachesStat h⟩

theorem ArchiveTame.of_not_path (herr : env.fstat.err = 0) (h : ¬ ReachesPath cfg env hai) :
    ArchiveTame cfg lib env hai filePath :=
  ⟨fun _ => herr, fun hpath => absurd hpath h, fun hparts => absurd hparts.toReachesPath h⟩

theorem archiveTame_iff_parts (herr : env.fstat.err = 0) (hfits : FitsFullPath cfg filePath) :
    ArchiveTame cfg lib env hai filePath
      ↔ (ReachesParts cfg env hai filePath → PartsTame lib env) :=
  ⟨fun h => h.parts, fun h => ⟨fun _ => herr, fun _ => hfits, h⟩⟩

end Tame

theorem ctArchiveBody_returns_iff (cfg : Config) (lib : LibS3) (env : ArchiveEnv)
    (hai : HsmActionItem) (filePath : CString) :
    (ctArchiveBody cfg lib env hai filePath (beginErr env.beginRcs)).Returns
      ↔ ArchiveTame cfg lib env hai filePath := by
  unfold ctArchiveBody
  -- an early exit is a step that everything behind it demands to succeed
  by_cases hbegin : beginErr env.beginRcs = 0
  swap
  · have hno : ¬ ReachesStat cfg env :=
      fun h => absurd ((beginErr_eq_zero_iff _).mpr h.begins) hbegin
    rw [if_pos hbegin]
    exact iff_of_true (Exec.returns_pure _) (.of_not_stat hno)
  rw [if_neg (not_not_intro hbegin)]
  by_cases hdry : cfg.oDryRun = true
  · have hno : ¬ ReachesStat cfg env := fun h => absurd hdry (by rw [h.wet]; decide)
    rw [if_pos hdry]
    exact iff_of_true (Exec.returns_pure _) (.of_not_stat hno)
  rw [if_neg hdry]
  by_cases hfd : env.srcFd < 0
  · have hno : ¬ ReachesStat cfg env := fun h => absurd h.opened (by omega)
    rw [if_pos hfd]
    exact iff_of_true (Exec.returns_pure _) (.of_not_stat hno)
  rw [if_neg hfd]
  have hstat : ReachesStat cfg env :=
    ⟨(beginErr_eq_zero_iff _).mp hbegin, by simpa using hdry, by omega⟩
  rcases ctArchiveCheck_cases hai env.fstat with ⟨herr, hcheck⟩ | ⟨herr, harch, hcheck⟩
    | ⟨herr, harch, hcheck⟩
  · rw [hcheck, Exec.die_bind]
    exact iff_of_false (Exec.not_returns_die _) fun h => herr (h.stat hstat)
  swap
  · rw [hcheck, Exec.pure_bind, if_pos rfl]
    exact iff_of_true (Exec.returns_pure _) (.of_not_path herr fun h => harch h.archivable)
  simp only [hcheck, Exec.pure_bind, Bool.true_eq_false, if_false]
  by_cases hbig : env.fstat.size > maxFileSize
  · rw [if_pos hbig]
    exact iff_of_true (Exec.returns_pure _) (.of_not_path herr fun h => absurd h.admitted (by omega))
  rw [if_neg hbig]
  have hpath : ReachesPath cfg env hai := ⟨hstat, herr, harch, by omega⟩
  by_cases hfits : FitsFullPath cfg filePath
  swap
  · rw [fullPathTarget_of_long _ hfits, Exec.die_bind]
    exact iff_of_false (Exec.not_returns_die _) fun h => hfits (h.path hpath)
  simp only [fullPathTarget_of_fits _ hfits, Exec.pure_bind]
  rw [archiveTame_iff_parts herr hfits]
  cases hname : objectName cfg env.stack filePath with
  | none =>
    refine iff_of_true (Exec.returns_pure _) fun h => ?_
    exact absurd h.named ((objectName_eq_none_iff _ _ _).mp hname)
  | some name =>
    have htail : ∀ (e : Event) (rc : Int), (Exec.emit e >>= fun _ => pure rc : Proc Int).Returns :=
      fun e rc => Exec.returns_bind.mpr ⟨Exec.returns_emit _, fun _ _ => Exec.returns_pure _⟩
    by_cases hlevel : env.fstat.size ≥ maxObjSizeLevel
    swap
    · simp only [hlevel, if_false]
      refine iff_of_true (Exec.returns_bind.mpr ⟨ctArchiveData_returns _ _ _ _ _ _, fun rc _ => ?_⟩) ?_
      · exact htail _ rc
      · exact fun h => absurd h.large hlevel
    have hpos : 0 < env.fstat.size := by
      have : 0 < maxObjSizeLevel := by
        unfold maxObjSizeLevel
        decide
      omega
    obtain ⟨chunk, totalSeq, hplan, -⟩ := ctGetChunksize_spec hpos (by omega)
    simp only [hlevel, if_true]
    rw [Exec.returns_bind, ctArchiveDataBig_returns_iff hai hpos (by omega) hplan,
      and_iff_left fun rc _ => htail _ rc]
    have hstarts : cfg.pathPrefix.chars <+: (joinPath cfg.oMnt filePath).chars := by
      by_contra h
      rw [(objectName_eq_none_iff _ _ _).mpr h] at hname
      cases hname
    constructor
    · intro h hreach chunk' totalSeq' hplan'
      rw [hplan] at hplan'
      cases hplan'
      exact h hreach.striped hreach.initiated
    · intro h hstripe hinit
      exact h ⟨hpath, hlevel, hstarts, hstripe, hinit⟩ chunk totalSeq hplan

/-- **Which archives return.** -/
theorem ctArchive_returns_iff (cfg : Config) (lib : LibS3) (env : ArchiveEnv) (hai : HsmActionItem)
    (filePath : CString) :
    (ctArchive cfg lib env hai filePath).Returns
      ↔ ArchiveTame cfg lib env hai filePath := by
  have hbegin : (ctBeginRestore env.beginRcs).out = .done (beginErr env.beginRcs) :=
    beginEx_out false _
  rw [ctArchive, Exec.returns_bind]
  simp only [begin_returns, true_and, hbegin, Outcome.done.injEq, forall_eq']
  rw [Exec.returns_bind, ctArchiveBody_returns_iff]
  refine and_iff_left_of_imp fun _ rc _ => Exec.returns_bind.mpr ⟨Exec.returns_emit _, fun _ _ => ?_⟩
  exact Exec.returns_bind.mpr ⟨ctActionDone_returns _ _ _ _, fun _ _ => Exec.returns_pure _⟩

/-! ## Restore -/

/-- The restore gets to the full path of the file: every step before it succeeds. -/
structure ReachesTarget (cfg : Config) (env : RestoreEnv) : Prop where
  indexed : env.mdtIndexErr = 0
  begins : ∃ j ≤ maxResend, env.beginRcs j = 0
  identified : env.dfidErr = 0
  wet : cfg.oDryRun = false
  opened : 0 ≤ env.dstFd
  stated : env.data.fstat.err = 0
  regular : env.data.fstat.isReg = true

/-- The restore gets to the extent checks. -/
structure ReachesDownload (cfg : Config) (env : RestoreEnv) (filePath : CString) : Prop extends
    ReachesTarget cfg env where
  named : cfg.pathPrefix.chars <+: (joinPath cfg.oMnt filePath).chars

/-- The extent is the whole file, every request of the download is answered, and none with data
while the content length in force is 0. -/
def DownloadTame (lib : LibS3) (env : RestoreEnv) (hai : HsmActionItem) : Prop :=
  (hai.extent.offset = 0 ∧ hai.extent.length = u64Max)
    ∧ Tolerable lib env.data.gets retryCount 0

/-- What a restore needs to return: room for the full path, and a download that can be taken. -/
structure RestoreTame (cfg : Config) (lib : LibS3) (env : RestoreEnv) (hai : HsmActionItem)
    (filePath : CString) : Prop where
  path : ReachesTarget cfg env → FitsFullPath cfg filePath
  download : ReachesDownload cfg env filePath → DownloadTame lib env hai

/-- A restore that does not get to the full path needs nothing. -/
theorem RestoreTame.of_not_target {cfg : Config} {lib : LibS3} {env : RestoreEnv}
    {hai : HsmActionItem} {filePath : CString} (h : ¬ ReachesTarget cfg env) :
    RestoreTame cfg lib env hai filePath :=
  ⟨fun htarget => absurd htarget h, fun hdownload => absurd hdownload.toReachesTarget h⟩

theorem ctRestoreData_returns_iff (cfg : Config) (lib : LibS3) (env : RestoreDataEnv)
    (hai : HsmActionItem) (filePath : CString) :
    (ctRestoreData cfg lib env hai filePath).Returns
      ↔ (env.fstat.err = 0 → env.fstat.isReg = true → FitsFullPath cfg filePath
          ∧ (cfg.pathPrefix.chars <+: (joinPath cfg.oMnt filePath).chars →
            (hai.extent.offset = 0 ∧ hai.extent.length = u64Max)
              ∧ Tolerable lib env.gets retryCount 0)) := by
  unfold ctRestoreData
  by_cases hstat : env.fstat.err = 0
  swap
  · simp [hstat]
  by_cases hreg : env.fstat.isReg = true
  swap
  · simp [hstat, hreg]
  rw [if_neg (not_not_intro hstat), if_neg (by simp [hreg]), Exec.returns_bind]
  obtain ⟨err, hout⟩ :=
    progress_out hai.extent.offset 0 hai.extent.length env.progressRcs
  simp only [Exec.returns_of_done hout, true_and, hout, Outcome.done.injEq, forall_eq', hstat, hreg,
    true_implies]
  by_cases hfits : FitsFullPath cfg filePath
  swap
  · rw [fullPathTarget_of_long _ hfits, Exec.die_bind]
    exact iff_of_false (Exec.not_returns_die _) fun h => hfits h.1
  simp only [fullPathTarget_of_fits _ hfits, Exec.pure_bind, hfits, true_and]
  cases hname : objectName cfg env.stack filePath with
  | none =>
    refine iff_of_true (Exec.returns_pure _) fun h => ?_
    exact absurd h ((objectName_eq_none_iff _ _ _).mp hname)
  | some name =>
    have hstarts : cfg.pathPrefix.chars <+: (joinPath cfg.oMnt filePath).chars := by
      by_contra h
      rw [(objectName_eq_none_iff _ _ _).mpr h] at hname
      cases hname
    simp only [hstarts, true_implies]
    by_cases hlen : hai.extent.length = u64Max
    swap
    · simp [hlen]
    by_cases hoff : hai.extent.offset = 0
    swap
    · simp [hlen, hoff]
    simp only [hlen, hoff, if_true, true_and]
    rw [Exec.returns_bind, getS3Object_returns_iff]
    refine and_iff_left_of_imp fun _ r _ => Exec.returns_bind.mpr ⟨Exec.returns_emit _, fun _ _ => ?_⟩
    refine Exec.returns_ite (Exec.returns_pure _) (Exec.returns_ite ?_ (Exec.returns_pure _))
    exact Exec.returns_bind.mpr ⟨progress_returns _ _ _ _, fun _ _ => Exec.returns_pure _⟩

theorem ctRestoreBody_returns_iff (cfg : Config) (lib : LibS3) (env : RestoreEnv)
    (hai : HsmActionItem) (filePath : CString) (hmdt : env.mdtIndexErr = 0) :
    (ctRestoreBody cfg lib env hai filePath (beginErr env.beginRcs)).Returns
      ↔ RestoreTame cfg lib env hai filePath := by
  unfold ctRestoreBody
  by_cases hbegin : beginErr env.beginRcs = 0
  swap
  · have hno : ¬ ReachesTarget cfg env :=
      fun h => absurd ((beginErr_eq_zero_iff _).mpr h.begins) hbegin
    rw [if_pos hbegin]
    exact iff_of_true (Exec.returns_pure _) (.of_not_target hno)
  rw [if_neg (not_not_intro hbegin)]
  by_cases hdfid : env.dfidErr = 0
  swap
  · rw [if_pos hdfid]
    exact iff_of_true (Exec.returns_pure _) (.of_not_target fun h => hdfid h.identified)
  rw [if_neg (not_not_intro hdfid)]
  by_cases hdry : cfg.oDryRun = true
  · have hno : ¬ ReachesTarget cfg env := fun h => absurd hdry (by rw [h.wet]; decide)
    rw [if_pos hdry]
    exact iff_of_true (Exec.returns_pure _) (.of_not_target hno)
  rw [if_neg hdry]
  by_cases hfd : env.dstFd < 0
  · have hno : ¬ ReachesTarget cfg env := fun h => absurd h.opened (by omega)
    rw [if_pos hfd]
    exact iff_of_true (Exec.returns_pure _) (.of_not_target hno)
  rw [if_neg hfd, Exec.returns_bind, ctRestoreData_returns_iff]
  rw [and_iff_left fun rc _ => Exec.returns_ite
    (Exec.returns_bind.mpr ⟨Exec.returns_emit _, fun _ _ => Exec.returns_pure _⟩) (Exec.returns_pure _)]
  constructor
  · exact fun h => ⟨fun hreach => (h hreach.stated hreach.regular).1,
      fun hreach => (h hreach.stated hreach.regular).2 hreach.named⟩
  · intro h hstat hreg
    have htarget : ReachesTarget cfg env :=
      ⟨hmdt, (beginErr_eq_zero_iff _).mp hbegin, hdfid, by simpa using hdry, by omega, hstat, hreg⟩
    exact ⟨h.path htarget, fun hstarts => h.download ⟨htarget, hstarts⟩⟩

/-- **Which restores return.** -/
theorem ctRestore_returns_iff (cfg : Config) (lib : LibS3) (env : RestoreEnv) (hai : HsmActionItem)
    (filePath : CString) :
    (ctRestore cfg lib env hai filePath).Returns
      ↔ RestoreTame cfg lib env hai filePath := by
  unfold ctRestore
  by_cases hmdt : env.mdtIndexErr = 0
  swap
  · rw [if_pos hmdt]
    exact iff_of_true (Exec.returns_pure _) (.of_not_target fun h => hmdt h.indexed)
  have hbegin : (ctBeginRestore env.beginRcs).out = .done (beginErr env.beginRcs) :=
    beginEx_out false _
  rw [if_neg (not_not_intro hmdt), Exec.returns_bind]
  simp only [begin_returns, true_and, hbegin, Outcome.done.injEq, forall_eq']
  rw [Exec.returns_bind, ctRestoreBody_returns_iff _ _ _ _ _ hmdt]
  refine and_iff_left_of_imp fun _ r _ => ?_
  exact Exec.returns_bind.mpr ⟨ctActionDone_returns _ _ _ _, fun _ _ => Exec.returns_pure _⟩

/-! ## Any item -/

/-- The path buffer as the operation of an item finds it. -/
def pathGiven (cfg : Config) (env : ItemEnv) : PathBuf :=
  if cfg.oVerbose ≥ llapiMsgInfo ∨ cfg.oDryRun = true then .fid2path env.path
  else .unset env.memory

/-- **Which items end with a return code.** The item gets no path, or its operation stops before the
data transfer, or every answer of the transfer is one the callbacks and checks can take. -/
theorem ctProcessItem_returns_iff (cfg : Config) (lib : LibS3) (env : ItemEnv) (hai : HsmActionItem) :
    (ctProcessItem cfg lib env hai).Returns
      ↔ ((cfg.oVerbose ≥ llapiMsgInfo ∨ cfg.oDryRun = true → env.fid2pathErr = 0) →
        (hai.action = .archive → ArchiveTame cfg lib env.archive hai (pathGiven cfg env).read)
        ∧ (hai.action = .restore →
          RestoreTame cfg lib env.restore hai (pathGiven cfg env).read)) := by
  have hdispatch : ∀ file, (hai.action = .archive ∨ hai.action = .restore) →
      ((dispatchAction cfg lib env hai file).Returns
        ↔ (hai.action = .archive → ArchiveTame cfg lib env.archive hai file.read)
          ∧ (hai.action = .restore → RestoreTame cfg lib env.restore hai file.read)) := by
    intro file hact
    rcases hact with hact | hact
    · simp only [dispatchAction, hact, Exec.returns_bind, Exec.returns_emit, true_and, reduceCtorEq,
        false_implies, and_true, Exec.emit_out, forall_const]
      exact ctArchive_returns_iff _ _ _ _ _
    · simp only [dispatchAction, hact, Exec.returns_bind, Exec.returns_emit, true_and, reduceCtorEq,
        false_implies, Exec.emit_out, forall_const]
      exact ctRestore_returns_iff _ _ _ _ _
  unfold ctProcessItem pathGiven
  by_cases hact : hai.action = .archive ∨ hai.action = .restore
  swap
  · have hother : hai.action ≠ .archive ∧ hai.action ≠ .restore := by tauto
    rw [if_pos hother]
    refine iff_of_true (Exec.returns_bind.mpr ⟨ctActionDone_returns _ _ _ _, fun _ _ => ?_⟩) fun _ => ?_
    · exact Exec.returns_pure _
    · exact ⟨fun h => absurd h hother.1, fun h => absurd h hother.2⟩
  rw [if_neg (by tauto)]
  by_cases hpath : cfg.oVerbose ≥ llapiMsgInfo ∨ cfg.oDryRun = true
  swap
  · rw [if_neg hpath, if_neg hpath, hdispatch _ hact]
    exact ⟨fun h _ => h, fun h => h fun hp => absurd hp hpath⟩
  rw [if_pos hpath, if_pos hpath, Exec.returns_bind]
  simp only [Exec.returns_emit, true_and, Exec.emit_out, forall_const]
  by_cases herr : env.fid2pathErr = 0
  swap
  · rw [if_pos herr]
    exact iff_of_true (Exec.returns_pure _) fun h => absurd (h hpath) herr
  -- the path was looked up, and the item is dispatched
  rw [if_neg (not_not_intro herr), hdispatch _ hact]
  exact ⟨fun h _ => h, fun h => h fun _ => herr⟩

/-- A response without a content length ends the daemon, and so does a restore of a part of a
file. -/
theorem restore_kills_daemon :
    ¬ (ctProcessItem (.setup (cstr ['/', 'l']) (cstr ['/', 'l'])) .upstream
        { ItemEnv.smooth (cstr ['f']) [] with
          restore := { RestoreEnv.smooth [] with
            data := { (RestoreEnv.smooth []).data with
              gets := [⟨some ⟨0, none⟩, [⟨[1, 2], .none⟩], s3StatusOK⟩] } } }
        ⟨.restore, ⟨1, 1, 0⟩, .whole⟩).Returns
      ∧ ¬ (ctProcessItem (.setup (cstr ['/', 'l']) (cstr ['/', 'l'])) .upstream
        (.smooth (cstr ['f']) [1, 2]) ⟨.restore, ⟨1, 1, 0⟩, ⟨0, 1, by decide, by decide⟩⟩).Returns := by
  constructor
  · exact fun h => h.alive .abortCalled (by decide +kernel)
  · exact fun h => h.alive .assertFailed (by decide +kernel)

end Estuary
