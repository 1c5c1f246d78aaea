import Estuary.Report

/-!
# Estuary — the verbosity option

`--verbose` and `--quiet` are meant to steer the log. In `ct_process_item` the option also guards
the block that asks `llapi_fid2path` for the file's path, and that path is what the object name
is computed from.

* **`ctArchive_oVerbose`**, **`ctRestore_oVerbose`** — the operations do not read the option;
* **`ctProcessItem_quiet`** — below the guard, the path buffer is handed over as it was found;
* **`verbosityNeutral_iff`** — so an item is treated alike under two verbosities, with the path
  `llapi_fid2path` gave, exactly when both are at least `LLAPI_MSG_INFO`.
-/

namespace Estuary

open Engine

/-- What an item shows of itself: the S3 requests and the error value it reports. -/
def Event.isObserved : Event → Bool
  | .putObject _ _ _ _ _ => true
  | .initiateMultipart _ _ => true
  | .uploadPart _ _ _ _ _ _ _ => true
  | .completeMultipart _ _ _ _ _ _ => true
  | .getObject _ _ _ _ => true
  | .deleteObject _ _ => true
  | .actionDone _ => true
  | _ => false

/-- Under the verbosities `v` and `w` an item makes the same S3 requests (on the same object)
and reports the same error value, and the path its operation gets is the one of
`llapi_fid2path`. -/
def VerbosityNeutral (cfg : Config) (lib : LibS3) (env : ItemEnv) (hai : HsmActionItem)
    (v w : Int) : Prop :=
  (ctProcessItem { cfg with oVerbose := v } lib env hai).log.filter Event.isObserved
      = (ctProcessItem { cfg with oVerbose := w } lib env hai).log.filter Event.isObserved
    ∧ ∀ u ∈ [v, w], ∀ action path,
        .handed action path ∈ (ctProcessItem { cfg with oVerbose := u } lib env hai).log →
          path = .fid2path env.path

/-! ## The option is read in one place -/

section Read

variable (cfg : Config) (lib : LibS3) (v : Int)

theorem partLoop_oVerbose (name uploadId : CString) (content : List UInt8)
    (etagsAllocated : Bool) (length chunk seq : Nat) (partContentLength : Int)
    (attempts : Nat → PartAttempt) (budget i : Nat) (st : PartState) :
    partLoop { cfg with oVerbose := v } lib name uploadId content etagsAllocated length chunk seq
        partContentLength attempts budget i st
      = partLoop cfg lib name uploadId content etagsAllocated length chunk seq
        partContentLength attempts budget i st := by
  rw [partLoop_eq_retryLoop, partLoop_eq_retryLoop]
  rfl

theorem partsLoop_oVerbose (name uploadId : CString) (content : List UInt8)
    (etagsAllocated : Bool) (fd : Int) (stSize length chunk : Nat)
    (parts : Nat → Nat → PartAttempt) (rounds seq contentLength : Nat)
    (manager : UploadManager) (lastReportTime : Nat) :
    partsLoop { cfg with oVerbose := v } lib name uploadId content etagsAllocated fd stSize length
        chunk parts rounds seq contentLength manager lastReportTime
      = partsLoop cfg lib name uploadId content etagsAllocated fd stSize length chunk parts rounds
        seq contentLength manager lastReportTime := by
  induction rounds generalizing seq contentLength manager lastReportTime with
  | zero => rfl
  | succ rounds ih =>
    rw [partsLoop, partsLoop]
    simp only [ih, partLoop_oVerbose]

theorem fullPathTarget_oVerbose (stack : List Char) (filePath : CString) :
    fullPathTarget { cfg with oVerbose := v } stack filePath
      = fullPathTarget cfg stack filePath := rfl

theorem ctArchive_oVerbose (env : ArchiveEnv) (hai : HsmActionItem) (filePath : CString) :
    ctArchive { cfg with oVerbose := v } lib env hai filePath
      = ctArchive cfg lib env hai filePath := by
  simp only [ctArchive, ctArchiveBody, ctArchiveDataBig, uploadPhase, partsLoop_oVerbose,
    fullPathTarget_oVerbose]

theorem ctRestore_oVerbose (env : RestoreEnv) (hai : HsmActionItem) (filePath : CString) :
    ctRestore { cfg with oVerbose := v } lib env hai filePath
      = ctRestore cfg lib env hai filePath := rfl

theorem dispatchAction_oVerbose (env : ItemEnv) {hai : HsmActionItem} (file : PathBuf)
    (hact : hai.action = .archive ∨ hai.action = .restore) :
    dispatchAction { cfg with oVerbose := v } lib env hai file
      = dispatchAction cfg lib env hai file := by
  rcases hact with hact | hact
  · simp only [dispatchAction, hact, ctArchive_oVerbose]
  · simp only [dispatchAction, hact, ctRestore_oVerbose]

end Read

/-! ## Both sides of the guard -/

section Guard

variable {cfg : Config} {lib : LibS3} {env : ItemEnv} {hai : HsmActionItem} {v : Int}

/-- From `LLAPI_MSG_INFO` on, the path is asked for. -/
theorem ctProcessItem_loud (hact : hai.action = .archive ∨ hai.action = .restore)
    (hv : llapiMsgInfo ≤ v) :
    ctProcessItem { cfg with oVerbose := v } lib env hai
      = (do
          Exec.emit (.fid2path env.fid2pathErr)
          if env.fid2pathErr ≠ 0 then pure (-(env.fid2pathErr : Int))
          else dispatchAction cfg lib env hai (.fid2path env.path)) := by
  have hguard : ¬ (hai.action ≠ .archive ∧ hai.action ≠ .restore) := by tauto
  have hloud : v ≥ llapiMsgInfo ∨ cfg.oDryRun = true := Or.inl hv
  simp only [ctProcessItem, hguard, if_false, hloud, if_true, dispatchAction_oVerbose _ _ _ _ _ hact]

/-- Below it, outside a dry run, the operation gets the buffer as it was found. -/
theorem ctProcessItem_quiet (hdry : cfg.oDryRun = false)
    (hact : hai.action = .archive ∨ hai.action = .restore) (hv : v < llapiMsgInfo) :
    ctProcessItem { cfg with oVerbose := v } lib env hai
      = dispatchAction cfg lib env hai (.unset env.memory) := by
  have hguard : ¬ (hai.action ≠ .archive ∧ hai.action ≠ .restore) := by tauto
  have hquiet : ¬ (v ≥ llapiMsgInfo ∨ cfg.oDryRun = true) := by
    rw [hdry]
    simpa using hv
  simp only [ctProcessItem, hguard, if_false, hquiet, dispatchAction_oVerbose _ _ _ _ _ hact]

end Guard

/-! ## The path that is handed over -/

/-- Not the start of an operation. -/
def Event.isInner (e : Event) : Prop := ∀ action path, e ≠ .handed action path

theorem isInner_of_isTransfer {e : Event} (h : e.isTransfer = true) : e.isInner := by
  rintro action path rfl
  cases h

theorem inner_begin (rcs : Nat → Nat) : (ctBeginRestore rcs).Logs Event.isInner := by
  intro e he
  obtain ⟨err, rfl⟩ := beginEx_log_cases he
  exact fun _ _ h => by cases h

theorem inner_ctActionDone (env : DoneEnv) (hcp retry : Bool) (ctRc : Int) :
    (ctActionDone env hcp retry ctRc).Logs Event.isInner :=
  logs_ctActionDone (fun _ _ h => by cases h) (fun _ _ _ _ h => by cases h)
    (fun _ _ _ _ _ h => by cases h) env hcp retry

theorem inner_ctArchive (cfg : Config) (lib : LibS3) (env : ArchiveEnv) (hai : HsmActionItem)
    (filePath : CString) : (ctArchive cfg lib env hai filePath).Logs Event.isInner := by
  refine (inner_begin _).bind fun err _ => ?_
  have hbody : (ctArchiveBody cfg lib env hai filePath err).Logs Event.isInner :=
    fun e he => isInner_of_isTransfer (moves_ctArchiveBody _ _ _ _ _ _ e he)
  refine hbody.bind fun rc _ => ?_
  have hmajor : (Exec.emit .errMajor : Proc Unit).Logs Event.isInner := by
    intro e he
    rw [List.mem_singleton.mp he]
    exact fun _ _ h => by cases h
  exact hmajor.bind fun _ _ => (inner_ctActionDone _ _ _ _).bind fun _ _ => Exec.logs_pure _ _

theorem inner_ctRestore (cfg : Config) (lib : LibS3) (env : RestoreEnv) (hai : HsmActionItem)
    (filePath : CString) : (ctRestore cfg lib env hai filePath).Logs Event.isInner := by
  unfold ctRestore
  split
  · exact Exec.logs_pure _ _
  refine (inner_begin _).bind fun err _ => ?_
  have hbody : (ctRestoreBody cfg lib env hai filePath err).Logs Event.isInner :=
    fun e he => isInner_of_isTransfer (moves_ctRestoreBody _ _ _ _ _ _ e he)
  exact hbody.bind fun _ _ => (inner_ctActionDone _ _ _ _).bind fun _ _ => Exec.logs_pure _ _

/-- An operation is started once, with the buffer of `ct_process_item`. -/
theorem handed_mem_dispatchAction_iff {cfg : Config} {lib : LibS3} {env : ItemEnv}
    {hai : HsmActionItem} {file path : PathBuf} {action : HsmAction}
    (hact : hai.action = .archive ∨ hai.action = .restore) :
    .handed action path ∈ (dispatchAction cfg lib env hai file).log
      ↔ action = hai.action ∧ path = file := by
  rcases hact with hact | hact
  · simp only [dispatchAction, hact, Exec.emit_bind, List.mem_cons, Event.handed.injEq,
      or_iff_left_iff_imp]
    exact fun h => absurd rfl (inner_ctArchive _ _ _ _ _ _ h action path)
  · simp only [dispatchAction, hact, Exec.emit_bind, List.mem_cons, Event.handed.injEq,
      or_iff_left_iff_imp]
    exact fun h => absurd rfl (inner_ctRestore _ _ _ _ _ _ h action path)

/-- The path `llapi_fid2path` gave is handed over from `LLAPI_MSG_INFO` on, and only then. -/
theorem handed_path_iff {cfg : Config} {lib : LibS3} {env : ItemEnv} {hai : HsmActionItem}
    {v : Int} (hdry : cfg.oDryRun = false)
    (hact : hai.action = .archive ∨ hai.action = .restore) :
    (∀ action path, .handed action path ∈ (ctProcessItem { cfg with oVerbose := v } lib env hai).log
        → path = .fid2path env.path) ↔ llapiMsgInfo ≤ v := by
  constructor
  · intro h
    by_contra hv
    have hmem : .handed hai.action (.unset env.memory)
        ∈ (ctProcessItem { cfg with oVerbose := v } lib env hai).log := by
      rw [ctProcessItem_quiet hdry hact (by omega)]
      exact (handed_mem_dispatchAction_iff hact).mpr ⟨rfl, rfl⟩
    cases h _ _ hmem
  · intro hv action path hmem
    rw [ctProcessItem_loud hact hv, Exec.emit_bind] at hmem
    have hmem : .handed action path ∈ (if env.fid2pathErr ≠ 0 then pure (-(env.fid2pathErr : Int))
        else dispatchAction cfg lib env hai (.fid2path env.path) : Proc Int).log := by
      simpa using hmem
    split at hmem
    · simp at hmem
    · exact ((handed_mem_dispatchAction_iff hact).mp hmem).2

/-- **When the verbosity does not matter.** -/
theorem verbosityNeutral_iff (cfg : Config) (lib : LibS3) (env : ItemEnv) (hai : HsmActionItem)
    (v w : Int) (hdry : cfg.oDryRun = false)
    (hact : hai.action = .archive ∨ hai.action = .restore) :
    VerbosityNeutral cfg lib env hai v w ↔ llapiMsgInfo ≤ v ∧ llapiMsgInfo ≤ w := by
  unfold VerbosityNeutral
  constructor
  · rintro ⟨-, hpath⟩
    exact ⟨(handed_path_iff hdry hact).mp (hpath v (by simp)),
      (handed_path_iff hdry hact).mp (hpath w (by simp))⟩
  · rintro ⟨hv, hw⟩
    refine ⟨by rw [ctProcessItem_loud hact hv, ctProcessItem_loud hact hw], fun u hu => ?_⟩
    have hu : llapiMsgInfo ≤ u := by
      rcases List.mem_cons.mp hu with rfl | hu
      · exact hv
      · rwa [List.mem_singleton.mp hu]
    exact (handed_path_iff hdry hact).mpr hu

/-- An archive at the default verbosity and one above it. -/
theorem verbosityNeutral_default :
    llapiMsgInfo ≤ 6 ∧ VerbosityNeutral (.setup (cstr ['/', 'l']) (cstr ['/', 'l'])) .upstream
      (.smooth (cstr ['f']) [1, 2]) ⟨.archive, ⟨1, 1, 0⟩, .whole⟩ 5 6 :=
  ⟨by decide, (verbosityNeutral_iff _ _ _ _ 5 6 rfl (Or.inl rfl)).mpr ⟨by decide, by decide⟩⟩

/-- With `--quiet` the file `f` is stored under the name the stack held before, `g`. -/
theorem quiet_archives_other_object :
    (ctProcessItem { Config.setup (cstr ['/', 'l']) (cstr ['/', 'l']) with oVerbose := 5 } .upstream
        { ItemEnv.smooth (cstr ['f']) [1, 2] with memory := cstr ['g'] }
        ⟨.archive, ⟨1, 1, 0⟩, .whole⟩).log.filter Event.isObserved
        = [.putObject (cstr ['f']) 2 [1, 2] 0 true, .actionDone 0]
      ∧ (ctProcessItem { Config.setup (cstr ['/', 'l']) (cstr ['/', 'l']) with oVerbose := 4 }
        .upstream { ItemEnv.smooth (cstr ['f']) [1, 2] with memory := cstr ['g'] }
        ⟨.archive, ⟨1, 1, 0⟩, .whole⟩).log.filter Event.isObserved
        = [.putObject (cstr ['g']) 2 [1, 2] 0 true, .actionDone 0]
      ∧ ¬ VerbosityNeutral (.setup (cstr ['/', 'l']) (cstr ['/', 'l'])) .upstream
        { ItemEnv.smooth (cstr ['f']) [1, 2] with memory := cstr ['g'] }
        ⟨.archive, ⟨1, 1, 0⟩, .whole⟩ 5 4 := by
  refine ⟨by decide +kernel, by decide +kernel, ?_⟩
  rintro ⟨hsame, -⟩
  revert hsame
  decide +kernel

end Estuary
