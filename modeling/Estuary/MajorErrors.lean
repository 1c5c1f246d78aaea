import Estuary.Dispatch
import Estuary.Engine.Run
import Estuary.Engine.Threads
import Estuary.Spec.Crew
import Estuary.Survive

/-!
# Estuary — the counter of major errors

`err_major` is what `--abort-on-error` looks at. `ct_restore` counts a restore that failed;
`ct_archive` counts at `end_ct_archive`, the label that success and failure share.

* **`Tally.step`** — in a run whose messages are received as they should be, the counter is the
  number of `err_major++` the workers have carried out, and `ct_run` leaves its loop only on
  account of it or of `stop_it`;
* **`errMajor_not_mem_restore`**, **`errMajor_archive`** — a restore that succeeds carries out none,
  an archive that succeeds carries out one at its label;
* **`major_errors_iff`** — so the counter is 0 as long as no archive has got past its label.
-/

namespace Estuary

open Engine

/-! ## Runs without errors -/

/-- Every receive succeeds with the expected fsname, every message is well formed. -/
def Answer.fine : Answer → Bool
  | .shutdown => false
  | .recvError => false
  | .message fsname _ => fsname
  | .pastEnd => false
  | _ => true

/-- The guard of the runs in question. -/
def Healthy (_ : Crew) : CrewAct → Prop
  | .other (.disp answer) => answer.fine = true
  | _ => True

/-- An archive or a restore that returns 0 and reports 0. -/
structure Job.Succeeds (cfg : Config) (lib : LibS3) (job : Job) : Prop where
  action : job.hai.action = .archive ∨ job.hai.action = .restore
  returned : (job.process cfg lib).out = .done 0
  reported : ∀ v, .actionDone v ∈ (job.process cfg lib).log → v = 0

/-- No error is counted, and `ct_run` has not left its loop unless it was asked to stop. -/
def MajorsAreErrors (s : Crew) : Prop :=
  s.daemon.errMajor = 0 ∧ (s.daemon.pc = .leave → s.daemon.stopIt = true)

/-- The look-up of the path, which `ct_process_item` makes when it is verbose. -/
def Job.lookUp (cfg : Config) (job : Job) : List Event :=
  if cfg.oVerbose ≥ llapiMsgInfo ∨ cfg.oDryRun = true then [.fid2path job.env.fid2pathErr] else []

/-- What the worker of an archive carries out up to the label `end_ct_archive`. -/
def Job.beforeEnd (cfg : Config) (lib : LibS3) (job : Job) : List Event :=
  job.lookUp cfg ++ .handed .archive (pathGiven cfg job.env)
    :: ((ctBeginRestore job.env.archive.beginRcs).log
      ++ (ctArchiveBody cfg lib job.env.archive job.hai (pathGiven cfg job.env).read
        (beginErr job.env.archive.beginRcs)).log)

/-- Worker `i` archives, and is past `end_ct_archive`. -/
def Crew.PastArchive (cfg : Config) (lib : LibS3) (jobs : Nat → Job) (s : Crew) (i : Nat) : Prop :=
  (jobs i).hai.action = .archive
    ∧ ∃ l, s.logs[i]? = some l ∧ ((jobs i).beforeEnd cfg lib).length < l.length

/-! ## The counter -/

/-- What a step of the daemon does that is not a worker's `err_major++`. -/
structure Unmoved (s t : Daemon) : Prop where
  majors : t.errMajor = s.errMajor
  stop : s.stopIt = true → t.stopIt = true
  left : t.pc = .leave → s.pc = .leave ∨ s.stopIt = true ∨ s.errMajor ≠ 0

/-- A step that keeps the counter and the flag, and does not get `ct_run` behind its loop. -/
theorem Unmoved.of_pc {s t : Daemon} (hmajors : t.errMajor = s.errMajor)
    (hstop : t.stopIt = s.stopIt) (hpc : t.pc ≠ .leave) : Unmoved s t :=
  ⟨hmajors, fun h => hstop.trans h, fun h => absurd h hpc⟩

theorem DispMove.unmoved {maxRequests : Nat} {abortOnError : Bool} {s t : Daemon} {answer : Answer}
    (hmove : DispMove maxRequests abortOnError s answer t) (hfine : answer.fine = true) :
    Unmoved s t := by
  cases hmove with
  | shutdown | recvError | foreign | pastEnd => cases hfine
  | quit hpc hquit =>
    refine ⟨rfl, id, fun _ => Or.inr ?_⟩
    simp only [Bool.or_eq_true, Bool.and_eq_true, bne_iff_ne] at hquit
    exact hquit.imp_right And.right
  | exit hpc => exact ⟨rfl, id, Or.inl⟩
  | _ => exact .of_pc rfl rfl nofun

theorem daemonStep_unmoved {maxRequests : Nat} {abortOnError : Bool} {s t : Daemon} {a : Act}
    (hfine : ∀ answer, a = .disp answer → answer.fine = true) (hmajor : ∀ i, a ≠ .majorError i)
    (h : daemonStep maxRequests abortOnError s a = some t) : Unmoved s t := by
  cases (daemonStep_cases h).2 with
  | disp hfree hmove => exact hmove.unmoved (hfine _ rfl)
  | majorError hw => exact absurd rfl (hmajor _)
  | signalDisp | signalWorker => exact ⟨rfl, fun _ => rfl, Or.inl⟩
  | _ => exact ⟨rfl, id, Or.inl⟩

/-- The invariant: the counter counts what the workers carried out, which is the beginning of what
their items take, and `ct_run` has a reason for leaving. -/
structure Tally (cfg : Config) (lib : LibS3) (jobs : Nat → Job) (s : Crew) : Prop where
  majors : s.daemon.errMajor = (s.logs.map fun l => l.count .errMajor).sum
  begun : ∀ i l, s.logs[i]? = some l → l <+: ((jobs i).process cfg lib).log
  left : s.daemon.pc = .leave → s.daemon.stopIt = true ∨ s.daemon.errMajor ≠ 0

section Tally

variable {cfg : Config} {lib : LibS3} {jobs : Nat → Job} {maxRequests : Nat}

theorem Tally.init : Tally cfg lib jobs (.init maxRequests) where
  majors := rfl
  begun i l h := by simp [Crew.init] at h
  left := nofun

theorem Unmoved.left_or {s t : Daemon} (h : Unmoved s t)
    (hleft : s.pc = .leave → s.stopIt = true ∨ s.errMajor ≠ 0) (hpc : t.pc = .leave) :
    t.stopIt = true ∨ t.errMajor ≠ 0 := by
  have hs : s.stopIt = true ∨ s.errMajor ≠ 0 := by
    rcases h.left hpc with hpc | hor
    · exact hleft hpc
    · exact hor
  rw [h.majors]
  exact hs.imp_left h.stop

/-- A step of the daemon that no item takes. -/
theorem Tally.unmoved {s : Crew} {d : Daemon} (hI : Tally cfg lib jobs s)
    (h : Unmoved s.daemon d) : Tally cfg lib jobs ⟨d, s.logs⟩ :=
  ⟨h.majors.trans hI.majors, hI.begun, h.left_or hI.left⟩

theorem prefix_concat {α : Type} {l r : List α} {a : α} (h : l <+: r) (ha : r[l.length]? = some a) :
    l ++ [a] <+: r := by
  obtain ⟨rest, rfl⟩ := h
  rw [List.getElem?_append_right (Nat.le_refl _), Nat.sub_self] at ha
  cases rest with
  | nil => cases ha
  | cons b rest =>
    cases ha
    exact ⟨rest, by simp⟩

/-- Carrying out one more action. -/
theorem begun_set {s : Crew} (hI : Tally cfg lib jobs s) {i : Nat} {l : List Event} {e : Event}
    (hl : s.logs[i]? = some l) (he : ((jobs i).process cfg lib).log[l.length]? = some e)
    (j : Nat) (l' : List Event) (hj : (s.logs.set i (l ++ [e]))[j]? = some l') :
    l' <+: ((jobs j).process cfg lib).log := by
  by_cases hij : i = j
  · subst hij
    rw [List.getElem?_set_self (List.getElem?_eq_some_iff.mp hl).1] at hj
    cases hj
    exact prefix_concat (hI.begun i l hl) he
  · rw [List.getElem?_set_ne hij] at hj
    exact hI.begun j l' hj

/-- A worker carries out its next action `e`: the counter and the log have one more error, or
neither has. -/
theorem Tally.carried {s t : Crew} {i : Nat} {l : List Event} {e : Event}
    (hI : Tally cfg lib jobs s) (hl : s.logs[i]? = some l)
    (he : ((jobs i).process cfg lib).log[l.length]? = some e)
    (hstep : (if e = .errMajor then
        (daemonStep maxRequests cfg.oAbortOnError s.daemon (.majorError i)).map fun d =>
          (⟨d, s.logs.set i (l ++ [e])⟩ : Crew)
      else if s.daemon.active i then some ⟨s.daemon, s.logs.set i (l ++ [e])⟩
      else none) = some t) : Tally cfg lib jobs t := by
  have hmajors := hI.majors
  have hsum := @sum_map_set _ (fun l : List Event => l.count .errMajor) _ _ _ hl (l ++ [e])
  rw [List.count_append, List.count_singleton] at hsum
  by_cases hmajor : e = .errMajor
  · rw [if_pos hmajor] at hstep
    obtain ⟨d, hd, rfl⟩ := Option.map_eq_some_iff.mp hstep
    obtain rfl : d = { s.daemon with errMajor := s.daemon.errMajor + 1 } := by
      cases (daemonStep_cases hd).2
      rfl
    refine ⟨?_, begun_set hI hl he, fun _ => Or.inr (Nat.succ_ne_zero _)⟩
    rw [hmajor] at hsum ⊢
    simp only [beq_self_eq_true, if_true] at hsum
    show s.daemon.errMajor + 1 = ((s.logs.set i (l ++ [.errMajor])).map _).sum
    omega
  · rw [if_neg hmajor] at hstep
    split at hstep <;> cases hstep
    refine ⟨?_, begun_set hI hl he, hI.left⟩
    simp only [beq_iff_eq, hmajor, if_false] at hsum
    show s.daemon.errMajor = ((s.logs.set i (l ++ [e])).map _).sum
    omega

/-- A step of the daemon that may hire workers. -/
theorem Tally.hire {s : Crew} {d : Daemon} (hI : Tally cfg lib jobs s)
    (h : Unmoved s.daemon d) : Tally cfg lib jobs (Estuary.hire s.logs d) := by
  have hunmoved := hI.unmoved h
  refine ⟨?_, fun i l hl => ?_, hunmoved.left⟩
  · show d.errMajor = _
    rw [hunmoved.majors]
    simp [Estuary.hire]
  · -- a worker that was there before, or a new one that has carried out nothing
    simp only [Estuary.hire] at hl
    rw [List.getElem?_append] at hl
    split at hl
    · exact hI.begun i l hl
    · rw [List.eq_of_mem_replicate (List.mem_of_getElem? hl)]
      exact List.nil_prefix

theorem Tally.step (s : Crew) (a : CrewAct) (t : Crew) (hI : Tally cfg lib jobs s)
    (hG : Healthy s a) (hstep : crewStep cfg lib jobs maxRequests s a = some t) :
    Tally cfg lib jobs t := by
  cases a with
  | work i =>
    simp only [crewStep] at hstep
    cases hl : s.logs[i]? with
    | none => simp [hl] at hstep
    | some l =>
      simp only [hl] at hstep
      cases he : ((jobs i).process cfg lib).log[l.length]? with
      | some e =>
        simp only [he] at hstep
        exact hI.carried hl he hstep
      | none =>
        -- the worker has come to its end, or takes the process down
        simp only [he] at hstep
        split at hstep
        · obtain ⟨d, hd, rfl⟩ := Option.map_eq_some_iff.mp hstep
          exact hI.unmoved (daemonStep_unmoved (by simp) (by simp) hd)
        · split at hstep <;> cases hstep
          exact hI.unmoved ⟨rfl, id, Or.inl⟩
        · cases hstep
  | other a =>
    have hmajor : ∀ i, a ≠ .majorError i := by
      rintro i rfl
      cases hstep
    have hfinish : ∀ i, a ≠ .finish i := by
      rintro i rfl
      cases hstep
    -- the two steps that only a worker's items take are ruled out
    have hd : ∃ d, daemonStep maxRequests cfg.oAbortOnError s.daemon a = some d
        ∧ Estuary.hire s.logs d = t := by
      cases a with
      | majorError i => exact absurd rfl (hmajor i)
      | finish i => exact absurd rfl (hfinish i)
      | _ => exact Option.map_eq_some_iff.mp hstep
    obtain ⟨d, hd, rfl⟩ := hd
    have hfine : ∀ answer, a = .disp answer → answer.fine = true := by
      rintro answer rfl
      exact hG
    exact hI.hire (daemonStep_unmoved hfine hmajor hd)

end Tally

/-! ## The items -/

/-- A restore counts its own failure, whose value it returns. -/
theorem errMajor_mem_ctRestoreBody {cfg : Config} {lib : LibS3} {env : RestoreEnv}
    {hai : HsmActionItem} {filePath : CString} {err : Nat}
    (h : .errMajor ∈ (ctRestoreBody cfg lib env hai filePath err).log) :
    ∃ rc, rc < 0 ∧ (ctRestoreBody cfg lib env hai filePath err).out = .done (rc, true) := by
  have hdata : (ctRestoreData cfg lib env.data hai filePath).Logs (· ≠ .errMajor) :=
    logs_ctRestoreData (fun _ _ => nofun) (fun _ _ _ _ => nofun) (fun _ _ => nofun)
      (fun _ _ _ _ => nofun) _ _ _ _ _
  unfold ctRestoreBody at h ⊢
  split at h
  · simp at h
  split at h
  · simp at h
  split at h
  · simp at h
  split at h
  · simp at h
  rename_i herr hdfid hdry hfd
  rw [if_neg herr, if_neg hdfid, if_neg hdry, if_neg hfd]
  rcases Exec.mem_bind_log.mp h with h | ⟨rc, hrc, h⟩
  · exact absurd rfl (hdata _ h)
  rw [Exec.bind_out_of_done hrc]
  split at h
  · next hneg => exact ⟨rc, hneg, by rw [if_pos hneg]; rfl⟩
  · simp at h

theorem errMajor_mem_ctRestore {cfg : Config} {lib : LibS3} {env : RestoreEnv}
    {hai : HsmActionItem} {filePath : CString}
    (h : .errMajor ∈ (ctRestore cfg lib env hai filePath).log) :
    ∃ rc, rc < 0 ∧ .actionDone rc ∈ (ctRestore cfg lib env hai filePath).log := by
  have hbegin : (ctBeginRestore env.beginRcs).out = .done (beginErr env.beginRcs) :=
    beginEx_out false _
  have hdone : ∀ hcp retry rc, (ctActionDone env.done hcp retry rc).Logs (· ≠ .errMajor) :=
    fun hcp retry rc => logs_ctActionDone nofun (fun _ _ => nofun) (fun _ _ _ => nofun) env.done
      hcp retry
  by_cases hmdt : env.mdtIndexErr = 0
  swap
  · simp [ctRestore, hmdt] at h
  have hbody : .errMajor
      ∈ (ctRestoreBody cfg lib env hai filePath (beginErr env.beginRcs)).log := by
    simp only [ctRestore, hmdt, ne_eq, not_true, if_false, Exec.bind_log_of_done hbegin,
      List.mem_append] at h
    rcases h with h | h
    · obtain ⟨_, h⟩ := beginEx_log_cases h
      cases h
    rcases Exec.mem_bind_log.mp h with h | ⟨r, -, h⟩
    · exact h
    rcases Exec.mem_bind_log.mp h with h | ⟨_, -, h⟩
    · exact absurd rfl (hdone _ _ _ _ h)
    · simp at h
  obtain ⟨rc, hneg, hout⟩ := errMajor_mem_ctRestoreBody hbody
  refine ⟨rc, hneg, ?_⟩
  rw [ctRestore_eq_of_body hmdt hout]
  exact List.mem_append_right _ (List.mem_append_right _ (mem_actionDone_ctActionDone.mpr rfl))

/-- An item that succeeds gets to its operation. -/
theorem Job.Succeeds.process_eq {cfg : Config} {lib : LibS3} {job : Job}
    (h : job.Succeeds cfg lib) :
    (job.process cfg lib).log
        = job.lookUp cfg ++ (dispatchAction cfg lib job.env job.hai (pathGiven cfg job.env)).log
      ∧ (dispatchAction cfg lib job.env job.hai (pathGiven cfg job.env)).out = .done 0 := by
  have hguard : ¬ (job.hai.action ≠ .archive ∧ job.hai.action ≠ .restore) :=
    fun hother => h.action.elim hother.1 hother.2
  have hret := h.returned
  rw [Job.process, ctProcessItem, if_neg hguard] at hret ⊢
  by_cases hloud : cfg.oVerbose ≥ llapiMsgInfo ∨ cfg.oDryRun = true
  · rw [if_pos hloud, Exec.emit_bind] at hret ⊢
    rw [Job.lookUp, pathGiven, if_pos hloud, if_pos hloud]
    by_cases hfid : job.env.fid2pathErr = 0
    · rw [if_neg (not_not_intro hfid)] at hret ⊢
      exact ⟨rfl, hret⟩
    · -- the error of `llapi_fid2path` is what the item returns
      rw [if_pos hfid] at hret
      simp only [Exec.pure_out, Outcome.done.injEq] at hret
      omega
  · rw [if_neg hloud] at hret ⊢
    rw [Job.lookUp, pathGiven, if_neg hloud, if_neg hloud]
    exact ⟨rfl, hret⟩

theorem not_mem_lookUp (cfg : Config) (job : Job) : .errMajor ∉ job.lookUp cfg := by
  unfold Job.lookUp
  split
  · simp
  · simp

/-- **A restore that succeeds** carries out no `err_major++`. -/
theorem errMajor_not_mem_restore {cfg : Config} {lib : LibS3} {job : Job} (h : job.Succeeds cfg lib)
    (hrestore : job.hai.action = .restore) : .errMajor ∉ (job.process cfg lib).log := by
  intro hmem
  have hlog := h.process_eq.1
  simp only [dispatchAction, hrestore, Exec.emit_bind] at hlog
  have hsub : (ctRestore cfg lib job.env.restore job.hai (pathGiven cfg job.env).read).log
      ⊆ (job.process cfg lib).log := by
    rw [hlog]
    exact fun e he => List.mem_append_right _ (List.mem_cons_of_mem _ he)
  rw [hlog] at hmem
  rcases List.mem_append.mp hmem with hmem | hmem
  · exact not_mem_lookUp cfg job hmem
  rcases List.mem_cons.mp hmem with hmem | hmem
  · cases hmem
  obtain ⟨rc, hneg, hdone⟩ := errMajor_mem_ctRestore hmem
  have hzero := h.reported rc (hsub hdone)
  omega

theorem not_mem_beforeEnd (cfg : Config) (lib : LibS3) (job : Job) :
    .errMajor ∉ job.beforeEnd cfg lib := by
  have hbody : ∀ file err, (ctArchiveBody cfg lib job.env.archive job.hai file err).Logs
      (· ≠ .errMajor) := by
    refine fun file err => logs_ctArchiveBody ?_ (fun _ _ => nofun) (fun _ _ => nofun) _ _ _ _ _ _
    rintro name e h rfl
    exact h
  intro hmem
  rcases List.mem_append.mp hmem with hmem | hmem
  · exact not_mem_lookUp cfg job hmem
  rcases List.mem_cons.mp hmem with hmem | hmem
  · cases hmem
  rcases List.mem_append.mp hmem with hmem | hmem
  · obtain ⟨_, hmem⟩ := beginEx_log_cases hmem
    cases hmem
  · exact hbody _ _ _ hmem rfl

/-- **An archive that succeeds** carries out an `err_major++` when it gets to its label. -/
theorem errMajor_archive {cfg : Config} {lib : LibS3} {job : Job} (h : job.Succeeds cfg lib)
    (harchive : job.hai.action = .archive) :
    ∃ after, (job.process cfg lib).log = job.beforeEnd cfg lib ++ .errMajor :: after := by
  obtain ⟨hlog, hout⟩ := h.process_eq
  simp only [dispatchAction, harchive, Exec.emit_bind] at hlog hout
  have hbegin : (ctBeginRestore job.env.archive.beginRcs).out
      = .done (beginErr job.env.archive.beginRcs) := beginEx_out false _
  rw [ctArchive, Exec.bind_out_of_done hbegin] at hout
  obtain ⟨rc, hbody, -⟩ := Exec.bind_out_done.mp hout
  refine ⟨(ctActionDone job.env.archive.done (beginErr job.env.archive.beginRcs == 0)
    (rc != 0 && ctIsRetryable rc) rc).log, ?_⟩
  rw [hlog, ctArchive_eq_of_body hbody]
  simp [Job.beforeEnd]

/-- Having carried out a part of `before ++ e :: after` is to be past `e`, or not to have got to
it. -/
theorem mem_iff_past {α : Type} {l before after : List α} {e : α} (h : l <+: before ++ e :: after)
    (hbefore : e ∉ before) : e ∈ l ↔ before.length < l.length := by
  constructor
  · intro hmem
    by_contra hle
    have hl : l <+: before :=
      List.prefix_of_prefix_length_le h (List.prefix_append _ _) (Nat.le_of_not_lt hle)
    exact hbefore (hl.subset hmem)
  · intro hlt
    have hlen : (before ++ [e]).length ≤ l.length := by
      rw [List.length_append, List.length_singleton]
      exact hlt
    have hl : before ++ [e] <+: l := List.prefix_of_prefix_length_le ⟨after, by simp⟩ h hlen
    exact hl.subset (List.mem_append_right _ (List.mem_singleton_self e))

/-- **When major errors are errors.** In every run in which the messages are received as they should
be and every item succeeds: as long as no archive has got past `end_ct_archive`. -/
theorem major_errors_iff (cfg : Config) (lib : LibS3) (jobs : Nat → Job) (maxRequests : Nat)
    (hjobs : ∀ i, (jobs i).Succeeds cfg lib) (acts : List CrewAct) (s : Crew)
    (hrun : Run (crewStep cfg lib jobs maxRequests) Healthy (.init maxRequests) acts s) :
    MajorsAreErrors s ↔ ∀ i, ¬ s.PastArchive cfg lib jobs i := by
  have htally : Tally cfg lib jobs s := hrun.invariant Tally.step Tally.init
  -- the archives past their label are those that have counted
  have hpast : ∀ i l, s.logs[i]? = some l → (jobs i).hai.action = .archive →
      (.errMajor ∈ l ↔ ((jobs i).beforeEnd cfg lib).length < l.length) := by
    intro i l hl harchive
    obtain ⟨after, hlog⟩ := errMajor_archive (hjobs i) harchive
    have hbegun := htally.begun i l hl
    rw [hlog] at hbegun
    exact mem_iff_past hbegun (not_mem_beforeEnd cfg lib (jobs i))
  have hzero : s.daemon.errMajor = 0 ↔ ∀ i, ¬ s.PastArchive cfg lib jobs i := by
    rw [htally.majors, sum_map_eq_zero]
    constructor
    · rintro h i ⟨harchive, l, hl, hlt⟩
      have hmem := (hpast i l hl harchive).mpr hlt
      exact absurd (h i l hl) (Nat.ne_of_gt (List.count_pos_iff.mpr hmem))
    · intro h i l hl
      refine List.count_eq_zero.mpr fun hmem => ?_
      rcases (hjobs i).action with harchive | hrestore
      · exact h i ⟨harchive, l, hl, (hpast i l hl harchive).mp hmem⟩
      · exact errMajor_not_mem_restore (hjobs i) hrestore ((htally.begun i l hl).subset hmem)
  constructor
  · intro h
    exact hzero.mp h.1
  · intro h
    have herr := hzero.mpr h
    refine ⟨herr, fun hpc => (htally.left hpc).resolve_right (not_not_intro herr)⟩

/-- Items of a file of two bytes, on a quiet day. -/
def smoothJob (action : HsmAction) : Job :=
  ⟨.smooth (cstr ['f']) [1, 2], ⟨action, ⟨1, 1, 0⟩, .whole⟩⟩

theorem smoothJob_succeeds {action : HsmAction} (h : action = .archive ∨ action = .restore)
    (abortOnError : Bool) : (smoothJob action).Succeeds
      { Config.setup (cstr ['/', 'l']) (cstr ['/', 'l']) with oAbortOnError := abortOnError }
      .upstream := by
  have hdone : ∀ e ∈ ((smoothJob action).process { Config.setup (cstr ['/', 'l'])
      (cstr ['/', 'l']) with oAbortOnError := abortOnError } .upstream).log,
        e = .actionDone 0 ∨ (e matches .actionDone _) = false := by
    rcases h with rfl | rfl <;> cases abortOnError <;> decide +kernel
  refine ⟨h, ?_, fun v hv => ?_⟩
  · rcases h with rfl | rfl <;> cases abortOnError <;> decide +kernel
  · rcases hdone _ hv with h | h
    · cases h
      rfl
    · cases h

/-- The actions of `ct_run` from the receipt of a message with one item to the start of its
worker, of the worker to its end, and `oks` more of `ct_run`. -/
def oneItem (oks : Nat) : List CrewAct :=
  .other (.disp (.message true 1)) :: List.replicate 5 (.other (.disp .ok))
    ++ List.replicate 10 (.work 0) ++ List.replicate oks (.other (.disp .ok))

theorem oneItem_healthy (oks : Nat) : ∀ a ∈ oneItem oks, ∀ s, Healthy s a := by
  intro a ha s
  simp only [oneItem, List.cons_append, List.mem_cons, List.mem_append, List.mem_replicate] at ha
  rcases ha with rfl | (⟨-, rfl⟩ | ⟨-, rfl⟩) | ⟨-, rfl⟩
  · rfl
  · rfl
  · trivial
  · rfl

/-- A restore, from its message to its end: no error is counted, and `ct_run` waits for the next
message. -/
theorem restore_counts_nothing :
    (smoothJob .restore).Succeeds (.setup (cstr ['/', 'l']) (cstr ['/', 'l'])) .upstream
      ∧ ∃ s, Run (crewStep (.setup (cstr ['/', 'l']) (cstr ['/', 'l'])) .upstream
            (fun _ => smoothJob .restore) 1) Healthy (.init 1) (oneItem 3) s
        ∧ s.daemon.pc = .recv ∧ MajorsAreErrors s := by
  have hjob := smoothJob_succeeds (Or.inr rfl) false
  have hexec : (exec (crewStep (.setup (cstr ['/', 'l']) (cstr ['/', 'l'])) .upstream
      (fun _ => smoothJob .restore) 1) (.init 1) (oneItem 3)).map Crew.daemon
      = some ⟨1, false, 0, .recv, false, [⟨true, false⟩], false⟩ := by decide +kernel
  obtain ⟨s, hs, hdaemon⟩ := Option.map_eq_some_iff.mp hexec
  have hrun := run_of_exec hs (oneItem_healthy 3)
  refine ⟨hjob, s, hrun, by rw [hdaemon], ?_⟩
  exact (major_errors_iff _ _ _ 1 (fun _ => hjob) _ s hrun).mpr fun i h => nomatch h.1

/-- An archive that succeeds counts as a major error, and with `--abort-on-error` it ends the
daemon. -/
theorem archive_counts_success :
    (smoothJob .archive).Succeeds { Config.setup (cstr ['/', 'l']) (cstr ['/', 'l']) with
        oAbortOnError := true } .upstream
      ∧ ∃ s, Run (crewStep { Config.setup (cstr ['/', 'l']) (cstr ['/', 'l']) with
            oAbortOnError := true } .upstream (fun _ => smoothJob .archive) 1) Healthy (.init 1)
          (oneItem 2) s
        ∧ s.daemon.errMajor = 1 ∧ s.daemon.pc = .leave ∧ s.daemon.stopIt = false := by
  have hexec : (exec (crewStep { Config.setup (cstr ['/', 'l']) (cstr ['/', 'l']) with
      oAbortOnError := true } .upstream (fun _ => smoothJob .archive) 1) (.init 1)
      (oneItem 2)).map Crew.daemon
      = some ⟨1, false, 1, .leave, false, [⟨true, false⟩], false⟩ := by decide +kernel
  obtain ⟨s, hs, hdaemon⟩ := Option.map_eq_some_iff.mp hexec
  refine ⟨smoothJob_succeeds (Or.inl rfl) true, s, run_of_exec hs (oneItem_healthy 2), ?_⟩
  rw [hdaemon]
  exact ⟨rfl, rfl, rfl⟩

end Estuary
