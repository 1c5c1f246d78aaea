import Estuary.Target
import Estuary.Transfer

/-!
# Estuary — what the coordinator is told

The coordinator learns about an item only through the begin and end calls. This module says
once what the resend loops and `ct_action_done` put on the log, and derives the reporting
properties of a whole item from that.

* **`msgResend_eq`** — a resend loop makes a first call and then one more per answer that asks
  for it, and always returns the last answer;
* **`ctActionDone_answers`** — with a handle `ct_action_done` makes an end call; without one it
  makes an end call or all its begin calls failed;
* **`zero_only_after_transfer`** — error value 0 is reported only for an item whose data was
  transferred, or whose path does not match `path_prefix`;
* **`item_answered_iff`** — exactly when an item is answered at all.
-/

namespace Estuary

open Engine

/-! ## Resend loops -/

section Resend

variable (report : Nat → Event) (again : Nat → Bool) (rcs : Nat → Nat)

/-- The number of calls a resend loop makes after the first one. -/
def resends : Nat → Nat → Nat
  | 0, _ => 0
  | budget + 1, i => if again (rcs i) then resends budget (i + 1) + 1 else 0

theorem msgResend_eq (budget i : Nat) :
    msgResend report again rcs budget i
      = ⟨(List.range' i (resends again rcs budget i + 1)).map fun j => report (rcs j),
          .done (rcs (i + resends again rcs budget i))⟩ := by
  induction budget generalizing i with
  | zero => simp [msgResend, resends]
  | succ budget ih =>
    rw [msgResend, resends]
    by_cases h : again (rcs i) = true
    · simp only [h, if_true, Exec.emit_bind, ih, List.range'_succ, List.map_cons]
      rw [show i + 1 + resends again rcs budget (i + 1)
            = i + (resends again rcs budget (i + 1) + 1) from by omega]
    · simp [h]

theorem msgResend_out (budget i : Nat) :
    (msgResend report again rcs budget i).out
      = .done (rcs (i + resends again rcs budget i)) := by
  rw [msgResend_eq]

/-- Every call but the last one had an answer that asked for another. -/
theorem again_of_lt_resends {budget i j : Nat} (hij : i ≤ j)
    (hj : j < i + resends again rcs budget i) : again (rcs j) = true := by
  induction budget generalizing i with
  | zero => simp [resends] at hj; omega
  | succ budget ih =>
    rw [resends] at hj
    by_cases h : again (rcs i) = true
    · rcases Nat.eq_or_lt_of_le hij with rfl | hlt
      · exact h
      · simp only [h, if_true] at hj
        exact ih (show i + 1 ≤ j from hlt) (by omega)
    · simp only [h, Bool.false_eq_true, if_false] at hj
      omega

theorem mem_msgResend_log {budget i : Nat} {e : Event} :
    e ∈ (msgResend report again rcs budget i).log ↔
      ∃ j, i ≤ j ∧ j ≤ i + resends again rcs budget i ∧ report (rcs j) = e := by
  rw [msgResend_eq]
  simp only [List.mem_map, List.mem_range'_1]
  constructor
  · rintro ⟨j, ⟨h1, h2⟩, rfl⟩
    exact ⟨j, h1, by omega, rfl⟩
  · rintro ⟨j, h1, h2, rfl⟩
    exact ⟨j, ⟨h1, by omega⟩, rfl⟩

/-- The first call of a resend loop is on its log. -/
theorem first_mem_msgResend_log (budget i : Nat) :
    report (rcs i) ∈ (msgResend report again rcs budget i).log :=
  (mem_msgResend_log report again rcs).mpr ⟨i, le_refl i, by omega, rfl⟩

end Resend

/-! ## Begin and end of an action -/

/-- The log shows begin calls, every one of which failed. -/
def BeginsFailed (log : List Event) : Prop :=
  (∃ isError err, .actionBegin isError err ∈ log)
    ∧ ∀ isError err, .actionBegin isError err ∈ log → err ≠ 0

/-- An item is answered by a log: an end call was made, or begin calls were made and every one
of them failed. -/
def Answered (log : List Event) : Prop :=
  (∃ retry errval err, .actionEnd retry errval err ∈ log) ∨ BeginsFailed log

/-- The error number `llapi_hsm_action_begin_ex` returns. -/
def beginErr (rcs : Nat → Nat) : Nat := rcs (resends (fun rc => rc != 0) rcs maxResend 0)

theorem beginEx_out (isError : Bool) (rcs : Nat → Nat) :
    (llapiHsmActionBeginEx isError rcs).out = .done (beginErr rcs) := by
  rw [llapiHsmActionBeginEx, msgResend_out, beginErr, Nat.zero_add]

theorem beginEx_log_cases {isError : Bool} {rcs : Nat → Nat} {e : Event}
    (h : e ∈ (llapiHsmActionBeginEx isError rcs).log) : ∃ err, e = .actionBegin isError err := by
  obtain ⟨j, _, _, rfl⟩ := (mem_msgResend_log _ _ _).mp h
  exact ⟨_, rfl⟩

/-- If the last begin call failed, they all did. -/
theorem beginEx_failed (isError : Bool) {rcs : Nat → Nat} (h : beginErr rcs ≠ 0) :
    BeginsFailed (llapiHsmActionBeginEx isError rcs).log := by
  refine ⟨⟨isError, rcs 0, first_mem_msgResend_log _ _ _ _ _⟩, ?_⟩
  intro b err hmem
  obtain ⟨j, _, hj, heq⟩ := (mem_msgResend_log _ _ _).mp hmem
  cases heq
  rcases Nat.eq_or_lt_of_le hj with rfl | hlt
  · simpa [beginErr] using h
  · simpa using again_of_lt_resends _ _ (Nat.zero_le j) hlt

theorem BeginsFailed.append {l l' : List Event} (h : BeginsFailed l)
    (h' : ∀ isError err, .actionBegin isError err ∈ l' → err ≠ 0) : BeginsFailed (l ++ l') := by
  obtain ⟨⟨b, err, hmem⟩, hall⟩ := h
  refine ⟨⟨b, err, List.mem_append_left _ hmem⟩, ?_⟩
  intro b err hmem
  rcases List.mem_append.mp hmem with h1 | h1
  · exact hall b err h1
  · exact h' b err h1

/-- The return value of `ct_action_done`: the failed begin, or the last end call. -/
def doneErr (env : DoneEnv) (hcp : Bool) : Nat :=
  let opened := if hcp then 0 else beginErr env.beginRcs
  if opened ≠ 0 then opened
  else env.endRcs (resends (fun rc => rc != 0 && rc != ecanceled) env.endRcs maxResend 0)

theorem openHandle_out (env : DoneEnv) (hcp : Bool) :
    (openHandle env hcp).out = .done (if hcp then 0 else beginErr env.beginRcs) := by
  cases hcp with
  | true => rfl
  | false => exact beginEx_out true env.beginRcs

/-- `ct_action_done` returns, whatever the answers are. -/
theorem ctActionDone_out (env : DoneEnv) (hcp retry : Bool) (ctRc : Int) :
    (ctActionDone env hcp retry ctRc).out = .done (-(doneErr env hcp : Int)) := by
  simp only [ctActionDone, doneErr, Exec.emit_bind, Exec.bind_out_of_done (openHandle_out env hcp)]
  generalize (if hcp = true then 0 else beginErr env.beginRcs) = opened
  by_cases h : opened = 0
  · simp only [h, ne_eq, not_true, if_false]
    rw [Exec.bind_out_of_done (msgResend_out _ _ _ _ _), Nat.zero_add]
    rfl
  · simp only [h, ne_eq, not_false_iff, if_true, Exec.pure_out]

/-- An end call is made once the handle is open. -/
theorem actionEnd_mem_ctActionDone {env : DoneEnv} {hcp : Bool} (retry : Bool) (ctRc : Int)
    (hopen : (if hcp then 0 else beginErr env.beginRcs) = 0) :
    .actionEnd retry ctRc.natAbs (env.endRcs 0) ∈ (ctActionDone env hcp retry ctRc).log := by
  simp only [ctActionDone, Exec.emit_bind, Exec.bind_log_of_done (openHandle_out env hcp), hopen,
    ne_eq, not_true, if_false]
  refine List.mem_cons_of_mem _ (List.mem_append_right _ ?_)
  exact Exec.mem_bind_log.mpr (Or.inl (first_mem_msgResend_log _ _ _ _ _))

/-- With a handle an end call is made; without one an end call is made or every begin call
failed. -/
theorem ctActionDone_answers (env : DoneEnv) (hcp retry : Bool) (ctRc : Int) :
    (∃ err, .actionEnd retry ctRc.natAbs err ∈ (ctActionDone env hcp retry ctRc).log)
      ∨ (hcp = false ∧ BeginsFailed (ctActionDone env hcp retry ctRc).log) := by
  by_cases hopen : (if hcp then 0 else beginErr env.beginRcs) = 0
  · exact Or.inl ⟨_, actionEnd_mem_ctActionDone retry ctRc hopen⟩
  · right
    have hcp_false : hcp = false := by
      cases hcp <;> simp_all
    subst hcp_false
    have hbegin : beginErr env.beginRcs ≠ 0 := by simpa using hopen
    have hfail := beginEx_failed true hbegin
    refine ⟨rfl, ?_⟩
    -- the log is the `ct_action_done` entry and the failed begin calls
    have hlog : (ctActionDone env false retry ctRc).log
        = .actionDone ctRc :: (llapiHsmActionBeginEx true env.beginRcs).log := by
      simp only [ctActionDone, Exec.emit_bind, Exec.bind_log_of_done (openHandle_out env false),
        hopen, ne_eq, not_false_iff, if_true, Exec.pure_log, List.append_nil]
      rfl
    rw [hlog]
    obtain ⟨⟨b, err, hmem⟩, hall⟩ := hfail
    refine ⟨⟨b, err, List.mem_cons_of_mem _ hmem⟩, fun b err hmem => hall b err ?_⟩
    simpa using hmem

/-- The entries of a `ct_action_done`: its own, begin calls and end calls. -/
theorem logs_ctActionDone {p : Event → Prop} {ctRc : Int} (hdone : p (.actionDone ctRc))
    (hbegin : ∀ isError err, p (.actionBegin isError err))
    (hend : ∀ retry errval err, p (.actionEnd retry errval err)) (env : DoneEnv)
    (hcp retry : Bool) : (ctActionDone env hcp retry ctRc).Logs p := by
  intro e he
  simp only [ctActionDone, Exec.emit_bind, List.mem_cons] at he
  rcases he with rfl | he
  · exact hdone
  rcases Exec.mem_bind_log.mp he with he | ⟨err, _, he⟩
  · cases hcp with
    | true => simp [openHandle] at he
    | false =>
      obtain ⟨err, rfl⟩ := beginEx_log_cases he
      exact hbegin _ _
  · split at he
    · simp at he
    · rcases Exec.mem_bind_log.mp he with he | ⟨_, _, he⟩
      · obtain ⟨_, _, _, rfl⟩ := (mem_msgResend_log _ _ _).mp he
        exact hend _ _ _
      · simp at he

/-- The only `ct_action_done` entry of `ct_action_done` is its own. -/
theorem mem_actionDone_ctActionDone {env : DoneEnv} {hcp retry : Bool} {ctRc rc : Int} :
    .actionDone rc ∈ (ctActionDone env hcp retry ctRc).log ↔ rc = ctRc := by
  constructor
  · have hlogs : (ctActionDone env hcp retry ctRc).Logs fun e =>
        ∀ rc, e = .actionDone rc → rc = ctRc :=
      logs_ctActionDone (fun rc h => by injection h with h; exact h.symm) (fun _ _ _ h => by cases h)
        (fun _ _ _ _ h => by cases h) env hcp retry
    exact fun h => hlogs _ h rc rfl
  · rintro rfl
    simp [ctActionDone]

/-! ## A whole operation

`ct_archive` and `ct_restore` are a begin, a data transfer and a `ct_action_done` one after the
other. The transfer logs no protocol call, so all that can be said about the answer an item
gets is said of the two ends. -/

/-- A begin, a transfer and a `ct_action_done` that uses the begin's handle answer the item. -/
theorem answered_operation {rcs : Nat → Nat} {mid : List Event} (env : DoneEnv) (retry : Bool)
    (rc : Int) (hmid : ∀ e ∈ mid, e.isTransfer = true) :
    Answered ((ctBeginRestore rcs).log
      ++ (mid ++ (ctActionDone env (beginErr rcs == 0) retry rc).log)) := by
  rcases ctActionDone_answers env (beginErr rcs == 0) retry rc with ⟨err, hend⟩ | ⟨hcp, hfail⟩
  · exact Or.inl ⟨retry, _, err, List.mem_append_right _ (List.mem_append_right _ hend)⟩
  · right
    have hbegin : beginErr rcs ≠ 0 := by simpa using hcp
    refine (beginEx_failed false hbegin).append fun b err hmem => ?_
    rcases List.mem_append.mp hmem with h | h
    · have := hmid _ h
      cases this
    · exact hfail.2 b err h

theorem ctArchive_eq_of_body {cfg : Config} {lib : LibS3} {env : ArchiveEnv}
    {hai : HsmActionItem} {filePath : CString} {rc : Int}
    (h : (ctArchiveBody cfg lib env hai filePath (beginErr env.beginRcs)).out = .done rc) :
    ctArchive cfg lib env hai filePath
      = ⟨(ctBeginRestore env.beginRcs).log
          ++ (((ctArchiveBody cfg lib env hai filePath (beginErr env.beginRcs)).log ++ [.errMajor])
            ++ (ctActionDone env.done (beginErr env.beginRcs == 0) (rc != 0 && ctIsRetryable rc)
              rc).log),
          .done (cOr rc (-(doneErr env.done (beginErr env.beginRcs == 0) : Int)))⟩ := by
  have hbegin : (ctBeginRestore env.beginRcs).out = .done (beginErr env.beginRcs) :=
    beginEx_out false _
  simp only [ctArchive, Exec.bind_of_done hbegin, Exec.bind_of_done h, Exec.emit_bind,
    Exec.bind_of_done (ctActionDone_out _ _ _ _), Exec.pure_log, Exec.pure_out,
    List.append_nil, List.append_assoc, List.singleton_append]

/-- What `ct_restore` does after its MDT index call. -/
theorem ctRestore_eq_of_body {cfg : Config} {lib : LibS3} {env : RestoreEnv}
    {hai : HsmActionItem} {filePath : CString} {rc : Int} {failed : Bool}
    (hmdt : env.mdtIndexErr = 0)
    (h : (ctRestoreBody cfg lib env hai filePath (beginErr env.beginRcs)).out
      = .done (rc, failed)) :
    ctRestore cfg lib env hai filePath
      = ⟨(ctBeginRestore env.beginRcs).log
          ++ ((ctRestoreBody cfg lib env hai filePath (beginErr env.beginRcs)).log
            ++ (ctActionDone env.done (beginErr env.beginRcs == 0) (failed && ctIsRetryable rc)
              rc).log),
          .done (cOr rc (-(doneErr env.done (beginErr env.beginRcs == 0) : Int)))⟩ := by
  have hbegin : (ctBeginRestore env.beginRcs).out = .done (beginErr env.beginRcs) :=
    beginEx_out false _
  simp only [ctRestore, hmdt, ne_eq, not_true, if_false, Exec.bind_of_done hbegin,
    Exec.bind_of_done h, Exec.bind_of_done (ctActionDone_out _ _ _ _), Exec.pure_log,
    Exec.pure_out, List.append_nil]

/-- An archive that is over has been answered. -/
theorem ctArchive_answered {cfg : Config} {lib : LibS3} {env : ArchiveEnv}
    {hai : HsmActionItem} {filePath : CString} {r : Int}
    (h : (ctArchive cfg lib env hai filePath).out = .done r) :
    Answered (ctArchive cfg lib env hai filePath).log := by
  obtain ⟨err, hbegin, h⟩ := Exec.bind_out_done.mp h
  obtain rfl : beginErr env.beginRcs = err := by
    have := (beginEx_out false env.beginRcs).symm.trans hbegin
    injection this
  obtain ⟨rc, hbody, -⟩ := Exec.bind_out_done.mp h
  rw [ctArchive_eq_of_body hbody]
  refine answered_operation _ _ _ fun e he => ?_
  rcases List.mem_append.mp he with he | he
  · exact moves_ctArchiveBody _ _ _ _ _ _ e he
  · rw [List.mem_singleton.mp he]
    rfl

/-- A restore that got its MDT index and is over has been answered. -/
theorem ctRestore_answered {cfg : Config} {lib : LibS3} {env : RestoreEnv}
    {hai : HsmActionItem} {filePath : CString} {r : Int} (hmdt : env.mdtIndexErr = 0)
    (h : (ctRestore cfg lib env hai filePath).out = .done r) :
    Answered (ctRestore cfg lib env hai filePath).log := by
  have hout := h
  simp only [ctRestore, hmdt, ne_eq, not_true, if_false] at hout
  obtain ⟨err, hbegin, hout⟩ := Exec.bind_out_done.mp hout
  obtain rfl : beginErr env.beginRcs = err := by
    have := (beginEx_out false env.beginRcs).symm.trans hbegin
    injection this
  obtain ⟨⟨rc, failed⟩, hbody, -⟩ := Exec.bind_out_done.mp hout
  rw [ctRestore_eq_of_body hmdt hbody]
  exact answered_operation _ _ _ fun e he => moves_ctRestoreBody _ _ _ _ _ _ e he

/-! ## Which items are answered -/

theorem asyncReturn_eq_zero_iff (async : AsyncEnv) :
    asyncReturn async = 0 ↔ async.mallocData = true ∧ async.mallocHai = true
      ∧ async.attrInitErr = 0 ∧ async.createErr = 0 := by
  unfold asyncReturn
  cases async.mallocData with
  | false => simp [enomem]
  | true =>
    cases async.mallocHai with
    | false => simp [enomem]
    | true =>
      by_cases h : async.attrInitErr = 0
      · simp [h]
      · simp [h]

/-- The steps before the begin call of an item succeed: the worker is started, the path is
found where it is asked for, and a restore gets its MDT index. -/
def ReachesBegin (cfg : Config) (async : AsyncEnv) (env : ItemEnv) (hai : HsmActionItem) : Prop :=
  (async.mallocData = true ∧ async.mallocHai = true ∧ async.attrInitErr = 0
      ∧ async.createErr = 0)
    ∧ (hai.action = .archive ∨ hai.action = .restore →
        cfg.oVerbose ≥ llapiMsgInfo ∨ cfg.oDryRun = true → env.fid2pathErr = 0)
    ∧ (hai.action = .restore → env.restore.mdtIndexErr = 0)

/-- A log on which the copytool has not yet called the coordinator answers nothing. -/
theorem not_answered_of_silent {log : List Event}
    (h : ∀ e ∈ log, (∃ err, e = .fid2path err) ∨ ∃ action path, e = .handed action path) :
    ¬ Answered log := by
  rintro (⟨retry, errval, err, hmem⟩ | ⟨⟨isError, err, hmem⟩, -⟩)
  · rcases h _ hmem with ⟨_, heq⟩ | ⟨_, _, heq⟩ <;> cases heq
  · rcases h _ hmem with ⟨_, heq⟩ | ⟨_, _, heq⟩ <;> cases heq

theorem Answered.cons {log : List Event} (h : Answered log) {e : Event}
    (he : ∀ isError err, e ≠ .actionBegin isError err) : Answered (e :: log) := by
  rcases h with ⟨retry, errval, err, hmem⟩ | ⟨⟨isError, err, hmem⟩, hall⟩
  · exact Or.inl ⟨retry, errval, err, List.mem_cons_of_mem _ hmem⟩
  · refine Or.inr ⟨⟨isError, err, List.mem_cons_of_mem _ hmem⟩, fun b err' hmem' => ?_⟩
    rcases List.mem_cons.mp hmem' with heq | hmem'
    · exact absurd heq.symm (he b err')
    · exact hall b err' hmem'

/-- A `ct_action_done` without a handle answers the item by itself. -/
theorem ctActionDone_answered (env : DoneEnv) (retry : Bool) (ctRc : Int) :
    Answered (ctActionDone env false retry ctRc).log := by
  rcases ctActionDone_answers env false retry ctRc with ⟨err, hend⟩ | ⟨-, hfail⟩
  · exact Or.inl ⟨retry, _, err, hend⟩
  · exact Or.inr hfail

/-- Once a path is handed over, an archive or restore that is over has been answered exactly
when the MDT index call of a restore succeeded. -/
theorem dispatchAction_answered_iff {cfg : Config} {lib : LibS3} {env : ItemEnv}
    {hai : HsmActionItem} (file : PathBuf)
    (hact : hai.action = .archive ∨ hai.action = .restore) :
    (∀ rc, (dispatchAction cfg lib env hai file).out = .done rc →
        Answered (dispatchAction cfg lib env hai file).log)
      ↔ (hai.action = .restore → env.restore.mdtIndexErr = 0) := by
  rcases hact with hact | hact
  · simp only [dispatchAction, hact, Exec.emit_bind, reduceCtorEq, false_implies, iff_true]
    intro rc hout
    exact (ctArchive_answered hout).cons (fun _ _ => by simp)
  · simp only [dispatchAction, hact, Exec.emit_bind, true_implies]
    constructor
    · intro h
      by_contra hmdt
      -- the early return of `ct_restore` comes before any call to the coordinator
      refine not_answered_of_silent ?_ (h (-(env.restore.mdtIndexErr : Int)) ?_)
      · intro e he
        simp only [ctRestore, hmdt, ne_eq, not_false_iff, if_true, Exec.pure_log,
          List.mem_singleton] at he
        exact Or.inr ⟨_, _, he⟩
      · simp [ctRestore, hmdt]
    · intro hmdt rc hout
      exact (ctRestore_answered hmdt hout).cons (fun _ _ => by simp)

/-- **When an item is answered.** An item that is over has had an end call, or begin calls all
of which failed, exactly when every step before its begin call succeeded. -/
theorem item_answered_iff (cfg : Config) (lib : LibS3) (async : AsyncEnv) (env : ItemEnv)
    (hai : HsmActionItem) :
    (∀ rc, (ctProcessItemAsync cfg lib async env hai).out = .done rc →
        Answered (ctProcessItemAsync cfg lib async env hai).log)
      ↔ ReachesBegin cfg async env hai := by
  unfold ReachesBegin
  rw [← asyncReturn_eq_zero_iff, ctProcessItemAsync]
  by_cases hasync : asyncReturn async = 0
  swap
  · -- no worker: the dispatcher only gives the permit back
    simp only [hasync, if_false, false_and, iff_false]
    intro h
    exact not_answered_of_silent (by simp) (h (asyncReturn async) rfl)
  simp only [hasync, if_true, true_and]
  by_cases hact : hai.action = .archive ∨ hai.action = .restore
  swap
  · -- any other action is refused with a `ct_action_done` of its own
    push Not at hact
    simp only [ctProcessItem, hact, ne_eq, not_false_iff, and_self, if_true, or_self,
      false_implies, iff_true,
      Exec.bind_of_done (ctActionDone_out _ _ _ _), Exec.pure_log, List.append_nil]
    exact fun _ _ => ctActionDone_answered _ _ _
  have hguard : ¬ (hai.action ≠ .archive ∧ hai.action ≠ .restore) := by tauto
  simp only [ctProcessItem, hguard, if_false, hact, true_implies]
  by_cases hpath : cfg.oVerbose ≥ llapiMsgInfo ∨ cfg.oDryRun = true
  swap
  · simp only [hpath, if_false, false_implies, true_and]
    exact dispatchAction_answered_iff _ hact
  simp only [hpath, if_true, true_implies, Exec.emit_bind]
  by_cases herr : env.fid2pathErr = 0
  swap
  · simp only [herr, ne_eq, not_false_iff, if_true, false_and, iff_false]
    intro h
    refine not_answered_of_silent (fun e he => ?_) (h (-(env.fid2pathErr : Int)) rfl)
    exact Or.inl ⟨_, List.mem_singleton.mp he⟩
  rw [← dispatchAction_answered_iff (.fid2path env.path) hact]
  simp only [herr, ne_eq, not_true, if_false, true_and]
  -- the lookup in front of the dispatch is neither a begin nor an end
  constructor
  · intro h rc hout
    rcases h rc hout with ⟨retry, errval, err, hmem⟩ | ⟨⟨isError, err, hmem⟩, hall⟩
    · exact Or.inl ⟨retry, errval, err, by simpa using hmem⟩
    · exact Or.inr ⟨⟨isError, err, by simpa using hmem⟩,
        fun b err' hmem' => hall b err' (List.mem_cons_of_mem _ hmem')⟩
  · exact fun h rc hout => (h rc hout).cons (fun _ _ => by simp)

/-- `llapi_fid2path` fails with `ENOENT`: the worker ends without a call to the coordinator. -/
theorem unanswered_without_path :
    ¬ ∀ rc, (ctProcessItemAsync (.setup (cstr ['/', 'l']) (cstr ['/', 'l'])) .upstream .smooth
          { ItemEnv.smooth (cstr ['f']) [] with fid2pathErr := 2 }
          ⟨.archive, ⟨1, 1, 0⟩, .whole⟩).out = .done rc →
        Answered (ctProcessItemAsync (.setup (cstr ['/', 'l']) (cstr ['/', 'l'])) .upstream .smooth
          { ItemEnv.smooth (cstr ['f']) [] with fid2pathErr := 2 }
          ⟨.archive, ⟨1, 1, 0⟩, .whole⟩).log := by
  intro h
  refine not_answered_of_silent ?_ (h (-2) (by decide))
  intro e he
  refine Or.inl ⟨2, ?_⟩
  exact List.mem_singleton.mp he

/-! ## Error value 0 -/

/-- Outside a dry run the archive arrives at its end with 0 only after an upload that returned
0, or without an object name. -/
theorem ctArchiveBody_zero {cfg : Config} {lib : LibS3} {env : ArchiveEnv}
    {hai : HsmActionItem} {filePath : CString} {err : Nat} (hdry : cfg.oDryRun = false)
    (h : (ctArchiveBody cfg lib env hai filePath err).out = .done 0) :
    objectName cfg env.stack filePath = none
      ∨ ∃ name, objectName cfg env.stack filePath = some name
        ∧ (.archiveData name 0 ∈ (ctArchiveBody cfg lib env hai filePath err).log
          ∨ .archiveDataBig name 0 ∈ (ctArchiveBody cfg lib env hai filePath err).log) := by
  unfold ctArchiveBody at h ⊢
  by_cases herr : err = 0
  swap
  · simp [herr] at h
  simp only [herr, ne_eq, not_true, if_false, hdry, Bool.false_eq_true] at h ⊢
  by_cases hfd : env.srcFd < 0
  · simp only [hfd, if_true, Exec.pure_out, Outcome.done.injEq] at h
    omega
  simp only [hfd, if_false] at h ⊢
  rcases ctArchiveCheck_cases hai env.fstat with ⟨-, hcheck⟩ | ⟨-, -, hcheck⟩ | ⟨-, -, hcheck⟩
  · simp [hcheck] at h
  swap
  · simp [hcheck] at h
  simp only [hcheck, Exec.pure_bind, Bool.true_eq_false, if_false] at h ⊢
  by_cases hbig : env.fstat.size > maxFileSize
  · simp [hbig, eio] at h
  simp only [hbig, if_false] at h ⊢
  by_cases hfits : FitsFullPath cfg filePath
  swap
  · simp [fullPathTarget_of_long _ hfits] at h
  simp only [fullPathTarget_of_fits _ hfits, Exec.pure_bind] at h ⊢
  cases hname : objectName cfg env.stack filePath with
  | none => exact Or.inl rfl
  | some name =>
    refine Or.inr ⟨name, rfl, ?_⟩
    simp only [hname] at h
    by_cases hlevel : env.fstat.size ≥ maxObjSizeLevel
    · simp only [hlevel, if_true] at h ⊢
      obtain ⟨rc, hrc, h⟩ := Exec.bind_out_done.mp h
      simp only [Exec.emit_bind, Exec.pure_out, Outcome.done.injEq] at h
      subst h
      right
      exact Exec.mem_bind_log.mpr (Or.inr ⟨0, hrc, List.mem_cons_self ..⟩)
    · simp only [hlevel, if_false] at h ⊢
      obtain ⟨rc, hrc, h⟩ := Exec.bind_out_done.mp h
      simp only [Exec.emit_bind, Exec.pure_out, Outcome.done.injEq] at h
      subst h
      left
      exact Exec.mem_bind_log.mpr (Or.inr ⟨0, hrc, List.mem_cons_self ..⟩)

/-- `get_s3_object` returns 0 or `-EIO`. -/
theorem getS3Object_ret {lib : LibS3} {name : CString} {attempts : List GetAttempt} {rc : Int}
    {data : GetObjectCallbackData}
    (h : (getS3Object lib name attempts).out = .done (rc, data)) : rc = 0 ∨ rc = -(eio : Int) := by
  obtain ⟨data', -, h⟩ := Exec.bind_out_done.mp h
  split at h
  · simp only [Exec.pure_out, Outcome.done.injEq, Prod.mk.injEq] at h
    exact Or.inr h.1.symm
  · simp only [Exec.pure_out, Outcome.done.injEq, Prod.mk.injEq] at h
    exact Or.inl h.1.symm

/-- A data phase that returned 0, for a file with a name: a download that did, between progress
reports. The result of the final report is never 0 in place of a failed download. -/
theorem ctRestoreData_done {cfg : Config} {lib : LibS3} {env : RestoreDataEnv}
    {hai : HsmActionItem} {filePath name : CString}
    (hname : objectName cfg env.stack filePath = some name)
    (h : (ctRestoreData cfg lib env hai filePath).out = .done 0) :
    ∃ data before after, (getS3Object lib name env.gets).out = .done (0, data)
      ∧ (ctRestoreData cfg lib env hai filePath).log
        = before ++ ((getS3Object lib name env.gets).log ++ .getS3Object name 0 :: after)
      ∧ ∀ e ∈ before ++ after,
        ∃ offset length total err, e = .actionProgress offset length total err := by
  have hreport : ∀ offset length total rcs, (llapiHsmActionProgressEx offset length total rcs).Logs
      fun e => ∃ offset length total err, e = .actionProgress offset length total err :=
    fun _ _ _ _ => logs_progress _ _ _ _ fun err => ⟨_, _, _, err, rfl⟩
  unfold ctRestoreData at h ⊢
  by_cases hstat : env.fstat.err = 0
  swap
  · simp [hstat] at h
  simp only [hstat, ne_eq, not_true, if_false] at h ⊢
  by_cases hreg : env.fstat.isReg = false
  · simp [hreg, einval] at h
  rw [if_neg hreg] at h ⊢
  obtain ⟨r, hr, h⟩ := Exec.bind_out_done.mp h
  obtain ⟨target, htarget, h⟩ := Exec.bind_out_done.mp h
  obtain ⟨hfits, rfl⟩ := fullPathTarget_done htarget
  simp only [hname] at h
  by_cases hlen : hai.extent.length = u64Max
  swap
  · simp [hlen] at h
  by_cases hoff : hai.extent.offset = 0
  swap
  · simp [hlen, hoff] at h
  rw [if_pos hlen, if_pos hoff] at h
  obtain ⟨⟨rc, data⟩, hget, h⟩ := Exec.bind_out_done.mp h
  -- the download returned 0, so the log is what came before it, its own, and the reports
  rcases getS3Object_ret hget with rfl | rfl
  swap
  · simp [eio] at h
  rw [Exec.bind_log_of_done hr]
  simp only [fullPathTarget_of_fits _ hfits, Exec.pure_bind, hname]
  rw [if_pos hlen, if_pos hoff, Exec.bind_log_of_done hget, Exec.emit_bind]
  refine ⟨data, _, _, hget, rfl, fun e he => ?_⟩
  rcases List.mem_append.mp he with he | he
  · exact hreport _ _ _ _ e he
  · refine Exec.logs_ite
      (p := fun e => ∃ offset length total err, e = .actionProgress offset length total err)
      (Exec.logs_pure _ _) (Exec.logs_ite ?_ (Exec.logs_pure _ _)) e he
    exact (hreport _ _ _ _).bind fun _ _ => Exec.logs_pure _ _

/-- `ct_restore_data` returns 0 only after a download that returned 0, or without an object
name. -/
theorem ctRestoreData_zero {cfg : Config} {lib : LibS3} {env : RestoreDataEnv}
    {hai : HsmActionItem} {filePath : CString}
    (h : (ctRestoreData cfg lib env hai filePath).out = .done 0) :
    objectName cfg env.stack filePath = none
      ∨ ∃ name, objectName cfg env.stack filePath = some name
        ∧ .getS3Object name 0 ∈ (ctRestoreData cfg lib env hai filePath).log := by
  cases hname : objectName cfg env.stack filePath with
  | none => exact Or.inl rfl
  | some name =>
    obtain ⟨data, before, after, -, hlog, -⟩ := ctRestoreData_done hname h
    refine Or.inr ⟨name, rfl, ?_⟩
    rw [hlog]
    exact List.mem_append_right _ (List.mem_append_right _ (List.mem_cons_self ..))

theorem ctRestoreBody_zero {cfg : Config} {lib : LibS3} {env : RestoreEnv}
    {hai : HsmActionItem} {filePath : CString} {err : Nat} {failed : Bool}
    (hdry : cfg.oDryRun = false)
    (h : (ctRestoreBody cfg lib env hai filePath err).out = .done (0, failed)) :
    objectName cfg env.data.stack filePath = none
      ∨ ∃ name, objectName cfg env.data.stack filePath = some name
        ∧ .getS3Object name 0 ∈ (ctRestoreBody cfg lib env hai filePath err).log := by
  unfold ctRestoreBody at h ⊢
  by_cases herr : err = 0
  swap
  · simp [herr] at h
  by_cases hdfid : env.dfidErr = 0
  swap
  · simp [herr, hdfid] at h
  simp only [herr, hdfid, ne_eq, not_true, if_false, hdry, Bool.false_eq_true] at h ⊢
  by_cases hfd : env.dstFd < 0
  · simp only [hfd, if_true, Exec.pure_out, Outcome.done.injEq, Prod.mk.injEq] at h
    omega
  simp only [hfd, if_false] at h ⊢
  obtain ⟨rc, hdata, h⟩ := Exec.bind_out_done.mp h
  -- the body returns what the data phase returned, `errMajor` or not
  obtain rfl : rc = 0 := by
    split at h
    · simpa using (by simpa using h : rc = 0 ∧ true = failed).1
    · simpa using (by simpa using h : rc = 0 ∧ false = failed).1
  rcases ctRestoreData_zero hdata with hnone | ⟨name, hname, hmem⟩
  · exact Or.inl hnone
  · exact Or.inr ⟨name, hname, Exec.mem_bind_log.mpr (Or.inl hmem)⟩

/-- The error value an archive reports is the one its body arrived with. -/
theorem ctArchive_reports {cfg : Config} {lib : LibS3} {env : ArchiveEnv} {hai : HsmActionItem}
    {filePath : CString} {v : Int} (h : .actionDone v ∈ (ctArchive cfg lib env hai filePath).log) :
    (ctArchiveBody cfg lib env hai filePath (beginErr env.beginRcs)).out = .done v := by
  have hbegin : (ctBeginRestore env.beginRcs).out = .done (beginErr env.beginRcs) :=
    beginEx_out false _
  rw [ctArchive, Exec.bind_log_of_done hbegin, List.mem_append] at h
  rcases h with h | h
  · obtain ⟨_, h⟩ := beginEx_log_cases h
    cases h
  rcases Exec.mem_bind_log.mp h with h | ⟨rc, hbody, h⟩
  · have := moves_ctArchiveBody _ _ _ _ _ _ _ h
    cases this
  simp only [Exec.emit_bind, List.mem_cons, reduceCtorEq, false_or] at h
  rcases Exec.mem_bind_log.mp h with h | ⟨_, _, h⟩
  · rw [mem_actionDone_ctActionDone.mp h, hbody]
  · simp at h

theorem ctRestore_reports {cfg : Config} {lib : LibS3} {env : RestoreEnv} {hai : HsmActionItem}
    {filePath : CString} {v : Int} (h : .actionDone v ∈ (ctRestore cfg lib env hai filePath).log) :
    ∃ failed, env.mdtIndexErr = 0 ∧
      (ctRestoreBody cfg lib env hai filePath (beginErr env.beginRcs)).out
        = .done (v, failed) := by
  unfold ctRestore at h
  by_cases hmdt : env.mdtIndexErr = 0
  swap
  · simp [hmdt] at h
  have hbegin : (ctBeginRestore env.beginRcs).out = .done (beginErr env.beginRcs) :=
    beginEx_out false _
  simp only [hmdt, ne_eq, not_true, if_false, Exec.bind_log_of_done hbegin,
    List.mem_append] at h
  rcases h with h | h
  · obtain ⟨_, h⟩ := beginEx_log_cases h
    cases h
  rcases Exec.mem_bind_log.mp h with h | ⟨⟨rc, failed⟩, hbody, h⟩
  · have := moves_ctRestoreBody _ _ _ _ _ _ _ h
    cases this
  refine ⟨failed, hmdt, ?_⟩
  rcases Exec.mem_bind_log.mp h with h | ⟨_, _, h⟩
  · rw [mem_actionDone_ctActionDone.mp h, hbody]
  · simp at h

theorem objectName_isSome {cfg : Config} (stack : List Char) {filePath : CString}
    (hpre : cfg.pathPrefix.chars <+: (joinPath cfg.oMnt filePath).chars) :
    objectName cfg stack filePath ≠ none := by
  have h := (targetName_isSome_iff cfg.pathPrefix stack (joinPath cfg.oMnt filePath)).mpr hpre
  intro hnone
  have hname : targetName cfg.pathPrefix stack (joinPath cfg.oMnt filePath) = none := hnone
  rw [hname] at h
  cases h

/-- **Error value 0 means moved data.** For a file whose full path starts with `path_prefix`,
outside a dry run: `ct_archive` passes 0 to `ct_action_done` only after an upload to the item's
object that returned 0, and `ct_restore` only after a download of it that returned 0. -/
theorem zero_only_after_transfer (cfg : Config) (lib : LibS3) (hai : HsmActionItem)
    (filePath : CString) (hdry : cfg.oDryRun = false)
    (hpre : cfg.pathPrefix.chars <+: (joinPath cfg.oMnt filePath).chars) :
    (∀ env : ArchiveEnv, .actionDone 0 ∈ (ctArchive cfg lib env hai filePath).log →
        ∃ name, objectName cfg env.stack filePath = some name
          ∧ (.archiveData name 0 ∈ (ctArchive cfg lib env hai filePath).log
            ∨ .archiveDataBig name 0 ∈ (ctArchive cfg lib env hai filePath).log))
      ∧ (∀ env : RestoreEnv, .actionDone 0 ∈ (ctRestore cfg lib env hai filePath).log →
        ∃ name, objectName cfg env.data.stack filePath = some name
          ∧ .getS3Object name 0 ∈ (ctRestore cfg lib env hai filePath).log) := by
  constructor
  · intro env hdone
    have hbody := ctArchive_reports hdone
    rcases ctArchiveBody_zero hdry hbody with hnone | ⟨name, hname, hmem⟩
    · exact absurd hnone (objectName_isSome _ hpre)
    refine ⟨name, hname, ?_⟩
    rw [ctArchive_eq_of_body hbody]
    simp only [List.mem_append]
    tauto
  · intro env hdone
    obtain ⟨failed, hmdt, hbody⟩ := ctRestore_reports hdone
    rcases ctRestoreBody_zero hdry hbody with hnone | ⟨name, hname, hmem⟩
    · exact absurd hnone (objectName_isSome _ hpre)
    refine ⟨name, hname, ?_⟩
    rw [ctRestore_eq_of_body hmdt hbody]
    simp only [List.mem_append]
    tauto

/-- A two-byte file is archived to the object `f`, and 0 is reported. -/
theorem zero_after_put :
    .actionDone 0 ∈ (ctArchive (.setup (cstr ['/', 'l']) (cstr ['/', 'l'])) .upstream
        (.smooth [1, 2]) ⟨.archive, ⟨1, 1, 0⟩, .whole⟩ (cstr ['f'])).log
      ∧ ∃ name, objectName (.setup (cstr ['/', 'l']) (cstr ['/', 'l'])) [] (cstr ['f'])
          = some name
        ∧ (.archiveData name 0 ∈ (ctArchive (.setup (cstr ['/', 'l']) (cstr ['/', 'l'])) .upstream
            (.smooth [1, 2]) ⟨.archive, ⟨1, 1, 0⟩, .whole⟩ (cstr ['f'])).log
          ∨ .archiveDataBig name 0 ∈ (ctArchive (.setup (cstr ['/', 'l']) (cstr ['/', 'l']))
            .upstream (.smooth [1, 2]) ⟨.archive, ⟨1, 1, 0⟩, .whole⟩ (cstr ['f'])).log) := by
  have hdone : .actionDone 0 ∈ (ctArchive (.setup (cstr ['/', 'l']) (cstr ['/', 'l'])) .upstream
      (.smooth [1, 2]) ⟨.archive, ⟨1, 1, 0⟩, .whole⟩ (cstr ['f'])).log := by decide +kernel
  exact ⟨hdone, (zero_only_after_transfer _ _ _ _ rfl (by decide)).1 (.smooth [1, 2]) hdone⟩

/-- A file outside `path_prefix`: both operations report 0 and move nothing. -/
theorem zero_without_transfer :
    (.actionDone 0 ∈ (ctArchive (.setup (cstr ['/', 'l']) (cstr ['/', 'm'])) .upstream
          (.smooth [1, 2]) ⟨.archive, ⟨1, 1, 0⟩, .whole⟩ (cstr ['f'])).log
        ∧ ∀ name rc, .archiveData name rc ∉ (ctArchive (.setup (cstr ['/', 'l'])
              (cstr ['/', 'm'])) .upstream (.smooth [1, 2]) ⟨.archive, ⟨1, 1, 0⟩, .whole⟩
              (cstr ['f'])).log
          ∧ .archiveDataBig name rc ∉ (ctArchive (.setup (cstr ['/', 'l'])
              (cstr ['/', 'm'])) .upstream (.smooth [1, 2]) ⟨.archive, ⟨1, 1, 0⟩, .whole⟩
              (cstr ['f'])).log)
      ∧ (.actionDone 0 ∈ (ctRestore (.setup (cstr ['/', 'l']) (cstr ['/', 'm'])) .upstream
          (.smooth [1, 2]) ⟨.restore, ⟨1, 1, 0⟩, .whole⟩ (cstr ['f'])).log
        ∧ ∀ name rc, .getS3Object name rc ∉ (ctRestore (.setup (cstr ['/', 'l'])
              (cstr ['/', 'm'])) .upstream (.smooth [1, 2]) ⟨.restore, ⟨1, 1, 0⟩, .whole⟩
              (cstr ['f'])).log) := by
  have harchive : (ctArchive (.setup (cstr ['/', 'l']) (cstr ['/', 'm'])) .upstream
      (.smooth [1, 2]) ⟨.archive, ⟨1, 1, 0⟩, .whole⟩ (cstr ['f'])).log
        = [.actionBegin false 0, .errMajor, .actionDone 0, .actionEnd false 0 0] := by
    decide +kernel
  have hrestore : (ctRestore (.setup (cstr ['/', 'l']) (cstr ['/', 'm'])) .upstream
      (.smooth [1, 2]) ⟨.restore, ⟨1, 1, 0⟩, .whole⟩ (cstr ['f'])).log
        = [.actionBegin false 0, .actionProgress 0 0 (2 ^ 64 - 1) 0, .actionDone 0,
          .actionEnd false 0 0] := by
    decide +kernel
  rw [harchive, hrestore]
  simp

end Estuary
