import Estuary.Spec.Log

/-!
# Estuary — what a step of the log can do

The transition function of `Estuary.Spec.Log`, read as a relation: one case for each branch of
`_tlog_vprintf`, `_tlog_work` and `tlog_exit`, with the test that leads there. What the invariants of
the log need of a step they get by cases on these.

* **`logStep_cases`** — the inversion;
* **`SameRing`** — what most steps leave alone: the block, and the positions in it.
-/

namespace Estuary

open Engine

/-- The block and the positions in it. -/
structure SameRing (log log' : TlogLog) : Prop where
  buff : log'.buff = log.buff
  start : log'.start = log.start
  end_ : log'.end_ = log.end_
  extEnd : log'.extEnd = log.extEnd

theorem SameRing.refl (log : TlogLog) : SameRing log log := ⟨rfl, rfl, rfl, rfl⟩

theorem SameRing.hasData {log log' : TlogLog} (h : SameRing log log') :
    log'.hasData = log.hasData := by
  rw [TlogLog.hasData, TlogLog.hasData, h.start, h.end_, h.extEnd]

/-- The log's thread holds no snapshot. -/
def WorkPc.away : WorkPc → Bool
  | .upper _ => false
  | .lower _ => false
  | .note _ => false
  | .release _ => false
  | _ => true

/-! ## The helpers, field by field -/

section Fields

variable (s : Tlog) (i : Nat) (pc : PrintPc)

@[simp] theorem signal_log : s.signal.log = s.log := rfl
@[simp] theorem notify_log : s.notify.log = s.log := rfl
@[simp] theorem notify_run : s.notify.run = s.run := rfl
@[simp] theorem notify_isWait : s.notify.isWait = s.isWait := rfl
@[simp] theorem notify_printers : s.notify.printers = s.printers := rfl
@[simp] theorem notify_accepted : s.notify.accepted = s.accepted := rfl
@[simp] theorem notify_output : s.notify.output = s.output := rfl
@[simp] theorem notify_refused : s.notify.refused = s.refused := rfl
@[simp] theorem notify_exit : s.notify.exit = s.exit := rfl
@[simp] theorem notify_worker : s.notify.worker = s.signal.worker := rfl

@[simp] theorem move_log : (s.move i pc).log = s.log := rfl
@[simp] theorem move_worker : (s.move i pc).worker = s.worker := rfl
@[simp] theorem move_printers : (s.move i pc).printers = s.printers.set i pc := rfl
@[simp] theorem move_accepted : (s.move i pc).accepted = s.accepted := rfl
@[simp] theorem move_output : (s.move i pc).output = s.output := rfl

@[simp] theorem drop_worker : (s.drop i).worker = s.worker := rfl
@[simp] theorem drop_printers : (s.drop i).printers = s.printers.set i .idle := rfl
@[simp] theorem drop_accepted : (s.drop i).accepted = s.accepted := rfl
@[simp] theorem drop_output : (s.drop i).output = s.output := rfl

theorem drop_sameRing : SameRing s.log (s.drop i).log := ⟨rfl, rfl, rfl, rfl⟩

/-- A signal only ever wakes the log's thread. -/
theorem signal_worker : s.signal.worker = if s.worker = .asleep then .awake else s.worker := rfl

theorem begin_sameRing : SameRing s.log s.begin.log := by
  unfold Tlog.begin
  split <;> exact ⟨rfl, rfl, rfl, rfl⟩

@[simp] theorem begin_printers : s.begin.printers = s.printers := by
  unfold Tlog.begin
  split <;> rfl

@[simp] theorem begin_accepted : s.begin.accepted = s.accepted := by
  unfold Tlog.begin
  split <;> rfl

@[simp] theorem begin_output : s.begin.output = s.output := by
  unfold Tlog.begin
  split <;> rfl

/-- A notification changes nothing but that the log's thread wakes, if it sleeps. -/
structure Notified (s s' : Tlog) : Prop where
  log : s'.log = s.log
  run : s'.run = s.run
  isWait : s'.isWait = s.isWait
  printers : s'.printers = s.printers
  exit : s'.exit = s.exit
  accepted : s'.accepted = s.accepted
  output : s'.output = s.output
  refused : s'.refused = s.refused
  worker : s'.worker = s.worker ∨ s.worker = .asleep ∧ s'.worker = .awake

theorem notify_notified : Notified s s.notify := by
  refine ⟨rfl, rfl, rfl, rfl, rfl, rfl, rfl, rfl, ?_⟩
  rw [notify_worker, signal_worker]
  split
  · next h => exact Or.inr ⟨h, rfl⟩
  · exact Or.inl rfl

theorem notified_of_ite {s : Tlog} {p : Prop} [Decidable p] {s' : Tlog}
    (h : s' = if p then s.notify else s) : Notified s s' := by
  subst h
  split
  · exact notify_notified s
  · exact ⟨rfl, rfl, rfl, rfl, rfl, rfl, rfl, rfl, Or.inl rfl⟩

theorem Notified.away {s s' : Tlog} (h : Notified s s') : s'.worker.away = s.worker.away := by
  rcases h.worker with heq | ⟨hasleep, hawake⟩
  · rw [heq]
  · rw [hasleep, hawake]
    rfl

end Fields

/-! ## The inversion -/

/-- What a step can do, one case for each branch of the source. -/
inductive LogMove (conf : LogConf) (s : Tlog) : LogAct → Tlog → Prop where
  -- `_tlog_vprintf`
  | muted {i : Nat} {out : PrintOut} (hpc : s.printers[i]? = some .idle) :
      LogMove conf s (.print i out) s
  | call {i : Nat} {out : PrintOut} (hpc : s.printers[i]? = some .idle) :
      LogMove conf s (.print i out) (s.move i (.entered out))
  | dropEarly {i : Nat} {out : PrintOut} (hpc : s.printers[i]? = some (.entered out))
      (hblock : conf.block = false) (hfull : s.log.maxlen conf 0 < conf.maxLineSize) :
      LogMove conf s (.printer i) (s.drop i)
  | giveUp {i : Nat} {out : PrintOut} (hpc : s.printers[i]? = some (.entered out))
      (hline : tlogLine conf.maxLineSize out = none) :
      LogMove conf s (.printer i) (s.move i .idle)
  | format {i : Nat} {out : PrintOut} {line : List UInt8}
      (hpc : s.printers[i]? = some (.entered out))
      (hline : tlogLine conf.maxLineSize out = some line) :
      LogMove conf s (.printer i) (s.move i (.ready line 0))
  | block {i maxlen : Nat} {line : List UInt8} {s' : Tlog}
      (hpc : s.printers[i]? = some (.ready line maxlen))
      (hfull : s.log.maxlen conf maxlen < conf.maxLineSize) (hblock : conf.block = true)
      (hnotify : s' = if s.log.end_ ≠ s.log.start then s.notify else s) :
      LogMove conf s (.printer i) (s'.move i (.full line (s.log.maxlen conf maxlen)))
  | dropLate {i maxlen : Nat} {line : List UInt8} {s' : Tlog}
      (hpc : s.printers[i]? = some (.ready line maxlen))
      (hfull : s.log.maxlen conf maxlen < conf.maxLineSize) (hblock : conf.block = false)
      (hnotify : s' = if s.log.end_ ≠ s.log.start then s.notify else s) :
      LogMove conf s (.printer i) (s'.drop i)
  | put {i maxlen : Nat} {line : List UInt8} {s' t : Tlog}
      (hpc : s.printers[i]? = some (.ready line maxlen))
      (hroom : conf.maxLineSize ≤ s.log.maxlen conf maxlen)
      (hput : s' = { s.move i .idle with
        log := s.log.put conf line
        accepted := s.accepted ++ [(i, line)] })
      (hnotify : t = if s'.isWait then s'.notify else s') :
      LogMove conf s (.printer i) t
  | wait {i maxlen : Nat} {line : List UInt8} (hpc : s.printers[i]? = some (.full line maxlen)) :
      LogMove conf s (.printer i) { s.move i (.sleeping line maxlen) with
        log := { s.log with waiters := s.log.waiters + 1 } }
  | retake {i maxlen : Nat} {line : List UInt8} (hpc : s.printers[i]? = some (.woken line maxlen)) :
      LogMove conf s (.printer i) { s.move i (.ready line maxlen) with
        log := { s.log with waiters := s.log.waiters - 1 } }
  | rouse {i maxlen : Nat} {line : List UInt8}
      (hpc : s.printers[i]? = some (.sleeping line maxlen)) :
      LogMove conf s (.rouse i) (s.move i (.woken line maxlen))
  -- `_tlog_work`
  | top {log : Bool} (hpc : s.worker = .top log) :
      LogMove conf s .work { s with worker := if s.run then .next log else .lastCheck log }
  | stay {log : Bool} (hpc : s.worker = .lastCheck log) (hdata : s.log.hasData = true) :
      LogMove conf s .work { s with worker := .next log }
  | end_ {log : Bool} (hpc : s.worker = .lastCheck log) (hempty : s.log.hasData = false) :
      LogMove conf s .work { s with worker := .ended }
  | listEnd (hpc : s.worker = .next true) : LogMove conf s .work { s with worker := .top false }
  | sleep (hpc : s.worker = .next false) (hempty : s.log.hasData = false) (hrun : s.run = true) :
      LogMove conf s .work { s with worker := .asleep, isWait := true }
  | start (hpc : s.worker = .next false) (hgo : ¬ (s.log.hasData = false ∧ s.run = true)) :
      LogMove conf s .work s.begin
  | startAwake (hpc : s.worker = .awake) (hnotify : s.notifyLog = true) :
      LogMove conf s .work { s with isWait := false, notifyLog := false }.begin
  | pause (hpc : s.worker = .awake) (hnotify : s.notifyLog = false) :
      LogMove conf s .work { s with isWait := false, worker := .paused }
  | resume (hpc : s.worker = .paused) : LogMove conf s .work { s with worker := .top false }
  | upper {snap : Snapshot} (hpc : s.worker = .upper snap) :
      LogMove conf s .work { s with
        worker := .lower snap
        output := s.output
          ++ conf.handOut (stretch s.log.buff s.log.start (s.log.start + snap.logLen)) }
  | lower {snap : Snapshot} (hpc : s.worker = .lower snap) :
      LogMove conf s .work { s with
        worker := .note snap
        output := if snap.logExtlen > 0 then
            s.output ++ conf.handOut (stretch s.log.buff 0 snap.logExtlen)
          else s.output }
  | note {snap : Snapshot} (hpc : s.worker = .note snap) :
      LogMove conf s .work { s with
        worker := .release snap
        output := if snap.logDropped > 0 then
            s.output ++ [.dropNote (conf.noteNumber snap.logDropped)]
          else s.output }
  | release {snap : Snapshot} (hpc : s.worker = .release snap) :
      LogMove conf s .work { s with worker := .wakeup, log := s.log.release snap }
  | wakeup (hpc : s.worker = .wakeup) :
      LogMove conf s .work { s with
        worker := .top true
        printers := if s.log.waiters > 0 then s.printers.map PrintPc.broadcast else s.printers }
  | rouseWork (hpc : s.worker = .asleep) : LogMove conf s .rouseWork { s with worker := .awake }
  -- `tlog_exit`
  | stop (hpc : s.exit = .before) : LogMove conf s .exit { s with run := false, exit := .stopped }
  | join (hpc : s.exit = .stopped) : LogMove conf s .exit { s.signal with exit := .joining }

variable {conf : LogConf} {s t : Tlog}

theorem enterStep_cases {i : Nat} {out : PrintOut} (hpc : s.printers[i]? = some (.entered out)) :
    LogMove conf s (.printer i) (enterStep conf s i out) := by
  unfold enterStep
  split
  · next h => exact .dropEarly hpc h.1 h.2
  · split
    · next hline => exact .giveUp hpc hline
    · next hline => exact .format hpc hline

theorem lockStep_cases {i maxlen : Nat} {line : List UInt8}
    (hpc : s.printers[i]? = some (.ready line maxlen)) :
    LogMove conf s (.printer i) (lockStep conf s i line maxlen) := by
  simp only [lockStep]
  by_cases hfull : s.log.maxlen conf maxlen < conf.maxLineSize
  · rw [if_pos hfull]
    by_cases hblock : conf.block = true
    · rw [if_pos hblock]
      exact .block hpc hfull hblock rfl
    · rw [if_neg hblock]
      exact .dropLate hpc hfull (Bool.eq_false_iff.mpr hblock) rfl
  · rw [if_neg hfull]
    exact .put hpc (Nat.le_of_not_lt hfull) rfl rfl

theorem workStep_cases (h : workStep conf s s.worker = some t) : LogMove conf s .work t := by
  cases hpc : s.worker with
  | top log =>
    rw [hpc] at h
    cases h
    exact .top hpc
  | lastCheck log =>
    rw [hpc] at h
    cases h
    by_cases hdata : s.log.hasData = true
    · rw [if_pos hdata]
      exact .stay hpc hdata
    · rw [if_neg hdata]
      exact .end_ hpc (Bool.eq_false_iff.mpr hdata)
  | next log =>
    rw [hpc] at h
    cases log with
    | true =>
      cases h
      exact .listEnd hpc
    | false =>
      cases h
      by_cases hgo : s.log.hasData = false ∧ s.run = true
      · rw [if_pos hgo]
        exact .sleep hpc hgo.1 hgo.2
      · rw [if_neg hgo]
        exact .start hpc hgo
  | awake =>
    rw [hpc] at h
    cases h
    by_cases hnotify : s.notifyLog = true
    · rw [if_pos hnotify]
      exact .startAwake hpc hnotify
    · rw [if_neg hnotify]
      exact .pause hpc (Bool.eq_false_iff.mpr hnotify)
  | paused =>
    rw [hpc] at h
    cases h
    exact .resume hpc
  | upper snap =>
    rw [hpc] at h
    cases h
    exact .upper hpc
  | lower snap =>
    rw [hpc] at h
    cases h
    exact .lower hpc
  | note snap =>
    rw [hpc] at h
    cases h
    exact .note hpc
  | release snap =>
    rw [hpc] at h
    cases h
    exact .release hpc
  | wakeup =>
    rw [hpc] at h
    cases h
    exact .wakeup hpc
  | asleep =>
    rw [hpc] at h
    cases h
  | ended =>
    rw [hpc] at h
    cases h

/-- The inversion of `logStep`. -/
theorem logStep_cases {a : LogAct} (h : logStep conf s a = some t) : LogMove conf s a t := by
  cases a with
  | print i out =>
    simp only [logStep] at h
    split at h <;> cases h
    next hpc =>
    split
    · exact .muted hpc
    · exact .call hpc
  | printer i =>
    simp only [logStep] at h
    cases hpc : s.printers[i]? with
    | none =>
      rw [hpc] at h
      cases h
    | some pc =>
      simp only [hpc] at h
      cases pc with
      | entered out =>
        cases h
        exact enterStep_cases hpc
      | ready line maxlen =>
        cases h
        exact lockStep_cases hpc
      | full line maxlen =>
        cases h
        exact .wait hpc
      | woken line maxlen =>
        cases h
        exact .retake hpc
      | idle => cases h
      | sleeping line maxlen => cases h
  | rouse i =>
    simp only [logStep] at h
    split at h <;> cases h
    next hpc => exact .rouse hpc
  | work => exact workStep_cases h
  | rouseWork =>
    simp only [logStep] at h
    split at h <;> cases h
    next hpc => exact .rouseWork hpc
  | exit =>
    simp only [logStep] at h
    cases hpc : s.exit with
    | before =>
      rw [hpc] at h
      cases h
      exact .stop hpc
    | stopped =>
      rw [hpc] at h
      cases h
      exact .join hpc
    | joining =>
      rw [hpc] at h
      cases h

end Estuary
