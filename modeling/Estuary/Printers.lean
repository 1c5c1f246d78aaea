import Estuary.Engine.Threads
import Estuary.LogRuns

/-!
# Estuary — the log's thread and the threads that wait for it

* **`Vigilant.step`**, **`never_asleep_on_data`** — the log's thread does not sleep while there is
  something in the block;
* **`drops_accounted`** — every line that was refused is counted until a note stands for it, which
  says how many there were in segment mode only;
* **`no_stranded_printer`** — a thread that waits for room will be woken, in every run in which none
  is woken while another one stands between its test and its wait;
* **`stranded_in_gap`** — and is not, where that happens and nothing else stirs the log's thread.
-/

namespace Estuary

open Engine

/-! ## Sleeping -/

/-- `is_wait` and `run` say where the log's thread and `tlog_exit` are; the log's thread sleeps only
over an empty block, and not behind the signal of `tlog_exit`. -/
structure Vigilant (s : Tlog) : Prop where
  waits : s.isWait = true ↔ s.worker = .asleep ∨ s.worker = .awake
  runs : s.run = true ↔ s.exit = .before
  asleep : s.worker = .asleep → s.log.hasData = false ∧ s.exit ≠ .joining

section Vigilant

variable {conf : LogConf} {s t : Tlog}

theorem Vigilant.init (n : Nat) (block : conf.Block) : Vigilant (Tlog.init n block) where
  waits := ⟨nofun, fun h => by rcases h with h | h <;> cases h⟩
  runs := ⟨fun _ => rfl, fun _ => rfl⟩
  asleep := nofun

/-- A step that moves none of what the invariant is about, but may wake the log's thread. -/
theorem Vigilant.same (h : Vigilant s) (hdata : t.log.hasData = s.log.hasData)
    (hrun : t.run = s.run) (hexit : t.exit = s.exit) (hwait : t.isWait = s.isWait)
    (hworker : t.worker = s.worker ∨ s.worker = .asleep ∧ t.worker = .awake) : Vigilant t := by
  obtain ⟨hwaits, hruns, hasleep⟩ := h
  rcases hworker with hworker | ⟨hfrom, hto⟩
  · exact ⟨by rw [hwait, hworker]; exact hwaits, by rw [hrun, hexit]; exact hruns,
      by rw [hworker, hdata, hexit]; exact hasleep⟩
  · refine ⟨⟨fun _ => Or.inr hto, fun _ => ?_⟩, by rw [hrun, hexit]; exact hruns, fun hbad => ?_⟩
    · rw [hwait]
      exact hwaits.mpr (Or.inl hfrom)
    · rw [hto] at hbad
      cases hbad

/-- The log's thread moves on, from and to a position where it does not wait. -/
theorem Vigilant.work {pc : WorkPc} {log : TlogLog} {output : List LogOut}
    {printers : List PrintPc} (h : Vigilant s) (hfrom : ¬ (s.worker = .asleep ∨ s.worker = .awake))
    (hto : ¬ (pc = .asleep ∨ pc = .awake)) :
    Vigilant { s with worker := pc, log := log, output := output, printers := printers } where
  waits := ⟨fun hwait => absurd (h.waits.mp hwait) hfrom, fun hpc => absurd hpc hto⟩
  runs := h.runs
  asleep hpc := absurd (Or.inl hpc) hto

theorem Vigilant.begin (h : Vigilant s) (hfrom : ¬ (s.worker = .asleep ∨ s.worker = .awake)) :
    Vigilant s.begin := by
  have hto : ∀ snap, ¬ (WorkPc.upper snap = .asleep ∨ WorkPc.upper snap = .awake) :=
    fun snap => by rintro (h | h) <;> cases h
  unfold Tlog.begin
  split
  · exact h.work hfrom (hto _)
  · exact h.work hfrom (by rintro (h | h) <;> cases h)

theorem Vigilant.step (s : Tlog) (a : LogAct) (t : Tlog) (h : Vigilant s)
    (hstep : logStep conf s a = some t) : Vigilant t := by
  have hsame : Or (s.worker = s.worker) (s.worker = .asleep ∧ s.worker = .awake) := Or.inl rfl
  cases logStep_cases hstep with
  | muted hpc => exact h
  | call hpc => exact h.same rfl rfl rfl rfl hsame
  | dropEarly hpc hblock hfull => exact h.same rfl rfl rfl rfl hsame
  | giveUp hpc hline => exact h.same rfl rfl rfl rfl hsame
  | format hpc hline => exact h.same rfl rfl rfl rfl hsame
  | block hpc hfull hblock hnotify =>
    have hn := notified_of_ite hnotify
    exact h.same (congrArg TlogLog.hasData hn.log) hn.run hn.exit hn.isWait hn.worker
  | dropLate hpc hfull hblock hnotify =>
    have hn := notified_of_ite hnotify
    exact h.same ((drop_sameRing _ _).hasData.trans (congrArg TlogLog.hasData hn.log)) hn.run
      hn.exit hn.isWait hn.worker
  | @put i maxlen line s' _ hpc hroom hput hnotify =>
    -- who puts a line while the log's thread sleeps wakes it
    have hn := notified_of_ite hnotify
    have hrun : s'.run = s.run := by rw [hput]; rfl
    have hexit : s'.exit = s.exit := by rw [hput]; rfl
    have hwait : s'.isWait = s.isWait := by rw [hput]; rfl
    have hworker : s'.worker = s.worker := by rw [hput]; rfl
    refine ⟨?_, by rw [hn.run, hn.exit, hrun, hexit]; exact h.runs, fun hbad => ?_⟩
    · rw [hn.isWait, hwait, h.waits]
      have hw := hn.worker
      rw [hworker] at hw
      rcases hw with hw | ⟨hfrom, hto⟩
      · rw [hw]
      · exact ⟨fun _ => Or.inr hto, fun _ => Or.inl hfrom⟩
    · by_cases hasleep : s.worker = .asleep
      · rw [hnotify, if_pos (hwait.trans (h.waits.mpr (Or.inl hasleep))), notify_worker,
          signal_worker, if_pos (hworker.trans hasleep)] at hbad
        cases hbad
      · have hw := hn.worker
        rw [hworker, hbad] at hw
        rcases hw with hw | ⟨hfrom, -⟩
        · exact absurd hw.symm hasleep
        · exact absurd hfrom hasleep
  | wait hpc => exact h.same rfl rfl rfl rfl hsame
  | retake hpc => exact h.same rfl rfl rfl rfl hsame
  | rouse hpc => exact h.same rfl rfl rfl rfl hsame
  | top hpc =>
    refine h.work (by rw [hpc]; rintro (h | h) <;> cases h) ?_
    split <;> (rintro (h | h) <;> cases h)
  | stay hpc hdata =>
    exact h.work (by rw [hpc]; rintro (h | h) <;> cases h) (by rintro (h | h) <;> cases h)
  | end_ hpc hempty =>
    exact h.work (by rw [hpc]; rintro (h | h) <;> cases h) (by rintro (h | h) <;> cases h)
  | listEnd hpc =>
    exact h.work (by rw [hpc]; rintro (h | h) <;> cases h) (by rintro (h | h) <;> cases h)
  | sleep hpc hempty hrun =>
    refine ⟨⟨fun _ => Or.inl rfl, fun _ => rfl⟩, h.runs, fun _ => ⟨hempty, ?_⟩⟩
    show s.exit ≠ .joining
    rw [h.runs.mp hrun]
    exact nofun
  | start hpc hgo => exact h.begin (by rw [hpc]; rintro (h | h) <;> cases h)
  | startAwake hpc hnotify =>
    unfold Tlog.begin
    split <;> exact ⟨⟨nofun, fun h => by rcases h with h | h <;> cases h⟩, h.runs, nofun⟩
  | pause hpc hnotify =>
    exact ⟨⟨nofun, fun h => by rcases h with h | h <;> cases h⟩, h.runs, nofun⟩
  | resume hpc =>
    exact h.work (by rw [hpc]; rintro (h | h) <;> cases h) (by rintro (h | h) <;> cases h)
  | upper hpc =>
    exact h.work (by rw [hpc]; rintro (h | h) <;> cases h) (by rintro (h | h) <;> cases h)
  | lower hpc =>
    exact h.work (by rw [hpc]; rintro (h | h) <;> cases h) (by rintro (h | h) <;> cases h)
  | note hpc =>
    exact h.work (by rw [hpc]; rintro (h | h) <;> cases h) (by rintro (h | h) <;> cases h)
  | release hpc =>
    exact h.work (by rw [hpc]; rintro (h | h) <;> cases h) (by rintro (h | h) <;> cases h)
  | wakeup hpc =>
    exact h.work (by rw [hpc]; rintro (h | h) <;> cases h) (by rintro (h | h) <;> cases h)
  | rouseWork hpc => exact h.same rfl rfl rfl rfl (Or.inr ⟨hpc, rfl⟩)
  | stop hpc =>
    refine ⟨h.waits, ⟨nofun, nofun⟩, fun hasleep => ⟨(h.asleep hasleep).1, nofun⟩⟩
  | join hpc =>
    have hn := notify_notified s
    refine ⟨?_, ⟨fun hrun => ?_, nofun⟩, fun hbad => ?_⟩
    · show s.isWait = true ↔ s.signal.worker = .asleep ∨ s.signal.worker = .awake
      rw [h.waits, signal_worker]
      split
      · next hfrom => exact ⟨fun _ => Or.inr rfl, fun _ => Or.inl hfrom⟩
      · exact Iff.rfl
    · have := h.runs.mp hrun
      rw [hpc] at this
      cases this
    · have hbad' : s.signal.worker = .asleep := hbad
      rw [signal_worker] at hbad'
      split at hbad'
      · cases hbad'
      · next hne => exact absurd hbad' hne

end Vigilant

section Runs

variable {n : Nat} {acts : List LogAct} {s : Tlog}

theorem Vigilant.of_exec {conf : LogConf} {block : conf.Block}
    (h : exec (logStep conf) (Tlog.init n block) acts = some s) : Vigilant s :=
  (exec_iff_run.mp h).invariant (fun s a t hI _ hstep => hI.step s a t hstep)
    (Vigilant.init n block)

/-- **No lost signal.** In every run, when the log's thread sleeps the block is empty, and
`tlog_exit` is not waiting for its end. -/
theorem never_asleep_on_data (conf : LogConf) {block : conf.Block}
    (hexec : exec (logStep conf) (Tlog.init n block) acts = some s) (hasleep : s.worker = .asleep) :
    s.log.hasData = false ∧ s.exit ≠ .joining :=
  (Vigilant.of_exec hexec).asleep hasleep

/-- One line is logged and handed out, and then the log's thread goes to sleep. -/
theorem never_asleep_on_data_short : ∃ s, exec (logStep (wideLog true))
      (Tlog.init 1 (blankBlock (wideLog true)))
      (.print 0 shortOut :: .printer 0 :: .printer 0 :: List.replicate 11 .work) = some s
    ∧ textBytes s.output ≠ [] ∧ s.worker = .asleep ∧ s.log.hasData = false ∧ s.exit ≠ .joining := by
  generalize blankBlock (wideLog true) = block
  have hbyte : stretch (patch 0 block.val 0 [97]) 0 1 = [97] := stretch_patch_self 0 (Nat.zero_le _)
  obtain ⟨s, hrest, hbytes, hasleep⟩ : ∃ s, Run (logStep (wideLog true)) (fun _ _ => True)
      (.alone ⟨patch 0 block.val 0 [97], 0, 1, 0, 0, 0⟩ (.top false) .idle [(0, [97])])
      (List.replicate 11 .work) s ∧ textBytes s.output = [97] ∧ s.worker = .asleep := by
    generalize patch 0 block.val 0 [97] = buff at hbyte ⊢
    exact ⟨_, .cons rfl trivial (.cons rfl trivial (.cons rfl trivial (.cons rfl trivial
      (.cons rfl trivial (.cons rfl trivial (.cons rfl trivial (.cons rfl trivial (.cons rfl trivial
      (.cons rfl trivial (.cons rfl trivial (.nil _))))))))))),
      (List.append_nil (stretch buff 0 1)).trans hbyte, rfl⟩
  have hrun : Run (logStep (wideLog true)) (fun _ _ => True) (Tlog.init 1 block) _ s :=
    run_short (Nat.succ_pos _) (fun _ => trivial) (fun _ _ => trivial) hrest
  have hexec := exec_iff_run.mpr hrun
  refine ⟨s, hexec, ?_, hasleep, never_asleep_on_data (wideLog true) hexec hasleep⟩
  rw [hbytes]
  exact List.cons_ne_nil _ _

end Runs

/-! ## Dropped lines -/

/-- The dropped lines that the log's thread has noted and not reported yet. -/
def WorkPc.drops : WorkPc → Nat
  | .upper snap => snap.logDropped
  | .lower snap => snap.logDropped
  | .note snap => snap.logDropped
  | _ => 0

/-- The notes stand for `n` dropped lines: for at least one each, and what a note says is the number
of its lines, or nothing. -/
def NotesStandFor (conf : LogConf) (output : List LogOut) (n : Nat) : Prop :=
  ∃ counts : List Nat, dropNotes output = counts.map conf.noteNumber ∧ (∀ c ∈ counts, 0 < c)
    ∧ counts.sum = n

/-- Where the refused lines are counted. -/
structure DropsCounted (conf : LogConf) (s : Tlog) : Prop where
  total : ∃ noted, NotesStandFor conf s.output noted
    ∧ s.refused = s.log.dropped + s.worker.drops + noted
  block : conf.block = true → s.refused = 0

section Drops

variable {conf : LogConf} {s t : Tlog}

theorem dropNotes_append (output output' : List LogOut) :
    dropNotes (output ++ output') = dropNotes output ++ dropNotes output' :=
  List.filterMap_append

/-- What is handed out of a stretch holds no notes. -/
@[simp] theorem dropNotes_handOut (bytes : List UInt8) : dropNotes (conf.handOut bytes) = [] := by
  refine List.filterMap_eq_nil_iff.mpr fun out hout => ?_
  unfold LogConf.handOut at hout
  split at hout
  · obtain ⟨text, -, rfl⟩ := List.mem_map.mp hout
    rfl
  · rw [List.mem_singleton.mp hout]

/-- One more note. -/
theorem NotesStandFor.note {output : List LogOut} {n : Nat} (h : NotesStandFor conf output n) {c : Nat}
    (hpos : 0 < c) : NotesStandFor conf (output ++ [.dropNote (conf.noteNumber c)]) (n + c) := by
  obtain ⟨counts, hnotes, hcounts, hsum⟩ := h
  refine ⟨counts ++ [c], ?_, ?_, ?_⟩
  · rw [dropNotes_append, hnotes, List.map_append]
    rfl
  · intro c' hc'
    rcases List.mem_append.mp hc' with hc' | hc'
    · exact hcounts c' hc'
    · rw [List.mem_singleton.mp hc']
      exact hpos
  · rw [List.sum_append, hsum, List.sum_singleton]

/-- In segment mode the notes say for how many lines they stand. -/
theorem NotesStandFor.said {output : List LogOut} {n : Nat} (h : NotesStandFor conf output n)
    (hsegment : conf.segmentLog = true) : ((dropNotes output).map (·.getD 0)).sum = n := by
  obtain ⟨counts, hnotes, -, hsum⟩ := h
  rw [hnotes, List.map_map, ← hsum]
  refine congrArg List.sum ((List.map_congr_left fun c _ => ?_).trans (List.map_id counts))
  simp [LogConf.noteNumber, hsegment]

/-- Outside it none says anything. -/
theorem NotesStandFor.unsaid {output : List LogOut} {n : Nat} (h : NotesStandFor conf output n)
    (hplain : conf.segmentLog = false) : ∀ number ∈ dropNotes output, number = none := by
  obtain ⟨counts, hnotes, -, -⟩ := h
  intro number hnumber
  rw [hnotes] at hnumber
  obtain ⟨c, -, rfl⟩ := List.mem_map.mp hnumber
  simp [LogConf.noteNumber, hplain]

theorem signal_drops (s : Tlog) : s.signal.worker.drops = s.worker.drops := by
  rw [signal_worker]
  split
  · next h =>
    rw [h]
    rfl
  · rfl

theorem put_dropped (conf : LogConf) (log : TlogLog) (line : List UInt8) :
    (log.put conf line).dropped = log.dropped := by
  simp only [TlogLog.put]
  split <;> rfl

theorem DropsCounted.init (n : Nat) (block : conf.Block) : DropsCounted conf (Tlog.init n block) :=
  ⟨⟨0, ⟨[], rfl, List.forall_mem_nil _, rfl⟩, rfl⟩, fun _ => rfl⟩

/-- A step that neither refuses a line nor makes a note. -/
theorem DropsCounted.same (h : DropsCounted conf s) (hrefused : t.refused = s.refused)
    (hdropped : t.log.dropped = s.log.dropped) (hworker : t.worker.drops = s.worker.drops)
    (houtput : dropNotes t.output = dropNotes s.output) : DropsCounted conf t where
  total := by
    rw [hrefused, hdropped, hworker]
    unfold NotesStandFor
    rw [houtput]
    exact h.total
  block hblock := hrefused.trans (h.block hblock)

theorem DropsCounted.drop (h : DropsCounted conf s) (i : Nat) (hblock : conf.block = false) :
    DropsCounted conf (s.drop i) where
  total := by
    obtain ⟨noted, hnotes, htotal⟩ := h.total
    refine ⟨noted, hnotes, ?_⟩
    show s.refused + 1 = s.log.dropped + 1 + s.worker.drops + noted
    omega
  block htrue := by rw [hblock] at htrue; cases htrue

theorem Notified.accounted {s' : Tlog} (hn : Notified s s') (h : DropsCounted conf s) :
    DropsCounted conf s' := by
  refine h.same hn.refused (congrArg TlogLog.dropped hn.log) ?_ (congrArg dropNotes hn.output)
  rcases hn.worker with heq | ⟨hasleep, hawake⟩
  · rw [heq]
  · rw [hasleep, hawake]
    rfl

theorem DropsCounted.begin (h : DropsCounted conf s) (haway : s.worker.drops = 0) :
    DropsCounted conf s.begin := by
  obtain ⟨noted, hnotes, htotal⟩ := h.total
  rw [haway] at htotal
  unfold Tlog.begin
  split
  · refine ⟨⟨noted, hnotes, ?_⟩, h.block⟩
    show s.refused = 0 + s.log.dropped + noted
    omega
  · exact h.same rfl rfl haway.symm rfl

theorem DropsCounted.step (s : Tlog) (a : LogAct) (t : Tlog) (h : DropsCounted conf s)
    (hstep : logStep conf s a = some t) : DropsCounted conf t := by
  cases logStep_cases hstep with
  | dropEarly hpc hblock hfull => exact h.drop _ hblock
  | block hpc hfull hblock hnotify =>
    exact ((notified_of_ite hnotify).accounted h).same rfl rfl rfl rfl
  | dropLate hpc hfull hblock hnotify =>
    exact ((notified_of_ite hnotify).accounted h).drop _ hblock
  | put hpc hroom hput hnotify =>
    refine (notified_of_ite hnotify).accounted ?_
    subst hput
    exact h.same rfl (put_dropped _ _ _) rfl rfl
  | join hpc => exact h.same rfl rfl (signal_drops s) rfl
  | start hpc hgo => exact h.begin (by rw [hpc]; rfl)
  | startAwake hpc hnotify =>
    refine DropsCounted.begin (h.same rfl rfl rfl rfl) ?_
    show s.worker.drops = 0
    rw [hpc]
    rfl
  | top hpc =>
    refine h.same rfl rfl ?_ rfl
    rw [hpc]
    show (if s.run then WorkPc.next _ else .lastCheck _).drops = 0
    split <;> rfl
  | upper hpc =>
    refine h.same rfl rfl (by rw [hpc]; rfl) ?_
    rw [dropNotes_append, dropNotes_handOut, List.append_nil]
  | lower hpc =>
    refine h.same rfl rfl (by rw [hpc]; rfl) ?_
    show dropNotes (ite _ _ _) = _
    split
    · rw [dropNotes_append, dropNotes_handOut, List.append_nil]
    · rfl
  | @note snap hpc =>
    -- for what the log's thread holds as dropped, the note stands now
    obtain ⟨noted, hnotes, htotal⟩ := h.total
    rw [hpc, show (WorkPc.note snap).drops = snap.logDropped from rfl] at htotal
    refine ⟨?_, h.block⟩
    show ∃ noted, NotesStandFor conf (ite _ _ _) noted ∧ s.refused = s.log.dropped + 0 + noted
    split
    · next hpos => exact ⟨_, hnotes.note hpos, by omega⟩
    · exact ⟨noted, hnotes, by omega⟩
  | stay hpc hdata => exact h.same rfl rfl (by rw [hpc]; rfl) rfl
  | end_ hpc hempty => exact h.same rfl rfl (by rw [hpc]; rfl) rfl
  | listEnd hpc => exact h.same rfl rfl (by rw [hpc]; rfl) rfl
  | sleep hpc hempty hrun => exact h.same rfl rfl (by rw [hpc]; rfl) rfl
  | pause hpc hnotify => exact h.same rfl rfl (by rw [hpc]; rfl) rfl
  | resume hpc => exact h.same rfl rfl (by rw [hpc]; rfl) rfl
  | release hpc => exact h.same rfl rfl (by rw [hpc]; rfl) rfl
  | wakeup hpc => exact h.same rfl rfl (by rw [hpc]; rfl) rfl
  | rouseWork hpc => exact h.same rfl rfl (by rw [hpc]; rfl) rfl
  | _ => exact h.same rfl rfl rfl rfl

/-- **Every dropped line is accounted for.** In every run, the lines that were refused are those the
notes stand for, those the log's thread is about to make a note of and those still counted; and none is
refused where threads wait for room. In segment mode the notes say how many they are; outside it they do
not. -/
theorem drops_accounted (conf : LogConf) {n : Nat} {block : conf.Block} {acts : List LogAct}
    {s : Tlog} (hexec : exec (logStep conf) (Tlog.init n block) acts = some s) :
    (∃ noted, NotesStandFor conf s.output noted
        ∧ s.refused = s.log.dropped + s.worker.drops + noted
        ∧ (conf.segmentLog = true → ((dropNotes s.output).map (·.getD 0)).sum = noted)
        ∧ (conf.segmentLog = false → ∀ number ∈ dropNotes s.output, number = none))
      ∧ (conf.block = true → s.refused = 0) := by
  have h := (exec_iff_run.mp hexec).invariant
    (fun s a t (hI : DropsCounted conf s) _ hstep => hI.step s a t hstep) (.init n block)
  obtain ⟨noted, hnotes, htotal⟩ := h.total
  exact ⟨⟨noted, hnotes, htotal, hnotes.said, hnotes.unsaid⟩, h.block⟩

/-- The third wide line is dropped, and the log's thread makes a note that does not say so. -/
theorem drops_accounted_full : ∃ s, Run (logStep (wideLog false)) (fun _ _ => True)
      (Tlog.init 1 (blankBlock (wideLog false)))
      [.print 0 wideOut, .printer 0, .printer 0, .print 0 wideOut, .printer 0, .printer 0,
        .print 0 wideOut, .printer 0, .work, .work, .work, .work, .work] s
    ∧ s.refused = 1 ∧ dropNotes s.output = [none]
    ∧ ∃ noted, NotesStandFor (wideLog false) s.output noted ∧ noted = 1 := by
  generalize blankBlock (wideLog false) = block
  obtain ⟨s, hrest, hrefused, hnotes, hcounted⟩ : ∃ s, Run (logStep (wideLog false)) (fun _ _ => True)
      (.alone ⟨patch 0 (patch 0 block.val 0 wideLine) maxLineSizeSet wideLine, 0, 0,
        maxLineSizeSet * 2, 0, 0⟩ (.top false) .idle [(0, wideLine), (0, wideLine)])
      [.print 0 wideOut, .printer 0, .work, .work, .work, .work, .work] s
      ∧ s.refused = 1 ∧ dropNotes s.output = [none] ∧ s.log.dropped + s.worker.drops = 0 := by
    generalize patch 0 (patch 0 block.val 0 wideLine) maxLineSizeSet wideLine = buff
    exact ⟨_, .cons rfl trivial (.cons rfl trivial (.cons rfl trivial (.cons rfl trivial
      (.cons rfl trivial (.cons rfl trivial (.cons rfl trivial (.nil _))))))), rfl, rfl, rfl⟩
  have hrun : Run (logStep (wideLog false)) (fun _ _ => True) (Tlog.init 1 block) _ s :=
    run_full (fun _ => trivial) (fun _ _ => trivial) hrest
  obtain ⟨noted, hstand, htotal, -⟩ :=
    (drops_accounted (wideLog false) (exec_iff_run.mpr hrun)).1
  exact ⟨s, hrun, hrefused, hnotes, noted, hstand, by omega⟩

end Drops

/-! ## Waiting for room -/

/-- Counted in `waiters`. -/
def PrintPc.waits : PrintPc → Nat
  | .sleeping _ _ => 1
  | .woken _ _ => 1
  | _ => 0

/-- Asleep, or on its way there. -/
def PrintPc.blocked : PrintPc → Bool
  | .full _ _ => true
  | .sleeping _ _ => true
  | _ => false

/-- The log's thread will wake those who sleep before it looks at the block again. -/
def WorkPc.waking : WorkPc → Bool
  | .upper _ => true
  | .lower _ => true
  | .note _ => true
  | .release _ => true
  | .wakeup => true
  | _ => false

/-- The count of those who wait is right. -/
def WaitersCounted (s : Tlog) : Prop := s.log.waiters = (s.printers.map PrintPc.waits).sum

/-- Whoever waits for room has a reason to: the log's thread will get to wake it. -/
def Tended (s : Tlog) : Prop :=
  ∀ pc ∈ s.printers, pc.blocked = true → s.log.hasData = true ∨ s.worker.waking = true

/-- The broadcast is not made while a thread stands between its test and its wait. -/
def Attentive (conf : LogConf) (s : Tlog) (a : LogAct) : Prop :=
  NeverFilled conf s a
    ∧ ¬ (a = .work ∧ s.worker = .wakeup ∧ ∃ line maxlen, PrintPc.full line maxlen ∈ s.printers)

section Waiting

variable {conf : LogConf} {s t : Tlog}

theorem put_waiters (conf : LogConf) (log : TlogLog) (line : List UInt8) :
    (log.put conf line).waiters = log.waiters := by
  simp only [TlogLog.put]
  split <;> rfl

theorem broadcast_waits (pc : PrintPc) : pc.broadcast.waits = pc.waits := by
  cases pc <;> rfl

theorem WaitersCounted.move {i : Nat} {pc pc' : PrintPc} (h : WaitersCounted s)
    (hpc : s.printers[i]? = some pc)
    (hprinters : t.printers = s.printers.set i pc')
    (hwaiters : t.log.waiters + pc.waits = s.log.waiters + pc'.waits) : WaitersCounted t := by
  have hcount : s.log.waiters = (s.printers.map PrintPc.waits).sum := h
  have hset := @sum_map_set _ PrintPc.waits _ _ _ hpc pc'
  show t.log.waiters = (t.printers.map PrintPc.waits).sum
  rw [hprinters]
  omega

theorem WaitersCounted.same (h : WaitersCounted s) (hprinters : t.printers = s.printers)
    (hwaiters : t.log.waiters = s.log.waiters) : WaitersCounted t := by
  unfold WaitersCounted
  rw [hprinters, hwaiters]
  exact h

theorem begin_waiters (s : Tlog) : s.begin.log.waiters = s.log.waiters := by
  unfold Tlog.begin
  split <;> rfl

theorem WaitersCounted.step (s : Tlog) (a : LogAct) (t : Tlog) (h : WaitersCounted s)
    (hstep : logStep conf s a = some t) : WaitersCounted t := by
  cases logStep_cases hstep with
  | muted hpc => exact h
  | call hpc => exact h.move hpc rfl rfl
  | dropEarly hpc hblock hfull => exact h.move hpc rfl rfl
  | giveUp hpc hline => exact h.move hpc rfl rfl
  | format hpc hline => exact h.move hpc rfl rfl
  | block hpc hfull hblock hnotify =>
    subst hnotify
    split <;> exact h.move hpc rfl rfl
  | dropLate hpc hfull hblock hnotify =>
    subst hnotify
    split <;> exact h.move hpc rfl rfl
  | put hpc hroom hput hnotify =>
    have hn := notified_of_ite hnotify
    subst hput
    exact h.move hpc hn.printers (congrArg (· + 0) ((congrArg TlogLog.waiters hn.log).trans
      (put_waiters _ _ _)))
  | wait hpc => exact h.move hpc rfl rfl
  | @retake i maxlen line hpc =>
    have hle := @le_sum_map _ PrintPc.waits _ _ _ hpc
    have hcount : s.log.waiters = (s.printers.map PrintPc.waits).sum := h
    have hone : (PrintPc.woken line maxlen).waits = 1 := rfl
    refine h.move hpc rfl ?_
    show s.log.waiters - 1 + 1 = s.log.waiters + 0
    rw [hone] at hle
    omega
  | rouse hpc => exact h.move hpc rfl rfl
  | start hpc hgo => exact h.same (begin_printers s) (begin_waiters s)
  | startAwake hpc hnotify => exact h.same (begin_printers _) (begin_waiters _)
  | wakeup hpc =>
    show s.log.waiters = (List.map PrintPc.waits (ite _ _ _)).sum
    split
    · rw [List.map_map, show PrintPc.waits ∘ PrintPc.broadcast = PrintPc.waits from
        funext broadcast_waits]
      exact h
    · exact h
  | _ => exact h.same rfl rfl

/-- Who finds no room finds something in the block. -/
theorem hasData_of_full {log : TlogLog} {maxlen : Nat} (hroomy : Roomy conf log)
    (hfull : log.maxlen conf maxlen < conf.maxLineSize) : log.hasData = true := by
  have hend := hroomy.end_le
  unfold TlogLog.maxlen at hfull
  rw [TlogLog.hasData, Bool.or_eq_true, bne_iff_ne, bne_iff_ne]
  split at hfull
  · split at hfull
    · omega
    · next hext => exact Or.inr hext
  · next hne => exact Or.inl hne

/-- A line that is put does not make the block look empty. -/
theorem hasData_put {log : TlogLog} {us ls : List (List UInt8)} (hstands : Stands conf log us ls)
    (h : log.hasData = true) (line : List UInt8) : (log.put conf line).hasData = true := by
  have hmin := conf.buffsize_min
  have hmax := conf.line_max
  rw [TlogLog.hasData, Bool.or_eq_true, bne_iff_ne, bne_iff_ne] at h ⊢
  simp only [TlogLog.put]
  split
  · refine Or.inr ?_
    show log.end_ + _ ≠ 0
    unfold maxLineSizeSet at *
    omega
  · cases hstands with
    | flat hext hle hus =>
      refine Or.inl ?_
      show log.end_ + _ ≠ log.start
      omega
    | wrapped hext => exact Or.inr hext

/-- Nobody new waits, and nothing that those who wait rely on has gone. -/
theorem Tended.keep (h : Tended s)
    (hprinters : ∀ pc ∈ t.printers, pc.blocked = true → pc ∈ s.printers)
    (hdata : s.log.hasData = true → t.log.hasData = true ∨ t.worker.waking = true)
    (hworker : s.worker.waking = true → t.worker.waking = true) : Tended t := by
  intro pc hpc hblocked
  rcases h pc (hprinters pc hpc hblocked) hblocked with hhas | hwaking
  · exact hdata hhas
  · exact Or.inr (hworker hwaking)

theorem blocked_set {ps : List PrintPc} {i : Nat} {pc' : PrintPc} (hpc' : pc'.blocked = false) :
    ∀ pc ∈ ps.set i pc', pc.blocked = true → pc ∈ ps := by
  intro pc hpc hblocked
  rcases List.mem_or_eq_of_mem_set hpc with hpc | rfl
  · exact hpc
  · rw [hpc'] at hblocked
    cases hblocked

theorem Notified.waking {s' : Tlog} (hn : Notified s s') (h : s.worker.waking = true) :
    s'.worker.waking = true := by
  rcases hn.worker with heq | ⟨hasleep, -⟩
  · rw [heq]
    exact h
  · rw [hasleep] at h
    cases h

/-- The log's thread notes what there is, or goes around once more. -/
theorem Tended.begin (h : Tended s) (hpc : s.worker.waking = false) : Tended s.begin := by
  unfold Tlog.begin
  split
  · exact fun _ _ _ => Or.inr rfl
  · exact h.keep (fun _ hp _ => hp) Or.inl fun hwaking => by rw [hpc] at hwaking; cases hwaking

/-- After the broadcast nobody waits. -/
theorem Tended.wakeup (hcounted : WaitersCounted s)
    (hgap : ¬ ∃ line maxlen, PrintPc.full line maxlen ∈ s.printers) :
    ∀ pc ∈ (if s.log.waiters > 0 then s.printers.map PrintPc.broadcast else s.printers),
      pc.blocked = false := by
  have hcount : s.log.waiters = (s.printers.map PrintPc.waits).sum := hcounted
  split
  · intro pc hpc
    obtain ⟨q, hq, rfl⟩ := List.mem_map.mp hpc
    cases q with
    | full line maxlen => exact absurd ⟨line, maxlen, hq⟩ hgap
    | _ => rfl
  · next hnone =>
    intro pc hpc
    cases pc with
    | full line maxlen => exact absurd ⟨line, maxlen, hpc⟩ hgap
    | sleeping line maxlen =>
      obtain ⟨i, hi⟩ := List.mem_iff_getElem?.mp hpc
      have hle := @le_sum_map _ PrintPc.waits _ _ _ hi
      have hone : (PrintPc.sleeping line maxlen).waits = 1 := rfl
      omega
    | _ => rfl

theorem Tended.step (s : Tlog) (a : LogAct) (t : Tlog) (h : Tended s) {c : Channel (List UInt8)}
    (hconveys : Conveys conf s c) (hcounted : WaitersCounted s) (hguard : Attentive conf s a)
    (hstep : logStep conf s a = some t) : Tended t := by
  have hsame : ∀ pc ∈ s.printers, pc.blocked = true → pc ∈ s.printers := fun _ hp _ => hp
  have hnot : ∀ {P : Prop} {pc : WorkPc}, s.worker = pc → pc.waking = false →
      s.worker.waking = true → P := by
    intro P pc hpc hno hwaking
    rw [hpc, hno] at hwaking
    cases hwaking
  cases logStep_cases hstep with
  | muted hpc => exact h
  | call hpc => exact h.keep (blocked_set rfl) Or.inl id
  | dropEarly hpc hblock hfull => exact h.keep (blocked_set rfl) Or.inl id
  | giveUp hpc hline => exact h.keep (blocked_set rfl) Or.inl id
  | format hpc hline => exact h.keep (blocked_set rfl) Or.inl id
  | block hpc hfull hblock hnotify =>
    have hn := notified_of_ite hnotify
    have hdata := hasData_of_full hconveys.roomy hfull
    intro _ _ _
    left
    rw [move_log, hn.log]
    exact hdata
  | @dropLate i maxlen line s' hpc hfull hblock hnotify =>
    have hn := notified_of_ite hnotify
    refine h.keep ?_ (fun hdata => Or.inl ?_) hn.waking
    · rw [drop_printers, hn.printers]
      exact blocked_set rfl
    · rw [(drop_sameRing s' i).hasData, hn.log]
      exact hdata
  | @put i maxlen line s' _ hpc hroom hput hnotify =>
    have hn := notified_of_ite hnotify
    obtain ⟨us₁, us₂, ls₁, ls₂, hstands, -⟩ := hconveys.stands
    have hworker : s'.worker = s.worker := by rw [hput]; rfl
    refine h.keep ?_ (fun hdata => Or.inl ?_) fun hwaking => hn.waking (by rw [hworker]; exact hwaking)
    · rw [hn.printers, hput]
      exact blocked_set rfl
    · rw [hn.log, hput]
      exact hasData_put hstands hdata line
  | @wait i maxlen line hpc =>
    -- it could not go to sleep if it had not been tended to already
    have hfull := h _ (List.mem_of_getElem? hpc) rfl
    exact fun _ _ _ => hfull
  | retake hpc => exact h.keep (blocked_set rfl) Or.inl id
  | rouse hpc => exact h.keep (blocked_set rfl) Or.inl id
  | start hpc hgo => exact h.begin (by rw [hpc]; rfl)
  | startAwake hpc hnotify =>
    have hwaking : s.worker.waking = false := by rw [hpc]; rfl
    exact Tended.begin h hwaking
  | wakeup hpc =>
    have hnone := Tended.wakeup hcounted fun hex => hguard.2 ⟨rfl, hpc, hex⟩
    intro pc hmem hblocked
    rw [hnone pc hmem] at hblocked
    cases hblocked
  | top hpc => exact h.keep hsame Or.inl (hnot hpc rfl)
  | stay hpc hdata => exact h.keep hsame Or.inl (hnot hpc rfl)
  | end_ hpc hempty => exact h.keep hsame Or.inl (hnot hpc rfl)
  | listEnd hpc => exact h.keep hsame Or.inl (hnot hpc rfl)
  | sleep hpc hempty hrun => exact h.keep hsame Or.inl (hnot hpc rfl)
  | pause hpc hnotify => exact h.keep hsame Or.inl (hnot hpc rfl)
  | resume hpc => exact h.keep hsame Or.inl (hnot hpc rfl)
  | upper hpc => exact h.keep hsame Or.inl fun _ => rfl
  | lower hpc => exact h.keep hsame Or.inl fun _ => rfl
  | note hpc => exact h.keep hsame Or.inl fun _ => rfl
  | release hpc => exact fun _ _ _ => Or.inr rfl
  | rouseWork hpc => exact h.keep hsame Or.inl (hnot hpc rfl)
  | stop hpc => exact h.keep hsame Or.inl id
  | join hpc => exact h.keep hsame Or.inl (notify_notified s).waking

/-- What the threads that wait for room rely on. -/
structure Watched (conf : LogConf) (s : Tlog) : Prop where
  conveys : ∃ c, Conveys conf s c
  vigilant : Vigilant s
  counted : WaitersCounted s
  tended : Tended s

theorem Watched.init (n : Nat) (block : conf.Block) : Watched conf (Tlog.init n block) where
  conveys := ⟨_, Conveys.init n block⟩
  vigilant := .init n block
  counted := by
    show 0 = ((List.replicate n PrintPc.idle).map PrintPc.waits).sum
    rw [List.map_replicate, List.sum_replicate]
    exact (Nat.mul_zero n).symm
  tended pc hpc hblocked := by
    rw [List.eq_of_mem_replicate hpc] at hblocked
    cases hblocked

theorem Watched.step (s : Tlog) (a : LogAct) (t : Tlog) (h : Watched conf s)
    (hguard : Attentive conf s a) (hstep : logStep conf s a = some t) : Watched conf t := by
  obtain ⟨c, hconveys⟩ := h.conveys
  obtain ⟨-, d, -, hd⟩ := hconveys.step s a t c hguard.1 hstep
  exact ⟨⟨d, hd⟩, h.vigilant.step s a t hstep, h.counted.step s a t hstep,
    h.tended.step s a t hconveys h.counted hguard hstep⟩

/-- The log's thread is up while a thread sleeps. -/
theorem Watched.up (h : Watched conf s) {i maxlen : Nat} {line : List UInt8}
    (hsleeps : s.printers[i]? = some (.sleeping line maxlen)) :
    s.log.hasData = true ∨ s.worker.waking = true :=
  h.tended _ (List.mem_of_getElem? hsleeps) rfl

/-! ## How far the log's thread is from its next snapshot -/

/-- The steps of the log's thread up to its next snapshot, while there is something in the block. -/
def WorkPc.ahead : WorkPc → Nat
  | .asleep => 0
  | .ended => 0
  | .next false => 1
  | .lastCheck false => 2
  | .top false => 3
  | .next true => 4
  | .paused => 4
  | .lastCheck true => 5
  | .awake => 5
  | .top true => 6
  | .wakeup => 7
  | .release _ => 8
  | .note _ => 9
  | .lower _ => 10
  | .upper _ => 11

theorem ahead_le (pc : WorkPc) : pc.ahead ≤ 11 := by
  cases pc with
  | top log => cases log <;> decide
  | lastCheck log => cases log <;> decide
  | next log => cases log <;> decide
  | upper snap => exact Nat.le_refl 11
  | lower snap => exact Nat.le_succ 10
  | note snap => exact Nat.le_add_right 9 2
  | release snap => exact Nat.le_add_right 8 3
  | _ => decide

/-- The log's thread has a step, unless it sleeps or has ended. -/
theorem work_possible (hup : 0 < s.worker.ahead) : ∃ t, logStep conf s .work = some t := by
  have hstep : logStep conf s .work = workStep conf s s.worker := rfl
  rw [hstep]
  cases hpc : s.worker with
  | asleep =>
    rw [hpc] at hup
    cases hup
  | ended =>
    rw [hpc] at hup
    cases hup
  | next log => cases log <;> exact ⟨_, rfl⟩
  | _ => exact ⟨_, rfl⟩

theorem up_of_ne (hasleep : s.worker ≠ .asleep) (hended : s.worker ≠ .ended) :
    0 < s.worker.ahead := by
  cases hpc : s.worker with
  | asleep => exact absurd hpc hasleep
  | ended => exact absurd hpc hended
  | top log => cases log <;> decide
  | lastCheck log => cases log <;> decide
  | next log => cases log <;> decide
  | _ => exact Nat.succ_pos _

/-- The other threads hand out nothing, take back nothing they have put, and only ever wake the log's
thread. -/
theorem step_of_ne_work {a : LogAct} (ha : a ≠ .work) (hstep : logStep conf s a = some t) :
    (t.worker = s.worker ∨ s.worker = .asleep) ∧ t.output = s.output
      ∧ s.accepted <+: t.accepted := by
  have hstill : Or (s.worker = s.worker) (s.worker = .asleep) ∧ s.output = s.output
      ∧ s.accepted <+: s.accepted := ⟨Or.inl rfl, rfl, List.prefix_refl _⟩
  have hsignal : s.signal.worker = s.worker ∨ s.worker = .asleep := by
    rw [signal_worker]
    split
    · next h => exact Or.inr h
    · exact Or.inl rfl
  cases logStep_cases hstep with
  | block hpc hfull hblock hnotify =>
    subst hnotify
    split
    · exact ⟨hsignal, hstill.2⟩
    · exact hstill
  | dropLate hpc hfull hblock hnotify =>
    subst hnotify
    split
    · exact ⟨hsignal, hstill.2⟩
    · exact hstill
  | put hpc hroom hput hnotify =>
    subst hput hnotify
    split
    · exact ⟨hsignal, rfl, List.prefix_append _ _⟩
    · exact ⟨Or.inl rfl, rfl, List.prefix_append _ _⟩
  | join hpc => exact ⟨hsignal, hstill.2⟩
  | rouseWork hpc => exact ⟨Or.inr hpc, hstill.2⟩
  | muted hpc => exact hstill
  | call hpc => exact hstill
  | dropEarly hpc hblock hfull => exact hstill
  | giveUp hpc hline => exact hstill
  | format hpc hline => exact hstill
  | wait hpc => exact hstill
  | retake hpc => exact hstill
  | rouse hpc => exact hstill
  | stop hpc => exact hstill
  | _ => exact absurd rfl ha

theorem worker_of_ne_work {a : LogAct} (ha : a ≠ .work) (hup : 0 < s.worker.ahead)
    (hstep : logStep conf s a = some t) : t.worker = s.worker := by
  rcases (step_of_ne_work ha hstep).1 with hsame | hasleep
  · exact hsame
  · rw [hasleep] at hup
    cases hup

/-- With something in the block, or something noted, every step of the log's thread brings it nearer to
its next snapshot, or is that snapshot. -/
theorem work_nears (hstep : logStep conf s .work = some t)
    (hdata : s.log.hasData = true ∨ s.worker.waking = true) :
    (0 < t.worker.ahead ∧ t.worker.ahead < s.worker.ahead
        ∧ (s.worker.waking = true → t.worker.waking = true ∨ s.worker = .wakeup))
      ∨ (s.worker.away = true ∧ SameRing s.log t.log ∧ 0 < s.worker.ahead
        ∧ t.worker = .upper s.log.snapshot) := by
  have hhas : s.worker.waking = false → s.log.hasData = true := by
    intro hno
    rcases hdata with hdata | hwaking
    · exact hdata
    · rw [hno] at hwaking
      cases hwaking
  -- outside the critical section, and not on the way to a broadcast
  have hon : ∀ pc pc' : WorkPc, s.worker = pc → t.worker = pc' →
      0 < pc'.ahead ∧ pc'.ahead < pc.ahead ∧ pc.waking = false →
      0 < t.worker.ahead ∧ t.worker.ahead < s.worker.ahead
        ∧ (s.worker.waking = true → t.worker.waking = true ∨ s.worker = .wakeup) := by
    rintro _ _ rfl rfl ⟨hpos, hlt, hno⟩
    refine ⟨hpos, hlt, fun hwaking => ?_⟩
    rw [hno] at hwaking
    cases hwaking
  cases logStep_cases hstep with
  | @top log hpc =>
    left
    by_cases hrun : s.run = true
    · refine hon (.top log) (.next log) hpc (if_pos hrun) ?_
      cases log <;> decide
    · refine hon (.top log) (.lastCheck log) hpc (if_neg hrun) ?_
      cases log <;> decide
  | @stay log hpc _ =>
    left
    refine hon (.lastCheck log) (.next log) hpc rfl ?_
    cases log <;> decide
  | end_ hpc hempty =>
    have := hhas (by rw [hpc]; rfl)
    rw [hempty] at this
    cases this
  | listEnd hpc => exact Or.inl (hon (.next true) (.top false) hpc rfl (by decide))
  | sleep hpc hempty hrun =>
    have := hhas (by rw [hpc]; rfl)
    rw [hempty] at this
    cases this
  | start hpc hgo =>
    have hdata := hhas (by rw [hpc]; rfl)
    refine Or.inr ⟨by rw [hpc]; rfl, begin_sameRing s, by rw [hpc]; decide, ?_⟩
    rw [Tlog.begin, if_pos hdata]
  | startAwake hpc hnotify =>
    have hdata := hhas (by rw [hpc]; rfl)
    refine Or.inr ⟨by rw [hpc]; rfl,
      begin_sameRing { s with isWait := false, notifyLog := false }, by rw [hpc]; decide, ?_⟩
    exact congrArg Tlog.worker (if_pos hdata)
  | pause hpc hnotify => exact Or.inl (hon .awake .paused hpc rfl (by decide))
  | resume hpc => exact Or.inl (hon .paused (.top false) hpc rfl (by decide))
  | upper hpc =>
    left
    rw [hpc]
    exact ⟨Nat.succ_pos 9, Nat.lt_succ_self 10, fun _ => Or.inl rfl⟩
  | lower hpc =>
    left
    rw [hpc]
    exact ⟨Nat.succ_pos 8, Nat.lt_succ_self 9, fun _ => Or.inl rfl⟩
  | note hpc =>
    left
    rw [hpc]
    exact ⟨Nat.succ_pos 7, Nat.lt_succ_self 8, fun _ => Or.inl rfl⟩
  | release hpc =>
    left
    rw [hpc]
    exact ⟨Nat.succ_pos 6, Nat.lt_succ_self 7, fun _ => Or.inl rfl⟩
  | wakeup hpc =>
    left
    rw [hpc]
    exact ⟨Nat.succ_pos 5, Nat.lt_succ_self 6, fun _ => Or.inr rfl⟩

theorem waking_iff {pc : WorkPc} : pc.waking = true ↔ 7 ≤ pc.ahead := by
  cases pc with
  | top log => cases log <;> decide
  | lastCheck log => cases log <;> decide
  | next log => cases log <;> decide
  | upper snap => exact ⟨fun _ => Nat.le_add_right 7 4, fun _ => rfl⟩
  | lower snap => exact ⟨fun _ => Nat.le_add_right 7 3, fun _ => rfl⟩
  | note snap => exact ⟨fun _ => Nat.le_add_right 7 2, fun _ => rfl⟩
  | release snap => exact ⟨fun _ => Nat.le_add_right 7 1, fun _ => rfl⟩
  | _ => decide

theorem wakeup_of_waking {pc : WorkPc} (haway : pc.away = true) (hwaking : pc.waking = true) :
    pc = .wakeup := by
  cases pc <;> first | rfl | cases haway; done | cases hwaking

/-- The steps of the log's thread up to its next broadcast. -/
def WorkPc.toBroadcast (pc : WorkPc) : Nat := if 7 ≤ pc.ahead then pc.ahead - 6 else pc.ahead + 5

theorem toBroadcast_le (pc : WorkPc) : pc.toBroadcast ≤ 11 := by
  have := ahead_le pc
  unfold WorkPc.toBroadcast
  split <;> omega

/-- A step of the log's thread that is not the broadcast brings the broadcast nearer. -/
theorem work_toBroadcast (hstep : logStep conf s .work = some t) (hpc : s.worker ≠ .wakeup)
    (hdata : s.log.hasData = true ∨ s.worker.waking = true) :
    0 < t.worker.ahead ∧ t.worker.toBroadcast < s.worker.toBroadcast := by
  rcases work_nears hstep hdata with ⟨hpos, hlt, hwaking⟩ | ⟨haway, -, hpos, hupper⟩
  · refine ⟨hpos, ?_⟩
    unfold WorkPc.toBroadcast
    by_cases hseven : 7 ≤ s.worker.ahead
    · rcases hwaking (waking_iff.mpr hseven) with hwaking | hwakeup
      · have := waking_iff.mp hwaking
        rw [if_pos hseven, if_pos this]
        omega
      · exact absurd hwakeup hpc
    · rw [if_neg hseven, if_neg (by omega)]
      omega
  · have hlow : ¬ 7 ≤ s.worker.ahead :=
      fun hseven => hpc (wakeup_of_waking haway (waking_iff.mpr hseven))
    rw [hupper]
    refine ⟨Nat.succ_pos 10, ?_⟩
    show 5 < s.worker.toBroadcast
    rw [WorkPc.toBroadcast, if_neg hlow]
    omega

end Waiting

/-- **No stranded printer**, in every run in which no broadcast is made while a thread stands between
its test and its wait: while a thread sleeps, the log's thread has a step to take, and wakes it within
11 of them. -/
theorem no_stranded_printer (conf : LogConf) {n : Nat} {block : conf.Block} {acts acts' : List LogAct}
    {s t : Tlog} (hrun : Run (logStep conf) (Attentive conf) (Tlog.init n block) acts s) {i : Nat}
    {line : List UInt8} {maxlen : Nat} (hended : s.worker ≠ .ended)
    (hrun' : Run (logStep conf)
      (fun s a => Attentive conf s a ∧ s.printers[i]? = some (.sleeping line maxlen)) s acts' t)
    (hsleeps : t.printers[i]? = some (.sleeping line maxlen)) :
    acts'.count .work < 11 ∧ ∃ u, logStep conf t .work = some u := by
  have hwatched : Watched conf s := hrun.invariant Watched.step (Watched.init n block)
  have hawake : s.printers[i]? = some (.sleeping line maxlen) → s.worker ≠ .asleep := by
    intro hs hasleep
    rcases hwatched.up hs with hdata | hwaking
    · rw [(hwatched.vigilant.asleep hasleep).1] at hdata
      cases hdata
    · rw [hasleep] at hwaking
      cases hwaking
  have hstart : s.printers[i]? = some (.sleeping line maxlen) := by
    cases hrun' with
    | nil => exact hsleeps
    | cons _ hguard _ => exact hguard.2
  -- the rank is the distance of the log's thread from its next broadcast
  have hranked := hrun'.ranked (p := fun a => a == .work)
    (R := fun u r => u.printers[i]? = some (.sleeping line maxlen) →
      Watched conf u ∧ 0 < u.worker.ahead ∧ u.worker.toBroadcast ≤ r)
    (r := 11) ?_ (fun hs => ⟨hwatched, up_of_ne (hawake hs) hended, toBroadcast_le _⟩)
  · obtain ⟨-, hpos, hrank⟩ := hranked hsleeps
    refine ⟨Nat.lt_of_not_le fun hcount => ?_, work_possible hpos⟩
    have hzero : 11 - acts'.countP (fun a => a == .work) = 0 := Nat.sub_eq_zero_of_le hcount
    rw [hzero] at hrank
    unfold WorkPc.toBroadcast at hrank
    split at hrank <;> omega
  rintro u a v r hR ⟨hguard, hu⟩ hstep hv
  obtain ⟨hw, hpos, hrank⟩ := hR hu
  refine ⟨hw.step u a v hguard hstep, ?_⟩
  by_cases ha : a = .work
  · subst ha
    have hnowake : u.worker ≠ .wakeup := by
      intro hpc
      have hnone := Tended.wakeup hw.counted fun hex => hguard.2 ⟨rfl, hpc, hex⟩
      simp only [logStep, workStep, hpc] at hstep
      cases hstep
      have := hnone _ (List.mem_of_getElem? hv)
      cases this
    obtain ⟨hpos', hlt⟩ := work_toBroadcast hstep hnowake (hw.up hu)
    exact ⟨hpos', by rw [if_pos (by rfl)]; omega⟩
  · rw [worker_of_ne_work ha hpos hstep, if_neg (by simpa using ha)]
    exact ⟨hpos, hrank⟩

section Blocked

variable {acts : List LogAct} {P : Tlog → Prop}

theorem attentive_of_ne_work {conf : LogConf} {s : Tlog} {a : LogAct} (h : NeverFilled conf s a)
    (ha : a ≠ .work) : Attentive conf s a :=
  ⟨h, fun hgap => ha hgap.1⟩

theorem attentive_work {conf : LogConf} {s : Tlog} (hpc : s.worker ≠ .wakeup) :
    Attentive conf s .work :=
  ⟨neverFilled_work conf s, fun hgap => hpc hgap.2.1⟩

/-- A step of a thread that is not about to put a line. -/
theorem attentive_of_not_ready {conf : LogConf} {s : Tlog} {pc : PrintPc}
    (hpc : s.printers = [pc]) (hready : ∀ line maxlen, pc ≠ .ready line maxlen) :
    Attentive conf s (.printer 0) := by
  refine attentive_of_ne_work ⟨trivial, fun hfills => ?_⟩ (fun h => by cases h)
  obtain ⟨i, line, maxlen, hi, hget, -⟩ := hfills
  cases hi
  rw [hpc] at hget
  exact hready line maxlen (Option.some.inj hget)

/-- Two wide lines fill the block, and the third one has to wait. -/
theorem run_blocked (block : (wideLog true).Block) (hrest : ∀ buff, ∃ t,
    Run (logStep (wideLog true)) (Attentive (wideLog true))
      (.alone ⟨buff, 0, 0, maxLineSizeSet * 2, 0, 0⟩ (.top false) (.full wideLine 0)
        [(0, wideLine), (0, wideLine)]) acts t ∧ P t) :
    ∃ t, Run (logStep (wideLog true)) (Attentive (wideLog true)) (Tlog.init 1 block)
      (.print 0 wideOut :: .printer 0 :: .printer 0 :: .print 0 wideOut :: .printer 0 :: .printer 0
        :: .print 0 wideOut :: .printer 0 :: .printer 0 :: acts) t ∧ P t := by
  have hcall : ∀ s, Attentive (wideLog true) s (.print 0 wideOut) :=
    fun s => attentive_of_ne_work (wideOut_fits _ s) fun h => by cases h
  obtain ⟨t, hfull, ht⟩ : ∃ t, Run (logStep (wideLog true)) (Attentive (wideLog true))
      (.alone ⟨patch 0 (patch 0 block.val 0 wideLine) maxLineSizeSet wideLine, 0, 0,
        maxLineSizeSet * 2, 0, 0⟩ (.top false) .idle [(0, wideLine), (0, wideLine)])
      (.print 0 wideOut :: .printer 0 :: .printer 0 :: acts) t ∧ P t := by
    generalize patch 0 (patch 0 block.val 0 wideLine) maxLineSizeSet wideLine = buff
    obtain ⟨t, hblocked, ht⟩ := hrest buff
    let calling (printer : PrintPc) : Tlog :=
      .alone ⟨buff, 0, 0, maxLineSizeSet * 2, 0, 0⟩ (.top false) printer
        [(0, wideLine), (0, wideLine)]
    have henter : logStep (wideLog true) (calling (.entered wideOut)) (.printer 0)
        = some (calling (.ready wideLine 0)) := by
      have hline : tlogLine (wideLog true).maxLineSize wideOut = some wideLine := wideOut_line
      have hblock : ¬ ((wideLog true).block = false ∧ (calling (.entered wideOut)).log.maxlen
          (wideLog true) 0 < (wideLog true).maxLineSize) := fun h => Bool.noConfusion h.1
      show some (enterStep (wideLog true) _ 0 wideOut) = _
      rw [enterStep, if_neg hblock, hline]
      rfl
    have hready : NeverFilled (wideLog true) (calling (.ready wideLine 0)) (.printer 0) :=
      ⟨trivial, fun hfills => by
        obtain ⟨i, line, maxlen, hi, hready, hroom, -⟩ := hfills
        cases hi
        obtain ⟨-, rfl⟩ := PrintPc.ready.inj (Option.some.inj hready)
        have hnone : (calling (.ready wideLine 0)).log.maxlen (wideLog true) 0 = 0 := rfl
        rw [hnone] at hroom
        exact absurd hroom (by decide)⟩
    exact ⟨t, .cons (t := calling (.entered wideOut)) rfl (hcall _)
      (.cons henter (attentive_of_not_ready rfl fun _ _ h => by cases h)
      (.cons (t := calling (.full wideLine 0)) rfl
        (attentive_of_ne_work hready fun h => by cases h) hblocked)), ht⟩
  exact ⟨t, run_full hcall
    (fun _ hflat => attentive_of_ne_work (neverFilled_of_flat hflat 0) fun h => by cases h) hfull, ht⟩

/-- While it waits, the log's thread takes its first two steps. -/
theorem no_stranded_printer_full : ∃ s t,
    Run (logStep (wideLog true)) (Attentive (wideLog true)) (Tlog.init 1 (blankBlock (wideLog true)))
      [.print 0 wideOut, .printer 0, .printer 0, .print 0 wideOut, .printer 0, .printer 0,
        .print 0 wideOut, .printer 0, .printer 0, .printer 0] s
    ∧ exec (logStep (wideLog true)) s [.work, .work] = some t
    ∧ t.printers[0]? = some (.sleeping wideLine 0) ∧ ∃ u, logStep (wideLog true) t .work = some u := by
  obtain ⟨s, hrun, hworker, t, hrun', hexec, hsleeps⟩ :=
    @run_blocked [.printer 0] (fun s => s.worker = .top false ∧ ∃ t, Run (logStep (wideLog true))
      (fun s a => Attentive (wideLog true) s a ∧ s.printers[0]? = some (.sleeping wideLine 0)) s
        [.work, .work] t
      ∧ exec (logStep (wideLog true)) s [.work, .work] = some t
      ∧ t.printers[0]? = some (.sleeping wideLine 0))
    (blankBlock (wideLog true)) fun buff => by
      let waiting (worker : WorkPc) : Tlog :=
        .alone ⟨buff, 0, 0, maxLineSizeSet * 2, 0, 1⟩ worker (.sleeping wideLine 0)
          [(0, wideLine), (0, wideLine)]
      have hwork : ∀ worker, worker ≠ .wakeup → Attentive (wideLog true) (waiting worker) .work
          ∧ (waiting worker).printers[0]? = some (.sleeping wideLine 0) :=
        fun worker hne => ⟨attentive_work hne, rfl⟩
      have hwait : Attentive (wideLog true) (.alone ⟨buff, 0, 0, maxLineSizeSet * 2, 0, 0⟩
          (.top false) (.full wideLine 0) [(0, wideLine), (0, wideLine)]) (.printer 0) :=
        attentive_of_not_ready rfl fun _ _ h => by cases h
      exact ⟨waiting (.top false), .cons rfl hwait (.nil _), rfl,
        waiting (.upper ⟨maxLineSizeSet * 2, 0, 0, maxLineSizeSet * 2, 0⟩),
        .cons (t := waiting (.next false)) rfl (hwork _ nofun) (.cons rfl (hwork _ nofun) (.nil _)),
        rfl, rfl⟩
  have hpossible := (no_stranded_printer (wideLog true) hrun (by rw [hworker]; nofun) hrun' hsleeps).2
  exact ⟨s, t, hrun, hexec, hsleeps, hpossible⟩

end Blocked

/-- **The gap.** A broadcast that is made while a thread stands between its test for room and its wait
goes unheard. With an empty block, no `tlog_exit` so far and all other threads idle, there is a run in
which both threads then go to sleep; what is left are new calls, spurious wake-ups and `tlog_exit`. -/
theorem stranded_in_gap (conf : LogConf) {s : Tlog} {i maxlen : Nat} {line : List UInt8}
    (hpc : s.worker = .wakeup) (hrun : s.run = true) (hempty : s.log.hasData = false)
    (hgap : s.printers[i]? = some (.full line maxlen))
    (hidle : ∀ j pc, j ≠ i → s.printers[j]? = some pc → pc = .idle) :
    ∃ t, exec (logStep conf) s [.work, .printer i, .work, .work, .work, .work] = some t
      ∧ t.worker = .asleep ∧ t.log.hasData = false
      ∧ t.printers[i]? = some (.sleeping line maxlen)
      ∧ ∀ a u, logStep conf t a = some u →
        (∃ j out, a = .print j out) ∨ (∃ j, a = .rouse j) ∨ a = .rouseWork ∨ a = .exit := by
  have hprinters : (if s.log.waiters > 0 then s.printers.map PrintPc.broadcast else s.printers)
      = s.printers := by
    split
    · refine List.ext_getElem? fun j => ?_
      rw [List.getElem?_map]
      cases hj : s.printers[j]? with
      | none => rfl
      | some pc =>
        by_cases hji : j = i
        · rw [hji, hgap] at hj
          cases hj
          rfl
        · rw [hidle j pc hji hj]
          rfl
    · rfl
  have hlt : i < s.printers.length := (List.getElem?_eq_some_iff.mp hgap).1
  refine ⟨{ s with
    worker := .asleep
    isWait := true
    printers := s.printers.set i (.sleeping line maxlen)
    log := { s.log with waiters := s.log.waiters + 1 } }, ?_, rfl, hempty, ?_, ?_⟩
  · have hempty' : TlogLog.hasData { s.log with waiters := s.log.waiters + 1 } = false := hempty
    simp only [exec, logStep, workStep, hpc, hprinters, hgap, printerStep, Option.bind_some,
      Tlog.move, hrun, if_true, hempty', true_and]
  · exact List.getElem?_set_self hlt
  · intro a u hstep
    cases a with
    | print j out => exact Or.inl ⟨j, out, rfl⟩
    | rouse j => exact Or.inr (Or.inl ⟨j, rfl⟩)
    | rouseWork => exact Or.inr (Or.inr (Or.inl rfl))
    | exit => exact Or.inr (Or.inr (Or.inr rfl))
    | work => cases hstep
    | printer j =>
      -- the one thread sleeps, the others are not in a call
      simp only [logStep] at hstep
      by_cases hji : j = i
      · rw [hji, List.getElem?_set_self hlt] at hstep
        cases hstep
      · rw [List.getElem?_set_ne (Ne.symm hji)] at hstep
        cases hj : s.printers[j]? with
        | none =>
          rw [hj] at hstep
          cases hstep
        | some pc =>
          rw [hj, hidle j pc hji hj] at hstep
          cases hstep

/-- The third wide line finds the block full; before its thread waits, the log's thread has taken out the
other two. -/
theorem stranded_in_gap_full : ∃ s t,
    Run (logStep (wideLog true)) (Attentive (wideLog true)) (Tlog.init 1 (blankBlock (wideLog true)))
      (.print 0 wideOut :: .printer 0 :: .printer 0 :: .print 0 wideOut :: .printer 0 :: .printer 0
        :: .print 0 wideOut :: .printer 0 :: .printer 0 :: List.replicate 6 .work) s
    ∧ exec (logStep (wideLog true)) s [.work, .printer 0, .work, .work, .work, .work] = some t
    ∧ t.worker = .asleep ∧ t.printers[0]? = some (.sleeping wideLine 0) := by
  obtain ⟨s, hrun, hworker, hup, hempty, hprinters⟩ :=
    @run_blocked (List.replicate 6 .work) (fun s => s.worker = .wakeup ∧ s.run = true
      ∧ s.log.hasData = false ∧ s.printers = [.full wideLine 0]) (blankBlock (wideLog true))
    fun buff => by
      let waiting (extEnd : Nat) (worker : WorkPc) (output : List LogOut) : Tlog :=
        ⟨⟨buff, 0, 0, extEnd, 0, 0⟩, true, false, false, worker, [.full wideLine 0], .before,
          [(0, wideLine), (0, wideLine)], output, 0⟩
      have hwork : ∀ extEnd worker output, worker ≠ .wakeup →
          Attentive (wideLog true) (waiting extEnd worker output) .work :=
        fun _ _ _ hne => attentive_work hne
      let snap : Snapshot := ⟨16384, 0, 0, 16384, 0⟩
      let out := [] ++ (wideLog true).handOut (stretch buff 0 (0 + 16384))
      exact ⟨waiting 0 .wakeup out,
        .cons (t := waiting 16384 (.next false) []) rfl (hwork _ _ _ nofun)
        (.cons (t := waiting 16384 (.upper snap) []) rfl (hwork _ _ _ nofun)
        (.cons (t := waiting 16384 (.lower snap) out) rfl (hwork _ _ _ nofun)
        (.cons (t := waiting 16384 (.note snap) out) rfl (hwork _ _ _ nofun)
        (.cons (t := waiting 16384 (.release snap) out) rfl (hwork _ _ _ nofun)
        (.cons rfl (hwork _ _ _ nofun) (.nil _)))))), rfl, rfl, rfl, rfl⟩
  have hgap : s.printers[0]? = some (.full wideLine 0) := by rw [hprinters]; rfl
  obtain ⟨t, hexec, hasleep, -, hsleeps, -⟩ := stranded_in_gap (wideLog true) hworker hup hempty hgap
    fun j pc hj hpc => by
      rw [hprinters] at hpc
      cases j with
      | zero => exact absurd rfl hj
      | succ j => cases hpc
  exact ⟨s, t, hrun, hexec, hasleep, hsleeps⟩

end Estuary
