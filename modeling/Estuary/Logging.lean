import Estuary.Printers
import Estuary.LogLag
import Estuary.Rotation
import Estuary.Spec.Logging

/-!
# Estuary — what is logged is in the files

* **`log_of_logging`** — a run of the log with its files is one of the log;
* **`texts_of_block`** — where threads wait for room, only lines are handed out;
* **`Saved.step`** — what has been handed out is in the files, but for the calls that have not been
  made;
* **`logged_kept`** — so when the log's thread ends, the files hold each accepted line, whole, once and
  in order.
-/

namespace Estuary

open Engine

/-- The calls of `tlog_ext`, and a log file that can be written. -/
def Keeping (conf : LogConf) (outputNoPrefix : Bool) (s : Logging) : LoggingAct → Prop
  | .log a => RootCalls conf outputNoPrefix s.log a
  | .call note ans => ∀ out ∈ s.calls.head?, (FileAct.write (out.bytes note) ans).Written
  | .file _ => True

section Logging

variable {conf : LogConf} {files : LogFileConf} {outputNoPrefix : Bool} {s t : Logging}

def LoggingAct.log? : LoggingAct → Option LogAct
  | .log a => some a
  | _ => none

/-- What a step of the log does to both parts. -/
theorem loggingStep_log {a : LogAct} (hstep : loggingStep conf files s (.log a) = some t) :
    logStep conf s.log a = some t.log ∧ t.files = s.files
      ∧ t.calls = s.calls ++ t.log.output.drop s.log.output.length
      ∧ (a = .work → s.calls = []) := by
  rw [loggingStep] at hstep
  split at hstep
  · cases hstep
  next hbusy =>
    obtain ⟨log, hlog, rfl⟩ := Option.map_eq_some_iff.mp hstep
    exact ⟨hlog, rfl, rfl, fun hwork => Decidable.not_not.mp fun hcalls => hbusy ⟨hwork, hcalls⟩⟩

theorem log_of_logging {start : Logging} {acts : List LoggingAct}
    (hrun : Run (loggingStep conf files) (Keeping conf outputNoPrefix) start acts s) :
    Run (logStep conf) (RootCalls conf outputNoPrefix) start.log (acts.filterMap LoggingAct.log?)
      s.log := by
  refine hrun.project (p := Logging.log) ?_ ?_
  · intro s a t hact hstep
    cases a with
    | log a => cases hact
    | call note ans =>
      rw [loggingStep] at hstep
      split at hstep
      · cases hstep
      · obtain ⟨r, -, rfl⟩ := Option.map_eq_some_iff.mp hstep
        rfl
    | file a =>
      rw [loggingStep] at hstep
      split at hstep
      · cases hstep
      · obtain ⟨f, -, rfl⟩ := Option.map_eq_some_iff.mp hstep
        rfl
  · intro s a t b hact hguard hstep
    cases a with
    | log a =>
      cases hact
      exact ⟨(loggingStep_log hstep).1, hguard⟩
    | call note ans => cases hact
    | file a => cases hact

/-- The calls hand out lines only. -/
def OnlyText (output : List LogOut) : Prop := ∀ out ∈ output, ∃ bytes, out = .text bytes

theorem onlyText_handOut (conf : LogConf) (bytes : List UInt8) : OnlyText (conf.handOut bytes) := by
  unfold LogConf.handOut
  intro out hout
  split at hout
  · obtain ⟨text, -, rfl⟩ := List.mem_map.mp hout
    exact ⟨text, rfl⟩
  · exact ⟨bytes, List.mem_singleton.mp hout⟩

theorem OnlyText.append {output output' : List LogOut} (h : OnlyText output) (h' : OnlyText output') :
    OnlyText (output ++ output') := fun out hout =>
  (List.mem_append.mp hout).elim (h out) (h' out)

/-- **No notes.** Where threads wait for room, nothing is dropped, and only lines are handed out. -/
theorem texts_of_block {l l' : Tlog} {a : LogAct} (hblock : conf.block = true)
    (hcounted : DropsCounted conf l) (htexts : OnlyText l.output) (hstep : logStep conf l a = some l') :
    OnlyText l'.output := by
  by_cases ha : a = .work
  swap
  · rw [(step_of_ne_work ha hstep).2.1]
    exact htexts
  subst ha
  cases logStep_cases hstep with
  | start hpc hgo =>
    rw [begin_output]
    exact htexts
  | startAwake hpc hnotify =>
    rw [begin_output]
    exact htexts
  | upper hpc => exact htexts.append (onlyText_handOut _ _)
  | lower hpc =>
    show OnlyText (ite _ _ _)
    split
    · exact htexts.append (onlyText_handOut _ _)
    · exact htexts
  | @note snap hpc =>
    have hnone : snap.logDropped = 0 := by
      obtain ⟨noted, -, htotal⟩ := hcounted.total
      rw [hcounted.block hblock, hpc] at htotal
      have hdrops : (WorkPc.note snap).drops = snap.logDropped := rfl
      omega
    show OnlyText (ite _ _ _)
    rw [if_neg (by omega)]
    exact htexts
  | _ => exact htexts

/-- What has been handed out is in the files, behind what they held at first, or is still to be
written. -/
structure Saved (conf : LogConf) (files : LogFileConf) (first : List UInt8) (s : Logging) : Prop where
  ready : s.files.Ready files
  counted : DropsCounted conf s.log
  texts : OnlyText s.log.output
  calls : OnlyText s.calls
  bytes : s.files.written ++ textBytes s.calls = textBytes s.log.output
  whole : textOf (s.files.archived ++ s.files.staged files) = first ++ s.files.written

theorem Saved.step {first : List UInt8} {a : LoggingAct} (hblock : conf.block = true)
    (h : Saved conf files first s) (hguard : Keeping conf outputNoPrefix s a)
    (hstep : loggingStep conf files s a = some t) : Saved conf files first t := by
  cases a with
  | log a =>
    obtain ⟨hlog, hfiles, hcalls, -⟩ := loggingStep_log hstep
    obtain ⟨more, hmore⟩ := (output_grows hlog).1
    have htexts := texts_of_block hblock h.counted h.texts hlog
    rw [← hmore, List.drop_left] at hcalls
    refine ⟨hfiles ▸ h.ready, h.counted.step _ _ _ hlog, htexts, ?_, ?_, hfiles ▸ h.whole⟩
    · rw [hcalls]
      exact h.calls.append fun out hout => htexts out (hmore ▸ List.mem_append_right _ hout)
    · rw [hfiles, hcalls, ← hmore, textBytes_append, textBytes_append, ← List.append_assoc, h.bytes]
  | call note ans =>
    rw [loggingStep] at hstep
    cases hcalls : s.calls with
    | nil =>
      rw [hcalls] at hstep
      cases hstep
    | cons out rest =>
      have hwritten := hguard out (by rw [hcalls]; rfl)
      obtain ⟨bytes, rfl⟩ := h.calls out (by rw [hcalls]; exact List.mem_cons_self ..)
      obtain ⟨r, hr, hready, hmore⟩ := h.ready.write hwritten
      have hfollows := (tlogWriteExt_keeps h.ready.sound hr).2
      rw [hcalls] at hstep
      dsimp only at hstep
      rw [hr] at hstep
      cases hstep
      have hbytes := h.bytes
      rw [hcalls] at hbytes
      refine ⟨hready, h.counted, h.texts, fun out hout => h.calls out ?_, ?_, hfollows.whole h.whole⟩
      · rw [hcalls]
        exact List.mem_cons_of_mem _ hout
      · show r.1.written ++ textBytes rest = _
        rw [hmore, List.append_assoc]
        exact hbytes
  | file a =>
    rw [loggingStep] at hstep
    split at hstep
    · cases hstep
    next hwrite =>
      obtain ⟨f, hf, rfl⟩ := Option.map_eq_some_iff.mp hstep
      have hquiet : a.Written ∧ a.bytes = [] := by
        cases a with
        | write buff ans => exact absurd rfl hwrite
        | _ => exact ⟨trivial, rfl⟩
      obtain ⟨hready, hmore⟩ := h.ready.step hquiet.1 hf
      rw [hquiet.2, List.append_nil] at hmore
      refine ⟨hready, h.counted, h.texts, h.calls, ?_, (fileStep_follows h.ready.sound hf).2.whole h.whole⟩
      show f.written ++ _ = _
      rw [hmore]
      exact h.bytes

end Logging

/-- **What is logged is in the files.** In a log whose threads wait for room, with a log file that can
be written, the files hold each line accepted until the end of the log's thread, whole, once and in
order, behind what they held at first: for any number of threads, calls and orders of steps, whatever
becomes of the archived files. -/
theorem logged_kept (conf : LogConf) (files : LogFileConf) (outputNoPrefix : Bool)
    (hplain : conf.segmentLog = false) (hblock : conf.block = true) (hcount : 0 < conf.logcount) {n : Nat}
    {block : conf.Block} {nocompress : Bool} {dir : LogDir} {clock : Nat} (hclock : clock ≠ 0)
    {acts : List LoggingAct} {s t : Logging}
    (hrun : Run (loggingStep conf files) (Keeping conf outputNoPrefix)
      (.init n block nocompress dir clock) acts s)
    (hstep : loggingStep conf files s (.log .work) = some t) (hended : t.log.worker = .ended) :
    textOf (t.files.archived ++ t.files.staged files)
        = textOf ((Logging.init n block nocompress dir clock).files.staged files)
          ++ (t.log.accepted.map Prod.snd).flatten
      ∧ ∀ line ∈ t.log.accepted.map Prod.snd, conf.WholeLine line := by
  obtain ⟨hlines, hlog⟩ := RootCalls.run hplain (log_of_logging hrun)
  obtain ⟨c, hconveys, hwhole⟩ := log_whole hlog
  obtain ⟨hwork, -, hcalls, hidle⟩ := loggingStep_log hstep
  obtain ⟨houtput, hdelivered⟩ := delivered_of_ended hconveys hwhole hwork hended
  have hsound := init_sound files conf.logcount nocompress conf.logscreen dir clock
  have hready : (Logging.init n block nocompress dir clock).files.Ready files :=
    ⟨hsound, Nat.ne_of_gt hcount, hclock, rfl⟩
  have hstart : Saved conf files
      (textOf ((Logging.init n block nocompress dir clock).files.staged files))
      (Logging.init n block nocompress dir clock) :=
    ⟨hready, .init n block, List.forall_mem_nil _, List.forall_mem_nil _, rfl,
      (List.append_nil _).symm⟩
  have hsaved := hrun.invariant (fun _ _ _ h hguard hstep => h.step hblock hguard hstep) hstart
  have hguard : Keeping conf outputNoPrefix s (.log .work) := trivial
  have hsaved' : Saved conf files _ t := hsaved.step hblock hguard hstep
  have hnone : t.calls = [] := by
    rw [hcalls, hidle rfl, houtput, List.drop_length]
    rfl
  have hbytes := hsaved'.bytes
  rw [hnone, hdelivered] at hbytes
  refine ⟨?_, ?_⟩
  · rw [hsaved'.whole, ← hbytes]
    exact congrArg _ (List.append_nil _).symm
  · intro line hline
    rw [(work_output hwork).2] at hline
    obtain ⟨e, he, rfl⟩ := List.mem_map.mp hline
    exact hlines.accepted e he

/-- What the other threads do while the log's thread makes its calls. -/
theorem logging_of_log {conf : LogConf} {files : LogFileConf} {outputNoPrefix : Bool} {l l' : Tlog}
    {calls : List LogOut} {f : TlogFile} {acts : List LogAct} {acts' : List LoggingAct} {t : Logging}
    (hrun : Run (logStep conf) (fun l a => RootCalls conf outputNoPrefix l a ∧ a ≠ .work) l acts l')
    (hrest : Run (loggingStep conf files) (Keeping conf outputNoPrefix) ⟨l', calls, f⟩ acts' t) :
    Run (loggingStep conf files) (Keeping conf outputNoPrefix) ⟨l, calls, f⟩
      (acts.map LoggingAct.log ++ acts') t := by
  induction hrun with
  | nil _ => exact hrest
  | @cons l l₁ l' a acts hstep hguard _ ih =>
    refine .cons ?_ hguard.1 (ih hrest)
    have hnone : l₁.output.drop l.output.length = [] := by
      rw [(step_of_ne_work hguard.2 hstep).2.1, List.drop_length]
    rw [loggingStep, if_neg fun h => hguard.2 h.1, hstep]
    show some (⟨l₁, calls ++ l₁.output.drop l.output.length, f⟩ : Logging) = _
    rw [hnone, List.append_nil]

/-! ## A run to the end -/

/-- What `upOut` is in the file. -/
def upText : List UInt8 := [91, 93, 117, 112, newline]

/-- The log's files before the line, -/
def filesBefore : TlogFile := .init mainLog.logcount false mainLog.logscreen emptyDir 1

/-- and with it. -/
def filesAfter : TlogFile :=
  { filesBefore with
    dir := ⟨[(['l'], ⟨1, upText⟩)], by decide⟩
    fd := true
    filesize := 5
    written := upText }

/-- The call that writes the line. -/
theorem call_up {buff bytes : List UInt8} (hline : bytes = upText) :
    loggingStep mainLog zipLog
        ⟨.ending buff upText 0 (.lower ⟨5, 0, 5, 0, 0⟩) [.text bytes], [.text bytes], filesBefore⟩
        (.call [] { allGood with write := .wrote 4 })
      = some ⟨.ending buff upText 0 (.lower ⟨5, 0, 5, 0, 0⟩) [.text bytes], [], filesAfter⟩ := by
  subst hline
  rfl

/-- It is written whole. -/
theorem keeping_up {s : Logging} {bytes : List UInt8} (hcalls : s.calls = [.text bytes])
    (hline : bytes.length = 5) :
    Keeping mainLog false s (.call [] { allGood with write := .wrote 4 }) := by
  intro o ho
  rw [hcalls, List.head?_cons, Option.mem_def] at ho
  cases ho
  exact ⟨rfl, rfl, 4, rfl, Nat.le_of_eq hline⟩

/-- One line, and the end. -/
theorem logged_kept_up : ∃ s t : Logging,
    Run (loggingStep mainLog zipLog) (Keeping mainLog false)
      (.init 1 (blankBlock mainLog) false emptyDir 1)
      ([LogAct.print 0 upOut, .printer 0, .printer 0, .exit].map LoggingAct.log
        ++ [.log .work, .log .work, .log .work, .log .work,
          .call [] { allGood with write := .wrote 4 },
          .log .work, .log .work, .log .work, .log .work, .log .work]) s
    ∧ loggingStep mainLog zipLog s (.log .work) = some t
    ∧ textOf (t.files.archived ++ t.files.staged zipLog) = [91, 93, 117, 112, newline] := by
  generalize blankBlock mainLog = block
  have hplace : mainLog.logcount ≠ 0 := by decide
  have hroom : mainLog.maxLineSize ≤ mainLog.buffsize := by decide
  obtain ⟨buff, hprint, hline⟩ : ∃ buff : List UInt8,
      Run (logStep mainLog) (fun l a => RootCalls mainLog false l a ∧ a ≠ .work) (Tlog.init 1 block)
          [.print 0 upOut, .printer 0, .printer 0, .exit] (.ending buff upText 0 (.top false) [])
        ∧ stretch buff 0 5 = upText :=
    ⟨patch 0 block.val 0 upText,
      run_of_room rfl rfl hplace upOut_line hroom rfl ⟨upOut_root _, by decide⟩
        (fun _ => ⟨trivial, by decide⟩) (.cons rfl ⟨trivial, by decide⟩ (.nil _)),
      stretch_patch_self 0 (Nat.zero_le _)⟩
  let out : LogOut := .text (stretch buff 0 5)
  have hwork : ∀ l, Keeping mainLog false l (.log .work) := fun _ => trivial
  have hrun : Run (loggingStep mainLog zipLog) (Keeping mainLog false)
      (.init 1 block false emptyDir 1) _ ⟨.ending buff upText 5 (.lastCheck true) [out], [], filesAfter⟩ :=
    logging_of_log hprint
      (.cons (t := ⟨.ending buff upText 0 (.lastCheck false) [], [], filesBefore⟩) rfl (hwork _)
      (.cons (t := ⟨.ending buff upText 0 (.next false) [], [], filesBefore⟩) rfl (hwork _)
      (.cons (t := ⟨.ending buff upText 0 (.upper ⟨5, 0, 5, 0, 0⟩) [], [], filesBefore⟩) rfl (hwork _)
      (.cons (t := ⟨.ending buff upText 0 (.lower ⟨5, 0, 5, 0, 0⟩) [out], [out], filesBefore⟩) rfl (hwork _)
      (.cons (call_up hline) (keeping_up rfl (congrArg List.length hline))
      (.cons (t := ⟨.ending buff upText 0 (.note ⟨5, 0, 5, 0, 0⟩) [out], [], filesAfter⟩) rfl (hwork _)
      (.cons (t := ⟨.ending buff upText 0 (.release ⟨5, 0, 5, 0, 0⟩) [out], [], filesAfter⟩) rfl (hwork _)
      (.cons (t := ⟨.ending buff upText 5 .wakeup [out], [], filesAfter⟩) rfl (hwork _)
      (.cons (t := ⟨.ending buff upText 5 (.top true) [out], [], filesAfter⟩) rfl (hwork _)
      (.cons rfl (hwork _) (.nil _)))))))))))
  exact ⟨_, ⟨.ending buff upText 5 .ended [out], [], filesAfter⟩, hrun, rfl,
    (logged_kept mainLog zipLog false rfl rfl (by decide) (by decide) hrun rfl rfl).1⟩

end Estuary
