import Estuary.Log

/-!
# Estuary — what the log guarantees in every run

* **`Lines.step`** — a property of every line that is logged is one of every line in the log;
* **`rootLog_fifo`** — the root log loses nothing: whole lines, once, in the order in which they were
  accepted, whatever the threads do;
* **`noted_untouched`** — what the log's thread hands out is what it noted, however long it takes;
* **`ended_delivers`** — when the log's thread ends, everything that was accepted has been handed
  out;
* **`filled_lost`** — the one way to lose lines: a line that ends exactly where the unread ones begin.
-/

namespace Estuary

open Engine

/-! ## The lines of the log -/

/-- The line a thread is about to put satisfies `P`. -/
def PrintPc.Pends (conf : LogConf) (P : List UInt8 → Prop) : PrintPc → Prop
  | .idle => True
  | .entered out => ∀ line, tlogLine conf.maxLineSize out = some line → P line
  | .ready line _ => P line
  | .full line _ => P line
  | .sleeping line _ => P line
  | .woken line _ => P line

/-- Every line in the log, and every line on its way there, satisfies `P`. -/
structure Lines (conf : LogConf) (P : List UInt8 → Prop) (s : Tlog) : Prop where
  pending : ∀ pc ∈ s.printers, pc.Pends conf P
  accepted : ∀ e ∈ s.accepted, P e.2

section Lines

variable {conf : LogConf} {P : List UInt8 → Prop} {s t : Tlog}

theorem Lines.init (n : Nat) (block : conf.Block) : Lines conf P (Tlog.init n block) where
  pending pc hpc := by
    rw [List.eq_of_mem_replicate hpc]
    exact trivial
  accepted := nofun

theorem Lines.move {i : Nat} (h : Lines conf P s) (pc : PrintPc) (hpc : pc.Pends conf P)
    (hprinters : t.printers = s.printers.set i pc) (haccepted : t.accepted = s.accepted) :
    Lines conf P t := by
  refine ⟨fun p hp => ?_, by rw [haccepted]; exact h.accepted⟩
  rw [hprinters] at hp
  rcases List.mem_or_eq_of_mem_set hp with hp | rfl
  · exact h.pending p hp
  · exact hpc

theorem Lines.step (s : Tlog) (a : LogAct) (t : Tlog) (h : Lines conf P s)
    (hguard : ∀ i out, a = .print i out → ∀ line, tlogLine conf.maxLineSize out = some line → P line)
    (hstep : logStep conf s a = some t) : Lines conf P t := by
  have hget : ∀ {i : Nat} {pc : PrintPc}, s.printers[i]? = some pc → pc.Pends conf P :=
    fun hi => h.pending _ (List.mem_of_getElem? hi)
  have hbroadcast : ∀ {pc : PrintPc}, pc.Pends conf P → pc.broadcast.Pends conf P := by
    intro pc hpc
    cases pc <;> exact hpc
  cases logStep_cases hstep with
  | @call i out hpc => exact h.move (.entered out) (hguard i out rfl) rfl rfl
  | dropEarly hpc hblock hfull => exact h.move .idle trivial rfl rfl
  | giveUp hpc hline => exact h.move .idle trivial rfl rfl
  | format hpc hline =>
    have hP : P _ := hget hpc _ hline
    exact h.move (.ready _ _) hP rfl rfl
  | block hpc hfull hblock hnotify =>
    have hP : P _ := hget hpc
    subst hnotify
    split <;> exact h.move (.full _ _) hP rfl rfl
  | dropLate hpc hfull hblock hnotify =>
    subst hnotify
    split <;> exact h.move .idle trivial rfl rfl
  | @put i maxlen line s' _ hpc hroom hput hnotify =>
    have hput' : Lines conf P s' := by
      subst hput
      refine ⟨(h.move .idle trivial rfl rfl : Lines conf P (s.move i .idle)).pending, ?_⟩
      intro e he
      rcases List.mem_append.mp he with he | he
      · exact h.accepted e he
      · rw [List.mem_singleton.mp he]
        exact hget hpc
    have hn := notified_of_ite hnotify
    exact ⟨by rw [hn.printers]; exact hput'.pending, by rw [hn.accepted]; exact hput'.accepted⟩
  | wait hpc =>
    have hP : P _ := hget hpc
    exact h.move (.sleeping _ _) hP rfl rfl
  | retake hpc =>
    have hP : P _ := hget hpc
    exact h.move (.ready _ _) hP rfl rfl
  | rouse hpc =>
    have hP : P _ := hget hpc
    exact h.move (.woken _ _) hP rfl rfl
  | start hpc hgo =>
    exact ⟨by rw [begin_printers]; exact h.pending, by rw [begin_accepted]; exact h.accepted⟩
  | startAwake hpc hnotify =>
    exact ⟨by rw [begin_printers]; exact h.pending, by rw [begin_accepted]; exact h.accepted⟩
  | wakeup hpc =>
    refine ⟨?_, h.accepted⟩
    split
    · intro p hp
      obtain ⟨q, hq, rfl⟩ := List.mem_map.mp hp
      exact hbroadcast (h.pending q hq)
    · exact h.pending
  | _ => exact ⟨h.pending, h.accepted⟩

end Lines

/-! ## The channel without lines on their way -/

section Runs

variable {conf : LogConf} {s t : Tlog} {n : Nat} {block : conf.Block} {acts : List LogAct}

theorem flatten_of_encode_empty {lines : List (List UInt8)} (hlines : ∀ line ∈ lines, conf.Fits line)
    {log : TlogLog} {a : Nat} (h : stretch log.buff a a = conf.encode lines) :
    lines.flatten = [] := by
  rw [stretch_self] at h
  exact flatten_of_encode_nil hlines h.symm

/-- An empty block, with the log's thread holding no snapshot: nothing is queued. -/
theorem Conveys.drained {c : Channel (List UInt8)} (h : Conveys conf s c)
    (haway : s.worker.away = true) (hempty : s.log.hasData = false) : c.queue.flatten = [] := by
  obtain ⟨-, -, -, -, us₁, us₂, ls₁, ls₂, hstands, hfit, hnoted, hqueue⟩ := h
  obtain ⟨rfl, rfl⟩ := (noted_of_away haway).mp hnoted
  rw [hqueue, queued_of_away haway]
  simp only [TlogLog.hasData, Bool.or_eq_false_iff, bne_eq_false_iff_eq] at hempty
  obtain ⟨hend, hext⟩ := hempty
  generalize hboth : [] ++ ls₂ = both at hstands
  cases hstands with
  | flat _ hle hus =>
    rw [List.nil_append] at hboth hus
    rw [hend] at hus
    rw [hboth, List.append_nil]
    refine flatten_of_encode_empty (fun line hline => hfit line ?_) hus
    exact List.mem_append_left _ (List.mem_append_right _ hline)
  | wrapped hext' => exact absurd hext hext'

/-- What was accepted has been handed out, or is queued. -/
theorem log_whole (hrun : Run (logStep conf) (NeverFilled conf) (Tlog.init n block) acts s) :
    ∃ c, Conveys conf s c ∧ s.accepted.map Prod.snd = c.delivered ++ c.queue := by
  obtain ⟨bs, c, hc, hconveys⟩ := log_simulates hrun
  exact ⟨c, hconveys, hconveys.accepted ▸ channel_whole hc⟩

/-! ## The root log -/

/-- The calls of `tlog_ext`, with a text that is not empty. -/
def RootCalls (conf : LogConf) (outputNoPrefix : Bool) (_ : Tlog) : LogAct → Prop
  | .print _ out => ∃ call : LogCall conf.maxLineSize, call.text outputNoPrefix ≠ []
      ∧ out = tlogRootLogBuffer conf.segmentLog outputNoPrefix conf.maxLineSize call
  | _ => True

/-- A whole line, shorter than the room of a line. -/
def LogConf.WholeLine (conf : LogConf) (line : List UInt8) : Prop :=
  line.getLast? = some newline ∧ line.length < conf.maxLineSize

theorem WholeLine.pos {line : List UInt8} (h : conf.WholeLine line) : 0 < line.length := by
  cases line with
  | nil => cases h.1
  | cons b bs => exact Nat.succ_pos _

theorem entry_plain (hplain : conf.segmentLog = false) (line : List UInt8) :
    conf.entry line = line := by
  rw [LogConf.entry, hplain, if_neg Bool.false_ne_true]

/-- What a call of the root log puts into the block. -/
theorem RootCalls.wholeLine {outputNoPrefix : Bool} (hplain : conf.segmentLog = false)
    {i : Nat} {out : PrintOut} (h : RootCalls conf outputNoPrefix s (.print i out))
    {line : List UInt8} (hline : tlogLine conf.maxLineSize out = some line) :
    conf.WholeLine line := by
  obtain ⟨call, hne, rfl⟩ := h
  rw [hplain] at hline
  have hlength := rootLine_length conf.line_min call hne hline
  have htext := tlogLine_plain conf.line_min call hne
  rw [hline] at htext
  split at htext
  · refine ⟨?_, by omega⟩
    rw [Option.some.inj htext]
    exact ended_last _
  · cases htext

/-- The calls of `tlog_printf`, with what is in the array. -/
def PrintCalls (conf : LogConf) : LogAct → Prop
  | .print _ out => ∃ memory message : List UInt8, memory.length = conf.maxLineSize
      ∧ out = tlogPrintBuffer conf.maxLineSize memory message
  | _ => True

/-- The calls of both, and no line that fills the block exactly. -/
def LogCalls (conf : LogConf) (outputNoPrefix : Bool) (s : Tlog) (a : LogAct) : Prop :=
  (RootCalls conf outputNoPrefix s a ∨ PrintCalls conf a) ∧ ¬ Fills conf s a

/-- What becomes of a call of `tlog_ext` or of `tlog_printf`. -/
def LogConf.CallLine (conf : LogConf) (outputNoPrefix : Bool) (line : List UInt8) : Prop :=
  (∃ call : LogCall conf.maxLineSize, line = call.line false outputNoPrefix)
    ∨ ∃ message : List UInt8, message ≠ [] ∧ line = printed conf.maxLineSize message

theorem CallLine.pos {outputNoPrefix : Bool} {line : List UInt8}
    (h : conf.CallLine outputNoPrefix line) : 0 < line.length := by
  rcases h with ⟨call, rfl⟩ | ⟨message, hne, rfl⟩
  · exact ended_pos _
  · exact printed_pos hne

theorem CallLine.length_le {outputNoPrefix : Bool} {line : List UInt8}
    (h : conf.CallLine outputNoPrefix line) : line.length ≤ conf.maxLineSize := by
  rcases h with ⟨call, rfl⟩ | ⟨message, -, rfl⟩
  · have hlength := @LogCall.line_length_le false outputNoPrefix _ conf.line_min call
    omega
  · exact printed_length_le conf.line_min message

/-- What such a call puts into the block. -/
theorem LogCalls.callLine {outputNoPrefix : Bool} (hplain : conf.segmentLog = false) {i : Nat}
    {out : PrintOut} (h : LogCalls conf outputNoPrefix s (.print i out)) {line : List UInt8}
    (hline : tlogLine conf.maxLineSize out = some line) : conf.CallLine outputNoPrefix line := by
  rcases h.1 with ⟨call, hne, rfl⟩ | ⟨memory, message, hmemory, rfl⟩
  · rw [hplain, tlogLine_plain conf.line_min call hne] at hline
    split at hline
    · exact Or.inl ⟨call, (Option.some.inj hline).symm⟩
    · cases hline
  · have hne : message ≠ [] := by
      rintro rfl
      have hpos : ([] : List UInt8).length ≠ conf.maxLineSize := by
        have hmin := conf.line_min
        unfold minLineSize at hmin
        rw [List.length_nil]
        omega
      rw [tlogPrintBuffer, if_neg hpos] at hline
      cases hline
    rw [printLine conf.line_min hmemory hne] at hline
    split at hline
    · cases hline
    · exact Or.inr ⟨message, hne, (Option.some.inj hline).symm⟩

/-- Whole lines never fill the block. -/
theorem neverFilled_of_wholeLines (hplain : conf.segmentLog = false)
    (hlines : Lines conf conf.WholeLine s) {a : LogAct}
    (hcalls : ∀ i out, a = .print i out →
      ∀ line, tlogLine conf.maxLineSize out = some line → conf.WholeLine line) :
    NeverFilled conf s a := by
  constructor
  · cases a with
    | print i out =>
      intro line hline
      have hwhole := hcalls i out rfl line hline
      rw [LogConf.Fits, entry_plain hplain]
      exact Nat.le_of_lt hwhole.2
    | _ => exact trivial
  · rintro ⟨i, line, maxlen, -, hpc, hroom, hext, hend⟩
    have hwhole : conf.WholeLine line := hlines.pending _ (List.mem_of_getElem? hpc)
    have hpos := WholeLine.pos hwhole
    have hlength := hwhole.2
    rw [entry_plain hplain] at hend
    rw [TlogLog.maxlen, if_neg (show s.log.end_ ≠ s.log.start by omega),
      if_neg (show ¬ s.log.end_ > s.log.start by omega)] at hroom
    omega

/-- A property of what the calls become is one of every line in the log, and may be used to show that
none fills the block. -/
theorem run_of_lines {P : List UInt8 → Prop} {G : Tlog → LogAct → Prop}
    (hcalls : ∀ s a, G s a → ∀ i out, a = .print i out →
      ∀ line, tlogLine conf.maxLineSize out = some line → P line)
    (hnever : ∀ s a, Lines conf P s → G s a → NeverFilled conf s a)
    (hrun : Run (logStep conf) G (Tlog.init n block) acts s) :
    Lines conf P s ∧ Run (logStep conf) (NeverFilled conf) (Tlog.init n block) acts s := by
  have hstep : ∀ s a t, Lines conf P s → G s a → logStep conf s a = some t → Lines conf P t :=
    fun s a t hI hguard hstep => hI.step s a t (hcalls s a hguard) hstep
  exact ⟨hrun.invariant hstep (Lines.init n block),
    hrun.strengthen hstep hnever (Lines.init n block)⟩

theorem RootCalls.run {outputNoPrefix : Bool} (hplain : conf.segmentLog = false)
    (hrun : Run (logStep conf) (RootCalls conf outputNoPrefix) (Tlog.init n block) acts s) :
    Lines conf conf.WholeLine s
      ∧ Run (logStep conf) (NeverFilled conf) (Tlog.init n block) acts s := by
  have hcalls : ∀ (s : Tlog) (a : LogAct), RootCalls conf outputNoPrefix s a →
      ∀ i out, a = .print i out →
        ∀ line, tlogLine conf.maxLineSize out = some line → conf.WholeLine line := by
    rintro s _ hguard i out rfl line hline
    exact RootCalls.wholeLine hplain hguard hline
  exact run_of_lines hcalls
    (fun s a hlines hguard => neverFilled_of_wholeLines hplain hlines (hcalls s a hguard)) hrun

theorem LogCalls.run {outputNoPrefix : Bool} (hplain : conf.segmentLog = false)
    (hrun : Run (logStep conf) (LogCalls conf outputNoPrefix) (Tlog.init n block) acts s) :
    Lines conf (conf.CallLine outputNoPrefix) s
      ∧ Run (logStep conf) (NeverFilled conf) (Tlog.init n block) acts s := by
  have hcalls : ∀ (s : Tlog) (a : LogAct), LogCalls conf outputNoPrefix s a →
      ∀ i out, a = .print i out →
        ∀ line, tlogLine conf.maxLineSize out = some line → conf.CallLine outputNoPrefix line := by
    rintro s _ hguard i out rfl line hline
    exact LogCalls.callLine hplain hguard hline
  refine run_of_lines hcalls (fun s a _ hguard => ⟨?_, hguard.2⟩) hrun
  cases a with
  | print i out =>
    intro line hline
    rw [LogConf.Fits, entry_plain hplain]
    exact CallLine.length_le (hcalls s _ hguard i out rfl line hline)
  | _ => exact trivial

/-! ## A call that finds room -/

section Calls

variable {conf : LogConf} {G : Tlog → LogAct → Prop} {s t : Tlog} {acts : List LogAct}
  {out : PrintOut} {line : List UInt8} {log : TlogLog}

/-- A call of the only thread that finds room: its line goes into the block. -/
theorem run_of_room (hidle : s.printers = [.idle]) (hawake : s.isWait = false)
    (hplace : conf.logcount ≠ 0) (hline : tlogLine conf.maxLineSize out = some line)
    (hroom : conf.maxLineSize ≤ s.log.maxlen conf 0) (hput : s.log.put conf line = log)
    (hcall : G s (.print 0 out)) (hsteps : ∀ pc, G { s with printers := [pc] } (.printer 0))
    (hrest : Run (logStep conf) G
      { s with log := log, accepted := s.accepted ++ [(0, line)] } acts t) :
    Run (logStep conf) G s (.print 0 out :: .printer 0 :: .printer 0 :: acts) t := by
  obtain ⟨log₀, run, isWait, notifyLog, worker, printers, exit, accepted, output, refused⟩ := s
  simp only at hidle hawake hroom hput
  subst hidle hawake hput
  have hfull : ¬ log₀.maxlen conf 0 < conf.maxLineSize := Nat.not_lt.mpr hroom
  refine .cons (t := ⟨log₀, run, false, notifyLog, worker, [.entered out], exit, accepted, output,
    refused⟩) ?_ hcall (.cons (t := ⟨log₀, run, false, notifyLog, worker, [.ready line 0], exit,
      accepted, output, refused⟩) ?_ (hsteps _) (.cons ?_ (hsteps _) hrest))
  · show some (if conf.logcount = 0 ∧ conf.logscreen = false then _ else _) = _
    rw [if_neg fun h => hplace h.1]
    rfl
  · show some (enterStep conf _ 0 out) = _
    rw [enterStep, if_neg fun h => hfull h.2, hline]
    rfl
  · show some (lockStep conf _ 0 line 0) = _
    simp only [lockStep, if_neg hfull]
    rfl

/-- A line behind which there is room for another one. -/
theorem put_of_room (hplain : conf.segmentLog = false) {e : Nat} (hend : log.end_ + line.length = e)
    (hroom : e ≤ conf.buffsize - conf.maxLineSize) :
    log.put conf line = { log with buff := patch 0 log.buff log.end_ line, end_ := e } := by
  simp only [TlogLog.put, entry_plain hplain, hend, if_neg (Nat.not_lt.mpr hroom)]

/-- A line behind which there is none. -/
theorem put_of_wrap (hplain : conf.segmentLog = false) {e : Nat} (hend : log.end_ + line.length = e)
    (hwrap : conf.buffsize - conf.maxLineSize < e) :
    log.put conf line
      = { log with buff := patch 0 log.buff log.end_ line, extEnd := e, end_ := 0 } := by
  simp only [TlogLog.put, entry_plain hplain, hend, if_pos hwrap]

/-- Only a step of a thread that logs fills the block. -/
theorem not_fills {a : LogAct} (ha : ∀ i, a ≠ .printer i) : ¬ Fills conf s a := by
  rintro ⟨i, -, -, rfl, -⟩
  exact ha i rfl

/-- In a block without an end behind `end`, no line fills it. -/
theorem neverFilled_of_flat (hflat : s.log.extEnd = 0) (i : Nat) : NeverFilled conf s (.printer i) :=
  ⟨trivial, fun hfills => by
    obtain ⟨-, -, -, -, -, -, hext, -⟩ := hfills
    exact hext hflat⟩

end Calls

/-- A log whose lines take half the block. -/
def wideLog (block : Bool) : LogConf :=
  tlogSetMaxlineSize ((tlogInit 1 16384 (if block then 0 else 8) false).get rfl) 8192

/-- A fresh block. -/
def blankBlock (conf : LogConf) : conf.Block :=
  ⟨List.replicate conf.buffsize 0, List.length_replicate⟩

/-- A call of `tlog_printf`. -/
def printOut (maxLineSize : Nat) (message : List UInt8) : PrintOut :=
  tlogPrintBuffer maxLineSize (List.replicate maxLineSize 0) message

theorem printOut_line {maxLineSize : Nat} (hmin : minLineSize ≤ maxLineSize) {message : List UInt8}
    (hne : message ≠ []) (hlength : message.length ≠ maxLineSize) :
    tlogLine maxLineSize (printOut maxLineSize message) = some (printed maxLineSize message) :=
  (printLine hmin List.length_replicate hne).trans (if_neg hlength)

/-- A message that is too long by one byte. -/
def wideMessage : List UInt8 := List.replicate (maxLineSizeSet + 1) 97

theorem wideMessage_length : wideMessage.length = maxLineSizeSet + 1 := List.length_replicate

def wideOut : PrintOut := printOut maxLineSizeSet wideMessage

def wideLine : List UInt8 := printed maxLineSizeSet wideMessage

theorem wideOut_line : tlogLine maxLineSizeSet wideOut = some wideLine :=
  printOut_line (by decide) (List.cons_ne_nil _ _) (by rw [wideMessage_length]; decide)

theorem wideLine_length : wideLine.length = maxLineSizeSet := by
  have hlong : ¬ wideMessage.length < maxLineSizeSet := by
    rw [wideMessage_length]
    decide
  rw [wideLine, printed, if_neg hlong, List.length_append, List.length_take, wideMessage_length]
  decide

theorem wideLog_plain (block : Bool) : (wideLog block).segmentLog = false := by
  cases block <;> rfl

theorem wideOut_fits (block : Bool) (s : Tlog) : NeverFilled (wideLog block) s (.print 0 wideOut) := by
  refine ⟨fun line hline => ?_, not_fills nofun⟩
  rw [← Option.some.inj (wideOut_line.symm.trans hline), LogConf.Fits,
    entry_plain (wideLog_plain block)]
  exact Nat.le_of_eq wideLine_length

theorem wideLog_room (block : Bool) :
    (wideLog block).buffsize - (wideLog block).maxLineSize = maxLineSizeSet := by
  cases block <;> rfl

/-- One byte. -/
def shortOut : PrintOut := printOut maxLineSizeSet [97]

theorem shortOut_line : tlogLine maxLineSizeSet shortOut = some [97] :=
  printOut_line (by decide) (List.cons_ne_nil _ _) (by decide)

theorem shortOut_fits (block : Bool) (s : Tlog) :
    NeverFilled (wideLog block) s (.print 0 shortOut) := by
  refine ⟨fun line hline => ?_, not_fills nofun⟩
  rw [← Option.some.inj (shortOut_line.symm.trans hline), LogConf.Fits,
    entry_plain (wideLog_plain block)]
  exact Nat.succ_pos _

theorem neverFilled_work (conf : LogConf) (s : Tlog) : NeverFilled conf s .work :=
  ⟨trivial, not_fills nofun⟩

/-- The log with one thread, before anything is handed out. -/
def Tlog.alone (log : TlogLog) (worker : WorkPc) (printer : PrintPc)
    (accepted : List (Nat × List UInt8)) : Tlog :=
  ⟨log, true, false, false, worker, [printer], .before, accepted, [], 0⟩

/-- The one thread has logged `text`, and `tlog_exit` waits for the log's thread. -/
def Tlog.ending (buff text : List UInt8) (start : Nat) (worker : WorkPc) (output : List LogOut) :
    Tlog :=
  ⟨⟨buff, start, text.length, 0, 0, 0⟩, false, false, false, worker, [.idle], .stopped, [(0, text)],
    output, 0⟩

section Alone

variable {block : Bool} {G : Tlog → LogAct → Prop} {buff : List UInt8} {worker : WorkPc}
  {accepted : List (Nat × List UInt8)} {acts : List LogAct} {t : Tlog}

/-- Up to half the block, there is room for a line. -/
theorem wideLog_maxlen {e : Nat} (he : e ≤ maxLineSizeSet) :
    maxLineSizeSet ≤ TlogLog.maxlen (wideLog block) ⟨buff, 0, e, 0, 0, 0⟩ 0 := by
  have hbuffsize : (wideLog block).buffsize = maxLineSizeSet * 2 := rfl
  unfold TlogLog.maxlen
  simp only [if_true, hbuffsize]
  split
  · omega
  · rw [if_pos (by omega)]
    omega

/-- A short call, with room for a line behind its own. -/
theorem run_short {e : Nat} (he : e < maxLineSizeSet) (hcall : ∀ s, G s (.print 0 shortOut))
    (hsteps : ∀ s, s.log.extEnd = 0 → G s (.printer 0))
    (hrest : Run (logStep (wideLog block)) G (.alone ⟨patch 0 buff e [97], 0, e + 1, 0, 0, 0⟩ worker
      .idle (accepted ++ [(0, [97])])) acts t) :
    Run (logStep (wideLog block)) G (.alone ⟨buff, 0, e, 0, 0, 0⟩ worker .idle accepted)
      (.print 0 shortOut :: .printer 0 :: .printer 0 :: acts) t := by
  have hline : tlogLine (wideLog block).maxLineSize shortOut = some [97] := shortOut_line
  have hput : TlogLog.put (wideLog block) ⟨buff, 0, e, 0, 0, 0⟩ [97]
      = ⟨patch 0 buff e [97], 0, e + 1, 0, 0, 0⟩ :=
    put_of_room (wideLog_plain block) rfl (Nat.le_trans he (Nat.le_of_eq (wideLog_room block).symm))
  exact run_of_room rfl rfl Nat.one_ne_zero hline (wideLog_maxlen (Nat.le_of_lt he)) hput (hcall _)
    (fun _ => hsteps _ rfl) hrest

/-- A wide call in an empty block. -/
theorem run_wide (hcall : ∀ s, G s (.print 0 wideOut))
    (hsteps : ∀ s, s.log.extEnd = 0 → G s (.printer 0))
    (hrest : Run (logStep (wideLog block)) G (.alone ⟨patch 0 buff 0 wideLine, 0, maxLineSizeSet, 0, 0,
      0⟩ worker .idle (accepted ++ [(0, wideLine)])) acts t) :
    Run (logStep (wideLog block)) G (.alone ⟨buff, 0, 0, 0, 0, 0⟩ worker .idle accepted)
      (.print 0 wideOut :: .printer 0 :: .printer 0 :: acts) t := by
  have hline : tlogLine (wideLog block).maxLineSize wideOut = some wideLine := wideOut_line
  have hput : TlogLog.put (wideLog block) ⟨buff, 0, 0, 0, 0, 0⟩ wideLine
      = ⟨patch 0 buff 0 wideLine, 0, maxLineSizeSet, 0, 0, 0⟩ :=
    put_of_room (wideLog_plain block) ((Nat.zero_add _).trans wideLine_length)
      (Nat.le_of_eq (wideLog_room block).symm)
  exact run_of_room rfl rfl Nat.one_ne_zero hline (wideLog_maxlen (Nat.zero_le _)) hput (hcall _)
    (fun _ => hsteps _ rfl) hrest

/-- Two wide calls in an empty block: behind `end` there is no room left. -/
theorem run_full (hcall : ∀ s, G s (.print 0 wideOut))
    (hsteps : ∀ s, s.log.extEnd = 0 → G s (.printer 0))
    (hrest : Run (logStep (wideLog block)) G (.alone ⟨patch 0 (patch 0 buff 0 wideLine) maxLineSizeSet
      wideLine, 0, 0, maxLineSizeSet * 2, 0, 0⟩ worker .idle [(0, wideLine), (0, wideLine)]) acts t) :
    Run (logStep (wideLog block)) G (.alone ⟨buff, 0, 0, 0, 0, 0⟩ worker .idle [])
      (.print 0 wideOut :: .printer 0 :: .printer 0 :: .print 0 wideOut :: .printer 0 :: .printer 0
        :: acts) t := by
  refine run_wide hcall hsteps ?_
  generalize patch 0 buff 0 wideLine = buff at hrest ⊢
  have hline : tlogLine (wideLog block).maxLineSize wideOut = some wideLine := wideOut_line
  have hend : maxLineSizeSet + wideLine.length = maxLineSizeSet * 2 := by
    rw [wideLine_length, Nat.mul_two]
  have hput : TlogLog.put (wideLog block) ⟨buff, 0, maxLineSizeSet, 0, 0, 0⟩ wideLine
      = ⟨patch 0 buff maxLineSizeSet wideLine, 0, 0, maxLineSizeSet * 2, 0, 0⟩ :=
    put_of_wrap (wideLog_plain block) hend (by rw [wideLog_room]; decide)
  exact run_of_room rfl rfl Nat.one_ne_zero hline (wideLog_maxlen (Nat.le_refl _)) hput (hcall _)
    (fun _ => hsteps _ rfl) hrest

end Alone

def upOut : PrintOut := tlogRootLogBuffer false false tlogMaxLineLen (upCall tlogMaxLineLen)

theorem upOut_line : tlogLine tlogMaxLineLen upOut = some [91, 93, 117, 112, newline] :=
  (tlogLine_plain (by decide) (upCall tlogMaxLineLen) (by decide)).trans (by decide)

theorem upOut_root (s : Tlog) : RootCalls mainLog false s (.print 0 upOut) :=
  ⟨upCall tlogMaxLineLen, by decide, rfl⟩

/-- **The root log.** Outside segment mode, for any number of threads, any calls of `tlog_ext` with a
text and of `tlog_printf` and any order of steps in which no line fills the block exactly (those of
`tlog_ext` never do): what has been handed out is an initial segment of the accepted lines, each of
them what a call became, once, whole and in order, and all of them when the block is empty and the log's
thread holds none of it. -/
theorem rootLog_fifo (conf : LogConf) (outputNoPrefix : Bool) (hplain : conf.segmentLog = false)
    {n : Nat} {block : conf.Block} {acts : List LogAct} {s : Tlog}
    (hrun : Run (logStep conf) (LogCalls conf outputNoPrefix) (Tlog.init n block) acts s) :
    ∃ delivered queue, s.accepted.map Prod.snd = delivered ++ queue
      ∧ textBytes s.output = delivered.flatten
      ∧ (∀ line ∈ delivered ++ queue, conf.CallLine outputNoPrefix line)
      ∧ (s.worker.away = true → s.log.hasData = false → queue = []) := by
  obtain ⟨hlines, hrun'⟩ := LogCalls.run hplain hrun
  obtain ⟨c, hconveys, hwhole⟩ := log_whole hrun'
  have hall : ∀ line ∈ c.delivered ++ c.queue, conf.CallLine outputNoPrefix line := by
    intro line hline
    rw [← hwhole] at hline
    obtain ⟨e, he, rfl⟩ := List.mem_map.mp hline
    exact hlines.accepted e he
  refine ⟨c.delivered, c.queue, hwhole, hconveys.delivered, hall, fun haway hempty => ?_⟩
  have hnil := hconveys.drained haway hempty
  cases hqueue : c.queue with
  | nil => rfl
  | cons line rest =>
    rw [hqueue] at hnil hall
    have hpos := CallLine.pos (hall line (List.mem_append_right _ (List.mem_cons_self ..)))
    rw [List.flatten_cons, List.append_eq_nil_iff] at hnil
    rw [hnil.1] at hpos
    exact absurd hpos (Nat.lt_irrefl 0)

/-- A line with prefix and newline, and a byte of `tlog_printf`. -/
theorem rootLog_fifo_up : ∃ s, Run (logStep mainLog) (LogCalls mainLog false)
      (Tlog.init 1 (blankBlock mainLog))
      [.print 0 upOut, .printer 0, .printer 0, .print 0 (printOut tlogMaxLineLen [97]), .printer 0,
        .printer 0, .work, .work, .work, .work, .work, .work, .work] s
    ∧ textBytes s.output = [91, 93, 117, 112, newline, 97] := by
  generalize blankBlock mainLog = block
  have hplace : mainLog.logcount ≠ 0 := by decide
  have hline : tlogLine mainLog.maxLineSize (printOut tlogMaxLineLen [97]) = some [97] :=
    printOut_line (by decide) (List.cons_ne_nil _ _) (by decide)
  have hprint : PrintCalls mainLog (.print 0 (printOut tlogMaxLineLen [97])) :=
    ⟨_, _, List.length_replicate, rfl⟩
  have hwork : ∀ s, LogCalls mainLog false s .work := fun _ => ⟨Or.inl trivial, not_fills nofun⟩
  have hsteps : ∀ s : Tlog, s.log.extEnd = 0 → LogCalls mainLog false s (.printer 0) :=
    fun _ hflat => ⟨Or.inl trivial, (neverFilled_of_flat hflat 0).2⟩
  obtain ⟨s, hrest, haccepted, haway, hempty⟩ : ∃ s, Run (logStep mainLog) (LogCalls mainLog false)
      (.alone ⟨patch 0 (patch 0 block.val 0 [91, 93, 117, 112, newline]) 5 [97], 0, 6, 0, 0, 0⟩
        (.top false) .idle [(0, [91, 93, 117, 112, newline]), (0, [97])])
      [.work, .work, .work, .work, .work, .work, .work] s
      ∧ s.accepted = [(0, [91, 93, 117, 112, newline]), (0, [97])]
      ∧ s.worker.away = true ∧ s.log.hasData = false := by
    generalize patch 0 (patch 0 block.val 0 [91, 93, 117, 112, newline]) 5 [97] = buff
    exact ⟨_, .cons rfl (hwork _) (.cons rfl (hwork _) (.cons rfl (hwork _) (.cons rfl (hwork _)
      (.cons rfl (hwork _) (.cons rfl (hwork _) (.cons rfl (hwork _) (.nil _))))))), rfl, rfl, rfl⟩
  have hrun : Run (logStep mainLog) (LogCalls mainLog false) (Tlog.init 1 block) _ s :=
    run_of_room rfl rfl hplace upOut_line (Nat.le_of_ble_eq_true rfl)
      (put_of_room rfl rfl (Nat.le_of_ble_eq_true rfl)) ⟨Or.inl (upOut_root _), not_fills nofun⟩
      (fun _ => hsteps _ rfl)
      (run_of_room rfl rfl hplace hline (Nat.le_of_ble_eq_true rfl)
        (put_of_room rfl rfl (Nat.le_of_ble_eq_true rfl)) ⟨Or.inr hprint, not_fills nofun⟩
        (fun _ => hsteps _ rfl) hrest)
  obtain ⟨delivered, queue, hwhole, houtput, -, hdrained⟩ := rootLog_fifo mainLog false rfl hrun
  rw [hdrained haway hempty, List.append_nil, haccepted] at hwhole
  exact ⟨s, hrun, houtput.trans (congrArg List.flatten hwhole.symm)⟩

/-! ## The log's thread at work -/

/-- The snapshot the log's thread holds. -/
def WorkPc.noted : WorkPc → Option Snapshot
  | .upper snap => some snap
  | .lower snap => some snap
  | .note snap => some snap
  | .release snap => some snap
  | _ => none

theorem noted_eq_none {pc : WorkPc} : pc.noted = none ↔ pc.away = true := by
  cases pc <;> simp [WorkPc.noted, WorkPc.away]

/-- What the log's thread holds is what the lines say it has taken. -/
theorem Noted.taken {log : TlogLog} {pc : WorkPc} {snap : Snapshot}
    {us₁ us₂ ls₁ : List (List UInt8)} (h : Noted conf log us₁ us₂ ls₁ pc)
    (hpc : pc.noted = some snap) : Taken conf log snap us₁ us₂ ls₁ := by
  cases pc <;> cases hpc <;> exact h

/-- The log's thread has not given back the snapshot yet, and its stretches are as they were. -/
structure Holding (conf : LogConf) (snap : Snapshot) (first second : List UInt8) (pos : Nat)
    (s : Tlog) : Prop where
  conveys : ∃ c, Conveys conf s c
  noted : s.worker.noted = some snap
  start : s.log.start = pos
  upper : stretch s.log.buff pos (pos + snap.logLen) = first
  lower : stretch s.log.buff 0 snap.logExtlen = second

theorem Holding.ring {snap : Snapshot} {first second : List UInt8} {pos : Nat}
    (h : Holding conf snap first second pos s) (hconveys : ∃ c, Conveys conf t c)
    (hring : SameRing s.log t.log) (hnoted : t.worker.noted = s.worker.noted) :
    Holding conf snap first second pos t where
  conveys := hconveys
  noted := by rw [hnoted, h.noted]
  start := by rw [hring.start, h.start]
  upper := by rw [hring.buff, h.upper]
  lower := by rw [hring.buff, h.lower]

theorem Notified.noted {s' : Tlog} (h : Notified s s') : s'.worker.noted = s.worker.noted := by
  rcases h.worker with heq | ⟨hasleep, hawake⟩
  · rw [heq]
  · rw [hasleep, hawake]
    rfl

/-- A step that is not the release keeps the stretches of the snapshot. -/
theorem Holding.step {snap : Snapshot} {first second : List UInt8} {pos : Nat} (s : Tlog)
    (a : LogAct) (t : Tlog) (h : Holding conf snap first second pos s)
    (hguard : NeverFilled conf s a ∧ ¬ (a = .work ∧ s.worker = .release snap))
    (hstep : logStep conf s a = some t) : Holding conf snap first second pos t := by
  obtain ⟨hnever, hheld⟩ := hguard
  obtain ⟨c, hc⟩ := h.conveys
  have hconveys : ∃ c, Conveys conf t c := by
    obtain ⟨bs, d, -, hd⟩ := hc.step s a t c hnever hstep
    exact ⟨d, hd⟩
  have hnoted := h.noted
  have haway : ∀ pc, s.worker = pc → pc.away = true → False := fun pc hpc hpc' => by
    rw [hpc, noted_eq_none.mpr hpc'] at hnoted
    cases hnoted
  cases logStep_cases hstep with
  | muted hpc => exact h
  | block hpc hfull hblock hnotify =>
    have hnotified := notified_of_ite hnotify
    have hlog := hnotified.log
    exact h.ring hconveys (by rw [move_log, hlog]; exact .refl _) hnotified.noted
  | @dropLate i maxlen line s' hpc hfull hblock hnotify =>
    have hnotified := notified_of_ite hnotify
    have hring := drop_sameRing s' i
    rw [hnotified.log] at hring
    exact h.ring hconveys hring hnotified.noted
  | @put i maxlen line s' _ hpc hroom hput hnotify =>
    obtain ⟨hroomy, hfine, -, -, us₁, us₂, ls₁, ls₂, hstands, -, hnoted', -⟩ := hc
    obtain ⟨hline, hmaxlen⟩ := fine_get hfine hpc
    obtain ⟨hupper, hlower⟩ :=
      (hnoted'.taken hnoted).untouched hroomy hstands hline hmaxlen hroom
    have hstart := put_start conf s.log line
    rw [h.start, h.upper] at hupper
    rw [h.lower] at hlower
    have hnotified := notified_of_ite hnotify
    have hlog : t.log = s.log.put conf line := by rw [hnotified.log, hput]
    refine ⟨hconveys, ?_, ?_, ?_, ?_⟩
    · rw [hnotified.noted, hput]
      exact hnoted
    · rw [hlog, hstart, h.start]
    · rw [hlog]
      exact hupper
    · rw [hlog]
      exact hlower
  | top hpc => exact (haway _ hpc rfl).elim
  | stay hpc hdata => exact (haway _ hpc rfl).elim
  | end_ hpc hempty => exact (haway _ hpc rfl).elim
  | listEnd hpc => exact (haway _ hpc rfl).elim
  | sleep hpc hempty hrun => exact (haway _ hpc rfl).elim
  | start hpc hgo => exact (haway _ hpc rfl).elim
  | startAwake hpc hnotify => exact (haway _ hpc rfl).elim
  | pause hpc hnotify => exact (haway _ hpc rfl).elim
  | resume hpc => exact (haway _ hpc rfl).elim
  | wakeup hpc => exact (haway _ hpc rfl).elim
  | rouseWork hpc => exact (haway _ hpc rfl).elim
  | upper hpc => exact h.ring hconveys (.refl _) (by rw [hpc]; rfl)
  | lower hpc => exact h.ring hconveys (.refl _) (by rw [hpc]; rfl)
  | note hpc => exact h.ring hconveys (.refl _) (by rw [hpc]; rfl)
  | @release snap' hpc =>
    rw [hpc] at hnoted
    cases hnoted
    exact (hheld ⟨rfl, hpc⟩).elim
  | join hpc => exact h.ring hconveys (.refl _) (notify_notified s).noted
  | _ => exact h.ring hconveys ⟨rfl, rfl, rfl, rfl⟩ rfl

/-- **What is noted is what is handed out.** From the moment the log's thread has noted its stretches
until it gives them back, no thread writes into them, and every write stays inside the block. -/
theorem noted_untouched (conf : LogConf) {n : Nat} {block : conf.Block} {acts acts' : List LogAct}
    {s t : Tlog} {snap : Snapshot}
    (hrun : Run (logStep conf) (NeverFilled conf) (Tlog.init n block) acts s)
    (hnoted : s.worker.noted = some snap)
    (hrun' : Run (logStep conf)
      (fun s a => NeverFilled conf s a ∧ ¬ (a = .work ∧ s.worker = .release snap)) s acts' t) :
    t.worker.noted = some snap
      ∧ t.log.buff.length = conf.buffsize
      ∧ stretch t.log.buff t.log.start (t.log.start + snap.logLen)
        = stretch s.log.buff s.log.start (s.log.start + snap.logLen)
      ∧ stretch t.log.buff 0 snap.logExtlen = stretch s.log.buff 0 snap.logExtlen := by
  obtain ⟨c, hconveys, -⟩ := log_whole hrun
  have hheld := hrun'.invariant (I := Holding conf snap _ _ _)
    (fun s a t hI hguard hstep => hI.step s a t hguard hstep) ⟨⟨c, hconveys⟩, hnoted, rfl, rfl, rfl⟩
  obtain ⟨d, hd⟩ := hheld.conveys
  refine ⟨hheld.noted, hd.roomy.size, ?_, hheld.lower⟩
  rw [hheld.start]
  exact hheld.upper

/-- While the first line is taken out, a second one is put behind it. -/
theorem noted_untouched_short : ∃ s t : Tlog,
    Run (logStep (wideLog true)) (NeverFilled (wideLog true)) (Tlog.init 1 (blankBlock (wideLog true)))
      [.print 0 shortOut, .printer 0, .printer 0, .work, .work] s
    ∧ s.accepted.length < t.accepted.length
    ∧ stretch t.log.buff 0 1 = stretch s.log.buff 0 1 := by
  generalize blankBlock (wideLog true) = block
  have hrun : Run (logStep (wideLog true)) (NeverFilled (wideLog true)) (Tlog.init 1 block) _
      (.alone ⟨patch 0 block.val 0 [97], 0, 1, 0, 0, 0⟩ (.upper ⟨1, 0, 1, 0, 0⟩) .idle [(0, [97])]) :=
    run_short (by decide) (shortOut_fits _) (fun _ hflat => neverFilled_of_flat hflat 0)
      (.cons (t := .alone _ (.next false) .idle _) rfl (neverFilled_work _ _)
        (.cons (t := .alone _ (.upper ⟨1, 0, 1, 0, 0⟩) .idle _) rfl (neverFilled_work _ _) (.nil _)))
  have hrun' : Run (logStep (wideLog true)) (fun s a => NeverFilled (wideLog true) s a
        ∧ ¬ (a = .work ∧ s.worker = .release ⟨1, 0, 1, 0, 0⟩))
      (.alone ⟨patch 0 block.val 0 [97], 0, 1, 0, 0, 0⟩ (.upper ⟨1, 0, 1, 0, 0⟩) .idle [(0, [97])])
      [.print 0 shortOut, .printer 0, .printer 0] _ :=
    run_short (by decide) (fun s => ⟨shortOut_fits _ s, fun h => by cases h.1⟩)
      (fun _ hflat => ⟨neverFilled_of_flat hflat 0, fun h => by cases h.1⟩) (.nil _)
  obtain ⟨-, -, hupper, -⟩ := noted_untouched (wideLog true) hrun rfl hrun'
  refine ⟨_, _, hrun, ?_, hupper⟩
  exact Nat.lt_succ_self 1

/-! ## The end of the log's thread -/

/-- Behind its end, the log's thread hands out nothing. -/
theorem ended_step (s : Tlog) (a : LogAct) (t : Tlog) (h : s.worker = .ended)
    (hstep : logStep conf s a = some t) : t.worker = .ended ∧ t.output = s.output := by
  have hsignal : s.signal.worker = .ended := by
    rw [signal_worker, h]
    rfl
  cases logStep_cases hstep with
  | block hpc hfull hblock hnotify =>
    subst hnotify
    split
    · exact ⟨hsignal, rfl⟩
    · exact ⟨h, rfl⟩
  | dropLate hpc hfull hblock hnotify =>
    subst hnotify
    split
    · exact ⟨hsignal, rfl⟩
    · exact ⟨h, rfl⟩
  | put hpc hroom hput hnotify =>
    subst hput hnotify
    split
    · exact ⟨hsignal, rfl⟩
    · exact ⟨h, rfl⟩
  | join hpc => exact ⟨hsignal, rfl⟩
  | muted hpc => exact ⟨h, rfl⟩
  | call hpc => exact ⟨h, rfl⟩
  | dropEarly hpc hblock hfull => exact ⟨h, rfl⟩
  | giveUp hpc hline => exact ⟨h, rfl⟩
  | format hpc hline => exact ⟨h, rfl⟩
  | wait hpc => exact ⟨h, rfl⟩
  | retake hpc => exact ⟨h, rfl⟩
  | rouse hpc => exact ⟨h, rfl⟩
  | stop hpc => exact ⟨h, rfl⟩
  | _ hpc => exact absurd (h.symm.trans hpc) nofun

/-- The log's thread ends over an empty block. -/
theorem delivered_of_ended {c : Channel (List UInt8)} (hconveys : Conveys conf s c)
    (hwhole : s.accepted.map Prod.snd = c.delivered ++ c.queue)
    (hstep : logStep conf s .work = some t) (hended : t.worker = .ended) :
    t.output = s.output ∧ textBytes t.output = (t.accepted.map Prod.snd).flatten := by
  cases logStep_cases hstep with
  | end_ hpc hempty =>
    have hnil := hconveys.drained (by rw [hpc]; rfl) hempty
    refine ⟨rfl, ?_⟩
    show textBytes s.output = (s.accepted.map Prod.snd).flatten
    rw [hwhole, List.flatten_append, hnil, List.append_nil, hconveys.delivered]
  | top hpc =>
    have hended' : (if s.run then WorkPc.next _ else .lastCheck _) = .ended := hended
    split at hended' <;> cases hended'
  | start hpc hgo =>
    unfold Tlog.begin at hended
    split at hended <;> cases hended
  | startAwake hpc hnotify =>
    unfold Tlog.begin at hended
    split at hended <;> cases hended
  | _ hpc => cases hended

/-- **The end of the log's thread**, which `tlog_exit` waits for: everything accepted until then has
been handed out, and nothing is handed out afterwards. -/
theorem ended_delivers (conf : LogConf) {n : Nat} {block : conf.Block} {acts : List LogAct}
    {s t : Tlog} (hrun : Run (logStep conf) (NeverFilled conf) (Tlog.init n block) acts s)
    (hstep : logStep conf s .work = some t) (hended : t.worker = .ended) :
    textBytes t.output = (t.accepted.map Prod.snd).flatten
      ∧ ∀ acts' u, exec (logStep conf) t acts' = some u → u.output = t.output := by
  constructor
  · obtain ⟨c, hconveys, hwhole⟩ := log_whole hrun
    exact (delivered_of_ended hconveys hwhole hstep hended).2
  · intro acts' u hexec
    have hinv : u.worker = .ended ∧ u.output = t.output :=
      (exec_iff_run.mp hexec).invariant (I := fun u => u.worker = .ended ∧ u.output = t.output)
        (fun s a v hI _ hstep => by
          obtain ⟨hworker, houtput⟩ := ended_step s a v hI.1 hstep
          exact ⟨hworker, houtput.trans hI.2⟩) ⟨hended, rfl⟩
    exact hinv.2

/-- One line, and the end. -/
theorem ended_delivers_short : ∃ s t : Tlog,
    Run (logStep (wideLog true)) (NeverFilled (wideLog true)) (Tlog.init 1 (blankBlock (wideLog true)))
      (.print 0 shortOut :: .printer 0 :: .printer 0 :: .exit :: List.replicate 9 .work) s
    ∧ logStep (wideLog true) s .work = some t ∧ t.worker = .ended
    ∧ textBytes t.output = [97] := by
  generalize blankBlock (wideLog true) = block
  have hwork := neverFilled_work (wideLog true)
  have hexit : NeverFilled (wideLog true)
      (.alone ⟨patch 0 block.val 0 [97], 0, 1, 0, 0, 0⟩ (.top false) .idle [(0, [97])]) .exit :=
    ⟨trivial, not_fills nofun⟩
  let buff : List UInt8 := patch 0 block.val 0 [97]
  let out : List LogOut := [.text (stretch buff 0 1)]
  have hrun : Run (logStep (wideLog true)) (NeverFilled (wideLog true)) (Tlog.init 1 block) _
      (.ending buff [97] 1 (.lastCheck true) out) :=
    run_short (by decide) (shortOut_fits _) (fun _ hflat => neverFilled_of_flat hflat 0)
      (.cons (t := .ending buff [97] 0 (.top false) []) rfl hexit
      (.cons (t := .ending buff [97] 0 (.lastCheck false) []) rfl (hwork _)
      (.cons (t := .ending buff [97] 0 (.next false) []) rfl (hwork _)
      (.cons (t := .ending buff [97] 0 (.upper ⟨1, 0, 1, 0, 0⟩) []) rfl (hwork _)
      (.cons (t := .ending buff [97] 0 (.lower ⟨1, 0, 1, 0, 0⟩) out) rfl (hwork _)
      (.cons (t := .ending buff [97] 0 (.note ⟨1, 0, 1, 0, 0⟩) out) rfl (hwork _)
      (.cons (t := .ending buff [97] 0 (.release ⟨1, 0, 1, 0, 0⟩) out) rfl (hwork _)
      (.cons (t := .ending buff [97] 1 .wakeup out) rfl (hwork _)
      (.cons (t := .ending buff [97] 1 (.top true) out) rfl (hwork _)
      (.cons rfl (hwork _) (.nil _)))))))))))
  exact ⟨_, .ending buff [97] 1 .ended out, hrun, rfl, rfl, (ended_delivers (wideLog true) hrun rfl rfl).1⟩

/-! ## The line that fills the block -/

/-- The log's thread after a snapshot whose second stretch is empty. -/
theorem work_round {snap : Snapshot} (hpc : s.worker = .upper snap) (hextlen : snap.logExtlen = 0) :
    ∃ t, exec (logStep conf) s [.work, .work, .work, .work] = some t
      ∧ t.worker = .wakeup ∧ t.log = s.log.release snap ∧ t.accepted = s.accepted
      ∧ textBytes t.output = textBytes s.output ++ textBytes (conf.handOut
        (stretch s.log.buff s.log.start (s.log.start + snap.logLen))) := by
  refine ⟨{ s with
    worker := .wakeup
    log := s.log.release snap
    output := if snap.logDropped > 0 then
        s.output ++ conf.handOut (stretch s.log.buff s.log.start (s.log.start + snap.logLen))
          ++ [.dropNote (conf.noteNumber snap.logDropped)]
      else s.output ++ conf.handOut (stretch s.log.buff s.log.start (s.log.start + snap.logLen)) },
    ?_, rfl, rfl, rfl, ?_⟩
  · simp only [exec, logStep, workStep, hpc, Option.bind_some, hextlen, gt_iff_lt, Nat.lt_irrefl,
      if_false]
  · split
    · rw [textBytes_note, textBytes_append]
    · rw [textBytes_append]

/-- **The line that fills the block.** When a line ends exactly where the unread lines begin, while
the log's thread is about to look at the block, it hands out the lines behind `start`, and takes the
block for empty: everything in front of `start`, that line included, is lost. -/
theorem filled_lost (conf : LogConf) (hplain : conf.segmentLog = false) {n : Nat}
    {block : conf.Block} {acts : List LogAct} {s : Tlog}
    (hrun : Run (logStep conf) (NeverFilled conf) (Tlog.init n block) acts s) {i : Nat}
    (hfills : Fills conf s (.printer i)) (hpc : s.worker = .next false) :
    ∃ t line lost, exec (logStep conf) s [.printer i, .work, .work, .work, .work, .work] = some t
      ∧ t.accepted = s.accepted ++ [(i, line)]
      ∧ t.worker = .wakeup ∧ t.log.hasData = false
      ∧ (t.accepted.map Prod.snd).flatten = textBytes t.output ++ lost
      ∧ lost.length = s.log.start ∧ conf.maxLineSize ≤ lost.length := by
  obtain ⟨i', line, maxlen, hi', hready, hroom, hext, hend⟩ := hfills
  cases hi'
  obtain ⟨c, hconveys, hwhole⟩ := log_whole hrun
  have hdelivered := hconveys.delivered
  obtain ⟨hroomy, hfine, -, -, us₁, us₂, ls₁, ls₂, hstands, hfit, hnoted, hqueue⟩ := hconveys
  rw [hpc] at hnoted hqueue
  obtain ⟨rfl, rfl⟩ := hnoted
  obtain ⟨hline, hmaxlen⟩ := fine_get hfine hready
  obtain ⟨hends, -⟩ := hstands.room hroomy hline hmaxlen hroom
  obtain ⟨hsize, hstart_le, hend_le⟩ := hroomy
  have hmin := conf.buffsize_min
  have hmax := conf.line_max
  cases hstands with
  | flat hext' _ _ => exact absurd hext' hext
  | wrapped _ hle hfits hlower hus hls =>
  rw [List.nil_append] at hus hls
  -- the line goes in front of `start`
  have hput : s.log.put conf line
      = { s.log with
          buff := patch 0 s.log.buff s.log.end_ (conf.entry line)
          end_ := s.log.end_ + (conf.entry line).length } := by
    simp only [TlogLog.put, if_neg (show ¬ s.log.end_ + (conf.entry line).length
      > conf.buffsize - conf.maxLineSize by omega)]
  obtain ⟨s₁, hs₁, hlog₁, hworker₁, haccepted₁, houtput₁⟩ : ∃ s₁,
      logStep conf s (.printer i) = some s₁ ∧ s₁.log = s.log.put conf line
        ∧ s₁.worker = .next false ∧ s₁.accepted = s.accepted ++ [(i, line)]
        ∧ s₁.output = s.output := by
    have hawake : s.worker ≠ .asleep := by
      rw [hpc]
      intro hbad
      cases hbad
    refine ⟨lockStep conf s i line maxlen, by simp only [logStep, hready, printerStep], ?_⟩
    simp only [lockStep, if_neg (Nat.not_lt_of_le hroom)]
    split
    · refine ⟨rfl, ?_, rfl, rfl⟩
      rw [notify_worker, signal_worker]
      exact (if_neg hawake).trans hpc
    · exact ⟨rfl, hpc, rfl, rfl⟩
  -- what the log's thread notes then
  have hend₁ : s₁.log.end_ = s₁.log.start := by rw [hlog₁, hput, ← hend]
  have hext₁ : s₁.log.extEnd = s.log.extEnd := by rw [hlog₁, hput]
  have hdata : s₁.log.hasData = true := by
    rw [TlogLog.hasData, hext₁]
    simp [hext]
  have hs₂ : logStep conf s₁ .work
      = some { s₁ with worker := .upper s₁.log.snapshot, log := { s₁.log with dropped := 0 } } := by
    simp only [logStep, workStep, hworker₁, hdata, Bool.true_eq_false, false_and, if_false,
      Tlog.begin, if_true]
  have hextlen : s₁.log.snapshot.logExtlen = 0 :=
    if_neg (by rw [hend₁]; exact Nat.lt_irrefl _)
  have hlen : s₁.log.snapshot.logLen = s.log.extEnd - s.log.start := by
    simp only [TlogLog.snapshot, hend₁, gt_iff_lt, Nat.lt_irrefl, if_false, hext₁,
      if_pos (Nat.pos_of_ne_zero hext)]
    rw [hlog₁, put_start]
  obtain ⟨t, ht, hworker, hlog, haccepted, houtput⟩ := @work_round conf
    { s₁ with worker := .upper s₁.log.snapshot, log := { s₁.log with dropped := 0 } } _ rfl hextlen
  have hlost : (ls₂.flatten ++ line).length = s.log.start := by
    have hlower : ls₂.flatten.length = s.log.end_ := by
      rw [← encode_plain hplain, ← hls, stretch_length (by omega), Nat.sub_zero]
    rw [entry_plain hplain] at hend
    rw [List.length_append, hlower, hend]
  refine ⟨t, line, ls₂.flatten ++ line, ?_, haccepted.trans haccepted₁, hworker, ?_, ?_, hlost, ?_⟩
  · show ((logStep conf s (.printer i)).bind fun t => (logStep conf t .work).bind fun t =>
      exec (logStep conf) t [.work, .work, .work, .work]) = some t
    rw [hs₁, Option.bind_some, hs₂, Option.bind_some, ht]
  · rw [hlog]
    simp [TlogLog.hasData, TlogLog.release, TlogLog.snapshot, hext₁, Nat.pos_of_ne_zero hext]
  · have hupper : stretch s₁.log.buff s₁.log.start (s₁.log.start + s₁.log.snapshot.logLen)
        = conf.encode us₂ := by
      have hstart₁ : s₁.log.start = s.log.start := by rw [hlog₁, put_start]
      rw [hlen, hstart₁, Nat.add_sub_cancel' hle, hlog₁, put_buff,
        stretch_patch_above 0 (Nat.le_of_eq hend) (by omega), hus]
    have hus₂ : ∀ line ∈ us₂, conf.Fits line := fun line hline =>
      hfit line (List.mem_append_left _ (List.mem_append_right _ hline))
    have htext : textBytes t.output = c.delivered.flatten ++ us₂.flatten := by
      rw [houtput, hupper, textBytes_handOut hus₂]
      exact congrArg (· ++ us₂.flatten) ((congrArg textBytes houtput₁).trans hdelivered)
    rw [haccepted, haccepted₁, List.map_append, hwhole, hqueue, htext]
    simp only [queued, List.map_cons, List.map_nil, List.flatten_append, List.flatten_cons,
      List.flatten_nil, List.append_nil, List.append_assoc]
  · rw [hlost]
    unfold TlogLog.maxlen at hroom
    split at hroom
    · omega
    · split at hroom <;> omega

end Runs

/-- A line of half the block, taken out; one byte behind it; and again a line of half the block. -/
theorem run_fills (block : (wideLog true).Block) : ∃ s,
    Run (logStep (wideLog true)) (NeverFilled (wideLog true)) (Tlog.init 1 block)
      (.print 0 wideOut :: .printer 0 :: .printer 0 :: (List.replicate 10 .work
        ++ [.print 0 shortOut, .printer 0, .printer 0, .print 0 wideOut, .printer 0])) s
    ∧ Fills (wideLog true) s (.printer 0) ∧ s.worker = .next false
    ∧ s.log.start = maxLineSizeSet := by
  have hwork := neverFilled_work (wideLog true)
  -- what the block holds does not matter
  obtain ⟨s, hrest, hs⟩ : ∃ s, Run (logStep (wideLog true)) (NeverFilled (wideLog true))
      (.alone ⟨patch 0 block.val 0 wideLine, 0, 8192, 0, 0, 0⟩ (.top false) .idle [(0, wideLine)])
      (List.replicate 10 .work
        ++ [.print 0 shortOut, .printer 0, .printer 0, .print 0 wideOut, .printer 0]) s
      ∧ Fills (wideLog true) s (.printer 0) ∧ s.worker = .next false
      ∧ s.log.start = maxLineSizeSet := by
    generalize patch 0 block.val 0 wideLine = buff
    let behind (start : Nat) (worker : WorkPc) (output : List LogOut) : Tlog :=
      ⟨⟨buff, start, 8192, 0, 0, 0⟩, true, false, false, worker, [.idle], .before, [(0, wideLine)],
        output, 0⟩
    let snap : Snapshot := ⟨8192, 0, 8192, 0, 0⟩
    let out := [] ++ (wideLog true).handOut (stretch buff 0 (0 + 8192))
    let wrapped (printer : PrintPc) : Tlog :=
      ⟨⟨patch 0 buff 8192 [97], 8192, 0, 8193, 0, 0⟩, true, false, false, .next false, [printer],
        .before, [(0, wideLine), (0, [97])], out, 0⟩
    have hwrap : TlogLog.put (wideLog true) ⟨buff, 8192, 8192, 0, 0, 0⟩ [97]
        = ⟨patch 0 buff 8192 [97], 8192, 0, 8193, 0, 0⟩ := put_of_wrap rfl rfl (by decide)
    have henter : logStep (wideLog true) (wrapped (.entered wideOut)) (.printer 0)
        = some (wrapped (.ready wideLine 0)) := by
      show some (enterStep (wideLog true) _ 0 wideOut) = _
      rw [enterStep, if_neg fun h => Bool.noConfusion h.1,
        show tlogLine (wideLog true).maxLineSize wideOut = some wideLine from wideOut_line]
      rfl
    have hentered : NeverFilled (wideLog true) (wrapped (.entered wideOut)) (.printer 0) :=
      ⟨trivial, fun hfills => by
        obtain ⟨i, line, maxlen, hi, hready, -⟩ := hfills
        cases hi
        cases hready⟩
    refine ⟨wrapped (.ready wideLine 0),
      .cons (t := behind 0 (.next false) []) rfl (hwork _)
      (.cons (t := behind 0 (.upper snap) []) rfl (hwork _)
      (.cons (t := behind 0 (.lower snap) out) rfl (hwork _)
      (.cons (t := behind 0 (.note snap) out) rfl (hwork _)
      (.cons (t := behind 0 (.release snap) out) rfl (hwork _)
      (.cons (t := behind 8192 .wakeup out) rfl (hwork _)
      (.cons (t := behind 8192 (.top true) out) rfl (hwork _)
      (.cons (t := behind 8192 (.next true) out) rfl (hwork _)
      (.cons (t := behind 8192 (.top false) out) rfl (hwork _)
      (.cons (t := behind 8192 (.next false) out) rfl (hwork _)
      (run_of_room rfl rfl Nat.one_ne_zero shortOut_line
        (Nat.le_of_ble_eq_true rfl) hwrap (shortOut_fits _ _) (fun _ => neverFilled_of_flat rfl 0)
      (.cons (t := wrapped (.entered wideOut)) rfl (wideOut_fits _ _)
      (.cons henter hentered (.nil _))))))))))))),
      ⟨0, wideLine, 0, rfl, rfl, Nat.le_of_ble_eq_true rfl, nofun, ?_⟩, rfl, rfl⟩
    have hentry : (wideLog true).entry wideLine = wideLine := entry_plain rfl wideLine
    rw [hentry, wideLine_length]
    exact Nat.zero_add _
  exact ⟨s, run_wide (wideOut_fits _) (fun _ hflat => neverFilled_of_flat hflat 0) hrest, hs⟩

theorem filled_lost_wide : ∃ s t lost,
    exec (logStep (wideLog true)) s [.printer 0, .work, .work, .work, .work, .work] = some t
    ∧ t.log.hasData = false
    ∧ (t.accepted.map Prod.snd).flatten = textBytes t.output ++ lost
    ∧ lost.length = maxLineSizeSet := by
  obtain ⟨s, hrun, hfills, hpc, hstart⟩ := run_fills (blankBlock _)
  obtain ⟨t, line, lost, hexec, -, -, hempty, hlost, hlength, -⟩ :=
    filled_lost (wideLog true) rfl hrun hfills hpc
  exact ⟨s, t, lost, hexec, hempty, hlost, hlength.trans hstart⟩

end Estuary
