import Estuary.Printers

/-!
# Estuary — how far the log is behind

* **`Tlog.toCome`**, **`toCome_grows`** — what the log's thread has noted and not handed out yet;
  with what it has handed out, it only ever grows;
* **`toCome_begin`** — a snapshot notes everything there is;
* **`log_lag`** — so what was accepted is handed out within 13 steps of the log's thread, whatever the
  other threads do meanwhile, and the log's thread has a step to take until then.
-/

namespace Estuary

open Engine

/-- What the log's thread hands out before it gives back its snapshot. -/
def Tlog.toCome (conf : LogConf) (s : Tlog) : List LogOut :=
  let lower (snap : Snapshot) : List LogOut :=
    if snap.logExtlen > 0 then conf.handOut (stretch s.log.buff 0 snap.logExtlen) else []
  match s.worker with
  | .upper snap =>
    conf.handOut (stretch s.log.buff s.log.start (s.log.start + snap.logLen)) ++ lower snap
  | .lower snap => lower snap
  | _ => []

/-- The steps of the log's thread until it has handed that out. -/
def WorkPc.left : WorkPc → Nat
  | .upper _ => 2
  | .lower _ => 1
  | _ => 0

section Lag

variable {conf : LogConf} {s t : Tlog} {c : Channel (List UInt8)}

theorem toCome_of_left (h : s.worker.left = 0) : s.toCome conf = [] := by
  unfold Tlog.toCome
  cases hpc : s.worker with
  | upper snap =>
    rw [hpc] at h
    cases h
  | lower snap =>
    rw [hpc] at h
    cases h
  | _ => rfl

theorem left_of_away {pc : WorkPc} (h : pc.away = true) : pc.left = 0 := by
  cases pc <;> first | rfl | cases h

theorem waking_of_left {pc : WorkPc} (h : pc.left ≠ 0) : pc.waking = true := by
  cases pc <;> first | rfl | exact absurd rfl h

theorem textBytes_grows {output output' : List LogOut} (h : output <+: output') :
    textBytes output <+: textBytes output' := by
  obtain ⟨rest, rfl⟩ := h
  rw [textBytes_append]
  exact List.prefix_append _ _

/-- A step of another thread leaves alone what is to come. -/
theorem toCome_of_ne_work {a : LogAct} (hconveys : Conveys conf s c) (ha : a ≠ .work)
    (hguard : NeverFilled conf s a) (hleft : s.worker.left ≠ 0)
    (hstep : logStep conf s a = some t) : t.toCome conf = s.toCome conf := by
  have hheld : ∀ snap, s.worker.noted = some snap → s.worker.left ≠ 0 →
      Holding conf snap (stretch s.log.buff s.log.start (s.log.start + snap.logLen))
        (stretch s.log.buff 0 snap.logExtlen) s.log.start t := fun snap hnoted _ =>
    Holding.step s a t ⟨⟨c, hconveys⟩, hnoted, rfl, rfl, rfl⟩
      ⟨hguard, fun hrelease => ha hrelease.1⟩ hstep
  have hworker : t.worker = s.worker := by
    refine worker_of_ne_work ha ?_ hstep
    cases hpc : s.worker with
    | upper snap => exact Nat.succ_pos _
    | lower snap => exact Nat.succ_pos _
    | _ => exact absurd (by rw [hpc]; rfl) hleft
  unfold Tlog.toCome
  cases hpc : s.worker with
  | upper snap =>
    have h := hheld snap (by rw [hpc]; rfl) hleft
    rw [hworker, hpc]
    show conf.handOut (stretch t.log.buff t.log.start (t.log.start + snap.logLen)) ++ ite _ _ _ = _
    rw [h.start, h.upper, h.lower]
  | lower snap =>
    have h := hheld snap (by rw [hpc]; rfl) hleft
    rw [hworker, hpc]
    show ite _ (conf.handOut (stretch t.log.buff 0 snap.logExtlen)) _ = _
    rw [h.lower]
  | _ => exact absurd (by rw [hpc]; rfl) hleft

/-- A step of the log's thread with something to come hands out the next of it. -/
theorem toCome_work (hleft : s.worker.left ≠ 0) (hstep : logStep conf s .work = some t) :
    t.output ++ t.toCome conf = s.output ++ s.toCome conf ∧ t.worker.left + 1 = s.worker.left := by
  have hwork : workStep conf s s.worker = some t := hstep
  unfold Tlog.toCome
  cases hpc : s.worker with
  | upper snap =>
    rw [hpc] at hwork
    cases hwork
    exact ⟨List.append_assoc _ _ _, rfl⟩
  | lower snap =>
    rw [hpc] at hwork
    cases hwork
    refine ⟨?_, rfl⟩
    show ite _ _ _ ++ [] = s.output ++ ite _ _ _
    rw [List.append_nil]
    split
    · rfl
    · exact (List.append_nil _).symm
  | _ => exact absurd (by rw [hpc]; rfl) hleft

/-- The log's thread takes nothing back, and puts nothing. -/
theorem work_output (hstep : logStep conf s .work = some t) :
    s.output <+: t.output ∧ t.accepted = s.accepted := by
  cases logStep_cases hstep with
  | start hpc hgo =>
    rw [begin_output, begin_accepted]
    exact ⟨List.prefix_refl _, rfl⟩
  | startAwake hpc hnotify =>
    rw [begin_output, begin_accepted]
    exact ⟨List.prefix_refl _, rfl⟩
  | upper hpc => exact ⟨List.prefix_append _ _, rfl⟩
  | lower hpc =>
    refine ⟨?_, rfl⟩
    show s.output <+: ite _ _ _
    split
    · exact List.prefix_append _ _
    · exact List.prefix_refl _
  | note hpc =>
    refine ⟨?_, rfl⟩
    show s.output <+: ite _ _ _
    split
    · exact List.prefix_append _ _
    · exact List.prefix_refl _
  | _ => exact ⟨List.prefix_refl _, rfl⟩

theorem work_output_away (haway : s.worker.away = true) (hstep : logStep conf s .work = some t) :
    t.output = s.output := by
  cases logStep_cases hstep with
  | start hpc hgo => exact begin_output s
  | startAwake hpc hnotify => exact begin_output _
  | upper hpc =>
    rw [hpc] at haway
    cases haway
  | lower hpc =>
    rw [hpc] at haway
    cases haway
  | note hpc =>
    rw [hpc] at haway
    cases haway
  | _ => rfl

theorem output_grows {a : LogAct} (hstep : logStep conf s a = some t) :
    s.output <+: t.output ∧ s.accepted <+: t.accepted := by
  by_cases ha : a = .work
  · subst ha
    obtain ⟨houtput, haccepted⟩ := work_output hstep
    exact ⟨houtput, haccepted ▸ List.prefix_refl _⟩
  · obtain ⟨-, houtput, haccepted⟩ := step_of_ne_work ha hstep
    exact ⟨houtput ▸ List.prefix_refl _, haccepted⟩

/-- What has been handed out and what is to come only ever grow. -/
theorem toCome_grows {a : LogAct} (hconveys : Conveys conf s c) (hguard : NeverFilled conf s a)
    (hstep : logStep conf s a = some t) :
    s.output ++ s.toCome conf <+: t.output ++ t.toCome conf := by
  by_cases hleft : s.worker.left = 0
  · rw [toCome_of_left hleft, List.append_nil]
    exact (output_grows hstep).1.trans (List.prefix_append _ _)
  by_cases ha : a = .work
  · subst ha
    exact (toCome_work hleft hstep).1 ▸ List.prefix_refl _
  · have hsame : t.output ++ t.toCome conf = s.output ++ s.toCome conf := by
      rw [toCome_of_ne_work hconveys ha hguard hleft hstep, (step_of_ne_work ha hstep).2.1]
    exact hsame ▸ List.prefix_refl _

/-- **A snapshot notes everything.** What was accepted is what has been handed out and what is to
come. -/
theorem toCome_begin (hconveys : Conveys conf s c) (hwhole : c.Whole) (haway : s.worker.away = true)
    (hring : SameRing s.log t.log) (hworker : t.worker = .upper s.log.snapshot)
    (houtput : t.output = s.output) :
    textBytes (t.output ++ t.toCome conf) = (s.accepted.map Prod.snd).flatten := by
  obtain ⟨hroomy, -, haccepted, hdelivered, us₁, us₂, ls₁, ls₂, hstands, hfit, hnoted, hqueue⟩ :=
    hconveys
  obtain ⟨rfl, rfl⟩ := (noted_of_away haway).mp hnoted
  rw [queued_of_away haway] at hqueue
  simp only [List.nil_append] at hstands hfit
  have htaken := hstands.snapshot hroomy
  rw [← List.append_nil us₂] at hstands
  have hupper := htaken.upper hroomy hstands
  rw [List.append_nil, ← List.append_nil ls₂] at hstands
  have hlower := htaken.lower hroomy hstands
  have hus : ∀ line ∈ us₂, conf.Fits line :=
    fun line hline => hfit line (List.mem_append_left _ hline)
  have hls : ∀ line ∈ ls₂, conf.Fits line :=
    fun line hline => hfit line (List.mem_append_right _ hline)
  have htoCome : textBytes (t.toCome conf) = us₂.flatten ++ ls₂.flatten := by
    unfold Tlog.toCome
    rw [hworker, hring.buff, hring.start]
    show textBytes (conf.handOut _ ++ ite _ _ _) = _
    rw [textBytes_append, hupper, textBytes_handOut hus]
    refine congrArg (us₂.flatten ++ ·) ?_
    split
    · rw [hlower, textBytes_handOut hls]
    · next hnone =>
      have hnil : conf.encode ls₂ = [] := by
        rw [← hlower]
        exact stretch_of_le (Nat.le_of_not_lt hnone)
      exact (flatten_of_encode_nil hls hnil).symm
  have hall : c.accepted = c.delivered ++ c.queue := hwhole
  rw [textBytes_append, houtput, hdelivered, htoCome, ← haccepted, hall, hqueue, List.flatten_append,
    List.flatten_append]

/-- The text has been handed out, or will be within `r` steps of the log's thread: it is to come, or the
log's thread is up, and it will be in the next snapshot. -/
def Within (conf : LogConf) (text : List UInt8) (s : Tlog) (r : Nat) : Prop :=
  (∃ c, Conveys conf s c ∧ c.Whole) ∧ (text <+: textBytes s.output
    ∨ (0 < s.worker.ahead ∧ text <+: (s.accepted.map Prod.snd).flatten
      ∧ (s.worker.ahead + 2 ≤ r
        ∨ (text <+: textBytes (s.output ++ s.toCome conf) ∧ s.worker.left ≤ r))))

theorem Within.step {text : List UInt8} (s : Tlog) (a : LogAct) (t : Tlog) (r : Nat)
    (h : Within conf text s r) (hguard : NeverFilled conf s a)
    (hstep : logStep conf s a = some t) : Within conf text t (if a == .work then r - 1 else r) := by
  obtain ⟨⟨c, hconveys, hwhole⟩, hwithin⟩ := h
  have hconveys' : ∃ d, Conveys conf t d ∧ d.Whole := by
    obtain ⟨bs, d, hd, hconveys'⟩ := hconveys.step s a t c hguard hstep
    exact ⟨d, hconveys', (exec_iff_run.mp hd).invariant
      (fun c b d hI _ hstep => hI.step c b d hstep) hwhole⟩
  refine ⟨hconveys', ?_⟩
  obtain ⟨houtput, haccepted⟩ := output_grows hstep
  by_cases hdone : text <+: textBytes s.output
  · exact Or.inl (hdone.trans (textBytes_grows houtput))
  obtain ⟨hup, htext, hrank⟩ := hwithin.resolve_left hdone
  have htext' : text <+: (t.accepted.map Prod.snd).flatten := by
    obtain ⟨more, hmore⟩ := haccepted
    rw [← hmore, List.map_append, List.flatten_append]
    exact htext.trans (List.prefix_append _ _)
  have hcome := textBytes_grows (toCome_grows hconveys hguard hstep)
  by_cases ha : a = .work
  swap
  · have hworker := worker_of_ne_work ha hup hstep
    rw [if_neg (by simpa using ha), hworker]
    refine Or.inr ⟨hup, htext', ?_⟩
    rcases hrank with hfar | ⟨hcovered, hleft⟩
    · exact Or.inl hfar
    · exact Or.inr ⟨hcovered.trans hcome, hleft⟩
  subst ha
  rw [if_pos (by rfl)]
  rcases hrank with hfar | ⟨hcovered, hleft⟩
  · -- there is something in the block, or noted: the next snapshot comes nearer
    have hdata : s.log.hasData = true ∨ s.worker.waking = true := by
      by_cases hwaking : s.worker.waking = true
      · exact Or.inr hwaking
      left
      by_contra hempty
      have haway : s.worker.away = true := by
        cases hpc : s.worker <;> rw [hpc] at hwaking <;> first | rfl | exact absurd rfl hwaking
      have hnil := hconveys.drained haway (Bool.eq_false_iff.mpr hempty)
      refine hdone ?_
      have hall : c.accepted = c.delivered ++ c.queue := hwhole
      rwa [← hconveys.accepted, hall, List.flatten_append, hnil, List.append_nil,
        ← hconveys.delivered] at htext
    rcases work_nears hstep hdata with ⟨hup', hnearer, -⟩ | ⟨haway, hring, -, hupper⟩
    · exact Or.inr ⟨hup', htext', Or.inl (by omega)⟩
    · have hsame : t.output = s.output := by
        have hleft := left_of_away haway
        exact work_output_away haway hstep
      refine Or.inr ⟨by rw [hupper]; exact Nat.succ_pos 10, htext', Or.inr ⟨?_, ?_⟩⟩
      · rw [toCome_begin hconveys hwhole haway hring hupper hsame]
        exact htext
      · rw [hupper]
        show 2 ≤ r - 1
        omega
  · by_cases hzero : s.worker.left = 0
    · rw [toCome_of_left hzero, List.append_nil] at hcovered
      exact absurd hcovered hdone
    · obtain ⟨-, hless⟩ := toCome_work hzero hstep
      refine Or.inr ⟨?_, htext', Or.inr ⟨hcovered.trans hcome, by omega⟩⟩
      rcases work_nears hstep (Or.inr (waking_of_left hzero)) with ⟨hup', -⟩ | ⟨haway, -⟩
      · exact hup'
      · exact absurd (left_of_away haway) hzero

/-- **How far the log is behind.** What was accepted while the log's thread had not ended is handed out
within 13 steps of that thread, whatever the other threads do meanwhile; until then it has a step to
take. -/
theorem log_lag (conf : LogConf) {n : Nat} {block : conf.Block} {acts acts' : List LogAct}
    {s t : Tlog} (hrun : Run (logStep conf) (NeverFilled conf) (Tlog.init n block) acts s)
    (hended : s.worker ≠ .ended) (hrun' : Run (logStep conf) (NeverFilled conf) s acts' t)
    (hbehind : ¬ (s.accepted.map Prod.snd).flatten <+: textBytes t.output) :
    acts'.count .work < 13 ∧ ∃ u, logStep conf t .work = some u := by
  obtain ⟨bs, c, hc, hconveys⟩ := log_simulates hrun
  have hwhole := channel_whole hc
  have hstart : Within conf (s.accepted.map Prod.snd).flatten s 13 := by
    refine ⟨⟨c, hconveys, hwhole⟩, ?_⟩
    by_cases hasleep : s.worker = .asleep
    · -- the log's thread sleeps over an empty block only
      left
      have hexec : exec (logStep conf) (Tlog.init n block) acts = some s :=
        exec_iff_run.mpr (hrun.strengthen (I := fun _ => True) (fun _ _ _ _ _ _ => trivial)
          (fun _ _ _ _ => trivial) trivial)
      have hempty := ((Vigilant.of_exec hexec).asleep hasleep).1
      have hall : c.accepted = c.delivered ++ c.queue := hwhole
      have hdelivered : (s.accepted.map Prod.snd).flatten = textBytes s.output := by
        rw [← hconveys.accepted, hall, List.flatten_append,
          hconveys.drained (by rw [hasleep]; rfl) hempty, List.append_nil, hconveys.delivered]
      exact hdelivered ▸ List.prefix_refl _
    · have := ahead_le s.worker
      exact Or.inr ⟨up_of_ne hasleep hended, List.prefix_refl _, Or.inl (by omega)⟩
  obtain ⟨-, hwithin⟩ := hrun'.ranked (p := fun a => a == .work) (r := 13)
    (fun s a t r hR hguard hstep => hR.step s a t r hguard hstep) hstart
  obtain ⟨hup, -, hrank⟩ := hwithin.resolve_left hbehind
  refine ⟨Nat.lt_of_not_le fun hcount => ?_, work_possible hup⟩
  have hzero : 13 - acts'.countP (fun a => a == .work) = 0 := Nat.sub_eq_zero_of_le hcount
  rw [hzero] at hrank
  rcases hrank with hfar | ⟨hcovered, hleft⟩
  · omega
  · rw [toCome_of_left (Nat.le_zero.mp hleft), List.append_nil] at hcovered
    exact hbehind hcovered

/-- A short line, and the first step towards it. -/
theorem log_lag_short : ∃ s t : Tlog,
    Run (logStep (wideLog true)) (NeverFilled (wideLog true)) (Tlog.init 1 (blankBlock (wideLog true)))
      [.print 0 shortOut, .printer 0, .printer 0] s
    ∧ exec (logStep (wideLog true)) s [.work] = some t
    ∧ ∃ u, logStep (wideLog true) t .work = some u := by
  generalize blankBlock (wideLog true) = block
  let logged (worker : WorkPc) : Tlog :=
    .alone ⟨patch 0 block.val 0 [97], 0, 1, 0, 0, 0⟩ worker .idle [(0, [97])]
  have hrun : Run (logStep (wideLog true)) (NeverFilled (wideLog true)) (Tlog.init 1 block)
      [.print 0 shortOut, .printer 0, .printer 0] (logged (.top false)) :=
    run_short (by decide) (shortOut_fits _) (fun _ hflat => neverFilled_of_flat hflat 0) (.nil _)
  have hrun' : Run (logStep (wideLog true)) (NeverFilled (wideLog true)) (logged (.top false)) [.work]
      (logged (.next false)) := .cons rfl (neverFilled_work _ _) (.nil _)
  have hbehind : ¬ [97] <+: textBytes (logged (.next false)).output :=
    fun h => absurd (List.prefix_nil.mp h) (List.cons_ne_nil _ _)
  exact ⟨_, _, hrun, rfl, (log_lag (wideLog true) hrun nofun hrun' hbehind).2⟩

end Lag

end Estuary
