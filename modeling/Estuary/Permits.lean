import Estuary.Dispatch
import Estuary.Engine.Run

/-!
# Estuary — permits and graceful termination

A permit of `hsm_req_sem` is meant to stand for a slot of a worker: taken by `ct_request_ctl`,
passed to the worker that `ct_process_item_async` starts, given back at the worker's end. Both
shutdown checks read the semaphore to find out whether a worker still runs.

`ct_request_ctl` has two exits that hand no permit to its caller: it returns at once when
`stop_it` is already set, and it leaves its loop when `stop_it` is set and the semaphore is
full. `ct_run` starts a worker behind them all the same.

* **`Permits.step`** — every step that is not one of these exits keeps the permits conserved:
  what one step can do to the semaphore, the workers and the permit of `ct_run`'s thread;
* **`permits_conserved`** — so they are conserved in every state of every run without them;
* **`graceful_termination`** — and such a run never ends the process over a running worker, if
  `ct_run` also leaves its loop only with a full semaphore.
-/

namespace Estuary

open Engine

/-! ## What a step does to the workers -/

theorem running_append (s : Daemon) (pc : Pc) :
    ({ s with pc := pc, workers := s.workers ++ [⟨false, false⟩] } : Daemon).running
      = s.running + 1 := by
  simp [Daemon.running]

/-- A worker that ends is one running worker less. -/
theorem countP_set_finished {ws : List Worker} {i : Nat} {b : Bool}
    (h : ws[i]? = some ⟨false, b⟩) :
    (ws.set i ⟨true, b⟩).countP (fun w => !w.finished) + 1
      = ws.countP (fun w => !w.finished) := by
  obtain ⟨hi, hget⟩ := List.getElem?_eq_some_iff.mp h
  have hpos : 0 < ws.countP (fun w => !w.finished) :=
    List.countP_pos_iff.mpr ⟨_, List.mem_of_getElem? h, rfl⟩
  rw [List.countP_set hi, hget]
  simp only [Bool.not_false, Bool.not_true, if_true, Bool.false_eq_true, if_false]
  omega

/-- Entering the handler does not end a worker. -/
theorem countP_set_same {ws : List Worker} {i : Nat} {w : Worker} (b : Bool)
    (h : ws[i]? = some w) :
    (ws.set i ⟨w.finished, b⟩).countP (fun w => !w.finished)
      = ws.countP (fun w => !w.finished) := by
  obtain ⟨hi, hget⟩ := List.getElem?_eq_some_iff.mp h
  rw [List.countP_set hi, hget]
  by_cases hfinished : w.finished = true
  · simp [hfinished]
  · have hpos : 0 < ws.countP (fun w => !w.finished) :=
      List.countP_pos_iff.mpr ⟨w, List.mem_of_getElem? h, by simpa using hfinished⟩
    simp only [hfinished, Bool.not_false, if_true]
    omega

/-! ## Conservation -/

/-- Semaphore value, running workers and the permit of `ct_run`'s thread add up to
`max_requests`. -/
def Conserved (maxRequests : Nat) (s : Daemon) : Prop :=
  s.sem + s.running + s.held = maxRequests

/-- The step is not one of the two exits of `ct_request_ctl` that hand no permit over: its
`if (stop_it) return;`, and the end of its shutdown wait. -/
def HandsPermit (maxRequests : Nat) (s : Daemon) : Act → Prop
  | .disp _ =>
    match s.pc with
    | .ctlEntry _ => s.stopIt = false
    | .ctlCheck _ => s.sem < maxRequests
    | _ => True
  | _ => True

/-- `ct_run` is not about to start a worker, or to repost, without a permit. -/
def PermitAtCall (s : Daemon) : Prop :=
  ∀ left, s.pc ≠ .async left false ∧ s.pc ≠ .asyncFailed left false

/-- The invariant of the runs in which every worker gets its permit. -/
structure Permits (maxRequests : Nat) (s : Daemon) : Prop where
  conserved : Conserved maxRequests s
  atCall : PermitAtCall s

theorem Permits.init (maxRequests : Nat) : Permits maxRequests (.init maxRequests) :=
  ⟨by simp [Conserved, Daemon.init, Daemon.running, Daemon.held],
    by simp [PermitAtCall, Daemon.init]⟩

/-- A step that keeps the sum, and does not put `ct_run` in front of a call without a permit,
keeps the invariant. -/
theorem Permits.of_balance {maxRequests : Nat} {s t : Daemon} (hI : Permits maxRequests s)
    (hsum : t.sem + t.running + t.held = s.sem + s.running + s.held) (hcall : PermitAtCall t) :
    Permits maxRequests t :=
  ⟨hsum.trans hI.conserved, hcall⟩

/-- `ct_run`'s thread keeps the permits conserved as long as `ct_request_ctl` hands one over. -/
theorem Permits.dispStep {maxRequests : Nat} {abortOnError : Bool} {s t : Daemon}
    {answer : Answer} (hI : Permits maxRequests s)
    (hG : HandsPermit maxRequests s (.disp answer))
    (hmove : DispMove maxRequests abortOnError s answer t) : Permits maxRequests t := by
  unfold HandsPermit at hG
  cases hmove with
  | recvError hpc | foreign count hpc =>
    refine hI.of_balance ?_ ?_ <;>
      cases abortOnError <;> simp [afterMajor, Daemon.running, Daemon.held, PermitAtCall, hpc]
  | ctlReturn left hpc hstop =>
    -- the guard rules out the early return
    simp only [hpc, hstop] at hG
    cases hG
  | drained left hpc hfull =>
    -- and the end of the shutdown wait
    simp only [hpc] at hG
    exact absurd hG hfull
  | take left hpc hsem =>
    -- the permit moves from the semaphore to `ct_run`'s thread
    refine hI.of_balance ?_ (by simp [PermitAtCall])
    simp only [Daemon.running, Daemon.held, hpc]
    omega
  | repost left hpc =>
    refine hI.of_balance ?_ (by simp [PermitAtCall])
    simp only [Daemon.running, Daemon.held, hpc]
    omega
  | start left permit hpc =>
    -- `ct_run` arrives here with a permit only, which the worker gets
    have hpermit : permit = true := by
      have := (hI.atCall left).1
      cases permit <;> simp_all
    subst hpermit
    refine hI.of_balance ?_ (by simp [PermitAtCall])
    rw [running_append]
    simp only [Daemon.running, Daemon.held, hpc]
    omega
  | startFailed left permit hpc =>
    have hpermit : permit = true := by
      have := (hI.atCall left).1
      cases permit <;> simp_all
    subst hpermit
    exact hI.of_balance (by simp [Daemon.running, Daemon.held, hpc]) (by simp [PermitAtCall])
  | giveBack left permit hpc =>
    have hpermit : permit = true := by
      have := (hI.atCall left).2
      cases permit <;> simp_all
    subst hpermit
    refine hI.of_balance ?_ (by simp [PermitAtCall])
    simp only [Daemon.running, Daemon.held, hpc]
    omega
  | shutdown hpc | listDone hpc | exit hpc | quit hpc hcond | receive hpc hcond
  | message n hpc | item n hpc | pastEnd n hpc | timeout n hpc
  | ctlEnter n hpc hcond | keep n hpc hcond | stopGot n hpc hcond | waitOn n hpc hcond
  | stopTimedOut n hpc hcond | drain n hpc hcond | abandon n hpc hcond | next n hpc hcond =>
    exact hI.of_balance (by simp [Daemon.running, Daemon.held, hpc]) (by simp [PermitAtCall, hpc])

/-- Every step of the daemon keeps the permits conserved as long as `ct_request_ctl` hands one
over: a worker that ends gives its permit back, and signals move none. -/
theorem Permits.step {maxRequests : Nat} {abortOnError : Bool} (s : Daemon) (a : Act)
    (t : Daemon) (hI : Permits maxRequests s) (hG : HandsPermit maxRequests s a)
    (hstep : daemonStep maxRequests abortOnError s a = some t) : Permits maxRequests t := by
  cases (daemonStep_cases hstep).2 with
  | disp hfree hmove => exact hI.dispStep hG hmove
  | finish hw =>
    refine hI.of_balance ?_ hI.atCall
    have := countP_set_finished hw
    simp only [Daemon.running, Daemon.held]
    omega
  | signalWorker hw =>
    refine hI.of_balance ?_ hI.atCall
    simp only [Daemon.running, Daemon.held, countP_set_same true hw]
  | pollDisp | pollWorker => exact hI
  | majorError | signalDisp | exitDisp | exitWorker => exact hI.of_balance rfl hI.atCall

/-- The invariant along runs whose steps all hand a permit over. -/
theorem permits_of_run {maxRequests : Nat} {abortOnError : Bool} {acts : List Act} {s : Daemon}
    {G : Daemon → Act → Prop} (hG : ∀ s a, G s a → HandsPermit maxRequests s a)
    (hrun : Run (daemonStep maxRequests abortOnError) G (.init maxRequests) acts s) :
    Permits maxRequests s :=
  hrun.invariant (fun s a t hI hGa hstep => Permits.step s a t hI (hG s a hGa) hstep)
    (Permits.init maxRequests)

/-- **Permit conservation.** In every state of every run in which `ct_request_ctl` always hands
a permit over, semaphore value, running workers and the permit of `ct_run`'s thread add up to
`max_requests`; so there are never more than `max_requests` workers, and the semaphore never
exceeds it. -/
theorem permits_conserved (maxRequests : Nat) (abortOnError : Bool) (acts : List Act)
    (s : Daemon)
    (hrun : Run (daemonStep maxRequests abortOnError) (HandsPermit maxRequests)
      (.init maxRequests) acts s) :
    s.sem + s.running + s.held = maxRequests ∧ s.running ≤ maxRequests
      ∧ s.sem ≤ maxRequests := by
  have hI := (permits_of_run (fun _ _ h => h) hrun).conserved
  unfold Conserved at hI
  exact ⟨hI, by omega, by omega⟩

/-- Such a run: one item is handed to a worker while no signal arrives. -/
theorem permits_conserved_one_worker :
    Run (daemonStep 2 false) (HandsPermit 2) (.init 2)
        [.disp (.message true 1), .disp .ok, .disp .ok, .disp .ok, .disp .ok, .disp .ok]
        ⟨1, false, 0, .itemEnd 0, false, [⟨false, false⟩], false⟩
      ∧ 1 + 1 + 0 = 2 ∧ 1 ≤ 2 ∧ 1 ≤ 2 := by
  have hrun : Run (daemonStep 2 false) (HandsPermit 2) (.init 2)
      [.disp (.message true 1), .disp .ok, .disp .ok, .disp .ok, .disp .ok, .disp .ok]
      ⟨1, false, 0, .itemEnd 0, false, [⟨false, false⟩], false⟩ :=
    .cons rfl trivial (.cons rfl trivial (.cons rfl rfl (.cons rfl trivial
      (.cons rfl trivial (.cons rfl trivial (.nil _))))))
  exact ⟨hrun, permits_conserved 2 false _ _ hrun⟩

/-- With `max_requests = 1` and a signal delivered on the first worker, the second item of the
list is started without a permit: two workers run. -/
theorem second_worker_without_permit :
    ∃ s, exec (daemonStep 1 false) (.init 1)
        [.disp (.message true 2), .disp .ok, .disp .ok, .disp .ok, .disp .ok, .disp .ok,
          .signalWorker 0, .disp .ok, .disp .ok, .disp .ok, .disp .ok] = some s
      ∧ ¬ (s.sem + s.running + s.held = 1 ∧ s.running ≤ 1 ∧ s.sem ≤ 1) :=
  ⟨⟨0, true, 0, .itemEnd 0, false, [⟨false, true⟩, ⟨false, false⟩], false⟩, by decide,
    by decide⟩

/-! ## Graceful termination -/

/-- The step hands a permit over where it should, and if it is `ct_run`'s way out behind its
loop, the semaphore is full, as the shutdown checks elsewhere demand. -/
def LeavesFull (maxRequests : Nat) (s : Daemon) (a : Act) : Prop :=
  HandsPermit maxRequests s a ∧ (s.pc = .leave → (∃ answer, a = .disp answer) →
    maxRequests ≤ s.sem)

/-- No worker is running when the process is gone. -/
def Graceful (s : Daemon) : Prop := s.exited = true → s.running = 0

/-- A full semaphore means that no worker is running. -/
theorem Permits.running_eq_zero {maxRequests : Nat} {s : Daemon} (hI : Permits maxRequests s)
    (hfull : maxRequests ≤ s.sem) : s.running = 0 := by
  have := hI.conserved
  unfold Conserved at this
  omega

/-- `ct_run`'s thread ends the process only behind its loop. -/
theorem exited_of_dispMove {maxRequests : Nat} {abortOnError : Bool} {s t : Daemon}
    {answer : Answer} (hmove : DispMove maxRequests abortOnError s answer t) :
    t.exited = s.exited ∨ (s.pc = .leave ∧ t.running = s.running) := by
  cases hmove with
  | exit hpc => exact Or.inr ⟨hpc, rfl⟩
  | _ => exact Or.inl rfl

/-- The invariant of the runs that end gracefully. -/
structure Draining (maxRequests : Nat) (s : Daemon) : Prop where
  permits : Permits maxRequests s
  graceful : Graceful s

theorem Draining.init (maxRequests : Nat) : Draining maxRequests (.init maxRequests) :=
  ⟨Permits.init maxRequests, fun _ => rfl⟩

/-- A step of the daemon ends the process only with a full semaphore: the handler tests that
itself, `ct_run` by the guard. -/
theorem full_of_exit {maxRequests : Nat} {abortOnError : Bool} {s t : Daemon} {a : Act}
    (hG : LeavesFull maxRequests s a)
    (hstep : daemonStep maxRequests abortOnError s a = some t) (hdead : t.exited = true) :
    maxRequests ≤ s.sem ∧ t.running = s.running := by
  obtain ⟨hlive, hmove⟩ := daemonStep_cases hstep
  have hdies : ¬ t.exited = s.exited := by
    rw [hlive, hdead]
    decide
  cases hmove with
  | disp hfree hmove =>
    rcases exited_of_dispMove hmove with hsame | ⟨hpc, hrun⟩
    · exact absurd hsame hdies
    · exact ⟨hG.2 hpc ⟨_, rfl⟩, hrun⟩
  | exitDisp hin hfull => exact ⟨Nat.le_of_not_lt hfull, rfl⟩
  | exitWorker hw hfull => exact ⟨Nat.le_of_not_lt hfull, rfl⟩
  | _ => exact absurd rfl hdies

theorem Draining.step {maxRequests : Nat} {abortOnError : Bool} (s : Daemon) (a : Act)
    (t : Daemon) (hI : Draining maxRequests s) (hG : LeavesFull maxRequests s a)
    (hstep : daemonStep maxRequests abortOnError s a = some t) : Draining maxRequests t := by
  refine ⟨Permits.step s a t hI.permits hG.1 hstep, fun hdead => ?_⟩
  obtain ⟨hfull, hrun⟩ := full_of_exit hG hstep hdead
  rw [hrun]
  exact hI.permits.running_eq_zero hfull

/-- **Graceful termination.** In every run in which `ct_request_ctl` always hands a permit over
and `ct_run` leaves its loop only with a full semaphore, the process is never gone while a
worker has not finished its item. -/
theorem graceful_termination (maxRequests : Nat) (abortOnError : Bool) (acts : List Act)
    (s : Daemon)
    (hrun : Run (daemonStep maxRequests abortOnError) (LeavesFull maxRequests)
      (.init maxRequests) acts s) : Graceful s :=
  (hrun.invariant Draining.step (Draining.init maxRequests)).graceful

/-- Such a run, to its end: the worker finishes, the signal arrives on `ct_run`'s thread, and
the handler exits. -/
theorem graceful_termination_by_handler :
    Run (daemonStep 1 false) (LeavesFull 1) (.init 1)
        [.disp (.message true 1), .disp .ok, .disp .ok, .disp .ok, .disp .ok, .disp .ok,
          .finish 0, .signalDisp, .pollDisp]
        ⟨1, true, 0, .itemEnd 0, true, [⟨true, false⟩], true⟩
      ∧ Graceful ⟨1, true, 0, .itemEnd 0, true, [⟨true, false⟩], true⟩ := by
  have hrun : Run (daemonStep 1 false) (LeavesFull 1) (.init 1)
      [.disp (.message true 1), .disp .ok, .disp .ok, .disp .ok, .disp .ok, .disp .ok,
        .finish 0, .signalDisp, .pollDisp]
      ⟨1, true, 0, .itemEnd 0, true, [⟨true, false⟩], true⟩ := by
    refine .cons rfl ⟨trivial, nofun⟩ (.cons rfl ⟨trivial, nofun⟩ (.cons rfl ⟨rfl, nofun⟩ ?_))
    refine .cons rfl ⟨trivial, nofun⟩ (.cons rfl ⟨trivial, nofun⟩ (.cons rfl ⟨trivial, nofun⟩ ?_))
    exact .cons rfl ⟨trivial, nofun⟩ (.cons rfl ⟨trivial, nofun⟩ (.cons rfl ⟨trivial, nofun⟩
      (.nil _)))
  exact ⟨hrun, graceful_termination 1 false _ _ hrun⟩

/-- `-ESHUTDOWN` ends the process over the worker that was just started. -/
theorem shutdown_over_running_worker :
    ∃ s, exec (daemonStep 1 false) (.init 1)
        [.disp (.message true 1), .disp .ok, .disp .ok, .disp .ok, .disp .ok, .disp .ok,
          .disp .ok, .disp .ok, .disp .ok, .disp .shutdown, .disp .ok] = some s
      ∧ ¬ Graceful s :=
  ⟨⟨0, false, 0, .leave, false, [⟨false, false⟩], true⟩, by decide, fun h => by
    have := h rfl
    revert this
    decide⟩

end Estuary
