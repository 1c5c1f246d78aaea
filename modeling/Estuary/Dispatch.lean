import Estuary.Spec.Dispatcher

/-!
# Estuary — what a step of the daemon can do

The transition functions of `Estuary.Spec.Dispatcher`, read as relations: one case for each branch
of the source, with the test that leads there. The invariants of the daemon are proved by cases on
these.

* **`dispStep_cases`** — the branches of `ct_run` and `ct_request_ctl`;
* **`daemonStep_cases`** — a step of any thread.
-/

namespace Estuary

/-- The branches `ct_run`'s thread can take. -/
inductive DispMove (maxRequests : Nat) (abortOnError : Bool) (s : Daemon) :
    Answer → Daemon → Prop where
  | shutdown (hpc : s.pc = .recv) :
      DispMove maxRequests abortOnError s .shutdown { s with pc := .leave }
  | recvError (hpc : s.pc = .recv) :
      DispMove maxRequests abortOnError s .recvError (afterMajor abortOnError s)
  | message (count : Nat) (hpc : s.pc = .recv) :
      DispMove maxRequests abortOnError s (.message true count) { s with pc := .itemTest count }
  | foreign (count : Nat) (hpc : s.pc = .recv) :
      DispMove maxRequests abortOnError s (.message false count) (afterMajor abortOnError s)
  | listDone (hpc : s.pc = .itemTest 0) :
      DispMove maxRequests abortOnError s .ok { s with pc := .listEnd }
  | item (left : Nat) (hpc : s.pc = .itemTest (left + 1)) :
      DispMove maxRequests abortOnError s .ok { s with pc := .ctlEntry left }
  | pastEnd (left : Nat) (hpc : s.pc = .itemTest (left + 1)) :
      DispMove maxRequests abortOnError s .pastEnd
        { s with errMajor := s.errMajor + 1, pc := .listEnd }
  -- `ct_request_ctl`
  | ctlReturn (left : Nat) (hpc : s.pc = .ctlEntry left) (hstop : s.stopIt = true) :
      DispMove maxRequests abortOnError s .ok { s with pc := .async left false }
  | ctlEnter (left : Nat) (hpc : s.pc = .ctlEntry left) (hgo : s.stopIt = false) :
      DispMove maxRequests abortOnError s .ok { s with pc := .ctlWait left }
  | take (left : Nat) (hpc : s.pc = .ctlWait left) (hsem : s.sem ≠ 0) :
      DispMove maxRequests abortOnError s .ok { s with sem := s.sem - 1, pc := .ctlGot left }
  | timeout (left : Nat) (hpc : s.pc = .ctlWait left) :
      DispMove maxRequests abortOnError s .timeout { s with pc := .ctlTimedOut left }
  | keep (left : Nat) (hpc : s.pc = .ctlGot left) (hgo : s.stopIt = false) :
      DispMove maxRequests abortOnError s .ok { s with pc := .async left true }
  | stopGot (left : Nat) (hpc : s.pc = .ctlGot left) (hstop : s.stopIt = true) :
      DispMove maxRequests abortOnError s .ok { s with pc := .ctlRepost left }
  | waitOn (left : Nat) (hpc : s.pc = .ctlTimedOut left) (hgo : s.stopIt = false) :
      DispMove maxRequests abortOnError s .ok { s with pc := .ctlWait left }
  | stopTimedOut (left : Nat) (hpc : s.pc = .ctlTimedOut left) (hstop : s.stopIt = true) :
      DispMove maxRequests abortOnError s .ok { s with pc := .ctlCheck left }
  | repost (left : Nat) (hpc : s.pc = .ctlRepost left) :
      DispMove maxRequests abortOnError s .ok { s with sem := s.sem + 1, pc := .ctlCheck left }
  | drain (left : Nat) (hpc : s.pc = .ctlCheck left) (hlt : s.sem < maxRequests) :
      DispMove maxRequests abortOnError s .ok { s with pc := .ctlWait left }
  | drained (left : Nat) (hpc : s.pc = .ctlCheck left) (hfull : ¬ s.sem < maxRequests) :
      DispMove maxRequests abortOnError s .ok { s with pc := .async left false }
  -- back in `ct_run`
  | start (left : Nat) (permit : Bool) (hpc : s.pc = .async left permit) :
      DispMove maxRequests abortOnError s .ok
        { s with pc := .itemEnd left, workers := s.workers ++ [⟨false, false⟩] }
  | startFailed (left : Nat) (permit : Bool) (hpc : s.pc = .async left permit) :
      DispMove maxRequests abortOnError s .failed { s with pc := .asyncFailed left permit }
  | giveBack (left : Nat) (permit : Bool) (hpc : s.pc = .asyncFailed left permit) :
      DispMove maxRequests abortOnError s .ok { s with sem := s.sem + 1, pc := .itemEnd left }
  | abandon (left : Nat) (hpc : s.pc = .itemEnd left)
      (habort : (abortOnError && s.errMajor != 0) = true) :
      DispMove maxRequests abortOnError s .ok { s with pc := .listEnd }
  | next (left : Nat) (hpc : s.pc = .itemEnd left)
      (hgo : (abortOnError && s.errMajor != 0) = false) :
      DispMove maxRequests abortOnError s .ok { s with pc := .itemTest left }
  | quit (hpc : s.pc = .listEnd)
      (hquit : (s.stopIt || (abortOnError && s.errMajor != 0)) = true) :
      DispMove maxRequests abortOnError s .ok { s with pc := .leave }
  | receive (hpc : s.pc = .listEnd)
      (hgo : (s.stopIt || (abortOnError && s.errMajor != 0)) = false) :
      DispMove maxRequests abortOnError s .ok { s with pc := .recv }
  | exit (hpc : s.pc = .leave) :
      DispMove maxRequests abortOnError s .ok { s with exited := true }

/-- The inversion of `dispStep`. -/
theorem dispStep_cases {maxRequests : Nat} {abortOnError : Bool} {s t : Daemon} {answer : Answer}
    (h : dispStep maxRequests abortOnError s answer = some t) :
    DispMove maxRequests abortOnError s answer t := by
  obtain ⟨sem, stopIt, errMajor, pc, inHandler, workers, exited⟩ := s
  cases pc with
  | recv =>
    cases answer with
    | shutdown =>
      cases h
      exact .shutdown rfl
    | recvError =>
      cases h
      exact .recvError rfl
    | message fsname count =>
      cases fsname with
      | true =>
        cases h
        exact .message count rfl
      | false =>
        cases h
        exact .foreign count rfl
    | _ => cases h
  | itemTest items =>
    cases items with
    | zero =>
      cases answer <;> cases h
      exact .listDone rfl
    | succ left =>
      cases answer with
      | ok =>
        cases h
        exact .item left rfl
      | pastEnd =>
        cases h
        exact .pastEnd left rfl
      | _ => cases h
  | ctlEntry left =>
    cases stopIt with
    | true =>
      cases answer <;> cases h
      exact .ctlReturn left rfl rfl
    | false =>
      cases answer <;> cases h
      exact .ctlEnter left rfl rfl
  | ctlWait left =>
    cases answer with
    | ok =>
      simp only [dispStep] at h
      split at h
      · cases h
      · next hsem =>
        cases h
        exact .take left rfl hsem
    | timeout =>
      cases h
      exact .timeout left rfl
    | _ => cases h
  | ctlGot left =>
    cases stopIt with
    | true =>
      cases answer <;> cases h
      exact .stopGot left rfl rfl
    | false =>
      cases answer <;> cases h
      exact .keep left rfl rfl
  | ctlTimedOut left =>
    cases stopIt with
    | true =>
      cases answer <;> cases h
      exact .stopTimedOut left rfl rfl
    | false =>
      cases answer <;> cases h
      exact .waitOn left rfl rfl
  | ctlRepost left =>
    cases answer <;> cases h
    exact .repost left rfl
  | ctlCheck left =>
    cases answer with
    | ok =>
      simp only [dispStep] at h
      split at h
      · next hlt =>
        cases h
        exact .drain left rfl hlt
      · next hfull =>
        cases h
        exact .drained left rfl hfull
    | _ => cases h
  | async left permit =>
    cases answer with
    | ok =>
      cases h
      exact .start left permit rfl
    | failed =>
      cases h
      exact .startFailed left permit rfl
    | _ => cases h
  | asyncFailed left permit =>
    cases answer <;> cases h
    exact .giveBack left permit rfl
  | itemEnd left =>
    cases answer with
    | ok =>
      simp only [dispStep] at h
      split at h
      · next habort =>
        cases h
        exact .abandon left rfl habort
      · next hgo =>
        cases h
        exact .next left rfl (Bool.eq_false_iff.mpr hgo)
    | _ => cases h
  | listEnd =>
    cases answer with
    | ok =>
      simp only [dispStep] at h
      split at h
      · next hquit =>
        cases h
        exact .quit rfl hquit
      · next hgo =>
        cases h
        exact .receive rfl (Bool.eq_false_iff.mpr hgo)
    | _ => cases h
  | leave =>
    cases answer <;> cases h
    exact .exit rfl

/-- The steps of all threads: of `ct_run`'s thread, of the workers, and of the signal handler on
either. -/
inductive DaemonMove (maxRequests : Nat) (abortOnError : Bool) (s : Daemon) :
    Act → Daemon → Prop where
  | disp {answer : Answer} {t : Daemon} (hfree : s.inHandler = false)
      (hmove : DispMove maxRequests abortOnError s answer t) :
      DaemonMove maxRequests abortOnError s (.disp answer) t
  | majorError {i : Nat} (hw : s.workers[i]? = some ⟨false, false⟩) :
      DaemonMove maxRequests abortOnError s (.majorError i)
        { s with errMajor := s.errMajor + 1 }
  | finish {i : Nat} (hw : s.workers[i]? = some ⟨false, false⟩) :
      DaemonMove maxRequests abortOnError s (.finish i)
        { s with sem := s.sem + 1, workers := s.workers.set i ⟨true, false⟩ }
  | signalDisp :
      DaemonMove maxRequests abortOnError s .signalDisp
        { s with stopIt := true, inHandler := true }
  | signalWorker {i : Nat} {w : Worker} (hw : s.workers[i]? = some w) :
      DaemonMove maxRequests abortOnError s (.signalWorker i)
        { s with stopIt := true, workers := s.workers.set i ⟨w.finished, true⟩ }
  | pollDisp (hin : s.inHandler = true) (hlt : s.sem < maxRequests) :
      DaemonMove maxRequests abortOnError s .pollDisp s
  | exitDisp (hin : s.inHandler = true) (hfull : ¬ s.sem < maxRequests) :
      DaemonMove maxRequests abortOnError s .pollDisp { s with exited := true }
  | pollWorker {i : Nat} {finished : Bool} (hw : s.workers[i]? = some ⟨finished, true⟩)
      (hlt : s.sem < maxRequests) : DaemonMove maxRequests abortOnError s (.pollWorker i) s
  | exitWorker {i : Nat} {finished : Bool} (hw : s.workers[i]? = some ⟨finished, true⟩)
      (hfull : ¬ s.sem < maxRequests) :
      DaemonMove maxRequests abortOnError s (.pollWorker i) { s with exited := true }

/-- The inversion of `daemonStep`. -/
theorem daemonStep_cases {maxRequests : Nat} {abortOnError : Bool} {s t : Daemon} {a : Act}
    (h : daemonStep maxRequests abortOnError s a = some t) :
    s.exited = false ∧ DaemonMove maxRequests abortOnError s a t := by
  unfold daemonStep at h
  split at h
  · cases h
  next hlive =>
  refine ⟨Bool.eq_false_iff.mpr hlive, ?_⟩
  cases a with
  | disp answer =>
    simp only at h
    split at h
    · cases h
    · next hfree => exact .disp (Bool.eq_false_iff.mpr hfree) (dispStep_cases h)
  | majorError i =>
    simp only at h
    split at h
    · next hw =>
      cases h
      exact .majorError hw
    · cases h
  | finish i =>
    simp only at h
    split at h
    · next hw =>
      cases h
      exact .finish hw
    · cases h
  | signalDisp =>
    cases h
    exact .signalDisp
  | signalWorker i =>
    simp only at h
    split at h
    · next hw =>
      cases h
      exact .signalWorker hw
    · cases h
  | pollDisp =>
    simp only at h
    split at h
    · next hin =>
      cases h
      split
      · next hlt => exact .pollDisp hin hlt
      · next hfull => exact .exitDisp hin hfull
    · cases h
  | pollWorker i =>
    simp only at h
    split at h
    · next hw =>
      cases h
      split
      · next hlt => exact .pollWorker hw hlt
      · next hfull => exact .exitWorker hw hfull
    · cases h

end Estuary
