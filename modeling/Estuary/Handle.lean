import Estuary.Report

/-!
# Estuary — the handle across the end calls

`ct_action_done` sends the end of the action again when the call fails. But the first call has
freed the handle and set `*phcp` to `NULL`, so that every further one returns `-EINVAL` without
reaching the coordinator, until the resends are used up.

* **`endResend_freed`** — the loop without a handle;
* **`ctActionDoneHandle_eq`** — the answers to the end calls are the coordinator's first one and
  then `-EINVAL`s: with these, `ctActionDone` is what the handle makes of it;
* **`delivered_iff`** — the report gets through exactly when the coordinator accepts it at once.
-/

namespace Estuary

open Engine

/-- What the end calls of one `ct_action_done` return. -/
def endAnswers (outcomes : Nat → Nat) (i : Nat) : Nat := if i = 0 then outcomes 0 else einval

/-- `rc` is answered by a resend. -/
def resendsEnd (rc : Nat) : Bool := rc != 0 && rc != ecanceled

/-- The two loops make the same calls and return the same. -/
def SameCalls (x : Proc (Nat × EndCalls)) (y : Proc Nat) : Prop :=
  x.log = y.log ∧ ∃ r, x.out = .done r ∧ y.out = .done r.1

section Resend

variable (outcomes : Nat → Nat) (retry : Bool) (errval : Nat)

/-- The call that has the handle frees it, whatever the coordinator says. -/
theorem llapiHsmActionEnd_valid : llapiHsmActionEnd outcomes errval ⟨true, 0, []⟩
    = (outcomes 0, ⟨false, 1, if outcomes 0 = 0 then [errval] else []⟩) := rfl

/-- A call without a handle does nothing. -/
theorem llapiHsmActionEnd_freed {c : EndCalls} (hc : c.handle = false) :
    llapiHsmActionEnd outcomes errval c = (einval, c) := by
  rw [llapiHsmActionEnd, hc]
  rfl

/-- **Without a handle** every call returns `-EINVAL`, and nothing reaches the coordinator. -/
theorem endResend_freed (budget : Nat) {c : EndCalls} (hc : c.handle = false) :
    (endResend outcomes retry errval budget c).out = .done (einval, c) := by
  have hcall := llapiHsmActionEnd_freed outcomes errval hc
  induction budget with
  | zero => rw [endResend, hcall]; rfl
  | succ budget ih =>
    rw [endResend]
    simp only [hcall, Exec.emit_bind]
    exact ih

/-- With one, the first answer counts: it ends the loop, or leaves it without a handle. -/
theorem endResend_out (budget : Nat) :
    ∃ rc c, (endResend outcomes retry errval (budget + 1) ⟨true, 0, []⟩).out = .done (rc, c)
      ∧ (rc = 0 ∧ errval ∈ c.received ↔ outcomes 0 = 0) := by
  have hcall := llapiHsmActionEnd_valid outcomes errval
  rw [endResend]
  simp only [hcall, Exec.emit_bind]
  by_cases hagain : (outcomes 0 != 0 && outcomes 0 != ecanceled) = true
  · rw [if_pos hagain]
    refine ⟨_, _, endResend_freed outcomes retry errval budget rfl, ?_⟩
    -- the resends find no handle: the refusal stands
    have hrefused : outcomes 0 ≠ 0 := by
      simp only [Bool.and_eq_true, bne_iff_ne] at hagain
      exact hagain.1
    exact iff_of_false (fun h => Nat.noConfusion h.1) hrefused
  · rw [if_neg hagain]
    refine ⟨_, _, rfl, ⟨And.left, fun haccepted => ⟨haccepted, ?_⟩⟩⟩
    rw [if_pos haccepted]
    exact List.mem_singleton_self _

theorem sameCalls_freed (budget i : Nat) {c : EndCalls} (hc : c.handle = false) (hi : 0 < i) :
    SameCalls (endResend outcomes retry errval budget c)
      (msgResend (.actionEnd retry errval) resendsEnd (endAnswers outcomes) budget i) := by
  have hcall := llapiHsmActionEnd_freed outcomes errval hc
  have hanswer : ∀ {i}, 0 < i → endAnswers outcomes i = einval := fun hi => if_neg (Nat.ne_of_gt hi)
  induction budget generalizing i with
  | zero =>
    rw [endResend, msgResend, hcall, hanswer hi]
    exact ⟨rfl, _, rfl, rfl⟩
  | succ budget ih =>
    rw [endResend, msgResend, hanswer hi]
    simp only [hcall, Exec.emit_bind]
    obtain ⟨hlog, hout⟩ := ih (i + 1) (Nat.succ_pos i)
    exact ⟨congrArg (_ :: ·) hlog, hout⟩

theorem sameCalls_valid (budget : Nat) :
    SameCalls (endResend outcomes retry errval budget ⟨true, 0, []⟩)
      (msgResend (.actionEnd retry errval) resendsEnd (endAnswers outcomes) budget 0) := by
  have hcall := llapiHsmActionEnd_valid outcomes errval
  have hanswer : endAnswers outcomes 0 = outcomes 0 := rfl
  cases budget with
  | zero =>
    rw [endResend, msgResend, hcall, hanswer]
    exact ⟨rfl, _, rfl, rfl⟩
  | succ budget =>
    rw [endResend, msgResend, hanswer]
    simp only [hcall, Exec.emit_bind]
    by_cases hagain : resendsEnd (outcomes 0) = true
    · rw [if_pos hagain, if_pos (show (_ && _) = true from hagain)]
      obtain ⟨hlog, hout⟩ := sameCalls_freed outcomes retry errval budget 1
        (c := ⟨false, 1, if outcomes 0 = 0 then [errval] else []⟩) rfl Nat.one_pos
      exact ⟨congrArg (_ :: ·) hlog, hout⟩
    · rw [if_neg hagain, if_neg (show ¬ (_ && _) = true from hagain)]
      exact ⟨rfl, _, rfl, rfl⟩

end Resend

/-- **The answers to the end calls** are not any stream: with a handle that the first call frees,
`ct_action_done` sees the coordinator's first answer and then `-EINVAL`s. -/
theorem ctActionDoneHandle_eq (beginRcs outcomes : Nat → Nat) (hcp retry : Bool) (ctRc : Int) :
    (ctActionDoneHandle beginRcs outcomes hcp retry ctRc >>= fun r => pure r.1)
      = ctActionDone ⟨beginRcs, endAnswers outcomes⟩ hcp retry ctRc := by
  obtain ⟨hlog, r, hhandle, hanswers⟩ := sameCalls_valid outcomes retry ctRc.natAbs maxResend
  obtain ⟨log, hlog'⟩ : ∃ log, log = (msgResend (.actionEnd retry ctRc.natAbs) resendsEnd
    (endAnswers outcomes) maxResend 0).log := ⟨_, rfl⟩
  have hend : (endResend outcomes retry ctRc.natAbs maxResend ⟨true, 0, []⟩ >>= fun r =>
      (pure (-(r.1 : Int), r.2) : Proc (Int × EndCalls))) = ⟨log, .done (-(r.1 : Int), r.2)⟩ := by
    rw [Exec.bind_of_done hhandle, Exec.pure_log, List.append_nil, hlog, hlog']
    rfl
  have hmsg : (msgResend (.actionEnd retry ctRc.natAbs) (fun rc => rc != 0 && rc != ecanceled)
      (endAnswers outcomes) maxResend 0 >>= fun rc => (pure (-(rc : Int)) : Proc Int))
      = ⟨log, .done (-(r.1 : Int))⟩ := by
    show (msgResend _ resendsEnd _ _ _ >>= _) = _
    rw [Exec.bind_of_done hanswers, Exec.pure_log, List.append_nil, hlog']
    rfl
  have hopen := openHandle_out ⟨beginRcs, outcomes⟩ hcp
  have hopen' := openHandle_out ⟨beginRcs, endAnswers outcomes⟩ hcp
  -- opening a handle makes no end call, so it does not see which answers those get
  have hsame : (openHandle ⟨beginRcs, outcomes⟩ hcp).log
      = (openHandle ⟨beginRcs, endAnswers outcomes⟩ hcp).log := rfl
  rw [ctActionDoneHandle, ctActionDone, Exec.emit_bind, Exec.emit_bind, Exec.bind_of_done hopen,
    Exec.bind_of_done hopen', hsame]
  by_cases herr : (if hcp then 0 else beginErr beginRcs) ≠ 0
  · rw [if_pos herr, if_pos herr]
    refine (Exec.bind_of_done rfl _).trans ?_
    rw [Exec.pure_log, List.append_nil]
    rfl
  · rw [if_neg herr, if_neg herr, hend, hmsg]
    refine (Exec.bind_of_done rfl _).trans ?_
    rw [Exec.pure_log, List.append_nil, Exec.pure_out]

/-- `ct_action_done` returned 0 and the coordinator has the error value. -/
def Delivered (res : Proc (Int × EndCalls)) (errval : Nat) : Prop :=
  ∃ c, res.out = .done (0, c) ∧ errval ∈ c.received

/-- One of the first `1 + max_retry` outcomes is acceptance, and none before it is `-ECANCELED`. -/
def Acceptable (outcomes : Nat → Nat) : Prop :=
  ∃ k < maxResend, outcomes k = 0 ∧ ∀ j < k, outcomes j ≠ ecanceled

theorem delivered_iff {beginRcs : Nat → Nat} (outcomes : Nat → Nat) {hcp : Bool} (retry : Bool)
    (ctRc : Int) (hvalid : hcp = true ∨ beginErr beginRcs = 0) :
    Delivered (ctActionDoneHandle beginRcs outcomes hcp retry ctRc) ctRc.natAbs
      ↔ outcomes 0 = 0 := by
  -- `maxResend` is one call more than 5, so there is at least one resend
  obtain ⟨rc, c, hout, hiff⟩ := endResend_out outcomes retry ctRc.natAbs 5
  have hopen : (openHandle ⟨beginRcs, outcomes⟩ hcp).out = .done 0 := by
    rw [openHandle_out]
    rcases hvalid with rfl | hbegin
    · rfl
    · cases hcp
      · exact congrArg _ hbegin
      · rfl
  have hdone : (ctActionDoneHandle beginRcs outcomes hcp retry ctRc).out = .done (-(rc : Int), c) := by
    rw [ctActionDoneHandle, Exec.emit_bind]
    show (openHandle ⟨beginRcs, outcomes⟩ hcp >>= _).out = _
    rw [Exec.bind_out_of_done hopen, if_neg (not_not_intro rfl)]
    show (endResend outcomes retry ctRc.natAbs (5 + 1) ⟨true, 0, []⟩ >>= _).out = _
    rw [Exec.bind_out_of_done hout]
    rfl
  rw [← hiff, Delivered, hdone]
  constructor
  · rintro ⟨c', hc', hmem⟩
    obtain ⟨hrc, rfl⟩ := Prod.mk.inj (Outcome.done.inj hc')
    exact ⟨by omega, hmem⟩
  · rintro ⟨rfl, hmem⟩
    exact ⟨c, rfl, hmem⟩

/-- **Delivery of the report.** With a valid handle, and one of the first six outcomes acceptance
with no cancellation before it, the report gets through exactly when the first outcome is
acceptance: no resend ever takes effect. -/
theorem resend_delivers_iff {beginRcs : Nat → Nat} (outcomes : Nat → Nat) {hcp : Bool}
    (retry : Bool) (ctRc : Int) (hvalid : hcp = true ∨ beginErr beginRcs = 0) :
    (Acceptable outcomes →
        Delivered (ctActionDoneHandle beginRcs outcomes hcp retry ctRc) ctRc.natAbs)
      ↔ (Acceptable outcomes → outcomes 0 = 0) :=
  imp_congr_right fun _ => delivered_iff outcomes retry ctRc hvalid

/-- The coordinator accepts at once. -/
theorem resend_delivers_at_once :
    Acceptable (fun _ => 0)
      ∧ Delivered (ctActionDoneHandle (fun _ => 0) (fun _ => 0) true false (-5)) 5 := by
  have haccept : Acceptable (fun _ => 0) := ⟨0, by decide, rfl, nofun⟩
  exact ⟨haccept, (resend_delivers_iff (fun _ => 0) false (-5) (.inl rfl)).mpr (fun _ => rfl) haccept⟩

/-- The first request meets an I/O error, and the coordinator would accept the second one: seven
calls are made, and nothing is received. -/
theorem resend_without_handle :
    Acceptable (fun n => if n = 0 then eio else 0)
      ∧ (ctActionDoneHandle (fun _ => 0) (fun n => if n = 0 then eio else 0) true false (-5)).out
        = .done (-(einval : Int), ⟨false, 1, []⟩)
      ∧ ¬ Delivered (ctActionDoneHandle (fun _ => 0) (fun n => if n = 0 then eio else 0) true false
        (-5)) 5 := by
  refine ⟨⟨1, by decide, rfl, fun j hj => ?_⟩, by decide, ?_⟩
  · obtain rfl : j = 0 := Nat.lt_one_iff.mp hj
    decide
  · intro h
    exact absurd ((delivered_iff (fun n => if n = 0 then eio else 0) false (-5) (.inl rfl)).mp h)
      (by decide)

end Estuary
