import Estuary.Engine.Run
import Estuary.Engine.Threads
import Estuary.Spec.Quota

/-!
# Estuary — conservation of the quota, and stranded waiters

* **`opStep_cases`**, **`quotaStep_cases`** — what a step can do;
* **`OpStep.conserves`** — what one thread takes from `quota_left` it holds, and what it stops
  holding it has given back; it is counted in `quota_waiters` while it sleeps or has just been
  woken;
* **`quota_conserved`** — so `quota_left` and what the threads hold add up to `quota_total`, in
  every state of every run, and neither subtraction nor addition ever wraps;
* **`no_stranded_waiter`** — a thread that sleeps will be woken, in every run in which no refund is
  made while one sleeps: the refund is the one place where quota comes back without a signal.
-/

namespace Estuary

open Engine

/-! ## Conservation -/

/-- Counted in `quota_waiters`. -/
def QuotaPc.waits : QuotaPc → Nat
  | .sleeping _ => 1
  | .woken _ => 1
  | _ => 0

/-- What a step of a thread can do, one case for each branch of the two functions. -/
inductive OpStep (left : UInt64) (waiters : Nat) :
    QuotaPc → QuotaOp → UInt64 → Nat → QuotaPc → Prop where
  | call (size : UInt64) :
      OpStep left waiters .idle (.call size) left waiters (.retry size false)
  | grant (size : UInt64) (again : Bool) (hfits : size ≤ left) :
      OpStep left waiters (.retry size again) .test (left - size) waiters (.granted size)
  | sleep (size : UInt64) (again : Bool) (hmore : ¬ size ≤ left) :
      OpStep left waiters (.retry size again) .test left (waiters + 1) (.sleeping size)
  | allocated (size : UInt64) :
      OpStep left waiters (.granted size) (.malloc true) left waiters (.live size)
  | failed (size : UInt64) :
      OpStep left waiters (.granted size) (.malloc false) left waiters (.refund size)
  | returnQuota (size : UInt64) :
      OpStep left waiters (.refund size) .returnQuota (left + size) waiters .idle
  | release (size : UInt64) :
      OpStep left waiters (.live size) .release (left + size) waiters (.released (waiters != 0))
  | freed : OpStep left waiters (.released false) .free left waiters .idle
  | freedNotify : OpStep left waiters (.released true) .free left waiters .signaling
  | wakeUp (size : UInt64) :
      OpStep left waiters (.sleeping size) .wakeUp left waiters (.woken size)
  | reacquire (size : UInt64) :
      OpStep left waiters (.woken size) .reacquire left (waiters - 1) (.retry size true)

section Step

variable {left left' : UInt64} {waiters waiters' : Nat} {pc pc' : QuotaPc} {op : QuotaOp}

/-- The inversion of `opStep`. -/
theorem opStep_cases (h : opStep left waiters pc op = some (left', waiters', pc')) :
    OpStep left waiters pc op left' waiters' pc' := by
  cases pc with
  | idle =>
    cases op <;> cases h
    exact .call _
  | retry size again =>
    cases op with
    | test =>
      simp only [opStep] at h
      split at h
      · next hfits =>
        cases h
        exact .grant size again hfits
      · next hmore =>
        cases h
        exact .sleep size again hmore
    | _ => cases h
  | granted size =>
    cases op with
    | malloc ok =>
      cases ok with
      | true =>
        cases h
        exact .allocated size
      | false =>
        cases h
        exact .failed size
    | _ => cases h
  | refund size =>
    cases op <;> cases h
    exact .returnQuota size
  | sleeping size =>
    cases op <;> cases h
    exact .wakeUp size
  | woken size =>
    cases op <;> cases h
    exact .reacquire size
  | live size =>
    cases op <;> cases h
    exact .release size
  | released notify =>
    cases notify with
    | true =>
      cases op <;> cases h
      exact .freedNotify
    | false =>
      cases op <;> cases h
      exact .freed
  | signaling => cases op <;> cases h

theorem toNat_giveBack {size : UInt64} (h : left.toNat + size.toNat < 2 ^ 64) :
    (left + size).toNat + 0 = left.toNat + size.toNat := by
  rw [UInt64.toNat_add, Nat.mod_eq_of_lt h, Nat.add_zero]

/-- **What one step of a thread moves**: `quota_left` and its holding keep their sum, as long as
that does not exceed a `size_t`, and `quota_waiters` follows its waiting. -/
theorem OpStep.conserves (h : OpStep left waiters pc op left' waiters' pc')
    (hfits : left.toNat + pc.held < 2 ^ 64) (hcounted : pc.waits ≤ waiters) :
    left'.toNat + pc'.held = left.toNat + pc.held
      ∧ waiters' + pc.waits = waiters + pc'.waits := by
  cases h with
  | grant size again hle =>
    have hle' := UInt64.le_iff_toNat_le.mp hle
    refine ⟨?_, rfl⟩
    show (left - size).toNat + size.toNat = left.toNat + 0
    rw [UInt64.toNat_sub_of_le _ _ hle]
    omega
  | returnQuota size => exact ⟨toNat_giveBack hfits, rfl⟩
  | release size => exact ⟨toNat_giveBack hfits, rfl⟩
  | reacquire size =>
    refine ⟨rfl, ?_⟩
    show waiters - 1 + 1 = waiters + 0
    have hpos : 1 ≤ waiters := hcounted
    omega
  | _ => exact ⟨rfl, rfl⟩

end Step

/-- What a step can do: a thread moves, or a signal wakes a thread or, if none sleeps, nobody. -/
inductive QuotaMove (s : Quota) : QuotaAct → Quota → Prop where
  | op {i : Nat} {op : QuotaOp} {pc pc' : QuotaPc} {left : UInt64} {waiters : Nat}
      (hpc : s.threads[i]? = some pc)
      (hop : OpStep s.quotaLeft s.quotaWaiters pc op left waiters pc') :
      QuotaMove s (.op i op) { s with
        quotaLeft := left
        quotaWaiters := waiters
        threads := s.threads.set i pc' }
  | unheard {i : Nat} (hi : s.threads[i]? = some .signaling)
      (hnone : ∀ size, .sleeping size ∉ s.threads) :
      QuotaMove s (.signal i none) { s with threads := s.threads.set i .idle }
  | heard {i j : Nat} {size : UInt64} (hi : s.threads[i]? = some .signaling)
      (hj : s.threads[j]? = some (.sleeping size)) :
      QuotaMove s (.signal i (some j))
        { s with threads := (s.threads.set i .idle).set j (.woken size) }

/-- The inversion of `quotaStep`. -/
theorem quotaStep_cases {s t : Quota} {a : QuotaAct} (h : quotaStep s a = some t) :
    QuotaMove s a t := by
  cases a with
  | op i op =>
    simp only [quotaStep] at h
    cases hpc : s.threads[i]? with
    | none => simp [hpc] at h
    | some pc =>
      simp only [hpc] at h
      obtain ⟨⟨left, waiters, pc'⟩, hop, rfl⟩ := Option.map_eq_some_iff.mp h
      exact .op hpc (opStep_cases hop)
  | signal i sleeper =>
    cases sleeper with
    | none =>
      simp only [quotaStep] at h
      split at h <;> cases h
      next hsignal =>
      exact .unheard hsignal.1 fun size hmem => List.any_eq_false.mp hsignal.2 _ hmem rfl
    | some j =>
      simp only [quotaStep] at h
      split at h <;> cases h
      next hi hj => exact .heard hi hj

/-- The invariant of every run. -/
structure Balanced (quotaSize : UInt64) (s : Quota) : Prop where
  total : s.quotaTotal = quotaSize
  conserved : s.quotaLeft.toNat + s.held = s.quotaTotal.toNat
  counted : s.quotaWaiters = (s.threads.map QuotaPc.waits).sum

theorem Balanced.init (quotaSize : UInt64) (n : Nat) :
    Balanced quotaSize (quotaMemInit quotaSize n) where
  total := rfl
  conserved := by
    show quotaSize.toNat + ((List.replicate n QuotaPc.idle).map QuotaPc.held).sum = quotaSize.toNat
    simp [QuotaPc.held]
  counted := by
    show 0 = ((List.replicate n QuotaPc.idle).map QuotaPc.waits).sum
    simp [QuotaPc.waits]

/-- A signal moves no quota, and the thread it wakes is still counted. -/
theorem signal_sums {ts : List QuotaPc} {i j : Nat} {size : UInt64} {f : QuotaPc → Nat}
    (hi : ts[i]? = some .signaling) (hj : ts[j]? = some (.sleeping size))
    (hidle : f .idle = f .signaling) (hwoken : f (.woken size) = f (.sleeping size)) :
    (((ts.set i .idle).set j (.woken size)).map f).sum = (ts.map f).sum := by
  have hij : i ≠ j := by
    rintro rfl
    rw [hi] at hj
    cases hj
  have hj' : (ts.set i .idle)[j]? = some (.sleeping size) := by rw [List.getElem?_set_ne hij, hj]
  have h1 := @sum_map_set _ f _ _ _ hi .idle
  have h2 := @sum_map_set _ f _ _ _ hj' (.woken size)
  omega

theorem Balanced.step {quotaSize : UInt64} (s : Quota) (a : QuotaAct) (t : Quota)
    (hI : Balanced quotaSize s) (hstep : quotaStep s a = some t) : Balanced quotaSize t := by
  have htotal := s.quotaTotal.toNat_lt
  have hconserved := hI.conserved
  have hcounted := hI.counted
  unfold Quota.held at hconserved
  cases quotaStep_cases hstep with
  | @op i op pc pc' left waiters hpc hop =>
    have hheld := @sum_map_set _ QuotaPc.held _ _ _ hpc pc'
    have hwaits := @sum_map_set _ QuotaPc.waits _ _ _ hpc pc'
    have hholds := @le_sum_map _ QuotaPc.held _ _ _ hpc
    have hcounts := @le_sum_map _ QuotaPc.waits _ _ _ hpc
    -- one thread moves: what it holds and what is left change by the same amount
    obtain ⟨hleft, hwaiters⟩ := hop.conserves (by omega) (by omega)
    refine ⟨hI.total, ?_, ?_⟩
    · show left.toNat + ((s.threads.set i pc').map QuotaPc.held).sum = s.quotaTotal.toNat
      omega
    · show waiters = ((s.threads.set i pc').map QuotaPc.waits).sum
      omega
  | unheard hi hnone =>
    have hheld := @sum_map_set _ QuotaPc.held _ _ _ hi .idle
    have hwaits := @sum_map_set _ QuotaPc.waits _ _ _ hi .idle
    refine ⟨hI.total, ?_, ?_⟩
    · rw [← hI.conserved]
      exact congrArg _ hheld
    · rw [hI.counted]
      exact hwaits.symm
  | heard hi hj =>
    refine ⟨hI.total, ?_, ?_⟩
    · rw [← hI.conserved]
      exact congrArg _ (signal_sums hi hj rfl rfl)
    · rw [hI.counted]
      exact (signal_sums hi hj rfl rfl).symm

theorem QuotaPc.buffer_le_held (pc : QuotaPc) : pc.buffer ≤ pc.held := by
  cases pc <;> simp [QuotaPc.buffer, QuotaPc.held]

theorem buffers_le_held (s : Quota) : s.buffers ≤ s.held :=
  List.sum_le_sum fun pc _ => pc.buffer_le_held

/-- **Quota conservation.** Whatever the threads ask for and in whichever order they move. -/
theorem quota_conserved (quotaSize : UInt64) (n : Nat) (acts : List QuotaAct) (s : Quota)
    (hrun : Run quotaStep (fun _ _ => True) (quotaMemInit quotaSize n) acts s) :
    s.quotaTotal = quotaSize
      ∧ s.quotaLeft.toNat + s.held = s.quotaTotal.toNat
      ∧ s.quotaLeft ≤ s.quotaTotal
      ∧ s.buffers ≤ s.quotaTotal.toNat := by
  have hbalanced : Balanced quotaSize s :=
    hrun.invariant (fun s a t hI _ hstep => hI.step s a t hstep) (Balanced.init quotaSize n)
  have hconserved := hbalanced.conserved
  have hbuffers := buffers_le_held s
  refine ⟨hbalanced.total, hconserved, UInt64.le_iff_toNat_le.mpr (by omega), by omega⟩

/-- Two threads share 10 bytes: one waits for the other's buffer, and its own `malloc` fails. -/
def handOver : List QuotaAct :=
  [.op 0 (.call 6), .op 1 (.call 7), .op 0 .test, .op 1 .test, .op 0 (.malloc true), .op 0 .release,
    .op 0 .free, .signal 0 (some 1), .op 1 .reacquire, .op 1 .test, .op 1 (.malloc false)]

/-- In the end the refund is due. -/
theorem quota_conserved_handOver :
    ∃ s, Run quotaStep (fun _ _ => True) (quotaMemInit 10 2) handOver s
      ∧ s.quotaLeft = 3 ∧ s.held = 7
      ∧ s.quotaLeft.toNat + s.held = s.quotaTotal.toNat := by
  have hrun : Run quotaStep (fun _ _ => True) (quotaMemInit 10 2) handOver
      ⟨10, 3, 0, [.idle, .refund 7]⟩ := exec_iff_run.mp (by decide)
  exact ⟨_, hrun, rfl, rfl, (quota_conserved 10 2 handOver _ hrun).2.1⟩

/-! ## Waiters -/

/-- What will wake a sleeping thread: a buffer or quota that is still to come back, a signal that is
still to be sent, or a woken thread that has not tested again. -/
def QuotaPc.wakes : QuotaPc → Bool
  | .granted _ => true
  | .refund _ => true
  | .live _ => true
  | .released notify => notify
  | .signaling => true
  | .woken _ => true
  | .retry _ again => again
  | _ => false

/-- If a thread sleeps, something will wake it. -/
def NoneStranded (s : Quota) : Prop :=
  (∃ size, .sleeping size ∈ s.threads) → ∃ pc ∈ s.threads, pc.wakes = true

/-- No thread asks for more than `quota_total`, and none refunds while another one sleeps. -/
def Considerate (s : Quota) : QuotaAct → Prop
  | .op _ (.call size) => size ≤ s.quotaTotal
  | .op _ .returnQuota => ∀ size, .sleeping size ∉ s.threads
  | _ => True

/-- What a thread that has not got its share asks for. -/
def QuotaPc.request : QuotaPc → Nat
  | .retry size _ => size.toNat
  | .sleeping size => size.toNat
  | .woken size => size.toNat
  | _ => 0

theorem QuotaPc.wakes_of_held {pc : QuotaPc} (h : 0 < pc.held) : pc.wakes = true := by
  cases pc with
  | granted | refund | live => rfl
  | _ => cases h

section Step

variable {left left' : UInt64} {waiters waiters' : Nat} {pc pc' : QuotaPc} {op : QuotaOp}

/-- A thread asks for what it was called with. -/
theorem OpStep.request (h : OpStep left waiters pc op left' waiters' pc') :
    pc'.request ≤ pc.request ∨ ∃ size, op = .call size ∧ pc'.request = size.toNat := by
  cases h with
  | call size => exact Or.inr ⟨size, rfl, rfl⟩
  | sleep | wakeUp | reacquire => exact Or.inl (Nat.le_refl _)
  | _ => exact Or.inl (Nat.zero_le _)

/-- A step behind which its thread will wake nobody: it went to sleep, or it would not have woken
anybody before either, or it refunded, or it released its buffer while no one was waiting. -/
theorem OpStep.silent (h : OpStep left waiters pc op left' waiters' pc')
    (hsilent : pc'.wakes = false) :
    (∃ size, pc' = .sleeping size ∧ left' = left ∧ ¬ size ≤ left)
      ∨ ((∀ size, pc' ≠ .sleeping size)
        ∧ (pc.wakes = false ∨ op = .returnQuota ∨ waiters = 0)) := by
  cases h with
  | call size => exact Or.inr ⟨fun _ => nofun, Or.inl rfl⟩
  | sleep size again hmore => exact Or.inl ⟨size, rfl, rfl, hmore⟩
  | returnQuota size => exact Or.inr ⟨fun _ => nofun, Or.inr (Or.inl rfl)⟩
  | release size =>
    have hnone : (waiters != 0) = false := hsilent
    exact Or.inr ⟨fun _ => nofun, Or.inr (Or.inr (bne_eq_false_iff_eq.mp hnone))⟩
  | freed => exact Or.inr ⟨fun _ => nofun, Or.inl rfl⟩
  | _ => cases hsilent

end Step

/-- The invariant of the runs in question. -/
structure Attended (quotaSize : UInt64) (s : Quota) : Prop where
  balanced : Balanced quotaSize s
  fits : ∀ pc ∈ s.threads, pc.request ≤ quotaSize.toNat
  attended : NoneStranded s

theorem Attended.init (quotaSize : UInt64) (n : Nat) :
    Attended quotaSize (quotaMemInit quotaSize n) := by
  have hidle : ∀ pc ∈ (quotaMemInit quotaSize n).threads, pc = .idle :=
    fun pc hpc => List.eq_of_mem_replicate hpc
  refine ⟨.init quotaSize n, fun pc hpc => ?_, ?_⟩
  · rw [hidle pc hpc]
    exact Nat.zero_le _
  · rintro ⟨size, hmem⟩
    cases hidle _ hmem

/-- When a request does not fit, some thread holds quota. -/
theorem Balanced.holder {quotaSize : UInt64} {s : Quota} (hI : Balanced quotaSize s) {size : UInt64}
    (hfits : size.toNat ≤ quotaSize.toNat) (hlt : ¬ size ≤ s.quotaLeft) :
    ∃ pc ∈ s.threads, pc.wakes = true := by
  have hlt' : s.quotaLeft.toNat < size.toNat := by
    rw [UInt64.le_iff_toNat_le] at hlt
    omega
  have hconserved := hI.conserved
  rw [hI.total] at hconserved
  have hheld : 0 < s.held := by omega
  obtain ⟨n, hn, hpos⟩ := List.sum_pos_iff_exists_pos_nat.mp hheld
  obtain ⟨pc, hpc, rfl⟩ := List.mem_map.mp hn
  exact ⟨pc, hpc, QuotaPc.wakes_of_held hpos⟩

/-- A thread that sleeps is counted. -/
theorem Balanced.waiters_pos {quotaSize : UInt64} {s : Quota} (hI : Balanced quotaSize s)
    {size : UInt64} (hmem : .sleeping size ∈ s.threads) : s.quotaWaiters ≠ 0 := by
  obtain ⟨i, hi⟩ := List.mem_iff_getElem?.mp hmem
  have hle := @le_sum_map _ QuotaPc.waits _ _ _ hi
  have hone : QuotaPc.waits (.sleeping size) = 1 := rfl
  rw [hI.counted]
  omega

theorem NoneStranded.op {quotaSize : UInt64} {s : Quota} (hI : Attended quotaSize s) {i : Nat}
    {op : QuotaOp} {pc pc' : QuotaPc} {left : UInt64} {waiters : Nat}
    (hG : Considerate s (.op i op)) (hpc : s.threads[i]? = some pc)
    (hop : OpStep s.quotaLeft s.quotaWaiters pc op left waiters pc')
    (hbalanced : Balanced quotaSize { s with
      quotaLeft := left
      quotaWaiters := waiters
      threads := s.threads.set i pc' })
    (hfits : pc'.request ≤ quotaSize.toNat) :
    NoneStranded { s with
      quotaLeft := left
      quotaWaiters := waiters
      threads := s.threads.set i pc' } := by
  have hi : i < s.threads.length := (List.getElem?_eq_some_iff.mp hpc).1
  have hmem' : pc' ∈ s.threads.set i pc' := List.mem_set hi pc'
  rintro ⟨size, hsleeps⟩
  by_cases hwakes : pc'.wakes = true
  · exact ⟨pc', hmem', hwakes⟩
  rcases hop.silent (Bool.eq_false_iff.mpr hwakes) with
    ⟨size, rfl, rfl, hlt⟩ | ⟨hawake, hcases⟩
  · exact hbalanced.holder hfits hlt
  -- the thread that moved is not asleep, so the one that is was asleep before
  have hsleeps : .sleeping size ∈ s.threads :=
    (List.mem_or_eq_of_mem_set hsleeps).resolve_right fun h => hawake size h.symm
  obtain ⟨waker, hwaker, hw⟩ := hI.attended ⟨size, hsleeps⟩
  obtain ⟨j, hj⟩ := List.mem_iff_getElem?.mp hwaker
  by_cases hij : i = j
  · -- the thread that moved was the one to wake it
    subst hij
    obtain rfl : pc = waker := Option.some.inj (hpc.symm.trans hj)
    rcases hcases with hno | rfl | hnone
    · rw [hw] at hno
      cases hno
    · exact absurd hsleeps (hG size)
    · exact absurd hnone (hI.balanced.waiters_pos hsleeps)
  · refine ⟨waker, List.mem_iff_getElem?.mpr ⟨j, ?_⟩, hw⟩
    show (s.threads.set i pc')[j]? = some waker
    rw [List.getElem?_set_ne hij, hj]

theorem Attended.step {quotaSize : UInt64} (s : Quota) (a : QuotaAct) (t : Quota)
    (hI : Attended quotaSize s) (hG : Considerate s a) (hstep : quotaStep s a = some t) :
    Attended quotaSize t := by
  have hbalanced := hI.balanced.step s a t hstep
  cases quotaStep_cases hstep with
  | @op i op pc pc' left waiters hpc hop =>
    have hfits : pc'.request ≤ quotaSize.toNat := by
      rcases hop.request with hle | ⟨size, rfl, hsize⟩
      · exact Nat.le_trans hle (hI.fits pc (List.mem_of_getElem? hpc))
      · rw [hsize, ← hI.balanced.total]
        exact UInt64.le_iff_toNat_le.mp hG
    refine ⟨hbalanced, fun q hq => ?_, NoneStranded.op hI hG hpc hop hbalanced hfits⟩
    rcases List.mem_or_eq_of_mem_set hq with hq | rfl
    · exact hI.fits q hq
    · exact hfits
  | unheard hi hnone =>
    refine ⟨hbalanced, fun q hq => ?_, ?_⟩
    · rcases List.mem_or_eq_of_mem_set hq with hq | rfl
      · exact hI.fits q hq
      · exact Nat.zero_le _
    · rintro ⟨size, hsleeps⟩
      rcases List.mem_or_eq_of_mem_set hsleeps with hsleeps | hidle
      · exact absurd hsleeps (hnone size)
      · cases hidle
  | @heard i j size hi hj =>
    have hlen : j < (s.threads.set i .idle).length := by
      rw [List.length_set]
      exact (List.getElem?_eq_some_iff.mp hj).1
    refine ⟨hbalanced, fun q hq => ?_, fun _ => ⟨_, List.mem_set hlen _, rfl⟩⟩
    -- the woken thread still asks for what it asked for asleep
    rcases List.mem_or_eq_of_mem_set hq with hq | rfl
    · rcases List.mem_or_eq_of_mem_set hq with hq | rfl
      · exact hI.fits q hq
      · exact Nat.zero_le _
    · have hsleeper := hI.fits _ (List.mem_of_getElem? hj)
      exact hsleeper

/-- **No stranded waiter**, in every run in which no thread asks for more than there is and none
refunds while another one sleeps. -/
theorem no_stranded_waiter (quotaSize : UInt64) (n : Nat) (acts : List QuotaAct) (s : Quota)
    (hrun : Run quotaStep Considerate (quotaMemInit quotaSize n) acts s) : NoneStranded s :=
  (hrun.invariant Attended.step (Attended.init quotaSize n)).attended

/-- In the middle of the exchange above all quota is back and one thread sleeps, but the signal is
on its way. -/
theorem no_stranded_waiter_handOver :
    ∃ s, Run quotaStep Considerate (quotaMemInit 10 2) (handOver.take 7) s
      ∧ s.quotaLeft = 10 ∧ .sleeping 7 ∈ s.threads ∧ NoneStranded s := by
  have hrun : Run quotaStep Considerate (quotaMemInit 10 2) (handOver.take 7)
      ⟨10, 10, 1, [.signaling, .sleeping 7]⟩ := by
    refine .cons rfl (show (6 : UInt64) ≤ 10 by decide)
      (.cons rfl (show (7 : UInt64) ≤ 10 by decide) (.cons rfl trivial (.cons rfl trivial ?_)))
    exact .cons rfl trivial (.cons rfl trivial (.cons rfl trivial (.nil _)))
  exact ⟨_, hrun, rfl, by decide, no_stranded_waiter 10 2 _ _ hrun⟩

/-- A thread gets all of the quota, another one goes to sleep, the `malloc` fails: the quota comes
back, nobody is told, and the other thread sleeps on. -/
theorem refund_strands_waiter :
    ∃ s, Run quotaStep
        (fun s a => match a with
          | .op _ (.call size) => size ≤ s.quotaTotal
          | _ => True)
        (quotaMemInit 10 2)
        [.op 0 (.call 10), .op 0 .test, .op 1 (.call 1), .op 1 .test, .op 0 (.malloc false),
          .op 0 .returnQuota] s
      ∧ s.quotaLeft = s.quotaTotal ∧ ¬ NoneStranded s := by
  refine ⟨⟨10, 10, 1, [.idle, .sleeping 1]⟩, ?_, rfl, fun h => ?_⟩
  · refine .cons rfl (show (10 : UInt64) ≤ 10 by decide) (.cons rfl trivial
      (.cons rfl (show (1 : UInt64) ≤ 10 by decide) (.cons rfl trivial ?_)))
    exact .cons rfl trivial (.cons rfl trivial (.nil _))
  · obtain ⟨pc, hpc, hwakes⟩ := h ⟨1, by decide⟩
    revert pc
    decide

end Estuary
