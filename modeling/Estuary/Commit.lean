import Estuary.Document
import Estuary.Survive
import Mathlib.Algebra.Order.BigOperators.Group.List
import Mathlib.Algebra.Order.Group.Nat

/-!
# Estuary — the commit of a multipart upload

The commit loop sends the buffered document and decides from `manager.remaining` alone, the number
of bytes that have not been pulled: whether to try again, and whether the commit succeeded. The
status of an attempt only reaches the log.

* **`takenBy`** — the bytes an attempt pulls, from its buffer sizes and the block boundaries;
* **`pullCommit_spec`** — an attempt sends the next bytes of the document, and no attempt sends
  what an earlier one has taken;
* **`commit_body_streamed`** — pulled to the end, the body is the document;
* **`commitLoop_spec`** — which attempts are made, and when nothing is left;
* **`commit_acknowledged_iff`** — so the upload returns 0 only for an acknowledged document
  exactly when the attempt that takes the last byte took the first one, too, was answered with
  `S3StatusOK`, and the buffered document is whole.
-/

namespace Estuary

open Engine

/-! ## One attempt -/

/-- The position in a document of `total` bytes after pulls of these buffer sizes: a pull ends at
the latest at the next block boundary. -/
def takenBy (total : Nat) : List Nat → Nat → Nat
  | [], pos => pos
  | bufferSize :: pulls, pos =>
    takenBy total pulls (pos + min bufferSize (min (blockSize - pos % blockSize) (total - pos)))

theorem le_takenBy (total : Nat) (pulls : List Nat) (pos : Nat) : pos ≤ takenBy total pulls pos := by
  induction pulls generalizing pos with
  | nil => exact Nat.le_refl _
  | cons bufferSize pulls ih => exact Nat.le_trans (Nat.le_add_right _ _) (ih _)

theorem takenBy_le {total pos : Nat} (pulls : List Nat) (h : pos ≤ total) :
    takenBy total pulls pos ≤ total := by
  induction pulls generalizing pos with
  | nil => exact h
  | cons bufferSize pulls ih => exact ih (by omega)

/-- `pos` of the `total` counted bytes of the buffer `buffered` have been taken. -/
structure Streaming (total : Nat) (buffered : List Char) (pos : Nat) (manager : UploadManager) :
    Prop where
  bytes : gbBytes manager.gb = buffered.drop pos
  sized : Sized buffered.length manager.gb pos
  remaining : manager.remaining = total - pos
  pos_le : pos ≤ total
  total_le : total ≤ buffered.length

theorem commitCallback_spec {total pos : Nat} {buffered : List Char} {manager : UploadManager}
    (h : Streaming total buffered pos manager) (bufferSize : Nat) :
    (multipartCommitResponseCallback bufferSize manager).2
        = (buffered.drop pos).take
          (min bufferSize (min (blockSize - pos % blockSize) (total - pos)))
      ∧ Streaming total buffered
        (pos + min bufferSize (min (blockSize - pos % blockSize) (total - pos)))
        (multipartCommitResponseCallback bufferSize manager).1 := by
  obtain ⟨hbytes, hsized, hrem, hpos, htotal⟩ := h
  unfold multipartCommitResponseCallback
  by_cases hdone : manager.remaining = 0
  · have hzero : min bufferSize (min (blockSize - pos % blockSize) (total - pos)) = 0 := by omega
    rw [hzero, if_neg (not_not_intro hdone)]
    exact ⟨rfl, ⟨hbytes, hsized, hrem, hpos, htotal⟩⟩
  rw [if_pos hdone]
  generalize htoRead : (if manager.remaining > bufferSize then bufferSize
    else manager.remaining) = toRead
  have hmin : toRead = min bufferSize (total - pos) := by
    rw [← htoRead, hrem]
    split <;> omega
  have hread := growbufferRead_bytes manager.gb toRead
  obtain ⟨hlen, hsized'⟩ := growbufferRead_length hsized toRead
  have hlen' : (growbufferRead manager.gb toRead).2.length
      = min bufferSize (min (blockSize - pos % blockSize) (total - pos)) := by
    rw [hlen, hmin]
    omega
  rw [hbytes] at hread
  rw [hlen'] at hsized'
  have hpiece : (growbufferRead manager.gb toRead).2
      = (buffered.drop pos).take
        (min bufferSize (min (blockSize - pos % blockSize) (total - pos))) := by
    rw [hread, ← hlen', List.take_left]
  have hrest : gbBytes (growbufferRead manager.gb toRead).1
      = buffered.drop (pos + min bufferSize (min (blockSize - pos % blockSize) (total - pos))) := by
    rw [← List.drop_drop, hread, ← hlen', List.drop_left]
  refine ⟨hpiece, ⟨hrest, hsized', ?_, by omega, htotal⟩⟩
  show manager.remaining - (growbufferRead manager.gb toRead).2.length = _
  rw [hlen', hrem]
  omega

/-- **An attempt** sends the bytes from where the previous one stopped. -/
theorem pullCommit_spec {total pos : Nat} {buffered : List Char} {manager : UploadManager}
    (h : Streaming total buffered pos manager) (pulls : List Nat) :
    (pullCommit pulls manager).2 = (buffered.drop pos).take (takenBy total pulls pos - pos)
      ∧ Streaming total buffered (takenBy total pulls pos) (pullCommit pulls manager).1 := by
  induction pulls generalizing pos manager with
  | nil =>
    rw [takenBy, Nat.sub_self, List.take_zero]
    exact ⟨rfl, h⟩
  | cons bufferSize pulls ih =>
    obtain ⟨hpiece, hnext⟩ := commitCallback_spec h bufferSize
    obtain ⟨hrest, hend⟩ := ih hnext
    simp only [pullCommit, takenBy]
    refine ⟨?_, hend⟩
    rw [hpiece, hrest]
    generalize hn : min bufferSize (min (blockSize - pos % blockSize) (total - pos)) = n
    have hle := le_takenBy total pulls (pos + n)
    rw [← List.drop_drop, show takenBy total pulls (pos + n) - pos
        = n + (takenBy total pulls (pos + n) - (pos + n)) from by omega, List.take_add]

/-- A buffer with the sum counted for it, before the first pull. -/
theorem Counted.streaming {acc : AppendResult} (hacc : Counted acc) (manager : UploadManager) :
    Streaming acc.ret (gbBytes acc.gb) 0 { manager with gb := acc.gb, remaining := acc.ret } := by
  have hsized := hacc.packed.sized (Nat.zero_mod blockSize)
  rw [Nat.zero_add] at hsized
  exact ⟨rfl, hsized, rfl, Nat.zero_le _, hacc.ret_le⟩

/-! ## Pulling to the end -/

/-- With `rest` still to be delivered, the callback offers something while there is something, and
then nothing any more. -/
structure Delivering (manager : UploadManager) (rest : List Char) : Prop where
  remaining : manager.remaining = rest.length
  bounded : ∀ bufferSize,
    (multipartCommitResponseCallback bufferSize manager).2.length ≤ bufferSize
  offers : rest ≠ [] → ∀ bufferSize, 0 < bufferSize →
    1 ≤ (multipartCommitResponseCallback bufferSize manager).2.length
  ended : rest = [] →
    manager.gb = [] ∧ ∀ bufferSize, multipartCommitResponseCallback bufferSize manager = (manager, [])

/-- Every pull into a buffer takes a byte, as long as there is one. -/
theorem takenBy_progress {total : Nat} {pulls : List Nat} (hpulls : ∀ n ∈ pulls, 0 < n) (pos : Nat)
    (hpos : pos ≤ total) : min total (pos + pulls.length) ≤ takenBy total pulls pos := by
  induction pulls generalizing pos with
  | nil => exact Nat.min_le_right _ _
  | cons bufferSize pulls ih =>
    have hfirst := hpulls bufferSize (List.mem_cons_self ..)
    have hroom : 0 < blockSize - pos % blockSize := by
      have := Nat.mod_lt pos blockSize_pos
      omega
    have hrest := ih (fun n hn => hpulls n (List.mem_cons_of_mem _ hn))
      (pos + min bufferSize (min (blockSize - pos % blockSize) (total - pos))) (by omega)
    rw [takenBy, List.length_cons]
    omega

/-- A whole document, of which `pos` bytes have been taken. -/
theorem Streaming.delivering {doc : List Char} {pos : Nat} {manager : UploadManager}
    (h : Streaming doc.length doc pos manager) : Delivering manager (doc.drop pos) := by
  have hlen := fun bufferSize => congrArg List.length (commitCallback_spec h bufferSize).1
  simp only [List.length_take, List.length_drop] at hlen
  have hroom : 0 < blockSize - pos % blockSize := by
    have := Nat.mod_lt pos blockSize_pos
    omega
  have hleft : (doc.drop pos).length = doc.length - pos := List.length_drop
  refine ⟨h.remaining.trans hleft.symm, fun bufferSize => ?_, fun hrest bufferSize hpos => ?_,
    fun hrest => ⟨?_, fun bufferSize => ?_⟩⟩
  · rw [hlen]
    omega
  · have hne : 0 < (doc.drop pos).length := List.length_pos_iff.mpr hrest
    rw [hlen]
    omega
  · have hsized := h.sized
    cases hgb : manager.gb with
    | nil => rfl
    | cons b gb =>
      rw [hgb] at hsized
      rw [List.length_eq_zero_iff.mpr hrest] at hleft
      have := hsized.1
      omega
  · rw [List.length_eq_zero_iff.mpr hrest] at hleft
    rw [multipartCommitResponseCallback, if_neg (not_not_intro (by rw [h.remaining]; omega))]

/-- **Commit body streaming.** However the document was appended and however it is pulled: what was
delivered and what is left make up the document, the callback offers something until nothing is
left, and as many pulls as there are bytes deliver everything. -/
theorem commit_body_streamed (mallocs : Nat → Bool) (pieces : List (List Char))
    (manager : UploadManager) (pulls : List Nat)
    (halloc : Allocates mallocs ⟨[], 0, 0⟩ pieces.flatten.length)
    (hgb : manager.gb = (appendAll mallocs pieces ⟨[], 0, 0⟩).gb)
    (hremaining : manager.remaining = pieces.flatten.length) (hpulls : ∀ n ∈ pulls, 0 < n) :
    ∃ rest, (pullCommit pulls manager).2 ++ rest = pieces.flatten
      ∧ Delivering (pullCommit pulls manager).1 rest
      ∧ (pieces.flatten.length ≤ pulls.length → rest = []) := by
  obtain ⟨hbytes, hret⟩ := appendAll_ok counted_nil halloc
  have hbytes : gbBytes (appendAll mallocs pieces ⟨[], 0, 0⟩).gb = pieces.flatten := hbytes
  rw [Nat.zero_add] at hret
  have hstart := (@Counted.all mallocs pieces _ counted_nil).streaming manager
  rw [hbytes, hret, ← hgb, ← hremaining] at hstart
  have hstart : Streaming pieces.flatten.length pieces.flatten 0 manager := by
    rw [← hremaining]
    exact hstart
  obtain ⟨hbody, hend⟩ := pullCommit_spec hstart pulls
  rw [List.drop_zero, Nat.sub_zero] at hbody
  refine ⟨pieces.flatten.drop (takenBy pieces.flatten.length pulls 0), ?_, hend.delivering, ?_⟩
  · rw [hbody, List.take_append_drop]
  · intro hmany
    have hprogress := takenBy_progress hpulls 0 (Nat.zero_le pieces.flatten.length)
    rw [List.drop_eq_nil_iff]
    omega

/-- Two pieces, pulled byte by byte. -/
theorem commit_body_streamed_bytewise :
    ∃ rest, (pullCommit [1, 1, 1] ⟨none, fun _ => none, 0,
        (appendAll (fun _ => true) [['a', 'b'], ['c']] ⟨[], 0, 0⟩).gb, 3⟩).2 ++ rest
        = ['a', 'b', 'c'] ∧ rest = [] := by
  obtain ⟨rest, hbody, -, hall⟩ := commit_body_streamed (fun _ => true) [['a', 'b'], ['c']]
    ⟨none, fun _ => none, 0, (appendAll (fun _ => true) [['a', 'b'], ['c']] ⟨[], 0, 0⟩).gb, 3⟩
    [1, 1, 1] (fun _ _ => rfl) rfl rfl (by decide)
  exact ⟨rest, hbody, hall (by decide)⟩

/-! ## The loop -/

/-- The position before attempt `k`. -/
def commitPos (total : Nat) (commits : Nat → CommitAttempt) : Nat → Nat
  | 0 => 0
  | k + 1 => takenBy total (commits k).pulls (commitPos total commits k)

theorem commitPos_le (total : Nat) (commits : Nat → CommitAttempt) (k : Nat) :
    commitPos total commits k ≤ total := by
  induction k with
  | zero => exact Nat.zero_le _
  | succ k ih => exact takenBy_le _ ih

/-- Attempt `k` is made after attempt `i`: every attempt from `i` up to it left a number of bytes
that `S3_status_is_retryable` takes for a retryable status. -/
def MadeAfter (lib : LibS3) (total : Nat) (commits : Nat → CommitAttempt) (i k : Nat) : Prop :=
  ∀ j, i ≤ j → j < k → lib.statusIsRetryable (total - commitPos total commits (j + 1)) = true

/-- The log entry of attempt `k`. -/
def commitEvent (name uploadId : CString) (total : Nat) (buffered : List Char)
    (commits : Nat → CommitAttempt) (k : Nat) : Event :=
  .completeMultipart name uploadId (total - commitPos total commits k)
    ((buffered.drop (commitPos total commits k)).take
      (commitPos total commits (k + 1) - commitPos total commits k))
    (commits k).status (commits k).stored

/-- Nothing left is no retryable status. -/
theorem not_retryable_zero (lib : LibS3) : ¬ lib.statusIsRetryable 0 = true := by
  rw [show (0 : Nat) = s3StatusOK from rfl, lib.ok_not_retryable]
  exact Bool.false_ne_true

theorem madeAfter_self (lib : LibS3) (total : Nat) (commits : Nat → CommitAttempt) (i : Nat) :
    MadeAfter lib total commits i i := fun j hij hji => absurd hij (by omega)

theorem madeAfter_succ {lib : LibS3} {total : Nat} {commits : Nat → CommitAttempt} {i k : Nat}
    (hik : i < k) :
    MadeAfter lib total commits i k
      ↔ lib.statusIsRetryable (total - commitPos total commits (i + 1)) = true
        ∧ MadeAfter lib total commits (i + 1) k := by
  constructor
  · exact fun h => ⟨h i (Nat.le_refl i) hik, fun j hij hjk => h j (by omega) hjk⟩
  · rintro ⟨hi, h⟩ j hij hjk
    rcases Nat.eq_or_lt_of_le hij with rfl | hlt
    · exact hi
    · exact h j hlt hjk

/-- Where attempt `i` is the last one, there is nothing else to choose from. -/
theorem made_last {lib : LibS3} {total : Nat} {commits : Nat → CommitAttempt} {budget i : Nat}
    {P : Nat → Prop} (hlast : budget = 0
      ∨ ¬ lib.statusIsRetryable (total - commitPos total commits (i + 1)) = true) :
    (∃ k, i ≤ k ∧ k ≤ i + budget ∧ MadeAfter lib total commits i k ∧ P k) ↔ P i := by
  constructor
  · rintro ⟨k, hik, hki, hmade, hk⟩
    rcases Nat.eq_or_lt_of_le hik with rfl | hlt
    · exact hk
    · rcases hlast with rfl | hstop
      · omega
      · exact absurd ((madeAfter_succ hlt).mp hmade).1 hstop
  · exact fun h => ⟨i, Nat.le_refl i, Nat.le_add_right i budget, madeAfter_self _ _ _ _, h⟩

/-- Where another attempt follows, it is attempt `i` or one of those from the next one on. -/
theorem made_more {lib : LibS3} {total : Nat} {commits : Nat → CommitAttempt} {budget i : Nat}
    {P : Nat → Prop}
    (hretry : lib.statusIsRetryable (total - commitPos total commits (i + 1)) = true) :
    (∃ k, i ≤ k ∧ k ≤ i + (budget + 1) ∧ MadeAfter lib total commits i k ∧ P k)
      ↔ P i ∨ ∃ k, i + 1 ≤ k ∧ k ≤ i + 1 + budget ∧ MadeAfter lib total commits (i + 1) k ∧ P k := by
  constructor
  · rintro ⟨k, hik, hki, hmade, hk⟩
    rcases Nat.eq_or_lt_of_le hik with rfl | hlt
    · exact .inl hk
    · exact .inr ⟨k, hlt, by omega, ((madeAfter_succ hlt).mp hmade).2, hk⟩
  · rintro (h | ⟨k, hik, hki, hmade, hk⟩)
    · exact ⟨i, Nat.le_refl i, by omega, madeAfter_self _ _ _ _, h⟩
    · exact ⟨k, by omega, by omega, (madeAfter_succ hik).mpr ⟨hretry, hmade⟩, hk⟩

/-- What attempt `i` sends, and what it leaves: nothing exactly if it takes the last byte. -/
theorem commitRound_spec (name uploadId : CString) (commits : Nat → CommitAttempt) {total : Nat}
    {buffered : List Char} {i : Nat} {manager : UploadManager}
    (h : Streaming total buffered (commitPos total commits i) manager) :
    .completeMultipart name uploadId manager.remaining (pullCommit (commits i).pulls manager).2
          (commits i).status (commits i).stored
        = commitEvent name uploadId total buffered commits i
      ∧ Streaming total buffered (commitPos total commits (i + 1))
          (pullCommit (commits i).pulls manager).1
      ∧ ((pullCommit (commits i).pulls manager).1.remaining = 0
          ↔ commitPos total commits (i + 1) = total) := by
  obtain ⟨hbody, hnext⟩ := pullCommit_spec h (commits i).pulls
  have hleft : (pullCommit (commits i).pulls manager).1.remaining
      = total - commitPos total commits (i + 1) := hnext.remaining
  have hle := commitPos_le total commits (i + 1)
  refine ⟨?_, hnext, ?_⟩
  · rw [hbody, h.remaining]
    rfl
  · rw [hleft]
    omega

/-- **The commit loop**: which attempts it makes, and when it ends with nothing left. -/
theorem commitLoop_spec (lib : LibS3) (name uploadId : CString) (commits : Nat → CommitAttempt)
    {total : Nat} {buffered : List Char} (budget i : Nat) {manager : UploadManager}
    (h : Streaming total buffered (commitPos total commits i) manager) :
    ∃ manager', (commitLoop lib name uploadId commits budget i manager).out = .done manager'
      ∧ (manager'.remaining = 0 ↔ ∃ k, i ≤ k ∧ k ≤ i + budget
          ∧ MadeAfter lib total commits i k ∧ commitPos total commits (k + 1) = total)
      ∧ ∀ e, e ∈ (commitLoop lib name uploadId commits budget i manager).log
          ↔ ∃ k, i ≤ k ∧ k ≤ i + budget ∧ MadeAfter lib total commits i k
            ∧ e = commitEvent name uploadId total buffered commits k := by
  induction budget generalizing i manager with
  | zero =>
    obtain ⟨hevent, -, hdone⟩ := commitRound_spec name uploadId commits h
    rw [commitLoop]
    simp only [ite_self, Exec.emit_bind, Exec.pure_out, Exec.pure_log, hevent]
    refine ⟨_, rfl, ?_, fun e => ?_⟩
    · rw [made_last (.inl rfl)]
      exact hdone
    · rw [made_last (.inl rfl)]
      exact List.mem_singleton
  | succ budget ih =>
    obtain ⟨hevent, hnext, hdone⟩ := commitRound_spec name uploadId commits h
    rw [commitLoop]
    simp only [Exec.emit_bind, hevent, hnext.remaining]
    by_cases hretry : lib.statusIsRetryable (total - commitPos total commits (i + 1)) = true
    · -- another attempt: something is left, because 0 is not a retryable status
      have hne : commitPos total commits (i + 1) ≠ total := by
        intro heq
        rw [heq, Nat.sub_self] at hretry
        exact not_retryable_zero lib hretry
      obtain ⟨manager', hout, hzero, hlog⟩ := ih (i + 1) hnext
      simp only [hretry, if_true]
      refine ⟨manager', hout, ?_, fun e => ?_⟩
      · rw [hzero, made_more hretry, or_iff_right hne]
      · rw [List.mem_cons, hlog, made_more hretry]
    · -- the loop ends here
      simp only [hretry, Bool.false_eq_true, if_false, Exec.pure_out, Exec.pure_log]
      refine ⟨_, rfl, ?_, fun e => ?_⟩
      · rw [made_last (.inr hretry)]
        exact hdone
      · rw [made_last (.inr hretry)]
        exact List.mem_singleton

/-- An attempt that takes everything is the last one. -/
theorem commitLoop_first (lib : LibS3) (name uploadId : CString) {commits : Nat → CommitAttempt}
    {total : Nat} {buffered : List Char} (budget : Nat) {manager : UploadManager}
    (h : Streaming total buffered 0 manager) (hall : commitPos total commits 1 = total) :
    ∃ manager', commitLoop lib name uploadId commits budget 0 manager
        = ⟨[commitEvent name uploadId total buffered commits 0], .done manager'⟩
      ∧ manager'.remaining = 0 := by
  obtain ⟨hbody, hnext⟩ := pullCommit_spec h (commits 0).pulls
  have hleft : (pullCommit (commits 0).pulls manager).1.remaining = 0 := by
    rw [hnext.remaining, show takenBy total (commits 0).pulls 0 = commitPos total commits 1 from rfl,
      hall, Nat.sub_self]
  have hstop : lib.statusIsRetryable 0 = false := lib.ok_not_retryable
  refine ⟨(pullCommit (commits 0).pulls manager).1, ?_, hleft⟩
  rw [commitLoop.eq_def]
  simp only [Exec.emit_bind, hleft, hstop, hbody, h.remaining]
  rfl

/-! ## The commit phase -/

/-- The buffer before the first attempt. -/
theorem streaming_start (env : ArchiveDataBigEnv) (totalSeq : Nat) (manager : UploadManager) :
    Streaming (buildDocument env.mallocs env.stack totalSeq manager.etags).ret
      (gbBytes (buildDocument env.mallocs env.stack totalSeq manager.etags).gb) 0
      { manager with
        gb := (buildDocument env.mallocs env.stack totalSeq manager.etags).gb
        remaining := (buildDocument env.mallocs env.stack totalSeq manager.etags).ret } :=
  (buildDocument_counted env.mallocs env.stack totalSeq manager.etags).streaming manager

/-- Attempt `k` takes the last of the `total` counted bytes. -/
def TakesLast (lib : LibS3) (total : Nat) (commits : Nat → CommitAttempt) (k : Nat) : Prop :=
  k ≤ retryCount ∧ MadeAfter lib total commits 0 k ∧ commitPos total commits (k + 1) = total

theorem takesLast_unique {lib : LibS3} {total : Nat} {commits : Nat → CommitAttempt} {k k' : Nat}
    (h : TakesLast lib total commits k) (h' : MadeAfter lib total commits 0 k') : k' ≤ k := by
  by_contra hlt
  have hretry := h' k (Nat.zero_le k) (by omega)
  rw [h.2.2, Nat.sub_self] at hretry
  exact not_retryable_zero lib hretry

section Phase

variable (lib : LibS3) (env : ArchiveDataBigEnv) (name uploadId : CString) (totalSeq : Nat)
  (manager : UploadManager)

/-- The phase returns 0 exactly when an attempt takes the last byte. -/
theorem commitPhase_zero_iff :
    (commitPhase lib env name uploadId totalSeq manager).out = .done 0
      ↔ ∃ k, TakesLast lib (buildDocument env.mallocs env.stack totalSeq manager.etags).ret
          env.commits k := by
  obtain ⟨manager', hout, hzero, -⟩ := @commitLoop_spec lib name uploadId env.commits _ _
    retryCount 0 _ (streaming_start env totalSeq manager)
  have hiff : (∃ k, TakesLast lib
        (buildDocument env.mallocs env.stack totalSeq manager.etags).ret env.commits k)
      ↔ manager'.remaining = 0 := by
    rw [hzero]
    constructor
    · rintro ⟨k, hk, hmade, hlast⟩
      exact ⟨k, Nat.zero_le k, by omega, hmade, hlast⟩
    · rintro ⟨k, -, hk, hmade, hlast⟩
      exact ⟨k, by omega, hmade, hlast⟩
  rw [hiff, commitPhase, Exec.bind_out_of_done hout]
  by_cases h : manager'.remaining = 0
  · simp [h]
  · simp [h, eio]

/-- The entries of the phase are the attempts it makes. -/
theorem mem_commitPhase_log (e : Event) :
    e ∈ (commitPhase lib env name uploadId totalSeq manager).log
      ↔ ∃ k ≤ retryCount,
        MadeAfter lib (buildDocument env.mallocs env.stack totalSeq manager.etags).ret env.commits
            0 k
          ∧ e = commitEvent name uploadId
            (buildDocument env.mallocs env.stack totalSeq manager.etags).ret
            (gbBytes (buildDocument env.mallocs env.stack totalSeq manager.etags).gb)
            env.commits k := by
  obtain ⟨manager', hout, -, hlog⟩ := @commitLoop_spec lib name uploadId env.commits _ _
    retryCount 0 _ (streaming_start env totalSeq manager)
  have htail : (if manager'.remaining ≠ 0 then (pure (-(eio : Int)) : Proc Int)
      else pure 0).log = [] := by
    split <;> rfl
  rw [commitPhase, Exec.bind_log_of_done hout, htail, List.append_nil, hlog]
  constructor
  · rintro ⟨k, -, hk, hmade, he⟩
    exact ⟨k, by omega, hmade, he⟩
  · rintro ⟨k, hk, hmade, he⟩
    exact ⟨k, Nat.zero_le k, by omega, hmade, he⟩

/-- A commit phase whose first attempt takes the whole buffered document makes no other. -/
theorem commitPhase_first
    (hall : commitPos (buildDocument env.mallocs env.stack totalSeq manager.etags).ret env.commits 1
      = (buildDocument env.mallocs env.stack totalSeq manager.etags).ret) :
    (commitPhase lib env name uploadId totalSeq manager).log
      = [commitEvent name uploadId (buildDocument env.mallocs env.stack totalSeq manager.etags).ret
          (gbBytes (buildDocument env.mallocs env.stack totalSeq manager.etags).gb) env.commits 0] := by
  obtain ⟨manager', hloop, hleft⟩ := commitLoop_first lib name uploadId retryCount
    (streaming_start env totalSeq manager) hall
  rw [commitPhase, hloop, Exec.bind_log_of_done rfl, if_neg (not_not_intro hleft)]
  rfl

/-- An attempt sends the whole document exactly when it takes the first and the last byte of a
buffer that holds the whole document. -/
theorem sends_document_iff {k : Nat} (hk : k ≤ retryCount)
    (hmade : MadeAfter lib (buildDocument env.mallocs env.stack totalSeq manager.etags).ret
      env.commits 0 k) :
    ((gbBytes (buildDocument env.mallocs env.stack totalSeq manager.etags).gb).drop
          (commitPos (buildDocument env.mallocs env.stack totalSeq manager.etags).ret env.commits
            k)).take
        (commitPos (buildDocument env.mallocs env.stack totalSeq manager.etags).ret env.commits
            (k + 1)
          - commitPos (buildDocument env.mallocs env.stack totalSeq manager.etags).ret env.commits
            k)
        = document totalSeq manager.etags
      ↔ TakesLast lib (buildDocument env.mallocs env.stack totalSeq manager.etags).ret env.commits k
        ∧ commitPos (buildDocument env.mallocs env.stack totalSeq manager.etags).ret env.commits k
          = 0
        ∧ DocumentAllocates env.mallocs totalSeq manager.etags
        ∧ ETagsFit totalSeq manager.etags := by
  rw [← @counted_bytes_eq_iff env.mallocs env.stack totalSeq manager.etags]
  have hret := @buildDocument_ret_le env.mallocs env.stack totalSeq manager.etags
  generalize (buildDocument env.mallocs env.stack totalSeq manager.etags).ret = total at *
  generalize gbBytes (buildDocument env.mallocs env.stack totalSeq manager.etags).gb = buffered
  have hle := commitPos_le total env.commits (k + 1)
  have hpos := commitPos_le total env.commits k
  constructor
  · intro heq
    have hlen := congrArg List.length heq
    rw [List.length_take] at hlen
    -- the body is as long as the document, so it starts at 0 and ends with the last byte
    have hdoc : 0 < (document totalSeq manager.etags).length := by
      refine List.length_pos_iff.mpr (List.append_ne_nil_of_left_ne_nil ?_ _)
      decide +kernel
    have hstart : commitPos total env.commits k = 0 := by omega
    have hend : commitPos total env.commits (k + 1) = total := by omega
    rw [hstart, hend, List.drop_zero, Nat.sub_zero] at heq
    exact ⟨⟨hk, hmade, hend⟩, hstart, heq⟩
  · rintro ⟨⟨-, -, hend⟩, hstart, heq⟩
    rw [hstart, hend, List.drop_zero, Nat.sub_zero]
    exact heq

end Phase

/-! ## The whole upload -/

section Whole

variable (cfg : Config) (lib : LibS3) (env : ArchiveDataBigEnv) (name : CString)
  (content : List UInt8) (fd : Int) (stSize : Nat) (hai : HsmActionItem)

/-- The upload history reaches the commit phase with this upload id, part count and manager. -/
def ReachesCommit (uploadId : CString) (totalSeq : Nat) (manager : UploadManager) : Prop :=
  env.stripeErr = 0
    ∧ (uploadPhase cfg lib env name content fd stSize (extentLength stSize hai)).out
      = .done (some (uploadId, totalSeq, manager))

variable {cfg lib env name content fd stSize hai}

/-- An upload that reaches the commit phase: the first report, the upload, and then that phase. -/
theorem ctArchiveDataBig_eq {uploadId : CString} {totalSeq : Nat} {manager : UploadManager}
    (h : ReachesCommit cfg lib env name content fd stSize hai uploadId totalSeq manager) :
    ctArchiveDataBig cfg lib env name content fd stSize hai
      = ⟨(llapiHsmActionProgressEx hai.extent.offset 0 (extentLength stSize hai)
            env.progressRcs).log
          ++ ((uploadPhase cfg lib env name content fd stSize (extentLength stSize hai)).log
            ++ (commitPhase lib env name uploadId totalSeq manager).log),
        (commitPhase lib env name uploadId totalSeq manager).out⟩ := by
  obtain ⟨hstripe, hphase⟩ := h
  obtain ⟨err, hout⟩ := progress_out hai.extent.offset 0 (extentLength stSize hai) env.progressRcs
  rw [ctArchiveDataBig, if_neg (not_not_intro hstripe)]
  show (llapiHsmActionProgressEx hai.extent.offset 0 (extentLength stSize hai) env.progressRcs
    >>= fun _ => uploadPhase cfg lib env name content fd stSize (extentLength stSize hai) >>= _)
      = _
  rw [Exec.bind_of_done hout, Exec.bind_of_done hphase]

/-- From the commit phase on, the upload is the commit phase. -/
theorem ctArchiveDataBig_of_commit {uploadId : CString} {totalSeq : Nat} {manager : UploadManager}
    (h : ReachesCommit cfg lib env name content fd stSize hai uploadId totalSeq manager) :
    ∃ before, (∀ e ∈ before, e.isUpload = true)
      ∧ ctArchiveDataBig cfg lib env name content fd stSize hai
        = ⟨before ++ (commitPhase lib env name uploadId totalSeq manager).log,
          (commitPhase lib env name uploadId totalSeq manager).out⟩ := by
  refine ⟨(llapiHsmActionProgressEx hai.extent.offset 0 (extentLength stSize hai)
      env.progressRcs).log ++ (uploadPhase cfg lib env name content fd stSize
        (extentLength stSize hai)).log, fun e he => ?_, ?_⟩
  · rcases List.mem_append.mp he with he | he
    · exact uploads_progress _ _ _ _ e he
    · exact uploads_uploadPhase _ _ _ _ _ _ _ _ e he
  · rw [ctArchiveDataBig_eq h, List.append_assoc]

/-- From the commit phase on, the upload returns 0 exactly when an attempt takes the last byte. -/
theorem ctArchiveDataBig_zero_iff {uploadId : CString} {totalSeq : Nat} {manager : UploadManager}
    (h : ReachesCommit cfg lib env name content fd stSize hai uploadId totalSeq manager) :
    (ctArchiveDataBig cfg lib env name content fd stSize hai).out = .done 0
      ↔ ∃ k, TakesLast lib (buildDocument env.mallocs env.stack totalSeq manager.etags).ret
          env.commits k := by
  obtain ⟨before, -, heq⟩ := ctArchiveDataBig_of_commit h
  rw [heq]
  exact commitPhase_zero_iff ..

/-- An upload that returns 0 has reached the commit phase. -/
theorem reachesCommit_of_zero
    (h : (ctArchiveDataBig cfg lib env name content fd stSize hai).out = .done 0) :
    ∃ uploadId totalSeq manager,
      ReachesCommit cfg lib env name content fd stSize hai uploadId totalSeq manager := by
  unfold ctArchiveDataBig at h
  by_cases hstripe : env.stripeErr = 0
  swap
  · simp [hstripe] at h
  rw [if_neg (not_not_intro hstripe)] at h
  obtain ⟨_, -, h⟩ := Exec.bind_out_done.mp h
  obtain ⟨r, hphase, h⟩ := Exec.bind_out_done.mp h
  cases r with
  | none => simp [eio] at h
  | some r => exact ⟨r.1, r.2.1, r.2.2, hstripe, hphase⟩

/-- Whenever an attempt takes the last of the bytes counted while the document was built: it was
answered with `S3StatusOK`, no attempt before it took anything, and what was built is the whole
document. -/
def CommitSound (lib : LibS3) (env : ArchiveDataBigEnv) (totalSeq : Nat)
    (etags : Nat → Option CString) : Prop :=
  ∀ k, TakesLast lib (buildDocument env.mallocs env.stack totalSeq etags).ret env.commits k →
    (env.commits k).status = s3StatusOK
      ∧ commitPos (buildDocument env.mallocs env.stack totalSeq etags).ret env.commits k = 0
      ∧ DocumentAllocates env.mallocs totalSeq etags
      ∧ ETagsFit totalSeq etags

/-- The upload returns 0 only after an attempt that sent the whole document of the parts and was
answered with `S3StatusOK`. -/
def AcknowledgedOnZero (cfg : Config) (lib : LibS3) (env : ArchiveDataBigEnv) (name : CString)
    (content : List UInt8) (fd : Int) (stSize : Nat) (hai : HsmActionItem) : Prop :=
  (ctArchiveDataBig cfg lib env name content fd stSize hai).out = .done 0 →
    ∃ uploadId totalSeq manager,
      ReachesCommit cfg lib env name content fd stSize hai uploadId totalSeq manager
        ∧ ∃ length stored, .completeMultipart name uploadId length
            (document totalSeq manager.etags) s3StatusOK stored
          ∈ (ctArchiveDataBig cfg lib env name content fd stSize hai).log

end Whole

/-- **When 0 means a committed object**: exactly when every upload history that reaches the commit
phase finds it sound. -/
theorem commit_acknowledged_iff (cfg : Config) (lib : LibS3) (env : ArchiveDataBigEnv)
    (name : CString) (content : List UInt8) (fd : Int) (stSize : Nat) (hai : HsmActionItem) :
    AcknowledgedOnZero cfg lib env name content fd stSize hai
    ↔ ∀ uploadId totalSeq manager,
        ReachesCommit cfg lib env name content fd stSize hai uploadId totalSeq manager →
          CommitSound lib env totalSeq manager.etags := by
  constructor
  · intro hack uploadId totalSeq manager hreach k hlast
    obtain ⟨before, hbefore, heq⟩ := ctArchiveDataBig_of_commit hreach
    have hzero := (ctArchiveDataBig_zero_iff hreach).mpr ⟨k, hlast⟩
    obtain ⟨uploadId', totalSeq', manager', hreach', length, stored, hmem⟩ := hack hzero
    obtain ⟨rfl, rfl, rfl⟩ : uploadId' = uploadId ∧ totalSeq' = totalSeq ∧ manager' = manager := by
      have := hreach'.2.symm.trans hreach.2
      simpa using this
    rw [heq] at hmem
    rcases List.mem_append.mp hmem with hmem | hmem
    · cases hbefore _ hmem
    obtain ⟨k', hk', hmade', hevent⟩ := (mem_commitPhase_log ..).mp hmem
    obtain ⟨-, -, -, hbody, hstatus, -⟩ := Event.completeMultipart.inj hevent
    obtain ⟨hlast', hfirst, halloc, hfit⟩ :=
      (sends_document_iff lib env totalSeq' manager' hk' hmade').mp hbody.symm
    -- only one attempt takes the last byte
    obtain rfl : k' = k :=
      Nat.le_antisymm (takesLast_unique hlast hmade') (takesLast_unique hlast' hlast.2.1)
    exact ⟨hstatus.symm, hfirst, halloc, hfit⟩
  · intro hsound hzero
    obtain ⟨uploadId, totalSeq, manager, hreach⟩ := reachesCommit_of_zero hzero
    obtain ⟨before, -, heq⟩ := ctArchiveDataBig_of_commit hreach
    obtain ⟨k, hlast⟩ := (ctArchiveDataBig_zero_iff hreach).mp hzero
    obtain ⟨hstatus, hfirst, halloc, hfit⟩ := hsound uploadId totalSeq manager hreach k hlast
    refine ⟨uploadId, totalSeq, manager, hreach,
      (buildDocument env.mallocs env.stack totalSeq manager.etags).ret
        - commitPos (buildDocument env.mallocs env.stack totalSeq manager.etags).ret env.commits k,
      (env.commits k).stored, ?_⟩
    rw [heq]
    refine List.mem_append_right _ ((mem_commitPhase_log ..).mpr ⟨k, hlast.1, hlast.2.1, ?_⟩)
    rw [commitEvent, (sends_document_iff lib env totalSeq manager hlast.1 hlast.2.1).mpr
      ⟨hlast, hfirst, halloc, hfit⟩, hstatus]

/-! ## A refused commit -/

/-- On a quiet day, whatever becomes of the commit and of the copies of the ETags: the parts of an
admitted file arrive and the commit phase is reached, with no other ETag than the one there is. -/
theorem reachesCommit_copying (cfg : Config) (lib : LibS3) (name : CString) (content : List UInt8)
    (hai : HsmActionItem) {fd : Int} {stSize : Nat} (copies : Nat → Nat → Bool)
    (commits : Nat → CommitAttempt) (hfd : fd ≠ 0) (hpos : 0 < stSize) (hsize : stSize ≤ maxFileSize) :
    ∃ chunk totalSeq manager, ctGetChunksize stSize = some (chunk, totalSeq)
      ∧ ReachesCommit cfg lib { ArchiveDataBigEnv.copying content copies with commits := commits } name
        content fd stSize hai (cstr ['i', 'd']) totalSeq manager
      ∧ ∀ i, manager.etags i ∈ [none, some (cstr ['t', 'a', 'g'])] := by
  obtain ⟨chunk, totalSeq, hplan, hchunk, hmax, -, hlast, -⟩ := ctGetChunksize_spec hpos hsize
  have hinit := initLoop_out lib name (ArchiveDataBigEnv.copying content copies).inits retryCount 0
  have hid : firstId (ArchiveDataBigEnv.copying content copies).inits retryCount 0
      = some (cstr ['i', 'd']) := rfl
  rw [hid] at hinit
  -- the first attempt at each part succeeds
  have hall : ∀ s, (∀ a ∈ (partTries lib ((ArchiveDataBigEnv.copying content copies).parts s)
        retryCount 0 false).1, Tame fd true a)
      ∧ (partTries lib ((ArchiveDataBigEnv.copying content copies).parts s) retryCount 0 false).2
        = true := by
    intro s
    have hstatus : partStatus lib (false || ((ArchiveDataBigEnv.copying content copies).parts s
        0).properties.isSome) ((ArchiveDataBigEnv.copying content copies).parts s 0) = s3StatusOK := rfl
    rw [show retryCount = 4 + 1 from rfl, partTries, hstatus, lib.ok_not_retryable]
    refine ⟨fun a ha => ⟨fun h => absurd h hfd, fun eTag heTag => ?_⟩, rfl⟩
    rw [List.mem_singleton.mp ha] at heTag
    cases heTag
    exact ⟨by simp, rfl⟩
  obtain ⟨manager, hparts⟩ := @partsLoop_some cfg lib name (cstr ['i', 'd']) content true
    (extentLength stSize hai) chunk (ArchiveDataBigEnv.copying content copies).parts fd stSize
    hchunk hmax totalSeq 1 stSize ⟨some (cstr ['i', 'd']), fun _ => none, 0, [], 0⟩ 0 (by simp)
    (fun _ => hlast) hall
  have hetags : ∀ i, manager.etags i ∈ [none, some (cstr ['t', 'a', 'g'])] := by
    refine partsLoop_manager (I := fun manager => ∀ i, manager.etags i
      ∈ [none, some (cstr ['t', 'a', 'g'])]) hchunk hmax (fun seq i manager h j => ?_) totalSeq 1
      stSize 0 (fun _ => hlast) (fun _ => by simp) hparts
    have hprop : ((ArchiveDataBigEnv.copying content copies).parts seq i).properties
        = some (some (cstr ['t', 'a', 'g'])) := rfl
    simp only [recordETag, hprop, Function.update_apply]
    by_cases hj : j = seq - 1
    · rw [if_pos hj]
      split <;> simp
    · rw [if_neg hj]
      exact h j
  refine ⟨chunk, totalSeq, manager, hplan, ⟨rfl, ?_⟩, hetags⟩
  simp only [uploadPhase, hplan]
  rw [Exec.bind_out_of_done hinit]
  exact Exec.bind_out_of_done hparts _

theorem reachesCommit_smooth (cfg : Config) (lib : LibS3) (name : CString) (content : List UInt8)
    (hai : HsmActionItem) {fd : Int} {stSize : Nat} (commits : Nat → CommitAttempt) (hfd : fd ≠ 0)
    (hpos : 0 < stSize) (hsize : stSize ≤ maxFileSize) :
    ∃ chunk totalSeq manager, ctGetChunksize stSize = some (chunk, totalSeq)
      ∧ ReachesCommit cfg lib { ArchiveDataBigEnv.smooth content with commits := commits } name
        content fd stSize hai (cstr ['i', 'd']) totalSeq manager
      ∧ ∀ i, manager.etags i ∈ [none, some (cstr ['t', 'a', 'g'])] :=
  reachesCommit_copying cfg lib name content hai (fun _ _ => true) commits hfd hpos hsize

/-- The document of 16 parts with that ETag fits into one block. -/
theorem document_length_le {etags : Nat → Option CString}
    (h : ∀ i, etags i ∈ [none, some (cstr ['t', 'a', 'g'])]) :
    (document 16 etags).length ≤ blockSize := by
  have hframe : docOpen.length + docClose.length = 51 := by decide +kernel
  have helement : ∀ i < 16, ∀ eTag ∈ [none, some (cstr ['t', 'a', 'g'])],
      (partElement i eTag).length ≤ 64 := by
    decide +kernel
  have hsum : ((List.range 16).flatMap fun i => partElement i (etags i)).length ≤ 16 * 64 := by
    rw [List.length_flatMap]
    refine Nat.le_trans (List.sum_le_card_nsmul _ 64 fun n hn => ?_) (by simp)
    obtain ⟨i, hi, rfl⟩ := List.mem_map.mp hn
    exact helement i (List.mem_range.mp hi) _ (h i)
  rw [document, List.length_append, List.length_append]
  unfold blockSize
  omega

/-- One pull of a whole block takes that document. -/
theorem takesLast_block (lib : LibS3) (env : ArchiveDataBigEnv) {etags : Nat → Option CString}
    (hpulls : (env.commits 0).pulls = [blockSize])
    (h : ∀ i, etags i ∈ [none, some (cstr ['t', 'a', 'g'])]) :
    TakesLast lib (buildDocument env.mallocs env.stack 16 etags).ret env.commits 0 := by
  refine ⟨Nat.zero_le _, madeAfter_self _ _ _ _, ?_⟩
  have hfits := Nat.le_trans (@buildDocument_ret_le env.mallocs env.stack 16 etags)
    (document_length_le h)
  generalize (buildDocument env.mallocs env.stack 16 etags).ret = total at hfits ⊢
  rw [commitPos, commitPos, hpulls]
  show 0 + min blockSize (min (blockSize - 0 % blockSize) (total - 0)) = total
  rw [Nat.zero_mod]
  omega

/-- A commit that S3 refuses with an internal error, after it has taken the whole document. -/
def ArchiveDataBigEnv.refused (content : List UInt8) : ArchiveDataBigEnv :=
  { ArchiveDataBigEnv.smooth content with
    commits := fun _ => ⟨[blockSize], LibS3.upstream.errorInternalError, false⟩ }

/-- A file of 256 MiB: the only commit attempt is refused, and `ct_archive_data_big` returns 0. -/
theorem refused_commit_returns_zero :
    (ctArchiveDataBig (Config.setup (cstr ['/', 'l']) (cstr ['/', 'l'])) .upstream
        (.refused (List.replicate (2 ^ 28) 0)) (cstr ['f']) (List.replicate (2 ^ 28) 0) 3 (2 ^ 28)
        ⟨.archive, ⟨1, 2, 0⟩, .whole⟩).out = .done 0
      ∧ ¬ AcknowledgedOnZero (Config.setup (cstr ['/', 'l']) (cstr ['/', 'l'])) .upstream
        (.refused (List.replicate (2 ^ 28) 0)) (cstr ['f']) (List.replicate (2 ^ 28) 0) 3 (2 ^ 28)
        ⟨.archive, ⟨1, 2, 0⟩, .whole⟩ := by
  generalize Config.setup (cstr ['/', 'l']) (cstr ['/', 'l']) = cfg
  generalize (List.replicate (2 ^ 28) 0 : List UInt8) = content
  generalize hhai : (⟨.archive, ⟨1, 2, 0⟩, .whole⟩ : HsmActionItem) = hai
  obtain ⟨chunk, totalSeq, manager, hplan, hreach, hetags⟩ :=
    reachesCommit_smooth cfg .upstream (cstr ['f']) content hai
      (ArchiveDataBigEnv.refused content).commits (show (3 : Int) ≠ 0 by decide)
      (show 0 < 2 ^ 28 by decide) (show 2 ^ 28 ≤ maxFileSize by decide +kernel)
  obtain rfl : totalSeq = 16 := by
    have hsixteen : ctGetChunksize (2 ^ 28) = some (2 ^ 24, 16) := by decide +kernel
    rw [hsixteen] at hplan
    cases hplan
    rfl
  have hreach : ReachesCommit cfg .upstream (.refused content) (cstr ['f']) content 3 (2 ^ 28) hai
      (cstr ['i', 'd']) 16 manager := hreach
  obtain ⟨before, hbefore, heq⟩ := ctArchiveDataBig_of_commit hreach
  have hlast := takesLast_block .upstream (.refused content) rfl hetags
  have hzero := (ctArchiveDataBig_zero_iff hreach).mpr ⟨0, hlast⟩
  refine ⟨hzero, fun hack => ?_⟩
  obtain ⟨uploadId, totalSeq, manager', -, length, stored, hmem⟩ := hack hzero
  rw [heq] at hmem
  rcases List.mem_append.mp hmem with hmem | hmem
  · cases hbefore _ hmem
  · obtain ⟨k, -, -, hevent⟩ := (mem_commitPhase_log ..).mp hmem
    obtain ⟨-, -, -, -, hstatus, -⟩ := Event.completeMultipart.inj hevent
    exact absurd hstatus (by show ¬ (0 : Nat) = 65; decide)

end Estuary
