import Estuary.Engine.Retry
import Estuary.Spec.Archive

/-!
# Estuary — the loops that try again

The requests of an upload are each repeated while their outcome is retryable and `RETRYCOUNT` has
not run out. The loops differ in what one attempt does, in what it leaves to the next, and in which
value they take for the outcome; as `retryLoop`s they share everything else.

* **`putLoop_eq_retryLoop`**, **`partLoop_eq_retryLoop`**, **`initLoop_eq_retryLoop`**,
  **`commitLoop_eq_retryLoop`**.
-/

namespace Estuary

open Engine

/-! ## The object, and its parts -/

/-- `data.status != S3StatusOK && S3_status_is_retryable(data.status)`. -/
def putAgain (lib : LibS3) (data : PutObjectCallbackData) : Bool :=
  data.status != s3StatusOK && lib.statusIsRetryable data.status

theorem putLoop_eq_retryLoop (lib : LibS3) (name : CString) (length : Nat)
    (attempts : Nat → PutAttempt) (budget i : Nat) (data : PutObjectCallbackData) :
    putLoop lib name length attempts budget i data
      = retryLoop (fun i => s3PutObject name length (attempts i)) (putAgain lib) budget i data := by
  induction budget generalizing i data with
  | zero =>
    rw [putLoop, retryLoop]
    simp only [ite_self]
    exact Exec.bind_pure _
  | succ budget ih =>
    rw [putLoop, retryLoop]
    congr 1
    funext data'
    rw [← ih]
    by_cases hok : data'.status = s3StatusOK
    · simp [putAgain, hok]
    · by_cases hretry : lib.statusIsRetryable data'.status = true
      · simp [putAgain, hok, hretry]
      · simp [putAgain, hok, hretry]

/-- `S3_status_is_retryable(part_data.put_object_data.status)`. -/
def partAgain (lib : LibS3) (st : PartState) : Bool := lib.statusIsRetryable st.data.status

theorem partLoop_eq_retryLoop (cfg : Config) (lib : LibS3) (name uploadId : CString)
    (content : List UInt8) (etagsAllocated : Bool) (length chunk seq : Nat)
    (partContentLength : Int) (attempts : Nat → PartAttempt) (budget i : Nat) (st : PartState) :
    partLoop cfg lib name uploadId content etagsAllocated length chunk seq partContentLength
        attempts budget i st
      = retryLoop (fun i => partRound cfg lib name uploadId content etagsAllocated length chunk seq
          partContentLength (attempts i)) (partAgain lib) budget i st := by
  induction budget generalizing i st with
  | zero =>
    rw [partLoop, retryLoop]
    simp only [ite_self]
    exact Exec.bind_pure _
  | succ budget ih =>
    rw [partLoop, retryLoop]
    congr 1
    funext st'
    rw [← ih]
    rfl

/-! ## The begin and the end of a multipart upload -/

/-- One `S3_initiate_multipart`: the upload id, if one arrived. -/
def initRound (name : CString) (inits : Nat → Option CString) (i : Nat) (_ : Option CString) :
    Proc (Option CString) := do
  Exec.emit (.initiateMultipart name (initialMultipartResponseCallback (inits i)))
  pure (initialMultipartResponseCallback (inits i))

/-- `S3_status_is_retryable` of the internal error that stands for a missing upload id. -/
def initAgain (lib : LibS3) (uploadId : Option CString) : Bool :=
  lib.statusIsRetryable (if uploadId = none then lib.errorInternalError else 0)

theorem initLoop_eq_retryLoop (lib : LibS3) (name : CString) (inits : Nat → Option CString)
    (budget i : Nat) (s : Option CString) :
    initLoop lib name inits budget i
      = retryLoop (initRound name inits) (initAgain lib) budget i s := by
  induction budget generalizing i s with
  | zero =>
    rw [initLoop, retryLoop, initRound]
    simp only [ite_self]
  | succ budget ih =>
    rw [initLoop, retryLoop, initRound, Exec.bind_assoc]
    simp only [Exec.pure_bind, ← ih]
    rfl

/-- One `S3_complete_multipart_upload`. -/
def commitRound (name uploadId : CString) (commits : Nat → CommitAttempt) (i : Nat)
    (manager : UploadManager) : Proc UploadManager := do
  let (manager', body) := pullCommit (commits i).pulls manager
  Exec.emit (.completeMultipart name uploadId manager.remaining body (commits i).status
    (commits i).stored)
  pure manager'

/-- `S3_status_is_retryable` of the number of bytes left. -/
def commitAgain (lib : LibS3) (manager : UploadManager) : Bool :=
  lib.statusIsRetryable manager.remaining

theorem commitLoop_eq_retryLoop (lib : LibS3) (name uploadId : CString)
    (commits : Nat → CommitAttempt) (budget i : Nat) (manager : UploadManager) :
    commitLoop lib name uploadId commits budget i manager
      = retryLoop (commitRound name uploadId commits) (commitAgain lib) budget i manager := by
  induction budget generalizing i manager with
  | zero =>
    rw [commitLoop, retryLoop, commitRound]
    simp only [ite_self]
  | succ budget ih =>
    rw [commitLoop, retryLoop, commitRound]
    simp only [Exec.bind_assoc, Exec.pure_bind, ← ih]
    rfl

end Estuary
