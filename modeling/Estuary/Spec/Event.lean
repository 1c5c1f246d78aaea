import Estuary.Engine.Exec
import Estuary.Spec.Platform

/-!
# Estuary — what the outside world sees of an item

The modelled functions are `Proc`s: executions (`Engine.Exec`) whose log lists the calls made
to Lustre and to S3, together with the answers, and whose process dies when an `assert`, an
`abort()`, a null dereference or another step without defined behaviour is reached. Everything
the copytool does to the world is in the log: the bytes it sent in a request body, the bytes it
wrote to the restored file and the position it wrote them at, the error value it reported. The
state of the object store and of the restored file are folds over the log.

A few entries record steps inside the copytool that a statement needs to point at: the call of
`ct_action_done` with its error value, the value a data-transfer function returned, and the
path buffer handed to `ct_archive` / `ct_restore`.
-/

namespace Estuary

open Engine

/-- Why the process died. What C leaves undefined counts as a death: nothing is known of what comes
after it. -/
inductive Death where
  | assertFailed
  | abortCalled
  | nullDereference
  | endlessLoop
  | missingArgument     -- a format directive without its argument
  | bufferOverflow      -- a `sprintf` past the end of its array
  deriving DecidableEq, Repr

/-- A `char[PATH_MAX]` on the stack: written by `llapi_fid2path`, or left as it was found. -/
inductive PathBuf where
  | fid2path (path : CString)
  | unset (memory : CString)
  deriving DecidableEq, Repr

/-- The string a reader of the buffer gets. -/
def PathBuf.read : PathBuf → CString
  | .fid2path path => path
  | .unset memory => memory

inductive Event where
  -- `llapi_fid2path` on the item's FID, with its error number (0 on success).
  | fid2path (err : Nat)
  -- `ct_archive` or `ct_restore` is called with this path buffer.
  | handed (action : HsmAction) (path : PathBuf)
  -- One `llapi_hsm_action_begin`, with its error number.
  | actionBegin (isError : Bool) (err : Nat)
  -- `ct_action_done` is called with the error value `ctRc`.
  | actionDone (ctRc : Int)
  -- One `llapi_hsm_action_end`: `HP_FLAG_RETRY`, the error value sent, the error number.
  | actionEnd (retry : Bool) (errval : Nat) (err : Nat)
  -- One `llapi_hsm_action_progress`: extent offset and length, total, the error number.
  | actionProgress (offset length total : Nat) (err : Nat)
  -- `err_major++`.
  | errMajor
  -- `ct_archive_data` returned.
  | archiveData (objectName : CString) (rc : Int)
  -- `ct_archive_data_big` returned.
  | archiveDataBig (objectName : CString) (rc : Int)
  -- `get_s3_object` returned.
  | getS3Object (objectName : CString) (rc : Int)
  -- One `S3_put_object`: declared length, body sent, status, whether S3 kept the body.
  | putObject (objectName : CString) (length : Nat) (body : List UInt8) (status : Nat)
      (stored : Bool)
  -- One `S3_initiate_multipart`, with the upload id of the answer.
  | initiateMultipart (objectName : CString) (uploadId : Option CString)
  -- One `S3_upload_part`: part number, declared length, body sent, status, whether kept.
  | uploadPart (objectName uploadId : CString) (seq length : Nat) (body : List UInt8)
      (status : Nat) (stored : Bool)
  -- One `S3_complete_multipart_upload`: declared length, body sent, status, whether the
  -- server assembled the object.
  | completeMultipart (objectName uploadId : CString) (length : Nat) (body : List Char)
      (status : Nat) (stored : Bool)
  -- One `S3_get_object` of `byteCount` bytes from `startByte` on, with its final status.
  | getObject (objectName : CString) (startByte byteCount : Nat) (status : Nat)
  -- One `S3_delete_object`, with its status.
  | deleteObject (objectName : CString) (status : Nat)
  -- Bytes that reached the destination file, at this position.
  | write (pos : Nat) (bytes : List UInt8)
  deriving DecidableEq, Repr

/-- A piece of the copytool working on one item. -/
abbrev Proc (α : Type) : Type := Exec Event Death α

/-- How far a `read()` or `write()` fell short: not at all, after `n` bytes, or with an error. -/
inductive Fault where
  | none
  | short (n : Nat)
  | error
  deriving DecidableEq, Repr

/-- `read(fd, buf, n)` on a file with this content at position `pos`: the bytes read, or
`none` for a return value of `-1`. -/
def sysRead (content : List UInt8) (pos n : Nat) : Fault → Option (List UInt8)
  | .none => some ((content.drop pos).take n)
  | .short k => some (((content.drop pos).take n).take k)
  | .error => Option.none

/-- The bytes a `write(fd, buf, n)` transfers, or `none` for a return value of `-1`. -/
def sysWrite (buffer : List UInt8) : Fault → Option (List UInt8)
  | .none => some buffer
  | .short k => some (buffer.take k)
  | .error => Option.none

/-- `S_ISREG` and size of an `fstat`, with its error number. -/
structure StatRes where
  err : Nat
  isReg : Bool
  size : Nat
  deriving DecidableEq, Repr

end Estuary
