import Estuary.Spec.Coordinator
import Estuary.Spec.Target

/-!
# Estuary — restoring a file (`get_s3_object`, `ct_restore`)

The download is a loop of range requests. One `S3_get_object` makes the properties callback
with the response headers, hands the body over in pieces, each written to the destination
descriptor, and ends with a status. When the data callback refuses a piece (a short write),
libs3 delivers nothing more and ends the request with the status the callback returned.

The answers are a list, one entry per request; a loop that asks for more than the list holds is
still waiting (`pending`).
-/

namespace Estuary

open Engine

/-- `get_object_callback_data`: the fields that are read, and `md5`, which no one reads. -/
structure GetObjectCallbackData where
  totalLength : Nat
  contentLength : Nat
  status : Nat
  md5 : List Char
  deriving DecidableEq, Repr

/-- The response headers the properties callback looks at; `contentLength` is 0 when the
response has no such header. -/
structure GetProperties where
  contentLength : Nat
  eTag : Option CString
  deriving DecidableEq, Repr

/-- A piece of the response body, and how the `write()` of it went. -/
structure Piece where
  buffer : List UInt8
  fault : Fault
  deriving DecidableEq, Repr

structure GetAttempt where
  properties : Option GetProperties
  pieces : List Piece
  status : Nat
  deriving DecidableEq, Repr

/-- `s3_response_get_object_properties_callback`. The ETag is copied without its leading
quote. -/
def s3ResponseGetObjectPropertiesCallback (properties : GetProperties)
    (data : GetObjectCallbackData) : GetObjectCallbackData :=
  { data with
    contentLength := properties.contentLength
    md5 := match properties.eTag with
      | some eTag => (eTag.chars.drop 1).take 32
      | none => data.md5 }

/-- The response headers of one `S3_get_object`, if any arrived. -/
def getProperties (data : GetObjectCallbackData) : Option GetProperties → GetObjectCallbackData
  | none => data
  | some properties => s3ResponseGetObjectPropertiesCallback properties data

/-- `get_objectdata_callback` over the pieces of a body, from position `pos` of the descriptor
on: whether every piece was accepted. -/
def getPieces (contentLength : Nat) : List Piece → Nat → Proc Bool
  | [], _ => pure true
  | piece :: pieces, pos =>
    if contentLength = 0 then Exec.die .abortCalled
    else
      match sysWrite piece.buffer piece.fault with
      | none => pure false
      | some wrote => do
        Exec.emit (.write pos wrote)
        if wrote.length < piece.buffer.length then pure false
        else getPieces contentLength pieces (pos + wrote.length)

/-- One `S3_get_object` at `startByte`, the descriptor having been moved there, with
`s3_get_response_complete_callback` at its end. -/
def s3GetObject (lib : LibS3) (name : CString) (startByte byteCount : Nat)
    (attempt : GetAttempt) (data : GetObjectCallbackData) : Proc GetObjectCallbackData := do
  let data := getProperties data attempt.properties
  let accepted ← getPieces data.contentLength attempt.pieces startByte
  let status := if accepted then attempt.status else lib.abortedByCallback
  Exec.emit (.getObject name startByte byteCount status)
  pure { data with status := status }

/-- The `do … while (true)` loop of `get_s3_object`. -/
def getLoop (lib : LibS3) (name : CString) :
    List GetAttempt → Nat → Int → GetObjectCallbackData → Proc GetObjectCallbackData
  | [], _, _, _ => Exec.wait
  | attempt :: attempts, startByte, retry_count, data => do
    let data ← s3GetObject lib name startByte chunkSize attempt data
    if data.status = s3StatusOK then
      let data := { data with totalLength := data.totalLength + data.contentLength }
      if chunkSize ≠ data.contentLength then pure data
      else getLoop lib name attempts (startByte + chunkSize) retry_count data
    else if data.status = lib.errorInvalidRange then
      -- `startByte` is behind the end of the object
      pure { data with status := s3StatusOK }
    else if lib.statusIsRetryable data.status then
      if (shouldRetry retry_count).1 then
        getLoop lib name attempts startByte (shouldRetry retry_count).2 data
      else pure data
    else pure data

/-- `get_s3_object`: the return value, and the callback data the caller goes on with. -/
def getS3Object (lib : LibS3) (name : CString) (attempts : List GetAttempt) :
    Proc (Int × GetObjectCallbackData) := do
  let data ← getLoop lib name attempts 0 retryCount ⟨0, 0, 0, []⟩
  if data.status ≠ s3StatusOK then pure (-(eio : Int), data) else pure (0, data)

/-- The answers to the calls of one `ct_restore_data`. -/
structure RestoreDataEnv where
  fstat : StatRes
  progressRcs : Nat → Nat
  tStart : Nat
  stack : List Char
  gets : List GetAttempt
  tNow : Nat
  reportRcs : Nat → Nat

/-- `ct_restore_data`. -/
def ctRestoreData (cfg : Config) (lib : LibS3) (env : RestoreDataEnv) (hai : HsmActionItem)
    (filePath : CString) : Proc Int :=
  if env.fstat.err ≠ 0 then pure (-(env.fstat.err : Int))
  else if env.fstat.isReg = false then pure (-(einval : Int))
  else do
    let _ ← llapiHsmActionProgressEx hai.extent.offset 0 hai.extent.length env.progressRcs
    match ← fullPathTarget cfg env.stack filePath with
    | none => pure 0
    | some name =>
      if hai.extent.length = u64Max then
        if hai.extent.offset = 0 then do
          let (rc, data) ← getS3Object lib name env.gets
          Exec.emit (.getS3Object name rc)
          if rc < 0 then pure rc
          else if env.tNow ≥ env.tStart + cfg.oReportInt then do
            -- the result of the final report becomes the return value
            let err ← llapiHsmActionProgressEx hai.extent.offset data.contentLength
              data.contentLength env.reportRcs
            pure (-(err : Int))
          else pure rc
        else Exec.die .assertFailed
      else Exec.die .assertFailed

/-- The answers to the calls of one `ct_restore`. -/
structure RestoreEnv where
  mdtIndexErr : Nat
  beginRcs : Nat → Nat
  dfidErr : Nat
  dstFd : Int
  data : RestoreDataEnv
  done : DoneEnv

/-- `ct_restore` from the result `err` of `ct_begin_restore` to the label `end_ct_restore`: `rc`,
and whether `ct_restore_data` failed, which counts as a major error. -/
def ctRestoreBody (cfg : Config) (lib : LibS3) (env : RestoreEnv) (hai : HsmActionItem)
    (filePath : CString) (err : Nat) : Proc (Int × Bool) :=
  if err ≠ 0 then pure (-(err : Int), false)
  else if env.dfidErr ≠ 0 then pure (-(env.dfidErr : Int), false)
  else if cfg.oDryRun then pure (0, false)
  else if env.dstFd < 0 then pure (env.dstFd, false)
  else do
    let rc ← ctRestoreData cfg lib env.data hai filePath
    if rc < 0 then do
      Exec.emit .errMajor
      pure (rc, true)
    else pure (rc, false)

/-- `ct_restore`. -/
def ctRestore (cfg : Config) (lib : LibS3) (env : RestoreEnv) (hai : HsmActionItem)
    (filePath : CString) : Proc Int :=
  if env.mdtIndexErr ≠ 0 then pure (-(env.mdtIndexErr : Int))
  else do
    let err ← ctBeginRestore env.beginRcs
    let (rc, failed) ← ctRestoreBody cfg lib env hai filePath err
    let rcDone ← ctActionDone env.done (err == 0) (failed && ctIsRetryable rc) rc
    pure (cOr rc rcDone)

end Estuary
