import Estuary.Spec.Coordinator
import Estuary.Spec.Growbuffer
import Estuary.Spec.Target

/-!
# Estuary — archiving a file (`ct_archive`, `s3_callback.c`)

Both upload paths and the operation around them. A request to S3 is described by what happens
during it: the buffer sizes with which libs3 pulls the body through the copytool's callback,
the callbacks it makes with the response headers, and the status it ends with. `stored` says
whether the server kept the body; it may keep it although the answer got lost.

The state a callback leaves behind (`put_object_callback_data`, `UploadManager`, the position
of the source descriptor) is passed from one attempt to the next exactly as the C structs are:
what the retry loops do not reset stays as the previous attempt left it.
-/

namespace Estuary

open Engine

/-! ## Body callbacks -/

/-- `put_object_callback_data`: the fields that are read. -/
structure PutObjectCallbackData where
  bufferOffset : Nat
  status : Nat
  buffer : List UInt8
  contentLength : Nat
  originalContentLength : Nat
  totalContentLength : Nat
  totalOriginalContentLength : Nat
  fd : Int
  deriving DecidableEq, Repr

/-- The struct after `memset(&data, 0, sizeof(data))`. -/
def PutObjectCallbackData.zero : PutObjectCallbackData := ⟨0, 0, [], 0, 0, 0, 0, 0⟩

/-- `put_objectdata_callback`: one pull of the small-file body, from the buffer. -/
def putObjectdataCallback (bufferSize : Nat) (data : PutObjectCallbackData) :
    PutObjectCallbackData × List UInt8 :=
  let size :=
    if data.contentLength ≠ 0 then
      if data.contentLength > bufferSize then bufferSize else data.contentLength
    else 0
  ({ data with
      bufferOffset := data.bufferOffset + size
      contentLength := data.contentLength - size },
    (data.buffer.drop data.bufferOffset).take size)

/-- The pulls of one `S3_put_object`, and the body they add up to. -/
def pullPut : List Nat → PutObjectCallbackData → PutObjectCallbackData × List UInt8
  | [], data => (data, [])
  | bufferSize :: pulls, data =>
    let (data, piece) := putObjectdataCallback bufferSize data
    let (data, body) := pullPut pulls data
    (data, piece ++ body)

/-- One pull of a part: the buffer offered, and how the `read()` in the callback went. -/
structure Pull where
  bufferSize : Nat
  fault : Fault
  deriving DecidableEq, Repr

/-- `multipart_put_objectdata_callback`: one pull of a part, read from the descriptor at `pos`.
A short read offers nothing, but has moved the descriptor. -/
def multipartPutObjectdataCallback (content : List UInt8) (pull : Pull)
    (data : PutObjectCallbackData) (pos : Nat) :
    Proc (PutObjectCallbackData × Nat × List UInt8) :=
  if data.contentLength ≠ 0 then
    let toRead := if data.contentLength > pull.bufferSize then pull.bufferSize
      else data.contentLength
    if data.fd ≠ 0 then
      match sysRead content pos toRead pull.fault with
      | some bytes =>
        if bytes.length ≠ toRead then pure (data, pos + bytes.length, [])
        else
          pure ({ data with
                    contentLength := data.contentLength - toRead
                    totalContentLength := data.totalContentLength - toRead },
                pos + toRead, bytes)
      | none => pure (data, pos, [])
    else Exec.die .abortCalled
  else pure (data, pos, [])

/-- The pulls of one `S3_upload_part`. libs3 takes a callback that offers nothing for the end of
the body: it makes no further pull. -/
def pullPart (content : List UInt8) : List Pull → PutObjectCallbackData → Nat →
    Proc (PutObjectCallbackData × Nat × List UInt8)
  | [], data, pos => pure (data, pos, [])
  | pull :: pulls, data, pos => do
    let (data, pos, piece) ← multipartPutObjectdataCallback content pull data pos
    if piece.isEmpty then pure (data, pos, [])
    else do
      let (data, pos, body) ← pullPart content pulls data pos
      pure (data, pos, piece ++ body)

/-- `UploadManager`. -/
structure UploadManager where
  uploadId : Option CString
  etags : Nat → Option CString
  nextEtagsPos : Nat
  gb : Growbuffer
  remaining : Nat

/-- `multipart_commit_response_callback`: one pull of the commit document. -/
def multipartCommitResponseCallback (bufferSize : Nat) (manager : UploadManager) :
    UploadManager × List Char :=
  if manager.remaining ≠ 0 then
    let toRead := if manager.remaining > bufferSize then bufferSize else manager.remaining
    let (gb, bytes) := growbufferRead manager.gb toRead
    ({ manager with gb := gb, remaining := manager.remaining - bytes.length }, bytes)
  else (manager, [])

/-- The pulls of one `S3_complete_multipart_upload`. -/
def pullCommit : List Nat → UploadManager → UploadManager × List Char
  | [], manager => (manager, [])
  | bufferSize :: pulls, manager =>
    let (manager, piece) := multipartCommitResponseCallback bufferSize manager
    let (manager, body) := pullCommit pulls manager
    (manager, piece ++ body)

/-! ## Small files: `ct_archive_data` -/

structure PutAttempt where
  pulls : List Nat
  status : Nat
  stored : Bool
  deriving DecidableEq, Repr

/-- One `S3_put_object`, with `s3_put_response_complete_callback` at its end. -/
def s3PutObject (name : CString) (length : Nat) (attempt : PutAttempt)
    (data : PutObjectCallbackData) : Proc PutObjectCallbackData :=
  let (data, body) := pullPut attempt.pulls data
  do
    Exec.emit (.putObject name length body attempt.status attempt.stored)
    pure { data with status := attempt.status }

/-- The `while (true)` loop around `S3_put_object`. -/
def putLoop (lib : LibS3) (name : CString) (length : Nat) (attempts : Nat → PutAttempt) :
    Nat → Nat → PutObjectCallbackData → Proc PutObjectCallbackData
  | budget, i, data => do
    let data ← s3PutObject name length (attempts i) data
    if data.status ≠ s3StatusOK then
      if lib.statusIsRetryable data.status then
        match budget with
        | 0 => pure data
        | budget + 1 => putLoop lib name length attempts budget (i + 1) data
      else pure data
    else pure data

/-- The answers to the calls of one `ct_archive_data`. `dbuf` tells whether the buffer was
allocated. -/
structure ArchiveDataEnv where
  stripeErr : Nat
  progressRcs : Nat → Nat
  dbuf : Bool
  readFault : Fault
  puts : Nat → PutAttempt

/-- `ct_archive_data`. The descriptor is read from where it stands, the start of the file. -/
def ctArchiveData (lib : LibS3) (env : ArchiveDataEnv) (name : CString) (content : List UInt8)
    (stSize : Nat) (hai : HsmActionItem) : Proc Int :=
  if env.stripeErr ≠ 0 then pure (-1)
  else
    let left := u64Sub stSize hai.extent.offset
    let length := if hai.extent.length > left then left else hai.extent.length
    do
      let _ ← llapiHsmActionProgressEx 0 0 length env.progressRcs
      if env.dbuf = false then pure (-(enomem : Int))
      else
        match sysRead content 0 length env.readFault with
        | none => pure (-(eio : Int))
        | some bytes =>
          if bytes.length ≠ length then pure (-(eio : Int))
          else do
            let data ← putLoop lib name length env.puts retryCount 0
              { PutObjectCallbackData.zero with buffer := bytes, contentLength := length }
            if data.status ≠ s3StatusOK then pure (-(eio : Int)) else pure 0

/-! ## Large files: `ct_archive_data_big` -/

/-- Number of parts of `chunk` bytes, in `size_t` arithmetic. -/
@[irreducible] def partCount (size chunk : Nat) : Nat := (chunk + size - 1) % 2 ^ 64 / chunk

/-- The doubling step of `ct_get_chunksize`. -/
def nextChunk (chunk : Nat) : Nat :=
  let chunk := if chunk < chunkSizeMax then chunk * 2 else chunk
  if chunk > chunkSizeMax then chunkSizeMax else chunk

/-- The `while (total_seq > 10000)` loop of `ct_get_chunksize`, for at most `fuel` tests. -/
def chunksizeLoop (size : Nat) : Nat → Nat → Option (Nat × Nat)
  | 0, _ => none
  | fuel + 1, chunk =>
    if partCount size chunk > 10000 then chunksizeLoop size fuel (nextChunk chunk)
    else some (chunk, partCount size chunk)

/-- `ct_get_chunksize`: chunk size and part count. The chunk reaches its cap after nine
doublings; a loop still running at its tenth test never ends (`none`). -/
@[irreducible] def ctGetChunksize (size : Nat) : Option (Nat × Nat) :=
  chunksizeLoop size 10 chunkSize

/-- What happens during one `S3_upload_part`: the pulls, the properties callback (`none` if it
is not made, else its ETag, which may be missing) and whether its `strdup` finds memory, the final
status; then the clock after it and the answers to the progress report it may cause. -/
structure PartAttempt where
  pulls : List Pull
  properties : Option (Option CString)
  strdup : Bool
  status : Nat
  stored : Bool
  tEnd : Nat
  progressRcs : Nat → Nat
  tReport : Nat

/-- `multipart_put_part_response_properies_callback`: record a copy of the part's ETag. The part
counts as done whether or not `strdup` found memory for it. -/
def multipartPutPartResponsePropertiesCallback (etagsAllocated strdup : Bool) (seq : Nat)
    (eTag : Option CString) (manager : UploadManager) : Proc UploadManager :=
  match eTag with
  | none => Exec.die .nullDereference
  | some eTag =>
    if etagsAllocated then
      pure { manager with
        etags := Function.update manager.etags (seq - 1) (if strdup then some eTag else none)
        nextEtagsPos := seq }
    else Exec.die .nullDereference

/-- The response headers of one `S3_upload_part`, if any arrived. -/
def partProperties (etagsAllocated : Bool) (seq : Nat) (manager : UploadManager)
    (attempt : PartAttempt) : Proc UploadManager :=
  match attempt.properties with
  | none => pure manager
  | some eTag =>
    multipartPutPartResponsePropertiesCallback etagsAllocated attempt.strdup seq eTag manager

/-- The state of `ct_archive_data_big` that an attempt changes: the callback data, the upload
manager, and `last_report_time`. -/
structure PartState where
  data : PutObjectCallbackData
  manager : UploadManager
  lastReportTime : Nat

/-- One round of the part loop: seek, `S3_upload_part`, and the evaluation of its outcome. -/
def partRound (cfg : Config) (lib : LibS3) (name uploadId : CString) (content : List UInt8)
    (etagsAllocated : Bool) (length chunk seq : Nat) (partContentLength : Int)
    (attempt : PartAttempt) (st : PartState) : Proc PartState := do
  -- the descriptor is repositioned, the callback's counters are not
  let (data, _, body) ← pullPart content attempt.pulls { st.data with status := 0 }
    ((seq - 1) * chunk)
  let manager ← partProperties etagsAllocated seq st.manager attempt
  Exec.emit (.uploadPart name uploadId seq (sizeT partContentLength) body attempt.status
    attempt.stored)
  if manager.nextEtagsPos ≠ seq then
    pure ⟨{ data with status := lib.errorRequestTimeout }, manager, st.lastReportTime⟩
  else if (attempt.tEnd : Int) - st.lastReportTime ≥ cfg.oReportInt then do
    let rc ← llapiHsmActionProgressEx ((seq - 1) * chunk) (sizeT partContentLength) length
      attempt.progressRcs
    pure ⟨{ data with status := attempt.status }, manager,
      if rc ≠ 0 then st.lastReportTime else attempt.tReport⟩
  else pure ⟨{ data with status := attempt.status }, manager, st.lastReportTime⟩

/-- The `do … while` loop over the attempts of one part. -/
def partLoop (cfg : Config) (lib : LibS3) (name uploadId : CString) (content : List UInt8)
    (etagsAllocated : Bool) (length chunk seq : Nat) (partContentLength : Int)
    (attempts : Nat → PartAttempt) : Nat → Nat → PartState → Proc PartState
  | budget, i, st => do
    let st ← partRound cfg lib name uploadId content etagsAllocated length chunk seq
      partContentLength (attempts i) st
    if lib.statusIsRetryable st.data.status then
      match budget with
      | 0 => pure st
      | budget + 1 =>
        partLoop cfg lib name uploadId content etagsAllocated length chunk seq
          partContentLength attempts budget (i + 1) st
    else pure st

/-- The `for` loop over the parts, `rounds` of which are left. `contentLength` is what is left
of the file. `none` is the `goto clean` after a part that failed. -/
def partsLoop (cfg : Config) (lib : LibS3) (name uploadId : CString) (content : List UInt8)
    (etagsAllocated : Bool) (fd : Int) (stSize length chunk : Nat)
    (parts : Nat → Nat → PartAttempt) :
    Nat → Nat → Nat → UploadManager → Nat → Proc (Option UploadManager)
  | 0, _, _, manager, _ => pure (some manager)
  | rounds + 1, seq, contentLength, manager, lastReportTime => do
    let partContentLength := cInt (if contentLength > chunk then chunk else contentLength)
    let st ← partLoop cfg lib name uploadId content etagsAllocated length chunk seq
      partContentLength (parts seq) retryCount 0
      ⟨{ PutObjectCallbackData.zero with
          fd := fd
          contentLength := sizeT partContentLength
          originalContentLength := sizeT partContentLength
          totalContentLength := contentLength
          totalOriginalContentLength := stSize },
        manager, lastReportTime⟩
    if st.data.status ≠ s3StatusOK then pure none
    else
      partsLoop cfg lib name uploadId content etagsAllocated fd stSize length chunk parts rounds
        (seq + 1) (contentLength - sizeT partContentLength) st.manager st.lastReportTime

/-- `initial_multipart_response_callback`: an empty id is not taken over. -/
def initialMultipartResponseCallback : Option CString → Option CString
  | none => none
  | some uploadId => if uploadId.chars = [] then none else some uploadId

/-- The loop around `S3_initiate_multipart`: the upload id, if one arrived. -/
def initLoop (lib : LibS3) (name : CString) (inits : Nat → Option CString) :
    Nat → Nat → Proc (Option CString)
  | budget, i => do
    let uploadId := initialMultipartResponseCallback (inits i)
    Exec.emit (.initiateMultipart name uploadId)
    let rcInit := if uploadId = none then lib.errorInternalError else 0
    if lib.statusIsRetryable rcInit then
      match budget with
      | 0 => pure uploadId
      | budget + 1 => initLoop lib name inits budget (i + 1)
    else pure uploadId

/-- `"<CompleteMultipartUpload>"`. -/
def docOpen : List Char := "<CompleteMultipartUpload>".toList

def docClose : List Char := "</CompleteMultipartUpload>".toList

/-- The text `snprintf` formats for part `i + 1`; a NULL ETag is printed as `(null)`. -/
def partElement (i : Nat) (eTag : Option CString) : List Char :=
  "<Part><PartNumber>".toList ++ Nat.toDigits 10 (i + 1) ++ "</PartNumber><ETag>".toList
    ++ (match eTag with
        | some eTag => eTag.chars
        | none => "(null)".toList)
    ++ "</ETag></Part>".toList

/-- The bytes appended for one element: `n` bytes from `buf`, `n` being the length the text has
before it is cut to the 256 bytes of `buf`. What lies behind `buf` is `stack`. -/
def elementBytes (stack : Nat → Char) (text : List Char) : List Char :=
  if text.length < 256 then text
  else text.take 255 ++ nul :: (List.range (text.length - 256)).map stack

/-- The `for` loop that appends the elements: buffer, `malloc` calls, and the running `size`. -/
def appendElements (mallocs : Nat → Bool) (stack : Nat → Nat → Char)
    (etags : Nat → Option CString) : Nat → Nat → AppendResult → AppendResult
  | 0, _, acc => acc
  | rounds + 1, i, acc =>
    let res := growbufferAppend mallocs acc.calls acc.gb
      (elementBytes (stack i) (partElement i (etags i)))
    appendElements mallocs stack etags rounds (i + 1) ⟨res.gb, res.calls, acc.ret + res.ret⟩

/-- The commit document as `ct_archive_data_big` builds it; `ret` is `size`. -/
def buildDocument (mallocs : Nat → Bool) (stack : Nat → Nat → Char) (totalSeq : Nat)
    (etags : Nat → Option CString) : AppendResult :=
  let opened := growbufferAppend mallocs 0 [] docOpen
  let acc := appendElements mallocs stack etags totalSeq 0 opened
  let closed := growbufferAppend mallocs acc.calls acc.gb docClose
  ⟨closed.gb, closed.calls, acc.ret + closed.ret⟩

structure CommitAttempt where
  pulls : List Nat
  status : Nat
  stored : Bool
  deriving DecidableEq, Repr

/-- The `do … while` loop around `S3_complete_multipart_upload`. Its completion callback only
logs the status; whether to retry is decided by the number of bytes left. -/
def commitLoop (lib : LibS3) (name uploadId : CString) (commits : Nat → CommitAttempt) :
    Nat → Nat → UploadManager → Proc UploadManager
  | budget, i, manager => do
    let length := manager.remaining
    let (manager, body) := pullCommit (commits i).pulls manager
    Exec.emit (.completeMultipart name uploadId length body (commits i).status
      (commits i).stored)
    if lib.statusIsRetryable manager.remaining then
      match budget with
      | 0 => pure manager
      | budget + 1 => commitLoop lib name uploadId commits budget (i + 1) manager
    else pure manager

/-- The answers to the calls of one `ct_archive_data_big`. `parts seq i` is attempt `i` of part
`seq`; `etagsAllocated` is the `calloc`; `stack i` lies behind `buf` in round `i`. -/
structure ArchiveDataBigEnv where
  stripeErr : Nat
  tStart : Nat
  progressRcs : Nat → Nat
  etagsAllocated : Bool
  inits : Nat → Option CString
  parts : Nat → Nat → PartAttempt
  mallocs : Nat → Bool
  stack : Nat → Nat → Char
  commits : Nat → CommitAttempt

/-- Initiate the upload and send the parts: the upload id, the number of parts and the manager
when the commit phase is reached, `none` when the code jumps to `clean`. -/
def uploadPhase (cfg : Config) (lib : LibS3) (env : ArchiveDataBigEnv) (name : CString)
    (content : List UInt8) (fd : Int) (stSize length : Nat) :
    Proc (Option (CString × Nat × UploadManager)) :=
  match ctGetChunksize stSize with
  | none => Exec.die .endlessLoop
  | some (chunk, totalSeq) => do
    match ← initLoop lib name env.inits retryCount 0 with
    | none => pure none
    | some uploadId =>
      let manager ← partsLoop cfg lib name uploadId content env.etagsAllocated fd stSize length
        chunk env.parts totalSeq 1 stSize ⟨some uploadId, fun _ => none, 0, [], 0⟩ env.tStart
      pure (manager.map fun manager => (uploadId, totalSeq, manager))

/-- The commit phase: build the document, send it, and judge by what is left of it. -/
def commitPhase (lib : LibS3) (env : ArchiveDataBigEnv) (name uploadId : CString)
    (totalSeq : Nat) (manager : UploadManager) : Proc Int := do
  let doc := buildDocument env.mallocs env.stack totalSeq manager.etags
  let manager ← commitLoop lib name uploadId env.commits retryCount 0
    { manager with gb := doc.gb, remaining := doc.ret }
  if manager.remaining ≠ 0 then pure (-(eio : Int)) else pure 0

/-- `ct_archive_data_big`. -/
def ctArchiveDataBig (cfg : Config) (lib : LibS3) (env : ArchiveDataBigEnv) (name : CString)
    (content : List UInt8) (fd : Int) (stSize : Nat) (hai : HsmActionItem) : Proc Int :=
  if env.stripeErr ≠ 0 then pure (-1)
  else
    let left := u64Sub stSize hai.extent.offset
    let length := if hai.extent.length > left then left else hai.extent.length
    do
      let _ ← llapiHsmActionProgressEx hai.extent.offset 0 length env.progressRcs
      match ← uploadPhase cfg lib env name content fd stSize length with
      | none => pure (-(eio : Int))
      | some (uploadId, totalSeq, manager) =>
        commitPhase lib env name uploadId totalSeq manager

/-! ## The operation: `ct_archive` -/

/-- `ct_archive_check`. -/
def ctArchiveCheck (hai : HsmActionItem) (st : StatRes) : Proc Bool :=
  -- `tlog_error("cannot stat '%s'")` is given no argument for its directive
  if st.err ≠ 0 then Exec.die .missingArgument
  else if st.isReg = false then pure false
  else if hai.extent.offset > st.size then pure false
  else pure true

/-- The answers to the calls of one `ct_archive`; `content` is the file behind the descriptor,
`stack` what lies behind the terminator of `full_path`. -/
structure ArchiveEnv where
  beginRcs : Nat → Nat
  srcFd : Int
  fstat : StatRes
  content : List UInt8
  stack : List Char
  data : ArchiveDataEnv
  dataBig : ArchiveDataBigEnv
  done : DoneEnv

/-- `ct_archive` from the result `err` of `ct_begin` to the label `end_ct_archive`: the `rc` it
arrives with. The result of `fid_parent` is overwritten on every path and left out. -/
def ctArchiveBody (cfg : Config) (lib : LibS3) (env : ArchiveEnv) (hai : HsmActionItem)
    (filePath : CString) (err : Nat) : Proc Int :=
  if err ≠ 0 then pure (-(err : Int))
  else if cfg.oDryRun then pure 0
  else if env.srcFd < 0 then pure env.srcFd
  else do
    let checked ← ctArchiveCheck hai env.fstat
    if checked = false then pure (-1)
    else if env.fstat.size > maxFileSize then pure (-(eio : Int))
    else do
      match ← fullPathTarget cfg env.stack filePath with
      | none => pure 0
      | some name =>
        if env.fstat.size ≥ maxObjSizeLevel then do
          let rc ← ctArchiveDataBig cfg lib env.dataBig name env.content env.srcFd env.fstat.size
            hai
          Exec.emit (.archiveDataBig name rc)
          pure rc
        else do
          let rc ← ctArchiveData lib env.data name env.content env.fstat.size hai
          Exec.emit (.archiveData name rc)
          pure rc

/-- `ct_archive`. -/
def ctArchive (cfg : Config) (lib : LibS3) (env : ArchiveEnv) (hai : HsmActionItem)
    (filePath : CString) : Proc Int := do
  let err ← ctBeginRestore env.beginRcs
  let rc ← ctArchiveBody cfg lib env hai filePath err
  Exec.emit .errMajor
  let rcDone ← ctActionDone env.done (err == 0) (rc != 0 && ctIsRetryable rc) rc
  pure (cOr rc rcDone)

end Estuary
