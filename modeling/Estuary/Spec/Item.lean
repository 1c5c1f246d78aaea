import Estuary.Spec.Archive
import Estuary.Spec.Restore

/-!
# Estuary — one action item (`ct_process_item`, `ct_process_item_async`)

The dispatcher hands each item of an action list to `ct_process_item_async`, which copies it
and starts a worker thread; the worker runs `ct_process_item`. `ctProcessItemAsync` below is
the whole life of one item: what the async call returns, and everything the worker it may have
started does.
-/

namespace Estuary

open Engine

/-- The answers to the calls of one `ct_remove`. -/
structure RemoveEnv where
  beginRcs : Nat → Nat
  deletes : Nat → Nat
  done : DoneEnv

/-- The loop around `S3_delete_object`: the last status. -/
def deleteLoop (lib : LibS3) (name : CString) (deletes : Nat → Nat) : Nat → Nat → Proc Nat
  | budget, i => do
    Exec.emit (.deleteObject name (deletes i))
    if lib.statusIsRetryable (deletes i) then
      match budget with
      | 0 => pure (deletes i)
      | budget + 1 => deleteLoop lib name deletes budget (i + 1)
    else pure (deletes i)

/-- `ct_remove` from the result `err` of `ct_begin` to the label `end_ct_remove`. -/
def ctRemoveBody (cfg : Config) (lib : LibS3) (env : RemoveEnv) (filePath : CString)
    (err : Nat) : Proc Int :=
  if err ≠ 0 then pure (-(err : Int))
  else if cfg.oDryRun then pure 0
  else do
    let status ← deleteLoop lib filePath env.deletes retryCount 0
    if status ≠ s3StatusOK then pure (-(eio : Int)) else pure 0

/-- `ct_remove`. -/
def ctRemove (cfg : Config) (lib : LibS3) (env : RemoveEnv) (filePath : CString) :
    Proc Int := do
  let err ← ctBeginRestore env.beginRcs
  let rc ← ctRemoveBody cfg lib env filePath err
  let rcDone ← ctActionDone env.done (err == 0) false rc
  pure (cOr rc rcDone)

/-- The answers to the calls made for one item. `fid2pathErr` and `path` are what
`llapi_fid2path` answers for the item's FID; `memory` is what the worker's `file_path` array
holds when nothing was written to it; `done` answers a `ct_action_done` made by
`ct_process_item` itself. -/
structure ItemEnv where
  fid2pathErr : Nat
  path : CString
  memory : CString
  archive : ArchiveEnv
  restore : RestoreEnv
  remove : RemoveEnv
  done : DoneEnv

/-- The `switch (hai->hai_action)` of `ct_process_item`. -/
def dispatchAction (cfg : Config) (lib : LibS3) (env : ItemEnv) (hai : HsmActionItem)
    (file : PathBuf) : Proc Int :=
  match hai.action with
  | .archive => do
    Exec.emit (.handed .archive file)
    ctArchive cfg lib env.archive hai file.read
  | .restore => do
    Exec.emit (.handed .restore file)
    ctRestore cfg lib env.restore hai file.read
  | .remove => ctRemove cfg lib env.remove file.read
  | .cancel => pure 0
  | .other _ => do
    let _ ← ctActionDone env.done false false (-(einval : Int))
    pure (-(einval : Int))

/-- `ct_process_item`. -/
def ctProcessItem (cfg : Config) (lib : LibS3) (env : ItemEnv) (hai : HsmActionItem) :
    Proc Int :=
  if hai.action ≠ .archive ∧ hai.action ≠ .restore then do
    let _ ← ctActionDone env.done false false (-(einval : Int))
    pure 0
  else if cfg.oVerbose ≥ llapiMsgInfo ∨ cfg.oDryRun = true then do
    Exec.emit (.fid2path env.fid2pathErr)
    if env.fid2pathErr ≠ 0 then pure (-(env.fid2pathErr : Int))
    else dispatchAction cfg lib env hai (.fid2path env.path)
  else dispatchAction cfg lib env hai (.unset env.memory)

/-- The results of the allocations and thread calls of one `ct_process_item_async`. -/
structure AsyncEnv where
  mallocData : Bool
  mallocHai : Bool
  attrInitErr : Nat
  createErr : Nat
  deriving DecidableEq, Repr

/-- The return value of `ct_process_item_async`, 0 exactly when a worker was started. -/
def asyncReturn (env : AsyncEnv) : Int :=
  if env.mallocData = false then -(enomem : Int)
  else if env.mallocHai = false then -(enomem : Int)
  else if env.attrInitErr ≠ 0 then -(env.attrInitErr : Int)
  else env.createErr

/-- An item's life from `ct_process_item_async` on: when a worker was started, `ct_thread` runs
`ct_process_item`; otherwise `ct_run` gets the error and only gives the permit back. -/
def ctProcessItemAsync (cfg : Config) (lib : LibS3) (async : AsyncEnv) (env : ItemEnv)
    (hai : HsmActionItem) : Proc Int :=
  if asyncReturn async = 0 then ctProcessItem cfg lib env hai else pure (asyncReturn async)

/-! ## Answers when nothing goes wrong

Lustre and S3 as they answer on a quiet day, for a file with a given content. Concrete runs of
the copytool are taken from these, with the answers under discussion replaced. -/

def DoneEnv.smooth : DoneEnv := ⟨fun _ => 0, fun _ => 0⟩

/-- One pull takes the whole body. -/
def ArchiveDataEnv.smooth (content : List UInt8) : ArchiveDataEnv where
  stripeErr := 0
  progressRcs _ := 0
  dbuf := true
  readFault := .none
  puts _ := ⟨[content.length], s3StatusOK, true⟩

/-- One pull takes a whole part, one a whole block of the commit document. -/
def ArchiveDataBigEnv.smooth (content : List UInt8) : ArchiveDataBigEnv where
  stripeErr := 0
  tStart := 0
  progressRcs _ := 0
  etagsAllocated := true
  inits _ := some (cstr ['i', 'd'])
  parts _ _ := ⟨[⟨content.length, .none⟩], some (some (cstr ['t', 'a', 'g'])), true, s3StatusOK,
    true, 0, fun _ => 0, 0⟩
  mallocs _ := true
  stack _ _ := nul
  commits _ := ⟨List.replicate content.length blockSize, s3StatusOK, true⟩

/-- The same, with these answers of `strdup` to the attempts at the parts. -/
def ArchiveDataBigEnv.copying (content : List UInt8) (copies : Nat → Nat → Bool) :
    ArchiveDataBigEnv :=
  { ArchiveDataBigEnv.smooth content with
    parts := fun s i => { (ArchiveDataBigEnv.smooth content).parts s i with strdup := copies s i } }

def ArchiveEnv.smooth (content : List UInt8) : ArchiveEnv where
  beginRcs _ := 0
  srcFd := 3
  fstat := ⟨0, true, content.length⟩
  content := content
  stack := []
  data := .smooth content
  dataBig := .smooth content
  done := .smooth

/-- A response with its content length, in one piece. -/
def GetAttempt.smooth (content : List UInt8) : GetAttempt where
  properties := some ⟨content.length, none⟩
  pieces := [⟨content, .none⟩]
  status := s3StatusOK

/-- The object is smaller than one range request. -/
def RestoreEnv.smooth (content : List UInt8) : RestoreEnv where
  mdtIndexErr := 0
  beginRcs _ := 0
  dfidErr := 0
  dstFd := 4
  data := ⟨⟨0, true, 0⟩, fun _ => 0, 0, [], [.smooth content], 0, fun _ => 0⟩
  done := .smooth

def ItemEnv.smooth (path : CString) (content : List UInt8) : ItemEnv where
  fid2pathErr := 0
  path := path
  memory := ⟨[], by simp⟩
  archive := .smooth content
  restore := .smooth content
  remove := ⟨fun _ => 0, fun _ => s3StatusOK, .smooth⟩
  done := .smooth

def AsyncEnv.smooth : AsyncEnv := ⟨true, true, 0, 0⟩

end Estuary
