import Mathlib.Algebra.Group.Int.Defs
import Mathlib.Algebra.Group.Nat.Defs
import Mathlib.Data.List.TakeWhile

/-!
# Estuary — platform types: C strings, machine integers, HSM items, libs3 statuses

The data the copytool shares with the outside world, before any of its own logic:

* **`CString`** — a C string: characters without a terminating NUL inside. `cstr` reads the
  string a character array begins with.
* **machine integers** — sizes and offsets are `Nat`; `cInt`, `sizeT` and `u64Sub` are the
  conversions and subtractions at which the C code can wrap, and `cOr` is `|` on `int`.
* **`HsmActionItem`** — the fields of `struct hsm_action_item` the copytool reads.
* **`LibS3`** — what the code relies on of libs3: which statuses `S3_status_is_retryable`
  accepts, and the status codes the code names. The library itself is not part of the
  repository, so it is a parameter; the facts about it are the structure's fields.
* **`Config`** — the fields of `ct_opt` and of the config file that the modelled functions read.
-/

namespace Estuary

/-! ## C strings -/

/-- The terminator of a C string. -/
def nul : Char := Char.ofNat 0

/-- A C string: its characters, none of which is the terminator. -/
structure CString where
  chars : List Char
  nulFree : nul ∉ chars
  deriving DecidableEq, Repr

/-- The C string that a character array begins with. -/
def cstr (mem : List Char) : CString where
  chars := mem.takeWhile (· ≠ nul)
  nulFree := by
    intro h
    have := List.mem_takeWhile_imp h
    simp at this

/-- Reading back an array that holds `s`, its terminator and anything behind it gives `s`. -/
theorem cstr_terminated (s : CString) (rest : List Char) :
    cstr (s.chars ++ nul :: rest) = s := by
  obtain ⟨chars, hfree⟩ := s
  simp only [cstr, CString.mk.injEq]
  rw [List.takeWhile_append_of_pos]
  · simp
  · intro c hc
    have hne : c ≠ nul := fun h => hfree (h ▸ hc)
    simpa using hne

/-- `sprintf(buf, "%s/%s", mnt, file)`. -/
def joinPath (mnt file : CString) : CString where
  chars := mnt.chars ++ '/' :: file.chars
  nulFree := by
    have hslash : nul ≠ '/' := by decide
    simp [mnt.nulFree, file.nulFree, hslash]

/-! ## Machine integers -/

/-- Narrowing of a `size_t` to `int`. -/
def cInt (n : Nat) : Int := Int.bmod n (2 ^ 32)

/-- Widening of an `int` to `size_t`. -/
def sizeT (i : Int) : Nat := (i % 2 ^ 64).toNat

/-- Subtraction of `__u64`. -/
def u64Sub (a b : Nat) : Nat := (a + 2 ^ 64 - b) % 2 ^ 64

/-- Bitwise `|` of two `int`. -/
def cOr (a b : Int) : Int := (BitVec.ofInt 32 a ||| BitVec.ofInt 32 b).toInt

theorem cInt_eq {n : Nat} (h : n < 2 ^ 31) : cInt n = n := by
  unfold cInt
  rw [Int.bmod_eq_of_le] <;> omega

theorem sizeT_ofNat {n : Nat} (h : n < 2 ^ 64) : sizeT n = n := by
  unfold sizeT
  omega

theorem u64Sub_of_le {a b : Nat} (h : b ≤ a) (ha : a < 2 ^ 64) : u64Sub a b = a - b := by
  unfold u64Sub
  omega

/-! ## Error numbers and constants -/

def eio : Nat := 5
def enomem : Nat := 12
def einval : Nat := 22
def etimedout : Nat := 110
def ecanceled : Nat := 125

/-- `LLAPI_MSG_INFO`, the verbosity the daemon starts with. -/
def llapiMsgInfo : Int := 5

/-- Files of this size and above go through the multipart upload. -/
@[irreducible] def maxObjSizeLevel : Nat := 256 * 1024 * 1024

@[irreducible] def chunkSize : Nat := 16 * 1024 * 1024

@[irreducible] def chunkSizeMax : Nat := 5 * 1024 * 1024 * 1024

/-- The largest file `ct_archive` admits (5 TiB). -/
@[irreducible] def maxFileSize : Nat := 5 * 1024 * 1024 * 1024 * 1024

/-- `RETRYCOUNT`. -/
def retryCount : Nat := 5

/-- `should_retry`: tests the counter and then decrements it, also past zero. -/
def shouldRetry (retry_count : Int) : Bool × Int := (retry_count != 0, retry_count - 1)

/-! ## HSM action items -/

inductive HsmAction where
  | archive
  | restore
  | remove
  | cancel
  | other (code : Nat)
  deriving DecidableEq, Repr

structure LuFid where
  seq : Nat
  oid : Nat
  ver : Nat
  deriving DecidableEq, Repr

/-- `struct hsm_extent`: both fields are `__u64`. -/
structure HsmExtent where
  offset : Nat
  length : Nat
  offset_lt : offset < 2 ^ 64
  length_lt : length < 2 ^ 64
  deriving DecidableEq, Repr

/-- `(__u64)-1`, the length the coordinator sends for a whole file. -/
@[irreducible] def u64Max : Nat := 2 ^ 64 - 1

/-- The extent of a whole file. -/
def HsmExtent.whole : HsmExtent := ⟨0, u64Max, by decide, by unfold u64Max; decide⟩

structure HsmActionItem where
  action : HsmAction
  fid : LuFid
  extent : HsmExtent
  deriving DecidableEq, Repr

/-! ## libs3 -/

/-- `S3StatusOK`, the first value of the enumeration. -/
def s3StatusOK : Nat := 0

/-- What the copytool relies on of libs3's status codes. A status is the value of the C
enumeration, because the code also hands plain integers to `S3_status_is_retryable`. -/
structure LibS3 where
  statusIsRetryable : Nat → Bool
  errorInternalError : Nat
  errorRequestTimeout : Nat
  errorInvalidRange : Nat
  abortedByCallback : Nat
  ok_not_retryable : statusIsRetryable s3StatusOK = false
  internalError_retryable : statusIsRetryable errorInternalError = true
  requestTimeout_retryable : statusIsRetryable errorRequestTimeout = true
  invalidRange_ne_ok : errorInvalidRange ≠ s3StatusOK
  invalidRange_not_retryable : statusIsRetryable errorInvalidRange = false
  abortedByCallback_ne_ok : abortedByCallback ≠ s3StatusOK
  abortedByCallback_ne_invalidRange : abortedByCallback ≠ errorInvalidRange

theorem LibS3.requestTimeout_ne_ok (lib : LibS3) : lib.errorRequestTimeout ≠ s3StatusOK := by
  intro h
  have := lib.requestTimeout_retryable
  rw [h, lib.ok_not_retryable] at this
  cases this

/-- The numbering of libs3's own enumeration: a failed name lookup, a refused or lost
connection, an internal error, an aborted operation and a request timeout are retryable. -/
def LibS3.upstream : LibS3 where
  statusIsRetryable status := [43, 44, 46, 65, 109, 115].contains status
  errorInternalError := 65
  errorRequestTimeout := 115
  errorInvalidRange := 79
  abortedByCallback := 47
  ok_not_retryable := by decide
  internalError_retryable := by decide
  requestTimeout_retryable := by decide
  invalidRange_ne_ok := by decide
  invalidRange_not_retryable := by decide
  abortedByCallback_ne_ok := by decide
  abortedByCallback_ne_invalidRange := by decide

/-! ## Options and configuration -/

/-- The fields of `ct_opt`, and of the config file, that the modelled functions read. -/
structure Config where
  oMnt : CString
  oDryRun : Bool
  oAbortOnError : Bool
  oVerbose : Int
  oReportInt : Nat
  pathPrefix : CString
  deriving DecidableEq, Repr

/-- `ct_opt_setup`: every option at its default, for a mount point and a `path_prefix`. -/
def Config.setup (oMnt pathPrefix : CString) : Config where
  oMnt := oMnt
  oDryRun := false
  oAbortOnError := false
  oVerbose := llapiMsgInfo
  oReportInt := 30
  pathPrefix := pathPrefix

end Estuary
