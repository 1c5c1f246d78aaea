import Estuary.Assembly
import Estuary.Listing

/-!
# Estuary — which bytes an archive stores

`ct_archive_check` admits an extent that begins inside the file, and both upload paths cut its
length at the end of the file. Then `ct_archive_data` reads that many bytes from where the
descriptor stands, the start of the file, and `ct_archive_data_big` sends the file whole.

* **`ctArchiveData_stores`** — the first `extentLength` bytes of the file;
* **`ctArchiveDataBig_stores`** — the file;
* **`extent_honoured_iff`** — so when that is the extent.
-/

namespace Estuary

open Engine

/-! ## Small files -/

section Small

variable {lib : LibS3} {env : ArchiveDataEnv} {name : CString} {content : List UInt8} {stSize : Nat}
  {hai : HsmActionItem}

/-- A `read()` that gets everything it asked for. -/
theorem sysRead_whole {n : Nat} {fault : Fault} {bytes : List UInt8}
    (h : sysRead content 0 n fault = some bytes) (hlen : bytes.length = n) :
    bytes = content.take n := by
  cases fault with
  | none =>
    cases h
    rw [List.drop_zero]
  | short k =>
    cases h
    rw [List.drop_zero, List.take_take] at hlen ⊢
    rw [List.length_take] at hlen
    rw [show min k n = n from by omega]
  | error => cases h

/-- What `ct_archive_data` got through when it returns 0. -/
theorem ctArchiveData_read (h : (ctArchiveData lib env name content stSize hai).out = .done 0) :
    env.stripeErr = 0 ∧ env.dbuf = true
      ∧ ∃ bytes, sysRead content 0 (extentLength stSize hai) env.readFault = some bytes
        ∧ bytes.length = extentLength stSize hai := by
  unfold ctArchiveData at h
  by_cases hstripe : env.stripeErr = 0
  swap
  · simp [hstripe] at h
  rw [if_neg (not_not_intro hstripe)] at h
  obtain ⟨_, -, h⟩ := Exec.bind_out_done.mp h
  cases hdbuf : env.dbuf with
  | false => simp [hdbuf, enomem] at h
  | true =>
    simp only [hdbuf, Bool.true_eq_false, if_false] at h
    refine ⟨hstripe, rfl, ?_⟩
    unfold extentLength
    cases hread : sysRead content 0 (if hai.extent.length > u64Sub stSize hai.extent.offset
        then u64Sub stSize hai.extent.offset else hai.extent.length) env.readFault with
    | none => simp [hread, eio] at h
    | some bytes =>
      refine ⟨bytes, rfl, ?_⟩
      by_contra hshort
      simp [hread, hshort, eio] at h

/-- The put that ends a successful put loop. -/
theorem putLoop_last {length budget : Nat} {bytes : List UInt8}
    {puts : Nat → PutAttempt} {data' : PutObjectCallbackData}
    (hlen : bytes.length = length)
    (hout : (putLoop lib name length puts budget 0
      { PutObjectCallbackData.zero with buffer := bytes, contentLength := length }).out
        = .done data')
    (hok : data'.status = s3StatusOK) :
    ∃ before j data, PutCounts bytes before data ∧ (puts j).status = s3StatusOK
      ∧ (putLoop lib name length puts budget 0
          { PutObjectCallbackData.zero with buffer := bytes, contentLength := length }).log
        = before ++ [.putObject name length (pullPut (puts j).pulls data).2 s3StatusOK
            (puts j).stored] := by
  rw [putLoop_eq_retryLoop] at hout ⊢
  obtain ⟨j, data, before, hretried, -, hround, hlog⟩ := retryLoop_last hout
  -- every attempt before the last kept the count of what was pulled
  have hcounts : PutCounts bytes before data := by
    refine hretried.invariant (I := fun _ => PutCounts bytes) (k := [])
      (fun i l s t hs hround _ => hs.next hround) ⟨rfl, rfl, ?_⟩
    exact (Nat.zero_add _).trans hlen.symm
  have hack : (puts j).status = s3StatusOK := by
    cases hround
    exact hok
  refine ⟨before, j, data, hcounts, hack, ?_⟩
  rw [hlog, ← hack]
  rfl

/-- **Small files**: the archived object holds the first bytes of the file. -/
theorem ctArchiveData_stores (listed : List Char → List Nat)
    (hzero : (ctArchiveData lib env name content stSize hai).out = .done 0)
    (hhonest : (ctArchiveData lib env name content stSize hai).Logs Event.Honest) (store : Store) :
    ((ctArchiveData lib env name content stSize hai).effect (Store.act listed) store).objects name
      = some (content.take (extentLength stSize hai)) := by
  obtain ⟨hstripe, hdbuf, bytes, hread, hlen⟩ := ctArchiveData_read hzero
  rw [← sysRead_whole hread hlen]
  rw [ctArchiveData_of_read hstripe hdbuf hread hlen] at hzero hhonest ⊢
  obtain ⟨_, hprogress, hput⟩ := Exec.bind_out_done.mp hzero
  unfold putFrom at hput hhonest ⊢
  obtain ⟨data', hloop, hjudged⟩ := Exec.bind_out_done.mp hput
  have hok : data'.status = s3StatusOK := by
    by_contra hno
    simp [hno, eio] at hjudged
  obtain ⟨before, j, data, hcounts, hack, hlog⟩ := putLoop_last hlen hloop hok
  rw [Exec.effect, Exec.bind_log_of_done hprogress, Exec.bind_log_of_done hloop,
    if_neg (not_not_intro hok), Exec.pure_log, List.append_nil, hlog, ← List.append_assoc,
    List.foldl_append, List.foldl_cons, List.foldl_nil]
  -- S3 acknowledged the last put, so all of the buffer was pulled in it
  obtain ⟨hkept, hwhole⟩ := hhonest (.putObject name (extentLength stSize hai)
    (pullPut (env.puts j).pulls data).2 s3StatusOK (env.puts j).stored) (by
      rw [Exec.bind_log_of_done hprogress, Exec.bind_log_of_done hloop, hlog]
      refine List.mem_append_right _ (List.mem_append_left _ (List.mem_append_right _ ?_))
      exact List.mem_singleton_self _) rfl
  obtain ⟨hbody, -, hleft, hbuffer⟩ :=
    @pullPut_spec (env.puts j).pulls data (hcounts.buffer ▸ hcounts.left)
  have hoffset : data.bufferOffset = 0 := by
    have := hcounts.left
    omega
  rw [hoffset, List.drop_zero, hwhole, hcounts.buffer, ← hlen, List.take_length] at hbody
  rw [hkept, hbody]
  exact Function.update_self _ _ _

end Small

/-! ## Large files -/

section Large

variable {cfg : Config} {lib : LibS3} {env : ArchiveDataBigEnv} {name uploadId : CString}
  {content : List UInt8} {fd : Int} {stSize totalSeq : Nat} {hai : HsmActionItem}
  {manager : UploadManager}

/-- Nothing that S3 sends back upsets the document: an acknowledged part has its headers, every
ETag fits into `buf` with its part number and opens no element, and the document's blocks are
allocated. -/
structure ArchiveDataBigEnv.Benign (env : ArchiveDataBigEnv) : Prop where
  headers : ∀ s i, (env.parts s i).status = s3StatusOK → (env.parts s i).properties.isSome
  fits : ∀ s i tag, s ≤ 10000 → (env.parts s i).properties = some (some tag) →
    (partElement (s - 1) (some tag)).length < 256
  plain : ∀ s i tag, (env.parts s i).properties = some (some tag) → '<' ∉ tag.chars
  memory : ∀ j, env.mallocs j = true

theorem partElement_length_lt {i : Nat} {eTag : Option CString} (hi : i < 10 ^ 5 - 1)
    (htag : (eTagText eTag).length ≤ 100) : (partElement i eTag).length < 256 := by
  have hdigits : (Nat.toDigits 10 (i + 1)).length ≤ 5 :=
    (Nat.length_toDigits_le_iff (by decide) (by decide)).mpr (by omega)
  have hframe : partOpen.length + numberOpen.length + numberClose.length + eTagOpen.length
      + eTagClose.length + partClose.length = 51 := by
    decide
  rw [partElement_tags]
  simp only [List.length_append]
  omega

/-- The parts at the commit phase, for every file size. -/
theorem uploadPhase_assembles (listed : List Char → List Nat) {length : Nat}
    (hsize : content.length ≤ maxFileSize)
    (hreach : (uploadPhase cfg lib env name content fd content.length length).out
      = .done (some (uploadId, totalSeq, manager)))
    (hhonest : (uploadPhase cfg lib env name content fd content.length length).Logs Event.Honest)
    (hbenign : env.Benign) (store : Store) :
    ((uploadPhase cfg lib env name content fd content.length length).effect (Store.act listed)
        store).assemble name uploadId (List.range' 1 totalSeq) = content
      ∧ ∀ i < totalSeq, (partElement i (manager.etags i)).length < 256
        ∧ PlainETag (manager.etags i) := by
  rcases Nat.eq_zero_or_pos content.length with hzero | hpos
  · -- no byte, no part
    obtain ⟨chunk, hplan, -⟩ := uploadPhase_some hreach
    have hnone : ctGetChunksize 0 = some (2 ^ 24, 0) := by decide +kernel
    rw [hzero, hnone] at hplan
    cases hplan
    refine ⟨?_, fun i hi => absurd hi (Nat.not_lt_zero i)⟩
    rw [List.length_eq_zero_iff.mp hzero]
    rfl
  · obtain ⟨chunk, hplan, hstored⟩ :=
      uploadPhase_stores listed hsize hpos hreach hhonest hbenign.headers store
    obtain ⟨chunk', totalSeq', hplan', -, -, -, -, hcover⟩ := ctGetChunksize_spec hpos hsize
    rw [hplan] at hplan'
    cases hplan'
    refine ⟨?_, fun i hi => ?_⟩
    · rw [assemble_slices fun s hfirst hlast => (hstored s hfirst hlast).kept]
      exact flatMap_slice hcover
    -- the ETag in the list is one that an acknowledged request carried, or there was no memory for it
    · have hpart := hstored (i + 1) (Nat.succ_le_succ (Nat.zero_le i)) hi
      obtain ⟨j, tag, -, -, hprop, htag⟩ := hpart.acknowledged
      rw [Nat.add_sub_cancel] at htag
      have hcount := ctGetChunksize_count hplan
      cases hcopy : (env.parts (i + 1) j).strdup with
      | false =>
        rw [hcopy, if_neg Bool.false_ne_true] at htag
        rw [htag]
        exact ⟨partElement_length_lt (by omega) (by decide +kernel), fun _ h => by cases h⟩
      | true =>
        rw [hcopy, if_pos rfl] at htag
        rw [htag]
        refine ⟨hbenign.fits (i + 1) j tag (by omega) hprop, fun tag' htag' => ?_⟩
        cases htag'
        exact hbenign.plain (i + 1) j tag hprop

/-- An honest commit phase carries the whole document, once. -/
theorem commitPhase_honest (hfits : ETagsFit totalSeq manager.etags)
    (hmemory : ∀ j, env.mallocs j = true)
    (hhonest : (commitPhase lib env name uploadId totalSeq manager).Logs Event.Honest) :
    ∃ length status, (commitPhase lib env name uploadId totalSeq manager).log
      = [.completeMultipart name uploadId length (document totalSeq manager.etags) status true] := by
  obtain ⟨hkept, hwhole⟩ := hhonest _ ((mem_commitPhase_log lib env name uploadId totalSeq manager
    _).mpr ⟨0, Nat.zero_le _, madeAfter_self _ _ _ _, rfl⟩)
  have hdocument := (@counted_bytes_eq_iff env.mallocs env.stack totalSeq manager.etags).mpr
    ⟨fun j _ => hmemory j, hfits⟩
  have hall : commitPos (buildDocument env.mallocs env.stack totalSeq manager.etags).ret env.commits 1
      = (buildDocument env.mallocs env.stack totalSeq manager.etags).ret := by
    have hle := (streaming_start env totalSeq manager).total_le
    have hend := commitPos_le (buildDocument env.mallocs env.stack totalSeq manager.etags).ret
      env.commits 1
    rw [commitPos, List.drop_zero, Nat.sub_zero, Nat.sub_zero, List.length_take] at hwhole
    rw [commitPos] at hwhole hend ⊢
    omega
  refine ⟨(buildDocument env.mallocs env.stack totalSeq manager.etags).ret,
    (env.commits 0).status, ?_⟩
  rw [commitPhase_first lib env name uploadId totalSeq manager hall, commitEvent, hall, hkept,
    commitPos, List.drop_zero, Nat.sub_zero, hdocument]

/-- **Large files**: the archived object is the file. -/
theorem ctArchiveDataBig_stores (server : S3Server) (hsize : content.length ≤ maxFileSize)
    (hbenign : env.Benign)
    (hzero : (ctArchiveDataBig cfg lib env name content fd content.length hai).out = .done 0)
    (hhonest : (ctArchiveDataBig cfg lib env name content fd content.length hai).Logs Event.Honest)
    (store : Store) :
    ((ctArchiveDataBig cfg lib env name content fd content.length hai).effect
      (Store.act server.listed) store).objects name = some content := by
  obtain ⟨uploadId, totalSeq, manager, hreach⟩ := reachesCommit_of_zero hzero
  rw [ctArchiveDataBig_eq hreach] at hhonest ⊢
  have hupload : (uploadPhase cfg lib env name content fd content.length
      (extentLength content.length hai)).Logs Event.Honest :=
    fun e he => hhonest e (List.mem_append_right _ (List.mem_append_left _ he))
  obtain ⟨hassembled, hetags⟩ :=
    uploadPhase_assembles server.listed hsize hreach.2 hupload hbenign store
  obtain ⟨length, status, hcommit⟩ := @commitPhase_honest lib env name uploadId
    totalSeq manager (fun i hi => (hetags i hi).1) hbenign.memory
    fun e he => hhonest e (List.mem_append_right _ (List.mem_append_right _ he))
  have hprogress : ∀ e ∈ (llapiHsmActionProgressEx hai.extent.offset 0
      (extentLength content.length hai) env.progressRcs).log, ∀ store : Store,
      store.act server.listed e = store :=
    fun e he store => Store.act_of_progress (progress_logs _ _ _ _ e he)
  rw [Exec.effect, List.foldl_append, Exec.foldl_of_frame _ hprogress, hcommit, List.foldl_append,
    List.foldl_cons, List.foldl_nil]
  show Function.update _ name _ name = _
  rw [Function.update_self, server.listed_document totalSeq _ fun i hi => (hetags i hi).2]
  exact congrArg some hassembled

end Large

/-! ## Extents -/

/-- The bytes of an item's extent, as far as the file has them. -/
def extentBytes (content : List UInt8) (hai : HsmActionItem) : List UInt8 :=
  (content.drop hai.extent.offset).take
    (min hai.extent.length (content.length - hai.extent.offset))

section Extent

variable {content : List UInt8} {hai : HsmActionItem}

theorem extentLength_eq {stSize : Nat} (hsize : stSize ≤ maxFileSize)
    (hoffset : hai.extent.offset ≤ stSize) :
    extentLength stSize hai = min hai.extent.length (stSize - hai.extent.offset) := by
  have hleft : u64Sub stSize hai.extent.offset = stSize - hai.extent.offset := by
    unfold maxFileSize at hsize
    exact u64Sub_of_le hoffset (by omega)
  rw [extentLength, hleft]
  split <;> omega

/-- The extent is the whole file exactly when it begins with it and does not end before it. -/
theorem extentBytes_eq_iff (hoffset : hai.extent.offset ≤ content.length) :
    content = extentBytes content hai
      ↔ hai.extent.offset = 0 ∧ content.length ≤ hai.extent.length := by
  constructor
  · intro heq
    have hlen := congrArg List.length heq
    rw [extentBytes, List.length_take, List.length_drop] at hlen
    omega
  · rintro ⟨hzero, hle⟩
    rw [extentBytes, hzero, List.drop_zero, Nat.sub_zero, Nat.min_eq_right hle, List.take_length]

end Extent

/-- `ct_archive_data` returns 0, S3 keeping its promises, and `object` is what it leaves behind. -/
structure StoresSmall (lib : LibS3) (server : S3Server) (store : Store) (name : CString)
    (content : List UInt8) (hai : HsmActionItem) (env : ArchiveDataEnv) (object : List UInt8) :
    Prop where
  zero : (ctArchiveData lib env name content content.length hai).out = .done 0
  honest : (ctArchiveData lib env name content content.length hai).Logs Event.Honest
  object : ((ctArchiveData lib env name content content.length hai).effect
    (Store.act server.listed) store).objects name = some object

/-- `ct_archive_data_big` returns 0, S3 keeping its promises, and `object` is what it leaves
behind. -/
structure StoresBig (cfg : Config) (lib : LibS3) (server : S3Server) (store : Store)
    (name : CString) (content : List UInt8) (fd : Int) (hai : HsmActionItem)
    (env : ArchiveDataBigEnv) (object : List UInt8) : Prop where
  zero : (ctArchiveDataBig cfg lib env name content fd content.length hai).out = .done 0
  honest : (ctArchiveDataBig cfg lib env name content fd content.length hai).Logs Event.Honest
  benign : env.Benign
  object : ((ctArchiveDataBig cfg lib env name content fd content.length hai).effect
    (Store.act server.listed) store).objects name = some object

section Honoured

variable {cfg : Config} {lib : LibS3} {server : S3Server} {store : Store} {name : CString}
  {content object : List UInt8} {fd : Int} {hai : HsmActionItem}

theorem StoresSmall.object_eq {env : ArchiveDataEnv}
    (h : StoresSmall lib server store name content hai env object)
    (hsize : content.length ≤ maxFileSize) (hoffset : hai.extent.offset ≤ content.length) :
    object = content.take (min hai.extent.length (content.length - hai.extent.offset)) := by
  have hobject := h.object
  rw [ctArchiveData_stores server.listed h.zero h.honest, extentLength_eq hsize hoffset] at hobject
  exact (Option.some.inj hobject).symm

theorem StoresBig.object_eq {env : ArchiveDataBigEnv}
    (h : StoresBig cfg lib server store name content fd hai env object)
    (hsize : content.length ≤ maxFileSize) : object = content := by
  have hobject := h.object
  rw [ctArchiveDataBig_stores server hsize h.benign h.zero h.honest] at hobject
  exact (Option.some.inj hobject).symm

end Honoured

/-- **When the extent is honoured**: by `ct_archive_data` exactly when the first bytes of the file
are those of the extent, by `ct_archive_data_big` exactly when the extent is the whole file, and
only then do the two paths store the same. -/
theorem extent_honoured_iff (cfg : Config) (lib : LibS3) (server : S3Server) (store : Store)
    (name : CString) (content : List UInt8) (fd : Int) (hai : HsmActionItem)
    (hsize : content.length ≤ maxFileSize) (hoffset : hai.extent.offset ≤ content.length) :
    (∀ env object, StoresSmall lib server store name content hai env object →
        (object = extentBytes content hai
          ↔ content.take (min hai.extent.length (content.length - hai.extent.offset))
            = extentBytes content hai))
      ∧ (∀ env object, StoresBig cfg lib server store name content fd hai env object →
        (object = extentBytes content hai
          ↔ hai.extent.offset = 0 ∧ content.length ≤ hai.extent.length))
      ∧ ∀ small big object object', StoresSmall lib server store name content hai small object →
        StoresBig cfg lib server store name content fd hai big object' →
        (object = object' ↔ hai.extent.offset = 0 ∧ content.length ≤ hai.extent.length) := by
  refine ⟨fun env object h => ?_, fun env object h => ?_, fun small big object object' h h' => ?_⟩
  · rw [h.object_eq hsize hoffset]
  · rw [h.object_eq hsize]
    exact extentBytes_eq_iff hoffset
  · rw [h.object_eq hsize hoffset, h'.object_eq hsize]
    constructor
    · intro heq
      have hlen := congrArg List.length heq
      rw [List.length_take] at hlen
      omega
    · rintro ⟨hzero, hle⟩
      rw [hzero, Nat.sub_zero, Nat.min_eq_right hle, List.take_length]

/-- On a quiet day, with a commit that takes the document in one block. -/
def ArchiveDataBigEnv.kept (content : List UInt8) : ArchiveDataBigEnv :=
  { ArchiveDataBigEnv.smooth content with commits := fun _ => ⟨[blockSize], s3StatusOK, true⟩ }

theorem benign_kept (content : List UInt8) : (ArchiveDataBigEnv.kept content).Benign := by
  refine ⟨fun _ _ _ => rfl, fun s i tag hs htag => ?_, fun s i tag htag => ?_, fun _ => rfl⟩
  · cases htag
    exact partElement_length_lt (by omega) (by decide)
  · cases htag
    decide

/-- A file of 256 MiB is archived whole. -/
theorem storesBig_kept (cfg : Config) (server : S3Server) (store : Store) (name : CString)
    {content : List UInt8} (hlen : content.length = 2 ^ 28) (hai : HsmActionItem) :
    StoresBig cfg .upstream server store name content 3 hai (.kept content) content := by
  have hsize : content.length ≤ maxFileSize := by rw [hlen]; decide +kernel
  have hfd : (3 : Int) ≠ 0 := by decide
  obtain ⟨chunk, totalSeq, manager, hplan, hreach, hetags⟩ :=
    reachesCommit_smooth cfg .upstream name content hai (ArchiveDataBigEnv.kept content).commits
      hfd (show 0 < content.length by omega) hsize
  obtain rfl : totalSeq = 16 := by
    have hsixteen : ctGetChunksize (2 ^ 28) = some (2 ^ 24, 16) := by decide +kernel
    rw [hlen, hsixteen] at hplan
    cases hplan
    rfl
  have hreach : ReachesCommit cfg .upstream (.kept content) name content 3 content.length hai
      (cstr ['i', 'd']) 16 manager := hreach
  have hlast := takesLast_block .upstream (.kept content) rfl hetags
  have hzero := (ctArchiveDataBig_zero_iff hreach).mpr ⟨0, hlast⟩
  have hhonest : (ctArchiveDataBig cfg .upstream (.kept content) name content 3 content.length
      hai).Logs Event.Honest := by
    rw [ctArchiveDataBig_eq hreach]
    intro e he
    rcases List.mem_append.mp he with he | he
    · exact logs_progress _ _ _ _ (fun _ => trivial) e he
    rcases List.mem_append.mp he with he | he
    · exact honest_uploadPhase_smooth hfd (by omega) hsize e he
    -- the one commit sends the whole body, as many bytes as it announces
    · have hbuffered := (streaming_start (.kept content) 16 manager).total_le
      rw [commitPhase_first _ _ _ _ _ _ hlast.2.2, List.mem_singleton, commitEvent,
        hlast.2.2] at he
      cases he
      refine ⟨rfl, ?_⟩
      rw [commitPos, List.drop_zero, List.length_take]
      omega
  exact ⟨hzero, hhonest, benign_kept content,
    ctArchiveDataBig_stores server hsize (benign_kept content) hzero hhonest store⟩

/-- The second byte of a file. -/
def HsmExtent.second : HsmExtent := ⟨1, 1, by decide, by decide⟩

/-- The archive of the second byte of a file with two: `ct_archive_data` stores the first one. -/
theorem storesSmall_second (server : S3Server) :
    StoresSmall .upstream server .empty (cstr ['f']) [1, 2] ⟨.archive, ⟨1, 2, 0⟩, .second⟩
      (.smooth [1, 2]) [1] := by
  have hrun : ctArchiveData .upstream (.smooth [1, 2]) (cstr ['f']) [1, 2] 2
      ⟨.archive, ⟨1, 2, 0⟩, .second⟩
        = ⟨[.actionProgress 0 0 1 0, .putObject (cstr ['f']) 1 [1] 0 true], .done 0⟩ := by
    rfl
  refine ⟨?_, ?_, ?_⟩
  · exact congrArg Exec.out hrun
  · show (ctArchiveData .upstream (.smooth [1, 2]) (cstr ['f']) [1, 2] 2
      ⟨.archive, ⟨1, 2, 0⟩, .second⟩).Logs Event.Honest
    rw [hrun]
    intro e he
    simp only [List.mem_cons, List.not_mem_nil, or_false] at he
    rcases he with rfl | rfl
    · trivial
    · exact fun _ => ⟨rfl, rfl⟩
  · show ((ctArchiveData .upstream (.smooth [1, 2]) (cstr ['f']) [1, 2] 2
      ⟨.archive, ⟨1, 2, 0⟩, .second⟩).effect (Store.act server.listed) .empty).objects _ = _
    rw [hrun]
    rfl

/-- The second byte of a file of two bytes, and a file of 256 MiB as a whole. -/
theorem extent_honoured_instances :
    (([1] : List UInt8) = extentBytes [1, 2] ⟨.archive, ⟨1, 2, 0⟩, .second⟩
        ↔ ([1, 2] : List UInt8).take 1 = extentBytes [1, 2] ⟨.archive, ⟨1, 2, 0⟩, .second⟩)
      ∧ List.replicate (2 ^ 28) (0 : UInt8)
        = extentBytes (List.replicate (2 ^ 28) 0) ⟨.archive, ⟨1, 2, 0⟩, .whole⟩ := by
  refine ⟨?_, ?_⟩
  · exact (extent_honoured_iff (.setup (cstr ['/', 'l']) (cstr ['/', 'l'])) .upstream .reader .empty
      (cstr ['f']) [1, 2] 3 ⟨.archive, ⟨1, 2, 0⟩, .second⟩ (by decide +kernel) (by decide)).1 _ _
      (storesSmall_second .reader)
  · have hlen : (List.replicate (2 ^ 28) (0 : UInt8)).length = 2 ^ 28 := List.length_replicate
    generalize List.replicate (2 ^ 28) (0 : UInt8) = content at hlen ⊢
    have hsize : content.length ≤ maxFileSize := by rw [hlen]; decide +kernel
    have hwhole : content.length ≤ u64Max := by rw [hlen]; decide +kernel
    exact ((extent_honoured_iff (.setup (cstr ['/', 'l']) (cstr ['/', 'l'])) .upstream .reader
      .empty (cstr ['f']) content 3 ⟨.archive, ⟨1, 2, 0⟩, .whole⟩ hsize (Nat.zero_le _)).2.1 _ _
      (storesBig_kept _ .reader .empty (cstr ['f']) hlen _)).mpr ⟨rfl, hwhole⟩

/-- The archive of the second byte of a two-byte file returns 0 with the first byte stored. -/
theorem archive_ignores_offset :
    StoresSmall .upstream .reader .empty (cstr ['f']) [1, 2] ⟨.archive, ⟨1, 2, 0⟩, .second⟩
        (.smooth [1, 2]) [1]
      ∧ ([1] : List UInt8) ≠ extentBytes [1, 2] ⟨.archive, ⟨1, 2, 0⟩, .second⟩ := by
  refine ⟨storesSmall_second .reader, ?_⟩
  decide

end Estuary
