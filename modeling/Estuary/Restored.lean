import Estuary.Download
import Estuary.Engine.Patch

/-!
# Estuary — the restored file

The destination file is what the writes of a download make of an empty file. A range that failed
half-way is asked for again and written over the same place, so what matters is not which write
comes last but that every write puts bytes of the object where they belong.

* **`Holds`** — along a log the file grows without gaps, by bytes that are where a source has them;
* **`getPieces_holds`**, **`s3GetObject_holds`**, **`getLoop_holds`** — a response, a request, and
  the loop, whose requests may meet different versions of the object;
* **`restore_correct`** — of one object, the file is an initial segment all along, and the object
  when `get_s3_object` returns 0.
-/

namespace Estuary

open Engine

/-! ## The file -/

/-- What an entry of the log does to the destination file. -/
def fileAct (file : List UInt8) : Event → List UInt8
  | .write pos bytes => patch 0 file pos bytes
  | _ => file

/-- Along these entries, a file of `m` bytes that are all where `source` has them grows to one of
`m'` such bytes. -/
inductive Holds (source : Nat → UInt8 → Prop) : Nat → List Event → Nat → Prop where
  | nil (m : Nat) : Holds source m [] m
  | write {m m' pos : Nat} {bytes : List UInt8} {log : List Event} (hpos : pos ≤ m)
      (hbytes : Placed source pos bytes) (rest : Holds source (max m (pos + bytes.length)) log m') :
      Holds source m (.write pos bytes :: log) m'
  | other {m m' : Nat} {e : Event} {log : List Event} (h : ∀ file, fileAct file e = file)
      (rest : Holds source m log m') : Holds source m (e :: log) m'

namespace Holds

variable {source : Nat → UInt8 → Prop} {m m₁ m' : Nat} {log log' : List Event}

theorem append (h : Holds source m log m₁) (h' : Holds source m₁ log' m') :
    Holds source m (log ++ log') m' := by
  induction h with
  | nil => exact h'
  | write hpos hbytes _ ih => exact .write hpos hbytes (ih h')
  | other hframe _ ih => exact .other hframe (ih h')

/-- The file after a part of the entries. -/
theorem split (h : Holds source m (log ++ log') m') :
    ∃ m₁, Holds source m log m₁ ∧ Holds source m₁ log' m' := by
  induction log generalizing m with
  | nil => exact ⟨m, .nil m, h⟩
  | cons e log ih =>
    cases h with
    | write hpos hbytes rest =>
      obtain ⟨m₁, hfirst, hrest⟩ := ih rest
      exact ⟨m₁, .write hpos hbytes hfirst, hrest⟩
    | other hframe rest =>
      obtain ⟨m₁, hfirst, hrest⟩ := ih rest
      exact ⟨m₁, .other hframe hfirst, hrest⟩

theorem le (h : Holds source m log m') : m ≤ m' := by
  induction h with
  | nil => exact Nat.le_refl _
  | write _ _ _ ih => exact Nat.le_trans (Nat.le_max_left _ _) ih
  | other _ _ ih => exact ih

/-- **The file along the entries.** -/
theorem file (h : Holds source m log m') {file : List UInt8} (hlen : file.length = m)
    (hfile : Placed source 0 file) :
    (log.foldl fileAct file).length = m' ∧ Placed source 0 (log.foldl fileAct file) := by
  induction h generalizing file with
  | nil => exact ⟨hlen, hfile⟩
  | @write m m' pos bytes log hpos hbytes _ ih =>
    subst hlen
    exact ih (patch_length 0 hpos) (hfile.patch 0 hpos hbytes)
  | other hframe _ ih =>
    rw [List.foldl_cons, hframe]
    exact ih hlen hfile

end Holds

/-! ## Answers as S3 specifies them -/

/-- The bytes a response hands over. -/
def GetAttempt.body (attempt : GetAttempt) : List UInt8 := attempt.pieces.flatMap Piece.buffer

/-- The bytes of a range request at `start`. -/
def rangeOf (obj : List UInt8) (start : Nat) : List UInt8 := (obj.drop start).take chunkSize

theorem rangeOf_length (obj : List UInt8) (start : Nat) :
    (rangeOf obj start).length = min chunkSize (obj.length - start) := by
  rw [rangeOf, List.length_take, List.length_drop]

/-- S3's answer to a range request at `start` of an object: it delivers the range in order, as
far as it gets; a success delivers all of it and announces its length; only a range behind the
end is invalid. -/
structure HonestGet (lib : LibS3) (obj : List UInt8) (start : Nat) (attempt : GetAttempt) :
    Prop where
  ordered : attempt.body <+: rangeOf obj start
  whole : attempt.status = s3StatusOK → attempt.body = rangeOf obj start
  length : attempt.status = s3StatusOK →
    ∀ len, announced len attempt = (rangeOf obj start).length
  inside : attempt.status = s3StatusOK → start < obj.length
  behind : attempt.status = lib.errorInvalidRange → obj.length ≤ start

/-- What S3 delivers for a version of the object is where that version has it. -/
theorem HonestGet.placed {lib : LibS3} {obj : List UInt8} {start : Nat} {attempt : GetAttempt}
    {source : Nat → UInt8 → Prop} (h : HonestGet lib obj start attempt)
    (hsource : ∀ i b, obj[i]? = some b → source i b) : Placed source start attempt.body := by
  intro j b hj
  have hrange : Placed (fun i b => obj[i]? = some b) start (obj.drop start) :=
    Placed.drop (placed_iff_initial.mpr (List.prefix_refl _)) start
  exact hsource _ _ (hrange.of_prefix (h.ordered.trans (List.take_prefix _ _)) j b hj)

/-- The answers to a download from request `i` for the range at `start` on, request `i` being
answered from `version i` of the object: after a success the next range is asked for, after
anything else the same one. -/
def ServedAcross (lib : LibS3) (version : Nat → List UInt8) : List GetAttempt → Nat → Nat → Prop
  | [], _, _ => True
  | attempt :: attempts, i, start =>
    HonestGet lib (version i) start attempt
      ∧ ServedAcross lib version attempts (i + 1)
          (if attempt.outcome lib = s3StatusOK then start + chunkSize else start)

/-- The answers to a download of one object. -/
def ServedFrom (lib : LibS3) (obj : List UInt8) (attempts : List GetAttempt) (start : Nat) : Prop :=
  ServedAcross lib (fun _ => obj) attempts 0 start

/-- A request that was refused by the destination file did not end with the status of S3. -/
theorem status_of_outcome {lib : LibS3} {attempt : GetAttempt} {status : Nat}
    (h : attempt.outcome lib = status) (hne : lib.abortedByCallback ≠ status) :
    attempt.status = status ∧ attempt.pieces.all Piece.accepted = true := by
  unfold GetAttempt.outcome at h
  by_cases hall : attempt.pieces.all Piece.accepted = true
  · rw [if_pos hall] at h
    exact ⟨h, hall⟩
  · rw [if_neg hall] at h
    exact absurd h hne

/-! ## The download -/

theorem sysWrite_starts {buffer wrote : List UInt8} {fault : Fault}
    (h : sysWrite buffer fault = some wrote) : wrote <+: buffer := by
  cases fault with
  | none =>
    cases h
    exact List.prefix_refl _
  | short k =>
    cases h
    exact List.take_prefix _ _
  | error => cases h

/-- The pieces of a response extend the file, to their end if they are all accepted. -/
theorem getPieces_holds {source : Nat → UInt8 → Prop} (len : Nat) {pieces : List Piece} {pos m : Nat}
    (hpos : pos ≤ m) (hpieces : Placed source pos (pieces.flatMap Piece.buffer)) :
    ∃ m', Holds source m (getPieces len pieces pos).log m'
      ∧ ((getPieces len pieces pos).out = .done true →
          pos + (pieces.flatMap Piece.buffer).length ≤ m') := by
  induction pieces generalizing pos m with
  | nil => exact ⟨m, .nil m, fun _ => hpos⟩
  | cons piece pieces ih =>
    rw [getPieces]
    by_cases hlen : len = 0
    · rw [if_pos hlen]
      exact ⟨m, .nil m, fun h => by cases h⟩
    rw [if_neg hlen]
    cases hw : sysWrite piece.buffer piece.fault with
    | none => exact ⟨m, .nil m, fun h => by cases h⟩
    | some wrote =>
      rw [List.flatMap_cons] at hpieces ⊢
      obtain ⟨hbuffer, hrest⟩ := Placed.append_iff.mp hpieces
      have hwrote : Placed source pos wrote := hbuffer.of_prefix (sysWrite_starts hw)
      simp only [Exec.emit_bind]
      by_cases hshort : wrote.length < piece.buffer.length
      · simp only [hshort, if_true, Exec.pure_log, Exec.pure_out]
        exact ⟨_, .write hpos hwrote (.nil _), fun h => by cases h⟩
      -- the piece was written whole, the rest follows right behind it
      have heq : wrote = piece.buffer := (sysWrite_starts hw).eq_of_length_le (by omega)
      rw [← heq] at hrest
      obtain ⟨m', hholds, hall⟩ := ih (Nat.le_max_right m _) hrest
      simp only [hshort, if_false]
      refine ⟨m', .write hpos hwrote hholds, fun hout => ?_⟩
      have := hall hout
      rw [List.length_append, ← heq]
      omega

/-- One request extends the file, to the end of its range if it succeeds. -/
theorem s3GetObject_holds {lib : LibS3} {obj : List UInt8} {source : Nat → UInt8 → Prop}
    {attempt : GetAttempt} {startByte m : Nat} (name : CString) (byteCount : Nat)
    (data : GetObjectCallbackData) (hhonest : HonestGet lib obj startByte attempt)
    (hsource : ∀ i b, obj[i]? = some b → source i b) (hpos : startByte ≤ m)
    (hann : Announces data.contentLength attempt) :
    ∃ m', Holds source m (s3GetObject lib name startByte byteCount attempt data).log m'
      ∧ (attempt.outcome lib = s3StatusOK →
          startByte + (rangeOf obj startByte).length ≤ m') := by
  have hout := getPieces_out
    (show attempt.pieces ≠ [] → (getProperties data attempt.properties).contentLength ≠ 0 from
      getProperties_contentLength ▸ hann) startByte
  obtain ⟨m', hholds, hall⟩ := getPieces_holds
    (getProperties data attempt.properties).contentLength hpos (hhonest.placed hsource)
  refine ⟨m', ?_, fun hok => ?_⟩
  · rw [s3GetObject]
    simp only [Exec.bind_log_of_done hout]
    exact hholds.append (.other (fun _ => rfl) (.nil m'))
  · obtain ⟨hstatus, hacc⟩ := status_of_outcome hok lib.abortedByCallback_ne_ok
    rw [← hhonest.whole hstatus]
    exact hall (by rw [hout, hacc])

/-- **The download loop**, each request answered from its own version of the object. The file only
grows, by bytes of these versions; when the loop ends with `S3StatusOK`, it is at least as long as
the version that answered last, and `totalLength` lies between the two lengths. -/
theorem getLoop_holds {lib : LibS3} {version : Nat → List UInt8} {source : Nat → UInt8 → Prop}
    (hsource : ∀ n i b, (version n)[i]? = some b → source i b) (name : CString)
    {attempts : List GetAttempt} {i m : Nat} {s : GetState}
    (hserved : ServedAcross lib version attempts i s.startByte) (hpos : s.startByte ≤ m)
    (hcounted : s.data.totalLength = s.startByte) :
    ∃ m', Holds source m (answered (getStep lib name) attempts s).log m'
      ∧ ∀ data, (answered (getStep lib name) attempts s).out = .done data →
          data.status = s3StatusOK →
            ∃ n, (version n).length ≤ data.totalLength ∧ data.totalLength ≤ m' := by
  induction attempts generalizing i m s with
  | nil => exact ⟨m, .nil m, fun _ h => by cases h⟩
  | cons attempt attempts ih =>
    obtain ⟨hhonest, hrest⟩ := hserved
    by_cases hann : Announces s.data.contentLength attempt
    swap
    · rw [answered, getStep_dead hann, Exec.die_bind]
      exact ⟨m, .nil m, fun _ h => by cases h⟩
    obtain ⟨next, hout, hround⟩ := @getStep_round lib name attempt s hann
    obtain ⟨m₁, hholds, hwhole⟩ :=
      s3GetObject_holds name chunkSize s.data hhonest (hsource i) hpos hann
    have hmono := hholds.le
    have hrange := rangeOf_length (version i) s.startByte
    cases hround with
    | @full data hok hfull hlen htotal =>
      rw [answered_again hout, getStep_log]
      have hlength := hhonest.length (status_of_outcome hok lib.abortedByCallback_ne_ok).1
        s.data.contentLength
      have hle := hwhole hok
      rw [if_pos hok] at hrest
      have hpos' : s.startByte + chunkSize ≤ m₁ := by omega
      have hcounted' : data.totalLength = s.startByte + chunkSize := by omega
      obtain ⟨m', hholds', hend⟩ := @ih (i + 1) m₁
        ⟨s.startByte + chunkSize, s.retry_count, data⟩ hrest hpos' hcounted'
      exact ⟨m', hholds.append hholds', hend⟩
    | @short data hok hshort hlen htotal =>
      -- a short range is the last one
      rw [answered_leave hout, getStep_log]
      obtain ⟨hattempt, -⟩ := status_of_outcome hok lib.abortedByCallback_ne_ok
      have hlength := hhonest.length hattempt s.data.contentLength
      have hinside := hhonest.inside hattempt
      have hle := hwhole hok
      refine ⟨m₁, hholds, fun data' hdata' _ => ⟨i, ?_⟩⟩
      cases hdata'
      omega
    | @behind data hinvalid hlen htotal =>
      rw [answered_leave hout, getStep_log]
      have hbehind :=
        hhonest.behind (status_of_outcome hinvalid lib.abortedByCallback_ne_invalidRange).1
      refine ⟨m₁, hholds, fun data' hdata' _ => ⟨i, ?_⟩⟩
      cases hdata'
      omega
    | @again data hfail hinvalid hretry hshould hlen htotal =>
      -- the same range again
      rw [answered_again hout, getStep_log]
      rw [if_neg hfail] at hrest
      obtain ⟨m', hholds', hend⟩ := @ih (i + 1) m₁
        ⟨s.startByte, (shouldRetry s.retry_count).2, data⟩ hrest (Nat.le_trans hpos hmono)
        (htotal.trans hcounted)
      exact ⟨m', hholds.append hholds', hend⟩
    | gaveUp hfail hinvalid hover hstatus =>
      rw [answered_leave hout, getStep_log]
      refine ⟨m₁, hholds, fun data' hdata' hok => ?_⟩
      cases hdata'
      exact absurd (hstatus.symm.trans hok) hfail

theorem getS3Object_log {lib : LibS3} {name : CString} {attempts : List GetAttempt} :
    (getS3Object lib name attempts).log = (answered (getStep lib name) attempts .first).log := by
  rw [getS3Object_eq]
  exact Exec.bind_log_of_quiet fun data => by split <;> rfl

/-- A download that returned 0 left its loop with `S3StatusOK`. -/
theorem getS3Object_zero {lib : LibS3} {name : CString} {attempts : List GetAttempt}
    {data : GetObjectCallbackData} (h : (getS3Object lib name attempts).out = .done (0, data)) :
    (answered (getStep lib name) attempts .first).out = .done data ∧ data.status = s3StatusOK := by
  rw [getS3Object_eq] at h
  obtain ⟨data', hloop, hjudged⟩ := Exec.bind_out_done.mp h
  have hok : data'.status = s3StatusOK := by
    by_contra hno
    simp [hno, eio] at hjudged
  rw [if_neg (not_not_intro hok)] at hjudged
  cases hjudged
  exact ⟨hloop, hok⟩

/-- The download as a whole: every byte that is ever in the file comes from a version. -/
theorem getS3Object_holds {lib : LibS3} {version : Nat → List UInt8} {source : Nat → UInt8 → Prop}
    (hsource : ∀ n i b, (version n)[i]? = some b → source i b) (name : CString)
    {attempts : List GetAttempt} (hserved : ServedAcross lib version attempts 0 0) :
    (∀ log, log <+: (getS3Object lib name attempts).log →
        Placed source 0 (log.foldl fileAct []))
      ∧ ∀ data, (getS3Object lib name attempts).out = .done (0, data) →
          ∃ n, (version n).length ≤ data.totalLength
            ∧ data.totalLength ≤ ((getS3Object lib name attempts).effect fileAct []).length := by
  obtain ⟨m', hholds, hend⟩ := @getLoop_holds lib version source hsource name attempts 0 0 .first
    hserved (Nat.le_refl 0) rfl
  refine ⟨fun log hlog => ?_, fun data hout => ?_⟩
  · rw [getS3Object_log] at hlog
    obtain ⟨rest, hrest⟩ := hlog
    rw [← hrest] at hholds
    obtain ⟨m₁, hfirst, -⟩ := hholds.split
    exact (hfirst.file rfl (Placed.nil _ _)).2
  · obtain ⟨hloop, hok⟩ := getS3Object_zero hout
    rw [Exec.effect, getS3Object_log, (hholds.file rfl (Placed.nil _ _)).1]
    exact hend data hloop hok

/-- **Restore correctness.** At every moment of a download the file is an initial segment of the
object; when `get_s3_object` returns 0, it is the object, and `totalLength` is its size. -/
theorem restore_correct {lib : LibS3} {obj : List UInt8} (name : CString)
    {attempts : List GetAttempt} (hserved : ServedFrom lib obj attempts 0) :
    (∀ log, log <+: (getS3Object lib name attempts).log → log.foldl fileAct [] <+: obj)
      ∧ ∀ data, (getS3Object lib name attempts).out = .done (0, data) →
          (getS3Object lib name attempts).effect fileAct [] = obj
            ∧ data.totalLength = obj.length := by
  obtain ⟨hplaced, hend⟩ := @getS3Object_holds lib (fun _ => obj) (fun i b => obj[i]? = some b)
    (fun _ _ _ h => h) name attempts hserved
  have hinitial : ∀ log, log <+: (getS3Object lib name attempts).log →
      log.foldl fileAct [] <+: obj := fun log hlog => placed_iff_initial.mp (hplaced log hlog)
  refine ⟨hinitial, fun data hout => ?_⟩
  have hfile : (getS3Object lib name attempts).effect fileAct [] <+: obj :=
    hinitial _ (List.prefix_refl _)
  obtain ⟨-, hlow, hhigh⟩ := hend data hout
  have hle := hfile.length_le
  exact ⟨hfile.eq_of_length_le (by omega), by omega⟩

theorem chunkSize_gt : 1 < chunkSize := by
  unfold chunkSize
  decide

/-- An object smaller than a range, in one piece. -/
theorem honestGet_smooth (lib : LibS3) {content : List UInt8} (hne : content ≠ [])
    (hlen : content.length ≤ chunkSize) : HonestGet lib content 0 (.smooth content) := by
  have hrange : rangeOf content 0 = content := List.take_of_length_le hlen
  have hbody : (GetAttempt.smooth content).body = content := by
    simp [GetAttempt.body, GetAttempt.smooth]
  refine ⟨?_, fun _ => ?_, fun _ _ => ?_, fun _ => List.length_pos_iff.mpr hne,
    fun hrange => absurd hrange.symm lib.invalidRange_ne_ok⟩
  · exact hbody.trans hrange.symm ▸ List.prefix_refl _
  · rw [hrange, hbody]
  · rw [hrange]
    rfl

/-- A download of two bytes: the first response breaks off after one of them. -/
def brokenOff : List GetAttempt :=
  [⟨some ⟨2, none⟩, [⟨[1], .none⟩], LibS3.upstream.errorInternalError⟩, .smooth [1, 2]]

theorem servedFrom_brokenOff : ServedFrom .upstream [1, 2] brokenOff 0 := by
  have hrange : rangeOf [1, 2] 0 = [1, 2] := List.take_of_length_le chunkSize_gt
  have hfirst : HonestGet .upstream [1, 2] 0
      ⟨some ⟨2, none⟩, [⟨[1], .none⟩], LibS3.upstream.errorInternalError⟩ := by
    refine ⟨?_, (nomatch ·), (nomatch ·), (nomatch ·), (nomatch ·)⟩
    rw [hrange]
    exact ⟨[2], rfl⟩
  exact ⟨hfirst, honestGet_smooth _ (by decide) chunkSize_gt, trivial⟩

theorem restore_correct_brokenOff :
    ∃ data, (getS3Object .upstream (cstr ['f']) brokenOff).out = .done (0, data)
      ∧ (getS3Object .upstream (cstr ['f']) brokenOff).effect fileAct [] = [1, 2]
      ∧ data.totalLength = 2 := by
  have hout : (getS3Object .upstream (cstr ['f']) brokenOff).out = .done (0, ⟨2, 2, 0, []⟩) := by
    decide +kernel
  obtain ⟨hfile, htotal⟩ :=
    (restore_correct (cstr ['f']) servedFrom_brokenOff).2 ⟨2, 2, 0, []⟩ hout
  exact ⟨_, hout, hfile, htotal⟩

/-! ## An object that is overwritten -/

/-- The whole range in one piece, which the destination file accepts. -/
def GetAttempt.ranged (obj : List UInt8) (start : Nat) (eTag : CString) : GetAttempt :=
  ⟨some ⟨(rangeOf obj start).length, some eTag⟩, [⟨rangeOf obj start, .none⟩], s3StatusOK⟩

section Ranged

variable {lib : LibS3} {obj : List UInt8} {start : Nat} {eTag : CString}

theorem honestGet_ranged (h : start < obj.length) :
    HonestGet lib obj start (.ranged obj start eTag) := by
  have hbody : (GetAttempt.ranged obj start eTag).body = rangeOf obj start := by
    simp [GetAttempt.body, GetAttempt.ranged]
  exact ⟨hbody ▸ List.prefix_refl _, fun _ => hbody, fun _ _ => rfl, fun _ => h,
    fun hrange => absurd hrange.symm lib.invalidRange_ne_ok⟩

theorem outcome_ranged : (GetAttempt.ranged obj start eTag).outcome lib = s3StatusOK := by
  simp [GetAttempt.outcome, GetAttempt.ranged, Piece.accepted, sysWrite]

theorem s3GetObject_ranged (name : CString) (byteCount : Nat) (data : GetObjectCallbackData)
    (hlen : (rangeOf obj start).length ≠ 0) :
    ∃ md5, s3GetObject lib name start byteCount (.ranged obj start eTag) data
      = ⟨[.write start (rangeOf obj start), .getObject name start byteCount s3StatusOK],
        .done ⟨data.totalLength, (rangeOf obj start).length, s3StatusOK, md5⟩⟩ := by
  refine ⟨(eTag.chars.drop 1).take 32, ?_⟩
  simp only [s3GetObject, GetAttempt.ranged, getProperties, getPieces, sysWrite,
    s3ResponseGetObjectPropertiesCallback, if_neg hlen, Nat.lt_irrefl, if_false]
  rfl

/-- The answers to a download that goes through: `n` full ranges from `start` on, and that the next
one lies behind the end. -/
def fullGets (lib : LibS3) (obj : List UInt8) : Nat → Nat → List GetAttempt
  | _, 0 => [⟨none, [], lib.errorInvalidRange⟩]
  | start, n + 1 => .ranged obj start (cstr ['"', 'a', '"']) :: fullGets lib obj (start + chunkSize) n

theorem servedAcross_fullGets {n : Nat} (h : obj.length = start + n * chunkSize) (i : Nat) :
    ServedAcross lib (fun _ => obj) (fullGets lib obj start n) i start := by
  induction n generalizing start i with
  | zero =>
    have hbehind : obj.length ≤ start := by omega
    have hno : lib.errorInvalidRange ≠ s3StatusOK := lib.invalidRange_ne_ok
    exact ⟨⟨List.nil_prefix, fun hok => absurd hok hno, fun hok => absurd hok hno,
      fun hok => absurd hok hno, fun _ => hbehind⟩, trivial⟩
  | succ n ih =>
    have hgt := chunkSize_gt
    rw [Nat.succ_mul] at h
    have hinside : start < obj.length := by omega
    refine ⟨honestGet_ranged hinside, ?_⟩
    rw [if_pos outcome_ranged]
    exact ih (by omega) (i + 1)

/-- The loop goes from range to range, and leaves with `S3StatusOK` at the end of the object. -/
theorem answered_fullGets (name : CString) {n : Nat} {s : GetState}
    (h : obj.length = s.startByte + n * chunkSize) :
    ∃ data, (answered (getStep lib name) (fullGets lib obj s.startByte n) s).out = .done data
      ∧ data.status = s3StatusOK := by
  induction n generalizing s with
  | zero =>
    have hget : (s3GetObject lib name s.startByte chunkSize ⟨none, [], lib.errorInvalidRange⟩
        s.data).out = .done { s.data with status := lib.errorInvalidRange } := rfl
    have hstep : (getStep lib name ⟨none, [], lib.errorInvalidRange⟩ s).out
        = .done (.inr { s.data with status := s3StatusOK }) := by
      rw [getStep, Exec.bind_out_of_done hget, getNext, if_neg lib.invalidRange_ne_ok, if_pos rfl]
      rfl
    rw [fullGets, answered_leave hstep]
    exact ⟨_, rfl, rfl⟩
  | succ n ih =>
    have hgt := chunkSize_gt
    rw [Nat.succ_mul] at h
    have hrange : (rangeOf obj s.startByte).length = chunkSize := by
      rw [rangeOf_length]
      omega
    obtain ⟨md5, hget⟩ := @s3GetObject_ranged lib obj s.startByte (cstr ['"', 'a', '"']) name
      chunkSize s.data (by omega)
    have hstep : (getStep lib name (.ranged obj s.startByte (cstr ['"', 'a', '"'])) s).out
        = .done (.inl ⟨s.startByte + chunkSize, s.retry_count,
          ⟨s.data.totalLength + chunkSize, chunkSize, s3StatusOK, md5⟩⟩) := by
      rw [getStep, hget, hrange, Exec.bind_of_done rfl, getNext, if_pos rfl,
        if_neg (not_not_intro rfl)]
      rfl
    rw [fullGets, answered_again hstep]
    exact @ih ⟨s.startByte + chunkSize, _, _⟩ (by show _ = _ + chunkSize + _; omega)

/-- The download of an object of `n` full ranges. -/
theorem getS3Object_fullGets (name : CString) {n : Nat} (h : obj.length = n * chunkSize) :
    ∃ data, (getS3Object lib name (fullGets lib obj 0 n)).out = .done (0, data) := by
  obtain ⟨data, hout, hok⟩ :=
    @answered_fullGets lib obj name n .first (h.trans (Nat.zero_add _).symm)
  rw [show GetState.first.startByte = 0 from rfl] at hout
  refine ⟨data, ?_⟩
  rw [getS3Object_eq, Exec.bind_out_of_done hout, if_neg (not_not_intro hok)]
  rfl

end Ranged

section Torn

variable {front front' : List UInt8} {last last' : UInt8}

/-- The first range of the object `front ++ [last]`, then the rest of `front' ++ [last']`, which has
taken its place; each response carries the ETag of its version. -/
def tornGets (front front' : List UInt8) (last last' : UInt8) : List GetAttempt :=
  [.ranged (front ++ [last]) 0 (cstr ['"', 'a', '"']),
    .ranged (front' ++ [last']) chunkSize (cstr ['"', 'b', '"'])]

theorem rangeOf_first (h : front.length = chunkSize) : rangeOf (front ++ [last]) 0 = front :=
  List.take_left' h

theorem rangeOf_rest (h : front.length = chunkSize) :
    rangeOf (front ++ [last]) chunkSize = [last] := by
  rw [rangeOf, List.drop_left' h]
  exact List.take_of_length_le (Nat.le_of_lt chunkSize_gt)

/-- What the two requests leave: one version's first range, and the other one's last byte. -/
theorem getS3Object_torn (name : CString) (h : front.length = chunkSize)
    (h' : front'.length = chunkSize) :
    (∃ data, (getS3Object .upstream name (tornGets front front' last last')).out
        = .done (0, data))
      ∧ (getS3Object .upstream name (tornGets front front' last last')).effect fileAct []
        = front ++ [last'] := by
  have hgt := chunkSize_gt
  obtain ⟨md5, hget⟩ := @s3GetObject_ranged .upstream (front ++ [last]) 0 (cstr ['"', 'a', '"'])
    name chunkSize ⟨0, 0, 0, []⟩ (by rw [rangeOf_first h]; omega)
  rw [rangeOf_first h, h] at hget
  obtain ⟨md5', hget'⟩ := @s3GetObject_ranged .upstream (front' ++ [last']) chunkSize
    (cstr ['"', 'b', '"']) name chunkSize ⟨chunkSize, chunkSize, s3StatusOK, md5⟩
    (by rw [rangeOf_rest h', List.length_singleton]; omega)
  rw [rangeOf_rest h', List.length_singleton] at hget'
  -- the first range is full and from the old version, the second short and from the new one
  have hrun : getLoop .upstream name (tornGets front front' last last') 0 retryCount ⟨0, 0, 0, []⟩
      = ⟨[.write 0 front, .getObject name 0 chunkSize s3StatusOK,
          .write chunkSize [last'], .getObject name chunkSize chunkSize s3StatusOK],
        .done ⟨chunkSize + 1, 1, s3StatusOK, md5'⟩⟩ := by
    rw [tornGets, getLoop, hget, Exec.bind_of_done rfl]
    simp only [if_true, ne_eq, not_true, if_false, Nat.zero_add]
    rw [getLoop, hget', Exec.bind_of_done rfl]
    simp only [if_true, ne_eq, Exec.pure_log, Exec.pure_out,
      List.append_nil, List.cons_append, List.nil_append, Nat.ne_of_gt hgt, not_false_iff]
  rw [getS3Object, hrun, Exec.bind_of_done rfl]
  simp only [ne_eq, not_true, if_false]
  refine ⟨⟨_, rfl⟩, ?_⟩
  -- each write goes to the end of the file
  have hstart := patch_end (0 : UInt8) [] front
  rw [List.length_nil, List.nil_append] at hstart
  have hend := patch_end (0 : UInt8) front [last']
  rw [h] at hend
  simp only [Exec.effect, Exec.pure_log, List.append_nil, List.foldl_cons, List.foldl_nil, fileAct,
    hstart, hend]

end Torn

end Estuary
