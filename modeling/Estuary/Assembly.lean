import Estuary.Commit
import Estuary.Replay
import Estuary.Spec.Store

/-!
# Estuary — what an upload leaves in the bucket

The bucket after an archive is a fold of `Store.act` over its log. What an attempt leaves there
depends on bytes the callbacks counted, on a status, and on a flag the headers set, and the three
can come from different attempts; what survives is decided by the last attempt alone.

* **`Store.act_of_partOf`**, **`act_of_archiveOf`** — frame facts: a request touches its own
  object, and a part request its own part;
* **`partLoop_acknowledged`** — the last attempt of a part that succeeded: acknowledged, its bytes
  kept, its entry what `strdup` returned for its ETag;
* **`PartSent`**, **`multipart_sent`** — so for every part, by induction over the parts, and at the
  commit phase the parts in order are the file;
* **`multipart_assembled_iff`** — with every entry set exactly when the copies that count were made.
-/

namespace Estuary

open Engine

/-! ## Frames of the bucket -/

variable {listed : List Char → List Nat}

/-- Requests for part `seq` of an upload, and progress reports. -/
def Event.PartOf (name uploadId : CString) (seq : Nat) : Event → Prop
  | .uploadPart object upload number _ _ _ _ => object = name ∧ upload = uploadId ∧ number = seq
  | .actionProgress _ _ _ _ => True
  | _ => False

/-- A request for part `seq`. -/
def Event.isPart (seq : Nat) : Event → Bool
  | .uploadPart _ _ number _ _ _ _ => number == seq
  | _ => false

theorem Store.setPart_same (store : Store) (name uploadId : CString) (seq : Nat)
    (body : List UInt8) :
    (store.setPart name uploadId seq body).parts name uploadId seq = some body := by
  simp [Store.setPart]

theorem Store.setPart_other (store : Store) (name uploadId : CString) {seq s : Nat}
    (body : List UInt8) (hne : s ≠ seq) :
    (store.setPart name uploadId seq body).parts name uploadId s
      = store.parts name uploadId s := by
  simp [Store.setPart, Function.update_of_ne hne]

/-- A request for another part leaves a part as it is. -/
theorem Store.act_of_partOf {store : Store} {name uploadId : CString} {seq s : Nat} {e : Event}
    (h : e.PartOf name uploadId seq) (hne : s ≠ seq) :
    (store.act listed e).parts name uploadId s = store.parts name uploadId s := by
  cases e with
  | uploadPart object upload number length body status stored =>
    obtain ⟨rfl, rfl, rfl⟩ := h
    cases stored with
    | true => exact store.setPart_other object upload body hne
    | false => rfl
  | actionProgress => rfl
  | _ => cases h

/-- A request for another object leaves an object as it is. -/
theorem Store.act_of_archiveOf {store : Store} {name other : CString} {e : Event}
    (h : e.ArchiveOf other) (hne : name ≠ other) :
    (store.act listed e).objects name = store.objects name := by
  cases e with
  | putObject object length body status stored =>
    obtain rfl : object = other := h
    cases stored with
    | true => exact Function.update_of_ne hne _ _
    | false => rfl
  | completeMultipart object uploadId length body status stored =>
    obtain rfl : object = other := h
    cases stored with
    | true => exact Function.update_of_ne hne _ _
    | false => rfl
  | uploadPart object uploadId seq length body status stored =>
    cases stored with
    | true => rfl
    | false => rfl
  | initiateMultipart | actionProgress => rfl
  | _ => cases h

theorem Store.act_of_progress {store : Store} {e : Event} (h : e.isProgress) :
    store.act listed e = store := by
  cases e with
  | actionProgress => rfl
  | _ => cases h

/-! ## The attempts at a part -/

section Acknowledged

variable {cfg : Config} {lib : LibS3} {name uploadId : CString} {content : List UInt8}
  {etagsAllocated : Bool} {length chunk seq : Nat} {partContentLength : Int}
  {attempts : Nat → PartAttempt} {fd : Int} {partLength : Nat}

/-- What is known before attempt `j` at a part: its counter, how many requests have been made, and
that the ETags of the other parts are as they were. -/
structure BeforeAttempt (fd : Int) (partLength seq : Nat) (etags : Nat → Option CString) (j : Nat)
    (log : List Event) (st : PartState) : Prop where
  counts : PartCounts fd partLength log st
  made : log.countP (Event.isPart seq) = j
  others : ∀ k, k ≠ seq - 1 → st.manager.etags k = etags k

theorem countP_progress {log : List Event} (seq : Nat) (h : ∀ e ∈ log, e.isProgress) :
    log.countP (Event.isPart seq) = 0 := by
  refine List.countP_eq_zero.mpr fun e he => ?_
  have hprogress := h e he
  cases e with
  | actionProgress => simp [Event.isPart]
  | _ => cases hprogress

theorem recordETag_other {seq k : Nat} (manager : UploadManager) (attempt : PartAttempt)
    (hk : k ≠ seq - 1) : (recordETag seq manager attempt).etags k = manager.etags k := by
  unfold recordETag
  split
  · exact Function.update_of_ne hk _ _
  · rfl

theorem BeforeAttempt.next {etags : Nat → Option CString} {j : Nat} {log : List Event}
    {attempt : PartAttempt} {st st' : PartState}
    (h : BeforeAttempt fd partLength seq etags j log st) (hpos : 0 < partLength)
    (hround : (partRound cfg lib name uploadId content etagsAllocated length chunk seq
      partContentLength attempt st).out = .done st') :
    BeforeAttempt fd partLength seq etags (j + 1) (log ++ (partRound cfg lib name uploadId content
      etagsAllocated length chunk seq partContentLength attempt st).log) st' := by
  have hcounts := h.counts.next hpos hround
  obtain ⟨st'', body, reports, heq, hreports, -, -, -, -, hmanager, -⟩ :=
    @partRound_done cfg lib name uploadId content etagsAllocated length chunk seq
      partContentLength attempt st fd (decide (st.manager.nextEtagsPos = seq)) h.counts.source
      (h.counts.tame hpos hround) (by simp)
  rw [heq] at hround hcounts ⊢
  cases hround
  refine ⟨hcounts, ?_, fun k hk => ?_⟩
  · rw [List.countP_append, h.made, List.countP_cons, countP_progress seq hreports]
    simp [Event.isPart]
  · rw [hmanager, recordETag_other _ _ hk]
    exact h.others k hk

/-- The first attempt that S3 acknowledged. -/
structure FirstAcknowledged (attempts : Nat → PartAttempt) (j : Nat) : Prop where
  status : (attempts j).status = s3StatusOK
  refused : ∀ i < j, (attempts i).status ≠ s3StatusOK

theorem FirstAcknowledged.unique {attempts : Nat → PartAttempt} {i j : Nat}
    (hi : FirstAcknowledged attempts i) (hj : FirstAcknowledged attempts j) : i = j := by
  rcases Nat.lt_trichotomy i j with h | h | h
  · exact absurd hi.status (hj.refused i h)
  · exact h
  · exact absurd hj.status (hi.refused j h)

/-- What a part that succeeded has left behind: `made` attempts were made, the last of them was the
first to be acknowledged, its entry is what its `strdup` returned, and S3 holds the part's bytes. -/
structure PartSent (attempts : Nat → PartAttempt) (content : List UInt8) (chunk seq made : Nat)
    (eTag : Option CString) (part : Option (List UInt8)) : Prop where
  acknowledged : ∃ j tag, made = j + 1 ∧ FirstAcknowledged attempts j
    ∧ (attempts j).properties = some (some tag)
    ∧ eTag = if (attempts j).strdup then some tag else none
  kept : part = some (slice content chunk (seq - 1))

/-- What is asked of a part: `made` attempts were made, the last of them was acknowledged and its ETag
is the recorded one, and S3 holds the part's bytes. -/
structure PartStored (attempts : Nat → PartAttempt) (content : List UInt8) (chunk seq made : Nat)
    (eTag : Option CString) (part : Option (List UInt8)) : Prop where
  acknowledged : ∃ j, made = j + 1 ∧ (attempts j).status = s3StatusOK
    ∧ (attempts j).properties = some eTag
  recorded : eTag ≠ none
  kept : part = some (slice content chunk (seq - 1))

/-- A part that was sent is stored as it is asked exactly when its ETag could be copied. -/
theorem PartSent.stored_iff {content : List UInt8} {made : Nat} {eTag : Option CString}
    {part : Option (List UInt8)} (h : PartSent attempts content chunk seq made eTag part) :
    PartStored attempts content chunk seq made eTag part
      ↔ ∀ j, FirstAcknowledged attempts j → (attempts j).strdup = true := by
  obtain ⟨j, tag, hmade, hfirst, hprop, heTag⟩ := h.acknowledged
  constructor
  · intro hstored k hk
    obtain rfl := hk.unique hfirst
    by_contra hcopy
    rw [if_neg hcopy] at heTag
    exact hstored.recorded heTag
  · intro hcopies
    rw [if_pos (hcopies j hfirst)] at heTag
    exact ⟨⟨j, hmade, hfirst.status, by rw [hprop, heTag]⟩, by rw [heTag]; exact Option.some_ne_none _,
      h.kept⟩

/-- An attempt that is followed by another one was not acknowledged. -/
theorem refused_of_again {attempt : PartAttempt} {log : List Event} {st st' : PartState}
    (hcounts : PartCounts fd partLength log st) (hpos : 0 < partLength)
    (hheaders : attempt.status = s3StatusOK → attempt.properties.isSome)
    (hround : (partRound cfg lib name uploadId content etagsAllocated length chunk seq
      partContentLength attempt st).out = .done st') (hagain : partAgain lib st' = true) :
    attempt.status ≠ s3StatusOK := by
  intro hok
  obtain ⟨st'', body, reports, heq, -, -, -, -, -, -, hstatus⟩ :=
    @partRound_done cfg lib name uploadId content etagsAllocated length chunk seq
      partContentLength attempt st fd (decide (st.manager.nextEtagsPos = seq)) hcounts.source
      (hcounts.tame hpos hround) (by simp)
  rw [heq] at hround
  cases hround
  have hstop : lib.statusIsRetryable st'.data.status = false := by
    rw [hstatus, hheaders hok, Bool.or_true, partStatus, if_pos rfl, hok, lib.ok_not_retryable]
  rw [partAgain, hstop] at hagain
  cases hagain

/-- **The last attempt** of a part that succeeded. -/
theorem partLoop_acknowledged (listed : List Char → List Nat) {budget : Nat} {st st' : PartState}
    (hstart : PartCounts fd partLength [] st) (hpos : 0 < partLength)
    (hdeclared : sizeT partContentLength = partLength)
    (hpart : partLength = min chunk (content.length - (seq - 1) * chunk))
    (hheaders : ∀ i, (attempts i).status = s3StatusOK → (attempts i).properties.isSome)
    (hhonest : (partLoop cfg lib name uploadId content etagsAllocated length chunk seq
      partContentLength attempts budget 0 st).Logs Event.Honest)
    (hout : (partLoop cfg lib name uploadId content etagsAllocated length chunk seq
      partContentLength attempts budget 0 st).out = .done st')
    (hok : st'.data.status = s3StatusOK) (store : Store) :
    PartSent attempts content chunk seq
        ((partLoop cfg lib name uploadId content etagsAllocated length chunk seq
          partContentLength attempts budget 0 st).log.countP (Event.isPart seq))
        (st'.manager.etags (seq - 1))
        (((partLoop cfg lib name uploadId content etagsAllocated length chunk seq
          partContentLength attempts budget 0 st).effect (Store.act listed) store).parts name
            uploadId seq)
      ∧ st'.manager.nextEtagsPos = seq
      ∧ ∀ k, k ≠ seq - 1 → st'.manager.etags k = st.manager.etags k := by
  rw [partLoop_eq_retryLoop] at hhonest hout ⊢
  obtain ⟨j, t, l, hretried, -, hround, hlog⟩ := retryLoop_last hout
  obtain ⟨hbefore, hrefused⟩ : BeforeAttempt fd partLength seq st.manager.etags j ([] ++ l) t
      ∧ ∀ i < j, (attempts i).status ≠ s3StatusOK := by
    refine hretried.invariant (I := fun i l s =>
      BeforeAttempt fd partLength seq st.manager.etags i l s
        ∧ ∀ k < i, (attempts k).status ≠ s3StatusOK)
      (fun i l s u hs hu hagain => ⟨hs.1.next hpos hu, fun k hk => ?_⟩)
      ⟨⟨hstart, rfl, fun _ _ => rfl⟩, fun k hk => absurd hk (Nat.not_lt_zero k)⟩
    rcases Nat.lt_succ_iff_lt_or_eq.mp hk with hlt | rfl
    · exact hs.2 k hlt
    · exact refused_of_again hs.1.counts hpos (hheaders k) hu hagain
  have hafter := hbefore.next hpos hround
  -- everything else is said by the last attempt
  obtain ⟨st'', body, reports, heq, hreports, hbody, -, -, -, hmanager, hstatus⟩ :=
    @partRound_done cfg lib name uploadId content etagsAllocated length chunk seq
      partContentLength (attempts j) t fd (decide (t.manager.nextEtagsPos = seq))
      hbefore.counts.source (hbefore.counts.tame hpos hround) (by simp)
  have htame := hbefore.counts.tame hpos hround
  rw [heq] at hround hlog hafter
  cases hround
  rw [hok] at hstatus
  have hack : (attempts j).status = s3StatusOK := by
    have hseen := seen_of_partStatus_ok hstatus.symm
    rw [hseen] at hstatus
    exact hstatus.symm
  obtain ⟨eTag, heTag⟩ : ∃ eTag, (attempts j).properties = some (some eTag) := by
    obtain ⟨eTag, hprop⟩ := Option.isSome_iff_exists.mp (hheaders j hack)
    obtain ⟨hne, -⟩ := htame.2 eTag hprop
    obtain ⟨eTag, rfl⟩ := Option.ne_none_iff_exists'.mp hne
    exact ⟨eTag, hprop⟩
  have hrecorded : st'.manager.etags (seq - 1)
      = if (attempts j).strdup then some eTag else none := by
    rw [hmanager]
    simp only [recordETag, heTag]
    exact Function.update_self _ _ _
  have hkept : (attempts j).stored = true ∧ body.length = sizeT partContentLength := by
    have hmem := hhonest (.uploadPart name uploadId seq (sizeT partContentLength) body
      (attempts j).status (attempts j).stored)
    rw [hlog] at hmem
    exact hmem (List.mem_append_right _ (List.mem_cons_self ..)) hack
  refine ⟨⟨⟨j, eTag, ?_, ⟨hack, hrefused⟩, heTag, hrecorded⟩, ?_⟩, ?_, hafter.others⟩
  · rw [hlog, ← hafter.made]
    rfl
  · rw [Exec.effect, hlog, List.foldl_append, List.foldl_cons,
      Exec.foldl_of_frame (Store.act listed) fun e he s => Store.act_of_progress (hreports e he),
      hkept.1]
    show (Store.setPart _ name uploadId seq body).parts name uploadId seq = _
    rw [Store.setPart_same, hbody, hkept.2, hdeclared, hpart, ← slice_eq_take]
  · rw [hmanager]
    simp only [recordETag, heTag]

end Acknowledged

/-! ## The parts of a file -/

/-- Parts that hold the pieces of a file assemble to the pieces in order. -/
theorem assemble_slices {store : Store} {name uploadId : CString} {content : List UInt8}
    {chunk n : Nat}
    (h : ∀ s, 1 ≤ s → s ≤ n → store.parts name uploadId s = some (slice content chunk (s - 1))) :
    store.assemble name uploadId (List.range' 1 n)
      = (List.range n).flatMap (slice content chunk) := by
  rw [Store.assemble, List.range'_eq_map_range, List.flatMap_map]
  refine List.flatMap_congr fun i hi => ?_
  have hlt := List.mem_range.mp hi
  rw [h (1 + i) (by omega) (by omega), Option.getD_some, Nat.add_sub_cancel_left]

section Parts

variable {cfg : Config} {lib : LibS3} {name uploadId : CString} {content : List UInt8}
  {etagsAllocated : Bool} {fd : Int} {stSize length chunk : Nat}
  {parts : Nat → Nat → PartAttempt}

/-- Requests for other parts are not counted for a part. -/
theorem countP_of_partOf {α : Type} {x : Proc α} {s : Nat}
    (h : x.Logs fun e => ∃ seq, s ≠ seq ∧ e.PartOf name uploadId seq) :
    x.log.countP (Event.isPart s) = 0 := by
  refine List.countP_eq_zero.mpr fun e he => ?_
  obtain ⟨seq, hne, hpart⟩ := h e he
  cases e with
  | uploadPart object upload number =>
    obtain ⟨-, -, rfl⟩ := hpart
    simpa [Event.isPart] using Ne.symm hne
  | actionProgress => simp [Event.isPart]
  | _ => cases hpart

theorem partOf_partLoop (seq : Nat) (partContentLength : Int) (attempts : Nat → PartAttempt)
    (budget i : Nat) (st : PartState) :
    (partLoop cfg lib name uploadId content etagsAllocated length chunk seq partContentLength
      attempts budget i st).Logs (Event.PartOf name uploadId seq) :=
  logs_partLoop _ _ _ _ (fun _ _ _ _ => trivial) fun _ _ _ => ⟨rfl, rfl, rfl⟩

/-- The entries of the loop over the parts from `seq` on belong to one of these parts. -/
theorem partOf_partsLoop (rounds seq left : Nat) (manager : UploadManager) (lastReportTime : Nat) :
    (partsLoop cfg lib name uploadId content etagsAllocated fd stSize length chunk parts rounds seq
      left manager lastReportTime).Logs fun e => ∃ s, seq ≤ s ∧ e.PartOf name uploadId s :=
  logs_partsLoop _ _ _ _ _ (fun _ _ _ _ => ⟨seq, Nat.le_refl _, trivial⟩)
    fun s _ _ _ _ hle _ => ⟨s, hle, rfl, rfl, rfl⟩

/-- A part loop leaves the other parts alone. -/
theorem effect_parts_of_partOf (listed : List Char → List Nat) {α : Type} {x : Proc α} {s : Nat}
    (h : x.Logs fun e => ∃ seq, s ≠ seq ∧ e.PartOf name uploadId seq) (store : Store) :
    (x.effect (Store.act listed) store).parts name uploadId s = store.parts name uploadId s := by
  refine Exec.effect_invariant (Store.act listed)
    (I := fun store' => store'.parts name uploadId s = store.parts name uploadId s) ?_ rfl
  intro e he store' hstore'
  obtain ⟨seq, hne, hpart⟩ := h e he
  rw [Store.act_of_partOf hpart hne]
  exact hstore'

/-- **The parts of a file**, each with its last attempt. -/
theorem partsLoop_stores (listed : List Char → List Nat) (hchunk : 0 < chunk)
    (hmax : chunk ≤ 2 ^ 30)
    (hheaders : ∀ s i, (parts s i).status = s3StatusOK → (parts s i).properties.isSome)
    (rounds seq : Nat) {manager manager' : UploadManager} (lastReportTime : Nat) (hseq : 1 ≤ seq)
    (hroom : rounds ≠ 0 → (seq - 1 + (rounds - 1)) * chunk < content.length)
    (hhonest : (partsLoop cfg lib name uploadId content etagsAllocated fd stSize length chunk parts
      rounds seq (content.length - (seq - 1) * chunk) manager lastReportTime).Logs Event.Honest)
    (hout : (partsLoop cfg lib name uploadId content etagsAllocated fd stSize length chunk parts
      rounds seq (content.length - (seq - 1) * chunk) manager lastReportTime).out
        = .done (some manager')) (store : Store) :
    (∀ s, seq ≤ s → s < seq + rounds → PartSent (parts s) content chunk s
        ((partsLoop cfg lib name uploadId content etagsAllocated fd stSize length chunk parts
          rounds seq (content.length - (seq - 1) * chunk) manager lastReportTime).log.countP
            (Event.isPart s))
        (manager'.etags (s - 1))
        (((partsLoop cfg lib name uploadId content etagsAllocated fd stSize length chunk parts
          rounds seq (content.length - (seq - 1) * chunk) manager lastReportTime).effect
            (Store.act listed) store).parts name uploadId s))
      ∧ ∀ k, k + 1 < seq → manager'.etags k = manager.etags k := by
  induction rounds generalizing seq manager lastReportTime store with
  | zero =>
    cases hout
    exact ⟨fun s hle hlt => absurd hlt (by omega), fun _ _ => rfl⟩
  | succ rounds ih =>
    have hroom' : (seq - 1 + rounds) * chunk < content.length := hroom (Nat.succ_ne_zero _)
    have hpos : (seq - 1) * chunk < content.length :=
      Nat.lt_of_le_of_lt (Nat.mul_le_mul_right _ (Nat.le_add_right _ _)) hroom'
    rw [partsLoop_succ cfg lib name uploadId content etagsAllocated fd stSize length hmax parts rounds
      hseq] at hhonest hout ⊢
    obtain ⟨st, hst, hrest⟩ := Exec.bind_out_done.mp hout
    by_cases hok : st.data.status = s3StatusOK
    swap
    · rw [if_pos hok] at hrest
      cases hrest
    rw [if_neg (not_not_intro hok)] at hrest
    -- the promises of S3, for this part and for the later ones
    obtain ⟨hfirst, hlater⟩ := (Exec.logs_bind_of_done hst).mp hhonest
    rw [if_neg (not_not_intro hok)] at hlater
    simp only [Exec.bind_log_of_done hst, Exec.effect_bind_of_done _ hst, if_neg (not_not_intro hok)]
    obtain ⟨hstored, -, hothers⟩ := partLoop_acknowledged listed
      (partCounts_start fd stSize hmax _ manager lastReportTime) (by omega)
      (partLength_eq hmax (content.length - (seq - 1) * chunk)) rfl (hheaders seq) hfirst hst hok
      store
    have hmine := @partOf_partLoop cfg lib name uploadId content etagsAllocated length chunk seq
      (cInt (if content.length - (seq - 1) * chunk > chunk then chunk
        else content.length - (seq - 1) * chunk)) (parts seq) retryCount 0
      (partStart fd stSize chunk (content.length - (seq - 1) * chunk) manager lastReportTime)
    have htheirs := @partOf_partsLoop cfg lib name uploadId content etagsAllocated fd stSize length
      chunk parts rounds (seq + 1) (content.length - (seq + 1 - 1) * chunk) st.manager
      st.lastReportTime
    have hrests := fun store => ih (seq + 1) st.lastReportTime (by omega) (fun hne => by
      rw [show seq + 1 - 1 + (rounds - 1) = seq - 1 + rounds from by omega]
      exact hroom') hlater hrest store
    generalize partLoop cfg lib name uploadId content etagsAllocated length chunk seq
      (cInt (if content.length - (seq - 1) * chunk > chunk then chunk
        else content.length - (seq - 1) * chunk)) (parts seq) retryCount 0
      (partStart fd stSize chunk (content.length - (seq - 1) * chunk) manager lastReportTime)
        = x at hstored hmine ⊢
    generalize partsLoop cfg lib name uploadId content etagsAllocated fd stSize length chunk parts
      rounds (seq + 1) (content.length - (seq + 1 - 1) * chunk) st.manager st.lastReportTime
        = y at htheirs hrests ⊢
    obtain ⟨hparts, hetags⟩ := hrests (x.effect (Store.act listed) store)
    refine ⟨fun s hle hlt => ?_, fun k hk => (hetags k (by omega)).trans (hothers k (by omega))⟩
    rw [List.countP_append]
    rcases Nat.eq_or_lt_of_le hle with rfl | hlt'
    · -- this part: the later ones leave it alone
      have helse : y.Logs fun e => ∃ s, seq ≠ s ∧ e.PartOf name uploadId s :=
        fun e he => (htheirs e he).imp fun s hs => ⟨by omega, hs.2⟩
      rw [countP_of_partOf helse, Nat.add_zero, hetags (seq - 1) (by omega),
        effect_parts_of_partOf listed helse]
      exact hstored
    · -- a later part: this one has not touched it
      have helse : x.Logs fun e => ∃ seq, s ≠ seq ∧ e.PartOf name uploadId seq :=
        fun e he => ⟨seq, by omega, hmine e he⟩
      rw [countP_of_partOf helse, Nat.zero_add]
      exact hparts s hlt' (by omega)

end Parts

/-! ## The upload -/

section Upload

variable {cfg : Config} {lib : LibS3} {env : ArchiveDataBigEnv} {name : CString}
  {content : List UInt8} {fd : Int} {stSize length : Nat} {uploadId : CString} {totalSeq : Nat}
  {manager : UploadManager}

/-- An upload that gets to the commit phase has an upload id and has sent the planned parts. -/
theorem uploadPhase_some
    (h : (uploadPhase cfg lib env name content fd stSize length).out
      = .done (some (uploadId, totalSeq, manager))) :
    ∃ chunk, ctGetChunksize stSize = some (chunk, totalSeq)
      ∧ (initLoop lib name env.inits retryCount 0).out = .done (some uploadId)
      ∧ (partsLoop cfg lib name uploadId content env.etagsAllocated fd stSize length chunk env.parts
          totalSeq 1 stSize ⟨some uploadId, fun _ => none, 0, [], 0⟩ env.tStart).out
        = .done (some manager)
      ∧ (uploadPhase cfg lib env name content fd stSize length).log
        = (initLoop lib name env.inits retryCount 0).log
          ++ (partsLoop cfg lib name uploadId content env.etagsAllocated fd stSize length chunk
            env.parts totalSeq 1 stSize ⟨some uploadId, fun _ => none, 0, [], 0⟩ env.tStart).log := by
  unfold uploadPhase at h ⊢
  cases hplan : ctGetChunksize stSize with
  | none =>
    rw [hplan] at h
    cases h
  | some plan =>
    obtain ⟨chunk, planned⟩ := plan
    rw [hplan] at h
    obtain ⟨id, hinit, h⟩ := Exec.bind_out_done.mp h
    cases id with
    | none => cases h
    | some id =>
      obtain ⟨sent, hparts, h⟩ := Exec.bind_out_done.mp h
      cases sent with
      | none => cases h
      | some sent =>
        cases h
        refine ⟨chunk, rfl, hinit, hparts, ?_⟩
        simp only [Exec.bind_log_of_done hinit, Exec.bind_log_of_done hparts, Exec.pure_log,
          List.append_nil]

theorem initLoop_log_mem {inits : Nat → Option CString} {budget i : Nat} {e : Event}
    (he : e ∈ (initLoop lib name inits budget i).log) : ∃ id, e = .initiateMultipart name id :=
  logs_initLoop (p := fun e => ∃ id, e = .initiateMultipart name id) lib inits budget i
    (fun id => ⟨id, rfl⟩) e he

theorem uploadPhase_stores (listed : List Char → List Nat) (hsize : content.length ≤ maxFileSize)
    (hpos : 0 < content.length)
    (hreach : (uploadPhase cfg lib env name content fd content.length length).out
      = .done (some (uploadId, totalSeq, manager)))
    (hhonest : (uploadPhase cfg lib env name content fd content.length length).Logs Event.Honest)
    (hheaders : ∀ s i, (env.parts s i).status = s3StatusOK → (env.parts s i).properties.isSome)
    (store : Store) :
    ∃ chunk, ctGetChunksize content.length = some (chunk, totalSeq)
      ∧ ∀ s, 1 ≤ s → s ≤ totalSeq → PartSent (env.parts s) content chunk s
        ((uploadPhase cfg lib env name content fd content.length length).log.countP
          (Event.isPart s))
        (manager.etags (s - 1))
        (((uploadPhase cfg lib env name content fd content.length length).effect
          (Store.act listed) store).parts name uploadId s) := by
  obtain ⟨chunk, hplan, hinit, hparts, hlog⟩ := uploadPhase_some hreach
  refine ⟨chunk, hplan, fun s hfirst hlast => ?_⟩
  obtain ⟨chunk', totalSeq', hplan', hchunk, hmax, -, hroom, -⟩ := ctGetChunksize_spec hpos hsize
  rw [hplan] at hplan'
  cases hplan'
  -- the loop starts at part 1 with the whole file left
  have hleft : content.length = content.length - (1 - 1) * chunk := by simp
  have hstores := @partsLoop_stores cfg lib name uploadId content env.etagsAllocated fd
    content.length length chunk env.parts listed hchunk hmax hheaders totalSeq 1
    ⟨some uploadId, fun _ => none, 0, [], 0⟩ manager env.tStart (Nat.le_refl 1)
    (fun _ => by rw [Nat.sub_self, Nat.zero_add]; exact hroom)
  rw [← hleft] at hstores
  obtain ⟨hstored, -⟩ := hstores
    (fun e he => hhonest e (hlog ▸ List.mem_append_right _ he)) hparts store
  have hcount : (initLoop lib name env.inits retryCount 0).log.countP (Event.isPart s) = 0 := by
    refine List.countP_eq_zero.mpr fun e he => ?_
    obtain ⟨id, rfl⟩ := initLoop_log_mem he
    simp [Event.isPart]
  -- starting an upload stores no part
  have hframe : ∀ e ∈ (initLoop lib name env.inits retryCount 0).log, ∀ store : Store,
      store.act listed e = store := by
    intro e he store
    obtain ⟨id, rfl⟩ := initLoop_log_mem he
    rfl
  have heffect : (uploadPhase cfg lib env name content fd content.length length).effect
      (Store.act listed) store
        = (partsLoop cfg lib name uploadId content env.etagsAllocated fd content.length length
          chunk env.parts totalSeq 1 content.length ⟨some uploadId, fun _ => none, 0, [], 0⟩
          env.tStart).effect (Store.act listed) store := by
    rw [Exec.effect, hlog, List.foldl_append, Exec.foldl_of_frame _ hframe]
    rfl
  rw [heffect, hlog, List.countP_append, hcount, Nat.zero_add]
  exact hstored s hfirst (by omega)

end Upload

section Assembled

variable (cfg : Config) (lib : LibS3) (env : ArchiveDataBigEnv) (name : CString)
  (content : List UInt8) (fd : Int) (hai : HsmActionItem) (uploadId : CString) (totalSeq : Nat)
  (manager : UploadManager) (listed : List Char → List Nat) (store : Store)

/-- The upload of the parts, as `ct_archive_data_big` makes it for an item. -/
abbrev partsUpload : Proc (Option (CString × Nat × UploadManager)) :=
  uploadPhase cfg lib env name content fd content.length (extentLength content.length hai)

/-- The parts are assembled: every part is stored and its ETag recorded, none is empty, and the parts
in order are the file. -/
def Assembled : Prop :=
  ∃ chunk, ctGetChunksize content.length = some (chunk, totalSeq)
    ∧ (∀ s, 1 ≤ s → s ≤ totalSeq → PartStored (env.parts s) content chunk s
        ((partsUpload cfg lib env name content fd hai).log.countP (Event.isPart s))
        (manager.etags (s - 1))
        (((partsUpload cfg lib env name content fd hai).effect (Store.act listed) store).parts name
          uploadId s))
    ∧ (∀ s, 1 ≤ s → s ≤ totalSeq → slice content chunk (s - 1) ≠ [])
    ∧ ((partsUpload cfg lib env name content fd hai).effect (Store.act listed) store).assemble name
        uploadId (List.range' 1 totalSeq) = content

variable {cfg lib env name content fd hai uploadId totalSeq manager}

/-- **The parts at the commit phase.** Every part's last attempt was the first to be acknowledged; S3
holds the part's bytes; no part is empty, and the parts in order are the file. -/
theorem multipart_sent (hlarge : maxObjSizeLevel ≤ content.length)
    (hsize : content.length ≤ maxFileSize)
    (hreach : ReachesCommit cfg lib env name content fd content.length hai uploadId totalSeq manager)
    (hhonest : (partsUpload cfg lib env name content fd hai).Logs Event.Honest)
    (hheaders : ∀ s i, (env.parts s i).status = s3StatusOK → (env.parts s i).properties.isSome) :
    ∃ chunk, ctGetChunksize content.length = some (chunk, totalSeq)
      ∧ (∀ s, 1 ≤ s → s ≤ totalSeq → PartSent (env.parts s) content chunk s
          ((partsUpload cfg lib env name content fd hai).log.countP (Event.isPart s))
          (manager.etags (s - 1))
          (((partsUpload cfg lib env name content fd hai).effect (Store.act listed) store).parts name
            uploadId s))
      ∧ (∀ s, 1 ≤ s → s ≤ totalSeq → slice content chunk (s - 1) ≠ [])
      ∧ ((partsUpload cfg lib env name content fd hai).effect (Store.act listed) store).assemble name
          uploadId (List.range' 1 totalSeq) = content := by
  have hpos : 0 < content.length := by
    have : 0 < maxObjSizeLevel := by
      unfold maxObjSizeLevel
      decide
    omega
  obtain ⟨chunk, hplan, hstored⟩ :=
    uploadPhase_stores listed hsize hpos hreach.2 hhonest hheaders store
  obtain ⟨chunk', totalSeq', hplan', hchunk, -, -, hroom, hcover⟩ :=
    ctGetChunksize_spec hpos hsize
  rw [hplan] at hplan'
  cases hplan'
  refine ⟨chunk, hplan, hstored, fun s hfirst hlast hempty => ?_, ?_⟩
  -- the last part starts before the end of the file, and so does every other
  · have hbefore : (s - 1) * chunk ≤ (totalSeq - 1) * chunk :=
      Nat.mul_le_mul_right _ (by omega)
    have hlen := slice_length content chunk (s - 1)
    rw [hempty, List.length_nil] at hlen
    omega
  · rw [assemble_slices fun s hfirst hlast => (hstored s hfirst hlast).kept]
    exact flatMap_slice hcover

end Assembled

/-- **When the parts are assembled.** At the commit phase every part is stored and its ETag recorded,
none is empty and together they are the file, exactly when the ETag of every part's first acknowledged
attempt, which is its last one, could be copied. -/
theorem multipart_assembled_iff (cfg : Config) (lib : LibS3) (env : ArchiveDataBigEnv)
    (name : CString) (content : List UInt8) (fd : Int) (hai : HsmActionItem) (uploadId : CString)
    (totalSeq : Nat) (manager : UploadManager) (listed : List Char → List Nat) (store : Store)
    (hlarge : maxObjSizeLevel ≤ content.length) (hsize : content.length ≤ maxFileSize)
    (hreach : ReachesCommit cfg lib env name content fd content.length hai uploadId totalSeq manager)
    (hhonest : (partsUpload cfg lib env name content fd hai).Logs Event.Honest)
    (hheaders : ∀ s i, (env.parts s i).status = s3StatusOK → (env.parts s i).properties.isSome) :
    Assembled cfg lib env name content fd hai uploadId totalSeq manager listed store
      ↔ ∀ s, 1 ≤ s → s ≤ totalSeq → ∀ j, FirstAcknowledged (env.parts s) j →
        (env.parts s j).strdup = true := by
  obtain ⟨chunk, hplan, hsent, hfull, hfile⟩ :=
    multipart_sent listed store hlarge hsize hreach hhonest hheaders
  constructor
  · rintro ⟨chunk', hplan', hstored, -, -⟩ s hfirst hlast
    rw [hplan] at hplan'
    cases hplan'
    exact (hsent s hfirst hlast).stored_iff.mp (hstored s hfirst hlast)
  · intro hcopies
    exact ⟨chunk, hplan, fun s hfirst hlast => (hsent s hfirst hlast).stored_iff.mpr
      (hcopies s hfirst hlast), hfull, hfile⟩

/-! ## An upload without incidents -/

section Smooth

variable {cfg : Config} {lib : LibS3} {name uploadId : CString} {content : List UInt8}
  {etagsAllocated : Bool} {length chunk seq : Nat} {partContentLength : Int}

/-- An attempt that is pulled to the end and kept is honest. -/
theorem partRound_honest {attempt : PartAttempt} {st : PartState} (hfd : st.data.fd ≠ 0)
    (hroom : (seq - 1) * chunk + st.data.contentLength ≤ content.length)
    (hcovers : Covers attempt.pulls st.data.contentLength) (hstored : attempt.stored = true)
    (hdeclared : sizeT partContentLength = st.data.contentLength) :
    (partRound cfg lib name uploadId content etagsAllocated length chunk seq partContentLength
      attempt st).Logs Event.Honest := by
  obtain ⟨data', pos', hpull⟩ := @pullPart_covers content attempt.pulls
    { st.data with status := 0 } ((seq - 1) * chunk) hfd hroom hcovers
  have hlen : ((content.drop ((seq - 1) * chunk)).take st.data.contentLength).length
      = sizeT partContentLength := by
    rw [List.length_take, List.length_drop, hdeclared]
    omega
  rw [partRound, hpull, Exec.pure_bind]
  refine (logs_partProperties _ _ _ _).bind fun _ _ => ?_
  refine (Exec.logs_emit (fun _ => ⟨hstored, hlen⟩)).bind fun _ _ => ?_
  refine Exec.logs_ite (Exec.logs_pure _ _) (Exec.logs_ite ?_ (Exec.logs_pure _ _))
  exact (logs_progress _ _ _ _ fun _ => trivial).bind fun _ _ => Exec.logs_pure _ _

/-- A loop whose first attempt succeeds makes no other. -/
theorem partLoop_first {p : Event → Prop} {attempts : Nat → PartAttempt} {budget i : Nat}
    {st st' : PartState}
    (hlogs : (partRound cfg lib name uploadId content etagsAllocated length chunk seq
      partContentLength (attempts i) st).Logs p)
    (hout : (partRound cfg lib name uploadId content etagsAllocated length chunk seq
      partContentLength (attempts i) st).out = .done st') (hok : st'.data.status = s3StatusOK) :
    (partLoop cfg lib name uploadId content etagsAllocated length chunk seq partContentLength
        attempts (budget + 1) i st).Logs p
      ∧ (partLoop cfg lib name uploadId content etagsAllocated length chunk seq partContentLength
        attempts (budget + 1) i st).out = .done st' := by
  have hstop : lib.statusIsRetryable st'.data.status = false := by rw [hok, lib.ok_not_retryable]
  rw [partLoop]
  refine ⟨hlogs.bind fun t ht => ?_, ?_⟩
  · rw [hout] at ht
    cases ht
    simp [hstop, Exec.logs_pure]
  · rw [Exec.bind_out_of_done hout]
    simp [hstop]

theorem honest_partsLoop_copying (copies : Nat → Nat → Bool) {fd : Int} {stSize : Nat}
    (hfd : fd ≠ 0)
    (hmax : chunk ≤ 2 ^ 30) (hpos : 0 < content.length) (rounds seq : Nat)
    (manager : UploadManager) (lastReportTime : Nat)
    (hroom : rounds ≠ 0 → (seq - 1 + (rounds - 1)) * chunk < content.length) (hseq : 1 ≤ seq) :
    (partsLoop cfg lib name uploadId content true fd stSize length chunk
      (ArchiveDataBigEnv.copying content copies).parts rounds seq (content.length - (seq - 1) * chunk)
      manager lastReportTime).Logs Event.Honest := by
  induction rounds generalizing seq manager lastReportTime with
  | zero => exact Exec.logs_pure _ _
  | succ rounds ih =>
    have hroom' : (seq - 1 + rounds) * chunk < content.length := hroom (Nat.succ_ne_zero _)
    have hbefore : (seq - 1) * chunk < content.length :=
      Nat.lt_of_le_of_lt (Nat.mul_le_mul_right _ (Nat.le_add_right _ _)) hroom'
    have hlength := partLength_eq hmax (content.length - (seq - 1) * chunk)
    have hstart := partStart_contentLength fd stSize hmax (content.length - (seq - 1) * chunk)
      manager lastReportTime
    rw [partsLoop_succ cfg lib name uploadId content true fd stSize length hmax _ rounds hseq]
    generalize cInt (if content.length - (seq - 1) * chunk > chunk then chunk
      else content.length - (seq - 1) * chunk) = partContentLength at hlength
    generalize hst : partStart fd stSize chunk (content.length - (seq - 1) * chunk) manager
      lastReportTime = st at hstart
    have hsource : st.data.fd = fd := by rw [← hst]; rfl
    -- the first attempt of the part is fine, so there is no second one
    have htame : Tame fd true ((ArchiveDataBigEnv.copying content copies).parts seq 0) := by
      refine ⟨fun h => absurd h hfd, fun eTag heTag => ?_⟩
      cases heTag
      exact ⟨by simp, rfl⟩
    obtain ⟨st', hout, -, -, -, hstatus⟩ := @partRound_next cfg lib name uploadId content true
      length chunk seq partContentLength ((ArchiveDataBigEnv.copying content copies).parts seq 0) st fd
      (decide (st.manager.nextEtagsPos = seq)) hsource (fun h => absurd h hfd) htame (by simp)
    have hok : st'.data.status = s3StatusOK := by
      rw [hstatus, show ((ArchiveDataBigEnv.copying content copies).parts seq 0).properties.isSome = true
        from rfl, Bool.or_true]
      rfl
    have hhonest := @partRound_honest cfg lib name uploadId content true length chunk seq
      partContentLength ((ArchiveDataBigEnv.copying content copies).parts seq 0) st (hsource ▸ hfd)
      (by omega) ⟨by simpa [ArchiveDataBigEnv.copying, ArchiveDataBigEnv.smooth] using hpos,
        by rw [hstart]; simp [ArchiveDataBigEnv.copying, ArchiveDataBigEnv.smooth]⟩ rfl
      (hlength.trans hstart.symm)
    obtain ⟨hlogs, hdone⟩ := @partLoop_first cfg lib name uploadId content true length chunk seq
      partContentLength Event.Honest ((ArchiveDataBigEnv.copying content copies).parts seq) 4 0 st st'
      hhonest hout hok
    refine hlogs.bind fun t ht => ?_
    rw [hdone] at ht
    cases ht
    rw [if_neg (not_not_intro hok)]
    refine ih (seq + 1) _ _ (fun _ => ?_) (by omega)
    rw [show seq + 1 - 1 + (rounds - 1) = seq - 1 + rounds from by omega]
    exact hroom'

theorem honest_uploadPhase_copying (copies : Nat → Nat → Bool) {fd : Int} (hfd : fd ≠ 0)
    (hpos : 0 < content.length) (hsize : content.length ≤ maxFileSize) :
    (uploadPhase cfg lib (.copying content copies) name content fd content.length length).Logs
      Event.Honest := by
  obtain ⟨chunk, totalSeq, hplan, -, hmax, -, hroom, -⟩ := ctGetChunksize_spec hpos hsize
  have hhonest := fun uploadId => @honest_partsLoop_copying cfg lib name uploadId content length chunk
    copies fd content.length hfd hmax hpos totalSeq 1 ⟨some uploadId, fun _ => none, 0, [], 0⟩ 0
    (fun _ => by rw [Nat.sub_self, Nat.zero_add]; exact hroom) (Nat.le_refl 1)
  rw [show content.length - (1 - 1) * chunk = content.length from by simp] at hhonest
  unfold uploadPhase
  rw [hplan]
  refine (logs_initLoop _ _ _ _ fun _ => trivial).bind fun uploadId _ => ?_
  cases uploadId with
  | none => exact Exec.logs_pure _ _
  | some uploadId => exact (hhonest uploadId).bind fun _ _ => Exec.logs_pure _ _

theorem honest_uploadPhase_smooth {fd : Int} (hfd : fd ≠ 0) (hpos : 0 < content.length)
    (hsize : content.length ≤ maxFileSize) :
    (uploadPhase cfg lib (.smooth content) name content fd content.length length).Logs
      Event.Honest :=
  honest_uploadPhase_copying (fun _ _ => true) hfd hpos hsize

end Smooth

/-- A file of 256 MiB, all parts of which go through at once, and all ETags of which are copied. -/
theorem multipart_assembled_smooth :
    ∃ totalSeq manager,
      ReachesCommit (.setup (cstr ['/', 'l']) (cstr ['/', 'l'])) .upstream
          (.smooth (List.replicate (2 ^ 28) 0)) (cstr ['f']) (List.replicate (2 ^ 28) 0) 3
          (List.replicate (2 ^ 28) (0 : UInt8)).length ⟨.archive, ⟨1, 2, 0⟩, .whole⟩
          (cstr ['i', 'd']) totalSeq manager
        ∧ Assembled (.setup (cstr ['/', 'l']) (cstr ['/', 'l'])) .upstream
          (.smooth (List.replicate (2 ^ 28) 0)) (cstr ['f']) (List.replicate (2 ^ 28) 0) 3
          ⟨.archive, ⟨1, 2, 0⟩, .whole⟩ (cstr ['i', 'd']) totalSeq manager (fun _ => []) .empty := by
  have hlen : (List.replicate (2 ^ 28) (0 : UInt8)).length = 2 ^ 28 := List.length_replicate
  generalize List.replicate (2 ^ 28) (0 : UInt8) = content at hlen ⊢
  have hlarge : maxObjSizeLevel ≤ content.length := by rw [hlen]; decide +kernel
  have hsize : content.length ≤ maxFileSize := by rw [hlen]; decide +kernel
  have hfd : (3 : Int) ≠ 0 := by decide
  obtain ⟨chunk, totalSeq, manager, -, hreach, -⟩ :=
    reachesCommit_smooth (.setup (cstr ['/', 'l']) (cstr ['/', 'l'])) .upstream (cstr ['f']) content
      ⟨.archive, ⟨1, 2, 0⟩, .whole⟩ (ArchiveDataBigEnv.smooth content).commits hfd (by omega) hsize
  exact ⟨totalSeq, manager, hreach, (multipart_assembled_iff _ _ _ _ _ _ _ _ _ _ (fun _ => []) .empty
    hlarge hsize hreach (honest_uploadPhase_smooth hfd (by omega) hsize) (fun _ _ _ => rfl)).mpr
    fun _ _ _ _ _ => rfl⟩

/-- A file of 256 MiB whose parts all go through at once, while no memory is left for a copy of an
ETag: the commit phase is reached with the first part's entry unset. -/
theorem uncopied_eTag_committed :
    ∃ totalSeq manager,
      ReachesCommit (.setup (cstr ['/', 'l']) (cstr ['/', 'l'])) .upstream
          (.copying (List.replicate (2 ^ 28) 0) fun _ _ => false) (cstr ['f'])
          (List.replicate (2 ^ 28) 0) 3 (List.replicate (2 ^ 28) (0 : UInt8)).length
          ⟨.archive, ⟨1, 2, 0⟩, .whole⟩ (cstr ['i', 'd']) totalSeq manager
        ∧ (partsUpload (.setup (cstr ['/', 'l']) (cstr ['/', 'l'])) .upstream
          (.copying (List.replicate (2 ^ 28) 0) fun _ _ => false) (cstr ['f'])
          (List.replicate (2 ^ 28) 0) 3 ⟨.archive, ⟨1, 2, 0⟩, .whole⟩).Logs Event.Honest
        ∧ (∀ s i, ((ArchiveDataBigEnv.copying (List.replicate (2 ^ 28) 0)
          fun _ _ => false).parts s i).properties.isSome)
        ∧ 1 ≤ totalSeq ∧ manager.etags 0 = none
        ∧ ¬ Assembled (.setup (cstr ['/', 'l']) (cstr ['/', 'l'])) .upstream
          (.copying (List.replicate (2 ^ 28) 0) fun _ _ => false) (cstr ['f'])
          (List.replicate (2 ^ 28) 0) 3 ⟨.archive, ⟨1, 2, 0⟩, .whole⟩ (cstr ['i', 'd']) totalSeq
          manager (fun _ => []) .empty := by
  have hlen : (List.replicate (2 ^ 28) (0 : UInt8)).length = 2 ^ 28 := List.length_replicate
  generalize List.replicate (2 ^ 28) (0 : UInt8) = content at hlen ⊢
  have hlarge : maxObjSizeLevel ≤ content.length := by rw [hlen]; decide +kernel
  have hsize : content.length ≤ maxFileSize := by rw [hlen]; decide +kernel
  have hfd : (3 : Int) ≠ 0 := by decide
  obtain ⟨chunk, totalSeq, manager, hplan, hreach, -⟩ :=
    reachesCommit_copying (.setup (cstr ['/', 'l']) (cstr ['/', 'l'])) .upstream (cstr ['f']) content
      ⟨.archive, ⟨1, 2, 0⟩, .whole⟩ (fun _ _ => false) (ArchiveDataBigEnv.smooth content).commits hfd
      (by omega) hsize
  obtain rfl : totalSeq = 16 := by
    have hsixteen : ctGetChunksize (2 ^ 28) = some (2 ^ 24, 16) := by decide +kernel
    rw [hlen, hsixteen] at hplan
    cases hplan
    rfl
  have hreach : ReachesCommit (.setup (cstr ['/', 'l']) (cstr ['/', 'l'])) .upstream
      (.copying content fun _ _ => false) (cstr ['f']) content 3 content.length
      ⟨.archive, ⟨1, 2, 0⟩, .whole⟩ (cstr ['i', 'd']) 16 manager := hreach
  have hhonest := @honest_uploadPhase_copying (.setup (cstr ['/', 'l']) (cstr ['/', 'l'])) .upstream
    (cstr ['f']) content (extentLength content.length ⟨.archive, ⟨1, 2, 0⟩, .whole⟩)
    (fun _ _ => false) 3 hfd (by omega) hsize
  obtain ⟨_, -, hsent, -⟩ := multipart_sent (fun _ => []) .empty hlarge hsize hreach hhonest
    fun _ _ _ => rfl
  -- whichever attempt was acknowledged, its ETag was not copied
  have hfirst := hsent 1 (Nat.le_refl 1) (by decide)
  have hunset : manager.etags 0 = none := by
    obtain ⟨j, tag, -, -, -, heTag⟩ := hfirst.acknowledged
    exact heTag
  refine ⟨16, manager, hreach, hhonest, fun _ _ => rfl, by decide, hunset, ?_⟩
  rintro ⟨chunk', -, hstored, -⟩
  exact (hstored 1 (Nat.le_refl 1) (by decide)).recorded hunset

end Estuary
