import Estuary.Growbuffer
import Estuary.Spec.Archive

/-!
# Estuary — the commit document

`ct_archive_data_big` builds the document of `S3_complete_multipart_upload` piece by piece in a
`growbuffer` and adds up what `growbuffer_append` returns. Two things can go wrong on the way:
an allocation fails, and the piece adds nothing to the declared length; or an element does not
fit into `char buf[256]`, and bytes from behind `buf` are appended in its place.

* **`document`** — the text that is meant;
* **`appendAll_ok`**, **`appendAll_ret_lt`** — any sequence of appends, without and with a
  failing allocation;
* **`buildDocument_ok`**, **`buildDocument_ret_lt`** — the declared length is the document's
  exactly when the allocations for it succeed;
* **`builtBytes_eq_iff`** — the bytes are the document's exactly when every element fits;
* **`document_exact_iff`** — for the ETags of a server: when numbers and ETags are short enough.
-/

namespace Estuary

/-- The text of the document for `totalSeq` parts. -/
def document (totalSeq : Nat) (etags : Nat → Option CString) : List Char :=
  docOpen ++ ((List.range totalSeq).flatMap (fun i => partElement i (etags i)) ++ docClose)

/-- Every element fits into `buf` with its terminator. -/
def ETagsFit (totalSeq : Nat) (etags : Nat → Option CString) : Prop :=
  ∀ i < totalSeq, (partElement i (etags i)).length < 256

/-! ## A sequence of appends -/

theorem newBlocks_add (held m n : Nat) :
    newBlocks held (m + n) = newBlocks held m + newBlocks (held + m) n := by
  unfold newBlocks blocksFor
  unfold blockSize
  omega

/-- Append a piece and add its result to the running sum. -/
def appendNext (mallocs : Nat → Bool) (acc : AppendResult) (piece : List Char) : AppendResult :=
  ⟨(growbufferAppend mallocs acc.calls acc.gb piece).gb,
    (growbufferAppend mallocs acc.calls acc.gb piece).calls,
    acc.ret + (growbufferAppend mallocs acc.calls acc.gb piece).ret⟩

/-- Append pieces one after the other. -/
def appendAll (mallocs : Nat → Bool) (pieces : List (List Char)) (acc : AppendResult) :
    AppendResult :=
  pieces.foldl (appendNext mallocs) acc

/-- The sum never counts more than what is in the buffer. -/
structure Counted (acc : AppendResult) : Prop where
  packed : Packed acc.gb
  ret_le : acc.ret ≤ (gbBytes acc.gb).length

/-- The allocations for `n` more bytes succeed. -/
def Allocates (mallocs : Nat → Bool) (acc : AppendResult) (n : Nat) : Prop :=
  ∀ j < newBlocks (gbBytes acc.gb).length n, mallocs (acc.calls + j) = true

section Next

variable {mallocs : Nat → Bool} {acc : AppendResult} {piece : List Char}

theorem appendNext_ok (hacc : Counted acc) (halloc : Allocates mallocs acc piece.length) :
    gbBytes (appendNext mallocs acc piece).gb = gbBytes acc.gb ++ piece
      ∧ (appendNext mallocs acc piece).ret = acc.ret + piece.length
      ∧ (appendNext mallocs acc piece).calls
        = acc.calls + newBlocks (gbBytes acc.gb).length piece.length := by
  obtain ⟨hbytes, hret, hcalls⟩ :=
    (growbufferAppend_spec mallocs acc.calls piece hacc.packed).ok halloc
  exact ⟨hbytes, by rw [appendNext, hret], hcalls⟩

theorem appendNext_fail (hacc : Counted acc) (halloc : ¬ Allocates mallocs acc piece.length) :
    (appendNext mallocs acc piece).ret = acc.ret := by
  rw [appendNext, (growbufferAppend_spec mallocs acc.calls piece hacc.packed).fail halloc]
  rfl

theorem Counted.next (hacc : Counted acc) : Counted (appendNext mallocs acc piece) := by
  have happ := growbufferAppend_spec mallocs acc.calls piece hacc.packed
  have hle := hacc.ret_le
  refine ⟨happ.packed, ?_⟩
  by_cases halloc : Allocates mallocs acc piece.length
  · obtain ⟨hbytes, hret, -⟩ := appendNext_ok hacc halloc
    rw [hbytes, hret, List.length_append]
    omega
  · obtain ⟨sent, hsent⟩ := happ.some_bytes
    rw [appendNext_fail hacc halloc, appendNext, hsent, List.length_append]
    omega

/-- A piece counts for its length or for nothing. -/
theorem appendNext_ret_le (hacc : Counted acc) :
    (appendNext mallocs acc piece).ret ≤ acc.ret + piece.length := by
  by_cases halloc : Allocates mallocs acc piece.length
  · rw [(appendNext_ok hacc halloc).2.1]
  · rw [appendNext_fail hacc halloc]
    omega

/-- The allocations of a sequence are those of its first piece and then those of the rest. -/
theorem allocates_add_iff (hacc : Counted acc) (n : Nat) :
    Allocates mallocs acc (piece.length + n)
      ↔ Allocates mallocs acc piece.length ∧ Allocates mallocs (appendNext mallocs acc piece) n := by
  constructor
  · intro h
    have hfirst : Allocates mallocs acc piece.length := by
      intro j hj
      refine h j ?_
      rw [newBlocks_add]
      omega
    obtain ⟨hbytes, -, hcalls⟩ := appendNext_ok hacc hfirst
    refine ⟨hfirst, fun j hj => ?_⟩
    rw [hbytes, List.length_append] at hj
    rw [hcalls, Nat.add_assoc]
    refine h _ ?_
    rw [newBlocks_add]
    omega
  · rintro ⟨hfirst, hrest⟩ j hj
    obtain ⟨hbytes, -, hcalls⟩ := appendNext_ok hacc hfirst
    rw [newBlocks_add] at hj
    rcases Nat.lt_or_ge j (newBlocks (gbBytes acc.gb).length piece.length) with hlt | hge
    · exact hfirst j hlt
    -- an allocation of a later piece: the first one has used up those before it
    · have hlater := hrest (j - newBlocks (gbBytes acc.gb).length piece.length)
        (by rw [hbytes, List.length_append]; omega)
      rw [hcalls] at hlater
      rwa [show acc.calls + newBlocks (gbBytes acc.gb).length piece.length
        + (j - newBlocks (gbBytes acc.gb).length piece.length) = acc.calls + j from by omega]
        at hlater

end Next

section All

variable {mallocs : Nat → Bool} {pieces : List (List Char)} {acc : AppendResult}

theorem Counted.all (hacc : Counted acc) : Counted (appendAll mallocs pieces acc) := by
  induction pieces generalizing acc with
  | nil => exact hacc
  | cons piece pieces ih => exact ih hacc.next

theorem appendAll_ret_le (hacc : Counted acc) :
    (appendAll mallocs pieces acc).ret ≤ acc.ret + pieces.flatten.length := by
  induction pieces generalizing acc with
  | nil => exact Nat.le_add_right _ _
  | cons piece pieces ih =>
    have hfirst := @appendNext_ret_le mallocs acc piece hacc
    have hrest := @ih (appendNext mallocs acc piece) hacc.next
    rw [List.flatten_cons, List.length_append]
    exact Nat.le_trans hrest (by omega)

/-- **A sequence of appends, all allocations succeeding**: all bytes are there and counted. -/
theorem appendAll_ok (hacc : Counted acc)
    (halloc : Allocates mallocs acc pieces.flatten.length) :
    gbBytes (appendAll mallocs pieces acc).gb = gbBytes acc.gb ++ pieces.flatten
      ∧ (appendAll mallocs pieces acc).ret = acc.ret + pieces.flatten.length := by
  induction pieces generalizing acc with
  | nil => exact ⟨(List.append_nil _).symm, rfl⟩
  | cons piece pieces ih =>
    rw [List.flatten_cons, List.length_append] at halloc ⊢
    obtain ⟨hfirst, hrest⟩ := (allocates_add_iff hacc _).mp halloc
    obtain ⟨hbytes, hret, -⟩ := appendNext_ok hacc hfirst
    obtain ⟨hall, hsum⟩ := ih hacc.next hrest
    refine ⟨?_, ?_⟩
    · rw [show appendAll mallocs (piece :: pieces) acc
        = appendAll mallocs pieces (appendNext mallocs acc piece) from rfl, hall, hbytes,
        List.append_assoc]
    · rw [show appendAll mallocs (piece :: pieces) acc
        = appendAll mallocs pieces (appendNext mallocs acc piece) from rfl, hsum, hret,
        Nat.add_assoc]

/-- **A sequence of appends with a failing allocation**: less is counted than was meant. -/
theorem appendAll_ret_lt (hacc : Counted acc) (hne : ∀ piece ∈ pieces, piece ≠ [])
    (halloc : ¬ Allocates mallocs acc pieces.flatten.length) :
    (appendAll mallocs pieces acc).ret < acc.ret + pieces.flatten.length := by
  induction pieces generalizing acc with
  | nil =>
    refine absurd (fun j hj => ?_) halloc
    rw [List.flatten_nil, List.length_nil, newBlocks_zero] at hj
    omega
  | cons piece pieces ih =>
    have hpos : 0 < piece.length := List.length_pos_iff.mpr (hne piece (List.mem_cons_self ..))
    rw [List.flatten_cons, List.length_append] at halloc ⊢
    rw [allocates_add_iff hacc] at halloc
    rw [show appendAll mallocs (piece :: pieces) acc
        = appendAll mallocs pieces (appendNext mallocs acc piece) from rfl]
    -- the first piece to break off loses all its bytes; the others add at most theirs
    by_cases hfirst : Allocates mallocs acc piece.length
    · have hrest := @ih (appendNext mallocs acc piece) hacc.next
        (fun p hp => hne p (List.mem_cons_of_mem _ hp)) fun h => halloc ⟨hfirst, h⟩
      have hret := (appendNext_ok hacc hfirst).2.1
      omega
    · have hrest := @appendAll_ret_le mallocs pieces (appendNext mallocs acc piece) hacc.next
      have hret := appendNext_fail hacc hfirst
      omega

end All

/-! ## The elements -/

theorem elementBytes_length (stack : Nat → Char) (text : List Char) :
    (elementBytes stack text).length = text.length := by
  unfold elementBytes
  split
  · rfl
  · rw [List.length_append, List.length_take, List.length_cons, List.length_map,
      List.length_range]
    omega

theorem nul_not_mem_digits (n : Nat) : nul ∉ Nat.toDigits 10 n := by
  intro h
  have hdigit : nul.isDigit = true :=
    @Nat.isDigit_of_mem_toDigits 10 n nul (by decide) (by decide) h
  cases hdigit

theorem nul_not_mem_partElement (i : Nat) (eTag : Option CString) : nul ∉ partElement i eTag := by
  have hopen : nul ∉ "<Part><PartNumber>".toList := by decide +kernel
  have hmid : nul ∉ "</PartNumber><ETag>".toList := by decide +kernel
  have hclose : nul ∉ "</ETag></Part>".toList := by decide +kernel
  have hnull : nul ∉ "(null)".toList := by decide +kernel
  intro h
  rcases List.mem_append.mp h with h | h
  · rcases List.mem_append.mp h with h | h
    · rcases List.mem_append.mp h with h | h
      · rcases List.mem_append.mp h with h | h
        · exact hopen h
        · exact nul_not_mem_digits _ h
      · exact hmid h
    · cases eTag with
      | none => exact hnull h
      | some eTag => exact eTag.nulFree h
  · exact hclose h

theorem partElement_ne_nil (i : Nat) (eTag : Option CString) : partElement i eTag ≠ [] := by
  have hclose : "</ETag></Part>".toList ≠ [] := by decide +kernel
  exact List.append_ne_nil_of_right_ne_nil _ hclose

/-- A text is appended as it is exactly when it fits into `buf`: a cut text has a terminator in
it, and no element does. -/
theorem elementBytes_eq_iff (stack : Nat → Char) {text : List Char} (hnul : nul ∉ text) :
    elementBytes stack text = text ↔ text.length < 256 := by
  unfold elementBytes
  split
  next h => exact iff_of_true rfl h
  next h =>
    refine iff_of_false (fun heq => hnul ?_) h
    rw [← heq]
    exact List.mem_append_right _ (List.mem_cons_self ..)

theorem flatMap_congr_iff {α β : Type} {l : List α} {f g : α → List β}
    (hlen : ∀ a ∈ l, (f a).length = (g a).length) :
    l.flatMap f = l.flatMap g ↔ ∀ a ∈ l, f a = g a := by
  induction l with
  | nil => simp
  | cons a l ih =>
    rw [List.flatMap_cons, List.flatMap_cons, List.forall_mem_cons,
      ← ih fun b hb => hlen b (List.mem_cons_of_mem _ hb)]
    refine ⟨fun h => List.append_inj h (hlen a (List.mem_cons_self ..)), ?_⟩
    rintro ⟨h₁, h₂⟩
    rw [h₁, h₂]

/-! ## The document -/

section Build

variable (mallocs : Nat → Bool) (stack : Nat → Nat → Char) (totalSeq : Nat)
  (etags : Nat → Option CString)

/-- The pieces that are appended. -/
def documentPieces : List (List Char) :=
  docOpen :: ((List.range totalSeq).map (fun i => elementBytes (stack i) (partElement i (etags i)))
    ++ [docClose])

theorem documentPieces_flatten :
    (documentPieces stack totalSeq etags).flatten
      = docOpen ++ ((List.range totalSeq).flatMap
          (fun i => elementBytes (stack i) (partElement i (etags i))) ++ docClose) := by
  simp [documentPieces, List.flatMap_def]

theorem documentPieces_length :
    (documentPieces stack totalSeq etags).flatten.length
      = (document totalSeq etags).length := by
  rw [documentPieces_flatten, document]
  simp only [List.length_append, List.length_flatMap, elementBytes_length]

theorem documentPieces_ne_nil : ∀ piece ∈ documentPieces stack totalSeq etags, piece ≠ [] := by
  intro piece hpiece
  simp only [documentPieces, List.mem_cons, List.mem_append, List.mem_map, List.not_mem_nil,
    or_false] at hpiece
  rcases hpiece with rfl | ⟨i, -, rfl⟩ | rfl
  · decide +kernel
  · intro h
    have hlen := congrArg List.length h
    rw [elementBytes_length] at hlen
    exact partElement_ne_nil i (etags i) (List.length_eq_zero_iff.mp hlen)
  · decide +kernel

theorem appendElements_eq (rounds i : Nat) (acc : AppendResult) :
    appendElements mallocs stack etags rounds i acc
      = appendAll mallocs ((List.range' i rounds).map fun j =>
          elementBytes (stack j) (partElement j (etags j))) acc := by
  induction rounds generalizing i acc with
  | zero => rfl
  | succ rounds ih =>
    rw [appendElements, List.range'_succ, List.map_cons, ih]
    rfl

theorem buildDocument_eq :
    buildDocument mallocs stack totalSeq etags
      = appendAll mallocs (documentPieces stack totalSeq etags) ⟨[], 0, 0⟩ := by
  have hopen : growbufferAppend mallocs 0 [] docOpen
      = appendNext mallocs ⟨[], 0, 0⟩ docOpen := by
    simp [appendNext]
  have hright : appendAll mallocs (documentPieces stack totalSeq etags) ⟨[], 0, 0⟩
      = appendNext mallocs (appendAll mallocs ((List.range totalSeq).map fun i =>
          elementBytes (stack i) (partElement i (etags i)))
        (appendNext mallocs ⟨[], 0, 0⟩ docOpen)) docClose := by
    simp only [documentPieces, appendAll, List.foldl_cons, List.foldl_append, List.foldl_nil]
  rw [hright, buildDocument, hopen, List.range_eq_range', ← appendElements_eq]
  rfl

theorem counted_nil : Counted ⟨[], 0, 0⟩ := ⟨packed_nil, Nat.zero_le _⟩

/-- The allocations of the document: one per started block. -/
def DocumentAllocates : Prop :=
  ∀ j < blocksFor (document totalSeq etags).length, mallocs j = true

theorem documentAllocates_iff :
    DocumentAllocates mallocs totalSeq etags
      ↔ Allocates mallocs ⟨[], 0, 0⟩ (documentPieces stack totalSeq etags).flatten.length := by
  rw [DocumentAllocates, Allocates, documentPieces_length]
  simp [newBlocks, gbBytes, blocksFor_zero]

/-- The buffer before the first commit attempt. -/
theorem buildDocument_counted : Counted (buildDocument mallocs stack totalSeq etags) := by
  rw [buildDocument_eq]
  exact counted_nil.all

variable {mallocs stack totalSeq etags}

theorem buildDocument_ok (h : DocumentAllocates mallocs totalSeq etags) :
    gbBytes (buildDocument mallocs stack totalSeq etags).gb
        = (documentPieces stack totalSeq etags).flatten
      ∧ (buildDocument mallocs stack totalSeq etags).ret = (document totalSeq etags).length := by
  obtain ⟨hbytes, hret⟩ :=
    appendAll_ok counted_nil ((documentAllocates_iff mallocs stack totalSeq etags).mp h)
  rw [buildDocument_eq, hret, Nat.zero_add, documentPieces_length]
  exact ⟨hbytes, rfl⟩

theorem buildDocument_ret_le :
    (buildDocument mallocs stack totalSeq etags).ret ≤ (document totalSeq etags).length := by
  rw [buildDocument_eq, ← documentPieces_length stack]
  have := @appendAll_ret_le mallocs (documentPieces stack totalSeq etags) _ counted_nil
  simpa using this

theorem buildDocument_ret_lt (h : ¬ DocumentAllocates mallocs totalSeq etags) :
    (buildDocument mallocs stack totalSeq etags).ret < (document totalSeq etags).length := by
  rw [documentAllocates_iff mallocs stack] at h
  rw [buildDocument_eq, ← documentPieces_length stack]
  have := appendAll_ret_lt counted_nil (documentPieces_ne_nil stack totalSeq etags) h
  simpa using this

/-- The appended bytes are the document's exactly when every element fits. -/
theorem builtBytes_eq_iff :
    (documentPieces stack totalSeq etags).flatten = document totalSeq etags
      ↔ ETagsFit totalSeq etags := by
  rw [documentPieces_flatten, document, List.append_cancel_left_eq, List.append_cancel_right_eq,
    flatMap_congr_iff fun i _ => elementBytes_length _ _]
  simp only [List.mem_range, elementBytes_eq_iff _ (nul_not_mem_partElement _ _)]
  rfl

/-- **The counted bytes are the whole document** exactly when the allocations succeed and every
element fits. -/
theorem counted_bytes_eq_iff :
    (gbBytes (buildDocument mallocs stack totalSeq etags).gb).take
          (buildDocument mallocs stack totalSeq etags).ret = document totalSeq etags
      ↔ DocumentAllocates mallocs totalSeq etags ∧ ETagsFit totalSeq etags := by
  by_cases halloc : DocumentAllocates mallocs totalSeq etags
  · obtain ⟨hbytes, hret⟩ := @buildDocument_ok mallocs stack totalSeq etags halloc
    rw [hbytes, hret, ← documentPieces_length stack, List.take_length, builtBytes_eq_iff]
    exact (and_iff_right halloc).symm
  · refine iff_of_false (fun heq => ?_) fun h => halloc h.1
    have hlt := @buildDocument_ret_lt mallocs stack totalSeq etags halloc
    have hlen := congrArg List.length heq
    rw [List.length_take] at hlen
    omega

end Build

/-! ## Received ETags -/

/-- The document for the ETags received from the server, part by part. -/
def documentOf (eTags : List CString) : List Char := document eTags.length fun i => eTags[i]?

/-- What `snprintf` leaves in `buf`: the text as far as it fits, and its terminator. -/
def formatted (text : List Char) : List Char := text.take 255 ++ [nul]

/-- The buffer holds the document, every append read bytes that were formatted for it, and the sum
that goes to `manager.remaining` is the document's length. -/
structure DocumentExact (mallocs : Nat → Bool) (stack : Nat → Nat → Char) (eTags : List CString) :
    Prop where
  bytes : gbBytes (buildDocument mallocs stack eTags.length fun i => eTags[i]?).gb
    = documentOf eTags
  reads : ∀ i < eTags.length, (elementBytes (stack i) (partElement i eTags[i]?)).length
    ≤ (formatted (partElement i eTags[i]?)).length
  remaining : (buildDocument mallocs stack eTags.length fun i => eTags[i]?).ret
    = (documentOf eTags).length

theorem length_framed {a b c : List Char} (hlen : a.length + b.length + c.length = 51)
    (digits tag : List Char) :
    (a ++ digits ++ b ++ tag ++ c).length = digits.length + tag.length + 51 := by
  simp only [List.length_append]
  omega

theorem partElement_length (i : Nat) (eTag : CString) :
    (partElement i (some eTag)).length
      = (Nat.toDigits 10 (i + 1)).length + eTag.chars.length + 51 := by
  have hlen : "<Part><PartNumber>".toList.length + "</PartNumber><ETag>".toList.length
      + "</ETag></Part>".toList.length = 51 := by decide +kernel
  exact length_framed hlen _ _

/-- An element fits when its ETag and its number have at most 204 characters. -/
theorem eTagsFit_iff (eTags : List CString) :
    ETagsFit eTags.length (fun i => eTags[i]?)
      ↔ ∀ i eTag, eTags[i]? = some eTag →
        (Nat.toDigits 10 (i + 1)).length + eTag.chars.length ≤ 204 := by
  constructor
  · intro h i eTag heq
    have hfit : (partElement i eTags[i]?).length < 256 := h i (List.getElem?_eq_some_iff.mp heq).1
    rw [heq, partElement_length] at hfit
    omega
  · intro h i hi
    have hlen := h i eTags[i] (List.getElem?_eq_getElem hi)
    show (partElement i eTags[i]?).length < 256
    rw [List.getElem?_eq_getElem hi, partElement_length]
    omega

/-- The bytes alone decide: with the allocations succeeding the sum is always right, and an element
that is appended as it is was formatted whole. -/
theorem documentExact_iff_fit {mallocs : Nat → Bool} {stack : Nat → Nat → Char}
    {eTags : List CString}
    (halloc : DocumentAllocates mallocs eTags.length fun i => eTags[i]?) :
    DocumentExact mallocs stack eTags ↔ ETagsFit eTags.length fun i => eTags[i]? := by
  obtain ⟨hbytes, hret⟩ := @buildDocument_ok mallocs stack eTags.length _ halloc
  constructor
  · intro h
    have hdoc := h.bytes
    rw [hbytes] at hdoc
    exact builtBytes_eq_iff.mp hdoc
  · intro hfit
    refine ⟨?_, fun i hi => ?_, hret⟩
    · rw [hbytes]
      exact builtBytes_eq_iff.mpr hfit
    · have hlen : (partElement i eTags[i]?).length < 256 := hfit i hi
      rw [elementBytes_length, formatted, List.length_append, List.length_take,
        List.length_singleton]
      omega

/-- **When the commit document is exact**: every part's number and ETag together have at most 204
characters, so that its element fits into `char buf[256]`. -/
theorem document_exact_iff (mallocs : Nat → Bool) (stack : Nat → Nat → Char)
    (eTags : List CString)
    (halloc : DocumentAllocates mallocs eTags.length fun i => eTags[i]?) :
    DocumentExact mallocs stack eTags
      ↔ ∀ i eTag, eTags[i]? = some eTag →
        (Nat.toDigits 10 (i + 1)).length + eTag.chars.length ≤ 204 := by
  rw [documentExact_iff_fit halloc, eTagsFit_iff]

/-- Two parts with ETags as S3 sends them. -/
theorem document_exact_two :
    DocumentExact (fun _ => true) (fun _ _ => nul) [cstr ['a', 'b'], cstr ['c']] := by
  refine (document_exact_iff (fun _ => true) (fun _ _ => nul) _ fun _ _ => rfl).mpr ?_
  intro i eTag h
  match i with
  | 0 =>
    cases h
    decide
  | 1 =>
    cases h
    decide
  | i + 2 => cases h

/-- An ETag of 204 characters: a terminator gets into the document. -/
theorem long_eTag_corrupts_document :
    ¬ DocumentExact (fun _ => true) (fun _ _ => nul) [cstr (List.replicate 204 'a')] := by
  rw [documentExact_iff_fit fun _ _ => rfl, eTagsFit_iff]
  intro h
  have hlen := h 0 _ rfl
  revert hlen
  decide +kernel

end Estuary
