import Estuary.Document

/-!
# Estuary — reading the commit document back

S3 assembles the parts that the document lists. What it has to make of a document is said by
`S3Server.listed`: of the document for `n` parts, the numbers 1 to `n` in order, whatever the
ETags are as long as they do not open an element themselves.

* **`partNumbers`** — a reader of `<PartNumber>` elements;
* **`partNumbers_document`** — it reads back the numbers the document was built from, so a server
  as described exists.
-/

namespace Estuary

/-- The ETag does not open an element of the document it is put into. -/
def PlainETag (eTag : Option CString) : Prop := ∀ tag, eTag = some tag → '<' ∉ tag.chars

/-- How S3 reads a commit document: the numbers of the parts it lists, in order. -/
structure S3Server where
  listed : List Char → List Nat
  listed_document : ∀ (n : Nat) (etags : Nat → Option CString), (∀ i < n, PlainETag (etags i)) →
    listed (document n etags) = List.range' 1 n

/-! ## A reader -/

/-- `<PartNumber>`. -/
def numberOpen : List Char := ['<', 'P', 'a', 'r', 't', 'N', 'u', 'm', 'b', 'e', 'r', '>']

/-- The numbers in the `<PartNumber>` elements of a text. -/
def partNumbers : List Char → List Nat
  | [] => []
  | c :: rest =>
    if numberOpen.isPrefixOf (c :: rest) then
      Nat.ofDigitChars 10 (((c :: rest).drop numberOpen.length).takeWhile Char.isDigit) 0
        :: partNumbers rest
    else partNumbers rest

/-- Text that opens no element is skipped. -/
theorem partNumbers_skip {text : List Char} (h : '<' ∉ text) (rest : List Char) :
    partNumbers (text ++ rest) = partNumbers rest := by
  induction text with
  | nil => rfl
  | cons c text ih =>
    have hne : '<' ≠ c := fun heq => h (heq ▸ List.mem_cons_self ..)
    have hno : numberOpen.isPrefixOf (c :: (text ++ rest)) = false := by
      rw [numberOpen, List.isPrefixOf, beq_false_of_ne hne, Bool.false_and]
    rw [List.cons_append, partNumbers, hno]
    exact ih fun hmem => h (List.mem_cons_of_mem _ hmem)

/-- Another element's tag is skipped. -/
theorem partNumbers_tag {tag rest : List Char} (h : '<' ∉ tag.tail)
    (hopen : tag.head? = some '<') (hno : numberOpen.isPrefixOf (tag ++ rest) = false) :
    partNumbers (tag ++ rest) = partNumbers rest := by
  cases tag with
  | nil => cases hopen
  | cons c tag =>
    rw [List.cons_append] at hno ⊢
    rw [partNumbers, hno]
    exact partNumbers_skip h rest

/-- An element's number is read; it ends at the next tag. -/
theorem partNumbers_number (n : Nat) {rest : List Char} (hrest : rest.head? = some '<') :
    partNumbers (numberOpen ++ (Nat.toDigits 10 n ++ rest)) = n :: partNumbers rest := by
  have hdigits : ∀ d ∈ Nat.toDigits 10 n, d.isDigit = true :=
    fun d hd => Nat.isDigit_of_mem_toDigits (by decide) (by decide) hd
  have hopen : '<' ∉ numberOpen.tail ++ Nat.toDigits 10 n := by
    intro hmem
    rcases List.mem_append.mp hmem with hmem | hmem
    · revert hmem
      decide
    · exact absurd (hdigits _ hmem) (by decide)
  have hread : (Nat.toDigits 10 n ++ rest).takeWhile Char.isDigit = Nat.toDigits 10 n := by
    cases rest with
    | nil => cases hrest
    | cons c rest =>
      cases hrest
      rw [List.takeWhile_append_of_pos hdigits, List.takeWhile_cons_of_neg (by decide),
        List.append_nil]
  have hyes : numberOpen.isPrefixOf (numberOpen ++ (Nat.toDigits 10 n ++ rest)) = true :=
    List.isPrefixOf_iff_prefix.mpr (List.prefix_append _ _)
  have hcons : numberOpen ++ (Nat.toDigits 10 n ++ rest)
      = '<' :: (numberOpen.tail ++ Nat.toDigits 10 n ++ rest) := by
    simp [numberOpen]
  rw [hcons, partNumbers, ← hcons, if_pos hyes, List.drop_left, hread, partNumbers_skip hopen,
    Nat.ofDigitChars_toDigits (by decide) (by decide)]

/-! ## The document -/

def partOpen : List Char := ['<', 'P', 'a', 'r', 't', '>']

def numberClose : List Char :=
  ['<', '/', 'P', 'a', 'r', 't', 'N', 'u', 'm', 'b', 'e', 'r', '>']

def eTagOpen : List Char := ['<', 'E', 'T', 'a', 'g', '>']

def eTagClose : List Char := ['<', '/', 'E', 'T', 'a', 'g', '>']

def partClose : List Char := ['<', '/', 'P', 'a', 'r', 't', '>']

/-- The text between an element's tags. -/
def eTagText (eTag : Option CString) : List Char :=
  match eTag with
  | some eTag => eTag.chars
  | none => "(null)".toList

theorem PlainETag.text {eTag : Option CString} (h : PlainETag eTag) : '<' ∉ eTagText eTag := by
  cases eTag with
  | none => decide +kernel
  | some tag => exact h tag rfl

theorem partElement_tags (i : Nat) (eTag : Option CString) :
    partElement i eTag = partOpen ++ numberOpen ++ Nat.toDigits 10 (i + 1)
      ++ (numberClose ++ eTagOpen) ++ eTagText eTag ++ (eTagClose ++ partClose) := by
  have hopen : "<Part><PartNumber>".toList = partOpen ++ numberOpen := by decide +kernel
  have hmid : "</PartNumber><ETag>".toList = numberClose ++ eTagOpen := by decide +kernel
  have hclose : "</ETag></Part>".toList = eTagClose ++ partClose := by decide +kernel
  rw [← hopen, ← hmid, ← hclose]
  exact @Eq.refl (List Char) (partElement i eTag)

/-- A text that begins with a tag, with more of it behind. -/
theorem head_tag {tag : List Char} (h : tag.head? = some '<') (rest : List Char) :
    (tag ++ rest).head? = some '<' := by
  rw [List.head?_append, h]
  rfl

/-- An element contributes its number. -/
theorem partNumbers_element (i : Nat) {eTag : Option CString} (h : PlainETag eTag)
    (rest : List Char) :
    partNumbers (partElement i eTag ++ rest) = (i + 1) :: partNumbers rest := by
  have htag := h.text
  rw [partElement_tags]
  generalize eTagText eTag = tag at htag
  simp only [List.append_assoc]
  have hpart : ∀ rest, partNumbers (partOpen ++ rest) = partNumbers rest :=
    fun rest => partNumbers_tag (by decide) rfl rfl
  have hnumber : ∀ rest, partNumbers (numberClose ++ rest) = partNumbers rest :=
    fun rest => partNumbers_tag (by decide) rfl rfl
  have hopen : ∀ rest, partNumbers (eTagOpen ++ rest) = partNumbers rest :=
    fun rest => partNumbers_tag (by decide) rfl rfl
  have hclose : ∀ rest, partNumbers (eTagClose ++ rest) = partNumbers rest :=
    fun rest => partNumbers_tag (by decide) rfl rfl
  have hend : ∀ rest, partNumbers (partClose ++ rest) = partNumbers rest :=
    fun rest => partNumbers_tag (by decide) rfl rfl
  rw [hpart, partNumbers_number (i + 1) (head_tag rfl _), hnumber, hopen, partNumbers_skip htag,
    hclose, hend]

theorem partNumbers_elements (etags : Nat → Option CString) (indices : List Nat)
    (h : ∀ i ∈ indices, PlainETag (etags i)) (rest : List Char) :
    partNumbers (indices.flatMap (fun i => partElement i (etags i)) ++ rest)
      = indices.map (· + 1) ++ partNumbers rest := by
  induction indices with
  | nil => rfl
  | cons i indices ih =>
    rw [List.flatMap_cons, List.append_assoc, partNumbers_element i (h i (List.mem_cons_self ..)),
      ih fun j hj => h j (List.mem_cons_of_mem _ hj)]
    rfl

/-- **The document read back.** -/
theorem partNumbers_document (n : Nat) (etags : Nat → Option CString)
    (h : ∀ i < n, PlainETag (etags i)) : partNumbers (document n etags) = List.range' 1 n := by
  have hopen : ∀ rest, partNumbers (docOpen ++ rest) = partNumbers rest := by
    have hchars : docOpen = ['<', 'C', 'o', 'm', 'p', 'l', 'e', 't', 'e', 'M', 'u', 'l', 't', 'i',
        'p', 'a', 'r', 't', 'U', 'p', 'l', 'o', 'a', 'd', '>'] := by decide +kernel
    rw [hchars]
    exact fun rest => partNumbers_tag (by decide) rfl rfl
  have hclose : partNumbers docClose = [] := by decide +kernel
  rw [document, hopen, partNumbers_elements etags _ fun i hi => h i (List.mem_range.mp hi), hclose,
    List.append_nil, List.range'_eq_map_range]
  exact List.map_congr_left fun i _ => Nat.add_comm i 1

/-- A server that reads the documents so. -/
def S3Server.reader : S3Server := ⟨partNumbers, partNumbers_document⟩

end Estuary
