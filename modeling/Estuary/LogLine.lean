import Estuary.Engine.Stretch
import Estuary.Spec.LogLine

/-!
# Estuary — what a line of the log says

* **`vsnprintfAt_text`**, **`tlogRootDefaultFormat_text`** — where the formatted texts end up in the
  array;
* **`cutText_text`**, **`endLine_text`** — the cut and the end of the line;
* **`rootLine`** — so a message becomes one line, the message itself or a marked beginning of it, in
  both modes of the log; a text of exactly the length of the room is given up;
* **`printLine`** — the same of a message of `tlog_printf`, which gets neither prefix nor newline.
-/

namespace Estuary

open Engine

/-! ## The line a text should become -/

/-- The text of a call: prefix and message. -/
def LogCall.text {maxLineSize : Nat} (outputNoPrefix : Bool) (call : LogCall maxLineSize) :
    List UInt8 :=
  (if outputNoPrefix then [] else call.head) ++ call.message

/-- A text that does not fit is cut, and marked with dots. -/
def cut (maxFormatLen : Nat) (text : List UInt8) : List UInt8 :=
  if text.length < maxFormatLen then text
  else text.take (maxFormatLen - 4) ++ [dot, dot, dot]

/-- A line ends with a newline character. -/
def ended (text : List UInt8) : List UInt8 :=
  if text.getLast? = some newline then text else text ++ [newline]

/-- The room for the text of a line. -/
def maxFormatLen (segmentLog : Bool) (maxLineSize : Nat) : Nat :=
  maxLineSize - (if segmentLog then segmentLogHeadSize else 0) - 2

/-- The text of a segment: what `_tlog_root_write_log` takes as `head->data` and `head->len`. -/
def segmentText (line : List UInt8) : List UInt8 :=
  (line.drop segmentLogHeadSize).take
    ((line.getD loginfoSize 0).toNat + 256 * (line.getD (loginfoSize + 1) 0).toNat)

/-- The text `_tlog_root_write_log` takes from a line, in either mode. -/
def rootText (segmentLog : Bool) (line : List UInt8) : List UInt8 :=
  if segmentLog then segmentText line else line

theorem cut_length {maxFormatLen : Nat} (h : 4 ≤ maxFormatLen) (text : List UInt8) :
    (cut maxFormatLen text).length = min text.length (maxFormatLen - 1) := by
  unfold cut
  split
  · omega
  · rw [List.length_append, List.length_take]
    show min (maxFormatLen - 4) text.length + 3 = _
    omega

theorem ended_last (text : List UInt8) : (ended text).getLast? = some newline := by
  unfold ended
  split
  · assumption
  · exact List.getLast?_concat

theorem ended_length_le (text : List UInt8) : (ended text).length ≤ text.length + 1 := by
  unfold ended
  split
  · exact Nat.le_succ _
  · exact Nat.le_of_eq (by rw [List.length_append, List.length_singleton])

theorem ended_pos (text : List UInt8) : 0 < (ended text).length := by
  have hlast := ended_last text
  cases h : ended text with
  | nil =>
    rw [h] at hlast
    cases hlast
  | cons b bs => exact Nat.succ_pos _

/-! ## Where the texts end up -/

section Arrays

variable {buff text : List UInt8} {pos size : Nat}

theorem vsnprintfAt_length (h : pos + size ≤ buff.length) :
    (vsnprintfAt buff pos size text).length = buff.length := by
  unfold vsnprintfAt
  split
  · rfl
  · refine patch_length_of_fits 0 ?_
    rw [List.length_append, List.length_take, List.length_singleton]
    omega

theorem vsnprintfAt_below {a b : Nat} (hb : b ≤ pos) (h : pos ≤ buff.length) :
    stretch (vsnprintfAt buff pos size text) a b = stretch buff a b := by
  unfold vsnprintfAt
  split
  · rfl
  · exact stretch_patch_below 0 hb h

/-- As much of the text as there is room for in front of the terminator. -/
theorem vsnprintfAt_text (hsize : 0 < size) (h : pos + size ≤ buff.length) :
    stretch (vsnprintfAt buff pos size text) pos (pos + min text.length (size - 1))
      = text.take (size - 1) := by
  have hwritten : (text.take (size - 1)).length = min text.length (size - 1) := by
    rw [List.length_take, Nat.min_comm]
  have hpos : pos ≤ buff.length := by omega
  have hself := @stretch_patch_self _ buff (text.take (size - 1) ++ [0]) pos 0 hpos
  have hlength : (patch 0 buff pos (text.take (size - 1) ++ [0])).length = buff.length := by
    refine patch_length_of_fits 0 ?_
    rw [List.length_append, hwritten, List.length_singleton]
    omega
  rw [vsnprintfAt, if_neg (Nat.ne_of_gt hsize),
    ← @stretch_take _ _ pos (pos + min text.length (size - 1)) _ (Nat.le_add_right _ _)
      (Nat.le_add_right _ 1) (by omega)]
  rw [List.length_append, hwritten, List.length_singleton, ← Nat.add_assoc] at hself
  rw [hself, Nat.add_sub_cancel_left, ← hwritten, List.take_left]

theorem getElem?_stretch {α : Type} (l : List α) (a b i : Nat) (h : a + i < b) :
    (stretch l a b)[i]? = l[a + i]? := by
  rw [stretch, List.getElem?_take_of_lt (by omega), List.getElem?_drop]

end Arrays

/-- **The format function** puts prefix and message into the array, as far as there is room. -/
theorem tlogRootDefaultFormat_text {outputNoPrefix : Bool} {buff : List UInt8}
    {pos maxlen maxLineSize : Nat} {call : LogCall maxLineSize} (hfits : pos + maxlen ≤ buff.length)
    (hhead : (if outputNoPrefix then 0 else call.head.length) < maxlen)
    (hroom : (call.text outputNoPrefix).length ≠ maxlen) :
    ∃ buff', tlogRootDefaultFormat outputNoPrefix buff pos maxlen call
        = ⟨(call.text outputNoPrefix).length, buff'⟩
      ∧ buff'.length = buff.length
      ∧ stretch buff' 0 pos = stretch buff 0 pos
      ∧ stretch buff' pos (pos + min (call.text outputNoPrefix).length (maxlen - 1))
        = (call.text outputNoPrefix).take (maxlen - 1) := by
  cases outputNoPrefix with
  | true =>
    simp only [LogCall.text, if_true, List.nil_append] at hhead hroom ⊢
    refine ⟨vsnprintfAt buff pos maxlen call.message, ?_, vsnprintfAt_length hfits,
      vsnprintfAt_below (Nat.le_refl _) (by omega), vsnprintfAt_text hhead hfits⟩
    simp only [tlogRootDefaultFormat, if_true, if_neg (Nat.not_le_of_lt hhead), Nat.add_zero,
      Nat.sub_zero, if_neg hroom]
    rw [show ((0 : Nat) : Int) + (call.message.length : Int) = call.message.length from
      Int.zero_add _]
  | false =>
    simp only [LogCall.text, Bool.false_eq_true, if_false, List.length_append] at hhead hroom ⊢
    have hroom' : call.message.length ≠ maxlen - call.head.length := by omega
    -- the prefix fits, and its terminator is where the message begins
    have hlen : (vsnprintfAt buff pos maxlen call.head).length = buff.length :=
      vsnprintfAt_length hfits
    have hheadText : stretch (vsnprintfAt buff pos maxlen call.head) pos (pos + call.head.length)
        = call.head := by
      have := @vsnprintfAt_text buff call.head pos maxlen (by omega) hfits
      rwa [Nat.min_eq_left (by omega), List.take_of_length_le (by omega)] at this
    have hfits' : pos + call.head.length + (maxlen - call.head.length)
        ≤ (vsnprintfAt buff pos maxlen call.head).length := by omega
    have hmessage := @vsnprintfAt_text (vsnprintfAt buff pos maxlen call.head) call.message _
      (maxlen - call.head.length) (by omega) hfits'
    refine ⟨vsnprintfAt (vsnprintfAt buff pos maxlen call.head) (pos + call.head.length)
      (maxlen - call.head.length) call.message, ?_, ?_, ?_, ?_⟩
    · simp only [tlogRootDefaultFormat, Bool.false_eq_true, if_false,
        if_neg (Nat.not_le_of_lt hhead), if_neg hroom', Int.natCast_add]
    · rw [vsnprintfAt_length hfits', hlen]
    · rw [vsnprintfAt_below (Nat.le_add_right _ _) (by omega),
        vsnprintfAt_below (Nat.le_refl _) (by omega)]
    · have hend : pos + min (call.head.length + call.message.length) (maxlen - 1)
          = pos + call.head.length
            + min call.message.length (maxlen - call.head.length - 1) := by omega
      have htake : maxlen - 1 = call.head.length + (maxlen - call.head.length - 1) := by omega
      rw [hend, ← stretch_append (Nat.le_add_right pos call.head.length) (Nat.le_add_right _ _),
        vsnprintfAt_below (Nat.le_refl _) (by omega), hheadText, hmessage, htake,
        List.take_length_add_append]

/-- It gives up on a prefix that does not fit, and on a text as long as the room. -/
theorem tlogRootDefaultFormat_fails {outputNoPrefix : Bool} (buff : List UInt8) (pos : Nat)
    {maxlen maxLineSize : Nat} {call : LogCall maxLineSize}
    (h : ¬ ((if outputNoPrefix then 0 else call.head.length) < maxlen
      ∧ (call.text outputNoPrefix).length ≠ maxlen)) :
    (tlogRootDefaultFormat outputNoPrefix buff pos maxlen call).len = -1 := by
  by_cases hhead : (if outputNoPrefix then 0 else call.head.length) < maxlen
  swap
  · simp only [tlogRootDefaultFormat, ge_iff_le, if_pos (Nat.le_of_not_lt hhead)]
  have htext : (call.text outputNoPrefix).length = maxlen := by
    by_contra hne
    exact h ⟨hhead, hne⟩
  have hmessage : call.message.length
      = maxlen - (if outputNoPrefix then 0 else call.head.length) := by
    cases outputNoPrefix with
    | true => exact htext
    | false =>
      simp only [LogCall.text, Bool.false_eq_true, if_false, List.length_append] at htext ⊢
      omega
  simp only [tlogRootDefaultFormat, ge_iff_le, if_neg (Nat.not_le_of_lt hhead), if_pos hmessage]

/-! ## The cut and the end of the line -/

section Line

variable {buff text : List UInt8} {pos : Nat}

/-- The last byte of a stretch. -/
theorem getD_of_stretch {n : Nat} (hn : 0 < n) (h : stretch buff pos (pos + n) = text)
    (hlen : text.length = n) : text.getLast? = some (buff.getD (pos + n - 1) 0) := by
  have hget : text[n - 1]? = buff[pos + (n - 1)]? := by
    rw [← h, getElem?_stretch _ _ _ _ (by omega)]
  have hsome : text[n - 1]? = some text[n - 1] := List.getElem?_eq_getElem (by omega)
  rw [List.getLast?_eq_getElem?, hlen, List.getD_eq_getElem?_getD,
    show pos + n - 1 = pos + (n - 1) from by omega, ← hget, hsome, Option.getD_some]

/-- **The cut** leaves the text or its marked beginning. -/
theorem cutText_text {maxFormatLen : Nat} (hmin : 4 ≤ maxFormatLen)
    (hfits : pos + maxFormatLen ≤ buff.length)
    (hstretch : stretch buff pos (pos + min text.length (maxFormatLen - 1))
      = text.take (maxFormatLen - 1)) :
    ∃ buff', cutText pos maxFormatLen ⟨text.length, buff⟩
        = ((cut maxFormatLen text).length, buff')
      ∧ buff'.length = buff.length
      ∧ stretch buff' 0 pos = stretch buff 0 pos
      ∧ stretch buff' pos (pos + (cut maxFormatLen text).length) = cut maxFormatLen text := by
  by_cases hlong : maxFormatLen ≤ text.length
  swap
  · refine ⟨buff, ?_, rfl, rfl, ?_⟩
    · simp only [cutText, cut, if_pos (Nat.lt_of_not_le hlong)]
      rw [if_neg (by omega), Int.toNat_natCast]
    · rw [Nat.min_eq_left (by omega), List.take_of_length_le (by omega)] at hstretch
      rw [cut, if_pos (Nat.lt_of_not_le hlong), hstretch]
  · have hlength : (cut maxFormatLen text).length = maxFormatLen - 1 := by
      rw [cut_length hmin]
      omega
    have hdots : pos + maxFormatLen - 4 + [dot, dot, dot].length ≤ buff.length := by
      show pos + maxFormatLen - 4 + 3 ≤ buff.length
      omega
    have hkept : stretch buff pos (pos + maxFormatLen - 4) = text.take (maxFormatLen - 4) := by
      rw [Nat.min_eq_right (by omega)] at hstretch
      rw [← @stretch_take _ buff pos (pos + maxFormatLen - 4) (pos + (maxFormatLen - 1)) (by omega)
        (by omega) (by omega), hstretch, List.take_take, Nat.min_eq_left (by omega)]
      congr 1
      omega
    refine ⟨patch 0 buff (pos + maxFormatLen - 4) [dot, dot, dot], ?_,
      patch_length_of_fits 0 hdots, stretch_patch_below 0 (by omega) (by omega), ?_⟩
    · rw [cutText, if_pos (Int.ofNat_le.mpr hlong), hlength]
    · have hend : pos + (maxFormatLen - 1)
          = pos + maxFormatLen - 4 + [dot, dot, dot].length := by
        show _ = pos + maxFormatLen - 4 + 3
        omega
      rw [hlength, hend, stretch_patch_end 0 (by omega) (by omega), hkept, cut,
        if_neg (Nat.not_lt_of_le hlong)]

/-- **The end of the line**: a newline character, if there is none. -/
theorem endLine_text {maxlen : Nat} (before : UInt8) (hne : text ≠ [])
    (hstretch : stretch buff pos (pos + text.length) = text)
    (hroom : pos + text.length + 1 < maxlen - 1) (hfits : maxlen ≤ buff.length) :
    ∃ buff', endLine maxlen (pos + text.length) text.length before buff
        = (pos + (ended text).length, (ended text).length, buff')
      ∧ buff'.length = buff.length
      ∧ stretch buff' 0 pos = stretch buff 0 pos
      ∧ stretch buff' pos (pos + (ended text).length) = ended text := by
  have hpos : 0 < text.length := List.length_pos_iff.mpr hne
  have hlast := getD_of_stretch hpos hstretch rfl
  by_cases hnewline : buff.getD (pos + text.length - 1) 0 = newline
  · have hended : ended text = text := by
      rw [ended, if_pos (by rw [hlast, hnewline])]
    refine ⟨buff, ?_, rfl, rfl, by rw [hended, hstretch]⟩
    simp only [endLine, if_neg (show pos + text.length ≠ 0 by omega), hended]
    rw [if_neg fun h => h.1 hnewline]
  · have hended : ended text = text ++ [newline] := by
      rw [ended, if_neg]
      rw [hlast]
      exact fun h => hnewline (Option.some.inj h)
    have hone : pos + text.length + [newline].length ≤ buff.length := by
      show pos + text.length + 1 ≤ buff.length
      omega
    refine ⟨patch 0 buff (pos + text.length) [newline], ?_, patch_length_of_fits 0 hone,
      stretch_patch_below 0 (Nat.le_add_right _ _) (by omega), ?_⟩
    · simp only [endLine, if_neg (show pos + text.length ≠ 0 by omega), hended,
        List.length_append, List.length_singleton]
      rw [if_pos ⟨hnewline, hroom⟩]
      rfl
    · rw [hended, List.length_append, ← Nat.add_assoc,
        stretch_patch_end 0 (Nat.le_add_right _ _) (by omega), hstretch]

end Line

/-! ## A call of the root log -/

section Root

variable {segmentLog outputNoPrefix : Bool} {maxLineSize : Nat}

/-- Where the text begins in the array. -/
def textStart (segmentLog : Bool) : Nat := if segmentLog then segmentLogHeadSize else 0

/-- The calls whose text `_tlog_root_default_format` does not give up on. -/
def LogCall.Formats (segmentLog outputNoPrefix : Bool) (call : LogCall maxLineSize) : Prop :=
  (if outputNoPrefix then 0 else call.head.length) < maxFormatLen segmentLog maxLineSize
    ∧ (call.text outputNoPrefix).length ≠ maxFormatLen segmentLog maxLineSize

instance (call : LogCall maxLineSize) : Decidable (call.Formats segmentLog outputNoPrefix) := by
  unfold LogCall.Formats
  infer_instance

/-- The text a call should leave in the log. -/
def LogCall.line (segmentLog outputNoPrefix : Bool) (call : LogCall maxLineSize) : List UInt8 :=
  ended (cut (maxFormatLen segmentLog maxLineSize) (call.text outputNoPrefix))

theorem maxFormatLen_add (hmin : minLineSize ≤ maxLineSize) :
    textStart segmentLog + maxFormatLen segmentLog maxLineSize + 2 = maxLineSize := by
  unfold minLineSize at hmin
  cases segmentLog with
  | true =>
    simp only [textStart, maxFormatLen, if_true, segmentLogHeadSize, loginfoSize]
    omega
  | false =>
    simp only [textStart, maxFormatLen, Bool.false_eq_true, if_false]
    omega

theorem LogCall.line_length_le (hmin : minLineSize ≤ maxLineSize) (call : LogCall maxLineSize) :
    textStart segmentLog + (call.line segmentLog outputNoPrefix).length + 2 ≤ maxLineSize := by
  have hroom := @maxFormatLen_add segmentLog _ hmin
  have hstart : textStart segmentLog ≤ 39 := by cases segmentLog <;> decide
  unfold minLineSize at hmin
  have hcut := @cut_length (maxFormatLen segmentLog maxLineSize) (by omega)
    (call.text outputNoPrefix)
  have hended := ended_length_le
    (cut (maxFormatLen segmentLog maxLineSize) (call.text outputNoPrefix))
  unfold LogCall.line
  omega

/-- The array the format function gets. -/
theorem rootArray_length (hmin : minLineSize ≤ maxLineSize) (call : LogCall maxLineSize) :
    (patch 0 (if segmentLog then patch 0 call.memory 0 call.info else call.memory)
      (maxLineSize - 1) [0]).length = maxLineSize := by
  unfold minLineSize at hmin
  have hinner : (if segmentLog then patch 0 call.memory 0 call.info
      else call.memory).length = maxLineSize := by
    split
    · rw [patch_length_of_fits, call.memory_length]
      rw [Nat.zero_add, call.info_length, call.memory_length]
      unfold loginfoSize
      omega
    · exact call.memory_length
  rw [patch_length_of_fits, hinner]
  rw [hinner, List.length_singleton]
  omega

/-- **The array after a call**: its text, cut and ended, behind the room for a segment's head. -/
theorem tlogRootLogBuffer_text (hmin : minLineSize ≤ maxLineSize) (call : LogCall maxLineSize)
    (hne : call.text outputNoPrefix ≠ []) (hformats : call.Formats segmentLog outputNoPrefix) :
    ∃ buff, tlogRootLogBuffer segmentLog outputNoPrefix maxLineSize call
        = (if segmentLog then
            closeSegment maxLineSize
              (textStart segmentLog + (call.line segmentLog outputNoPrefix).length)
              (call.line segmentLog outputNoPrefix).length buff
          else ⟨(textStart segmentLog + (call.line segmentLog outputNoPrefix).length : Nat), buff⟩)
      ∧ buff.length = maxLineSize
      ∧ stretch buff (textStart segmentLog)
          (textStart segmentLog + (call.line segmentLog outputNoPrefix).length)
        = call.line segmentLog outputNoPrefix := by
  obtain ⟨hhead, hroom⟩ := hformats
  have hsum := @maxFormatLen_add segmentLog _ hmin
  have hstart : textStart segmentLog ≤ 39 := by cases segmentLog <;> decide
  have hfour : 4 ≤ maxFormatLen segmentLog maxLineSize := by
    unfold minLineSize at hmin
    omega
  have hcutne : cut (maxFormatLen segmentLog maxLineSize) (call.text outputNoPrefix) ≠ [] := by
    have hpos := List.length_pos_iff.mpr hne
    rw [← List.length_pos_iff, cut_length hfour]
    omega
  have hlength := @rootArray_length segmentLog _ hmin call
  obtain ⟨buff₁, hformat, hlength₁, -, htext₁⟩ := @tlogRootDefaultFormat_text outputNoPrefix _
    (textStart segmentLog) (maxFormatLen segmentLog maxLineSize) maxLineSize call
    (by rw [hlength]; omega) hhead hroom
  obtain ⟨buff₂, hcut, hlength₂, -, htext₂⟩ := cutText_text hfour (by omega) htext₁
  obtain ⟨buff₃, hend, hlength₃, -, htext₃⟩ := @endLine_text buff₂ _ (textStart segmentLog)
    maxLineSize call.before hcutne htext₂ (by rw [cut_length hfour]; omega) (by omega)
  refine ⟨buff₃, ?_, by omega, htext₃⟩
  unfold textStart maxFormatLen at *
  simp only [tlogRootLogBuffer, hformat, hcut, hend, LogCall.line, maxFormatLen]
  rfl

theorem tlogRootLogBuffer_fails (call : LogCall maxLineSize)
    (hfails : ¬ call.Formats segmentLog outputNoPrefix) :
    (tlogRootLogBuffer segmentLog outputNoPrefix maxLineSize call).len = -1 := by
  have hformat := tlogRootDefaultFormat_fails
    (patch 0 (if segmentLog then patch 0 call.memory 0 call.info else call.memory)
      (maxLineSize - 1) [0]) (textStart segmentLog) hfails
  unfold textStart maxFormatLen at hformat
  simp only [tlogRootLogBuffer, hformat]
  rfl

/-- The end of a segment leaves its text alone. -/
theorem closeSegment_text {maxlen len logLen : Nat} {buff : List UInt8}
    (hhead : segmentLogHeadSize ≤ len) (hlen : len + 2 ≤ maxlen) (hfits : buff.length = maxlen) :
    ∃ len' buff', closeSegment maxlen len logLen buff = ⟨(len' : Nat), buff'⟩
      ∧ len ≤ len' ∧ len' + 2 ≤ maxlen ∧ buff'.length = maxlen
      ∧ stretch buff' segmentLogHeadSize len = stretch buff segmentLogHeadSize len
      ∧ stretch buff' loginfoSize segmentLogHeadSize = u16 logLen := by
  have hsize : loginfoSize + (u16 logLen).length = segmentLogHeadSize := rfl
  -- the terminator is behind the text
  obtain ⟨len', buff₁, hnul, hle, hle', hlength, htext⟩ : ∃ len' buff₁,
      (if len + 1 < maxlen - 1 then (len + 1, patch 0 buff len [0]) else (len, buff))
        = (len', buff₁)
      ∧ len ≤ len' ∧ len' + 2 ≤ maxlen ∧ buff₁.length = maxlen
      ∧ stretch buff₁ segmentLogHeadSize len = stretch buff segmentLogHeadSize len := by
    by_cases hroom : len + 1 < maxlen - 1
    · refine ⟨_, _, if_pos hroom, Nat.le_succ _, by omega, ?_, ?_⟩
      · rw [patch_length_of_fits 0 (by rw [List.length_singleton]; omega), hfits]
      · exact stretch_patch_below 0 (Nat.le_refl _) (by omega)
    · exact ⟨_, _, if_neg hroom, Nat.le_refl _, hlen, hfits, rfl⟩
  refine ⟨len', patch 0 buff₁ loginfoSize (u16 logLen), ?_, hle, hle', ?_, ?_, ?_⟩
  · simp only [closeSegment, hnul]
  · rw [patch_length_of_fits 0 (by omega), hlength]
  · rw [stretch_patch_above 0 (Nat.le_of_eq hsize) (by unfold segmentLogHeadSize at hhead; omega),
      htext]
  · rw [← hsize]
    exact stretch_patch_self 0 (by unfold segmentLogHeadSize at hhead; omega)

/-- What the head of a segment says of its text is read back. -/
theorem segmentText_eq {line text : List UInt8} (hlen : text.length < 65536)
    (hhead : stretch line loginfoSize segmentLogHeadSize = u16 text.length)
    (htext : stretch line segmentLogHeadSize (segmentLogHeadSize + text.length) = text) :
    segmentText line = text := by
  have hbyte : ∀ i < 2, line.getD (loginfoSize + i) 0 = (u16 text.length).getD i 0 := by
    intro i hi
    rw [List.getD_eq_getElem?_getD, List.getD_eq_getElem?_getD, ← hhead,
      getElem?_stretch _ _ _ _ (by unfold segmentLogHeadSize; omega)]
  have hlow : (line.getD loginfoSize 0).toNat = text.length % 256 := by
    rw [show loginfoSize = loginfoSize + 0 from rfl, hbyte 0 (by omega)]
    exact UInt8.toNat_ofNat'
  have hhigh : (line.getD (loginfoSize + 1) 0).toNat = text.length / 256 % 256 := by
    rw [hbyte 1 (by omega)]
    exact UInt8.toNat_ofNat'
  rw [segmentText, hlow, hhigh,
    show text.length % 256 + 256 * (text.length / 256 % 256) = text.length from by omega]
  rw [stretch, Nat.add_sub_cancel_left] at htext
  exact htext

theorem tlogLine_of_short {out : PrintOut} {len : Nat} (hlen : out.len = len) (hpos : 0 < len)
    (hshort : len < maxLineSize) : tlogLine maxLineSize out = some (out.buff.take len) := by
  rw [tlogLine, hlen, if_neg (by omega), if_neg (by omega), Int.toNat_natCast]

/-- Outside segment mode the line is the text itself. -/
theorem tlogLine_plain (hmin : minLineSize ≤ maxLineSize) (call : LogCall maxLineSize)
    (hne : call.text outputNoPrefix ≠ []) :
    tlogLine maxLineSize (tlogRootLogBuffer false outputNoPrefix maxLineSize call)
      = if call.Formats false outputNoPrefix then some (call.line false outputNoPrefix)
        else none := by
  by_cases hformats : call.Formats false outputNoPrefix
  swap
  · rw [if_neg hformats, tlogLine, tlogRootLogBuffer_fails call hformats]
    rfl
  have hpos : 0 < (call.line false outputNoPrefix).length := ended_pos _
  have hline := @LogCall.line_length_le false outputNoPrefix _ hmin call
  obtain ⟨buff, hrun, -, htext⟩ := tlogRootLogBuffer_text hmin call hne hformats
  rw [if_pos hformats, hrun, if_neg Bool.false_ne_true, tlogLine_of_short rfl (by omega) (by omega)]
  exact congrArg some htext

/-- **A line of the root log.** In either mode, a message whose text has neither a prefix too long
for the room nor exactly the length of the room leaves its text, cut to the room and ended by a
newline; any other message leaves nothing. -/
theorem rootLine (hmin : minLineSize ≤ maxLineSize) (hmax : maxLineSize ≤ maxLineSizeSet)
    (call : LogCall maxLineSize) (hne : call.text outputNoPrefix ≠ []) :
    (tlogLine maxLineSize (tlogRootLogBuffer segmentLog outputNoPrefix maxLineSize call)).map
        (rootText segmentLog)
      = if call.Formats segmentLog outputNoPrefix then
          some (call.line segmentLog outputNoPrefix)
        else none := by
  cases segmentLog with
  | false =>
    rw [tlogLine_plain hmin call hne, apply_ite (Option.map (rootText false))]
    rfl
  | true =>
    by_cases hformats : call.Formats true outputNoPrefix
    swap
    · rw [if_neg hformats, tlogLine, tlogRootLogBuffer_fails call hformats]
      rfl
    rw [if_pos hformats]
    have hpos : 0 < (call.line true outputNoPrefix).length := ended_pos _
    have hline := @LogCall.line_length_le true outputNoPrefix _ hmin call
    obtain ⟨buff, hrun, hlength, htext⟩ := tlogRootLogBuffer_text hmin call hne hformats
    rw [hrun]
    unfold maxLineSizeSet at hmax
    obtain ⟨len', buff', hclose, hle, hle', -, hkept, hhead⟩ := @closeSegment_text maxLineSize
      (segmentLogHeadSize + (call.line true outputNoPrefix).length)
      (call.line true outputNoPrefix).length buff (Nat.le_add_right _ _) hline hlength
    have hbelow : ∀ a b, b ≤ len' → stretch (buff'.take len') a b = stretch buff' a b := by
      intro a b hb
      rw [stretch, stretch, List.drop_take, List.take_take, Nat.min_eq_left (by omega)]
    rw [if_pos rfl, show textStart true = segmentLogHeadSize from rfl, hclose,
      tlogLine_of_short rfl (by omega) (by omega)]
    refine congrArg some (segmentText_eq ?_ ?_ ?_)
    · show (call.line true outputNoPrefix).length < 65536
      omega
    · rw [hbelow _ _ (by omega), hhead]
    · rw [hbelow _ _ hle, hkept]
      exact htext

/-- The message `up` with the prefix `[]`. -/
def upCall (maxLineSize : Nat) : LogCall maxLineSize where
  head := [91, 93]
  message := [117, 112]
  info := List.replicate loginfoSize 0
  memory := List.replicate maxLineSize 0
  before := 0
  head_ne := by decide
  info_length := List.length_replicate
  memory_length := List.length_replicate

theorem rootLine_up :
    (tlogLine minLineSize (tlogRootLogBuffer true false minLineSize (upCall minLineSize))).map
        (rootText true)
      = some [91, 93, 117, 112, newline] :=
  (rootLine (Nat.le_refl _) (by decide) (upCall minLineSize) (by decide)).trans (by decide)

/-- The whole line, with the head of a segment, leaves two bytes of the array unused. -/
theorem rootLine_length (hmin : minLineSize ≤ maxLineSize) (call : LogCall maxLineSize)
    (hne : call.text outputNoPrefix ≠ []) {line : List UInt8}
    (h : tlogLine maxLineSize (tlogRootLogBuffer segmentLog outputNoPrefix maxLineSize call)
      = some line) :
    line.length + 2 ≤ maxLineSize := by
  by_cases hformats : call.Formats segmentLog outputNoPrefix
  swap
  · rw [tlogLine, tlogRootLogBuffer_fails call hformats] at h
    cases h
  have hpos : 0 < (call.line segmentLog outputNoPrefix).length := ended_pos _
  have hline := @LogCall.line_length_le segmentLog outputNoPrefix _ hmin call
  obtain ⟨buff, hrun, hlength, -⟩ := tlogRootLogBuffer_text hmin call hne hformats
  rw [hrun] at h
  cases segmentLog with
  | false =>
    rw [if_neg Bool.false_ne_true, tlogLine_of_short rfl (by omega) (by omega)] at h
    cases h
    rw [List.length_take, hlength]
    omega
  | true =>
    obtain ⟨len', buff', hclose, hle, hle', hlength', -⟩ := @closeSegment_text maxLineSize
      (segmentLogHeadSize + (call.line true outputNoPrefix).length)
      (call.line true outputNoPrefix).length buff (Nat.le_add_right _ _) hline hlength
    rw [if_pos rfl, show textStart true = segmentLogHeadSize from rfl, hclose,
      tlogLine_of_short rfl (by omega) (by omega)] at h
    cases h
    rw [List.length_take, hlength']
    omega

end Root

/-! ## A call without prefix and newline -/

/-- The line of a message, as it is: one that does not fit is cut and marked, with the terminator in
the line. -/
def printed (maxLineSize : Nat) (message : List UInt8) : List UInt8 :=
  if message.length < maxLineSize then message
  else message.take (maxLineSize - 5) ++ [dot, dot, dot, newline, 0]

theorem printed_pos {maxLineSize : Nat} {message : List UInt8} (hne : message ≠ []) :
    0 < (printed maxLineSize message).length := by
  unfold printed
  split
  · exact List.length_pos_iff.mpr hne
  · rw [List.length_append]
    exact Nat.lt_of_lt_of_le (Nat.succ_pos 4) (Nat.le_add_left _ _)

theorem printed_length_le {maxLineSize : Nat} (hmin : minLineSize ≤ maxLineSize)
    (message : List UInt8) : (printed maxLineSize message).length ≤ maxLineSize := by
  have hmin' : 128 ≤ maxLineSize := hmin
  unfold printed
  split
  · omega
  · rw [List.length_append, List.length_take]
    show min (maxLineSize - 5) message.length + 5 ≤ maxLineSize
    omega

/-- **A line of `tlog_printf`**: none for a message of exactly the array's length. -/
theorem printLine {maxLineSize : Nat} (hmin : minLineSize ≤ maxLineSize) {memory message : List UInt8}
    (hmemory : memory.length = maxLineSize) (hne : message ≠ []) :
    tlogLine maxLineSize (tlogPrintBuffer maxLineSize memory message)
      = if message.length = maxLineSize then none else some (printed maxLineSize message) := by
  have hpos : 0 < message.length := List.length_pos_iff.mpr hne
  have hmin' : 128 ≤ maxLineSize := hmin
  have hsize : maxLineSize ≠ 0 := by omega
  unfold tlogPrintBuffer tlogLine vsnprintfAt
  rw [if_neg hsize, patch_eq 0 (Nat.zero_le _)]
  dsimp only
  split
  · rfl
  next hlength =>
    have hsome : ¬ ((message.length : Int) ≤ 0) := by omega
    rw [if_neg hsome]
    unfold printed
    by_cases hfits : message.length < maxLineSize
    · -- the text is followed by its terminator
      have hshort : ¬ ((message.length : Int) ≥ maxLineSize) := by omega
      have htext : message.take (maxLineSize - 1) = message := List.take_of_length_le (by omega)
      rw [if_neg hshort, if_pos hfits, htext, Int.toNat_natCast, List.take_zero, List.nil_append,
        List.append_assoc, List.take_left]
    · -- the dots stand in front of the end of the array
      have hlong : (message.length : Int) ≥ maxLineSize := by omega
      have hfull : (message.take (maxLineSize - 1) ++ [0]).length = maxLineSize := by
        rw [List.length_append, List.length_take, List.length_singleton]
        omega
      have hrest : memory.drop (0 + (message.take (maxLineSize - 1) ++ [0]).length) = [] :=
        List.drop_eq_nil_of_le (by omega)
      rw [if_pos hlong, if_neg hfits, hrest, List.append_nil, List.take_zero, List.nil_append]
      have hdots : ([dot, dot, dot, newline, 0] : List UInt8).length = 5 := rfl
      have hfront : (message.take (maxLineSize - 5)).length = maxLineSize - 5 :=
        List.length_take_of_le (by omega)
      have hkept : (message.take (maxLineSize - 1) ++ [0]).take (maxLineSize - 5)
          = message.take (maxLineSize - 5) := by
        rw [List.take_append_of_le_length (by rw [List.length_take]; omega), List.take_take,
          Nat.min_eq_left (by omega)]
      dsimp only
      rw [patch_eq 0 (by omega), hkept, hdots, List.drop_eq_nil_of_le (by omega), List.append_nil,
        List.take_of_length_le]
      rw [List.length_append, hfront, hdots]
      omega

end Estuary
