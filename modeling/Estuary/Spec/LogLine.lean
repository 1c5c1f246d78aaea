import Estuary.Engine.Patch

/-!
# Estuary — a line of the log (`_tlog_root_log_buffer`, `_tlog_vprintf`)

A message becomes a line in an array on the stack of the thread that logs it: the format function
puts the prefix and the message there, `_tlog_root_log_buffer` cuts what is too long and ends the
line, and `_tlog_vprintf` takes as many bytes as the callback says. The formatted texts (the prefix
with time, level and place, the message) are parameters; a formatting error of `snprintf` is not
modelled. Arrays are lists of their cells and every store is a `patch`.
-/

namespace Estuary

open Engine

def newline : UInt8 := 10
def dot : UInt8 := 46

/-- `TLOG_MIN_LINE_SIZE_SET` and `TLOG_MAX_LINE_SIZE_SET`. -/
def minLineSize : Nat := 128
def maxLineSizeSet : Nat := 1024 * 8

/-- `sizeof(struct tlog_loginfo)` and `sizeof(struct tlog_segment_log_head)`, both packed. -/
def loginfoSize : Nat := 37
def segmentLogHeadSize : Nat := loginfoSize + 2

/-- An `unsigned short`, as it lies in memory. -/
def u16 (n : Nat) : List UInt8 := [UInt8.ofNat n, UInt8.ofNat (n / 256)]

/-- What a print callback leaves: its result, and the array. -/
structure PrintOut where
  len : Int
  buff : List UInt8
  deriving DecidableEq, Repr

/-- What `vsnprintf(buff + pos, size, ...)` writes of a formatted text. -/
def vsnprintfAt (buff : List UInt8) (pos size : Nat) (text : List UInt8) : List UInt8 :=
  if size = 0 then buff else patch 0 buff pos (text.take (size - 1) ++ [0])

/-- One call of `tlog_ext` that gets as far as the callback: the formatted texts (the prefix begins
with a bracket), the record for a segment, and what is in the array and in front of it. -/
structure LogCall (maxLineSize : Nat) where
  head : List UInt8
  message : List UInt8
  info : List UInt8
  memory : List UInt8
  before : UInt8
  head_ne : head ≠ []
  info_length : info.length = loginfoSize
  memory_length : memory.length = maxLineSize

/-- `_tlog_root_default_format`, writing at `pos`. -/
def tlogRootDefaultFormat {maxLineSize : Nat} (outputNoPrefix : Bool) (buff : List UInt8)
    (pos maxlen : Nat) (call : LogCall maxLineSize) : PrintOut :=
  let headLen := if outputNoPrefix then 0 else call.head.length
  let buff := if outputNoPrefix then buff else vsnprintfAt buff pos maxlen call.head
  if headLen ≥ maxlen then ⟨-1, buff⟩
  else
    let buff := vsnprintfAt buff (pos + headLen) (maxlen - headLen) call.message
    if call.message.length = maxlen - headLen then ⟨-1, buff⟩
    else ⟨headLen + call.message.length, buff⟩

/-- The cut of a text that does not fit: its length, and the array with the dots. -/
def cutText (len maxFormatLen : Nat) (out : PrintOut) : Nat × List UInt8 :=
  if out.len ≥ maxFormatLen then
    (maxFormatLen - 1, patch 0 out.buff (len + maxFormatLen - 4) [dot, dot, dot])
  else (out.len.toNat, out.buff)

/-- "add new line character": the length of the line and of its text, and the array. -/
def endLine (maxlen len logLen : Nat) (before : UInt8) (buff : List UInt8) :
    Nat × Nat × List UInt8 :=
  let last := if len = 0 then before else buff.getD (len - 1) 0
  if last ≠ newline ∧ len + 1 < maxlen - 1 then (len + 1, logLen + 1, patch 0 buff len [newline])
  else (len, logLen, buff)

/-- The end of a segment: a terminator if there is room for it, and the length in its head. -/
def closeSegment (maxlen len logLen : Nat) (buff : List UInt8) : PrintOut :=
  let (len, buff) := if len + 1 < maxlen - 1 then (len + 1, patch 0 buff len [0]) else (len, buff)
  ⟨len, patch 0 buff loginfoSize (u16 logLen)⟩

/-- `_tlog_root_log_buffer`. -/
def tlogRootLogBuffer (segmentLog outputNoPrefix : Bool) (maxlen : Nat) (call : LogCall maxlen) :
    PrintOut :=
  let len := if segmentLog then segmentLogHeadSize else 0
  let buff := if segmentLog then patch 0 call.memory 0 call.info else call.memory
  let maxFormatLen := maxlen - len - 2
  let buff := patch 0 buff (maxlen - 1) [0]
  let out := tlogRootDefaultFormat outputNoPrefix buff len maxFormatLen call
  if out.len < 0 then ⟨-1, out.buff⟩
  else
    let (logLen, buff) := cutText len maxFormatLen out
    let (len, logLen, buff) := endLine maxlen (len + logLen) logLen call.before buff
    if segmentLog then closeSegment maxlen len logLen buff else ⟨len, buff⟩

/-- `_tlog_print_buffer`, the callback of `tlog_printf`. -/
def tlogPrintBuffer (maxlen : Nat) (memory message : List UInt8) : PrintOut :=
  let buff := vsnprintfAt memory 0 maxlen message
  if message.length = maxlen then ⟨-1, buff⟩ else ⟨message.length, buff⟩

/-- What `_tlog_vprintf` makes of the callback's result: the bytes it puts into the log's buffer, or
nothing when it gives up. -/
def tlogLine (maxLineSize : Nat) (out : PrintOut) : Option (List UInt8) :=
  if out.len ≤ 0 then none
  else if out.len ≥ maxLineSize then
    some ((patch 0 out.buff (maxLineSize - 5) [dot, dot, dot, newline, 0]).take maxLineSize)
  else some (out.buff.take out.len.toNat)

end Estuary
