import Mathlib.Data.List.Basic

/-!
# Estuary — `growbuffer.c`

The commit document is collected in a `growbuffer`: a ring of 64 KiB blocks, the oldest block
at the head. Here a buffer is the list of its blocks, oldest first (`NULL` is the empty list),
so `(*gb)->prev` is the list's last element. A block keeps the C fields: `start` is moved by
reads, and `size` is both the number of unread bytes and, in `growbuffer_append`, the position
the next byte is written at.

Allocations are answered by `mallocs : Nat → Bool`, the outcome of each `malloc` in turn;
`calls` counts the ones made so far.
-/

namespace Estuary

/-- `sizeof(buf->data)`. -/
@[irreducible] def blockSize : Nat := 64 * 1024

structure GbBlock where
  size : Nat
  start : Nat
  data : Nat → Char

/-- A fresh block, as `growbuffer_append` initialises it. -/
def GbBlock.fresh : GbBlock := ⟨0, 0, fun _ => Char.ofNat 0⟩

/-- `memcpy(&data[pos], bytes, …)`. -/
def writeAt (data : Nat → Char) (pos : Nat) (bytes : List Char) : Nat → Char :=
  fun i => if pos ≤ i then (bytes[i - pos]?).getD (data i) else data i

/-- `memcpy(…, &data[pos], n)`. -/
def readAt (data : Nat → Char) (pos n : Nat) : List Char :=
  (List.range n).map fun i => data (pos + i)

/-- The blocks of the ring, oldest first. -/
abbrev Growbuffer : Type := List GbBlock

/-- What `growbuffer_append` leaves: the buffer, the number of `malloc` calls made so far, and
the return value. -/
structure AppendResult where
  gb : Growbuffer
  calls : Nat
  ret : Nat

/-- Fill the ring's last block `buf` from `data`. -/
def fillLast (front : List GbBlock) (buf : GbBlock) (data : List Char) : Growbuffer :=
  let toCopy := min (blockSize - buf.size) data.length
  front ++ [{ buf with
    size := buf.size + toCopy
    data := writeAt buf.data buf.size (data.take toCopy) }]

/-- The body of `growbuffer_append`'s `while (dataLen)` loop: copy into the last block what
fits, after linking in a fresh one when there is none or it is full. Every round copies at
least one byte, so `data.length` rounds are enough. -/
def growbufferAppendLoop (mallocs : Nat → Bool) (origDataLen : Nat) :
    Nat → Growbuffer → Nat → List Char → AppendResult
  | 0, gb, calls, _ => ⟨gb, calls, origDataLen⟩
  | fuel + 1, gb, calls, data =>
    if data.isEmpty then ⟨gb, calls, origDataLen⟩
    else
      match gb.getLast? with
      | some buf =>
        if buf.size = blockSize then
          if mallocs calls then
            growbufferAppendLoop mallocs origDataLen fuel (fillLast gb .fresh data) (calls + 1)
              (data.drop blockSize)
          else ⟨gb, calls + 1, 0⟩
        else
          growbufferAppendLoop mallocs origDataLen fuel (fillLast gb.dropLast buf data) calls
            (data.drop (blockSize - buf.size))
      | none =>
        if mallocs calls then
          growbufferAppendLoop mallocs origDataLen fuel (fillLast gb .fresh data) (calls + 1)
            (data.drop blockSize)
        else ⟨gb, calls + 1, 0⟩

/-- `growbuffer_append`: nonzero (the length) on success, zero on out of memory. -/
def growbufferAppend (mallocs : Nat → Bool) (calls : Nat) (gb : Growbuffer)
    (data : List Char) : AppendResult :=
  growbufferAppendLoop mallocs data.length data.length gb calls data

/-- `growbuffer_read`: at most `amt` bytes of the oldest block; a drained block is unlinked. -/
def growbufferRead (gb : Growbuffer) (amt : Nat) : Growbuffer × List Char :=
  match gb with
  | [] => ([], [])
  | buf :: rest =>
    let amtReturn := if buf.size > amt then amt else buf.size
    let bytes := readAt buf.data buf.start amtReturn
    if buf.size - amtReturn = 0 then (rest, bytes)
    else ({ buf with start := buf.start + amtReturn, size := buf.size - amtReturn } :: rest, bytes)

end Estuary
