import Estuary.Engine.Ring
import Estuary.Spec.Growbuffer

/-!
# Estuary — `growbuffer.c` with its pointers

`Spec/Growbuffer.lean` has a buffer as the list of its blocks; here are the same functions on the
heap, pointer by pointer. A result of `none` is an invalid access: a null pointer or a freed block
followed, or a block freed twice.
-/

namespace Estuary

open Engine

/-- The heap, the caller's `*gb`, the number of `malloc` calls, and the blocks allocated and freed
so far, in order. -/
structure GbHeap where
  heap : Heap GbBlock
  gb : Option Nat
  calls : Nat
  mallocd : List Nat
  freed : List Nat

/-- `buf->prev = buf->next = buf; *gb = buf;` -/
def linkAlone (s : GbHeap) (buf : Nat) : Option GbHeap := do
  let h ← s.heap.update (some buf) (.setNext (some buf))
  let h ← h.update (some buf) (.setPrev (some buf))
  some { s with heap := h, gb := some buf }

/-- Link the new block in behind the newest one, or make it the whole ring. -/
def linkBlock (s : GbHeap) (buf : Nat) : Option GbHeap :=
  match s.gb with
  | none => linkAlone s buf
  | some gb => do
    let head ← s.heap gb
    if head.prev = none then linkAlone s buf
    else
      let h ← s.heap.update (some buf) (.setPrev head.prev)
      let h ← h.update (some buf) (.setNext s.gb)
      let h ← h.update (h.prevOf gb) (.setNext (some buf))
      let h ← h.update s.gb (.setPrev (some buf))
      some { s with heap := h }

/-- `malloc` a block, initialise `size` and `start`, and link it in. No block: out of memory. -/
def newBlock (m : Allocator GbBlock) (s : GbHeap) : Option (GbHeap × Option Nat) :=
  if m.succeeds s.calls then
    let buf := m.place s.calls s.heap
    let s := { s with
      -- the pointers are not initialised before the block is linked in
      heap := s.heap.put buf ⟨.fresh, none, none⟩
      calls := s.calls + 1
      mallocd := s.mallocd ++ [buf] }
    (linkBlock s buf).map fun s => (s, some buf)
  else some ({ s with calls := s.calls + 1 }, none)

/-- `buf = *gb ? (*gb)->prev : 0`, or a new block when that is null or full. -/
def blockToFill (m : Allocator GbBlock) (s : GbHeap) : Option (GbHeap × Option Nat) :=
  match s.gb with
  | none => newBlock m s
  | some gb => do
    let head ← s.heap gb
    match head.prev with
    | none => newBlock m s
    | some buf => do
      let b ← s.heap buf
      if b.val.size = blockSize then newBlock m s else some (s, some buf)

/-- `memcpy(&(buf->data[buf->size]), data, toCopy); buf->size += toCopy`. -/
def copyInto (s : GbHeap) (buf : Nat) (data : List Char) : Option (GbHeap × Nat) := do
  let b ← s.heap buf
  let toCopy := min (blockSize - b.val.size) data.length
  let h ← s.heap.update (some buf) fun c => { c with val := { c.val with
    size := c.val.size + toCopy
    data := writeAt c.val.data c.val.size (data.take toCopy) } }
  some ({ s with heap := h }, toCopy)

/-- `growbuffer_append`'s `while (dataLen)` loop. -/
def heapAppendLoop (m : Allocator GbBlock) (origDataLen : Nat) :
    Nat → GbHeap → List Char → Option (GbHeap × Nat)
  | 0, s, _ => some (s, origDataLen)
  | fuel + 1, s, data =>
    if data.isEmpty then some (s, origDataLen)
    else do
      let (s, block) ← blockToFill m s
      match block with
      | none => some (s, 0)
      | some buf => do
        let (s, toCopy) ← copyInto s buf data
        heapAppendLoop m origDataLen fuel s (data.drop toCopy)

/-- `growbuffer_append`. -/
def heapAppend (m : Allocator GbBlock) (s : GbHeap) (data : List Char) : Option (GbHeap × Nat) :=
  heapAppendLoop m data.length data.length s data

/-- Take the drained block `buf` out of the ring and free it. -/
def unlinkBlock (s : GbHeap) (buf : Nat) : Option GbHeap := do
  let b ← s.heap buf
  if b.next = some buf then
    let h ← s.heap.free buf
    some { s with heap := h, gb := none, freed := s.freed ++ [buf] }
  else
    let h ← s.heap.update b.prev (.setNext b.next)
    let b' ← h buf
    let h ← h.update b'.next (.setPrev b'.prev)
    let h ← h.free buf
    some { s with heap := h, gb := b.next, freed := s.freed ++ [buf] }

/-- `growbuffer_read`. -/
def heapRead (s : GbHeap) (amt : Nat) : Option (GbHeap × List Char) :=
  match s.gb with
  | none => some (s, [])
  | some buf => do
    let b ← s.heap buf
    let amtReturn := if b.val.size > amt then amt else b.val.size
    let bytes := readAt b.val.data b.val.start amtReturn
    let h ← s.heap.update (some buf) fun c => { c with val := { c.val with
      start := c.val.start + amtReturn
      size := c.val.size - amtReturn } }
    let s := { s with heap := h }
    if b.val.size - amtReturn = 0 then (unlinkBlock s buf).map fun s => (s, bytes)
    else some (s, bytes)

/-- `growbuffer_destroy`'s `while (gb)` loop, with the blocks freed so far; `none` also when the
rounds run out. -/
def heapDestroyLoop (start : Option Nat) :
    Nat → Option Nat → Heap GbBlock → List Nat → Option (Heap GbBlock × List Nat)
  | 0, _, _, _ => none
  | _ + 1, none, h, freed => some (h, freed)
  | fuel + 1, some gb, h, freed => do
    let b ← h gb
    let h ← h.free gb
    heapDestroyLoop start fuel (if b.next = start then none else b.next) h (freed ++ [gb])

/-- `growbuffer_destroy(gb)`: the heap it leaves and the blocks it frees, in order. -/
def heapDestroy (fuel : Nat) (s : GbHeap) : Option (Heap GbBlock × List Nat) :=
  heapDestroyLoop s.gb fuel s.gb s.heap []

end Estuary
