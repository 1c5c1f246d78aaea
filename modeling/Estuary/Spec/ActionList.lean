import Estuary.Spec.Platform

/-!
# Estuary — the items of a message (`ct_run`)

A message from the coordinator is an action list: a header with the number of items and the name
of the filesystem, and behind it the items, records of different lengths that follow each other at
multiples of 8 bytes. Where they lie is computed by Lustre's inline functions `hai_first` and
`hai_next` from the name and from the length each record begins with. A message for another
filesystem than the one that is served is dropped.

Positions are byte offsets from the start of the message. A record's length is what the memory
holds at its offset, inside the message or behind it.
-/

namespace Estuary

/-- `struct hsm_action_list`, as received: `msgsize` bytes, and `haiLen off` is what a record at
`off` has in `hai_len`. -/
structure ActionList where
  msgsize : Nat
  halCount : UInt32
  halFsname : CString
  haiLen : Nat → UInt32

/-- `__ALIGN_KERNEL(n, 8)`. -/
def roundUp8 (n : Nat) : Nat := (n + 7) / 8 * 8

/-- `hai_first`: behind the header and the name with its terminator. -/
def haiFirst (headerSize : Nat) (hal : ActionList) : Nat :=
  headerSize + roundUp8 (hal.halFsname.chars.length + 1)

/-- `hai_next`. -/
def haiNext (hal : ActionList) (hai : Nat) : Nat := hai + roundUp8 (hal.haiLen hai).toNat

/-- The `while (++i <= hal->hal_count)` loop from its `i`-th round on, at the record `hai`: the
records that are handed to `ct_process_item_async`. `aborts i` is the abort test at the end of
that round. -/
def handItems (hal : ActionList) (aborts : Nat → Bool) : Nat → Nat → Nat → List Nat
  | 0, _, _ => []
  | left + 1, i, hai =>
    if hai > hal.msgsize then []
    else hai :: if aborts i then [] else handItems hal aborts left (i + 1) (haiNext hal hai)

/-- The records of a message that are handed over, in this order; `fsName` is `fs_name`, the
filesystem of the mount point. -/
def ctRunItems (headerSize : Nat) (fsName : CString) (hal : ActionList) (aborts : Nat → Bool) :
    List Nat :=
  if hal.halFsname ≠ fsName then []
  else handItems hal aborts hal.halCount.toNat 0 (haiFirst headerSize hal)

end Estuary
