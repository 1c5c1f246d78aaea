import Estuary.Document
import Estuary.Engine.Run

/-!
# Estuary — the buffer as a byte queue

Any order of appends and reads, on any buffer. `growbuffer_append` writes at `data[size]`, which
is behind the unread bytes only while the block has not been read from: after a read they end at
`data[start + size]`. And when an allocation fails in the middle of an append, the bytes copied
before it stay in the buffer although 0 is returned.

* **`CopiesBehind`** — writing at `data[size]` leaves what writing at `data[start + size]` would;
* **`append_holds_iff`** — an append whose allocations succeed puts its data behind the buffer's
  bytes exactly when the copy into the newest block lands there;
* **`accounted_iff`** — when an append is all or nothing;
* **`appendAll_counts`** — a sequence of appends from `NULL`: the sum of the results is the number of
  bytes when no append breaks off half-way, and less than it otherwise;
* **`queue_step`** — a read, or an append that lands behind, keeps the queue.
-/

namespace Estuary

open Engine

/-- The unread bytes of every block lie in its array. -/
def InArrays (gb : Growbuffer) : Prop := ∀ b ∈ gb, b.start + b.size ≤ blockSize

/-- `gb` holds exactly `bytes`, all of them in its blocks' arrays. -/
def GbHolds (gb : Growbuffer) (bytes : List Char) : Prop := InArrays gb ∧ gbBytes gb = bytes

/-- Writing `piece` at `data[size]` leaves the unread bytes that writing it at
`data[start + size]` would, and these stay in the array. -/
def CopiesBehind (buf : GbBlock) (piece : List Char) : Prop :=
  piece = [] ∨ (buf.start + buf.size + piece.length ≤ blockSize
    ∧ readAt (writeAt buf.data buf.size piece) buf.start (buf.size + piece.length)
      = readAt (writeAt buf.data (buf.start + buf.size) piece) buf.start (buf.size + piece.length))

/-- What an append of `data` copies into the newest block lands behind its unread bytes. -/
def LandsBehind (gb : Growbuffer) (data : List Char) : Prop :=
  ∀ buf, gb.getLast? = some buf → CopiesBehind buf (data.take (blockSize - buf.size))

/-- The allocations an append needs succeed, or the first one fails before a byte was copied. -/
def NoPartial (mallocs : Nat → Bool) (calls : Nat) (gb : Growbuffer) (data : List Char) : Prop :=
  (∀ j < blocksFor (data.length - room gb), mallocs (calls + j) = true)
    ∨ (room gb = 0 ∧ mallocs calls = false)

/-! ## The newest block -/

theorem inArrays_append {front back : Growbuffer} :
    InArrays (front ++ back) ↔ InArrays front ∧ InArrays back := List.forall_mem_append

theorem InArrays.size_le {gb : Growbuffer} (h : InArrays gb) : ∀ b ∈ gb, b.size ≤ blockSize := by
  intro b hb
  have := h b hb
  omega

theorem Packed.inArrays {gb : Growbuffer} (h : Packed gb) : InArrays gb := by
  intro b hb
  rw [h.unread b hb, Nat.zero_add]
  exact (h.bounds b hb).2

/-- Writing at `data[start + size]` adds to the unread bytes. -/
theorem readAt_behind (buf : GbBlock) (piece : List Char) :
    readAt (writeAt buf.data (buf.start + buf.size) piece) buf.start (buf.size + piece.length)
      = buf.bytes ++ piece := by
  rw [readAt_add, readAt_writeAt_before (Nat.le_refl _), readAt_writeAt, GbBlock.bytes]

/-- The two positions agree for a block that has not been read from. -/
theorem copiesBehind_of_unread {buf : GbBlock} {piece : List Char} (hstart : buf.start = 0)
    (hfits : buf.size + piece.length ≤ blockSize) : CopiesBehind buf piece := by
  refine .inr ⟨by omega, ?_⟩
  rw [hstart, Nat.zero_add]

theorem landsBehind_of_unread {gb : Growbuffer} (hstart : ∀ b ∈ gb, b.start = 0)
    (hsize : ∀ b ∈ gb, b.size ≤ blockSize) (data : List Char) : LandsBehind gb data := by
  intro buf hbuf
  have hmem : buf ∈ gb := List.mem_of_getLast? hbuf
  have hle := hsize buf hmem
  refine copiesBehind_of_unread (hstart buf hmem) ?_
  rw [List.length_take]
  omega

/-- The newest block after the copy. -/
theorem filled_holds_iff (buf : GbBlock) (data : List Char) :
    ((buf.filled data).start + (buf.filled data).size ≤ blockSize
        ∧ (buf.filled data).bytes = buf.bytes ++ data.take (blockSize - buf.size))
      ↔ buf.start + buf.size ≤ blockSize ∧ CopiesBehind buf (data.take (blockSize - buf.size)) := by
  have hmin : data.take (min (blockSize - buf.size) data.length)
      = data.take (blockSize - buf.size) := by
    rw [← List.take_take, List.take_length]
  have hlen : (data.take (blockSize - buf.size)).length = min (blockSize - buf.size) data.length :=
    List.length_take
  -- an empty copy lands anywhere; otherwise the position of the copy decides
  rcases Nat.eq_zero_or_pos (min (blockSize - buf.size) data.length) with hzero | hpos
  · have hnil : data.take (blockSize - buf.size) = [] := List.length_eq_zero_iff.mp (by omega)
    rw [filled_of_zero hzero, hnil, List.append_nil]
    exact ⟨fun h => ⟨h.1, .inl rfl⟩, fun h => ⟨h.1, rfl⟩⟩
  have hne : data.take (blockSize - buf.size) ≠ [] := List.length_pos_iff.mp (by omega)
  have hstart : (buf.filled data).start = buf.start := rfl
  have hsize : (buf.filled data).size = buf.size + min (blockSize - buf.size) data.length := rfl
  have hbytes : (buf.filled data).bytes
      = readAt (writeAt buf.data buf.size (data.take (blockSize - buf.size))) buf.start
          (buf.size + (data.take (blockSize - buf.size)).length) := by
    rw [hlen, ← hmin]
    rfl
  rw [hbytes, ← readAt_behind, hstart, hsize, ← hlen]
  constructor
  · rintro ⟨hfits, hsame⟩
    exact ⟨by omega, .inr ⟨by omega, hsame⟩⟩
  · rintro ⟨-, hnil | ⟨hfits, hsame⟩⟩
    · exact absurd hnil hne
    · exact ⟨by omega, hsame⟩

theorem landsBehind_concat (front : Growbuffer) (buf : GbBlock) (data : List Char) :
    LandsBehind (front ++ [buf]) data ↔ CopiesBehind buf (data.take (blockSize - buf.size)) := by
  constructor
  · exact fun h => h buf List.getLast?_concat
  · intro h last hlast
    rw [List.getLast?_concat] at hlast
    cases hlast
    exact h

/-- The buffer after the copy into its newest block. -/
theorem topUp_holds_iff (gb : Growbuffer) (data : List Char) :
    GbHolds (topUp gb data) (gbBytes gb ++ data.take (room gb))
      ↔ InArrays gb ∧ LandsBehind gb data := by
  rcases List.eq_nil_or_concat gb with rfl | ⟨front, buf, rfl⟩
  · constructor
    · exact fun _ => ⟨fun b hb => absurd hb List.not_mem_nil, fun buf hbuf => by cases hbuf⟩
    · exact fun h => ⟨h.1, rfl⟩
  rw [List.concat_eq_append, topUp_concat, room_concat, landsBehind_concat, GbHolds, inArrays_append,
    inArrays_append, gbBytes_append, gbBytes_append, gbBytes_singleton, gbBytes_singleton,
    List.append_assoc, List.append_right_inj, and_assoc, and_assoc]
  have hone : ∀ b : GbBlock, InArrays [b] ↔ b.start + b.size ≤ blockSize := fun b => by
    simp [InArrays]
  rw [hone, hone, filled_holds_iff]

/-- The copy into the newest block adds as many bytes as it has room for. -/
theorem topUp_length (gb : Growbuffer) (data : List Char) :
    (gbBytes (topUp gb data)).length = (gbBytes gb).length + min (room gb) data.length := by
  rcases List.eq_nil_or_concat gb with rfl | ⟨front, buf, rfl⟩
  · simp [topUp, room]
  rw [List.concat_eq_append, topUp_concat, room_concat, gbBytes_append, gbBytes_append,
    gbBytes_singleton, gbBytes_singleton, List.length_append, List.length_append,
    GbBlock.bytes_length, GbBlock.bytes_length, Nat.add_assoc]
  rfl

/-! ## One append -/

/-- The allocations succeed: the data goes where the copy into the newest block goes. -/
theorem append_holds_iff {mallocs : Nat → Bool} {calls : Nat} {gb : Growbuffer} {data : List Char}
    (hsize : ∀ b ∈ gb, b.size ≤ blockSize)
    (hok : ∀ j < blocksFor (data.length - room gb), mallocs (calls + j) = true) :
    (growbufferAppend mallocs calls gb data).ret = data.length
      ∧ (GbHolds (growbufferAppend mallocs calls gb data).gb (gbBytes gb ++ data)
        ↔ InArrays gb ∧ LandsBehind gb data) := by
  have hextended := growbufferAppend_extends mallocs calls data hsize
  generalize growbufferAppend mallocs calls gb data = res at hextended ⊢
  cases hextended with
  | all new hnew hdata _ =>
    refine ⟨rfl, ?_⟩
    rw [← topUp_holds_iff, GbHolds, GbHolds, inArrays_append, gbBytes_append, hdata]
    constructor
    · rintro ⟨harrays, hbytes⟩
      refine ⟨harrays.1, ?_⟩
      -- the new blocks hold what comes behind the copy, so both sides can be cut there
      rw [← List.append_left_inj (data.drop (room gb)), hbytes, List.append_assoc, List.take_append_drop]
    · rintro ⟨harrays, hbytes⟩
      refine ⟨⟨harrays, hnew.inArrays⟩, ?_⟩
      rw [hbytes, List.append_assoc, List.take_append_drop]
  | broken m new hm _ _ _ hfail =>
    rw [List.length_drop] at hm
    rw [hok m hm] at hfail
    cases hfail

/-- An allocation fails: 0 is returned, and the buffer is as it was if the first allocation failed
and the newest block had no room; otherwise it has bytes more. -/
theorem append_broken {mallocs : Nat → Bool} {calls : Nat} {gb : Growbuffer} {data : List Char}
    (hsize : ∀ b ∈ gb, b.size ≤ blockSize)
    (hbroken : ¬ ∀ j < blocksFor (data.length - room gb), mallocs (calls + j) = true) :
    (growbufferAppend mallocs calls gb data).ret = 0 ∧ data ≠ []
      ∧ ((room gb = 0 ∧ mallocs calls = false) → (growbufferAppend mallocs calls gb data).gb = gb)
      ∧ (¬ (room gb = 0 ∧ mallocs calls = false) →
        (gbBytes gb).length < (gbBytes (growbufferAppend mallocs calls gb data).gb).length) := by
  have hextended := growbufferAppend_extends mallocs calls data hsize
  generalize growbufferAppend mallocs calls gb data = res at hextended ⊢
  cases hextended with
  | all _ _ _ hok =>
    rw [List.length_drop] at hok
    exact absurd hok hbroken
  | broken m new hm hnew hdata hok hfail =>
    -- the `m` blocks before the failing allocation are full, as more data was to come
    have hlong : m * blockSize < (data.drop (room gb)).length := lt_of_lt_blocksFor hm
    have hnewlen : (gbBytes new).length = m * blockSize := by
      rw [hdata, List.length_take]
      omega
    have hlen := topUp_length gb data
    rw [List.length_drop] at hlong
    refine ⟨rfl, List.length_pos_iff.mp (by omega), ?_, fun htouched => ?_⟩
    · rintro ⟨hroom, hrefused⟩
      -- the first allocation is the failing one, so no block was linked in
      obtain rfl : m = 0 := by
        by_contra hm0
        have hfirst := hok 0 (by omega)
        rw [Nat.add_zero, hrefused] at hfirst
        cases hfirst
      rw [Nat.zero_mul, List.take_zero] at hdata
      rw [hnew.eq_nil hdata, List.append_nil, topUp_of_zero (by omega)]
    · rw [gbBytes_append, List.length_append, hlen, hnewlen]
      rcases Nat.eq_zero_or_pos m with rfl | hmpos
      · have hroom : room gb ≠ 0 := fun h => htouched ⟨h, hfail⟩
        omega
      · have hblock : 0 < m * blockSize := Nat.mul_pos hmpos blockSize_pos
        omega

/-- Every byte is appended and counted, or none is. -/
def Accounted (gb : Growbuffer) (data : List Char) (res : AppendResult) : Prop :=
  (GbHolds res.gb (gbBytes gb ++ data) ∧ res.ret = data.length)
    ∨ (res.ret = 0 ∧ GbHolds res.gb (gbBytes gb))

/-- When an append is all or nothing. -/
theorem accounted_iff {mallocs : Nat → Bool} {calls : Nat} {gb : Growbuffer} {data : List Char}
    (hsize : ∀ b ∈ gb, b.size ≤ blockSize) :
    Accounted gb data (growbufferAppend mallocs calls gb data)
      ↔ InArrays gb ∧ NoPartial mallocs calls gb data ∧ LandsBehind gb data := by
  by_cases hok : ∀ j < blocksFor (data.length - room gb), mallocs (calls + j) = true
  · obtain ⟨hret, hholds⟩ := append_holds_iff hsize hok
    constructor
    · rintro (⟨h, -⟩ | ⟨hzero, h⟩)
      · exact ⟨(hholds.mp h).1, .inl hok, (hholds.mp h).2⟩
      · -- only an append of no data returns 0 here
        obtain rfl : data = [] := List.length_eq_zero_iff.mp (hret.symm.trans hzero)
        rw [List.append_nil] at hholds
        exact ⟨(hholds.mp h).1, .inl hok, (hholds.mp h).2⟩
    · rintro ⟨harrays, -, hlands⟩
      exact .inl ⟨hholds.mpr ⟨harrays, hlands⟩, hret⟩
  · obtain ⟨hret, hdata, hsame, hmore⟩ := append_broken hsize hok
    constructor
    · rintro (⟨-, hall⟩ | ⟨-, harrays, hbytes⟩)
      · exact absurd (List.length_eq_zero_iff.mp (hall.symm.trans hret)) hdata
      -- the bytes are the ones before, so nothing was copied before the failure
      · have huntouched : room gb = 0 ∧ mallocs calls = false := by
          by_contra h
          have := hmore h
          rw [hbytes] at this
          omega
        rw [hsame huntouched] at harrays
        refine ⟨harrays, .inr huntouched, fun buf hbuf => .inl ?_⟩
        have hroom : blockSize - buf.size = 0 := by
          have := huntouched.1
          rwa [room, hbuf] at this
        rw [hroom, List.take_zero]
    · rintro ⟨harrays, hbroken | huntouched, -⟩
      · exact absurd hbroken hok
      · rw [Accounted, hsame huntouched]
        exact .inr ⟨hret, harrays, rfl⟩

/-! ## A sequence of appends -/

/-- No append of the sequence breaks off half-way. -/
def CleanRun (mallocs : Nat → Bool) : List (List Char) → AppendResult → Prop
  | [], _ => True
  | piece :: pieces, acc =>
    NoPartial mallocs acc.calls acc.gb piece
      ∧ CleanRun mallocs pieces (appendNext mallocs acc piece)

/-- One append of a sequence: what it adds to the sum against what it adds to the buffer. -/
theorem appendNext_counts (mallocs : Nat → Bool) {acc : AppendResult} (hacc : Packed acc.gb)
    (piece : List Char) :
    (NoPartial mallocs acc.calls acc.gb piece →
      (appendNext mallocs acc piece).ret + (gbBytes acc.gb).length
        = acc.ret + (gbBytes (appendNext mallocs acc piece).gb).length)
      ∧ (¬ NoPartial mallocs acc.calls acc.gb piece →
        (appendNext mallocs acc piece).ret + (gbBytes acc.gb).length
          < acc.ret + (gbBytes (appendNext mallocs acc piece).gb).length) := by
  have hsize : ∀ b ∈ acc.gb, b.size ≤ blockSize := fun b hb => (hacc.bounds b hb).2
  show (_ → acc.ret + (growbufferAppend mallocs acc.calls acc.gb piece).ret + _
      = acc.ret + (gbBytes (growbufferAppend mallocs acc.calls acc.gb piece).gb).length)
    ∧ (_ → acc.ret + (growbufferAppend mallocs acc.calls acc.gb piece).ret + _
      < acc.ret + (gbBytes (growbufferAppend mallocs acc.calls acc.gb piece).gb).length)
  constructor
  · intro hclean
    -- a buffer that is only appended to has been read nowhere, so every copy lands behind
    have haccounted := (accounted_iff hsize).mpr
      ⟨hacc.inArrays, hclean, landsBehind_of_unread hacc.unread hsize piece⟩
    rcases haccounted with ⟨⟨-, hbytes⟩, hret⟩ | ⟨hret, -, hbytes⟩
    · rw [hbytes, hret, List.length_append]
      omega
    · rw [hbytes, hret]
      omega
  · intro hbroken
    obtain ⟨hret, -, -, hmore⟩ := append_broken hsize fun h => hbroken (.inl h)
    have := hmore fun h => hbroken (.inr h)
    omega

/-- A sequence of appends from a buffer whose bytes have all been counted. -/
theorem appendAll_counts (mallocs : Nat → Bool) {pieces : List (List Char)} {acc : AppendResult}
    (hacc : Packed acc.gb) :
    (CleanRun mallocs pieces acc →
      (appendAll mallocs pieces acc).ret + (gbBytes acc.gb).length
        = acc.ret + (gbBytes (appendAll mallocs pieces acc).gb).length)
      ∧ (¬ CleanRun mallocs pieces acc →
        (appendAll mallocs pieces acc).ret + (gbBytes acc.gb).length
          < acc.ret + (gbBytes (appendAll mallocs pieces acc).gb).length) := by
  induction pieces generalizing acc with
  | nil => exact ⟨fun _ => rfl, fun h => absurd trivial h⟩
  | cons piece pieces ih =>
    have hnext : Packed (appendNext mallocs acc piece).gb :=
      (growbufferAppend_spec mallocs acc.calls piece hacc).packed
    obtain ⟨hclean, hbroken⟩ := appendNext_counts mallocs hacc piece
    obtain ⟨hrestClean, hrestBroken⟩ := ih hnext
    show (_ ∧ _ → (appendAll mallocs pieces (appendNext mallocs acc piece)).ret + _
        = acc.ret + (gbBytes (appendAll mallocs pieces (appendNext mallocs acc piece)).gb).length)
      ∧ (¬ (_ ∧ _) → (appendAll mallocs pieces (appendNext mallocs acc piece)).ret + _
        < acc.ret + (gbBytes (appendAll mallocs pieces (appendNext mallocs acc piece)).gb).length)
    constructor
    · rintro ⟨hhere, hrest⟩
      have := hclean hhere
      have := hrestClean hrest
      omega
    · intro h
      by_cases hhere : NoPartial mallocs acc.calls acc.gb piece
      · have := hclean hhere
        have := hrestBroken fun hrest => h ⟨hhere, hrest⟩
        omega
      · have := hbroken hhere
        by_cases hrest : CleanRun mallocs pieces (appendNext mallocs acc piece)
        · have := hrestClean hrest
          omega
        · have := hrestBroken hrest
          omega

/-- From `NULL`: the sum of the results is the number of bytes, or less. -/
theorem appendAll_from_null (mallocs : Nat → Bool) (pieces : List (List Char)) :
    (CleanRun mallocs pieces ⟨[], 0, 0⟩ →
      (appendAll mallocs pieces ⟨[], 0, 0⟩).ret
        = (gbBytes (appendAll mallocs pieces ⟨[], 0, 0⟩).gb).length)
      ∧ (¬ CleanRun mallocs pieces ⟨[], 0, 0⟩ →
        (appendAll mallocs pieces ⟨[], 0, 0⟩).ret
          < (gbBytes (appendAll mallocs pieces ⟨[], 0, 0⟩).gb).length) := by
  have hcounts := @appendAll_counts mallocs pieces ⟨[], 0, 0⟩ packed_nil
  rw [show (gbBytes (AppendResult.mk [] 0 0).gb).length = 0 from rfl, Nat.add_zero,
    Nat.zero_add] at hcounts
  exact hcounts

/-- **An append is all or nothing exactly when** the buffer's bytes lie in their blocks, no
allocation fails after a byte was copied, and the copy into the newest block lands behind its unread
bytes; the sum over a sequence of appends is the number of bytes in the buffer exactly when none of
them breaks off half-way. -/
theorem append_accounting (mallocs : Nat → Bool) :
    (∀ (calls : Nat) (gb : Growbuffer) (data : List Char), (∀ b ∈ gb, b.size ≤ blockSize) →
      (Accounted gb data (growbufferAppend mallocs calls gb data)
        ↔ InArrays gb ∧ NoPartial mallocs calls gb data ∧ LandsBehind gb data))
    ∧ ∀ pieces : List (List Char),
      (appendAll mallocs pieces ⟨[], 0, 0⟩).ret
          = (gbBytes (appendAll mallocs pieces ⟨[], 0, 0⟩).gb).length
        ↔ CleanRun mallocs pieces ⟨[], 0, 0⟩ := by
  refine ⟨fun calls gb data hsize => accounted_iff hsize, fun pieces => ?_⟩
  obtain ⟨hclean, hbroken⟩ := appendAll_from_null mallocs pieces
  constructor
  · intro heq
    by_contra h
    exact Nat.ne_of_lt (hbroken h) heq
  · exact hclean

/-- The first append of the run below: one block with one byte. -/
theorem first_append : growbufferAppend (fun n => n == 0) 0 [] ['a']
    = ⟨[GbBlock.fresh.filled ['a']], 1, 1⟩ := rfl

theorem append_accounting_two :
    Accounted [GbBlock.fresh.filled ['a']] ['b', 'c']
      (growbufferAppend (fun n => n == 0) 1 [GbBlock.fresh.filled ['a']] ['b', 'c']) := by
  have hone : ∀ b ∈ [GbBlock.fresh.filled ['a']], b.size ≤ blockSize ∧ b.start = 0 := by
    intro b hb
    rw [List.mem_singleton.mp hb]
    exact ⟨filled_size_le (Nat.zero_le _) _, rfl⟩
  have hroom : room [GbBlock.fresh.filled ['a']] = 65535 := by decide +kernel
  refine ((append_accounting (fun n => n == 0)).1 1 _ _ fun b hb => (hone b hb).1).mpr
    ⟨fun b hb => ?_, .inl fun j hj => ?_, landsBehind_of_unread (fun b hb => (hone b hb).2)
      (fun b hb => (hone b hb).1) _⟩
  · obtain ⟨hsize, hstart⟩ := hone b hb
    omega
  · rw [hroom] at hj
    simp [blocksFor_zero] at hj

/-- The first append takes one byte of a block; the second one fills the block and finds no memory
for another. It returns 0, and its first 65535 bytes stay in the buffer uncounted. -/
theorem half_append_uncounted :
    ¬ Accounted (growbufferAppend (fun n => n == 0) 0 [] ['a']).gb (List.replicate blockSize 'b')
        (growbufferAppend (fun n => n == 0) 1 (growbufferAppend (fun n => n == 0) 0 [] ['a']).gb
          (List.replicate blockSize 'b'))
      ∧ (appendAll (fun n => n == 0) [['a'], List.replicate blockSize 'b'] ⟨[], 0, 0⟩).ret
        ≠ (gbBytes (appendAll (fun n => n == 0) [['a'], List.replicate blockSize 'b']
          ⟨[], 0, 0⟩).gb).length := by
  have hroom : room [GbBlock.fresh.filled ['a']] = 65535 := by decide +kernel
  have hsize : ∀ b ∈ [GbBlock.fresh.filled ['a']], b.size ≤ blockSize := by
    intro b hb
    rw [List.mem_singleton.mp hb]
    exact filled_size_le (Nat.zero_le _) _
  have hbroken : ¬ NoPartial (fun n => n == 0) 1 [GbBlock.fresh.filled ['a']]
      (List.replicate blockSize 'b') := by
    rw [NoPartial, hroom, List.length_replicate]
    rintro (hok | ⟨hfull, -⟩)
    · have := hok 0 (blocksFor_pos (by decide +kernel))
      cases this
    · cases hfull
  refine ⟨?_, ?_⟩
  · rw [first_append, accounted_iff hsize]
    exact fun h => hbroken h.2.1
  · have hsecond : ¬ CleanRun (fun n => n == 0) [['a'], List.replicate blockSize 'b'] ⟨[], 0, 0⟩ := by
      rw [CleanRun, CleanRun, appendNext, first_append]
      exact fun h => hbroken h.2.1
    exact Nat.ne_of_lt ((appendAll_from_null _ _).2 hsecond)

/-! ## Appends and reads in any order -/

/-- The `memcpy`s of `growbuffer_append` into a block's array, as positions and lengths, when the
allocations succeed. -/
def appendCopies : Nat → Growbuffer → List Char → List (Nat × Nat)
  | 0, _, _ => []
  | fuel + 1, gb, data =>
    if data.isEmpty then []
    else
      match gb.getLast? with
      | some buf =>
        if buf.size = blockSize then
          (0, min blockSize data.length)
            :: appendCopies fuel (fillLast gb .fresh data) (data.drop blockSize)
        else
          (buf.size, min (blockSize - buf.size) data.length)
            :: appendCopies fuel (fillLast gb.dropLast buf data) (data.drop (blockSize - buf.size))
      | none =>
        (0, min blockSize data.length)
          :: appendCopies fuel (fillLast gb .fresh data) (data.drop blockSize)

/-- The `memcpy` of `growbuffer_read` out of a block's array. -/
def readCopies (gb : Growbuffer) (amt : Nat) : List (Nat × Nat) :=
  match gb with
  | [] => []
  | buf :: _ => [(buf.start, if buf.size > amt then amt else buf.size)]

inductive QueueOp where
  | append (data : List Char)
  | read (amt : Nat)

/-- The buffer, the bytes appended and the bytes returned so far, and every access to a block's
array. -/
structure QueueState where
  gb : Growbuffer
  appended : List Char
  returned : List Char
  copies : List (Nat × Nat)

def QueueState.init : QueueState := ⟨[], [], [], []⟩

def queueStep (s : QueueState) : QueueOp → Option QueueState
  | .append data =>
    some ⟨(growbufferAppend (fun _ => true) 0 s.gb data).gb, s.appended ++ data, s.returned,
      s.copies ++ appendCopies data.length s.gb data⟩
  | .read amt =>
    some ⟨(growbufferRead s.gb amt).1, s.appended, s.returned ++ (growbufferRead s.gb amt).2,
      s.copies ++ readCopies s.gb amt⟩

/-- What an append copies into the newest block lands behind its unread bytes. -/
def QueueOp.Lands (s : QueueState) : QueueOp → Prop
  | .append data => LandsBehind s.gb data
  | .read _ => True

/-- `(pos, n)` lies in a block's array. -/
def InBlock (copy : Nat × Nat) : Prop := copy.1 + copy.2 ≤ blockSize

theorem fillLast_size_le {front : Growbuffer} {buf : GbBlock} (data : List Char)
    (hfront : ∀ b ∈ front, b.size ≤ blockSize) (hbuf : buf.size ≤ blockSize) :
    ∀ b ∈ fillLast front buf data, b.size ≤ blockSize := by
  intro b hb
  rw [fillLast_eq] at hb
  rcases List.mem_append.mp hb with hb | hb
  · exact hfront b hb
  · rw [List.mem_singleton.mp hb]
    exact filled_size_le hbuf data

/-- An append never writes outside an array. -/
theorem appendCopies_inBlock (fuel : Nat) {gb : Growbuffer} (data : List Char)
    (hsize : ∀ b ∈ gb, b.size ≤ blockSize) : ∀ copy ∈ appendCopies fuel gb data, InBlock copy := by
  induction fuel generalizing gb data with
  | zero => exact fun _ h => absurd h List.not_mem_nil
  | succ fuel ih =>
    have hfresh := ih (data.drop blockSize)
      (fillLast_size_le data hsize (show GbBlock.fresh.size ≤ blockSize from Nat.zero_le _))
    have hfull : InBlock (0, min blockSize data.length) := by
      show 0 + min blockSize data.length ≤ blockSize
      omega
    rw [appendCopies]
    split
    · exact fun _ h => absurd h List.not_mem_nil
    split
    · rename_i buf hbuf
      have hle := hsize buf (List.mem_of_getLast? hbuf)
      have hroom : InBlock (buf.size, min (blockSize - buf.size) data.length) := by
        show buf.size + min (blockSize - buf.size) data.length ≤ blockSize
        omega
      have hrest := ih (data.drop (blockSize - buf.size))
        (fillLast_size_le data (fun b hb => hsize b (List.dropLast_subset _ hb)) hle)
      split
      · exact List.forall_mem_cons.mpr ⟨hfull, hfresh⟩
      · exact List.forall_mem_cons.mpr ⟨hroom, hrest⟩
    · exact List.forall_mem_cons.mpr ⟨hfull, hfresh⟩

theorem readCopies_inBlock {gb : Growbuffer} (h : InArrays gb) (amt : Nat) :
    ∀ copy ∈ readCopies gb amt, InBlock copy := by
  cases gb with
  | nil => exact fun _ h => absurd h List.not_mem_nil
  | cons buf rest =>
    have hbuf := h buf (List.mem_cons_self ..)
    intro copy hcopy
    rw [List.mem_singleton.mp hcopy]
    show buf.start + (if buf.size > amt then amt else buf.size) ≤ blockSize
    split <;> omega

/-- A read moves `start` by as much as it takes from `size`. -/
theorem InArrays.read {gb : Growbuffer} (h : InArrays gb) (amt : Nat) :
    InArrays (growbufferRead gb amt).1 := by
  cases gb with
  | nil => exact h
  | cons buf rest =>
    have hbuf := h buf (List.mem_cons_self ..)
    have hrest : InArrays rest := fun b hb => h b (List.mem_cons_of_mem _ hb)
    simp only [growbufferRead]
    generalize hn : (if buf.size > amt then amt else buf.size) = n
    have hle : n ≤ buf.size := by
      rw [← hn]
      split <;> omega
    by_cases hdrained : buf.size - n = 0
    · rw [if_pos hdrained]
      exact hrest
    · rw [if_neg hdrained]
      refine List.forall_mem_cons.mpr ⟨?_, hrest⟩
      show buf.start + n + (buf.size - n) ≤ blockSize
      omega

/-- First in, first out: what has been returned and then what is unread is what was appended. -/
structure Fifo (s : QueueState) : Prop where
  bytes : s.appended = s.returned ++ gbBytes s.gb
  arrays : InArrays s.gb
  copies : ∀ copy ∈ s.copies, InBlock copy

theorem fifo_init : Fifo .init :=
  ⟨rfl, fun _ h => absurd h List.not_mem_nil, fun _ h => absurd h List.not_mem_nil⟩

theorem queue_step {s t : QueueState} {op : QueueOp} (hs : Fifo s) (hlands : op.Lands s)
    (hstep : queueStep s op = some t) : Fifo t := by
  cases op with
  | append data =>
    cases hstep
    have hholds := (@append_holds_iff (fun _ => true) 0 s.gb data hs.arrays.size_le
      fun _ _ => rfl).2.mpr ⟨hs.arrays, hlands⟩
    refine ⟨?_, hholds.1, List.forall_mem_append.mpr
      ⟨hs.copies, appendCopies_inBlock _ data hs.arrays.size_le⟩⟩
    show s.appended ++ data = s.returned ++ _
    rw [hholds.2, hs.bytes, List.append_assoc]
  | read amt =>
    cases hstep
    refine ⟨?_, hs.arrays.read amt, List.forall_mem_append.mpr
      ⟨hs.copies, readCopies_inBlock hs.arrays amt⟩⟩
    show s.appended = (s.returned ++ (growbufferRead s.gb amt).2) ++ _
    rw [List.append_assoc, ← growbufferRead_bytes, hs.bytes]

/-- **A byte queue**, over any interleaving in which every append lands behind the unread bytes:
what the reads have returned and then what is unread is what was appended, and no access left a
block's array. -/
theorem queue_fifo {ops : List QueueOp} {s : QueueState}
    (hrun : Run queueStep QueueOp.Lands .init ops s) :
    s.appended = s.returned ++ gbBytes s.gb ∧ ∀ copy ∈ s.copies, copy.1 + copy.2 ≤ blockSize := by
  have h : Fifo s := hrun.invariant (fun _ _ _ hs hlands hstep => queue_step hs hlands hstep) fifo_init
  exact ⟨h.bytes, h.copies⟩

theorem queue_fifo_abc :
    ∃ s, exec queueStep .init [.append ['a', 'b'], .append ['c'], .read 2] = some s
      ∧ s.appended = s.returned ++ gbBytes s.gb
      ∧ ∀ copy ∈ s.copies, copy.1 + copy.2 ≤ blockSize := by
  have hpacked := (growbufferAppend_spec (fun _ => true) 0 ['a', 'b'] packed_nil).packed
  have hnull : LandsBehind [] ['a', 'b'] := fun _ h => by cases h
  have hunread : LandsBehind (growbufferAppend (fun _ => true) 0 [] ['a', 'b']).gb ['c'] :=
    landsBehind_of_unread hpacked.unread hpacked.inArrays.size_le _
  have hrun : ∃ s, exec queueStep .init [.append ['a', 'b'], .append ['c'], .read 2] = some s
      ∧ Run queueStep QueueOp.Lands .init [.append ['a', 'b'], .append ['c'], .read 2] s := by
    refine ⟨_, rfl, .cons rfl ?_ (.cons rfl ?_ (.cons rfl ?_ (.nil _)))⟩
    · exact hnull
    · exact hunread
    · trivial
  obtain ⟨s, hexec, hrun⟩ := hrun
  exact ⟨s, hexec, queue_fifo hrun⟩

/-- One byte of two is read, and the next append overwrites the other one: the reads then return
`"ac"` and a byte nobody appended. -/
theorem partly_read_block_overwritten :
    ∃ s, exec queueStep .init [.append ['a', 'b'], .read 1, .append ['c'], .read 2] = some s
      ∧ s.appended = ['a', 'b', 'c'] ∧ s.returned = ['a', 'c', Char.ofNat 0] :=
  ⟨_, rfl, rfl, by decide +kernel⟩

end Estuary
