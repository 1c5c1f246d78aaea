import Estuary.Spec.Growbuffer

/-!
# Estuary — a buffer that is filled and then drained

`ct_archive_data_big` first appends the whole commit document and then only reads. In this use
the ring is a plain byte queue: its blocks are filled one after the other (`Packed`), so where
the next block boundary lies depends only on how many bytes have been read.

* **`growbufferAppend_extends`** — an append to any buffer tops up the newest block, and adds new
  blocks until the data is used up or an allocation fails;
* **`growbufferAppend_spec`** — to a packed buffer it adds its data and returns
  its length if the allocations it needs succeed, and returns 0 otherwise;
* **`growbufferRead_bytes`** — a read takes its bytes from the front;
* **`growbufferRead_length`** — as many as asked for, up to the next block boundary.
-/

namespace Estuary

/-- The unread bytes of a block. -/
def GbBlock.bytes (b : GbBlock) : List Char := readAt b.data b.start b.size

/-- The unread bytes of a buffer. -/
def gbBytes (gb : Growbuffer) : List Char := gb.flatMap GbBlock.bytes

theorem blockSize_pos : 0 < blockSize := by
  unfold blockSize
  decide

/-! ## Blocks -/

@[simp] theorem readAt_length (data : Nat → Char) (pos n : Nat) :
    (readAt data pos n).length = n := by
  rw [readAt, List.length_map, List.length_range]

@[simp] theorem GbBlock.bytes_length (b : GbBlock) : b.bytes.length = b.size :=
  readAt_length _ _ _

theorem readAt_add (data : Nat → Char) (pos m n : Nat) :
    readAt data pos (m + n) = readAt data pos m ++ readAt data (pos + m) n := by
  simp only [readAt, List.range_add, List.map_append, List.map_map]
  congr 1
  refine List.map_congr_left fun i _ => ?_
  rw [Function.comp_apply, Nat.add_assoc]

theorem readAt_writeAt_before {data : Nat → Char} {pos n q : Nat} {bytes : List Char}
    (h : pos + n ≤ q) : readAt (writeAt data q bytes) pos n = readAt data pos n := by
  refine List.map_congr_left fun i hi => ?_
  have hlt : i < n := List.mem_range.mp hi
  rw [writeAt, if_neg (by omega)]

theorem readAt_writeAt (data : Nat → Char) (q : Nat) (bytes : List Char) :
    readAt (writeAt data q bytes) q bytes.length = bytes := by
  refine List.ext_getElem (readAt_length _ _ _) fun i h₁ h₂ => ?_
  simp only [readAt, List.getElem_map, List.getElem_range, writeAt]
  rw [if_pos (by omega), Nat.add_sub_cancel_left, List.getElem?_eq_getElem h₂]
  rfl

/-- Filling a block that has not been read from adds to its bytes. -/
theorem fill_bytes {buf : GbBlock} (hstart : buf.start = 0) (piece : List Char) :
    GbBlock.bytes { buf with
        size := buf.size + piece.length
        data := writeAt buf.data buf.size piece } = buf.bytes ++ piece := by
  simp only [GbBlock.bytes, hstart]
  rw [readAt_add, readAt_writeAt_before (by omega), Nat.zero_add, readAt_writeAt]

/-! ## Appending -/

/-- The blocks have not been read from, none is empty, and all but the last are full. -/
structure Packed (gb : Growbuffer) : Prop where
  unread : ∀ b ∈ gb, b.start = 0
  bounds : ∀ b ∈ gb, 0 < b.size ∧ b.size ≤ blockSize
  full : ∀ b ∈ gb.dropLast, b.size = blockSize

theorem packed_nil : Packed [] := ⟨by simp, by simp, by simp⟩

theorem Packed.tail {b : GbBlock} {gb : Growbuffer} (h : Packed (b :: gb)) : Packed gb := by
  refine ⟨fun c hc => h.unread c (List.mem_cons_of_mem _ hc),
    fun c hc => h.bounds c (List.mem_cons_of_mem _ hc), fun c hc => ?_⟩
  cases gb with
  | nil => simp at hc
  | cons d gb => exact h.full c (List.mem_cons_of_mem _ hc)

/-- The number of blocks `n` bytes take. -/
def blocksFor (n : Nat) : Nat := (n + blockSize - 1) / blockSize

theorem blocksFor_zero : blocksFor 0 = 0 := by
  unfold blocksFor blockSize
  decide

theorem blocksFor_pos {n : Nat} (hn : 0 < n) : 0 < blocksFor n := by
  unfold blocksFor blockSize
  omega

/-- A block at a time. -/
theorem blocksFor_succ {n : Nat} (hn : 0 < n) : blocksFor n = blocksFor (n - blockSize) + 1 := by
  unfold blocksFor
  unfold blockSize
  omega

theorem lt_of_lt_blocksFor {m n : Nat} (h : m < blocksFor n) : m * blockSize < n := by
  unfold blocksFor at h
  unfold blockSize at *
  omega

theorem gbBytes_append (front back : Growbuffer) :
    gbBytes (front ++ back) = gbBytes front ++ gbBytes back := List.flatMap_append

theorem gbBytes_cons (b : GbBlock) (gb : Growbuffer) : gbBytes (b :: gb) = b.bytes ++ gbBytes gb :=
  List.flatMap_cons

theorem gbBytes_singleton (b : GbBlock) : gbBytes [b] = b.bytes := by simp [gbBytes]

theorem gbBytes_length_full {gb : Growbuffer} (h : ∀ b ∈ gb, b.size = blockSize) :
    (gbBytes gb).length = gb.length * blockSize := by
  induction gb with
  | nil => simp [gbBytes]
  | cons b gb ih =>
    have hb := h b (List.mem_cons_self ..)
    have hrest := ih fun b' hb' => h b' (List.mem_cons_of_mem _ hb')
    rw [gbBytes_cons, List.length_append, GbBlock.bytes_length, hb, hrest, List.length_cons,
      Nat.succ_mul, Nat.add_comm]

/-- A block after a round of the loop has copied into it. -/
def GbBlock.filled (buf : GbBlock) (data : List Char) : GbBlock :=
  { buf with
    size := buf.size + min (blockSize - buf.size) data.length
    data := writeAt buf.data buf.size (data.take (min (blockSize - buf.size) data.length)) }

theorem fillLast_eq (front : Growbuffer) (buf : GbBlock) (data : List Char) :
    fillLast front buf data = front ++ [buf.filled data] := rfl

theorem filled_size_le {buf : GbBlock} (h : buf.size ≤ blockSize) (data : List Char) :
    (buf.filled data).size ≤ blockSize := by
  show buf.size + min (blockSize - buf.size) data.length ≤ blockSize
  omega

/-- A full block, or no data: nothing is copied. -/
theorem filled_of_zero {buf : GbBlock} {data : List Char}
    (h : min (blockSize - buf.size) data.length = 0) : buf.filled data = buf := by
  have hsame : writeAt buf.data buf.size [] = buf.data := by
    funext i
    simp [writeAt]
  rw [GbBlock.filled, h, List.take_zero, hsame, Nat.add_zero]

/-- The copy goes behind the unread bytes of a block that has not been read from. -/
theorem filled_bytes {buf : GbBlock} (hstart : buf.start = 0) (data : List Char) :
    (buf.filled data).bytes = buf.bytes ++ data.take (blockSize - buf.size) := by
  have hlen : (data.take (min (blockSize - buf.size) data.length)).length
      = min (blockSize - buf.size) data.length := by
    rw [List.length_take]
    omega
  have hfill := fill_bytes hstart (data.take (min (blockSize - buf.size) data.length))
  rw [hlen, ← List.take_take, List.take_length] at hfill
  rw [← hfill, GbBlock.filled, ← List.take_take, List.take_length]

/-- The bytes the newest block has room for. -/
def room (gb : Growbuffer) : Nat :=
  match gb.getLast? with
  | some buf => blockSize - buf.size
  | none => 0

/-- The buffer after the copy into its newest block. -/
def topUp (gb : Growbuffer) (data : List Char) : Growbuffer :=
  match gb.getLast? with
  | some buf => fillLast gb.dropLast buf data
  | none => gb

theorem room_concat (front : Growbuffer) (buf : GbBlock) :
    room (front ++ [buf]) = blockSize - buf.size := by
  rw [room, List.getLast?_concat]

theorem topUp_concat (front : Growbuffer) (buf : GbBlock) (data : List Char) :
    topUp (front ++ [buf]) data = front ++ [buf.filled data] := by
  rw [topUp, List.getLast?_concat, List.dropLast_concat]
  rfl

/-- Without room, or without data, there is nothing to copy into the newest block. -/
theorem topUp_of_zero {gb : Growbuffer} {data : List Char} (h : min (room gb) data.length = 0) :
    topUp gb data = gb := by
  rcases List.eq_nil_or_concat gb with rfl | ⟨front, buf, rfl⟩
  · rfl
  · rw [List.concat_eq_append, room_concat] at h
    rw [List.concat_eq_append, topUp_concat, filled_of_zero h]

/-- What an append leaves behind `gb` for `data`: new blocks for all of it, or for as much as the
allocations before the first failure allowed. -/
inductive Extended (mallocs : Nat → Bool) (orig : Nat) (gb : Growbuffer) (calls : Nat)
    (data : List Char) : AppendResult → Prop where
  | all (new : Growbuffer) (hpacked : Packed new) (hbytes : gbBytes new = data)
      (hok : ∀ j < blocksFor data.length, mallocs (calls + j) = true) :
      Extended mallocs orig gb calls data ⟨gb ++ new, calls + blocksFor data.length, orig⟩
  | broken (m : Nat) (new : Growbuffer) (hm : m < blocksFor data.length) (hpacked : Packed new)
      (hbytes : gbBytes new = data.take (m * blockSize))
      (hok : ∀ j < m, mallocs (calls + j) = true) (hfail : mallocs (calls + m) = false) :
      Extended mallocs orig gb calls data ⟨gb ++ new, calls + m + 1, 0⟩

theorem Packed.cons {b : GbBlock} {gb : Growbuffer} (h : Packed gb) (hstart : b.start = 0)
    (hbounds : 0 < b.size ∧ b.size ≤ blockSize) (hfull : gb ≠ [] → b.size = blockSize) :
    Packed (b :: gb) := by
  refine ⟨?_, ?_, ?_⟩
  · simpa [hstart] using h.unread
  · simpa [hbounds] using h.bounds
  · cases gb with
    | nil => simp
    | cons c gb => simpa [hfull] using h.full

/-- Only the empty buffer is without bytes. -/
theorem Packed.eq_nil {gb : Growbuffer} (h : Packed gb) (hbytes : gbBytes gb = []) : gb = [] := by
  cases gb with
  | nil => rfl
  | cons b gb =>
    have hb := (h.bounds b (List.mem_cons_self ..)).1
    have hlen := congrArg List.length hbytes
    rw [gbBytes_cons, List.length_append, GbBlock.bytes_length, List.length_nil] at hlen
    omega

/-- One more allocation in front. -/
theorem forall_succ_alloc {mallocs : Nat → Bool} {calls k : Nat} (hfirst : mallocs calls = true)
    (hrest : ∀ j < k, mallocs (calls + 1 + j) = true) :
    ∀ j < k + 1, mallocs (calls + j) = true := by
  intro j hj
  cases j with
  | zero => exact hfirst
  | succ j =>
    rw [show calls + (j + 1) = calls + 1 + j from by omega]
    exact hrest j (by omega)

/-- No data, no blocks. -/
theorem Extended.nothing (mallocs : Nat → Bool) (orig : Nat) (gb : Growbuffer) (calls : Nat) :
    Extended mallocs orig gb calls [] ⟨gb, calls, orig⟩ := by
  have h : Extended mallocs orig gb calls [] ⟨gb ++ [], calls + blocksFor [].length, orig⟩ :=
    .all [] packed_nil rfl fun j hj => by
      rw [List.length_nil, blocksFor_zero] at hj
      omega
  rwa [List.append_nil, List.length_nil, blocksFor_zero] at h

/-- The first allocation fails. -/
theorem Extended.refused {mallocs : Nat → Bool} (orig : Nat) (gb : Growbuffer) {calls : Nat}
    {data : List Char} (hdata : data ≠ []) (hfail : mallocs calls = false) :
    Extended mallocs orig gb calls data ⟨gb, calls + 1, 0⟩ := by
  have h : Extended mallocs orig gb calls data ⟨gb ++ [], calls + 0 + 1, 0⟩ := by
    refine .broken 0 [] (blocksFor_pos (List.length_pos_iff.mpr hdata)) packed_nil ?_
      (fun j hj => by omega) hfail
    rw [Nat.zero_mul]
    rfl
  rwa [List.append_nil] at h

/-- A fresh block in front of what the rest of the loop adds. -/
theorem Extended.of_fresh {mallocs : Nat → Bool} {orig calls : Nat} {gb : Growbuffer}
    {data : List Char} {res : AppendResult} (hdata : data ≠ []) (hmalloc : mallocs calls = true)
    (h : Extended mallocs orig (gb ++ [GbBlock.fresh.filled data]) (calls + 1)
      (data.drop blockSize) res) :
    Extended mallocs orig gb calls data res := by
  have hpos : 0 < data.length := List.length_pos_iff.mpr hdata
  have hbpos := blockSize_pos
  have hblocks := blocksFor_succ hpos
  rw [← List.length_drop] at hblocks
  have hbytes : (GbBlock.fresh.filled data).bytes = data.take blockSize :=
    filled_bytes (show GbBlock.fresh.start = 0 from rfl) data
  have hsize : (GbBlock.fresh.filled data).size = min blockSize data.length :=
    Nat.zero_add _
  -- another block follows only if the data goes on behind this one, which is then full
  have hcons : ∀ {new : Growbuffer}, Packed new → (new ≠ [] → data.drop blockSize ≠ []) →
      Packed (GbBlock.fresh.filled data :: new) := by
    intro new hpacked hne
    refine hpacked.cons rfl (by omega) fun h => ?_
    have := hne h
    rw [Ne, List.drop_eq_nil_iff] at this
    omega
  cases h with
  -- the rest of the loop got all its memory
  | all new hpacked hnew hok =>
    have hall : Packed (GbBlock.fresh.filled data :: new) := hcons hpacked fun hne hnil => by
      rw [hnil] at hnew
      exact hne (hpacked.eq_nil hnew)
    rw [List.append_assoc, List.singleton_append,
      show calls + 1 + blocksFor (data.drop blockSize).length = calls + blocksFor data.length from by
        omega]
    refine .all (GbBlock.fresh.filled data :: new) hall ?_ ?_
    · rw [gbBytes_cons, hbytes, hnew, List.take_append_drop]
    · rw [hblocks]
      exact forall_succ_alloc hmalloc hok
  | broken m new hm hpacked hnew hok hfail =>
    have hall : Packed (GbBlock.fresh.filled data :: new) := hcons hpacked fun _ hnil => by
      rw [hnil, List.length_nil, blocksFor_zero] at hm
      omega
    rw [List.append_assoc, List.singleton_append,
      show calls + 1 + m + 1 = calls + (m + 1) + 1 from by omega]
    refine .broken (m + 1) (GbBlock.fresh.filled data :: new) (by omega) hall ?_
      (forall_succ_alloc hmalloc hok) ?_
    · rw [gbBytes_cons, hbytes, hnew, Nat.succ_mul, Nat.add_comm, List.take_add]
    · rw [show calls + (m + 1) = calls + 1 + m from by omega]
      exact hfail

/-- The loop on a buffer without room. -/
theorem appendLoop_full (mallocs : Nat → Bool) (orig fuel : Nat) {gb : Growbuffer} (calls : Nat)
    {data : List Char} (hfuel : data.length ≤ fuel) (hsize : ∀ b ∈ gb, b.size ≤ blockSize)
    (hroom : data ≠ [] → room gb = 0) :
    Extended mallocs orig gb calls data (growbufferAppendLoop mallocs orig fuel gb calls data) := by
  induction fuel generalizing gb calls data with
  | zero =>
    obtain rfl : data = [] := List.length_eq_zero_iff.mp (by omega)
    exact .nothing _ _ _ _
  | succ fuel ih =>
    by_cases hdata : data = []
    · subst hdata
      exact .nothing _ _ _ _
    have hpos : 0 < data.length := List.length_pos_iff.mpr hdata
    have hbpos := blockSize_pos
    -- an allocation comes first, whether there is no block or the newest is full
    have hstep : growbufferAppendLoop mallocs orig (fuel + 1) gb calls data
        = if mallocs calls then
            growbufferAppendLoop mallocs orig fuel (fillLast gb .fresh data) (calls + 1)
              (data.drop blockSize)
          else ⟨gb, calls + 1, 0⟩ := by
      rw [growbufferAppendLoop, if_neg (by simpa using hdata)]
      rcases List.eq_nil_or_concat gb with rfl | ⟨front, buf, rfl⟩
      · rfl
      · have hroom := hroom hdata
        have hbuf := hsize buf (by simp)
        rw [List.concat_eq_append] at *
        rw [room_concat] at hroom
        rw [List.getLast?_concat]
        simp only [show buf.size = blockSize from by omega, if_true]
    rw [hstep]
    by_cases hmalloc : mallocs calls = true
    · rw [if_pos hmalloc, fillLast_eq]
      refine .of_fresh hdata hmalloc (ih (calls + 1) ?_ ?_ fun hrest => ?_)
      · rw [List.length_drop]
        omega
      · intro b hb
        rcases List.mem_append.mp hb with hb | hb
        · exact hsize b hb
        · rw [List.mem_singleton.mp hb]
          exact filled_size_le (Nat.zero_le _) data
      · rw [Ne, List.drop_eq_nil_iff] at hrest
        rw [room_concat]
        show blockSize - (0 + min (blockSize - 0) data.length) = 0
        omega
    · rw [if_neg hmalloc]
      exact .refused _ _ hdata (Bool.eq_false_iff.mpr hmalloc)

/-- **One append, to any buffer**: the newest block is topped up, new blocks follow. -/
theorem growbufferAppend_extends (mallocs : Nat → Bool) (calls : Nat) {gb : Growbuffer}
    (data : List Char) (hsize : ∀ b ∈ gb, b.size ≤ blockSize) :
    Extended mallocs data.length (topUp gb data) calls (data.drop (room gb))
      (growbufferAppend mallocs calls gb data) := by
  by_cases hzero : min (room gb) data.length = 0
  · rw [topUp_of_zero hzero]
    by_cases hdata : data = []
    · subst hdata
      rw [List.drop_nil]
      exact appendLoop_full mallocs _ _ calls (Nat.le_refl _) hsize fun h => absurd rfl h
    · have hpos : 0 < data.length := List.length_pos_iff.mpr hdata
      have hroom : room gb = 0 := by omega
      rw [hroom, List.drop_zero]
      exact appendLoop_full mallocs _ _ calls (Nat.le_refl _) hsize fun _ => hroom
  -- the newest block has room: one round fills it
  rcases List.eq_nil_or_concat gb with rfl | ⟨front, buf, rfl⟩
  · simp [room] at hzero
  rw [List.concat_eq_append] at *
  rw [room_concat] at *
  have hbuf := hsize buf (by simp)
  rw [topUp_concat, growbufferAppend]
  obtain ⟨n, hn⟩ : ∃ n, data.length = n + 1 := ⟨data.length - 1, by omega⟩
  have hdata : data ≠ [] := List.length_pos_iff.mp (by omega)
  rw [hn, growbufferAppendLoop, if_neg (by simpa using hdata), List.getLast?_concat]
  simp only [show ¬ buf.size = blockSize from by omega, if_false, List.dropLast_concat, fillLast_eq]
  refine appendLoop_full mallocs _ n calls ?_ ?_ fun hrest => ?_
  · rw [List.length_drop]
    omega
  · intro b hb
    rcases List.mem_append.mp hb with hb | hb
    · exact hsize b (List.mem_append_left _ hb)
    · rw [List.mem_singleton.mp hb]
      exact filled_size_le hbuf data
  · rw [Ne, List.drop_eq_nil_iff] at hrest
    rw [room_concat]
    show blockSize - (buf.size + min (blockSize - buf.size) data.length) = 0
    omega

/-! ## Appending to a packed buffer -/

/-- The allocations an append of `n` bytes makes to a buffer of `held` bytes. -/
def newBlocks (held n : Nat) : Nat := blocksFor (held + n) - blocksFor held

theorem newBlocks_zero (held : Nat) : newBlocks held 0 = 0 := by
  rw [newBlocks, Nat.add_zero, Nat.sub_self]

/-- In a packed buffer the room of the newest block is known from the number of bytes. -/
theorem Packed.newBlocks_eq {gb : Growbuffer} (h : Packed gb) (n : Nat) :
    newBlocks (gbBytes gb).length n = blocksFor (n - room gb) := by
  rcases List.eq_nil_or_concat gb with rfl | ⟨front, buf, rfl⟩
  · simp [newBlocks, gbBytes, room, blocksFor_zero]
  rw [List.concat_eq_append] at *
  have hfull : ∀ b ∈ front, b.size = blockSize := fun b hb =>
    h.full b (by rwa [List.dropLast_concat])
  have hbuf := h.bounds buf (List.mem_append_right _ (List.mem_singleton_self _))
  rw [gbBytes_append, List.length_append, gbBytes_length_full hfull, gbBytes_singleton,
    GbBlock.bytes_length, room_concat]
  unfold newBlocks blocksFor
  unfold blockSize at *
  omega

/-- A packed buffer has as many blocks as its bytes take. -/
theorem Packed.length_eq {gb : Growbuffer} (h : Packed gb) :
    gb.length = blocksFor (gbBytes gb).length := by
  rcases List.eq_nil_or_concat gb with rfl | ⟨front, buf, rfl⟩
  · exact blocksFor_zero.symm
  rw [List.concat_eq_append] at *
  have hfull : ∀ b ∈ front, b.size = blockSize := fun b hb =>
    h.full b (by rwa [List.dropLast_concat])
  have hbuf := h.bounds buf (List.mem_append_right _ (List.mem_singleton_self _))
  rw [gbBytes_append, List.length_append, List.length_append, gbBytes_length_full hfull,
    gbBytes_singleton, GbBlock.bytes_length, List.length_singleton]
  unfold blocksFor
  unfold blockSize at *
  omega

theorem Packed.append {gb new : Growbuffer} (h : Packed gb) (hnew : Packed new)
    (hroom : new ≠ [] → room gb = 0) : Packed (gb ++ new) := by
  induction gb with
  | nil => exact hnew
  | cons b gb ih =>
    have hb := h.bounds b (List.mem_cons_self ..)
    refine (ih h.tail fun hne => ?_).cons (h.unread b (List.mem_cons_self ..)) hb fun hne => ?_
    · have hroom := hroom hne
      cases gb with
      | nil => rfl
      | cons c gb => rwa [room, List.getLast?_cons_cons] at hroom
    · cases gb with
      | nil =>
        have hroom := hroom hne
        rw [room, List.getLast?_singleton] at hroom
        simp only at hroom
        omega
      | cons c gb => exact h.full b (List.mem_cons_self ..)

/-- Topping up a packed buffer. -/
theorem Packed.topUp {gb : Growbuffer} (h : Packed gb) (data : List Char) :
    Packed (topUp gb data)
      ∧ gbBytes (Estuary.topUp gb data) = gbBytes gb ++ data.take (room gb)
      ∧ room (Estuary.topUp gb data) = room gb - data.length := by
  rcases List.eq_nil_or_concat gb with rfl | ⟨front, buf, rfl⟩
  · exact ⟨packed_nil, by simp [room, Estuary.topUp], by simp [room, Estuary.topUp]⟩
  rw [List.concat_eq_append] at *
  have hmem : buf ∈ front ++ [buf] := List.mem_append_right _ (List.mem_singleton_self _)
  have hbuf := h.bounds buf hmem
  have hstart := h.unread buf hmem
  have hle := filled_size_le hbuf.2 data
  have hsize : (buf.filled data).size = buf.size + min (blockSize - buf.size) data.length := rfl
  rw [topUp_concat, room_concat, room_concat]
  refine ⟨⟨?_, ?_, ?_⟩, ?_, by omega⟩
  · intro b hb
    rcases List.mem_append.mp hb with hb | hb
    · exact h.unread b (List.mem_append_left _ hb)
    · rw [List.mem_singleton.mp hb]
      exact hstart
  · intro b hb
    rcases List.mem_append.mp hb with hb | hb
    · exact h.bounds b (List.mem_append_left _ hb)
    · rw [List.mem_singleton.mp hb]
      exact ⟨by omega, hle⟩
  · rw [List.dropLast_concat]
    exact fun b hb => h.full b (by rwa [List.dropLast_concat])
  · rw [gbBytes_append, gbBytes_append, gbBytes_singleton, gbBytes_singleton,
      filled_bytes hstart, List.append_assoc]

/-- What an append leaves: a packed buffer with some of the data behind its bytes; all of it, and
the length returned, when the allocations succeed; 0 returned when one fails. -/
structure Appended (mallocs : Nat → Bool) (origDataLen : Nat) (gb : Growbuffer) (calls : Nat)
    (data : List Char) (res : AppendResult) : Prop where
  packed : Packed res.gb
  some_bytes : ∃ sent, gbBytes res.gb = gbBytes gb ++ sent
  ok : (∀ j < newBlocks (gbBytes gb).length data.length, mallocs (calls + j) = true) →
    gbBytes res.gb = gbBytes gb ++ data ∧ res.ret = origDataLen
      ∧ res.calls = calls + newBlocks (gbBytes gb).length data.length
  fail : ¬ (∀ j < newBlocks (gbBytes gb).length data.length, mallocs (calls + j) = true) →
    res.ret = 0

/-- **One append**, to a packed buffer. -/
theorem growbufferAppend_spec (mallocs : Nat → Bool) (calls : Nat) {gb : Growbuffer}
    (data : List Char) (hgb : Packed gb) :
    Appended mallocs data.length gb calls data (growbufferAppend mallocs calls gb data) := by
  obtain ⟨hpacked, hbytes, hroom⟩ := hgb.topUp data
  have hneed := hgb.newBlocks_eq data.length
  rw [← List.length_drop] at hneed
  -- a new block means that the data did not fit into the room of the newest one
  have hjoin : ∀ {new : Growbuffer}, Packed new → (gbBytes new ≠ [] → data.drop (room gb) ≠ []) →
      Packed (topUp gb data ++ new) := by
    intro new hnew hne
    refine hpacked.append hnew fun hnil => ?_
    have hdrop : data.drop (room gb) ≠ [] := hne fun h => hnil (hnew.eq_nil h)
    rw [Ne, List.drop_eq_nil_iff] at hdrop
    omega
  have hextended := growbufferAppend_extends mallocs calls data fun b hb => (hgb.bounds b hb).2
  generalize growbufferAppend mallocs calls gb data = res at hextended ⊢
  cases hextended with
  | all new hnew hdata hok =>
    have hall : gbBytes (topUp gb data ++ new) = gbBytes gb ++ data := by
      rw [gbBytes_append, hbytes, hdata, List.append_assoc, List.take_append_drop]
    refine ⟨hjoin hnew (by rw [hdata]; exact id), ⟨data, hall⟩, fun _ => ⟨hall, rfl, ?_⟩, ?_⟩
    · rw [hneed]
    · rw [hneed]
      exact fun h => absurd hok h
  | broken m new hm hnew hdata hok hfail =>
    refine ⟨hjoin hnew fun hne hnil => ?_, ⟨data.take (room gb) ++ gbBytes new, ?_⟩, ?_,
      fun _ => rfl⟩
    · rw [hdata, hnil] at hne
      exact hne (List.take_nil)
    · rw [gbBytes_append, hbytes, List.append_assoc]
    · rw [hneed]
      intro hall
      rw [hall m hm] at hfail
      cases hfail

/-! ## Reading -/

/-- A read takes its bytes from the front. -/
theorem growbufferRead_bytes (gb : Growbuffer) (amt : Nat) :
    gbBytes gb = (growbufferRead gb amt).2 ++ gbBytes (growbufferRead gb amt).1 := by
  cases gb with
  | nil => rfl
  | cons buf rest =>
    simp only [growbufferRead]
    generalize hn : (if buf.size > amt then amt else buf.size) = n
    have hle : n ≤ buf.size := by
      rw [← hn]
      split <;> omega
    by_cases hdrained : buf.size - n = 0
    · rw [if_pos hdrained, gbBytes, List.flatMap_cons, GbBlock.bytes,
        show buf.size = n from by omega]
      rfl
    · rw [if_neg hdrained]
      simp only [gbBytes, List.flatMap_cons, GbBlock.bytes]
      rw [← List.append_assoc, ← readAt_add, Nat.add_sub_cancel' hle]

/-- The block sizes of a buffer of `total` bytes of which `pos` have been read: every block but
the last reaches up to the next multiple of the block size. -/
def Sized (total : Nat) : Growbuffer → Nat → Prop
  | [], pos => pos = total
  | b :: gb, pos =>
    pos < total ∧ b.size = min (blockSize - pos % blockSize) (total - pos)
      ∧ Sized total gb (pos + b.size)

/-- **The length of a read**: what is asked for, up to the next block boundary. -/
theorem growbufferRead_length {total : Nat} {gb : Growbuffer} {pos : Nat}
    (hsized : Sized total gb pos) (amt : Nat) :
    (growbufferRead gb amt).2.length
        = min amt (min (blockSize - pos % blockSize) (total - pos))
      ∧ Sized total (growbufferRead gb amt).1 (pos + (growbufferRead gb amt).2.length) := by
  cases gb with
  | nil =>
    have hpos : pos = total := hsized
    refine ⟨?_, hsized⟩
    rw [hpos, Nat.sub_self, Nat.min_zero, Nat.min_zero]
    rfl
  | cons buf rest =>
    obtain ⟨hpos, hsize, hrest⟩ := hsized
    simp only [growbufferRead]
    have hn : (if buf.size > amt then amt else buf.size) = min amt buf.size := by
      split <;> omega
    rw [hn]
    by_cases hdrained : buf.size - min amt buf.size = 0
    · rw [if_pos hdrained]
      simp only [readAt_length]
      rw [show min amt buf.size = buf.size from by omega]
      exact ⟨by omega, hrest⟩
    · rw [if_neg hdrained]
      simp only [readAt_length]
      refine ⟨by omega, by omega, ?_, ?_⟩
      -- bytes are left in the block, so the read stays inside it
      · have hlt : pos % blockSize + min amt buf.size < blockSize := by omega
        have hmod : (pos + min amt buf.size) % blockSize = pos % blockSize + min amt buf.size := by
          rw [Nat.add_mod, Nat.mod_eq_of_lt (show min amt buf.size < blockSize from by omega),
            Nat.mod_eq_of_lt hlt]
        simp only [hmod]
        omega
      · simp only
        rw [show pos + min amt buf.size + (buf.size - min amt buf.size) = pos + buf.size from by
          omega]
        exact hrest

/-- A packed buffer, before the first read. -/
theorem Packed.sized {gb : Growbuffer} (h : Packed gb) {pos : Nat} (hpos : pos % blockSize = 0) :
    Sized (pos + (gbBytes gb).length) gb pos := by
  induction gb generalizing pos with
  | nil => simp [Sized, gbBytes]
  | cons b gb ih =>
    have hb := h.bounds b (List.mem_cons_self ..)
    have hlen : (gbBytes (b :: gb)).length = b.size + (gbBytes gb).length := by
      rw [gbBytes, List.flatMap_cons, List.length_append, GbBlock.bytes_length, gbBytes]
    cases gb with
    | nil =>
      rw [hlen]
      simp only [gbBytes, List.flatMap_nil, List.length_nil, Nat.add_zero]
      exact ⟨by omega, by omega, rfl⟩
    | cons c gb =>
      have hfull : b.size = blockSize := h.full b (by simp [List.dropLast])
      have hrest := @ih h.tail (pos + b.size) (by rw [hfull, Nat.add_mod_right, hpos])
      rw [hlen]
      refine ⟨by omega, by omega, ?_⟩
      rw [← Nat.add_assoc]
      exact hrest

end Estuary
