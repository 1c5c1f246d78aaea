import Estuary.Queue
import Estuary.Spec.Ring

/-!
# Estuary — the ring behind a buffer

The functions on the heap do what the functions on the list of blocks do, and never follow a null
or stale pointer on the way: the list is the ring read from `*gb` on. New blocks go in at the end
and drained ones out at the front, so that the blocks in the ring are always the most recent
allocations.

* **`Represents`** — a heap on which the ring at `*gb` is a given list of blocks;
* **`newBlock_spec`**, **`copyInto_spec`**, **`unlinkBlock_spec`** — the three changes of the ring;
* **`heapAppend_spec`**, **`heapRead_spec`** — the heap functions against those on the list;
* **`heapDestroy_spec`** — destroying a ring frees each of its blocks once and ends.
-/

namespace Estuary

open Engine

/-- The heap's only cells are the ring at `*gb`, which runs through `blocks` and holds `gb`; the
blocks no longer in it are the ones that have been freed. -/
structure Represents (s : GbHeap) (blocks : List Nat) (gb : Growbuffer) : Prop where
  head : s.gb = blocks.head?
  ring : IsRing s.heap blocks
  dom : ∀ x, (s.heap x).isSome ↔ x ∈ blocks
  vals : blocks.map s.heap.valOf = gb.map some
  log : s.mallocd = s.freed ++ blocks

theorem represents_null : Represents ⟨fun _ => none, none, 0, [], []⟩ [] [] :=
  ⟨rfl, isRing_nil _, fun _ => by simp, rfl, rfl⟩

/-! ## Linking a new block in -/

/-- The first block. -/
theorem linkAlone_eq {s : GbHeap} {buf : Nat} (hbuf : (s.heap buf).isSome) :
    linkAlone s buf = some { s with
      heap := (s.heap.modify buf (.setNext (some buf))).modify buf (.setPrev (some buf))
      gb := some buf } := by
  rw [linkAlone, Heap.update_some hbuf, Option.bind_eq_bind, Option.bind_some,
    Heap.update_some (by rwa [Heap.modify_isSome])]
  rfl

/-- A block more, between the newest block `z` and the oldest block `a`. -/
theorem linkBlock_eq {s : GbHeap} {a z buf : Nat} (hgb : s.gb = some a)
    (hprev : s.heap.prevOf a = some z) (hbuf : (s.heap buf).isSome) (hz : (s.heap z).isSome)
    (hne : a ≠ buf) :
    linkBlock s buf = some { s with heap := s.heap.linkIn a z buf } := by
  obtain ⟨c, hc, hcz⟩ := Option.bind_eq_some_iff.mp hprev
  have ha : (s.heap a).isSome := by
    rw [hc]
    rfl
  -- `(*gb)->prev` is read again for the third write; the first two were to the new block
  have hreload : ((s.heap.modify buf (.setPrev (some z))).modify buf
      (.setNext (some a))).prevOf a = some z := by
    rw [Heap.prevOf_setNext, Heap.prevOf_modify_ne hne, hprev]
  rw [linkBlock, hgb]
  simp only [Option.bind_eq_bind, hc, Option.bind_some, hcz, reduceCtorEq, if_false]
  rw [Heap.update_some hbuf, Option.bind_some, Heap.update_some (by rwa [Heap.modify_isSome]),
    Option.bind_some, hreload, Heap.update_some (by rwa [Heap.modify_isSome, Heap.modify_isSome]),
    Option.bind_some, Heap.update_some
      (by rwa [Heap.modify_isSome, Heap.modify_isSome, Heap.modify_isSome])]
  rfl

/-- The blocks' contents, one block more. -/
theorem vals_concat {h h' : Heap GbBlock} {blocks : List Nat} {gb : Growbuffer} {x : Nat}
    {b : GbBlock} (hvals : blocks.map h.valOf = gb.map some)
    (hsame : ∀ y ∈ blocks, h'.valOf y = h.valOf y) (hx : h'.valOf x = some b) :
    (blocks ++ [x]).map h'.valOf = (gb ++ [b]).map some := by
  rw [List.map_append, List.map_append, List.map_congr_left hsame, hvals, List.map_singleton, hx,
    List.map_singleton]

/-- The fresh block right after `malloc`, not yet linked. -/
def GbHeap.afterMalloc (s : GbHeap) (buf : Nat) : GbHeap :=
  { s with
    heap := s.heap.put buf ⟨.fresh, none, none⟩
    calls := s.calls + 1
    mallocd := s.mallocd ++ [buf] }

section AfterMalloc

variable {s : GbHeap} {blocks : List Nat} {gb : Growbuffer} {buf : Nat}

theorem afterMalloc_self : (s.afterMalloc buf).heap buf = some ⟨.fresh, none, none⟩ := Heap.put_self

theorem afterMalloc_isSome : ((s.afterMalloc buf).heap buf).isSome := by
  rw [afterMalloc_self]
  rfl

theorem afterMalloc_valOf : (s.afterMalloc buf).heap.valOf buf = some .fresh := by
  rw [Heap.valOf, afterMalloc_self]
  rfl

theorem afterMalloc_other {y : Nat} (hy : y ≠ buf) : (s.afterMalloc buf).heap y = s.heap y :=
  Heap.put_ne hy

theorem afterMalloc_dom (hdom : ∀ x, (s.heap x).isSome ↔ x ∈ blocks) (y : Nat) :
    ((s.afterMalloc buf).heap y).isSome ↔ y ∈ blocks ++ [buf] := by
  rw [List.mem_append, List.mem_singleton]
  by_cases hy : y = buf
  · rw [hy]
    exact iff_of_true afterMalloc_isSome (.inr rfl)
  · rw [afterMalloc_other hy, hdom, or_iff_left hy]

/-- The first block makes a ring of its own. -/
theorem linkBlock_first (hs : Represents s [] gb) :
    ∃ t, linkBlock (s.afterMalloc buf) buf = some t ∧ Represents t [buf] (gb ++ [.fresh])
      ∧ t.calls = s.calls + 1 := by
  have hgb : (s.afterMalloc buf).gb = none := hs.head
  have hself : ((s.afterMalloc buf).heap buf).isSome := afterMalloc_isSome
  rw [linkBlock, hgb]
  show ∃ t, linkAlone (s.afterMalloc buf) buf = some t ∧ _
  rw [linkAlone_eq hself]
  refine ⟨_, rfl, ⟨rfl, isRing_singleton ?_ ?_, fun y => ?_, ?_, ?_⟩, rfl⟩
  · rw [Heap.nextOf_setPrev]
    exact Heap.nextOf_setNext_self hself _
  · exact Heap.prevOf_setPrev_self (by rwa [Heap.modify_isSome]) _
  · rw [Heap.modify_isSome, Heap.modify_isSome]
    exact afterMalloc_dom hs.dom y
  · refine vals_concat hs.vals (fun y hy => absurd hy List.not_mem_nil) ?_
    rw [Heap.valOf_setPrev, Heap.valOf_setNext, afterMalloc_valOf]
  · show s.mallocd ++ [buf] = s.freed ++ [buf]
    rw [hs.log, List.append_nil]

/-- A further block goes in behind the newest one. -/
theorem linkBlock_more {front : List Nat} {z : Nat} (hs : Represents s (front ++ [z]) gb)
    (hnotin : buf ∉ front ++ [z]) :
    ∃ t, linkBlock (s.afterMalloc buf) buf = some t
      ∧ Represents t (front ++ [z] ++ [buf]) (gb ++ [.fresh]) ∧ t.calls = s.calls + 1 := by
  have hne : ∀ {y}, y ∈ front ++ [z] → y ≠ buf := fun hy h => hnotin (h ▸ hy)
  obtain ⟨a, ha⟩ := exists_head front z []
  have hgb : (s.afterMalloc buf).gb = some a := hs.head.trans ha
  have hzmem : z ∈ front ++ [z] := List.mem_append_right _ (List.mem_singleton_self _)
  have hring : IsRing (s.afterMalloc buf).heap (front ++ [z]) := hs.ring.congr
    (fun y hy => Heap.nextOf_congr (afterMalloc_other (hne hy)))
    (fun y hy => Heap.prevOf_congr (afterMalloc_other (hne hy)))
  have hprev : (s.afterMalloc buf).heap.prevOf a = some z :=
    ((isRing_concat_iff.mp hring).2.2 a ha).2
  rw [linkBlock_eq hgb hprev afterMalloc_isSome (hring.isSome_of_mem hzmem) (hne (List.mem_of_head? ha))]
  refine ⟨_, rfl, ⟨?_, hring.linkIn ha hnotin afterMalloc_isSome, fun y => ?_, ?_, ?_⟩, rfl⟩
  · rw [List.head?_append_of_ne_nil _ (by simp)]
    exact hs.head
  · rw [Heap.linkIn_isSome]
    exact afterMalloc_dom hs.dom y
  · refine vals_concat hs.vals (fun y hy => ?_) ?_
    · rw [Heap.linkIn_valOf, Heap.valOf_congr (afterMalloc_other (hne hy))]
    · rw [Heap.linkIn_valOf, afterMalloc_valOf]
  · show s.mallocd ++ [buf] = s.freed ++ (front ++ [z] ++ [buf])
    rw [hs.log, List.append_assoc]

end AfterMalloc

/-- **A new block** goes in at the end, if there is memory for it. -/
theorem newBlock_spec (m : Allocator GbBlock) {s : GbHeap} {blocks : List Nat} {gb : Growbuffer}
    (hs : Represents s blocks gb) :
    (m.succeeds s.calls = true → ∃ t buf, newBlock m s = some (t, some buf)
      ∧ Represents t (blocks ++ [buf]) (gb ++ [.fresh]) ∧ t.calls = s.calls + 1)
    ∧ (m.succeeds s.calls = false →
      newBlock m s = some ({ s with calls := s.calls + 1 }, none)) := by
  constructor
  · intro hmem
    have hfresh := m.place_fresh s.calls hs.dom
    rw [newBlock, if_pos hmem]
    generalize m.place s.calls s.heap = buf at hfresh ⊢
    -- `malloc` returns a place that is not in use, so it is not in the ring
    have hnotin : buf ∉ blocks := by
      rw [← hs.dom, hfresh]
      exact Bool.false_ne_true
    have hlinked : ∃ t, linkBlock (s.afterMalloc buf) buf = some t
        ∧ Represents t (blocks ++ [buf]) (gb ++ [.fresh]) ∧ t.calls = s.calls + 1 := by
      rcases List.eq_nil_or_concat blocks with rfl | ⟨front, z, rfl⟩
      · exact linkBlock_first hs
      · rw [List.concat_eq_append] at *
        exact linkBlock_more hs hnotin
    obtain ⟨t, ht, hrep, hcalls⟩ := hlinked
    refine ⟨t, buf, ?_, hrep, hcalls⟩
    show (linkBlock (s.afterMalloc buf) buf).map _ = _
    rw [ht]
    rfl
  · intro hmem
    rw [newBlock, if_neg (by simp [hmem])]

/-! ## Appending -/

/-- A change of one block's contents. -/
theorem Represents.setVal {s : GbHeap} {blocks : List Nat} {gb gb' : Growbuffer} {x : Nat}
    (hs : Represents s blocks gb) (g : GbBlock → GbBlock)
    (hvals : (blocks.map fun y => if y = x then (s.heap.valOf y).map g else s.heap.valOf y)
      = gb'.map some) :
    Represents { s with heap := s.heap.modify x fun c => { c with val := g c.val } } blocks gb' := by
  refine ⟨hs.head, hs.ring.congr (fun _ _ => Heap.nextOf_modify fun _ => rfl)
    (fun _ _ => Heap.prevOf_modify fun _ => rfl), fun y => ?_, ?_, hs.log⟩
  · rw [Heap.modify_isSome]
    exact hs.dom y
  · rw [← hvals]
    exact List.map_congr_left fun _ _ => Heap.valOf_modify_val g

/-- The newest block, as the heap has it. -/
structure Newest (s : GbHeap) (gb : Growbuffer) (b : GbBlock) (front : List Nat) (z : Nat) :
    Prop where
  rep : Represents s (front ++ [z]) (gb ++ [b])
  vals : front.map s.heap.valOf = gb.map some
  val : s.heap.valOf z = some b

theorem Represents.newest {s : GbHeap} {blocks : List Nat} {gb : Growbuffer} {b : GbBlock}
    (hs : Represents s blocks (gb ++ [b])) : ∃ front z, blocks = front ++ [z] ∧ Newest s gb b front z := by
  have hvals := hs.vals
  rw [List.map_append] at hvals
  obtain ⟨front, back, rfl, hfront, hback⟩ := List.map_eq_append_iff.mp hvals
  obtain ⟨z, rfl, hz⟩ := List.map_eq_singleton_iff.mp hback
  exact ⟨front, z, rfl, hs, hfront, hz⟩

/-- The value of a cell is the block that is there. -/
theorem exists_cell {h : Heap GbBlock} {x : Nat} {b : GbBlock} (hval : h.valOf x = some b) :
    ∃ c, h x = some c ∧ c.val = b := Option.map_eq_some_iff.mp hval

/-- The newest block is found through the head's `prev`. -/
theorem Newest.blockToFill_eq {s : GbHeap} {gb : Growbuffer} {b : GbBlock} {front : List Nat}
    {z : Nat} (hz : Newest s gb b front z) (m : Allocator GbBlock) :
    blockToFill m s = if b.size = blockSize then newBlock m s else some (s, some z) := by
  obtain ⟨a, ha⟩ := exists_head front z []
  obtain ⟨c, hc, hcz⟩ := Option.bind_eq_some_iff.mp
    ((isRing_concat_iff.mp hz.rep.ring).2.2 a ha).2
  obtain ⟨cz, hcell, hb⟩ := exists_cell hz.val
  rw [blockToFill, hz.rep.head, ha]
  simp only [Option.bind_eq_bind, hc, Option.bind_some, hcz, hcell, hb]

/-- **A copy** into the newest block. -/
theorem Newest.copyInto_spec {s : GbHeap} {gb : Growbuffer} {b : GbBlock} {front : List Nat}
    {z : Nat} (hz : Newest s gb b front z) (data : List Char) :
    ∃ t, copyInto s z data = some (t, min (blockSize - b.size) data.length)
      ∧ Represents t (front ++ [z]) (gb ++ [b.filled data]) ∧ t.calls = s.calls := by
  obtain ⟨c, hc, rfl⟩ := exists_cell hz.val
  have hcell : (s.heap z).isSome := by
    rw [hc]
    rfl
  have hnotin : z ∉ front := fun h =>
    (List.nodup_append.mp hz.rep.ring.nodup).2.2 z h z (List.mem_singleton_self _) rfl
  refine ⟨_, ?_, hz.rep.setVal (fun b' => { b' with
    size := b'.size + min (blockSize - c.val.size) data.length
    data := writeAt b'.data b'.size (data.take (min (blockSize - c.val.size) data.length)) })
    (x := z) ?_, rfl⟩
  · simp only [copyInto, Option.bind_eq_bind, hc, Option.bind_some]
    rw [Heap.update_some hcell]
    rfl
  · rw [List.map_append, List.map_append, ← hz.vals]
    congr 1
    · refine List.map_congr_left fun y hy => if_neg ?_
      rintro rfl
      exact hnotin hy
    · rw [List.map_singleton, if_pos rfl, hz.val]
      rfl

/-- The heap's result of an append is the list's. -/
def Simulates (res : Option (GbHeap × Nat)) (spec : AppendResult) : Prop :=
  ∃ t blocks, res = some (t, spec.ret) ∧ Represents t blocks spec.gb ∧ t.calls = spec.calls

section Loop

variable {m : Allocator GbBlock} {orig fuel : Nat} {data : List Char}

/-- A round whose block is there: the copy, and then the rest of the loop. -/
theorem Newest.round {t : GbHeap} {front : List Nat} {z : Nat} {gb : Growbuffer} {b : GbBlock}
    (hz : Newest t gb b front z)
    (hrest : ∀ {u : GbHeap} {blocks : List Nat} {gb' : Growbuffer}, Represents u blocks gb' →
      ∀ rest, Simulates (heapAppendLoop m orig fuel u rest)
        (growbufferAppendLoop m.succeeds orig fuel gb' u.calls rest)) :
    Simulates ((copyInto t z data).bind fun r => heapAppendLoop m orig fuel r.1 (data.drop r.2))
      (growbufferAppendLoop m.succeeds orig fuel (fillLast gb b data) t.calls
        (data.drop (blockSize - b.size))) := by
  obtain ⟨u, hu, hrep, hcalls⟩ := hz.copyInto_spec data
  have hdrop : data.drop (min (blockSize - b.size) data.length)
      = data.drop (blockSize - b.size) := by
    rcases Nat.le_total (blockSize - b.size) data.length with hle | hle
    · rw [Nat.min_eq_left hle]
    · rw [Nat.min_eq_right hle, List.drop_length, List.drop_eq_nil_of_le hle]
  rw [hu, Option.bind_some, hdrop, ← hcalls, fillLast_eq]
  exact hrest hrep _

/-- A round that needs a new block. -/
theorem Represents.newRound {s : GbHeap} {blocks : List Nat} {gb : Growbuffer}
    (hs : Represents s blocks gb)
    (hrest : ∀ {u : GbHeap} {blocks : List Nat} {gb' : Growbuffer}, Represents u blocks gb' →
      ∀ rest, Simulates (heapAppendLoop m orig fuel u rest)
        (growbufferAppendLoop m.succeeds orig fuel gb' u.calls rest)) :
    Simulates
      ((newBlock m s).bind fun r => match r with
        | (s, none) => some (s, 0)
        | (s, some buf) => (copyInto s buf data).bind fun r =>
          heapAppendLoop m orig fuel r.1 (data.drop r.2))
      (if m.succeeds s.calls then
        growbufferAppendLoop m.succeeds orig fuel (fillLast gb .fresh data) (s.calls + 1)
          (data.drop blockSize)
      else ⟨gb, s.calls + 1, 0⟩) := by
  obtain ⟨hgranted, hrefused⟩ := newBlock_spec m hs
  cases hmalloc : m.succeeds s.calls with
  | true =>
    obtain ⟨t, buf, hnew, hrep, hcalls⟩ := hgranted hmalloc
    -- the newest block is now the one just allocated
    obtain ⟨front, z, hblocks, hz⟩ := hrep.newest
    obtain ⟨-, hzb⟩ := List.append_inj' hblocks rfl
    cases hzb
    rw [hnew, if_pos rfl, ← hcalls]
    exact hz.round hrest
  | false =>
    rw [hrefused hmalloc, if_neg Bool.false_ne_true]
    exact ⟨_, blocks, rfl, ⟨hs.head, hs.ring, hs.dom, hs.vals, hs.log⟩, rfl⟩

end Loop

theorem heapAppendLoop_spec (m : Allocator GbBlock) (orig fuel : Nat) {s : GbHeap}
    {blocks : List Nat} {gb : Growbuffer} (hs : Represents s blocks gb) (data : List Char) :
    Simulates (heapAppendLoop m orig fuel s data)
      (growbufferAppendLoop m.succeeds orig fuel gb s.calls data) := by
  induction fuel generalizing s blocks gb data with
  | zero => exact ⟨s, blocks, rfl, hs, rfl⟩
  | succ fuel ih =>
    by_cases hdata : data.isEmpty
    · rw [heapAppendLoop, growbufferAppendLoop, if_pos hdata, if_pos hdata]
      exact ⟨s, blocks, rfl, hs, rfl⟩
    have hrest : ∀ {u : GbHeap} {blocks : List Nat} {gb' : Growbuffer}, Represents u blocks gb' →
        ∀ rest, Simulates (heapAppendLoop m orig fuel u rest)
          (growbufferAppendLoop m.succeeds orig fuel gb' u.calls rest) := fun hu rest => ih hu rest
    have hround : heapAppendLoop m orig (fuel + 1) s data
        = (blockToFill m s).bind fun r => match r with
          | (s, none) => some (s, 0)
          | (s, some buf) => (copyInto s buf data).bind fun r =>
            heapAppendLoop m orig fuel r.1 (data.drop r.2) := by
      rw [heapAppendLoop, if_neg hdata]
      refine congrArg (blockToFill m s).bind (funext fun r => ?_)
      obtain ⟨t, _ | buf⟩ := r
      · rfl
      · rfl
    rw [hround, growbufferAppendLoop, if_neg hdata]
    -- the three ways to get a block: there is none, the newest one is full, or it has room
    rcases List.eq_nil_or_concat gb with rfl | ⟨gfront, b, rfl⟩
    · have hblocks : blocks = [] := List.map_eq_nil_iff.mp hs.vals
      have hgb : s.gb = none := by
        rw [hs.head, hblocks]
        rfl
      rw [blockToFill, hgb]
      exact hs.newRound hrest
    · rw [List.concat_eq_append] at *
      obtain ⟨front, z, rfl, hz⟩ := hs.newest
      rw [hz.blockToFill_eq m, List.getLast?_concat]
      by_cases hfull : b.size = blockSize
      · rw [if_pos hfull]
        simp only [hfull, if_true]
        exact hs.newRound hrest
      · rw [if_neg hfull, Option.bind_some]
        simp only [hfull, if_false, List.dropLast_concat]
        exact hz.round hrest

/-- **`growbuffer_append`** on the heap. -/
theorem heapAppend_spec (m : Allocator GbBlock) {s : GbHeap} {blocks : List Nat} {gb : Growbuffer}
    (hs : Represents s blocks gb) (data : List Char) :
    Simulates (heapAppend m s data) (growbufferAppend m.succeeds s.calls gb data) :=
  heapAppendLoop_spec m data.length data.length hs data

/-! ## Reading -/

/-- The oldest block, as the heap has it. -/
theorem Represents.oldest {s : GbHeap} {blocks : List Nat} {b : GbBlock} {gb : Growbuffer}
    (hs : Represents s blocks (b :: gb)) :
    ∃ a rest c, blocks = a :: rest ∧ s.gb = some a ∧ s.heap a = some c ∧ c.val = b
      ∧ rest.map s.heap.valOf = gb.map some := by
  obtain ⟨a, rest, rfl, ha, hrest⟩ := List.map_eq_cons_iff.mp hs.vals
  obtain ⟨c, hc, hb⟩ := exists_cell ha
  exact ⟨a, rest, c, rfl, hs.head, hc, hb, hrest⟩

section Unlink

variable {s : GbHeap} {a : Nat} {rest : List Nat} {b : GbBlock} {gb : Growbuffer}

/-- What is left when the oldest block is freed. -/
theorem Represents.behind (hs : Represents s (a :: rest) (b :: gb)) :
    rest.map s.heap.valOf = gb.map some ∧ s.mallocd = s.freed ++ [a] ++ rest
      ∧ ∀ x, (x ≠ a ∧ (s.heap x).isSome) ↔ x ∈ rest := by
  refine ⟨(List.cons.inj hs.vals).2, ?_, fun x => ?_⟩
  · rw [hs.log, List.append_assoc]
    rfl
  · rw [hs.dom]
    exact mem_tail_iff hs.ring.nodup

/-- The block is alone and points to itself. -/
theorem unlinkBlock_alone (hs : Represents s [a] (b :: gb)) :
    ∃ t, unlinkBlock s a = some t ∧ Represents t [] gb ∧ t.calls = s.calls := by
  obtain ⟨hrest, hlog, hdom⟩ := hs.behind
  obtain ⟨c, hc⟩ := Option.isSome_iff_exists.mp (hs.ring.isSome_of_mem (List.mem_cons_self ..))
  have hnext : c.next = some a := by
    have hself : s.heap.nextOf a = some a := by
      obtain ⟨y, hy, hlinked⟩ := hs.ring.exists_next (List.mem_cons_self ..)
      rw [hlinked.1, List.mem_singleton.mp hy]
    rwa [Heap.nextOf, hc] at hself
  simp only [unlinkBlock, Option.bind_eq_bind, hc, Option.bind_some, hnext, if_true]
  rw [Heap.free_some (by rw [hc]; rfl)]
  refine ⟨_, rfl, ⟨rfl, isRing_nil _, fun x => ?_, hrest, hlog⟩, rfl⟩
  rw [Heap.erase_isSome_iff]
  exact hdom x

/-- The newest block and the second oldest one are linked with each other. -/
theorem unlinkBlock_more {front : List Nat} {z : Nat}
    (hs : Represents s (a :: (front ++ [z])) (b :: gb)) :
    ∃ t, unlinkBlock s a = some t ∧ Represents t (front ++ [z]) gb ∧ t.calls = s.calls := by
  obtain ⟨hrest, hlog, hdom⟩ := hs.behind
  have hnotin : a ∉ front ++ [z] := (List.nodup_cons.mp hs.ring.nodup).1
  obtain ⟨c, hc⟩ := Option.isSome_iff_exists.mp (hs.ring.isSome_of_mem (List.mem_cons_self ..))
  obtain ⟨b', hb'⟩ := exists_head front z []
  have hb'mem : b' ∈ front ++ [z] := List.mem_of_head? hb'
  have hzmem : z ∈ front ++ [z] := List.mem_append_right _ (List.mem_singleton_self _)
  have hnext : c.next = some b' := by
    have := hs.ring.nextOf_head hb'
    rwa [Heap.nextOf, hc] at this
  have hprev : c.prev = some z := by
    have := hs.ring.prevOf_head
    rwa [Heap.prevOf, hc] at this
  have hza : a ≠ z := by
    rintro rfl
    exact hnotin hzmem
  have hba : ¬ some b' = some a := fun h => hnotin (Option.some.inj h ▸ hb'mem)
  -- the code reads the block's pointers again after each write: neither write has touched them
  have hreload : s.heap.modify z (.setNext (some b')) a = some c := by
    rw [Heap.modify_ne hza, hc]
  simp only [unlinkBlock, Option.bind_eq_bind, hc, Option.bind_some, hnext, hprev, if_neg hba]
  rw [Heap.update_some (hs.ring.isSome_of_mem (List.mem_cons_of_mem _ hzmem)), Option.bind_some,
    hreload, Option.bind_some, hnext, hprev, Heap.update_some (by
      rw [Heap.modify_isSome]
      exact hs.ring.isSome_of_mem (List.mem_cons_of_mem _ hb'mem)), Option.bind_some,
    Heap.free_some (by
      rw [Heap.modify_isSome, Heap.modify_isSome, hc]
      rfl)]
  refine ⟨_, rfl, ⟨hb'.symm, hs.ring.linkOut hb', fun x => ?_, ?_, hlog⟩, rfl⟩
  · show (s.heap.linkOut a z b' x).isSome ↔ _
    rw [Heap.linkOut_isSome_iff]
    exact hdom x
  · rw [← hrest]
    refine List.map_congr_left fun y hy => Heap.linkOut_valOf _ _ _ ?_
    rintro rfl
    exact hnotin hy

/-- **A drained block** is taken out of the ring and freed. -/
theorem unlinkBlock_spec (hs : Represents s (a :: rest) (b :: gb)) :
    ∃ t, unlinkBlock s a = some t ∧ Represents t rest gb ∧ t.calls = s.calls := by
  rcases List.eq_nil_or_concat rest with rfl | ⟨front, z, rfl⟩
  · exact unlinkBlock_alone hs
  · rw [List.concat_eq_append] at *
    exact unlinkBlock_more hs

end Unlink

/-- **`growbuffer_read`** on the heap. -/
theorem heapRead_spec {s : GbHeap} {blocks : List Nat} {gb : Growbuffer}
    (hs : Represents s blocks gb) (amt : Nat) :
    ∃ t blocks', heapRead s amt = some (t, (growbufferRead gb amt).2)
      ∧ Represents t blocks' (growbufferRead gb amt).1 ∧ t.calls = s.calls := by
  cases gb with
  | nil =>
    have hblocks : blocks = [] := List.map_eq_nil_iff.mp hs.vals
    have hgb : s.gb = none := by
      rw [hs.head, hblocks]
      rfl
    rw [heapRead, hgb]
    exact ⟨s, blocks, rfl, hs, rfl⟩
  | cons b gb =>
    obtain ⟨a, rest, c, rfl, hgb, hc, rfl, hrest⟩ := hs.oldest
    have hnotin : a ∉ rest := (List.nodup_cons.mp hs.ring.nodup).1
    simp only [heapRead, growbufferRead, hgb, Option.bind_eq_bind, hc, Option.bind_some]
    generalize (if c.val.size > amt then amt else c.val.size) = n
    rw [Heap.update_some (by rw [hc]; rfl), Option.bind_some]
    -- the bytes are taken from the block where it is, and then it may be unlinked
    have htaken : Represents
        { s with
          heap := s.heap.modify a fun c => { c with val := { c.val with
            start := c.val.start + n
            size := c.val.size - n } } }
        (a :: rest) ({ c.val with start := c.val.start + n, size := c.val.size - n } :: gb) := by
      refine hs.setVal (fun b => { b with start := b.start + n, size := b.size - n }) ?_
      rw [List.map_cons, List.map_cons, if_pos rfl, Heap.valOf, hc, ← hrest]
      refine congrArg _ (List.map_congr_left fun y hy => if_neg ?_)
      rintro rfl
      exact hnotin hy
    simp only [hgb] at htaken
    by_cases hdrained : c.val.size - n = 0
    · obtain ⟨t, ht, hrep, hcalls⟩ := unlinkBlock_spec htaken
      rw [if_pos hdrained, if_pos hdrained, ht]
      exact ⟨t, rest, rfl, hrep, hcalls⟩
    · rw [if_neg hdrained, if_neg hdrained]
      exact ⟨_, _, rfl, htaken, rfl⟩

/-! ## Destroying -/

/-- A heap without a cell. -/
theorem heap_empty {h : Heap GbBlock} (hdom : ∀ x, (h x).isSome ↔ x ∈ []) :
    h = fun _ => none := by
  funext x
  rw [← Option.not_isSome_iff_eq_none, hdom]
  exact List.not_mem_nil

/-- One round: `b` is freed, and the rest is as it was. -/
theorem heapDestroyLoop_round {h : Heap GbBlock} {b next : Nat} {rest : List Nat} (start : Nat)
    (freed : List Nat) (fuel : Nat) (hnext : h.nextOf b = some next) (hnodup : (b :: rest).Nodup)
    (hdom : ∀ x, (h x).isSome ↔ x ∈ b :: rest) :
    heapDestroyLoop (some start) (fuel + 1) (some b) h freed
        = heapDestroyLoop (some start) fuel (if next = start then none else some next) (h.erase b)
          (freed ++ [b])
      ∧ ∀ x, (h.erase b x).isSome ↔ x ∈ rest := by
  obtain ⟨c, hc, hcnext⟩ := Option.bind_eq_some_iff.mp hnext
  constructor
  · simp only [heapDestroyLoop, Option.bind_eq_bind, hc, Option.bind_some, hcnext]
    rw [Heap.free_some (by rw [hc]; rfl), Option.bind_some]
    simp only [Option.some.injEq]
  · intro x
    rw [Heap.erase_isSome_iff, hdom]
    exact mem_tail_iff hnodup

/-- The loop on what is left of the ring: the blocks from `b` on, of which the last one points to
`start`. -/
theorem heapDestroyLoop_spec {h₀ h : Heap GbBlock} {start b : Nat} {rest freed : List Nat}
    {fuel : Nat} (hchain : (b :: rest ++ [start]).IsChain fun x y => h₀.nextOf x = some y)
    (hnodup : (b :: rest).Nodup) (hstart : start ∉ rest) (hsame : ∀ x ∈ b :: rest, h x = h₀ x)
    (hdom : ∀ x, (h x).isSome ↔ x ∈ b :: rest) (hfuel : rest.length + 1 < fuel) :
    heapDestroyLoop (some start) fuel (some b) h freed
      = some (fun _ => none, freed ++ b :: rest) := by
  -- the pointers are those of the heap before: what has been freed is not looked at again
  induction rest generalizing b h freed fuel with
  | nil =>
    obtain ⟨fuel, rfl⟩ : ∃ n, fuel = n + 2 := ⟨fuel - 2, by
      rw [List.length_nil] at hfuel
      omega⟩
    have hnext : h.nextOf b = some start := by
      rw [Heap.nextOf_congr (hsame b (List.mem_cons_self ..))]
      exact (List.isChain_cons_cons.mp hchain).1
    obtain ⟨hround, hrest⟩ := heapDestroyLoop_round start freed (fuel + 1) hnext hnodup hdom
    rw [hround, if_pos rfl, heap_empty hrest]
    rfl
  | cons b' rest ih =>
    obtain ⟨fuel, rfl⟩ : ∃ n, fuel = n + 1 := ⟨fuel - 1, by omega⟩
    obtain ⟨hfirst, htail⟩ := List.isChain_cons_cons.mp hchain
    have hnext : h.nextOf b = some b' := by
      rw [Heap.nextOf_congr (hsame b (List.mem_cons_self ..))]
      exact hfirst
    obtain ⟨hround, hrest⟩ := heapDestroyLoop_round start freed fuel hnext hnodup hdom
    have hnotlast : b' ≠ start := fun h => hstart (h ▸ List.mem_cons_self ..)
    have hsame' : ∀ x ∈ b' :: rest, h.erase b x = h₀ x := by
      intro x hx
      have hxb : x ≠ b := by
        rintro rfl
        exact (List.nodup_cons.mp hnodup).1 hx
      rw [Heap.erase_ne hxb]
      exact hsame x (List.mem_cons_of_mem _ hx)
    have hfuel' : rest.length + 1 < fuel := Nat.lt_of_succ_lt_succ hfuel
    rw [hround, if_neg hnotlast, ih htail (List.nodup_cons.mp hnodup).2
      (fun h => hstart (List.mem_cons_of_mem _ h)) hsame' hrest hfuel', List.append_assoc]
    rfl

/-- **`growbuffer_destroy`** frees every block once, and nothing is left. -/
theorem heapDestroy_spec {s : GbHeap} {blocks : List Nat} {gb : Growbuffer}
    (hs : Represents s blocks gb) {fuel : Nat} (hfuel : blocks.length < fuel) :
    heapDestroy fuel s = some (fun _ => none, blocks) := by
  obtain ⟨fuel, rfl⟩ : ∃ n, fuel = n + 1 := ⟨fuel - 1, by omega⟩
  rw [heapDestroy, hs.head]
  cases blocks with
  | nil =>
    rw [heap_empty hs.dom]
    rfl
  | cons a rest =>
    have hnodup := hs.ring.nodup
    exact heapDestroyLoop_spec (hs.ring.linked.imp fun _ _ h => h.1) hnodup
      (List.nodup_cons.mp hnodup).1 (fun _ _ => rfl) hs.dom (by rwa [List.length_cons] at hfuel)

/-! ## Every run -/

/-- No block is empty or holds more than its array. -/
def Filled (gb : Growbuffer) : Prop := ∀ b ∈ gb, 0 < b.size ∧ b.size ≤ blockSize

theorem Filled.topUp {gb : Growbuffer} (h : Filled gb) (data : List Char) :
    Filled (topUp gb data) := by
  rcases List.eq_nil_or_concat gb with rfl | ⟨front, buf, rfl⟩
  · exact h
  rw [List.concat_eq_append] at *
  rw [topUp_concat]
  obtain ⟨hfront, hbuf⟩ := List.forall_mem_append.mp h
  obtain ⟨hpos, hle⟩ := hbuf buf (List.mem_singleton_self _)
  refine List.forall_mem_append.mpr ⟨hfront, fun b hb => ?_⟩
  rw [List.mem_singleton.mp hb]
  refine ⟨?_, filled_size_le hle data⟩
  show 0 < buf.size + min (blockSize - buf.size) data.length
  omega

theorem Filled.append {gb : Growbuffer} (h : Filled gb) (mallocs : Nat → Bool) (calls : Nat)
    (data : List Char) : Filled (growbufferAppend mallocs calls gb data).gb := by
  have hextended := growbufferAppend_extends mallocs calls data fun b hb => (h b hb).2
  generalize growbufferAppend mallocs calls gb data = res at hextended ⊢
  cases hextended with
  | all new hnew => exact List.forall_mem_append.mpr ⟨h.topUp data, hnew.bounds⟩
  | broken m new _ hnew => exact List.forall_mem_append.mpr ⟨h.topUp data, hnew.bounds⟩

theorem Filled.read {gb : Growbuffer} (h : Filled gb) (amt : Nat) :
    Filled (growbufferRead gb amt).1 := by
  cases gb with
  | nil => exact h
  | cons b gb =>
    obtain ⟨hb, hrest⟩ := List.forall_mem_cons.mp h
    simp only [growbufferRead]
    generalize (if b.size > amt then amt else b.size) = n
    by_cases hdrained : b.size - n = 0
    · rw [if_pos hdrained]
      exact hrest
    · rw [if_neg hdrained]
      exact List.forall_mem_cons.mpr ⟨⟨Nat.pos_of_ne_zero hdrained, by
        show b.size - n ≤ blockSize
        omega⟩, hrest⟩

def heapStep (m : Allocator GbBlock) (s : GbHeap) : QueueOp → Option GbHeap
  | .append data => (heapAppend m s data).map Prod.fst
  | .read amt => (heapRead s amt).map Prod.fst

/-- `*gb` is `NULL`, and nothing is allocated. -/
def GbHeap.null : GbHeap := ⟨fun _ => none, none, 0, [], []⟩

/-- The heap is that of a buffer without empty or overfull blocks. -/
def Buffered (s : GbHeap) : Prop := ∃ blocks gb, Represents s blocks gb ∧ Filled gb

theorem buffered_null : Buffered .null :=
  ⟨[], [], represents_null, fun _ h => absurd h List.not_mem_nil⟩

/-- **One call**: it meets no invalid pointer, and leaves such a heap. -/
theorem heapStep_buffered (m : Allocator GbBlock) {s : GbHeap} (hs : Buffered s) (op : QueueOp) :
    ∃ t, heapStep m s op = some t ∧ Buffered t := by
  obtain ⟨blocks, gb, hrep, hfilled⟩ := hs
  cases op with
  | append data =>
    obtain ⟨t, blocks', ht, hrep', -⟩ := heapAppend_spec m hrep data
    exact ⟨t, by rw [heapStep, ht]; rfl, blocks', _, hrep', hfilled.append _ _ data⟩
  | read amt =>
    obtain ⟨t, blocks', ht, hrep', -⟩ := heapRead_spec hrep amt
    exact ⟨t, by rw [heapStep, ht]; rfl, blocks', _, hrep', hfilled.read amt⟩

/-- The blocks at `*gb`, from the oldest to the newest. -/
structure SoundRing (s : GbHeap) (blocks : List Nat) : Prop where
  /-- `*gb` is `NULL` when there are none, and the oldest one otherwise -/
  head : s.gb = blocks.head?
  /-- `next` leads from each to the next one and from the newest to the oldest, `prev` back -/
  ring : IsRing s.heap blocks
  newest : ∀ a, s.gb = some a → s.heap.prevOf a = blocks.getLast?
  reachable : ∀ a, s.gb = some a → ∀ x,
    Relation.ReflTransGen (fun y w => s.heap.nextOf y = some w ∨ s.heap.prevOf y = some w) a x
      ↔ x ∈ blocks
  /-- nothing else is allocated -/
  allocated : ∀ x, (s.heap x).isSome ↔ x ∈ blocks
  sizes : ∀ x ∈ blocks, ∃ c, s.heap x = some c ∧ 0 < c.val.size ∧ c.val.size ≤ blockSize
  /-- the allocations so far are the blocks freed since and then these, oldest first -/
  age : s.mallocd = s.freed ++ blocks

theorem Represents.sound {s : GbHeap} {blocks : List Nat} {gb : Growbuffer}
    (hs : Represents s blocks gb) (hfilled : Filled gb) : SoundRing s blocks := by
  refine ⟨hs.head, hs.ring, fun a ha => ?_, fun a ha => ?_, hs.dom, fun x hx => ?_, hs.log⟩
  · rw [hs.head] at ha
    rcases List.eq_nil_or_concat blocks with rfl | ⟨front, z, rfl⟩
    · cases ha
    · rw [List.concat_eq_append] at *
      rw [List.getLast?_concat]
      exact ((isRing_concat_iff.mp hs.ring).2.2 a ha).2
  · rw [hs.head] at ha
    obtain ⟨rest, rfl⟩ := List.head?_eq_some_iff.mp ha
    exact hs.ring.reachable_iff
  · have hval : s.heap.valOf x ∈ gb.map some := hs.vals ▸ List.mem_map_of_mem hx
    obtain ⟨b, hb, hbval⟩ := List.mem_map.mp hval
    obtain ⟨c, hc, rfl⟩ := exists_cell hbval.symm
    exact ⟨c, hc, hfilled _ hb⟩

/-- **The ring, in every run**: whatever appends and reads are made, with whatever allocations
failing, no invalid pointer is followed and no block freed twice; the blocks reachable from `*gb`
are a circular doubly linked list from the oldest to the newest, none of them empty or overfull and
none of them freed; and destroying it ends with every block freed exactly once. -/
theorem growbuffer_ring (m : Allocator GbBlock) (ops : List QueueOp) :
    ∃ s blocks, exec (heapStep m) .null ops = some s ∧ SoundRing s blocks
      ∧ ∀ rounds, heapDestroy (blocks.length + 1 + rounds) s = some (fun _ => none, blocks) := by
  obtain ⟨s, hexec, blocks, gb, hrep, hfilled⟩ :=
    exec_progress (fun _ op hs => heapStep_buffered m hs op) buffered_null ops
  exact ⟨s, blocks, hexec, hrep.sound hfilled, fun rounds => heapDestroy_spec hrep (by omega)⟩

/-- When no allocation fails, data that is appended to nothing makes a ring of the blocks it takes. -/
theorem ring_of_append {m : Allocator GbBlock} (hmemory : ∀ j, m.succeeds j = true)
    (data : List Char) :
    ∃ s blocks, exec (heapStep m) .null [.append data] = some s ∧ SoundRing s blocks
      ∧ blocks.length = blocksFor data.length := by
  obtain ⟨s, blocks, happend, hrep, -⟩ := heapAppend_spec m represents_null data
  have hspec := growbufferAppend_spec m.succeeds 0 data packed_nil
  obtain ⟨hbytes, -, -⟩ := hspec.ok fun j _ => hmemory _
  have hsound := hrep.sound hspec.packed.bounds
  have hexec : exec (heapStep m) .null [.append data] = some s := by
    rw [exec, heapStep, GbHeap.null, happend]
    rfl
  have hlength := congrArg List.length hrep.vals
  rw [List.length_map, List.length_map] at hlength
  refine ⟨s, blocks, hexec, hsound, ?_⟩
  rw [hlength, hspec.packed.length_eq, hbytes]
  rfl

/-- Two full blocks and a byte. -/
example (m : Allocator GbBlock) (hmemory : ∀ j, m.succeeds j = true) :
    ∃ s blocks, exec (heapStep m) .null [.append (List.replicate (2 * blockSize + 1) nul)] = some s
      ∧ SoundRing s blocks ∧ blocks.length = 3 := by
  obtain ⟨s, blocks, hexec, hsound, hlength⟩ :=
    ring_of_append hmemory (List.replicate (2 * blockSize + 1) nul)
  refine ⟨s, blocks, hexec, hsound, ?_⟩
  rw [hlength, List.length_replicate]
  unfold blocksFor
  unfold blockSize
  decide

end Estuary
