import Mathlib.Data.List.Chain
import Mathlib.Data.Fintype.EquivFin

/-!
# Engine — circular doubly linked lists on a heap

A heap gives each allocated address a cell: a value and two pointers, `none` being the null
pointer. Reading, writing or freeing an address that is not allocated is a fault (`none`).

* **`IsRing h l`** — the cells at the addresses `l`, in this order and back to the first, point to
  each other with `next` and `prev`;
* **`IsRing.push`**, **`IsRing.pop`** — what has to change for a cell more at the end, or one less at
  the front; everything else may be as it was;
* **`IsRing.reachable_iff`** — following pointers from a cell of a ring reaches the ring;
* **`Allocator`** — a `malloc` that answers with an address not in use.
-/

namespace Engine

/-- A cell: its value and its pointers to other cells. -/
structure Cell (β : Type) where
  val : β
  prev : Option Nat
  next : Option Nat

def Cell.setPrev {β : Type} (p : Option Nat) (c : Cell β) : Cell β := { c with prev := p }

def Cell.setNext {β : Type} (p : Option Nat) (c : Cell β) : Cell β := { c with next := p }

/-- The allocated cells by address. -/
abbrev Heap (β : Type) : Type := Nat → Option (Cell β)

variable {β : Type}

namespace Heap

/-- Put a cell at an address. -/
def put (h : Heap β) (a : Nat) (c : Cell β) : Heap β := fun x => if x = a then some c else h x

/-- Change the cell at an address. -/
def modify (h : Heap β) (a : Nat) (f : Cell β → Cell β) : Heap β :=
  fun x => if x = a then (h x).map f else h x

/-- Take a cell away. -/
def erase (h : Heap β) (a : Nat) : Heap β := fun x => if x = a then none else h x

/-- `*p = f(*p)`. -/
def update (h : Heap β) (p : Option Nat) (f : Cell β → Cell β) : Option (Heap β) :=
  p.bind fun a => (h a).map fun _ => h.modify a f

/-- `free(p)`; freeing what is not allocated is a fault too. -/
def free (h : Heap β) (a : Nat) : Option (Heap β) := (h a).map fun _ => h.erase a

/-- The value, and the two pointers, of the cell at `a`. -/
def valOf (h : Heap β) (a : Nat) : Option β := (h a).map Cell.val

def nextOf (h : Heap β) (a : Nat) : Option Nat := (h a).bind Cell.next

def prevOf (h : Heap β) (a : Nat) : Option Nat := (h a).bind Cell.prev

section Lemmas

variable {h : Heap β} {a x : Nat} {c : Cell β} {f : Cell β → Cell β}

theorem update_some (ha : (h a).isSome) : h.update (some a) f = some (h.modify a f) := by
  obtain ⟨c, hc⟩ := Option.isSome_iff_exists.mp ha
  rw [update, Option.bind_some, hc, Option.map_some]

theorem free_some (ha : (h a).isSome) : h.free a = some (h.erase a) := by
  obtain ⟨c, hc⟩ := Option.isSome_iff_exists.mp ha
  rw [free, hc, Option.map_some]

theorem modify_self (hc : h a = some c) : h.modify a f a = some (f c) := by
  rw [modify, if_pos rfl, hc, Option.map_some]

theorem modify_ne (hne : x ≠ a) : h.modify a f x = h x := if_neg hne

theorem put_self : h.put a c a = some c := if_pos rfl

theorem put_ne (hne : x ≠ a) : h.put a c x = h x := if_neg hne

theorem erase_ne (hne : x ≠ a) : h.erase a x = h x := if_neg hne

theorem erase_isSome_iff : (h.erase a x).isSome ↔ x ≠ a ∧ (h x).isSome := by
  by_cases hx : x = a
  · rw [erase, if_pos hx]
    exact iff_of_false Bool.false_ne_true fun h => h.1 hx
  · rw [erase_ne hx, and_iff_right hx]

/-- A change of a cell allocates and frees nothing. -/
theorem modify_isSome : (h.modify a f x).isSome = (h x).isSome := by
  rw [modify]
  split
  · exact Option.isSome_map
  · rfl

/-- A change that keeps a field keeps it everywhere. -/
theorem valOf_modify (hf : ∀ c, (f c).val = c.val) : (h.modify a f).valOf x = h.valOf x := by
  rw [valOf, valOf, modify]
  split
  · rw [Option.map_map]
    exact congrArg (fun g => (h x).map g) (funext hf)
  · rfl

theorem nextOf_modify (hf : ∀ c, (f c).next = c.next) : (h.modify a f).nextOf x = h.nextOf x := by
  rw [nextOf, nextOf, modify]
  split
  · rw [Option.bind_map]
    exact congrArg (fun g => (h x).bind g) (funext hf)
  · rfl

theorem prevOf_modify (hf : ∀ c, (f c).prev = c.prev) : (h.modify a f).prevOf x = h.prevOf x := by
  rw [prevOf, prevOf, modify]
  split
  · rw [Option.bind_map]
    exact congrArg (fun g => (h x).bind g) (funext hf)
  · rfl

@[simp] theorem valOf_setPrev (p : Option Nat) :
    (h.modify a (Cell.setPrev p)).valOf x = h.valOf x := valOf_modify fun _ => rfl

@[simp] theorem valOf_setNext (p : Option Nat) :
    (h.modify a (Cell.setNext p)).valOf x = h.valOf x := valOf_modify fun _ => rfl

@[simp] theorem nextOf_setPrev (p : Option Nat) :
    (h.modify a (Cell.setPrev p)).nextOf x = h.nextOf x := nextOf_modify fun _ => rfl

@[simp] theorem prevOf_setNext (p : Option Nat) :
    (h.modify a (Cell.setNext p)).prevOf x = h.prevOf x := prevOf_modify fun _ => rfl

/-- Changing the value of one cell. -/
theorem valOf_modify_val (g : β → β) :
    (h.modify a fun c => { c with val := g c.val }).valOf x
      = if x = a then (h.valOf x).map g else h.valOf x := by
  rw [valOf, modify]
  split
  · rw [valOf, Option.map_map, Option.map_map]
    rfl
  · rfl

/-- What is written is read back. -/
theorem nextOf_setNext_self (ha : (h a).isSome) (p : Option Nat) :
    (h.modify a (Cell.setNext p)).nextOf a = p := by
  obtain ⟨c, hc⟩ := Option.isSome_iff_exists.mp ha
  rw [nextOf, modify_self hc]
  rfl

theorem prevOf_setPrev_self (ha : (h a).isSome) (p : Option Nat) :
    (h.modify a (Cell.setPrev p)).prevOf a = p := by
  obtain ⟨c, hc⟩ := Option.isSome_iff_exists.mp ha
  rw [prevOf, modify_self hc]
  rfl

/-- Elsewhere the fields stay. -/
theorem nextOf_congr {h' : Heap β} (hx : h' x = h x) : h'.nextOf x = h.nextOf x := by
  rw [nextOf, hx, nextOf]

theorem prevOf_congr {h' : Heap β} (hx : h' x = h x) : h'.prevOf x = h.prevOf x := by
  rw [prevOf, hx, prevOf]

theorem valOf_congr {h' : Heap β} (hx : h' x = h x) : h'.valOf x = h.valOf x := by
  rw [valOf, hx, valOf]

theorem nextOf_modify_ne (hne : x ≠ a) : (h.modify a f).nextOf x = h.nextOf x :=
  nextOf_congr (modify_ne hne)

theorem prevOf_modify_ne (hne : x ≠ a) : (h.modify a f).prevOf x = h.prevOf x :=
  prevOf_congr (modify_ne hne)

/-- A field that can be read is that of an allocated cell. -/
theorem isSome_of_nextOf {b : Nat} (hb : h.nextOf a = some b) : (h a).isSome := by
  obtain ⟨c, hc, -⟩ := Option.bind_eq_some_iff.mp hb
  rw [hc]
  rfl

end Lemmas

/-- Link the cell `x` in between the last cell `z` and the first cell `a`. -/
def linkIn (h : Heap β) (a z x : Nat) : Heap β :=
  (((h.modify x (Cell.setPrev (some z))).modify x (Cell.setNext (some a))).modify z
    (Cell.setNext (some x))).modify a (Cell.setPrev (some x))

/-- Take the first cell `a` out, from between the last cell `z` and the second cell `b`. -/
def linkOut (h : Heap β) (a z b : Nat) : Heap β :=
  ((h.modify z (Cell.setNext (some b))).modify b (Cell.setPrev (some z))).erase a

theorem linkIn_isSome (h : Heap β) (a z x y : Nat) : (h.linkIn a z x y).isSome = (h y).isSome := by
  rw [linkIn, modify_isSome, modify_isSome, modify_isSome, modify_isSome]

@[simp] theorem linkIn_valOf (h : Heap β) (a z x y : Nat) :
    (h.linkIn a z x).valOf y = h.valOf y := by
  rw [linkIn, valOf_setPrev, valOf_setNext, valOf_setNext, valOf_setPrev]

theorem linkOut_isSome_iff (h : Heap β) (a z b y : Nat) :
    (h.linkOut a z b y).isSome ↔ y ≠ a ∧ (h y).isSome := by
  rw [linkOut, erase_isSome_iff, modify_isSome, modify_isSome]

theorem linkOut_valOf (h : Heap β) {a y : Nat} (z b : Nat) (hy : y ≠ a) :
    (h.linkOut a z b).valOf y = h.valOf y := by
  rw [linkOut, valOf_congr (erase_ne hy), valOf_setPrev, valOf_setNext]

end Heap

/-! ## Rings -/

/-- `a` points to `b` and `b` points back. -/
def Linked (h : Heap β) (a b : Nat) : Prop := h.nextOf a = some b ∧ h.prevOf b = some a

/-- The addresses `l`, in this order, are a circular doubly linked list. -/
structure IsRing (h : Heap β) (l : List Nat) : Prop where
  nodup : l.Nodup
  linked : (l ++ l.head?.toList).IsChain (Linked h)

/-- A chain whose neighbours stay neighbours: only the last element's `next` and the first one's
`prev` may change. -/
theorem isChain_frame {h h' : Heap β} {l : List Nat} (hchain : l.IsChain (Linked h))
    (hnext : ∀ x ∈ l.dropLast, h'.nextOf x = h.nextOf x)
    (hprev : ∀ x ∈ l.tail, h'.prevOf x = h.prevOf x) : l.IsChain (Linked h') := by
  rw [List.isChain_iff_forall_rel_of_append_cons_cons] at hchain ⊢
  intro x y l₁ l₂ hl
  obtain ⟨hxy, hyx⟩ := hchain hl
  have hx : x ∈ l.dropLast := by
    rw [hl, List.dropLast_append_of_ne_nil (List.cons_ne_nil _ _)]
    exact List.mem_append_right _ (List.mem_cons_self ..)
  have hy : y ∈ l.tail := by
    rw [hl]
    cases l₁ with
    | nil => exact List.mem_cons_self ..
    | cons z l₁ =>
      exact List.mem_append_right _ (List.mem_cons_of_mem _ (List.mem_cons_self ..))
  exact ⟨(hnext x hx).trans hxy, (hprev y hy).trans hyx⟩

theorem isRing_nil (h : Heap β) : IsRing h [] := ⟨List.nodup_nil, .nil⟩

/-- A ring of one cell points to itself. -/
theorem isRing_singleton {h : Heap β} {a : Nat} (hnext : h.nextOf a = some a)
    (hprev : h.prevOf a = some a) : IsRing h [a] :=
  ⟨List.nodup_singleton a, List.isChain_pair.mpr ⟨hnext, hprev⟩⟩

/-- A list with a cell in it has a first one. -/
theorem exists_head (s : List Nat) (x : Nat) (u : List Nat) : ∃ a, (s ++ x :: u).head? = some a :=
  ⟨_, List.head?_eq_some_head (List.append_ne_nil_of_right_ne_nil s (List.cons_ne_nil x u))⟩

/-- A ring apart into the chain from its first to its last cell, and the link back. -/
theorem isRing_concat_iff {h : Heap β} {front : List Nat} {z : Nat} :
    IsRing h (front ++ [z])
      ↔ (front ++ [z]).Nodup ∧ (front ++ [z]).IsChain (Linked h)
        ∧ ∀ a, (front ++ [z]).head? = some a → Linked h z a := by
  obtain ⟨a, ha⟩ := exists_head front z []
  have hjoin : (front ++ [z] ++ [a]).IsChain (Linked h)
      ↔ (front ++ [z]).IsChain (Linked h) ∧ Linked h z a := by
    rw [List.isChain_append, List.getLast?_concat]
    simp
  constructor
  · rintro ⟨hnodup, hlinked⟩
    rw [ha] at hlinked
    obtain ⟨hchain, hback⟩ := hjoin.mp hlinked
    refine ⟨hnodup, hchain, fun b hb => ?_⟩
    rw [ha] at hb
    cases hb
    exact hback
  · rintro ⟨hnodup, hchain, hback⟩
    refine ⟨hnodup, ?_⟩
    rw [ha]
    exact hjoin.mpr ⟨hchain, hback a ha⟩

/-- Going round a ring stays in it. -/
theorem mem_of_mem_round {l : List Nat} {x : Nat} (hx : x ∈ l ++ l.head?.toList) : x ∈ l := by
  rcases List.mem_append.mp hx with hx | hx
  · exact hx
  · exact List.mem_of_head? (Option.mem_toList.mp hx)

/-- The ring's values may change, its shape stays. -/
theorem IsRing.congr {h h' : Heap β} {l : List Nat} (hring : IsRing h l)
    (hnext : ∀ x ∈ l, h'.nextOf x = h.nextOf x) (hprev : ∀ x ∈ l, h'.prevOf x = h.prevOf x) :
    IsRing h' l :=
  ⟨hring.nodup, isChain_frame hring.linked
    (fun x hx => hnext x (mem_of_mem_round (List.dropLast_subset _ hx)))
    (fun x hx => hprev x (mem_of_mem_round (List.mem_of_mem_tail hx)))⟩

/-- The next cell. -/
theorem IsRing.exists_next {h : Heap β} {l : List Nat} (hring : IsRing h l) {x : Nat}
    (hx : x ∈ l) : ∃ y ∈ l, Linked h x y := by
  have hlinked := hring.linked
  rw [List.isChain_iff_forall_rel_of_append_cons_cons] at hlinked
  obtain ⟨s, u, rfl⟩ := List.append_of_mem hx
  obtain ⟨a, ha⟩ := exists_head s x u
  rw [ha] at hlinked
  cases u with
  | nil => exact ⟨a, List.mem_of_head? ha, hlinked (show s ++ [x] ++ [a] = s ++ x :: a :: [] by simp)⟩
  | cons y u =>
    refine ⟨y, by simp, ?_⟩
    exact hlinked (show s ++ x :: y :: u ++ [a] = s ++ x :: y :: (u ++ [a]) by simp)

/-- The cell before. -/
theorem IsRing.exists_prev {h : Heap β} {l : List Nat} (hring : IsRing h l) {x : Nat}
    (hx : x ∈ l) : ∃ w ∈ l, Linked h w x := by
  have hlinked := hring.linked
  rw [List.isChain_iff_forall_rel_of_append_cons_cons] at hlinked
  obtain ⟨a, t, rfl⟩ := List.exists_cons_of_ne_nil (List.ne_nil_of_mem hx)
  -- on the way round, `x` comes after another cell, be it `a` itself at the end
  have hround : x ∈ t ++ [a] := by
    rcases List.mem_cons.mp hx with rfl | hx
    · exact List.mem_append_right _ (List.mem_singleton_self _)
    · exact List.mem_append_left _ hx
  obtain ⟨s, u, hs⟩ := List.append_of_mem hround
  obtain ⟨front, w, hw⟩ : ∃ front w, a :: s = front ++ [w] :=
    ⟨_, _, (List.dropLast_append_getLast (List.cons_ne_nil a s)).symm⟩
  have hmem : w ∈ a :: t := by
    have hws : w ∈ a :: s := by
      rw [hw]
      exact List.mem_append_right _ (List.mem_singleton_self _)
    rcases List.mem_cons.mp hws with rfl | hws
    · exact List.mem_cons_self ..
    · have : w ∈ t ++ [a] := by
        rw [hs]
        exact List.mem_append_left _ hws
      simpa [or_comm] using this
  refine ⟨w, hmem, hlinked (show a :: t ++ [a] = front ++ w :: x :: u from ?_)⟩
  rw [List.cons_append, hs, ← List.cons_append, hw, List.append_assoc, List.singleton_append]

/-- The cells of a ring are allocated. -/
theorem IsRing.isSome_of_mem {h : Heap β} {l : List Nat} (hring : IsRing h l) {x : Nat}
    (hx : x ∈ l) : (h x).isSome := by
  obtain ⟨y, -, hlinked⟩ := hring.exists_next hx
  exact Heap.isSome_of_nextOf hlinked.1

/-- The first cell's pointers. -/
theorem IsRing.nextOf_head {h : Heap β} {a b : Nat} {l : List Nat} (hring : IsRing h (a :: l))
    (hb : l.head? = some b) : h.nextOf a = some b := by
  obtain ⟨l, rfl⟩ := List.head?_eq_some_iff.mp hb
  exact (List.isChain_cons_cons.mp hring.linked).1.1

theorem IsRing.prevOf_head {h : Heap β} {a z : Nat} {front : List Nat}
    (hring : IsRing h (a :: (front ++ [z]))) : h.prevOf a = some z := by
  have hring' : IsRing h (a :: front ++ [z]) := hring
  exact ((isRing_concat_iff.mp hring').2.2 a rfl).2

theorem ne_head_of_mem_tail {l : List Nat} {a y : Nat} (hnodup : l.Nodup) (ha : l.head? = some a)
    (hy : y ∈ l.tail) : y ≠ a := by
  cases l with
  | nil => cases ha
  | cons b l =>
    cases ha
    rintro rfl
    exact (List.nodup_cons.mp hnodup).1 hy

/-- What is left when the first of different cells is gone. -/
theorem mem_tail_iff {l : List Nat} {a x : Nat} (hnodup : (a :: l).Nodup) :
    (x ≠ a ∧ x ∈ a :: l) ↔ x ∈ l := by
  rw [List.mem_cons]
  constructor
  · exact fun h => h.2.resolve_left h.1
  · exact fun h => ⟨fun hxa => (List.nodup_cons.mp hnodup).1 (hxa ▸ h), .inr h⟩

/-- **One cell more at the end** of a ring from `a` to `z`. -/
theorem IsRing.push {h h' : Heap β} {front : List Nat} {a z x : Nat}
    (hring : IsRing h (front ++ [z])) (ha : (front ++ [z]).head? = some a)
    (hx : x ∉ front ++ [z]) (hback : Linked h' x a) (hlast : Linked h' z x)
    (hnext : ∀ y ∈ front, h'.nextOf y = h.nextOf y)
    (hprev : ∀ y ∈ (front ++ [z]).tail, h'.prevOf y = h.prevOf y) :
    IsRing h' (front ++ [z] ++ [x]) := by
  obtain ⟨hnodup, hchain, -⟩ := isRing_concat_iff.mp hring
  refine isRing_concat_iff.mpr ⟨?_, ?_, fun b hb => ?_⟩
  · rw [List.nodup_append]
    refine ⟨hnodup, List.nodup_singleton x, fun y hy w hw => ?_⟩
    rw [List.mem_singleton.mp hw]
    rintro rfl
    exact hx hy
  · rw [List.isChain_append, List.getLast?_concat]
    refine ⟨isChain_frame hchain (by rwa [List.dropLast_concat]) hprev, .singleton x, ?_⟩
    intro y hy w hw
    cases hy
    cases hw
    exact hlast
  · rw [List.head?_append_of_ne_nil _ (by simp), ha] at hb
    cases hb
    exact hback

/-- **One cell less at the front**: what is left is a ring from `b` to `z`. -/
theorem IsRing.pop {h h' : Heap β} {front : List Nat} {a b z : Nat}
    (hring : IsRing h (a :: (front ++ [z]))) (hb : (front ++ [z]).head? = some b)
    (hback : Linked h' z b) (hnext : ∀ y ∈ front, h'.nextOf y = h.nextOf y)
    (hprev : ∀ y ∈ (front ++ [z]).tail, h'.prevOf y = h.prevOf y) : IsRing h' (front ++ [z]) := by
  have hring' : IsRing h (a :: front ++ [z]) := hring
  obtain ⟨hnodup, hchain, -⟩ := isRing_concat_iff.mp hring'
  refine isRing_concat_iff.mpr ⟨(List.nodup_cons.mp hnodup).2, ?_, fun c hc => ?_⟩
  · exact isChain_frame hchain.tail (by rwa [List.dropLast_concat]) hprev
  · rw [hb] at hc
    cases hc
    exact hback

/-- Linking a cell in at the end of a ring. -/
theorem IsRing.linkIn {h : Heap β} {front : List Nat} {a z x : Nat}
    (hring : IsRing h (front ++ [z])) (ha : (front ++ [z]).head? = some a)
    (hx : x ∉ front ++ [z]) (hcell : (h x).isSome) :
    IsRing (h.linkIn a z x) (front ++ [z] ++ [x]) := by
  have hnodup := hring.nodup
  have hamem : a ∈ front ++ [z] := List.mem_of_head? ha
  have hzmem : z ∈ front ++ [z] := List.mem_append_right _ (List.mem_singleton_self _)
  have hax : a ≠ x := fun h => hx (h ▸ hamem)
  have hzx : z ≠ x := fun h => hx (h ▸ hzmem)
  have hz : (h z).isSome := hring.isSome_of_mem hzmem
  have hacell : (h a).isSome := hring.isSome_of_mem hamem
  refine hring.push ha hx ⟨?_, ?_⟩ ⟨?_, ?_⟩ (fun y hy => ?_) (fun y hy => ?_)
  · rw [Heap.linkIn, Heap.nextOf_setPrev, Heap.nextOf_modify_ne hzx.symm]
    exact Heap.nextOf_setNext_self (by rwa [Heap.modify_isSome]) _
  · rw [Heap.linkIn]
    exact Heap.prevOf_setPrev_self
      (by rwa [Heap.modify_isSome, Heap.modify_isSome, Heap.modify_isSome]) _
  · rw [Heap.linkIn, Heap.nextOf_setPrev]
    exact Heap.nextOf_setNext_self (by rwa [Heap.modify_isSome, Heap.modify_isSome]) _
  · rw [Heap.linkIn, Heap.prevOf_modify_ne hax.symm, Heap.prevOf_setNext, Heap.prevOf_setNext]
    exact Heap.prevOf_setPrev_self hcell _
  · have hyx : y ≠ x := fun h => hx (h ▸ List.mem_append_left _ hy)
    have hyz : y ≠ z := by
      rintro rfl
      exact (List.nodup_append.mp hnodup).2.2 y hy y (List.mem_singleton_self _) rfl
    rw [Heap.linkIn, Heap.nextOf_setPrev, Heap.nextOf_modify_ne hyz, Heap.nextOf_modify_ne hyx,
      Heap.nextOf_setPrev]
  · have hyx : y ≠ x := fun h => hx (h ▸ List.mem_of_mem_tail hy)
    have hya : y ≠ a := ne_head_of_mem_tail hnodup ha hy
    rw [Heap.linkIn, Heap.prevOf_modify_ne hya, Heap.prevOf_setNext, Heap.prevOf_setNext,
      Heap.prevOf_modify_ne hyx]

/-- Taking the first cell out of a ring of two or more. -/
theorem IsRing.linkOut {h : Heap β} {front : List Nat} {a b z : Nat}
    (hring : IsRing h (a :: (front ++ [z]))) (hb : (front ++ [z]).head? = some b) :
    IsRing (h.linkOut a z b) (front ++ [z]) := by
  obtain ⟨hnotin, hnodup⟩ := List.nodup_cons.mp hring.nodup
  have hmem : ∀ {y}, y ∈ front ++ [z] → y ≠ a := fun hy h => hnotin (h ▸ hy)
  have hzmem : z ∈ front ++ [z] := List.mem_append_right _ (List.mem_singleton_self _)
  have hbmem : b ∈ front ++ [z] := List.mem_of_head? hb
  have hz : (h z).isSome := hring.isSome_of_mem (List.mem_cons_of_mem _ hzmem)
  have hbcell : (h b).isSome := hring.isSome_of_mem (List.mem_cons_of_mem _ hbmem)
  refine hring.pop hb ⟨?_, ?_⟩ (fun y hy => ?_) (fun y hy => ?_)
  · rw [Heap.linkOut, Heap.nextOf_congr (Heap.erase_ne (hmem hzmem)), Heap.nextOf_setPrev]
    exact Heap.nextOf_setNext_self hz _
  · rw [Heap.linkOut, Heap.prevOf_congr (Heap.erase_ne (hmem hbmem))]
    exact Heap.prevOf_setPrev_self (by rwa [Heap.modify_isSome]) _
  · have hyz : y ≠ z := by
      rintro rfl
      exact (List.nodup_append.mp hnodup).2.2 y hy y (List.mem_singleton_self _) rfl
    rw [Heap.linkOut, Heap.nextOf_congr (Heap.erase_ne (hmem (List.mem_append_left _ hy))),
      Heap.nextOf_setPrev, Heap.nextOf_modify_ne hyz]
  · rw [Heap.linkOut, Heap.prevOf_congr (Heap.erase_ne (hmem (List.mem_of_mem_tail hy))),
      Heap.prevOf_modify_ne (ne_head_of_mem_tail hnodup hb hy), Heap.prevOf_setNext]

/-- From the first cell of a ring, exactly its cells are reachable. -/
theorem IsRing.reachable_iff {h : Heap β} {a : Nat} {l : List Nat} (hring : IsRing h (a :: l))
    (x : Nat) :
    Relation.ReflTransGen (fun y w => h.nextOf y = some w ∨ h.prevOf y = some w) a x
      ↔ x ∈ a :: l := by
  constructor
  · intro hreach
    induction hreach with
    | refl => exact List.mem_cons_self ..
    | @tail y w _ hstep hy =>
      rcases hstep with hnext | hprev
      · obtain ⟨w', hw', hlinked⟩ := hring.exists_next hy
        rw [hlinked.1] at hnext
        cases hnext
        exact hw'
      · obtain ⟨w', hw', hlinked⟩ := hring.exists_prev hy
        rw [hlinked.2] at hprev
        cases hprev
        exact hw'
  · intro hx
    have hchain : (a :: l).IsChain (Linked h) := hring.linked.left_of_append
    exact hchain.induction _ _ (fun _ _ hyw hy => hy.tail (.inl hyw.1)) (fun _ => .refl) x hx

/-! ## Allocation -/

/-- `malloc`: whether the `n`-th call succeeds, and the address it then answers with. -/
structure Allocator (β : Type) where
  succeeds : Nat → Bool
  place : Nat → Heap β → Nat
  fresh : ∀ (n : Nat) (h : Heap β), (∃ a, h a = none) → h (place n h) = none

/-- A heap of finitely many cells has room. -/
theorem Allocator.place_fresh (m : Allocator β) (n : Nat) {h : Heap β} {l : List Nat}
    (hdom : ∀ x, (h x).isSome ↔ x ∈ l) : h (m.place n h) = none := by
  refine m.fresh n h ?_
  obtain ⟨a, ha⟩ := Infinite.exists_notMem_finset l.toFinset
  refine ⟨a, ?_⟩
  rw [← Option.not_isSome_iff_eq_none, hdom]
  simpa using ha

end Engine
