import Mathlib.Algebra.Order.Group.Multiset
import Mathlib.Data.Multiset.Filter

set_option relaxedAutoImplicit false
set_option autoImplicit false

/-!
# A heap of blocks

Blocks are taken from a heap, written and read, and given back. A block is named by the number of
blocks that were taken before it, so no name is used twice, and using or giving back a block that
was given back fails. What is in use is counted: taking a block adds it, giving it back removes it.

## Main definitions

* `Malloc.Heap`, `Malloc.alloc`, `Malloc.read`, `Malloc.write`, `Malloc.release` — the heap.
* `Malloc.inUse` — the blocks in use.
* `Malloc.Frame` — the heap changed at the given blocks only.

## Main results

* `Malloc.read_alloc`, `Malloc.read_set` — what taking a block leaves, and writing or giving back
  one.
* `Malloc.inUse_alloc`, `Malloc.inUse_set` — what it does to the blocks in use.
-/

namespace Malloc

variable {B : Type*}

/-- The blocks in the order in which they were taken; one that was given back is empty. -/
abbrev Heap (B : Type*) := List (Option B)

/-- A new block, and its name. -/
def alloc (h : Heap B) (b : B) : Heap B × ℕ := (h ++ [some b], h.length)

/-- The block of a name, if it is in use. -/
def read (h : Heap B) (p : ℕ) : Option B := (h[p]?).join

/-- Another content for a block in use. -/
def write (h : Heap B) (p : ℕ) (b : B) : Option (Heap B) := (read h p).map fun _ => h.set p (some b)

/-- A block is given back. -/
def release (h : Heap B) (p : ℕ) : Option (Heap B) := (read h p).map fun _ => h.set p none

/-- The same through a pointer that may be null, where nothing is given back. -/
def releasePtr (h : Heap B) : Option ℕ → Option (Heap B)
  | none => some h
  | some p => release h p

/-- The blocks in use. -/
def inUse (h : Heap B) : Multiset B := h.filterMap id

/-! ## Reading after an operation -/

section Reads

variable {h h' : Heap B} {p q : ℕ} {a b : B}

/-- A block that is read was handed out. -/
lemma lt_of_read (hp : read h p = some b) : p < h.length := by
  by_contra hge
  rw [read, List.getElem?_eq_none (not_lt.mp hge)] at hp
  cases hp

/-- A block that is read is on the list. -/
lemma getElem?_of_read (hp : read h p = some b) : h[p]? = some (some b) :=
  Option.join_eq_some_iff.mp hp

/-- A new block is read back, and the others as before. -/
lemma read_alloc (h : Heap B) (b : B) (q : ℕ) :
    read (alloc h b).1 q = if q = h.length then some b else read h q := by
  unfold read alloc
  split
  · subst q
    simp
  · rename_i hq
    rcases Nat.lt_or_gt_of_ne hq with hlt | hgt
    · rw [List.getElem?_append_left hlt]
    · rw [List.getElem?_eq_none (by simpa using Nat.succ_le_of_lt hgt),
        List.getElem?_eq_none (le_of_lt hgt)]

/-- A new block is one more. -/
@[simp] lemma length_alloc (h : Heap B) (b : B) : (alloc h b).1.length = h.length + 1 := by
  simp [alloc]

/-- Setting a block that is in use, to a content or to nothing. -/
lemma read_set (hp : read h p = some a) (o : Option B) (q : ℕ) :
    read (h.set p o) q = if q = p then o else read h q := by
  have hlt := lt_of_read hp
  unfold read
  rw [List.getElem?_set]
  by_cases hq : q = p
  · subst q
    simp [hlt]
  · rw [if_neg (Ne.symm hq), if_neg hq]

/-- A block in use is written. -/
lemma write_of_read (hp : read h p = some a) (b : B) : write h p b = some (h.set p (some b)) := by
  rw [write, hp, Option.map_some]

/-- A block in use is released. -/
lemma release_of_read (hp : read h p = some a) : release h p = some (h.set p none) := by
  rw [release, hp, Option.map_some]

/-- A block that is not in use is not released. -/
lemma release_eq_none (hp : read h p = none) : release h p = none := by
  rw [release, hp, Option.map_none]

end Reads

/-! ## The blocks in use -/

section InUse

variable {h h' : Heap B} {p : ℕ} {a b : B}

/-- No block of an empty heap is in use. -/
@[simp] lemma inUse_nil : inUse ([] : Heap B) = 0 := rfl

/-- A block that is in use stands between the others.

**Proof sketch.** The heap is split at the block; what is in use is what is in use in front of
it, at it and behind it, and only the middle changes. -/
lemma inUse_set (hp : read h p = some a) (o : Option B) :
    inUse (h.set p o) + {a} = inUse h + (o.elim 0 fun b => {b}) := by
  have hlt := lt_of_read hp
  have hmem : h[p] = some a := by
    have hget := getElem?_of_read hp
    rwa [List.getElem?_eq_getElem hlt, Option.some.injEq] at hget
  have hsplit : h = h.take p ++ some a :: h.drop (p + 1) := by
    rw [← hmem, List.getElem_cons_drop, List.take_append_drop]
  have hset : h.set p o = h.take p ++ o :: h.drop (p + 1) := by
    rw [List.set_eq_take_append_cons_drop, if_pos hlt]
  have hfront : inUse h = (h.take p).filterMap id + ({a} + (h.drop (p + 1)).filterMap id) := by
    conv_lhs => rw [hsplit]
    simp [inUse, ← Multiset.coe_add]
  rw [hset, hfront]
  cases o with
  | none =>
    simp only [inUse, List.filterMap_append, List.filterMap_cons_none, id_eq, ← Multiset.coe_add,
      Option.elim_none, add_zero]
    rw [add_assoc, add_comm _ ({a} : Multiset B)]
  | some b =>
    have hcons : (((some b :: h.drop (p + 1)).filterMap id : List B) : Multiset B) =
        {b} + (h.drop (p + 1)).filterMap id := by
      simp
    rw [inUse, List.filterMap_append, ← Multiset.coe_add, hcons, Option.elim_some]
    simp only [add_assoc, add_comm, add_left_comm]

/-- A new block is in use. -/
lemma inUse_alloc (h : Heap B) (b : B) : inUse (alloc h b).1 = inUse h + {b} := by
  simp [inUse, alloc, ← Multiset.coe_add]

end InUse

/-! ## Frames -/

/-- Only the blocks at the given names changed, and new ones were taken. -/
structure Frame (at' : List ℕ) (h h' : Heap B) : Prop where
  length_le : h.length ≤ h'.length
  read_eq : ∀ q, q < h.length → q ∉ at' → read h' q = read h q

section Frames

variable {h h' h'' : Heap B} {p : ℕ} {l : List ℕ}

/-- Where nothing is done, all other blocks stay. -/
lemma Frame.refl (l : List ℕ) (h : Heap B) : Frame l h h := ⟨le_rfl, fun _ _ _ => rfl⟩

/-- A new block leaves the others. -/
lemma frame_alloc (l : List ℕ) (h : Heap B) (b : B) : Frame l h (alloc h b).1 where
  length_le := by simp
  read_eq q hq _ := by rw [read_alloc, if_neg (ne_of_lt hq)]

/-- A write to a block leaves the others. -/
lemma frame_set {a : B} (hp : read h p = some a) (o : Option B) (hl : p ∈ l) :
    Frame l h (h.set p o) where
  length_le := by simp
  read_eq q _ hq := by
    rw [read_set hp, if_neg]
    rintro rfl
    exact hq hl

end Frames

end Malloc
