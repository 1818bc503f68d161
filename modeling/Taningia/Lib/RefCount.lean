import Mathlib.Algebra.BigOperators.Group.Finset.Basic
import Mathlib.Algebra.Order.BigOperators.Group.Finset
import Mathlib.Data.Finset.Card
import Mathlib.Data.Int.Notation
import Mathlib.Logic.Function.Basic

set_option relaxedAutoImplicit false
set_option autoImplicit false

/-!
# Reference counts

Objects in memory store each other and carry a count of their references. Letting a reference go
lowers the count, and at zero the destructor of the object lets go of what it stores, before the
memory is released. References are held by objects, and by others: a caller, or an operation that is
under way.

## Main definitions

* `RefCount.Layout` — what the objects of a program store, and what their destructors let go.
* `RefCount.ref`, `RefCount.unref` — taking a reference, and letting one go.
* `RefCount.Balanced` — the counts are the numbers of references.
* `RefCount.Reaches` — an object is reached from a reference that is held.
* `RefCount.Shrinks` — some objects are gone, and nothing else changed.

## Main results

* `RefCount.Balanced.ref`, `RefCount.Balanced.store`, `RefCount.Balanced.alloc` — taking a
  reference, storing it, and a new object.
* `RefCount.unref_spec`, `RefCount.unrefAll_spec` — letting references go.
* `RefCount.letGo_spec` — an object lets go of references that it stores.
-/

namespace RefCount

variable {O : Type*}

/-! ## Objects in memory -/

/-- An object with its reference count. -/
structure Cell (O : Type*) where
  count : ℤ
  obj : O
deriving DecidableEq, Repr

/-- The objects in memory, and the addresses released so far. -/
structure Memory (O : Type*) where
  cells : ℕ → Option (Cell O)
  freed : List ℕ

namespace Memory

/-- The object at an address. -/
def obj (h : Memory O) (a : ℕ) : Option O := (h.cells a).map Cell.obj

/-- The count of the object at an address. -/
def count (h : Memory O) (a : ℕ) : Option ℤ := (h.cells a).map Cell.count

/-- The heap with one count changed. -/
def setCount (h : Memory O) (a : ℕ) (n : ℤ) : Memory O :=
  { h with cells := Function.update h.cells a ((h.cells a).map fun c => { c with count := n }) }

/-- The heap with one object changed. -/
def setObj (h : Memory O) (a : ℕ) (o : O) : Memory O :=
  { h with cells := Function.update h.cells a ((h.cells a).map fun c => { c with obj := o }) }

/-- `free (a)`. -/
def free (h : Memory O) (a : ℕ) : Memory O :=
  { cells := Function.update h.cells a none, freed := h.freed ++ [a] }

/-- The heap with a new object, to which there is one reference. -/
def alloc (h : Memory O) (a : ℕ) (o : O) : Memory O :=
  { h with cells := Function.update h.cells a (some ⟨1, o⟩) }

variable (h : Memory O) (a : ℕ) (n : ℤ) (o : O)

/-- A count that is set changes no object. -/
@[simp] lemma obj_setCount : (h.setCount a n).obj = h.obj := by
  funext b
  by_cases hb : b = a
  · subst hb
    simp [obj, setCount, Function.comp_def]
  · simp [obj, setCount, hb]

variable {h a} in
/-- An address that shows an object has a cell. -/
lemma exists_cell (ha : h.obj a ≠ none) : ∃ c, h.cells a = some c := by
  apply Option.ne_none_iff_exists'.mp
  intro hnone
  rw [obj, hnone] at ha
  exact ha rfl

/-- The count that was set is read back. -/
lemma count_setCount_self (ha : h.obj a ≠ none) : (h.setCount a n).count a = some n := by
  obtain ⟨c, hc⟩ := exists_cell ha
  simp [count, setCount, hc]

/-- The counts of the others stay. -/
lemma count_setCount_of_ne {b : ℕ} (hb : b ≠ a) : (h.setCount a n).count b = h.count b := by
  simp [count, setCount, hb]

/-- The cells of the others stay when a count is set. -/
lemma cells_setCount_of_ne {b : ℕ} (hb : b ≠ a) : (h.setCount a n).cells b = h.cells b := by
  simp [setCount, hb]

/-- The object that was written is read back. -/
lemma obj_setObj_self (ha : h.obj a ≠ none) : (h.setObj a o).obj a = some o := by
  obtain ⟨c, hc⟩ := exists_cell ha
  simp [obj, setObj, hc]

/-- The other objects stay when one is written. -/
lemma obj_setObj_of_ne {b : ℕ} (hb : b ≠ a) : (h.setObj a o).obj b = h.obj b := by
  simp [obj, setObj, hb]

/-- An object that is written leaves every count as it is. -/
@[simp] lemma count_setObj : (h.setObj a o).count = h.count := by
  funext b
  by_cases hb : b = a
  · subst hb
    simp [count, setObj, Function.comp_def]
  · simp [count, setObj, hb]

/-- The cells of the others stay when an object is written. -/
lemma cells_setObj_of_ne {b : ℕ} (hb : b ≠ a) : (h.setObj a o).cells b = h.cells b := by
  simp [setObj, hb]

/-- A release touches no other cell. -/
lemma cells_free_of_ne {b : ℕ} (hb : b ≠ a) : (h.free a).cells b = h.cells b := by
  simp [free, hb]

/-- A released address has no cell. -/
lemma cells_free_self : (h.free a).cells a = none := by
  simp [free]

/-- A new object touches no other cell. -/
lemma cells_alloc_of_ne {b : ℕ} (hb : b ≠ a) : (h.alloc a o).cells b = h.cells b := by
  simp [alloc, hb]

/-- A new object is born with the count one. -/
lemma cells_alloc_self : (h.alloc a o).cells a = some ⟨1, o⟩ := by
  simp [alloc]

/-- A new object is read back. -/
lemma obj_alloc_self : (h.alloc a o).obj a = some o := by
  simp [obj, cells_alloc_self]

/-- The count of a new object is one. -/
lemma count_alloc_self : (h.alloc a o).count a = some 1 := by
  simp [count, cells_alloc_self]

variable {h a}

/-- No object is shown exactly where there is no cell. -/
lemma obj_eq_none_iff : h.obj a = none ↔ h.cells a = none := by
  simp [obj]

/-- The same cell shows the same object. -/
lemma obj_of_cells {h' : Memory O} (hc : h'.cells a = h.cells a) : h'.obj a = h.obj a := by
  rw [obj, obj, hc]

/-- The same cell has the same count. -/
lemma count_of_cells {h' : Memory O} (hc : h'.cells a = h.cells a) : h'.count a = h.count a := by
  rw [count, count, hc]

/-- The other objects stay when one is made. -/
lemma obj_alloc_of_ne {b : ℕ} (hb : b ≠ a) (o : O) : (h.alloc a o).obj b = h.obj b :=
  obj_of_cells (h.cells_alloc_of_ne a o hb)

/-- The other counts stay when an object is made. -/
lemma count_alloc_of_ne {b : ℕ} (hb : b ≠ a) (o : O) : (h.alloc a o).count b = h.count b :=
  count_of_cells (h.cells_alloc_of_ne a o hb)

end Memory

/-- What an object stores, with repetitions; what its destructor lets go, which may be a fault; a
rank that is greater than the ranks of the objects that it stores; and the greatest count. -/
structure Layout (O : Type*) where
  stores : O → List ℕ
  released : O → Option (List ℕ)
  rank : O → ℕ
  maxCount : ℕ
  maxCount_pos : 0 < maxCount

variable (L : Layout O)

/-- The destructor lets go of what the object stores. -/
def Layout.Sound (o : O) : Prop := ∃ l, L.released o = some l ∧ l.Perm (L.stores o)

/-- One more reference, unless there are as many as can be counted. -/
def ref (h : Memory O) (a : ℕ) : Option (Memory O) :=
  (h.cells a).bind fun c => if c.count < L.maxCount then some (h.setCount a (c.count + 1)) else none

/-- One reference less; at zero the destructor runs, and then the object is released. The depth
bounds the nesting of destructors. -/
def unref : ℕ → Memory O → ℕ → Option (Memory O)
  | 0, _, _ => none
  | depth + 1, h, a =>
    (h.cells a).bind fun c =>
      let h := h.setCount a (c.count - 1)
      if c.count - 1 = 0 then
        (L.released c.obj).bind fun l => (l.foldlM (unref depth) h).map fun h => h.free a
      else some h

/-- References that are let go one after the other. -/
def unrefAll (depth : ℕ) (h : Memory O) (l : List ℕ) : Option (Memory O) :=
  l.foldlM (unref L depth) h

/-! ## Balanced counts -/

/-- How often the object at `p` stores `a`. -/
def stored (h : Memory O) (p a : ℕ) : ℕ := ((h.obj p).map fun o => (L.stores o).count a).getD 0

/-- The rank of the object at an address. -/
def rankAt (h : Memory O) (a : ℕ) : ℕ := ((h.obj a).map L.rank).getD 0

/-- The number of references to `a` from objects in `S`, and of those that are held. -/
def refs (h : Memory O) (S : Finset ℕ) (held : ℕ → ℕ) (a : ℕ) : ℕ :=
  held a + ∑ p ∈ S, stored L h p a

/-- More references that are held. -/
def addRefs (held : ℕ → ℕ) (l : List ℕ) (a : ℕ) : ℕ := held a + l.count a

/-- **The counts are right** for the objects in `S`, which store each other only: each count is the
number of references, and there is at least one. -/
structure Balanced (h : Memory O) (S : Finset ℕ) (held : ℕ → ℕ) : Prop where
  count : ∀ a ∈ S, h.count a = some (refs L h S held a : ℤ)
  pos : ∀ a ∈ S, 0 < refs L h S held a
  le : ∀ a ∈ S, refs L h S held a ≤ L.maxCount
  closed : ∀ p ∈ S, ∀ a, 0 < stored L h p a → a ∈ S ∧ rankAt L h a < rankAt L h p
  outside : ∀ a ∉ S, held a = 0

/-- The object is reached from a reference that is held. -/
inductive Reaches (h : Memory O) (held : ℕ → ℕ) : ℕ → Prop
  | held {a : ℕ} : 0 < held a → Reaches h held a
  | stored {p a : ℕ} : Reaches h held p → 0 < stored L h p a → Reaches h held a

/-- From `h` to `h'` the objects of `S` outside `S'` were released, each once, and nothing else
changed but counts in `S`. -/
structure Shrinks (h : Memory O) (S : Finset ℕ) (h' : Memory O) (S' : Finset ℕ) : Prop where
  sub : S' ⊆ S
  kept : ∀ a ∈ S', h'.obj a = h.obj a
  gone : ∀ a ∈ S, a ∉ S' → h'.cells a = none
  frame : ∀ a ∉ S, h'.cells a = h.cells a
  freed : ∃ l, h'.freed = h.freed ++ l ∧ l.Nodup ∧ ∀ a, a ∈ l ↔ a ∈ S ∧ a ∉ S'

variable {L} {h h' : Memory O} {S S' : Finset ℕ} {held : ℕ → ℕ}

/-- No references add nothing to what is held. -/
@[simp] lemma addRefs_nil : addRefs held [] = held := rfl

/-- References are added one by one. -/
lemma addRefs_cons (b : ℕ) (l : List ℕ) :
    addRefs held (b :: l) = addRefs (addRefs held l) [b] := by
  funext a
  simp only [addRefs, List.count_cons, List.count_nil]
  omega

/-- The order in which references are added does not matter. -/
lemma addRefs_perm {l l' : List ℕ} (hp : l.Perm l') : addRefs held l = addRefs held l' := by
  funext a
  rw [addRefs, addRefs, hp.count_eq]

/-- What a given object stores of an address. -/
lemma stored_of_obj {o : O} {p : ℕ} (ho : h.obj p = some o) (a : ℕ) :
    stored L h p a = (L.stores o).count a := by
  rw [stored, ho]
  rfl

/-- The same object stores the same. -/
lemma stored_congr {p : ℕ} (ho : h'.obj p = h.obj p) (a : ℕ) :
    stored L h' p a = stored L h p a := by
  rw [stored, stored, ho]

/-- The same object has the same rank. -/
lemma rankAt_congr {p : ℕ} (ho : h'.obj p = h.obj p) : rankAt L h' p = rankAt L h p := by
  rw [rankAt, rankAt, ho]

/-- Every object of a balanced set is there. -/
lemma Balanced.obj_ne_none (hb : Balanced L h S held) {a : ℕ} (ha : a ∈ S) : h.obj a ≠ none := by
  intro hnone
  have hcount := hb.count a ha
  rw [Memory.count, Memory.obj_eq_none_iff.mp hnone] at hcount
  cases hcount

/-- A held reference points into the balanced set. -/
lemma Balanced.mem_of_held (hb : Balanced L h S held) {a : ℕ} (ha : 0 < held a) : a ∈ S := by
  by_contra hmem
  rw [hb.outside a hmem] at ha
  exact absurd ha (lt_irrefl 0)

/-- References that are added are to objects that are there. -/
lemma Balanced.mem_of_addRefs {l : List ℕ} (hb : Balanced L h S (addRefs held l)) {a : ℕ}
    (ha : a ∈ l) : a ∈ S := by
  apply hb.mem_of_held
  have := List.count_pos_iff.mpr ha
  simp only [addRefs]
  omega

/-- What is reached is there. -/
lemma Balanced.mem_of_reaches (hb : Balanced L h S held) {a : ℕ} (ha : Reaches L h held a) :
    a ∈ S := by
  induction ha with
  | held hheld => exact hb.mem_of_held hheld
  | stored _ hstored ih => exact (hb.closed _ ih _ hstored).1

/-- The counts are right when they stay, and the numbers of references stay with them.

**Proof sketch.** The count of each object of `S'` is its old count, hence its old number of
references, hence its new one; the bounds on it are carried over the same equation. -/
lemma Balanced.transfer {held' : ℕ → ℕ} (hb : Balanced L h S held) (hsub : S' ⊆ S)
    (hcount : ∀ a ∈ S', h'.count a = h.count a)
    (hrefs : ∀ a ∈ S', refs L h' S' held' a = refs L h S held a)
    (hclosed : ∀ p ∈ S', ∀ a, 0 < stored L h' p a → a ∈ S' ∧ rankAt L h' a < rankAt L h' p)
    (houtside : ∀ a ∉ S', held' a = 0) : Balanced L h' S' held' where
  count a ha := by rw [hcount a ha, hb.count a (hsub ha), hrefs a ha]
  pos a ha := by
    rw [hrefs a ha]
    exact hb.pos a (hsub ha)
  le a ha := by
    rw [hrefs a ha]
    exact hb.le a (hsub ha)
  closed := hclosed
  outside := houtside

/-- The counts stay right when the objects and their counts stay. -/
lemma Balanced.congr (hb : Balanced L h S held) (hobj : ∀ a ∈ S, h'.obj a = h.obj a)
    (hcount : ∀ a ∈ S, h'.count a = h.count a) : Balanced L h' S held := by
  have hrefs : ∀ a, refs L h' S held a = refs L h S held a := by
    intro a
    unfold refs
    congr 1
    exact Finset.sum_congr rfl fun p hp => stored_congr (hobj p hp) a
  refine hb.transfer (Finset.Subset.refl S) hcount (fun a _ => hrefs a) (fun p hp a ha => ?_)
    hb.outside
  rw [stored_congr (hobj p hp)] at ha
  obtain ⟨hmem, hrank⟩ := hb.closed p hp a ha
  exact ⟨hmem, by rwa [rankAt_congr (hobj a hmem), rankAt_congr (hobj p hp)]⟩

/-! ## Taking and storing references -/

/-- Taking a reference.

**Proof sketch.** The count goes up by one at `b` and nowhere else, and so does the number of
references, since the objects stay: `refs` after the call is `refs` before it plus `[b].count`.
What is left is arithmetic, address by address. -/
lemma Balanced.ref (hb : Balanced L h S held) {b : ℕ} (hmem : b ∈ S)
    (hroom : refs L h S held b < L.maxCount) :
    ∃ h', RefCount.ref L h b = some h' ∧ Balanced L h' S (addRefs held [b]) ∧ h'.obj = h.obj ∧
      (∀ a, a ≠ b → h'.cells a = h.cells a) ∧ h'.freed = h.freed := by
  obtain ⟨c, hc⟩ := Memory.exists_cell (hb.obj_ne_none hmem)
  have hcount : c.count = refs L h S held b := by
    have := hb.count b hmem
    rw [Memory.count, hc] at this
    exact Option.some.inj this
  have hlt : c.count < L.maxCount := by omega
  refine ⟨h.setCount b (c.count + 1), ?_, ?_, h.obj_setCount b _,
    fun a ha => h.cells_setCount_of_ne b _ ha, rfl⟩
  · rw [RefCount.ref, hc, Option.bind_some, if_pos hlt]
  have hrefs : ∀ a, refs L (h.setCount b (c.count + 1)) S (addRefs held [b]) a =
      refs L h S held a + [b].count a := by
    intro a
    simp only [refs, stored, Memory.obj_setCount, addRefs]
    omega
  refine ⟨fun a ha => ?_, fun a ha => ?_, fun a ha => ?_, fun p hp a ha => ?_, fun a ha => ?_⟩
  · rw [hrefs]
    by_cases hab : a = b
    · subst hab
      rw [Memory.count_setCount_self _ _ _ (hb.obj_ne_none ha), hcount]
      simp
    · rw [Memory.count_setCount_of_ne _ _ _ hab, hb.count a ha]
      simp [Ne.symm hab]
  · have := hb.pos a ha
    rw [hrefs]
    omega
  · have := hb.le a ha
    rw [hrefs]
    by_cases hab : a = b
    · subst hab
      rw [List.count_cons_self, List.count_nil]
      omega
    · simpa [Ne.symm hab] using this
  · simp only [stored, rankAt, Memory.obj_setCount] at ha ⊢
    exact hb.closed p hp a ha
  · have hab : b ≠ a := fun e => ha (e ▸ hmem)
    simp [addRefs, hb.outside a ha, hab]

variable (L) (held) in
/-- The number of references when one object changes. -/
lemma refs_setObj {p : ℕ} (hp : p ∈ S) (hobj : h.obj p ≠ none) (o : O) (a : ℕ) :
    refs L (h.setObj p o) S held a + stored L h p a =
      refs L h S held a + (L.stores o).count a := by
  unfold refs
  rw [← Finset.add_sum_erase S (fun q => stored L (h.setObj p o) q a) hp,
    ← Finset.add_sum_erase S (fun q => stored L h q a) hp,
    stored_of_obj (h.obj_setObj_self p o hobj)]
  have hrest : ∑ q ∈ S.erase p, stored L (h.setObj p o) q a = ∑ q ∈ S.erase p, stored L h q a :=
    Finset.sum_congr rfl fun q hq =>
      stored_congr (h.obj_setObj_of_ne p o (Finset.ne_of_mem_erase hq)) a
  rw [hrest]
  omega

/-- The rank stays when an object changes to one of the same rank. -/
lemma rankAt_setObj {p : ℕ} {o o' : O} (ho : h.obj p = some o) (hrank : L.rank o' = L.rank o)
    (a : ℕ) : rankAt L (h.setObj p o') a = rankAt L h a := by
  by_cases hap : a = p
  · subst hap
    rw [rankAt, rankAt, h.obj_setObj_self _ _ (by simp [ho]), ho]
    simpa using hrank
  · exact rankAt_congr (h.obj_setObj_of_ne p o' hap)

/-- **Storing references** that are held.

**Proof sketch.** The references of `l` move from what is held to what `p` stores, so `refs` of
every address is unchanged and `Balanced.transfer` applies. What `p` stores stays closed because
each reference of `l` was held, hence in `S`, and has a smaller rank. -/
lemma Balanced.store {l : List ℕ} (hb : Balanced L h S (addRefs held l)) {p : ℕ} (hp : p ∈ S)
    {o o' : O} (ho : h.obj p = some o) (hstores : (L.stores o').Perm (l ++ L.stores o))
    (hrank : L.rank o' = L.rank o) (hl : ∀ a ∈ l, rankAt L h a < L.rank o) :
    Balanced L (h.setObj p o') S held := by
  have hne : h.obj p ≠ none := hb.obj_ne_none hp
  have hmem : ∀ a ∈ l, a ∈ S := fun a ha => hb.mem_of_addRefs ha
  have hrefs : ∀ a, refs L (h.setObj p o') S held a = refs L h S (addRefs held l) a := by
    intro a
    have hset := refs_setObj L held hp hne o' a
    rw [stored_of_obj ho, hstores.count_eq, List.count_append] at hset
    simp only [refs, addRefs] at hset ⊢
    omega
  refine hb.transfer (Finset.Subset.refl S) (fun a _ => congrFun (h.count_setObj p o') a)
    (fun a _ => hrefs a) (fun q hq a ha => ?_) fun a ha => ?_
  · rw [rankAt_setObj ho hrank, rankAt_setObj ho hrank]
    by_cases hqp : q = p
    · subst hqp
      rw [stored_of_obj (h.obj_setObj_self _ _ hne), hstores.count_eq, List.count_append] at ha
      have hrankq : rankAt L h q = L.rank o := by
        rw [rankAt, ho]
        rfl
      by_cases hal : a ∈ l
      · exact ⟨hmem a hal, by rw [hrankq]; exact hl a hal⟩
      · rw [List.count_eq_zero_of_not_mem hal, Nat.zero_add] at ha
        exact hb.closed q hq a (by rwa [stored_of_obj ho])
    · rw [stored_congr (h.obj_setObj_of_ne p o' hqp)] at ha
      exact hb.closed q hq a ha
  · have := hb.outside a ha
    simp only [addRefs] at this
    omega

/-- **References that are stored** are taken out of an object, and held.

**Proof sketch.** The reverse of `Balanced.store`: the references of `l` move from what `p`
stores to what is held, so `refs` of every address is unchanged. Nothing new is stored, so what
is stored stays closed. -/
lemma Balanced.unstore {l : List ℕ} (hb : Balanced L h S held) {p : ℕ} (hp : p ∈ S)
    {o o' : O} (ho : h.obj p = some o) (hstores : (L.stores o).Perm (l ++ L.stores o'))
    (hrank : L.rank o' = L.rank o) : Balanced L (h.setObj p o') S (addRefs held l) := by
  have hne : h.obj p ≠ none := hb.obj_ne_none hp
  have hl : ∀ a, stored L h p a = l.count a + (L.stores o').count a := by
    intro a
    rw [stored_of_obj ho, hstores.count_eq, List.count_append]
  have hrefs : ∀ a, refs L (h.setObj p o') S (addRefs held l) a = refs L h S held a := by
    intro a
    have hset := refs_setObj L held hp hne o' a
    rw [hl] at hset
    simp only [refs, addRefs] at hset ⊢
    omega
  refine hb.transfer (Finset.Subset.refl S) (fun a _ => congrFun (h.count_setObj p o') a)
    (fun a _ => hrefs a) (fun q hq a ha => ?_) fun a ha => ?_
  · rw [rankAt_setObj ho hrank, rankAt_setObj ho hrank]
    apply hb.closed q hq a
    by_cases hqp : q = p
    · subst hqp
      rw [stored_of_obj (h.obj_setObj_self _ _ hne)] at ha
      rw [hl]
      omega
    · rwa [stored_congr (h.obj_setObj_of_ne p o' hqp)] at ha
  · have hzero : stored L h p a = 0 := by
      by_contra hne
      exact ha (hb.closed p hp a (Nat.pos_of_ne_zero hne)).1
    rw [hl] at hzero
    have := hb.outside a ha
    simp only [addRefs]
    omega

/-- **A new object** stores references that are held, and is held itself.

**Proof sketch.** The new object adds its own stored references `l` to the sum of all that is
stored, and they are no longer held; so the references to an old address stay as many. The new
address was stored nowhere and held by nobody, because it was not in `S`; its one reference is
the one now held. -/
lemma Balanced.alloc {l : List ℕ} (hb : Balanced L h S (addRefs held l)) {n : ℕ} (hn : n ∉ S)
    {o : O} (hstores : (L.stores o).Perm l) (hl : ∀ a ∈ l, rankAt L h a < L.rank o) :
    Balanced L (h.alloc n o) (insert n S) (addRefs held [n]) := by
  have hmem : ∀ a ∈ l, a ∈ S := fun a ha => hb.mem_of_addRefs ha
  have hheld : held n = 0 := by
    have := hb.outside n hn
    simp only [addRefs] at this
    omega
  have hnew : (h.alloc n o).obj n = some o := h.obj_alloc_self n o
  have hold : ∀ a ∈ S, (h.alloc n o).cells a = h.cells a :=
    fun a ha => h.cells_alloc_of_ne n o fun e => hn (e ▸ ha)
  have hsum : ∀ a, ∑ p ∈ insert n S, stored L (h.alloc n o) p a =
      l.count a + ∑ p ∈ S, stored L h p a := by
    intro a
    rw [Finset.sum_insert hn, stored_of_obj hnew, hstores.count_eq]
    congr 1
    exact Finset.sum_congr rfl fun p hp => stored_congr (Memory.obj_of_cells (hold p hp)) a
  have hrefs : ∀ a, a ≠ n → refs L (h.alloc n o) (insert n S) (addRefs held [n]) a =
      refs L h S (addRefs held l) a := by
    intro a ha
    simp only [refs, hsum, addRefs, List.count_cons, List.count_nil]
    have : ¬ n = a := fun e => ha e.symm
    simp only [beq_iff_eq, this, if_false]
    omega
  have hself : refs L (h.alloc n o) (insert n S) (addRefs held [n]) n = 1 := by
    have hln : l.count n = 0 := List.count_eq_zero_of_not_mem fun hm => hn (hmem n hm)
    have hno : ∑ p ∈ S, stored L h p n = 0 := by
      refine Finset.sum_eq_zero fun p hp => ?_
      by_contra hne
      exact hn (hb.closed p hp n (Nat.pos_of_ne_zero hne)).1
    simp only [refs, hsum, addRefs, hheld, hln, hno]
    simp
  have hranks : ∀ a ∈ S, rankAt L (h.alloc n o) a = rankAt L h a :=
    fun a ha => rankAt_congr (Memory.obj_of_cells (hold a ha))
  refine ⟨fun a ha => ?_, fun a ha => ?_, fun a ha => ?_, fun p hp a ha => ?_, fun a ha => ?_⟩
  · by_cases han : a = n
    · subst han
      rw [hself, Memory.count, h.cells_alloc_self]
      rfl
    · have haS := (Finset.mem_insert.mp ha).resolve_left han
      rw [hrefs a han, Memory.count_of_cells (hold a haS), hb.count a haS]
  · by_cases han : a = n
    · subst han
      rw [hself]
      exact Nat.one_pos
    · rw [hrefs a han]
      exact hb.pos a ((Finset.mem_insert.mp ha).resolve_left han)
  · by_cases han : a = n
    · subst han
      rw [hself]
      exact L.maxCount_pos
    · rw [hrefs a han]
      exact hb.le a ((Finset.mem_insert.mp ha).resolve_left han)
  · rcases Finset.mem_insert.mp hp with rfl | hp
    · rw [stored_of_obj hnew, hstores.count_eq, List.count_pos_iff] at ha
      refine ⟨Finset.mem_insert_of_mem (hmem a ha), ?_⟩
      have hrank : rankAt L (h.alloc p o) p = L.rank o := by
        rw [rankAt, hnew]
        rfl
      rw [hranks a (hmem a ha), hrank]
      exact hl a ha
    · rw [stored_congr (Memory.obj_of_cells (hold p hp))] at ha
      obtain ⟨hmem', hlt⟩ := hb.closed p hp a ha
      exact ⟨Finset.mem_insert_of_mem hmem', by rwa [hranks a hmem', hranks p hp]⟩
  · rw [Finset.mem_insert, not_or] at ha
    have := hb.outside a ha.2
    have hna : ¬ n = a := fun e => ha.1 e.symm
    simp only [addRefs, List.count_cons, List.count_nil, beq_iff_eq, hna, if_false] at this ⊢
    omega

/-! ## Letting references go -/

/-- Nothing is released. -/
lemma Shrinks.refl (h : Memory O) (S : Finset ℕ) : Shrinks h S h S where
  sub := Finset.Subset.refl S
  kept _ _ := rfl
  gone _ ha hna := absurd ha hna
  frame _ _ := rfl
  freed := ⟨[], by simp, List.nodup_nil, by simp⟩

/-- Releases follow each other.

**Proof sketch.** The lists of the released are joined. They share no address: what the second
part released was still among `S'`, and what the first part released was not. -/
lemma Shrinks.trans {h'' : Memory O} {S'' : Finset ℕ} (h₁ : Shrinks h S h' S')
    (h₂ : Shrinks h' S' h'' S'') : Shrinks h S h'' S'' where
  sub := h₂.sub.trans h₁.sub
  kept a ha := (h₂.kept a ha).trans (h₁.kept a (h₂.sub ha))
  gone a ha hna := by
    by_cases hmem : a ∈ S'
    · exact h₂.gone a hmem hna
    · rw [h₂.frame a hmem]
      exact h₁.gone a ha hmem
  frame a ha := by
    rw [h₂.frame a fun hmem => ha (h₁.sub hmem), h₁.frame a ha]
  freed := by
    obtain ⟨l₁, hl₁, hnd₁, hmem₁⟩ := h₁.freed
    obtain ⟨l₂, hl₂, hnd₂, hmem₂⟩ := h₂.freed
    refine ⟨l₁ ++ l₂, by rw [hl₂, hl₁, List.append_assoc], ?_, fun a => ?_⟩
    · refine List.nodup_append.mpr ⟨hnd₁, hnd₂, ?_⟩
      rintro a ha b hb rfl
      exact ((hmem₁ a).mp ha).2 ((hmem₂ a).mp hb).1
    · have hsub₁ := @h₁.sub a
      have hsub₂ := @h₂.sub a
      rw [List.mem_append, hmem₁, hmem₂]
      tauto

/-- An object outside changes. -/
lemma Shrinks.setObj (hs : Shrinks h S h' S') {p : ℕ} (hp : p ∉ S) (o : O) :
    Shrinks (h.setObj p o) S (h'.setObj p o) S' := by
  have hk : ∀ {a}, a ∈ S → ∀ h : Memory O, (h.setObj p o).cells a = h.cells a :=
    fun ha h => h.cells_setObj_of_ne p o fun e => hp (e ▸ ha)
  refine ⟨hs.sub, fun a ha => ?_, fun a ha hna => ?_, fun a ha => ?_, hs.freed⟩
  · rw [Memory.obj_of_cells (hk (hs.sub ha) h'), hs.kept a ha,
      Memory.obj_of_cells (hk (hs.sub ha) h)]
  · rw [hk ha]
    exact hs.gone a ha hna
  · by_cases hap : a = p
    · subst hap
      simp only [Memory.setObj, Function.update_self, hs.frame a ha]
    · rw [h'.cells_setObj_of_ne p o hap, h.cells_setObj_of_ne p o hap, hs.frame a ha]

/-- The same among more objects.

**Proof sketch.** The added objects are outside `S`, so the frame of the releases covers them;
the list of the released is the same. -/
lemma Shrinks.extend {T : Finset ℕ} (hs : Shrinks h S h' S') (hsub : S ⊆ T) :
    Shrinks h T h' (S' ∪ T \ S) := by
  refine ⟨Finset.union_subset (hs.sub.trans hsub) Finset.sdiff_subset, fun a ha => ?_,
    fun a ha hna => ?_, fun a ha => hs.frame a fun haS => ha (hsub haS), ?_⟩
  · rcases Finset.mem_union.mp ha with ha | ha
    · exact hs.kept a ha
    · exact Memory.obj_of_cells (hs.frame a (Finset.mem_sdiff.mp ha).2)
  · rw [Finset.mem_union, not_or, Finset.mem_sdiff, not_and_not_right] at hna
    exact hs.gone a (hna.2 ha) hna.1
  · obtain ⟨l, hl, hnd, hmem⟩ := hs.freed
    refine ⟨l, hl, hnd, fun a => ?_⟩
    rw [hmem, Finset.mem_union, Finset.mem_sdiff]
    have hsubl := @hsub a
    tauto

/-- An object is released after what it stored.

**Proof sketch.** `b` is not among the objects of the inner releases, so it is not in their
list; it is put behind it. An address other than `b` is handled by the inner releases. -/
lemma Shrinks.free {b : ℕ} {n : ℤ} (hs : Shrinks (h.setCount b n) (S.erase b) h' S') (hbS : b ∈ S) :
    Shrinks h S (h'.free b) S' := by
  have hbS' : b ∉ S' := fun hmem => Finset.notMem_erase b S (hs.sub hmem)
  refine ⟨hs.sub.trans (Finset.erase_subset b S), fun a ha => ?_, fun a ha hna => ?_,
    fun a ha => ?_, ?_⟩
  · rw [Memory.obj_of_cells (h'.cells_free_of_ne b fun e => hbS' (e ▸ ha)), hs.kept a ha,
      h.obj_setCount]
  · by_cases hab : a = b
    · subst hab
      exact h'.cells_free_self a
    · rw [h'.cells_free_of_ne b hab]
      exact hs.gone a (Finset.mem_erase.mpr ⟨hab, ha⟩) hna
  · have hab : a ≠ b := fun e => ha (e ▸ hbS)
    rw [h'.cells_free_of_ne b hab, hs.frame a fun hmem => ha (Finset.mem_of_mem_erase hmem),
      h.cells_setCount_of_ne b _ hab]
  · obtain ⟨l, hl, hnd, hmem⟩ := hs.freed
    refine ⟨l ++ [b], ?_, ?_, fun a => ?_⟩
    · show h'.freed ++ [b] = _
      rw [hl, List.append_assoc]
      rfl
    · refine List.nodup_append.mpr ⟨hnd, by simp, ?_⟩
      rintro a ha b' hb' rfl
      obtain rfl : a = b := by simpa using hb'
      exact Finset.notMem_erase a S ((hmem a).mp ha).1
    · rw [List.mem_append, hmem, Finset.mem_erase, List.mem_singleton]
      by_cases hab : a = b
      · subst hab
        simp [hbS, hbS']
      · simp [hab]

/-- A reference that is not the last one.

**Proof sketch.** The objects stay, so what is stored stays, and one held reference to `b` is
gone: `refs` goes down by one at `b` and nowhere else, exactly as the counts do. It stays
positive at `b` because it was not one. -/
lemma Balanced.letOne {b : ℕ} (hb : Balanced L h S (addRefs held [b]))
    (hmore : refs L h S (addRefs held [b]) b ≠ 1) :
    Balanced L (h.setCount b (refs L h S (addRefs held [b]) b - 1 : ℤ)) S held := by
  have hbS : b ∈ S := hb.mem_of_held (by simp [addRefs])
  have hrefs : ∀ a, refs L (h.setCount b (refs L h S (addRefs held [b]) b - 1 : ℤ)) S held a +
      [b].count a = refs L h S (addRefs held [b]) a := by
    intro a
    simp only [refs, stored, Memory.obj_setCount, addRefs]
    omega
  have hpos := hb.pos b hbS
  refine ⟨fun a ha => ?_, fun a ha => ?_, fun a ha => ?_, fun p hp a ha => ?_, fun a ha => ?_⟩
  · have hr := hrefs a
    by_cases hab : a = b
    · subst hab
      rw [Memory.count_setCount_self _ _ _ (hb.obj_ne_none ha)]
      simp only [List.count_cons_self, List.count_nil] at hr
      congr 1
      omega
    · rw [Memory.count_setCount_of_ne _ _ _ hab, hb.count a ha]
      have hba : b ≠ a := fun e => hab e.symm
      rw [List.count_cons_of_ne hba, List.count_nil] at hr
      congr 2
      omega
  · have hr := hrefs a
    have hp := hb.pos a ha
    by_cases hab : a = b
    · subst hab
      simp only [List.count_cons_self, List.count_nil] at hr
      omega
    · have hba : b ≠ a := fun e => hab e.symm
      rw [List.count_cons_of_ne hba, List.count_nil] at hr
      omega
  · have := hb.le a ha
    have hr := hrefs a
    omega
  · simp only [stored, rankAt, Memory.obj_setCount] at ha ⊢
    exact hb.closed p hp a ha
  · have := hb.outside a ha
    simp only [addRefs] at this
    omega

/-- The last reference is neither held by others nor stored. -/
lemma Balanced.last {b : ℕ} (hone : refs L h S (addRefs held [b]) b = 1) :
    held b = 0 ∧ ∀ p ∈ S, stored L h p b = 0 := by
  simp only [refs, addRefs, List.count_cons_self, List.count_nil] at hone
  have hsum : ∑ p ∈ S, stored L h p b = 0 := by omega
  exact ⟨by omega, fun p hp => Finset.sum_eq_zero_iff.mp hsum p hp⟩

/-- When the last reference is let go, what the object stores is under way.

**Proof sketch.** `refs` at `b` is one and it is the reference under way, so `b` is held by
nobody else and stored nowhere (`Balanced.last`). Taking `b` out of the sum of what is stored
gives back what it stores, which is now counted as held; `refs` of every other address is the
same. -/
lemma Balanced.die {b : ℕ} {o : O} (hb : Balanced L h S (addRefs held [b]))
    (hone : refs L h S (addRefs held [b]) b = 1) (ho : h.obj b = some o) (n : ℤ) :
    Balanced L (h.setCount b n) (S.erase b) (addRefs held (L.stores o)) := by
  have hbS : b ∈ S := hb.mem_of_held (by simp [addRefs])
  obtain ⟨hheld, hstored⟩ := Balanced.last hone
  have hsum : ∀ a, ∑ p ∈ S.erase b, stored L (h.setCount b n) p a + (L.stores o).count a =
      ∑ p ∈ S, stored L h p a := by
    intro a
    rw [← Finset.add_sum_erase S (fun p => stored L h p a) hbS, stored_of_obj ho]
    simp only [stored, Memory.obj_setCount]
    omega
  have hrefs : ∀ a, a ≠ b → refs L (h.setCount b n) (S.erase b) (addRefs held (L.stores o)) a =
      refs L h S (addRefs held [b]) a := by
    intro a ha
    have hba : b ≠ a := fun e => ha e.symm
    simp only [refs, addRefs, ← hsum a, List.count_cons_of_ne hba, List.count_nil]
    omega
  refine hb.transfer (Finset.erase_subset b S)
    (fun a ha => h.count_setCount_of_ne b n (Finset.ne_of_mem_erase ha))
    (fun a ha => hrefs a (Finset.ne_of_mem_erase ha)) (fun p hp a ha => ?_) fun a ha => ?_
  · simp only [stored, rankAt, Memory.obj_setCount] at ha ⊢
    have hpS := Finset.mem_of_mem_erase hp
    obtain ⟨hmem, hrank⟩ := hb.closed p hpS a ha
    refine ⟨Finset.mem_erase.mpr ⟨?_, hmem⟩, hrank⟩
    rintro rfl
    have hzero := hstored p hpS
    rw [stored] at hzero
    omega
  · by_cases hab : a = b
    · subst hab
      have hzero := hstored a hbS
      rw [stored_of_obj ho] at hzero
      rw [addRefs, hheld, hzero]
    · have haS : a ∉ S := fun hmem => ha (Finset.mem_erase.mpr ⟨hab, hmem⟩)
      have hout := hb.outside a haS
      have hzero : (L.stores o).count a = 0 := by
        by_contra hne
        exact haS (hb.closed b hbS a (by rw [stored_of_obj ho]; omega)).1
      simp only [addRefs] at hout ⊢
      omega

/-- The destructors of all objects that are not reached any more are sound. -/
def Safe (L : Layout O) (h : Memory O) (S : Finset ℕ) (held : ℕ → ℕ) : Prop :=
  ∀ a ∈ S, ∀ o, h.obj a = some o → ¬ Reaches L h held a → L.Sound o

/-- What is reached from fewer held references is reached from more. -/
lemma Reaches.mono {held' : ℕ → ℕ} (hle : ∀ a, held a ≤ held' a) {a : ℕ}
    (ha : Reaches L h held a) : Reaches L h held' a := by
  induction ha with
  | held hheld => exact .held (hheld.trans_le (hle _))
  | stored _ hstored ih => exact ih.stored hstored

/-- What is reached through objects that stay the same is reached afterwards. -/
lemma Reaches.congr {held' : ℕ → ℕ} (hb : Balanced L h S held') (hle : ∀ a, held a ≤ held' a)
    (hobj : ∀ a ∈ S, h'.obj a = h.obj a) {a : ℕ} (ha : Reaches L h held a) :
    Reaches L h' held a := by
  induction ha with
  | held hheld => exact .held hheld
  | stored hp hstored ih =>
    have hmem := hb.mem_of_reaches (hp.mono hle)
    exact ih.stored (by rwa [stored_congr (hobj _ hmem)])

/-- What is reached from references that stay is reached afterwards. -/
lemma Reaches.shrinks {held' : ℕ → ℕ} (hs : Shrinks h S h' S') (hb : Balanced L h' S' held')
    (hle : ∀ a, held a ≤ held' a) {a : ℕ} (ha : Reaches L h held a) : Reaches L h' held a := by
  suffices hmem : Reaches L h' held a ∧ a ∈ S' from hmem.1
  induction ha with
  | held hheld => exact ⟨.held hheld, hb.mem_of_held (hheld.trans_le (hle _))⟩
  | stored _ hstored ih =>
    rw [← stored_congr (hs.kept _ ih.2)] at hstored
    exact ⟨ih.1.stored hstored, (hb.closed _ ih.2 _ hstored).1⟩

/-- What letting references go leaves. -/
structure LetsGo (L : Layout O) (h : Memory O) (S : Finset ℕ) (held : ℕ → ℕ) (l : List ℕ)
    (h' : Memory O) (S' : Finset ℕ) : Prop where
  balanced : Balanced L h' S' held
  shrinks : Shrinks h S h' S'
  below : ∀ a ∈ S, a ∉ S' → a ∈ l ∨ ∃ b ∈ l, rankAt L h a < rankAt L h b

/-- What is reached otherwise stays. -/
lemma LetsGo.mem_of_reaches {l : List ℕ} (hgo : LetsGo L h S held l h' S') {a : ℕ}
    (ha : Reaches L h held a) : a ∈ S' :=
  hgo.balanced.mem_of_reaches (ha.shrinks hgo.shrinks hgo.balanced fun _ => le_rfl)

/-- Another object stays when its rank is not below those that are let go. -/
lemma LetsGo.mem_of_rank {l : List ℕ} (hgo : LetsGo L h S held l h' S') {a : ℕ} (ha : a ∈ S)
    (hal : a ∉ l) (hrank : ∀ b ∈ l, rankAt L h b ≤ rankAt L h a) : a ∈ S' := by
  by_contra hna
  rcases hgo.below a ha hna with hmem | ⟨b, hbl, hlt⟩
  · exact hal hmem
  · have := hrank b hbl
    omega

/-- **References are let go** one after the other, when a single one can be.

**Proof sketch.** Induction on the list. The first reference is let go while the others are
still held, so what they reach stays safe; the induction hypothesis takes the rest in the memory
left, where ranks and reachability of what stays are the old ones (`rankAt_congr`,
`Reaches.shrinks`). An object that is gone went in the first call or in a later one, and lies
below a reference of the list in either case. -/
lemma unrefAll_of_unref {depth : ℕ}
    (hone : ∀ {h : Memory O} {S : Finset ℕ} {held : ℕ → ℕ} {b : ℕ},
      Balanced L h S (addRefs held [b]) → rankAt L h b < depth → Safe L h S held →
      ∃ h' S', unref L depth h b = some h' ∧ LetsGo L h S held [b] h' S')
    (l : List ℕ) {h : Memory O} {S : Finset ℕ} {held : ℕ → ℕ}
    (hb : Balanced L h S (addRefs held l)) (hl : ∀ b ∈ l, rankAt L h b < depth)
    (hsafe : Safe L h S held) :
    ∃ h' S', unrefAll L depth h l = some h' ∧ LetsGo L h S held l h' S' := by
  induction l generalizing h S with
  | nil => exact ⟨h, S, rfl, hb, Shrinks.refl h S, fun a ha hna => absurd ha hna⟩
  | cons b l ih =>
    rw [addRefs_cons] at hb
    have hsafe₁ : Safe L h S (addRefs held l) := by
      intro a ha o ho hreach
      exact hsafe a ha o ho fun hr => hreach (hr.mono fun a => Nat.le_add_right _ _)
    obtain ⟨h₁, S₁, hunref, hgo₁⟩ := hone hb (hl b (by simp)) hsafe₁
    obtain ⟨hb₁, hs₁, hbelow₁⟩ := hgo₁
    have hrest : ∀ c ∈ l, c ∈ S₁ := fun c hc => hb₁.mem_of_addRefs hc
    have hl₁ : ∀ c ∈ l, rankAt L h₁ c < depth := by
      intro c hc
      rw [rankAt_congr (hs₁.kept c (hrest c hc))]
      exact hl c (List.mem_cons_of_mem _ hc)
    have hsafe₂ : Safe L h₁ S₁ held := by
      intro a ha o ho hreach
      rw [hs₁.kept a ha] at ho
      refine hsafe a (hs₁.sub ha) o ho fun hr => hreach ?_
      exact hr.shrinks hs₁ hb₁ fun a => Nat.le_add_right _ _
    obtain ⟨h₂, S₂, hall, hb₂, hs₂, hbelow₂⟩ := ih hb₁ hl₁ hsafe₂
    refine ⟨h₂, S₂, ?_, hb₂, hs₁.trans hs₂, fun a ha hna => ?_⟩
    · rw [unrefAll, List.foldlM_cons, hunref]
      exact hall
    · by_cases hmem : a ∈ S₁
      · rcases hbelow₂ a hmem hna with hal | ⟨c, hc, hlt⟩
        · exact Or.inl (List.mem_cons_of_mem _ hal)
        · rw [rankAt_congr (hs₁.kept a hmem), rankAt_congr (hs₁.kept c (hrest c hc))] at hlt
          exact Or.inr ⟨c, List.mem_cons_of_mem _ hc, hlt⟩
      · rcases hbelow₁ a ha hmem with hab | ⟨c, hc, hlt⟩
        · exact Or.inl (by simp [List.mem_singleton.mp hab])
        · exact Or.inr ⟨c, by simp [List.mem_singleton.mp hc], hlt⟩

/-- **A reference is let go.** The object stays unless this was its last reference.

**Proof sketch.** Induction on the depth. At the last reference the object leaves the set of the
objects that are accounted for, and its own references are under way; its destructor lets them go,
one level deeper, and does not come back to the object, since nothing stores it. -/
lemma unref_spec (depth : ℕ) {h : Memory O} {S : Finset ℕ} {held : ℕ → ℕ} {b : ℕ}
    (hb : Balanced L h S (addRefs held [b])) (hdepth : rankAt L h b < depth)
    (hsafe : Safe L h S held) :
    ∃ h' S', unref L depth h b = some h' ∧ LetsGo L h S held [b] h' S' := by
  induction depth generalizing h S held b with
  | zero => omega
  | succ depth ih =>
    have hbS : b ∈ S := hb.mem_of_held (by simp [addRefs])
    obtain ⟨c, hc⟩ := Memory.exists_cell (hb.obj_ne_none hbS)
    have ho : h.obj b = some c.obj := by rw [Memory.obj, hc]; rfl
    have hcount : c.count = refs L h S (addRefs held [b]) b := by
      have := hb.count b hbS
      rw [Memory.count, hc] at this
      exact Option.some.inj this
    rw [unref, hc, Option.bind_some]
    by_cases hone : refs L h S (addRefs held [b]) b = 1
    · have hzero : c.count - 1 = 0 := by rw [hcount, hone]; rfl
      obtain ⟨hheld, hstored⟩ := Balanced.last hone
      -- nothing reaches the object any more, so its destructor is sound
      have hunreached : ¬ Reaches L h held b := by
        rintro (hr | ⟨hr, hst⟩)
        · omega
        · rename_i p
          have hp : p ∈ S := hb.mem_of_reaches (hr.mono fun a => Nat.le_add_right _ _)
          have := hstored p hp
          omega
      obtain ⟨l, hrel, hperm⟩ := hsafe b hbS c.obj ho hunreached
      have hdie := hb.die hone ho (c.count - 1)
      rw [← addRefs_perm hperm] at hdie
      have hlow : ∀ a ∈ l, rankAt L h a < rankAt L h b := by
        intro a ha
        have hpos : 0 < stored L h b a := by
          rw [stored_of_obj ho, ← hperm.count_eq]
          exact List.count_pos_iff.mpr ha
        exact (hb.closed b hbS a hpos).2
      have hranks : ∀ a ∈ l, rankAt L (h.setCount b (c.count - 1)) a < depth := by
        intro a ha
        rw [rankAt_congr (congrFun (h.obj_setCount b _) a)]
        have := hlow a ha
        omega
      have hsafe' : Safe L (h.setCount b (c.count - 1)) (S.erase b) held := by
        intro a ha o ho' hreach
        rw [h.obj_setCount] at ho'
        refine hsafe a (Finset.mem_of_mem_erase ha) o ho' fun hr => hreach ?_
        exact hr.congr hb (fun a => Nat.le_add_right _ _) fun a _ => congrFun (h.obj_setCount b _) a
      obtain ⟨h₂, S₂, hall, hb₂, hs₂, hbelow₂⟩ := unrefAll_of_unref ih l hdie hranks hsafe'
      have hbS₂ : b ∉ S₂ := fun hmem => Finset.notMem_erase b S (hs₂.sub hmem)
      rw [unrefAll] at hall
      refine ⟨h₂.free b, S₂, ?_, ?_, ?_, ?_⟩
      · rw [if_pos hzero, hrel, Option.bind_some, hall]
        rfl
      · exact hb₂.congr
          (fun a ha => Memory.obj_of_cells (h₂.cells_free_of_ne b fun e => hbS₂ (e ▸ ha)))
          (fun a ha => Memory.count_of_cells (h₂.cells_free_of_ne b fun e => hbS₂ (e ▸ ha)))
      · exact hs₂.free hbS
      · intro a ha hna
        by_cases hab : a = b
        · exact Or.inl (by simp [hab])
        · refine Or.inr ⟨b, by simp, ?_⟩
          rcases hbelow₂ a (Finset.mem_erase.mpr ⟨hab, ha⟩) hna with hal | ⟨x, hx, hlt⟩
          · exact hlow a hal
          · rw [rankAt_congr (congrFun (h.obj_setCount b _) a),
              rankAt_congr (congrFun (h.obj_setCount b _) x)] at hlt
            exact hlt.trans (hlow x hx)
    · have hnz : ¬ c.count - 1 = 0 := by rw [hcount]; omega
      rw [hcount] at hnz ⊢
      refine ⟨_, S, if_neg hnz, hb.letOne hone, ?_, fun a ha hna => absurd ha hna⟩
      refine ⟨Finset.Subset.refl S, fun a _ => congrFun (h.obj_setCount b _) a,
        fun a ha hna => absurd ha hna, fun a ha => ?_, [], by simp [Memory.setCount],
        List.nodup_nil, by simp⟩
      exact h.cells_setCount_of_ne b _ fun e => ha (e ▸ hbS)

/-- **References are let go** one after the other. -/
lemma unrefAll_spec (depth : ℕ) (l : List ℕ) (hb : Balanced L h S (addRefs held l))
    (hl : ∀ b ∈ l, rankAt L h b < depth) (hsafe : Safe L h S held) :
    ∃ h' S', unrefAll L depth h l = some h' ∧ LetsGo L h S held l h' S' :=
  unrefAll_of_unref (unref_spec depth) l hb hl hsafe

/-! ## An object lets go -/

section LetGo

variable (L) (h) (S) (held) in
/-- The objects of a rank below `r`. -/
def lower (r : ℕ) : Finset ℕ := S.filter fun a => rankAt L h a < r

variable (L) (h) (S) (held) in
/-- The references to the objects below `r` that are held or stored by the others. -/
def outer (r : ℕ) (a : ℕ) : ℕ :=
  if a ∈ lower L h S r then held a + ∑ p ∈ S \ lower L h S r, stored L h p a else 0

/-- The objects of smaller rank. -/
lemma mem_lower {r a : ℕ} : a ∈ lower L h S r ↔ a ∈ S ∧ rankAt L h a < r := Finset.mem_filter

/-- The objects of smaller rank are among all. -/
lemma lower_subset (r : ℕ) : lower L h S r ⊆ S := Finset.filter_subset _ _

/-- The objects below a rank store each other only, and are accounted for by themselves. -/
lemma Balanced.lower (hb : Balanced L h S held) (r : ℕ) :
    Balanced L h (lower L h S r) (outer L h S held r) := by
  have hrefs : ∀ a ∈ RefCount.lower L h S r,
      refs L h (RefCount.lower L h S r) (outer L h S held r) a = refs L h S held a := by
    intro a ha
    have hsplit := Finset.sum_sdiff (f := fun p => stored L h p a) (lower_subset (L := L) (h := h)
      (S := S) r)
    simp only [refs, outer, if_pos ha, ← hsplit]
    omega
  refine hb.transfer (lower_subset r) (fun _ _ => rfl) hrefs (fun p hp a ha => ?_)
    fun a ha => if_neg ha
  obtain ⟨hmem, hrank⟩ := hb.closed p (lower_subset r hp) a ha
  exact ⟨mem_lower.mpr ⟨hmem, hrank.trans (mem_lower.mp hp).2⟩, hrank⟩

/-- When the objects below a rank have let references go, all are balanced again.

**Proof sketch.** The objects below the rank and those above it form two disjoint parts. An
object below stores only below, so it adds nothing to the references of an object above, and for
an object below the references from above are the ones `outer` counts as held. Hence `refs` over
the union is `refs` of the part the object is in, and both parts are balanced. -/
lemma Balanced.merge {l : List ℕ} {r : ℕ} {low : Finset ℕ} (hb : Balanced L h S (addRefs held l))
    (hl : ∀ a ∈ l, rankAt L h a < r) (hlow : Balanced L h' low (outer L h S held r))
    (hs : Shrinks h (RefCount.lower L h S r) h' low) :
    Balanced L h' (low ∪ S \ RefCount.lower L h S r) held := by
  have hdisj : Disjoint low (S \ RefCount.lower L h S r) :=
    Finset.disjoint_of_subset_left hs.sub Finset.disjoint_sdiff
  have hhigh : ∀ p ∈ S \ RefCount.lower L h S r, h'.cells p = h.cells p :=
    fun p hp => hs.frame p (Finset.mem_sdiff.mp hp).2
  have hhighSum : ∀ a, ∑ p ∈ S \ RefCount.lower L h S r, stored L h' p a =
      ∑ p ∈ S \ RefCount.lower L h S r, stored L h p a :=
    fun a => Finset.sum_congr rfl fun p hp => stored_congr (Memory.obj_of_cells (hhigh p hp)) a
  have hranks : ∀ a ∈ low ∪ S \ RefCount.lower L h S r, rankAt L h' a = rankAt L h a := by
    intro a ha
    rcases Finset.mem_union.mp ha with ha | ha
    · exact rankAt_congr (hs.kept a ha)
    · exact rankAt_congr (Memory.obj_of_cells (hhigh a ha))
  -- the others are stored by the others only
  have hnot : ∀ a ∈ S \ RefCount.lower L h S r, ∀ p ∈ RefCount.lower L h S r,
      stored L h p a = 0 := by
    intro a ha p hp
    by_contra hne
    obtain ⟨hmem, hrank⟩ := hb.closed p (lower_subset r hp) a (Nat.pos_of_ne_zero hne)
    exact (Finset.mem_sdiff.mp ha).2
      (mem_lower.mpr ⟨hmem, hrank.trans (mem_lower.mp hp).2⟩)
  have hrefsLow : ∀ a ∈ low, refs L h' (low ∪ S \ RefCount.lower L h S r) held a =
      refs L h' low (outer L h S held r) a := by
    intro a ha
    simp only [refs, outer, if_pos (hs.sub ha)]
    rw [Finset.sum_union hdisj, hhighSum]
    omega
  have hrefsHigh : ∀ a ∈ S \ RefCount.lower L h S r,
      refs L h' (low ∪ S \ RefCount.lower L h S r) held a = refs L h S (addRefs held l) a := by
    intro a ha
    have hal : l.count a = 0 := by
      apply List.count_eq_zero_of_not_mem
      intro hmem
      exact (Finset.mem_sdiff.mp ha).2 (mem_lower.mpr ⟨(Finset.mem_sdiff.mp ha).1, hl a hmem⟩)
    have hzero : ∑ p ∈ low, stored L h' p a = 0 := by
      refine Finset.sum_eq_zero fun p hp => ?_
      rw [stored_congr (hs.kept p hp)]
      exact hnot a ha p (hs.sub hp)
    have hzero' : ∑ p ∈ RefCount.lower L h S r, stored L h p a = 0 :=
      Finset.sum_eq_zero (hnot a ha)
    have hsplit := Finset.sum_sdiff (f := fun p => stored L h p a) (lower_subset (L := L) (h := h)
      (S := S) r)
    simp only [refs, addRefs, hal]
    rw [Finset.sum_union hdisj, hhighSum]
    omega
  refine ⟨fun a ha => ?_, fun a ha => ?_, fun a ha => ?_, fun p hp a ha => ?_, fun a ha => ?_⟩
  · rcases Finset.mem_union.mp ha with ha | ha
    · rw [hrefsLow a ha]
      exact hlow.count a ha
    · rw [hrefsHigh a ha, Memory.count_of_cells (hhigh a ha)]
      exact hb.count a (Finset.mem_sdiff.mp ha).1
  · rcases Finset.mem_union.mp ha with ha | ha
    · rw [hrefsLow a ha]
      exact hlow.pos a ha
    · rw [hrefsHigh a ha]
      exact hb.pos a (Finset.mem_sdiff.mp ha).1
  · rcases Finset.mem_union.mp ha with ha | ha
    · rw [hrefsLow a ha]
      exact hlow.le a ha
    · rw [hrefsHigh a ha]
      exact hb.le a (Finset.mem_sdiff.mp ha).1
  · have hstay : a ∈ low ∪ S \ RefCount.lower L h S r ∧ rankAt L h a < rankAt L h p := by
      rcases Finset.mem_union.mp hp with hpl | hph
      · rw [stored_congr (hs.kept p hpl)] at ha
        refine ⟨Finset.mem_union_left _ (hlow.closed p hpl a ?_).1,
          (hb.closed p (lower_subset r (hs.sub hpl)) a ha).2⟩
        rwa [stored_congr (hs.kept p hpl)]
      · rw [stored_congr (Memory.obj_of_cells (hhigh p hph))] at ha
        obtain ⟨hmem, hrank⟩ := hb.closed p (Finset.mem_sdiff.mp hph).1 a ha
        refine ⟨?_, hrank⟩
        by_cases hal : a ∈ RefCount.lower L h S r
        · apply Finset.mem_union_left
          apply hlow.mem_of_held
          have hle := Finset.single_le_sum (f := fun p => stored L h p a)
            (fun p _ => Nat.zero_le _) hph
          simp only [outer, if_pos hal]
          omega
        · exact Finset.mem_union_right _ (Finset.mem_sdiff.mpr ⟨hmem, hal⟩)
    exact ⟨hstay.1, by rw [hranks a hstay.1, hranks p hp]; exact hstay.2⟩
  · rw [Finset.mem_union, not_or] at ha
    by_cases haS : a ∈ S
    · have hal : a ∈ RefCount.lower L h S r := by
        by_contra hal
        exact ha.2 (Finset.mem_sdiff.mpr ⟨haS, hal⟩)
      have hzero := hlow.outside a ha.1
      simp only [outer, if_pos hal] at hzero
      omega
    · have := hb.outside a haS
      simp only [addRefs] at this
      omega

/-- What is reached among the objects below a rank is reached from the references of the others.

**Proof sketch.** Induction on the way the object is reached. A held one is held in `outer` too.
One stored by an object below is reached by the induction hypothesis; one stored by an object
above is counted by `outer`. -/
lemma Reaches.lower {l : List ℕ} (hb : Balanced L h S (addRefs held l)) {r a : ℕ}
    (hr : Reaches L h held a) (ha : a ∈ lower L h S r) : Reaches L h (outer L h S held r) a := by
  induction hr with
  | held hheld =>
    apply Reaches.held
    simp only [outer, if_pos ha]
    omega
  | stored hp hstored ih =>
    rename_i p a
    by_cases hpl : p ∈ RefCount.lower L h S r
    · exact (ih hpl).stored hstored
    · have hpS := hb.mem_of_reaches (hp.mono fun a => Nat.le_add_right _ _)
      apply Reaches.held
      have hle := Finset.single_le_sum (f := fun p => RefCount.stored L h p a)
        (fun p _ => Nat.zero_le _) (Finset.mem_sdiff.mpr ⟨hpS, hpl⟩)
      simp only [outer, if_pos ha]
      omega

/-- **An object lets go** of references that it stores, before it forgets them.

**Proof sketch.** The objects of a lower rank are accounted for by themselves, with the references
of the object as references from outside. So the destructors run among them, and the object may as
well have forgotten the references before. -/
lemma letGo_spec (depth : ℕ) {p : ℕ} {o o' : O} {l : List ℕ} (hb : Balanced L h S held)
    (hp : p ∈ S) (ho : h.obj p = some o) (hstores : (L.stores o).Perm (l ++ L.stores o'))
    (hrank : L.rank o' = L.rank o) (hdepth : L.rank o ≤ depth)
    (hsafe : Safe L (h.setObj p o') S held) :
    ∃ h' S', unrefAll L depth h l = some h' ∧ h'.cells p = h.cells p ∧
      LetsGo L (h.setObj p o') S held l (h'.setObj p o') S' := by
  have hne : h.obj p ≠ none := by simp [ho]
  have hrankp : rankAt L h p = L.rank o := by rw [rankAt, ho]; rfl
  have hranks := rankAt_setObj (h := h) ho hrank
  obtain ⟨h₁, hh₁⟩ : ∃ h₁, h₁ = h.setObj p o' := ⟨_, rfl⟩
  rw [← hh₁] at hsafe hranks ⊢
  have hb₁ : Balanced L h₁ S (addRefs held l) := hh₁ ▸ hb.unstore hp ho hstores hrank
  have hcells : ∀ a, a ≠ p → h₁.cells a = h.cells a :=
    fun a ha => hh₁ ▸ h.cells_setObj_of_ne p o' ha
  have hll : ∀ a ∈ l, a ∈ S ∧ rankAt L h a < L.rank o := by
    intro a ha
    rw [← hrankp]
    apply hb.closed p hp
    rw [stored_of_obj ho, hstores.count_eq, List.count_append]
    have := List.count_pos_iff.mpr ha
    omega
  -- the objects below, with the references of the others
  obtain ⟨low, hlow⟩ : ∃ low, low = lower L h₁ S (L.rank o) := ⟨_, rfl⟩
  have hmem : ∀ a, a ∈ low ↔ a ∈ S ∧ rankAt L h a < L.rank o := by
    intro a
    rw [hlow, mem_lower, hranks]
  have hplow : p ∉ low := by
    rw [hmem, hrankp]
    omega
  have hstart : Balanced L h low (addRefs (outer L h₁ S held (L.rank o)) l) := by
    have hall := hb₁.lower (L.rank o)
    rw [← hlow] at hall
    have houter : outer L h₁ S (addRefs held l) (L.rank o) =
        addRefs (outer L h₁ S held (L.rank o)) l := by
      funext a
      by_cases ha : a ∈ lower L h₁ S (L.rank o)
      · simp only [outer, addRefs, if_pos ha]
        omega
      · have hal : a ∉ l := by
          intro hal
          rw [← hlow, hmem] at ha
          exact ha (hll a hal)
        simp only [outer, addRefs, if_neg ha, List.count_eq_zero_of_not_mem hal]
    rw [houter] at hall
    refine hall.congr (fun a ha => ?_) (fun a ha => ?_)
    · exact Memory.obj_of_cells (hcells a fun e => hplow (e ▸ ha)).symm
    · exact Memory.count_of_cells (hcells a fun e => hplow (e ▸ ha)).symm
  have hsafe' : Safe L h low (outer L h₁ S held (L.rank o)) := by
    intro a ha o₁ ho₁ hreach
    have hap : a ≠ p := fun e => hplow (e ▸ ha)
    refine hsafe a ((hmem a).mp ha).1 o₁ (by rw [Memory.obj_of_cells (hcells a hap), ho₁])
      fun hr => hreach ?_
    -- the path below does not pass the object
    have hlower := hr.lower hb₁ (hlow ▸ ha)
    refine hlower.congr (hb₁.lower (L.rank o)) (fun c => ?_) fun c hc => ?_
    · simp only [outer, addRefs]
      split_ifs <;> omega
    · exact Memory.obj_of_cells (hcells c fun e => hplow (e ▸ hlow ▸ hc)).symm
  obtain ⟨h', low', hall, hb', hs', hbelow'⟩ := unrefAll_spec depth l hstart
    (fun b hbl => (hll b hbl).2.trans_le hdepth) hsafe'
  have hplow' : p ∉ low' := fun hm => hplow (hs'.sub hm)
  have hs : Shrinks h₁ low (h'.setObj p o') low' := hh₁ ▸ hs'.setObj hplow o'
  have hk : ∀ a ∈ low', (h'.setObj p o').cells a = h'.cells a :=
    fun a ha => h'.cells_setObj_of_ne p o' fun e => hplow' (e ▸ ha)
  have hbk : Balanced L (h'.setObj p o') low' (outer L h₁ S held (L.rank o)) :=
    hb'.congr (fun a ha => Memory.obj_of_cells (hk a ha))
      fun a ha => Memory.count_of_cells (hk a ha)
  have hlowS : low ⊆ S := fun a ha => ((hmem a).mp ha).1
  have hmerge : Balanced L (h'.setObj p o') (low' ∪ S \ low) held := by
    rw [hlow] at hs ⊢
    exact hb₁.merge (fun a ha => by rw [hranks]; exact (hll a ha).2) hbk hs
  refine ⟨h', low' ∪ S \ low, hall, hs'.frame p hplow, hmerge, hs.extend hlowS, fun a ha hna => ?_⟩
  rw [Finset.mem_union, not_or, Finset.mem_sdiff, not_and_not_right] at hna
  rcases hbelow' a (hna.2 ha) hna.1 with hl' | ⟨b, hbl, hlt⟩
  · exact Or.inl hl'
  · exact Or.inr ⟨b, hbl, by rwa [hranks, hranks]⟩

end LetGo

end RefCount
