import Mathlib.Algebra.BigOperators.Group.Finset.Basic
import Mathlib.Data.Fintype.Basic
import Taningia.Lib.Machine
import Taningia.Lib.Malloc

set_option relaxedAutoImplicit false
set_option autoImplicit false

/-!
# Fields that own a copy

An object has fields, each a pointer to a block of its own or null. Setting a field gives its block
back and stores a copy of the argument. The argument may be a value of the caller, null, or the
pointer of a field of the object itself, as a getter returns it; a copy may be refused. The end of
the object gives the blocks of all fields back.

The pointer of the field that is set is dangling when the argument is copied.

## Main definitions

* `OwnedFields.Object`, `OwnedFields.set`, `OwnedFields.get`, `OwnedFields.destroy` — the object.
* `OwnedFields.setValue` — the fields as values.
* `OwnedFields.Holds` — the object has the values, in blocks of its own.

## Main results

* `OwnedFields.set_spec` — setting a field of an object sets its value, or both fail.
* `OwnedFields.Holds.destroyed` — nothing that the object owned is left.
-/

namespace OwnedFields

open Machine

variable {F S : Type*}

/-- The pointers in the fields, and the heap. -/
structure Object (F S : Type*) where
  heap : Malloc.Heap S
  fields : F → Option ℕ

/-- What a caller passes: a value, null, or what the getter of a field returned. -/
inductive Arg (F S : Type*) where
  | value (s : S)
  | null
  | own (f : F)

/-- A call that sets a field, with the answer of the allocator. -/
structure Call (F S : Type*) where
  field : F
  arg : Arg F S
  granted : Bool

/-- The object before anything is stored in it. -/
def Object.empty (F S : Type*) : Object F S := ⟨[], fun _ => none⟩

/-- A copy of the value behind a pointer, which may be null. -/
def load (h : Malloc.Heap S) : Option ℕ → Option (Option S)
  | none => some none
  | some p => (Malloc.read h p).map some

/-- The argument of a call, read behind the given pointers. -/
def Arg.load (h : Malloc.Heap S) (fields : F → Option ℕ) : Arg F S → Option (Option S)
  | .value s => some (some s)
  | .null => some none
  | .own f => OwnedFields.load h (fields f)

/-- A block for a copy; null when there is no memory. -/
def copy (h : Malloc.Heap S) (s : S) (granted : Bool) : Malloc.Heap S × Option ℕ :=
  if granted then ((Malloc.alloc h s).1, some h.length) else (h, none)

/-- Storing a copy in a field. Null can be stored in the fields that allow it. -/
def store [DecidableEq F] (nullable : F → Bool) (h : Malloc.Heap S) (fields : F → Option ℕ) (f : F)
    (granted : Bool) : Option S → Option (Object F S)
  | some s => some ⟨(copy h s granted).1, Function.update fields f (copy h s granted).2⟩
  | none => if nullable f then some ⟨h, Function.update fields f none⟩ else none

/-- Setting a field: the old block is given back first. -/
def set [DecidableEq F] (nullable : F → Bool) (w : Object F S) (c : Call F S) :
    Option (Object F S) :=
  (Malloc.releasePtr w.heap (w.fields c.field)).bind fun h =>
    (c.arg.load h w.fields).bind fun s => store nullable h w.fields c.field c.granted s

/-- What a getter returns, read through the pointer. -/
def get (w : Object F S) (f : F) : Option (Option S) := load w.heap (w.fields f)

/-- The end of the object: the blocks of the fields are given back in the given order. -/
def destroy (w : Object F S) (freed : List F) : Option (Malloc.Heap S) :=
  freed.foldlM (fun h f => Malloc.releasePtr h (w.fields f)) w.heap

/-! ## The values -/

/-- The argument of a call that sets the given field. What the getter of that field returned is gone
by then, if it was not null. -/
def Arg.valueFor [DecidableEq F] (v : F → Option S) (f : F) : Arg F S → Option (Option S)
  | .value s => some (some s)
  | .null => some none
  | .own g => if g = f ∧ (v g).isSome then none else some (v g)

def storeValue [DecidableEq F] (nullable : F → Bool) (v : F → Option S) (f : F) (granted : Bool) :
    Option S → Option (F → Option S)
  | some s => some (Function.update v f (if granted then some s else none))
  | none => if nullable f then some (Function.update v f none) else none

/-- Setting a value. -/
def setValue [DecidableEq F] (nullable : F → Bool) (v : F → Option S) (c : Call F S) :
    Option (F → Option S) :=
  (c.arg.valueFor v c.field).bind fun s => storeValue nullable v c.field c.granted s

/-- One field more is gone. -/
lemma update_gone [DecidableEq F] {B : Type*} (freed : List F) (f : F) (x : F → Option B) :
    Function.update (fun g => if g ∈ freed then none else x g) f none =
      fun g => if g ∈ freed ++ [f] then none else x g := by
  funext g
  by_cases hg : g = f
  · subst hg
    simp
  · simp [hg]

/-- What is left in another field was there before. -/
lemma eq_some_of_update [DecidableEq F] {B : Type*} {x : F → Option B} {f g : F} {b : B}
    (hg : Function.update x f none g = some b) : x g = some b := by
  by_cases hgf : g = f
  · subst hgf
    rw [Function.update_self] at hg
    cases hg
  · rwa [Function.update_of_ne hgf] at hg

/-- The object has the values, each in a block of its own, and `others` is in use besides. -/
structure Holds [Fintype F] (w : Object F S) (v : F → Option S) (others : Multiset S) : Prop where
  reads : ∀ f, Option.Rel (fun p s => Malloc.read w.heap p = some s) (w.fields f) (v f)
  apart : ∀ f g p, w.fields f = some p → w.fields g = some p → f = g
  inUse : Malloc.inUse w.heap = ∑ f, (v f).elim 0 (fun s => {s}) + others

variable [Fintype F] {w : Object F S} {v : F → Option S} {others : Multiset S}

/-- An object without blocks holds nothing. -/
lemma holds_empty : Holds (Object.empty F S) (fun _ => none) 0 where
  reads _ := .none
  apart _ _ _ h := by cases h
  inUse := by simp [Object.empty]

/-- A field shows its value. -/
lemma Holds.get_eq (h : Holds w v others) (f : F) : get w f = some (v f) := by
  have hf := h.reads f
  unfold get
  cases hp : w.fields f <;> cases hs : v f <;> rw [hp, hs] at hf
  · rfl
  · cases hf
  · cases hf
  · cases hf with
    | some hf => rw [load, hf, Option.map_some]

/-- A field without a value is null. -/
lemma Holds.fields_eq_none (h : Holds w v others) {f : F} (hf : v f = none) :
    w.fields f = none := by
  have hread := h.reads f
  rw [hf] at hread
  cases hp : w.fields f with
  | none => rfl
  | some p =>
    rw [hp] at hread
    cases hread

/-- A field that is null has no value. -/
lemma Holds.value_eq_none (h : Holds w v others) {f : F} (hf : w.fields f = none) :
    v f = none := by
  have hread := h.reads f
  rw [hf] at hread
  cases hs : v f with
  | none => rfl
  | some s =>
    rw [hs] at hread
    cases hread

/-- The pointer of a field leads to its value. -/
lemma Holds.exists_value (h : Holds w v others) {f : F} {p : ℕ} (hp : w.fields f = some p) :
    ∃ s, v f = some s ∧ Malloc.read w.heap p = some s := by
  have hread := h.reads f
  rw [hp] at hread
  cases hs : v f with
  | none =>
    rw [hs] at hread
    cases hread
  | some s =>
    rw [hs] at hread
    cases hread with
    | some hread => exact ⟨s, rfl, hread⟩

section Steps

variable [DecidableEq F] {nullable : F → Bool} {f : F}

/-- The sum over the fields, when one of them changes. -/
lemma sum_update (v : F → Option S) (f : F) (o : Option S) :
    ∑ g, (Function.update v f o g).elim 0 (fun s => ({s} : Multiset S)) +
        (v f).elim 0 (fun s => {s}) =
      ∑ g, (v g).elim 0 (fun s => {s}) + o.elim 0 (fun s => {s}) := by
  have hrest : ∑ g ∈ Finset.univ.erase f, (Function.update v f o g).elim 0
      (fun s => ({s} : Multiset S)) = ∑ g ∈ Finset.univ.erase f, (v g).elim 0 (fun s => {s}) :=
    Finset.sum_congr rfl fun g hg => by rw [Function.update_of_ne (Finset.ne_of_mem_erase hg)]
  rw [← Finset.add_sum_erase _ _ (Finset.mem_univ f),
    ← Finset.add_sum_erase (a := f) _ (fun g => (v g).elim 0 fun s => ({s} : Multiset S))
      (Finset.mem_univ f), hrest, Function.update_self]
  ac_rfl

/-- Giving the block of a field back, before something else is stored in it.

**Proof sketch.** A field that holds nothing has the null pointer. A block that is released is
the block of this field only, since the fields are apart, so the others read as before, and the
strings in use are one less. -/
lemma Holds.release (h : Holds w v others) (f : F) :
    ∃ heap, Malloc.releasePtr w.heap (w.fields f) = some heap ∧
      (∀ p, w.fields f = some p → Malloc.read heap p = none) ∧
      Holds ⟨heap, Function.update w.fields f none⟩ (Function.update v f none) others := by
  have hsum := sum_update v f none
  cases hp : w.fields f with
  | none =>
    have hs := h.value_eq_none hp
    refine ⟨w.heap, rfl, by simp, ?_⟩
    rw [Function.update_eq_self_iff.mpr hp.symm, Function.update_eq_self_iff.mpr hs.symm]
    exact h
  | some p =>
    obtain ⟨s, hs, hread⟩ := h.exists_value hp
    refine ⟨w.heap.set p none, Malloc.release_of_read hread, ?_, ?_, ?_, ?_⟩
    · intro q hq
      obtain rfl := Option.some.inj hq
      rw [Malloc.read_set hread, if_pos rfl]
    · intro g
      by_cases hg : g = f
      · subst hg
        simp only [Function.update_self]
        exact .none
      · simp only [Function.update_of_ne hg]
        cases hq : w.fields g with
        | none =>
          rw [h.value_eq_none hq]
          exact .none
        | some q =>
          obtain ⟨t, ht, hqt⟩ := h.exists_value hq
          have hne : q ≠ p := by
            rintro rfl
            exact hg (h.apart g f q hq hp)
          rw [ht]
          exact .some (by rw [Malloc.read_set hread, if_neg hne, hqt])
    · intro g g' q hq hq'
      exact h.apart g g' q (eq_some_of_update hq) (eq_some_of_update hq')
    · have hheap := Malloc.inUse_set hread none
      rw [h.inUse] at hheap
      rw [hs, Option.elim_some] at hsum
      simp only [Option.elim_none, add_zero] at hheap hsum
      refine add_right_cancel (b := {s}) ?_
      show Malloc.inUse (w.heap.set p none) + {s} = _
      rw [hheap, add_right_comm, hsum]

/-- The pointer of a field is lost, and its block stays in use.

**Proof sketch.** The heap stays; the string of the field is counted with the others now. -/
lemma Holds.forget (h : Holds w v others) (f : F) :
    Holds ⟨w.heap, Function.update w.fields f none⟩ (Function.update v f none)
      (others + (v f).elim 0 fun s => {s}) where
  reads g := by
    by_cases hg : g = f
    · subst hg
      simp only [Function.update_self]
      exact .none
    · simp only [Function.update_of_ne hg]
      exact h.reads g
  apart g g' p hp hp' := h.apart g g' p (eq_some_of_update hp) (eq_some_of_update hp')
  inUse := by
    have hsum := sum_update v f none
    rw [Option.elim_none, add_zero] at hsum
    show Malloc.inUse w.heap = _
    rw [h.inUse, ← hsum, add_right_comm, add_assoc]

/-- Storing a copy in a field that holds nothing.

**Proof sketch.** A refused copy stores the null pointer. A granted one is a block that was not
in use, so no field has it, and it reads as the string. -/
lemma Holds.copied (h : Holds w v others) {f : F} (hf : w.fields f = none) (s : S)
    (granted : Bool) :
    Holds ⟨(copy w.heap s granted).1, Function.update w.fields f (copy w.heap s granted).2⟩
      (Function.update v f (if granted then some s else none)) others := by
  have hv := h.value_eq_none hf
  cases granted with
  | false =>
    have hfields : Function.update w.fields f none = w.fields :=
      Function.update_eq_self_iff.mpr hf.symm
    have hvalues : Function.update v f none = v := Function.update_eq_self_iff.mpr hv.symm
    simp only [copy, Bool.false_eq_true, if_false, hfields, hvalues]
    exact h
  | true =>
    have hlt : ∀ g q, w.fields g = some q → q < w.heap.length := by
      intro g q hq
      obtain ⟨t, -, hread⟩ := h.exists_value hq
      exact Malloc.lt_of_read hread
    simp only [copy, if_true]
    refine ⟨fun g => ?_, fun g g' q hq hq' => ?_, ?_⟩
    · by_cases hg : g = f
      · subst hg
        simp only [Function.update_self]
        exact .some (by rw [Malloc.read_alloc, if_pos rfl])
      · simp only [Function.update_of_ne hg]
        cases hq : w.fields g with
        | none =>
          rw [h.value_eq_none hq]
          exact .none
        | some q =>
          obtain ⟨t, ht, hread⟩ := h.exists_value hq
          rw [ht]
          exact .some (by rw [Malloc.read_alloc, if_neg (ne_of_lt (hlt g _ hq)), hread])
    · by_cases hg : g = f <;> by_cases hg' : g' = f
      · rw [hg, hg']
      · subst hg
        simp only [Function.update_self] at hq
        simp only [Function.update_of_ne hg'] at hq'
        obtain rfl := Option.some.inj hq
        exact absurd (hlt g' _ hq') (lt_irrefl _)
      · subst hg'
        simp only [Function.update_self] at hq'
        simp only [Function.update_of_ne hg] at hq
        obtain rfl := Option.some.inj hq'
        exact absurd (hlt g _ hq) (lt_irrefl _)
      · simp only [Function.update_of_ne hg] at hq
        simp only [Function.update_of_ne hg'] at hq'
        exact h.apart g g' q hq hq'
    · have hsum := sum_update v f (some s)
      rw [hv, Option.elim_none, add_zero, Option.elim_some] at hsum
      rw [Malloc.inUse_alloc, h.inUse, hsum, add_right_comm]

/-- What the getter of a field returned, after the block of another field was given back.

**Proof sketch.** By cases on the field: the one released can be read no more where it had a
block, and the others read as before. -/
lemma Holds.load_own (h : Holds w v others) {f g : F} {heap : Malloc.Heap S}
    (hrelease : Malloc.releasePtr w.heap (w.fields f) = some heap)
    (hgone : ∀ p, w.fields f = some p → Malloc.read heap p = none)
    (hheld : Holds ⟨heap, Function.update w.fields f none⟩ (Function.update v f none) others) :
    load heap (w.fields g) = if g = f ∧ (v g).isSome then none else some (v g) := by
  by_cases hg : g = f
  · subst hg
    have hread := h.reads g
    cases hp : w.fields g <;> cases hs : v g <;> rw [hp, hs] at hread
    · simp [load]
    · cases hread
    · cases hread
    · simp [load, hgone _ hp]
  · have hget := hheld.get_eq g
    simp only [get, Function.update_of_ne hg] at hget
    rw [hget, if_neg fun hboth => hg hboth.1]

/-- Storing a string in a field that was emptied does to the object what it does to the values.

**Proof sketch.** By cases on the string: no string is refused or stored as it is, and a string
is `Holds.copied`. -/
lemma Holds.store_spec (h : Holds ⟨w.heap, Function.update w.fields f none⟩
    (Function.update v f none) others) (granted : Bool) (s : Option S) :
    Option.Rel (fun w' v' => Holds w' v' others) (store nullable w.heap w.fields f granted s)
      (storeValue nullable v f granted s) := by
  cases s with
  | none =>
    rw [store, storeValue]
    cases nullable f with
    | false => exact .none
    | true => exact .some h
  | some s =>
    refine .some ?_
    have hs := h.copied (f := f) (by simp) s granted
    simpa only [Function.update_idem] using hs

/-- **Setting a field** of an object sets its value, or both fail. -/
theorem set_spec (nullable : F → Bool) (h : Holds w v others) (c : Call F S) :
    Option.Rel (fun w' v' => Holds w' v' others) (set nullable w c) (setValue nullable v c) := by
  obtain ⟨heap, hrelease, hgone, hheld⟩ := h.release c.field
  have harg : c.arg.load heap w.fields = c.arg.valueFor v c.field := by
    cases c.arg with
    | value s => rfl
    | null => rfl
    | own g => exact h.load_own hrelease hgone hheld
  rw [set, hrelease, Option.bind_some, harg, setValue]
  cases c.arg.valueFor v c.field with
  | none => exact .none
  | some s => exact Holds.store_spec (w := ⟨heap, w.fields⟩) hheld c.granted s

/-- Giving the blocks of some fields back, each once.

**Proof sketch.** Induction on the fields from the end; each is released once, as the list has
no duplicates. -/
lemma Holds.release_all (h : Holds w v others) {freed : List F} (hnd : freed.Nodup) :
    ∃ heap, destroy w freed = some heap ∧
      Holds ⟨heap, fun f => if f ∈ freed then none else w.fields f⟩
        (fun f => if f ∈ freed then none else v f) others := by
  induction freed using List.reverseRecOn with
  | nil => exact ⟨w.heap, rfl, by simpa using h⟩
  | append_singleton freed f ih =>
    obtain ⟨hnd, -, hf⟩ := List.nodup_append.mp hnd
    have hmem : f ∉ freed := fun hmem => hf f hmem f (List.mem_singleton_self f) rfl
    obtain ⟨heap, hdestroy, hheld⟩ := ih hnd
    obtain ⟨heap', hrelease, -, hheld'⟩ := hheld.release f
    simp only [if_neg hmem] at hrelease
    refine ⟨heap', ?_, ?_⟩
    · rw [destroy, List.foldlM_append, ← destroy, hdestroy]
      simp [hrelease]
    · simp only [update_gone] at hheld'
      exact hheld'

/-- **Nothing that the object owned is left** when all of its fields are freed at its end. -/
theorem Holds.destroyed (h : Holds w v others) {freed : List F} (hnd : freed.Nodup)
    (hall : ∀ f, f ∈ freed) : ∃ heap, destroy w freed = some heap ∧ Malloc.inUse heap = others := by
  obtain ⟨heap, hdestroy, hheld⟩ := h.release_all hnd
  refine ⟨heap, hdestroy, ?_⟩
  have hin := hheld.inUse
  simpa [hall] using hin

end Steps

end OwnedFields
