import Mathlib.Data.List.Chain
import Taningia.Lib.Ledger

set_option relaxedAutoImplicit false
set_option autoImplicit false

/-!
# A slot for one resource

A slot holds at most one resource. Filling it makes a new one and overwrites what was there;
emptying it deletes the one that it holds. A resource that is overwritten is not deleted any more,
so all resources are deleted at the end exactly when the slot was never filled twice in a row.

Resources are numbered in the order in which they are made.

## Main definitions

* `Slot`, `Slot.Op`, `Slot.Event` — a slot, what is done to it, and what happens to the resources.
* `Slot.step`, `Slot.events` — one operation, and the events of a sequence.
* `Slot.AllDeleted` — each resource is deleted once when the slot is emptied at the end.
* `Slot.Live` — a slot with a ledger of uses and deletions, in which nothing is deleted twice.

## Main results

* `Slot.allDeleted_iff`, `Slot.allDeleted_start_iff` — when that is so.
* `Slot.Live.use`, `Slot.Live.fill`, `Slot.Live.empty` — the resource in a slot is not deleted.
-/

/-- What a slot holds, and how many resources were made. -/
structure Slot where
  held : Option ℕ
  made : ℕ

namespace Slot

inductive Op where
  | fill
  | empty
deriving DecidableEq, Repr

inductive Event where
  | made (resource : ℕ)
  | deleted (resource : ℕ)
deriving DecidableEq, Repr

/-- A slot that nothing was put into. -/
def start : Slot := ⟨none, 0⟩

def step (s : Slot) : Op → Slot × List Event
  | .fill => (⟨some s.made, s.made + 1⟩, [.made s.made])
  | .empty => (⟨none, s.made⟩, s.held.toList.map .deleted)

/-- The events of the operations, from a slot. -/
def events : Slot → List Op → List Event
  | _, [] => []
  | s, op :: ops => (s.step op).2 ++ events (s.step op).1 ops

/-- The resource in the slot was made before. -/
def Bounded (s : Slot) : Prop := ∀ r, s.held = some r → r < s.made

/-- What is in the slot or comes into it is deleted once, when the slot is emptied at the end. -/
def AllDeleted (s : Slot) (ops : List Op) : Prop :=
  ∀ r, s.held = some r ∨ .made r ∈ events s ops →
    (events s (ops ++ [.empty])).count (.deleted r) = 1

/-- The first slot is empty. -/
lemma bounded_start : start.Bounded := by
  intro r h
  cases h

/-- A step keeps in the slot what was made, or nothing. -/
lemma bounded_step (s : Slot) (op : Op) : (s.step op).1.Bounded := by
  cases op with
  | fill =>
    intro r hr
    obtain rfl := Option.some.inj hr
    exact Nat.lt_succ_self _
  | empty =>
    intro r hr
    cases hr

/-! ## What can be made and deleted -/

/-- What is made is new.

**Proof sketch.** Induction on the operations, by cases on the first. -/
lemma le_of_made_mem {ops : List Op} {s : Slot} {r : ℕ} (h : .made r ∈ events s ops) :
    s.made ≤ r := by
  induction ops generalizing s with
  | nil => cases h
  | cons op ops ih =>
    rw [events, List.mem_append] at h
    cases op with
    | fill =>
      rcases h with h | h
      · obtain rfl := Event.made.inj (List.mem_singleton.mp h)
        exact le_rfl
      · exact (Nat.le_succ _).trans (ih h)
    | empty =>
      rcases h with h | h
      · obtain ⟨_, _, hr⟩ := List.mem_map.mp h
        cases hr
      · have hle := ih h
        exact hle

/-- Only the resource in the slot and later ones are deleted.

**Proof sketch.** Induction on the operations: filling makes the next resource, and emptying
deletes what is in the slot. -/
lemma held_or_le_of_deleted_mem {ops : List Op} {s : Slot} {r : ℕ}
    (h : .deleted r ∈ events s ops) : s.held = some r ∨ s.made ≤ r := by
  induction ops generalizing s with
  | nil => cases h
  | cons op ops ih =>
    rw [events, List.mem_append] at h
    cases op with
    | fill =>
      rcases h with h | h
      · cases List.mem_singleton.mp h
      · rcases ih h with hheld | hle
        · exact .inr (Option.some.inj hheld).le
        · exact .inr ((Nat.le_succ _).trans hle)
    | empty =>
      rcases h with h | h
      · obtain ⟨_, hr, heq⟩ := List.mem_map.mp h
        obtain rfl := Event.deleted.inj heq
        exact .inl (Option.mem_toList.mp hr)
      · rcases ih h with hheld | hle
        · cases hheld
        · exact .inr hle

/-- What is no longer in the slot is not deleted. -/
lemma count_deleted_eq_zero {ops : List Op} {s : Slot} {r : ℕ} (hheld : s.held ≠ some r)
    (hr : r < s.made) : (events s ops).count (.deleted r) = 0 := by
  rw [List.count_eq_zero]
  intro h
  rcases held_or_le_of_deleted_mem h with h | h
  · exact hheld h
  · omega

/-! ## One operation -/

/-- Filling a slot loses what is in it.

**Proof sketch.** Filling deletes nothing, so the resource from before is deleted by no later
operation and must not be there. The new one is in the slot behind it, and the others are
counted there. -/
lemma allDeleted_fill {s : Slot} (hs : s.Bounded) (ops : List Op) :
    s.AllDeleted (.fill :: ops) ↔ s.held = none ∧ (s.step .fill).1.AllDeleted ops := by
  have hcount : ∀ r, (events s (.fill :: ops ++ [.empty])).count (.deleted r) =
      (events (s.step .fill).1 (ops ++ [.empty])).count (.deleted r) := by
    intro r
    apply List.count_cons_of_ne
    intro h
    cases h
  constructor
  · intro h
    constructor
    · cases hheld : s.held with
      | none => rfl
      | some r =>
        have hlost := h r (.inl hheld)
        have hlt := hs r hheld
        rw [hcount, count_deleted_eq_zero] at hlost
        · cases hlost
        · intro heq
          have := Option.some.inj heq
          omega
        · exact Nat.lt_succ_of_lt hlt
    · intro r hr
      rw [← hcount]
      refine h r (.inr ?_)
      rcases hr with hr | hr
      · obtain rfl := Option.some.inj hr
        exact List.mem_cons_self
      · exact List.mem_cons_of_mem _ hr
  · rintro ⟨hnone, h⟩ r hr
    rw [hcount]
    rcases hr with hr | hr
    · rw [hnone] at hr
      cases hr
    · rcases List.mem_cons.mp hr with hr | hr
      · obtain rfl := Event.made.inj hr
        exact h _ (.inl rfl)
      · exact h r (.inr hr)

/-- Emptying a slot deletes what is in it.

**Proof sketch.** What is in the slot is deleted here and, since later operations delete other
resources only, once. The others are counted behind it. -/
lemma allDeleted_empty {s : Slot} (hs : s.Bounded) (ops : List Op) :
    s.AllDeleted (.empty :: ops) ↔ (s.step .empty).1.AllDeleted ops := by
  have hcount : ∀ r, (events s (.empty :: ops ++ [.empty])).count (.deleted r) =
      (s.held.toList.map Event.deleted).count (.deleted r) +
        (events (s.step .empty).1 (ops ++ [.empty])).count (.deleted r) :=
    fun r => List.count_append
  have hother : ∀ r, s.held ≠ some r →
      (s.held.toList.map Event.deleted).count (.deleted r) = 0 := by
    intro r hr
    rw [List.count_eq_zero]
    rintro h
    obtain ⟨q, hq, heq⟩ := List.mem_map.mp h
    obtain rfl := Event.deleted.inj heq
    exact hr (Option.mem_toList.mp hq)
  constructor
  · intro h r hr
    rcases hr with hr | hr
    · cases hr
    · have hle := le_of_made_mem hr
      have hone := h r (.inr (List.mem_append_right _ hr))
      rw [hcount, hother r, Nat.zero_add] at hone
      · exact hone
      · intro hheld
        have := hs r hheld
        exact absurd hle (Nat.not_le.mpr this)
  · intro h r hr
    rw [hcount]
    by_cases hheld : s.held = some r
    · have hrest : (events (s.step .empty).1 (ops ++ [.empty])).count (.deleted r) = 0 :=
        count_deleted_eq_zero (Option.some_ne_none r).symm (hs r hheld)
      rw [hrest, hheld]
      exact List.count_singleton_self
    · rw [hother r hheld, Nat.zero_add]
      refine h r (.inr ?_)
      rcases hr with hr | hr
      · exact absurd hr hheld
      · rcases List.mem_append.mp hr with hr | hr
        · obtain ⟨_, _, heq⟩ := List.mem_map.mp hr
          cases heq
        · exact hr

/-! ## Sequences -/

/-- **All resources are deleted** exactly when the slot is never filled while it is full.

**Proof sketch.** Induction on the operations, from a slot that may be full. Filling a full slot
loses a resource for good, because only the one in the slot and later ones are deleted. -/
theorem allDeleted_iff {s : Slot} (hs : s.Bounded) (ops : List Op) :
    s.AllDeleted ops ↔ (s.held ≠ none → ops.head? ≠ some .fill) ∧
      ops.IsChain fun a b => a = .fill → b ≠ .fill := by
  induction ops generalizing s with
  | nil =>
    refine ⟨fun _ => ⟨fun _ h => (nomatch h), .nil⟩, fun _ r hr => ?_⟩
    rcases hr with hr | hr
    · show ((s.held.toList.map Event.deleted) ++ []).count _ = 1
      rw [hr]
      exact List.count_singleton_self
    · cases hr
  | cons op ops ih =>
    cases op with
    | fill =>
      rw [allDeleted_fill hs, ih (bounded_step s .fill), List.isChain_cons]
      constructor
      · rintro ⟨hnone, hhead, hchain⟩
        refine ⟨fun hheld => absurd hnone hheld, fun b hb _ hfill => ?_, hchain⟩
        subst hfill
        exact hhead (Option.some_ne_none _) hb
      · rintro ⟨hhead, hnext, hchain⟩
        refine ⟨?_, fun _ hfill => hnext .fill hfill rfl rfl, hchain⟩
        by_contra hheld
        exact hhead hheld rfl
    | empty =>
      rw [allDeleted_empty hs, ih (bounded_step s .empty), List.isChain_cons]
      constructor
      · rintro ⟨-, hchain⟩
        refine ⟨fun _ h => ?_, fun _ _ h => ?_, hchain⟩
        · cases h
        · cases h
      · rintro ⟨-, -, hchain⟩
        exact ⟨fun h => absurd rfl h, hchain⟩

/-- From the start, all resources are deleted exactly when no two fillings follow each other. -/
theorem allDeleted_start_iff (ops : List Op) :
    start.AllDeleted ops ↔ ops.IsChain fun a b => a = .fill → b ≠ .fill := by
  rw [allDeleted_iff bounded_start]
  exact and_iff_right fun h => absurd rfl h

/-! ## Uses -/

/-- A slot and a ledger of what happened to its resources: none was deleted twice, and the one in
the slot was not deleted. The others may be used by whoever still has them. -/
structure Live (s : Slot) (log : List (Ledger.Event ℕ)) : Prop where
  once : ∀ r, log.count (.free r) ≤ 1
  below : ∀ r, .free r ∈ log → r < s.made
  held : ∀ r, s.held = some r → r < s.made ∧ .free r ∉ log

/-- Nothing happened before the first resource. -/
lemma live_start : start.Live [] where
  once := by simp
  below := by simp
  held := by
    intro r h
    cases h

variable {s : Slot} {log : List (Ledger.Event ℕ)}

/-- A use of any resource deletes nothing. -/
lemma Live.use (h : s.Live log) (r : ℕ) : s.Live (log ++ [.use r]) where
  once := by
    intro q
    simpa using h.once q
  below := by
    intro q hq
    exact h.below q (by simpa using hq)
  held := by
    intro q hq
    obtain ⟨hlt, hlive⟩ := h.held q hq
    exact ⟨hlt, by simpa using hlive⟩

/-- A new resource was never deleted. -/
lemma Live.fill (h : s.Live log) : (s.step .fill).1.Live log where
  once := h.once
  below := by
    intro q hq
    exact Nat.lt_succ_of_lt (h.below q hq)
  held := by
    intro q hq
    obtain rfl := Option.some.inj hq
    exact ⟨Nat.lt_succ_self _, fun hfree => Nat.lt_irrefl _ (h.below _ hfree)⟩

/-- The slot is emptied of what was never deleted.

**Proof sketch.** If the slot holds `r`, then the ledger grows by the deletion of `r`, which is not
in it yet; the deletions of the others are as many as before. -/
lemma Live.empty (h : s.Live log) :
    (s.step .empty).1.Live (log ++ s.held.toList.map .free) := by
  refine ⟨?_, ?_, ?_⟩
  · intro q
    cases hheld : s.held with
    | none => simpa using h.once q
    | some r =>
      have hr : log.count (.free r) = 0 := List.count_eq_zero.mpr (h.held r hheld).2
      by_cases hq : q = r
      · subst hq
        simp [hr]
      · have hne : (Ledger.Event.free r == Ledger.Event.free q) = false := by
          simpa using Ne.symm hq
        simpa [List.count_append, List.count_singleton, hne] using h.once q
  · intro q hq
    rcases List.mem_append.mp hq with hq | hq
    · exact h.below q hq
    · obtain ⟨r, hr, heq⟩ := List.mem_map.mp hq
      obtain rfl := Ledger.Event.free.inj heq
      exact (h.held r (Option.mem_toList.mp hr)).1
  · intro q hq
    cases hq

end Slot
