import Mathlib.Logic.Function.Basic
import Taningia.Lib.Machine

set_option relaxedAutoImplicit false
set_option autoImplicit false

/-!
# Interleavings of machines that share nothing

Several threads run copies of one machine. A step of the product is a step of one thread, the others
at rest. Whatever the order, each thread ends where its own operations alone lead it; and the
product fails exactly when one of the threads does.

## Main definitions

* `Interleave.own` — the operations of one thread, in their order.
* `Interleave.productStep` — one step of the product.

## Main results

* `Interleave.run?_product_iff` — a run of the product is a run of each thread.
* `Interleave.run?_product_isSome_iff` — when a run of the product does not fail.
-/

namespace Interleave

open Machine

variable {T S A : Type*} [DecidableEq T]

/-- The operations of a thread. -/
def own (t : T) : List (T × A) → List A
  | [] => []
  | (u, a) :: trace => if u = t then a :: own t trace else own t trace

/-- No calls are no calls of any thread. -/
@[simp] lemma own_nil (t : T) : own t ([] : List (T × A)) = [] := rfl

/-- A call of the thread is its first one. -/
@[simp] lemma own_cons_self (t : T) (a : A) (trace : List (T × A)) :
    own t ((t, a) :: trace) = a :: own t trace := by
  simp [own]

/-- A call of another thread is not the thread's own. -/
lemma own_cons_ne {t u : T} (h : u ≠ t) (a : A) (trace : List (T × A)) :
    own t ((u, a) :: trace) = own t trace := by
  simp [own, h]

/-- The thread's own calls are those that it makes in the trace. -/
lemma mem_own {t : T} {a : A} {trace : List (T × A)} : a ∈ own t trace ↔ (t, a) ∈ trace := by
  induction trace with
  | nil => simp
  | cons op trace ih =>
    obtain ⟨u, b⟩ := op
    by_cases hu : u = t
    · subst hu
      simp [ih]
    · simp [own_cons_ne hu, ih, Ne.symm hu]

/-- A thread that makes no call has none of its own. -/
lemma own_eq_nil {t : T} {trace : List (T × A)} (h : ∀ a, (t, a) ∉ trace) : own t trace = [] :=
  List.eq_nil_iff_forall_not_mem.mpr fun a ha => h a (mem_own.mp ha)

/-- One thread takes a step, the others are at rest. -/
def productStep (step : S → A → Option S) (s : T → S) (op : T × A) : Option (T → S) :=
  (step (s op.1) op.2).map (Function.update s op.1)

variable {step : S → A → Option S}

/-- **A run of the product is a run of each thread** over its own operations.

**Proof sketch.** Induction on the trace. The first operation moves its own thread, as the first of
its operations, and leaves the others where they were, with the operations that they had. -/
theorem run?_product_iff {s s' : T → S} {trace : List (T × A)} :
    run? (productStep step) s trace = some s' ↔
      ∀ t, run? step (s t) (own t trace) = some (s' t) := by
  induction trace generalizing s with
  | nil =>
    simp only [run?_nil, own_nil, Option.some.injEq]
    exact funext_iff
  | cons op trace ih =>
    obtain ⟨u, a⟩ := op
    rw [run?_cons]
    cases hstep : step (s u) a with
    | none =>
      have hproduct : productStep step s (u, a) = none := by simp [productStep, hstep]
      rw [hproduct, Option.bind_none]
      refine ⟨fun h => (Option.some_ne_none _ h.symm).elim, fun h => ?_⟩
      have hu := h u
      rw [own_cons_self, run?_cons, hstep, Option.bind_none] at hu
      exact (Option.some_ne_none _ hu.symm).elim
    | some next =>
      have hproduct : productStep step s (u, a) = some (Function.update s u next) := by
        simp [productStep, hstep]
      rw [hproduct, Option.bind_some, ih]
      refine forall_congr' fun t => ?_
      by_cases ht : u = t
      · subst ht
        rw [own_cons_self, run?_cons, hstep, Option.bind_some, Function.update_self]
      · rw [own_cons_ne ht, Function.update_of_ne (Ne.symm ht)]

/-- **The product fails exactly when a thread does.** -/
theorem run?_product_isSome_iff {s : T → S} {trace : List (T × A)} :
    (∃ s', run? (productStep step) s trace = some s') ↔
      ∀ t, ∃ s', run? step (s t) (own t trace) = some s' := by
  constructor
  · rintro ⟨s', h⟩ t
    exact ⟨s' t, run?_product_iff.mp h t⟩
  · intro h
    choose s' hs' using h
    exact ⟨s', run?_product_iff.mpr hs'⟩

end Interleave
