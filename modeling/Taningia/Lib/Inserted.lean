import Mathlib.Data.List.Basic

set_option relaxedAutoImplicit false
set_option autoImplicit false

/-!
# Lists with insertions

One list is another with elements of one kind inserted, and the others replaced by related ones.
What looks only for elements of other kinds finds the same in both.

## Main definitions

* `Inserted` — the relation.

## Main results

* `Inserted.find?_eq` — searching both lists.
-/

variable {α : Type*} {P : α → Prop} {R : α → α → Prop} {l l' : List α}

/-- The second list has elements of the kind inserted, and otherwise related elements. -/
inductive Inserted (P : α → Prop) (R : α → α → Prop) : List α → List α → Prop
  | nil : Inserted P R [] []
  | insert {l l' : List α} {a : α} (ha : P a) (h : Inserted P R l l') : Inserted P R l (a :: l')
  | keep {l l' : List α} {a b : α} (hab : R a b) (h : Inserted P R l l') :
      Inserted P R (a :: l) (b :: l')

namespace Inserted

/-- Nothing is inserted. -/
lemma refl (hR : ∀ a, R a a) (l : List α) : Inserted P R l l := by
  induction l with
  | nil => exact .nil
  | cons a l ih => exact .keep (hR a) ih

/-- Insertions do not empty a list. -/
lemma ne_nil (h : Inserted P R l l') (hl : l ≠ []) : l' ≠ [] := by
  cases h with
  | nil => exact hl
  | insert ha h => simp
  | keep hab h => simp

/-- **Searching** for elements that are neither inserted nor replaced. -/
lemma find?_eq (h : Inserted P R l l') {p : α → Bool} (hP : ∀ a, P a → p a = false)
    (hR : ∀ a b, R a b → p b = p a ∧ (p a = true → b = a)) : l'.find? p = l.find? p := by
  induction h with
  | nil => rfl
  | insert ha h ih => rw [List.find?_cons_of_neg (by simp [hP _ ha]), ih]
  | @keep l l' a b hab h ih =>
    obtain ⟨hsame, heq⟩ := hR a b hab
    cases hp : p a with
    | true => rw [List.find?_cons_of_pos hp, List.find?_cons_of_pos (hsame.trans hp), heq hp]
    | false =>
      rw [List.find?_cons_of_neg (by simp [hsame, hp]), List.find?_cons_of_neg (by simp [hp]), ih]

end Inserted
