import Mathlib.Data.List.TakeWhile

set_option relaxedAutoImplicit false
set_option autoImplicit false

/-!
# Scanning a text for its first mark

A scan walks a list from the left and stops at the first letter that satisfies a predicate
(a *mark*). A pointer into a text is the suffix it points at, so a scan returns a suffix, and the
distance between two pointers is a difference of lengths.

## Main definitions

* `Scan.find` — the suffix that starts at the first mark, or `none`.
* `Scan.before` / `Scan.after` — the letters before and behind the first occurrence of a letter.

## Main results

* `Scan.find_eq_some_iff`, `Scan.find_eq_none_iff` — a found suffix is a split at the first mark.
* `Scan.find_append` — a scan passes over a prefix without marks.
* `Scan.before_append_cons_after` — the two parts and the letter between them tile the text.
-/

namespace Scan

variable {α : Type*}

/-! ## Finding the first mark -/

/-- The suffix of the text that starts at its first mark. -/
def find (p : α → Bool) : List α → Option (List α)
  | [] => none
  | c :: s => if p c then some (c :: s) else find p s

/-- Nothing is found in no text. -/
@[simp] lemma find_nil (p : α → Bool) : find p ([] : List α) = none := rfl

/-- The first character is found. -/
@[simp] lemma find_cons_pos {p : α → Bool} {c : α} (s : List α) (h : p c = true) :
    find p (c :: s) = some (c :: s) := by
  simp [find, h]

/-- The first character is passed over. -/
@[simp] lemma find_cons_neg {p : α → Bool} {c : α} (s : List α) (h : p c = false) :
    find p (c :: s) = find p s := by
  simp [find, h]

/-- A scan passes over a prefix without marks. -/
lemma find_append {p : α → Bool} {s : List α} (t : List α) (h : ∀ c ∈ s, p c = false) :
    find p (s ++ t) = find p t := by
  induction s with
  | nil => rfl
  | cons c s ih =>
    rw [List.cons_append, find_cons_neg _ (h c (by simp))]
    exact ih fun d hd => h d (by simp [hd])

/-- A scan finds nothing exactly when no letter is a mark. -/
lemma find_eq_none_iff {p : α → Bool} {s : List α} :
    find p s = none ↔ ∀ c ∈ s, p c = false := by
  induction s with
  | nil => simp
  | cons c s ih =>
    cases hc : p c with
    | true => simp [hc]
    | false => simp [hc, ih]

/-- A found suffix splits the text at its first mark.

**Proof sketch.** Induction on the text for one direction: the first character is the mark or is
put in front of the part without marks. For the other, induction on this part. -/
lemma find_eq_some_iff {p : α → Bool} {s e : List α} :
    find p s = some e ↔
      ∃ pre c post, s = pre ++ c :: post ∧ e = c :: post ∧ p c = true ∧ ∀ d ∈ pre, p d = false := by
  constructor
  · intro h
    induction s with
    | nil => simp at h
    | cons c s ih =>
      cases hc : p c with
      | true =>
        rw [find_cons_pos s hc, Option.some.injEq] at h
        exact ⟨[], c, s, rfl, h.symm, hc, by simp⟩
      | false =>
        rw [find_cons_neg s hc] at h
        obtain ⟨pre, d, post, rfl, he, hd, hpre⟩ := ih h
        refine ⟨c :: pre, d, post, rfl, he, hd, ?_⟩
        intro x hx
        rcases List.mem_cons.mp hx with rfl | hx
        · exact hc
        · exact hpre x hx
  · rintro ⟨pre, c, post, rfl, rfl, hc, hpre⟩
    rw [find_append _ hpre, find_cons_pos _ hc]

/-! ## The parts around the first occurrence of a letter -/

section Parts

variable [DecidableEq α]

/-- The letters before the first occurrence of `c`; the whole text when `c` does not occur. -/
def before (c : α) (s : List α) : List α := s.takeWhile (· != c)

/-- The letters behind the first occurrence of `c`; empty when `c` does not occur. -/
def after (c : α) (s : List α) : List α := (s.dropWhile (· != c)).tail

/-- All characters differ from one that does not occur. -/
lemma bne_of_not_mem {c : α} {s : List α} (h : c ∉ s) : ∀ d ∈ s, (d != c) = true := by
  intro d hd
  have hne : d ≠ c := fun e => h (e ▸ hd)
  simpa using hne

/-- The text before a character is free of it. -/
lemma not_mem_before (c : α) (s : List α) : c ∉ before c s := by
  intro h
  simpa using List.mem_takeWhile_imp h

/-- What is before a character is in the text. -/
lemma mem_of_mem_before {c d : α} {s : List α} (h : d ∈ before c s) : d ∈ s :=
  List.takeWhile_subset _ h

/-- The text before a character, split at its first occurrence. -/
@[simp] lemma before_append_cons {c : α} {pre : List α} (post : List α) (h : c ∉ pre) :
    before c (pre ++ c :: post) = pre := by
  simp [before, List.takeWhile_append_of_pos (bne_of_not_mem h)]

/-- The text after a character, split at its first occurrence. -/
@[simp] lemma after_append_cons {c : α} {pre : List α} (post : List α) (h : c ∉ pre) :
    after c (pre ++ c :: post) = post := by
  simp [after, List.dropWhile_append_of_pos (bne_of_not_mem h)]

/-- Nothing is before a character that comes first. -/
@[simp] lemma before_cons_self (c : α) (s : List α) : before c (c :: s) = [] := by
  simp [before]

/-- All the rest is after a character that comes first. -/
@[simp] lemma after_cons_self (c : α) (s : List α) : after c (c :: s) = s := by
  simp [after]

/-- The whole text is before a character that does not occur. -/
@[simp] lemma before_of_not_mem {c : α} {s : List α} (h : c ∉ s) : before c s = s :=
  List.takeWhile_eq_self_iff.mpr (bne_of_not_mem h)

/-- An occurring letter splits the text at its first occurrence. -/
lemma exists_split {c : α} {s : List α} (h : c ∈ s) :
    ∃ pre post, s = pre ++ c :: post ∧ c ∉ pre := by
  induction s with
  | nil => simp at h
  | cons d s ih =>
    by_cases hd : d = c
    · exact ⟨[], s, by simp [hd], by simp⟩
    · obtain ⟨pre, post, rfl, hpre⟩ := ih ((List.mem_cons.mp h).resolve_left (Ne.symm hd))
      exact ⟨d :: pre, post, rfl, by simp [Ne.symm hd, hpre]⟩

/-- The two parts and the letter between them tile the text. -/
lemma before_append_cons_after {c : α} {s : List α} (h : c ∈ s) :
    before c s ++ c :: after c s = s := by
  obtain ⟨pre, post, rfl, hpre⟩ := exists_split h
  rw [before_append_cons post hpre, after_append_cons post hpre]

/-- A part without the character is before it. -/
lemma before_append {c : α} {s : List α} (t : List α) (h : c ∉ s) :
    before c (s ++ t) = s ++ before c t :=
  List.takeWhile_append_of_pos (bne_of_not_mem h)

/-- A part without the character is passed over. -/
lemma after_append {c : α} {s : List α} (t : List α) (h : c ∉ s) :
    after c (s ++ t) = after c t := by
  rw [after, List.dropWhile_append_of_pos (bne_of_not_mem h), after]

/-- Nothing comes before the first `c` exactly when the text is empty or starts with it. -/
lemma before_eq_nil_iff {c : α} {s : List α} : before c s = [] ↔ s = [] ∨ s.head? = some c := by
  cases s with
  | nil => simp [before]
  | cons d s => simp [before, List.takeWhile_cons]

/-- Behind an occurrence the text makes no difference to what is before it. -/
lemma before_append_of_mem {c : α} {s : List α} (t : List α) (h : c ∈ s) :
    before c (s ++ t) = before c s := by
  obtain ⟨pre, post, rfl, hpre⟩ := exists_split h
  rw [List.append_assoc, List.cons_append, before_append_cons _ hpre, before_append_cons _ hpre]

/-- Behind an occurrence the text is added to what is after it. -/
lemma after_append_of_mem {c : α} {s : List α} (t : List α) (h : c ∈ s) :
    after c (s ++ t) = after c s ++ t := by
  obtain ⟨pre, post, rfl, hpre⟩ := exists_split h
  rw [List.append_assoc, List.cons_append, after_append_cons _ hpre, after_append_cons _ hpre]

/-- Finding a letter gives the suffix that starts with it. -/
lemma find_letter (c : α) (s : List α) :
    find (· == c) s = if c ∈ s then some (c :: after c s) else none := by
  by_cases h : c ∈ s
  · rw [if_pos h]
    refine find_eq_some_iff.mpr ⟨before c s, c, after c s, ?_, rfl, by simp, ?_⟩
    · exact (before_append_cons_after h).symm
    · intro d hd
      simpa using fun e : d = c => not_mem_before c s (e ▸ hd)
  · rw [if_neg h]
    apply find_eq_none_iff.mpr
    intro d hd
    simpa using fun e : d = c => h (e ▸ hd)

end Parts

end Scan
