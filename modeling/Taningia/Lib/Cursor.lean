import Taningia.Lib.Block
import Mathlib.Data.Int.Init

set_option relaxedAutoImplicit false
set_option autoImplicit false

/-!
# Writing texts one after another

A cursor is a block with the position of the next write, which a machine keeps in an integer of
`m` values: behind the largest one it goes on at the smallest. This file says when a list of texts
can be written at a cursor without leaving the block, and what the block then holds.

## Main definitions

* `Cursor`, `Cursor.put`, `Cursor.putAll` — the cursor and the writes.

## Main results

* `Cursor.putAll_isSome_iff` — in a block that is large enough, the writes stay inside exactly when
  no position is negative.
* `Cursor.putAll_holds` — writes whose positions are represented put the texts behind each other.
-/

/-- A block and the position of the next write. -/
structure Cursor (α : Type*) where
  block : Block α
  position : ℤ

namespace Cursor

variable {α : Type*} (m : ℕ)

/-- Write a text and move behind it. -/
def put (text : List α) (c : Cursor α) : Option (Cursor α) :=
  (c.block.write c.position text).map fun block =>
    ⟨block, (c.position + text.length).bmod m⟩

/-- Write texts one after another. -/
def putAll : List (List α) → Cursor α → Option (Cursor α)
  | [], c => some c
  | text :: texts, c => (put m text c).bind (putAll texts)

variable {m}

/-- Writes one after the other. -/
lemma putAll_append (texts texts' : List (List α)) (c : Cursor α) :
    putAll m (texts ++ texts') c = (putAll m texts c).bind (putAll m texts') := by
  induction texts generalizing c with
  | nil => rfl
  | cons text texts ih =>
    simp only [List.cons_append, putAll, Option.bind_assoc]
    congr
    funext c'
    exact ih c'

/-- One write. -/
lemma putAll_singleton (text : List α) (c : Cursor α) : putAll m [text] c = put m text c := by
  simp [putAll]

/-- What is kept of a number is not larger than the number. -/
lemma bmod_le_self (n : ℕ) : (n : ℤ).bmod m ≤ n := by
  unfold Int.bmod
  have hle : (n : ℤ) % m ≤ n := by exact_mod_cast Nat.mod_le n m
  simp only
  split_ifs <;> omega

/-- A number below half of the modulus is kept as it is. -/
lemma bmod_eq_self {n : ℕ} (h : 2 * n < m) : (n : ℤ).bmod m = n := by
  apply Int.bmod_eq_of_le <;> omega

/-- A write with enough room behind the letters written stays inside exactly when the position is
not negative.

**Proof sketch.** The position is that of the letters written or smaller, as it wraps around, so
the text ends inside the block. -/
lemma put_eq {c : Cursor α} {done : ℕ} (hc : c.position = (done : ℤ).bmod m) (text : List α)
    (hroom : done + text.length ≤ c.block.length) :
    (0 ≤ (done : ℤ).bmod m → ∃ c', put m text c = some c' ∧
      c'.position = ((done + text.length : ℕ) : ℤ).bmod m ∧ c'.block.length = c.block.length) ∧
    ((done : ℤ).bmod m < 0 → put m text c = none) := by
  constructor
  · intro hpos
    have hle : (done : ℤ).bmod m ≤ done := bmod_le_self done
    obtain ⟨off, hoff⟩ := Int.eq_ofNat_of_zero_le hpos
    have hfits : off + text.length ≤ c.block.length := by omega
    have hposition : c.position = off := by rw [hc, hoff]
    refine ⟨⟨_, (c.position + text.length).bmod m⟩, ?_, ?_, Block.length_written hfits⟩
    · unfold put
      rw [hposition, Block.write_eq_some hfits, Option.map_some]
    · rw [hc, Int.bmod_add_bmod, Int.natCast_add]
  · intro hneg
    unfold put Block.write
    rw [hc, if_neg (by omega), Option.map_none]

/-- **The writes stay inside the block** exactly when no position is negative, if the block is large
enough for all the texts.

**Proof sketch.** Induction on the texts. The position of the first one is that of the cursor, and
the positions of the others are those of the cursor behind it. -/
lemma putAll_isSome_iff (texts : List (List α)) (last : List α) {c : Cursor α} {done : ℕ}
    (hc : c.position = (done : ℤ).bmod m)
    (hroom : done + texts.flatten.length + last.length ≤ c.block.length) :
    (putAll m (texts ++ [last]) c).isSome ↔
      ∀ front, front <+: texts → 0 ≤ ((done + front.flatten.length : ℕ) : ℤ).bmod m := by
  induction texts generalizing c done with
  | nil =>
    obtain ⟨hright, hwrong⟩ := put_eq hc last (by simpa using hroom)
    rw [List.nil_append, putAll_singleton]
    by_cases hpos : 0 ≤ (done : ℤ).bmod m
    · obtain ⟨c', hput, -⟩ := hright hpos
      simpa [hput] using hpos
    · simpa [hwrong (by omega)] using hpos
  | cons text texts ih =>
    simp only [List.flatten_cons, List.length_append] at hroom
    obtain ⟨hright, hwrong⟩ := put_eq hc text (by omega)
    rw [List.cons_append, putAll]
    by_cases hpos : 0 ≤ (done : ℤ).bmod m
    · obtain ⟨c', hput, hc', hblock⟩ := hright hpos
      rw [hput, Option.bind_some, ih hc' (by omega)]
      constructor
      · intro h front hfront
        cases front with
        | nil => simpa using hpos
        | cons first front =>
          obtain ⟨rfl, hrest⟩ := List.cons_prefix_cons.mp hfront
          simpa [Nat.add_assoc] using h front hrest
      · intro h front hfront
        have := h (text :: front) (List.cons_prefix_cons.mpr ⟨rfl, hfront⟩)
        simpa [Nat.add_assoc] using this
    · simp only [hwrong (by omega), Option.bind_none, Option.isSome_none, Bool.false_eq_true,
        false_iff]
      intro h
      exact hpos (by simpa using h [] List.nil_prefix)

/-- A run of writes whose positions are all represented puts the texts behind what the block
holds.

**Proof sketch.** Induction on the texts: each is written behind what the block holds. -/
lemma putAll_holds (texts : List (List α)) {c : Cursor α} {xs : List α}
    (hc : c.position = xs.length)
    (hxs : c.block.Holds xs) (hroom : xs.length + texts.flatten.length ≤ c.block.length)
    (hm : 2 * (xs.length + texts.flatten.length) < m) :
    ∃ c', putAll m texts c = some c' ∧ c'.block.length = c.block.length ∧
      c'.block.Holds (xs ++ texts.flatten) := by
  induction texts generalizing c xs with
  | nil => exact ⟨c, rfl, rfl, by simpa using hxs⟩
  | cons text texts ih =>
    simp only [List.flatten_cons, List.length_append] at hroom hm
    obtain ⟨block, hwrite, hlen, hholds⟩ := Block.write_append hxs text (by omega)
    have hbehind : (((xs.length : ℤ) + text.length).bmod m : ℤ) = (xs ++ text).length := by
      rw [← Int.natCast_add, bmod_eq_self (by omega), List.length_append]
    have hput : put m text c = some ⟨block, (xs ++ text).length⟩ := by
      unfold put
      rw [hc, hwrite, Option.map_some, hbehind]
    obtain ⟨c', hall, hsize, hfinal⟩ := ih (c := ⟨block, (xs ++ text).length⟩) rfl hholds
      (by simp only [List.length_append]; omega) (by simp only [List.length_append]; omega)
    refine ⟨c', ?_, hsize.trans hlen, ?_⟩
    · rw [putAll, hput, Option.bind_some, hall]
    · simpa using hfinal

end Cursor
