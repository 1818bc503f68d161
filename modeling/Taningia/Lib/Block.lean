import Mathlib.Data.Int.Notation
import Mathlib.Data.List.Infix
import Mathlib.Data.List.TakeDrop

set_option relaxedAutoImplicit false
set_option autoImplicit false

/-!
# Blocks of memory

A block is a fixed number of cells, of which some have not been written yet. This file has the
accesses that a text at the front of a block needs: writing letters at an offset, changing the size
of the block, and reading up to a closing letter. An access outside the block, or to a cell that
nobody wrote, fails.

## Main definitions

* `Block`, `Block.write`, `Block.resize`, `Block.readUntil` — blocks and their accesses.
* `Block.Holds` — the block begins with a text.

## Main results

* `Block.write_append` — writing behind the text extends it.
* `Block.readUntil_of_holds` — a text that is closed is read back.
-/

/-- A block of memory; `none` is a cell that has not been written. -/
abbrev Block (α : Type*) := List (Option α)

namespace Block

variable {α : Type*}

/-- Write letters at an offset. -/
def write (b : Block α) (off : ℤ) (xs : List α) : Option (Block α) :=
  if 0 ≤ off ∧ off + xs.length ≤ b.length then
    some (b.take off.toNat ++ xs.map some ++ b.drop (off.toNat + xs.length))
  else none

/-- The block with another size, its new cells not written. -/
def resize (b : Block α) (n : ℕ) : Block α := b.take n ++ List.replicate (n - b.length) none

/-- The letters before the first one with the property. -/
def readUntil (p : α → Bool) : Block α → Option (List α)
  | [] => none
  | none :: _ => none
  | some c :: b => if p c then some [] else (readUntil p b).map (c :: ·)

/-- The block begins with the text. -/
def Holds (b : Block α) (xs : List α) : Prop := xs.map some <+: b

instance [DecidableEq α] (b : Block α) (xs : List α) : Decidable (Holds b xs) :=
  inferInstanceAs (Decidable (_ <+: _))

/-- A block holds the empty string. -/
@[simp] lemma holds_nil (b : Block α) : Holds b [] := List.nil_prefix

/-- What a block holds fits. -/
lemma Holds.length_le {b : Block α} {xs : List α} (h : Holds b xs) : xs.length ≤ b.length := by
  simpa using List.IsPrefix.length_le h

/-- A block holds the front of what it holds. -/
lemma Holds.of_append {b : Block α} {xs ys : List α} (h : Holds b (xs ++ ys)) : Holds b xs := by
  apply List.IsPrefix.trans _ h
  rw [List.map_append]
  exact List.prefix_append _ _

/-- A block that holds a text and one more letter has the letter behind the text. -/
lemma Holds.getElem?_length {b : Block α} {xs : List α} {c : α} (h : Holds b (xs ++ [c])) :
    b[xs.length]? = some (some c) := by
  obtain ⟨rest, rfl⟩ := h
  simp

/-- The front of the block is the string it holds. -/
lemma Holds.take {b : Block α} {xs : List α} (h : Holds b xs) :
    b.take xs.length = xs.map some := by
  obtain ⟨rest, rfl⟩ := h
  simp

/-- A block that grows has the new length. -/
lemma length_resize {b : Block α} {n : ℕ} (h : b.length ≤ n) : (resize b n).length = n := by
  simp only [resize, List.length_append, List.length_take, List.length_replicate]
  omega

/-- A larger block holds what the block held. -/
lemma Holds.resize {b : Block α} {xs : List α} (h : Holds b xs) {n : ℕ} (hn : b.length ≤ n) :
    Holds (resize b n) xs := by
  unfold Block.resize
  rw [List.take_of_length_le hn]
  exact List.IsPrefix.trans h (List.prefix_append _ _)

/-- A write inside the block succeeds, and changes no other cell and not the size. -/
lemma write_eq_some {b : Block α} {off : ℕ} {xs : List α} (h : off + xs.length ≤ b.length) :
    write b off xs = some (b.take off ++ xs.map some ++ b.drop (off + xs.length)) := by
  unfold write
  rw [if_pos (by omega), Int.toNat_natCast]

/-- A write inside a block keeps its length. -/
lemma length_written {b : Block α} {off : ℕ} {xs : List α} (h : off + xs.length ≤ b.length) :
    (b.take off ++ xs.map some ++ b.drop (off + xs.length)).length = b.length := by
  simp only [List.length_append, List.length_take, List.length_map, List.length_drop]
  omega

/-- The cells in front of a written text and the text itself. -/
lemma take_written {b : Block α} {off : ℕ} (h : off ≤ b.length) (xs ys : List α)
    (rest : Block α) :
    (b.take off ++ (xs ++ ys).map some ++ rest).take (off + xs.length) =
      b.take off ++ xs.map some := by
  rw [List.map_append, ← List.append_assoc, List.append_assoc]
  apply List.take_left'
  simp only [List.length_append, List.length_take, List.length_map]
  omega

/-- The last character of a write. -/
lemma getElem?_written {b : Block α} {off : ℕ} (h : off ≤ b.length) (xs : List α) (c : α)
    (rest : Block α) :
    (b.take off ++ (xs ++ [c]).map some ++ rest)[off + xs.length]? = some (some c) := by
  have hlen : (b.take off ++ xs.map some).length = off + xs.length := by
    simp only [List.length_append, List.length_take, List.length_map]
    omega
  rw [List.map_append, ← List.append_assoc, List.append_assoc, ← hlen]
  simp

/-- **Writing behind the text** extends it. -/
lemma write_append {b : Block α} {xs : List α} (hb : Holds b xs) (ys : List α)
    (h : xs.length + ys.length ≤ b.length) :
    ∃ b', write b xs.length ys = some b' ∧ b'.length = b.length ∧ Holds b' (xs ++ ys) := by
  refine ⟨_, write_eq_some h, length_written h, ?_⟩
  rw [hb.take, Holds, List.map_append]
  exact List.prefix_append _ _

/-- **A closed text** is read back. -/
lemma readUntil_of_holds {p : α → Bool} {b : Block α} {xs : List α} {c : α}
    (h : Holds b (xs ++ [c])) (hxs : ∀ x ∈ xs, p x = false) (hc : p c = true) :
    readUntil p b = some xs := by
  obtain ⟨rest, rfl⟩ := h
  induction xs with
  | nil => simp [readUntil, hc]
  | cons x xs ih =>
    have hx : p x = false := hxs x (by simp)
    have hrest := ih fun y hy => hxs y (by simp [hy])
    simp only [List.cons_append, List.map_cons, readUntil, hx, Bool.false_eq_true, if_false, hrest,
      Option.map_some]

end Block
