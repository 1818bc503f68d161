import Mathlib.Data.List.Pairwise

set_option relaxedAutoImplicit false
set_option autoImplicit false

/-!
# Ledgers of owned blocks

A ledger records, oldest first, when a block was used and when it was released. It is sound when
nothing happens to a block after its release: no second release, and no use.

## Main definitions

* `Ledger.Event` — a use or a release of a block.
* `Ledger.Sound` — no event of a block follows its release.

## Main results

* `Ledger.sound_concat` — a sound ledger grows by an event exactly when its block is unreleased.
* `Ledger.sound_append` — two parts of a ledger.
* `Ledger.sound_append_uses` — uses that are still to come.
* `Ledger.sound_iff_forall_block` — a ledger is sound when the events of each block are.
-/

namespace Ledger

variable {B : Type*}

/-- What can happen to a block. -/
inductive Event (B : Type*) where
  | use (b : B)
  | free (b : B)
deriving DecidableEq, Repr

/-- The block an event is about. -/
def Event.block : Event B → B
  | .use b => b
  | .free b => b

/-- Nothing happens to a block after its release. -/
def Sound (log : List (Event B)) : Prop :=
  log.Pairwise fun e f => e ≠ .free f.block

/-- An empty log is sound. -/
@[simp] lemma sound_nil : Sound ([] : List (Event B)) := List.Pairwise.nil

/-- **A ledger grows soundly** by an event exactly when the event's block is unreleased. -/
lemma sound_concat {log : List (Event B)} {e : Event B} :
    Sound (log ++ [e]) ↔ Sound log ∧ Event.free e.block ∉ log := by
  simp only [Sound, List.pairwise_append, List.pairwise_singleton, List.mem_singleton,
    forall_eq, true_and]
  constructor
  · rintro ⟨h, hne⟩
    exact ⟨h, fun hmem => hne _ hmem rfl⟩
  · rintro ⟨h, hmem⟩
    exact ⟨h, fun f hf e' => hmem (e' ▸ hf)⟩

/-- A use spoils nothing that follows. -/
lemma sound_use_cons {log : List (Event B)} {b : B} : Sound (.use b :: log) ↔ Sound log := by
  unfold Sound
  rw [List.pairwise_cons]
  refine and_iff_right fun e _ h => ?_
  cases h

/-- Two parts of a ledger are sound together when each is, and the second one keeps away from what
the first one released. -/
lemma sound_append {log log' : List (Event B)} :
    Sound (log ++ log') ↔
      Sound log ∧ Sound log' ∧ ∀ b, .free b ∈ log → ∀ e ∈ log', e.block ≠ b := by
  unfold Sound
  rw [List.pairwise_append]
  refine and_congr_right fun _ => and_congr_right fun _ => ?_
  constructor
  · rintro h b hb e he rfl
    exact h _ hb e he rfl
  · rintro h e he e' he' rfl
    exact h _ he e' he' rfl

/-- Uses that are still to come find their blocks unreleased.

**Proof sketch.** Uses alone are sound, so what is left is that none of them is of a block
released before. -/
lemma sound_append_uses {log : List (Event B)} {bs : List B} :
    Sound (log ++ bs.map .use) ↔ Sound log ∧ ∀ b ∈ bs, .free b ∉ log := by
  have huses : Sound (bs.map Event.use) := by
    unfold Sound
    rw [List.pairwise_map]
    exact List.pairwise_of_forall fun _ _ h => nomatch h
  rw [sound_append, and_iff_right huses]
  refine and_congr_right fun _ => ?_
  constructor
  · intro h b hb hfree
    exact h b hfree (.use b) (List.mem_map.mpr ⟨b, hb, rfl⟩) rfl
  · rintro h b hfree e he rfl
    obtain ⟨b, hb, rfl⟩ := List.mem_map.mp he
    exact h b hb hfree

/-- **Soundness goes block by block**. -/
lemma sound_iff_forall_block [DecidableEq B] {log : List (Event B)} :
    Sound log ↔ ∀ b, Sound (log.filter fun e => e.block = b) := by
  constructor
  · exact fun h b => List.Pairwise.sublist List.filter_sublist h
  · intro h
    refine List.pairwise_iff_forall_sublist.mpr fun {e f} hef he => ?_
    have hsub := hef.filter fun e => e.block = f.block
    rw [he, List.filter_eq_self.mpr (by simp [Event.block])] at hsub
    exact List.pairwise_iff_forall_sublist.mp (h f.block) hsub rfl

end Ledger
