import Taningia.Lib.Ledger
import Taningia.Lib.Pools

set_option relaxedAutoImplicit false
set_option autoImplicit false

/-!
# The memory of serialised trees

The nodes of an iksemel tree are in stacks, and `iks_delete` gives back the whole stack of a node. A
tree may hold nodes of several stacks, when trees were put into it. `_get_iks_string` walks over the
tree, looks for children of another stack than their parent's, and deletes these.

Of iksemel it is taken that `iks_string` reads the nodes of the tree and deletes none, that
`iks_child` and `iks_next` read the links of a node, and that `iks_delete` gives back the stack of
its node and touches no other.

## Main definitions

* `Taningia.freeIksChilds`, `Taningia.getIksString` — what happens to the stacks of a tree.

## Main results

* `Taningia.sound_freeIksChilds_iff` — the walk and the stacks that it enters.
* `Taningia.get_iks_string_sound_iff` — when `_get_iks_string` is sound.
-/

namespace Taningia

open Pools

/-! ## Deleting a tree -/

/-- `_free_iks_childs` behind its first `iks_child`, for a node of the stack `root`: the walk reads
the links of nodes and compares their stacks, and deletes a child of another stack. -/
def freeIksChilds (root : ℕ) : Forest → List (Ledger.Event ℕ)
  | .nil => []
  | .node child children next =>
    .use child :: (freeIksChilds child children ++ [.use root, .use child, .use child] ++
      (if root = child then [] else [.free child]) ++ freeIksChilds root next)

/-- The printing functions of iksemel read every node. -/
def iksRead (ik : Tree) : List (Ledger.Event ℕ) := ik.pools.map .use

/-- `_get_iks_string`. -/
def getIksString : Option Tree → List (Ledger.Event ℕ)
  | some ik =>
    iksRead ik ++ .use ik.pool :: (freeIksChilds ik.pool ik.children ++ [.free ik.pool])
  | none => []

/-! ### What the walk does -/

/-- The walk releases the stacks that it enters. -/
lemma free_mem_freeIksChilds {f : Forest} {root p : ℕ} :
    .free p ∈ freeIksChilds root f ↔ p ∈ entered root f := by
  induction f generalizing root with
  | nil => simp [freeIksChilds, entered]
  | node pool children siblings ihc ihs =>
    by_cases heq : root = pool
    · simp [freeIksChilds, entered, ihc, ihs, heq]
    · simp [freeIksChilds, entered, ihc, ihs, heq]
      tauto

/-- The walk deletes a stack as often as it is entered. -/
lemma count_free_freeIksChilds (f : Forest) (root p : ℕ) :
    (freeIksChilds root f).count (.free p) = (entered root f).count p := by
  induction f generalizing root with
  | nil => rfl
  | node pool children siblings ihc ihs =>
    by_cases heq : root = pool
    · simp [freeIksChilds, entered, ihc, ihs, heq]
    · simp [freeIksChilds, entered, ihc, ihs, heq, List.count_cons]
      omega

/-- The walk stays in the stack of the root and in those that it enters.

**Proof sketch.** Induction on the forest: the node uses its own stack and the one of its
parent, and the children and the siblings come by the hypotheses. -/
lemma block_mem_freeIksChilds {f : Forest} {root : ℕ} {e : Ledger.Event ℕ}
    (he : e ∈ freeIksChilds root f) : e.block = root ∨ e.block ∈ entered root f := by
  induction f generalizing root with
  | nil => cases he
  | node pool children siblings ihc ihs =>
    have hpool : pool = root ∨ pool ∈ entered root (.node pool children siblings) := by
      by_cases heq : root = pool
      · exact .inl heq.symm
      · exact .inr (by simp [entered, heq])
    simp only [freeIksChilds, List.mem_cons, List.mem_append, List.not_mem_nil, or_false] at he
    rcases he with rfl | ((hc | rfl | rfl | rfl) | hfree) | hs
    · exact hpool
    · rcases ihc hc with h | h
      · exact h ▸ hpool
      · exact .inr (by simp [entered, h])
    · exact .inl rfl
    · exact hpool
    · exact hpool
    · split_ifs at hfree
      · cases hfree
      · obtain rfl := List.mem_singleton.mp hfree
        exact hpool
    · rcases ihs hs with h | h
      · exact .inl h
      · exact .inr (by simp [entered, h])

/-- The parts of the walk of a node.

**Proof sketch.** The walk of the node is appended from the walk of its children, the visit of
the node and the walk of its siblings, and a sound log is split where it is appended. -/
lemma sound_freeIksChilds_node {root pool : ℕ} {children siblings : Forest} :
    Ledger.Sound (freeIksChilds root (.node pool children siblings)) ↔
      Ledger.Sound (freeIksChilds pool children) ∧ Ledger.Sound (freeIksChilds root siblings) ∧
        (∀ p ∈ entered pool children, p ≠ root ∧ p ≠ pool) ∧
        (∀ p ∈ entered pool children, ∀ e ∈ freeIksChilds root siblings, e.block ≠ p) ∧
        (root ≠ pool → ∀ e ∈ freeIksChilds root siblings, e.block ≠ pool) := by
  -- what happens at the node itself, behind the walk of what is under it
  set visit : List (Ledger.Event ℕ) := [.use root, .use pool, .use pool] ++
    if root = pool then [] else [.free pool] with hvisit
  have hsound : Ledger.Sound visit := by
    rw [hvisit]
    split_ifs <;> simp [Ledger.Sound]
  have hblock : ∀ b, (∀ e ∈ visit, e.block ≠ b) ↔ b ≠ root ∧ b ≠ pool := by
    intro b
    rw [hvisit]
    split_ifs with heq
    · simp [Ledger.Event.block, heq, eq_comm]
    · simp [Ledger.Event.block, eq_comm]
  have hfree : ∀ b, .free b ∈ freeIksChilds pool children ++ visit ↔
      b ∈ entered pool children ∨ root ≠ pool ∧ b = pool := by
    intro b
    rw [List.mem_append, free_mem_freeIksChilds, hvisit]
    split_ifs with heq
    · simp [heq]
    · simp [heq]
  rw [freeIksChilds, Ledger.sound_use_cons, Ledger.sound_append, List.append_assoc, ← hvisit,
    Ledger.sound_append]
  simp only [hfree, hblock, free_mem_freeIksChilds, or_imp, forall_and, hsound, true_and]
  constructor
  · rintro ⟨⟨hc, hroot, hpool⟩, hs, hrest, hnode⟩
    exact ⟨hc, hs, ⟨hroot, hpool⟩, hrest, fun hne => hnode pool ⟨hne, rfl⟩⟩
  · rintro ⟨hc, hs, ⟨hroot, hpool⟩, hrest, hnode⟩
    refine ⟨⟨hc, hroot, hpool⟩, hs, hrest, ?_⟩
    rintro b ⟨hne, rfl⟩
    exact hnode hne

/-- The walk touches the root's stack, perhaps, and exactly those that it enters. -/
lemma avoids_freeIksChilds_iff {f : Forest} {root p : ℕ} (hp : p ≠ root) :
    (∀ e ∈ freeIksChilds root f, e.block ≠ p) ↔ p ∉ entered root f := by
  constructor
  · intro h hentered
    exact h _ (free_mem_freeIksChilds.mpr hentered) rfl
  · rintro h e he rfl
    exact (block_mem_freeIksChilds he).elim hp h

/-- **The walk is sound** and spares the stack of the root exactly when no stack is entered twice,
nor that of the root again.

**Proof sketch.** Induction on the forest. What the walk of the children deleted must not be touched
by that of the siblings, which touches the stack of the root, perhaps, and what it enters; and a
child's stack is touched behind the walk of what is under it. -/
lemma sound_freeIksChilds_iff (f : Forest) (root : ℕ) :
    Ledger.Sound (freeIksChilds root f) ∧ .free root ∉ freeIksChilds root f ↔
      (root :: entered root f).Nodup := by
  induction f generalizing root with
  | nil => simp [freeIksChilds, entered]
  | node pool children siblings ihc ihs =>
    have hroot : root ∉ entered root (.node pool children siblings) ↔
        root ∉ entered pool children ∧ root ∉ entered root siblings := by
      by_cases heq : root = pool <;> simp [entered, heq]
    rw [nodup_entered_node, ← ihc pool, ← ihs root, sound_freeIksChilds_node,
      free_mem_freeIksChilds, free_mem_freeIksChilds, free_mem_freeIksChilds, hroot]
    constructor
    · rintro ⟨⟨hc, hs, hne, hrest, hnode⟩, hrootc, hroots⟩
      refine ⟨⟨hc, fun h => (hne pool h).2 rfl⟩, ⟨hs, hroots⟩, hrootc, fun heq => ?_, ?_⟩
      · exact (avoids_freeIksChilds_iff (Ne.symm heq)).mp (hnode heq)
      · intro p hp
        exact (avoids_freeIksChilds_iff (hne p hp).1).mp (hrest p hp)
    · rintro ⟨⟨hc, hpool⟩, ⟨hs, hroots⟩, hrootc, hnode, hdisjoint⟩
      have hne : ∀ p ∈ entered pool children, p ≠ root ∧ p ≠ pool :=
        fun p hp => ⟨fun h => hrootc (h ▸ hp), fun h => hpool (h ▸ hp)⟩
      refine ⟨⟨hc, hs, hne, fun p hp => ?_, fun heq => ?_⟩, hrootc, hroots⟩
      · exact (avoids_freeIksChilds_iff (hne p hp).1).mpr (hdisjoint p hp)
      · exact (avoids_freeIksChilds_iff (Ne.symm heq)).mpr (hnode heq)

/-- Reading a tree releases nothing. -/
lemma sound_iksRead_append (ik : Tree) (log : List (Ledger.Event ℕ)) :
    Ledger.Sound (iksRead ik ++ log) ↔ Ledger.Sound log := by
  unfold iksRead
  induction ik.pools with
  | nil => rfl
  | cons p ps ih => exact Ledger.sound_use_cons.trans ih

/-- A stack is deleted as often as it is entered. -/
lemma count_free_getIksString (ik : Tree) (p : ℕ) :
    (getIksString (some ik)).count (.free p) = ik.entered.count p := by
  have hread : (iksRead ik).count (.free p) = 0 := by
    rw [List.count_eq_zero, iksRead]
    intro h
    obtain ⟨_, _, heq⟩ := List.mem_map.mp h
    cases heq
  rw [getIksString, List.count_append, hread, List.count_cons, List.count_append,
    count_free_freeIksChilds, Tree.entered]
  simp [List.count_cons]

/-- **Deleting a tree**: `_get_iks_string` touches no stack that it deleted and deletes each stack
of the tree once, exactly when no stack is entered twice on the way down from the root. In any
case it deletes a stack as often as it is entered.

**Proof sketch.** Reading the tree first deletes nothing. Behind it the call walks over the
children, which is sound and spares the root's stack exactly when no stack is entered twice, and
deletes the stack of the root. -/
theorem get_iks_string_sound_iff (ik : Tree) :
    ((Ledger.Sound (getIksString (some ik)) ∧
      ∀ p ∈ ik.pools, (getIksString (some ik)).count (.free p) = 1) ↔ ik.entered.Nodup) ∧
    ∀ p, (getIksString (some ik)).count (.free p) = ik.entered.count p := by
  have hsound : Ledger.Sound (getIksString (some ik)) ↔ ik.entered.Nodup := by
    rw [getIksString, sound_iksRead_append, Ledger.sound_use_cons, Ledger.sound_concat]
    exact sound_freeIksChilds_iff ik.children ik.pool
  refine ⟨⟨fun h => hsound.mp h.1, fun h => ⟨hsound.mpr h, fun p hp => ?_⟩⟩,
    count_free_getIksString ik⟩
  rw [count_free_getIksString]
  exact List.count_eq_one_of_mem h (Tree.mem_entered.mpr hp)

end Taningia
