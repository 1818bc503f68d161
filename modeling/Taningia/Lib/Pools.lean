import Mathlib.Data.List.Perm.Basic
import Mathlib.Data.List.Range
import Mathlib.Data.List.Nodup

set_option relaxedAutoImplicit false
set_option autoImplicit false

/-!
# Trees over several pools

The nodes of a tree are taken from pools, and a pool is given back as a whole. A new node comes from
the pool of its parent, but a tree may also be put under a node of another one, and keeps its pools.
A walk down the tree enters a pool where a node is not in the pool of its parent. When no pool is
entered twice, the nodes of each pool are the top of a subtree.

## Main definitions

* `Pools.Forest` — the nodes of a level with what is under them.
* `Pools.entered` — the pools that are entered under a node.
* `Pools.Tree`, `Pools.Tree.Spans` — a tree, and one whose pools are the numbers of an interval.

## Main results

* `Pools.mem_entered` — every pool but that of the root is entered.
* `Pools.Tree.Spans.append` — a tree that is put together from two trees.
* `Pools.Tree.entered_insert`, `Pools.Tree.entered_insertNode` — two ways to put nodes together.
-/

namespace Pools

/-- The nodes of a level from the first one on: its pool, the nodes under it, and those behind it.
-/
inductive Forest where
  | nil
  | node (pool : ℕ) (children siblings : Forest)
deriving DecidableEq, Repr

/-- The pools of all nodes. -/
def Forest.pools : Forest → List ℕ
  | .nil => []
  | .node pool children siblings => pool :: (children.pools ++ siblings.pools)

/-- More nodes behind the last one. -/
def Forest.append : Forest → Forest → Forest
  | .nil, g => g
  | .node pool children siblings, g => .node pool children (siblings.append g)

/-- The pools that are entered under a node of the pool `root`. -/
def entered (root : ℕ) : Forest → List ℕ
  | .nil => []
  | .node pool children siblings =>
    (if root = pool then [] else [pool]) ++ (entered pool children ++ entered root siblings)

/-- Every pool but that of the root is entered.

**Proof sketch.** Induction on the forest: the pool is the one of the first node, which is
entered unless it is the root's, or it is one of the children or of the siblings. -/
lemma mem_entered {f : Forest} {root p : ℕ} (hp : p ∈ f.pools) : p = root ∨ p ∈ entered root f := by
  induction f generalizing root with
  | nil => cases hp
  | node pool children siblings ihc ihs =>
    have hpool : pool = root ∨ pool ∈ entered root (.node pool children siblings) := by
      by_cases heq : root = pool
      · exact .inl heq.symm
      · exact .inr (by simp [entered, heq])
    rcases List.mem_cons.mp hp with rfl | hp
    · exact hpool
    · rcases List.mem_append.mp hp with hp | hp
      · have hchild : p = pool ∨ p ∈ entered pool children := ihc hp
        rcases hchild with rfl | hp
        · exact hpool
        · exact .inr (by simp [entered, hp])
      · have hsibling : p = root ∨ p ∈ entered root siblings := ihs hp
        rcases hsibling with hp | hp
        · exact .inl hp
        · exact .inr (by simp [entered, hp])

/-- Only pools of the forest are entered. -/
lemma entered_subset (f : Forest) (root : ℕ) : entered root f ⊆ f.pools := by
  induction f generalizing root with
  | nil => exact List.Subset.refl _
  | node pool children siblings ihc ihs =>
    intro p hp
    rcases List.mem_append.mp hp with hp | hp
    · split_ifs at hp
      · cases hp
      · exact List.mem_cons.mpr (.inl (List.mem_singleton.mp hp))
    · refine List.mem_cons_of_mem _ (List.mem_append.mpr ?_)
      exact (List.mem_append.mp hp).imp (fun h => ihc pool h) (fun h => ihs root h)

/-- Two forests are entered one after the other. -/
lemma entered_append (root : ℕ) (f g : Forest) :
    entered root (f.append g) = entered root f ++ entered root g := by
  induction f with
  | nil => rfl
  | node pool children siblings _ ihs =>
    show _ ++ (_ ++ entered root (siblings.append g)) = _ ++ (_ ++ _) ++ _
    rw [ihs]
    simp only [List.append_assoc]

/-- No pool is entered twice in the parts of a forest, nor in two of them.

**Proof sketch.** By cases on whether the node is in the pool of the root; the lists are then
appended, and no duplicates of an appended list are split up. -/
lemma nodup_entered_node {root pool : ℕ} {children siblings : Forest} :
    (root :: entered root (.node pool children siblings)).Nodup ↔
      (pool :: entered pool children).Nodup ∧ (root :: entered root siblings).Nodup ∧
        root ∉ entered pool children ∧ (root ≠ pool → pool ∉ entered root siblings) ∧
        ∀ p ∈ entered pool children, p ∉ entered root siblings := by
  have hdisjoint : (∀ a ∈ entered pool children, ∀ b ∈ entered root siblings, a ≠ b) ↔
      ∀ p ∈ entered pool children, p ∉ entered root siblings :=
    forall₂_congr fun p _ => ⟨fun h hp => h p hp rfl, fun h b hb heq => h (heq ▸ hb)⟩
  by_cases heq : root = pool
  · subst heq
    simp only [entered, if_true, List.nil_append, List.nodup_cons, List.nodup_append,
      List.mem_append, not_or, hdisjoint, ne_eq, not_true_eq_false, false_imp_iff, true_and]
    tauto
  · rw [entered, if_neg heq, List.singleton_append]
    simp only [List.nodup_cons, List.nodup_append, List.mem_append, List.mem_cons, not_or,
      hdisjoint, ne_eq, heq, not_false_eq_true, true_imp_iff, true_and]
    tauto

/-! ## Trees -/

/-- A node with what is under it. -/
structure Tree where
  pool : ℕ
  children : Forest
deriving DecidableEq, Repr

/-- The pools of a tree that are entered from outside. -/
def Tree.entered (t : Tree) : List ℕ := t.pool :: Pools.entered t.pool t.children

/-- The pools of all nodes of a tree. -/
def Tree.pools (t : Tree) : List ℕ := t.pool :: t.children.pools

/-- A new node with nodes under it, from the pool of its parent, behind the last child. -/
def Tree.insert (t : Tree) (children : Forest) : Tree :=
  { t with children := t.children.append (.node t.pool children .nil) }

/-- A tree behind the last child. -/
def Tree.insertNode (t u : Tree) : Tree :=
  { t with children := t.children.append (.node u.pool u.children .nil) }

/-- The pools of a tree are those that are entered. -/
lemma Tree.mem_entered {t : Tree} {p : ℕ} : p ∈ t.entered ↔ p ∈ t.pools := by
  constructor
  · intro hp
    exact (List.mem_cons.mp hp).elim (fun h => List.mem_cons.mpr (.inl h))
      fun h => List.mem_cons_of_mem _ (entered_subset _ _ h)
  · intro hp
    rcases List.mem_cons.mp hp with rfl | hp
    · exact List.mem_cons_self
    · exact List.mem_cons.mpr (Pools.mem_entered hp)

/-- The pools of the tree are the numbers from `low` to `high`, and each of them is entered once. -/
structure Tree.Spans (t : Tree) (low high : ℕ) : Prop where
  le : low ≤ high
  perm : t.entered.Perm (List.range' low (high - low))

/-- A new node in a pool of its own. -/
lemma Tree.Spans.new (pool : ℕ) : (Tree.mk pool .nil).Spans pool (pool + 1) := by
  refine ⟨Nat.le_succ _, ?_⟩
  rw [Nat.add_sub_cancel_left]
  exact List.Perm.refl _

variable {t u : Tree} {low mid high p : ℕ}

/-- The pools between two bounds are entered once. -/
lemma Tree.Spans.nodup (h : t.Spans low high) : t.entered.Nodup :=
  h.perm.nodup_iff.mpr List.nodup_range'

/-- The pools of the tree are those between the bounds. -/
lemma Tree.Spans.mem_iff (h : t.Spans low high) : p ∈ t.entered ↔ low ≤ p ∧ p < high := by
  have hle := h.le
  rw [h.perm.mem_iff, List.mem_range'_1]
  omega

/-- A tree that enters the same pools. -/
lemma Tree.Spans.of_perm (h : t.Spans low high) (hu : u.entered.Perm t.entered) :
    u.Spans low high := ⟨h.le, hu.trans h.perm⟩

/-- Trees of different pools have no pool in common. -/
lemma Tree.Spans.disjoint (h : t.Spans low mid) (hu : u.Spans mid high) :
    ∀ p ∈ t.entered, p ∉ u.entered := by
  intro p hp hp'
  have hbelow := (h.mem_iff.mp hp).2
  have habove := (hu.mem_iff.mp hp').1
  omega

/-- **A tree that enters the pools of two trees**, which are those of two intervals, has the pools
of both.

**Proof sketch.** The interval from `low` to `high` is the one from `low` to `mid` with the one from
`mid` to `high` behind it. -/
lemma Tree.Spans.append {v : Tree} (h : t.Spans low mid) (hu : u.Spans mid high)
    (hv : v.entered.Perm (t.entered ++ u.entered)) : v.Spans low high := by
  refine ⟨h.le.trans hu.le, ?_⟩
  have hsplit : List.range' low (high - low) =
      List.range' low (mid - low) ++ List.range' mid (high - mid) := by
    have hle := h.le
    have hle' := hu.le
    rw [show high - low = (mid - low) + (high - mid) by omega, ← List.range'_append_1,
      show low + (mid - low) = mid by omega]
  rw [hsplit]
  exact hv.trans (h.perm.append hu.perm)

/-! ## Two ways to put nodes together -/

/-- **A node of the parent's pool**, with nodes under it that enter no other pool, enters none. -/
lemma Tree.entered_insert {children : Forest} (hc : Pools.entered t.pool children = []) :
    (t.insert children).entered = t.entered := by
  show t.pool :: Pools.entered t.pool (t.children.append _) = _
  rw [entered_append]
  simp [Pools.entered, hc, Tree.entered]

/-- **A tree of another pool** brings all the pools that it enters. -/
lemma Tree.entered_insertNode (hne : t.pool ≠ u.pool) :
    (t.insertNode u).entered = t.entered ++ u.entered := by
  show t.pool :: Pools.entered t.pool (t.children.append _) = _
  rw [entered_append]
  simp [Pools.entered, Tree.entered, hne]

end Pools
