import Taningia.Lib.Chain

set_option relaxedAutoImplicit false
set_option autoImplicit false

/-!
# Doubly linked rings in a memory

A *ring* is a chain that is entered from its own end: every cell has a neighbour on both sides. A
ring may be read from any of its cells, so that each operation on it is described at the cell where
it takes place: a new cell goes in before the first one, and the first one is taken out.

## Main definitions

* `Chain.Ring` — the cells are linked to each other in order, and the last to the first.
* `Chain.storeNext`, `Chain.storePrev` — the link updates that fail at a dangling pointer.

## Main results

* `Chain.ring_append_comm` — a ring may be read from any of its cells.
* `Chain.Ring.insert` — the four stores that put a cell in before another one.
* `Chain.Ring.remove` — the two stores that take a cell out.
* `Chain.Ring.follow` — the forward links of a part of a ring lead to what follows it.
-/

namespace Chain

variable {A D : Type*}

/-- The cells of `l` are linked in order, the last one to the first. -/
def Ring (m : Mem A D) (l : List (A × D)) : Prop := Seg m (exit none l) l (entry none l)

/-! ## Where a ring starts -/

/-- Where a non-empty segment is entered does not depend on what follows it. -/
lemma entry_eq_of_ne_nil {l : List (A × D)} (h : l ≠ []) (n n' : Option A) :
    entry n l = entry n' l := by
  cases l with
  | nil => exact absurd rfl h
  | cons c l => rfl

/-- Where a non-empty segment is left from does not depend on what precedes it. -/
lemma exit_eq_of_ne_nil {l : List (A × D)} (h : l ≠ []) (p p' : Option A) :
    exit p l = exit p' l := by
  cases l with
  | nil => exact absurd rfl h
  | cons c l => rfl

/-- **A ring may be read from any of its cells.** -/
lemma ring_append_comm {m : Mem A D} {l₁ l₂ : List (A × D)} :
    Ring m (l₁ ++ l₂) ↔ Ring m (l₂ ++ l₁) := by
  by_cases h₁ : l₁ = []
  · rw [h₁, List.nil_append, List.append_nil]
  by_cases h₂ : l₂ = []
  · rw [h₂, List.nil_append, List.append_nil]
  have hexit₁ : ∀ p, exit p l₁ = exit none l₁ := fun p => exit_eq_of_ne_nil h₁ p none
  have hexit₂ : ∀ p, exit p l₂ = exit none l₂ := fun p => exit_eq_of_ne_nil h₂ p none
  have hentry₁ : ∀ n, entry n l₁ = entry none l₁ := fun n => entry_eq_of_ne_nil h₁ n none
  have hentry₂ : ∀ n, entry n l₂ = entry none l₂ := fun n => entry_eq_of_ne_nil h₂ n none
  simp only [Ring, seg_append, exit_append, entry_append, hexit₁, hexit₂, hentry₁, hentry₂]
  exact and_comm

/-- A cell of a ring between the two parts around it. -/
lemma Ring.cell_at {m : Mem A D} {l₁ l₂ : List (A × D)} {c : A × D}
    (h : Ring m (l₁ ++ c :: l₂)) :
    m c.1 = some ⟨exit (exit none (c :: l₂)) l₁, entry (entry none (l₁ ++ [c])) l₂, c.2⟩ := by
  have hentry : entry none (l₁ ++ c :: l₂) = entry none (l₁ ++ [c]) := by
    cases l₁ <;> rfl
  have hexit : exit (exit none (l₁ ++ c :: l₂)) l₁ = exit (exit none (c :: l₂)) l₁ := by
    rw [exit_append, exit_cons, exit_cons]
  rw [Ring] at h
  rw [(seg_middle.mp h).2.1, hentry, hexit]

/-- The first cell of a ring. -/
lemma Ring.head_cell {m : Mem A D} {l : List (A × D)} {c : A × D} (h : Ring m (c :: l)) :
    m c.1 = some ⟨exit (some c.1) l, entry (some c.1) l, c.2⟩ := (seg_cons.mp h).1

/-- Every cell of a ring is there. -/
lemma Ring.isSome {m : Mem A D} {l : List (A × D)} (h : Ring m l) {a : A} (ha : a ∈ addrs l) :
    (m a).isSome = true := by
  obtain ⟨c, hc, rfl⟩ := List.mem_map.mp ha
  exact Seg.isSome h hc

/-- The last cell of a ring precedes the first one. -/
lemma Ring.first_cell {m : Mem A D} {l : List (A × D)} {e : A × D} {x : A}
    (h : Ring m (l ++ [e])) (hx : entry none (l ++ [e]) = some x) :
    ∃ n d, m x = some ⟨some e.1, n, d⟩ := by
  cases hl : l ++ [e] with
  | nil => simp at hl
  | cons b l' =>
    rw [Ring, exit_concat, hl] at h
    rw [hl] at hx
    obtain rfl : b.1 = x := Option.some.inj hx
    exact ⟨_, _, h.1⟩

/-- A ring depends on its own cells only. -/
lemma Ring.congr {m m' : Mem A D} {l : List (A × D)} (h : Ring m l)
    (hm : ∀ a ∈ addrs l, m' a = m a) : Ring m' l := Seg.congr h hm

/-- **The forward links of a part of a ring** lead to what follows it. -/
lemma Ring.follow {m : Mem A D} {l₁ l₂ : List (A × D)} (h : Ring m (l₁ ++ l₂)) (hne : l₁ ≠ []) :
    Path m l₂ (entry none l₁) := by
  have hpath := (path_append.mp (Seg.path h)).2
  rwa [entry_append, entry_eq_of_ne_nil hne _ none] at hpath

/-! ## Stores that fail at a dangling pointer -/

section Stores

variable [DecidableEq A]

/-- `p->next = n`; a dangling `p` is a fault. -/
def storeNext (m : Mem A D) (p n : Option A) : Option (Mem A D) :=
  p.bind fun a => (m a).map fun _ => setNext m a n

/-- `p->prev = n`; a dangling `p` is a fault. -/
def storePrev (m : Mem A D) (p n : Option A) : Option (Mem A D) :=
  p.bind fun a => (m a).map fun _ => setPrev m a n

/-- A store to a cell that is there. -/
lemma storeNext_eq {m : Mem A D} {a : A} (h : (m a).isSome = true) (n : Option A) :
    storeNext m (some a) n = some (setNext m a n) := by
  obtain ⟨c, hc⟩ := Option.isSome_iff_exists.mp h
  rw [storeNext, Option.bind_some, hc, Option.map_some]

/-- A store to a cell that is there. -/
lemma storePrev_eq {m : Mem A D} {a : A} (h : (m a).isSome = true) (n : Option A) :
    storePrev m (some a) n = some (setPrev m a n) := by
  obtain ⟨c, hc⟩ := Option.isSome_iff_exists.mp h
  rw [storePrev, Option.bind_some, hc, Option.map_some]

end Stores

/-! ## Putting a cell in and taking one out -/

section Splicing

variable [DecidableEq A]

/-- The memory after the cell `a` was linked in between the neighbours `p` and `n`. -/
def splice (m : Mem A D) (p a n : A) : Mem A D :=
  setPrev (setNext (setPrev (setNext m a (some n)) a (some p)) p (some a)) n (some a)

/-- Putting a cell in changes three cells only. -/
lemma splice_of_ne (m : Mem A D) {p a n x : A} (hp : x ≠ p) (ha : x ≠ a) (hn : x ≠ n) :
    splice m p a n x = m x := by
  rw [splice, setPrev_of_ne _ _ hn, setNext_of_ne _ _ hp, setPrev_of_ne _ _ ha,
    setNext_of_ne _ _ ha]

/-- **A new cell goes in** before the first cell of a ring, which is after its last.

**Proof sketch.** In a ring of one cell the last is the first. In each case the cells of the new
ring are read off the four stores in their order; the cells between keep theirs. -/
lemma Ring.insert {m : Mem A D} {l : List (A × D)} {e c : A × D} {x : A} (h : Ring m (l ++ [e]))
    (hnodup : (addrs (l ++ [e])).Nodup) (hx : entry none (l ++ [e]) = some x)
    (hc : c.1 ∉ addrs (l ++ [e])) {q r : Option A} (hcell : m c.1 = some ⟨q, r, c.2⟩) :
    Ring (splice m e.1 c.1 x) ((l ++ [e]) ++ [c]) := by
  have hxmem : x ∈ addrs (l ++ [e]) := mem_of_entry_eq_some hx
  have hce : c.1 ≠ e.1 := fun he => hc (he ▸ by simp)
  have hcx : c.1 ≠ x := fun he => hc (he ▸ hxmem)
  rw [Ring, hx, exit_concat] at h
  -- the new cell gets its links, then the last cell, then the first
  have h₁ := (h.setNext_of_not_mem hc (some x)).setPrev_of_not_mem hc (some e.1)
  have h₂ := h₁.setNext_concat (not_mem_of_nodup_concat hnodup) (some c.1)
  have h₃ : Seg (splice m e.1 c.1 x) (some c.1) (l ++ [e]) (some c.1) := by
    cases hl : l ++ [e] with
    | nil => simp at hl
    | cons b l' =>
      rw [hl] at h₂ hx hnodup
      obtain rfl : b.1 = x := Option.some.inj hx
      exact h₂.setPrev_cons (List.nodup_cons.mp hnodup).1 (some c.1)
  have hnew : splice m e.1 c.1 x c.1 = some ⟨some e.1, some x, c.2⟩ := by
    rw [splice, setPrev_of_ne _ _ hcx, setNext_of_ne _ _ hce, setPrev_self, setNext_self, hcell]
    rfl
  have hentry : entry none ((l ++ [e]) ++ [c]) = some x := by
    rw [entry_append, ← hx]
    exact entry_eq_of_ne_nil (by simp) _ _
  rw [Ring, exit_concat, hentry]
  refine seg_append.mpr ⟨h₃, ?_, trivial⟩
  rw [exit_concat, hnew]
  rfl

/-- The memory after the neighbours `p` and `n` were linked to each other. -/
def bridge (m : Mem A D) (p n : A) : Mem A D := setPrev (setNext m p (some n)) n (some p)

/-- Taking a cell out changes two cells only. -/
lemma bridge_of_ne (m : Mem A D) {p n x : A} (hp : x ≠ p) (hn : x ≠ n) :
    bridge m p n x = m x := by
  rw [bridge, setPrev_of_ne _ _ hn, setNext_of_ne _ _ hp]

/-- **The first cell of a ring is taken out** by linking its two neighbours. -/
lemma Ring.remove {m : Mem A D} {l : List (A × D)} {c e : A × D} {x : A}
    (h : Ring m (c :: (l ++ [e])))
    (hnodup : (addrs (l ++ [e])).Nodup) (hx : entry none (l ++ [e]) = some x) :
    Ring (bridge m e.1 x) (l ++ [e]) := by
  have hseg : Seg m (some c.1) (l ++ [e]) (some c.1) := (seg_cons.mp h).2
  have h₁ := hseg.setNext_concat (not_mem_of_nodup_concat hnodup) (some x)
  rw [Ring, hx, exit_concat]
  cases hl : l ++ [e] with
  | nil => simp at hl
  | cons b l' =>
    rw [hl] at h₁ hx hnodup
    obtain rfl : b.1 = x := Option.some.inj hx
    exact h₁.setPrev_cons (List.nodup_cons.mp hnodup).1 (some e.1)

end Splicing

end Chain
