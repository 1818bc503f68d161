import Mathlib.Data.List.Range
import Mathlib.Data.List.Perm.Subperm
import Mathlib.Tactic.Tauto
import Taningia.LinkedList.Basic

set_option relaxedAutoImplicit false
set_option autoImplicit false

/-!
# What the list functions do to a chain

One specification for each function of `src/list.c`, over lists of nodes: a handle *represents* a
list of nodes when it is the head of a chain through them, and an operation moves one such chain to
another without touching any other node.

## Main definitions

* `Taningia.Rep` — a handle is the head of a chain through the given nodes.
* `Taningia.Moves` — an operation turned the nodes it owned into a chain, and nothing else changed.

## Main results

* `Taningia.listAppend_spec`, `Taningia.listInsert_spec`, `Taningia.listExtend_spec`,
  `Taningia.listRemove_found`, `Taningia.listPop_concat`, `Taningia.listReverse_spec`.
-/

namespace Taningia

open Chain

variable {D : Type}

/-- The handle is the head of a chain through the nodes, which are all different. -/
structure Rep (h : Heap D) (list : Option ℕ) (l : List (ℕ × Option D)) : Prop where
  head : list = entry none l
  seg : Seg h.cells none l none
  nodup : (addrs l).Nodup
  bound : ∀ a ∈ addrs l, a < h.size

/-- From `h` to `h'`, the nodes `old` and new ones became the chain `l`, and no other node
changed. -/
structure Moves (h h' : Heap D) (old : List ℕ) (l : List (ℕ × Option D)) : Prop where
  rep : Rep h' (entry none l) l
  grows : h.size ≤ h'.size
  frame : ∀ a < h.size, a ∉ old → h'.cells a = h.cells a
  owned : ∀ a ∈ addrs l, a ∈ old ∨ h.size ≤ a

/-! ## Loops along a represented list -/

/-- There are no more different nodes than addresses handed out. -/
lemma Heap.length_lt_fuel {h : Heap D} {l : List (ℕ × Option D)} (hnodup : (addrs l).Nodup)
    (hbound : ∀ a ∈ addrs l, a < h.size) : l.length < h.fuel := by
  have hsub : addrs l ⊆ List.range h.size := fun a ha => List.mem_range.mpr (hbound a ha)
  have hle := (List.subperm_of_subset hnodup hsub).length_le
  rw [addrs, List.length_map, List.length_range] at hle
  exact Nat.lt_succ_of_le hle

/-- The fuel of a heap is enough for every list in it. -/
lemma Rep.length_lt_fuel {h : Heap D} {list : Option ℕ} {l : List (ℕ × Option D)}
    (hr : Rep h list l) : l.length < h.fuel := Heap.length_lt_fuel hr.nodup hr.bound

/-- A loop over a represented list computes on its nodes. -/
lemma Rep.walk_eq {h : Heap D} {list : Option ℕ} {l : List (ℕ × Option D)}
    (hr : Rep h list l) {S R : Type} (body : S → ℕ → Option D → Except R S) (done : S → R)
    (s : S) : walk h.cells Cell.next body done h.fuel list s = some (scan body done l s) := by
  rw [hr.head]
  exact hr.seg.walk_next body done hr.length_lt_fuel s

/-- The loop of `ta_list_last` ends at the last node. -/
lemma scan_keepNode (l : List (ℕ × Option D)) (p : Option ℕ) :
    scan keepNode id l p = exit p l := by
  induction l generalizing p with
  | nil => rfl
  | cons c l ih => exact ih (some c.1)

/-- `ta_list_last` hands out the last node. -/
lemma Rep.listLast_eq {h : Heap D} {list : Option ℕ} {l : List (ℕ × Option D)}
    (hr : Rep h list l) : listLast h list = some (exit none l) := by
  rw [listLast, hr.walk_eq, scan_keepNode]

/-- **The last node**, from any node of the list. -/
lemma Rep.listLast_of_mem {h : Heap D} {list : Option ℕ} {l : List (ℕ × Option D)}
    (hr : Rep h list l) {a : ℕ} (ha : a ∈ addrs l) :
    listLast h (some a) = some (exit none l) := by
  obtain ⟨l₁, d, l₂, rfl⟩ := exists_split_of_mem_addrs ha
  have hlen := hr.length_lt_fuel
  rw [List.length_append] at hlen
  have hwalk := (seg_append.mp hr.seg).2.walk_next keepNode id
    (show ((a, d) :: l₂).length < h.fuel by omega) none
  rw [listLast, exit_append]
  rw [scan_keepNode] at hwalk
  exact hwalk

/-- **The first node**, from any node of the list. -/
lemma Rep.listFirst_of_mem {h : Heap D} {list : Option ℕ} {l : List (ℕ × Option D)}
    (hr : Rep h list l) {a : ℕ} (ha : a ∈ addrs l) : listFirst h (some a) = some list := by
  obtain ⟨l₁, d, l₂, rfl⟩ := exists_split_of_mem_addrs ha
  have hlen := hr.length_lt_fuel
  have hsplit : l₁ ++ (a, d) :: l₂ = (l₁ ++ [(a, d)]) ++ l₂ := by simp
  rw [hsplit] at hr hlen
  rw [List.length_append] at hlen
  have hwalk := (seg_append.mp hr.seg).1.walk_prev keepNode id
    (show (l₁ ++ [(a, d)]).length < h.fuel by omega) none
  rw [scan_keepNode, exit_concat, ← entry_reverse, List.reverse_reverse] at hwalk
  rw [listFirst, hwalk, hr.head, entry_append]
  cases l₁ <;> rfl

/-- The loop of `ta_list_len` adds the number of nodes to its counter. -/
lemma scan_length (l : List (ℕ × Option D)) (s : ℤ) :
    scan (fun len _ _ => (.ok (len + 1) : Except ℤ ℤ)) id l s = s + l.length := by
  induction l generalizing s with
  | nil => simp [scan]
  | cons c l ih =>
    show scan _ id l (s + 1) = _
    rw [ih, List.length_cons]
    push_cast
    omega

/-- `ta_list_len` counts the nodes. -/
lemma Rep.listLen_eq {h : Heap D} {list : Option ℕ} {l : List (ℕ × Option D)}
    (hr : Rep h list l) : listLen h list = some l.length := by
  rw [listLen, hr.walk_eq, scan_length]
  simp

/-- The data at a position; `NULL` outside of the list. -/
lemma Rep.listItem_eq {h : Heap D} {list : Option ℕ} {l : List (ℕ × Option D)}
    (hr : Rep h list l) (index : ℤ) :
    listItem h list index =
      some (if 0 ≤ index then ((l.map Prod.snd)[index.toNat]?).join else none) := by
  rw [listItem, hr.walk_eq, scan_counter (k := index) (f := Prod.snd)
    fun s a d => by simp only [eq_comm], Int.sub_zero, List.getElem?_map]
  cases l[index.toNat]? <;> rfl

/-- The loop of `ta_list_index` adds the position of the data to its counter.

**Proof sketch.** Induction on the list, with the counter arbitrary. At the first node with the
data the loop is left with the counter; a node without it moves the counter and the position on
by one. -/
lemma scan_idxOf [DecidableEq D] (data : Option D) (l : List (ℕ × Option D)) (s : ℤ) :
    scan (fun counter _ d => if d = data then .error counter else .ok (counter + 1))
      (fun _ => -1) l s =
      if data ∈ l.map Prod.snd then s + ((l.map Prod.snd).idxOf data : ℤ) else -1 := by
  induction l generalizing s with
  | nil => simp [scan]
  | cons c l ih =>
    rw [scan]
    by_cases hc : c.2 = data
    · simp [hc]
    · have hidx : (c.2 :: l.map Prod.snd).idxOf data = (l.map Prod.snd).idxOf data + 1 :=
        List.idxOf_cons_ne _ hc
      simp only [if_neg hc, ih, hidx, List.map_cons, List.mem_cons, Ne.symm hc, false_or]
      split
      · push_cast
        omega
      · rfl

/-- The position of the first node with the data; `-1` without one. -/
lemma Rep.listIndex_eq [DecidableEq D] {h : Heap D} {list : Option ℕ}
    {l : List (ℕ × Option D)} (hr : Rep h list l) (data : Option D) :
    listIndex h list data =
      some (if data ∈ l.map Prod.snd then ((l.map Prod.snd).idxOf data : ℤ) else -1) := by
  rw [listIndex, hr.walk_eq, scan_idxOf]
  simp

/-! ## Heaps -/

section Heaps

variable {h h' : Heap D} {l : List (ℕ × Option D)} {list : Option ℕ}

/-- A forward link is set in a node that is there. -/
lemma setNext_eq {a : ℕ} (ha : (h.cells a).isSome = true) (n : Option ℕ) :
    h.setNext (some a) n = some { h with cells := Chain.setNext h.cells a n } := by
  obtain ⟨c, hc⟩ := Option.isSome_iff_exists.mp ha
  rw [Heap.setNext, Option.bind_some, hc, Option.map_some]

/-- A backward link is set in a node that is there. -/
lemma setPrev_eq {a : ℕ} (ha : (h.cells a).isSome = true) (n : Option ℕ) :
    h.setPrev (some a) n = some { h with cells := Chain.setPrev h.cells a n } := by
  obtain ⟨c, hc⟩ := Option.isSome_iff_exists.mp ha
  rw [Heap.setPrev, Option.bind_some, hc, Option.map_some]

/-- An address not yet handed out is in no list. -/
lemma Rep.fresh (hr : Rep h list l) {a : ℕ} (ha : h.size ≤ a) : a ∉ addrs l := fun hmem => by
  have := hr.bound a hmem
  omega

/-- A represented list stays represented when its own cells stay. -/
lemma Rep.of_agree (hr : Rep h list l) (hsize : h.size ≤ h'.size)
    (hcells : ∀ a < h.size, h'.cells a = h.cells a) : Rep h' list l where
  head := hr.head
  seg := hr.seg.congr fun a ha => hcells a (hr.bound a ha)
  nodup := hr.nodup
  bound a ha := by
    have := hr.bound a ha
    omega

/-- A new node has an address of its own. -/
lemma listNew_cells (h : Heap D) (data : Option D) :
    (listNew h data).2.cells h.size = some ⟨none, none, data⟩ ∧
      ∀ a < h.size, (listNew h data).2.cells a = h.cells a := by
  refine ⟨Function.update_self _ _ _, fun a ha => Function.update_of_ne ?_ _ _⟩
  omega

/-- A list stays when a node is made. -/
lemma Rep.of_listNew (hr : Rep h list l) (data : Option D) : Rep (listNew h data).2 list l :=
  hr.of_agree (Nat.le_succ _) (listNew_cells h data).2

/-- A move from a heap that only has more nodes. -/
lemma Moves.of_agree {h₁ : Heap D} {old : List ℕ} (hm : Moves h₁ h' old l)
    (hsize : h.size ≤ h₁.size) (hcells : ∀ a < h.size, h₁.cells a = h.cells a) :
    Moves h h' old l where
  rep := hm.rep
  grows := hsize.trans hm.grows
  frame a ha hold := by rw [hm.frame a (by omega) hold, hcells a ha]
  owned a ha := by
    rcases hm.owned a ha with hold | hnew
    · exact Or.inl hold
    · exact Or.inr (hsize.trans hnew)

/-- Two moves in a row.

**Proof sketch.** A node of the last list is new in the second move, new in the first, or old; a
node outside of the old list was not taken into the list in between, so neither move touched it. -/
lemma Moves.trans {h₁ : Heap D} {old : List ℕ} {l₁ : List (ℕ × Option D)}
    (hm₁ : Moves h h₁ old l₁) (hm₂ : Moves h₁ h' (addrs l₁) l) : Moves h h' old l where
  rep := hm₂.rep
  grows := hm₁.grows.trans hm₂.grows
  frame a ha hold := by
    have hl₁ : a ∉ addrs l₁ := by
      intro hmem
      rcases hm₁.owned a hmem with hin | hfresh
      · exact hold hin
      · omega
    rw [hm₂.frame a (ha.trans_le hm₁.grows) hl₁, hm₁.frame a ha hold]
  owned a ha := by
    rcases hm₂.owned a ha with hin | hfresh
    · exact hm₁.owned a hin
    · exact Or.inr (hm₁.grows.trans hfresh)

/-- A node that left the chain may be freed. -/
lemma Moves.free {old : List ℕ} (hm : Moves h h' old l) {a : ℕ} (hold : a ∈ old)
    (ha : a ∉ addrs l) : Moves h (h'.free a) old l where
  rep := by
    refine ⟨rfl, hm.rep.seg.congr fun b hb => ?_, hm.rep.nodup, hm.rep.bound⟩
    have hne : b ≠ a := fun e => ha (e ▸ hb)
    exact Function.update_of_ne hne _ _
  grows := hm.grows
  frame b hb hnot := by
    have hne : b ≠ a := fun e => hnot (e ▸ hold)
    have hkeep : (h'.free a).cells b = h'.cells b := Function.update_of_ne hne _ _
    rw [hkeep, hm.frame b hb hnot]
  owned := hm.owned

/-- A list that is left alone. -/
lemma Rep.moves (hr : Rep h list l) : Moves h h (addrs l) l where
  rep := ⟨rfl, hr.seg, hr.nodup, hr.bound⟩
  grows := le_rfl
  frame _ _ _ := rfl
  owned _ ha := Or.inl ha

end Heaps

section Operations

variable {h : Heap D} {l : List (ℕ × Option D)} {list : Option ℕ}

/-! ## Append -/

/-- The chain of a list and a new node behind it. -/
lemma Rep.concat_nodup (hr : Rep h list l) (data : Option D) :
    (addrs (l ++ [(h.size, data)])).Nodup := by
  rw [addrs_append]
  refine List.nodup_append.mpr ⟨hr.nodup, by simp, ?_⟩
  rintro a ha b hb rfl
  obtain rfl : a = h.size := by simpa using hb
  exact hr.fresh le_rfl ha

/-- A chain of old nodes and the new one is a move, when only they were relinked.

**Proof sketch.** The nodes of the chain are old ones or the new one, all handed out now; the
frame is the assumption on the links that were set. -/
lemma moves_listNew {m : Mem ℕ (Option D)} {l' : List (ℕ × Option D)} (hr : Rep h list l)
    (hseg : Seg m none l' none) (hnodup : (addrs l').Nodup)
    (howned : ∀ a ∈ addrs l', a ∈ addrs l ∨ a = h.size)
    (hframe : ∀ a < h.size, a ∉ addrs l → m a = h.cells a) :
    Moves h ⟨m, h.size + 1⟩ (addrs l) l' where
  rep := by
    refine ⟨rfl, hseg, hnodup, fun a ha => ?_⟩
    show a < h.size + 1
    rcases howned a ha with hold | rfl
    · have := hr.bound a hold
      omega
    · omega
  grows := Nat.le_succ _
  frame := hframe
  owned a ha := by
    rcases howned a ha with hold | rfl
    · exact Or.inl hold
    · exact Or.inr le_rfl

/-- **Append** links a new node behind the last one.

**Proof sketch.** An empty list becomes the new node. Otherwise the last node is found by
`listLast_eq` and linked to the new one, which continues the segment. -/
lemma listAppend_spec (hr : Rep h list l) (d : D) :
    ∃ h', listAppend h list (some d) = some (h', entry none (l ++ [(h.size, some d)])) ∧
      Moves h h' (addrs l) (l ++ [(h.size, some d)]) := by
  obtain ⟨hcell, hkeep⟩ := listNew_cells h (some d)
  have hnodup := hr.concat_nodup (some d)
  have howned : ∀ a ∈ addrs (l ++ [(h.size, some d)]), a ∈ addrs l ∨ a = h.size := by
    intro a ha
    simpa using ha
  cases hl : l with
  | nil =>
    subst hl
    obtain rfl : list = none := hr.head
    exact ⟨_, rfl, moves_listNew hr ⟨hcell, trivial⟩ hnodup howned fun a ha _ => hkeep a ha⟩
  | cons c₀ l₀ =>
    have hlist : list = some c₀.1 := by rw [hr.head, hl, entry_cons]
    have hentry : entry none (l ++ [(h.size, some d)]) = list := by
      rw [entry_append, hr.head, hl, entry_cons, entry_cons]
    rw [← hl, hentry]
    obtain ⟨l', c, hsplit, hexit⟩ := exit_eq_some_of_ne_nil (l := l) (by simp [hl]) none
    have hrn := hr.of_listNew (some d)
    have hlast : listLast (listNew h (some d)).2 list = some (some c.1) := by
      rw [hrn.listLast_eq, hexit]
    have hseg := hrn.seg
    rw [hsplit] at hseg hnodup
    have hc : ((listNew h (some d)).2.cells c.1).isSome = true := hseg.isSome (by simp)
    refine ⟨⟨link (listNew h (some d)).2.cells c.1 h.size, h.size + 1⟩, ?_,
      moves_listNew hr ?_ (hsplit ▸ hnodup) howned ?_⟩
    · unfold listAppend
      rw [if_neg (by simp), hlist]
      rw [hlist] at hlast
      have hnew : (listNew h (some d)).1 = h.size := rfl
      simp only [hlast, hnew, Option.bind_eq_bind, Option.bind_some]
      rw [setNext_eq hc, Option.bind_some, setPrev_eq (by simp [hcell]), Option.bind_some]
      rfl
    · have hone : Seg (listNew h (some d)).2.cells none [(h.size, some d)] none := ⟨hcell, trivial⟩
      rw [hsplit]
      exact hseg.link hone hnodup
    · intro a ha hold
      have hac : a ≠ c.1 := fun e => hold (by rw [hsplit, e]; simp)
      rw [link_of_ne _ hac (by omega), hkeep a ha]

/-! ## Insert -/

/-- The node at a position, counted from the first node. -/
lemma Rep.nodeAt_eq (hr : Rep h list l) (position : ℤ) :
    nodeAt h list position =
      some (if 0 ≤ position then (addrs l)[position.toNat]? else none) := by
  rw [nodeAt, hr.walk_eq, scan_counter (k := position) (f := fun c => some c.1)
    fun _ _ _ => rfl, Int.sub_zero, addrs, List.getElem?_map]
  cases l[position.toNat]? <;> rfl

/-- The list with a new item at a position; any other position appends. -/
def insertAt {α : Type*} (position : ℤ) (x : α) (l : List α) : List α :=
  if 0 ≤ position ∧ position ≤ l.length then
    l.take position.toNat ++ x :: l.drop position.toNat
  else l ++ [x]

/-- To insert commutes with a map. -/
lemma map_insertAt {α β : Type*} (f : α → β) (position : ℤ) (x : α) (l : List α) :
    (insertAt position x l).map f = insertAt position (f x) (l.map f) := by
  unfold insertAt
  rw [List.length_map]
  split <;> simp

/-- To insert behind a first part. -/
lemma insertAt_length {α : Type*} (x : α) (l₁ l₂ : List α) :
    insertAt l₁.length x (l₁ ++ l₂) = l₁ ++ x :: l₂ := by
  have hle : 0 ≤ (l₁.length : ℤ) ∧ (l₁.length : ℤ) ≤ (l₁ ++ l₂).length := by
    rw [List.length_append]
    omega
  rw [insertAt, if_pos hle]
  simp

/-- A heap with one node more has the chain of the list and the chain of the node. -/
lemma Rep.seg_listNew (hr : Rep h list l) (data : Option D) :
    Seg (listNew h data).2.cells none l none ∧
      Seg (listNew h data).2.cells none [(h.size, data)] none :=
  ⟨(hr.of_listNew data).seg, (listNew_cells h data).1, trivial⟩

/-- The new node in front of the first one.

**Proof sketch.** The new node and the first node of the segment are linked to each other, which
makes a segment with the new node in front. -/
lemma listInsert_zero {c : ℕ × Option D} (hr : Rep h list (c :: l)) (data : Option D) :
    ∃ h', listInsert h list data 0 = some (h', some h.size) ∧
      Moves h h' (addrs (c :: l)) ((h.size, data) :: c :: l) := by
  obtain ⟨hseg, hone⟩ := hr.seg_listNew data
  obtain ⟨hcell, hkeep⟩ := listNew_cells h data
  have hlist : list = some c.1 := hr.head
  have hfresh := hr.fresh le_rfl
  have hnodup : (addrs (([] ++ [(h.size, data)]) ++ c :: l)).Nodup :=
    List.nodup_cons.mpr ⟨hfresh, hr.nodup⟩
  have hc : ((listNew h data).2.cells c.1).isSome = true := hseg.isSome (by simp)
  refine ⟨⟨link (listNew h data).2.cells h.size c.1, h.size + 1⟩, ?_, moves_listNew hr ?_ hnodup
    ?_ ?_⟩
  · have hnew : (listNew h data).1 = h.size := rfl
    unfold listInsert
    simp only [hlist, hnew, Option.bind_eq_bind, reduceCtorEq, if_false, if_true]
    rw [setPrev_eq hc, Option.bind_some, setNext_eq (by simp [hcell]), Option.bind_some,
      ← setPrev_setNext_comm]
    rfl
  · have hfront : Seg (listNew h data).2.cells none ([] ++ [(h.size, data)]) none := hone
    exact hfront.link hseg hnodup
  · intro a ha
    rcases List.mem_cons.mp ha with rfl | ha
    · exact Or.inr rfl
    · exact Or.inl ha
  · intro a ha hold
    have hac : a ≠ c.1 := fun e => hold (by rw [e]; simp)
    rw [link_of_ne _ (by omega) hac, hkeep a ha]

/-- The new node between two nodes.

**Proof sketch.** The node at the position is found by `nodeAt_eq`, and its backward link is the
node in front. The new node is linked to both, so the two parts of the segment are joined
through it. -/
lemma listInsert_between {l₁ l₂ : List (ℕ × Option D)} {b c : ℕ × Option D}
    (hr : Rep h list ((l₁ ++ [b]) ++ c :: l₂)) (data : Option D) :
    ∃ h', listInsert h list data (l₁ ++ [b]).length = some (h', list) ∧
      Moves h h' (addrs ((l₁ ++ [b]) ++ c :: l₂))
        ((l₁ ++ [b]) ++ (h.size, data) :: c :: l₂) := by
  obtain ⟨hseg, hone⟩ := hr.seg_listNew data
  obtain ⟨hcell, hkeep⟩ := listNew_cells h data
  have hfresh := hr.fresh le_rfl
  have hnodup := hr.nodup
  have hb : ((listNew h data).2.cells b.1).isSome = true := hseg.isSome (by simp)
  have hc : ((listNew h data).2.cells c.1).isSome = true := hseg.isSome (by simp)
  have hcdata := hseg.cell_at
  rw [exit_concat] at hcdata
  have hnode : nodeAt (listNew h data).2 list (l₁ ++ [b]).length = some (some c.1) := by
    rw [(hr.of_listNew data).nodeAt_eq, if_pos (by omega)]
    simp [addrs]
  have hnodup' : (addrs (((l₁ ++ [b]) ++ [(h.size, data)]) ++ c :: l₂)).Nodup := by
    have hperm : (addrs (((l₁ ++ [b]) ++ [(h.size, data)]) ++ c :: l₂)).Perm
        (h.size :: addrs ((l₁ ++ [b]) ++ c :: l₂)) := by
      simpa using @List.perm_middle ℕ h.size (addrs l₁ ++ [b.1]) (c.1 :: addrs l₂)
    exact hperm.nodup_iff.mpr (List.nodup_cons.mpr ⟨hfresh, hnodup⟩)
  have hlist : list ≠ none := by
    rw [hr.head]
    cases l₁ <;> simp
  obtain ⟨hseg₁, hseg₂⟩ := seg_append.mp hseg
  -- the new node is first linked behind `b`, then `c` behind the new node
  have hfront : Seg (link (listNew h data).2.cells b.1 h.size) none
      ((l₁ ++ [b]) ++ [(h.size, data)]) none :=
    hseg₁.link hone (List.Nodup.sublist (by simp [addrs]) hnodup')
  have hback : Seg (link (listNew h data).2.cells b.1 h.size) (some b.1) (c :: l₂) none := by
    rw [exit_concat] at hseg₂
    refine hseg₂.congr fun a ha => link_of_ne _ ?_ ?_
    · rintro rfl
      exact (nodup_addrs_append.mp hnodup).2.2 _ (by simp) _ ha rfl
    · rintro rfl
      exact hfresh (by rw [addrs_append]; exact List.mem_append_right _ ha)
  refine ⟨⟨link (link (listNew h data).2.cells b.1 h.size) h.size c.1, h.size + 1⟩, ?_,
    moves_listNew hr ?_ ?_ ?_ ?_⟩
  · have hnew : (listNew h data).1 = h.size := rfl
    have hpos : ((l₁ ++ [b]).length : ℤ) ≠ 0 := by
      rw [List.length_append, List.length_singleton]
      omega
    unfold listInsert
    simp only [hnew, hlist, hpos, hnode, hcdata, Option.bind_eq_bind, Option.bind_some, if_false]
    rw [setNext_eq hb, Option.bind_some, setNext_eq (by simp [hcell]), Option.bind_some,
      setPrev_eq (by simp [hcell]), Option.bind_some, setPrev_eq (by simp [hc]), Option.bind_some]
    simp only [setPrev_setNext_comm _ h.size h.size]
    rfl
  · have hlink := hfront.link hback hnodup'
    simpa using hlink
  · simpa using hnodup'
  · intro a ha
    simp only [addrs_append, addrs_cons, addrs_nil, List.mem_append, List.mem_cons] at ha ⊢
    tauto
  · intro a ha hold
    have hab : a ≠ b.1 := fun e => hold (by rw [e]; simp)
    have hac : a ≠ c.1 := fun e => hold (by rw [e]; simp)
    rw [link_of_ne _ (by omega) hac, link_of_ne _ hab (by omega), hkeep a ha]

/-- A position outside of a non-empty list, where the new node is given back and one appended.

**Proof sketch.** No node is at the position, so the new node is freed and `ta_list_append`
makes another, behind the last one. The freed node was in no list, so the list in between is the
old one. -/
lemma listInsert_outside (hr : Rep h list l) (hl : l ≠ []) {position : ℤ}
    (hpos : position < 0 ∨ l.length ≤ position) (d : D) :
    ∃ h', listInsert h list (some d) position =
        some (h', entry none (l ++ [(h.size + 1, some d)])) ∧
      Moves h h' (addrs l) (l ++ [(h.size + 1, some d)]) := by
  obtain ⟨hcell, hkeep⟩ := listNew_cells h (some d)
  have hnew : (listNew h (some d)).1 = h.size := rfl
  have hlist : list ≠ none := by
    obtain ⟨c, l', rfl⟩ := List.exists_cons_of_ne_nil hl
    rw [hr.head]
    simp
  have hzero : position ≠ 0 := by
    have := List.length_pos_iff.mpr hl
    omega
  have hnode : nodeAt (listNew h (some d)).2 list position = some none := by
    rw [(hr.of_listNew (some d)).nodeAt_eq]
    rcases hpos with hneg | hlen
    · rw [if_neg (by omega)]
    · rw [if_pos (by omega), List.getElem?_eq_none]
      rw [addrs, List.length_map]
      omega
  -- the heap in which the new node was freed again
  have hsize : h.size ≤ ((listNew h (some d)).2.free h.size).size := Nat.le_succ _
  have hcells : ∀ a < h.size, ((listNew h (some d)).2.free h.size).cells a = h.cells a := by
    intro a ha
    show Function.update (listNew h (some d)).2.cells h.size none a = _
    rw [Function.update_of_ne (by omega), hkeep a ha]
  obtain ⟨h', happend, hmoves⟩ := listAppend_spec (hr.of_agree hsize hcells) d
  refine ⟨h', ?_, hmoves.of_agree hsize hcells⟩
  unfold listInsert
  simp only [hnew, hlist, hzero, hnode, if_false, Option.bind_some]
  exact happend

/-- **Insert** puts the new node at the position, and at the end for any other position.

**Proof sketch.** By cases on the list and the position: an empty list becomes the new node;
position zero, a position inside and one outside are the three lemmas above. -/
lemma listInsert_spec (hr : Rep h list l) (d : D) (position : ℤ) :
    ∃ h' node, listInsert h list (some d) position =
        some (h', entry none (insertAt position (node, some d) l)) ∧
      Moves h h' (addrs l) (insertAt position (node, some d) l) := by
  cases hl : l with
  | nil =>
    subst hl
    obtain rfl : list = none := hr.head
    have hone : insertAt position (h.size, some d) [] = [(h.size, some d)] := by
      unfold insertAt
      split <;> simp
    refine ⟨_, h.size, by rw [hone]; rfl, ?_⟩
    rw [hone]
    exact moves_listNew hr (hr.seg_listNew (some d)).2 (by simp) (by simp)
      fun a ha _ => (listNew_cells h (some d)).2 a ha
  | cons c l' =>
    rw [← hl]
    have hne : l ≠ [] := by simp [hl]
    by_cases hin : 0 ≤ position ∧ position < l.length
    · obtain ⟨l₁, e, l₂, rfl, hpos⟩ : ∃ l₁ e l₂, l = l₁ ++ e :: l₂ ∧ position = l₁.length := by
        have hk : position.toNat < l.length := by omega
        refine ⟨l.take position.toNat, l[position.toNat], l.drop (position.toNat + 1), ?_, ?_⟩
        · rw [← List.drop_eq_getElem_cons hk, List.take_append_drop]
        · rw [List.length_take]
          omega
      rw [hpos]
      rcases List.eq_nil_or_concat' l₁ with rfl | ⟨l₀, b, rfl⟩
      · obtain ⟨h', heq, hmoves⟩ := listInsert_zero hr (some d)
        exact ⟨h', h.size, by rw [insertAt_length]; exact heq,
          by rw [insertAt_length]; exact hmoves⟩
      · obtain ⟨h', heq, hmoves⟩ := listInsert_between hr (some d)
        refine ⟨h', h.size, ?_, ?_⟩
        · rw [insertAt_length, heq, hr.head, entry_concat_append, entry_concat_append]
        · rw [insertAt_length]
          exact hmoves
    · have hout : position < 0 ∨ l.length ≤ position := by omega
      obtain ⟨h', heq, hmoves⟩ := listInsert_outside hr hne hout d
      have happend : insertAt position (h.size + 1, some d) l = l ++ [(h.size + 1, some d)] := by
        unfold insertAt
        split
        · rename_i hle
          have hlen : position.toNat = l.length := by omega
          rw [hlen]
          simp
        · rfl
      exact ⟨h', h.size + 1, by rw [happend, heq], by rw [happend]; exact hmoves⟩

/-- **Prepend** puts a new node in front. -/
lemma listPrepend_spec (hr : Rep h list l) (d : D) :
    ∃ h' node, listPrepend h list (some d) = some (h', entry none ((node, some d) :: l)) ∧
      Moves h h' (addrs l) ((node, some d) :: l) := by
  have hzero : ∀ node, insertAt 0 (node, some d) l = (node, some d) :: l := fun node =>
    insertAt_length (node, some d) [] l
  obtain ⟨h', node, heq, hmoves⟩ := listInsert_spec hr d 0
  rw [hzero] at heq hmoves
  exact ⟨h', node, heq, hmoves⟩

/-! ## Extend -/

/-- **Extend** links the first node of the other list behind the last one.

**Proof sketch.** An empty list on either side leaves the other one. Otherwise the last node of
the first and the first node of the second are linked, which joins the two segments, as they
share no node. -/
lemma listExtend_spec {other : Option ℕ} {k : List (ℕ × Option D)} (hr : Rep h list l)
    (hk : Rep h other k) (hdisj : (addrs l).Disjoint (addrs k)) :
    ∃ h', listExtend h list other = some (h', entry none (l ++ k)) ∧
      Moves h h' (addrs l ++ addrs k) (l ++ k) := by
  have hnodup : (addrs (l ++ k)).Nodup := by
    rw [addrs_append]
    exact List.Nodup.append hr.nodup hk.nodup hdisj
  have hmoves : ∀ m : Mem ℕ (Option D), Seg m none (l ++ k) none →
      (∀ a < h.size, a ∉ addrs l ++ addrs k → m a = h.cells a) →
      Moves h ⟨m, h.size⟩ (addrs l ++ addrs k) (l ++ k) := by
    intro m hseg hframe
    refine ⟨⟨rfl, hseg, hnodup, fun a ha => ?_⟩, le_rfl, hframe, fun a ha => Or.inl ?_⟩
    · rcases List.mem_append.mp (addrs_append l k ▸ ha) with ha | ha
      · exact hr.bound a ha
      · exact hk.bound a ha
    · exact addrs_append l k ▸ ha
  cases k with
  | nil =>
    obtain rfl : other = none := hk.head
    refine ⟨h, ?_, ?_⟩
    · rw [List.append_nil, ← hr.head]
      rfl
    · exact hmoves h.cells (by simpa using hr.seg) fun _ _ _ => rfl
  | cons e k =>
    obtain rfl : other = some e.1 := hk.head
    have he : (h.cells e.1).isSome = true := hk.seg.isSome (by simp)
    have hke : e.1 ∉ addrs k := (List.nodup_cons.mp hk.nodup).1
    rcases List.eq_nil_or_concat' l with rfl | ⟨l', c, rfl⟩
    · obtain rfl : list = none := hr.head
      refine ⟨⟨Chain.setPrev h.cells e.1 none, h.size⟩, ?_, hmoves _ (hk.seg.setPrev_cons hke _) ?_⟩
      · unfold listExtend
        rw [if_neg (by simp), hr.listLast_eq, Option.bind_some]
        simp only [exit_nil, Option.bind_eq_bind]
        rw [setPrev_eq he, Option.bind_some]
        rfl
      · intro a _ hold
        exact setPrev_of_ne _ _ fun e' => hold (by rw [e']; simp)
    · have hc : (h.cells c.1).isSome = true := hr.seg.isSome (by simp)
      refine ⟨⟨link h.cells c.1 e.1, h.size⟩, ?_, hmoves _ (hr.seg.link hk.seg hnodup) ?_⟩
      · have hentry : entry none (l' ++ [c] ++ e :: k) = list := by
          rw [hr.head, entry_concat_append]
        rw [hentry]
        unfold listExtend
        rw [if_neg (by simp), hr.listLast_eq, Option.bind_some]
        simp only [exit_concat, Option.bind_eq_bind]
        rw [setNext_eq hc, Option.bind_some, setPrev_eq (by simp [he]), Option.bind_some]
        rfl
      · intro a _ hold
        have hac : a ≠ c.1 := fun e' => hold (by rw [e']; simp)
        have hae : a ≠ e.1 := fun e' => hold (by rw [e']; simp)
        exact link_of_ne _ hac hae

/-! ## Remove -/

/-- A chain of some of the old nodes is a move, when only they were relinked. -/
lemma moves_relink {m : Mem ℕ (Option D)} {l' : List (ℕ × Option D)} (hr : Rep h list l)
    (hseg : Seg m none l' none) (hnodup : (addrs l').Nodup) (hsub : addrs l' ⊆ addrs l)
    (hframe : ∀ a < h.size, a ∉ addrs l → m a = h.cells a) :
    Moves h ⟨m, h.size⟩ (addrs l) l' where
  rep := ⟨rfl, hseg, hnodup, fun a ha => hr.bound a (hsub ha)⟩
  grows := le_rfl
  frame := hframe
  owned _ ha := Or.inl (hsub ha)

/-- A node behind another one is not the first. -/
lemma Rep.ne_head {l₁ l₂ : List (ℕ × Option D)} {b c : ℕ × Option D}
    (hr : Rep h list ((l₁ ++ [b]) ++ c :: l₂)) : some c.1 ≠ list := by
  intro heq
  rw [hr.head, entry_concat_append] at heq
  have hdisj := (nodup_addrs_append.mp hr.nodup).2.2
  exact hdisj _ (mem_of_entry_eq_some heq.symm) _ (by simp) rfl

/-- The first node with the given data. -/
lemma exists_first_with_data {data : Option D} (hdata : data ∈ l.map Prod.snd) :
    ∃ l₁ c l₂, l = l₁ ++ c :: l₂ ∧ c.2 = data ∧ data ∉ l₁.map Prod.snd := by
  obtain ⟨as, bs, hsplit, has⟩ := List.eq_append_cons_of_mem hdata
  obtain ⟨l₁, l', rfl, rfl, hl'⟩ := List.map_eq_append_iff.mp hsplit
  obtain ⟨c, l₂, rfl, hc, rfl⟩ := List.map_eq_cons_iff.mp hl'
  exact ⟨l₁, c, l₂, rfl, hc, has⟩

section Remove

variable [DecidableEq D]

/-- The loop of `ta_list_remove` ends at the first node with the data. -/
lemma scan_find (data : Option D) (l : List (ℕ × Option D)) :
    scan (fun s node d => if d ≠ data then .ok s else .error (some node)) (fun _ => none) l () =
      (l.find? fun c => c.2 = data).map Prod.fst := by
  induction l with
  | nil => rfl
  | cons c l ih =>
    rw [scan]
    by_cases hc : c.2 = data
    · simp [hc]
    · simp only [if_pos hc, ih, List.find?_cons, decide_eq_false hc]

/-- The search finds the first node with the data. -/
lemma Rep.nodeOf_eq (hr : Rep h list l) (data : Option D) :
    nodeOf h list data = some ((l.find? fun c => c.2 = data).map Prod.fst) := by
  rw [nodeOf, hr.walk_eq, scan_find]

/-- Nothing is removed when no node has the data. -/
lemma listRemove_absent (hr : Rep h list l) {data : Option D} (hdata : data ∉ l.map Prod.snd)
    (removed : Option ℕ) : listRemove h list data removed = some (h, list, removed) := by
  have hfind : (l.find? fun c => c.2 = data) = none := by
    apply List.find?_eq_none.mpr
    intro c hc
    simpa using fun e : c.2 = data => hdata (e ▸ List.mem_map_of_mem hc)
  rw [listRemove, hr.nodeOf_eq, hfind]
  rfl

/-- The first node with the data leaves the chain, with its links as they were.

**Proof sketch.** The neighbours of the node are linked to each other, where there are any: a node
with two neighbours is bridged by joining the two segments around it, and at an end of the list the
segment on the other side gets a `NULL` link. -/
lemma listRemove_found {l₁ l₂ : List (ℕ × Option D)} {c : ℕ × Option D}
    (hr : Rep h list (l₁ ++ c :: l₂)) (hdata : c.2 ∉ l₁.map Prod.snd) (removed : Option ℕ) :
    ∃ h', listRemove h list c.2 removed = some (h', entry none (l₁ ++ l₂), some c.1) ∧
      Moves h h' (addrs (l₁ ++ c :: l₂)) (l₁ ++ l₂) ∧ h'.cells c.1 = h.cells c.1 := by
  have hfind : ((l₁ ++ c :: l₂).find? fun x => x.2 = c.2) = some c := by
    refine List.find?_eq_some_iff_append.mpr ⟨by simp, l₁, l₂, rfl, fun a ha => ?_⟩
    simpa using fun e : a.2 = c.2 => hdata (e ▸ List.mem_map_of_mem ha)
  have hcell := hr.seg.cell_at
  have hnodup := hr.nodup
  have hsub : List.Sublist (addrs (l₁ ++ l₂)) (addrs (l₁ ++ c :: l₂)) := by
    simp [addrs]
  have hmoves : ∀ m : Mem ℕ (Option D), Seg m none (l₁ ++ l₂) none →
      (∀ a < h.size, a ∉ addrs (l₁ ++ c :: l₂) → m a = h.cells a) →
      Moves h ⟨m, h.size⟩ (addrs (l₁ ++ c :: l₂)) (l₁ ++ l₂) :=
    fun m hseg => moves_relink hr hseg (hnodup.sublist hsub) hsub.subset
  obtain ⟨hseg₁, -, hseg₂⟩ := seg_middle.mp hr.seg
  unfold listRemove
  rw [hr.nodeOf_eq, hfind]
  simp only [Option.map_some, Option.bind_some, Option.bind_eq_bind, hcell]
  rcases List.eq_nil_or_concat' l₁ with rfl | ⟨l₁, b, rfl⟩
  · obtain rfl : list = some c.1 := hr.head
    cases l₂ with
    | nil =>
      refine ⟨⟨h.cells, h.size⟩, ?_, hmoves _ trivial fun _ _ _ => rfl, hcell⟩
      simp
    | cons e l₂ =>
      have hce : c.1 ≠ e.1 := fun e' => (List.nodup_cons.mp hnodup).1 (by rw [e']; simp)
      have he : (h.cells e.1).isSome = true := hseg₂.isSome (by simp)
      have hel : e.1 ∉ addrs l₂ := (List.nodup_cons.mp (List.nodup_cons.mp hnodup).2).1
      refine ⟨⟨Chain.setPrev (Chain.setPrev h.cells e.1 none) e.1 none, h.size⟩, ?_,
        hmoves _ ((hseg₂.setPrev_cons hel none).setPrev_cons hel none) ?_, ?_⟩
      · simp [hcell, setPrev_eq, he, setPrev_of_ne _ _ hce]
      · intro a _ hold
        have hae : a ≠ e.1 := fun e' => hold (by rw [e']; simp)
        rw [setPrev_of_ne _ _ hae, setPrev_of_ne _ _ hae]
      · show Chain.setPrev _ e.1 none c.1 = _
        rw [setPrev_of_ne _ _ hce, setPrev_of_ne _ _ hce, hcell]
  · have hb : (h.cells b.1).isSome = true := hseg₁.isSome (by simp)
    have hdisj := (nodup_addrs_append.mp hnodup).2.2
    have hbc : b.1 ≠ c.1 := hdisj _ (by simp) _ (by simp)
    have hlist : list = entry none (l₁ ++ [b]) := by rw [hr.head, entry_concat_append]
    have hfirst := hr.ne_head
    rw [entry_concat_append, ← hlist]
    cases l₂ with
    | nil =>
      refine ⟨⟨Chain.setNext h.cells b.1 none, h.size⟩, ?_, hmoves _ ?_ ?_, ?_⟩
      · simp [hcell, setNext_eq, hb, setNext_of_ne _ _ hbc.symm, hfirst]
      · have hbl : b.1 ∉ addrs l₁ :=
          not_mem_of_nodup_concat (nodup_addrs_append.mp hnodup).1
        simpa using hseg₁.setNext_concat hbl none
      · intro a _ hold
        exact setNext_of_ne _ _ fun e' => hold (by rw [e']; simp)
      · show Chain.setNext _ b.1 none c.1 = _
        rw [setNext_of_ne _ _ hbc.symm, hcell]
    | cons e l₂ =>
      have he : (h.cells e.1).isSome = true := hseg₂.isSome (by simp)
      have hce : c.1 ≠ e.1 := by
        have hback := (nodup_addrs_append.mp hnodup).2.1
        exact fun e' => (List.nodup_cons.mp hback).1 (by rw [e']; simp)
      refine ⟨⟨link h.cells b.1 e.1, h.size⟩, ?_, hmoves _ ?_ ?_, ?_⟩
      · simp [hcell, setNext_eq, hb, setNext_of_ne _ _ hbc.symm, setPrev_eq, he, hfirst, link]
      · exact hseg₁.link hseg₂ (hnodup.sublist hsub)
      · intro a _ hold
        have hab : a ≠ b.1 := fun e' => hold (by rw [e']; simp)
        have hae : a ≠ e.1 := fun e' => hold (by rw [e']; simp)
        exact link_of_ne _ hab hae
      · show link _ b.1 e.1 c.1 = _
        rw [link_of_ne _ hbc.symm hce, hcell]

end Remove

/-! ## Pop -/

/-- Nothing is popped from an empty list. -/
lemma listPop_nil (hr : Rep h list []) (poppedOut : Option ℕ) :
    listPop h list poppedOut = some (h, none, poppedOut) := by
  obtain rfl : list = none := hr.head
  rfl

/-- **Pop** takes the last node out of the chain, with both its links `NULL`.

**Proof sketch.** The last node is found by `listLast_eq`. A single node leaves the empty list;
otherwise the node in front of it loses its forward link, which makes it the end of the segment,
and the last node loses its backward link. -/
lemma listPop_concat {c : ℕ × Option D} (hr : Rep h list (l ++ [c])) (poppedOut : Option ℕ) :
    ∃ h', listPop h list poppedOut = some (h', entry none l, some c.1) ∧
      Moves h h' (addrs (l ++ [c])) l ∧ h'.cells c.1 = some ⟨none, none, c.2⟩ := by
  have hcell := hr.seg.cell_at
  have hnodup := hr.nodup
  obtain ⟨hnodup₁, -, hdisj⟩ := nodup_addrs_append.mp hnodup
  have hsub : addrs l ⊆ addrs (l ++ [c]) := by
    rw [addrs_append]
    exact List.subset_append_left _ _
  have hne : list ≠ none := by
    rw [hr.head]
    cases l <;> simp
  unfold listPop
  rw [if_neg hne, hr.listLast_eq, exit_concat]
  simp only [Option.bind_eq_bind, Option.bind_some, hcell]
  rcases List.eq_nil_or_concat' l with rfl | ⟨l, b, rfl⟩
  · obtain rfl : list = some c.1 := hr.head
    refine ⟨h, by simp, ⟨⟨rfl, trivial, by simp, by simp⟩, le_rfl, fun _ _ _ => rfl, by simp⟩,
      hcell⟩
  · obtain ⟨hseg, -⟩ := seg_middle.mp hr.seg
    have hb : (h.cells b.1).isSome = true := hseg.isSome (by simp)
    have hbc : c.1 ≠ b.1 := (hdisj _ (by simp) _ (by simp)).symm
    have hbl : b.1 ∉ addrs l := not_mem_of_nodup_concat hnodup₁
    have hlist : list = entry none (l ++ [b]) := by rw [hr.head, entry_concat_append]
    have hfirst := hr.ne_head
    refine ⟨⟨Chain.setPrev (Chain.setNext h.cells b.1 none) c.1 none, h.size⟩, ?_,
      moves_relink hr ?_ hnodup₁ hsub ?_, ?_⟩
    · rw [← hlist]
      simp [setNext_eq, hb, setPrev_eq, hcell, hfirst]
    · refine Seg.setPrev_of_not_mem (hseg.setNext_concat hbl none) ?_ none
      exact fun hmem => hdisj _ hmem _ (by simp) rfl
    · intro a _ hold
      rw [setPrev_of_ne, setNext_of_ne]
      · exact fun e => hold (by rw [e]; simp)
      · exact fun e => hold (by rw [e]; simp)
    · show Chain.setPrev _ c.1 none c.1 = _
      rw [setPrev_self, setNext_of_ne _ _ hbc, hcell]
      rfl

/-! ## Reverse -/

/-- The loop of `ta_list_reverse`, with `r` reversed and `k` to go: `node` is the last reversed node
and its backward link already points at the next one.

**Proof sketch.** Induction on `k`. Swapping the links of its first node puts that node in front of
`r`, linked to it, with the rest of `k` as the node before it. -/
lemma reverseLoop_spec {k : List (ℕ × Option D)} :
    ∀ {r : List (ℕ × Option D)} {h : Heap D} {fuel : ℕ},
      Seg h.cells (entry none k) r none → Seg h.cells (entry none r) k none →
      (addrs (r ++ k)).Nodup → k.length < fuel →
      ∃ m, reverseLoop h fuel (entry none k) (entry none r) =
          some (⟨m, h.size⟩, entry none (k.reverse ++ r)) ∧
        Seg m none (k.reverse ++ r) none ∧ ∀ a, a ∉ addrs (r ++ k) → m a = h.cells a := by
  induction k with
  | nil =>
    intro r h fuel hrev _ _ hfuel
    obtain ⟨fuel, rfl⟩ : ∃ n, fuel = n + 1 := ⟨fuel - 1, by omega⟩
    exact ⟨h.cells, rfl, hrev, fun _ _ => rfl⟩
  | cons c k ih =>
    intro r h fuel hrev hrest hnodup hfuel
    obtain ⟨fuel, rfl⟩ : ∃ n, fuel = n + 1 := ⟨fuel - 1, by omega⟩
    have hlen : k.length < fuel := by
      rw [List.length_cons] at hfuel
      omega
    obtain ⟨hcell, hk⟩ := hrest
    have hsome : (h.cells c.1).isSome = true := by rw [hcell, Option.isSome_some]
    have hperm : (addrs (r ++ c :: k)).Perm (addrs ((c :: r) ++ k)) := by simp
    have hnodup' : (addrs ((c :: r) ++ k)).Nodup := hperm.nodup_iff.mp hnodup
    have hcrk : c.1 ∉ addrs (r ++ k) := (List.nodup_cons.mp hnodup').1
    have hcr : c.1 ∉ addrs r := fun hmem => hcrk (by rw [addrs_append]; simp [hmem])
    have hck : c.1 ∉ addrs k := fun hmem => hcrk (by rw [addrs_append]; simp [hmem])
    -- the memory after this round
    let m := Chain.setPrev (Chain.setNext h.cells c.1 (entry none r)) c.1 (entry none k)
    have hm : ∀ a, a ≠ c.1 → m a = h.cells a := by
      intro a ha
      show Chain.setPrev _ c.1 _ a = _
      rw [setPrev_of_ne _ _ ha, setNext_of_ne _ _ ha]
    have hmc : m c.1 = some ⟨entry none k, entry none r, c.2⟩ := by
      show Chain.setPrev _ c.1 _ c.1 = _
      rw [setPrev_self, setNext_self, hcell]
      rfl
    have hrev' : Seg m (entry none k) (c :: r) none :=
      ⟨hmc, hrev.congr fun a ha => hm a fun e => hcr (e ▸ ha)⟩
    have hk' : Seg m (entry none (c :: r)) k none :=
      hk.congr fun a ha => hm a fun e => hck (e ▸ ha)
    obtain ⟨m', heq, hseg, hframe⟩ := ih (h := ⟨m, h.size⟩) hrev' hk' hnodup' hlen
    refine ⟨m', ?_, by simpa using hseg, fun a ha => ?_⟩
    · rw [entry_cons, reverseLoop, hcell, Option.bind_some, setNext_eq hsome, Option.bind_some,
        setPrev_eq (by simp [hsome]), Option.bind_some, List.reverse_cons, List.append_assoc]
      exact heq
    · have hout : a ∉ addrs ((c :: r) ++ k) := fun hmem => ha (hperm.mem_iff.mpr hmem)
      rw [hframe a hout]
      exact hm a fun e => hout (by rw [e]; simp)

/-- **Reverse** turns the chain around. -/
lemma listReverse_spec (hr : Rep h list l) :
    ∃ h', listReverse h list = some (h', entry none l.reverse) ∧
      Moves h h' (addrs l) l.reverse := by
  obtain ⟨m, heq, hseg, hframe⟩ :=
    reverseLoop_spec (r := []) (h := h) trivial hr.seg hr.nodup hr.length_lt_fuel
  rw [List.append_nil] at heq hseg
  refine ⟨⟨m, h.size⟩, ?_, moves_relink hr hseg ?_ ?_ fun a _ hold => hframe a hold⟩
  · rw [listReverse, hr.head]
    exact heq
  · rw [addrs_reverse]
    exact List.nodup_reverse.mpr hr.nodup
  · rw [addrs_reverse]
    exact fun a ha => List.mem_reverse.mp ha

end Operations

end Taningia
