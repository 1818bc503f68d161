import Taningia.LinkedList.Spec

set_option relaxedAutoImplicit false
set_option autoImplicit false

/-!
# The node that is handed out

`ta_list_remove` and `ta_list_pop` give the node they take out of the list to their caller.
`ta_list_pop` sets both its links to `NULL`. `ta_list_remove` relinks the neighbours and leaves the
links of the node itself as they were, so that they still lead to those neighbours, and
`ta_list_free` of the node goes on to the nodes that were behind it.

## Main definitions

* `Taningia.TakeCall` — a call that takes a node out of a list, and `Taningia.takeOut`, its effect.
* `Taningia.Detached` — the node is a list of its own, apart from the rest.

## Main results

* `Taningia.listFree_of_path` — `ta_list_free` frees the nodes from the given one on.
* `Taningia.listFree_removed` — so it frees everything that was behind a removed node.
* `Taningia.handed_out_detached_iff` — the node is detached exactly when it was popped or alone.
-/

namespace Taningia

open Chain

variable {D : Type}

/-- A call that takes a node out of a list. -/
inductive TakeCall (D : Type)
  | remove (data : Option D)
  | pop
deriving DecidableEq

/-- The call finds a node to take out. -/
def TakeCall.HandsOut (l : List (ℕ × Option D)) : TakeCall D → Prop
  | .remove data => data ∈ l.map Prod.snd
  | .pop => l ≠ []

/-- The call with an output parameter of value `out`: the heap, the list and the output parameter
behind it. -/
def takeOut [DecidableEq D] (h : Heap D) (list out : Option ℕ) :
    TakeCall D → Option (Heap D × Option ℕ × Option ℕ)
  | .remove data => listRemove h list data out
  | .pop => listPop h list out

/-- The node is a list of one element, no link leads from it into the rest, and `ta_list_free` of it
frees this node only. -/
structure Detached (h : Heap D) (node : ℕ) (rest : List (ℕ × Option D)) : Prop where
  alone : ∃ data, Rep h (some node) [(node, data)]
  apart : ∀ a, LeadsTo h.cells node a → a ∉ addrs rest
  freed : ∃ h', listFree h (some node) = some h' ∧ Rep h' (entry none rest) rest ∧
    ∀ a, h'.cells a = if a = node then none else h.cells a

/-! ## Giving nodes back -/

variable {h : Heap D} {list : Option ℕ} {l : List (ℕ × Option D)}

/-- Freed nodes have no cell, and the others keep theirs. -/
lemma cells_foldl_free (h : Heap D) (l : List ℕ) (a : ℕ) :
    (l.foldl Heap.free h).cells a = if a ∈ l then none else h.cells a := by
  induction l generalizing h with
  | nil => simp
  | cons b l ih =>
    rw [List.foldl_cons, ih]
    by_cases hab : a = b
    · simp [Heap.free, hab]
    · simp [Heap.free, hab]

/-- Freeing takes no address back. -/
lemma size_foldl_free (h : Heap D) (l : List ℕ) : (l.foldl Heap.free h).size = h.size := by
  induction l generalizing h with
  | nil => rfl
  | cons b l ih => exact ih (h.free b)

/-- The loop of `ta_list_free` gives back one node after the other; what is left of the path is not
touched by it.

**Proof sketch.** Induction on the path. The `next` of a node is read before the node is freed,
and the rest of the path has other addresses. -/
lemma freeLoop_spec {fuel : ℕ} (hpath : Path h.cells l none) (hnodup : (addrs l).Nodup)
    (hfuel : l.length < fuel) :
    freeLoop fuel h (entry none l) = some ((addrs l).foldl Heap.free h) := by
  induction l generalizing h fuel with
  | nil =>
    obtain ⟨fuel, rfl⟩ : ∃ n, fuel = n + 1 := ⟨fuel - 1, by omega⟩
    rfl
  | cons c l ih =>
    obtain ⟨fuel, rfl⟩ : ∃ n, fuel = n + 1 := ⟨fuel - 1, by omega⟩
    obtain ⟨⟨p, hcell⟩, hrest⟩ := hpath
    obtain ⟨hc, hnodup⟩ := List.nodup_cons.mp hnodup
    have hlen : l.length < fuel := by
      rw [List.length_cons] at hfuel
      omega
    have hrest' : Path (h.free c.1).cells l none := by
      refine hrest.congr fun a ha => ?_
      exact Function.update_of_ne (fun e => hc (by rw [← e]; exact ha)) _ _
    rw [entry_cons, freeLoop, hcell, Option.bind_some, ih hrest' hnodup hlen]
    rfl

/-- **Freeing a list** gives back the nodes from the given one to the end, and no other. -/
lemma listFree_of_path (hpath : Path h.cells l none) (hnodup : (addrs l).Nodup)
    (hbound : ∀ a ∈ addrs l, a < h.size) :
    ∃ h', listFree h (entry none l) = some h' ∧ h'.size = h.size ∧
      ∀ a, h'.cells a = if a ∈ addrs l then none else h.cells a :=
  ⟨_, freeLoop_spec hpath hnodup (Heap.length_lt_fuel hnodup hbound), size_foldl_free _ _,
    cells_foldl_free _ _⟩

/-- **Freeing a removed node** frees every node that was behind it, though these are still in the
list.

**Proof sketch.** The removed node keeps its links (`listRemove_found`), so what `ta_list_free`
walks is the node and what was behind it. -/
lemma listFree_removed [DecidableEq D] {l₁ l₂ : List (ℕ × Option D)} {c : ℕ × Option D}
    (hr : Rep h list (l₁ ++ c :: l₂)) (hdata : c.2 ∉ l₁.map Prod.snd) (removed : Option ℕ) :
    ∃ h' h'', listRemove h list c.2 removed = some (h', entry none (l₁ ++ l₂), some c.1) ∧
      Rep h' (entry none (l₁ ++ l₂)) (l₁ ++ l₂) ∧ listFree h' (some c.1) = some h'' ∧
      ∀ a, h''.cells a = if a ∈ addrs (c :: l₂) then none else h'.cells a := by
  obtain ⟨h', hcall, hmoves, hkeep⟩ := listRemove_found hr hdata removed
  have hcell : h'.cells c.1 = some ⟨exit none l₁, entry none l₂, c.2⟩ := by
    rw [hkeep, hr.seg.cell_at]
  have hback : Path h'.cells (c :: l₂) none :=
    ⟨⟨_, hcell⟩, (seg_append.mp hmoves.rep.seg).2.path⟩
  have hnodup : (addrs (c :: l₂)).Nodup := (nodup_addrs_append.mp hr.nodup).2.1
  have hbound : ∀ a ∈ addrs (c :: l₂), a < h'.size := by
    intro a ha
    have hmem : a ∈ addrs (l₁ ++ c :: l₂) := by
      rw [addrs_append]
      exact List.mem_append_right _ ha
    exact (hr.bound a hmem).trans_le hmoves.grows
  obtain ⟨h'', hfree, -, hcells⟩ := listFree_of_path hback hnodup hbound
  exact ⟨h', h'', hcall, hmoves.rep, hfree, hcells⟩

/-! ## What is handed out -/

/-- A node without links is detached from every list that it is not in.

**Proof sketch.** The node is a list of its own, and what can be reached from it is itself. -/
lemma detached_of_alone {node : ℕ} {data : Option D}
    (hcell : h.cells node = some ⟨none, none, data⟩)
    (hbound : node < h.size) (hrest : Rep h (entry none l) l) (hnode : node ∉ addrs l) :
    Detached h node l := by
  have hr : Rep h (some node) [(node, data)] :=
    ⟨rfl, ⟨hcell, trivial⟩, by simp, by simpa using hbound⟩
  refine ⟨⟨data, hr⟩, ?_, ?_⟩
  · intro a ha
    have hmem : a ∈ addrs [(node, data)] := hr.seg.mem_of_leadsTo (by simp) ha
    obtain rfl : a = node := by simpa using hmem
    exact hnode
  · obtain ⟨h', hfree, hsize, hcells⟩ := listFree_of_path hr.seg.path hr.nodup hr.bound
    have hcells' : ∀ a, h'.cells a = if a = node then none else h.cells a := by
      intro a
      rw [hcells]
      simp
    refine ⟨h', hfree, ⟨rfl, ?_, hrest.nodup, ?_⟩, hcells'⟩
    · refine hrest.seg.congr fun a ha => ?_
      rw [hcells', if_neg fun e => hnode (by rw [← e]; exact ha)]
    · rw [hsize]
      exact hrest.bound

/-- A node with a link into the list is not detached from it. -/
lemma not_detached_of_linksTo {node a : ℕ} (ha : a ∈ addrs l) (hlink : LinksTo h.cells node a) :
    ¬ Detached h node l :=
  fun hd => hd.apart a (Relation.ReflTransGen.single hlink) ha

/-- **The removed node** is detached exactly when no other node was in the list: its links are those
that it had there.

**Proof sketch.** The cell of the node is the one from the list (`listRemove_found`). If there
was a node in front of it or behind it, the link to that node leads into the list that is left. -/
lemma removed_detached_iff {h' : Heap D} {l₁ l₂ : List (ℕ × Option D)} {c : ℕ × Option D}
    (hr : Rep h list (l₁ ++ c :: l₂)) (hmoves : Moves h h' (addrs (l₁ ++ c :: l₂)) (l₁ ++ l₂))
    (hkeep : h'.cells c.1 = h.cells c.1) : Detached h' c.1 (l₁ ++ l₂) ↔ l₁ ++ l₂ = [] := by
  have hcell := hr.seg.cell_at
  rw [← hkeep] at hcell
  constructor
  · intro hd
    rcases List.eq_nil_or_concat' l₁ with rfl | ⟨l₁, b, rfl⟩
    · cases l₂ with
      | nil => rfl
      | cons e l₂ =>
        exact absurd hd (not_detached_of_linksTo (a := e.1) (by simp) ⟨_, hcell, .inr rfl⟩)
    · refine absurd hd (not_detached_of_linksTo (a := b.1) (by simp) ⟨_, hcell, .inl ?_⟩)
      exact exit_concat none l₁ b
  · intro hnil
    obtain ⟨rfl, rfl⟩ := List.append_eq_nil_iff.mp hnil
    have hbound : c.1 < h'.size := (hr.bound c.1 (by simp)).trans_le hmoves.grows
    exact detached_of_alone hcell hbound hmoves.rep (by simp)

/-- **The popped node** is detached. -/
lemma popped_detached {h' : Heap D} {c : ℕ × Option D} (hr : Rep h list (l ++ [c]))
    (hmoves : Moves h h' (addrs (l ++ [c])) l) (hcell : h'.cells c.1 = some ⟨none, none, c.2⟩) :
    Detached h' c.1 l := by
  have hbound : c.1 < h'.size := (hr.bound c.1 (by simp)).trans_le hmoves.grows
  exact detached_of_alone hcell hbound hmoves.rep (not_mem_of_nodup_concat hr.nodup)

/-- **A call that finds no node** changes nothing, the output parameter included. -/
lemma takeOut_of_not_handsOut [DecidableEq D] (hr : Rep h list l) (out : Option ℕ)
    {call : TakeCall D} (hcall : ¬ call.HandsOut l) :
    takeOut h list out call = some (h, list, out) := by
  cases call with
  | remove data => exact listRemove_absent hr hcall out
  | pop =>
    obtain rfl : l = [] := not_not.mp hcall
    obtain rfl : list = none := hr.head
    exact listPop_nil hr out

/-- **A node that is handed out is detached** from the nodes that remain exactly when it was popped
or was the only one.

**Proof sketch.** Both calls turn the other nodes into a chain. `ta_list_pop` sets the links of the
node to `NULL`, so it is a chain of its own and `ta_list_free` ends behind it. `ta_list_remove` only
relinks the neighbours: the links of the node stay those it had in the list, and one of them is to
a neighbour when there is one. -/
theorem handed_out_detached_iff [DecidableEq D] (hr : Rep h list l) {call : TakeCall D}
    (hcall : call.HandsOut l) (out : Option ℕ) :
    ∃ h' l₁ c l₂, l = l₁ ++ c :: l₂ ∧
      takeOut h list out call = some (h', entry none (l₁ ++ l₂), some c.1) ∧
      Rep h' (entry none (l₁ ++ l₂)) (l₁ ++ l₂) ∧
      (Detached h' c.1 (l₁ ++ l₂) ↔ call = .pop ∨ l.length = 1) := by
  cases call with
  | remove data =>
    obtain ⟨l₁, c, l₂, rfl, rfl, hfirst⟩ := exists_first_with_data hcall
    obtain ⟨h', hremove, hmoves, hkeep⟩ := listRemove_found hr hfirst out
    refine ⟨h', l₁, c, l₂, rfl, hremove, hmoves.rep, ?_⟩
    have hlength : l₁ ++ l₂ = [] ↔ (l₁ ++ c :: l₂).length = 1 := by
      rw [← List.length_eq_zero_iff, List.length_append, List.length_append, List.length_cons]
      omega
    rw [removed_detached_iff hr hmoves hkeep, hlength]
    simp
  | pop =>
    obtain ⟨l, c, rfl⟩ := (List.eq_nil_or_concat' l).resolve_left hcall
    obtain ⟨h', hpop, hmoves, hcell⟩ := listPop_concat hr out
    refine ⟨h', l, c, [], rfl, ?_, ?_, ?_⟩
    · rw [List.append_nil]
      exact hpop
    · rw [List.append_nil]
      exact hmoves.rep
    · rw [List.append_nil]
      exact iff_of_true (popped_detached hr hmoves hcell) (.inl rfl)

/-- Two nodes with the letters `a` and `b`. -/
def twoNodes : Heap Char where
  cells
    | 0 => some ⟨none, some 1, some 'a'⟩
    | 1 => some ⟨some 0, none, some 'b'⟩
    | _ => none
  size := 2

/-- The list of the example. -/
lemma rep_twoNodes : Rep twoNodes (some 0) [(0, some 'a'), (1, some 'b')] :=
  ⟨rfl, ⟨rfl, rfl, trivial⟩, by decide, by decide⟩

/-- The last node of two is detached. -/
theorem handed_out_detached_twoNodes :
    ∃ h' l₁ c l₂, [(0, some 'a'), (1, some 'b')] = l₁ ++ c :: l₂ ∧
      takeOut twoNodes (some 0) none .pop = some (h', entry none (l₁ ++ l₂), some c.1) ∧
      Rep h' (entry none (l₁ ++ l₂)) (l₁ ++ l₂) ∧
      (Detached h' c.1 (l₁ ++ l₂) ↔
        (.pop : TakeCall Char) = .pop ∨ [(0, some 'a'), (1, some 'b')].length = 1) :=
  handed_out_detached_iff rep_twoNodes (by simp [TakeCall.HandsOut]) none

/-- **The removed head still leads into the list**, and `ta_list_free` of it frees the node that the
list has left.

**Proof sketch.** `listFree_removed`; the second node can be reached from the removed one. -/
theorem removed_head_attached :
    ∃ h' h'', takeOut twoNodes (some 0) none (.remove (some 'a')) = some (h', some 1, some 0) ∧
      Rep h' (some 1) [(1, some 'b')] ∧ ¬ Detached h' 0 [(1, some 'b')] ∧
      listFree h' (some 0) = some h'' ∧ h''.cells 1 = none := by
  have hr : Rep twoNodes (some 0) ([] ++ (0, some 'a') :: [(1, some 'b')]) := rep_twoNodes
  obtain ⟨h', h'', hremove, hrest, hfree, hcells⟩ := listFree_removed hr (by simp) none
  have hfreed : h''.cells 1 = none := hcells 1
  refine ⟨h', h'', hremove, hrest, ?_, hfree, hfreed⟩
  intro hd
  obtain ⟨h₁, hfree₁, hlive, -⟩ := hd.freed
  obtain rfl := Option.some.inj (hfree.symm.trans hfree₁)
  have hcell := hlive.seg.1
  rw [hfreed] at hcell
  cases hcell

end Taningia
