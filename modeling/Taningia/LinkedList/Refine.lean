import Mathlib.Data.List.Chain
import Mathlib.Data.Option.Basic
import Taningia.Lib.Machine
import Taningia.LinkedList.Spec

set_option relaxedAutoImplicit false
set_option autoImplicit false

/-!
# Linked lists refine sequences

A program holds list handles in variables and calls the list functions on them. The purpose of the
component is stated on sequences: a variable holds a sequence, and each operation is the obvious
one. Every run of calls on the heap succeeds and keeps each handle the head of a well-formed chain
with the sequence of its variable.

## Main definitions

* `Taningia.ListOp`, `Taningia.listStep` — one call on the heap.
* `Taningia.ListSpec`, `Taningia.specStep` — one call on sequences.
* `Taningia.WellFormedChain`, `Taningia.QueriesAgree` — what holds of each handle.

## Main results

* `Taningia.listStep_refines` — one call keeps the refinement.
* `Taningia.list_refines` — every run does.
-/

namespace Taningia

open Chain

variable {V D : Type}

/-! ## Calls -/

/-- A call of a list function on the handles in the variables `v` and `w`. -/
inductive ListOp (V D : Type) where
  | append (v : V) (data : D)
  | prepend (v : V) (data : D)
  | insert (v : V) (data : D) (position : ℤ)
  | extend (v w : V)
  | remove (v : V) (data : D)
  | pop (v : V)
  | reverse (v : V)
deriving DecidableEq, Repr

/-- The second list of an extension is another one. -/
def ListOp.Separate : ListOp V D → Prop
  | .extend v w => v ≠ w
  | _ => True

/-- The heap, the list handles, and the variable that the output parameters point at. -/
structure ListWorld (V D : Type) where
  heap : Heap D
  lists : V → Option ℕ
  out : Option ℕ

/-- All lists are `NULL`. -/
def ListWorld.start (V D : Type) : ListWorld V D := ⟨Heap.empty D, fun _ => none, none⟩

/-- The world after a call returned a handle for `v`. -/
def ListWorld.store [DecidableEq V] (w : ListWorld V D) (v : V) (r : Heap D × Option ℕ) :
    ListWorld V D :=
  { w with heap := r.1, lists := Function.update w.lists v r.2 }

/-- The same with an output parameter. -/
def ListWorld.storeOut [DecidableEq V] (w : ListWorld V D) (v : V)
    (r : Heap D × Option ℕ × Option ℕ) : ListWorld V D :=
  ⟨r.1, Function.update w.lists v r.2.1, r.2.2⟩

/-- One call. The handle of a list that was put into another one is not a list head any more; its
variable is set to `NULL`. -/
def listStep [DecidableEq V] [DecidableEq D] (w : ListWorld V D) :
    ListOp V D → Option (ListWorld V D)
  | .append v data => (listAppend w.heap (w.lists v) (some data)).map (w.store v)
  | .prepend v data => (listPrepend w.heap (w.lists v) (some data)).map (w.store v)
  | .insert v data position =>
    (listInsert w.heap (w.lists v) (some data) position).map (w.store v)
  | .extend v u =>
    (listExtend w.heap (w.lists v) (w.lists u)).map
      ({ w with lists := Function.update w.lists u none }.store v)
  | .remove v data => (listRemove w.heap (w.lists v) (some data) w.out).map (w.storeOut v)
  | .pop v => (listPop w.heap (w.lists v) w.out).map (w.storeOut v)
  | .reverse v => (listReverse w.heap (w.lists v)).map (w.store v)

/-! ## The specification -/

/-- A sequence for each variable, and the item handed out last. -/
structure ListSpec (V D : Type) where
  lists : V → List D
  out : Option D

def ListSpec.start (V D : Type) : ListSpec V D := ⟨fun _ => [], none⟩

/-- The sequence of one variable is replaced. -/
def ListSpec.set [DecidableEq V] (s : ListSpec V D) (v : V) (l : List D) : ListSpec V D :=
  { s with lists := Function.update s.lists v l }

/-- What each call is for. -/
def specStep [DecidableEq V] [DecidableEq D] (s : ListSpec V D) : ListOp V D → ListSpec V D
  | .append v data => s.set v (s.lists v ++ [data])
  | .prepend v data => s.set v (data :: s.lists v)
  | .insert v data position => s.set v (insertAt position data (s.lists v))
  | .extend v u => (s.set u []).set v (s.lists v ++ s.lists u)
  | .remove v data =>
    { s.set v ((s.lists v).erase data) with
      out := if data ∈ s.lists v then some data else s.out }
  | .pop v =>
    { s.set v (s.lists v).dropLast with out := (s.lists v).getLast? <|> s.out }
  | .reverse v => s.set v (s.lists v).reverse

/-! ## The refinement -/

/-- The nodes that the handles represent, without sharing. -/
structure Owned (h : Heap D) (lists : V → Option ℕ) (nodes : V → List (ℕ × Option D)) : Prop where
  rep : ∀ v, Rep h (lists v) (nodes v)
  disjoint : ∀ v u, v ≠ u → (addrs (nodes v)).Disjoint (addrs (nodes u))

/-- The node handed out last is in no list, and has its item still. -/
def HandedOut (h : Heap D) (nodes : V → List (ℕ × Option D)) (out : Option ℕ) (d : Option D) :
    Prop :=
  (out = none ∧ d = none) ∨ ∃ a c, out = some a ∧ h.cells a = some c ∧ c.data = d ∧ d ≠ none ∧
    a < h.size ∧ ∀ v, a ∉ addrs (nodes v)

/-- The handles represent the sequences. -/
def Refines (w : ListWorld V D) (s : ListSpec V D) : Prop :=
  ∃ nodes : V → List (ℕ × Option D), Owned w.heap w.lists nodes ∧
    (∀ v, (nodes v).map Prod.snd = (s.lists v).map some) ∧ HandedOut w.heap nodes w.out s.out

/-- **A move on one variable** keeps the others: the nodes `old` that it works on are not theirs.

**Proof sketch.** The nodes of another variable are not among `old`, so the move keeps them, and
its new nodes are among `old` or new. Then by cases on whether a variable is `v`. -/
lemma Owned.move [DecidableEq V] {h h' : Heap D} {lists : V → Option ℕ}
    {nodes : V → List (ℕ × Option D)} {old : List ℕ} {new : List (ℕ × Option D)}
    (ho : Owned h lists nodes) {v : V} (hold : ∀ u, u ≠ v → (addrs (nodes u)).Disjoint old)
    (hm : Moves h h' old new) :
    Owned h' (Function.update lists v (entry none new)) (Function.update nodes v new) := by
  have hkeep : ∀ u, u ≠ v → Rep h' (lists u) (nodes u) := by
    intro u hu
    refine ⟨(ho.rep u).head, (ho.rep u).seg.congr fun a ha => ?_, (ho.rep u).nodup, fun a ha => ?_⟩
    · exact hm.frame a ((ho.rep u).bound a ha) (hold u hu ha)
    · exact ((ho.rep u).bound a ha).trans_le hm.grows
  have hnew : ∀ u, u ≠ v → (addrs (nodes u)).Disjoint (addrs new) := by
    intro u hu a ha hnew
    rcases hm.owned a hnew with hin | hfresh
    · exact hold u hu ha hin
    · have := (ho.rep u).bound a ha
      omega
  constructor
  · intro u
    by_cases hu : u = v
    · subst hu
      rw [Function.update_self, Function.update_self]
      exact hm.rep
    · rw [Function.update_of_ne hu, Function.update_of_ne hu]
      exact hkeep u hu
  · intro u u' huu'
    by_cases hu : u = v
    · subst hu
      rw [Function.update_self, Function.update_of_ne huu'.symm]
      exact fun a ha hu' => hnew u' huu'.symm hu' ha
    · by_cases hu' : u' = v
      · subst hu'
        rw [Function.update_self, Function.update_of_ne hu]
        exact hnew u hu
      · rw [Function.update_of_ne hu, Function.update_of_ne hu']
        exact ho.disjoint u u' huu'

/-- The node handed out stays so, when all nodes in lists were there before or moved.

**Proof sketch.** The node handed out is in no list, so it is not one of those that move, and
its cell is kept; it is not among the new nodes, each of which was in a list or is new. -/
lemma HandedOut.move {h h' : Heap D} {nodes nodes' : V → List (ℕ × Option D)} {old : List ℕ}
    {new : List (ℕ × Option D)} {out : Option ℕ} {d : Option D} (hout : HandedOut h nodes out d)
    (hold : ∀ a, (∀ u, a ∉ addrs (nodes u)) → a ∉ old) (hm : Moves h h' old new)
    (hnodes : ∀ u, ∀ a ∈ addrs (nodes' u), a ∈ addrs new ∨ ∃ x, a ∈ addrs (nodes x)) :
    HandedOut h' nodes' out d := by
  rcases hout with hnone | ⟨a, c, rfl, hcell, hdata, hd, hlt, hin⟩
  · exact Or.inl hnone
  · refine Or.inr ⟨a, c, rfl, ?_, hdata, hd, hlt.trans_le hm.grows, fun u hu => ?_⟩
    · rw [hm.frame a hlt (hold a hin), hcell]
    · rcases hnodes u a hu with hnew | ⟨x, hx⟩
      · rcases hm.owned a hnew with hin' | hfresh
        · exact hold a hin hin'
        · omega
      · exact hin x hx

/-- A node of the updated lists is among the new ones, or was there. -/
lemma mem_addrs_update [DecidableEq V] {nodes : V → List (ℕ × Option D)} {v u : V}
    {new : List (ℕ × Option D)} {a : ℕ} (ha : a ∈ addrs (Function.update nodes v new u)) :
    a ∈ addrs new ∨ a ∈ addrs (nodes u) := by
  by_cases hu : u = v
  · subst hu
    rw [Function.update_self] at ha
    exact Or.inl ha
  · rw [Function.update_of_ne hu] at ha
    exact Or.inr ha

/-- The items of the updated lists. -/
lemma map_snd_update [DecidableEq V] {nodes : V → List (ℕ × Option D)} {lists : V → List D}
    (hdata : ∀ u, (nodes u).map Prod.snd = (lists u).map some) {v : V}
    {new : List (ℕ × Option D)} {l : List D} (hl : new.map Prod.snd = l.map some) (u : V) :
    (Function.update nodes v new u).map Prod.snd = (Function.update lists v l u).map some := by
  by_cases hu : u = v
  · subst hu
    rw [Function.update_self, Function.update_self, hl]
  · rw [Function.update_of_ne hu, Function.update_of_ne hu, hdata u]

section Steps

variable [DecidableEq V] {w : ListWorld V D} {s : ListSpec V D}
  {nodes : V → List (ℕ × Option D)} {v : V} {h' : Heap D} {new : List (ℕ × Option D)} {l : List D}

/-- A call that moves the list of one variable keeps the refinement. -/
lemma Refines.store (ho : Owned w.heap w.lists nodes)
    (hdata : ∀ u, (nodes u).map Prod.snd = (s.lists u).map some)
    (hout : HandedOut w.heap nodes w.out s.out) (hm : Moves w.heap h' (addrs (nodes v)) new)
    (hl : new.map Prod.snd = l.map some) :
    Refines (w.store v (h', entry none new)) (s.set v l) :=
  ⟨Function.update nodes v new, ho.move (fun u hu => ho.disjoint u v hu) hm,
    map_snd_update hdata hl, hout.move (fun _ ha => ha v) hm
      fun u _ ha => (mem_addrs_update ha).imp_right fun ha => ⟨u, ha⟩⟩

/-- The same for a call that also hands out a node of that list.

**Proof sketch.** The lists are `Owned.move`; the node handed out was in the list and is not in
the new one, so no list has it. -/
lemma Refines.storeOut (ho : Owned w.heap w.lists nodes)
    (hdata : ∀ u, (nodes u).map Prod.snd = (s.lists u).map some)
    (hm : Moves w.heap h' (addrs (nodes v)) new) (hl : new.map Prod.snd = l.map some)
    {c : ℕ × Option D} {cell : Node D} {d : D} (hc : c.1 ∈ addrs (nodes v))
    (hnew : c.1 ∉ addrs new) (hcell : h'.cells c.1 = some cell) (hd : cell.data = some d) :
    Refines (w.storeOut v (h', entry none new, some c.1)) { s.set v l with out := some d } := by
  refine ⟨Function.update nodes v new, ho.move (fun u hu => ho.disjoint u v hu) hm,
    map_snd_update hdata hl, Or.inr ⟨c.1, cell, rfl, hcell, hd, by simp, ?_, fun u => ?_⟩⟩
  · exact ((ho.rep v).bound _ hc).trans_le hm.grows
  · by_cases hu : u = v
    · subst hu
      rw [Function.update_self]
      exact hnew
    · rw [Function.update_of_ne hu]
      exact fun hmem => ho.disjoint u v hu hmem hc

/-- Putting the list of `u` behind the list of `v`.

**Proof sketch.** First `u` gives up its nodes, which is a move that changes no cell; then `v`,
with the two lists as its old nodes, takes the list that they form. -/
lemma Refines.extend {u : V} (huv : v ≠ u) (ho : Owned w.heap w.lists nodes)
    (hdata : ∀ x, (nodes x).map Prod.snd = (s.lists x).map some)
    (hout : HandedOut w.heap nodes w.out s.out)
    (hm : Moves w.heap h' (addrs (nodes v) ++ addrs (nodes u)) (nodes v ++ nodes u)) :
    Refines ({ w with lists := Function.update w.lists u none }.store v
        (h', entry none (nodes v ++ nodes u)))
      ((s.set u []).set v (s.lists v ++ s.lists u)) := by
  -- first the variable `u` gives up its nodes, then `v` takes them
  have hnil : Moves w.heap w.heap (addrs (nodes u)) [] :=
    ⟨⟨rfl, trivial, by simp, by simp⟩, le_rfl, fun _ _ _ => rfl, by simp⟩
  have hgive := ho.move (fun x hx => ho.disjoint x u hx) hnil
  have hgiveData : ∀ x, (Function.update nodes u [] x).map Prod.snd =
      (Function.update s.lists u [] x).map some := map_snd_update hdata rfl
  have hother : ∀ x, x ≠ v →
      (addrs (Function.update nodes u [] x)).Disjoint (addrs (nodes v) ++ addrs (nodes u)) := by
    intro x hx a ha hmem
    by_cases hxu : x = u
    · subst hxu
      simp at ha
    · rw [Function.update_of_ne hxu] at ha
      rcases List.mem_append.mp hmem with hmem | hmem
      · exact ho.disjoint x v hx ha hmem
      · exact ho.disjoint x u hxu ha hmem
  have hl : (nodes v ++ nodes u).map Prod.snd = (s.lists v ++ s.lists u).map some := by
    rw [List.map_append, List.map_append, hdata, hdata]
  refine ⟨_, hgive.move hother hm, map_snd_update hgiveData hl, hout.move ?_ hm ?_⟩
  · intro a ha hmem
    rcases List.mem_append.mp hmem with hmem | hmem
    · exact ha v hmem
    · exact ha u hmem
  · intro x a ha
    rcases mem_addrs_update ha with hnew | ha
    · exact Or.inl hnew
    · rcases mem_addrs_update ha with hnil | ha
      · cases hnil
      · exact Or.inr ⟨x, ha⟩

end Steps

/-! ## One call -/

section Calls

variable [DecidableEq V] [DecidableEq D] {w : ListWorld V D} {s : ListSpec V D}

/-- The first occurrence of an item in the data of a chain, as a node of the chain. -/
lemma exists_first_node {l : List (ℕ × Option D)} {data : List D} {d : D}
    (hdata : l.map Prod.snd = data.map some) (hd : d ∈ data) :
    ∃ l₁ c l₂, l = l₁ ++ c :: l₂ ∧ c.2 = some d ∧ c.2 ∉ l₁.map Prod.snd ∧
      (l₁ ++ l₂).map Prod.snd = (data.erase d).map some := by
  have hmem : some d ∈ l.map Prod.snd := by rw [hdata]; exact List.mem_map_of_mem hd
  obtain ⟨l₁, c, l₂, rfl, hc, hfirst⟩ := exists_first_with_data hmem
  refine ⟨l₁, c, l₂, rfl, hc, hc ▸ hfirst, ?_⟩
  have hsplit : (l₁ ++ c :: l₂).map Prod.snd = l₁.map Prod.snd ++ some d :: l₂.map Prod.snd := by
    rw [List.map_append, List.map_cons, hc]
  rw [List.map_erase (Option.some_injective D), ← hdata, hsplit, List.erase_append_right _ hfirst,
    List.erase_cons_head, List.map_append]

/-- **Removing** an item keeps the refinement, whether the list has it or not.

**Proof sketch.** Where the list has the item, `listRemove_found` describes the call at the
first node with it, which is the occurrence that the sequence loses. Where it has none, nothing
is changed and nothing handed out. -/
lemma listRemove_refines {nodes : V → List (ℕ × Option D)} (ho : Owned w.heap w.lists nodes)
    (hdata : ∀ u, (nodes u).map Prod.snd = (s.lists u).map some)
    (hout : HandedOut w.heap nodes w.out s.out) (v : V) (d : D) :
    ∃ w', listStep w (.remove v d) = some w' ∧ Refines w' (specStep s (.remove v d)) := by
  by_cases hd : d ∈ s.lists v
  · obtain ⟨l₁, c, l₂, hl, hc, hfirst, hrest⟩ := exists_first_node (hdata v) hd
    have hrep := ho.rep v
    rw [hl] at hrep
    obtain ⟨h', heq, hm, hkeep⟩ := listRemove_found hrep hfirst w.out
    rw [hc] at heq
    have hcell : h'.cells c.1 = some ⟨exit none l₁, entry none l₂, c.2⟩ := by
      rw [hkeep, hrep.seg.cell_at]
    have hnew : c.1 ∉ addrs (l₁ ++ l₂) := by
      have hperm : (addrs (l₁ ++ c :: l₂)).Perm (c.1 :: addrs (l₁ ++ l₂)) := by simp
      exact (List.nodup_cons.mp (hperm.nodup_iff.mp hrep.nodup)).1
    refine ⟨_, by rw [listStep, heq]; rfl, ?_⟩
    simp only [specStep, if_pos hd]
    exact Refines.storeOut ho hdata (hl ▸ hm) hrest (by rw [hl]; simp) hnew hcell hc
  · have habsent : some d ∉ (nodes v).map Prod.snd := by simpa [hdata v] using hd
    have heq := listRemove_absent (ho.rep v) habsent w.out
    refine ⟨_, by rw [listStep, heq]; rfl, ?_⟩
    have hsame : s.set v (s.lists v) = s := by simp [ListSpec.set]
    simp only [specStep, if_neg hd, List.erase_of_not_mem hd, hsame]
    refine ⟨nodes, ?_, hdata, hout⟩
    simpa [ListWorld.storeOut] using ho

/-- **Popping** keeps the refinement, also from an empty list.

**Proof sketch.** An empty list stays. Otherwise the last node is cut off and handed out. -/
lemma listPop_refines {nodes : V → List (ℕ × Option D)} (ho : Owned w.heap w.lists nodes)
    (hdata : ∀ u, (nodes u).map Prod.snd = (s.lists u).map some)
    (hout : HandedOut w.heap nodes w.out s.out) (v : V) :
    ∃ w', listStep w (.pop v) = some w' ∧ Refines w' (specStep s (.pop v)) := by
  have hrep := ho.rep v
  have hv := hdata v
  rcases List.eq_nil_or_concat' (nodes v) with hl | ⟨l, c, hl⟩
  · rw [hl] at hrep hv
    have heq := listPop_nil hrep w.out
    have hempty : s.lists v = [] := List.map_eq_nil_iff.mp hv.symm
    have hnone : w.lists v = none := hrep.head
    refine ⟨_, by rw [listStep, heq]; rfl, ?_⟩
    have hsame : s.set v [] = s := by rw [← hempty]; simp [ListSpec.set]
    simp only [specStep, hempty, List.dropLast_nil, List.getLast?_nil, hsame]
    refine ⟨nodes, ?_, hdata, hout⟩
    rw [← hnone]
    simpa [ListWorld.storeOut] using ho
  · rw [hl] at hrep
    obtain ⟨h', heq, hm, hcell⟩ := listPop_concat hrep w.out
    rw [hl, List.map_append, List.map_singleton] at hv
    obtain ⟨ds, ds', hsplit, hds, hds'⟩ := List.map_eq_append_iff.mp hv.symm
    obtain ⟨d, rfl, hd⟩ := List.map_eq_singleton_iff.mp hds'
    have hnew : c.1 ∉ addrs l := not_mem_of_nodup_concat hrep.nodup
    refine ⟨_, by rw [listStep, heq]; rfl, ?_⟩
    have hlast : ((ds ++ [d]).getLast? <|> s.out) = some d := by rw [List.getLast?_concat]; rfl
    simp only [specStep, hsplit, List.dropLast_concat, hlast]
    exact Refines.storeOut ho hdata (hl ▸ hm) hds.symm (by rw [hl]; simp) hnew hcell hd.symm

/-- **One call** on a list of the world succeeds and keeps the refinement.

**Proof sketch.** By cases on the call: the lemma about the function gives the move of the
nodes, and the new list has the items that the sequence has after the step. -/
lemma listStep_refines (hr : Refines w s) (op : ListOp V D) (hop : op.Separate) :
    ∃ w', listStep w op = some w' ∧ Refines w' (specStep s op) := by
  obtain ⟨nodes, ho, hdata, hout⟩ := hr
  cases op with
  | append v d =>
    obtain ⟨h', heq, hm⟩ := listAppend_spec (ho.rep v) d
    refine ⟨_, by rw [listStep, heq]; rfl, Refines.store ho hdata hout hm ?_⟩
    simp [hdata v]
  | prepend v d =>
    obtain ⟨h', node, heq, hm⟩ := listPrepend_spec (ho.rep v) d
    refine ⟨_, by rw [listStep, heq]; rfl, Refines.store ho hdata hout hm ?_⟩
    simp [hdata v]
  | insert v d position =>
    obtain ⟨h', node, heq, hm⟩ := listInsert_spec (ho.rep v) d position
    refine ⟨_, by rw [listStep, heq]; rfl, Refines.store ho hdata hout hm ?_⟩
    rw [map_insertAt, map_insertAt, hdata v]
  | extend v u =>
    obtain ⟨h', heq, hm⟩ := listExtend_spec (ho.rep v) (ho.rep u) (ho.disjoint v u hop)
    exact ⟨_, by rw [listStep, heq]; rfl, Refines.extend hop ho hdata hout hm⟩
  | remove v d => exact listRemove_refines ho hdata hout v d
  | pop v => exact listPop_refines ho hdata hout v
  | reverse v =>
    obtain ⟨h', heq, hm⟩ := listReverse_spec (ho.rep v)
    refine ⟨_, by rw [listStep, heq]; rfl, Refines.store ho hdata hout hm ?_⟩
    simp [List.map_reverse, hdata v]

end Calls

/-! ## What holds of a handle -/

/-- The handle is the head of an acyclic doubly linked chain through the nodes, with the data. -/
structure WellFormedChain (h : Heap D) (list : Option ℕ) (nodes : List ℕ) (data : List D) :
    Prop where
  head : list = nodes.head?
  acyclic : nodes.Nodup
  linked : nodes.IsChain fun a b => (h.cells a).bind Cell.next = some b
  head_prev : ∀ a, nodes.head? = some a → (h.cells a).bind Cell.prev = none
  last_next : ∀ a, nodes.getLast? = some a → (h.cells a).bind Cell.next = none
  next_iff_prev : ∀ a ∈ nodes, ∀ b ∈ nodes,
    (h.cells a).bind Cell.next = some b ↔ (h.cells b).bind Cell.prev = some a
  data_eq : nodes.map (fun a => (h.cells a).bind Cell.data) = data.map some

/-- The queries on the handle, and on every node of its chain, agree with the data. -/
structure QueriesAgree [DecidableEq D] (h : Heap D) (list : Option ℕ) (nodes : List ℕ)
    (data : List D) : Prop where
  len : listLen h list = some data.length
  item : ∀ k : ℤ, listItem h list k = some (if 0 ≤ k then data[k.toNat]? else none)
  index : ∀ d, listIndex h list (some d) = some (if d ∈ data then (data.idxOf d : ℤ) else -1)
  first : ∀ a ∈ nodes, listFirst h (some a) = some nodes.head?
  last : ∀ a ∈ nodes, listLast h (some a) = some nodes.getLast?
  ends : listFirst h list = some nodes.head? ∧ listLast h list = some nodes.getLast?

/-- Each address of a segment is followed by the one in its `next` field. -/
lemma isChain_addrs {m : Mem ℕ (Option D)} {p : Option ℕ} {l : List (ℕ × Option D)}
    (h : Seg m p l none) : (addrs l).IsChain fun a b => (m a).bind Cell.next = some b := by
  induction l generalizing p with
  | nil => exact .nil
  | cons c l ih =>
    cases l with
    | nil => exact .singleton _
    | cons e l =>
      refine .cons_cons ?_ (ih h.2)
      rw [h.1]
      rfl

/-- The last node of a segment. -/
lemma exit_eq_getLast? (l : List (ℕ × Option D)) : exit none l = (addrs l).getLast? := by
  rcases List.eq_nil_or_concat' l with rfl | ⟨l', c, rfl⟩
  · rfl
  · rw [exit_concat, addrs_append, addrs_cons, addrs_nil, List.getLast?_concat]

/-- The first node of a segment. -/
lemma entry_eq_head? (l : List (ℕ × Option D)) : entry none l = (addrs l).head? := by
  cases l <;> rfl

/-- The place of an item among the fields of the nodes. -/
lemma idxOf_map_some [DecidableEq D] (data : List D) (d : D) :
    (data.map some).idxOf (some d) = data.idxOf d := by
  induction data with
  | nil => rfl
  | cons x data ih => simp [List.idxOf_cons, ih]

/-- A represented list is a well-formed chain.

**Proof sketch.** Acyclic and linked are parts of the representation; the links back, the first
`prev` and the data are read off the segment. -/
lemma Rep.wellFormedChain {h : Heap D} {list : Option ℕ} {l : List (ℕ × Option D)}
    (hr : Rep h list l) {data : List D} (hdata : l.map Prod.snd = data.map some) :
    WellFormedChain h list (addrs l) data where
  head := by rw [hr.head, entry_eq_head?]
  acyclic := hr.nodup
  linked := isChain_addrs hr.seg
  head_prev a ha := by
    cases l with
    | nil => cases ha
    | cons c l =>
      obtain rfl : c.1 = a := Option.some.inj ha
      rw [hr.seg.1]
      rfl
  last_next a ha := by
    rcases List.eq_nil_or_concat' l with rfl | ⟨l', c, rfl⟩
    · cases ha
    · rw [← exit_eq_getLast?, exit_concat] at ha
      obtain rfl : c.1 = a := Option.some.inj ha
      rw [hr.seg.cell_at]
      rfl
  next_iff_prev a ha b hb := hr.seg.next_iff_prev ha hb
  data_eq := by
    rw [← hdata, addrs, List.map_map]
    apply List.map_congr_left
    intro c hc
    obtain ⟨q, r, hcell⟩ := hr.seg.exists_cell hc
    simp [hcell]

/-- The queries on a represented list.

**Proof sketch.** Each query has a lemma on representations, whose right side is the query on
the sequence. -/
lemma Rep.queriesAgree [DecidableEq D] {h : Heap D} {list : Option ℕ} {l : List (ℕ × Option D)}
    (hr : Rep h list l) {data : List D} (hdata : l.map Prod.snd = data.map some) :
    QueriesAgree h list (addrs l) data where
  len := by
    have hlen : l.length = data.length := by simpa using congrArg List.length hdata
    rw [hr.listLen_eq, hlen]
  item k := by
    rw [hr.listItem_eq, hdata]
    split
    · rw [List.getElem?_map]
      cases data[k.toNat]? <;> rfl
    · rfl
  index d := by
    rw [hr.listIndex_eq, hdata, idxOf_map_some]
    simp
  first a ha := by rw [hr.listFirst_of_mem ha, hr.head, entry_eq_head?]
  last a ha := by rw [hr.listLast_of_mem ha, exit_eq_getLast?]
  ends := by
    refine ⟨?_, by rw [hr.listLast_eq, exit_eq_getLast?]⟩
    cases hl : l with
    | nil =>
      obtain rfl : list = none := by rw [hr.head, hl, entry_nil]
      rfl
    | cons c l' =>
      have hlist : list = some c.1 := by rw [hr.head, hl, entry_cons]
      have hfirst := hr.listFirst_of_mem (a := c.1) (by simp [hl])
      rw [hlist] at hfirst ⊢
      exact hfirst

/-! ## Every run -/

/-- The empty world refines the empty sequences. -/
lemma refines_start : Refines (ListWorld.start V D) (ListSpec.start V D) := by
  refine ⟨fun _ => [], ⟨fun _ => ⟨rfl, trivial, List.nodup_nil, by simp⟩, ?_⟩, fun _ => rfl,
    Or.inl ⟨rfl, rfl⟩⟩
  intro v u _ a ha
  cases ha

/-- **The linked list refines sequences**: every run of calls from `NULL` lists succeeds, each
handle is then the head of a well-formed chain with the sequence of its variable, the queries agree
with it, and the item handed out last is the one of the specification.

**Proof sketch.** The run keeps `Refines` (`listStep_refines`, call by call); the conclusions
are read off it for each variable. -/
theorem list_refines [DecidableEq V] [DecidableEq D] (ops : List (ListOp V D))
    (hops : ∀ op ∈ ops, op.Separate) :
    ∃ w, Machine.run? listStep (ListWorld.start V D) ops = some w ∧
      (∀ v, ∃ nodes,
        WellFormedChain w.heap (w.lists v) nodes
          ((Machine.run specStep (ListSpec.start V D) ops).lists v) ∧
        QueriesAgree w.heap (w.lists v) nodes
          ((Machine.run specStep (ListSpec.start V D) ops).lists v)) ∧
      (w.out.bind w.heap.cells).bind Cell.data =
        (Machine.run specStep (ListSpec.start V D) ops).out := by
  obtain ⟨w, hrun, nodes, ho, hdata, hout⟩ := Machine.run?_simulates Refines
    (fun _ _ op hr hop => listStep_refines hr op hop) refines_start
    (Machine.guarded_of_forall (ListSpec.start V D) hops)
  refine ⟨w, hrun, fun v => ⟨addrs (nodes v), ?_, ?_⟩, ?_⟩
  · exact (ho.rep v).wellFormedChain (hdata v)
  · exact (ho.rep v).queriesAgree (hdata v)
  · rcases hout with ⟨hnone, hd⟩ | ⟨a, c, hsome, hcell, hd, -⟩
    · rw [hnone, hd]
      rfl
    · rw [hsome, Option.bind_some, hcell, Option.bind_some, hd]

/-- A run with two lists.

**Proof sketch.** `list_refines`; the calls that name two variables name different ones. -/
theorem list_refines_two_lists :
    ∃ w, Machine.run? listStep (ListWorld.start Bool ℕ)
        [.append true 1, .prepend false 2, .insert true 3 0, .extend true false, .reverse true,
          .remove true 3, .pop true] = some w ∧
      (∀ v, ∃ nodes,
        WellFormedChain w.heap (w.lists v) nodes
          ((Machine.run specStep (ListSpec.start Bool ℕ)
            [.append true 1, .prepend false 2, .insert true 3 0, .extend true false, .reverse true,
              .remove true 3, .pop true]).lists v) ∧
        QueriesAgree w.heap (w.lists v) nodes
          ((Machine.run specStep (ListSpec.start Bool ℕ)
            [.append true 1, .prepend false 2, .insert true 3 0, .extend true false, .reverse true,
              .remove true 3, .pop true]).lists v)) ∧
      (w.out.bind w.heap.cells).bind Cell.data =
        (Machine.run specStep (ListSpec.start Bool ℕ)
          [.append true 1, .prepend false 2, .insert true 3 0, .extend true false, .reverse true,
            .remove true 3, .pop true]).out :=
  list_refines _ (by simp [ListOp.Separate])

end Taningia
