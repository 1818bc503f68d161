import Mathlib.Algebra.Group.Nat.Defs
import Taningia.Lib.BottomUp
import Taningia.LinkedList.Spec

set_option relaxedAutoImplicit false
set_option autoImplicit false

/-!
# Sorting a linked list

`ta_list_sort` is a bottom-up merge sort on the nodes themselves: each pass cuts the chain into
runs, merges neighbouring runs by relinking their nodes behind the last node that was placed, and
closes the chain at its end. The runs are read through the same links that are rewritten.

## Main definitions

* `Taningia.Compare` — a comparison function, which may read the nodes and remember things.
* `Taningia.splitLoop`, `Taningia.mergeLoop`, `Taningia.passLoop`, `Taningia.sortLoop`,
  `Taningia.listSort` — the loops of the function and the function.
* `Taningia.Follows` — the answers of a comparison function follow an order of the nodes.

## Main results

* `Taningia.mergeLoop_spec`, `Taningia.passLoop_spec`, `Taningia.sortLoop_spec` — one lemma for each
  loop.
* `Taningia.listSort_spec` — what the function leaves.
* `Taningia.list_sort` — the same chain for every comparison function, and for an order the stable
  sort.
-/

namespace Taningia

open Chain

variable {E D : Type}

/-! ## The function -/

/-- `ta_list_cmp_func_t`: the answer for two nodes. The function may read the nodes, links included,
and has memory of its own. -/
abbrev Compare (E D : Type) := E → Heap D → ℕ → ℕ → ℤ × E

/-- What the loops change: the nodes, the memory of the comparison function, and the head and the
tail of the list that is built. -/
structure SortState (E D : Type) where
  heap : Heap D
  env : E
  list : Option ℕ
  tail : Option ℕ

/-- `p->next`. -/
def nextOf (h : Heap D) (p : Option ℕ) : Option (Option ℕ) := (p.bind h.cells).map Cell.next

/-- The loop that splits off the run at `p`, with `split_point` more steps to go. -/
def splitLoop (h : Heap D) : ℕ → ℕ → Option ℕ → Option (ℕ × Option ℕ)
  | 0, psize, q => some (psize, q)
  | i + 1, psize, q =>
    (nextOf h q).bind fun
      | none => some (psize + 1, none)
      | some q => splitLoop h i (psize + 1) (some q)

/-- The end of the body of the innermost loop: `e` is put behind `tail`. -/
def SortState.place (st : SortState E D) (e : Option ℕ) : Option (SortState E D) :=
  match st.tail with
  | some tail =>
    (st.heap.setNext (some tail) e).bind fun h =>
      (h.setPrev e (some tail)).map fun h => { st with heap := h, tail := e }
  | none => (st.heap.setPrev e none).map fun h => { st with heap := h, list := e, tail := e }

/-- `cmpfunc (p, q)`. -/
def SortState.compare (cmpfunc : Compare E D) (st : SortState E D) (p q : Option ℕ) :
    Option (ℤ × SortState E D) :=
  p.bind fun p => q.map fun q =>
    let (answer, env) := cmpfunc st.env st.heap p q
    (answer, { st with env := env })

/-- The innermost loop, which merges the runs at `p` and `q`. Each round takes a node from one of
them. -/
def mergeLoop (cmpfunc : Compare E D) : ℕ → SortState E D → Option ℕ → ℕ → Option ℕ → ℕ →
    Option (SortState E D × Option ℕ)
  | 0, st, _, psize, q, qsize =>
    if 0 < psize ∨ (0 < qsize ∧ q ≠ none) then none else some (st, q)
  | fuel + 1, st, p, psize, q, qsize =>
    if 0 < psize ∨ (0 < qsize ∧ q ≠ none) then
      let takeQ := fun st : SortState E D =>
        (nextOf st.heap q).bind fun next =>
          (st.place q).bind fun st => mergeLoop cmpfunc fuel st p psize next (qsize - 1)
      let takeP := fun st : SortState E D =>
        (nextOf st.heap p).bind fun next =>
          (st.place p).bind fun st => mergeLoop cmpfunc fuel st next (psize - 1) q qsize
      if psize = 0 then takeQ st
      else if qsize = 0 ∨ q = none then takeP st
      else
        (st.compare cmpfunc p q).bind fun (answer, st) =>
          if answer ≤ 0 then takeP st else takeQ st
    else some (st, q)

/-- The loop over the runs of one pass. -/
def passLoop (cmpfunc : Compare E D) (splitPoint : ℕ) : ℕ → SortState E D → Option ℕ → ℕ →
    Option (SortState E D × ℕ)
  | 0, _, _, _ => none
  | _ + 1, st, none, nmerges => some (st, nmerges)
  | fuel + 1, st, some p, nmerges =>
    (splitLoop st.heap splitPoint 0 (some p)).bind fun (psize, q) =>
      (mergeLoop cmpfunc (psize + splitPoint) st (some p) psize q splitPoint).bind fun (st, q) =>
        passLoop cmpfunc splitPoint fuel st q (nmerges + 1)

/-- The loop over the passes. -/
def sortLoop (cmpfunc : Compare E D) : ℕ → Heap D → E → Option ℕ → ℕ →
    Option (Heap D × Option ℕ × E)
  | 0, _, _, _, _ => none
  | fuel + 1, h, env, list, splitPoint =>
    (passLoop cmpfunc splitPoint h.fuel ⟨h, env, none, none⟩ list 0).bind fun (st, nmerges) =>
      (st.heap.setNext st.tail none).bind fun h =>
        if nmerges ≤ 1 then some (h, st.list, st.env)
        else sortLoop cmpfunc fuel h st.env st.list (splitPoint * 2)

/-- `ta_list_sort`: the nodes, the head of the list, and the memory of the comparison function. -/
def listSort (cmpfunc : Compare E D) (h : Heap D) (env : E) (list : Option ℕ) :
    Option (Heap D × Option ℕ × E) :=
  if list = none then some (h, list, env)
  else
    (nextOf h list).bind fun next =>
      if next = none then some (h, list, env) else sortLoop cmpfunc h.fuel h env list 1

/-! ## Relinking -/

/-- The heap has the same nodes with the same data, and only the given ones were relinked. -/
structure Relinked (h h' : Heap D) (own : List ℕ) : Prop where
  size : h'.size = h.size
  data : ∀ a, (h'.cells a).map Cell.data = (h.cells a).map Cell.data
  frame : ∀ a, a ∉ own → h'.cells a = h.cells a

/-- Where nothing is done, no node is linked anew. -/
lemma Relinked.refl (h : Heap D) (own : List ℕ) : Relinked h h own :=
  ⟨rfl, fun _ => rfl, fun _ _ => rfl⟩

/-- Two steps that link nodes anew. -/
lemma Relinked.trans {h h' h'' : Heap D} {own own' own'' : List ℕ} (h₁ : Relinked h h' own)
    (h₂ : Relinked h' h'' own') (hsub : own ⊆ own'') (hsub' : own' ⊆ own'') :
    Relinked h h'' own'' where
  size := h₂.size.trans h₁.size
  data a := (h₂.data a).trans (h₁.data a)
  frame a ha := by
    rw [h₂.frame a fun hmem => ha (hsub' hmem), h₁.frame a fun hmem => ha (hsub hmem)]

/-- A forward link that is set. -/
lemma relinked_setNext (h : Heap D) (a : ℕ) (n : Option ℕ) :
    Relinked h { h with cells := Chain.setNext h.cells a n } [a] where
  size := rfl
  data b := by
    by_cases hb : b = a
    · rw [hb]
      simp [setNext_self, Function.comp_def]
    · simp only [setNext_of_ne _ _ hb]
  frame b hb := setNext_of_ne _ _ (by simpa using hb)

/-- A backward link that is set. -/
lemma relinked_setPrev (h : Heap D) (a : ℕ) (n : Option ℕ) :
    Relinked h { h with cells := Chain.setPrev h.cells a n } [a] where
  size := rfl
  data b := by
    by_cases hb : b = a
    · rw [hb]
      simp [setPrev_self, Function.comp_def]
    · simp only [setPrev_of_ne _ _ hb]
  frame b hb := setPrev_of_ne _ _ (by simpa using hb)

/-- A segment without relinked nodes stays. -/
lemma Relinked.seg {h h' : Heap D} {own : List ℕ} (hr : Relinked h h' own)
    {l : List (ℕ × Option D)} (hdisj : ∀ a ∈ addrs l, a ∉ own) {p n : Option ℕ}
    (hl : Seg h.cells p l n) : Seg h'.cells p l n :=
  hl.congr fun a ha => hr.frame a (hdisj a ha)

/-- The answers follow the order, as long as the nodes have their data. -/
def Follows (cmpfunc : Compare E D) (h : Heap D) (l : List (ℕ × Option D))
    (le : ℕ × Option D → ℕ × Option D → Bool) : Prop :=
  ∀ env h', (∀ a, (h'.cells a).map Cell.data = (h.cells a).map Cell.data) →
    ∀ x ∈ l, ∀ y ∈ l, (cmpfunc env h' x.1 y.1).1 ≤ 0 ↔ le x y = true

/-- A comparison of the data does not see the links. -/
lemma Follows.relinked {cmpfunc : Compare E D} {h h' : Heap D} {own : List ℕ}
    {l l' : List (ℕ × Option D)} {le : ℕ × Option D → ℕ × Option D → Bool}
    (hf : Follows cmpfunc h l le) (hr : Relinked h h' own) (hsub : l' ⊆ l) :
    Follows cmpfunc h' l' le := by
  intro env h'' hdata x hx y hy
  exact hf env h'' (fun a => (hdata a).trans (hr.data a)) x (hsub hx) y (hsub hy)

/-! ## Placing a node -/

/-- The nodes placed so far are a chain from `list` to `tail`; the last link is still the old
one. -/
structure Built (st : SortState E D) (placed : List (ℕ × Option D)) : Prop where
  list : st.list = entry none placed
  tail : st.tail = exit none placed
  seg : ∃ n, Seg st.heap.cells none placed n

/-- **Placing a node** puts it at the end of the chain, and changes no node outside.

**Proof sketch.** The first node placed becomes the head, with no node in front of it. Any other
is linked behind the last one placed, which ends the segment. -/
lemma Built.place {st : SortState E D} {placed : List (ℕ × Option D)} (hb : Built st placed)
    {e : ℕ × Option D} (hnodup : (addrs (placed ++ [e])).Nodup) {p n : Option ℕ}
    (hcell : st.heap.cells e.1 = some ⟨p, n, e.2⟩) :
    ∃ st', st.place (some e.1) = some st' ∧ Built st' (placed ++ [e]) ∧ st'.env = st.env ∧
      Relinked st.heap st'.heap (addrs (placed ++ [e])) := by
  obtain ⟨hlist, htail, n', hseg⟩ := hb
  have hsome : (st.heap.cells e.1).isSome = true := by rw [hcell, Option.isSome_some]
  rcases List.eq_nil_or_concat' placed with rfl | ⟨placed, c, rfl⟩
  · refine ⟨{ st with
        heap := { st.heap with cells := Chain.setPrev st.heap.cells e.1 none }
        list := some e.1, tail := some e.1 }, ?_, ⟨rfl, rfl, n, ?_, trivial⟩, rfl, ?_⟩
    · rw [SortState.place, htail]
      simp [setPrev_eq hsome]
    · simp [setPrev_self, hcell]
    · exact relinked_setPrev _ _ _
  · have hc : (st.heap.cells c.1).isSome = true := hseg.isSome (by simp)
    have hone : Seg st.heap.cells p [e] n := ⟨hcell, trivial⟩
    rw [exit_concat] at htail
    refine ⟨{ st with
        heap := { st.heap with cells := link st.heap.cells c.1 e.1 }
        tail := some e.1 }, ?_, ⟨?_, ?_, n, ?_⟩, rfl, ?_⟩
    · rw [SortState.place, htail]
      simp only [setNext_eq hc, Option.bind_some]
      rw [setPrev_eq (by simp [hsome]), Option.map_some]
      rfl
    · rw [hlist, entry_concat_append]
    · rw [exit_concat]
    · exact hseg.link hone hnodup
    · apply (relinked_setNext st.heap c.1 (some e.1)).trans (relinked_setPrev _ e.1 (some c.1))
      · simp
      · simp

/-! ## The loops -/

/-- The loop that splits off a run stops behind it, or at the end of the list.

**Proof sketch.** Induction on the counter: each turn follows one forward link, to the end of
the list at most. -/
lemma splitLoop_spec {h : Heap D} (i : ℕ) {t : List (ℕ × Option D)} {p : Option ℕ}
    (ht : t ≠ []) (hseg : Seg h.cells p t none) (psize : ℕ) :
    splitLoop h i psize (entry none t) =
      some (psize + (t.take i).length, entry none (t.drop i)) := by
  induction i generalizing t p psize with
  | zero => simp [splitLoop]
  | succ i ih =>
    obtain ⟨c, t, rfl⟩ := List.exists_cons_of_ne_nil ht
    obtain ⟨hcell, hrest⟩ := hseg
    have hnext : nextOf h (entry none (c :: t)) = some (entry none t) := by
      simp [nextOf, hcell]
    rw [splitLoop, hnext, Option.bind_some]
    cases t with
    | nil => simp
    | cons d t =>
      have hrun := ih (t := d :: t) (by simp) hrest (psize + 1)
      simp only [entry_cons, List.take_succ_cons, List.drop_succ_cons, List.length_cons] at hrun ⊢
      rw [hrun]
      congr 2
      omega

/-- What the innermost loop works on: the nodes placed so far, the rest `ps` of the run at `p`, and
the rest `t` of the list from `q`. -/
structure Runs (st : SortState E D) (placed ps t : List (ℕ × Option D)) (p q : Option ℕ) :
    Prop where
  built : Built st placed
  run : ∃ b n, Seg st.heap.cells b ps n
  p_eq : ps ≠ [] → p = entry none ps
  rest : ∃ b, Seg st.heap.cells b t none
  q_eq : q = entry none t
  nodup : (addrs (placed ++ (ps ++ t))).Nodup

/-- Taking the first node of the run at `p`.

**Proof sketch.** The node is read where the run is, and placed (`Built.place`), which changes
no node behind it; so the rest of the run and the rest of the list are where they were. -/
lemma Runs.takeP {st : SortState E D} {placed ps t : List (ℕ × Option D)} {p q : Option ℕ}
    {c : ℕ × Option D} (hr : Runs st placed (c :: ps) t p q) :
    ∃ next st', nextOf st.heap p = some next ∧ st.place p = some st' ∧
      Runs st' (placed ++ [c]) ps t next q ∧
      Relinked st.heap st'.heap (addrs (placed ++ [c])) := by
  obtain ⟨hbuilt, ⟨b, n, hcell, hseg⟩, hp, ⟨b', hrest⟩, hq, hnodup⟩ := hr
  have hnodup' : (addrs (placed ++ [c] ++ (ps ++ t))).Nodup := by simpa using hnodup
  have hparts := nodup_addrs_append.mp hnodup'
  obtain ⟨st', hplace, hbuilt', -, hrelink⟩ := hbuilt.place hparts.1 hcell
  have hdisj : ∀ a ∈ addrs (ps ++ t), a ∉ addrs (placed ++ [c]) :=
    fun a ha hmem => hparts.2.2 a hmem a ha rfl
  rw [addrs_append] at hdisj
  refine ⟨entry n ps, st', ?_, ?_, ⟨hbuilt', ⟨some c.1, n, ?_⟩, ?_, ⟨b', ?_⟩, hq, hnodup'⟩,
    hrelink⟩
  · simp [nextOf, hp (by simp), hcell]
  · rw [hp (by simp), entry_cons, hplace]
  · exact hrelink.seg (fun a ha => hdisj a (List.mem_append_left _ ha)) hseg
  · intro hne
    obtain ⟨d, ps, rfl⟩ := List.exists_cons_of_ne_nil hne
    rfl
  · exact hrelink.seg (fun a ha => hdisj a (List.mem_append_right _ ha)) hrest

/-- Taking the first node behind `q`.

**Proof sketch.** As `Runs.takeP`; the node at `q` comes in front of the run in the order of the
addresses, which are the same up to order. -/
lemma Runs.takeQ {st : SortState E D} {placed ps t : List (ℕ × Option D)} {p q : Option ℕ}
    {e : ℕ × Option D} (hr : Runs st placed ps (e :: t) p q) :
    ∃ next st', nextOf st.heap q = some next ∧ st.place q = some st' ∧
      Runs st' (placed ++ [e]) ps t p next ∧
      Relinked st.heap st'.heap (addrs (placed ++ [e])) := by
  obtain ⟨hbuilt, ⟨b, n, hseg⟩, hp, ⟨b', hcell, hrest⟩, rfl, hnodup⟩ := hr
  have hperm : (addrs (placed ++ (ps ++ e :: t))).Perm (addrs (placed ++ [e] ++ (ps ++ t))) := by
    simp only [addrs_append, addrs_cons, List.append_assoc, List.singleton_append]
    exact List.perm_middle.append_left _
  have hnodup' : (addrs (placed ++ [e] ++ (ps ++ t))).Nodup := hperm.nodup_iff.mp hnodup
  have hparts := nodup_addrs_append.mp hnodup'
  obtain ⟨st', hplace, hbuilt', -, hrelink⟩ := hbuilt.place hparts.1 hcell
  have hdisj : ∀ a ∈ addrs (ps ++ t), a ∉ addrs (placed ++ [e]) :=
    fun a ha hmem => hparts.2.2 a hmem a ha rfl
  rw [addrs_append] at hdisj
  refine ⟨entry none t, st', by simp [nextOf, hcell], hplace,
    ⟨hbuilt', ⟨b, n, ?_⟩, hp, ⟨some e.1, ?_⟩, rfl, hnodup'⟩, hrelink⟩
  · exact hrelink.seg (fun a ha => hdisj a (List.mem_append_left _ ha)) hseg
  · exact hrelink.seg (fun a ha => hdisj a (List.mem_append_right _ ha)) hrest

/-- What the innermost loop leaves, from a heap: the runs `ps` and the first `qsize` nodes of `t`
are placed, in the order of a merge if there is one, and `q` is behind them. -/
def Merges (cmpfunc : Compare E D) (h : Heap D) (placed ps t : List (ℕ × Option D)) (qsize : ℕ)
    (result : Option (SortState E D × Option ℕ)) : Prop :=
  ∃ st' r, result = some (st', entry none (t.drop qsize)) ∧ Built st' (placed ++ r) ∧
    r.Perm (ps ++ t.take qsize) ∧ (∃ b, Seg st'.heap.cells b (t.drop qsize) none) ∧
    Relinked h st'.heap (addrs (placed ++ (ps ++ t.take qsize))) ∧
    ∀ le, Follows cmpfunc h (ps ++ t) le → r = ps.merge (t.take qsize) le

section Merge

variable {cmpfunc : Compare E D} {h h' : Heap D} {placed ps t : List (ℕ × Option D)} {qsize : ℕ}
  {result : Option (SortState E D × Option ℕ)} {c : ℕ × Option D}

/-- One more node in front of the run at `p`. -/
lemma Merges.consP (hr : Relinked h h' (addrs (placed ++ [c])))
    (hm : Merges cmpfunc h' (placed ++ [c]) ps t qsize result)
    (hfirst : ∀ le, Follows cmpfunc h (c :: ps ++ t) le →
      (c :: ps).merge (t.take qsize) le = c :: ps.merge (t.take qsize) le) :
    Merges cmpfunc h placed (c :: ps) t qsize result := by
  obtain ⟨st', r, hresult, hbuilt, hperm, hrest, hrelink, hmerge⟩ := hm
  refine ⟨st', c :: r, hresult, by simpa using hbuilt, by simpa using hperm, hrest, ?_, ?_⟩
  · apply hr.trans hrelink
    · simp [addrs]
    · simp [addrs]
  · intro le hle
    rw [hfirst le hle, hmerge le (hle.relinked hr (by simp))]

/-- One more node in front of the rest behind `q`.

**Proof sketch.** The node was placed first, so the result has it in front; it is the first of
what was taken behind `q`, and `hfirst` says that the merge starts with it too. -/
lemma Merges.consQ (hr : Relinked h h' (addrs (placed ++ [c])))
    (hm : Merges cmpfunc h' (placed ++ [c]) ps t qsize result)
    (hfirst : ∀ le, Follows cmpfunc h (ps ++ c :: t) le →
      ps.merge (c :: t.take qsize) le = c :: ps.merge (t.take qsize) le) :
    Merges cmpfunc h placed ps (c :: t) (qsize + 1) result := by
  obtain ⟨st', r, hresult, hbuilt, hperm, hrest, hrelink, hmerge⟩ := hm
  refine ⟨st', c :: r, by simpa using hresult, by simpa using hbuilt, ?_, by simpa using hrest, ?_,
    ?_⟩
  · rw [List.take_succ_cons]
    exact (hperm.cons c).trans List.perm_middle.symm
  · apply hr.trans hrelink
    · intro a ha
      simp only [addrs_append, addrs_cons, List.take_succ_cons, List.mem_append] at ha ⊢
      simp only [addrs_nil, List.mem_singleton] at ha
      simp only [List.mem_cons]
      tauto
    · intro a ha
      simp only [addrs_append, addrs_cons, List.take_succ_cons, List.mem_append] at ha ⊢
      simp only [addrs_nil, List.mem_singleton] at ha
      simp only [List.mem_cons]
      tauto
  · intro le hle
    rw [List.take_succ_cons, hfirst le hle,
      hmerge le (hle.relinked hr (List.append_subset.mpr ⟨by simp, by simp⟩))]

end Merge

/-- Nothing is left of the two runs. -/
lemma Runs.stop {cmpfunc : Compare E D} {st : SortState E D} {placed t : List (ℕ × Option D)}
    {p q : Option ℕ} {qsize : ℕ} (hr : Runs st placed [] t p q) (h : qsize = 0 ∨ t = []) :
    Merges cmpfunc st.heap placed [] t qsize (some (st, q)) := by
  have htake : t.take qsize = [] := by simpa using h
  have hdrop : t.drop qsize = t := by rcases h with rfl | rfl <;> simp
  refine ⟨st, [], by rw [hdrop, hr.q_eq], by simpa using hr.built, by simp [htake], ?_,
    Relinked.refl _ _, by simp [htake]⟩
  rw [hdrop]
  exact hr.rest

/-- The state of the comparison is no part of the runs. -/
lemma Runs.withEnv {st : SortState E D} {placed ps t : List (ℕ × Option D)} {p q : Option ℕ}
    (hr : Runs st placed ps t p q) (env : E) : Runs { st with env := env } placed ps t p q :=
  ⟨⟨hr.built.list, hr.built.tail, hr.built.seg⟩, hr.run, hr.p_eq, hr.rest, hr.q_eq, hr.nodup⟩

/-- **The innermost loop** merges the run at `p` with the one at `q`.

**Proof sketch.** Induction on the rounds to go: each one takes the first node of one of the runs,
the one that a merge takes first when the answers follow an order. -/
lemma mergeLoop_spec (cmpfunc : Compare E D) (fuel : ℕ) {st : SortState E D}
    {placed ps t : List (ℕ × Option D)} {p q : Option ℕ} {qsize : ℕ}
    (hr : Runs st placed ps t p q) (hfuel : ps.length + qsize ≤ fuel) :
    Merges cmpfunc st.heap placed ps t qsize
      (mergeLoop cmpfunc fuel st p ps.length q qsize) := by
  induction fuel generalizing st placed ps t p q qsize with
  | zero =>
    obtain ⟨hps, rfl⟩ : ps.length = 0 ∧ qsize = 0 := by omega
    obtain rfl := List.length_eq_zero_iff.mp hps
    have hstop : Merges cmpfunc st.heap placed [] t 0 (some (st, q)) := hr.stop (.inl rfl)
    simpa [mergeLoop] using hstop
  | succ fuel ih =>
    have hq : q ≠ none ↔ t ≠ [] := by
      rw [hr.q_eq]
      cases t <;> simp
    rw [mergeLoop]
    by_cases hgo : 0 < ps.length ∨ (0 < qsize ∧ q ≠ none)
    · rw [if_pos hgo]
      cases ps with
      | nil =>
        -- the run at `p` is used up
        obtain ⟨hsize, hne⟩ := hgo.resolve_left (by simp)
        obtain ⟨k, rfl⟩ : ∃ k, qsize = k + 1 := ⟨qsize - 1, by omega⟩
        obtain ⟨e, t, rfl⟩ := List.exists_cons_of_ne_nil (hq.mp hne)
        obtain ⟨next, st', hnext, hplace, hr', hrelink⟩ := hr.takeQ
        have hm : Merges cmpfunc st'.heap (placed ++ [e]) [] t k
            (mergeLoop cmpfunc fuel st' p 0 next k) := ih hr' (by simpa using hfuel)
        simp only [List.length_nil, if_true, hnext, hplace, Option.bind_some]
        exact Merges.consQ hrelink hm fun le _ => by simp
      | cons c ps =>
        have htakeP : ∀ env, ∃ next st', nextOf st.heap p = some next ∧
            ({ st with env := env } : SortState E D).place p = some st' ∧
            Relinked st.heap st'.heap (addrs (placed ++ [c])) ∧
            Merges cmpfunc st'.heap (placed ++ [c]) ps t qsize
              (mergeLoop cmpfunc fuel st' next ps.length q qsize) := by
          intro env
          obtain ⟨next, st', hnext, hplace, hr', hrelink⟩ := (hr.withEnv env).takeP
          rw [List.length_cons] at hfuel
          exact ⟨next, st', hnext, hplace, hrelink, ih hr' (by omega)⟩
        rw [if_neg (by simp)]
        by_cases hend : qsize = 0 ∨ q = none
        · -- the run at `q` is used up
          obtain ⟨next, st', hnext, hplace, hrelink, hm⟩ := htakeP st.env
          have htake : t.take qsize = [] := by
            rw [List.take_eq_nil_iff]
            exact hend.imp id fun h => by_contra fun hne => hq.mpr hne h
          rw [if_pos hend]
          simp only [hnext, hplace, Option.bind_some, List.length_cons, Nat.add_sub_cancel]
          exact hm.consP hrelink fun le _ => by simp [htake]
        · rw [if_neg hend]
          rw [not_or] at hend
          obtain ⟨k, rfl⟩ : ∃ k, qsize = k + 1 := ⟨qsize - 1, by omega⟩
          obtain ⟨e, t, rfl⟩ := List.exists_cons_of_ne_nil (hq.mp hend.2)
          have hcompare : st.compare cmpfunc p q =
              some ((cmpfunc st.env st.heap c.1 e.1).1,
                { st with env := (cmpfunc st.env st.heap c.1 e.1).2 }) := by
            rw [hr.p_eq (by simp), hr.q_eq]
            rfl
          have horder : ∀ le, Follows cmpfunc st.heap (c :: ps ++ e :: t) le →
              ((cmpfunc st.env st.heap c.1 e.1).1 ≤ 0 ↔ le c e = true) :=
            fun le hle => hle st.env st.heap (fun _ => rfl) c (by simp) e (by simp)
          simp only [hcompare, Option.bind_some]
          by_cases hanswer : (cmpfunc st.env st.heap c.1 e.1).1 ≤ 0
          · obtain ⟨next, st', hnext, hplace, hrelink, hm⟩ :=
              htakeP (cmpfunc st.env st.heap c.1 e.1).2
            simp only [if_pos hanswer, hnext, hplace, Option.bind_some, List.length_cons,
              Nat.add_sub_cancel]
            refine hm.consP hrelink fun le hle => ?_
            rw [List.take_succ_cons]
            exact List.cons_merge_cons_pos _ _ _ ((horder le hle).mp hanswer)
          · obtain ⟨next, st', hnext, hplace, hr', hrelink⟩ :=
              (hr.withEnv (cmpfunc st.env st.heap c.1 e.1).2).takeQ
            have hm : Merges cmpfunc st'.heap (placed ++ [e]) (c :: ps) t k
                (mergeLoop cmpfunc fuel st' p (c :: ps).length next k) := ih hr' (by omega)
            simp only [if_neg hanswer, hnext, hplace, Option.bind_some, Nat.add_sub_cancel]
            refine Merges.consQ hrelink hm fun le hle => ?_
            exact List.cons_merge_cons_neg _ _ _ fun h => hanswer ((horder le hle).mpr h)
    · rw [if_neg hgo]
      rw [not_or, not_lt, Nat.le_zero, List.length_eq_zero_iff, not_and] at hgo
      obtain ⟨rfl, hgo⟩ := hgo
      apply hr.stop
      by_cases hsize : qsize = 0
      · exact .inl hsize
      · exact .inr (by_contra fun hne => hgo (by omega) (hq.mpr hne))

/-- **One pass** merges neighbouring runs of length `w`; it makes no second merge exactly when there
are at most two runs.

**Proof sketch.** Induction on the rounds to go. Each round splits off a run, merges it with the
next one, and goes on behind both. -/
lemma passLoop_spec (cmpfunc : Compare E D) {w : ℕ} (hw : 0 < w) (fuel : ℕ) {st : SortState E D}
    {placed t : List (ℕ × Option D)} {b : Option ℕ} (hbuilt : Built st placed)
    (hseg : Seg st.heap.cells b t none) (hnodup : (addrs (placed ++ t)).Nodup)
    (hfuel : t.length < fuel) (nmerges : ℕ) :
    ∃ st' r k, passLoop cmpfunc w fuel st (entry none t) nmerges = some (st', nmerges + k) ∧
      Built st' (placed ++ r) ∧ r.Perm t ∧ Relinked st.heap st'.heap (addrs (placed ++ t)) ∧
      (k = 0 ↔ t = []) ∧ (k ≤ 1 ↔ t.length ≤ 2 * w) ∧
      ∀ le, Follows cmpfunc st.heap t le → r = BottomUp.mergeRuns le w t := by
  induction fuel generalizing st placed t b nmerges with
  | zero => omega
  | succ fuel ih =>
    cases t with
    | nil =>
      exact ⟨st, [], 0, rfl, by simpa using hbuilt, List.Perm.refl _, Relinked.refl _ _, by simp,
        by simp, by simp⟩
    | cons c t' =>
      obtain ⟨t, ht⟩ : ∃ t, t = c :: t' := ⟨_, rfl⟩
      rw [← ht] at hseg hnodup hfuel ⊢
      have hne : t ≠ [] := by simp [ht]
      have hentry : entry none t = some c.1 := by rw [ht, entry_cons]
      -- the run at `p` and the rest behind it
      have hparts : t.take w ++ t.drop w = t := List.take_append_drop w t
      have hfront : (t.drop w).take w ++ t.drop (2 * w) = t.drop w := by
        rw [Nat.two_mul, ← List.drop_drop, List.take_append_drop]
      obtain ⟨hrun, hrest⟩ := seg_append.mp (hparts.symm ▸ hseg)
      have hruns : Runs st placed (t.take w) (t.drop w) (some c.1) (entry none (t.drop w)) := by
        refine ⟨hbuilt, ⟨_, _, hrun⟩, fun _ => ?_, ⟨_, hrest⟩, rfl, by rwa [hparts]⟩
        obtain ⟨v, rfl⟩ : ∃ v, w = v + 1 := ⟨w - 1, by omega⟩
        rw [ht, List.take_succ_cons, entry_cons]
      obtain ⟨st₁, r₁, hmerge, hbuilt₁, hperm₁, ⟨b₁, hseg₁⟩, hrelink₁, horder₁⟩ :=
        mergeLoop_spec cmpfunc ((t.take w).length + w) hruns le_rfl
      rw [List.drop_drop, ← Nat.two_mul] at hmerge hseg₁
      have hperm : (placed ++ r₁ ++ t.drop (2 * w)).Perm (placed ++ t) := by
        conv_rhs => rw [← hparts, ← hfront]
        rw [List.append_assoc, ← List.append_assoc (t.take w)]
        exact (hperm₁.append_right _).append_left _
      have hnodup₁ : (addrs (placed ++ r₁ ++ t.drop (2 * w))).Nodup :=
        ((hperm.map Prod.fst).nodup_iff).mpr hnodup
      have hlen : (t.drop (2 * w)).length < fuel := by
        have : 0 < t.length := List.length_pos_iff.mpr hne
        rw [List.length_drop]
        omega
      obtain ⟨st₂, r₂, k, hpass, hbuilt₂, hperm₂, hrelink₂, hzero, hone, horder₂⟩ :=
        ih hbuilt₁ hseg₁ hnodup₁ hlen (nmerges + 1)
      refine ⟨st₂, r₁ ++ r₂, k + 1, ?_, by simpa using hbuilt₂, ?_, ?_, by simp [hne], ?_, ?_⟩
      · rw [hentry, passLoop, ← hentry, splitLoop_spec w hne hseg 0, Option.bind_some]
        simp only [Nat.zero_add, hentry, hmerge, Option.bind_some, hpass]
        congr 2
        omega
      · conv_rhs => rw [← hparts, ← hfront, ← List.append_assoc]
        exact hperm₁.append hperm₂
      · apply hrelink₁.trans hrelink₂
        · have hsplit : addrs t =
              addrs (t.take w) ++ (addrs ((t.drop w).take w) ++ addrs (t.drop (2 * w))) := by
            rw [← addrs_append, hfront, ← addrs_append, hparts]
          intro a ha
          rw [addrs_append, hsplit]
          simp only [addrs_append, List.mem_append] at ha ⊢
          rcases ha with ha | ha | ha
          · exact Or.inl ha
          · exact Or.inr (Or.inl ha)
          · exact Or.inr (Or.inr (Or.inl ha))
        · exact fun a ha => ((hperm.map Prod.fst).mem_iff).mp ha
      · rw [← List.drop_eq_nil_iff, ← hzero]
        omega
      · intro le hle
        rw [horder₁ le (by rwa [hparts]),
          horder₂ le (hle.relinked hrelink₁ (List.drop_subset _ _)), ← BottomUp.mergeRuns_eq hw]

/-- What sorting the list leaves: a chain of the same nodes, the stable sort of `l₀` if there is an
order and the list has its runs of length `w` sorted already. -/
def Sorts (cmpfunc : Compare E D) (h : Heap D) (l : List (ℕ × Option D)) (w : ℕ)
    (result : Option (Heap D × Option ℕ × E)) : Prop :=
  ∃ h' r env', result = some (h', entry none r, env') ∧ Rep h' (entry none r) r ∧ r.Perm l ∧
    Relinked h h' (addrs l) ∧
    ∀ le l₀, (∀ a b c, le a b = true → le b c = true → le a c = true) →
      (∀ a b, (le a b || le b a) = true) → Follows cmpfunc h l le →
      l = BottomUp.sortedRuns le w l₀ → r = l₀.mergeSort le

/-- **The loop over the passes** ends, as the runs get twice as long with each pass.

**Proof sketch.** Induction on the passes to go. Behind a pass the chain is closed at its tail. A
pass with at most one merge had at most two runs, so the whole list is one run then. -/
lemma sortLoop_spec (cmpfunc : Compare E D) (fuel : ℕ) {h : Heap D} {env : E}
    {l : List (ℕ × Option D)} {w : ℕ} (hw : 0 < w) (hr : Rep h (entry none l) l) (hl : l ≠ [])
    (hfuel : l.length ≤ 2 ^ fuel * w) (hpos : 0 < fuel) :
    Sorts cmpfunc h l w (sortLoop cmpfunc fuel h env (entry none l) w) := by
  induction fuel generalizing h env l w with
  | zero => omega
  | succ fuel ih =>
    have hstart : Built (⟨h, env, none, none⟩ : SortState E D) [] := ⟨rfl, rfl, none, trivial⟩
    obtain ⟨st, r, k, hpass, hbuilt, hperm, hrelink, -, hone, horder⟩ :=
      passLoop_spec cmpfunc hw h.fuel hstart hr.seg hr.nodup hr.length_lt_fuel 0
    rw [List.nil_append] at hbuilt hrelink
    rw [Nat.zero_add] at hpass
    have hrne : r ≠ [] := fun e => hl (by simpa [e] using hperm)
    obtain ⟨r', c, rfl⟩ := (List.eq_nil_or_concat' r).resolve_left hrne
    obtain ⟨hlist, htail, n, hseg⟩ := hbuilt
    have hnodup : (addrs (r' ++ [c])).Nodup := (hperm.map Prod.fst).nodup_iff.mpr hr.nodup
    have hc : (st.heap.cells c.1).isSome = true := hseg.isSome (by simp)
    have hclose := relinked_setNext st.heap c.1 none
    have hcl : c.1 ∈ addrs l := (hperm.map Prod.fst).mem_iff.mp (by simp)
    have hrelink' := hrelink.trans hclose (List.Subset.refl _) (by simpa using hcl)
    have hrep : Rep { st.heap with cells := Chain.setNext st.heap.cells c.1 none }
        (entry none (r' ++ [c])) (r' ++ [c]) := by
      refine ⟨rfl, hseg.setNext_concat (not_mem_of_nodup_concat hnodup) none, hnodup, ?_⟩
      intro a ha
      have hbound := hr.bound a ((hperm.map Prod.fst).mem_iff.mp ha)
      rwa [← hrelink'.size] at hbound
    rw [sortLoop, hpass, Option.bind_some]
    simp only [htail, exit_concat, setNext_eq hc, Option.bind_some, hlist]
    -- when the runs were sorted, the runs of twice the length are
    have hdouble : ∀ le l₀, (∀ a b c, le a b = true → le b c = true → le a c = true) →
        (∀ a b, (le a b || le b a) = true) → Follows cmpfunc h l le →
        l = BottomUp.sortedRuns le w l₀ → r' ++ [c] = BottomUp.sortedRuns le (2 * w) l₀ := by
      intro le l₀ htrans htotal hle hruns
      rw [horder le hle, hruns, BottomUp.mergeRuns_sortedRuns htrans htotal hw]
    by_cases hlast : k ≤ 1
    · rw [if_pos hlast]
      refine ⟨_, _, _, rfl, hrep, hperm, hrelink', ?_⟩
      intro le l₀ htrans htotal hle hruns
      have hlen : l₀.length ≤ 2 * w := by
        have hruns_perm : (BottomUp.sortedRuns le w l₀).Perm l₀ := BottomUp.sortedRuns_perm hw l₀
        rw [← hruns_perm.length_eq, ← hruns]
        exact hone.mp hlast
      rw [hdouble le l₀ htrans htotal hle hruns,
        BottomUp.sortedRuns_of_length_le (by omega) hlen]
    · rw [if_neg hlast]
      have hlong : ¬ l.length ≤ 2 * w := fun h => hlast (hone.mpr h)
      have hfuel' : 0 < fuel := by
        rcases Nat.eq_zero_or_pos fuel with rfl | hpos
        · exact absurd (by simpa using hfuel) hlong
        · exact hpos
      obtain ⟨h', r, env', hsort, hrep', hperm', hrelink'', horder'⟩ :=
        ih (w := w * 2) (by omega) hrep hrne
          (by rwa [hperm.length_eq, Nat.mul_comm w, ← Nat.mul_assoc, ← Nat.pow_succ]) hfuel'
      refine ⟨h', r, env', hsort, hrep', hperm'.trans hperm,
        hrelink'.trans hrelink'' (List.Subset.refl _)
          (fun a ha => (hperm.map Prod.fst).mem_iff.mp ha), ?_⟩
      intro le l₀ htrans htotal hle hruns
      refine horder' le l₀ htrans htotal
        (hle.relinked hrelink' (fun a ha => hperm.mem_iff.mp ha)) ?_
      rw [Nat.mul_comm]
      exact hdouble le l₀ htrans htotal hle hruns

/-- **What `ta_list_sort` leaves.**

**Proof sketch.** A list of at most one node is left as it is, as is its sorted version.
Otherwise `sortLoop` doubles the length of the runs until one is left, for which the fuel is
enough. -/
lemma listSort_spec (cmpfunc : Compare E D) {h : Heap D} (env : E) {list : Option ℕ}
    {l : List (ℕ × Option D)} (hr : Rep h list l) :
    Sorts cmpfunc h l 1 (listSort cmpfunc h env list) := by
  have hsame : l.length ≤ 1 → Sorts cmpfunc h l 1 (some (h, list, env)) := by
    intro hlen
    refine ⟨h, l, env, by rw [hr.head], hr.head ▸ hr, List.Perm.refl _, Relinked.refl _ _, ?_⟩
    intro le l₀ _ _ _ hruns
    have hl₀ : l₀.length ≤ 1 := by
      rwa [← (BottomUp.sortedRuns_perm Nat.one_pos l₀).length_eq, ← hruns]
    rw [hruns, BottomUp.sortedRuns_of_length_le Nat.one_pos hl₀]
  have hfuel : l.length ≤ 2 ^ h.fuel * 1 := by
    have hlt := hr.length_lt_fuel
    have hpow := @Nat.lt_two_pow_self h.fuel
    omega
  have hhead := hr.head
  rcases l with _ | ⟨c, _ | ⟨d, l⟩⟩
  · rw [listSort, if_pos (show list = none from hhead)]
    exact hsame (by simp)
  · have hnext : nextOf h list = some none := by simp [nextOf, hhead, hr.seg.1]
    rw [listSort, if_neg (by simp [hhead]), hnext, Option.bind_some, if_pos rfl]
    exact hsame (by simp)
  · have hnext : nextOf h list = some (some d.1) := by simp [nextOf, hhead, hr.seg.1]
    rw [listSort, if_neg (by simp [hhead]), hnext, Option.bind_some, if_neg (by simp)]
    rw [hhead] at hr ⊢
    exact sortLoop_spec cmpfunc h.fuel Nat.one_pos hr (by simp) hfuel (Nat.succ_pos _)

/-- **List sort.** For every comparison function the call returns the head of a chain of the same
nodes with inverse links and both ends `NULL`. When the answers follow a total preorder of the
nodes, the chain is sorted, and nodes keep their order where they may.

**Proof sketch.** `listSort_spec` has the chain, and with an order its nodes are those of the stable
sort of the library. -/
theorem list_sort (cmpfunc : Compare E D) {h : Heap D} (env : E) {list : Option ℕ}
    {l : List (ℕ × Option D)} (hr : Rep h list l) :
    ∃ h' head r env', listSort cmpfunc h env list = some (h', head, env') ∧
      Rep h' head r ∧ r.Perm l ∧
      (∀ a ∈ addrs r, ∀ b ∈ addrs r,
        (h'.cells a).bind Cell.next = some b ↔ (h'.cells b).bind Cell.prev = some a) ∧
      (∀ a, a ∉ addrs l → h'.cells a = h.cells a) ∧
      ∀ le, (∀ a b c, le a b = true → le b c = true → le a c = true) →
        (∀ a b, (le a b || le b a) = true) → Follows cmpfunc h l le →
        r.Pairwise (fun a b => le a b = true) ∧
          ∀ a b, le a b = true → [a, b].Sublist l → [a, b].Sublist r := by
  obtain ⟨h', r, env', hsort, hrep, hperm, hrelink, horder⟩ := listSort_spec cmpfunc env hr
  refine ⟨h', entry none r, r, env', hsort, hrep, hperm,
    fun a ha b hb => hrep.seg.next_iff_prev ha hb, hrelink.frame, ?_⟩
  intro le htrans htotal hle
  have hr' := horder le l htrans htotal hle (BottomUp.sortedRuns_one l).symm
  rw [hr']
  refine ⟨List.pairwise_mergeSort htrans htotal l, ?_⟩
  intro a b hab hsub
  exact List.pair_sublist_mergeSort htrans htotal hab hsub

/-- Three nodes with the numbers `2`, `1`, `1`. -/
def threeNodes : Heap ℕ where
  cells
    | 0 => some ⟨none, some 1, some 2⟩
    | 1 => some ⟨some 0, some 2, some 1⟩
    | 2 => some ⟨some 1, none, some 1⟩
    | _ => none
  size := 3

/-- The number of a node. -/
def numberOf (h : Heap ℕ) (p : ℕ) : ℤ := (((h.cells p).map Cell.data).join.getD 0 : ℕ)

/-- The difference of the numbers. -/
def compareNumbers : Compare Unit ℕ := fun env h p q => (numberOf h p - numberOf h q, env)

/-- Three nodes, of which two have equal numbers.

**Proof sketch.** `list_sort` at the comparison of the numbers, which follows their order. -/
theorem list_sort_threeNodes :
    ∃ h' head r env', listSort compareNumbers threeNodes () (some 0) = some (h', head, env') ∧
      Rep h' head r ∧ r.Perm [(0, some 2), (1, some 1), (2, some 1)] ∧
      r.Pairwise (fun a b => decide (a.2.getD 0 ≤ b.2.getD 0) = true) ∧
      [(1, some 1), (2, some 1)].Sublist r := by
  have hr : Rep threeNodes (some 0) [(0, some 2), (1, some 1), (2, some 1)] :=
    ⟨rfl, ⟨rfl, rfl, rfl, trivial⟩, by decide, by decide⟩
  obtain ⟨h', head, r, env', hsort, hrep, hperm, -, -, horder⟩ :=
    list_sort compareNumbers () hr
  have hfollows : Follows compareNumbers threeNodes [(0, some 2), (1, some 1), (2, some 1)]
      (fun a b => decide (a.2.getD 0 ≤ b.2.getD 0)) := by
    intro env h' hdata x hx y hy
    have hnumber : ∀ z ∈ [(0, some 2), (1, some 1), (2, some 1)],
        numberOf h' z.1 = ((z.2.getD 0 : ℕ) : ℤ) := by
      intro z hz
      rw [numberOf, hdata]
      simp only [List.mem_cons, List.not_mem_nil, or_false] at hz
      rcases hz with rfl | rfl | rfl <;> rfl
    simp only [compareNumbers, hnumber x hx, hnumber y hy, decide_eq_true_eq]
    omega
  obtain ⟨hsorted, hstable⟩ := horder _ (by simp; omega) (by simp; omega) hfollows
  exact ⟨h', head, r, env', hsort, hrep, hperm, hsorted, hstable _ _ (by decide) (by simp)⟩

end Taningia
