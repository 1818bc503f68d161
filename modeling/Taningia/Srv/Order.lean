import Taningia.Lib.Weighted
import Taningia.Srv.Basic

set_option relaxedAutoImplicit false
set_option autoImplicit false

/-!
# The order of SRV targets

The loops over the nodes compute the selection by running sums of the library, on the list of the
nodes: the list that is left stays a chain, and the nodes that were moved are linked by their
forward links. So the targets come back in the order of their priorities exactly when no random
number goes beyond the sum of the weights, and that is when `rand` does not return `RAND_MAX`.

## Main definitions

* `Taningia.InOrder` — the list that is returned has every target once, in the order of priorities.
* `Taningia.Ordering` — the nodes between two selections.

## Main results

* `Taningia.selectOne_spec`, `Taningia.selectLoop_spec`, `Taningia.orderLoop_spec` — the loops are
  the selections of the library.
* `Taningia.srv_order_iff` — the exact condition for the order.
-/

namespace Taningia

open Chain

variable (R : Rand) (ts : List SrvTarget)

/-- The priority of the target with the address. -/
def priorityOf (t : ℕ) : ℕ := (ts[t]?.map fun target => target.priority.toNat).getD 0

/-- The weight of the target with the address. -/
def weightOf (t : ℕ) : ℤ := (ts[t]?.map fun target => (target.weight.toNat : ℤ)).getD 0

/-- The forward links from `out` pass every target once, with priorities that do not decrease, and
end at `NULL`. -/
def InOrder (h : Heap ℕ) (out : Option ℕ) : Prop :=
  ∃ r : List (ℕ × Option ℕ), out = entry none r ∧ Path h.cells r none ∧
    ∃ order : List ℕ, r.map Prod.snd = order.map some ∧ order.Perm (List.range ts.length) ∧
      order.Pairwise fun t t' => priorityOf ts t ≤ priorityOf ts t'

/-! ## The targets of nodes -/

/-- The priority of the target of a node. -/
def nodePriority (c : ℕ × Option ℕ) : ℕ := (c.2.map (priorityOf ts)).getD 0

/-- The weight of the target of a node. -/
def nodeWeight (c : ℕ × Option ℕ) : ℤ := (c.2.map (weightOf ts)).getD 0

/-- The node has a target. -/
def HasTarget (c : ℕ × Option ℕ) : Prop := ∃ d, c.2 = some d ∧ d < ts.length

variable {R ts}

/-- No weight is negative. -/
lemma nodeWeight_nonneg (c : ℕ × Option ℕ) : 0 ≤ nodeWeight ts c := by
  obtain ⟨p, _ | d⟩ := c
  · exact le_rfl
  · simp only [nodeWeight, weightOf, Option.map_some, Option.getD_some]
    cases ts[d]? <;> simp

/-- The target of a node, with its priority and weight. -/
lemma HasTarget.eq {c : ℕ × Option ℕ} (hc : HasTarget ts c) :
    ∃ target, (c.2.bind fun d => ts[d]?) = some target ∧
      nodePriority ts c = target.priority.toNat ∧ nodeWeight ts c = target.weight.toNat := by
  obtain ⟨p, d⟩ := c
  obtain ⟨d, rfl, hd⟩ := hc
  refine ⟨ts[d], ?_, ?_, ?_⟩ <;>
    simp [nodePriority, nodeWeight, priorityOf, weightOf, List.getElem?_eq_getElem hd]

variable (ts) in
/-- The order of `cmp_targets`. -/
def leTargets (c c' : ℕ × Option ℕ) : Bool :=
  decide (nodePriority ts c < nodePriority ts c' ∨
    (nodePriority ts c = nodePriority ts c' ∧ nodeWeight ts c ≤ nodeWeight ts c'))

/-- The order of the sort is by priority first. -/
lemma le_of_leTargets {c c' : ℕ × Option ℕ} (h : leTargets ts c c' = true) :
    nodePriority ts c ≤ nodePriority ts c' := by
  simp only [leTargets, decide_eq_true_eq] at h
  omega

/-- The order of the sort is transitive. -/
lemma leTargets_trans (a b c : ℕ × Option ℕ) :
    leTargets ts a b → leTargets ts b c → leTargets ts a c := by
  simp only [leTargets, decide_eq_true_eq]
  omega

/-- The order of the sort is total. -/
lemma leTargets_total (a b : ℕ × Option ℕ) : leTargets ts a b || leTargets ts b a := by
  simp only [leTargets, Bool.or_eq_true, decide_eq_true_eq]
  omega

/-- The answers of `cmp_targets` follow the order by priority and weight.

**Proof sketch.** Both nodes have targets, read in any heap with the same data; the answer is
negative, zero or positive as the pairs of priority and weight compare. -/
lemma cmpTargets_follows {h : Heap ℕ} {l : List (ℕ × Option ℕ)} {p n : Option ℕ}
    (hseg : Seg h.cells p l n) (hl : ∀ c ∈ l, HasTarget ts c) :
    Follows (cmpTargets ts) h l (leTargets ts) := by
  intro env h' hdata x hx y hy
  have htarget : ∀ c ∈ l, ∃ target, targetOf ts h' c.1 = some target ∧
      nodePriority ts c = target.priority.toNat ∧ nodeWeight ts c = target.weight.toNat := by
    intro c hc
    obtain ⟨q, r, hcell⟩ := hseg.exists_cell hc
    obtain ⟨target, hval, hprio, hweight⟩ := (hl c hc).eq
    obtain ⟨c', hc', hd⟩ := Option.map_eq_some_iff.mp ((hdata c.1).trans (by rw [hcell]; rfl))
    refine ⟨target, ?_, hprio, hweight⟩
    rw [targetOf, hc', Option.bind_some, hd]
    exact hval
  obtain ⟨ta, hta, hpa, hwa⟩ := htarget x hx
  obtain ⟨tb, htb, hpb, hwb⟩ := htarget y hy
  have heq : ta.priority = tb.priority ↔ ta.priority.toNat = tb.priority.toNat :=
    UInt16.toNat_inj.symm
  simp only [cmpTargets, hta, htb, leTargets, decide_eq_true_eq, hpa, hpb, hwa, hwb]
  by_cases hsame : ta.priority = tb.priority
  · rw [if_pos hsame]
    rw [heq] at hsame
    omega
  · rw [if_neg hsame]
    rw [heq] at hsame
    omega

/-! ## The loops that read -/

/-- The body of the loop that sums up. -/
lemma HasTarget.sumBody_eq {c : ℕ × Option ℕ} (hc : HasTarget ts c) {priority : UInt16}
    (s : ℤ × ℕ) :
    sumBody ts priority s c.1 c.2 =
      if nodePriority ts c = priority.toNat then .ok (s.1 + nodeWeight ts c, s.2 + 1)
      else .error (some s) := by
  obtain ⟨target, hval, hp, hw⟩ := hc.eq
  rw [sumBody, hval, hp, hw]
  by_cases heq : target.priority = priority
  · simp [heq]
  · simp [heq, UInt16.toNat_inj]

/-- **Summing up** stops behind the nodes of the priority.

**Proof sketch.** By induction on the rest of the list, with the sum so far: the loop goes on
over nodes of the priority and stops behind them, so it sums up the front of the list. -/
lemma sumWeights_eq {h : Heap ℕ} {targets : Option ℕ} {a : ℕ × Option ℕ}
    {l : List (ℕ × Option ℕ)} (hr : Rep h targets (a :: l)) (hl : ∀ c ∈ a :: l, HasTarget ts c)
    {priority : UInt16} (hprio : nodePriority ts a = priority.toNat) :
    sumWeights ts h targets priority =
      some (Weighted.total (nodeWeight ts) (Weighted.front (nodePriority ts) (a :: l)),
        (Weighted.front (nodePriority ts) (a :: l)).length) := by
  have hscan : ∀ (t : List (ℕ × Option ℕ)) (s : ℤ × ℕ), (∀ c ∈ t, HasTarget ts c) →
      scan (sumBody ts priority) some t s =
        some (s.1 + Weighted.total (nodeWeight ts)
            (t.takeWhile fun c => nodePriority ts c = nodePriority ts a),
          s.2 + (t.takeWhile fun c => nodePriority ts c = nodePriority ts a).length) := by
    intro t
    induction t with
    | nil =>
      intro s _
      simp [scan]
    | cons c t ih =>
      intro s ht
      rw [scan, (ht c (by simp)).sumBody_eq, ← hprio]
      by_cases heq : nodePriority ts c = nodePriority ts a
      · rw [if_pos heq, List.takeWhile_cons_of_pos (by simpa using heq)]
        dsimp only
        rw [ih _ fun c hc => ht c (List.mem_cons_of_mem _ hc), Weighted.total_cons,
          List.length_cons, Int.add_assoc, Nat.add_assoc, Nat.add_comm 1]
      · rw [if_neg heq, List.takeWhile_cons_of_neg (by simpa using heq)]
        simp
  rw [sumWeights, hr.walk_eq, hscan _ _ hl, Option.join_some, List.takeWhile_cons_of_pos (by simp)]
  simp [Weighted.front]

/-- The body of the loop that searches. -/
lemma HasTarget.findBody_eq {c : ℕ × Option ℕ} (hc : HasTarget ts c) (randint : ℤ) :
    findBody ts randint c.1 c.2 =
      if randint ≤ nodeWeight ts c then .error (some (c.1, nodeWeight ts c))
      else .ok (randint - nodeWeight ts c) := by
  obtain ⟨target, hval, -, hw⟩ := hc.eq
  rw [findBody, hval, hw]

/-- **The search** is a selection by the running sum, which may find nothing.

**Proof sketch.** Induction on the list, with the number arbitrary: a weight that reaches the
number ends the search, any other is taken off the number. -/
lemma findTarget_eq {h : Heap ℕ} {targets : Option ℕ} {l : List (ℕ × Option ℕ)}
    (hr : Rep h targets l) (hl : ∀ c ∈ l, HasTarget ts c) (randint : ℤ) :
    findTarget ts h targets randint =
      (Weighted.pick (nodeWeight ts) randint l).map fun x => (x.2.1.1, nodeWeight ts x.2.1) := by
  rw [findTarget, hr.walk_eq, Option.join_some]
  clear hr
  induction l generalizing randint with
  | nil => rfl
  | cons c l ih =>
    rw [scan, (hl c (by simp)).findBody_eq, Weighted.pick]
    by_cases hle : randint ≤ nodeWeight ts c
    · rw [if_pos hle, if_pos hle]
      rfl
    · rw [if_neg hle, if_neg hle, Option.map_map]
      exact ih (fun c hc => hl c (List.mem_cons_of_mem _ hc)) _

/-! ## The loops that move nodes -/

/-- Moving a node keeps the nodes. -/
lemma perm_moved (placed l₁ l₂ : List (ℕ × Option ℕ)) (c : ℕ × Option ℕ) :
    (placed ++ (l₁ ++ c :: l₂)).Perm (placed ++ [c] ++ (l₁ ++ l₂)) := by
  rw [List.append_assoc]
  exact List.perm_middle.append_left _

/-- The back links of the nodes `placed` lead to nodes behind them, or to `rest`. -/
def BackInto (m : Mem ℕ (Option ℕ)) :
    List (ℕ × Option ℕ) → List (ℕ × Option ℕ) → Prop
  | [], _ => True
  | c :: placed, rest =>
    (∀ x, (m c.1).bind Cell.prev = some x → x ∈ addrs (placed ++ rest)) ∧ BackInto m placed rest

/-- The backward links of what was placed. -/
lemma BackInto.congr {m m' : Mem ℕ (Option ℕ)} {placed rest : List (ℕ × Option ℕ)}
    (h : BackInto m placed rest)
    (hm : ∀ a ∈ addrs placed, (m' a).bind Cell.prev = (m a).bind Cell.prev) :
    BackInto m' placed rest := by
  induction placed with
  | nil => trivial
  | cons c placed ih =>
    refine ⟨?_, ih h.2 fun a ha => hm a (by simp [ha])⟩
    rw [hm c.1 (by simp)]
    exact h.1

/-- A node is moved from `rest`, with the back link that it has there. -/
lemma BackInto.concat {m : Mem ℕ (Option ℕ)} {placed l₁ l₂ : List (ℕ × Option ℕ)}
    {c : ℕ × Option ℕ} (h : BackInto m placed (l₁ ++ c :: l₂))
    (hc : (m c.1).bind Cell.prev = exit none l₁) : BackInto m (placed ++ [c]) (l₁ ++ l₂) := by
  induction placed with
  | nil =>
    refine ⟨fun x hx => ?_, trivial⟩
    have hmem := mem_of_exit_eq_some (hc.symm.trans hx)
    simp [hmem]
  | cons d placed ih =>
    refine ⟨fun x hx => ?_, ih h.2⟩
    exact ((perm_moved placed l₁ l₂ c).map Prod.fst).subset (h.1 x hx)

/-- The nodes between two selections: `rest` is still in the list, and `placed` is linked from `out`
to `tail`. The last link is that of the list, and so `NULL` when nothing is left. The back link of a
node that was moved is the one that it had in the list, and so leads to a node that was moved later,
or is in the list. -/
structure Ordering (ts : List SrvTarget) (st : OrderState) (placed rest : List (ℕ × Option ℕ)) :
    Prop where
  rep : Rep st.heap st.targets rest
  out : st.out = entry none placed
  tail : st.tail = exit none placed
  path : ∃ n, Path st.heap.cells placed n ∧ (rest = [] → n = none)
  back : BackInto st.heap.cells placed rest
  nodup : (addrs (placed ++ rest)).Nodup
  bound : ∀ a ∈ addrs placed, a < st.heap.size
  target : ∀ c ∈ rest, HasTarget ts c
  distinct : (rest.map Prod.snd).Nodup

/-- A node is moved from the list to the end of `out`.

**Proof sketch.** The node is removed by its data, which no other node has, and keeps its links.
It is linked behind the last one placed, or becomes the head of `out`. Its backward link still
points into the list, at a node that is placed or is left. -/
lemma Ordering.move {st : OrderState} {placed l₁ l₂ : List (ℕ × Option ℕ)} {c : ℕ × Option ℕ}
    (ho : Ordering ts st placed (l₁ ++ c :: l₂)) :
    ∃ cell h targets, st.heap.cells c.1 = some cell ∧
      listRemove st.heap st.targets cell.data none = some (h, targets, some c.1) ∧
      ∃ st', (match st.out with
        | none => some (nodeWeight ts c, ⟨h, targets, some c.1, some c.1, st.draws + 1⟩)
        | some out => (h.setNext st.tail (some c.1)).map fun h =>
            (nodeWeight ts c, (⟨h, targets, some out, some c.1, st.draws + 1⟩ : OrderState))) =
          some (nodeWeight ts c, st') ∧
        Ordering ts st' (placed ++ [c]) (l₁ ++ l₂) ∧ st'.draws = st.draws + 1 := by
  obtain ⟨hr, hout, htail, ⟨n, hpath, -⟩, hback, hnodup, hbound, htarget, hdistinct⟩ := ho
  have hcell := hr.seg.cell_at
  have hdata : c.2 ∉ l₁.map Prod.snd := by
    intro hmem
    rw [List.map_append, List.map_cons] at hdistinct
    exact (List.nodup_append.mp hdistinct).2.2 _ hmem _ (by simp) rfl
  obtain ⟨h, hremove, hmoves, hkeep⟩ := listRemove_found hr hdata none
  have hnodup' : (addrs (placed ++ [c] ++ (l₁ ++ l₂))).Nodup :=
    ((perm_moved placed l₁ l₂ c).map Prod.fst).nodup_iff.mp hnodup
  have hsub : List.Sublist (l₁ ++ l₂) (l₁ ++ c :: l₂) :=
    (List.sublist_cons_self c l₂).append_left l₁
  have hc : c.1 < h.size := (hr.bound c.1 (by simp)).trans_le hmoves.grows
  -- the nodes that were moved before are not in the list
  have hplaced : ∀ a ∈ addrs placed, h.cells a = st.heap.cells a := by
    intro a ha
    apply hmoves.frame a (hbound a ha)
    intro hmem
    exact (nodup_addrs_append.mp hnodup).2.2 a ha a hmem rfl
  have hbound' : ∀ a ∈ addrs (placed ++ [c]), a < h.size := by
    intro a ha
    rw [addrs_append, List.mem_append] at ha
    rcases ha with ha | ha
    · exact (hbound a ha).trans_le hmoves.grows
    · simp only [addrs_cons, addrs_nil, List.mem_singleton] at ha
      rwa [ha]
  have hback' : BackInto h.cells placed (l₁ ++ c :: l₂) :=
    hback.congr fun a ha => by rw [hplaced a ha]
  have hprev : (h.cells c.1).bind Cell.prev = exit none l₁ := by
    rw [hkeep, hcell, Option.bind_some]
  have hlast : Path h.cells [c] (entry none l₂) := ⟨⟨_, hkeep.trans hcell⟩, trivial⟩
  have hend : l₁ ++ l₂ = [] → entry none l₂ = none := by
    intro h
    rw [(List.append_eq_nil_iff.mp h).2, entry_nil]
  refine ⟨_, h, _, hcell, hremove, ?_⟩
  rcases List.eq_nil_or_concat' placed with rfl | ⟨placed, b, rfl⟩
  · rw [hout]
    exact ⟨_, rfl, ⟨hmoves.rep, rfl, rfl, ⟨_, hlast, hend⟩, hback'.concat hprev, hnodup',
      hbound', fun x hx => htarget x (hsub.subset hx), hdistinct.sublist (hsub.map _)⟩, rfl⟩
  · have hb : b.1 ∉ addrs placed := not_mem_of_nodup_concat (nodup_addrs_append.mp hnodup).1
    have hb' : b.1 ∉ addrs (l₁ ++ l₂) := by
      intro hmem
      exact (nodup_addrs_append.mp hnodup').2.2 b.1 (by simp) b.1 hmem rfl
    have hbc : b.1 ≠ c.1 :=
      (nodup_addrs_append.mp hnodup).2.2 b.1 (by simp) c.1 (by simp)
    have hpath' : Path h.cells (placed ++ [b]) n := hpath.congr hplaced
    have hsome : (h.cells b.1).isSome = true := by
      obtain ⟨-, ⟨p, hcell⟩, -⟩ := path_append.mp hpath'
      rw [hcell, Option.isSome_some]
    obtain ⟨out, hout'⟩ : ∃ out, entry none (placed ++ [b]) = some out := by
      cases placed with
      | nil => exact ⟨b.1, rfl⟩
      | cons a placed => exact ⟨a.1, rfl⟩
    rw [hout, hout', htail, exit_concat]
    refine ⟨⟨{ h with cells := Chain.setNext h.cells b.1 (some c.1) }, entry none (l₁ ++ l₂),
      some out, some c.1, st.draws + 1⟩, ?_, ⟨?_, ?_, ?_, ?_, ?_, hnodup', hbound',
      fun x hx => htarget x (hsub.subset hx), hdistinct.sublist (hsub.map _)⟩, rfl⟩
    · dsimp only
      rw [setNext_eq hsome, Option.map_some]
    · obtain ⟨hhead, hseg, hnd, hbd⟩ := hmoves.rep
      exact ⟨hhead, hseg.setNext_of_not_mem hb' _, hnd, hbd⟩
    · rw [← hout', entry_append, entry_append, entry_append]
      cases placed <;> rfl
    · rw [exit_concat]
    · refine ⟨entry none l₂, path_append.mpr ⟨hpath'.setNext_concat hb _, ?_⟩, hend⟩
      refine hlast.congr fun a ha => ?_
      obtain rfl : a = c.1 := by simpa using ha
      exact setNext_of_ne _ _ hbc.symm
    · exact (hback'.concat hprev).congr fun a _ => prev_setNext _ _ _ _

/-- **One selection** moves the node that the library selects.

**Proof sketch.** The search is `findTarget_eq`. What it finds splits the list at the node,
which `Ordering.move` moves. -/
lemma selectOne_spec {st : OrderState} {placed rest : List (ℕ × Option ℕ)}
    (ho : Ordering ts st placed rest) (sum : ℤ) :
    (Weighted.pick (nodeWeight ts) (R.randint st.draws sum) rest = none →
      selectOne R ts sum st = none) ∧
    ∀ l₁ c l₂,
      Weighted.pick (nodeWeight ts) (R.randint st.draws sum) rest = some (l₁, c, l₂) →
      ∃ st', selectOne R ts sum st = some (nodeWeight ts c, st') ∧
        Ordering ts st' (placed ++ [c]) (l₁ ++ l₂) ∧ st'.draws = st.draws + 1 := by
  have hfind := findTarget_eq ho.rep ho.target (R.randint st.draws sum)
  constructor
  · intro hpick
    rw [selectOne, hfind, hpick]
    rfl
  · intro l₁ c l₂ hpick
    obtain rfl := Weighted.eq_of_pick_eq_some hpick
    obtain ⟨cell, h, targets, hcell, hremove, st', hlink, ho', hdraws⟩ := ho.move
    refine ⟨st', ?_, ho', hdraws⟩
    rw [selectOne, hfind, hpick]
    simp only [Option.map_some, Option.bind_some, hcell, hremove]
    exact hlink

/-- **The selections of one priority** are those of the library.

**Proof sketch.** Induction on the number of selections: the first is `selectOne_spec`, with the
sum at its start, and the weight of its node is taken off the sum. -/
lemma selectLoop_spec (num : ℕ) {st : OrderState} {placed rest : List (ℕ × Option ℕ)}
    (ho : Ordering ts st placed rest) (sum : ℤ) :
    (Weighted.drawAll (nodeWeight ts) R.randint num st.draws sum rest = none →
      selectLoop R ts num sum st = none) ∧
    ∀ out rest',
      Weighted.drawAll (nodeWeight ts) R.randint num st.draws sum rest = some (out, rest') →
      ∃ st', selectLoop R ts num sum st = some st' ∧ Ordering ts st' (placed ++ out) rest' ∧
        st'.draws = st.draws + num := by
  induction num generalizing st placed rest sum with
  | zero =>
    refine ⟨nofun, fun out rest' h => ?_⟩
    cases h
    exact ⟨st, rfl, by simpa using ho, rfl⟩
  | succ num ih =>
    obtain ⟨hnone, hsome⟩ := selectOne_spec (R := R) ho sum
    rw [Weighted.drawAll, selectLoop]
    cases hpick : Weighted.pick (nodeWeight ts) (R.randint st.draws sum) rest with
    | none =>
      rw [hnone hpick]
      exact ⟨fun _ => rfl, fun out rest' h => by cases h⟩
    | some x =>
      obtain ⟨l₁, c, l₂⟩ := x
      obtain ⟨st', hone, ho', hdraws⟩ := hsome l₁ c l₂ hpick
      obtain ⟨hnone', hsome'⟩ := ih ho' (sum - nodeWeight ts c)
      rw [hdraws] at hnone' hsome'
      rw [hone]
      simp only [Option.bind_some]
      constructor
      · intro h
        exact hnone' (Option.map_eq_none_iff.mp h)
      · intro out rest' h
        obtain ⟨⟨out', rest''⟩, hdraw, hx⟩ := Option.map_eq_some_iff.mp h
        cases hx
        obtain ⟨st'', hrun, ho'', hdraws'⟩ := hsome' out' rest'' hdraw
        exact ⟨st'', hrun, by simpa using ho'', by rw [hdraws']; omega⟩

/-- **The loop over the priorities** is the order of the library.

**Proof sketch.** Induction on the fuel. An empty list ends the loop. Otherwise the priority of
the head is summed up (`sumWeights_eq`), its targets are drawn (`selectLoop_spec`), and the loop
goes on with the rest. -/
lemma orderLoop_spec (fuel : ℕ) {st : OrderState} {placed rest : List (ℕ × Option ℕ)}
    (ho : Ordering ts st placed rest) :
    (Weighted.order (nodeWeight ts) (nodePriority ts) R.randint fuel st.draws rest = none →
      orderLoop R ts fuel st = none) ∧
    ∀ r, Weighted.order (nodeWeight ts) (nodePriority ts) R.randint fuel st.draws rest = some r →
      ∃ st', orderLoop R ts fuel st = some st' ∧ Ordering ts st' (placed ++ r) [] := by
  induction fuel generalizing st placed rest with
  | zero => exact ⟨fun _ => rfl, fun r h => by cases h⟩
  | succ fuel ih =>
    have hhead := ho.rep.head
    cases rest with
    | nil =>
      refine ⟨nofun, fun r h => ?_⟩
      cases h
      rw [entry_nil] at hhead
      exact ⟨st, by rw [orderLoop, hhead], by simpa using ho⟩
    | cons a l =>
      obtain ⟨target, hval, hprio, -⟩ := (ho.target a (by simp)).eq
      have htarget : targetOf ts st.heap a.1 = some target := by
        rw [targetOf, ho.rep.seg.1]
        exact hval
      have hsum := sumWeights_eq ho.rep ho.target hprio
      rw [entry_cons] at hhead
      rw [orderLoop, hhead]
      rw [hhead] at hsum
      simp only [htarget, Option.bind_some, hsum]
      obtain ⟨hnone, hsome⟩ := selectLoop_spec (R := R)
        (Weighted.front (nodePriority ts) (a :: l)).length ho
        (Weighted.total (nodeWeight ts) (Weighted.front (nodePriority ts) (a :: l)))
      rw [Weighted.order]
      cases hdraw : Weighted.drawAll (nodeWeight ts) R.randint
          (Weighted.front (nodePriority ts) (a :: l)).length st.draws
          (Weighted.total (nodeWeight ts) (Weighted.front (nodePriority ts) (a :: l)))
          (a :: l) with
      | none =>
        rw [hnone hdraw]
        exact ⟨fun _ => rfl, fun r h => by cases h⟩
      | some x =>
        obtain ⟨out, rest'⟩ := x
        obtain ⟨st', hrun, ho', hdraws⟩ := hsome out rest' hdraw
        obtain ⟨hnone', hsome'⟩ := ih ho'
        rw [hdraws] at hnone' hsome'
        rw [hrun]
        simp only [Option.bind_some]
        constructor
        · intro h
          exact hnone' (Option.map_eq_none_iff.mp h)
        · intro r h
          obtain ⟨r', horder, rfl⟩ := Option.map_eq_some_iff.mp h
          obtain ⟨st'', hrun', ho''⟩ := hsome' r' horder
          exact ⟨st'', hrun', by simpa using ho''⟩

/-! ## From the answer to the list -/

/-- The targets are appended in the order of the answer. -/
lemma appendTargets_spec (ds : List ℕ) {h : Heap ℕ} {targets : Option ℕ}
    {l : List (ℕ × Option ℕ)} (hr : Rep h targets l) :
    ∃ h' l', appendTargets h targets ds = some (h', entry none (l ++ l')) ∧
      Rep h' (entry none (l ++ l')) (l ++ l') ∧ l'.map Prod.snd = ds.map some := by
  induction ds generalizing h targets l with
  | nil => exact ⟨h, [], by simp [appendTargets, hr.head], by simpa [hr.head] using hr, rfl⟩
  | cons d ds ih =>
    obtain ⟨h₁, happend, hmoves⟩ := listAppend_spec hr d
    obtain ⟨h₂, l', hrest, hr', hdata⟩ := ih hmoves.rep
    rw [List.append_assoc, List.singleton_append] at hrest hr'
    refine ⟨h₂, (h.size, some d) :: l', ?_, hr', by simp [hdata]⟩
    rw [appendTargets, happend, Option.bind_some]
    exact hrest

/-- A random number stays within the sum unless `rand` returns `RAND_MAX`.

**Proof sketch.** The product is divided by `RAND_MAX`; the quotient is at most the sum when the
product is below the sum and one times `RAND_MAX`, which fails at `RAND_MAX` only. -/
lemma randint_le_iff (R : Rand) (i : ℕ) {sum : ℤ} (hsum : 0 ≤ sum) :
    R.randint i sum ≤ sum ↔ R.rand i ≠ R.max := by
  have hmax : (0 : ℤ) < R.max := by exact_mod_cast R.max_pos
  have hle : (R.rand i : ℤ) ≤ R.max := by exact_mod_cast R.rand_le i
  have hnum : 0 ≤ (R.rand i : ℤ) * (sum + 1) := by positivity
  rw [Rand.randint, Int.tdiv_eq_ediv_of_nonneg hnum, ← Int.lt_add_one_iff,
    Int.ediv_lt_iff_lt_mul hmax, Int.mul_comm (sum + 1)]
  constructor
  · rintro hlt heq
    rw [heq] at hlt
    omega
  · intro hne
    have hlt : (R.rand i : ℤ) < R.max := lt_of_le_of_ne hle (by exact_mod_cast hne)
    exact Int.mul_lt_mul_of_pos_right hlt (by omega)

/-- Nodes with the given targets are sorted when the targets are. -/
lemma pairwise_nodePriority_iff {r : List (ℕ × Option ℕ)} {order : List ℕ}
    (hr : r.map Prod.snd = order.map some) :
    (r.Pairwise fun c c' => nodePriority ts c ≤ nodePriority ts c') ↔
      order.Pairwise fun t t' => priorityOf ts t ≤ priorityOf ts t' := by
  calc (r.Pairwise fun c c' => nodePriority ts c ≤ nodePriority ts c')
      ↔ (r.map Prod.snd).Pairwise fun d d' =>
          (d.map (priorityOf ts)).getD 0 ≤ (d'.map (priorityOf ts)).getD 0 := by
        rw [List.pairwise_map]
        rfl
    _ ↔ order.Pairwise fun t t' => priorityOf ts t ≤ priorityOf ts t' := by
        rw [hr, List.pairwise_map]
        rfl

/-- The sorted list, before the first selection. -/
lemma ordering_start {h : Heap ℕ} {l : List (ℕ × Option ℕ)} (hr : Rep h (entry none l) l)
    (hl : (l.map Prod.snd).Perm ((List.range ts.length).map some)) :
    Ordering ts ⟨h, entry none l, none, none, 0⟩ [] l := by
  have hdistinct : (l.map Prod.snd).Nodup :=
    hl.nodup_iff.mpr (List.nodup_range.map (Option.some_injective ℕ))
  have htarget : ∀ c ∈ l, HasTarget ts c := by
    intro c hc
    obtain ⟨d, hd, heq⟩ := List.mem_map.mp (hl.mem_iff.mp (List.mem_map_of_mem hc))
    exact ⟨d, heq.symm, List.mem_range.mp hd⟩
  exact ⟨hr, rfl, rfl, ⟨none, trivial, fun _ => rfl⟩, trivial, hr.nodup, by simp, htarget,
    hdistinct⟩

/-- **The list that is returned** is in order exactly when the order of the library is sorted.

**Proof sketch.** Behind the last selection the nodes are a path from `out` to `NULL`. A path is
unique, so the nodes that are returned are those that the library orders. -/
lemma inOrder_iff {h : Heap ℕ} {l : List (ℕ × Option ℕ)} (hr : Rep h (entry none l) l)
    (hl : (l.map Prod.snd).Perm ((List.range ts.length).map some)) :
    (∃ h' out, ((orderLoop R ts h.fuel ⟨h, entry none l, none, none, 0⟩).map
        fun st => (st.heap, st.out)) = some (h', out) ∧ InOrder ts h' out) ↔
      ∃ r, Weighted.order (nodeWeight ts) (nodePriority ts) R.randint h.fuel 0 l = some r ∧
        r.Pairwise fun c c' => nodePriority ts c ≤ nodePriority ts c' := by
  have hstart := ordering_start hr hl
  obtain ⟨hnone, hsome⟩ := orderLoop_spec (R := R) h.fuel hstart
  constructor
  · rintro ⟨h', out, hrun, r, hout, hpath, order, hdata, -, hsorted⟩
    obtain ⟨st, hst, hx⟩ := Option.map_eq_some_iff.mp hrun
    cases hx
    cases horder : Weighted.order (nodeWeight ts) (nodePriority ts) R.randint h.fuel 0 l with
    | none => cases hst.symm.trans (hnone horder)
    | some r' =>
      obtain ⟨st', hst', ho⟩ := hsome r' horder
      obtain rfl : st' = st := Option.some.inj (hst'.symm.trans hst)
      obtain ⟨n, hpath', hn⟩ := ho.path
      rw [hn rfl, List.nil_append] at hpath'
      have hentry : entry none r = entry none r' := hout.symm.trans ho.out
      obtain rfl := hpath.unique hpath' hentry
      exact ⟨r, rfl, (pairwise_nodePriority_iff hdata).mpr hsorted⟩
  · rintro ⟨r, horder, hsorted⟩
    obtain ⟨st, hst, ho⟩ := hsome r horder
    obtain ⟨n, hpath, hn⟩ := ho.path
    rw [hn rfl, List.nil_append] at hpath
    have hperm : (r.map Prod.snd).Perm ((List.range ts.length).map some) :=
      ((Weighted.order_perm horder).map Prod.snd).trans hl
    have hdata : r.map Prod.snd = ((r.map Prod.snd).map fun d => d.getD 0).map some := by
      have hsomes : ∀ d ∈ r.map Prod.snd, some (d.getD 0) = d := by
        intro d hd
        obtain ⟨t, -, rfl⟩ := List.mem_map.mp (hperm.mem_iff.mp hd)
        rfl
      rw [List.map_map]
      exact ((List.map_congr_left hsomes).trans (List.map_id _)).symm
    refine ⟨st.heap, st.out, by rw [hst]; rfl, r, ho.out, hpath, _, hdata, ?_,
      (pairwise_nodePriority_iff hdata).mp hsorted⟩
    simpa [Function.comp_def] using hperm.map fun d => d.getD 0

/-- **The list that is sorted** has every target once, in the order of `cmp_targets`.

**Proof sketch.** The list has the targets in their order (`appendTargets_spec`). `ta_list_sort`
permutes and sorts it, as `cmp_targets` follows a total order. -/
lemma sortTargets_spec (ts : List SrvTarget) :
    ∃ h targets h' r env,
      appendTargets (Heap.empty ℕ) none (List.range ts.length) = some (h, targets) ∧
        listSort (cmpTargets ts) h () targets = some (h', entry none r, env) ∧
        Rep h' (entry none r) r ∧ (r.map Prod.snd).Perm ((List.range ts.length).map some) ∧
        r.Pairwise fun c c' => leTargets ts c c' = true := by
  have hempty : Rep (Heap.empty ℕ) none [] := ⟨rfl, trivial, List.nodup_nil, by simp⟩
  obtain ⟨h, l, happend, hr, hdata⟩ := appendTargets_spec (List.range ts.length) hempty
  rw [List.nil_append] at happend hr
  have htarget : ∀ c ∈ l, HasTarget ts c := by
    intro c hc
    obtain ⟨d, hd, heq⟩ := List.mem_map.mp (hdata ▸ List.mem_map_of_mem hc)
    exact ⟨d, heq.symm, List.mem_range.mp hd⟩
  obtain ⟨h', r, env, hsort, hr', hperm, -, horder⟩ := listSort_spec (cmpTargets ts) () hr
  have hle : r = l.mergeSort (leTargets ts) :=
    horder _ l leTargets_trans leTargets_total (cmpTargets_follows hr.seg htarget)
      (BottomUp.sortedRuns_one l).symm
  refine ⟨h, _, h', r, env, happend, hsort, hr', hdata ▸ hperm.map Prod.snd, ?_⟩
  rw [hle]
  exact List.pairwise_mergeSort leTargets_trans leTargets_total l

/-- The loops start from the sorted nodes, one for each target. -/
lemma orderStage_sorted (R : Rand) (ts : List SrvTarget) :
    ∃ h r, orderStage R ts = (orderLoop R ts h.fuel ⟨h, entry none r, none, none, 0⟩).map
        (fun st => (st.heap, st.out)) ∧
      Rep h (entry none r) r ∧ (r.map Prod.snd).Perm ((List.range ts.length).map some) ∧
      r.length = ts.length ∧ r.Pairwise fun c c' => nodePriority ts c ≤ nodePriority ts c' := by
  obtain ⟨h, targets, h', r, env, happend, hsort, hr, hdata, horder⟩ := sortTargets_spec ts
  refine ⟨h', r, ?_, hr, hdata, ?_, horder.imp le_of_leTargets⟩
  · rw [orderStage, happend, Option.bind_some]
    dsimp only
    rw [orderTargets, hsort]
    rfl
  · have := hdata.length_eq
    rwa [List.length_map, List.length_map, List.length_range] at this

/-- **SRV ordering.** For any targets and any random numbers, the ordering stage returns every
target once in the order of priorities exactly when none of the calls of `rand`, one for each
target, returns `RAND_MAX`.

**Proof sketch.** The sort leaves the nodes in the order of their priorities. From there the loops
are the order of the library, which is sorted exactly when no random number exceeds the sum it is
drawn for. -/
theorem srv_order_iff (R : Rand) (ts : List SrvTarget) :
    (∃ h out, orderStage R ts = some (h, out) ∧ InOrder ts h out) ↔
      ∀ i < ts.length, R.rand i ≠ R.max := by
  obtain ⟨h, r, hrun, hr, hdata, hlen, hsorted⟩ := orderStage_sorted R ts
  have hgood : ∀ i s, 0 ≤ s → (R.randint i s ≤ s ↔ R.rand i ≠ R.max) :=
    fun i s hs => randint_le_iff R i hs
  rw [hrun, inOrder_iff hr hdata,
    Weighted.order_sorted_iff nodeWeight_nonneg hgood hsorted hr.length_lt_fuel, hlen]
  simp only [Nat.zero_add]

/-- `rand` returns `RAND_MAX`. -/
def randMax : Rand where
  max := 2147483647
  rand _ := 2147483647
  max_pos := Nat.succ_pos _
  rand_le _ := Nat.le_refl _

/-- The only target of its domain. -/
def onlyTarget : SrvTarget where
  ttl := 3600
  _class := 1
  priority := 10
  weight := 5
  port := 5269
  host := "xmpp.example.org".toList

/-- For one target and `RAND_MAX` the search goes beyond the end of the list. -/
theorem srv_order_randMax :
    ¬ ∀ R ts, ∃ h out, orderStage R ts = some (h, out) ∧ InOrder ts h out := by
  intro horder
  obtain ⟨h, out, hrun, -⟩ := horder randMax [onlyTarget]
  have hfails : orderStage randMax [onlyTarget] = none := by rfl
  rw [hfails] at hrun
  cases hrun

end Taningia
