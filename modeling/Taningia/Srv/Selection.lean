import Taningia.Srv.Order

set_option relaxedAutoImplicit false
set_option autoImplicit false

/-!
# Selection among the targets of one priority

The loop `while (num)` starts with the targets of the least priority in front of the list, in the
order of their weights, and with their sum. A random number up to the sum selects one of them, and
taking it out leaves the rest of them in front, in the same order and with the sum that is left. So
every round of a run is of this kind, whatever was drawn before, and the number of draws that select
a target is its weight.

## Main definitions

* `Taningia.AtRound` — the states, sums and counts that the loops come to.
* `Taningia.Situation` — the targets of one priority in front of the list.

## Main results

* `Taningia.Situation.select` — one selection leads from a situation to the next.
* `Taningia.exists_situation` — every round is in a situation.
* `Taningia.srv_selection_proportional` — how many draws select each target.
-/

namespace Taningia

open Chain

/-- The loops are at the test of `while (num)` with the state, the sum and the count. The random
numbers of each selection are within the sum, and otherwise of any kind. -/
inductive AtRound (ts : List SrvTarget) : OrderState → ℤ → ℕ → Prop where
  | start {h h' : Heap ℕ} {targets targets' : Option ℕ} {env : Unit} :
      appendTargets (Heap.empty ℕ) none (List.range ts.length) = some (h, targets) →
      listSort (cmpTargets ts) h () targets = some (h', targets', env) →
      AtRound ts ⟨h', targets', none, none, 0⟩ 0 0
  | sumUp {st : OrderState} {sum sum' : ℤ} {num' t : ℕ} {target : SrvTarget} :
      AtRound ts st sum 0 → st.targets = some t → targetOf ts st.heap t = some target →
      sumWeights ts st.heap st.targets target.priority = some (sum', num') →
      AtRound ts st sum' num'
  | select {st st' : OrderState} {sum weight : ℤ} {num : ℕ} (R : Rand) :
      AtRound ts st sum (num + 1) → R.randint st.draws sum ≤ sum →
      selectOne R ts sum st = some (weight, st') → AtRound ts st' (sum - weight) num

/-- The targets `group` of one priority are in front of the list, in the order of their weights, and
`sum` and `num` are those of the group; `rest` has greater priorities. -/
structure Situation (ts : List SrvTarget) (st : OrderState) (sum : ℤ) (num : ℕ)
    (group rest : List (ℕ × Option ℕ)) : Prop where
  ordering : ∃ placed, Ordering ts st placed (group ++ rest)
  sorted : (group ++ rest).Pairwise fun c c' => leTargets ts c c' = true
  priority : ∀ c ∈ group, ∀ c' ∈ group, nodePriority ts c = nodePriority ts c'
  others : ∀ c ∈ group, ∀ c' ∈ rest, nodePriority ts c < nodePriority ts c'
  sum_eq : sum = Weighted.total (nodeWeight ts) group
  num_eq : num = group.length

variable {ts : List SrvTarget}

/-- The weights of the group do not decrease. -/
lemma Situation.weights {st : OrderState} {sum : ℤ} {num : ℕ} {group rest : List (ℕ × Option ℕ)}
    (hs : Situation ts st sum num group rest) :
    group.Pairwise fun c c' => nodeWeight ts c ≤ nodeWeight ts c' := by
  have hgroup := (List.pairwise_append.mp hs.sorted).1
  refine hgroup.imp_of_mem fun {c c'} hc hc' hle => ?_
  have := hs.priority c hc c' hc'
  simp only [leTargets, decide_eq_true_eq] at hle
  omega

/-- **Summing up** starts the next priority.

**Proof sketch.** What is left to order is sorted, so the targets of the next priority are its
front part, which is what the loop sums up. -/
lemma Situation.sumUp {st : OrderState} {sum sum' : ℤ} {num' t : ℕ} {target : SrvTarget}
    {rest : List (ℕ × Option ℕ)} (hs : Situation ts st sum 0 [] rest)
    (ht : st.targets = some t) (htarget : targetOf ts st.heap t = some target)
    (hsum : sumWeights ts st.heap st.targets target.priority = some (sum', num')) :
    ∃ group rest', Situation ts st sum' num' group rest' := by
  obtain ⟨placed, ho⟩ := hs.ordering
  rw [List.nil_append] at ho
  cases rest with
  | nil =>
    have hhead := ho.rep.head
    rw [ht] at hhead
    cases hhead
  | cons a l =>
    have hhead := ho.rep.head
    rw [ht, entry_cons] at hhead
    obtain rfl : t = a.1 := Option.some.inj hhead
    obtain ⟨target', hval, hprio, -⟩ := (ho.target a (by simp)).eq
    have hcell : targetOf ts st.heap a.1 = some target' := by
      rw [targetOf, ho.rep.seg.1]
      exact hval
    obtain rfl : target = target' := Option.some.inj (htarget.symm.trans hcell)
    have hsum' := sumWeights_eq ho.rep ho.target hprio
    obtain ⟨rfl, rfl⟩ := Prod.mk.inj (Option.some.inj (hsum.symm.trans hsum'))
    have hsorted := hs.sorted
    rw [List.nil_append] at hsorted
    have hkeys : (a :: l).Pairwise fun c c' => nodePriority ts c ≤ nodePriority ts c' :=
      hsorted.imp le_of_leTargets
    obtain ⟨hfront, hback⟩ := Weighted.sorted_front hkeys
    have hsplit : Weighted.front (nodePriority ts) (a :: l) ++
        l.dropWhile (fun b => nodePriority ts b = nodePriority ts a) = a :: l :=
      Weighted.front_append_dropWhile a l
    refine ⟨_, _, ⟨placed, by rw [hsplit]; exact ho⟩, by rw [hsplit]; exact hsorted, ?_, ?_, rfl,
      rfl⟩
    · intro c hc c' hc'
      rw [hfront c hc, hfront c' hc']
    · intro c hc c' hc'
      rw [hfront c hc]
      exact hback c' hc'

/-- **One selection** with a draw within the sum takes a target out of the group, and leads to the
situation of the group without it.

**Proof sketch.** The draw is within the sum of the group, so it selects from it
(`pick_append_of_le`); the step of the code moves this node, and the group without it has the
sum that is left. -/
lemma Situation.select {st : OrderState} {sum : ℤ} {num : ℕ} {group rest : List (ℕ × Option ℕ)}
    (hs : Situation ts st sum (num + 1) group rest) {r : ℤ} (hr : r ≤ sum) :
    ∃ l₁ c l₂, group = l₁ ++ c :: l₂ ∧
      Weighted.pick (nodeWeight ts) r (group ++ rest) = some (l₁, c, l₂ ++ rest) ∧
      ∀ R : Rand, R.randint st.draws sum = r →
        ∃ st', selectOne R ts sum st = some (nodeWeight ts c, st') ∧
          Situation ts st' (sum - nodeWeight ts c) num (l₁ ++ l₂) rest := by
  obtain ⟨placed, ho⟩ := hs.ordering
  have hlen := hs.num_eq
  have hne : group ≠ [] := by
    rintro rfl
    simp at hlen
  rw [hs.sum_eq] at hr
  obtain ⟨l₁, c, l₂, rfl, hpick⟩ := Weighted.pick_append_of_le hne hr rest
  refine ⟨l₁, c, l₂, rfl, hpick, fun R hR => ?_⟩
  rw [← hR] at hpick
  obtain ⟨st', hone, ho', -⟩ := (selectOne_spec ho sum).2 l₁ c (l₂ ++ rest) hpick
  have hsub : List.Sublist (l₁ ++ l₂) (l₁ ++ c :: l₂) :=
    (List.sublist_cons_self c l₂).append_left l₁
  refine ⟨st', hone, ⟨_, by rwa [List.append_assoc]⟩, hs.sorted.sublist (hsub.append_right rest),
    fun x hx y hy => hs.priority x (hsub.subset hx) y (hsub.subset hy),
    fun x hx y hy => hs.others x (hsub.subset hx) y hy, ?_, ?_⟩
  · rw [hs.sum_eq]
    simp only [Weighted.total_append, Weighted.total_cons]
    omega
  · simp only [List.length_append, List.length_cons] at hlen ⊢
    omega

/-- **Every round is in a situation**: a priority starts in one, and each selection leads to the
next.

**Proof sketch.** Induction on the rounds: sorting leads to the first situation, summing up to
the next priority (`Situation.sumUp`) and a selection to the rest of the group
(`Situation.select`). -/
lemma exists_situation {st : OrderState} {sum : ℤ} {num : ℕ} (h : AtRound ts st sum num) :
    ∃ group rest, Situation ts st sum num group rest := by
  induction h with
  | @start h h' targets targets' env happend hsort =>
    obtain ⟨h₁, targets₁, h₂, r, env', happend', hsort', hr, hdata, hsorted⟩ := sortTargets_spec ts
    obtain ⟨rfl, rfl⟩ := Prod.mk.inj (Option.some.inj (happend'.symm.trans happend))
    obtain ⟨rfl, hx⟩ := Prod.mk.inj (Option.some.inj (hsort'.symm.trans hsort))
    obtain ⟨rfl, -⟩ := Prod.mk.inj hx
    exact ⟨[], r, ⟨[], ordering_start hr hdata⟩, hsorted, by simp, by simp, rfl, rfl⟩
  | sumUp _ ht htarget hsum ih =>
    obtain ⟨group, rest, hs⟩ := ih
    obtain rfl := List.length_eq_zero_iff.mp hs.num_eq.symm
    exact hs.sumUp ht htarget hsum
  | select R _ hdraw hone ih =>
    obtain ⟨group, rest, hs⟩ := ih
    obtain ⟨l₁, c, l₂, -, -, hnext⟩ := hs.select hdraw
    obtain ⟨st'', hone', hs'⟩ := hnext R rfl
    obtain ⟨rfl, rfl⟩ := Prod.mk.inj (Option.some.inj (hone'.symm.trans hone))
    exact ⟨l₁ ++ l₂, rest, hs'⟩

/-- A list of nodes is split at an address in one way. -/
lemma split_unique {l₁ l₂ l₁' l₂' : List (ℕ × Option ℕ)} {c c' : ℕ × Option ℕ}
    (hnodup : (addrs (l₁ ++ c :: l₂)).Nodup) (h : l₁ ++ c :: l₂ = l₁' ++ c' :: l₂')
    (haddr : c.1 = c'.1) : l₁ = l₁' ∧ c = c' ∧ l₂ = l₂' := by
  have hmem : c' ∈ l₁ ++ c :: l₂ := by
    rw [h]
    simp
  obtain rfl := List.inj_on_of_nodup_map hnodup (by simp) hmem haddr
  have hout : c ∉ l₁ ++ l₂ := by
    intro hc
    rw [addrs, (List.perm_middle.map Prod.fst).nodup_iff, List.map_cons, List.nodup_cons] at hnodup
    exact hnodup.1 (List.mem_map_of_mem hc)
  rw [List.mem_append, not_or] at hout
  exact (List.append_cons_inj_of_notMem hout.1 hout.2).mp h

/-- **Any numbers within their sums are drawn** by some `rand`: for a `RAND_MAX` that all the sums,
with one added, divide.

**Proof sketch.** Take the product of the sums, each with one added, as `RAND_MAX`. It is a
multiple of each, so every number of a sum is drawn by a multiple of the quotient. -/
lemma Rand.exists_randint (n : ℕ) (draw sum : ℕ → ℤ) (h : ∀ i < n, 0 ≤ draw i ∧ draw i ≤ sum i) :
    ∃ R : Rand, ∀ i < n, R.randint i (sum i) = draw i := by
  obtain ⟨m, hm⟩ : ∃ m, m = ∏ i ∈ Finset.range n, ((sum i).toNat + 1) := ⟨_, rfl⟩
  have hpos : 0 < m := hm ▸ Finset.prod_pos fun i _ => Nat.succ_pos _
  have hdvd : ∀ i < n, ((sum i).toNat + 1) * (m / ((sum i).toNat + 1)) = m := fun i hi =>
    Nat.mul_div_cancel' (hm ▸ Finset.dvd_prod_of_mem _ (Finset.mem_range.mpr hi))
  refine ⟨⟨m, fun i => if i < n then (draw i).toNat * (m / ((sum i).toNat + 1)) else 0, hpos, ?_⟩,
    ?_⟩
  · intro i
    split
    · rename_i hi
      obtain ⟨hdraw, hle⟩ := h i hi
      calc (draw i).toNat * (m / ((sum i).toNat + 1))
          ≤ ((sum i).toNat + 1) * (m / ((sum i).toNat + 1)) :=
            Nat.mul_le_mul_right _ (by omega)
        _ = m := hdvd i hi
    · exact Nat.zero_le m
  · intro i hi
    obtain ⟨hdraw, hle⟩ := h i hi
    have hsum : sum i + 1 = (((sum i).toNat + 1 : ℕ) : ℤ) := by omega
    have hnum : ((draw i).toNat * (m / ((sum i).toNat + 1)) : ℕ) * (sum i + 1) =
        draw i * (m : ℤ) := by
      rw [hsum, ← Int.natCast_mul, Nat.mul_assoc, Nat.mul_comm (m / _), hdvd i hi,
        Int.natCast_mul, Int.toNat_of_nonneg hdraw]
    rw [Rand.randint]
    simp only [if_pos hi, hnum]
    exact Int.mul_tdiv_cancel _ (by omega)

/-- **SRV selection is proportional to weight.** In every round the remaining targets of a priority
are in front of the list in the order of their weights, with their sum. Each number `r` up to the
sum finds one of them and can be drawn, and then the next round is of the same kind without it. The
numbers that find a target are as many as its weight, and one more for the first one.

**Proof sketch.** The search is the selection of the library on the remaining nodes, and its draws
are counted there. -/
theorem srv_selection_proportional (ts : List SrvTarget) {st : OrderState} {sum : ℤ} {num : ℕ}
    (hround : AtRound ts st sum num) :
    ∃ group rest, Situation ts st sum num group rest ∧
      group.Pairwise (fun c c' => nodeWeight ts c ≤ nodeWeight ts c') ∧
      (∀ l₁ c l₂, group = l₁ ++ c :: l₂ →
        (((Finset.Icc 0 sum).filter fun r =>
          findTarget ts st.heap st.targets r = some (c.1, nodeWeight ts c)).card : ℤ) =
            if l₁ = [] then nodeWeight ts c + 1 else nodeWeight ts c) ∧
      (num ≠ 0 → ∀ r, 0 ≤ r → r ≤ sum → ∃ l₁ c l₂, group = l₁ ++ c :: l₂ ∧
        findTarget ts st.heap st.targets r = some (c.1, nodeWeight ts c) ∧
        (∃ R : Rand, R.randint st.draws sum = r) ∧
        ∀ R : Rand, R.randint st.draws sum = r →
          ∃ st', selectOne R ts sum st = some (nodeWeight ts c, st') ∧
            Situation ts st' (sum - nodeWeight ts c) (num - 1) (l₁ ++ l₂) rest) := by
  obtain ⟨group, rest, hs⟩ := exists_situation hround
  obtain ⟨placed, ho⟩ := hs.ordering
  have hfind := fun r => findTarget_eq ho.rep ho.target r
  refine ⟨group, rest, hs, hs.weights, ?_, ?_⟩
  · rintro l₁ c l₂ rfl
    -- nodes are found by their addresses, which are different
    have hiff : ∀ r, findTarget ts st.heap st.targets r = some (c.1, nodeWeight ts c) ↔
        Weighted.pick (nodeWeight ts) r (l₁ ++ c :: (l₂ ++ rest)) = some (l₁, c, l₂ ++ rest) := by
      intro r
      rw [hfind, List.append_assoc, List.cons_append]
      constructor
      · intro h
        obtain ⟨⟨l₁', c', l₂'⟩, hpick, hx⟩ := Option.map_eq_some_iff.mp h
        have haddr : c'.1 = c.1 := (Prod.mk.inj hx).1
        have hsplit := Weighted.eq_of_pick_eq_some hpick
        have hnodup := ho.rep.nodup
        rw [List.append_assoc, List.cons_append] at hnodup
        obtain ⟨rfl, rfl, rfl⟩ := split_unique hnodup hsplit haddr.symm
        exact hpick
      · intro h
        rw [h]
        rfl
    rw [hs.sum_eq]
    exact Weighted.card_pick nodeWeight_nonneg l₁ l₂ rest c hiff
  · intro hnum r h0 hr
    obtain ⟨num, rfl⟩ := Nat.exists_eq_succ_of_ne_zero hnum
    obtain ⟨l₁, c, l₂, hgroup, hpick, hnext⟩ := hs.select hr
    refine ⟨l₁, c, l₂, hgroup, by rw [hfind, hpick]; rfl, ?_, hnext⟩
    obtain ⟨R, hR⟩ := Rand.exists_randint (st.draws + 1) (fun _ => r) (fun _ => sum)
      fun _ _ => ⟨h0, hr⟩
    exact ⟨R, hR st.draws (Nat.lt_succ_self _)⟩

/-- Two targets of one priority, the heavier one first. -/
def twoTargets : List SrvTarget :=
  [{ onlyTarget with weight := 10, host := "b.example.org".toList }, onlyTarget]

/-- The first round for two targets has the sum of their weights. -/
theorem srv_selection_two :
    ∃ st group rest, Situation twoTargets st 15 2 group rest ∧
      ∀ l₁ c l₂, group = l₁ ++ c :: l₂ →
        (((Finset.Icc 0 15).filter fun r =>
          findTarget twoTargets st.heap st.targets r =
            some (c.1, nodeWeight twoTargets c)).card : ℤ) =
          if l₁ = [] then nodeWeight twoTargets c + 1 else nodeWeight twoTargets c := by
  have hround : AtRound twoTargets _ 15 2 := .sumUp (.start rfl rfl) rfl rfl rfl
  obtain ⟨group, rest, hs, -, hcard, -⟩ := srv_selection_proportional twoTargets hround
  exact ⟨_, group, rest, hs, hcard⟩

end Taningia
