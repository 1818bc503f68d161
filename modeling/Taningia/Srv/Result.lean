import Taningia.LinkedList.Refine
import Taningia.Srv.Selection

set_option relaxedAutoImplicit false
set_option autoImplicit false

/-!
# The list of SRV targets that is returned

A winner is linked behind `tail` by its forward link only. Its back link is what `ta_list_remove`
leaves: the link to the node that was in front of it among the targets that were left, which is
moved later if at all. So the back link of a node never leads to the node in front of it in the
result, and the result is a list only when there is no such node.

## Main results

* `Taningia.orderStage_ordering` — the nodes that are returned, for draws within their sums.
* `Taningia.srv_result_wellFormed_iff` — when the result is a well-formed list.
-/

namespace Taningia

open Chain

variable {R : Rand} {ts : List SrvTarget}

/-- **The nodes that are returned**, when all draws are within their sums: one for each target,
linked by their forward links.

**Proof sketch.** The targets are sorted (`orderStage_sorted`), and a draw within the sum of the
front part takes a node of it, so the loops move all nodes to the list that is returned. -/
lemma orderStage_ordering
    (hdraws : ∀ i < ts.length, ∀ sum, 0 ≤ sum → 0 ≤ R.randint i sum ∧ R.randint i sum ≤ sum) :
    ∃ st placed, orderStage R ts = some (st.heap, st.out) ∧ Ordering ts st placed [] ∧
      (placed.map Prod.snd).Perm ((List.range ts.length).map some) ∧
      placed.length = ts.length := by
  obtain ⟨h, r, hstage, hr, hdata, hlen, hsorted⟩ := orderStage_sorted R ts
  have hgood : ∀ k < r.length, R.rand (0 + k) ≠ R.max := by
    intro k hk
    rw [Nat.zero_add]
    exact (randint_le_iff R k le_rfl).mp (hdraws k (hlen ▸ hk) 0 le_rfl).2
  obtain ⟨placed, hplaced, -⟩ := (Weighted.order_sorted_iff nodeWeight_nonneg
    (fun i s hs => randint_le_iff R i hs) hsorted hr.length_lt_fuel).mpr hgood
  obtain ⟨st, hrun, ho⟩ := (orderLoop_spec h.fuel (ordering_start hr hdata)).2 placed hplaced
  have hperm := Weighted.order_perm hplaced
  refine ⟨st, placed, ?_, by simpa using ho, (hperm.map Prod.snd).trans hdata,
    hperm.length_eq.trans hlen⟩
  rw [hstage, hrun, Option.map_some]

/-- A node that was moved alone has no links. -/
lemma Ordering.rep_singleton {st : OrderState} {c : ℕ × Option ℕ} (ho : Ordering ts st [c] []) :
    Rep st.heap st.out [c] := by
  obtain ⟨n, ⟨⟨p, hcell⟩, -⟩, hn⟩ := ho.path
  obtain rfl := hn rfl
  have hprev : p = none := by
    cases p with
    | none => rfl
    | some x =>
      have hmem := ho.back.1 x (by rw [hcell]; rfl)
      simp at hmem
  rw [hprev] at hcell
  exact ⟨ho.out, ⟨hcell, trivial⟩, by simp, ho.bound⟩

/-- **Two nodes that were moved** are not linked in both directions.

**Proof sketch.** A chain would start with the same two nodes and link the second one back to
the first. But the `prev` of a node that was moved is none of the nodes moved before it: the
first is not behind itself. -/
lemma Ordering.not_wellFormed {st : OrderState} {x y : ℕ × Option ℕ} {l : List (ℕ × Option ℕ)}
    (ho : Ordering ts st (x :: y :: l) []) {nodes data : List ℕ} :
    ¬ WellFormedChain st.heap st.out nodes data := by
  intro hwf
  obtain ⟨n, ⟨⟨p, hx⟩, -⟩, -⟩ := ho.path
  have hnext : (st.heap.cells x.1).bind Cell.next = some y.1 := by
    rw [hx]
    rfl
  have hnodup := ho.nodup
  rw [List.append_nil, addrs_cons, addrs_cons] at hnodup
  -- the chain starts with the same two nodes
  have hhead : nodes.head? = some x.1 := hwf.head.symm.trans ho.out
  obtain ⟨z, t, rfl⟩ : ∃ z t, nodes = x.1 :: z :: t := by
    cases nodes with
    | nil => cases hhead
    | cons a t =>
      obtain rfl : a = x.1 := Option.some.inj hhead
      cases t with
      | nil =>
        have hlast := hwf.last_next x.1 rfl
        rw [hnext] at hlast
        cases hlast
      | cons z t => exact ⟨z, t, rfl⟩
  have hz := (List.isChain_cons_cons.mp hwf.linked).1
  obtain rfl : z = y.1 := Option.some.inj (hz.symm.trans hnext)
  have hback := (hwf.next_iff_prev x.1 (by simp) y.1 (by simp)).mp hnext
  have hmem := ho.back.2.1 x.1 hback
  rw [List.append_nil] at hmem
  exact (List.nodup_cons.mp hnodup).1 (List.mem_cons_of_mem _ hmem)

/-- **The list of SRV targets** that is returned, for draws that are all within their sums, is a
well-formed list exactly when there is at most one target.

**Proof sketch.** The back link of a moved node leads to a node that was moved later. So the second
node is not linked back to the first one; and a node that is alone has no links. -/
theorem srv_result_wellFormed_iff (R : Rand) (ts : List SrvTarget)
    (hdraws : ∀ i < ts.length, ∀ sum, 0 ≤ sum → 0 ≤ R.randint i sum ∧ R.randint i sum ≤ sum) :
    ∃ h out, orderStage R ts = some (h, out) ∧
      ((∃ nodes data, WellFormedChain h out nodes data) ↔ ts.length ≤ 1) := by
  obtain ⟨st, placed, hrun, ho, hdata, hlen⟩ := orderStage_ordering hdraws
  refine ⟨st.heap, st.out, hrun, ?_⟩
  rw [← hlen]
  match placed, ho, hdata, hlen with
  | [], ho, _, _ =>
    have hrep : Rep st.heap st.out [] := ⟨ho.out, trivial, List.nodup_nil, by simp⟩
    exact iff_of_true ⟨_, [], hrep.wellFormedChain rfl⟩ (by simp)
  | [c], ho, hdata, hlen =>
    rw [← hlen] at hdata
    have hsingle := List.perm_singleton.mp hdata
    exact iff_of_true ⟨_, [0], ho.rep_singleton.wellFormedChain hsingle⟩ (by simp)
  | x :: y :: l, ho, _, _ =>
    refine iff_of_false ?_ (by simp)
    rintro ⟨nodes, data, hwf⟩
    exact ho.not_wellFormed hwf

/-- `rand` returns `0`. -/
def randZero : Rand where
  max := 32767
  rand _ := 0
  max_pos := Nat.succ_pos _
  rand_le _ := Nat.zero_le _

/-- The `rand` that is always zero draws within every sum. -/
lemma draws_randZero (i : ℕ) (sum : ℤ) (hsum : 0 ≤ sum) :
    0 ≤ randZero.randint i sum ∧ randZero.randint i sum ≤ sum := by
  have hzero : randZero.randint i sum = 0 := by simp [Rand.randint, randZero]
  rw [hzero]
  exact ⟨le_rfl, hsum⟩

/-- A domain with one target has a well-formed list. -/
theorem srv_result_one :
    ∃ h out, orderStage randZero [onlyTarget] = some (h, out) ∧
      ((∃ nodes data, WellFormedChain h out nodes data) ↔ [onlyTarget].length ≤ 1) :=
  srv_result_wellFormed_iff randZero [onlyTarget] fun i _ => draws_randZero i

/-- The list of two targets is not well formed. -/
theorem srv_result_two :
    ¬ ∀ (R : Rand) (ts : List SrvTarget),
      (∀ i < ts.length, ∀ sum, 0 ≤ sum → 0 ≤ R.randint i sum ∧ R.randint i sum ≤ sum) →
      ∃ h out nodes data, orderStage R ts = some (h, out) ∧ WellFormedChain h out nodes data := by
  intro h
  have hdraws : ∀ i < twoTargets.length, ∀ sum, 0 ≤ sum →
      0 ≤ randZero.randint i sum ∧ randZero.randint i sum ≤ sum := fun i _ => draws_randZero i
  obtain ⟨heap, out, nodes, data, hrun, hwf⟩ := h randZero twoTargets hdraws
  obtain ⟨st, placed, hrun', ho, -, hlen⟩ := orderStage_ordering hdraws
  obtain ⟨rfl, rfl⟩ := Prod.mk.inj (Option.some.inj (hrun.symm.trans hrun'))
  match placed, ho, hlen with
  | [x, y], ho, _ => exact ho.not_wellFormed hwf

end Taningia
