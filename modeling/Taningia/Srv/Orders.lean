import Taningia.Lib.Outcomes
import Taningia.Srv.Decode
import Taningia.Srv.Selection

set_option relaxedAutoImplicit false
set_option autoImplicit false

/-!
# The orders that targets can come back in

A draw selects the first target that is left, or one with a weight. The sort keeps the targets that
compare as equal in the order of the answer, so two targets of one priority without a weight come
back in that order, whatever is drawn. This is all that is fixed beyond the priorities: any other
order is returned for some random numbers. As a well-formed answer is read record by record, this is
what the whole function does with it.

## Main definitions

* `Taningia.ReturnsOrder` — the targets of the list that is returned.
* `Taningia.MayPrecede` — a target can come back before another one.

## Main results

* `Taningia.orderStage_orders_iff` — the orders that the ordering stage returns for some random
  numbers.
* `Taningia.srv_possible_orders_iff` — those of a whole call, for a well-formed answer.
-/

namespace Taningia

open Chain

/-- The forward links from `out` pass the targets in the order `order`, and end at `NULL`. -/
def ReturnsOrder (h : Heap ℕ) (out : Option ℕ) (order : List ℕ) : Prop :=
  ∃ r : List (ℕ × Option ℕ),
    out = entry none r ∧ Path h.cells r none ∧ r.map Prod.snd = order.map some

variable (ts : List SrvTarget)

/-- The target `t` can come back before `t'`. -/
def MayPrecede (t t' : ℕ) : Prop :=
  priorityOf ts t ≤ priorityOf ts t' ∧
    (priorityOf ts t = priorityOf ts t' → weightOf ts t = 0 → weightOf ts t' = 0 → t < t')

instance : DecidableRel (MayPrecede ts) := fun t t' =>
  inferInstanceAs (Decidable (priorityOf ts t ≤ priorityOf ts t' ∧
    (priorityOf ts t = priorityOf ts t' → weightOf ts t = 0 → weightOf ts t' = 0 → t < t')))

/-- A node is in front of another one when the list is sorted. -/
def NodeBefore (c c' : ℕ × Option ℕ) : Prop :=
  leTargets ts c c' = true ∧ (leTargets ts c' c = true → c.2.getD 0 < c'.2.getD 0)

variable {R : Rand} {ts}

/-! ## The sorted list -/

/-- **The list that is sorted** has the targets that compare as equal in the order of the answer.

**Proof sketch.** The targets are appended one by one and sorted by `ta_list_sort`, whose result
is sorted and stable (`listSort_spec`). -/
lemma orderStage_stable (ts : List SrvTarget) :
    ∃ h r,
      (∀ R, orderStage R ts = (orderLoop R ts h.fuel ⟨h, entry none r, none, none, 0⟩).map
        fun st => (st.heap, st.out)) ∧
      Rep h (entry none r) r ∧ (r.map Prod.snd).Perm ((List.range ts.length).map some) ∧
      r.Pairwise (NodeBefore ts) := by
  have hempty : Rep (Heap.empty ℕ) none [] := ⟨rfl, trivial, List.nodup_nil, by simp⟩
  obtain ⟨h, l, happend, hr, hdata⟩ := appendTargets_spec (List.range ts.length) hempty
  rw [List.nil_append] at happend hr
  have htarget : ∀ c ∈ l, HasTarget ts c := by
    intro c hc
    obtain ⟨d, hd, heq⟩ := List.mem_map.mp (hdata ▸ List.mem_map_of_mem hc)
    exact ⟨d, heq.symm, List.mem_range.mp hd⟩
  have hindex : l.Pairwise fun c c' => c.2.getD 0 < c'.2.getD 0 := by
    have hrange : (l.map fun c => c.2.getD 0) = List.range ts.length := by
      calc (l.map fun c => c.2.getD 0) = (l.map Prod.snd).map fun d => d.getD 0 := by
            rw [List.map_map]
            rfl
        _ = List.range ts.length := by
            rw [hdata, List.map_map]
            exact List.map_id _
    rw [← List.pairwise_map (f := fun c : ℕ × Option ℕ => c.2.getD 0), hrange]
    exact List.pairwise_lt_range
  have hnodup : l.Nodup := hr.nodup.of_map _
  obtain ⟨h', r, env, hsort, hr', hperm, -, horder⟩ := listSort_spec (cmpTargets ts) () hr
  have hle : r = l.mergeSort (leTargets ts) :=
    horder _ l leTargets_trans leTargets_total (cmpTargets_follows hr.seg htarget)
      (BottomUp.sortedRuns_one l).symm
  refine ⟨h', r, fun R => ?_, hr', hdata ▸ hperm.map Prod.snd, ?_⟩
  · rw [orderStage, happend, Option.bind_some]
    dsimp only
    rw [orderTargets, hsort]
    rfl
  · rw [hle]
    exact BottomUp.pairwise_mergeSort_stable leTargets_trans leTargets_total hnodup hindex

/-- Of two nodes one comes before. -/
lemma NodeBefore.asymm {c c' : ℕ × Option ℕ} (h : NodeBefore ts c c') : ¬ NodeBefore ts c' c := by
  intro h'
  have := h.2 h'.1
  have := h'.2 h.1
  omega

/-- A node that comes before another has a smaller priority, or the same one and no greater
weight. -/
lemma NodeBefore.le {c c' : ℕ × Option ℕ} (h : NodeBefore ts c c') :
    nodePriority ts c < nodePriority ts c' ∨
      nodePriority ts c = nodePriority ts c' ∧ nodeWeight ts c ≤ nodeWeight ts c' := by
  simpa [leTargets] using h.1

/-! ## Nodes and targets -/

/-- The nodes for an order of their targets. -/
lemma exists_nodes {r : List (ℕ × Option ℕ)} {n : ℕ} {order : List ℕ}
    (hr : (r.map Prod.snd).Perm ((List.range n).map some)) (horder : order.Perm (List.range n)) :
    ∃ out : List (ℕ × Option ℕ), out.Perm r ∧ out.map Prod.snd = order.map some := by
  have hsame : List.Forall₂ (fun d (c : ℕ × Option ℕ) => d = c.2) (r.map Prod.snd) r := by
    rw [List.forall₂_map_left_iff, List.forall₂_same]
    exact fun _ _ => rfl
  obtain ⟨out, hout, hperm⟩ :=
    List.perm_comp_forall₂ ((horder.map some).trans hr.symm) hsame
  refine ⟨out, hperm, ?_⟩
  rw [← List.forall₂_eq_eq_eq, List.forall₂_map_left_iff]
  exact hout.flip.imp fun _ _ h => h.symm

/-- The condition on the targets is that on their nodes.

**Proof sketch.** The numbers of the targets are what the nodes hold, so the order is a map of
the nodes, and the conditions are the same. -/
lemma pairwise_mayPrecede_iff {out : List (ℕ × Option ℕ)} {order : List ℕ}
    (hout : out.map Prod.snd = order.map some) :
    (out.Pairwise fun c c' => nodePriority ts c ≤ nodePriority ts c' ∧
        (nodePriority ts c = nodePriority ts c' → nodeWeight ts c = 0 → nodeWeight ts c' = 0 →
          NodeBefore ts c c')) ↔
      order.Pairwise (MayPrecede ts) := by
  have horder : order = out.map fun c => c.2.getD 0 := by
    calc order = (order.map some).map fun d => d.getD 0 := by
          rw [List.map_map]
          exact (List.map_id _).symm
      _ = out.map fun c => c.2.getD 0 := by
          rw [← hout, List.map_map]
          rfl
  have hsome : ∀ c ∈ out, ∃ t, c.2 = some t := by
    intro c hc
    obtain ⟨t, -, ht⟩ := List.mem_map.mp (hout ▸ List.mem_map_of_mem hc)
    exact ⟨t, ht.symm⟩
  rw [horder, List.pairwise_map]
  refine List.Pairwise.iff_of_mem fun {c c'} hc hc' => ?_
  obtain ⟨p, _⟩ := c
  obtain ⟨p', _⟩ := c'
  obtain ⟨t, rfl⟩ := hsome _ hc
  obtain ⟨t', rfl⟩ := hsome _ hc'
  simp only [NodeBefore, leTargets, MayPrecede, nodePriority, nodeWeight, Option.map_some,
    Option.getD_some]
  grind

/-- The list that is returned has the nodes that the library orders.

**Proof sketch.** `orderLoop_spec` compares the loop with the order of the library; the path
that is returned has the nodes of that order, and there is one such path. -/
lemma returnsOrder_iff {h : Heap ℕ} {l : List (ℕ × Option ℕ)} (hr : Rep h (entry none l) l)
    (hl : (l.map Prod.snd).Perm ((List.range ts.length).map some)) {order : List ℕ} :
    (∃ h' out, ((orderLoop R ts h.fuel ⟨h, entry none l, none, none, 0⟩).map
        fun st => (st.heap, st.out)) = some (h', out) ∧ ReturnsOrder h' out order) ↔
      ∃ r, Weighted.order (nodeWeight ts) (nodePriority ts) R.randint h.fuel 0 l = some r ∧
        r.map Prod.snd = order.map some := by
  obtain ⟨hnone, hsome⟩ := orderLoop_spec (R := R) h.fuel (ordering_start hr hl)
  constructor
  · rintro ⟨h', out, hrun, r, hout, hpath, hdata⟩
    obtain ⟨st, hst, hx⟩ := Option.map_eq_some_iff.mp hrun
    cases hx
    cases horder : Weighted.order (nodeWeight ts) (nodePriority ts) R.randint h.fuel 0 l with
    | none => cases hst.symm.trans (hnone horder)
    | some r' =>
      obtain ⟨st', hst', ho⟩ := hsome r' horder
      obtain rfl : st' = st := Option.some.inj (hst'.symm.trans hst)
      obtain ⟨n, hpath', hn⟩ := ho.path
      rw [hn rfl, List.nil_append] at hpath'
      obtain rfl := hpath.unique hpath' (hout.symm.trans ho.out)
      exact ⟨r, rfl, hdata⟩
  · rintro ⟨r, horder, hdata⟩
    obtain ⟨st, hst, ho⟩ := hsome r horder
    obtain ⟨n, hpath, hn⟩ := ho.path
    rw [hn rfl, List.nil_append] at hpath
    exact ⟨st.heap, st.out, by rw [hst]; rfl, r, ho.out, hpath, hdata⟩

/-! ## Random numbers -/

/-- The least `rand` that gives the number `d`.

**Proof sketch.** The division rounds down, so the quotient is between two bounds; multiplied
out, they say that the number is drawn. -/
lemma randint_ceil {max : ℕ} {s d : ℤ} (hd : 0 ≤ d) (hle : d ≤ s) (hlt : s < max) :
    0 ≤ (d * max + s) / (s + 1) ∧ (d * max + s) / (s + 1) ≤ max ∧
      ((d * max + s) / (s + 1) * (s + 1)).tdiv max = d := by
  have hmul : d * max ≤ s * max := Int.mul_le_mul_of_nonneg_right hle (by omega)
  have hprod : 0 ≤ d * max := Int.mul_nonneg hd (by omega)
  have hlow := Int.lt_ediv_add_one_mul_self (d * max + s) (show 0 < s + 1 by omega)
  have hhigh := Int.ediv_mul_le (d * max + s) (show s + 1 ≠ 0 by omega)
  have hr := Int.ediv_nonneg (show 0 ≤ d * max + s by omega) (show 0 ≤ s + 1 by omega)
  generalize (d * max + s) / (s + 1) = r at hlow hhigh hr ⊢
  refine ⟨hr, ?_, ?_⟩
  · have hlt : r * (s + 1) < (max + 1) * (s + 1) := by
      calc r * (s + 1) ≤ s * max + s := by omega
        _ < (max + 1) * (s + 1) := by nlinarith
    have := lt_of_mul_lt_mul_right hlt (by omega)
    omega
  · rw [Int.tdiv_eq_ediv_of_nonneg (Int.mul_nonneg hr (by omega))]
    apply le_antisymm
    · rw [← Int.lt_add_one_iff, Int.ediv_lt_iff_lt_mul (by omega), add_mul]
      omega
    · rw [Int.le_ediv_iff_mul_le (by omega)]
      rw [add_mul] at hlow
      omega

/-- **Any numbers within their sums are drawn**, for a `RAND_MAX` that is greater than the sums.

**Proof sketch.** For each number take the `rand` of `randint_ceil`, in the order in which they
are drawn. -/
lemma exists_rand {max : ℕ} (hmax : 0 < max) {ds : List (ℤ × ℤ)}
    (hds : ∀ x ∈ ds, 0 ≤ x.2 ∧ x.2 ≤ x.1 ∧ x.1 < max) :
    ∃ R : Rand, R.max = max ∧ Weighted.Draws R.randint 0 ds := by
  have hceil : ∀ (k : ℕ) (x : ℤ × ℤ), ds[k]? = some x →
      0 ≤ (x.2 * max + x.1) / (x.1 + 1) ∧ (x.2 * max + x.1) / (x.1 + 1) ≤ max ∧
        ((x.2 * max + x.1) / (x.1 + 1) * (x.1 + 1)).tdiv max = x.2 := by
    intro k x hx
    obtain ⟨hd, hle, hlt⟩ := hds x (List.mem_of_getElem? hx)
    exact randint_ceil hd hle hlt
  obtain ⟨draw, hdraw⟩ : ∃ draw : ℤ × ℤ → ℤ, ∀ x, draw x = (x.2 * max + x.1) / (x.1 + 1) :=
    ⟨_, fun _ => rfl⟩
  simp only [← hdraw] at hceil
  refine ⟨⟨max, fun k => (ds[k]?.map fun x => (draw x).toNat).getD 0, hmax, fun k => ?_⟩, rfl, ?_⟩
  · cases hx : ds[k]? with
    | none => exact Nat.zero_le max
    | some x =>
      have := hceil k x hx
      simp only [Option.map_some, Option.getD_some]
      omega
  · rw [Weighted.draws_iff]
    intro k x hx
    obtain ⟨hnonneg, -, hdiv⟩ := hceil k x hx
    rw [Nat.zero_add, Rand.randint]
    simp only [hx, Option.map_some, Option.getD_some, Int.toNat_of_nonneg hnonneg]
    exact hdiv

/-- The weights of the nodes are those of the targets. -/
lemma total_nodeWeight {r : List (ℕ × Option ℕ)} {n : ℕ}
    (hr : (r.map Prod.snd).Perm ((List.range n).map some)) :
    Weighted.total (nodeWeight ts) r = Weighted.total (weightOf ts) (List.range n) := by
  have hperm := (hr.map fun d => (d.map (weightOf ts)).getD 0).sum_eq
  rwa [List.map_map, List.map_map] at hperm

/-- **The orders of the ordering stage**, for random numbers below a `RAND_MAX` that is greater than
the sum of the weights.

**Proof sketch.** The loops are the order of the library on the sorted nodes, and what that can draw
is known there. The draws it takes are within their sums, and some `rand` gives them. -/
lemma orderStage_orders_iff (ts : List SrvTarget) (max : ℕ)
    (hmax : Weighted.total (weightOf ts) (List.range ts.length) < max) (order : List ℕ) :
    (∃ R : Rand, R.max = max ∧ (∀ i < ts.length, R.rand i ≠ max) ∧
        ∃ h out, orderStage R ts = some (h, out) ∧ ReturnsOrder h out order) ↔
      order.Perm (List.range ts.length) ∧ order.Pairwise (MayPrecede ts) := by
  obtain ⟨h, r, hrun, hr, hdata, hbefore⟩ := orderStage_stable ts
  have hlen : r.length = ts.length := by
    have := hdata.length_eq
    rwa [List.length_map, List.length_map, List.length_range] at this
  have hsorted : r.Pairwise fun c c' => nodePriority ts c ≤ nodePriority ts c' :=
    hbefore.imp fun h => le_of_leTargets h.1
  have houtcome := fun out : List (ℕ × Option ℕ) =>
    Weighted.outcome_iff (r := out) nodeWeight_nonneg (fun _ _ => NodeBefore.asymm)
      (fun _ _ => NodeBefore.le) hbefore
  constructor
  · rintro ⟨R, rfl, hR, hret⟩
    rw [hrun] at hret
    obtain ⟨out, horder, hout⟩ := (returnsOrder_iff hr hdata).mp hret
    obtain ⟨hperm, hpairs⟩ := (houtcome out).mp (Weighted.order_outcome nodeWeight_nonneg hsorted
      (fun k hk s hs => (randint_le_iff R _ hs).mpr (hR _ (by omega))) horder)
    refine ⟨?_, (pairwise_mayPrecede_iff hout).mp hpairs⟩
    rw [← List.map_perm_map_iff (Option.some_injective ℕ), ← hout]
    exact (hperm.map Prod.snd).trans hdata
  · rintro ⟨hperm, hpairs⟩
    obtain ⟨out, hperm', hout⟩ := exists_nodes hdata hperm
    obtain ⟨ds, hds, hbounds, hdraws⟩ := Weighted.exists_order_draws nodeWeight_nonneg hsorted
      hr.length_lt_fuel ((houtcome out).mpr ⟨hperm', (pairwise_mayPrecede_iff hout).mpr hpairs⟩)
    rw [total_nodeWeight hdata] at hbounds
    have hnonneg : 0 ≤ Weighted.total (nodeWeight ts) r :=
      Weighted.total_nonneg nodeWeight_nonneg r
    rw [total_nodeWeight hdata] at hnonneg
    have hsums : ∀ x ∈ ds, 0 ≤ x.2 ∧ x.2 ≤ x.1 ∧ x.1 < (max : ℤ) := by
      intro x hx
      have := hbounds x hx
      omega
    obtain ⟨R, rfl, hR⟩ := exists_rand (by omega) hsums
    refine ⟨R, rfl, fun i hi => ?_, ?_⟩
    · have hlt : i < ds.length := by omega
      have hdraw := Weighted.draws_iff.mp hR i _ (List.getElem?_eq_getElem hlt)
      obtain ⟨hpos, hle, -⟩ := hbounds _ (List.getElem_mem hlt)
      rw [Nat.zero_add] at hdraw
      exact (randint_le_iff R i (by omega)).mp (hdraw ▸ hle)
    · rw [hrun]
      exact (returnsOrder_iff hr hdata).mpr ⟨out, hdraws _ _ hR, hout⟩

/-! ## From the answer on -/

/-- The targets of a well-formed answer.

**Proof sketch.** The header has the numbers of questions and records; the loops read these
(`questionLoop_of_questions`, `answerLoop_of_records`). -/
lemma readAnswer_of_message (lib : Resolver) {a : Answer} {answers : List Dns.Record}
    (hmsg : Dns.Message a.bytes answers) :
    a.bytes.length ≠ 0 ∧
      (readAnswer lib a).targets = answers.filterMap (targetOfRecord lib.text) := by
  obtain ⟨hlen, qdcount, ancount, next, hqd, han, hquestions, hcount, hrecords⟩ := hmsg
  have hne : ¬ a.bytes.length = 0 := by omega
  have hqd' : a.short 4 = qdcount := Answer.short_eq 4 hqd
  have han' : a.short 6 = ancount := Answer.short_eq 6 han
  obtain ⟨hp, htargets⟩ := questionLoop_of_questions lib hquestions
    ⟨12, a.buf, [], [] ++ [4, 4 + 1]⟩ rfl
  refine ⟨hne, ?_⟩
  simp only [readAnswer, if_neg hne, headerField, hqd', han', hcount]
  refine (answerLoop_of_records hrecords _ ?_).trans ?_
  · exact hp
  · dsimp only
    rw [htargets, List.nil_append]

/-- **What `ta_srv_query_domain` can return** for a well-formed response: with random numbers below
a `RAND_MAX` that is greater than the sum of the weights, exactly those orders of its service
records that follow the priorities and leave the records of one priority without a weight as they
are in the response. -/
theorem srv_possible_orders_iff (lib : Resolver) (a : Answer) (answers : List Dns.Record)
    (hmsg : Dns.Message a.bytes answers) (ts : List SrvTarget)
    (hts : ts = answers.filterMap (targetOfRecord lib.text)) (max : ℕ)
    (hmax : Weighted.total (weightOf ts) (List.range ts.length) < max) (order : List ℕ) :
    (∃ R : Rand, R.max = max ∧ (∀ i < ts.length, R.rand i ≠ max) ∧
        ∃ h out, srvQueryDomain lib a R = some (h, out) ∧ ReturnsOrder h out order) ↔
      order.Perm (List.range ts.length) ∧ order.Pairwise (MayPrecede ts) := by
  obtain ⟨hne, htargets⟩ := readAnswer_of_message lib hmsg
  have hquery : ∀ R, srvQueryDomain lib a R = orderStage R ts := by
    intro R
    rw [srvQueryDomain, if_neg hne, htargets, hts]
  simp only [hquery]
  exact orderStage_orders_iff ts max hmax order

/-- A response with two service records of one priority, and weights 5 and 10. -/
def twoServices : Answer where
  bytes :=
    [0, 7, 129, 128, 0, 1, 0, 2, 0, 0, 0, 0,
     1, 120, 0, 0, 33, 0, 1,
     192, 12, 0, 33, 0, 1, 0, 0, 14, 16, 0, 8, 0, 10, 0, 5, 20, 149, 192, 12,
     192, 12, 0, 33, 0, 1, 0, 0, 14, 16, 0, 8, 0, 10, 0, 10, 20, 149, 192, 12]
  around _ := 0
  buf := []

/-- The record with a weight. -/
def serviceRecord (weight : UInt16) : Dns.Record := ⟨33, 1, 3600, .srv 10 weight 5269 [[120]]⟩

/-- The answer of the example is a message with two records.

**Proof sketch.** Each record is read at its offset, its name a pointer to the one in the
question. -/
lemma twoServices_message :
    Dns.Message twoServices.bytes [serviceRecord 5, serviceRecord 10] := by
  have hroot : Dns.NameFrom twoServices.bytes 12 14 1 [] := .root rfl
  have hquestion : Dns.NameAt twoServices.bytes 12 3 [[120]] :=
    .label (show twoServices.bytes[12]? = some 1 from rfl) (by decide) (by decide) (by decide) hroot
  have hpointer : ∀ pos, twoServices.bytes[pos]? = some 192 →
      twoServices.bytes[pos + 1]? = some 12 → 12 + 3 ≤ pos →
      Dns.NameAt twoServices.bytes pos 2 [[120]] :=
    fun pos hhi hlo hlt => .pointer hhi (by decide) hlo hlt hquestion
  have hlegal : Dns.Legal [[120]] := by decide
  have hfirst : Dns.RecordAt twoServices.bytes 19 (serviceRecord 5) 39 :=
    ⟨2, [[120]], 8, hpointer 19 rfl rfl (by decide), hlegal, ⟨0, 33, rfl, rfl, rfl⟩,
      ⟨0, 1, rfl, rfl, rfl⟩, ⟨0, 3600, ⟨0, 0, rfl, rfl, rfl⟩, ⟨14, 16, rfl, rfl, rfl⟩, rfl⟩,
      ⟨0, 8, rfl, rfl, rfl⟩, ⟨by decide, ⟨0, 10, rfl, rfl, rfl⟩, ⟨0, 5, rfl, rfl, rfl⟩,
      ⟨20, 149, rfl, rfl, rfl⟩, hlegal, 2, hpointer 37 rfl rfl (by decide), rfl⟩, rfl, by decide⟩
  have hsecond : Dns.RecordAt twoServices.bytes 39 (serviceRecord 10) 59 :=
    ⟨2, [[120]], 8, hpointer 39 rfl rfl (by decide), hlegal, ⟨0, 33, rfl, rfl, rfl⟩,
      ⟨0, 1, rfl, rfl, rfl⟩, ⟨0, 3600, ⟨0, 0, rfl, rfl, rfl⟩, ⟨14, 16, rfl, rfl, rfl⟩, rfl⟩,
      ⟨0, 8, rfl, rfl, rfl⟩, ⟨by decide, ⟨0, 10, rfl, rfl, rfl⟩, ⟨0, 10, rfl, rfl, rfl⟩,
      ⟨20, 149, rfl, rfl, rfl⟩, hlegal, 2, hpointer 57 rfl rfl (by decide), rfl⟩, rfl, by decide⟩
  exact ⟨by decide, 1, 2, 19, ⟨0, 1, rfl, rfl, rfl⟩, ⟨0, 2, rfl, rfl, rfl⟩,
    .cons hquestion hlegal (by decide) .nil, rfl, .cons hfirst (.cons hsecond .nil)⟩

/-- Each of the two records can come first. -/
theorem srv_possible_orders_two :
    (∃ R : Rand, R.max = 2147483647 ∧ (∀ i < 2, R.rand i ≠ 2147483647) ∧
        ∃ h out, srvQueryDomain wireResolver twoServices R = some (h, out) ∧
          ReturnsOrder h out [0, 1]) ∧
      ∃ R : Rand, R.max = 2147483647 ∧ (∀ i < 2, R.rand i ≠ 2147483647) ∧
        ∃ h out, srvQueryDomain wireResolver twoServices R = some (h, out) ∧
          ReturnsOrder h out [1, 0] := by
  have horders := srv_possible_orders_iff wireResolver twoServices _ twoServices_message _ rfl
    2147483647 (by decide)
  exact ⟨(horders [0, 1]).mpr (by decide), (horders [1, 0]).mpr (by decide)⟩

end Taningia
