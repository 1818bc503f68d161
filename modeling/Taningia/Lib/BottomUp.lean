import Mathlib.Data.List.Sort

set_option relaxedAutoImplicit false
set_option autoImplicit false

/-!
# Bottom-up merge sort on lists

One pass of a bottom-up merge sort merges neighbouring runs of a fixed length; the last run, and the
last pair of runs, may be shorter. For a total preorder the passes of lengths `1, 2, 4, …` compute
the stable sort of the library.

## Main definitions

* `BottomUp.mergeRuns` — one pass.
* `BottomUp.sortedRuns` — a list whose runs are sorted, each by itself.

## Main results

* `BottomUp.merge_mergeSort` — merging two stable sorts is the stable sort of both.
* `BottomUp.mergeRuns_sortedRuns` — a pass doubles the length of the sorted runs.
* `BottomUp.pairwise_mergeSort_stable` — what stability keeps.
-/

namespace BottomUp

variable {α : Type*} (le : α → α → Bool)

/-- One pass: neighbouring runs of length `w` are merged. -/
def mergeRuns (w : ℕ) (l : List α) : List α :=
  if 0 < w ∧ l ≠ [] then
    (l.take w).merge ((l.drop w).take w) le ++ mergeRuns w (l.drop (2 * w))
  else l
termination_by l.length
decreasing_by
  have := List.length_pos_iff.mpr (show l ≠ [] by tauto)
  rw [List.length_drop]
  omega

/-- The list with each run of length `w` sorted. -/
def sortedRuns (w : ℕ) (l : List α) : List α :=
  if 0 < w ∧ l ≠ [] then (l.take w).mergeSort le ++ sortedRuns w (l.drop w) else l
termination_by l.length
decreasing_by
  have := List.length_pos_iff.mpr (show l ≠ [] by tauto)
  rw [List.length_drop]
  omega

variable {le} {w : ℕ}

/-- There is nothing to merge. -/
@[simp] lemma mergeRuns_nil : mergeRuns le w [] = [] := by
  unfold mergeRuns
  simp

/-- There is nothing to sort. -/
@[simp] lemma sortedRuns_nil : sortedRuns le w [] = [] := by
  unfold sortedRuns
  simp

/-- A pass merges two runs and goes on behind them. -/
lemma mergeRuns_eq (hw : 0 < w) (l : List α) :
    mergeRuns le w l =
      (l.take w).merge ((l.drop w).take w) le ++ mergeRuns le w (l.drop (2 * w)) := by
  by_cases hl : l = []
  · simp [hl]
  · conv_lhs => rw [mergeRuns, if_pos ⟨hw, hl⟩]

/-- The first run is sorted, and the others. -/
lemma sortedRuns_eq (hw : 0 < w) (l : List α) :
    sortedRuns le w l = (l.take w).mergeSort le ++ sortedRuns le w (l.drop w) := by
  by_cases hl : l = []
  · simp [hl]
  · conv_lhs => rw [sortedRuns, if_pos ⟨hw, hl⟩]

/-- A run of length one is sorted. -/
lemma sortedRuns_one (l : List α) : sortedRuns le 1 l = l := by
  induction l with
  | nil => simp
  | cons a l ih =>
    rw [sortedRuns_eq Nat.one_pos]
    simpa using ih

/-- Sorting the runs moves elements only.

**Proof sketch.** Strong induction on the length: one run at a time. -/
lemma sortedRuns_perm (hw : 0 < w) (l : List α) : (sortedRuns le w l).Perm l := by
  induction hn : l.length using Nat.strong_induction_on generalizing l with
  | _ n ih =>
    by_cases hl : l = []
    · simp [hl]
    have hpos : 0 < l.length := List.length_pos_iff.mpr hl
    have hshorter : (l.drop w).length < n := by
      rw [List.length_drop, ← hn]
      omega
    rw [sortedRuns_eq hw]
    conv_rhs => rw [← List.take_append_drop w l]
    exact (List.mergeSort_perm _ _).append (ih _ hshorter _ rfl)

/-- A list that is one run is sorted as a whole. -/
lemma sortedRuns_of_length_le (hw : 0 < w) {l : List α} (h : l.length ≤ w) :
    sortedRuns le w l = l.mergeSort le := by
  rw [sortedRuns_eq hw, List.take_of_length_le h, List.drop_of_length_le h]
  simp

/-- The first run of a list, which is shorter only when it is the last one. -/
lemma take_drop_run {x y : List α} (hx : x.length ≤ w) (h : x.length = w ∨ y = []) :
    (x ++ y).take w = x ∧ (x ++ y).drop w = y := by
  rcases h with h | rfl
  · exact ⟨List.take_left' h, List.drop_left' h⟩
  · rw [List.append_nil]
    exact ⟨List.take_of_length_le hx, List.drop_of_length_le hx⟩

/-- Ties broken by positions, counted from anywhere, change nothing. -/
lemma map_fst_mergeSort_zipIdx (l : List α) (i : ℕ) :
    ((l.zipIdx i).mergeSort (List.zipIdxLE le)).map Prod.fst = l.mergeSort le := by
  have hshift : ((l.zipIdx).mergeSort (List.zipIdxLE le)).map (fun x => (x.1, i + x.2)) =
      (l.zipIdx i).mergeSort (List.zipIdxLE le) := by
    rw [List.zipIdx_eq_map_add (i := i)]
    apply List.map_mergeSort
    intro x _ y _
    simp [List.zipIdxLE]
  rw [← hshift, List.map_map]
  exact List.mergeSort_zipIdx

section Preorder

variable (trans : ∀ a b c, le a b = true → le b c = true → le a c = true)
  (total : ∀ a b, (le a b || le b a) = true)

include trans total

/-- **Merging two stable sorts** is the stable sort of the two lists put together.

**Proof sketch.** With the positions as tie breakers both sides are sorted by an antisymmetric
relation, so they are equal as permutations of one list; forgetting the positions gives the claim.
-/
lemma merge_mergeSort (a b : List α) :
    (a.mergeSort le).merge (b.mergeSort le) le = (a ++ b).mergeSort le := by
  have hpos : ∀ x y, x ∈ a.zipIdx.mergeSort (List.zipIdxLE le) →
      y ∈ (b.zipIdx a.length).mergeSort (List.zipIdxLE le) → x.2 ≤ y.2 := by
    intro x y hx hy
    rw [List.mem_mergeSort] at hx hy
    have hlow := List.le_snd_of_mem_zipIdx hy
    have hhigh := List.snd_lt_of_mem_zipIdx hx
    omega
  have htrans := List.zipIdxLE_trans trans
  have htotal := List.zipIdxLE_total total
  have heq : (a.zipIdx.mergeSort (List.zipIdxLE le)).merge
      ((b.zipIdx a.length).mergeSort (List.zipIdxLE le)) (List.zipIdxLE le) =
      (a ++ b).zipIdx.mergeSort (List.zipIdxLE le) := by
    have hperm : ((a.zipIdx.mergeSort (List.zipIdxLE le)).merge
        ((b.zipIdx a.length).mergeSort (List.zipIdxLE le)) (List.zipIdxLE le)).Perm
        (a ++ b).zipIdx := by
      rw [List.zipIdx_append, Nat.zero_add]
      exact (List.merge_perm_append _).trans
        ((List.mergeSort_perm _ _).append (List.mergeSort_perm _ _))
    refine List.Perm.eq_of_pairwise ?_
      (List.pairwise_merge htrans htotal _ _ (List.pairwise_mergeSort htrans htotal _)
        (List.pairwise_mergeSort htrans htotal _))
      (List.pairwise_mergeSort htrans htotal _) (hperm.trans (List.mergeSort_perm _ _).symm)
    intro x y hx hy hxy hyx
    have hx' := List.mem_zipIdx_iff_getElem?.mp (hperm.mem_iff.mp hx)
    have hy' := List.mem_zipIdx_iff_getElem?.mp (List.mem_mergeSort.mp hy)
    have hidx : x.2 = y.2 := by
      simp only [List.zipIdxLE, Bool.if_true_right, Bool.if_false_right, Bool.and_eq_true,
        Bool.or_eq_true, Bool.not_eq_true', decide_eq_true_eq] at hxy hyx
      obtain ⟨hxy₁, hxy₂⟩ := hxy
      obtain ⟨hyx₁, hyx₂⟩ := hyx
      have hle : x.2 ≤ y.2 := hxy₂.resolve_left (by simp [hyx₁])
      have hge : y.2 ≤ x.2 := hyx₂.resolve_left (by simp [hxy₁])
      exact le_antisymm hle hge
    rw [hidx, hy'] at hx'
    exact Prod.ext (Option.some.inj hx').symm hidx
  rw [← map_fst_mergeSort_zipIdx a 0, ← map_fst_mergeSort_zipIdx b a.length,
    ← map_fst_mergeSort_zipIdx (a ++ b) 0, ← List.merge_stable _ _ hpos, heq]

/-- **A pass doubles the runs**: merging sorted runs of length `w` gives sorted runs of length
`2 * w`.

**Proof sketch.** Strong induction on the length. With `a` and `b` the first two runs, merging
their sorted versions is the sort of both, which is the first run of twice the length; the rest
is shorter. Where the list ends in the first run or in the second, the missing parts are empty. -/
lemma mergeRuns_sortedRuns (hw : 0 < w) (l : List α) :
    mergeRuns le w (sortedRuns le w l) = sortedRuns le (2 * w) l := by
  induction hn : l.length using Nat.strong_induction_on generalizing l with
  | _ n ih =>
    by_cases hl : l = []
    · simp [hl]
    have hpos : 0 < l.length := List.length_pos_iff.mpr hl
    -- the first two runs and the rest
    obtain ⟨a, ha⟩ : ∃ a, a = l.take w := ⟨_, rfl⟩
    obtain ⟨b, hb⟩ : ∃ b, b = (l.drop w).take w := ⟨_, rfl⟩
    obtain ⟨k, hk⟩ : ∃ k, k = l.drop (2 * w) := ⟨_, rfl⟩
    have hdouble : 2 * w = w + w := by omega
    have htake : l.take (2 * w) = a ++ b := by rw [hdouble, List.take_add, ha, hb]
    have hdrop : (l.drop w).drop w = k := by rw [List.drop_drop, hk, hdouble]
    have hsorted : sortedRuns le w l =
        a.mergeSort le ++ (b.mergeSort le ++ sortedRuns le w k) := by
      rw [sortedRuns_eq hw, sortedRuns_eq hw (l.drop w), hdrop, ← ha, ← hb]
    have halen : a.length ≤ w := by
      rw [ha]
      exact List.length_take_le _ _
    have hblen : b.length ≤ w := by
      rw [hb]
      exact List.length_take_le _ _
    have hlast : b.length = w ∨ k = [] := by
      rw [← List.length_eq_zero_iff, hb, hk]
      simp only [List.length_take, List.length_drop]
      omega
    have hfirst : a.length = w ∨ (b = [] ∧ k = []) := by
      rw [← List.length_eq_zero_iff, ← List.length_eq_zero_iff, ha, hb, hk]
      simp only [List.length_take, List.length_drop]
      omega
    obtain ⟨htake₁, hdrop₁⟩ := take_drop_run (x := a.mergeSort le)
      (y := b.mergeSort le ++ sortedRuns le w k) (by simpa using halen)
      (hfirst.imp (by simp) fun h => by simp [h.1, h.2])
    obtain ⟨htake₂, hdrop₂⟩ := take_drop_run (x := b.mergeSort le)
      (y := sortedRuns le w k) (by simpa using hblen) (hlast.imp (by simp) fun h => by simp [h])
    have hklen : k.length < n := by
      rw [hk, List.length_drop, ← hn]
      omega
    calc
      mergeRuns le w (sortedRuns le w l) =
          (a.mergeSort le).merge (b.mergeSort le) le ++ mergeRuns le w (sortedRuns le w k) := by
        rw [mergeRuns_eq hw, hsorted, htake₁, hdouble, ← List.drop_drop, hdrop₁, htake₂, hdrop₂]
      _ = (a ++ b).mergeSort le ++ sortedRuns le (2 * w) k := by
        rw [merge_mergeSort trans total, ih _ hklen k rfl]
      _ = sortedRuns le (2 * w) l := by
        rw [sortedRuns_eq (by omega) l, htake, ← hk]

end Preorder

/-! ## Stability -/

/-- One of two elements of a list is in front of the other one. -/
lemma pair_sublist_or {l : List α} {a b : α} (ha : a ∈ l) (hb : b ∈ l) (hne : a ≠ b) :
    List.Sublist [a, b] l ∨ List.Sublist [b, a] l := by
  obtain ⟨l₁, l₂, rfl⟩ := List.append_of_mem ha
  rcases List.mem_append.mp hb with hb | hb
  · right
    exact (List.singleton_sublist.mpr hb).append (List.singleton_sublist.mpr List.mem_cons_self)
  · left
    have hb : b ∈ l₂ := List.mem_of_ne_of_mem hne.symm hb
    exact ((List.singleton_sublist.mpr hb).cons_cons a).trans (List.sublist_append_right l₁ _)

/-- Without duplicates there is one order of two elements.

**Proof sketch.** Induction on the list. If both orders were there, the first element of one of
them would come up twice. -/
lemma not_pair_sublist {l : List α} {a b : α} (hn : l.Nodup) (h : List.Sublist [a, b] l) :
    ¬ List.Sublist [b, a] l := by
  induction l with
  | nil => cases h
  | cons c l ih =>
    obtain ⟨hc, hn⟩ := List.nodup_cons.mp hn
    intro h'
    cases h with
    | cons _ h =>
      cases h' with
      | cons _ h' => exact ih hn h h'
      | cons_cons _ _ => exact hc (h.subset (by simp))
    | cons_cons _ h =>
      cases h' with
      | cons _ h' => exact hc (h'.subset (by simp))
      | cons_cons _ _ => exact hc (h.subset (by simp))

/-- **Stability**: the stable sort keeps the order of the elements that compare as equal.

**Proof sketch.** Take two elements in this order after the sort. The first is not greater. In
the list they stand in this order, as claimed, or in the other one; if they compare as equal the
sort would have kept the other one, against `not_pair_sublist`. -/
lemma pairwise_mergeSort_stable (trans : ∀ a b c, le a b → le b c → le a c)
    (total : ∀ a b, le a b || le b a) {before : α → α → Prop} {l : List α} (hn : l.Nodup)
    (hl : l.Pairwise before) :
    (l.mergeSort le).Pairwise fun a b => le a b ∧ (le b a → before a b) := by
  have hperm := List.mergeSort_perm l le
  rw [List.pairwise_iff_forall_sublist]
  intro a b hab
  have hle := List.pairwise_iff_forall_sublist.mp (List.pairwise_mergeSort trans total l) hab
  have hne := List.pairwise_iff_forall_sublist.mp (hperm.nodup_iff.mpr hn) hab
  refine ⟨hle, fun hge => ?_⟩
  -- were they the other way round in the list, they would be so in the sorted one
  rcases pair_sublist_or (hperm.subset (hab.subset (by simp)))
    (hperm.subset (hab.subset (by simp))) hne with h | h
  · exact List.pairwise_iff_forall_sublist.mp hl h
  · exact absurd (List.pair_sublist_mergeSort trans total hge h)
      (not_pair_sublist (hperm.nodup_iff.mpr hn) hab)

end BottomUp
