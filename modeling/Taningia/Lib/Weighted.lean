import Mathlib

set_option relaxedAutoImplicit false
set_option autoImplicit false

/-!
# Selection by running sums

The elements of a list have weights. A draw `r` selects the first element at which the sum of the
weights from the start of the list reaches `r`; the element is taken out, and the next draw works on
the rest. A list that is sorted by a key is drawn from key by key, as many times as elements have
the key. Whether the draws keep to the key depends on how far they go: the weights left for the key
are the limit.

## Main definitions

* `Weighted.pick` — one selection.
* `Weighted.drawAll` — as many selections as asked for, one after the other.
* `Weighted.order` — the whole list, key by key.

## Main results

* `Weighted.pick_append_of_le`, `Weighted.pick_append_of_lt` — a draw up to the sum of a front part
  stays in it, and a greater one passes it.
* `Weighted.card_pick` — how many draws select an element.
* `Weighted.order_perm` — what is drawn is the list, in some order.
* `Weighted.order_sorted_iff` — the order is sorted by the key exactly when no draw goes too far.
-/

namespace Weighted

variable {α : Type*} (weight : α → ℤ) (key : α → ℕ) (draw : ℕ → ℤ → ℤ)

/-- The sum of the weights. -/
def total (l : List α) : ℤ := (l.map weight).sum

/-- The first element at which the running sum reaches `r`, with what is in front of it and behind
it. -/
def pick : ℤ → List α → Option (List α × α × List α)
  | _, [] => none
  | r, a :: l =>
    if r ≤ weight a then some ([], a, l)
    else (pick (r - weight a) l).map fun x => (a :: x.1, x.2)

/-- The selections for the draws from the `i`-th on, each for the sum that is left: what they
select, and what stays. -/
def drawAll : ℕ → ℕ → ℤ → List α → Option (List α × List α)
  | 0, _, _, l => some ([], l)
  | num + 1, i, sum, l =>
    (pick weight (draw i sum) l).bind fun x =>
      (drawAll num (i + 1) (sum - weight x.2.1) (x.1 ++ x.2.2)).map fun y => (x.2.1 :: y.1, y.2)

/-- The elements in front that have the key of the first one. -/
def front : List α → List α
  | [] => []
  | a :: l => a :: l.takeWhile fun b => key b = key a

/-- The selections from the whole list, for one key after the other. -/
def order : ℕ → ℕ → List α → Option (List α)
  | 0, _, _ => none
  | _ + 1, _, [] => some []
  | fuel + 1, i, a :: l =>
    let g := front key (a :: l)
    (drawAll weight draw g.length i (total weight g) (a :: l)).bind fun x =>
      (order fuel (i + g.length) x.2).map fun r => x.1 ++ r

variable {weight key draw}

/-- No elements weigh nothing. -/
@[simp] lemma total_nil : total weight [] = 0 := rfl

/-- The weight of a list is that of its first element and the rest. -/
@[simp] lemma total_cons (a : α) (l : List α) :
    total weight (a :: l) = weight a + total weight l := by
  simp [total]

/-- The weight of two lists. -/
@[simp] lemma total_append (l₁ l₂ : List α) :
    total weight (l₁ ++ l₂) = total weight l₁ + total weight l₂ := by
  simp [total]

/-- The weight of a list is not negative. -/
lemma total_nonneg (hw : ∀ a, 0 ≤ weight a) (l : List α) : 0 ≤ total weight l :=
  List.sum_nonneg (by simpa using fun a _ => hw a)

/-! ## One selection -/

/-- A selection is a place in the list.

**Proof sketch.** Induction on the list: the first element is taken, or the place is in the
rest. -/
lemma eq_of_pick_eq_some {r : ℤ} {l l₁ l₂ : List α} {a : α}
    (h : pick weight r l = some (l₁, a, l₂)) : l = l₁ ++ a :: l₂ := by
  induction l generalizing r l₁ with
  | nil => cases h
  | cons b l ih =>
    rw [pick] at h
    split_ifs at h with hle
    · cases h
      rfl
    · obtain ⟨⟨l₁', x⟩, hpick, hx⟩ := Option.map_eq_some_iff.mp h
      cases hx
      rw [ih hpick]
      rfl

/-- **A draw up to the sum of the front part** selects from it.

**Proof sketch.** Induction on the front part. The draw is up to the weight of the first
element, which is taken, or it is beyond and what is left of it is up to the sum of the others. -/
lemma pick_append_of_le {r : ℤ} {g : List α} (hg : g ≠ []) (hr : r ≤ total weight g)
    (rest : List α) :
    ∃ l₁ a l₂, g = l₁ ++ a :: l₂ ∧ pick weight r (g ++ rest) = some (l₁, a, l₂ ++ rest) := by
  induction g generalizing r with
  | nil => exact absurd rfl hg
  | cons b g ih =>
    rw [List.cons_append, pick]
    by_cases hle : r ≤ weight b
    · exact ⟨[], b, g, rfl, by rw [if_pos hle]⟩
    · rw [if_neg hle]
      rw [total_cons] at hr
      have hne : g ≠ [] := by
        rintro rfl
        rw [total_nil] at hr
        omega
      obtain ⟨l₁, a, l₂, rfl, hpick⟩ := ih hne (show r - weight b ≤ total weight g by omega)
      exact ⟨b :: l₁, a, l₂, rfl, by rw [hpick]; rfl⟩

/-- **A draw beyond the sum of the front part** passes all of it.

**Proof sketch.** Induction on the front part: the draw is beyond the first element, as the
others do not weigh less than nothing, and what is left of it is beyond their sum. -/
lemma pick_append_of_lt (hw : ∀ a, 0 ≤ weight a) {r : ℤ} {g : List α} (hr : total weight g < r)
    (rest : List α) :
    pick weight r (g ++ rest) =
      (pick weight (r - total weight g) rest).map fun x => (g ++ x.1, x.2) := by
  induction g generalizing r with
  | nil => simp
  | cons b g ih =>
    rw [total_cons] at hr
    have hnonneg := total_nonneg hw g
    rw [List.cons_append, pick, if_neg (by omega),
      ih (show total weight g < r - weight b by omega), Option.map_map, total_cons,
      show r - weight b - total weight g = r - (weight b + total weight g) by omega]
    rfl

/-- **The draws that select an element** are those between the sum of what is in front of it and the
sum that includes it.

**Proof sketch.** Induction on what is in front. The draw passes the first element when it is
beyond its weight; then the bounds are those for the rest, moved by this weight. A draw that
does not pass selects another place. -/
lemma pick_append_cons_iff (hw : ∀ a, 0 ≤ weight a) {r : ℤ} {l₁ l₂ : List α} {a : α} :
    pick weight r (l₁ ++ a :: l₂) = some (l₁, a, l₂) ↔
      (l₁ ≠ [] → total weight l₁ < r) ∧ r ≤ total weight l₁ + weight a := by
  induction l₁ generalizing r with
  | nil =>
    rw [List.nil_append, pick]
    by_cases hle : r ≤ weight a
    · simp [hle]
    · simp [hle, Option.map_eq_some_iff]
  | cons b l₁ ih =>
    have hnonneg := total_nonneg hw l₁
    rw [List.cons_append, pick, total_cons]
    by_cases hle : r ≤ weight b
    · have hback : ¬ weight b + total weight l₁ < r := by omega
      simp [hle, hback]
    · have hstep : (pick weight (r - weight b) (l₁ ++ a :: l₂)).map (fun x => (b :: x.1, x.2)) =
          some (b :: l₁, a, l₂) ↔
            pick weight (r - weight b) (l₁ ++ a :: l₂) = some (l₁, a, l₂) := by
        cases pick weight (r - weight b) (l₁ ++ a :: l₂) with
        | none => simp
        | some x =>
          obtain ⟨x₁, x₂, x₃⟩ := x
          simp
      rw [if_neg hle, hstep, ih]
      rcases eq_or_ne l₁ [] with rfl | hne
      · simp only [total_nil, ne_eq, not_true_eq_false, false_imp_iff, true_and, reduceCtorEq,
          not_false_eq_true, true_imp_iff]
        omega
      · simp only [ne_eq, hne, not_false_eq_true, true_imp_iff, reduceCtorEq]
        omega

/-- **Selection is proportional to weight**: of the draws up to the sum as many select an element as
its weight says, and one more the first element.

**Proof sketch.** The draws are those of `pick_append_cons_iff`, an interval: from zero for the
first element and from one above the sum of what is in front for the others. An interval is
counted by its ends. -/
lemma card_pick (hw : ∀ a, 0 ≤ weight a) (l₁ l₂ rest : List α) (a : α) {p : ℤ → Prop}
    [DecidablePred p]
    (hp : ∀ r, p r ↔ pick weight r (l₁ ++ a :: (l₂ ++ rest)) = some (l₁, a, l₂ ++ rest)) :
    (((Finset.Icc 0 (total weight (l₁ ++ a :: l₂))).filter p).card : ℤ) =
      if l₁ = [] then weight a + 1 else weight a := by
  have hfront := total_nonneg hw l₁
  have hback := total_nonneg hw l₂
  have ha := hw a
  rw [total_append, total_cons]
  rcases eq_or_ne l₁ [] with rfl | hne
  · have hset : ((Finset.Icc 0 (total weight [] + (weight a + total weight l₂))).filter p) =
        Finset.Icc 0 (weight a) := by
      ext r
      rw [Finset.mem_filter, hp, pick_append_cons_iff hw, Finset.mem_Icc, Finset.mem_Icc, total_nil]
      simp only [ne_eq, not_true_eq_false, false_imp_iff, true_and]
      omega
    rw [hset, Int.card_Icc, if_pos rfl]
    omega
  · have hset : ((Finset.Icc 0 (total weight l₁ + (weight a + total weight l₂))).filter p) =
        Finset.Ioc (total weight l₁) (total weight l₁ + weight a) := by
      ext r
      rw [Finset.mem_filter, hp, pick_append_cons_iff hw, Finset.mem_Icc, Finset.mem_Ioc]
      simp only [ne_eq, hne, not_false_eq_true, true_imp_iff]
      omega
    rw [hset, Int.card_Ioc, if_neg hne]
    omega

/-! ## Selections one after the other -/

/-- What was drawn and what is left are the list.

**Proof sketch.** Induction on the number of draws: each takes one element out
(`eq_of_pick_eq_some`). -/
lemma drawAll_perm {num i : ℕ} {sum : ℤ} {l out rest : List α}
    (h : drawAll weight draw num i sum l = some (out, rest)) : (out ++ rest).Perm l := by
  induction num generalizing i sum l out with
  | zero =>
    cases h
    exact List.Perm.refl _
  | succ num ih =>
    rw [drawAll] at h
    obtain ⟨⟨l₁, a, l₂⟩, hpick, h⟩ := Option.bind_eq_some_iff.mp h
    obtain ⟨⟨out', rest'⟩, hdraw, hx⟩ := Option.map_eq_some_iff.mp h
    cases hx
    rw [eq_of_pick_eq_some hpick]
    exact ((ih hdraw).cons a).trans List.perm_middle.symm

/-- Draws up to the sum that is left take out exactly the front part.

**Proof sketch.** Induction on the length of the front part. The draw selects from it
(`pick_append_of_le`), and the part without this element has the sum that is left. -/
lemma drawAll_of_le (hw : ∀ a, 0 ≤ weight a) {i : ℕ} {g : List α}
    (hdraw : ∀ k < g.length, ∀ s, 0 ≤ s → draw (i + k) s ≤ s) (rest : List α) :
    ∃ out, out.Perm g ∧
      drawAll weight draw g.length i (total weight g) (g ++ rest) = some (out, rest) := by
  obtain ⟨n, hn⟩ : ∃ n, g.length = n := ⟨_, rfl⟩
  induction n generalizing i g with
  | zero =>
    obtain rfl := List.length_eq_zero_iff.mp hn
    exact ⟨[], List.Perm.refl _, rfl⟩
  | succ n ih =>
    have hne : g ≠ [] := List.length_pos_iff.mp (by omega)
    have hfirst := hdraw 0 (by omega) (total weight g) (total_nonneg hw g)
    rw [Nat.add_zero] at hfirst
    obtain ⟨l₁, a, l₂, rfl, hpick⟩ := pick_append_of_le hne hfirst rest
    have hlen : (l₁ ++ l₂).length = n := by
      simp only [List.length_append, List.length_cons] at hn ⊢
      omega
    obtain ⟨out, hperm, hrun⟩ := ih (i := i + 1) (g := l₁ ++ l₂) (fun k hk s hs => by
      have hnext := hdraw (k + 1) (by omega) s hs
      rwa [Nat.add_comm k, ← Nat.add_assoc] at hnext) hlen
    have hsum : total weight (l₁ ++ a :: l₂) - weight a = total weight (l₁ ++ l₂) := by
      simp only [total_append, total_cons]
      omega
    refine ⟨a :: out, (hperm.cons a).trans List.perm_middle.symm, ?_⟩
    rw [hlen] at hrun
    rw [hn, drawAll, hpick, Option.bind_some]
    simp only [hsum, ← List.append_assoc, hrun, Option.map_some]

/-- A draw beyond the sum that is left takes an element from behind the front part, while an element
of the front part stays.

**Proof sketch.** Induction on the length of the front part. A draw beyond its sum takes an
element from behind, and what was in the front part is drawn later or left over
(`drawAll_perm`). A draw up to the sum is not the one asked for; it takes an element out of the
front part, and the hypothesis is about the others. -/
lemma drawAll_of_lt (hw : ∀ a, 0 ≤ weight a) {i k : ℕ} {g rest out rest' : List α}
    (hk : k < g.length) (hdraw : ∀ s, 0 ≤ s → s < draw (i + k) s)
    (h : drawAll weight draw g.length i (total weight g) (g ++ rest) = some (out, rest')) :
    ∃ out₁ b out₂, out = out₁ ++ b :: out₂ ∧ b ∈ rest ∧ ∃ c ∈ g, c ∈ out₂ ++ rest' := by
  obtain ⟨n, hn⟩ : ∃ n, g.length = n := ⟨_, rfl⟩
  induction n generalizing i k g out with
  | zero => omega
  | succ n ih =>
    have hne : g ≠ [] := List.length_pos_iff.mp (by omega)
    rw [hn, drawAll] at h
    obtain ⟨⟨p, a, q⟩, hpick, h⟩ := Option.bind_eq_some_iff.mp h
    obtain ⟨⟨out', rest''⟩, hrun, hx⟩ := Option.map_eq_some_iff.mp h
    cases hx
    dsimp only at hrun ⊢
    rcases le_or_gt (draw i (total weight g)) (total weight g) with hle | hlt
    · -- this draw stays in the front part, so a later one does not
      obtain ⟨l₁, a', l₂, rfl, hpick'⟩ := pick_append_of_le hne hle rest
      obtain ⟨rfl, rfl, rfl⟩ : l₁ = p ∧ a' = a ∧ l₂ ++ rest = q := by
        simpa using hpick'.symm.trans hpick
      have hlen : (l₁ ++ l₂).length = n := by
        simp only [List.length_append, List.length_cons] at hn ⊢
        omega
      have hsum : total weight (l₁ ++ a' :: l₂) - weight a' = total weight (l₁ ++ l₂) := by
        simp only [total_append, total_cons]
        omega
      have hk0 : k ≠ 0 := by
        rintro rfl
        have := hdraw _ (total_nonneg hw (l₁ ++ a' :: l₂))
        rw [Nat.add_zero] at this
        omega
      obtain ⟨k, rfl⟩ := Nat.exists_eq_succ_of_ne_zero hk0
      rw [hsum, ← List.append_assoc, ← hlen] at hrun
      obtain ⟨out₁, b, out₂, rfl, hb, c, hc, hmem⟩ := ih (i := i + 1) (k := k) (by omega)
        (fun s hs => by
          have := hdraw s hs
          rwa [Nat.succ_eq_add_one, Nat.add_comm k, ← Nat.add_assoc] at this) hrun hlen
      refine ⟨a' :: out₁, b, out₂, rfl, hb, c, ?_, hmem⟩
      simp only [List.mem_append, List.mem_cons] at hc ⊢
      tauto
    · -- this draw passes the front part
      rw [pick_append_of_lt hw hlt] at hpick
      obtain ⟨⟨p', a', q'⟩, hpick', hx⟩ := Option.map_eq_some_iff.mp hpick
      cases hx
      obtain ⟨c, hc⟩ := List.exists_mem_of_ne_nil g hne
      refine ⟨[], a, out', rfl, ?_, c, hc, ?_⟩
      · rw [eq_of_pick_eq_some hpick']
        simp
      · exact (drawAll_perm hrun).mem_iff.mpr (by simp [hc])

/-! ## The whole list -/

/-- The front part and what is behind it are the list. -/
lemma front_append_dropWhile (a : α) (l : List α) :
    front key (a :: l) ++ l.dropWhile (fun b => key b = key a) = a :: l := by
  simp [front, List.takeWhile_append_dropWhile]

/-- **What is drawn is the list**, in some order.

**Proof sketch.** Induction on the fuel: a turn draws the front part out of the list
(`drawAll_perm`) and goes on with what is left. -/
lemma order_perm {fuel i : ℕ} {l r : List α} (h : order weight key draw fuel i l = some r) :
    r.Perm l := by
  induction fuel generalizing i l r with
  | zero => cases h
  | succ fuel ih =>
    cases l with
    | nil =>
      cases h
      exact List.Perm.refl _
    | cons a l =>
      rw [order] at h
      obtain ⟨⟨out, rest⟩, hdraw, h⟩ := Option.bind_eq_some_iff.mp h
      obtain ⟨r', hrest, rfl⟩ := Option.map_eq_some_iff.mp h
      exact ((ih hrest).append_left out).trans (drawAll_perm hdraw)

/-- In a sorted list the key is the least one, and behind the front part it is greater.

**Proof sketch.** The front part has the key of the first element. The one behind it has another
key, and sorted means that it is greater; those behind that one are not less. -/
lemma sorted_front {a : α} {l : List α}
    (hl : (a :: l).Pairwise fun b c => key b ≤ key c) :
    (∀ b ∈ front key (a :: l), key b = key a) ∧
      ∀ b ∈ l.dropWhile (fun b => key b = key a), key a < key b := by
  constructor
  · intro b hb
    rcases List.mem_cons.mp hb with rfl | hb
    · rfl
    · simpa using List.mem_takeWhile_imp hb
  · obtain ⟨hfirst, hrest⟩ := List.pairwise_cons.mp hl
    have hsub := List.dropWhile_sublist (l := l) fun b => decide (key b = key a)
    intro b hb
    cases hd : l.dropWhile (fun b => decide (key b = key a)) with
    | nil =>
      rw [hd] at hb
      cases hb
    | cons c t =>
      rw [hd] at hb hsub
      have hc : key a < key c := by
        have hle := hfirst c (hsub.subset (by simp))
        have hne : key c ≠ key a := by
          have := List.head?_dropWhile_not (fun b => decide (key b = key a)) l
          rw [hd] at this
          simpa using this
        omega
      rcases List.mem_cons.mp hb with rfl | hb
      · exact hc
      · exact hc.trans_le (List.rel_of_pairwise_cons (hrest.sublist hsub) hb)

/-- **The order is sorted** exactly when none of the draws goes beyond the sum that is left.

**Proof sketch.** Induction on the keys to go. When all draws for the first key are good they take
out exactly its elements, and the rest is ordered the same way. A draw that goes too far takes out
an element with a greater key while one with the first key stays; that one comes later. -/
theorem order_sorted_iff (hw : ∀ a, 0 ≤ weight a) {good : ℕ → Prop}
    (hgood : ∀ i s, 0 ≤ s → (draw i s ≤ s ↔ good i)) {fuel i : ℕ} {l : List α}
    (hl : l.Pairwise fun b c => key b ≤ key c) (hfuel : l.length < fuel) :
    (∃ r, order weight key draw fuel i l = some r ∧ r.Pairwise fun b c => key b ≤ key c) ↔
      ∀ k < l.length, good (i + k) := by
  induction fuel generalizing i l with
  | zero => omega
  | succ fuel ih =>
    cases l with
    | nil => simp [order]
    | cons a l =>
      obtain ⟨g, hg⟩ : ∃ g, g = front key (a :: l) := ⟨_, rfl⟩
      obtain ⟨t, ht⟩ : ∃ t, t = l.dropWhile (fun b => decide (key b = key a)) := ⟨_, rfl⟩
      have hsplit : g ++ t = a :: l := by rw [hg, ht, front_append_dropWhile]
      obtain ⟨hfront, hback⟩ := sorted_front hl
      rw [← hg] at hfront
      rw [← ht] at hback
      have hpos : 0 < g.length := by simp [hg, front]
      have hlen : g.length + t.length = (a :: l).length := by
        rw [← hsplit, List.length_append]
      rw [order, ← hg, ← hlen]
      by_cases hall : ∀ k < g.length, good (i + k)
      · have hdraws : ∀ k < g.length, ∀ s, 0 ≤ s → draw (i + k) s ≤ s :=
          fun k hk s hs => (hgood _ s hs).mpr (hall k hk)
        obtain ⟨out, hperm, hrun⟩ := drawAll_of_le hw hdraws t
        rw [hsplit] at hrun
        have hrest := ih (i := i + g.length) (l := t)
          (hl.sublist (hsplit ▸ List.sublist_append_right g t)) (by omega)
        have hout : ∀ r, r.Perm t → ((out ++ r).Pairwise (fun b c => key b ≤ key c) ↔
            r.Pairwise fun b c => key b ≤ key c) := by
          intro r hr
          have hkeys : ∀ b ∈ out, key b = key a := fun b hb => hfront b (hperm.mem_iff.mp hb)
          rw [List.pairwise_append]
          constructor
          · exact fun h => h.2.1
          · intro h
            refine ⟨List.pairwise_of_forall_mem_list fun b hb c hc => ?_, h, fun b hb c hc => ?_⟩
            · rw [hkeys b hb, hkeys c hc]
            · rw [hkeys b hb]
              exact (hback c (hr.mem_iff.mp hc)).le
        rw [hrun, Option.bind_some]
        constructor
        · rintro ⟨r, hr, hsorted⟩ k hk
          obtain ⟨r', hr', rfl⟩ := Option.map_eq_some_iff.mp hr
          rcases lt_or_ge k g.length with hlt | hge
          · exact hall k hlt
          · have hk' := hrest.mp ⟨r', hr', (hout r' (order_perm hr')).mp hsorted⟩ (k - g.length)
              (by omega)
            rwa [show i + g.length + (k - g.length) = i + k by omega] at hk'
        · intro h
          obtain ⟨r, hr, hsorted⟩ := hrest.mpr fun k hk => by
            rw [Nat.add_assoc]
            exact h (g.length + k) (by omega)
          exact ⟨out ++ r, by simp only [hr, Option.map_some],
            (hout r (order_perm hr)).mpr hsorted⟩
      · rw [not_forall] at hall
        obtain ⟨k, hall⟩ := hall
        rw [Classical.not_imp] at hall
        obtain ⟨hk, hbad⟩ := hall
        constructor
        · rintro ⟨r, hr, hsorted⟩
          obtain ⟨⟨out, rest⟩, hrun, hr⟩ := Option.bind_eq_some_iff.mp hr
          obtain ⟨r', hr', rfl⟩ := Option.map_eq_some_iff.mp hr
          rw [← hsplit] at hrun
          obtain ⟨out₁, b, out₂, rfl, hb, c, hc, hmem⟩ := drawAll_of_lt hw hk
            (fun s hs => lt_of_not_ge fun hle => hbad ((hgood _ s hs).mp hle)) hrun
          have hlater : c ∈ out₂ ++ r' := by
            rcases List.mem_append.mp hmem with h | h
            · exact List.mem_append_left _ h
            · exact List.mem_append_right _ ((order_perm hr').mem_iff.mpr h)
          have hle : key b ≤ key c := by
            dsimp only at hsorted
            rw [List.append_assoc, List.cons_append] at hsorted
            exact List.rel_of_pairwise_cons (List.pairwise_append.mp hsorted).2.1 hlater
          have := hback b hb
          rw [hfront c hc] at hle
          omega
        · exact fun h => absurd (h k (by omega)) hbad

end Weighted
