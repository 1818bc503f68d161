import Taningia.Lib.Weighted

set_option relaxedAutoImplicit false
set_option autoImplicit false

/-!
# What can be drawn

A draw up to the sum of the weights selects the first element or one with a weight: elements without
a weight are drawn only from the front. So not every order of a list can be drawn. When the list is
sorted by key and weight, those orders can that are sorted by the key and leave the elements without
a weight as they were among those of the same key.

## Main definitions

* `Weighted.Outcome` — what is drawn from a list, element by element.
* `Weighted.Draws` — the draws, and the sums they are for.

## Main results

* `Weighted.outcome_iff` — the orders that can be drawn.
* `Weighted.order_outcome`, `Weighted.exists_order_draws` — they are those of `Weighted.order`.
-/

namespace Weighted

variable {α : Type*} {weight : α → ℤ} {key : α → ℕ} {draw : ℕ → ℤ → ℤ}

/-- Elements are taken out of a list, each of them the first one that is left, or one with a weight
and the key of the first one. -/
inductive Outcome (weight : α → ℤ) (key : α → ℕ) : List α → List α → Prop where
  | nil : Outcome weight key [] []
  | cons {l₁ l₂ out : List α} {a : α} :
    (l₁ = [] ∨ 0 < weight a ∧ ∀ b ∈ l₁, key b = key a) → Outcome weight key (l₁ ++ l₂) out →
      Outcome weight key (l₁ ++ a :: l₂) (a :: out)

/-- An outcome has the elements of the list. -/
lemma Outcome.perm {l out : List α} (h : Outcome weight key l out) : out.Perm l := by
  induction h with
  | nil => exact List.Perm.refl _
  | cons _ _ ih => exact (ih.cons _).trans List.perm_middle.symm

/-- Two lists one after the other. -/
lemma Outcome.append {g t out r : List α} (hg : Outcome weight key g out)
    (ht : Outcome weight key t r) : Outcome weight key (g ++ t) (out ++ r) := by
  induction hg with
  | nil => exact ht
  | @cons l₁ l₂ out a ha _ ih =>
    rw [List.append_assoc, List.cons_append]
    refine .cons ha ?_
    rwa [List.append_assoc] at ih

/-- Elements of a smaller key come first.

**Proof sketch.** Induction on the outcome. The first element of the front part is taken out or
has the key of what is, and keys of the back part are greater, so what is taken out is in the
front part; the rest splits by the hypothesis. -/
lemma Outcome.split {g t r : List α} (h : Outcome weight key (g ++ t) r)
    (hkeys : ∀ b ∈ g, ∀ c ∈ t, key b < key c) :
    ∃ out r', r = out ++ r' ∧ Outcome weight key g out ∧ Outcome weight key t r' := by
  generalize hl : g ++ t = l at h
  induction h generalizing g with
  | nil =>
    obtain ⟨rfl, rfl⟩ := List.append_eq_nil_iff.mp hl
    exact ⟨[], [], rfl, .nil, .nil⟩
  | @cons l₁ l₂ out a ha hrest ih =>
    cases g with
    | nil =>
      rw [List.nil_append] at hl
      subst hl
      exact ⟨[], a :: out, rfl, .nil, .cons ha hrest⟩
    | cons b g =>
      -- the first element has the key of what is taken out, so that is in the first list
      have hout : b ∈ l₁ → a ∉ t := by
        intro hb hat
        obtain rfl | ⟨-, hsame⟩ := ha
        · cases hb
        · have := hkeys b List.mem_cons_self a hat
          have := hsame b hb
          omega
      obtain ⟨l₂', rfl, hg⟩ : ∃ l₂', l₂ = l₂' ++ t ∧ b :: g = l₁ ++ a :: l₂' := by
        rcases List.append_eq_append_iff.mp hl with ⟨as, rfl, rfl⟩ | ⟨bs, hg, hbs⟩
        · exact absurd (by simp) (hout (by simp))
        · cases bs with
          | nil =>
            rw [List.append_nil] at hg
            rw [List.nil_append] at hbs
            subst hg hbs
            exact absurd List.mem_cons_self (hout List.mem_cons_self)
          | cons c bs =>
            obtain ⟨rfl, rfl⟩ := List.cons_eq_cons.mp hbs
            exact ⟨bs, rfl, hg⟩
      have hsub : List.Sublist (l₁ ++ l₂') (b :: g) :=
        hg ▸ (List.sublist_cons_self a l₂').append_left l₁
      obtain ⟨out', r', rfl, hout', hr'⟩ := ih (g := l₁ ++ l₂')
        (fun c hc => hkeys c (hsub.subset hc)) (List.append_assoc l₁ l₂' t)
      exact ⟨a :: out', r', rfl, hg ▸ .cons ha hout', hr'⟩

/-- **The orders that can be drawn** from a list that is sorted by key and weight.

**Proof sketch.** Induction on what is drawn. The element that comes next is somewhere in the list,
and those in front of it have its key, because they come later. If it has no weight, then neither
have they, and elements without a weight keep their places. -/
theorem outcome_iff (hw : ∀ a, 0 ≤ weight a) {before : α → α → Prop}
    (hasymm : ∀ b c, before b c → ¬ before c b)
    (hbefore : ∀ b c, before b c → key b < key c ∨ key b = key c ∧ weight b ≤ weight c)
    {l r : List α} (hl : l.Pairwise before) :
    Outcome weight key l r ↔ r.Perm l ∧ r.Pairwise fun b c =>
      key b ≤ key c ∧ (key b = key c → weight b = 0 → weight c = 0 → before b c) := by
  constructor
  · intro h
    refine ⟨h.perm, ?_⟩
    induction h with
    | nil => exact .nil
    | @cons l₁ l₂ r a ha hrest ih =>
      have hback := (List.pairwise_append.mp hl).2.1
      refine List.pairwise_cons.mpr
        ⟨fun c hc => ?_, ih (hl.sublist ((List.sublist_cons_self a l₂).append_left l₁))⟩
      rcases List.mem_append.mp (hrest.perm.mem_iff.mp hc) with hc | hc
      · obtain rfl | ⟨hpos, hkeys⟩ := ha
        · cases hc
        · exact ⟨(hkeys c hc).ge, fun _ hzero => absurd hzero hpos.ne'⟩
      · have hac := List.rel_of_pairwise_cons hback hc
        exact ⟨by have := hbefore a c hac; omega, fun _ _ _ => hac⟩
  · rintro ⟨hperm, hsorted⟩
    induction r generalizing l with
    | nil =>
      obtain rfl := List.nil_perm.mp hperm
      exact .nil
    | cons a r ih =>
      obtain ⟨l₁, l₂, rfl⟩ := List.append_of_mem (hperm.subset List.mem_cons_self)
      have hperm' : r.Perm (l₁ ++ l₂) := (hperm.trans List.perm_middle).cons_inv
      obtain ⟨hfirst, hsorted'⟩ := List.pairwise_cons.mp hsorted
      have hla : ∀ b ∈ l₁, before b a := fun b hb =>
        (List.pairwise_append.mp hl).2.2 b hb a List.mem_cons_self
      have hkeys : ∀ b ∈ l₁, key b = key a := by
        intro b hb
        have hlater := (hfirst b (hperm'.mem_iff.mpr (List.mem_append_left l₂ hb))).1
        have := hbefore b a (hla b hb)
        omega
      have hfront : ∀ b ∈ l₁, 0 < weight a := by
        intro b hb
        by_contra hzero
        have ha := hw a
        have hb' := hw b
        have hle := hbefore b a (hla b hb)
        have hkey := hkeys b hb
        exact hasymm b a (hla b hb)
          ((hfirst b (hperm'.mem_iff.mpr (List.mem_append_left l₂ hb))).2 hkey.symm (by omega)
            (by omega))
      refine .cons ?_ (ih (hl.sublist ((List.sublist_cons_self a l₂).append_left l₁)) hperm'
        hsorted')
      cases l₁ with
      | nil => exact .inl rfl
      | cons b l₁ => exact .inr ⟨hfront b List.mem_cons_self, hkeys⟩

/-! ## The draws -/

/-- The sums, and the draws for them from the `i`-th on. -/
def Draws (draw : ℕ → ℤ → ℤ) : ℕ → List (ℤ × ℤ) → Prop
  | _, [] => True
  | i, (s, d) :: ds => draw i s = d ∧ Draws draw (i + 1) ds

/-- Draws one after the other. -/
lemma draws_append {i : ℕ} {ds es : List (ℤ × ℤ)} :
    Draws draw i (ds ++ es) ↔ Draws draw i ds ∧ Draws draw (i + ds.length) es := by
  induction ds generalizing i with
  | nil => simp [Draws]
  | cons x ds ih =>
    obtain ⟨s, d⟩ := x
    rw [List.cons_append, Draws, Draws, ih, List.length_cons, and_assoc, Nat.add_assoc i 1,
      Nat.add_comm 1]

/-- The draws are read one by one.

**Proof sketch.** Induction on the numbers; the first is drawn at `i`. -/
lemma draws_iff {i : ℕ} {ds : List (ℤ × ℤ)} :
    Draws draw i ds ↔ ∀ k x, ds[k]? = some x → draw (i + k) x.1 = x.2 := by
  induction ds generalizing i with
  | nil => simp [Draws]
  | cons y ds ih =>
    obtain ⟨s, d⟩ := y
    rw [Draws, ih]
    constructor
    · rintro ⟨hfirst, hrest⟩ k x hx
      cases k with
      | zero =>
        obtain rfl : (s, d) = x := Option.some.inj hx
        exact hfirst
      | succ k =>
        rw [Nat.add_comm k, ← Nat.add_assoc]
        exact hrest k x hx
    · intro h
      refine ⟨h 0 (s, d) rfl, fun k x hx => ?_⟩
      rw [Nat.add_assoc, Nat.add_comm 1]
      exact h (k + 1) x hx

/-- Draws within their sums take out of a list, for as long as they are from its front part of one
key.

**Proof sketch.** Induction on the length of the front part. The draw is within the sum, so it
takes an element out of the front part (`pick_append_of_le`). An element that is passed in front
of it makes the draw positive, so the weight of the one taken is. -/
lemma drawAll_outcome (hw : ∀ a, 0 ≤ weight a) {i : ℕ} {g : List α}
    (hkeys : ∀ b ∈ g, ∀ c ∈ g, key b = key c)
    (hdraw : ∀ k < g.length, ∀ s, 0 ≤ s → draw (i + k) s ≤ s) (rest : List α) :
    ∃ out, Outcome weight key g out ∧
      drawAll weight draw g.length i (total weight g) (g ++ rest) = some (out, rest) := by
  obtain ⟨n, hn⟩ : ∃ n, g.length = n := ⟨_, rfl⟩
  induction n generalizing i g with
  | zero =>
    obtain rfl := List.length_eq_zero_iff.mp hn
    exact ⟨[], .nil, rfl⟩
  | succ n ih =>
    have hfirst := hdraw 0 (by omega) (total weight g) (total_nonneg hw g)
    rw [Nat.add_zero] at hfirst
    obtain ⟨l₁, a, l₂, rfl, hpick⟩ :=
      pick_append_of_le (List.length_pos_iff.mp (by omega)) hfirst rest
    have hsub : List.Sublist (l₁ ++ l₂) (l₁ ++ a :: l₂) :=
      (List.sublist_cons_self a l₂).append_left l₁
    have hlen : (l₁ ++ l₂).length = n := by
      simp only [List.length_append, List.length_cons] at hn ⊢
      omega
    obtain ⟨out, hout, hrun⟩ := ih (i := i + 1) (g := l₁ ++ l₂)
      (fun b hb c hc => hkeys b (hsub.subset hb) c (hsub.subset hc))
      (fun k hk s hs => by
        have hnext := hdraw (k + 1) (by omega) s hs
        rwa [Nat.add_comm k, ← Nat.add_assoc] at hnext) hlen
    have hsum : total weight (l₁ ++ a :: l₂) - weight a = total weight (l₁ ++ l₂) := by
      simp only [total_append, total_cons]
      omega
    -- the draw is greater than the sum in front, and so the weight is not zero
    have hplace : l₁ = [] ∨ 0 < weight a ∧ ∀ b ∈ l₁, key b = key a := by
      rw [List.append_assoc, List.cons_append] at hpick
      obtain ⟨hlt, hle⟩ := (pick_append_cons_iff hw).mp hpick
      rcases eq_or_ne l₁ [] with h | h
      · exact .inl h
      · have := hlt h
        exact .inr ⟨by omega, fun b hb => hkeys b (by simp [hb]) a (by simp)⟩
    refine ⟨a :: out, .cons hplace hout, ?_⟩
    rw [hlen] at hrun
    rw [hn, drawAll, hpick, Option.bind_some]
    simp only [hsum, ← List.append_assoc, hrun, Option.map_some]

/-- **What can be drawn is drawn**: by draws within their sums.

**Proof sketch.** Induction on the outcome. To take out the element behind `l₁` draw the sum of
`l₁` and its weight, which is more than the sum of `l₁` unless that is empty; the others come by
the hypothesis. -/
lemma exists_drawAll_draws (hw : ∀ a, 0 ≤ weight a) {g out : List α}
    (h : Outcome weight key g out) :
    ∃ ds : List (ℤ × ℤ), ds.length = g.length ∧
      (∀ x ∈ ds, 0 ≤ x.2 ∧ x.2 ≤ x.1 ∧ x.1 ≤ total weight g) ∧
      ∀ draw i rest, Draws draw i ds →
        drawAll weight draw g.length i (total weight g) (g ++ rest) = some (out, rest) := by
  induction h with
  | nil => exact ⟨[], rfl, by simp, fun _ _ _ _ => rfl⟩
  | @cons l₁ l₂ out a ha _ ih =>
    obtain ⟨ds, hlen, hds, hrun⟩ := ih
    have hfront := total_nonneg hw l₁
    have hback := total_nonneg hw l₂
    have hwa := hw a
    have hlength : (l₁ ++ a :: l₂).length = (l₁ ++ l₂).length + 1 := by
      simp only [List.length_append, List.length_cons]
      omega
    have hsum : total weight (l₁ ++ a :: l₂) - weight a = total weight (l₁ ++ l₂) := by
      simp only [total_append, total_cons]
      omega
    refine ⟨(total weight (l₁ ++ a :: l₂), total weight l₁ + weight a) :: ds, ?_, ?_, ?_⟩
    · rw [List.length_cons, hlen, hlength]
    · refine List.forall_mem_cons.mpr ⟨?_, fun x hx => ?_⟩
      · simp only [total_append, total_cons]
        omega
      · have := hds x hx
        omega
    · rintro draw i rest ⟨hdraw, hdraws⟩
      have hpick : pick weight (total weight l₁ + weight a) (l₁ ++ a :: (l₂ ++ rest)) =
          some (l₁, a, l₂ ++ rest) := by
        refine (pick_append_cons_iff hw).mpr ⟨fun hne => ?_, le_rfl⟩
        obtain h | ⟨hpos, -⟩ := ha
        · exact absurd h hne
        · omega
      rw [hlength, drawAll, hdraw, List.append_assoc, List.cons_append, hpick, Option.bind_some]
      simp only [hsum, ← List.append_assoc, hrun draw (i + 1) rest hdraws, Option.map_some]

/-- **Draws within their sums** draw what can be drawn.

**Proof sketch.** Induction on the fuel. The front part of one key is drawn by
`drawAll_outcome`, what is behind it has greater keys and comes by the hypothesis, and outcomes
of the two are one of the list. -/
theorem order_outcome (hw : ∀ a, 0 ≤ weight a) {fuel i : ℕ} {l r : List α}
    (hl : l.Pairwise fun b c => key b ≤ key c)
    (hdraw : ∀ k < l.length, ∀ s, 0 ≤ s → draw (i + k) s ≤ s)
    (h : order weight key draw fuel i l = some r) : Outcome weight key l r := by
  induction fuel generalizing i l r with
  | zero => cases h
  | succ fuel ih =>
    cases l with
    | nil =>
      cases h
      exact .nil
    | cons a l =>
      obtain ⟨hfront, -⟩ := sorted_front hl
      have hsplit : front key (a :: l) ++ l.dropWhile (fun b => key b = key a) = a :: l :=
        front_append_dropWhile a l
      rw [order] at h
      generalize front key (a :: l) = g at h hfront hsplit
      generalize l.dropWhile (fun b => decide (key b = key a)) = t at hsplit
      rw [← hsplit] at hl hdraw h ⊢
      rw [List.length_append] at hdraw
      have hdraw' : ∀ k < g.length, ∀ s, 0 ≤ s → draw (i + k) s ≤ s :=
        fun k hk => hdraw k (by omega)
      obtain ⟨out, hout, hrun⟩ := drawAll_outcome hw
        (fun b hb c hc => (hfront b hb).trans (hfront c hc).symm) hdraw' t
      rw [hrun, Option.bind_some] at h
      obtain ⟨r', hr', rfl⟩ := Option.map_eq_some_iff.mp h
      refine hout.append (ih (hl.sublist (List.sublist_append_right g t)) (fun k hk => ?_) hr')
      rw [Nat.add_assoc]
      exact hdraw (g.length + k) (by omega)

/-- **Every order that can be drawn** is drawn by draws within their sums.

**Proof sketch.** Induction on the fuel. The outcome splits at the front part of one key
(`Outcome.split`); draws for it (`exists_drawAll_draws`) and for the rest follow each other. -/
theorem exists_order_draws (hw : ∀ a, 0 ≤ weight a) {fuel : ℕ} {l r : List α}
    (hl : l.Pairwise fun b c => key b ≤ key c) (hfuel : l.length < fuel)
    (h : Outcome weight key l r) :
    ∃ ds : List (ℤ × ℤ), ds.length = l.length ∧
      (∀ x ∈ ds, 0 ≤ x.2 ∧ x.2 ≤ x.1 ∧ x.1 ≤ total weight l) ∧
      ∀ draw i, Draws draw i ds → order weight key draw fuel i l = some r := by
  induction fuel generalizing l r with
  | zero => omega
  | succ fuel ih =>
    cases l with
    | nil =>
      cases List.perm_nil.mp h.perm
      exact ⟨[], rfl, by simp, fun _ _ _ => rfl⟩
    | cons a l =>
      obtain ⟨hfront, hback⟩ := sorted_front hl
      have hsplit : front key (a :: l) ++ l.dropWhile (fun b => key b = key a) = a :: l :=
        front_append_dropWhile a l
      have hpos : 0 < (front key (a :: l)).length := by simp [front]
      simp only [order]
      generalize front key (a :: l) = g at hfront hsplit hpos ⊢
      generalize l.dropWhile (fun b => decide (key b = key a)) = t at hback hsplit
      rw [← hsplit] at hl hfuel h ⊢
      rw [List.length_append] at hfuel ⊢
      obtain ⟨out, r', rfl, hout, hr'⟩ := h.split fun b hb c hc => by
        rw [hfront b hb]
        exact hback c hc
      obtain ⟨ds, hlen, hds, hrun⟩ := exists_drawAll_draws hw hout
      obtain ⟨es, hlen', hes, hrest⟩ :=
        ih (hl.sublist (List.sublist_append_right g t)) (by omega) hr'
      refine ⟨ds ++ es, by rw [List.length_append, hlen, hlen'], ?_, fun draw i hdraws => ?_⟩
      · have hg := total_nonneg hw g
        have ht := total_nonneg hw t
        intro x hx
        rw [total_append]
        rcases List.mem_append.mp hx with hx | hx
        · have := hds x hx
          omega
        · have := hes x hx
          omega
      · obtain ⟨hd, he⟩ := draws_append.mp hdraws
        rw [hlen] at he
        rw [hrun draw i t hd, Option.bind_some, hrest draw _ he]
        rfl

end Weighted
