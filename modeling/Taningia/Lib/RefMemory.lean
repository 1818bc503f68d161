import Taningia.Lib.RefCount

set_option relaxedAutoImplicit false
set_option autoImplicit false

/-!
# The memory of reference-counted objects

Objects are created at fresh addresses, and released for good. When every object in memory is
accounted for, the references that are stored in fields can be added, replaced and dropped, in the
orders in which programs do it.

## Main definitions

* `RefCount.Accounted` — the counts of all objects in memory are right, and every object that was
  created is in memory or was released once.

## Main results

* `RefCount.Accounted.ref`, `RefCount.Accounted.unref` — a reference is taken, and let go.
* `RefCount.Accounted.new` — an object is created.
* `RefCount.Accounted.add` — an object stores one more reference.
* `RefCount.Accounted.drop`, `RefCount.Accounted.replace` — an object lets references go, and takes
  another one instead.
-/

namespace RefCount

variable {O : Type*} {L : Layout O} {h h' : Memory O} {n : ℕ} {held : ℕ → ℕ}

namespace Memory

/-- The objects in memory, when `n` were created. -/
def live (h : Memory O) (n : ℕ) : Finset ℕ := (Finset.range n).filter fun a => (h.cells a).isSome

/-- Writing to an object, which is a fault when it was released. -/
def write (h : Memory O) (p : ℕ) (f : O → O) : Option (Memory O) :=
  (h.obj p).map fun o => h.setObj p (f o)

/-- The live objects. -/
lemma mem_live {a : ℕ} : a ∈ h.live n ↔ a < n ∧ h.cells a ≠ none := by
  rw [live, Finset.mem_filter, Finset.mem_range, Option.isSome_iff_ne_none]

/-- An object that is there is written. -/
lemma write_eq {p : ℕ} {o : O} (ho : h.obj p = some o) (f : O → O) :
    h.write p f = some (h.setObj p (f o)) := by
  rw [write, ho]
  rfl

/-- The last object that is written stays. -/
lemma setObj_setObj (p : ℕ) (o o' : O) : (h.setObj p o).setObj p o' = h.setObj p o' := by
  simp [setObj, Function.comp_def]

/-- A write to an object makes no cell and takes none away. -/
lemma cells_setObj_eq_none {p a : ℕ} {o : O} :
    (h.setObj p o).cells a = none ↔ h.cells a = none := by
  by_cases hap : a = p
  · subst hap
    simp [setObj]
  · rw [h.cells_setObj_of_ne p o hap]

/-- A count and an object are changed in either order. -/
lemma setCount_setObj (p a : ℕ) (o : O) (c : ℤ) :
    (h.setObj p o).setCount a c = (h.setCount a c).setObj p o := by
  unfold setObj setCount
  congr 1
  by_cases hap : a = p
  · subst hap
    simp [Function.comp_def]
  · simp only [Function.update_of_ne hap, Function.update_of_ne (Ne.symm hap)]
    exact Function.update_comm (Ne.symm hap) _ _ _

end Memory

/-- What is in memory was there before, the same. -/
def Memory.Keeps (h h' : Memory O) : Prop := ∀ a o, h'.obj a = some o → h.obj a = some o

/-- An object is the same when it is assigned the same.

**Proof sketch.** At the address written both memories show the new object, if there is one
left; elsewhere the write makes no difference. -/
lemma Memory.Keeps.setObj {p : ℕ} {o : O} (hk : (h.setObj p o).Keeps (h'.setObj p o))
    (hp : h.obj p ≠ none) (o' : O) : (h.setObj p o').Keeps (h'.setObj p o') := by
  intro a oa ha
  by_cases hap : a = p
  · subst hap
    have hp' : h'.obj a ≠ none := by
      intro hnone
      rw [Memory.obj_eq_none_iff] at hnone
      rw [Memory.obj, Memory.cells_setObj_eq_none.mpr hnone] at ha
      cases ha
    rw [h'.obj_setObj_self a o' hp'] at ha
    rw [h.obj_setObj_self a o' hp, ha]
  · rw [h'.obj_setObj_of_ne p o' hap] at ha
    have hold := hk a oa (by rw [h'.obj_setObj_of_ne p o hap, ha])
    rwa [h.obj_setObj_of_ne p o hap, ← h.obj_setObj_of_ne p o' hap] at hold

/-- Releases leave the objects that are left. -/
lemma Shrinks.keeps {S S' : Finset ℕ} (hs : Shrinks h S h' S') : h.Keeps h' := by
  intro a o ho
  by_cases haS : a ∈ S
  · by_cases haS' : a ∈ S'
    · rw [← hs.kept a haS', ho]
    · rw [Memory.obj_eq_none_iff.mpr (hs.gone a haS haS')] at ho
      cases ho
  · rw [← Memory.obj_of_cells (hs.frame a haS), ho]

/-- Taking a reference and writing to an object commute.

**Proof sketch.** Both touch the one cell, the reference its count and the write its object. -/
lemma ref_setObj (p a : ℕ) (o : O) : ref L (h.setObj p o) a = (ref L h a).map (·.setObj p o) := by
  have hcells : ((h.setObj p o).cells a).map Cell.count = (h.cells a).map Cell.count :=
    congrFun (h.count_setObj p o) a
  unfold ref
  cases hc : h.cells a with
  | none =>
    rw [Memory.cells_setObj_eq_none.mpr hc]
    rfl
  | some c =>
    rw [hc] at hcells
    obtain ⟨c', hc', hcount⟩ := Option.map_eq_some_iff.mp hcells
    rw [hc', Option.bind_some, Option.bind_some, hcount]
    split_ifs
    · rw [Option.map_some, Memory.setCount_setObj]
    · rfl

/-- A reference changes no object. -/
lemma obj_of_ref {a : ℕ} (href : ref L h a = some h') : h'.obj = h.obj := by
  obtain ⟨c, -, hsome⟩ := Option.bind_eq_some_iff.mp href
  split_ifs at hsome
  obtain rfl := Option.some.inj hsome
  exact h.obj_setCount a _

/-- A reference is taken, and the other counts stay. -/
lemma count_of_ref {a b : ℕ} (href : ref L h a = some h') (hne : b ≠ a) :
    h'.count b = h.count b := by
  obtain ⟨c, -, hsome⟩ := Option.bind_eq_some_iff.mp href
  split_ifs at hsome
  obtain rfl := Option.some.inj hsome
  exact h.count_setCount_of_ne a _ hne

/-- What two steps leave of the objects is there before the first. -/
lemma Memory.Keeps.trans {h'' : Memory O} (hk : h.Keeps h') (hk' : h'.Keeps h'') : h.Keeps h'' :=
  fun a o ho => hk a o (hk' a o ho)

/-- What one call leaves in memory as it was, a run of calls leaves. -/
lemma keeps_foldlM {f : Memory O → ℕ → Option (Memory O)}
    (hf : ∀ a {h h' : Memory O}, f h a = some h' → h.Keeps h') {l : List ℕ}
    (hall : l.foldlM f h = some h') : h.Keeps h' := by
  induction l generalizing h with
  | nil =>
    obtain rfl := Option.some.inj hall
    exact fun a o ho => ho
  | cons a l ih =>
    rw [List.foldlM_cons] at hall
    obtain ⟨h₁, hone, hall⟩ := Option.bind_eq_some_iff.mp hall
    exact (hf a hone).trans (ih hall)

/-- **What is in memory behind a reference that is let go** is as it was.

**Proof sketch.** Induction on the depth. A reference that is not the last changes a count only.
The last one releases what the object stores, each by the induction hypothesis, and frees the
cell. -/
lemma keeps_unref {depth a : ℕ} (hunref : unref L depth h a = some h') : h.Keeps h' := by
  induction depth generalizing h h' a with
  | zero => cases hunref
  | succ depth ih =>
    obtain ⟨c, -, hsome⟩ := Option.bind_eq_some_iff.mp hunref
    have hcount : h.Keeps (h.setCount a (c.count - 1)) := by
      intro b o ho
      rwa [h.obj_setCount] at ho
    by_cases hlast : c.count - 1 = 0
    · simp only [if_pos hlast] at hsome
      obtain ⟨l, -, hsome⟩ := Option.bind_eq_some_iff.mp hsome
      obtain ⟨h₁, hall, rfl⟩ := Option.map_eq_some_iff.mp hsome
      have hkeeps : (h.setCount a (c.count - 1)).Keeps h₁ := keeps_foldlM (fun _ => ih) hall
      refine (hcount.trans hkeeps).trans fun b o ho => ?_
      by_cases hba : b = a
      · subst hba
        rw [Memory.obj, h₁.cells_free_self] at ho
        cases ho
      · rwa [Memory.obj_of_cells (h₁.cells_free_of_ne a hba)] at ho
    · simp only [if_neg hlast, Option.some.injEq] at hsome
      exact hsome ▸ hcount

/-- The last reference is let go.

**Proof sketch.** The count goes down to zero, so the cell is freed after what the object stores
was released. -/
lemma obj_of_unref_last {depth a : ℕ} (hc : h.count a = some 1)
    (hunref : unref L depth h a = some h') : h'.obj a = none := by
  cases depth with
  | zero => cases hunref
  | succ depth =>
    obtain ⟨cell, hcell, hsome⟩ := Option.bind_eq_some_iff.mp hunref
    have hone : cell.count = 1 := by
      rw [Memory.count, hcell] at hc
      exact Option.some.inj hc
    simp only [hone, sub_self, if_true] at hsome
    obtain ⟨l, -, hsome⟩ := Option.bind_eq_some_iff.mp hsome
    obtain ⟨h₁, -, rfl⟩ := Option.map_eq_some_iff.mp hsome
    rw [Memory.obj, h₁.cells_free_self]
    rfl

/-- A reference is let go, and there are others. -/
lemma unref_of_more {a depth : ℕ} {c : ℤ} (hc : h.count a = some c) (hmore : 1 < c) :
    unref L (depth + 1) h a = some (h.setCount a (c - 1)) := by
  obtain ⟨cell, hcell, rfl⟩ := Option.map_eq_some_iff.mp hc
  rw [unref, hcell, Option.bind_some, if_neg (by omega)]

/-- **References are let go, and there are others** to each object: only the counts change.

**Proof sketch.** Induction on the list. The first reference is not the last to its object, so
only its count goes down; the others are still fewer than the counts left. -/
lemma unrefAll_of_more (depth : ℕ) {l : List ℕ} (h : Memory O)
    (hl : ∀ a ∈ l, ∃ c, h.count a = some c ∧ (l.count a : ℤ) < c) :
    ∃ h', unrefAll L (depth + 1) h l = some h' ∧ h'.obj = h.obj ∧
      ∀ a, h'.count a = (h.count a).map (· - (l.count a : ℤ)) := by
  induction l generalizing h with
  | nil => exact ⟨h, rfl, rfl, fun a => by simp⟩
  | cons b l ih =>
    obtain ⟨cb, hcb, hmore⟩ := hl b (by simp)
    rw [List.count_cons_self] at hmore
    have hunref : unref L (depth + 1) h b = some (h.setCount b (cb - 1)) :=
      unref_of_more hcb (by omega)
    have hobj : h.obj b ≠ none := by
      intro hnone
      rw [Memory.count, Memory.obj_eq_none_iff.mp hnone] at hcb
      cases hcb
    have hself := h.count_setCount_self b (cb - 1) hobj
    obtain ⟨h', hall, hobj', hcount⟩ := ih (h.setCount b (cb - 1)) (by
      intro a ha
      by_cases hab : a = b
      · subst hab
        exact ⟨cb - 1, hself, by omega⟩
      · obtain ⟨c, hc, hlt⟩ := hl a (by simp [ha])
        rw [List.count_cons_of_ne (Ne.symm hab)] at hlt
        exact ⟨c, by rw [h.count_setCount_of_ne b _ hab, hc], hlt⟩)
    refine ⟨h', ?_, by rw [hobj', h.obj_setCount], fun a => ?_⟩
    · rw [unrefAll, List.foldlM_cons, hunref]
      exact hall
    · rw [hcount]
      by_cases hab : a = b
      · subst hab
        rw [hself, hcb, List.count_cons_self, Option.map_some, Option.map_some]
        congr 1
        omega
      · rw [h.count_setCount_of_ne b _ hab, List.count_cons_of_ne (Ne.symm hab)]

/-! ## What is reached -/

/-- **Every object is reached**, since each is referred to, and only by objects of higher ranks.

**Proof sketch.** Induction on the distance of the rank from the largest. An object is held, or
stored by another one, of higher rank, which is reached by the induction hypothesis. -/
lemma Balanced.reaches {S : Finset ℕ} (hb : Balanced L h S held) {a : ℕ} (ha : a ∈ S) :
    Reaches L h held a := by
  have hbound : ∀ p ∈ S, rankAt L h p ≤ S.sup (rankAt L h) := fun p hp => Finset.le_sup hp
  induction hk : S.sup (rankAt L h) - rankAt L h a using Nat.strong_induction_on generalizing a with
  | _ k ih =>
    have hpos := hb.pos a ha
    by_cases hheld : 0 < held a
    · exact .held hheld
    · have hsum : ∑ p ∈ S, stored L h p a ≠ 0 := by
        unfold refs at hpos
        omega
      obtain ⟨p, hp, hne⟩ := Finset.exists_ne_zero_of_sum_ne_zero hsum
      have hstored : 0 < stored L h p a := Nat.pos_of_ne_zero hne
      have hlt := (hb.closed p hp a hstored).2
      have hle := hbound p hp
      exact (ih _ (by omega) hp rfl).stored hstored

/-- What is reached by references under way is reached by others, is one of theirs, or has a lower
rank.

**Proof sketch.** Induction on the way the object is reached. What is held is held by the others
or is one of the list; what is stored has a lower rank than what stores it. -/
lemma Reaches.of_addRefs {S : Finset ℕ} {l : List ℕ} (hb : Balanced L h S (addRefs held l)) {a : ℕ}
    (ha : Reaches L h (addRefs held l) a) :
    Reaches L h held a ∨ ∃ b ∈ l, a = b ∨ rankAt L h a < rankAt L h b := by
  induction ha with
  | held hheld =>
    rename_i a
    by_cases hal : a ∈ l
    · exact Or.inr ⟨a, hal, Or.inl rfl⟩
    · rw [addRefs, List.count_eq_zero_of_not_mem hal] at hheld
      exact Or.inl (.held hheld)
  | stored hp hstored ih =>
    rename_i p a
    rcases ih with hr | ⟨b, hb', hpb⟩
    · exact Or.inl (hr.stored hstored)
    · have hlt := (hb.closed p (hb.mem_of_reaches hp) a hstored).2
      refine Or.inr ⟨b, hb', Or.inr ?_⟩
      rcases hpb with rfl | hpb
      · exact hlt
      · exact hlt.trans hpb

/-- What is reached is reached by the references that are held, or by those under way. -/
lemma Reaches.or {l : List ℕ} {a : ℕ} (ha : Reaches L h (addRefs held l) a) :
    Reaches L h held a ∨ Reaches L h (fun b => l.count b) a := by
  induction ha with
  | held hheld =>
    rename_i b
    by_cases hb : 0 < held b
    · exact Or.inl (.held hb)
    · refine Or.inr (.held ?_)
      unfold addRefs at hheld
      omega
  | stored _ hstored ih => exact ih.imp (·.stored hstored) (·.stored hstored)

/-- References under way to objects that are reached by others do not reach more. -/
lemma Reaches.of_reaches {l : List ℕ} (hl : ∀ b ∈ l, Reaches L h held b) {a : ℕ}
    (ha : Reaches L h (addRefs held l) a) : Reaches L h held a := by
  induction ha with
  | held hheld =>
    rename_i a
    by_cases hal : a ∈ l
    · exact hl a hal
    · rw [addRefs, List.count_eq_zero_of_not_mem hal] at hheld
      exact .held hheld
  | stored _ hstored ih => exact ih.stored hstored

/-- With another reference, an object is reached without the one under way.

**Proof sketch.** Another reference is held, or stored by an object. That object has a higher
rank, so it is not reached only through the one under way (`Reaches.of_addRefs`). -/
lemma Balanced.reaches_of_other {S : Finset ℕ} {b : ℕ} (hb : Balanced L h S (addRefs held [b]))
    (hmore : 1 < refs L h S (addRefs held [b]) b) : Reaches L h held b := by
  by_cases hheld : 0 < held b
  · exact .held hheld
  · have hsum : ∑ p ∈ S, stored L h p b ≠ 0 := by
      simp only [refs, addRefs, List.count_cons_self, List.count_nil] at hmore
      omega
    obtain ⟨p, hp, hne⟩ := Finset.exists_ne_zero_of_sum_ne_zero hsum
    have hstored : 0 < stored L h p b := Nat.pos_of_ne_zero hne
    have hlt := (hb.closed p hp b hstored).2
    -- the other object has a higher rank, so it is not reached through this one
    rcases (hb.reaches hp).of_addRefs hb with hr | ⟨c, hc, hpc⟩
    · exact hr.stored hstored
    · obtain rfl := List.mem_singleton.mp hc
      rcases hpc with rfl | hpc <;> omega

/-! ## The whole memory -/

/-- **Every object is accounted for.** The counts of the objects in memory are right, with the
references that are held; of the `n` objects that were created, those that are not in memory were
released, each once. -/
structure Accounted (L : Layout O) (h : Memory O) (n : ℕ) (held : ℕ → ℕ) : Prop where
  balanced : Balanced L h (h.live n) held
  fresh : ∀ a, n ≤ a → h.cells a = none
  freed_nodup : h.freed.Nodup
  freed_iff : ∀ a, a ∈ h.freed ↔ a < n ∧ h.cells a = none

/-- The live objects are those with a cell. -/
lemma Accounted.mem_live (hm : Accounted L h n held) {a : ℕ} : a ∈ h.live n ↔ h.cells a ≠ none := by
  rw [Memory.mem_live]
  refine ⟨And.right, fun hne => ⟨?_, hne⟩⟩
  by_contra hlt
  exact hne (hm.fresh a (by omega))

/-- An object that is shown is live. -/
lemma Accounted.mem_of_obj (hm : Accounted L h n held) {a : ℕ} {o : O} (ho : h.obj a = some o) :
    a ∈ h.live n := by
  rw [hm.mem_live]
  intro hnone
  rw [Memory.obj_eq_none_iff.mpr hnone] at ho
  cases ho

/-- The count of an object is the number of its references. -/
lemma Accounted.refs_lt (hm : Accounted L h n held) {a : ℕ} {o : O} (ho : h.obj a = some o)
    (hroom : ∀ c, h.count a = some c → c < L.maxCount) :
    refs L h (h.live n) held a < L.maxCount := by
  have := hroom _ (hm.balanced.count a (hm.mem_of_obj ho))
  omega

/-- Memory stays accounted for when it shrinks, with an object changed before.

**Proof sketch.** The objects left are exactly those of `S'`: the others were not live, or are
gone. The list of the released is continued by the releases, and none of them was released
before since it was live. -/
lemma Accounted.shrinks {S' : Finset ℕ} {h₀ : Memory O} {held' : ℕ → ℕ} (hm : Accounted L h n held)
    (hs : Shrinks h₀ (h.live n) h' S') (hb : Balanced L h' S' held')
    (hcells : ∀ a, h.cells a = none → h₀.cells a = none) (hfreed : h₀.freed = h.freed) :
    Accounted L h' n held' := by
  have hnone : ∀ a, a ∉ S' → h'.cells a = none := by
    intro a ha
    by_cases hal : a ∈ h.live n
    · exact hs.gone a hal ha
    · rw [hs.frame a hal]
      rw [hm.mem_live, not_not] at hal
      exact hcells a hal
  have hsome : ∀ a, a ∈ S' → h'.cells a ≠ none := fun a ha hc =>
    hb.obj_ne_none ha (Memory.obj_eq_none_iff.mpr hc)
  have hlive : h'.live n = S' := by
    ext a
    rw [Memory.mem_live]
    constructor
    · rintro ⟨-, hne⟩
      by_contra ha
      exact hne (hnone a ha)
    · intro ha
      exact ⟨(Memory.mem_live.mp (hs.sub ha)).1, hsome a ha⟩
  obtain ⟨l, hl, hnd, hmem⟩ := hs.freed
  refine ⟨by rwa [hlive], fun a ha => hnone a fun hS => ?_, ?_, fun a => ?_⟩
  · have := (Memory.mem_live.mp (hs.sub hS)).1
    omega
  · rw [hl, hfreed]
    refine List.nodup_append.mpr ⟨hm.freed_nodup, hnd, ?_⟩
    rintro a ha b hb' rfl
    exact (Memory.mem_live.mp ((hmem a).mp hb').1).2 ((hm.freed_iff a).mp ha).2
  · rw [hl, hfreed, List.mem_append, hm.freed_iff, hmem, Memory.mem_live]
    constructor
    · rintro (⟨hlt, hc⟩ | ⟨⟨hlt, -⟩, hna⟩)
      · exact ⟨hlt, hnone a fun hS => (Memory.mem_live.mp (hs.sub hS)).2 hc⟩
      · exact ⟨hlt, hnone a hna⟩
    · rintro ⟨hlt, hc⟩
      have hna : a ∉ S' := fun hS => hsome a hS hc
      by_cases hca : h.cells a = none
      · exact Or.inl ⟨hlt, hca⟩
      · exact Or.inr ⟨⟨hlt, hca⟩, hna⟩

/-- Memory stays accounted for when counts and objects change, but no object is released. -/
lemma Accounted.change {held' : ℕ → ℕ} (hm : Accounted L h n held)
    (hb : Balanced L h' (h.live n) held') (hcells : ∀ a, h'.cells a = none ↔ h.cells a = none)
    (hfreed : h'.freed = h.freed) : Accounted L h' n held' :=
  hm.shrinks (Shrinks.refl h' _) hb (fun a ha => (hcells a).mpr ha) hfreed

/-! ## References of others -/

/-- **A reference is taken.** -/
lemma Accounted.ref (hm : Accounted L h n held) {a : ℕ} {o : O} (ho : h.obj a = some o)
    (hroom : ∀ c, h.count a = some c → c < L.maxCount) :
    ∃ h', RefCount.ref L h a = some h' ∧ Accounted L h' n (addRefs held [a]) ∧ h'.obj = h.obj := by
  obtain ⟨h', href, hb, hobj, hcells, hfreed⟩ :=
    hm.balanced.ref (hm.mem_of_obj ho) (hm.refs_lt ho hroom)
  refine ⟨h', href, hm.change hb (fun b => ?_) hfreed, hobj⟩
  rw [← Memory.obj_eq_none_iff, ← Memory.obj_eq_none_iff, hobj]

/-- **A reference is let go.** -/
lemma Accounted.unref {a depth : ℕ} (hm : Accounted L h n (addRefs held [a]))
    (hdepth : rankAt L h a < depth) (hsafe : Safe L h (h.live n) held) :
    ∃ h', RefCount.unref L depth h a = some h' ∧ Accounted L h' n held ∧ h.Keeps h' := by
  obtain ⟨h', S', hunref, hgo⟩ := unref_spec depth hm.balanced hdepth hsafe
  exact ⟨h', hunref, hm.shrinks hgo.shrinks hgo.balanced (fun _ ha => ha) rfl, hgo.shrinks.keeps⟩

/-- **An object is created**; it stores references that were held.

**Proof sketch.** The address of the new object was never handed out, so it was not live and is
not among the released; the balance is `Balanced.alloc`. -/
lemma Accounted.new {l : List ℕ} (hm : Accounted L h n (addRefs held l)) {o : O}
    (hstores : (L.stores o).Perm l) (hl : ∀ a ∈ l, rankAt L h a < L.rank o) :
    Accounted L (h.alloc n o) (n + 1) (addRefs held [n]) := by
  have hn : n ∉ h.live n := fun hmem => lt_irrefl n (Memory.mem_live.mp hmem).1
  have hlive : (h.alloc n o).live (n + 1) = insert n (h.live n) := by
    ext a
    rw [Finset.mem_insert, Memory.mem_live, Memory.mem_live]
    by_cases han : a = n
    · subst han
      simp [h.cells_alloc_self]
    · rw [h.cells_alloc_of_ne n o han]
      have : a < n + 1 ↔ a < n := by omega
      simp [han, this]
  refine ⟨by rw [hlive]; exact hm.balanced.alloc hn hstores hl, fun a ha => ?_, hm.freed_nodup,
    fun a => ?_⟩
  · rw [h.cells_alloc_of_ne n o (by omega)]
    exact hm.fresh a (by omega)
  · by_cases han : a = n
    · subst han
      rw [h.cells_alloc_self]
      refine ⟨fun hmem => ?_, fun hc => nomatch hc.2⟩
      exact absurd ((hm.freed_iff a).mp hmem).1 (lt_irrefl a)
    · rw [h.cells_alloc_of_ne n o han]
      have : a < n + 1 ↔ a < n := by omega
      rw [this]
      exact hm.freed_iff a

/-! ## References of objects -/

section Fields

variable {p : ℕ} {o o' : O}

/-- The references of a field, taken out of it. -/
lemma Accounted.unstore (hm : Accounted L h n held) (ho : h.obj p = some o) {l : List ℕ}
    (hstores : (L.stores o).Perm (l ++ L.stores o')) (hrank : L.rank o' = L.rank o) :
    Balanced L (h.setObj p o') (h.live n) (addRefs held l) :=
  hm.balanced.unstore (hm.mem_of_obj ho) ho hstores hrank

/-- What is lost with the references of a field: their objects, and objects of lower ranks. -/
lemma Accounted.lost (hm : Accounted L h n held) (ho : h.obj p = some o) {l : List ℕ}
    (hstores : (L.stores o).Perm (l ++ L.stores o')) (hrank : L.rank o' = L.rank o) {a : ℕ}
    (ha : a ∈ h.live n) (hlost : ¬ Reaches L (h.setObj p o') held a) :
    ∃ b ∈ l, a = b ∨ rankAt L h a < rankAt L h b := by
  have hb := hm.unstore ho hstores hrank
  rcases (hb.reaches ha).of_addRefs hb with hr | ⟨b, hbl, hab⟩
  · exact absurd hr hlost
  · exact ⟨b, hbl, by rwa [rankAt_setObj ho hrank, rankAt_setObj ho hrank] at hab⟩

/-- When there is another reference to the object in a field, it is reached without the field. -/
lemma Accounted.reaches_of_other (hm : Accounted L h n held) (ho : h.obj p = some o) {b : ℕ}
    (hstores : (L.stores o).Perm ([b] ++ L.stores o')) (hrank : L.rank o' = L.rank o)
    (hmore : ∀ c, h.count b = some c → 1 < c) (hb : b ∈ h.live n) :
    Reaches L (h.setObj p o') held b := by
  have hbal := hm.unstore ho hstores hrank
  apply hbal.reaches_of_other
  have hcount := hbal.count b hb
  rw [h.count_setObj] at hcount
  exact_mod_cast hmore _ hcount

/-- What is in an object changes, but not what it stores. -/
lemma Accounted.setObj (hm : Accounted L h n held) (ho : h.obj p = some o)
    (hstores : (L.stores o').Perm (L.stores o)) (hrank : L.rank o' = L.rank o) :
    Accounted L (h.setObj p o') n held := by
  have hb : Balanced L (h.setObj p o') (h.live n) held :=
    Balanced.store (l := []) (by simpa using hm.balanced) (hm.mem_of_obj ho) ho hstores hrank
      (by simp)
  exact hm.change hb (fun a => Memory.cells_setObj_eq_none) rfl

/-- **An object stores one more reference**, after it was taken. -/
lemma Accounted.add (hm : Accounted L h n held) (ho : h.obj p = some o) {a : ℕ} {oa : O}
    (ha : h.obj a = some oa) (hroom : ∀ c, h.count a = some c → c < L.maxCount)
    (hstores : (L.stores o').Perm (a :: L.stores o)) (hrank : L.rank o' = L.rank o)
    (hlow : L.rank oa < L.rank o) :
    ∃ h', RefCount.ref L h a = some h' ∧ h'.obj = h.obj ∧ Accounted L (h'.setObj p o') n held := by
  obtain ⟨h', href, hm', hobj⟩ := hm.ref ha hroom
  have ho' : h'.obj p = some o := by rw [hobj, ho]
  refine ⟨h', href, hobj, hm'.change ?_ (fun a => Memory.cells_setObj_eq_none) rfl⟩
  refine hm'.balanced.store (hm'.mem_of_obj ho') ho' hstores hrank ?_
  intro b hb
  obtain rfl := List.mem_singleton.mp hb
  rw [rankAt, hobj, ha]
  exact hlow

/-- **An object lets go** of references, and then forgets them. -/
lemma Accounted.drop (hm : Accounted L h n held) (ho : h.obj p = some o) {l : List ℕ} {depth : ℕ}
    (hstores : (L.stores o).Perm (l ++ L.stores o')) (hrank : L.rank o' = L.rank o)
    (hdepth : L.rank o ≤ depth) (hsafe : Safe L (h.setObj p o') (h.live n) held) :
    ∃ h', unrefAll L depth h l = some h' ∧ h'.obj p = some o ∧
      Accounted L (h'.setObj p o') n held ∧ (h.setObj p o').Keeps (h'.setObj p o') := by
  obtain ⟨h', S', hall, hcell, hgo⟩ :=
    letGo_spec depth hm.balanced (hm.mem_of_obj ho) ho hstores hrank hdepth hsafe
  refine ⟨h', hall, by rw [Memory.obj_of_cells hcell, ho], ?_, hgo.shrinks.keeps⟩
  exact hm.shrinks hgo.shrinks hgo.balanced (fun a ha => Memory.cells_setObj_eq_none.mpr ha) rfl

/-- When objects are released, the others have no more references than before. -/
lemma Shrinks.refs_le {S S' : Finset ℕ} (hs : Shrinks h S h' S') (a : ℕ) :
    refs L h' S' held a ≤ refs L h S held a := by
  have hkept : ∑ q ∈ S', stored L h' q a = ∑ q ∈ S', stored L h q a :=
    Finset.sum_congr rfl fun q hq => stored_congr (hs.kept q hq) a
  have hsub := Finset.sum_le_sum_of_subset (f := fun q => stored L h q a) hs.sub
  simp only [refs]
  omega

/-- **An object replaces references** by one that is taken after they are let go. The new object
must not go with them: either it is among them, and reached otherwise, or its rank is not below
theirs.

**Proof sketch.** After `Accounted.drop` the new object is still in memory, and its references have
not become more, so there is room for one more. -/
lemma Accounted.replace (hm : Accounted L h n held) (ho : h.obj p = some o) {l : List ℕ} {depth : ℕ}
    (hstores : (L.stores o).Perm (l ++ L.stores o')) (hrank : L.rank o' = L.rank o)
    (hdepth : L.rank o ≤ depth) (hsafe : Safe L (h.setObj p o') (h.live n) held)
    {a : ℕ} {oa o'' : O} (ha : h.obj a = some oa) (hlow : L.rank oa < L.rank o)
    (hsame : a ∈ l → Reaches L (h.setObj p o') held a)
    (hother : a ∉ l → (∀ b ∈ l, rankAt L h b ≤ L.rank oa) ∧
      ∀ c, h.count a = some c → c < L.maxCount)
    (hstores' : (L.stores o'').Perm (a :: L.stores o')) (hrank' : L.rank o'' = L.rank o) :
    ∃ h₁ h₂, unrefAll L depth h l = some h₁ ∧ h₁.obj p = some o ∧ RefCount.ref L h₁ a = some h₂ ∧
      h₂.obj p = some o ∧ Accounted L (h₂.setObj p o'') n held ∧
      (h.setObj p o'').Keeps (h₂.setObj p o'') := by
  have hp := hm.mem_of_obj ho
  have hne : h.obj p ≠ none := by simp [ho]
  have hamem := hm.mem_of_obj ha
  have hap : a ≠ p := by
    rintro rfl
    rw [ho] at ha
    obtain rfl := Option.some.inj ha
    exact lt_irrefl _ hlow
  obtain ⟨h₁, S', hall, hcell, hgo⟩ :=
    letGo_spec depth hm.balanced hp ho hstores hrank hdepth hsafe
  have hb := hgo.balanced
  have hs := hgo.shrinks
  have ho₁ : h₁.obj p = some o := by rw [Memory.obj_of_cells hcell, ho]
  -- the new object is not released
  have haS' : a ∈ S' := by
    by_cases hal : a ∈ l
    · exact hgo.mem_of_reaches (hsame hal)
    · refine hgo.mem_of_rank hamem hal fun b hbl => ?_
      have hra : rankAt L h a = L.rank oa := by
        rw [rankAt, ha]
        rfl
      rw [rankAt_setObj ho hrank, rankAt_setObj ho hrank, hra]
      exact (hother hal).1 b hbl
  -- and there is room for one more reference to it
  have hroom : refs L (h₁.setObj p o') S' held a < L.maxCount := by
    have hle : refs L (h₁.setObj p o') S' held a ≤ refs L (h.setObj p o') (h.live n) held a :=
      hs.refs_le a
    have hset := refs_setObj L held hp hne o' a
    rw [stored_of_obj ho, hstores.count_eq, List.count_append] at hset
    by_cases hal : a ∈ l
    · have := List.count_pos_iff.mpr hal
      have := hm.balanced.le a hamem
      omega
    · have := hm.refs_lt ha (hother hal).2
      omega
  have hm₁ : Accounted L (h₁.setObj p o') n held :=
    hm.shrinks hs hb (fun b hb => Memory.cells_setObj_eq_none.mpr hb) rfl
  have ha₁ : (h₁.setObj p o').obj a = some oa := by
    rw [hs.kept a haS', h.obj_setObj_of_ne p o' hap, ha]
  obtain ⟨h₂', href', hobj₂, hm₂⟩ := hm₁.add (h₁.obj_setObj_self p o' (by simp [ho₁])) ha₁
    (fun c hc => by
      rw [hb.count a haS'] at hc
      obtain rfl := Option.some.inj hc
      exact_mod_cast hroom) hstores' (hrank'.trans hrank.symm) (by rw [hrank]; exact hlow)
  rw [ref_setObj] at href'
  obtain ⟨h₂, href, rfl⟩ := Option.map_eq_some_iff.mp href'
  rw [Memory.setObj_setObj] at hm₂
  have hkeeps : (h.setObj p o').Keeps (h₂.setObj p o') := by
    intro b ob hb'
    rw [hobj₂] at hb'
    exact hs.keeps b ob hb'
  exact ⟨h₁, h₂, hall, ho₁, href, by rw [obj_of_ref href, ho₁], hm₂, hkeeps.setObj hne o''⟩

end Fields

end RefCount
