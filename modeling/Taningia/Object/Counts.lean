import Taningia.Object.Calls

set_option relaxedAutoImplicit false
set_option autoImplicit false

/-!
# Reference counts are numbers of references

As long as the calls do not come upon a defect, the count of every object in memory is the number of
references to it: those that the caller holds, and the fields and list slots of objects in memory
that store it. So an object is in memory as long as there is a reference to it, and is released
once.

## Main definitions

* `Taningia.Refs.InOrder` — all objects are accounted for, and stored in fields of their kinds.
* `Taningia.Refs.RefCounts` — the counts are right, and objects are released once.

## Main results

* `Taningia.Refs.InOrder.setField`, `Taningia.Refs.InOrder.appendTo`,
  `Taningia.Refs.InOrder.emptyList` — the specifications of the bodies.
* `Taningia.Refs.step_inOrder` — every careful call succeeds and keeps all in order.
* `Taningia.Refs.refCounts_of_careful` — so does every run of careful calls.
-/

namespace Taningia.Refs

open RefCount

variable {h h' : AtomMemory} {n p a : ℕ} {held : ℕ → ℕ} {o o' : AtomObj}

/-! ## Objects in order -/

/-- The objects in the fields are of the kinds of the fields. -/
def Typed (h : AtomMemory) : Prop := ∀ p o, h.obj p = some o → ∀ x ∈ o.slots, IsKind h x.2 x.1

/-- **All is in order**: every object is accounted for, and is stored in fields of its kind. -/
structure InOrder (h : AtomMemory) (n : ℕ) (held : ℕ → ℕ) : Prop where
  accounted : Accounted atomLayout h n held
  typed : Typed h

/-- At an address of a kind there is an object of this kind. -/
lemma IsKind.exists_obj {k : Kind} (hk : IsKind h a k) : ∃ o, h.obj a = some o ∧ o.kind = k :=
  Option.map_eq_some_iff.mp hk

/-- The kind of the object at an address of a kind. -/
lemma kind_of_isKind {k : Kind} (ho : h.obj a = some o) (hk : IsKind h a k) : o.kind = k := by
  rw [IsKind, ho] at hk
  exact Option.some.inj hk

/-- Objects of different kinds are different. -/
lemma IsKind.ne {b : ℕ} {k k' : Kind} (ha : IsKind h a k) (hb : IsKind h b k') (hk : k ≠ k') :
    a ≠ b := by
  rintro rfl
  exact hk (Option.some.inj (ha.symm.trans hb))

/-- The kind of an address is the kind of its object. -/
lemma isKind_of_obj (ho : h.obj a = some o) : IsKind h a o.kind := by
  rw [IsKind, ho]
  rfl

/-- The rank of an address is the rank of its kind. -/
lemma rankAt_of_kind {k : Kind} (hk : IsKind h a k) : rankAt atomLayout h a = k.rank := by
  obtain ⟨o, ho, rfl⟩ := hk.exists_obj
  rw [rankAt, ho]
  rfl

/-- An object stores what one of its slots has. -/
lemma mem_stores_iff : a ∈ o.stores ↔ ∃ k, (k, a) ∈ o.slots := by
  simp [AtomObj.stores]

/-- The kinds stay when an object changes to one of its kind. -/
lemma isKind_setObj (ho : h.obj p = some o) (hkind : o'.kind = o.kind) (b : ℕ) (k : Kind) :
    IsKind (h.setObj p o') b k ↔ IsKind h b k := by
  by_cases hbp : b = p
  · subst hbp
    rw [IsKind, IsKind, h.obj_setObj_self b o' (by simp [ho]), ho, Option.map_some, Option.map_some,
      hkind]
  · rw [IsKind, IsKind, h.obj_setObj_of_ne p o' hbp]

/-- The fields are in order when an object changes, and stores nothing else but what is of the kinds
of its fields. -/
lemma Typed.setObj (ht : Typed h) (ho : h.obj p = some o) (hkind : o'.kind = o.kind)
    (hslots : ∀ x ∈ o'.slots, x ∈ o.slots ∨ IsKind h x.2 x.1) : Typed (h.setObj p o') := by
  intro q oq hq x hx
  rw [isKind_setObj ho hkind]
  by_cases hqp : q = p
  · subst hqp
    rw [h.obj_setObj_self q o' (by simp [ho])] at hq
    obtain rfl := Option.some.inj hq
    rcases hslots x hx with hmem | hk
    · exact ht q o ho x hmem
    · exact hk
  · rw [h.obj_setObj_of_ne p o' hqp] at hq
    exact ht q oq hq x hx

/-- The fields are in order when objects were released that are not stored any more. -/
lemma Typed.keeps (ht : Typed h) (hk : h.Keeps h') (hm : Accounted atomLayout h' n held) :
    Typed h' := by
  intro q oq hq x hx
  obtain ⟨ox, hox, hkind⟩ := (ht q oq (hk q oq hq) x hx).exists_obj
  have hstored : 0 < stored atomLayout h' q x.2 := by
    rw [stored_of_obj hq]
    exact List.count_pos_iff.mpr (mem_stores_iff.mpr ⟨x.1, hx⟩)
  have hlive := (hm.balanced.closed q (hm.mem_of_obj hq) x.2 hstored).1
  obtain ⟨ox', hox'⟩ := Option.ne_none_iff_exists'.mp (hm.balanced.obj_ne_none hlive)
  rw [hk x.2 ox' hox'] at hox
  obtain rfl := Option.some.inj hox
  rw [IsKind, hox', Option.map_some, hkind]

/-- A heap with the same objects is typed alike. -/
lemma Typed.of_obj (ht : Typed h) (hobj : h'.obj = h.obj) : Typed h' := by
  intro q oq hq x hx
  rw [IsKind, hobj]
  rw [hobj] at hq
  exact ht q oq hq x hx

/-- What is lost is freed whole, so the destructors are sound. -/
lemma LosesWhole.safe {S : Finset ℕ} (hl : LosesWhole h held) : Safe atomLayout h S held :=
  fun b _ ob hob hlost => (sound_iff ob).mpr (hl b ob hob hlost)

/-! ## Fields -/

section Slots

variable {V : Type} {items : V → List ℕ} (f : Slot V items) {v w : V}

/-- What an object stores when a field is assigned, against an empty one. -/
lemma Slot.stores_set (hget : f.get o = some v) (hw : items w = []) :
    o.stores.Perm (items v ++ (f.set o w).stores) := by
  rw [List.perm_iff_count]
  intro b
  have hset := f.count_set o v w b hget
  rw [hw, List.count_nil] at hset
  rw [List.count_append]
  omega

/-- What an object stores after an assignment, from what it stores with the slot empty. -/
lemma Slot.stores_set_of_empty {u : V} (hget : f.get o = some v) (hw : items w = []) :
    (f.set o u).stores.Perm (items u ++ (f.set o w).stores) := by
  rw [List.perm_iff_count]
  intro b
  have hset := f.count_set o v w b hget
  have hset' := f.count_set o v u b hget
  rw [hw, List.count_nil] at hset
  rw [List.count_append]
  omega

/-- An assigned slot leaves the rank. -/
lemma Slot.rank_set (o : AtomObj) (w : V) :
    atomLayout.rank (f.set o w) = atomLayout.rank o := by
  show (f.set o w).kind.rank = o.kind.rank
  rw [f.kind_set]

/-- An object of the owner's kind has the slot. -/
lemma Slot.exists_obj (hp : IsKind h p f.owner) : ∃ o v, h.obj p = some o ∧ f.get o = some v := by
  obtain ⟨o, ho, hkind⟩ := hp.exists_obj
  obtain ⟨v, hv⟩ := f.exists_get o hkind
  exact ⟨o, v, ho, hv⟩

/-- The fields are in order when one is assigned objects of its kind. -/
lemma Typed.set (ht : Typed h) (ho : h.obj p = some o) (hget : f.get o = some v)
    (hitems : ∀ b ∈ items w, b ∈ items v ∨ IsKind h b f.item) (hkind : o'.kind = o.kind)
    (hslots : o'.slots = (f.set o w).slots) : Typed (h.setObj p o') := by
  refine ht.setObj ho hkind fun x hx => ?_
  rw [hslots] at hx
  rcases f.slot_set o v w x hget hx with hmem | ⟨hitem, hmem⟩
  · exact Or.inl hmem
  · rcases hitems x.2 hmem with hold | hk
    · refine Or.inl ?_
      have := f.slot_get o v x.2 hget hold
      rwa [← hitem] at this
    · exact Or.inr (hitem ▸ hk)

end Slots

/-- **What is lost with an IRI** is the IRI.

**Proof sketch.** Everything lost is the IRI itself or lies below it in rank; an IRI is of the
least rank, so it is the IRI, and the release of an IRI frees all that an IRI stores, which is
nothing. -/
lemma InOrder.safe_of_iri (hok : InOrder h n held) {f : RefSlot} {old : Option ℕ}
    (ho : h.obj p = some o) (hget : f.get o = some old) (hiri : f.item = .iri) :
    Safe atomLayout (h.setObj p (f.set o none)) (h.live n) held := by
  intro b hb ob hob hlost
  obtain ⟨c, hc, hbc⟩ := hok.accounted.lost ho (f.stores_set hget rfl) (f.rank_set o none) hb hlost
  have hck : IsKind h c .iri := by
    have := hok.typed p o ho _ (f.slot_get o old c hget hc)
    rwa [hiri] at this
  rcases hbc with rfl | hlt
  · rw [← isKind_setObj ho (f.kind_set o none)] at hck
    obtain ⟨oc, hoc, hkind⟩ := hck.exists_obj
    rw [hob] at hoc
    obtain rfl := Option.some.inj hoc
    rw [sound_iff]
    cases ob with
    | iri => trivial
    | _ => cases hkind
  · rw [rankAt_of_kind hck] at hlt
    exact absurd hlt (Nat.not_lt_zero _)

/-- Nothing is lost with a reference to an object that has another one. -/
lemma InOrder.safe_of_other (hok : InOrder h n held) {f : RefSlot} (ho : h.obj p = some o)
    (hget : f.get o = some (some a)) (ha : a ∈ h.live n) (hmore : HasOther h a) :
    Reaches atomLayout (h.setObj p (f.set o none)) held a ∧
      Safe atomLayout (h.setObj p (f.set o none)) (h.live n) held := by
  have hstores := f.stores_set (w := none) hget rfl
  have hreach := hok.accounted.reaches_of_other ho hstores (f.rank_set o none) hmore ha
  refine ⟨hreach, fun b hb ob _ hlost => absurd ?_ hlost⟩
  have hbal := hok.accounted.unstore ho hstores (f.rank_set o none)
  refine (hbal.reaches hb).of_reaches fun c hc => ?_
  obtain rfl := List.mem_singleton.mp hc
  exact hreach

/-- No rank is above four. -/
lemma rank_le (o : AtomObj) : atomLayout.rank o ≤ 4 := (Kind.rank_lt o.kind).le

/-- **A field is assigned**: the object that it has is let go, and a reference to the other is
taken. What the object becomes is the object with the field assigned, but for a text.

**Proof sketch.** The old object is let go first, with the field still on it: the memory with
the field emptied is in order with the old reference under way, and what is lost with it is safe
(the object assigned again, another reference to it, or an IRI). Then a reference to the new
object is taken, which is still there and ranks below, and stored in the field. -/
lemma InOrder.replace (hok : InOrder h n held) {f : RefSlot} {old : Option ℕ}
    (ho : h.obj p = some o) (hget : f.get o = some old) (ha : IsKind h a f.item)
    (hset : CanSet f h held p a)
    (hkind : o'.kind = o.kind) (hslots : o'.slots = (f.set o (some a)).slots) :
    ∃ h₁ h₂, unrefField h old = some h₁ ∧ h₁.obj p = some o ∧ objectRef h₁ a = some h₂ ∧
      h₂.obj p = some o ∧ InOrder (h₂.setObj p o') n held := by
  obtain ⟨oa, hoa, hka⟩ := ha.exists_obj
  have hset := hset o ho
  have halive := hok.accounted.mem_of_obj hoa
  have hlow : atomLayout.rank oa < atomLayout.rank o := by
    show oa.kind.rank < o.kind.rank
    rw [hka, f.kind_of_get o old hget]
    exact f.item_lt
  have hsafe : Safe atomLayout (h.setObj p (f.set o none)) (h.live n) held := by
    split_ifs at hset with hsame
    · exact (hok.safe_of_other ho hsame halive hset).2
    · by_cases hiri : f.item = .iri
      · exact hok.safe_of_iri ho hget hiri
      · exact (hset.2 hiri).safe
  have hstores' : (atomLayout.stores o').Perm (a :: atomLayout.stores (f.set o none)) := by
    have hperm := f.stores_set_of_empty (u := some a) (w := none) hget rfl
    show (o'.slots.map Prod.snd).Perm _
    rw [hslots]
    exact hperm
  obtain ⟨h₁, h₂, hall, ho₁, href, ho₂, hm, hkeeps⟩ := hok.accounted.replace ho
    (f.stores_set hget rfl) (f.rank_set o none) (rank_le o) hsafe hoa hlow
    (fun hal => by
      obtain rfl : old = some a := Option.mem_toList.mp hal
      rw [if_pos hget] at hset
      exact (hok.safe_of_other ho hget halive hset).1)
    (fun hal => by
      have hne : f.get o ≠ some (some a) := by
        intro hsame
        rw [hget] at hsame
        obtain rfl := Option.some.inj hsame
        exact hal (by simp)
      rw [if_neg hne] at hset
      refine ⟨fun b hb => ?_, hset.1⟩
      rw [rankAt_of_kind (hok.typed p o ho _ (f.slot_get o old b hget hb)), ← hka]
      exact le_rfl)
    hstores' (by show o'.kind.rank = o.kind.rank; rw [hkind])
  refine ⟨h₁, h₂, by rw [unrefField_eq]; exact hall, ho₁, href, ho₂, hm, ?_⟩
  have htyped : Typed (h.setObj p o') := by
    refine hok.typed.set f ho hget (fun b hb => ?_) hkind hslots
    obtain rfl : a = b := Option.some.inj (Option.mem_toList.mp hb)
    exact Or.inr ha
  exact htyped.keeps hkeeps hm

/-- `setField` keeps all in order. -/
lemma InOrder.setField (hok : InOrder h n held) {f : RefSlot} (hp : IsKind h p f.owner)
    (ha : IsKind h a f.item) (hset : CanSet f h held p a) :
    ∃ h', Refs.setField f h p a = some h' ∧ InOrder h' n held := by
  obtain ⟨o, old, ho, hget⟩ := f.exists_obj hp
  obtain ⟨h₁, h₂, hunref, -, href, ho₂, hok'⟩ :=
    hok.replace ho hget ha hset (f.kind_set o (some a)) rfl
  refine ⟨_, ?_, hok'⟩
  simp only [Refs.setField, ho, Option.bind_eq_bind, Option.bind_some, hget, hunref, href]
  exact Memory.write_eq ho₂ _

/-- **A field is emptied**, or a list: what it has is let go.

**Proof sketch.** What the slot has is taken out of the object and is under way; `hsafe` lets it
go. The object itself is left, so it can be written with the slot empty, and the types stay
because an empty slot has nothing to type. -/
lemma InOrder.drop (hok : InOrder h n held) {V : Type} {items : V → List ℕ} (f : Slot V items)
    {v : V} (w : V) (hw : items w = []) (ho : h.obj p = some o) (hget : f.get o = some v)
    (hkind : o'.kind = o.kind) (hslots : o'.slots = (f.set o w).slots)
    (hsafe : Safe atomLayout (h.setObj p o') (h.live n) held) :
    ∃ h', objectUnrefAll h (items v) = some h' ∧ h'.obj p = some o ∧
      InOrder (h'.setObj p o') n held := by
  have hrank : atomLayout.rank o' = atomLayout.rank o := congrArg Kind.rank hkind
  have hstores : (atomLayout.stores o).Perm (items v ++ atomLayout.stores o') := by
    have hperm := f.stores_set (w := w) hget hw
    show o.stores.Perm (items v ++ o'.slots.map Prod.snd)
    rw [hslots]
    exact hperm
  obtain ⟨h', hall, ho', hm, hkeeps⟩ :=
    hok.accounted.drop ho hstores hrank (rank_le o) hsafe
  refine ⟨h', hall, ho', hm, ?_⟩
  have htyped : Typed (h.setObj p o') :=
    hok.typed.set f ho hget (fun b hb => by simp [hw] at hb) hkind hslots
  exact htyped.keeps hkeeps hm

/-- `clearField` keeps all in order, for an IRI. -/
lemma InOrder.clearField (hok : InOrder h n held) {f : RefSlot} (hiri : f.item = .iri)
    (ho : h.obj p = some o) (hkind : o.kind = f.owner) :
    ∃ h', Refs.clearField f h p = some h' ∧ h'.obj p = some (f.set o none) ∧ InOrder h' n held := by
  obtain ⟨old, hget⟩ := f.exists_get o hkind
  obtain ⟨h', hall, ho', hok'⟩ := hok.drop f none rfl ho hget (f.kind_set o none) rfl
    (hok.safe_of_iri ho hget hiri)
  refine ⟨h'.setObj p (f.set o none), ?_, h'.obj_setObj_self p _ (by simp [ho']), hok'⟩
  simp only [Refs.clearField, ho, Option.bind_eq_bind, Option.bind_some, hget, unrefField_eq, hall]
  exact Memory.write_eq ho' _

/-! ## Lists -/

/-- `appendTo` keeps all in order.

**Proof sketch.** The list is one that can be walked. The new element ranks below the owner, and
what the object stores with the element appended is what it stored before and the element, so
taking a reference and storing it balances. -/
lemma InOrder.appendTo (hok : InOrder h n held) {f : ListSlot} (hp : IsKind h p f.owner)
    (ha : IsKind h a f.item) (hroom : HasRoom h a)
    (hlist : ∀ o list, h.obj p = some o → f.get o = some list → list.walk ≠ none) :
    ∃ h', Refs.appendTo f h p a = some h' ∧ InOrder h' n held := by
  obtain ⟨o, list, ho, hget⟩ := f.exists_obj hp
  obtain ⟨oa, hoa, hka⟩ := ha.exists_obj
  have hwalk := ListPtr.walk_eq (hlist o list ho hget)
  have hlow : atomLayout.rank oa < atomLayout.rank o := by
    show oa.kind.rank < o.kind.rank
    rw [hka, f.kind_of_get o list hget]
    exact f.item_lt
  have hstores : (f.set o (.nodes (list.items ++ [a]))).stores.Perm (a :: o.stores) := by
    rw [List.perm_iff_count]
    intro b
    have hset := f.count_set o list (.nodes (list.items ++ [a])) b hget
    simp only [ListPtr.items, List.count_append, List.count_cons, List.count_nil] at hset ⊢
    omega
  obtain ⟨h', href, hobj, hm⟩ := hok.accounted.add ho hoa hroom hstores (f.rank_set o _) hlow
  have ho' : h'.obj p = some o := by rw [hobj, ho]
  refine ⟨_, ?_, hm, ?_⟩
  · simp only [Refs.appendTo, objectRef, href, Option.bind_eq_bind, Option.bind_some, ho', hget,
      hwalk]
    exact Memory.write_eq ho' _
  · refine (hok.typed.of_obj hobj).set f ho' hget (fun b hb => ?_) (f.kind_set o _) rfl
    rcases List.mem_append.mp hb with hold | hnew
    · exact Or.inl hold
    · obtain rfl := List.mem_singleton.mp hnew
      refine Or.inr ?_
      rw [IsKind, hobj]
      exact ha

/-- `emptyList` keeps all in order. -/
lemma InOrder.emptyList (hok : InOrder h n held) {f : ListSlot} (hp : IsKind h p f.owner)
    (hlist : ∀ o list, h.obj p = some o → f.get o = some list →
      list.walk ≠ none ∧ LosesWhole (h.setObj p (f.set o (.nodes []))) held) :
    ∃ h', Refs.emptyList f h p = some h' ∧ InOrder h' n held := by
  obtain ⟨o, list, ho, hget⟩ := f.exists_obj hp
  obtain ⟨hne, hloses⟩ := hlist o list ho hget
  obtain ⟨h', hall, ho', hok'⟩ :=
    hok.drop f (.nodes []) rfl ho hget (f.kind_set o _) rfl hloses.safe
  refine ⟨_, ?_, hok'⟩
  simp only [Refs.emptyList, ho, Option.bind_eq_bind, Option.bind_some, hget, ListPtr.walk_eq hne,
    hall]
  exact Memory.write_eq ho' _

/-- `entryDelSee` does nothing to a list without elements.

**Proof sketch.** The loop over an empty list does nothing, and the object written is the one
that was there. -/
lemma InOrder.entryDelSee (hok : InOrder h n held) (hp : IsKind h p .entry)
    (hempty : ∀ e, h.obj p = some (.entry e) → e.extElements = .nodes []) :
    ∃ h', Refs.entryDelSee h p = some h' ∧ InOrder h' n held := by
  obtain ⟨o, ho, hkind⟩ := hp.exists_obj
  cases o with
  | entry e =>
    have hext := hempty e ho
    have hsame : entryExtElements.set (.entry e) (.nodes []) = .entry e := by
      show AtomObj.entry { e with extElements := .nodes [] } = .entry e
      rw [← hext]
    refine ⟨h.setObj p (.entry e), ?_, hok.accounted.setObj ho (List.Perm.refl _) rfl, ?_⟩
    · have hget : entryExtElements.get (.entry e) = some (.nodes []) := congrArg some hext
      simp only [Refs.entryDelSee, ho, Option.bind_eq_bind, Option.bind_some, hget, ListPtr.walk,
        List.foldlM_nil, Option.pure_def]
      rw [Memory.write_eq ho, hsame]
    · exact hok.typed.setObj ho rfl fun x hx => Or.inl hx
  | _ => cases hkind

/-- `entryDelInreplyto` keeps all in order when there are no extension elements.

**Proof sketch.** Without extension elements the call empties the list of replies and writes the
list of extension elements as empty as it was, so `InOrder.drop` applies to the list of replies. -/
lemma InOrder.entryDelInreplyto (hok : InOrder h n held) (hp : IsKind h p .entry)
    (hcare : ∀ e, h.obj p = some (.entry e) → e.inReplyTo.walk ≠ none ∧ e.extElements.items = [] ∧
      LosesWhole (h.setObj p (forgetReplies e.inReplyTo.items (.entry e))) held) :
    ∃ h', Refs.entryDelInreplyto h p = some h' ∧ InOrder h' n held := by
  obtain ⟨o, ho, hkind⟩ := hp.exists_obj
  cases o with
  | entry e =>
    obtain ⟨hwalk, hext, hloses⟩ := hcare e ho
    have hslots : (forgetReplies e.inReplyTo.items (.entry e)).slots =
        (entryInReplyTo.set (.entry e) (.nodes [])).slots := by
      have hnone : (if e.inReplyTo.items = [] then ListPtr.nodes [] else .freed).items = [] := by
        split_ifs <;> rfl
      simp only [forgetReplies, entryExtElements, entryInReplyTo, AtomObj.slots, hext, hnone]
      rfl
    have hkind' : (forgetReplies e.inReplyTo.items (.entry e)).kind = (AtomObj.entry e).kind := rfl
    obtain ⟨h', hall, ho', hok'⟩ := hok.drop entryInReplyTo (.nodes []) rfl ho rfl hkind' hslots
      hloses.safe
    refine ⟨_, ?_, hok'⟩
    have hget : entryInReplyTo.get (.entry e) = some e.inReplyTo := rfl
    simp only [Refs.entryDelInreplyto, ho, Option.bind_eq_bind, Option.bind_some, hget,
      ListPtr.walk_eq hwalk, hall]
    exact Memory.write_eq ho' _
  | _ => cases hkind

/-! ## Contents -/

/-- Another text does not matter. -/
lemma InOrder.setText (hok : InOrder h n held) {text text' : TextPtr} {src : Option ℕ}
    (ho : h.obj p = some (.content text src)) :
    InOrder (h.setObj p (.content text' src)) n held where
  accounted := hok.accounted.setObj ho (List.Perm.refl _) rfl
  typed := hok.typed.setObj ho rfl fun _ hx => Or.inl hx

/-- `contentSetSrc` keeps all in order, unless it comes upon a text that was released.

**Proof sketch.** Without a source the call takes a reference and writes it, as
`InOrder.replace` says of a field that is empty. With a source the old one is let go and the
text released in between, which changes neither the counts nor what is stored. -/
lemma InOrder.contentSetSrc (hok : InOrder h n held) (hp : IsKind h p .content)
    (ha : IsKind h a .iri) (hset : CanSet contentSrc h held p a)
    (htext : ∀ src, h.obj p ≠ some (.content .freed (some src))) :
    ∃ h', Refs.contentSetSrc h p a = some h' ∧ InOrder h' n held := by
  obtain ⟨o, ho, hkind⟩ := hp.exists_obj
  cases o with
  | content text src =>
    cases src with
    | none =>
      obtain ⟨h₁, h₂, hunref, -, href, ho₂, hok'⟩ :=
        hok.replace (f := contentSrc) ho rfl ha hset (contentSrc.kind_set _ (some a)) rfl
      obtain rfl : h = h₁ := Option.some.inj hunref
      refine ⟨_, ?_, hok'⟩
      simp only [Refs.contentSetSrc, ho, Option.bind_eq_bind, Option.bind_some, href]
      exact Memory.write_eq ho₂ _
    | some old =>
      have hfree : text.free = some () := TextPtr.free_eq fun e => htext old (e ▸ ho)
      -- the text is written between, which changes neither the count nor what is stored
      have hkind' :
          (AtomObj.content .null (some a)).kind = (AtomObj.content text (some old)).kind := rfl
      obtain ⟨h₁, h₂, hunref, ho₁, href, ho₂, hok'⟩ :=
        hok.replace (f := contentSrc) ho rfl ha hset hkind' rfl
      have href' : objectRef (h₁.setObj p (.content .null (some old))) a =
          some (h₂.setObj p (.content .null (some old))) := by
        rw [objectRef, ref_setObj]
        exact congrArg (Option.map _) href
      have ho₂' : (h₂.setObj p (.content .null (some old))).obj p =
          some (.content .null (some old)) := h₂.obj_setObj_self p _ (by simp [ho₂])
      refine ⟨_, ?_, hok'⟩
      have hunref' : objectUnref h old = some h₁ := hunref
      simp only [Refs.contentSetSrc, ho, Option.bind_eq_bind, Option.bind_some, hunref', hfree,
        Memory.write_eq ho₁, Refs.setText, href']
      rw [Memory.write_eq ho₂', Memory.setObj_setObj]
      rfl
  | _ => cases hkind

/-- `contentSetContent` keeps all in order, unless it comes upon a text that was released.

**Proof sketch.** The new text is assigned at the end of every branch, which changes only the
text. In front of it the old text is released, which is allowed since it was not released
before, and with a new text the source is let go, an IRI. -/
lemma InOrder.contentSetContent (hok : InOrder h n held) (hp : IsKind h p .content) (text : Bool)
    (len : ℕ) (hfreed : ∀ src, h.obj p ≠ some (.content .freed src)) :
    ∃ h', Refs.contentSetContent h p text len = some h' ∧ InOrder h' n held := by
  -- the new text is assigned last
  have hlast : ∀ {h₁ : AtomMemory} {t : TextPtr} {src : Option ℕ}, InOrder h₁ n held →
      h₁.obj p = some (.content t src) → ∃ h',
        (if text && len != 0 then h₁.write p (Refs.setText .owned) else some h₁) = some h' ∧
          InOrder h' n held := by
    intro h₁ t src hok₁ ho₁
    split_ifs
    · exact ⟨_, Memory.write_eq ho₁ _, hok₁.setText ho₁⟩
    · exact ⟨h₁, rfl, hok₁⟩
  obtain ⟨o, ho, hkind⟩ := hp.exists_obj
  cases o with
  | content old src =>
    cases old with
    | null =>
      obtain ⟨h', hh', hok'⟩ := hlast hok ho
      refine ⟨h', ?_, hok'⟩
      simp only [Refs.contentSetContent, ho, Option.bind_eq_bind, Option.bind_some]
      exact hh'
    | freed => exact absurd ho (hfreed src)
    | owned =>
      have hok₁ : InOrder (h.setObj p (.content .freed src)) n held := hok.setText ho
      have ho₁ : (h.setObj p (.content .freed src)).obj p = some (.content .freed src) :=
        h.obj_setObj_self p _ (by simp [ho])
      cases text with
      | false =>
        refine ⟨_, ?_, hok₁⟩
        simp only [Refs.contentSetContent, ho, Option.bind_eq_bind, Option.bind_some, TextPtr.free,
          Memory.write_eq ho, Refs.setText]
        rfl
      | true =>
        obtain ⟨h₂, hclear, ho₂, hok₂⟩ := hok₁.clearField (f := contentSrc) rfl ho₁ rfl
        obtain ⟨h', hh', hok'⟩ := hlast hok₂ ho₂
        refine ⟨h', ?_, hok'⟩
        simp only [Refs.contentSetContent, ho, Option.bind_eq_bind, Option.bind_some, TextPtr.free,
          Memory.write_eq ho, Refs.setText, if_true, hclear]
        exact hh'
  | _ => cases hkind

/-- `setString` changes nothing that is stored. -/
lemma setString_eq (hp : h.obj p ≠ none) (hfreed : h.obj p ≠ some (.simpleElement .freed)) :
    setString h p = some h := by
  obtain ⟨o, ho⟩ := Option.ne_none_iff_exists'.mp hp
  cases o with
  | simpleElement strings =>
    have hfree : strings.free = some () := TextPtr.free_eq fun e => hfreed (e ▸ ho)
    simp only [setString, ho, Option.bind_eq_bind, Option.bind_some, hfree]
  | _ => simp only [setString, ho, Option.bind_eq_bind, Option.bind_some]

/-! ## Objects and references of the caller -/

/-- Every object is among those made so far. -/
lemma InOrder.lt_size (hok : InOrder h n held) {k : Kind} (ha : IsKind h a k) : a < n := by
  obtain ⟨o, ho, -⟩ := ha.exists_obj
  exact (Memory.mem_live.mp (hok.accounted.mem_of_obj ho)).1

section Create

variable {w : World}

/-- A new object is read back. -/
lemma obj_create_self (w : World) (o : AtomObj) : (w.create o).heap.obj w.size = some o :=
  w.heap.obj_alloc_self w.size o

/-- Behind a new object the others are what they were. -/
lemma obj_create_of_ne {b : ℕ} (hb : b ≠ w.size) (o : AtomObj) :
    (w.create o).heap.obj b = w.heap.obj b := Memory.obj_alloc_of_ne hb o

/-- A new object is counted once. -/
lemma count_create_self (w : World) (o : AtomObj) : (w.create o).heap.count w.size = some 1 :=
  w.heap.count_alloc_self w.size o

/-- The other counts stay when an object is made. -/
lemma count_create_of_ne {b : ℕ} (hb : b ≠ w.size) (o : AtomObj) :
    (w.create o).heap.count b = w.heap.count b := Memory.count_alloc_of_ne hb o

/-- The other kinds stay when an object is made. -/
lemma isKind_create {k : Kind} (ha : IsKind w.heap a k) (hlt : a < w.size) (o : AtomObj) :
    IsKind (w.create o).heap a k := by
  rwa [IsKind, obj_create_of_ne hlt.ne]

end Create

/-- A new object is in order, when the references that it stores were taken.

**Proof sketch.** The references the object stores are those under way, so the balance is
`Balanced.alloc`. The slots of the new object are typed by `hkinds`, those of the others as
before. -/
lemma InOrder.create {w : World} {l : List ℕ} (hok : InOrder w.heap w.size (addRefs w.held l))
    (hstores : o.stores = l) (hkinds : ∀ x ∈ o.slots, IsKind w.heap x.2 x.1)
    (hranks : ∀ x ∈ o.slots, x.1.rank < o.kind.rank) :
    InOrder (w.create o).heap (w.create o).size (w.create o).held := by
  have hlow : ∀ b ∈ l, rankAt atomLayout w.heap b < atomLayout.rank o := by
    intro b hb
    obtain ⟨k, hk⟩ := mem_stores_iff.mp (hstores ▸ hb)
    rw [rankAt_of_kind (hkinds _ hk)]
    exact hranks _ hk
  refine ⟨hok.accounted.new (hstores ▸ List.Perm.refl _) hlow, fun q oq hq x hx => ?_⟩
  have hkeep : ∀ b k, IsKind w.heap b k → IsKind (w.create o).heap b k :=
    fun b k hk => isKind_create hk (hok.lt_size hk) o
  by_cases hqn : q = w.size
  · subst hqn
    rw [obj_create_self] at hq
    obtain rfl := Option.some.inj hq
    exact hkeep _ _ (hkinds x hx)
  · rw [obj_create_of_ne hqn] at hq
    exact hkeep _ _ (hok.typed q oq hq x hx)

/-- A reference for the caller. -/
lemma InOrder.objectRef (hok : InOrder h n held) (ha : h.obj a ≠ none) (hroom : HasRoom h a) :
    ∃ h', Refs.objectRef h a = some h' ∧ InOrder h' n (addRefs held [a]) ∧ h'.obj = h.obj := by
  obtain ⟨o, ho⟩ := Option.ne_none_iff_exists'.mp ha
  obtain ⟨h', href, hm, hobj⟩ := hok.accounted.ref ho hroom
  exact ⟨h', href, ⟨hm, hok.typed.of_obj hobj⟩, hobj⟩

/-- The reference that is let go, against the others. -/
lemma addRefs_letOne (ha : 0 < held a) : addRefs (letOne held a) [a] = held := by
  funext b
  by_cases hba : b = a
  · subst hba
    simp only [addRefs, letOne, Function.update_self, List.count_cons_self, List.count_nil]
    omega
  · simp [addRefs, letOne, hba, Ne.symm hba]

/-- The caller lets go of a reference. -/
lemma InOrder.objectUnref (hok : InOrder h n held) (ha : 0 < held a)
    (hloses : LosesWhole h (letOne held a)) :
    ∃ h', Refs.objectUnref h a = some h' ∧ InOrder h' n (letOne held a) := by
  have hdepth : rankAt atomLayout h a < 4 := by
    cases ho : h.obj a with
    | none => simp [rankAt, ho]
    | some o =>
      rw [rankAt_of_kind (isKind_of_obj ho)]
      exact o.kind.rank_lt
  have hm := hok.accounted
  rw [← addRefs_letOne ha] at hm
  obtain ⟨h', hunref, hm', hkeeps⟩ := hm.unref hdepth hloses.safe
  exact ⟨h', hunref, hm', hok.typed.keeps hkeeps hm'⟩

/-- A constructor that takes a reference to its argument.

**Proof sketch.** The argument, if there is one, is an IRI with room for a reference; taking it
leaves the objects, and the new object stores it. -/
lemma InOrder.createWith {w : World} (hok : InOrder w.heap w.size w.held) {field : Option ℕ}
    (hfield : ∀ b ∈ field, IsKind w.heap b .iri ∧ HasRoom w.heap b)
    (hslots : o.slots = Kind.iri.ofAll field.toList) (hrank : 0 < o.kind.rank) :
    ∃ w', w.createWith (refOptional w.heap field) o = some w' ∧
      InOrder w'.heap w'.size w'.held := by
  have hstores : o.stores = field.toList := by rw [AtomObj.stores, hslots, Kind.map_ofAll]
  have htaken : ∃ h, refOptional w.heap field = some h ∧
      InOrder h w.size (addRefs w.held field.toList) ∧ h.obj = w.heap.obj := by
    cases field with
    | none => exact ⟨w.heap, rfl, hok, rfl⟩
    | some b =>
      obtain ⟨hk, hroom⟩ := hfield b rfl
      obtain ⟨ob, hob, -⟩ := hk.exists_obj
      exact hok.objectRef (by simp [hob]) hroom
  obtain ⟨h, href, hok', hobj⟩ := htaken
  refine ⟨{ w with heap := h }.create o, by rw [World.createWith, href]; rfl, ?_⟩
  refine InOrder.create (w := { w with heap := h }) hok' hstores (fun x hx => ?_) fun x hx => ?_
  · rw [hslots, Kind.mem_ofAll] at hx
    rw [IsKind, hobj, hx.2]
    exact (hfield x.2 (Option.mem_toList.mp hx.1)).1
  · rw [hslots, Kind.mem_ofAll] at hx
    rw [hx.2]
    exact hrank

/-! ## Runs -/

/-- A call on one object. -/
lemma InOrder.after {w : World} {r : Option AtomMemory}
    (hr : ∃ h', r = some h' ∧ InOrder h' w.size w.held) :
    ∃ w', w.after r = some w' ∧ InOrder w'.heap w'.size w'.held := by
  obtain ⟨h', rfl, hok⟩ := hr
  exact ⟨{ w with heap := h' }, rfl, hok⟩

/-- Every setter of a field is `setField` at its field. -/
lemma Setter.call_eq (f : Setter) : f.call = Refs.setField f.field := by
  cases f <;> rfl

/-- Every function that adds to a list is `appendTo` at its list. -/
lemma Adder.call_eq (f : Adder) : f.call = Refs.appendTo f.list := by
  cases f <;> rfl

/-- Every function that empties a list is `emptyList` at its list. -/
lemma Deleter.call_eq (f : Deleter) : f.call = Refs.emptyList f.list := by
  cases f <;> rfl

/-- A constructor without arguments that are objects. -/
lemma InOrder.createBare {w : World} (hok : InOrder w.heap w.size w.held) (hslots : o.slots = []) :
    InOrder (w.create o).heap (w.create o).size (w.create o).held := by
  refine InOrder.create (l := []) hok (by rw [AtomObj.stores, hslots]; rfl) ?_ ?_ <;>
  · intro x hx
    rw [hslots] at hx
    cases hx

/-- **One call**: when it is legal and does not come upon a defect, it succeeds and keeps all in
order.

**Proof sketch.** One case per call, each closed by the lemma of its operation: a constructor by
`createBare` or `createWith`, a setter by `setField`, a list call by `appendTo` or `drop`, the
two setters of a content by their own lemmas, and `ta_object_unref` by the release of one
reference. `Careful` is false of `ta_atom_link_init`, which takes no reference. -/
lemma step_inOrder {w : World} {c : Call} (hok : InOrder w.heap w.size w.held) (hlegal : Legal w c)
    (hcare : Careful w c) : ∃ w', step w c = some w' ∧ InOrder w'.heap w'.size w'.held := by
  cases c with
  | iriNew | simpleElementNew | contentNew | entryNew | feedNew =>
    exact ⟨_, rfl, hok.createBare rfl⟩
  | inReplyToNew ref =>
    have hfield : ∀ b ∈ some ref, IsKind w.heap b .iri ∧ HasRoom w.heap b := by
      intro b hb
      obtain rfl := Option.some.inj hb
      exact ⟨hlegal, hcare⟩
    exact hok.createWith hfield rfl Nat.one_pos
  | linkNew href => exact hcare.elim
  | personNew iri | categoryNew scheme =>
    exact hok.createWith (fun b hb => ⟨hlegal b hb, hcare b hb⟩)
      (by simp [AtomObj.slots, Kind.ofAll]) Nat.one_pos
  | set f p a =>
    apply InOrder.after
    rw [f.call_eq]
    exact hok.setField hlegal.1 hlegal.2 hcare
  | categorySetScheme p scheme =>
    apply InOrder.after
    cases scheme with
    | some a => exact hok.setField hlegal.1 (hlegal.2 a rfl) (hcare a rfl)
    | none =>
      obtain ⟨o, ho, hkind⟩ := hlegal.1.exists_obj
      obtain ⟨h', hclear, -, hok'⟩ := hok.clearField (f := categoryScheme) rfl ho hkind
      exact ⟨h', hclear, hok'⟩
  | contentSetSrc p a =>
    apply InOrder.after
    exact hok.contentSetSrc hlegal.1 hlegal.2 hcare.1 hcare.2
  | contentSetContent p text len =>
    apply InOrder.after
    exact hok.contentSetContent hlegal text len hcare
  | setString p =>
    apply InOrder.after
    exact ⟨w.heap, setString_eq hlegal hcare, hok⟩
  | add f p a =>
    apply InOrder.after
    rw [f.call_eq]
    exact hok.appendTo hlegal.1 hlegal.2 hcare.1 hcare.2
  | del f p =>
    apply InOrder.after
    rw [f.call_eq]
    exact hok.emptyList hlegal hcare
  | entryDelSee p =>
    apply InOrder.after
    exact hok.entryDelSee hlegal hcare
  | entryDelInreplyto p =>
    apply InOrder.after
    exact hok.entryDelInreplyto hlegal hcare
  | objectRef a =>
    obtain ⟨h', href, hok', -⟩ := hok.objectRef hlegal hcare
    exact ⟨_, congrArg (Option.map _) href, hok'⟩
  | objectUnref a =>
    obtain ⟨h', hunref, hok'⟩ := hok.objectUnref hlegal hcare
    exact ⟨_, congrArg (Option.map _) hunref, hok'⟩

/-- The references to an object: those that the caller holds, and the fields and list slots of
objects in memory that store it. -/
def World.references (w : World) (a : ℕ) : ℕ :=
  w.held a + ∑ p ∈ w.heap.live w.size, ((w.heap.obj p).map fun o => o.stores.count a).getD 0

/-- **The counts are the numbers of references.** What is referred to is in memory, and what is in
memory is referred to. The objects that are not in memory any more were destroyed once. -/
structure RefCounts (w : World) : Prop where
  count : ∀ a, w.heap.obj a ≠ none → w.heap.count a = some (w.references a : ℤ)
  stored : ∀ p o, w.heap.obj p = some o → ∀ a ∈ o.stores, w.heap.obj a ≠ none
  held : ∀ a, 0 < w.held a → w.heap.obj a ≠ none
  referred : ∀ a, w.heap.obj a ≠ none → 0 < w.references a
  freed_nodup : w.heap.freed.Nodup
  freed_iff : ∀ a, a ∈ w.heap.freed ↔ a < w.size ∧ w.heap.obj a = none

/-- Where all is in order the counts are right. -/
lemma InOrder.refCounts {w : World} (hok : InOrder w.heap w.size w.held) : RefCounts w := by
  have hm := hok.accounted
  have hlive : ∀ a, a ∈ w.heap.live w.size ↔ w.heap.obj a ≠ none := by
    intro a
    rw [hm.mem_live, ne_eq, ne_eq, Memory.obj_eq_none_iff]
  refine ⟨fun a ha => hm.balanced.count a ((hlive a).mpr ha), fun p o ho a ha => ?_, fun a ha => ?_,
    fun a ha => hm.balanced.pos a ((hlive a).mpr ha), hm.freed_nodup, fun a => ?_⟩
  · obtain ⟨k, hk⟩ := mem_stores_iff.mp ha
    obtain ⟨oa, hoa, -⟩ := (hok.typed p o ho _ hk).exists_obj
    simp [hoa]
  · exact (hlive a).mp (hm.balanced.mem_of_held ha)
  · rw [Memory.obj_eq_none_iff]
    exact hm.freed_iff a

/-- All is in order when there are no objects. -/
lemma inOrder_start : InOrder World.start.heap World.start.size World.start.held := by
  have hlive : World.start.heap.live World.start.size = ∅ := rfl
  have hnone : ∀ a, World.start.heap.cells a = none := fun _ => rfl
  refine ⟨⟨?_, fun a _ => rfl, List.nodup_nil, fun a => ?_⟩, fun p o ho => ?_⟩
  · rw [hlive]
    refine ⟨?_, ?_, ?_, ?_, fun a _ => rfl⟩ <;>
    · intro a ha
      exact absurd ha (Finset.notMem_empty a)
  · refine ⟨fun ha => absurd ha List.not_mem_nil, fun ha => absurd ha.1 (Nat.not_lt_zero a)⟩
  · rw [Memory.obj, hnone] at ho
    cases ho

/-- **Reference counts equal references** in every state that a run reaches, when all its calls are
legal and do not come upon a defect. -/
theorem refCounts_of_careful (calls : List Call)
    (h : Machine.GuardedRun step (fun w c => Legal w c ∧ Careful w c) World.start calls) :
    ∀ pre, pre <+: calls → ∃ w, Machine.run? step World.start pre = some w ∧ RefCounts w := by
  intro pre hpre
  obtain ⟨w, hrun, hok⟩ := Machine.run?_guarded
    (I := fun w : World => InOrder w.heap w.size w.held)
    (fun w c hok hg => step_inOrder hok hg.1 hg.2) inOrder_start (h.of_isPrefix hpre)
  exact ⟨w, hrun, hok.refCounts⟩

/-- An IRI and an entry. The entry has the IRI as its id, twice in succession, and the caller lets
go of the IRI and then of the entry. -/
theorem refCounts_of_careful_entryId : ∃ w,
    Machine.run? step World.start [.iriNew, .entryNew, .set .entrySetId 1 0, .set .entrySetId 1 0,
      .objectUnref 0, .objectUnref 1] = some w ∧ RefCounts w := by
  refine refCounts_of_careful _ ?_ _ (List.prefix_refl _)
  refine ⟨⟨trivial, trivial⟩, fun w hw => ?_⟩
  obtain rfl := Option.some.inj hw
  refine ⟨⟨trivial, trivial⟩, fun w hw => ?_⟩
  obtain rfl := Option.some.inj hw
  refine ⟨⟨⟨rfl, rfl⟩, fun o ho => ?_⟩, fun w hw => ?_⟩
  · obtain rfl := Option.some.inj ho
    refine ⟨fun c hc => ?_, fun hiri => absurd rfl hiri⟩
    obtain rfl := Option.some.inj hc
    decide
  obtain rfl := Option.some.inj hw
  refine ⟨⟨⟨rfl, rfl⟩, fun o ho => ?_⟩, fun w hw => ?_⟩
  · obtain rfl := Option.some.inj ho
    intro c hc
    obtain rfl := Option.some.inj hc
    decide
  obtain rfl := Option.some.inj hw
  refine ⟨⟨Nat.one_pos, fun a o ho _ => ?_⟩, fun w hw => ?_⟩
  · rcases a with _ | _ | a
    · obtain rfl := Option.some.inj ho
      trivial
    · obtain rfl := Option.some.inj ho
      exact ⟨rfl, rfl, nofun⟩
    · cases ho
  obtain rfl := Option.some.inj hw
  refine ⟨⟨Nat.one_pos, fun a o ho _ => ?_⟩, fun w hw => trivial⟩
  rcases a with _ | _ | a
  · obtain rfl := Option.some.inj ho
    trivial
  · obtain rfl := Option.some.inj ho
    exact ⟨rfl, rfl, nofun⟩
  · cases ho

/-- The link stores the IRI, and the count of the IRI does not tell. -/
theorem refCounts_linkNew :
    Machine.GuardedRun step Legal World.start [.iriNew, .linkNew 0] ∧
      ∃ w, Machine.run? step World.start [.iriNew, .linkNew 0] = some w ∧
        w.heap.count 0 = some 1 ∧ w.references 0 = 2 ∧ ¬ RefCounts w := by
  refine ⟨⟨trivial, fun w hw => ?_⟩, _, rfl, rfl, rfl, fun hc => ?_⟩
  · obtain rfl := Option.some.inj hw
    exact ⟨rfl, fun _ _ => trivial⟩
  · have := hc.count 0 (by decide)
    exact absurd this (by decide)

end Taningia.Refs
