import Taningia.Object.Counts

set_option relaxedAutoImplicit false
set_option autoImplicit false

/-!
# The lists of entries and feeds

An entry has five lists and a feed has four. Each has a getter, a function that adds to it and one
that empties it, and should be changed by these two only.

## Main definitions

* `Taningia.Refs.Owner.fresh` — a new entry or feed, with what is found in the field that the
  constructor does not assign.
* `Taningia.Refs.ListCall` — the calls on the lists of one object.
* `Taningia.Refs.getList`, `Taningia.Refs.Lists.after` — what the getters return, and what they
  should return.

## Main results

* `Taningia.Refs.lists_independent_iff` — the getters return what they should all along a run
  exactly when the memory of the unassigned field was `NULL` and no call of the run comes upon what
  `ta_atom_entry_del_inreplyto` and `ta_atom_entry_del_see` do wrong.
-/

namespace Taningia.Refs

open RefCount

/-! ## Calls on the lists of one object -/

/-- The objects with lists that have getters. -/
inductive Owner where
  | entry | feed
deriving DecidableEq, Repr

/-- The kind of an owner. -/
def Owner.kind : Owner → Kind
  | .entry => .entry
  | .feed => .feed

/-- A new object, with what its memory held where `ta_atom_entry_init` and `ta_atom_feed_init`
assign nothing: the `ext_elements` of an entry, and the `links` of a feed. -/
def Owner.fresh : Owner → ListPtr → AtomObj
  | .entry, unassigned => .entry ⟨none, [], [], [], none, unassigned, .nodes []⟩
  | .feed, unassigned => .feed ⟨none, [], [], [], unassigned⟩

/-- The calls that add to lists and empty them. -/
inductive ListCall where
  | add (f : Adder) (a : ℕ)
  | del (f : Deleter)
  | entryDelSee
  | entryDelInreplyto
deriving DecidableEq, Repr

/-- The call about the object `p`. -/
def ListCall.call (p : ℕ) : ListCall → Call
  | .add f a => .add f p a
  | .del f => .del f p
  | .entryDelSee => .entryDelSee p
  | .entryDelInreplyto => .entryDelInreplyto p

/-- One call about the object `p`. -/
def listStep (p : ℕ) (w : World) (c : ListCall) : Option World := step w (c.call p)

/-- The list getters, such as `ta_atom_entry_get_authors`. A list goes by the function that adds to
it. -/
def getList (h : AtomMemory) (p : ℕ) (f : Adder) : Option ListPtr := (h.obj p).bind f.list.get

/-- The function that adds to the list that a deleter empties. -/
def Deleter.adder : Deleter → Adder
  | .personDelSee => .personAddSee
  | .entryDelAuthors => .entryAddAuthor
  | .entryDelCategories => .entryAddCategory
  | .entryDelLinks => .entryAddLink
  | .feedDelAuthors => .feedAddAuthor
  | .feedDelCategories => .feedAddCategory
  | .feedDelLinks => .feedAddLink
  | .feedDelEntries => .feedAddEntry

/-- What was added to each list since it was created or last emptied, in order. -/
abbrev Lists := Adder → List ℕ

/-- The lists after a call. -/
def Lists.after (lists : Lists) : ListCall → Lists
  | .add f a => Function.update lists f (lists f ++ [a])
  | .del f => Function.update lists f.adder []
  | .entryDelSee => Function.update lists .entryAddSee []
  | .entryDelInreplyto => Function.update lists .entryAddInreplyto []

/-- **The getters return the lists**, all of those that the object has. -/
def ShowsLists (k : Owner) (p : ℕ) (w : World) (lists : Lists) : Prop :=
  ∀ f : Adder, f.list.owner = k.kind → getList w.heap p f = some (.nodes (lists f))

/-- The calls that do not come upon what the functions do wrong: an element is added while there is
room for a reference, `ext_elements` are emptied when they are different elements with their
strings, and `in_reply_to` is emptied when it and `ext_elements` are empty. -/
def SparesLists (p : ℕ) (w : World) : ListCall → Prop
  | .add _ a => HasRoom w.heap a
  | .del _ => True
  | .entryDelSee => ∀ e, w.heap.obj p = some (.entry e) → e.extElements.items.Nodup ∧
      ∀ a ∈ e.extElements.items, w.heap.obj a ≠ some (.simpleElement .freed)
  | .entryDelInreplyto => ∀ e, w.heap.obj p = some (.entry e) →
      e.inReplyTo.items = [] ∧ e.extElements.items = []

/-! ## The fields of the lists -/

section Fields

variable {o : AtomObj} {f g : Adder}

/-- A list is emptied by the function of the one that adds to it. -/
lemma Deleter.list_adder (d : Deleter) : d.list = d.adder.list := by
  cases d <;> rfl

/-- A list that is assigned is the one that was assigned. -/
lemma Adder.get_set_self (hkind : o.kind = f.list.owner) (data : List ℕ) :
    f.list.get (f.list.set o (.nodes data)) = some (.nodes data) := by
  cases f <;> cases o <;> first | rfl | cases hkind

/-- The other lists stay. -/
lemma Adder.get_set_of_ne (hne : g ≠ f) (v : ListPtr) :
    g.list.get (f.list.set o v) = g.list.get o := by
  cases f <;> cases g <;> first | exact absurd rfl hne | (cases o <;> rfl)

end Fields

/-! ## What the lists store has other references -/

/-- The object at `p` stores objects of the kinds of its fields, and each object in memory has a
reference besides those that the object at `p` stores. -/
structure Backed (h : AtomMemory) (p : ℕ) (o : AtomObj) : Prop where
  obj : h.obj p = some o
  kinds : ∀ x ∈ o.slots, IsKind h x.2 x.1
  counts : ∀ a c, h.count a = some c → (o.stores.count a : ℤ) < c

section Backed

variable {h h' : AtomMemory} {p a : ℕ} {o : AtomObj} {f : ListSlot} {data : List ℕ}

/-- What is in memory has a count. -/
lemma exists_count (ha : h.obj a ≠ none) : ∃ c, h.count a = some c := by
  obtain ⟨cell, hcell⟩ := Memory.exists_cell ha
  exact ⟨cell.count, by rw [Memory.count, hcell, Option.map_some]⟩

/-- An address of a kind has an object. -/
lemma IsKind.obj_ne_none {k : Kind} (hk : IsKind h a k) : h.obj a ≠ none := by
  obtain ⟨o, ho, -⟩ := hk.exists_obj
  simp [ho]

/-- The objects of a list are of its kind. -/
lemma Backed.isKind (hb : Backed h p o) (hget : f.get o = some (.nodes data)) (ha : a ∈ data) :
    IsKind h a f.item := hb.kinds _ (f.slot_get o _ a hget ha)

/-- The object changes to another one of its kind, and counts change. -/
lemma Backed.setObj (hb : Backed h p o) {o' : AtomObj} (hobj : h'.obj = h.obj)
    (hkind : o'.kind = o.kind) (hkinds : ∀ x ∈ o'.slots, x ∈ o.slots ∨ IsKind h x.2 x.1)
    (hcounts : ∀ a c, h'.count a = some c → (o'.stores.count a : ℤ) < c) :
    Backed (h'.setObj p o') p o' := by
  have ho : h'.obj p = some o := by rw [hobj, hb.obj]
  refine ⟨h'.obj_setObj_self p o' (by simp [ho]), fun x hx => ?_, ?_⟩
  · rw [isKind_setObj ho hkind, IsKind, hobj]
    rcases hkinds x hx with hold | hnew
    · exact hb.kinds x hold
    · exact hnew
  · rw [Memory.count_setObj]
    exact hcounts

/-- **An object is added to a list** when there is room for a reference to it.

**Proof sketch.** With room the reference is taken, which changes a count only, and the list is
written with the object at its end; the owner then stores one reference more to it, and its
count is one more. Without room taking the reference fails. -/
lemma Backed.appendTo (hb : Backed h p o) (hget : f.get o = some (.nodes data))
    (ha : IsKind h a f.item) :
    (HasRoom h a → ∃ h', Refs.appendTo f h p a = some h' ∧
      Backed h' p (f.set o (.nodes (data ++ [a])))) ∧
    (¬ HasRoom h a → Refs.appendTo f h p a = none) := by
  obtain ⟨cell, hcell⟩ := Memory.exists_cell ha.obj_ne_none
  have hcount : h.count a = some cell.count := by rw [Memory.count, hcell, Option.map_some]
  constructor
  · intro hroom
    have href : objectRef h a = some (h.setCount a (cell.count + 1)) := by
      rw [objectRef, ref, hcell, Option.bind_some, if_pos (hroom _ hcount)]
    have hobj : (h.setCount a (cell.count + 1)).obj = h.obj := h.obj_setCount a _
    refine ⟨(h.setCount a (cell.count + 1)).setObj p (f.set o (.nodes (data ++ [a]))), ?_, ?_⟩
    · simp only [Refs.appendTo, href, Option.bind_eq_bind, Option.bind_some, hobj, hb.obj, hget,
        ListPtr.walk]
      exact Memory.write_eq (by rw [hobj, hb.obj]) _
    · refine hb.setObj hobj (f.kind_set o _) (fun x hx => ?_) (fun b c hc => ?_)
      · rcases f.slot_set o _ _ x hget hx with hold | ⟨hitem, hmem⟩
        · exact Or.inl hold
        · rcases List.mem_append.mp hmem with hmem | hmem
          · refine Or.inr ?_
            rw [hitem]
            exact hb.isKind hget hmem
          · obtain rfl := List.mem_singleton.mp hmem
            refine Or.inr ?_
            rw [hitem]
            exact ha
      · have hset := f.count_set o _ (.nodes (data ++ [a])) b hget
        simp only [ListPtr.items, List.count_append] at hset
        by_cases hba : b = a
        · subst hba
          rw [h.count_setCount_self b _ ha.obj_ne_none] at hc
          have hlt := hb.counts b _ hcount
          have hcell : cell.count + 1 = c := Option.some.inj hc
          rw [List.count_cons_self, List.count_nil] at hset
          omega
        · rw [h.count_setCount_of_ne a _ hba] at hc
          have hlt := hb.counts b c hc
          rw [List.count_cons_of_ne (Ne.symm hba), List.count_nil] at hset
          omega
  · intro hfull
    have hmax : ¬ cell.count < atomLayout.maxCount := by
      intro hlt
      apply hfull
      intro c hc
      rw [hcount] at hc
      exact Option.some.inj hc ▸ hlt
    have href : objectRef h a = none := by
      rw [objectRef, ref, hcell, Option.bind_some, if_neg hmax]
    rw [Refs.appendTo, href]
    rfl

/-- A loop that lets go of the objects of a list only changes counts.

**Proof sketch.** The counts are larger than what the owner stores, so no reference of the list
is the last one to its object (`unrefAll_of_more`). -/
lemma Backed.unrefAll (hb : Backed h p o) (hget : f.get o = some (.nodes data)) :
    ∃ h', objectUnrefAll h data = some h' ∧ h'.obj = h.obj ∧
      ∀ a c, h'.count a = some c → ((f.set o (.nodes [])).stores.count a : ℤ) < c := by
  have hset : ∀ a, (f.set o (.nodes [])).stores.count a + data.count a = o.stores.count a :=
    fun a => f.count_set o _ (.nodes []) a hget
  obtain ⟨h', hall, hobj, hcount⟩ := unrefAll_of_more (L := atomLayout) 3 h (l := data) (by
    intro a ha
    obtain ⟨c, hc⟩ := exists_count (hb.isKind hget ha).obj_ne_none
    have hlt := hb.counts a c hc
    have := hset a
    exact ⟨c, hc, by omega⟩)
  refine ⟨h', hall, hobj, fun a c hc => ?_⟩
  rw [hcount] at hc
  obtain ⟨c₀, hc₀, rfl⟩ := Option.map_eq_some_iff.mp hc
  have hlt := hb.counts a c₀ hc₀
  have := hset a
  omega

/-- **A list is emptied.** -/
lemma Backed.emptyList (hb : Backed h p o) (hget : f.get o = some (.nodes data)) :
    ∃ h', Refs.emptyList f h p = some h' ∧ Backed h' p (f.set o (.nodes [])) := by
  obtain ⟨h₁, hall, hobj, hcounts⟩ := hb.unrefAll hget
  refine ⟨h₁.setObj p (f.set o (.nodes [])), ?_, ?_⟩
  · simp only [Refs.emptyList, hb.obj, Option.bind_eq_bind, Option.bind_some, hget, ListPtr.walk,
      hall]
    exact Memory.write_eq (by rw [hobj, hb.obj]) _
  · refine hb.setObj hobj (f.kind_set o _) (fun x hx => ?_) hcounts
    rcases f.slot_set o _ _ x hget hx with hold | ⟨-, hmem⟩
    · exact Or.inl hold
    · cases hmem

/-- A loop that releases the strings of elements changes nothing else. It needs different elements
with their strings.

**Proof sketch.** Induction on the list. The first element has its strings or not; releasing
them changes this element only, so a second release of it, later in the list, fails. -/
lemma releaseAll (h : AtomMemory) {data : List ℕ} (hdata : ∀ a ∈ data, IsKind h a .simpleElement) :
    (data.Nodup ∧ (∀ a ∈ data, h.obj a ≠ some (.simpleElement .freed)) ↔
      ∃ h', data.foldlM releaseStrings h = some h') ∧
    ∀ h', data.foldlM releaseStrings h = some h' → h'.count = h.count ∧
      (∀ a k, IsKind h' a k ↔ IsKind h a k) ∧ ∀ a ∉ data, h'.obj a = h.obj a := by
  induction data generalizing h with
  | nil => exact ⟨by simp, fun h' hh' => by obtain rfl := Option.some.inj hh'; simp⟩
  | cons b data ih =>
    obtain ⟨ob, hob, hkind⟩ := (hdata b (by simp)).exists_obj
    obtain ⟨strings, rfl⟩ : ∃ strings, ob = .simpleElement strings := by
      cases ob <;> cases hkind
      exact ⟨_, rfl⟩
    rw [List.foldlM_cons]
    by_cases hfreed : strings = .freed
    · have hnone : releaseStrings h b = none := by
        simp [releaseStrings, hob, hfreed, TextPtr.free]
      rw [hnone]
      refine ⟨⟨fun hd => ?_, fun hd => ?_⟩, fun h' hh' => ?_⟩
      · exact absurd (hfreed ▸ hob) (hd.2 b (by simp))
      · obtain ⟨h', hh'⟩ := hd
        cases hh'
      · cases hh'
    · have hstep : releaseStrings h b = some (h.setObj b (.simpleElement .freed)) := by
        simp only [releaseStrings, hob, Option.bind_eq_bind, Option.bind_some,
          TextPtr.free_eq hfreed]
        exact Memory.write_eq hob _
      have hsame : ∀ a k, IsKind (h.setObj b (.simpleElement .freed)) a k ↔ IsKind h a k :=
        isKind_setObj hob rfl
      obtain ⟨hiff, hkept⟩ := ih (h.setObj b (.simpleElement .freed))
        fun a ha => (hsame a _).mpr (hdata a (by simp [ha]))
      have hself := h.obj_setObj_self b (.simpleElement .freed) (by simp [hob])
      have hrest : ∀ a, a ≠ b → (h.setObj b (.simpleElement .freed)).obj a = h.obj a :=
        fun a hab => h.obj_setObj_of_ne b _ hab
      rw [hstep]
      refine ⟨?_, fun h' hh' => ?_⟩
      · refine Iff.trans ?_ hiff
        rw [List.nodup_cons]
        constructor
        · rintro ⟨⟨hb, hnd⟩, hstrings⟩
          refine ⟨hnd, fun a ha => ?_⟩
          rw [hrest a fun e => hb (e ▸ ha)]
          exact hstrings a (by simp [ha])
        · rintro ⟨hnd, hstrings⟩
          have hb : b ∉ data := fun hb => hstrings b hb hself
          refine ⟨⟨hb, hnd⟩, fun a ha => ?_⟩
          rcases List.mem_cons.mp ha with rfl | ha
          · rw [hob]
            intro e
            cases e
            exact hfreed rfl
          · rw [← hrest a fun e => hb (e ▸ ha)]
            exact hstrings a ha
      · obtain ⟨hcount, hkinds, hobj⟩ := hkept h' hh'
        refine ⟨by rw [hcount, Memory.count_setObj], fun a k => (hkinds a k).trans (hsame a k),
          fun a ha => ?_⟩
        rw [List.mem_cons, not_or] at ha
        rw [hobj a ha.2, hrest a ha.1]

/-- **The extension elements are emptied** when they are different elements with their strings.

**Proof sketch.** The loop is `releaseAll`. The entry is no element of the list, so it is there
to be written, and the counts, which the loop does not touch, are still larger than what the
entry stores. -/
lemma Backed.delSee {e : EntryObj} (hb : Backed h p (.entry e))
    (hget : e.extElements = .nodes data) :
    (data.Nodup ∧ (∀ a ∈ data, h.obj a ≠ some (.simpleElement .freed)) ↔
      ∃ h', Refs.entryDelSee h p = some h') ∧
    ∀ h', Refs.entryDelSee h p = some h' →
      Backed h' p (entryExtElements.set (.entry e) (.nodes [])) := by
  have hget' : entryExtElements.get (.entry e) = some (.nodes data) := congrArg some hget
  have hkinds : ∀ a ∈ data, IsKind h a .simpleElement := fun a ha => hb.isKind hget' ha
  obtain ⟨hiff, hkept⟩ := releaseAll h hkinds
  -- the entry itself is no extension element
  have hp : p ∉ data := by
    intro hp
    have hkind := hkinds p hp
    rw [IsKind, hb.obj] at hkind
    cases hkind
  have hrun : Refs.entryDelSee h p = (data.foldlM releaseStrings h).bind fun h =>
      h.write p fun o => entryExtElements.set o (.nodes []) := by
    simp only [Refs.entryDelSee, hb.obj, Option.bind_eq_bind, Option.bind_some, hget', ListPtr.walk]
  have hwrite : ∀ h₁, data.foldlM releaseStrings h = some h₁ → Refs.entryDelSee h p =
      some (h₁.setObj p (entryExtElements.set (.entry e) (.nodes []))) := by
    intro h₁ hh₁
    rw [hrun, hh₁, Option.bind_some]
    exact Memory.write_eq (by rw [(hkept h₁ hh₁).2.2 p hp, hb.obj]) _
  refine ⟨hiff.trans ⟨?_, ?_⟩, fun h' hh' => ?_⟩
  · rintro ⟨h₁, hh₁⟩
    exact ⟨_, hwrite h₁ hh₁⟩
  · rintro ⟨h', hh'⟩
    rw [hrun] at hh'
    obtain ⟨h₁, hh₁, -⟩ := Option.bind_eq_some_iff.mp hh'
    exact ⟨h₁, hh₁⟩
  · obtain ⟨h₁, hh₁, -⟩ := Option.bind_eq_some_iff.mp (hrun ▸ hh')
    rw [hwrite h₁ hh₁] at hh'
    obtain rfl := Option.some.inj hh'
    obtain ⟨hcount, hkinds₁, hobj⟩ := hkept h₁ hh₁
    have ho : h₁.obj p = some (.entry e) := by rw [hobj p hp, hb.obj]
    refine ⟨h₁.obj_setObj_self p _ (by simp [ho]), fun x hx => ?_, fun a c hc => ?_⟩
    · rw [isKind_setObj ho (entryExtElements.kind_set _ _), hkinds₁]
      rcases entryExtElements.slot_set _ _ _ x hget' hx with hold | ⟨-, hmem⟩
      · exact hb.kinds x hold
      · cases hmem
    · rw [Memory.count_setObj, hcount] at hc
      have hset := entryExtElements.count_set _ _ (.nodes []) a hget'
      have hnil : (ListPtr.nodes []).items.count a = 0 := rfl
      have hlt := hb.counts a c hc
      omega

/-- The replies are let go, their address stays, and the extension elements are forgotten.

**Proof sketch.** The loop is `Backed.unrefAll`. The two assignments behind it empty the wrong
list: they are right only where both are empty. -/
lemma Backed.delInreplyto {e : EntryObj} (hb : Backed h p (.entry e))
    (hget : e.inReplyTo = .nodes data) :
    ∃ h', Refs.entryDelInreplyto h p = some h' ∧
      h'.obj p = some (forgetReplies data (.entry e)) ∧
      (data = [] ∧ e.extElements.items = [] → Backed h' p (forgetReplies data (.entry e))) := by
  have hget' : entryInReplyTo.get (.entry e) = some (.nodes data) := congrArg some hget
  obtain ⟨h₁, hall, hobj, hcounts⟩ := hb.unrefAll hget'
  have ho : h₁.obj p = some (.entry e) := by rw [hobj, hb.obj]
  refine ⟨h₁.setObj p (forgetReplies data (.entry e)), ?_, h₁.obj_setObj_self p _ (by simp [ho]),
    ?_⟩
  · simp only [Refs.entryDelInreplyto, hb.obj, Option.bind_eq_bind, Option.bind_some, hget',
      ListPtr.walk, hall]
    exact Memory.write_eq ho _
  · rintro ⟨rfl, hext⟩
    have hsub : ∀ x ∈ (forgetReplies [] (.entry e)).slots, x ∈ (AtomObj.entry e).slots := by
      intro x hx
      simp only [forgetReplies, entryInReplyTo, entryExtElements, AtomObj.slots, ListPtr.items,
        if_true, List.mem_append, Kind.mem_ofAll] at hx ⊢
      grind
    have hstores : ∀ a, (forgetReplies [] (.entry e)).stores.count a =
        (entryInReplyTo.set (.entry e) (.nodes [])).stores.count a := by
      intro a
      have hnil : (ListPtr.nodes []).items = [] := rfl
      simp [forgetReplies, entryInReplyTo, entryExtElements, AtomObj.stores, AtomObj.slots, hnil,
        hext]
    refine hb.setObj hobj rfl (fun x hx => Or.inl (hsub x hx)) (fun a c hc => ?_)
    rw [hstores]
    exact hcounts a c hc

end Backed

/-! ## Runs -/

section Runs

variable {k : Owner} {p : ℕ} {w : World} {lists : Lists} {c : ListCall}

/-- Before and behind every call: the object has its kind, and what it stores has other
references. -/
def Kept (k : Owner) (p : ℕ) (w : World) : Prop :=
  ∃ o, o.kind = k.kind ∧ Backed w.heap p o

/-- The lists of the object in memory. -/
lemma showsLists_iff {h : AtomMemory} {size : ℕ} {held : ℕ → ℕ} {o : AtomObj}
    (ho : h.obj p = some o) :
    ShowsLists k p ⟨h, size, held⟩ lists ↔
      ∀ f : Adder, f.list.owner = k.kind → f.list.get o = some (.nodes (lists f)) := by
  simp only [ShowsLists, getList, ho, Option.bind_some]

/-- When a list is assigned, the other lists stay. -/
lemma shows_set {o : AtomObj} {f : Adder} (hkind : o.kind = k.kind) (hf : f.list.owner = k.kind)
    (hshows : ∀ g : Adder, g.list.owner = k.kind → g.list.get o = some (.nodes (lists g)))
    (data : List ℕ) (g : Adder) (hg : g.list.owner = k.kind) :
    g.list.get (f.list.set o (.nodes data)) = some (.nodes (Function.update lists f data g)) := by
  by_cases hgf : g = f
  · subst hgf
    rw [Function.update_self]
    exact Adder.get_set_self (hkind.trans hg.symm) data
  · rw [Function.update_of_ne hgf, Adder.get_set_of_ne hgf, hshows g hg]

/-- An object of the kind of entries is one. -/
lemma eq_entry_of_kind {o : AtomObj} (hkind : o.kind = .entry) : ∃ e, o = .entry e := by
  cases o <;> cases hkind
  exact ⟨_, rfl⟩

/-- The call goes on with the lists as they should be exactly under the condition, and what holds
before and behind every call then holds behind it. -/
def ExactStep (k : Owner) (p : ℕ) (w : World) (lists : Lists) (c : ListCall) (P : Prop) : Prop :=
  (P ↔ ∃ w', listStep p w c = some w' ∧ ShowsLists k p w' (lists.after c)) ∧
    ∀ w', listStep p w c = some w' → ShowsLists k p w' (lists.after c) → Kept k p w'

/-- A call that leaves the object with one list assigned. -/
lemma ExactStep.assigned {h h' : AtomMemory} {size : ℕ} {held : ℕ → ℕ} {o : AtomObj} {f : Adder}
    {P : Prop} (hkind : o.kind = k.kind) (hf : f.list.owner = k.kind)
    (hshows : ∀ g : Adder, g.list.owner = k.kind → g.list.get o = some (.nodes (lists g)))
    {data : List ℕ} (hb : Backed h' p (f.list.set o (.nodes data)))
    (hcall : listStep p ⟨h, size, held⟩ c = some ⟨h', size, held⟩)
    (hafter : lists.after c = Function.update lists f data) (hP : P) :
    ExactStep k p ⟨h, size, held⟩ lists c P := by
  rw [ExactStep, hafter]
  refine ⟨iff_of_true hP ⟨_, hcall, ?_⟩, fun w' hw' _ => ?_⟩
  · exact (showsLists_iff hb.obj).mpr (shows_set hkind hf hshows data)
  · obtain rfl := Option.some.inj (hcall.symm.trans hw')
    exact ⟨_, (f.list.kind_set o _).trans hkind, hb⟩

/-- A call that is a fault shows nothing. -/
lemma ExactStep.fault {P : Prop} (hcall : listStep p w c = none) (hP : ¬ P) :
    ExactStep k p w lists c P := by
  rw [ExactStep, hcall]
  constructor
  · refine iff_of_false hP ?_
    rintro ⟨w', hw', -⟩
    cases hw'
  · intro w' hw'
    cases hw'

/-- A call behind which a getter returns another list. -/
lemma ExactStep.lost {P : Prop} {w₁ : World} (hcall : listStep p w c = some w₁)
    (hlost : ¬ ShowsLists k p w₁ (lists.after c)) (hP : ¬ P) : ExactStep k p w lists c P := by
  rw [ExactStep, hcall]
  constructor
  · refine iff_of_false hP ?_
    rintro ⟨w', hw', hafter⟩
    obtain rfl := Option.some.inj hw'
    exact hlost hafter
  · intro w' hw' hafter
    obtain rfl := Option.some.inj hw'
    exact absurd hafter hlost

section Calls

variable {h : AtomMemory} {size : ℕ} {held : ℕ → ℕ} {o : AtomObj}

/-- **Adding** needs room for a reference.

**Proof sketch.** `Backed.appendTo`: with room the list shows the object at its end, without
room the call fails. -/
lemma exactStep_add {f : Adder} {a : ℕ} (hkind : o.kind = k.kind) (hb : Backed h p o)
    (hs : ∀ g : Adder, g.list.owner = k.kind → g.list.get o = some (.nodes (lists g)))
    (hlegal : Legal ⟨h, size, held⟩ ((ListCall.add f a).call p)) :
    ExactStep k p ⟨h, size, held⟩ lists (.add f a) (HasRoom h a) := by
  obtain ⟨hp, ha⟩ := hlegal
  have hf : f.list.owner = k.kind := (kind_of_isKind hb.obj hp).symm.trans hkind
  obtain ⟨hroom, hfull⟩ := hb.appendTo (hs f hf) ha
  have hcall : listStep p ⟨h, size, held⟩ (.add f a) =
      (Refs.appendTo f.list h p a).map fun h => ⟨h, size, held⟩ := by
    rw [listStep, ListCall.call, step, Adder.call_eq, World.after]
  by_cases hr : HasRoom h a
  · obtain ⟨h', happend, hb'⟩ := hroom hr
    rw [happend, Option.map_some] at hcall
    exact ExactStep.assigned hkind hf hs hb' hcall rfl hr
  · rw [hfull hr, Option.map_none] at hcall
    exact ExactStep.fault hcall hr

/-- **Emptying** a list drops its references. -/
lemma exactStep_del {d : Deleter} (hkind : o.kind = k.kind) (hb : Backed h p o)
    (hs : ∀ g : Adder, g.list.owner = k.kind → g.list.get o = some (.nodes (lists g)))
    (hlegal : Legal ⟨h, size, held⟩ ((ListCall.del d).call p)) :
    ExactStep k p ⟨h, size, held⟩ lists (.del d) True := by
  have hf : d.adder.list.owner = k.kind := by
    rw [← Deleter.list_adder]
    exact (kind_of_isKind hb.obj hlegal).symm.trans hkind
  obtain ⟨h', hempty, hb'⟩ := hb.emptyList (hs d.adder hf)
  have hcall : listStep p ⟨h, size, held⟩ (.del d) = some ⟨h', size, held⟩ := by
    rw [listStep, ListCall.call, step, Deleter.call_eq, Deleter.list_adder, hempty, World.after,
      Option.map_some]
  exact ExactStep.assigned hkind hf hs hb' hcall rfl trivial

/-- **Emptying `ext_elements`** needs the strings of all its elements.

**Proof sketch.** `Backed.delSee`: the call succeeds exactly when the elements are different and
have their strings, and the list is empty then. -/
lemma exactStep_delSee (hkind : o.kind = k.kind) (hb : Backed h p o)
    (hs : ∀ g : Adder, g.list.owner = k.kind → g.list.get o = some (.nodes (lists g)))
    (hlegal : Legal ⟨h, size, held⟩ (ListCall.entryDelSee.call p)) :
    ExactStep k p ⟨h, size, held⟩ lists .entryDelSee
      (SparesLists p ⟨h, size, held⟩ .entryDelSee) := by
  have hentry : o.kind = .entry := kind_of_isKind hb.obj hlegal
  have hf : Adder.entryAddSee.list.owner = k.kind := hentry.symm.trans hkind
  obtain ⟨e, rfl⟩ := eq_entry_of_kind hentry
  have hget : e.extElements = .nodes (lists .entryAddSee) := Option.some.inj (hs .entryAddSee hf)
  obtain ⟨hiff, hkept⟩ := hb.delSee hget
  have hcall : listStep p ⟨h, size, held⟩ .entryDelSee =
      (Refs.entryDelSee h p).map fun h => ⟨h, size, held⟩ := rfl
  have hspared : SparesLists p ⟨h, size, held⟩ .entryDelSee ↔
      ∃ h', Refs.entryDelSee h p = some h' := by
    rw [← hiff]
    simp only [SparesLists, hb.obj, Option.some.injEq, AtomObj.entry.injEq, forall_eq', hget,
      ListPtr.items]
  rw [hspared]
  by_cases hdel : ∃ h', Refs.entryDelSee h p = some h'
  · obtain ⟨h', hh'⟩ := hdel
    rw [hh', Option.map_some] at hcall
    exact ExactStep.assigned hkind hf hs (hkept h' hh') hcall rfl ⟨h', hh'⟩
  · rw [Option.eq_none_iff_forall_ne_some.mpr fun h' hh' => hdel ⟨h', hh'⟩, Option.map_none]
      at hcall
    exact ExactStep.fault hcall hdel

/-- **Emptying `in_reply_to`** keeps its address and forgets `ext_elements`, so that both are to be
empty.

**Proof sketch.** `Backed.delInreplyto`: the call succeeds, and afterwards the getters show
empty lists exactly where both were empty before. -/
lemma exactStep_delInreplyto (hkind : o.kind = k.kind) (hb : Backed h p o)
    (hs : ∀ g : Adder, g.list.owner = k.kind → g.list.get o = some (.nodes (lists g)))
    (hlegal : Legal ⟨h, size, held⟩ (ListCall.entryDelInreplyto.call p)) :
    ExactStep k p ⟨h, size, held⟩ lists .entryDelInreplyto
      (SparesLists p ⟨h, size, held⟩ .entryDelInreplyto) := by
  have hentry : o.kind = .entry := kind_of_isKind hb.obj hlegal
  have hf : Adder.entryAddInreplyto.list.owner = k.kind := hentry.symm.trans hkind
  obtain ⟨e, rfl⟩ := eq_entry_of_kind hentry
  have hget : e.inReplyTo = .nodes (lists .entryAddInreplyto) :=
    Option.some.inj (hs .entryAddInreplyto hf)
  have hext : e.extElements = .nodes (lists .entryAddSee) := Option.some.inj (hs .entryAddSee hf)
  obtain ⟨h', hdel, hobj, hkept⟩ := hb.delInreplyto hget
  have hcall : listStep p ⟨h, size, held⟩ .entryDelInreplyto = some ⟨h', size, held⟩ := by
    rw [listStep, ListCall.call, step, hdel, World.after, Option.map_some]
  have hspared : SparesLists p ⟨h, size, held⟩ .entryDelInreplyto ↔
      lists .entryAddInreplyto = [] ∧ lists .entryAddSee = [] := by
    simp only [SparesLists, hb.obj, Option.some.injEq, AtomObj.entry.injEq, forall_eq', hget, hext,
      ListPtr.items]
  rw [hspared]
  by_cases hempty : lists .entryAddInreplyto = [] ∧ lists .entryAddSee = []
  · rw [hempty.1] at hkept
    have hsame : forgetReplies [] (.entry e) = entryInReplyTo.set (.entry e) (.nodes []) := by
      simp [forgetReplies, entryInReplyTo, entryExtElements, hext, hempty.2]
    have hb' := hkept ⟨rfl, by rw [hext, ListPtr.items, hempty.2]⟩
    rw [hsame] at hb'
    exact ExactStep.assigned (f := .entryAddInreplyto) hkind hf hs hb' hcall rfl hempty
  · -- a list that is not empty is not shown any more
    have hlost : ¬ ShowsLists k p ⟨h', size, held⟩ (lists.after .entryDelInreplyto) := by
      rw [showsLists_iff hobj]
      intro hafter
      have hreplies := hafter .entryAddInreplyto hf
      have hsee := hafter .entryAddSee hf
      simp only [Lists.after, Function.update_self] at hreplies
      rw [Lists.after, Function.update_of_ne (by decide)] at hsee
      refine hempty ⟨?_, ?_⟩
      · by_contra hne
        simp [forgetReplies, hne, Adder.list, entryInReplyTo, entryExtElements] at hreplies
      · simpa [forgetReplies, Adder.list, entryInReplyTo, entryExtElements] using hsee.symm
    exact ExactStep.lost hcall hlost hempty

end Calls

/-- **One call** from a state in which the getters return the lists. -/
lemma listStep_exact (hk : Kept k p w) (hs : ShowsLists k p w lists)
    (hlegal : Legal w (c.call p)) : ExactStep k p w lists c (SparesLists p w c) := by
  obtain ⟨h, size, held⟩ := w
  obtain ⟨o, hkind, hb⟩ := hk
  simp only at hb
  rw [showsLists_iff hb.obj] at hs
  cases c with
  | add f a => exact exactStep_add hkind hb hs hlegal
  | del d => exact exactStep_del hkind hb hs hlegal
  | entryDelSee => exact exactStep_delSee hkind hb hs hlegal
  | entryDelInreplyto => exact exactStep_delInreplyto hkind hb hs hlegal

/-- The kind of a new object. -/
lemma kind_fresh (k : Owner) (unassigned : ListPtr) : (k.fresh unassigned).kind = k.kind := by
  cases k <;> rfl

/-- A new object stores nothing. -/
lemma stores_fresh (k : Owner) : (k.fresh (.nodes [])).stores = [] := by
  cases k <;> rfl

/-- A new object has nothing in its slots. -/
lemma slots_fresh (k : Owner) : (k.fresh (.nodes [])).slots = [] := by
  cases k <;> rfl

/-- In a new object the getters return empty lists exactly when the unassigned field was `NULL`.

**Proof sketch.** All lists but one are assigned by the constructor; the getter of that one
returns what was in memory. -/
lemma showsLists_fresh (w : World) (k : Owner) (unassigned : ListPtr) :
    ShowsLists k w.size (w.create (k.fresh unassigned)) (fun _ => []) ↔ unassigned = .nodes [] := by
  have hlists : ShowsLists k w.size (w.create (k.fresh unassigned)) (fun _ => []) ↔
      ∀ f : Adder, f.list.owner = k.kind → f.list.get (k.fresh unassigned) = some (.nodes []) :=
    showsLists_iff (obj_create_self w _)
  rw [hlists]
  cases k with
  | entry =>
    constructor
    · intro h
      exact Option.some.inj (h .entryAddSee rfl)
    · rintro rfl f hf
      cases f <;> first | rfl | cases hf
  | feed =>
    constructor
    · intro h
      exact Option.some.inj (h .feedAddLink rfl)
    · rintro rfl f hf
      cases f <;> first | rfl | cases hf

/-- A new object stores nothing. -/
lemma kept_fresh {w : World} (hw : ∀ a c, w.heap.count a = some c → 0 < c) (k : Owner) :
    Kept k w.size (w.create (k.fresh (.nodes []))) := by
  refine ⟨_, kind_fresh k _, obj_create_self w _, fun x hx => ?_, fun a c hc => ?_⟩
  · rw [slots_fresh] at hx
    cases hx
  · rw [stores_fresh, List.count_nil]
    by_cases haw : a = w.size
    · subst haw
      rw [count_create_self] at hc
      obtain rfl := Option.some.inj hc
      exact Int.one_pos
    · rw [count_create_of_ne haw] at hc
      exact hw a c hc

/-- **The lists are independent and complete.** After every call of a run on a new entry or feed the
getters return what was added to each list since it was last emptied, exactly when the unassigned
field was `NULL` by chance, and each call of the run is one of the spared.

**Proof sketch.** The empty run shows that the unassigned field was `NULL`. From there the rule
for exact guards with a specification (`Machine.guardedRun_iff_follows`) reduces the run to one
call, for which each of the lists has its own lemma. -/
theorem lists_independent_iff (w : World) (hw : ∀ a c, w.heap.count a = some c → 0 < c) (k : Owner)
    (unassigned : ListPtr) (calls : List ListCall)
    (hlegal : Machine.GuardedRun (listStep w.size) (fun w' c => Legal w' (c.call w.size))
      (w.create (k.fresh unassigned)) calls) :
    (∀ pre, pre <+: calls → ∃ w',
        Machine.run? (listStep w.size) (w.create (k.fresh unassigned)) pre = some w' ∧
        ShowsLists k w.size w' (Machine.run Lists.after (fun _ => []) pre)) ↔
      unassigned = .nodes [] ∧
        Machine.GuardedRun (listStep w.size) (SparesLists w.size) (w.create (k.fresh unassigned))
          calls := by
  by_cases hnull : unassigned = .nodes []
  · subst hnull
    have hkeep : ∀ w₁ lists c w₂, Kept k w.size w₁ → ShowsLists k w.size w₁ lists →
        Legal w₁ (c.call w.size) → listStep w.size w₁ c = some w₂ →
        ShowsLists k w.size w₂ (lists.after c) → Kept k w.size w₂ :=
      fun _ _ _ w₂ hk hs hl hstep hs' => (listStep_exact hk hs hl).2 w₂ hstep hs'
    have hexact : ∀ w₁ lists c, Kept k w.size w₁ → ShowsLists k w.size w₁ lists →
        Legal w₁ (c.call w.size) → (SparesLists w.size w₁ c ↔
          ∃ w₂, listStep w.size w₁ c = some w₂ ∧ ShowsLists k w.size w₂ (lists.after c)) :=
      fun _ _ _ hk hs hl => (listStep_exact hk hs hl).1
    have hfollows := Machine.guardedRun_iff_follows hkeep hexact (kept_fresh hw k)
      ((showsLists_fresh w k _).mpr rfl) hlegal
    exact ⟨fun h => ⟨rfl, hfollows.mpr h⟩, fun h => hfollows.mp h.2⟩
  · refine ⟨fun h => ?_, fun h => absurd h.1 hnull⟩
    obtain ⟨w', hw', hshows⟩ := h [] List.nil_prefix
    obtain rfl := Option.some.inj hw'
    exact absurd ((showsLists_fresh w k unassigned).mp hshows) hnull

/-- A memory with one extension element, which the caller holds. -/
def oneElement : World := simpleElementNew World.start

/-- The element is the one object, counted once. -/
lemma count_oneElement {a : ℕ} {c : ℤ} (hc : oneElement.heap.count a = some c) : a = 0 ∧ c = 1 := by
  by_cases ha : a = 0
  · subst ha
    exact ⟨rfl, (Option.some.inj hc).symm⟩
  · rw [show oneElement = World.start.create (.simpleElement .owned) from rfl,
      count_create_of_ne ha] at hc
    cases hc

/-- The element is added to a new entry, and the extension elements are emptied.

**Proof sketch.** `lists_independent_iff`; both calls are legal, the element has room for a
reference, and has its strings. -/
theorem lists_independent_see :
    ∃ w', Machine.run? (listStep 1) (oneElement.create (Owner.entry.fresh (.nodes [])))
        [.add .entryAddSee 0, .entryDelSee] = some w' ∧
      ShowsLists .entry 1 w' (Machine.run Lists.after (fun _ => [])
        [.add .entryAddSee 0, .entryDelSee]) := by
  refine (lists_independent_iff oneElement (fun a c hc => ?_) .entry (.nodes [])
    [.add .entryAddSee 0, .entryDelSee] ?_).mpr ⟨rfl, ?_⟩ _ (List.prefix_refl _)
  · rw [(count_oneElement hc).2]
    exact Int.one_pos
  · refine ⟨⟨rfl, rfl⟩, fun w hw => ?_⟩
    obtain rfl := Option.some.inj hw
    exact ⟨rfl, fun _ _ => trivial⟩
  · refine ⟨fun c hc => ?_, fun w hw => ?_⟩
    · obtain rfl := Option.some.inj hc
      decide
    · obtain rfl := Option.some.inj hw
      refine ⟨fun e he => ?_, fun _ _ => trivial⟩
      obtain rfl := AtomObj.entry.inj (Option.some.inj he)
      refine ⟨List.nodup_singleton 0, fun a ha hfreed => ?_⟩
      obtain rfl := List.mem_singleton.mp ha
      cases hfreed

/-- Emptying the replies, of which there are none, loses the extension element.

**Proof sketch.** The run is computed: after it the getter shows no extension element. -/
theorem lists_independent_inreplyto :
    ¬ ∀ (w : World), (∀ a c, w.heap.count a = some c → 0 < c) → ∀ (k : Owner)
      (unassigned : ListPtr) (calls : List ListCall),
      Machine.GuardedRun (listStep w.size) (fun w' c => Legal w' (c.call w.size))
        (w.create (k.fresh unassigned)) calls →
      ∀ pre, pre <+: calls → ∃ w',
        Machine.run? (listStep w.size) (w.create (k.fresh unassigned)) pre = some w' ∧
        ShowsLists k w.size w' (Machine.run Lists.after (fun _ => []) pre) := by
  intro h
  have hw : ∀ a c, oneElement.heap.count a = some c → 0 < c := by
    intro a c hc
    rw [(count_oneElement hc).2]
    exact Int.one_pos
  obtain ⟨w', hw', hshows⟩ := h oneElement hw .entry (.nodes [])
    [.add .entryAddSee 0, .entryDelInreplyto] (by
      refine ⟨⟨rfl, rfl⟩, fun w hw => ?_⟩
      obtain rfl := Option.some.inj hw
      exact ⟨rfl, fun _ _ => trivial⟩) _ (List.prefix_refl _)
  obtain rfl := Option.some.inj hw'
  have hsee := hshows .entryAddSee rfl
  cases hsee

end Runs

end Taningia.Refs
