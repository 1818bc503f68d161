import Taningia.Object.EntryObjects

set_option relaxedAutoImplicit false
set_option autoImplicit false

/-!
# The objects of the children of an entry

The loop of `ta_atom_entry_set_from_iks` creates an IRI and a person for an author, a category with
its IRI, and an in-reply-to object with its IRIs. Each child comes to the fate that it has in the
model of the entry; the in-reply-to object may be dropped and used then.

## Main definitions

* `Taningia.Refs.Follows` — a part comes to a fate, with what is kept.
* `Taningia.Refs.DropsAndUses` — an in-reply-to element whose object is used when it is gone.

## Main results

* `Taningia.Refs.parseAuthor_follows`, `Taningia.Refs.parseCategory_follows`,
  `Taningia.Refs.parseInReplyTo_follows` — the structured children.
* `Taningia.Refs.parseChildren_follows` — the loop over the children.
-/

namespace Taningia.Refs

open RefCount

variable {N : Type}

/-! ## Authors and categories -/

/-- A part of the parser comes to a fate, and keeps what is to be kept; a fault is the use of an
object that is not in memory, or none. -/
def Follows (kept : World → Prop) (dangles : Prop) : ParseFate → RefFlow RefParse → Prop
  | .goesOn recorded, flow => ∃ s, flow = .ok s ∧ kept s.world ∧ s.err.Tells recorded
  | .stops, flow => ∃ s, flow = .error (.returns 0 s) ∧ kept s.world
  | .faults, flow => (dangles → flow = .error .dangling) ∧ (¬ dangles → flow = .error .fault)

/-- A condition for a dangling pointer can be replaced by an equivalent one. -/
lemma Follows.congr {kept : World → Prop} {d d' : Prop} {fate : ParseFate}
    {flow : RefFlow RefParse} (h : Follows kept d fate flow) (hd : d ↔ d') :
    Follows kept d' fate flow := by
  cases fate with
  | goesOn recorded => exact h
  | stops => exact h
  | faults => exact ⟨fun hd' => h.1 (hd.mpr hd'), fun hd' => h.2 (fun hd₀ => hd' (hd.mp hd₀))⟩

section Parts

variable {p eid a : ℕ} {w w' : World} {s : RefParse} {recorded : Bool}

/-- An IRI is plain. -/
lemma plain_iri : Plain .iri := ⟨trivial, fun _ hx => absurd hx List.not_mem_nil⟩

/-- A part is refused without letting go of anything. -/
lemma refuse_none (hs : s.err ≠ .cleared) (message : String) :
    ∃ s', refuse (S := RefParse) s message [] = .error (.returns 0 s') ∧ s'.world = s.world := by
  obtain ⟨error, hrefuse⟩ := refuse_eq (S := RefParse) (w := s.world) hs message [] rfl
  exact ⟨_, hrefuse, rfl⟩

/-- A way out that lets go of a new IRI. -/
lemma Tracked.refuse_iri (hk : Tracked p eid w) {err : ErrState} (herr : err ≠ .cleared)
    (message : String) :
    ∃ s', refuse (S := RefParse) ⟨w.create .iri, err⟩ message [w.size] =
      .error (.returns 0 s') ∧ Tracked p eid s'.world := by
  have hp := hk.inOrder.lt_size hk.entry.kind
  have hid := hk.inOrder.lt_size hk.id.kind
  obtain ⟨w', hstep, hk'⟩ := (hk.create (o := .iri) rfl).unref (new_create w .iri).toHas
    (by omega) (by omega) (obj_create_self w .iri) plain_iri
  obtain ⟨error, hrefuse⟩ := refuse_eq (S := RefParse) herr message [w.size]
    (by rw [List.foldlM_cons, hstep]; rfl)
  exact ⟨_, hrefuse, hk'⟩

/-- **A child with an optional IRI** follows its fate, when what adds it goes on.

**Proof sketch.** By cases on the required text and the IRI, with the lemma on `partFate` for
each. An accepted IRI is refused, and the IRI made for it is let go or left; a rejected one is a
new IRI, which `hadd` hands on. -/
lemma follows_part {bare : RefParse → RefFlow RefParse} {add : ℕ → RefParse → RefFlow RefParse}
    (hbare : ∀ w err, Tracked p eid w → ∃ w', bare ⟨w, err⟩ = .ok ⟨w', err⟩ ∧ Tracked p eid w')
    (hadd : ∀ i w err, Tracked p eid w → New w i .iri →
      ∃ w', add i ⟨w, err⟩ = .ok ⟨w', err⟩ ∧ Tracked p eid w')
    (hk : Tracked p eid s.world) (hs : s.err.Tells recorded) (required iri : Option Str)
    (missing invalid : String) :
    Follows (Tracked p eid) False (partFate required iri recorded)
      (parsePart required missing iri invalid bare add s) := by
  unfold parsePart
  cases required with
  | none =>
    rw [partFate_missing]
    cases recorded with
    | true =>
      obtain ⟨s', hrefuse, hworld⟩ := refuse_none hs.ne_cleared missing
      exact ⟨s', hrefuse, hworld ▸ hk⟩
    | false => exact ⟨False.elim, fun _ => refuse_cleared hs.eq_cleared missing []⟩
  | some text =>
    cases iri with
    | none =>
      rw [partFate_bare]
      obtain ⟨w', hgoes, hk'⟩ := hbare s.world s.err hk
      exact ⟨_, hgoes, hk', hs⟩
    | some iri =>
      cases haccepts : iriAccepts iri with
      | true =>
        obtain ⟨status, hread, hnot⟩ := newIriFrom_accepts haccepts s
        rw [partFate_accepted haccepts]
        simp only [hread, hnot, bind, Except.bind, if_true]
        cases recorded with
        | true => exact hk.refuse_iri hs.ne_cleared invalid
        | false =>
          refine ⟨False.elim, fun _ => ?_⟩
          exact refuse_cleared (s := ⟨s.world.create .iri, s.err⟩) hs.eq_cleared invalid _
      | false =>
        rw [partFate_rejected haccepts]
        cases recorded with
        | true =>
          obtain ⟨status, error, hread, hnot⟩ := newIriFrom_rejects haccepts hs.ne_cleared
          simp only [hread, hnot, bind, Except.bind, Bool.false_eq_true, if_false]
          obtain ⟨w', hgoes, hk'⟩ := hadd s.world.size (s.world.create .iri) (.shown error)
            (hk.create rfl) (new_create s.world .iri)
          exact ⟨_, hgoes, hk', .shown error⟩
        | false =>
          refine ⟨False.elim, fun _ => ?_⟩
          simp only [newIriFrom_rejects_cleared haccepts hs.eq_cleared]
          rfl

/-- A new object with its constructor's argument. -/
lemma new_createWith {r : Option AtomMemory} {o : AtomObj} (hnew : w.createWith r o = some w') :
    New w' w.size o.kind := by
  obtain ⟨h, -, rfl⟩ := Option.map_eq_some_iff.mp hnew
  exact new_create { w with heap := h } o

/-- A new object is added to a list of the entry. -/
lemma Tracked.add (hk : Tracked p eid w) {f : Adder} (ha : New w a f.list.item)
    (howner : f.list.owner = .entry)
    (hlist : ∀ o list, f.list.get o = some list → list.walk ≠ none) :
    ∃ w', Refs.step w (.add f p a) = some w' ∧ Tracked p eid w' :=
  hk.step trivial ⟨howner ▸ hk.entry.kind, ha.kind⟩ ⟨ha.hasRoom, fun o list _ => hlist o list⟩
    (by simp) (by simp)

/-- An author with its IRI is made and added. -/
lemma addNewAuthor_goesOn {i : ℕ} {err : ErrState} (hk : Tracked p eid w) (hi : New w i .iri) :
    ∃ w', addNewAuthor p i ⟨w, err⟩ = .ok ⟨w', err⟩ ∧ Tracked p eid w' := by
  obtain ⟨w₁, hnew, hk₁⟩ := hk.step (c := .personNew (some i)) trivial
    (fun b hb => Option.some.inj hb ▸ hi.kind) (fun b hb => Option.some.inj hb ▸ hi.hasRoom)
    (by simp) (by simp)
  have hperson : New w₁ w.size .person := new_createWith hnew
  obtain ⟨w₂, hadd, hk₂⟩ := hk₁.add (f := .entryAddAuthor) hperson rfl (by
    rintro ⟨⟩ list hget <;> cases hget
    exact Option.some_ne_none _)
  refine ⟨w₂, ?_, hk₂⟩
  unfold addNewAuthor
  rw [RefParse.call_eq (s := ⟨w, err⟩) hnew]
  exact RefParse.call_eq (s := ⟨w₁, err⟩) hadd

/-- A category is made and added. -/
lemma addNewCategory_goesOn {iri : Option ℕ} {err : ErrState} (hk : Tracked p eid w)
    (hiri : ∀ i ∈ iri, New w i .iri) :
    ∃ w', addNewCategory p iri ⟨w, err⟩ = .ok ⟨w', err⟩ ∧ Tracked p eid w' := by
  obtain ⟨w₁, hnew, hk₁⟩ := hk.step (c := .categoryNew iri) trivial
    (fun b hb => (hiri b hb).kind) (fun b hb => (hiri b hb).hasRoom) (by simp) (by simp)
  have hcategory : New w₁ w.size .category := new_createWith hnew
  obtain ⟨w₂, hadd, hk₂⟩ := hk₁.add (f := .entryAddCategory) hcategory rfl (by
    rintro ⟨⟩ list hget <;> cases hget
    exact Option.some_ne_none _)
  refine ⟨w₂, ?_, hk₂⟩
  unfold addNewCategory
  rw [RefParse.call_eq (s := ⟨w, err⟩) hnew]
  exact RefParse.call_eq (s := ⟨w₁, err⟩) hadd

/-- An author follows its fate. -/
lemma parseAuthor_follows (x : Iksemel N) (child : N) (hk : Tracked p eid s.world)
    (hs : s.err.Tells recorded) :
    Follows (Tracked p eid) False
      (partFate (x.findCdata child "name".toList) (x.findCdata child "uri".toList) recorded)
      (parseAuthor x p child s) := by
  refine follows_part (fun w err hw => ?_) (fun i w err hw hi => addNewAuthor_goesOn hw hi) hk hs
    _ _ _ _
  unfold addBareAuthor
  rw [RefParse.call_eq (c := .iriNew) rfl]
  exact addNewAuthor_goesOn (hw.create rfl) (new_create w .iri)

/-- A category follows its fate. -/
lemma parseCategory_follows (x : Iksemel N) (child : N) (hk : Tracked p eid s.world)
    (hs : s.err.Tells recorded) :
    Follows (Tracked p eid) False
      (partFate (x.findAttrib child "term".toList) (x.findAttrib child "scheme".toList) recorded)
      (parseCategory x p child s) := by
  refine follows_part (fun w err hw => ?_) (fun i w err hw hi => ?_) hk hs _ _ _ _
  · exact addNewCategory_goesOn hw (by simp)
  · refine addNewCategory_goesOn hw fun b hb => ?_
    obtain rfl := Option.some.inj hb
    exact hi

end Parts

/-! ## In-reply-to elements -/

/-- What comes behind the object is used when the object is gone: its type is set, behind an
accepted href without a source, or behind an accepted source. -/
def ReplyDangles (href source type : Option Str) : Prop :=
  type ≠ none ∧ (Accepted href ∧ source = none ∨ ¬ Accepted href ∧ Accepted source)

section Replies

variable {p eid a irt : ℕ} {w w' : World} {o : AtomObj}

/-- A field that is empty is assigned. -/
lemma setField_bare {h h' : AtomMemory} {f : RefSlot} (ho : h.obj p = some o)
    (hget : f.get o = some none) (hap : p ≠ a) (hset : setField f h p a = some h') :
    h'.obj p = some (f.set o (some a)) ∧ h'.count p = h.count p := by
  unfold setField at hset
  simp only [ho, Option.bind_eq_bind, Option.bind_some, hget, unrefField] at hset
  obtain ⟨h₁, href, hwrite⟩ := Option.bind_eq_some_iff.mp hset
  have ho₁ : h₁.obj p = some o := by rw [obj_of_ref href, ho]
  rw [Memory.write_eq ho₁] at hwrite
  obtain rfl := Option.some.inj hwrite
  refine ⟨h₁.obj_setObj_self p _ (by simp [ho₁]), ?_⟩
  rw [h₁.count_setObj]
  exact count_of_ref href hap

/-- An in-reply-to element is plain. -/
lemma plain_inReplyTo (ref href source : Option ℕ) : Plain (.inReplyTo ref href source) :=
  ⟨trivial, fun _ hx => (Kind.mem_ofAll.mp hx).2⟩

/-- An IRI that is not accepted is stored, if there is one.

**Proof sketch.** Without the attribute nothing is done. A rejected text leaves a new IRI behind
an error, which the setter stores in the empty field of the object. -/
lemma parseReplyIri_stored {attrib : Option Str} (hattrib : ¬ Accepted attrib) (what : String)
    (set : Setter) (error : ErrorT) (howner : set.field.owner = .inReplyTo)
    (hitem : set.field.item = .iri)
    (hk : Tracked p eid w) (hn : New w irt .inReplyTo) (ho : w.heap.obj irt = some o)
    (hget : set.field.get o = some none) :
    ∃ w' error' o', parseReplyIri attrib what set irt ⟨w, .shown error⟩ = .ok ⟨w', .shown error'⟩ ∧
      Tracked p eid w' ∧ New w' irt .inReplyTo ∧ w'.heap.obj irt = some o' ∧
      (o' = o ∨ ∃ a, o' = set.field.set o (some a)) := by
  unfold parseReplyIri
  cases attrib with
  | none => exact ⟨w, error, o, rfl, hk, hn, ho, Or.inl rfl⟩
  | some text =>
    have hrejects : iriAccepts text = false := by simpa using hattrib
    obtain ⟨status, error', hread, hnot⟩ :=
      newIriFrom_rejects hrejects (s := ⟨w, .shown error⟩) (by simp)
    simp only [hread, hnot, bind, Except.bind, Bool.false_eq_true, if_false]
    have hlt := hk.inOrder.lt_size hn.kind
    have hiri : New (w.create .iri) w.size .iri := new_create w .iri
    have hn₁ := hn.create hlt .iri
    have hk₁ : Tracked p eid (w.create .iri) := hk.create rfl
    have ho₁ : (w.create .iri).heap.obj irt = some o := (obj_create_of_ne hlt.ne _).trans ho
    obtain ⟨w', hstep, hk'⟩ := hk₁.step (c := .set set irt w.size) trivial
      ⟨howner ▸ hn₁.kind, hitem ▸ hiri.kind⟩
      (hiri.canSet hk₁.inOrder set.field fun hne => absurd hitem hne) (by simp) (by simp)
    have hhas := hn₁.toHas.step (c := .set set irt w.size) hk₁.inOrder trivial hstep hk'.inOrder
      (by simp)
    obtain ⟨h', hcall, rfl⟩ := Option.map_eq_some_iff.mp hstep
    rw [set.call_eq] at hcall
    obtain ⟨hobj, hcount⟩ := setField_bare ho₁ hget (by omega) hcall
    exact ⟨_, error', _, RefParse.call_eq hstep, hk', ⟨hhas, hcount.trans hn₁.count⟩, hobj,
      Or.inr ⟨w.size, rfl⟩⟩

/-- An accepted IRI drops the object and clears the record.

**Proof sketch.** The IRI that was made for the text is left behind. The report clears the
record, and letting go of the object, which is held once, frees it with the IRIs that it stores. -/
lemma parseReplyIri_drops {attrib : Option Str} (hattrib : Accepted attrib) (what : String)
    (set : Setter) (error : ErrorT) (hk : Tracked p eid w) (hn : New w irt .inReplyTo)
    (ho : w.heap.obj irt = some o) :
    ∃ w', parseReplyIri attrib what set irt ⟨w, .shown error⟩ = .ok ⟨w', .cleared⟩ ∧
      Tracked p eid w' ∧ w'.heap.obj irt = none := by
  unfold parseReplyIri
  obtain ⟨text, rfl, haccepts⟩ := hattrib
  obtain ⟨status, hread, hnot⟩ := newIriFrom_accepts haccepts ⟨w, .shown error⟩
  simp only [hread, hnot, bind, Except.bind, if_true]
  rw [reportLast_eq (s := ⟨w.create .iri, .shown error⟩) rfl]
  have hlt := hk.inOrder.lt_size hn.kind
  have hn₁ := hn.create hlt .iri
  have ho₁ : (w.create .iri).heap.obj irt = some o := (obj_create_of_ne hlt.ne _).trans ho
  have hkind : o.kind = .inReplyTo := kind_of_isKind ho hn.kind
  have hplain : Plain o := by
    cases o with
    | inReplyTo ref href source => exact plain_inReplyTo ref href source
    | _ => cases hkind
  obtain ⟨w', hstep, hk'⟩ := (hk.create (o := .iri) rfl).unref hn₁.toHas
    (hn.kind.ne hk.entry.kind (by decide)) (hn.kind.ne hk.id.kind (by decide)) ho₁ hplain
  refine ⟨w', RefParse.call_eq (s := ⟨w.create .iri, .cleared⟩) hstep, hk', ?_⟩
  obtain ⟨h', hunref, rfl⟩ := Option.map_eq_some_iff.mp hstep
  exact obj_of_unref_last hn₁.count hunref

/-- Behind a cleared record an IRI is a fault. -/
lemma parseReplyIri_cleared {attrib : Option Str} (hattrib : attrib ≠ none) (what : String)
    (set : Setter) : parseReplyIri attrib what set irt ⟨w, .cleared⟩ = .error .fault := by
  obtain ⟨text, rfl⟩ := Option.ne_none_iff_exists'.mp hattrib
  unfold parseReplyIri
  cases haccepts : iriAccepts text with
  | true =>
    obtain ⟨status, hread, hnot⟩ := newIriFrom_accepts haccepts ⟨w, .cleared⟩
    simp only [hread, hnot, bind, Except.bind, if_true]
    rw [reportLast_of_cleared (s := ⟨w.create .iri, .cleared⟩) rfl]
  | false =>
    simp only [newIriFrom_rejects_cleared haccepts (s := ⟨w, .cleared⟩) rfl]
    rfl

/-- The type is set in an object that is gone. -/
lemma call_setString_gone (hgone : w.heap.obj irt = none) (err : ErrState) :
    RefParse.call ⟨w, err⟩ (.setString irt) = .error .dangling := by
  have hstep : Refs.step w (.setString irt) = none := by
    show w.after (setString w.heap irt) = none
    unfold setString
    rw [hgone]
    rfl
  unfold RefParse.call
  rw [hstep]

/-- The type of an object that is there. -/
lemma call_setString_there (ho : w.heap.obj irt = some o) (hn : IsKind w.heap irt .inReplyTo)
    (err : ErrState) : RefParse.call ⟨w, err⟩ (.setString irt) = .ok ⟨w, err⟩ := by
  refine RefParse.call_eq (s := ⟨w, err⟩) (step_setString ho ?_)
  rw [kind_of_isKind ho hn]
  decide

/-- **What is read behind the ref** follows its fate.

**Proof sketch.** The href and the source in turn. As long as they are not accepted they are
stored in the object (`parseReplyIri_stored`); an accepted one drops it (`parseReplyIri_drops`),
and the next attribute that is given is written through the pointer that dangles. -/
lemma parseReplyRest_follows (x : Iksemel N) (child : N) (error : ErrorT) (hk : Tracked p eid w)
    (hn : New w irt .inReplyTo) {ref : Option ℕ}
    (ho : w.heap.obj irt = some (.inReplyTo ref none none)) :
    Follows (Tracked p eid)
      (ReplyDangles (x.findAttrib child "href".toList) (x.findAttrib child "source".toList)
        (x.findAttrib child "type".toList))
      (if Accepted (x.findAttrib child "href".toList) then
          (if x.findAttrib child "source".toList = none ∧ x.findAttrib child "type".toList = none
            then .goesOn false else .faults)
        else if Accepted (x.findAttrib child "source".toList) then
          (if x.findAttrib child "type".toList = none then .goesOn false else .faults)
        else .goesOn true)
      (parseReplyRest x child irt ⟨w, .shown error⟩) := by
  unfold parseReplyRest ReplyDangles
  by_cases hhref : Accepted (x.findAttrib child "href".toList)
  · -- the object is gone and the record cleared
    obtain ⟨w₁, hread₁, hk₁, hgone⟩ := parseReplyIri_drops hhref
      "InReplyTo element with an invalid href attribute: " .inReplyToSetHref error hk hn ho
    rw [if_pos hhref]
    simp only [hread₁, bind, Except.bind, hhref, true_and, not_true_eq_false, false_and, or_false]
    cases hsource : x.findAttrib child "source".toList with
    | some source =>
      rw [if_neg (by simp), parseReplyIri_cleared (by simp)]
      exact ⟨by simp, fun _ => rfl⟩
    | none =>
      cases htype : x.findAttrib child "type".toList with
      | none => exact ⟨⟨w₁, .cleared⟩, rfl, hk₁, .cleared⟩
      | some type =>
        rw [if_neg (by simp)]
        exact ⟨fun _ => call_setString_gone hgone .cleared, fun h => absurd ⟨by simp, rfl⟩ h⟩
  · obtain ⟨w₁, error₁, o₁, hread₁, hk₁, hn₁, ho₁, heq₁⟩ := parseReplyIri_stored hhref
      "InReplyTo element with an invalid href attribute: " .inReplyToSetHref error rfl rfl hk hn ho
      rfl
    have hget : replySource.get o₁ = some none := by
      rcases heq₁ with rfl | ⟨a, rfl⟩
      · rfl
      · rfl
    rw [if_neg hhref]
    simp only [hread₁, bind, Except.bind, hhref, false_and, not_false_eq_true, true_and, false_or]
    by_cases hsource : Accepted (x.findAttrib child "source".toList)
    · obtain ⟨w₂, hread₂, hk₂, hgone⟩ := parseReplyIri_drops hsource
        "InReplyTo element with an invalid source attribute: " .inReplyToSetSource error₁ hk₁ hn₁
        ho₁
      rw [if_pos hsource]
      simp only [hread₂, hsource, and_true]
      cases htype : x.findAttrib child "type".toList with
      | none => exact ⟨⟨w₂, .cleared⟩, rfl, hk₂, .cleared⟩
      | some type =>
        rw [if_neg (by simp)]
        exact ⟨fun _ => call_setString_gone hgone .cleared, fun h => absurd (by simp) h⟩
    · obtain ⟨w₂, error₂, o₂, hread₂, hk₂, hn₂, ho₂, -⟩ := parseReplyIri_stored hsource
        "InReplyTo element with an invalid source attribute: " .inReplyToSetSource error₁ rfl rfl
        hk₁ hn₁ ho₁ hget
      rw [if_neg hsource]
      simp only [hread₂]
      refine ⟨⟨w₂, .shown error₂⟩, ?_, hk₂, .shown error₂⟩
      split_ifs
      · exact call_setString_there ho₂ hn₂.kind (.shown error₂)
      · rfl

end Replies

/-- An in-reply-to element with a rejected ref, whose object is used when it is gone. -/
def DropsAndUses (x : Iksemel N) (recorded : Bool) (child : N) : Prop :=
  recorded = true ∧ x.name child = some "in-reply-to".toList ∧
    (∃ ref, x.findAttrib child "ref".toList = some ref ∧ iriAccepts ref = false) ∧
    ReplyDangles (x.findAttrib child "href".toList) (x.findAttrib child "source".toList)
      (x.findAttrib child "type".toList)

section Children

variable {x : Iksemel N} {p eid : ℕ} {s : RefParse} {recorded : Bool} {child : N}

/-- Behind a cleared record an in-reply-to element is a fault.

**Proof sketch.** Without a ref the error that refuses it is the fault, with an accepted one the
report, with a rejected one the error of its parse. -/
lemma parseInReplyTo_cleared (hs : s.err = .cleared) :
    parseInReplyTo x child s = .error .fault := by
  unfold parseInReplyTo
  cases x.findAttrib child "ref".toList with
  | none => exact refuse_cleared hs _ []
  | some ref =>
    cases haccepts : iriAccepts ref with
    | true =>
      obtain ⟨status, hread, hnot⟩ := newIriFrom_accepts haccepts s
      simp only [hread, hnot, bind, Except.bind, if_true]
      rw [reportLast_of_cleared (s := ⟨s.world.create .iri, s.err⟩) hs]
    | false =>
      simp only [newIriFrom_rejects_cleared haccepts hs]
      rfl

/-- **An in-reply-to element** follows its fate.

**Proof sketch.** Behind a cleared record it is a fault. Behind an error a missing ref is
refused and an accepted one reported; a rejected one makes the object, from which
`parseReplyRest_follows` goes on. -/
lemma parseInReplyTo_follows (hname : x.name child = some "in-reply-to".toList)
    (hk : Tracked p eid s.world) (hs : s.err.Tells recorded) :
    Follows (Tracked p eid) (DropsAndUses x recorded child)
      (replyFate (x.findAttrib child "ref".toList) (x.findAttrib child "href".toList)
        (x.findAttrib child "source".toList) (x.findAttrib child "type".toList) recorded)
      (parseInReplyTo x child s) := by
  unfold replyFate DropsAndUses
  cases recorded with
  | false => exact ⟨by simp, fun _ => parseInReplyTo_cleared hs.eq_cleared⟩
  | true =>
    obtain ⟨error, hshown⟩ := hs.eq_shown
    have hne := hs.ne_cleared
    rw [if_neg (by simp)]
    unfold parseInReplyTo
    cases href : x.findAttrib child "ref".toList with
    | none =>
      rw [if_pos (Or.inl rfl)]
      obtain ⟨s', hrefuse, hworld⟩ := refuse_none hne "InReplyTo element with no ref attribute."
      exact ⟨s', hrefuse, hworld ▸ hk⟩
    | some ref =>
      cases haccepts : iriAccepts ref with
      | true =>
        obtain ⟨status, hread, hnot⟩ := newIriFrom_accepts haccepts s
        rw [if_pos (Or.inr ((accepted_some ref).mpr haccepts))]
        simp only [hread, hnot, bind, Except.bind, if_true]
        rw [reportLast_eq (s := ⟨s.world.create .iri, s.err⟩) hshown]
        exact ⟨_, rfl, hk.create rfl⟩
      | false =>
        obtain ⟨status, error', hread, hnot⟩ := newIriFrom_rejects haccepts hne
        rw [if_neg (by simp [haccepts])]
        simp only [hread, hnot, bind, Except.bind, Bool.false_eq_true, if_false]
        -- the object takes a reference to the IRI of the ref
        have hk₁ : Tracked p eid (s.world.create .iri) := hk.create rfl
        have hiri : New (s.world.create .iri) s.world.size .iri := new_create s.world .iri
        obtain ⟨w₂, hnew, hk₂⟩ := hk₁.step (c := .inReplyToNew s.world.size) trivial hiri.kind
          hiri.hasRoom (by simp) (by simp)
        rw [RefParse.call_eq (s := ⟨s.world.create .iri, .shown error'⟩) hnew]
        have hirt := new_createWith hnew
        obtain ⟨h, -, hw₂⟩ := Option.map_eq_some_iff.mp hnew
        have ho : w₂.heap.obj (s.world.create .iri).size =
            some (.inReplyTo (some s.world.size) none none) := by
          rw [← hw₂]
          exact obj_create_self { s.world.create .iri with heap := h } _
        have hrest := parseReplyRest_follows x child error' hk₂ hirt ho
        exact hrest.congr ⟨fun hd => ⟨trivial, hname, ⟨ref, rfl, haccepts⟩, hd⟩, fun hd => hd.2.2.2⟩

/-- A comparison with the name of a named element. -/
lemma refNameIs_eq {n : N} {name : Str} (hn : x.name n = some name) (other : String) :
    refNameIs x n other = .ok (decide (name = other.toList)) := by
  unfold refNameIs
  rw [hn]

/-- At most one of the three parts of the loop body applies.

**Proof sketch.** The three comparisons are with one name, which does not change. -/
lemma parseChild_eq {name : Str} (hname : x.name child = some name) (s : RefParse) :
    parseChild x p s child =
      if name = "author".toList then parseAuthor x p child s
      else if name = "category".toList then parseCategory x p child s
      else if name = "in-reply-to".toList then parseInReplyTo x child s
      else .ok s := by
  unfold parseChild
  simp only [refNameIs_eq hname, bind, Except.bind, pure, Except.pure]
  by_cases hauthor : name = "author".toList
  · subst hauthor
    cases parseAuthor x p child s <;> rfl
  · by_cases hcategory : name = "category".toList
    · subst hcategory
      cases parseCategory x p child s <;> rfl
    · simp only [hauthor, hcategory, decide_false, Bool.false_eq_true, if_false,
        decide_eq_true_eq]

/-- An object that is dropped and used is a fault. -/
lemma DropsAndUses.faults (h : DropsAndUses x recorded child) :
    childFate x recorded child = .faults := by
  obtain ⟨rfl, hname, ⟨ref, href, hrejects⟩, htype, hdrops⟩ := h
  unfold childFate replyFate
  rw [hname, href, if_neg (by decide), if_neg (by decide), if_pos rfl, if_neg (by simp),
    if_neg (by simp [hrejects])]
  rcases hdrops with ⟨hhref, -⟩ | ⟨hhref, hsource⟩
  · rw [if_pos hhref, if_neg fun hboth => htype hboth.2]
  · rw [if_neg hhref, if_pos hsource, if_neg htype]

/-- **One child** follows its fate.

**Proof sketch.** One case per name; only an in-reply-to element can leave a pointer that
dangles. -/
lemma parseChild_follows (hname : x.name child ≠ none) (hk : Tracked p eid s.world)
    (hs : s.err.Tells recorded) :
    Follows (Tracked p eid) (DropsAndUses x recorded child) (childFate x recorded child)
      (parseChild x p s child) := by
  obtain ⟨name, hname⟩ := Option.ne_none_iff_exists'.mp hname
  have hother : name ≠ "in-reply-to".toList → (False ↔ DropsAndUses x recorded child) := by
    intro hne
    rw [false_iff]
    rintro ⟨-, hreply, -⟩
    exact hne (Option.some.inj (hname.symm.trans hreply))
  rw [parseChild_eq hname]
  unfold childFate
  simp only [hname, Option.some.injEq]
  split_ifs with hauthor hcategory hreply
  · exact (parseAuthor_follows x child hk hs).congr (hother (by rw [hauthor]; decide))
  · exact (parseCategory_follows x child hk hs).congr (hother (by rw [hcategory]; decide))
  · exact parseInReplyTo_follows (hname.trans (congrArg some hreply)) hk hs
  · exact ⟨s, rfl, hk, hs⟩

/-- **The loop over the children** follows their sweep; it comes to an object that is gone when the
sweep meets a child that drops and uses one.

**Proof sketch.** Induction on the children, with `parseChild_follows` for the first one. A
pointer that dangles at the first is met at once; otherwise the sweep and what it meets go on
with the rest. -/
lemma parseChildren_follows {children : List N} (hk : Tracked p eid s.world)
    (hs : s.err.Tells recorded) :
    Follows (Tracked p eid) (Meets (namedFate x) (DropsAndUses x) recorded children)
      (sweep (namedFate x) recorded children).2 (children.foldlM (parseChild x p) s) := by
  induction children generalizing s recorded with
  | nil => exact ⟨s, rfl, hk, hs⟩
  | cons child children ih =>
    rw [List.foldlM_cons, sweep, meets_cons]
    by_cases hname : x.name child = none
    · have hfate : namedFate x recorded child = .faults := if_pos hname
      have hread : parseChild x p s child = .error .fault := by
        unfold parseChild refNameIs
        rw [hname]
        rfl
      rw [hfate, hread]
      refine ⟨?_, fun _ => rfl⟩
      rintro (⟨-, hreply, -⟩ | ⟨recorded', hgoes, -⟩)
      · rw [hname] at hreply
        cases hreply
      · cases hgoes
    have hfate : namedFate x recorded child = childFate x recorded child := if_neg hname
    have hchild := parseChild_follows hname hk hs
    rw [hfate]
    cases hcase : childFate x recorded child with
    | goesOn recorded' =>
      rw [hcase] at hchild
      obtain ⟨s', hread, hk', hs'⟩ := hchild
      rw [hread]
      refine (ih hk' hs').congr ⟨fun h => Or.inr ⟨recorded', rfl, h⟩, ?_⟩
      rintro (hdrops | ⟨recorded'', hgoes, h⟩)
      · rw [hdrops.faults] at hcase
        cases hcase
      · cases hgoes
        exact h
    | stops =>
      rw [hcase] at hchild
      obtain ⟨s', hread, hk'⟩ := hchild
      rw [hread]
      exact ⟨s', rfl, hk'⟩
    | faults =>
      rw [hcase] at hchild
      refine ⟨?_, fun hnot => ?_⟩
      · rintro (hdrops | ⟨recorded', hgoes, -⟩)
        · rw [hchild.1 hdrops]
          rfl
        · cases hgoes
      · rw [hchild.2 fun hdrops => hnot (Or.inl hdrops)]
        rfl

end Children

end Taningia.Refs
