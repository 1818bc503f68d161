import Taningia.Object.EntryChildren

set_option relaxedAutoImplicit false
set_option autoImplicit false

/-!
# The entry parser leaks what it creates

When `ta_atom_entry_set_from_iks` returns, an object that it created is destroyed, or stored in the
entry and counted once for each place that stores it, only when the call gets no further than to the
id: behind a rejected id the reference of the parser to the IRI of the id is never let go.

## Main definitions

* `Taningia.Refs.Settled`, `Taningia.Refs.KeepsObjects` — what should become of the objects.
* `Taningia.Refs.Ready` — an entry that the parser can be called with.

## Main results

* `Taningia.Refs.parseEntry_follows` — the call behind a rejected id.
* `Taningia.Refs.entryRefs_returns_iff` — the call returns what it returns in the model of the
  entry.
* `Taningia.Refs.entry_objects_kept_iff` — when nothing is leaked or used behind its end.
-/

namespace Taningia.Refs

open RefCount

variable {N : Type}

/-! ## The content -/

/-- The content of the entry, if it has one, has no text that was released. -/
def WholeContent (p : ℕ) (w : World) : Prop :=
  ∀ e c src, w.heap.obj p = some (.entry e) → e.content = some c →
    w.heap.obj c ≠ some (.content .freed src)

/-- The parser fills a new content; what was there before it is as it was. -/
structure Filling (p eid ct : ℕ) (w₀ w : World) : Prop where
  kept : Tracked p eid w
  new : New w ct .content
  others : ∀ b < ct, w.heap.obj b = w₀.heap.obj b

section Content

variable {p eid ct len : ℕ} {w₀ w w' : World} {t : TextPtr} {err : ErrState}

/-- A new content is being filled. -/
lemma Filling.start (hk : Tracked p eid w) :
    Filling p eid w.size w (w.create (.content .null none)) where
  kept := hk.create rfl
  new := new_create w _
  others b hb := obj_create_of_ne (by omega) _

/-- A content without a source is assigned a text.

**Proof sketch.** By cases on the text from before: without one the copy is made where the
length is not zero; with one the text is released, there is no source to let go, and the copy is
made. -/
lemma contentSetContent_bare {h h' : AtomMemory} (ho : h.obj ct = some (.content t none))
    (ht : t = .null ∨ t = .owned ∧ len ≠ 0) (hset : contentSetContent h ct true len = some h') :
    (∃ t', h'.obj ct = some (.content t' none) ∧ (t' = .null ∨ t' = .owned ∧ len ≠ 0)) ∧
      (∀ b ≠ ct, h'.obj b = h.obj b) ∧ h'.count = h.count := by
  have hobj : h.obj ct ≠ none := by simp [ho]
  unfold contentSetContent at hset
  rcases ht with rfl | ⟨rfl, hlen⟩
  · simp only [ho, Option.bind_eq_bind, Option.bind_some, Bool.true_and, bne_iff_ne] at hset
    split_ifs at hset with hlen
    · rw [Memory.write_eq ho] at hset
      obtain rfl := Option.some.inj hset
      exact ⟨⟨.owned, h.obj_setObj_self ct _ hobj, Or.inr ⟨rfl, hlen⟩⟩,
        fun b hb => h.obj_setObj_of_ne ct _ hb, h.count_setObj ct _⟩
    · obtain rfl := Option.some.inj hset
      exact ⟨⟨.null, ho, Or.inl rfl⟩, fun b _ => rfl, rfl⟩
  · -- the text before is released, there is no source to let go, and the new text is assigned
    have ho₁ : (h.setObj ct (.content .freed none)).obj ct = some (.content .freed none) :=
      h.obj_setObj_self ct _ hobj
    have hclear : clearField contentSrc (h.setObj ct (.content .freed none)) ct =
        some (h.setObj ct (.content .freed none)) := by
      unfold clearField
      simp only [ho₁, Option.bind_eq_bind, Option.bind_some, contentSrc, unrefField]
      rw [Memory.write_eq ho₁, Memory.setObj_setObj]
    simp only [ho, Option.bind_eq_bind, Option.bind_some, TextPtr.free, Memory.write_eq ho,
      Bool.true_and, bne_iff_ne, if_true, if_pos hlen, setText, hclear] at hset
    rw [Memory.write_eq ho₁, Memory.setObj_setObj] at hset
    obtain rfl := Option.some.inj hset
    exact ⟨⟨.owned, h.obj_setObj_self ct _ hobj, Or.inr ⟨rfl, hlen⟩⟩,
      fun b hb => h.obj_setObj_of_ne ct _ hb, h.count_setObj ct _⟩

/-- The text of the content is set.

**Proof sketch.** The call is one of the calls on objects, and the content is in the state that
it needs; then `contentSetContent_bare`. -/
lemma Filling.text (hf : Filling p eid ct w₀ w) (len : ℕ)
    (ho : w.heap.obj ct = some (.content t none)) (ht : t = .null ∨ t = .owned ∧ len ≠ 0)
    (err : ErrState) :
    ∃ w' t', RefParse.call ⟨w, err⟩ (.contentSetContent ct true len) = .ok ⟨w', err⟩ ∧
      Filling p eid ct w₀ w' ∧ w'.heap.obj ct = some (.content t' none) ∧
      (t' = .null ∨ t' = .owned ∧ len ≠ 0) := by
  obtain ⟨w', hstep, hk'⟩ := hf.kept.step (c := .contentSetContent ct true len) trivial
    hf.new.kind (fun src hfreed => by
      rw [ho] at hfreed
      cases hfreed
      rcases ht with ht | ⟨ht, -⟩ <;> cases ht) (by simp) (by simp)
  have hhas := hf.new.toHas.step (c := .contentSetContent ct true len) hf.kept.inOrder trivial hstep
    hk'.inOrder (by simp)
  obtain ⟨h', hset, rfl⟩ := Option.map_eq_some_iff.mp hstep
  obtain ⟨⟨t', ho', ht'⟩, hothers, hcount⟩ := contentSetContent_bare ho ht hset
  refine ⟨_, t', RefParse.call_eq hstep, ⟨hk', ⟨hhas, ?_⟩, fun b hb => ?_⟩, ho', ht'⟩
  · exact (congrFun hcount ct).trans hf.new.count
  · exact (hothers b (by omega)).trans (hf.others b hb)

/-- A content without a source is assigned one.

**Proof sketch.** A reference is taken to the source, which is another object, and the field is
written. -/
lemma contentSetSrc_bare {h h' : AtomMemory} {a : ℕ} (ho : h.obj ct = some (.content t none))
    (hne : ct ≠ a) (hset : contentSetSrc h ct a = some h') :
    h'.count ct = h.count ct ∧ ∀ b ≠ ct, h'.obj b = h.obj b := by
  unfold contentSetSrc at hset
  simp only [ho, Option.bind_eq_bind, Option.bind_some] at hset
  obtain ⟨h₁, href, hwrite⟩ := Option.bind_eq_some_iff.mp hset
  have ho₁ : h₁.obj ct = some (.content t none) := by rw [obj_of_ref href, ho]
  rw [Memory.write_eq ho₁] at hwrite
  obtain rfl := Option.some.inj hwrite
  refine ⟨?_, fun b hb => by rw [h₁.obj_setObj_of_ne ct _ hb, obj_of_ref href]⟩
  rw [h₁.count_setObj]
  exact count_of_ref href hne

/-- A source that is rejected is stored.

**Proof sketch.** The IRI is created and is returned as a good one, since its string is
rejected. The setter stores it in the content, which has no source yet, and touches no other
object. -/
lemma Filling.src (hf : Filling p eid ct w₀ w) (error : ErrorT)
    (ho : w.heap.obj ct = some (.content t none)) {src : Str} (hrejects : iriAccepts src = false) :
    ∃ w' error', parseSrc (some src) ct ⟨w, .shown error⟩ = .ok ⟨w', .shown error'⟩ ∧
      Filling p eid ct w₀ w' := by
  obtain ⟨status, error', hread, hnot⟩ :=
    newIriFrom_rejects hrejects (s := ⟨w, .shown error⟩) (by simp)
  have hlt := hf.kept.inOrder.lt_size hf.new.kind
  have hk₁ : Tracked p eid (w.create .iri) := hf.kept.create rfl
  have hn₁ := hf.new.create hlt .iri
  have hiri : New (w.create .iri) w.size .iri := new_create w .iri
  have ho₁ : (w.create .iri).heap.obj ct = some (.content t none) :=
    (obj_create_of_ne hlt.ne _).trans ho
  obtain ⟨w', hstep, hk'⟩ := hk₁.step (c := .contentSetSrc ct w.size) trivial
    ⟨hn₁.kind, hiri.kind⟩ ⟨hiri.canSet hk₁.inOrder contentSrc fun hne => absurd rfl hne,
      fun src hfreed => by
        rw [ho₁] at hfreed
        cases hfreed⟩ (by simp) (by simp)
  have hhas := hn₁.toHas.step (c := .contentSetSrc ct w.size) hk₁.inOrder trivial hstep hk'.inOrder
    (by simp)
  obtain ⟨h', hset, rfl⟩ := Option.map_eq_some_iff.mp hstep
  obtain ⟨hcount, hothers⟩ := contentSetSrc_bare ho₁ (by omega) hset
  refine ⟨_, error', ?_, hk', ⟨hhas, hcount.trans hn₁.count⟩, fun b hb => ?_⟩
  · unfold parseSrc
    simp only [hread, hnot, bind, Except.bind, Bool.false_eq_true, if_false]
    exact RefParse.call_eq (s := ⟨w.create .iri, .shown error'⟩) hstep
  · exact ((hothers b (by omega)).trans (obj_create_of_ne (by omega) _)).trans (hf.others b hb)

/-- A source that is accepted is let go with the content.

**Proof sketch.** The IRI is the last object created and is released first; the content is still
there, since the parser has a reference to it, and is released next. Neither stores anything, so
the account of the rest is kept. -/
lemma Filling.refuse_src (hf : Filling p eid ct w₀ w)
    (ho : w.heap.obj ct = some (.content .null none)) {src : Str} (haccepts : iriAccepts src = true)
    (herr : err ≠ .cleared) :
    ∃ s', parseSrc (some src) ct ⟨w, err⟩ = .error (.returns 0 s') ∧ Tracked p eid s'.world := by
  obtain ⟨status, hread, hnot⟩ := newIriFrom_accepts haccepts ⟨w, err⟩
  have hp := hf.kept.inOrder.lt_size hf.kept.entry.kind
  have hid := hf.kept.inOrder.lt_size hf.kept.id.kind
  have hlt := hf.kept.inOrder.lt_size hf.new.kind
  have hk₁ : Tracked p eid (w.create .iri) := hf.kept.create rfl
  have hn₁ := hf.new.create hlt .iri
  have ho₁ : (w.create .iri).heap.obj ct = some (.content .null none) :=
    (obj_create_of_ne hlt.ne _).trans ho
  obtain ⟨w₂, hstep₂, hk₂⟩ := hk₁.unref (new_create w .iri).toHas (by omega) (by omega)
    (obj_create_self w .iri) plain_iri
  -- the content is still there, since the parser has a reference to it
  have hhas := hn₁.toHas.step (c := .objectUnref w.size) hk₁.inOrder trivial hstep₂ hk₂.inOrder
    (by simpa using hlt.ne')
  have ho₂ : w₂.heap.obj ct = some (.content .null none) := by
    obtain ⟨o, ho', -⟩ := hhas.kind.exists_obj
    obtain ⟨h', hunref, rfl⟩ := Option.map_eq_some_iff.mp hstep₂
    have hbefore := keeps_unref hunref ct o ho'
    rw [ho₁] at hbefore
    rw [ho', hbefore]
  obtain ⟨w₃, hstep₃, hk₃⟩ := hk₂.unref hhas (hf.new.kind.ne hf.kept.entry.kind (by decide))
    (hf.new.kind.ne hf.kept.id.kind (by decide)) ho₂
    ⟨by simp [AtomObj.FreedWhole], fun x hx => (Kind.mem_ofAll.mp hx).2⟩
  have hsteps : [w.size, ct].foldlM (fun w a => Refs.step w (.objectUnref a)) (w.create .iri) =
      some w₃ := by
    simp only [List.foldlM_cons, List.foldlM_nil, Option.bind_eq_bind, hstep₂, hstep₃,
      Option.bind_some, Option.pure_def]
  obtain ⟨error, hrefuse⟩ :=
    refuse_eq (S := RefParse) herr "Invalid iri in content src attribute" _ hsteps
  refine ⟨⟨w₃, .shown error⟩, ?_, hk₃⟩
  unfold parseSrc
  simp only [hread, hnot, bind, Except.bind, if_true]
  exact hrefuse

/-- **The content is stored** in the entry.

**Proof sketch.** The content of the entry from before is let go whole, as the objects that were
there before the new content are unchanged; the setter needs no more. -/
lemma Filling.store (hf : Filling p eid w₀.size w₀ w) (hok : InOrder w₀.heap w₀.size w₀.held)
    (hp : IsKind w₀.heap p .entry) (hwhole : WholeContent p w₀) :
    ∃ w', Refs.step w (.set .entrySetContent p w₀.size) = some w' ∧ Tracked p eid w' := by
  refine hf.kept.step trivial ⟨hf.kept.entry.kind, hf.new.kind⟩ ?_ (by simp) (by simp)
  refine hf.new.canSet hf.kept.inOrder entryContent fun _ o ho => ?_
  have hold : w.heap.obj p = w₀.heap.obj p := hf.others p (hok.lt_size hp)
  obtain ⟨o', ho', hkind⟩ := hp.exists_obj
  obtain rfl : o = o' := Option.some.inj (ho.symm.trans (hold.trans ho'))
  cases o with
  | entry e =>
    refine losesWhole_content hf.kept.inOrder ho fun c src hc => ?_
    have hck : IsKind w₀.heap c .content :=
      hok.typed p _ ho' _ (entryContent.slot_get (.entry e) e.content c rfl (by simp [hc]))
    rw [hf.others c (hok.lt_size hck)]
    exact hwhole e c src ho' hc
  | _ => cases hkind

/-- **The content** follows what it decides.

**Proof sketch.** By cases on the element, its source and its text. A text is set twice and the
content stored; a source with a text is refused; a source that is accepted is let go with the
content (`Filling.refuse_src`), and one that is rejected is stored (`Filling.src`,
`Filling.store`). -/
lemma parseContent_follows (x : Iksemel N) (ik : N) (error : ErrorT) (hk : Tracked p eid w)
    (hwhole : WholeContent p w) :
    Follows (Tracked p eid) False (if ContentStops x ik then .stops else .goesOn true)
      (parseContent x p ik ⟨w, .shown error⟩) := by
  unfold parseContent
  cases hcontent : x.find ik "content".toList with
  | none =>
    have hgoes : ¬ ContentStops x ik := by
      rintro ⟨content, hsome, -⟩
      rw [hcontent] at hsome
      cases hsome
    rw [if_neg hgoes]
    exact ⟨⟨w, .shown error⟩, rfl, hk, .shown error⟩
  | some content =>
    have hiff : ContentStops x ik ↔ x.findAttrib content "src".toList ≠ none ∧
        x.findCdata ik "content".toList ≠ none ∨
          Accepted (x.findAttrib content "src".toList) := by
      simp only [ContentStops, hcontent, Option.some.injEq, exists_eq_left']
    have hstart : Filling p eid w.size w (w.create (.content .null none)) := Filling.start hk
    have hnew : RefParse.call ⟨w, .shown error⟩ .contentNew =
        .ok ⟨w.create (.content .null none), .shown error⟩ := rfl
    have ho := obj_create_self w (.content .null none)
    simp only []
    cases hsrc : x.findAttrib content "src".toList with
    | none =>
      have hgoes : ¬ ContentStops x ik := by
        rw [hiff, hsrc]
        simp
      rw [if_neg hgoes]
      cases htext : x.findCdata ik "content".toList with
      | none => exact ⟨⟨w, .shown error⟩, rfl, hk, .shown error⟩
      | some text =>
        -- the text is set twice
        obtain ⟨w₁, t₁, hcall₁, hf₁, ho₁, ht₁⟩ := hstart.text
          (x.cdataSize (x.children content).head?) ho (Or.inl rfl) (.shown error)
        obtain ⟨w₂, t₂, hcall₂, hf₂, -⟩ := hf₁.text _ ho₁ ht₁ (.shown error)
        obtain ⟨w', hstore, hk'⟩ := hf₂.store hk.inOrder hk.entry.kind hwhole
        refine ⟨⟨w', .shown error⟩, ?_, hk', .shown error⟩
        rw [if_neg (by simp), if_neg (by simp), hnew]
        simp only [parseText, parseSrc, bind, Except.bind, pure, Except.pure, hcall₁, hcall₂]
        exact RefParse.call_eq (s := ⟨w₂, .shown error⟩) hstore
    | some src =>
      cases htext : x.findCdata ik "content".toList with
      | some text =>
        have hstops : ContentStops x ik := by
          rw [hiff, hsrc, htext]
          simp
        rw [if_pos hstops, if_pos (by simp)]
        obtain ⟨s', hrefuse, hworld⟩ := refuse_none (s := ⟨w, .shown error⟩) (by simp)
          "Invalid content, it has the src attribute set and content tag is filled"
        exact ⟨s', hrefuse, hworld ▸ hk⟩
      | none =>
        have hiff : ContentStops x ik ↔ iriAccepts src = true := by
          rw [hiff, hsrc, htext]
          simp
        simp only [ne_eq, reduceCtorEq, not_false_eq_true, not_true_eq_false, and_false, and_true,
          if_false, hnew, parseText, bind, Except.bind, pure, Except.pure]
        cases haccepts : iriAccepts src with
        | true =>
          rw [if_pos (hiff.mpr haccepts)]
          obtain ⟨s', hread, hk'⟩ := hstart.refuse_src ho haccepts
            (by simp : ErrState.shown error ≠ .cleared)
          rw [hread]
          exact ⟨s', rfl, hk'⟩
        | false =>
          rw [if_neg (by simp [hiff, haccepts])]
          obtain ⟨w₁, error₁, hread, hf₁⟩ := hstart.src error ho haccepts
          obtain ⟨w', hstore, hk'⟩ := hf₁.store hk.inOrder hk.entry.kind hwhole
          rw [hread]
          exact ⟨⟨w', .shown error₁⟩, RefParse.call_eq (s := ⟨w₁, .shown error₁⟩) hstore, hk',
            .shown error₁⟩

end Content

/-! ## The fields in front of the content -/

/-- An entry that the parser can be called with: all is in order, the caller has a reference to the
entry, and the text of its content was not released. -/
structure Ready (w : World) (p : ℕ) : Prop where
  inOrder : InOrder w.heap w.size w.held
  entry : Has w p .entry
  content : WholeContent p w

section Fields

variable {x : Iksemel N} {p eid : ℕ} {ik : N} {w w' : World} {err : ErrState}

/-- A text or a date of the entry. -/
lemma Tracked.call_entry (hk : Tracked p eid w) (err : ErrState) :
    RefParse.call ⟨w, err⟩ (.setString p) = .ok ⟨w, err⟩ := by
  obtain ⟨o, ho, hkind⟩ := hk.entry.kind.exists_obj
  exact RefParse.call_eq (s := ⟨w, err⟩) (step_setString ho (by rw [hkind]; decide))

/-- The content is as whole behind a new IRI, -/
lemma WholeContent.create (hwhole : WholeContent p w) (hlt : p < w.size) :
    WholeContent p (w.create .iri) := by
  intro e c src he hc hfreed
  rw [obj_create_of_ne hlt.ne] at he
  by_cases hcw : c = w.size
  · subst hcw
    rw [obj_create_self] at hfreed
    cases hfreed
  · rw [obj_create_of_ne hcw] at hfreed
    exact hwhole e c src he hc hfreed

/-- and behind another id.

**Proof sketch.** The setter writes the entry only, and there only the id (`obj_of_setField`),
so the content is the one from before, and its source too. -/
lemma WholeContent.setId (hwhole : WholeContent p w) (hp : IsKind w.heap p .entry)
    (hstep : Refs.step w (.set .entrySetId p eid) = some w') : WholeContent p w' := by
  obtain ⟨h', hset, rfl⟩ := Option.map_eq_some_iff.mp hstep
  obtain ⟨o, ho, hkind⟩ := hp.exists_obj
  cases o with
  | entry e₀ =>
    intro e c src he hc hfreed
    -- the content of the entry is the one before
    have hcontent : e₀.content = some c := by
      rcases obj_of_setField hset he with hsame | ⟨-, o, ho', hentry⟩
      · rw [ho] at hsame
        cases hsame
        exact hc
      · rw [ho] at ho'
        obtain rfl := Option.some.inj ho'
        cases hentry
        exact hc
    refine hwhole e₀ c src ho hcontent ?_
    rcases obj_of_setField hset hfreed with hsame | ⟨-, o, ho', hentry⟩
    · exact hsame
    · rw [ho] at ho'
      obtain rfl := Option.some.inj ho'
      cases hentry
  | _ => cases hkind

/-- At the right root the call goes on. -/
lemma parseRoot_right (h : RightRoot x "entry" ik) (s : RefParse) : parseRoot x ik s = .ok () := by
  unfold parseRoot
  simp only [refNameIs_eq h.1, h.2, bind, Except.bind]
  rfl

/-- A wrong root ends the call, and nothing was created; one without a name is a fault.

**Proof sketch.** By cases on the name and on the record: the comparison of no name is a fault,
and so is an error message behind a cleared record. -/
lemma parseRoot_wrong (h : ¬ RightRoot x "entry" ik) (s : RefParse) :
    (s.err ≠ .cleared ∧ x.name ik ≠ none ∧
        ∃ s', parseRoot x ik s = .error (.returns 0 s') ∧ s'.world = s.world) ∨
      (s.err = .cleared ∨ x.name ik = none) ∧ parseRoot x ik s = .error .fault := by
  unfold parseRoot
  cases hname : x.name ik with
  | none =>
    refine Or.inr ⟨Or.inr rfl, ?_⟩
    unfold refNameIs
    rw [hname]
    rfl
  | some name =>
    have hwrong : (!decide (name = "entry".toList) || !x.hasChildren ik) = true := by
      rw [Bool.or_eq_true, Bool.not_eq_true', Bool.not_eq_true', decide_eq_false_iff_not,
        ← Bool.not_eq_true]
      refine Classical.or_iff_not_imp_left.mpr fun hn hc => h ⟨?_, hc⟩
      rw [hname, not_not.mp hn]
    simp only [refNameIs_eq hname, bind, Except.bind]
    rw [if_pos hwrong]
    by_cases hs : s.err = .cleared
    · exact Or.inr ⟨Or.inl hs, refuse_cleared hs _ []⟩
    · obtain ⟨error, hrefuse⟩ := refuse_eq (S := Unit) (w := s.world) hs
        "Wrong root entry element" [] rfl
      exact Or.inl ⟨hs, Option.some_ne_none name, _, hrefuse, rfl⟩

/-- Behind a cleared record the required fields are a fault.

**Proof sketch.** Each branch of the function sets an error or reads an IRI that sets one. -/
lemma parseRequired_cleared (x : Iksemel N) (p : ℕ) (ik : N) (w : World) :
    parseRequired x p ik ⟨w, .cleared⟩ = .error .fault := by
  unfold parseRequired
  cases x.findCdata ik "id".toList with
  | none => exact refuse_cleared rfl _ []
  | some id =>
    cases haccepts : iriAccepts id with
    | true =>
      obtain ⟨status, hread, hnot⟩ := newIriFrom_accepts haccepts ⟨w, .cleared⟩
      simp only [hread, hnot, bind, Except.bind, if_true]
      exact refuse_cleared rfl _ _
    | false =>
      simp only [newIriFrom_rejects_cleared haccepts (s := ⟨w, .cleared⟩) rfl]
      rfl

/-- Without an id nothing is created. -/
lemma parseRequired_missing (hid : x.findCdata ik "id".toList = none) (herr : err ≠ .cleared) :
    ∃ s', parseRequired x p ik ⟨w, err⟩ = .error (.returns 0 s') ∧ s'.world = w := by
  unfold parseRequired
  rw [hid]
  exact refuse_none (s := ⟨w, err⟩) herr _

/-- An accepted id is destroyed.

**Proof sketch.** The new IRI is the last object created and is held once, so its release
destroys it. -/
lemma parseRequired_accepts (hok : InOrder w.heap w.size w.held) {id : Str}
    (hid : x.findCdata ik "id".toList = some id) (haccepts : iriAccepts id = true)
    (herr : err ≠ .cleared) :
    ∃ s', parseRequired x p ik ⟨w, err⟩ = .error (.returns 0 s') ∧
      s'.world.size = w.size + 1 ∧ s'.world.heap.obj w.size = none := by
  have hnew : New (w.create .iri) w.size .iri := new_create w .iri
  have hok₁ : InOrder (w.create .iri).heap (w.create .iri).size (w.create .iri).held :=
    hok.createBare rfl
  obtain ⟨w', hstep, -⟩ := step_inOrder (c := .objectUnref w.size) hok₁ hnew.held
    (losesWhole_letOne hok₁ hnew.held (obj_create_self w .iri) plain_iri)
  obtain ⟨status, hread, hnot⟩ := newIriFrom_accepts haccepts ⟨w, err⟩
  obtain ⟨error, hrefuse⟩ := refuse_eq (S := RefParse) herr "Invalid <id> iri" [w.size]
    (by rw [List.foldlM_cons, hstep]; rfl)
  have hgone : w'.size = w.size + 1 ∧ w'.heap.obj w.size = none := by
    obtain ⟨h', hunref, rfl⟩ := Option.map_eq_some_iff.mp hstep
    exact ⟨rfl, obj_of_unref_last hnew.count hunref⟩
  refine ⟨⟨w', .shown error⟩, ?_, hgone⟩
  unfold parseRequired
  rw [hid]
  simp only [hread, hnot, bind, Except.bind, if_true]
  exact hrefuse

/-- **A rejected id** is kept, whether or not there is a title.

**Proof sketch.** The IRI is created and is returned as a good one. A missing title refuses the
entry there; with a title the IRI is stored as the id, and the other setters change no object. -/
lemma parseRequired_rejects (hr : Ready w p) {id : Str}
    (hid : x.findCdata ik "id".toList = some id) (hrejects : iriAccepts id = false)
    (herr : err ≠ .cleared) :
    (x.findCdata ik "title".toList = none → ∃ s', parseRequired x p ik ⟨w, err⟩ =
      .error (.returns 0 s') ∧ Tracked p w.size s'.world) ∧
    (x.findCdata ik "title".toList ≠ none → ∃ w' error, parseRequired x p ik ⟨w, err⟩ =
      .ok ⟨w', .shown error⟩ ∧ Tracked p w.size w' ∧ WholeContent p w') := by
  have hlt := hr.inOrder.lt_size hr.entry.kind
  have hnew : New (w.create .iri) w.size .iri := new_create w .iri
  have hk : Tracked p w.size (w.create .iri) :=
    ⟨hr.inOrder.createBare rfl, hr.entry.create hlt _, hnew.toHas⟩
  obtain ⟨status, error, hread, hnot⟩ := newIriFrom_rejects hrejects (s := ⟨w, err⟩) herr
  unfold parseRequired
  simp only [hid, hread, hnot, bind, Except.bind, Bool.false_eq_true, if_false]
  constructor
  · intro htitle
    rw [htitle]
    obtain ⟨s', hrefuse, hworld⟩ := refuse_none (s := ⟨w.create .iri, .shown error⟩) (by simp)
      "No <title> element found"
    exact ⟨s', hrefuse, hworld ▸ hk⟩
  · intro htitle
    obtain ⟨title, htitle⟩ := Option.ne_none_iff_exists'.mp htitle
    rw [htitle]
    obtain ⟨w', hstep, hk'⟩ := hk.step (c := .set .entrySetId p w.size) trivial
      ⟨hk.entry.kind, hnew.kind⟩ (hnew.canSet hk.inOrder entryId fun hne => absurd rfl hne)
      (by simp) (by simp)
    have hcall := RefParse.call_eq (s := ⟨w.create .iri, .shown error⟩) hstep
    refine ⟨w', error, ?_, hk', (hr.content.create hlt).setId hk.entry.kind hstep⟩
    rw [hcall]
    exact hk'.call_entry (.shown error)

/-- The optional fields change no object.

**Proof sketch.** Induction on the names. -/
lemma parseOptional_eq (hk : Tracked p eid w) (err : ErrState) :
    parseOptional x p ik ⟨w, err⟩ = .ok ⟨w, err⟩ := by
  unfold parseOptional
  generalize ["updated", "published", "summary", "rights"] = names
  induction names with
  | nil => rfl
  | cons name names ih =>
    rw [List.foldlM_cons]
    split_ifs
    · rw [hk.call_entry err]
      exact ih
    · exact ih

end Fields

/-! ## The call -/

section Call

variable {x : Iksemel N} {p : ℕ} {ik : N} {w : World} {err : ErrState}

/-- **Behind a rejected id** the call follows its fate, and the IRI of the id is kept.

**Proof sketch.** The parts of the call one after the other: the root, the required fields
(`parseRequired_rejects`), the content (`parseContent_follows`) and the loop. The first one that
does not go on decides. -/
lemma parseEntry_follows (hr : Ready w p) (hroot : RightRoot x "entry" ik) {id : Str}
    (hid : x.findCdata ik "id".toList = some id) (hrejects : iriAccepts id = false)
    (herr : err ≠ .cleared) :
    Follows (Tracked p w.size) (Meets (namedFate x) (DropsAndUses x) true (x.children ik))
      (entryFate x ik) (parseEntry x p ik ⟨w, err⟩) := by
  obtain ⟨hmissing, hthere⟩ := parseRequired_rejects hr hid hrejects herr
  unfold entryFate parseEntry
  rw [if_neg (by simp [hroot.1])]
  simp only [parseRoot_right hroot, bind, Except.bind]
  by_cases htitle : x.findCdata ik "title".toList = none
  · have hrequired : RequiredStops x ik := Or.inr (Or.inr htitle)
    rw [if_pos (Or.inr (Or.inl hrequired))]
    obtain ⟨s', hread, hk⟩ := hmissing htitle
    rw [hread]
    exact ⟨s', rfl, hk⟩
  obtain ⟨w₁, error₁, hread₁, hk₁, hwhole₁⟩ := hthere htitle
  have hrequired : ¬ RequiredStops x ik := by
    rw [RequiredStops, hid, accepted_some, hrejects]
    simpa using htitle
  rw [hread₁]
  simp only [parseOptional_eq hk₁]
  have hcontent := parseContent_follows x ik error₁ hk₁ hwhole₁
  by_cases hstops : ContentStops x ik
  · rw [if_pos (Or.inr (Or.inr hstops))]
    rw [if_pos hstops] at hcontent
    obtain ⟨s', hread, hk⟩ := hcontent
    rw [hread]
    exact ⟨s', rfl, hk⟩
  · rw [if_neg (by simp [hroot, hrequired, hstops])]
    rw [if_neg hstops] at hcontent
    obtain ⟨s₂, hread₂, hk₂, htells⟩ := hcontent
    rw [hread₂]
    exact parseChildren_follows hk₂ htells

/-- Behind a cleared record the call is a fault. -/
lemma entryRefs_cleared (x : Iksemel N) (p : ℕ) (w : World) (ik : N) :
    entryRefs x p ⟨w, .cleared⟩ ik = .fault := by
  suffices hfault : parseEntry x p ik ⟨w, .cleared⟩ = .error .fault by
    rw [entryRefs, hfault]
  unfold parseEntry
  by_cases hroot : RightRoot x "entry" ik
  · simp only [parseRoot_right hroot, parseRequired_cleared, bind, Except.bind]
  · rcases parseRoot_wrong hroot ⟨w, .cleared⟩ with ⟨hne, -⟩ | ⟨-, hread⟩
    · exact absurd rfl hne
    · rw [hread]
      rfl

/-- **In front of the id** the call returns and has created nothing, or is a fault.

**Proof sketch.** Behind a cleared record it is a fault, else a wrong root or a missing id ends
the call at once. -/
lemma entryRefs_before (p : ℕ) (w : World) (err : ErrState)
    (h : ¬ RightRoot x "entry" ik ∨ x.findCdata ik "id".toList = none) :
    (x.name ik ≠ none ∧ ∃ s, entryRefs x p ⟨w, err⟩ ik = .returns 0 s ∧ s.world = w) ∨
      (err = .cleared ∨ x.name ik = none) ∧ entryRefs x p ⟨w, err⟩ ik = .fault := by
  by_cases herr : err = .cleared
  · subst herr
    exact Or.inr ⟨Or.inl rfl, entryRefs_cleared x p w ik⟩
  unfold entryRefs parseEntry
  by_cases hroot : RightRoot x "entry" ik
  · obtain ⟨s, hread, hworld⟩ := parseRequired_missing (p := p) (w := w)
      (h.resolve_left (not_not.mpr hroot)) herr
    simp only [parseRoot_right hroot, hread, bind, Except.bind]
    exact Or.inl ⟨by simp [hroot.1], s, rfl, hworld⟩
  · rcases parseRoot_wrong hroot ⟨w, err⟩ with ⟨-, hname, s, hread, hworld⟩ | ⟨hfault, hread⟩
    · rw [hread]
      exact Or.inl ⟨hname, s, rfl, hworld⟩
    · rw [hread]
      exact Or.inr ⟨hfault, rfl⟩

/-- **At an accepted id** the call returns, and has destroyed the IRI that it created. -/
lemma entryRefs_accepts (hok : InOrder w.heap w.size w.held) (hroot : RightRoot x "entry" ik)
    (haccepted : Accepted (x.findCdata ik "id".toList)) (herr : err ≠ .cleared) :
    ∃ s, entryRefs x p ⟨w, err⟩ ik = .returns 0 s ∧ s.world.size = w.size + 1 ∧
      s.world.heap.obj w.size = none := by
  obtain ⟨id, hid, haccepts⟩ := haccepted
  obtain ⟨s, hread, hgone⟩ := parseRequired_accepts (p := p) hok hid haccepts herr
  refine ⟨s, ?_, hgone⟩
  unfold entryRefs parseEntry
  simp only [parseRoot_right hroot, hread, bind, Except.bind]

/-- What the call returns.

**Proof sketch.** In front of the id by `entryRefs_before`; at an id that is accepted the call
is refused; behind one that is rejected `parseEntry_follows`. -/
lemma entryRefs_outcome (x : Iksemel N) (ik : N) (hr : Ready w p) (herr : err ≠ .cleared) :
    match entryFate x ik with
    | .goesOn _ => ∃ s, entryRefs x p ⟨w, err⟩ ik = .returns 1 s
    | .stops => ∃ s, entryRefs x p ⟨w, err⟩ ik = .returns 0 s
    | .faults => ∀ value s, entryRefs x p ⟨w, err⟩ ik ≠ .returns value s := by
  by_cases hname : x.name ik = none
  · have hroot : ¬ RightRoot x "entry" ik := fun hroot => by simp [hroot.1] at hname
    rw [entryFate, if_pos hname]
    rcases entryRefs_before p w err (Or.inl hroot) with
      ⟨hne, -⟩ | ⟨-, hcall⟩
    · exact absurd hname hne
    · simp [hcall]
  by_cases hbefore : ¬ RightRoot x "entry" ik ∨ x.findCdata ik "id".toList = none
  · have hstops : entryFate x ik = .stops := by
      rw [entryFate, if_neg hname, if_pos]
      exact hbefore.imp_right fun hid => Or.inl (Or.inl hid)
    rw [hstops]
    rcases entryRefs_before p w err hbefore with
      ⟨-, s, hcall, -⟩ | ⟨hfault, -⟩
    · exact ⟨s, hcall⟩
    · exact absurd hfault (not_or.mpr ⟨herr, hname⟩)
  obtain ⟨hroot, hid⟩ := not_or.mp hbefore
  rw [not_not] at hroot
  obtain ⟨id, hid⟩ := Option.ne_none_iff_exists'.mp hid
  cases haccepts : iriAccepts id with
  | true =>
    have haccepted : Accepted (x.findCdata ik "id".toList) := ⟨id, hid, haccepts⟩
    have hstops : entryFate x ik = .stops := by
      rw [entryFate, if_neg hname, if_pos]
      exact Or.inr (Or.inl (Or.inr (Or.inl haccepted)))
    rw [hstops]
    obtain ⟨s, hcall, -⟩ := entryRefs_accepts (p := p) hr.inOrder hroot haccepted herr
    exact ⟨s, hcall⟩
  | false =>
    have hfollows := parseEntry_follows hr hroot hid haccepts herr
    unfold entryRefs
    cases hfate : entryFate x ik with
    | goesOn recorded =>
      rw [hfate] at hfollows
      obtain ⟨s, hcall, -⟩ := hfollows
      rw [hcall]
      exact ⟨s, rfl⟩
    | stops =>
      rw [hfate] at hfollows
      obtain ⟨s, hcall, -⟩ := hfollows
      rw [hcall]
      exact ⟨s, rfl⟩
    | faults =>
      rw [hfate] at hfollows
      by_cases hdangles : Meets (namedFate x) (DropsAndUses x) true (x.children ik)
      · rw [hfollows.1 hdangles]
        exact fun _ _ h => nomatch h
      · rw [hfollows.2 hdangles]
        exact fun _ _ h => nomatch h

/-- **The objects and the entry**: the call returns a value here exactly when it returns it in the
model of the texts of the entry.

**Proof sketch.** Both models return what the fate of the tree says (`entryRefs_outcome`,
`entrySetFromIks_outcome`). -/
theorem entryRefs_returns_iff (hr : Ready w p) (lib : TimeLib) (entry : Entry) (value : ℤ) :
    (∃ s, entryRefs x p ⟨w, err⟩ ik = .returns value s) ↔
      ∃ s, entrySetFromIks x lib entry err ik = some (value, s) := by
  by_cases herr : err = .cleared
  · subst herr
    simp [entryRefs_cleared, entrySetFromIks_cleared]
  have hrefs := entryRefs_outcome x ik hr herr
  have hentry := entrySetFromIks_outcome x lib entry ik herr
  cases hfate : entryFate x ik with
  | goesOn recorded =>
    rw [hfate] at hrefs hentry
    obtain ⟨s, hrefs⟩ := hrefs
    obtain ⟨err', -, hentry⟩ := hentry
    simp [hrefs, hentry]
  | stops =>
    rw [hfate] at hrefs hentry
    obtain ⟨s, hrefs⟩ := hrefs
    obtain ⟨err', -, hentry⟩ := hentry
    simp [hrefs, hentry]
  | faults =>
    rw [hfate] at hrefs hentry
    have hnone : entrySetFromIks x lib entry err ik = none := hentry
    refine iff_of_false (fun ⟨s, h⟩ => hrefs value s h) fun ⟨s, h⟩ => ?_
    rw [hnone] at h
    cases h

end Call

/-! ## What should become of the objects -/

/-- The fields and list slots of objects in memory that store an object. -/
def World.places (w : World) (a : ℕ) : ℕ :=
  ∑ p ∈ w.heap.live w.size, ((w.heap.obj p).map fun o => o.stores.count a).getD 0

/-- The object is destroyed; or it is stored in the entry, directly or inside a stored object, and
its count is the number of places that store it. -/
def Settled (w : World) (p a : ℕ) : Prop :=
  w.heap.obj a = none ∨
    Reaches atomLayout w.heap (fun b => [p].count b) a ∧ w.heap.count a = some (w.places a : ℤ)

/-- The call uses no object behind its end, and when it returns, every object that it created is
settled. -/
def KeepsObjects (w : World) (p : ℕ) : RefExit → Prop
  | .returns _ s => ∀ a, w.size ≤ a → a < s.world.size → Settled s.world p a
  | .dangling => False
  | .fault => True

/-- An object with a reference of the parser is not settled. -/
lemma Has.not_settled {w : World} {p a : ℕ} {k : Kind} (ha : Has w a k)
    (hok : InOrder w.heap w.size w.held) : ¬ Settled w p a := by
  obtain ⟨o, ho, -⟩ := ha.kind.exists_obj
  rintro (hgone | ⟨-, hplaces⟩)
  · rw [ho] at hgone
    cases hgone
  · have hcount := hok.refCounts.count a (by simp [ho])
    have hreferences : w.references a = w.held a + w.places a := rfl
    have hheld := ha.held
    rw [hplaces, Option.some.injEq, hreferences] at hcount
    omega

/-- A call that returns behind a rejected id leaks the IRI of the id. -/
lemma Tracked.leaks {w : World} {p : ℕ} {s : RefParse} {value : ℤ} (hk : Tracked p w.size s.world) :
    ¬ KeepsObjects w p (.returns value s) := fun hkeeps =>
  hk.id.not_settled hk.inOrder (hkeeps w.size le_rfl (hk.inOrder.lt_size hk.id.kind))

/-- A child at which the loop is a fault that uses no object. -/
def FaultsOtherwise (x : Iksemel N) (recorded : Bool) (child : N) : Prop :=
  namedFate x recorded child = .faults ∧ ¬ DropsAndUses x recorded child

/-- The loop is a fault at the child that it comes to.

**Proof sketch.** Induction on the children. A child that uses a destroyed object is a fault, so
both sides are decided at the first child at which the loop does not go on. -/
lemma meets_faultsOtherwise {x : Iksemel N} {recorded : Bool} {children : List N} :
    Meets (namedFate x) (FaultsOtherwise x) recorded children ↔
      (sweep (namedFate x) recorded children).2 = .faults ∧
        ¬ Meets (namedFate x) (DropsAndUses x) recorded children := by
  induction children generalizing recorded with
  | nil => simp [not_meets_nil, sweep]
  | cons child children ih =>
    rw [meets_cons, meets_cons, sweep, FaultsOtherwise]
    have hdrops : DropsAndUses x recorded child → namedFate x recorded child = .faults := by
      intro h
      rw [namedFate, if_neg (by simp [h.2.1]), h.faults]
    cases hfate : namedFate x recorded child with
    | goesOn recorded' =>
      have hnot : ¬ DropsAndUses x recorded child := fun h => by
        rw [hdrops h] at hfate
        cases hfate
      simp [hnot, ih]
    | stops => simp
    | faults => simp

/-- Past the root the call is a fault when nothing stops it in front of the loop and the loop is
one.

**Proof sketch.** The cases in the definition of the fate. -/
lemma entryFate_faults {x : Iksemel N} {ik : N} (hroot : RightRoot x "entry" ik) :
    entryFate x ik = .faults ↔ ¬ RequiredStops x ik ∧ ¬ ContentStops x ik ∧
      (sweep (namedFate x) true (x.children ik)).2 = .faults := by
  unfold entryFate
  rw [if_neg (by simp [hroot.1])]
  split_ifs with hstops
  · simp only [hroot, not_true_eq_false, false_or] at hstops
    refine iff_of_false (by simp) ?_
    rintro ⟨hrequired, hcontent, -⟩
    exact hstops.elim hrequired hcontent
  · simp only [not_or] at hstops
    exact ⟨fun h => ⟨hstops.2.1, hstops.2.2, h⟩, fun h => h.2.2⟩

/-- Behind a rejected id the call keeps its objects only in a fault that uses none.

**Proof sketch.** By cases on the fate: where the call returns, an object is left whose count is
not the number of places that store it (`Tracked.leaks`); a fault keeps the objects unless it
uses one that was destroyed. -/
lemma keepsObjects_behind_id {x : Iksemel N} {w : World} {p : ℕ} {ik : N} {err : ErrState}
    (hr : Ready w p) (hroot : RightRoot x "entry" ik) {id : Str}
    (hid : x.findCdata ik "id".toList = some id) (hrejects : iriAccepts id = false)
    (herr : err ≠ .cleared) :
    KeepsObjects w p (entryRefs x p ⟨w, err⟩ ik) ↔
      entryFate x ik = .faults ∧ ¬ Meets (namedFate x) (DropsAndUses x) true (x.children ik) := by
  have hfollows := parseEntry_follows hr hroot hid hrejects herr
  unfold entryRefs
  cases hcase : entryFate x ik with
  | goesOn recorded =>
    rw [hcase] at hfollows
    obtain ⟨s, hcall, hk, -⟩ := hfollows
    rw [hcall]
    exact iff_of_false hk.leaks fun h => by cases h.1
  | stops =>
    rw [hcase] at hfollows
    obtain ⟨s, hcall, hk⟩ := hfollows
    rw [hcall]
    exact iff_of_false hk.leaks fun h => by cases h.1
  | faults =>
    rw [hcase] at hfollows
    by_cases hdangles : Meets (namedFate x) (DropsAndUses x) true (x.children ik)
    · rw [hfollows.1 hdangles]
      exact iff_of_false False.elim fun h => h.2 hdangles
    · rw [hfollows.2 hdangles]
      exact iff_of_true trivial ⟨rfl, hdangles⟩

/-- **When the entry parser keeps its objects**: at a wrong root, at a missing id, at an id that is
accepted, which refuses the entry, behind a cleared record, and when the loop over the children is a
fault that uses no object.

**Proof sketch.** By cases on where the call ends: in front of the id, at an id that is
accepted, behind a cleared record, and behind a rejected id, where `keepsObjects_behind_id` and
`meets_faultsOtherwise` say what the loop does. -/
theorem entry_objects_kept_iff (x : Iksemel N) {w : World} {p : ℕ} (hr : Ready w p) (err : ErrState)
    (ik : N) :
    KeepsObjects w p (entryRefs x p ⟨w, err⟩ ik) ↔
      ¬ RightRoot x "entry" ik ∨ x.findCdata ik "id".toList = none ∨
        Accepted (x.findCdata ik "id".toList) ∨ err = .cleared ∨
        ¬ RequiredStops x ik ∧ ¬ ContentStops x ik ∧
          Meets (namedFate x) (FaultsOtherwise x) true (x.children ik) := by
  by_cases hbefore : ¬ RightRoot x "entry" ik ∨ x.findCdata ik "id".toList = none
  · refine iff_of_true ?_ (hbefore.imp_right Or.inl)
    rcases entryRefs_before p w err hbefore with
      ⟨-, s, hcall, hworld⟩ | ⟨-, hcall⟩
    · rw [hcall]
      intro a hle hlt
      rw [hworld] at hlt
      omega
    · rw [hcall]
      trivial
  obtain ⟨hroot, hsome⟩ := not_or.mp hbefore
  rw [not_not] at hroot
  by_cases herr : err = .cleared
  · subst herr
    rw [entryRefs_cleared]
    exact iff_of_true trivial (Or.inr (Or.inr (Or.inr (Or.inl rfl))))
  by_cases haccepted : Accepted (x.findCdata ik "id".toList)
  · refine iff_of_true ?_ (Or.inr (Or.inr (Or.inl haccepted)))
    obtain ⟨s, hcall, hsize, hgone⟩ := entryRefs_accepts (p := p) hr.inOrder hroot haccepted herr
    rw [hcall]
    intro a hle hlt
    obtain rfl : a = w.size := by omega
    exact Or.inl hgone
  · obtain ⟨id, hid⟩ := Option.ne_none_iff_exists'.mp hsome
    have hrejects : iriAccepts id = false := by
      rw [hid, accepted_some, Bool.not_eq_true] at haccepted
      exact haccepted
    rw [keepsObjects_behind_id hr hroot hid hrejects herr, entryFate_faults hroot, and_assoc,
      and_assoc, ← meets_faultsOtherwise]
    simp only [hroot, hsome, haccepted, herr, not_true_eq_false, false_or]

/-- Behind every run of careful calls an entry of the caller is ready, unless the text of its
content was released. -/
lemma ready_of_careful (calls : List Call)
    (h : Machine.GuardedRun step (fun w c => Legal w c ∧ Careful w c) World.start calls)
    {w : World} (hrun : Machine.run? step World.start calls = some w) {p : ℕ}
    (hentry : Has w p .entry) (hcontent : WholeContent p w) : Ready w p := by
  obtain ⟨w', hrun', hok⟩ := Machine.run?_guarded
    (I := fun w : World => InOrder w.heap w.size w.held)
    (fun w c hok hg => step_inOrder hok hg.1 hg.2) inOrder_start h
  obtain rfl := Option.some.inj (hrun.symm.trans hrun')
  exact ⟨hok, hentry, hcontent⟩

/-- A new entry is ready. -/
lemma ready_entryNew : Ready (entryNew World.start) 0 := by
  refine ready_of_careful [.entryNew] ⟨⟨trivial, trivial⟩, fun w hw => trivial⟩ rfl
    (new_create World.start _).toHas ?_
  intro e c src he hc
  cases he
  cases hc

/-- A new entry is refused for its id. -/
theorem entry_objects_kept_refused :
    KeepsObjects (entryNew World.start) 0 (entryRefs xmlNodes 0 ⟨entryNew World.start, .unset⟩
      (.tag "entry".toList [] [.leaf "id" "a:b", .leaf "title" "Olha"])) :=
  (entry_objects_kept_iff xmlNodes ready_entryNew .unset _).mpr
    (Or.inr (Or.inr (Or.inl (by decide))))

/-- The call returns, and the IRI of the id is stored once and counted twice. With an in-reply-to
element that has an accepted href and a type, an object is used that is gone.

**Proof sketch.** The calls are computed: in the first the IRI of the id has address 1. -/
theorem entry_objects_not_kept :
    (∃ s, entryRefs xmlNodes 0 ⟨entryNew World.start, .unset⟩
        (.tag "entry".toList [] [.leaf "id" "1a", .leaf "title" "Olha"]) = .returns 1 s ∧
      s.world.heap.count 1 = some 2 ∧ s.world.places 1 = 1 ∧
      ¬ KeepsObjects (entryNew World.start) 0 (.returns 1 s)) ∧
    entryRefs xmlNodes 0 ⟨entryNew World.start, .unset⟩ (.tag "entry".toList []
      [.leaf "id" "1a", .leaf "title" "Olha",
        .tag "in-reply-to".toList [("ref".toList, "1a".toList), ("href".toList, "a:b".toList),
          ("type".toList, "text".toList)] []]) = .dangling := by
  refine ⟨⟨_, rfl, rfl, rfl, fun hkeeps => ?_⟩, rfl⟩
  rcases hkeeps 1 (by decide) (by decide) with hgone | ⟨-, hcount⟩
  · cases hgone
  · exact absurd hcount (by decide)

end Taningia.Refs
