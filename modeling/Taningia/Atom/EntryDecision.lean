import Taningia.Atom.EntryParse

set_option relaxedAutoImplicit false
set_option autoImplicit false

/-!
# What the entry parser decides

An entry element is acceptable when it has what the Atom format asks for and its IRIs are valid.
`ta_atom_entry_set_from_iks` decides otherwise, because it takes valid IRIs for invalid ones: this
file has where it stops, where it goes on and where it is a fault.

## Main definitions

* `Taningia.Acceptable` — what an entry element should be.
* `Taningia.childFate`, `Taningia.StopsWithError` — where the parser really stops.

## Main results

* `Taningia.readChild_fate` — one child of the entry, and `Taningia.readChildren_fate`, all of them.
* `Taningia.entrySetFromIks_stops`, `Taningia.entrySetFromIks_goesOn` — when the parser returns `0`.
* `Taningia.entrySetFromIks_decides_iff` — when the parser decides right.
-/

namespace Taningia

variable {N : Type}

/-! ## What an entry element should be -/

/-- The text, if there is one, is an IRI that the IRI parser accepts. -/
def AcceptedIfAny (text : Option Str) : Prop := ∀ s ∈ text, iriAccepts s = true

instance (text : Option Str) : Decidable (AcceptedIfAny text) :=
  match text with
  | none => isTrue (by simp [AcceptedIfAny])
  | some s => decidable_of_iff (iriAccepts s = true) (by simp [AcceptedIfAny])

/-- The text is there, and an IRI that the IRI parser accepts. -/
def Accepted (text : Option Str) : Prop := ∃ s ∈ text, iriAccepts s = true

instance (text : Option Str) : Decidable (Accepted text) :=
  match text with
  | none => isFalse (by simp [Accepted])
  | some s => decidable_of_iff (iriAccepts s = true) (by simp [Accepted])

/-- **An acceptable entry element**. -/
structure Acceptable (x : Iksemel N) (ik : N) : Prop where
  root : x.name ik = some "entry".toList ∧ x.hasChildren ik = true
  id : Accepted (x.findCdata ik "id".toList)
  title : x.findCdata ik "title".toList ≠ none
  content : ∀ content, x.find ik "content".toList = some content →
    ¬ (x.findAttrib content "src".toList ≠ none ∧ x.findCdata ik "content".toList ≠ none) ∧
      AcceptedIfAny (x.findAttrib content "src".toList)
  authors : ∀ child ∈ x.children ik, x.name child = some "author".toList →
    x.findCdata child "name".toList ≠ none ∧ AcceptedIfAny (x.findCdata child "uri".toList)
  categories : ∀ child ∈ x.children ik, x.name child = some "category".toList →
    x.findAttrib child "term".toList ≠ none ∧ AcceptedIfAny (x.findAttrib child "scheme".toList)
  replies : ∀ child ∈ x.children ik, x.name child = some "in-reply-to".toList →
    Accepted (x.findAttrib child "ref".toList)

/-- The call returns, and returns `1` exactly for an acceptable element. -/
def Decides (x : Iksemel N) (lib : TimeLib) (entry : Entry) (err : ErrState) (ik : N) : Prop :=
  ∃ value s, entrySetFromIks x lib entry err ik = some (value, s) ∧ (value = 1 ↔ Acceptable x ik)

/-! ## Where the parser stops -/

/-- What a part of the tree leads to: the parser goes on, with an error recorded or with the record
cleared, stops with `0`, or is a fault. -/
inductive ParseFate where
  | goesOn (recorded : Bool)
  | stops
  | faults
deriving DecidableEq, Repr

/-- A child with a required part and an optional IRI: it stops without the part, and when the IRI is
accepted. With the record cleared, every error is a fault. -/
def partFate (required iri : Option Str) (recorded : Bool) : ParseFate :=
  if recorded then (if required = none ∨ Accepted iri then .stops else .goesOn true)
  else if required = none ∨ iri ≠ none then .faults
  else .goesOn false

/-- An in-reply-to child: it stops without a ref and when the ref is accepted. Otherwise the first
of href and source that is accepted drops the object, and with it clears the record; what comes
behind it is then a fault. With the record cleared, every such child is a fault. -/
def replyFate (ref href source type : Option Str) (recorded : Bool) : ParseFate :=
  if !recorded then .faults
  else if ref = none ∨ Accepted ref then .stops
  else if Accepted href then (if source = none ∧ type = none then .goesOn false else .faults)
  else if Accepted source then (if type = none then .goesOn false else .faults)
  else .goesOn true

/-- A child of the entry. -/
def childFate (x : Iksemel N) (recorded : Bool) (child : N) : ParseFate :=
  if x.name child = some "author".toList then
    partFate (x.findCdata child "name".toList) (x.findCdata child "uri".toList) recorded
  else if x.name child = some "category".toList then
    partFate (x.findAttrib child "term".toList) (x.findAttrib child "scheme".toList) recorded
  else if x.name child = some "in-reply-to".toList then
    replyFate (x.findAttrib child "ref".toList) (x.findAttrib child "href".toList)
      (x.findAttrib child "source".toList) (x.findAttrib child "type".toList) recorded
  else .goesOn recorded

/-- The children of the entry, up to the first that does not go on. -/
def childrenFate (x : Iksemel N) : Bool → List N → ParseFate
  | recorded, [] => .goesOn recorded
  | recorded, child :: children =>
    match childFate x recorded child with
    | .goesOn recorded => childrenFate x recorded children
    | fate => fate

/-- The content has a source and a text, or a source that is accepted. -/
def ContentStops (x : Iksemel N) (ik : N) : Prop :=
  ∃ content, x.find ik "content".toList = some content ∧
    (x.findAttrib content "src".toList ≠ none ∧ x.findCdata ik "content".toList ≠ none ∨
      Accepted (x.findAttrib content "src".toList))

/-- **Where the parser stops**: at a wrong root; at an id that is missing or accepted; at a missing
title; at a content with a source and a text, or with an accepted source; or at the first child that
does not go on, which is no fault. Behind the id an error is recorded. -/
def StopsWithError (x : Iksemel N) (ik : N) : Prop :=
  ¬ (x.name ik = some "entry".toList ∧ x.hasChildren ik = true) ∨
  x.findCdata ik "id".toList = none ∨ Accepted (x.findCdata ik "id".toList) ∨
  x.findCdata ik "title".toList = none ∨
  ContentStops x ik ∨
  childrenFate x true (x.children ik) = .stops

/-- An error is recorded, or the record was cleared. -/
inductive ErrState.Tells : ErrState → Bool → Prop
  | shown (error : ErrorT) : Tells (.shown error) true
  | cleared : Tells .cleared false

/-- A part of a call follows a fate. -/
def ParseFate.Rules : ParseFate → Flow N (EntryParse N) → Prop
  | .goesOn recorded, flow => ∃ s, flow = .ok s ∧ s.err.Tells recorded
  | .stops, flow => ∃ s, flow = .error (some (0, s))
  | .faults, flow => flow = fault

/-! ## The parser follows its fate -/

/-- A record that tells of an error shows one. -/
lemma ErrState.Tells.eq_shown {s : ErrState} (h : s.Tells true) : ∃ error, s = .shown error := by
  cases h
  exact ⟨_, rfl⟩

/-- A record that tells of none was cleared. -/
lemma ErrState.Tells.eq_cleared {s : ErrState} (h : s.Tells false) : s = .cleared := by
  cases h
  rfl

/-- A record that tells of an error was not cleared. -/
lemma ErrState.Tells.ne_cleared {err : ErrState} (h : err.Tells true) : err ≠ .cleared := by
  obtain ⟨error, rfl⟩ := h.eq_shown
  simp

/-- An error shown tells of an error. -/
lemma ErrState.tells_shown {s : ErrState} {error : ErrorT} (h : s = .shown error) :
    s.Tells true := h ▸ .shown error

/-- No text is not accepted. -/
@[simp] lemma accepted_none : ¬ Accepted none := by simp [Accepted]

/-- A text is accepted as an IRI. -/
@[simp] lemma accepted_some (text : Str) : Accepted (some text) ↔ iriAccepts text = true := by
  simp [Accepted]

/-! ### The fate of a part -/

/-- Behind an error, a part stops when it lacks what it needs or has an accepted IRI. -/
lemma partFate_true (required iri : Option Str) :
    partFate required iri true =
      if required = none ∨ Accepted iri then .stops else .goesOn true := by
  rw [partFate, if_pos rfl]

/-- A part that lacks what it needs stops, or faults behind a cleared record. -/
lemma partFate_missing (iri : Option Str) (recorded : Bool) :
    partFate none iri recorded = if recorded then .stops else .faults := by
  simp [partFate]

/-- A part without an IRI goes on. -/
lemma partFate_bare (text : Str) (recorded : Bool) :
    partFate (some text) none recorded = .goesOn recorded := by
  cases recorded <;> simp [partFate]

/-- A part with an accepted IRI stops, or faults behind a cleared record. -/
lemma partFate_accepted {iri : Str} (h : iriAccepts iri = true) (text : Str) (recorded : Bool) :
    partFate (some text) (some iri) recorded = if recorded then .stops else .faults := by
  simp [partFate, h]

/-- A part with a rejected IRI goes on behind an error, and faults behind a cleared record. -/
lemma partFate_rejected {iri : Str} (h : iriAccepts iri = false) (text : Str) (recorded : Bool) :
    partFate (some text) (some iri) recorded = if recorded then .goesOn true else .faults := by
  simp [partFate, h]

/-- **A part of an entry** follows its fate: behind a cleared record everything but a part without
an IRI is a fault.

**Proof sketch.** By cases on the required text and the IRI, with the two lemmas on `partFate`
for each. What sets an error does so unless the record was cleared, where it is a fault; without
an IRI no error is set at all. -/
lemma readPart_fate (required iri : Option Str) (missing invalid : String)
    (add : Str → Option Iri → Entry → Entry) {s : EntryParse N} {recorded : Bool}
    (hs : s.err.Tells recorded) :
    (partFate required iri recorded).Rules (readPart required missing iri invalid add s) := by
  unfold readPart
  cases required with
  | none =>
    rw [partFate_missing]
    cases recorded with
    | true => exact ⟨_, parsingError_eq hs.ne_cleared missing⟩
    | false => exact parsingError_cleared hs.eq_cleared missing
  | some text =>
    cases iri with
    | none =>
      rw [partFate_bare]
      exact ⟨_, rfl, hs⟩
    | some iri =>
      cases h : iriAccepts iri with
      | true =>
        obtain ⟨call, hcall, hnot⟩ := readIri_accepts h iriNew s
        rw [partFate_accepted h]
        simp only [hcall, hnot, bind, Except.bind, if_true]
        cases recorded with
        | true => exact ⟨_, parsingError_eq hs.ne_cleared invalid⟩
        | false => exact parsingError_cleared hs.eq_cleared invalid
      | false =>
        rw [partFate_rejected h]
        cases recorded with
        | true =>
          obtain ⟨call, s', error', hcall, hnot, hs'⟩ := EntryParse.readIri_rejects h hs.ne_cleared
          simp only [hcall, hnot, bind, Except.bind, Bool.false_eq_true, if_false]
          exact ⟨_, rfl, ErrState.tells_shown hs'⟩
        | false =>
          simp only [readIri_rejects_cleared (s := s) h iriNew hs.eq_cleared]
          rfl

/-- An IRI of an in-reply-to element, while the object is there: a rejected one is stored, an
accepted one drops the object and clears the record.

**Proof sketch.** Without the attribute nothing is read. An accepted text is taken for a
failure, which is reported over the recorded error and drops the object; a rejected one is
stored and leaves its error. -/
lemma readReplyIri_some (attrib : Option Str) (what : String) (set : InReplyTo → Iri → InReplyTo)
    {s : EntryParse N} {error : ErrorT} (hs : s.err = .shown error) (irt : InReplyTo) :
    ∃ s' irt', readReplyIri attrib what set s (some irt) = .ok (s', irt') ∧
      irt'.isSome = decide (¬ Accepted attrib) ∧ s'.err.Tells (decide (¬ Accepted attrib)) := by
  unfold readReplyIri
  cases attrib with
  | none => exact ⟨s, some irt, rfl, by simp, by simpa [hs] using .shown error⟩
  | some text =>
    cases h : iriAccepts text with
    | true =>
      obtain ⟨call, hcall, hnot⟩ := readIri_accepts h iriNew s
      simp only [hcall, hnot, bind, Except.bind, if_true, reportLast_shown hs]
      exact ⟨_, none, rfl, by simp [h], by simpa [h] using .cleared⟩
    | false =>
      obtain ⟨call, s', error', hcall, hnot, hs'⟩ := EntryParse.readIri_rejects h (s := s)
        (by simp [hs])
      simp only [hcall, hnot, bind, Except.bind, Bool.false_eq_true, if_false]
      exact ⟨_, _, rfl, by simp [h], by simpa [h, hs'] using .shown error'⟩

/-- An IRI behind a dropped object and a cleared record is a fault, whatever it is. -/
lemma readReplyIri_none {attrib : Option Str} (ha : attrib ≠ none) (what : String)
    (set : InReplyTo → Iri → InReplyTo) {s : EntryParse N} (hs : s.err = .cleared) :
    readReplyIri attrib what set s none = fault := by
  obtain ⟨text, rfl⟩ := Option.ne_none_iff_exists'.mp ha
  unfold readReplyIri
  cases h : iriAccepts text with
  | true =>
    obtain ⟨call, hcall, hnot⟩ := readIri_accepts h iriNew s
    simp only [hcall, hnot, bind, Except.bind, if_true, reportLast_cleared hs]
    rfl
  | false =>
    simp only [readIri_rejects_cleared (s := s) h iriNew hs]
    rfl

/-- What is read behind the ref of an in-reply-to element.

**Proof sketch.** The two IRIs in turn, by `readReplyIri_some`. As long as the object is there
the record holds an error; once an accepted IRI has dropped it, the next attribute that is given
writes through it. -/
lemma replyRest_fate (href source type : Option Str) {s : EntryParse N} {error : ErrorT}
    (hs : s.err = .shown error) (irt : InReplyTo) :
    ParseFate.Rules
      (if Accepted href then (if source = none ∧ type = none then .goesOn false else .faults)
        else if Accepted source then (if type = none then .goesOn false else .faults)
        else .goesOn true)
      (do
        let (s, irt) ← readReplyIri href "InReplyTo element with an invalid href attribute: "
          (fun irt iri => { irt with href := some iri }) s (some irt)
        let (s, irt) ← readReplyIri source "InReplyTo element with an invalid source attribute: "
          (fun irt iri => { irt with source := some iri }) s irt
        let _ ← readReplyType type irt
        pure s) := by
  obtain ⟨s₁, irt₁, h₁, hirt₁, herr₁⟩ := readReplyIri_some href
    "InReplyTo element with an invalid href attribute: "
    (fun irt iri => { irt with href := some iri }) hs irt
  simp only [h₁, bind, Except.bind]
  by_cases hhref : Accepted href
  · -- the object is dropped and the record cleared
    rw [if_pos hhref]
    obtain rfl : irt₁ = none := by simpa [hhref] using hirt₁
    have herr₁ : s₁.err.Tells false := by simpa [hhref] using herr₁
    cases source with
    | some source =>
      rw [readReplyIri_none (by simp) _ _ (herr₁.eq_cleared), if_neg (by simp)]
      rfl
    | none =>
      cases type with
      | none => exact ⟨s₁, rfl, herr₁⟩
      | some type => rfl
  · rw [if_neg hhref]
    obtain ⟨irt', rfl⟩ := Option.isSome_iff_exists.mp (by simpa [hhref] using hirt₁)
    have herr₁ : s₁.err.Tells true := by simpa [hhref] using herr₁
    obtain ⟨error₁, hs₁⟩ := herr₁.eq_shown
    obtain ⟨s₂, irt₂, h₂, hirt₂, herr₂⟩ := readReplyIri_some source
      "InReplyTo element with an invalid source attribute: "
      (fun irt iri => { irt with source := some iri }) hs₁ irt'
    simp only [h₂]
    by_cases hsource : Accepted source
    · rw [if_pos hsource]
      obtain rfl : irt₂ = none := by simpa [hsource] using hirt₂
      have herr₂ : s₂.err.Tells false := by simpa [hsource] using herr₂
      cases type with
      | none => exact ⟨s₂, rfl, herr₂⟩
      | some type => rfl
    · rw [if_neg hsource]
      obtain ⟨irt'', rfl⟩ := Option.isSome_iff_exists.mp (by simpa [hsource] using hirt₂)
      have herr₂ : s₂.err.Tells true := by simpa [hsource] using herr₂
      cases type with
      | none => exact ⟨s₂, rfl, herr₂⟩
      | some type => exact ⟨s₂, rfl, herr₂⟩

/-- Behind a cleared record an in-reply-to element is a fault.

**Proof sketch.** Without a ref the parsing error is the fault, with an accepted one the report
of the last error, with a rejected one the error of its parse. -/
lemma readInReplyTo_cleared (x : Iksemel N) (child : N) {s : EntryParse N}
    (hs : s.err = .cleared) : readInReplyTo x child s = fault := by
  unfold readInReplyTo
  cases x.findAttrib child "ref".toList with
  | none => exact parsingError_cleared hs _
  | some ref =>
    cases h : iriAccepts ref with
    | true =>
      obtain ⟨call, hcall, hnot⟩ := readIri_accepts h iriNew s
      simp only [hcall, hnot, bind, Except.bind, if_true, reportLast_cleared hs]
      rfl
    | false =>
      simp only [readIri_rejects_cleared (s := s) h iriNew hs]
      rfl

/-- The in-reply-to element follows its fate.

**Proof sketch.** Behind a cleared record it is a fault. Behind an error a missing or accepted
ref stops it or clears the record, and a rejected one leads to the rest, which is
`replyRest_fate`. -/
lemma readInReplyTo_fate (x : Iksemel N) (child : N) {s : EntryParse N} {recorded : Bool}
    (h : s.err.Tells recorded) :
    (replyFate (x.findAttrib child "ref".toList) (x.findAttrib child "href".toList)
      (x.findAttrib child "source".toList) (x.findAttrib child "type".toList)
      recorded).Rules (readInReplyTo x child s) := by
  unfold replyFate
  cases recorded with
  | false => exact readInReplyTo_cleared x child h.eq_cleared
  | true =>
    obtain ⟨error, hs⟩ := h.eq_shown
    have hne : s.err ≠ .cleared := by simp [hs]
    rw [if_neg (by simp)]
    unfold readInReplyTo
    cases x.findAttrib child "ref".toList with
    | none => exact ⟨_, parsingError_eq hne _⟩
    | some ref =>
      cases h : iriAccepts ref with
      | true =>
        obtain ⟨call, hcall, hnot⟩ := readIri_accepts h iriNew s
        rw [if_pos (Or.inr ((accepted_some ref).mpr h))]
        simp only [hcall, hnot, bind, Except.bind, if_true, reportLast_shown hs]
        exact ⟨_, rfl⟩
      | false =>
        obtain ⟨call, s', error', hcall, hnot, hs'⟩ := EntryParse.readIri_rejects h hne
        rw [if_neg (by simp [h])]
        simp only [hcall, hnot, bind, Except.bind, Bool.false_eq_true, if_false]
        exact replyRest_fate _ _ _ hs' _

/-- **One child**: the loop body follows the fate of the child.

**Proof sketch.** One case per name that the loop compares with. -/
lemma readChild_fate {x : Iksemel N} {child : N} (hchild : x.name child ≠ none)
    {s : EntryParse N} {recorded : Bool} (h : s.err.Tells recorded) :
    (childFate x recorded child).Rules (readChild x s child) := by
  obtain ⟨name, hname⟩ := Option.ne_none_iff_exists'.mp hchild
  rw [readChild_eq hname]
  unfold childFate
  simp only [hname, Option.some.injEq]
  split_ifs
  · unfold readAuthor
    exact readPart_fate _ _ _ _ _ h
  · unfold readCategory
    exact readPart_fate _ _ _ _ _ h
  · exact readInReplyTo_fate x child h
  · exact ⟨s, rfl, h⟩

/-- **All children**: the loop follows the fate of the children.

**Proof sketch.** Induction on the children: the fate of the first says whether the loop reaches
the rest, and in which record. -/
lemma readChildren_fate {x : Iksemel N} {children : List N}
    (hchildren : ∀ child ∈ children, x.name child ≠ none) {s : EntryParse N} {recorded : Bool}
    (h : s.err.Tells recorded) :
    (childrenFate x recorded children).Rules (children.foldlM (readChild x) s) := by
  induction children generalizing s recorded with
  | nil => exact ⟨s, rfl, h⟩
  | cons child children ih =>
    have hchild := readChild_fate (hchildren child (by simp)) h
    rw [List.foldlM_cons, childrenFate]
    cases hfate : childFate x recorded child with
    | goesOn recorded' =>
      rw [hfate] at hchild
      obtain ⟨s', hs', h'⟩ := hchild
      rw [hs']
      exact ih (fun c hc => hchildren c (by simp [hc])) h'
    | stops =>
      rw [hfate] at hchild
      obtain ⟨s', hs'⟩ := hchild
      rw [hs']
      exact ⟨s', rfl⟩
    | faults =>
      rw [hfate] at hchild
      have hfault : readChild x s child = fault := hchild
      rw [hfault]
      rfl

/-! ## The parser decides -/

/-- The text of a new content is set without a fault, also twice. -/
lemma readText_twice (x : Iksemel N) (content : N) (text : Str) (type : Option Str) :
    ∃ ct ct', readText x content (some text) (contentNew type) = .ok ct ∧
      readText x content (some text) ct = .ok ct' := by
  unfold readText
  simp only [contentSetContent, contentFreeContent, contentNew, Option.map_some, ofSetter]
  by_cases hlen : x.cdataSize (x.children content).head? ≠ 0
  · simp only [if_pos hlen]
    exact ⟨_, _, rfl, rfl⟩
  · simp only [if_neg hlen]
    exact ⟨_, _, rfl, rfl⟩

/-- An accepted source stops the parser. -/
lemma readSrc_accepts {src : Str} (h : iriAccepts src = true) {s : EntryParse N}
    (hs : s.err ≠ .cleared) (ct : Content) :
    ∃ s', readSrc (some src) s ct = .error (some (0, s')) := by
  unfold readSrc
  obtain ⟨call, hcall, hnot⟩ := readIri_accepts h iriNew s
  simp only [hcall, hnot, bind, Except.bind, if_true]
  exact ⟨_, parsingError_eq hs _⟩

/-- A rejected source is stored. -/
lemma readSrc_rejects {src : Str} (h : iriAccepts src = false) {s : EntryParse N}
    (hs : s.err ≠ .cleared) (type : Option Str) :
    ∃ s' ct error, readSrc (some src) s (contentNew type) = .ok (s', ct) ∧
      s'.err = .shown error := by
  unfold readSrc
  obtain ⟨call, s', error, hcall, hnot, hs'⟩ := EntryParse.readIri_rejects h hs
  simp only [hcall, hnot, bind, Except.bind, Bool.false_eq_true, if_false]
  exact ⟨s', _, error, rfl, hs'⟩

/-- The content stops the parser.

**Proof sketch.** A source together with a text is a parsing error. A source alone stops when it
is accepted, which is taken for a failure. -/
lemma readContent_stops {x : Iksemel N} {ik : N} (h : ContentStops x ik) {s : EntryParse N}
    (hs : s.err ≠ .cleared) : ∃ s', readContent x ik s = .error (some (0, s')) := by
  obtain ⟨content, hcontent, hstop⟩ := h
  unfold readContent
  rw [hcontent]
  simp only []
  cases hsrc : x.findAttrib content "src".toList with
  | none =>
    rw [hsrc] at hstop
    simp at hstop
  | some src =>
    cases htext : x.findCdata ik "content".toList with
    | some text =>
      rw [if_pos (by simp)]
      exact ⟨_, parsingError_eq hs _⟩
    | none =>
      rw [hsrc, htext] at hstop
      have haccepts : iriAccepts src = true := by simpa using hstop
      rw [if_neg (by simp), if_neg (by simp)]
      simp only [readText, bind, Except.bind]
      obtain ⟨s', hs'⟩ := readSrc_accepts haccepts hs
        (contentNew (if x.findAttrib content "type".toList = none ∧ some src = none then
          some "text".toList else x.findAttrib content "type".toList))
      rw [hs']
      exact ⟨s', rfl⟩

/-- A content that does not stop the parser leaves it with an error recorded.

**Proof sketch.** By cases on the source and the text. The text is set without an error; a
source that is rejected is stored with the error of its parse, and the second setter of the text
keeps it. -/
lemma readContent_goesOn {x : Iksemel N} {ik : N} (h : ¬ ContentStops x ik) {s : EntryParse N}
    {error : ErrorT} (hs : s.err = .shown error) :
    ∃ s' error', readContent x ik s = .ok s' ∧ s'.err = .shown error' := by
  unfold readContent
  cases hcontent : x.find ik "content".toList with
  | none => exact ⟨s, error, rfl, hs⟩
  | some content =>
    have hgo : ¬ (x.findAttrib content "src".toList ≠ none ∧
        x.findCdata ik "content".toList ≠ none ∨ Accepted (x.findAttrib content "src".toList)) :=
      fun hstop => h ⟨content, hcontent, hstop⟩
    simp only []
    cases hsrc : x.findAttrib content "src".toList with
    | none =>
      cases htext : x.findCdata ik "content".toList with
      | none => exact ⟨s, error, rfl, hs⟩
      | some text =>
        rw [if_neg (by simp), if_neg (by simp)]
        obtain ⟨ct, ct', h₁, h₂⟩ := readText_twice x content text
          (if x.findAttrib content "type".toList = none ∧ (none : Option Str) = none then
            some "text".toList else x.findAttrib content "type".toList)
        rw [h₁]
        simp only [readSrc, bind, Except.bind, pure, Except.pure, h₂]
        exact ⟨_, error, rfl, hs⟩
    | some src =>
      cases htext : x.findCdata ik "content".toList with
      | some text =>
        rw [hsrc, htext] at hgo
        exact absurd (Or.inl (by simp)) hgo
      | none =>
        rw [hsrc, accepted_some, not_or, Bool.not_eq_true] at hgo
        rw [if_neg (by simp), if_neg (by simp)]
        obtain ⟨s', ct, error', hread, hs'⟩ := readSrc_rejects hgo.2 (s := s) (by simp [hs])
          (if x.findAttrib content "type".toList = none ∧ some src = none then
            some "text".toList else x.findAttrib content "type".toList)
        simp only [readText, bind, Except.bind, hread]
        exact ⟨_, error', rfl, hs'⟩

/-- The root and the required fields stop the parser. -/
def RequiredStops (x : Iksemel N) (ik : N) : Prop :=
  x.findCdata ik "id".toList = none ∨ Accepted (x.findCdata ik "id".toList) ∨
    x.findCdata ik "title".toList = none

/-- What the required fields are when they do not stop the parser. -/
lemma exists_of_not_requiredStops {x : Iksemel N} {ik : N} (h : ¬ RequiredStops x ik) :
    ∃ id title, x.findCdata ik "id".toList = some id ∧
      x.findCdata ik "title".toList = some title ∧ iriAccepts id = false := by
  simp only [RequiredStops, not_or] at h
  obtain ⟨hid, haccepts, htitle⟩ := h
  obtain ⟨id, hid⟩ := Option.ne_none_iff_exists'.mp hid
  obtain ⟨title, htitle⟩ := Option.ne_none_iff_exists'.mp htitle
  rw [hid, accepted_some, Bool.not_eq_true] at haccepts
  exact ⟨id, title, hid, htitle, haccepts⟩

/-- A wrong root stops the parser. -/
lemma readRoot_wrong {x : Iksemel N} {ik : N} (hname : x.name ik ≠ none)
    (h : ¬ (x.name ik = some "entry".toList ∧ x.hasChildren ik = true)) {s : EntryParse N}
    (hs : s.err ≠ .cleared) : ∃ s', readRoot x ik s = .error (some (0, s')) := by
  obtain ⟨name, hname⟩ := Option.ne_none_iff_exists'.mp hname
  rw [hname, Option.some.injEq] at h
  unfold readRoot
  simp only [nameIs_eq hname, bind, Except.bind]
  rw [if_pos]
  · exact ⟨_, parsingError_eq (s := { s with deleted := s.deleted ++ [ik] }) hs _⟩
  · rw [Bool.or_eq_true, Bool.not_eq_true', Bool.not_eq_true', decide_eq_false_iff_not,
      ← Bool.not_eq_true]
    exact Classical.or_iff_not_imp_left.mpr fun hn => fun hc => h ⟨not_not.mp hn, hc⟩

/-- A root as it should be does not stop the parser. -/
lemma readRoot_right {x : Iksemel N} {ik : N}
    (h : x.name ik = some "entry".toList ∧ x.hasChildren ik = true) (s : EntryParse N) :
    readRoot x ik s = .ok () := by
  unfold readRoot
  simp only [nameIs_eq h.1, h.2, bind, Except.bind]
  rfl

/-- Behind a cleared record a wrong root is a fault. -/
lemma readRoot_cleared (x : Iksemel N) (ik : N) {s : EntryParse N} (hs : s.err = .cleared) :
    readRoot x ik s = .ok () ∨ readRoot x ik s = fault := by
  unfold readRoot nameIs
  cases x.name ik with
  | none => exact Or.inr rfl
  | some name =>
    simp only [bind, Except.bind]
    split_ifs
    · exact Or.inr (parsingError_cleared (s := { s with deleted := s.deleted ++ [ik] }) hs _)
    · exact Or.inl rfl

/-- A required field that is missing, or an accepted identifier, stops the parser.

**Proof sketch.** In the order of the code: the identifier is missing; it is accepted, which is
taken for a failure; it is rejected and the title is missing. -/
lemma readRequired_stops {x : Iksemel N} {ik : N} (h : RequiredStops x ik) {s : EntryParse N}
    (hs : s.err ≠ .cleared) : ∃ s', readRequired x ik s = .error (some (0, s')) := by
  unfold readRequired
  unfold RequiredStops at h
  cases hid : x.findCdata ik "id".toList with
  | none => exact ⟨_, parsingError_eq hs _⟩
  | some id =>
    simp only []
    cases haccepts : iriAccepts id with
    | true =>
      obtain ⟨call, hcall, hnot⟩ := readIri_accepts haccepts iriNew s
      simp only [hcall, hnot, bind, Except.bind, if_true]
      exact ⟨_, parsingError_eq hs _⟩
    | false =>
      have htitle : x.findCdata ik "title".toList = none := by
        rw [hid] at h
        simpa only [reduceCtorEq, accepted_some, haccepts, Bool.false_eq_true, false_or] using h
      obtain ⟨call, s', error, hcall, hnot, hs'⟩ := EntryParse.readIri_rejects haccepts hs
      simp only [hcall, hnot, bind, Except.bind, Bool.false_eq_true, if_false, htitle]
      exact ⟨_, parsingError_eq (by simp [hs']) _⟩

/-- Behind the required fields an error is recorded: the one of the rejected id. -/
lemma readRequired_goesOn {x : Iksemel N} {ik : N} (h : ¬ RequiredStops x ik) {s : EntryParse N}
    (hs : s.err ≠ .cleared) :
    ∃ s' error, readRequired x ik s = .ok s' ∧ s'.err = .shown error := by
  unfold readRequired
  obtain ⟨id, title, hid, htitle, haccepts⟩ := exists_of_not_requiredStops h
  obtain ⟨call, s', error, hcall, hnot, hs'⟩ := EntryParse.readIri_rejects haccepts hs
  rw [hid, htitle]
  simp only [hcall, hnot, bind, Except.bind, Bool.false_eq_true, if_false]
  exact ⟨_, error, rfl, hs'⟩

/-- Behind a cleared record the required fields are a fault.

**Proof sketch.** Each way through the required fields sets an error: a missing identifier, an
accepted one, or the rejection itself. -/
lemma readRequired_cleared (x : Iksemel N) (ik : N) {s : EntryParse N} (hs : s.err = .cleared) :
    readRequired x ik s = fault := by
  unfold readRequired
  cases x.findCdata ik "id".toList with
  | none => exact parsingError_cleared hs _
  | some id =>
    cases haccepts : iriAccepts id with
    | true =>
      obtain ⟨call, hcall, hnot⟩ := readIri_accepts haccepts iriNew s
      simp only [hcall, hnot, bind, Except.bind, if_true]
      exact parsingError_cleared hs _
    | false =>
      simp only [readIri_rejects_cleared (s := s) haccepts iriNew hs]
      rfl

/-- **Behind a cleared record** the parser is a fault, whatever it reads: each way through it sets
an error. -/
lemma entrySetFromIks_cleared (x : Iksemel N) (lib : TimeLib) (entry : Entry) (ik : N) :
    entrySetFromIks x lib entry .cleared ik = none := by
  suffices hfault : readEntry x lib ik ⟨entry, .cleared, []⟩ = fault by
    rw [entrySetFromIks, hfault]
    rfl
  unfold readEntry
  rcases readRoot_cleared x ik (s := ⟨entry, .cleared, []⟩) rfl with hroot | hroot
  · rw [hroot]
    simp only [readRequired_cleared x ik (s := ⟨entry, .cleared, []⟩) rfl, bind, Except.bind]
    rfl
  · rw [hroot]
    rfl

/-- **When the parser stops**, it returns `0`.

**Proof sketch.** The first part that stops is looked for in the order of the code: the root,
the required fields, the content, the children. The parts in front of it go on with an error
recorded, so the error of the part is set over it. -/
lemma entrySetFromIks_stops {x : Iksemel N} {ik : N} (hname : x.name ik ≠ none)
    (hchildren : ∀ child ∈ x.children ik, x.name child ≠ none) (h : StopsWithError x ik)
    {err : ErrState} (herr : err ≠ .cleared) (lib : TimeLib) (entry : Entry) :
    ∃ s, entrySetFromIks x lib entry err ik = some (0, s) := by
  suffices hstop : ∃ s, readEntry x lib ik ⟨entry, err, []⟩ = .error (some (0, s)) by
    obtain ⟨s, hs⟩ := hstop
    exact ⟨s, by rw [entrySetFromIks, hs]⟩
  unfold readEntry
  by_cases hroot : x.name ik = some "entry".toList ∧ x.hasChildren ik = true
  · simp only [readRoot_right hroot, bind, Except.bind]
    by_cases hrequired : RequiredStops x ik
    · obtain ⟨s, hs⟩ := readRequired_stops hrequired (s := ⟨entry, err, []⟩) herr
      exact ⟨s, by rw [hs]⟩
    · obtain ⟨s₁, error₁, hs₁, herr₁⟩ :=
        readRequired_goesOn hrequired (s := ⟨entry, err, []⟩) herr
      rw [hs₁]
      simp only []
      by_cases hcontent : ContentStops x ik
      · obtain ⟨s, hs⟩ := readContent_stops hcontent
          (s := { s₁ with entry := readOptional x lib ik s₁.entry }) (by simp [herr₁])
        exact ⟨s, by rw [hs]⟩
      · obtain ⟨s₂, error₂, hs₂, herr₂⟩ := readContent_goesOn hcontent
          (s := { s₁ with entry := readOptional x lib ik s₁.entry }) herr₁
        rw [hs₂]
        have hstops : childrenFate x true (x.children ik) = .stops := by
          rcases h with h | h | h | h | h | h
          · exact absurd hroot h
          · exact absurd (Or.inl h) hrequired
          · exact absurd (Or.inr (Or.inl h)) hrequired
          · exact absurd (Or.inr (Or.inr h)) hrequired
          · exact absurd h hcontent
          · exact h
        have hfate := readChildren_fate hchildren (ErrState.tells_shown herr₂)
        rw [hstops] at hfate
        exact hfate
  · obtain ⟨s, hs⟩ := readRoot_wrong hname hroot (s := ⟨entry, err, []⟩) herr
    exact ⟨s, by rw [hs]; rfl⟩

/-- **When the parser does not stop**, it returns `1` or is a fault.

**Proof sketch.** Nothing in front of the loop stops the parser, so the call comes to the loop
with an error recorded; the fate of the children is then not `stops`, and `readChildren_fate`
gives the two results that are left. -/
lemma entrySetFromIks_goesOn {x : Iksemel N} {ik : N}
    (hchildren : ∀ child ∈ x.children ik, x.name child ≠ none) (h : ¬ StopsWithError x ik)
    {err : ErrState} (herr : err ≠ .cleared) (lib : TimeLib) (entry : Entry) :
    entrySetFromIks x lib entry err ik = none ∨
      ∃ s, entrySetFromIks x lib entry err ik = some (1, s) := by
  simp only [StopsWithError, not_or, not_not] at h
  obtain ⟨hroot, hid, haccepts, htitle, hcontent, hstops⟩ := h
  have hrequired : ¬ RequiredStops x ik := by
    rintro (h | h | h)
    · exact hid h
    · exact haccepts h
    · exact htitle h
  obtain ⟨s₁, error₁, hs₁, herr₁⟩ := readRequired_goesOn hrequired (s := ⟨entry, err, []⟩) herr
  obtain ⟨s₂, error₂, hs₂, herr₂⟩ := readContent_goesOn hcontent
    (s := { s₁ with entry := readOptional x lib ik s₁.entry }) herr₁
  have hread : readEntry x lib ik ⟨entry, err, []⟩ = (x.children ik).foldlM (readChild x) s₂ := by
    unfold readEntry
    simp only [readRoot_right hroot, hs₁, hs₂, bind, Except.bind]
  have hfate := readChildren_fate hchildren (ErrState.tells_shown herr₂)
  unfold entrySetFromIks
  rw [hread]
  cases hcase : childrenFate x true (x.children ik) with
  | stops => exact absurd hcase hstops
  | goesOn recorded =>
    rw [hcase] at hfate
    obtain ⟨s, hs, -⟩ := hfate
    exact Or.inr ⟨s, by rw [hs]⟩
  | faults =>
    rw [hcase] at hfate
    have hfault : (x.children ik).foldlM (readChild x) s₂ = fault := hfate
    exact Or.inl (by rw [hfault]; rfl)

/-- **Whether the parser decides right**: it does exactly for the elements that are not acceptable
and at which it stops, unless the error record was cleared before.

**Proof sketch.** The parser stops at every acceptable element, because its id is accepted. Where it
does not stop, it is a fault, or it returns `1` for an element that is not acceptable. -/
theorem entrySetFromIks_decides_iff (x : Iksemel N) (lib : TimeLib) (entry : Entry) (err : ErrState)
    {ik : N} (hname : x.name ik ≠ none) (hchildren : ∀ child ∈ x.children ik, x.name child ≠ none) :
    Decides x lib entry err ik ↔ err ≠ .cleared ∧ ¬ Acceptable x ik ∧ StopsWithError x ik := by
  constructor
  · rintro ⟨value, s, hparse, hiff⟩
    have herr : err ≠ .cleared := by
      rintro rfl
      rw [entrySetFromIks_cleared] at hparse
      exact absurd hparse (by simp)
    refine ⟨herr, ?_⟩
    by_cases hstops : StopsWithError x ik
    · obtain ⟨s', hs'⟩ := entrySetFromIks_stops hname hchildren hstops herr lib entry
      obtain ⟨rfl, -⟩ := Prod.mk.inj (Option.some.inj (hparse.symm.trans hs'))
      exact ⟨fun hacceptable => absurd (hiff.mpr hacceptable) (by decide), hstops⟩
    · exfalso
      rcases entrySetFromIks_goesOn hchildren hstops herr lib entry with hnone | ⟨s', hs'⟩
      · exact absurd (hparse.symm.trans hnone) (by simp)
      · obtain ⟨rfl, -⟩ := Prod.mk.inj (Option.some.inj (hparse.symm.trans hs'))
        exact hstops (Or.inr (Or.inr (Or.inl (hiff.mp rfl).id)))
  · rintro ⟨herr, hacceptable, hstops⟩
    obtain ⟨s, hs⟩ := entrySetFromIks_stops hname hchildren hstops herr lib entry
    exact ⟨0, s, hs, by simp [hacceptable]⟩

/-- An entry whose id is no IRI and whose author has no name is refused. -/
theorem entrySetFromIks_decides_author :
    Decides xmlNodes epochLib (entryNew none 0) .unset (.tag "entry".toList []
      [.leaf "id" "1a", .leaf "title" "Olha", .tag "author".toList [] [.leaf "email" "a@b"]]) := by
  refine (entrySetFromIks_decides_iff _ _ _ _ (by simp [xmlNodes, XmlNode.name]) ?_).mpr
    ⟨by simp, ?_, ?_⟩
  · simp [xmlNodes, XmlNode.children, XmlNode.name, XmlNode.leaf]
  · exact fun h => absurd h.id (by decide)
  · exact Or.inr (Or.inr (Or.inr (Or.inr (Or.inr rfl))))

/-- An entry with a valid id and a title is refused. -/
theorem entrySetFromIks_refuses_valid :
    ¬ Decides xmlNodes epochLib (entryNew none 0) .unset (.tag "entry".toList []
      [.leaf "id" "urn:x", .leaf "title" "Olha"]) := by
  rintro ⟨value, s, hparse, hiff⟩
  obtain ⟨rfl, -⟩ := Prod.mk.inj (Option.some.inj hparse)
  refine absurd (hiff.mpr ⟨by decide, by decide, by decide, ?_, ?_, ?_, ?_⟩) (by decide)
  · intro content hcontent
    exact absurd hcontent (by simp [xmlNodes, XmlNode.children, XmlNode.name, XmlNode.leaf])
  all_goals
    simp [xmlNodes, XmlNode.children, XmlNode.name, XmlNode.leaf]

end Taningia
