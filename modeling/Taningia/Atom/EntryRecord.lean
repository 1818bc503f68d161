import Taningia.Atom.EntryDecision

set_option relaxedAutoImplicit false
set_option autoImplicit false

/-!
# The error record behind the entry parser

The callers of `ta_atom_entry_set_from_iks` can look at its return value or at the error record of
the thread. Behind a call that is no fault there is always an error recorded, or the record was
cleared; which of the two is independent of the value: an in-reply-to element with a valid IRI
clears the record, and the parser then stops, or goes on.

## Main definitions

* `Taningia.ReplyClears`, `Taningia.ClearsRecord` — where the record is cleared.

## Main results

* `Taningia.readChildren_ok`, `Taningia.readChildren_stopped` — what the loop over the children
  tells.
* `Taningia.entrySetFromIks_record` — the value and the record of a call.
* `Taningia.entrySetFromIks_earlier` — earlier errors make no difference to an entry.
-/

namespace Taningia

open Machine

variable {N : Type}

/-- An in-reply-to element with a ref, and with an IRI that is accepted. -/
structure ReplyClears (x : Iksemel N) (child : N) : Prop where
  name : x.name child = some "in-reply-to".toList
  ref : x.findAttrib child "ref".toList ≠ none
  accepted : Accepted (x.findAttrib child "ref".toList) ∨
    Accepted (x.findAttrib child "href".toList) ∨ Accepted (x.findAttrib child "source".toList)

/-- The loop over the children comes to such an element. -/
def ChildrenClear (x : Iksemel N) (children : List N) : Prop :=
  ∃ l₁ child l₂, children = l₁ ++ child :: l₂ ∧ childrenFate x true l₁ = .goesOn true ∧
    ReplyClears x child

/-- **Where the record is cleared**: nothing in front of the children stops the parser, and the loop
comes to an in-reply-to element that clears it. -/
structure ClearsRecord (x : Iksemel N) (ik : N) : Prop where
  root : x.name ik = some "entry".toList ∧ x.hasChildren ik = true
  required : ¬ RequiredStops x ik
  content : ¬ ContentStops x ik
  children : ChildrenClear x (x.children ik)

/-- The record was cleared or has an error, and was cleared under the given condition. -/
structure ErrState.ClearedIff (err : ErrState) (P : Prop) : Prop where
  cleared : err = .cleared ↔ P
  set : err ≠ .unset

/-- An error shown, where nothing clears the record. -/
lemma ErrState.clearedIff_shown {err : ErrState} {error : ErrorT} (h : err = .shown error)
    {P : Prop} (hP : ¬ P) : err.ClearedIff P :=
  ⟨by simp [h, hP], by simp [h]⟩

/-- A cleared record, where something clears it. -/
lemma ErrState.clearedIff_cleared {err : ErrState} (h : err = .cleared) {P : Prop} (hP : P) :
    err.ClearedIff P :=
  ⟨by simp [h, hP], by simp [h]⟩

/-- A record that tells whether an error is left tells whether it was cleared. -/
lemma ErrState.Tells.clearedIff {err : ErrState} {recorded : Bool} (h : err.Tells recorded)
    {P : Prop} (hP : recorded = false ↔ P) : err.ClearedIff P := by
  cases h with
  | shown error => exact ErrState.clearedIff_shown rfl (by simpa using hP)
  | cleared => exact ErrState.clearedIff_cleared rfl (hP.mp rfl)

/-! ## Parts that stop with an error -/

/-- The part of a call was a fault, or returned `0` with an error recorded. -/
def Shown (r : Option (ℤ × EntryParse N)) : Prop :=
  ∀ value s, r = some (value, s) → value = 0 ∧ ∃ error, s.err = .shown error

/-- When the part of a call stops, it returns `0` and has an error recorded. -/
abbrev StopsShown {S : Type} (flow : Flow N S) : Prop := StopsWith Shown flow

/-- A fault is no stop. -/
lemma stopsShown_fault {S : Type} : StopsShown (fault : Flow N S) := by
  refine stopsWith_error ?_
  intro value s h
  cases h

/-- A parsing error stops with an error shown. -/
lemma stopsShown_parsingError {S : Type} (s : EntryParse N) (message : String) :
    StopsShown (parsingError s message : Flow N S) := by
  by_cases hs : s.err = .cleared
  · rw [parsingError_cleared hs]
    exact stopsShown_fault
  · rw [parsingError_eq hs]
    refine stopsWith_error ?_
    intro value s' h
    cases h
    exact ⟨rfl, _, rfl⟩

/-- A comparison of names never stops the parser. -/
lemma stopsShown_nameIs (x : Iksemel N) (n : N) (name : String) :
    StopsShown (nameIs x n name : Flow N Bool) := by
  unfold nameIs
  cases x.name n with
  | some s => exact stopsWith_ok _
  | none => exact stopsShown_fault

/-- Reading an IRI does not stop the parser by itself. -/
lemma stopsShown_readIri (text : Str) (s : EntryParse N) : StopsShown (readIri iriNew text s) := by
  cases haccepts : iriAccepts text with
  | true =>
    obtain ⟨call, hcall, -⟩ := readIri_accepts haccepts iriNew s
    rw [hcall]
    exact stopsWith_ok _
  | false =>
    by_cases hs : s.err = .cleared
    · rw [readIri_rejects_cleared (s := s) haccepts iriNew hs]
      exact stopsShown_fault
    · obtain ⟨call, s', error, hcall, -, -⟩ := EntryParse.readIri_rejects haccepts hs
      rw [hcall]
      exact stopsWith_ok _

/-- The root stops with an error shown. -/
lemma stopsShown_readRoot (x : Iksemel N) (ik : N) (s : EntryParse N) :
    StopsShown (readRoot x ik s) := by
  refine (stopsShown_nameIs x ik _).bind fun named => ?_
  split
  · exact stopsShown_parsingError _ _
  · exact stopsWith_ok _

/-- The required fields stop with an error shown. -/
lemma stopsShown_readRequired (x : Iksemel N) (ik : N) (s : EntryParse N) :
    StopsShown (readRequired x ik s) := by
  unfold readRequired
  split
  · exact stopsShown_parsingError _ _
  · refine (stopsShown_readIri _ _).bind fun call => ?_
    dsimp only
    split
    · exact stopsShown_parsingError _ _
    · split
      · exact stopsShown_parsingError _ _
      · exact stopsWith_ok _

/-- A setter of the content never stops the parser. -/
lemma stopsShown_ofSetter (content : Option Content) :
    StopsShown (ofSetter content : Flow N Content) := by
  cases content with
  | some content => exact stopsWith_ok _
  | none => exact stopsShown_fault

/-- The text of the content never stops the parser. -/
lemma stopsShown_readText (x : Iksemel N) (content : N) (scontent : Option Str) (ct : Content) :
    StopsShown (readText x content scontent ct) := by
  cases scontent with
  | some scontent => exact stopsShown_ofSetter _
  | none => exact stopsWith_ok _

/-- The source of the content stops with an error shown. -/
lemma stopsShown_readSrc (src : Option Str) (s : EntryParse N) (ct : Content) :
    StopsShown (readSrc src s ct) := by
  cases src with
  | none => exact stopsWith_ok _
  | some src =>
    refine (stopsShown_readIri _ _).bind fun call => ?_
    dsimp only
    split
    · exact stopsShown_parsingError _ _
    · exact (stopsShown_ofSetter _).bind fun ct => stopsWith_ok _

/-- The content stops with an error shown. -/
lemma stopsShown_readContent (x : Iksemel N) (ik : N) (s : EntryParse N) :
    StopsShown (readContent x ik s) := by
  unfold readContent
  split
  · exact stopsWith_ok _
  · dsimp only
    split
    · exact stopsShown_parsingError _ _
    · split
      · exact stopsWith_ok _
      · refine (stopsShown_readText _ _ _ _).bind fun ct => ?_
        refine (stopsShown_readSrc _ _ _).bind fun r => ?_
        exact (stopsShown_readText _ _ _ _).bind fun ct => stopsWith_ok _

/-- A part of an entry stops with an error shown. -/
lemma stopsShown_readPart (required : Option Str) (missing : String) (iri : Option Str)
    (invalid : String) (add : Str → Option Iri → Entry → Entry) (s : EntryParse N) :
    StopsShown (readPart required missing iri invalid add s) := by
  unfold readPart
  split
  · exact stopsShown_parsingError _ _
  · split
    · exact stopsWith_ok _
    · refine (stopsShown_readIri _ _).bind fun call => ?_
      dsimp only
      split
      · exact stopsShown_parsingError _ _
      · exact stopsWith_ok _

/-! ## One child -/

/-- A child that is no in-reply-to element does not clear the record. -/
lemma ReplyClears.name_ne {x : Iksemel N} {child : N} (h : ReplyClears x child) (name : String)
    (hname : name ≠ "in-reply-to") : x.name child ≠ some name.toList := by
  intro heq
  rw [h.name, Option.some.injEq] at heq
  exact hname (String.toList_injective heq.symm)

/-- A child that goes on clears the record exactly when it is such an element.

**Proof sketch.** One case per name. A person or a category that goes on keeps the error, and no
such element clears the record; an in-reply-to element goes on without the error exactly when
one of its IRIs was accepted and dropped it. -/
lemma childFate_goesOn {x : Iksemel N} {child : N} {recorded : Bool}
    (h : childFate x true child = .goesOn recorded) :
    recorded = false ↔ ReplyClears x child := by
  unfold childFate at h
  split_ifs at h with hauthor hcategory hreply
  · have hclears : ¬ ReplyClears x child := fun hc => hc.name_ne _ (by decide) hauthor
    rw [partFate_true] at h
    split_ifs at h
    cases h
    simpa using hclears
  · have hclears : ¬ ReplyClears x child := fun hc => hc.name_ne _ (by decide) hcategory
    rw [partFate_true] at h
    split_ifs at h
    cases h
    simpa using hclears
  · unfold replyFate at h
    split_ifs at h with hnot hstop hhref hrest hsource hrest
    all_goals
      rw [not_or] at hstop
      cases h
    · simpa using ⟨hreply, hstop.1, Or.inr (Or.inl hhref)⟩
    · simpa using ⟨hreply, hstop.1, Or.inr (Or.inr hsource)⟩
    · refine ⟨nofun, fun hc => ?_⟩
      rcases hc.accepted with hc | hc | hc
      · exact absurd hc hstop.2
      · exact absurd hc hhref
      · exact absurd hc hsource
  · have hclears : ¬ ReplyClears x child := fun hc => hreply hc.name
    cases h
    simpa using hclears

/-- Behind a cleared record a child changes nothing, or is a fault. -/
lemma childFate_cleared (x : Iksemel N) (child : N) :
    childFate x false child = .goesOn false ∨ childFate x false child = .faults := by
  unfold childFate partFate replyFate
  simp only [Bool.false_eq_true, if_false, Bool.not_false, if_true]
  split_ifs <;> simp

/-- An in-reply-to element stops with an error when it has no ref, and otherwise with the record
cleared, as its ref is accepted then.

**Proof sketch.** Without a ref the element stops with an error, and it clears nothing. A ref
that is accepted clears the record on the way; one that is rejected is no stop, nor is anything
behind it. -/
lemma readInReplyTo_stopped {x : Iksemel N} {child : N} {s s' : EntryParse N} {error : ErrorT}
    {value : ℤ} (hname : x.name child = some "in-reply-to".toList) (hs : s.err = .shown error)
    (h : readInReplyTo x child s = .error (some (value, s'))) :
    value = 0 ∧ s'.err.ClearedIff (ReplyClears x child) := by
  have hne : s.err ≠ .cleared := by simp [hs]
  unfold readInReplyTo at h
  cases href : x.findAttrib child "ref".toList with
  | none =>
    rw [href] at h
    simp only [parsingError_eq (s := s) hne] at h
    cases h
    exact ⟨rfl, ErrState.clearedIff_shown rfl fun hc => hc.ref href⟩
  | some ref =>
    rw [href] at h
    cases haccepts : iriAccepts ref with
    | true =>
      obtain ⟨call, hcall, hnot⟩ := readIri_accepts haccepts iriNew s
      simp only [hcall, hnot, bind, Except.bind, if_true, reportLast_shown hs] at h
      cases h
      refine ⟨rfl, ErrState.clearedIff_cleared rfl ⟨hname, by rw [href]; nofun, Or.inl ?_⟩⟩
      rw [href]
      exact (accepted_some ref).mpr haccepts
    | false =>
      obtain ⟨call, s₁, error₁, hcall, hnot, hs₁⟩ := EntryParse.readIri_rejects haccepts hne
      simp only [hcall, hnot, bind, Except.bind, Bool.false_eq_true, if_false] at h
      have hfate := replyRest_fate (x.findAttrib child "href".toList)
        (x.findAttrib child "source".toList) (x.findAttrib child "type".toList) hs₁
        (inReplyToNew call.iri)
      -- what comes behind a rejected ref goes on or is a fault
      split_ifs at hfate
      · obtain ⟨s₂, hs₂, -⟩ := hfate
        cases hs₂.symm.trans h
      · cases Eq.trans (Eq.symm hfate) h
      · obtain ⟨s₂, hs₂, -⟩ := hfate
        cases hs₂.symm.trans h
      · cases Eq.trans (Eq.symm hfate) h
      · obtain ⟨s₂, hs₂, -⟩ := hfate
        cases hs₂.symm.trans h

/-- A child without a name is a fault. -/
lemma readChild_unnamed {x : Iksemel N} {child : N} (h : x.name child = none) (s : EntryParse N) :
    readChild x s child = fault := by
  unfold readChild nameIs
  rw [h]
  rfl

/-- **A child that goes on** behind an error.

**Proof sketch.** The child has a name, or the comparison of names would be a fault.
`readChild_fate` then says what the loop body comes to, and of the three fates only the first
returns. -/
lemma readChild_ok {x : Iksemel N} {child : N} {s s' : EntryParse N} {recorded : Bool}
    (hs : s.err.Tells recorded) (h : readChild x s child = .ok s') :
    ∃ recorded', childFate x recorded child = .goesOn recorded' ∧ s'.err.Tells recorded' := by
  have hname : x.name child ≠ none := by
    intro hnone
    rw [readChild_unnamed hnone] at h
    cases h
  have hfate := readChild_fate hname hs
  cases hcase : childFate x recorded child with
  | goesOn recorded' =>
    rw [hcase] at hfate
    obtain ⟨s₁, hs₁, htells⟩ := hfate
    obtain rfl := Except.ok.inj (hs₁.symm.trans h)
    exact ⟨recorded', rfl, htells⟩
  | stops =>
    rw [hcase] at hfate
    obtain ⟨s₁, hs₁⟩ := hfate
    cases hs₁.symm.trans h
  | faults =>
    rw [hcase] at hfate
    cases Eq.trans (Eq.symm hfate) h

/-- **A child that stops** the parser, behind an error: it sets another one, or clears the record.

**Proof sketch.** The fate is `stops`, since the other two give no such result. What the record
is depends on the name: a person or a category stops with an error shown, and an in-reply-to
element is `readInReplyTo_stopped`. -/
lemma readChild_stopped {x : Iksemel N} {child : N} {s s' : EntryParse N} {value : ℤ}
    {error : ErrorT} (hs : s.err = .shown error)
    (h : readChild x s child = .error (some (value, s'))) :
    childFate x true child = .stops ∧ value = 0 ∧ s'.err.ClearedIff (ReplyClears x child) := by
  have hchild : x.name child ≠ none := by
    intro hnone
    rw [readChild_unnamed hnone] at h
    cases h
  constructor
  · have hfate := readChild_fate hchild (ErrState.tells_shown hs)
    cases hcase : childFate x true child with
    | goesOn recorded =>
      rw [hcase] at hfate
      obtain ⟨s₁, hs₁, -⟩ := hfate
      cases hs₁.symm.trans h
    | stops => rfl
    | faults =>
      rw [hcase] at hfate
      cases Eq.trans (Eq.symm hfate) h
  · obtain ⟨name, hname⟩ := Option.ne_none_iff_exists'.mp hchild
    rw [readChild_eq hname] at h
    split_ifs at h with hauthor hcategory hreply
    · unfold readAuthor at h
      obtain ⟨rfl, error', hs'⟩ := stopsShown_readPart _ _ _ _ _ _ _ h _ _ rfl
      exact ⟨rfl, ErrState.clearedIff_shown hs' fun hc =>
        hc.name_ne "author" (by decide) (hname.trans (congrArg some hauthor))⟩
    · unfold readCategory at h
      obtain ⟨rfl, error', hs'⟩ := stopsShown_readPart _ _ _ _ _ _ _ h _ _ rfl
      exact ⟨rfl, ErrState.clearedIff_shown hs' fun hc =>
        hc.name_ne "category" (by decide) (hname.trans (congrArg some hcategory))⟩
    · exact readInReplyTo_stopped (hname.trans (congrArg some hreply)) hs h

/-! ## All children -/

/-- Behind a cleared record no child stops the parser.

**Proof sketch.** Behind a cleared record a child goes on or is a fault (`childFate_cleared`);
neither is a stop. -/
lemma readChild_cleared {x : Iksemel N} {child : N} {s s' : EntryParse N} (hs : s.err = .cleared)
    {value : ℤ} : readChild x s child ≠ .error (some (value, s')) := by
  intro h
  have hchild : x.name child ≠ none := by
    intro hnone
    rw [readChild_unnamed hnone] at h
    cases h
  have hfate := readChild_fate hchild (hs ▸ ErrState.Tells.cleared)
  rcases childFate_cleared x child with hcase | hcase
  · rw [hcase] at hfate
    obtain ⟨s₁, hs₁, -⟩ := hfate
    cases hs₁.symm.trans h
  · rw [hcase] at hfate
    cases Eq.trans (Eq.symm hfate) h

/-- Behind a cleared record the loop does not stop either.

**Proof sketch.** Induction on the children. The first does not stop by `readChild_cleared`, and
leaves the record cleared. -/
lemma readChildren_cleared {x : Iksemel N} {children : List N} {s s' : EntryParse N}
    (hs : s.err = .cleared) {value : ℤ} :
    children.foldlM (readChild x) s ≠ .error (some (value, s')) := by
  induction children generalizing s with
  | nil => nofun
  | cons child children ih =>
    intro h
    rw [List.foldlM_cons] at h
    rcases bind_eq_error_iff.mp h with hstop | ⟨s₁, hchild, hrest⟩
    · exact readChild_cleared hs hstop
    · obtain ⟨recorded, hfate, hs₁⟩ := readChild_ok (hs ▸ ErrState.Tells.cleared) hchild
      rcases childFate_cleared x child with hcase | hcase
      · rw [hcase] at hfate
        cases hfate
        exact ih hs₁.eq_cleared hrest
      · rw [hcase] at hfate
        cases hfate

/-- **The loop goes on** to its end. -/
lemma readChildren_ok {x : Iksemel N} {children : List N} {s s' : EntryParse N} {recorded : Bool}
    (hs : s.err.Tells recorded) (h : children.foldlM (readChild x) s = .ok s') :
    ∃ recorded', childrenFate x recorded children = .goesOn recorded' ∧ s'.err.Tells recorded' := by
  induction children generalizing s recorded with
  | nil =>
    cases h
    exact ⟨recorded, rfl, hs⟩
  | cons child children ih =>
    rw [List.foldlM_cons] at h
    obtain ⟨s₁, hchild, hrest⟩ := bind_eq_ok_iff.mp h
    obtain ⟨recorded₁, hfate, hs₁⟩ := readChild_ok hs hchild
    obtain ⟨recorded', hfate', hs'⟩ := ih hs₁ hrest
    exact ⟨recorded', by rw [childrenFate, hfate]; exact hfate', hs'⟩

/-- No children clear nothing. -/
lemma not_childrenClear_nil (x : Iksemel N) : ¬ ChildrenClear x [] := by
  rintro ⟨l₁, child, l₂, heq, -⟩
  simp at heq

/-- Behind a child that goes on with the error the question is the same.

**Proof sketch.** The child itself clears nothing, as it goes on with the error; so an element
that does is among the others, and the children in front of it go on with or without this one. -/
lemma childrenClear_cons {x : Iksemel N} {child : N} (children : List N)
    (h : childFate x true child = .goesOn true) :
    ChildrenClear x (child :: children) ↔ ChildrenClear x children := by
  have hclears : ¬ ReplyClears x child := fun hc => by simpa using (childFate_goesOn h).mpr hc
  constructor
  · rintro ⟨l₁, c, l₂, heq, hfate, hc⟩
    cases l₁ with
    | nil =>
      obtain ⟨rfl, -⟩ := List.cons.inj heq
      exact absurd hc hclears
    | cons a l₁ =>
      obtain ⟨rfl, rfl⟩ := List.cons.inj heq
      rw [childrenFate, h] at hfate
      exact ⟨l₁, c, l₂, rfl, hfate, hc⟩
  · rintro ⟨l₁, c, l₂, rfl, hfate, hc⟩
    exact ⟨child :: l₁, c, l₂, rfl, by rw [childrenFate, h]; exact hfate, hc⟩

/-- At a child that does not go on with the error the question is answered.

**Proof sketch.** An element behind this child would be reached with the error still there,
which the child does not leave; so the element can only be the child. -/
lemma childrenClear_head {x : Iksemel N} {child : N} (children : List N)
    (h : childFate x true child ≠ .goesOn true) :
    ChildrenClear x (child :: children) ↔ ReplyClears x child := by
  constructor
  · rintro ⟨l₁, c, l₂, heq, hfate, hc⟩
    cases l₁ with
    | nil =>
      obtain ⟨rfl, -⟩ := List.cons.inj heq
      exact hc
    | cons a l₁ =>
      obtain ⟨rfl, rfl⟩ := List.cons.inj heq
      rw [childrenFate] at hfate
      cases hcase : childFate x true child with
      | goesOn recorded =>
        cases recorded with
        | true => exact absurd hcase h
        | false => exact (childFate_goesOn hcase).mp rfl
      | stops =>
        rw [hcase] at hfate
        cases hfate
      | faults =>
        rw [hcase] at hfate
        cases hfate
  · exact fun hc => ⟨[], child, children, rfl, rfl, hc⟩

/-- Behind a cleared record no loop leaves an error. -/
lemma childrenFate_cleared (x : Iksemel N) (children : List N) :
    childrenFate x false children ≠ .goesOn true := by
  induction children with
  | nil => simp [childrenFate]
  | cons child children ih =>
    rw [childrenFate]
    rcases childFate_cleared x child with hcase | hcase
    · rw [hcase]
      exact ih
    · rw [hcase]
      intro h
      cases h

/-- Behind an error, the loop that goes on to its end clears the record exactly when it comes to an
element that does.

**Proof sketch.** Induction on the children. A child that keeps the error hands the question on
(`childrenClear_cons`); one that clears the record answers it (`childrenClear_head`), and behind
it no error is left. -/
lemma childrenFate_goesOn {x : Iksemel N} {children : List N} {recorded : Bool}
    (h : childrenFate x true children = .goesOn recorded) :
    recorded = false ↔ ChildrenClear x children := by
  induction children with
  | nil =>
    cases h
    simpa using not_childrenClear_nil x
  | cons child children ih =>
    rw [childrenFate] at h
    cases hcase : childFate x true child with
    | goesOn recorded₁ =>
      rw [hcase] at h
      cases recorded₁ with
      | true => rw [childrenClear_cons children hcase, ih h]
      | false =>
        have hclears := (childFate_goesOn hcase).mp rfl
        rw [childrenClear_head children (by simp [hcase])]
        cases recorded with
        | true => exact absurd h (childrenFate_cleared x children)
        | false => exact iff_of_true rfl hclears
    | stops =>
      rw [hcase] at h
      cases h
    | faults =>
      rw [hcase] at h
      cases h

/-- **The loop stops** behind an error.

**Proof sketch.** Induction on the children. The first child stops, and the answer is its own
(`childrenClear_head`); or it keeps the error and the induction hypothesis takes the rest; or it
clears the record, behind which no child stops. -/
lemma readChildren_stopped {x : Iksemel N} {children : List N} {s s' : EntryParse N}
    {error : ErrorT} {value : ℤ} (hs : s.err = .shown error)
    (h : children.foldlM (readChild x) s = .error (some (value, s'))) :
    childrenFate x true children = .stops ∧ value = 0 ∧
      s'.err.ClearedIff (ChildrenClear x children) := by
  induction children generalizing s error with
  | nil => cases h
  | cons child children ih =>
    rw [List.foldlM_cons] at h
    rcases bind_eq_error_iff.mp h with hstop | ⟨s₁, hchild, hrest⟩
    · obtain ⟨hfate, rfl, hcleared⟩ := readChild_stopped hs hstop
      refine ⟨by rw [childrenFate, hfate], rfl, ?_⟩
      rwa [childrenClear_head children (by simp [hfate])]
    · obtain ⟨recorded, hfate, hs₁⟩ := readChild_ok (ErrState.tells_shown hs) hchild
      cases recorded with
      | true =>
        obtain ⟨error₁, hs₁⟩ := hs₁.eq_shown
        obtain ⟨hfate', rfl, hcleared⟩ := ih hs₁ hrest
        refine ⟨by rw [childrenFate, hfate]; exact hfate', rfl, ?_⟩
        rwa [childrenClear_cons children hfate]
      | false =>
        exact absurd hrest (readChildren_cleared hs₁.eq_cleared)

/-! ## The whole call -/

/-- Behind an element that is no entry with content the parser does not go on. -/
lemma root_of_readRoot {x : Iksemel N} {ik : N} {s : EntryParse N} (hs : s.err ≠ .cleared)
    {u : Unit} (h : readRoot x ik s = .ok u) :
    x.name ik = some "entry".toList ∧ x.hasChildren ik = true := by
  by_contra hroot
  cases hname : x.name ik with
  | none =>
    unfold readRoot nameIs at h
    rw [hname] at h
    cases h
  | some name =>
    obtain ⟨s₁, hs₁⟩ := readRoot_wrong (by simp [hname]) hroot hs
    cases hs₁.symm.trans h

/-- What a call without a fault read, behind an error: it stopped at the root, at a required field
or at the content; it stopped at a child; or it went on to the end.

**Proof sketch.** The parts are taken in order: the root, the required fields, the content, the
loop. A part in front of the loop that stops leaves an error shown and makes `StopsWithError`
true; when none does, the loop decides with `readChildren_stopped` and `childrenFate_goesOn`. -/
lemma readEntry_cases {x : Iksemel N} {lib : TimeLib} {ik : N} {s : EntryParse N}
    (hs : s.err ≠ .cleared) :
    (∀ value s', readEntry x lib ik s = .error (some (value, s')) →
      value = 0 ∧ StopsWithError x ik ∧ s'.err.ClearedIff (ClearsRecord x ik)) ∧
    ∀ s', readEntry x lib ik s = .ok s' →
      ¬ StopsWithError x ik ∧ s'.err.ClearedIff (ClearsRecord x ik) := by
  have hfirst : ∀ {value s'}, (value = 0 ∧ ∃ error, s'.err = ErrState.shown error) →
      StopsWithError x ik → ¬ ClearsRecord x ik →
      value = (0 : ℤ) ∧ StopsWithError x ik ∧
        (s' : EntryParse N).err.ClearedIff (ClearsRecord x ik) := by
    rintro value s' ⟨rfl, error, hshown⟩ hstops hclears
    exact ⟨rfl, hstops, ErrState.clearedIff_shown hshown hclears⟩
  -- the parts in front of the children
  by_cases hroot : x.name ik = some "entry".toList ∧ x.hasChildren ik = true
  swap
  · have hclears : ¬ ClearsRecord x ik := fun hc => hroot hc.root
    constructor
    · intro value s' h
      rcases bind_eq_error_iff.mp h with h | ⟨u, h, -⟩
      · exact hfirst (stopsShown_readRoot x ik s _ h _ _ rfl) (Or.inl hroot) hclears
      · exact absurd (root_of_readRoot hs h) hroot
    · intro s' h
      obtain ⟨u, h, -⟩ := bind_eq_ok_iff.mp h
      exact absurd (root_of_readRoot hs h) hroot
  have hread : readEntry x lib ik s = (readRequired x ik s).bind fun s =>
      (readContent x ik { s with entry := readOptional x lib ik s.entry }).bind fun s =>
        (x.children ik).foldlM (readChild x) s := by
    unfold readEntry
    rw [readRoot_right hroot]
    rfl
  rw [hread]
  by_cases hrequired : RequiredStops x ik
  · have hclears : ¬ ClearsRecord x ik := fun hc => hc.required hrequired
    have hstops : StopsWithError x ik := by
      rcases hrequired with h | h | h
      · exact Or.inr (Or.inl h)
      · exact Or.inr (Or.inr (Or.inl h))
      · exact Or.inr (Or.inr (Or.inr (Or.inl h)))
    obtain ⟨s₁, hs₁⟩ := readRequired_stops hrequired hs
    rw [hs₁]
    constructor
    · intro value s' h
      exact hfirst (stopsShown_readRequired x ik s _ (hs₁.trans h) _ _ rfl) hstops hclears
    · intro s' h
      cases h
  obtain ⟨s₁, error₁, hs₁, herr₁⟩ := readRequired_goesOn hrequired hs
  rw [hs₁]
  by_cases hcontent : ContentStops x ik
  · have hclears : ¬ ClearsRecord x ik := fun hc => hc.content hcontent
    obtain ⟨s₂, hs₂⟩ := readContent_stops hcontent
      (s := { s₁ with entry := readOptional x lib ik s₁.entry }) (by simp [herr₁])
    simp only [Except.bind, hs₂]
    constructor
    · intro value s' h
      exact hfirst (stopsShown_readContent x ik _ _ (hs₂.trans h) _ _ rfl)
        (Or.inr (Or.inr (Or.inr (Or.inr (Or.inl hcontent))))) hclears
    · intro s' h
      cases h
  obtain ⟨s₂, error₂, hs₂, herr₂⟩ := readContent_goesOn hcontent
    (s := { s₁ with entry := readOptional x lib ik s₁.entry }) herr₁
  simp only [Except.bind, hs₂]
  have hclears : ClearsRecord x ik ↔ ChildrenClear x (x.children ik) :=
    ⟨fun hc => hc.children, fun hc => ⟨hroot, hrequired, hcontent, hc⟩⟩
  rw [hclears]
  constructor
  · intro value s' h
    obtain ⟨hfate, rfl, hcleared⟩ := readChildren_stopped herr₂ h
    exact ⟨rfl, Or.inr (Or.inr (Or.inr (Or.inr (Or.inr hfate)))), hcleared⟩
  · intro s' h
    obtain ⟨recorded, hfate, htells⟩ := readChildren_ok (ErrState.tells_shown herr₂) h
    refine ⟨?_, htells.clearedIff (childrenFate_goesOn hfate)⟩
    rintro (h | h | h | h | h | h)
    · exact h hroot
    · exact hrequired (Or.inl h)
    · exact hrequired (Or.inr (Or.inl h))
    · exact hrequired (Or.inr (Or.inr h))
    · exact hcontent h
    · rw [hfate] at h
      cases h

/-- **The value and the record of a call** that is no fault.

**Proof sketch.** `readEntry_cases` at the state in which the call starts: a stop is the value
`0`, the end of the loop the value `1`. -/
lemma entrySetFromIks_record {x : Iksemel N} {lib : TimeLib} {entry : Entry} {err : ErrState}
    {ik : N} {value : ℤ} {s : EntryParse N} (herr : err ≠ .cleared)
    (h : entrySetFromIks x lib entry err ik = some (value, s)) :
    (value = 0 ∧ StopsWithError x ik ∨ value = 1 ∧ ¬ StopsWithError x ik) ∧
      s.err.ClearedIff (ClearsRecord x ik) := by
  have hstart : (⟨entry, err, []⟩ : EntryParse N).err ≠ .cleared := herr
  obtain ⟨hstopped, hok⟩ := readEntry_cases hstart
  unfold entrySetFromIks at h
  split at h
  · next s' hread =>
    cases h
    exact ⟨Or.inr ⟨rfl, (hok _ hread).1⟩, (hok _ hread).2⟩
  · next r hread =>
    subst h
    obtain ⟨hvalue, hstops, hcleared⟩ := hstopped _ _ hread
    exact ⟨Or.inl ⟨hvalue, hstops⟩, hcleared⟩

/-- The required fields leave the same state, whatever was recorded before.

**Proof sketch.** The identifier is rejected, so its parse sets an error of its own, whatever
was recorded before; the state behind it is the same. -/
lemma readRequired_earlier {x : Iksemel N} {ik : N} (h : ¬ RequiredStops x ik) (entry : Entry)
    {err err' : ErrState} (herr : err ≠ .cleared) (herr' : err' ≠ .cleared) (deleted : List N) :
    readRequired x ik ⟨entry, err, deleted⟩ = readRequired x ik ⟨entry, err', deleted⟩ := by
  unfold readRequired
  obtain ⟨id, -, hid, -, haccepts⟩ := exists_of_not_requiredStops h
  have hread : readIri iriNew id (⟨entry, err, deleted⟩ : EntryParse N) =
      readIri iriNew id ⟨entry, err', deleted⟩ := by
    unfold readIri
    simp only [err_entryParse]
    rw [iriSetFromString_rejects_eq haccepts iriNew err.last err'.last]
    obtain ⟨hstatus, error, hrecord⟩ := iriSetFromString_of_rejects haccepts iriNew err'.last
    rw [if_neg (by rw [hstatus]; decide), if_neg (by rw [hstatus]; decide), hrecord]
    dsimp only
    rw [errorCall_set herr, errorCall_set herr']
    rfl
  rw [hid]
  dsimp only
  rw [hread]

/-- **Earlier errors** make no difference to an entry that is read.

**Proof sketch.** The call returned `1`, so nothing stopped it. The required fields forget the
earlier errors (`readRequired_earlier`), and the rest starts from the same state. -/
lemma entrySetFromIks_earlier {x : Iksemel N} {lib : TimeLib} {entry : Entry} {err err' : ErrState}
    {ik : N} {s : EntryParse N} (herr : err ≠ .cleared) (herr' : err' ≠ .cleared)
    (h : entrySetFromIks x lib entry err ik = some (1, s)) :
    entrySetFromIks x lib entry err' ik = some (1, s) := by
  obtain ⟨hvalue | ⟨-, hstops⟩, -⟩ := entrySetFromIks_record herr h
  · cases hvalue.1
  have hroot : x.name ik = some "entry".toList ∧ x.hasChildren ik = true :=
    not_not.mp fun hc => hstops (Or.inl hc)
  have hrequired : ¬ RequiredStops x ik := by
    rintro (hc | hc | hc)
    · exact hstops (Or.inr (Or.inl hc))
    · exact hstops (Or.inr (Or.inr (Or.inl hc)))
    · exact hstops (Or.inr (Or.inr (Or.inr (Or.inl hc))))
  have hread : readEntry x lib ik ⟨entry, err', []⟩ = readEntry x lib ik ⟨entry, err, []⟩ := by
    unfold readEntry
    rw [readRoot_right hroot, readRoot_right hroot, readRequired_earlier hrequired entry herr' herr]
  rw [← h]
  unfold entrySetFromIks
  rw [hread]

end Taningia
