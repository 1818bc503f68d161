import Taningia.Atom.EntryRecord

set_option relaxedAutoImplicit false
set_option autoImplicit false

/-!
# What a call of the entry parser leaves

`ta_atom_entry_set_from_iks` fills the entry as it reads, and returns at the first thing it takes
for an error. What the call leaves is a function of the element and of the entry before it, unless
the error record was cleared: the value, the fields of the entry, and the nodes deleted.

## Main definitions

* `Taningia.readFields`, `Taningia.addContent`, `Taningia.addChild` — what the parts of an entry
  set.
* `Taningia.sweep` — the children that the loop is through with, and what it comes to.
* `Taningia.MeetsFault`, `Taningia.MeetsStop` — the child at which a loop is a fault, or stops.
* `Taningia.entryFate`, `Taningia.entryLeft` — what the call comes to, and the entry behind it.

## Main results

* `Taningia.sweep_faults_iff`, `Taningia.sweep_stops_iff` — the loop by the first child that does not
  pass.
* `Taningia.childFate_true_iff`, `Taningia.childrenFate_stops_iff`, `Taningia.childrenClear_iff` —
  the same of the children of an entry.
* `Taningia.entryFate_faults_iff` — where a call is a fault.
* `Taningia.readChild_leaves` — what a child leaves of the entry.
* `Taningia.readChildren_leaves` — the loop over the children.
* `Taningia.entrySetFromIks_outcome` — the call.
-/

namespace Taningia

open Machine

variable {N : Type}

/-! ## What the element has -/

/-- What is kept of a rejected text. -/
def parsedIri (text : Str) : Iri := (iriSetFromString iriNew text none).iri

/-- The required fields are set. -/
def setRequired (x : Iksemel N) (ik : N) (entry : Entry) : Entry :=
  { entry with
    id := (x.findCdata ik "id".toList).map parsedIri
    title := x.findCdata ik "title".toList }

/-- The fields in front of the content are set. -/
def readFields (x : Iksemel N) (lib : TimeLib) (ik : N) (entry : Entry) : Entry :=
  readOptional x lib ik (setRequired x ik entry)

/-- The content of the element, when it is one that the parser sets. -/
def contentOf (x : Iksemel N) (ik : N) : Option Content :=
  match x.find ik "content".toList with
  | none => none
  | some content =>
    match x.findAttrib content "src".toList, x.findCdata ik "content".toList with
    | none, some text =>
      let len := x.cdataSize (x.children content).head?
      some { contentNew (x.findAttrib content "type".toList) with
        content := if len ≠ 0 then .text (text.take len) else .null }
    | some src, none =>
      some { contentNew (x.findAttrib content "type".toList) with src := some (parsedIri src) }
    | _, _ => none

/-- The content is set, if there is one. -/
def addContent (x : Iksemel N) (ik : N) (entry : Entry) : Entry :=
  { entry with content := contentOf x ik <|> entry.content }

/-- The person of an author element. -/
def authorOf (x : Iksemel N) (child : N) : Person :=
  personNew ((x.findCdata child "name".toList).getD []) (x.findCdata child "email".toList)
    (some (((x.findCdata child "uri".toList).map parsedIri).getD iriNew))

/-- The category of a category element. -/
def categoryOf (x : Iksemel N) (child : N) : Category :=
  categoryNew ((x.findAttrib child "term".toList).getD []) (x.findAttrib child "label".toList)
    ((x.findAttrib child "scheme".toList).map parsedIri)

/-- What a child adds. -/
def addChild (x : Iksemel N) (entry : Entry) (child : N) : Entry :=
  if x.name child = some "author".toList then
    { entry with authors := entry.authors ++ [authorOf x child] }
  else if x.name child = some "category".toList then
    { entry with categories := entry.categories ++ [categoryOf x child] }
  else entry

/-! ## What the call comes to -/

/-- The children that a loop is through with, and what it comes to. -/
def sweep (fate : Bool → N → ParseFate) : Bool → List N → List N × ParseFate
  | recorded, [] => ([], .goesOn recorded)
  | recorded, child :: children =>
    match fate recorded child with
    | .goesOn recorded =>
      (child :: (sweep fate recorded children).1, (sweep fate recorded children).2)
    | .stops => ([], .stops)
    | .faults => ([], .faults)

/-- A child of the entry; one without a name is a fault. -/
def namedFate (x : Iksemel N) (recorded : Bool) (child : N) : ParseFate :=
  if x.name child = none then .faults else childFate x recorded child

/-- The element is an entry with children. -/
def RightRoot (x : Iksemel N) (root : String) (ik : N) : Prop :=
  x.name ik = some root.toList ∧ x.hasChildren ik = true

instance (x : Iksemel N) (root : String) (ik : N) : Decidable (RightRoot x root ik) :=
  inferInstanceAs (Decidable (_ ∧ _))

instance (x : Iksemel N) (ik : N) : Decidable (RequiredStops x ik) :=
  inferInstanceAs (Decidable (_ ∨ _))

instance (x : Iksemel N) (ik : N) : Decidable (ContentStops x ik) :=
  match h : x.find ik "content".toList with
  | none => isFalse fun hstops => by
    obtain ⟨content, hcontent, -⟩ := hstops
    rw [h] at hcontent
    cases hcontent
  | some content => decidable_of_iff (x.findAttrib content "src".toList ≠ none ∧
      x.findCdata ik "content".toList ≠ none ∨ Accepted (x.findAttrib content "src".toList))
      (by simp only [ContentStops, h, Option.some.injEq, exists_eq_left'])

/-- What a call comes to. -/
def entryFate (x : Iksemel N) (ik : N) : ParseFate :=
  if x.name ik = none then .faults
  else if ¬ RightRoot x "entry" ik ∨ RequiredStops x ik ∨ ContentStops x ik then .stops
  else (sweep (namedFate x) true (x.children ik)).2

/-- The entry behind a call. -/
def entryLeft (x : Iksemel N) (lib : TimeLib) (entry : Entry) (ik : N) : Entry :=
  if ¬ RightRoot x "entry" ik ∨ RequiredStops x ik then entry
  else if ContentStops x ik then readFields x lib ik entry
  else (sweep (namedFate x) true (x.children ik)).1.foldl (addChild x)
    (addContent x ik (readFields x lib ik entry))

/-- The error record behind a call that returned `0`. -/
def ErrState.Refused (err : ErrState) : Prop :=
  err = .cleared ∨ ∃ message, err = .shown ⟨taAtomParsingError, message⟩

/-- The nodes that a call deletes. -/
def entryDeleted (x : Iksemel N) (ik : N) : List N := if RightRoot x "entry" ik then [] else [ik]

/-- A part of a call comes to a fate, and leaves the deleted nodes and the entry: one entry when it
goes on, another when it stops. -/
def ParseFate.Leaves (goes stays : Entry) (deleted : List N) :
    ParseFate → Flow N (EntryParse N) → Prop
  | .goesOn recorded, flow => ∃ err, flow = .ok ⟨goes, err, deleted⟩ ∧ err.Tells recorded
  | .stops, flow => ∃ err, flow = .error (some (0, ⟨stays, err, deleted⟩)) ∧ err.Refused
  | .faults, flow => flow = fault

/-- Behind children that go on the sweep is the one over the rest.

**Proof sketch.** Induction on the children in front: each of them goes on, or the sweep would
not reach its end. -/
lemma sweep_append {fate : Bool → N → ParseFate} {recorded recorded' : Bool} {front : List N}
    (h : (sweep fate recorded front).2 = .goesOn recorded') (rest : List N) :
    sweep fate recorded (front ++ rest) =
      (front ++ (sweep fate recorded' rest).1, (sweep fate recorded' rest).2) := by
  induction front generalizing recorded with
  | nil =>
    cases h
    rfl
  | cons child front ih =>
    rw [sweep] at h
    rw [List.cons_append, sweep]
    cases hfate : fate recorded child with
    | goesOn recorded₁ =>
      rw [hfate] at h
      simp only [ih h, List.cons_append]
    | stops =>
      rw [hfate] at h
      cases h
    | faults =>
      rw [hfate] at h
      cases h

/-- The sweep comes to a child of the kind. -/
def Meets (fate : Bool → N → ParseFate) (kind : Bool → N → Prop) (recorded : Bool)
    (children : List N) : Prop :=
  ∃ front child rest recorded', children = front ++ child :: rest ∧
    (sweep fate recorded front).2 = .goesOn recorded' ∧ kind recorded' child

section Meets

variable {fate : Bool → N → ParseFate} {kind : Bool → N → Prop} {recorded : Bool}

/-- No children meet anything. -/
lemma not_meets_nil : ¬ Meets fate kind recorded [] := by
  rintro ⟨front, child, rest, recorded', heq, -⟩
  simp at heq

/-- What is met among the children is the first, or is met behind it.

**Proof sketch.** The children in front of the one met are none, or start with the first child,
which goes on. -/
lemma meets_cons {child : N} {children : List N} :
    Meets fate kind recorded (child :: children) ↔ kind recorded child ∨
      ∃ recorded', fate recorded child = .goesOn recorded' ∧
        Meets fate kind recorded' children := by
  constructor
  · rintro ⟨front, c, rest, recorded', heq, hwalk, hc⟩
    cases front with
    | nil =>
      obtain ⟨rfl, -⟩ := List.cons.inj heq
      cases hwalk
      exact Or.inl hc
    | cons a front =>
      obtain ⟨rfl, rfl⟩ := List.cons.inj heq
      rw [sweep] at hwalk
      cases hfate : fate recorded child with
      | goesOn recorded₁ =>
        rw [hfate] at hwalk
        exact Or.inr ⟨recorded₁, rfl, front, c, rest, recorded', rfl, hwalk, hc⟩
      | stops =>
        rw [hfate] at hwalk
        cases hwalk
      | faults =>
        rw [hfate] at hwalk
        cases hwalk
  · rintro (hchild | ⟨recorded₁, hfate, front, c, rest, recorded', rfl, hwalk, hc⟩)
    · exact ⟨[], child, children, recorded, rfl, rfl, hchild⟩
    · refine ⟨child :: front, c, rest, recorded', rfl, ?_, hc⟩
      rw [sweep, hfate]
      exact hwalk

/-! ### The loop in closed form

With an error recorded a child may stop the loop, clear the record, or do neither; with the record
cleared it changes nothing or is a fault. -/

/-- With the record cleared a child changes nothing, or is a fault. -/
def StaysCleared (fate : Bool → N → ParseFate) : Prop :=
  ∀ child, fate false child = .goesOn false ∨ fate false child = .faults

/-- A child, the first that neither stops nor passes with the error recorded, is a fault; or it
clears the record, and one behind it is a fault then. -/
def MeetsFault (fate : Bool → N → ParseFate) (children : List N) : Prop :=
  ∃ front child rest, children = front ++ child :: rest ∧
    (∀ c ∈ front, fate true c = .goesOn true) ∧
    (fate true child = .faults ∨
      fate true child = .goesOn false ∧ ∃ c ∈ rest, fate false c = .faults)

/-- The first child that does not pass stops the loop. -/
def MeetsStop (fate : Bool → N → ParseFate) (children : List N) : Prop :=
  ∃ front child rest, children = front ++ child :: rest ∧
    (∀ c ∈ front, fate true c = .goesOn true) ∧ fate true child = .stops

/-- A list of which some first child has a property: it is the first one, or the first one passes
and it is in the rest.

**Proof sketch.** The part in front is empty, or starts with the first member. -/
lemma exists_first_cons {α : Type} {passes : α → Prop} {last : α → List α → Prop} (child : α)
    (children : List α) :
    (∃ front c rest, child :: children = front ++ c :: rest ∧ (∀ d ∈ front, passes d) ∧
        last c rest) ↔
      last child children ∨ passes child ∧ ∃ front c rest, children = front ++ c :: rest ∧
        (∀ d ∈ front, passes d) ∧ last c rest := by
  constructor
  · rintro ⟨front, c, rest, heq, hfront, hlast⟩
    cases front with
    | nil =>
      obtain ⟨rfl, rfl⟩ := List.cons.inj heq
      exact Or.inl hlast
    | cons d front =>
      obtain ⟨rfl, rfl⟩ := List.cons.inj heq
      obtain ⟨hd, hfront⟩ := List.forall_mem_cons.mp hfront
      exact Or.inr ⟨hd, front, c, rest, rfl, hfront, hlast⟩
  · rintro (hlast | ⟨hchild, front, c, rest, rfl, hfront, hlast⟩)
    · exact ⟨[], child, children, rfl, by simp, hlast⟩
    · exact ⟨child :: front, c, rest, rfl, List.forall_mem_cons.mpr ⟨hchild, hfront⟩, hlast⟩

/-- **With the record cleared** the loop goes on to its end, or comes to a fault.

**Proof sketch.** Induction on the children: each leaves the record cleared, or is the fault. -/
lemma sweep_cleared (hfate : StaysCleared fate) (children : List N) :
    (sweep fate false children).2 =
      if ∃ c ∈ children, fate false c = .faults then .faults else .goesOn false := by
  induction children with
  | nil => simp [sweep]
  | cons child children ih =>
    rcases hfate child with hchild | hchild
    · simp only [sweep, hchild, ih, List.mem_cons, exists_eq_or_imp, reduceCtorEq, false_or]
    · simp [sweep, hchild]

/-- **Where the loop is a fault.**

**Proof sketch.** Induction on the children, by what the first one comes to with an error recorded.
One that clears the record leaves the rest to `sweep_cleared`. -/
lemma sweep_faults_iff (hfate : StaysCleared fate) (children : List N) :
    (sweep fate true children).2 = .faults ↔ MeetsFault fate children := by
  unfold MeetsFault
  induction children with
  | nil => simp [sweep]
  | cons child children ih =>
    rw [@exists_first_cons _ _ (fun c rest => fate true c = .faults ∨
      fate true c = .goesOn false ∧ ∃ d ∈ rest, fate false d = .faults), ← ih]
    cases hchild : fate true child with
    | stops => simp [sweep, hchild]
    | faults => simp [sweep, hchild]
    | goesOn recorded =>
      cases recorded with
      | true => simp [sweep, hchild]
      | false =>
        simp only [sweep, hchild, sweep_cleared hfate]
        split_ifs with hrest <;> simp [hrest]

/-- **Where the loop stops**: at the first child that does not pass.

**Proof sketch.** As for a fault; behind a child that clears the record nothing stops. -/
lemma sweep_stops_iff (hfate : StaysCleared fate) (children : List N) :
    (sweep fate true children).2 = .stops ↔ MeetsStop fate children := by
  unfold MeetsStop
  induction children with
  | nil => simp [sweep]
  | cons child children ih =>
    rw [@exists_first_cons _ _ (fun c _ => fate true c = .stops), ← ih]
    cases hchild : fate true child with
    | stops => simp [sweep, hchild]
    | faults => simp [sweep, hchild]
    | goesOn recorded =>
      cases recorded with
      | true => simp [sweep, hchild]
      | false =>
        simp only [sweep, hchild, sweep_cleared hfate]
        split_ifs <;> simp

end Meets

/-- A child of an entry, with the record cleared. -/
lemma staysCleared_namedFate (x : Iksemel N) : StaysCleared (namedFate x) := by
  intro child
  unfold namedFate
  split_ifs
  · exact Or.inr rfl
  · exact childFate_cleared x child

/-- A part of the entry at which the parser stops with an error recorded: an author or a category
without its required text or with an accepted IRI, or an in-reply-to element without a ref or with
an accepted one. -/
def ChildStops (x : Iksemel N) (child : N) : Prop :=
  x.name child = some "author".toList ∧
      (x.findCdata child "name".toList = none ∨ Accepted (x.findCdata child "uri".toList)) ∨
    x.name child = some "category".toList ∧
      (x.findAttrib child "term".toList = none ∨ Accepted (x.findAttrib child "scheme".toList)) ∨
    x.name child = some "in-reply-to".toList ∧
      (x.findAttrib child "ref".toList = none ∨ Accepted (x.findAttrib child "ref".toList))

/-- A child that is passed with an error recorded: it neither stops the parser nor has an
in-reply-to IRI that is accepted. -/
def ChildPasses (x : Iksemel N) (child : N) : Prop :=
  ¬ ChildStops x child ∧ ¬ (x.name child = some "in-reply-to".toList ∧
    (Accepted (x.findAttrib child "href".toList) ∨ Accepted (x.findAttrib child "source".toList)))

/-- **One child** with an error recorded, by what it has.

**Proof sketch.** By its name: authors and categories stop or pass, an in-reply-to element may clear
the record or be a fault besides, and every other child passes. -/
lemma childFate_true_iff (x : Iksemel N) (child : N) :
    (childFate x true child = .stops ↔ ChildStops x child) ∧
      (childFate x true child = .goesOn true ↔ ChildPasses x child) := by
  unfold ChildPasses ChildStops childFate
  by_cases hauthor : x.name child = some "author".toList
  · have hcategory : ¬ "author".toList = "category".toList := by decide
    have hreply : ¬ "author".toList = "in-reply-to".toList := by decide
    rw [if_pos hauthor, partFate_true, hauthor]
    simp only [Option.some.injEq, hcategory, hreply, false_and, or_false, true_and,
      not_false_eq_true, and_true]
    split_ifs with hstops
    · exact ⟨iff_of_true rfl hstops, iff_of_false nofun (not_not.mpr hstops)⟩
    · exact ⟨iff_of_false nofun hstops, iff_of_true rfl hstops⟩
  rw [if_neg hauthor]
  by_cases hcategory : x.name child = some "category".toList
  · have hreply : ¬ "category".toList = "in-reply-to".toList := by decide
    rw [if_pos hcategory, partFate_true]
    rw [hcategory] at hauthor ⊢
    simp only [hauthor, Option.some.injEq, hreply, false_and, or_false, true_and,
      false_or, not_false_eq_true, and_true]
    split_ifs with hstops
    · exact ⟨iff_of_true rfl hstops, iff_of_false nofun (not_not.mpr hstops)⟩
    · exact ⟨iff_of_false nofun hstops, iff_of_true rfl hstops⟩
  rw [if_neg hcategory]
  by_cases hreply : x.name child = some "in-reply-to".toList
  · rw [if_pos hreply]
    rw [hreply] at hauthor hcategory ⊢
    simp only [hauthor, hcategory, false_and, false_or, true_and, replyFate, Bool.not_true,
      Bool.false_eq_true, if_false]
    split_ifs with hstops hhref hrest hsource hrest
    · exact ⟨iff_of_true rfl hstops, iff_of_false nofun fun h => h.1 hstops⟩
    · exact ⟨iff_of_false nofun hstops, iff_of_false nofun fun h => h.2 (Or.inl hhref)⟩
    · exact ⟨iff_of_false nofun hstops, iff_of_false nofun fun h => h.2 (Or.inl hhref)⟩
    · exact ⟨iff_of_false nofun hstops, iff_of_false nofun fun h => h.2 (Or.inr hsource)⟩
    · exact ⟨iff_of_false nofun hstops, iff_of_false nofun fun h => h.2 (Or.inr hsource)⟩
    · exact ⟨iff_of_false nofun hstops, iff_of_true rfl ⟨hstops, not_or.mpr ⟨hhref, hsource⟩⟩⟩
  · rw [if_neg hreply]
    simp only [hauthor, hcategory, hreply, false_and, or_self, not_false_eq_true, and_self,
      reduceCtorEq]

/-- The fate of the children is what the sweep over them comes to. -/
lemma childrenFate_eq_sweep (x : Iksemel N) (recorded : Bool) (children : List N) :
    childrenFate x recorded children = (sweep (childFate x) recorded children).2 := by
  induction children generalizing recorded with
  | nil => rfl
  | cons child children ih =>
    rw [childrenFate, sweep]
    cases childFate x recorded child with
    | goesOn recorded => exact ih recorded
    | stops => rfl
    | faults => rfl

/-- **Where the loop over the children stops**: at the first child that does not pass, if the parser
stops at it. -/
lemma childrenFate_stops_iff (x : Iksemel N) (children : List N) :
    childrenFate x true children = .stops ↔ ∃ front child rest, children = front ++ child :: rest ∧
      (∀ c ∈ front, ChildPasses x c) ∧ ChildStops x child := by
  rw [childrenFate_eq_sweep, sweep_stops_iff (childFate_cleared x), MeetsStop]
  simp only [(childFate_true_iff x _).1, (childFate_true_iff x _).2]

/-- The loop goes on with the error exactly past children that pass.

**Proof sketch.** Induction on the children: behind one that clears the record the loop never has an
error recorded again. -/
lemma childrenFate_passes_iff (x : Iksemel N) (children : List N) :
    childrenFate x true children = .goesOn true ↔ ∀ c ∈ children, ChildPasses x c := by
  induction children with
  | nil => simp [childrenFate]
  | cons child children ih =>
    rw [List.forall_mem_cons, ← ih, ← (childFate_true_iff x child).2, childrenFate]
    cases hchild : childFate x true child with
    | stops => simp
    | faults => simp
    | goesOn recorded =>
      cases recorded with
      | true => simp
      | false => simp [childrenFate_cleared x children]

/-- **Where the record is cleared**, in closed form: at the first child that does not pass, if it
is an in-reply-to element with an accepted IRI. -/
lemma childrenClear_iff (x : Iksemel N) (children : List N) :
    ChildrenClear x children ↔ ∃ front child rest, children = front ++ child :: rest ∧
      (∀ c ∈ front, ChildPasses x c) ∧ ReplyClears x child := by
  unfold ChildrenClear
  simp only [childrenFate_passes_iff]

/-- **A call is a fault** at an element without a name, or when nothing in front of the children of
an entry stops it and its loop comes to a fault.

**Proof sketch.** The fate is that of the first part that decides. Where the loop is reached,
`sweep_faults_iff` says when it comes to a fault. -/
lemma entryFate_faults_iff (x : Iksemel N) (ik : N) :
    entryFate x ik = .faults ↔ x.name ik = none ∨
      RightRoot x "entry" ik ∧ ¬ RequiredStops x ik ∧ ¬ ContentStops x ik ∧
        MeetsFault (namedFate x) (x.children ik) := by
  unfold entryFate
  by_cases hname : x.name ik = none
  · simp [hname]
  · rw [if_neg hname]
    by_cases hstops : ¬ RightRoot x "entry" ik ∨ RequiredStops x ik ∨ ContentStops x ik
    · rw [if_pos hstops]
      simp only [reduceCtorEq, hname, false_or, false_iff]
      tauto
    · rw [if_neg hstops, sweep_faults_iff (staysCleared_namedFate x)]
      simp only [not_or, not_not] at hstops
      simp [hname, hstops]

/-! ## What the parts leave -/

/-- The entry and the deleted nodes. -/
def EntryParse.At (entry : Entry) (deleted : List N) (s : EntryParse N) : Prop :=
  s.entry = entry ∧ s.deleted = deleted

/-- A call that stops with the entry and the deleted nodes. -/
def Refuses (entry : Entry) (deleted : List N) (r : Option (ℤ × EntryParse N)) : Prop :=
  ∀ value s, r = some (value, s) → s.At entry deleted ∧ s.err.Refused

section Parts

variable {S : Type} {R : S → Prop} {entry : Entry} {deleted : List N} {s : EntryParse N}

/-- A fault leads to nothing. -/
lemma leads_fault : Leads R (Refuses entry deleted) (fault : Flow N S) := by
  apply leads_error
  intro value s h
  cases h

/-- A parsing error leaves the entry. -/
lemma leads_parsingError (hs : s.At entry deleted) (message : String) :
    Leads R (Refuses entry deleted) (parsingError s message : Flow N S) := by
  by_cases herr : s.err = .cleared
  · rw [parsingError_cleared herr]
    exact leads_fault
  · rw [parsingError_eq herr]
    apply leads_error
    intro value s' h
    cases h
    exact ⟨hs, Or.inr ⟨_, rfl⟩⟩

/-- A rejected text gives its IRI.

**Proof sketch.** An accepted text has another status. A rejected one has the IRI of its parse,
whatever was recorded, and does not return behind a cleared record. -/
lemma leads_readIri (hs : s.At entry deleted) (text : Str) :
    Leads (fun r => r.2.At entry deleted ∧ (cNot r.1.status = false → r.1.iri = parsedIri text))
      (Refuses entry deleted) (readIri iriNew text s) := by
  cases haccepts : iriAccepts text with
  | true =>
    obtain ⟨call, hcall, hnot⟩ := readIri_accepts haccepts iriNew s
    rw [hcall]
    apply leads_ok
    refine ⟨hs, fun h => ?_⟩
    rw [hnot] at h
    cases h
  | false =>
    by_cases herr : s.err = .cleared
    · rw [readIri_rejects_cleared (s := s) haccepts iriNew herr]
      exact leads_fault
    · obtain ⟨call, error, hcall, -, hiri⟩ := readIri_rejects (s := s) haccepts iriNew herr
      rw [hcall]
      apply leads_ok
      exact ⟨hs, fun _ => hiri⟩

/-- A part of an entry adds what it reads.

**Proof sketch.** By cases on the required text and the IRI; the IRI that is added is that of
`leads_readIri`. -/
lemma leads_readPart (hs : s.At entry deleted) (required : Option Str) (missing : String)
    (iri : Option Str) (invalid : String) (add : Str → Option Iri → Entry → Entry) :
    Leads (EntryParse.At (add (required.getD []) (iri.map parsedIri) entry) deleted)
      (Refuses entry deleted) (readPart required missing iri invalid add s) := by
  unfold readPart
  cases required with
  | none => exact leads_parsingError hs missing
  | some text =>
    cases iri with
    | none =>
      apply leads_ok
      exact ⟨congrArg (add text none) hs.1, hs.2⟩
    | some iri =>
      refine (leads_readIri hs iri).bind ?_
      rintro ⟨call, s'⟩ ⟨hs', hiri⟩
      dsimp only
      split
      · exact leads_parsingError hs' invalid
      · next hnot =>
        apply leads_ok
        rw [hiri (Bool.eq_false_iff.mpr hnot)]
        exact ⟨congrArg (add text (some (parsedIri iri))) hs'.1, hs'.2⟩

/-- A report of the last error leaves the entry, and clears the record.

**Proof sketch.** It needs an error to report, which it clears. -/
lemma leads_reportLast (hs : s.At entry deleted) (what : String) :
    Leads (fun s' => s'.At entry deleted ∧ s'.err = .cleared) (Refuses entry deleted)
      (reportLast s what) := by
  cases herr : s.err with
  | unset =>
    unfold reportLast
    rw [herr]
    exact leads_fault
  | shown error =>
    rw [reportLast_shown herr]
    exact leads_ok ⟨hs, rfl⟩
  | cleared =>
    rw [reportLast_cleared herr]
    exact leads_fault

/-- An IRI of an in-reply-to element leaves the entry.

**Proof sketch.** Without the attribute nothing is read; an accepted text is reported, a
rejected one stored in the object of the element. -/
lemma leads_readReplyIri (hs : s.At entry deleted) (attrib : Option Str) (what : String)
    (set : InReplyTo → Iri → InReplyTo) (irt : Option InReplyTo) :
    Leads (fun r => r.1.At entry deleted) (Refuses entry deleted)
      (readReplyIri attrib what set s irt) := by
  unfold readReplyIri
  cases attrib with
  | none => exact leads_ok hs
  | some text =>
    refine (leads_readIri hs text).bind ?_
    rintro ⟨call, s'⟩ ⟨hs', -⟩
    dsimp only
    split
    · refine (leads_reportLast hs' what).bind fun s'' hs'' => ?_
      cases irt with
      | none => exact leads_fault
      | some irt => exact leads_ok hs''.1
    · cases irt with
      | none => exact leads_fault
      | some irt => exact leads_ok hs'

/-- The type of an in-reply-to element leaves the entry. -/
lemma leads_readReplyType (type : Option Str) (irt : Option InReplyTo) :
    Leads (fun _ => True) (Refuses entry deleted) (readReplyType type irt : Flow N _) := by
  cases type with
  | none => exact leads_ok trivial
  | some type =>
    cases irt with
    | none => exact leads_fault
    | some irt => exact leads_ok trivial

/-- An in-reply-to element leaves the entry.

**Proof sketch.** Each way through the element reads IRIs and reports errors, none of which
touches the entry; the object is never added to it. -/
lemma leads_readInReplyTo (hs : s.At entry deleted) (x : Iksemel N) (child : N) :
    Leads (EntryParse.At entry deleted) (Refuses entry deleted) (readInReplyTo x child s) := by
  unfold readInReplyTo
  split
  · exact leads_parsingError hs _
  · refine (leads_readIri hs _).bind ?_
    rintro ⟨call, s₁⟩ ⟨hs₁, -⟩
    dsimp only
    split
    · refine (leads_reportLast hs₁ _).bind fun s₂ hs₂ => ?_
      apply leads_error
      intro value s' h
      cases h
      exact ⟨hs₂.1, Or.inl hs₂.2⟩
    · refine (leads_readReplyIri hs₁ _ _ _ _).bind ?_
      rintro ⟨s₂, irt₂⟩ hs₂
      refine (leads_readReplyIri hs₂ _ _ _ _).bind ?_
      rintro ⟨s₃, irt₃⟩ hs₃
      refine (leads_readReplyType _ _).bind fun _ _ => ?_
      exact leads_ok hs₃

/-- **What a child leaves** of the entry.

**Proof sketch.** One case per name that the loop compares with. -/
lemma leads_readChild (hs : s.At entry deleted) (x : Iksemel N) (child : N) :
    Leads (EntryParse.At (addChild x entry child) deleted) (Refuses entry deleted)
      (readChild x s child) := by
  cases hname : x.name child with
  | none =>
    rw [readChild_unnamed hname]
    exact leads_fault
  | some name =>
    rw [readChild_eq hname, addChild, hname]
    simp only [Option.some.injEq]
    split_ifs
    · unfold readAuthor
      exact leads_readPart hs _ _ _ _ _
    · unfold readCategory
      exact leads_readPart hs _ _ _ _ _
    · exact leads_readInReplyTo hs x child
    · exact leads_ok hs

/-- The required fields.

**Proof sketch.** The identifier and the title are there, and the identifier is rejected, or the
call stops; what is stored is the IRI of the parse and the title. -/
lemma leads_readRequired (hs : s.At entry deleted) (x : Iksemel N) (ik : N) :
    Leads (EntryParse.At (setRequired x ik entry) deleted) (Refuses entry deleted)
      (readRequired x ik s) := by
  unfold readRequired setRequired
  cases x.findCdata ik "id".toList with
  | none => exact leads_parsingError hs _
  | some id =>
    refine (leads_readIri hs id).bind ?_
    rintro ⟨call, s'⟩ ⟨hs', hiri⟩
    dsimp only
    split
    · exact leads_parsingError hs' _
    · next hnot =>
      cases x.findCdata ik "title".toList with
      | none => exact leads_parsingError hs' _
      | some title =>
        apply leads_ok
        rw [hiri (Bool.eq_false_iff.mpr hnot)]
        exact ⟨by rw [← hs'.1]; rfl, hs'.2⟩

/-- The type that a content gets when it has neither a type nor a source is the usual one. -/
lemma contentNew_default (type src : Option Str) :
    contentNew (if type = none ∧ src = none then some "text".toList else type) =
      contentNew type := by
  split_ifs with h
  · rw [h.1]
    rfl
  · rfl

/-- A text that is set twice is the text that is set once. -/
lemma readText_once (x : Iksemel N) (content : N) (text : Str) (type : Option Str) :
    ∃ ct, readText x content (some text) (contentNew type) = .ok ct ∧
      readText x content (some text) ct = .ok { contentNew type with
        content := if x.cdataSize (x.children content).head? ≠ 0 then
          .text (text.take (x.cdataSize (x.children content).head?)) else .null } := by
  unfold readText
  simp only [contentSetContent, contentFreeContent, contentNew, Option.map_some, ofSetter]
  by_cases hlen : x.cdataSize (x.children content).head? ≠ 0
  · simp only [if_pos hlen]
    exact ⟨_, rfl, rfl⟩
  · simp only [if_neg hlen]
    exact ⟨_, rfl, rfl⟩

/-- The source of a new content. -/
lemma leads_readSrc (hs : s.At entry deleted) (src : Str) (type : Option Str) :
    Leads (fun r => r.1.At entry deleted ∧
        r.2 = { contentNew type with src := some (parsedIri src) })
      (Refuses entry deleted) (readSrc (some src) s (contentNew type)) := by
  refine (leads_readIri hs src).bind ?_
  rintro ⟨call, s'⟩ ⟨hs', hiri⟩
  dsimp only
  split
  · exact leads_parsingError hs' _
  · next hnot =>
    apply leads_ok
    rw [← hiri (Bool.eq_false_iff.mpr hnot)]
    exact ⟨hs', rfl⟩

/-- The content adds what it reads.

**Proof sketch.** By cases on the source and the text; the setters of a new content give
`contentOf`. -/
lemma leads_readContent (hs : s.At entry deleted) (x : Iksemel N) (ik : N) :
    Leads (EntryParse.At (addContent x ik entry) deleted) (Refuses entry deleted)
      (readContent x ik s) := by
  unfold readContent addContent contentOf
  cases x.find ik "content".toList with
  | none => exact leads_ok hs
  | some content =>
    dsimp only
    rw [contentNew_default]
    cases hsrc : x.findAttrib content "src".toList with
    | none =>
      cases htext : x.findCdata ik "content".toList with
      | none => exact leads_ok hs
      | some text =>
        rw [if_neg (by simp), if_neg (by simp)]
        obtain ⟨ct, hfirst, hsecond⟩ :=
          readText_once x content text (x.findAttrib content "type".toList)
        simp only [hfirst, hsecond, readSrc, bind, Except.bind, pure, Except.pure]
        apply leads_ok
        exact ⟨by rw [← hs.1]; rfl, hs.2⟩
    | some src =>
      cases htext : x.findCdata ik "content".toList with
      | some text => exact leads_parsingError hs _
      | none =>
        rw [if_neg (by simp), if_neg (by simp)]
        refine (leads_ok (R := fun ct => ct = contentNew _) rfl).bind ?_
        rintro ct rfl
        refine (leads_readSrc hs src _).bind ?_
        rintro ⟨s', ct⟩ ⟨hs', rfl⟩
        apply leads_ok
        exact ⟨by rw [← hs'.1]; rfl, hs'.2⟩

/-- A wrong root is deleted.

**Proof sketch.** The name is compared first; a root that is wrong is deleted before its error
is set. -/
lemma leads_readRoot (hs : s.At entry deleted) (x : Iksemel N) (ik : N) :
    Leads (fun _ => RightRoot x "entry" ik) (Refuses entry (deleted ++ [ik]))
      (readRoot x ik s) := by
  cases hname : x.name ik with
  | none =>
    unfold readRoot nameIs
    rw [hname]
    exact leads_fault
  | some name =>
    unfold readRoot RightRoot
    simp only [nameIs_eq hname, hname, bind, Except.bind]
    by_cases hroot : name = "entry".toList ∧ x.hasChildren ik = true
    · rw [if_neg (by simp [hroot.1, hroot.2])]
      exact leads_ok ⟨congrArg some hroot.1, hroot.2⟩
    · rw [if_pos (by
        rw [Bool.or_eq_true, Bool.not_eq_true', Bool.not_eq_true', decide_eq_false_iff_not,
          ← Bool.not_eq_true]
        exact not_and_or.mp hroot)]
      have hdeleted : EntryParse.At entry (deleted ++ [ik])
          { s with deleted := s.deleted ++ [ik] } := ⟨hs.1, congrArg (· ++ [ik]) hs.2⟩
      exact leads_parsingError hdeleted _

end Parts

/-! ## The loop over the children -/

/-- A part that follows its fate, and of which it is known what it leaves.

**Proof sketch.** The fate says how the part ends, and `Leads` what it leaves in each end. -/
lemma ParseFate.Rules.leaves {fate : ParseFate} {flow : Flow N (EntryParse N)} {goes stays : Entry}
    {deleted : List N} (hrules : fate.Rules flow)
    (hleads : Leads (EntryParse.At goes deleted) (Refuses stays deleted) flow) :
    fate.Leaves goes stays deleted flow := by
  cases fate with
  | goesOn recorded =>
    obtain ⟨s, rfl, htells⟩ := hrules
    obtain ⟨rfl, rfl⟩ := hleads.1 s rfl
    exact ⟨s.err, rfl, htells⟩
  | stops =>
    obtain ⟨s, rfl⟩ := hrules
    obtain ⟨⟨rfl, rfl⟩, hrefused⟩ := hleads.2 _ rfl 0 s rfl
    exact ⟨s.err, rfl, hrefused⟩
  | faults => exact hrules

/-- **One child.** -/
lemma readChild_leaves (x : Iksemel N) (child : N) {s : EntryParse N} {recorded : Bool}
    (hs : s.err.Tells recorded) :
    (namedFate x recorded child).Leaves (addChild x s.entry child) s.entry s.deleted
      (readChild x s child) := by
  unfold namedFate
  split_ifs with hname
  · exact readChild_unnamed hname s
  · exact (readChild_fate hname hs).leaves (leads_readChild ⟨rfl, rfl⟩ x child)

/-- **All children**: the loop adds the children that it is through with.

**Proof sketch.** Induction on the children: the first has its fate and adds its part
(`readChild_leaves`), and where it goes on the induction hypothesis continues from the entry and
the record that it left. -/
lemma readChildren_leaves (x : Iksemel N) (children : List N) {s : EntryParse N} {recorded : Bool}
    (hs : s.err.Tells recorded) :
    (sweep (namedFate x) recorded children).2.Leaves
      ((sweep (namedFate x) recorded children).1.foldl (addChild x) s.entry)
      ((sweep (namedFate x) recorded children).1.foldl (addChild x) s.entry) s.deleted
      (children.foldlM (readChild x) s) := by
  induction children generalizing s recorded with
  | nil => exact ⟨s.err, rfl, hs⟩
  | cons child children ih =>
    have hchild := readChild_leaves x child hs
    rw [List.foldlM_cons, sweep]
    cases hfate : namedFate x recorded child with
    | goesOn recorded' =>
      rw [hfate] at hchild
      obtain ⟨err, hread, htells⟩ := hchild
      rw [hread]
      exact ih (s := ⟨addChild x s.entry child, err, s.deleted⟩) htells
    | stops =>
      rw [hfate] at hchild
      obtain ⟨err, hread, hrefused⟩ := hchild
      rw [hread]
      exact ⟨err, rfl, hrefused⟩
    | faults =>
      rw [hfate] at hchild
      have hread : readChild x s child = fault := hchild
      rw [hread]
      rfl

/-! ## The call -/

/-- An error is recorded unless the record was cleared. -/
lemma ErrState.ClearedIff.last_eq_none_iff {err : ErrState} {P : Prop} (h : err.ClearedIff P) :
    err.last = none ↔ P := by
  rw [← h.cleared]
  cases herr : err with
  | unset => exact absurd herr h.set
  | shown error => simp [ErrState.last]
  | cleared => simp [ErrState.last]

/-- No error is shown when the record was cleared. -/
lemma ErrState.Tells.last_eq_none_iff {err : ErrState} {recorded : Bool} (h : err.Tells recorded) :
    err.last = none ↔ recorded = false := by
  cases h with
  | shown error => simp [ErrState.last]
  | cleared => simp [ErrState.last]

/-- The parts in front of the children. -/
def readHead (x : Iksemel N) (lib : TimeLib) (ik : N) (s : EntryParse N) :
    Flow N (EntryParse N) := do
  readRoot x ik s
  let s ← readRequired x ik s
  readContent x ik { s with entry := readOptional x lib ik s.entry }

/-- The parts in front of the loop, and the loop. -/
lemma readEntry_eq (x : Iksemel N) (lib : TimeLib) (ik : N) (s : EntryParse N) :
    readEntry x lib ik s =
      readHead x lib ik s >>= fun s => (x.children ik).foldlM (readChild x) s := by
  unfold readEntry readHead
  simp only [bind_assoc]

/-- The parts in front of the children.

**Proof sketch.** The parts in their order: a root without a name faults, one that is wrong
stops, the required fields stop or go on with an error, the optional fields are read, and the
content stops or goes on. -/
lemma readHead_leaves (x : Iksemel N) (lib : TimeLib) (entry : Entry) {err : ErrState} (ik : N)
    (herr : err ≠ .cleared) :
    ParseFate.Leaves (addContent x ik (readFields x lib ik entry))
      (if ¬ RightRoot x "entry" ik ∨ RequiredStops x ik then entry else readFields x lib ik entry)
      (entryDeleted x ik)
      (if x.name ik = none then .faults
        else if ¬ RightRoot x "entry" ik ∨ RequiredStops x ik ∨ ContentStops x ik then .stops
        else .goesOn true)
      (readHead x lib ik ⟨entry, err, []⟩) := by
  have hstart : (⟨entry, err, []⟩ : EntryParse N).At entry [] := ⟨rfl, rfl⟩
  unfold entryDeleted
  by_cases hname : x.name ik = none
  · rw [if_pos hname]
    unfold readHead readRoot nameIs
    rw [hname]
    rfl
  rw [if_neg hname]
  by_cases hroot : RightRoot x "entry" ik
  swap
  · rw [if_pos (Or.inl hroot), if_pos (Or.inl hroot), if_neg hroot]
    obtain ⟨s, hs⟩ := readRoot_wrong (s := ⟨entry, err, []⟩) hname hroot herr
    obtain ⟨⟨rfl, hdeleted⟩, hrefused⟩ := (leads_readRoot hstart x ik).2 _ hs 0 s rfl
    refine ⟨s.err, ?_, hrefused⟩
    unfold readHead
    rw [hs]
    show Except.error (some (0, s)) = _
    rw [show [ik] = s.deleted from hdeleted.symm]
  have hread : readHead x lib ik ⟨entry, err, []⟩ = (readRequired x ik ⟨entry, err, []⟩).bind
      fun s => readContent x ik { s with entry := readOptional x lib ik s.entry } := by
    unfold readHead
    rw [readRoot_right hroot]
    rfl
  rw [hread, if_pos hroot]
  by_cases hrequired : RequiredStops x ik
  · rw [if_pos (Or.inr hrequired), if_pos (Or.inr (Or.inl hrequired))]
    obtain ⟨s, hs⟩ := readRequired_stops hrequired (s := ⟨entry, err, []⟩) herr
    obtain ⟨⟨rfl, hdeleted⟩, hrefused⟩ := (leads_readRequired hstart x ik).2 _ hs 0 s rfl
    refine ⟨s.err, ?_, hrefused⟩
    rw [hs, ← hdeleted]
    rfl
  obtain ⟨s₁, error₁, hs₁, herr₁⟩ := readRequired_goesOn hrequired (s := ⟨entry, err, []⟩) herr
  have hat₁ : EntryParse.At (readFields x lib ik entry) []
      { s₁ with entry := readOptional x lib ik s₁.entry } := by
    obtain ⟨hentry, hdeleted⟩ := (leads_readRequired hstart x ik).1 _ hs₁
    exact ⟨congrArg (readOptional x lib ik) hentry, hdeleted⟩
  rw [hs₁, if_neg (not_or.mpr ⟨not_not.mpr hroot, hrequired⟩)]
  simp only [Except.bind]
  by_cases hcontent : ContentStops x ik
  · rw [if_pos (Or.inr (Or.inr hcontent))]
    obtain ⟨s₂, hs₂⟩ := readContent_stops hcontent
      (s := { s₁ with entry := readOptional x lib ik s₁.entry }) (by simp [herr₁])
    obtain ⟨⟨hentry, hdeleted⟩, hrefused⟩ := (leads_readContent hat₁ x ik).2 _ hs₂ 0 s₂ rfl
    refine ⟨s₂.err, ?_, hrefused⟩
    rw [hs₂, ← hdeleted, ← hentry]
  obtain ⟨s₂, error₂, hs₂, herr₂⟩ := readContent_goesOn hcontent
    (s := { s₁ with entry := readOptional x lib ik s₁.entry }) herr₁
  obtain ⟨hentry, hdeleted⟩ := (leads_readContent hat₁ x ik).1 _ hs₂
  rw [hs₂, if_neg (by simp [hroot, hrequired, hcontent]), ← hentry, ← hdeleted]
  exact ⟨s₂.err, rfl, ErrState.tells_shown herr₂⟩

/-- The body of the call.

**Proof sketch.** `readHead_leaves` decides whether the loop is reached; where it is,
`readChildren_leaves` says what it comes to from the entry with its fields read. -/
lemma readEntry_leaves (x : Iksemel N) (lib : TimeLib) (entry : Entry) {err : ErrState} (ik : N)
    (herr : err ≠ .cleared) :
    (entryFate x ik).Leaves (entryLeft x lib entry ik) (entryLeft x lib entry ik)
      (entryDeleted x ik) (readEntry x lib ik ⟨entry, err, []⟩) := by
  have hhead := readHead_leaves x lib entry ik herr
  rw [readEntry_eq]
  unfold entryFate entryLeft
  by_cases hname : x.name ik = none
  · rw [if_pos hname] at hhead ⊢
    have hfault : readHead x lib ik ⟨entry, err, []⟩ = fault := hhead
    rw [hfault]
    rfl
  rw [if_neg hname] at hhead ⊢
  by_cases hstops : ¬ RightRoot x "entry" ik ∨ RequiredStops x ik ∨ ContentStops x ik
  · rw [if_pos hstops] at hhead ⊢
    obtain ⟨err', hread, hrefused⟩ := hhead
    rw [hread]
    refine ⟨err', ?_, hrefused⟩
    by_cases hfirst : ¬ RightRoot x "entry" ik ∨ RequiredStops x ik
    · rw [if_pos hfirst, if_pos hfirst]
      rfl
    · have hcontent : ContentStops x ik :=
        (or_assoc.mpr hstops).resolve_left hfirst
      rw [if_neg hfirst, if_neg hfirst, if_pos hcontent]
      rfl
  · rw [if_neg hstops] at hhead ⊢
    obtain ⟨err', hread, htells⟩ := hhead
    rw [hread, if_neg (fun h => hstops (or_assoc.mp (Or.inl h))),
      if_neg (fun h => hstops (Or.inr (Or.inr h)))]
    exact readChildren_leaves x (x.children ik) (s := ⟨_, err', _⟩) htells

/-- **What a call leaves**, unless the error record was cleared before it: the value, the entry and
the deleted nodes.

**Proof sketch.** The body is `readEntry_leaves`; the call turns its end into the value `1` and
its stop into the value that it stopped with. -/
lemma entrySetFromIks_outcome (x : Iksemel N) (lib : TimeLib) (entry : Entry) {err : ErrState}
    (ik : N) (herr : err ≠ .cleared) :
    match entryFate x ik with
    | .goesOn recorded => ∃ err', err'.Tells recorded ∧
        entrySetFromIks x lib entry err ik =
          some (1, ⟨entryLeft x lib entry ik, err', entryDeleted x ik⟩)
    | .stops => ∃ err', err'.Refused ∧
        entrySetFromIks x lib entry err ik =
          some (0, ⟨entryLeft x lib entry ik, err', entryDeleted x ik⟩)
    | .faults => entrySetFromIks x lib entry err ik = none := by
  have hleaves := readEntry_leaves x lib entry ik herr
  unfold entrySetFromIks
  cases hfate : entryFate x ik with
  | goesOn recorded =>
    rw [hfate] at hleaves
    obtain ⟨err', hread, htells⟩ := hleaves
    exact ⟨err', htells, by rw [hread]⟩
  | stops =>
    rw [hfate] at hleaves
    obtain ⟨err', hread, hrefused⟩ := hleaves
    exact ⟨err', hrefused, by rw [hread]⟩
  | faults =>
    rw [hfate] at hleaves
    have hread : readEntry x lib ik ⟨entry, err, []⟩ = fault := hleaves
    rw [hread]
    rfl

/-- Behind a cleared record the call is a fault. -/
lemma ne_cleared_of_entrySetFromIks {x : Iksemel N} {lib : TimeLib} {entry : Entry} {err : ErrState}
    {ik : N} {r : ℤ × EntryParse N} (h : entrySetFromIks x lib entry err ik = some r) :
    err ≠ .cleared := by
  rintro rfl
  rw [entrySetFromIks_cleared] at h
  cases h

/-- The entry, the deleted nodes and the fate behind a call that is no fault.

**Proof sketch.** The record was not cleared before, or the call were a fault; then
`entrySetFromIks_outcome` gives one result for each fate. -/
lemma entrySetFromIks_left {x : Iksemel N} {lib : TimeLib} {entry : Entry} {err : ErrState} {ik : N}
    {value : ℤ} {s : EntryParse N} (h : entrySetFromIks x lib entry err ik = some (value, s)) :
    s.entry = entryLeft x lib entry ik ∧ s.deleted = entryDeleted x ik ∧
      (value = 0 ∧ entryFate x ik = .stops ∧ s.err.Refused ∨
        value = 1 ∧ ∃ recorded, entryFate x ik = .goesOn recorded ∧ s.err.Tells recorded) := by
  have houtcome := entrySetFromIks_outcome x lib entry ik (ne_cleared_of_entrySetFromIks h)
  cases hfate : entryFate x ik with
  | goesOn recorded =>
    rw [hfate] at houtcome
    obtain ⟨err', htells, h'⟩ := houtcome
    cases h.symm.trans h'
    exact ⟨rfl, rfl, Or.inr ⟨rfl, recorded, rfl, htells⟩⟩
  | stops =>
    rw [hfate] at houtcome
    obtain ⟨err', hrefused, h'⟩ := houtcome
    cases h.symm.trans h'
    exact ⟨rfl, rfl, Or.inl ⟨rfl, rfl, hrefused⟩⟩
  | faults =>
    rw [hfate] at houtcome
    cases h.symm.trans houtcome

/-- A call is no fault exactly when its fate is none.

**Proof sketch.** `entrySetFromIks_outcome`, fate by fate. -/
lemma exists_entrySetFromIks_iff (x : Iksemel N) (lib : TimeLib) (entry : Entry) {err : ErrState}
    (ik : N) (herr : err ≠ .cleared) :
    (∃ value s, entrySetFromIks x lib entry err ik = some (value, s)) ↔
      entryFate x ik ≠ .faults := by
  have houtcome := entrySetFromIks_outcome x lib entry ik herr
  cases hfate : entryFate x ik with
  | goesOn recorded =>
    rw [hfate] at houtcome
    obtain ⟨err', -, h⟩ := houtcome
    exact iff_of_true ⟨_, _, h⟩ (by simp)
  | stops =>
    rw [hfate] at houtcome
    obtain ⟨err', -, h⟩ := houtcome
    exact iff_of_true ⟨_, _, h⟩ (by simp)
  | faults =>
    rw [hfate] at houtcome
    have hcall : entrySetFromIks x lib entry err ik = none := houtcome
    simp [hcall]

/-- **Earlier errors** make no difference to the value, to the entry and the deleted nodes, and to
whether the record is cleared.

**Proof sketch.** Neither record was cleared before, so both calls are given by the fate of the
tree, which does not speak of the record. -/
lemma entrySetFromIks_congr {x : Iksemel N} {lib : TimeLib} {entry : Entry} {err err' : ErrState}
    {ik : N} {value : ℤ} {s : EntryParse N} (herr' : err' ≠ .cleared)
    (h : entrySetFromIks x lib entry err ik = some (value, s)) :
    ∃ s', entrySetFromIks x lib entry err' ik = some (value, s') ∧ s'.entry = s.entry ∧
      s'.deleted = s.deleted ∧ (s'.err.last = none ↔ s.err.last = none) := by
  have herr := ne_cleared_of_entrySetFromIks h
  obtain ⟨hentry, hdeleted, hvalue⟩ := entrySetFromIks_left h
  obtain ⟨value', s', h'⟩ := (exists_entrySetFromIks_iff x lib entry ik herr').mpr
    ((exists_entrySetFromIks_iff x lib entry ik herr).mp ⟨value, s, h⟩)
  obtain ⟨hentry', hdeleted', hvalue'⟩ := entrySetFromIks_left h'
  have hsame : value' = value := by
    rcases hvalue with ⟨rfl, hfate, -⟩ | ⟨rfl, recorded, hfate, -⟩
    · rcases hvalue' with ⟨rfl, -⟩ | ⟨-, recorded', hfate', -⟩
      · rfl
      · cases hfate.symm.trans hfate'
    · rcases hvalue' with ⟨-, hfate', -⟩ | ⟨rfl, -⟩
      · cases hfate.symm.trans hfate'
      · rfl
  have hcleared := (entrySetFromIks_record herr h).2
  have hcleared' := (entrySetFromIks_record herr' h').2
  refine ⟨s', hsame ▸ h', by rw [hentry, hentry'], by rw [hdeleted, hdeleted'], ?_⟩
  rw [hcleared.last_eq_none_iff, hcleared'.last_eq_none_iff]

end Taningia
