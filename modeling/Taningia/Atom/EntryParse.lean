import Taningia.Atom.Objects
import Taningia.Lib.Machine

set_option relaxedAutoImplicit false
set_option autoImplicit false

/-!
# Reading an Atom entry

`src/atom.c`, `ta_atom_entry_set_from_iks`: an entry is filled from a tree, field by field, with an
early return at each thing that is wrong. The results of `ta_iri_set_from_string` are tested with
`!`, as if it returned a truth value; but it returns `TA_OK`, which is `0`, for a valid IRI. So the
parser refuses what is valid, and keeps what is not.

## Main definitions

* `Taningia.HasRecord`, `Taningia.ParseFlow` — the state of a call, and what a part of it leads to.
* `Taningia.readIri`, `Taningia.parsingError`, `Taningia.reportLast` — its calls that touch the
  error record.
* `Taningia.entrySetFromIks` — the parser.

## Main results

* `Taningia.readIri_accepts`, `Taningia.readIri_rejects` — the test that the parser makes on an IRI.
* `Taningia.readChild_eq` — at most one part of the loop body applies.
-/

namespace Taningia

variable {N : Type}

/-! ## Parts of a call

The parsers of entries and of feeds have states of their own. Their calls of the error functions,
their tests of names and their calls of the parser of IRIs are the same. -/

/-- What a part of a call leads to: it goes on, returns a value with the state, or is a fault. -/
abbrev ParseFlow (P S : Type) := Except (Option (ℤ × P)) S

/-- The state of a call, with the error record of the thread in it. -/
class HasRecord (P : Type) where
  err : P → ErrState
  withErr : P → ErrState → P

/-- A read through `NULL` or of freed memory, or a second release. -/
def fault {P S : Type} : ParseFlow P S := .error none

/-- A call of the error functions. -/
def errorCall {P : Type} [HasRecord P] (s : P) (call : ErrorCall) : ParseFlow P P :=
  match errStateStep (HasRecord.err s) call with
  | some err => .ok (HasRecord.withErr s err)
  | none => fault

/-- `return 0` behind `ta_error_set (TA_ATOM_PARSING_ERROR, message)`. -/
def parsingError {P S : Type} [HasRecord P] (s : P) (message : String) : ParseFlow P S := do
  let s ← errorCall s (.set taAtomParsingError [.text message.toList])
  .error (some (0, s))

/-- `strcmp` with the result of `iks_name`, which must not be `NULL`. -/
def nameIs {P : Type} (x : Iksemel N) (n : N) (name : String) : ParseFlow P Bool :=
  match x.name n with
  | some s => .ok (decide (s = name.toList))
  | none => fault

/-- `!n` in C. -/
def cNot (n : ℤ) : Bool := decide (n = 0)

/-- `ta_iri_set_from_string`. When it fails, it sets its error. -/
def readIri {P : Type} [HasRecord P] (iri : Iri) (text : Str) (s : P) : ParseFlow P (IriCall × P) :=
  let call := iriSetFromString iri text (HasRecord.err s).last
  if call.status = taOk then .ok (call, s)
  else
    match call.err with
    | none => .ok (call, s)
    | some error => do
      let s ← errorCall s (.set error.code [.text error.message])
      pure (call, s)

/-- The state of a call for an entry: the entry, the error record of the thread, and the nodes
deleted. -/
structure EntryParse (N : Type) where
  entry : Entry
  err : ErrState
  deleted : List N

instance : HasRecord (EntryParse N) := ⟨EntryParse.err, fun s err => { s with err := err }⟩

/-- The record of the entry parser. -/
@[simp] lemma err_entryParse (s : EntryParse N) : HasRecord.err s = s.err := rfl

/-- The entry parser with another record. -/
@[simp] lemma withErr_entryParse (s : EntryParse N) (err : ErrState) :
    HasRecord.withErr s err = { s with err := err } := rfl

/-- What a part of a call for an entry leads to. -/
abbrev Flow (N S : Type) := ParseFlow (EntryParse N) S

/-- `ta_error_set` with the message of `ta_error_last ()`, and `ta_error_clear`. -/
def reportLast (s : EntryParse N) (what : String) : Flow N (EntryParse N) :=
  match s.err.last with
  | none => fault
  | some _ => do
    let s ← errorCall s (.set taAtomParsingError [.text what.toList, .lastMessage])
    errorCall s .clear

/-! ## The fields of an entry -/

/-- The test of the root element. -/
def readRoot (x : Iksemel N) (ik : N) (s : EntryParse N) : Flow N Unit := do
  if !(← nameIs x ik "entry") || !x.hasChildren ik then
    parsingError { s with deleted := s.deleted ++ [ik] } "Wrong root entry element"

/-- The required fields: the id and the title. -/
def readRequired (x : Iksemel N) (ik : N) (s : EntryParse N) : Flow N (EntryParse N) :=
  match x.findCdata ik "id".toList with
  | none => parsingError s "No <id> element found"
  | some id => do
    let (call, s) ← readIri iriNew id s
    if cNot call.status then parsingError s "Invalid <id> iri"
    else
      match x.findCdata ik "title".toList with
      | none => parsingError s "No <title> element found"
      | some title =>
        .ok { s with entry := { s.entry with id := some call.iri, title := some title } }

/-- The optional fields that are a text or a date. -/
def readOptional (x : Iksemel N) (lib : TimeLib) (ik : N) (entry : Entry) : Entry :=
  { entry with
    updated := ((x.findCdata ik "updated".toList).map (iso8601ToTime lib)).getD entry.updated
    published := ((x.findCdata ik "published".toList).map (iso8601ToTime lib)).getD entry.published
    summary := x.findCdata ik "summary".toList <|> entry.summary
    rights := x.findCdata ik "rights".toList <|> entry.rights }

/-- A setter of a content, which may be a fault. -/
def ofSetter (content : Option Content) : Flow N Content :=
  match content with
  | some content => .ok content
  | none => fault

/-- The content's text, copied with the length of the first child's character data. -/
def readText (x : Iksemel N) (content : N) (scontent : Option Str) (ct : Content) :
    Flow N Content :=
  match scontent with
  | some scontent =>
    ofSetter (contentSetContent ct (some scontent) (x.cdataSize (x.children content).head?))
  | none => .ok ct

/-- The content's source. -/
def readSrc (src : Option Str) (s : EntryParse N) (ct : Content) :
    Flow N (EntryParse N × Content) :=
  match src with
  | none => .ok (s, ct)
  | some src => do
    let (call, s) ← readIri iriNew src s
    if cNot call.status then parsingError s "Invalid iri in content src attribute"
    else do
      let ct ← ofSetter (contentSetSrc ct call.iri)
      pure (s, ct)

/-- The content element. A content with a text sets it twice. -/
def readContent (x : Iksemel N) (ik : N) (s : EntryParse N) : Flow N (EntryParse N) :=
  match x.find ik "content".toList with
  | none => .ok s
  | some content =>
    let type := x.findAttrib content "type".toList
    let src := x.findAttrib content "src".toList
    let scontent := x.findCdata ik "content".toList
    let type := if type = none ∧ src = none then some "text".toList else type
    if src ≠ none ∧ scontent ≠ none then
      parsingError s
        "Invalid content, it has the src attribute set and content tag is filled"
    else if src = none ∧ scontent = none then .ok s
    else do
      let ct ← readText x content scontent (contentNew type)
      let (s, ct) ← readSrc src s ct
      let ct ← readText x content scontent ct
      pure { s with entry := { s.entry with content := some ct } }

/-! ## The children of an entry -/

/-- A child with a required text and an optional IRI, which adds to the entry. -/
def readPart (required : Option Str) (missing : String) (iri : Option Str) (invalid : String)
    (add : Str → Option Iri → Entry → Entry) (s : EntryParse N) : Flow N (EntryParse N) :=
  match required with
  | none => parsingError s missing
  | some text =>
    match iri with
    | none => .ok { s with entry := add text none s.entry }
    | some iri => do
      let (call, s) ← readIri iriNew iri s
      if cNot call.status then parsingError s invalid
      else .ok { s with entry := add text (some call.iri) s.entry }

/-- An author. Without an uri it has a fresh IRI. -/
def readAuthor (x : Iksemel N) (child : N) : EntryParse N → Flow N (EntryParse N) :=
  let email := x.findCdata child "email".toList
  readPart (x.findCdata child "name".toList) "Author with no name"
    (x.findCdata child "uri".toList) "Author with an invalid iri in uri field"
    fun name iri entry =>
      { entry with authors := entry.authors ++ [personNew name email (some (iri.getD iriNew))] }

/-- A category. -/
def readCategory (x : Iksemel N) (child : N) : EntryParse N → Flow N (EntryParse N) :=
  let label := x.findAttrib child "label".toList
  readPart (x.findAttrib child "term".toList) "Category with no term attribute"
    (x.findAttrib child "scheme".toList) "Category scheme attribute is not a valid iri"
    fun term iri entry =>
      { entry with categories := entry.categories ++ [categoryNew term label iri] }

/-- An optional IRI of an in-reply-to element. A `!` that holds reports through `ta_error_last ()`,
clears the record and drops the object, but goes on; `none` is a dropped object. -/
def readReplyIri (attrib : Option Str) (what : String) (set : InReplyTo → Iri → InReplyTo)
    (s : EntryParse N) (irt : Option InReplyTo) : Flow N (EntryParse N × Option InReplyTo) :=
  match attrib with
  | none => .ok (s, irt)
  | some text => do
    let (call, s) ← readIri iriNew text s
    if cNot call.status then do
      let s ← reportLast s what
      match irt with
      | some _ => .ok (s, none)
      | none => fault
    else
      match irt with
      | some irt => .ok (s, some (set irt call.iri))
      | none => fault

/-- The type of an in-reply-to element. -/
def readReplyType (type : Option Str) (irt : Option InReplyTo) : Flow N (Option InReplyTo) :=
  match type, irt with
  | none, irt => .ok irt
  | some type, some irt => .ok (some { irt with type := some type })
  | some _, none => fault

/-- An in-reply-to element. What is read is not added to the entry. -/
def readInReplyTo (x : Iksemel N) (child : N) (s : EntryParse N) : Flow N (EntryParse N) :=
  match x.findAttrib child "ref".toList with
  | none => parsingError s "InReplyTo element with no ref attribute."
  | some ref => do
    let (call, s) ← readIri iriNew ref s
    if cNot call.status then do
      let s ← reportLast s "InReplyTo element with an invalid ref attribute: "
      .error (some (0, s))
    else do
      let (s, irt) ← readReplyIri (x.findAttrib child "href".toList)
        "InReplyTo element with an invalid href attribute: "
        (fun irt iri => { irt with href := some iri }) s (some (inReplyToNew call.iri))
      let (s, irt) ← readReplyIri (x.findAttrib child "source".toList)
        "InReplyTo element with an invalid source attribute: "
        (fun irt iri => { irt with source := some iri }) s irt
      let _ ← readReplyType (x.findAttrib child "type".toList) irt
      pure s

/-- One turn of the loop over the children. -/
def readChild (x : Iksemel N) (s : EntryParse N) (child : N) : Flow N (EntryParse N) := do
  let s ← if ← nameIs x child "author" then readAuthor x child s else pure s
  let s ← if ← nameIs x child "category" then readCategory x child s else pure s
  if ← nameIs x child "in-reply-to" then readInReplyTo x child s else pure s

/-- The body of `ta_atom_entry_set_from_iks`. -/
def readEntry (x : Iksemel N) (lib : TimeLib) (ik : N) (s : EntryParse N) :
    Flow N (EntryParse N) := do
  readRoot x ik s
  let s ← readRequired x ik s
  let s := { s with entry := readOptional x lib ik s.entry }
  let s ← readContent x ik s
  (x.children ik).foldlM (readChild x) s

/-- `ta_atom_entry_set_from_iks`: the return value with the state, or `none` for a fault. -/
def entrySetFromIks (x : Iksemel N) (lib : TimeLib) (entry : Entry) (err : ErrState) (ik : N) :
    Option (ℤ × EntryParse N) :=
  match readEntry x lib ik ⟨entry, err, []⟩ with
  | .ok s => some (1, s)
  | .error r => r

/-! ## What the helpers do -/

section Record

variable {P S : Type} [HasRecord P] {s : P}

/-- Setting an error is a fault exactly behind a cleared one. -/
lemma errorCall_set (hs : HasRecord.err s ≠ .cleared) (errcode : ℤ) (args : List ErrorArg) :
    errorCall s (.set errcode args) =
      .ok (HasRecord.withErr s (.shown ⟨errcode, formatArgs (HasRecord.err s).last args⟩)) := by
  unfold errorCall
  cases h : HasRecord.err s with
  | unset => rfl
  | shown error => rfl
  | cleared => exact absurd h hs

/-- Behind a cleared record it is one. -/
lemma errorCall_set_cleared (hs : HasRecord.err s = .cleared) (errcode : ℤ)
    (args : List ErrorArg) : errorCall s (.set errcode args) = fault := by
  unfold errorCall
  rw [hs]
  rfl

/-- An error of the parser is returned with its message. -/
lemma parsingError_eq (hs : HasRecord.err s ≠ .cleared) (message : String) :
    (parsingError s message : ParseFlow P S) =
      .error (some (0, HasRecord.withErr s (.shown ⟨taAtomParsingError, message.toList⟩))) := by
  unfold parsingError
  rw [errorCall_set hs]
  simp [formatArgs, bind, Except.bind]

/-- Behind a cleared record it is a fault. -/
lemma parsingError_cleared (hs : HasRecord.err s = .cleared) (message : String) :
    (parsingError s message : ParseFlow P S) = fault := by
  unfold parsingError
  rw [errorCall_set_cleared hs]
  rfl

/-- Behind `ta_error_set` with a parsing error the call returns. -/
lemma parsingError_ne_ok (s : P) (message : String) (a : S) :
    (parsingError s message : ParseFlow P S) ≠ .ok a := by
  intro h
  obtain ⟨s', -, h⟩ := Machine.bind_eq_ok_iff.mp h
  cases h

/-- An accepted text makes the `!` hold, and keeps the record. -/
lemma readIri_accepts {text : Str} (h : iriAccepts text = true) (iri : Iri) (s : P) :
    ∃ call, readIri iri text s = .ok (call, s) ∧ cNot call.status = true := by
  have hstatus := (iriSetFromString_of_accepts h iri (HasRecord.err s).last).1
  refine ⟨iriSetFromString iri text (HasRecord.err s).last, ?_, ?_⟩
  · unfold readIri
    rw [if_pos hstatus]
  · rw [hstatus]
    rfl

/-- A rejected text makes the `!` fail, and records an error.

**Proof sketch.** `iriSetFromString_of_rejects` gives the code and the message; the status is
not zero, so `!` gives `0`. -/
lemma readIri_rejects {text : Str} (h : iriAccepts text = false) (iri : Iri)
    (hs : HasRecord.err s ≠ .cleared) :
    ∃ call error, readIri iri text s = .ok (call, HasRecord.withErr s (.shown error)) ∧
      cNot call.status = false ∧ call.iri = (iriSetFromString iri text none).iri := by
  obtain ⟨hstatus, error, herr⟩ := iriSetFromString_of_rejects h iri (HasRecord.err s).last
  refine ⟨iriSetFromString iri text (HasRecord.err s).last,
    ⟨error.code, formatArgs (HasRecord.err s).last [.text error.message]⟩, ?_, ?_,
    congrArg IriCall.iri (iriSetFromString_rejects_eq h iri _ none)⟩
  · unfold readIri
    rw [if_neg (by rw [hstatus]; decide), herr]
    simp only [errorCall_set hs]
    rfl
  · rw [hstatus]
    rfl

/-- Behind a cleared record a rejected text is a fault. -/
lemma readIri_rejects_cleared {text : Str} (h : iriAccepts text = false) (iri : Iri)
    (hs : HasRecord.err s = .cleared) : readIri iri text s = fault := by
  obtain ⟨hstatus, error, herr⟩ := iriSetFromString_of_rejects h iri (HasRecord.err s).last
  unfold readIri
  rw [if_neg (by rw [hstatus]; decide), herr]
  simp only [errorCall_set_cleared hs]
  rfl

end Record

/-- A rejected text in an entry. -/
lemma EntryParse.readIri_rejects {text : Str} (h : iriAccepts text = false) {s : EntryParse N}
    (hs : s.err ≠ .cleared) :
    ∃ call s' error, readIri iriNew text s = .ok (call, s') ∧ cNot call.status = false ∧
      s'.err = .shown error := by
  obtain ⟨call, error, hread, hnot, -⟩ := Taningia.readIri_rejects (s := s) h iriNew hs
  exact ⟨call, _, error, hread, hnot, rfl⟩

/-- A node with a name is compared. -/
lemma nameIs_eq {P : Type} {x : Iksemel N} {n : N} {s : Str} (hn : x.name n = some s)
    (name : String) : (nameIs x n name : ParseFlow P Bool) = .ok (decide (s = name.toList)) := by
  unfold nameIs
  rw [hn]

/-- Reporting the last error clears the record. -/
lemma reportLast_shown {s : EntryParse N} {error : ErrorT} (hs : s.err = .shown error)
    (what : String) : reportLast s what = .ok { s with err := .cleared } := by
  unfold reportLast
  simp only [hs, ErrState.last]
  rw [errorCall_set (by simp [hs])]
  rfl

/-- Without a record there is no last error to report. -/
lemma reportLast_cleared {s : EntryParse N} (hs : s.err = .cleared) (what : String) :
    reportLast s what = fault := by
  unfold reportLast
  simp only [hs, ErrState.last]

/-- At most one of the three parts of the loop body applies.

**Proof sketch.** The three names are different, so at most one of the tests succeeds. -/
lemma readChild_eq {x : Iksemel N} {child : N} {name : Str} (hname : x.name child = some name)
    (s : EntryParse N) :
    readChild x s child =
      if name = "author".toList then readAuthor x child s
      else if name = "category".toList then readCategory x child s
      else if name = "in-reply-to".toList then readInReplyTo x child s
      else .ok s := by
  unfold readChild
  simp only [nameIs_eq hname, bind, Except.bind, pure, Except.pure]
  by_cases hauthor : name = "author".toList
  · subst hauthor
    cases readAuthor x child s <;> rfl
  · by_cases hcategory : name = "category".toList
    · subst hcategory
      cases readCategory x child s <;> rfl
    · simp only [hauthor, hcategory, decide_false, Bool.false_eq_true, if_false,
        decide_eq_true_eq]

end Taningia
