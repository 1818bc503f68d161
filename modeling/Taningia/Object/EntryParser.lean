import Taningia.Atom.EntryOutcome
import Taningia.Object.Counts

set_option relaxedAutoImplicit false
set_option autoImplicit false

/-!
# The objects that the entry parser creates

`ta_atom_entry_set_from_iks` again, with the objects that it creates in memory and without their
texts: the IRIs, persons, categories, contents and in-reply-to objects begin with a reference of the
parser, are handed to setters and to functions that add to lists, which take another one, and are
let go on some of the ways out.

## Main definitions

* `Taningia.Refs.RefParse`, `Taningia.Refs.RefFlow` — the state of a call, and what a part of it
  leads to.
* `Taningia.Refs.newIriFrom`, `Taningia.Refs.refuse` — a new IRI with its text, and a way out.
* `Taningia.Refs.entryRefs` — the parser.
-/

namespace Taningia.Refs

variable {N : Type}

/-! ## Parts of a call -/

/-- The state of a call: the objects in memory, and the error record of the thread. -/
structure RefParse where
  world : World
  err : ErrState

/-- How a call ends: it returns a value, reads, changes or lets go of an object that is not in
memory, or is another fault. -/
inductive RefExit where
  | returns (value : ℤ) (s : RefParse)
  | dangling
  | fault

/-- What a part of a call leads to: it goes on, or ends the call. -/
abbrev RefFlow (S : Type) := Except RefExit S

/-- A call that creates an object or is about one. -/
def RefParse.call (s : RefParse) (c : Call) : RefFlow RefParse :=
  match step s.world c with
  | some w => .ok { s with world := w }
  | none => .error .dangling

/-- A call of the error functions. -/
def RefParse.errorCall (s : RefParse) (call : ErrorCall) : RefFlow RefParse :=
  match errStateStep s.err call with
  | some err => .ok { s with err := err }
  | none => .error .fault

/-- `ta_error_set (TA_ATOM_PARSING_ERROR, message)`, `ta_object_unref` of the objects and
`return 0`. -/
def refuse {S : Type} (s : RefParse) (message : String) (objects : List ℕ) : RefFlow S := do
  let s ← s.errorCall (.set taAtomParsingError [.text message.toList])
  let s ← objects.foldlM (fun s a => s.call (.objectUnref a)) s
  .error (.returns 0 s)

/-- `ta_error_set` with the message of `ta_error_last ()`, and `ta_error_clear`. -/
def RefParse.reportLast (s : RefParse) (what : String) : RefFlow RefParse :=
  match s.err.last with
  | none => .error .fault
  | some _ => do
    let s ← s.errorCall (.set taAtomParsingError [.text what.toList, .lastMessage])
    s.errorCall .clear

/-- `strcmp` with the result of `iks_name`, which must not be `NULL`. -/
def refNameIs (x : Iksemel N) (n : N) (name : String) : RefFlow Bool :=
  match x.name n with
  | some s => .ok (decide (s = name.toList))
  | none => .error .fault

/-- `ta_iri_set_from_string`, with what it returns. When it fails, it sets its error. -/
def setIri (text : Str) (iri : ℕ) (s : RefParse) : RefFlow (ℤ × RefParse) := do
  let s ← s.call (.setString iri)
  let call := iriSetFromString Taningia.iriNew text s.err.last
  if call.status = taOk then pure (call.status, s)
  else
    match call.err with
    | none => pure (call.status, s)
    | some error => do
      let s ← s.errorCall (.set error.code [.text error.message])
      pure (call.status, s)

/-- `ta_iri_new` and `ta_iri_set_from_string`: the IRI, and what the second returned. -/
def newIriFrom (text : Str) (s : RefParse) : RefFlow (ℕ × ℤ × RefParse) := do
  let iri := s.world.size
  let s ← s.call .iriNew
  let (status, s) ← setIri text iri s
  pure (iri, status, s)

/-! ## The fields of an entry -/

/-- The test of the root element. -/
def parseRoot (x : Iksemel N) (ik : N) (s : RefParse) : RefFlow Unit := do
  if !(← refNameIs x ik "entry") || !x.hasChildren ik then
    refuse s "Wrong root entry element" []

/-- The required fields. An id that is not stored keeps its reference, unless it is refused. -/
def parseRequired (x : Iksemel N) (p : ℕ) (ik : N) (s : RefParse) : RefFlow RefParse :=
  match x.findCdata ik "id".toList with
  | none => refuse s "No <id> element found" []
  | some id => do
    let (eid, status, s) ← newIriFrom id s
    if cNot status then refuse s "Invalid <id> iri" [eid]
    else
      match x.findCdata ik "title".toList with
      | none => refuse s "No <title> element found" []
      | some _ => do
        let s ← s.call (.set .entrySetId p eid)
        s.call (.setString p)

/-- The optional fields that are a text or a date. -/
def parseOptional (x : Iksemel N) (p : ℕ) (ik : N) (s : RefParse) : RefFlow RefParse :=
  ["updated", "published", "summary", "rights"].foldlM
    (fun s name => if x.findCdata ik name.toList ≠ none then s.call (.setString p) else pure s) s

/-- The content's text. -/
def parseText (x : Iksemel N) (content : N) (scontent : Option Str) (ct : ℕ) (s : RefParse) :
    RefFlow RefParse :=
  match scontent with
  | some _ => s.call (.contentSetContent ct true (x.cdataSize (x.children content).head?))
  | none => pure s

/-- The content's source. -/
def parseSrc (src : Option Str) (ct : ℕ) (s : RefParse) : RefFlow RefParse :=
  match src with
  | none => pure s
  | some src => do
    let (srci, status, s) ← newIriFrom src s
    if cNot status then refuse s "Invalid iri in content src attribute" [srci, ct]
    else s.call (.contentSetSrc ct srci)

/-- The content element. -/
def parseContent (x : Iksemel N) (p : ℕ) (ik : N) (s : RefParse) : RefFlow RefParse :=
  match x.find ik "content".toList with
  | none => pure s
  | some content =>
    let src := x.findAttrib content "src".toList
    let scontent := x.findCdata ik "content".toList
    if src ≠ none ∧ scontent ≠ none then
      refuse s "Invalid content, it has the src attribute set and content tag is filled" []
    else if src = none ∧ scontent = none then pure s
    else do
      let ct := s.world.size
      let s ← s.call .contentNew
      let s ← parseText x content scontent ct s
      let s ← parseSrc src ct s
      let s ← parseText x content scontent ct s
      s.call (.set .entrySetContent p ct)

/-! ## The children of an entry -/

/-- A child with a required text and an optional IRI. -/
def parsePart (required : Option Str) (missing : String) (iri : Option Str) (invalid : String)
    (bare : RefParse → RefFlow RefParse) (add : ℕ → RefParse → RefFlow RefParse) (s : RefParse) :
    RefFlow RefParse :=
  match required with
  | none => refuse s missing []
  | some _ =>
    match iri with
    | none => bare s
    | some text => do
      let (iri, status, s) ← newIriFrom text s
      if cNot status then refuse s invalid [iri] else add iri s

/-- The author with the IRI is added. -/
def addNewAuthor (p iri : ℕ) (s : RefParse) : RefFlow RefParse := do
  let author := s.world.size
  let s ← s.call (.personNew (some iri))
  s.call (.add .entryAddAuthor p author)

/-- The author with a fresh IRI is added. -/
def addBareAuthor (p : ℕ) (s : RefParse) : RefFlow RefParse := do
  let iri := s.world.size
  let s ← s.call .iriNew
  addNewAuthor p iri s

/-- The category with the IRI is added. -/
def addNewCategory (p : ℕ) (iri : Option ℕ) (s : RefParse) : RefFlow RefParse := do
  let cat := s.world.size
  let s ← s.call (.categoryNew iri)
  s.call (.add .entryAddCategory p cat)

/-- An author. -/
def parseAuthor (x : Iksemel N) (p : ℕ) (child : N) : RefParse → RefFlow RefParse :=
  parsePart (x.findCdata child "name".toList) "Author with no name"
    (x.findCdata child "uri".toList) "Author with an invalid iri in uri field"
    (addBareAuthor p) (addNewAuthor p)

/-- A category. -/
def parseCategory (x : Iksemel N) (p : ℕ) (child : N) : RefParse → RefFlow RefParse :=
  parsePart (x.findAttrib child "term".toList) "Category with no term attribute"
    (x.findAttrib child "scheme".toList) "Category scheme attribute is not a valid iri"
    (addNewCategory p none) fun iri => addNewCategory p (some iri)

/-- An optional IRI of an in-reply-to element. A `!` that holds reports through `ta_error_last ()`,
clears the record and lets go of the object, but goes on. -/
def parseReplyIri (attrib : Option Str) (what : String) (set : Setter) (irt : ℕ) (s : RefParse) :
    RefFlow RefParse :=
  match attrib with
  | none => pure s
  | some text => do
    let (iri, status, s) ← newIriFrom text s
    if cNot status then do
      let s ← s.reportLast what
      s.call (.objectUnref irt)
    else s.call (.set set irt iri)

/-- What is read behind the ref. -/
def parseReplyRest (x : Iksemel N) (child : N) (irt : ℕ) (s : RefParse) : RefFlow RefParse := do
  let s ← parseReplyIri (x.findAttrib child "href".toList)
    "InReplyTo element with an invalid href attribute: " .inReplyToSetHref irt s
  let s ← parseReplyIri (x.findAttrib child "source".toList)
    "InReplyTo element with an invalid source attribute: " .inReplyToSetSource irt s
  if x.findAttrib child "type".toList ≠ none then s.call (.setString irt) else pure s

/-- An in-reply-to element. The object is stored nowhere. -/
def parseInReplyTo (x : Iksemel N) (child : N) (s : RefParse) : RefFlow RefParse :=
  match x.findAttrib child "ref".toList with
  | none => refuse s "InReplyTo element with no ref attribute." []
  | some ref => do
    let (iri, status, s) ← newIriFrom ref s
    if cNot status then do
      let s ← s.reportLast "InReplyTo element with an invalid ref attribute: "
      .error (.returns 0 s)
    else do
      let irt := s.world.size
      let s ← s.call (.inReplyToNew iri)
      parseReplyRest x child irt s

/-- One turn of the loop over the children. -/
def parseChild (x : Iksemel N) (p : ℕ) (s : RefParse) (child : N) : RefFlow RefParse := do
  let s ← if ← refNameIs x child "author" then parseAuthor x p child s else pure s
  let s ← if ← refNameIs x child "category" then parseCategory x p child s else pure s
  if ← refNameIs x child "in-reply-to" then parseInReplyTo x child s else pure s

/-- The body of `ta_atom_entry_set_from_iks`. -/
def parseEntry (x : Iksemel N) (p : ℕ) (ik : N) (s : RefParse) : RefFlow RefParse := do
  parseRoot x ik s
  let s ← parseRequired x p ik s
  let s ← parseOptional x p ik s
  let s ← parseContent x p ik s
  (x.children ik).foldlM (parseChild x p) s

/-- `ta_atom_entry_set_from_iks` for the entry at `p`. -/
def entryRefs (x : Iksemel N) (p : ℕ) (s : RefParse) (ik : N) : RefExit :=
  match parseEntry x p ik s with
  | .ok s => .returns 1 s
  | .error e => e

end Taningia.Refs
