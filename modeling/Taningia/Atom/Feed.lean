import Taningia.Atom.EntryParse

set_option relaxedAutoImplicit false
set_option autoImplicit false

/-!
# Reading an Atom feed

`src/atom.c`, `ta_atom_feed_set_from_iks`: like an entry, a feed is filled from a tree field by
field. The entries among the children are read by the entry parser, whose return value is ignored:
an entry is kept when `ta_error_last ()` is `NULL` behind the call, and otherwise the record is
cleared.

The release of objects is not modelled. An empty entry element makes the entry parser delete the
tree that the loop is walking over, and the next step of the loop is a fault then.

## Main definitions

* `Taningia.Feed`, `Taningia.feedNew` — feeds.
* `Taningia.FeedParse`, `Taningia.FeedFlow` — the state of a call, and what a part of it leads to.
* `Taningia.readFeedEntry` — an entry child.
* `Taningia.feedSetFromIks` — the parser.
-/

namespace Taningia

variable {N : Type}

/-- `ta_atom_feed_t`, without the two fields that are read by none of these functions. -/
structure Feed where
  id : Option Iri
  title : Option Str
  updated : ℤ
  authors : List Person
  categories : List Category
  entries : List Entry
deriving DecidableEq, Repr

/-- `ta_atom_feed_new` at the time `now`. -/
def feedNew (title : Option Str) (now : ℤ) : Feed where
  id := none
  title := title
  updated := now
  authors := []
  categories := []
  entries := []

/-- The state of a call: the feed, the error record of the thread, the nodes deleted, and the number
of entries created. -/
structure FeedParse (N : Type) where
  feed : Feed
  err : ErrState
  deleted : List N
  created : ℕ

instance : HasRecord (FeedParse N) := ⟨FeedParse.err, fun s err => { s with err := err }⟩

/-- The record of the feed parser. -/
@[simp] lemma err_feedParse (s : FeedParse N) : HasRecord.err s = s.err := rfl

/-- The feed parser with another record. -/
@[simp] lemma withErr_feedParse (s : FeedParse N) (err : ErrState) :
    HasRecord.withErr s err = { s with err := err } := rfl

/-- What a part of a call for a feed leads to. -/
abbrev FeedFlow (N S : Type) := ParseFlow (FeedParse N) S

/-- The test of the root element. -/
def readFeedRoot (x : Iksemel N) (ik : N) (s : FeedParse N) : FeedFlow N Unit := do
  if !(← nameIs x ik "feed") || !x.hasChildren ik then
    parsingError { s with deleted := s.deleted ++ [ik] } "Wrong root feed element"

/-- The required fields: the id and the title. -/
def readFeedRequired (x : Iksemel N) (ik : N) (s : FeedParse N) : FeedFlow N (FeedParse N) :=
  match x.findCdata ik "id".toList with
  | none => parsingError s "No <id> element found"
  | some id => do
    let (call, s) ← readIri iriNew id s
    if cNot call.status then parsingError s "Invalid <id> iri"
    else
      match x.findCdata ik "title".toList with
      | none => parsingError s "No <title> element found"
      | some title =>
        .ok { s with feed := { s.feed with id := some call.iri, title := some title } }

/-- The date of the feed. -/
def readFeedUpdated (x : Iksemel N) (lib : TimeLib) (ik : N) (feed : Feed) : Feed :=
  { feed with
    updated := ((x.findCdata ik "updated".toList).map (iso8601ToTime lib)).getD feed.updated }

/-- An author. Its uri is read twice, into the same IRI, and only the second result is tested. -/
def readFeedAuthor (x : Iksemel N) (child : N) (s : FeedParse N) : FeedFlow N (FeedParse N) :=
  let add := fun (name : Str) (iri : Iri) (s : FeedParse N) =>
    { s with feed := { s.feed with
      authors := s.feed.authors ++
        [personNew name (x.findCdata child "email".toList) (some iri)] } }
  match x.findCdata child "name".toList with
  | none => parsingError s "Author with no name"
  | some name =>
    match x.findCdata child "uri".toList with
    | none => .ok (add name iriNew s)
    | some uri => do
      let (call, s) ← readIri iriNew uri s
      let (call, s) ← readIri call.iri uri s
      if cNot call.status then parsingError s "Author with an invalid iri in uri field"
      else .ok (add name call.iri s)

/-- A category. -/
def readFeedCategory (x : Iksemel N) (child : N) (s : FeedParse N) : FeedFlow N (FeedParse N) :=
  let add := fun (term : Str) (iri : Option Iri) (s : FeedParse N) =>
    { s with feed := { s.feed with
      categories := s.feed.categories ++
        [categoryNew term (x.findAttrib child "label".toList) iri] } }
  match x.findAttrib child "term".toList with
  | none => parsingError s "Category with no term attribute"
  | some term =>
    match x.findAttrib child "scheme".toList with
    | none => .ok (add term none s)
    | some scheme => do
      let (call, s) ← readIri iriNew scheme s
      if cNot call.status then
        parsingError s "Category scheme attribute is not a valid iri"
      else .ok (add term (some call.iri) s)

/-- An entry. The value of the entry parser is ignored. -/
def readFeedEntry (x : Iksemel N) (lib : TimeLib) (clock : ℕ → ℤ) (child : N) (s : FeedParse N) :
    FeedFlow N (FeedParse N) :=
  match entrySetFromIks x lib (entryNew none (clock s.created)) s.err child with
  | none => fault
  | some (_, call) =>
    let s := { s with
      err := call.err, deleted := s.deleted ++ call.deleted, created := s.created + 1 }
    if s.err.last ≠ none then errorCall s .clear
    else .ok { s with feed := { s.feed with entries := s.feed.entries ++ [call.entry] } }

/-- The body of the loop over the children. -/
def readFeedChild (x : Iksemel N) (lib : TimeLib) (clock : ℕ → ℤ) (s : FeedParse N) (child : N) :
    FeedFlow N (FeedParse N) := do
  if ← nameIs x child "author" then readFeedAuthor x child s
  else if ← nameIs x child "category" then readFeedCategory x child s
  else if ← nameIs x child "entry" then readFeedEntry x lib clock child s
  else pure s

/-- One turn of the loop, with the step to the next child. -/
def readFeedTurn (x : Iksemel N) (lib : TimeLib) (clock : ℕ → ℤ) (s : FeedParse N) (child : N) :
    FeedFlow N (FeedParse N) := do
  let s ← readFeedChild x lib clock s child
  if s.deleted.isEmpty then pure s else fault

/-- The body of `ta_atom_feed_set_from_iks`. -/
def readFeed (x : Iksemel N) (lib : TimeLib) (clock : ℕ → ℤ) (ik : N) (s : FeedParse N) :
    FeedFlow N (FeedParse N) := do
  readFeedRoot x ik s
  let s ← readFeedRequired x ik s
  let s := { s with feed := readFeedUpdated x lib ik s.feed }
  (x.children ik).foldlM (readFeedTurn x lib clock) s

/-- `ta_atom_feed_set_from_iks`: the return value with the state, or `none` for a fault. The `i`-th
entry is created at the time `clock i`. -/
def feedSetFromIks (x : Iksemel N) (lib : TimeLib) (clock : ℕ → ℤ) (feed : Feed) (err : ErrState)
    (ik : N) : Option (ℤ × FeedParse N) :=
  match readFeed x lib clock ik ⟨feed, err, [], 0⟩ with
  | .ok s => some (1, s)
  | .error r => r

end Taningia
