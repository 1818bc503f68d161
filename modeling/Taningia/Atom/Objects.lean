import Taningia.Atom.Iksemel
import Taningia.Iri.Basic

set_option relaxedAutoImplicit false
set_option autoImplicit false

/-!
# The Atom objects and their encoders

`src/atom.c`: persons, categories, links, in-reply-to elements, contents and entries, each with a
function that builds its tree. Objects hold each other through references; here an object holds the
value of what it refers to.

## Main definitions

* `Taningia.Person`, `Taningia.Category`, `Taningia.Link`, `Taningia.InReplyTo`, `Taningia.Content`,
  `Taningia.Entry` — the objects.
* `Taningia.contentSetContent`, `Taningia.contentSetSrc` — the two setters of a content.
* `Taningia.entryToIks` — the encoder of an entry, with those of its parts.

## Main results

* `Taningia.entryToIks_id` — what the parser finds first in the tree of an entry.
-/

namespace Taningia

variable {N : Type}

/-- `TA_ATOM_NS`. -/
def taAtomNs : Str := "http://www.w3.org/2005/Atom".toList

/-- `TA_ATOM_THREADING_NS`. -/
def taAtomThreadingNs : Str := "http://purl.org/syndication/thread/1.0".toList

/-- The attribute is inserted when there is a value. -/
def Iksemel.insertAttribOpt (x : Iksemel N) (n : N) (attrib : Str) (value : Option Str) : N :=
  value.elim n (x.insertAttrib n attrib)

/-! ## Simple elements -/

/-- `ta_atom_simple_element_t`. -/
structure SimpleElement where
  name : Str
  value : Str
deriving DecidableEq, Repr

/-- `ta_atom_simple_element_to_iks`. -/
def simpleElementToIks (x : Iksemel N) (see : SimpleElement) : N :=
  x.insertCdata (x.new see.name) (some see.value) 0

/-! ## In-reply-to elements -/

/-- `ta_atom_in_reply_to_t`. -/
structure InReplyTo where
  ref : Iri
  href : Option Iri
  source : Option Iri
  type : Option Str
deriving DecidableEq, Repr

/-- `ta_atom_in_reply_to_new`. -/
def inReplyToNew (ref : Iri) : InReplyTo := ⟨ref, none, none, none⟩

/-- `ta_atom_in_reply_to_to_iks`. -/
def inReplyToToIks (x : Iksemel N) (irt : InReplyTo) : N :=
  let iksirt := x.insertAttrib (x.new "in-reply-to".toList) "xmlns".toList taAtomThreadingNs
  let iksirt := x.insertAttrib iksirt "ref".toList (iriToString irt.ref)
  let iksirt := x.insertAttribOpt iksirt "href".toList (irt.href.map iriToString)
  let iksirt := x.insertAttribOpt iksirt "source".toList (irt.source.map iriToString)
  x.insertAttribOpt iksirt "type".toList irt.type

/-! ## Links -/

/-- `ta_atom_link_t`. -/
structure Link where
  href : Iri
  title : Option Str
  rel : Option Str
  type : Option Str
  length : Option Str
deriving DecidableEq, Repr

/-- `ta_atom_link_to_iks`. -/
def linkToIks (x : Iksemel N) (link : Link) : N :=
  let lnk := x.insertAttrib (x.new "link".toList) "href".toList (iriToString link.href)
  let lnk := x.insertAttribOpt lnk "rel".toList link.rel
  let lnk := x.insertAttribOpt lnk "title".toList link.title
  let lnk := x.insertAttribOpt lnk "type".toList link.type
  x.insertAttribOpt lnk "length".toList link.length

/-! ## Persons -/

/-- `ta_atom_person_t`. -/
structure Person where
  name : Str
  email : Option Str
  iri : Option Iri
  extElements : List SimpleElement
deriving DecidableEq, Repr

/-- `ta_atom_person_new`. -/
def personNew (name : Str) (email : Option Str) (iri : Option Iri) : Person :=
  ⟨name, email, iri, []⟩

/-- `ta_atom_person_to_iks`. -/
def personToIks (x : Iksemel N) (person : Person) (element : Str) : N :=
  let ik := x.new element
  let ik := x.insertNode ik (x.textNode "name".toList (some person.name))
  let ik := x.insertOpt (fun email => x.textNode "email".toList (some email)) ik person.email
  let ik := x.insertOpt (fun iri => x.textNode "uri".toList (some (iriToString iri))) ik person.iri
  x.insertAll (simpleElementToIks x) ik person.extElements

/-! ## Categories -/

/-- `ta_atom_category_t`. -/
structure Category where
  label : Option Str
  term : Str
  scheme : Option Iri
deriving DecidableEq, Repr

/-- `ta_atom_category_new`. -/
def categoryNew (term : Str) (label : Option Str) (scheme : Option Iri) : Category :=
  ⟨label, term, scheme⟩

/-- `ta_atom_category_to_iks`. -/
def categoryToIks (x : Iksemel N) (category : Category) : N :=
  let ik := x.insertAttrib (x.new "category".toList) "term".toList category.term
  let ik := x.insertAttribOpt ik "label".toList category.label
  x.insertAttribOpt ik "scheme".toList (category.scheme.map iriToString)

/-! ## Contents -/

/-- A `char *` of an object: `NULL`, a block of its own with letters and no NUL behind them, or one
that was freed. -/
inductive OwnedStr where
  | null
  | text (s : Str)
  | freed
deriving DecidableEq, Repr

/-- `ta_atom_content_t`. Its `len` is an `int` that no function makes negative, and the lengths stay
within `int`. -/
structure Content where
  type : Str
  content : OwnedStr
  len : ℕ
  src : Option Iri
deriving DecidableEq, Repr

/-- `ta_atom_content_new`. -/
def contentNew (type : Option Str) : Content := ⟨type.getD "text".toList, .null, 0, none⟩

/-- `ta_atom_content_set_src`. The text goes only when the content had a source before. -/
def contentSetSrc (content : Content) (src : Iri) : Option Content :=
  match content.src, content.content with
  | some _, .freed => none
  | some _, _ => some { content with content := .null, src := some src }
  | none, _ => some { content with src := some src }

/-- The first part of `ta_atom_content_set_content`: an old text is freed, and the source goes only
with it. The pointer stays. -/
def contentFreeContent (content : Content) (text : Option Str) : Option Content :=
  match content.content with
  | .null => some content
  | .text _ =>
    some { content with content := .freed, src := if text ≠ none then none else content.src }
  | .freed => none

/-- `ta_atom_content_set_content`. Neither the field `len` nor a closing NUL is written: the last
byte of the new block stays as `malloc` left it. -/
def contentSetContent (content : Content) (text : Option Str) (len : ℕ) : Option Content :=
  (contentFreeContent content text).map fun content =>
    match text with
    | some text =>
      if len ≠ 0 then { content with content := .text (text.take len) } else content
    | none => content

/-- A new content has the length zero. -/
@[simp] lemma len_contentNew (type : Option Str) : (contentNew type).len = 0 := rfl

/-- The setter of the source leaves the length as it is. -/
lemma len_contentSetSrc {content content' : Content} {src : Iri}
    (h : contentSetSrc content src = some content') : content'.len = content.len := by
  unfold contentSetSrc at h
  split at h
  · cases h
  · exact Option.some.inj h ▸ rfl
  · exact Option.some.inj h ▸ rfl

/-- **So does the setter of the text**: a content that was made by these functions has the length
`0`, whatever text it stores.

**Proof sketch.** Both branches of the function, and what it frees first, write to other fields. -/
lemma len_contentSetContent {content content' : Content} {text : Option Str} {len : ℕ}
    (h : contentSetContent content text len = some content') : content'.len = content.len := by
  obtain ⟨freed, hfreed, rfl⟩ := Option.map_eq_some_iff.mp h
  have hlen : freed.len = content.len := by
    unfold contentFreeContent at hfreed
    split at hfreed
    · exact Option.some.inj hfreed ▸ rfl
    · exact Option.some.inj hfreed ▸ rfl
    · cases hfreed
  cases text with
  | none => exact hlen
  | some text =>
    dsimp only
    split_ifs
    · exact hlen
    · exact hlen

/-- `ta_atom_content_to_iks`. A freed text is a fault. So is a length of `0`, for which
`iks_insert_cdata` looks for the NUL that the text does not have, and a length behind its end. -/
def contentToIks (x : Iksemel N) (content : Content) : Option N :=
  let ct := x.insertAttrib (x.new "content".toList) "type".toList content.type
  match content.src, content.content with
  | some src, _ => some (x.insertAttrib ct "src".toList (iriToString src))
  | none, .null => some ct
  | none, .freed => none
  | none, .text text =>
    if content.len = 0 ∨ text.length < content.len then none
    else if content.type = "xhtml".toList then
      let divel := x.insertAttrib (x.new "div".toList) "xmlns".toList
        "http://www.w3.org/1999/xhtml".toList
      some (x.insertNode ct (x.insertCdata divel (some text) content.len))
    else some (x.insertCdata ct (some text) content.len)

/-! ## Entries -/

/-- `ta_atom_entry_t`. -/
structure Entry where
  id : Option Iri
  title : Option Str
  updated : ℤ
  published : ℤ
  rights : Option Str
  authors : List Person
  categories : List Category
  links : List Link
  summary : Option Str
  content : Option Content
  inReplyTo : List InReplyTo
deriving DecidableEq, Repr

/-- `ta_atom_entry_new` at the time `now`. -/
def entryNew (title : Option Str) (now : ℤ) : Entry where
  id := none
  title := title
  updated := now
  published := 0
  rights := none
  authors := []
  categories := []
  links := []
  summary := none
  content := none
  inReplyTo := []

/-- The part of the tree that every entry with an id has. -/
def entryRequired (x : Iksemel N) (lib : TimeLib) (entry : Entry) (id : Iri) : N :=
  let ik := x.insertAttrib (x.new "entry".toList) "xmlns".toList taAtomNs
  let ik := x.insertNode ik (x.textNode "id".toList (some (iriToString id)))
  let ik := x.insertNode ik (x.textNode "title".toList entry.title)
  x.insertNode ik (x.textNode "updated".toList (some (timeToIso8601 lib entry.updated)))

/-- The parts of the tree that an entry may have, up to the summary. -/
def entryOptional (x : Iksemel N) (lib : TimeLib) (entry : Entry) (ik : N) : N :=
  let ik := x.insertOpt (fun published => x.textNode "published".toList
    (some (timeToIso8601 lib published))) ik
    (if entry.published ≠ 0 then some entry.published else none)
  let ik := x.insertOpt (fun rights => x.textNode "rights".toList (some rights)) ik entry.rights
  let ik := x.insertAll (fun author => personToIks x author "author".toList) ik entry.authors
  let ik := x.insertAll (categoryToIks x) ik entry.categories
  let ik := x.insertAll (linkToIks x) ik entry.links
  let ik := x.insertAll (inReplyToToIks x) ik entry.inReplyTo
  x.insertOpt (fun summary => x.textNode "summary".toList (some summary)) ik entry.summary

/-- The content of an entry at the end of its tree. -/
def entryContent (x : Iksemel N) (entry : Entry) (ik : N) : Option N :=
  match entry.content with
  | some content => (contentToIks x content).map fun ct => x.insertNode ik ct
  | none => some ik

/-- `ta_atom_entry_to_iks`: a fault, `NULL` without an id, or the tree. -/
def entryToIks (x : Iksemel N) (lib : TimeLib) (entry : Entry) : Option (Option N) :=
  match entry.id with
  | none => some none
  | some id =>
    (entryContent x entry (entryOptional x lib entry (entryRequired x lib entry id))).map some

/-! ## What every entry's tree begins with -/

/-- The optional fields are inserted behind what is there.

**Proof sketch.** Each of the insertions extends the node (`extends_insertOpt`,
`extends_insertAll`), and extensions compose. -/
lemma Iksemel.Laws.extends_entryOptional {x : Iksemel N} (hx : x.Laws) (lib : TimeLib)
    (entry : Entry) {ik : N} (hik : x.name ik ≠ none) :
    x.Extends ik (entryOptional x lib entry ik) := by
  have hnext : ∀ {n n'}, x.Extends ik n → x.Extends n n' → x.Extends ik n' := fun h h' => h.trans h'
  have hname : ∀ {n}, x.Extends ik n → x.name n ≠ none := fun h => by rwa [h.name]
  unfold entryOptional
  have h₁ := hx.extends_insertOpt (fun published => x.textNode "published".toList
    (some (timeToIso8601 lib published))) hik
    (if entry.published ≠ 0 then some entry.published else none)
  have h₂ := hnext h₁ (hx.extends_insertOpt (fun rights => x.textNode "rights".toList
    (some rights)) (hname h₁) entry.rights)
  have h₃ := hnext h₂ (hx.extends_insertAll (fun author => personToIks x author "author".toList)
    (hname h₂) entry.authors)
  have h₄ := hnext h₃ (hx.extends_insertAll (categoryToIks x) (hname h₃) entry.categories)
  have h₅ := hnext h₄ (hx.extends_insertAll (linkToIks x) (hname h₄) entry.links)
  have h₆ := hnext h₅ (hx.extends_insertAll (inReplyToToIks x) (hname h₅) entry.inReplyTo)
  exact hnext h₆ (hx.extends_insertOpt (fun summary => x.textNode "summary".toList (some summary))
    (hname h₆) entry.summary)

/-- So is the content. -/
lemma Iksemel.Laws.extends_entryContent {x : Iksemel N} (hx : x.Laws) (entry : Entry) {ik ik' : N}
    (hik : x.name ik ≠ none) (h : entryContent x entry ik = some ik') : x.Extends ik ik' := by
  unfold entryContent at h
  split at h
  · obtain ⟨ct, -, rfl⟩ := Option.map_eq_some_iff.mp h
    exact hx.extends_insertNode hik ct
  · exact Option.some.inj h ▸ Iksemel.Extends.refl x ik

/-- **The tree of an entry** is an `entry` element with children, and its `id` element has the
printed id of the entry.

**Proof sketch.** The root is made with its `id` element, and everything behind extends the
root, so its name stays and the `id` element is the first child with that name. -/
lemma entryToIks_id {x : Iksemel N} (hx : x.Laws) {lib : TimeLib} {entry : Entry} {id : Iri}
    (hid : entry.id = some id) (htext : iriToString id ≠ []) {ik : N}
    (h : entryToIks x lib entry = some (some ik)) :
    x.name ik = some "entry".toList ∧ x.hasChildren ik = true ∧
      x.findCdata ik "id".toList = some (iriToString id) := by
  set root := x.insertAttrib (x.new "entry".toList) "xmlns".toList taAtomNs with hroot
  set idNode := x.textNode "id".toList (some (iriToString id)) with hidNode
  have hrootName : x.name root = some "entry".toList := by
    rw [hroot, hx.name_insertAttrib, hx.name_new]
  have hne : ∀ {n}, x.Extends root n → x.name n ≠ none := fun h => by simp [h.name, hrootName]
  -- the tree grows out of the root with the `id` element
  have hbase : x.Extends root (x.insertNode root idNode) :=
    hx.extends_insertNode (hne (Iksemel.Extends.refl x root)) idNode
  have hchildren : x.children (x.insertNode root idNode) = [idNode] := by
    rw [hx.children_insertNode root idNode (hne (Iksemel.Extends.refl x root)), hroot,
      hx.children_insertAttrib, hx.children_new, List.nil_append]
  have hgrows : x.Extends (x.insertNode root idNode) ik := by
    unfold entryToIks at h
    rw [hid] at h
    obtain ⟨ik', hcontent, hik⟩ := Option.map_eq_some_iff.mp h
    obtain rfl := Option.some.inj hik
    have h₁ := hx.extends_insertNode (hne hbase) (x.textNode "title".toList entry.title)
    have h₂ := hx.extends_insertNode (hne (hbase.trans h₁)) (x.textNode "updated".toList
      (some (timeToIso8601 lib entry.updated)))
    have hrequired : x.Extends (x.insertNode root idNode) (entryRequired x lib entry id) :=
      h₁.trans h₂
    have hoptional := hx.extends_entryOptional lib entry (hne (hbase.trans hrequired))
    have hend := hx.extends_entryContent entry
      (hne (hbase.trans (hrequired.trans hoptional))) hcontent
    exact hrequired.trans (hoptional.trans hend)
  obtain ⟨rest, hrest⟩ := hgrows.children
  rw [hchildren, List.singleton_append] at hrest
  have hidName : x.name idNode = some "id".toList := by
    rw [hidNode, Iksemel.textNode, hx.name_insertCdata, hx.name_new]
  refine ⟨?_, ?_, ?_⟩
  · rw [hgrows.name, hbase.name, hrootName]
  · rw [hx.hasChildren_iff, ← hrest]
    simp
  · refine hx.findCdata_insertCdata ik "id".toList _ htext ?_
    rw [hx.find_eq, ← hrest, List.find?_cons_of_pos (by simp [hidName])]
    rfl

end Taningia
