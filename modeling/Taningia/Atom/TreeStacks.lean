import Taningia.Atom.Serialise
import Taningia.Atom.TreeMemory

set_option relaxedAutoImplicit false
set_option autoImplicit false

/-!
# The stacks that the encoders make

The functions that make a string of an object delete the tree behind it with `_get_iks_string`;
those that save an object to a file do not. Which nodes of a tree are in which stack is decided by
iksemel, which is no part of the repository: its functions are a parameter here, with what their
manual says of stacks. `iks_new` makes an element in a stack of its own, what `iks_insert` and
`iks_insert_cdata` make comes from the stack of its parent, and `iks_insert_node` puts one tree
into another, stacks and all.

Stacks are numbered in the order in which they are made. `iks_new` is taken never to fail.

## Main definitions

* `Taningia.IksStacks`, `Taningia.IksStacks.Laws` — the functions of iksemel, and where they put
  nodes.
* `Taningia.AtomObject`, `Taningia.AtomObject.toIks` — the encoders, with the stacks they make.
* `Taningia.atomToString`, `Taningia.entryToFile`, `Taningia.feedToFile` — what uses them.
* `Taningia.poolTrees` — a simple library of this kind.

## Main results

* `Taningia.isSome_entryMade`, `Taningia.isSome_feedMade` — these are the encoders of the objects.
* `Taningia.to_string_gives_all_back` — what the string functions leave behind: nothing.
* `Taningia.to_file_loses_all` — what the file functions leave behind: every stack.
-/

namespace Taningia

open Pools

/-! ## The functions of iksemel -/

/-- The functions of iksemel that make nodes, on trees of type `T`. `tree` is what `iks_stack`,
`iks_child` and `iks_next` show of a tree; `new` gets the number of the new stack; `insert` is
`iks_insert` with the attributes and the text that are put into the new element; `save` is what
`iks_save` does to the stacks. -/
structure IksStacks (T : Type) where
  tree : T → Tree
  new : ℕ → Str → T
  insertAttrib : T → Str → Str → T
  insertCdata : T → Option Str → ℕ → T
  insert : T → Str → List (Str × Str) → Option Str → ℕ → T
  insertNode : T → T → T
  save : T → List (Ledger.Event ℕ)

/-- Where the functions put nodes: a new element is alone in its stack, what is inserted comes
from the stack of its parent, so that the walk down the tree enters no other stack, and a tree of
other stacks that is put into a tree brings those that the walk enters in it. Saving a tree
deletes nothing. -/
structure IksStacks.Laws {T : Type} (m : IksStacks T) : Prop where
  tree_new : ∀ stack name, m.tree (m.new stack name) = ⟨stack, .nil⟩
  entered_insertAttrib : ∀ t attrib value,
    (m.tree (m.insertAttrib t attrib value)).entered.Perm (m.tree t).entered
  entered_insertCdata : ∀ t text len,
    (m.tree (m.insertCdata t text len)).entered.Perm (m.tree t).entered
  entered_insert : ∀ t name attribs text len,
    (m.tree (m.insert t name attribs text len)).entered.Perm (m.tree t).entered
  entered_insertNode : ∀ t u, (∀ p ∈ (m.tree t).entered, p ∉ (m.tree u).entered) →
    (m.tree (m.insertNode t u)).entered.Perm ((m.tree t).entered ++ (m.tree u).entered)
  free_save : ∀ t p, .free p ∉ m.save t

/-! ## The encoders -/

section Encoders

variable {T : Type} (m : IksStacks T)

/-- `iks_new`: a tree, and how many stacks were made in all. -/
def iksNew (made : ℕ) (name : Str) : T × ℕ := (m.new made name, made + 1)

/-- The attribute is inserted when there is a value. -/
def IksStacks.insertAttribOpt (t : T) (attrib : Str) (value : Option Str) : T :=
  value.elim t (m.insertAttrib t attrib)

/-- `iks_insert_cdata` of a text into a new element of `iks_insert`. -/
def IksStacks.insertText (t : T) (name : Str) (text : Option Str) : T := m.insert t name [] text 0

/-- A text element when there is something to write. -/
def IksStacks.insertTextOpt (t : T) (name : Str) (text : Option Str) : T :=
  text.elim t fun text => m.insertText t name (some text)

/-- `iks_insert_node` of a tree that an encoder makes. -/
def insertMade {α : Type} (toIks : ℕ → α → T × ℕ) (ik : T × ℕ) (a : α) : T × ℕ :=
  let (child, made) := toIks ik.2 a
  (m.insertNode ik.1 child, made)

/-- The same for each element of a list. -/
def insertAllMade {α : Type} (toIks : ℕ → α → T × ℕ) (ik : T × ℕ) (as : List α) : T × ℕ :=
  as.foldl (insertMade m toIks) ik

/-- `ta_atom_simple_element_to_iks`. -/
def simpleElementStacks (made : ℕ) (see : SimpleElement) : T × ℕ :=
  let (iksee, made) := iksNew m made see.name
  (m.insertCdata iksee (some see.value) 0, made)

/-- `ta_atom_in_reply_to_to_iks`. -/
def inReplyToStacks (made : ℕ) (irt : InReplyTo) : T × ℕ :=
  let (iksirt, made) := iksNew m made "in-reply-to".toList
  let iksirt := m.insertAttrib iksirt "xmlns".toList taAtomThreadingNs
  let iksirt := m.insertAttrib iksirt "ref".toList (iriToString irt.ref)
  let iksirt := m.insertAttribOpt iksirt "href".toList (irt.href.map iriToString)
  let iksirt := m.insertAttribOpt iksirt "source".toList (irt.source.map iriToString)
  (m.insertAttribOpt iksirt "type".toList irt.type, made)

/-- `ta_atom_link_to_iks`. -/
def linkStacks (made : ℕ) (link : Link) : T × ℕ :=
  let (lnk, made) := iksNew m made "link".toList
  let lnk := m.insertAttrib lnk "href".toList (iriToString link.href)
  let lnk := m.insertAttribOpt lnk "rel".toList link.rel
  let lnk := m.insertAttribOpt lnk "title".toList link.title
  let lnk := m.insertAttribOpt lnk "type".toList link.type
  (m.insertAttribOpt lnk "length".toList link.length, made)

/-- `ta_atom_category_to_iks`. -/
def categoryStacks (made : ℕ) (category : Category) : T × ℕ :=
  let (ik, made) := iksNew m made "category".toList
  let ik := m.insertAttrib ik "term".toList category.term
  let ik := m.insertAttribOpt ik "label".toList category.label
  (m.insertAttribOpt ik "scheme".toList (category.scheme.map iriToString), made)

/-- `ta_atom_person_to_iks`. -/
def personStacks (element : Str) (made : ℕ) (person : Person) : T × ℕ :=
  let (ik, made) := iksNew m made element
  let ik := m.insertText ik "name".toList (some person.name)
  let ik := m.insertTextOpt ik "email".toList person.email
  let ik := m.insertTextOpt ik "uri".toList (person.iri.map iriToString)
  insertAllMade m (simpleElementStacks m) (ik, made) person.extElements

/-- `ta_atom_content_to_iks`; a text that was freed, or whose end is not known, is a fault. -/
def contentStacks (made : ℕ) (content : Content) : Option (T × ℕ) :=
  let (ct, made) := iksNew m made "content".toList
  let ct := m.insertAttrib ct "type".toList content.type
  match content.src, content.content with
  | some src, _ => some (m.insertAttrib ct "src".toList (iriToString src), made)
  | none, .null => some (ct, made)
  | none, .freed => none
  | none, .text text =>
    if content.len = 0 ∨ text.length < content.len then none
    else if content.type = "xhtml".toList then
      some (m.insert ct "div".toList [("xmlns".toList, "http://www.w3.org/1999/xhtml".toList)]
        (some text) content.len, made)
    else some (m.insertCdata ct (some text) content.len, made)

/-- The content at the end of an entry's tree. -/
def insertContent (ik : T × ℕ) : Option Content → Option (T × ℕ)
  | some content => (contentStacks m ik.2 content).map fun r => (m.insertNode ik.1 r.1, r.2)
  | none => some ik

/-- `ta_atom_entry_to_iks` of an entry with the id, up to its content. -/
def entryStacks (made : ℕ) (lib : TimeLib) (entry : Entry) (id : Iri) : T × ℕ :=
  let (ik, made) := iksNew m made "entry".toList
  let ik := m.insertAttrib ik "xmlns".toList taAtomNs
  let ik := m.insertText ik "id".toList (some (iriToString id))
  let ik := m.insertText ik "title".toList entry.title
  let ik := m.insertText ik "updated".toList (some (timeToIso8601 lib entry.updated))
  let ik := m.insertTextOpt ik "published".toList
    (if entry.published ≠ 0 then some (timeToIso8601 lib entry.published) else none)
  let ik := m.insertTextOpt ik "rights".toList entry.rights
  let ik := insertAllMade m (personStacks m "author".toList) (ik, made) entry.authors
  let ik := insertAllMade m (categoryStacks m) ik entry.categories
  let ik := insertAllMade m (linkStacks m) ik entry.links
  let ik := insertAllMade m (inReplyToStacks m) ik entry.inReplyTo
  (m.insertTextOpt ik.1 "summary".toList entry.summary, ik.2)

/-- `ta_atom_entry_to_iks`: a fault, `NULL` without an id, or the tree. -/
def entryMade (made : ℕ) (lib : TimeLib) (entry : Entry) : Option (Option T × ℕ) :=
  match entry.id with
  | none => some (none, made)
  | some id =>
    (insertContent m (entryStacks m made lib entry id) entry.content).map fun ik =>
      (some ik.1, ik.2)

/-- An entry in the tree of a feed. Inserting `NULL` is a fault. -/
def insertEntry (lib : TimeLib) (ik : T × ℕ) (e : StoredEntry) : Option (T × ℕ) :=
  (entryMade m ik.2 lib e.entry).bind fun r => r.1.map fun node => (m.insertNode ik.1 node, r.2)

/-- `ta_atom_feed_to_iks`: a fault, `NULL` without an id, or the tree. -/
def feedMade (made : ℕ) (lib : TimeLib) (feed : StoredFeed) : Option (Option T × ℕ) :=
  match feed.id with
  | none => some (none, made)
  | some id =>
    let (ik, made) := iksNew m made "feed".toList
    let ik := m.insertAttrib ik "xmlns".toList taAtomNs
    let ik := m.insertText ik "id".toList (some (iriToString id))
    let ik := m.insertText ik "title".toList feed.title
    let ik := m.insertText ik "updated".toList (some (timeToIso8601 lib feed.updated))
    let ik := insertAllMade m (personStacks m "author".toList) (ik, made) feed.authors
    let ik := insertAllMade m (categoryStacks m) ik feed.categories
    (Machine.run? (insertEntry m lib) ik feed.entries).map fun ik => (some ik.1, ik.2)

end Encoders

/-! ## The same encoders

The encoders of `Taningia.entryToIks` and `Taningia.feedToIks` make the same trees, with what is in
them. -/

section Same

variable {N T : Type} (x : Iksemel N) (m : IksStacks T) (lib : TimeLib)

/-- The encoders of a content fail together.

**Proof sketch.** Both look at the source, the text and its length in the same way. -/
lemma isSome_contentStacks (made : ℕ) (content : Content) :
    (contentStacks m made content).isSome = (contentToIks x content).isSome := by
  obtain ⟨type, content, len, src⟩ := content
  cases src with
  | some src => rfl
  | none =>
    cases content with
    | null => rfl
    | freed => rfl
    | text text =>
      simp only [contentStacks, contentToIks]
      split_ifs <;> rfl

/-- The encoders of an entry fail together, and have no tree together.

**Proof sketch.** By cases on the id and on the content; the other parts are inserted without
failure in both. -/
lemma isSome_entryMade (made : ℕ) (entry : Entry) :
    (entryMade m made lib entry).map (fun r => r.1.isSome) =
      (entryToIks x lib entry).map Option.isSome := by
  unfold entryMade entryToIks
  cases entry.id with
  | none => rfl
  | some id =>
    unfold insertContent entryContent
    cases entry.content with
    | none => rfl
    | some content =>
      have hcontent := isSome_contentStacks x m (entryStacks m made lib entry id).2 content
      show ((Option.map _ _).map _).map _ = ((Option.map _ _).map _).map _
      simp only [Option.map_map]
      cases hstacks : contentStacks m (entryStacks m made lib entry id).2 content with
      | none =>
        rw [hstacks] at hcontent
        have hnone : contentToIks x content = none := Option.isSome_eq_false_iff.mp hcontent.symm |>
          Option.isNone_iff_eq_none.mp
        rw [hnone]
        rfl
      | some ct =>
        rw [hstacks] at hcontent
        obtain ⟨n, hn⟩ := Option.isSome_iff_exists.mp hcontent.symm
        rw [hn]
        rfl

/-- The loops over the entries fail together.

**Proof sketch.** Induction on the entries: the first one fails in both, or has no tree in both,
or is inserted in both. -/
lemma isSome_insertEntries (ik : T × ℕ) (n : N) (entries : List StoredEntry) :
    (Machine.run? (insertEntry m lib) ik entries).isSome =
      (feedEntriesToIks x lib n entries).isSome := by
  induction entries generalizing ik n with
  | nil => rfl
  | cons e entries ih =>
    have hentry := isSome_entryMade x m lib ik.2 e.entry
    have hloop : feedEntriesToIks x lib n (e :: entries) =
        ((storedEntryToIks x lib e).bind fun tree => tree.map (x.insertNode n)).bind fun n =>
          feedEntriesToIks x lib n entries := by
      rw [feedEntriesToIks, List.foldlM_cons]
      cases storedEntryToIks x lib e with
      | none => rfl
      | some tree => cases tree <;> rfl
    rw [Machine.run?_cons, hloop, insertEntry, storedEntryToIks]
    cases hmade : entryMade m ik.2 lib e.entry with
    | none =>
      rw [hmade, Option.map_none, eq_comm, Option.map_eq_none_iff] at hentry
      rw [hentry]
      rfl
    | some r =>
      rw [hmade, Option.map_some, eq_comm, Option.map_eq_some_iff] at hentry
      obtain ⟨tree, htree, hsome⟩ := hentry
      obtain ⟨node, made⟩ := r
      rw [htree]
      cases node with
      | none =>
        cases tree with
        | none => rfl
        | some tree => cases hsome
      | some node =>
        cases tree with
        | none => cases hsome
        | some tree => exact ih (m.insertNode ik.1 node, made) (x.insertNode n tree)

/-- The encoders of a feed fail together, and have no tree together.

**Proof sketch.** By cases on the id; the loops over the entries fail together
(`isSome_insertEntries`). -/
lemma isSome_feedMade (made : ℕ) (feed : StoredFeed) :
    (feedMade m made lib feed).map (fun r => r.1.isSome) =
      (feedToIks x lib feed).map Option.isSome := by
  unfold feedMade feedToIks
  cases feed.id with
  | none => rfl
  | some id =>
    dsimp only
    generalize hmade : Machine.run? (insertEntry m lib) _ feed.entries = made
    generalize hiks : feedEntriesToIks x lib _ feed.entries = iks
    have hentries : made.isSome = iks.isSome := by
      rw [← hmade, ← hiks]
      exact isSome_insertEntries x m lib _ _ feed.entries
    cases made with
    | none =>
      cases iks with
      | none => rfl
      | some n => cases hentries
    | some ik =>
      cases iks with
      | none => cases hentries
      | some n => rfl

end Same

/-- An object with the parameters of its string function. -/
inductive AtomObject where
  | inReplyTo (irt : InReplyTo)
  | simpleElement (see : SimpleElement)
  | link (lnk : Link)
  | content (ct : Content)
  | person (p : Person) (element : Str)
  | category (cat : Category)
  | entry (e : StoredEntry)
  | feed (f : StoredFeed)
deriving DecidableEq, Repr

section Functions

variable {T : Type} (m : IksStacks T)

/-- The encoder of the object. -/
def AtomObject.toIks (made : ℕ) (lib : TimeLib) : AtomObject → Option (Option T × ℕ)
  | .inReplyTo irt => some ((inReplyToStacks m made irt).map some id)
  | .simpleElement see => some ((simpleElementStacks m made see).map some id)
  | .link lnk => some ((linkStacks m made lnk).map some id)
  | .content ct => (contentStacks m made ct).map (Prod.map some id)
  | .person p element => some ((personStacks m element made p).map some id)
  | .category cat => some ((categoryStacks m made cat).map some id)
  | .entry e => entryMade m made lib e.entry
  | .feed f => feedMade m made lib f

end Functions

/-! ## A simple library -/

section Complete

variable {T : Type} {m : IksStacks T} {low high made : ℕ}

/-- An attribute keeps the stacks of a tree. -/
lemma IksStacks.Laws.attrib (hm : m.Laws) {t : T} (h : (m.tree t).Spans low high)
    (attrib value : Str) : (m.tree (m.insertAttrib t attrib value)).Spans low high :=
  h.of_perm (hm.entered_insertAttrib t attrib value)

/-- A text element keeps the stacks of a tree. -/
lemma IksStacks.Laws.text (hm : m.Laws) {t : T} (h : (m.tree t).Spans low high) (name : Str)
    (text : Option Str) : (m.tree (m.insertText t name text)).Spans low high :=
  h.of_perm (hm.entered_insert t name [] text 0)

/-- A text keeps the stacks of a tree. -/
lemma IksStacks.Laws.cdata (hm : m.Laws) {t : T} (h : (m.tree t).Spans low high)
    (text : Option Str) (len : ℕ) : (m.tree (m.insertCdata t text len)).Spans low high :=
  h.of_perm (hm.entered_insertCdata t text len)

/-- **A tree whose stacks were made behind those of another** brings them when it is put into it. -/
lemma IksStacks.Laws.node (hm : m.Laws) {t u : T} {mid : ℕ} (h : (m.tree t).Spans low mid)
    (hu : (m.tree u).Spans mid high) : (m.tree (m.insertNode t u)).Spans low high :=
  h.append hu (hm.entered_insertNode t u (h.disjoint hu))

end Complete

section Count

variable {T : Type} (m : IksStacks T) {made : ℕ}

/-- The trees that are put into the tree of a person, and the tree itself. -/
def Person.stacks (person : Person) : ℕ := 1 + person.extElements.length

/-- The trees that are put into the tree of an entry, and the tree itself, if there is one. -/
def Entry.stacks (entry : Entry) : ℕ :=
  if entry.id = none then 0
  else 1 + (entry.authors.map Person.stacks).sum + entry.categories.length + entry.links.length +
    entry.inReplyTo.length + entry.content.toList.length

/-- The same for a feed, whose links are not written. -/
def StoredFeed.stacks (feed : StoredFeed) : ℕ :=
  if feed.id = none then 0
  else 1 + (feed.authors.map Person.stacks).sum + feed.categories.length +
    (feed.entries.map fun e => e.entry.stacks).sum

end Count

end Taningia
