import Mathlib.Data.List.Count
import Taningia.Lib.RefMemory

set_option relaxedAutoImplicit false
set_option autoImplicit false

/-!
# The objects of the library as they store each other

The Atom objects and the IRIs begin with a reference count and a destructor. This file has the
fields in which they store each other, the destructors, and `ta_object_ref` and `ta_object_unref`.
Texts and dates are left out, but for the pointers that are released more than once.

## Main definitions

* `Taningia.Refs.AtomObj` — an object with the fields that store objects.
* `Taningia.Refs.atomLayout` — what objects store, and what their destructors let go.
* `Taningia.Refs.objectRef`, `Taningia.Refs.objectUnref` — the functions of `object.c`.
* `Taningia.Refs.Slot` — a field that stores objects.

## Main results

* `Taningia.Refs.sound_iff` — the destructors that let go of everything that their object stores.
-/

namespace Taningia.Refs

open RefCount

/-! ## Objects -/

/-- The kinds of objects. -/
inductive Kind where
  | iri | simpleElement | inReplyTo | link | content | person | category | entry | feed
deriving DecidableEq, Repr

/-- Objects store objects of lower ranks only. -/
def Kind.rank : Kind → ℕ
  | .iri | .simpleElement => 0
  | .inReplyTo | .link | .content | .person | .category => 1
  | .entry => 2
  | .feed => 3

/-- A field `char *`: `NULL`, a text, or the address of a text that was released. -/
inductive TextPtr where
  | null | owned | freed
deriving DecidableEq, Repr

/-- A field `ta_list_t *` that is not always a list: the data of its nodes, none for `NULL`; not
assigned since `malloc`; or the address of nodes that were released. -/
inductive ListPtr where
  | nodes (data : List ℕ)
  | unset
  | freed
deriving DecidableEq, Repr

/-- The objects in the nodes of a list. -/
def ListPtr.items : ListPtr → List ℕ
  | .nodes data => data
  | .unset | .freed => []

/-- A loop over the nodes. A pointer that was not assigned, or whose nodes were released, is a
fault. -/
def ListPtr.walk : ListPtr → Option (List ℕ)
  | .nodes data => some data
  | .unset | .freed => none

/-- `ta_atom_entry_t` -/
structure EntryObj where
  id : Option ℕ
  authors : List ℕ
  categories : List ℕ
  links : List ℕ
  content : Option ℕ
  extElements : ListPtr
  inReplyTo : ListPtr
deriving DecidableEq, Repr

/-- `ta_atom_feed_t` -/
structure FeedObj where
  id : Option ℕ
  authors : List ℕ
  categories : List ℕ
  entries : List ℕ
  links : ListPtr
deriving DecidableEq, Repr

/-- An object, with the addresses of the objects that its fields store. -/
inductive AtomObj where
  | iri
  | simpleElement (strings : TextPtr)
  | inReplyTo (ref href source : Option ℕ)
  | link (href : Option ℕ)
  | content (content : TextPtr) (src : Option ℕ)
  | person (iri : Option ℕ) (extElements : List ℕ)
  | category (scheme : Option ℕ)
  | entry (e : EntryObj)
  | feed (f : FeedObj)
deriving DecidableEq, Repr

/-- The kind of an object. -/
def AtomObj.kind : AtomObj → Kind
  | .iri => .iri
  | .simpleElement _ => .simpleElement
  | .inReplyTo .. => .inReplyTo
  | .link _ => .link
  | .content .. => .content
  | .person .. => .person
  | .category _ => .category
  | .entry _ => .entry
  | .feed _ => .feed

/-- Objects of one kind. -/
def Kind.ofAll (k : Kind) (data : List ℕ) : List (Kind × ℕ) := data.map fun a => (k, a)

/-- The objects in the fields and list slots of an object, with the kinds of the fields. -/
def AtomObj.slots : AtomObj → List (Kind × ℕ)
  | .iri | .simpleElement _ => []
  | .inReplyTo ref href source => Kind.iri.ofAll (ref.toList ++ href.toList ++ source.toList)
  | .link href => Kind.iri.ofAll href.toList
  | .content _ src => Kind.iri.ofAll src.toList
  | .person personIri extElements =>
    Kind.iri.ofAll personIri.toList ++ Kind.simpleElement.ofAll extElements
  | .category scheme => Kind.iri.ofAll scheme.toList
  | .entry e => Kind.iri.ofAll e.id.toList ++ Kind.person.ofAll e.authors ++
      Kind.category.ofAll e.categories ++ Kind.link.ofAll e.links ++
      Kind.content.ofAll e.content.toList ++ Kind.simpleElement.ofAll e.extElements.items ++
      Kind.inReplyTo.ofAll e.inReplyTo.items
  | .feed f => Kind.iri.ofAll f.id.toList ++ Kind.person.ofAll f.authors ++
      Kind.category.ofAll f.categories ++ Kind.entry.ofAll f.entries ++
      Kind.link.ofAll f.links.items

/-- The objects in the fields and list slots of an object. -/
def AtomObj.stores (o : AtomObj) : List ℕ := o.slots.map Prod.snd

/-- The addresses of a list of one kind. -/
@[simp] lemma Kind.map_ofAll (k : Kind) (data : List ℕ) : (k.ofAll data).map Prod.snd = data := by
  simp [Kind.ofAll, Function.comp_def]

/-- The members of a list of one kind. -/
@[simp] lemma Kind.mem_ofAll {k : Kind} {data : List ℕ} {x : Kind × ℕ} :
    x ∈ k.ofAll data ↔ x.2 ∈ data ∧ x.1 = k := by
  obtain ⟨k', a⟩ := x
  simp [Kind.ofAll, eq_comm]

/-! ## Destructors -/

/-- `free (text)`, after a test for `NULL`. A text that was released before is a fault. -/
def TextPtr.free : TextPtr → Option Unit
  | .null | .owned => some ()
  | .freed => none

/-- `ta_atom_in_reply_to_free` -/
def inReplyToFree (ref href source : Option ℕ) : Option (List ℕ) :=
  some (ref.toList ++ href.toList ++ source.toList)

/-- `ta_atom_simple_element_free` -/
def simpleElementFree (strings : TextPtr) : Option (List ℕ) := do
  strings.free
  some []

/-- `ta_atom_link_free` -/
def linkFree (href : Option ℕ) : Option (List ℕ) := some href.toList

/-- `ta_atom_content_free` -/
def contentFree (content : TextPtr) (src : Option ℕ) : Option (List ℕ) := do
  content.free
  some src.toList

/-- `ta_atom_person_free` -/
def personFree (iri : Option ℕ) (extElements : List ℕ) : Option (List ℕ) :=
  some (iri.toList ++ extElements)

/-- `ta_atom_category_free` -/
def categoryFree (scheme : Option ℕ) : Option (List ℕ) := some scheme.toList

/-- `ta_atom_entry_free`, which does not look at the links and the extension elements. -/
def entryFree (e : EntryObj) : Option (List ℕ) := do
  let inReplyTo ← e.inReplyTo.walk
  some (e.id.toList ++ e.authors ++ e.categories ++ inReplyTo ++ e.content.toList)

/-- `ta_atom_feed_free`, which does not look at the links. -/
def feedFree (f : FeedObj) : Option (List ℕ) :=
  some (f.id.toList ++ f.authors ++ f.categories ++ f.entries)

/-- The objects that the destructor lets go, in its order. -/
def AtomObj.destructor : AtomObj → Option (List ℕ)
  | .iri => some []
  | .simpleElement strings => simpleElementFree strings
  | .inReplyTo ref href source => inReplyToFree ref href source
  | .link href => linkFree href
  | .content text src => contentFree text src
  | .person personIri extElements => personFree personIri extElements
  | .category scheme => categoryFree scheme
  | .entry e => entryFree e
  | .feed f => feedFree f

/-- What the objects store and let go. The counts go up to `INT_MAX`. -/
def atomLayout : Layout AtomObj where
  stores := AtomObj.stores
  released := AtomObj.destructor
  rank o := o.kind.rank
  maxCount := 2147483647
  maxCount_pos := by decide

/-- Memory with Atom objects. -/
abbrev AtomMemory := Memory AtomObj

/-- `ta_object_ref`. One more than `INT_MAX` references are a fault. -/
def objectRef (h : AtomMemory) (a : ℕ) : Option AtomMemory := ref atomLayout h a

/-- `ta_object_unref`. Destructors nest to the depth of four kinds of objects. -/
def objectUnref (h : AtomMemory) (a : ℕ) : Option AtomMemory := unref atomLayout 4 h a

/-- A loop that lets go of the objects of a list. -/
def objectUnrefAll (h : AtomMemory) (data : List ℕ) : Option AtomMemory :=
  unrefAll atomLayout 4 h data

/-- `if (field) ta_object_unref (field);` -/
def unrefField (h : AtomMemory) (field : Option ℕ) : Option AtomMemory :=
  match field with
  | some a => objectUnref h a
  | none => some h

/-- To release a field is to release the list of what is in it. -/
lemma unrefField_eq (h : AtomMemory) (field : Option ℕ) :
    unrefField h field = objectUnrefAll h field.toList := by
  cases field with
  | none => rfl
  | some a =>
    rw [unrefField, objectUnrefAll, Option.toList_some, unrefAll, List.foldlM_cons]
    exact (bind_pure (objectUnref h a)).symm

/-- There are four ranks. -/
lemma Kind.rank_lt (k : Kind) : k.rank < 4 := by
  cases k <;> decide

/-- An object of which the destructor lets go of everything that it stores: an entry without links
and extension elements whose list of replies is a list, a feed without links, an object whose texts
were not released before. -/
def AtomObj.FreedWhole : AtomObj → Prop
  | .simpleElement strings => strings ≠ .freed
  | .content text _ => text ≠ .freed
  | .entry e => e.links = [] ∧ e.extElements.items = [] ∧ e.inReplyTo.walk ≠ none
  | .feed f => f.links.items = []
  | _ => True

/-- A text that is there, or `NULL`, can be freed. -/
lemma TextPtr.free_eq {text : TextPtr} (h : text ≠ .freed) : text.free = some () := by
  cases text with
  | null | owned => rfl
  | freed => exact absurd rfl h

/-- A list that can be walked is its items. -/
lemma ListPtr.walk_eq {list : ListPtr} (h : list.walk ≠ none) : list.walk = some list.items := by
  cases list with
  | nodes data => rfl
  | unset | freed => exact absurd rfl h

/-- The destructor of an entry releases what the entry stores where it has no links and no
extension elements, and the list of its replies can be walked.

**Proof sketch.** The two lists are compared by their length: links and extension elements are
stored and not released, so they are empty. With these empty every object comes up as often in
both. -/
lemma entry_sound_iff (e : EntryObj) :
    atomLayout.Sound (.entry e) ↔ (AtomObj.entry e).FreedWhole := by
  constructor
  · rintro ⟨l, hl, hperm⟩
    obtain ⟨replies, hreplies, hl⟩ := Option.bind_eq_some_iff.mp hl
    have hwalk : e.inReplyTo.walk ≠ none := by simp [hreplies]
    obtain rfl : e.inReplyTo.items = replies :=
      Option.some.inj ((ListPtr.walk_eq hwalk).symm.trans hreplies)
    obtain rfl := Option.some.inj hl
    have hlen := hperm.length_eq
    simp only [atomLayout, AtomObj.stores, AtomObj.slots, List.map_append, Kind.map_ofAll,
      List.length_append] at hlen
    refine ⟨List.length_eq_zero_iff.mp ?_, List.length_eq_zero_iff.mp ?_, hwalk⟩ <;> omega
  · rintro ⟨hlinks, hext, hwalk⟩
    refine ⟨_, by simp [atomLayout, AtomObj.destructor, entryFree, ListPtr.walk_eq hwalk]; rfl, ?_⟩
    rw [List.perm_iff_count]
    intro a
    simp only [atomLayout, AtomObj.stores, AtomObj.slots, List.map_append, Kind.map_ofAll, hlinks,
      hext, List.count_append, List.count_nil]
    omega

/-- **What the destructors let go of** is everything but in these cases.

**Proof sketch.** By cases on the object; for the feed the comparison is that of the entry with
the links. -/
lemma sound_iff (o : AtomObj) : atomLayout.Sound o ↔ o.FreedWhole := by
  cases o with
  | entry e => exact entry_sound_iff e
  | feed f =>
    constructor
    · rintro ⟨l, hl, hperm⟩
      obtain rfl := Option.some.inj hl
      have hlen := hperm.length_eq
      simp only [atomLayout, AtomObj.stores, AtomObj.slots, List.map_append, Kind.map_ofAll,
      List.length_append] at hlen
      have hlinks : f.links.items = [] := List.length_eq_zero_iff.mp (by omega)
      exact hlinks
    · intro hlinks
      refine ⟨_, rfl, ?_⟩
      simp [atomLayout, AtomObj.stores, AtomObj.slots, show f.links.items = [] from hlinks]
  | simpleElement text | content text src =>
    constructor
    · rintro ⟨l, hl, -⟩ rfl
      cases hl
    · intro htext
      refine ⟨_, ?_, List.Perm.refl _⟩
      simp [atomLayout, AtomObj.destructor, simpleElementFree, contentFree, AtomObj.stores,
        AtomObj.slots, TextPtr.free_eq htext]
  | iri | inReplyTo ref href source | link href | person personIri extElements | category scheme =>
    exact ⟨fun _ => trivial, fun _ => ⟨_, rfl, by simp [atomLayout, AtomObj.stores, AtomObj.slots]⟩⟩

/-! ## Fields -/

/-- A field of the objects of the kind `owner`, whose value stores `items`, which are of the kind
`item`. It is read and assigned, and what else the object stores does not depend on it. -/
structure Slot (V : Type) (items : V → List ℕ) where
  owner : Kind
  item : Kind
  get : AtomObj → Option V
  set : AtomObj → V → AtomObj
  item_lt : item.rank < owner.rank := by decide
  exists_get : ∀ o, o.kind = owner → ∃ v, get o = some v := by
    rintro ⟨⟩ ⟨⟩
    exact ⟨_, rfl⟩
  kind_of_get : ∀ o v, get o = some v → o.kind = owner := by
    rintro ⟨⟩ _ ⟨⟩
    rfl
  kind_set : ∀ o v, (set o v).kind = o.kind := by
    rintro ⟨⟩ _ <;> rfl
  count_set : ∀ o v w a, get o = some v →
      (set o w).stores.count a + (items v).count a = o.stores.count a + (items w).count a := by
    rintro ⟨⟩ _ w a ⟨⟩ <;> simp [AtomObj.stores, AtomObj.slots, ListPtr.items] <;> omega
  slot_get : ∀ o v a, get o = some v → a ∈ items v → (item, a) ∈ o.slots := by
    rintro ⟨⟩ _ a ⟨⟩ ha <;> simp_all [AtomObj.slots, ListPtr.items]
  slot_set : ∀ o v w x, get o = some v → x ∈ (set o w).slots →
      x ∈ o.slots ∨ x.1 = item ∧ x.2 ∈ items w := by
    rintro ⟨⟩ _ w x ⟨⟩ <;> simp only [AtomObj.slots, List.mem_append, Kind.mem_ofAll] <;> grind

/-- A field that stores one object. -/
abbrev RefSlot := Slot (Option ℕ) Option.toList

/-- A field that stores a list of objects. -/
abbrev ListSlot := Slot ListPtr ListPtr.items

/-- `irt->ref` -/
def replyRef : RefSlot where
  owner := .inReplyTo
  item := .iri
  get | .inReplyTo ref _ _ => some ref | _ => none
  set | .inReplyTo _ href source, v => .inReplyTo v href source | o, _ => o

/-- `irt->href` -/
def replyHref : RefSlot where
  owner := .inReplyTo
  item := .iri
  get | .inReplyTo _ href _ => some href | _ => none
  set | .inReplyTo ref _ source, v => .inReplyTo ref v source | o, _ => o

/-- `irt->source` -/
def replySource : RefSlot where
  owner := .inReplyTo
  item := .iri
  get | .inReplyTo _ _ source => some source | _ => none
  set | .inReplyTo ref href _, v => .inReplyTo ref href v | o, _ => o

/-- `link->href` -/
def linkHref : RefSlot where
  owner := .link
  item := .iri
  get | .link href => some href | _ => none
  set | .link _, v => .link v | o, _ => o

/-- `content->src` -/
def contentSrc : RefSlot where
  owner := .content
  item := .iri
  get | .content _ src => some src | _ => none
  set | .content text _, v => .content text v | o, _ => o

/-- `person->iri` -/
def personIri : RefSlot where
  owner := .person
  item := .iri
  get | .person iri _ => some iri | _ => none
  set | .person _ extElements, v => .person v extElements | o, _ => o

/-- `person->ext_elements` -/
def personExtElements : ListSlot where
  owner := .person
  item := .simpleElement
  get | .person _ extElements => some (.nodes extElements) | _ => none
  set | .person iri _, v => .person iri v.items | o, _ => o

/-- `category->scheme` -/
def categoryScheme : RefSlot where
  owner := .category
  item := .iri
  get | .category scheme => some scheme | _ => none
  set | .category _, v => .category v | o, _ => o

/-- `entry->id` -/
def entryId : RefSlot where
  owner := .entry
  item := .iri
  get | .entry e => some e.id | _ => none
  set | .entry e, v => .entry { e with id := v } | o, _ => o

/-- `entry->authors` -/
def entryAuthors : ListSlot where
  owner := .entry
  item := .person
  get | .entry e => some (.nodes e.authors) | _ => none
  set | .entry e, v => .entry { e with authors := v.items } | o, _ => o

/-- `entry->categories` -/
def entryCategories : ListSlot where
  owner := .entry
  item := .category
  get | .entry e => some (.nodes e.categories) | _ => none
  set | .entry e, v => .entry { e with categories := v.items } | o, _ => o

/-- `entry->links` -/
def entryLinks : ListSlot where
  owner := .entry
  item := .link
  get | .entry e => some (.nodes e.links) | _ => none
  set | .entry e, v => .entry { e with links := v.items } | o, _ => o

/-- `entry->content` -/
def entryContent : RefSlot where
  owner := .entry
  item := .content
  get | .entry e => some e.content | _ => none
  set | .entry e, v => .entry { e with content := v } | o, _ => o

/-- `entry->ext_elements` -/
def entryExtElements : ListSlot where
  owner := .entry
  item := .simpleElement
  get | .entry e => some e.extElements | _ => none
  set | .entry e, v => .entry { e with extElements := v } | o, _ => o

/-- `entry->in_reply_to` -/
def entryInReplyTo : ListSlot where
  owner := .entry
  item := .inReplyTo
  get | .entry e => some e.inReplyTo | _ => none
  set | .entry e, v => .entry { e with inReplyTo := v } | o, _ => o

/-- `feed->id` -/
def feedId : RefSlot where
  owner := .feed
  item := .iri
  get | .feed f => some f.id | _ => none
  set | .feed f, v => .feed { f with id := v } | o, _ => o

/-- `feed->authors` -/
def feedAuthors : ListSlot where
  owner := .feed
  item := .person
  get | .feed f => some (.nodes f.authors) | _ => none
  set | .feed f, v => .feed { f with authors := v.items } | o, _ => o

/-- `feed->categories` -/
def feedCategories : ListSlot where
  owner := .feed
  item := .category
  get | .feed f => some (.nodes f.categories) | _ => none
  set | .feed f, v => .feed { f with categories := v.items } | o, _ => o

/-- `feed->links` -/
def feedLinks : ListSlot where
  owner := .feed
  item := .link
  get | .feed f => some f.links | _ => none
  set | .feed f, v => .feed { f with links := v } | o, _ => o

/-- `feed->entries` -/
def feedEntries : ListSlot where
  owner := .feed
  item := .entry
  get | .feed f => some (.nodes f.entries) | _ => none
  set | .feed f, v => .feed { f with entries := v.items } | o, _ => o

end Taningia.Refs
