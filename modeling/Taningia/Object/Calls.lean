import Taningia.Lib.Machine
import Taningia.Object.Basic

set_option relaxedAutoImplicit false
set_option autoImplicit false

/-!
# The calls that take and let go of references

The constructors, the setters, the functions that add to lists and empty them, and a caller that
takes and lets go of references of its own.

## Main definitions

* `Taningia.Refs.setField`, `Taningia.Refs.appendTo`, `Taningia.Refs.emptyList` — the bodies that
  most of the functions have.
* `Taningia.Refs.World`, `Taningia.Refs.Call`, `Taningia.Refs.step` — one call.
* `Taningia.Refs.Legal` — what callers promise.
* `Taningia.Refs.Careful` — the calls that do not come upon what the functions do wrong.
-/

namespace Taningia.Refs

open RefCount

/-! ## Setters -/

/-- `if (x->f) ta_object_unref (x->f); x->f = ta_object_ref (a);` -/
def setField (f : RefSlot) (h : AtomMemory) (p a : ℕ) : Option AtomMemory := do
  let old ← (h.obj p).bind f.get
  let h ← unrefField h old
  let h ← objectRef h a
  h.write p fun o => f.set o (some a)

/-- `if (x->f) ta_object_unref (x->f); x->f = NULL;` -/
def clearField (f : RefSlot) (h : AtomMemory) (p : ℕ) : Option AtomMemory := do
  let old ← (h.obj p).bind f.get
  let h ← unrefField h old
  h.write p fun o => f.set o none

/-- `ta_atom_in_reply_to_set_ref` -/
def inReplyToSetRef := setField replyRef

/-- `ta_atom_in_reply_to_set_href` -/
def inReplyToSetHref := setField replyHref

/-- `ta_atom_in_reply_to_set_source` -/
def inReplyToSetSource := setField replySource

/-- `ta_atom_link_set_href` -/
def linkSetHref := setField linkHref

/-- `ta_atom_person_set_iri` -/
def personSetIri := setField personIri

/-- `ta_atom_category_set_scheme`, which also takes `NULL`. -/
def categorySetScheme (h : AtomMemory) (p : ℕ) : Option ℕ → Option AtomMemory
  | some a => setField categoryScheme h p a
  | none => clearField categoryScheme h p

/-- `ta_atom_entry_set_id` -/
def entrySetId := setField entryId

/-- `ta_atom_entry_set_content` -/
def entrySetContent := setField entryContent

/-- `ta_atom_feed_set_id` -/
def feedSetId := setField feedId

/-- The content with another text pointer. -/
def setText (text : TextPtr) : AtomObj → AtomObj
  | .content _ src => .content text src
  | o => o

/-- `ta_atom_content_set_src`. Only with a source before is the text released. -/
def contentSetSrc (h : AtomMemory) (p a : ℕ) : Option AtomMemory := do
  match ← h.obj p with
  | .content text (some old) =>
    let h ← objectUnref h old
    text.free
    let h ← h.write p (setText .null)
    let h ← objectRef h a
    h.write p fun o => contentSrc.set o (some a)
  | .content _ none =>
    let h ← objectRef h a
    h.write p fun o => contentSrc.set o (some a)
  | _ => none

/-- `ta_atom_content_set_content`. The text before is released, and its address stays when there is
no new text, which is also so for a text of length zero. -/
def contentSetContent (h : AtomMemory) (p : ℕ) (text : Bool) (len : ℕ) : Option AtomMemory := do
  match ← h.obj p with
  | .content .null _ =>
    if text && len != 0 then h.write p (setText .owned) else some h
  | .content old _ =>
    old.free
    let h ← h.write p (setText .freed)
    let h ← if text then clearField contentSrc h p else some h
    if text && len != 0 then h.write p (setText .owned) else some h
  | _ => none

/-- The setters of strings and dates, such as `ta_atom_link_set_title`, and `ta_iri_set_scheme` and
the like. The ones of a simple element release the string before. -/
def setString (h : AtomMemory) (p : ℕ) : Option AtomMemory := do
  match ← h.obj p with
  | .simpleElement strings =>
    strings.free
    some h
  | _ => some h

/-! ## Lists -/

/-- `x->list = ta_list_append (x->list, ta_object_ref (a));` -/
def appendTo (f : ListSlot) (h : AtomMemory) (p a : ℕ) : Option AtomMemory := do
  let h ← objectRef h a
  let list ← (h.obj p).bind f.get
  let data ← list.walk
  h.write p fun o => f.set o (.nodes (data ++ [a]))

/-- A loop that lets go of the data of a list, `ta_list_free (x->list)`, and `x->list = NULL;`. -/
def emptyList (f : ListSlot) (h : AtomMemory) (p : ℕ) : Option AtomMemory := do
  let list ← (h.obj p).bind f.get
  let data ← list.walk
  let h ← objectUnrefAll h data
  h.write p fun o => f.set o (.nodes [])

/-- `ta_atom_person_add_see` -/
def personAddSee := appendTo personExtElements

/-- `ta_atom_entry_add_author` -/
def entryAddAuthor := appendTo entryAuthors

/-- `ta_atom_entry_add_category` -/
def entryAddCategory := appendTo entryCategories

/-- `ta_atom_entry_add_link` -/
def entryAddLink := appendTo entryLinks

/-- `ta_atom_entry_add_see` -/
def entryAddSee := appendTo entryExtElements

/-- `ta_atom_entry_add_inreplyto` -/
def entryAddInreplyto := appendTo entryInReplyTo

/-- `ta_atom_feed_add_author` -/
def feedAddAuthor := appendTo feedAuthors

/-- `ta_atom_feed_add_category` -/
def feedAddCategory := appendTo feedCategories

/-- `ta_atom_feed_add_link` -/
def feedAddLink := appendTo feedLinks

/-- `ta_atom_feed_add_entry` -/
def feedAddEntry := appendTo feedEntries

/-- `ta_atom_person_del_see` -/
def personDelSee := emptyList personExtElements

/-- `ta_atom_entry_del_authors` -/
def entryDelAuthors := emptyList entryAuthors

/-- `ta_atom_entry_del_categories` -/
def entryDelCategories := emptyList entryCategories

/-- `ta_atom_entry_del_links` -/
def entryDelLinks := emptyList entryLinks

/-- `ta_atom_feed_del_authors` -/
def feedDelAuthors := emptyList feedAuthors

/-- `ta_atom_feed_del_categories` -/
def feedDelCategories := emptyList feedCategories

/-- `ta_atom_feed_del_links` -/
def feedDelLinks := emptyList feedLinks

/-- `ta_atom_feed_del_entries` -/
def feedDelEntries := emptyList feedEntries

/-- `ta_atom_simple_element_free` called from outside: the strings are released, the element and its
count stay. -/
def releaseStrings (h : AtomMemory) (a : ℕ) : Option AtomMemory := do
  match ← h.obj a with
  | .simpleElement strings =>
    strings.free
    h.write a fun _ => .simpleElement .freed
  | _ => none

/-- `ta_atom_entry_del_see`, which calls the destructor of the elements and not `ta_object_unref`.
-/
def entryDelSee (h : AtomMemory) (p : ℕ) : Option AtomMemory := do
  let list ← (h.obj p).bind entryExtElements.get
  let data ← list.walk
  let h ← data.foldlM releaseStrings h
  h.write p fun o => entryExtElements.set o (.nodes [])

/-- `ta_list_free (entry->in_reply_to); entry->ext_elements = NULL;`. The address of the nodes
stays. -/
def forgetReplies (data : List ℕ) (o : AtomObj) : AtomObj :=
  entryExtElements.set (entryInReplyTo.set o (if data = [] then .nodes [] else .freed)) (.nodes [])

/-- `ta_atom_entry_del_inreplyto`, which resets `ext_elements` and not `in_reply_to`. -/
def entryDelInreplyto (h : AtomMemory) (p : ℕ) : Option AtomMemory := do
  let list ← (h.obj p).bind entryInReplyTo.get
  let data ← list.walk
  let h ← objectUnrefAll h data
  h.write p (forgetReplies data)

/-! ## Calls -/

/-- The objects in memory, the number of objects created so far, and the references that the caller
holds. -/
structure World where
  heap : AtomMemory
  size : ℕ
  held : ℕ → ℕ

/-- No object was created. -/
def World.start : World := ⟨⟨fun _ => none, []⟩, 0, fun _ => 0⟩

/-- The caller has a new object. -/
def World.create (w : World) (o : AtomObj) : World :=
  ⟨w.heap.alloc w.size o, w.size + 1, addRefs w.held [w.size]⟩

/-- The same, when a reference was taken for the object. -/
def World.createWith (w : World) (h : Option AtomMemory) (o : AtomObj) : Option World :=
  h.map fun h => { w with heap := h }.create o

/-- `a ? ta_object_ref (a) : NULL` -/
def refOptional (h : AtomMemory) : Option ℕ → Option AtomMemory
  | some a => objectRef h a
  | none => some h

/-- `ta_iri_new` -/
def iriNew (w : World) : World := w.create .iri

/-- `ta_atom_simple_element_new` -/
def simpleElementNew (w : World) : World := w.create (.simpleElement .owned)

/-- `ta_atom_in_reply_to_new` -/
def inReplyToNew (w : World) (ref : ℕ) : Option World :=
  w.createWith (objectRef w.heap ref) (.inReplyTo (some ref) none none)

/-- `ta_atom_link_new`, which stores `href` without a reference. -/
def linkNew (w : World) (href : ℕ) : World := w.create (.link (some href))

/-- `ta_atom_content_new` -/
def contentNew (w : World) : World := w.create (.content .null none)

/-- `ta_atom_person_new` -/
def personNew (w : World) (iri : Option ℕ) : Option World :=
  w.createWith (refOptional w.heap iri) (.person iri [])

/-- `ta_atom_category_new` -/
def categoryNew (w : World) (scheme : Option ℕ) : Option World :=
  w.createWith (refOptional w.heap scheme) (.category scheme)

/-- `ta_atom_entry_new`, which does not assign `ext_elements`. -/
def entryNew (w : World) : World := w.create (.entry ⟨none, [], [], [], none, .unset, .nodes []⟩)

/-- `ta_atom_feed_new`, which does not assign `links`. -/
def feedNew (w : World) : World := w.create (.feed ⟨none, [], [], [], .unset⟩)

/-- The setters with the body `setField`. -/
inductive Setter where
  | inReplyToSetRef | inReplyToSetHref | inReplyToSetSource | linkSetHref | personSetIri
  | entrySetId | entrySetContent | feedSetId
deriving DecidableEq, Repr

/-- The function of a setter. -/
def Setter.call : Setter → AtomMemory → ℕ → ℕ → Option AtomMemory
  | .inReplyToSetRef => Refs.inReplyToSetRef
  | .inReplyToSetHref => Refs.inReplyToSetHref
  | .inReplyToSetSource => Refs.inReplyToSetSource
  | .linkSetHref => Refs.linkSetHref
  | .personSetIri => Refs.personSetIri
  | .entrySetId => Refs.entrySetId
  | .entrySetContent => Refs.entrySetContent
  | .feedSetId => Refs.feedSetId

/-- The field of a setter. -/
def Setter.field : Setter → RefSlot
  | .inReplyToSetRef => replyRef
  | .inReplyToSetHref => replyHref
  | .inReplyToSetSource => replySource
  | .linkSetHref => linkHref
  | .personSetIri => personIri
  | .entrySetId => entryId
  | .entrySetContent => entryContent
  | .feedSetId => feedId

/-- The functions with the body `appendTo`. -/
inductive Adder where
  | personAddSee | entryAddAuthor | entryAddCategory | entryAddLink | entryAddSee
  | entryAddInreplyto
  | feedAddAuthor | feedAddCategory | feedAddLink | feedAddEntry
deriving DecidableEq, Repr

/-- The function of an adder. -/
def Adder.call : Adder → AtomMemory → ℕ → ℕ → Option AtomMemory
  | .personAddSee => Refs.personAddSee
  | .entryAddAuthor => Refs.entryAddAuthor
  | .entryAddCategory => Refs.entryAddCategory
  | .entryAddLink => Refs.entryAddLink
  | .entryAddSee => Refs.entryAddSee
  | .entryAddInreplyto => Refs.entryAddInreplyto
  | .feedAddAuthor => Refs.feedAddAuthor
  | .feedAddCategory => Refs.feedAddCategory
  | .feedAddLink => Refs.feedAddLink
  | .feedAddEntry => Refs.feedAddEntry

/-- The list of an adder. -/
def Adder.list : Adder → ListSlot
  | .personAddSee => personExtElements
  | .entryAddAuthor => entryAuthors
  | .entryAddCategory => entryCategories
  | .entryAddLink => entryLinks
  | .entryAddSee => entryExtElements
  | .entryAddInreplyto => entryInReplyTo
  | .feedAddAuthor => feedAuthors
  | .feedAddCategory => feedCategories
  | .feedAddLink => feedLinks
  | .feedAddEntry => feedEntries

/-- The functions with the body `emptyList`. -/
inductive Deleter where
  | personDelSee | entryDelAuthors | entryDelCategories | entryDelLinks | feedDelAuthors
  | feedDelCategories | feedDelLinks | feedDelEntries
deriving DecidableEq, Repr

/-- The function of a deleter. -/
def Deleter.call : Deleter → AtomMemory → ℕ → Option AtomMemory
  | .personDelSee => Refs.personDelSee
  | .entryDelAuthors => Refs.entryDelAuthors
  | .entryDelCategories => Refs.entryDelCategories
  | .entryDelLinks => Refs.entryDelLinks
  | .feedDelAuthors => Refs.feedDelAuthors
  | .feedDelCategories => Refs.feedDelCategories
  | .feedDelLinks => Refs.feedDelLinks
  | .feedDelEntries => Refs.feedDelEntries

/-- The list of a deleter. -/
def Deleter.list : Deleter → ListSlot
  | .personDelSee => personExtElements
  | .entryDelAuthors => entryAuthors
  | .entryDelCategories => entryCategories
  | .entryDelLinks => entryLinks
  | .feedDelAuthors => feedAuthors
  | .feedDelCategories => feedCategories
  | .feedDelLinks => feedLinks
  | .feedDelEntries => feedEntries

/-- A call. The object that it is about is `p`, and the object that is stored is `a`. -/
inductive Call where
  | iriNew
  | simpleElementNew
  | inReplyToNew (ref : ℕ)
  | linkNew (href : ℕ)
  | contentNew
  | personNew (iri : Option ℕ)
  | categoryNew (scheme : Option ℕ)
  | entryNew
  | feedNew
  | set (f : Setter) (p a : ℕ)
  | categorySetScheme (p : ℕ) (scheme : Option ℕ)
  | contentSetSrc (p a : ℕ)
  | contentSetContent (p : ℕ) (text : Bool) (len : ℕ)
  | setString (p : ℕ)
  | add (f : Adder) (p a : ℕ)
  | del (f : Deleter) (p : ℕ)
  | entryDelSee (p : ℕ)
  | entryDelInreplyto (p : ℕ)
  | objectRef (a : ℕ)
  | objectUnref (a : ℕ)
deriving DecidableEq, Repr

/-- The world after a call that returned nothing. -/
def World.after (w : World) (h : Option AtomMemory) : Option World :=
  h.map fun h => { w with heap := h }

/-- The references of the caller without one to `a`. -/
def letOne (held : ℕ → ℕ) (a : ℕ) : ℕ → ℕ := Function.update held a (held a - 1)

/-- One call. -/
def step (w : World) : Call → Option World
  | .iriNew => some (iriNew w)
  | .simpleElementNew => some (simpleElementNew w)
  | .inReplyToNew ref => inReplyToNew w ref
  | .linkNew href => some (linkNew w href)
  | .contentNew => some (contentNew w)
  | .personNew iri => personNew w iri
  | .categoryNew scheme => categoryNew w scheme
  | .entryNew => some (entryNew w)
  | .feedNew => some (feedNew w)
  | .set f p a => w.after (f.call w.heap p a)
  | .categorySetScheme p scheme => w.after (categorySetScheme w.heap p scheme)
  | .contentSetSrc p a => w.after (contentSetSrc w.heap p a)
  | .contentSetContent p text len => w.after (contentSetContent w.heap p text len)
  | .setString p => w.after (setString w.heap p)
  | .add f p a => w.after (f.call w.heap p a)
  | .del f p => w.after (f.call w.heap p)
  | .entryDelSee p => w.after (entryDelSee w.heap p)
  | .entryDelInreplyto p => w.after (entryDelInreplyto w.heap p)
  | .objectRef a => (objectRef w.heap a).map fun h =>
      { w with heap := h, held := addRefs w.held [a] }
  | .objectUnref a => (objectUnref w.heap a).map fun h =>
      { w with heap := h, held := letOne w.held a }

/-! ## Callers -/

/-- There is an object of the kind at the address. -/
def IsKind (h : AtomMemory) (a : ℕ) (k : Kind) : Prop := (h.obj a).map AtomObj.kind = some k

/-- **What callers promise**: the arguments are objects in memory of the types that the function
has, and references are let go only by those who hold them. -/
def Legal (w : World) : Call → Prop
  | .iriNew | .simpleElementNew | .contentNew | .entryNew | .feedNew => True
  | .inReplyToNew a | .linkNew a => IsKind w.heap a .iri
  | .personNew iri | .categoryNew iri => ∀ a ∈ iri, IsKind w.heap a .iri
  | .set f p a => IsKind w.heap p f.field.owner ∧ IsKind w.heap a f.field.item
  | .categorySetScheme p scheme =>
    IsKind w.heap p .category ∧ ∀ a ∈ scheme, IsKind w.heap a .iri
  | .contentSetSrc p a => IsKind w.heap p .content ∧ IsKind w.heap a .iri
  | .contentSetContent p _ _ => IsKind w.heap p .content
  | .setString p => w.heap.obj p ≠ none
  | .add f p a => IsKind w.heap p f.list.owner ∧ IsKind w.heap a f.list.item
  | .del f p => IsKind w.heap p f.list.owner
  | .entryDelSee p | .entryDelInreplyto p => IsKind w.heap p .entry
  | .objectRef a => w.heap.obj a ≠ none
  | .objectUnref a => 0 < w.held a

/-- There is room for one more reference. -/
def HasRoom (h : AtomMemory) (a : ℕ) : Prop := ∀ c, h.count a = some c → c < atomLayout.maxCount

/-- There is more than one reference. -/
def HasOther (h : AtomMemory) (a : ℕ) : Prop := ∀ c, h.count a = some c → 1 < c

/-- The objects that no reference of the caller reaches are freed whole. -/
def LosesWhole (h : AtomMemory) (held : ℕ → ℕ) : Prop :=
  ∀ a o, h.obj a = some o → ¬ Reaches atomLayout h held a → o.FreedWhole

/-- When a field is assigned the object that it has, there is another reference to it. Otherwise
there is room for a reference, and what is lost with the field is freed whole. IRIs always are. -/
def CanSet (f : RefSlot) (h : AtomMemory) (held : ℕ → ℕ) (p a : ℕ) : Prop :=
  ∀ o, h.obj p = some o →
    if f.get o = some (some a) then HasOther h a
    else HasRoom h a ∧ (f.item ≠ .iri → LosesWhole (h.setObj p (f.set o none)) held)

/-- **The calls that do not come upon a defect.** -/
def Careful (w : World) : Call → Prop
  | .iriNew | .simpleElementNew | .contentNew | .entryNew | .feedNew => True
  | .linkNew _ => False
  | .inReplyToNew a => HasRoom w.heap a
  | .personNew iri | .categoryNew iri => ∀ a ∈ iri, HasRoom w.heap a
  | .set f p a => CanSet f.field w.heap w.held p a
  | .categorySetScheme p scheme => ∀ a ∈ scheme, CanSet categoryScheme w.heap w.held p a
  | .contentSetSrc p a =>
    CanSet contentSrc w.heap w.held p a ∧ ∀ src, w.heap.obj p ≠ some (.content .freed (some src))
  | .contentSetContent p _ _ => ∀ src, w.heap.obj p ≠ some (.content .freed src)
  | .setString p => w.heap.obj p ≠ some (.simpleElement .freed)
  | .add f p a => HasRoom w.heap a ∧
    ∀ o list, w.heap.obj p = some o → f.list.get o = some list → list.walk ≠ none
  | .del f p => ∀ o list, w.heap.obj p = some o → f.list.get o = some list →
    list.walk ≠ none ∧ LosesWhole (w.heap.setObj p (f.list.set o (.nodes []))) w.held
  | .entryDelSee p => ∀ e, w.heap.obj p = some (.entry e) → e.extElements = .nodes []
  | .entryDelInreplyto p => ∀ e, w.heap.obj p = some (.entry e) →
    e.inReplyTo.walk ≠ none ∧ e.extElements.items = [] ∧
      LosesWhole (w.heap.setObj p (forgetReplies e.inReplyTo.items (.entry e))) w.held
  | .objectRef a => HasRoom w.heap a
  | .objectUnref a => LosesWhole w.heap (letOne w.held a)

end Taningia.Refs
