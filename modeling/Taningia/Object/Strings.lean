import Taningia.CString
import Taningia.Lib.OwnedFields

set_option relaxedAutoImplicit false
set_option autoImplicit false

/-!
# The strings of the objects

The objects of the library own copies of their strings. A constructor copies some of its arguments
with `strdup`; a setter frees the string of its field and copies its argument; a getter returns
the pointer in the field; the destructor frees the strings, and `ta_object_unref` the object
behind them. A kind of object is a table of this: its fields, what the constructor copies, which
fields have a setter and which functions take null, and what the destructor frees.

`ta_tag_t` has no table here: its setters print a path besides, and its destructor is that of the
IRI in it.

## Main definitions

* `Taningia.StringKind` — the table of a kind of object.
* `Taningia.construct`, `Taningia.setString` — the constructor and the setters of a kind.
* `Taningia.iriStrings`, `Taningia.linkStrings`, `Taningia.entryStrings` and so on — the tables.
* `Taningia.ObjectKind` — the kinds of objects with a table.

## Main results

* `Taningia.object_strings_refine` — the strings of an object over a whole run, to its end.
-/

namespace Taningia

open Machine OwnedFields

/-- What a constructor copies into a field: an argument, an argument that may be null, an argument
or a string in its place when it is null, or a string of its own. -/
inductive Copied where
  | required
  | optional
  | default (s : String)
  | constant (s : String)
deriving DecidableEq, Repr

/-- The string fields of a kind of object. -/
structure StringKind where
  Field : Type
  [decEq : DecidableEq Field]
  /-- What the constructor copies, in this order. -/
  copied : List (Field × Copied)
  /-- The field has a setter. -/
  settable : Field → Bool
  /-- The setter takes null. -/
  nullable : Field → Bool
  /-- What the destructor frees, in this order. -/
  freed : List Field
  freed_nodup : freed.Nodup
  mem_freed : ∀ f, f ∈ freed

attribute [instance] StringKind.decEq

/-- The destructor lists the fields. -/
instance (K : StringKind) : Fintype K.Field := ⟨⟨K.freed, K.freed_nodup⟩, K.mem_freed⟩

/-! ## The kinds of objects -/

inductive IriString where
  | scheme
  | user
  | host
  | path
  | query
  | fragment
deriving DecidableEq, Repr

/-- `ta_iri_init`, `ta_iri_set_*`, `ta_iri_free`. -/
def iriStrings : StringKind where
  Field := IriString
  copied := []
  settable _ := true
  nullable _ := false
  freed := [.scheme, .user, .host, .path, .query, .fragment]
  freed_nodup := by decide
  mem_freed f := by cases f <;> decide

inductive ReplyString where
  | type
deriving DecidableEq, Repr

/-- `ta_atom_in_reply_to_init`, `ta_atom_in_reply_to_set_type`, `ta_atom_in_reply_to_free`. -/
def replyStrings : StringKind where
  Field := ReplyString
  copied := []
  settable _ := true
  nullable _ := false
  freed := [.type]
  freed_nodup := by decide
  mem_freed f := by cases f; decide

inductive ElementString where
  | name
  | value
deriving DecidableEq, Repr

/-- `ta_atom_simple_element_init`, `ta_atom_simple_element_set_*`, `ta_atom_simple_element_free`. -/
def elementStrings : StringKind where
  Field := ElementString
  copied := [(.name, .required), (.value, .required)]
  settable _ := true
  nullable _ := false
  freed := [.name, .value]
  freed_nodup := by decide
  mem_freed f := by cases f <;> decide

inductive LinkString where
  | title
  | rel
  | type
  | length
deriving DecidableEq, Repr

/-- `ta_atom_link_init`, `ta_atom_link_set_*`, `ta_atom_link_free`. -/
def linkStrings : StringKind where
  Field := LinkString
  copied := []
  settable _ := true
  nullable _ := false
  freed := [.title, .rel, .type, .length]
  freed_nodup := by decide
  mem_freed f := by cases f <;> decide

inductive ContentString where
  | type
deriving DecidableEq, Repr

/-- `ta_atom_content_init`, which copies `"text"` for null, `ta_atom_content_set_type`,
`ta_atom_content_free`. -/
def contentStrings : StringKind where
  Field := ContentString
  copied := [(.type, .default "text")]
  settable _ := true
  nullable _ := false
  freed := [.type]
  freed_nodup := by decide
  mem_freed f := by cases f; decide

inductive PersonString where
  | name
  | email
deriving DecidableEq, Repr

/-- `ta_atom_person_init`, `ta_atom_person_set_*`, `ta_atom_person_free`. Only the constructor takes
null. -/
def personStrings : StringKind where
  Field := PersonString
  copied := [(.name, .required), (.email, .optional)]
  settable _ := true
  nullable _ := false
  freed := [.name, .email]
  freed_nodup := by decide
  mem_freed f := by cases f <;> decide

inductive CategoryString where
  | term
  | label
deriving DecidableEq, Repr

/-- `ta_atom_category_init`, `ta_atom_category_set_*`, `ta_atom_category_free`. -/
def categoryStrings : StringKind where
  Field := CategoryString
  copied := [(.term, .required), (.label, .optional)]
  settable _ := true
  nullable f := f = .label
  freed := [.term, .label]
  freed_nodup := by decide
  mem_freed f := by cases f <;> decide

inductive EntryString where
  | title
  | rights
  | summary
deriving DecidableEq, Repr

/-- `ta_atom_entry_init`, `ta_atom_entry_set_*`, `ta_atom_entry_free`. -/
def entryStrings : StringKind where
  Field := EntryString
  copied := [(.title, .optional)]
  settable _ := true
  nullable f := f = .summary
  freed := [.title, .rights, .summary]
  freed_nodup := by decide
  mem_freed f := by cases f <;> decide

inductive FeedString where
  | title
deriving DecidableEq, Repr

/-- `ta_atom_feed_init`, `ta_atom_feed_set_title`, `ta_atom_feed_free`. -/
def feedStrings : StringKind where
  Field := FeedString
  copied := [(.title, .optional)]
  settable _ := true
  nullable _ := false
  freed := [.title]
  freed_nodup := by decide
  mem_freed f := by cases f; decide

inductive ClientString where
  | jid
  | password
  | host
deriving DecidableEq, Repr

/-- `ta_xmpp_client_init`, `ta_xmpp_client_set_*`, `ta_xmpp_client_free`. -/
def clientStrings : StringKind where
  Field := ClientString
  copied := [(.jid, .required), (.password, .required), (.host, .optional)]
  settable _ := true
  nullable _ := false
  freed := [.jid, .password, .host]
  freed_nodup := by decide
  mem_freed f := by cases f <;> decide

inductive LogString where
  | name
  | dateFormat
deriving DecidableEq, Repr

/-- `ta_log_init`, which copies the name and `"%x %X"`, `ta_log_set_date_format`, `ta_log_free`. The
name has no setter. -/
def logStrings : StringKind where
  Field := LogString
  copied := [(.name, .required), (.dateFormat, .constant "%x %X")]
  settable f := f = .dateFormat
  nullable _ := false
  freed := [.name, .dateFormat]
  freed_nodup := by decide
  mem_freed f := by cases f <;> decide

/-- The kinds of objects with a table. -/
inductive ObjectKind where
  | iri
  | inReplyTo
  | simpleElement
  | link
  | content
  | person
  | category
  | entry
  | feed
  | client
  | log
deriving DecidableEq, Repr

/-- The table of a kind. -/
def ObjectKind.strings : ObjectKind → StringKind
  | .iri => iriStrings
  | .inReplyTo => replyStrings
  | .simpleElement => elementStrings
  | .link => linkStrings
  | .content => contentStrings
  | .person => personStrings
  | .category => categoryStrings
  | .entry => entryStrings
  | .feed => feedStrings
  | .client => clientStrings
  | .log => logStrings

/-! ## The life of an object -/

/-- An argument of the constructor: a string of the caller, or null. -/
def givenArg {F : Type} : Option Str → Arg F Str
  | some s => .value s
  | none => .null

/-- What is copied for an argument. -/
def Copied.arg {F : Type} : Copied → Option Str → Arg F Str
  | .required, given => givenArg given
  | .optional, given => givenArg given
  | .default s, given => .value (given.getD s.toList)
  | .constant s, _ => .value s.toList

/-- Null is stored for an argument of null. -/
def Copied.nullable (c : Copied) : Bool := c = .optional

/-- A call of a setter. -/
abbrev StringKind.SetCall (K : StringKind) : Type :=
  { call : Call K.Field Str // K.settable call.field = true }

variable (K : StringKind)

/-- The constructor, with its arguments and the answers of the allocator for the object and for the
strings. Without memory for the object it writes through a null pointer. -/
def construct (block : Bool) (given : K.Field → Option Str) (granted : K.Field → Bool) :
    Option (Object K.Field Str) :=
  if block then
    run? (fun w field =>
      set (fun _ => field.2.nullable) w ⟨field.1, field.2.arg (given field.1), granted field.1⟩)
      (Object.empty K.Field Str) K.copied
  else none

/-- A setter: the string of its field is freed, and the argument copied. -/
def setString (w : Object K.Field Str) (call : K.SetCall) : Option (Object K.Field Str) :=
  set K.nullable w call.val

/-- The values that the constructor leaves. -/
def constructValues (block : Bool) (given : K.Field → Option Str) (granted : K.Field → Bool) :
    Option (K.Field → Option Str) :=
  if block then
    run? (fun v field =>
      setValue (fun _ => field.2.nullable) v ⟨field.1, field.2.arg (given field.1),
        granted field.1⟩)
      (fun _ => none) K.copied
  else none

/-- What a setter does to the values. -/
def setStringValue (v : K.Field → Option Str) (call : K.SetCall) : Option (K.Field → Option Str) :=
  setValue K.nullable v call.val

variable {K}

/-- **The constructor** leaves its values, or fails with them.

**Proof sketch.** Each copy sets one field, and that the object holds the values is kept. -/
lemma construct_spec (block : Bool) (given : K.Field → Option Str) (granted : K.Field → Bool) :
    Option.Rel (fun w v => Holds w v 0) (construct K block given granted)
      (constructValues K block given granted) := by
  unfold construct constructValues
  cases block with
  | false => exact .none
  | true =>
    refine run?_rel (fun w v => Holds w v 0) ?_ holds_empty K.copied
    intro w v field h
    exact set_spec _ h _

/-- **The strings of an object** of any kind with a table: in its life the constructor and the
setters follow a bad pointer exactly when there is no memory for the object, when one is passed
null where it does not take it, or when a setter is passed what the getter of its own field
returned; otherwise every getter returns the string that was stored last, and the destructor
leaves none of the strings in memory.

**Proof sketch.** That the object holds the values, each in a block of its own, is what the
constructor leaves, and every setter keeps it. Whoever holds values shows them, and freeing all
fields leaves nothing. -/
theorem object_strings_refine (kind : ObjectKind) (block : Bool)
    (given : kind.strings.Field → Option Str) (granted : kind.strings.Field → Bool)
    (calls : List kind.strings.SetCall) :
    Option.Rel
      (fun w v => (∀ f, get w f = some (v f)) ∧
        ∃ heap, destroy w kind.strings.freed = some heap ∧ Malloc.inUse heap = 0)
      ((construct kind.strings block given granted).bind fun w =>
        run? (setString kind.strings) w calls)
      ((constructValues kind.strings block given granted).bind fun v =>
        run? (setStringValue kind.strings) v calls) := by
  refine rel_bind (construct_spec block given granted) fun w v h => ?_
  have hstep : ∀ (w : Object kind.strings.Field Str) (v : kind.strings.Field → Option Str)
      (call : kind.strings.SetCall), Holds w v 0 →
      Option.Rel (fun w v => Holds w v 0) (setString kind.strings w call)
        (setStringValue kind.strings v call) :=
    fun w v call h => set_spec kind.strings.nullable h call.val
  have hrun := run?_rel (fun w v => Holds w v 0) hstep h calls
  exact rel_mono hrun fun w v h =>
    ⟨h.get_eq, h.destroyed kind.strings.freed_nodup kind.strings.mem_freed⟩

/-- A content without a type has the type `"text"`. -/
example : (constructValues contentStrings true (fun _ => none) fun _ => true).map (· .type) =
    some (some "text".toList) := rfl

/-- The date format of a log is copied, and is not an argument. -/
example : (constructValues logStrings true (fun _ => some "main".toList) fun _ => true).map
    (fun v => (v .name, v .dateFormat)) = some (some "main".toList, some "%x %X".toList) := rfl

end Taningia
