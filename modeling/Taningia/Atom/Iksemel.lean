import Mathlib.Data.List.Infix
import Taningia.CString

set_option relaxedAutoImplicit false
set_option autoImplicit false

/-!
# The libraries under the Atom functions

`src/atom.c` works on XML trees of iksemel and on the calendar functions of the C library, neither
of which is part of the repository. Both are parameters of the model: their functions with, for
iksemel, what the functions that read a tree give back of the functions that build it.

A finished tree is a value here, since the Atom functions insert a node only when it is complete.

## Main definitions

* `Taningia.Iksemel`, `Taningia.Iksemel.Laws` — the tree functions and how they fit together.
* `Taningia.Iksemel.Extends` — a tree that grew out of another.
* `Taningia.XmlNode`, `Taningia.xmlNodes` — a simple library of this kind.
* `Taningia.TimeLib` — the calendar functions.

## Main results

* `Taningia.xmlNodes_laws` — the simple library follows the laws.
-/

namespace Taningia

/-! ## Trees -/

/-- The functions of iksemel that `src/atom.c` calls, on nodes of type `N`. `children` is what
`iks_child` and `iks_next` walk over; `insertNode` is `iks_insert_node`, and also `iks_insert` with
what is put into the new element; the text of `insertCdata` may be `NULL`, and a length of `0` means
the length of the text. -/
structure Iksemel (N : Type) where
  name : N → Option Str
  hasChildren : N → Bool
  children : N → List N
  find : N → Str → Option N
  findCdata : N → Str → Option Str
  findAttrib : N → Str → Option Str
  cdataSize : Option N → ℕ
  new : Str → N
  insertAttrib : N → Str → Str → N
  insertCdata : N → Option Str → ℕ → N
  insertNode : N → N → N

variable {N : Type}

/-- What the reading functions give back of a tree that was built. -/
structure Iksemel.Laws (x : Iksemel N) : Prop where
  name_new : ∀ name, x.name (x.new name) = some name
  name_insertAttrib : ∀ n attrib value, x.name (x.insertAttrib n attrib value) = x.name n
  name_insertCdata : ∀ n text len, x.name (x.insertCdata n text len) = x.name n
  name_insertNode : ∀ n child, x.name (x.insertNode n child) = x.name n
  children_new : ∀ name, x.children (x.new name) = []
  children_insertAttrib : ∀ n attrib value,
    x.children (x.insertAttrib n attrib value) = x.children n
  children_insertNode : ∀ n child, x.name n ≠ none →
    x.children (x.insertNode n child) = x.children n ++ [child]
  hasChildren_iff : ∀ n, x.hasChildren n = true ↔ x.children n ≠ []
  find_eq : ∀ n name, x.find n name = (x.children n).find? fun child => x.name child = some name
  findCdata_insertCdata : ∀ n name text, text ≠ [] →
    x.find n name = some (x.insertCdata (x.new name) (some text) 0) → x.findCdata n name = some text

/-- A new element with a text. -/
def Iksemel.textNode (x : Iksemel N) (name : Str) (text : Option Str) : N :=
  x.insertCdata (x.new name) text 0

/-- The tree `n'` grew out of `n` by more children. -/
structure Iksemel.Extends (x : Iksemel N) (n n' : N) : Prop where
  name : x.name n' = x.name n
  children : x.children n <+: x.children n'

/-- A node extends itself. -/
lemma Iksemel.Extends.refl (x : Iksemel N) (n : N) : x.Extends n n := ⟨rfl, List.prefix_refl _⟩

/-- Extensions compose. -/
lemma Iksemel.Extends.trans {x : Iksemel N} {n n' n'' : N} (h : x.Extends n n')
    (h' : x.Extends n' n'') : x.Extends n n'' :=
  ⟨h'.name.trans h.name, h.children.trans h'.children⟩

/-- A node with a child inserted extends the node. -/
lemma Iksemel.Laws.extends_insertNode {x : Iksemel N} (hx : x.Laws) {n : N} (hn : x.name n ≠ none)
    (child : N) : x.Extends n (x.insertNode n child) := by
  refine ⟨hx.name_insertNode n child, ?_⟩
  rw [hx.children_insertNode n child hn]
  exact List.prefix_append _ _

/-- Inserting a node for each element of a list. -/
def Iksemel.insertAll {α : Type} (x : Iksemel N) (toIks : α → N) (n : N) (as : List α) : N :=
  as.foldl (fun n a => x.insertNode n (toIks a)) n

/-- A node with children inserted extends the node. -/
lemma Iksemel.Laws.extends_insertAll {x : Iksemel N} (hx : x.Laws) {α : Type} (toIks : α → N)
    {n : N} (hn : x.name n ≠ none) (as : List α) : x.Extends n (x.insertAll toIks n as) := by
  induction as generalizing n with
  | nil => exact Iksemel.Extends.refl x n
  | cons a as ih =>
    have hstep := hx.extends_insertNode hn (toIks a)
    exact hstep.trans (ih (by rwa [hstep.name]))

/-- Inserting a node when there is something to insert. -/
def Iksemel.insertOpt {α : Type} (x : Iksemel N) (toIks : α → N) (n : N) (a : Option α) : N :=
  x.insertAll toIks n a.toList

/-- The same for a child that may be missing. -/
lemma Iksemel.Laws.extends_insertOpt {x : Iksemel N} (hx : x.Laws) {α : Type} (toIks : α → N)
    {n : N} (hn : x.name n ≠ none) (a : Option α) : x.Extends n (x.insertOpt toIks n a) :=
  hx.extends_insertAll toIks hn a.toList

/-! ## A simple library -/

/-- A node: an element with its attributes and children, or a piece of text. -/
inductive XmlNode where
  | tag (name : Str) (attribs : List (Str × Str)) (children : List XmlNode)
  | cdata (text : Str)

/-- The name of an element. -/
def XmlNode.name : XmlNode → Option Str
  | .tag name _ _ => some name
  | .cdata _ => none

/-- The children of an element. -/
def XmlNode.children : XmlNode → List XmlNode
  | .tag _ _ children => children
  | .cdata _ => []

/-- The text of a piece of text. -/
def XmlNode.text : XmlNode → Option Str
  | .tag _ _ _ => none
  | .cdata text => some text

/-- The attributes of an element, the latest first. -/
def XmlNode.attribs : XmlNode → List (Str × Str)
  | .tag _ attribs _ => attribs
  | .cdata _ => []

/-- An element with other attributes and children. -/
def XmlNode.set (attribs : List (Str × Str)) (children : List XmlNode) : XmlNode → XmlNode
  | .tag name _ _ => .tag name attribs children
  | .cdata text => .cdata text

/-- Trees of elements and text, with the text behind an element's start as its character data. -/
def xmlNodes : Iksemel XmlNode where
  name := XmlNode.name
  hasChildren n := !n.children.isEmpty
  children := XmlNode.children
  find n name := n.children.find? fun child => child.name = some name
  findCdata n name := do
    let child ← n.children.find? fun child => child.name = some name
    let first ← child.children.head?
    first.text
  findAttrib n attrib := n.attribs.lookup attrib
  cdataSize n := ((n.bind XmlNode.text).getD []).length
  new name := .tag name [] []
  insertAttrib n attrib value := n.set ((attrib, value) :: n.attribs) n.children
  insertCdata n text len := match text with
    | some text =>
      n.set n.attribs (n.children ++ [.cdata (if len = 0 then text else text.take len)])
    | none => n
  insertNode n child := match n with
    | .tag name attribs children => .tag name attribs (children ++ [child])
    | .cdata text => .cdata text

/-- An element without attributes that has a text. -/
def XmlNode.leaf (name text : String) : XmlNode := .tag name.toList [] [.cdata text.toList]

/-- The trees of XML are an instance.

**Proof sketch.** Each law by cases on the node: a piece of text is left alone, a tag gets what
is inserted. -/
lemma xmlNodes_laws : xmlNodes.Laws where
  name_new _ := rfl
  name_insertAttrib n attrib value := by cases n <;> rfl
  name_insertCdata n text len := by cases n <;> cases text <;> rfl
  name_insertNode n child := by cases n <;> rfl
  children_new _ := rfl
  children_insertAttrib n attrib value := by cases n <;> rfl
  children_insertNode n child hn := by
    cases n with
    | tag name attribs children => rfl
    | cdata text => exact absurd rfl hn
  hasChildren_iff n := by simp [xmlNodes]
  find_eq _ _ := rfl
  findCdata_insertCdata n name text _ hfind := by
    show (xmlNodes.find n name).bind _ = _
    rw [hfind]
    rfl

/-! ## Dates -/

/-- The fields of a `struct tm` that the repository uses; the others stay `0`. -/
structure Tm where
  sec : ℤ
  min : ℤ
  hour : ℤ
  mday : ℤ
  mon : ℤ
  year : ℤ
deriving DecidableEq, Repr

/-- The calendar functions of the C library; `strptime` gets the text, the format and the fields so
far. -/
structure TimeLib where
  gmtime : ℤ → Tm
  strptime : Str → Str → Tm → Tm
  mktime : Tm → ℤ

/-- A number printed with at least `width` letters, filled with `fill`. -/
def sprintfPad (width : ℕ) (fill : Char) (n : ℤ) : Str :=
  List.replicate (width - (sprintfInt n).length) fill ++ sprintfInt n

/-- `time_to_iso8601`; the buffer has 80 bytes. -/
def timeToIso8601 (lib : TimeLib) (t : ℤ) : Str :=
  let tm := lib.gmtime t
  (sprintfPad 4 ' ' (tm.year + 1900) ++ "-".toList ++ sprintfPad 2 '0' (tm.mon + 1) ++
    "-".toList ++ sprintfPad 2 '0' tm.mday ++ "T".toList ++ sprintfPad 2 '0' tm.hour ++
    ":".toList ++ sprintfPad 2 '0' tm.min ++ ":".toList ++ sprintfPad 2 '0' tm.sec ++
    "Z".toList).take 79

/-- `iso8601_to_time`. -/
def iso8601ToTime (lib : TimeLib) (dt : Str) : ℤ :=
  lib.mktime (lib.strptime dt "%Y-%m-%dT%H:%M:%SZ".toList ⟨0, 0, 0, 0, 0, 0⟩)

/-- The calendar functions at the time 0. -/
def epochLib : TimeLib where
  gmtime _ := ⟨0, 0, 0, 1, 0, 70⟩
  strptime _ _ _ := ⟨0, 0, 0, 1, 0, 70⟩
  mktime _ := 0

end Taningia
