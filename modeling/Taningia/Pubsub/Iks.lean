import Mathlib.Data.Int.Notation
import Taningia.CString
import Taningia.Lib.Elements

set_option relaxedAutoImplicit false
set_option autoImplicit false

/-!
# The elements that the pubsub builders make

`src/pubsub.c` puts elements into a stanza while they are empty, and fills them there. So the nodes
of iksemel are addresses here. The library is not part of the repository; its functions are a
parameter, with what each of them does to the nodes in memory. On `NULL` the functions that insert
do nothing.

## Main definitions

* `Taningia.Iks` — the functions of iksemel that make elements.
* `Taningia.iksNodes` — a simple library of this kind.

## Main results

* `Taningia.Iks.insert_nodes` — a new element, and what does not change.
-/

namespace Taningia

open Elements

/-- The values of `enum iksubtype` that the builders know. -/
inductive IksSubtype where
  | get
  | set
  | result
  | error
  | other
deriving DecidableEq, Repr

/-- The text of a type, as the switch of `createiqps` has it. -/
def IksSubtype.text : IksSubtype → Option Str
  | .get => some "get".toList
  | .set => some "set".toList
  | .result => some "result".toList
  | .error => some "error".toList
  | .other => none

/-- The element that `iks_make_iq` makes, with its child at the address. -/
def iqNode (type : Option Str) (child : ℕ) : Element Str where
  name := "iq".toList
  attribs := Function.update (fun _ => none) "type".toList type
  items := [.tag child]

/-- The child of the element that `iks_make_iq` makes. -/
def queryNode (ns : Str) : Element Str :=
  (Element.bare "query".toList).setAttrib "xmlns".toList (some ns)

/-- The functions of iksemel that `src/pubsub.c` calls, with the elements of a memory of type `W`.
They are taken never to be refused memory, so that `iks_new` gives an element. A value of `NULL`
takes an attribute away, and a length of `0` means the length of the text. What `insertNode` does
to the children of the parents is not needed. -/
structure Iks (W : Type) where
  nodes : W → Memory Str
  new : W → Str → W × ℕ
  insert : W → Option ℕ → Str → W × Option ℕ
  insertAttrib : W → Option ℕ → Str → Option Str → W
  insertCdata : W → Option ℕ → Option Str → ℤ → W
  insertNode : W → Option ℕ → ℕ → W
  child : W → Option ℕ → Option ℕ
  makeIq : W → IksSubtype → Str → W × ℕ
  nodes_new : ∀ w name, nodes w (new w name).2 = none ∧
    nodes (new w name).1 = (nodes w).set (new w name).2 (.bare name)
  insert_null : ∀ w name, insert w none name = (w, none)
  nodes_insert : ∀ w p n name, nodes w p = some n →
    ∃ q, (insert w (some p) name).2 = some q ∧ nodes w q = none ∧
      nodes (insert w (some p) name).1 = ((nodes w).set p (n.add (.tag q))).set q (.bare name)
  nodes_insertAttrib : ∀ w p n attrib value, nodes w p = some n →
    nodes (insertAttrib w (some p) attrib value) = (nodes w).set p (n.setAttrib attrib value)
  insertCdata_null : ∀ w text len, insertCdata w none text len = w
  insertCdata_noText : ∀ w p len, insertCdata w p none len = w
  nodes_insertCdata : ∀ w p n text len, nodes w p = some n → n.items = [] →
    ∃ cdata, nodes (insertCdata w (some p) (some text) len) =
      (nodes w).set p (n.add (.cdata cdata)) ∧ (len = 0 → cdata = text)
  attribs_insertNode : ∀ w p q a,
    (nodes (insertNode w (some p) q) a).map Element.attribs = (nodes w a).map Element.attribs
  child_eq : ∀ w p n q rest, nodes w p = some n → n.items = .tag q :: rest →
    child w (some p) = some q
  nodes_makeIq : ∀ w type ns, ∃ q, q ≠ (makeIq w type ns).2 ∧ nodes w q = none ∧
    nodes w (makeIq w type ns).2 = none ∧ ∃ typeText,
      nodes (makeIq w type ns).1 =
        ((nodes w).set q (queryNode ns)).set (makeIq w type ns).2 (iqNode typeText q)

/-! ## What the functions do -/

/-- **A child** is made at a new address. -/
lemma Iks.insert_nodes {W : Type} {x : Iks W} {w : W} {p : ℕ} {n : Element Str}
    (hp : x.nodes w p = some n) (name : Str) :
    ∃ q w', x.insert w (some p) name = (w', some q) ∧ x.nodes w q = none ∧
      x.nodes w' = ((x.nodes w).set p (n.add (.tag q))).set q (.bare name) := by
  obtain ⟨q, hsome, hfresh, hnodes⟩ := x.nodes_insert w p n name hp
  exact ⟨q, (x.insert w (some p) name).1, Prod.ext rfl hsome, hfresh, hnodes⟩

/-! ## A simple library -/

/-- A memory of elements, with all addresses from `size` on free. -/
structure IksMemory where
  nodes : Memory Str
  size : ℕ
  free : ∀ a, size ≤ a → nodes a = none

/-- No elements. -/
def IksMemory.empty : IksMemory := ⟨fun _ => none, 0, fun _ _ => rfl⟩

/-- An element at a new address. -/
def IksMemory.alloc (w : IksMemory) (n : Element Str) : IksMemory where
  nodes := w.nodes.set w.size n
  size := w.size + 1
  free a ha := by
    rw [Memory.set_of_ne _ _ (by omega)]
    exact w.free a (by omega)

/-- The memory with the element at an address changed. -/
def IksMemory.change (w : IksMemory) (p : ℕ) (f : Element Str → Element Str) : IksMemory where
  nodes := Function.update w.nodes p ((w.nodes p).map f)
  size := w.size
  free a ha := by
    by_cases hap : a = p
    · rw [hap, Function.update_self, w.free p (hap ▸ ha), Option.map_none]
    · rw [Function.update_of_ne hap, w.free a ha]

/-- A change at one node. -/
lemma IksMemory.nodes_change {w : IksMemory} {p : ℕ} {n : Element Str} (hp : w.nodes p = some n)
    (f : Element Str → Element Str) : (w.change p f).nodes = w.nodes.set p (f n) := by
  show Function.update w.nodes p ((w.nodes p).map f) = _
  rw [hp]
  rfl

/-- What a function does to an element, unless the address is `NULL`. -/
def IksMemory.changeAt (w : IksMemory) (p : Option ℕ) (f : Element Str → Element Str) :
    IksMemory :=
  p.elim w fun p => w.change p f

/-- `iks_insert` on such a memory. -/
def IksMemory.insert (w : IksMemory) (p : Option ℕ) (name : Str) : IksMemory × Option ℕ :=
  p.elim (w, none) fun p =>
    ((w.change p fun n => n.add (.tag w.size)).alloc (.bare name), some w.size)

/-- `iks_child` on such a memory. -/
def IksMemory.child (w : IksMemory) (p : Option ℕ) : Option ℕ :=
  (p.bind w.nodes).bind fun n =>
    n.items.head?.bind fun
      | .tag q => some q
      | .cdata _ => none

/-- The text that `iks_insert_cdata` inserts. -/
def cdataText (text : Str) (len : ℤ) : Str := if len = 0 then text else text.take len.toNat

/-- `iks_insert_cdata` on such a memory. -/
def IksMemory.insertCdata (w : IksMemory) (p : Option ℕ) (text : Option Str) (len : ℤ) :
    IksMemory :=
  text.elim w fun text => w.changeAt p fun n => n.add (.cdata (cdataText text len))

/-- `iks_make_iq` on such a memory. -/
def IksMemory.makeIq (w : IksMemory) (type : IksSubtype) (ns : Str) : IksMemory × ℕ :=
  ((w.alloc (queryNode ns)).alloc (iqNode type.text w.size), w.size + 1)

/-- An insertion makes a bare node and adds it to its parent. -/
lemma IksMemory.nodes_insert {w : IksMemory} {p : ℕ} {n : Element Str} (hp : w.nodes p = some n)
    (name : Str) :
    (w.insert (some p) name).1.nodes =
      (w.nodes.set p (n.add (.tag w.size))).set w.size (.bare name) := by
  show (w.change p _).nodes.set w.size _ = _
  rw [IksMemory.nodes_change hp]

/-- The first child of a node. -/
lemma IksMemory.child_eq {w : IksMemory} {p : ℕ} {n : Element Str} {q : ℕ}
    {rest : List (Item Str)} (hp : w.nodes p = some n) (hitems : n.items = .tag q :: rest) :
    w.child (some p) = some q := by
  rw [IksMemory.child, Option.bind_some, hp, Option.bind_some, hitems]
  rfl

/-- An insertion leaves the attributes. -/
lemma IksMemory.attribs_change (w : IksMemory) (p q a : ℕ) :
    ((w.change p fun n => n.add (.tag q)).nodes a).map Element.attribs =
      (w.nodes a).map Element.attribs := by
  show (Function.update w.nodes p _ a).map _ = _
  by_cases hap : a = p
  · rw [hap, Function.update_self, Option.map_map]
    rfl
  · rw [Function.update_of_ne hap]

/-- The two nodes of a new query stanza. -/
lemma IksMemory.nodes_makeIq (w : IksMemory) (type : IksSubtype) (ns : Str) :
    (w.makeIq type ns).1.nodes =
      (w.nodes.set w.size (queryNode ns)).set (w.size + 1) (iqNode type.text w.size) := rfl

/-- A library on such memories. -/
def iksNodes : Iks IksMemory where
  nodes := IksMemory.nodes
  new w name := (w.alloc (.bare name), w.size)
  insert := IksMemory.insert
  insertAttrib w p attrib value := w.changeAt p fun n => n.setAttrib attrib value
  insertCdata := IksMemory.insertCdata
  insertNode w p q := w.changeAt p fun n => n.add (.tag q)
  child := IksMemory.child
  makeIq := IksMemory.makeIq
  nodes_new w name := ⟨w.free _ le_rfl, rfl⟩
  insert_null w name := rfl
  nodes_insert w p n name hp := ⟨w.size, rfl, w.free _ le_rfl, IksMemory.nodes_insert hp name⟩
  nodes_insertAttrib w p n attrib value hp := IksMemory.nodes_change hp _
  insertCdata_null w text len := by cases text <;> rfl
  insertCdata_noText w p len := rfl
  nodes_insertCdata w p n text len hp _ :=
    ⟨cdataText text len, IksMemory.nodes_change hp _, fun hlen => if_pos hlen⟩
  attribs_insertNode := IksMemory.attribs_change
  child_eq w p n q rest hp hitems := IksMemory.child_eq hp hitems
  nodes_makeIq w type ns := ⟨w.size, Nat.ne_of_lt (Nat.lt_succ_self _), w.free _ le_rfl,
    w.free _ (Nat.le_succ _), type.text, w.nodes_makeIq type ns⟩

end Taningia
