import Mathlib.Data.Nat.Notation
import Mathlib.Logic.Function.Basic

set_option relaxedAutoImplicit false
set_option autoImplicit false

/-!
# Elements in memory

Elements with a name, attributes and children are nodes at addresses, and a child that is an element
is its address. The tree under a node is what is found by following the children. A memory that is
built by adding nodes and children keeps the nodes that it does not touch, so the tree under a node
is known from its nodes.

## Main definitions

* `Elements.Element`, `Elements.Item`, `Elements.Memory` — nodes, children and memories.
* `Elements.ElementTree`, `Elements.HasTree`, `Elements.HasItems` — the tree under a node.
* `Elements.Memory.set`, `Elements.Memory.without` — the memory with another node at an address, or
  without the one there.

## Main results

* `Elements.HasTree.unique` — a node has one tree.
* `Elements.HasTree.within` — the tree stays when elements are added.
-/

namespace Elements

variable {T : Type*}

/-- A child of an element: an element by its address, or a text. -/
inductive Item (T : Type*) where
  | tag (address : ℕ)
  | cdata (text : T)
deriving DecidableEq, Repr

/-- An element. -/
structure Element (T : Type*) where
  name : T
  attribs : T → Option T
  items : List (Item T)

/-- An element that has a name only. -/
def Element.bare (name : T) : Element T := ⟨name, fun _ => none, []⟩

/-- The element with another child behind the others. -/
def Element.add (n : Element T) (item : Item T) : Element T := { n with items := n.items ++ [item] }

/-- The element with an attribute set, or taken away. -/
def Element.setAttrib [DecidableEq T] (n : Element T) (attrib : T) (value : Option T) : Element T :=
  { n with attribs := Function.update n.attribs attrib value }

/-- The attribute that was set is read back. -/
@[simp] lemma Element.attribs_setAttrib_self [DecidableEq T] (n : Element T) (attrib : T)
    (value : Option T) : (n.setAttrib attrib value).attribs attrib = value :=
  Function.update_self _ _ _

/-- The elements in memory. -/
abbrev Memory (T : Type*) := ℕ → Option (Element T)

/-- The memory with another element at an address. -/
def Memory.set (m : Memory T) (a : ℕ) (n : Element T) : Memory T := Function.update m a (some n)

/-- The element that was written is read back. -/
@[simp] lemma Memory.set_self (m : Memory T) (a : ℕ) (n : Element T) : m.set a n a = some n :=
  Function.update_self _ _ _

/-- The other elements stay when one is written. -/
lemma Memory.set_of_ne (m : Memory T) {a b : ℕ} (n : Element T) (h : b ≠ a) : m.set a n b = m b :=
  Function.update_of_ne h _ _

/-- The last element that is written stays. -/
lemma Memory.set_set (m : Memory T) (a : ℕ) (n n' : Element T) :
    (m.set a n).set a n' = m.set a n' :=
  Function.update_idem _ _ _

/-- An element that is set takes none away. -/
lemma Memory.set_ne_none {m : Memory T} {b : ℕ} (a : ℕ) (n : Element T) (h : m b ≠ none) :
    m.set a n b ≠ none := by
  by_cases hba : b = a
  · rw [hba, Memory.set_self]
    exact Option.some_ne_none n
  · rwa [Memory.set_of_ne _ _ hba]

/-- A node is not at an address where there is none. -/
lemma Memory.ne_of_fresh {m : Memory T} {a b : ℕ} {n : Element T} (ha : m a = some n)
    (hb : m b = none) : a ≠ b := by
  rintro rfl
  rw [ha] at hb
  cases hb

/-- Each element of the first memory is in the second. -/
def Memory.Within (m m' : Memory T) : Prop := ∀ a n, m a = some n → m' a = some n

/-- A memory within a second is within a third around it. -/
lemma Memory.Within.trans {m m' m'' : Memory T} (h : m.Within m') (h' : m'.Within m'') :
    m.Within m'' :=
  fun a n ha => h' a n (h a n ha)

/-- The memory without the element at an address. -/
def Memory.without (m : Memory T) (a : ℕ) : Memory T := Function.update m a none

/-- An element taken out is not there. -/
@[simp] lemma Memory.without_self (m : Memory T) (a : ℕ) : m.without a a = none :=
  Function.update_self _ _ _

/-- The other elements stay when one is taken out. -/
lemma Memory.without_of_ne (m : Memory T) {a b : ℕ} (h : b ≠ a) : m.without a b = m b :=
  Function.update_of_ne h _ _

/-- A memory without an element is within it. -/
lemma Memory.without_within (m : Memory T) (a : ℕ) : (m.without a).Within m := by
  intro b n hb
  by_cases hab : b = a
  · rw [hab, Memory.without_self] at hb
    cases hb
  · rwa [Memory.without_of_ne _ hab] at hb

/-- What is within a memory without the element stays so when the element changes. -/
lemma Memory.without_set (m : Memory T) (a : ℕ) (n : Element T) :
    (m.set a n).without a = m.without a :=
  Function.update_idem _ _ _

/-- To write an element and to take out another commute. -/
lemma Memory.set_without (m : Memory T) {a b : ℕ} (n : Element T) (h : b ≠ a) :
    (m.set b n).without a = (m.without a).set b n :=
  (Function.update_comm h.symm _ _ _).symm

/-- A new element is added. -/
lemma Memory.within_set {m : Memory T} {a : ℕ} (h : m a = none) (n : Element T) :
    m.Within (m.set a n) := by
  intro b nb hb
  rw [Memory.set_of_ne _ _ (Memory.ne_of_fresh hb h)]
  exact hb

/-! ## Trees -/

/-- An element with all that is under it, or a text. -/
inductive ElementTree (T : Type*) where
  | tag (name : T) (attribs : T → Option T) (items : List (ElementTree T))
  | cdata (text : T)

/-- An attribute of an element; a text has none. -/
def ElementTree.attrib : ElementTree T → T → Option T
  | .tag _ attribs _, attrib => attribs attrib
  | .cdata _, _ => none

/-- The element with an attribute taken away. -/
def ElementTree.dropAttrib [DecidableEq T] (attrib : T) : ElementTree T → ElementTree T
  | .tag name attribs items => .tag name (Function.update attribs attrib none) items
  | .cdata text => .cdata text

mutual
/-- The tree under an element. -/
inductive HasTree (m : Memory T) : ℕ → ElementTree T → Prop where
  | tag {a : ℕ} {n : Element T} {items : List (ElementTree T)} :
      m a = some n → HasItems m n.items items → HasTree m a (.tag n.name n.attribs items)

/-- The trees of a list of children. -/
inductive HasItems (m : Memory T) : List (Item T) → List (ElementTree T) → Prop where
  | nil : HasItems m [] []
  | tag {a : ℕ} {t : ElementTree T} {rest : List (Item T)} {trees : List (ElementTree T)} :
      HasTree m a t → HasItems m rest trees → HasItems m (.tag a :: rest) (t :: trees)
  | cdata {text : T} {rest : List (Item T)} {trees : List (ElementTree T)} :
      HasItems m rest trees → HasItems m (.cdata text :: rest) (.cdata text :: trees)
end

mutual
/-- **A node has one tree.** -/
theorem HasTree.unique {m : Memory T} {a : ℕ} {t t' : ElementTree T} (h : HasTree m a t)
    (h' : HasTree m a t') : t = t' := by
  cases h with
  | tag hn hitems =>
    cases h' with
    | tag hn' hitems' =>
      obtain rfl := Option.some.inj (hn.symm.trans hn')
      rw [hitems.unique hitems']

/-- The trees of a list of items are unique. -/
theorem HasItems.unique {m : Memory T} {items : List (Item T)} {trees trees' : List (ElementTree T)}
    (h : HasItems m items trees) (h' : HasItems m items trees') : trees = trees' := by
  cases h with
  | nil =>
    cases h'
    rfl
  | tag ht hrest =>
    cases h' with
    | tag ht' hrest' => rw [ht.unique ht', hrest.unique hrest']
  | cdata hrest =>
    cases h' with
    | cdata hrest' => rw [hrest.unique hrest']
end

mutual
/-- The tree under an element stays when elements are added. -/
theorem HasTree.within {m m' : Memory T} (h : m.Within m') {a : ℕ} {t : ElementTree T}
    (ht : HasTree m a t) : HasTree m' a t := by
  cases ht with
  | tag hn hitems => exact .tag (h a _ hn) (hitems.within h)

/-- A larger memory has the same trees. -/
theorem HasItems.within {m m' : Memory T} (h : m.Within m') {items : List (Item T)}
    {trees : List (ElementTree T)} (hitems : HasItems m items trees) : HasItems m' items trees := by
  cases hitems with
  | nil => exact .nil
  | tag ht hrest => exact .tag (ht.within h) (hrest.within h)
  | cdata hrest => exact .cdata (hrest.within h)
end

/-- A list of items with one more at its end. -/
lemma HasItems.concat {m : Memory T} {items : List (Item T)} {trees : List (ElementTree T)} {a : ℕ}
    {t : ElementTree T} (h : HasItems m items trees) (ht : HasTree m a t) :
    HasItems m (items ++ [.tag a]) (trees ++ [t]) := by
  induction items generalizing trees with
  | nil =>
    cases h
    exact .tag ht .nil
  | cons item items ih =>
    cases h with
    | tag hfirst hrest => exact .tag hfirst (ih hrest)
    | cdata hrest => exact .cdata (ih hrest)

end Elements
