import Taningia.Pubsub.Basic

set_option relaxedAutoImplicit false
set_option autoImplicit false

/-!
# Stanzas before they are filled

`createiq` and `createiqps` make an `iq` element with its attributes and a child. The functions that
call them fill the child: what they insert and set is in that child or in elements that are new,
beside the `iq` element.

## Main definitions

* `Taningia.queryId`, `Taningia.psId` — the ids of the two counters.
* `Taningia.Iks.Beside`, `Taningia.Iks.Steps` — another element, and changes of other elements.
* `Taningia.Iks.HasIq` — a stanza with its id and its child.

## Main results

* `Taningia.createiq_spec`, `Taningia.createiqps_spec` — the stanza before it is filled.
-/

namespace Taningia

open Elements

/-- The id that `createiq` makes of its counter. -/
def queryId (nid : ℤ) : Str := snprintf 32 ("query".toList ++ sprintfInt nid)

/-- The id that `createiqps` makes of its counter. -/
def psId (nid : ℤ) : Str := snprintf 32 ("ps".toList ++ sprintfInt nid)

variable {W : Type} (x : Iks W)

/-- The id of the element at an address. -/
def Iks.idOf (w : W) (a : ℕ) : Option Str := (x.nodes w a).bind fun n => n.attribs "id".toList

/-- The element at the address is there, and is not the one at `iq`. -/
structure Iks.Beside (iq : ℕ) (w : W) (a : ℕ) : Prop where
  live : x.nodes w a ≠ none
  ne : a ≠ iq

/-- From `w` to `w'`, the element at the address stays as it is, and no element is lost. -/
structure Iks.Steps (a : ℕ) (w w' : W) : Prop where
  same : x.nodes w' a = x.nodes w a
  live : ∀ b, x.nodes w b ≠ none → x.nodes w' b ≠ none

/-- A stanza with its id, and the child that the functions fill. -/
structure Iks.HasIq (w : W) (iq child : ℕ) (sid : Str) : Prop where
  root : ∃ n rest, x.nodes w iq = some n ∧ n.attribs "id".toList = some sid ∧
    n.items = .tag child :: rest
  content : x.Beside iq w child

variable {x}

/-! ## Changes beside an element -/

/-- To do nothing is a step beside any element. -/
lemma Iks.Steps.refl (a : ℕ) (w : W) : x.Steps a w w := ⟨rfl, fun _ h => h⟩

/-- Steps beside an element follow each other. -/
lemma Iks.Steps.trans {a : ℕ} {w w' w'' : W} (h : x.Steps a w w') (h' : x.Steps a w' w'') :
    x.Steps a w w'' :=
  ⟨h'.same.trans h.same, fun b hb => h'.live b (h.live b hb)⟩

/-- A change of another element. -/
lemma Iks.steps_of_set {a p : ℕ} {w w' : W} {n : Element Str}
    (hnodes : x.nodes w' = (x.nodes w).set p n) (hne : p ≠ a) : x.Steps a w w' := by
  constructor
  · rw [hnodes, Memory.set_of_ne _ _ hne.symm]
  · intro b hb
    rw [hnodes]
    exact Memory.set_ne_none p n hb

/-- An element beside the stanza stays beside it. -/
lemma Iks.Beside.steps {iq a : ℕ} {w w' : W} (h : x.Beside iq w a) (hs : x.Steps iq w w') :
    x.Beside iq w' a :=
  ⟨hs.live a h.live, h.ne⟩

/-- An attribute on an element beside the stanza. -/
lemma Iks.Beside.insertAttrib {iq p : ℕ} {w : W} (h : x.Beside iq w p) (attrib : Str)
    (value : Option Str) : x.Steps iq w (x.insertAttrib w (some p) attrib value) := by
  obtain ⟨n, hn⟩ := Option.ne_none_iff_exists'.mp h.live
  exact Iks.steps_of_set (x.nodes_insertAttrib w p n attrib value hn) h.ne

/-- An optional attribute on an element beside the stanza. -/
lemma Iks.Beside.insertAttribIf {iq p : ℕ} {w : W} (h : x.Beside iq w p) (attrib : Str)
    (value : Option Str) : x.Steps iq w (insertAttribIf x w (some p) attrib value) := by
  cases value with
  | none => exact Iks.Steps.refl iq w
  | some value => exact h.insertAttrib attrib (some value)

/-- A child of another element is new.

**Proof sketch.** Only the parent and the new child change (`Iks.insert_nodes`), neither of
which is the stanza. -/
lemma Iks.Beside.insert {iq p : ℕ} {w : W} (h : x.Beside iq w p) (hiq : x.nodes w iq ≠ none)
    (name : Str) :
    ∃ q w', x.insert w (some p) name = (w', some q) ∧ x.Steps iq w w' ∧
      x.nodes w' q = some (.bare name) ∧ x.Beside iq w' q := by
  obtain ⟨n, hn⟩ := Option.ne_none_iff_exists'.mp h.live
  obtain ⟨m, hm⟩ := Option.ne_none_iff_exists'.mp hiq
  obtain ⟨q, w', hinsert, hfresh, hnodes⟩ := Iks.insert_nodes hn name
  have hne : iq ≠ q := Memory.ne_of_fresh hm hfresh
  have hq : x.nodes w' q = some (.bare name) := by
    rw [hnodes, Memory.set_self]
  refine ⟨q, w', hinsert, ⟨?_, fun b hb => ?_⟩, hq, ?_, hne.symm⟩
  · rw [hnodes, Memory.set_of_ne _ _ hne, Memory.set_of_ne _ _ h.ne.symm]
  · rw [hnodes]
    exact Memory.set_ne_none q _ (Memory.set_ne_none p _ hb)
  · rw [hq]
    exact Option.some_ne_none _

/-- A text in an element beside another. -/
lemma Iks.steps_insertCdata {a p : ℕ} {w : W} {n : Element Str} (hn : x.nodes w p = some n)
    (hitems : n.items = []) (hne : p ≠ a) (text : Str) (len : ℤ) :
    x.Steps a w (x.insertCdata w (some p) (some text) len) := by
  obtain ⟨cdata, hnodes, -⟩ := x.nodes_insertCdata w p n text len hn hitems
  exact Iks.steps_of_set hnodes hne

/-- The identifier stays when a node is put in. -/
lemma Iks.idOf_insertNode (w : W) (p : ℕ) (q a : ℕ) :
    x.idOf (x.insertNode w (some p) q) a = x.idOf w a := by
  have h := x.attribs_insertNode w p q a
  unfold Iks.idOf
  generalize x.nodes (x.insertNode w (some p) q) a = node' at h ⊢
  generalize x.nodes w a = node at h ⊢
  cases node <;> cases node' <;> simp_all

/-- The stanza is there. -/
lemma Iks.HasIq.root_ne_none {w : W} {iq child : ℕ} {sid : Str} (h : x.HasIq w iq child sid) :
    x.nodes w iq ≠ none := by
  obtain ⟨n, _, hn, -⟩ := h.root
  rw [hn]
  exact Option.some_ne_none n

/-- The first child of the stanza. -/
lemma Iks.HasIq.child_eq {w : W} {iq child : ℕ} {sid : Str} (h : x.HasIq w iq child sid) :
    x.child w (some iq) = some child := by
  obtain ⟨n, rest, hn, -, hitems⟩ := h.root
  exact x.child_eq w iq n child rest hn hitems

/-- The identifier of the stanza. -/
lemma Iks.HasIq.idOf {w : W} {iq child : ℕ} {sid : Str} (h : x.HasIq w iq child sid) :
    x.idOf w iq = some sid := by
  obtain ⟨n, rest, hn, hid, -⟩ := h.root
  rw [Iks.idOf, hn, Option.bind_some, hid]

/-- A stanza is kept by changes beside its element. -/
lemma Iks.HasIq.steps {w w' : W} {iq child : ℕ} {sid : Str} (h : x.HasIq w iq child sid)
    (hs : x.Steps iq w w') : x.HasIq w' iq child sid := by
  obtain ⟨n, rest, hn, hid, hitems⟩ := h.root
  exact ⟨⟨n, rest, hs.same.trans hn, hid, hitems⟩, h.content.steps hs⟩

/-- A new element is beside the stanza. -/
lemma Iks.HasIq.new {w : W} {iq child : ℕ} {sid : Str} (h : x.HasIq w iq child sid) (name : Str) :
    ∃ q w', x.new w name = (w', q) ∧ x.Beside iq w' q ∧ x.Steps iq w w' := by
  obtain ⟨m, hm⟩ := Option.ne_none_iff_exists'.mp h.root_ne_none
  obtain ⟨hfresh, hnodes⟩ := x.nodes_new w name
  have hne : iq ≠ (x.new w name).2 := Memory.ne_of_fresh hm hfresh
  refine ⟨_, _, rfl, ⟨?_, hne.symm⟩, Iks.steps_of_set hnodes hne.symm⟩
  rw [hnodes, Memory.set_self]
  exact Option.some_ne_none _

/-! ## The stanza -/

/-- The element with the attributes that both functions set. -/
def addressed (n : Element Str) (from' to' : Option Str) (sid : Str) : Element Str :=
  ((n.setAttrib "from".toList from').setAttrib "to".toList to').setAttrib "id".toList (some sid)

/-- An addressed element has its identifier. -/
lemma id_addressed (n : Element Str) (from' to' : Option Str) (sid : Str) :
    (addressed n from' to' sid).attribs "id".toList = some sid :=
  Element.attribs_setAttrib_self _ _ _

/-- The `iq` element with its type, when that has a text. -/
def typedIq (type : IksSubtype) : Element Str :=
  match type.text with
  | some t => (Element.bare "iq".toList).setAttrib "type".toList (some t)
  | none => .bare "iq".toList

/-- The child of a pubsub request. -/
def pubsubNode : Element Str :=
  (Element.bare "pubsub".toList).setAttrib "xmlns".toList (some taPubsubNs)

/-- Three attributes are set one after the other.

**Proof sketch.** Each attribute writes the one node, so the last write is what is left there. -/
lemma nodes_addressed {w : W} {a : ℕ} {n : Element Str} (hn : x.nodes w a = some n)
    (from' to' : Option Str) (sid : Str) :
    x.nodes (x.insertAttrib (x.insertAttrib (x.insertAttrib w (some a) "from".toList from')
        (some a) "to".toList to') (some a) "id".toList (some sid)) =
      (x.nodes w).set a (addressed n from' to' sid) := by
  have h₁ := x.nodes_insertAttrib w a n "from".toList from' hn
  have hn₁ := congrFun h₁ a
  rw [Memory.set_self] at hn₁
  have h₂ := x.nodes_insertAttrib _ a _ "to".toList to' hn₁
  have hn₂ := congrFun h₂ a
  rw [Memory.set_self] at hn₂
  rw [x.nodes_insertAttrib _ a _ "id".toList (some sid) hn₂, h₂, h₁, Memory.set_set,
    Memory.set_set]
  rfl

/-- **A request** has its `pubsub` element and the id of its counter.

**Proof sketch.** The stanza is made bare, gets its type, its three attributes and the `pubsub`
element, in this order. Every call changes the node of the stanza alone, and the last one makes
another node. -/
lemma createiqps_spec (s : Pubsub W) (from' to' : Option Str) (type : IksSubtype) :
    ∃ w iq q, createiqps x s from' to' type = (⟨w, s.queryNid, toInt (s.psNid + 1)⟩, iq) ∧
      x.nodes w iq = some ((addressed (typedIq type) from' to' (psId s.psNid)).add (.tag q)) ∧
      x.nodes w q = some pubsubNode ∧ q ≠ iq := by
  obtain ⟨w, iq, hnew⟩ : ∃ w iq, x.new s.mem "iq".toList = (w, iq) := ⟨_, _, rfl⟩
  have hiq : x.nodes w iq = some (.bare "iq".toList) := by
    have hnodes := (x.nodes_new s.mem "iq".toList).2
    rw [hnew] at hnodes
    rw [hnodes, Memory.set_self]
  -- the type is set only when it has a text
  have hiq₁ : x.nodes (insertAttribIf x w (some iq) "type".toList type.text) iq =
      some (typedIq type) := by
    unfold insertAttribIf typedIq
    cases type.text with
    | none => exact hiq
    | some t => rw [x.nodes_insertAttrib w iq _ _ _ hiq, Memory.set_self]
  have h₂ := congrFun (nodes_addressed hiq₁ from' to' (psId s.psNid)) iq
  rw [Memory.set_self] at h₂
  obtain ⟨q, w₃, hinsert, hfresh, hnodes⟩ := Iks.insert_nodes h₂ "pubsub".toList
  have hne : iq ≠ q := Memory.ne_of_fresh h₂ hfresh
  have hq : x.nodes w₃ q = some (.bare "pubsub".toList) := by
    rw [hnodes, Memory.set_self]
  have h₄ := x.nodes_insertAttrib w₃ q _ "xmlns".toList (some taPubsubNs) hq
  refine ⟨x.insertAttrib w₃ (some q) "xmlns".toList (some taPubsubNs), iq, q, ?_, ?_, ?_,
    hne.symm⟩
  · rw [createiqps, hnew]
    show (
      let w' := x.insertAttrib (x.insertAttrib (x.insertAttrib
        (insertAttribIf x w (some iq) "type".toList type.text) (some iq) "from".toList from')
        (some iq) "to".toList to') (some iq) "id".toList (some (psId s.psNid))
      let r := x.insert w' (some iq) "pubsub".toList
      (Pubsub.mk (x.insertAttrib r.1 r.2 "xmlns".toList (some taPubsubNs)) s.queryNid
        (toInt (s.psNid + 1)), iq)) = _
    dsimp only
    rw [hinsert]
  · rw [h₄, Memory.set_of_ne _ _ hne, hnodes, Memory.set_of_ne _ _ hne, Memory.set_self]
  · rw [h₄, Memory.set_self]
    rfl

/-- A request has its identifier and its content. -/
lemma createiqps_hasIq (s : Pubsub W) (from' to' : Option Str) (type : IksSubtype) :
    ∃ w iq q, createiqps x s from' to' type = (⟨w, s.queryNid, toInt (s.psNid + 1)⟩, iq) ∧
      x.HasIq w iq q (psId s.psNid) := by
  obtain ⟨w, iq, q, hmake, hiq, hq, hne⟩ := createiqps_spec (x := x) s from' to' type
  refine ⟨w, iq, q, hmake, ⟨(addressed (typedIq type) from' to' (psId s.psNid)).add (.tag q), [],
    hiq, ?_, ?_⟩, ?_, hne⟩
  · exact id_addressed (typedIq type) from' to' (psId s.psNid)
  · unfold typedIq
    cases type.text <;> rfl
  · rw [hq]
    exact Option.some_ne_none _

/-- **A query** has the child that iksemel makes and the id of its counter.

**Proof sketch.** iksemel makes the stanza with its child (`nodes_makeIq`); the three attributes
are put on the stanza, which is another node. -/
lemma createiq_spec (s : Pubsub W) (from' to' : Option Str) (type : IksSubtype) (ns : Str) :
    ∃ w iq q, createiq x s from' to' type ns = (⟨w, toInt (s.queryNid + 1), s.psNid⟩, iq) ∧
      x.HasIq w iq q (queryId s.queryNid) := by
  obtain ⟨q, hne, hq, -, typeText, hnodes⟩ := x.nodes_makeIq s.mem type ns
  obtain ⟨w, iq, hmake⟩ : ∃ w iq, x.makeIq s.mem type ns = (w, iq) := ⟨_, _, rfl⟩
  rw [hmake] at hne hnodes
  have hiq := congrFun hnodes iq
  rw [Memory.set_self] at hiq
  have h₂ := nodes_addressed hiq from' to' (queryId s.queryNid)
  refine ⟨x.insertAttrib (x.insertAttrib (x.insertAttrib w (some iq) "from".toList from')
    (some iq) "to".toList to') (some iq) "id".toList (some (queryId s.queryNid)), iq, q, ?_,
    ⟨addressed (iqNode typeText q) from' to' (queryId s.queryNid), [], ?_, ?_, rfl⟩, ?_, hne⟩
  · rw [createiq, hmake]
    rfl
  · rw [h₂, Memory.set_self]
  · exact id_addressed _ _ _ _
  · rw [h₂, Memory.set_of_ne _ _ hne, hnodes, Memory.set_of_ne _ _ hne, Memory.set_self]
    exact Option.some_ne_none _

end Taningia
