import Taningia.Pubsub.Stanza

set_option relaxedAutoImplicit false
set_option autoImplicit false

/-!
# The form that configures a node

The variable `field` of the loop is declared in its body: on the turn of a value it is `NULL` again,
and the value goes nowhere. So each pair leaves a field with its name and without a value, and a
name is cut to the size of its buffer. The stanza is known as a whole: its tree is `nodeTree`.

## Main definitions

* `Taningia.pairArgs` — the arguments for a list of pairs.
* `Taningia.nodeTree` — the tree of the stanza.
* `Taningia.FormOf`, `Taningia.NodeFormsCarry` — the form that the pairs ask for.

## Main results

* `Taningia.buildNode_tree` — the stanza has that tree.
* `Taningia.node_forms_carry_iff` — no pair is carried.
-/

namespace Taningia

open Elements

/-! ## The elements of the form -/

/-- A field with its name. -/
def fieldNode (var : Str) : Element Str :=
  (Element.bare "field".toList).setAttrib "var".toList (some var)

/-- The field that tells the type of the form. -/
def hiddenNode : Element Str :=
  (fieldNode "FORM_TYPE".toList).setAttrib "type".toList (some "hidden".toList)

/-- The form before its fields. -/
def formNode : Element Str :=
  ((Element.bare "x".toList).setAttrib "xmlns".toList (some "jabber:x:data".toList)).setAttrib
    "type".toList (some "submit".toList)

/-- The name of the field for a key, as the buffer holds it. -/
def fieldName (key : Str) : Str := snprintf nodeSizeMax ("pubsub#".toList ++ key)

def valueTree (text : Str) : ElementTree Str := .tag "value".toList (fun _ => none) [.cdata text]

def hiddenTree : ElementTree Str :=
  .tag "field".toList hiddenNode.attribs [valueTree nsPsConfig]

/-- A field without a value. -/
def emptyField (key : Str) : ElementTree Str :=
  .tag "field".toList (fieldNode (fieldName key)).attribs []

/-- The form with a field for each key. -/
def formTree (keys : List Str) : ElementTree Str :=
  .tag "x".toList formNode.attribs (hiddenTree :: keys.map emptyField)

variable {W : Type} {x : Iks W}

/-! ## Making the form -/

/-- An attribute of an element that was set last. -/
lemma Iks.insertAttrib_set {w : W} {m : Memory Str} {p : ℕ} {n : Element Str}
    (hw : x.nodes w = m.set p n) (attrib : Str) (value : Option Str) :
    x.nodes (x.insertAttrib w (some p) attrib value) = m.set p (n.setAttrib attrib value) := by
  have hp := congrFun hw p
  rw [Memory.set_self] at hp
  rw [x.nodes_insertAttrib w p n attrib value hp, hw, Memory.set_set]

/-- A child of an element that was set last. -/
lemma Iks.insert_set {w : W} {m : Memory Str} {p : ℕ} {n : Element Str} (hw : x.nodes w = m.set p n)
    (name : Str) :
    ∃ q w', x.insert w (some p) name = (w', some q) ∧ m q = none ∧ q ≠ p ∧
      x.nodes w' = (m.set p (n.add (.tag q))).set q (.bare name) := by
  have hp := congrFun hw p
  rw [Memory.set_self] at hp
  obtain ⟨q, w', hinsert, hfresh, hnodes⟩ := Iks.insert_nodes hp name
  have hne : q ≠ p := (Memory.ne_of_fresh hp hfresh).symm
  rw [hw, Memory.set_of_ne _ _ hne] at hfresh
  rw [hw, Memory.set_set] at hnodes
  exact ⟨q, w', hinsert, hfresh, hne, hnodes⟩

/-- **The form** is a child of its parent, with the first field.

**Proof sketch.** Three insertions, each at a fresh address: the form under its parent, the
hidden field under the form, and its value. What was inserted earlier is found again because the
addresses differ; the hidden field is a tree already in what is left without the form. -/
lemma makeForm_spec {w : W} {p : ℕ} {n : Element Str} (hp : x.nodes w p = some n) :
    ∃ w' f h, makeForm x w (some p) = (w', some f) ∧ x.nodes w f = none ∧
      x.nodes w' p = some (n.add (.tag f)) ∧ x.nodes w' f = some (formNode.add (.tag h)) ∧
      HasTree ((x.nodes w').without f) h hiddenTree ∧
      ((x.nodes w).without p).Within (x.nodes w') := by
  obtain ⟨f, w₁, hform, hf, hw₁⟩ := Iks.insert_nodes hp "x".toList
  have hfp : f ≠ p := (Memory.ne_of_fresh hp hf).symm
  have hw₂ := Iks.insertAttrib_set (Iks.insertAttrib_set hw₁ "xmlns".toList
    (some "jabber:x:data".toList)) "type".toList (some "submit".toList)
  obtain ⟨h, w₃, hfield, hh, hhf, hw₃⟩ := Iks.insert_set hw₂ "field".toList
  have hw₄ := Iks.insertAttrib_set (Iks.insertAttrib_set hw₃ "var".toList
    (some "FORM_TYPE".toList)) "type".toList (some "hidden".toList)
  obtain ⟨v, w₅, hvalue, hv, hvh, hw₅⟩ := Iks.insert_set hw₄ "value".toList
  have hv₅ := congrFun hw₅ v
  rw [Memory.set_self] at hv₅
  obtain ⟨cdata, hw₆, hcdata⟩ := x.nodes_insertCdata w₅ v _ nsPsConfig 0 hv₅ rfl
  rw [hw₅, Memory.set_set, hcdata rfl] at hw₆
  obtain ⟨w₆, hw₆'⟩ : ∃ w₆, x.insertCdata w₅ (some v) (some nsPsConfig) 0 = w₆ := ⟨_, rfl⟩
  rw [hw₆'] at hw₆
  -- the four addresses are different, and three of them were free
  have hph : p ≠ h := Memory.ne_of_fresh (Memory.set_self _ _ _) hh
  have hfv : f ≠ v := Memory.ne_of_fresh (Memory.set_self _ _ _) hv
  have hpv : p ≠ v := by
    refine Memory.ne_of_fresh (n := n.add (.tag f)) ?_ hv
    rw [Memory.set_of_ne _ _ hfp.symm, Memory.set_self]
  rw [Memory.set_of_ne _ _ hph.symm] at hh
  rw [Memory.set_of_ne _ _ hfv.symm, Memory.set_of_ne _ _ hpv.symm] at hv
  refine ⟨w₆, f, h, ?_, hf, ?_, ?_, .tag (?_ : _ = some (hiddenNode.add (.tag v)))
    (.tag (.tag (?_ : _ = some ((Element.bare "value".toList).add (.cdata nsPsConfig)))
      (.cdata .nil)) .nil), ?_⟩
  · rw [makeForm, hform]
    show (
      let w₂ := x.insertAttrib (x.insertAttrib w₁ (some f) "xmlns".toList
        (some "jabber:x:data".toList)) (some f) "type".toList (some "submit".toList)
      let r := x.insert w₂ (some f) "field".toList
      let w₄ := x.insertAttrib (x.insertAttrib r.1 r.2 "var".toList (some "FORM_TYPE".toList)) r.2
        "type".toList (some "hidden".toList)
      let r' := x.insert w₄ r.2 "value".toList
      (x.insertCdata r'.1 r'.2 (some nsPsConfig) 0, some f)) = _
    dsimp only
    rw [hfield]
    dsimp only
    rw [hvalue]
    dsimp only
    rw [hw₆']
  · rw [hw₆, Memory.set_of_ne _ _ hpv, Memory.set_of_ne _ _ hph, Memory.set_of_ne _ _ hfp.symm,
      Memory.set_self]
  · rw [hw₆, Memory.set_of_ne _ _ hfv, Memory.set_of_ne _ _ hhf.symm, Memory.set_self]
    rfl
  · rw [Memory.without_of_ne _ hhf, hw₆, Memory.set_of_ne _ _ hvh.symm, Memory.set_self]
    rfl
  · rw [Memory.without_of_ne _ hfv.symm, hw₆, Memory.set_self]
  · intro a m ha
    have hap : a ≠ p := by
      rintro rfl
      rw [Memory.without_self] at ha
      cases ha
    rw [Memory.without_of_ne _ hap] at ha
    rw [hw₆, Memory.set_of_ne _ _ (Memory.ne_of_fresh ha hv),
      Memory.set_of_ne _ _ (Memory.ne_of_fresh ha hh),
      Memory.set_of_ne _ _ (Memory.ne_of_fresh ha hf), Memory.set_of_ne _ _ hap, ha]

/-! ## The loop over the configuration -/

/-- The arguments for a list of pairs: keys and values take turns. -/
def pairArgs (pairs : List (Str × Str)) : List Str := pairs.flatMap fun pair => [pair.1, pair.2]

/-- The form as it stands in memory, at `form` below `config`. -/
structure FormAt (m : Memory Str) (config form : ℕ) (keys : List Str) : Prop where
  config : m config = some ((Element.bare "configure".toList).add (.tag form))
  form : ∃ items, m form = some { formNode with items := items } ∧
    HasItems (m.without form) items (hiddenTree :: keys.map emptyField)

/-- What the loop has done with some pairs, from the memory `m₀` on. -/
structure ConfigLoop.Holds (x : Iks W) (m₀ : Memory Str) (config : ℕ) (keys : List Str)
    (c : ConfigLoop W) : Prop where
  /-- The elements that were there before stay, the parent of the form apart. -/
  kept : (m₀.without config).Within (x.nodes c.mem)
  form : match c.form with
    | none => keys = [] ∧ x.nodes c.mem config = some (.bare "configure".toList)
    | some f => keys ≠ [] ∧ m₀ f = none ∧ FormAt (x.nodes c.mem) config f keys
  i : c.i = 2 * keys.length
  nargs : c.nargs = keys.length
  nvals : c.nvals = keys.length

/-- From the second turn on the form is there.

**Proof sketch.** Without a form it is made (`makeForm_spec`), and has no keys yet; with one
nothing is done. -/
lemma formOf_spec {m₀ : Memory Str} {config : ℕ} {keys : List Str} {c : ConfigLoop W}
    (h : c.Holds x m₀ config keys) (hconfig : m₀ config ≠ none) :
    ∃ w f, formOf x c (some config) = (w, some f) ∧ m₀ f = none ∧
      FormAt (x.nodes w) config f keys ∧ (m₀.without config).Within (x.nodes w) := by
  obtain ⟨mem, form, i, nargs, nvals⟩ := c
  have hform := h.form
  cases form with
  | none =>
    obtain ⟨rfl, hbare⟩ := hform
    obtain ⟨w, f, hid, hmake, hfresh, hconfig', hf, htree, hwithin⟩ := makeForm_spec hbare
    -- the elements from before are none of those that `makeForm` changes
    have hkept : (m₀.without config).Within ((x.nodes mem).without config) := by
      intro a n ha
      have hne : a ≠ config := by
        rintro rfl
        rw [Memory.without_self] at ha
        cases ha
      rw [Memory.without_of_ne _ hne]
      exact h.kept a n ha
    refine ⟨w, f, hmake, ?_, ⟨hconfig', _, hf, .tag htree .nil⟩, hkept.trans hwithin⟩
    by_contra hold
    obtain ⟨n, hn⟩ := Option.ne_none_iff_exists'.mp hold
    have hne : f ≠ config := (Memory.ne_of_fresh hbare hfresh).symm
    rw [← Memory.without_of_ne m₀ hne] at hn
    rw [h.kept f n hn] at hfresh
    cases hfresh
  | some f => exact ⟨mem, f, rfl, hform.2.1, hform.2.2, h.kept⟩

/-- **A pair**: its key becomes an empty field, and its value is lost.

**Proof sketch.** The turn of the key inserts a field under the form and sets its `var`. On the
turn of the value the pointer to the field is `NULL` again, so nothing is inserted. The new
field is a tree of its own at a fresh address, behind those of the keys before. -/
lemma configStep_pair {m₀ : Memory Str} {config : ℕ} {keys : List Str} {c : ConfigLoop W}
    (h : c.Holds x m₀ config keys) (hconfig : m₀ config ≠ none) (key value : Str) :
    (configStep x (some config) (configStep x (some config) c key) value).Holds x m₀ config
      (keys ++ [key]) := by
  obtain ⟨w, f, hform, hfresh, hat, hkept⟩ := formOf_spec h hconfig
  obtain ⟨items, hf, hitems⟩ := hat.form
  obtain ⟨q, w', hinsert, hq, hw'⟩ := Iks.insert_nodes hf "field".toList
  have hw'' := Iks.insertAttrib_set hw' "var".toList (some (fieldName key))
  have hne : f ≠ q := Memory.ne_of_fresh hf hq
  have hstep : configStep x (some config) c key =
      ⟨x.insertAttrib w' (some q) "var".toList (some (fieldName key)), some f, c.i + 1,
        c.nargs + 1, c.nvals⟩ := by
    rw [configStep, hform]
    show (if c.i % 2 = 0 then _ else _) = _
    rw [if_pos (by rw [h.i]; omega)]
    show ConfigLoop.mk (x.insertAttrib (x.insert w _ _).1 (x.insert w _ _).2 _ _) _ _ _ _ = _
    rw [hinsert]
    rfl
  have hstep' : ∀ c' : ConfigLoop W, c'.form = some f → c'.i % 2 = 1 →
      configStep x (some config) c' value =
        ⟨c'.mem, some f, c'.i + 1, c'.nargs, c'.nvals + 1⟩ := by
    intro c' hf' hodd
    rw [configStep, formOf, hf']
    show (if c'.i % 2 = 0 then _ else _) = _
    rw [if_neg (by omega)]
    show ConfigLoop.mk (x.insertCdata (x.insert c'.mem none _).1 (x.insert c'.mem none _).2 _ _)
      _ _ _ _ = _
    rw [x.insert_null, x.insertCdata_null]
  rw [hstep, hstep' _ rfl (by show (c.i + 1) % 2 = 1; rw [h.i]; omega)]
  have hwithin : ((x.nodes w).without f).Within
      ((x.nodes (x.insertAttrib w' (some q) "var".toList (some (fieldName key)))).without f) := by
    rw [hw'', Memory.set_without _ _ hne.symm, Memory.without_set]
    exact Memory.within_set ((Memory.without_of_ne _ hne.symm).trans hq) _
  refine ⟨?_, ⟨List.concat_ne_nil _ _, hfresh, ?_, items ++ [.tag q], ?_, ?_⟩, ?_, ?_, ?_⟩
  · intro a n ha
    have hm := hkept a n ha
    have haf : a ≠ f := Memory.ne_of_fresh (Memory.without_within _ _ a n ha) hfresh
    rw [hw'', Memory.set_of_ne _ _ (Memory.ne_of_fresh hm hq), Memory.set_of_ne _ _ haf, hm]
  · have hcf : config ≠ f := by
      obtain ⟨n, hn⟩ := Option.ne_none_iff_exists'.mp hconfig
      exact Memory.ne_of_fresh hn hfresh
    rw [hw'', Memory.set_of_ne _ _ (Memory.ne_of_fresh hat.config hq), Memory.set_of_ne _ _ hcf]
    exact hat.config
  · rw [hw'', Memory.set_of_ne _ _ hne, Memory.set_self]
    rfl
  · rw [List.map_append, ← List.cons_append]
    refine (hitems.within hwithin).concat (.tag (n := fieldNode (fieldName key)) ?_ .nil)
    rw [Memory.without_of_ne _ hne.symm, hw'', Memory.set_self]
    rfl
  · show c.i + 1 + 1 = _
    rw [h.i, List.length_append, List.length_singleton]
    omega
  · show c.nargs + 1 = _
    rw [h.nargs, List.length_append, List.length_singleton]
  · show c.nvals + 1 = _
    rw [h.nvals, List.length_append, List.length_singleton]

/-- Pair by pair, the form gets a field for each key.

**Proof sketch.** Induction on the pairs; one pair is `configStep_pair`. -/
lemma configLoop_holds (pairs : List (Str × Str)) {m₀ : Memory Str} {config : ℕ}
    {keys : List Str} {c : ConfigLoop W} (h : c.Holds x m₀ config keys)
    (hconfig : m₀ config ≠ none) :
    ((pairArgs pairs).foldl (configStep x (some config)) c).Holds x m₀ config
      (keys ++ pairs.map Prod.fst) := by
  induction pairs generalizing keys c with
  | nil =>
    rw [List.map_nil, List.append_nil]
    exact h
  | cons pair pairs ih =>
    have hrest := ih (configStep_pair h hconfig pair.1 pair.2)
    rwa [List.append_assoc] at hrest

/-! ## The tree of the stanza -/

/-- The element `create`. -/
def createNode (node : Option Str) : Element Str :=
  match node with
  | some node => (Element.bare "create".toList).setAttrib "node".toList (some node)
  | none => .bare "create".toList

/-- The element `configure`, which is empty when there are no pairs. -/
def configTree (keys : List Str) : ElementTree Str :=
  .tag "configure".toList (fun _ => none) (if keys = [] then [] else [formTree keys])

/-- The tree of the stanza, with its id. -/
def nodeTree (from' to' : Option Str) (sid : Str) (node : Option Str) (keys : List Str) :
    ElementTree Str :=
  .tag "iq".toList (addressed (typedIq .set) from' to' sid).attribs
    [.tag "pubsub".toList pubsubNode.attribs
      [.tag "create".toList (createNode node).attribs [], configTree keys]]

/-- What the loop leaves under the element of the configuration is a tree.

**Proof sketch.** Without a form the element is bare. With one it has a single child, the form,
whose items are the trees of the fields. -/
lemma ConfigLoop.Holds.hasTree {m₀ : Memory Str} {config : ℕ} {keys : List Str} {c : ConfigLoop W}
    (h : c.Holds x m₀ config keys) : HasTree (x.nodes c.mem) config (configTree keys) := by
  obtain ⟨mem, form, i, nargs, nvals⟩ := c
  have hform := h.form
  cases form with
  | none =>
    obtain ⟨rfl, hbare⟩ := hform
    exact .tag (n := .bare "configure".toList) hbare .nil
  | some f =>
    obtain ⟨hkeys, -, hat⟩ := hform
    obtain ⟨items, hf, hitems⟩ := hat.form
    rw [configTree, if_neg hkeys]
    refine .tag (n := (Element.bare "configure".toList).add (.tag f)) hat.config (.tag ?_ .nil)
    exact .tag (n := { formNode with items := items }) hf
      (hitems.within (Memory.without_within _ f))

/-- The `create` element with its attribute. -/
lemma nodes_createNode {w : W} {m : Memory Str} {p : ℕ}
    (hw : x.nodes w = m.set p (.bare "create".toList)) (node : Option Str) :
    x.nodes (insertAttribIf x w (some p) "node".toList node) = m.set p (createNode node) := by
  cases node with
  | none => exact hw
  | some node => exact Iks.insertAttrib_set hw "node".toList (some node)

/-- The `create` element has no content. -/
lemma items_createNode (node : Option Str) : (createNode node).items = [] := by
  cases node <;> rfl

/-- The name of the `create` element. -/
lemma name_createNode (node : Option Str) : (createNode node).name = "create".toList := by
  cases node <;> rfl

/-- **The stanza** that is built for a list of pairs, from any state.

**Proof sketch.** `createiqps_spec` gives the stanza with its `pubsub` child; `create` and
`configure` are inserted there, at fresh addresses. The loop works below `configure` and keeps
everything else, so the tree is put together from that of the loop, the bare `create` and the
two elements above. -/
theorem buildNode_tree (s : Pubsub W) (from' to' node : Option Str) (pairs : List (Str × Str)) :
    ∃ mem iq, buildNode x s from' to' node (pairArgs pairs) =
        some (⟨mem, s.queryNid, toInt (s.psNid + 1)⟩, iq) ∧
      HasTree (x.nodes mem) iq (nodeTree from' to' (psId s.psNid) node (pairs.map Prod.fst)) := by
  obtain ⟨w, iq, ps, hmake, hiq, hps, hne⟩ := createiqps_spec (x := x) s from' to' .set
  have hchild : ∀ w', x.nodes w' iq = x.nodes w iq → x.child w' (some iq) = some ps :=
    fun w' hw' => x.child_eq w' iq _ ps [] (hw'.trans hiq) rfl
  obtain ⟨create, w₁, hinsert, hcreate, hw₁⟩ := Iks.insert_nodes hps "create".toList
  have hw₂ := nodes_createNode hw₁ node
  have hpc : ps ≠ create := Memory.ne_of_fresh hps hcreate
  have hic : iq ≠ create := Memory.ne_of_fresh hiq hcreate
  have hiq₂ : x.nodes (insertAttribIf x w₁ (some create) "node".toList node) iq = x.nodes w iq := by
    rw [hw₂, Memory.set_of_ne _ _ hic, Memory.set_of_ne _ _ hne.symm]
  have hps₂ : x.nodes (insertAttribIf x w₁ (some create) "node".toList node) ps =
      some (pubsubNode.add (.tag create)) := by
    rw [hw₂, Memory.set_of_ne _ _ hpc, Memory.set_self]
  have hcreate₂ : x.nodes (insertAttribIf x w₁ (some create) "node".toList node) create =
      some (createNode node) := by
    rw [hw₂, Memory.set_self]
  obtain ⟨config, w₃, hconfig, hfresh, hw₃⟩ := Iks.insert_nodes hps₂ "configure".toList
  have hself : x.nodes w₃ config = some (.bare "configure".toList) := by
    rw [hw₃, Memory.set_self]
  have hstart : ConfigLoop.Holds x (x.nodes w₃) config [] ⟨w₃, none, 0, 0, 0⟩ :=
    ⟨Memory.without_within (x.nodes w₃) config, ⟨rfl, hself⟩, rfl, rfl, rfl⟩
  have hloop := configLoop_holds pairs hstart (by rw [hself]; exact Option.some_ne_none _)
  rw [List.nil_append] at hloop
  have hbuild : buildNode x s from' to' node (pairArgs pairs) =
      some (⟨((pairArgs pairs).foldl (configStep x (some config)) ⟨w₃, none, 0, 0, 0⟩).mem,
        s.queryNid, toInt (s.psNid + 1)⟩, iq) := by
    rw [buildNode, hmake]
    show (
      let r := x.insert w (x.child w (some iq)) "create".toList
      let w₂ := insertAttribIf x r.1 r.2 "node".toList node
      let r' := x.insert w₂ (x.child w₂ (some iq)) "configure".toList
      let c := (pairArgs pairs).foldl (configStep x r'.2) ⟨r'.1, none, 0, 0, 0⟩
      if c.nargs = c.nvals then some (Pubsub.mk c.mem s.queryNid (toInt (s.psNid + 1)), iq)
      else none) = _
    dsimp only
    rw [hchild w rfl, hinsert]
    dsimp only
    rw [hchild _ hiq₂, hconfig]
    exact if_pos (hloop.nargs.trans hloop.nvals.symm)
  generalize (pairArgs pairs).foldl (configStep x (some config)) ⟨w₃, none, 0, 0, 0⟩ = c
    at hloop hbuild
  refine ⟨c.mem, iq, hbuild, ?_⟩
  -- what was there before the loop is there behind it
  have hkept : ∀ {a : ℕ} {n : Element Str}, x.nodes w₃ a = some n → a ≠ config →
      x.nodes c.mem a = some n :=
    fun ha hne' => hloop.kept _ _ ((Memory.without_of_ne _ hne').trans ha)
  have hiq₃ : x.nodes w₃ iq =
      some ((addressed (typedIq .set) from' to' (psId s.psNid)).add (.tag ps)) := by
    rw [hw₃, Memory.set_of_ne _ _ (Memory.ne_of_fresh (hiq₂.trans hiq) hfresh),
      Memory.set_of_ne _ _ hne.symm, hiq₂]
    exact hiq
  have hps₃ : x.nodes w₃ ps = some ((pubsubNode.add (.tag create)).add (.tag config)) := by
    rw [hw₃, Memory.set_of_ne _ _ (Memory.ne_of_fresh hps₂ hfresh), Memory.set_self]
  have hcreate₃ : x.nodes w₃ create = some (createNode node) := by
    rw [hw₃, Memory.set_of_ne _ _ (Memory.ne_of_fresh hcreate₂ hfresh),
      Memory.set_of_ne _ _ hpc.symm]
    exact hcreate₂
  have htree : HasTree (x.nodes c.mem) create
      (.tag (createNode node).name (createNode node).attribs []) := by
    refine .tag (hkept hcreate₃ (Memory.ne_of_fresh hcreate₂ hfresh)) ?_
    rw [items_createNode]
    exact .nil
  rw [name_createNode] at htree
  have hps' := HasTree.tag (hkept hps₃ (Memory.ne_of_fresh hps₂ hfresh))
    (.tag htree (.tag hloop.hasTree .nil))
  have hroot := HasTree.tag (hkept hiq₃ (Memory.ne_of_fresh (hiq₂.trans hiq) hfresh))
    (.tag hps' .nil)
  exact hroot

/-! ## Forms that carry the pairs -/

/-- A field with its name and its value. -/
def IsField (var value : Str) (field : ElementTree Str) : Prop :=
  ∃ attribs valueAttribs, attribs "var".toList = some var ∧
    field = .tag "field".toList attribs [.tag "value".toList valueAttribs [.cdata value]]

/-- What the element `configure` has for a list of pairs: nothing when there are none, and else a
form with the hidden field and a field for each pair. -/
def FormOf (pairs : List (Str × Str)) (items : List (ElementTree Str)) : Prop :=
  if pairs = [] then items = []
  else ∃ attribs hidden fields, items = [.tag "x".toList attribs (hidden :: fields)] ∧
    IsField "FORM_TYPE".toList nsPsConfig hidden ∧
    hidden.attrib "type".toList = some "hidden".toList ∧
    List.Forall₂ (fun pair => IsField ("pubsub#".toList ++ pair.1) pair.2) pairs fields

/-- The children of the element `configure` of a stanza. -/
def configItems : ElementTree Str → Option (List (ElementTree Str))
  | .tag _ _ (.tag _ _ items :: _) => items.findSome? fun
    | .tag name _ items => if name = "configure".toList then some items else none
    | .cdata _ => none
  | _ => none

/-- The stanza that a builder returned has the form for the pairs; it is the tree. -/
def CarriesForm (x : Iks W) (pairs : List (Str × Str)) (r : Option (Pubsub W × ℕ))
    (tree : ElementTree Str) : Prop :=
  ∃ s iq items, r = some (s, iq) ∧ HasTree (x.nodes s.mem) iq tree ∧
    configItems tree = some items ∧ FormOf pairs items

/-- Both builders carry the pairs, whatever the states are, and they give one tree apart from the
id. An array that is `NULL` has no pairs. -/
def NodeFormsCarry (x : Iks W) (s s' : Pubsub W) (from' to' node : Option Str)
    (pairs : List (Str × Str)) : Prop :=
  ∀ conf : Option (List Str), conf.getD [] = pairArgs pairs →
    ∃ tree tree', CarriesForm x pairs (pubsubNodeCreate x s from' to' node (pairArgs pairs)) tree ∧
      CarriesForm x pairs (pubsubNodeCreatev x s' from' to' node conf) tree' ∧
      tree.dropAttrib "id".toList = tree'.dropAttrib "id".toList

/-- The content of the configuration in the tree that is built. -/
lemma configItems_nodeTree (from' to' : Option Str) (sid : Str) (node : Option Str)
    (keys : List Str) :
    configItems (nodeTree from' to' sid node keys) =
      some (if keys = [] then [] else [formTree keys]) := rfl

/-- The id is the only thing in the tree that the state decides. -/
lemma nodeTree_dropAttrib (from' to' : Option Str) (sid sid' : Str) (node : Option Str)
    (keys : List Str) :
    (nodeTree from' to' sid node keys).dropAttrib "id".toList =
      (nodeTree from' to' sid' node keys).dropAttrib "id".toList := by
  show ElementTree.tag _ (Function.update (addressed _ _ _ sid).attribs _ none) _ =
    ElementTree.tag _ (Function.update (addressed _ _ _ sid').attribs _ none) _
  congr 1
  exact (Function.update_idem _ _ _).trans (Function.update_idem _ _ _).symm

/-- A field that is empty is not the field of a pair. -/
lemma not_formOf_formTree {pairs : List (Str × Str)} (hne : pairs ≠ []) :
    ¬ FormOf pairs [formTree (pairs.map Prod.fst)] := by
  rw [FormOf, if_neg hne]
  rintro ⟨attribs, hidden, fields, hitems, -, -, hfields⟩
  obtain ⟨-, -, hsub⟩ := ElementTree.tag.inj (List.cons.inj hitems).1
  obtain ⟨-, rfl⟩ := List.cons.inj hsub
  cases hfields with
  | nil => exact hne rfl
  | cons hfield hrest =>
    obtain ⟨_, _, -, hempty⟩ := hfield
    exact List.cons_ne_nil _ _ (ElementTree.tag.inj hempty).2.2.symm

/-- What a builder's tree is, and when it has the form.

**Proof sketch.** The stanza has one tree (`buildNode_tree`). A form that is built has no
values, so it is not the one that the pairs ask for (`not_formOf_formTree`); without pairs there
is no form. -/
lemma carriesForm_iff (s : Pubsub W) (from' to' node : Option Str) (pairs : List (Str × Str))
    (tree : ElementTree Str) :
    CarriesForm x pairs (buildNode x s from' to' node (pairArgs pairs)) tree ↔
      tree = nodeTree from' to' (psId s.psNid) node (pairs.map Prod.fst) ∧ pairs = [] := by
  obtain ⟨mem, iq, hbuild, htree⟩ := buildNode_tree (x := x) s from' to' node pairs
  constructor
  · rintro ⟨s', iq', items, hr, ht, hitems, hform⟩
    obtain ⟨rfl, rfl⟩ := Prod.mk.inj (Option.some.inj (hbuild.symm.trans hr))
    obtain rfl := ht.unique htree
    refine ⟨rfl, ?_⟩
    by_contra hne
    rw [configItems_nodeTree, if_neg (fun h => hne (List.map_eq_nil_iff.mp h))] at hitems
    obtain rfl := Option.some.inj hitems
    exact not_formOf_formTree hne hform
  · rintro ⟨rfl, rfl⟩
    refine ⟨_, iq, [], hbuild, htree, configItems_nodeTree _ _ _ _ _, ?_⟩
    rw [FormOf, if_pos rfl]

/-- **Element configuration forms carry no pair**: the form is right exactly when there are none. -/
theorem node_forms_carry_iff (x : Iks W) (s s' : Pubsub W) (from' to' node : Option Str)
    (pairs : List (Str × Str)) : NodeFormsCarry x s s' from' to' node pairs ↔ pairs = [] := by
  constructor
  · intro h
    obtain ⟨tree, tree', hcreate, -⟩ := h (some (pairArgs pairs)) rfl
    exact ((carriesForm_iff s from' to' node pairs tree).mp hcreate).2
  · rintro rfl conf hconf
    refine ⟨_, _, (carriesForm_iff s from' to' node [] _).mpr ⟨rfl, rfl⟩, ?_,
      nodeTree_dropAttrib from' to' (psId s.psNid) (psId s'.psNid) node []⟩
    rw [pubsubNodeCreatev, hconf]
    exact (carriesForm_iff s' from' to' node [] _).mpr ⟨rfl, rfl⟩

/-- One pair, as the documentation of the functions has it. -/
theorem node_forms_one_pair :
    ¬ NodeFormsCarry iksNodes ⟨IksMemory.empty, 0, 0⟩ ⟨IksMemory.empty, 0, 0⟩
      (some "test@blah".toList) (some "pubsub.blah".toList) (some "/mynode".toList)
      [("type".toList, "leaf".toList)] := by
  intro h
  obtain ⟨tree, tree', hcreate, -⟩ := h (some (pairArgs _)) rfl
  exact List.cons_ne_nil _ _ ((carriesForm_iff _ _ _ _ _ tree).mp hcreate).2

end Taningia
