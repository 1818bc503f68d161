import Taningia.Pubsub.Forms

set_option relaxedAutoImplicit false
set_option autoImplicit false

/-!
# The ids of the stanzas

Behind the call that makes it, no function touches the `iq` element of a stanza again. So the id of
a stanza is the one that its counter gave, and each call moves one of the two counters on.

## Main definitions

* `Taningia.Iks.Queried`, `Taningia.Iks.Requested` — what a call did to the counters, and its id.
* `Taningia.stanzaIds` — the ids of the stanzas that a sequence of calls returns.

## Main results

* `Taningia.pubsubStep_spec` — the id of the stanza of each call.
* `Taningia.stanza_ids_distinct` — the ids of a run.
-/

namespace Taningia

open Elements

variable {W : Type} (x : Iks W)

/-- A query was made: its id is of the first counter. -/
structure Iks.Queried (s : Pubsub W) (r : Pubsub W × ℕ) : Prop where
  queryNid : r.1.queryNid = toInt (s.queryNid + 1)
  psNid : r.1.psNid = s.psNid
  id : x.idOf r.1.mem r.2 = some (queryId s.queryNid)

/-- A request was made: its id is of the second counter. -/
structure Iks.Requested (s : Pubsub W) (r : Pubsub W × ℕ) : Prop where
  queryNid : r.1.queryNid = s.queryNid
  psNid : r.1.psNid = toInt (s.psNid + 1)
  id : x.idOf r.1.mem r.2 = some (psId s.psNid)

variable {x} (s : Pubsub W) (from' to' : Option Str)

/-! ## Queries -/

/-- `ta_pubsub_query_features` makes a query. -/
lemma queried_queryFeatures : x.Queried s (pubsubQueryFeatures x s from' to') := by
  obtain ⟨w, iq, child, hmake, hiq⟩ := createiq_spec (x := x) s from' to' .get nsInfo
  rw [pubsubQueryFeatures, hmake]
  exact ⟨rfl, rfl, hiq.idOf⟩

/-- `ta_pubsub_node_query_info` makes a query. -/
lemma queried_nodeQueryInfo (node : Option Str) :
    x.Queried s (pubsubNodeQueryInfo x s from' to' node) := by
  obtain ⟨w, iq, child, hmake, hiq⟩ := createiq_spec (x := x) s from' to' .get nsInfo
  rw [pubsubNodeQueryInfo, hmake]
  dsimp only
  rw [hiq.child_eq]
  exact ⟨rfl, rfl, (hiq.steps (hiq.content.insertAttrib _ _)).idOf⟩

/-- `ta_pubsub_node_query_nodes` makes a query. -/
lemma queried_nodeQueryNodes (node : Option Str) :
    x.Queried s (pubsubNodeQueryNodes x s from' to' node) := by
  obtain ⟨w, iq, child, hmake, hiq⟩ := createiq_spec (x := x) s from' to' .get nsItem
  rw [pubsubNodeQueryNodes, hmake]
  dsimp only
  rw [hiq.child_eq]
  exact ⟨rfl, rfl, (hiq.steps (hiq.content.insertAttribIf _ _)).idOf⟩

/-! ## Requests -/

/-- A request has a child in its `pubsub` element, which is filled next. -/
lemma request_child (type : IksSubtype) (name : Str) :
    ∃ w iq child w' sub,
      createiqps x s from' to' type = (⟨w, s.queryNid, toInt (s.psNid + 1)⟩, iq) ∧
      x.insert w (x.child w (some iq)) name = (w', some sub) ∧
      x.HasIq w' iq child (psId s.psNid) ∧ x.nodes w' sub = some (.bare name) ∧
      x.Beside iq w' sub := by
  obtain ⟨w, iq, child, hmake, hiq⟩ := createiqps_hasIq (x := x) s from' to' type
  obtain ⟨sub, w', hinsert, hs, hsub, hbeside⟩ :=
    hiq.content.insert hiq.root_ne_none name
  refine ⟨w, iq, child, w', sub, hmake, ?_, hiq.steps hs, hsub, hbeside⟩
  rw [hiq.child_eq, hinsert]

/-- **A request** whose child is filled beside the stanza. -/
lemma requested_fill (type : IksSubtype) (name : Str) (fill : W → Option ℕ → W)
    (hfill : ∀ iq w sub, x.Beside iq w sub → x.Steps iq w (fill w (some sub))) :
    x.Requested s
      (let (s, iq) := createiqps x s from' to' type
       let (w, sub) := x.insert s.mem (x.child s.mem (some iq)) name
       ({ s with mem := fill w sub }, iq)) := by
  obtain ⟨w, iq, child, w', sub, hmake, hinsert, hiq, -, hsub⟩ :=
    request_child (x := x) s from' to' type name
  rw [hmake]
  show x.Requested s (⟨fill (x.insert w _ _).1 (x.insert w _ _).2, _, _⟩, iq)
  rw [hinsert]
  exact ⟨rfl, rfl, (hiq.steps (hfill iq w' sub hsub)).idOf⟩

/-- `ta_pubsub_query_affiliations` makes a request. -/
lemma requested_queryAffiliations : x.Requested s (pubsubQueryAffiliations x s from' to') :=
  requested_fill s from' to' .get "affiliations".toList (fun w _ => w)
    fun iq w _ _ => Iks.Steps.refl iq w

/-- `ta_pubsub_node_query_subscriptions` makes a request. -/
lemma requested_nodeQuerySubscriptions (node : Option Str) :
    x.Requested s (pubsubNodeQuerySubscriptions x s from' to' node) :=
  requested_fill s from' to' .get "subscriptions".toList
    (fun w sub => insertAttribIf x w sub "node".toList node)
    fun _ _ _ hsub => hsub.insertAttribIf _ _

/-- `ta_pubsub_node_query_affiliations` makes a request. -/
lemma requested_nodeQueryAffiliations (node : Option Str) :
    x.Requested s (pubsubNodeQueryAffiliations x s from' to' node) :=
  requested_fill s from' to' .get "affiliations".toList
    (fun w sub => x.insertAttrib w sub "node".toList node)
    fun _ _ _ hsub => hsub.insertAttrib _ _

/-- To subscribe and to unsubscribe make a request.

**Proof sketch.** With or without a JID two attributes are put on the element, one after the
other, which is beside the stanza itself. -/
lemma requested_requestSubscription (name : Str) (node jid : Option Str) :
    x.Requested s (requestSubscription x s from' to' name node jid) := by
  have hfill : ∀ value iq w sub, x.Beside iq w sub →
      x.Steps iq w (x.insertAttrib (x.insertAttrib w (some sub) "node".toList node) (some sub)
        "jid".toList value) := by
    intro value iq w sub hsub
    have hnode := hsub.insertAttrib "node".toList node
    exact hnode.trans ((hsub.steps hnode).insertAttrib "jid".toList value)
  cases jid with
  | none =>
    exact requested_fill s from' to' .set name (fun w sub => x.insertAttrib
      (x.insertAttrib w sub "node".toList node) sub "jid".toList from') (hfill from')
  | some jid =>
    exact requested_fill s from' to' .set name (fun w sub => x.insertAttrib
      (x.insertAttrib w sub "node".toList node) sub "jid".toList (some jid)) (hfill (some jid))

/-- `ta_pubsub_node_items` makes a request, with a limit or without. -/
lemma requested_nodeItems (node : Option Str) (maxItems : ℤ) :
    x.Requested s (pubsubNodeItems x s from' to' node maxItems) := by
  refine requested_fill s from' to' .get "items".toList (fun w sub =>
    if maxItems > 0 then x.insertAttrib (x.insertAttrib w sub "node".toList node) sub
      "max_items".toList (some (snprintf 32 (sprintfInt maxItems)))
    else x.insertAttrib w sub "node".toList node) fun iq w sub hsub => ?_
  have hnode := hsub.insertAttrib "node".toList node
  by_cases hmax : maxItems > 0
  · rw [if_pos hmax]
    exact hnode.trans ((hsub.steps hnode).insertAttrib _ _)
  · rw [if_neg hmax]
    exact hnode

/-- Two elements are made, one in the other, as for an item.

**Proof sketch.** `request_child` makes the first element; an attribute on it changes the stanza
no more, so the second element is inserted into it beside the stanza as well. -/
lemma request_item (name : Str) (node : Option Str) :
    ∃ w iq child w' sub w'' item,
      createiqps x s from' to' .set = (⟨w, s.queryNid, toInt (s.psNid + 1)⟩, iq) ∧
      x.insert w (x.child w (some iq)) name = (w', some sub) ∧
      x.insert (x.insertAttrib w' (some sub) "node".toList node) (some sub) "item".toList =
        (w'', some item) ∧
      x.HasIq w'' iq child (psId s.psNid) ∧ x.nodes w'' item = some (.bare "item".toList) ∧
      x.Beside iq w'' item := by
  obtain ⟨w, iq, child, w', sub, hmake, hinsert, hiq, -, hsub⟩ :=
    request_child (x := x) s from' to' .set name
  have hnode := hsub.insertAttrib "node".toList node
  obtain ⟨item, w'', hitem, hs, hn, hbeside⟩ :=
    (hsub.steps hnode).insert (hiq.steps hnode).root_ne_none "item".toList
  exact ⟨w, iq, child, w', sub, w'', item, hmake, hinsert, hitem, (hiq.steps hnode).steps hs, hn,
    hbeside⟩

/-- `ta_pubsub_node_delete_item` makes a request. -/
lemma requested_nodeDeleteItem (node id : Option Str) :
    x.Requested s (pubsubNodeDeleteItem x s from' to' node id) := by
  obtain ⟨w, iq, child, w', sub, w'', item, hmake, hinsert, hitem, hiq, -, hbeside⟩ :=
    request_item (x := x) s from' to' "retract".toList node
  rw [pubsubNodeDeleteItem, hmake]
  show x.Requested s
    (let r := x.insert w (x.child w (some iq)) "retract".toList
     let r' := x.insert (x.insertAttrib r.1 r.2 "node".toList node) r.2 "item".toList
     (⟨x.insertAttrib r'.1 r'.2 "id".toList id, s.queryNid, toInt (s.psNid + 1)⟩, iq))
  rw [hinsert]
  dsimp only
  rw [hitem]
  exact ⟨rfl, rfl, (hiq.steps (hbeside.insertAttrib _ _)).idOf⟩

/-- The element `delete` is made apart and put into the `pubsub` element.

**Proof sketch.** The stanza has its identifier from `createiqps`. The new element is a node of
its own until it is put in, and `iks_insert_node` changes no attribute. -/
lemma requested_nodeDelete (node : Option Str) :
    x.Requested s (pubsubNodeDelete x s from' to' node) := by
  obtain ⟨w, iq, child, hmake, hiq⟩ := createiqps_hasIq (x := x) s from' to' .set
  have hiq₁ := hiq.steps (hiq.content.insertAttrib "xmlns".toList (some nsPsOwner))
  obtain ⟨del, w₂, hnew, hdel, hs⟩ := hiq₁.new "delete".toList
  have hiq₂ := (hiq₁.steps hs).steps (hdel.insertAttrib "node".toList node)
  rw [pubsubNodeDelete, hmake]
  show x.Requested s
    (let ps := x.child w (some iq)
     let r := x.new (x.insertAttrib w ps "xmlns".toList (some nsPsOwner)) "delete".toList
     (⟨x.insertNode (x.insertAttrib r.1 (some r.2) "node".toList node) ps r.2, s.queryNid,
       toInt (s.psNid + 1)⟩, iq))
  rw [hiq.child_eq]
  dsimp only
  rw [hnew]
  exact ⟨rfl, rfl, (Iks.idOf_insertNode _ _ _ _).trans hiq₂.idOf⟩

/-- The item that is published has no content yet.

**Proof sketch.** `request_item` makes the item bare; the optional attribute on it gives it no
content. -/
lemma publishItem_spec (node id : Option Str) :
    ∃ w iq child item n,
      publishItem x s from' to' node id =
        (⟨w, s.queryNid, toInt (s.psNid + 1)⟩, iq, some item) ∧
      x.HasIq w iq child (psId s.psNid) ∧ x.nodes w item = some n ∧ n.items = [] ∧
      x.Beside iq w item := by
  obtain ⟨w, iq, child, w', sub, w'', item, hmake, hinsert, hitem, hiq, hn, hbeside⟩ :=
    request_item (x := x) s from' to' "publish".toList node
  have hid := hbeside.insertAttribIf "id".toList id
  have hn' : ∃ n, x.nodes (insertAttribIf x w'' (some item) "id".toList id) item = some n ∧
      n.items = [] := by
    cases id with
    | none => exact ⟨_, hn, rfl⟩
    | some id =>
      refine ⟨(Element.bare "item".toList).setAttrib "id".toList (some id), ?_, rfl⟩
      rw [insertAttribIf, x.nodes_insertAttrib _ _ _ _ _ hn, Memory.set_self]
  obtain ⟨n, hn', hitems⟩ := hn'
  refine ⟨_, iq, child, item, n, ?_, hiq.steps hid, hn', hitems, hbeside.steps hid⟩
  rw [publishItem, hmake]
  show (let r := x.insert w (x.child w (some iq)) "publish".toList
    let r' := x.insert (x.insertAttrib r.1 r.2 "node".toList node) r.2 "item".toList
    (Pubsub.mk (insertAttribIf x r'.1 r'.2 "id".toList id) s.queryNid (toInt (s.psNid + 1)), iq,
      r'.2)) = _
  rw [hinsert]
  dsimp only
  rw [hitem]

/-- `ta_pubsub_node_publish_text` makes a request, with a body or without. -/
lemma requested_nodePublishText (node id body : Option Str) (len : ℤ) :
    x.Requested s (pubsubNodePublishText x s from' to' node id body len) := by
  obtain ⟨w, iq, child, item, n, hpublish, hiq, hn, hitems, hbeside⟩ :=
    publishItem_spec (x := x) s from' to' node id
  rw [pubsubNodePublishText, hpublish]
  cases body with
  | none =>
    dsimp only
    rw [x.insertCdata_noText]
    exact ⟨rfl, rfl, hiq.idOf⟩
  | some body =>
    exact ⟨rfl, rfl, (hiq.steps (Iks.steps_insertCdata hn hitems hbeside.ne body len)).idOf⟩

/-- `ta_pubsub_node_publish_iks` makes a request. -/
lemma requested_nodePublishIks (node id : Option Str) (child : ℕ) :
    x.Requested s (pubsubNodePublishIks x s from' to' node id child) := by
  obtain ⟨w, iq, _, item, n, hpublish, hiq, -⟩ := publishItem_spec (x := x) s from' to' node id
  rw [pubsubNodePublishIks, hpublish]
  exact ⟨rfl, rfl, (Iks.idOf_insertNode _ _ _ _).trans hiq.idOf⟩

/-! ## Creating a node -/

/-- A child of an element beside the stanza, and what it means for the stanza. -/
lemma Iks.HasIq.insert {w : W} {iq child p : ℕ} {sid : Str} (h : x.HasIq w iq child sid)
    (hp : x.Beside iq w p) (name : Str) :
    ∃ q w', x.insert w (some p) name = (w', some q) ∧ x.HasIq w' iq child sid ∧
      x.Steps iq w w' ∧ x.nodes w' q = some (.bare name) ∧ x.Beside iq w' q := by
  obtain ⟨q, w', hinsert, hs, hq, hbeside⟩ := hp.insert h.root_ne_none name
  exact ⟨q, w', hinsert, h.steps hs, hs, hq, hbeside⟩

/-- The form is made beside the stanza.

**Proof sketch.** By `makeForm_spec` only the node of the configuration changes, and it is not
that of the stanza; what was there before is there still. -/
lemma makeForm_steps {w : W} {iq config : ℕ} (hconfig : x.Beside iq w config)
    (hiq : x.nodes w iq ≠ none) :
    ∃ w' form, makeForm x w (some config) = (w', some form) ∧ x.Steps iq w w' ∧
      x.Beside iq w' form := by
  obtain ⟨n, hn⟩ := Option.ne_none_iff_exists'.mp hconfig.live
  obtain ⟨m, hm⟩ := Option.ne_none_iff_exists'.mp hiq
  obtain ⟨w', form, hid, hmake, hfresh, hconfig', hform, -, hkept⟩ := makeForm_spec hn
  have hsame : ∀ b k, x.nodes w b = some k → b ≠ config → x.nodes w' b = some k :=
    fun b k hb hne => hkept b k ((Memory.without_of_ne _ hne).trans hb)
  refine ⟨w', form, hmake, ⟨?_, fun b hb => ?_⟩, ?_, (Memory.ne_of_fresh hm hfresh).symm⟩
  · rw [hsame iq m hm hconfig.ne.symm, hm]
  · obtain ⟨k, hk⟩ := Option.ne_none_iff_exists'.mp hb
    by_cases hbc : b = config
    · rw [hbc, hconfig']
      exact Option.some_ne_none _
    · rw [hsame b k hk hbc]
      exact Option.some_ne_none k
  · rw [hform]
    exact Option.some_ne_none _

/-- What the loop over the configuration keeps of the stanza. -/
structure ConfigLoop.Beside (x : Iks W) (iq child config : ℕ) (sid : Str) (c : ConfigLoop W) :
    Prop where
  stanza : x.HasIq c.mem iq child sid
  config : x.Beside iq c.mem config
  form : ∀ f, c.form = some f → x.Beside iq c.mem f

/-- The form is there at the first turn, and later. -/
lemma form_steps {c : ConfigLoop W} {iq child config : ℕ} {sid : Str}
    (h : c.Beside x iq child config sid) :
    ∃ w form, formOf x c (some config) = (w, some form) ∧ x.Steps iq c.mem w ∧
      x.Beside iq w form := by
  unfold formOf
  cases hform : c.form with
  | none => exact makeForm_steps h.config h.stanza.root_ne_none
  | some form => exact ⟨c.mem, form, rfl, Iks.Steps.refl _ _, h.form form hform⟩

/-- One argument of the configuration is worked on beside the stanza.

**Proof sketch.** The form is there or is made beside the stanza. An argument at an even
position makes a field in it, one at an odd position a value in the field, if there is one;
every such insertion is a step beside the stanza. -/
lemma configStep_beside {c : ConfigLoop W} {iq child config : ℕ} {sid : Str}
    (h : c.Beside x iq child config sid) (arg : Str) :
    (configStep x (some config) c arg).Beside x iq child config sid := by
  obtain ⟨w, form, hform, hs, hb⟩ := form_steps h
  have kept : ∀ w' i nargs nvals, x.Steps iq w w' →
      (ConfigLoop.mk w' (some form) i nargs nvals).Beside x iq child config sid := by
    intro w' i nargs nvals hs'
    refine ⟨h.stanza.steps (hs.trans hs'), h.config.steps (hs.trans hs'), ?_⟩
    rintro f hf
    obtain rfl := Option.some.inj hf
    exact hb.steps hs'
  rw [configStep, hform]
  show ConfigLoop.Beside x iq child config sid (if c.i % 2 = 0 then _ else _)
  by_cases heven : c.i % 2 = 0
  · obtain ⟨field, w', hfield, -, hs', -, hb'⟩ := (h.stanza.steps hs).insert hb "field".toList
    rw [if_pos heven]
    show ConfigLoop.Beside x iq child config sid ⟨x.insertAttrib (x.insert w _ _).1
      (x.insert w _ _).2 _ _, _, _, _, _⟩
    rw [hfield]
    exact kept _ _ _ _ (hs'.trans (hb'.insertAttrib _ _))
  · rw [if_neg heven]
    show ConfigLoop.Beside x iq child config sid ⟨x.insertCdata (x.insert w none _).1
      (x.insert w none _).2 _ _, _, _, _, _⟩
    rw [x.insert_null, x.insertCdata_null]
    exact kept _ _ _ _ (Iks.Steps.refl _ _)

/-- The loop over the arguments works beside the stanza. -/
lemma configLoop_beside (args : List Str) {c : ConfigLoop W} {iq child config : ℕ} {sid : Str}
    (h : c.Beside x iq child config sid) :
    (args.foldl (configStep x (some config)) c).Beside x iq child config sid := by
  induction args generalizing c with
  | nil => exact h
  | cons arg args ih => exact ih (configStep_beside h arg)

/-- **The functions that create a node** change the stanza itself no more.

**Proof sketch.** The stanza is made by `request_child`; the elements `create` and `configure`
are put into its content, beside it, and the loop over the arguments stays beside it by
`configLoop_beside`. -/
lemma requested_buildNode {node : Option Str} {args : List Str} {r : Pubsub W × ℕ}
    (h : buildNode x s from' to' node args = some r) : x.Requested s r := by
  obtain ⟨w, iq, child, w', create, hmake, hinsert, hiq, -, hcreate⟩ :=
    request_child (x := x) s from' to' .set "create".toList
  have hiq₁ := hiq.steps (hcreate.insertAttribIf "node".toList node)
  obtain ⟨config, w₂, hconfig, hiq₂, -, -, hb₂⟩ := hiq₁.insert hiq₁.content "configure".toList
  have hloop := configLoop_beside (x := x) args
    (c := ⟨w₂, none, 0, 0, 0⟩) ⟨hiq₂, hb₂, fun f hf => nomatch hf⟩
  rw [← hiq₁.child_eq] at hconfig
  rw [buildNode, hmake] at h
  change (let r := x.insert w (x.child w (some iq)) "create".toList
    let w₁ := insertAttribIf x r.1 r.2 "node".toList node
    let r' := x.insert w₁ (x.child w₁ (some iq)) "configure".toList
    let c := args.foldl (configStep x r'.2) ⟨r'.1, none, 0, 0, 0⟩
    if c.nargs = c.nvals then some (Pubsub.mk c.mem s.queryNid (toInt (s.psNid + 1)), iq)
    else none) = some r at h
  rw [hinsert] at h
  dsimp only at h
  rw [hconfig] at h
  split at h
  · obtain rfl := Option.some.inj h
    exact ⟨rfl, rfl, hloop.stanza.idOf⟩
  · cases h

/-- **Each call** that returns made a query or a request.

**Proof sketch.** One case per call, each closed by the lemma of its function. -/
theorem pubsubStep_spec {call : PubsubCall} {r : Pubsub W × ℕ}
    (h : pubsubStep x s from' to' call = some r) : x.Queried s r ∨ x.Requested s r := by
  cases call with
  | nodeCreate node args => exact .inr (requested_buildNode s from' to' h)
  | nodeCreatev node confParams => exact .inr (requested_buildNode s from' to' h)
  | queryFeatures => exact .inl (Option.some.inj h ▸ queried_queryFeatures s from' to')
  | nodeQueryInfo node => exact .inl (Option.some.inj h ▸ queried_nodeQueryInfo s from' to' node)
  | nodeQueryNodes node => exact .inl (Option.some.inj h ▸ queried_nodeQueryNodes s from' to' node)
  | queryAffiliations => exact .inr (Option.some.inj h ▸ requested_queryAffiliations s from' to')
  | nodeQuerySubscriptions node =>
    exact .inr (Option.some.inj h ▸ requested_nodeQuerySubscriptions s from' to' node)
  | nodeQueryAffiliations node =>
    exact .inr (Option.some.inj h ▸ requested_nodeQueryAffiliations s from' to' node)
  | nodeSubscribe node jid =>
    exact .inr (Option.some.inj h ▸ requested_requestSubscription s from' to' _ node jid)
  | nodeUnsubscribe node jid =>
    exact .inr (Option.some.inj h ▸ requested_requestSubscription s from' to' _ node jid)
  | nodeItems node maxItems =>
    exact .inr (Option.some.inj h ▸ requested_nodeItems s from' to' node maxItems)
  | nodePublishText node id body len =>
    exact .inr (Option.some.inj h ▸ requested_nodePublishText s from' to' node id body len)
  | nodePublishIks node id child =>
    exact .inr (Option.some.inj h ▸ requested_nodePublishIks s from' to' node id child)
  | nodeDelete node => exact .inr (Option.some.inj h ▸ requested_nodeDelete s from' to' node)
  | nodeDeleteItem node id =>
    exact .inr (Option.some.inj h ▸ requested_nodeDeleteItem s from' to' node id)

/-! ## Ids that are numbered -/

/-- A short text and a number fit into the buffer. -/
lemma snprintf_numbered {text : Str} (htext : text.length ≤ 21) {n : ℤ} (h₀ : 0 ≤ n)
    (h : n ≤ intMax) : snprintf 32 (text ++ sprintfInt n) = text ++ sprintfInt n := by
  have hn : sprintfInt n = Nat.toDigits 10 n.toNat := if_neg (by omega)
  have hlen : (Nat.toDigits 10 n.toNat).length ≤ 10 := by
    rw [Nat.length_toDigits_le_iff (by omega) (by omega)]
    unfold intMax at h
    omega
  refine List.take_of_length_le ?_
  rw [List.length_append, hn]
  omega

/-- Different numbers have different texts. -/
lemma sprintfInt_inj {n m : ℤ} (hn : 0 ≤ n) (hm : 0 ≤ m) (h : sprintfInt n = sprintfInt m) :
    n = m := by
  have hdigits := ofDigitChars_sprintfInt hn
  rw [h, ofDigitChars_sprintfInt hm] at hdigits
  omega

/-- The identifier of a query in the range of `int`. -/
lemma queryId_eq {n : ℤ} (h₀ : 0 ≤ n) (h : n ≤ intMax) :
    queryId n = "query".toList ++ sprintfInt n :=
  snprintf_numbered (by decide) h₀ h

/-- The identifier of a request in the range of `int`. -/
lemma psId_eq {n : ℤ} (h₀ : 0 ≤ n) (h : n ≤ intMax) : psId n = "ps".toList ++ sprintfInt n :=
  snprintf_numbered (by decide) h₀ h

/-- The ids that are made when the counters stand at `q` and `p`, and later. -/
def IdFrom (q p : ℤ) (id : Option Str) : Prop :=
  (∃ n, q ≤ n ∧ n ≤ intMax ∧ id = some (queryId n)) ∨
    ∃ n, p ≤ n ∧ n ≤ intMax ∧ id = some (psId n)

/-- An identifier from later counts is one from earlier counts. -/
lemma IdFrom.mono {q q' p p' : ℤ} {id : Option Str} (h : IdFrom q p id) (hq : q' ≤ q)
    (hp : p' ≤ p) : IdFrom q' p' id := by
  rcases h with ⟨n, hn, hmax, rfl⟩ | ⟨n, hn, hmax, rfl⟩
  · exact .inl ⟨n, hq.trans hn, hmax, rfl⟩
  · exact .inr ⟨n, hp.trans hn, hmax, rfl⟩

/-- No identifier of a query is one of a request, by its first letter. -/
lemma queryId_ne_psId {n m : ℤ} (hn : 0 ≤ n) (hn' : n ≤ intMax) (hm : 0 ≤ m) (hm' : m ≤ intMax) :
    queryId n ≠ psId m := by
  rw [queryId_eq hn hn', psId_eq hm hm']
  intro h
  exact absurd (List.cons.inj h).1 (by decide)

/-- A query's id does not come again. -/
lemma not_idFrom_queryId {q p : ℤ} (hq : 0 ≤ q) (hq' : q ≤ intMax) (hp : 0 ≤ p) :
    ¬ IdFrom (q + 1) p (some (queryId q)) := by
  rintro (⟨n, hn, hmax, heq⟩ | ⟨n, hn, hmax, heq⟩)
  · have h := Option.some.inj heq
    rw [queryId_eq hq hq', queryId_eq (by omega) hmax] at h
    have := sprintfInt_inj hq (by omega) (List.append_cancel_left h)
    omega
  · exact queryId_ne_psId hq hq' (hp.trans hn) hmax (Option.some.inj heq)

/-- A request's id does not come again. -/
lemma not_idFrom_psId {q p : ℤ} (hq : 0 ≤ q) (hp : 0 ≤ p) (hp' : p ≤ intMax) :
    ¬ IdFrom q (p + 1) (some (psId p)) := by
  rintro (⟨n, hn, hmax, heq⟩ | ⟨n, hn, hmax, heq⟩)
  · exact queryId_ne_psId (hq.trans hn) hmax hp hp' (Option.some.inj heq).symm
  · have h := Option.some.inj heq
    rw [psId_eq hp hp', psId_eq (by omega) hmax] at h
    have := sprintfInt_inj hp (by omega) (List.append_cancel_left h)
    omega

/-- The id of the session request is not of this kind. -/
lemma IdFrom.ne_auth {q p : ℤ} {id : Option Str} (h : IdFrom q p id) (hq : 0 ≤ q) (hp : 0 ≤ p) :
    id ≠ some "auth".toList := by
  rcases h with ⟨n, hn, hmax, rfl⟩ | ⟨n, hn, hmax, rfl⟩
  · rw [queryId_eq (hq.trans hn) hmax]
    intro h
    exact absurd (List.cons.inj (Option.some.inj h)).1 (by decide)
  · rw [psId_eq (hp.trans hn) hmax]
    intro h
    exact absurd (List.cons.inj (Option.some.inj h)).1 (by decide)

/-! ## The ids of a run -/

/-- The ids of the stanzas that a sequence of calls returns, each as it is when its call returns.
With each call comes the memory that it finds: between the calls the program does with the elements
what it likes. A failed assertion ends the run. -/
def stanzaIds (x : Iks W) : ℤ → ℤ → List (W × Option Str × Option Str × PubsubCall) →
    List (Option Str)
  | _, _, [] => []
  | q, p, (mem, from', to', call) :: rest =>
    match pubsubStep x ⟨mem, q, p⟩ from' to' call with
    | some (s, iq) => x.idOf s.mem iq :: stanzaIds x s.queryNid s.psNid rest
    | none => []

/-- One call: the first id is of a counter, and the others come when it has moved on.

**Proof sketch.** A call that returns made a query or a request (`pubsubStep_spec`), whose
identifier is of the one counter as it was; this counter goes up by one, without wrapping as it
is below the largest `int`, and the other stays. -/
lemma stanzaIds_cons {q p : ℤ} (hq : 0 ≤ q) (hp : 0 ≤ p) (hmax : q + p < intMax)
    (c : W × Option Str × Option Str × PubsubCall)
    (rest : List (W × Option Str × Option Str × PubsubCall)) :
    stanzaIds x q p (c :: rest) = [] ∨
      stanzaIds x q p (c :: rest) = some (queryId q) :: stanzaIds x (q + 1) p rest ∨
      stanzaIds x q p (c :: rest) = some (psId p) :: stanzaIds x q (p + 1) rest := by
  obtain ⟨mem, from', to', call⟩ := c
  rw [stanzaIds]
  cases hstep : pubsubStep x ⟨mem, q, p⟩ from' to' call with
  | none => exact .inl rfl
  | some r =>
    dsimp only
    rcases pubsubStep_spec _ from' to' hstep with h | h
    · have hnid : r.1.queryNid = toInt (q + 1) := h.queryNid
      rw [toInt_of_range (by omega) (by omega)] at hnid
      rw [h.id, h.psNid, hnid]
      exact .inr (.inl rfl)
    · have hnid : r.1.psNid = toInt (p + 1) := h.psNid
      rw [toInt_of_range (by omega) (by omega)] at hnid
      rw [h.id, h.queryNid, hnid]
      exact .inr (.inr rfl)

/-- The identifiers are different, and are all from the counts that the run starts with on.

**Proof sketch.** Induction on the calls. The first identifier is of a counter at its start, and
those that follow are from the counter moved on, or from the other counter, whose identifiers
start with another letter. -/
lemma stanzaIds_from (calls : List (W × Option Str × Option Str × PubsubCall)) {q p : ℤ}
    (hq : 0 ≤ q) (hp : 0 ≤ p) (hmax : q + p + calls.length ≤ intMax) :
    (stanzaIds x q p calls).Nodup ∧ ∀ id ∈ stanzaIds x q p calls, IdFrom q p id := by
  induction calls generalizing q p with
  | nil => exact ⟨List.nodup_nil, fun id h => nomatch h⟩
  | cons c rest ih =>
    rw [List.length_cons] at hmax
    push_cast at hmax
    have hnext := stanzaIds_cons (x := x) hq hp (by omega) c rest
    generalize stanzaIds x q p (c :: rest) = ids at hnext ⊢
    rcases hnext with rfl | rfl | rfl
    · exact ⟨List.nodup_nil, fun id h => nomatch h⟩
    · obtain ⟨hnodup, hfrom⟩ := ih (q := q + 1) (p := p) (by omega) hp (by omega)
      refine ⟨List.nodup_cons.mpr ⟨fun hmem => ?_, hnodup⟩, ?_⟩
      · exact not_idFrom_queryId hq (by omega) hp (hfrom _ hmem)
      · rintro id (_ | ⟨_, hid⟩)
        · exact .inl ⟨q, le_rfl, by omega, rfl⟩
        · exact (hfrom id hid).mono (by omega) le_rfl
    · obtain ⟨hnodup, hfrom⟩ := ih (q := q) (p := p + 1) hq (by omega) (by omega)
      refine ⟨List.nodup_cons.mpr ⟨fun hmem => ?_, hnodup⟩, ?_⟩
      · exact not_idFrom_psId hq hp (by omega) (hfrom _ hmem)
      · rintro id (_ | ⟨_, hid⟩)
        · exact .inr ⟨p, le_rfl, by omega, rfl⟩
        · exact (hfrom id hid).mono le_rfl (by omega)

/-- **Stanza ids never repeat**: in a run of fewer than `2 ^ 31` calls each stanza has an id of its
own, and none has the id of the session request. -/
theorem stanza_ids_distinct (x : Iks W) (calls : List (W × Option Str × Option Str × PubsubCall))
    (h : calls.length < 2 ^ 31) :
    (stanzaIds x 0 0 calls).Nodup ∧
      ∀ id ∈ stanzaIds x 0 0 calls, ∃ text, id = some text ∧ text ≠ "auth".toList := by
  have hmax : (0 : ℤ) + 0 + calls.length ≤ intMax := by
    unfold intMax
    omega
  obtain ⟨hnodup, hfrom⟩ := stanzaIds_from (x := x) calls le_rfl le_rfl hmax
  refine ⟨hnodup, fun id hid => ?_⟩
  have hne := (hfrom id hid).ne_auth le_rfl le_rfl
  rcases hfrom id hid with ⟨n, -, -, rfl⟩ | ⟨n, -, -, rfl⟩
  · exact ⟨queryId n, rfl, fun heq => hne (congrArg some heq)⟩
  · exact ⟨psId n, rfl, fun heq => hne (congrArg some heq)⟩

/-- A query and two requests, the last one with a pair of configuration. -/
def threeCalls : List (IksMemory × Option Str × Option Str × PubsubCall) :=
  [(IksMemory.empty, none, none, .queryFeatures),
    (IksMemory.empty, none, none, .nodeDelete (some "a".toList)),
    (IksMemory.empty, none, none, .nodeCreate none ["b".toList, "c".toList])]

/-- A query and two requests, each with an identifier of its own. -/
theorem stanza_ids_three :
    threeCalls.length < 2 ^ 31 ∧ (stanzaIds iksNodes 0 0 threeCalls).length = 3 ∧
      (stanzaIds iksNodes 0 0 threeCalls).Nodup := by
  have hlen : threeCalls.length < 2 ^ 31 := by decide
  exact ⟨hlen, by decide, (stanza_ids_distinct iksNodes threeCalls hlen).1⟩

end Taningia
