import Taningia.Buf.Basic
import Taningia.Pubsub.Iks

set_option relaxedAutoImplicit false
set_option autoImplicit false

/-!
# Pubsub stanzas

`src/pubsub.c`: each function makes an `iq` stanza with the next id of one of two static counters,
one for the queries of service discovery and one for the pubsub requests, and fills it. The two
functions that create a node also put the configuration into a form, from a list in which keys and
values alternate.

## Main definitions

* `Taningia.Pubsub` — the elements in memory, and the two counters.
* `Taningia.createiq`, `Taningia.createiqps` — a stanza with its id.
* `Taningia.configStep`, `Taningia.buildNode` — the loop over the configuration.
* `Taningia.PubsubCall`, `Taningia.pubsubStep` — a call of any of the functions.
-/

namespace Taningia

open Elements

/-- The elements, and `nid` of `createiq` and of `createiqps`. -/
structure Pubsub (W : Type) where
  mem : W
  queryNid : ℤ
  psNid : ℤ

def nsInfo : Str := "http://jabber.org/protocol/disco#info".toList
def nsItem : Str := "http://jabber.org/protocol/disco#items".toList
def nsPsConfig : Str := "http://jabber.org/protocol/pubsub#node_config".toList
def nsPsOwner : Str := "http://jabber.org/protocol/pubsub#owner".toList
def taPubsubNs : Str := "http://jabber.org/protocol/pubsub".toList

/-- `NODE_SIZE_MAX`. -/
def nodeSizeMax : ℕ := 256

/-- `snprintf` of a text into a buffer of the size: what the buffer holds. -/
def snprintf (size : ℕ) (text : Str) : Str := text.take (size - 1)

variable {W : Type} (x : Iks W) (s : Pubsub W) (from' to' : Option Str)

/-- `if (value) iks_insert_attrib (p, attrib, value)`. -/
def insertAttribIf (w : W) (p : Option ℕ) (attrib : Str) (value : Option Str) : W :=
  match value with
  | some value => x.insertAttrib w p attrib (some value)
  | none => w

/-- `createiq`. -/
def createiq (type : IksSubtype) (ns : Str) : Pubsub W × ℕ :=
  let sid := snprintf 32 ("query".toList ++ sprintfInt s.queryNid)
  let (w, iq) := x.makeIq s.mem type ns
  let w := x.insertAttrib w (some iq) "from".toList from'
  let w := x.insertAttrib w (some iq) "to".toList to'
  let w := x.insertAttrib w (some iq) "id".toList (some sid)
  (⟨w, toInt (s.queryNid + 1), s.psNid⟩, iq)

/-- `createiqps`. -/
def createiqps (type : IksSubtype) : Pubsub W × ℕ :=
  let sid := snprintf 32 ("ps".toList ++ sprintfInt s.psNid)
  let (w, iq) := x.new s.mem "iq".toList
  let w := insertAttribIf x w (some iq) "type".toList type.text
  let w := x.insertAttrib w (some iq) "from".toList from'
  let w := x.insertAttrib w (some iq) "to".toList to'
  let w := x.insertAttrib w (some iq) "id".toList (some sid)
  let (w, ps) := x.insert w (some iq) "pubsub".toList
  let w := x.insertAttrib w ps "xmlns".toList (some taPubsubNs)
  (⟨w, s.queryNid, toInt (s.psNid + 1)⟩, iq)

/-! ## Queries and requests -/

/-- `ta_pubsub_query_features`. -/
def pubsubQueryFeatures : Pubsub W × ℕ := createiq x s from' to' .get nsInfo

/-- `ta_pubsub_query_affiliations`. -/
def pubsubQueryAffiliations : Pubsub W × ℕ :=
  let (s, iq) := createiqps x s from' to' .get
  let (w, _) := x.insert s.mem (x.child s.mem (some iq)) "affiliations".toList
  ({ s with mem := w }, iq)

/-- `ta_pubsub_node_query_info`. -/
def pubsubNodeQueryInfo (node : Option Str) : Pubsub W × ℕ :=
  let (s, iq) := createiq x s from' to' .get nsInfo
  let w := x.insertAttrib s.mem (x.child s.mem (some iq)) "node".toList node
  ({ s with mem := w }, iq)

/-- `ta_pubsub_node_query_subscriptions`. -/
def pubsubNodeQuerySubscriptions (node : Option Str) : Pubsub W × ℕ :=
  let (s, iq) := createiqps x s from' to' .get
  let (w, sub) := x.insert s.mem (x.child s.mem (some iq)) "subscriptions".toList
  let w := insertAttribIf x w sub "node".toList node
  ({ s with mem := w }, iq)

/-- `ta_pubsub_node_query_affiliations`. -/
def pubsubNodeQueryAffiliations (node : Option Str) : Pubsub W × ℕ :=
  let (s, iq) := createiqps x s from' to' .get
  let (w, sub) := x.insert s.mem (x.child s.mem (some iq)) "affiliations".toList
  let w := x.insertAttrib w sub "node".toList node
  ({ s with mem := w }, iq)

/-- What `ta_pubsub_node_subscribe` and `ta_pubsub_node_unsubscribe` do, with the name of the
request. -/
def requestSubscription (name : Str) (node jid : Option Str) : Pubsub W × ℕ :=
  let (s, iq) := createiqps x s from' to' .set
  let (w, sub) := x.insert s.mem (x.child s.mem (some iq)) name
  let w := x.insertAttrib w sub "node".toList node
  let w := match jid with
    | some jid => x.insertAttrib w sub "jid".toList (some jid)
    | none => x.insertAttrib w sub "jid".toList from'
  ({ s with mem := w }, iq)

/-- `ta_pubsub_node_subscribe`. -/
def pubsubNodeSubscribe (node jid : Option Str) : Pubsub W × ℕ :=
  requestSubscription x s from' to' "subscribe".toList node jid

/-- `ta_pubsub_node_unsubscribe`. -/
def pubsubNodeUnsubscribe (node jid : Option Str) : Pubsub W × ℕ :=
  requestSubscription x s from' to' "unsubscribe".toList node jid

/-- `ta_pubsub_node_query_nodes`. -/
def pubsubNodeQueryNodes (node : Option Str) : Pubsub W × ℕ :=
  let (s, iq) := createiq x s from' to' .get nsItem
  let w := insertAttribIf x s.mem (x.child s.mem (some iq)) "node".toList node
  ({ s with mem := w }, iq)

/-- `ta_pubsub_node_items`. -/
def pubsubNodeItems (node : Option Str) (maxItems : ℤ) : Pubsub W × ℕ :=
  let (s, iq) := createiqps x s from' to' .get
  let (w, items) := x.insert s.mem (x.child s.mem (some iq)) "items".toList
  let w := x.insertAttrib w items "node".toList node
  let w := if maxItems > 0 then
      let num := snprintf 32 (sprintfInt maxItems)
      x.insertAttrib w items "max_items".toList (some num)
    else w
  ({ s with mem := w }, iq)

/-- What `ta_pubsub_node_publish_text` and `ta_pubsub_node_publish_iks` do up to the content of the
item. -/
def publishItem (node id : Option Str) : Pubsub W × ℕ × Option ℕ :=
  let (s, iq) := createiqps x s from' to' .set
  let (w, publish) := x.insert s.mem (x.child s.mem (some iq)) "publish".toList
  let w := x.insertAttrib w publish "node".toList node
  let (w, item) := x.insert w publish "item".toList
  let w := insertAttribIf x w item "id".toList id
  ({ s with mem := w }, iq, item)

/-- `ta_pubsub_node_publish_text`. -/
def pubsubNodePublishText (node id body : Option Str) (len : ℤ) : Pubsub W × ℕ :=
  let (s, iq, item) := publishItem x s from' to' node id
  ({ s with mem := x.insertCdata s.mem item body len }, iq)

/-- `ta_pubsub_node_publish_iks`. -/
def pubsubNodePublishIks (node id : Option Str) (child : ℕ) : Pubsub W × ℕ :=
  let (s, iq, item) := publishItem x s from' to' node id
  ({ s with mem := x.insertNode s.mem item child }, iq)

/-- `ta_pubsub_node_delete`. -/
def pubsubNodeDelete (node : Option Str) : Pubsub W × ℕ :=
  let (s, iq) := createiqps x s from' to' .set
  let ps := x.child s.mem (some iq)
  let w := x.insertAttrib s.mem ps "xmlns".toList (some nsPsOwner)
  let (w, del) := x.new w "delete".toList
  let w := x.insertAttrib w (some del) "node".toList node
  let w := x.insertNode w ps del
  ({ s with mem := w }, iq)

/-- `ta_pubsub_node_delete_item`. -/
def pubsubNodeDeleteItem (node id : Option Str) : Pubsub W × ℕ :=
  let (s, iq) := createiqps x s from' to' .set
  let (w, retract) := x.insert s.mem (x.child s.mem (some iq)) "retract".toList
  let w := x.insertAttrib w retract "node".toList node
  let (w, item) := x.insert w retract "item".toList
  let w := x.insertAttrib w item "id".toList id
  ({ s with mem := w }, iq)

/-! ## Creating a node -/

/-- The variables of the loop over the configuration. -/
structure ConfigLoop (W : Type) where
  mem : W
  form : Option ℕ
  i : ℕ
  nargs : ℕ
  nvals : ℕ

/-- The form, with the field that tells its type. -/
def makeForm (w : W) (config : Option ℕ) : W × Option ℕ :=
  let (w, form) := x.insert w config "x".toList
  let w := x.insertAttrib w form "xmlns".toList (some "jabber:x:data".toList)
  let w := x.insertAttrib w form "type".toList (some "submit".toList)
  let (w, f) := x.insert w form "field".toList
  let w := x.insertAttrib w f "var".toList (some "FORM_TYPE".toList)
  let w := x.insertAttrib w f "type".toList (some "hidden".toList)
  let (w, value) := x.insert w f "value".toList
  let w := x.insertCdata w value (some nsPsConfig) 0
  (w, form)

/-- The form of the loop, which the first turn makes. -/
def formOf (c : ConfigLoop W) (config : Option ℕ) : W × Option ℕ :=
  match c.form with
  | none => makeForm x c.mem config
  | some form => (c.mem, some form)

/-- The body of the loop over the configuration. Keys and values take turns, and `field` belongs to
one turn only. -/
def configStep (config : Option ℕ) (c : ConfigLoop W) (arg : Str) : ConfigLoop W :=
  let field : Option ℕ := none
  let (w, form) := formOf x c config
  if c.i % 2 = 0 then
    let fname := snprintf nodeSizeMax ("pubsub#".toList ++ arg)
    let (w, field) := x.insert w form "field".toList
    let w := x.insertAttrib w field "var".toList (some fname)
    ⟨w, form, c.i + 1, c.nargs + 1, c.nvals⟩
  else
    let (w, value) := x.insert w field "value".toList
    let w := x.insertCdata w value (some arg) 0
    ⟨w, form, c.i + 1, c.nargs, c.nvals + 1⟩

/-- What `ta_pubsub_node_create` and `ta_pubsub_node_createv` do with the configuration up to
`NULL`. The result is `none` when the assertion about the pairs fails. -/
def buildNode (node : Option Str) (args : List Str) : Option (Pubsub W × ℕ) :=
  let (s, iq) := createiqps x s from' to' .set
  let (w, create) := x.insert s.mem (x.child s.mem (some iq)) "create".toList
  let w := insertAttribIf x w create "node".toList node
  let (w, config) := x.insert w (x.child w (some iq)) "configure".toList
  let c := args.foldl (configStep x config) ⟨w, none, 0, 0, 0⟩
  if c.nargs = c.nvals then some ({ s with mem := c.mem }, iq) else none

/-- `ta_pubsub_node_create`, with the arguments up to `NULL`. -/
def pubsubNodeCreate (node : Option Str) (args : List Str) : Option (Pubsub W × ℕ) :=
  buildNode x s from' to' node args

/-- `ta_pubsub_node_createv`. The array may be `NULL`. -/
def pubsubNodeCreatev (node : Option Str) (confParams : Option (List Str)) :
    Option (Pubsub W × ℕ) :=
  buildNode x s from' to' node (confParams.getD [])

/-! ## Calls -/

/-- A call of a function that makes a stanza, without its first two arguments. -/
inductive PubsubCall where
  | queryFeatures
  | queryAffiliations
  | nodeQueryInfo (node : Option Str)
  | nodeQuerySubscriptions (node : Option Str)
  | nodeQueryAffiliations (node : Option Str)
  | nodeSubscribe (node jid : Option Str)
  | nodeUnsubscribe (node jid : Option Str)
  | nodeQueryNodes (node : Option Str)
  | nodeItems (node : Option Str) (maxItems : ℤ)
  | nodePublishText (node id body : Option Str) (len : ℤ)
  | nodePublishIks (node id : Option Str) (child : ℕ)
  | nodeDelete (node : Option Str)
  | nodeDeleteItem (node id : Option Str)
  | nodeCreate (node : Option Str) (args : List Str)
  | nodeCreatev (node : Option Str) (confParams : Option (List Str))

/-- A call: the stanza that is returned, unless an assertion fails. -/
def pubsubStep : PubsubCall → Option (Pubsub W × ℕ)
  | .queryFeatures => some (pubsubQueryFeatures x s from' to')
  | .queryAffiliations => some (pubsubQueryAffiliations x s from' to')
  | .nodeQueryInfo node => some (pubsubNodeQueryInfo x s from' to' node)
  | .nodeQuerySubscriptions node => some (pubsubNodeQuerySubscriptions x s from' to' node)
  | .nodeQueryAffiliations node => some (pubsubNodeQueryAffiliations x s from' to' node)
  | .nodeSubscribe node jid => some (pubsubNodeSubscribe x s from' to' node jid)
  | .nodeUnsubscribe node jid => some (pubsubNodeUnsubscribe x s from' to' node jid)
  | .nodeQueryNodes node => some (pubsubNodeQueryNodes x s from' to' node)
  | .nodeItems node maxItems => some (pubsubNodeItems x s from' to' node maxItems)
  | .nodePublishText node id body len =>
    some (pubsubNodePublishText x s from' to' node id body len)
  | .nodePublishIks node id child => some (pubsubNodePublishIks x s from' to' node id child)
  | .nodeDelete node => some (pubsubNodeDelete x s from' to' node)
  | .nodeDeleteItem node id => some (pubsubNodeDeleteItem x s from' to' node id)
  | .nodeCreate node args => pubsubNodeCreate x s from' to' node args
  | .nodeCreatev node confParams => pubsubNodeCreatev x s from' to' node confParams

end Taningia
