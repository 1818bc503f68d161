import Taningia.Error

set_option relaxedAutoImplicit false
set_option autoImplicit false

/-!
# The XMPP client

`src/xmpp.c`: the client object, the functions that open and close its connection, and the hook that
iksemel calls for every item of the incoming stream. What a call does outside the client (streams
and filters of iksemel, stanzas sent, hooks called) is the list of its actions, in order. The hooks
of the user do not call back into the client here.

Parsers and filters are numbered in the order in which they are made.

## Main definitions

* `Taningia.Client`, `Taningia.XmppWorld` — the client, and the thread around it.
* `Taningia.clientConnect`, `Taningia.clientDisconnect`, `Taningia.clientFree` — the connection.
* `Taningia.onFeatures`, `Taningia.onSuccess`, `Taningia.clientHook` — the incoming stream.
* `Taningia.clientExec` — one operation of a run.

## Main results

* `Taningia.clientExec_default` — no operation changes the security configuration.
* `Taningia.authenticated_clientExec` — what one operation does to the authentication flag.
* `Taningia.onFeatures_default` — the answer to the features in that configuration.
* `Taningia.features_of_request` — only features are answered with a bind or session request.
-/

namespace Taningia

/-! ## The client -/

/-- The parts of an `iksid` that the client reads. -/
structure IksId where
  user : Option Str
  server : Str
  resource : Option Str
deriving DecidableEq, Repr

/-- The bits of `iks_stream_features`. -/
structure StreamFeatures where
  startTls : Bool
  session : Bool
  bind : Bool
  saslPlain : Bool
  saslMd5 : Bool
deriving DecidableEq, Repr

/-- No feature bit is set. -/
def StreamFeatures.none : StreamFeatures := ⟨false, false, false, false, false⟩

/-- `ta_xmpp_client_t`, without its id stack, its log and its event table. -/
structure Client where
  jid : Str
  password : Str
  host : Option Str
  port : ℤ
  useSasl : Bool
  useTls : Bool
  parser : Option ℕ
  filter : Option ℕ
  id : IksId
  features : StreamFeatures
  authenticated : Bool
  running : Bool
deriving DecidableEq, Repr

/-- `IKS_JABBER_PORT`. -/
def iksJabberPort : ℤ := 5222

/-- `ta_xmpp_client_init`; `iksIdNew` is iksemel's parser of a JID. -/
def clientInit (iksIdNew : Str → IksId) (jid password : Str) (host : Option Str) (port : ℤ) :
    Client where
  jid := jid
  password := password
  host := host
  port := if port ≠ 0 then port else iksJabberPort
  useSasl := true
  useTls := false
  parser := none
  filter := none
  id := iksIdNew jid
  features := .none
  authenticated := false
  running := false

/-- The client with the error record of its thread, the last return value, and how many parsers
and filters were made. -/
structure XmppWorld where
  client : Client
  parsers : ℕ
  filters : ℕ
  err : ErrRec
  returned : ℤ
deriving DecidableEq, Repr

/-- A new client on a thread with the given error record. -/
def XmppWorld.init (client : Client) (err : ErrRec) : XmppWorld := ⟨client, 0, 0, err, 0⟩

/-- A client of `ana@comum.org/casa` on a thread without an error. -/
def anaWorld : XmppWorld :=
  .init (clientInit (fun _ => ⟨some "ana".toList, "comum.org".toList, some "casa".toList⟩)
    "ana@comum.org/casa".toList "senha".toList none 0) none

/-! ## What the client does -/

/-- The mechanisms of `iks_start_sasl`. -/
inductive SaslMechanism where
  | digestMd5
  | plain
deriving DecidableEq, Repr

/-- The packet types for which `ta_xmpp_client_connect` registers a rule. -/
inductive PakType where
  | message
  | presence
deriving DecidableEq, Repr

/-- The stanzas that the client makes itself. -/
inductive Stanza where
  | bind (resource : Option Str)
  | session (id : Str)
  | auth (jid : IksId) (password : Str) (id : Str)
deriving DecidableEq, Repr

/-- A node of the incoming stream: its name, two attributes, and what `iks_stream_features` reads
in it. -/
structure StreamNode where
  name : Str
  type : Option Str
  id : Option Str
  features : StreamFeatures
deriving DecidableEq, Repr

/-- What a call does outside the client. -/
inductive Action where
  | streamNew (parser : ℕ)
  | filterNew (filter : ℕ)
  | parserDelete (parser : ℕ)
  | filterDelete (filter : ℕ)
  | connectVia (host : Str) (port : ℤ) (server : Str)
  | connectTcp (server : Str) (port : ℤ)
  | addRule (type : PakType)
  | callEventHooks (event : Str)
  | startTls
  | startSasl (mechanism : SaslMechanism) (user : Option Str) (password : Str)
  | sendHeader (server : Str)
  | send (stanza : Stanza)
  | filterPacket (node : StreamNode)
deriving DecidableEq, Repr

/-- The action sends a bind or a session request. -/
def Action.IsRequest : Action → Prop
  | .send (.bind _) => True
  | .send (.session _) => True
  | _ => False

instance (a : Action) : Decidable a.IsRequest := by
  unfold Action.IsRequest
  split <;> infer_instance

/-- The action starts SASL. -/
def Action.IsSasl : Action → Prop
  | .startSasl _ _ _ => True
  | _ => False

instance (a : Action) : Decidable a.IsSasl := by
  unfold Action.IsSasl
  split <;> infer_instance

/-! ## Connecting and disconnecting -/

/-- The results of `iks_connect_via` and `iks_connect_tcp` that the client tells apart. -/
inductive NetResult where
  | ok
  | noDns
  | noConn
  | other
deriving DecidableEq, Repr

/-- The message of a failed connection. -/
def NetResult.message : NetResult → Option Str
  | .ok => none
  | .noDns => some "hostname lookup failed".toList
  | .noConn => some "connection failed".toList
  | .other => some "io error".toList

/-- How `ta_xmpp_client_connect` reaches the server. -/
def Client.dial (client : Client) : Action :=
  match client.host with
  | some host => .connectVia host client.port client.id.server
  | none => .connectTcp client.id.server client.port

/-- `ta_xmpp_client_connect`. The parser and the filter are made before the connection is tried,
and stay when it fails. -/
def clientConnect (w : XmppWorld) (result : NetResult) : XmppWorld × List Action :=
  let opened := { w with
    client := { w.client with parser := some w.parsers, filter := some w.filters }
    parsers := w.parsers + 1
    filters := w.filters + 1 }
  let actions := [.streamNew w.parsers, .filterNew w.filters, w.client.dial]
  match result.message with
  | some message =>
    ({ opened with err := errorSet xmppConnectionError message, returned := taError }, actions)
  | none =>
    ({ opened with returned := taOk },
      actions ++ [.callEventHooks "connected".toList, .addRule .message, .addRule .presence])

/-- The end of a connection: the parser and the filter are deleted, if there are any. -/
def Client.close (client : Client) : Client × List Action :=
  ({ client with parser := none, filter := none },
    client.parser.toList.map .parserDelete ++ client.filter.toList.map .filterDelete)

/-- `ta_xmpp_client_disconnect`. -/
def clientDisconnect (w : XmppWorld) : XmppWorld × List Action :=
  let (client, actions) := { w.client with running := false }.close
  ({ w with client := client }, actions)

/-- `ta_xmpp_client_free`, as far as the connection goes. -/
def clientFree (w : XmppWorld) : XmppWorld × List Action :=
  let (client, actions) := w.client.close
  ({ w with client := client }, actions)

/-! ## The incoming stream -/

/-- `_make_bind`. -/
def makeBind (client : Client) : Action := .send (.bind client.id.resource)

/-- The session request of `_on_features`. -/
def makeSession : Action := .send (.session "auth".toList)

/-- `_on_features`; `secure` is the answer of `iks_is_secure`. -/
def onFeatures (client : Client) (secure : Bool) (node : StreamNode) : Client × List Action :=
  let client := { client with features := node.features }
  if client.useSasl then
    if client.useTls && !secure then (client, [])
    else if client.authenticated then
      (client, (if client.features.bind then [makeBind client] else []) ++
        (if client.features.session then [makeSession] else []))
    else if client.features.saslMd5 then
      (client, [.startSasl .digestMd5 client.id.user client.password])
    else if client.features.saslPlain then
      (client, [.startSasl .plain client.id.user client.password])
    else (client, [])
  else (client, [])

/-- `_on_success`. -/
def onSuccess (client : Client) : Client × List Action :=
  ({ client with authenticated := true }, [.sendHeader client.id.server])

/-- The branch of `_ta_xmpp_client_hook` for `IKS_NODE_START`. -/
def onStart (client : Client) (secure : Bool) : Client × List Action :=
  (client, (if client.useTls && !secure then [.startTls] else []) ++
    (if !client.useSasl then [.send (.auth client.id client.password "auth".toList)] else []))

/-- The branch of `_ta_xmpp_client_hook` for `IKS_NODE_NORMAL`. -/
def onNormal (client : Client) (secure : Bool) (node : StreamNode) : Client × List Action :=
  if node.name = "stream:features".toList then onFeatures client secure node
  else if node.name = "success".toList then onSuccess client
  else if node.name = "iq".toList ∧ node.type = some "result".toList ∧
      node.id = some "auth".toList then
    (client, [.callEventHooks "authenticated".toList])
  else if node.name = "failure".toList then
    (client, [.callEventHooks "authentication-failed".toList])
  else if client.filter ≠ none then (client, [.filterPacket node])
  else (client, [])

/-- What iksemel calls the stream hook with. An error node is only logged, and the end of the
stream has no node. -/
inductive StreamItem where
  | start (node : StreamNode)
  | normal (node : StreamNode)
  | error (node : StreamNode)
  | stop
deriving DecidableEq, Repr

/-- `_ta_xmpp_client_hook`. -/
def clientHook (client : Client) (secure : Bool) : StreamItem → Client × List Action
  | .start _ => onStart client secure
  | .normal node => onNormal client secure node
  | .error _ => (client, [])
  | .stop => (client, [])

/-! ## Operations -/

/-- An operation of a run: a call of the user, or an item of the stream with the answer of
`iks_is_secure`. -/
inductive ClientOp where
  | connect (result : NetResult)
  | disconnect
  | stream (secure : Bool) (item : StreamItem)
deriving DecidableEq, Repr

/-- One operation. An item of the stream comes through the parser of the client: without one there
is no such step. -/
def clientExec (w : XmppWorld) : ClientOp → Option (XmppWorld × List Action)
  | .connect result => some (clientConnect w result)
  | .disconnect => some (clientDisconnect w)
  | .stream secure item => w.client.parser.map fun _ =>
    ({ w with client := (clientHook w.client secure item).1 },
      (clientHook w.client secure item).2)

def clientStep (w : XmppWorld) (op : ClientOp) : Option XmppWorld :=
  (clientExec w op).map Prod.fst

/-- The operation is an incoming `success` node. -/
def ClientOp.IsSuccess : ClientOp → Prop
  | .stream _ (.normal node) => node.name = "success".toList
  | _ => False

instance (op : ClientOp) : Decidable op.IsSuccess := by
  unfold ClientOp.IsSuccess
  split <;> infer_instance

/-- The operation is a call of `ta_xmpp_client_connect`. -/
def ClientOp.IsConnect : ClientOp → Prop
  | .connect _ => True
  | _ => False

instance (op : ClientOp) : Decidable op.IsConnect := by
  unfold ClientOp.IsConnect
  split <;> infer_instance

/-- The features that an incoming `stream:features` node offers. -/
def ClientOp.features? : ClientOp → Option StreamFeatures
  | .stream _ (.normal node) =>
    if node.name = "stream:features".toList then some node.features else none
  | _ => none

/-! ## What one operation does -/

/-- The security configuration of `ta_xmpp_client_init`. -/
structure Client.Default (client : Client) : Prop where
  useSasl : client.useSasl = true
  useTls : client.useTls = false

/-- A new client has the default configuration. -/
lemma clientInit_default (iksIdNew : Str → IksId) (jid password : Str) (host : Option Str)
    (port : ℤ) : (clientInit iksIdNew jid password host port).Default :=
  ⟨rfl, rfl⟩

/-- What `connect` does to the client, whether or not it fails. -/
@[simp] lemma client_clientConnect (w : XmppWorld) (result : NetResult) :
    (clientConnect w result).1.client =
      { w.client with parser := some w.parsers, filter := some w.filters } := by
  unfold clientConnect
  cases result <;> rfl

/-- `connect` makes one filter. -/
@[simp] lemma filters_clientConnect (w : XmppWorld) (result : NetResult) :
    (clientConnect w result).1.filters = w.filters + 1 := by
  unfold clientConnect
  cases result <;> rfl

/-- The features change nothing but the stored bits. -/
@[simp] lemma client_onFeatures (client : Client) (secure : Bool) (node : StreamNode) :
    (onFeatures client secure node).1 = { client with features := node.features } := by
  simp only [onFeatures]
  split_ifs <;> rfl

/-- The stream hook changes only the stored features and the flag.

**Proof sketch.** By cases on the item; of the nodes only the features and the success write to
the client. -/
lemma client_clientHook (client : Client) (secure : Bool) (item : StreamItem) :
    ∃ features authenticated, (clientHook client secure item).1 =
      { client with features := features, authenticated := authenticated } := by
  cases item with
  | start node => exact ⟨client.features, client.authenticated, rfl⟩
  | error node => exact ⟨client.features, client.authenticated, rfl⟩
  | stop => exact ⟨client.features, client.authenticated, rfl⟩
  | normal node =>
    simp only [clientHook, onNormal]
    split_ifs
    · exact ⟨node.features, client.authenticated, client_onFeatures client secure node⟩
    · exact ⟨client.features, true, rfl⟩
    all_goals exact ⟨client.features, client.authenticated, rfl⟩

/-- **The flag in the stream hook**: a success sets it and nothing takes it back.

**Proof sketch.** By cases on the item and on the name of the node. -/
lemma authenticated_clientHook (client : Client) (secure : Bool) (item : StreamItem) :
    (clientHook client secure item).1.authenticated =
      (client.authenticated || (ClientOp.stream secure item).IsSuccess) := by
  cases item with
  | start node => exact (Bool.or_false _).symm
  | error node => exact (Bool.or_false _).symm
  | stop => exact (Bool.or_false _).symm
  | normal node =>
    show (onNormal client secure node).1.authenticated =
      (client.authenticated || decide (node.name = "success".toList))
    unfold onNormal
    by_cases hfeatures : node.name = "stream:features".toList
    · simp [hfeatures]
    · rw [if_neg hfeatures]
      by_cases hsuccess : node.name = "success".toList
      · simp [hsuccess, onSuccess]
      · rw [if_neg hsuccess, decide_eq_false hsuccess, Bool.or_false]
        split_ifs <;> rfl

/-- No operation changes the security configuration.

**Proof sketch.** By cases on the operation; the stream hook writes to other fields. -/
lemma clientExec_default {w w' : XmppWorld} {op : ClientOp} {actions : List Action}
    (hw : w.client.Default) (h : clientExec w op = some (w', actions)) : w'.client.Default := by
  cases op with
  | connect result =>
    obtain rfl : (clientConnect w result).1 = w' := congrArg Prod.fst (Option.some.inj h)
    rw [client_clientConnect]
    exact ⟨hw.useSasl, hw.useTls⟩
  | disconnect =>
    obtain rfl : (clientDisconnect w).1 = w' := congrArg Prod.fst (Option.some.inj h)
    exact ⟨hw.useSasl, hw.useTls⟩
  | stream secure item =>
    obtain ⟨_, _, he⟩ := Option.map_eq_some_iff.mp h
    obtain ⟨features, authenticated, hc⟩ := client_clientHook w.client secure item
    obtain rfl := congrArg Prod.fst he
    show (clientHook w.client secure item).1.Default
    rw [hc]
    exact ⟨hw.useSasl, hw.useTls⟩

/-- **The flag** is set by a success and kept by everything else.

**Proof sketch.** By cases on the operation; the item of a stream is `authenticated_clientHook`. -/
lemma authenticated_clientExec {w w' : XmppWorld} {op : ClientOp} {actions : List Action}
    (h : clientExec w op = some (w', actions)) :
    w'.client.authenticated = (w.client.authenticated || op.IsSuccess) := by
  cases op with
  | connect result =>
    obtain rfl : (clientConnect w result).1 = w' := congrArg Prod.fst (Option.some.inj h)
    rw [client_clientConnect]
    exact (Bool.or_false _).symm
  | disconnect =>
    obtain rfl : (clientDisconnect w).1 = w' := congrArg Prod.fst (Option.some.inj h)
    exact (Bool.or_false _).symm
  | stream secure item =>
    obtain ⟨_, _, he⟩ := Option.map_eq_some_iff.mp h
    obtain rfl := congrArg Prod.fst he
    exact authenticated_clientHook w.client secure item

/-- The answer to the features in the default configuration: requests when the client takes itself
for authenticated, and a mechanism otherwise.

**Proof sketch.** TLS is not asked for and SASL is used, so two branches of the function are
left. -/
lemma onFeatures_default {client : Client} (hc : client.Default) (secure : Bool)
    (node : StreamNode) :
    (onFeatures client secure node).2 =
      if client.authenticated then
        (if node.features.bind then [makeBind client] else []) ++
          (if node.features.session then [makeSession] else [])
      else if node.features.saslMd5 then
        [.startSasl .digestMd5 client.id.user client.password]
      else if node.features.saslPlain then [.startSasl .plain client.id.user client.password]
      else [] := by
  simp only [onFeatures, hc.useSasl, hc.useTls, if_true, Bool.false_and, Bool.false_eq_true,
    if_false]
  split_ifs <;> rfl

/-- The actions of an incoming features node.

**Proof sketch.** The operation is an item of a stream with a node named `features`, and the
hook answers it with `onFeatures`. -/
lemma actions_features {w w' : XmppWorld} {op : ClientOp} {actions : List Action}
    {features : StreamFeatures} (hop : op.features? = some features)
    (h : clientExec w op = some (w', actions)) :
    ∃ secure node, node.features = features ∧ actions = (onFeatures w.client secure node).2 := by
  unfold ClientOp.features? at hop
  split at hop
  · rename_i secure node
    split at hop
    · rename_i hname
      obtain ⟨_, _, he⟩ := Option.map_eq_some_iff.mp h
      refine ⟨secure, node, Option.some.inj hop, ?_⟩
      obtain rfl := congrArg Prod.snd he
      simp only [clientHook, onNormal, if_pos hname]
    · exact absurd hop (by simp)
  · exact absurd hop (by simp)

/-- `connect` sends no request. -/
lemma not_isRequest_clientConnect (w : XmppWorld) (result : NetResult) :
    ∀ a ∈ (clientConnect w result).2, ¬ a.IsRequest := by
  unfold clientConnect Client.dial
  cases result <;> cases w.client.host <;> simp [NetResult.message, Action.IsRequest]

/-- `disconnect` sends no request. -/
lemma not_isRequest_clientDisconnect (w : XmppWorld) :
    ∀ a ∈ (clientDisconnect w).2, ¬ a.IsRequest := by
  intro a ha
  simp only [clientDisconnect, Client.close, List.mem_append, List.mem_map] at ha
  obtain ⟨_, _, rfl⟩ | ⟨_, _, rfl⟩ := ha <;> exact id

/-- The start of a stream is not answered with a request. -/
lemma not_isRequest_onStart (client : Client) (secure : Bool) :
    ∀ a ∈ (onStart client secure).2, ¬ a.IsRequest := by
  simp only [onStart]
  split_ifs <;> simp [Action.IsRequest]

/-- A node that is not a features node is not answered with a request. -/
lemma not_isRequest_onNormal (client : Client) (secure : Bool) {node : StreamNode}
    (hname : node.name ≠ "stream:features".toList) :
    ∀ a ∈ (onNormal client secure node).2, ¬ a.IsRequest := by
  simp only [onNormal, if_neg hname, onSuccess]
  split_ifs <;> simp [Action.IsRequest]

/-- **Only features are answered with a bind or session request.**

**Proof sketch.** By cases on the operation, and on the item and the node of a stream: all
others have actions that are no requests. -/
lemma features_of_request {w w' : XmppWorld} {op : ClientOp} {actions : List Action}
    (h : clientExec w op = some (w', actions)) {a : Action} (ha : a ∈ actions)
    (hrequest : a.IsRequest) : ∃ features, op.features? = some features := by
  cases op with
  | connect result =>
    obtain rfl : (clientConnect w result).2 = actions := congrArg Prod.snd (Option.some.inj h)
    exact absurd hrequest (not_isRequest_clientConnect w result a ha)
  | disconnect =>
    obtain rfl : (clientDisconnect w).2 = actions := congrArg Prod.snd (Option.some.inj h)
    exact absurd hrequest (not_isRequest_clientDisconnect w a ha)
  | stream secure item =>
    obtain ⟨_, _, he⟩ := Option.map_eq_some_iff.mp h
    obtain rfl : (clientHook w.client secure item).2 = actions := congrArg Prod.snd he
    cases item with
    | start node => exact absurd hrequest (not_isRequest_onStart w.client secure a ha)
    | error node => simp [clientHook] at ha
    | stop => simp [clientHook] at ha
    | normal node =>
      by_cases hname : node.name = "stream:features".toList
      · exact ⟨node.features, by simp only [ClientOp.features?, if_pos hname]⟩
      · exact absurd hrequest (not_isRequest_onNormal w.client secure hname a ha)

end Taningia
