import Taningia.Lib.Ledger
import Taningia.Lib.Machine
import Taningia.Xmpp.Client

set_option relaxedAutoImplicit false
set_option autoImplicit false

/-!
# Watching for answers

`src/xmpp.c`, `ta_xmpp_client_send_and_filter`: a stanza is sent together with a watcher, a
`watch_data` block behind a rule of the client's filter that matches the id of the stanza. The hook
of the rule calls the callback of the user, removes the rule, and releases the block with the data
of the user. A stanza that cannot be sent releases them at once.

Blocks are numbered in the order in which they are made. A callback may call the client again.

## Main definitions

* `Taningia.WatchWorld` — the client, the rules of its filters, the blocks, and what happened to
  them.
* `Taningia.sendAndFilter`, `Taningia.ikshookWatcher` — registering a watcher, and its hook.
* `Taningia.watchStep` — one operation of a run, and `Taningia.watchUnref`, its end.
* `Taningia.WatchersSettled` — every callback ran at most once and all data was released once.
* `Taningia.watchGuard`, `Taningia.NothingWaits` — when an operation leaves no watcher behind.
-/

namespace Taningia

variable {U : Type}

/-! ## Watchers -/

/-- `struct watch_data`; `rule` is the filter that its rule is in, and `freeDataFunc` says whether
there is a function. Its callback is known by the number of the block. -/
structure WatchData (U : Type) where
  stanzaId : Str
  rule : ℕ
  data : Option U
  freeDataFunc : Bool
deriving DecidableEq, Repr

/-- What happens to a block: its callback is called, the function of the user releases its data, and
the block is freed. -/
inductive WatchEvent (U : Type) where
  | callback (wdata : ℕ) (node : StreamNode) (data : Option U)
  | freeData (wdata : ℕ) (data : U)
  | free (wdata : ℕ)
deriving DecidableEq, Repr

/-- The block of an event. -/
def WatchEvent.wdata : WatchEvent U → ℕ
  | .callback wdata _ _ => wdata
  | .freeData wdata _ => wdata
  | .free wdata => wdata

/-- The event is a callback. -/
def WatchEvent.IsCallback : WatchEvent U → Prop
  | .callback _ _ _ => True
  | _ => False

instance (e : WatchEvent U) : Decidable e.IsCallback := by
  unfold WatchEvent.IsCallback
  split <;> infer_instance

/-- The event frees the block `k`. -/
def WatchEvent.frees (k : ℕ) : WatchEvent U → Bool
  | .free wdata => wdata = k
  | _ => false

/-- The event as a use or a release of the user's data. -/
def WatchEvent.ledger : WatchEvent U → Option (Ledger.Event ℕ)
  | .callback wdata _ _ => some (.use wdata)
  | .freeData wdata _ => some (.free wdata)
  | .free _ => none

/-- The client, the rules of all its filters by filter and block, the blocks made so far, and what
happened to them. -/
structure WatchWorld (U : Type) where
  xmpp : XmppWorld
  rules : List (ℕ × ℕ)
  wdatas : List (WatchData U)
  log : List (WatchEvent U)

/-- A client without watchers. -/
def WatchWorld.init (xmpp : XmppWorld) : WatchWorld U := ⟨xmpp, [], [], []⟩

/-- The filter of the client. -/
def WatchWorld.filter (w : WatchWorld U) : Option ℕ := w.xmpp.client.filter

/-- The data that `wdata_free` releases. -/
def WatchData.owned (wdata : WatchData U) : Option U :=
  if wdata.freeDataFunc then wdata.data else none

/-- What `wdata_free` does. -/
def WatchData.freed (wdata : WatchData U) (k : ℕ) : List (WatchEvent U) :=
  wdata.owned.toList.map (.freeData k) ++ [.free k]

/-- `wdata_free`. -/
def wdataFree (w : WatchWorld U) (k : ℕ) (wdata : WatchData U) : WatchWorld U :=
  { w with log := w.log ++ wdata.freed k }

/-- The error of a stanza that could not be sent. -/
def sendFailed : ErrRec := errorSet xmppSendError "Failed to send the stanza".toList

/-- `IKS_OK`. -/
def iksOk : ℤ := 0

/-- `iks_filter_remove_rule`: the rule has to be one of the filter. -/
def removeRule (w : WatchWorld U) (filter k : ℕ) : Option (WatchWorld U) :=
  if (filter, k) ∈ w.rules then some { w with rules := w.rules.erase (filter, k) } else none

/-- `iks_filter_delete` of the client's filter: its rules are dropped. -/
def dropRules (w : WatchWorld U) : WatchWorld U :=
  { w with rules := w.rules.filter fun r => some r.1 ≠ w.filter }

/-- The world after a function of the client that returned `returned`. -/
def WatchWorld.returning (w : WatchWorld U) (returned : ℤ) : WatchWorld U :=
  { w with xmpp := { w.xmpp with returned := returned } }

/-- `ta_xmpp_client_send_and_filter` with the result of `iks_send`. A client without a filter or a
parser has nothing to hand to iksemel. -/
def sendAndFilter (w : WatchWorld U) (id : Option Str) (data : Option U) (freeCb : Bool)
    (result : ℤ) : Option (WatchWorld U) :=
  match id with
  | none => some (w.returning 1)
  | some id =>
    w.filter.bind fun filter =>
      w.xmpp.client.parser.bind fun _ =>
        let k := w.wdatas.length
        let wdata : WatchData U := ⟨id, filter, data, freeCb⟩
        let w := { w with rules := w.rules ++ [(filter, k)], wdatas := w.wdatas ++ [wdata] }
        if result ≠ iksOk then
          let w := { w with xmpp := { w.xmpp with err := sendFailed } }
          (removeRule w filter k).map fun w => (wdataFree w k wdata).returning result
        else some (w.returning result)

/-! ## Calls of the user -/

/-- A call of the user: sending a stanza with the id, the data and the function, and the result of
`iks_send`; or opening or closing the connection. -/
inductive WatchCall (U : Type) where
  | send (id : Option Str) (data : Option U) (freeCb : Bool) (result : ℤ)
  | connect (result : NetResult)
  | disconnect
deriving DecidableEq, Repr

/-- One call of the user. -/
def watchCall (w : WatchWorld U) : WatchCall U → Option (WatchWorld U)
  | .send id data freeCb result => sendAndFilter w id data freeCb result
  | .connect result => some { w with xmpp := (clientConnect w.xmpp result).1 }
  | .disconnect => some { dropRules w with xmpp := (clientDisconnect w.xmpp).1 }

/-! ## Answers -/

/-- The end of `_ta_xmpp_client_ikshook_watcher`: the rule is removed when the client still has a
filter, and the block is freed. -/
def watcherDone (w : WatchWorld U) (k : ℕ) (wdata : WatchData U) : Option (WatchWorld U) :=
  match w.filter with
  | some filter =>
    if wdata.rule = filter then (removeRule w filter k).map fun w => wdataFree w k wdata else none
  | none => some (wdataFree w k wdata)

/-- The world in which the callback of a block is called. -/
def WatchWorld.calling (w : WatchWorld U) (k : ℕ) (node : StreamNode) (wdata : WatchData U) :
    WatchWorld U :=
  { w with log := w.log ++ [.callback k node wdata.data] }

/-- `_ta_xmpp_client_ikshook_watcher` for a callback that makes the given calls. It reads the block,
which must not be freed. -/
def ikshookWatcher (w : WatchWorld U) (k : ℕ) (node : StreamNode) (calls : List (WatchCall U)) :
    Option (WatchWorld U) :=
  if w.log.any (WatchEvent.frees k) then none
  else
    (w.wdatas[k]?).bind fun wdata =>
      (Machine.run? watchCall (w.calling k node wdata) calls).bind fun w => watcherDone w k wdata

/-- The blocks whose rule is in the client's filter and has the id of the node. -/
def matchingRules (w : WatchWorld U) (node : StreamNode) : List ℕ :=
  (w.rules.filter fun r => some r.1 = w.filter ∧ node.id ≠ none ∧
    (w.wdatas[r.2]?).map WatchData.stanzaId = node.id).map Prod.snd

/-- The node that the stream hook hands to the filter. -/
def packetOf (actions : List Action) : Option StreamNode :=
  actions.findSome? fun
    | .filterPacket node => some node
    | _ => none

/-- The client after an item of the stream, with the node for its filter. Nothing arrives without
a parser. -/
def WatchWorld.receive (w : WatchWorld U) (secure : Bool) (item : StreamItem) :
    WatchWorld U × Option StreamNode :=
  match clientExec w.xmpp (.stream secure item) with
  | some (xmpp, actions) => ({ w with xmpp := xmpp }, packetOf actions)
  | none => (w, none)

/-- The block whose rule `iks_filter_packet` runs for the node: one of the matching rules. -/
def answered (w : WatchWorld U) (node : Option StreamNode) (choice : ℕ) :
    Option (StreamNode × ℕ) :=
  node.bind fun node => ((matchingRules w node)[choice]?).map fun k => (node, k)

/-! ## Runs -/

/-- An operation of a run: a call of the user, or an item of the stream, the choice of the filter
among the matching rules, and the calls that the callback makes. -/
inductive WatchOp (U : Type) where
  | call (call : WatchCall U)
  | stream (secure : Bool) (item : StreamItem) (choice : ℕ) (calls : List (WatchCall U))
deriving DecidableEq, Repr

/-- One operation. -/
def watchStep (w : WatchWorld U) : WatchOp U → Option (WatchWorld U)
  | .call call => watchCall w call
  | .stream secure item choice calls =>
    let (w, node) := w.receive secure item
    match answered w node choice with
    | some (node, k) => ikshookWatcher w k node calls
    | none => some w

/-- The last `ta_object_unref` of the client. -/
def watchUnref (w : WatchWorld U) : WatchWorld U :=
  { dropRules w with xmpp := (clientFree w.xmpp).1 }

/-- **The watchers are settled**: every callback was called at most once, for a stanza with its id,
with its data, and not after the data was released; and exactly the data with a function to release
it was released, exactly once. -/
structure WatchersSettled (w : WatchWorld U) : Prop where
  once : ∀ k, (w.log.filter fun e => e.IsCallback ∧ e.wdata = k).length ≤ 1
  ids : ∀ k node data, .callback k node data ∈ w.log →
    ∃ wdata, w.wdatas[k]? = some wdata ∧ node.id = some wdata.stanzaId ∧ data = wdata.data
  owner : ∀ k u, .freeData k u ∈ w.log → ∃ wdata, w.wdatas[k]? = some wdata ∧ wdata.owned = some u
  alive : Ledger.Sound (w.log.filterMap WatchEvent.ledger)
  released : ∀ k wdata, w.wdatas[k]? = some wdata → ∀ u ∈ wdata.owned,
    (w.log.filterMap WatchEvent.ledger).count (.free k) = 1

/-- The run succeeds, and after the client is destroyed its watchers are settled. -/
def WatchRunSettled (xmpp : XmppWorld) (ops : List (WatchOp U)) : Prop :=
  ∃ w, Machine.run? watchStep (WatchWorld.init xmpp) ops = some w ∧
    WatchersSettled (watchUnref w)

/-! ## When nothing is left behind -/

/-- The rule of the block is in the client's filter. -/
def WatchWorld.Waits (w : WatchWorld U) (k : ℕ) : Prop :=
  ∃ filter, w.filter = some filter ∧ (filter, k) ∈ w.rules

/-- No watcher with data to release waits for its answer, `busy` apart, whose callback is running.
-/
def NothingWaits (busy : Option ℕ) (w : WatchWorld U) : Prop :=
  ∀ k wdata, w.wdatas[k]? = some wdata → wdata.owned ≠ none → w.Waits k → busy = some k

/-- A stanza with an id is sent only with a filter, and a connection is opened or closed only when
no watcher waits. -/
def callGuard (busy : Option ℕ) (w : WatchWorld U) : WatchCall U → Prop
  | .send id _ _ _ => id = none ∨ w.filter ≠ none
  | .connect _ => NothingWaits busy w
  | .disconnect => NothingWaits busy w

/-- Whether a connection of their own is open after some calls and one more. -/
def ownConnection (own : Bool) : WatchCall U → Bool
  | .send _ _ _ _ => own
  | .connect _ => true
  | .disconnect => false

/-- The calls leave a connection that one of them opened. -/
def leavesConnection (calls : List (WatchCall U)) : Bool := calls.foldl ownConnection false

/-- A call of the user is guarded by itself; an answer by the calls of the callback, which must not
leave a connection of their own. -/
def watchGuard (w : WatchWorld U) : WatchOp U → Prop
  | .call call => callGuard none w call
  | .stream secure item choice calls =>
    let (w, node) := w.receive secure item
    ∀ node' k wdata, answered w node choice = some (node', k) → w.wdatas[k]? = some wdata →
      Machine.GuardedRun watchCall (callGuard (some k)) (w.calling k node' wdata) calls ∧
        leavesConnection calls = false

/-- Every operation of the run is guarded, and no watcher waits when the client is destroyed. -/
structure WatchRunGuarded (xmpp : XmppWorld) (ops : List (WatchOp U)) : Prop where
  steps : Machine.GuardedRun watchStep watchGuard (WatchWorld.init xmpp) ops
  unref : ∀ w, Machine.run? watchStep (WatchWorld.init xmpp) ops = some w → NothingWaits none w

end Taningia
