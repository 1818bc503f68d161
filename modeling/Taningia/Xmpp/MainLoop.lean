import Taningia.Xmpp.Parsers

set_option relaxedAutoImplicit false
set_option autoImplicit false

/-!
# The main loop

`ta_xmpp_client_run` sets the flag `running` and goes on while it is set: `iks_recv` reads the
stream, calls the stream hook for every item, and that calls hooks of the user. These may call the
functions of the client: they may disconnect, connect again, send, and run a main loop inside the
one that called them. The hooks of the event `connected` may do the same in the middle of
`ta_xmpp_client_connect`. All the loops have only the one flag.

A call of `iks_recv` works on the parser that it was handed, and the client answers through the
one in its field, which a hook may have deleted or replaced meanwhile. iksemel touches its parser
when it hands over an item, when the hook for the item has returned, and before `iks_recv`
returns. A call whose parser was deleted is taken to go on all the same, with any items and any
result: the log of the parsers shows what it was.

A session is any order of what the user does and what iksemel does. What cannot happen next in a
state of the session is skipped, so that a step fails exactly where the code hands `NULL` to
iksemel for a parser or a filter. The log of the client is left out.

## Main definitions

* `Taningia.RecvResult`, `Taningia.doRunSwitch`, `Taningia.doRunTest` — the loop.
* `Taningia.clientSend`, `Taningia.clientSendPresence`, `Taningia.clientIsRunning` — what hooks
  call.
* `Taningia.Frame`, `Taningia.LoopWorld`, `Taningia.loopStep` — a session.
* `Taningia.LoopWorld.working`, `Taningia.LoopWorld.Sound` — the parsers that iksemel works on.

## Main results

* `Taningia.connectStart_done` — a connection whose hooks do nothing is `Taningia.clientConnect`.
* `Taningia.carries_loopStep` — no other step than a disconnect spoils the log.
* `Taningia.sound_loopStep` — one step spoils the log exactly when it deletes a parser that iksemel
  works on.
-/

namespace Taningia

/-! ## Sessions -/

/-- The results of `iks_recv` that the main loop tells apart. -/
inductive RecvResult where
  | ok
  | hook
  | noConn
  | rwErr
  | tlsFail
  | other
deriving DecidableEq, Repr

/-- A call that has begun and not returned: `ta_xmpp_client_connect` in the hooks of `connected`, or
a main loop with its variable `ret`, in `iks_recv` with the parser that it was handed, or in a hook
that was called there. -/
inductive Frame where
  | connecting
  | receiving (parser : ℕ) (ret : ℤ)
  | hook (parser : ℕ) (ret : ℤ)
deriving DecidableEq, Repr

/-- The client with its calls, the innermost first, what happened to its parsers, and how many
stanzas of `ta_xmpp_client_send_presence` were made and not deleted. -/
structure LoopWorld where
  xmpp : XmppWorld
  frames : List Frame
  parserLog : List (Ledger.Event ℕ)
  presences : ℕ
deriving DecidableEq, Repr

/-- A client outside all loops. -/
def LoopWorld.init (xmpp : XmppWorld) : LoopWorld := ⟨xmpp, [], [], 0⟩

/-- It is the turn of the user's code: the program, or a hook. -/
def LoopWorld.inUserCode (w : LoopWorld) : Bool :=
  match w.frames with
  | .receiving _ _ :: _ => false
  | _ => true

/-- A parser in the hands of iksemel. -/
def LoopWorld.touch (w : LoopWorld) (parser : ℕ) : LoopWorld :=
  { w with parserLog := w.parserLog ++ [.use parser] }

/-- The parser of the client in the hands of iksemel, which must not be `NULL`. -/
def LoopWorld.useParser (w : LoopWorld) : Option LoopWorld :=
  w.xmpp.client.parser.map w.touch

/-! ## Connecting and disconnecting -/

/-- `ta_xmpp_client_connect` up to the result of the connection. -/
def connectStart (w : XmppWorld) : XmppWorld × List Action :=
  ({ w with
    client := { w.client with parser := some w.parsers, filter := some w.filters }
    parsers := w.parsers + 1
    filters := w.filters + 1 },
    [.streamNew w.parsers, .filterNew w.filters, w.client.dial])

/-- `ta_xmpp_client_connect` behind the hooks of `connected`. It adds its rules to the filter that
the client has then. -/
def connectDone (w : XmppWorld) : Option (XmppWorld × List Action) :=
  w.client.filter.map fun _ =>
    ({ w with returned := taOk }, [.addRule .message, .addRule .presence])

/-- When the hooks of `connected` do nothing, the parts are the whole call. -/
lemma connectStart_done (w : XmppWorld) :
    (connectDone (connectStart w).1).map (fun r =>
      (r.1, (connectStart w).2 ++ .callEventHooks "connected".toList :: r.2)) =
      some (clientConnect w .ok) := rfl

/-- `ta_xmpp_client_connect` until it returns or calls the hooks. -/
def loopConnect (w : LoopWorld) (result : NetResult) : LoopWorld :=
  match result.message with
  | some _ => { w with xmpp := (clientConnect w.xmpp result).1 }
  | none => { w with xmpp := (connectStart w.xmpp).1, frames := .connecting :: w.frames }

/-- `ta_xmpp_client_disconnect`. -/
def loopDisconnect (w : LoopWorld) : LoopWorld :=
  { w with
    xmpp := (clientDisconnect w.xmpp).1
    parserLog := w.parserLog ++ w.xmpp.client.parser.toList.map .free }

/-! ## Sending -/

/-- `iks_send` returned `result`, which is an error when it is not `IKS_OK`. -/
def sendReturned (w : XmppWorld) (result : ℤ) (message : Str) : XmppWorld :=
  if result ≠ 0 then
    { w with err := errorSet xmppSendError message, returned := result }
  else { w with returned := taOk }

/-- `ta_xmpp_client_send`. -/
def clientSend (w : LoopWorld) (result : ℤ) : Option LoopWorld :=
  w.useParser.map fun w =>
    { w with xmpp := sendReturned w.xmpp result "Failed to send the stanza".toList }

/-- `ta_xmpp_client_send_presence`. The stanza is deleted when it was sent. -/
def clientSendPresence (w : LoopWorld) (result : ℤ) : Option LoopWorld :=
  let w := { w with presences := w.presences + 1 }
  w.useParser.map fun w =>
    { w with
      xmpp := sendReturned w.xmpp result "Failed to send the presence stanza".toList
      presences := if result ≠ 0 then w.presences else w.presences - 1 }

/-- `ta_xmpp_client_is_running`. -/
def clientIsRunning (client : Client) : ℤ := if client.running then taOk else taError

/-! ## The loop -/

/-- The flag is cleared. -/
def XmppWorld.stop (w : XmppWorld) : XmppWorld :=
  { w with client := { w.client with running := false } }

/-- The `switch` of `_ta_xmpp_client_do_run`, with its variable `ret`. -/
def doRunSwitch (w : XmppWorld) (ret : ℤ) : RecvResult → XmppWorld × ℤ
  | .hook => (w, ret)
  | .ok => (w, ret)
  | .noConn => (w.stop, ret)
  | .rwErr =>
    ({ w.stop with err := errorSet taXmppNetworkError "Network Error".toList }, taError)
  | .tlsFail =>
    ({ w.stop with err := errorSet taXmppTlsError "TLS handshake failed".toList }, taError)
  | .other => ({ w.stop with err := errorSet taXmppIoError "IO Error".toList }, taError)

/-- The test of the loop in `_ta_xmpp_client_do_run`: `iks_recv` begins again, or the call
returns. -/
def doRunTest (w : LoopWorld) (ret : ℤ) : Option LoopWorld :=
  if w.xmpp.client.running then
    w.xmpp.client.parser.map fun parser =>
      { w.touch parser with frames := .receiving parser ret :: w.frames }
  else some { w with xmpp := { w.xmpp with returned := ret } }

/-- `ta_xmpp_client_run` until `iks_recv` begins. -/
def mainLoopRun (w : LoopWorld) : Option LoopWorld :=
  doRunTest { w with
    xmpp := { w.xmpp with client := { w.xmpp.client with running := true } } } taOk

/-- The action goes through the parser of the client. -/
def Action.usesParser : Action → Bool
  | .startTls => true
  | .startSasl _ _ _ => true
  | .sendHeader _ => true
  | .send _ => true
  | _ => false

/-- The stream hook asks `iks_is_secure` about the parser of the client. -/
def Client.asksSecure (client : Client) : StreamItem → Bool
  | .start _ => client.useTls
  | .normal node => node.name = "stream:features".toList && client.useSasl && client.useTls
  | .error _ => false
  | .stop => false

/-- The stream hook hands the parser of the client to iksemel. -/
def Client.answers (client : Client) (secure : Bool) (item : StreamItem) : Bool :=
  client.asksSecure item || (clientHook client secure item).2.any Action.usesParser

/-- The client behind the stream hook, up to the hooks of the user. -/
def LoopWorld.streamHook (w : LoopWorld) (secure : Bool) (item : StreamItem) : LoopWorld :=
  { w with xmpp := { w.xmpp with client := (clientHook w.xmpp.client secure item).1 } }

/-- The stream hook for an item. The item comes through the parser of the call of `iks_recv`, and is
answered through that of the client. -/
def loopItem (w : LoopWorld) (parser : ℕ) (secure : Bool) (item : StreamItem) : Option LoopWorld :=
  let w := w.touch parser
  if w.xmpp.client.answers secure item then (w.streamHook secure item).useParser
  else some (w.streamHook secure item)

/-! ## Runs -/

/-- What happens next in a session: a call of the user's code, the end of the hooks of `connected`
or of those for an item, an item in `iks_recv`, or its result. -/
inductive LoopOp where
  | connect (result : NetResult)
  | hooksReturn
  | disconnect
  | send (result : ℤ)
  | sendPresence (result : ℤ)
  | run
  | item (secure : Bool) (item : StreamItem)
  | itemDone
  | recvReturn (result : RecvResult)
deriving DecidableEq, Repr

/-- One step of a session. -/
def loopStep (w : LoopWorld) : LoopOp → Option LoopWorld
  | .connect result => if w.inUserCode then some (loopConnect w result) else some w
  | .hooksReturn =>
    match w.frames with
    | .connecting :: frames =>
      (connectDone w.xmpp).map fun r => { w with xmpp := r.1, frames := frames }
    | _ => some w
  | .disconnect => if w.inUserCode then some (loopDisconnect w) else some w
  | .send result => if w.inUserCode then clientSend w result else some w
  | .sendPresence result => if w.inUserCode then clientSendPresence w result else some w
  | .run => if w.inUserCode then mainLoopRun w else some w
  | .item secure item =>
    match w.frames with
    | .receiving parser ret :: frames =>
      (loopItem w parser secure item).map fun w =>
        { w with frames := .hook parser ret :: frames }
    | _ => some w
  | .itemDone =>
    match w.frames with
    | .hook parser ret :: frames =>
      some { w.touch parser with frames := .receiving parser ret :: frames }
    | _ => some w
  | .recvReturn result =>
    match w.frames with
    | .receiving parser ret :: frames =>
      let (xmpp, ret) := doRunSwitch w.xmpp ret result
      doRunTest { w.touch parser with xmpp := xmpp, frames := frames } ret
    | _ => some w

/-! ## The parsers -/

/-- The parser of the call of `iks_recv` in the frame. -/
def Frame.parser : Frame → Option ℕ
  | .connecting => none
  | .receiving parser _ => some parser
  | .hook parser _ => some parser

/-- The parsers of the calls of `iks_recv` that have begun and not returned. -/
def LoopWorld.working (w : LoopWorld) : List ℕ := w.frames.filterMap Frame.parser

/-- Nothing happened to a parser after it was deleted, nor will when the calls of `iks_recv` that
have begun return. -/
def LoopWorld.Sound (w : LoopWorld) : Prop :=
  Ledger.Sound (w.parserLog ++ w.working.map .use)

/-- No parser was deleted twice, and that of the client was not. -/
def LoopWorld.ParsersLive (w : LoopWorld) : Prop := (parserSlot w.xmpp).Live w.parserLog

/-- The step leaves alone the parsers that iksemel works on: a hook disconnects only when the client
has none of them any more. -/
def LoopWorld.Spares (w : LoopWorld) : LoopOp → Prop
  | .disconnect => w.inUserCode = true → ∀ parser ∈ w.working, w.xmpp.client.parser ≠ some parser
  | _ => True

/-- From a state with its parsers live to another such state, whose log is as sound. -/
structure LoopWorld.Carries (w w' : LoopWorld) : Prop where
  live : w'.ParsersLive
  sound : w'.Sound ↔ w.Sound

variable {w w' : LoopWorld}

/-- Uses that are to come add up with the log. -/
lemma LoopWorld.sound_iff (w : LoopWorld) :
    w.Sound ↔ Ledger.Sound w.parserLog ∧ ∀ parser ∈ w.working, .free parser ∉ w.parserLog :=
  Ledger.sound_append_uses

/-- A step that only reads is carried. -/
lemma LoopWorld.ParsersLive.carries (h : w.ParsersLive) : w.Carries w := ⟨h, Iff.rfl⟩

/-- Only these matter: the parser of the client, how many were made, what happened to them, and
which ones iksemel works on. -/
lemma LoopWorld.Carries.congr {v : LoopWorld} (h : w.Carries v)
    (hslot : parserSlot w'.xmpp = parserSlot v.xmpp) (hlog : w'.parserLog = v.parserLog)
    (hworking : w'.working = v.working) : w.Carries w' where
  live := by
    unfold LoopWorld.ParsersLive
    rw [hslot, hlog]
    exact h.live
  sound := by
    unfold LoopWorld.Sound
    rw [hlog, hworking]
    exact h.sound

/-- The uses of a parser that was not deleted spoil nothing. -/
lemma sound_touch {parser : ℕ} (hlive : .free parser ∉ w.parserLog) :
    (w.touch parser).Sound ↔ w.Sound := by
  rw [LoopWorld.sound_iff, LoopWorld.sound_iff]
  refine and_congr (Ledger.sound_concat.trans (and_iff_left hlive)) ?_
  simp [LoopWorld.touch, LoopWorld.working]

/-- **A parser that iksemel works on** may be touched: if it was deleted, then the log is spoiled
already.

**Proof sketch.** One of the uses that are to come is made now. If the parser was not deleted, it
spoils nothing; otherwise neither log is sound. -/
lemma sound_touch_working {parser : ℕ} (hworking : parser ∈ w.working) :
    (w.touch parser).Sound ↔ w.Sound := by
  by_cases hlive : .free parser ∈ w.parserLog
  · rw [LoopWorld.sound_iff, LoopWorld.sound_iff]
    have hafter : .free parser ∈ (w.touch parser).parserLog := List.mem_append_left _ hlive
    exact iff_of_false (fun h => h.2 parser hworking hafter) (fun h => h.2 parser hworking hlive)
  · exact sound_touch hlive

/-- A parser that is touched is not deleted by that. -/
lemma LoopWorld.ParsersLive.touch (h : w.ParsersLive) (parser : ℕ) :
    (w.touch parser).ParsersLive :=
  Slot.Live.use h parser

/-- The parser of the client may be used. -/
lemma LoopWorld.ParsersLive.use (h : w.ParsersLive) (huse : w.useParser = some w') :
    w.Carries w' := by
  obtain ⟨parser, hparser, rfl⟩ := Option.map_eq_some_iff.mp huse
  exact ⟨h.touch parser, sound_touch (h.held parser hparser).2⟩

/-- Returning from a send does not touch the parser. -/
lemma parserSlot_sendReturned (w : XmppWorld) (result : ℤ) (message : Str) :
    parserSlot (sendReturned w result message) = parserSlot w := by
  unfold sendReturned
  split_ifs <;> rfl

/-- Nor does the `switch` on the result of `iks_recv`. -/
lemma parserSlot_doRunSwitch (w : XmppWorld) (ret : ℤ) (result : RecvResult) :
    parserSlot (doRunSwitch w ret result).1 = parserSlot w := by
  cases result <;> rfl

/-! ## One step -/

/-- The loop goes on with the parser of the client, or its call ends.

**Proof sketch.** When it goes on, its parser is touched and comes to those that iksemel works on.
It is the parser of the client, so neither spoils the log. -/
lemma carries_doRunTest {ret : ℤ} (h : w.ParsersLive) (htest : doRunTest w ret = some w') :
    w.Carries w' := by
  unfold doRunTest at htest
  split_ifs at htest
  · obtain ⟨parser, hparser, rfl⟩ := Option.map_eq_some_iff.mp htest
    have hlive := (h.held parser hparser).2
    refine ⟨h.touch parser, ?_⟩
    rw [LoopWorld.sound_iff, LoopWorld.sound_iff]
    refine and_congr (Ledger.sound_concat.trans (and_iff_left hlive)) ?_
    simp [LoopWorld.touch, LoopWorld.working, Frame.parser, hlive]
  · obtain rfl := Option.some.inj htest
    exact h.carries.congr rfl rfl rfl

/-- A connection gets a parser of its own. -/
lemma carries_loopConnect (h : w.ParsersLive) (result : NetResult) :
    w.Carries (loopConnect w result) := by
  unfold loopConnect
  cases result <;> exact ⟨Slot.Live.fill h, Iff.rfl⟩

/-- A parser is deleted that was not deleted before. -/
lemma live_loopDisconnect (h : w.ParsersLive) : (loopDisconnect w).ParsersLive :=
  Slot.Live.empty h

/-- **A disconnect** spoils the log exactly when iksemel works on the parser of the client.

**Proof sketch.** The deletion itself is sound, because the parser of the client was not deleted
before. What is left is that none of the uses that are to come is one of that parser. -/
lemma sound_loopDisconnect (h : w.ParsersLive) :
    (loopDisconnect w).Sound ↔
      w.Sound ∧ ∀ parser ∈ w.working, w.xmpp.client.parser ≠ some parser := by
  rw [LoopWorld.sound_iff, LoopWorld.sound_iff, and_assoc, ← forall₂_and]
  have hlog : (loopDisconnect w).parserLog =
      w.parserLog ++ w.xmpp.client.parser.toList.map .free := rfl
  have hworking : (loopDisconnect w).working = w.working := rfl
  rw [hlog, hworking]
  cases hparser : w.xmpp.client.parser with
  | none => simp
  | some parser =>
    have hlive := (h.held parser hparser).2
    refine and_congr (Ledger.sound_concat.trans (and_iff_left hlive)) ?_
    refine forall₂_congr fun q hq => ?_
    simp [eq_comm]

/-- A send uses the parser in the field, which is live. -/
lemma carries_clientSend {result : ℤ} (h : w.ParsersLive)
    (hsend : clientSend w result = some w') : w.Carries w' := by
  obtain ⟨v, hv, rfl⟩ := Option.map_eq_some_iff.mp hsend
  exact (h.use hv).congr (parserSlot_sendReturned _ _ _) rfl rfl

/-- So does the presence that is sent. -/
lemma carries_clientSendPresence {result : ℤ} (h : w.ParsersLive)
    (hsend : clientSendPresence w result = some w') : w.Carries w' := by
  obtain ⟨v, hv, rfl⟩ := Option.map_eq_some_iff.mp hsend
  have hused := LoopWorld.ParsersLive.use (w := { w with presences := w.presences + 1 }) h hv
  exact LoopWorld.Carries.congr ⟨hused.live, hused.sound⟩ (parserSlot_sendReturned _ _ _) rfl rfl

/-- The test of the main loop, once the flag is set. -/
lemma carries_mainLoopRun (h : w.ParsersLive) (hrun : mainLoopRun w = some w') :
    w.Carries w' := by
  have hrunning := carries_doRunTest (w := { w with
    xmpp := { w.xmpp with client := { w.xmpp.client with running := true } } }) h hrun
  exact ⟨hrunning.live, hrunning.sound⟩

/-- The stream hook makes and deletes no parser. -/
lemma parserSlot_clientHook (w : XmppWorld) (secure : Bool) (item : StreamItem) :
    parserSlot { w with client := (clientHook w.client secure item).1 } = parserSlot w := by
  obtain ⟨features, authenticated, hclient⟩ := client_clientHook w.client secure item
  unfold parserSlot
  rw [hclient]

/-- An item comes through a parser that iksemel works on.

**Proof sketch.** The parser that the item comes through is worked on, so booking it is sound.
The hook keeps the parser in the field, and behind an authentication the hook uses it once more
to send. -/
lemma carries_loopItem {parser : ℕ} {secure : Bool} {item : StreamItem} (h : w.ParsersLive)
    (hworking : parser ∈ w.working) (hitem : loopItem w parser secure item = some w') :
    w.Carries w' := by
  have htouched : w.Carries (w.touch parser) := ⟨h.touch parser, sound_touch_working hworking⟩
  have hhooked : w.Carries ((w.touch parser).streamHook secure item) :=
    htouched.congr (parserSlot_clientHook w.xmpp secure item) rfl rfl
  unfold loopItem at hitem
  dsimp only at hitem
  split_ifs at hitem
  · have hused := hhooked.live.use hitem
    exact ⟨hused.live, hused.sound.trans hhooked.sound⟩
  · exact Option.some.inj hitem ▸ hhooked

/-- The stream hook begins and ends no call. -/
lemma frames_loopItem {parser : ℕ} {secure : Bool} {item : StreamItem}
    (hitem : loopItem w parser secure item = some w') : w'.frames = w.frames := by
  unfold loopItem at hitem
  dsimp only at hitem
  split_ifs at hitem
  · obtain ⟨_, _, rfl⟩ := Option.map_eq_some_iff.mp hitem
    rfl
  · exact Option.some.inj hitem ▸ rfl

/-- The calls of `iks_recv` are the same when one goes from the stream hook back to the stream. -/
lemma LoopWorld.Carries.frame {frames : List Frame} (h : w.Carries w') (frame frame' : Frame)
    (hframe : frame.parser = frame'.parser) (hframes : w'.frames = frame :: frames) :
    w.Carries { w' with frames := frame' :: frames } := by
  refine h.congr rfl rfl ?_
  unfold LoopWorld.working
  rw [hframes, List.filterMap_cons, List.filterMap_cons, hframe]

/-! ## One step -/

/-- A call of the user's code carries the log, and out of turn nothing happens. -/
lemma carries_inUserCode {next : Option LoopWorld} (h : w.ParsersLive)
    (hnext : next = some w' → w.Carries w')
    (hstep : (if w.inUserCode then next else some w) = some w') : w.Carries w' := by
  split_ifs at hstep
  · exact hnext hstep
  · exact Option.some.inj hstep ▸ h.carries

/-- The hooks of `connected` return. -/
lemma carries_hooksReturn (h : w.ParsersLive) (hstep : loopStep w .hooksReturn = some w') :
    w.Carries w' := by
  simp only [loopStep] at hstep
  split at hstep
  · rename_i frames hframes
    obtain ⟨r, hr, rfl⟩ := Option.map_eq_some_iff.mp hstep
    obtain ⟨_, _, rfl⟩ := Option.map_eq_some_iff.mp hr
    refine h.carries.congr rfl rfl ?_
    unfold LoopWorld.working
    rw [hframes]
    rfl
  · exact Option.some.inj hstep ▸ h.carries

/-- An item in `iks_recv`. -/
lemma carries_item {secure : Bool} {item : StreamItem} (h : w.ParsersLive)
    (hstep : loopStep w (.item secure item) = some w') : w.Carries w' := by
  simp only [loopStep] at hstep
  split at hstep
  · rename_i parser ret frames hframes
    obtain ⟨v, hv, rfl⟩ := Option.map_eq_some_iff.mp hstep
    have hworking : parser ∈ w.working := by
      simp [LoopWorld.working, hframes, Frame.parser]
    exact (carries_loopItem h hworking hv).frame (.receiving parser ret) (.hook parser ret) rfl
      ((frames_loopItem hv).trans hframes)
  · exact Option.some.inj hstep ▸ h.carries

/-- The hooks for an item return. -/
lemma carries_itemDone (h : w.ParsersLive) (hstep : loopStep w .itemDone = some w') :
    w.Carries w' := by
  simp only [loopStep] at hstep
  split at hstep
  · rename_i parser ret frames hframes
    obtain rfl := Option.some.inj hstep
    have hworking : parser ∈ w.working := by
      simp [LoopWorld.working, hframes, Frame.parser]
    have htouched : w.Carries (w.touch parser) :=
      ⟨h.touch parser, sound_touch_working hworking⟩
    exact htouched.frame (.hook parser ret) (.receiving parser ret) rfl hframes
  · exact Option.some.inj hstep ▸ h.carries

/-- `iks_recv` returns. It makes one use of its parser that was to come, and is not in the calls any
more. -/
lemma carries_recvReturn {result : RecvResult} (h : w.ParsersLive)
    (hstep : loopStep w (.recvReturn result) = some w') : w.Carries w' := by
  simp only [loopStep] at hstep
  split at hstep
  · rename_i parser ret frames hframes
    have hdone : w.Carries { w.touch parser with
        xmpp := (doRunSwitch w.xmpp ret result).1, frames := frames } := by
      constructor
      · show Slot.Live (parserSlot (doRunSwitch w.xmpp ret result).1) _
        rw [parserSlot_doRunSwitch]
        exact h.touch parser
      · unfold LoopWorld.Sound LoopWorld.working LoopWorld.touch
        rw [hframes]
        simp [Frame.parser]
    have htest := carries_doRunTest hdone.live hstep
    exact ⟨htest.live, htest.sound.trans hdone.sound⟩
  · exact Option.some.inj hstep ▸ h.carries

/-- **No other step** than a disconnect spoils the log.

**Proof sketch.** By cases on the operation. Each touches the parser of the client, which was not
deleted, or one that iksemel works on, whose uses are accounted for. -/
lemma carries_loopStep {op : LoopOp} (h : w.ParsersLive) (hop : op ≠ .disconnect)
    (hstep : loopStep w op = some w') : w.Carries w' := by
  cases op with
  | connect result =>
    exact carries_inUserCode h (fun heq => Option.some.inj heq ▸ carries_loopConnect h result) hstep
  | hooksReturn => exact carries_hooksReturn h hstep
  | disconnect => exact absurd rfl hop
  | send result => exact carries_inUserCode h (carries_clientSend h) hstep
  | sendPresence result => exact carries_inUserCode h (carries_clientSendPresence h) hstep
  | run => exact carries_inUserCode h (carries_mainLoopRun h) hstep
  | item secure item => exact carries_item h hstep
  | itemDone => exact carries_itemDone h hstep
  | recvReturn result => exact carries_recvReturn h hstep

/-- Every other step than a disconnect spares the parsers. -/
lemma LoopWorld.spares_of_ne {op : LoopOp} (w : LoopWorld) (hop : op ≠ .disconnect) :
    w.Spares op := by
  cases op with
  | disconnect => exact absurd rfl hop
  | _ => trivial

/-- **One step** deletes no parser twice, and spoils the log exactly when it deletes a parser that
iksemel works on.

**Proof sketch.** Only a disconnect in the user's code deletes a parser (`carries_loopStep` for the
others), and it spoils the log when iksemel works on this parser. -/
lemma sound_loopStep {op : LoopOp} (h : w.ParsersLive) (hstep : loopStep w op = some w') :
    w'.ParsersLive ∧ (w'.Sound ↔ w.Sound ∧ w.Spares op) := by
  by_cases hop : op = .disconnect
  · subst hop
    simp only [loopStep] at hstep
    split_ifs at hstep with huser
    · obtain rfl := Option.some.inj hstep
      have hspares : w.Spares .disconnect ↔
          ∀ parser ∈ w.working, w.xmpp.client.parser ≠ some parser := forall_prop_of_true huser
      rw [hspares]
      exact ⟨live_loopDisconnect h, sound_loopDisconnect h⟩
    · obtain rfl := Option.some.inj hstep
      exact ⟨h, (and_iff_left fun hturn => absurd hturn huser).symm⟩
  · have hcarries := carries_loopStep h hop hstep
    exact ⟨hcarries.live, hcarries.sound.trans (and_iff_left (w.spares_of_ne hop)).symm⟩

/-! ## Sessions -/

/-- The step for `op` behind the operations `pre` spares the parsers that iksemel works on. -/
def SparesParsers (start : LoopWorld) (pre : List LoopOp) (op : LoopOp) : Prop :=
  ∀ w, Machine.run? loopStep start pre = some w → w.Spares op

/-- **A session** deletes no parser twice, and its log is sound exactly when every step spares the
parsers that iksemel works on.

**Proof sketch.** Induction on the session from its end. A longer session spares the parsers when
the shorter one does and its last step does, in the one state that the shorter one reaches. -/
lemma sound_loopRun {start : LoopWorld} (hstart : start.ParsersLive) (hsound : start.Sound)
    {ops : List LoopOp} (hrun : Machine.run? loopStep start ops = some w) :
    w.ParsersLive ∧ (w.Sound ↔ Machine.EachStep (SparesParsers start) ops) := by
  induction ops using List.reverseRecOn generalizing w with
  | nil =>
    obtain rfl := Option.some.inj hrun
    exact ⟨hstart, iff_of_true hsound (Machine.eachStep_nil _)⟩
  | append_singleton ops op ih =>
    rw [Machine.run?_concat] at hrun
    obtain ⟨v, hv, hstep⟩ := Option.bind_eq_some_iff.mp hrun
    obtain ⟨hlive, hspared⟩ := ih hv
    obtain ⟨hlive', hstepped⟩ := sound_loopStep hlive hstep
    refine ⟨hlive', ?_⟩
    rw [hstepped, hspared, Machine.eachStep_concat]
    refine and_congr_right fun _ => ?_
    constructor
    · intro h u hu
      obtain rfl := Option.some.inj (hv.symm.trans hu)
      exact h
    · exact fun h => h v hv

end Taningia
