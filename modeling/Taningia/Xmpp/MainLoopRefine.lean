import Taningia.Xmpp.MainLoop

set_option relaxedAutoImplicit false
set_option autoImplicit false

/-!
# One flag for all loops

Main loops may be nested, and all of them test the one flag `running`. To its users every loop has a
flag of its own: a hook that disconnects stops the loop that called it, and so does one that runs a
loop inside, however that ends. A connection that is made again does not start a loop again. A call
returns an error exactly when its last result was one, and a client whose flag is set has a parser.

The parsers are deleted once, but a hook that disconnects deletes the one that iksemel comes back to
when the hook returns.

## Main definitions

* `Taningia.Activity`, `Taningia.LoopSpec`, `Taningia.loopSpecStep` — a session with a flag for each
  loop.
* `Taningia.ShowsLoops` — how the one flag shows them.

## Main results

* `Taningia.rel_loopStep` — one step.
* `Taningia.loop_refines` — every session follows its specification.
* `Taningia.loop_parsers_sound_iff` — when iksemel touches no parser that was deleted.
-/

namespace Taningia

/-! ## A flag for each loop -/

/-- A call that has begun and not returned. A loop is live until it is told to stop. -/
inductive Activity where
  | connecting
  | receiving (live : Bool)
  | hook (live : Bool)
deriving DecidableEq, Repr

/-- A session as its users see it: whether there is a connection, if only one that failed, whether a
success was ever received, the calls, the error record, the last return value, and how many presence
stanzas were lost. -/
structure LoopSpec where
  connected : Bool
  authenticated : Bool
  activities : List Activity
  err : ErrRec
  returned : ℤ
  lost : ℕ
deriving DecidableEq, Repr

/-- No connection, outside all loops. -/
def LoopSpec.init (err : ErrRec) : LoopSpec := ⟨false, false, [], err, 0, 0⟩

/-- The innermost loop is told to stop. -/
def stopLoop : List Activity → List Activity
  | [] => []
  | .connecting :: as => .connecting :: stopLoop as
  | .receiving _ :: as => .receiving false :: as
  | .hook _ :: as => .hook false :: as

/-- There is an innermost loop, and it is live. -/
def loopLive : List Activity → Bool
  | [] => false
  | .connecting :: as => loopLive as
  | .receiving live :: _ => live
  | .hook live :: _ => live

/-- It is the turn of the user's code. -/
def LoopSpec.inUserCode (a : LoopSpec) : Bool :=
  match a.activities with
  | .receiving _ :: _ => false
  | _ => true

/-- The error that a result of `iks_recv` stands for. -/
def RecvResult.error : RecvResult → Option ErrorT
  | .ok => none
  | .hook => none
  | .noConn => none
  | .rwErr => some ⟨taXmppNetworkError, "Network Error".toList⟩
  | .tlsFail => some ⟨taXmppTlsError, "TLS handshake failed".toList⟩
  | .other => some ⟨taXmppIoError, "IO Error".toList⟩

/-- A live loop goes on after the result. -/
def RecvResult.goesOn : RecvResult → Bool
  | .ok => true
  | .hook => true
  | _ => false

/-- A call that returns, with the error that it sets if it fails. -/
def LoopSpec.returning (a : LoopSpec) (returned : ℤ) (error : Option ErrorT) : LoopSpec :=
  { a with returned := returned, err := error.or a.err }

/-- A stanza is sent, or not. -/
def LoopSpec.sending (a : LoopSpec) (result : ℤ) (message : Str) : LoopSpec :=
  a.returning result (if result = 0 then none else some ⟨xmppSendError, message⟩)

/-- The item is answered: a success, and features that offer what is wanted next. -/
def StreamItem.answered (authenticated : Bool) : StreamItem → Bool
  | .normal node =>
    if node.name = "stream:features".toList then
      if authenticated then node.features.bind || node.features.session
      else node.features.saslMd5 || node.features.saslPlain
    else node.name = "success".toList
  | _ => false

/-- One step of a session. -/
def loopSpecStep (a : LoopSpec) : LoopOp → Option LoopSpec
  | .connect result =>
    if a.inUserCode then
      match result.message with
      | some message =>
        some ({ a with connected := true }.returning taError
          (some ⟨xmppConnectionError, message⟩))
      | none => some { a with connected := true, activities := .connecting :: a.activities }
    else some a
  | .hooksReturn =>
    match a.activities with
    | .connecting :: as =>
      if a.connected then some ({ a with activities := as }.returning taOk none) else none
    | _ => some a
  | .disconnect =>
    if a.inUserCode then
      some { a with connected := false, activities := stopLoop a.activities }
    else some a
  | .send result =>
    if a.inUserCode then
      if a.connected then some (a.sending result "Failed to send the stanza".toList) else none
    else some a
  | .sendPresence result =>
    if a.inUserCode then
      if a.connected then
        some { a.sending result "Failed to send the presence stanza".toList with
          lost := if result = 0 then a.lost else a.lost + 1 }
      else none
    else some a
  | .run =>
    if a.inUserCode then
      if a.connected then
        some { a with activities := .receiving true :: stopLoop a.activities }
      else none
    else some a
  | .item secure item =>
    match a.activities with
    | .receiving live :: as =>
      if a.connected || !item.answered a.authenticated then
        some { a with
          activities := .hook live :: as
          authenticated := a.authenticated || (ClientOp.stream secure item).IsSuccess }
      else none
    | _ => some a
  | .itemDone =>
    match a.activities with
    | .hook live :: as => some { a with activities := .receiving live :: as }
    | _ => some a
  | .recvReturn result =>
    match a.activities with
    | .receiving live :: as =>
      if live && result.goesOn then some a
      else
        some ({ a with activities := as }.returning
          (if result.error.isSome then taError else taOk) result.error)
    | _ => some a

/-! ## How the one flag shows them -/

/-- The frames of a call. The variable `ret` of a loop that has not ended is `TA_OK`. -/
inductive FrameShows : Frame → Activity → Prop where
  | connecting : FrameShows .connecting .connecting
  | receiving (parser : ℕ) (live : Bool) :
    FrameShows (.receiving parser taOk) (.receiving live)
  | hook (parser : ℕ) (live : Bool) : FrameShows (.hook parser taOk) (.hook live)

/-- No loop but the innermost is live. -/
def OnlyInnermost : List Activity → Prop
  | [] => True
  | .connecting :: as => OnlyInnermost as
  | .receiving _ :: as => loopLive as = false ∧ OnlyInnermost as
  | .hook _ :: as => loopLive as = false ∧ OnlyInnermost as

/-- The client shows the session: its flag is that of the innermost loop, and only that one is
live. -/
structure ShowsLoops (w : LoopWorld) (a : LoopSpec) : Prop where
  parser : w.xmpp.client.parser.isSome = a.connected
  filter : w.xmpp.client.filter.isSome = a.connected
  authenticated : w.xmpp.client.authenticated = a.authenticated
  useSasl : w.xmpp.client.useSasl = true
  useTls : w.xmpp.client.useTls = false
  running : w.xmpp.client.running = loopLive a.activities
  connected : loopLive a.activities = true → a.connected = true
  frames : List.Forall₂ FrameShows w.frames a.activities
  innermost : OnlyInnermost a.activities
  err : w.xmpp.err = a.err
  returned : w.xmpp.returned = a.returned
  presences : w.presences = a.lost

/-- A loop that was stopped is not live. -/
@[simp] lemma loopLive_stopLoop (as : List Activity) : loopLive (stopLoop as) = false := by
  induction as with
  | nil => rfl
  | cons a as ih =>
    cases a with
    | connecting => exact ih
    | receiving live => rfl
    | hook live => rfl

/-- When the innermost loop is stopped, at most the innermost is live. -/
lemma OnlyInnermost.stopLoop {as : List Activity} (h : OnlyInnermost as) :
    OnlyInnermost (stopLoop as) := by
  induction as with
  | nil => exact h
  | cons a as ih =>
    cases a with
    | connecting => exact ih h
    | receiving live => exact h
    | hook live => exact h

/-- A loop that was told to stop has the same frames. -/
lemma forall₂_stopLoop {frames : List Frame} {as : List Activity}
    (h : List.Forall₂ FrameShows frames as) : List.Forall₂ FrameShows frames (stopLoop as) := by
  induction h with
  | nil => exact .nil
  | cons hframe hrest ih =>
    cases hframe with
    | connecting => exact .cons .connecting ih
    | receiving parser live => exact .cons (.receiving parser false) hrest
    | hook parser live => exact .cons (.hook parser false) hrest

variable {w : LoopWorld} {a : LoopSpec}

/-- A new client shows no loop.

**Proof sketch.** Field by field, as the client is made. -/
lemma ShowsLoops.init (iksIdNew : Str → IksId) (jid password : Str) (host : Option Str) (port : ℤ)
    (err : ErrRec) :
    ShowsLoops (.init (.init (clientInit iksIdNew jid password host port) err)) (.init err) where
  parser := rfl
  filter := rfl
  authenticated := rfl
  useSasl := rfl
  useTls := rfl
  running := rfl
  connected := by
    intro h
    cases h
  frames := .nil
  innermost := trivial
  err := rfl
  returned := rfl
  presences := rfl

/-- Both know whose turn it is. -/
lemma ShowsLoops.inUserCode (h : ShowsLoops w a) : w.inUserCode = a.inUserCode := by
  obtain ⟨xmpp, frames, parserLog, presences⟩ := w
  obtain ⟨connected, authenticated, as, err, returned, lost⟩ := a
  have hframes : List.Forall₂ FrameShows frames as := h.frames
  cases hframes with
  | nil => rfl
  | cons hframe _ => cases hframe <;> rfl

/-- iksemel is handed a parser exactly when there is a connection. -/
lemma ShowsLoops.useParser (h : ShowsLoops w a) :
    (a.connected = false ∧ w.useParser = none) ∨
      a.connected = true ∧ ∃ v, w.useParser = some v ∧ ShowsLoops v a := by
  unfold LoopWorld.useParser
  rw [← h.parser]
  cases w.xmpp.client.parser with
  | none => exact .inl ⟨rfl, rfl⟩
  | some parser => exact .inr ⟨rfl, _, rfl, { h with }⟩

/-- An operation of the user's code, or one that is skipped. -/
lemma rel_userCode {x : Option LoopWorld} {y : Option LoopSpec} (h : ShowsLoops w a)
    (hxy : Option.Rel ShowsLoops x y) :
    Option.Rel ShowsLoops (if w.inUserCode then x else some w)
      (if a.inUserCode then y else some a) := by
  rw [h.inUserCode]
  split_ifs
  · exact hxy
  · exact .some h

/-! ## The functions of the client -/

/-- A connect is one in the model, also when it fails.

**Proof sketch.** Where it fails the client is as before with an error recorded; where it
succeeds a new parser is made and the hooks of the connection are under way. -/
lemma rel_connect (h : ShowsLoops w a) (result : NetResult) :
    Option.Rel ShowsLoops (loopStep w (.connect result)) (loopSpecStep a (.connect result)) := by
  refine rel_userCode h ?_
  unfold loopConnect
  cases hmessage : result.message with
  | none =>
    exact .some { h with
      parser := rfl, filter := rfl, connected := fun _ => rfl
      frames := .cons .connecting h.frames }
  | some message =>
    have hfailed : (clientConnect w.xmpp result).1 = { (connectStart w.xmpp).1 with
        err := errorSet xmppConnectionError message, returned := taError } := by
      unfold clientConnect
      rw [hmessage]
      rfl
    show Option.Rel ShowsLoops
      (some { w with xmpp := (clientConnect w.xmpp result).1 }) (some _)
    rw [hfailed]
    exact .some { h with
      parser := rfl, filter := rfl, connected := fun _ => rfl, err := rfl, returned := rfl }

/-- The return from the hooks of a connect is one in the model.

**Proof sketch.** Only the activity `connecting` returns from hooks; the code sets the parser's
hook then, and needs the parser and the filter that a hook may have taken away. -/
lemma rel_hooksReturn (h : ShowsLoops w a) :
    Option.Rel ShowsLoops (loopStep w .hooksReturn) (loopSpecStep a .hooksReturn) := by
  obtain ⟨xmpp, frames, parserLog, presences⟩ := w
  obtain ⟨connected, authenticated, as, err, returned, lost⟩ := a
  have hframes : List.Forall₂ FrameShows frames as := h.frames
  cases hframes with
  | nil => exact .some h
  | cons hframe hrest =>
    cases hframe with
    | receiving _ live => exact .some h
    | hook _ live => exact .some h
    | connecting =>
      have hfilter : xmpp.client.filter.isSome = connected := h.filter
      show Option.Rel ShowsLoops ((connectDone xmpp).map _) (if connected then _ else none)
      unfold connectDone
      cases hf : xmpp.client.filter with
      | none =>
        obtain rfl : false = connected := by rw [← hfilter, hf]; rfl
        exact .none
      | some filter =>
        obtain rfl : true = connected := by rw [← hfilter, hf]; rfl
        exact .some { h with frames := hrest, returned := rfl }

/-- A disconnect stops the innermost loop, and closes the connection. -/
lemma rel_disconnect (h : ShowsLoops w a) :
    Option.Rel ShowsLoops (loopStep w .disconnect) (loopSpecStep a .disconnect) := by
  refine rel_userCode h (.some { h with
    parser := rfl, filter := rfl, running := ?_, connected := ?_,
    frames := forall₂_stopLoop h.frames, innermost := h.innermost.stopLoop })
  · exact (loopLive_stopLoop _).symm
  · intro hlive
    cases (loopLive_stopLoop _).symm.trans hlive

/-- A function that hands the parser to iksemel, and what it does then. -/
lemma rel_useParser {x : LoopWorld → LoopWorld} {b : LoopSpec} {connected : Bool}
    (h : ShowsLoops w a) (hconnected : a.connected = connected)
    (hx : ∀ v, ShowsLoops v a → ShowsLoops (x v) b) :
    Option.Rel ShowsLoops (w.useParser.map x) (if connected then some b else none) := by
  subst hconnected
  rcases h.useParser with ⟨hconnected, hnone⟩ | ⟨hconnected, v, hsome, hv⟩
  · rw [hconnected, hnone]
    exact .none
  · rw [hconnected, hsome]
    exact .some (hx v hv)

/-- A send that returns leaves its error in both. -/
lemma shows_sendReturned {v : LoopWorld} (h : ShowsLoops v a) (result : ℤ) (message : Str) :
    ShowsLoops { v with xmpp := sendReturned v.xmpp result message }
      (a.sending result message) := by
  unfold sendReturned LoopSpec.sending LoopSpec.returning
  by_cases hresult : result = 0
  · subst hresult
    exact { h with returned := rfl, err := h.err }
  · rw [if_pos hresult, if_neg hresult]
    exact { h with returned := rfl, err := rfl }

/-- A send is one in the model. -/
lemma rel_send (h : ShowsLoops w a) (result : ℤ) :
    Option.Rel ShowsLoops (loopStep w (.send result)) (loopSpecStep a (.send result)) :=
  rel_userCode h (rel_useParser h rfl fun _ hv => shows_sendReturned hv result _)

/-- A presence is one in the model, and is lost when the send fails. -/
lemma rel_sendPresence (h : ShowsLoops w a) (result : ℤ) :
    Option.Rel ShowsLoops (loopStep w (.sendPresence result))
      (loopSpecStep a (.sendPresence result)) := by
  have hmade : ShowsLoops { w with presences := w.presences + 1 } { a with lost := a.lost + 1 } :=
    { h with presences := congrArg (· + 1) h.presences }
  refine rel_userCode h (rel_useParser hmade rfl ?_)
  intro v hv
  have hsent := shows_sendReturned hv result "Failed to send the presence stanza".toList
  refine { hsent with presences := ?_ }
  show (if result ≠ 0 then v.presences else v.presences - 1) =
    if result = 0 then a.lost else a.lost + 1
  rw [hv.presences, ite_not]
  rfl

/-! ## The loop -/

/-- A new main loop is one in the model, innermost and live.

**Proof sketch.** Without a parser both are faults. With one the flag of the client is raised,
which is the flag of the new loop; the loops around it are not live, since at most one was. -/
lemma rel_run (h : ShowsLoops w a) :
    Option.Rel ShowsLoops (loopStep w .run) (loopSpecStep a .run) := by
  have hrun : mainLoopRun w = w.xmpp.client.parser.map fun parser => { w with
      xmpp := { w.xmpp with client := { w.xmpp.client with running := true } }
      frames := .receiving parser taOk :: w.frames
      parserLog := w.parserLog ++ [.use parser] } := rfl
  refine rel_userCode h ?_
  have hparser := h.parser
  rw [hrun]
  cases hheld : w.xmpp.client.parser with
  | none =>
    rw [← hparser, hheld]
    exact .none
  | some parser =>
    have hconnected : a.connected = true := by rw [← hparser, hheld]; rfl
    rw [hconnected]
    exact .some { h with
      parser := hparser.trans hconnected
      filter := h.filter.trans hconnected
      running := rfl
      connected := fun _ => rfl
      frames := .cons (.receiving parser true) (forall₂_stopLoop h.frames)
      innermost := ⟨loopLive_stopLoop _, h.innermost.stopLoop⟩ }

/-- The stream hook of a client in its own configuration answers what the session does.

**Proof sketch.** One case per item. For an element the hook answers when it asks for security,
starts the authentication or hands the element to the filter, which for a client in its own
configuration depends on whether it is authenticated. -/
lemma answers_eq {client : Client} (hc : client.Default) (secure : Bool) (item : StreamItem) :
    client.answers secure item = item.answered client.authenticated := by
  cases item with
  | start node =>
    simp [Client.answers, Client.asksSecure, StreamItem.answered, clientHook, onStart, hc.useSasl,
      hc.useTls]
  | error node => rfl
  | stop => rfl
  | normal node =>
    have hasks : client.asksSecure (.normal node) = false := by
      simp [Client.asksSecure, hc.useTls]
    unfold Client.answers
    rw [hasks, Bool.false_or]
    simp only [clientHook, onNormal, StreamItem.answered]
    by_cases hfeatures : node.name = "stream:features".toList
    · simp only [if_pos hfeatures, onFeatures_default hc]
      obtain ⟨_, session, bind, plain, md5⟩ := node.features
      cases client.authenticated <;> cases session <;> cases bind <;> cases plain <;> cases md5 <;>
        rfl
    · simp only [if_neg hfeatures]
      by_cases hsuccess : node.name = "success".toList
      · rw [if_pos hsuccess, decide_eq_true hsuccess]
        rfl
      · rw [if_neg hsuccess, decide_eq_false hsuccess]
        split_ifs <;> rfl

/-- The client behind the stream hook shows the session that received the item. -/
lemma shows_hooked (h : ShowsLoops w a) (parser : ℕ) (secure : Bool) (item : StreamItem) :
    ShowsLoops ((w.touch parser).streamHook secure item)
      { a with authenticated := a.authenticated || (ClientOp.stream secure item).IsSuccess } := by
  obtain ⟨features, authenticated, hclient⟩ := client_clientHook w.xmpp.client secure item
  have hflag := authenticated_clientHook w.xmpp.client secure item
  rw [h.authenticated] at hflag
  exact { h with
    parser := (congrArg (fun client => client.parser.isSome) hclient).trans h.parser
    filter := (congrArg (fun client => client.filter.isSome) hclient).trans h.filter
    running := (congrArg Client.running hclient).trans h.running
    useSasl := (congrArg Client.useSasl hclient).trans h.useSasl
    useTls := (congrArg Client.useTls hclient).trans h.useTls
    authenticated := hflag }

/-- **An item** is answered exactly when there is a connection; one that asks for no answer needs
none.

**Proof sketch.** The stream hook hands the parser of the client to iksemel exactly when the session
says that the item is answered. If it does, the client has a parser exactly when there is a
connection. -/
lemma rel_loopItem (h : ShowsLoops w a) (parser : ℕ) (secure : Bool) (item : StreamItem) :
    Option.Rel ShowsLoops (loopItem w parser secure item)
      (if a.connected || !item.answered a.authenticated then
        some { a with authenticated := a.authenticated || (ClientOp.stream secure item).IsSuccess }
      else none) := by
  have hhooked := shows_hooked h parser secure item
  have hanswers : (w.touch parser).xmpp.client.answers secure item =
      item.answered a.authenticated := by
    rw [← h.authenticated]
    exact answers_eq ⟨h.useSasl, h.useTls⟩ secure item
  unfold loopItem
  dsimp only
  rw [hanswers]
  cases item.answered a.authenticated with
  | false =>
    rw [if_neg Bool.false_ne_true, Bool.not_false, Bool.or_true, if_pos rfl]
    exact .some hhooked
  | true =>
    rw [if_pos rfl, Bool.not_true, Bool.or_false]
    have hused := rel_useParser (x := id) hhooked rfl fun _ hv => hv
    rwa [Option.map_id, id_eq] at hused

/-- An item that is delivered is one in the model.

**Proof sketch.** The innermost activity is a loop that receives, or nothing is delivered. What
the hook does with the item is `rel_loopItem`, for the parser that the loop works on. -/
lemma rel_item (h : ShowsLoops w a) (secure : Bool) (item : StreamItem) :
    Option.Rel ShowsLoops (loopStep w (.item secure item))
      (loopSpecStep a (.item secure item)) := by
  have hitem := fun parser => rel_loopItem h parser secure item
  obtain ⟨xmpp, frames, parserLog, presences⟩ := w
  obtain ⟨connected, authenticated, as, err, returned, lost⟩ := a
  have hframes : List.Forall₂ FrameShows frames as := h.frames
  cases hframes with
  | nil => exact .some h
  | cons hframe hrest =>
    cases hframe with
    | connecting => exact .some h
    | hook _ live => exact .some h
    | receiving parser live =>
      have hitem := hitem parser
      unfold loopStep loopSpecStep
      dsimp only at hitem ⊢
      split_ifs at hitem ⊢ with hanswered
      · cases hloop : loopItem _ parser secure item with
        | none =>
          rw [hloop] at hitem
          cases hitem
        | some v =>
          rw [hloop] at hitem
          cases hitem with
          | some hv => exact .some { hv with frames := .cons (.hook parser live) hrest }
      · cases hloop : loopItem _ parser secure item with
        | none => exact .none
        | some v =>
          rw [hloop] at hitem
          cases hitem

/-- The return from a hook is one in the model. -/
lemma rel_itemDone (h : ShowsLoops w a) :
    Option.Rel ShowsLoops (loopStep w .itemDone) (loopSpecStep a .itemDone) := by
  obtain ⟨xmpp, frames, parserLog, presences⟩ := w
  obtain ⟨connected, authenticated, as, err, returned, lost⟩ := a
  have hframes : List.Forall₂ FrameShows frames as := h.frames
  cases hframes with
  | nil => exact .some h
  | cons hframe hrest =>
    cases hframe with
    | connecting => exact .some h
    | receiving _ live => exact .some h
    | hook parser live => exact .some { h with frames := .cons (.receiving parser live) hrest }

section Result

variable {xmpp : XmppWorld} {frames : List Frame} {parserLog : List (Ledger.Event ℕ)}
  {presences parser : ℕ} {connected authenticated : Bool} {as : List Activity} {err : ErrRec}
  {returned : ℤ} {lost : ℕ} {live : Bool}

/-- **The test of the loop** after a result that it goes on with: `iks_recv` begins again with the
parser of a live loop, and a loop that was told to stop returns.

**Proof sketch.** The flag of the client is that of the loop. A live loop has a connection, so there
is a parser to begin with; a loop that was told to stop leaves the flag to those around it, none of
which is live. -/
lemma rel_goesOn (h : ShowsLoops ⟨xmpp, .receiving parser taOk :: frames, parserLog, presences⟩
      ⟨connected, authenticated, .receiving live :: as, err, returned, lost⟩)
    (hframes : List.Forall₂ FrameShows frames as) :
    Option.Rel ShowsLoops
      (doRunTest ⟨xmpp, frames, parserLog ++ [.use parser], presences⟩ taOk)
      (if live && true then
        some ⟨connected, authenticated, .receiving live :: as, err, returned, lost⟩
      else some ⟨connected, authenticated, as, err, taOk, lost⟩) := by
  have hrunning : xmpp.client.running = live := h.running
  unfold doRunTest
  dsimp only
  rw [hrunning]
  cases live with
  | false =>
    exact .some { h with
      running := hrunning.trans h.innermost.1.symm
      connected := fun hlive => absurd (h.innermost.1.symm.trans hlive) Bool.false_ne_true
      frames := hframes
      innermost := h.innermost.2
      returned := rfl
      err := h.err }
  | true =>
    have hconnected : connected = true := h.connected rfl
    have hparser : xmpp.client.parser.isSome = true := h.parser.trans hconnected
    obtain ⟨parser', hparser⟩ := Option.isSome_iff_exists.mp hparser
    rw [if_pos rfl, hparser]
    exact .some { h with frames := .cons (.receiving parser' true) hframes }

/-- A loop that is stopped by its result returns.

**Proof sketch.** The flag of the client is down, and so is that of the loop, which leaves; the
loops around it were not live. -/
lemma shows_stopped (h : ShowsLoops ⟨xmpp, .receiving parser taOk :: frames, parserLog, presences⟩
      ⟨connected, authenticated, .receiving live :: as, err, returned, lost⟩)
    (hframes : List.Forall₂ FrameShows frames as) (ret : ℤ) (error : Option ErrorT) :
    ShowsLoops ⟨{ xmpp.stop with err := error.or xmpp.err, returned := ret }, frames,
      parserLog ++ [.use parser], presences⟩
      ⟨connected, authenticated, as, error.or err, ret, lost⟩ where
  parser := h.parser
  filter := h.filter
  authenticated := h.authenticated
  useSasl := h.useSasl
  useTls := h.useTls
  running := h.innermost.1.symm
  connected := fun hlive => absurd (h.innermost.1.symm.trans hlive) Bool.false_ne_true
  frames := hframes
  innermost := h.innermost.2
  err := congrArg error.or h.err
  returned := rfl
  presences := h.presences

/-- A result that no loop goes on with. -/
lemma loopSpecStep_stops {result : RecvResult} (hresult : result.goesOn = false) :
    loopSpecStep ⟨connected, authenticated, .receiving live :: as, err, returned, lost⟩
      (.recvReturn result) = some ⟨connected, authenticated, as, result.error.or err,
        if result.error.isSome then taError else taOk, lost⟩ := by
  simp [loopSpecStep, LoopSpec.returning, hresult]

end Result

/-- The return from `iks_recv` is one in the model.

**Proof sketch.** One case per result. A loop that goes on is as it was; one that is stopped, by
its flag or by an error, is `shows_stopped`. -/
lemma rel_recvReturn (h : ShowsLoops w a) (result : RecvResult) :
    Option.Rel ShowsLoops (loopStep w (.recvReturn result))
      (loopSpecStep a (.recvReturn result)) := by
  obtain ⟨xmpp, frames, parserLog, presences⟩ := w
  obtain ⟨connected, authenticated, as, err, returned, lost⟩ := a
  have hframes : List.Forall₂ FrameShows frames as := h.frames
  cases hframes with
  | nil => exact .some h
  | cons hframe hrest =>
    cases hframe with
    | connecting => exact .some h
    | hook _ live => exact .some h
    | receiving parser live =>
      cases result with
      | ok => exact rel_goesOn h hrest
      | hook => exact rel_goesOn h hrest
      | noConn =>
        rw [loopSpecStep_stops rfl]
        exact .some (shows_stopped h hrest taOk none)
      | rwErr =>
        rw [loopSpecStep_stops rfl]
        exact .some (shows_stopped h hrest taError (RecvResult.error .rwErr))
      | tlsFail =>
        rw [loopSpecStep_stops rfl]
        exact .some (shows_stopped h hrest taError (RecvResult.error .tlsFail))
      | other =>
        rw [loopSpecStep_stops rfl]
        exact .some (shows_stopped h hrest taError (RecvResult.error .other))

/-! ## Sessions -/

/-- **One step** of a session is one of its specification. -/
lemma rel_loopStep (op : LoopOp) (h : ShowsLoops w a) :
    Option.Rel ShowsLoops (loopStep w op) (loopSpecStep a op) := by
  cases op with
  | connect result => exact rel_connect h result
  | hooksReturn => exact rel_hooksReturn h
  | disconnect => exact rel_disconnect h
  | send result => exact rel_send h result
  | sendPresence result => exact rel_sendPresence h result
  | run => exact rel_run h
  | item secure item => exact rel_item h secure item
  | itemDone => exact rel_itemDone h
  | recvReturn result => exact rel_recvReturn h result

/-- **Main loops follow their specification**: over every session, whatever hooks call and iksemel
does, the code hands `NULL` to iksemel exactly where there is no connection to use, and shows the
session otherwise: each loop ends as if it had a flag of its own, with the return value and the
error of its last result. -/
theorem loop_refines (iksIdNew : Str → IksId) (jid password : Str) (host : Option Str) (port : ℤ)
    (err : ErrRec) (ops : List LoopOp) :
    Option.Rel ShowsLoops
      (Machine.run? loopStep (.init (.init (clientInit iksIdNew jid password host port) err)) ops)
      (Machine.run? loopSpecStep (.init err) ops) :=
  Machine.run?_rel ShowsLoops (fun _ _ op h => rel_loopStep op h)
    (ShowsLoops.init iksIdNew jid password host port err) ops

/-- **Parsers in sessions**: no parser is deleted twice. Once the calls of `iks_recv` have
returned, iksemel touched no parser that was deleted, exactly when no hook disconnected while the
parser of the client was one that a call of `iks_recv` around it works on. When
`ta_xmpp_client_is_running` returns `TA_OK`, the client has a parser that was not deleted and a
filter to send with.

**Proof sketch.** The log follows the session step by step. A client whose flag is set shows a loop
that is live, and that one has a connection. -/
theorem loop_parsers_sound_iff (iksIdNew : Str → IksId) (jid password : Str) (host : Option Str)
    (port : ℤ) (err : ErrRec) {ops : List LoopOp} {w : LoopWorld}
    (hrun : Machine.run? loopStep
      (.init (.init (clientInit iksIdNew jid password host port) err)) ops = some w) :
    (Ledger.Sound (w.parserLog ++ w.working.map .use) ↔ Machine.EachStep
        (SparesParsers (.init (.init (clientInit iksIdNew jid password host port) err))) ops) ∧
      (∀ parser, w.parserLog.count (.free parser) ≤ 1) ∧
      (clientIsRunning w.xmpp.client = taOk →
        (∃ parser, w.xmpp.client.parser = some parser ∧ .free parser ∉ w.parserLog) ∧
          w.xmpp.client.filter.isSome) := by
  have hstart : (LoopWorld.init
      (.init (clientInit iksIdNew jid password host port) err)).ParsersLive := Slot.live_start
  obtain ⟨hlive, hsound⟩ := sound_loopRun hstart Ledger.sound_nil hrun
  have hrel := loop_refines iksIdNew jid password host port err ops
  rw [hrun] at hrel
  obtain ⟨a, -, h⟩ := Machine.rel_some_left hrel
  refine ⟨hsound, hlive.once, fun hrunning => ?_⟩
  have hflag : w.xmpp.client.running = true := by
    by_contra hflag
    rw [clientIsRunning, if_neg hflag] at hrunning
    exact absurd hrunning (by decide)
  have hconnected : a.connected = true := h.connected (h.running.symm.trans hflag)
  obtain ⟨parser, hparser⟩ := Option.isSome_iff_exists.mp (h.parser.trans hconnected)
  exact ⟨⟨parser, hparser, (hlive.held parser hparser).2⟩, h.filter.trans hconnected⟩

/-- A hook that answers the start of the stream with a presence and disconnects: the loop around it
ends, and iksemel touches the parser that was deleted.

**Proof sketch.** The run is computed. It is sound exactly when no operation deletes a parser
that a loop works on, and the disconnect of this run does. -/
theorem loop_parsers_sound_presence :
    ∃ w, Machine.run? loopStep (.init anaWorld) [.connect .ok, .hooksReturn, .run,
        .item false (.start ⟨"stream:stream".toList, none, none, .none⟩), .sendPresence 0,
        .disconnect, .itemDone, .recvReturn .hook] = some w ∧
      ¬ Ledger.Sound (w.parserLog ++ w.working.map .use) ∧ w.parserLog.count (.free 0) ≤ 1 := by
  obtain ⟨w, hrun⟩ : ∃ w, Machine.run? loopStep (.init anaWorld) [.connect .ok, .hooksReturn, .run,
      .item false (.start ⟨"stream:stream".toList, none, none, .none⟩), .sendPresence 0,
      .disconnect, .itemDone, .recvReturn .hook] = some w := ⟨_, rfl⟩
  obtain ⟨hsound, honce, -⟩ := loop_parsers_sound_iff _ _ _ _ _ _ hrun
  refine ⟨w, hrun, fun h => ?_, honce 0⟩
  have hspares := hsound.mp h [.connect .ok, .hooksReturn, .run,
    .item false (.start ⟨"stream:stream".toList, none, none, .none⟩), .sendPresence 0] .disconnect
    ⟨[.itemDone, .recvReturn .hook], rfl⟩ _ rfl
  exact hspares rfl 0 (List.mem_singleton_self 0) rfl

end Taningia
