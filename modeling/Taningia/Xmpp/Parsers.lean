import Taningia.Lib.Slot
import Taningia.Xmpp.Client

set_option relaxedAutoImplicit false
set_option autoImplicit false

/-!
# Parsers and filters of a client

`ta_xmpp_client_connect` makes a parser and a filter before it tries to connect and puts them into
the fields of the client, whatever is there. `ta_xmpp_client_disconnect` and the release of the
client delete what is in the fields. So each field is a slot that is filled and emptied, and a call
that fails leaves it full.

## Main definitions

* `Taningia.clientRun` — a run with the actions of each operation.
* `Taningia.slotOp`, `Taningia.parserEvent`, `Taningia.filterEvent` — the client as two slots.
* `Taningia.Balances`, `Taningia.RestoresFields` — what is asked of a run and of a step.

## Main results

* `Taningia.events_clientRun` — the fields follow the slots.
* `Taningia.parsers_balance_iff` — when all parsers and filters are deleted.
-/

namespace Taningia

/-- A run, with each operation and its actions. -/
def clientRun (start : XmppWorld) (ops : List ClientOp) :
    Option (XmppWorld × List (ClientOp × List Action)) :=
  Machine.run? (Machine.recordStep clientExec) (start, []) ops

/-! ## The fields as slots -/

/-- What an operation does to the fields. -/
def slotOp : ClientOp → Option Slot.Op
  | .connect _ => some .fill
  | .disconnect => some .empty
  | .stream _ _ => none

/-- What an action does to a parser. -/
def parserEvent : Action → Option Slot.Event
  | .streamNew parser => some (.made parser)
  | .parserDelete parser => some (.deleted parser)
  | _ => none

/-- What an action does to a filter. -/
def filterEvent : Action → Option Slot.Event
  | .filterNew filter => some (.made filter)
  | .filterDelete filter => some (.deleted filter)
  | _ => none

def parserSlot (w : XmppWorld) : Slot := ⟨w.client.parser, w.parsers⟩

def filterSlot (w : XmppWorld) : Slot := ⟨w.client.filter, w.filters⟩

/-- An item of the stream makes and deletes nothing. -/
lemma event_clientHook (client : Client) (secure : Bool) (item : StreamItem) :
    ∀ a ∈ (clientHook client secure item).2, parserEvent a = none ∧ filterEvent a = none := by
  cases item with
  | start node =>
    simp only [clientHook, onStart]
    split_ifs <;> simp [parserEvent, filterEvent]
  | error node => simp [clientHook]
  | stop => simp [clientHook]
  | normal node =>
    simp only [clientHook, onNormal, onFeatures, onSuccess, makeBind, makeSession]
    split_ifs <;> simp [parserEvent, filterEvent]

/-- Closing deletes what is in the two fields. -/
lemma filterMap_deletions (client : Client) :
    client.close.2.filterMap parserEvent = client.parser.toList.map .deleted ∧
      client.close.2.filterMap filterEvent = client.filter.toList.map .deleted := by
  obtain ⟨_, _, _, _, _, _, parser, filter, _, _, _, _⟩ := client
  cases parser <;> cases filter <;> exact ⟨rfl, rfl⟩

/-- The actions of a call of `ta_xmpp_client_connect`. -/
lemma filterMap_clientConnect (w : XmppWorld) (result : NetResult) :
    (clientConnect w result).2.filterMap parserEvent = [.made w.parsers] ∧
      (clientConnect w result).2.filterMap filterEvent = [.made w.filters] := by
  unfold clientConnect Client.dial
  cases result <;> cases w.client.host <;> exact ⟨rfl, rfl⟩

/-- **One operation** is one of each slot, or none.

**Proof sketch.** By cases on the operation. `connect` fills both slots whether or not it fails,
`disconnect` empties both, and an item of the stream touches neither. -/
lemma events_clientExec {w w' : XmppWorld} {op : ClientOp} {actions : List Action}
    (h : clientExec w op = some (w', actions)) (rest : List Slot.Op) :
    (parserSlot w).events ((slotOp op).toList ++ rest) =
        actions.filterMap parserEvent ++ (parserSlot w').events rest ∧
      (filterSlot w).events ((slotOp op).toList ++ rest) =
        actions.filterMap filterEvent ++ (filterSlot w').events rest := by
  cases op with
  | connect result =>
    obtain ⟨rfl, rfl⟩ : (clientConnect w result).1 = w' ∧ (clientConnect w result).2 = actions :=
      Prod.mk.inj (Option.some.inj h)
    obtain ⟨hparser, hfilter⟩ := filterMap_clientConnect w result
    rw [hparser, hfilter]
    have hslots : parserSlot (clientConnect w result).1 = ⟨some w.parsers, w.parsers + 1⟩ ∧
        filterSlot (clientConnect w result).1 = ⟨some w.filters, w.filters + 1⟩ := by
      unfold clientConnect
      cases result <;> exact ⟨rfl, rfl⟩
    rw [hslots.1, hslots.2]
    exact ⟨rfl, rfl⟩
  | disconnect =>
    obtain ⟨rfl, rfl⟩ : (clientDisconnect w).1 = w' ∧ (clientDisconnect w).2 = actions :=
      Prod.mk.inj (Option.some.inj h)
    obtain ⟨hparser, hfilter⟩ := filterMap_deletions { w.client with running := false }
    refine ⟨?_, ?_⟩
    · show _ = (Client.close { w.client with running := false }).2.filterMap parserEvent ++ _
      rw [hparser]
      rfl
    · show _ = (Client.close { w.client with running := false }).2.filterMap filterEvent ++ _
      rw [hfilter]
      rfl
  | stream secure item =>
    obtain ⟨_, _, he⟩ := Option.map_eq_some_iff.mp h
    obtain ⟨rfl, rfl⟩ := Prod.mk.inj he
    obtain ⟨features, authenticated, hclient⟩ := client_clientHook w.client secure item
    have hnone := event_clientHook w.client secure item
    rw [List.filterMap_eq_nil_iff.mpr fun a ha => (hnone a ha).1,
      List.filterMap_eq_nil_iff.mpr fun a ha => (hnone a ha).2]
    unfold parserSlot filterSlot
    simp only [hclient]
    exact ⟨rfl, rfl⟩

/-- **The fields follow the slots** over a run.

**Proof sketch.** Induction on the operations from the end: the last one is `events_clientExec`,
the ones before are the hypothesis with the events of the last one as the rest. -/
lemma events_clientRun {start w : XmppWorld} {ops : List ClientOp}
    {log : List (ClientOp × List Action)} (h : clientRun start ops = some (w, log))
    (rest : List Slot.Op) :
    (parserSlot start).events (ops.filterMap slotOp ++ rest) =
        (log.flatMap Prod.snd).filterMap parserEvent ++ (parserSlot w).events rest ∧
      (filterSlot start).events (ops.filterMap slotOp ++ rest) =
        (log.flatMap Prod.snd).filterMap filterEvent ++ (filterSlot w).events rest := by
  induction ops using List.reverseRecOn generalizing w log rest with
  | nil =>
    obtain ⟨rfl, rfl⟩ := Prod.mk.inj (Option.some.inj h)
    exact ⟨rfl, rfl⟩
  | append_singleton ops op ih =>
    obtain ⟨t, front, actions, hfront, hexec, rfl⟩ := Machine.run?_recordStep_concat.mp h
    have hops : (ops ++ [op]).filterMap slotOp ++ rest =
        ops.filterMap slotOp ++ ((slotOp op).toList ++ rest) := by
      rw [List.filterMap_append, List.append_assoc, List.filterMap_cons, List.filterMap_nil]
      cases slotOp op <;> rfl
    have hlog : (front ++ [(op, actions)]).flatMap Prod.snd =
        front.flatMap Prod.snd ++ actions := by
      rw [List.flatMap_append, List.flatMap_singleton]
    obtain ⟨hparser, hfilter⟩ := ih hfront ((slotOp op).toList ++ rest)
    obtain ⟨hparser', hfilter'⟩ := events_clientExec hexec rest
    rw [hops, hlog, List.filterMap_append, List.filterMap_append, hparser, hfilter, hparser',
      hfilter', List.append_assoc, List.append_assoc]
    exact ⟨rfl, rfl⟩

/-! ## What is asked of a run -/

/-- Behind the run the client is released: each parser and each filter that was made is deleted
once. -/
def Balances (start : XmppWorld) (ops : List ClientOp) : Prop :=
  ∀ w log, clientRun start ops = some (w, log) →
    (∀ p, .streamNew p ∈ log.flatMap Prod.snd →
      (log.flatMap Prod.snd ++ (clientFree w).2).count (.parserDelete p) = 1) ∧
    ∀ f, .filterNew f ∈ log.flatMap Prod.snd →
      (log.flatMap Prod.snd ++ (clientFree w).2).count (.filterDelete f) = 1

/-- The operation is a call of `ta_xmpp_client_connect` that fails. -/
def ClientOp.Fails : ClientOp → Prop
  | .connect result => result ≠ .ok
  | _ => False

instance : (op : ClientOp) → Decidable op.Fails
  | .connect result => inferInstanceAs (Decidable (result ≠ .ok))
  | .disconnect => .isFalse id
  | .stream _ _ => .isFalse id

/-- The step for `op` behind the operations `pre`, if it is a call that fails, leaves the fields as
they were. -/
def RestoresFields (start : XmppWorld) (pre : List ClientOp) (op : ClientOp) : Prop :=
  op.Fails → ∀ w w' actions, Machine.run? clientStep start pre = some w →
    clientExec w op = some (w', actions) →
      w'.client.parser = w.client.parser ∧ w'.client.filter = w.client.filter

/-- Between two calls of `ta_xmpp_client_connect` there is one of `ta_xmpp_client_disconnect`. -/
def Alternates (ops : List ClientOp) : Prop :=
  (ops.filterMap slotOp).IsChain fun a b => a = .fill → b ≠ .fill

instance (ops : List ClientOp) : Decidable (Alternates ops) :=
  inferInstanceAs (Decidable (List.IsChain _ _))

/-! ## When parsers and filters balance -/

/-! An event that comes from one action only is counted as that action. -/

section OneAction

variable {event : Action → Option Slot.Event} {e : Slot.Event} {action : Action}

/-- An event of one action is among the events when the action is among the actions. -/
lemma mem_filterMap_event (h : ∀ a, event a = some e ↔ a = action) (actions : List Action) :
    e ∈ actions.filterMap event ↔ action ∈ actions := by
  rw [List.mem_filterMap]
  simp [h]

/-- It comes up as often.

**Proof sketch.** Induction on the actions, by cases on the event of the first. -/
lemma count_filterMap_event (h : ∀ a, event a = some e ↔ a = action) (actions : List Action) :
    (actions.filterMap event).count e = actions.count action := by
  induction actions with
  | nil => rfl
  | cons a actions ih =>
    rw [List.filterMap_cons, List.count_cons, ← ih]
    cases hevent : event a with
    | none =>
      have hne : ¬ a = action := by
        rw [← h, hevent]
        exact (Option.some_ne_none e).symm
      simp [hne]
    | some e' =>
      have hsame : e' = e ↔ a = action := by rw [← h, hevent, Option.some.injEq]
      simp [List.count_cons, hsame]

end OneAction

/-- A parser is made by one action only. -/
lemma parserEvent_made (p : ℕ) (a : Action) :
    parserEvent a = some (.made p) ↔ a = .streamNew p := by
  cases a <;> simp [parserEvent]

/-- A parser is deleted by one action only. -/
lemma parserEvent_deleted (p : ℕ) (a : Action) :
    parserEvent a = some (.deleted p) ↔ a = .parserDelete p := by
  cases a <;> simp [parserEvent]

/-- A filter is made by one action only. -/
lemma filterEvent_made (f : ℕ) (a : Action) :
    filterEvent a = some (.made f) ↔ a = .filterNew f := by
  cases a <;> simp [filterEvent]

/-- A filter is deleted by one action only. -/
lemma filterEvent_deleted (f : ℕ) (a : Action) :
    filterEvent a = some (.deleted f) ↔ a = .filterDelete f := by
  cases a <;> simp [filterEvent]

/-- The events of a run and of the release behind it are those of the slots, emptied at the end. -/
lemma events_released {start w : XmppWorld} {ops : List ClientOp}
    {log : List (ClientOp × List Action)} (h : clientRun start ops = some (w, log)) :
    (log.flatMap Prod.snd ++ (clientFree w).2).filterMap parserEvent =
        (parserSlot start).events (ops.filterMap slotOp ++ [.empty]) ∧
      (log.flatMap Prod.snd ++ (clientFree w).2).filterMap filterEvent =
        (filterSlot start).events (ops.filterMap slotOp ++ [.empty]) := by
  obtain ⟨hparser, hfilter⟩ := events_clientRun h [.empty]
  obtain ⟨hparser', hfilter'⟩ := filterMap_deletions w.client
  have hfree : (clientFree w).2 = w.client.close.2 := rfl
  rw [List.filterMap_append, List.filterMap_append, hparser, hfilter, hfree, hparser', hfilter']
  exact ⟨congrArg _ (List.append_nil _).symm, congrArg _ (List.append_nil _).symm⟩

/-- A run balances exactly when both slots lose nothing.

**Proof sketch.** The log of the run and the events of the slots agree (`events_clientRun`).
What was made or held at the start is counted there once for each time it is deleted, and the
slots start empty. -/
lemma balances_iff {start w : XmppWorld} {ops : List ClientOp}
    {log : List (ClientOp × List Action)} (h : clientRun start ops = some (w, log))
    (hparser : start.client.parser = none) (hfilter : start.client.filter = none) :
    Balances start ops ↔ (parserSlot start).AllDeleted (ops.filterMap slotOp) ∧
      (filterSlot start).AllDeleted (ops.filterMap slotOp) := by
  obtain ⟨hmade, hmade'⟩ := events_clientRun h []
  rw [List.append_nil, Slot.events, List.append_nil] at hmade
  rw [List.append_nil, Slot.events, List.append_nil] at hmade'
  obtain ⟨hdeleted, hdeleted'⟩ := events_released h
  have hp : ∀ p, (parserSlot start).held = some p ∨
      .made p ∈ (parserSlot start).events (ops.filterMap slotOp) ↔
        .streamNew p ∈ log.flatMap Prod.snd := by
    intro p
    rw [hmade, mem_filterMap_event (parserEvent_made p)]
    exact or_iff_right (by rw [parserSlot, hparser]; exact (Option.some_ne_none p).symm)
  have hf : ∀ f, (filterSlot start).held = some f ∨
      .made f ∈ (filterSlot start).events (ops.filterMap slotOp) ↔
        .filterNew f ∈ log.flatMap Prod.snd := by
    intro f
    rw [hmade', mem_filterMap_event (filterEvent_made f)]
    exact or_iff_right (by rw [filterSlot, hfilter]; exact (Option.some_ne_none f).symm)
  have hbalances : Balances start ops ↔
      (∀ p, .streamNew p ∈ log.flatMap Prod.snd →
        (log.flatMap Prod.snd ++ (clientFree w).2).count (.parserDelete p) = 1) ∧
      ∀ f, .filterNew f ∈ log.flatMap Prod.snd →
        (log.flatMap Prod.snd ++ (clientFree w).2).count (.filterDelete f) = 1 := by
    constructor
    · exact fun hb => hb w log h
    · intro hb w' log' h'
      obtain ⟨rfl, rfl⟩ := Prod.mk.inj (Option.some.inj (h.symm.trans h'))
      exact hb
  rw [hbalances]
  unfold Slot.AllDeleted
  simp only [hp, hf, ← hdeleted, ← hdeleted', count_filterMap_event (parserEvent_deleted _),
    count_filterMap_event (filterEvent_deleted _)]

/-- The parser in the field was made before.

**Proof sketch.** An invariant of the run: `connect` makes the next parser, and no other
operation writes a new one to the field. -/
lemma parser_lt {start w : XmppWorld} {ops : List ClientOp}
    (hstart : (parserSlot start).Bounded) (h : Machine.run? clientStep start ops = some w) :
    (parserSlot w).Bounded := by
  refine Machine.run?_invariant (fun w => (parserSlot w).Bounded) ?_ hstart h
  intro w op w' hw hstep
  obtain ⟨⟨w'', actions⟩, hexec, rfl⟩ := Option.map_eq_some_iff.mp hstep
  cases op with
  | connect result =>
    obtain rfl : (clientConnect w result).1 = w'' := congrArg Prod.fst (Option.some.inj hexec)
    intro p hp
    unfold clientConnect at hp ⊢
    cases result <;> exact (Option.some.inj hp) ▸ Nat.lt_succ_self _
  | disconnect =>
    obtain rfl : (clientDisconnect w).1 = w'' := congrArg Prod.fst (Option.some.inj hexec)
    intro p hp
    cases hp
  | stream secure item =>
    obtain ⟨_, _, he⟩ := Option.map_eq_some_iff.mp hexec
    obtain ⟨features, authenticated, hclient⟩ := client_clientHook w.client secure item
    obtain rfl := congrArg Prod.fst he
    intro p hp
    refine hw p ?_
    show w.client.parser = some p
    have hp' : (clientHook w.client secure item).1.parser = some p := hp
    rwa [hclient] at hp'

/-- A call that fails never leaves the fields as they were.

**Proof sketch.** An operation that fails is a `connect` with an error; the field then holds a
parser with a number that none had before, so it is not the one from before. -/
lemma restoresFields_iff {start w w' : XmppWorld} {pre : List ClientOp} {op : ClientOp}
    {actions : List Action} (hstart : (parserSlot start).Bounded)
    (hrun : Machine.run? clientStep start pre = some w)
    (hexec : clientExec w op = some (w', actions)) : RestoresFields start pre op ↔ ¬ op.Fails := by
  refine ⟨fun h hfails => ?_, fun h hfails => absurd hfails h⟩
  have hsame := (h hfails w w' actions hrun hexec).1
  cases op with
  | disconnect => exact hfails
  | stream secure item => exact hfails
  | connect result =>
    obtain rfl : (clientConnect w result).1 = w' := congrArg Prod.fst (Option.some.inj hexec)
    rw [client_clientConnect] at hsame
    exact absurd (parser_lt hstart hrun _ hsame.symm) (lt_irrefl _)

/-- **Parsers and filters balance** exactly when no call to connect fails, and the client
disconnects before it connects again.

**Proof sketch.** The run balances when both slots lose nothing (`balances_iff`), and the slots are
filled and emptied by the same operations, so this is that they alternate. The other half is
`restoresFields_iff`, operation by operation. -/
theorem parsers_balance_iff (iksIdNew : Str → IksId) (jid password : Str) (host : Option Str)
    (port : ℤ) (err : ErrRec) {ops : List ClientOp} {w : XmppWorld}
    (hrun : Machine.run? clientStep
      (.init (clientInit iksIdNew jid password host port) err) ops = some w) :
    Balances (.init (clientInit iksIdNew jid password host port) err) ops ∧
        Machine.EachStep
          (RestoresFields (.init (clientInit iksIdNew jid password host port) err)) ops ↔
      (∀ op ∈ ops, ¬ op.Fails) ∧ Alternates ops := by
  obtain ⟨log, hlog⟩ := Machine.run?_recordStep_of_run? hrun
  have hbalances : Balances (.init (clientInit iksIdNew jid password host port) err) ops ↔
      Slot.start.AllDeleted (ops.filterMap slotOp) ∧ Slot.start.AllDeleted (ops.filterMap slotOp) :=
    balances_iff hlog rfl rfl
  have hrestores : Machine.EachStep
      (RestoresFields (.init (clientInit iksIdNew jid password host port) err)) ops ↔
        ∀ op ∈ ops, ¬ op.Fails := by
    rw [← Machine.eachStep_iff_forall]
    refine Machine.eachStep_congr hrun fun pre op t t' ht hstep => ?_
    obtain ⟨⟨_, actions⟩, hexec, rfl⟩ := Option.map_eq_some_iff.mp hstep
    exact restoresFields_iff Slot.bounded_start ht hexec
  rw [hbalances, hrestores, and_self, Slot.allDeleted_start_iff]
  exact and_comm

/-- A connection, and another one behind it. -/
theorem parsers_balance_reconnect :
    Balances anaWorld [.connect .ok, .disconnect, .connect .ok] ∧
      Machine.EachStep (RestoresFields anaWorld) [.connect .ok, .disconnect, .connect .ok] :=
  (parsers_balance_iff _ _ _ _ _ _ rfl).mpr (by decide)

/-- A call that fails, and another try. -/
theorem parsers_balance_retry :
    ¬ (Balances anaWorld [.connect .noConn, .connect .ok, .disconnect] ∧
      Machine.EachStep (RestoresFields anaWorld)
        [.connect .noConn, .connect .ok, .disconnect]) := by
  rintro ⟨h, -⟩
  exact absurd ((h _ _ rfl).1 0 (by decide)) (by decide)

end Taningia
