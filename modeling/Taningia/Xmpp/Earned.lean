import Taningia.Xmpp.Parsers
import Taningia.Xmpp.Session

set_option relaxedAutoImplicit false
set_option autoImplicit false

/-!
# The `authenticated` event

The stream hook calls the hooks of `authenticated` for every `iq` result with the id of the session
request, whoever sent it and whatever came before. It keeps no note of a request that it sent, and
the flag of an earlier success stays. So the event is earned exactly when such nodes arrive at their
time.

## Main definitions

* `Taningia.Earned`, `Taningia.EarnedStep` — what the event needs, from what was done so far.
* `Taningia.ClientOp.IsAuthResult`, `Taningia.SessionAsked`, `Taningia.AnsweredSinceConnect` — the
  nodes that arrived.

## Main results

* `Taningia.earned_iff` — what was done, from the nodes that arrived.
* `Taningia.authenticated_earned_iff` — when the event is earned in every step of a run.
-/

namespace Taningia

/-! ## What the event needs -/

/-- The call of the hooks. -/
def callAuthenticated : Action := .callEventHooks "authenticated".toList

/-- What a run did on the current connection. -/
def sinceConnect (log : List (ClientOp × List Action)) : List (ClientOp × List Action) :=
  log.rtakeWhile fun e => ¬ e.1.IsConnect

/-- On the current connection a success arrived, a session request was sent, and the hooks were not
called. -/
structure Earned (log : List (ClientOp × List Action)) : Prop where
  success : ∃ e ∈ sinceConnect log, e.1.IsSuccess
  session : ∃ e ∈ sinceConnect log, makeSession ∈ e.2
  first : ¬ ∃ e ∈ sinceConnect log, callAuthenticated ∈ e.2

/-- If the step for `op` behind the operations `pre` calls the hooks, the event is earned. -/
def EarnedStep (start : XmppWorld) (pre : List ClientOp) (op : ClientOp) : Prop :=
  ∀ w log w' actions, clientRun start pre = some (w, log) →
    clientExec w op = some (w', actions) → callAuthenticated ∈ actions → Earned log

/-! ## The nodes that arrive -/

/-- The operation is an incoming `iq` result with the id of the session request. -/
def ClientOp.IsAuthResult : ClientOp → Prop
  | .stream _ (.normal node) =>
    node.name = "iq".toList ∧ node.type = some "result".toList ∧ node.id = some "auth".toList
  | _ => False

instance : (op : ClientOp) → Decidable op.IsAuthResult
  | .stream _ (.normal _) => inferInstanceAs (Decidable (_ ∧ _))
  | .stream _ (.start _) => .isFalse id
  | .stream _ (.error _) => .isFalse id
  | .stream _ .stop => .isFalse id
  | .connect _ => .isFalse id
  | .disconnect => .isFalse id

/-- The operation is an incoming features node that offers sessions. -/
def ClientOp.OffersSession (op : ClientOp) : Prop := ∃ features ∈ op.features?, features.session

instance (op : ClientOp) : Decidable op.OffersSession :=
  inferInstanceAs (Decidable (∃ features ∈ op.features?, features.session = true))

/-- Such a result has arrived since the latest call of `ta_xmpp_client_connect`. -/
def AnsweredSinceConnect (ops : List ClientOp) : Prop :=
  ∃ op ∈ ops.rtakeWhile fun op => ¬ op.IsConnect, op.IsAuthResult

instance (ops : List ClientOp) : Decidable (AnsweredSinceConnect ops) :=
  inferInstanceAs (Decidable (∃ op ∈ _, _))

/-- Since the latest call of `ta_xmpp_client_connect` features have arrived that offer sessions, and
before them a success, on this or an earlier connection. -/
def SessionAsked (ops : List ClientOp) : Prop :=
  ∃ i < ops.length, (∃ op ∈ ops[i]?, op.OffersSession) ∧ SuccessArrived (ops.take i) ∧
    ∀ op ∈ ops.drop i, ¬ op.IsConnect

instance (ops : List ClientOp) : Decidable (SessionAsked ops) :=
  inferInstanceAs (Decidable (∃ i < ops.length, _))

/-- The node arrives at its time. -/
def TimelyResult (pre : List ClientOp) : Prop :=
  SuccessSinceConnect pre ∧ SessionAsked pre ∧ ¬ AnsweredSinceConnect pre

instance (pre : List ClientOp) : Decidable (TimelyResult pre) :=
  inferInstanceAs (Decidable (_ ∧ _))

/-! ## What was done and what arrived -/

section LastSegment

variable {α : Type*} {p : α → Bool} {P : α → Prop} {l : List α} {x : α}

/-- One more element in the last segment of a list. -/
lemma exists_mem_rtakeWhile_concat :
    (∃ a ∈ (l ++ [x]).rtakeWhile p, P a) ↔ p x ∧ ((∃ a ∈ l.rtakeWhile p, P a) ∨ P x) := by
  by_cases hx : p x
  · simp [List.rtakeWhile_concat_pos p l x hx, hx, or_and_right, exists_or]
  · simp [List.rtakeWhile_concat_neg p l x hx, hx]

end LastSegment

/-- A session is asked for on the connection when the last operation does so, or one before, and
the last is no connect.

**Proof sketch.** The operation that asks is the last one or has a place among those before.
What is in front of it is the same in both lists, and what is behind it differs by the last. -/
lemma sessionAsked_concat {ops : List ClientOp} {op : ClientOp} :
    SessionAsked (ops ++ [op]) ↔
      ¬ op.IsConnect ∧ (SessionAsked ops ∨ op.OffersSession ∧ SuccessArrived ops) := by
  constructor
  · rintro ⟨i, hi, ⟨op', hop', hoffers⟩, hsuccess, hnone⟩
    rw [List.length_append, List.length_singleton] at hi
    refine ⟨hnone op ?_, ?_⟩
    · rw [List.drop_append_of_le_length (by omega)]
      exact List.mem_append_right _ (List.mem_singleton_self op)
    · rw [List.take_append_of_le_length (by omega)] at hsuccess
      by_cases hlast : i = ops.length
      · right
        subst hlast
        rw [List.getElem?_concat_length] at hop'
        rw [List.take_length] at hsuccess
        obtain rfl := Option.some.inj hop'
        exact ⟨hoffers, hsuccess⟩
      · left
        rw [List.getElem?_append_left (by omega)] at hop'
        refine ⟨i, by omega, ⟨op', hop', hoffers⟩, hsuccess, fun o ho => hnone o ?_⟩
        rw [List.drop_append_of_le_length (by omega)]
        exact List.mem_append_left _ ho
  · rintro ⟨hop, ⟨i, hi, ⟨op', hop', hoffers⟩, hsuccess, hnone⟩ | ⟨hoffers, hsuccess⟩⟩
    · refine ⟨i, by rw [List.length_append]; omega, ⟨op', ?_, hoffers⟩, ?_, ?_⟩
      · rwa [List.getElem?_append_left hi]
      · rwa [List.take_append_of_le_length (by omega)]
      · rw [List.drop_append_of_le_length (by omega)]
        intro o ho
        rcases List.mem_append.mp ho with ho | ho
        · exact hnone o ho
        · rwa [List.mem_singleton.mp ho]
    · refine ⟨ops.length, by simp, ⟨op, List.getElem?_concat_length, hoffers⟩, ?_, ?_⟩
      · rwa [List.take_left]
      · rw [List.drop_left]
        intro o ho
        rwa [List.mem_singleton.mp ho]

/-- **The hooks are called** for such results, and for nothing else.

**Proof sketch.** By cases on the operation and on the item and the node of a stream: only a
result with the id of the session request calls the hooks. -/
lemma callAuthenticated_mem_iff {w w' : XmppWorld} {op : ClientOp} {actions : List Action}
    (h : clientExec w op = some (w', actions)) :
    callAuthenticated ∈ actions ↔ op.IsAuthResult := by
  cases op with
  | connect result =>
    obtain rfl : (clientConnect w result).2 = actions := congrArg Prod.snd (Option.some.inj h)
    unfold clientConnect Client.dial
    cases result <;> cases w.client.host <;>
      simp [NetResult.message, callAuthenticated, ClientOp.IsAuthResult]
  | disconnect =>
    obtain rfl : (clientDisconnect w).2 = actions := congrArg Prod.snd (Option.some.inj h)
    simp [clientDisconnect, Client.close, callAuthenticated, ClientOp.IsAuthResult]
  | stream secure item =>
    obtain ⟨_, _, he⟩ := Option.map_eq_some_iff.mp h
    obtain rfl : (clientHook w.client secure item).2 = actions := congrArg Prod.snd he
    cases item with
    | start node =>
      simp only [clientHook, onStart, ClientOp.IsAuthResult]
      split_ifs <;> simp [callAuthenticated]
    | error node => simp [clientHook, ClientOp.IsAuthResult]
    | stop => simp [clientHook, ClientOp.IsAuthResult]
    | normal node =>
      simp only [clientHook, onNormal, onFeatures, onSuccess, ClientOp.IsAuthResult]
      split_ifs <;> simp_all [callAuthenticated, makeBind, makeSession]

/-- **A session request is sent** for features that offer sessions, when the flag is set.

**Proof sketch.** A request answers features (`features_of_request`), and the answer in the
default configuration is `onFeatures_default`. -/
lemma makeSession_mem_iff {w w' : XmppWorld} {op : ClientOp} {actions : List Action}
    (hw : w.client.Default) (h : clientExec w op = some (w', actions)) :
    makeSession ∈ actions ↔ op.OffersSession ∧ w.client.authenticated = true := by
  constructor
  · intro hmem
    obtain ⟨features, hop⟩ := features_of_request h hmem trivial
    obtain ⟨secure, node, rfl, rfl⟩ := actions_features hop h
    rw [onFeatures_default hw] at hmem
    cases hflag : w.client.authenticated with
    | false =>
      rw [hflag, if_neg Bool.false_ne_true] at hmem
      split_ifs at hmem <;> simp [makeSession] at hmem
    | true =>
      refine ⟨⟨node.features, hop, ?_⟩, rfl⟩
      rw [hflag, if_pos rfl] at hmem
      by_contra hsession
      rw [if_neg hsession, List.append_nil] at hmem
      split_ifs at hmem <;> simp [makeSession, makeBind] at hmem
  · rintro ⟨⟨features, hop, hsession⟩, hflag⟩
    obtain ⟨secure, node, rfl, rfl⟩ := actions_features hop h
    rw [onFeatures_default hw, if_pos hflag, if_pos hsession]
    exact List.mem_append_right _ (List.mem_singleton_self _)

/-- **What a recorded run did** on the current connection is known from the nodes that arrived.

**Proof sketch.** The three facts are shown by induction on the operations from the end: a
connect starts the log of the connection anew, and another operation adds what it did. -/
lemma earned_iff {w : XmppWorld} {ops : List ClientOp} {log : List (ClientOp × List Action)}
    {client : Client} {err : ErrRec} (hclient : client.Default)
    (hflag : client.authenticated = false) (h : clientRun (.init client err) ops = some (w, log)) :
    Earned log ↔ TimelyResult ops := by
  have hfacts : ((∃ e ∈ sinceConnect log, e.1.IsSuccess) ↔ SuccessSinceConnect ops) ∧
      ((∃ e ∈ sinceConnect log, makeSession ∈ e.2) ↔ SessionAsked ops) ∧
      ((∃ e ∈ sinceConnect log, callAuthenticated ∈ e.2) ↔ AnsweredSinceConnect ops) := by
    induction ops using List.reverseRecOn generalizing w log with
    | nil =>
      obtain ⟨-, rfl⟩ := Prod.mk.inj (Option.some.inj h)
      simp [sinceConnect, SuccessSinceConnect, SuccessArrived, SessionAsked, AnsweredSinceConnect]
    | append_singleton ops op ih =>
      obtain ⟨t, front, actions, hfront, hexec, rfl⟩ := Machine.run?_recordStep_concat.mp h
      obtain ⟨hsuccess, hsession, hcall⟩ := ih hfront
      have hrun : Machine.run? clientStep (.init client err) ops = some t :=
        Machine.run?_of_recordStep hfront
      obtain ⟨hdefault, hflag'⟩ := authenticated_run hclient hflag hrun
      unfold sinceConnect SuccessSinceConnect AnsweredSinceConnect at *
      refine ⟨?_, ?_, ?_⟩
      · unfold SuccessArrived at hsuccess ⊢
        rw [exists_mem_rtakeWhile_concat, exists_mem_rtakeWhile_concat, hsuccess]
      · rw [exists_mem_rtakeWhile_concat, sessionAsked_concat, hsession,
          makeSession_mem_iff hdefault hexec, hflag', decide_eq_true_iff, decide_eq_true_iff]
      · rw [exists_mem_rtakeWhile_concat, exists_mem_rtakeWhile_concat, hcall,
          callAuthenticated_mem_iff hexec]
  constructor
  · exact fun he => ⟨hfacts.1.mp he.success, hfacts.2.1.mp he.session,
      fun ha => he.first (hfacts.2.2.mpr ha)⟩
  · exact fun ht => ⟨hfacts.1.mpr ht.1, hfacts.2.1.mpr ht.2.1,
      fun he => ht.2.2 (hfacts.2.2.mp he)⟩

/-! ## When the event is earned -/

/-- **The authenticated event is earned** in every step of a run exactly when each result with the
id of the session request arrives on a connection with a success, behind features that offered
sessions when the flag was set, and as the first of its kind there.

**Proof sketch.** A step is earned when it calls no hooks, or what was recorded is enough
(`earned_iff`); it calls them for a result with that id (`callAuthenticated_mem_iff`). -/
theorem authenticated_earned_iff (iksIdNew : Str → IksId) (jid password : Str)
    (host : Option Str) (port : ℤ) (err : ErrRec) {ops : List ClientOp} {w : XmppWorld}
    (hrun : Machine.run? clientStep
      (.init (clientInit iksIdNew jid password host port) err) ops = some w) :
    Machine.EachStep (EarnedStep (.init (clientInit iksIdNew jid password host port) err)) ops ↔
      Machine.EachStep (fun pre op => op.IsAuthResult → TimelyResult pre) ops := by
  refine Machine.eachStep_congr hrun fun pre op t t' ht hstep => ?_
  obtain ⟨⟨_, actions⟩, hexec, rfl⟩ := Option.map_eq_some_iff.mp hstep
  obtain ⟨log, hlog⟩ := Machine.run?_recordStep_of_run? ht
  have hearned := earned_iff (clientInit_default iksIdNew jid password host port) rfl hlog
  constructor
  · intro h hresult
    exact hearned.mp (h t log _ actions hlog hexec ((callAuthenticated_mem_iff hexec).mpr hresult))
  · intro h t₁ log₁ w' actions₁ hlog₁ hexec₁ hcall
    obtain ⟨rfl, rfl⟩ := Prod.mk.inj (Option.some.inj (hlog.symm.trans hlog₁))
    exact hearned.mpr (h ((callAuthenticated_mem_iff hexec₁).mp hcall))

/-- An incoming `iq` result with the id of the session request. -/
def authResult : ClientOp :=
  .stream false (.normal ⟨"iq".toList, some "result".toList, some "auth".toList, .none⟩)

/-- A connection with a success, a session request and its answer. -/
theorem authenticated_earned_session :
    Machine.EachStep (EarnedStep anaWorld) [.connect .ok,
      incoming "stream:features" ⟨true, false, false, true, true⟩, incoming "success" .none,
      incoming "stream:features" ⟨false, true, true, false, false⟩, authResult, .disconnect] :=
  (authenticated_earned_iff _ _ _ _ _ _ rfl).mpr (by decide)

/-- A result that arrives before anything else. -/
theorem authenticated_injected_result :
    ¬ Machine.EachStep (EarnedStep anaWorld) [.connect .ok, authResult] := by
  intro h
  have hearned := h [.connect .ok] authResult (List.prefix_refl _) _ _ _ _ rfl rfl (by decide)
  exact absurd hearned.success (by decide)

end Taningia
