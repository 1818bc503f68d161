import Mathlib.Data.List.DropRight
import Taningia.Xmpp.Client

set_option relaxedAutoImplicit false
set_option autoImplicit false

/-!
# Authentication over several connections

The flag `authenticated` is set by a `success` node and never taken back, neither by
`ta_xmpp_client_disconnect` nor by `ta_xmpp_client_connect`. So it remembers a success on any
connection, and the hook of the features answers with the wrong requests on a connection that has
not authenticated yet.

## Main definitions

* `Taningia.SuccessArrived`, `Taningia.SuccessSinceConnect` — the history of a run.
* `Taningia.Authentic` — what a step may do, given that history.
* `Taningia.StaleFeatures` — a features node on a connection that only looks authenticated.

## Main results

* `Taningia.authenticated_run` — the flag is a success on any connection.
* `Taningia.authentic_iff` — a step goes wrong exactly on stale features.
* `Taningia.authentication_per_connection_iff` — the same over whole runs.
-/

namespace Taningia

/-! ## The history of a run -/

/-- A `success` node has arrived, on any connection. -/
def SuccessArrived (ops : List ClientOp) : Prop := ∃ op ∈ ops, op.IsSuccess

instance (ops : List ClientOp) : Decidable (SuccessArrived ops) :=
  inferInstanceAs (Decidable (∃ op ∈ ops, _))

/-- A `success` node has arrived since the latest call of `ta_xmpp_client_connect`. -/
def SuccessSinceConnect (ops : List ClientOp) : Prop :=
  SuccessArrived (ops.rtakeWhile fun op => ¬ op.IsConnect)

instance (ops : List ClientOp) : Decidable (SuccessSinceConnect ops) :=
  inferInstanceAs (Decidable (SuccessArrived _))

/-- A success among the operations with one more. -/
lemma successArrived_concat {ops : List ClientOp} {op : ClientOp} :
    SuccessArrived (ops ++ [op]) ↔ SuccessArrived ops ∨ op.IsSuccess := by
  simp [SuccessArrived, or_and_right, exists_or]

/-- What a step that answers `op` with `actions` may do after the operations `pre`. -/
structure Authentic (pre : List ClientOp) (op : ClientOp) (actions : List Action) : Prop where
  /-- Without a success on this connection, features are not answered with a request. -/
  quiet : ∀ features ∈ op.features?, ¬ SuccessSinceConnect pre → ∀ a ∈ actions, ¬ a.IsRequest
  /-- Without a success on this connection, features that offer a mechanism start SASL. -/
  starts : ∀ features ∈ op.features?, ¬ SuccessSinceConnect pre →
    (features.saslMd5 ∨ features.saslPlain) → ∃ a ∈ actions, a.IsSasl
  /-- Requests are sent only behind a success on this connection. -/
  earned : (∃ a ∈ actions, a.IsRequest) → SuccessSinceConnect pre

/-- Features that the client acts on. -/
def StreamFeatures.Used (features : StreamFeatures) : Prop :=
  features.bind ∨ features.session ∨ features.saslMd5 ∨ features.saslPlain

instance (features : StreamFeatures) : Decidable features.Used :=
  inferInstanceAs (Decidable (_ ∨ _))

/-- A features node that the client acts on arrives on a connection without a success, after a
success on an earlier one. -/
def StaleFeatures (pre : List ClientOp) (op : ClientOp) : Prop :=
  (∃ features ∈ op.features?, features.Used) ∧ ¬ SuccessSinceConnect pre ∧ SuccessArrived pre

instance (pre : List ClientOp) (op : ClientOp) : Decidable (StaleFeatures pre op) :=
  inferInstanceAs (Decidable (_ ∧ _))

/-! ## What the flag remembers -/

/-- **The flag of a run** is a success on any connection, and the configuration stays.

**Proof sketch.** Induction on the operations from the end: the last one keeps the configuration
(`clientExec_default`) and sets the flag if it is a success (`authenticated_clientExec`). -/
lemma authenticated_run {w : XmppWorld} {ops : List ClientOp} {client : Client} {err : ErrRec}
    (hclient : client.Default) (hflag : client.authenticated = false)
    (hrun : Machine.run? clientStep (.init client err) ops = some w) :
    w.client.Default ∧ w.client.authenticated = decide (SuccessArrived ops) := by
  induction ops using List.reverseRecOn generalizing w with
  | nil =>
    obtain rfl := Option.some.inj hrun
    exact ⟨hclient, by simp [XmppWorld.init, hflag, SuccessArrived]⟩
  | append_singleton ops op ih =>
    rw [Machine.run?_concat] at hrun
    obtain ⟨w₁, hpre, hstep⟩ := Option.bind_eq_some_iff.mp hrun
    obtain ⟨⟨w₂, actions⟩, hexec, rfl⟩ := Option.map_eq_some_iff.mp hstep
    obtain ⟨hdefault, hflag'⟩ := ih hpre
    refine ⟨clientExec_default hdefault hexec, ?_⟩
    rw [authenticated_clientExec hexec, hflag', decide_eq_decide.mpr successArrived_concat,
      Bool.decide_or]

/-! ## Where authentication goes wrong -/

/-- The answer to features sends a request exactly to a client that takes itself for
authenticated, and only for an offered bind or session. -/
lemma request_onFeatures_iff {client : Client} (hc : client.Default) (secure : Bool)
    (node : StreamNode) :
    (∃ a ∈ (onFeatures client secure node).2, a.IsRequest) ↔
      client.authenticated = true ∧ (node.features.bind ∨ node.features.session) := by
  rw [onFeatures_default hc]
  cases client.authenticated with
  | true =>
    cases node.features.bind <;> cases node.features.session <;>
      simp [makeBind, makeSession, Action.IsRequest]
  | false =>
    cases node.features.saslMd5 <;> cases node.features.saslPlain <;> simp [Action.IsRequest]

/-- The answer to features starts SASL exactly when a mechanism is offered to a client that does
not take itself for authenticated. -/
lemma sasl_onFeatures_iff {client : Client} (hc : client.Default) (secure : Bool)
    (node : StreamNode) :
    (∃ a ∈ (onFeatures client secure node).2, a.IsSasl) ↔
      client.authenticated = false ∧ (node.features.saslMd5 ∨ node.features.saslPlain) := by
  rw [onFeatures_default hc]
  cases client.authenticated with
  | true =>
    cases node.features.bind <;> cases node.features.session <;>
      simp [makeBind, makeSession, Action.IsSasl]
  | false =>
    cases node.features.saslMd5 <;> cases node.features.saslPlain <;> simp [Action.IsSasl]

/-- **One step** is authentic exactly when it is not a step on stale features.

**Proof sketch.** Only features are answered with a request, and their answer is decided by the
flag, which is a success on any connection. Without a success at all, features start SASL and
send nothing else; with one on this connection, the property asks nothing. -/
lemma authentic_iff {w w' : XmppWorld} {pre : List ClientOp} {op : ClientOp}
    {actions : List Action} (hdefault : w.client.Default)
    (hflag : w.client.authenticated = decide (SuccessArrived pre))
    (hexec : clientExec w op = some (w', actions)) :
    Authentic pre op actions ↔ ¬ StaleFeatures pre op := by
  constructor
  · rintro hauth ⟨⟨features, hop, hused⟩, hfresh, harrived⟩
    have harrived : w.client.authenticated = true := hflag.trans (decide_eq_true harrived)
    obtain ⟨secure, node, rfl, rfl⟩ := actions_features hop hexec
    rcases or_assoc.mpr hused with hused | hused
    · obtain ⟨a, ha, hrequest⟩ :=
        (request_onFeatures_iff hdefault secure node).mpr ⟨harrived, hused⟩
      exact hauth.quiet _ hop hfresh a ha hrequest
    · have hsasl := (sasl_onFeatures_iff hdefault secure node).mp
        (hauth.starts _ hop hfresh hused)
      simp [harrived] at hsasl
  · intro hstale
    have hnew : ∀ features ∈ op.features?, features.Used → ¬ SuccessSinceConnect pre →
        w.client.authenticated = false := by
      intro features hop hused hfresh
      rw [hflag, decide_eq_false]
      exact fun harrived => hstale ⟨⟨features, hop, hused⟩, hfresh, harrived⟩
    have hearned : (∃ a ∈ actions, a.IsRequest) → SuccessSinceConnect pre := by
      rintro ⟨a, ha, hrequest⟩
      obtain ⟨features, hop⟩ := features_of_request hexec ha hrequest
      obtain ⟨secure, node, rfl, rfl⟩ := actions_features hop hexec
      obtain ⟨hflag', hused⟩ := (request_onFeatures_iff hdefault secure node).mp ⟨a, ha, hrequest⟩
      by_contra hfresh
      have := hnew _ hop (or_assoc.mp (Or.inl hused)) hfresh
      simp [this] at hflag'
    refine ⟨fun features _ hfresh a ha hrequest => hfresh (hearned ⟨a, ha, hrequest⟩), ?_, hearned⟩
    intro features hop hfresh hoffers
    obtain ⟨secure, node, rfl, rfl⟩ := actions_features hop hexec
    exact (sasl_onFeatures_iff hdefault secure node).mpr
      ⟨hnew _ hop (or_assoc.mp (Or.inr hoffers)) hfresh, hoffers⟩

/-- The step for `op` behind the operations `pre` of a run from `start` is authentic. -/
def AuthenticStep (start : XmppWorld) (pre : List ClientOp) (op : ClientOp) : Prop :=
  ∀ w w' actions, Machine.run? clientStep start pre = some w →
    clientExec w op = some (w', actions) → Authentic pre op actions

/-- **Authentication per connection**: every step of a run is authentic exactly when no features
that the client acts on arrive on a connection without a success after a success on an earlier
one.

**Proof sketch.** Step by step. The flag in front of the step is a success on any connection
(`authenticated_run`), and requests are sent for features only when it is set; so a step is not
authentic when the success came before the last connect. -/
theorem authentication_per_connection_iff (iksIdNew : Str → IksId) (jid password : Str)
    (host : Option Str) (port : ℤ) (err : ErrRec) {ops : List ClientOp} {w : XmppWorld}
    (hrun : Machine.run? clientStep
      (.init (clientInit iksIdNew jid password host port) err) ops = some w) :
    Machine.EachStep (AuthenticStep (.init (clientInit iksIdNew jid password host port) err)) ops ↔
      Machine.EachStep (fun pre op => ¬ StaleFeatures pre op) ops := by
  refine forall_congr' fun pre => forall_congr' fun op => imp_congr_right fun hpre => ?_
  obtain ⟨w₂, hrun₂⟩ := Machine.run?_of_isPrefix hrun hpre
  rw [Machine.run?_concat] at hrun₂
  obtain ⟨w₁, hrun₁, hstep⟩ := Option.bind_eq_some_iff.mp hrun₂
  obtain ⟨⟨w', actions⟩, hexec, -⟩ := Option.map_eq_some_iff.mp hstep
  obtain ⟨hdefault, hflag⟩ :=
    authenticated_run (clientInit_default iksIdNew jid password host port) rfl hrun₁
  have hiff := authentic_iff hdefault hflag hexec
  constructor
  · intro h
    exact hiff.mp (h w₁ w' actions hrun₁ hexec)
  · intro h v v' actions' hv hexec'
    obtain rfl : w₁ = v := Option.some.inj (hrun₁.symm.trans hv)
    obtain ⟨rfl, rfl⟩ := Prod.mk.inj (Option.some.inj (hexec.symm.trans hexec'))
    exact hiff.mpr h

/-- An incoming node without attributes. -/
def incoming (name : String) (features : StreamFeatures) : ClientOp :=
  .stream false (.normal ⟨name.toList, none, none, features⟩)

/-- A first connection that authenticates before it binds. -/
theorem authentication_first_connection :
    Machine.EachStep (AuthenticStep anaWorld) [.connect .ok,
      incoming "stream:features" ⟨true, false, false, true, true⟩, incoming "success" .none,
      incoming "stream:features" ⟨false, true, true, false, false⟩, .disconnect] :=
  (authentication_per_connection_iff _ _ _ _ _ _ rfl).mpr (by decide)

/-- A second connection that binds before it authenticates. -/
theorem authentication_second_connection :
    ¬ Machine.EachStep (AuthenticStep anaWorld) [.connect .ok, incoming "success" .none,
      .disconnect, .connect .ok, incoming "stream:features" ⟨true, false, true, true, true⟩] := by
  intro h
  have hstep := h [.connect .ok, incoming "success" .none, .disconnect, .connect .ok]
    (incoming "stream:features" ⟨true, false, true, true, true⟩) (List.prefix_refl _) _ _ _ rfl rfl
  exact absurd (hstep.earned (by decide)) (by decide)

end Taningia
