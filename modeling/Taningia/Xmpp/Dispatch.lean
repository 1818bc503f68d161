import Taningia.Xmpp.Events

set_option relaxedAutoImplicit false
set_option autoImplicit false

/-!
# Hooks that change the registrations

A hook may connect and disconnect hooks of its client while `_ta_xmpp_client_call_event_hooks`
runs it. The loop reads the link of the node behind the call. Nodes in front of it and behind it may
go and new ones may come, but a hook that takes its own registration out and lets the loop go on
leaves it with a node that was freed.

An address is not handed out twice, so that a read of a freed node or block is told from others.

## Main definitions

* `Taningia.Behaviour` — what hooks do when they are called.
* `Taningia.dispatchTurn`, `Taningia.dispatchAfter` — the loop, turn by turn.
* `Taningia.DispatchTolerates` — no read of freed memory, and an end.
* `Taningia.turnAt`, `Taningia.KeepsRunningHook` — the hooks that are called, and what they may not
  do.

## Main results

* `Taningia.dispatchTurn_kept`, `Taningia.dispatchTurn_removed` — one turn.
* `Taningia.dispatch_tolerates_iff` — when the dispatch tolerates the hooks.
-/

namespace Taningia

open Chain

variable {H U : Type}

/-! ## The variables of the loop -/

/-- The calls that a hook makes while it runs, and its result. They may depend on the hooks that
were called before. -/
abbrev Behaviour (H U : Type) := List (H × U) → H × U → List (EventCall H U) × ℤ

/-- The variables of the loop, with the hooks called so far and the calls that they made. -/
structure Dispatching (H U : Type) where
  world : EventWorld H U
  tmp : Option ℕ
  called : List (H × U)
  calls : List (EventCall H U)

/-- How the loop ends: it reads freed memory, or it returns. -/
inductive DispatchEnd (H U : Type) where
  | freed
  | returned (s : Dispatching H U)

/-- `_ta_xmpp_client_call_event_hooks` before its first turn. -/
def dispatchStart (w : EventWorld H U) (event : Str) : Dispatching H U :=
  ⟨w, (w.events event).join, [], []⟩

/-- The loop is at the head of the registrations that are next. -/
def Linked (event : Str) (s : Dispatching H U) (rest : List (H × U)) : Prop :=
  ∃ regs before after, Registered s.world regs ∧ regs event = before ++ after ∧
    s.tmp = entry none (after.map Reg.cell) ∧ after.map Reg.value = rest

/-- The dispatch begins with the registrations of its event. -/
lemma Linked.start {w : EventWorld H U} {regs : Str → List (Reg H U)} (hw : Registered w regs)
    (event : Str) : Linked event (dispatchStart w event) ((regs event).map Reg.value) :=
  ⟨regs, [], regs event, hw, rfl, (hw.owned.rep event).head, rfl⟩

/-- A dispatch that goes on has found an event. -/
lemma Linked.known {event : Str} {s : Dispatching H U} {r : H × U} {rest : List (H × U)}
    (h : Linked event s (r :: rest)) : event ∈ clientEvents := by
  obtain ⟨regs, before, after, hw, hregs, -, hafter⟩ := h
  obtain ⟨x, after, rfl, -, -⟩ := List.map_eq_cons_iff.mp hafter
  have hx : x ∈ regs event := by simp [hregs]
  exact hw.known_of_mem hx

variable [DecidableEq H]

/-! ## The loop -/

/-- One turn of `_ta_xmpp_client_call_event_hooks`: the test, the body, and `tmp = tmp->next`. -/
def dispatchTurn (behave : Behaviour H U) (s : Dispatching H U) :
    Except (DispatchEnd H U) (Dispatching H U) :=
  match s.tmp with
  | none => .error (.returned s)
  | some node =>
    match (s.world.heap.cells node).bind fun c => c.data.bind s.world.hdatas with
    | none => .error .freed
    | some hdata =>
      let (calls, result) := behave s.called (hdata.hook, hdata.data)
      match Machine.run? eventStep s.world calls with
      | none => .error .freed
      | some world =>
        let s : Dispatching H U :=
          ⟨world, some node, s.called ++ [(hdata.hook, hdata.data)], s.calls ++ calls⟩
        if result ≠ 0 then .error (.returned s)
        else
          match world.heap.cells node with
          | none => .error .freed
          | some c => .ok { s with tmp := c.next }

/-- The loop after some turns. -/
def dispatchAfter (behave : Behaviour H U) (s : Dispatching H U) :
    ℕ → Except (DispatchEnd H U) (Dispatching H U)
  | 0 => .ok s
  | n + 1 => (dispatchAfter behave s n).bind (dispatchTurn behave)

/-- The call adds a registration. -/
def EventCall.adds : EventCall H U → Bool
  | .connect event _ _ => clientEvents.contains event
  | .disconnect _ _ => false

/-- A dispatch reads nothing that was freed, and ends when the hooks add finitely many
registrations. -/
structure DispatchTolerates (w : EventWorld H U) (behave : Behaviour H U) (event : Str) : Prop where
  safe : ∀ n, dispatchAfter behave (dispatchStart w event) n ≠ .error .freed
  ends : (∃ N, ∀ n s, dispatchAfter behave (dispatchStart w event) n = .ok s →
      s.calls.countP EventCall.adds ≤ N) →
    ∃ n s, dispatchAfter behave (dispatchStart w event) n = .error (.returned s)

/-! ## The hooks that are called -/

/-- What a call does to registrations of the event. -/
def EventCall.act (event : Str) (regs : List (H × U)) : EventCall H U → List (H × U)
  | .connect e hook data => if e = event then regs ++ [(hook, data)] else regs
  | .disconnect e hook =>
    if e = event then regs.filter fun r => hook.any fun h => decide (r.1 ≠ h) else regs

/-- The call removes the registrations of the hook. -/
def EventCall.Removes (event : Str) (hook : H) : EventCall H U → Prop
  | .connect _ _ _ => False
  | .disconnect e none => e = event
  | .disconnect e (some h) => e = event ∧ h = hook

/-- One turn on the registrations: the hooks called so far, and those that are next. -/
def specTurn (behave : Behaviour H U) (event : Str) :
    List (H × U) × List (H × U) → Option (List (H × U) × List (H × U))
  | (_, []) => none
  | (called, r :: rest) =>
    if (behave called r).2 ≠ 0 then none
    else some (called ++ [r], (behave called r).1.foldl (EventCall.act event) rest)

/-- The hooks called before a turn, and those that are next in it, while the dispatch goes on. -/
def turnAt (behave : Behaviour H U) (event : Str) (regs : List (H × U)) :
    ℕ → Option (List (H × U) × List (H × U))
  | 0 => some ([], regs)
  | n + 1 => (turnAt behave event regs n).bind (specTurn behave event)

/-- The hook that is called in a turn removes its own registration and lets the dispatch go on. -/
def RemovesItself (behave : Behaviour H U) (event : Str) (called : List (H × U)) (r : H × U) :
    Prop :=
  (behave called r).2 = 0 ∧ ∃ call ∈ (behave called r).1, call.Removes event r.1

/-- No hook that is called does that. -/
def KeepsRunningHook (behave : Behaviour H U) (event : Str) (regs : List (H × U)) : Prop :=
  ∀ n called r rest, turnAt behave event regs n = some (called, r :: rest) →
    ¬ RemovesItself behave event called r

/-! ## One call while a hook runs -/

/-- The event of a call. -/
def EventCall.event : EventCall H U → Str
  | .connect event _ _ => event
  | .disconnect event _ => event

/-- **Each call** succeeds, and leaves the registrations of the other events and their nodes.

**Proof sketch.** By cases on the call, each with the lemma about its function; an unknown event
changes nothing. -/
lemma eventStep_registered {w : EventWorld H U} {regs : Str → List (Reg H U)}
    (hw : Registered w regs) (call : EventCall H U) :
    ∃ w' regs', eventStep w call = some w' ∧ Registered w' regs' ∧
      (∀ e, e ≠ call.event → regs' e = regs e) ∧ w.heap.size ≤ w'.heap.size ∧
      ∀ a < w.heap.size, a ∉ (regs call.event).map Reg.node →
        w'.heap.cells a = w.heap.cells a := by
  cases call with
  | connect event hook data =>
    by_cases hevent : event ∈ clientEvents
    · obtain ⟨w', hstep, hw', hm, -⟩ := eventConnect_known hw hevent hook data
      exact ⟨w', _, hstep, hw', fun e he => Function.update_of_ne he _ _, hm.grows, hm.frame⟩
    · obtain ⟨w', hstep, hw', hheap, -⟩ := eventConnect_unknown hw hevent hook data
      exact ⟨w', regs, hstep, hw', fun _ _ => rfl, hheap ▸ le_rfl, fun _ _ _ => by rw [hheap]⟩
  | disconnect event hook =>
    by_cases hevent : event ∈ clientEvents
    · obtain ⟨w', hstep, hw', hm, -⟩ := eventDisconnect_known hw hevent hook
      exact ⟨w', _, hstep, hw', fun e he => Function.update_of_ne he _ _, hm.grows, hm.frame⟩
    · obtain ⟨w', hstep, hw', hheap, -⟩ := eventDisconnect_unknown hw hevent hook
      exact ⟨w', regs, hstep, hw', fun _ _ => rfl, hheap ▸ le_rfl, fun _ _ _ => by rw [hheap]⟩

/-- A freed node stays freed: its address is not handed out again. -/
lemma eventStep_freed {w : EventWorld H U} {regs : Str → List (Reg H U)} (hw : Registered w regs)
    {a : ℕ} (ha : w.heap.cells a = none) (hbound : a < w.heap.size) (call : EventCall H U) :
    ∃ w' regs', eventStep w call = some w' ∧ Registered w' regs' ∧ w'.heap.cells a = none ∧
      a < w'.heap.size := by
  obtain ⟨w', regs', hstep, hw', -, hgrows, hframe⟩ := eventStep_registered hw call
  refine ⟨w', regs', hstep, hw', ?_, by omega⟩
  rw [hframe a hbound (hw.not_mem_of_freed ha _), ha]

/-- A registration is kept by a disconnection that does not remove it. -/
lemma keeps_of_not_removes {event : Str} {hook : Option H} {r : Reg H U}
    (h : ¬ (EventCall.disconnect event hook : EventCall H U).Removes event r.hook) :
    r.keeps hook = true := by
  cases hook with
  | none => exact absurd rfl h
  | some hook => exact decide_eq_true fun heq => h ⟨rfl, heq.symm⟩

/-- **A call that keeps the running hook**: its node stays, and the registrations behind it follow
the call.

**Proof sketch.** A call about another event leaves the list. A connect puts a registration at
its end, and a disconnect drops others in front of the running one or behind it; in each case
the node of the running hook stays. -/
lemma eventStep_kept {w : EventWorld H U} {regs : Str → List (Reg H U)} (hw : Registered w regs)
    {event : Str} {before after : List (Reg H U)} {r : Reg H U}
    (hregs : regs event = before ++ r :: after) {call : EventCall H U}
    (hkeeps : ¬ call.Removes event r.hook) :
    ∃ w' regs' before' after', eventStep w call = some w' ∧ Registered w' regs' ∧
      regs' event = before' ++ r :: after' ∧
      after'.map Reg.value = call.act event (after.map Reg.value) := by
  have hevent : event ∈ clientEvents := hw.known_of_mem (r := r) (by simp [hregs])
  by_cases hother : call.event = event
  · cases call with
    | connect e hook data =>
      obtain rfl : e = event := hother
      obtain ⟨w', hstep, hw', -⟩ := eventConnect_known hw hevent hook data
      refine ⟨w', _, before, after ++ [newReg w hook data], hstep, hw', ?_, ?_⟩
      · rw [Function.update_self, hregs, List.append_assoc, List.cons_append]
      · rw [EventCall.act, if_pos rfl, List.map_append]
        rfl
    | disconnect e hook =>
      obtain rfl : e = event := hother
      obtain ⟨w', hstep, hw', -⟩ := eventDisconnect_known hw hevent hook
      refine ⟨w', _, before.filter (Reg.keeps hook), after.filter (Reg.keeps hook), hstep, hw', ?_,
        ?_⟩
      · rw [Function.update_self, hregs, List.filter_append,
          List.filter_cons_of_pos (keeps_of_not_removes hkeeps)]
      · rw [EventCall.act, if_pos rfl, List.filter_map]
        rfl
  · have hact : ∀ l, call.act event l = l := by
      intro l
      cases call <;> exact if_neg hother
    obtain ⟨w', regs', hstep, hw', hsame, -⟩ := eventStep_registered hw call
    exact ⟨w', regs', before, after, hstep, hw', (hsame event (Ne.symm hother)).trans hregs,
      (hact _).symm⟩

/-- **A call that removes the running hook** frees its node.

**Proof sketch.** The call is a disconnect of the event, which frees the nodes that it drops. -/
lemma eventStep_removed {w : EventWorld H U} {regs : Str → List (Reg H U)} (hw : Registered w regs)
    {event : Str} {r : Reg H U} (hr : r ∈ regs event) {call : EventCall H U}
    (hremoves : call.Removes event r.hook) :
    ∃ w' regs', eventStep w call = some w' ∧ Registered w' regs' ∧
      w'.heap.cells r.node = none ∧ r.node < w'.heap.size := by
  cases call with
  | connect e hook data => exact hremoves.elim
  | disconnect e hook =>
    have hgone : e = event ∧ r.keeps hook = false := by
      cases hook with
      | none => exact ⟨hremoves, rfl⟩
      | some hook => exact ⟨hremoves.1, decide_eq_false fun hne => hne hremoves.2.symm⟩
    obtain ⟨rfl, hgone⟩ := hgone
    obtain ⟨w', hstep, hw', hm, hfrees, -⟩ :=
      eventDisconnect_known hw (hw.known_of_mem hr) hook
    exact ⟨w', _, hstep, hw', hfrees r hr hgone, (hw.node_lt hr).trans_le hm.grows⟩

/-! ## The calls of one hook -/

/-- Calls that keep the running hook.

**Proof sketch.** Induction on the calls; each is `eventStep_kept`. -/
lemma run_kept {calls : List (EventCall H U)} {w : EventWorld H U} {regs : Str → List (Reg H U)}
    (hw : Registered w regs) {event : Str} {before after : List (Reg H U)} {r : Reg H U}
    (hregs : regs event = before ++ r :: after)
    (hkeeps : ∀ call ∈ calls, ¬ call.Removes event r.hook) :
    ∃ w' regs' before' after', Machine.run? eventStep w calls = some w' ∧ Registered w' regs' ∧
      regs' event = before' ++ r :: after' ∧
      after'.map Reg.value = calls.foldl (EventCall.act event) (after.map Reg.value) := by
  induction calls generalizing w regs before after with
  | nil => exact ⟨w, regs, before, after, rfl, hw, hregs, rfl⟩
  | cons call calls ih =>
    obtain ⟨w₁, regs₁, before₁, after₁, hstep, hw₁, hregs₁, hafter₁⟩ :=
      eventStep_kept hw hregs (hkeeps call List.mem_cons_self)
    obtain ⟨w', regs', before', after', hrun, hw', hregs', hafter'⟩ :=
      ih hw₁ hregs₁ fun c hc => hkeeps c (List.mem_cons_of_mem call hc)
    refine ⟨w', regs', before', after', ?_, hw', hregs', ?_⟩
    · rw [Machine.run?_cons, hstep, Option.bind_some, hrun]
    · rw [List.foldl_cons, hafter', hafter₁]

/-- Calls behind the removal. -/
lemma run_freed (calls : List (EventCall H U)) {w : EventWorld H U}
    {regs : Str → List (Reg H U)} (hw : Registered w regs) {a : ℕ}
    (ha : w.heap.cells a = none) (hbound : a < w.heap.size) :
    ∃ w', Machine.run? eventStep w calls = some w' ∧ w'.heap.cells a = none := by
  induction calls generalizing w regs with
  | nil => exact ⟨w, rfl, ha⟩
  | cons call calls ih =>
    obtain ⟨w₁, regs₁, hstep, hw₁, ha₁, hbound₁⟩ := eventStep_freed hw ha hbound call
    obtain ⟨w', hrun, ha'⟩ := ih hw₁ ha₁ hbound₁
    exact ⟨w', by rw [Machine.run?_cons, hstep, Option.bind_some, hrun], ha'⟩

/-- Calls that remove the running hook.

**Proof sketch.** Induction on the calls: the first that removes the hook frees the node
(`eventStep_removed`), and no later call writes to a node that is not registered. -/
lemma run_removed {calls : List (EventCall H U)} {w : EventWorld H U}
    {regs : Str → List (Reg H U)} (hw : Registered w regs) {event : Str}
    {before after : List (Reg H U)} {r : Reg H U} (hregs : regs event = before ++ r :: after)
    (hremoves : ∃ call ∈ calls, call.Removes event r.hook) :
    ∃ w', Machine.run? eventStep w calls = some w' ∧ w'.heap.cells r.node = none := by
  induction calls generalizing w regs before after with
  | nil =>
    obtain ⟨call, hcall, -⟩ := hremoves
    cases hcall
  | cons call calls ih =>
    by_cases hfirst : call.Removes event r.hook
    · obtain ⟨w₁, regs₁, hstep, hw₁, ha, hbound⟩ :=
        eventStep_removed hw (r := r) (by simp [hregs]) hfirst
      obtain ⟨w', hrun, ha'⟩ := run_freed calls hw₁ ha hbound
      exact ⟨w', by rw [Machine.run?_cons, hstep, Option.bind_some, hrun], ha'⟩
    · obtain ⟨w₁, regs₁, before₁, after₁, hstep, hw₁, hregs₁, -⟩ := eventStep_kept hw hregs hfirst
      have hrest : ∃ c ∈ calls, c.Removes event r.hook := by
        obtain ⟨c, hc, hremove⟩ := hremoves
        rcases List.mem_cons.mp hc with rfl | hc
        · exact absurd hremove hfirst
        · exact ⟨c, hc, hremove⟩
      obtain ⟨w', hrun, ha'⟩ := ih hw₁ hregs₁ hrest
      exact ⟨w', by rw [Machine.run?_cons, hstep, Option.bind_some, hrun], ha'⟩

/-! ## One turn -/

/-- The end of the list. -/
lemma dispatchTurn_nil {behave : Behaviour H U} {event : Str} {s : Dispatching H U}
    (h : Linked event s []) : dispatchTurn behave s = .error (.returned s) := by
  obtain ⟨regs, before, after, -, -, htmp, hafter⟩ := h
  obtain rfl := List.map_eq_nil_iff.mp hafter
  unfold dispatchTurn
  rw [htmp]
  rfl

/-- **A turn** of the loop, from what the calls of its hook come to.

**Proof sketch.** The cell of the node is read before the hook is called, and its link behind
it. -/
lemma dispatchTurn_cons {behave : Behaviour H U} {event : Str} {s : Dispatching H U}
    {regs : Str → List (Reg H U)} {before after : List (Reg H U)} {r : Reg H U}
    (hw : Registered s.world regs) (hregs : regs event = before ++ r :: after)
    (htmp : s.tmp = some r.node) {w : EventWorld H U}
    (hrun : Machine.run? eventStep s.world (behave s.called r.value).1 = some w) :
    dispatchTurn behave s =
      if (behave s.called r.value).2 ≠ 0 then
        .error (.returned ⟨w, some r.node, s.called ++ [r.value],
          s.calls ++ (behave s.called r.value).1⟩)
      else
        match w.heap.cells r.node with
        | none => .error .freed
        | some c => .ok ⟨w, c.next, s.called ++ [r.value],
          s.calls ++ (behave s.called r.value).1⟩ := by
  have hr : r ∈ regs event := by simp [hregs]
  have hrep := hw.owned.rep event
  rw [hregs, List.map_append, List.map_cons] at hrep
  have hcell := hrep.seg.cell_at
  have hhdata : (s.world.heap.cells r.node).bind (fun c => c.data.bind s.world.hdatas) =
      some ⟨r.hook, r.data⟩ := by
    rw [show s.world.heap.cells r.node = _ from hcell, Option.bind_some]
    exact hw.live event r hr
  have hrun' : Machine.run? eventStep s.world (behave s.called (r.hook, r.data)).1 = some w := hrun
  unfold dispatchTurn
  rw [htmp]
  simp only [hhdata, hrun']
  rfl

/-- **A turn whose hook keeps itself** goes on with the next registration when the result is
`0`.

**Proof sketch.** The calls keep the node (`run_kept`), so the link behind the hook is the
registration that follows now. -/
lemma dispatchTurn_kept {behave : Behaviour H U} {event : Str} {s : Dispatching H U} {r : H × U}
    {rest : List (H × U)} (h : Linked event s (r :: rest)) (hresult : (behave s.called r).2 = 0)
    (hkeeps : ∀ call ∈ (behave s.called r).1, ¬ call.Removes event r.1) :
    ∃ s', dispatchTurn behave s = .ok s' ∧ s'.called = s.called ++ [r] ∧
      s'.calls = s.calls ++ (behave s.called r).1 ∧
      Linked event s' ((behave s.called r).1.foldl (EventCall.act event) rest) := by
  obtain ⟨regs, before, after, hw, hregs, htmp, hafter⟩ := h
  obtain ⟨x, after, rfl, rfl, rfl⟩ := List.map_eq_cons_iff.mp hafter
  obtain ⟨w', regs', before', after', hrun, hw', hregs', hafter'⟩ := run_kept hw hregs hkeeps
  have hrep := hw'.owned.rep event
  rw [hregs', List.map_append, List.map_cons] at hrep
  have hcell : w'.heap.cells x.node = _ := hrep.seg.cell_at
  refine ⟨⟨w', entry none (after'.map Reg.cell), s.called ++ [x.value],
    s.calls ++ (behave s.called x.value).1⟩, ?_, rfl, rfl, regs', before' ++ [x], after', hw', ?_,
    rfl, hafter'⟩
  · rw [dispatchTurn_cons hw hregs htmp hrun, if_neg (not_not.mpr hresult), hcell]
  · rw [hregs', List.append_assoc, List.singleton_append]

/-- **A turn whose hook removes itself** reads the node that was freed, when the result is `0`. -/
lemma dispatchTurn_removed {behave : Behaviour H U} {event : Str} {s : Dispatching H U}
    {r : H × U} {rest : List (H × U)} (h : Linked event s (r :: rest))
    (hitself : RemovesItself behave event s.called r) :
    dispatchTurn behave s = .error .freed := by
  obtain ⟨regs, before, after, hw, hregs, htmp, hafter⟩ := h
  obtain ⟨x, after, rfl, rfl, rfl⟩ := List.map_eq_cons_iff.mp hafter
  obtain ⟨w', hrun, hfreed⟩ := run_removed hw hregs hitself.2
  rw [dispatchTurn_cons hw hregs htmp hrun, if_neg (not_not.mpr hitself.1), hfreed]

/-- A turn whose hook stops the dispatch. -/
lemma dispatchTurn_stopped {behave : Behaviour H U} {event : Str} {s : Dispatching H U}
    {r : H × U} {rest : List (H × U)} (h : Linked event s (r :: rest))
    (hresult : (behave s.called r).2 ≠ 0) :
    ∃ s', dispatchTurn behave s = .error (.returned s') := by
  obtain ⟨regs, before, after, hw, hregs, htmp, hafter⟩ := h
  obtain ⟨x, after, rfl, rfl, rfl⟩ := List.map_eq_cons_iff.mp hafter
  obtain ⟨w', hrun⟩ :
      ∃ w', Machine.run? eventStep s.world (behave s.called x.value).1 = some w' := by
    by_cases hremoves : ∃ call ∈ (behave s.called x.value).1, call.Removes event x.hook
    · obtain ⟨w', hrun, -⟩ := run_removed hw hregs hremoves
      exact ⟨w', hrun⟩
    · obtain ⟨w', _, _, _, hrun, -⟩ :=
        run_kept hw hregs fun call hcall hr => hremoves ⟨call, hcall, hr⟩
      exact ⟨w', hrun⟩
  exact ⟨_, by rw [dispatchTurn_cons hw hregs htmp hrun, if_pos hresult]⟩

/-! ## The whole dispatch -/

/-- Each call adds at most one registration.

**Proof sketch.** Induction on the calls; a connect adds one registration, and a disconnect
none. -/
lemma length_foldl_act {event : Str} (hevent : event ∈ clientEvents)
    (calls : List (EventCall H U)) (regs : List (H × U)) :
    (calls.foldl (EventCall.act event) regs).length ≤
      regs.length + calls.countP EventCall.adds := by
  induction calls generalizing regs with
  | nil => exact le_rfl
  | cons call calls ih =>
    rw [List.foldl_cons, List.countP_cons]
    refine (ih _).trans ?_
    have hone : (call.act event regs).length ≤
        regs.length + if call.adds = true then 1 else 0 := by
      cases call with
      | connect e hook data =>
        rw [EventCall.act]
        split_ifs with he hadds
        · exact List.length_append.le
        · exact absurd (List.contains_iff_mem.mpr (he ▸ hevent)) hadds
        · exact Nat.le_succ _
        · exact le_rfl
      | disconnect e hook =>
        refine le_trans ?_ (Nat.le_add_right _ _)
        show (if e = event then regs.filter _ else regs).length ≤ regs.length
        split_ifs
        · exact List.length_filter_le _ _
        · exact le_rfl
    omega

/-- **The loop follows the registrations** as long as no hook removes itself: it is at the turn that
they are at, or it has returned. Each turn takes a registration off.

**Proof sketch.** Induction on the turns with the lemmas for one of them. -/
lemma dispatchAfter_spec (behave : Behaviour H U) {event : Str} {regs : List (H × U)}
    {s : Dispatching H U} (hs : Linked event s regs) (hcalled : s.called = []) (n : ℕ)
    (hgood : ∀ m < n, ∀ called r rest, turnAt behave event regs m = some (called, r :: rest) →
      ¬ RemovesItself behave event called r) :
    (∃ rest s', turnAt behave event regs n = some (s'.called, rest) ∧
        dispatchAfter behave s n = .ok s' ∧ Linked event s' rest ∧
        rest.length + n ≤ regs.length + s'.calls.countP EventCall.adds) ∨
      turnAt behave event regs n = none ∧
        ∃ s', dispatchAfter behave s n = .error (.returned s') := by
  induction n with
  | zero =>
    refine .inl ⟨regs, s, ?_, rfl, hs, by simp⟩
    rw [hcalled]
    rfl
  | succ n ih =>
    rcases ih fun m hm => hgood m (by omega) with ⟨rest, s', hturn, hafter, hlinked, hlen⟩ |
      ⟨hturn, s', hafter⟩
    · rw [turnAt, dispatchAfter, hturn, hafter, Option.bind_some]
      cases rest with
      | nil =>
        right
        exact ⟨rfl, s', dispatchTurn_nil hlinked⟩
      | cons r rest =>
        by_cases hresult : (behave s'.called r).2 = 0
        · left
          have hkeeps := hgood n (by omega) s'.called r rest hturn
          obtain ⟨s'', hnext, hcalled', hcalls', hlinked'⟩ := dispatchTurn_kept hlinked hresult
            fun call hcall hr => hkeeps ⟨hresult, call, hcall, hr⟩
          refine ⟨_, s'', ?_, hnext, hlinked', ?_⟩
          · rw [specTurn, if_neg (not_not.mpr hresult), hcalled']
          · have := length_foldl_act hlinked.known (behave s'.called r).1 rest
            rw [hcalls', List.countP_append]
            rw [List.length_cons] at hlen
            omega
        · right
          obtain ⟨s'', hnext⟩ := dispatchTurn_stopped hlinked hresult
          exact ⟨if_pos hresult, s'', hnext⟩
    · right
      rw [turnAt, dispatchAfter, hturn, hafter]
      exact ⟨rfl, s', rfl⟩

/-- A dispatch tolerates its hooks exactly when none that it calls removes itself and goes on.

**Proof sketch.** Turn by turn: a hook that keeps itself leads to a state that is linked again
(`dispatchTurn_kept`), and one that removes itself and goes on leads to a freed node
(`run_removed`). -/
lemma dispatchTolerates_iff {w : EventWorld H U} {regs : Str → List (Reg H U)}
    (hw : Registered w regs) (behave : Behaviour H U) (event : Str) :
    DispatchTolerates w behave event ↔
      KeepsRunningHook behave event ((regs event).map Reg.value) := by
  have hlinked := Linked.start hw event
  constructor
  · intro h n
    induction n using Nat.strong_induction_on with
    | _ n ih =>
      intro called r rest hturn hitself
      rcases dispatchAfter_spec behave hlinked rfl n ih with
        ⟨rest', s, hturn', hafter, hs, -⟩ | ⟨hnone, -⟩
      · obtain ⟨rfl, rfl⟩ := Prod.mk.inj (Option.some.inj (hturn.symm.trans hturn'))
        refine h.safe (n + 1) ?_
        rw [dispatchAfter, hafter]
        exact dispatchTurn_removed hs hitself
      · rw [hnone] at hturn
        cases hturn
  · intro h
    have hspec := fun n => dispatchAfter_spec behave hlinked rfl n fun m _ => h m
    refine ⟨fun n hfreed => ?_, ?_⟩
    · rcases hspec n with ⟨_, s, -, hafter, -⟩ | ⟨-, s, hafter⟩
      · rw [hafter] at hfreed
        cases hfreed
      · rw [hafter] at hfreed
        cases hfreed
    · rintro ⟨N, hN⟩
      rcases hspec ((regs event).length + N + 1) with ⟨rest, s, -, hafter, -, hlen⟩ | ⟨-, s, hafter⟩
      · have := hN _ s hafter
        rw [List.length_map] at hlen
        omega
      · exact ⟨_, s, hafter⟩

/-- **Dispatch tolerates hooks that change registrations** exactly when each hook that it calls and
that removes its own registration returns a value other than `0`. -/
theorem dispatch_tolerates_iff (err : ErrRec) (setup : List (EventCall H U)) (event : Str)
    (behave : Behaviour H U) :
    ∃ w, Machine.run? eventStep (eventsInit H U err) setup = some w ∧
      (DispatchTolerates w behave event ↔ KeepsRunningHook behave event
        ((Machine.run eventSpecStep (EventSpec.start H U err) setup).regs event)) := by
  obtain ⟨w, hrun, ⟨regs, hw, hregs⟩, -⟩ := showsRegs_run err setup
  refine ⟨w, hrun, ?_⟩
  rw [← hregs event]
  exact dispatchTolerates_iff hw behave event

/-- A hook that disconnects itself and returns `0`. -/
theorem dispatch_one_shot :
    ∃ w, Machine.run? eventStep (eventsInit ℕ ℕ none) [.connect "connected".toList 1 2] = some w ∧
      ¬ DispatchTolerates w (fun _ r => ([.disconnect "connected".toList (some r.1)], 0))
        "connected".toList :=
  ⟨_, rfl, fun h => h.safe 1 rfl⟩

end Taningia
