import Taningia.Xmpp.WatchHistory

set_option relaxedAutoImplicit false
set_option autoImplicit false

/-!
# Settling the watchers

A watcher is settled by its answer, or at once when its stanza cannot be sent. The other two
endings leave it behind: `ta_xmpp_client_disconnect` and the end of the client delete the filter
with the rule, and a new `ta_xmpp_client_connect` forgets the filter; then nothing can release the
block and the data of the user any more.

## Main definitions

* `Taningia.Answering` — the state of the client while a callback runs.

## Main results

* `Taningia.callGuard_iff` — a call leaves no block behind exactly under its guard.
* `Taningia.watchGuard_iff` — the same for an operation, with the calls of a callback.
* `Taningia.watchersSettled_iff` — the watchers at the end of a client.
* `Taningia.watchRun_settled_iff` — the same over whole runs.
-/

namespace Taningia

variable {U : Type} {busy : Option ℕ} {w w' : WatchWorld U}

/-! ## Calls of the user -/

/-- Lost blocks are a matter of the filter, the rules, the blocks and their events. -/
lemma Intact.congr (h : Intact busy w) (hfilter : w'.filter = w.filter)
    (hrules : w'.rules = w.rules)
    (hwdatas : w'.wdatas = w.wdatas) (hlog : w'.log = w.log) : Intact busy w' := by
  rintro k ⟨⟨wdata, hw, howned⟩, hidle, hunwatched, hquiet⟩
  refine h k ⟨⟨wdata, hwdatas ▸ hw, howned⟩, hidle, ?_, ?_⟩
  · rintro ⟨f, hf, hr⟩
    exact hunwatched ⟨f, hfilter.trans hf, hrules ▸ hr⟩
  · rw [← hquiet, WatchWorld.history, WatchWorld.history, hlog]

/-- Sending without a filter is a fault. -/
lemma sendAndFilter_none (hf : w.filter = none) (id : Str) (data : Option U) (freeCb : Bool)
    (result : ℤ) : sendAndFilter w (some id) data freeCb result = none := by
  show w.filter.bind _ = none
  rw [hf, Option.bind_none]

/-- A call keeps everything, and leaves the old blocks alone.

**Proof sketch.** One case per call: a connect, a disconnect, a send without an id, which does
nothing, and one with an id, which is `sendAndFilter_eq` and keeps all whether the block is sent
or freed. -/
lemma Kept.watchCall (h : Kept busy w) {call : WatchCall U}
    (hcall : Taningia.watchCall w call = some w') : Kept busy w' ∧ LeavesAlone w w' := by
  cases call with
  | connect result =>
    obtain rfl : w.connected result = w' := Option.some.inj hcall
    exact ⟨h.connected result, h.leavesAlone_connected result⟩
  | disconnect =>
    obtain rfl : w.disconnected = w' := Option.some.inj hcall
    exact ⟨h.disconnected, leavesAlone_disconnected w⟩
  | send id data freeCb result =>
    cases id with
    | none =>
      obtain rfl : w.returning 1 = w' := Option.some.inj hcall
      exact ⟨h.of_xmpp rfl rfl rfl, ⟨fun _ _ h => h, fun _ _ => rfl, fun _ _ h => h⟩⟩
    | some id =>
      cases hf : w.filter with
      | none =>
        exact absurd (hcall.symm.trans (sendAndFilter_none hf id data freeCb result)) (by simp)
      | some f =>
        have heq := hcall.symm.trans (sendAndFilter_eq h hf id data freeCb result)
        obtain rfl := Option.some.inj heq
        split_ifs
        · have hu := h.unsent ⟨id, f, data, freeCb⟩
          exact ⟨hu.of_xmpp rfl rfl rfl, { leavesAlone_unsent w _ with }⟩
        · have hu : Kept busy (w.sent ⟨id, f, data, freeCb⟩) := h.sent hf
          exact ⟨hu.of_xmpp rfl rfl rfl, { leavesAlone_sent w _ with }⟩

/-- **A call leaves no block behind exactly under its guard.**

**Proof sketch.** After a connect or a disconnect no old block waits, so what is lost is what
waited before (`intact_of_quiet_iff`). A send loses nothing; it fails only without a filter to
add to. -/
lemma callGuard_iff (hk : Kept busy w) (h : Intact busy w) (call : WatchCall U) :
    callGuard busy w call ↔ ∃ w', watchCall w call = some w' ∧ Intact busy w' := by
  cases call with
  | connect result =>
    have hiff : Intact busy (w.connected result) ↔ NothingWaits busy w :=
      intact_of_quiet_iff hk h rfl rfl (hk.not_waits_connected result)
    show NothingWaits busy w ↔ ∃ w', some (w.connected result) = some w' ∧ Intact busy w'
    simp only [Option.some.injEq, exists_eq_left', hiff]
  | disconnect =>
    have hiff : Intact busy w.disconnected ↔ NothingWaits busy w :=
      intact_of_quiet_iff hk h rfl rfl (not_waits_disconnected w)
    show NothingWaits busy w ↔ ∃ w', some w.disconnected = some w' ∧ Intact busy w'
    simp only [Option.some.injEq, exists_eq_left', hiff]
  | send id data freeCb result =>
    cases id with
    | none => exact ⟨fun _ => ⟨w.returning 1, rfl, h.congr rfl rfl rfl rfl⟩, fun _ => Or.inl rfl⟩
    | some id =>
      constructor
      · rintro (hid | hf)
        · simp at hid
        · obtain ⟨f, hf⟩ := Option.ne_none_iff_exists'.mp hf
          refine ⟨_, sendAndFilter_eq hk hf id data freeCb result, ?_⟩
          split_ifs
          · exact (intact_unsent hk h ⟨id, f, data, freeCb⟩).congr rfl rfl rfl rfl
          · have hs : Intact busy (w.sent ⟨id, f, data, freeCb⟩) := intact_sent h hf
            exact hs.congr rfl rfl rfl rfl
      · rintro ⟨w', hw, -⟩
        apply Or.inr
        intro hf
        exact absurd (hw.symm.trans (sendAndFilter_none hf id data freeCb result)) (by simp)

/-! ## The callback of an answer -/

/-- A waiting block is not freed. -/
lemma Kept.not_freed (h : Kept none w) {k : ℕ} (hwait : w.Waits k) :
    w.log.any (WatchEvent.frees k) = false := by
  apply List.any_eq_false.mpr
  intro e he hfrees
  have hnone := h.waits k hwait (by simp)
  have hmem : e ∈ w.history k := by
    refine List.mem_filter.mpr ⟨he, ?_⟩
    cases e with
    | free j => exact decide_eq_true (show j = k by simpa [WatchEvent.frees] using hfrees)
    | callback j node data => simp [WatchEvent.frees] at hfrees
    | freeData j u => simp [WatchEvent.frees] at hfrees
  rw [hnone] at hmem
  simp at hmem

/-- The block whose callback is called has this call as its history. -/
lemma history_calling_self (h : Kept none w) {k : ℕ} (hwait : w.Waits k) (node : StreamNode)
    (wdata : WatchData U) :
    (w.calling k node wdata).history k = [.callback k node wdata.data] := by
  rw [history_append_self rfl (by simp [WatchEvent.wdata])]
  show w.history k ++ _ = _
  rw [h.waits k hwait (by simp), List.nil_append]

/-- The other blocks have their histories. -/
lemma history_calling_other {k j : ℕ} (hj : j ≠ k) (node : StreamNode) (wdata : WatchData U) :
    (w.calling k node wdata).history j = w.history j :=
  history_append_other rfl (by simp [WatchEvent.wdata]) hj

/-- A waiting block gets busy when its callback is called.

**Proof sketch.** The block waited, so its history was empty and is now the call of its
callback; it is the one that is busy, of which nothing more is asked. The others keep their
histories. -/
lemma Kept.calling (h : Kept none w) {k : ℕ} {wdata : WatchData U} {node : StreamNode}
    (hwait : w.Waits k) (hw : w.wdatas[k]? = some wdata) (hid : node.id = some wdata.stanzaId) :
    Kept (some k) (w.calling k node wdata) where
  both := h.both
  filter_lt := h.filter_lt
  rule_lt := h.rule_lt
  rule := h.rule
  nodup := h.nodup
  log_lt e he := by
    rcases List.mem_append.mp he with he | he
    · exact h.log_lt e he
    · rw [List.mem_singleton.mp he]
      exact (List.getElem?_eq_some_iff.mp hw).1
  waits j hj hbusy := by
    rw [history_calling_other (by simpa [eq_comm] using hbusy)]
    exact h.waits j hj (by simp)
  fate j wdata' hw' hbusy := by
    rw [history_calling_other (by simpa [eq_comm] using hbusy)]
    exact h.fate j wdata' hw' (by simp)
  busy j hj := by
    obtain rfl := Option.some.inj hj
    exact ⟨wdata, node, hw, hid, history_calling_self h hwait node wdata⟩

/-- Calling the callback of a waiting block loses nothing. -/
lemma intact_calling_iff {k : ℕ} (hwait : w.Waits k) (node : StreamNode) (wdata : WatchData U) :
    Intact (some k) (w.calling k node wdata) ↔ Intact none w := by
  constructor
  · rintro h j ⟨howned, -, hunwatched, hquiet⟩
    have hj : j ≠ k := by
      rintro rfl
      exact hunwatched hwait
    refine h j ⟨howned, by simpa [eq_comm] using hj, hunwatched, ?_⟩
    rw [history_calling_other hj, hquiet]
  · rintro h j ⟨howned, hidle, hunwatched, hquiet⟩
    refine h j ⟨howned, by simp, hunwatched, ?_⟩
    rw [← hquiet, history_calling_other (by simpa [eq_comm] using hidle)]

/-- The state of the client while a callback runs whose rule is in the filter `f`; `bound` filters
existed when it started, and `own` says whether a connection of its own is open. -/
structure Answering (f k bound : ℕ) (wdata : WatchData U) (w : WatchWorld U) (own : Bool) :
    Prop where
  data : w.wdatas[k]? = some wdata
  bound_le : bound ≤ w.xmpp.filters
  owns : own = true → ∃ f', w.filter = some f' ∧ bound ≤ f'
  same : own = false → w.filter = none ∨ w.filter = some f ∧ (f, k) ∈ w.rules

/-- A call of the callback leaves the block there, and the rule if no connection was closed.

**Proof sketch.** The block stays by `Kept.watchCall`. A connect or a disconnect ends the
connection of the rule, which is what the flag says then; a send only adds a rule, of a new
block. -/
lemma Answering.watchCall {f k bound : ℕ} {wdata : WatchData U} {own : Bool}
    (h : Answering f k bound wdata w own) (hk : Kept busy w) {call : WatchCall U}
    (hcall : Taningia.watchCall w call = some w') :
    Answering f k bound wdata w' (ownConnection own call) := by
  have hdata := (hk.watchCall hcall).2.wdatas k wdata h.data
  cases call with
  | connect result =>
    obtain rfl : w.connected result = w' := Option.some.inj hcall
    refine ⟨hdata, ?_, fun _ => ⟨w.xmpp.filters, filter_connected w result, h.bound_le⟩, ?_⟩
    · rw [filters_connected]
      exact Nat.le_succ_of_le h.bound_le
    · simp [ownConnection]
  | disconnect =>
    obtain rfl : w.disconnected = w' := Option.some.inj hcall
    exact ⟨hdata, h.bound_le, by simp [ownConnection], fun _ => Or.inl rfl⟩
  | send id data freeCb result =>
    cases id with
    | none =>
      obtain rfl : w.returning 1 = w' := Option.some.inj hcall
      exact ⟨hdata, h.bound_le, h.owns, h.same⟩
    | some id =>
      cases hf : w.filter with
      | none =>
        exact absurd (hcall.symm.trans (sendAndFilter_none hf id data freeCb result)) (by simp)
      | some f' =>
        have heq := hcall.symm.trans (sendAndFilter_eq hk hf id data freeCb result)
        obtain rfl := Option.some.inj heq
        split_ifs at hdata ⊢
        · exact ⟨hdata, h.bound_le, h.owns, h.same⟩
        · refine ⟨hdata, h.bound_le, h.owns, fun hown => (h.same hown).imp_right fun hsame => ?_⟩
          exact ⟨hsame.1, List.mem_append_left _ hsame.2⟩

/-- The calls of a callback keep track of its connection. -/
lemma Answering.run {f k bound : ℕ} {wdata : WatchData U} {calls : List (WatchCall U)} :
    ∀ {w : WatchWorld U} {own : Bool}, Answering f k bound wdata w own → Kept busy w →
      Machine.run? Taningia.watchCall w calls = some w' →
      Answering f k bound wdata w' (calls.foldl ownConnection own) := by
  induction calls with
  | nil =>
    intro w own h _ hrun
    exact (Option.some.inj hrun) ▸ h
  | cons call calls ih =>
    intro w own h hk hrun
    rw [Machine.run?_cons] at hrun
    obtain ⟨t, ht, hrun⟩ := Option.bind_eq_some_iff.mp hrun
    exact ih (h.watchCall hk ht) (hk.watchCall ht).1 hrun

/-- **The end of the hook** succeeds unless the callback leaves a connection of its own. -/
lemma Answering.watcherDone_iff {f k bound : ℕ} {wdata : WatchData U} {own : Bool}
    (h : Answering f k bound wdata w own) (hrule : wdata.rule = f) (hf : f < bound) :
    (∃ w', watcherDone w k wdata = some w') ↔ own = false := by
  unfold watcherDone
  cases own with
  | true =>
    obtain ⟨f', hf', hle⟩ := h.owns rfl
    have hne : wdata.rule ≠ f' := by omega
    simp [hf', hne]
  | false =>
    rcases h.same rfl with hnone | ⟨hsome, hr⟩
    · simp [hnone]
    · simp [hsome, hrule, removeRule, hr]

/-- What the end of the hook does: the block stops waiting and is freed.

**Proof sketch.** Without a filter no rule is left to remove. With one the rules that point at
the block are removed, and no other block waited through them. -/
lemma Kept.watcherDone_cases (h : Kept busy w) {k : ℕ} {wdata : WatchData U}
    (hdone : watcherDone w k wdata = some w') : ∃ rules,
      w' = { w with rules := rules, log := w.log ++ wdata.freed k } ∧ rules.Sublist w.rules ∧
        ∀ j, w'.Waits j ↔ w.Waits j ∧ j ≠ k := by
  unfold watcherDone at hdone
  cases hf : w.filter with
  | none =>
    simp only [hf, Option.some.injEq] at hdone
    refine ⟨w.rules, hdone.symm, List.Sublist.refl _, fun j => ?_⟩
    subst hdone
    simp only [WatchWorld.Waits]
    show (∃ f, w.filter = some f ∧ _) ↔ _
    simp [hf]
  | some f =>
    simp only [hf] at hdone
    split_ifs at hdone
    obtain ⟨w₀, hw₀, hdone⟩ := Option.map_eq_some_iff.mp hdone
    unfold removeRule at hw₀
    split_ifs at hw₀
    obtain rfl := Option.some.inj hw₀
    refine ⟨_, hdone.symm, List.erase_sublist, fun j => ?_⟩
    subst hdone
    show (∃ f', w.filter = some f' ∧ (f', j) ∈ w.rules.erase (f, k)) ↔
      (∃ f', w.filter = some f' ∧ (f', j) ∈ w.rules) ∧ j ≠ k
    simp only [hf, Option.some.injEq, h.nodup.mem_erase_iff, ne_eq, Prod.mk.injEq]
    constructor
    · rintro ⟨f', rfl, hne, hr⟩
      exact ⟨⟨f, rfl, hr⟩, fun hj => hne ⟨rfl, hj⟩⟩
    · rintro ⟨⟨f', rfl, hr⟩, hne⟩
      exact ⟨f, rfl, fun hj => hne hj.2, hr⟩

/-- **The hook settles its block**: afterwards everything is kept, and nothing was lost by it.

**Proof sketch.** By `watcherDone_cases` the block waits no more and its release is booked, so
its history is its callback and its release, which is one of the fates. Another block waits and
has its history as before, so it is lost exactly when it was. -/
lemma Kept.watcherDone (h : Kept busy w) {k : ℕ} {wdata : WatchData U} (hbusy : busy = some k)
    (hw : w.wdatas[k]? = some wdata) (hdone : Taningia.watcherDone w k wdata = some w') :
    Kept none w' ∧ (Intact none w' ↔ Intact busy w) := by
  obtain ⟨rules, rfl, hsub, hwaits⟩ := h.watcherDone_cases hdone
  obtain ⟨wdata', node, hw', hid, hhist⟩ := h.busy k hbusy
  obtain rfl := Option.some.inj (hw.symm.trans hw')
  set w' : WatchWorld U := { w with rules := rules, log := w.log ++ wdata.freed k } with hw'def
  have hself : w'.history k = .callback k node wdata.data :: wdata.freed k := by
    rw [history_append_self rfl fun _ he => wdata_of_mem_freed he]
    show w.history k ++ _ = _
    rw [hhist, List.singleton_append]
  have hother : ∀ j, j ≠ k → w'.history j = w.history j := fun j hj =>
    history_append_other rfl (fun _ he => wdata_of_mem_freed he) hj
  have hidle : ∀ {j}, j ≠ k → busy ≠ some j := fun hj hbusy' =>
    hj (Option.some.inj (hbusy'.symm.trans hbusy))
  constructor
  · refine ⟨h.both, h.filter_lt, fun r hr => h.rule_lt r (hsub.subset hr),
      fun r hr => h.rule r (hsub.subset hr), h.nodup.sublist hsub, ?_, ?_, ?_, by simp⟩
    · intro e he
      rcases List.mem_append.mp he with he | he
      · exact h.log_lt e he
      · rw [wdata_of_mem_freed he]
        exact (List.getElem?_eq_some_iff.mp hw).1
    · intro j hj _
      obtain ⟨hj, hne⟩ := (hwaits j).mp hj
      rw [hother j hne]
      exact h.waits j hj (hidle hne)
    · intro j wdata' hj _
      by_cases hne : j = k
      · subst hne
        obtain rfl := Option.some.inj (hw.symm.trans hj)
        rw [hself]
        exact WatchFate.answered node hid
      · rw [hother j hne]
        exact h.fate j wdata' hj (hidle hne)
  · constructor
    · rintro hi j ⟨howned, hne, hunwatched, hquiet⟩
      have hjk : j ≠ k := fun hjk => hne (hjk ▸ hbusy)
      refine hi j ⟨howned, by simp, fun hj => hunwatched ((hwaits j).mp hj).1, ?_⟩
      rw [hother j hjk, hquiet]
    · rintro hi j ⟨howned, -, hunwatched, hquiet⟩
      have hjk : j ≠ k := by
        rintro rfl
        rw [hself] at hquiet
        simp at hquiet
      refine hi j ⟨howned, hidle hjk, fun hj => hunwatched ((hwaits j).mpr ⟨hj, hjk⟩), ?_⟩
      rw [← hquiet, hother j hjk]

/-- The hook runs the calls of the callback between its beginning and its end. -/
lemma ikshookWatcher_eq (h : Kept none w) {k : ℕ} {wdata : WatchData U} (hwait : w.Waits k)
    (hw : w.wdatas[k]? = some wdata) (node : StreamNode) (calls : List (WatchCall U)) :
    ikshookWatcher w k node calls =
      (Machine.run? watchCall (w.calling k node wdata) calls).bind fun w =>
        watcherDone w k wdata := by
  rw [ikshookWatcher, if_neg (by simp [h.not_freed hwait]), hw, Option.bind_some]

/-- The state in which the calls of a callback start. -/
lemma Kept.answering (h : Kept none w) {k : ℕ} {wdata : WatchData U} (hwait : w.Waits k)
    (hw : w.wdatas[k]? = some wdata) (node : StreamNode) :
    Answering wdata.rule k w.xmpp.filters wdata (w.calling k node wdata) false ∧
      wdata.rule < w.xmpp.filters := by
  obtain ⟨f, hf, hr⟩ := hwait
  obtain ⟨wdata', hw', hrule⟩ := h.rule _ hr
  obtain rfl := Option.some.inj (hw.symm.trans hw')
  have hrule : wdata.rule = f := hrule
  refine ⟨⟨hw, le_rfl, by simp, fun _ => Or.inr ?_⟩, hrule ▸ h.filter_lt f hf⟩
  exact hrule.symm ▸ ⟨hf, hr⟩

/-- A call behind the callback keeps everything.

**Proof sketch.** The hook is the call of the callback, the calls that it makes, and its end.
The first makes the block busy (`Kept.calling`), the calls keep all with the block busy and only
add to what is lost, and the end settles the block (`Kept.watcherDone`). -/
lemma Kept.ikshookWatcher (h : Kept none w) {k : ℕ} {wdata : WatchData U} {node : StreamNode}
    (hwait : w.Waits k) (hw : w.wdatas[k]? = some wdata) (hid : node.id = some wdata.stanzaId)
    {calls : List (WatchCall U)} (hhook : Taningia.ikshookWatcher w k node calls = some w') :
    Kept none w' ∧ (Intact none w' → Intact none w) := by
  rw [ikshookWatcher_eq h hwait hw] at hhook
  obtain ⟨t, ht, hdone⟩ := Option.bind_eq_some_iff.mp hhook
  have hcalling := h.calling hwait hw hid
  have hkt : Kept (some k) t :=
    Machine.run?_invariant _ (fun _ _ _ hs hstep => (hs.watchCall hstep).1) hcalling ht
  have hans := (h.answering hwait hw node).1.run hcalling ht
  obtain ⟨hk', hiff⟩ := hkt.watcherDone rfl hans.data hdone
  refine ⟨hk', fun hi => (intact_calling_iff hwait node wdata).mp ?_⟩
  exact Machine.run?_reflects (fun _ _ _ hs hstep => (Kept.watchCall hs hstep).1)
    (fun _ _ _ hs hstep hi => hi.of_leavesAlone (Kept.watchCall hs hstep).2) hcalling ht
    (hiff.mp hi)

/-- **An answer leaves no block behind exactly** when the calls of its callback are guarded and
leave no connection of their own.

**Proof sketch.** While the callback runs its own block is busy, and the rule for exact guards
applies to its calls. The end of the hook then settles the block, and succeeds unless the client has
a filter that its rule is not in. -/
lemma ikshookWatcher_iff (h : Kept none w) (hi : Intact none w) {k : ℕ} {wdata : WatchData U}
    {node : StreamNode} (hwait : w.Waits k) (hw : w.wdatas[k]? = some wdata)
    (hid : node.id = some wdata.stanzaId) (calls : List (WatchCall U)) :
    (Machine.GuardedRun watchCall (callGuard (some k)) (w.calling k node wdata) calls ∧
        leavesConnection calls = false) ↔
      ∃ w', Taningia.ikshookWatcher w k node calls = some w' ∧ Intact none w' := by
  have hcalling := h.calling hwait hw hid
  obtain ⟨hans, hlt⟩ := h.answering hwait hw node
  have hexact := Machine.guardedRun_iff (fun _ _ _ hs hstep => (Kept.watchCall hs hstep).1)
    (fun _ _ _ hs hstep hi => hi.of_leavesAlone (Kept.watchCall hs hstep).2)
    (fun s call hs hi => callGuard_iff hs hi call) hcalling
    ((intact_calling_iff hwait node wdata).mpr hi) calls
  have hkept : ∀ {t}, Machine.run? watchCall (w.calling k node wdata) calls = some t →
      Kept (some k) t :=
    Machine.run?_invariant _ (fun _ _ _ hs hstep => (hs.watchCall hstep).1) hcalling
  rw [hexact, ikshookWatcher_eq h hwait hw]
  constructor
  · rintro ⟨⟨t, ht, hit⟩, hleaves⟩
    have hend := hans.run hcalling ht
    obtain ⟨w', hdone⟩ := (hend.watcherDone_iff rfl hlt).mpr hleaves
    refine ⟨w', by rw [ht, Option.bind_some, hdone], ?_⟩
    exact ((hkept ht).watcherDone rfl hend.data hdone).2.mpr hit
  · rintro ⟨w', hhook, hi'⟩
    obtain ⟨t, ht, hdone⟩ := Option.bind_eq_some_iff.mp hhook
    have hend := hans.run hcalling ht
    refine ⟨⟨t, ht, ((hkept ht).watcherDone rfl hend.data hdone).2.mp hi'⟩, ?_⟩
    exact (hend.watcherDone_iff rfl hlt).mp ⟨w', hdone⟩

/-! ## Operations -/

/-- An item of the stream changes neither the filter nor the parser. -/
lemma receive_eq (w : WatchWorld U) (secure : Bool) (item : StreamItem) :
    ∃ xmpp, (w.receive secure item).1 = { w with xmpp := xmpp } ∧
      xmpp.client.filter = w.xmpp.client.filter ∧ xmpp.client.parser = w.xmpp.client.parser ∧
      xmpp.filters = w.xmpp.filters := by
  unfold WatchWorld.receive clientExec
  cases hp : w.xmpp.client.parser with
  | none => exact ⟨w.xmpp, rfl, rfl, hp, rfl⟩
  | some p =>
    obtain ⟨features, authenticated, hc⟩ := client_clientHook w.xmpp.client secure item
    refine ⟨_, rfl, ?_, ?_, rfl⟩
    · simp [hc]
    · simp [hc, hp]

/-- An item that is received keeps all. -/
lemma Kept.receive (h : Kept none w) (secure : Bool) (item : StreamItem) :
    Kept none (w.receive secure item).1 := by
  obtain ⟨xmpp, heq, hfilter, hparser, hfilters⟩ := receive_eq w secure item
  rw [heq]
  exact h.of_xmpp hfilter hparser hfilters

/-- An item that is received loses nothing. -/
lemma intact_receive_iff (w : WatchWorld U) (secure : Bool) (item : StreamItem) :
    Intact none (w.receive secure item).1 ↔ Intact none w := by
  obtain ⟨xmpp, heq, hfilter, -, -⟩ := receive_eq w secure item
  rw [heq]
  exact ⟨fun h => h.congr hfilter.symm rfl rfl rfl, fun h => h.congr hfilter rfl rfl rfl⟩

/-- The filter runs a rule of its own with the id of the node.

**Proof sketch.** The rule that runs is one that is installed in the filter of the client and
has the id of the node; so its block waits, and has this id. -/
lemma waits_of_answered {node : Option StreamNode} {choice : ℕ} {node' : StreamNode} {k : ℕ}
    (h : answered w node choice = some (node', k)) :
    w.Waits k ∧ ∃ wdata, w.wdatas[k]? = some wdata ∧ node'.id = some wdata.stanzaId := by
  obtain ⟨n, -, h⟩ := Option.bind_eq_some_iff.mp h
  obtain ⟨j, hj, h⟩ := Option.map_eq_some_iff.mp h
  obtain ⟨rfl, rfl⟩ := Prod.mk.inj h
  obtain ⟨r, hr, rfl⟩ := List.mem_map.mp (List.mem_of_getElem? hj)
  obtain ⟨hr, hmatch⟩ := List.mem_filter.mp hr
  obtain ⟨hfilter, hid, hstanza⟩ := of_decide_eq_true hmatch
  refine ⟨⟨r.1, hfilter.symm, hr⟩, ?_⟩
  obtain ⟨id, hid⟩ := Option.ne_none_iff_exists'.mp hid
  rw [hid] at hstanza
  obtain ⟨wdata, hw, rfl⟩ := Option.map_eq_some_iff.mp hstanza
  exact ⟨wdata, hw, hid⟩

/-- An operation keeps everything, and repairs nothing.

**Proof sketch.** A call is `Kept.watchCall`. An item is received, and when the filter runs a
rule, its hook is `Kept.ikshookWatcher`. -/
lemma Kept.watchStep (h : Kept none w) {op : WatchOp U}
    (hstep : Taningia.watchStep w op = some w') :
    Kept none w' ∧ (Intact none w' → Intact none w) := by
  cases op with
  | call call =>
    obtain ⟨hk, hw⟩ := h.watchCall hstep
    exact ⟨hk, fun hi => hi.of_leavesAlone hw⟩
  | stream secure item choice calls =>
    have hreceive := h.receive secure item
    simp only [Taningia.watchStep] at hstep
    split at hstep
    · rename_i node k hans
      obtain ⟨hwait, wdata, hw, hid⟩ := waits_of_answered hans
      obtain ⟨hk, hi⟩ := hreceive.ikshookWatcher hwait hw hid hstep
      exact ⟨hk, fun hi' => (intact_receive_iff w secure item).mp (hi hi')⟩
    · obtain rfl := Option.some.inj hstep
      exact ⟨hreceive, (intact_receive_iff w secure item).mp⟩

/-- **An operation leaves no block behind exactly under its guard.**

**Proof sketch.** A call is `callGuard_iff`. An item loses nothing itself, and when the filter
runs a rule its hook loses nothing exactly under its guard (`ikshookWatcher_iff`). -/
lemma watchGuard_iff (h : Kept none w) (hi : Intact none w) (op : WatchOp U) :
    watchGuard w op ↔ ∃ w', watchStep w op = some w' ∧ Intact none w' := by
  cases op with
  | call call => exact callGuard_iff h hi call
  | stream secure item choice calls =>
    have hreceive := h.receive secure item
    have hi' := (intact_receive_iff w secure item).mpr hi
    simp only [watchGuard, watchStep]
    split
    · rename_i node k hans
      obtain ⟨hwait, wdata, hw, hid⟩ := waits_of_answered hans
      rw [← ikshookWatcher_iff hreceive hi' hwait hw hid calls]
      constructor
      · exact fun hg => hg node k wdata hans hw
      · rintro hg node' k' wdata' hans' hw'
        obtain ⟨rfl, rfl⟩ := Prod.mk.inj (Option.some.inj (hans.symm.trans hans'))
        obtain rfl := Option.some.inj (hw.symm.trans hw')
        exact hg
    · rename_i hans
      refine ⟨fun _ => ⟨_, rfl, hi'⟩, fun _ node' k wdata hans' _ => ?_⟩
      exact absurd (hans.symm.trans hans') (by simp)

/-! ## The end of the client -/

/-- What is booked for a block is booked in its history. -/
lemma ledger_history (w : WatchWorld U) (k : ℕ) :
    (w.log.filterMap WatchEvent.ledger).filter (fun e => e.block = k) =
      (w.history k).filterMap WatchEvent.ledger := by
  rw [WatchWorld.history, List.filter_filterMap, List.filterMap_filter]
  apply List.filterMap_congr
  intro e _
  cases e with
  | callback j node data =>
    by_cases hj : j = k <;> simp [WatchEvent.ledger, WatchEvent.wdata, Ledger.Event.block, hj]
  | freeData j u =>
    by_cases hj : j = k <;> simp [WatchEvent.ledger, WatchEvent.wdata, Ledger.Event.block, hj]
  | free j => simp [WatchEvent.ledger]

/-- How often the data of a block was released is a matter of its history. -/
lemma count_free_eq (w : WatchWorld U) (k : ℕ) :
    (w.log.filterMap WatchEvent.ledger).count (.free k) =
      ((w.history k).filterMap WatchEvent.ledger).count (.free k) := by
  rw [← ledger_history, List.count_filter (by simp [Ledger.Event.block])]

/-- The release of a block books the data that it owns. -/
lemma ledger_freed (wdata : WatchData U) (k : ℕ) :
    (wdata.freed k).filterMap WatchEvent.ledger = wdata.owned.toList.map fun _ => .free k := by
  cases h : wdata.owned <;> simp [WatchData.freed, h, WatchEvent.ledger]

/-- A block that was answered books the use of its data, and its release. -/
lemma ledger_answered (wdata : WatchData U) (k : ℕ) (node : StreamNode) :
    (.callback k node wdata.data :: wdata.freed k).filterMap WatchEvent.ledger =
      .use k :: wdata.owned.toList.map fun _ => .free k := by
  rw [List.filterMap_cons, ← ledger_freed]
  rfl

/-- Every block has one of the fates. -/
lemma WatchFate.of_lt (h : Kept none w) {k : ℕ} (hk : k < w.wdatas.length) :
    ∃ wdata, w.wdatas[k]? = some wdata ∧ WatchFate wdata k (w.history k) :=
  ⟨w.wdatas[k], List.getElem?_eq_getElem hk, h.fate k _ (List.getElem?_eq_getElem hk) (by simp)⟩

/-- A release is no callback. -/
lemma not_isCallback_of_mem_freed {wdata : WatchData U} {k : ℕ} {e : WatchEvent U}
    (h : e ∈ wdata.freed k) : ¬ e.IsCallback := by
  simp only [WatchData.freed, List.mem_append, List.mem_map, List.mem_singleton] at h
  obtain ⟨u, -, rfl⟩ | rfl := h <;> exact id

/-- A release frees the data that the block owns. -/
lemma freeData_mem_freed_iff {wdata : WatchData U} {k : ℕ} {u : U} :
    .freeData k u ∈ wdata.freed k ↔ wdata.owned = some u := by
  cases h : wdata.owned <;> simp [WatchData.freed, h, eq_comm]

/-- No fate calls a callback twice. -/
lemma WatchFate.callbacks_le_one {wdata : WatchData U} {k : ℕ} {es : List (WatchEvent U)}
    (h : WatchFate wdata k es) : (es.filter fun e => e.IsCallback).length ≤ 1 := by
  have hfreed : (wdata.freed k).filter (fun e => e.IsCallback) = [] := by
    apply List.filter_eq_nil_iff.mpr
    intro e he
    simpa using not_isCallback_of_mem_freed he
  cases h with
  | quiet => simp
  | failed => simp [hfreed]
  | answered node hid =>
    rw [List.filter_cons, hfreed]
    split_ifs <;> simp

/-- A callback of a fate is that of its own answer. -/
lemma WatchFate.callback {wdata : WatchData U} {k : ℕ} {es : List (WatchEvent U)}
    (h : WatchFate wdata k es) {node : StreamNode} {data : Option U}
    (hmem : .callback k node data ∈ es) :
    node.id = some wdata.stanzaId ∧ data = wdata.data := by
  cases h with
  | quiet => simp at hmem
  | failed => exact absurd trivial (not_isCallback_of_mem_freed hmem)
  | answered node' hid =>
    rcases List.mem_cons.mp hmem with heq | hmem
    · obtain ⟨-, rfl, rfl⟩ := WatchEvent.callback.inj heq
      exact ⟨hid, rfl⟩
    · exact absurd trivial (not_isCallback_of_mem_freed hmem)

/-- A release of a fate is that of its own data. -/
lemma WatchFate.freeData {wdata : WatchData U} {k : ℕ} {es : List (WatchEvent U)}
    (h : WatchFate wdata k es) {u : U} (hmem : .freeData k u ∈ es) : wdata.owned = some u := by
  cases h with
  | quiet => simp at hmem
  | failed => exact freeData_mem_freed_iff.mp hmem
  | answered node' hid =>
    rcases List.mem_cons.mp hmem with heq | hmem
    · simp at heq
    · exact freeData_mem_freed_iff.mp hmem

/-- In no fate anything happens to the data behind its release. -/
lemma WatchFate.sound {wdata : WatchData U} {k : ℕ} {es : List (WatchEvent U)}
    (h : WatchFate wdata k es) :
    Ledger.Sound (es.filterMap WatchEvent.ledger) := by
  have hfreed : Ledger.Sound (wdata.owned.toList.map fun _ => Ledger.Event.free k) := by
    cases wdata.owned <;> simp [Ledger.Sound]
  cases h with
  | quiet => exact Ledger.sound_nil
  | failed => rwa [ledger_freed]
  | answered node hid =>
    rw [ledger_answered]
    exact List.pairwise_cons.mpr ⟨fun e _ => by simp, hfreed⟩

/-- A fate releases the owned data once, unless nothing happened. -/
lemma WatchFate.count_free {wdata : WatchData U} {k : ℕ} {es : List (WatchEvent U)}
    (h : WatchFate wdata k es) {u : U} (howned : wdata.owned = some u) (hne : es ≠ []) :
    (es.filterMap WatchEvent.ledger).count (.free k) = 1 := by
  cases h with
  | quiet => exact absurd rfl hne
  | failed => simp [ledger_freed, howned]
  | answered node hid =>
    rw [ledger_answered, howned]
    simp

/-- The history of any block, made or not, has a property that all fates have. -/
lemma Kept.of_fate (h : Kept none w) {P : List (WatchEvent U) → Prop} (hnil : P []) {k : ℕ}
    (hfate : ∀ wdata, WatchFate wdata k (w.history k) → P (w.history k)) : P (w.history k) := by
  rcases lt_or_ge k w.wdatas.length with hk | hk
  · obtain ⟨wdata, -, hf⟩ := WatchFate.of_lt h hk
    exact hfate wdata hf
  · rw [h.history_new hk]
    exact hnil

/-- **No callback is called twice**, in any run. -/
lemma Kept.callbacks_le_one (h : Kept none w) (k : ℕ) :
    (w.log.filter fun e => e.IsCallback ∧ e.wdata = k).length ≤ 1 := by
  have hfilter : w.log.filter (fun e => e.IsCallback ∧ e.wdata = k) =
      (w.history k).filter fun e => e.IsCallback := by
    rw [WatchWorld.history, List.filter_filter]
    simp
  rw [hfilter]
  exact h.of_fate (P := fun es => (es.filter fun e => e.IsCallback).length ≤ 1) (by simp)
    fun _ hfate => hfate.callbacks_le_one

/-- **Nothing happens to the data behind its release**, in any run. -/
lemma Kept.ledger_sound (h : Kept none w) : Ledger.Sound (w.log.filterMap WatchEvent.ledger) := by
  apply Ledger.sound_iff_forall_block.mpr
  intro k
  rw [ledger_history]
  exact h.of_fate (P := fun es => Ledger.Sound (es.filterMap WatchEvent.ledger)) Ledger.sound_nil
    fun _ hfate => hfate.sound

/-- An event of a run is one of the history of its block. -/
lemma Kept.mem_history (h : Kept none w) {e : WatchEvent U} (he : e ∈ w.log) :
    ∃ wdata, w.wdatas[e.wdata]? = some wdata ∧ WatchFate wdata e.wdata (w.history e.wdata) ∧
      e ∈ w.history e.wdata := by
  obtain ⟨wdata, hw, hfate⟩ := WatchFate.of_lt h (h.log_lt _ he)
  exact ⟨wdata, hw, hfate, List.mem_filter.mpr ⟨he, decide_eq_true rfl⟩⟩

/-- **All data was released** exactly when no block was left behind before and none waits now.

**Proof sketch.** Data that was released was booked, so its block has a history: it does not
wait, and it is not lost. The other way round a block that owns data, does not wait and is not
lost has a history that ends with its release, which books its data once. -/
lemma Kept.released_iff (h : Kept none w) :
    (∀ k wdata, w.wdatas[k]? = some wdata → ∀ u ∈ wdata.owned,
      (w.log.filterMap WatchEvent.ledger).count (.free k) = 1) ↔
      Intact none w ∧ NothingWaits none w := by
  constructor
  · intro hreleased
    have hhist : ∀ k wdata, w.wdatas[k]? = some wdata → wdata.owned ≠ none →
        w.history k ≠ [] := by
      intro k wdata hw howned hquiet
      obtain ⟨u, hu⟩ := Option.ne_none_iff_exists'.mp howned
      have hcount := hreleased k wdata hw u hu
      rw [count_free_eq, hquiet] at hcount
      simp at hcount
    constructor
    · intro k hlost
      obtain ⟨wdata, hw, howned⟩ := hlost.owned
      exact hhist k wdata hw howned hlost.quiet
    · intro k wdata hw howned hwait
      exact absurd (h.waits k hwait (by simp)) (hhist k wdata hw howned)
  · intro hsettled k wdata hw u hu
    rw [count_free_eq]
    have howned : wdata.owned ≠ none := Option.ne_none_iff_exists'.mpr ⟨u, hu⟩
    apply (h.fate k wdata hw (by simp)).count_free hu
    intro hquiet
    refine hsettled.1 k ⟨⟨wdata, hw, howned⟩, by simp, fun hwait => ?_, hquiet⟩
    simpa using hsettled.2 k wdata hw howned hwait

/-- **The watchers at the end** of a client are settled exactly when no block was left behind before
and none waits now. -/
theorem watchersSettled_iff (h : Kept none w) :
    WatchersSettled w ↔ Intact none w ∧ NothingWaits none w := by
  constructor
  · exact fun hs => h.released_iff.mp hs.released
  · intro hsettled
    refine ⟨h.callbacks_le_one, ?_, ?_, h.ledger_sound, h.released_iff.mpr hsettled⟩
    · intro k node data hmem
      obtain ⟨wdata, hw, hfate, hmem⟩ := h.mem_history hmem
      exact ⟨wdata, hw, hfate.callback hmem⟩
    · intro k u hmem
      obtain ⟨wdata, hw, hfate, hmem⟩ := h.mem_history hmem
      exact ⟨wdata, hw, hfate.freeData hmem⟩

/-- Destroying the client does nothing to its watchers. -/
lemma watchersSettled_unref (w : WatchWorld U) :
    WatchersSettled (watchUnref w) ↔ WatchersSettled w :=
  ⟨fun h => ⟨h.once, h.ids, h.owner, h.alive, h.released⟩,
    fun h => ⟨h.once, h.ids, h.owner, h.alive, h.released⟩⟩

/-- **The watchers over whole runs**: a run succeeds and settles all watchers by the end of its
client exactly when every operation is guarded: stanzas are sent only with a filter, connections are
opened and closed, and the client destroyed, only when no watcher with data to release waits, and no
callback leaves a connection of its own.

**Proof sketch.** No operation repairs a lost block, and one leaves no block behind exactly under
its guard (`watchGuard_iff`), so the rule for exact guards applies to the run. -/
theorem watchRun_settled_iff (iksIdNew : Str → IksId) (jid password : Str) (host : Option Str)
    (port : ℤ) (err : ErrRec) (ops : List (WatchOp U)) :
    WatchRunSettled (.init (clientInit iksIdNew jid password host port) err) ops ↔
      WatchRunGuarded (.init (clientInit iksIdNew jid password host port) err) ops := by
  set xmpp : XmppWorld := .init (clientInit iksIdNew jid password host port) err
  have hk : Kept none (WatchWorld.init xmpp : WatchWorld U) := kept_init rfl rfl
  have hkept : ∀ {w}, Machine.run? watchStep (WatchWorld.init xmpp : WatchWorld U) ops = some w →
      Kept none w :=
    Machine.run?_invariant _ (fun _ _ _ hs hstep => (hs.watchStep hstep).1) hk
  have hsteps := Machine.guardedRun_iff (fun _ _ _ hs hstep => (Kept.watchStep hs hstep).1)
    (fun _ _ _ hs hstep => (Kept.watchStep hs hstep).2)
    (fun s op hs hi => watchGuard_iff hs hi op) hk (intact_init xmpp) ops
  constructor
  · rintro ⟨w, hrun, hsettled⟩
    rw [watchersSettled_unref, watchersSettled_iff (hkept hrun)] at hsettled
    refine ⟨hsteps.mpr ⟨w, hrun, hsettled.1⟩, fun w' hrun' => ?_⟩
    obtain rfl := Option.some.inj (hrun.symm.trans hrun')
    exact hsettled.2
  · rintro ⟨hguarded, hunref⟩
    obtain ⟨w, hrun, hintact⟩ := hsteps.mp hguarded
    refine ⟨w, hrun, ?_⟩
    rw [watchersSettled_unref, watchersSettled_iff (hkept hrun)]
    exact ⟨hintact, hunref w hrun⟩

/-- A connection that is closed while an answer is awaited: the data is never released. -/
theorem watchRun_not_settled_disconnect :
    ¬ WatchRunSettled anaWorld [.call (.connect .ok),
      .call (.send (some "mymsg".toList) (some "dados") true 0), .call .disconnect] := by
  rintro ⟨w, hrun, hsettled⟩
  obtain rfl := Option.some.inj hrun
  exact absurd (hsettled.released 0 _ rfl "dados" rfl) (by decide)

end Taningia
