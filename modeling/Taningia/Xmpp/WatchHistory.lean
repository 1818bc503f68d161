import Taningia.Xmpp.Watch

set_option relaxedAutoImplicit false
set_option autoImplicit false

/-!
# What happens to the block of a watcher

Every stanza with an id gets a `watch_data` block. Its history is short: nothing yet, the release
after a failed send, or the callback of its answer with the release. This file has that invariant,
and what a send, a new connection and a disconnection do to it.

## Main definitions

* `Taningia.WatchWorld.history` — what happened to one block.
* `Taningia.WatchFate`, `Taningia.Kept` — what every run keeps: the history of a block is one of
  few.
* `Taningia.Intact` — no block with data to release is left behind.

## Main results

* `Taningia.Kept.connected`, `Taningia.Kept.disconnected`, `Taningia.Kept.sent`,
  `Taningia.Kept.unsent` — what happens to the client keeps the histories.
* `Taningia.Lost.mono` — a block that was left behind stays so.
* `Taningia.intact_of_quiet_iff` — a step after which no block waits leaves the waiting ones behind.
-/

namespace Taningia

variable {U : Type} {busy : Option ℕ} {w w' : WatchWorld U}

/-! ## The history of a block -/

/-- The events of a block. -/
def WatchWorld.history (w : WatchWorld U) (k : ℕ) : List (WatchEvent U) :=
  w.log.filter fun e => e.wdata = k

/-- What is booked when a block is freed is booked for this block. -/
lemma wdata_of_mem_freed {wdata : WatchData U} {k : ℕ} {e : WatchEvent U}
    (h : e ∈ wdata.freed k) : e.wdata = k := by
  simp only [WatchData.freed, List.mem_append, List.mem_map, List.mem_singleton] at h
  obtain ⟨u, -, rfl⟩ | rfl := h <;> rfl

/-- Events of the block itself join its history. -/
lemma history_append_self {log : List (WatchEvent U)} {k : ℕ} {es : List (WatchEvent U)}
    (hlog : w'.log = log ++ es) (h : ∀ e ∈ es, e.wdata = k) :
    w'.history k = log.filter (fun e => e.wdata = k) ++ es := by
  rw [WatchWorld.history, hlog, List.filter_append]
  congr 1
  exact List.filter_eq_self.mpr fun e he => by simp [h e he]

/-- Events of one block leave the histories of the others. -/
lemma history_append_other {log : List (WatchEvent U)} {k j : ℕ} {es : List (WatchEvent U)}
    (hlog : w'.log = log ++ es) (h : ∀ e ∈ es, e.wdata = k) (hj : j ≠ k) :
    w'.history j = log.filter (fun e => e.wdata = j) := by
  rw [WatchWorld.history, hlog, List.filter_append]
  have : es.filter (fun e => e.wdata = j) = [] := by
    apply List.filter_eq_nil_iff.mpr
    intro e he
    simp [h e he, hj.symm]
  rw [this, List.append_nil]

/-- What can have happened to a block whose callback is not running: nothing, its stanza could not
be sent, or its answer has come. -/
inductive WatchFate (wdata : WatchData U) (k : ℕ) : List (WatchEvent U) → Prop
  | quiet : WatchFate wdata k []
  | failed : WatchFate wdata k (wdata.freed k)
  | answered (node : StreamNode) (hid : node.id = some wdata.stanzaId) :
      WatchFate wdata k (.callback k node wdata.data :: wdata.freed k)

/-! ## What every run keeps -/

/-- What every run keeps, while the callback of `busy` is running: the rules belong to their
blocks, a waiting block has no history, and the others have one of few. -/
structure Kept (busy : Option ℕ) (w : WatchWorld U) : Prop where
  both : w.filter = none ↔ w.xmpp.client.parser = none
  filter_lt : ∀ f, w.filter = some f → f < w.xmpp.filters
  rule_lt : ∀ r ∈ w.rules, r.1 < w.xmpp.filters
  rule : ∀ r ∈ w.rules, ∃ wdata, w.wdatas[r.2]? = some wdata ∧ wdata.rule = r.1
  nodup : w.rules.Nodup
  log_lt : ∀ e ∈ w.log, e.wdata < w.wdatas.length
  waits : ∀ k, w.Waits k → busy ≠ some k → w.history k = []
  fate : ∀ k wdata, w.wdatas[k]? = some wdata → busy ≠ some k → WatchFate wdata k (w.history k)
  busy : ∀ k, busy = some k → ∃ wdata node, w.wdatas[k]? = some wdata ∧
    node.id = some wdata.stanzaId ∧ w.history k = [.callback k node wdata.data]

/-- A new client keeps all. -/
lemma kept_init {xmpp : XmppWorld} (hfilter : xmpp.client.filter = none)
    (hparser : xmpp.client.parser = none) : Kept none (WatchWorld.init xmpp : WatchWorld U) where
  both := ⟨fun _ => hparser, fun _ => hfilter⟩
  filter_lt f h := by
    change xmpp.client.filter = some f at h
    simp [hfilter] at h
  rule_lt r h := by simp [WatchWorld.init] at h
  rule r h := by simp [WatchWorld.init] at h
  nodup := List.nodup_nil
  log_lt e h := by simp [WatchWorld.init] at h
  waits k _ _ := rfl
  fate k wdata h := by simp [WatchWorld.init] at h
  busy k h := by simp at h

/-- A step that makes no block and adds no rule keeps everything, when no block starts to wait.

**Proof sketch.** The rules of the new world are among the old ones, so the facts about rules
are the old facts; the log and the blocks are the same, so the histories are. -/
lemma Kept.shrink (h : Kept busy w) (hboth : w'.filter = none ↔ w'.xmpp.client.parser = none)
    (hlt : ∀ f, w'.filter = some f → f < w'.xmpp.filters)
    (hle : w.xmpp.filters ≤ w'.xmpp.filters) (hrules : w'.rules.Sublist w.rules)
    (hwdatas : w'.wdatas = w.wdatas) (hlog : w'.log = w.log)
    (hwaits : ∀ k, w'.Waits k → w.Waits k) : Kept busy w' where
  both := hboth
  filter_lt := hlt
  rule_lt r hr := (h.rule_lt r (hrules.subset hr)).trans_le hle
  rule r hr := by
    rw [hwdatas]
    exact h.rule r (hrules.subset hr)
  nodup := h.nodup.sublist hrules
  log_lt := by
    rw [hlog, hwdatas]
    exact h.log_lt
  waits k hk hbusy := by
    rw [WatchWorld.history, hlog]
    exact h.waits k (hwaits k hk) hbusy
  fate := by
    simp only [WatchWorld.history, hlog, hwdatas]
    exact h.fate
  busy := by
    simp only [WatchWorld.history, hlog, hwdatas]
    exact h.busy

/-- The client itself matters only by its filter, its parser and the number of filters.

**Proof sketch.** An instance of `Kept.shrink` with the same rules: the conditions speak of the
three fields only. -/
lemma Kept.of_xmpp (h : Kept busy w) {xmpp : XmppWorld}
    (hfilter : xmpp.client.filter = w.xmpp.client.filter)
    (hparser : xmpp.client.parser = w.xmpp.client.parser)
    (hfilters : xmpp.filters = w.xmpp.filters) :
    Kept busy { w with xmpp := xmpp } := by
  refine h.shrink ?_ ?_ hfilters.ge (List.Sublist.refl _) rfl rfl ?_
  · show xmpp.client.filter = none ↔ xmpp.client.parser = none
    rw [hfilter, hparser]
    exact h.both
  · intro f hf
    show f < xmpp.filters
    rw [hfilters]
    exact h.filter_lt f (hfilter.symm.trans hf)
  · rintro k ⟨f, hf, hr⟩
    exact ⟨f, hfilter.symm.trans hf, hr⟩

/-- A block that is not made yet has no history. -/
lemma Kept.history_new (h : Kept busy w) {k : ℕ} (hk : w.wdatas.length ≤ k) : w.history k = [] := by
  apply List.filter_eq_nil_iff.mpr
  intro e he
  have := h.log_lt e he
  simp only [decide_eq_true_eq]
  omega

/-- The block of a rule is one of those made. -/
lemma Kept.rule_block_lt (h : Kept busy w) {r : ℕ × ℕ} (hr : r ∈ w.rules) :
    r.2 < w.wdatas.length := by
  obtain ⟨wdata, hwdata, -⟩ := h.rule r hr
  exact (List.getElem?_eq_some_iff.mp hwdata).1

/-! ## Opening and closing -/

/-- The world behind `ta_xmpp_client_connect`. -/
def WatchWorld.connected (w : WatchWorld U) (result : NetResult) : WatchWorld U :=
  { w with xmpp := (clientConnect w.xmpp result).1 }

/-- The world behind `ta_xmpp_client_disconnect`. -/
def WatchWorld.disconnected (w : WatchWorld U) : WatchWorld U :=
  { dropRules w with xmpp := (clientDisconnect w.xmpp).1 }

/-- A connect makes a new filter. -/
@[simp] lemma filter_connected (w : WatchWorld U) (result : NetResult) :
    (w.connected result).filter = some w.xmpp.filters := by
  show (clientConnect w.xmpp result).1.client.filter = _
  rw [client_clientConnect]

/-- A connect counts one filter more. -/
@[simp] lemma filters_connected (w : WatchWorld U) (result : NetResult) :
    (w.connected result).xmpp.filters = w.xmpp.filters + 1 :=
  filters_clientConnect w.xmpp result

/-- A disconnect leaves no filter. -/
@[simp] lemma filter_disconnected (w : WatchWorld U) : w.disconnected.filter = none := rfl

/-- A new filter has no rules. -/
lemma Kept.not_waits_connected (h : Kept busy w) (result : NetResult) (k : ℕ) :
    ¬ (w.connected result).Waits k := by
  rintro ⟨f, hf, hr⟩
  rw [filter_connected, Option.some.injEq] at hf
  have := h.rule_lt _ hr
  omega

/-- After a disconnect no block waits. -/
lemma not_waits_disconnected (w : WatchWorld U) (k : ℕ) : ¬ w.disconnected.Waits k := by
  rintro ⟨f, hf, -⟩
  simp at hf

/-- A connect keeps all. -/
lemma Kept.connected (h : Kept busy w) (result : NetResult) : Kept busy (w.connected result) := by
  refine h.shrink ?_ ?_ ?_ (List.Sublist.refl _) rfl rfl
    fun k hk => absurd hk (h.not_waits_connected result k)
  · show (clientConnect w.xmpp result).1.client.filter = none ↔
      (clientConnect w.xmpp result).1.client.parser = none
    rw [client_clientConnect]
    simp
  · intro f hf
    rw [filter_connected, Option.some.injEq] at hf
    rw [filters_connected]
    omega
  · rw [filters_connected]
    omega

/-- A disconnect keeps all. -/
lemma Kept.disconnected (h : Kept busy w) : Kept busy w.disconnected :=
  h.shrink (by simp [WatchWorld.disconnected, clientDisconnect, Client.close, WatchWorld.filter])
    (fun f hf => by simp at hf) le_rfl List.filter_sublist rfl rfl
    fun k hk => absurd hk (not_waits_disconnected w k)

/-! ## Sending -/

/-- The world behind a stanza that was sent: a new block waits. -/
def WatchWorld.sent (w : WatchWorld U) (wdata : WatchData U) : WatchWorld U :=
  { w with rules := w.rules ++ [(wdata.rule, w.wdatas.length)], wdatas := w.wdatas ++ [wdata] }

/-- The world behind a stanza that could not be sent: a new block is freed. -/
def WatchWorld.unsent (w : WatchWorld U) (wdata : WatchData U) : WatchWorld U :=
  { w with wdatas := w.wdatas ++ [wdata], log := w.log ++ wdata.freed w.wdatas.length }

/-- **Sending** a stanza with an id makes a new block, which waits or is freed.

**Proof sketch.** With a filter there is a parser. The block gets the next number, and no rule
points at it before; so where the send fails, the rule that is removed is the one that was just
added. -/
lemma sendAndFilter_eq (h : Kept busy w) {f : ℕ} (hf : w.filter = some f) (id : Str)
    (data : Option U) (freeCb : Bool) (result : ℤ) :
    sendAndFilter w (some id) data freeCb result = some
      (if result ≠ iksOk then
        { w.unsent ⟨id, f, data, freeCb⟩ with
          xmpp := { w.xmpp with err := sendFailed, returned := result } }
      else
        { w.sent ⟨id, f, data, freeCb⟩ with xmpp := { w.xmpp with returned := result } }) := by
  obtain ⟨p, hp⟩ : ∃ p, w.xmpp.client.parser = some p := by
    apply Option.ne_none_iff_exists'.mp
    intro hp
    rw [h.both.mpr hp] at hf
    simp at hf
  -- the rule that was just added is the one that is removed
  have hnew : (f, w.wdatas.length) ∉ w.rules := fun hr => (h.rule_block_lt hr).ne rfl
  show w.filter.bind _ = _
  rw [hf, Option.bind_some, hp, Option.bind_some]
  split_ifs
  · simp only [removeRule, List.mem_append, List.mem_singleton, or_true, if_true, Option.map_some,
      List.erase_append_right _ hnew, List.erase_cons_head, List.append_nil]
    rfl
  · rfl

/-- What is found in a list is found in it continued. -/
lemma getElem?_append_of_some {α : Type} {l l' : List α} {i : ℕ} {a : α} (h : l[i]? = some a) :
    (l ++ l')[i]? = some a := by
  rw [List.getElem?_append_left (List.getElem?_eq_some_iff.mp h).1]
  exact h

/-- What is found in a list with one more is found before or is the one. -/
lemma getElem?_concat_cases {α : Type} {l : List α} {i : ℕ} {a b : α}
    (h : (l ++ [a])[i]? = some b) : (i < l.length ∧ l[i]? = some b) ∨ (i = l.length ∧ b = a) := by
  rcases lt_trichotomy i l.length with hi | rfl | hi
  · rw [List.getElem?_append_left hi] at h
    exact Or.inl ⟨hi, h⟩
  · rw [List.getElem?_concat_length] at h
    exact Or.inr ⟨rfl, (Option.some.inj h).symm⟩
  · rw [List.getElem?_eq_none (by simp; omega)] at h
    simp at h

/-- The other blocks have their histories when one could not be sent. -/
lemma history_unsent_of_lt (wdata : WatchData U) {k : ℕ} (hk : k < w.wdatas.length) :
    (w.unsent wdata).history k = w.history k :=
  history_append_other rfl (fun _ he => wdata_of_mem_freed he) hk.ne

/-- The history of a block that could not be sent is its release. -/
lemma Kept.history_unsent_new (h : Kept busy w) (wdata : WatchData U) :
    (w.unsent wdata).history w.wdatas.length = wdata.freed w.wdatas.length := by
  rw [history_append_self rfl fun _ he => wdata_of_mem_freed he]
  show w.history _ ++ _ = _
  rw [h.history_new le_rfl, List.nil_append]

/-- A sent block joins the waiting ones.

**Proof sketch.** The new rule points at the new block, which no old rule does; nothing is
booked, so the histories stay, and the new block has none, as a block that waits. -/
lemma Kept.sent (h : Kept busy w) {wdata : WatchData U} (hf : w.filter = some wdata.rule) :
    Kept busy (w.sent wdata) where
  both := h.both
  filter_lt := h.filter_lt
  rule_lt r hr := by
    rcases List.mem_append.mp hr with hr | hr
    · exact h.rule_lt r hr
    · rw [List.mem_singleton.mp hr]
      exact h.filter_lt _ hf
  rule r hr := by
    rcases List.mem_append.mp hr with hr | hr
    · obtain ⟨wdata', hw, hrule⟩ := h.rule r hr
      exact ⟨wdata', getElem?_append_of_some hw, hrule⟩
    · rw [List.mem_singleton.mp hr]
      exact ⟨wdata, List.getElem?_concat_length, rfl⟩
  nodup := by
    refine List.nodup_append.mpr ⟨h.nodup, List.nodup_singleton _, ?_⟩
    rintro r hr _ hs rfl
    rw [List.mem_singleton.mp hs] at hr
    exact (h.rule_block_lt hr).ne rfl
  log_lt e he := by
    show e.wdata < (w.wdatas ++ [wdata]).length
    rw [List.length_append]
    exact Nat.lt_add_right _ (h.log_lt e he)
  waits k hk hbusy := by
    obtain ⟨f, hf', hr⟩ := hk
    rcases List.mem_append.mp hr with hr | hr
    · exact h.waits k ⟨f, hf', hr⟩ hbusy
    · obtain ⟨rfl, rfl⟩ := Prod.mk.inj (List.mem_singleton.mp hr)
      exact h.history_new le_rfl
  fate k wdata' hw hbusy := by
    rcases getElem?_concat_cases hw with ⟨-, hw⟩ | ⟨rfl, rfl⟩
    · exact h.fate k wdata' hw hbusy
    · show WatchFate wdata' _ (w.history _)
      rw [h.history_new le_rfl]
      exact WatchFate.quiet
  busy k hbusy := by
    obtain ⟨wdata', node, hw, hid, hhist⟩ := h.busy k hbusy
    exact ⟨wdata', node, getElem?_append_of_some hw, hid, hhist⟩

/-- A block that could not be sent is freed.

**Proof sketch.** The rules are the old ones, so the new block does not wait. What is booked is
its release, which is one of the fates a block may have; the others keep theirs. -/
lemma Kept.unsent (h : Kept busy w) (wdata : WatchData U) : Kept busy (w.unsent wdata) where
  both := h.both
  filter_lt := h.filter_lt
  rule_lt := h.rule_lt
  rule r hr := by
    obtain ⟨wdata', hw, hrule⟩ := h.rule r hr
    exact ⟨wdata', getElem?_append_of_some hw, hrule⟩
  nodup := h.nodup
  log_lt e he := by
    show e.wdata < (w.wdatas ++ [wdata]).length
    rw [List.length_append, List.length_singleton]
    rcases List.mem_append.mp he with he | he
    · exact Nat.lt_succ_of_lt (h.log_lt e he)
    · rw [wdata_of_mem_freed he]
      exact Nat.lt_succ_self _
  waits k hk hbusy := by
    obtain ⟨f, hf, hr⟩ := hk
    rw [history_unsent_of_lt wdata (h.rule_block_lt hr)]
    exact h.waits k ⟨f, hf, hr⟩ hbusy
  fate k wdata' hw hbusy := by
    rcases getElem?_concat_cases hw with ⟨hlt, hw⟩ | ⟨rfl, rfl⟩
    · rw [history_unsent_of_lt wdata hlt]
      exact h.fate k wdata' hw hbusy
    · rw [h.history_unsent_new]
      exact WatchFate.failed
  busy k hbusy := by
    obtain ⟨wdata', node, hw, hid, hhist⟩ := h.busy k hbusy
    refine ⟨wdata', node, getElem?_append_of_some hw, hid, ?_⟩
    rw [history_unsent_of_lt wdata (List.getElem?_eq_some_iff.mp hw).1, hhist]

/-! ## Blocks left behind -/

/-- The block has data to release, nothing happened to it, and it does not wait. -/
structure Lost (busy : Option ℕ) (w : WatchWorld U) (k : ℕ) : Prop where
  owned : ∃ wdata, w.wdatas[k]? = some wdata ∧ wdata.owned ≠ none
  idle : busy ≠ some k
  unwatched : ¬ w.Waits k
  quiet : w.history k = []

/-- No block is left behind. -/
def Intact (busy : Option ℕ) (w : WatchWorld U) : Prop := ∀ k, ¬ Lost busy w k

/-- A new client has lost nothing. -/
lemma intact_init (xmpp : XmppWorld) : Intact none (WatchWorld.init xmpp : WatchWorld U) := by
  rintro k ⟨⟨wdata, hw, -⟩, -, -, -⟩
  simp [WatchWorld.init] at hw

/-- What a call of the user leaves alone: the old blocks keep their history, and none of them starts
to wait. -/
structure LeavesAlone (w w' : WatchWorld U) : Prop where
  wdatas : ∀ (k : ℕ) (wdata : WatchData U), w.wdatas[k]? = some wdata → w'.wdatas[k]? = some wdata
  history : ∀ k < w.wdatas.length, w'.history k = w.history k
  waits : ∀ k < w.wdatas.length, w'.Waits k → w.Waits k

/-- **A lost block stays lost.** -/
lemma Lost.mono {k : ℕ} (h : Lost busy w k) (hw : LeavesAlone w w') : Lost busy w' k := by
  obtain ⟨⟨wdata, hwdata, howned⟩, hidle, hunwatched, hquiet⟩ := h
  have hk := (List.getElem?_eq_some_iff.mp hwdata).1
  refine ⟨⟨wdata, hw.wdatas k wdata hwdata, howned⟩, hidle, ?_, ?_⟩
  · exact fun hwaits => hunwatched (hw.waits k hk hwaits)
  · rw [hw.history k hk, hquiet]

/-- What a step that leaves the blocks alone finds lost was lost before. -/
lemma Intact.of_leavesAlone (h : Intact busy w') (hw : LeavesAlone w w') : Intact busy w :=
  fun k hk => h k (hk.mono hw)

/-- A send that succeeds leaves the other blocks alone. -/
lemma leavesAlone_sent (w : WatchWorld U) (wdata : WatchData U) : LeavesAlone w (w.sent wdata) where
  wdatas _ _ h := getElem?_append_of_some h
  history _ _ := rfl
  waits k hk hwaits := by
    obtain ⟨f, hf, hr⟩ := hwaits
    rcases List.mem_append.mp hr with hr | hr
    · exact ⟨f, hf, hr⟩
    · exact absurd (congrArg Prod.snd (List.mem_singleton.mp hr)) hk.ne

/-- A send that fails leaves the other blocks alone. -/
lemma leavesAlone_unsent (w : WatchWorld U) (wdata : WatchData U) :
    LeavesAlone w (w.unsent wdata) where
  wdatas _ _ h := getElem?_append_of_some h
  history _ hk := history_unsent_of_lt wdata hk
  waits _ _ hwaits := hwaits

/-- A connect leaves the blocks alone. -/
lemma Kept.leavesAlone_connected (h : Kept busy w) (result : NetResult) :
    LeavesAlone w (w.connected result) where
  wdatas _ _ h := h
  history _ _ := rfl
  waits k _ hwaits := absurd hwaits (h.not_waits_connected result k)

/-- A disconnect leaves the blocks alone. -/
lemma leavesAlone_disconnected (w : WatchWorld U) : LeavesAlone w w.disconnected where
  wdatas _ _ h := h
  history _ _ := rfl
  waits k _ hwaits := absurd hwaits (not_waits_disconnected w k)

/-- Sending loses no block: the new one waits. -/
lemma intact_sent (h : Intact busy w) {wdata : WatchData U} (hf : w.filter = some wdata.rule) :
    Intact busy (w.sent wdata) := by
  rintro k ⟨⟨wdata', hw, howned⟩, hidle, hunwatched, hquiet⟩
  rcases getElem?_concat_cases hw with ⟨-, hw⟩ | ⟨rfl, rfl⟩
  · refine h k ⟨⟨wdata', hw, howned⟩, hidle, ?_, hquiet⟩
    rintro ⟨f, hf', hr⟩
    exact hunwatched ⟨f, hf', List.mem_append_left _ hr⟩
  · exact hunwatched ⟨_, hf, List.mem_append_right _ (List.mem_singleton_self _)⟩

/-- A stanza that cannot be sent loses no block: the new one is freed. -/
lemma intact_unsent (hk : Kept busy w) (h : Intact busy w) (wdata : WatchData U) :
    Intact busy (w.unsent wdata) := by
  rintro k ⟨⟨wdata', hw, howned⟩, hidle, hunwatched, hquiet⟩
  rcases getElem?_concat_cases hw with ⟨hlt, hw⟩ | ⟨rfl, rfl⟩
  · refine h k ⟨⟨wdata', hw, howned⟩, hidle, hunwatched, ?_⟩
    rw [← hquiet, history_unsent_of_lt wdata hlt]
  · rw [hk.history_unsent_new] at hquiet
    simp [WatchData.freed] at hquiet

/-- A step in which no old block waits any more loses exactly the waiting ones.

**Proof sketch.** A block that waited and had no callback running has no history yet, and after
the step nothing refers to it: it is lost. If there was no such block, a block lost now was not
waiting before either, so it was lost before. -/
lemma intact_of_quiet_iff (hk : Kept busy w) (h : Intact busy w) (hwdatas : w'.wdatas = w.wdatas)
    (hlog : w'.log = w.log) (hwaits : ∀ k, ¬ w'.Waits k) :
    Intact busy w' ↔ NothingWaits busy w := by
  constructor
  · intro h' k wdata hw howned hwait
    by_contra hidle
    refine h' k ⟨⟨wdata, hwdatas ▸ hw, howned⟩, hidle, hwaits k, ?_⟩
    rw [WatchWorld.history, hlog]
    exact hk.waits k hwait hidle
  · rintro hnone k ⟨⟨wdata, hw, howned⟩, hidle, -, hquiet⟩
    rw [hwdatas] at hw
    rw [WatchWorld.history, hlog] at hquiet
    by_cases hwait : w.Waits k
    · exact hidle (hnone k wdata hw howned hwait)
    · exact h k ⟨⟨wdata, hw, howned⟩, hidle, hwait, hquiet⟩

end Taningia
