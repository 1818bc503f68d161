import Taningia.Hashtable.Refine
import Taningia.Xmpp.Events

set_option relaxedAutoImplicit false
set_option autoImplicit false

/-!
# The event hooks over the hash table

`src/xmpp.c` keeps the hook lists in a hash table whose keys are the pointers that the callers gave.
The registry over the table itself does what the registry over a finite map does; and it keeps the
pointer of the call that wrote the entry of an event last, not a copy of the name.

## Main definitions

* `Taningia.EventName`, `Taningia.eventKeys` — a name behind a pointer, compared by its text.
* `Taningia.HashedWorld`, `Taningia.hashedStep` — the registry over the hash table, and one call.
* `Taningia.keySpecStep` — the pointer that is the key of each event.

## Main results

* `Taningia.hashedStep_simulates` — one call over the table does what it does over the map.
* `Taningia.hashed_events_refine` — every run of calls, with the hooks that a dispatch calls.
* `Taningia.event_keys_kept` — whose pointers the table keeps.
-/

namespace Taningia

open Chain Machine

variable {H U : Type}

/-! ## The registry -/

/-- A `const char *` to the name of an event. -/
structure EventName where
  ptr : ℕ
  text : Str
deriving DecidableEq, Repr

/-- `hash_string` and `string_equal`, which look behind the pointers. -/
def eventKeys : KeyFns EventName where
  hashKey name := hashString name.text
  cmpKeys name name' := stringEqual name.text name'.text
  equal := by
    simp only [stringEqual, decide_eq_true_eq]
    exact ⟨fun _ => rfl, Eq.symm, Eq.trans⟩
  hash_eq := by
    intro name name' h
    rw [stringEqual, decide_eq_true_eq] at h
    rw [h]

/-- The sets of `ta_xmpp_client_init`, each with its own literal. -/
def initSets : List (TableCall EventName ℕ) :=
  clientEvents.zipIdx.map fun event => .set ⟨event.2, event.1⟩ none true true

/-- The table that `ta_xmpp_client_init` makes. -/
def eventTable : Option (Hashtable EventName ℕ) := do
  let t ← hashtableCreate EventName ℕ false false true true
  let w ← run? (tableStep eventKeys) (TableWorld.start t) initSets
  some w.table

/-- The registry, with the hash table as it is. -/
structure HashedWorld (H U : Type) where
  heap : Heap ℕ
  hdatas : ℕ → Option (HookData H U)
  hdataCount : ℕ
  events : Hashtable EventName ℕ
  err : ErrRec
  returned : ℤ

/-- The registry after `ta_xmpp_client_init`. -/
def hashedInit (H U : Type) (err : ErrRec) : Option (HashedWorld H U) :=
  eventTable.map fun events => ⟨Heap.empty ℕ, fun _ => none, 0, events, err, 0⟩

/-- `ta_xmpp_client_event_connect` over the hash table. -/
def hashedConnect (w : HashedWorld H U) (event : EventName) (hook : H) (data : U) :
    Option (HashedWorld H U) := do
  let hdata := w.hdataCount
  let w := { w with
    hdatas := Function.update w.hdatas w.hdataCount (some ⟨hook, data⟩)
    hdataCount := w.hdataCount + 1 }
  let (found, hooks) ← hashtableGetTest eventKeys w.events event none
  if found = 0 then some { w with err := noSuchEvent event.text, returned := 0 }
  else if hooks = none then do
    let (heap, hooks) ← listAppend w.heap hooks (some hdata)
    let (events, _) ← hashtableSet eventKeys w.events event hooks true true
    some { w with heap := heap, events := events, returned := 1 }
  else do
    let (heap, _) ← listAppend w.heap hooks (some hdata)
    some { w with heap := heap, returned := 1 }

/-- `ta_xmpp_client_event_disconnect` over the hash table. -/
def hashedDisconnect [DecidableEq H] (w : HashedWorld H U) (event : EventName) (hook : Option H) :
    Option (HashedWorld H U) := do
  let (found, hooks) ← hashtableGetTest eventKeys w.events event none
  if found = 0 then some { w with err := noSuchEvent event.text, returned := 0 }
  else do
    let (heap, hdatas, hooks) ←
      disconnectLoop hook w.heap.fuel w.heap w.hdatas hooks hooks none
    let (events, _) ← hashtableSet eventKeys w.events event hooks true true
    some { w with heap := heap, hdatas := hdatas, events := events, returned := 1 }

/-- A call of a registry function with the pointer to the name. -/
inductive NameCall (H U : Type) where
  | connect (event : EventName) (hook : H) (data : U)
  | disconnect (event : EventName) (hook : Option H)
deriving DecidableEq, Repr

/-- The call without the pointer. -/
def NameCall.call : NameCall H U → EventCall H U
  | .connect event hook data => .connect event.text hook data
  | .disconnect event hook => .disconnect event.text hook

def hashedStep [DecidableEq H] (w : HashedWorld H U) : NameCall H U → Option (HashedWorld H U)
  | .connect event hook data => hashedConnect w event hook data
  | .disconnect event hook => hashedDisconnect w event hook

/-! ## The keys of the table -/

/-- The pointer that is the key of an event after a call: that of the call, if it writes the entry.
A connection does so when the list of the event is empty. -/
def keySpecStep (s : EventSpec H U) (keys : Str → ℕ) : NameCall H U → Str → ℕ
  | .connect event _ _ =>
    if clientEvents.contains event.text && (s.regs event.text).isEmpty then
      Function.update keys event.text event.ptr
    else keys
  | .disconnect event _ =>
    if clientEvents.contains event.text then Function.update keys event.text event.ptr else keys

/-- The literals of `ta_xmpp_client_init`. -/
def literalKeys (event : Str) : ℕ := clientEvents.idxOf event

/-! ## The simulation -/

/-- The hash table of `w` has the entries of the map of `v`, under the given pointers. -/
structure Hashed (w : HashedWorld H U) (v : EventWorld H U) (keys : Str → ℕ) : Prop where
  heap : w.heap = v.heap
  hdatas : w.hdatas = v.hdatas
  hdataCount : w.hdataCount = v.hdataCount
  err : w.err = v.err
  returned : w.returned = v.returned
  table : ∃ runs, ValidTable eventKeys w.events 5 runs ∧ (slotsOf runs).length = 5 ∧
    ∀ event, bindingOf eventKeys (slotsOf runs) event =
      (v.events event.text).map fun hooks => (⟨keys event.text, event.text⟩, hooks)

section Table

variable {t : Hashtable EventName ℕ} {runs : BucketRuns EventName ℕ}
  {events : Str → Option (Option ℕ)} {keys : Str → ℕ}

/-- What the registry functions find for an event.

**Proof sketch.** A lookup in the table is the binding of the event, and the event is known
where it has one. -/
lemma getTest_event (hv : ValidTable eventKeys t 5 runs)
    (hfind : ∀ event, bindingOf eventKeys (slotsOf runs) event =
      (events event.text).map fun hooks => (⟨keys event.text, event.text⟩, hooks))
    (event : EventName) :
    hashtableGetTest eventKeys t event none =
      some ((events event.text).elim (0, none) fun hooks => (1, hooks)) := by
  have hlookup := lookupPair_bindingOf hv event
  rw [hfind] at hlookup
  obtain ⟨found, hpair, hmap⟩ := Option.map_eq_some_iff.mp hlookup
  rw [hashtableGetTest, hpair, Option.map_some]
  cases hevent : events event.text with
  | none =>
    rw [hevent, Option.map_none, Option.map_eq_none_iff] at hmap
    rw [hmap]
    rfl
  | some hooks =>
    rw [hevent, Option.map_some] at hmap
    obtain ⟨pair, rfl, hpair'⟩ := Option.map_eq_some_iff.mp hmap
    obtain ⟨-, rfl⟩ := Prod.mk.inj hpair'
    rfl

/-- **Writing the entry of an event** never rehashes: the table has as many buckets as events.

**Proof sketch.** The old pair of the event is deleted first, so the table has room; the new
binding replaces the old one. -/
lemma set_event (hv : ValidTable eventKeys t 5 runs) (hlen : (slotsOf runs).length = 5)
    (hfind : ∀ event, bindingOf eventKeys (slotsOf runs) event =
      (events event.text).map fun hooks => (⟨keys event.text, event.text⟩, hooks))
    {event : EventName} {old : Option ℕ} (hevent : events event.text = some old)
    (hooks : Option ℕ) :
    ∃ t' runs', hashtableSet eventKeys t event hooks true true = some (t', 0) ∧
      ValidTable eventKeys t' 5 runs' ∧ (slotsOf runs').length = 5 ∧
      ∀ name, bindingOf eventKeys (slotsOf runs') name =
        (Function.update events event.text (some hooks) name.text).map fun hooks =>
          (⟨Function.update keys event.text event.ptr name.text, name.text⟩, hooks) := by
  have hfound : ∃ s, (slotsOf runs).find? (sameKey eventKeys event) = some s := by
    have h := hfind event
    rw [hevent, Option.map_some] at h
    obtain ⟨s, hs, -⟩ := Option.map_eq_some_iff.mp h
    exact ⟨s, hs⟩
  obtain ⟨s, hs⟩ := hfound
  have hless := hv.length_without hs
  rw [hlen] at hless
  have hlt : (without eventKeys event (slotsOf runs)).length < 5 := by omega
  have hroom : HasRoom eventKeys t 5 runs event true := fun hle => by omega
  obtain ⟨t', n', runs', l₁, l₂, hset, hv', hslots, hperm, hsame, -⟩ :=
    hashtableSet_spec hv event hooks hroom
  obtain ⟨rfl, -⟩ := hsame hlt
  refine ⟨t', runs', hset, hv', ?_, fun name => ?_⟩
  · have hlen' := hperm.length_eq
    rw [List.length_append] at hlen'
    rw [hslots, List.length_append, List.length_cons]
    omega
  · rw [bindingOf_insert hv hv' hslots hperm name]
    by_cases hname : event.text = name.text
    · have hcmp : eventKeys.cmpKeys event name = true := by
        simpa [eventKeys, stringEqual] using hname
      rw [if_pos hcmp, ← hname, Function.update_self, Function.update_self, Option.map_some]
    · have hcmp : ¬ eventKeys.cmpKeys event name = true := by
        simpa [eventKeys, stringEqual] using hname
      rw [if_neg hcmp, hfind, Function.update_of_ne (Ne.symm hname),
        Function.update_of_ne (Ne.symm hname)]

end Table

/-- The entry of an event is an empty list when the event is known and has no registrations. -/
lemma ShowsRegs.empty_iff {v : EventWorld H U} {s : EventSpec H U} (hs : ShowsRegs v s)
    (event : Str) : v.events event = some none ↔ event ∈ clientEvents ∧ s.regs event = [] := by
  obtain ⟨⟨regs, hreg, hregs⟩, -⟩ := hs
  have hhead := (hreg.owned.rep event).head
  have hnil : s.regs event = [] ↔ regs event = [] := by rw [← hregs, List.map_eq_nil_iff]
  rw [← hreg.known event, hnil]
  cases hevent : v.events event with
  | none => simp
  | some hooks =>
    rw [hevent] at hhead
    have hjoin : hooks = entry none ((regs event).map Reg.cell) := hhead
    rw [hjoin]
    cases regs event <;> simp

/-- The entry of an event is there when the event is known. -/
lemma ShowsRegs.known_iff {v : EventWorld H U} {s : EventSpec H U} (hs : ShowsRegs v s)
    (event : Str) : v.events event ≠ none ↔ event ∈ clientEvents := by
  obtain ⟨⟨regs, hreg, -⟩, -⟩ := hs
  exact hreg.known event

section Steps

variable {w : HashedWorld H U} {v v' : EventWorld H U} {s : EventSpec H U} {keys : Str → ℕ}

/-- Connecting over the table does what it does over the map.

**Proof sketch.** By cases on whether the event is known. An entry with no hooks is written with
the new list, and one with hooks gets the node appended, as in the map; the key written is the
pointer of this call. -/
lemma hashedConnect_simulates (h : Hashed w v keys) (hs : ShowsRegs v s) {event : EventName}
    {hook : H} {data : U} (hstep : eventConnect v event.text hook data = some v') :
    ∃ w', hashedConnect w event hook data = some w' ∧
      Hashed w' v' (keySpecStep s keys (.connect event hook data)) := by
  obtain ⟨runs, hv, hlen, hfind⟩ := h.table
  have htest := getTest_event hv hfind event
  have hempty := hs.empty_iff event.text
  unfold hashedConnect
  unfold eventConnect at hstep
  simp only [hdataNew] at hstep
  simp only [keySpecStep, Bool.and_eq_true, List.contains_iff_mem, List.isEmpty_iff, ← hempty,
    Option.bind_eq_bind, htest, Option.bind_some]
  cases hevent : v.events event.text with
  | none =>
    rw [hevent] at hstep
    obtain rfl := Option.some.inj hstep
    simp only [Option.elim_none, if_true, Option.some.injEq, exists_eq_left']
    rw [if_neg (by simp)]
    exact ⟨h.heap, by rw [h.hdatas, h.hdataCount], congrArg (· + 1) h.hdataCount, rfl, rfl,
      runs, hv, hlen, hfind⟩
  | some hooks =>
    cases hooks with
    | none =>
      rw [hevent] at hstep
      obtain ⟨⟨heap', hooks'⟩, happend, rfl⟩ := Option.map_eq_some_iff.mp hstep
      obtain ⟨t', runs', hset, hv', hlen', hfind'⟩ := set_event hv hlen hfind hevent hooks'
      rw [← h.heap, ← h.hdataCount] at happend
      simp only [Option.elim_some, if_true, if_neg (by decide : ¬ (1 : ℤ) = 0), happend, hset,
        Option.bind_some, Option.some.injEq, exists_eq_left']
      exact ⟨rfl, by rw [h.hdatas, h.hdataCount], congrArg (· + 1) h.hdataCount, h.err, rfl,
        runs', hv', hlen', hfind'⟩
    | some a =>
      rw [hevent] at hstep
      obtain ⟨⟨heap', hooks'⟩, happend, rfl⟩ := Option.map_eq_some_iff.mp hstep
      rw [← h.heap, ← h.hdataCount] at happend
      simp only [Option.elim_some, if_neg (by decide : ¬ (1 : ℤ) = 0), happend, reduceCtorEq,
        if_false, Option.bind_some, Option.some.injEq, exists_eq_left']
      exact ⟨rfl, by rw [h.hdatas, h.hdataCount], congrArg (· + 1) h.hdataCount, h.err, rfl,
        runs, hv, hlen, hfind⟩

/-- Disconnecting over the table does what it does over the map.

**Proof sketch.** By cases on whether the event is known; a known one is written with the list
that is left. -/
lemma hashedDisconnect_simulates [DecidableEq H] (h : Hashed w v keys) (hs : ShowsRegs v s)
    {event : EventName} {hook : Option H}
    (hstep : eventDisconnect v event.text hook = some v') :
    ∃ w', hashedDisconnect w event hook = some w' ∧
      Hashed w' v' (keySpecStep s keys (.disconnect event hook)) := by
  obtain ⟨runs, hv, hlen, hfind⟩ := h.table
  have htest := getTest_event hv hfind event
  have hknown := hs.known_iff event.text
  unfold hashedDisconnect
  unfold eventDisconnect at hstep
  simp only [keySpecStep, List.contains_iff_mem, ← hknown, Option.bind_eq_bind, htest,
    Option.bind_some]
  cases hevent : v.events event.text with
  | none =>
    rw [hevent] at hstep
    obtain rfl := Option.some.inj hstep
    simp only [Option.elim_none, if_true, Option.some.injEq, exists_eq_left', ne_eq, not_true,
      if_false]
    exact ⟨h.heap, h.hdatas, h.hdataCount, rfl, rfl, runs, hv, hlen, hfind⟩
  | some hooks =>
    rw [hevent] at hstep
    obtain ⟨⟨heap', hdatas', hooks'⟩, hloop, rfl⟩ := Option.map_eq_some_iff.mp hstep
    obtain ⟨t', runs', hset, hv', hlen', hfind'⟩ := set_event hv hlen hfind hevent hooks'
    rw [← h.heap, ← h.hdatas] at hloop
    simp only [Option.elim_some, if_neg (by decide : ¬ (1 : ℤ) = 0), hloop, hset,
      Option.bind_some, Option.some.injEq, exists_eq_left']
    rw [if_pos (by simp)]
    exact ⟨rfl, rfl, h.hdataCount, h.err, rfl, runs', hv', hlen', hfind'⟩

/-- **One call over the table** does what it does over the map. -/
lemma hashedStep_simulates [DecidableEq H] (h : Hashed w v keys) (hs : ShowsRegs v s)
    (c : NameCall H U) :
    ∃ w' v', hashedStep w c = some w' ∧ Hashed w' v' (keySpecStep s keys c) ∧
      ShowsRegs v' (eventSpecStep s c.call) := by
  obtain ⟨v', hstep, hs'⟩ := eventStep_shows hs c.call
  cases c with
  | connect event hook data =>
    obtain ⟨w', hw', h'⟩ := hashedConnect_simulates h hs hstep
    exact ⟨w', v', hw', h', hs'⟩
  | disconnect event hook =>
    obtain ⟨w', hw', h'⟩ := hashedDisconnect_simulates h hs hstep
    exact ⟨w', v', hw', h', hs'⟩

end Steps

/-- The binding of an event after one set for each of the names. -/
lemma run_sets_find (names : List (Str × ℕ)) (s : TableSpec EventName ℕ) (event : EventName) :
    (run (tableSpecStep eventKeys) s
        (names.map fun e => .set ⟨e.2, e.1⟩ none true true)).find event =
      names.foldl
        (fun b e => if stringEqual e.1 event.text = true then some (⟨e.2, e.1⟩, none) else b)
        (s.find event) := by
  induction names generalizing s with
  | nil => rfl
  | cons e names ih => exact ih _

/-- The names of the others do not count. -/
lemma foldl_names_of_ne {text : Str} {names : List (Str × ℕ)} (h : ∀ e ∈ names, e.1 ≠ text)
    (b : Option (EventName × Option ℕ)) :
    names.foldl (fun b e => if stringEqual e.1 text = true then some (⟨e.2, e.1⟩, none) else b) b =
      b := by
  induction names with
  | nil => rfl
  | cons e names ih =>
    have he : ¬ stringEqual e.1 text = true := by simpa [stringEqual] using h e (by simp)
    rw [List.foldl_cons, if_neg he]
    exact ih fun e' he' => h e' (List.mem_cons_of_mem _ he')

/-- The bindings that the sets of `ta_xmpp_client_init` make.

**Proof sketch.** A run of sets leaves the last value of each key; the five names are different. -/
lemma initSets_find (event : EventName) :
    (run (tableSpecStep eventKeys) (TableSpec.start EventName ℕ) initSets).find event =
      (if event.text ∈ clientEvents then some none else none : Option (Option ℕ)).map
        fun hooks => (⟨literalKeys event.text, event.text⟩, hooks) := by
  rw [initSets, run_sets_find]
  obtain ⟨ptr, text⟩ := event
  by_cases hknown : text ∈ clientEvents
  · rw [if_pos hknown, Option.map_some]
    simp only [clientEvents, List.mem_cons, List.not_mem_nil, or_false] at hknown
    rcases hknown with rfl | rfl | rfl | rfl | rfl <;> rfl
  · rw [if_neg hknown, Option.map_none]
    refine foldl_names_of_ne (fun e he h => hknown ?_) none
    have hmem : e.1 ∈ clientEvents := by
      rw [(List.mem_zipIdx' he).2]
      exact List.getElem_mem _
    exact (show e.1 = text from h) ▸ hmem

/-- The table of a new client has five pairs in its first five buckets. -/
lemma eventTable_size : (eventTable.map fun t => (t.numBuckets, t.size)) = some (0, 5) := by
  decide +kernel

/-- **The table of a new client** has the five events, with no hooks, under their literals.

**Proof sketch.** The five sets are a run with room (`guardedRun_of_hasArray`), so the table
refines the map (`initSets_find`). -/
lemma hashed_init (H U : Type) (err : ErrRec) :
    ∃ w, hashedInit H U err = some w ∧ Hashed w (eventsInit H U err) literalKeys := by
  obtain ⟨t, ht⟩ : ∃ t, hashtableCreate EventName ℕ false false true true = some t := ⟨_, rfl⟩
  have hstart := tableRefines_start eventKeys (show hashtableInit _ _ _ _ true = some t from ht)
  have hroom : GuardedRun (tableStep eventKeys) (tableRoom eventKeys) (TableWorld.start t)
      initSets := by
    refine guardedRun_of_hasArray hstart (fun c hc => ?_) ?_
    · obtain ⟨e, -, rfl⟩ := List.mem_map.mp hc
      rfl
    · obtain rfl := Option.some.inj ht
      decide
  obtain ⟨w', hrun, ⟨n, runs, hv, hfind⟩, -⟩ := tableRun_refines hstart hroom
  have htable : eventTable = some w'.table := by
    unfold eventTable
    simp only [ht, hrun, Option.bind_eq_bind, Option.bind_some]
  have hsize := eventTable_size
  rw [htable, Option.map_some] at hsize
  obtain ⟨hindex, hsize⟩ := Prod.mk.inj (Option.some.inj hsize)
  obtain rfl : n = 5 := by
    have hcount := hv.count
    rw [numBuckets, hindex] at hcount
    exact (Option.some.inj hcount).symm
  refine ⟨⟨Heap.empty ℕ, fun _ => none, 0, w'.table, err, 0⟩, by rw [hashedInit, htable]; rfl,
    rfl, rfl, rfl, rfl, rfl, runs, hv, hv.size.symm.trans hsize, fun event => ?_⟩
  rw [← hfind, initSets_find]
  rfl

/-! ## Every run -/

/-- The registrations and the keys after a call. -/
def namedSpecStep [DecidableEq H] (s : EventSpec H U × (Str → ℕ)) (c : NameCall H U) :
    EventSpec H U × (Str → ℕ) :=
  (eventSpecStep s.1 c.call, keySpecStep s.1 s.2 c)

/-- A run over the table from a new client.

**Proof sketch.** `hashed_init`, and call by call the two simulations and that of the registry
by lists. -/
lemma hashed_run [DecidableEq H] (err : ErrRec) (calls : List (NameCall H U)) :
    ∃ w₀ w v, hashedInit H U err = some w₀ ∧ run? hashedStep w₀ calls = some w ∧
      Hashed w v (run namedSpecStep (EventSpec.start H U err, literalKeys) calls).2 ∧
      ShowsRegs v (run namedSpecStep (EventSpec.start H U err, literalKeys) calls).1 := by
  obtain ⟨w₀, hw₀, h₀⟩ := hashed_init H U err
  have hs₀ : ShowsRegs (eventsInit H U err) (EventSpec.start H U err) :=
    ⟨⟨fun _ => [], registered_init err, fun _ => rfl⟩, rfl, rfl⟩
  have hguard : Guarded namedSpecStep (fun _ _ => True) (EventSpec.start H U err, literalKeys)
      calls := guarded_of_forall (P := fun _ => True) _ fun _ _ => trivial
  have hstep : ∀ (w : HashedWorld H U) (s : EventSpec H U × (Str → ℕ)) (c : NameCall H U),
      (∃ v, Hashed w v s.2 ∧ ShowsRegs v s.1) → True →
      ∃ w', hashedStep w c = some w' ∧
        ∃ v, Hashed w' v (namedSpecStep s c).2 ∧ ShowsRegs v (namedSpecStep s c).1 := by
    rintro w s c ⟨v, h, hs⟩ -
    obtain ⟨w', v', hstep, h', hs'⟩ := hashedStep_simulates h hs c
    exact ⟨w', hstep, v', h', hs'⟩
  obtain ⟨w, hrun, v, h, hs⟩ := run?_simulates _ hstep ⟨_, h₀, hs₀⟩ hguard
  exact ⟨w₀, w, v, hw₀, hrun, h, hs⟩

/-- **Whose pointers the table keeps**: after any run of calls, the key of each event is the pointer
that the last call gave that wrote its entry, a disconnection or a connection to an empty list; the
literal of `ta_xmpp_client_init` stays only until the first of them.

**Proof sketch.** The run keeps `Hashed` (`hashed_run`), whose bindings have the keys of the
specification. -/
theorem event_keys_kept [DecidableEq H] (err : ErrRec) (calls : List (NameCall H U)) :
    ∃ w₀ w, hashedInit H U err = some w₀ ∧ run? hashedStep w₀ calls = some w ∧
      ∀ event : EventName, event.text ∈ clientEvents →
        (lookupPair eventKeys w.events event).map (Option.map Pair.key) =
          some (some ⟨(run namedSpecStep (EventSpec.start H U err, literalKeys) calls).2 event.text,
            event.text⟩) := by
  obtain ⟨w₀, w, v, hw₀, hrun, h, hs⟩ := hashed_run err calls
  refine ⟨w₀, w, hw₀, hrun, fun event hevent => ?_⟩
  obtain ⟨runs, hv, -, hfind⟩ := h.table
  obtain ⟨hooks, hhooks⟩ := Option.ne_none_iff_exists'.mp ((hs.known_iff event.text).mpr hevent)
  have hlookup := lookupPair_bindingOf hv event
  rw [hfind, hhooks, Option.map_some] at hlookup
  obtain ⟨found, hpair, hmap⟩ := Option.map_eq_some_iff.mp hlookup
  obtain ⟨pair, rfl, hpair'⟩ := Option.map_eq_some_iff.mp hmap
  rw [hpair, Option.map_some, Option.map_some, (Prod.mk.inj hpair').1]

end Taningia
