import Taningia.Error
import Taningia.LinkedList.Refine

set_option relaxedAutoImplicit false
set_option autoImplicit false

/-!
# The event hooks of an XMPP client

`src/xmpp.c`: a client has a hash table from event names to hook lists, with an entry for each of
its five events from the start. Connecting a hook appends to the list of the event in place;
disconnecting removes nodes while it iterates over them, and stores the new head. The hash table is
a finite map on strings, and hooks do not change the registrations.

## Main definitions

* `Taningia.EventWorld`, `Taningia.eventStep` — the registry on the heap, and one call.
* `Taningia.callEventHooks` — running the hooks of an event.
* `Taningia.eventSpecStep`, `Taningia.dispatchSpec` — the registry as a list for each event.

## Main results

* `Taningia.disconnectLoop_spec` — the loop that removes nodes under its own feet.
* `Taningia.events_refine` — every run of calls runs the hooks of the specification.
-/

namespace Taningia

open Chain

variable {H U : Type}

/-! ## The registry -/

/-- `struct hook_data`. The event functions give it no free function. -/
structure HookData (H U : Type) where
  hook : H
  data : U
deriving DecidableEq, Repr

/-- The nodes of the hook lists, the `hook_data` blocks with their number so far, the event table,
the error record of the thread, and the last return value. -/
structure EventWorld (H U : Type) where
  heap : Heap ℕ
  hdatas : ℕ → Option (HookData H U)
  hdataCount : ℕ
  events : Str → Option (Option ℕ)
  err : ErrRec
  returned : ℤ

/-- The events that `ta_xmpp_client_init` puts into the table. -/
def clientEvents : List Str :=
  ["connected".toList, "authenticated".toList, "authentication-failed".toList,
    "message-received".toList, "presence-noticed".toList]

/-- The registry after `ta_xmpp_client_init`: an empty list for each event. -/
def eventsInit (H U : Type) (err : ErrRec) : EventWorld H U where
  heap := Heap.empty ℕ
  hdatas _ := none
  hdataCount := 0
  events event := if event ∈ clientEvents then some none else none
  err := err
  returned := 0

/-- The error of a call with an unknown event. -/
def noSuchEvent (event : Str) : ErrRec :=
  errorSet xmppNoSuchEventError ("XMPP client has no event called ".toList ++ event)

/-- `hdata_new`. -/
def hdataNew (w : EventWorld H U) (hook : H) (data : U) : ℕ × EventWorld H U :=
  (w.hdataCount, { w with
    hdatas := Function.update w.hdatas w.hdataCount (some ⟨hook, data⟩)
    hdataCount := w.hdataCount + 1 })

/-- `ta_xmpp_client_event_connect`. The block for the hook is made before the event is looked up;
the table is written only when the list was empty, as appending keeps the head. -/
def eventConnect (w : EventWorld H U) (event : Str) (hook : H) (data : U) :
    Option (EventWorld H U) :=
  let (hdata, w) := hdataNew w hook data
  match w.events event with
  | none => some { w with err := noSuchEvent event, returned := 0 }
  | some none =>
    (listAppend w.heap none (some hdata)).map fun (heap, hooks) =>
      { w with
        heap := heap
        events := Function.update w.events event (some hooks)
        returned := 1 }
  | some hooks =>
    (listAppend w.heap hooks (some hdata)).map fun (heap, _) =>
      { w with heap := heap, returned := 1 }

/-- `hdata_free`. -/
def hdataFree (hdatas : ℕ → Option (HookData H U)) (hdata : Option ℕ) :
    Option (ℕ → Option (HookData H U)) :=
  hdata.bind fun a => (hdatas a).map fun _ => Function.update hdatas a none

/-- The test of the loop in `ta_xmpp_client_event_disconnect`: whether an element is kept. Only a
hook that is not `NULL` is compared. -/
def keepsHook [DecidableEq H] (hdatas : ℕ → Option (HookData H U)) (hook : Option H)
    (data : Option ℕ) : Option Bool :=
  match hook with
  | none => some false
  | some hook => (data.bind hdatas).map fun hdata => decide (hdata.hook ≠ hook)

/-- The removal of one element in the loop of `ta_xmpp_client_event_disconnect`: the node that
`removed` points at is freed with its block. -/
def removeHook (heap : Heap ℕ) (hdatas : ℕ → Option (HookData H U)) (hooks removed : Option ℕ)
    (data : Option ℕ) : Option (Heap ℕ × (ℕ → Option (HookData H U)) × Option ℕ × Option ℕ) :=
  (listRemove heap hooks data removed).bind fun (heap, hooks, removed) =>
    match removed with
    | some r =>
      (heap.cells r).bind fun c =>
        (hdataFree hdatas c.data).map fun hdatas => (heap.free r, hdatas, hooks, removed)
    | none => some (heap, hdatas, hooks, removed)

/-- The loop of `ta_xmpp_client_event_disconnect` at `tmp`. -/
def disconnectLoop [DecidableEq H] (hook : Option H) :
    ℕ → Heap ℕ → (ℕ → Option (HookData H U)) → Option ℕ → Option ℕ → Option ℕ →
    Option (Heap ℕ × (ℕ → Option (HookData H U)) × Option ℕ)
  | 0, _, _, _, _, _ => none
  | _ + 1, heap, hdatas, hooks, none, _ => some (heap, hdatas, hooks)
  | fuel + 1, heap, hdatas, hooks, some elm, removed =>
    (heap.cells elm).bind fun c =>
      (keepsHook hdatas hook c.data).bind fun keeps =>
        if keeps then disconnectLoop hook fuel heap hdatas hooks c.next removed
        else
          (removeHook heap hdatas hooks removed c.data).bind fun (heap, hdatas, hooks, removed) =>
            disconnectLoop hook fuel heap hdatas hooks c.next removed

/-- `ta_xmpp_client_event_disconnect`; `none` is a `NULL` hook. -/
def eventDisconnect [DecidableEq H] (w : EventWorld H U) (event : Str) (hook : Option H) :
    Option (EventWorld H U) :=
  match w.events event with
  | none => some { w with err := noSuchEvent event, returned := 0 }
  | some hooks =>
    (disconnectLoop hook w.heap.fuel w.heap w.hdatas hooks hooks none).map
      fun (heap, hdatas, hooks) =>
        { w with
          heap := heap
          hdatas := hdatas
          events := Function.update w.events event (some hooks)
          returned := 1 }

/-- One hook of `_ta_xmpp_client_call_event_hooks`: it is called with its own data, and a result
other than `0` ends the loop. The answer may depend on the hooks called before; a dangling
`hook_data` is a fault. -/
def callHook (hdatas : ℕ → Option (HookData H U)) (answer : List (H × U) → H × U → ℤ)
    (called : List (H × U)) (_node : ℕ) (data : Option ℕ) :
    Except (Option (List (H × U))) (List (H × U)) :=
  match data.bind hdatas with
  | none => .error none
  | some hdata =>
    if answer called (hdata.hook, hdata.data) ≠ 0 then
      .error (some (called ++ [(hdata.hook, hdata.data)]))
    else .ok (called ++ [(hdata.hook, hdata.data)])

/-- `_ta_xmpp_client_call_event_hooks`: the hooks called, with their data, in order. -/
def callEventHooks (w : EventWorld H U) (answer : List (H × U) → H × U → ℤ) (event : Str) :
    Option (List (H × U)) :=
  (walk w.heap.cells Cell.next (callHook w.hdatas answer) some w.heap.fuel
    (w.events event).join []).join

/-- A call of a registry function. -/
inductive EventCall (H U : Type) where
  | connect (event : Str) (hook : H) (data : U)
  | disconnect (event : Str) (hook : Option H)
deriving DecidableEq, Repr

def eventStep [DecidableEq H] (w : EventWorld H U) : EventCall H U → Option (EventWorld H U)
  | .connect event hook data => eventConnect w event hook data
  | .disconnect event hook => eventDisconnect w event hook

/-! ## The specification -/

/-- The registrations of each event in the order they were made, the error record, and the last
return value. -/
structure EventSpec (H U : Type) where
  regs : Str → List (H × U)
  err : ErrRec
  returned : ℤ

def EventSpec.start (H U : Type) (err : ErrRec) : EventSpec H U := ⟨fun _ => [], err, 0⟩

/-- A call with an unknown event. -/
def EventSpec.unknown (s : EventSpec H U) (event : Str) : EventSpec H U :=
  { s with err := noSuchEvent event, returned := 0 }

/-- A call that changes the registrations of one event. -/
def EventSpec.set (s : EventSpec H U) (event : Str) (regs : List (H × U)) : EventSpec H U :=
  { s with regs := Function.update s.regs event regs, returned := 1 }

/-- What each call is for. -/
def eventSpecStep [DecidableEq H] (s : EventSpec H U) : EventCall H U → EventSpec H U
  | .connect event hook data =>
    if event ∈ clientEvents then s.set event (s.regs event ++ [(hook, data)])
    else s.unknown event
  | .disconnect event none =>
    if event ∈ clientEvents then s.set event [] else s.unknown event
  | .disconnect event (some hook) =>
    if event ∈ clientEvents then s.set event ((s.regs event).filter fun r => r.1 ≠ hook)
    else s.unknown event

/-- The hooks that a dispatch calls: all of them in order, up to the first that does not answer
`0`. -/
def dispatchSpec (answer : List (H × U) → H × U → ℤ) : List (H × U) → List (H × U) → List (H × U)
  | called, [] => called
  | called, r :: regs =>
    if answer called r ≠ 0 then called ++ [r] else dispatchSpec answer (called ++ [r]) regs

/-! ## The loop of the disconnection -/

/-- A registration as it is stored: its list node, its `hook_data` block, and what is in it. -/
structure Reg (H U : Type) where
  node : ℕ
  ptr : ℕ
  hook : H
  data : U

/-- The list node of a registration, with its data pointer. -/
def Reg.cell (r : Reg H U) : ℕ × Option ℕ := (r.node, some r.ptr)

/-- The registration of the specification. -/
def Reg.value (r : Reg H U) : H × U := (r.hook, r.data)

/-- Whether a disconnection keeps the registration. -/
def Reg.keeps [DecidableEq H] (hook : Option H) (r : Reg H U) : Bool :=
  hook.any fun h => decide (r.hook ≠ h)

/-- The nodes of registrations. -/
@[simp] lemma addrs_map_cell (rs : List (Reg H U)) :
    addrs (rs.map Reg.cell) = rs.map Reg.node := by
  simp only [addrs, List.map_map]
  rfl

/-- The blocks of registrations. -/
lemma snd_map_cell (rs : List (Reg H U)) :
    (rs.map Reg.cell).map Prod.snd = (rs.map Reg.ptr).map some := by
  simp only [List.map_map]
  rfl

/-- The comparison of a registration with the hook to remove. -/
lemma keepsHook_eq [DecidableEq H] {hdatas : ℕ → Option (HookData H U)} {r : Reg H U}
    (hlive : hdatas r.ptr = some ⟨r.hook, r.data⟩) (hook : Option H) :
    keepsHook hdatas hook (some r.ptr) = some (r.keeps hook) := by
  cases hook with
  | none => rfl
  | some hook => simp [keepsHook, Reg.keeps, hlive]

/-- The registrations around one of a list have other blocks. -/
lemma ptr_ne_of_nodup {kept rest : List (Reg H U)} {r : Reg H U}
    (h : ((kept ++ r :: rest).map Reg.ptr).Nodup) {x : Reg H U} (hx : x ∈ kept ++ rest) :
    x.ptr ≠ r.ptr := by
  intro e
  rw [List.map_append, List.map_cons] at h
  refine (List.nodup_cons.mp (List.perm_middle.nodup_iff.mp h)).1 ?_
  rw [← e, ← List.map_append]
  exact List.mem_map_of_mem hx

/-- A registration is at one place of a list only. -/
lemma node_not_mem_of_nodup {kept rest : List (Reg H U)} {r : Reg H U}
    (h : (addrs ((kept ++ r :: rest).map Reg.cell)).Nodup) :
    r.node ∉ (kept ++ rest).map Reg.node := by
  rw [addrs_map_cell, List.map_append, List.map_cons] at h
  rw [List.map_append]
  exact (List.nodup_cons.mp (List.perm_middle.nodup_iff.mp h)).1

/-- The removal takes the element itself out of the list, and frees it with its block.

**Proof sketch.** `ta_list_remove` looks for the block of the registration, which no other node
of the list has, so it finds this node; its node and block are then freed. -/
lemma removeHook_spec {kept rest : List (Reg H U)} {r : Reg H U} {heap : Heap ℕ}
    {hdatas : ℕ → Option (HookData H U)} {hooks : Option ℕ}
    (hr : Rep heap hooks ((kept ++ r :: rest).map Reg.cell))
    (hlive : hdatas r.ptr = some ⟨r.hook, r.data⟩)
    (hdistinct : ((kept ++ r :: rest).map Reg.ptr).Nodup) (removed : Option ℕ) :
    ∃ heap', removeHook heap hdatas hooks removed (some r.ptr) =
        some (heap', Function.update hdatas r.ptr none,
          entry none ((kept ++ rest).map Reg.cell), some r.node) ∧
      Moves heap heap' ((kept ++ r :: rest).map Reg.node) ((kept ++ rest).map Reg.cell) ∧
      heap'.cells r.node = none := by
  have hlist : (kept ++ r :: rest).map Reg.cell =
      kept.map Reg.cell ++ r.cell :: rest.map Reg.cell := by simp
  have hfirst : r.cell.2 ∉ (kept.map Reg.cell).map Prod.snd := by
    rw [snd_map_cell]
    intro hmem
    obtain ⟨p, hp, hpr⟩ := List.mem_map.mp hmem
    obtain ⟨x, hx, rfl⟩ := List.mem_map.mp hp
    exact ptr_ne_of_nodup hdistinct (List.mem_append_left rest hx) (Option.some.inj hpr)
  have hr' := hr
  rw [hlist] at hr'
  obtain ⟨heap', heq, hm, hkeep⟩ := listRemove_found hr' hfirst removed
  have hcell : heap'.cells r.node = _ := hkeep.trans hr'.seg.cell_at
  rw [← hlist, addrs_map_cell, ← List.map_append] at hm
  have hout : r.node ∉ addrs ((kept ++ rest).map Reg.cell) := by
    rw [addrs_map_cell]
    exact node_not_mem_of_nodup hr.nodup
  refine ⟨heap'.free r.node, ?_, hm.free (by simp) hout, Function.update_self _ _ _⟩
  have hremove : listRemove heap hooks (some r.ptr) removed =
      some (heap', entry none ((kept ++ rest).map Reg.cell), some r.node) := by
    rw [List.map_append]
    exact heq
  unfold removeHook
  rw [hremove, Option.bind_some]
  simp only [hcell, Option.bind_some, hdataFree, Reg.cell, hlive, Option.map_some]

/-- **The loop of the disconnection** removes exactly the registrations it does not keep, with their
blocks, and frees their nodes: `kept` is what it has passed, `rest` what is left.

**Proof sketch.** Induction on `rest`. The next element is read before the current one is removed,
so it is the head of what is left; the removal finds the current element itself, because the blocks
of a list are different. -/
lemma disconnectLoop_spec [DecidableEq H] (hook : Option H) {rest : List (Reg H U)} :
    ∀ {kept : List (Reg H U)} {heap : Heap ℕ} {hdatas : ℕ → Option (HookData H U)}
      {hooks : Option ℕ} {fuel : ℕ},
      Rep heap hooks ((kept ++ rest).map Reg.cell) →
      (∀ r ∈ kept ++ rest, hdatas r.ptr = some ⟨r.hook, r.data⟩) →
      ((kept ++ rest).map Reg.ptr).Nodup → rest.length < fuel → ∀ removed,
      ∃ heap' hdatas', disconnectLoop hook fuel heap hdatas hooks (entry none (rest.map Reg.cell))
          removed = some (heap', hdatas',
            entry none ((kept ++ rest.filter (Reg.keeps hook)).map Reg.cell)) ∧
        Moves heap heap' ((kept ++ rest).map Reg.node)
          ((kept ++ rest.filter (Reg.keeps hook)).map Reg.cell) ∧
        (∀ p, (∀ r ∈ rest, r.keeps hook = false → r.ptr ≠ p) → hdatas' p = hdatas p) ∧
        ∀ r ∈ rest, r.keeps hook = false → heap'.cells r.node = none := by
  induction rest with
  | nil =>
    intro kept heap hdatas hooks fuel hr _ _ hfuel removed
    obtain ⟨fuel, rfl⟩ : ∃ n, fuel = n + 1 := ⟨fuel - 1, by omega⟩
    refine ⟨heap, hdatas, ?_, ?_, fun _ _ => rfl, fun x hx => nomatch hx⟩
    · rw [hr.head]
      simp [disconnectLoop]
    · simpa using hr.moves
  | cons r rest ih =>
    intro kept heap hdatas hooks fuel hr hlive hdistinct hfuel removed
    obtain ⟨fuel, rfl⟩ : ∃ n, fuel = n + 1 := ⟨fuel - 1, by omega⟩
    have hlen : rest.length < fuel := by
      rw [List.length_cons] at hfuel
      omega
    have hlist : (kept ++ r :: rest).map Reg.cell =
        kept.map Reg.cell ++ (r.node, some r.ptr) :: rest.map Reg.cell := by
      rw [List.map_append, List.map_cons]
      rfl
    have hcell := (hlist ▸ hr).seg.cell_at
    have hkeeps := keepsHook_eq (hlive r (by simp)) hook
    rw [List.map_cons, entry_cons]
    show ∃ heap' hdatas', disconnectLoop hook (fuel + 1) heap hdatas hooks (some r.node) removed =
      _ ∧ _
    rw [disconnectLoop, hcell, Option.bind_some, hkeeps, Option.bind_some]
    cases hk : r.keeps hook with
    | true =>
      have hsplit : kept ++ r :: rest = (kept ++ [r]) ++ rest := by simp
      rw [hsplit] at hr hlive hdistinct
      obtain ⟨heap', hdatas', heq, hm, hkeep, hfrees⟩ := ih hr hlive hdistinct hlen removed
      have hfilter : kept ++ (r :: rest).filter (Reg.keeps hook) =
          (kept ++ [r]) ++ rest.filter (Reg.keeps hook) := by
        rw [List.filter_cons_of_pos hk]
        simp
      refine ⟨heap', hdatas', ?_, ?_, fun p hp => hkeep p fun x hx => hp x (by simp [hx]), ?_⟩
      · rw [if_pos rfl, heq, hfilter]
      · rw [hfilter, hsplit]
        exact hm
      · intro x hx hgone
        rcases List.mem_cons.mp hx with rfl | hx
        · rw [hk] at hgone
          cases hgone
        · exact hfrees x hx hgone
    | false =>
      obtain ⟨heap₁, heq₁, hm₁, hfreed⟩ :=
        removeHook_spec hr (hlive r (by simp)) hdistinct removed
      have hsub : List.Sublist (kept ++ rest) (kept ++ r :: rest) := by simp
      have hlive' : ∀ x ∈ kept ++ rest,
          Function.update hdatas r.ptr none x.ptr = some ⟨x.hook, x.data⟩ := by
        intro x hx
        rw [Function.update_of_ne (ptr_ne_of_nodup hdistinct hx)]
        exact hlive x (hsub.subset hx)
      obtain ⟨heap', hdatas', heq, hm, hkeep, hfrees⟩ := ih hm₁.rep hlive'
        (hdistinct.sublist (hsub.map _)) hlen (some r.node)
      have hfilter : (r :: rest).filter (Reg.keeps hook) = rest.filter (Reg.keeps hook) :=
        List.filter_cons_of_neg (by simp [hk])
      refine ⟨heap', hdatas', ?_, ?_, fun p hp => ?_, fun x hx hgone => ?_⟩
      · rw [if_neg (by simp), heq₁, Option.bind_some, hfilter]
        exact heq
      · rw [hfilter]
        rw [← addrs_map_cell] at hm
        exact hm₁.trans hm
      · rw [hkeep p fun x hx => hp x (by simp [hx])]
        exact Function.update_of_ne (hp r (by simp) hk).symm _ _
      · rcases List.mem_cons.mp hx with rfl | hx
        · -- a node that is in no list any more stays free
          have hmem : x.node ∈ addrs ((kept ++ x :: rest).map Reg.cell) := by
            rw [addrs_map_cell]
            exact List.mem_map_of_mem (by simp)
          have hbound : x.node < heap₁.size := (hr.bound x.node hmem).trans_le hm₁.grows
          rw [hm.frame x.node hbound (node_not_mem_of_nodup hr.nodup), hfreed]
        · exact hfrees x hx hgone

/-! ## The registry and its specification -/

/-- The registrations that the registry holds: each list of the table is a chain through their
nodes, and no two of them share a block. -/
structure Registered (w : EventWorld H U) (regs : Str → List (Reg H U)) : Prop where
  owned : Owned w.heap (fun e => (w.events e).join) (fun e => (regs e).map Reg.cell)
  known : ∀ e, w.events e ≠ none ↔ e ∈ clientEvents
  live : ∀ e, ∀ r ∈ regs e, w.hdatas r.ptr = some ⟨r.hook, r.data⟩
  bound : ∀ e, ∀ r ∈ regs e, r.ptr < w.hdataCount
  distinct : ∀ e, ((regs e).map Reg.ptr).Nodup
  apart : ∀ e e', e ≠ e' → ∀ r ∈ regs e, ∀ r' ∈ regs e', r.ptr ≠ r'.ptr

/-- The registry shows what the specification says. -/
def ShowsRegs (w : EventWorld H U) (s : EventSpec H U) : Prop :=
  (∃ regs, Registered w regs ∧ ∀ e, (regs e).map Reg.value = s.regs e) ∧
    w.err = s.err ∧ w.returned = s.returned

/-- A new client has no registrations. -/
lemma registered_init (err : ErrRec) : Registered (eventsInit H U err) fun _ => [] where
  owned := by
    refine ⟨fun e => ⟨?_, trivial, List.nodup_nil, by simp⟩, fun e e' _ a ha => by cases ha⟩
    show (if e ∈ clientEvents then some none else none : Option (Option ℕ)).join = none
    split <;> rfl
  known e := by
    show (if e ∈ clientEvents then some none else none : Option (Option ℕ)) ≠ none ↔ _
    split <;> simp_all
  live _ _ hr := by cases hr
  bound _ _ hr := by cases hr
  distinct _ := List.nodup_nil
  apart _ _ _ _ hr := by cases hr

/-- The fuel is enough for the registrations of an event. -/
lemma Registered.length_lt_fuel {w : EventWorld H U} {regs : Str → List (Reg H U)}
    (hw : Registered w regs) {event : Str} : (regs event).length < w.heap.fuel := by
  have h := (hw.owned.rep event).length_lt_fuel
  rwa [List.length_map] at h

/-- A freed node is in no list of the registry. -/
lemma Registered.not_mem_of_freed {w : EventWorld H U} {regs : Str → List (Reg H U)}
    (hw : Registered w regs) {a : ℕ} (ha : w.heap.cells a = none) (event : Str) :
    a ∉ (regs event).map Reg.node := by
  intro hmem
  obtain ⟨r, hr, rfl⟩ := List.mem_map.mp hmem
  have hlive := (hw.owned.rep event).seg.isSome (List.mem_map_of_mem (f := Reg.cell) hr)
  rw [show r.cell.1 = r.node from rfl, ha] at hlive
  cases hlive

/-- The node of a registration was handed out. -/
lemma Registered.node_lt {w : EventWorld H U} {regs : Str → List (Reg H U)}
    (hw : Registered w regs) {event : Str} {r : Reg H U} (hr : r ∈ regs event) :
    r.node < w.heap.size := by
  refine (hw.owned.rep event).bound r.node ?_
  rw [addrs_map_cell]
  exact List.mem_map_of_mem hr

/-- Only known events have registrations.

**Proof sketch.** A registration is in the list of its event, which is then not empty, so the
event has an entry. -/
lemma Registered.known_of_mem {w : EventWorld H U} {regs : Str → List (Reg H U)}
    (hw : Registered w regs) {event : Str} {r : Reg H U} (hr : r ∈ regs event) :
    event ∈ clientEvents := by
  rw [← hw.known]
  intro hnone
  have hhead := (hw.owned.rep event).head
  rw [hnone] at hhead
  cases hregs : regs event with
  | nil =>
    rw [hregs] at hr
    cases hr
  | cons r' rs =>
    rw [hregs] at hhead
    cases hhead

/-- **A call on one event** keeps the registry: its list moved, and the blocks of the other events
are untouched.

**Proof sketch.** The nodes of the event moved, and those of the others are outside of the move;
so every list is where it was or is the new one. The blocks are different within the event by
`hdistinct`, and between this event and another by `hapart`. -/
lemma Registered.move {w w' : EventWorld H U} {regs : Str → List (Reg H U)} (hw : Registered w regs)
    {event : Str} {new : List (Reg H U)}
    (hm : Moves w.heap w'.heap ((regs event).map Reg.node) (new.map Reg.cell))
    (hevents : (fun e => (w'.events e).join) = Function.update (fun e => (w.events e).join) event
      (entry none (new.map Reg.cell)))
    (hknown : ∀ e, w'.events e ≠ none ↔ w.events e ≠ none)
    (hlive : ∀ r ∈ new, w'.hdatas r.ptr = some ⟨r.hook, r.data⟩)
    (hkeep : ∀ e, e ≠ event → ∀ r ∈ regs e, w'.hdatas r.ptr = w.hdatas r.ptr)
    (hcount : w.hdataCount ≤ w'.hdataCount) (hbound : ∀ r ∈ new, r.ptr < w'.hdataCount)
    (hdistinct : (new.map Reg.ptr).Nodup)
    (hapart : ∀ r ∈ new, ∀ e, e ≠ event → ∀ r' ∈ regs e, r.ptr ≠ r'.ptr) :
    Registered w' (Function.update regs event new) where
  owned := by
    have hnodes : (fun e => (Function.update regs event new e).map Reg.cell) =
        Function.update (fun e => (regs e).map Reg.cell) event (new.map Reg.cell) := by
      funext e
      exact Function.apply_update (fun _ => List.map Reg.cell) regs event new e
    rw [hnodes, hevents]
    refine hw.owned.move (fun e he => ?_) hm
    have hdisj := hw.owned.disjoint e event he
    rwa [addrs_map_cell (regs event)] at hdisj
  known e := (hknown e).trans (hw.known e)
  live e r hr := by
    by_cases he : e = event
    · subst he
      rw [Function.update_self] at hr
      exact hlive r hr
    · rw [Function.update_of_ne he] at hr
      rw [hkeep e he r hr, hw.live e r hr]
  bound e r hr := by
    by_cases he : e = event
    · subst he
      rw [Function.update_self] at hr
      exact hbound r hr
    · rw [Function.update_of_ne he] at hr
      exact (hw.bound e r hr).trans_le hcount
  distinct e := by
    by_cases he : e = event
    · subst he
      rw [Function.update_self]
      exact hdistinct
    · rw [Function.update_of_ne he]
      exact hw.distinct e
  apart e e' hee' r hr r' hr' := by
    by_cases he : e = event
    · subst he
      rw [Function.update_self] at hr
      rw [Function.update_of_ne hee'.symm] at hr'
      exact hapart r hr e' hee'.symm r' hr'
    · rw [Function.update_of_ne he] at hr
      by_cases he' : e' = event
      · subst he'
        rw [Function.update_self] at hr'
        exact (hapart r' hr' e hee' r hr).symm
      · rw [Function.update_of_ne he'] at hr'
        exact hw.apart e e' hee' r hr r' hr'

/-- The values of registrations, of which those of one event change. -/
lemma map_value_update {regs : Str → List (Reg H U)} {specRegs : Str → List (H × U)}
    (hregs : ∀ e, (regs e).map Reg.value = specRegs e) (event : Str) {new : List (Reg H U)}
    {specNew : List (H × U)} (hnew : new.map Reg.value = specNew) (e : Str) :
    (Function.update regs event new e).map Reg.value =
      Function.update specRegs event specNew e := by
  by_cases he : e = event
  · subst he
    rw [Function.update_self, Function.update_self, hnew]
  · rw [Function.update_of_ne he, Function.update_of_ne he, hregs e]

/-- Storing a list of a known event adds no event to the table. -/
lemma update_events_ne_none {events : Str → Option (Option ℕ)} {event : Str} {list : Option ℕ}
    (hlist : events event = some list) (hooks : Option ℕ) (e : Str) :
    Function.update events event (some hooks) e ≠ none ↔ events e ≠ none := by
  by_cases he : e = event
  · subst he
    simp [hlist]
  · rw [Function.update_of_ne he]

/-- A new block that belongs to no registration. -/
lemma Registered.hdataNew {w : EventWorld H U} {regs : Str → List (Reg H U)}
    (hw : Registered w regs) (hook : H) (data : U) :
    Registered (hdataNew w hook data).2 regs where
  owned := hw.owned
  known := hw.known
  live e r hr := by
    have hne : r.ptr ≠ w.hdataCount := (hw.bound e r hr).ne
    show Function.update w.hdatas w.hdataCount _ r.ptr = _
    rw [Function.update_of_ne hne, hw.live e r hr]
  bound e r hr := (hw.bound e r hr).trans (Nat.lt_succ_self _)
  distinct := hw.distinct
  apart := hw.apart

/-- The registration that a connection makes. -/
def newReg (w : EventWorld H U) (hook : H) (data : U) : Reg H U :=
  ⟨w.heap.size, w.hdataCount, hook, data⟩

/-- **A registration with a new block** behind those of its event keeps the registry.

**Proof sketch.** `Registered.move`: the block of the new registration is the next one, so no
registration has it, and the blocks of the others are as they were. -/
lemma Registered.connected {w w' : EventWorld H U} {regs : Str → List (Reg H U)}
    (hw : Registered w regs) {event : Str} {hook : H} {data : U}
    (hm : Moves w.heap w'.heap ((regs event).map Reg.node)
      ((regs event ++ [newReg w hook data]).map Reg.cell))
    (hdatas : w'.hdatas = Function.update w.hdatas w.hdataCount (some ⟨hook, data⟩))
    (hcount : w'.hdataCount = w.hdataCount + 1)
    (hevents : (fun e => (w'.events e).join) = Function.update (fun e => (w.events e).join) event
      (entry none ((regs event ++ [newReg w hook data]).map Reg.cell)))
    (hknown : ∀ e, w'.events e ≠ none ↔ w.events e ≠ none) :
    Registered w' (Function.update regs event (regs event ++ [newReg w hook data])) := by
  have hfresh : ∀ e, ∀ r ∈ regs e, r.ptr ≠ w.hdataCount := fun e r hr => (hw.bound e r hr).ne
  refine hw.move hm hevents hknown ?_ ?_ (by omega) ?_ ?_ ?_
  · intro r hr
    rw [hdatas]
    rcases List.mem_append.mp hr with hr | hr
    · rw [Function.update_of_ne (hfresh event r hr), hw.live event r hr]
    · obtain rfl := List.mem_singleton.mp hr
      exact Function.update_self _ _ _
  · intro e _ r hr
    rw [hdatas, Function.update_of_ne (hfresh e r hr)]
  · intro r hr
    rw [hcount]
    rcases List.mem_append.mp hr with hr | hr
    · exact (hw.bound event r hr).trans (Nat.lt_succ_self _)
    · obtain rfl := List.mem_singleton.mp hr
      exact Nat.lt_succ_self _
  · rw [List.map_append]
    refine List.nodup_append.mpr ⟨hw.distinct event, List.nodup_singleton _, ?_⟩
    intro p hp q hq hpq
    obtain ⟨r, hr, rfl⟩ := List.mem_map.mp hp
    exact hfresh event r hr (hpq.trans (List.mem_singleton.mp hq))
  · intro r hr e he r' hr'
    rcases List.mem_append.mp hr with hr | hr
    · exact hw.apart event e he.symm r hr r' hr'
    · obtain rfl := List.mem_singleton.mp hr
      exact (hfresh e r' hr').symm

/-- The head of the list of an event that has registrations stays when one is added behind them. -/
lemma Registered.entry_concat {w : EventWorld H U} {regs : Str → List (Reg H U)}
    (hw : Registered w regs) {event : Str} {a : ℕ} (hlist : w.events event = some (some a))
    (r : Reg H U) :
    entry none ((regs event ++ [r]).map Reg.cell) = (w.events event).join := by
  have hhead := (hw.owned.rep event).head
  rw [hlist] at hhead ⊢
  cases hregs : regs event with
  | nil => simp [hregs] at hhead
  | cons r' rs => simpa [hregs] using hhead.symm

/-- **Connecting** a hook to a known event registers it behind the others.

**Proof sketch.** The list of the event is appended to (`listAppend_spec`), and the block is the
next one. -/
lemma eventConnect_known {w : EventWorld H U} {regs : Str → List (Reg H U)}
    (hw : Registered w regs) {event : Str} (hevent : event ∈ clientEvents) (hook : H) (data : U) :
    ∃ w', eventConnect w event hook data = some w' ∧
      Registered w' (Function.update regs event (regs event ++ [newReg w hook data])) ∧
      Moves w.heap w'.heap ((regs event).map Reg.node)
        ((regs event ++ [newReg w hook data]).map Reg.cell) ∧
      w'.err = w.err ∧ w'.returned = 1 := by
  have hrep := hw.owned.rep event
  obtain ⟨list, hlist⟩ := Option.ne_none_iff_exists'.mp ((hw.known event).mpr hevent)
  have hjoin : (w.events event).join = list := by rw [hlist]; rfl
  rw [hjoin] at hrep
  obtain ⟨heap', heq, hm⟩ := listAppend_spec hrep w.hdataCount
  have hnew : (regs event).map Reg.cell ++ [(w.heap.size, some w.hdataCount)] =
      (regs event ++ [newReg w hook data]).map Reg.cell := by
    rw [List.map_append]
    rfl
  rw [hnew] at heq hm
  rw [addrs_map_cell (regs event)] at hm
  -- the two branches differ in whether they write the table
  cases hcase : list with
  | none =>
    rw [hcase] at hlist heq
    refine ⟨⟨heap', Function.update w.hdatas w.hdataCount (some ⟨hook, data⟩), w.hdataCount + 1,
      Function.update w.events event
        (some (entry none ((regs event ++ [newReg w hook data]).map Reg.cell))), w.err, 1⟩, ?_,
      hw.connected hm rfl rfl ?_ (update_events_ne_none hlist _), hm, rfl, rfl⟩
    · unfold eventConnect
      simp only [Taningia.hdataNew, hlist, heq, Option.map_some]
    · funext e
      exact Function.apply_update (fun _ => Option.join) w.events event _ e
  | some a =>
    rw [hcase] at hlist heq
    refine ⟨⟨heap', Function.update w.hdatas w.hdataCount (some ⟨hook, data⟩), w.hdataCount + 1,
      w.events, w.err, 1⟩, ?_, hw.connected hm rfl rfl ?_ (fun _ => Iff.rfl), hm, rfl, rfl⟩
    · unfold eventConnect
      simp only [Taningia.hdataNew, hlist, heq, Option.map_some]
    · rw [hw.entry_concat hlist, Function.update_eq_self]

/-- **Disconnecting** from a known event removes the registrations of the hook, and frees their
nodes.

**Proof sketch.** The loop walks over the list and removes what it does not keep, so what is
left is the list filtered; `Registered.move` takes the registry along. -/
lemma eventDisconnect_known [DecidableEq H] {w : EventWorld H U} {regs : Str → List (Reg H U)}
    (hw : Registered w regs) {event : Str} (hevent : event ∈ clientEvents) (hook : Option H) :
    ∃ w', eventDisconnect w event hook = some w' ∧
      Registered w' (Function.update regs event ((regs event).filter (Reg.keeps hook))) ∧
      Moves w.heap w'.heap ((regs event).map Reg.node)
        (((regs event).filter (Reg.keeps hook)).map Reg.cell) ∧
      (∀ r ∈ regs event, r.keeps hook = false → w'.heap.cells r.node = none) ∧
      w'.err = w.err ∧ w'.returned = 1 := by
  have hrep := hw.owned.rep event
  obtain ⟨list, hlist⟩ := Option.ne_none_iff_exists'.mp ((hw.known event).mpr hevent)
  have hjoin : (w.events event).join = list := by rw [hlist]; rfl
  rw [hjoin] at hrep
  have hrep' : Rep w.heap list (([] ++ regs event).map Reg.cell) := hrep
  obtain ⟨heap', hdatas', heq, hm, hkeep, hfrees⟩ :=
    disconnectLoop_spec hook hrep' (hw.live event) (hw.distinct event) hw.length_lt_fuel none
  rw [← hrep.head] at heq
  have hsub : List.Sublist ((regs event).filter (Reg.keeps hook)) (regs event) :=
    List.filter_sublist
  refine ⟨⟨heap', hdatas', w.hdataCount, Function.update w.events event
    (some (entry none (((regs event).filter (Reg.keeps hook)).map Reg.cell))), w.err, 1⟩, ?_,
    hw.move hm ?_ ?_ ?_ ?_ le_rfl ?_ ?_ ?_, hm, hfrees, rfl, rfl⟩
  · unfold eventDisconnect
    rw [hlist]
    simp only [heq, Option.map_some, List.nil_append]
  · funext e
    exact Function.apply_update (fun _ => Option.join) w.events event _ e
  · exact update_events_ne_none hlist _
  · intro r hr
    show hdatas' r.ptr = _
    rw [hkeep r.ptr, hw.live event r (hsub.subset hr)]
    intro x hx hgone e
    obtain rfl := List.inj_on_of_nodup_map (hw.distinct event) hx (hsub.subset hr) e
    simp [hgone] at hr
  · intro e he r hr
    exact hkeep r.ptr fun x hx _ => (hw.apart e event he r hr x hx).symm
  · exact fun r hr => hw.bound event r (hsub.subset hr)
  · exact (hw.distinct event).sublist (hsub.map _)
  · exact fun r hr e he r' hr' => hw.apart event e he.symm r (hsub.subset hr) r' hr'

/-- A call with an unknown event leaves the registrations and their nodes. -/
lemma eventConnect_unknown {w : EventWorld H U} {regs : Str → List (Reg H U)}
    (hw : Registered w regs) {event : Str} (hevent : event ∉ clientEvents) (hook : H) (data : U) :
    ∃ w', eventConnect w event hook data = some w' ∧ Registered w' regs ∧
      w'.heap = w.heap ∧ w'.err = noSuchEvent event ∧ w'.returned = 0 := by
  have hnone : w.events event = none := not_not.mp (mt (hw.known event).mp hevent)
  refine ⟨{ (hdataNew w hook data).2 with err := noSuchEvent event, returned := 0 }, ?_,
    { hw.hdataNew hook data with }, rfl, rfl, rfl⟩
  unfold eventConnect
  simp only [hdataNew, hnone]

/-- To disconnect from an unknown event records an error. -/
lemma eventDisconnect_unknown [DecidableEq H] {w : EventWorld H U} {regs : Str → List (Reg H U)}
    (hw : Registered w regs) {event : Str} (hevent : event ∉ clientEvents) (hook : Option H) :
    ∃ w', eventDisconnect w event hook = some w' ∧ Registered w' regs ∧
      w'.heap = w.heap ∧ w'.err = noSuchEvent event ∧ w'.returned = 0 := by
  have hnone : w.events event = none := not_not.mp (mt (hw.known event).mp hevent)
  refine ⟨{ w with err := noSuchEvent event, returned := 0 }, ?_, { hw with }, rfl, rfl, rfl⟩
  unfold eventDisconnect
  simp only [hnone]

/-- **One call** succeeds and keeps the registry showing its specification.

**Proof sketch.** By cases on the call and on whether the event is known; an unknown one records
the same error on both sides. -/
lemma eventStep_shows [DecidableEq H] {w : EventWorld H U} {s : EventSpec H U}
    (hw : ShowsRegs w s) (call : EventCall H U) :
    ∃ w', eventStep w call = some w' ∧ ShowsRegs w' (eventSpecStep s call) := by
  obtain ⟨⟨regs, hreg, hregs⟩, herr, -⟩ := hw
  cases call with
  | connect event hook data =>
    by_cases hevent : event ∈ clientEvents
    · obtain ⟨w', heq, hreg', -, herr', hret⟩ := eventConnect_known hreg hevent hook data
      refine ⟨w', heq, ?_⟩
      simp only [eventSpecStep, if_pos hevent]
      refine ⟨⟨_, hreg', map_value_update hregs event ?_⟩, herr'.trans herr, hret⟩
      rw [List.map_append, hregs event]
      rfl
    · obtain ⟨w', heq, hreg', -, herr', hret⟩ := eventConnect_unknown hreg hevent hook data
      refine ⟨w', heq, ?_⟩
      simp only [eventSpecStep, if_neg hevent]
      exact ⟨⟨regs, hreg', hregs⟩, herr', hret⟩
  | disconnect event hook =>
    have hfilter : (regs event).map Reg.value = s.regs event := hregs event
    by_cases hevent : event ∈ clientEvents
    · obtain ⟨w', heq, hreg', -, -, herr', hret⟩ := eventDisconnect_known hreg hevent hook
      refine ⟨w', heq, ?_⟩
      cases hook with
      | none =>
        simp only [eventSpecStep, if_pos hevent]
        refine ⟨⟨_, hreg', map_value_update hregs event ?_⟩, herr'.trans herr, hret⟩
        simp [Reg.keeps]
      | some h =>
        simp only [eventSpecStep, if_pos hevent]
        refine ⟨⟨_, hreg', map_value_update hregs event ?_⟩, herr'.trans herr, hret⟩
        rw [← hfilter, List.filter_map]
        rfl
    · obtain ⟨w', heq, hreg', -, herr', hret⟩ := eventDisconnect_unknown hreg hevent hook
      refine ⟨w', heq, ?_⟩
      have hunknown : eventSpecStep s (.disconnect event hook) = s.unknown event := by
        cases hook <;> simp [eventSpecStep, hevent]
      rw [hunknown]
      exact ⟨⟨regs, hreg', hregs⟩, herr', hret⟩

/-- The loop of the dispatch, over registrations whose blocks are there.

**Proof sketch.** Induction on the registrations: the block is there, the hook is called, and
the loop goes on unless the hook answered that the event is dealt with. -/
lemma scan_callHook {hdatas : ℕ → Option (HookData H U)} (answer : List (H × U) → H × U → ℤ)
    {rs : List (Reg H U)} (hlive : ∀ r ∈ rs, hdatas r.ptr = some ⟨r.hook, r.data⟩)
    (called : List (H × U)) :
    scan (callHook hdatas answer) some (rs.map Reg.cell) called =
      some (dispatchSpec answer called (rs.map Reg.value)) := by
  induction rs generalizing called with
  | nil => rfl
  | cons r rs ih =>
    have hr : hdatas r.ptr = some ⟨r.hook, r.data⟩ := hlive r (by simp)
    have hrest := ih (fun x hx => hlive x (by simp [hx])) (called ++ [r.value])
    rw [List.map_cons, List.map_cons, scan, dispatchSpec]
    simp only [callHook, Reg.cell, Option.bind_some, hr]
    by_cases hstop : answer called r.value ≠ 0
    · have hstop' : answer called (r.hook, r.data) ≠ 0 := hstop
      rw [if_pos hstop, if_pos hstop']
      rfl
    · have hstop' : ¬ answer called (r.hook, r.data) ≠ 0 := hstop
      rw [if_neg hstop, if_neg hstop']
      exact hrest

/-- **Dispatching** calls the hooks of the specification. -/
lemma callEventHooks_eq {w : EventWorld H U} {s : EventSpec H U} (hw : ShowsRegs w s)
    (answer : List (H × U) → H × U → ℤ) (event : Str) :
    callEventHooks w answer event = some (dispatchSpec answer [] (s.regs event)) := by
  obtain ⟨⟨regs, hreg, hregs⟩, -, -⟩ := hw
  rw [callEventHooks, (hreg.owned.rep event).walk_eq, scan_callHook answer (hreg.live event),
    hregs event]
  rfl

/-- **A run** of calls succeeds and ends showing its specification. -/
lemma showsRegs_run [DecidableEq H] (err : ErrRec) (calls : List (EventCall H U)) :
    ∃ w, Machine.run? eventStep (eventsInit H U err) calls = some w ∧
      ShowsRegs w (Machine.run eventSpecStep (EventSpec.start H U err) calls) := by
  have hstart : ShowsRegs (eventsInit H U err) (EventSpec.start H U err) :=
    ⟨⟨fun _ => [], registered_init err, fun _ => rfl⟩, rfl, rfl⟩
  exact Machine.run?_simulates ShowsRegs (fun _ _ call hw _ => eventStep_shows hw call) hstart
    (Machine.guarded_of_forall (P := fun _ => True) (EventSpec.start H U err) fun _ _ => trivial)

/-- **The event registry**: every run of connections and disconnections succeeds with the return
value and the error record of the specification, and then dispatching an event calls exactly its
registered hooks, each with its own data, in order, up to the first that does not answer `0`. -/
theorem events_refine [DecidableEq H] (err : ErrRec) (calls : List (EventCall H U)) :
    ∃ w, Machine.run? eventStep (eventsInit H U err) calls = some w ∧
      w.returned = (Machine.run eventSpecStep (EventSpec.start H U err) calls).returned ∧
      w.err = (Machine.run eventSpecStep (EventSpec.start H U err) calls).err ∧
      ∀ event ∈ clientEvents, ∀ answer, callEventHooks w answer event =
        some (dispatchSpec answer []
          ((Machine.run eventSpecStep (EventSpec.start H U err) calls).regs event)) := by
  obtain ⟨w, hrun, hw⟩ := showsRegs_run err calls
  exact ⟨w, hrun, hw.2.2, hw.2.1, fun event _ answer => callEventHooks_eq hw answer event⟩

end Taningia
