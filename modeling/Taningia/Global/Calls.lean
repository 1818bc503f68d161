import Taningia.Global.Basic

set_option relaxedAutoImplicit false
set_option autoImplicit false

/-!
# What the error functions do to the heap

One call of a thread changes the blocks that the thread holds, and takes new ones. Which blocks are
in use before and after it is one equation.

## Main definitions

* `Taningia.HoldsRecord` — the blocks behind the pointer of a thread, and its record in them.
* `Taningia.Outcome` — what an operation leaves of the heap.

## Main results

* `Taningia.viewErrorLast_spec`, `Taningia.viewErrorClear_spec`, `Taningia.viewErrorSet_spec`,
  `Taningia.viewExit_spec` — what each function does.
* `Taningia.localStep_spec` — one call does what its thread expects.
-/

namespace Taningia

open Machine

/-! ## What a thread holds -/

/-- The text of a message; a state has none. -/
def GlobalBlock.label : GlobalBlock → Option Str
  | .state _ => none
  | .message text => some text

/-- The blocks in use, by their labels. -/
def labels (h : Malloc.Heap GlobalBlock) : Multiset (Option Str) :=
  (Malloc.inUse h).map GlobalBlock.label

/-- The blocks that a record consists of: its state, and the message that is shown. -/
def recordBlocks : Option ErrState → Multiset (Option Str)
  | none => 0
  | some e => none ::ₘ (e.last.elim 0 fun error => {some error.message})

/-- The blocks that a thread is the cause of: those of its record, and the messages left behind. -/
def ThreadRecord.blocks (s : ThreadRecord) : Multiset (Option Str) :=
  recordBlocks s.record + (s.lost.map some : List (Option Str))

/-- The heap has the record of a thread behind its pointer, in the given blocks. The message that a
clear has given back is not one of them. -/
inductive HoldsRecord (h : Malloc.Heap GlobalBlock) : Option ℕ → Option ErrState → List ℕ → Prop
  | untouched : HoldsRecord h none none []
  | unset {p : ℕ} {code : ℤ} (hp : Malloc.read h p = some (.state ⟨false, code, none⟩)) :
      HoldsRecord h (some p) (some .unset) [p]
  | shown {p m : ℕ} {error : ErrorT}
      (hp : Malloc.read h p = some (.state ⟨true, error.code, some m⟩))
      (hm : Malloc.read h m = some (.message error.message)) :
      HoldsRecord h (some p) (some (.shown error)) [p, m]
  | cleared {p m : ℕ} {code : ℤ} (hp : Malloc.read h p = some (.state ⟨false, code, some m⟩))
      (hlt : m < h.length) (hm : Malloc.read h m = none) :
      HoldsRecord h (some p) (some .cleared) [p]

/-- What an operation leaves: only the blocks that it held changed, those that it holds now are
among them or new, and the blocks in use are balanced. -/
structure Outcome (h : Malloc.Heap GlobalBlock) (foot : List ℕ) (held : Multiset (Option Str))
    (h' : Malloc.Heap GlobalBlock) (foot' : List ℕ) (held' : Multiset (Option Str)) : Prop where
  frame : Malloc.Frame foot h h'
  fresh : ∀ q ∈ foot', q ∈ foot ∨ h.length ≤ q
  balance : labels h' + held = labels h + held'

section Outcomes

variable {h h' h'' : Malloc.Heap GlobalBlock} {foot foot' foot'' : List ℕ}
  {held held' held'' : Multiset (Option Str)} {slot : Option ℕ} {r : Option ErrState}

/-- Where nothing is done, all is accounted for. -/
lemma Outcome.refl (h : Malloc.Heap GlobalBlock) (foot : List ℕ) (held : Multiset (Option Str)) :
    Outcome h foot held h foot held where
  frame := Malloc.Frame.refl foot h
  fresh _ hq := Or.inl hq
  balance := rfl

/-- What two steps do to the blocks.

**Proof sketch.** A block outside the first footprint is outside the second, unless it was made
in between. -/
lemma Outcome.trans (h₁ : Outcome h foot held h' foot' held')
    (h₂ : Outcome h' foot' held' h'' foot'' held'') : Outcome h foot held h'' foot'' held'' where
  frame := by
    refine ⟨h₁.frame.length_le.trans h₂.frame.length_le, fun q hq hfoot => ?_⟩
    have hfoot' : q ∉ foot' := by
      intro hmem
      rcases h₁.fresh q hmem with hmem | hle
      · exact hfoot hmem
      · exact absurd hq (not_lt.mpr hle)
    rw [h₂.frame.read_eq q (hq.trans_le h₁.frame.length_le) hfoot', h₁.frame.read_eq q hq hfoot]
  fresh q hq := by
    rcases h₂.fresh q hq with hmem | hle
    · exact h₁.fresh q hmem
    · exact Or.inr (h₁.frame.length_le.trans hle)
  balance := by
    have hsum : labels h'' + held + held' = labels h + held'' + held' := by
      rw [add_right_comm, h₂.balance, add_right_comm, h₁.balance, add_right_comm]
    exact add_right_cancel hsum

/-- The same while another block is held. -/
lemma Outcome.beside (h₁ : Outcome h foot held h' foot' held') (m : ℕ) (label : Option Str) :
    Outcome h (m :: foot) (label ::ₘ held) h' (m :: foot') (label ::ₘ held') where
  frame := ⟨h₁.frame.length_le, fun q hq hfoot =>
    h₁.frame.read_eq q hq fun hmem => hfoot (List.mem_cons_of_mem m hmem)⟩
  fresh q hq := by
    rcases List.mem_cons.mp hq with rfl | hq
    · exact Or.inl List.mem_cons_self
    · exact (h₁.fresh q hq).imp (List.mem_cons_of_mem m) id
  balance := by
    rw [Multiset.add_cons, Multiset.add_cons, h₁.balance]

/-- The same with more blocks in use. -/
lemma Outcome.add (h₁ : Outcome h foot held h' foot' held') (more : Multiset (Option Str)) :
    Outcome h foot (held + more) h' foot' (held' + more) where
  frame := h₁.frame
  fresh := h₁.fresh
  balance := by
    rw [← add_assoc, ← add_assoc, h₁.balance]

/-- A new block is added to the footprint. -/
lemma outcome_alloc (h : Malloc.Heap GlobalBlock) (foot : List ℕ) (held : Multiset (Option Str))
    (b : GlobalBlock) :
    Outcome h foot held (Malloc.alloc h b).1 (h.length :: foot) (b.label ::ₘ held) where
  frame := Malloc.frame_alloc foot h b
  fresh q hq := by
    rcases List.mem_cons.mp hq with rfl | hq
    · exact Or.inr le_rfl
    · exact Or.inl hq
  balance := by
    rw [labels, Malloc.inUse_alloc, Multiset.map_add, Multiset.map_singleton, add_assoc,
      Multiset.singleton_add, labels]

/-- A block that is held is given another content. -/
lemma outcome_write {p : ℕ} {a : GlobalBlock} (hp : Malloc.read h p = some a) (b : GlobalBlock)
    (hlabel : a.label = b.label) (hfoot : p ∈ foot) (held : Multiset (Option Str)) :
    Outcome h foot held (h.set p (some b)) foot held where
  frame := Malloc.frame_set hp (some b) hfoot
  fresh q hq := Or.inl hq
  balance := by
    have hsum := congrArg (Multiset.map GlobalBlock.label) (Malloc.inUse_set hp (some b))
    rw [Multiset.map_add, Multiset.map_add, Option.elim_some, Multiset.map_singleton,
      Multiset.map_singleton, hlabel] at hsum
    rw [labels, labels, add_right_cancel hsum]

/-- A block that is held is given back. -/
lemma outcome_release {m : ℕ} {b : GlobalBlock} (hm : Malloc.read h m = some b)
    (foot : List ℕ) (held : Multiset (Option Str)) :
    Outcome h (m :: foot) (b.label ::ₘ held) (h.set m none) foot held where
  frame := Malloc.frame_set hm none List.mem_cons_self
  fresh q hq := Or.inl (List.mem_cons_of_mem m hq)
  balance := by
    have hsum := congrArg (Multiset.map GlobalBlock.label) (Malloc.inUse_set hm none)
    rw [Multiset.map_add, Multiset.map_add, Option.elim_none, Multiset.map_singleton,
      Multiset.map_zero, add_zero] at hsum
    rw [labels, labels, ← hsum, add_assoc, Multiset.singleton_add]

/-- The order in which the blocks are listed does not matter. -/
lemma Outcome.perm (h₁ : Outcome h foot held h' foot' held') {l l' : List ℕ}
    (hl : ∀ q, q ∈ l ↔ q ∈ foot) (hl' : ∀ q, q ∈ l' ↔ q ∈ foot') :
    Outcome h l held h' l' held' where
  frame := ⟨h₁.frame.length_le, fun q hq hmem => h₁.frame.read_eq q hq (mt (hl q).mpr hmem)⟩
  fresh q hq := ((h₁.fresh q ((hl' q).mp hq)).imp (hl q).mpr id)
  balance := h₁.balance

/-- A record stays when its blocks do.

**Proof sketch.** The blocks of the record are outside the frame, so they read as before; the
message of a cleared record was given back, so no block takes its place. -/
lemma HoldsRecord.frame (hr : HoldsRecord h slot r foot) {l : List ℕ} (hf : Malloc.Frame l h h')
    (hdisjoint : ∀ q ∈ foot, q ∉ l) (hlive : ∀ q ∈ l, q < h.length → Malloc.read h q ≠ none) :
    HoldsRecord h' slot r foot := by
  have hread : ∀ q b, q ∈ foot → Malloc.read h q = some b → Malloc.read h' q = some b := by
    intro q b hq hb
    rw [hf.read_eq q (Malloc.lt_of_read hb) (hdisjoint q hq), hb]
  cases hr with
  | untouched => exact .untouched
  | unset hp => exact .unset (hread _ _ (by simp) hp)
  | shown hp hm => exact .shown (hread _ _ (by simp) hp) (hread _ _ (by simp) hm)
  | cleared hp hlt hm =>
    refine .cleared (hread _ _ (by simp) hp) (hlt.trans_le hf.length_le) ?_
    rw [hf.read_eq _ hlt, hm]
    exact fun hmem => hlive _ hmem hlt hm

/-- The blocks of a record are in use. -/
lemma HoldsRecord.live (hr : HoldsRecord h slot r foot) :
    ∀ q ∈ foot, ∃ b, Malloc.read h q = some b := by
  intro q hq
  cases hr with
  | untouched => cases hq
  | unset hp => exact ⟨_, List.mem_singleton.mp hq ▸ hp⟩
  | shown hp hm =>
    rcases List.mem_cons.mp hq with rfl | hq
    · exact ⟨_, hp⟩
    · exact ⟨_, List.mem_singleton.mp hq ▸ hm⟩
  | cleared hp hlt hm => exact ⟨_, List.mem_singleton.mp hq ▸ hp⟩

/-- Giving back the message that is shown.

**Proof sketch.** The block of the state and that of the message are different, so the state is
read as before, and the message is no longer in use. -/
lemma release_shown {p m : ℕ} {error : ErrorT}
    (hp : Malloc.read h p = some (.state ⟨true, error.code, some m⟩))
    (hm : Malloc.read h m = some (.message error.message)) :
    p ≠ m ∧ Malloc.read (h.set m none) p = some (.state ⟨true, error.code, some m⟩) ∧
      Outcome h [p, m] (recordBlocks (some (.shown error))) (h.set m none) [p] {none} := by
  have hpm : p ≠ m := by
    rintro rfl
    rw [hp] at hm
    cases hm
  have hheld : recordBlocks (some (.shown error)) =
      GlobalBlock.label (.message error.message) ::ₘ {none} :=
    Multiset.pair_comm none (some error.message)
  refine ⟨hpm, by rw [Malloc.read_set hm, if_neg hpm, hp], ?_⟩
  rw [hheld]
  exact (outcome_release hm [p] {none}).perm (by simp [or_comm]) fun _ => Iff.rfl

end Outcomes

/-! ## What each function does -/

section Functions

variable {v : ThreadView} {r : Option ErrState} {foot : List ℕ}

/-- The thread holds a record in the given blocks, after it held another one. -/
structure Becomes (v : ThreadView) (foot : List ℕ) (r : Option ErrState) (v' : ThreadView)
    (r' : Option ErrState) (foot' : List ℕ) : Prop where
  holds : HoldsRecord v'.heap v'.slot r' foot'
  outcome : Outcome v.heap foot (recordBlocks r) v'.heap foot' (recordBlocks r')

/-- Where nothing is done, the record stays. -/
lemma Becomes.refl (hr : HoldsRecord v.heap v.slot r foot) : Becomes v foot r v r foot :=
  ⟨hr, Outcome.refl _ _ _⟩

/-- Two steps of a record. -/
lemma Becomes.trans {v' v'' : ThreadView} {r' r'' : Option ErrState} {foot' foot'' : List ℕ}
    (h₁ : Becomes v foot r v' r' foot') (h₂ : Becomes v' foot' r' v'' r'' foot'') :
    Becomes v foot r v'' r'' foot'' :=
  ⟨h₂.holds, h₁.outcome.trans h₂.outcome⟩

/-- `ta_global_state_get` returns null without memory for a first block, and otherwise the block of
the thread.

**Proof sketch.** A thread without a block gets one, if there is memory; the others have theirs. -/
lemma taGlobalStateGet_spec (hr : HoldsRecord v.heap v.slot r foot) (granted : Bool) :
    (openRecord r granted = none ∧ (taGlobalStateGet v granted).2 = none) ∨
    ∃ e v' p foot', openRecord r granted = some e ∧ taGlobalStateGet v granted = (v', some p) ∧
      v'.slot = some p ∧ Becomes v foot r v' (some e) foot' := by
  obtain ⟨h, slot⟩ := v
  cases hr with
  | untouched =>
    cases granted with
    | false => exact Or.inl ⟨rfl, rfl⟩
    | true =>
      refine Or.inr ⟨_, _, _, [h.length], rfl, rfl, rfl, @HoldsRecord.unset _ _ 0 ?_, ?_⟩
      · rw [Malloc.read_alloc, if_pos rfl]
      · exact outcome_alloc h [] 0 (.state ⟨false, 0, none⟩)
  | unset hp => exact Or.inr ⟨_, _, _, _, rfl, rfl, rfl, Becomes.refl (.unset hp)⟩
  | shown hp hm => exact Or.inr ⟨_, _, _, _, rfl, rfl, rfl, Becomes.refl (.shown hp hm)⟩
  | cleared hp hlt hm =>
    exact Or.inr ⟨_, _, _, _, rfl, rfl, rfl, Becomes.refl (.cleared hp hlt hm)⟩

/-- `ta_error_last` shows the record.

**Proof sketch.** Once the block is there, what is shown is read from it, case by case on the
record. -/
lemma viewErrorLast_spec (hr : HoldsRecord v.heap v.slot r foot) (granted : Bool) :
    Option.Rel (fun res e => res.2 = e.last ∧ ∃ foot', Becomes v foot r res.1 (some e) foot')
      (viewErrorLast v granted) (openRecord r granted) := by
  rcases taGlobalStateGet_spec hr granted with ⟨hnone, hget⟩ |
    ⟨e, v', p, foot', he, hget, hslot, hb⟩
  · rw [hnone, show viewErrorLast v granted = none by simp [viewErrorLast, hget]]
    exact .none
  · have hheld := hb.holds
    rw [hslot] at hheld
    have hlast : viewErrorLast v granted = some (v', e.last) := by
      cases hheld with
      | unset hp => simp [viewErrorLast, hget, ThreadView.state, hp, ErrState.last]
      | shown hp hm =>
        simp [viewErrorLast, hget, ThreadView.state, ThreadView.message, hp, hm, ErrState.last]
      | cleared hp hlt hm => simp [viewErrorLast, hget, ThreadView.state, hp, ErrState.last]
    rw [he, hlast]
    exact .some ⟨rfl, foot', hb⟩

/-- `ta_error_clear` gives the message of a record that is shown back, and keeps the pointer.

**Proof sketch.** Once the block is there, a record that is not shown stays. One that is shown
gives its message back (`release_shown`), and the block is written with the flag down and the
pointer as it was. -/
lemma viewErrorClear_spec (hr : HoldsRecord v.heap v.slot r foot) (granted : Bool) :
    Option.Rel (fun v' e => ∃ foot', Becomes v foot r v' (some e) foot')
      (viewErrorClear v granted)
      ((openRecord r granted).bind fun e => errStateStep e .clear) := by
  rcases taGlobalStateGet_spec hr granted with ⟨hnone, hget⟩ |
    ⟨e, v', p, foot', he, hget, hslot, hb⟩
  · rw [hnone, show viewErrorClear v granted = none by simp [viewErrorClear, hget]]
    exact .none
  · rw [he, Option.bind_some]
    have hheld := hb.holds
    rw [hslot] at hheld
    cases hheld with
    | @unset p code hp =>
      have hclear : viewErrorClear v granted =
          some ⟨v'.heap.set p (some (.state ⟨false, code, none⟩)), v'.slot⟩ := by
        simp [viewErrorClear, hget, ThreadView.state, hp, Malloc.write]
      rw [hclear]
      refine .some ⟨[p], hb.trans ⟨?_, outcome_write hp _ rfl (List.mem_singleton_self p) _⟩⟩
      rw [hslot]
      exact .unset (by rw [Malloc.read_set hp, if_pos rfl])
    | @shown p m error hp hm =>
      obtain ⟨hpm, hp', hrelease⟩ := release_shown hp hm
      have hclear : viewErrorClear v granted =
          some ⟨(v'.heap.set m none).set p (some (.state ⟨false, error.code, some m⟩)),
            v'.slot⟩ := by
        simp [viewErrorClear, hget, ThreadView.state, hp, Malloc.releasePtr,
          Malloc.release_of_read hm, Malloc.write_of_read hp']
      rw [hclear]
      have hwrite : Outcome (v'.heap.set m none) [p] (recordBlocks (some .cleared))
          ((v'.heap.set m none).set p (some (.state ⟨false, error.code, some m⟩))) [p]
          (recordBlocks (some .cleared)) :=
        outcome_write hp' (.state ⟨false, error.code, some m⟩) rfl (List.mem_singleton_self p) _
      refine .some ⟨[p], hb.trans ⟨?_, hrelease.trans hwrite⟩⟩
      rw [hslot]
      refine @HoldsRecord.cleared _ p m error.code ?_ ?_ ?_
      · rw [Malloc.read_set hp', if_pos rfl]
      · simpa using Malloc.lt_of_read hm
      · rw [Malloc.read_set hp', if_neg (Ne.symm hpm), Malloc.read_set hm, if_pos rfl]
    | @cleared p m code hp hlt hm =>
      have hclear : viewErrorClear v granted =
          some ⟨v'.heap.set p (some (.state ⟨false, code, some m⟩)), v'.slot⟩ := by
        simp [viewErrorClear, hget, ThreadView.state, hp, Malloc.write]
      rw [hclear]
      refine .some ⟨[p], hb.trans ⟨?_, outcome_write hp _ rfl (List.mem_singleton_self p) _⟩⟩
      rw [hslot]
      have hpm : m ≠ p := by
        rintro rfl
        rw [hp] at hm
        cases hm
      refine .cleared (by rw [Malloc.read_set hp, if_pos rfl]) (by simpa using hlt) ?_
      rw [Malloc.read_set hp, if_neg hpm, hm]

/-- What `set_err` does with the pointer to the old message: before the first error there is none,
the message that is shown is given back, and one that a clear gave back cannot be given back again.

**Proof sketch.** Case by case on the record: the pointer is null before the first error, points
at the message that is shown, or at one that was given back. -/
lemma releasePtr_message {p : ℕ} {e : ErrState} (hr : HoldsRecord v.heap (some p) (some e) foot) :
    ∃ global, v.state p = some global ∧
      ((e = .cleared ∧ Malloc.releasePtr v.heap global.message = none) ∨
      (e ≠ .cleared ∧ ∃ h, Malloc.releasePtr v.heap global.message = some h ∧
        Malloc.read h p = some (.state global) ∧
        Outcome v.heap foot (recordBlocks (some e)) h [p] {none})) := by
  cases hr with
  | @unset p code hp =>
    refine ⟨⟨false, code, none⟩, by rw [ThreadView.state, hp],
      Or.inr ⟨by simp, v.heap, rfl, hp, ?_⟩⟩
    exact Outcome.refl _ _ _
  | @shown p m error hp hm =>
    obtain ⟨-, hp', hout⟩ := release_shown hp hm
    exact ⟨⟨true, error.code, some m⟩, by rw [ThreadView.state, hp],
      Or.inr ⟨by simp, _, Malloc.release_of_read hm, hp', hout⟩⟩
  | @cleared p m code hp hlt hm =>
    exact ⟨⟨false, code, some m⟩, by rw [ThreadView.state, hp],
      Or.inl ⟨rfl, Malloc.release_eq_none hm⟩⟩

/-- `set_err` with a message that is held beside the record: it becomes the message of the record,
unless the old message was given back by a clear.

**Proof sketch.** Once the block is there, `releasePtr_message` says what becomes of the old
message: behind a clear the release is the fault that the record expects. Otherwise the block is
written with the new message, which was outside the footprint and becomes part of it; no other
block changed. -/
lemma viewSetErr_spec (hr : HoldsRecord v.heap v.slot r foot) {msg : ℕ} {text : Str}
    (hmsg : Malloc.read v.heap msg = some (.message text)) (hfoot : msg ∉ foot) (granted : Bool)
    (errcode : ℤ) (args : List ErrorArg) (htext : text = formatArgs (shownRecord r) args) :
    Option.Rel (fun v' r' => ∃ foot', HoldsRecord v'.heap v'.slot r' foot' ∧
        Outcome v.heap (msg :: foot) (some text ::ₘ recordBlocks r) v'.heap foot' (recordBlocks r'))
      (viewSetErr v granted errcode msg)
      (((openRecord r granted).bind fun e => errStateStep e (.set errcode args)).map some) := by
  rcases taGlobalStateGet_spec hr granted with ⟨hnone, hget⟩ |
    ⟨e, v', p, foot', he, hget, hslot, hb⟩
  · rw [hnone, show viewSetErr v granted errcode msg = none by simp [viewSetErr, hget]]
    exact .none
  have hlast : shownRecord r = e.last := by
    cases r with
    | none =>
      cases granted with
      | false => cases he
      | true =>
        obtain rfl := Option.some.inj he
        rfl
    | some e' =>
      obtain rfl := Option.some.inj he
      rfl
  -- the new message is not touched when the state is asked for
  have hmsg' : Malloc.read v'.heap msg = some (.message text) := by
    rw [hb.outcome.frame.read_eq msg (Malloc.lt_of_read hmsg) hfoot, hmsg]
  have hfoot' : msg ∉ foot' := by
    intro hmem
    rcases hb.outcome.fresh msg hmem with hmem | hle
    · exact hfoot hmem
    · exact absurd (Malloc.lt_of_read hmsg) (not_lt.mpr hle)
  have hheld := hb.holds
  rw [hslot] at hheld
  have hp : p ∈ foot' := by
    cases hheld <;> simp
  rw [he, Option.bind_some]
  obtain ⟨global, hstate, ⟨rfl, hrelease⟩ | ⟨hne, h, hrelease, hread, hout⟩⟩ :=
    releasePtr_message hheld
  · rw [show viewSetErr v granted errcode msg = none by
      simp [viewSetErr, hget, hstate, hrelease]]
    exact .none
  · have hset : viewSetErr v granted errcode msg =
        some ⟨h.set p (some (.state ⟨true, errcode, some msg⟩)), v'.slot⟩ := by
      simp [viewSetErr, hget, hstate, hrelease, Malloc.write_of_read hread]
    have hstep : errStateStep e (.set errcode args) = some (.shown ⟨errcode, text⟩) := by
      rw [htext, hlast]
      cases e with
      | unset => rfl
      | shown error => rfl
      | cleared => exact absurd rfl hne
    have hmp : msg ≠ p := by
      rintro rfl
      exact hfoot' hp
    have hmsg'' : Malloc.read h msg = some (.message text) := by
      rw [hout.frame.read_eq msg (Malloc.lt_of_read hmsg') hfoot', hmsg']
    have hwrite : Outcome h [msg, p] (some text ::ₘ {none})
        (h.set p (some (.state ⟨true, errcode, some msg⟩))) [msg, p] (some text ::ₘ {none}) :=
      outcome_write hread (.state ⟨true, errcode, some msg⟩) rfl (by simp) _
    have hall := ((hb.outcome.beside msg (some text)).trans (hout.beside msg (some text))).trans
      hwrite
    rw [hset, hstep]
    refine .some ⟨[p, msg], ?_, ?_⟩
    · rw [hslot]
      refine .shown ?_ ?_
      · rw [Malloc.read_set hread, if_pos rfl]
      · rw [Malloc.read_set hread, if_neg hmp, hmsg'']
    · have hblocks : recordBlocks (some (.shown ⟨errcode, text⟩)) = some text ::ₘ {none} :=
        Multiset.pair_comm none (some text)
      rw [hblocks]
      exact hall.perm (fun _ => Iff.rfl) (by simp [or_comm])

/-- A text for the record is copied and set.

**Proof sketch.** Without memory for the text nothing is set, and the record stays. Otherwise
the copy is a new block, outside the footprint, and `viewSetErr_spec` makes it the message. -/
lemma viewSetText_spec (hr : HoldsRecord v.heap v.slot r foot) (g : Grants) (errcode : ℤ)
    (args : List ErrorArg) :
    Option.Rel (fun v' r' => ∃ foot', Becomes v foot r v' r' foot')
      (viewSetText v g errcode (formatArgs (shownRecord r) args)) (setRecord r g errcode args) := by
  unfold viewSetText setRecord
  split
  · split
    · exact .some ⟨foot, Becomes.refl hr⟩
    · set text := formatArgs (shownRecord r) args with htext
      have halloc := outcome_alloc v.heap foot (recordBlocks r) (.message text)
      have hlt : ∀ q ∈ foot, q < v.heap.length := by
        intro q hq
        obtain ⟨b, hb⟩ := hr.live q hq
        exact Malloc.lt_of_read hb
      have hr' : HoldsRecord (Malloc.alloc v.heap (.message text)).1 v.slot r foot :=
        hr.frame (Malloc.frame_alloc [] v.heap _) (by simp) (by simp)
      have hset := viewSetErr_spec (v := ⟨(Malloc.alloc v.heap (.message text)).1, v.slot⟩) hr'
        (by rw [Malloc.read_alloc, if_pos rfl]) (fun hmem => lt_irrefl _ (hlt _ hmem)) g.state
        errcode args htext
      exact rel_mono hset fun v' r' ⟨foot', hholds, hout⟩ => ⟨foot', hholds, halloc.trans hout⟩
  · exact .none

/-- A message without the last one does not depend on it. -/
lemma formatArgs_of_not_mem {args : List ErrorArg} (h : .lastMessage ∉ args) (last last' : ErrRec) :
    formatArgs last args = formatArgs last' args := by
  induction args with
  | nil => rfl
  | cons arg args ih =>
    rw [List.mem_cons, not_or] at h
    cases arg with
    | text s => rw [formatArgs, formatArgs, ih h.2]
    | lastMessage => exact absurd rfl h.1

/-- `ta_error_set` reads the last message if the caller passes it, and sets the record.

**Proof sketch.** When the caller passes the last message, the record is read first
(`viewErrorLast_spec`), which may make its block; the text is then set by `viewSetText_spec`. -/
lemma viewErrorSet_spec (hr : HoldsRecord v.heap v.slot r foot) (g : Grants) (errcode : ℤ)
    (args : List ErrorArg) :
    Option.Rel (fun v' r' => ∃ foot', Becomes v foot r v' r' foot')
      (viewErrorSet v g errcode args)
      ((if .lastMessage ∈ args then (openRecord r g.state).map some else some r).bind fun r' =>
        setRecord r' g errcode args) := by
  unfold viewErrorSet
  split
  · rw [Option.bind_map]
    refine rel_bind (viewErrorLast_spec hr g.state) ?_
    rintro ⟨v', last⟩ e ⟨rfl, foot', hb⟩
    simp only [formatMessage_eq]
    exact rel_mono (viewSetText_spec hb.holds g errcode args) fun v'' r'' ⟨foot'', hb'⟩ =>
      ⟨foot'', hb.trans hb'⟩
  · rename_i hmem
    simp only [Option.bind_some, formatMessage_eq]
    rw [formatArgs_of_not_mem hmem none (shownRecord r)]
    exact viewSetText_spec hr g errcode args

/-- When the thread ends, its block goes, and a message that is shown stays.

**Proof sketch.** The block goes, if there is one. The message of a record that is shown is
pointed at by nothing else, so it stays in memory; that of a cleared record was given back. -/
lemma viewExit_spec (hr : HoldsRecord v.heap v.slot r foot) :
    ∃ h, viewExit v = some ⟨h, none⟩ ∧
      Outcome v.heap foot (recordBlocks r) h []
        (((shownRecord r).map ErrorT.message).toList.map some : List (Option Str)) := by
  have hall : ∀ {h' : Malloc.Heap GlobalBlock} {foot' : List ℕ}
      {held held' : Multiset (Option Str)}, Outcome v.heap foot held h' foot' held' →
        Outcome v.heap foot held h' [] held' :=
    fun h => ⟨h.frame, by simp, h.balance⟩
  obtain ⟨h, slot⟩ := v
  cases hr with
  | untouched => exact ⟨h, rfl, Outcome.refl _ _ _⟩
  | @unset p code hp =>
    refine ⟨h.set p none, ?_, outcome_release hp [] 0⟩
    simp [viewExit, Malloc.releasePtr, Malloc.release_of_read hp]
  | @shown p m error hp hm =>
    refine ⟨h.set p none, ?_, hall (outcome_release hp [m] {some error.message})⟩
    simp [viewExit, Malloc.releasePtr, Malloc.release_of_read hp]
  | @cleared p m code hp hlt hm =>
    refine ⟨h.set p none, ?_, outcome_release hp [] 0⟩
    simp [viewExit, Malloc.releasePtr, Malloc.release_of_read hp]

/-- A call of the error functions is what the thread expects. -/
lemma localError_spec (hr : HoldsRecord v.heap v.slot r foot) (g : Grants) (call : ErrorCall) :
    Option.Rel (fun v' r' => ∃ foot', Becomes v foot r v' r' foot') (localStep v (.error call g))
      (callRecord r g call) := by
  cases call with
  | set errcode args => exact viewErrorSet_spec hr g errcode args
  | clear => exact rel_map_right (viewErrorClear_spec hr g.state) fun _ _ h => h
  | last => exact rel_map (viewErrorLast_spec hr g.state) fun _ _ h => h.2

/-- **One call** fails exactly when its thread expects it to, and otherwise leaves the record that
the thread expects.

**Proof sketch.** The end of the thread is `viewExit_spec`, with the message that stays among
those it lost; a call of the error functions is `localError_spec`. -/
lemma localStep_spec {s : ThreadRecord} (hr : HoldsRecord v.heap v.slot s.record foot)
    (c : ThreadCall) :
    Option.Rel (fun v' s' => ∃ foot', HoldsRecord v'.heap v'.slot s'.record foot' ∧
        Outcome v.heap foot s.blocks v'.heap foot' s'.blocks)
      (localStep v c) (threadStep s c) := by
  cases c with
  | exit =>
    obtain ⟨h, hexit, hout⟩ := viewExit_spec hr
    rw [localStep, hexit, threadStep]
    refine .some ⟨[], .untouched, ?_⟩
    have hblocks : ThreadRecord.blocks
        ⟨none, s.lost ++ ((shownRecord s.record).map ErrorT.message).toList⟩ =
          (((shownRecord s.record).map ErrorT.message).toList.map some : List (Option Str)) +
            (s.lost.map some : List (Option Str)) := by
      rw [ThreadRecord.blocks, recordBlocks, zero_add, List.map_append, ← Multiset.coe_add,
        add_comm]
    rw [hblocks]
    exact hout.add _
  | error call g =>
    exact rel_map_right (localError_spec hr g call) fun v' r' ⟨foot', hb⟩ =>
      ⟨foot', hb.holds, hb.outcome.add _⟩

end Functions

end Taningia
