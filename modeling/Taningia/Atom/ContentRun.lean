import Taningia.Atom.Objects
import Taningia.Lib.Machine
import Mathlib.Logic.Function.Basic

set_option relaxedAutoImplicit false
set_option autoImplicit false

/-!
# What a content holds after its setters

An `atom:content` has a text or a source. `ta_atom_content_set_content` and
`ta_atom_content_set_src` assign the one and are meant to drop the other. Here the source is the
address of an IRI with its reference count, so that a released IRI can be told from one that is
there.

## Main definitions

* `Taningia.ContentWorld` — a content, the counts of the IRIs, and the references of the callers.
* `Taningia.ContentCall`, `Taningia.ContentWorld.step` — the calls.
* `Taningia.Held`, `Taningia.Held.after` — what a content is meant to hold.
* `Taningia.ContentWorld.Shows` — the getters show it.

## Main results

* `Taningia.content_shows_iff` — the content shows what it is meant to hold all along a run exactly
  when no call of the run sets a text, and none sets a source that is stored and has no other
  reference.
* `Taningia.ContentWorld.value_setSrc`, `Taningia.ContentWorld.value_setContent` — with the IRIs as
  values these are the setters of `Taningia.Content`.
-/

namespace Taningia

/-! ## The setters on addresses -/

/-- A content with the address of its source, the reference counts of the IRIs, zero for those
that were destroyed, and the references that callers hold. The length and the counts stay within
`int`. -/
structure ContentWorld where
  content : OwnedStr
  len : ℕ
  src : Option ℕ
  count : ℕ → ℕ
  held : ℕ → ℕ

/-- `ta_object_ref`, a fault for an IRI that was destroyed. -/
def iriRef (count : ℕ → ℕ) (iri : ℕ) : Option (ℕ → ℕ) :=
  if count iri = 0 then none else some (Function.update count iri (count iri + 1))

/-- `ta_object_unref`, a fault for an IRI that was destroyed. -/
def iriUnref (count : ℕ → ℕ) (iri : ℕ) : Option (ℕ → ℕ) :=
  if count iri = 0 then none else some (Function.update count iri (count iri - 1))

/-- The text after `free (content->content); content->content = NULL;`, which only a text needs. -/
def OwnedStr.drop : OwnedStr → Option OwnedStr
  | .null | .text _ => some .null
  | .freed => none

/-- `ta_atom_content_set_src` -/
def ContentWorld.setSrc (w : ContentWorld) (src : ℕ) : Option ContentWorld :=
  match w.src with
  | some old => do
    let count ← iriUnref w.count old
    let content ← w.content.drop
    let count ← iriRef count src
    some { w with content := content, src := some src, count := count }
  | none => do
    let count ← iriRef w.count src
    some { w with src := some src, count := count }

/-- The first part of `ta_atom_content_set_content`: an old text is freed, and its address stays.
The source goes with it when there is a new text. -/
def ContentWorld.freeContent (w : ContentWorld) (text : Option Str) : Option ContentWorld :=
  match w.content with
  | .null => some w
  | .freed => none
  | .text _ =>
    match text, w.src with
    | some _, some old => do
      let count ← iriUnref w.count old
      some { w with content := .freed, src := none, count := count }
    | _, _ => some { w with content := .freed }

/-- `ta_atom_content_set_content`, which does not assign `len`. -/
def ContentWorld.setContent (w : ContentWorld) (text : Option Str) (len : ℕ) :
    Option ContentWorld := do
  let w ← w.freeContent text
  match text with
  | some text => some (if len ≠ 0 then { w with content := .text (text.take len) } else w)
  | none => some w

/-- `ta_atom_content_get_content`: the text and what is stored through `len`. -/
def ContentWorld.getContent (w : ContentWorld) : OwnedStr × ℕ := (w.content, w.len)

/-- `ta_atom_content_get_src` -/
def ContentWorld.getSrc (w : ContentWorld) : Option ℕ := w.src

/-- `ta_atom_content_new`, when callers hold references to IRIs. -/
def ContentWorld.new (held : ℕ → ℕ) : ContentWorld := ⟨.null, 0, none, held, held⟩

/-! ## Runs of calls -/

/-- The setters, and a caller that lets go of an IRI. -/
inductive ContentCall where
  | setContent (text : Option Str) (len : ℕ)
  | setSrc (src : ℕ)
  | unref (iri : ℕ)
deriving DecidableEq, Repr

/-- One call. -/
def ContentWorld.step (w : ContentWorld) : ContentCall → Option ContentWorld
  | .setContent text len => w.setContent text len
  | .setSrc src => w.setSrc src
  | .unref iri => (iriUnref w.count iri).map fun count =>
      { w with count := count, held := Function.update w.held iri (w.held iri - 1) }

/-- What callers promise: the text has the length that is given for it, the source is an IRI that
was not destroyed, and only a reference that is held is let go. -/
def ContentWorld.Legal (w : ContentWorld) : ContentCall → Prop
  | .setContent text len => ∀ s ∈ text, len ≤ s.length
  | .setSrc src => 0 < w.count src
  | .unref iri => 0 < w.held iri

/-- What a content is meant to hold. -/
inductive Held where
  | nothing
  | text (s : Str)
  | src (iri : ℕ)
deriving DecidableEq, Repr

/-- What is held, without a text. -/
def Held.clear : Held → Held
  | .nothing | .text _ => .nothing
  | .src iri => .src iri

/-- A content holds what was set last. No text and a text of length zero clear a text. -/
def Held.after (held : Held) : ContentCall → Held
  | .setContent (some s) len => if len ≠ 0 then .text (s.take len) else held.clear
  | .setContent none _ => held.clear
  | .setSrc iri => .src iri
  | .unref _ => held

/-- The getters return what is held, and nothing that was released. -/
def ContentWorld.Shows (w : ContentWorld) : Held → Prop
  | .nothing => w.getContent = (.null, 0) ∧ w.getSrc = none
  | .text s => w.getContent = (.text s, s.length) ∧ w.getSrc = none
  | .src iri => w.getContent = (.null, 0) ∧ w.getSrc = some iri ∧ 0 < w.count iri

/-- The calls that do not come upon what the setters do wrong. -/
def ContentWorld.Spared (w : ContentWorld) : ContentCall → Prop
  | .setContent text len => text = none ∨ len = 0
  | .setSrc src => w.src = some src → 1 < w.count src
  | .unref _ => True

/-! ## What every call keeps -/

/-- The counts are the references of the callers and the one that the content stores. -/
def ContentWorld.Counted (w : ContentWorld) : Prop :=
  ∀ a, w.count a = w.held a + if w.src = some a then 1 else 0

/-- What holds in every state: the counts are right, `len` was never assigned, and a text that is
stored is not empty. -/
structure ContentWorld.Kept (w : ContentWorld) : Prop where
  counted : w.Counted
  len : w.len = 0
  text : w.content ≠ .text []

/-- A live IRI is referenced. -/
lemma iriRef_eq_some {count : ℕ → ℕ} {iri : ℕ} (h : 0 < count iri) :
    iriRef count iri = some (Function.update count iri (count iri + 1)) := if_neg (by omega)

/-- A live IRI is let go. -/
lemma iriUnref_eq_some {count : ℕ → ℕ} {iri : ℕ} (h : 0 < count iri) :
    iriUnref count iri = some (Function.update count iri (count iri - 1)) := if_neg (by omega)

/-- A reference that was taken is one to a live IRI. -/
lemma of_iriRef {count count' : ℕ → ℕ} {iri : ℕ} (h : iriRef count iri = some count') :
    0 < count iri ∧ count' = Function.update count iri (count iri + 1) := by
  unfold iriRef at h
  split_ifs at h with hzero
  exact ⟨by omega, (Option.some.inj h).symm⟩

/-- A reference that was let go was one to a live IRI. -/
lemma of_iriUnref {count count' : ℕ → ℕ} {iri : ℕ} (h : iriUnref count iri = some count') :
    0 < count iri ∧ count' = Function.update count iri (count iri - 1) := by
  unfold iriUnref at h
  split_ifs at h with hzero
  exact ⟨by omega, (Option.some.inj h).symm⟩

/-- A new content keeps the counts. -/
lemma ContentWorld.kept_new (held : ℕ → ℕ) : (ContentWorld.new held).Kept :=
  ⟨fun _ => rfl, rfl, fun h => by cases h⟩

/-- A source that is set keeps the counts.

**Proof sketch.** Without a source one reference is taken and stored. With one the old reference
is let go, so the count of its IRI goes down as its stored reference does, and then the new one
is taken. -/
lemma ContentWorld.Kept.setSrc {w w' : ContentWorld} {src : ℕ} (hk : w.Kept)
    (h : w.setSrc src = some w') : w'.Kept := by
  obtain ⟨content, len, old, count, held⟩ := w
  obtain ⟨hcount, hlen, htext⟩ := hk
  simp only [ContentWorld.Counted] at hcount hlen htext
  cases old with
  | none =>
    obtain ⟨count₁, href, hw⟩ := Option.bind_eq_some_iff.mp h
    obtain ⟨-, rfl⟩ := of_iriRef href
    obtain rfl := Option.some.inj hw
    refine ⟨fun a => ?_, hlen, htext⟩
    have ha := hcount a
    by_cases hsrc : a = src
    · subst hsrc
      simpa using ha
    · simpa [Function.update_of_ne hsrc, Ne.symm hsrc] using ha
  | some old =>
    obtain ⟨count₁, hunref, h⟩ := Option.bind_eq_some_iff.mp h
    obtain ⟨dropped, hdrop, h⟩ := Option.bind_eq_some_iff.mp h
    obtain ⟨count₂, href, hw⟩ := Option.bind_eq_some_iff.mp h
    obtain ⟨hpos, rfl⟩ := of_iriUnref hunref
    obtain ⟨-, rfl⟩ := of_iriRef href
    obtain rfl := Option.some.inj hw
    refine ⟨fun a => ?_, hlen, ?_⟩
    · have ha := hcount a
      simp only [Function.update_apply, Option.some.injEq] at ha ⊢
      grind
    · cases content <;> cases hdrop <;> exact fun h => by cases h

/-- The text and the source that are dropped keep the counts.

**Proof sketch.** A text that was freed is a fault. With a new text the source is let go, if
there is one; without one it stays. -/
lemma ContentWorld.Kept.freeContent {w w' : ContentWorld} {text : Option Str} (hk : w.Kept)
    (h : w.freeContent text = some w') : w'.Kept := by
  obtain ⟨content, len, old, count, held⟩ := w
  obtain ⟨hcount, hlen, htext⟩ := hk
  cases content with
  | null =>
    obtain rfl := Option.some.inj h
    exact ⟨hcount, hlen, htext⟩
  | freed => cases h
  | text s =>
    cases text with
    | none =>
      obtain rfl := Option.some.inj h
      exact ⟨hcount, hlen, fun h => by cases h⟩
    | some _ =>
      cases old with
      | none =>
        obtain rfl := Option.some.inj h
        exact ⟨hcount, hlen, fun h => by cases h⟩
      | some old =>
        obtain ⟨count₁, hunref, hw⟩ := Option.bind_eq_some_iff.mp h
        obtain ⟨hpos, rfl⟩ := of_iriUnref hunref
        obtain rfl := Option.some.inj hw
        refine ⟨fun a => ?_, hlen, fun h => by cases h⟩
        have ha := hcount a
        simp only [Function.update_apply, Option.some.injEq] at ha ⊢
        grind

/-- A text that is set keeps the counts.

**Proof sketch.** After `freeContent` only the text is assigned. -/
lemma ContentWorld.Kept.setContent {w w' : ContentWorld} {text : Option Str} {len : ℕ} (hk : w.Kept)
    (hlegal : ∀ s ∈ text, len ≤ s.length) (h : w.setContent text len = some w') : w'.Kept := by
  obtain ⟨w₁, hfree, hw⟩ := Option.bind_eq_some_iff.mp h
  have hk₁ := hk.freeContent hfree
  cases text with
  | none =>
    obtain rfl := Option.some.inj hw
    exact hk₁
  | some s =>
    obtain rfl := Option.some.inj hw
    split_ifs with hlen
    · refine ⟨hk₁.counted, hk₁.len, fun hempty => ?_⟩
      have hs : s.length = 0 ∨ len = 0 := by simpa [or_comm] using hempty
      have := hlegal s rfl
      omega
    · exact hk₁

/-- A reference that the caller lets go keeps the counts. -/
lemma ContentWorld.Kept.unref {w : ContentWorld} {count : ℕ → ℕ} {iri : ℕ} (hk : w.Kept)
    (hheld : 0 < w.held iri) (h : iriUnref w.count iri = some count) :
    ContentWorld.Kept { w with
      count := count, held := Function.update w.held iri (w.held iri - 1) } := by
  obtain ⟨hpos, rfl⟩ := of_iriUnref h
  refine ⟨fun a => ?_, hk.len, hk.text⟩
  have ha := hk.counted a
  by_cases hiri : a = iri
  · subst hiri
    simp only [Function.update_self]
    omega
  · simpa [Function.update_of_ne hiri] using ha

/-- **Every call** keeps the counts right and `len` as it was. -/
lemma ContentWorld.Kept.step {w w' : ContentWorld} {c : ContentCall} (hk : w.Kept)
    (hlegal : w.Legal c) (h : w.step c = some w') : w'.Kept := by
  cases c with
  | setContent text len => exact hk.setContent hlegal h
  | setSrc src => exact hk.setSrc h
  | unref iri =>
    obtain ⟨count, hunref, rfl⟩ := Option.map_eq_some_iff.mp h
    exact hk.unref hlegal hunref

/-! ## One call -/

/-- As `len` is never assigned, no text is shown with its length. -/
lemma ContentWorld.Kept.not_shows_text {w : ContentWorld} (hk : w.Kept) (s : Str) :
    ¬ w.Shows (.text s) := by
  rintro ⟨hget, -⟩
  obtain ⟨htext, hlen⟩ := Prod.mk.inj hget
  rw [hk.len] at hlen
  exact hk.text (htext.trans (congrArg OwnedStr.text (List.length_eq_zero_iff.mp hlen.symm)))

/-- What is shown is not a text, so that clearing it changes nothing. -/
lemma ContentWorld.Kept.shows_clear {w : ContentWorld} {held : Held} (hk : w.Kept)
    (h : w.Shows held) : w.content = .null ∧ held.clear = held := by
  cases held with
  | nothing => exact ⟨congrArg Prod.fst h.1, rfl⟩
  | text s => exact absurd h (hk.not_shows_text s)
  | src iri => exact ⟨congrArg Prod.fst h.1, rfl⟩

/-- A text that is set is not shown, as its length is not stored.

**Proof sketch.** A content that shows what it holds has no text, so nothing is dropped. Without
a text nothing changes, and one of length zero is not assigned; any other text is assigned with
the length left at zero, so the getter shows a text of length zero. -/
lemma ContentWorld.exact_setContent {w : ContentWorld} {held : Held} {text : Option Str} {len : ℕ}
    (hk : w.Kept) (hs : w.Shows held) (hlegal : ∀ s ∈ text, len ≤ s.length) :
    (text = none ∨ len = 0) ↔
      ∃ w', w.setContent text len = some w' ∧ w'.Shows (held.after (.setContent text len)) := by
  obtain ⟨hnull, hclear⟩ := hk.shows_clear hs
  have hfree : w.freeContent text = some w := by
    unfold ContentWorld.freeContent
    rw [hnull]
  cases text with
  | none =>
    have hset : w.setContent none len = some w := by
      simp [ContentWorld.setContent, hfree]
    have hafter : held.after (.setContent none len) = held := hclear
    exact ⟨fun _ => ⟨w, hset, hafter.symm ▸ hs⟩, fun _ => Or.inl rfl⟩
  | some s =>
    by_cases hlen : len = 0
    · have hset : w.setContent (some s) len = some w := by
        simp [ContentWorld.setContent, hfree, hlen]
      have hafter : held.after (.setContent (some s) len) = held := by
        simp [Held.after, hlen, hclear]
      exact ⟨fun _ => ⟨w, hset, hafter.symm ▸ hs⟩, fun _ => Or.inr hlen⟩
    · constructor
      · rintro (h | h)
        · cases h
        · exact absurd h hlen
      · rintro ⟨w', hset, hshows⟩
        rw [Held.after, if_pos hlen] at hshows
        exact absurd hshows ((hk.setContent hlegal hset).not_shows_text _)

/-- A source that is set is shown, unless it was stored and goes with the only reference to it.

**Proof sketch.** Without a source the reference is taken and shown. With one the old reference
is let go first; if it was the last to the same IRI, the IRI is gone when the new reference is
to be taken. -/
lemma ContentWorld.exact_setSrc {w : ContentWorld} {held : Held} {src : ℕ} (hk : w.Kept)
    (hs : w.Shows held) (hlegal : 0 < w.count src) :
    (w.src = some src → 1 < w.count src) ↔
      ∃ w', w.setSrc src = some w' ∧ w'.Shows (.src src) := by
  obtain ⟨hnull, -⟩ := hk.shows_clear hs
  have hlen := hk.len
  obtain ⟨content, len, old, count, held'⟩ := w
  simp only at hnull hlen hlegal
  subst hnull hlen
  cases old with
  | none =>
    simp only [ContentWorld.setSrc, iriRef_eq_some hlegal, Option.bind_eq_bind, Option.bind_some]
    refine ⟨fun _ => ⟨_, rfl, rfl, rfl, ?_⟩, fun _ h => nomatch h⟩
    simp
  | some old =>
    have hold : 0 < count old := by
      have := hk.counted old
      simp only [if_true] at this
      omega
    simp only [ContentWorld.setSrc, iriUnref_eq_some hold, OwnedStr.drop, Option.bind_eq_bind,
      Option.bind_some, Option.some.injEq]
    constructor
    · intro h
      have hpos : 0 < Function.update count old (count old - 1) src := by
        by_cases hsame : src = old
        · subst hsame
          have := h rfl
          rw [Function.update_self]
          omega
        · rwa [Function.update_of_ne hsame]
      rw [iriRef_eq_some hpos]
      exact ⟨_, rfl, rfl, rfl, by simp⟩
    · rintro ⟨w', hset, -⟩ rfl
      obtain ⟨count₂, href, -⟩ := Option.bind_eq_some_iff.mp hset
      obtain ⟨hpos, -⟩ := of_iriRef href
      rw [Function.update_self] at hpos
      omega

/-- A caller that lets go of a reference leaves the one that the content stores.

**Proof sketch.** The caller holds a reference, so the count is positive; the content stores
what it stored, and its IRI is alive because the counts are kept. -/
lemma ContentWorld.shows_unref {w : ContentWorld} {held : Held} {iri : ℕ} (hk : w.Kept)
    (hs : w.Shows held) (hlegal : 0 < w.held iri) :
    ∃ w', w.step (.unref iri) = some w' ∧ w'.Shows held := by
  have hpos : 0 < w.count iri := by
    have := hk.counted iri
    omega
  have hstep : w.step (.unref iri) = some { w with
      count := Function.update w.count iri (w.count iri - 1),
      held := Function.update w.held iri (w.held iri - 1) } := by
    rw [ContentWorld.step, iriUnref_eq_some hpos, Option.map_some]
  refine ⟨_, hstep, ?_⟩
  have hk' := hk.step (c := .unref iri) hlegal hstep
  cases held with
  | nothing => exact hs
  | text s => exact hs
  | src a =>
    have hsrc : w.src = some a := hs.2.1
    refine ⟨hs.1, hs.2.1, ?_⟩
    have := hk'.counted a
    simp only [if_pos hsrc] at this ⊢
    omega

/-- **One call** from a content that shows what it holds. -/
lemma ContentWorld.step_exact {w : ContentWorld} {held : Held} {c : ContentCall} (hk : w.Kept)
    (hs : w.Shows held) (hlegal : w.Legal c) :
    w.Spared c ↔ ∃ w', w.step c = some w' ∧ w'.Shows (held.after c) := by
  cases c with
  | setContent text len => exact ContentWorld.exact_setContent hk hs hlegal
  | setSrc src => exact ContentWorld.exact_setSrc hk hs hlegal
  | unref iri => exact ⟨fun _ => ContentWorld.shows_unref hk hs hlegal, fun _ => trivial⟩

/-- **A content shows what it is meant to hold** after every call of a run exactly when no call sets
a text, and no call sets a source that is stored already and has no other reference.

**Proof sketch.** The rule for exact guards with a specification
(`Machine.guardedRun_iff_follows`): the counts are the invariant, and for one call the guard is
exact by `step_exact`. -/
theorem content_shows_iff (held : ℕ → ℕ) (calls : List ContentCall)
    (hlegal : Machine.GuardedRun ContentWorld.step ContentWorld.Legal (.new held) calls) :
    (∀ pre, pre <+: calls → ∃ w, Machine.run? ContentWorld.step (.new held) pre = some w ∧
        w.Shows (Machine.run Held.after .nothing pre)) ↔
      Machine.GuardedRun ContentWorld.step ContentWorld.Spared (.new held) calls := by
  have hnew : (ContentWorld.new held).Shows .nothing := ⟨rfl, rfl⟩
  have hkeep : ∀ (w : ContentWorld) (held : Held) (c : ContentCall) w', w.Kept → w.Shows held →
      w.Legal c → w.step c = some w' → w'.Shows (held.after c) → w'.Kept :=
    fun _ _ _ _ hk _ hl h _ => hk.step hl h
  have hexact : ∀ (w : ContentWorld) (held : Held) (c : ContentCall), w.Kept → w.Shows held →
      w.Legal c → (w.Spared c ↔ ∃ w', w.step c = some w' ∧ w'.Shows (held.after c)) :=
    fun _ _ _ hk hs hl => ContentWorld.step_exact hk hs hl
  exact (Machine.guardedRun_iff_follows hkeep hexact (ContentWorld.kept_new held) hnew
    hlegal).symm

/-- Sources that replace each other, while the caller keeps its references.

**Proof sketch.** `content_shows_iff`; each call is legal and spared, step by step. -/
theorem content_shows_twoSources :
    ∃ w, Machine.run? ContentWorld.step (.new fun _ => 1)
        [.setSrc 0, .setSrc 1, .unref 0, .setContent none 0] = some w ∧
      w.Shows (Machine.run Held.after .nothing
        [.setSrc 0, .setSrc 1, .unref 0, .setContent none 0]) := by
  refine (content_shows_iff (fun _ => 1)
    [.setSrc 0, .setSrc 1, .unref 0, .setContent none 0] ?_).mpr ?_ _ (List.prefix_refl _)
  · refine ⟨Nat.one_pos, fun w hw => ?_⟩
    obtain rfl := Option.some.inj hw
    refine ⟨Nat.one_pos, fun w hw => ?_⟩
    obtain rfl := Option.some.inj hw
    refine ⟨Nat.one_pos, fun w hw => ?_⟩
    obtain rfl := Option.some.inj hw
    refine ⟨fun s hs => ?_, fun _ _ => trivial⟩
    cases hs
  · refine ⟨fun h => ?_, fun w hw => ?_⟩
    · cases h
    obtain rfl := Option.some.inj hw
    refine ⟨fun h => ?_, fun w hw => ?_⟩
    · cases h
    obtain rfl := Option.some.inj hw
    exact ⟨trivial, fun _ _ => ⟨Or.inl rfl, fun _ _ => trivial⟩⟩

/-- A text of three letters is returned with length zero. -/
theorem content_shows_noLength :
    ¬ ∀ (held : ℕ → ℕ) (calls : List ContentCall),
      Machine.GuardedRun ContentWorld.step ContentWorld.Legal (.new held) calls →
      ∀ pre, pre <+: calls → ∃ w, Machine.run? ContentWorld.step (.new held) pre = some w ∧
        w.Shows (Machine.run Held.after .nothing pre) := by
  intro h
  have hlen : ∀ s ∈ some "abc".toList, 3 ≤ s.length := by
    rintro s ⟨⟩
    decide
  obtain ⟨w, hw, hshows⟩ := h (fun _ => 1) [.setContent (some "abc".toList) 3]
    ⟨hlen, fun _ _ => trivial⟩ _ (List.prefix_refl _)
  obtain rfl := Option.some.inj hw
  exact absurd (congrArg Prod.snd hshows.1) (by decide)

/-! ## The IRIs as values -/

/-- The content with the value of its source. -/
def ContentWorld.value (iris : ℕ → Iri) (type : Str) (w : ContentWorld) : Content :=
  ⟨type, w.content, w.len, w.src.map iris⟩

/-- **The setters on values.** When no IRI in use is destroyed, a setter does what it does to the
values.

**Proof sketch.** Both branches assign the source, and the text if there was a source; on values
nothing else happens. -/
lemma ContentWorld.value_setSrc (iris : ℕ → Iri) (type : Str) {w w' : ContentWorld} {src : ℕ}
    (h : w.setSrc src = some w') :
    contentSetSrc (w.value iris type) (iris src) = some (w'.value iris type) := by
  obtain ⟨content, len, old, count, held⟩ := w
  cases old with
  | none =>
    obtain ⟨count₁, -, hw⟩ := Option.bind_eq_some_iff.mp h
    obtain rfl := Option.some.inj hw
    rfl
  | some old =>
    obtain ⟨count₁, -, h⟩ := Option.bind_eq_some_iff.mp h
    obtain ⟨dropped, hdrop, h⟩ := Option.bind_eq_some_iff.mp h
    obtain ⟨count₂, -, hw⟩ := Option.bind_eq_some_iff.mp h
    obtain rfl := Option.some.inj hw
    cases content <;> cases hdrop <;> rfl

/-- A text that is set does what it does to the values.

**Proof sketch.** The same for what is dropped first, case by case on the old text and the new
one, and then for the text that is assigned. -/
lemma ContentWorld.value_setContent (iris : ℕ → Iri) (type : Str) {w w' : ContentWorld}
    {text : Option Str} {len : ℕ} (h : w.setContent text len = some w') :
    contentSetContent (w.value iris type) text len = some (w'.value iris type) := by
  obtain ⟨w₁, hfree, hw⟩ := Option.bind_eq_some_iff.mp h
  have hfirst : contentFreeContent (w.value iris type) text = some (w₁.value iris type) := by
    obtain ⟨content, clen, old, count, held⟩ := w
    cases content with
    | null =>
      obtain rfl := Option.some.inj hfree
      rfl
    | freed => cases hfree
    | text s =>
      cases text with
      | none =>
        obtain rfl := Option.some.inj hfree
        simp [contentFreeContent, ContentWorld.value]
      | some _ =>
        cases old with
        | none =>
          obtain rfl := Option.some.inj hfree
          simp [contentFreeContent, ContentWorld.value]
        | some old =>
          obtain ⟨count₁, -, hw₁⟩ := Option.bind_eq_some_iff.mp hfree
          obtain rfl := Option.some.inj hw₁
          simp [contentFreeContent, ContentWorld.value]
  rw [contentSetContent, hfirst, Option.map_some]
  cases text with
  | none =>
    obtain rfl := Option.some.inj hw
    rfl
  | some s =>
    obtain rfl := Option.some.inj hw
    congr 1
    simp only
    split_ifs <;> rfl

end Taningia
