import Taningia.Atom.EntryRecord
import Taningia.Atom.Feed

set_option relaxedAutoImplicit false
set_option autoImplicit false

/-!
# Which entries a feed keeps

`ta_atom_feed_set_from_iks` keeps an entry when the error record is empty behind the entry parser,
and drops it when it is not. The entry parser never leaves the record as it was: a valid in-reply-to
IRI clears it, and otherwise an error is recorded, also when the parser returns `1`. As a second
entry would then set an error behind a cleared one, which releases a message twice, a feed that is
read without a fault has at most one entry.

## Main definitions

* `Taningia.goodEntries` — the entries that the entry parser returns `1` for.

## Main results

* `Taningia.readFeedTurns_cleared`, `Taningia.readFeedTurns_shown` — the loop over the children.
* `Taningia.feed_keeps_good_iff` — when the feed has the good entries.
-/

namespace Taningia

open Machine

variable {N : Type}

/-- The child is an entry. -/
def isEntry (x : Iksemel N) (child : N) : Bool := decide (x.name child = some "entry".toList)

/-- The entry that is read from the child alone, on a thread without an error. -/
def entryOf (x : Iksemel N) (lib : TimeLib) (now : ℤ) (child : N) : Option Entry :=
  match entrySetFromIks x lib (entryNew none now) .unset child with
  | some (value, call) => if value = 1 then some call.entry else none
  | none => none

/-- **The good entries** of a feed, in the order of the document; the `i`-th entry child is read at
the time `clock i`. -/
def goodEntries (x : Iksemel N) (lib : TimeLib) (clock : ℕ → ℤ) (ik : N) : List Entry :=
  ((x.children ik).filter (isEntry x)).zipIdx.filterMap fun c => entryOf x lib (clock c.2) c.1

/-! ## What the parts leave -/

/-- An IRI that is read keeps what the record tells, and nothing else changes.

**Proof sketch.** An accepted text sets no error. A rejected one sets an error over the one
recorded; behind a cleared record it does not return. -/
lemma readIri_ok {iri : Iri} {text : Str} {s s' : FeedParse N} {call : IriCall}
    {recorded : Bool} (hs : s.err.Tells recorded) (h : readIri iri text s = .ok (call, s')) :
    ∃ err, s' = { s with err := err } ∧ err.Tells recorded := by
  cases haccepts : iriAccepts text with
  | true =>
    obtain ⟨call', hcall, -⟩ := readIri_accepts haccepts iri s
    rw [hcall] at h
    cases h
    exact ⟨s.err, rfl, hs⟩
  | false =>
    cases recorded with
    | true =>
      obtain ⟨call', error, hcall, -⟩ := readIri_rejects (s := s) haccepts iri hs.ne_cleared
      rw [hcall] at h
      cases h
      exact ⟨_, rfl, .shown error⟩
    | false =>
      rw [readIri_rejects_cleared (s := s) haccepts iri hs.eq_cleared] at h
      cases h

/-- A rejected IRI is behind an error.

**Proof sketch.** An accepted text has another status, and a rejected one returns only behind an
error, over which it sets its own. -/
lemma readIri_rejected {iri : Iri} {text : Str} {s s' : FeedParse N} {call : IriCall}
    (h : readIri iri text s = .ok (call, s')) (hnot : cNot call.status = false) :
    ∃ error, s' = { s with err := .shown error } := by
  cases haccepts : iriAccepts text with
  | true =>
    obtain ⟨call', hcall, hholds⟩ := readIri_accepts haccepts iri s
    rw [hcall] at h
    cases h
    rw [hholds] at hnot
    cases hnot
  | false =>
    by_cases hs : s.err = .cleared
    · rw [readIri_rejects_cleared (s := s) haccepts iri hs] at h
      cases h
    · obtain ⟨call', error, hcall, -⟩ := readIri_rejects (s := s) haccepts iri hs
      rw [hcall] at h
      cases h
      exact ⟨error, rfl⟩

/-- A child that is no entry keeps the entries, and what the record tells. -/
structure KeepsEntries (s s' : FeedParse N) (recorded : Bool) : Prop where
  entries : s'.feed.entries = s.feed.entries
  created : s'.created = s.created
  record : s'.err.Tells recorded

/-- An author that returns leaves the entries, and what the record tells.

**Proof sketch.** Without a URI no error is set; with one both parses keep what the record
tells. -/
lemma readFeedAuthor_ok {x : Iksemel N} {child : N} {s s' : FeedParse N} {recorded : Bool}
    (hs : s.err.Tells recorded) (h : readFeedAuthor x child s = .ok s') :
    KeepsEntries s s' recorded := by
  unfold readFeedAuthor at h
  dsimp only at h
  split at h
  · exact absurd h (parsingError_ne_ok _ _ _)
  · split at h
    · cases h
      exact ⟨rfl, rfl, hs⟩
    · obtain ⟨⟨call₁, s₁⟩, h₁, h⟩ := bind_eq_ok_iff.mp h
      obtain ⟨⟨call₂, s₂⟩, h₂, h⟩ := bind_eq_ok_iff.mp h
      obtain ⟨err₁, rfl, hs₁⟩ := readIri_ok hs h₁
      obtain ⟨err₂, rfl, hs₂⟩ := readIri_ok hs₁ h₂
      dsimp only at h
      split_ifs at h
      · exact absurd h (parsingError_ne_ok _ _ _)
      · cases h
        exact ⟨rfl, rfl, hs₂⟩

/-- A category that returns leaves the entries, and what the record tells.

**Proof sketch.** Without a scheme no error is set; with one its parse keeps what the record
tells. -/
lemma readFeedCategory_ok {x : Iksemel N} {child : N} {s s' : FeedParse N} {recorded : Bool}
    (hs : s.err.Tells recorded) (h : readFeedCategory x child s = .ok s') :
    KeepsEntries s s' recorded := by
  unfold readFeedCategory at h
  dsimp only at h
  split at h
  · exact absurd h (parsingError_ne_ok _ _ _)
  · split at h
    · cases h
      exact ⟨rfl, rfl, hs⟩
    · obtain ⟨⟨call₁, s₁⟩, h₁, h⟩ := bind_eq_ok_iff.mp h
      obtain ⟨err₁, rfl, hs₁⟩ := readIri_ok hs h₁
      dsimp only at h
      split_ifs at h
      · exact absurd h (parsingError_ne_ok _ _ _)
      · cases h
        exact ⟨rfl, rfl, hs₁⟩

/-- What an entry child leaves behind an error. -/
structure ReadsEntry (x : Iksemel N) (lib : TimeLib) (clock : ℕ → ℤ) (child : N)
    (s s' : FeedParse N) (value : ℤ) (call : EntryParse N) : Prop where
  parsed : ∃ error,
    entrySetFromIks x lib (entryNew none (clock s.created)) (.shown error) child =
      some (value, call)
  entries : s'.feed.entries =
    s.feed.entries ++ if call.err = .cleared then [call.entry] else []

/-- **An entry child** is a fault behind a cleared record. Behind an error it is kept exactly when
the record is cleared, and in any case the record is cleared then.

**Proof sketch.** The call returned, so the record was not cleared before. When it left an error
the entry is dropped and the record cleared; when it cleared the record itself the entry is
appended. -/
lemma readFeedEntry_ok {x : Iksemel N} {lib : TimeLib} {clock : ℕ → ℤ} {child : N}
    {s s' : FeedParse N} {recorded : Bool} (hs : s.err.Tells recorded)
    (h : readFeedEntry x lib clock child s = .ok s') :
    recorded = true ∧ s'.err = .cleared ∧
      ∃ value call, ReadsEntry x lib clock child s s' value call := by
  unfold readFeedEntry at h
  cases hs' : s.err with
  | unset =>
    rw [hs'] at hs
    cases hs
  | cleared =>
    rw [hs', entrySetFromIks_cleared] at h
    cases h
  | shown error =>
    rw [hs'] at hs
    cases hs
    refine ⟨rfl, ?_⟩
    cases hcall : entrySetFromIks x lib (entryNew none (clock s.created)) s.err child with
    | none =>
      rw [hcall] at h
      cases h
    | some r =>
      obtain ⟨value, call⟩ := r
      rw [hcall] at h
      rw [hs'] at hcall
      have hset := (entrySetFromIks_record (by simp) hcall).2.set
      dsimp only at h
      cases hrecord : call.err with
      | unset => exact absurd hrecord hset
      | shown error' =>
        rw [hrecord] at h
        cases h
        exact ⟨rfl, value, call, ⟨error, hcall⟩, by simp [hrecord]⟩
      | cleared =>
        rw [hrecord] at h
        cases h
        exact ⟨rfl, value, call, ⟨error, hcall⟩, by simp [hrecord]⟩

/-- The loop body compares the name of a child with the three names, one after the other. -/
lemma readFeedChild_eq {x : Iksemel N} {lib : TimeLib} {clock : ℕ → ℤ} {child : N} {name : Str}
    (hname : x.name child = some name) (s : FeedParse N) :
    readFeedChild x lib clock s child =
      if name = "author".toList then readFeedAuthor x child s
      else if name = "category".toList then readFeedCategory x child s
      else if name = "entry".toList then readFeedEntry x lib clock child s
      else .ok s := by
  unfold readFeedChild nameIs
  simp only [hname, bind, Except.bind, pure, Except.pure, decide_eq_true_eq]

/-- **One turn of the loop.**

**Proof sketch.** The child has a name, or the turn were a fault. One case per name: an author,
a category and any other child keep the entries, and an entry is `readFeedEntry_ok`. -/
lemma readFeedTurn_ok {x : Iksemel N} {lib : TimeLib} {clock : ℕ → ℤ} {child : N}
    {s s' : FeedParse N} {recorded : Bool} (hs : s.err.Tells recorded)
    (h : readFeedTurn x lib clock s child = .ok s') :
    isEntry x child = false ∧ KeepsEntries s s' recorded ∨
      isEntry x child = true ∧ recorded = true ∧ s'.err = .cleared ∧
        ∃ value call, ReadsEntry x lib clock child s s' value call := by
  obtain ⟨s₁, hchild, h⟩ := bind_eq_ok_iff.mp h
  split_ifs at h
  swap
  · cases h
  cases h
  have hnamed : x.name child ≠ none := by
    intro hnone
    unfold readFeedChild nameIs at hchild
    rw [hnone] at hchild
    cases hchild
  obtain ⟨name, hname⟩ := Option.ne_none_iff_exists'.mp hnamed
  rw [readFeedChild_eq hname] at hchild
  have hentry : isEntry x child = decide (name = "entry".toList) := by
    rw [isEntry, hname]
    exact decide_eq_decide.mpr (Option.some_inj)
  rw [hentry]
  split_ifs at hchild with hauthor hcategory hname'
  · exact Or.inl ⟨by rw [hauthor]; rfl, readFeedAuthor_ok hs hchild⟩
  · exact Or.inl ⟨by rw [hcategory]; rfl, readFeedCategory_ok hs hchild⟩
  · exact Or.inr ⟨by rw [hname']; rfl, readFeedEntry_ok hs hchild⟩
  · cases hchild
    exact Or.inl ⟨decide_eq_false hname', rfl, rfl, hs⟩

/-! ## The loop over the children -/

/-- **Behind a cleared record** the loop meets no entry.

**Proof sketch.** Induction on the children: the first is no entry, which would need an error,
and the record stays cleared. -/
lemma readFeedTurns_cleared {x : Iksemel N} {lib : TimeLib} {clock : ℕ → ℤ} {children : List N}
    {s s' : FeedParse N} (hs : s.err = .cleared)
    (h : children.foldlM (readFeedTurn x lib clock) s = .ok s') :
    children.filter (isEntry x) = [] ∧ s'.feed.entries = s.feed.entries := by
  induction children generalizing s with
  | nil =>
    cases h
    exact ⟨rfl, rfl⟩
  | cons child children ih =>
    rw [List.foldlM_cons] at h
    obtain ⟨s₁, hturn, hrest⟩ := bind_eq_ok_iff.mp h
    rcases readFeedTurn_ok (hs ▸ ErrState.Tells.cleared) hturn with ⟨hentry, hkeeps⟩ | ⟨-, hno, -⟩
    · obtain ⟨hfilter, hentries⟩ := ih hkeeps.record.eq_cleared hrest
      rw [List.filter_cons_of_neg (by simp [hentry])]
      exact ⟨hfilter, hentries.trans hkeeps.entries⟩
    · cases hno

/-- **Behind an error** the loop meets at most one entry.

**Proof sketch.** Induction on the children. A child that is no entry hands the question on. The
first entry leaves the record cleared, and behind it there is no other
(`readFeedTurns_cleared`). -/
lemma readFeedTurns_shown {x : Iksemel N} {lib : TimeLib} {clock : ℕ → ℤ} {children : List N}
    {s s' : FeedParse N} (hs : s.err.Tells true)
    (h : children.foldlM (readFeedTurn x lib clock) s = .ok s') :
    children.filter (isEntry x) = [] ∧ s'.feed.entries = s.feed.entries ∨
      ∃ child value call, children.filter (isEntry x) = [child] ∧
        ReadsEntry x lib clock child s s' value call := by
  induction children generalizing s with
  | nil =>
    cases h
    exact Or.inl ⟨rfl, rfl⟩
  | cons child children ih =>
    rw [List.foldlM_cons] at h
    obtain ⟨s₁, hturn, hrest⟩ := bind_eq_ok_iff.mp h
    rcases readFeedTurn_ok hs hturn with
      ⟨hentry, hkeeps⟩ | ⟨hentry, -, hs₁, value, call, hreads⟩
    · rw [List.filter_cons_of_neg (by simp [hentry])]
      rcases ih hkeeps.record hrest with ⟨hfilter, hentries⟩ | ⟨c, value, call, hfilter, hreads⟩
      · exact Or.inl ⟨hfilter, hentries.trans hkeeps.entries⟩
      · refine Or.inr ⟨c, value, call, hfilter, ?_, ?_⟩
        · rw [← hkeeps.created]
          exact hreads.parsed
        · rw [← hkeeps.entries]
          exact hreads.entries
    · obtain ⟨hfilter, hentries⟩ := readFeedTurns_cleared hs₁ hrest
      rw [List.filter_cons_of_pos hentry, hfilter]
      exact Or.inr ⟨child, value, call, rfl, hreads.parsed, hentries.trans hreads.entries⟩

/-! ## The whole call -/

/-- The parts of the feed parser return nothing but `0` when they stop. -/
abbrev StopsZero {S : Type} (flow : FeedFlow N S) : Prop :=
  StopsWith (fun r => ∀ value s, r = some (value, s) → value = 0) flow

/-- A fault returns no value. -/
lemma stopsZero_fault {S : Type} : StopsZero (fault : FeedFlow N S) := by
  refine stopsWith_error ?_
  intro value s h
  cases h

/-- An error that is set returns no value. -/
lemma stopsZero_errorCall (s : FeedParse N) (call : ErrorCall) :
    StopsZero (errorCall s call) := by
  unfold errorCall
  split
  · exact stopsWith_ok _
  · exact stopsZero_fault

/-- A parsing error returns `0`. -/
lemma stopsZero_parsingError {S : Type} (s : FeedParse N) (message : String) :
    StopsZero (parsingError s message : FeedFlow N S) := by
  refine (stopsZero_errorCall _ _).bind fun s => stopsWith_error ?_
  intro value s' h
  cases h
  rfl

/-- A comparison of names returns no value. -/
lemma stopsZero_nameIs (x : Iksemel N) (n : N) (name : String) :
    StopsZero (nameIs x n name : FeedFlow N Bool) := by
  unfold nameIs
  split
  · exact stopsWith_ok _
  · exact stopsZero_fault

/-- An IRI that is read returns no value. -/
lemma stopsZero_readIri (iri : Iri) (text : Str) (s : FeedParse N) :
    StopsZero (readIri iri text s) := by
  unfold readIri
  dsimp only
  split
  · exact stopsWith_ok _
  · split
    · exact stopsWith_ok _
    · exact (stopsZero_errorCall _ _).bind fun s => stopsWith_ok _

/-- The root stops with `0`. -/
lemma stopsZero_readFeedRoot (x : Iksemel N) (ik : N) (s : FeedParse N) :
    StopsZero (readFeedRoot x ik s) := by
  refine (stopsZero_nameIs _ _ _).bind fun named => ?_
  split
  · exact stopsZero_parsingError _ _
  · exact stopsWith_ok _

/-- The required fields stop with `0`. -/
lemma stopsZero_readFeedRequired (x : Iksemel N) (ik : N) (s : FeedParse N) :
    StopsZero (readFeedRequired x ik s) := by
  unfold readFeedRequired
  split
  · exact stopsZero_parsingError _ _
  · refine (stopsZero_readIri _ _ _).bind fun call => ?_
    dsimp only
    split
    · exact stopsZero_parsingError _ _
    · split
      · exact stopsZero_parsingError _ _
      · exact stopsWith_ok _

/-- An author stops with `0`. -/
lemma stopsZero_readFeedAuthor (x : Iksemel N) (child : N) (s : FeedParse N) :
    StopsZero (readFeedAuthor x child s) := by
  unfold readFeedAuthor
  dsimp only
  split
  · exact stopsZero_parsingError _ _
  · split
    · exact stopsWith_ok _
    · refine (stopsZero_readIri _ _ _).bind fun call => ?_
      refine (stopsZero_readIri _ _ _).bind fun call => ?_
      split
      · exact stopsZero_parsingError _ _
      · exact stopsWith_ok _

/-- A category stops with `0`. -/
lemma stopsZero_readFeedCategory (x : Iksemel N) (child : N) (s : FeedParse N) :
    StopsZero (readFeedCategory x child s) := by
  unfold readFeedCategory
  dsimp only
  split
  · exact stopsZero_parsingError _ _
  · split
    · exact stopsWith_ok _
    · refine (stopsZero_readIri _ _ _).bind fun call => ?_
      split
      · exact stopsZero_parsingError _ _
      · exact stopsWith_ok _

/-- An entry stops with `0`. -/
lemma stopsZero_readFeedEntry (x : Iksemel N) (lib : TimeLib) (clock : ℕ → ℤ) (child : N)
    (s : FeedParse N) : StopsZero (readFeedEntry x lib clock child s) := by
  unfold readFeedEntry
  split
  · exact stopsZero_fault
  · dsimp only
    split
    · exact stopsZero_errorCall _ _
    · exact stopsWith_ok _

/-- A turn of the loop stops with `0`.

**Proof sketch.** One case per name that the loop compares with. -/
lemma stopsZero_readFeedTurn (x : Iksemel N) (lib : TimeLib) (clock : ℕ → ℤ) (s : FeedParse N)
    (child : N) : StopsZero (readFeedTurn x lib clock s child) := by
  refine StopsWith.bind ?_ fun s => ?_
  · cases hname : x.name child with
    | none =>
      unfold readFeedChild nameIs
      rw [hname]
      exact stopsZero_fault
    | some name =>
      rw [readFeedChild_eq hname]
      split_ifs
      · exact stopsZero_readFeedAuthor _ _ _
      · exact stopsZero_readFeedCategory _ _ _
      · exact stopsZero_readFeedEntry _ _ _ _ _
      · exact stopsWith_ok _
  · split
    · exact stopsWith_ok _
    · exact stopsZero_fault

/-- A call that returns `1` read all children, behind the error of the rejected id.

**Proof sketch.** Every part stops with `0` only, so a call that returned `1` went through to
the end. In front of the loop the identifier was rejected, which recorded an error, and no entry
was added. -/
lemma feedSetFromIks_one {x : Iksemel N} {lib : TimeLib} {clock : ℕ → ℤ} {feed : Feed}
    {err : ErrState} {ik : N} {s : FeedParse N}
    (h : feedSetFromIks x lib clock feed err ik = some (1, s)) :
    ∃ s₁, s₁.err.Tells true ∧ s₁.feed.entries = feed.entries ∧ s₁.created = 0 ∧
      (x.children ik).foldlM (readFeedTurn x lib clock) s₁ = .ok s := by
  have hread : readFeed x lib clock ik ⟨feed, err, [], 0⟩ = .ok s := by
    have hzero : StopsZero (readFeed x lib clock ik ⟨feed, err, [], 0⟩) :=
      (stopsZero_readFeedRoot _ _ _).bind fun _ => (stopsZero_readFeedRequired _ _ _).bind
        fun _ => stopsWith_foldlM (stopsZero_readFeedTurn x lib clock) _ _
    unfold feedSetFromIks at h
    split at h
    · next s' hread =>
      cases h
      exact hread
    · next r hread =>
      subst h
      cases hzero _ hread _ _ rfl
  obtain ⟨u, -, hread⟩ := bind_eq_ok_iff.mp hread
  obtain ⟨s₁, hrequired, hloop⟩ := bind_eq_ok_iff.mp hread
  unfold readFeedRequired at hrequired
  split at hrequired
  · exact absurd hrequired (parsingError_ne_ok _ _ _)
  · obtain ⟨⟨call, s₂⟩, hiri, hrequired⟩ := bind_eq_ok_iff.mp hrequired
    dsimp only at hrequired
    split at hrequired
    · exact absurd hrequired (parsingError_ne_ok _ _ _)
    · next hnot =>
      obtain ⟨error, rfl⟩ := readIri_rejected hiri (by simpa using hnot)
      split at hrequired
      · exact absurd hrequired (parsingError_ne_ok _ _ _)
      · cases hrequired
        exact ⟨_, .shown error, rfl, rfl, hloop⟩

/-- **Which entries a feed keeps.** When the feed parser returns `1`, the entries of the feed are
the good ones exactly when each entry child either stops the entry parser and does not clear the
error record, or clears it and does not stop the parser.

**Proof sketch.** The loop starts behind an error, so it meets at most one entry. That entry is kept
when the record is cleared, and good when the entry parser returns `1`, which it does alike on a
thread without an error. -/
theorem feed_keeps_good_iff (x : Iksemel N) (lib : TimeLib) (clock : ℕ → ℤ) (title : Option Str)
    (now : ℤ) (err : ErrState) (ik : N) (s : FeedParse N)
    (h : feedSetFromIks x lib clock (feedNew title now) err ik = some (1, s)) :
    s.feed.entries = goodEntries x lib clock ik ↔
      ∀ child ∈ x.children ik, x.name child = some "entry".toList →
        (StopsWithError x child ↔ ¬ ClearsRecord x child) := by
  obtain ⟨s₁, hs₁, hentries, hcreated, hloop⟩ := feedSetFromIks_one h
  have hmem : ∀ child, (child ∈ x.children ik ∧ x.name child = some "entry".toList) ↔
      child ∈ (x.children ik).filter (isEntry x) := by
    intro child
    rw [List.mem_filter, isEntry, decide_eq_true_eq]
  simp only [← and_imp, hmem]
  unfold goodEntries
  rcases readFeedTurns_shown hs₁ hloop with
    ⟨hfilter, hkept⟩ | ⟨child, value, call, hfilter, ⟨error, hparsed⟩, hkept⟩
  · rw [hfilter, hkept, hentries]
    simp [feedNew]
  · rw [hfilter, hkept, hentries]
    rw [hcreated] at hparsed
    obtain ⟨hvalue, hcleared⟩ := entrySetFromIks_record (by simp) hparsed
    -- what the parser returns for the child alone
    classical
    have hgood : entryOf x lib (clock 0) child =
        if StopsWithError x child then none else some call.entry := by
      unfold entryOf
      rcases hvalue with ⟨rfl, hstops⟩ | ⟨rfl, hstops⟩
      · rw [if_pos hstops]
        cases halone : entrySetFromIks x lib (entryNew none (clock 0)) .unset child with
        | none => rfl
        | some r =>
          obtain ⟨value, call'⟩ := r
          rcases (entrySetFromIks_record (by simp) halone).1 with ⟨rfl, -⟩ | ⟨rfl, hgoes⟩
          · rfl
          · exact absurd hstops hgoes
      · rw [if_neg hstops, entrySetFromIks_earlier (by simp) (by simp) hparsed]
        rfl
    by_cases hstops : StopsWithError x child <;> by_cases hclears : ClearsRecord x child <;>
      simp [feedNew, hgood, hstops, hclears, hcleared.cleared]

/-- A feed with the given entry, whose id is no IRI. -/
def feedAround (entry : XmlNode) : XmlNode :=
  .tag "feed".toList [] [.leaf "id" "1a", .leaf "title" "Planeta", entry]

/-- An entry without an id is dropped, as it should be. -/
theorem feed_keeps_good_noId :
    ∃ s, feedSetFromIks xmlNodes epochLib (fun _ => 0) (feedNew none 0) .unset
        (feedAround (.tag "entry".toList [] [.leaf "title" "Olha"])) = some (1, s) ∧
      s.feed.entries = goodEntries xmlNodes epochLib (fun _ => 0)
        (feedAround (.tag "entry".toList [] [.leaf "title" "Olha"])) := by
  obtain ⟨s, hs⟩ : ∃ s, feedSetFromIks xmlNodes epochLib (fun _ => 0) (feedNew none 0) .unset
      (feedAround (.tag "entry".toList [] [.leaf "title" "Olha"])) = some (1, s) := ⟨_, rfl⟩
  refine ⟨s, hs, (feed_keeps_good_iff _ _ _ _ _ _ _ _ hs).mpr ?_⟩
  intro child hchild hname
  have hentry : child = .tag "entry".toList [] [.leaf "title" "Olha"] := by
    have hcases : child = .leaf "id" "1a" ∨ child = .leaf "title" "Planeta" ∨
        child = .tag "entry".toList [] [.leaf "title" "Olha"] := by
      simpa [feedAround, xmlNodes, XmlNode.children] using hchild
    rcases hcases with rfl | rfl | rfl
    · exact absurd hname (by decide)
    · exact absurd hname (by decide)
    · rfl
  subst hentry
  have hid : xmlNodes.findCdata (.tag "entry".toList [] [.leaf "title" "Olha"]) "id".toList =
      none := rfl
  exact iff_of_true (Or.inr (Or.inl hid)) fun hclears => hclears.required (Or.inl hid)

/-- An entry that the entry parser returns `1` for is dropped: the error of its id is recorded. -/
theorem feed_keeps_good_dropped :
    ∃ s, feedSetFromIks xmlNodes epochLib (fun _ => 0) (feedNew none 0) .unset
        (feedAround (.tag "entry".toList [] [.leaf "id" "1a", .leaf "title" "Olha"])) =
          some (1, s) ∧
      s.feed.entries ≠ goodEntries xmlNodes epochLib (fun _ => 0)
        (feedAround (.tag "entry".toList [] [.leaf "id" "1a", .leaf "title" "Olha"])) :=
  ⟨_, rfl, by decide⟩

end Taningia
