import Taningia.Atom.EntryOutcome
import Taningia.Atom.FeedDecision

set_option relaxedAutoImplicit false
set_option autoImplicit false

/-!
# What a call of the feed parser leaves

As for an entry, what `ta_atom_feed_set_from_iks` leaves is a function of the element and of the
feed before the call. Behind an entry child the error record is cleared, so that the loop reads at
most one and does not stop behind it any more.

## Main definitions

* `Taningia.addFeedChild` — what a child adds to the feed.
* `Taningia.feedFate`, `Taningia.feedLeft` — what the call comes to, and the feed behind it.

## Main results

* `Taningia.readFeedTurn_leaves`, `Taningia.readFeedTurns_leaves` — one child, and all of them.
* `Taningia.feedSetFromIks_outcome` — the call.
* `Taningia.sweep_feed_stops`, `Taningia.sweep_feed_goesOn` — where the loop stops, or goes on.
* `Taningia.feedFate_faults_iff` — where a call is a fault.
-/

namespace Taningia

open Machine

variable {N : Type}

/-! ## What the element has -/

/-- The fields in front of the children are set. -/
def readFeedFields (x : Iksemel N) (lib : TimeLib) (ik : N) (feed : Feed) : Feed :=
  readFeedUpdated x lib ik { feed with
    id := (x.findCdata ik "id".toList).map parsedIri
    title := x.findCdata ik "title".toList }

/-- What is kept of a rejected text that is read twice. -/
def reparsedIri (text : Str) : Iri := (iriSetFromString (parsedIri text) text none).iri

/-- The person of an author element. -/
def feedAuthorOf (x : Iksemel N) (child : N) : Person :=
  personNew ((x.findCdata child "name".toList).getD []) (x.findCdata child "email".toList)
    (some (((x.findCdata child "uri".toList).map reparsedIri).getD iriNew))

/-- The entry of an entry element, when the error record is empty behind the entry parser. -/
def keptEntry (x : Iksemel N) (lib : TimeLib) (now : ℤ) (child : N) : Option Entry :=
  match entrySetFromIks x lib (entryNew none now) .unset child with
  | some (_, call) => if call.err.last = none then some call.entry else none
  | none => none

/-- What a child adds. -/
def addFeedChild (x : Iksemel N) (lib : TimeLib) (now : ℤ) (feed : Feed) (child : N) : Feed :=
  if x.name child = some "author".toList then
    { feed with authors := feed.authors ++ [feedAuthorOf x child] }
  else if x.name child = some "category".toList then
    { feed with categories := feed.categories ++ [categoryOf x child] }
  else if x.name child = some "entry".toList then
    { feed with entries := feed.entries ++ (keptEntry x lib now child).toList }
  else feed

/-! ## What the call comes to -/

/-- A child of the feed. An entry child without children is deleted under the loop. -/
def feedChildFate (x : Iksemel N) (recorded : Bool) (child : N) : ParseFate :=
  if x.name child = none then .faults
  else if x.name child = some "author".toList then
    partFate (x.findCdata child "name".toList) (x.findCdata child "uri".toList) recorded
  else if x.name child = some "category".toList then
    partFate (x.findAttrib child "term".toList) (x.findAttrib child "scheme".toList) recorded
  else if x.name child = some "entry".toList then
    if recorded = true ∧ x.hasChildren child = true ∧ entryFate x child ≠ .faults then .goesOn false
    else .faults
  else .goesOn recorded

/-- A child has one name. -/
lemma name_ne {x : Iksemel N} {child : N} {name : String} (h : x.name child = some name.toList)
    (other : String) (hne : name ≠ other) : x.name child ≠ some other.toList := by
  rw [h, ne_eq, Option.some.injEq]
  exact fun heq => hne (String.toList_injective heq)

/-- The fate of an entry child. -/
lemma feedChildFate_entry {x : Iksemel N} {child : N} (h : x.name child = some "entry".toList)
    (recorded : Bool) :
    feedChildFate x recorded child =
      if recorded = true ∧ x.hasChildren child = true ∧ entryFate x child ≠ .faults then
        .goesOn false
      else .faults := by
  unfold feedChildFate
  rw [if_neg (by simp [h]), if_neg (name_ne h "author" (by decide)),
    if_neg (name_ne h "category" (by decide)), if_pos h]

/-- What an entry child adds to the feed. -/
lemma addFeedChild_entry {x : Iksemel N} {child : N} (h : x.name child = some "entry".toList)
    (lib : TimeLib) (now : ℤ) (feed : Feed) :
    addFeedChild x lib now feed child =
      { feed with entries := feed.entries ++ (keptEntry x lib now child).toList } := by
  unfold addFeedChild
  rw [if_neg (name_ne h "author" (by decide)), if_neg (name_ne h "category" (by decide)), if_pos h]

/-- What a call comes to. -/
def feedFate (x : Iksemel N) (ik : N) : ParseFate :=
  if x.name ik = none then .faults
  else if ¬ RightRoot x "feed" ik ∨ RequiredStops x ik then .stops
  else (sweep (feedChildFate x) true (x.children ik)).2

/-- The feed behind a call. -/
def feedLeft (x : Iksemel N) (lib : TimeLib) (now : ℤ) (feed : Feed) (ik : N) : Feed :=
  if ¬ RightRoot x "feed" ik ∨ RequiredStops x ik then feed
  else (sweep (feedChildFate x) true (x.children ik)).1.foldl (addFeedChild x lib now)
    (readFeedFields x lib ik feed)

/-- The nodes that a call deletes itself. -/
def feedDeleted (x : Iksemel N) (ik : N) : List N := if RightRoot x "feed" ik then [] else [ik]

/-- A part of a call comes to a fate, and leaves the deleted nodes and the feed: one feed when it
goes on, another when it stops. -/
def ParseFate.LeavesFeed (goes stays : Feed) (deleted : List N) :
    ParseFate → FeedFlow N (FeedParse N) → Prop
  | .goesOn recorded, flow => ∃ err created, flow = .ok ⟨goes, err, deleted, created⟩ ∧
      err.Tells recorded ∧ (recorded = true → created = 0)
  | .stops, flow => ∃ message created,
      flow = .error (some (0, ⟨stays, .shown ⟨taAtomParsingError, message⟩, deleted, created⟩))
  | .faults, flow => flow = fault

/-! ## What the helpers do -/

/-- A way to read an IRI: an accepted text makes the `!` hold and keeps the record, a rejected one
gives its IRI and records an error. -/
structure ReadsIri (read : Str → FeedParse N → FeedFlow N (IriCall × FeedParse N))
    (kept : Str → Iri) : Prop where
  accepts : ∀ text s, iriAccepts text = true →
    ∃ call, read text s = .ok (call, s) ∧ cNot call.status = true
  rejects : ∀ text s, iriAccepts text = false → s.err ≠ .cleared →
    ∃ call error, read text s = .ok (call, { s with err := .shown error }) ∧
      cNot call.status = false ∧ call.iri = kept text
  cleared : ∀ text s, iriAccepts text = false → s.err = .cleared → read text s = fault

/-- Reading into an IRI is such a way. -/
lemma readIri_reads (iri : Iri) :
    ReadsIri (N := N) (readIri iri) fun text => (iriSetFromString iri text none).iri where
  accepts _ s h := readIri_accepts h iri s
  rejects _ s h hs := readIri_rejects (s := s) h iri hs
  cleared _ s h hs := readIri_rejects_cleared (s := s) h iri hs

/-- The uri of an author is read into the same IRI again. -/
def feedReadUri (uri : Str) (s : FeedParse N) : FeedFlow N (IriCall × FeedParse N) := do
  let (call, s) ← readIri iriNew uri s
  readIri call.iri uri s

/-- The URI of an author is parsed twice, the second time into the IRI of the first.

**Proof sketch.** Both parses accept or reject alike, since whether a text is accepted depends
on the text alone. -/
lemma feedReadUri_reads : ReadsIri (N := N) feedReadUri reparsedIri where
  accepts uri s h := by
    obtain ⟨call, hcall, -⟩ := (readIri_reads iriNew).accepts uri s h
    obtain ⟨call', hcall', hnot⟩ := (readIri_reads call.iri).accepts uri s h
    refine ⟨call', ?_, hnot⟩
    simp only [feedReadUri, hcall, bind, Except.bind, hcall']
  rejects uri s h hs := by
    obtain ⟨call, error, hcall, -, hiri⟩ := (readIri_reads iriNew).rejects uri s h hs
    obtain ⟨call', error', hcall', hnot, hiri'⟩ :=
      (readIri_reads call.iri).rejects uri { s with err := .shown error } h (by simp)
    refine ⟨call', error', ?_, hnot, ?_⟩
    · simp only [feedReadUri, hcall, bind, Except.bind, hcall']
    · rw [hiri', hiri]
      rfl
  cleared uri s h hs := by
    simp only [feedReadUri, (readIri_reads iriNew).cleared uri s h hs]
    rfl

/-! ## One child -/

section Child

variable {x : Iksemel N} {child : N} {s : FeedParse N} {recorded : Bool}

/-- **A part of a feed** follows its fate.

**Proof sketch.** By cases on the required text and the IRI, with the lemma on `partFate` for
each; what `read` does with an accepted and a rejected text, and behind a cleared record, is
`hread`. -/
lemma leavesFeed_part {read : Str → FeedParse N → FeedFlow N (IriCall × FeedParse N)}
    {kept : Str → Iri} (hread : ReadsIri read kept) (required : Option Str) (missing : String)
    (iri : Option Str) (invalid : String) (add : Str → Option Iri → Feed → Feed)
    (hs : s.err.Tells recorded) (hcreated : recorded = true → s.created = 0) :
    (partFate required iri recorded).LeavesFeed
      (add (required.getD []) (iri.map kept) s.feed) s.feed
      s.deleted
      (match required with
        | none => parsingError s missing
        | some text =>
          match iri with
          | none => .ok { s with feed := add text none s.feed }
          | some iri => do
            let (call, s) ← read iri s
            if cNot call.status then parsingError s invalid
            else .ok { s with feed := add text (some call.iri) s.feed }) := by
  cases required with
  | none =>
    rw [partFate_missing]
    cases recorded with
    | true => exact ⟨_, _, parsingError_eq hs.ne_cleared missing⟩
    | false => exact parsingError_cleared hs.eq_cleared missing
  | some text =>
    cases iri with
    | none =>
      rw [partFate_bare]
      exact ⟨s.err, s.created, rfl, hs, hcreated⟩
    | some iri =>
      cases haccepts : iriAccepts iri with
      | true =>
        obtain ⟨call, hcall, hnot⟩ := hread.accepts iri s haccepts
        rw [partFate_accepted haccepts]
        simp only [hcall, hnot, bind, Except.bind, if_true]
        cases recorded with
        | true => exact ⟨_, _, parsingError_eq hs.ne_cleared invalid⟩
        | false => exact parsingError_cleared hs.eq_cleared invalid
      | false =>
        rw [partFate_rejected haccepts]
        cases recorded with
        | true =>
          obtain ⟨call, error, hcall, hnot, hiri⟩ := hread.rejects iri s haccepts hs.ne_cleared
          simp only [hcall, hnot, hiri, bind, Except.bind, Bool.false_eq_true, if_false]
          exact ⟨_, s.created, rfl, .shown _, hcreated⟩
        | false =>
          simp only [hread.cleared iri s haccepts hs.eq_cleared]
          rfl

/-- An author of a feed follows the fate of a part.

**Proof sketch.** `leavesFeed_part` with the two parses of its URI. -/
lemma readFeedAuthor_leaves (hs : s.err.Tells recorded)
    (hcreated : recorded = true → s.created = 0) :
    (partFate (x.findCdata child "name".toList) (x.findCdata child "uri".toList)
      recorded).LeavesFeed { s.feed with authors := s.feed.authors ++ [feedAuthorOf x child] }
      s.feed s.deleted (readFeedAuthor x child s) := by
  have hpart := leavesFeed_part feedReadUri_reads (x.findCdata child "name".toList)
    "Author with no name" (x.findCdata child "uri".toList) "Author with an invalid iri in uri field"
    (fun name iri feed => { feed with authors := feed.authors ++
      [personNew name (x.findCdata child "email".toList) (some (iri.getD iriNew))] }) hs hcreated
  unfold readFeedAuthor feedAuthorOf
  cases hname : x.findCdata child "name".toList with
  | none =>
    rw [hname] at hpart
    exact hpart
  | some name =>
    cases huri : x.findCdata child "uri".toList with
    | none =>
      rw [hname, huri] at hpart
      exact hpart
    | some uri =>
      rw [hname, huri] at hpart
      dsimp only [feedReadUri] at hpart
      rw [bind_assoc] at hpart
      exact hpart

/-- A category of a feed follows the fate of a part. -/
lemma readFeedCategory_leaves (hs : s.err.Tells recorded)
    (hcreated : recorded = true → s.created = 0) :
    (partFate (x.findAttrib child "term".toList) (x.findAttrib child "scheme".toList)
      recorded).LeavesFeed
      { s.feed with categories := s.feed.categories ++ [categoryOf x child] } s.feed s.deleted
      (readFeedCategory x child s) :=
  leavesFeed_part (readIri_reads iriNew) (x.findAttrib child "term".toList)
    "Category with no term attribute" (x.findAttrib child "scheme".toList)
    "Category scheme attribute is not a valid iri"
    (fun term iri feed => { feed with categories := feed.categories ++
      [categoryNew term (x.findAttrib child "label".toList) iri] }) hs hcreated

/-- **An entry child** behind an error clears the record, unless it is a fault.

**Proof sketch.** The entry parser is called with a new entry and the record as it is. When it
is no fault its outcome is known, whatever the error recorded before: a value with the record
left, in which case the entry is dropped and the record cleared, or an entry kept behind a
record that the call cleared itself. -/
lemma readFeedEntry_shown (x : Iksemel N) (child : N) (lib : TimeLib) (clock : ℕ → ℤ)
    (hs : s.err.Tells true) (hcreated : s.created = 0) :
    if entryFate x child = .faults then readFeedEntry x lib clock child s = fault
    else ∃ created, readFeedEntry x lib clock child s =
      .ok ⟨{ s.feed with entries := s.feed.entries ++ (keptEntry x lib (clock 0) child).toList },
        .cleared, s.deleted ++ entryDeleted x child, created⟩ := by
  have hne := hs.ne_cleared
  split_ifs with hfaults
  · have hcall : entrySetFromIks x lib (entryNew none (clock s.created)) s.err child = none := by
      have houtcome := entrySetFromIks_outcome x lib (entryNew none (clock s.created)) child hne
      rw [hfaults] at houtcome
      exact houtcome
    unfold readFeedEntry
    rw [hcall]
  · obtain ⟨value, call, hcall⟩ := (exists_entrySetFromIks_iff x lib
      (entryNew none (clock s.created)) child hne).mpr hfaults
    obtain ⟨-, hdeleted, -⟩ := entrySetFromIks_left hcall
    obtain ⟨call', hcall', hentry, -, hlast⟩ :=
      entrySetFromIks_congr (by simp : ErrState.unset ≠ .cleared) hcall
    have hset := (entrySetFromIks_record hne hcall).2.set
    rw [hcreated] at hcall'
    unfold readFeedEntry keptEntry
    rw [hcall, hcall']
    dsimp only
    simp only [hlast]
    rw [hentry, ← hdeleted]
    cases herr : call.err with
    | unset => exact absurd herr hset
    | shown error =>
      refine ⟨s.created + 1, ?_⟩
      simp [errorCall, errStateStep, ErrState.last]
    | cleared =>
      refine ⟨s.created + 1, ?_⟩
      simp [ErrState.last]

/-- Behind a cleared record an entry child is a fault. -/
lemma readFeedEntry_cleared {lib : TimeLib} {clock : ℕ → ℤ} (hs : s.err.Tells false) :
    readFeedEntry x lib clock child s = fault := by
  unfold readFeedEntry
  rw [hs.eq_cleared, entrySetFromIks_cleared]

/-- The step to the next child, when nothing is deleted.

**Proof sketch.** Each of the three fates leaves no node deleted, so the test in front of the
next child is passed. -/
lemma ParseFate.LeavesFeed.next {fate : ParseFate} {goes stays : Feed}
    {flow : FeedFlow N (FeedParse N)} (h : fate.LeavesFeed goes stays [] flow) :
    fate.LeavesFeed goes stays []
      (flow >>= fun s => if s.deleted.isEmpty then pure s else fault) := by
  cases fate with
  | goesOn recorded =>
    obtain ⟨err, created, rfl, htells, hcreated⟩ := h
    exact ⟨err, created, rfl, htells, hcreated⟩
  | stops =>
    obtain ⟨message, created, rfl⟩ := h
    exact ⟨message, created, rfl⟩
  | faults =>
    have hflow : flow = fault := h
    rw [hflow]
    rfl

/-- An entry child.

**Proof sketch.** Behind a cleared record the child is a fault. Behind an error
`readFeedEntry_shown` gives the feed, and the loop goes on exactly when the call deleted
nothing, which is when it had children. -/
lemma readFeedEntry_leaves (lib : TimeLib) (clock : ℕ → ℤ) (hs : s.err.Tells recorded)
    (hcreated : recorded = true → s.created = 0) (hdeleted : s.deleted = [])
    (hname : x.name child = some "entry".toList) :
    ParseFate.LeavesFeed
      { s.feed with entries := s.feed.entries ++ (keptEntry x lib (clock 0) child).toList }
      s.feed []
      (if recorded = true ∧ x.hasChildren child = true ∧ entryFate x child ≠ .faults then
        .goesOn false else .faults)
      (readFeedEntry x lib clock child s >>=
        fun s => if s.deleted.isEmpty then pure s else fault) := by
  cases recorded with
  | false =>
    rw [if_neg (by simp), readFeedEntry_cleared hs]
    rfl
  | true =>
    have hentry := readFeedEntry_shown x child lib clock hs (hcreated rfl)
    by_cases hfaults : entryFate x child = .faults
    · rw [if_pos hfaults] at hentry
      rw [if_neg (fun h => h.2.2 hfaults), hentry]
      rfl
    · rw [if_neg hfaults] at hentry
      obtain ⟨created, hentry⟩ := hentry
      rw [hentry, hdeleted]
      by_cases hchildren : x.hasChildren child = true
      · rw [if_pos ⟨rfl, hchildren, hfaults⟩]
        refine ⟨.cleared, created, ?_, .cleared, by simp⟩
        simp only [entryDeleted, if_pos (show RightRoot x "entry" child from ⟨hname, hchildren⟩)]
        rfl
      · rw [if_neg (fun h => hchildren h.2.1)]
        simp only [entryDeleted,
          if_neg (show ¬ RightRoot x "entry" child from fun h => hchildren h.2)]
        rfl

/-- **One turn of the loop.**

**Proof sketch.** One case per name that the loop compares with. -/
lemma readFeedTurn_leaves (lib : TimeLib) (clock : ℕ → ℤ) (hs : s.err.Tells recorded)
    (hcreated : recorded = true → s.created = 0) (hdeleted : s.deleted = []) :
    (feedChildFate x recorded child).LeavesFeed (addFeedChild x lib (clock 0) s.feed child)
      s.feed []
      (readFeedTurn x lib clock s child) := by
  cases hname : x.name child with
  | none =>
    unfold feedChildFate readFeedTurn readFeedChild nameIs
    rw [if_pos hname, hname]
    rfl
  | some name =>
    unfold feedChildFate addFeedChild readFeedTurn
    rw [readFeedChild_eq hname]
    simp only [hname, Option.some.injEq, reduceCtorEq, if_false]
    by_cases hauthor : name = "author".toList
    · simp only [if_pos hauthor]
      exact (hdeleted ▸ readFeedAuthor_leaves hs hcreated).next
    by_cases hcategory : name = "category".toList
    · simp only [if_neg hauthor, if_pos hcategory]
      exact (hdeleted ▸ readFeedCategory_leaves hs hcreated).next
    by_cases hentry : name = "entry".toList
    · simp only [if_neg hauthor, if_neg hcategory, if_pos hentry]
      exact readFeedEntry_leaves lib clock hs hcreated hdeleted (hentry ▸ hname)
    · simp only [if_neg hauthor, if_neg hcategory, if_neg hentry]
      have hleaves : ParseFate.LeavesFeed s.feed s.feed [] (.goesOn recorded)
          (.ok s : FeedFlow N (FeedParse N)) := ⟨s.err, s.created, by rw [← hdeleted], hs, hcreated⟩
      exact hleaves.next

end Child

/-! ## All children -/

/-- **All children**: the loop adds the children that it is through with.

**Proof sketch.** Induction on the children: the first child has its fate and adds its part
(`readFeedTurn_leaves`), and where it goes on the induction hypothesis continues from the feed
and the record that it left. -/
lemma readFeedTurns_leaves (x : Iksemel N) (lib : TimeLib) (clock : ℕ → ℤ) (children : List N)
    {s : FeedParse N} {recorded : Bool} (hs : s.err.Tells recorded)
    (hcreated : recorded = true → s.created = 0) (hdeleted : s.deleted = []) :
    (sweep (feedChildFate x) recorded children).2.LeavesFeed
      ((sweep (feedChildFate x) recorded children).1.foldl (addFeedChild x lib (clock 0)) s.feed)
      ((sweep (feedChildFate x) recorded children).1.foldl (addFeedChild x lib (clock 0)) s.feed) []
      (children.foldlM (readFeedTurn x lib clock) s) := by
  induction children generalizing s recorded with
  | nil =>
    obtain ⟨feed, err, deleted, created⟩ := s
    obtain rfl : deleted = [] := hdeleted
    exact ⟨err, created, rfl, hs, hcreated⟩
  | cons child children ih =>
    have hchild : (feedChildFate x recorded child).LeavesFeed
        (addFeedChild x lib (clock 0) s.feed child) s.feed [] (readFeedTurn x lib clock s child) :=
      readFeedTurn_leaves lib clock hs hcreated hdeleted
    rw [List.foldlM_cons, sweep]
    cases hfate : feedChildFate x recorded child with
    | goesOn recorded' =>
      rw [hfate] at hchild
      obtain ⟨err, created, hread, htells, hcreated'⟩ := hchild
      rw [hread]
      exact ih (s := ⟨addFeedChild x lib (clock 0) s.feed child, err, [], created⟩) htells
        hcreated' rfl
    | stops =>
      rw [hfate] at hchild
      obtain ⟨message, created, hread⟩ := hchild
      rw [hread]
      exact ⟨message, created, rfl⟩
    | faults =>
      rw [hfate] at hchild
      have hread : readFeedTurn x lib clock s child = fault := hchild
      rw [hread]
      rfl

/-- The loop over children that are gone through.

**Proof sketch.** Of the three fates of the sweep only the first is a loop that returns. -/
lemma readFeedTurns_ok {x : Iksemel N} {lib : TimeLib} {clock : ℕ → ℤ} {children : List N}
    {s s' : FeedParse N} {recorded : Bool} (hs : s.err.Tells recorded)
    (hcreated : recorded = true → s.created = 0) (hdeleted : s.deleted = [])
    (h : children.foldlM (readFeedTurn x lib clock) s = .ok s') :
    ∃ recorded', (sweep (feedChildFate x) recorded children).2 = .goesOn recorded' ∧
      s'.err.Tells recorded' := by
  have hleaves := readFeedTurns_leaves x lib clock children hs hcreated hdeleted
  cases hwalk : (sweep (feedChildFate x) recorded children).2 with
  | goesOn recorded' =>
    rw [hwalk] at hleaves
    obtain ⟨err, created, hread, htells, -⟩ := hleaves
    obtain rfl := Except.ok.inj (h.symm.trans hread)
    exact ⟨recorded', rfl, htells⟩
  | stops =>
    rw [hwalk] at hleaves
    obtain ⟨message, created, hread⟩ := hleaves
    cases h.symm.trans hread
  | faults =>
    rw [hwalk] at hleaves
    cases h.symm.trans hleaves

/-! ## The call -/

/-- A root as it should be does not stop the parser. -/
lemma readFeedRoot_right {x : Iksemel N} {ik : N} (h : RightRoot x "feed" ik) (s : FeedParse N) :
    readFeedRoot x ik s = .ok () := by
  unfold readFeedRoot nameIs
  simp only [h.1, h.2, bind, Except.bind]
  rfl

/-- A named root that is not as it should be stops the parser, and is deleted.

**Proof sketch.** The test of the code is the negation of `RightRoot`. -/
lemma readFeedRoot_wrong {x : Iksemel N} {ik : N} (hname : x.name ik ≠ none)
    (h : ¬ RightRoot x "feed" ik) {s : FeedParse N} (hs : s.err ≠ .cleared) :
    ∃ message, readFeedRoot x ik s = .error (some (0, { s with
      err := .shown ⟨taAtomParsingError, message⟩, deleted := s.deleted ++ [ik] })) := by
  obtain ⟨name, hname⟩ := Option.ne_none_iff_exists'.mp hname
  unfold RightRoot at h
  rw [hname, Option.some.injEq] at h
  unfold readFeedRoot nameIs
  simp only [hname, bind, Except.bind]
  rw [if_pos]
  · exact ⟨_, parsingError_eq (s := { s with deleted := s.deleted ++ [ik] }) hs _⟩
  · rw [Bool.or_eq_true, Bool.not_eq_true', Bool.not_eq_true', decide_eq_false_iff_not,
      ← Bool.not_eq_true]
    exact not_and_or.mp h

/-- A required field that is missing, or an accepted identifier, stops the parser.

**Proof sketch.** In the order of the code: the identifier is missing; it is accepted, which is
taken for a failure; it is rejected and the title is missing. -/
lemma readFeedRequired_stops {x : Iksemel N} {ik : N} (h : RequiredStops x ik) {s : FeedParse N}
    (hs : s.err ≠ .cleared) :
    ∃ message, readFeedRequired x ik s =
      .error (some (0, { s with err := .shown ⟨taAtomParsingError, message⟩ })) := by
  unfold readFeedRequired
  unfold RequiredStops at h
  cases hid : x.findCdata ik "id".toList with
  | none => exact ⟨_, parsingError_eq hs _⟩
  | some id =>
    cases haccepts : iriAccepts id with
    | true =>
      obtain ⟨call, hcall, hnot⟩ := (readIri_reads iriNew).accepts id s haccepts
      simp only [hcall, hnot, bind, Except.bind, if_true]
      exact ⟨_, parsingError_eq hs _⟩
    | false =>
      have htitle : x.findCdata ik "title".toList = none := by
        rw [hid] at h
        simpa only [reduceCtorEq, accepted_some, haccepts, Bool.false_eq_true, false_or] using h
      obtain ⟨call, error, hcall, hnot, -⟩ := (readIri_reads iriNew).rejects id s haccepts hs
      simp only [hcall, hnot, bind, Except.bind, Bool.false_eq_true, if_false, htitle]
      exact ⟨_, parsingError_eq (s := { s with err := .shown error }) (by simp) _⟩

/-- Required fields that are there, with a rejected identifier, are stored behind its error.

**Proof sketch.** The identifier and the title are there and the identifier is rejected, so its
parse returns with an error shown, and neither test stops the parser. -/
lemma readFeedRequired_goesOn {x : Iksemel N} {ik : N} (h : ¬ RequiredStops x ik) {s : FeedParse N}
    (hs : s.err ≠ .cleared) :
    ∃ error, readFeedRequired x ik s = .ok { s with
      feed := { s.feed with
        id := (x.findCdata ik "id".toList).map parsedIri
        title := x.findCdata ik "title".toList }
      err := .shown error } := by
  obtain ⟨id, title, hid, htitle, haccepts⟩ := exists_of_not_requiredStops h
  obtain ⟨call, error, hcall, hnot, hiri⟩ := (readIri_reads iriNew).rejects id s haccepts hs
  refine ⟨error, ?_⟩
  unfold readFeedRequired
  rw [hid, htitle]
  simp only [hcall, hnot, hiri, bind, Except.bind, Bool.false_eq_true, if_false]
  rfl

/-- Behind a cleared record the required fields are a fault.

**Proof sketch.** Each way through them sets an error. -/
lemma readFeedRequired_cleared (x : Iksemel N) (ik : N) {s : FeedParse N} (hs : s.err = .cleared) :
    readFeedRequired x ik s = fault := by
  unfold readFeedRequired
  cases x.findCdata ik "id".toList with
  | none => exact parsingError_cleared hs _
  | some id =>
    cases haccepts : iriAccepts id with
    | true =>
      obtain ⟨call, hcall, hnot⟩ := (readIri_reads iriNew).accepts id s haccepts
      simp only [hcall, hnot, bind, Except.bind, if_true]
      exact parsingError_cleared hs _
    | false =>
      simp only [(readIri_reads iriNew).cleared id s haccepts hs]
      rfl

/-- **Behind a cleared record** the parser is a fault, as each way through it sets an error.

**Proof sketch.** A root as it should be leads to the required fields, which fault; any other
root sets an error, or is compared with a missing name. -/
lemma feedSetFromIks_cleared (x : Iksemel N) (lib : TimeLib) (clock : ℕ → ℤ) (feed : Feed)
    (ik : N) :
    feedSetFromIks x lib clock feed .cleared ik = none := by
  suffices hfault : readFeed x lib clock ik ⟨feed, .cleared, [], 0⟩ = fault by
    rw [feedSetFromIks, hfault]
    rfl
  unfold readFeed
  by_cases hroot : RightRoot x "feed" ik
  · rw [readFeedRoot_right hroot, readFeedRequired_cleared x ik rfl]
    rfl
  · suffices hfirst : readFeedRoot x ik ⟨feed, .cleared, [], 0⟩ = fault by
      rw [hfirst]
      rfl
    unfold RightRoot at hroot
    unfold readFeedRoot nameIs
    cases hname : x.name ik with
    | none => rfl
    | some name =>
      rw [hname, Option.some.injEq] at hroot
      simp only [bind, Except.bind]
      rw [if_pos]
      · exact parsingError_cleared rfl _
      · rw [Bool.or_eq_true, Bool.not_eq_true', Bool.not_eq_true', decide_eq_false_iff_not,
          ← Bool.not_eq_true]
        exact not_and_or.mp hroot

/-- The parts in front of the children. -/
def readFeedHead (x : Iksemel N) (lib : TimeLib) (ik : N) (s : FeedParse N) :
    FeedFlow N (FeedParse N) := do
  readFeedRoot x ik s
  let s ← readFeedRequired x ik s
  pure { s with feed := readFeedUpdated x lib ik s.feed }

/-- The parts in front of the loop, and the loop. -/
lemma readFeed_eq (x : Iksemel N) (lib : TimeLib) (clock : ℕ → ℤ) (ik : N) (s : FeedParse N) :
    readFeed x lib clock ik s =
      readFeedHead x lib ik s >>= fun s => (x.children ik).foldlM (readFeedTurn x lib clock) s := by
  unfold readFeed readFeedHead
  simp only [bind_assoc, pure_bind]

/-- The parts in front of the children.

**Proof sketch.** The parts in their order: a root without a name faults, one that is wrong
stops, the required fields stop or go on with an error, and what follows reads the optional
fields. -/
lemma readFeedHead_leaves (x : Iksemel N) (lib : TimeLib) (feed : Feed) {err : ErrState} (ik : N)
    (herr : err ≠ .cleared) :
    ParseFate.LeavesFeed (readFeedFields x lib ik feed) feed (feedDeleted x ik)
      (if x.name ik = none then .faults
        else if ¬ RightRoot x "feed" ik ∨ RequiredStops x ik then .stops
        else .goesOn true)
      (readFeedHead x lib ik ⟨feed, err, [], 0⟩) := by
  unfold feedDeleted readFeedHead
  by_cases hname : x.name ik = none
  · rw [if_pos hname]
    unfold readFeedRoot nameIs
    rw [hname]
    rfl
  rw [if_neg hname]
  by_cases hroot : RightRoot x "feed" ik
  swap
  · rw [if_pos (Or.inl hroot), if_neg hroot]
    obtain ⟨message, hread⟩ := readFeedRoot_wrong (s := ⟨feed, err, [], 0⟩) hname hroot herr
    refine ⟨message, 0, ?_⟩
    rw [hread]
    rfl
  rw [readFeedRoot_right hroot, if_pos hroot]
  by_cases hrequired : RequiredStops x ik
  · rw [if_pos (Or.inr hrequired)]
    obtain ⟨message, hread⟩ := readFeedRequired_stops (s := ⟨feed, err, [], 0⟩) hrequired herr
    refine ⟨message, 0, ?_⟩
    rw [hread]
    rfl
  · rw [if_neg (not_or.mpr ⟨not_not.mpr hroot, hrequired⟩)]
    obtain ⟨error, hread⟩ := readFeedRequired_goesOn (s := ⟨feed, err, [], 0⟩) hrequired herr
    rw [hread]
    exact ⟨.shown error, 0, rfl, .shown error, fun _ => rfl⟩

/-- The body of the call.

**Proof sketch.** `readFeedHead_leaves` decides whether the loop is reached; where it is,
`readFeedTurns_leaves` says what it comes to from the feed with its fields read. -/
lemma readFeed_leaves (x : Iksemel N) (lib : TimeLib) (clock : ℕ → ℤ) (feed : Feed)
    {err : ErrState} (ik : N) (herr : err ≠ .cleared) :
    (feedFate x ik).LeavesFeed (feedLeft x lib (clock 0) feed ik) (feedLeft x lib (clock 0) feed ik)
      (feedDeleted x ik) (readFeed x lib clock ik ⟨feed, err, [], 0⟩) := by
  have hhead := readFeedHead_leaves x lib feed ik herr
  rw [readFeed_eq]
  unfold feedFate feedLeft
  by_cases hname : x.name ik = none
  · rw [if_pos hname] at hhead ⊢
    have hfault : readFeedHead x lib ik ⟨feed, err, [], 0⟩ = fault := hhead
    rw [hfault]
    rfl
  rw [if_neg hname] at hhead ⊢
  by_cases hstops : ¬ RightRoot x "feed" ik ∨ RequiredStops x ik
  · rw [if_pos hstops] at hhead
    rw [if_pos hstops, if_pos hstops]
    obtain ⟨message, created, hread⟩ := hhead
    rw [hread]
    exact ⟨message, created, rfl⟩
  · rw [if_neg hstops] at hhead
    rw [if_neg hstops, if_neg hstops]
    obtain ⟨err', created, hread, htells, hcreated⟩ := hhead
    have hroot : RightRoot x "feed" ik := not_not.mp fun h => hstops (Or.inl h)
    unfold feedDeleted at hread ⊢
    rw [if_pos hroot] at hread ⊢
    rw [hread]
    exact readFeedTurns_leaves x lib clock (x.children ik) (s := ⟨_, err', _, created⟩) htells
      hcreated rfl

/-- **What a call leaves**, unless the error record was cleared before it: the value, the feed and
the deleted nodes, and an error of the parser when it stops.

**Proof sketch.** The body is `readFeed_leaves`; the call turns its end into the value `1` and
its stop into the value that it stopped with. -/
lemma feedSetFromIks_outcome (x : Iksemel N) (lib : TimeLib) (clock : ℕ → ℤ) (feed : Feed)
    {err : ErrState} (ik : N) (herr : err ≠ .cleared) :
    match feedFate x ik with
    | .goesOn recorded => ∃ err' created, err'.Tells recorded ∧
        feedSetFromIks x lib clock feed err ik =
          some (1, ⟨feedLeft x lib (clock 0) feed ik, err', feedDeleted x ik, created⟩)
    | .stops => ∃ message created, feedSetFromIks x lib clock feed err ik =
        some (0, ⟨feedLeft x lib (clock 0) feed ik, .shown ⟨taAtomParsingError, message⟩,
          feedDeleted x ik, created⟩)
    | .faults => feedSetFromIks x lib clock feed err ik = none := by
  have hleaves := readFeed_leaves x lib clock feed ik herr
  unfold feedSetFromIks
  cases hfate : feedFate x ik with
  | goesOn recorded =>
    rw [hfate] at hleaves
    obtain ⟨err', created, hread, htells, -⟩ := hleaves
    exact ⟨err', created, htells, by rw [hread]⟩
  | stops =>
    rw [hfate] at hleaves
    obtain ⟨message, created, hread⟩ := hleaves
    exact ⟨message, created, by rw [hread]⟩
  | faults =>
    rw [hfate] at hleaves
    have hread : readFeed x lib clock ik ⟨feed, err, [], 0⟩ = fault := hleaves
    rw [hread]
    rfl

/-- Behind a cleared record the call is a fault. -/
lemma ne_cleared_of_feedSetFromIks {x : Iksemel N} {lib : TimeLib} {clock : ℕ → ℤ} {feed : Feed}
    {err : ErrState} {ik : N} {r : ℤ × FeedParse N}
    (h : feedSetFromIks x lib clock feed err ik = some r) : err ≠ .cleared := by
  rintro rfl
  rw [feedSetFromIks_cleared] at h
  cases h

/-- The feed, the deleted nodes and the fate behind a call that is no fault.

**Proof sketch.** The record was not cleared before, or the call were a fault; then
`feedSetFromIks_outcome` gives one result for each fate. -/
lemma feedSetFromIks_left {x : Iksemel N} {lib : TimeLib} {clock : ℕ → ℤ} {feed : Feed}
    {err : ErrState} {ik : N} {value : ℤ} {s : FeedParse N}
    (h : feedSetFromIks x lib clock feed err ik = some (value, s)) :
    s.feed = feedLeft x lib (clock 0) feed ik ∧ s.deleted = feedDeleted x ik ∧
      (value = 0 ∧ feedFate x ik = .stops ∧
          (∃ message, s.err = .shown ⟨taAtomParsingError, message⟩) ∨
        value = 1 ∧ ∃ recorded, feedFate x ik = .goesOn recorded ∧ s.err.Tells recorded) := by
  have houtcome := feedSetFromIks_outcome x lib clock feed ik (ne_cleared_of_feedSetFromIks h)
  cases hfate : feedFate x ik with
  | goesOn recorded =>
    rw [hfate] at houtcome
    obtain ⟨err', created, htells, h'⟩ := houtcome
    cases h.symm.trans h'
    exact ⟨rfl, rfl, Or.inr ⟨rfl, recorded, rfl, htells⟩⟩
  | stops =>
    rw [hfate] at houtcome
    obtain ⟨message, created, h'⟩ := houtcome
    cases h.symm.trans h'
    exact ⟨rfl, rfl, Or.inl ⟨rfl, rfl, message, rfl⟩⟩
  | faults =>
    rw [hfate] at houtcome
    cases h.symm.trans houtcome

/-- A call is no fault exactly when its fate is none.

**Proof sketch.** `feedSetFromIks_outcome`, fate by fate. -/
lemma exists_feedSetFromIks_iff (x : Iksemel N) (lib : TimeLib) (clock : ℕ → ℤ) (feed : Feed)
    {err : ErrState} (ik : N) (herr : err ≠ .cleared) :
    (∃ value s, feedSetFromIks x lib clock feed err ik = some (value, s)) ↔
      feedFate x ik ≠ .faults := by
  have houtcome := feedSetFromIks_outcome x lib clock feed ik herr
  cases hfate : feedFate x ik with
  | goesOn recorded =>
    rw [hfate] at houtcome
    obtain ⟨err', created, -, h⟩ := houtcome
    exact iff_of_true ⟨_, _, h⟩ (by simp)
  | stops =>
    rw [hfate] at houtcome
    obtain ⟨message, created, h⟩ := houtcome
    exact iff_of_true ⟨_, _, h⟩ (by simp)
  | faults =>
    rw [hfate] at houtcome
    have hcall : feedSetFromIks x lib clock feed err ik = none := houtcome
    simp [hcall]

/-- Where a call stops. -/
lemma feedFate_stops {x : Iksemel N} {ik : N} (h : feedFate x ik = .stops) :
    ¬ RightRoot x "feed" ik ∨ RequiredStops x ik ∨
      (sweep (feedChildFate x) true (x.children ik)).2 = .stops := by
  unfold feedFate at h
  split_ifs at h with hname hfirst
  · rcases hfirst with hroot | hrequired
    · exact Or.inl hroot
    · exact Or.inr (Or.inl hrequired)
  · exact Or.inr (Or.inr h)

/-- Where a call goes on. -/
lemma feedFate_goesOn {x : Iksemel N} {ik : N} {recorded : Bool}
    (h : feedFate x ik = .goesOn recorded) :
    RightRoot x "feed" ik ∧ ¬ RequiredStops x ik ∧
      (sweep (feedChildFate x) true (x.children ik)).2 = .goesOn recorded := by
  unfold feedFate at h
  split_ifs at h with hname hfirst
  rw [not_or, not_not] at hfirst
  exact ⟨hfirst.1, hfirst.2, h⟩

/-! ## Where the loop over the children of a feed goes -/

/-- An author or a category at which the parser stops: one without its required part, or with an IRI
that is accepted. -/
def PartStops (x : Iksemel N) (child : N) : Prop :=
  x.name child = some "author".toList ∧
      (x.findCdata child "name".toList = none ∨ Accepted (x.findCdata child "uri".toList)) ∨
    x.name child = some "category".toList ∧
      (x.findAttrib child "term".toList = none ∨ Accepted (x.findAttrib child "scheme".toList))

/-- Behind an error a child stops the parser as a part, clears the record as an entry, or goes on.

**Proof sketch.** One case per name that the loop compares with: a part stops or goes on behind
an error, an entry goes on or faults, and any other child goes on. -/
lemma feedChildFate_true (x : Iksemel N) (child : N) :
    feedChildFate x true child = .stops ∧ PartStops x child ∧
        x.name child ≠ some "entry".toList ∨
      feedChildFate x true child = .goesOn false ∧ x.name child = some "entry".toList ∨
      feedChildFate x true child = .goesOn true ∧ ¬ PartStops x child ∧
        x.name child ≠ some "entry".toList ∨
      feedChildFate x true child = .faults := by
  unfold feedChildFate PartStops
  by_cases hname : x.name child = none
  · rw [if_pos hname]
    simp
  rw [if_neg hname]
  by_cases hauthor : x.name child = some "author".toList
  · have hentry := name_ne hauthor "entry" (by decide)
    have hcategory := name_ne hauthor "category" (by decide)
    rw [if_pos hauthor, partFate_true]
    split_ifs with hstops
    · exact Or.inl ⟨rfl, Or.inl ⟨hauthor, hstops⟩, hentry⟩
    · exact Or.inr (Or.inr (Or.inl ⟨rfl, by simp only [hauthor, hstops]; simp, hentry⟩))
  rw [if_neg hauthor]
  by_cases hcategory : x.name child = some "category".toList
  · have hentry := name_ne hcategory "entry" (by decide)
    rw [if_pos hcategory, partFate_true]
    split_ifs with hstops
    · exact Or.inl ⟨rfl, Or.inr ⟨hcategory, hstops⟩, hentry⟩
    · exact Or.inr (Or.inr (Or.inl ⟨rfl, by simp only [hauthor, hstops]; simp, hentry⟩))
  rw [if_neg hcategory]
  split_ifs with hentry hgoes
  · exact Or.inr (Or.inl ⟨rfl, hentry⟩)
  · exact Or.inr (Or.inr (Or.inr rfl))
  · exact Or.inr (Or.inr (Or.inl ⟨rfl, by simp only [hauthor, hcategory]; simp, hentry⟩))

/-- Behind a cleared record a child that is no fault changes nothing. -/
lemma feedChildFate_false (x : Iksemel N) : StaysCleared (feedChildFate x) := by
  intro child
  unfold feedChildFate partFate
  split_ifs <;> simp_all

/-- **A call is a fault** at an element without a name, or when nothing in front of the children of
a feed stops it and its loop comes to a fault.

**Proof sketch.** The fate is that of the first part that decides. Where the loop is reached,
`sweep_faults_iff` says when it comes to a fault. -/
lemma feedFate_faults_iff (x : Iksemel N) (ik : N) :
    feedFate x ik = .faults ↔ x.name ik = none ∨
      RightRoot x "feed" ik ∧ ¬ RequiredStops x ik ∧
        MeetsFault (feedChildFate x) (x.children ik) := by
  unfold feedFate
  by_cases hname : x.name ik = none
  · simp [hname]
  · rw [if_neg hname]
    by_cases hstops : ¬ RightRoot x "feed" ik ∨ RequiredStops x ik
    · rw [if_pos hstops]
      simp only [reduceCtorEq, hname, false_or, false_iff]
      tauto
    · rw [if_neg hstops, sweep_faults_iff (feedChildFate_false x)]
      simp only [not_or, not_not] at hstops
      simp [hname, hstops]

/-- **Where the loop stops**: at such a part, with no entry in front of it.

**Proof sketch.** Induction on the children with `feedChildFate_true`: a child that stops is
such a part; an entry clears the record, behind which no child stops; any other child hands the
question on. -/
lemma sweep_feed_stops {x : Iksemel N} {children : List N}
    (h : (sweep (feedChildFate x) true children).2 = .stops) :
    (∀ child ∈ (sweep (feedChildFate x) true children).1, x.name child ≠ some "entry".toList) ∧
      ∃ child ∈ children, PartStops x child := by
  induction children with
  | nil => cases h
  | cons child children ih =>
    rcases feedChildFate_true x child with
      ⟨hfate, hpart, -⟩ | ⟨hfate, -⟩ | ⟨hfate, -, hentry⟩ | hfate
    · simp only [sweep, hfate]
      exact ⟨by simp, child, by simp, hpart⟩
    · simp only [sweep, hfate] at h
      rw [sweep_cleared (feedChildFate_false x)] at h
      split_ifs at h
    · simp only [sweep, hfate] at h ⊢
      obtain ⟨hentries, part, hmem, hpart⟩ := ih h
      exact ⟨List.forall_mem_cons.mpr ⟨hentry, hentries⟩, part, List.mem_cons_of_mem child hmem,
        hpart⟩
    · simp only [sweep, hfate] at h
      cases h

/-- **When the loop goes on to its end**, the record is cleared exactly when there is an entry, and
where it is not cleared there is no part to stop at.

**Proof sketch.** Induction on the children with `feedChildFate_true`: an entry clears the
record, and no loop behind it leaves an error; any other child that goes on is neither an entry
nor a part that stops. -/
lemma sweep_feed_goesOn {x : Iksemel N} {children : List N} {recorded : Bool}
    (h : (sweep (feedChildFate x) true children).2 = .goesOn recorded) :
    recorded = false ↔
      ∃ child ∈ children, PartStops x child ∨ x.name child = some "entry".toList := by
  induction children with
  | nil =>
    cases h
    simp
  | cons child children ih =>
    rcases feedChildFate_true x child with
      ⟨hfate, -⟩ | ⟨hfate, hentry⟩ | ⟨hfate, hpart, hentry⟩ | hfate
    · simp only [sweep, hfate] at h
      cases h
    · simp only [sweep, hfate] at h
      refine iff_of_true ?_ ⟨child, by simp, Or.inr hentry⟩
      rw [sweep_cleared (feedChildFate_false x)] at h
      split_ifs at h
      cases h
      rfl
    · simp only [sweep, hfate] at h
      rw [ih h]
      simp only [List.mem_cons, exists_eq_or_imp, hpart, hentry, false_or]
    · simp only [sweep, hfate] at h
      cases h

end Taningia
