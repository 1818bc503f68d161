import Taningia.Atom.FeedOutcome
import Taningia.Iri.PriorState

set_option relaxedAutoImplicit false
set_option autoImplicit false

/-!
# What callers can tell from a call

A call of `ta_atom_entry_set_from_iks` or `ta_atom_feed_set_from_iks` that fails should leave the
object as it was, and its value should agree with the error record. The parsers set the fields as
they read them and take nothing back; and each id that is kept has recorded an error, which only an
in-reply-to element or an entry child clears.

## Main definitions

* `Taningia.EntryKept`, `Taningia.FeedKept` — when nothing is changed.
* `Taningia.ResultAgrees` — the value and the error record agree.

## Main results

* `Taningia.parse_refused_unchanged_iff` — when a call that fails leaves the object as it was.
* `Taningia.parse_result_agrees_iff` — when the value and the record agree.
-/

namespace Taningia

variable {N : Type}

/-! ## What a loop is through with -/

/-- The children of a name. -/
def named (x : Iksemel N) (name : String) (children : List N) : List N :=
  children.filter fun child => x.name child = some name.toList

/-- No children of a name. -/
lemma named_eq_nil_iff {x : Iksemel N} {name : String} {children : List N} :
    named x name children = [] ↔ ∀ child ∈ children, x.name child ≠ some name.toList := by
  simp [named]

/-- The children of a name, the first one of it. -/
lemma named_cons_of_eq {x : Iksemel N} {name : String} {child : N} (children : List N)
    (h : x.name child = some name.toList) :
    named x name (child :: children) = child :: named x name children :=
  List.filter_cons_of_pos (decide_eq_true h)

/-- The children of a name, the first one not of it. -/
lemma named_cons_of_ne {x : Iksemel N} {name : String} {child : N} (children : List N)
    (h : x.name child ≠ some name.toList) :
    named x name (child :: children) = named x name children :=
  List.filter_cons_of_neg (by simpa using h)

/-- The children together add their persons and categories.

**Proof sketch.** Induction on the children, one case per name: an author and a category are put
behind theirs, and any other child adds nothing. -/
lemma foldl_addChild (x : Iksemel N) (children : List N) (entry : Entry) :
    children.foldl (addChild x) entry = { entry with
      authors := entry.authors ++ (named x "author" children).map (authorOf x)
      categories := entry.categories ++ (named x "category" children).map (categoryOf x) } := by
  induction children generalizing entry with
  | nil => simp [named]
  | cons child children ih =>
    rw [List.foldl_cons, ih, addChild]
    by_cases hauthor : x.name child = some "author".toList
    · rw [if_pos hauthor, named_cons_of_eq children hauthor,
        named_cons_of_ne children (name_ne hauthor "category" (by decide)), List.map_cons,
        List.append_assoc]
      rfl
    rw [if_neg hauthor, named_cons_of_ne children hauthor]
    by_cases hcategory : x.name child = some "category".toList
    · rw [if_pos hcategory, named_cons_of_eq children hcategory, List.map_cons, List.append_assoc]
      rfl
    · rw [if_neg hcategory, named_cons_of_ne children hcategory]

/-- The children of a feed together add theirs, and the entries.

**Proof sketch.** Induction on the children, one case per name: an author, a category and an
entry that is kept are put behind theirs, and any other child adds nothing. -/
lemma foldl_addFeedChild (x : Iksemel N) (lib : TimeLib) (now : ℤ) (children : List N)
    (feed : Feed) :
    children.foldl (addFeedChild x lib now) feed = { feed with
      authors := feed.authors ++ (named x "author" children).map (feedAuthorOf x)
      categories := feed.categories ++ (named x "category" children).map (categoryOf x)
      entries := feed.entries ++ (named x "entry" children).filterMap (keptEntry x lib now) } := by
  induction children generalizing feed with
  | nil => simp [named]
  | cons child children ih =>
    rw [List.foldl_cons, ih, addFeedChild]
    by_cases hauthor : x.name child = some "author".toList
    · rw [if_pos hauthor, named_cons_of_eq children hauthor,
        named_cons_of_ne children (name_ne hauthor "category" (by decide)),
        named_cons_of_ne children (name_ne hauthor "entry" (by decide)), List.map_cons,
        List.append_assoc]
      rfl
    rw [if_neg hauthor, named_cons_of_ne children hauthor]
    by_cases hcategory : x.name child = some "category".toList
    · rw [if_pos hcategory, named_cons_of_eq children hcategory,
        named_cons_of_ne children (name_ne hcategory "entry" (by decide)), List.map_cons,
        List.append_assoc]
      rfl
    rw [if_neg hcategory, named_cons_of_ne children hcategory]
    by_cases hentry : x.name child = some "entry".toList
    · rw [if_pos hentry, named_cons_of_eq children hentry]
      cases hkept : keptEntry x lib now child with
      | none => rw [List.filterMap_cons_none hkept, Option.toList_none, List.append_nil]
      | some entry =>
        rw [List.filterMap_cons_some hkept, Option.toList_some, List.append_assoc]
        rfl
    · rw [if_neg hentry, named_cons_of_ne children hentry]

/-! ## Nothing is changed -/

/-- The fields in front of the content are those that the entry has already. -/
structure SameFields (x : Iksemel N) (lib : TimeLib) (entry : Entry) (ik : N) : Prop where
  id : entry.id = (x.findCdata ik "id".toList).map parsedIri
  title : entry.title = x.findCdata ik "title".toList
  updated : ∀ dt ∈ x.findCdata ik "updated".toList, entry.updated = iso8601ToTime lib dt
  published : ∀ dt ∈ x.findCdata ik "published".toList, entry.published = iso8601ToTime lib dt
  summary : ∀ summary ∈ x.findCdata ik "summary".toList, entry.summary = some summary
  rights : ∀ rights ∈ x.findCdata ik "rights".toList, entry.rights = some rights

/-- The fields in front of the children are those that the feed has already. -/
structure SameFeedFields (x : Iksemel N) (lib : TimeLib) (feed : Feed) (ik : N) : Prop where
  id : feed.id = (x.findCdata ik "id".toList).map parsedIri
  title : feed.title = x.findCdata ik "title".toList
  updated : ∀ dt ∈ x.findCdata ik "updated".toList, feed.updated = iso8601ToTime lib dt

/-- None of the children is an author or a category. -/
def NoParts (x : Iksemel N) (children : List N) : Prop :=
  ∀ child ∈ children, x.name child ≠ some "author".toList ∧ x.name child ≠ some "category".toList

/-- **When an entry is left as it was**: the parser stops at the root, the id or the title; or the
fields are those that the entry has already, and it stops at the content, or the content is the one
of the entry too and no author or category is in front of the child where it stops. -/
def EntryKept (x : Iksemel N) (lib : TimeLib) (entry : Entry) (ik : N) : Prop :=
  ¬ RightRoot x "entry" ik ∨ RequiredStops x ik ∨
    SameFields x lib entry ik ∧ (ContentStops x ik ∨
      (∀ content ∈ contentOf x ik, entry.content = some content) ∧
        NoParts x (sweep (namedFate x) true (x.children ik)).1)

/-- **When a feed is left as it was**: likewise, without a content. -/
def FeedKept (x : Iksemel N) (lib : TimeLib) (feed : Feed) (ik : N) : Prop :=
  ¬ RightRoot x "feed" ik ∨ RequiredStops x ik ∨
    SameFeedFields x lib feed ik ∧ NoParts x (sweep (feedChildFate x) true (x.children ik)).1

/-- A field that is set when there is something to set. -/
lemma getD_map_eq_iff {α β : Type} (a : Option α) (f : α → β) (b : β) :
    (a.map f).getD b = b ↔ ∀ c ∈ a, b = f c := by
  cases a with
  | none => simp
  | some c => simp [eq_comm]

/-- The fields read change nothing when they are the same. -/
lemma readFields_eq_iff (x : Iksemel N) (lib : TimeLib) (entry : Entry) (ik : N) :
    readFields x lib ik entry = entry ↔ SameFields x lib entry ik := by
  obtain ⟨id, title, updated, published, rights, authors, categories, links, summary, content,
    inReplyTo⟩ := entry
  simp only [readFields, readOptional, setRequired, Entry.mk.injEq, getD_map_eq_iff,
    orElse_eq_right_iff, true_and, and_true]
  constructor
  · rintro ⟨hid, htitle, hupdated, hpublished, hrights, hsummary⟩
    exact ⟨hid.symm, htitle.symm, hupdated, hpublished, hsummary, hrights⟩
  · rintro ⟨hid, htitle, hupdated, hpublished, hsummary, hrights⟩
    exact ⟨hid.symm, htitle.symm, hupdated, hpublished, hrights, hsummary⟩

/-- No parts are no authors and no categories. -/
lemma noParts_iff {x : Iksemel N} {children : List N} :
    NoParts x children ↔ named x "author" children = [] ∧ named x "category" children = [] := by
  rw [named_eq_nil_iff, named_eq_nil_iff]
  exact forall₂_and

/-- The fields, the content and the children together change nothing exactly when none of them
does.

**Proof sketch.** Each field of the entry is assigned or appended to by one of the three, so the
whole is the entry exactly when each of its fields is. -/
lemma addAll_eq_iff (x : Iksemel N) (lib : TimeLib) (entry : Entry) (ik : N) (children : List N) :
    children.foldl (addChild x) (addContent x ik (readFields x lib ik entry)) = entry ↔
      SameFields x lib entry ik ∧ (∀ content ∈ contentOf x ik, entry.content = some content) ∧
        NoParts x children := by
  rw [← readFields_eq_iff, noParts_iff, foldl_addChild]
  obtain ⟨id, title, updated, published, rights, authors, categories, links, summary, content,
    inReplyTo⟩ := entry
  simp only [addContent, readFields, readOptional, setRequired, Entry.mk.injEq, orElse_eq_right_iff,
    List.append_right_eq_self, List.map_eq_nil_iff, true_and, and_true]
  constructor
  · rintro ⟨hid, htitle, hupdated, hpublished, hrights, hauthors, hcategories, hsummary, hcontent⟩
    exact ⟨⟨hid, htitle, hupdated, hpublished, hrights, hsummary⟩, hcontent, hauthors, hcategories⟩
  · rintro ⟨⟨hid, htitle, hupdated, hpublished, hrights, hsummary⟩, hcontent, hauthors, hcategories⟩
    exact ⟨hid, htitle, hupdated, hpublished, hrights, hauthors, hcategories, hsummary, hcontent⟩

/-- An entry is left as it was.

**Proof sketch.** Where the call stops at the root or a required field nothing is assigned.
Where the content stops it the fields read are left, and otherwise the content and the children
too (`addAll_eq_iff`). -/
lemma entryLeft_eq_iff (x : Iksemel N) (lib : TimeLib) (entry : Entry) (ik : N) :
    entryLeft x lib entry ik = entry ↔ EntryKept x lib entry ik := by
  unfold entryLeft EntryKept
  by_cases hroot : RightRoot x "entry" ik
  swap
  · rw [if_pos (Or.inl hroot)]
    exact iff_of_true rfl (Or.inl hroot)
  by_cases hrequired : RequiredStops x ik
  · rw [if_pos (Or.inr hrequired)]
    exact iff_of_true rfl (Or.inr (Or.inl hrequired))
  rw [if_neg (by simp [hroot, hrequired])]
  by_cases hcontent : ContentStops x ik
  · rw [if_pos hcontent, readFields_eq_iff]
    simp [hroot, hrequired, hcontent]
  · rw [if_neg hcontent, addAll_eq_iff]
    simp [hroot, hrequired, hcontent]

/-! ## A call that fails -/

/-- The fields and the children of a feed change nothing when they bring nothing new. -/
lemma readFeedFields_eq_iff (x : Iksemel N) (lib : TimeLib) (now : ℤ) (feed : Feed) (ik : N)
    {children : List N} (hentries : ∀ child ∈ children, x.name child ≠ some "entry".toList) :
    children.foldl (addFeedChild x lib now) (readFeedFields x lib ik feed) = feed ↔
      SameFeedFields x lib feed ik ∧ NoParts x children := by
  rw [noParts_iff, foldl_addFeedChild, named_eq_nil_iff.mpr hentries]
  obtain ⟨id, title, updated, authors, categories, entries⟩ := feed
  simp only [readFeedFields, readFeedUpdated, Feed.mk.injEq, getD_map_eq_iff, List.filterMap_nil,
    List.append_nil, List.append_right_eq_self, List.map_eq_nil_iff, and_true]
  constructor
  · rintro ⟨hid, htitle, hupdated, hauthors, hcategories⟩
    exact ⟨⟨hid.symm, htitle.symm, hupdated⟩, hauthors, hcategories⟩
  · rintro ⟨⟨hid, htitle, hupdated⟩, hauthors, hcategories⟩
    exact ⟨hid.symm, htitle.symm, hupdated, hauthors, hcategories⟩

/-- A feed that was refused is left as it was.

**Proof sketch.** Where the call stops at the root or a required field nothing is assigned.
Where the loop stops there is no entry in front of the part it stops at (`sweep_feed_stops`), so
only fields, persons and categories can have changed. -/
lemma feedLeft_eq_iff {x : Iksemel N} (lib : TimeLib) (now : ℤ) (feed : Feed) {ik : N}
    (hstops : feedFate x ik = .stops) :
    feedLeft x lib now feed ik = feed ↔ FeedKept x lib feed ik := by
  unfold feedLeft FeedKept
  by_cases hroot : RightRoot x "feed" ik
  swap
  · rw [if_pos (Or.inl hroot)]
    exact iff_of_true rfl (Or.inl hroot)
  by_cases hrequired : RequiredStops x ik
  · rw [if_pos (Or.inr hrequired)]
    exact iff_of_true rfl (Or.inr (Or.inl hrequired))
  have hgoes : ¬ (¬ RightRoot x "feed" ik ∨ RequiredStops x ik) :=
    not_or.mpr ⟨not_not.mpr hroot, hrequired⟩
  unfold feedFate at hstops
  rw [if_neg (by simp [hroot.1]), if_neg hgoes] at hstops
  rw [if_neg hgoes, readFeedFields_eq_iff x lib now feed ik (sweep_feed_stops hstops).1]
  simp [hroot, hrequired]

/-- **A call that fails leaves the object as it was** exactly when the parser stops at the root or a
required field, or when it had nothing new to set before it stopped.

**Proof sketch.** What a call leaves is `entryLeft`, or `feedLeft` at a fate that stops. -/
theorem parse_refused_unchanged_iff (x : Iksemel N) (lib : TimeLib) :
    (∀ (entry : Entry) (err : ErrState) (ik : N) (s : EntryParse N),
      entrySetFromIks x lib entry err ik = some (0, s) →
        (s.entry = entry ↔ EntryKept x lib entry ik)) ∧
    ∀ (clock : ℕ → ℤ) (feed : Feed) (err : ErrState) (ik : N) (s : FeedParse N),
      feedSetFromIks x lib clock feed err ik = some (0, s) →
        (s.feed = feed ↔ FeedKept x lib feed ik) := by
  constructor
  · intro entry err ik s h
    rw [(entrySetFromIks_left h).1, entryLeft_eq_iff]
  · intro clock feed err ik s h
    obtain ⟨hfeed, -, ⟨-, hstops, -⟩ | ⟨hvalue, -⟩⟩ := feedSetFromIks_left h
    · rw [hfeed, feedLeft_eq_iff lib (clock 0) feed hstops]
    · cases hvalue

/-- An entry element whose author has no name. -/
def namelessAuthor : XmlNode := .tag "entry".toList []
  [.leaf "id" "1a", .leaf "title" "Olha", .tag "author".toList [] [.leaf "email" "a@b"]]

/-- An element without an id is refused before anything is set. -/
theorem parse_refused_unchanged_noId :
    ∃ s, entrySetFromIks xmlNodes epochLib (entryNew none 0) .unset
        (.tag "entry".toList [] [.leaf "title" "Olha"]) = some (0, s) ∧
      s.entry = entryNew none 0 := by
  obtain ⟨s, hs⟩ : ∃ s, entrySetFromIks xmlNodes epochLib (entryNew none 0) .unset
      (.tag "entry".toList [] [.leaf "title" "Olha"]) = some (0, s) := ⟨_, rfl⟩
  refine ⟨s, hs, ((parse_refused_unchanged_iff xmlNodes epochLib).1 _ _ _ _ hs).mpr ?_⟩
  exact Or.inr (Or.inl (Or.inl rfl))

/-- A nameless author stops the parser when the id and the title are set. -/
theorem parse_refused_changed_author :
    ∃ s, entrySetFromIks xmlNodes epochLib (entryNew none 0) .unset namelessAuthor = some (0, s) ∧
      s.entry ≠ entryNew none 0 :=
  ⟨_, rfl, by decide⟩

/-! ## The value and the error record -/

/-- The value and the error record agree. -/
def ResultAgrees (value : ℤ) (err : ErrState) : Prop :=
  (value = 1 → err.last = none) ∧
    (value = 0 → ∃ error, err.last = some error ∧ error.code = taAtomParsingError)

/-- **When the value and the record agree**: behind an entry exactly when the parser stops and no
in-reply-to element clears the record, or the other way round; behind a feed exactly when the parser
stops at the root or a required field, or one of the children is an author or a category to stop at,
or an entry.

**Proof sketch.** For an entry the value and the record are `entrySetFromIks_record`. For a feed
a value of `0` comes with an error of the parser; a value of `1` comes with the record that the
loop left, which is cleared exactly when there was an entry (`sweep_feed_goesOn`). -/
theorem parse_result_agrees_iff (x : Iksemel N) (lib : TimeLib) (err : ErrState) :
    (∀ (entry : Entry) (ik : N) (value : ℤ) (s : EntryParse N),
      entrySetFromIks x lib entry err ik = some (value, s) →
        (ResultAgrees value s.err ↔ (StopsWithError x ik ↔ ¬ ClearsRecord x ik))) ∧
    ∀ (clock : ℕ → ℤ) (feed : Feed) (ik : N) (value : ℤ) (s : FeedParse N),
      feedSetFromIks x lib clock feed err ik = some (value, s) →
        (ResultAgrees value s.err ↔ ¬ RightRoot x "feed" ik ∨ RequiredStops x ik ∨
          ∃ child ∈ x.children ik, PartStops x child ∨ x.name child = some "entry".toList) := by
  constructor
  · intro entry ik value s h
    obtain ⟨hvalue, hcleared⟩ := entrySetFromIks_record (ne_cleared_of_entrySetFromIks h) h
    have hnone := hcleared.last_eq_none_iff
    rcases hvalue with ⟨rfl, hstops⟩ | ⟨rfl, hstops⟩
    · rw [iff_true_left hstops, ← hnone]
      obtain ⟨-, -, ⟨-, -, hrefused⟩ | ⟨hvalue, -⟩⟩ := entrySetFromIks_left h
      · constructor
        · intro hagrees
          obtain ⟨error, hlast, -⟩ := hagrees.2 rfl
          simp [hlast]
        · intro hlast
          rcases hrefused with hcleared | ⟨message, hshown⟩
          · exact absurd (by rw [hcleared]; rfl) hlast
          · exact ⟨by simp, fun _ => ⟨_, by rw [hshown]; rfl, rfl⟩⟩
      · cases hvalue
    · rw [iff_false_left hstops, not_not, ← hnone]
      exact ⟨fun hagrees => hagrees.1 rfl, fun hlast => ⟨fun _ => hlast, by simp⟩⟩
  · intro clock feed ik value s h
    obtain ⟨-, -, ⟨rfl, hfate, message, hshown⟩ | ⟨rfl, recorded, hfate, htells⟩⟩ :=
      feedSetFromIks_left h
    · refine iff_of_true ⟨by simp, fun _ => ⟨_, by rw [hshown]; rfl, rfl⟩⟩ ?_
      rcases feedFate_stops hfate with hroot | hrequired | hwalk
      · exact Or.inl hroot
      · exact Or.inr (Or.inl hrequired)
      · obtain ⟨-, child, hmem, hpart⟩ := sweep_feed_stops hwalk
        exact Or.inr (Or.inr ⟨child, hmem, Or.inl hpart⟩)
    · obtain ⟨hroot, hrequired, hwalk⟩ := feedFate_goesOn hfate
      simp only [hroot, hrequired, not_true_eq_false, false_or, ← sweep_feed_goesOn hwalk,
        ← htells.last_eq_none_iff]
      exact ⟨fun hagrees => hagrees.1 rfl, fun hlast => ⟨fun _ => hlast, by simp⟩⟩

/-- Behind the nameless author an error of the parser is recorded.

**Proof sketch.** `parse_result_agrees_iff`: the parser stops, and no child clears the record. -/
theorem parse_result_agrees_author :
    ∃ s, entrySetFromIks xmlNodes epochLib (entryNew none 0) .unset namelessAuthor = some (0, s) ∧
      ResultAgrees 0 s.err := by
  obtain ⟨s, hs⟩ : ∃ s, entrySetFromIks xmlNodes epochLib (entryNew none 0) .unset namelessAuthor =
      some (0, s) := ⟨_, rfl⟩
  refine ⟨s, hs, ((parse_result_agrees_iff xmlNodes epochLib .unset).1 _ _ _ _ hs).mpr ?_⟩
  refine iff_of_true (Or.inr (Or.inr (Or.inr (Or.inr (Or.inr rfl))))) fun hclears => ?_
  obtain ⟨l₁, child, l₂, heq, -, hchild⟩ := hclears.children
  have hmem : child ∈ xmlNodes.children namelessAuthor := by simp [heq]
  have hcases : child = .leaf "id" "1a" ∨ child = .leaf "title" "Olha" ∨
      child = .tag "author".toList [] [.leaf "email" "a@b"] := by
    simpa [namelessAuthor, xmlNodes, XmlNode.children] using hmem
  rcases hcases with rfl | rfl | rfl
  · exact absurd hchild.name (by decide)
  · exact absurd hchild.name (by decide)
  · exact absurd hchild.name (by decide)

/-- An entry that is read has the error of its id recorded. -/
theorem parse_result_disagrees_id :
    ∃ s, entrySetFromIks xmlNodes epochLib (entryNew none 0) .unset
        (.tag "entry".toList [] [.leaf "id" "1a", .leaf "title" "Olha"]) = some (1, s) ∧
      ¬ ResultAgrees 1 s.err := by
  refine ⟨_, rfl, fun hagrees => ?_⟩
  exact absurd (hagrees.1 rfl) (by decide)

end Taningia
