import Taningia.Atom.FeedOutcome

set_option relaxedAutoImplicit false
set_option autoImplicit false

/-!
# Atom documents in files

`ta_atom_entry_set_from_file` and `ta_atom_feed_set_from_file` load a document, call the parser on
it and delete it. But the parsers delete an element that is not what they look for themselves: the
root of a document is deleted twice then. And the loop of the feed parser walks on from an entry
child that the entry parser has deleted, and the whole document with it.

## Main definitions

* `Taningia.IksError`, `Taningia.loadError` — what can go wrong with a file.
* `Taningia.entrySetFromFile`, `Taningia.feedSetFromFile` — the two functions.
* `Taningia.DeletesUnderLoop` — the loop of a feed has the child deleted that it is at.

## Main results

* `Taningia.deletesUnderLoop_iff` — when it does.
* `Taningia.document_deleted_once_iff` — when a document is deleted once, and under no loop.
-/

namespace Taningia

open Machine

variable {N : Type}

/-! ## The functions -/

/-- What `iks_load` returns instead of `IKS_OK`. -/
inductive IksError where
  | nomem
  | badxml
  | other
deriving DecidableEq, Repr

/-- The message for a file without a document. -/
def IksError.message : IksError → String
  | .nomem => "Not enough memory to load file"
  | .badxml => "Unable to parse xml file"
  | .other => "Unknown error"

def taAtomLoadError : ℤ := 100

/-- The error record behind a failed `iks_load`. -/
def loadError (err : ErrState) (e : IksError) : Option ErrState :=
  errStateStep err (.set taAtomLoadError [.text e.message.toList])

/-- `ta_atom_entry_set_from_file`. Each `iks_delete` adds to the nodes deleted. -/
def entrySetFromFile (x : Iksemel N) (lib : TimeLib) (iksLoad : Str → Except IksError N)
    (entry : Entry) (err : ErrState) (fname : Str) : Option (ℤ × EntryParse N) :=
  match iksLoad fname with
  | .error e => do
    let err ← loadError err e
    pure (0, ⟨entry, err, []⟩)
  | .ok ik => do
    let (result, s) ← entrySetFromIks x lib entry err ik
    pure (result, { s with deleted := s.deleted ++ [ik] })

/-- `ta_atom_feed_set_from_file`. -/
def feedSetFromFile (x : Iksemel N) (lib : TimeLib) (clock : ℕ → ℤ)
    (iksLoad : Str → Except IksError N) (feed : Feed) (err : ErrState) (fname : Str) :
    Option (ℤ × FeedParse N) :=
  match iksLoad fname with
  | .error e => do
    let err ← loadError err e
    pure (0, ⟨feed, err, [], 0⟩)
  | .ok ik => do
    let (result, s) ← feedSetFromIks x lib clock feed err ik
    pure (result, { s with deleted := s.deleted ++ [ik] })

/-- The loop of a feed comes to an entry child, and the entry parser takes the branch in which it
deletes it. -/
def DeletesUnderLoop (x : Iksemel N) (lib : TimeLib) (clock : ℕ → ℤ) (feed : Feed) (err : ErrState)
    (ik : N) : Prop :=
  ∃ s, readFeedHead x lib ik ⟨feed, err, [], 0⟩ = .ok s ∧
    ∃ front child rest s', x.children ik = front ++ child :: rest ∧
      front.foldlM (readFeedTurn x lib clock) s = .ok s' ∧
      x.name child = some "entry".toList ∧
      readRoot x child ⟨entryNew none (clock s'.created), s'.err, []⟩ ≠ .ok ()

/-! ## When a child is deleted under the loop -/

/-- An entry element without children. -/
def EmptyEntry (x : Iksemel N) (child : N) : Prop :=
  x.name child = some "entry".toList ∧ x.hasChildren child = false

/-- The entry parser deletes an entry child exactly when it has no children. -/
lemma readRoot_ne_ok_iff {x : Iksemel N} {child : N} (hname : x.name child = some "entry".toList)
    (s : EntryParse N) : readRoot x child s ≠ .ok () ↔ x.hasChildren child = false := by
  constructor
  · intro hread
    by_contra hchildren
    exact hread (readRoot_right ⟨hname, Bool.not_eq_false _ ▸ hchildren⟩ s)
  · intro hchildren hread
    unfold readRoot nameIs at hread
    rw [hname] at hread
    simp only [hchildren, bind, Except.bind, decide_true, Bool.not_true, Bool.not_false,
      Bool.or_true, if_true] at hread
    exact parsingError_ne_ok _ _ _ hread

/-- Behind a cleared record the loop is not reached. -/
lemma not_deletesUnderLoop_cleared (x : Iksemel N) (lib : TimeLib) (clock : ℕ → ℤ) (feed : Feed)
    (ik : N) : ¬ DeletesUnderLoop x lib clock feed .cleared ik := by
  rintro ⟨s, hread, -⟩
  unfold readFeedHead at hread
  obtain ⟨u, -, hread⟩ := bind_eq_ok_iff.mp hread
  rw [readFeedRequired_cleared x ik rfl] at hread
  cases hread

/-- **When a child is deleted under the loop**: when the loop comes to an empty entry.

**Proof sketch.** Where the root is wrong or a required field stops the call, the loop is not
entered. Otherwise it starts at the first child, and deletes one when it comes to an empty
entry. -/
lemma deletesUnderLoop_iff (x : Iksemel N) (lib : TimeLib) (clock : ℕ → ℤ) (feed : Feed)
    {err : ErrState} {ik : N} (herr : err ≠ .cleared) :
    DeletesUnderLoop x lib clock feed err ik ↔
      RightRoot x "feed" ik ∧ ¬ RequiredStops x ik ∧
        Meets (feedChildFate x) (fun _ => EmptyEntry x) true (x.children ik) := by
  have hhead := readFeedHead_leaves x lib feed ik herr
  unfold DeletesUnderLoop
  by_cases hroot : RightRoot x "feed" ik ∧ ¬ RequiredStops x ik
  · have hname : x.name ik ≠ none := by simp [hroot.1.1]
    have hdeleted : feedDeleted x ik = [] := if_pos hroot.1
    rw [if_neg hname, if_neg (by simp [hroot.1, hroot.2])] at hhead
    obtain ⟨err', created, hread, htells, hcreated⟩ := hhead
    simp only [hread, hroot.1, hroot.2, not_false_eq_true, true_and, Except.ok.injEq,
      exists_eq_left']
    constructor
    · rintro ⟨front, child, rest, s', heq, hfront, hentry, hdeletes⟩
      obtain ⟨recorded, hsweep, -⟩ := readFeedTurns_ok htells hcreated hdeleted hfront
      exact ⟨front, child, rest, recorded, heq, hsweep, hentry,
        (readRoot_ne_ok_iff hentry _).mp hdeletes⟩
    · rintro ⟨front, child, rest, recorded, heq, hsweep, hentry, hchildren⟩
      have hleaves := readFeedTurns_leaves x lib clock front
        (s := ⟨readFeedFields x lib ik feed, err', feedDeleted x ik, created⟩) htells hcreated
        hdeleted
      rw [hsweep] at hleaves
      obtain ⟨err'', created', hfront, -⟩ := hleaves
      exact ⟨front, child, rest, _, heq, hfront, hentry,
        (readRoot_ne_ok_iff hentry _).mpr hchildren⟩
  · have hstops : ¬ RightRoot x "feed" ik ∨ RequiredStops x ik := by
      rw [not_and_or, not_not] at hroot
      exact hroot
    rw [← and_assoc, iff_false_right (fun h => hroot h.1)]
    rintro ⟨s, hread, -⟩
    by_cases hname : x.name ik = none
    · rw [if_pos hname] at hhead
      cases hread.symm.trans hhead
    · rw [if_neg hname, if_pos hstops] at hhead
      obtain ⟨message, created, hstop⟩ := hhead
      cases hread.symm.trans hstop

/-! ## When a document is deleted once -/

section Documents

variable {x : Iksemel N} {iksLoad : Str → Except IksError N} {fname : Str} {ik : N}

/-- The nodes that a call for an entry file deletes. -/
lemma entrySetFromFile_deleted {lib : TimeLib} {entry : Entry} {err : ErrState}
    (hload : iksLoad fname = .ok ik) {value : ℤ} {s : EntryParse N}
    (h : entrySetFromFile x lib iksLoad entry err fname = some (value, s)) :
    err ≠ .cleared ∧ x.name ik ≠ none ∧ s.deleted = entryDeleted x ik ++ [ik] := by
  unfold entrySetFromFile at h
  rw [hload] at h
  obtain ⟨⟨result, s'⟩, hcall, h⟩ := Option.bind_eq_some_iff.mp h
  cases h
  obtain ⟨-, hdeleted, hvalue⟩ := entrySetFromIks_left hcall
  refine ⟨ne_cleared_of_entrySetFromIks hcall, fun hname => ?_, by rw [← hdeleted]⟩
  have hfate : entryFate x ik = .faults := if_pos hname
  rw [hfate] at hvalue
  simp at hvalue

/-- A call for an entry file returns when the parser does. -/
lemma exists_entrySetFromFile_iff (lib : TimeLib) (entry : Entry) {err : ErrState}
    (hload : iksLoad fname = .ok ik) (herr : err ≠ .cleared) :
    (∃ value s, entrySetFromFile x lib iksLoad entry err fname = some (value, s)) ↔
      entryFate x ik ≠ .faults := by
  rw [← exists_entrySetFromIks_iff x lib entry ik herr]
  unfold entrySetFromFile
  rw [hload]
  constructor
  · rintro ⟨value, s, h⟩
    obtain ⟨⟨result, s'⟩, hcall, -⟩ := Option.bind_eq_some_iff.mp h
    exact ⟨result, s', hcall⟩
  · rintro ⟨value, s, hcall⟩
    exact ⟨value, _, Option.bind_eq_some_iff.mpr ⟨_, hcall, rfl⟩⟩

/-- The nodes that a call for a feed file deletes. -/
lemma feedSetFromFile_deleted {lib : TimeLib} {clock : ℕ → ℤ} {feed : Feed} {err : ErrState}
    (hload : iksLoad fname = .ok ik) {value : ℤ} {s : FeedParse N}
    (h : feedSetFromFile x lib clock iksLoad feed err fname = some (value, s)) :
    err ≠ .cleared ∧ x.name ik ≠ none ∧ s.deleted = feedDeleted x ik ++ [ik] := by
  unfold feedSetFromFile at h
  rw [hload] at h
  obtain ⟨⟨result, s'⟩, hcall, h⟩ := Option.bind_eq_some_iff.mp h
  cases h
  obtain ⟨-, hdeleted, hvalue⟩ := feedSetFromIks_left hcall
  refine ⟨ne_cleared_of_feedSetFromIks hcall, fun hname => ?_, by rw [← hdeleted]⟩
  have hfate : feedFate x ik = .faults := if_pos hname
  rw [hfate] at hvalue
  simp at hvalue

/-- A call for a feed file returns when the parser does. -/
lemma exists_feedSetFromFile_iff (lib : TimeLib) (clock : ℕ → ℤ) (feed : Feed) {err : ErrState}
    (hload : iksLoad fname = .ok ik) (herr : err ≠ .cleared) :
    (∃ value s, feedSetFromFile x lib clock iksLoad feed err fname = some (value, s)) ↔
      feedFate x ik ≠ .faults := by
  rw [← exists_feedSetFromIks_iff x lib clock feed ik herr]
  unfold feedSetFromFile
  rw [hload]
  constructor
  · rintro ⟨value, s, h⟩
    obtain ⟨⟨result, s'⟩, hcall, -⟩ := Option.bind_eq_some_iff.mp h
    exact ⟨result, s', hcall⟩
  · rintro ⟨value, s, hcall⟩
    exact ⟨value, _, Option.bind_eq_some_iff.mpr ⟨_, hcall, rfl⟩⟩

/-- Without a document the object stays as it was, and nothing is deleted.

**Proof sketch.** The error of the loader is recorded; its message is one of a few, by cases. -/
lemma setFromFile_failed (lib : TimeLib) (clock : ℕ → ℤ) (entry : Entry) (feed : Feed)
    {err : ErrState} {e : IksError} (hload : iksLoad fname = .error e) (herr : err ≠ .cleared) :
    entrySetFromFile x lib iksLoad entry err fname =
        some (0, ⟨entry, .shown ⟨taAtomLoadError, e.message.toList⟩, []⟩) ∧
      feedSetFromFile x lib clock iksLoad feed err fname =
        some (0, ⟨feed, .shown ⟨taAtomLoadError, e.message.toList⟩, [], 0⟩) := by
  have hset : loadError err e = some (.shown ⟨taAtomLoadError, e.message.toList⟩) := by
    unfold loadError
    cases err with
    | unset => simp [errStateStep, formatArgs]
    | shown error => simp [errStateStep, formatArgs]
    | cleared => exact absurd rfl herr
  unfold entrySetFromFile feedSetFromFile
  rw [hload]
  simp only [hset]
  exact ⟨rfl, rfl⟩

/-- **An entry document is deleted once** by a call that returns exactly when its root is an entry,
and the parser comes to no fault.

**Proof sketch.** A call that returns has deleted the document behind what the parser deleted,
which is the root exactly when it is no entry. -/
lemma entry_deleted_once_iff (lib : TimeLib) (hload : iksLoad fname = .ok ik) (err : ErrState)
    (entry : Entry) :
    (∃ value s, entrySetFromFile x lib iksLoad entry err fname = some (value, s) ∧
        s.deleted = [ik]) ↔
      err ≠ .cleared ∧ RightRoot x "entry" ik ∧ entryFate x ik ≠ .faults := by
  constructor
  · rintro ⟨value, s, hcall, honce⟩
    obtain ⟨herr, -, hdeleted⟩ := entrySetFromFile_deleted hload hcall
    refine ⟨herr, ?_, (exists_entrySetFromFile_iff lib entry hload herr).mp ⟨value, s, hcall⟩⟩
    by_contra hroot
    rw [honce, entryDeleted, if_neg hroot] at hdeleted
    simp at hdeleted
  · rintro ⟨herr, hroot, hfate⟩
    obtain ⟨value, s, hcall⟩ := (exists_entrySetFromFile_iff lib entry hload herr).mpr hfate
    refine ⟨value, s, hcall, ?_⟩
    rw [(entrySetFromFile_deleted hload hcall).2.2, entryDeleted, if_pos hroot, List.nil_append]

/-- **A feed document is deleted once** by a call that returns exactly when its root is a feed, and
the parser comes to no fault.

**Proof sketch.** A call that returns deletes the document last, behind the entries that it
deletes itself; it returns exactly when the parser meets no fault
(`exists_feedSetFromFile_iff`). -/
lemma feed_deleted_once_iff (lib : TimeLib) (clock : ℕ → ℤ) (hload : iksLoad fname = .ok ik)
    (err : ErrState) (feed : Feed) :
    (∃ value s, feedSetFromFile x lib clock iksLoad feed err fname = some (value, s) ∧
        s.deleted = [ik]) ↔
      err ≠ .cleared ∧ RightRoot x "feed" ik ∧ feedFate x ik ≠ .faults := by
  constructor
  · rintro ⟨value, s, hcall, honce⟩
    obtain ⟨herr, -, hdeleted⟩ := feedSetFromFile_deleted hload hcall
    refine ⟨herr, ?_, (exists_feedSetFromFile_iff lib clock feed hload herr).mp ⟨value, s, hcall⟩⟩
    by_contra hroot
    rw [honce, feedDeleted, if_neg hroot] at hdeleted
    simp at hdeleted
  · rintro ⟨herr, hroot, hfate⟩
    obtain ⟨value, s, hcall⟩ := (exists_feedSetFromFile_iff lib clock feed hload herr).mpr hfate
    refine ⟨value, s, hcall, ?_⟩
    rw [(feedSetFromFile_deleted hload hcall).2.2, feedDeleted, if_pos hroot, List.nil_append]

end Documents

/-- An entry child without children is a fault of the feed's loop: it is deleted under it. -/
lemma meetsFault_of_deletesUnderLoop {x : Iksemel N} {lib : TimeLib} {clock : ℕ → ℤ} {feed : Feed}
    {err : ErrState} {ik : N} (herr : err ≠ .cleared)
    (h : DeletesUnderLoop x lib clock feed err ik) :
    ¬ RequiredStops x ik ∧ MeetsFault (feedChildFate x) (x.children ik) := by
  obtain ⟨-, hrequired, front, child, rest, recorded, heq, hgoes, hname, hchildren⟩ :=
    (deletesUnderLoop_iff x lib clock feed herr).mp h
  refine ⟨hrequired, (sweep_faults_iff (feedChildFate_false x) _).mp ?_⟩
  have hchild : feedChildFate x recorded child = .faults := by
    rw [feedChildFate_entry hname, if_neg (by simp [hchildren])]
  rw [heq, sweep_append hgoes, sweep, hchild]

/-- **A document from a file is deleted once**, by a call that returns, and no entry child is
deleted under the loop of a feed, exactly when the error record was not cleared before, the root
is what the call looks for, and the parser comes to no fault: it stops in front of the children,
or its loop comes to none.

**Proof sketch.** Such a call returns, and the parser deletes nothing itself. At another root it
deletes the document a first time, and with a cleared record or at a fault the call does not return.
An entry child that is deleted under the loop is such a fault. -/
theorem document_deleted_once_iff (x : Iksemel N) (lib : TimeLib)
    (iksLoad : Str → Except IksError N) {fname : Str} {ik : N} (hload : iksLoad fname = .ok ik)
    (err : ErrState) :
    (∀ entry, (∃ value s, entrySetFromFile x lib iksLoad entry err fname = some (value, s) ∧
        s.deleted = [ik]) ↔
      err ≠ .cleared ∧ RightRoot x "entry" ik ∧
        (RequiredStops x ik ∨ ContentStops x ik ∨
          ¬ MeetsFault (namedFate x) (x.children ik))) ∧
      ∀ clock feed, ((∃ value s,
          feedSetFromFile x lib clock iksLoad feed err fname = some (value, s) ∧
            s.deleted = [ik]) ∧ ¬ DeletesUnderLoop x lib clock feed err ik ↔
        err ≠ .cleared ∧ RightRoot x "feed" ik ∧
          (RequiredStops x ik ∨ ¬ MeetsFault (feedChildFate x) (x.children ik))) := by
  constructor
  · intro entry
    rw [entry_deleted_once_iff lib hload err entry, ne_eq (entryFate x ik), entryFate_faults_iff]
    refine and_congr_right fun _ => and_congr_right fun hroot => ?_
    have hname : x.name ik ≠ none := by simp [hroot.1]
    simp only [hname, hroot, false_or, true_and]
    tauto
  · intro clock feed
    rw [feed_deleted_once_iff lib clock hload err feed, ne_eq (feedFate x ik), feedFate_faults_iff]
    constructor
    · rintro ⟨⟨herr, hroot, hfate⟩, -⟩
      refine ⟨herr, hroot, ?_⟩
      by_contra! hcond
      exact hfate (Or.inr ⟨hroot, hcond⟩)
    · rintro ⟨herr, hroot, hcond⟩
      have hname : x.name ik ≠ none := by simp [hroot.1]
      refine ⟨⟨herr, hroot, ?_⟩, fun hdeletes => ?_⟩
      · rintro (hnone | ⟨-, hrequired, hfault⟩)
        · exact hname hnone
        · exact (hcond.resolve_left hrequired) hfault
      · obtain ⟨hrequired, hfault⟩ := meetsFault_of_deletesUnderLoop herr hdeletes
        exact (hcond.resolve_left hrequired) hfault

/-- An entry document that is read is deleted once.

**Proof sketch.** The call is computed, and the claim about it is the equivalence at this
document. -/
theorem document_deleted_once_entry :
    ∃ s, entrySetFromFile xmlNodes epochLib
        (fun _ => .ok (.tag "entry".toList [] [.leaf "id" "1a", .leaf "title" "Olha"]))
        (entryNew none 0) .unset "olha.xml".toList = some (1, s) ∧
      s.deleted = [.tag "entry".toList [] [.leaf "id" "1a", .leaf "title" "Olha"]] := by
  obtain ⟨s, hs⟩ : ∃ s, entrySetFromFile xmlNodes epochLib
      (fun _ => .ok (.tag "entry".toList [] [.leaf "id" "1a", .leaf "title" "Olha"]))
      (entryNew none 0) .unset "olha.xml".toList = some (1, s) := ⟨_, rfl⟩
  have hgoes : ¬ MeetsFault (namedFate xmlNodes)
      [.leaf "id" "1a", .leaf "title" "Olha"] := by
    rw [← sweep_faults_iff (staysCleared_namedFate xmlNodes)]
    decide
  obtain ⟨value, s', hs', hdeleted⟩ := ((@document_deleted_once_iff _ xmlNodes epochLib
    (fun _ => .ok (.tag "entry".toList [] [.leaf "id" "1a", .leaf "title" "Olha"]))
    "olha.xml".toList _ rfl .unset).1 (entryNew none 0)).mpr
      ⟨by simp, by decide, Or.inr (Or.inr hgoes)⟩
  obtain ⟨rfl, rfl⟩ := Prod.mk.inj (Option.some.inj (hs.symm.trans hs'))
  exact ⟨s, hs, hdeleted⟩

/-- The root of a feed document, deleted twice in the place of an entry, and an empty entry, deleted
under the loop of a feed. -/
theorem document_deleted_twice_feed :
    (∃ s, entrySetFromFile xmlNodes epochLib (fun _ => .ok (.tag "feed".toList [] []))
        (entryNew none 0) .unset "olha.xml".toList = some (0, s) ∧
      s.deleted = [.tag "feed".toList [] [], .tag "feed".toList [] []]) ∧
    DeletesUnderLoop xmlNodes epochLib (fun _ => 0) (feedNew none 0) .unset
      (.tag "feed".toList []
        [.leaf "id" "1a", .leaf "title" "Olha", .tag "entry".toList [] []]) := by
  refine ⟨⟨_, rfl, rfl⟩, ?_⟩
  refine ⟨_, rfl, [.leaf "id" "1a", .leaf "title" "Olha"], _, [], _, rfl, rfl, rfl, ?_⟩
  exact (readRoot_ne_ok_iff rfl _).mpr rfl

end Taningia
