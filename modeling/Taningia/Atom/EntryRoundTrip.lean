import Taningia.Atom.EntryDecision

set_option relaxedAutoImplicit false
set_option autoImplicit false

/-!
# Encoding an entry and reading it back

`src/atom.c`: the tree that `ta_atom_entry_to_iks` builds for an entry begins with its printed id,
and the parser refuses an id that the IRI parser accepts. So no entry whose id is read back by the
IRI parser is read back by the entry parser.

## Main definitions

* `Taningia.SameEntry` — two entries with the same fields.
* `Taningia.DecodesBack` — an entry that is encoded and read back.

## Main results

* `Taningia.entrySetFromIks_accepted_id` — what the parser does with a valid id.
* `Taningia.entry_not_decodesBack` — no entry is read back.
-/

namespace Taningia

variable {N : Type}

/-- The IRI survives printing and reading. -/
def IriReadsBack (iri : Iri) : Prop :=
  ∀ err, iriSetFromString iriNew (iriToString iri) err = ⟨taOk, iri, err⟩

/-- **The fields of two entries agree**; a content by its type, its text and its source, a person by
its name, email and IRI. -/
structure SameEntry (a b : Entry) : Prop where
  id : a.id = b.id
  title : a.title = b.title
  updated : a.updated = b.updated
  published : a.published = b.published
  rights : a.rights = b.rights
  summary : a.summary = b.summary
  content : (a.content.map fun c => (c.type, c.content, c.src)) =
    b.content.map fun c => (c.type, c.content, c.src)
  authors : (a.authors.map fun p => (p.name, p.email, p.iri)) =
    b.authors.map fun p => (p.name, p.email, p.iri)
  categories : a.categories = b.categories
  links : a.links = b.links
  inReplyTo : a.inReplyTo = b.inReplyTo

/-- The entry is encoded, its tree is parsed into the entry `fresh` with the value `1`, and then the
fields agree. -/
def DecodesBack (x : Iksemel N) (lib : TimeLib) (fresh : Entry) (err : ErrState) (entry : Entry) :
    Prop :=
  ∃ ik s, entryToIks x lib entry = some (some ik) ∧
    entrySetFromIks x lib fresh err ik = some (1, s) ∧ SameEntry entry s.entry

/-- An IRI that is read back is printed as an accepted text. -/
lemma IriReadsBack.accepts {iri : Iri} (h : IriReadsBack iri) :
    iriAccepts (iriToString iri) = true := by
  rw [iriAccepts, h none]
  rfl

/-- No IRI is read from an empty text. -/
lemma IriReadsBack.text_ne_nil {iri : Iri} (h : IriReadsBack iri) : iriToString iri ≠ [] := by
  intro hnil
  have haccepts := h.accepts
  rw [hnil] at haccepts
  exact absurd haccepts (by decide)

/-- **A valid id is refused**: an entry element with an accepted id returns `0` with an error about
its id, and the entry is as before.

**Proof sketch.** The root is right, and the required fields are refused at the id, before
anything is assigned. -/
lemma entrySetFromIks_accepted_id {x : Iksemel N} {ik : N}
    (hroot : x.name ik = some "entry".toList ∧ x.hasChildren ik = true) {id : Str}
    (hid : x.findCdata ik "id".toList = some id) (haccepts : iriAccepts id = true) (lib : TimeLib)
    (entry : Entry) {err : ErrState} (herr : err ≠ .cleared) :
    entrySetFromIks x lib entry err ik =
      some (0, ⟨entry, .shown ⟨taAtomParsingError, "Invalid <id> iri".toList⟩, []⟩) := by
  obtain ⟨call, hcall, hnot⟩ := readIri_accepts haccepts iriNew (⟨entry, err, []⟩ : EntryParse N)
  have hrequired : readRequired x ik ⟨entry, err, []⟩ =
      .error (some (0, ⟨entry, .shown ⟨taAtomParsingError, "Invalid <id> iri".toList⟩, []⟩)) := by
    unfold readRequired
    rw [hid]
    simp only [hcall, hnot, bind, Except.bind, if_true]
    exact parsingError_eq (s := (⟨entry, err, []⟩ : EntryParse N)) herr _
  unfold entrySetFromIks readEntry
  simp only [readRoot_right hroot, hrequired, bind, Except.bind]

/-- **No entry is read back**: whatever the tree library and the calendar, an entry whose id
survives printing and reading is refused by the parser. -/
theorem entry_not_decodesBack {x : Iksemel N} (hx : x.Laws) (lib : TimeLib) {entry : Entry}
    {id : Iri} (hid : entry.id = some id) (hback : IriReadsBack id) (fresh : Entry)
    (err : ErrState) :
    ¬ DecodesBack x lib fresh err entry := by
  rintro ⟨ik, s, hik, hparse, -⟩
  obtain ⟨hname, hchildren, hcdata⟩ := entryToIks_id hx hid hback.text_ne_nil hik
  by_cases herr : err = .cleared
  · rw [herr, entrySetFromIks_cleared] at hparse
    exact absurd hparse (by simp)
  · have hzero := entrySetFromIks_accepted_id ⟨hname, hchildren⟩ hcdata hback.accepts lib fresh herr
    obtain ⟨hvalue, -⟩ := Prod.mk.inj (Option.some.inj (hparse.symm.trans hzero))
    exact absurd hvalue (by decide)

/-- An entry with an id, a title and an author. -/
def sampleEntry : Entry :=
  { entryNew (some "Olha".toList) 0 with
    id := some ⟨some "urn".toList, none, none, 0, some "x".toList, none, none⟩
    authors := [personNew "Ana".toList none none] }

/-- The sample entry, with the id `urn:x`. -/
theorem entry_not_decodesBack_sample :
    ¬ DecodesBack xmlNodes epochLib (entryNew none 0) .unset sampleEntry :=
  entry_not_decodesBack xmlNodes_laws epochLib rfl (fun _ => rfl) (entryNew none 0) .unset

/-- The smallest entry is refused as well. -/
theorem entry_not_decodesBack_small :
    ¬ DecodesBack xmlNodes epochLib (entryNew none 0) .unset
      { entryNew (some "Olha".toList) 0 with
        id := some ⟨some "urn".toList, none, none, 0, some "x".toList, none, none⟩ } := by
  rintro ⟨ik, s, hik, hparse, -⟩
  obtain rfl := Option.some.inj (Option.some.inj hik)
  obtain ⟨hvalue, -⟩ := Prod.mk.inj (Option.some.inj hparse)
  exact absurd hvalue (by decide)

end Taningia
