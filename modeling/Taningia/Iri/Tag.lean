import Taningia.Iri.Parse

set_option relaxedAutoImplicit false
set_option autoImplicit false

/-!
# Tag URIs

`src/iri.c`: a `ta_tag_t` is an IRI whose path is split once more, into authority, date and
specific. `ta_tag_set_from_string` runs the parser of IRIs first and tests its status with `!`; that
status is `0` for an accepted string.

## Main definitions

* `Taningia.Tag`, `Taningia.tagSetFromString` — the record and its parser.
* `Taningia.HasTag` — the strings that a tag should be read from.

## Main results

* `Taningia.tagSetFromString_of_accepts`, `Taningia.tagSetFromString_of_rejects` — an accepted
  string sets nothing, a rejected one runs into a path that is not there.
* `Taningia.tag_parses_iff` — the strings on which a fresh tag comes out right.
-/

namespace Taningia

/-- The components of a `ta_tag_t`. -/
structure Tag where
  parent : Iri
  authority : Option Str
  date : Option Str
  specific : Option Str
deriving DecidableEq, Repr

/-- `ta_tag_new`. -/
def tagNew : Tag := ⟨iriNew, none, none, none⟩

/-- What a call of `ta_tag_set_from_string` leaves: its return value, the object and the error
record of the thread. -/
structure TagCall where
  status : ℤ
  tag : Tag
  err : ErrRec
deriving DecidableEq, Repr

/-- `ta_tag_set_from_string`. The result is `none` when `strchr` is called on `NULL`. -/
def tagSetFromString (tag : Tag) (tagstr : Str) (err : ErrRec) : Option TagCall :=
  let call := iriSetFromString tag.parent tagstr err
  let tag := { tag with parent := call.iri }
  if call.status = 0 then some ⟨0, tag, call.err⟩
  else
    match tag.parent.path with
    | none => none
    | some path =>
      match strchr path ',' with
      | none => some ⟨0, tag, errorSet taTagParsingError "Date field missing in tag".toList⟩
      | some date =>
        let tag := { tag with authority := some (strndup path (ptrDiff date path)) }
        match strchr date ':' with
        | none => some ⟨0, tag, errorSet taTagParsingError "Domain specific not provided".toList⟩
        | some specific =>
          let tag := { tag with date := some (strndup date.tail (ptrDiff specific date - 1)) }
          let tag := { tag with specific := some specific.tail }
          some ⟨1, tag, call.err⟩

/-! ## What a tag should be read from -/

/-- The path has a `','` that is followed by a `':'`. -/
def TagPath (path : Str) : Prop := ',' ∈ path ∧ ':' ∈ Scan.after ',' path

instance (path : Str) : Decidable (TagPath path) := inferInstanceAs (Decidable (_ ∧ _))

/-- The IRI parser accepts the string, and the path it reads is one of a tag. -/
def HasTag (string : Str) : Prop :=
  iriAccepts string = true ∧
    (iriSetFromString iriNew string none).iri.path.any (fun path => decide (TagPath path)) = true

instance (string : Str) : Decidable (HasTag string) := inferInstanceAs (Decidable (_ ∧ _))

/-- The three components are set, and they are the pieces of the path at its first `','` and the
first `':'` behind that. -/
def TagOfPath (tag : Tag) (path : Str) : Prop :=
  ∃ authority date specific, tag.authority = some authority ∧ tag.date = some date ∧
    tag.specific = some specific ∧ path = authority ++ ',' :: (date ++ ':' :: specific) ∧
    ',' ∉ authority ∧ ':' ∉ date

/-- A parsed string does what it should: nothing is searched at `NULL`, the three components are set
exactly for the string of a tag, and then they are the pieces of its path. -/
def ParsesTag (string : Str) (err : ErrRec) : Prop :=
  ∃ call, tagSetFromString tagNew string err = some call ∧
    (call.tag.authority.isSome ∧ call.tag.date.isSome ∧ call.tag.specific.isSome ↔
      HasTag string) ∧
    (HasTag string → ∀ path, call.tag.parent.path = some path → TagOfPath call.tag path)

/-- The status on a string differs from the status on every string of the other kind. -/
def StatusTells (string : Str) (err : ErrRec) : Prop :=
  ∀ other, (HasTag string ↔ ¬ HasTag other) →
    (tagSetFromString tagNew string err).map TagCall.status ≠
      (tagSetFromString tagNew other err).map TagCall.status

/-! ## What the parser does -/

/-- A rejected string leaves the path alone. -/
lemma path_of_rejected (iri : Iri) {string : Str} (err : ErrRec)
    (h : iriAccepts string = false) : (iriSetFromString iri string err).iri.path = iri.path := by
  have hverdict := status_eq_taOk_iff iriNew string none
  rw [← beq_iff_eq, ← iriAccepts, h] at hverdict
  by_cases hs : HasScheme string
  · obtain ⟨x, hx, hbad⟩ : ∃ x, authorityText string = some x ∧ BadPort x := by
      simpa [hs] using hverdict
    have hcall := iriSetFromString_authority hs.2 iri x err
    rw [← hs.eq_authority hx, if_pos hbad] at hcall
    rw [hcall]
    rfl
  · obtain ⟨message, hfail⟩ := iriSetFromString_no_scheme hs iri err
    rw [hfail]
    rfl

/-- **An accepted string** sets nothing but the IRI, and the status is `0`. -/
lemma tagSetFromString_of_accepts {string : Str} (h : iriAccepts string = true) (tag : Tag)
    (err : ErrRec) :
    tagSetFromString tag string err =
      some ⟨0, { tag with parent := (iriSetFromString tag.parent string err).iri }, err⟩ := by
  obtain ⟨hstatus, herr⟩ := iriSetFromString_of_accepts h tag.parent err
  unfold tagSetFromString
  simp only [hstatus, taOk, if_true, herr]

/-- **A rejected string** makes a fresh tag search a path that is not there. -/
lemma tagSetFromString_of_rejects {string : Str} (h : iriAccepts string = false) (err : ErrRec) :
    tagSetFromString tagNew string err = none := by
  have hstatus : (iriSetFromString tagNew.parent string err).status ≠ 0 := by
    rw [(iriSetFromString_of_rejects h tagNew.parent err).1]
    decide
  have hpath : (iriSetFromString tagNew.parent string err).iri.path = none :=
    path_of_rejected iriNew err h
  unfold tagSetFromString
  simp only [if_neg hstatus, hpath]

/-- All accepted strings have one status. -/
lemma status_tagSetFromString {string : Str} (h : iriAccepts string = true) (err : ErrRec) :
    (tagSetFromString tagNew string err).map TagCall.status = some 0 := by
  rw [tagSetFromString_of_accepts h]
  rfl

/-- A string of a tag, and an accepted string that is none. -/
lemma hasTag_samples :
    HasTag "tag:a,2009:b".toList ∧ ¬ HasTag "tag:a".toList ∧
      iriAccepts "tag:a".toList = true := by
  decide

/-- **The strings on which a fresh tag comes out right**: the accepted ones that have no tag. The
status tells on none of them.

**Proof sketch.** An accepted string returns at the test of the status with nothing set, which is
right when there was nothing to set. A rejected one goes on to search the path that a fresh tag does
not have. All accepted strings return `0`, those of a tag and the others. -/
theorem tag_parses_iff (string : Str) (err : ErrRec) :
    (ParsesTag string err ↔ iriAccepts string = true ∧ ¬ HasTag string) ∧
      ¬ (ParsesTag string err ∧ StatusTells string err) := by
  have hiff : ParsesTag string err ↔ iriAccepts string = true ∧ ¬ HasTag string := by
    cases hok : iriAccepts string with
    | true =>
      constructor
      · rintro ⟨call, hcall, hset, -⟩
        rw [tagSetFromString_of_accepts hok] at hcall
        cases hcall
        exact ⟨rfl, fun htag => Bool.false_ne_true (hset.mpr htag).1⟩
      · rintro ⟨-, hno⟩
        refine ⟨_, tagSetFromString_of_accepts hok tagNew err, ?_, fun htag => absurd htag hno⟩
        simp [tagNew, hno]
    | false => simp [ParsesTag, tagSetFromString_of_rejects hok]
  refine ⟨hiff, ?_⟩
  rintro ⟨hparses, htells⟩
  obtain ⟨hok, hno⟩ := hiff.mp hparses
  obtain ⟨htag, -, -⟩ := hasTag_samples
  apply htells "tag:a,2009:b".toList (by simp only [hno, htag, not_true])
  rw [status_tagSetFromString hok, status_tagSetFromString htag.1]

/-- **A tag is not read**: `"tag:a,2009:b"` is an accepted string of a tag, and the call returns `0`
with none of the three components set. -/
theorem tag_not_read :
    HasTag "tag:a,2009:b".toList ∧ ¬ ParsesTag "tag:a,2009:b".toList none ∧
      ∃ call, tagSetFromString tagNew "tag:a,2009:b".toList none = some call ∧ call.status = 0 ∧
        call.tag.authority = none ∧ call.tag.date = none ∧ call.tag.specific = none := by
  have htag := hasTag_samples.1
  refine ⟨htag, ?_, ?_⟩
  · rintro ⟨call, hcall, hset, -⟩
    rw [tagSetFromString_of_accepts htag.1] at hcall
    cases hcall
    exact Bool.false_ne_true (hset.mpr htag).1
  · rw [tagSetFromString_of_accepts htag.1]
    exact ⟨_, rfl, rfl, rfl, rfl, rfl⟩

end Taningia
