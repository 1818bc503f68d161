import Taningia.Iri.Tag
import Taningia.Lib.Machine

set_option relaxedAutoImplicit false
set_option autoImplicit false

/-!
# Setting the parts of a tag

`src/iri.c`: `ta_tag_set_authority`, `ta_tag_set_date` and `ta_tag_set_specific` each store a copy
and build the path of the IRI again. The helper takes the length of all three parts after every one
of them, so the first call on a new tag takes the length of a part that is not there. The size that
it allocates has room for the three parts and two bytes, of which the separators take both.

## Main definitions

* `Taningia.tagUpdatePath`, `Taningia.tagSetPart` — the helper, and a call of a setter.
* `Taningia.PathFollows` — what the setters should do in every sequence of calls.

## Main results

* `Taningia.tagUpdatePath_eq_some_iff` — the helper needs all parts.
* `Taningia.tag_path_follows_iff` — the sequences of calls that do what they should.
-/

namespace Taningia

/-- A call of `ta_tag_set_authority`, `ta_tag_set_date` or `ta_tag_set_specific`. -/
inductive TagPartCall where
  | authority (authority : Str)
  | date (date : Str)
  | specific (specific : Str)
deriving DecidableEq, Repr

/-- `_ta_tag_update_path`: the tag with its new path, and the size that `malloc` was called with.
The result is `none` when `strlen` takes `NULL`. -/
def tagUpdatePath (tag : Tag) : Option (Tag × ℕ) :=
  match tag.authority, tag.date, tag.specific with
  | some authority, some date, some specific =>
    some ({ tag with parent := { tag.parent with
      path := some (authority ++ ",".toList ++ date ++ ":".toList ++ specific) } },
      authority.length + date.length + specific.length + 2)
  | _, _, _ => none

/-- `ta_tag_set_authority`. -/
def tagSetAuthority (tag : Tag) (authority : Str) : Option (Tag × ℕ) :=
  tagUpdatePath { tag with authority := some authority }

/-- `ta_tag_set_date`. -/
def tagSetDate (tag : Tag) (date : Str) : Option (Tag × ℕ) :=
  tagUpdatePath { tag with date := some date }

/-- `ta_tag_set_specific`. -/
def tagSetSpecific (tag : Tag) (specific : Str) : Option (Tag × ℕ) :=
  tagUpdatePath { tag with specific := some specific }

/-- A call of a setter. -/
def tagSetPart (tag : Tag) : TagPartCall → Option (Tag × ℕ)
  | .authority text => tagSetAuthority tag text
  | .date text => tagSetDate tag text
  | .specific text => tagSetSpecific tag text

/-- The tag after a call of a setter. -/
def tagStep (tag : Tag) (call : TagPartCall) : Option Tag := (tagSetPart tag call).map Prod.fst

/-- The path is that of the three parts, once they are set. -/
def Tag.PathIsParts (tag : Tag) : Prop :=
  ∀ authority date specific, tag.authority = some authority → tag.date = some date →
    tag.specific = some specific →
    tag.parent.path = some (authority ++ ",".toList ++ date ++ ":".toList ++ specific)

/-- The path of the tag, with its terminator, fits into a buffer. -/
def Tag.PathFits (tag : Tag) (size : ℕ) : Prop :=
  ∀ path, tag.parent.path = some path → path.length + 1 ≤ size

/-- The call behind `pre` on a new tag succeeds, and then the path follows the parts and fits. -/
def FollowsParts (pre : List TagPartCall) (call : TagPartCall) : Prop :=
  ∃ tag tag' size, Machine.run? tagStep tagNew pre = some tag ∧
    tagSetPart tag call = some (tag', size) ∧ tag'.PathIsParts ∧ tag'.PathFits size

/-- Every call of the sequence does what it should. -/
def PathFollows (calls : List TagPartCall) : Prop := Machine.EachStep FollowsParts calls

/-- The part that a call sets. -/
def TagPartCall.set (call : TagPartCall) (tag : Tag) : Tag :=
  match call with
  | .authority text => { tag with authority := some text }
  | .date text => { tag with date := some text }
  | .specific text => { tag with specific := some text }

/-- Each setter assigns its part and calls the helper. -/
lemma tagSetPart_eq (tag : Tag) (call : TagPartCall) :
    tagSetPart tag call = tagUpdatePath (call.set tag) := by
  cases call <;> rfl

/-- **The helper needs all parts.** The size is that of the path without its terminator.

**Proof sketch.** By cases on the parts: without one of them the helper fails. -/
lemma tagUpdatePath_eq_some_iff {tag tag' : Tag} {size : ℕ} :
    tagUpdatePath tag = some (tag', size) ↔
      ∃ authority date specific, tag.authority = some authority ∧ tag.date = some date ∧
        tag.specific = some specific ∧
        ∃ path, path = authority ++ ",".toList ++ date ++ ":".toList ++ specific ∧
          tag' = { tag with parent := { tag.parent with path := some path } } ∧
          size = path.length := by
  obtain ⟨parent, _ | authority, _ | date, _ | specific⟩ := tag
  case some.some.some =>
    have hlen : authority.length + date.length + specific.length + 2 =
        (authority ++ ",".toList ++ date ++ ":".toList ++ specific).length := by
      simp
      omega
    constructor
    · intro h
      obtain ⟨rfl, rfl⟩ := Prod.mk.inj (Option.some.inj h)
      exact ⟨authority, date, specific, rfl, rfl, rfl, _, rfl, rfl, hlen⟩
    · rintro ⟨_, _, _, ha, hd, hs, path, rfl, rfl, rfl⟩
      cases ha
      cases hd
      cases hs
      rw [← hlen]
      rfl
  all_goals simp [tagUpdatePath]

/-- A setter that succeeds makes the path of the parts, and a buffer that is one byte too small. -/
lemma tagSetPart_spec {tag tag' : Tag} {call : TagPartCall} {size : ℕ}
    (h : tagSetPart tag call = some (tag', size)) : tag'.PathIsParts ∧ ¬ tag'.PathFits size := by
  rw [tagSetPart_eq, tagUpdatePath_eq_some_iff] at h
  obtain ⟨authority, date, specific, ha, hd, hs, path, rfl, rfl, rfl⟩ := h
  constructor
  · intro _ _ _ ha' hd' hs'
    obtain rfl := Option.some.inj (ha.symm.trans ha')
    obtain rfl := Option.some.inj (hd.symm.trans hd')
    obtain rfl := Option.some.inj (hs.symm.trans hs')
    rfl
  · intro hfits
    have := hfits _ rfl
    omega

/-- The first call on a new tag takes the length of a part that is not there. -/
lemma tagSetPart_tagNew (call : TagPartCall) : tagSetPart tagNew call = none := by
  cases call <;> rfl

/-- **The path of a tag** follows its parts only in the empty sequence of calls: the first call on a
new tag fails. On any tag, a call that succeeds makes the right path, in a buffer that is too small
for it.

**Proof sketch.** The first call on a new tag finds another part missing. A call that succeeds
has all parts, and the size is that of the path without its NUL (`tagSetPart_spec`). -/
theorem tag_path_follows_iff (calls : List TagPartCall) :
    (PathFollows calls ↔ calls = []) ∧
      ∀ (tag tag' : Tag) (call : TagPartCall) (size : ℕ), tagSetPart tag call = some (tag', size) →
        tag'.PathIsParts ∧ ¬ tag'.PathFits size := by
  refine ⟨?_, fun tag tag' call size h => tagSetPart_spec h⟩
  constructor
  · intro h
    cases calls with
    | nil => rfl
    | cons call calls =>
      obtain ⟨tag, tag', size, hrun, hset, -⟩ := h [] call (by simp)
      obtain rfl : tagNew = tag := Option.some.inj hrun
      rw [tagSetPart_tagNew] at hset
      cases hset
  · rintro rfl
    exact Machine.eachStep_nil _

/-- Setting the authority of a new tag fails. -/
theorem tag_authority_first : ¬ PathFollows [.authority "taningia.org".toList] := by
  intro h
  obtain ⟨tag, tag', size, hrun, hset, -⟩ := h [] (.authority "taningia.org".toList) (by simp)
  obtain rfl : tagNew = tag := Option.some.inj hrun
  rw [tagSetPart_tagNew] at hset
  cases hset

end Taningia
