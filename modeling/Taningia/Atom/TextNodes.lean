import Taningia.Atom.FeedOutcome
import Taningia.Lib.Inserted

set_option relaxedAutoImplicit false
set_option autoImplicit false

/-!
# Text between the elements

Documents that are printed for readers have text between the elements, for which `iks_name` gives
`NULL`. The parsers search for most elements by their names, and find the same with and without the
text; but their loops compare the name of each child with `strcmp`.

## Main definitions

* `Taningia.TextAround`, `Taningia.Iksemel.TextLaws` — a tree with more text, and what is read of
  it.
* `Taningia.EntryCompares`, `Taningia.FeedCompares` — a call compares a missing name.
* `Taningia.EntryMeetsText`, `Taningia.FeedMeetsText` — where it does.
* `Taningia.EntryFaults`, `Taningia.FeedFaults` — a call for the element does not return.

## Main results

* `Taningia.sweep_inserted` — a sweep over the children of both trees.
* `Taningia.text_harmless_iff` — when the text makes no difference.
-/

namespace Taningia

open Machine

variable {N : Type}

/-! ## Trees with more text -/

/-- What `iks_find` and `iks_find_cdata` read: the first child of the name, and the text at the
beginning of it. -/
structure Iksemel.TextLaws (x : Iksemel N) : Prop where
  hasChildren_iff : ∀ n, x.hasChildren n = true ↔ x.children n ≠ []
  find_eq : ∀ n name, x.find n name = (x.children n).find? fun child => x.name child = some name
  findCdata_congr : ∀ n n' name, x.find n' name = x.find n name →
    x.findCdata n' name = x.findCdata n name
  findCdata_none : ∀ n name, x.find n name = none → x.findCdata n name = none

/-- The second tree is the first with text nodes inserted among the children, and the other children
replaced by related ones. -/
structure TextAround (x : Iksemel N) (R : N → N → Prop) (n n' : N) : Prop where
  name : x.name n' = x.name n
  attribs : ∀ attrib, x.findAttrib n' attrib = x.findAttrib n attrib
  children : Inserted (fun child => x.name child = none) R (x.children n) (x.children n')

/-- A child of a feed may have text inserted when it is an entry. -/
def FeedChildAround (x : Iksemel N) (child child' : N) : Prop :=
  child' = child ∨ x.name child = some "entry".toList ∧ TextAround x Eq child child'

section Laws

variable {x : Iksemel N} {R : N → N → Prop} {n n' : N}

/-- A child is found by its name as before, where the paired children of this name are equal. -/
lemma TextAround.find (hx : x.TextLaws) (h : TextAround x R n n') {name : Str}
    (hR : ∀ c c', R c c' → x.name c' = x.name c ∧ (x.name c = some name → c' = c)) :
    x.find n' name = x.find n name := by
  rw [hx.find_eq, hx.find_eq]
  refine h.children.find?_eq ?_ ?_
  · intro child hchild
    simp [hchild]
  · intro c c' hc
    obtain ⟨hname, hsame⟩ := hR c c' hc
    rw [hname]
    exact ⟨rfl, fun hfound => hsame (of_decide_eq_true hfound)⟩

/-- With text in front of and behind equal children the same child is found. -/
lemma TextAround.find_of_eq (hx : x.TextLaws) (h : TextAround x Eq n n') (name : Str) :
    x.find n' name = x.find n name := by
  refine h.find hx ?_
  rintro c c' rfl
  exact ⟨rfl, fun _ => rfl⟩

/-- With text in front of and behind equal children the same character data is found. -/
lemma TextAround.findCdata_of_eq (hx : x.TextLaws) (h : TextAround x Eq n n') (name : Str) :
    x.findCdata n' name = x.findCdata n name :=
  hx.findCdata_congr n n' name (h.find_of_eq hx name)

end Laws

/-! ## Walks over the children of both trees -/

section Walks

variable {fate : Bool → N → ParseFate} {kind : Bool → N → Prop} {recorded : Bool}

variable {P : N → Prop} {R : N → N → Prop} {l l' : List N}

/-- What the first list meets, the second meets too. -/
lemma meets_of_inserted (h : Inserted P R l l') (hP : ∀ r child, P child → kind r child)
    (hkind : ∀ r c c', R c c' → kind r c → kind r c')
    (hfate : ∀ r r' c c', R c c' → ¬ kind r c' → fate r c = .goesOn r' → fate r c' = .goesOn r')
    (hmeets : Meets fate kind recorded l) : Meets fate kind recorded l' := by
  induction h generalizing recorded with
  | nil => exact hmeets
  | insert ha h ih => exact meets_cons.mpr (Or.inl (hP _ _ ha))
  | @keep l l' a b hab h ih =>
    by_cases hb : kind recorded b
    · exact meets_cons.mpr (Or.inl hb)
    · rcases meets_cons.mp hmeets with ha | ⟨recorded', hgoes, hrest⟩
      · exact absurd (hkind recorded a b hab ha) hb
      · exact meets_cons.mpr (Or.inr ⟨recorded', hfate _ _ a b hab hb hgoes, ih hrest⟩)

/-- **A sweep over both lists**, when it meets none of the kind in the second. The children are
paired up to where the sweep ends, or up to the first pair that differs.

**Proof sketch.** Induction on how the second list arises. An inserted child is of the kind, so
it would be met. A kept pair either differs, which is the second alternative at once, or has one
fate in both lists; if that fate goes on, the induction hypothesis speaks of the rest, and
otherwise both sweeps end at this pair. -/
lemma sweep_inserted (kind : Bool → N → Prop) (differ : Bool → N → N → Prop)
    (h : Inserted P R l l') (hP : ∀ r child, P child → kind r child)
    (hfate : ∀ r c c', R c c' → ¬ kind r c' → ¬ differ r c c' → fate r c' = fate r c)
    (hmeets : ¬ Meets fate kind recorded l') :
    ((sweep fate recorded l').2 = (sweep fate recorded l).2 ∧
      List.Forall₂ (fun c c' => R c c' ∧ ∃ r r', fate r c = .goesOn r' ∧ ¬ kind r c' ∧
        ¬ differ r c c')
        (sweep fate recorded l).1 (sweep fate recorded l').1) ∨
    ∃ front c rest front' c' rest' recorded', l = front ++ c :: rest ∧ l' = front' ++ c' :: rest' ∧
      List.Forall₂ R front front' ∧ (sweep fate recorded front).2 = .goesOn recorded' ∧
      (sweep fate recorded front').2 = .goesOn recorded' ∧ R c c' ∧ ¬ kind recorded' c' ∧
      differ recorded' c c' := by
  induction h generalizing recorded with
  | nil => exact Or.inl ⟨rfl, .nil⟩
  | insert ha h ih => exact absurd (meets_cons.mpr (Or.inl (hP _ _ ha))) hmeets
  | @keep l l' a b hab h ih =>
    rw [meets_cons, not_or] at hmeets
    obtain ⟨hb, hrest⟩ := hmeets
    by_cases hdiffer : differ recorded a b
    · exact Or.inr ⟨[], a, l, [], b, l', recorded, rfl, rfl, .nil, rfl, rfl, hab, hb, hdiffer⟩
    have hsame := hfate recorded a b hab hb hdiffer
    cases hgoes : fate recorded a with
    | goesOn recorded₁ =>
      have hgoes' := hsame.trans hgoes
      have htail : ¬ Meets fate kind recorded₁ l' := fun hm => hrest ⟨recorded₁, hgoes', hm⟩
      rcases ih htail with ⟨hend, hpairs⟩ | ⟨front, c, rest, front', c', rest', recorded', rfl, rfl,
        hfront, hwalk, hwalk', hpair⟩
      · left
        simp only [sweep, hgoes, hgoes']
        exact ⟨hend, .cons ⟨hab, recorded, recorded₁, hgoes, hb, hdiffer⟩ hpairs⟩
      · right
        refine ⟨a :: front, c, rest, b :: front', c', rest', recorded', rfl, rfl, .cons hab hfront,
          ?_, ?_, hpair⟩
        · simp only [sweep, hgoes, hwalk]
        · simp only [sweep, hgoes', hwalk']
    | stops =>
      left
      simp only [sweep, hgoes, hsame.trans hgoes]
      exact ⟨trivial, .nil⟩
    | faults =>
      left
      simp only [sweep, hgoes, hsame.trans hgoes]
      exact ⟨trivial, .nil⟩

end Walks

/-! ## An entry with more text -/

/-- A call for an entry compares a missing name: the one of the root, or of a child that the loop
comes to. -/
def EntryCompares (x : Iksemel N) (lib : TimeLib) (entry : Entry) (err : ErrState) (ik : N) :
    Prop :=
  x.name ik = none ∨ ∃ s, readHead x lib ik ⟨entry, err, []⟩ = .ok s ∧
    ∃ front child rest s', x.children ik = front ++ child :: rest ∧
      front.foldlM (readChild x) s = .ok s' ∧ x.name child = none

/-- **Where the loop of an entry comes to a text node**: nothing in front of the children stops the
parser, nor does a child in front of the text. -/
def EntryMeetsText (x : Iksemel N) (ik : N) : Prop :=
  RightRoot x "entry" ik ∧ ¬ RequiredStops x ik ∧ ¬ ContentStops x ik ∧
    Meets (namedFate x) (fun _ child => x.name child = none) true (x.children ik)

/-- The loop over the children returns exactly where the sweep over their names goes on.

**Proof sketch.** `readChildren_leaves` says what the loop comes to for each of the three fates
of the sweep. -/
lemma readChildren_ok_iff (x : Iksemel N) (children : List N) {s : EntryParse N} {recorded : Bool}
    (hs : s.err.Tells recorded) :
    (∃ s', children.foldlM (readChild x) s = .ok s') ↔
      ∃ recorded', (sweep (namedFate x) recorded children).2 = .goesOn recorded' := by
  have hleaves := readChildren_leaves x children hs
  cases hwalk : (sweep (namedFate x) recorded children).2 with
  | goesOn recorded' =>
    rw [hwalk] at hleaves
    obtain ⟨err, hread, -⟩ := hleaves
    exact iff_of_true ⟨_, hread⟩ ⟨recorded', rfl⟩
  | stops =>
    rw [hwalk] at hleaves
    obtain ⟨err, hread, -⟩ := hleaves
    simp [hread]
  | faults =>
    rw [hwalk] at hleaves
    have hread : children.foldlM (readChild x) s = fault := hleaves
    simp [hread, fault]

/-- An entry comes to a comparison with a missing name exactly where the walk over the tree
meets text.

**Proof sketch.** `readHead_leaves` decides whether the loop is reached at all, and both sides
are false when it is not. When it is, `readChildren_ok_iff` turns "the loop over the children in
front returns" into "the sweep over them goes on", child by child in front of the one met. -/
lemma entryCompares_iff (x : Iksemel N) (lib : TimeLib) (entry : Entry) {err : ErrState} {ik : N}
    (herr : err ≠ .cleared) (hname : x.name ik ≠ none) :
    EntryCompares x lib entry err ik ↔ EntryMeetsText x ik := by
  have hhead := readHead_leaves x lib entry ik herr
  rw [if_neg hname] at hhead
  unfold EntryCompares EntryMeetsText
  by_cases hstops : ¬ RightRoot x "entry" ik ∨ RequiredStops x ik ∨ ContentStops x ik
  · rw [if_pos hstops] at hhead
    obtain ⟨err', hread, -⟩ := hhead
    simp only [hread, hname, reduceCtorEq, false_and, exists_false, or_false, false_iff]
    rintro ⟨hroot, hrequired, hcontent, -⟩
    simp [hroot, hrequired, hcontent] at hstops
  · rw [if_neg hstops] at hhead
    obtain ⟨err', hread, htells⟩ := hhead
    simp only [not_or, not_not] at hstops
    have hloop := fun front => readChildren_ok_iff x front
      (s := ⟨addContent x ik (readFields x lib ik entry), err', entryDeleted x ik⟩) htells
    simp only [hread, hname, false_or, hstops.1, hstops.2.1, hstops.2.2, not_false_eq_true,
      true_and, Except.ok.injEq, exists_eq_left']
    constructor
    · rintro ⟨front, child, rest, s', heq, hfront, hchild⟩
      obtain ⟨recorded', hwalk⟩ := (hloop front).mp ⟨s', hfront⟩
      exact ⟨front, child, rest, recorded', heq, hwalk, hchild⟩
    · rintro ⟨front, child, rest, recorded', heq, hwalk, hchild⟩
      obtain ⟨s', hfront⟩ := (hloop front).mpr ⟨recorded', hwalk⟩
      exact ⟨front, child, rest, s', heq, hfront, hchild⟩

/-- Behind a cleared record the loop is not reached. -/
lemma not_entryCompares_cleared (x : Iksemel N) (lib : TimeLib) (entry : Entry) {ik : N}
    (hname : x.name ik ≠ none) : ¬ EntryCompares x lib entry .cleared ik := by
  rintro (hnone | ⟨s, hread, -⟩)
  · exact hname hnone
  · unfold readHead at hread
    rw [readRequired_cleared x ik rfl] at hread
    rcases readRoot_cleared x ik (s := ⟨entry, .cleared, []⟩) rfl with hroot | hroot
    · rw [hroot] at hread
      cases hread
    · rw [hroot] at hread
      cases hread

section Entry

variable {x : Iksemel N} {ik ik' : N}

/-- Without children there is no id. -/
lemma Iksemel.TextLaws.requiredStops (hx : x.TextLaws) (h : x.children ik = []) :
    RequiredStops x ik := by
  refine Or.inl (hx.findCdata_none _ _ ?_)
  rw [hx.find_eq, h]
  rfl

/-- The root is right in both trees or in neither. -/
lemma TextAround.rightRoot_iff {R : N → N → Prop} (hx : x.TextLaws) (h : TextAround x R ik ik')
    (hchildren : x.children ik ≠ []) (root : String) :
    RightRoot x root ik' ↔ RightRoot x root ik := by
  unfold RightRoot
  rw [h.name, hx.hasChildren_iff, hx.hasChildren_iff]
  exact and_congr_right fun _ => iff_of_true (h.children.ne_nil hchildren) hchildren

/-- The required children stop the call in both trees or in neither. -/
lemma TextAround.requiredStops_iff (hx : x.TextLaws) (h : TextAround x Eq ik ik') :
    RequiredStops x ik' ↔ RequiredStops x ik := by
  unfold RequiredStops
  rw [h.findCdata_of_eq hx, h.findCdata_of_eq hx]

/-- The content stops the call in both trees or in neither. -/
lemma TextAround.contentStops_iff (hx : x.TextLaws) (h : TextAround x Eq ik ik') :
    ContentStops x ik' ↔ ContentStops x ik := by
  unfold ContentStops
  rw [h.find_of_eq hx, h.findCdata_of_eq hx]

/-- The fields read are the same. -/
lemma TextAround.readFields_eq (hx : x.TextLaws) (h : TextAround x Eq ik ik') (lib : TimeLib)
    (entry : Entry) : readFields x lib ik' entry = readFields x lib ik entry := by
  unfold readFields readOptional setRequired
  simp only [h.findCdata_of_eq hx]

/-- The content read is the same. -/
lemma TextAround.addContent_eq (hx : x.TextLaws) (h : TextAround x Eq ik ik') (entry : Entry) :
    addContent x ik' entry = addContent x ik entry := by
  unfold addContent contentOf
  rw [h.find_of_eq hx, h.findCdata_of_eq hx]

/-- The sweep is the same when it meets no text. -/
lemma sweep_eq_of_inserted {l l' : List N}
    (h : Inserted (fun child => x.name child = none) Eq l l')
    (hmeets : ¬ Meets (namedFate x) (fun _ child => x.name child = none) true l') :
    sweep (namedFate x) true l' = sweep (namedFate x) true l := by
  rcases sweep_inserted (fun _ child => x.name child = none) (fun _ _ _ => False) h
    (fun _ _ hchild => hchild) (fun r c c' hc _ _ => by rw [hc]) hmeets with
    ⟨hend, hpairs⟩ | ⟨_, _, _, _, _, _, _, _, _, _, _, _, _, _, hdiffer⟩
  · refine Prod.ext ?_ hend
    have hsame := hpairs.imp fun _ _ hc => hc.1
    rw [List.forall₂_eq_eq_eq] at hsame
    exact hsame.symm
  · exact hdiffer.elim

/-- **An entry with more text**: the call comes to the same, and leaves the same, when it meets no
text.

**Proof sketch.** Every part of the call reads the children by name, so it reads the same; the
one part that walks over all children is the loop, and `sweep_eq_of_inserted` says that a sweep
that meets no text comes to the same. Where the required children stop the call the loop is not
reached. -/
lemma TextAround.entry (hx : x.TextLaws) (h : TextAround x Eq ik ik')
    (hmeets : ¬ EntryMeetsText x ik') :
    entryFate x ik' = entryFate x ik ∧
      ∀ lib entry, entryLeft x lib entry ik' = entryLeft x lib entry ik := by
  unfold entryFate entryLeft
  by_cases hrequired : RequiredStops x ik
  · have hrequired' := (h.requiredStops_iff hx).mpr hrequired
    simp [hrequired, hrequired', h.name]
  · have hrequired' : ¬ RequiredStops x ik' := fun hc => hrequired ((h.requiredStops_iff hx).mp hc)
    have hchildren : x.children ik ≠ [] := fun hc => hrequired (hx.requiredStops hc)
    have hroot := h.rightRoot_iff hx hchildren "entry"
    have hcontent := h.contentStops_iff hx
    simp only [h.name, hroot, hcontent, hrequired, hrequired', h.readFields_eq hx,
      h.addContent_eq hx]
    by_cases hgoes : RightRoot x "entry" ik ∧ ¬ ContentStops x ik
    · have hwalk := sweep_eq_of_inserted h.children fun hm =>
        hmeets ⟨hroot.mpr hgoes.1, hrequired', fun hc => hgoes.2 (hcontent.mp hc), hm⟩
      rw [hwalk]
      exact ⟨rfl, fun _ _ => rfl⟩
    · rw [not_and_or, not_not] at hgoes
      rcases hgoes with hroot | hcontent
      · simp [hroot]
      · simp [hcontent]

/-- The text does not change whether the loop clears the record. -/
lemma childrenClear_iff_of_inserted {l l' : List N}
    (h : Inserted (fun child => x.name child = none) Eq l l') :
    ChildrenClear x l' ↔ ChildrenClear x l := by
  induction h with
  | nil => exact Iff.rfl
  | @insert l l' a ha h ih =>
    have hgoes : childFate x true a = .goesOn true := by simp [childFate, ha]
    rw [childrenClear_cons l' hgoes, ih]
  | @keep l l' a b hab h ih =>
    subst hab
    by_cases hgoes : childFate x true a = .goesOn true
    · rw [childrenClear_cons l' hgoes, childrenClear_cons l hgoes, ih]
    · rw [childrenClear_head l' hgoes, childrenClear_head l hgoes]

/-- The call clears the record in both trees or in neither.

**Proof sketch.** Each condition of `ClearsRecord` is carried over by its own lemma; a required
child shows that there are children at all, which is what `rightRoot_iff` asks for. -/
lemma TextAround.clearsRecord_iff (hx : x.TextLaws) (h : TextAround x Eq ik ik') :
    ClearsRecord x ik' ↔ ClearsRecord x ik := by
  by_cases hrequired : RequiredStops x ik
  · exact iff_of_false (fun hc => hc.required ((h.requiredStops_iff hx).mpr hrequired))
      fun hc => hc.required hrequired
  · have hchildren : x.children ik ≠ [] := fun hc => hrequired (hx.requiredStops hc)
    have hroot := h.rightRoot_iff hx hchildren "entry"
    have hloop := childrenClear_iff_of_inserted h.children
    constructor
    · intro hc
      exact ⟨hroot.mp hc.root, hrequired, fun hs => hc.content ((h.contentStops_iff hx).mpr hs),
        hloop.mp hc.children⟩
    · intro hc
      exact ⟨hroot.mpr hc.root, fun hs => hrequired ((h.requiredStops_iff hx).mp hs),
        fun hs => hc.content ((h.contentStops_iff hx).mp hs), hloop.mpr hc.children⟩

/-- The entry that a feed keeps.

**Proof sketch.** What the call returns and leaves is the same by `TextAround.entry`. Whether
the record is cleared decides if the entry is kept, and the last lemma says that it is cleared
alike. -/
lemma TextAround.keptEntry_eq (hx : x.TextLaws) (h : TextAround x Eq ik ik')
    (hmeets : ¬ EntryMeetsText x ik') (lib : TimeLib) (now : ℤ) :
    keptEntry x lib now ik' = keptEntry x lib now ik := by
  obtain ⟨hfate, hleft⟩ := h.entry hx hmeets
  have hne : ErrState.unset ≠ .cleared := by simp
  have hiff := exists_entrySetFromIks_iff x lib (entryNew none now) ik hne
  have hiff' := exists_entrySetFromIks_iff x lib (entryNew none now) ik' hne
  rw [hfate] at hiff'
  unfold keptEntry
  cases hcall : entrySetFromIks x lib (entryNew none now) .unset ik with
  | none =>
    have hnone : entrySetFromIks x lib (entryNew none now) .unset ik' = none := by
      cases hcall' : entrySetFromIks x lib (entryNew none now) .unset ik' with
      | none => rfl
      | some r =>
        obtain ⟨value, s, hs⟩ := hiff.mpr (hiff'.mp ⟨r.1, r.2, hcall'⟩)
        cases hcall.symm.trans hs
    rw [hnone]
  | some r =>
    obtain ⟨value, s⟩ := r
    obtain ⟨value', s', hcall'⟩ := hiff'.mpr (hiff.mp ⟨value, s, hcall⟩)
    rw [hcall']
    have hclears := (entrySetFromIks_record hne hcall).2.last_eq_none_iff
    have hclears' := (entrySetFromIks_record hne hcall').2.last_eq_none_iff
    rw [h.clearsRecord_iff hx, ← hclears] at hclears'
    simp only [hclears', (entrySetFromIks_left hcall).1, (entrySetFromIks_left hcall').1, hleft]

/-- What the loop meets without the text, it meets with it. -/
lemma TextAround.meetsText (hx : x.TextLaws) (h : TextAround x Eq ik ik')
    (hmeets : EntryMeetsText x ik) : EntryMeetsText x ik' := by
  obtain ⟨hroot, hrequired, hcontent, hloop⟩ := hmeets
  have hchildren : x.children ik ≠ [] := fun hc => hrequired (hx.requiredStops hc)
  refine ⟨(h.rightRoot_iff hx hchildren "entry").mpr hroot,
    fun hc => hrequired ((h.requiredStops_iff hx).mp hc),
    fun hc => hcontent ((h.contentStops_iff hx).mp hc), ?_⟩
  refine meets_of_inserted h.children (fun _ _ hc => hc) ?_ ?_ hloop
  · rintro r c c' rfl hc
    exact hc
  · rintro r r' c c' rfl - hgoes
    exact hgoes

end Entry

/-! ## A feed with more text -/

/-- A call for a feed compares a missing name: the one of the root, of a child that the loop comes
to, or in the call for an entry child that it comes to. -/
def FeedCompares (x : Iksemel N) (lib : TimeLib) (clock : ℕ → ℤ) (feed : Feed) (err : ErrState)
    (ik : N) : Prop :=
  x.name ik = none ∨ ∃ s, readFeedHead x lib ik ⟨feed, err, [], 0⟩ = .ok s ∧
    ∃ front child rest s', x.children ik = front ++ child :: rest ∧
      front.foldlM (readFeedTurn x lib clock) s = .ok s' ∧
      (x.name child = none ∨ x.name child = some "entry".toList ∧
        EntryCompares x lib (entryNew none (clock s'.created)) s'.err child)

/-- A text node, or an entry whose loop comes to one. -/
def ShowsText (x : Iksemel N) (recorded : Bool) (child : N) : Prop :=
  x.name child = none ∨
    recorded = true ∧ x.name child = some "entry".toList ∧ EntryMeetsText x child

/-- **Where the loop of a feed comes to a text node**, or to an entry whose loop does. -/
def FeedMeetsText (x : Iksemel N) (ik : N) : Prop :=
  RightRoot x "feed" ik ∧ ¬ RequiredStops x ik ∧
    Meets (feedChildFate x) (ShowsText x) true (x.children ik)

/-- A feed comes to a comparison with a missing name exactly where the walk over the tree meets
text.

**Proof sketch.** As for an entry, with `readFeedHead_leaves` for the part in front of the loop
and `readFeedTurns_ok` for the children in front of the one met. An entry child is read by the
entry parser with the record as the loop left it, so `entryCompares_iff` applies to it. -/
lemma feedCompares_iff (x : Iksemel N) (lib : TimeLib) (clock : ℕ → ℤ) (feed : Feed)
    {err : ErrState} {ik : N} (herr : err ≠ .cleared) (hname : x.name ik ≠ none) :
    FeedCompares x lib clock feed err ik ↔ FeedMeetsText x ik := by
  have hhead := readFeedHead_leaves x lib feed ik herr
  rw [if_neg hname] at hhead
  unfold FeedCompares FeedMeetsText
  by_cases hstops : ¬ RightRoot x "feed" ik ∨ RequiredStops x ik
  · rw [if_pos hstops] at hhead
    obtain ⟨message, created, hread⟩ := hhead
    simp only [hread, hname, reduceCtorEq, false_and, exists_false, or_false, false_iff]
    rintro ⟨hroot, hrequired, -⟩
    simp [hroot, hrequired] at hstops
  · rw [if_neg hstops] at hhead
    obtain ⟨err', created, hread, htells, hcreated⟩ := hhead
    simp only [not_or, not_not] at hstops
    have hdeleted : feedDeleted x ik = [] := if_pos hstops.1
    simp only [hread, hname, false_or, hstops.1, hstops.2, not_false_eq_true, true_and,
      Except.ok.injEq, exists_eq_left']
    constructor
    · rintro ⟨front, child, rest, s', heq, hfront, hchild⟩
      obtain ⟨recorded', hwalk, htells'⟩ := readFeedTurns_ok htells hcreated hdeleted hfront
      refine ⟨front, child, rest, recorded', heq, hwalk, ?_⟩
      rcases hchild with hchild | ⟨hentry, hcompares⟩
      · exact Or.inl hchild
      · have hchild : x.name child ≠ none := by simp [hentry]
        cases recorded' with
        | true =>
          exact Or.inr ⟨rfl, hentry,
            (entryCompares_iff x lib _ htells'.ne_cleared hchild).mp hcompares⟩
        | false =>
          rw [htells'.eq_cleared] at hcompares
          exact absurd hcompares (not_entryCompares_cleared x lib _ hchild)
    · rintro ⟨front, child, rest, recorded', heq, hwalk, hchild⟩
      have hleaves := readFeedTurns_leaves x lib clock front
        (s := ⟨readFeedFields x lib ik feed, err', feedDeleted x ik, created⟩)
        htells hcreated hdeleted
      rw [hwalk] at hleaves
      obtain ⟨err'', created', hfront, htells', -⟩ := hleaves
      refine ⟨front, child, rest, _, heq, hfront, ?_⟩
      rcases hchild with hchild | ⟨rfl, hentry, hmeets⟩
      · exact Or.inl hchild
      · exact Or.inr ⟨hentry, (entryCompares_iff x lib _ htells'.ne_cleared (by simp [hentry])).mpr
          hmeets⟩

section Feed

variable {x : Iksemel N} {ik ik' : N}

/-- An entry child without children that has children in the other tree. -/
def Fills (x : Iksemel N) (recorded : Bool) (child child' : N) : Prop :=
  recorded = true ∧ x.name child = some "entry".toList ∧ x.children child = [] ∧
    x.children child' ≠ []

/-- Paired children have the same name. -/
lemma FeedChildAround.name_eq {child child' : N} (h : FeedChildAround x child child') :
    x.name child' = x.name child := by
  rcases h with rfl | ⟨-, h⟩
  · rfl
  · exact h.name

/-- A child has the same fate in both trees, unless it shows text or is filled.

**Proof sketch.** Equal children are clear. Of two entry children the one has text around the
children of the other; the fate depends on whether there are children, which is the same unless
the child is filled, and on what the entry parser comes to, which is the same unless it meets
text. -/
lemma FeedChildAround.fate_eq (hx : x.TextLaws) {child child' : N} {recorded : Bool}
    (h : FeedChildAround x child child') (hshows : ¬ ShowsText x recorded child')
    (hfills : ¬ Fills x recorded child child') :
    feedChildFate x recorded child' = feedChildFate x recorded child := by
  rcases h with rfl | ⟨hentry, h⟩
  · rfl
  have hentry' : x.name child' = some "entry".toList := h.name.trans hentry
  rw [feedChildFate_entry hentry, feedChildFate_entry hentry']
  cases recorded with
  | false => simp
  | true =>
    have hmeets : ¬ EntryMeetsText x child' := fun hm => hshows (Or.inr ⟨rfl, hentry', hm⟩)
    have hchildren : x.hasChildren child' = true ↔ x.hasChildren child = true := by
      rw [hx.hasChildren_iff, hx.hasChildren_iff]
      refine ⟨fun hne heq => hfills ⟨rfl, hentry, heq, hne⟩, h.children.ne_nil⟩
    simp only [hchildren, (h.entry hx hmeets).1]

/-- What a child adds to the feed is the same in both trees. -/
lemma FeedChildAround.add_eq (hx : x.TextLaws) {child child' : N} {recorded recorded' : Bool}
    (h : FeedChildAround x child child')
    (hgoes : feedChildFate x recorded child = .goesOn recorded')
    (hshows : ¬ ShowsText x recorded child') (lib : TimeLib) (now : ℤ) (feed : Feed) :
    addFeedChild x lib now feed child' = addFeedChild x lib now feed child := by
  rcases h with rfl | ⟨hentry, h⟩
  · rfl
  have hentry' : x.name child' = some "entry".toList := h.name.trans hentry
  have hrecorded : recorded = true := by
    by_contra hne
    rw [feedChildFate_entry hentry, if_neg fun h => hne h.1] at hgoes
    cases hgoes
  have hmeets : ¬ EntryMeetsText x child' := fun hm => hshows (Or.inr ⟨hrecorded, hentry', hm⟩)
  rw [addFeedChild_entry hentry, addFeedChild_entry hentry', h.keptEntry_eq hx hmeets]

/-- The character data under a name other than that of entries is the same. -/
lemma TextAround.findCdata_feed (hx : x.TextLaws) (h : TextAround x (FeedChildAround x) ik ik')
    {name : Str} (hname : name ≠ "entry".toList) : x.findCdata ik' name = x.findCdata ik name := by
  refine hx.findCdata_congr ik ik' name (h.find hx fun c c' hc => ⟨hc.name_eq, fun hfound => ?_⟩)
  rcases hc with hc | ⟨hentry, -⟩
  · exact hc
  · exact absurd (Option.some.inj (hfound.symm.trans hentry)) hname

/-- The required children of a feed stop the call in both trees or in neither. -/
lemma TextAround.requiredStops_feed (hx : x.TextLaws)
    (h : TextAround x (FeedChildAround x) ik ik') :
    RequiredStops x ik' ↔ RequiredStops x ik := by
  unfold RequiredStops
  rw [h.findCdata_feed hx (by decide), h.findCdata_feed hx (by decide)]

/-- The fields read of a feed are the same. -/
lemma TextAround.readFeedFields_eq (hx : x.TextLaws) (h : TextAround x (FeedChildAround x) ik ik')
    (lib : TimeLib) (feed : Feed) :
    readFeedFields x lib ik' feed = readFeedFields x lib ik feed := by
  unfold readFeedFields readFeedUpdated
  rw [h.findCdata_feed hx (by decide), h.findCdata_feed hx (by decide),
    h.findCdata_feed hx (by decide)]

/-- An empty entry child at the same place of both loops, with text in the second tree. -/
structure FilledAt (x : Iksemel N) (l l' : List N) (front : List N) (child : N) (rest : List N)
    (child' : N) (rest' : List N) : Prop where
  before : l = front ++ child :: rest
  after : l' = front ++ child' :: rest'
  reached : (sweep (feedChildFate x) true front).2 = .goesOn true
  entry : x.name child = some "entry".toList
  empty : x.children child = []
  filled : x.children child' ≠ []
  around : TextAround x Eq child child'

/-- The loop over the children without the text comes to a fault there. -/
lemma FilledAt.faults (hx : x.TextLaws) {l l' front : List N} {child : N} {rest : List N}
    {child' : N} {rest' : List N} (h : FilledAt x l l' front child rest child' rest') :
    (sweep (feedChildFate x) true l).2 = .faults := by
  have hempty : ¬ x.hasChildren child = true := fun hc => (hx.hasChildren_iff child).mp hc h.empty
  rw [h.before, sweep_append h.reached, sweep, feedChildFate_entry h.entry,
    if_neg fun hc => hempty hc.2.1]

/-- Children that are related one by one, and none of them an entry, are the same. -/
lemma eq_of_forall₂ {l l' : List N} (h : List.Forall₂ (FeedChildAround x) l l')
    (hentry : ∀ child ∈ l, x.name child ≠ some "entry".toList) : l' = l := by
  induction h with
  | nil => rfl
  | cons hc _ ih =>
    obtain ⟨hfirst, hrest⟩ := List.forall_mem_cons.mp hentry
    rw [ih hrest]
    rcases hc with rfl | ⟨hname, -⟩
    · rfl
    · exact absurd hname hfirst

/-- A fold over two lists whose members have the same effect. -/
lemma foldl_eq_of_forall₂ {β : Type} {step : β → N → β} {l l' : List N}
    (h : List.Forall₂ (fun c c' => ∀ b, step b c' = step b c) l l') (b : β) :
    l'.foldl step b = l.foldl step b := by
  induction h generalizing b with
  | nil => rfl
  | cons hc _ ih => rw [List.foldl_cons, List.foldl_cons, hc, ih]

/-- **A feed with more text**: when the loop meets no text, it comes to the same and adds the same,
or there is an empty entry child with text.

**Proof sketch.** `sweep_inserted` with `ShowsText` as the kind and `Fills` as the difference.
Without a pair that differs the children swept are paired and add the same. A pair that differs
is an empty entry child with text; the children in front of it hold no entry, since an entry
clears the record and the pair differs behind an error only. -/
lemma sweep_feed_inserted (hx : x.TextLaws) {l l' : List N}
    (h : Inserted (fun child => x.name child = none) (FeedChildAround x) l l')
    (hmeets : ¬ Meets (feedChildFate x) (ShowsText x) true l') :
    ((sweep (feedChildFate x) true l').2 = (sweep (feedChildFate x) true l).2 ∧
      ∀ lib now feed, (sweep (feedChildFate x) true l').1.foldl (addFeedChild x lib now) feed =
        (sweep (feedChildFate x) true l).1.foldl (addFeedChild x lib now) feed) ∨
    ∃ front child rest child' rest', FilledAt x l l' front child rest child' rest' := by
  have hfate : ∀ r c c', FeedChildAround x c c' → ¬ ShowsText x r c' → ¬ Fills x r c c' →
      feedChildFate x r c' = feedChildFate x r c :=
    fun r c c' hc hshows hfills => hc.fate_eq hx hshows hfills
  rcases sweep_inserted (ShowsText x) (Fills x) h (fun _ _ hchild => Or.inl hchild)
      hfate hmeets with
    ⟨hend, hpairs⟩ | ⟨front, c, rest, front', c', rest', r, rfl, rfl, hfront, hwalk, -, hc, -, rfl,
      hentry, hempty, hfilled⟩
  · refine Or.inl ⟨hend, fun lib now feed => foldl_eq_of_forall₂ (hpairs.imp ?_) feed⟩
    rintro c c' ⟨hc, r, r', hgoes, hshows, -⟩ feed
    exact hc.add_eq hx hgoes hshows lib now feed
  · right
    have hnone : ∀ child ∈ front, x.name child ≠ some "entry".toList := by
      intro child hchild hname
      have hcleared := (sweep_feed_goesOn hwalk).mpr ⟨child, hchild, Or.inr hname⟩
      cases hcleared
    have hsame := eq_of_forall₂ hfront hnone
    refine ⟨front, c, rest, c', rest', rfl, by rw [hsame], hwalk, hentry, hempty, hfilled, ?_⟩
    rcases hc with rfl | ⟨-, hc⟩
    · exact absurd hempty hfilled
    · exact hc

/-- A child that goes on goes on with text around its children. -/
lemma FeedChildAround.meets (hx : x.TextLaws) {child child' : N} {recorded recorded' : Bool}
    (h : FeedChildAround x child child') (hshows : ¬ ShowsText x recorded child')
    (hgoes : feedChildFate x recorded child = .goesOn recorded') :
    feedChildFate x recorded child' = .goesOn recorded' := by
  by_cases hfills : Fills x recorded child child'
  · obtain ⟨-, hentry, hempty, -⟩ := hfills
    rw [feedChildFate_entry hentry,
      if_neg fun hc => (hx.hasChildren_iff child).mp hc.2.1 hempty] at hgoes
    cases hgoes
  · rw [h.fate_eq hx hshows hfills, hgoes]

/-- What the loop meets without the text, it meets with it.

**Proof sketch.** The head of the feed is read alike in both trees. What the loop meets in the
first list stays behind the inserted text, and the children in front of it go on in the second
list too, or text is met before. -/
lemma TextAround.feedMeetsText (hx : x.TextLaws) (h : TextAround x (FeedChildAround x) ik ik')
    (hmeets : FeedMeetsText x ik) : FeedMeetsText x ik' := by
  obtain ⟨hroot, hrequired, hloop⟩ := hmeets
  have hchildren : x.children ik ≠ [] := fun hc => hrequired (hx.requiredStops hc)
  refine ⟨(h.rightRoot_iff hx hchildren "feed").mpr hroot,
    fun hc => hrequired ((h.requiredStops_feed hx).mp hc), ?_⟩
  refine meets_of_inserted h.children (fun _ _ hc => Or.inl hc) ?_ ?_ hloop
  · rintro r c c' hc (hnone | ⟨hr, hentry, hmeets⟩)
    · exact Or.inl (hc.name_eq.trans hnone)
    · rcases hc with rfl | ⟨-, hc⟩
      · exact Or.inr ⟨hr, hentry, hmeets⟩
      · exact Or.inr ⟨hr, hc.name.trans hentry, hc.meetsText hx hmeets⟩
  · intro r r' c c' hc hshows hgoes
    exact hc.meets hx hshows hgoes

end Feed

/-! ## Text is harmless -/

/-- The value of a call. -/
def ParseFate.value : ParseFate → Option ℤ
  | .goesOn _ => some 1
  | .stops => some 0
  | .faults => none

/-- The value and the entry that the call leaves, from the fate of the tree.

**Proof sketch.** `entrySetFromIks_outcome` gives the call for each of the three fates. -/
lemma map_entrySetFromIks (x : Iksemel N) (lib : TimeLib) (entry : Entry) {err : ErrState} (ik : N)
    (herr : err ≠ .cleared) :
    (entrySetFromIks x lib entry err ik).map (fun r => (r.1, r.2.entry)) =
      (entryFate x ik).value.map fun value => (value, entryLeft x lib entry ik) := by
  have houtcome := entrySetFromIks_outcome x lib entry ik herr
  cases hfate : entryFate x ik with
  | goesOn recorded =>
    rw [hfate] at houtcome
    obtain ⟨err', -, hcall⟩ := houtcome
    rw [hcall]
    rfl
  | stops =>
    rw [hfate] at houtcome
    obtain ⟨err', -, hcall⟩ := houtcome
    rw [hcall]
    rfl
  | faults =>
    rw [hfate] at houtcome
    have hcall : entrySetFromIks x lib entry err ik = none := houtcome
    rw [hcall]
    rfl

/-- The value and the feed that the call leaves, from the fate of the tree.

**Proof sketch.** `feedSetFromIks_outcome` gives the call for each of the three fates. -/
lemma map_feedSetFromIks (x : Iksemel N) (lib : TimeLib) (clock : ℕ → ℤ) (feed : Feed)
    {err : ErrState} (ik : N) (herr : err ≠ .cleared) :
    (feedSetFromIks x lib clock feed err ik).map (fun r => (r.1, r.2.feed)) =
      (feedFate x ik).value.map fun value => (value, feedLeft x lib (clock 0) feed ik) := by
  have houtcome := feedSetFromIks_outcome x lib clock feed ik herr
  cases hfate : feedFate x ik with
  | goesOn recorded =>
    rw [hfate] at houtcome
    obtain ⟨err', created, -, hcall⟩ := houtcome
    rw [hcall]
    rfl
  | stops =>
    rw [hfate] at houtcome
    obtain ⟨message, created, hcall⟩ := houtcome
    rw [hcall]
    rfl
  | faults =>
    rw [hfate] at houtcome
    have hcall : feedSetFromIks x lib clock feed err ik = none := houtcome
    rw [hcall]
    rfl

/-- **Text is harmless for an entry**: the calls return, with the same value and the same fields,
and no missing name is compared. -/
structure EntryHarmless (x : Iksemel N) (lib : TimeLib) (entry : Entry) (err : ErrState)
    (ik ik' : N) : Prop where
  returns : ∃ value s, entrySetFromIks x lib entry err ik = some (value, s)
  agrees : (entrySetFromIks x lib entry err ik').map (fun r => (r.1, r.2.entry)) =
    (entrySetFromIks x lib entry err ik).map fun r => (r.1, r.2.entry)
  before : ¬ EntryCompares x lib entry err ik
  after : ¬ EntryCompares x lib entry err ik'

/-- **Text is harmless for a feed.** -/
structure FeedHarmless (x : Iksemel N) (lib : TimeLib) (clock : ℕ → ℤ) (feed : Feed)
    (err : ErrState) (ik ik' : N) : Prop where
  returns : ∃ value s, feedSetFromIks x lib clock feed err ik = some (value, s)
  agrees : (feedSetFromIks x lib clock feed err ik').map (fun r => (r.1, r.2.feed)) =
    (feedSetFromIks x lib clock feed err ik).map fun r => (r.1, r.2.feed)
  before : ¬ FeedCompares x lib clock feed err ik
  after : ¬ FeedCompares x lib clock feed err ik'

/-- Nothing in front of the children of the entry stops the parser, and its loop comes to a fault.
-/
def EntryFaults (x : Iksemel N) (ik : N) : Prop :=
  RightRoot x "entry" ik ∧ ¬ RequiredStops x ik ∧ ¬ ContentStops x ik ∧
    MeetsFault (namedFate x) (x.children ik)

/-- Nothing in front of the children of the feed stops the parser, and its loop comes to a fault. -/
def FeedFaults (x : Iksemel N) (ik : N) : Prop :=
  RightRoot x "feed" ik ∧ ¬ RequiredStops x ik ∧ MeetsFault (feedChildFate x) (x.children ik)

/-- **A feed with more text**: the call comes to the same, and leaves the same, when it meets no
text and is no fault without it.

**Proof sketch.** The loop over both lists of children comes to the same, unless it meets an entry
child without children that has text in the second tree. Without the text such a child is deleted
under the loop, which is a fault. -/
lemma TextAround.feed {x : Iksemel N} {ik ik' : N} (hx : x.TextLaws)
    (h : TextAround x (FeedChildAround x) ik ik') (hmeets : ¬ FeedMeetsText x ik')
    (hfaults : feedFate x ik ≠ .faults) :
    feedFate x ik' = feedFate x ik ∧
      ∀ lib now feed, feedLeft x lib now feed ik' = feedLeft x lib now feed ik := by
  unfold feedFate at hfaults ⊢
  unfold feedLeft
  by_cases hrequired : RequiredStops x ik
  · have hrequired' := (h.requiredStops_feed hx).mpr hrequired
    simp [hrequired, hrequired', h.name]
  have hrequired' : ¬ RequiredStops x ik' := fun hc => hrequired ((h.requiredStops_feed hx).mp hc)
  have hchildren : x.children ik ≠ [] := fun hc => hrequired (hx.requiredStops hc)
  have hroot := h.rightRoot_iff hx hchildren "feed"
  by_cases hright : RightRoot x "feed" ik
  swap
  · have hright' : ¬ RightRoot x "feed" ik' := fun hc => hright (hroot.mp hc)
    simp [hright, hright', h.name]
  have hright' := hroot.mpr hright
  have hgoes : ¬ (¬ RightRoot x "feed" ik ∨ RequiredStops x ik) := by simp [hright, hrequired]
  have hgoes' : ¬ (¬ RightRoot x "feed" ik' ∨ RequiredStops x ik') := by simp [hright', hrequired']
  have hname : x.name ik ≠ none := by simp [hright.1]
  have hname' : x.name ik' ≠ none := by simp [hright'.1]
  simp only [if_neg hgoes, if_neg hname] at hfaults
  simp only [if_neg hgoes, if_neg hgoes', if_neg hname, if_neg hname', h.readFeedFields_eq hx]
  rcases sweep_feed_inserted hx h.children fun hm => hmeets ⟨hright', hrequired', hm⟩ with
    ⟨hend, hleft⟩ | ⟨front, child, rest, child', rest', hfilled⟩
  · exact ⟨hend, fun lib now feed => hleft lib now _⟩
  · exact absurd (hfilled.faults hx) hfaults

/-- **When text makes no difference**: exactly when the error record was not cleared before, the
call without the text comes to no fault, and with the text the loop comes to no text node, nor,
for a feed, the loop of an entry child that it comes to.

**Proof sketch.** Behind a cleared record a call is a fault. Otherwise it returns exactly when it
comes to no fault, and compares a missing name exactly when its loop comes to one; and when it comes
to none, the searches by name and the sweeps over the children give the same on both trees. -/
theorem text_harmless_iff {x : Iksemel N} (hx : x.TextLaws) (lib : TimeLib) :
    (∀ (entry : Entry) (err : ErrState) (ik ik' : N), x.name ik ≠ none → TextAround x Eq ik ik' →
      (EntryHarmless x lib entry err ik ik' ↔
        err ≠ .cleared ∧ ¬ EntryFaults x ik ∧ ¬ EntryMeetsText x ik')) ∧
    ∀ (clock : ℕ → ℤ) (feed : Feed) (err : ErrState) (ik ik' : N), x.name ik ≠ none →
      TextAround x (FeedChildAround x) ik ik' →
        (FeedHarmless x lib clock feed err ik ik' ↔
          err ≠ .cleared ∧ ¬ FeedFaults x ik ∧ ¬ FeedMeetsText x ik') := by
  constructor
  · intro entry err ik ik' hname h
    have hname' : x.name ik' ≠ none := by rwa [h.name]
    have hfaults : entryFate x ik = .faults ↔ EntryFaults x ik :=
      (entryFate_faults_iff x ik).trans (or_iff_right hname)
    constructor
    · intro hharmless
      have herr : err ≠ .cleared := by
        rintro rfl
        obtain ⟨value, s, hreturns⟩ := hharmless.returns
        cases (entrySetFromIks_cleared x lib entry ik).symm.trans hreturns
      refine ⟨herr, fun hf => ?_, fun hm => ?_⟩
      · exact (exists_entrySetFromIks_iff x lib entry ik herr).mp hharmless.returns (hfaults.mpr hf)
      · exact hharmless.after ((entryCompares_iff x lib entry herr hname').mpr hm)
    · rintro ⟨herr, hnone, hmeets⟩
      obtain ⟨hfate, hleft⟩ := h.entry hx hmeets
      refine ⟨?_, ?_, ?_, ?_⟩
      · exact (exists_entrySetFromIks_iff x lib entry ik herr).mpr fun hf => hnone (hfaults.mp hf)
      · rw [map_entrySetFromIks x lib entry ik herr, map_entrySetFromIks x lib entry ik' herr,
          hfate, hleft]
      · rw [entryCompares_iff x lib entry herr hname]
        exact fun hc => hmeets (h.meetsText hx hc)
      · rwa [entryCompares_iff x lib entry herr hname']
  · intro clock feed err ik ik' hname h
    have hname' : x.name ik' ≠ none := by rwa [h.name]
    have hfaults : feedFate x ik = .faults ↔ FeedFaults x ik :=
      (feedFate_faults_iff x ik).trans (or_iff_right hname)
    constructor
    · intro hharmless
      have herr : err ≠ .cleared := by
        rintro rfl
        obtain ⟨value, s, hreturns⟩ := hharmless.returns
        cases (feedSetFromIks_cleared x lib clock feed ik).symm.trans hreturns
      refine ⟨herr, fun hf => ?_, fun hm => ?_⟩
      · exact (exists_feedSetFromIks_iff x lib clock feed ik herr).mp hharmless.returns
          (hfaults.mpr hf)
      · exact hharmless.after ((feedCompares_iff x lib clock feed herr hname').mpr hm)
    · rintro ⟨herr, hnone, hmeets⟩
      have hgoes : feedFate x ik ≠ .faults := fun hf => hnone (hfaults.mp hf)
      obtain ⟨hfate, hleft⟩ := h.feed hx hmeets hgoes
      refine ⟨?_, ?_, ?_, ?_⟩
      · exact (exists_feedSetFromIks_iff x lib clock feed ik herr).mpr hgoes
      · rw [map_feedSetFromIks x lib clock feed ik herr,
          map_feedSetFromIks x lib clock feed ik' herr, hfate, hleft]
      · rw [feedCompares_iff x lib clock feed herr hname]
        exact fun hc => hmeets (h.feedMeetsText hx hc)
      · rwa [feedCompares_iff x lib clock feed herr hname']

/-- The trees of the witnesses obey the laws on text. -/
lemma xmlNodes_textLaws : xmlNodes.TextLaws where
  hasChildren_iff n := by simp [xmlNodes]
  find_eq _ _ := rfl
  findCdata_congr n n' name h := by
    show (xmlNodes.find n' name).bind _ = (xmlNodes.find n name).bind _
    rw [h]
  findCdata_none n name h := by
    show (xmlNodes.find n name).bind _ = none
    rw [h]
    rfl

/-- An entry element, with and without a line end in front of its children. -/
def plainEntry (children : List XmlNode) : XmlNode := .tag "entry".toList [] children

def printedEntry (children : List XmlNode) : XmlNode :=
  .tag "entry".toList [] (.cdata ['\n'] :: children)

/-- The printed entry has a line break in front of the children of the plain one. -/
lemma textAround_printedEntry (children : List XmlNode) :
    TextAround xmlNodes Eq (plainEntry children) (printedEntry children) :=
  ⟨rfl, fun _ => rfl, .insert rfl (.refl (fun _ => rfl) children)⟩

/-- Text in an entry without an id, at which the parser stops before the loop. -/
theorem text_harmless_noId :
    EntryHarmless xmlNodes epochLib (entryNew none 0) .unset (plainEntry [.leaf "title" "Olha"])
      (printedEntry [.leaf "title" "Olha"]) := by
  refine ((text_harmless_iff xmlNodes_textLaws epochLib).1 _ _ (plainEntry [.leaf "title" "Olha"]) _
    (by simp [xmlNodes, XmlNode.name, plainEntry]) (textAround_printedEntry _)).mpr
    ⟨nofun, fun hfaults => ?_, fun hmeets => ?_⟩
  · exact hfaults.2.1 (Or.inl rfl)
  · exact hmeets.2.1 (Or.inl rfl)

/-- Text in an entry that is read without it. -/
theorem text_harmful_entry :
    TextAround xmlNodes Eq (plainEntry [.leaf "id" "1a", .leaf "title" "Olha"])
        (printedEntry [.leaf "id" "1a", .leaf "title" "Olha"]) ∧
      ¬ EntryHarmless xmlNodes epochLib (entryNew none 0) .unset
        (plainEntry [.leaf "id" "1a", .leaf "title" "Olha"])
        (printedEntry [.leaf "id" "1a", .leaf "title" "Olha"]) := by
  refine ⟨textAround_printedEntry _, fun hharmless => ?_⟩
  exact absurd hharmless.agrees (by decide)

end Taningia
