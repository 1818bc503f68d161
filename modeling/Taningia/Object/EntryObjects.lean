import Taningia.Object.EntryParser

set_option relaxedAutoImplicit false
set_option autoImplicit false

/-!
# What becomes of the objects of the entry parser

Each part of `ta_atom_entry_set_from_iks` creates objects, stores them or lets them go. Behind the
id the parts keep all objects in order, so their calls succeed, and the parser goes on having a
reference to each object that it does not let go of itself.

## Main definitions

* `Taningia.Refs.Has`, `Taningia.Refs.New` — an object that the parser has, and a new one.
* `Taningia.Refs.Tracked` — what every part of the parser keeps.

## Main results

* `Taningia.Refs.Has.step` — what the parser has stays until it lets go of it.
* `Taningia.Refs.losesWhole_letOne`, `Taningia.Refs.losesWhole_content` — what can be let go.
* `Taningia.Refs.newIriFrom_accepts`, `Taningia.Refs.newIriFrom_rejects` — a new IRI with its text.
-/

namespace Taningia.Refs

open RefCount

/-! ## Kinds stay -/

section Kinds

variable {h h' : AtomMemory} {p a : ℕ} {o : AtomObj}

/-- The objects in memory were there before, of the same kinds. -/
def KindsKept (h h' : AtomMemory) : Prop :=
  ∀ a o', h'.obj a = some o' → ∃ o, h.obj a = some o ∧ o.kind = o'.kind

/-- Where nothing is done, every kind is kept. -/
lemma KindsKept.refl (h : AtomMemory) : KindsKept h h := fun _ o ho => ⟨o, ho, rfl⟩

/-- Kinds are kept by two steps when each keeps them. -/
lemma KindsKept.trans {h'' : AtomMemory} (hk : KindsKept h h') (hk' : KindsKept h' h'') :
    KindsKept h h'' := by
  intro a o ho
  obtain ⟨o', ho', hkind'⟩ := hk' a o ho
  obtain ⟨o'', ho'', hkind''⟩ := hk a o' ho'
  exact ⟨o'', ho'', hkind''.trans hkind'⟩

/-- Kinds are kept where the objects left are the old ones. -/
lemma kindsKept_of_keeps (hk : h.Keeps h') : KindsKept h h' := fun a o ho => ⟨o, hk a o ho, rfl⟩

/-- A reference changes no kind. -/
lemma kindsKept_objectRef (href : objectRef h a = some h') : KindsKept h h' := by
  intro b o ho
  rw [obj_of_ref href] at ho
  exact ⟨o, ho, rfl⟩

/-- A write that keeps the kind of the object written keeps every kind. -/
lemma kindsKept_write {f : AtomObj → AtomObj} (hf : ∀ o, (f o).kind = o.kind)
    (hwrite : h.write p f = some h') : KindsKept h h' := by
  obtain ⟨o, ho, rfl⟩ := Option.map_eq_some_iff.mp hwrite
  intro b ob hb
  by_cases hbp : b = p
  · subst hbp
    rw [h.obj_setObj_self b _ (by simp [ho])] at hb
    obtain rfl := Option.some.inj hb
    exact ⟨o, ho, (hf o).symm⟩
  · rw [h.obj_setObj_of_ne p _ hbp] at hb
    exact ⟨ob, hb, rfl⟩

/-- Letting go of what a field has leaves the objects that stay as they were. -/
lemma keeps_unrefField {field : Option ℕ} (hunref : unrefField h field = some h') : h.Keeps h' := by
  cases field with
  | none =>
    obtain rfl := Option.some.inj hunref
    exact fun a o ho => ho
  | some a => exact keeps_unref hunref

/-- When a field is assigned, the objects behind it were there before, but for the field.

**Proof sketch.** The call is followed through its three parts: the old object is released,
which keeps what is left (`keeps_unrefField`); the new one is referenced, which changes no
object; the field is written, which changes the object at `p` only. -/
lemma obj_of_setField {f : RefSlot} {b : ℕ} {o' : AtomObj} (hset : setField f h p a = some h')
    (ho' : h'.obj b = some o') :
    h.obj b = some o' ∨ b = p ∧ ∃ o, h.obj p = some o ∧ o' = f.set o (some a) := by
  obtain ⟨old, -, hset⟩ := Option.bind_eq_some_iff.mp hset
  obtain ⟨h₁, hunref, hset⟩ := Option.bind_eq_some_iff.mp hset
  obtain ⟨h₂, href, hwrite⟩ := Option.bind_eq_some_iff.mp hset
  obtain ⟨o₂, ho₂, rfl⟩ := Option.map_eq_some_iff.mp hwrite
  by_cases hbp : b = p
  · subst hbp
    rw [h₂.obj_setObj_self b _ (by simp [ho₂]), Option.some.injEq] at ho'
    rw [obj_of_ref href] at ho₂
    exact Or.inr ⟨rfl, o₂, keeps_unrefField hunref b o₂ ho₂, ho'.symm⟩
  · rw [h₂.obj_setObj_of_ne p _ hbp, obj_of_ref href] at ho'
    exact Or.inl (keeps_unrefField hunref b o' ho')

/-- An assigned field keeps every kind. -/
lemma kindsKept_setField {f : RefSlot} (hset : setField f h p a = some h') : KindsKept h h' := by
  intro b o' ho'
  rcases obj_of_setField hset ho' with ho | ⟨rfl, o, ho, rfl⟩
  · exact ⟨o', ho, rfl⟩
  · exact ⟨o, ho, (f.kind_set o _).symm⟩

/-- A cleared field keeps every kind. -/
lemma kindsKept_clearField {f : RefSlot} (hclear : clearField f h p = some h') :
    KindsKept h h' := by
  obtain ⟨old, -, hclear⟩ := Option.bind_eq_some_iff.mp hclear
  obtain ⟨h₁, hunref, hwrite⟩ := Option.bind_eq_some_iff.mp hclear
  exact (kindsKept_of_keeps (keeps_unrefField hunref)).trans
    (kindsKept_write (fun o => f.kind_set o _) hwrite)

/-- A list to which something is added keeps every kind. -/
lemma kindsKept_appendTo {f : ListSlot} (hadd : appendTo f h p a = some h') : KindsKept h h' := by
  obtain ⟨h₁, href, hadd⟩ := Option.bind_eq_some_iff.mp hadd
  obtain ⟨list, -, hadd⟩ := Option.bind_eq_some_iff.mp hadd
  obtain ⟨data, -, hwrite⟩ := Option.bind_eq_some_iff.mp hadd
  exact (kindsKept_objectRef href).trans (kindsKept_write (fun o => f.kind_set o _) hwrite)

/-- Replacing the text of a content keeps its kind. -/
lemma kind_setText (text : TextPtr) (o : AtomObj) : (setText text o).kind = o.kind := by
  cases o <;> rfl

/-- A string setter keeps every kind. -/
lemma kindsKept_setString (hset : setString h p = some h') : KindsKept h h' := by
  obtain ⟨o, -, hset⟩ := Option.bind_eq_some_iff.mp hset
  cases o with
  | simpleElement strings =>
    obtain ⟨u, -, hset⟩ := Option.bind_eq_some_iff.mp hset
    obtain rfl := Option.some.inj hset
    exact KindsKept.refl h
  | _ =>
    obtain rfl := Option.some.inj hset
    exact KindsKept.refl h

/-- The end of `contentSetSrc`. -/
lemma kindsKept_storeSrc {h₁ : AtomMemory}
    (hset : (objectRef h₁ a).bind (fun h => h.write p fun o => contentSrc.set o (some a)) =
      some h') :
    KindsKept h₁ h' := by
  obtain ⟨h₂, href, hwrite⟩ := Option.bind_eq_some_iff.mp hset
  exact (kindsKept_objectRef href).trans (kindsKept_write (fun o => contentSrc.kind_set o _) hwrite)

/-- `ta_atom_content_set_src` keeps every kind. -/
lemma kindsKept_contentSetSrc (hset : contentSetSrc h p a = some h') : KindsKept h h' := by
  obtain ⟨o, -, hset⟩ := Option.bind_eq_some_iff.mp hset
  cases o with
  | content text src =>
    cases src with
    | none => exact kindsKept_storeSrc hset
    | some old =>
      obtain ⟨h₁, hunref, hset⟩ := Option.bind_eq_some_iff.mp hset
      obtain ⟨u, -, hset⟩ := Option.bind_eq_some_iff.mp hset
      obtain ⟨h₂, hwrite, hset⟩ := Option.bind_eq_some_iff.mp hset
      exact ((kindsKept_of_keeps (keeps_unref hunref)).trans
        (kindsKept_write (kind_setText _) hwrite)).trans (kindsKept_storeSrc hset)
  | _ => cases hset

/-- The end of `contentSetContent`. -/
lemma kindsKept_storeText {h₁ : AtomMemory} {new : Bool}
    (hset : (if new then h₁.write p (setText .owned) else some h₁) = some h') :
    KindsKept h₁ h' := by
  cases new with
  | true => exact kindsKept_write (kind_setText _) hset
  | false =>
    obtain rfl := Option.some.inj hset
    exact KindsKept.refl h₁

/-- `ta_atom_content_set_content` keeps every kind.

**Proof sketch.** Each branch is a chain of writes to the one content and, with a new text, the
release of its source; every link of the chain keeps the kinds. -/
lemma kindsKept_contentSetContent {text : Bool} {len : ℕ}
    (hset : contentSetContent h p text len = some h') : KindsKept h h' := by
  obtain ⟨o, -, hset⟩ := Option.bind_eq_some_iff.mp hset
  cases o with
  | content old src =>
    cases old with
    | null => exact kindsKept_storeText hset
    | owned | freed =>
      obtain ⟨u, -, hset⟩ := Option.bind_eq_some_iff.mp hset
      obtain ⟨h₁, hwrite, hset⟩ := Option.bind_eq_some_iff.mp hset
      have hfirst := kindsKept_write (kind_setText .freed) hwrite
      cases text with
      | true =>
        obtain ⟨h₂, hclear, hset⟩ := Option.bind_eq_some_iff.mp hset
        exact (hfirst.trans (kindsKept_clearField hclear)).trans (kindsKept_storeText hset)
      | false =>
        obtain rfl := Option.some.inj hset
        exact hfirst
  | _ => cases hset

end Kinds

/-! ## Objects of the parser -/

/-- The parser has a reference to an object of the kind. -/
structure Has (w : World) (a : ℕ) (k : Kind) : Prop where
  kind : IsKind w.heap a k
  held : 0 < w.held a

/-- The calls that the parser makes. -/
def ParserCall : Call → Prop
  | .iriNew | .contentNew | .inReplyToNew _ | .personNew _ | .categoryNew _ | .set .. |
    .contentSetSrc .. | .contentSetContent .. | .setString _ | .add .. | .objectUnref _ => True
  | _ => False

/-- Adding references takes none away. -/
lemma le_addRefs (held : ℕ → ℕ) (l : List ℕ) (a : ℕ) : held a ≤ addRefs held l a :=
  Nat.le_add_right _ _

/-- A constructor keeps what the parser has. -/
lemma Has.create {w : World} {a : ℕ} {k : Kind} (ha : Has w a k) (hlt : a < w.size) (o : AtomObj) :
    Has (w.create o) a k :=
  ⟨isKind_create ha.kind hlt o, ha.held.trans_le (le_addRefs _ _ a)⟩

/-- What the parser has stays when another object is made from a field. -/
lemma Has.createWith {w w' : World} {a : ℕ} {k : Kind} (ha : Has w a k) (hlt : a < w.size)
    {field : Option ℕ} {o : AtomObj}
    (hnew : w.createWith (refOptional w.heap field) o = some w') : Has w' a k := by
  obtain ⟨h, href, rfl⟩ := Option.map_eq_some_iff.mp hnew
  have hobj : h.obj = w.heap.obj := by
    cases field with
    | none =>
      obtain rfl := Option.some.inj href
      rfl
    | some b => exact obj_of_ref href
  have ha' : Has { w with heap := h } a k := ⟨by rw [IsKind, hobj]; exact ha.kind, ha.held⟩
  exact ha'.create hlt o

/-- A call on one object keeps what the parser has. -/
lemma Has.after {w w' : World} {a : ℕ} {k : Kind} (ha : Has w a k) {r : Option AtomMemory}
    (hr : w.after r = some w') (hkinds : ∀ h', r = some h' → KindsKept w.heap h')
    (hok' : InOrder w'.heap w'.size w'.held) : Has w' a k := by
  obtain ⟨h', hcall, rfl⟩ := Option.map_eq_some_iff.mp hr
  refine ⟨?_, ha.held⟩
  obtain ⟨o', ho'⟩ := Option.ne_none_iff_exists'.mp (hok'.refCounts.held a ha.held)
  obtain ⟨o, ho, hkind⟩ := hkinds h' hcall a o' ho'
  have hk := ha.kind
  rw [← kind_of_isKind ho hk, hkind]
  exact isKind_of_obj ho'

/-- **What the parser has** stays until it lets go of it.

**Proof sketch.** One case per call of the parser. A constructor puts a new object behind the
old ones (`Has.create`, `Has.createWith`); a setter or a list call keeps the kinds of what is
left, so `Has.after` applies; letting go of another object leaves the reference held to this
one. -/
lemma Has.step {w w' : World} {c : Call} {a : ℕ} {k : Kind} (ha : Has w a k)
    (hok : InOrder w.heap w.size w.held) (hparser : ParserCall c) (hstep : step w c = some w')
    (hok' : InOrder w'.heap w'.size w'.held) (hne : c ≠ .objectUnref a) : Has w' a k := by
  have hlt := hok.lt_size ha.kind
  cases c with
  | iriNew | contentNew =>
    obtain rfl := Option.some.inj hstep
    exact ha.create hlt _
  | inReplyToNew ref =>
    have hnew : w.createWith (refOptional w.heap (some ref)) (.inReplyTo (some ref) none none) =
        some w' := hstep
    exact ha.createWith hlt hnew
  | personNew iri | categoryNew iri => exact ha.createWith hlt hstep
  | set f p b =>
    refine ha.after hstep (fun h' hcall => ?_) hok'
    rw [f.call_eq] at hcall
    exact kindsKept_setField hcall
  | contentSetSrc p b => exact ha.after hstep (fun h' => kindsKept_contentSetSrc) hok'
  | contentSetContent p text len =>
    exact ha.after hstep (fun h' => kindsKept_contentSetContent) hok'
  | setString p => exact ha.after hstep (fun h' => kindsKept_setString) hok'
  | add f p b =>
    refine ha.after hstep (fun h' hcall => ?_) hok'
    rw [f.call_eq] at hcall
    exact kindsKept_appendTo hcall
  | objectUnref b =>
    have hba : b ≠ a := fun h => hne (h ▸ rfl)
    obtain ⟨h', hunref, rfl⟩ := Option.map_eq_some_iff.mp hstep
    have hheld : 0 < letOne w.held b a := by
      unfold letOne
      rw [Function.update_of_ne (Ne.symm hba)]
      exact ha.held
    have hafter : Has { w with held := letOne w.held b } a k := ⟨ha.kind, hheld⟩
    refine hafter.after (r := some h') rfl (fun h'' heq => ?_) hok'
    obtain rfl := Option.some.inj heq
    exact kindsKept_of_keeps (keeps_unref hunref)
  | simpleElementNew | linkNew | entryNew | feedNew | categorySetScheme | del | entryDelSee |
    entryDelInreplyto | objectRef => exact hparser.elim

/-- A new object of the parser: its only reference is the parser's. -/
structure New (w : World) (a : ℕ) (k : Kind) : Prop extends Has w a k where
  count : w.heap.count a = some 1

section New

variable {w : World} {a p : ℕ} {k : Kind} {o : AtomObj}

/-- A new object is held once and counted once. -/
lemma new_create (w : World) (o : AtomObj) : New (w.create o) w.size o.kind where
  kind := by
    rw [IsKind, obj_create_self]
    rfl
  held := by
    show 0 < addRefs w.held [w.size] w.size
    unfold addRefs
    rw [List.count_singleton_self]
    omega
  count := count_create_self w o

/-- Behind another new object a new object is new. -/
lemma New.create (hn : New w a k) (hlt : a < w.size) (o : AtomObj) : New (w.create o) a k where
  toHas := hn.toHas.create hlt o
  count := by
    rw [count_create_of_ne hlt.ne]
    exact hn.count

/-- A new object has room for further references. -/
lemma New.hasRoom (hn : New w a k) : HasRoom w.heap a := by
  intro c hc
  obtain rfl := Option.some.inj (hn.count.symm.trans hc)
  decide

/-- A new object is not stored.

**Proof sketch.** Its count is one and its reference is held by the parser, so the sum of what
is stored of it is zero; an object that stored it would add one to the sum. -/
lemma New.not_stored (hn : New w a k) (hok : InOrder w.heap w.size w.held)
    (ho : w.heap.obj p = some o) : a ∉ o.stores := by
  intro hmem
  have halive := hok.refCounts.held a hn.held
  have hcount := hok.refCounts.count a halive
  rw [hn.count, Option.some.injEq] at hcount
  have hle : ((w.heap.obj p).map fun o => o.stores.count a).getD 0 ≤
      ∑ q ∈ w.heap.live w.size, ((w.heap.obj q).map fun o => o.stores.count a).getD 0 :=
    Finset.single_le_sum (f := fun q => ((w.heap.obj q).map fun o => o.stores.count a).getD 0)
      (fun _ _ => Nat.zero_le _) (hok.accounted.mem_of_obj ho)
  have hpos := List.count_pos_iff.mpr hmem
  have hheld := hn.held
  rw [ho, Option.map_some, Option.getD_some] at hle
  unfold World.references at hcount
  omega

/-- A new object can be stored. -/
lemma New.canSet (hn : New w a k) (hok : InOrder w.heap w.size w.held) (f : RefSlot)
    (hloses : f.item ≠ .iri → ∀ o, w.heap.obj p = some o →
      LosesWhole (w.heap.setObj p (f.set o none)) w.held) : CanSet f w.heap w.held p a := by
  intro o ho
  rw [if_neg]
  · exact ⟨hn.hasRoom, fun hiri => hloses hiri o ho⟩
  · intro hget
    refine hn.not_stored hok ho (mem_stores_iff.mpr ⟨f.item, ?_⟩)
    exact f.slot_get o (some a) a hget (by simp)

end New

/-! ## Objects that are let go -/

/-- An object that is freed whole and stores IRIs only. -/
structure Plain (o : AtomObj) : Prop where
  whole : o.FreedWhole
  iris : ∀ x ∈ o.slots, x.1 = .iri

section LetGo

variable {h : AtomMemory} {n a p : ℕ} {held : ℕ → ℕ}

/-- From plain objects only they themselves and IRIs are reached, which are freed whole.

**Proof sketch.** Induction on the way the object is reached. A plain object stores IRIs only,
and what it stores under a slot for IRIs is an IRI by the types of the heap; an IRI stores
nothing. -/
lemma freedWhole_of_reaches (ht : Typed h) {l : List ℕ}
    (hl : ∀ a ∈ l, ∃ o, h.obj a = some o ∧ Plain o) {b : ℕ}
    (hr : Reaches atomLayout h (fun b => l.count b) b) : ∀ o, h.obj b = some o → Plain o := by
  induction hr with
  | held hheld =>
    intro o ho
    obtain ⟨o', ho', hplain⟩ := hl _ (List.count_pos_iff.mp hheld)
    rw [ho] at ho'
    obtain rfl := Option.some.inj ho'
    exact hplain
  | @stored q b hreach hstored ih =>
    intro o ho
    cases hq : h.obj q with
    | none => simp [stored, hq] at hstored
    | some oq =>
      rw [stored_of_obj hq] at hstored
      obtain ⟨k, hk⟩ := mem_stores_iff.mp (List.count_pos_iff.mp hstored)
      obtain rfl : k = .iri := (ih oq hq).iris _ hk
      obtain ⟨o', ho', hkind⟩ := (ht q oq hq _ hk).exists_obj
      rw [ho] at ho'
      obtain rfl := Option.some.inj ho'
      cases o with
      | iri => exact ⟨trivial, fun x hx => absurd hx List.not_mem_nil⟩
      | _ => cases hkind

/-- A reference to a plain object can be let go. -/
lemma losesWhole_letOne (hok : InOrder h n held) (ha : 0 < held a) {o : AtomObj}
    (ho : h.obj a = some o) (hplain : Plain o) : LosesWhole h (letOne held a) := by
  intro b ob hob hlost
  have hreach := hok.accounted.balanced.reaches (hok.accounted.mem_of_obj hob)
  rw [← addRefs_letOne ha] at hreach
  rcases hreach.or with hreach | hreach
  · exact absurd hreach hlost
  · refine (freedWhole_of_reaches hok.typed (fun c hc => ?_) hreach ob hob).whole
    obtain rfl := List.mem_singleton.mp hc
    exact ⟨o, ho, hplain⟩

/-- The content of an entry can be replaced, unless its text was released.

**Proof sketch.** Without its content the entry still balances, with the content under way. An
object that is not reached from what is held is reached from the content, which is plain unless
its text was released; what is reached from plain objects is freed whole. -/
lemma losesWhole_content (hok : InOrder h n held) {e : EntryObj} (ho : h.obj p = some (.entry e))
    (htext : ∀ c src, e.content = some c → h.obj c ≠ some (.content .freed src)) :
    LosesWhole (h.setObj p (entryContent.set (.entry e) none)) held := by
  intro b ob hob hlost
  have hstores := entryContent.stores_set (o := .entry e) (v := e.content) (w := none) rfl rfl
  have hbal := hok.accounted.unstore ho hstores (entryContent.rank_set _ none)
  have hmem : b ∈ h.live n := by
    rw [hok.accounted.mem_live]
    intro hnone
    rw [Memory.obj_eq_none_iff.mpr (Memory.cells_setObj_eq_none.mpr hnone)] at hob
    cases hob
  rcases (hbal.reaches hmem).or with hreach | hreach
  · exact absurd hreach hlost
  · have htyped : Typed (h.setObj p (entryContent.set (.entry e) none)) :=
      hok.typed.set entryContent (v := e.content) ho rfl (fun c hc => by simp at hc)
        (entryContent.kind_set _ none) rfl
    refine (freedWhole_of_reaches htyped (fun c hc => ?_) hreach ob hob).whole
    have hcontent : e.content = some c := Option.mem_toList.mp hc
    obtain ⟨oc, hoc, hkind⟩ :=
      (hok.typed p _ ho _ (entryContent.slot_get (.entry e) e.content c rfl hc)).exists_obj
    have hcp : c ≠ p := by
      rintro rfl
      rw [ho] at hoc
      obtain rfl := Option.some.inj hoc
      cases hkind
    refine ⟨oc, by rw [h.obj_setObj_of_ne p _ hcp, hoc], ?_⟩
    cases oc with
    | content text src =>
      refine ⟨fun hfreed => htext c src hcontent (hfreed ▸ hoc), fun x hx => ?_⟩
      exact (Kind.mem_ofAll.mp hx).2
    | _ => cases hkind

end LetGo

/-! ## What every part keeps -/

/-- **What every part of the parser keeps**, once it has the IRI of the id: all is in order, and
there are references to the entry and to the IRI. -/
structure Tracked (p eid : ℕ) (w : World) : Prop where
  inOrder : InOrder w.heap w.size w.held
  entry : Has w p .entry
  id : Has w eid .iri

section Calls

variable {p eid a : ℕ} {w : World} {s : RefParse} {k : Kind}

/-- A call in order and with care runs, and the entry and its identifier stay. -/
lemma Tracked.step (hk : Tracked p eid w) {c : Call} (hparser : ParserCall c) (hlegal : Legal w c)
    (hcare : Careful w c) (hp : c ≠ .objectUnref p) (heid : c ≠ .objectUnref eid) :
    ∃ w', Refs.step w c = some w' ∧ Tracked p eid w' := by
  obtain ⟨w', hstep, hok'⟩ := step_inOrder hk.inOrder hlegal hcare
  exact ⟨w', hstep, hok', hk.entry.step hk.inOrder hparser hstep hok' hp,
    hk.id.step hk.inOrder hparser hstep hok' heid⟩

/-- The entry and its identifier stay when an object without fields is made. -/
lemma Tracked.create (hk : Tracked p eid w) {o : AtomObj} (hslots : o.slots = []) :
    Tracked p eid (w.create o) where
  inOrder := hk.inOrder.createBare hslots
  entry := hk.entry.create (hk.inOrder.lt_size hk.entry.kind) o
  id := hk.id.create (hk.inOrder.lt_size hk.id.kind) o

/-- A reference of the parser's to a plain object, neither the entry nor the id, is let go. -/
lemma Tracked.unref (hk : Tracked p eid w) (ha : Has w a k) (hentry : a ≠ p) (hid : a ≠ eid)
    {o : AtomObj} (ho : w.heap.obj a = some o) (hplain : Plain o) :
    ∃ w', Refs.step w (.objectUnref a) = some w' ∧ Tracked p eid w' :=
  hk.step trivial ha.held (losesWhole_letOne hk.inOrder ha.held ho hplain)
    (by simpa using hentry) (by simpa using hid)

/-- A call that runs is part of the parser's run. -/
lemma RefParse.call_eq {c : Call} {w : World} (hstep : Refs.step s.world c = some w) :
    s.call c = .ok ⟨w, s.err⟩ := by
  unfold RefParse.call
  rw [hstep]

/-- A text of an object that is no simple element. -/
lemma step_setString {o : AtomObj} (ho : w.heap.obj a = some o) (hkind : o.kind ≠ .simpleElement) :
    Refs.step w (.setString a) = some w := by
  have hset : setString w.heap a = some w.heap := by
    refine setString_eq (by simp [ho]) fun hfreed => hkind ?_
    obtain rfl := Option.some.inj (ho.symm.trans hfreed)
    rfl
  show w.after (setString w.heap a) = some w
  rw [hset]
  rfl

/-! ## The helpers -/

/-- An error is noted where the record was not cleared. -/
lemma errorCall_ne_cleared (hs : s.err ≠ .cleared) (errcode : ℤ) (args : List ErrorArg) :
    s.errorCall (.set errcode args) =
      .ok ⟨s.world, .shown ⟨errcode, formatArgs s.err.last args⟩⟩ := by
  unfold RefParse.errorCall
  cases h : s.err with
  | unset => rfl
  | shown error => rfl
  | cleared => exact absurd h hs

/-- Noting an error in a cleared record faults. -/
lemma errorCall_of_cleared (hs : s.err = .cleared) (errcode : ℤ) (args : List ErrorArg) :
    s.errorCall (.set errcode args) = .error .fault := by
  unfold RefParse.errorCall
  rw [hs]
  rfl

/-- References are let go one after the other. -/
lemma calls_eq {objects : List ℕ} {w w' : World} {err : ErrState}
    (hsteps : objects.foldlM (fun w a => Refs.step w (.objectUnref a)) w = some w') :
    objects.foldlM (fun s a => RefParse.call s (.objectUnref a)) ⟨w, err⟩ =
      (.ok ⟨w', err⟩ : RefFlow RefParse) := by
  induction objects generalizing w with
  | nil =>
    obtain rfl := Option.some.inj hsteps
    rfl
  | cons a objects ih =>
    rw [List.foldlM_cons] at hsteps ⊢
    obtain ⟨w₁, hstep, hsteps⟩ := Option.bind_eq_some_iff.mp hsteps
    rw [RefParse.call_eq (s := ⟨w, err⟩) hstep]
    exact ih hsteps

/-- A way out sets an error and lets go of the objects. -/
lemma refuse_eq {S : Type} {w w' : World} {err : ErrState} (herr : err ≠ .cleared)
    (message : String) (objects : List ℕ)
    (hsteps : objects.foldlM (fun w a => Refs.step w (.objectUnref a)) w = some w') :
    ∃ error, refuse (S := S) ⟨w, err⟩ message objects =
      .error (.returns 0 ⟨w', .shown error⟩) := by
  unfold refuse
  rw [errorCall_ne_cleared (s := ⟨w, err⟩) herr]
  show ∃ error, (objects.foldlM (fun s a => RefParse.call s (.objectUnref a)) ⟨w, .shown _⟩ >>=
    fun s => (.error (.returns 0 s) : RefFlow S)) = _
  rw [calls_eq hsteps]
  exact ⟨_, rfl⟩

/-- Refusing a child faults where the record was cleared. -/
lemma refuse_cleared {S : Type} (hs : s.err = .cleared) (message : String) (objects : List ℕ) :
    refuse (S := S) s message objects = .error .fault := by
  unfold refuse
  rw [errorCall_of_cleared hs]
  rfl

/-- Reporting the last error notes it and clears the record. -/
lemma reportLast_eq {error : ErrorT} (hs : s.err = .shown error) (what : String) :
    s.reportLast what = .ok ⟨s.world, .cleared⟩ := by
  unfold RefParse.reportLast
  simp only [hs, ErrState.last]
  rw [errorCall_ne_cleared (by simp [hs])]
  rfl

/-- Reporting the last error faults where the record was cleared. -/
lemma reportLast_of_cleared (hs : s.err = .cleared) (what : String) :
    s.reportLast what = .error .fault := by
  unfold RefParse.reportLast
  simp only [hs, ErrState.last]

/-- `ta_iri_set_from_string` on an IRI. -/
lemma setIri_eq (text : Str) {iri : ℕ} (hiri : s.world.heap.obj iri = some .iri) :
    setIri text iri s =
      (if (iriSetFromString Taningia.iriNew text s.err.last).status = taOk then
          .ok ((iriSetFromString Taningia.iriNew text s.err.last).status, s)
        else
          match (iriSetFromString Taningia.iriNew text s.err.last).err with
          | none => .ok ((iriSetFromString Taningia.iriNew text s.err.last).status, s)
          | some error => do
            let s' ← s.errorCall (.set error.code [.text error.message])
            pure ((iriSetFromString Taningia.iriNew text s.err.last).status, s')) := by
  unfold setIri
  rw [RefParse.call_eq (step_setString hiri (by simp [AtomObj.kind]))]
  rfl

/-- A new IRI is made before the text is parsed into it. -/
lemma newIriFrom_eq (text : Str) (s : RefParse) :
    newIriFrom text s = setIri text s.world.size ⟨s.world.create .iri, s.err⟩ >>=
      fun r => .ok (s.world.size, r.1, r.2) := by
  unfold newIriFrom
  rw [RefParse.call_eq (c := .iriNew) rfl]
  rfl

/-- An accepted text makes the `!` hold, and keeps the record. -/
lemma newIriFrom_accepts {text : Str} (h : iriAccepts text = true) (s : RefParse) :
    ∃ status, newIriFrom text s = .ok (s.world.size, status, ⟨s.world.create .iri, s.err⟩) ∧
      cNot status = true := by
  have hstatus := (iriSetFromString_of_accepts h Taningia.iriNew s.err.last).1
  have hset := setIri_eq (s := ⟨s.world.create .iri, s.err⟩) text (obj_create_self s.world .iri)
  rw [if_pos hstatus, hstatus] at hset
  exact ⟨taOk, by rw [newIriFrom_eq, hset]; rfl, rfl⟩

/-- A rejected text comes to an error that is set. -/
lemma newIriFrom_of_rejects {text : Str} (h : iriAccepts text = false) (s : RefParse) :
    ∃ error : ErrorT, newIriFrom text s =
      RefParse.errorCall ⟨s.world.create .iri, s.err⟩ (.set error.code [.text error.message]) >>=
        fun s' => .ok (s.world.size, taError, s') := by
  obtain ⟨hstatus, error, herr⟩ := iriSetFromString_of_rejects h Taningia.iriNew s.err.last
  have hset := setIri_eq (s := ⟨s.world.create .iri, s.err⟩) text (obj_create_self s.world .iri)
  rw [if_neg (by rw [hstatus]; decide), herr, hstatus] at hset
  dsimp only at hset
  refine ⟨error, ?_⟩
  rw [newIriFrom_eq, hset]
  cases RefParse.errorCall ⟨s.world.create .iri, s.err⟩
    (.set error.code [.text error.message]) <;> rfl

/-- A rejected text makes the `!` fail, and records an error. -/
lemma newIriFrom_rejects {text : Str} (h : iriAccepts text = false) (hs : s.err ≠ .cleared) :
    ∃ status error, newIriFrom text s =
        .ok (s.world.size, status, ⟨s.world.create .iri, .shown error⟩) ∧
      cNot status = false := by
  obtain ⟨error, hread⟩ := newIriFrom_of_rejects h s
  rw [errorCall_ne_cleared (s := ⟨s.world.create .iri, s.err⟩) hs] at hread
  exact ⟨taError, _, hread, rfl⟩

/-- A rejected text faults where the record was cleared. -/
lemma newIriFrom_rejects_cleared {text : Str} (h : iriAccepts text = false)
    (hs : s.err = .cleared) : newIriFrom text s = .error .fault := by
  obtain ⟨error, hread⟩ := newIriFrom_of_rejects h s
  rw [hread, errorCall_of_cleared (s := ⟨s.world.create .iri, s.err⟩) hs]
  rfl

end Calls

end Taningia.Refs
