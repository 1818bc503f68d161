import Taningia.Iri.RoundTrip

set_option relaxedAutoImplicit false
set_option autoImplicit false

/-!
# Who decides the authority of an IRI

In `scheme://a t`, with `a` free of `'/'`, `'?'` and `'#'` and `t` empty or starting with one of
them, the authority is written in `a`. The scans of the parser read on into `t`, so `t` can change
the user, the host or the port, or make the parser fail. This file says which suffixes leave the
authority as it stands in `a`.

## Main definitions

* `Taningia.authorityOf` — user, host and port as the parser reads them, or `none` when it fails.
* `Taningia.Harmless` — the suffixes that leave the authority alone.

## Main results

* `Taningia.harmless_iff` — a suffix is harmless exactly when the authority text alone reads the
  same.
* `Taningia.authority_same_of_harmless` — two harmless suffixes give the same authority, and a
  harmless and a harmful one never do.
-/

namespace Taningia

/-! ## The authority that is read -/

/-- User, host and port. -/
@[ext]
structure Authority where
  user : Option Str
  host : Str
  port : ℤ
deriving DecidableEq, Repr

/-- The authority read from the text behind `"//"`; `none` when the port section fails. -/
def authorityOf (x : Str) : Option Authority :=
  if BadPort x then none else some ⟨authUser x, authHost x, (authPort x).getD 0⟩

/-- Two calls agree on the verdict and, when they accept, on user, host and port. -/
def SameAuthority (c d : IriCall) : Prop :=
  c.status = d.status ∧
    (c.status = taOk → c.iri.user = d.iri.user ∧ c.iri.host = d.iri.host ∧ c.iri.port = d.iri.port)

/-- Two calls on `scheme://x` and `scheme://y` agree exactly when the same authority is read. -/
lemma sameAuthority_iff {s : Str} (hs : LegalScheme s) (x y : Str) (err : ErrRec) :
    SameAuthority (iriSetFromString iriNew (s ++ "://".toList ++ x) err)
      (iriSetFromString iriNew (s ++ "://".toList ++ y) err) ↔ authorityOf x = authorityOf y := by
  rw [iriSetFromString_authority hs, iriSetFromString_authority hs]
  unfold authorityOf SameAuthority
  by_cases hx : BadPort x
  · by_cases hy : BadPort y
    · simp [hx, hy, iriFail, taOk, taError]
    · simp [hx, hy, iriFail, taOk, taError]
  · by_cases hy : BadPort y
    · simp [hx, hy, iriFail, taOk, taError]
    · simp [hx, hy, iriNew]

/-! ## Authority texts and suffixes -/

/-- A text without the letters that end an authority. -/
def AuthorityText (a : Str) : Prop := '/' ∉ a ∧ '?' ∉ a ∧ '#' ∉ a

/-- A text that is empty or starts with a letter that ends an authority. -/
def SuffixText (t : Str) : Prop := ∀ c, t.head? = some c → c = '/' ∨ c = '?' ∨ c = '#'

/-- A suffix that the port scan and the end of the host leave alone: its path has no `':'`, a path
is not followed by a query or a fragment, and a fragment without a query has no `'?'`. -/
structure HarmlessTail (t : Str) : Prop where
  colon : ':' ∉ hierText t
  path : t.head? = some '/' → '?' ∉ t ∧ '#' ∉ t
  fragment : t.head? = some '#' → '?' ∉ t

/-- A suffix that leaves the authority `a` alone. An `'@'` in the suffix is taken for the end of a
user when `a` has none, and then only a failure of both ports goes unnoticed. Otherwise a `':'`
behind the user of `a` stops the port scan in `a`. -/
def Harmless (a t : Str) : Prop :=
  if '@' ∉ a ∧ '@' ∈ t then BadPort a ∧ BadPort t else ':' ∈ authRest a ∨ HarmlessTail t

/-- The text whose scans a harmful suffix decides, standing alone: behind a user of `a` no further
user is looked for. -/
def reached (a t : Str) : Str := if '@' ∈ a then '@' :: t else t

section Readings

variable {a t : Str}

/-- The part behind the user of an authority text has no mark. -/
lemma AuthorityText.authRest_letters (ha : AuthorityText a) :
    '/' ∉ authRest a ∧ '?' ∉ authRest a ∧ '#' ∉ authRest a := by
  have hsub : ∀ c ∈ authRest a, c ∈ a := by
    intro c hc
    unfold authRest at hc
    split at hc
    · rename_i hat
      rw [← Scan.before_append_cons_after hat]
      simp [hc]
    · exact hc
  exact ⟨fun h => ha.1 (hsub _ h), fun h => ha.2.1 (hsub _ h), fun h => ha.2.2 (hsub _ h)⟩

/-- The mark that ends the host is in the suffix. -/
lemma AuthorityText.hostMark_append (ha : AuthorityText a) (t : Str) :
    hostMark (a ++ t) = hostMark t := by
  simp [hostMark, ha.2.1, ha.2.2]

/-- An authority text has no mark. -/
lemma AuthorityText.hostMark_not_mem (ha : AuthorityText a) (x : Str) : hostMark x ∉ a := by
  rcases hostMark_cases x with h | h | h <;> rw [h]
  · exact ha.1
  · exact ha.2.1
  · exact ha.2.2

/-- A suffix has no digit that could lengthen a port in front of it. -/
lemma SuffixText.takeWhile_isdigit (ht : SuffixText t) (s : Str) :
    (s ++ t).takeWhile isdigit = s.takeWhile isdigit := by
  induction s with
  | nil =>
    cases t with
    | nil => rfl
    | cons c t =>
      have hdigit : isdigit c = false := by rcases ht c rfl with rfl | rfl | rfl <;> decide
      exact List.takeWhile_cons_of_neg (by simp [hdigit])
  | cons c s ih => simp only [List.cons_append, List.takeWhile_cons, ih]

/-! ## A user that is not in the suffix -/

/-- A suffix leaves the user, unless it brings the first `'@'`. -/
lemma authUser_append (h : '@' ∈ a ∨ '@' ∉ t) : authUser (a ++ t) = authUser a := by
  by_cases hat : '@' ∈ a
  · simp [authUser, hat, Scan.before_append_of_mem]
  · simp [authUser, hat, h.resolve_left hat]

/-- A suffix follows what is behind the user, unless it brings the first `'@'`. -/
lemma authRest_append (h : '@' ∈ a ∨ '@' ∉ t) : authRest (a ++ t) = authRest a ++ t := by
  by_cases hat : '@' ∈ a
  · simp [authRest, hat, Scan.after_append_of_mem]
  · simp [authRest, hat, h.resolve_left hat]

/-- What is read of the suffix behind the user. -/
lemma authRest_reached (h : '@' ∈ a ∨ '@' ∉ t) : authRest (reached a t) = t := by
  by_cases hat : '@' ∈ a
  · simp [reached, hat, authRest]
  · simp [reached, hat, authRest, h.resolve_left hat]

/-- The user in front of the suffix, left out. -/
lemma authUser_reached (h : '@' ∈ a ∨ '@' ∉ t) :
    authUser (reached a t) = if '@' ∈ a then some [] else none := by
  by_cases hat : '@' ∈ a
  · simp [reached, hat, authUser]
  · simp [reached, hat, authUser, h.resolve_left hat]

/-- The mark that ends the host, of the suffix alone. -/
lemma hostMark_reached (a t : Str) : hostMark (reached a t) = hostMark t := by
  unfold reached
  split <;> simp [hostMark]

/-- **A `':'` behind the user of `a` shuts the suffix out.**

**Proof sketch.** The first colon behind the user is in `a`, so the host ends there, and the
digits of the port end before the suffix, which starts with no digit. -/
lemma authorityOf_append_own (ha : AuthorityText a) (ht : SuffixText t) (h : '@' ∈ a ∨ '@' ∉ t)
    (hown : ':' ∈ authRest a) : authorityOf (a ++ t) = authorityOf a := by
  obtain ⟨seg, post, hsplit, hseg⟩ := Scan.exists_split hown
  obtain ⟨-, hq, hf⟩ := ha.authRest_letters
  rw [hsplit] at hq hf
  have hscan : ∀ rest, scanPort (seg ++ ':' :: rest) = some (':' :: rest) := fun rest =>
    scanPort_eq_some_iff.mpr ⟨seg, rest, rfl, rfl, hseg, by simp_all, by simp_all⟩
  have hrest : authRest (a ++ t) = seg ++ ':' :: (post ++ t) := by
    rw [authRest_append h, hsplit, List.append_assoc, List.cons_append]
  have hdigits : portDigits (a ++ t) = portDigits a := by
    rw [portDigits, portDigits, hrest, hsplit, hscan, hscan, Option.map_some, Option.map_some,
      List.tail_cons, List.tail_cons, ht.takeWhile_isdigit]
  have hhost : authHost (a ++ t) = authHost a := by
    rw [authHost, authHost, hrest, hsplit, hscan, hscan]
    simp [hseg]
  by_cases hbad : portDigits a = some []
  · simp [authorityOf, BadPort, hdigits, hbad]
  · simp [authorityOf, BadPort, authPort, hdigits, hbad, hhost, authUser_append h]

/-- **Without a `':'` behind the user of `a`** the suffix is read as it would be on its own, behind
the user and the host of `a`.

**Proof sketch.** No letter of `a` behind its user ends the search for a port or the host, so
both go on into the suffix, where they find what they find in the suffix alone; the host has the
rest of `a` in front of it. -/
lemma authorityOf_append_reached (ha : AuthorityText a) (h : '@' ∈ a ∨ '@' ∉ t)
    (hown : ':' ∉ authRest a) :
    authorityOf (a ++ t) = (authorityOf (reached a t)).map fun au =>
      ⟨authUser a, authRest a ++ au.host, au.port⟩ := by
  obtain ⟨-, hq, hf⟩ := ha.authRest_letters
  have hscan : scanPort (authRest a ++ t) = scanPort t := by
    generalize authRest a = r at *
    induction r with
    | nil => rfl
    | cons c r ih =>
      simp only [List.mem_cons, not_or] at hq hf hown
      rw [List.cons_append, scanPort, if_neg (Ne.symm hown.1),
        if_neg (not_or.mpr ⟨Ne.symm hq.1, Ne.symm hf.1⟩)]
      exact ih hown.2 hq.2 hf.2
  have hdigits : portDigits (a ++ t) = portDigits (reached a t) := by
    rw [portDigits, portDigits, authRest_append h, authRest_reached h, hscan]
  have hhost : authHost (a ++ t) = authRest a ++ authHost (reached a t) := by
    have hin : hostMark t ∉ (authUser a).getD [] := by
      intro hmem
      refine ha.hostMark_not_mem t ?_
      unfold authUser at hmem
      split at hmem
      · exact Scan.mem_of_mem_before hmem
      · simp at hmem
    have hout : hostMark t ∉ (authUser (reached a t)).getD [] := by
      rw [authUser_reached h]
      split <;> simp
    have hmark : hostMark t ∉ authRest a := by
      rcases hostMark_cases t with hm | hm | hm <;> rw [hm]
      · exact ha.authRest_letters.1
      · exact hq
      · exact hf
    rw [authHost, authHost, authRest_append h, authRest_reached h, hscan, ha.hostMark_append,
      hostMark_reached, authUser_append h, if_neg hin, if_neg hout]
    cases scanPort t with
    | none => exact Scan.before_append t hmark
    | some portMark => exact Scan.before_append t hown
  by_cases hbad : portDigits (reached a t) = some []
  · simp [authorityOf, BadPort, hdigits, hbad]
  · simp [authorityOf, BadPort, authPort, hdigits, hbad, hhost, authUser_append h]

/-- A suffix is empty or starts with the letter that ends the host.

**Proof sketch.** By cases on the first letter, and on which marks the suffix holds. -/
lemma SuffixText.head_eq_hostMark_iff (ht : SuffixText t) :
    (t = [] ∨ t.head? = some (hostMark t)) ↔
      (t.head? = some '/' → '?' ∉ t ∧ '#' ∉ t) ∧ (t.head? = some '#' → '?' ∉ t) := by
  constructor
  · rintro (rfl | hhead)
    · simp
    · unfold hostMark at hhead
      refine ⟨fun hslash => ?_, fun hhash => ?_⟩
      · rw [hslash] at hhead
        split_ifs at hhead with hq hf
        · simp at hhead
        · simp at hhead
        · exact ⟨hq, hf⟩
      · rw [hhash] at hhead
        split_ifs at hhead with hq hf
        · simp at hhead
        · exact hq
        · simp at hhead
  · rintro ⟨hpath, hfragment⟩
    cases t with
    | nil => exact Or.inl rfl
    | cons c t =>
      right
      rcases ht c rfl with rfl | rfl | rfl
      · obtain ⟨hq, hf⟩ := hpath rfl
        simp only [List.head?_cons, hostMark, if_neg hq, if_neg hf]
      · simp [hostMark]
      · have hq := hfragment rfl
        simp [hostMark, hq]

/-- A suffix adds nothing to the host and brings no port exactly when it is harmless.

**Proof sketch.** With a colon in the suffix the port it brings is zero exactly when its digits
are, and the host ends at the colon; without one the host ends at the mark. In both cases
nothing is added to the host exactly when the suffix is empty or starts where the host ends. -/
lemma harmlessTail_iff (ht : SuffixText t) (h : '@' ∈ a ∨ '@' ∉ t) :
    HarmlessTail t ↔ ∃ user, authorityOf (reached a t) = some ⟨user, [], 0⟩ := by
  have hout : hostMark t ∉ (authUser (reached a t)).getD [] := by
    rw [authUser_reached h]
    split <;> simp
  cases hscan : scanPort t with
  | none =>
    have hcolon := scanPort_eq_none_iff.mp hscan
    have hdigits : portDigits (reached a t) = none := by
      rw [portDigits, authRest_reached h, hscan, Option.map_none]
    have hhost : authHost (reached a t) = Scan.before (hostMark t) t := by
      rw [authHost, authRest_reached h, hscan, hostMark_reached]
      exact if_neg hout
    have hread : (∃ user, authorityOf (reached a t) = some ⟨user, [], 0⟩) ↔
        t = [] ∨ t.head? = some (hostMark t) := by
      rw [← Scan.before_eq_nil_iff]
      simp [authorityOf, BadPort, authPort, hdigits, hhost]
    rw [hread, ht.head_eq_hostMark_iff]
    constructor
    · exact fun htail => ⟨htail.path, htail.fragment⟩
    · exact fun hhead => ⟨hcolon, hhead.1, hhead.2⟩
  | some portMark =>
    have hcolon : ':' ∈ hierText t := by
      by_contra hno
      rw [scanPort_eq_none_iff.mpr hno] at hscan
      cases hscan
    constructor
    · exact fun htail => absurd hcolon htail.colon
    · rintro ⟨user, hread⟩
      have hhost : authHost (reached a t) = Scan.before ':' t := by
        rw [authHost, authRest_reached h, hscan]
      have hnil : Scan.before ':' t = [] := by
        unfold authorityOf at hread
        split at hread
        · cases hread
        · rw [← hhost]
          exact congrArg Authority.host (Option.some.inj hread)
      rcases Scan.before_eq_nil_iff.mp hnil with rfl | hhead
      · simp [scanPort] at hscan
      · rcases ht _ hhead with hc | hc | hc <;> simp at hc

/-! ## An at-sign of the suffix -/

/-- **An `'@'` of the suffix ends a user** when `a` has none: then the suffix is read as it would be
on its own, with `a` in front of the user.

**Proof sketch.** The first `'@'` of the text is the one of the suffix, so the user is `a` and
what is in front of it; the host and the port are read behind it, from the suffix. -/
lemma authorityOf_append_foreign (ha : AuthorityText a) (hno : '@' ∉ a) (hat : '@' ∈ t) :
    authorityOf (a ++ t) =
      (authorityOf t).map fun au => { au with user := au.user.map (a ++ ·) } := by
  have hrest : authRest (a ++ t) = authRest t := by
    simp [authRest, hat, hno, Scan.after_append]
  have huser : authUser (a ++ t) = (authUser t).map (a ++ ·) := by
    simp [authUser, hat, hno, Scan.before_append]
  have hdigits : portDigits (a ++ t) = portDigits t := by rw [portDigits, portDigits, hrest]
  have hhost : authHost (a ++ t) = authHost t := by
    have hin : hostMark t ∈ (authUser (a ++ t)).getD [] ↔ hostMark t ∈ (authUser t).getD [] := by
      rw [huser]
      cases authUser t with
      | none => simp
      | some user => simp [ha.hostMark_not_mem t]
    rw [authHost, authHost, hrest, ha.hostMark_append]
    simp only [hin]
  by_cases hbad : portDigits t = some []
  · simp [authorityOf, BadPort, hdigits, hbad]
  · simp [authorityOf, BadPort, authPort, hdigits, hbad, hhost, huser]

/-! ## Which suffixes are harmless -/

/-- **A suffix is harmless exactly when the authority text alone reads the same.**

**Proof sketch.** By cases on where the first `'@'` is. One that the suffix brings makes a user
where `a` has none. When `a` has its own, or there is none, a colon behind the user shuts the
suffix out, and otherwise `harmlessTail_iff` says when the suffix adds nothing. -/
theorem harmless_iff (ha : AuthorityText a) (ht : SuffixText t) :
    Harmless a t ↔ authorityOf (a ++ t) = authorityOf a := by
  by_cases hforeign : '@' ∉ a ∧ '@' ∈ t
  · have huser : authUser a = none := if_neg hforeign.1
    have huser' : authUser t = some (Scan.before '@' t) := if_pos hforeign.2
    rw [authorityOf_append_foreign ha hforeign.1 hforeign.2, Harmless, if_pos hforeign]
    unfold authorityOf
    by_cases hbad : BadPort a <;> by_cases hbad' : BadPort t <;> simp [hbad, hbad', huser, huser']
  · have h : '@' ∈ a ∨ '@' ∉ t := by tauto
    rw [Harmless, if_neg hforeign]
    by_cases hown : ':' ∈ authRest a
    · simp [hown, authorityOf_append_own ha ht h hown]
    · -- without a suffix nothing is added to the user and the host of `a`
      have hbare : authorityOf a = some ⟨authUser a, authRest a, 0⟩ := by
        have hnil : SuffixText [] := by simp [SuffixText]
        have htail : HarmlessTail [] := ⟨by simp [hierText], by simp, by simp⟩
        obtain ⟨user, hread⟩ := (harmlessTail_iff (a := a) hnil (Or.inr (by simp))).mp htail
        have hshift := authorityOf_append_reached (t := []) ha (Or.inr (by simp)) hown
        rwa [hread, Option.map_some, List.append_nil, List.append_nil] at hshift
      rw [authorityOf_append_reached ha h hown, hbare, harmlessTail_iff ht h,
        Option.map_eq_some_iff]
      constructor
      · rintro (hcolon | ⟨user, hread⟩)
        · exact absurd hcolon hown
        · exact ⟨_, hread, by simp⟩
      · rintro ⟨⟨user, host, port⟩, hread, heq⟩
        obtain ⟨-, hhost, rfl⟩ := Authority.mk.inj heq
        obtain rfl : host = [] := List.append_right_eq_self.mp hhost
        exact Or.inr ⟨user, hread⟩

end Readings

/-! ## Two suffixes -/

/-- **The authority is decided by the authority text alone** in front of harmless suffixes: both
calls agree. A harmless and a harmful suffix never agree.

**Proof sketch.** A harmless suffix reads as `a` alone, so two of them read the same. A harmful one
does not read as `a` alone, so calls that agree are both harmless or both harmful. -/
theorem authority_same_of_harmless {s a t₁ t₂ : Str} (hs : LegalScheme s) (ha : AuthorityText a)
    (h₁ : SuffixText t₁) (h₂ : SuffixText t₂) (err : ErrRec) :
    (Harmless a t₁ ∧ Harmless a t₂ →
      SameAuthority (iriSetFromString iriNew (s ++ "://".toList ++ (a ++ t₁)) err)
        (iriSetFromString iriNew (s ++ "://".toList ++ (a ++ t₂)) err)) ∧
    (SameAuthority (iriSetFromString iriNew (s ++ "://".toList ++ (a ++ t₁)) err)
        (iriSetFromString iriNew (s ++ "://".toList ++ (a ++ t₂)) err) →
      (Harmless a t₁ ↔ Harmless a t₂)) := by
  rw [sameAuthority_iff hs, harmless_iff ha h₁, harmless_iff ha h₂]
  constructor
  · rintro ⟨hread₁, hread₂⟩
    rw [hread₁, hread₂]
  · intro hsame
    rw [hsame]

/-- Behind a user and a `':'`, neither a path nor a query with all the delimiters counts. -/
theorem authority_same_user_port :
    SameAuthority
      (iriSetFromString iriNew ("a".toList ++ "://".toList ++ ("u@h:80".toList ++ "/x@y:z".toList))
        none)
      (iriSetFromString iriNew ("a".toList ++ "://".toList ++ ("u@h:80".toList ++ "?@:/".toList))
        none) := by
  have hs : LegalScheme "a".toList := by decide
  have ha : AuthorityText "u@h:80".toList := by unfold AuthorityText; decide
  have h₁ : SuffixText "/x@y:z".toList := by rintro c ⟨⟩; decide
  have h₂ : SuffixText "?@:/".toList := by rintro c ⟨⟩; decide
  refine (authority_same_of_harmless hs ha h₁ h₂ none).1 ?_
  exact ⟨(harmless_iff ha h₁).mpr (by decide), (harmless_iff ha h₂).mpr (by decide)⟩

/-- **A `':'` of the path makes an IRI invalid**: `"a://h"` is accepted, `"a://h/x:y"` is not.

**Proof sketch.** Both strings are parsed. -/
theorem authority_not_same_path_colon :
    ∃ s a t₁ t₂, LegalScheme s ∧ AuthorityText a ∧ SuffixText t₁ ∧ SuffixText t₂ ∧
      s ++ "://".toList ++ (a ++ t₁) = "a://h/x:y".toList ∧
      s ++ "://".toList ++ (a ++ t₂) = "a://h".toList ∧
      ¬ SameAuthority (iriSetFromString iriNew (s ++ "://".toList ++ (a ++ t₁)) none)
        (iriSetFromString iriNew (s ++ "://".toList ++ (a ++ t₂)) none) := by
  refine ⟨"a".toList, "h".toList, "/x:y".toList, [], by decide, ?_, ?_, ?_, rfl, rfl, ?_⟩
  · unfold AuthorityText
    decide
  · rintro c ⟨⟩
    decide
  · simp [SuffixText]
  · unfold SameAuthority
    decide

end Taningia
