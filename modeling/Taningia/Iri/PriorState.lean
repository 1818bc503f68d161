import Taningia.Iri.Parse

set_option relaxedAutoImplicit false
set_option autoImplicit false

/-!
# The object before the parser ran

The parser writes each optional component only where the string has it, and it stores the front of
the string before it looks at the port. This file says what an object that is not fresh brings into
the result: which components survive a call that succeeds, and which are lost in one that fails.

## Main definitions

* `Taningia.AgreeWhereSilent` — two objects agree on the components that a string does not have.
* `Taningia.HoldsFront` — an object already holds what a string stores before its port.

## Main results

* `Taningia.iri_rejected_unchanged_iff` — when a rejected string leaves the object alone.
* `Taningia.iri_prior_state_iff` — when two prior objects end up equal.
-/

namespace Taningia

/-! ## Rejected strings -/

/-- The object holds the scheme of the string and, of user, query and fragment, those that the text
`x` behind `"//"` has. -/
structure HoldsFront (string x : Str) (iri : Iri) : Prop where
  scheme : iri.scheme = some (Scan.before ':' string)
  user : '@' ∈ x → iri.user = some (Scan.before '@' x)
  query : '?' ∈ x → iri.query = some (Scan.before '#' (Scan.after '?' x))
  fragment : ∀ fragment, fragmentOf x = some fragment → iri.fragment = some fragment

/-- `new <|> old` is the old value exactly when there is no other new one. -/
lemma orElse_eq_right_iff {α : Type} {new old : Option α} :
    (new <|> old) = old ↔ ∀ v, new = some v → old = some v := by
  cases new with
  | none => simp
  | some v => simp [eq_comm]

/-- **A rejected string** leaves the object alone exactly when it is not its port that is bad, or
the object holds the front of the string already.

**Proof sketch.** Without a legal scheme nothing is stored. With one, only a bad port is rejected,
and by then the scheme, the user, the query and the fragment are written. -/
theorem iri_rejected_unchanged_iff (iri : Iri) (string : Str) (err : ErrRec) :
    ((iriSetFromString iri string err).status = taError →
      (iriSetFromString iri string err).iri = iri) ↔
    (HasScheme string → ∀ x, authorityText string = some x → BadPort x →
      HoldsFront string x iri) := by
  by_cases hs : HasScheme string
  · cases hx : authorityText string with
    | none =>
      have hok : (iriSetFromString iri string err).status = taOk := by
        rw [status_eq_taOk_iff, hx]
        simp [hs]
      simp [hok, taOk, taError]
    | some x =>
      have hcall := iriSetFromString_authority hs.2 iri x err
      rw [← hs.eq_authority hx] at hcall
      by_cases hbad : BadPort x
      · rw [hcall, if_pos hbad]
        simp only [iriFail, Option.some.injEq, forall_eq', hs, hbad, true_imp_iff]
        rw [Iri.ext_iff]
        simp only [orElse_eq_right_iff, true_and]
        constructor
        · rintro ⟨hscheme, huser, hquery, hfragment⟩
          refine ⟨hscheme.symm, ?_, ?_, hfragment⟩
          · exact fun hat => huser _ (if_pos hat)
          · exact fun hq => hquery _ (if_pos hq)
        · intro h
          refine ⟨h.scheme.symm, ?_, ?_, h.fragment⟩
          · intro user huser
            unfold authUser at huser
            split at huser
            · rename_i hat
              rw [h.user hat, huser]
            · cases huser
          · intro query hquery
            unfold queryOf at hquery
            split at hquery
            · rename_i hq
              rw [h.query hq, hquery]
            · cases hquery
      · rw [hcall, if_neg hbad]
        simp [hbad, taOk, taError]
  · obtain ⟨message, hfail⟩ := iriSetFromString_no_scheme hs iri err
    rw [hfail]
    simp [iriFail, hs]

/-- `"a://b@c:x"` is rejected for its port, and leaves its scheme and its user in a fresh IRI. -/
theorem iri_rejected_bad_port :
    ∃ iri string, (iriSetFromString iri string none).status = taError ∧
      (iriSetFromString iri string none).iri ≠ iri := by
  exact ⟨iriNew, "a://b@c:x".toList, by decide, by decide⟩

/-! ## Accepted strings -/

/-- The string has a user: a `'@'` in its authority section or behind it. -/
def HasUser (string : Str) : Prop := ∃ x, authorityText string = some x ∧ '@' ∈ x

/-- The string has a host: an authority section. -/
def HasHost (string : Str) : Prop := (authorityText string).isSome

/-- The string has a port: a `':'` behind the user, before any `'?'` and `'#'`. -/
def HasPort (string : Str) : Prop :=
  ∃ x, authorityText string = some x ∧ ':' ∈ hierText (authRest x)

/-- The string has a path. With an authority section, it has a `'/'` then. -/
def HasPath (string : Str) : Prop := ∀ x, authorityText string = some x → '/' ∈ x

/-- The string has a query: a `'?'` behind the scheme. -/
def HasQuery (string : Str) : Prop := '?' ∈ Scan.after ':' string

instance (string : Str) : Decidable (HasQuery string) := inferInstanceAs (Decidable (_ ∈ _))

/-- The string has a fragment: a `'#'` behind the scheme and the first `'?'`. -/
def HasFragment (string : Str) : Prop :=
  '#' ∈ if HasQuery string then Scan.after '?' (Scan.after ':' string) else Scan.after ':' string

/-- The two objects agree on each component that the string does not have. -/
structure AgreeWhereSilent (string : Str) (a b : Iri) : Prop where
  user : ¬ HasUser string → a.user = b.user
  host : ¬ HasHost string → a.host = b.host
  port : ¬ HasPort string → a.port = b.port
  path : ¬ HasPath string → a.path = b.path
  query : ¬ HasQuery string → a.query = b.query
  fragment : ¬ HasFragment string → a.fragment = b.fragment

/-- Two fields written alike end up equal, and two that are left alone stay as they are. -/
lemma orElse_eq_orElse_iff {α : Type} {new a b : Option α} {has : Prop}
    (h : new = none ↔ ¬ has) : (new <|> a) = (new <|> b) ↔ (¬ has → a = b) := by
  rw [← h]
  cases new with
  | none => simp
  | some v => simp

/-- The parser finds no query where the string has none. -/
lemma queryOf_eq_none_iff {string : Str} :
    queryOf (Scan.after ':' string) = none ↔ ¬ HasQuery string := by
  simp [queryOf, HasQuery]

/-- The parser finds no fragment where the string has none. -/
lemma fragmentOf_eq_none_iff {string : Str} :
    fragmentOf (Scan.after ':' string) = none ↔ ¬ HasFragment string := by
  unfold fragmentOf HasFragment HasQuery
  by_cases hq : '?' ∈ Scan.after ':' string
  · simp [hq]
  · simp [hq]

/-- There is no port without a colon in front of the path. -/
lemma authPort_eq_none_iff {x : Str} : authPort x = none ↔ ':' ∉ hierText (authRest x) := by
  rw [← scanPort_eq_none_iff]
  simp [authPort, portDigits]

/-- The query and the fragment are looked for behind the two slashes as well as before them. -/
lemma queryOf_authority {string x : Str} (hx : authorityText string = some x) :
    queryOf (Scan.after ':' string) = queryOf x ∧
      fragmentOf (Scan.after ':' string) = fragmentOf x := by
  have hdelims : findDelimiters (Scan.after ':' string) = findDelimiters x := by
    rw [authorityText_eq_some_iff.mp hx]
    exact (findDelimiters_cons ('/' :: x) (by decide) (by decide)).trans
      (findDelimiters_cons x (by decide) (by decide))
  rw [← findDelimiters_queryText, ← findDelimiters_fragmentText, hdelims,
    findDelimiters_queryText, findDelimiters_fragmentText]
  exact ⟨rfl, rfl⟩

/-- **What two prior objects end up as** is the same exactly when they agree on the components that
the accepted string does not have.

**Proof sketch.** Each component of the result is the one of the string, or the old one where the
string has none. The authority section always has a host, and a string without it always has a
path. -/
theorem iri_prior_state_iff {string : Str} (h : iriAccepts string = true) (a b : Iri)
    (err err' : ErrRec) :
    (iriSetFromString a string err).iri = (iriSetFromString b string err').iri ↔
      AgreeWhereSilent string a b := by
  have hok : (iriSetFromString iriNew string none).status = taOk := beq_iff_eq.mp h
  obtain ⟨hs, hport⟩ := (status_eq_taOk_iff _ _ _).mp hok
  have hagree : AgreeWhereSilent string a b ↔
      (¬ HasUser string → a.user = b.user) ∧ (¬ HasHost string → a.host = b.host) ∧
      (¬ HasPort string → a.port = b.port) ∧ (¬ HasPath string → a.path = b.path) ∧
      (¬ HasQuery string → a.query = b.query) ∧
      (¬ HasFragment string → a.fragment = b.fragment) :=
    ⟨fun h => ⟨h.user, h.host, h.port, h.path, h.query, h.fragment⟩,
      fun ⟨h1, h2, h3, h4, h5, h6⟩ => ⟨h1, h2, h3, h4, h5, h6⟩⟩
  rw [hagree]
  cases hx : authorityText string with
  | some x =>
    have hcall := fun iri err => iriSetFromString_authority hs.2 iri x err
    rw [← hs.eq_authority hx] at hcall
    obtain ⟨hquery, hfragment⟩ := queryOf_authority hx
    have huser : authUser x = none ↔ ¬ HasUser string := by simp [authUser, HasUser, hx]
    have hhost : HasHost string := by simp [HasHost, hx]
    have hnoport : authPort x = none ↔ ¬ HasPort string := by
      rw [authPort_eq_none_iff]
      simp [HasPort, hx]
    have hpath : authPath x = none ↔ ¬ HasPath string := by simp [authPath, HasPath, hx]
    have hportfield : (authPort x).getD a.port = (authPort x).getD b.port ↔
        (¬ HasPort string → a.port = b.port) := by
      rw [← hnoport]
      cases authPort x <;> simp
    rw [hcall, hcall, if_neg (hport x hx), if_neg (hport x hx), Iri.ext_iff]
    simp only [orElse_eq_orElse_iff huser, orElse_eq_orElse_iff hpath, hportfield,
      orElse_eq_orElse_iff (hquery ▸ queryOf_eq_none_iff),
      orElse_eq_orElse_iff (hfragment ▸ fragmentOf_eq_none_iff), hhost, not_true, false_imp_iff,
      true_and]
  | none =>
    have hcall := fun iri err =>
      iriSetFromString_opaque hs.2 iri err (authorityText_eq_none_iff.mp hx)
    rw [← hs.eq_opaque] at hcall
    have huser : ¬ HasUser string := by simp [HasUser, hx]
    have hhost : ¬ HasHost string := by simp [HasHost, hx]
    have hnoport : ¬ HasPort string := by simp [HasPort, hx]
    have hpath : HasPath string := by simp [HasPath, hx]
    rw [hcall, hcall, Iri.ext_iff]
    simp only [orElse_eq_orElse_iff queryOf_eq_none_iff,
      orElse_eq_orElse_iff fragmentOf_eq_none_iff, huser, hhost, hnoport, hpath, not_true,
      not_false_iff, false_imp_iff, true_imp_iff, true_and]

/-- A second parse keeps the user and the port of the first. -/
theorem iri_prior_state_second_parse :
    (iriSetFromString iriNew "b://h".toList none).iri =
      (iriSetFromString (iriSetFromString iriNew "a://u@h:1".toList none).iri "b://h".toList
        none).iri ↔
      AgreeWhereSilent "b://h".toList iriNew
        (iriSetFromString iriNew "a://u@h:1".toList none).iri :=
  iri_prior_state_iff (by decide) _ _ none none

/-- **Stale components survive**: `"b://h"` parsed into the result of `"a://u@h:1"` keeps the user
and the port. -/
theorem iri_prior_state_stale :
    ∃ string a b, iriAccepts string = true ∧
      (iriSetFromString a string none).iri ≠ (iriSetFromString b string none).iri := by
  exact ⟨"b://h".toList, iriNew, (iriSetFromString iriNew "a://u@h:1".toList none).iri, by decide,
    by decide⟩

end Taningia
