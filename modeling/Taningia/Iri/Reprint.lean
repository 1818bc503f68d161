import Taningia.Iri.RoundTrip

set_option relaxedAutoImplicit false
set_option autoImplicit false

/-!
# Reading an IRI and printing it again

When the parser accepts `scheme://x`, every component is a slice of `x`, but the slices are found by
separate scans and need not lie side by side. Printing the result gives the original string exactly
when they do.

## Main definitions

* `Taningia.portTail` — the text behind the port digits.
* `Taningia.Tiles` — the slices lie side by side.

## Main results

* `Taningia.iri_reprint_iff` — an accepted string is printed again exactly when its slices tile it.
* `Taningia.iri_reprint_path_query` — in `"a://h/p?q"` they do not.
* `Taningia.iri_opaque_reprint` — without an authority section they always do.
-/

namespace Taningia

/-! ## The slices -/

/-- The text behind the port digits, when there is a port. -/
def portTail (x : Str) : Option Str :=
  (scanPort (authRest x)).map fun portMark => portMark.tail.dropWhile isdigit

/-- The text from the first `'/'` up to the next `'?'` or `'#'`. -/
def slashText (x : Str) : Str := if '/' ∈ x then hierText ('/' :: Scan.after '/' x) else []

/-- The text from the first `'?'`, or without one from the first `'#'`. -/
def markText (x : Str) : Str :=
  if '?' ∈ x then '?' :: Scan.after '?' x else if '#' ∈ x then '#' :: Scan.after '#' x else []

/-- The slices lie side by side. Without a port, the letter that ends the host is not in the user,
and it is a slash or there is no slash at all. With a port, what is behind its digits is the text
from the first slash and the text from the first `'?'` or `'#'`. -/
def Tiles (x : Str) : Prop :=
  match portTail x with
  | none => hostMark x ∉ (authUser x).getD [] ∧ (hostMark x = '/' ∨ '/' ∉ x)
  | some rest => rest = slashText x ++ markText x

/-! ## Accepted strings -/

/-- An accepted string has a legal scheme before its first `':'`. -/
lemma legalScheme_of_accepted {s rest : Str} {iri : Iri} {err : ErrRec} (hs : ':' ∉ s)
    (h : (iriSetFromString iri (s ++ ':' :: rest) err).status = taOk) : LegalScheme s := by
  have hscheme := ((status_eq_taOk_iff iri (s ++ ':' :: rest) err).mp h).1.2
  rwa [Scan.before_append_cons _ hs] at hscheme

/-- The text behind `"//"` is the user and what is behind it. -/
lemma user_authRest (x : Str) : (authUser x).elim [] (· ++ ['@']) ++ authRest x = x := by
  by_cases hat : '@' ∈ x
  · have hsplit := Scan.before_append_cons_after hat
    simp [authUser, authRest, hat, hsplit]
  · simp [authUser, authRest, hat]

/-- The printed query and fragment are the text from the first mark. -/
lemma query_fragment_text (x : Str) :
    (queryOf x).elim [] ('?' :: ·) ++ (fragmentOf x).elim [] ('#' :: ·) = markText x := by
  unfold queryOf fragmentOf markText
  by_cases hq : '?' ∈ x
  · by_cases hf : '#' ∈ Scan.after '?' x
    · simp [hq, hf, Scan.before_append_cons_after hf]
    · simp [hq, hf]
  · by_cases hf : '#' ∈ x
    · simp [hq, hf]
    · simp [hq, hf]

/-- The path, or the empty string. -/
lemma authPath_getD (x : Str) : (authPath x).getD [] = slashText x := by
  unfold authPath slashText
  split <;> rfl

/-- The text of the path is empty where there is no slash. -/
lemma slashText_eq_nil_iff {x : Str} : slashText x = [] ↔ '/' ∉ x := by
  unfold slashText
  split
  · rename_i h
    simp [hierText, pathLen, h]
  · rename_i h
    simp [h]

/-- Without marks, the whole text is hierarchical. -/
lemma hierText_of_no_mark {s : Str} (hq : '?' ∉ s) (hf : '#' ∉ s) : hierText s = s := by
  simpa [hierText, pathLen] using hierText_append [] hq hf

/-- A letter that is not in the user comes first behind it.

**Proof sketch.** The user and its `'@'` do not have the letter. -/
lemma after_authRest {m : Char} {x : Str} (hm : m ≠ '@') (huser : m ∉ (authUser x).getD []) :
    Scan.after m x = Scan.after m (authRest x) ∧ (m ∈ x ↔ m ∈ authRest x) := by
  have hfront : m ∉ (authUser x).elim [] (· ++ ['@']) := by
    cases hu : authUser x with
    | none => simp
    | some user =>
      rw [hu, Option.getD_some] at huser
      simp [huser, hm]
  have hx := user_authRest x
  constructor
  · rw [← Scan.after_append (authRest x) hfront, hx]
  · constructor
    · intro h
      rw [← hx] at h
      exact (List.mem_append.mp h).resolve_left hfront
    · intro h
      rw [← hx]
      exact List.mem_append_right _ h

/-! ## The slices behind the user -/

/-- A mark that ends the host inside the user is also the start of a later slice. -/
lemma slices_ne_nil {x : Str} (h : hostMark x ∈ x) : slashText x ++ markText x ≠ [] := by
  intro hnil
  obtain ⟨hslash, hmark⟩ := List.append_eq_nil_iff.mp hnil
  rw [slashText_eq_nil_iff] at hslash
  unfold markText at hmark
  unfold hostMark at h
  by_cases hq : '?' ∈ x
  · simp [hq] at hmark
  · by_cases hf : '#' ∈ x
    · simp [hq, hf] at hmark
    · rw [if_neg hq, if_neg hf] at h
      exact hslash h

/-- A letter of the user is one of the string. -/
lemma mem_of_mem_authUser {x : Str} {c : Char} (h : c ∈ (authUser x).getD []) : c ∈ x := by
  unfold authUser at h
  split at h
  · exact Scan.mem_of_mem_before h
  · simp at h

/-- A slice put between two adjacent ones is seen unless it is empty. -/
lemma append_between_iff {s t r : Str} (h : s ++ t = r) (m : Str) :
    s ++ (m ++ t) = r ↔ m = [] := by
  rw [← h, List.append_cancel_left_eq, List.append_left_eq_self]

/-- A host that ends at the mark of the query or the fragment leaves no room for a path. -/
lemma tiles_of_markText {x : Str} {m : Char} (hm : m ≠ '@') (huser : m ∉ (authUser x).getD [])
    (hx : m ∈ x) (htext : markText x = m :: Scan.after m x) :
    Scan.before m (authRest x) ++ (slashText x ++ markText x) = authRest x ↔ '/' ∉ x := by
  obtain ⟨hafter, hmem⟩ := after_authRest hm huser
  rw [htext, hafter, append_between_iff (Scan.before_append_cons_after (hmem.mp hx)),
    slashText_eq_nil_iff]

/-- Without marks, a host that ends at the slash is followed by the path.

**Proof sketch.** The path begins at the first slash of the text, and the user has none. -/
lemma tiles_of_no_mark {x : Str} (hq : '?' ∉ x) (hf : '#' ∉ x)
    (huser : '/' ∉ (authUser x).getD []) :
    Scan.before '/' (authRest x) ++ slashText x = authRest x := by
  obtain ⟨hafter, hmem⟩ := after_authRest (by decide) huser
  by_cases hp : '/' ∈ x
  · have hclean : ∀ c ∈ '/' :: Scan.after '/' x, c ∈ x := by
      intro c hc
      rw [← Scan.before_append_cons_after hp]
      exact List.mem_append_right _ hc
    rw [slashText, if_pos hp, hierText_of_no_mark (fun h => hq (hclean _ h))
      (fun h => hf (hclean _ h)), hafter]
    exact Scan.before_append_cons_after (hmem.mp hp)
  · rw [slashText_eq_nil_iff.mpr hp, List.append_nil]
    exact Scan.before_of_not_mem (mt hmem.mpr hp)

/-- **Without a port**, host, path and the rest tile the text behind the user exactly when the host
ends behind the user and nothing is printed twice.

**Proof sketch.** By cases on whether the mark that ends the host comes up in the user: then the
host is all of the text and the slices behind it are not empty. Otherwise the host ends at the
first mark, by cases on which it is. -/
lemma tiles_without_port {x : Str} (hscan : scanPort (authRest x) = none) :
    authHost x ++ (slashText x ++ markText x) = authRest x ↔
      hostMark x ∉ (authUser x).getD [] ∧ (hostMark x = '/' ∨ '/' ∉ x) := by
  by_cases huser : hostMark x ∈ (authUser x).getD []
  · have hhost : authHost x = authRest x := by
      rw [authHost, hscan]
      exact if_pos huser
    have hne := slices_ne_nil (mem_of_mem_authUser huser)
    simp only [hhost, List.append_right_eq_self, hne, huser, not_true, false_and]
  · have hhost : authHost x = Scan.before (hostMark x) (authRest x) := by
      rw [authHost, hscan]
      exact if_neg huser
    rw [hhost, and_iff_right huser]
    by_cases hq : '?' ∈ x
    · have hmark : hostMark x = '?' := if_pos hq
      rw [hmark] at huser ⊢
      rw [tiles_of_markText (by decide) huser hq (if_pos hq)]
      simp
    · by_cases hf : '#' ∈ x
      · have hmark : hostMark x = '#' := by rw [hostMark, if_neg hq, if_pos hf]
        have htext : markText x = '#' :: Scan.after '#' x := by
          rw [markText, if_neg hq, if_pos hf]
        rw [hmark] at huser ⊢
        rw [tiles_of_markText (by decide) huser hf htext]
        simp
      · have hmark : hostMark x = '/' := by rw [hostMark, if_neg hq, if_neg hf]
        have htext : markText x = [] := by rw [markText, if_neg hq, if_neg hf]
        rw [hmark] at huser ⊢
        rw [htext, List.append_nil, tiles_of_no_mark hq hf huser]
        simp

/-- **With a port**, the slices tile the text behind the user exactly when those behind the digits
tile what follows them.

**Proof sketch.** The text behind the user is the segment in front of the colon, the digits and
what follows them; the first two are host and port, and cancel. -/
lemma tiles_with_port {x d rest : Str} (hdigits : portDigits x = some d)
    (htail : portTail x = some rest) (slices : Str) :
    authHost x ++ (':' :: d ++ slices) = authRest x ↔ rest = slices := by
  cases hscan : scanPort (authRest x) with
  | none => simp [portDigits, hscan] at hdigits
  | some portMark =>
    obtain ⟨seg, post, hsplit, rfl, hseg, -⟩ := scanPort_eq_some_iff.mp hscan
    rw [portDigits, hscan, Option.map_some, Option.some.injEq, List.tail_cons] at hdigits
    rw [portTail, hscan, Option.map_some, Option.some.injEq, List.tail_cons] at htail
    have hhost : authHost x = seg := by
      rw [authHost, hscan, hsplit]
      exact Scan.before_append_cons _ hseg
    have hpost : post = d ++ rest := by rw [← hdigits, ← htail, List.takeWhile_append_dropWhile]
    rw [hhost, hsplit, hpost]
    simp [eq_comm]

/-! ## Printing again -/

/-- The digits of a port are the canonical decimal of a number in `1..65535`. -/
def CanonicalPort (x : Str) : Prop :=
  ∀ d, portDigits x = some d → ∃ n : ℤ, 1 ≤ n ∧ n ≤ 65535 ∧ d = sprintfInt n

/-- What a fresh IRI holds after an accepted `scheme://x`. -/
lemma iri_accepted {s x : Str} {err : ErrRec} (hlegal : LegalScheme s)
    (hok : (iriSetFromString iriNew (s ++ "://".toList ++ x) err).status = taOk) :
    ¬ BadPort x ∧ (iriSetFromString iriNew (s ++ "://".toList ++ x) err).iri =
      { scheme := some s, user := authUser x, host := some (authHost x),
        port := (authPort x).getD 0, path := authPath x, query := queryOf x,
        fragment := fragmentOf x } := by
  rw [iriSetFromString_authority hlegal] at hok ⊢
  have hbad : ¬ BadPort x := by
    intro hbad
    simp [hbad, iriFail, taOk, taError] at hok
  exact ⟨hbad, by simp [hbad, iriNew]⟩

/-- The printed text of the slices, with what must be behind the user. -/
lemma iriToString_slices (s x : Str) :
    iriToString
      { scheme := some s, user := authUser x, host := some (authHost x),
        port := (authPort x).getD 0, path := authPath x, query := queryOf x,
        fragment := fragmentOf x } = s ++ "://".toList ++ x ↔
      authHost x ++ ((if (authPort x).getD 0 ≠ 0 then ':' :: sprintfInt ((authPort x).getD 0)
        else []) ++ (slashText x ++ markText x)) = authRest x := by
  conv_lhs => rhs; rw [← user_authRest x]
  rw [← query_fragment_text, ← authPath_getD]
  simp [iriToString, Iri.userText, Iri.portText, Iri.suffixText, Iri.queryText, Iri.fragmentText]

/-- **Encoding undoes decoding** for an accepted string with an authority exactly when the slices
that the parser finds tile it.

**Proof sketch.** The printed text is the string with its text behind the user replaced by the
slices host, port, path and the rest. Without a port the host ends at a mark that a later slice
starts with; with one, the host and the digits tile the front in any case. -/
theorem iri_reprint_iff {s x : Str} {err : ErrRec} (hs : ':' ∉ s)
    (hok : (iriSetFromString iriNew (s ++ "://".toList ++ x) err).status = taOk)
    (hport : CanonicalPort x) :
    iriToString (iriSetFromString iriNew (s ++ "://".toList ++ x) err).iri =
      s ++ "://".toList ++ x ↔ Tiles x := by
  have htext : s ++ "://".toList ++ x = s ++ ':' :: '/' :: '/' :: x := by simp
  have hlegal : LegalScheme s := legalScheme_of_accepted hs (htext ▸ hok)
  obtain ⟨hbad, hiri⟩ := iri_accepted hlegal hok
  rw [hiri, iriToString_slices]
  unfold Tiles
  cases hscan : scanPort (authRest x) with
  | none =>
    have hdigits : portDigits x = none := by rw [portDigits, hscan, Option.map_none]
    have htail : portTail x = none := by rw [portTail, hscan, Option.map_none]
    have hzero : (authPort x).getD 0 = 0 := by simp [authPort, hdigits]
    rw [htail, hzero, ← tiles_without_port hscan]
    simp
  | some portMark =>
    have hdigits : portDigits x = some (portMark.tail.takeWhile isdigit) := by
      rw [portDigits, hscan, Option.map_some]
    have htail : portTail x = some (portMark.tail.dropWhile isdigit) := by
      rw [portTail, hscan, Option.map_some]
    obtain ⟨n, hpos, hmax, hd⟩ := hport _ hdigits
    have hn : (authPort x).getD 0 = n := by
      rw [authPort, hdigits, hd, Option.map_some, atoi_sprintfInt (by omega) (by omega)]
      rfl
    rw [htail, hn, if_pos (by omega), ← hd]
    exact tiles_with_port hdigits htail _

/-- A string with every component tiles. -/
theorem iri_reprint_sample :
    iriToString (iriSetFromString iriNew
        ("xmpp".toList ++ "://".toList ++ "user@host:5222/r?q#f".toList) none).iri =
      "xmpp".toList ++ "://".toList ++ "user@host:5222/r?q#f".toList ↔
      Tiles "user@host:5222/r?q#f".toList := by
  refine iri_reprint_iff (by decide) (by decide) ?_
  intro d hd
  obtain rfl : "5222".toList = d := Option.some.inj ((by decide : some _ = _).symm.trans hd)
  exact ⟨5222, by decide, by decide, by decide⟩

/-- **Printing moves the path**: `"a://h/p?q"` is accepted without a port, and printed as
`"a://h/p/p?q"`. -/
theorem iri_reprint_path_query :
    ∃ s x, ':' ∉ s ∧ s ++ "://".toList ++ x = "a://h/p?q".toList ∧
      (iriSetFromString iriNew (s ++ "://".toList ++ x) none).status = taOk ∧ CanonicalPort x ∧
      iriToString (iriSetFromString iriNew (s ++ "://".toList ++ x) none).iri ≠
        s ++ "://".toList ++ x := by
  refine ⟨"a".toList, "h/p?q".toList, by decide, rfl, by decide, ?_, by decide⟩
  intro d hd
  have hnone : portDigits "h/p?q".toList = none := by decide
  rw [hnone] at hd
  cases hd

/-! ## Without an authority section -/

/-- The text before the first mark and the text from it on. -/
lemma before_mark_append (x : Str) :
    (if '?' ∈ x then Scan.before '?' x else Scan.before '#' x) ++ markText x = x := by
  unfold markText
  by_cases hq : '?' ∈ x
  · simp [hq, Scan.before_append_cons_after hq]
  · by_cases hf : '#' ∈ x
    · simp [hq, hf, Scan.before_append_cons_after hf]
    · simp [hq, hf]

/-- **Opaque IRIs are printed as they were read.** Without two slashes behind the first `':'`, a
string is accepted exactly when it has a legal scheme, and path, query and fragment tile what is
behind it.

**Proof sketch.** Without the two slashes no authority is read, so the verdict is that on the
scheme, and what is printed is the scheme, the path, the query and the fragment, which make up
the string. -/
theorem iri_opaque_reprint {string : Str} (err : ErrRec)
    (hslashes : ¬ "//".toList <+: Scan.after ':' string) :
    ((iriSetFromString iriNew string err).status = taOk ↔
      ':' ∈ string ∧ LegalScheme (Scan.before ':' string)) ∧
    ((iriSetFromString iriNew string err).status = taOk →
      iriToString (iriSetFromString iriNew string err).iri = string) := by
  have hnone : authorityText string = none := authorityText_eq_none_iff.mpr hslashes
  have hverdict : (iriSetFromString iriNew string err).status = taOk ↔ HasScheme string := by
    rw [status_eq_taOk_iff, hnone]
    simp
  refine ⟨hverdict, ?_⟩
  intro hok
  have hs : HasScheme string := hverdict.mp hok
  conv_rhs => rw [hs.eq_opaque, ← before_mark_append (Scan.after ':' string),
    ← query_fragment_text]
  rw [hs.eq_opaque, iriSetFromString_opaque hs.2 iriNew err hslashes, ← hs.eq_opaque]
  simp [iriToString, iriNew, Iri.userText, Iri.portText, Iri.suffixText, Iri.queryText,
    Iri.fragmentText]

/-- A `'#'` before the `'?'` stays in the path. -/
theorem iri_opaque_reprint_tag :
    ((iriSetFromString iriNew "tag:a#b?c#d?".toList none).status = taOk ↔
      ':' ∈ "tag:a#b?c#d?".toList ∧ LegalScheme (Scan.before ':' "tag:a#b?c#d?".toList)) ∧
    ((iriSetFromString iriNew "tag:a#b?c#d?".toList none).status = taOk →
      iriToString (iriSetFromString iriNew "tag:a#b?c#d?".toList none).iri =
        "tag:a#b?c#d?".toList) :=
  iri_opaque_reprint none (by decide)

end Taningia
