import Taningia.Iri.Basic

set_option relaxedAutoImplicit false
set_option autoImplicit false

/-!
# What the IRI parser reads

The parser compares pointers into one string. This file says which letters of the string each
component gets, so that the results about the parser need no pointers. The text behind `"//"` is
called `x`, and every component of the authority is a function of `x`.

## Main definitions

* `Taningia.LegalScheme` — a letter followed by letters, digits, `'+'`, `'-'` and `'.'`.
* `Taningia.queryOf`, `Taningia.fragmentOf` — the two components behind the hierarchical part.
* `Taningia.authUser`, `Taningia.authHost`, `Taningia.authPort`, `Taningia.authPath` — the
  components of the authority section.
* `Taningia.HasScheme`, `Taningia.authorityText` — the shape of a whole string.

## Main results

* `Taningia.iriSetFromString_scheme` — the parser behind a legal scheme.
* `Taningia.iriSetFromString_authority` — the parser on `scheme://x`.
* `Taningia.iriSetFromString_opaque` — the parser on `scheme:x` without the two slashes.
* `Taningia.status_eq_taOk_iff` — the strings that are accepted.
-/

namespace Taningia

/-! ## The scheme -/

/-- A letter that the loop over the scheme accepts. -/
def schemeChar (c : Char) : Bool := isalnum c || c == '-' || c == '+' || c == '.'

/-- A letter followed by letters, digits, `'+'`, `'-'` and `'.'`. -/
def LegalScheme (s : Str) : Prop := s.head?.any isalpha = true ∧ ∀ c ∈ s, schemeChar c = true

instance (s : Str) : Decidable (LegalScheme s) :=
  decidable_of_iff ((s.head?.any isalpha && s.all schemeChar) = true) (by simp [LegalScheme])

/-- The test of the loop over the scheme, negated. -/
lemma not_schemeChar (c : Char) :
    (!isalnum c && !(c == '-' || c == '+' || c == '.')) = !schemeChar c := by
  simp only [schemeChar, Bool.not_or, Bool.and_assoc]

/-- The loop over the scheme passes legal letters up to the colon. -/
lemma scanScheme_append {s : Str} (rest : Str) (hs : ∀ c ∈ s, schemeChar c = true) :
    scanScheme (s ++ ':' :: rest) = some (':' :: rest) := by
  induction s with
  | nil => simp [scanScheme]
  | cons c s ih =>
    have hc : schemeChar c = true := hs c (by simp)
    have hne : c ≠ ':' := by
      rintro rfl
      exact absurd hc (by decide)
    rw [List.cons_append, scanScheme, if_neg hne, not_schemeChar, hc]
    exact ih fun d hd => hs d (by simp [hd])

/-- The loop over the scheme stops at the first `':'`, behind legal letters only.

**Proof sketch.** Induction on the string: a colon ends the loop, a legal letter is put in front
of the scheme, and any other letter makes the loop fail. -/
lemma scanScheme_eq_some {string p : Str} (h : scanScheme string = some p) :
    ∃ s rest, string = s ++ ':' :: rest ∧ p = ':' :: rest ∧ ∀ c ∈ s, schemeChar c = true := by
  induction string with
  | nil => simp [scanScheme] at h
  | cons c string ih =>
    rw [scanScheme] at h
    by_cases hc : c = ':'
    · rw [if_pos hc, Option.some.injEq] at h
      exact ⟨[], string, by rw [hc]; rfl, by rw [← h, hc], by simp⟩
    · rw [if_neg hc, not_schemeChar] at h
      cases hok : schemeChar c with
      | false => simp [hok] at h
      | true =>
        simp only [hok, Bool.not_true, Bool.false_eq_true, if_false] at h
        obtain ⟨s, rest, rfl, rfl, hs⟩ := ih h
        exact ⟨c :: s, rest, rfl, rfl, List.forall_mem_cons.mpr ⟨hok, hs⟩⟩

/-! ## Query and fragment -/

/-- The query: behind the first `'?'`, up to a `'#'`. -/
def queryOf (x : Str) : Option Str :=
  if '?' ∈ x then some (Scan.before '#' (Scan.after '?' x)) else none

/-- The fragment: behind the first `'#'` that follows the first `'?'`, if there is a `'?'`. -/
def fragmentOf (x : Str) : Option Str :=
  if '?' ∈ x then
    if '#' ∈ Scan.after '?' x then some (Scan.after '#' (Scan.after '?' x)) else none
  else if '#' ∈ x then some (Scan.after '#' x) else none

/-- Copying up to the first occurrence of a letter. -/
lemma strndup_ptrDiff_after {c : Char} {s : Str} (h : c ∈ s) :
    strndup s (ptrDiff (c :: Scan.after c s) s) = Scan.before c s := by
  have hsplit := Scan.before_append_cons_after h
  conv_lhs => rw [← hsplit]
  rw [Scan.after_append_cons _ (Scan.not_mem_before c s), ptrDiff_append, strndup_append]

/-- A letter that is no delimiter is passed over. -/
lemma findDelimiters_cons {c : Char} (x : Str) (hq : c ≠ '?') (hf : c ≠ '#') :
    findDelimiters (c :: x) = findDelimiters x := by
  simp only [findDelimiters, strchr_cons_ne x hq, strchr_cons_ne x hf]

/-- The pointer to the query. -/
lemma findDelimiters_query (x : Str) :
    (findDelimiters x).query = if '?' ∈ x then some ('?' :: Scan.after '?' x) else none := by
  unfold findDelimiters
  rw [strchr_eq]
  by_cases hq : '?' ∈ x
  · simp only [if_pos hq]
    split <;> rfl
  · simp only [if_neg hq]
    split <;> rfl

/-- The pointer to the fragment, without a query. -/
lemma findDelimiters_fragment {x : Str} (hq : '?' ∉ x) :
    (findDelimiters x).fragment = if '#' ∈ x then some ('#' :: Scan.after '#' x) else none := by
  unfold findDelimiters
  rw [strchr_of_not_mem hq, strchr_eq]
  by_cases hf : '#' ∈ x
  · simp only [if_pos hf]
  · simp only [if_neg hf]

/-- The query that is stored. -/
lemma findDelimiters_queryText (x : Str) : (findDelimiters x).queryText = queryOf x := by
  unfold findDelimiters queryOf
  rw [strchr_eq]
  by_cases hq : '?' ∈ x
  · simp only [if_pos hq, List.tail_cons]
    rw [strchr_eq]
    by_cases hf : '#' ∈ Scan.after '?' x
    · simp only [if_pos hf, strndup_ptrDiff_after hf]
    · simp only [if_neg hf, Scan.before_of_not_mem hf]
  · simp only [if_neg hq]
    split <;> rfl

/-- The fragment that is stored.

**Proof sketch.** With a query the fragment is looked for behind it, otherwise in the whole
text. -/
lemma findDelimiters_fragmentText (x : Str) :
    (findDelimiters x).fragmentText = fragmentOf x := by
  unfold findDelimiters fragmentOf
  rw [strchr_eq]
  by_cases hq : '?' ∈ x
  · simp only [if_pos hq, List.tail_cons]
    rw [strchr_eq]
    by_cases hf : '#' ∈ Scan.after '?' x
    · simp only [if_pos hf, List.tail_cons]
    · simp only [if_neg hf]
  · simp only [if_neg hq]
    rw [strchr_eq]
    by_cases hf : '#' ∈ x
    · simp only [if_pos hf, List.tail_cons]
    · simp only [if_neg hf]

/-- The parser behind a legal scheme: the delimiters are looked for in all that follows, and the
scheme, the query and the fragment are stored before the rest is read.

**Proof sketch.** The first letter is a letter of the alphabet and all are legal, so the loop
stops at the colon. The delimiters are looked for from the colon on, which is none itself. -/
lemma iriSetFromString_scheme {s : Str} (hs : LegalScheme s) (iri : Iri) (rest : Str)
    (err : ErrRec) :
    iriSetFromString iri (s ++ ':' :: rest) err =
      parseIhierPart { iri with
          scheme := some s
          query := queryOf rest <|> iri.query
          fragment := fragmentOf rest <|> iri.fragment } err (findDelimiters rest) rest := by
  obtain ⟨c, cs, rfl⟩ : ∃ c cs, s = c :: cs := by
    cases s with
    | nil => exact absurd hs.1 (by simp)
    | cons c cs => exact ⟨c, cs, rfl⟩
  have halpha : isalpha c = true := by simpa using hs.1
  have hdelims : findDelimiters (':' :: rest) = findDelimiters rest :=
    findDelimiters_cons rest (by decide) (by decide)
  have hsize : ((c :: cs) ++ ':' :: rest).take
      (ptrDiff (':' :: rest) ((c :: cs) ++ ':' :: rest)).toNat = c :: cs := by
    rw [ptrDiff_append, Int.toNat_natCast, List.take_left]
  unfold iriSetFromString
  rw [scanScheme_append rest hs.2]
  simp only [List.cons_append, List.head?_cons, Option.any_some, halpha, Bool.not_true,
    Bool.false_eq_true, if_false, hdelims, List.tail_cons, findDelimiters_queryText,
    findDelimiters_fragmentText]
  rw [← List.cons_append, hsize]

/-! ## The authority section -/

/-- The user: the text before the first `'@'`, wherever that is. -/
def authUser (x : Str) : Option Str := if '@' ∈ x then some (Scan.before '@' x) else none

/-- Where the port and the host are looked for: behind the first `'@'`, if there is one. -/
def authRest (x : Str) : Str := if '@' ∈ x then Scan.after '@' x else x

/-- The letter that ends a host without a port: the first `'?'`, else the first `'#'`, else the
first `'/'`. -/
def hostMark (x : Str) : Char := if '?' ∈ x then '?' else if '#' ∈ x then '#' else '/'

/-- The host: up to the port, else up to the ending letter; a letter that comes before the `'@'`
ends nothing. -/
def authHost (x : Str) : Str :=
  match scanPort (authRest x) with
  | some _ => Scan.before ':' (authRest x)
  | none =>
    if hostMark x ∈ (authUser x).getD [] then authRest x
    else Scan.before (hostMark x) (authRest x)

/-- The digits behind the `':'` of the port. -/
def portDigits (x : Str) : Option Str :=
  (scanPort (authRest x)).map fun portMark => portMark.tail.takeWhile isdigit

/-- The port, when one was read. -/
def authPort (x : Str) : Option ℤ := (portDigits x).map atoi

/-- The letters of a text up to its first `'?'` or `'#'`. -/
def hierText (s : Str) : Str := s.take (pathLen s)

/-- The path: from the first `'/'`, wherever that is, up to the next `'?'` or `'#'`. -/
def authPath (x : Str) : Option Str :=
  if '/' ∈ x then some (hierText ('/' :: Scan.after '/' x)) else none

/-- The port section fails: there is a `':'` without a digit behind it. -/
def BadPort (x : Str) : Prop := portDigits x = some []

instance (x : Str) : Decidable (BadPort x) := inferInstanceAs (Decidable (_ = _))

/-- The mark at which the host ends. -/
lemma hostMark_cases (x : Str) : hostMark x = '/' ∨ hostMark x = '?' ∨ hostMark x = '#' := by
  unfold hostMark
  split_ifs <;> simp

/-- The pointer to the port splits the text at its first `':'`, before any `'?'` and `'#'`.

**Proof sketch.** Induction on the text for one direction, letter by letter; for the other,
induction on the part in front of the colon. -/
lemma scanPort_eq_some_iff {s e : Str} :
    scanPort s = some e ↔
      ∃ seg post, s = seg ++ ':' :: post ∧ e = ':' :: post ∧ ':' ∉ seg ∧ '?' ∉ seg ∧ '#' ∉ seg := by
  constructor
  · intro h
    induction s with
    | nil => simp [scanPort] at h
    | cons c s ih =>
      rw [scanPort] at h
      by_cases hc : c = ':'
      · rw [if_pos hc, Option.some.injEq] at h
        exact ⟨[], s, by rw [hc]; rfl, by rw [← h, hc], by simp⟩
      · rw [if_neg hc] at h
        by_cases hm : c = '?' ∨ c = '#'
        · simp [hm] at h
        · rw [if_neg hm] at h
          obtain ⟨seg, post, rfl, rfl, h1, h2, h3⟩ := ih h
          obtain ⟨hq, hf⟩ := not_or.mp hm
          refine ⟨c :: seg, post, rfl, rfl, ?_, ?_, ?_⟩
          · simpa using ⟨Ne.symm hc, h1⟩
          · simpa using ⟨Ne.symm hq, h2⟩
          · simpa using ⟨Ne.symm hf, h3⟩
  · rintro ⟨seg, post, rfl, rfl, h1, h2, h3⟩
    induction seg with
    | nil => simp [scanPort]
    | cons c seg ih =>
      simp only [List.mem_cons, not_or] at h1 h2 h3
      rw [List.cons_append, scanPort, if_neg (Ne.symm h1.1),
        if_neg (not_or.mpr ⟨Ne.symm h2.1, Ne.symm h3.1⟩)]
      exact ih h1.2 h2.2 h3.2

/-- There is no port exactly when no `':'` comes before the first `'?'` and `'#'`. -/
lemma scanPort_eq_none_iff {s : Str} : scanPort s = none ↔ ':' ∉ hierText s := by
  induction s with
  | nil => simp [scanPort, hierText]
  | cons c s ih =>
    rw [scanPort, hierText, pathLen]
    by_cases hc : c = ':'
    · subst hc
      simp
    · rw [if_neg hc]
      by_cases hm : c = '?' ∨ c = '#'
      · simp [hm]
      · rw [if_neg hm, if_neg hm, List.take_succ_cons, List.mem_cons, ih, hierText]
        simp [Ne.symm hc]

/-- The length of the host up to a pointer. -/
lemma hostLen_some (x : Str) (e : Str) :
    hostLen (some e) (strchr x '@') x = ptrDiff e (authRest x) := by
  rw [strchr_eq, authRest]
  by_cases hat : '@' ∈ x
  · simp only [if_pos hat, hostLen, ptrDiff, List.length_cons]
    push_cast
    omega
  · simp only [if_neg hat, hostLen]
    omega

/-- The text behind the user. -/
lemma behindUser_strchr (x : Str) : behindUser (strchr x '@') x = authRest x := by
  rw [strchr_eq, authRest]
  by_cases hat : '@' ∈ x
  · simp [hat, behindUser]
  · simp [hat, behindUser]

/-- Copying from behind the `'@'` up to a letter: when the letter comes before the `'@'`, the
length is negative and everything is copied.

**Proof sketch.** With an `'@'` the text is split there. A letter in front of it points before
the place copied from, so the length is negative, which `strndup` takes for a large one; a
letter behind it gives the part up to the letter. Without an `'@'` the copy starts at the text
itself. -/
lemma strndup_authRest {m : Char} {x : Str} (hm : m ≠ '@') (h : m ∈ x) :
    strndup (authRest x) (ptrDiff (m :: Scan.after m x) (authRest x)) =
      if m ∈ (authUser x).getD [] then authRest x else Scan.before m (authRest x) := by
  by_cases hat : '@' ∈ x
  · obtain ⟨u, r, rfl, hu⟩ := Scan.exists_split hat
    have hrest : authRest (u ++ '@' :: r) = r := by simp [authRest, hu]
    have huser : authUser (u ++ '@' :: r) = some u := by simp [authUser, hu]
    rw [hrest, huser, Option.getD_some]
    by_cases hmu : m ∈ u
    · rw [if_pos hmu, Scan.after_append_of_mem _ hmu]
      apply strndup_of_neg
      simp only [ptrDiff, List.length_cons, List.length_append]
      push_cast
      omega
    · have hmr : m ∈ r := by
        rcases List.mem_append.mp h with h | h
        · exact absurd h hmu
        · exact (List.mem_cons.mp h).resolve_left hm
      have hafter : Scan.after m (u ++ '@' :: r) = Scan.after m r := by
        rw [Scan.after_append _ hmu]
        exact Scan.after_append (s := ['@']) r (by simpa using hm)
      rw [if_neg hmu, hafter, strndup_ptrDiff_after hmr]
  · have hrest : authRest x = x := if_neg hat
    have huser : authUser x = none := if_neg hat
    rw [hrest, huser, strndup_ptrDiff_after h]
    simp

/-- **The host of a text without a port**, with the end chosen among query, fragment and path.

**Proof sketch.** The end is at the query, else at the fragment, else at the first slash, else
at the end of the text; the first three are `strndup_authRest` at this letter. -/
lemma strndup_hostEnd_none (x : Str) :
    strndup (authRest x) (hostLen (hostEnd none (findDelimiters x).query
      (findDelimiters x).fragment (strchr x '/')) (strchr x '@') x) =
      if hostMark x ∈ (authUser x).getD [] then authRest x
      else Scan.before (hostMark x) (authRest x) := by
  rw [findDelimiters_query]
  unfold hostMark
  by_cases hq : '?' ∈ x
  · simp only [if_pos hq, hostEnd]
    rw [hostLen_some, strndup_authRest (by decide) hq]
  · rw [findDelimiters_fragment hq]
    simp only [if_neg hq]
    by_cases hf : '#' ∈ x
    · simp only [if_pos hf, hostEnd]
      rw [hostLen_some, strndup_authRest (by decide) hf]
    · simp only [if_neg hf, hostEnd]
      rw [strchr_eq x '/']
      by_cases hp : '/' ∈ x
      · simp only [if_pos hp]
        rw [hostLen_some, strndup_authRest (by decide) hp]
      · have hrest : '/' ∉ authRest x := by
          intro h
          apply hp
          unfold authRest at h
          split at h
          · rename_i hat
            rw [← Scan.before_append_cons_after hat]
            simp [h]
          · exact h
        simp only [if_neg hp, hostLen]
        rw [strndup_of_neg (by omega), Scan.before_of_not_mem hrest, ite_self]

/-- The section behind the port stores the path and the host.

**Proof sketch.** The path starts at the first slash, so its test never fails. The host ends at
the port if there is one, and at the mark otherwise (`strndup_hostEnd_none`). -/
lemma parsePathHost_eq (iri : Iri) (err : ErrRec) (x : Str) :
    parsePathHost iri err (findDelimiters x) x (strchr x '@') (scanPort (authRest x)) =
      ⟨taOk, { iri with path := authPath x <|> iri.path, host := some (authHost x) }, err⟩ := by
  have hpath : ((strchr x '/').any fun path => path.head? != some '/') = false := by
    rw [strchr_eq]
    split <;> simp
  have hhost : strndup (authRest x) (hostLen (hostEnd (scanPort (authRest x))
      (findDelimiters x).query (findDelimiters x).fragment (strchr x '/')) (strchr x '@') x) =
      authHost x := by
    unfold authHost
    cases hport : scanPort (authRest x) with
    | none => exact strndup_hostEnd_none x
    | some e =>
      obtain ⟨seg, post, hseg, rfl, hcolon, -⟩ := scanPort_eq_some_iff.mp hport
      simp only [hostEnd]
      rw [hostLen_some, hseg, Scan.before_append_cons _ hcolon, ptrDiff_append, strndup_append]
  unfold parsePathHost
  simp only [hpath, Bool.false_eq_true, if_false, behindUser_strchr, hhost]
  rw [strchr_eq x '/', authPath]
  by_cases hp : '/' ∈ x
  · simp [hp, strndup, hierText]
  · simp [hp]

/-- **The authority section**: what it stores, and when it fails.

**Proof sketch.** The user is what is in front of the `'@'`. Where a colon is found before the
marks, the digits behind it are the port, and having none is the error; path and host are
`parsePathHost_eq`. -/
lemma parseAuthority_eq (iri : Iri) (err : ErrRec) (x : Str) :
    parseAuthority iri err (findDelimiters x) x =
      if BadPort x then iriFail { iri with user := authUser x <|> iri.user } "Invalid port number"
      else ⟨taOk, { iri with
        user := authUser x <|> iri.user
        port := (authPort x).getD iri.port
        path := authPath x <|> iri.path
        host := some (authHost x) }, err⟩ := by
  have huser : (strchr x '@').map (fun userinfo => strndup x (ptrDiff userinfo x)) =
      authUser x := by
    rw [strchr_eq, authUser]
    by_cases hat : '@' ∈ x
    · simp [hat, strndup_ptrDiff_after]
    · simp [hat]
  have hsection := fun iri => parsePathHost_eq iri err x
  unfold parseAuthority
  simp only [huser, behindUser_strchr]
  cases hport : scanPort (authRest x) with
  | none =>
    have hdigits : portDigits x = none := by rw [portDigits, hport, Option.map_none]
    have hbad : ¬ BadPort x := by simp [BadPort, hdigits]
    rw [hport] at hsection
    rw [if_neg hbad, authPort, hdigits]
    exact hsection _
  | some portMark =>
    have hdigits : portDigits x = some (portMark.tail.takeWhile isdigit) := by
      rw [portDigits, hport, Option.map_some]
    rw [hport] at hsection
    rw [authPort, hdigits]
    by_cases hnil : portMark.tail.takeWhile isdigit = []
    · have hbad : BadPort x := by rw [BadPort, hdigits, hnil]
      rw [if_pos hbad]
      simp only [hnil, List.length_nil, if_true]
    · have hbad : ¬ BadPort x := by simpa [BadPort, hdigits] using hnil
      rw [if_neg hbad, Option.map_some, Option.getD_some]
      simp only [List.length_eq_zero_iff, hnil, if_false, hsection]

/-- **The parser on `scheme://x`.**

**Proof sketch.** `iriSetFromString_scheme` and, behind the two slashes, `parseAuthority_eq`;
the delimiters of the text with the slashes are those of the text. -/
lemma iriSetFromString_authority {s : Str} (hs : LegalScheme s) (iri : Iri) (x : Str)
    (err : ErrRec) :
    iriSetFromString iri (s ++ "://".toList ++ x) err =
      if BadPort x then
        iriFail { iri with
          scheme := some s
          user := authUser x <|> iri.user
          query := queryOf x <|> iri.query
          fragment := fragmentOf x <|> iri.fragment } "Invalid port number"
      else ⟨taOk, {
        scheme := some s
        user := authUser x <|> iri.user
        host := some (authHost x)
        port := (authPort x).getD iri.port
        path := authPath x <|> iri.path
        query := queryOf x <|> iri.query
        fragment := fragmentOf x <|> iri.fragment }, err⟩ := by
  have htext : s ++ "://".toList ++ x = s ++ ':' :: '/' :: '/' :: x := by simp
  have hdelims : findDelimiters ('/' :: '/' :: x) = findDelimiters x := by
    rw [findDelimiters_cons _ (by decide) (by decide),
      findDelimiters_cons _ (by decide) (by decide)]
  have hquery : queryOf ('/' :: '/' :: x) = queryOf x := by
    rw [← findDelimiters_queryText, hdelims, findDelimiters_queryText]
  have hfragment : fragmentOf ('/' :: '/' :: x) = fragmentOf x := by
    rw [← findDelimiters_fragmentText, hdelims, findDelimiters_fragmentText]
  rw [htext, iriSetFromString_scheme hs, hdelims, hquery, hfragment]
  exact parseAuthority_eq _ err x

/-- **The parser on `scheme:x`** without the two slashes: everything up to the first `'?'`, or
without one up to the first `'#'`, is the path.

**Proof sketch.** `iriSetFromString_scheme`; what follows does not start with two slashes, so
the other branch copies up to the query, or to the fragment, or all of it. -/
lemma iriSetFromString_opaque {s : Str} (hs : LegalScheme s) (iri : Iri) {x : Str} (err : ErrRec)
    (hx : ¬ "//".toList <+: x) :
    iriSetFromString iri (s ++ ":".toList ++ x) err =
      ⟨taOk, { iri with
        scheme := some s
        path := some (if '?' ∈ x then Scan.before '?' x else Scan.before '#' x)
        query := queryOf x <|> iri.query
        fragment := fragmentOf x <|> iri.fragment }, err⟩ := by
  have htext : s ++ ":".toList ++ x = s ++ ':' :: x := by simp
  have hslash : ∀ y, x ≠ '/' :: '/' :: y := fun y hy => hx ⟨y, hy.symm⟩
  rw [htext, iriSetFromString_scheme hs]
  unfold parseIhierPart
  split
  · rename_i y
    exact absurd rfl (hslash y)
  · by_cases hq : '?' ∈ x
    · have hquery : (findDelimiters x).query = some ('?' :: Scan.after '?' x) := by
        rw [findDelimiters_query, if_pos hq]
      simp only [hquery, if_pos hq, strndup_ptrDiff_after hq]
    · have hquery : (findDelimiters x).query = none := by rw [findDelimiters_query, if_neg hq]
      by_cases hf : '#' ∈ x
      · have hfragment : (findDelimiters x).fragment = some ('#' :: Scan.after '#' x) := by
          rw [findDelimiters_fragment hq, if_pos hf]
        simp only [hquery, hfragment, if_neg hq, strndup_ptrDiff_after hf]
      · have hfragment : (findDelimiters x).fragment = none := by
          rw [findDelimiters_fragment hq, if_neg hf]
        simp only [hquery, hfragment, if_neg hq, Scan.before_of_not_mem hf]

/-! ## The shape of a string -/

/-- The text before the first `':'` is a legal scheme. -/
def HasScheme (string : Str) : Prop := ':' ∈ string ∧ LegalScheme (Scan.before ':' string)

instance (string : Str) : Decidable (HasScheme string) := inferInstanceAs (Decidable (_ ∧ _))

/-- The text behind the `"//"` that follows the first `':'`, if it does. -/
def authorityText (string : Str) : Option Str :=
  match Scan.after ':' string with
  | '/' :: '/' :: x => some x
  | _ => none

/-- The text behind the two slashes. -/
lemma authorityText_eq_some_iff {string x : Str} :
    authorityText string = some x ↔ Scan.after ':' string = "//".toList ++ x := by
  unfold authorityText
  split
  · rename_i y hy
    rw [hy]
    simp
  · rename_i hne
    constructor
    · intro h
      cases h
    · intro h
      exact absurd h (hne x)

/-- There is no such text without two slashes. -/
lemma authorityText_eq_none_iff {string : Str} :
    authorityText string = none ↔ ¬ "//".toList <+: Scan.after ':' string := by
  rw [← not_iff_not, not_not, ← ne_eq, Option.ne_none_iff_exists']
  simp only [authorityText_eq_some_iff]
  constructor
  · rintro ⟨x, hx⟩
    exact ⟨x, hx.symm⟩
  · rintro ⟨x, hx⟩
    exact ⟨x, hx.symm⟩

/-- A string without a legal scheme is rejected before anything is stored.

**Proof sketch.** The first letter is not one of the alphabet, or the loop over the scheme
fails; if it stopped at a colon, what is in front of it would be a legal scheme. -/
lemma iriSetFromString_no_scheme {string : Str} (h : ¬ HasScheme string) (iri : Iri)
    (err : ErrRec) : ∃ message, iriSetFromString iri string err = iriFail iri message := by
  unfold iriSetFromString
  split
  · exact ⟨_, rfl⟩
  · rename_i halpha
    split
    · exact ⟨_, rfl⟩
    · rename_i p hscan
      exfalso
      apply h
      obtain ⟨s, rest, rfl, -, hchars⟩ := scanScheme_eq_some hscan
      have hs : ':' ∉ s := fun hmem => absurd (hchars _ hmem) (by decide)
      refine ⟨by simp, ?_⟩
      rw [Scan.before_append_cons _ hs]
      refine ⟨?_, hchars⟩
      cases s with
      | nil => simp [isalpha] at halpha
      | cons c s => simpa using halpha

/-- A string with a legal scheme and an authority section. -/
lemma HasScheme.eq_authority {string x : Str} (h : HasScheme string)
    (hx : authorityText string = some x) :
    string = Scan.before ':' string ++ "://".toList ++ x := by
  have hsplit := Scan.before_append_cons_after h.1
  rw [authorityText_eq_some_iff.mp hx] at hsplit
  rw [List.append_assoc]
  exact hsplit.symm

/-- A string with a legal scheme and no authority section. -/
lemma HasScheme.eq_opaque {string : Str} (h : HasScheme string) :
    string = Scan.before ':' string ++ ":".toList ++ Scan.after ':' string := by
  rw [List.append_assoc]
  exact (Scan.before_append_cons_after h.1).symm

/-- **The verdict**: a legal scheme, and no authority section with a bad port.

**Proof sketch.** With a legal scheme the string is that of `iriSetFromString_authority` or of
`iriSetFromString_opaque`, which say when they fail; without one it is rejected. -/
lemma status_eq_taOk_iff (iri : Iri) (string : Str) (err : ErrRec) :
    (iriSetFromString iri string err).status = taOk ↔
      HasScheme string ∧ ∀ x, authorityText string = some x → ¬ BadPort x := by
  by_cases hs : HasScheme string
  · cases hx : authorityText string with
    | some x =>
      rw [hs.eq_authority hx, iriSetFromString_authority hs.2, ← hs.eq_authority hx]
      by_cases hbad : BadPort x
      · simp [hbad, iriFail, taOk, taError]
      · simp [hbad, hs]
    | none =>
      rw [hs.eq_opaque, iriSetFromString_opaque hs.2 iri err (authorityText_eq_none_iff.mp hx),
        ← hs.eq_opaque]
      simp [hs]
  · obtain ⟨message, hfail⟩ := iriSetFromString_no_scheme hs iri err
    rw [hfail]
    simp [hs, iriFail, taOk, taError]

end Taningia
