import Taningia.Iri.Parse

set_option relaxedAutoImplicit false
set_option autoImplicit false

/-!
# Printing an IRI and reading it back

For a well-formed record, reading the printed text gives the record back exactly when no component
holds a delimiter that one of the parser's scans takes for an earlier one, and a path in front of a
query or a fragment is separated from the host by a port.

## Main definitions

* `Taningia.WellFormedIri` — the records that the parser should give back.
* `Taningia.ScansApart` — the condition under which it does.

## Main results

* `Taningia.iri_roundTrip_iff` — the round trip holds exactly under the condition.
* `Taningia.iri_roundTrip_path_query` — a path in front of a query goes into the host.
-/

namespace Taningia

/-- The record of an IRI with an authority: a non-empty host, and a path that is absent or starts
with a `'/'`. -/
structure AuthorityShape (iri : Iri) (host : Str) : Prop where
  host_eq : iri.host = some host
  host_ne : host ≠ []
  host_letters : '/' ∉ host ∧ '?' ∉ host ∧ '#' ∉ host ∧ '@' ∉ host ∧ ':' ∉ host
  user_letters : ∀ user, iri.user = some user → '/' ∉ user ∧ '?' ∉ user ∧ '#' ∉ user ∧ '@' ∉ user
  port_range : 0 ≤ iri.port ∧ iri.port ≤ 65535
  path_head : ∀ path, iri.path = some path → path.head? = some '/'

/-- The record of an IRI without an authority. -/
structure OpaqueShape (iri : Iri) (path : Str) : Prop where
  host_eq : iri.host = none
  user_eq : iri.user = none
  port_eq : iri.port = 0
  path_eq : iri.path = some path
  path_head : ¬ "//".toList <+: path

/-- A well-formed record. -/
structure WellFormedIri (iri : Iri) : Prop where
  scheme : ∃ scheme, iri.scheme = some scheme ∧ LegalScheme scheme
  shape : (∃ host, AuthorityShape iri host) ∨ (∃ path, OpaqueShape iri path)
  path_letters : ∀ path, iri.path = some path → '?' ∉ path ∧ '#' ∉ path
  query_letters : ∀ query, iri.query = some query → '#' ∉ query

/-- The scans of the parser keep the components apart: a fragment holds no `'?'` unless a query is
in front of it; and with a host, a letter `'@'` comes only behind a user, a path holds no `':'`
unless a port is in front of it, a letter `'/'` in the query or the fragment comes only behind a
path, and a path in front of a query or a fragment comes only behind a port. -/
structure ScansApart (iri : Iri) : Prop where
  query : iri.query = none → '?' ∉ iri.fragment.getD []
  user : iri.host ≠ none → iri.user = none → '@' ∉ iri.suffixText
  port : iri.host ≠ none → iri.port = 0 → ':' ∉ iri.path.getD []
  path : iri.host ≠ none → iri.path = none → '/' ∉ iri.suffixText
  host : iri.host ≠ none → iri.port = 0 → iri.path ≠ none →
    iri.query = none ∧ iri.fragment = none

/-! ## Scanning past a clean front -/

/-- A part without a query mark is in front of the query. -/
lemma queryOf_append {s : Str} (t : Str) (hq : '?' ∉ s) : queryOf (s ++ t) = queryOf t := by
  simp [queryOf, hq, Scan.after_append]

/-- A part without a mark is in front of the fragment. -/
lemma fragmentOf_append {s : Str} (t : Str) (hq : '?' ∉ s) (hf : '#' ∉ s) :
    fragmentOf (s ++ t) = fragmentOf t := by
  simp [fragmentOf, hq, hf, Scan.after_append]

/-- A part without a mark belongs to the path. -/
lemma pathLen_append {s : Str} (t : Str) (hq : '?' ∉ s) (hf : '#' ∉ s) :
    pathLen (s ++ t) = s.length + pathLen t := by
  induction s with
  | nil => simp
  | cons c s ih =>
    simp only [List.mem_cons, not_or] at hq hf
    rw [List.cons_append, pathLen, if_neg (not_or.mpr ⟨Ne.symm hq.1, Ne.symm hf.1⟩),
      ih hq.2 hf.2, List.length_cons]
    omega

/-- A part without a mark is in the text of the path. -/
lemma hierText_append {s : Str} (t : Str) (hq : '?' ∉ s) (hf : '#' ∉ s) :
    hierText (s ++ t) = s ++ hierText t := by
  rw [hierText, pathLen_append t hq hf, List.take_length_add_append, hierText]

/-- Nothing hierarchical follows the query or the fragment. -/
lemma hierText_queryText_fragmentText (iri : Iri) :
    hierText (iri.queryText ++ iri.fragmentText) = [] := by
  unfold Iri.queryText Iri.fragmentText
  cases iri.query with
  | none => cases iri.fragment <;> simp [hierText, pathLen]
  | some query => simp [hierText, pathLen]

/-! ## Query and fragment -/

/-- The query and the fragment are read back exactly when a fragment without a query in front of it
holds no `'?'`.

**Proof sketch.** With a query the fragment is looked for behind it, and the query holds no
`'#'`. Without one a `'?'` of the fragment would be taken for the mark of a query. -/
lemma query_fragment_iff {iri : Iri} {s : Str} (hq : '?' ∉ s) (hf : '#' ∉ s)
    (hquery : ∀ query, iri.query = some query → '#' ∉ query) :
    (queryOf (s ++ (iri.queryText ++ iri.fragmentText)) = iri.query ∧
      fragmentOf (s ++ (iri.queryText ++ iri.fragmentText)) = iri.fragment) ↔
      (iri.query = none → '?' ∉ iri.fragment.getD []) := by
  rw [queryOf_append _ hq, fragmentOf_append _ hq hf]
  unfold Iri.queryText Iri.fragmentText
  cases hQ : iri.query with
  | none =>
    cases iri.fragment with
    | none => simp [queryOf, fragmentOf]
    | some fragment =>
      by_cases hmark : '?' ∈ fragment
      · simp [queryOf, hmark]
      · simp [queryOf, fragmentOf, hmark]
  | some query =>
    have hno : '#' ∉ query := hquery query hQ
    cases iri.fragment with
    | none => simp [queryOf, fragmentOf, hno]
    | some fragment => simp [queryOf, fragmentOf, hno]

/-! ## The authority of a printed record

The text behind `"//"` is `userText ++ behindText host`: the user, and what is behind it. -/

/-- What is printed behind the user. -/
def Iri.behindText (iri : Iri) (host : Str) : Str := host ++ (iri.portText ++ iri.suffixText)

/-- What is printed of a record with an authority. -/
lemma AuthorityShape.iriToString_eq {iri : Iri} {host scheme : Str} (h : AuthorityShape iri host)
    (hs : iri.scheme = some scheme) :
    iriToString iri = scheme ++ "://".toList ++ (iri.userText ++ iri.behindText host) := by
  simp [iriToString, hs, h.host_eq, Iri.behindText]

/-- The port is its colon and digits. -/
lemma not_mem_portText {iri : Iri} (hport : 0 ≤ iri.port) {c : Char} (hc : c ≠ ':')
    (hdigit : isdigit c = false) : c ∉ iri.portText := by
  unfold Iri.portText
  intro h
  split at h
  · rcases List.mem_cons.mp h with rfl | h
    · exact hc rfl
    · have hd := isdigit_of_mem_sprintfInt hport h
      simp [hdigit] at hd
  · simp at h

/-- The letters in front of the suffix are no delimiters of the path, the query or the fragment.

**Proof sketch.** The user and the host have none of these letters by their shape, and a port
has only its colon and digits. -/
lemma AuthorityShape.front_letters {iri : Iri} {host : Str} (h : AuthorityShape iri host)
    {c : Char} (hc : c = '/' ∨ c = '?' ∨ c = '#') :
    c ∉ iri.userText ∧ c ∉ host ∧ c ∉ iri.portText := by
  have hport : c ∉ iri.portText := by
    refine not_mem_portText h.port_range.1 ?_ ?_ <;> rcases hc with rfl | rfl | rfl <;> decide
  have huser : c ∉ iri.userText := by
    unfold Iri.userText
    cases huser : iri.user with
    | none => simp
    | some user =>
      obtain ⟨h1, h2, h3, -⟩ := h.user_letters user huser
      rcases hc with rfl | rfl | rfl <;> simpa
  obtain ⟨h1, h2, h3, -⟩ := h.host_letters
  refine ⟨huser, ?_, hport⟩
  rcases hc with rfl | rfl | rfl <;> assumption

/-- The user is read back exactly when nothing printed has an `'@'` without a user in front. -/
lemma AuthorityShape.authUser_iff {iri : Iri} {host : Str} (h : AuthorityShape iri host) :
    authUser (iri.userText ++ iri.behindText host) = iri.user ↔
      (iri.user = none → '@' ∉ iri.suffixText) := by
  have hport : '@' ∉ iri.portText := not_mem_portText h.port_range.1 (by decide) (by decide)
  unfold Iri.userText
  cases huser : iri.user with
  | none => simp [authUser, Iri.behindText, h.host_letters.2.2.2.1, hport]
  | some user =>
    have hat : '@' ∉ user := (h.user_letters user huser).2.2.2
    simp [authUser, hat]

/-- With the user read back, the port and the host are looked for behind it. -/
lemma AuthorityShape.authRest_eq {iri : Iri} {host : Str} (h : AuthorityShape iri host)
    (hsuffix : iri.user = none → '@' ∉ iri.suffixText) :
    authRest (iri.userText ++ iri.behindText host) = iri.behindText host := by
  have hport : '@' ∉ iri.portText := not_mem_portText h.port_range.1 (by decide) (by decide)
  unfold Iri.userText
  cases huser : iri.user with
  | none => simp [authRest, Iri.behindText, h.host_letters.2.2.2.1, hport, hsuffix huser]
  | some user =>
    have hat : '@' ∉ user := (h.user_letters user huser).2.2.2
    simp [authRest, hat]

/-- The path, absent or not, has no mark of the query or the fragment. -/
lemma WellFormedIri.path_getD_letters {iri : Iri} (hwf : WellFormedIri iri) :
    '?' ∉ iri.path.getD [] ∧ '#' ∉ iri.path.getD [] := by
  cases hpath : iri.path with
  | none => simp
  | some path => exact hwf.path_letters path hpath

/-- A path behind an authority starts with a slash. -/
lemma AuthorityShape.path_cons {iri : Iri} {host path : Str} (h : AuthorityShape iri host)
    (hpath : iri.path = some path) : ∃ rest, path = '/' :: rest := by
  have hhead := h.path_head path hpath
  cases path with
  | nil => cases hhead
  | cons c rest =>
    obtain rfl := Option.some.inj hhead
    exact ⟨rest, rfl⟩

/-- The text of the path ends at the query and the fragment. -/
lemma WellFormedIri.hierText_suffixText {iri : Iri} (hwf : WellFormedIri iri) :
    hierText iri.suffixText = iri.path.getD [] := by
  obtain ⟨hq, hf⟩ := hwf.path_getD_letters
  rw [Iri.suffixText, List.append_assoc, hierText_append _ hq hf,
    hierText_queryText_fragmentText, List.append_nil]

/-- A suffix starts with the first letter of its first component. -/
lemma AuthorityShape.head_suffixText {iri : Iri} {host : Str} (h : AuthorityShape iri host) :
    iri.suffixText.head? =
      if iri.path ≠ none then some '/'
      else if iri.query ≠ none then some '?'
      else if iri.fragment ≠ none then some '#' else none := by
  unfold Iri.suffixText Iri.queryText Iri.fragmentText
  cases hpath : iri.path with
  | none => cases iri.query <;> cases iri.fragment <;> simp
  | some path =>
    obtain ⟨rest, rfl⟩ := h.path_cons hpath
    simp

/-- The port digits end where they were printed to end.

**Proof sketch.** All letters of the port are digits, and the suffix is empty or starts with a
delimiter. -/
lemma AuthorityShape.takeWhile_isdigit {iri : Iri} {host : Str} (h : AuthorityShape iri host) :
    (sprintfInt iri.port ++ iri.suffixText).takeWhile isdigit = sprintfInt iri.port := by
  have hdigits : ∀ c ∈ sprintfInt iri.port, isdigit c = true := fun c hc =>
    isdigit_of_mem_sprintfInt h.port_range.1 hc
  have hsuffix : iri.suffixText.takeWhile isdigit = [] := by
    have hhead := h.head_suffixText
    cases htext : iri.suffixText with
    | nil => rfl
    | cons c rest =>
      rw [htext, List.head?_cons] at hhead
      have hc : c = '/' ∨ c = '?' ∨ c = '#' := by
        split_ifs at hhead <;> simp_all
      have hdigit : isdigit c = false := by rcases hc with rfl | rfl | rfl <;> decide
      exact List.takeWhile_cons_of_neg (by simp [hdigit])
  rw [List.takeWhile_append_of_pos hdigits, hsuffix, List.append_nil]

/-- A printed port is read back, with the host in front of it.

**Proof sketch.** The host has no colon, so the first colon behind the user is the one of the
port; the digits behind it are those printed, which `atoi` reads back in the range of a port. -/
lemma AuthorityShape.port_read {iri : Iri} {host x : Str} (h : AuthorityShape iri host)
    (hrest : authRest x = iri.behindText host) (hport : iri.port ≠ 0) :
    ¬ BadPort x ∧ authHost x = host ∧ authPort x = some iri.port := by
  have hno : ':' ∉ host := h.host_letters.2.2.2.2
  have htext : iri.behindText host = host ++ ':' :: (sprintfInt iri.port ++ iri.suffixText) := by
    simp [Iri.behindText, Iri.portText, hport]
  have hscan : scanPort (authRest x) = some (':' :: (sprintfInt iri.port ++ iri.suffixText)) :=
    scanPort_eq_some_iff.mpr
      ⟨host, _, hrest.trans htext, rfl, hno, h.host_letters.2.1, h.host_letters.2.2.1⟩
  have hdigits : portDigits x = some (sprintfInt iri.port) := by
    rw [portDigits, hscan, Option.map_some, List.tail_cons, h.takeWhile_isdigit]
  have hrange := h.port_range
  refine ⟨?_, ?_, ?_⟩
  · rw [BadPort, hdigits, Option.some.injEq]
    exact sprintfInt_ne_nil iri.port
  · rw [authHost, hscan, hrest, htext]
    exact Scan.before_append_cons _ hno
  · rw [authPort, hdigits, Option.map_some, atoi_sprintfInt hrange.1 (by omega)]

/-- Without a port, a `':'` of the path ends the host behind its true end.

**Proof sketch.** The colon found is in the suffix, so the host that is read continues behind
its true end, up to this colon. -/
lemma AuthorityShape.authHost_ne {iri : Iri} {host x : Str} (h : AuthorityShape iri host)
    (hrest : authRest x = iri.behindText host) (hport : iri.port = 0)
    (hcolon : scanPort (authRest x) ≠ none) : authHost x ≠ host := by
  have htext : iri.behindText host = host ++ iri.suffixText := by
    simp [Iri.behindText, Iri.portText, hport]
  obtain ⟨portMark, hscan⟩ := Option.ne_none_iff_exists'.mp hcolon
  have hhost : authHost x = host ++ Scan.before ':' iri.suffixText := by
    rw [authHost, hscan, hrest, htext]
    exact Scan.before_append _ h.host_letters.2.2.2.2
  rw [hhost]
  intro heq
  rcases Scan.before_eq_nil_iff.mp (List.append_right_eq_self.mp heq) with hnil | hhead
  · rw [hrest, htext, hnil, List.append_nil] at hscan
    obtain ⟨seg, post, hsplit, -⟩ := scanPort_eq_some_iff.mp hscan
    exact h.host_letters.2.2.2.2 (hsplit ▸ by simp)
  · rw [h.head_suffixText] at hhead
    split_ifs at hhead <;> simp_all

/-- Without a `':'` behind the user, the host is read up to the mark that ends it.

**Proof sketch.** The mark is neither in the user nor in the host, so the copy starts at the
host and passes it. -/
lemma AuthorityShape.authHost_eq {iri : Iri} {host x : Str} (h : AuthorityShape iri host)
    (huser : authUser x = iri.user) (hrest : authRest x = iri.behindText host)
    (hport : iri.port = 0) (hscan : scanPort (authRest x) = none) :
    authHost x = host ++ Scan.before (hostMark x) iri.suffixText := by
  have hfront := h.front_letters (hostMark_cases x)
  have hin : hostMark x ∉ iri.user.getD [] := by
    intro hmem
    apply hfront.1
    unfold Iri.userText
    cases hu : iri.user with
    | none => simp [hu] at hmem
    | some user =>
      rw [hu, Option.getD_some] at hmem
      exact List.mem_append_left _ hmem
  have htext : iri.behindText host = host ++ iri.suffixText := by
    simp [Iri.behindText, Iri.portText, hport]
  rw [authHost, hscan, huser, hrest, htext]
  simp only [if_neg hin]
  exact Scan.before_append _ hfront.2.1

/-- The mark that ends the host of a printed record, when a fragment without a query in front of it
holds no `'?'`.

**Proof sketch.** The letters in front of the suffix and the path have no mark, so a query or a
fragment decides; a fragment holds no `'?'` where there is no query. -/
lemma WellFormedIri.hostMark_eq {iri : Iri} (hwf : WellFormedIri iri) {host : Str}
    (h : AuthorityShape iri host) (hcond : iri.query = none → '?' ∉ iri.fragment.getD []) :
    hostMark (iri.userText ++ iri.behindText host) =
      if iri.query ≠ none then '?' else if iri.fragment ≠ none then '#' else '/' := by
  have hpath := hwf.path_getD_letters
  obtain ⟨hq1, hq2, hq3⟩ := h.front_letters (c := '?') (by simp)
  obtain ⟨hf1, hf2, hf3⟩ := h.front_letters (c := '#') (by simp)
  unfold hostMark Iri.behindText Iri.suffixText Iri.queryText Iri.fragmentText
  cases hquery : iri.query with
  | none =>
    have hno : '?' ∉ iri.fragment.getD [] := hcond hquery
    cases hfragment : iri.fragment with
    | none => simp [hq1, hq2, hq3, hf1, hf2, hf3, hpath]
    | some fragment =>
      rw [hfragment, Option.getD_some] at hno
      simp [hq1, hq2, hq3, hf1, hf2, hf3, hpath, hno]
  | some query => simp

/-- **Host and port** are read back exactly when, without a port, no path has a `':'` and no path
is in front of a query or a fragment.

**Proof sketch.** A port that is printed is read back with the host (`port_read`). Without a
port a colon of the suffix gives another host (`authHost_ne`); without one the host is read up
to its mark (`authHost_eq`), and ends where it should exactly when the suffix is empty or starts
with this mark. -/
lemma WellFormedIri.host_port_iff {iri : Iri} (hwf : WellFormedIri iri) {host x : Str}
    (h : AuthorityShape iri host) (hx : x = iri.userText ++ iri.behindText host)
    (huser : authUser x = iri.user) (hcond : iri.query = none → '?' ∉ iri.fragment.getD []) :
    (¬ BadPort x ∧ authHost x = host ∧ (authPort x).getD 0 = iri.port) ↔
      ((iri.port = 0 → ':' ∉ iri.path.getD []) ∧
        (iri.port = 0 → iri.path ≠ none → iri.query = none ∧ iri.fragment = none)) := by
  have hrest : authRest x = iri.behindText host := by
    rw [hx]
    exact h.authRest_eq (h.authUser_iff.mp (hx ▸ huser))
  by_cases hport : iri.port = 0
  · have htext : authRest x = host ++ iri.suffixText := by
      simp [hrest, Iri.behindText, Iri.portText, hport]
    have hcolon : scanPort (authRest x) = none ↔ ':' ∉ iri.path.getD [] := by
      rw [scanPort_eq_none_iff, htext, hierText_append _ h.host_letters.2.1 h.host_letters.2.2.1,
        hwf.hierText_suffixText, List.mem_append, not_or]
      exact and_iff_right h.host_letters.2.2.2.2
    simp only [hport, forall_const]
    by_cases hscan : scanPort (authRest x) = none
    · have hdigits : portDigits x = none := by rw [portDigits, hscan, Option.map_none]
      have hhost : authHost x = host ↔
          (iri.path ≠ none → iri.query = none ∧ iri.fragment = none) := by
        rw [h.authHost_eq huser hrest hport hscan, List.append_right_eq_self,
          Scan.before_eq_nil_iff, ← List.head?_eq_none_iff, h.head_suffixText, hx,
          hwf.hostMark_eq h hcond]
        cases iri.path <;> cases iri.query <;> cases iri.fragment <;> simp
      have hbad : ¬ BadPort x := by simp [BadPort, hdigits]
      have hzero : (authPort x).getD 0 = 0 := by simp [authPort, hdigits]
      simp [hbad, hzero, hhost, hcolon.mp hscan]
    · have hne := h.authHost_ne hrest hport hscan
      have hmem := mt hcolon.mpr hscan
      constructor
      · rintro ⟨-, heq, -⟩
        exact absurd heq hne
      · rintro ⟨hno, -⟩
        exact absurd hno hmem
  · obtain ⟨hbad, hhost, hread⟩ := h.port_read hrest hport
    simp [hbad, hhost, hread, hport]

/-- The path is read back exactly when nothing printed has a `'/'` without a path in front.

**Proof sketch.** A path starts with the first slash of the text, and ends at the first mark.
Without a path a slash of the query or the fragment would be taken for one. -/
lemma WellFormedIri.authPath_iff {iri : Iri} (hwf : WellFormedIri iri) {host : Str}
    (h : AuthorityShape iri host) :
    authPath (iri.userText ++ iri.behindText host) = iri.path ↔
      (iri.path = none → '/' ∉ iri.suffixText) := by
  obtain ⟨h1, h2, h3⟩ := h.front_letters (c := '/') (by simp)
  cases hpath : iri.path with
  | none => simp [authPath, Iri.behindText, h1, h2, h3]
  | some path =>
    obtain ⟨rest, rfl⟩ := h.path_cons hpath
    have hsuffix : iri.suffixText = '/' :: (rest ++ (iri.queryText ++ iri.fragmentText)) := by
      simp [Iri.suffixText, hpath]
    have hsplit : iri.userText ++ iri.behindText host =
        (iri.userText ++ host ++ iri.portText) ++
          '/' :: (rest ++ (iri.queryText ++ iri.fragmentText)) := by
      simp [Iri.behindText, hsuffix]
    have hfront : '/' ∉ iri.userText ++ host ++ iri.portText := by simp [h1, h2, h3]
    have hread : hierText ('/' :: (rest ++ (iri.queryText ++ iri.fragmentText))) = '/' :: rest := by
      rw [← hsuffix, hwf.hierText_suffixText, hpath, Option.getD_some]
    rw [hsplit, authPath, Scan.after_append_cons _ hfront, hread]
    simp

/-! ## The round trip -/

/-- The query and the fragment behind an authority.

**Proof sketch.** `query_fragment_iff` with everything in front of the query as the part without
marks. -/
lemma WellFormedIri.authority_query_fragment_iff {iri : Iri} (hwf : WellFormedIri iri) {host : Str}
    (h : AuthorityShape iri host) :
    (queryOf (iri.userText ++ iri.behindText host) = iri.query ∧
      fragmentOf (iri.userText ++ iri.behindText host) = iri.fragment) ↔
      (iri.query = none → '?' ∉ iri.fragment.getD []) := by
  obtain ⟨hq, hf⟩ := hwf.path_getD_letters
  have hfront := h.front_letters (c := '?') (by simp)
  have hfront' := h.front_letters (c := '#') (by simp)
  have hsplit : iri.userText ++ iri.behindText host =
      iri.userText ++ (host ++ (iri.portText ++ iri.path.getD [])) ++
        (iri.queryText ++ iri.fragmentText) := by
    simp [Iri.behindText, Iri.suffixText]
  rw [hsplit]
  exact query_fragment_iff (by simp [hfront, hq]) (by simp [hfront', hf]) hwf.query_letters

/-- The round trip of a record with an authority, component by component. -/
lemma AuthorityShape.roundTrip_iff {iri : Iri} {host scheme : Str} (h : AuthorityShape iri host)
    (hscheme : iri.scheme = some scheme) (hlegal : LegalScheme scheme) (err : ErrRec) {x : Str}
    (hx : x = iri.userText ++ iri.behindText host) :
    ((iriSetFromString iriNew (iriToString iri) err).status = taOk ∧
      (iriSetFromString iriNew (iriToString iri) err).iri = iri) ↔
      ¬ BadPort x ∧ authUser x = iri.user ∧ authHost x = host ∧
        (authPort x).getD 0 = iri.port ∧ authPath x = iri.path ∧
        queryOf x = iri.query ∧ fragmentOf x = iri.fragment := by
  rw [h.iriToString_eq hscheme, ← hx, iriSetFromString_authority hlegal]
  by_cases hbad : BadPort x
  · simp [hbad, iriFail, taOk, taError]
  · rw [Iri.ext_iff]
    simp [hbad, iriNew, hscheme, h.host_eq]

/-- The round trip of a record with an authority.

**Proof sketch.** The parser reads the parts one by one (`roundTrip_iff`); each part is read
back under its own condition, and these are the fields of `ScansApart`. -/
lemma WellFormedIri.authority_roundTrip {iri : Iri} (hwf : WellFormedIri iri) {host : Str}
    (h : AuthorityShape iri host) (err : ErrRec) :
    ((iriSetFromString iriNew (iriToString iri) err).status = taOk ∧
      (iriSetFromString iriNew (iriToString iri) err).iri = iri) ↔ ScansApart iri := by
  obtain ⟨scheme, hscheme, hlegal⟩ := hwf.scheme
  have hquery := hwf.authority_query_fragment_iff h
  have huser := h.authUser_iff
  have hpath := hwf.authPath_iff h
  have hhost : iri.host ≠ none := by simp [h.host_eq]
  rw [h.roundTrip_iff hscheme hlegal err rfl]
  constructor
  · rintro ⟨hbad, hu, hh, hp, hpa, hqf⟩
    have hcond := hquery.mp hqf
    obtain ⟨hcolon, hmark⟩ := (hwf.host_port_iff h rfl hu hcond).mp ⟨hbad, hh, hp⟩
    exact ⟨hcond, fun _ => huser.mp hu, fun _ => hcolon, fun _ => hpath.mp hpa, fun _ => hmark⟩
  · intro hapart
    have hu := huser.mpr (hapart.user hhost)
    obtain ⟨hbad, hh, hp⟩ := (hwf.host_port_iff h rfl hu hapart.query).mpr
      ⟨hapart.port hhost, hapart.host hhost⟩
    exact ⟨hbad, hu, hh, hp, hpath.mpr (hapart.path hhost), hquery.mpr hapart.query⟩

/-- What follows the path adds no slash to it. -/
lemma not_slashes_append (iri : Iri) {path : Str} (hpath : ¬ "//".toList <+: path) :
    ¬ "//".toList <+: path ++ (iri.queryText ++ iri.fragmentText) := by
  have hslashes : "//".toList = ['/', '/'] := rfl
  rw [hslashes] at hpath ⊢
  unfold Iri.queryText Iri.fragmentText
  cases path with
  | nil => cases iri.query <;> cases iri.fragment <;> simp
  | cons c path =>
    cases path with
    | nil => cases iri.query <;> cases iri.fragment <;> simp
    | cons d path => simpa using hpath

/-- The end of an opaque path, when a fragment without a query in front of it holds no `'?'`.

**Proof sketch.** The path has no mark, so it ends at the first mark printed: that of the query,
or without one that of the fragment, which holds no `'?'` then. -/
lemma before_query_fragment {iri : Iri} {path : Str} (hq : '?' ∉ path) (hf : '#' ∉ path)
    (hcond : iri.query = none → '?' ∉ iri.fragment.getD []) :
    (if '?' ∈ path ++ (iri.queryText ++ iri.fragmentText)
      then Scan.before '?' (path ++ (iri.queryText ++ iri.fragmentText))
      else Scan.before '#' (path ++ (iri.queryText ++ iri.fragmentText))) = path := by
  rw [Scan.before_append _ hq, Scan.before_append _ hf]
  unfold Iri.queryText Iri.fragmentText
  cases hquery : iri.query with
  | none =>
    have hno := hcond hquery
    cases hfragment : iri.fragment with
    | none => simp [hq]
    | some fragment =>
      rw [hfragment, Option.getD_some] at hno
      simp [hq, hno]
  | some query => simp

/-- The round trip of a record without an authority.

**Proof sketch.** The text behind the scheme does not start with two slashes, so
`iriSetFromString_opaque` reads it: the path up to its end (`before_query_fragment`), the query
and the fragment (`query_fragment_iff`). -/
lemma WellFormedIri.opaque_roundTrip {iri : Iri} (hwf : WellFormedIri iri) {path : Str}
    (h : OpaqueShape iri path) (err : ErrRec) :
    ((iriSetFromString iriNew (iriToString iri) err).status = taOk ∧
      (iriSetFromString iriNew (iriToString iri) err).iri = iri) ↔ ScansApart iri := by
  obtain ⟨scheme, hscheme, hlegal⟩ := hwf.scheme
  obtain ⟨hq, hf⟩ := hwf.path_letters path h.path_eq
  have htext : iriToString iri =
      scheme ++ ":".toList ++ (path ++ (iri.queryText ++ iri.fragmentText)) := by
    simp [iriToString, Iri.userText, Iri.portText, Iri.suffixText, hscheme, h.host_eq, h.user_eq,
      h.port_eq, h.path_eq]
  have hslash := not_slashes_append iri h.path_head
  have hread := query_fragment_iff hq hf hwf.query_letters
  rw [htext, iriSetFromString_opaque hlegal _ _ hslash, Iri.ext_iff]
  constructor
  · rintro ⟨-, -, -, -, -, -, hquery, hfragment⟩
    have hcond := hread.mp ⟨by simpa [iriNew] using hquery, by simpa [iriNew] using hfragment⟩
    refine ⟨hcond, ?_, ?_, ?_, ?_⟩ <;> exact fun hhost => absurd h.host_eq hhost
  · intro hapart
    have hpath := before_query_fragment hq hf hapart.query
    obtain ⟨hquery, hfragment⟩ := hread.mpr hapart.query
    rw [hpath]
    simp [iriNew, hscheme, h.host_eq, h.user_eq, h.port_eq, h.path_eq, hquery, hfragment]

/-- **The round trip of an IRI**: for a well-formed record, reading the printed text succeeds and
gives the record back exactly when the scans of the parser keep its components apart. -/
theorem iri_roundTrip_iff {iri : Iri} (hwf : WellFormedIri iri) (err : ErrRec) :
    ((iriSetFromString iriNew (iriToString iri) err).status = taOk ∧
      (iriSetFromString iriNew (iriToString iri) err).iri = iri) ↔ ScansApart iri := by
  rcases hwf.shape with ⟨host, h⟩ | ⟨path, h⟩
  · exact hwf.authority_roundTrip h err
  · exact hwf.opaque_roundTrip h err

/-- The record of `"xmpp://user@host:5222/r?q#f"`. -/
def sampleIri : Iri where
  scheme := some "xmpp".toList
  user := some "user".toList
  host := some "host".toList
  port := 5222
  path := some "/r".toList
  query := some "q".toList
  fragment := some "f".toList

/-- The sample is well formed. -/
lemma wellFormed_sampleIri : WellFormedIri sampleIri where
  scheme := ⟨_, rfl, by decide⟩
  shape := by
    refine Or.inl ⟨"host".toList, rfl, by decide, by decide, ?_, by decide, ?_⟩
    · rintro user ⟨⟩
      decide
    · rintro path ⟨⟩
      decide
  path_letters := by
    rintro path ⟨⟩
    decide
  query_letters := by
    rintro query ⟨⟩
    decide

/-- The sample record has no component that a scan takes for an earlier one, so it is read back. -/
theorem iri_roundTrip_sample :
    WellFormedIri sampleIri ∧
      ((iriSetFromString iriNew (iriToString sampleIri) none).status = taOk ∧
        (iriSetFromString iriNew (iriToString sampleIri) none).iri = sampleIri ↔
        ScansApart sampleIri) :=
  ⟨wellFormed_sampleIri, iri_roundTrip_iff wellFormed_sampleIri none⟩

/-- **A path in front of a query goes into the host**: the record of `"bleh://comum.org/test?q=1"`
is well formed, but the host that is read back is `"comum.org/test"`.

**Proof sketch.** The record is computed, printed and read. -/
theorem iri_roundTrip_path_query :
    ∃ iri, WellFormedIri iri ∧ iriToString iri = "bleh://comum.org/test?q=1".toList ∧
      ¬ ((iriSetFromString iriNew (iriToString iri) none).status = taOk ∧
        (iriSetFromString iriNew (iriToString iri) none).iri = iri) := by
  refine ⟨⟨some "bleh".toList, none, some "comum.org".toList, 0, some "/test".toList,
    some "q=1".toList, none⟩, ?_, by decide, by decide⟩
  refine ⟨⟨_, rfl, by decide⟩, Or.inl ⟨"comum.org".toList, rfl, by decide, by decide, ?_,
    by decide, ?_⟩, ?_, ?_⟩
  · rintro user ⟨⟩
  · rintro path ⟨⟩
    decide
  · rintro path ⟨⟩
    decide
  · rintro query ⟨⟩
    decide

end Taningia
