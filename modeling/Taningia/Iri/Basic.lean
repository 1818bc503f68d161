import Taningia.Error

set_option relaxedAutoImplicit false
set_option autoImplicit false

/-!
# IRIs: the record, the printer and the parser

`src/iri.c`: a `ta_iri_t` has seven components, six of them optional strings and one the port, which
is `0` when absent. `ta_iri_to_string` prints them and `ta_iri_set_from_string` reads them back,
finding each delimiter by its own scan of the rest of the string. Its lengths and positions are
`int`, which the strings are taken to fit.

## Main definitions

* `Taningia.Iri`, `Taningia.iriNew` — the record and a fresh one.
* `Taningia.iriToString` — the text that the printer assembles.
* `Taningia.iriSetFromString` — the parser, with its early exits.

## Main results

* `Taningia.status_iriSetFromString` — the verdict depends on the string only.
* `Taningia.iriSetFromString_of_accepts`, `Taningia.iriSetFromString_of_rejects` — the error record
  after a call.
-/

namespace Taningia

/-- The components of a `ta_iri_t`. -/
@[ext]
structure Iri where
  scheme : Option Str
  user : Option Str
  host : Option Str
  port : ℤ
  path : Option Str
  query : Option Str
  fragment : Option Str
deriving DecidableEq, Repr

/-- `ta_iri_new`. -/
def iriNew : Iri := ⟨none, none, none, 0, none, none, none⟩

/-! ## The printer -/

/-- The user with its `'@'`. -/
def Iri.userText (iri : Iri) : Str := iri.user.elim [] (· ++ ['@'])

/-- The port with its `':'`; port `0` is absent. -/
def Iri.portText (iri : Iri) : Str := if iri.port ≠ 0 then ':' :: sprintfInt iri.port else []

/-- The query with its `'?'`. -/
def Iri.queryText (iri : Iri) : Str := iri.query.elim [] ('?' :: ·)

/-- The fragment with its `'#'`. -/
def Iri.fragmentText (iri : Iri) : Str := iri.fragment.elim [] ('#' :: ·)

/-- What is printed behind the authority. -/
def Iri.suffixText (iri : Iri) : Str := iri.path.getD [] ++ iri.queryText ++ iri.fragmentText

/-- `ta_iri_to_string`, as the text it assembles. -/
def iriToString (iri : Iri) : Str :=
  iri.scheme.getD [] ++
  (if iri.host.isSome && iri.scheme.isSome then "://".toList else []) ++
  (if iri.host.isNone then ":".toList else []) ++
  iri.userText ++ iri.host.getD [] ++ iri.portText ++ iri.suffixText

/-! ## The parser

Each optional component is written only on the branch where the string has it: `new <|> old` is the
value of a field that the branch without it leaves alone. -/

/-- What a call of `ta_iri_set_from_string` leaves: its return value, the object and the error
record of the thread. -/
structure IriCall where
  status : ℤ
  iri : Iri
  err : ErrRec
deriving DecidableEq, Repr

/-- A call that records an error and returns `TA_ERROR`. -/
def iriFail (iri : Iri) (message : String) : IriCall :=
  ⟨taError, iri, errorSet taIriParsingError message.toList⟩

/-- The loop over the scheme, from `p`: the pointer to the `':'` that ends it, or `none` at a
letter that a scheme cannot have. The closing NUL is such a letter. -/
def scanScheme : Str → Option Str
  | [] => none
  | c :: p =>
    if c = ':' then some (c :: p)
    else if !isalnum c && !(c == '-' || c == '+' || c == '.') then none
    else scanScheme p

/-- The loop that looks for the port, from `port_start`: the pointer to the first `':'`, unless a
`'?'` or a `'#'` comes first. -/
def scanPort : Str → Option Str
  | [] => none
  | c :: portStart =>
    if c = ':' then some (c :: portStart)
    else if c = '?' ∨ c = '#' then none
    else scanPort portStart

/-- The delimiters of the query and the fragment and the two components, as the first section of
the parser finds them. The pointers are to the `'?'` and to the `'#'`. -/
structure Delimiters where
  query : Option Str
  fragment : Option Str
  queryText : Option Str
  fragmentText : Option Str
deriving DecidableEq, Repr

/-- The search for the query and the fragment, from the `':'` behind the scheme. With a query the
fragment is looked for behind the `'?'` only. -/
def findDelimiters (p : Str) : Delimiters :=
  match strchr p '?' with
  | some query =>
    match strchr query.tail '#' with
    | some fragment =>
      { query := some query, fragment := some fragment
        queryText := some (strndup query.tail (ptrDiff fragment query.tail))
        fragmentText := some fragment.tail }
    | none =>
      { query := some query, fragment := none, queryText := some query.tail, fragmentText := none }
  | none =>
    match strchr p '#' with
    | some fragment =>
      { query := none, fragment := some fragment, queryText := none
        fragmentText := some fragment.tail }
    | none => { query := none, fragment := none, queryText := none, fragmentText := none }

/-- The letters up to the first `'?'` or `'#'`: the loop that measures the path. -/
def pathLen : Str → ℕ
  | [] => 0
  | c :: pathp => if c = '?' ∨ c = '#' then 0 else pathLen pathp + 1

/-- The end of the host: the port, the query, the fragment or the path, in this order. It is `NULL`
when there is none of them. -/
def hostEnd (port query fragment path : Option Str) : Option Str :=
  match port with
  | some port => some port
  | none =>
    match query with
    | some query => some query
    | none =>
      match fragment with
      | some fragment => some fragment
      | none => path

/-- The length of the host, from `userinfo` or, without one, from the letter before `ihier_part`. A
`NULL` end makes a difference to a null pointer, which as a `size_t` exceeds the rest of the
string, as a negative one does. -/
def hostLen (hostEnd userinfo : Option Str) (ihierPart : Str) : ℤ :=
  match hostEnd with
  | some hostEnd =>
    match userinfo with
    | some userinfo => ptrDiff hostEnd userinfo - 1
    | none => (ptrDiff hostEnd ihierPart + 1) - 1
  | none => -1

/-- `userinfo ? userinfo + 1 : ihier_part`: where the port and the host are looked for. -/
def behindUser (userinfo : Option Str) (ihierPart : Str) : Str :=
  match userinfo with
  | some userinfo => userinfo.tail
  | none => ihierPart

/-- The part of the parser behind the port: path and host. The test that a path starts with a
`'/'` never fails, as the path is found by that letter. -/
def parsePathHost (iri : Iri) (err : ErrRec) (delims : Delimiters) (ihierPart : Str)
    (userinfo port : Option Str) : IriCall :=
  let path := strchr ihierPart '/'
  if path.any fun path => path.head? != some '/' then
    iriFail iri "Path should start with a '/' since authority section was filled"
  else
    let iri := { iri with path := path.map (fun path => strndup path (pathLen path)) <|> iri.path }
    let hostEnd := hostEnd port delims.query delims.fragment path
    let host := strndup (behindUser userinfo ihierPart) (hostLen hostEnd userinfo ihierPart)
    ⟨taOk, { iri with host := some host }, err⟩

/-- The authority section, from the letter behind the two slashes. -/
def parseAuthority (iri : Iri) (err : ErrRec) (delims : Delimiters) (ihierPart : Str) : IriCall :=
  let userinfo := strchr ihierPart '@'
  let user := userinfo.map fun userinfo => strndup ihierPart (ptrDiff userinfo ihierPart)
  let iri := { iri with user := user <|> iri.user }
  let port := scanPort (behindUser userinfo ihierPart)
  match port with
  | some portMark =>
    let digits := portMark.tail.takeWhile isdigit
    if digits.length = 0 then iriFail iri "Invalid port number"
    else parsePathHost { iri with port := atoi digits } err delims ihierPart userinfo port
  | none => parsePathHost iri err delims ihierPart userinfo port

/-- The part of the parser behind the scheme, from `ihier_part`. -/
def parseIhierPart (iri : Iri) (err : ErrRec) (delims : Delimiters) (ihierPart : Str) : IriCall :=
  match ihierPart with
  | '/' :: '/' :: ihierPart => parseAuthority iri err delims ihierPart
  | ihierPart =>
    match delims.query, delims.fragment with
    | some query, _ =>
      ⟨taOk, { iri with path := some (strndup ihierPart (ptrDiff query ihierPart)) }, err⟩
    | none, some fragment =>
      ⟨taOk, { iri with path := some (strndup ihierPart (ptrDiff fragment ihierPart)) }, err⟩
    | none, none => ⟨taOk, { iri with path := some ihierPart }, err⟩

/-- `ta_iri_set_from_string`. -/
def iriSetFromString (iri : Iri) (string : Str) (err : ErrRec) : IriCall :=
  if !(string.head?.any isalpha) then iriFail iri "Schema should start with an alpha char"
  else
    match scanScheme string with
    | none =>
      iriFail iri "Schema should only have the following chars: [a-Z][0-9][-+.]"
    | some p =>
      let delims := findDelimiters p
      let iri := { iri with scheme := some (string.take (ptrDiff p string).toNat) }
      let iri := { iri with query := delims.queryText <|> iri.query }
      let iri := { iri with fragment := delims.fragmentText <|> iri.fragment }
      parseIhierPart iri err delims p.tail

/-- The verdict of `ta_iri_set_from_string` on a fresh IRI. -/
def iriAccepts (string : Str) : Bool := (iriSetFromString iriNew string none).status == taOk

/-! ## What a call leaves -/

/-- A call either succeeds and keeps the error record, or records an error of its own. -/
inductive IriCall.Leaves (err : ErrRec) : IriCall → Prop
  | ok (iri : Iri) : Leaves err ⟨taOk, iri, err⟩
  | failed (iri : Iri) (message : String) : Leaves err (iriFail iri message)

/-- The path and the host leave the record, or fail with an error. -/
lemma parsePathHost_leaves (iri : Iri) (err : ErrRec) (delims : Delimiters) (ihierPart : Str)
    (userinfo port : Option Str) :
    (parsePathHost iri err delims ihierPart userinfo port).Leaves err := by
  simp only [parsePathHost]
  split_ifs
  · exact .failed _ _
  · exact .ok _

/-- The authority leaves the record, or fails with an error. -/
lemma parseAuthority_leaves (iri : Iri) (err : ErrRec) (delims : Delimiters) (ihierPart : Str) :
    (parseAuthority iri err delims ihierPart).Leaves err := by
  simp only [parseAuthority]
  split
  · split_ifs
    · exact .failed _ _
    · exact parsePathHost_leaves _ _ _ _ _ _
  · exact parsePathHost_leaves _ _ _ _ _ _

/-- The part behind the scheme leaves the record, or fails with an error. -/
lemma parseIhierPart_leaves (iri : Iri) (err : ErrRec) (delims : Delimiters) (ihierPart : Str) :
    (parseIhierPart iri err delims ihierPart).Leaves err := by
  unfold parseIhierPart
  split
  · exact parseAuthority_leaves _ _ _ _
  · split <;> exact .ok _

/-- The parser leaves the record, or fails with an error. -/
lemma iriSetFromString_leaves (iri : Iri) (string : Str) (err : ErrRec) :
    (iriSetFromString iri string err).Leaves err := by
  unfold iriSetFromString
  split_ifs
  · exact .failed _ _
  · split
    · exact .failed _ _
    · exact parseIhierPart_leaves _ _ _ _

/-- Whether the path and the host are accepted depends on the text alone. -/
lemma status_parsePathHost (iri iri' : Iri) (err err' : ErrRec) (delims : Delimiters)
    (ihierPart : Str) (userinfo port : Option Str) :
    (parsePathHost iri err delims ihierPart userinfo port).status =
      (parsePathHost iri' err' delims ihierPart userinfo port).status := by
  simp only [parsePathHost]
  split_ifs <;> rfl

/-- Whether the authority is accepted depends on the text alone. -/
lemma status_parseAuthority (iri iri' : Iri) (err err' : ErrRec) (delims : Delimiters)
    (ihierPart : Str) :
    (parseAuthority iri err delims ihierPart).status =
      (parseAuthority iri' err' delims ihierPart).status := by
  simp only [parseAuthority]
  split
  · split_ifs
    · rfl
    · exact status_parsePathHost _ _ _ _ _ _ _ _
  · exact status_parsePathHost _ _ _ _ _ _ _ _

/-- Whether the part behind the scheme is accepted depends on the text alone. -/
lemma status_parseIhierPart (iri iri' : Iri) (err err' : ErrRec) (delims : Delimiters)
    (ihierPart : Str) :
    (parseIhierPart iri err delims ihierPart).status =
      (parseIhierPart iri' err' delims ihierPart).status := by
  unfold parseIhierPart
  split
  · exact status_parseAuthority _ _ _ _ _ _
  · split <;> rfl

/-- **The verdict** depends neither on the object nor on the error record. -/
lemma status_iriSetFromString (iri iri' : Iri) (string : Str) (err err' : ErrRec) :
    (iriSetFromString iri string err).status = (iriSetFromString iri' string err').status := by
  unfold iriSetFromString
  split_ifs
  · rfl
  · split
    · rfl
    · exact status_parseIhierPart _ _ _ _ _ _

/-- An accepted string: the call returns `TA_OK` and keeps the error record.

**Proof sketch.** The status is that of the parse into a new IRI, and of the two outcomes of the
parser only the one that keeps the record has the status `TA_OK`. -/
lemma iriSetFromString_of_accepts {string : Str} (h : iriAccepts string = true) (iri : Iri)
    (err : ErrRec) :
    (iriSetFromString iri string err).status = taOk ∧
      (iriSetFromString iri string err).err = err := by
  have hstatus : (iriSetFromString iri string err).status = taOk := by
    rw [status_iriSetFromString iri iriNew string err none]
    exact beq_iff_eq.mp h
  have hleaves := iriSetFromString_leaves iri string err
  cases hcall : iriSetFromString iri string err with
  | mk status iri' err' =>
    rw [hcall] at hleaves hstatus
    cases hleaves with
    | ok => exact ⟨rfl, rfl⟩
    | failed message => simp [taOk, taError] at hstatus

/-- A rejected string: the call returns `TA_ERROR` and records an error.

**Proof sketch.** As for an accepted string, with the other outcome. -/
lemma iriSetFromString_of_rejects {string : Str} (h : iriAccepts string = false) (iri : Iri)
    (err : ErrRec) :
    (iriSetFromString iri string err).status = taError ∧
      ∃ error, (iriSetFromString iri string err).err = some error := by
  have hstatus : (iriSetFromString iri string err).status ≠ taOk := by
    rw [status_iriSetFromString iri iriNew string err none]
    exact beq_eq_false_iff_ne.mp h
  have hleaves := iriSetFromString_leaves iri string err
  cases hcall : iriSetFromString iri string err with
  | mk status iri' err' =>
    rw [hcall] at hleaves hstatus
    cases hleaves with
    | ok => exact absurd rfl hstatus
    | failed message => exact ⟨rfl, _, rfl⟩

/-- The calls with two records are the same, or both succeed. -/
def SameOrOk (call call' : IriCall) : Prop := call = call' ∨ call.status = taOk

/-- The path and the host fail alike, whatever was recorded before. -/
lemma parsePathHost_sameOrOk (iri : Iri) (err err' : ErrRec) (delims : Delimiters)
    (ihierPart : Str) (userinfo port : Option Str) :
    SameOrOk (parsePathHost iri err delims ihierPart userinfo port)
      (parsePathHost iri err' delims ihierPart userinfo port) := by
  simp only [parsePathHost]
  split_ifs
  · exact Or.inl rfl
  · exact Or.inr rfl

/-- The authority fails alike, whatever was recorded before. -/
lemma parseAuthority_sameOrOk (iri : Iri) (err err' : ErrRec) (delims : Delimiters)
    (ihierPart : Str) :
    SameOrOk (parseAuthority iri err delims ihierPart)
      (parseAuthority iri err' delims ihierPart) := by
  simp only [parseAuthority]
  split
  · split_ifs
    · exact Or.inl rfl
    · exact parsePathHost_sameOrOk _ _ _ _ _ _ _
  · exact parsePathHost_sameOrOk _ _ _ _ _ _ _

/-- The part behind the scheme fails alike, whatever was recorded before. -/
lemma parseIhierPart_sameOrOk (iri : Iri) (err err' : ErrRec) (delims : Delimiters)
    (ihierPart : Str) :
    SameOrOk (parseIhierPart iri err delims ihierPart)
      (parseIhierPart iri err' delims ihierPart) := by
  unfold parseIhierPart
  split
  · exact parseAuthority_sameOrOk _ _ _ _ _
  · split <;> exact Or.inr rfl

/-- **A rejected string** leaves the same IRI and the same error, whatever was recorded before. -/
lemma iriSetFromString_rejects_eq {string : Str} (h : iriAccepts string = false) (iri : Iri)
    (err err' : ErrRec) : iriSetFromString iri string err = iriSetFromString iri string err' := by
  have hsame : SameOrOk (iriSetFromString iri string err) (iriSetFromString iri string err') := by
    unfold iriSetFromString
    split_ifs
    · exact Or.inl rfl
    · split
      · exact Or.inl rfl
      · exact parseIhierPart_sameOrOk _ _ _ _ _
  rcases hsame with hsame | hok
  · exact hsame
  · rw [(iriSetFromString_of_rejects h iri err).1] at hok
    simp [taOk, taError] at hok

end Taningia
