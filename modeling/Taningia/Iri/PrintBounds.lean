import Taningia.Iri.Basic
import Taningia.Lib.Cursor

set_option relaxedAutoImplicit false
set_option autoImplicit false

/-!
# Printing an IRI into a block of computed size

`ta_iri_to_string` first adds up the size of its result from the sizes of the components and then
writes the text piece by piece. `Taningia.iriToString` is the text; this file has the writes: into
`ret`, a block of `rlen` cells, at a position that is an `int`, and of the port into four cells of
the stack.

## Main definitions

* `Taningia.Iri.rlen` — the size that is computed.
* `Taningia.iriToStringIn` — the writes, `none` when one of them leaves its block.
* `Taningia.Iri.texts` — what is written, piece by piece.

## Main results

* `Taningia.iriToStringIn_isSome_iff` — the writes stay inside exactly when the port has at most
  three digits and no position is negative.
* `Taningia.iriToStringIn_holds` — then, unless a position wraps around, `ret` holds the text of
  `Taningia.iriToString` and its NUL.
-/

namespace Taningia

/-! ## The size and the writes -/

/-- `rlen`. The components lie in one address space, so that the sum is one of a `size_t`. -/
def Iri.rlen (iri : Iri) : ℕ :=
  let schemeSize := (iri.scheme.getD []).length
  let hostSize := (iri.host.getD []).length
  let userSize := (iri.user.getD []).length
  let pathSize := (iri.path.getD []).length
  let querySize := (iri.query.getD []).length
  let fragmentSize := (iri.fragment.getD []).length
  let staticPart := 3 + 4 + (if iri.user.isSome then 1 else 0) + (if iri.port ≠ 0 then 1 else 0) +
    (if iri.query.isSome then 1 else 0) + (if iri.fragment.isSome then 1 else 0)
  schemeSize + userSize + hostSize + pathSize + querySize + fragmentSize + staticPart + 1

/-- The number of values of an `int`, the type of `position`. -/
def intValues : ℕ := 4294967296

/-- `memcpy (ret + position, text, size)` and the step of `position` behind it. -/
def memcpyRet (text : Str) (ret : Cursor Char) : Option (Cursor Char) := ret.put intValues text

/-- `sprintf (port, "%d", iri->port)` into `char port[4]`, and the text that `strlen` finds
there. -/
def portBuffer (port : ℤ) : Option Str :=
  (Block.write (List.replicate 4 none) 0 (sprintfInt port ++ ['\x00'])).bind
    (Block.readUntil (· == '\x00'))

/-- The text of a component that may be absent. -/
def memcpyOpt (text : Option Str) (ret : Cursor Char) : Option (Cursor Char) :=
  match text with
  | some text => memcpyRet text ret
  | none => some ret

/-- The section of the user, with its `'@'`. -/
def printUser (iri : Iri) (ret : Cursor Char) : Option (Cursor Char) :=
  match iri.user with
  | some user => do
    let ret ← memcpyRet user ret
    memcpyRet ['@'] ret
  | none => some ret

/-- The section of the port, with its `':'`. -/
def printPort (iri : Iri) (ret : Cursor Char) : Option (Cursor Char) :=
  if iri.port ≠ 0 then do
    let ret ← memcpyRet [':'] ret
    let port ← portBuffer iri.port
    memcpyRet port ret
  else some ret

/-- The sections of the query and of the fragment, with the letter in front of the text. -/
def printMarked (mark : Char) (text : Option Str) (ret : Cursor Char) : Option (Cursor Char) :=
  match text with
  | some text => do
    let ret ← memcpyRet [mark] ret
    memcpyRet text ret
  | none => some ret

/-- `ta_iri_to_string`, with `ret` as a block of `rlen` cells. -/
def iriToStringIn (iri : Iri) : Option (Block Char) := do
  let ret : Cursor Char := ⟨List.replicate iri.rlen none, 0⟩
  let ret ← memcpyRet (iri.scheme.getD []) ret
  let ret ← memcpyOpt (if iri.host.isSome ∧ iri.scheme.isSome then some "://".toList else none) ret
  let ret ← memcpyOpt (if iri.host.isNone then some [':'] else none) ret
  let ret ← printUser iri ret
  let ret ← memcpyOpt iri.host ret
  let ret ← printPort iri ret
  let ret ← memcpyOpt iri.path ret
  let ret ← printMarked '?' iri.query ret
  let ret ← printMarked '#' iri.fragment ret
  -- `ret[position] = '\0'`
  ret.block.write ret.position ['\x00']

/-! ## The texts that are written -/

/-- The texts in front of the port. -/
def Iri.textsToPort (iri : Iri) : List Str :=
  [iri.scheme.getD []] ++
  (if iri.host.isSome ∧ iri.scheme.isSome then some "://".toList else none).toList ++
  (if iri.host.isNone then some [':'] else none).toList ++
  iri.user.elim [] (fun user => [user, ['@']]) ++
  iri.host.toList

/-- The texts behind the port. -/
def Iri.textsFromPort (iri : Iri) : List Str :=
  iri.path.toList ++ iri.query.elim [] (fun query => [['?'], query]) ++
  iri.fragment.elim [] (fun fragment => [['#'], fragment])

/-- The texts that `ta_iri_to_string` writes into `ret`, without the NUL. -/
def Iri.texts (iri : Iri) : List Str :=
  iri.textsToPort ++ (if iri.port ≠ 0 then [[':'], sprintfInt iri.port] else []) ++
  iri.textsFromPort

/-- The texts up to the port, joined. -/
lemma flatten_textsToPort (iri : Iri) :
    iri.textsToPort.flatten =
      iri.scheme.getD [] ++ (if iri.host.isSome && iri.scheme.isSome then "://".toList else []) ++
        (if iri.host.isNone then ":".toList else []) ++ iri.userText ++ iri.host.getD [] := by
  rcases iri with ⟨scheme, user, host, port, path, query, fragment⟩
  simp only [Iri.textsToPort, Iri.userText]
  cases scheme <;> cases user <;> cases host <;> simp

/-- The texts behind the port, joined. -/
lemma flatten_textsFromPort (iri : Iri) : iri.textsFromPort.flatten = iri.suffixText := by
  rcases iri with ⟨scheme, user, host, port, path, query, fragment⟩
  simp only [Iri.textsFromPort, Iri.suffixText, Iri.queryText, Iri.fragmentText]
  cases path <;> cases query <;> cases fragment <;> simp

/-- The texts together are the text. -/
lemma flatten_texts (iri : Iri) : iri.texts.flatten = iriToString iri := by
  have hport : (if iri.port ≠ 0 then [[':'], sprintfInt iri.port] else []).flatten =
      iri.portText := by
    unfold Iri.portText
    split_ifs <;> simp
  simp only [Iri.texts, List.flatten_append, flatten_textsToPort, flatten_textsFromPort, hport,
    iriToString]

/-! ### The size of the text -/

/-- The length of the user with its mark. -/
lemma length_userText (iri : Iri) :
    iri.userText.length = (iri.user.getD []).length + if iri.user.isSome then 1 else 0 := by
  unfold Iri.userText
  cases iri.user <;> simp

/-- The length of a port of at most three digits with its mark. -/
lemma length_portText (iri : Iri) (h : (sprintfInt iri.port).length ≤ 3) :
    iri.portText.length ≤ 3 + if iri.port ≠ 0 then 1 else 0 := by
  unfold Iri.portText
  split_ifs
  · rw [List.length_cons]
    omega
  · simp

/-- The length of the path, the query and the fragment with their marks. -/
lemma length_suffixText (iri : Iri) :
    iri.suffixText.length = (iri.path.getD []).length + (iri.query.getD []).length +
      (iri.fragment.getD []).length + (if iri.query.isSome then 1 else 0) +
        if iri.fragment.isSome then 1 else 0 := by
  unfold Iri.suffixText Iri.queryText Iri.fragmentText
  cases iri.query <;> cases iri.fragment <;> simp <;> omega

/-- What stands between the scheme and the authority has room in three cells. -/
lemma length_separators (iri : Iri) :
    (if iri.host.isSome && iri.scheme.isSome then "://".toList else []).length +
      (if iri.host.isNone then ":".toList else []).length ≤ 3 := by
  cases iri.host <;> cases iri.scheme <;> simp

/-- With a port of at most three digits the computed size has room for the text and its NUL. -/
lemma length_iriToString_lt (iri : Iri) (h : (sprintfInt iri.port).length ≤ 3) :
    (iriToString iri).length < iri.rlen := by
  have huser := length_userText iri
  have hport := length_portText iri h
  have hsuffix := length_suffixText iri
  have hseparators := length_separators iri
  simp only [iriToString, List.length_append, Iri.rlen]
  omega

/-! ## The port -/

/-- The four cells hold a port of at most three digits.

**Proof sketch.** The digits and the NUL fit into the four cells exactly when there are at most
three digits. They are read back up to the NUL, which is no digit. -/
lemma portBuffer_eq {port : ℤ} (h : 0 ≤ port) :
    portBuffer port = if (sprintfInt port).length ≤ 3 then some (sprintfInt port) else none := by
  unfold portBuffer
  have hdigit : ∀ c ∈ sprintfInt port, (c == '\x00') = false := by
    intro c hc
    have := isdigit_of_mem_sprintfInt h hc
    apply beq_false_of_ne
    intro hnul
    rw [hnul] at this
    exact absurd this (by decide)
  by_cases hlen : (sprintfInt port).length ≤ 3
  · have hroom : ([] : Str).length + (sprintfInt port ++ ['\x00']).length ≤
        (List.replicate 4 none : Block Char).length := by
      rw [List.length_append, List.length_replicate, List.length_nil, List.length_singleton]
      omega
    obtain ⟨b, hb, -, hholds⟩ := Block.write_append (Block.holds_nil _) _ hroom
    rw [if_pos hlen, show (0 : ℤ) = (([] : Str).length : ℤ) from rfl, hb, Option.bind_some]
    exact Block.readUntil_of_holds (by simpa using hholds) hdigit rfl
  · have hnot : ¬(0 ≤ (0 : ℤ) ∧ (0 : ℤ) + (sprintfInt port ++ ['\x00']).length ≤
        (List.replicate 4 none : Block Char).length) := by
      simp only [List.length_append, List.length_replicate, List.length_cons, List.length_nil]
      omega
    rw [if_neg hlen, Block.write, if_neg hnot, Option.bind_none]

/-- A port has at most three digits up to 999. -/
lemma length_sprintfInt_le_three {port : ℤ} (h : 0 ≤ port) :
    (sprintfInt port).length ≤ 3 ↔ port ≤ 999 := by
  rw [sprintfInt, if_neg (by omega), Nat.length_toDigits_le_iff (by decide) (by decide)]
  omega

/-! ## The writes are those of the texts -/

/-- One copy is one text put at the cursor. -/
lemma memcpyRet_eq (text : Str) (ret : Cursor Char) :
    memcpyRet text ret = ret.putAll intValues [text] := (Cursor.putAll_singleton text ret).symm

/-- An optional copy is at most one text put at the cursor. -/
lemma memcpyOpt_eq (text : Option Str) (ret : Cursor Char) :
    memcpyOpt text ret = ret.putAll intValues text.toList := by
  cases text with
  | none => rfl
  | some text => exact memcpyRet_eq text ret

/-- The user is put with its mark. -/
lemma printUser_eq (iri : Iri) (ret : Cursor Char) :
    printUser iri ret =
      ret.putAll intValues (iri.user.elim [] fun user => [user, ['@']]) := by
  unfold printUser
  cases iri.user with
  | none => rfl
  | some user =>
    simp only [memcpyRet_eq]
    exact (Cursor.putAll_append [user] [['@']] ret).symm

/-- A marked part is put with its mark. -/
lemma printMarked_eq (mark : Char) (text : Option Str) (ret : Cursor Char) :
    printMarked mark text ret =
      ret.putAll intValues (text.elim [] fun text => [[mark], text]) := by
  cases text with
  | none => rfl
  | some text =>
    simp only [printMarked, memcpyRet_eq]
    exact (Cursor.putAll_append [[mark]] [text] ret).symm

/-- A port that fits is put with its mark. -/
lemma printPort_eq {iri : Iri} (hport : 0 ≤ iri.port) (h : (sprintfInt iri.port).length ≤ 3)
    (ret : Cursor Char) :
    printPort iri ret =
      ret.putAll intValues (if iri.port ≠ 0 then [[':'], sprintfInt iri.port] else []) := by
  unfold printPort
  split_ifs with hne
  · simp only [memcpyRet_eq, portBuffer_eq hport, if_pos h]
    exact (Cursor.putAll_append [[':']] [sprintfInt iri.port] ret).symm
  · rfl

/-- A port that does not fit is a write outside the four cells. -/
lemma printPort_wide {iri : Iri} (hport : 0 ≤ iri.port) (h : ¬(sprintfInt iri.port).length ≤ 3)
    (ret : Cursor Char) : printPort iri ret = none := by
  have hne : iri.port ≠ 0 := by
    intro hzero
    exact h ((length_sprintfInt_le_three hport).mpr (by omega))
  simp only [printPort, if_pos hne, portBuffer_eq hport, if_neg h, Option.bind_eq_bind,
    Option.bind_none, Option.bind_fun_none]

/-- The last write. -/
lemma write_nul (ret : Cursor Char) :
    ret.block.write ret.position ['\x00'] =
      (ret.putAll intValues [['\x00']]).map Cursor.block := by
  rw [Cursor.putAll_singleton, Cursor.put, Option.map_map]
  exact Option.map_id'.symm

/-- **The writes** of `ta_iri_to_string` are those of its texts and the NUL, if the port fits. -/
lemma iriToStringIn_eq (iri : Iri) (hport : 0 ≤ iri.port) :
    iriToStringIn iri =
      if (sprintfInt iri.port).length ≤ 3 then
        (Cursor.putAll intValues (iri.texts ++ [['\x00']])
          ⟨List.replicate iri.rlen none, 0⟩).map Cursor.block
      else none := by
  unfold iriToStringIn
  simp only [Option.bind_eq_bind, memcpyRet_eq, memcpyOpt_eq, printUser_eq, printMarked_eq,
    write_nul]
  by_cases h : (sprintfInt iri.port).length ≤ 3
  · simp only [if_pos h, printPort_eq hport h, Iri.texts, Iri.textsToPort, Iri.textsFromPort,
      Cursor.putAll_append, Option.map_bind, Option.bind_assoc, Function.comp_def]
  · simp only [if_neg h, printPort_wide hport h, Option.bind_none, Option.bind_fun_none]

/-! ## When the writes stay inside -/

/-- The position in front of each text, as an `int`. It is that of the letters written so far
unless these are more than an `int` holds. -/
def Iri.PositionsRepresented (iri : Iri) : Prop :=
  ∀ front, front <+: iri.texts → 0 ≤ ((front.flatten.length : ℕ) : ℤ).bmod intValues

/-- A text whose letters an `int` can count has all its positions represented. -/
lemma positionsRepresented_of_length (iri : Iri) (h : (iriToString iri).length < 2147483648) :
    iri.PositionsRepresented := by
  intro front hfront
  obtain ⟨rest, hrest⟩ := hfront
  have hlen : front.flatten.length ≤ (iriToString iri).length := by
    rw [← flatten_texts, ← hrest, List.flatten_append, List.length_append]
    omega
  rw [Cursor.bmod_eq_self (by unfold intValues; omega)]
  omega

/-- **When the writes stay inside.** Every write of `ta_iri_to_string` stays inside its buffer
exactly when the port has at most three digits and the position in front of each text is
represented.

**Proof sketch.** A port of more digits overflows its buffer. For the others all writes are one
`putAll` of the texts and the NUL into a buffer with room for them (`length_iriToString_lt`),
which succeeds exactly when every position is represented by the `int` that counts it. -/
theorem iriToStringIn_isSome_iff (iri : Iri) (hport : 0 ≤ iri.port ∧ iri.port ≤ 65535) :
    (iriToStringIn iri).isSome ↔ iri.port ≤ 999 ∧ iri.PositionsRepresented := by
  rw [iriToStringIn_eq iri hport.1, ← length_sprintfInt_le_three hport.1]
  by_cases h : (sprintfInt iri.port).length ≤ 3
  · have hroom : 0 + iri.texts.flatten.length + ['\x00'].length ≤
        (List.replicate iri.rlen none : Block Char).length := by
      rw [flatten_texts, List.length_replicate, Nat.zero_add]
      exact length_iriToString_lt iri h
    have hstart : (0 : ℤ) = ((0 : ℕ) : ℤ).bmod intValues := by simp
    have hwrites := Cursor.putAll_isSome_iff (m := intValues) iri.texts ['\x00']
      (c := ⟨List.replicate iri.rlen none, 0⟩) hstart hroom
    simp only [Nat.zero_add] at hwrites
    rw [if_pos h, Option.isSome_map, hwrites, Iri.PositionsRepresented]
    simp only [h, true_and]
  · rw [if_neg h]
    simp [h]

/-- The port 80. -/
theorem iriToStringIn_isSome_port_80 :
    (iriToStringIn
      ⟨some "http".toList, none, some "localhost".toList, 80, none, none, none⟩).isSome := by
  apply (iriToStringIn_isSome_iff _ (by decide)).mpr
  exact ⟨by decide, positionsRepresented_of_length _ (by decide)⟩

/-- An IRI with a port of four digits: the fourth digit leaves no cell for the NUL. -/
theorem iriToStringIn_port_8080 :
    ¬∀ iri : Iri, 0 ≤ iri.port ∧ iri.port ≤ 65535 → (iriToStringIn iri).isSome := by
  intro h
  exact absurd (h ⟨some "http".toList, none, some "localhost".toList, 8080, none, none, none⟩
    (by decide)) (by decide)

/-- **The bytes that are written.** With a port of at most three digits, and as long as an `int` can
count the letters, `ret` holds the text and its NUL.

**Proof sketch.** The texts and the NUL fit, and their length is below the range of `int`, so
every position is represented; `Cursor.putAll_holds` gives the bytes. -/
theorem iriToStringIn_holds (iri : Iri) (hport : 0 ≤ iri.port ∧ iri.port ≤ 999)
    (hlen : (iriToString iri).length < 2147483647) :
    ∃ ret, iriToStringIn iri = some ret ∧ ret.length = iri.rlen ∧
      ret.Holds (iriToString iri ++ ['\x00']) := by
  have h := (length_sprintfInt_le_three hport.1).mpr hport.2
  have hlt := length_iriToString_lt iri h
  have htexts : (iri.texts ++ [['\x00']]).flatten = iriToString iri ++ ['\x00'] := by
    rw [List.flatten_append, flatten_texts]
    rfl
  obtain ⟨c, hc, hsize, hholds⟩ := Cursor.putAll_holds (m := intValues) (iri.texts ++ [['\x00']])
    (c := ⟨List.replicate iri.rlen none, 0⟩) rfl (Block.holds_nil _)
    (by rw [htexts]; simpa using Nat.succ_le_of_lt hlt)
    (by rw [htexts]; unfold intValues; simp only [List.length_append, List.length_nil,
      List.length_singleton]; omega)
  refine ⟨c.block, ?_, ?_, ?_⟩
  · rw [iriToStringIn_eq iri hport.1, if_pos h, hc, Option.map_some]
  · simpa using hsize
  · rwa [htexts, List.nil_append] at hholds

end Taningia
