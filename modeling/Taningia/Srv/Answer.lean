import Taningia.Lib.DnsMessage
import Taningia.Srv.Basic

set_option relaxedAutoImplicit false
set_option autoImplicit false

/-!
# Reading the answer: `ta_srv_query_domain`

A pointer walks over the bytes of the answer: over the questions, and then over the records, from
which the targets are made. `GETSHORT` and `GETLONG` read where the pointer is, whatever is there,
so the bytes around the answer are part of the model, as are the offsets at which bytes are read.
`dn_expand` is a function of the resolver library; it gets the end of the answer, and a result of
`-1` is added to the pointer like any other.

## Main definitions

* `Taningia.Resolver` — `dn_expand`, and what it does on a legal name.
* `Taningia.Answer`, `Taningia.Reading` — the answer in memory, and the variables of the loops.
* `Taningia.questionLoop`, `Taningia.answerLoop`, `Taningia.readAnswer` — the loops.
* `Taningia.srvQueryDomain` — the function from the answer on.
* `Taningia.wireResolver` — a resolver library that joins labels with dots.
-/

namespace Taningia

/-- `dn_expand (answer, end, p, buf, sizeof (buf))`: what it returns for the bytes between `answer`
and `end` and the offset of `p`, and what it leaves in `buf`; `text` is how it prints a name. Names
are asked for whose pointers lead to prior names. -/
structure Resolver where
  dnExpand : List UInt8 → ℤ → ℤ
  dnBuf : List UInt8 → ℤ → Str → Str
  text : List Dns.Label → Str
  dnExpand_ge : ∀ msg p, -1 ≤ dnExpand msg p
  dnExpand_name : ∀ msg pos n labels, Dns.NameAt msg pos n labels → Dns.Legal labels →
    dnExpand msg pos = n
  dnBuf_name : ∀ msg pos n labels buf, Dns.NameAt msg pos n labels → Dns.Legal labels →
    dnBuf msg pos buf = text labels

/-- The bytes that `res_querydomain` has written to `answer`, the bytes of memory elsewhere by their
offset from `answer`, and what is in `buf` before the first name. -/
structure Answer where
  bytes : List UInt8
  around : ℤ → UInt8
  buf : Str

/-- `answer[i]`. -/
def Answer.byte (a : Answer) (i : ℤ) : UInt8 :=
  if 0 ≤ i ∧ i < a.bytes.length then a.bytes.getD i.toNat 0 else a.around i

/-- What the loops change: `p - answer`, `buf` and `targets`, and the offsets of the bytes that were
read. -/
structure Reading where
  p : ℤ
  buf : Str
  targets : List SrvTarget
  reads : List ℤ

/-- The 16-bit number at an offset. -/
def Answer.short (a : Answer) (i : ℤ) : UInt16 :=
  .ofNat (256 * (a.byte i).toNat + (a.byte (i + 1)).toNat)

/-- The 32-bit number at an offset. -/
def Answer.long (a : Answer) (i : ℤ) : UInt32 :=
  .ofNat (65536 * (a.short i).toNat + (a.short (i + 2)).toNat)

variable (lib : Resolver) (a : Answer)

/-- `GETSHORT`. -/
def getShort (s : Reading) : UInt16 × Reading :=
  (a.short s.p, { s with p := s.p + 2, reads := s.reads ++ [s.p, s.p + 1] })

/-- `GETLONG`. -/
def getLong (s : Reading) : UInt32 × Reading :=
  (a.long s.p, { s with p := s.p + 4, reads := s.reads ++ [s.p, s.p + 1, s.p + 2, s.p + 3] })

/-- `p += dn_expand (answer, end, p, buf, sizeof (buf))`. -/
def expandName (s : Reading) : Reading :=
  { s with p := s.p + lib.dnExpand a.bytes s.p, buf := lib.dnBuf a.bytes s.p s.buf }

/-- The loop over the query section. -/
def questionLoop : ℕ → Reading → Reading
  | 0, s => s
  | count + 1, s =>
    if s.p < a.bytes.length then
      let s := expandName lib a s
      questionLoop count { s with p := s.p + 4 }
    else s

/-- The body of the loop over the answer section. A target that is made for another record stays
behind. -/
def readRecord (s : Reading) : Reading :=
  let s := expandName lib a s
  let (type, s) := getShort a s
  let (_class, s) := getShort a s
  let (ttl, s) := getLong a s
  let (rdlength, s) := getShort a s
  if type ≠ Dns.tSrv ∨ _class ≠ Dns.cIn then { s with p := s.p + rdlength.toNat }
  else
    let (priority, s) := getShort a s
    let (weight, s) := getShort a s
    let (port, s) := getShort a s
    let s := expandName lib a s
    { s with targets := s.targets ++ [⟨ttl, _class, priority, weight, port, s.buf⟩] }

/-- The loop over the answer section. -/
def answerLoop : ℕ → Reading → Reading
  | 0, s => s
  | count + 1, s =>
    if s.p < a.bytes.length then answerLoop count (readRecord lib a s) else s

/-- A field of the header: `ntohs (message->qdcount)` and `ntohs (message->ancount)`, by their
offsets. -/
def headerField (offset : ℤ) (s : Reading) : UInt16 × Reading :=
  (a.short offset, { s with reads := s.reads ++ [offset, offset + 1] })

/-- From the test of `len` to the call of `ta_list_sort`. -/
def readAnswer : Reading :=
  let s : Reading := ⟨12, a.buf, [], []⟩
  if a.bytes.length = 0 then s
  else
    let (count, s) := headerField a 4 s
    let s := questionLoop lib a count.toNat s
    let (count, s) := headerField a 6 s
    answerLoop lib a count.toNat s

/-- `ta_srv_query_domain` behind the call of `res_querydomain`. -/
def srvQueryDomain (R : Rand) : Option (Heap ℕ × Option ℕ) :=
  if a.bytes.length = 0 then some (Heap.empty ℕ, none)
  else orderStage R (readAnswer lib a).targets

/-! ## A resolver library -/

/-- The labels of a name with dots between them. -/
def dotted (labels : List Dns.Label) : Str :=
  ".".toList.intercalate (labels.map fun l => l.map fun b => Char.ofNat b.toNat)

/-- The name at an offset, when there is a legal one. -/
def legalName (msg : List UInt8) (p : ℤ) : Option (ℕ × List Dns.Label) :=
  if p < 0 then none
  else (Dns.expand msg (Dns.steps msg) p.toNat).filter fun x => decide (Dns.Legal x.2)

/-- The reader finds the legal names of the message. -/
lemma legalName_of_nameAt {msg : List UInt8} {pos n : ℕ} {labels : List Dns.Label}
    (h : Dns.NameAt msg pos n labels) (hlegal : Dns.Legal labels) :
    legalName msg pos = some (n, labels) := by
  have hpos : ¬ ((pos : ℤ) < 0) := by omega
  rw [legalName, if_neg hpos, Int.toNat_natCast, Dns.expand_of_nameAt h hlegal]
  simp [hlegal]

/-- A library that finds the legal names, and leaves the buffer alone where there is none. -/
def wireResolver : Resolver where
  dnExpand msg p := ((legalName msg p).map fun x => (x.1 : ℤ)).getD (-1)
  dnBuf msg p buf := ((legalName msg p).map fun x => dotted x.2).getD buf
  text := dotted
  dnExpand_ge msg p := by
    cases legalName msg p with
    | none => exact le_rfl
    | some x =>
      show -1 ≤ (x.1 : ℤ)
      omega
  dnExpand_name msg pos n labels h hlegal := by rw [legalName_of_nameAt h hlegal]; rfl
  dnBuf_name msg pos n labels buf h hlegal := by rw [legalName_of_nameAt h hlegal]; rfl

end Taningia
