import Mathlib.Algebra.BigOperators.Group.List.Basic
import Mathlib.Data.List.TakeDrop
import Mathlib.Data.UInt
import Mathlib.Tactic.Linarith

set_option relaxedAutoImplicit false
set_option autoImplicit false

/-!
# DNS messages

The format of section 4 of RFC 1035, on the bytes of a message: big-endian numbers, domain names,
questions and resource records. A domain name is a list of labels; each stands behind its length, a
zero byte ends the name, and the rest of a name may be a pointer to a prior name, or the end of one,
whose bytes lie before all those of the name itself.
The data of a service record of the Internet class are those of RFC 2782; other data are bytes.

## Main definitions

* `Dns.Short`, `Dns.Long` — the numbers at a position.
* `Dns.NameFrom`, `Dns.NameAt`, `Dns.Legal` — the name at a position, and the limit on its length.
* `Dns.expand` — reading a name.
* `Dns.Record`, `Dns.RecordAt`, `Dns.Records` — the resource records at a position.
* `Dns.Message` — a message with its answer section.

## Main results

* `Dns.expand_of_nameAt` — reading finds every legal name.
-/

namespace Dns

/-- A label of a domain name. -/
abbrev Label := List UInt8

variable (msg : List UInt8)

/-! ## Numbers -/

/-- The 16-bit number at a position. -/
def Short (pos : ℕ) (v : UInt16) : Prop :=
  ∃ hi lo, msg[pos]? = some hi ∧ msg[pos + 1]? = some lo ∧ v.toNat = 256 * hi.toNat + lo.toNat

/-- The 32-bit number at a position. -/
def Long (pos : ℕ) (v : UInt32) : Prop :=
  ∃ hi lo, Short msg pos hi ∧ Short msg (pos + 2) lo ∧ v.toNat = 65536 * hi.toNat + lo.toNat

/-! ## Names -/

/-- The rest of a name whose bytes begin at `start`: where it is, how many bytes it occupies there,
and its labels. What a pointer leads to ends before the name begins. -/
inductive NameFrom : ℕ → ℕ → ℕ → List Label → Prop where
  | root {start pos : ℕ} : msg[pos]? = some 0 → NameFrom start pos 1 []
  | label {start pos n : ℕ} {len : UInt8} {labels : List Label} :
      msg[pos]? = some len → 0 < len.toNat → len.toNat < 64 →
      pos + 1 + len.toNat ≤ msg.length → NameFrom start (pos + 1 + len.toNat) n labels →
      NameFrom start pos (1 + len.toNat + n) ((msg.drop (pos + 1)).take len.toNat :: labels)
  | pointer {start pos n : ℕ} {hi lo : UInt8} {labels : List Label} :
      msg[pos]? = some hi → 192 ≤ hi.toNat → msg[pos + 1]? = some lo →
      256 * (hi.toNat - 192) + lo.toNat + n ≤ start →
      NameFrom (256 * (hi.toNat - 192) + lo.toNat) (256 * (hi.toNat - 192) + lo.toNat) n labels →
      NameFrom start pos 2 labels

/-- The name at a position: how many bytes it occupies there, and its labels. -/
def NameAt (pos n : ℕ) (labels : List Label) : Prop := NameFrom msg pos pos n labels

/-- A name has at most 255 bytes when it is written out. -/
def Legal (labels : List Label) : Prop := (labels.map fun l => l.length + 1).sum < 255

instance (labels : List Label) : Decidable (Legal labels) := inferInstanceAs (Decidable (_ < _))

/-- Reading the name at a position, with a bound on the number of steps. -/
def expand : ℕ → ℕ → Option (ℕ × List Label)
  | 0, _ => none
  | fuel + 1, pos =>
    match msg[pos]? with
    | none => none
    | some len =>
      if len = 0 then some (1, [])
      else if len.toNat < 64 then
        if pos + 1 + len.toNat ≤ msg.length then
          (expand fuel (pos + 1 + len.toNat)).map fun x =>
            (1 + len.toNat + x.1, (msg.drop (pos + 1)).take len.toNat :: x.2)
        else none
      else if 192 ≤ len.toNat then
        match msg[pos + 1]? with
        | none => none
        | some lo =>
          if 256 * (len.toNat - 192) + lo.toNat < pos then
            (expand fuel (256 * (len.toNat - 192) + lo.toNat)).map fun x => (2, x.2)
          else none
      else none

/-- Enough steps for every legal name of the message. -/
def steps : ℕ := 255 * (msg.length + 1)

variable {msg}

/-- A name begins within the message. -/
lemma NameFrom.lt {start pos n : ℕ} {labels : List Label} (h : NameFrom msg start pos n labels) :
    pos < msg.length := by
  cases h with
  | root h0 => exact (List.getElem?_eq_some_iff.mp h0).1
  | label h0 => exact (List.getElem?_eq_some_iff.mp h0).1
  | pointer h0 => exact (List.getElem?_eq_some_iff.mp h0).1

/-- A name occupies at least one byte. -/
lemma NameFrom.pos_size {start pos n : ℕ} {labels : List Label}
    (h : NameFrom msg start pos n labels) : 0 < n := by
  cases h <;> omega

/-- Each step of reading leaves a label behind or goes back to an earlier place.

**Proof sketch.** Induction on the name. The steps that are needed are bounded by the labels that
are left, each counted as more than the length of the message, and the position: a label makes the
first one smaller, and a pointer the second one. -/
lemma expand_of_lt {start pos n : ℕ} {labels : List Label} (h : NameFrom msg start pos n labels)
    (hstart : start ≤ pos) :
    ∀ fuel, labels.length * (msg.length + 1) + pos < fuel →
      expand msg fuel pos = some (n, labels) := by
  induction h with
  | root h0 =>
    intro fuel hfuel
    obtain ⟨fuel, rfl⟩ : ∃ k, fuel = k + 1 := ⟨fuel - 1, by omega⟩
    simp [expand, h0]
  | @label start pos n len labels h0 hpos hlen hroom hrest ih =>
    intro fuel hfuel
    obtain ⟨fuel, rfl⟩ : ∃ k, fuel = k + 1 := ⟨fuel - 1, by omega⟩
    have hne : len ≠ 0 := by
      rintro rfl
      exact absurd hpos (by decide)
    have hlt := hrest.lt
    rw [List.length_cons, Nat.succ_mul] at hfuel
    rw [expand, h0]
    simp only [if_neg hne, if_pos hlen, if_pos hroom, ih (by omega) fuel (by omega),
      Option.map_some]
  | @pointer start pos n hi lo labels h0 hhi h1 hback hrest ih =>
    intro fuel hfuel
    obtain ⟨fuel, rfl⟩ : ∃ k, fuel = k + 1 := ⟨fuel - 1, by omega⟩
    have hne : hi ≠ 0 := by
      rintro rfl
      exact absurd hhi (by decide)
    have hsize := hrest.pos_size
    have hprior : 256 * (hi.toNat - 192) + lo.toNat < pos := by omega
    rw [expand, h0]
    simp only [if_neg hne, if_neg (show ¬ hi.toNat < 64 by omega), if_pos hhi, h1, if_pos hprior,
      ih le_rfl fuel (by omega), Option.map_some]

/-- A legal name has at most 254 labels. -/
lemma Legal.length_le {labels : List Label} (h : Legal labels) : labels.length ≤ 254 := by
  have hle : labels.length ≤ (labels.map fun l => l.length + 1).sum := by
    induction labels with
    | nil => exact le_rfl
    | cons l labels ih =>
      have hrest : Legal labels := by
        simp only [Legal, List.map_cons, List.sum_cons] at h ⊢
        omega
      have := ih hrest
      simp only [List.length_cons, List.map_cons, List.sum_cons]
      omega
  unfold Legal at h
  omega

/-- **Reading finds every legal name.** -/
lemma expand_of_nameAt {pos n : ℕ} {labels : List Label} (h : NameAt msg pos n labels)
    (hlegal : Legal labels) : expand msg (steps msg) pos = some (n, labels) := by
  apply expand_of_lt h le_rfl
  have hlt := NameFrom.lt h
  have hmul := Nat.mul_le_mul_right (msg.length + 1) hlegal.length_le
  unfold steps
  omega

/-! ## Records -/

/-- The data of a resource record. -/
inductive RData where
  | srv (priority weight port : UInt16) (target : List Label)
  | other (bytes : List UInt8)
deriving DecidableEq, Repr

/-- The type of service records, and the Internet class. -/
def tSrv : UInt16 := 33
def cIn : UInt16 := 1

/-- A resource record, without the name it belongs to. -/
structure Record where
  type : UInt16
  cls : UInt16
  ttl : UInt32
  data : RData
deriving DecidableEq, Repr

/-- A service record of the Internet class. -/
def Record.IsSrv (r : Record) : Prop := r.type = tSrv ∧ r.cls = cIn

instance (r : Record) : Decidable r.IsSrv := inferInstanceAs (Decidable (_ ∧ _))

variable (msg) in
/-- The data at a position that occupy `len` bytes there. -/
def DataAt (pos len : ℕ) (r : Record) : Prop :=
  match r.data with
  | .srv priority weight port target =>
    r.IsSrv ∧ Short msg pos priority ∧ Short msg (pos + 2) weight ∧ Short msg (pos + 4) port ∧
      Legal target ∧ ∃ n, NameAt msg (pos + 6) n target ∧ len = 6 + n
  | .other bytes => ¬ r.IsSrv ∧ bytes = (msg.drop pos).take len

variable (msg) in
/-- The record at a position, and the position behind it. -/
def RecordAt (pos : ℕ) (r : Record) (next : ℕ) : Prop :=
  ∃ n labels rdlength, NameAt msg pos n labels ∧ Legal labels ∧ Short msg (pos + n) r.type ∧
    Short msg (pos + n + 2) r.cls ∧ Long msg (pos + n + 4) r.ttl ∧
    Short msg (pos + n + 8) rdlength ∧ DataAt msg (pos + n + 10) rdlength.toNat r ∧
    next = pos + n + 10 + rdlength.toNat ∧ next ≤ msg.length

variable (msg) in
/-- The records from a position on. -/
inductive Records : ℕ → List Record → Prop where
  | nil {pos : ℕ} : Records pos []
  | cons {pos next : ℕ} {r : Record} {rs : List Record} :
      RecordAt msg pos r next → Records next rs → Records pos (r :: rs)

variable (msg) in
/-- The questions from a position on: how many they are, and the position behind them. A question is
a name with four bytes. -/
inductive Questions : ℕ → ℕ → ℕ → Prop where
  | nil {pos : ℕ} : Questions pos 0 pos
  | cons {pos n count next : ℕ} {labels : List Label} :
      NameAt msg pos n labels → Legal labels → pos + n + 4 ≤ msg.length →
      Questions (pos + n + 4) count next → Questions pos (count + 1) next

variable (msg) in
/-- A message with its answer section: a header of twelve bytes, the questions and the records that
it counts, and what comes behind them. -/
def Message (answers : List Record) : Prop :=
  12 ≤ msg.length ∧ ∃ qdcount ancount next, Short msg 4 qdcount ∧ Short msg 6 ancount ∧
    Questions msg 12 qdcount.toNat next ∧ ancount.toNat = answers.length ∧ Records msg next answers

end Dns
