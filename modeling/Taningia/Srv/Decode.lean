import Taningia.Srv.Answer
import Taningia.Srv.Order

set_option relaxedAutoImplicit false
set_option autoImplicit false

/-!
# What is read from a well-formed answer

In a message of the format each read finds the field it is meant for: the number that `dn_expand`
returns is the length of the name, and the data of a record end where `rdlength` says, or behind the
name of the target. So the pointer stays at the start of the questions and records.

## Main definitions

* `Taningia.targetOfRecord` — the target that a service record describes.
* `Taningia.ListOf` — a list of targets in memory.

## Main results

* `Taningia.readRecord_of_recordAt` — one record is read, and the pointer is behind it.
* `Taningia.answerLoop_of_records` — the loop reads all of them.
* `Taningia.srv_answer_decoded` — the targets of a well-formed answer.
-/

namespace Taningia

open Chain

/-- The target of a service record of the Internet class; `text` prints names. -/
def targetOfRecord (text : List Dns.Label → Str) (r : Dns.Record) : Option SrvTarget :=
  match r.data with
  | .srv priority weight port target =>
    if r.IsSrv then some ⟨r.ttl, r.cls, priority, weight, port, text target⟩ else none
  | .other _ => none

/-- A list of nodes for all the targets in memory, in their order. -/
def ListOf (ts : List SrvTarget) (h : Heap ℕ) (targets : Option ℕ) : Prop :=
  ∃ l, Rep h targets l ∧ l.map Prod.snd = (List.range ts.length).map some

variable {lib : Resolver} {a : Answer}

/-! ## Numbers -/

/-- A byte of the answer is read. -/
lemma Answer.byte_eq (pos : ℕ) {b : UInt8} (h : a.bytes[pos]? = some b) : a.byte pos = b := by
  have hlt := (List.getElem?_eq_some_iff.mp h).1
  have hin : (0 : ℤ) ≤ pos ∧ (pos : ℤ) < a.bytes.length := by omega
  rw [Answer.byte, if_pos hin, Int.toNat_natCast, List.getD_eq_getElem?_getD, h, Option.getD_some]

/-- Two bytes of the answer are read. -/
lemma Answer.short_eq (pos : ℕ) {v : UInt16} (h : Dns.Short a.bytes pos v) :
    a.short pos = v := by
  obtain ⟨hi, lo, hhi, hlo, hv⟩ := h
  have hnext : a.byte ((pos : ℤ) + 1) = lo := Answer.byte_eq (pos + 1) hlo
  rw [Answer.short, Answer.byte_eq pos hhi, hnext, ← hv, UInt16.ofNat_toNat]

/-- Four bytes of the answer are read. -/
lemma Answer.long_eq (pos : ℕ) {v : UInt32} (h : Dns.Long a.bytes pos v) : a.long pos = v := by
  obtain ⟨hi, lo, hhi, hlo, hv⟩ := h
  have hnext : a.short ((pos : ℤ) + 2) = lo := Answer.short_eq (pos + 2) hlo
  rw [Answer.long, Answer.short_eq pos hhi, hnext, ← hv, UInt32.ofNat_toNat]

/-! ## The loops -/

variable (lib) in
/-- **The questions** are passed.

**Proof sketch.** Induction on the questions. `dn_expand` returns the length of the name, and
the four bytes behind it are passed. -/
lemma questionLoop_of_questions {pos count next : ℕ} (h : Dns.Questions a.bytes pos count next) :
    ∀ s : Reading, s.p = pos →
      (questionLoop lib a count s).p = next ∧
        (questionLoop lib a count s).targets = s.targets := by
  induction h with
  | nil => exact fun s hp => ⟨hp, rfl⟩
  | @cons pos n count next labels hname hlegal hroom _ ih =>
    intro s hp
    have hlt : s.p < a.bytes.length := by
      have := Dns.NameFrom.lt hname
      omega
    have hn := lib.dnExpand_name _ _ _ _ hname hlegal
    rw [questionLoop, if_pos hlt]
    refine ih _ ?_
    simp only [expandName, hp, hn]
    push_cast
    rfl

variable (lib) in
/-- **One record** is read, and the pointer is behind it.

**Proof sketch.** The fields are read behind the name and are those of the record. Where it is
an SRV record of the class IN the target is read from its data, else nothing is; the pointer
moves by the length of the data. -/
lemma readRecord_of_recordAt {pos next : ℕ} {r : Dns.Record}
    (h : Dns.RecordAt a.bytes pos r next) (s : Reading) (hp : s.p = pos) :
    (readRecord lib a s).p = next ∧
      (readRecord lib a s).targets = s.targets ++ (targetOfRecord lib.text r).toList := by
  obtain ⟨n, labels, rdlength, hname, hlegal, htype, hcls, httl, hrd, hdata, hnext, -⟩ := h
  have hn := lib.dnExpand_name _ _ _ _ hname hlegal
  have htype' : a.short ((pos : ℤ) + n) = r.type := by
    simpa using Answer.short_eq _ htype
  have hcls' : a.short ((pos : ℤ) + n + 2) = r.cls := by
    simpa using Answer.short_eq _ hcls
  have httl' : a.long ((pos : ℤ) + n + 2 + 2) = r.ttl := by
    simpa [Int.add_assoc] using Answer.long_eq _ httl
  have hrd' : a.short ((pos : ℤ) + n + 2 + 2 + 4) = rdlength := by
    simpa [Int.add_assoc] using Answer.short_eq _ hrd
  obtain ⟨type, cls, ttl, data⟩ := r
  cases data with
  | other bytes =>
    have hskip : type ≠ Dns.tSrv ∨ cls ≠ Dns.cIn := by
      have := hdata.1
      unfold Dns.Record.IsSrv at this
      tauto
    simp only [readRecord, expandName, getShort, getLong, hp, hn, htype', hcls', httl', hrd',
      if_pos hskip]
    refine ⟨?_, ?_⟩
    · rw [hnext]
      push_cast
      omega
    · simp [targetOfRecord]
  | srv priority weight port target =>
    obtain ⟨hsrv, hprio, hweight, hport, hlegal', m, htarget, hlen⟩ := hdata
    have hkeep : ¬ (type ≠ Dns.tSrv ∨ cls ≠ Dns.cIn) := by
      unfold Dns.Record.IsSrv at hsrv
      tauto
    have hprio' : a.short ((pos : ℤ) + n + 2 + 2 + 4 + 2) = priority := by
      simpa [Int.add_assoc] using Answer.short_eq _ hprio
    have hweight' : a.short ((pos : ℤ) + n + 2 + 2 + 4 + 2 + 2) = weight := by
      simpa [Int.add_assoc] using Answer.short_eq _ hweight
    have hport' : a.short ((pos : ℤ) + n + 2 + 2 + 4 + 2 + 2 + 2) = port := by
      simpa [Int.add_assoc] using Answer.short_eq _ hport
    have hm : lib.dnExpand a.bytes ((pos : ℤ) + n + 2 + 2 + 4 + 2 + 2 + 2 + 2) = m := by
      simpa [Int.add_assoc] using lib.dnExpand_name _ _ _ _ htarget hlegal'
    have htext : ∀ buf, lib.dnBuf a.bytes ((pos : ℤ) + n + 2 + 2 + 4 + 2 + 2 + 2 + 2) buf =
        lib.text target := by
      intro buf
      simpa [Int.add_assoc] using lib.dnBuf_name _ _ _ _ buf htarget hlegal'
    simp only [readRecord, expandName, getShort, getLong, hp, hn, htype', hcls', httl', hrd',
      if_neg hkeep, hprio', hweight', hport', hm, htext]
    refine ⟨?_, ?_⟩
    · rw [hnext, hlen]
      push_cast
      omega
    · simp [targetOfRecord, hsrv]

/-- **All records** are read.

**Proof sketch.** Induction on the records; one is `readRecord_of_recordAt`. -/
lemma answerLoop_of_records {pos : ℕ} {rs : List Dns.Record} (h : Dns.Records a.bytes pos rs) :
    ∀ s : Reading, s.p = pos → (answerLoop lib a rs.length s).targets =
      s.targets ++ rs.filterMap (targetOfRecord lib.text) := by
  induction h with
  | nil => simp [answerLoop]
  | @cons pos next r rs hr _ ih =>
    intro s hp
    have hlt : s.p < a.bytes.length := by
      obtain ⟨n, labels, _, hname, -⟩ := hr
      have := Dns.NameFrom.lt hname
      omega
    obtain ⟨hnext, htargets⟩ := readRecord_of_recordAt lib hr s hp
    rw [List.length_cons, answerLoop, if_pos hlt, ih _ hnext, htargets, List.append_assoc]
    congr 1
    cases hcase : targetOfRecord lib.text r <;> simp [hcase]

/-- The list that is made of the targets. -/
lemma exists_listOf (ts : List SrvTarget) :
    ∃ h targets, appendTargets (Heap.empty ℕ) none (List.range ts.length) = some (h, targets) ∧
      ListOf ts h targets := by
  have hempty : Rep (Heap.empty ℕ) none [] := ⟨rfl, trivial, List.nodup_nil, by simp⟩
  obtain ⟨h, l, happend, hr, hdata⟩ := appendTargets_spec (List.range ts.length) hempty
  exact ⟨h, _, happend, l, hr, hdata⟩

/-- **SRV answers**: from a message of the format exactly the service records of the Internet class
are read, in their order and with all their fields, and the list of targets is made of them.

**Proof sketch.** The header counts the questions and records. A question and a record are read with
the pointer at their starts, and end where the next one starts. -/
theorem srv_answer_decoded (lib : Resolver) (a : Answer) (answers : List Dns.Record)
    (hmsg : Dns.Message a.bytes answers) :
    (readAnswer lib a).targets = answers.filterMap (targetOfRecord lib.text) ∧
      ∃ h targets, appendTargets (Heap.empty ℕ) none
          (List.range (readAnswer lib a).targets.length) = some (h, targets) ∧
        ListOf (readAnswer lib a).targets h targets := by
  obtain ⟨hlen, qdcount, ancount, next, hqd, han, hquestions, hcount, hrecords⟩ := hmsg
  have hne : ¬ a.bytes.length = 0 := by omega
  have hqd' : a.short 4 = qdcount := Answer.short_eq 4 hqd
  have han' : a.short 6 = ancount := Answer.short_eq 6 han
  refine ⟨?_, exists_listOf _⟩
  simp only [readAnswer, if_neg hne, headerField, hqd', han', hcount]
  obtain ⟨hp, htargets⟩ := questionLoop_of_questions lib hquestions
    ⟨12, a.buf, [], [] ++ [4, 4 + 1]⟩ rfl
  refine (answerLoop_of_records hrecords _ ?_).trans ?_
  · exact hp
  · dsimp only
    rw [htargets, List.nil_append]

/-- A response with one service record, whose target is given by a pointer to the question, and a
record of another type. -/
def sampleAnswer : Answer where
  bytes :=
    [0, 7, 129, 128, 0, 1, 0, 2, 0, 0, 0, 0,
     1, 120, 0, 0, 33, 0, 1,
     192, 12, 0, 1, 0, 1, 0, 0, 0, 60, 0, 2, 10, 0,
     192, 12, 0, 33, 0, 1, 0, 0, 14, 16, 0, 8, 0, 10, 0, 5, 20, 149, 192, 12]
  around _ := 0
  buf := []

/-- The records of the response. -/
def sampleRecords : List Dns.Record :=
  [⟨1, 1, 60, .other [10, 0]⟩, ⟨33, 1, 3600, .srv 10 5 5269 [[120]]⟩]

/-- The target of the sample is read.

**Proof sketch.** `srv_answer_decoded`; the answer is a message, with the name of its record a
pointer to the one in the question. -/
theorem srv_answer_sample :
    (readAnswer wireResolver sampleAnswer).targets =
      sampleRecords.filterMap (targetOfRecord wireResolver.text) := by
  refine (srv_answer_decoded wireResolver sampleAnswer sampleRecords ?_).1
  have hroot : Dns.NameFrom sampleAnswer.bytes 12 14 1 [] := .root rfl
  have hquestion : Dns.NameAt sampleAnswer.bytes 12 3 [[120]] :=
    .label (show sampleAnswer.bytes[12]? = some 1 from rfl) (by decide) (by decide) (by decide)
      hroot
  have hpointer : ∀ pos, sampleAnswer.bytes[pos]? = some 192 →
      sampleAnswer.bytes[pos + 1]? = some 12 → 12 + 3 ≤ pos →
      Dns.NameAt sampleAnswer.bytes pos 2 [[120]] :=
    fun pos hhi hlo hlt => .pointer hhi (by decide) hlo hlt hquestion
  have hlegal : Dns.Legal [[120]] := by decide
  have hfirst : Dns.RecordAt sampleAnswer.bytes 19 ⟨1, 1, 60, .other [10, 0]⟩ 33 :=
    ⟨2, [[120]], 2, hpointer 19 rfl rfl (by decide), hlegal, ⟨0, 1, rfl, rfl, rfl⟩,
      ⟨0, 1, rfl, rfl, rfl⟩, ⟨0, 60, ⟨0, 0, rfl, rfl, rfl⟩, ⟨0, 60, rfl, rfl, rfl⟩, rfl⟩,
      ⟨0, 2, rfl, rfl, rfl⟩, ⟨by decide, rfl⟩, rfl, by decide⟩
  have hsecond : Dns.RecordAt sampleAnswer.bytes 33 ⟨33, 1, 3600, .srv 10 5 5269 [[120]]⟩ 53 :=
    ⟨2, [[120]], 8, hpointer 33 rfl rfl (by decide), hlegal, ⟨0, 33, rfl, rfl, rfl⟩,
      ⟨0, 1, rfl, rfl, rfl⟩, ⟨0, 3600, ⟨0, 0, rfl, rfl, rfl⟩, ⟨14, 16, rfl, rfl, rfl⟩, rfl⟩,
      ⟨0, 8, rfl, rfl, rfl⟩, ⟨by decide, ⟨0, 10, rfl, rfl, rfl⟩, ⟨0, 5, rfl, rfl, rfl⟩,
      ⟨20, 149, rfl, rfl, rfl⟩, hlegal, 2, hpointer 51 rfl rfl (by decide), rfl⟩, rfl, by decide⟩
  exact ⟨by decide, 1, 2, 19, ⟨0, 1, rfl, rfl, rfl⟩, ⟨0, 2, rfl, rfl, rfl⟩,
    .cons hquestion hlegal (by decide) .nil, rfl, .cons hfirst (.cons hsecond .nil)⟩

end Taningia
