import Taningia.Srv.Answer

set_option relaxedAutoImplicit false
set_option autoImplicit false

/-!
# Which bytes of the answer are read

The loops compare the pointer with the end of the answer once for each question and record, and a
record has ten bytes behind its name, or sixteen in front of the name of a target. A record that
starts in front of the end may so be read beyond it. For the other direction the bytes that decide
the next step have to be those of the answer, which they are as long as everything was inside.

## Main definitions

* `Taningia.Answer.Inside` — the offsets of the answer.
* `Taningia.questionsEnd`, `Taningia.FieldsFit` — where the records start, and that those that start
  inside have their fields inside.

## Main results

* `Taningia.inside_readRecord_iff` — which bytes one record reads.
* `Taningia.inside_answerLoop_iff` — the same for all records.
* `Taningia.srv_reads_inside_iff` — the answers of which nothing beyond the end is read.
-/

namespace Taningia

/-- The offset is that of a byte of the answer. -/
def Answer.Inside (a : Answer) (i : ℤ) : Prop := 0 ≤ i ∧ i < a.bytes.length

/-- The 16-bit number at an offset of a message. -/
def shortAt (msg : List UInt8) (i : ℤ) : UInt16 :=
  .ofNat (256 * (msg.getD i.toNat 0).toNat + (msg.getD (i + 1).toNat 0).toNat)

/-- Where the section behind the questions starts. -/
def questionsEnd (lib : Resolver) (msg : List UInt8) : ℕ → ℤ → ℤ
  | 0, p => p
  | count + 1, p =>
    if p < msg.length then questionsEnd lib msg count (p + lib.dnExpand msg p + 4) else p

/-- Every record that starts inside the message has the ten bytes behind its name inside, and the
six bytes behind those when it is a service record of the Internet class. -/
def FieldsFit (lib : Resolver) (msg : List UInt8) : ℕ → ℤ → Prop
  | 0, _ => True
  | count + 1, p =>
    p < msg.length →
      p + lib.dnExpand msg p + 10 ≤ msg.length ∧
        if shortAt msg (p + lib.dnExpand msg p) = Dns.tSrv ∧
            shortAt msg (p + lib.dnExpand msg p + 2) = Dns.cIn then
          p + lib.dnExpand msg p + 16 ≤ msg.length ∧
            FieldsFit lib msg count (p + lib.dnExpand msg p + 16 +
              lib.dnExpand msg (p + lib.dnExpand msg p + 16))
        else FieldsFit lib msg count (p + lib.dnExpand msg p + 10 +
          (shortAt msg (p + lib.dnExpand msg p + 8)).toNat)

/-- The bytes of the header that are read are there, and the records fit. -/
def AnswerFits (lib : Resolver) (msg : List UInt8) : Prop :=
  msg = [] ∨ 8 ≤ msg.length ∧ FieldsFit lib msg (shortAt msg 6).toNat
    (questionsEnd lib msg (shortAt msg 4).toNat 12)

variable {lib : Resolver} {a : Answer}

/-- Inside the answer the memory has its bytes. -/
lemma Answer.short_of_inside {i : ℤ} (h0 : 0 ≤ i) (h : i + 2 ≤ a.bytes.length) :
    a.short i = shortAt a.bytes i := by
  have hfirst : 0 ≤ i ∧ i < a.bytes.length := by omega
  have hsecond : 0 ≤ i + 1 ∧ i + 1 < a.bytes.length := by omega
  rw [Answer.short, Answer.byte, Answer.byte, if_pos hfirst, if_pos hsecond, shortAt]

/-- A service record of the Internet class has its fields at the offset. -/
def Answer.SrvAt (a : Answer) (f : ℤ) : Prop :=
  a.short f = Dns.tSrv ∧ a.short (f + 2) = Dns.cIn

instance (a : Answer) (f : ℤ) : Decidable (a.SrvAt f) := inferInstanceAs (Decidable (_ ∧ _))

/-- The test of the loop, for a record that is not skipped. -/
lemma Answer.SrvAt.not_skipped {f : ℤ} (h : a.SrvAt f) :
    ¬ (a.short f ≠ Dns.tSrv ∨ a.short (f + 2) ≠ Dns.cIn) := by
  rw [not_or, not_not, not_not]
  exact h

/-- The test of the loop, for one that is. -/
lemma skipped_of_not_srvAt {f : ℤ} (h : ¬ a.SrvAt f) :
    a.short f ≠ Dns.tSrv ∨ a.short (f + 2) ≠ Dns.cIn := not_and_or.mp h

/-! ## The questions -/

variable (lib a) in
/-- The questions read nothing, and end where they should. -/
lemma questionLoop_eq (count : ℕ) (s : Reading) :
    (questionLoop lib a count s).p = questionsEnd lib a.bytes count s.p ∧
      (questionLoop lib a count s).reads = s.reads := by
  induction count generalizing s with
  | zero => exact ⟨rfl, rfl⟩
  | succ count ih =>
    rw [questionLoop, questionsEnd]
    by_cases hlt : s.p < a.bytes.length
    · rw [if_pos hlt, if_pos hlt]
      exact ih _
    · rw [if_neg hlt, if_neg hlt]
      exact ⟨rfl, rfl⟩

/-- The pointer does not go back behind the header. -/
lemma le_questionsEnd (msg : List UInt8) (count : ℕ) {p : ℤ} (hp : 12 ≤ p) :
    12 ≤ questionsEnd lib msg count p := by
  induction count generalizing p with
  | zero => exact hp
  | succ count ih =>
    rw [questionsEnd]
    split
    · have := lib.dnExpand_ge msg p
      exact ih (by omega)
    · exact hp

/-! ## The records -/

/-- Where one record leaves the pointer. -/
lemma p_readRecord (s : Reading) {f : ℤ} (hf : s.p + lib.dnExpand a.bytes s.p = f) :
    (readRecord lib a s).p =
      if a.SrvAt f then f + 16 + lib.dnExpand a.bytes (f + 16)
      else f + 10 + (a.short (f + 8)).toNat := by
  simp only [readRecord, expandName, getShort, getLong, hf, Int.add_assoc, Int.reduceAdd]
  by_cases hsrv : a.SrvAt f
  · rw [if_pos hsrv, if_neg hsrv.not_skipped]
  · rw [if_neg hsrv, if_pos (skipped_of_not_srvAt hsrv)]

/-- Which bytes one record reads. -/
lemma reads_readRecord (s : Reading) {f : ℤ} (hf : s.p + lib.dnExpand a.bytes s.p = f) :
    (readRecord lib a s).reads =
      s.reads ++ [f, f + 1, f + 2, f + 3, f + 4, f + 5, f + 6, f + 7, f + 8, f + 9] ++
        if a.SrvAt f then [f + 10, f + 11, f + 12, f + 13, f + 14, f + 15] else [] := by
  simp only [readRecord, expandName, getShort, getLong, hf, Int.add_assoc, Int.reduceAdd]
  by_cases hsrv : a.SrvAt f
  · rw [if_pos hsrv, if_neg hsrv.not_skipped]
    simp
  · rw [if_neg hsrv, if_pos (skipped_of_not_srvAt hsrv)]
    simp

/-- **One record** reads inside the answer exactly when its fields are inside.

**Proof sketch.** The reads of the record are listed by `reads_readRecord`: the fixed fields,
and three fields more where the record is an SRV record of the class IN. -/
lemma inside_readRecord_iff {s : Reading} {f : ℤ} (hf : s.p + lib.dnExpand a.bytes s.p = f)
    (hpos : 0 ≤ f) :
    (∀ i ∈ (readRecord lib a s).reads, a.Inside i) ↔
      (∀ i ∈ s.reads, a.Inside i) ∧ f + 10 ≤ a.bytes.length ∧
        (a.SrvAt f → f + 16 ≤ a.bytes.length) := by
  rw [reads_readRecord s hf, List.append_assoc, List.forall_mem_append]
  refine and_congr_right fun _ => ?_
  by_cases hsrv : a.SrvAt f
  · rw [if_pos hsrv]
    simp only [Answer.Inside, List.cons_append, List.nil_append, List.forall_mem_cons,
      List.not_mem_nil, IsEmpty.forall_iff, implies_true, and_true, hsrv, true_imp_iff]
    omega
  · rw [if_neg hsrv]
    simp only [Answer.Inside, List.append_nil, List.forall_mem_cons, List.not_mem_nil,
      IsEmpty.forall_iff, implies_true, and_true, hsrv]
    omega

/-- The loop only adds to what was read. -/
lemma inside_of_answerLoop {count : ℕ} {s : Reading}
    (h : ∀ i ∈ (answerLoop lib a count s).reads, a.Inside i) : ∀ i ∈ s.reads, a.Inside i := by
  induction count generalizing s with
  | zero => exact h
  | succ count ih =>
    rw [answerLoop] at h
    split at h
    · have hnext := ih h
      rw [reads_readRecord s rfl, List.append_assoc, List.forall_mem_append] at hnext
      exact hnext.1
    · exact h

/-- **All records** read inside the answer exactly when the fields of each of them are inside.

**Proof sketch.** Induction on the count. When the fields of the next record are inside, the numbers
that decide where it ends are those of the answer, and the rest starts at the same place in both. -/
lemma inside_answerLoop_iff (count : ℕ) {s : Reading} (hp : 12 ≤ s.p) :
    (∀ i ∈ (answerLoop lib a count s).reads, a.Inside i) ↔
      (∀ i ∈ s.reads, a.Inside i) ∧ FieldsFit lib a.bytes count s.p := by
  induction count generalizing s with
  | zero => simp [answerLoop, FieldsFit]
  | succ count ih =>
    rw [answerLoop, FieldsFit]
    by_cases hlt : s.p < a.bytes.length
    swap
    · simp [hlt]
    rw [if_pos hlt]
    obtain ⟨f, hf⟩ : ∃ f, s.p + lib.dnExpand a.bytes s.p = f := ⟨_, rfl⟩
    have hge := lib.dnExpand_ge a.bytes s.p
    have hone := inside_readRecord_iff hf (by omega)
    simp only [hf, hlt, true_imp_iff]
    by_cases hten : f + 10 ≤ a.bytes.length
    swap
    · constructor
      · intro h
        exact absurd (hone.mp (inside_of_answerLoop h)).2.1 hten
      · rintro ⟨-, h, -⟩
        exact absurd h hten
    have hshort : ∀ k : ℤ, 0 ≤ k → k ≤ 8 → a.short (f + k) = shortAt a.bytes (f + k) :=
      fun k h0 h8 => Answer.short_of_inside (by omega) (by omega)
    have hsrv : a.SrvAt f ↔
        shortAt a.bytes f = Dns.tSrv ∧ shortAt a.bytes (f + 2) = Dns.cIn := by
      have hfirst := hshort 0 (by omega) (by omega)
      rw [Int.add_zero] at hfirst
      rw [Answer.SrvAt, hfirst, hshort 2 (by omega) (by omega)]
    have hnext := p_readRecord s hf
    have hnonneg := lib.dnExpand_ge a.bytes (f + 16)
    by_cases hkind : a.SrvAt f
    · rw [if_pos hkind] at hnext
      rw [if_pos (hsrv.mp hkind), ih (by omega), hone, hnext]
      simp only [hkind, true_imp_iff, and_assoc]
    · rw [if_neg hkind] at hnext
      rw [if_neg (mt hsrv.mpr hkind), ih (by omega), hone, hnext, hshort 8 (by omega) (by omega)]
      simp only [hkind, false_imp_iff, and_true, and_assoc]

/-- **The bytes of an SRV answer**: the loops read nothing outside the answer exactly when it is
empty or has the eight bytes of the header that are read, and every record that starts in front of
its end also has its fields in front of it.

**Proof sketch.** An empty answer is not read. Otherwise the header is eight bytes, and then one
loop reads behind the other, each inside exactly when its records are. -/
theorem srv_reads_inside_iff (lib : Resolver) (a : Answer) :
    (∀ i ∈ (readAnswer lib a).reads, a.Inside i) ↔ AnswerFits lib a.bytes := by
  unfold readAnswer AnswerFits
  by_cases hempty : a.bytes.length = 0
  · simp [List.length_eq_zero_iff.mp hempty]
  have hne : a.bytes ≠ [] := mt List.length_eq_zero_iff.mpr hempty
  simp only [if_neg hempty, headerField, hne, false_or, List.nil_append]
  obtain ⟨hp, hreads⟩ := questionLoop_eq lib a (a.short 4).toNat
    ⟨12, a.buf, [], [4, 4 + 1]⟩
  have hstart : 12 ≤ questionsEnd lib a.bytes (a.short 4).toNat 12 :=
    le_questionsEnd a.bytes _ le_rfl
  rw [inside_answerLoop_iff _ (by rw [hp]; exact hstart), hp, hreads]
  have hheader : (∀ i ∈ [4, 4 + 1] ++ [(6 : ℤ), 6 + 1], a.Inside i) ↔ 8 ≤ a.bytes.length := by
    simp only [Answer.Inside, List.cons_append, List.nil_append, List.forall_mem_cons,
      List.not_mem_nil, IsEmpty.forall_iff, implies_true, and_true]
    omega
  rw [hheader]
  refine and_congr_right fun hlen => ?_
  rw [Answer.short_of_inside (i := 4) (by omega) (by omega),
    Answer.short_of_inside (i := 6) (by omega) (by omega)]

/-- An answer that ends behind the name of its record. -/
def truncatedAnswer : Answer where
  bytes := [0, 7, 129, 128, 0, 0, 0, 1, 0, 0, 0, 0, 0]
  around _ := 0
  buf := []

/-- The type of the record of a truncated answer is read behind its end. -/
theorem srv_reads_truncated :
    ¬ ∀ (lib : Resolver) (a : Answer), a.bytes.length ≤ 1024 →
      ∀ i ∈ (readAnswer lib a).reads, a.Inside i := by
  intro h
  have hin := h wireResolver truncatedAnswer (by decide) 13 (by decide)
  exact absurd hin.2 (by decide)

end Taningia
