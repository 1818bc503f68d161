import Taningia.Buf.Format

set_option relaxedAutoImplicit false
set_option autoImplicit false

/-!
# Formatted text that cannot be printed

`vsnprintf` returns the length of the full text, or `-1` when the text has a letter without an
encoding. `ta_buf_vcatf` tests for `-1`, but adds the result to the length of the buffer before. So
each turn that fails makes the buffer one letter shorter and asks for one byte less, and the loop
goes on: it returns `TA_OK` for a text behind the shorter contents, `TA_ERROR` with a changed
length, or prints in front of the block.

## Main definitions

* `Taningia.PrintResult` — the results of `vsnprintf`.
* `Taningia.vcatfTurn`, `Taningia.vcatfAfter` — `ta_buf_vcatf`, turn by turn.
* `Taningia.EndsCleanly` — the call ends, and appends the text or changes nothing.

## Main results

* `Taningia.vcatfAfter_of_bufVcatf` — without such letters the turns are those of `bufVcatf`.
* `Taningia.Shortened.turn`, `Taningia.Shortened.run` — the length never gets back to what it was.
* `Taningia.vcatf_ends_cleanly_iff` — when the call ends cleanly.
-/

namespace Taningia

/-! ## The loop, turn by turn -/

/-- What `vsnprintf` does: it prints the text, or it finds a letter without an encoding and leaves
some letters behind. -/
inductive PrintResult where
  | full
  | encodingError (left : Str)
deriving DecidableEq

/-- `vsnprintf (ptr + off, size, format, args)` with either result. -/
def printWith (ptr : Option (Block Char)) (off : ℤ) (size : ℕ) (f : Formatted) :
    PrintResult → Option (ℤ × Option (Block Char))
  | .full => printAt ptr off size f
  | .encodingError left =>
    if size = 0 then some (-1, ptr)
    else ptr.bind fun block =>
      (block.write off (left.take size)).map fun block => (-1, some block)

/-- The buffer and the variable `allocated_size` of `ta_buf_vcatf`. -/
structure Vcatf where
  buf : Buf
  allocatedSize : ℤ
deriving DecidableEq

/-- How `ta_buf_vcatf` ends: it prints outside the block or does not leave the loop of
`_buf_realloc`, or it returns. -/
inductive VcatfEnd where
  | fails
  | returned (status : ℤ) (b : Buf)
deriving DecidableEq

/-- `if (_buf_realloc (b, allocated_size) != TA_OK) return TA_ERROR`. -/
def vcatfReserve (b : Buf) (allocatedSize : ℤ) (memory : Bool) : Except VcatfEnd Vcatf :=
  match bufRealloc b allocatedSize memory with
  | none => .error .fails
  | some (status, b) =>
    if status ≠ taOk then .error (.returned taError b) else .ok ⟨b, allocatedSize⟩

/-- One turn of the loop of `ta_buf_vcatf`. -/
def vcatfTurn (f : Formatted) (result : PrintResult) (memory : Bool) (s : Vcatf) :
    Except VcatfEnd Vcatf :=
  match printWith s.buf.ptr s.buf.stringLength
      (toSize (toInt (s.buf.allocatedSize - s.buf.stringLength))) f result with
  | none => .error .fails
  | some (n, ptr) =>
    let b := { s.buf with ptr := ptr, stringLength := toInt (s.buf.stringLength + n) }
    if n > -1 ∧ n ≤ b.stringLength then .error (.returned taOk b)
    else vcatfReserve b (toInt (s.allocatedSize + n)) memory

/-- `ta_buf_vcatf` after some turns, with the result of `vsnprintf` in each and the outcomes of the
reallocations. -/
def vcatfAfter (b : Buf) (f : Formatted) (results : ℕ → PrintResult) (memory : ℕ → Bool) :
    ℕ → Except VcatfEnd Vcatf
  | 0 => vcatfReserve b (firstRequest b f) (memory 0)
  | n + 1 =>
    (vcatfAfter b f results memory n).bind (vcatfTurn f (results n) (memory (n + 1)))

/-- The text was appended, where nothing is to be done for an empty one; or `TA_ERROR` was returned
and the text that the buffer had is still there. -/
def Clean (b : Buf) (text : Str) (status : ℤ) (b' : Buf) : Prop :=
  (AppendsText b text b' ∨
    text = [] ∧ b'.stringLength = b.stringLength ∧ b'.contents = b.contents) ∨
  (status = taError ∧ b'.stringLength = b.stringLength ∧ b'.contents = b.contents)

/-- The call returns, and leaves the buffer clean. -/
structure EndsCleanly (b : Buf) (f : Formatted) (results : ℕ → PrintResult) (memory : ℕ → Bool) :
    Prop where
  ends : ∃ n status b', vcatfAfter b f results memory n = .error (.returned status b')
  clean : ∀ n status b', vcatfAfter b f results memory n = .error (.returned status b') →
    Clean b f.text status b'

/-- The first reservation of `ta_buf_vcatf` needs memory and does not get it. -/
def Refused (b : Buf) (f : Formatted) (more : Bool) : Prop :=
  ¬ (firstRequest b f = 0 ∨ firstRequest b f ≤ b.allocatedSize) ∧
    ∃ size, newSize b.allocatedSize (firstRequest b f) = some size ∧
      realloc b.ptr size more = none

/-! ## Without encoding errors -/

variable {b : Buf} {f : Formatted} {results : ℕ → PrintResult} {memory : ℕ → Bool}

/-- The turn after those that went on. -/
lemma vcatfAfter_succ {n : ℕ} {s : Vcatf} (h : vcatfAfter b f results memory n = .ok s) :
    vcatfAfter b f results memory (n + 1) = vcatfTurn f (results n) (memory (n + 1)) s := by
  rw [vcatfAfter, h]
  rfl

/-- The loop with its reallocations in a list is the loop turn by turn.

**Proof sketch.** Induction on the reallocations that are left: both run the same turn, which
returns or goes on with the next one of the list. -/
lemma vcatfAfter_of_vcatfLoop {ms : List Bool} {k : ℕ} {s : Vcatf} {status : ℤ} {b' : Buf}
    (hk : vcatfAfter b f (fun _ => .full) memory k = .ok s)
    (hms : ∀ i, memory (k + 1 + i) = ms.getD i false)
    (h : vcatfLoop s.buf s.allocatedSize f ms = some (status, b')) :
    ∃ n, vcatfAfter b f (fun _ => .full) memory n = .error (.returned status b') := by
  induction ms generalizing k s with
  | nil =>
    have hnext := vcatfAfter_succ hk
    obtain ⟨⟨n, ptr⟩, hprint, h⟩ := Option.bind_eq_some_iff.mp (by rwa [vcatfLoop] at h)
    simp only at h
    split_ifs at h with hdone
    cases h
    refine ⟨k + 1, hnext.trans ?_⟩
    rw [vcatfTurn, printWith, hprint]
    exact if_pos hdone
  | cons more ms ih =>
    have hnext := vcatfAfter_succ hk
    obtain ⟨⟨n, ptr⟩, hprint, h⟩ := Option.bind_eq_some_iff.mp (by rwa [vcatfLoop] at h)
    simp only at h
    rw [vcatfTurn, printWith, hprint] at hnext
    simp only at hnext
    split_ifs at h hnext with hdone
    · cases h
      exact ⟨k + 1, hnext⟩
    · obtain ⟨⟨status₁, b₁⟩, hcall, h⟩ := Option.bind_eq_some_iff.mp h
      have hmore : memory (k + 1) = more := hms 0
      rw [vcatfReserve, hmore, hcall] at hnext
      simp only at h hnext
      split_ifs at h hnext with hstatus
      · cases h
        exact ⟨k + 1, hnext⟩
      · refine ih hnext (fun i => ?_) h
        rw [← List.getD_cons_succ (x := more), ← hms]
        congr 1
        omega

/-- **Without encoding errors** the call returns what `bufVcatf` returns.

**Proof sketch.** The first reservation is the same in both; behind it the loops agree
(`vcatfAfter_of_vcatfLoop`). -/
lemma vcatfAfter_of_bufVcatf {more : Bool} {ms : List Bool} {status : ℤ} {b' : Buf}
    (h : bufVcatf b f more ms = some (status, b')) :
    ∃ n, vcatfAfter b f (fun _ => .full) (fun i => (more :: ms).getD i false) n =
      .error (.returned status b') := by
  obtain ⟨⟨status₁, b₁⟩, hcall, h⟩ := Option.bind_eq_some_iff.mp (by rwa [bufVcatf] at h)
  have hstart : vcatfAfter b f (fun _ => .full) (fun i => (more :: ms).getD i false) 0 =
      if status₁ ≠ taOk then .error (.returned taError b₁) else .ok ⟨b₁, firstRequest b f⟩ := by
    rw [vcatfAfter, vcatfReserve]
    simp only [List.getD_cons_zero]
    rw [firstRequest, hcall]
  simp only at h
  split_ifs at h hstart with hstatus
  · cases h
    exact ⟨0, hstart⟩
  · refine vcatfAfter_of_vcatfLoop hstart (fun i => ?_) h
    rw [Nat.add_comm, List.getD_cons_succ]

/-! ## A length that was made shorter -/

/-- The call goes on with a shorter length than the buffer had, or it has ended with one: `TA_OK`
then comes with less than the full text behind the contents. -/
def Shortened (b : Buf) (f : Formatted) : Except VcatfEnd Vcatf → Prop
  | .ok s => -2147483648 ≤ s.buf.stringLength ∧ s.buf.stringLength < b.stringLength ∧
      0 ≤ s.buf.allocatedSize ∧ s.buf.allocatedSize ≤ intMax
  | .error .fails => True
  | .error (.returned status b') => b'.stringLength < b.stringLength + f.text.length ∧
      (status = taError → b'.stringLength < b.stringLength)

/-- A shorter length stays through a reservation.

**Proof sketch.** A reallocation returns with the length it was given, or does not return. -/
lemma Shortened.reserve {b₁ : Buf} (hlow : -2147483648 ≤ b₁.stringLength)
    (hshort : b₁.stringLength < b.stringLength) (hnonneg : 0 ≤ b₁.allocatedSize)
    (hsmall : b₁.allocatedSize ≤ intMax) (allocatedSize : ℤ) (more : Bool) :
    Shortened b f (vcatfReserve b₁ allocatedSize more) := by
  unfold vcatfReserve
  cases hcall : bufRealloc b₁ allocatedSize more with
  | none => trivial
  | some r =>
    obtain ⟨status, b₂⟩ := r
    obtain ⟨hlength, hnonneg', hsmall'⟩ := bufRealloc_bounds hcall hnonneg hsmall
    simp only
    split_ifs with hstatus
    · exact ⟨by omega, fun _ => by omega⟩
    · exact ⟨by simp only; omega, by simp only; omega, hnonneg', hsmall'⟩

/-- Nothing can be printed in front of the block, whatever `vsnprintf` does. -/
lemma printWith_of_neg {ptr : Option (Block Char)} {off : ℤ} {size : ℕ} (hoff : off < 0)
    (hsize : size ≠ 0) (result : PrintResult) : printWith ptr off size f result = none := by
  cases result with
  | full => exact printAt_of_neg hoff hsize
  | encodingError left =>
    have hwrite : ∀ block : Block Char, block.write off (left.take size) = none :=
      fun block => if_neg (by omega)
    simp [printWith, hsize, hwrite]

/-- The number that `vsnprintf` returns. -/
def PrintResult.value (f : Formatted) : PrintResult → ℤ
  | .full => f.text.length
  | .encodingError _ => -1

/-- What a write into a block returns. -/
lemma eq_of_written {ptr ptr' : Option (Block Char)} {off n m : ℤ} {xs : Str}
    (h : (ptr.bind fun block => (block.write off xs).map fun block => (m, some block)) =
      some (n, ptr')) : n = m := by
  obtain ⟨block, -, h⟩ := Option.bind_eq_some_iff.mp h
  obtain ⟨block', -, h⟩ := Option.map_eq_some_iff.mp h
  cases h
  rfl

/-- What a print returns depends on the result of the library only.

**Proof sketch.** By cases on the result, and on whether anything is written. -/
lemma printWith_value {ptr ptr' : Option (Block Char)} {off n : ℤ} {size : ℕ}
    {result : PrintResult} (h : printWith ptr off size f result = some (n, ptr')) :
    n = result.value f := by
  cases result with
  | full =>
    unfold printWith printAt vsnprintf at h
    split_ifs at h
    · cases h
      rfl
    · exact eq_of_written h
  | encodingError left =>
    unfold printWith at h
    split_ifs at h
    · cases h
      rfl
    · exact eq_of_written h

/-- A turn that goes on with a shorter length.

**Proof sketch.** The new length is in range and shorter, and the reservation keeps it
(`Shortened.reserve`). -/
lemma Shortened.goesOn {b₁ : Buf} {result : PrintResult} {n : ℤ} {ptr : Option (Block Char)}
    (hprint : printWith b₁.ptr b₁.stringLength
      (toSize (toInt (b₁.allocatedSize - b₁.stringLength))) f result = some (n, ptr))
    (hno : ¬ (n > -1 ∧ n ≤ toInt (b₁.stringLength + n)))
    (hshort : toInt (b₁.stringLength + n) < b.stringLength) (hnonneg : 0 ≤ b₁.allocatedSize)
    (hsmall : b₁.allocatedSize ≤ intMax) (allocatedSize : ℤ) (more : Bool) :
    Shortened b f (vcatfTurn f result more ⟨b₁, allocatedSize⟩) := by
  rw [vcatfTurn, hprint]
  simp only [if_neg hno]
  apply Shortened.reserve
  · exact (toInt_range _).1
  · exact hshort
  · exact hnonneg
  · exact hsmall

/-- **One turn** does not bring the length back to what it was: from a length in front of the block
it cannot print, and else it adds the text to the shorter contents, or it is one letter further
off.

**Proof sketch.** From a negative length the print is in front of the block. From another one
the print returns the length of the text or `-1`. A sum in range returns with an open string or
goes on with a smaller length; a sum that wraps around goes on with a negative one. -/
lemma Shortened.turn {b₁ : Buf} {allocatedSize : ℤ}
    (hs : Shortened b f (.ok ⟨b₁, allocatedSize⟩)) (hb : b.stringLength ≤ intMax)
    (result : PrintResult) (more : Bool) :
    Shortened b f (vcatfTurn f result more ⟨b₁, allocatedSize⟩) := by
  obtain ⟨hlow, hshort, hnonneg, hsmall⟩ : -2147483648 ≤ b₁.stringLength ∧
    b₁.stringLength < b.stringLength ∧ 0 ≤ b₁.allocatedSize ∧ b₁.allocatedSize ≤ intMax := hs
  have hreturned := f.returned
  cases hprint : printWith b₁.ptr b₁.stringLength
      (toSize (toInt (b₁.allocatedSize - b₁.stringLength))) f result with
  | none =>
    rw [vcatfTurn, hprint]
    trivial
  | some r =>
    obtain ⟨n, ptr⟩ := r
    have hstart : 0 ≤ b₁.stringLength := by
      by_contra hneg
      have hsize := roomSize_ne_zero hlow (not_le.mp hneg) hnonneg hsmall
      rw [printWith_of_neg (not_le.mp hneg) hsize] at hprint
      cases hprint
    have hn : n = f.text.length ∨ n = -1 := by
      rw [printWith_value hprint]
      cases result with
      | full => exact .inl rfl
      | encodingError left => exact .inr rfl
    rcases le_or_gt (b₁.stringLength + n) intMax with hsum | hsum
    · have hint : toInt (b₁.stringLength + n) = b₁.stringLength + n :=
        toInt_of_range (by omega) hsum
      rcases hn with hn | hn
      · rw [vcatfTurn, hprint]
        simp only [hint]
        rw [if_pos ⟨by omega, by omega⟩]
        exact ⟨by simp only; omega, fun h => absurd h (by decide)⟩
      · exact Shortened.goesOn hprint (by omega) (by omega) hnonneg hsmall _ more
    · have hwrap : toInt (b₁.stringLength + n) = b₁.stringLength + n - 4294967296 :=
        toInt_of_overflow hsum (by omega)
      unfold intMax at hb hreturned hsum
      exact Shortened.goesOn hprint (by omega) (by omega) hnonneg hsmall _ more

/-- An end is the end. -/
lemma vcatfAfter_error {e : VcatfEnd} {n k : ℕ} (h : vcatfAfter b f results memory n = .error e)
    (hk : n ≤ k) : vcatfAfter b f results memory k = .error e := by
  induction k, hk using Nat.le_induction with
  | base => exact h
  | succ k _ ih =>
    rw [vcatfAfter, ih]
    rfl

/-- **All turns** behind one that made the length shorter.

**Proof sketch.** Induction on the turns; one turn is `Shortened.turn`. -/
lemma Shortened.run (hb : b.stringLength ≤ intMax) {n k : ℕ} (hk : n ≤ k)
    (h : Shortened b f (vcatfAfter b f results memory n)) :
    Shortened b f (vcatfAfter b f results memory k) := by
  induction k, hk using Nat.le_induction with
  | base => exact h
  | succ k _ ih =>
    cases hafter : vcatfAfter b f results memory k with
    | error e =>
      rw [vcatfAfter_error hafter k.le_succ, ← hafter]
      exact ih
    | ok s =>
      rw [hafter] at ih
      rw [vcatfAfter_succ hafter]
      exact ih.turn hb _ _

/-! ## How the call ends -/

/-- **A shorter length is not clean**, wherever the call goes from there. -/
lemma Shortened.not_endsCleanly (hb : b.stringLength ≤ intMax) {k : ℕ}
    (h : Shortened b f (vcatfAfter b f results memory k)) : ¬ EndsCleanly b f results memory := by
  rintro ⟨⟨n, status, b', hn⟩, hclean⟩
  have hmax := vcatfAfter_error hn (le_max_left n k)
  have hshort := h.run hb (le_max_right n k)
  rw [hmax] at hshort
  obtain ⟨hless, herror⟩ := hshort
  rcases hclean n status b' hn with (happends | ⟨htext, hlength, -⟩) | ⟨hstatus, hlength, -⟩
  · exact absurd happends.1 hless.ne
  · rw [htext, List.length_nil] at hless
    omega
  · exact absurd hlength (herror hstatus).ne

/-- A call that has returned ends cleanly when it has left the buffer clean. -/
lemma endsCleanly_iff_of_returned {k : ℕ} {status : ℤ} {b' : Buf}
    (h : vcatfAfter b f results memory k = .error (.returned status b')) :
    EndsCleanly b f results memory ↔ Clean b f.text status b' := by
  constructor
  · intro hends
    exact hends.clean k status b' h
  · intro hclean
    refine ⟨⟨k, status, b', h⟩, fun n status' b'' hn => ?_⟩
    have hmax := vcatfAfter_error hn (le_max_left n k)
    rw [vcatfAfter_error h (le_max_right n k)] at hmax
    cases hmax
    exact hclean

/-- The first reservation: refused, without an end, or with a size.

**Proof sketch.** By cases on whether the block has room, and then on the new size: none, a
negative one or one that memory is asked for. -/
lemma vcatfReserve_cases (hb : b.Spacious) (f : Formatted) (more : Bool) :
    (Refused b f more ∧ vcatfReserve b (firstRequest b f) more = .error (.returned taError b)) ∨
    (¬ Refused b f more ∧ (∀ size, ¬ Reserved b f more size) ∧
      vcatfReserve b (firstRequest b f) more = .error .fails) ∨
    (¬ Refused b f more ∧ ∃ b₁, (∀ size, Reserved b f more size ↔ size = b₁.allocatedSize) ∧
      vcatfReserve b (firstRequest b f) more = .ok ⟨b₁, firstRequest b f⟩ ∧ b₁.Spacious ∧
      b₁.stringLength = b.stringLength ∧ b₁.contents = b.contents) := by
  by_cases hroom : firstRequest b f = 0 ∨ firstRequest b f ≤ b.allocatedSize
  · refine .inr (.inr ⟨fun h => h.1 hroom, b, fun size => ?_, ?_, hb, rfl, rfl⟩)
    · rw [Reserved, if_pos hroom]
    · rw [vcatfReserve, bufRealloc, if_pos hroom]
      rfl
  cases hnew : newSize b.allocatedSize (firstRequest b f) with
  | none =>
    refine .inr (.inl ⟨?_, fun size => ?_, ?_⟩)
    · rintro ⟨-, size, hsize, -⟩
      rw [hnew] at hsize
      cases hsize
    · rw [Reserved, if_neg hroom, hnew]
      rintro ⟨hsize, -⟩
      cases hsize
    · rw [vcatfReserve, bufRealloc, if_neg hroom, hnew]
      rfl
  | some size =>
    by_cases hmem : more = true ∧ 0 ≤ size
    · have hsize : Reserved b f more size := by
        rw [Reserved, if_neg hroom]
        exact ⟨hnew, hmem⟩
      obtain ⟨b₁, hcall, hb₁, hsize₁, hlength, hcontents⟩ := hb.reserve hsize
      refine .inr (.inr ⟨?_, b₁, fun size' => ?_, ?_, hb₁, hlength, hcontents⟩)
      · rintro ⟨-, size', hnew', hnone⟩
        obtain rfl := Option.some.inj (hnew.symm.trans hnew')
        rw [realloc, if_pos hmem] at hnone
        cases hnone
      · rw [Reserved, if_neg hroom, hnew, hsize₁]
        constructor
        · rintro ⟨h, -⟩
          exact (Option.some.inj h).symm
        · rintro rfl
          exact ⟨rfl, hmem⟩
      · rw [vcatfReserve, hcall]
        rfl
    · have hnone : realloc b.ptr size more = none := if_neg hmem
      refine .inl ⟨⟨hroom, size, hnew, hnone⟩, ?_⟩
      rw [vcatfReserve, bufRealloc, if_neg hroom, hnew, Option.map_some, hnone]
      rfl

/-- **The first turn prints the text**: the call ends cleanly exactly when it fits.

**Proof sketch.** A text that fits is appended and the call returns. One that does not fit
leaves a longer length than the block, or one that wraps around; the call then ends with other
contents, or not at all. -/
lemma endsCleanly_iff_of_full {b₁ : Buf} (hb₁ : b₁.Spacious)
    (hlength : b₁.stringLength = b.stringLength) (hcontents : b₁.contents = b.contents)
    (hstart : vcatfAfter b f results memory 0 = .ok ⟨b₁, firstRequest b f⟩)
    (hresult : results 0 = .full) :
    EndsCleanly b f results memory ↔
      f.text.length < b₁.allocatedSize - b.stringLength ∨ f.text = [] := by
  obtain ⟨ptr, hprintAt, happends⟩ := hb₁.printAt f
  have hprint : printWith b₁.ptr b₁.stringLength
      (toSize (toInt (b₁.allocatedSize - b₁.stringLength))) f .full =
    some ((f.text.length : ℤ), ptr) := hprintAt
  have hnext := vcatfAfter_succ hstart
  rw [hresult] at hnext
  have hreturned := f.returned
  obtain ⟨-, hnonneg, hroom, hsmall⟩ := hb₁
  rcases le_or_gt (b₁.stringLength + f.text.length) intMax with hsum | hsum
  · have hint : toInt (b₁.stringLength + f.text.length) = b₁.stringLength + f.text.length :=
      toInt_of_range (by omega) hsum
    rw [vcatfTurn, hprint] at hnext
    simp only [hint] at hnext
    rw [if_pos ⟨by omega, by omega⟩] at hnext
    rw [endsCleanly_iff_of_returned hnext]
    constructor
    · rintro ((⟨-, -, hclosed, -⟩ | ⟨htext, -⟩) | ⟨hstatus, -⟩)
      · simp only at hclosed
        exact .inl (by omega)
      · exact .inr htext
      · exact absurd hstatus (by decide)
    · intro hfits
      by_cases hless : f.text.length < b₁.allocatedSize - b₁.stringLength
      · obtain ⟨hlength', hcontents', hclosed⟩ := happends hless
        exact .inl (.inl ⟨by rw [hlength', hlength], by rw [hcontents', hcontents], hclosed⟩)
      · -- the buffer has no block, and nothing is printed
        have htext : f.text = [] := hfits.resolve_left (by omega)
        have hzero : b₁.allocatedSize - b₁.stringLength = 0 := by
          rw [htext, List.length_nil] at hless
          omega
        rw [hzero] at hprintAt
        obtain ⟨-, rfl⟩ := Prod.mk.inj (Option.some.inj hprintAt)
        refine .inl (.inr ⟨htext, ?_, ?_⟩)
        · rw [htext, List.length_nil, hlength]
          simp
        · rw [← hcontents, htext, List.length_nil]
          simp [Buf.contents]
  · have hwrap : toInt (b₁.stringLength + f.text.length) =
        b₁.stringLength + f.text.length - 4294967296 :=
      toInt_of_overflow hsum (by omega)
    refine iff_of_false ?_ ?_
    · apply Shortened.not_endsCleanly (k := 1) (by omega)
      rw [hnext]
      unfold intMax at hsum hsmall hreturned
      exact Shortened.goesOn hprint (by omega) (by omega) (by omega) hsmall _ _
    · rintro (hfits | htext)
      · omega
      · rw [htext, List.length_nil] at hsum
        omega

/-- **The first turn does not print the text**: the length gets shorter.

**Proof sketch.** The print returns `-1`, which makes the length shorter by one, and no later
turn makes up for it. -/
lemma not_endsCleanly_of_encodingError {b₁ : Buf} {left : Str} (hb₁ : b₁.Spacious)
    (hlength : b₁.stringLength = b.stringLength)
    (hstart : vcatfAfter b f results memory 0 = .ok ⟨b₁, firstRequest b f⟩)
    (hresult : results 0 = .encodingError left) : ¬ EndsCleanly b f results memory := by
  obtain ⟨-, hnonneg, hroom, hsmall⟩ := hb₁
  apply Shortened.not_endsCleanly (k := 1) (by omega)
  rw [vcatfAfter_succ hstart, hresult]
  cases hprint : printWith b₁.ptr b₁.stringLength
      (toSize (toInt (b₁.allocatedSize - b₁.stringLength))) f (.encodingError left) with
  | none =>
    rw [vcatfTurn, hprint]
    trivial
  | some r =>
    obtain ⟨n, ptr⟩ := r
    obtain rfl : n = -1 := printWith_value hprint
    have hint : toInt (b₁.stringLength + -1) = b₁.stringLength + -1 :=
      toInt_of_range (by omega) (by omega)
    exact Shortened.goesOn hprint (by omega) (by omega) (by omega) hsmall _ _

/-- **A formatted append ends cleanly** exactly when the first reservation is refused, or when it
succeeds and the first turn prints a text that fits.

**Proof sketch.** In the first turn a text that fits is appended, and one that does not is cut off.
After an encoding error, or when the new length wraps around, the length is shorter than it was, and
every later turn leaves it so: with `TA_OK` the text stands behind the shorter contents, with
`TA_ERROR` the length has changed, and from a negative length the call prints in front of the
block. -/
theorem vcatf_ends_cleanly_iff (hb : b.Valid) (f : Formatted) (results : ℕ → PrintResult)
    (memory : ℕ → Bool) :
    EndsCleanly b f results memory ↔
      Refused b f (memory 0) ∨
        results 0 = .full ∧ ∃ size, Reserved b f (memory 0) size ∧
          (f.text.length < size - b.stringLength ∨ f.text = []) := by
  have hb₀ := hb.spacious
  rcases vcatfReserve_cases hb₀ f (memory 0) with
    ⟨hrefused, hstart⟩ | ⟨hrefused, hnone, hstart⟩ |
      ⟨hrefused, b₁, hsize, hstart, hb₁, hlength, hcontents⟩
  · refine iff_of_true ?_ (.inl hrefused)
    exact (endsCleanly_iff_of_returned (k := 0) hstart).mpr (.inr ⟨rfl, rfl, rfl⟩)
  · refine iff_of_false ?_ ?_
    · apply Shortened.not_endsCleanly (k := 0) (hb₀.room.trans hb₀.small)
      rw [vcatfAfter, hstart]
      trivial
    · rintro (h | ⟨-, size, h, -⟩)
      · exact hrefused h
      · exact hnone size h
  · simp only [hsize, exists_eq_left, hrefused, false_or]
    cases hresult : results 0 with
    | full =>
      rw [endsCleanly_iff_of_full hb₁ hlength hcontents hstart hresult]
      simp
    | encodingError left =>
      refine iff_of_false (not_endsCleanly_of_encodingError hb₁ hlength hstart hresult) ?_
      simp

/-- `"%ls"` with the text `"text"`. -/
def wideText : Formatted := ⟨"%ls".toList, "text".toList, by decide⟩

/-- The condition for a buffer of eight bytes. -/
theorem vcatf_ends_cleanly_eightBytes :
    EndsCleanly eightBytes wideText (fun _ => .full) (fun _ => true) ↔
      Refused eightBytes wideText true ∨
        PrintResult.full = .full ∧ ∃ size, Reserved eightBytes wideText true size ∧
          (wideText.text.length < size - eightBytes.stringLength ∨ wideText.text = []) :=
  vcatf_ends_cleanly_iff valid_eightBytes wideText (fun _ => .full) (fun _ => true)

/-- **An encoding error makes the call print in front of the block**: its length is `-1` in the
second turn. -/
theorem vcatf_prints_in_front :
    vcatfAfter eightBytes wideText (fun _ => .encodingError []) (fun _ => true) 2 =
        .error .fails ∧
      ¬ EndsCleanly eightBytes wideText (fun _ => .encodingError []) (fun _ => true) := by
  have hfails : vcatfAfter eightBytes wideText (fun _ => .encodingError []) (fun _ => true) 2 =
      .error .fails := by decide
  refine ⟨hfails, Shortened.not_endsCleanly (k := 2) (by decide) ?_⟩
  rw [hfails]
  trivial

end Taningia
