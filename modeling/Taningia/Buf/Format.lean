import Taningia.Buf.Run

set_option relaxedAutoImplicit false
set_option autoImplicit false

/-!
# Formatted text in the string buffer

`ta_buf_vcatf` reserves as many bytes as the format string has, prints, adds the length of the full
text to the length of the buffer and then compares the two: `n <= string_length`. The test holds for
every text, whether it was cut off or not.

## Main definitions

* `Taningia.Buf.Valid` — a buffer that the function is called with.
* `Taningia.Reserved` — the size of the block when the text is printed.
* `Taningia.AppendsText` — the full text was appended.

## Main results

* `Taningia.vcatf_appends_iff` — the full text is appended exactly when it is shorter than the room.
-/

namespace Taningia

/-- There is room behind the text, or the buffer is empty and has no block. -/
def Buf.Valid (b : Buf) : Prop :=
  b = bufInit ∨ ∃ block, b.ptr = some block ∧ (block.length : ℤ) = b.allocatedSize ∧
    0 ≤ b.stringLength ∧ b.stringLength < b.allocatedSize ∧ b.allocatedSize ≤ intMax

/-- The bytes of the text. -/
def Buf.contents (b : Buf) : Block Char := (b.ptr.getD []).take b.stringLength.toNat

/-- The buffer has its old contents and the full text, and is closed behind them. -/
def AppendsText (b : Buf) (text : Str) (b' : Buf) : Prop :=
  b'.stringLength = b.stringLength + text.length ∧
    b'.contents = b.contents ++ text.map some ∧ Terminated b'

/-- The request of `ta_buf_vcatf` before it prints. -/
def firstRequest (b : Buf) (f : Formatted) : ℤ := toInt (b.allocatedSize + f.format.length)

/-- The first reservation of `ta_buf_vcatf` succeeds, and the block has the size then. -/
def Reserved (b : Buf) (f : Formatted) (more : Bool) (size : ℤ) : Prop :=
  if firstRequest b f = 0 ∨ firstRequest b f ≤ b.allocatedSize then size = b.allocatedSize
  else newSize b.allocatedSize (firstRequest b f) = some size ∧ more = true ∧ 0 ≤ size

/-! ## The reservation -/

/-- What the printing needs of a buffer. -/
structure Buf.Spacious (b : Buf) : Prop where
  block : ((b.ptr.getD []).length : ℤ) = b.allocatedSize
  start : 0 ≤ b.stringLength
  room : b.stringLength ≤ b.allocatedSize
  small : b.allocatedSize ≤ intMax

/-- A valid buffer has room for what it says. -/
lemma Buf.Valid.spacious {b : Buf} (h : b.Valid) : b.Spacious := by
  rcases h with rfl | ⟨block, hptr, hblock, hstart, hroom, hsmall⟩
  · exact ⟨rfl, by decide, by decide, by decide⟩
  · exact ⟨by rw [hptr]; exact hblock, hstart, hroom.le, hsmall⟩

/-- The loop of the growth stops at the request or above it. -/
lemma growSize_bounds {fuel : ℕ} {size requestedSize r : ℤ} (hsize : size ≤ intMax)
    (h : growSize fuel size requestedSize = some r) : requestedSize ≤ r ∧ r ≤ intMax := by
  induction fuel generalizing size with
  | zero => cases h
  | succ fuel ih =>
    rw [growSize] at h
    split at h
    · exact ih (toInt_range _).2 h
    · rename_i hge
      obtain rfl := Option.some.inj h
      exact ⟨by omega, hsize⟩

/-- A size that a `realloc` may accept is at least the request.

**Proof sketch.** The loop ends at the request or above it. Rounding to whole words goes down by
less than is added before, unless the sum wraps around, and then the size is negative. -/
lemma newSize_bounds {size requestedSize r : ℤ} (hsize : size ≤ intMax)
    (hrequest : requestedSize ≤ intMax) (h : newSize size requestedSize = some r) (hr : 0 ≤ r) :
    requestedSize ≤ r ∧ r ≤ intMax := by
  obtain ⟨g, hg, rfl⟩ := Option.map_eq_some_iff.mp h
  obtain ⟨hlow, hhigh⟩ := growSize_bounds (by split <;> omega) hg
  obtain ⟨-, hmax⟩ := toInt_range (g + 7)
  refine ⟨?_, by omega⟩
  by_contra hlt
  have hwrap : toInt (g + 7) ≠ g + 7 := by
    intro heq
    rw [heq] at hlt
    omega
  apply hwrap
  unfold intMax at *
  unfold toInt at *
  rw [Int.bmod_def] at *
  split at * <;> omega

/-- **A reservation that succeeds** keeps the contents and makes the block as large as it says.

**Proof sketch.** The block has room and stays, or it is reallocated at the new size, which is
at least the request (`newSize_bounds`) and keeps the contents. -/
lemma Buf.Spacious.reserve {b : Buf} (hb : b.Spacious) {f : Formatted} {more : Bool} {size : ℤ}
    (h : Reserved b f more size) :
    ∃ b₁, bufRealloc b (firstRequest b f) more = some (taOk, b₁) ∧ b₁.Spacious ∧
      b₁.allocatedSize = size ∧ b₁.stringLength = b.stringLength ∧ b₁.contents = b.contents := by
  unfold Reserved at h
  split at h
  · rename_i hroom
    exact ⟨b, by rw [bufRealloc, if_pos hroom], hb, h.symm, rfl, rfl⟩
  · rename_i hroom
    obtain ⟨hnew, rfl, hnonneg⟩ := h
    have hrequest : firstRequest b f ≤ intMax := (toInt_range _).2
    obtain ⟨hlow, hhigh⟩ := newSize_bounds hb.small hrequest hnew hnonneg
    have hlen : (b.ptr.getD []).length ≤ size.toNat := by
      have := hb.block
      omega
    refine ⟨{ b with ptr := some (Block.resize (b.ptr.getD []) size.toNat)
                     allocatedSize := size }, ?_, ?_, rfl, rfl, ?_⟩
    · simp [bufRealloc, if_neg hroom, hnew, realloc, hnonneg]
    · have hstart := hb.start
      have hroom' := hb.room
      constructor
      · simp only [Option.getD_some, Block.length_resize hlen]
        omega
      · exact hstart
      · simp only
        omega
      · exact hhigh
    · have hfit : b.stringLength.toNat ≤ (b.ptr.getD []).length := by
        have := hb.block
        have := hb.room
        omega
      simp only [Buf.contents, Option.getD_some, Block.resize]
      rw [List.take_of_length_le hlen, List.take_append_of_le_length hfit]

/-- The reservation succeeds only with a size.

**Proof sketch.** The cases of the reallocation that return `TA_OK`. -/
lemma reserved_of_ok {b b₁ : Buf} {f : Formatted} {more : Bool}
    (h : bufRealloc b (firstRequest b f) more = some (taOk, b₁)) :
    ∃ size, Reserved b f more size := by
  unfold bufRealloc at h
  unfold Reserved
  split at h
  · rename_i hroom
    exact ⟨_, by rw [if_pos hroom]⟩
  · rename_i hroom
    obtain ⟨size, hsize, h⟩ := Option.map_eq_some_iff.mp h
    unfold realloc at h
    split_ifs at h with hmem
    · exact ⟨size, by rw [if_neg hroom]; exact ⟨hsize, hmem.1, hmem.2⟩⟩
    · simp [taOk, taError] at h

/-! ## The first turn of the loop -/

/-- **The first turn**: what fits is printed behind the contents.

**Proof sketch.** The print starts behind the contents, inside the block. What fits is written
with its closing NUL, and the contents in front of it stay. -/
lemma Buf.Spacious.printAt {b : Buf} (hb : b.Spacious) (f : Formatted) :
    ∃ ptr, Taningia.printAt b.ptr b.stringLength
        (toSize (toInt (b.allocatedSize - b.stringLength))) f = some ((f.text.length : ℤ), ptr) ∧
      (f.text.length < b.allocatedSize - b.stringLength →
        AppendsText b f.text
          { b with ptr := ptr, stringLength := b.stringLength + f.text.length }) := by
  obtain ⟨hblock, hstart, hroom, hsmall⟩ := hb
  have hint : toInt (b.allocatedSize - b.stringLength) = b.allocatedSize - b.stringLength :=
    toInt_of_range (by omega) (by omega)
  have hsize : (toSize (b.allocatedSize - b.stringLength) : ℤ) =
      b.allocatedSize - b.stringLength := by
    unfold intMax at hsmall
    unfold toSize
    omega
  rw [hint]
  generalize toSize (b.allocatedSize - b.stringLength) = size at hsize
  unfold Taningia.printAt vsnprintf
  by_cases hzero : size = 0
  · refine ⟨b.ptr, by simp [hzero], ?_⟩
    intro hfits
    omega
  · obtain ⟨block, hptr⟩ : ∃ block, b.ptr = some block := by
      cases hptr : b.ptr with
      | none =>
        rw [hptr] at hblock
        simp at hblock
        omega
      | some block => exact ⟨block, rfl⟩
    rw [hptr, Option.getD_some] at hblock
    have hoff : b.stringLength = b.stringLength.toNat := by omega
    have hfit : b.stringLength.toNat + (f.text.take (size - 1) ++ [nul]).length ≤
        block.length := by
      simp only [List.length_append, List.length_take, List.length_singleton]
      omega
    refine ⟨some (block.take b.stringLength.toNat ++ (f.text.take (size - 1) ++ [nul]).map some ++
      block.drop (b.stringLength.toNat + (f.text.take (size - 1) ++ [nul]).length)), ?_, ?_⟩
    · simp only [hzero, if_false, hptr, Option.bind_some]
      rw [hoff, Block.write_eq_some hfit, Option.map_some, Int.toNat_natCast]
    · intro hfits
      have hall : f.text.take (size - 1) = f.text := List.take_of_length_le (by omega)
      have hlen : (b.stringLength + f.text.length).toNat =
          b.stringLength.toNat + f.text.length := by omega
      rw [hall]
      refine ⟨rfl, ?_, ?_, _, rfl, ?_, ?_⟩
      · simp only [Buf.contents, Option.getD_some, hptr, hlen]
        exact Block.take_written (by omega) _ _ _
      · simp only
        omega
      · simp only
        omega
      · simp only [hlen]
        exact Block.getElem?_written (by omega) _ _ _

/-- **The test behind the printing** holds for every text, unless the new length wraps around. -/
lemma vcatfLoop_of_printAt {b : Buf} {f : Formatted} {ptr : Option (Block Char)}
    (hprint : printAt b.ptr b.stringLength
      (toSize (toInt (b.allocatedSize - b.stringLength))) f = some ((f.text.length : ℤ), ptr))
    (hstart : 0 ≤ b.stringLength) (hsum : b.stringLength + f.text.length ≤ intMax)
    (allocatedSize : ℤ) (memory : List Bool) :
    vcatfLoop b allocatedSize f memory =
      some (taOk, { b with ptr := ptr, stringLength := b.stringLength + f.text.length }) := by
  have hint : toInt (b.stringLength + f.text.length) = b.stringLength + f.text.length :=
    toInt_of_range (by omega) hsum
  rw [vcatfLoop]
  simp only [hprint, Option.bind_some, hint]
  rw [if_pos ⟨by omega, by omega⟩]

/-- In front of the block `vsnprintf` is told that there is room. -/
lemma roomSize_ne_zero {stringLength allocatedSize : ℤ} (hlow : -2147483648 ≤ stringLength)
    (hneg : stringLength < 0) (hnonneg : 0 ≤ allocatedSize) (hsmall : allocatedSize ≤ intMax) :
    toSize (toInt (allocatedSize - stringLength)) ≠ 0 := by
  unfold toSize toInt intMax at *
  rw [Int.bmod_def]
  split <;> omega

/-- Nothing can be printed in front of the block. -/
lemma printAt_of_neg {ptr : Option (Block Char)} {off : ℤ} {size : ℕ} {f : Formatted}
    (hoff : off < 0) (hsize : size ≠ 0) : printAt ptr off size f = none := by
  have hwrite : ∀ (block : Block Char) xs, block.write off xs = none := by
    intro block xs
    exact if_neg (by omega)
  cases ptr with
  | none => simp [printAt, hsize]
  | some block => simp [printAt, hsize, hwrite]

/-- When the new length wraps around, the call does not return `TA_OK`: the next turn would print in
front of the block.

**Proof sketch.** The sum wraps around to a negative length, so the test fails and the loop asks
for another block. Refused, the call returns an error; granted, the next print is in front of
the block, which is no result. -/
lemma vcatfLoop_of_overflow {b b' : Buf} (hb : b.Spacious) {f : Formatted}
    (hsum : intMax < b.stringLength + f.text.length) (allocatedSize : ℤ) (memory : List Bool) :
    vcatfLoop b allocatedSize f memory ≠ some (taOk, b') := by
  intro h
  have hreturned := f.returned
  obtain ⟨ptr, hprint, -⟩ := hb.printAt f
  obtain ⟨hblock, hstart, hroom, hsmall⟩ := hb
  have hwrap : toInt (b.stringLength + f.text.length) =
      b.stringLength + f.text.length - 4294967296 :=
    toInt_of_overflow hsum (by omega)
  rw [vcatfLoop] at h
  simp only [hprint, Option.bind_some, hwrap] at h
  unfold intMax at *
  rw [if_neg (by omega)] at h
  cases memory with
  | nil => cases h
  | cons more memory =>
    simp only at h
    obtain ⟨⟨status, b₁⟩, hcall, h⟩ := Option.bind_eq_some_iff.mp h
    simp only at h
    split_ifs at h with hstatus
    · simp [taOk, taError] at h
    · obtain ⟨hlength, hnonneg, hmax⟩ := bufRealloc_bounds hcall (hstart.trans hroom) hsmall
      simp only at hlength
      have hneg : b₁.stringLength < 0 := by omega
      have hsize := roomSize_ne_zero (by omega) hneg hnonneg hmax
      rw [vcatfLoop, printAt_of_neg hneg hsize] at h
      cases h

/-! ## The whole call -/

/-- **Formatted text is appended in full** exactly when the room that the first reservation leaves
behind the contents is longer than the text. (When the new length is not an `int`, the call does not
return `TA_OK` at all.)

**Proof sketch.** After a successful reservation the first turn prints what fits, adds the full
length and leaves the loop in any case. So the text is in the block, and closed there, exactly when
it fitted. -/
theorem vcatf_appends_iff {b : Buf} (hb : b.Valid) (f : Formatted) (more : Bool)
    (memory : List Bool) :
    (∀ b', bufVcatf b f more memory = some (taOk, b') ∨ bufCatf b f more memory = some (taOk, b') →
      AppendsText b f.text b') ↔
    ∀ size, Reserved b f more size →
      f.text.length < size - b.stringLength ∨ intMax < b.stringLength + f.text.length := by
  have hcatf : bufCatf b f more memory = bufVcatf b f more memory := rfl
  have hcall : bufVcatf b f more memory =
      (bufRealloc b (firstRequest b f) more).bind fun r =>
        if r.1 ≠ taOk then some (taError, r.2)
        else vcatfLoop r.2 (firstRequest b f) f memory := rfl
  simp only [hcatf, or_self, hcall]
  constructor
  · intro h size hsize
    by_contra hno
    rw [not_or, not_lt, not_lt] at hno
    obtain ⟨b₁, hreserve, hb₁, hsize₁, hlen₁, -⟩ := hb.spacious.reserve hsize
    obtain ⟨ptr, hprint, -⟩ := hb₁.printAt f
    have hloop := vcatfLoop_of_printAt hprint hb₁.start (by rw [hlen₁]; exact hno.2)
      (firstRequest b f) memory
    have happends := h
      { b₁ with ptr := ptr, stringLength := b₁.stringLength + f.text.length }
      (by simp only [hreserve, Option.bind_some, ne_eq, not_true, if_false, hloop])
    have hclosed := happends.2.2.1
    simp only [hlen₁, hsize₁] at hclosed
    omega
  · intro h b' hb'
    obtain ⟨⟨status, b₁⟩, hreserve, hb'⟩ := Option.bind_eq_some_iff.mp hb'
    simp only at hb'
    split_ifs at hb' with hstatus
    · simp [taOk, taError] at hb'
    · rw [ne_eq, not_not] at hstatus
      subst hstatus
      obtain ⟨size, hsize⟩ := reserved_of_ok hreserve
      obtain ⟨b₂, hreserve₂, hb₁, hsize₁, hlen₁, hcontents₁⟩ := hb.spacious.reserve hsize
      obtain ⟨-, rfl⟩ := Prod.mk.inj (Option.some.inj (hreserve.symm.trans hreserve₂))
      rcases h size hsize with hfits | hwrap
      · obtain ⟨ptr, hprint, happends⟩ := hb₁.printAt f
        have hsum : b₁.stringLength + f.text.length ≤ intMax := by
          have := hb₁.small
          omega
        rw [vcatfLoop_of_printAt hprint hb₁.start hsum] at hb'
        cases hb'
        obtain ⟨hlen, hcontents, hclosed⟩ := happends (by omega)
        exact ⟨by rw [hlen, hlen₁], by rw [hcontents, hcontents₁], hclosed⟩
      · rw [← hlen₁] at hwrap
        exact absurd hb' (vcatfLoop_of_overflow hb₁ hwrap _ _)

/-- The buffer after `ta_buf_alloc (&b, 8)`. -/
def eightBytes : Buf := ⟨some (List.replicate 8 none), 0, 8⟩

/-- The buffer of eight bytes is valid. -/
lemma valid_eightBytes : eightBytes.Valid :=
  .inr ⟨_, rfl, rfl, by decide, by decide, by decide⟩

/-- `"%s"` with `"some other stuff"`. -/
def someOtherStuff : Formatted := ⟨"%s".toList, "some other stuff".toList, by decide⟩

/-- The condition for a buffer of eight bytes. -/
theorem vcatf_appends_eightBytes :
    (∀ b', bufVcatf eightBytes someOtherStuff true [] = some (taOk, b') ∨
        bufCatf eightBytes someOtherStuff true [] = some (taOk, b') →
      AppendsText eightBytes someOtherStuff.text b') ↔
    ∀ size, Reserved eightBytes someOtherStuff true size →
      someOtherStuff.text.length < size - eightBytes.stringLength ∨
        intMax < eightBytes.stringLength + someOtherStuff.text.length :=
  vcatf_appends_iff valid_eightBytes someOtherStuff true []

/-- **Formatted text is cut off**: sixteen letters do not fit into a block that was made for the two
letters of the format, and the call returns `TA_OK` with a length behind the end of the block. -/
theorem vcatf_truncates :
    ∃ b', bufCatf eightBytes someOtherStuff true [] = some (taOk, b') ∧
      b'.stringLength = 16 ∧ b'.allocatedSize = 16 ∧
      ¬ AppendsText eightBytes someOtherStuff.text b' := by
  refine ⟨_, rfl, by decide, by decide, ?_⟩
  rintro ⟨-, -, hclosed, -⟩
  exact absurd hclosed (by decide)

end Taningia
