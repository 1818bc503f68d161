import Taningia.Buf.Basic

set_option relaxedAutoImplicit false
set_option autoImplicit false

/-!
# The string buffer over whole runs

A run of buffer operations has a history: each operation with what it returned. The text that the
history has accumulated is what the buffer should hold, and it does in every state that a run
reaches, whichever reallocations fail on the way.

## Main definitions

* `Taningia.BufOp`, `Taningia.bufStep` — the operations and what one of them does.
* `Taningia.accumulated` — the text that a history has accumulated.
* `Taningia.HoldsText` — the buffer holds a text.
* `Taningia.BufAnswers` — an operation answers as it should.

## Main results

* `Taningia.bufStep_holdsText` — one operation.
* `Taningia.buf_accumulates` — whole runs.
-/

namespace Taningia

/-! ## Operations and histories -/

/-- The operations, with the outcome of the reallocation that they may make. -/
inductive BufOp where
  | alloc (initialSize : ℤ) (memory : Bool)
  | cat (s : CStr) (memory : Bool)
  | dump
  | dealloc

/-- What an operation returns. -/
inductive BufResult where
  | done
  | status (status : ℤ)
  | dumped (text : Option Str)
deriving DecidableEq, Repr

/-- One operation. The initial size is an `int`. -/
def bufStep (b : Buf) : BufOp → Option (BufResult × Buf)
  | .alloc initialSize memory =>
    (bufAlloc b (toInt initialSize) memory).map fun b => (.done, b)
  | .cat s memory => (bufCat b s memory).map fun (status, b) => (.status status, b)
  | .dump => (bufDump b).map fun (text, b) => (.dumped text, b)
  | .dealloc => some (.done, bufDealloc b)

/-- An operation with what it returned. -/
abbrev BufEvent := BufOp × BufResult

/-- The accumulated text after one more event. -/
def textAfter (text : Str) : BufEvent → Str
  | (.alloc _ _, _) => []
  | (.dealloc, _) => []
  | (.dump, .dumped (some _)) => []
  | (.cat s _, .status status) => if status = taOk then text ++ s.text else text
  | _ => text

/-- The strings whose `ta_buf_cat` returned `TA_OK` since the last `ta_buf_alloc`, `ta_buf_dealloc`
or `ta_buf_dump` of a text, put together. -/
def accumulated (history : List BufEvent) : Str := history.foldl textAfter []

/-- The text after one operation more. -/
lemma accumulated_concat (history : List BufEvent) (event : BufEvent) :
    accumulated (history ++ [event]) = textAfter (accumulated history) event := by
  simp [accumulated]

/-- A buffer and its history. -/
structure BufWorld where
  history : List BufEvent
  buf : Buf

/-- A buffer that was set to `TA_BUF_INIT`. -/
def bufWorldNew : BufWorld := ⟨[], bufInit⟩

/-- One operation, written down. -/
def bufWorldStep (w : BufWorld) (op : BufOp) : Option BufWorld :=
  (bufStep w.buf op).map fun (result, b) => ⟨w.history ++ [(op, result)], b⟩

/-! ## What a buffer holds -/

/-- The buffer holds the text: its length, its letters at the front of the block, and behind them
the closing letter. -/
structure HoldsText (b : Buf) (text : Str) : Prop where
  length : b.stringLength = text.length
  contents : (b.ptr.getD []).Holds text
  closed : text ≠ [] → (b.ptr.getD []).Holds (text ++ [nul])
  noNul : nul ∉ text
  block : ((b.ptr.getD []).length : ℤ) = b.allocatedSize
  aligned : 8 ∣ b.allocatedSize
  null_iff : b.allocatedSize = 0 ↔ b.ptr = none
  small : b.allocatedSize ≤ intMax

/-- The text is closed at `string_length`, inside the block. -/
def Terminated (b : Buf) : Prop :=
  b.stringLength < b.allocatedSize ∧
    ∃ block, b.ptr = some block ∧ 0 ≤ b.stringLength ∧
      block[b.stringLength.toNat]? = some (some nul)

/-- What an operation on a buffer that holds the text answers: a `ta_buf_cat` closes the text or,
only when a reallocation is refused, leaves every field as it was, and a `ta_buf_dump` returns the
text and empties the buffer. -/
def BufAnswers (b : Buf) (text : Str) : BufOp → BufResult × Buf → Prop
  | .cat _ memory, (.status status, b') =>
    (status = taOk ∧ Terminated b') ∨ (memory = false ∧ status = taError ∧ b' = b)
  | .dump, (.dumped dumped, b') =>
    if text = [] then dumped = none ∧ b' = b else dumped = some text ∧ b' = bufInit
  | .alloc _ _, (.done, _) => True
  | .dealloc, (.done, b') => b' = bufInit
  | _, _ => False

/-- The total length stays below `2 ^ 30`. -/
def BelowLimit (w : BufWorld) : BufOp → Prop
  | .cat s _ => (accumulated w.history).length + s.text.length < 1073741824
  | _ => True

instance (w : BufWorld) : (op : BufOp) → Decidable (BelowLimit w op)
  | .alloc _ _ => .isTrue trivial
  | .cat _ _ => inferInstanceAs (Decidable (_ < _))
  | .dump => .isTrue trivial
  | .dealloc => .isTrue trivial

/-- A new buffer holds the empty text. -/
lemma holdsText_bufInit : HoldsText bufInit [] where
  length := rfl
  contents := by simp
  closed := by simp
  noNul := by simp
  block := rfl
  aligned := Int.dvd_zero 8
  null_iff := by simp [bufInit]
  small := by decide

/-! ## One operation -/

/-- A larger block holds the text as well.

**Proof sketch.** The old contents are the front of the larger block. -/
lemma HoldsText.resize {b : Buf} {text : Str} (h : HoldsText b text) {size : ℤ} (hpos : 0 < size)
    (hle : b.allocatedSize ≤ size) (halign : 8 ∣ size) (hmax : size ≤ intMax) :
    HoldsText { b with ptr := some (Block.resize (b.ptr.getD []) size.toNat)
                       allocatedSize := size } text := by
  have hlen : (b.ptr.getD []).length ≤ size.toNat := by
    have := h.block
    omega
  constructor
  · exact h.length
  · exact h.contents.resize hlen
  · exact fun hne => (h.closed hne).resize hlen
  · exact h.noNul
  · simp only [Option.getD_some, Block.length_resize hlen]
    omega
  · exact halign
  · simp only [reduceCtorEq, iff_false]
    omega
  · exact hmax

/-- `_buf_realloc` keeps the text, and makes the room it was asked for unless memory is refused.

**Proof sketch.** The loop of the growth ends at a size that is large enough. A block of that size
is the old one with more bytes behind it, so it begins with the same text. -/
lemma HoldsText.bufRealloc {b : Buf} {text : Str} (h : HoldsText b text) (requestedSize : ℤ)
    (hpos : 0 < requestedSize) (hle : requestedSize ≤ 1073741824) (memory : Bool) :
    ∃ status b', Taningia.bufRealloc b requestedSize memory = some (status, b') ∧
      ((memory = false ∧ status = taError ∧ b' = b) ∨
        (status = taOk ∧ HoldsText b' text ∧ requestedSize ≤ b'.allocatedSize)) := by
  have hblock := h.block
  obtain ⟨r, hr, hroom, halign, hmax⟩ :=
    newSize_eq_some (by omega) h.aligned h.small hpos hle
  obtain ⟨⟨status, b'⟩, hcall⟩ :
      ∃ call, Taningia.bufRealloc b requestedSize memory = some call := by
    unfold Taningia.bufRealloc
    split
    · exact ⟨_, rfl⟩
    · exact ⟨_, by rw [hr, Option.map_some]⟩
  refine ⟨status, b', hcall, ?_⟩
  rcases bufRealloc_cases hcall with ⟨rfl, rfl, hroom'⟩ | ⟨rfl, rfl, size, hsize, hrefused⟩ |
    ⟨rfl, size, hsize, -, rfl⟩
  · exact .inr ⟨rfl, h, by omega⟩
  · -- the new size is no negative number
    obtain rfl := Option.some.inj (hr.symm.trans hsize)
    refine .inl ⟨Bool.eq_false_iff.mpr fun hgranted => ?_, rfl, rfl⟩
    have := hrefused hgranted
    omega
  · obtain rfl := Option.some.inj (hr.symm.trans hsize)
    by_cases hgrow : b.allocatedSize ≤ r
    · exact .inr ⟨rfl, h.resize (by omega) hgrow halign hmax, hroom⟩
    · -- the call would have returned at once
      rw [Taningia.bufRealloc, if_pos (.inr (by omega))] at hcall
      have hb := congrArg Buf.allocatedSize (Prod.mk.inj (Option.some.inj hcall)).2
      simp only at hb
      omega

/-- Writing a string and the closing letter behind the text.

**Proof sketch.** The block has room for the text, the string and the closing letter, so both
writes are inside, and the second one writes behind the first. -/
lemma HoldsText.append {b : Buf} {text : Str} (h : HoldsText b text) (s : CStr)
    (hroom : text.length + s.text.length + 1 ≤ b.allocatedSize) :
    ∃ block block', memmove b.ptr b.stringLength s.text s.text.length = some block ∧
      store (some block) (text ++ s.text).length nul = some block' ∧
      (block'.length : ℤ) = b.allocatedSize ∧ block'.Holds (text ++ s.text ++ [nul]) := by
  have hblock := h.block
  obtain ⟨block₀, hptr⟩ : ∃ block₀, b.ptr = some block₀ := by
    cases hptr : b.ptr with
    | none =>
      have := h.null_iff.mpr hptr
      omega
    | some block₀ => exact ⟨block₀, rfl⟩
  have hcontents := h.contents
  rw [hptr, Option.getD_some] at hblock hcontents
  obtain ⟨block, hwrite, hlen, hholds⟩ := Block.write_append hcontents s.text (by omega)
  obtain ⟨block', hwrite', hlen', hholds'⟩ := Block.write_append hholds [nul]
    (by simp only [List.length_append, List.length_singleton]; omega)
  refine ⟨block, block', ?_, ?_, by omega, hholds'⟩
  · rw [memmove, if_neg (by omega), hptr, Option.bind_some, h.length, Int.toNat_natCast,
      List.take_length, hwrite]
  · rw [store, Option.bind_some, hwrite']

/-- A block that holds the closed text holds it as a buffer.

**Proof sketch.** The fields are read off the block; the closing letter is the one behind the
text. -/
lemma holdsText_of_closed {b : Buf} {text : Str} {block : Block Char} (hptr : b.ptr = some block)
    (hlen : b.stringLength = text.length) (hblock : (block.length : ℤ) = b.allocatedSize)
    (hclosed : block.Holds (text ++ [nul])) (hnul : nul ∉ text) (halign : 8 ∣ b.allocatedSize)
    (hmax : b.allocatedSize ≤ intMax) : HoldsText b text ∧ Terminated b := by
  have hle := hclosed.length_le
  simp only [List.length_append, List.length_singleton] at hle
  constructor
  · constructor
    · exact hlen
    · rw [hptr]
      exact hclosed.of_append
    · intro _
      rw [hptr]
      exact hclosed
    · exact hnul
    · rw [hptr]
      exact hblock
    · exact halign
    · simp only [hptr, reduceCtorEq, iff_false]
      omega
    · exact hmax
  · refine ⟨by omega, block, hptr, by omega, ?_⟩
    rw [hlen, Int.toNat_natCast]
    exact hclosed.getElem?_length

/-- **`ta_buf_cat`** appends and closes the text, or leaves the buffer as it was when memory is
refused.

**Proof sketch.** Below `2 ^ 30` no sum wraps, so the request is the length of both texts and the
closing letter. With that much room both writes stay in the block. -/
lemma HoldsText.bufCat {b : Buf} {text : Str} (h : HoldsText b text) (s : CStr) (memory : Bool)
    (hlimit : text.length + s.text.length < 1073741824) :
    ∃ status b', Taningia.bufCat b s memory = some (status, b') ∧
      ((status = taOk ∧ HoldsText b' (text ++ s.text) ∧ Terminated b') ∨
        (memory = false ∧ status = taError ∧ b' = b)) := by
  have hint : toInt s.text.length = s.text.length :=
    toInt_of_range (by omega) (by unfold intMax; omega)
  have hsum : toInt (b.stringLength + s.text.length) = (text ++ s.text).length := by
    rw [h.length, List.length_append, Nat.cast_add]
    exact toInt_of_range (by omega) (by unfold intMax; omega)
  have hrequest : toInt (((text ++ s.text).length : ℤ) + 1) = (text ++ s.text).length + 1 :=
    toInt_of_range (by omega) (by simp only [List.length_append]; unfold intMax; omega)
  obtain ⟨status, b₁, hcall, hcases⟩ :=
    h.bufRealloc ((text ++ s.text).length + 1) (by omega)
      (by simp only [List.length_append]; omega) memory
  unfold Taningia.bufCat
  simp only [hint, hsum, hrequest, hcall, Option.bind_some]
  rcases hcases with ⟨hmemory, rfl, rfl⟩ | ⟨rfl, h₁, hroom⟩
  · exact ⟨taError, _, by simp [taOk, taError], .inr ⟨hmemory, rfl, rfl⟩⟩
  · simp only [List.length_append, Nat.cast_add] at hroom
    obtain ⟨block, block', hmove, hstore, hlen, hholds⟩ := h₁.append s hroom
    have hsum₁ : toInt (b₁.stringLength + s.text.length) = (text ++ s.text).length := by
      rw [h₁.length, ← h.length, hsum]
    refine ⟨taOk, { b₁ with ptr := some block', stringLength := (text ++ s.text).length }, ?_,
      .inl ⟨rfl, ?_⟩⟩
    · simp only [ne_eq, not_true, if_false, hmove, Option.bind_some, hsum₁, hstore,
        Option.map_some]
    · refine holdsText_of_closed rfl rfl hlen hholds ?_ h₁.aligned h₁.small
      simp [h.noNul, s.noNul]

/-- **`ta_buf_dump`** returns the text and empties the buffer.

**Proof sketch.** An empty text is not copied. Otherwise the text is what is in front of the
first NUL, which is the closing letter. -/
lemma HoldsText.bufDump {b : Buf} {text : Str} (h : HoldsText b text) :
    Taningia.bufDump b =
      if text = [] then some (none, b) else some (some text, bufInit) := by
  unfold Taningia.bufDump
  by_cases hnil : text = []
  · have hlen := h.length
    rw [hnil, List.length_nil] at hlen
    rw [if_neg (by omega), if_pos hnil]
  · have hpos : 0 < text.length := List.length_pos_iff.mpr hnil
    have hread : strdup b.ptr = some text := by
      have hclosed := h.closed hnil
      cases hptr : b.ptr with
      | none =>
        rw [hptr] at hclosed
        have := hclosed.length_le
        simp at this
      | some block =>
        rw [hptr] at hclosed
        apply Block.readUntil_of_holds hclosed
        · intro x hx
          simp only [beq_eq_false_iff_ne, ne_eq]
          rintro rfl
          exact h.noNul hx
        · simp
    rw [if_pos (by rw [h.length]; omega), if_neg hnil, hread]
    rfl

/-- **`ta_buf_alloc`** leaves an empty text, whatever the buffer was.

**Proof sketch.** A size that is not positive allocates nothing. A positive one asks for a
block, and the loop of the growth ends at once, since the size is the request. -/
lemma holdsText_bufAlloc (b : Buf) (initialSize : ℤ) (memory : Bool) :
    ∃ b', bufAlloc b (toInt initialSize) memory = some b' ∧ HoldsText b' [] := by
  obtain ⟨-, hmax⟩ := toInt_range initialSize
  generalize toInt initialSize = n at hmax
  have halloc : bufAlloc b n memory = (bufRealloc bufInit n memory).map Prod.snd := rfl
  have hsize : bufInit.allocatedSize = 0 := rfl
  rw [halloc]
  by_cases hpos : 0 < n
  · have hgrow : newSize 0 n = some (toInt (n + 7) / 8 * 8) := by
      simp [newSize, growSize]
    cases hcall : bufRealloc bufInit n memory with
    | none =>
      rw [bufRealloc, if_neg (by omega), hsize, hgrow] at hcall
      cases hcall
    | some call =>
      refine ⟨call.2, rfl, ?_⟩
      rcases bufRealloc_cases hcall with ⟨-, hb, -⟩ | ⟨-, hb, -⟩ | ⟨-, size, hnew, hnonneg, hb⟩
      · rw [hb]
        exact holdsText_bufInit
      · rw [hb]
        exact holdsText_bufInit
      · obtain rfl := Option.some.inj (hgrow.symm.trans hnew)
        obtain ⟨-, hint⟩ := toInt_range (n + 7)
        have hne : toInt (n + 7) / 8 * 8 ≠ 0 := by
          unfold toInt intMax at *
          rw [Int.bmod_def] at *
          split at * <;> omega
        rw [hb]
        exact holdsText_bufInit.resize (by omega) (by rw [hsize]; exact hnonneg)
          (Dvd.intro_left _ rfl) (by omega)
  · have hcall : bufRealloc bufInit n memory = some (taOk, bufInit) := by
      rw [bufRealloc, if_pos (.inr (by omega))]
    exact ⟨bufInit, by rw [hcall, Option.map_some], holdsText_bufInit⟩

/-- **One operation** on a buffer that holds the accumulated text: it returns, answers as it should,
and the buffer holds the text with the new event.

**Proof sketch.** By cases on the operation, each with the lemma about its function; an append
asks for room first and is refused only where the reallocation is. -/
lemma bufStep_holdsText {w : BufWorld} (h : HoldsText w.buf (accumulated w.history)) (op : BufOp)
    (hlimit : BelowLimit w op) :
    ∃ result b, bufStep w.buf op = some (result, b) ∧
      BufAnswers w.buf (accumulated w.history) op (result, b) ∧
      HoldsText b (accumulated (w.history ++ [(op, result)])) := by
  simp only [accumulated_concat]
  cases op with
  | alloc initialSize memory =>
    obtain ⟨b, hcall, hb⟩ := holdsText_bufAlloc w.buf initialSize memory
    exact ⟨.done, b, by rw [bufStep, hcall, Option.map_some], trivial, hb⟩
  | cat s memory =>
    obtain ⟨status, b, hcall, hcases⟩ := h.bufCat s memory hlimit
    refine ⟨.status status, b, by rw [bufStep, hcall, Option.map_some], ?_⟩
    rcases hcases with ⟨rfl, hb, hclosed⟩ | ⟨hmemory, rfl, rfl⟩
    · exact ⟨.inl ⟨rfl, hclosed⟩, by simpa [textAfter] using hb⟩
    · exact ⟨.inr ⟨hmemory, rfl, rfl⟩, by simpa [textAfter, taOk, taError] using h⟩
  | dump =>
    by_cases hnil : accumulated w.history = []
    · refine ⟨.dumped none, w.buf, ?_, by simp [BufAnswers, hnil], by simpa [textAfter] using h⟩
      rw [bufStep, h.bufDump, if_pos hnil, Option.map_some]
    · refine ⟨.dumped (some (accumulated w.history)), bufInit, ?_, by simp [BufAnswers, hnil],
        holdsText_bufInit⟩
      rw [bufStep, h.bufDump, if_neg hnil, Option.map_some]
  | dealloc => exact ⟨.done, bufInit, rfl, rfl, holdsText_bufInit⟩

/-! ## Whole runs -/

/-- **The string buffer over whole runs.** While the total length stays below `2 ^ 30`, every
operation returns, the buffer holds the accumulated text in every state reached, and every next
operation answers as it should.

**Proof sketch.** Induction on the run: `bufStep_holdsText` gives the state after one operation,
and the history only ever grows at its end. -/
theorem buf_accumulates {ops : List BufOp}
    (h : Machine.GuardedRun bufWorldStep BelowLimit bufWorldNew ops) :
    ∃ w, Machine.run? bufWorldStep bufWorldNew ops = some w ∧
      HoldsText w.buf (accumulated w.history) ∧
      ∀ op, BelowLimit w op → ∃ result b, bufStep w.buf op = some (result, b) ∧
        BufAnswers w.buf (accumulated w.history) op (result, b) := by
  have hstep : ∀ w op, HoldsText w.buf (accumulated w.history) → BelowLimit w op →
      ∃ w', bufWorldStep w op = some w' ∧ HoldsText w'.buf (accumulated w'.history) := by
    intro w op hw hlimit
    obtain ⟨result, b, hcall, -, hb⟩ := bufStep_holdsText hw op hlimit
    exact ⟨⟨w.history ++ [(op, result)], b⟩, by rw [bufWorldStep, hcall, Option.map_some], hb⟩
  obtain ⟨w, hrun, hw⟩ := Machine.run?_guarded hstep holdsText_bufInit h
  refine ⟨w, hrun, hw, ?_⟩
  intro op hlimit
  obtain ⟨result, b, hcall, hanswer, -⟩ := bufStep_holdsText hw op hlimit
  exact ⟨result, b, hcall, hanswer⟩

/-- A short run: a block of eight bytes, and a string that it cannot take. -/
def shortRun : List BufOp :=
  [.alloc 8 true, .cat ⟨"some stuff".toList, by decide⟩ true]

/-- A short run. -/
theorem buf_accumulates_shortRun :
    ∃ w, Machine.run? bufWorldStep bufWorldNew shortRun = some w ∧
      HoldsText w.buf (accumulated w.history) ∧
      ∀ op, BelowLimit w op → ∃ result b, bufStep w.buf op = some (result, b) ∧
        BufAnswers w.buf (accumulated w.history) op (result, b) := by
  refine buf_accumulates ⟨trivial, ?_⟩
  intro w hw
  obtain rfl := Option.some.inj hw
  exact ⟨by decide, fun _ _ => trivial⟩

end Taningia
