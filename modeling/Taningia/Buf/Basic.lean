import Taningia.Error
import Taningia.Lib.Block

set_option relaxedAutoImplicit false
set_option autoImplicit false

/-!
# The string buffer

`src/buf.c`: a `ta_buf_t` is a pointer to a block, the length of the text in it and the size of the
block. The arithmetic is that of `int` and wraps around. A call fails where the code would access
memory outside the block or a cell that nobody wrote, or would not leave its loop. Each `realloc`
may fail, which is a parameter of the call.

## Main definitions

* `Taningia.Buf`, `Taningia.bufInit` — the record and the value of `TA_BUF_INIT`.
* `Taningia.newSize`, `Taningia.bufRealloc` — the growth of the block.
* `Taningia.bufAlloc`, `Taningia.bufDealloc`, `Taningia.bufCat`, `Taningia.bufVcatf`,
  `Taningia.bufDump` — the operations.

## Main results

* `Taningia.growSize_eq_some` — the loop of the growth ends just above the request.
* `Taningia.newSize_eq_some` — below `2 ^ 30` the new size is enough room.
* `Taningia.bufRealloc_cases` — what `_buf_realloc` leaves.
-/

namespace Taningia

/-! ## The functions of the C library -/

/-- The closing letter of a string in memory. -/
def nul : Char := '\x00'

/-- The largest `int`. -/
def intMax : ℤ := 2147483647

/-- The value of an integer as an `int`. -/
def toInt (n : ℤ) : ℤ := n.bmod 4294967296

/-- An `int` that is in range does not wrap around. -/
lemma toInt_of_range {n : ℤ} (h₁ : -2147483648 ≤ n) (h₂ : n ≤ intMax) : toInt n = n := by
  unfold intMax at h₂
  exact Int.bmod_eq_of_le (by norm_num; omega) (by norm_num; omega)

/-- A sum of two values of type `int` wraps around once. -/
lemma toInt_of_overflow {n : ℤ} (h₁ : intMax < n) (h₂ : n ≤ 2 * intMax + 1) :
    toInt n = n - 4294967296 := by
  unfold toInt intMax at *
  rw [Int.bmod_def]
  split <;> omega

/-- The values of an `int`. -/
lemma toInt_range (n : ℤ) : -2147483648 ≤ toInt n ∧ toInt n ≤ intMax := by
  have hlow := Int.le_bmod (x := n) (m := 4294967296) (by norm_num)
  have hhigh := Int.bmod_le (x := n) (m := 4294967296) (by norm_num)
  unfold toInt intMax
  norm_num at hlow hhigh
  omega

/-- A C string: a text without the closing letter. -/
structure CStr where
  text : Str
  noNul : nul ∉ text

/-- `realloc (ptr, size)`, which succeeds when there is memory. A negative size is as a `size_t`
larger than any object. -/
def realloc (ptr : Option (Block Char)) (size : ℤ) (memory : Bool) : Option (Block Char) :=
  if memory = true ∧ 0 ≤ size then some (Block.resize (ptr.getD []) size.toNat) else none

/-- `memmove (ptr + off, s, size)` from a string; a negative size is as a `size_t` larger than any
object. -/
def memmove (ptr : Option (Block Char)) (off : ℤ) (s : Str) (size : ℤ) : Option (Block Char) :=
  if size < 0 then none else ptr.bind fun block => block.write off (s.take size.toNat)

/-- `ptr[off] = c`. -/
def store (ptr : Option (Block Char)) (off : ℤ) (c : Char) : Option (Block Char) :=
  ptr.bind fun block => block.write off [c]

/-- `strdup (ptr)`. -/
def strdup (ptr : Option (Block Char)) : Option Str :=
  ptr.bind fun block => block.readUntil (· == nul)

/-! ## The buffer -/

/-- The fields of a `ta_buf_t`. -/
structure Buf where
  ptr : Option (Block Char)
  stringLength : ℤ
  allocatedSize : ℤ
deriving DecidableEq, Repr

/-- `TA_BUF_INIT`. -/
def bufInit : Buf := ⟨none, 0, 0⟩

/-- The loop that multiplies the size by one and a half until it reaches the request. -/
def growSize : ℕ → ℤ → ℤ → Option ℤ
  | 0, _, _ => none
  | fuel + 1, size, requestedSize =>
    if size < requestedSize then growSize fuel (toInt (toInt (2 * size) - size / 2)) requestedSize
    else some size

/-- The size that `_buf_realloc` asks for. Each turn of the loop adds at least one to a positive
size, unless it wraps around. -/
def newSize (size requestedSize : ℤ) : Option ℤ :=
  let size := if size = 0 then requestedSize else size
  (growSize (requestedSize.toNat + 1) size requestedSize).map fun size => toInt (size + 7) / 8 * 8

/-- `_buf_realloc`: the status and the buffer. -/
def bufRealloc (b : Buf) (requestedSize : ℤ) (memory : Bool) : Option (ℤ × Buf) :=
  if requestedSize = 0 ∨ requestedSize ≤ b.allocatedSize then some (taOk, b)
  else
    (newSize b.allocatedSize requestedSize).map fun size =>
      match realloc b.ptr size memory with
      | none => (taError, b)
      | some tmp => (taOk, { b with ptr := some tmp, allocatedSize := size })

/-- `ta_buf_alloc`. -/
def bufAlloc (b : Buf) (initialSize : ℤ) (memory : Bool) : Option Buf :=
  let b := { b with ptr := none, stringLength := 0, allocatedSize := 0 }
  (bufRealloc b initialSize memory).map Prod.snd

/-- `ta_buf_dealloc`. -/
def bufDealloc (b : Buf) : Buf := { b with ptr := none, stringLength := 0, allocatedSize := 0 }

/-- `ta_buf_cat`. -/
def bufCat (b : Buf) (s : CStr) (memory : Bool) : Option (ℤ × Buf) :=
  let sSize := toInt s.text.length
  (bufRealloc b (toInt (toInt (b.stringLength + sSize) + 1)) memory).bind fun (status, b) =>
    if status ≠ taOk then some (taError, b)
    else
      (memmove b.ptr b.stringLength s.text sSize).bind fun block =>
        let stringLength := toInt (b.stringLength + sSize)
        (store (some block) stringLength nul).map fun block =>
          (taOk, { b with ptr := some block, stringLength := stringLength })

/-- `ta_buf_dump`: the returned text and the buffer. `strdup` succeeds on a string. -/
def bufDump (b : Buf) : Option (Option Str × Buf) :=
  if 0 < b.stringLength then (strdup b.ptr).map fun tmp => (some tmp, bufDealloc b)
  else some (none, b)

/-! ### Formatted text -/

/-- A format string and the full text it gives with its arguments, of a length that `vsnprintf` can
return. -/
structure Formatted where
  format : Str
  text : Str
  returned : (text.length : ℤ) ≤ intMax

/-- The value of an `int` as a `size_t`. -/
def toSize (n : ℤ) : ℕ := (n % 18446744073709551616).toNat

/-- `vsnprintf (ptr + off, size, format, args)`: nothing is written to a buffer of size `0`, and to
any other one the text that fits and the closing letter. -/
def printAt (ptr : Option (Block Char)) (off : ℤ) (size : ℕ) (f : Formatted) :
    Option (ℤ × Option (Block Char)) :=
  let (shown, n) := vsnprintf f.text size
  if size = 0 then some (n, ptr)
  else ptr.bind fun block => (block.write off (shown ++ [nul])).map fun block => (n, some block)

/-- The loop of `ta_buf_vcatf`. The list has the outcomes of the reallocations of its later
turns. -/
def vcatfLoop (b : Buf) (allocatedSize : ℤ) (f : Formatted) (memory : List Bool) :
    Option (ℤ × Buf) :=
  (printAt b.ptr b.stringLength (toSize (toInt (b.allocatedSize - b.stringLength))) f).bind
    fun (n, ptr) =>
      let b := { b with ptr := ptr, stringLength := toInt (b.stringLength + n) }
      if n > -1 ∧ n ≤ b.stringLength then some (taOk, b)
      else
        match memory with
        | [] => none
        | more :: memory =>
          let allocatedSize := toInt (allocatedSize + n)
          (bufRealloc b allocatedSize more).bind fun (status, b) =>
            if status ≠ taOk then some (taError, b) else vcatfLoop b allocatedSize f memory

/-- `ta_buf_vcatf`. -/
def bufVcatf (b : Buf) (f : Formatted) (more : Bool) (memory : List Bool) : Option (ℤ × Buf) :=
  let allocatedSize := toInt (b.allocatedSize + f.format.length)
  (bufRealloc b allocatedSize more).bind fun (status, b) =>
    if status ≠ taOk then some (taError, b) else vcatfLoop b allocatedSize f memory

/-- `ta_buf_catf`. -/
def bufCatf (b : Buf) (f : Formatted) (more : Bool) (memory : List Bool) : Option (ℤ × Buf) :=
  bufVcatf b f more memory

/-! ## Growing the block -/

/-- One and a half times the number, rounded up. -/
def threeHalves (size : ℤ) : ℤ := (3 * size + 1) / 2

/-- **One turn of the loop** from a size below `2 ^ 30`: no wrap, and a larger size. -/
lemma growSize_turn {size : ℤ} (hpos : 0 < size) (hsmall : size < 1073741824) :
    toInt (toInt (2 * size) - size / 2) = threeHalves size ∧ size < threeHalves size ∧
      threeHalves size ≤ intMax - 7 := by
  have hdouble : toInt (2 * size) = 2 * size :=
    toInt_of_range (by omega) (by unfold intMax; omega)
  have hgrown : toInt (2 * size - size / 2) = 2 * size - size / 2 :=
    toInt_of_range (by omega) (by unfold intMax; omega)
  unfold threeHalves intMax
  rw [hdouble, hgrown]
  omega

/-- **The loop of the growth** ends at the request or above it, by less than one turn, when no size
that it multiplies has reached `2 ^ 30`.

**Proof sketch.** Induction on the fuel. A turn grows the size by half of it at most and at
least by one, and below `2 ^ 30` it does not overflow; the first size not below the request ends
the loop. -/
lemma growSize_eq_some {fuel : ℕ} {size requestedSize : ℤ} (hpos : 0 < size)
    (hsize : size ≤ intMax - 7)
    (hfits : ∀ n, threeHalves^[n] size < requestedSize → threeHalves^[n] size < 1073741824)
    (hfuel : (requestedSize - size).toNat < fuel) :
    ∃ r, growSize fuel size requestedSize = some r ∧ requestedSize ≤ r ∧ size ≤ r ∧
      r ≤ intMax - 7 ∧ (r = size ∨ 2 * r < 3 * requestedSize) := by
  induction fuel generalizing size with
  | zero => omega
  | succ fuel ih =>
    rw [growSize]
    by_cases hlt : size < requestedSize
    · obtain ⟨hturn, hmore, hmax⟩ := growSize_turn hpos (hfits 0 hlt)
      have hnext : 2 * threeHalves size < 3 * requestedSize := by
        unfold threeHalves
        omega
      obtain ⟨r, hr, hreached, hgrows, hr7, htight⟩ :=
        ih (hpos.trans hmore) hmax (fun n => hfits (n + 1)) (by omega)
      rw [if_pos hlt, hturn]
      exact ⟨r, hr, hreached, by omega, hr7, by omega⟩
    · rw [if_neg hlt]
      exact ⟨size, rfl, by omega, le_rfl, hsize, .inl rfl⟩

/-- The size behind the loop, rounded up. -/
lemma align_spec {r : ℤ} (hpos : 0 < r) (hr : r ≤ intMax - 7) :
    r ≤ toInt (r + 7) / 8 * 8 ∧ 8 ∣ toInt (r + 7) / 8 * 8 ∧ toInt (r + 7) / 8 * 8 ≤ intMax := by
  rw [toInt_of_range (by omega) (by omega)]
  exact ⟨by omega, Dvd.intro_left _ rfl, by omega⟩

/-- **The new size** for a request of at most `2 ^ 30`: enough room, in whole words.

**Proof sketch.** The loop starts at the size or the request (`growSize_eq_some`), and rounding
adds less than a word. -/
lemma newSize_eq_some {size requestedSize : ℤ} (hsize : 0 ≤ size) (halign : 8 ∣ size)
    (hmax : size ≤ intMax) (hpos : 0 < requestedSize) (hrequest : requestedSize ≤ 1073741824) :
    ∃ r, newSize size requestedSize = some r ∧ requestedSize ≤ r ∧ 8 ∣ r ∧ r ≤ intMax := by
  unfold intMax at hmax
  have hloop : ∃ r, growSize (requestedSize.toNat + 1)
      (if size = 0 then requestedSize else size) requestedSize = some r ∧ requestedSize ≤ r ∧
        (if size = 0 then requestedSize else size) ≤ r ∧ r ≤ intMax - 7 ∧
        (r = (if size = 0 then requestedSize else size) ∨ 2 * r < 3 * requestedSize) := by
    apply growSize_eq_some
    · split <;> omega
    · unfold intMax
      split <;> omega
    · intro n hlt
      exact hlt.trans_le hrequest
    · split <;> omega
  obtain ⟨r, hr, hle, -, hr7, -⟩ := hloop
  obtain ⟨h1, h2, h3⟩ := align_spec (by omega) hr7
  exact ⟨_, by rw [newSize, hr, Option.map_some], by omega, h2, h3⟩

/-- What `_buf_realloc` leaves when it returns: the buffer as it was, or a block of the new size.

**Proof sketch.** The branches of the function. -/
lemma bufRealloc_cases {b b' : Buf} {requestedSize status : ℤ} {memory : Bool}
    (h : bufRealloc b requestedSize memory = some (status, b')) :
    (status = taOk ∧ b' = b ∧ (requestedSize = 0 ∨ requestedSize ≤ b.allocatedSize)) ∨
    (status = taError ∧ b' = b ∧ ∃ size, newSize b.allocatedSize requestedSize = some size ∧
      (memory = true → size < 0)) ∨
    (status = taOk ∧ ∃ size, newSize b.allocatedSize requestedSize = some size ∧ 0 ≤ size ∧
      b' = { b with ptr := some (Block.resize (b.ptr.getD []) size.toNat)
                    allocatedSize := size }) := by
  unfold bufRealloc at h
  split at h
  · rename_i hroom
    cases h
    exact .inl ⟨rfl, rfl, hroom⟩
  · obtain ⟨size, hsize, h⟩ := Option.map_eq_some_iff.mp h
    unfold realloc at h
    split_ifs at h with hmem
    · cases h
      exact .inr (.inr ⟨rfl, size, hsize, hmem.2, rfl⟩)
    · cases h
      exact .inr (.inl ⟨rfl, rfl, size, hsize, fun hgranted => by
        by_contra hle
        exact hmem ⟨hgranted, by omega⟩⟩)

/-- The length of the text and the bounds of the size stay. -/
lemma bufRealloc_bounds {b b' : Buf} {requestedSize status : ℤ} {memory : Bool}
    (h : bufRealloc b requestedSize memory = some (status, b')) (hnonneg : 0 ≤ b.allocatedSize)
    (hsmall : b.allocatedSize ≤ intMax) :
    b'.stringLength = b.stringLength ∧ 0 ≤ b'.allocatedSize ∧ b'.allocatedSize ≤ intMax := by
  rcases bufRealloc_cases h with ⟨-, rfl, -⟩ | ⟨-, rfl, -⟩ | ⟨-, size, hsize, hsize0, rfl⟩
  · exact ⟨rfl, hnonneg, hsmall⟩
  · exact ⟨rfl, hnonneg, hsmall⟩
  · obtain ⟨r, -, rfl⟩ := Option.map_eq_some_iff.mp hsize
    obtain ⟨-, hmax⟩ := toInt_range (r + 7)
    refine ⟨rfl, hsize0, ?_⟩
    simp only
    omega

end Taningia
