import Mathlib.Algebra.Order.Group.Int
import Mathlib.Tactic.NormNum
import Taningia.Lib.Scan

set_option relaxedAutoImplicit false
set_option autoImplicit false

/-!
# Character strings of the C library

The text functions of the C library that the repository calls, on strings without their closing
NUL. A `char *` into a string is the suffix it points at; reading past the last letter gives the
NUL, which here is the end of the list. Character classes are the ASCII ones.

## Main definitions

* `Taningia.strchr`, `Taningia.strndup`, `Taningia.ptrDiff` — scanning and slicing.
* `Taningia.atoi`, `Taningia.sprintfInt` — decimal numerals.

## Main results

* `Taningia.atoi_sprintfInt` — a port number survives printing and reading.
-/

namespace Taningia

/-- The letters of a C string, without its NUL. -/
abbrev Str := List Char

/-- `strchr (s, c)`: the pointer to the first `c`, or `NULL`. -/
def strchr (s : Str) (c : Char) : Option Str := Scan.find (· == c) s

/-- `q - p` for two pointers into the same string. -/
def ptrDiff (q p : Str) : ℤ := (p.length : ℤ) - q.length

/-- `strndup (s, n)` with `n` a pointer difference. The difference becomes a `size_t`: a negative
one is then larger than any object, and the whole rest of the string is copied. -/
def strndup (s : Str) (n : ℤ) : Str := if n < 0 then s else s.take n.toNat

def isalpha (c : Char) : Bool := c.isAlpha

def isalnum (c : Char) : Bool := c.isAlphanum

def isdigit (c : Char) : Bool := c.isDigit

/-- The largest `long`. -/
def longMax : ℕ := 9223372036854775807

/-- `atoi` of a string of digits: `strtol` clamps to `LONG_MAX` and the result is cut to an
`int`. -/
def atoi (s : Str) : ℤ := ((min (Nat.ofDigitChars 10 s 0) longMax : ℕ) : ℤ).bmod 4294967296

/-- `sprintf (buf, "%d", n)`. -/
def sprintfInt (n : ℤ) : Str :=
  if n < 0 then '-' :: Nat.toDigits 10 n.natAbs else Nat.toDigits 10 n.toNat

/-! ## Scanning and slicing -/

/-- `strchr` finds a letter exactly when it occurs, and then points at its first occurrence. -/
lemma strchr_eq (s : Str) (c : Char) :
    strchr s c = if c ∈ s then some (c :: Scan.after c s) else none :=
  Scan.find_letter c s

/-- The search fails for a character that the string does not have. -/
@[simp] lemma strchr_of_not_mem {s : Str} {c : Char} (h : c ∉ s) : strchr s c = none := by
  rw [strchr_eq, if_neg h]

/-- The search passes over another character. -/
lemma strchr_cons_ne {c d : Char} (s : Str) (h : d ≠ c) : strchr (d :: s) c = strchr s c := by
  simp [strchr, h]

/-- The front of two strings is copied. -/
@[simp] lemma strndup_append (s t : Str) : strndup (s ++ t) s.length = s := by
  simp [strndup]

/-- A negative length is a huge one: the whole string is copied. -/
lemma strndup_of_neg {s : Str} {n : ℤ} (h : n < 0) : strndup s n = s := if_pos h

/-- The distance to the end of the first of two strings. -/
@[simp] lemma ptrDiff_append (s t : Str) : ptrDiff t (s ++ t) = s.length := by
  simp [ptrDiff]

/-! ## Decimal numerals -/

/-- A number that is not negative is printed with digits only. -/
lemma isdigit_of_mem_sprintfInt {n : ℤ} (hn : 0 ≤ n) {c : Char} (hc : c ∈ sprintfInt n) :
    isdigit c = true := by
  rw [sprintfInt, if_neg (by omega)] at hc
  exact Nat.isDigit_of_mem_toDigits (by decide) (by decide) hc

/-- A number is printed with some character. -/
lemma sprintfInt_ne_nil (n : ℤ) : sprintfInt n ≠ [] := by
  unfold sprintfInt
  split
  · simp
  · exact Nat.toDigits_ne_nil

/-- Reading the digits of a printed nonnegative number gives the number. -/
lemma ofDigitChars_sprintfInt {n : ℤ} (hn : 0 ≤ n) :
    Nat.ofDigitChars 10 (sprintfInt n) 0 = n.toNat := by
  have hs : sprintfInt n = Nat.toDigits 10 n.toNat := if_neg (by omega)
  rw [hs]
  exact Nat.ofDigitChars_ten_toDigits

/-- **Reading back a printed number**: `atoi` inverts `sprintf "%d"` on nonnegative `int`s. -/
lemma atoi_sprintfInt {n : ℤ} (hn : 0 ≤ n) (h : n < 2147483648) : atoi (sprintfInt n) = n := by
  have hmax : n.toNat ≤ longMax := by
    unfold longMax
    omega
  have hlong : ((min n.toNat longMax : ℕ) : ℤ) = n := by
    rw [Nat.min_eq_left hmax, Int.toNat_of_nonneg hn]
  have hint : n.bmod 4294967296 = n :=
    Int.bmod_eq_of_le (by norm_num; omega) (by norm_num; omega)
  unfold atoi
  rw [ofDigitChars_sprintfInt hn, hlong]
  exact hint

end Taningia
