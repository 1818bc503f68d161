import Taningia.Buf.Basic

set_option relaxedAutoImplicit false
set_option autoImplicit false

/-!
# The growth of the buffer

`_buf_realloc` multiplies the size of the block by one and a half until it reaches the request, and
rounds it up to whole words. The shifts and the sum are those of `int`: from `2 ^ 30` on the doubled
size is not one, and neither is the sum for a first request close to the largest `int`.

## Main definitions

* `Taningia.growthValues` — what the expressions of `_buf_realloc` evaluate to.
* `Taningia.GrowsWell` — the loop ends, all values are of type `int` and the size is as it should
  be.
* `Taningia.GrowthFits` — the sizes and requests for which this is so.

## Main results

* `Taningia.grows_well_iff` — the growth is as it should be exactly then.
-/

namespace Taningia

/-- The number is a value of type `int`. -/
def IsInt (n : ℤ) : Prop := -2147483648 ≤ n ∧ n ≤ intMax

/-- The values in the loop of the growth and behind it: both shifts and their difference in each
turn, then the sum and the rounded size. -/
def loopValues : ℕ → ℤ → ℤ → List ℤ
  | 0, _, _ => []
  | fuel + 1, size, requestedSize =>
    if size < requestedSize then
      2 * size :: size / 2 :: (toInt (2 * size) - size / 2) ::
        loopValues fuel (toInt (toInt (2 * size) - size / 2)) requestedSize
    else [size + 7, toInt (size + 7) / 8 * 8]

/-- The values of the expressions of `_buf_realloc`, each before it is made an `int`. -/
def growthValues (size requestedSize : ℤ) : List ℤ :=
  if requestedSize = 0 ∨ requestedSize ≤ size then []
  else
    let size := if size = 0 then requestedSize else size
    loopValues (requestedSize.toNat + 1) size requestedSize

/-- The size that a block of the size `allocatedSize` should grow to. -/
structure GoodSize (allocatedSize requestedSize size : ℤ) : Prop where
  words : 8 ∣ size
  enough : requestedSize ≤ size
  grows : allocatedSize ≤ size
  tight : 2 * size < 3 * requestedSize + 16

/-- The call ends, no value in it leaves the type `int`, and it asks for a good size; with enough
room, or without memory for more, it changes nothing. -/
structure GrowsWell (b : Buf) (requestedSize : ℤ) : Prop where
  ends : ∀ memory, (bufRealloc b requestedSize memory).isSome = true
  values : ∀ n ∈ growthValues b.allocatedSize requestedSize, IsInt n
  size : b.allocatedSize < requestedSize → ∃ size,
    newSize b.allocatedSize requestedSize = some size ∧ GoodSize b.allocatedSize requestedSize size
  room : requestedSize ≤ b.allocatedSize →
    ∀ memory, bufRealloc b requestedSize memory = some (taOk, b)
  failed : b.allocatedSize < requestedSize → ∀ size memory,
    newSize b.allocatedSize requestedSize = some size → realloc b.ptr size memory = none →
      bufRealloc b requestedSize memory = some (taError, b)

/-- There is room already; or the first size can be rounded up; or none of the sizes below the
request, each one and a half times the one before, has reached `2 ^ 30`. -/
def GrowthFits (allocatedSize requestedSize : ℤ) : Prop :=
  requestedSize ≤ allocatedSize ∨
  (allocatedSize = 0 ∧ requestedSize ≤ intMax - 7) ∨
  (0 < allocatedSize ∧ ∀ n, threeHalves^[n] allocatedSize < requestedSize →
    threeHalves^[n] allocatedSize < 1073741824)

/-! ## The values in the loop -/

/-- When no size that the loop multiplies has reached `2 ^ 30`, all its values are of type `int`.

**Proof sketch.** Induction on the fuel: the values of a turn are the size, three times the size
and half of this, and below `2 ^ 30` all are in range. -/
lemma isInt_of_mem_loopValues {fuel : ℕ} {size requestedSize : ℤ} (hpos : 0 < size)
    (hsize : size ≤ intMax - 7)
    (hfits : ∀ n, threeHalves^[n] size < requestedSize → threeHalves^[n] size < 1073741824) :
    ∀ n ∈ loopValues fuel size requestedSize, IsInt n := by
  induction fuel generalizing size with
  | zero => simp [loopValues]
  | succ fuel ih =>
    rw [loopValues]
    by_cases hlt : size < requestedSize
    · have hsmall : size < 1073741824 := hfits 0 hlt
      have hdouble : toInt (2 * size) = 2 * size :=
        toInt_of_range (by omega) (by unfold intMax; omega)
      obtain ⟨hturn, hmore, hmax⟩ := growSize_turn hpos hsmall
      rw [if_pos hlt, hturn, hdouble]
      simp only [List.forall_mem_cons]
      refine ⟨?_, ?_, ?_, ih (hpos.trans hmore) hmax fun n => hfits (n + 1)⟩
      all_goals unfold IsInt intMax; omega
    · obtain ⟨hlow, -, hhigh⟩ := align_spec hpos hsize
      rw [if_neg hlt]
      simp only [List.forall_mem_cons, List.not_mem_nil, false_imp_iff, implies_true, and_true]
      exact ⟨⟨by omega, by omega⟩, ⟨by omega, hhigh⟩⟩

/-- The sizes of the loop do not get smaller. -/
lemma le_threeHalves_iterate {size : ℤ} (hpos : 0 < size) (n : ℕ) :
    size ≤ threeHalves^[n] size := by
  induction n with
  | zero => exact le_rfl
  | succ n ih =>
    rw [Function.iterate_succ_apply']
    unfold threeHalves at *
    omega

/-- When all values of the loop are of type `int`, no size that it multiplies has reached
`2 ^ 30`, and the first one could be rounded up.

**Proof sketch.** Induction on the fuel. Three times the size is in range, so the size is below
`2 ^ 30`, and the turns behind this one are the hypothesis for the next size. -/
lemma fits_of_loopValues {fuel : ℕ} {size requestedSize : ℤ} (hpos : 0 < size)
    (hfuel : (requestedSize - size).toNat < fuel)
    (hvalues : ∀ n ∈ loopValues fuel size requestedSize, IsInt n) :
    (∀ n, threeHalves^[n] size < requestedSize → threeHalves^[n] size < 1073741824) ∧
      size ≤ intMax - 7 := by
  induction fuel generalizing size with
  | zero => omega
  | succ fuel ih =>
    rw [loopValues] at hvalues
    by_cases hlt : size < requestedSize
    · rw [if_pos hlt] at hvalues
      simp only [List.forall_mem_cons] at hvalues
      obtain ⟨hdouble, -, -, hrest⟩ := hvalues
      have hsmall : size < 1073741824 := by
        unfold IsInt intMax at hdouble
        omega
      obtain ⟨hturn, hmore, -⟩ := growSize_turn hpos hsmall
      rw [hturn] at hrest
      obtain ⟨hfits, -⟩ := ih (hpos.trans hmore) (by omega) hrest
      refine ⟨fun n => ?_, by unfold intMax; omega⟩
      cases n with
      | zero => exact fun _ => hsmall
      | succ n => exact hfits n
    · rw [if_neg hlt] at hvalues
      have hsum : IsInt (size + 7) := hvalues _ (by simp)
      refine ⟨fun n hn => ?_, ?_⟩
      · have hle := le_threeHalves_iterate hpos n
        omega
      · unfold IsInt at hsum
        omega

/-! ## The whole call -/

/-- What the growth needs of the size that the loop starts with. -/
structure GoodStart (size requestedSize : ℤ) : Prop where
  pos : 0 < size
  small : size ≤ intMax - 7
  fits : ∀ n, threeHalves^[n] size < requestedSize → threeHalves^[n] size < 1073741824
  fuel : (requestedSize - size).toNat < requestedSize.toNat + 1

/-- The loop starts with the request in a buffer without a block, and else with the old size.

**Proof sketch.** By cases on whether the buffer has a block. -/
lemma goodStart_iff {size requestedSize : ℤ} (hsize : 0 ≤ size) (hlt : size < requestedSize) :
    GoodStart (if size = 0 then requestedSize else size) requestedSize ↔
      GrowthFits size requestedSize := by
  rcases hsize.eq_or_lt with rfl | hpos
  · rw [if_pos rfl]
    constructor
    · intro hs
      exact .inr (.inl ⟨rfl, hs.small⟩)
    · rintro (hroom | ⟨-, hsmall⟩ | ⟨hpos, -⟩)
      · omega
      · refine ⟨hlt, hsmall, fun n hn => ?_, by omega⟩
        have hle := le_threeHalves_iterate hlt n
        omega
      · omega
  · rw [if_neg hpos.ne']
    constructor
    · intro hs
      exact .inr (.inr ⟨hpos, hs.fits⟩)
    · rintro (hroom | ⟨hzero, -⟩ | ⟨-, hfits⟩)
      · omega
      · omega
      · have hsmall := hfits 0 hlt
        rw [Function.iterate_zero_apply] at hsmall
        exact ⟨hpos, by unfold intMax; omega, hfits, by omega⟩

/-- The size that is asked for after a good start.

**Proof sketch.** The loop ends at the request or above it by less than half
(`growSize_eq_some`); adding seven does not overflow, and rounding to whole words keeps the
bounds. -/
lemma GoodStart.newSize {size requestedSize : ℤ} (hlt : size < requestedSize)
    (hs : GoodStart (if size = 0 then requestedSize else size) requestedSize) :
    ∃ r, Taningia.newSize size requestedSize = some r ∧ GoodSize size requestedSize r := by
  obtain ⟨r, hr, hreached, -, hr7, htight⟩ :=
    growSize_eq_some hs.pos hs.small hs.fits hs.fuel
  have hpos : 0 < r := by
    have := hs.pos
    omega
  have htight' : 2 * r < 3 * requestedSize + 2 := by
    split at htight <;> omega
  obtain ⟨hlow, hwords, -⟩ := align_spec hpos hr7
  have hround : toInt (r + 7) / 8 * 8 ≤ r + 7 := by
    rw [toInt_of_range (by omega) (by omega)]
    omega
  refine ⟨_, by rw [Taningia.newSize, hr, Option.map_some], ?_⟩
  exact ⟨hwords, by omega, by omega, by omega⟩

/-- **The growth of the buffer** is as it should be exactly for the sizes and requests that fit.

**Proof sketch.** Below `2 ^ 30` a turn does not wrap and makes the size larger, so that the loop
ends within one turn of the request. From there on the doubled size is not of type `int`. Without a
block there is no turn, and only the rounding may leave the type. -/
theorem grows_well_iff {b : Buf} (hsize : 0 ≤ b.allocatedSize) {requestedSize : ℤ}
    (hpos : 0 < requestedSize) :
    GrowsWell b requestedSize ↔ GrowthFits b.allocatedSize requestedSize := by
  rcases le_or_gt requestedSize b.allocatedSize with hroom | hlt
  · refine iff_of_true ?_ (.inl hroom)
    have hcall : ∀ memory, bufRealloc b requestedSize memory = some (taOk, b) := by
      intro memory
      rw [bufRealloc, if_pos (.inr hroom)]
    constructor
    · intro memory
      rw [hcall, Option.isSome_some]
    · rw [growthValues, if_pos (.inr hroom)]
      simp
    · omega
    · exact fun _ => hcall
    · omega
  · have hgrow : ¬ (requestedSize = 0 ∨ requestedSize ≤ b.allocatedSize) := by omega
    rw [← goodStart_iff hsize hlt]
    constructor
    · intro hw
      have hvalues := hw.values
      rw [growthValues, if_neg hgrow] at hvalues
      have hstart : 0 < if b.allocatedSize = 0 then requestedSize else b.allocatedSize := by
        split <;> omega
      have hfuel : (requestedSize - if b.allocatedSize = 0 then requestedSize
          else b.allocatedSize).toNat < requestedSize.toNat + 1 := by
        split <;> omega
      obtain ⟨hfits, hround⟩ := fits_of_loopValues hstart hfuel hvalues
      exact ⟨hstart, hround, hfits, hfuel⟩
    · intro hs
      obtain ⟨size, hnew, hgood⟩ := hs.newSize hlt
      constructor
      · intro memory
        rw [bufRealloc, if_neg hgrow, hnew, Option.map_some, Option.isSome_some]
      · rw [growthValues, if_neg hgrow]
        exact isInt_of_mem_loopValues hs.pos hs.small hs.fits
      · exact fun _ => ⟨size, hnew, hgood⟩
      · omega
      · intro _ size' memory hnew' hfail
        rw [bufRealloc, if_neg hgrow, hnew', Option.map_some, hfail]

/-- A block of eight bytes grows to thirty-five. -/
theorem grows_well_thirtyFive :
    GrowsWell ⟨some (List.replicate 8 none), 0, 8⟩ 35 ↔ GrowthFits 8 35 :=
  grows_well_iff (b := ⟨some (List.replicate 8 none), 0, 8⟩) (by decide) (by decide)

/-- **A first request for the largest `int`** is not rounded up: the sum is not an `int`, and with
the usual wrap the size that `realloc` is called with is negative. -/
theorem growth_leaves_int :
    ¬ GrowsWell bufInit intMax ∧ newSize 0 intMax = some (-2147483648) := by
  constructor
  · intro hw
    have hsum : IsInt (intMax + 7) := hw.values _ (by decide)
    exact absurd hsum.2 (by decide)
  · decide

end Taningia
