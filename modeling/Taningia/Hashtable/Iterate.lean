import Taningia.Hashtable.Refine

set_option relaxedAutoImplicit false
set_option autoImplicit false

/-!
# Iterating over a hash table that changes

An iterator is a pointer to the links of a pair. Between two steps of an iterator the program may
call the table functions: other keys may be set, deleted and looked up. As long as no call takes the
pair of the iterator away and none rehashes the table, the iterator is at no pair twice and misses
none that stays in the table.

## Main definitions

* `Taningia.IterWorld`, `Taningia.iterStep` — a table with an iterator, and one turn.
* `Taningia.iterSafe` — the calls that may be made while an iterator is in use.
* `Taningia.Iterating` — what the iterator passed, and what is ahead of it.

## Main results

* `Taningia.iterStep_iterating` — one turn keeps the invariant.
* `Taningia.hashtable_iterates_each_once` — every run of turns.
-/

namespace Taningia

open Chain Machine

variable {K V : Type}

/-! ## Turns -/

/-- A table, an iterator, and the pairs it was at so far. -/
structure IterWorld (K V : Type) where
  world : TableWorld K V
  iter : Option ListPtr
  seen : List ℕ

/-- A step of the iterator or a call. -/
inductive IterCall (K V : Type) where
  | next
  | call (c : TableCall K V)
deriving DecidableEq, Repr

/-- The pair an iterator is at. -/
def iterPair (iter : Option ListPtr) : List ℕ := (iter.bind listToPair).toList

/-- `iter = hashtable_iter (hashtable)`. -/
def iterStart (w : TableWorld K V) : Option (IterWorld K V) :=
  (hashtableIter w.table).map fun iter => ⟨w, iter, iterPair iter⟩

/-- One turn; an iterator that is `NULL` is not moved. -/
def iterStep (fns : KeyFns K) (w : IterWorld K V) : IterCall K V → Option (IterWorld K V)
  | .next =>
    match w.iter with
    | none => some w
    | some iter =>
      (hashtableIterNext w.world.table iter).map fun iter =>
        { w with iter := iter, seen := w.seen ++ iterPair iter }
  | .call c => (tableStep fns w.world c).map fun v => { w with world := v }

/-- The key is not that of the pair the iterator is at. -/
def SparesIter (fns : KeyFns K) (w : IterWorld K V) (key : K) : Prop :=
  ∀ iter k, w.iter = some iter → hashtableIterKey w.world.table iter = some k →
    fns.cmpKeys k key = false

/-- The key is set without a rehash. -/
def NoRehash (fns : KeyFns K) (t : Hashtable K V) (key : K) : Prop :=
  ∀ t' r n, hashtableDel fns t key = some (t', r) → numBuckets t' = some n → t'.size < n

/-- The turns that may be taken while the iterator is in use. -/
def iterSafe (fns : KeyFns K) (w : IterWorld K V) : IterCall K V → Prop
  | .call (.set key _ _ _) => SparesIter fns w key ∧ NoRehash fns w.world.table key
  | .call (.del key) => SparesIter fns w key
  | _ => True

/-! ## The invariant -/

/-- The pairs are those that the iterator passed and those ahead of it. It is at the last one it
passed, or at the end; it saw none twice and none of those ahead, and of those it passed all but the
ones that were made after `start` others. Each pair is one of the `first` ones or was made after
`start` others. -/
structure Iterating (fns : KeyFns K) (first : List ℕ) (start : ℕ) (w : IterWorld K V) (n : ℕ)
    (runs : BucketRuns K V) (passed ahead : List (TableSlot K V)) : Prop where
  valid : ValidTable fns w.world.table n runs
  slots : slotsOf runs = passed ++ ahead
  place : (w.iter = none ∧ ahead = []) ∨
    ∃ l s, passed = l ++ [s] ∧ w.iter = some (.pair s.1)
  nodup : w.seen.Nodup
  unseen : ∀ s ∈ ahead, s.1 ∉ w.seen
  bound : ∀ a ∈ w.seen, a < w.world.table.pairs
  passedSeen : ∀ s ∈ passed, s.1 ∈ w.seen ∨ start ≤ s.1
  started : start ≤ w.world.table.pairs
  seenFrom : ∀ a ∈ w.seen, a ∈ first ∨ start ≤ a
  slotsFrom : ∀ s ∈ slotsOf runs, s.1 ∈ first ∨ start ≤ s.1

section Turns

variable {fns : KeyFns K} {first : List ℕ} {start : ℕ} {w : IterWorld K V} {n : ℕ}
    {runs : BucketRuns K V}
  {passed ahead : List (TableSlot K V)}

/-- **A step of the iterator** takes the next pair from those ahead.

**Proof sketch.** The iterator is at the last pair that it passed. If there is no pair ahead, it
ends; otherwise the next pair is ahead, was not seen before, and is passed now. -/
lemma iterNext_iterating (h : Iterating fns first start w n runs passed ahead) :
    ∃ w' passed' ahead', iterStep fns w .next = some w' ∧
      Iterating fns first start w' n runs passed' ahead' := by
  rcases h.place with ⟨hnone, hahead⟩ | ⟨l, s, hpassed, hiter⟩
  · exact ⟨w, passed, ahead, by rw [iterStep, hnone], h⟩
  · have hslots : slotsOf runs = l ++ s :: ahead := by rw [h.slots, hpassed]; simp
    have hnext := hashtableIterNext_spec h.valid hslots
    cases hahead : ahead with
    | nil =>
      rw [hahead] at hnext
      refine ⟨{ w with iter := none }, passed, [], ?_, ?_⟩
      · rw [iterStep, hiter]
        simp only [hnext, List.head?_nil, Option.map_none, Option.map_some]
        simp [iterPair]
      · exact ⟨h.valid, hahead ▸ h.slots, Or.inl ⟨rfl, rfl⟩, h.nodup, by simp, h.bound,
          h.passedSeen, h.started, h.seenFrom, h.slotsFrom⟩
    | cons x ahead' =>
      rw [hahead] at hnext
      have hunseen := h.unseen
      rw [hahead] at hunseen
      have hmem : x.1 ∈ (slotsOf runs).map Prod.fst := by
        rw [h.slots, hahead]
        simp
      have hdistinct : ∀ y ∈ ahead', y.1 ≠ x.1 := by
        have hnodup := h.valid.arranged.nodup
        rw [h.slots, hahead, List.map_append, List.map_cons] at hnodup
        have hx := (List.nodup_cons.mp (List.nodup_append.mp hnodup).2.1).1
        exact fun y hy he => hx (he ▸ List.mem_map_of_mem hy)
      refine ⟨{ w with iter := some (.pair x.1), seen := w.seen ++ [x.1] }, passed ++ [x], ahead',
        ?_, h.valid, ?_, Or.inr ⟨passed, x, rfl, rfl⟩, ?_, fun y hy hseen => ?_, fun a ha => ?_,
        fun y hy => ?_, h.started, fun a ha => ?_, h.slotsFrom⟩
      · rw [iterStep, hiter]
        simp only [hnext, List.head?_cons, Option.map_some]
        rfl
      · rw [h.slots, hahead]
        simp
      · exact List.nodup_append_comm.mp (List.nodup_cons.mpr ⟨hunseen x (by simp), h.nodup⟩)
      · rcases List.mem_append.mp hseen with hseen | hseen
        · exact hunseen y (List.mem_cons_of_mem _ hy) hseen
        · exact hdistinct y hy (List.mem_singleton.mp hseen)
      · rcases List.mem_append.mp ha with ha | ha
        · exact h.bound a ha
        · rw [List.mem_singleton.mp ha]
          exact h.valid.bound _ hmem
      · rcases List.mem_append.mp hy with hy | hy
        · exact (h.passedSeen y hy).imp_left (List.mem_append_left _)
        · rw [List.mem_singleton.mp hy]
          exact Or.inl (by simp)
      · rcases List.mem_append.mp ha with ha | ha
        · exact h.seenFrom a ha
        · rw [List.mem_singleton.mp ha]
          exact h.slotsFrom x (by rw [h.slots, hahead]; simp)

/-- The pair the iterator is at has a key of its own. -/
lemma Iterating.spared (h : Iterating fns first start w n runs passed ahead) {key : K}
    (hspare : SparesIter fns w key) {l : List (TableSlot K V)} {s : TableSlot K V}
    (hpassed : passed = l ++ [s]) (hiter : w.iter = some (.pair s.1)) :
    sameKey fns key s = false := by
  have hs : s ∈ slotsOf runs := by rw [h.slots, hpassed]; simp
  exact hspare _ _ hiter (hashtableIterKey_spec h.valid hs).1

/-- **Deleting another key** leaves the iterator at its place.

**Proof sketch.** The pair of the iterator does not have the key, so it is kept. The filter
leaves out pairs on both sides. -/
lemma Iterating.delete (h : Iterating fns first start w n runs passed ahead) {key : K}
    (hspare : SparesIter fns w key) {v : TableWorld K V} {n' : ℕ} {runs' : BucketRuns K V}
    (hv : ValidTable fns v.table n' runs') (hslots : slotsOf runs' = without fns key (slotsOf runs))
    (hpairs : v.table.pairs = w.world.table.pairs) :
    Iterating fns first start { w with world := v } n' runs' (without fns key passed)
      (without fns key ahead) := by
  refine ⟨hv, ?_, ?_, h.nodup, fun s hs => h.unseen s (List.mem_filter.mp hs).1, ?_,
    fun s hs => h.passedSeen s (List.mem_filter.mp hs).1, ?_, h.seenFrom, ?_⟩
  · rw [hslots, h.slots, without, List.filter_append]
    rfl
  · rcases h.place with ⟨hnone, hahead⟩ | ⟨l, s, hpassed, hiter⟩
    · exact Or.inl ⟨hnone, by rw [hahead]; rfl⟩
    · refine Or.inr ⟨without fns key l, s, ?_, hiter⟩
      have hs := h.spared hspare hpassed hiter
      rw [hpassed, without, List.filter_append, without]
      simp [hs]
  · exact fun a ha => hpairs ▸ h.bound a ha
  · exact hpairs ▸ h.started
  · rw [hslots]
    exact fun s hs => h.slotsFrom s (List.mem_filter.mp hs).1

/-- **A new pair** goes in before the iterator or behind it.

**Proof sketch.** By cases on the place of the new pair: among those passed or among those
ahead. Its address is new, so it was not seen; the pair of the iterator stays the last one
passed. -/
lemma Iterating.insert (h : Iterating fns first start w n runs passed ahead) {v : TableWorld K V}
    {n' : ℕ} {runs' : BucketRuns K V} (hv : ValidTable fns v.table n' runs')
    {l₁ l₂ : List (TableSlot K V)} {pair : Pair K V} (hsplit : passed ++ ahead = l₁ ++ l₂)
    (hslots : slotsOf runs' = l₁ ++ (w.world.table.pairs, pair) :: l₂)
    (hpairs : v.table.pairs = w.world.table.pairs + 1) :
    ∃ passed' ahead', Iterating fns first start { w with world := v } n' runs' passed' ahead' := by
  have hbound : ∀ a ∈ w.seen, a < v.table.pairs := fun a ha => by
    have := h.bound a ha
    omega
  have hfresh : w.world.table.pairs ∉ w.seen := fun hmem => Nat.lt_irrefl _ (h.bound _ hmem)
  have hstarted : start ≤ v.table.pairs := by
    have := h.started
    omega
  have hfrom : ∀ s ∈ slotsOf runs', s.1 ∈ first ∨ start ≤ s.1 := by
    intro s hs
    rw [hslots, List.perm_middle.mem_iff, ← hsplit, ← h.slots] at hs
    rcases List.mem_cons.mp hs with rfl | hs
    · exact Or.inr h.started
    · exact h.slotsFrom s hs
  rcases h.place with ⟨hend, hahead⟩ | ⟨l, x, hlast, hiter⟩
  · -- the iterator is at the end: the new pair counts as passed
    rw [hahead, List.append_nil] at hsplit
    refine ⟨slotsOf runs', [], hv, (List.append_nil _).symm, Or.inl ⟨hend, rfl⟩, h.nodup, by simp,
      hbound, fun s hs => ?_, hstarted, h.seenFrom, hfrom⟩
    rw [hslots, List.perm_middle.mem_iff, ← hsplit] at hs
    rcases List.mem_cons.mp hs with rfl | hs
    · exact Or.inr h.started
    · exact h.passedSeen s hs
  · rcases List.append_eq_append_iff.mp hsplit with ⟨a, hl₁, hahead⟩ | ⟨a, hpassed, hl₂⟩
    · -- the new pair is ahead of the iterator
      refine ⟨passed, a ++ (w.world.table.pairs, pair) :: l₂, hv, ?_, Or.inr ⟨l, x, hlast, hiter⟩,
        h.nodup, fun s hs => ?_, hbound, h.passedSeen, hstarted, h.seenFrom, hfrom⟩
      · rw [hslots, hl₁]
        simp
      · rw [List.perm_middle.mem_iff, ← hahead] at hs
        rcases List.mem_cons.mp hs with rfl | hs
        · exact hfresh
        · exact h.unseen s hs
    · rcases List.eq_nil_or_concat' a with rfl | ⟨a, y, rfl⟩
      · -- the new pair is the next one
        rw [List.append_nil] at hpassed
        refine ⟨passed, (w.world.table.pairs, pair) :: ahead, hv, ?_, Or.inr ⟨l, x, hlast, hiter⟩,
          h.nodup, fun s hs => ?_, hbound, h.passedSeen, hstarted, h.seenFrom, hfrom⟩
        · rw [hslots, hl₂, hpassed]
          simp
        · rcases List.mem_cons.mp hs with rfl | hs
          · exact hfresh
          · exact h.unseen s hs
      · -- the iterator passed the place of the new pair
        rw [hpassed, ← List.append_assoc] at hlast
        obtain ⟨-, hy⟩ := List.append_inj' hlast rfl
        obtain rfl : y = x := by simpa using hy
        refine ⟨l₁ ++ (w.world.table.pairs, pair) :: (a ++ [y]), ahead, hv, ?_,
          Or.inr ⟨l₁ ++ (w.world.table.pairs, pair) :: a, y, by simp, hiter⟩, h.nodup, h.unseen,
          hbound, fun s hs => ?_, hstarted, h.seenFrom, hfrom⟩
        · rw [hslots, hl₂]
          simp
        · rw [List.perm_middle.mem_iff, ← hpassed] at hs
          rcases List.mem_cons.mp hs with rfl | hs
          · exact Or.inr h.started
          · exact h.passedSeen s hs

/-- A key that is set without a rehash needs no array of buckets. -/
lemma NoRehash.length_lt {t : Hashtable K V} (hv : ValidTable fns t n runs) {key : K}
    (h : NoRehash fns t key) : (without fns key (slotsOf runs)).length < n := by
  obtain ⟨t', runs', hdel, hv', hslots, -⟩ := hashtableDoDel_spec hv key
  have := h t' _ n hdel hv'.count
  rwa [hv'.size, hslots] at this

/-- **Setting another key without a rehash** leaves the iterator at its place.

**Proof sketch.** Without a rehash the set is a deletion (`Iterating.delete`) and an insertion
somewhere in the ring (`Iterating.insert`), or the deletion alone where the pair has no block. -/
lemma iterSet_iterating (h : Iterating fns first start w n runs passed ahead) {key : K}
    (hspare : SparesIter fns w key) (hno : NoRehash fns w.world.table key) (value : Option V)
    (array block : Bool) :
    ∃ w' n' runs' passed' ahead', iterStep fns w (.call (.set key value array block)) = some w' ∧
      Iterating fns first start w' n' runs' passed' ahead' := by
  have hlt := hno.length_lt h.valid
  have hroom : HasRoom fns w.world.table n runs key array := fun hle => by omega
  cases block with
  | true =>
    obtain ⟨t', n', runs', l₁, l₂, hset, hv', hslots, -, hsame, -, hpairs, -⟩ :=
      hashtableSet_spec h.valid key value hroom
    -- the table between the deletion and the insertion
    obtain ⟨t₁, r, hdel, hv₁, hslots₁, -, hpairs₁, -⟩ := hashtableDoDel_spec h.valid key
    have hmid := h.delete (v := w.world.store (t₁, 0)) hspare hv₁ hslots₁ hpairs₁
    have hsplit : without fns key passed ++ without fns key ahead = l₁ ++ l₂ := by
      rw [(hsame hlt).2, h.slots, without, without, without, List.filter_append]
    obtain ⟨passed', ahead', h'⟩ :=
      hmid.insert (v := w.world.store (t', 0)) hv' hsplit (by
        rw [hslots]
        exact congrArg (fun a => l₁ ++ (a, _) :: l₂) hpairs₁.symm) (hpairs.trans (by
        exact congrArg (· + 1) hpairs₁.symm))
    exact ⟨_, n', runs', passed', ahead', by rw [iterStep, tableStep, hset]; rfl, h'⟩
  | false =>
    obtain ⟨t', n', runs', hset, hv', -, hsame, -, hpairs, -⟩ :=
      hashtableSet_noPair h.valid key value hroom
    have h' := h.delete (v := w.world.store (t', -1)) hspare hv' (hsame hlt).2 hpairs
    exact ⟨_, n', runs', _, _, by rw [iterStep, tableStep, hset]; rfl, h'⟩

/-- Looking up a key leaves the table as it is. -/
lemma tableStep_get {v : TableWorld K V} (hv : ValidTable fns v.table n runs) (key : K) :
    ∃ v', tableStep fns v (.get key) = some v' ∧ v'.table = v.table := by
  simp only [tableStep, hashtableGet, lookupPair_spec hv key, Option.map_some, Option.some.injEq,
    exists_eq_left']

/-- A test leaves the table. -/
lemma tableStep_getTest {v : TableWorld K V} (hv : ValidTable fns v.table n runs) (key : K) :
    ∃ v', tableStep fns v (.getTest key) = some v' ∧ v'.table = v.table := by
  simp only [tableStep, hashtableGetTest, lookupPair_spec hv key, Option.map_some,
    Option.some.injEq, exists_eq_left']

/-- A call that leaves the table leaves the iterator. -/
lemma Iterating.look (h : Iterating fns first start w n runs passed ahead) {v : TableWorld K V}
    (hv : v.table = w.world.table) :
    Iterating fns first start { w with world := v } n runs passed ahead :=
  ⟨hv ▸ h.valid, h.slots, h.place, h.nodup, h.unseen, hv ▸ h.bound, h.passedSeen, hv ▸ h.started,
    h.seenFrom, h.slotsFrom⟩

/-- **One turn keeps the invariant.**

**Proof sketch.** By cases on the turn and on the call: the iterator goes on, or the table is
changed by another key, or it is only looked at. -/
lemma iterStep_iterating (h : Iterating fns first start w n runs passed ahead) {c : IterCall K V}
    (hsafe : iterSafe fns w c) :
    ∃ w' n' runs' passed' ahead', iterStep fns w c = some w' ∧
      Iterating fns first start w' n' runs' passed' ahead' := by
  cases c with
  | next =>
    obtain ⟨w', passed', ahead', hstep, h'⟩ := iterNext_iterating h
    exact ⟨w', n, runs, passed', ahead', hstep, h'⟩
  | call c =>
    cases c with
    | set key value array block => exact iterSet_iterating h hsafe.1 hsafe.2 value array block
    | del key =>
      obtain ⟨t', runs', hdel, hv', hslots, -, hpairs, -⟩ := hashtableDoDel_spec h.valid key
      generalize (if (slotsOf runs).any (sameKey fns key) then (0 : ℤ) else -1) = r at hdel
      have h' := h.delete (v := w.world.store (t', r)) hsafe hv' hslots hpairs
      exact ⟨_, n, runs', _, _, by rw [iterStep, tableStep, hashtableDel, hdel]; rfl, h'⟩
    | get key =>
      obtain ⟨v, hstep, hv⟩ := tableStep_get h.valid key
      exact ⟨_, n, runs, passed, ahead, by rw [iterStep, hstep]; rfl, h.look hv⟩
    | getTest key =>
      obtain ⟨v, hstep, hv⟩ := tableStep_getTest h.valid key
      exact ⟨_, n, runs, passed, ahead, by rw [iterStep, hstep]; rfl, h.look hv⟩

end Turns

/-! ## Every run of turns -/

/-- The turns that move the iterator. -/
def IterCall.isNext : IterCall K V → Bool
  | .next => true
  | .call _ => false

/-- An iterator that did not reach the end saw a pair for each step.

**Proof sketch.** Induction on the turns. A step sees a pair or ends, and once at its end the
iterator stays there. -/
lemma length_seen {fns : KeyFns K} {w w' : IterWorld K V} {turns : List (IterCall K V)}
    (hrun : run? (iterStep fns) w turns = some w') (hend : w'.iter ≠ none) :
    w.iter ≠ none ∧ w'.seen.length = w.seen.length + turns.countP IterCall.isNext := by
  induction turns generalizing w with
  | nil =>
    obtain rfl := Option.some.inj hrun
    exact ⟨hend, rfl⟩
  | cons c turns ih =>
    rw [run?_cons] at hrun
    obtain ⟨w₁, hstep, hrest⟩ := Option.bind_eq_some_iff.mp hrun
    obtain ⟨hne, hlen⟩ := ih hrest
    cases c with
    | call c =>
      obtain ⟨v, -, rfl⟩ := Option.map_eq_some_iff.mp hstep
      exact ⟨hne, hlen.trans (by simp [IterCall.isNext])⟩
    | next =>
      rw [iterStep] at hstep
      cases hiter : w.iter with
      | none =>
        rw [hiter] at hstep
        obtain rfl := Option.some.inj hstep
        exact absurd hiter hne
      | some iter =>
        rw [hiter] at hstep
        obtain ⟨q, hnext, rfl⟩ := Option.map_eq_some_iff.mp hstep
        refine ⟨by simp, hlen.trans ?_⟩
        have hq : ∃ a, q = some (.pair a) := by
          obtain ⟨c, -, hc⟩ := Option.map_eq_some_iff.mp hnext
          cases q with
          | none => exact absurd rfl hne
          | some p =>
            cases p with
            | pair a => exact ⟨a, rfl⟩
            | table =>
              split at hc
              · cases hc
              · rename_i hne'
                exact absurd hc hne'
        obtain ⟨a, rfl⟩ := hq
        rw [List.countP_cons_of_pos rfl]
        simp only [iterPair, Option.bind_some, listToPair, Option.toList_some, List.length_append,
          List.length_singleton]
        omega

/-- An iterator starts with no pair passed but the one it is at.

**Proof sketch.** An empty ring has no first pair. Otherwise the iterator is at the first one,
which is passed and seen. -/
lemma iterStart_iterating {fns : KeyFns K} {w : TableWorld K V} {n : ℕ} {runs : BucketRuns K V}
    (hv : ValidTable fns w.table n runs) :
    ∃ v passed ahead, iterStart w = some v ∧ (v.iter ≠ none → 0 < v.seen.length) ∧
      Iterating fns ((slotsOf runs).map Prod.fst) w.table.pairs v n runs passed ahead := by
  have hiter := hashtableIter_spec hv
  cases hslots : slotsOf runs with
  | nil =>
    rw [hslots] at hiter
    exact ⟨⟨w, none, []⟩, [], [], by rw [iterStart, hiter]; rfl, fun hne => absurd rfl hne, hv,
      hslots, Or.inl ⟨rfl, rfl⟩, List.nodup_nil, by simp, by simp, by simp, le_rfl, by simp,
      fun s hs => Or.inl (by rw [← hslots]; exact List.mem_map_of_mem hs)⟩
  | cons s l =>
    rw [hslots] at hiter
    have hnodup := hv.arranged.nodup
    rw [hslots] at hnodup
    have hs : s.1 < w.table.pairs := hv.bound _ (by rw [hslots]; simp)
    refine ⟨⟨w, some (.pair s.1), [s.1]⟩, [s], l, by rw [iterStart, hiter]; rfl, fun _ => by simp,
      hv, hslots, Or.inr ⟨[], s, rfl, rfl⟩, by simp, fun x hx hmem => ?_, by simpa using hs,
      by simp, le_rfl, by simp, fun x hx => Or.inl ?_⟩
    · rw [List.mem_singleton] at hmem
      exact (List.nodup_cons.mp hnodup).1 (hmem ▸ List.mem_map_of_mem hx)
    · rw [← hslots]
      exact List.mem_map_of_mem hx

/-- **Iterating over a table that changes**: from any table that a run of calls made, an iterator
may be moved in any order with calls that spare its pair and do not rehash. No turn follows a bad
pointer, the iterator is at no pair twice, it reaches the end after as many steps as there were
pairs when it began and were made since, and then it was at every pair that stayed in the table.

**Proof sketch.** The pairs split into those that the iterator passed and those ahead of it, and
each turn keeps the split. It is at a new pair with each step, and there are no others than those
of the beginning and those made since. -/
theorem hashtable_iterates_each_once (fns : KeyFns K) {freeKey freeValue : Bool} {t : Hashtable K V}
    (h : hashtableInit K V freeKey freeValue true = some t) {calls : List (TableCall K V)}
    (hroom : GuardedRun (tableStep fns) (tableRoom fns) (TableWorld.start t) calls)
    {w : TableWorld K V} (hrun : run? (tableStep fns) (TableWorld.start t) calls = some w) :
    ∃ v, iterStart w = some v ∧
      ∀ turns, GuardedRun (iterStep fns) (iterSafe fns) v turns →
        ∃ v', run? (iterStep fns) v turns = some v' ∧ v'.seen.Nodup ∧
          (w.table.size + (v'.world.table.pairs - w.table.pairs) ≤ turns.countP IterCall.isNext →
            v'.iter = none) ∧
          (v'.iter = none → ∀ a, (w.table.cells (.pair a)).isSome = true →
            (v'.world.table.cells (.pair a)).isSome = true → a ∈ v'.seen) := by
  obtain ⟨w', hrun', ⟨n, runs₀, hv, -⟩, -⟩ := tableRun_refines (tableRefines_start fns h) hroom
  obtain rfl := Option.some.inj (hrun.symm.trans hrun')
  obtain ⟨v, passed, ahead, hv₀, hseen, hstart⟩ := iterStart_iterating hv
  refine ⟨v, hv₀, fun turns hturns => ?_⟩
  obtain ⟨v', hrunv, n', runs', passed', ahead', h'⟩ :=
    run?_guarded (I := fun v => ∃ n runs passed ahead,
      Iterating fns ((slotsOf runs₀).map Prod.fst) w.table.pairs v n runs passed ahead)
      (fun _ _ ⟨_, _, _, _, hI⟩ hc => by
        obtain ⟨v', n', runs', passed', ahead', hstep, hI'⟩ := iterStep_iterating hI hc
        exact ⟨v', hstep, n', runs', passed', ahead', hI'⟩)
      ⟨n, runs₀, passed, ahead, hstart⟩ hturns
  refine ⟨v', hrunv, h'.nodup, fun hcount => ?_, fun hend a ha ha' => ?_⟩
  · by_contra hne
    obtain ⟨hne₀, hlen⟩ := length_seen hrunv hne
    have hfirst := hseen hne₀
    -- the pairs of the beginning, and those made since
    have hsub : v'.seen ⊆ (slotsOf runs₀).map Prod.fst ++
        List.range' w.table.pairs (v'.world.table.pairs - w.table.pairs) := by
      intro a ha
      rw [List.mem_append, List.mem_range'_1]
      refine (h'.seenFrom a ha).imp_right fun hle => ⟨hle, ?_⟩
      have hlt := h'.bound a ha
      omega
    have hle := (List.subperm_of_subset h'.nodup hsub).length_le
    rw [List.length_append, List.length_map, List.length_range', ← hv.size] at hle
    omega
  · have hlt := hv.bound a (hv.owned a ha)
    obtain ⟨s, hs, rfl⟩ := List.mem_map.mp (h'.valid.owned a ha')
    have hnil : ahead' = [] := by
      rcases h'.place with ⟨-, hnil⟩ | ⟨l, s, -, hiter'⟩
      · exact hnil
      · rw [hiter'] at hend
        cases hend
    rw [h'.slots, hnil, List.append_nil] at hs
    exact (h'.passedSeen s hs).resolve_right (by omega)

/-- The iterator over a table with five letters.

**Proof sketch.** `hashtable_iterates_each_once`. -/
theorem hashtable_iterates_each_once_letters :
    ∃ (t : Hashtable Str ℕ) (w : TableWorld Str ℕ), hashtableInit Str ℕ true true true = some t ∧
      run? (tableStep stringKeys) (TableWorld.start t) letterCalls = some w ∧
      ∃ v, iterStart w = some v ∧
        ∀ turns, GuardedRun (iterStep stringKeys) (iterSafe stringKeys) v turns →
          ∃ v', run? (iterStep stringKeys) v turns = some v' ∧ v'.seen.Nodup ∧
            (w.table.size + (v'.world.table.pairs - w.table.pairs) ≤ turns.countP IterCall.isNext →
            v'.iter = none) ∧
            (v'.iter = none → ∀ a, (w.table.cells (.pair a)).isSome = true →
              (v'.world.table.cells (.pair a)).isSome = true → a ∈ v'.seen) := by
  have hrun : (run? (tableStep stringKeys) (TableWorld.start newLetterTable) letterCalls).isSome =
      true := by decide +kernel
  obtain ⟨w, hw⟩ := Option.isSome_iff_exists.mp hrun
  exact ⟨newLetterTable, w, rfl, hw,
    hashtable_iterates_each_once stringKeys rfl letterCalls_room hw⟩

end Taningia
