import Taningia.Hashtable.Runs

set_option relaxedAutoImplicit false
set_option autoImplicit false

/-!
# Hash tables: what each function does

Each function is described by what it does to the list of all pairs of a valid table, in the order
of the ring.

## Main definitions

* `Taningia.ValidTable` — the invariant of a table.
* `Taningia.SameSetup` — what no function changes.

## Main results

* `Taningia.lookupPair_spec` — what `hashtable_get` and `hashtable_get_test` find.
* `Taningia.hashtableDoDel_found`, `Taningia.hashtableDoDel_absent` — deleting a key.
* `Taningia.rehashLoop_spec`, `Taningia.hashtableDoRehash_spec` — moving all pairs to a new array.
* `Taningia.insertPair_spec` — the new pair of `hashtable_set`.
* `Taningia.hashtableIterNext_spec` — the step of an iterator.
* `Taningia.hashtableClose_spec` — giving everything back.
-/

namespace Taningia

open Chain

variable {K V : Type}

/-! ## The invariant -/

/-- The pairs of the table are those of the runs, with their own hashes and different keys, and no
other pair is in memory. -/
structure ValidTable (fns : KeyFns K) (t : Hashtable K V) (n : ℕ) (runs : BucketRuns K V) :
    Prop where
  count : numBuckets t = some n
  arranged : Arranged t.cells t.buckets n runs
  size : t.size = (slotsOf runs).length
  hashed : ∀ s ∈ slotsOf runs, s.2.hash = fns.hashKey s.2.key
  distinct : (slotsOf runs).Pairwise fun s s' => fns.cmpKeys s.2.key s'.2.key = false
  owned : ∀ a, (t.cells (.pair a)).isSome = true → a ∈ (slotsOf runs).map Prod.fst
  bound : ∀ a ∈ (slotsOf runs).map Prod.fst, a < t.pairs

/-- Whether a pair has the key. -/
def sameKey (fns : KeyFns K) (key : K) (s : TableSlot K V) : Bool := fns.cmpKeys s.2.key key

/-- The free functions are those given to `hashtable_init`. -/
def SameSetup (t t' : Hashtable K V) : Prop :=
  t'.freeKey = t.freeKey ∧ t'.freeValue = t.freeValue

/-- A table has its own setup. -/
lemma SameSetup.refl (t : Hashtable K V) : SameSetup t t := ⟨rfl, rfl⟩

/-- The setup is kept by calls one after the other. -/
lemma SameSetup.trans {t t' t'' : Hashtable K V} (h : SameSetup t t') (h' : SameSetup t' t'') :
    SameSetup t t'' := ⟨h'.1.trans h.1, h'.2.trans h.2⟩

/-- No array of buckets is empty. -/
lemma pos_of_primes {i n : ℕ} (h : primes[i]? = some n) : 0 < n := by
  have hall : ∀ p ∈ primes, 0 < p := by decide
  exact hall n (List.mem_of_getElem? h)

/-- A hash falls in one of the buckets. -/
lemma bucketIndex_lt (hash : UInt32) {n : ℕ} (h : 0 < n) : bucketIndex hash n < n :=
  Nat.mod_lt _ h

section ValidTable

variable {fns : KeyFns K} {t : Hashtable K V} {n : ℕ} {runs : BucketRuns K V}

/-- A table has a bucket. -/
lemma ValidTable.pos (hv : ValidTable fns t n runs) : 0 < n := pos_of_primes hv.count

/-- The pairs in the table fit into the number of pairs made. -/
lemma ValidTable.length_lt_fuel (hv : ValidTable fns t n runs) :
    (slotsOf runs).length < t.fuel := by
  have hsub : (slotsOf runs).map Prod.fst ⊆ List.range t.pairs :=
    fun a ha => List.mem_range.mpr (hv.bound a ha)
  have hlen := (List.subperm_of_subset hv.arranged.nodup hsub).length_le
  rw [List.length_map, List.length_range] at hlen
  exact Nat.lt_succ_of_le hlen

/-- In a valid table, equal keys are told by the comparison alone. -/
lemma ValidTable.matchesKey_eq (hv : ValidTable fns t n runs) (key : K) {s : TableSlot K V}
    (hs : s ∈ slotsOf runs) : matchesKey fns key (fns.hashKey key) s = sameKey fns key s := by
  unfold matchesKey sameKey
  cases hcmp : fns.cmpKeys s.2.key key with
  | false => simp
  | true =>
    have hhash : s.2.hash = fns.hashKey key := (hv.hashed s hs).trans (fns.hash_eq _ _ hcmp)
    simp [hhash]

/-- A search depends on what the test says of the elements only. -/
lemma find?_congr_mem {l : List (TableSlot K V)} {p q : TableSlot K V → Bool}
    (h : ∀ s ∈ l, p s = q s) : l.find? p = l.find? q := by
  induction l with
  | nil => rfl
  | cons s l ih =>
    have hl := ih fun x hx => h x (List.mem_cons_of_mem _ hx)
    rw [List.find?_cons, List.find?_cons, h s (by simp), hl]

/-! ## Finding -/

/-- **A key is found** in its bucket exactly when a pair of the table has it.

**Proof sketch.** The run of the bucket is a part of the ring (`exists_run`), and the function
walks from its first pair to its last. Equal keys have equal hashes, so a pair with the key is
in this run if it is anywhere. -/
lemma hashtableFindPair_spec (hv : ValidTable fns t n runs) (key : K) :
    ∃ bucket, t.buckets (bucketIndex (fns.hashKey key) n) = some bucket ∧
      hashtableFindPair fns t bucket key (fns.hashKey key) =
        some (((slotsOf runs).find? (sameKey fns key)).map Prod.fst) := by
  obtain ⟨A, run, B, rfl⟩ := hv.arranged.exists_run (bucketIndex_lt (fns.hashKey key) hv.pos)
  refine ⟨_, hv.arranged.bucket_run, ?_⟩
  rw [← find?_congr_mem fun s hs => hv.matchesKey_eq key hs,
    ← find?_run fns hv.arranged key rfl, hashtableFindPair, bucketIsEmpty_endsOf]
  cases hrun : run with
  | nil => rfl
  | cons s l =>
    rw [← hrun, if_neg (by simp [hrun])]
    have hslots : slotsOf (A ++ (bucketIndex (fns.hashKey key) n, run) :: B) =
        slotsOf A ++ (run ++ slotsOf B) := by simp
    have hring := hv.arranged.ring
    have hnodup := hv.arranged.nodup
    have hfuel := hv.length_lt_fuel
    rw [hslots] at hring hnodup hfuel
    rw [ringOf_append] at hring
    have hpath := hring.follow (List.cons_ne_nil _ _)
    rw [List.map_append] at hpath hnodup
    rw [List.map_append] at hnodup
    have hrunNodup : (run.map Prod.fst).Nodup :=
      (List.nodup_append.mp (List.nodup_append.mp hnodup).2.1).1
    refine findPairLoop_spec fns key _ (path_append.mp hpath).1 hrunNodup (by simp [hrun]) ?_
    rw [List.length_append, List.length_append] at hfuel
    omega

/-- **What a lookup finds**: the pair with the key, if there is one.

**Proof sketch.** `hashtableFindPair_spec` gives the address of the pair, whose cell is read. -/
lemma lookupPair_spec (hv : ValidTable fns t n runs) (key : K) :
    lookupPair fns t key = some (((slotsOf runs).find? (sameKey fns key)).map Prod.snd) := by
  obtain ⟨bucket, hbucket, hfind⟩ := hashtableFindPair_spec hv key
  unfold lookupPair
  simp only [hv.count, Option.bind_eq_bind, Option.bind_some, hbucket, hfind]
  cases hs : (slotsOf runs).find? (sameKey fns key) with
  | none => rfl
  | some s =>
    obtain ⟨l₁, l₂, hslots⟩ := List.append_of_mem (List.mem_of_find?_eq_some hs)
    have hring := hv.arranged.ring
    rw [hslots] at hring
    simp only [Option.map_some, Ring.pair_cell hring, Option.bind_some]

/-! ## Deleting -/

/-- **Deleting a key that is not there** changes nothing. -/
lemma hashtableDoDel_absent (hv : ValidTable fns t n runs) {key : K}
    (h : (slotsOf runs).find? (sameKey fns key) = none) :
    hashtableDoDel fns t key (fns.hashKey key) = some (t, -1) := by
  obtain ⟨bucket, hbucket, hfind⟩ := hashtableFindPair_spec hv key
  rw [h] at hfind
  unfold hashtableDoDel
  simp only [hv.count, Option.bind_eq_bind, Option.bind_some, hbucket, hfind, Option.map_none]

/-- **Deleting a key that is there** takes its pair out and gives it back.

**Proof sketch.** The work on the list and the bucket is `removeFromBucket_spec`. The pairs that
stay are a sublist of those before, so sizes, hashes, different keys and addresses carry over;
no cell but that of the pair is freed. -/
lemma hashtableDoDel_found (hv : ValidTable fns t n runs) {key : K} {s : TableSlot K V}
    (h : (slotsOf runs).find? (sameKey fns key) = some s) :
    ∃ t' runs' l₁ l₂, hashtableDoDel fns t key (fns.hashKey key) = some (t', 0) ∧
      ValidTable fns t' n runs' ∧ slotsOf runs = l₁ ++ s :: l₂ ∧ slotsOf runs' = l₁ ++ l₂ ∧
      SameSetup t t' ∧ t'.pairs = t.pairs ∧ t'.numBuckets = t.numBuckets ∧
      t'.released = t.released ++ releasesOf t.freeKey t.freeValue s.1 s.2 := by
  obtain ⟨bucket, hbucket, hfind⟩ := hashtableFindPair_spec hv key
  have hs : s ∈ slotsOf runs := List.mem_of_find?_eq_some h
  have hsame : sameKey fns key s = true := List.find?_some h
  have hhash : s.2.hash = fns.hashKey key := (hv.hashed s hs).trans (fns.hash_eq _ _ hsame)
  obtain ⟨_, bucket', m', runs', l₁, l₂, hbucket', hwithout, hunlink, harranged, hslots, hslots',
    hdata, hframe⟩ := removeFromBucket_spec hv.arranged hs (bucketIndex_lt _ hv.pos)
      (congrArg (bucketIndex · n) hhash)
  obtain rfl := Option.some.inj (hbucket'.symm.trans hbucket)
  have hsub := sublist_middle l₁ l₂ s
  obtain ⟨c, hc, hcdata⟩ := Option.bind_eq_some_iff.mp hdata
  let t₁ : Hashtable K V := { t with
    buckets := Function.update t.buckets (bucketIndex (fns.hashKey key) n) (some bucket')
    cells := m' }
  refine ⟨{ releasePair t₁ s.1 s.2 with size := t.size - 1 }, runs', l₁, l₂, ?_, ?_, hslots,
    hslots', ⟨rfl, rfl⟩, rfl, rfl, rfl⟩
  · unfold hashtableDoDel
    simp only [hv.count, Option.bind_eq_bind, Option.bind_some, hbucket, hfind, h, Option.map_some,
      hwithout, hunlink, hc, hcdata]
    rfl
  · constructor
    · exact hv.count
    · exact harranged
    · have hsize := hv.size
      rw [hslots, List.length_append, List.length_cons] at hsize
      rw [hslots', List.length_append]
      show t.size - 1 = _
      omega
    · intro x hx
      rw [hslots'] at hx
      exact hv.hashed x (hslots ▸ hsub.subset hx)
    · rw [hslots']
      exact (hslots ▸ hv.distinct).sublist hsub
    · intro a ha
      by_cases has : a = s.1
      · rw [has] at ha
        simp [releasePair] at ha
      · have hne : ListPtr.pair a ≠ .pair s.1 := fun he => has (ListPtr.pair.inj he)
        have ha' : (m' (.pair a)).isSome = true := by
          simpa only [releasePair, Function.update_of_ne hne] using ha
        rw [hslots']
        by_contra hmem
        rw [hframe a hmem] at ha'
        have hold := hv.owned a ha'
        rw [hslots] at hold
        simp only [List.map_append, List.map_cons, List.mem_append, List.mem_cons] at hold hmem
        tauto
    · intro a ha
      rw [hslots'] at ha
      exact hv.bound a (hslots ▸ (hsub.map Prod.fst).subset ha)

/-- A pair of the table is found exactly by the keys that are equal to its own.

**Proof sketch.** A pair that is found has the key. The other way, an earlier one with the key
would have a key equal to that of `s`, and the keys of a table are different. -/
lemma ValidTable.find?_eq_some_iff (hv : ValidTable fns t n runs) {key : K} {s : TableSlot K V} :
    (slotsOf runs).find? (sameKey fns key) = some s ↔
      s ∈ slotsOf runs ∧ fns.cmpKeys s.2.key key = true := by
  constructor
  · intro h
    have hsame : sameKey fns key s = true := List.find?_some h
    exact ⟨List.mem_of_find?_eq_some h, hsame⟩
  · rintro ⟨hs, hkey⟩
    obtain ⟨l₁, l₂, hslots⟩ := List.append_of_mem hs
    have hdistinct := hv.distinct
    rw [hslots] at hdistinct ⊢
    refine List.find?_eq_some_iff_append.mpr ⟨hkey, l₁, l₂, rfl, fun x hx => ?_⟩
    have hne := (List.pairwise_append.mp hdistinct).2.2 x hx s (by simp)
    rw [sameKey]
    by_contra hx'
    have hx'' : fns.cmpKeys x.2.key key = true := by simpa using hx'
    exact absurd (fns.equal.trans hx'' (fns.equal.symm hkey)) (by simp [hne])

/-- The other pairs of a table have other keys.

**Proof sketch.** Otherwise both pairs would be found by the key, and what is found is one pair. -/
lemma ValidTable.not_sameKey (hv : ValidTable fns t n runs) {l₁ l₂ : List (TableSlot K V)}
    {s : TableSlot K V} (hslots : slotsOf runs = l₁ ++ s :: l₂) {key : K}
    (hkey : fns.cmpKeys s.2.key key = true) {x : TableSlot K V} (hx : x ∈ l₁ ++ l₂) :
    sameKey fns key x = false := by
  by_contra hx'
  have hxkey : fns.cmpKeys x.2.key key = true := by simpa [sameKey] using hx'
  have hmem : x ∈ slotsOf runs := hslots ▸ (sublist_middle l₁ l₂ s).subset hx
  have hfind := hv.find?_eq_some_iff.mpr ⟨hmem, hxkey⟩
  have hfind' := hv.find?_eq_some_iff.mpr ⟨hslots ▸ by simp, hkey⟩
  obtain rfl : s = x := Option.some.inj (hfind'.symm.trans hfind)
  have hnodup := hv.arranged.nodup
  rw [hslots] at hnodup
  exact fst_not_mem_of_nodup hnodup (List.mem_map_of_mem hx)

/-- The pairs that a deletion leaves. -/
def without (fns : KeyFns K) (key : K) (slots : List (TableSlot K V)) : List (TableSlot K V) :=
  slots.filter fun s => !sameKey fns key s

/-- What a table gives back with some of its pairs. -/
def releasesOfAll (t : Hashtable K V) (slots : List (TableSlot K V)) : List (Release K V) :=
  slots.flatMap fun s => releasesOf t.freeKey t.freeValue s.1 s.2

/-- What is left without a key that is there.

**Proof sketch.** The filter passes the others (`not_sameKey`) and stops at the pair itself. -/
lemma ValidTable.without_eq (hv : ValidTable fns t n runs) {l₁ l₂ : List (TableSlot K V)}
    {s : TableSlot K V} (hslots : slotsOf runs = l₁ ++ s :: l₂) {key : K}
    (hkey : fns.cmpKeys s.2.key key = true) :
    without fns key (slotsOf runs) = l₁ ++ l₂ ∧
      (slotsOf runs).filter (sameKey fns key) = [s] := by
  have hothers := fun x hx => hv.not_sameKey hslots hkey (x := x) hx
  have hs : sameKey fns key s = true := hkey
  have hkeep : ∀ l : List (TableSlot K V), (∀ x ∈ l, sameKey fns key x = false) →
      l.filter (fun x => !sameKey fns key x) = l ∧ l.filter (sameKey fns key) = [] := by
    intro l hl
    exact ⟨List.filter_eq_self.mpr fun x hx => by simp [hl x hx],
      List.filter_eq_nil_iff.mpr fun x hx => by simp [hl x hx]⟩
  obtain ⟨hkeep₁, hdrop₁⟩ := hkeep l₁ fun x hx => hothers x (List.mem_append_left l₂ hx)
  obtain ⟨hkeep₂, hdrop₂⟩ := hkeep l₂ fun x hx => hothers x (List.mem_append_right l₁ hx)
  constructor
  · rw [hslots, without, List.filter_append, List.filter_cons_of_neg (by simp [hs]), hkeep₁,
      hkeep₂]
  · rw [hslots, List.filter_append, List.filter_cons_of_pos hs, hdrop₁, hdrop₂]
    rfl

/-- One pair at most has a key. -/
lemma ValidTable.length_without (hv : ValidTable fns t n runs) {key : K} {s : TableSlot K V}
    (h : (slotsOf runs).find? (sameKey fns key) = some s) :
    (without fns key (slotsOf runs)).length + 1 = (slotsOf runs).length := by
  obtain ⟨hs, hkey⟩ := hv.find?_eq_some_iff.mp h
  obtain ⟨l₁, l₂, hslots⟩ := List.append_of_mem hs
  rw [(hv.without_eq hslots hkey).1, hslots, List.length_append, List.length_append,
    List.length_cons, Nat.add_assoc]

/-- **Deleting a key** leaves the other pairs, in their order, and gives back the pair with the
key.

**Proof sketch.** Where no pair has the key the walk finds none and nothing is changed. Where
one has it, `hashtableDoDel_found`, and the key of the pair is what the filter leaves out. -/
lemma hashtableDoDel_spec (hv : ValidTable fns t n runs) (key : K) :
    ∃ t' runs', hashtableDoDel fns t key (fns.hashKey key) =
        some (t', if (slotsOf runs).any (sameKey fns key) then 0 else -1) ∧
      ValidTable fns t' n runs' ∧ slotsOf runs' = without fns key (slotsOf runs) ∧
      SameSetup t t' ∧ t'.pairs = t.pairs ∧ t'.numBuckets = t.numBuckets ∧
      t'.released = t.released ++ releasesOfAll t ((slotsOf runs).filter (sameKey fns key)) := by
  cases hfind : (slotsOf runs).find? (sameKey fns key) with
  | none =>
    have hnone := List.find?_eq_none.mp hfind
    have hany : (slotsOf runs).any (sameKey fns key) = false := by
      rw [List.any_eq_false]
      exact hnone
    have hkeep : without fns key (slotsOf runs) = slotsOf runs :=
      List.filter_eq_self.mpr fun s hs => by simpa using hnone s hs
    have hdrop : (slotsOf runs).filter (sameKey fns key) = [] := List.filter_eq_nil_iff.mpr hnone
    refine ⟨t, runs, ?_, hv, hkeep.symm, SameSetup.refl t, rfl, rfl, ?_⟩
    · rw [hany, if_neg (by simp), hashtableDoDel_absent hv hfind]
    · rw [hdrop]
      simp [releasesOfAll]
  | some s =>
    obtain ⟨t', runs', l₁, l₂, hdel, hv', hslots, hslots', hsetup, hpairs, hindex, hreleased⟩ :=
      hashtableDoDel_found hv hfind
    have hkey : fns.cmpKeys s.2.key key = true := (hv.find?_eq_some_iff.mp hfind).2
    obtain ⟨hkeep, hdrop⟩ := hv.without_eq hslots hkey
    have hany : (slotsOf runs).any (sameKey fns key) = true :=
      List.any_eq_true.mpr ⟨s, by simp [hslots], hkey⟩
    refine ⟨t', runs', ?_, hv', hslots'.trans hkeep.symm, hsetup, hpairs, hindex, ?_⟩
    · rw [hany, if_pos rfl, hdel]
    · rw [hreleased, hdrop]
      simp [releasesOfAll]

/-! ## Inserting -/

/-- Different keys are different in any order. -/
lemma cmpKeys_comm (fns : KeyFns K) {a b : K} (h : fns.cmpKeys a b = false) :
    fns.cmpKeys b a = false := by
  cases hba : fns.cmpKeys b a with
  | false => rfl
  | true => exact absurd (fns.equal.symm hba) (by simp [h])

/-- **A new pair goes into its bucket**, somewhere in the ring.

**Proof sketch.** The work on the list and the bucket is `insertToBucket_spec`, at a cell with a
fresh address. The pairs are those before and the new one, whose key none of them has. -/
lemma insertPair_spec (hv : ValidTable fns t n runs) {pair : Pair K V}
    (hhash : pair.hash = fns.hashKey pair.key)
    (hnew : ∀ s ∈ slotsOf runs, fns.cmpKeys s.2.key pair.key = false) :
    ∃ t' runs' l₁ l₂, insertPair t pair = some (t', 0) ∧ ValidTable fns t' n runs' ∧
      slotsOf runs = l₁ ++ l₂ ∧ slotsOf runs' = l₁ ++ (t.pairs, pair) :: l₂ ∧
      SameSetup t t' ∧ t'.pairs = t.pairs + 1 ∧ t'.released = t.released := by
  let list := ListPtr.pair t.pairs
  let cells := Function.update t.cells list (some ⟨some list, some list, some pair⟩)
  have hfresh : t.pairs ∉ (slotsOf runs).map Prod.fst :=
    fun hmem => Nat.lt_irrefl _ (hv.bound _ hmem)
  have hother : ∀ a, a ≠ t.pairs → cells (.pair a) = t.cells (.pair a) :=
    fun a ha => Function.update_of_ne (fun he => ha (ListPtr.pair.inj he)) _ _
  have harranged : Arranged cells t.buckets n runs :=
    hv.arranged.congr (Function.update_of_ne (by simp [list]) _ _)
      fun a ha => hother a fun he => hfresh (he ▸ ha)
  obtain ⟨bucket, m', bucket', runs', l₁, l₂, hbucket, hinsert, harranged', hslots, hslots',
    hframe⟩ := insertToBucket_spec harranged (s := (t.pairs, pair)) (bucketIndex_lt _ hv.pos) rfl
      hfresh (Function.update_self _ _ _)
  have hperm : (slotsOf runs').Perm ((t.pairs, pair) :: slotsOf runs) := by
    rw [hslots, hslots']
    exact List.perm_middle
  refine ⟨{ t with
    size := t.size + 1
    buckets := Function.update t.buckets (bucketIndex pair.hash n) (some bucket')
    cells := m'
    pairs := t.pairs + 1 }, runs', l₁, l₂, ?_, ?_, hslots, hslots', ⟨rfl, rfl⟩, rfl, rfl⟩
  · unfold insertPair
    have hcount : numBuckets { t with cells := cells, pairs := t.pairs + 1 } = some n := hv.count
    simp only [Option.bind_eq_bind]
    rw [hcount, Option.bind_some, hbucket, Option.bind_some, hinsert]
    rfl
  · refine ⟨hv.count, harranged', ?_, ?_, ?_, ?_, ?_⟩
    · rw [hperm.length_eq, List.length_cons]
      exact congrArg (· + 1) hv.size
    · intro s hs
      rcases List.mem_cons.mp (hperm.mem_iff.mp hs) with rfl | hs
      · exact hhash
      · exact hv.hashed s hs
    · refine (hperm.pairwise_iff fun h => cmpKeys_comm fns h).mpr ?_
      exact List.pairwise_cons.mpr ⟨fun s hs => cmpKeys_comm fns (hnew s hs), hv.distinct⟩
    · intro a ha
      rw [(hperm.map Prod.fst).mem_iff, List.map_cons, List.mem_cons]
      by_cases hat : a = t.pairs
      · exact Or.inl hat
      · by_contra hmem
        have hcell : m' (.pair a) = t.cells (.pair a) := by
          rw [hframe a (fun h => hmem (Or.inr h)) hat, hother a hat]
        exact hmem (Or.inr (hv.owned a (hcell ▸ ha)))
    · intro a ha
      rw [(hperm.map Prod.fst).mem_iff, List.map_cons, List.mem_cons] at ha
      rcases ha with rfl | ha
      · exact Nat.lt_succ_self _
      · exact Nat.lt_succ_of_lt (hv.bound a ha)

/-! ## Rehashing -/

/-- An array of empty buckets, and a ring of the table alone.

**Proof sketch.** All runs are empty, so the ring is the one of the table, and every bucket
points at the table. -/
lemma arranged_empty {m : Links K V} (h : m .table = some ⟨some .table, some .table, none⟩)
    (n : ℕ) : Arranged m (emptyBuckets n) n ((List.range n).map fun i => (i, [])) := by
  have hslots : slotsOf ((List.range n).map fun i => (i, ([] : List (TableSlot K V)))) = [] := by
    simp [slotsOf]
  refine ⟨?_, ?_, ?_, ?_, ?_⟩
  · rw [hslots]
    exact ⟨h, trivial⟩
  · rw [hslots]
    exact List.nodup_nil
  · rw [List.map_map]
    exact List.Perm.of_eq (List.map_id' _)
  · intro r hr
    obtain ⟨i, hi, rfl⟩ := List.mem_map.mp hr
    exact if_pos (List.mem_range.mp hi)
  · intro r hr s hs
    obtain ⟨i, -, rfl⟩ := List.mem_map.mp hr
    cases hs

/-- **The loop of a rehash** puts the pairs of the old ring into the new buckets: each link is read
before its pair is moved, so the loop follows the old ring to its end.

**Proof sketch.** Induction on the pairs `rest` that are still to be moved. Inserting a pair changes
its own cell and the new ring only, and so keeps the old links of the others. -/
lemma rehashLoop_spec {newSize : ℕ} (hpos : 0 < newSize) {rest : List (TableSlot K V)} :
    ∀ {m : Links K V} {buckets : ℕ → Option Bucket} {runs : BucketRuns K V} {fuel : ℕ},
      Arranged m buckets newSize runs → Path m (rest.map slotCell) (some .table) →
      ((slotsOf runs ++ rest).map Prod.fst).Nodup → rest.length < fuel →
      ∃ m' buckets' runs',
        rehashLoop newSize fuel m buckets (firstOf rest) = some (m', buckets') ∧
        Arranged m' buckets' newSize runs' ∧ (slotsOf runs').Perm (slotsOf runs ++ rest) ∧
        ∀ a ∉ (slotsOf runs ++ rest).map Prod.fst, m' (.pair a) = m (.pair a) := by
  induction rest with
  | nil =>
    intro m buckets runs fuel harranged _ _ hfuel
    obtain ⟨fuel, rfl⟩ : ∃ k, fuel = k + 1 := ⟨fuel - 1, by omega⟩
    exact ⟨m, buckets, runs, rfl, harranged, by simp, fun _ _ => rfl⟩
  | cons s rest ih =>
    intro m buckets runs fuel harranged hpath hnodup hfuel
    obtain ⟨fuel, rfl⟩ : ∃ k, fuel = k + 1 := ⟨fuel - 1, by omega⟩
    obtain ⟨⟨p, hcell⟩, hrest⟩ := hpath
    rw [entry_map_slotCell] at hcell
    have hcell' : m (.pair s.1) = some ⟨p, some (firstOf rest), some s.2⟩ := hcell
    have hout := fst_not_mem_of_nodup hnodup
    have hs : s.1 ∉ (slotsOf runs).map Prod.fst := by
      intro hmem
      rw [List.map_append] at hout
      exact hout (List.mem_append_left _ hmem)
    obtain ⟨bucket, m₁, bucket', runs₁, l₁, l₂, hbucket, hinsert, harranged₁, hslots, hslots₁,
      hframe⟩ := insertToBucket_spec harranged (bucketIndex_lt s.2.hash hpos) rfl hs hcell'
    have hperm : (slotsOf runs₁ ++ rest).Perm (slotsOf runs ++ s :: rest) := by
      rw [hslots, hslots₁]
      exact (List.perm_middle.append_right rest).trans List.perm_middle.symm
    have hkeep : ∀ a ∈ rest.map Prod.fst, m₁ (.pair a) = m (.pair a) := by
      intro a ha
      rw [List.map_append] at hnodup
      have hdisj := (List.nodup_append.mp hnodup).2.2
      refine hframe a (fun hmem => hdisj a hmem a ?_ rfl) fun he => ?_
      · exact List.mem_cons_of_mem _ ha
      · rw [List.map_append] at hout
        exact hout (List.mem_append_right _ (he ▸ ha))
    have hpath₁ : Path m₁ (rest.map slotCell) (some .table) := by
      refine hrest.congr fun q hq => ?_
      rw [addrs_map_slotCell] at hq
      obtain ⟨x, hx, rfl⟩ := List.mem_map.mp hq
      exact hkeep x.1 (List.mem_map_of_mem hx)
    have hlen : rest.length < fuel := by
      rw [List.length_cons] at hfuel
      omega
    obtain ⟨m', buckets', runs', hloop, harranged', hperm', hframe'⟩ :=
      ih harranged₁ hpath₁ ((hperm.map Prod.fst).nodup_iff.mpr hnodup) hlen
    refine ⟨m', buckets', runs', ?_, harranged', hperm'.trans hperm, fun a ha => ?_⟩
    · show rehashLoop newSize (fuel + 1) m buckets (.pair s.1) = _
      simp only [rehashLoop, hcell', Option.bind_eq_bind, Option.bind_some, hbucket, hinsert]
      exact hloop
    · rw [hframe' a fun hmem => ha ((hperm.map Prod.fst).mem_iff.mp hmem)]
      rw [List.map_append, List.map_cons, List.mem_append, List.mem_cons] at ha
      exact hframe a (fun hmem => ha (Or.inl hmem)) fun he => ha (Or.inr (Or.inl he))

/-- `list_init` of the table makes it a ring of its own.

**Proof sketch.** Two stores to the cell of the table. -/
lemma listInit_table {m : Links K V} {p q : Option ListPtr} (h : m .table = some ⟨p, q, none⟩) :
    ∃ m', listInit m .table = some m' ∧
      m' .table = some ⟨some .table, some .table, none⟩ ∧
      ∀ a, m' (.pair a) = m (.pair a) := by
  have hsome : (m .table).isSome = true := by rw [h, Option.isSome_some]
  refine ⟨setPrev (setNext m .table (some .table)) .table (some .table), ?_, ?_, fun a => ?_⟩
  · unfold listInit
    rw [storeNext_eq hsome, Option.bind_eq_bind, Option.bind_some,
      storePrev_eq (by simpa using hsome)]
  · rw [setPrev_self, setNext_self, h]
    rfl
  · rw [setPrev_of_ne _ _ (by simp), setNext_of_ne _ _ (by simp)]

/-- **A rehash** moves all pairs to the next larger array of buckets.

**Proof sketch.** `list_init` makes the table a ring of its own and leaves the links of the
pairs, so these are still a path to the table. `rehashLoop_spec` walks it and moves the pairs,
which stay the same up to their order. -/
lemma hashtableDoRehash_spec (hv : ValidTable fns t n runs) {n' : ℕ}
    (hn' : primes[t.numBuckets + 1]? = some n') :
    ∃ t' runs', hashtableDoRehash t true = some (t', 0) ∧ ValidTable fns t' n' runs' ∧
      (slotsOf runs').Perm (slotsOf runs) ∧ SameSetup t t' ∧ t'.pairs = t.pairs ∧
      t'.released = t.released := by
  have htable := Ring.table_cell hv.arranged.ring
  obtain ⟨m, hinit, hm, hother⟩ := listInit_table htable
  have hempty := arranged_empty hm n'
  have hslots : slotsOf ((List.range n').map fun i => (i, ([] : List (TableSlot K V)))) = [] := by
    simp [slotsOf]
  have hpath : Path m ((slotsOf runs).map slotCell) (some .table) := by
    have hring : Ring t.cells ([(.table, none)] ++ (slotsOf runs).map slotCell) :=
      hv.arranged.ring
    refine (hring.follow (by simp)).congr fun p hp => ?_
    rw [addrs_map_slotCell] at hp
    obtain ⟨x, -, rfl⟩ := List.mem_map.mp hp
    exact hother x.1
  obtain ⟨m', buckets', runs', hloop, harranged', hperm, hframe⟩ :=
    rehashLoop_spec (pos_of_primes hn') hempty hpath (by rw [hslots]; exact hv.arranged.nodup)
      hv.length_lt_fuel
  rw [hslots, List.nil_append] at hperm hframe
  refine ⟨{ t with
    buckets := buckets'
    numBuckets := t.numBuckets + 1
    cells := m' }, runs', ?_, ?_, hperm, ⟨rfl, rfl⟩, rfl, rfl⟩
  · unfold hashtableDoRehash
    simp only [numBuckets, hn', Option.bind_eq_bind, Option.bind_some, htable, hinit]
    rw [if_neg (by simp)]
    have hloop' : rehashLoop n' t.fuel m (emptyBuckets n') (firstOf (slotsOf runs)) = _ := hloop
    rw [show Hashtable.fuel { t with buckets := fun _ => none, numBuckets := t.numBuckets + 1 } =
      t.fuel from rfl, hloop']
    rfl
  · refine ⟨hn', harranged', ?_, fun s hs => hv.hashed s (hperm.mem_iff.mp hs), ?_, ?_, ?_⟩
    · rw [hperm.length_eq]
      exact hv.size
    · exact (hperm.pairwise_iff fun h => cmpKeys_comm fns h).mpr hv.distinct
    · intro a ha
      rw [(hperm.map Prod.fst).mem_iff]
      by_contra hmem
      have hcell : m' (.pair a) = t.cells (.pair a) := by rw [hframe a hmem, hother a]
      exact hmem (hv.owned a (hcell ▸ ha))
    · intro a ha
      exact hv.bound a ((hperm.map Prod.fst).mem_iff.mp ha)

/-! ## Setting -/

/-- Making room keeps all pairs.

**Proof sketch.** There is room, and nothing is done, or the table is rehashed. -/
lemma makeRoom_spec (hv : ValidTable fns t n runs) {array : Bool}
    (hroom : n ≤ t.size → array = true ∧ t.numBuckets + 1 < primes.length) :
    ∃ t' n' runs', makeRoom t array = some (t', 0) ∧ ValidTable fns t' n' runs' ∧
      (slotsOf runs').Perm (slotsOf runs) ∧ (t.size < n → n' = n ∧ slotsOf runs' = slotsOf runs) ∧
      SameSetup t t' ∧ t'.pairs = t.pairs ∧ t'.released = t.released := by
  by_cases hsize : n ≤ t.size
  · obtain ⟨rfl, hlt⟩ := hroom hsize
    obtain ⟨t', runs', hrehash, hv', hperm, hsetup, hpairs, hreleased⟩ :=
      hashtableDoRehash_spec hv (List.getElem?_eq_getElem hlt)
    refine ⟨t', _, runs', ?_, hv', hperm, fun h => by omega, hsetup, hpairs, hreleased⟩
    simp only [makeRoom, hv.count, Option.bind_eq_bind, Option.bind_some, ge_iff_le, if_pos hsize,
      hrehash]
  · refine ⟨t, n, runs, ?_, hv, List.Perm.refl _, fun _ => ⟨rfl, rfl⟩, SameSetup.refl t, rfl, rfl⟩
    simp only [makeRoom, hv.count, Option.bind_eq_bind, Option.bind_some, ge_iff_le, if_neg hsize]

/-- A table has room for a key: the pairs with other keys are fewer than the buckets, or a larger
array of buckets can be had. -/
def HasRoom (fns : KeyFns K) (t : Hashtable K V) (n : ℕ) (runs : BucketRuns K V) (key : K)
    (array : Bool) : Prop :=
  n ≤ (without fns key (slotsOf runs)).length →
    array = true ∧ t.numBuckets + 1 < primes.length

/-- The first part of `hashtable_set`: the key is deleted, and there is room for it.

**Proof sketch.** The deletion (`hashtableDoDel_spec`), and room for what is left
(`makeRoom_spec`). -/
lemma makeRoom_doDel_spec (hv : ValidTable fns t n runs) (key : K) {array : Bool}
    (hroom : HasRoom fns t n runs key array) :
    ∃ t₁ r t₂ n' runs', hashtableDoDel fns t key (fns.hashKey key) = some (t₁, r) ∧
      makeRoom t₁ array = some (t₂, 0) ∧ ValidTable fns t₂ n' runs' ∧
      (slotsOf runs').Perm (without fns key (slotsOf runs)) ∧
      ((without fns key (slotsOf runs)).length < n →
        n' = n ∧ slotsOf runs' = without fns key (slotsOf runs)) ∧
      SameSetup t t₂ ∧ t₂.pairs = t.pairs ∧
      t₂.released = t.released ++ releasesOfAll t ((slotsOf runs).filter (sameKey fns key)) := by
  obtain ⟨t₁, runs₁, hdel, hv₁, hslots₁, hsetup₁, hpairs₁, hindex₁, hreleased₁⟩ :=
    hashtableDoDel_spec hv key
  have hsize : t₁.size = (without fns key (slotsOf runs)).length := by rw [hv₁.size, hslots₁]
  have hroom₁ : n ≤ t₁.size → array = true ∧ t₁.numBuckets + 1 < primes.length := by
    rw [hsize, hindex₁]
    exact hroom
  obtain ⟨t₂, n', runs₂, hmake, hv₂, hperm, hsame, hsetup₂, hpairs₂, hreleased₂⟩ :=
    makeRoom_spec hv₁ hroom₁
  rw [hslots₁, hsize] at *
  exact ⟨t₁, _, t₂, n', runs₂, hdel, hmake, hv₂, hperm, hsame, hsetup₁.trans hsetup₂,
    hpairs₂.trans hpairs₁, hreleased₂.trans hreleased₁⟩

/-- The pairs without a key have other keys. -/
lemma cmpKeys_of_mem_without {key : K} {slots : List (TableSlot K V)} {s : TableSlot K V}
    (hs : s ∈ without fns key slots) : fns.cmpKeys s.2.key key = false := by
  simpa [sameKey] using (List.mem_filter.mp hs).2

/-- **Setting a key** replaces its pair: the old one is given back, the new one is somewhere between
the others. The others keep their order unless the table is rehashed.

**Proof sketch.** Behind the first part no pair has the key, so the new one is inserted
(`insertPair_spec`). Only a rehash moves the others. -/
lemma hashtableSet_spec (hv : ValidTable fns t n runs) (key : K) (value : Option V) {array : Bool}
    (hroom : HasRoom fns t n runs key array) :
    ∃ t' n' runs' l₁ l₂, hashtableSet fns t key value array true = some (t', 0) ∧
      ValidTable fns t' n' runs' ∧
      slotsOf runs' = l₁ ++ (t.pairs, ⟨key, value, fns.hashKey key⟩) :: l₂ ∧
      (l₁ ++ l₂).Perm (without fns key (slotsOf runs)) ∧
      ((without fns key (slotsOf runs)).length < n →
        n' = n ∧ l₁ ++ l₂ = without fns key (slotsOf runs)) ∧
      SameSetup t t' ∧ t'.pairs = t.pairs + 1 ∧
      t'.released = t.released ++ releasesOfAll t ((slotsOf runs).filter (sameKey fns key)) := by
  obtain ⟨t₁, r, t₂, n', runs₂, hdel, hmake, hv₂, hperm, hsame, hsetup, hpairs, hreleased⟩ :=
    makeRoom_doDel_spec hv key hroom
  obtain ⟨t', runs', l₁, l₂, hinsert, hv', hslots, hslots', hsetup', hpairs', hreleased'⟩ :=
    insertPair_spec hv₂ (show (⟨key, value, fns.hashKey key⟩ : Pair K V).hash = _ from rfl)
      fun s hs => cmpKeys_of_mem_without (hperm.mem_iff.mp hs)
  rw [hpairs] at hslots' hpairs'
  rw [hslots] at hperm hsame
  refine ⟨t', n', runs', l₁, l₂, ?_, hv', hslots', hperm, hsame, hsetup.trans hsetup', hpairs',
    hreleased'.trans hreleased⟩
  unfold hashtableSet
  simp only [hdel, hmake, Option.bind_eq_bind, Option.bind_some]
  exact hinsert

/-- **Setting a key without memory for the pair** deletes the key.

**Proof sketch.** The first part is the same; behind it the block of the pair is refused. -/
lemma hashtableSet_noPair (hv : ValidTable fns t n runs) (key : K) (value : Option V) {array : Bool}
    (hroom : HasRoom fns t n runs key array) :
    ∃ t' n' runs', hashtableSet fns t key value array false = some (t', -1) ∧
      ValidTable fns t' n' runs' ∧ (slotsOf runs').Perm (without fns key (slotsOf runs)) ∧
      ((without fns key (slotsOf runs)).length < n →
        n' = n ∧ slotsOf runs' = without fns key (slotsOf runs)) ∧
      SameSetup t t' ∧ t'.pairs = t.pairs ∧
      t'.released = t.released ++ releasesOfAll t ((slotsOf runs).filter (sameKey fns key)) := by
  obtain ⟨t₁, r, t₂, n', runs₂, hdel, hmake, hv₂, hperm, hsame, hsetup, hpairs, hreleased⟩ :=
    makeRoom_doDel_spec hv key hroom
  refine ⟨t₂, n', runs₂, ?_, hv₂, hperm, hsame, hsetup, hpairs, hreleased⟩
  unfold hashtableSet
  simp only [hdel, hmake, Option.bind_eq_bind, Option.bind_some]
  rfl

/-! ## Iterating -/

/-- **The step of an iterator** leads to the next pair of the ring, and ends behind the last. -/
lemma hashtableIterNext_spec (hv : ValidTable fns t n runs) {l₁ l₂ : List (TableSlot K V)}
    {s : TableSlot K V} (hslots : slotsOf runs = l₁ ++ s :: l₂) :
    hashtableIterNext t (.pair s.1) = some (l₂.head?.map fun x => .pair x.1) := by
  have hring := hv.arranged.ring
  rw [hslots] at hring
  rw [hashtableIterNext, Ring.pair_cell hring]
  cases l₂ with
  | nil => rfl
  | cons x l₂ => rfl

/-- An iterator starts at the first pair of the ring. -/
lemma hashtableIter_spec (hv : ValidTable fns t n runs) :
    hashtableIter t = some ((slotsOf runs).head?.map fun x => .pair x.1) := by
  rw [hashtableIter, hashtableIterNext, Ring.table_cell hv.arranged.ring]
  cases slotsOf runs with
  | nil => rfl
  | cons x l => rfl

/-- What an iterator at a pair gives. -/
lemma hashtableIterKey_spec (hv : ValidTable fns t n runs) {s : TableSlot K V}
    (hs : s ∈ slotsOf runs) :
    hashtableIterKey t (.pair s.1) = some s.2.key ∧
      hashtableIterValue t (.pair s.1) = some s.2.value := by
  obtain ⟨l₁, l₂, hslots⟩ := List.append_of_mem hs
  have hring := hv.arranged.ring
  rw [hslots] at hring
  have hcell := Ring.pair_cell hring
  constructor
  · simp [hashtableIterKey, listToPair, hcell]
  · simp [hashtableIterValue, listToPair, hcell]

/-! ## Closing -/

/-- **The loop of `hashtable_close`** gives back the pairs in their order: each link is read before
its pair is freed.

**Proof sketch.** Induction on the pairs to go. The link of the first is read, then the pair is
freed; the others have other addresses, so their path is still there. -/
lemma closeLoop_spec {rest : List (TableSlot K V)} :
    ∀ {t : Hashtable K V} {fuel : ℕ}, Path t.cells (rest.map slotCell) (some .table) →
      (rest.map Prod.fst).Nodup → rest.length < fuel →
      ∃ t', closeLoop fuel t (firstOf rest) = some t' ∧
        t'.released = t.released ++ releasesOfAll t rest ∧
        ∀ a, t'.cells (.pair a) = if a ∈ rest.map Prod.fst then none else t.cells (.pair a) := by
  induction rest with
  | nil =>
    intro t fuel _ _ hfuel
    obtain ⟨fuel, rfl⟩ : ∃ k, fuel = k + 1 := ⟨fuel - 1, by omega⟩
    exact ⟨t, rfl, by simp [releasesOfAll], fun a => by simp⟩
  | cons s rest ih =>
    intro t fuel hpath hnodup hfuel
    obtain ⟨fuel, rfl⟩ : ∃ k, fuel = k + 1 := ⟨fuel - 1, by omega⟩
    obtain ⟨⟨p, hcell⟩, hrest⟩ := hpath
    rw [entry_map_slotCell] at hcell
    have hcell' : t.cells (.pair s.1) = some ⟨p, some (firstOf rest), some s.2⟩ := hcell
    obtain ⟨hout, hnodup'⟩ := List.nodup_cons.mp hnodup
    have hother : ∀ a, a ≠ s.1 → (releasePair t s.1 s.2).cells (.pair a) = t.cells (.pair a) :=
      fun a ha => Function.update_of_ne (fun he => ha (ListPtr.pair.inj he)) _ _
    have hpath' : Path (releasePair t s.1 s.2).cells (rest.map slotCell) (some .table) := by
      refine hrest.congr fun q hq => ?_
      rw [addrs_map_slotCell] at hq
      obtain ⟨x, hx, rfl⟩ := List.mem_map.mp hq
      exact hother x.1 fun he => hout (he ▸ List.mem_map_of_mem hx)
    have hlen : rest.length < fuel := by
      rw [List.length_cons] at hfuel
      omega
    obtain ⟨t', hloop, hreleased, hcells⟩ := ih hpath' hnodup' hlen
    refine ⟨t', ?_, ?_, fun a => ?_⟩
    · show closeLoop (fuel + 1) t (.pair s.1) = _
      simp only [closeLoop, hcell', Option.bind_eq_bind, Option.bind_some]
      exact hloop
    · rw [hreleased]
      simp [releasePair, releasesOfAll]
    · rw [hcells]
      by_cases ha : a = s.1
      · subst ha
        simp [releasePair]
      · simp only [hother a ha, List.map_cons, List.mem_cons, ha, false_or]

/-- **Closing a table** gives back every pair with its key and its value, once, and leaves no pair
in memory. The buckets are not looked at.

**Proof sketch.** The walk starts behind the cell of the table and ends there
(`closeLoop_spec`). Every pair in memory is one of the ring. -/
lemma hashtableClose_spec {slots : List (TableSlot K V)} (hring : Ring t.cells (ringOf slots))
    (hnodup : (slots.map Prod.fst).Nodup) (hfuel : slots.length < t.fuel)
    (howned : ∀ a, (t.cells (.pair a)).isSome = true → a ∈ slots.map Prod.fst) :
    ∃ t', hashtableClose t = some t' ∧ t'.released = t.released ++ releasesOfAll t slots ∧
      ∀ a, t'.cells (.pair a) = none := by
  have hsplit : Ring t.cells ([(.table, none)] ++ slots.map slotCell) := hring
  obtain ⟨t', hloop, hreleased, hcells⟩ :=
    closeLoop_spec (t := t) (hsplit.follow (by simp)) hnodup hfuel
  refine ⟨{ t' with buckets := fun _ => none }, ?_, hreleased, fun a => ?_⟩
  · unfold hashtableClose
    simp only [Ring.table_cell hring, Option.bind_eq_bind, Option.bind_some, hloop]
  · show t'.cells (.pair a) = none
    rw [hcells]
    by_cases ha : a ∈ slots.map Prod.fst
    · rw [if_pos ha]
    · rw [if_neg ha]
      by_contra hne
      exact ha (howned a (Option.ne_none_iff_isSome.mp hne))

end ValidTable

/-! ## The new table -/

/-- A new table has no pairs.

**Proof sketch.** A new table has five empty buckets and a ring of its own. -/
lemma hashtableInit_spec (fns : KeyFns K) (freeKey freeValue : Bool) :
    ∃ t runs, hashtableInit K V freeKey freeValue true = some t ∧ ValidTable fns t 5 runs ∧
      slotsOf runs = [] ∧ t.freeKey = freeKey ∧ t.freeValue = freeValue ∧ t.pairs = 0 ∧
      t.released = [] := by
  have hslots : slotsOf ((List.range 5).map fun i => (i, ([] : List (TableSlot K V)))) = [] := by
    simp [slotsOf]
  refine ⟨_, (List.range 5).map fun i => (i, []), rfl, ?_, hslots, rfl, rfl, rfl, rfl⟩
  refine ⟨rfl, arranged_empty (Function.update_self _ _ _) 5, ?_, ?_, ?_, ?_, ?_⟩
  · rw [hslots]
    rfl
  · rw [hslots]
    simp
  · rw [hslots]
    exact List.Pairwise.nil
  · intro a ha
    simp at ha
  · rw [hslots]
    simp

end Taningia
